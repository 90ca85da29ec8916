import GraphQuery.Proofs.CypherScripts
import GraphQuery.Proofs.Levels
import GraphQuery.Proofs.Repetitions

/-!
# GraphQuery.Proofs.OrderedLists — lists in the order of their edges

The list of a property may keep the order of its edges, with its repetitions.

1. **Traversals** of AQL: what a property writes before and after the traversals below it, and
   where all this stands in a script.
2. **Hops** in the order of their edges.
3. **Values** of Cypher, and where they stand in a script.
4. **Matches** in the order of their last edges.
5. **Statements**.
-/

namespace GraphQuery

namespace Property

/-- What follows edges is no merge. -/
theorem isMerge_of_edgeSteps {p : Property} (h : p.edgeSteps ≠ []) : p.isMerge = false := by
  have hpath : p.path ≠ [] := by
    rintro hempty
    exact h (by simp [edgeSteps, hempty])
  simp [isMerge, hpath]

theorem isLeaf_of_mem_subtrees {p q : Property} (h : p ∈ subtrees q.children) :
    q.isLeaf = false := by
  cases hchildren : q.children with
  | nil => simp [hchildren, subtrees] at h
  | cons c rest => simp [isLeaf, hchildren]

/-- What has children and is no merge follows edges. -/
theorem edgeSteps_ne_nil {p : Property} (hmerge : p.isMerge = false) (hleaf : p.isLeaf = false) :
    p.edgeSteps ≠ [] := by
  have hpath : p.path ≠ [] := by simpa [isMerge, hleaf] using hmerge
  simpa [edgeSteps, hleaf] using hpath

/-- What follows edges and has no attribute at their end has children. -/
theorem leafStep?_eq_none_iff {p : Property} (h : p.edgeSteps ≠ []) :
    p.leafStep? = none ↔ p.isLeaf = false := by
  unfold edgeSteps at h
  unfold leafStep?
  cases hleaf : p.isLeaf with
  | false => simp
  | true =>
    have hpath : p.path ≠ [] := by
      rintro hempty
      simp [hleaf, hempty] at h
    simp [hpath]

end Property

namespace Aql

variable {plan : Plan}

/-! ## Traversals -/

/-- The document that the path of a property leads to. -/
def lastDoc (p : Property) : Fragment := hopDoc p (p.edgeSteps.length - 1)

/-- What a property writes before the traversals below it. -/
def linesBefore (plan : Plan) (parent : Fragment) (p : Property) : Script :=
  p.edgeSteps.zipIdx.flatMap fun hop => openHop plan p parent hop.2 hop.1

/-- What the innermost sub-query of a property writes after them. -/
def ownBody (plan : Plan) (p : Property) : Script :=
  match p.leafStep? with
  | some leaf =>
    [.line (lit "FILTER " ++ attr (lastDoc p) leaf.uri ++ lit " != NULL"),
     .line (projectionStart p ++ attr (lastDoc p) leaf.uri)]
  | none => filters plan (lastDoc p) p.children ++ result (lastDoc p) p.children true

/-- All that a property writes after the traversals below it. -/
def linesAfter (plan : Plan) (p : Property) : Script :=
  ownBody plan p ++ (List.range p.edgeSteps.length).reverse.flatMap (closeHop p) ++ closing p ++
    (if p.hasGrouping then grouping p else [])

/-- The body of a traversal begins with the traversals below it. -/
theorem body_eq_ownBody (plan : Plan) (p : Property) :
    body plan (lastDoc p) p = traversals plan (lastDoc p) p.children ++ ownBody plan p := by
  unfold body ownBody
  cases hleaf : p.leafStep? with
  | none => simp only [List.append_assoc]
  | some leaf =>
    -- a leaf has nothing below it
    have hchildren : p.children = [] := by
      rw [Property.leafStep?, Option.ite_none_right_eq_some, Property.isLeaf, List.isEmpty_iff]
        at hleaf
      exact hleaf.1
    rw [hchildren, traversals]
    rfl

/-- The lines before and after the traversals below it make up a traversal. -/
theorem traversal_eq_lines {p : Property} (h : p.edgeSteps ≠ []) (parent : Fragment) :
    traversal plan parent p = linesBefore plan parent p ++
      traversals plan (lastDoc p) p.children ++ linesAfter plan p := by
  rw [traversal_eq_hopLists, Property.isMerge_of_edgeSteps h, if_neg h, hopLists_eq, Nat.zero_add,
    ← lastDoc, body_eq_ownBody, ← List.range_eq_range']
  simp [linesBefore, linesAfter]

/-- The traversal of a property stands among those of any level above it. -/
theorem exists_traversal_infix {p : Property} {ps : List Property} (hp : p ∈ Property.subtrees ps)
    {parent : Fragment} (hparent : IsDocument parent) :
    ∃ doc, IsDocument doc ∧ traversal plan doc p <:+: traversals plan parent ps := by
  induction ps using Property.forest_induction generalizing parent with
  | nil => simp [Property.subtrees] at hp
  | cons q rest ihchildren ihrest =>
    rw [Property.subtrees_cons, List.mem_cons, List.mem_append] at hp
    rw [traversals]
    rcases hp with rfl | hp | hp
    · exact ⟨parent, hparent, (List.prefix_append _ _).isInfix⟩
    · suffices h : ∃ doc, IsDocument doc ∧ traversal plan doc p <:+: traversal plan parent q by
        obtain ⟨doc, hdoc, hplaced⟩ := h
        exact ⟨doc, hdoc, hplaced.trans (List.prefix_append _ _).isInfix⟩
      cases hmerge : q.isMerge with
      | true =>
        -- the children of a merge stand in its place
        rw [traversal_eq_hopLists, if_pos hmerge]
        exact ihchildren hp hparent
      | false =>
        have hsteps := Property.edgeSteps_ne_nil hmerge (Property.isLeaf_of_mem_subtrees hp)
        obtain ⟨doc, hdoc, hplaced⟩ := ihchildren hp (.hop q (q.edgeSteps.length - 1))
        rw [traversal_eq_lines hsteps]
        exact ⟨doc, hdoc, hplaced.trans (List.infix_append _ _ _)⟩
    · obtain ⟨doc, hdoc, hplaced⟩ := ihrest hp hparent
      exact ⟨doc, hdoc, hplaced.trans (List.suffix_append _ _).isInfix⟩

/-- Each property of the query has its traversal in the script. -/
theorem exists_traversal_script {p : Property} (hp : p ∈ plan.spec.allProperties) :
    ∃ doc, IsDocument doc ∧ traversal plan doc p <:+: script plan := by
  obtain ⟨doc, hdoc, hplaced⟩ : ∃ doc, IsDocument doc ∧
      traversal plan doc p <:+: traversals plan root plan.spec.properties :=
    exists_traversal_infix hp .root
  have hselection : traversals plan root plan.spec.properties <:+: selection plan :=
    List.infix_append _ _ _
  exact ⟨doc, hdoc, (hplaced.trans hselection).trans (List.prefix_append _ _).isInfix⟩

/-! ## Hops -/

/-- The tests on the documents of a hop. -/
def hopTests (plan : Plan) (p : Property) (hop : Nat) (step : Step) : Script :=
  guards plan (hopDoc p hop) ++
  (if step.types.isEmpty then []
  else [.line (lit "FILTER " ++ bound (stepAlias p hop ++ "_types") (.strings step.types) ++
    lit " ANY IN " ++ attr (hopDoc p hop) "@type")])

/-- The sub-query of a hop is sorted by the edges it follows: it visits them along with the
documents, and sorts by their numbers what passes the tests. -/
def SortsByEdge (plan : Plan) (source : Fragment) (p : Property) (hop : Nat) (step : Step)
    (script : Script) : Prop :=
  ∃ visit, script = [.line (listLine p hop), .indent, .line visit] ++ hopTests plan p hop step ++
      [.line (lit "SORT " ++ hopEdge p hop ++ lit "._orderNumber ASC")] ∧
    Reads visit ([.word "FOR", .word (variableName p (.document hop)), .comma,
      .word (variableName p (.edge hop)), .word "IN", .word "1", .word "1",
      .word (if step.reverse then "INBOUND" else "OUTBOUND")] ++ tokensOf source)

/-- The line begins the object that the innermost sub-query returns. -/
theorem distinctLine_mem_linesAfter {p : Property} (hsteps : p.edgeSteps ≠ [])
    (hnested : p.isLeaf = false) : distinctLine ∈ linesAfter plan p := by
  have hresult : distinctLine ∈ result (lastDoc p) p.children true := by
    simp [result, distinctLine]
  have hbody : distinctLine ∈ ownBody plan p := by
    unfold ownBody
    rw [(Property.leafStep?_eq_none_iff hsteps).mpr hnested]
    exact List.mem_append_right _ hresult
  simp [linesAfter, hbody]

/-- What the lines of a property have to do with the order of its edges and with repetitions. -/
structure OrdersByEdges (plan : Plan) (parent : Fragment) (p : Property) : Prop where
  unique : ∀ c ∈ linesBefore plan parent p ++ linesAfter plan p,
    .word "UNIQUE" ∉ tokensOf (written c)
  distinct : ∀ c ∈ linesBefore plan parent p ++ linesAfter plan p,
    .word "DISTINCT" ∈ tokensOf (written c) ↔ c = distinctLine
  /-- Nested objects lose their repetitions nevertheless. -/
  nested : distinctLine ∈ linesAfter plan p ↔ p.isLeaf = false
  sorted : ∀ step hop, (step, hop) ∈ p.edgeSteps.zipIdx → plan.edgeExists step = true →
    SortsByEdge plan (if hop = 0 then parent else hopDoc p (hop - 1)) p hop step
      (openHop plan p parent hop step)

section

variable {p : Property} (horder : p.ensureOrder = true)

include horder

theorem sortsByEdge_openHop {parent : Fragment} (h : Whole parent) {step : Step}
    (hexists : plan.edgeExists step = true) (hop : Nat) :
    SortsByEdge plan (if hop = 0 then parent else hopDoc p (hop - 1)) p hop step
      (openHop plan p parent hop step) := by
  have hsource : Whole (if hop = 0 then parent else hopDoc p (hop - 1)) := by
    split
    · exact h
    · exact (reads_variable p (.document (hop - 1))).whole
  have hvisit : Reads (visitLine plan p _ hop step) _ := reads_visitLine hsource p hop step
  rw [hexists, horder, Bool.and_true, if_pos rfl, if_pos rfl] at hvisit
  refine ⟨_, ?_, hvisit⟩
  rw [openHop_eq, hexists, horder, Bool.and_true, if_pos rfl, hopTests]
  simp only [List.append_assoc, List.cons_append, List.nil_append]

/-- Before the traversals below it, lines may repeat rows. -/
theorem repeating_linesBefore {parent : Fragment} (h : Repeating parent) :
    RepeatingScript (linesBefore plan parent p) :=
  .flatMap fun hop _ => repeating_openHop horder h hop.2 hop.1

theorem repeating_ownBody (hsteps : p.edgeSteps ≠ []) :
    ∀ c ∈ ownBody plan p, p.isLeaf = false ∧ c = distinctLine ∨ Repeating (written c) := by
  have hdoc : Repeating (lastDoc p) := repeating_variable p (.document _)
  intro c hc
  unfold ownBody at hc
  cases hleaf : p.leafStep? with
  | some leaf =>
    rw [hleaf] at hc
    have hattr := repeating_attr hdoc leaf.uri
    have hpresent := Template.repeating [.text "FILTER ", .slot, .text " != NULL"] (by decide) []
      [attr (lastDoc p) leaf.uri] (by simpa using hattr)
    have hlines : RepeatingScript
        [.line (lit "FILTER " ++ attr (lastDoc p) leaf.uri ++ lit " != NULL"),
          .line (projectionStart p ++ attr (lastDoc p) leaf.uri)] :=
      .append (.line (by simpa [Template.fill] using hpresent))
        (.line (repeating_projection horder hattr))
    exact .inr (hlines c hc)
  | none =>
    have hnested := (Property.leafStep?_eq_none_iff hsteps).mp hleaf
    rw [hleaf] at hc
    rcases List.mem_append.mp hc with hc | hc
    · exact .inr (repeating_filters hdoc p.children c hc)
    · exact (repeating_result hdoc p.children c hc).imp_left fun hc => ⟨hnested, hc⟩

/-- The only line that takes out repetitions is the one that begins a nested object. -/
theorem repeating_linesAfter (hsteps : p.edgeSteps ≠ []) :
    ∀ c ∈ linesAfter plan p, p.isLeaf = false ∧ c = distinctLine ∨ Repeating (written c) := by
  have hclosed : RepeatingScript ((List.range p.edgeSteps.length).reverse.flatMap (closeHop p)) :=
    .flatMap fun hop _ => repeating_closeHop horder hop
  have hgrouped : RepeatingScript (if p.hasGrouping then grouping p else []) := by
    split
    · exact repeating_grouping p
    · exact .nil
  intro c hc
  simp only [linesAfter, List.mem_append] at hc
  rcases hc with ((hc | hc) | hc) | hc
  · exact repeating_ownBody horder hsteps c hc
  · exact .inr (hclosed c hc)
  · exact .inr (repeating_closing p c hc)
  · exact .inr (hgrouped c hc)

/-- A traversal with an edge orders by its edges. -/
theorem ordersByEdges (hsteps : p.edgeSteps ≠ []) {parent : Fragment} (h : IsDocument parent) :
    OrdersByEdges plan parent p := by
  have hparent := repeating_document h
  have hafter : ∀ c ∈ linesAfter plan p, _ := repeating_linesAfter horder hsteps
  have hall : ∀ c ∈ linesBefore plan parent p ++ linesAfter plan p,
      c = distinctLine ∨ Repeating (written c) :=
    List.forall_mem_append.mpr ⟨fun c hc => .inr (repeating_linesBefore horder hparent c hc),
      fun c hc => (hafter c hc).imp_left And.right⟩
  constructor
  case unique =>
    intro c hc
    rcases hall c hc with rfl | hrepeating
    · simp [tokensOf_distinctLine]
    · exact hrepeating.not_mem (by decide)
  case distinct =>
    intro c hc
    constructor
    · intro hword
      exact (hall c hc).resolve_right fun hrepeating => hrepeating.not_mem (by decide) hword
    · rintro rfl
      simp [tokensOf_distinctLine]
  case nested =>
    constructor
    · intro hline
      exact ((hafter _ hline).resolve_right not_repeating_distinctLine).1
    · exact distinctLine_mem_linesAfter hsteps
  case sorted =>
    intro step hop _ hexists
    exact sortsByEdge_openHop horder hparent.whole hexists hop

end

end Aql

namespace Cypher

variable {plan : Plan}

/-! ## Values -/

/-- What is sorted holds the list. -/
theorem infix_sortMaps (list : Fragment) (keys : List Property) : list <:+: sortMaps list keys := by
  unfold sortMaps
  split
  · exact List.infix_rfl
  · exact ⟨lit "apoc.coll.sortMulti(", _, by simp only [List.append_assoc]; rfl⟩

/-- So does what is grouped. -/
theorem infix_grouping (list : Fragment) (p : Property) : list <:+: grouping list p := by
  have hgroups : list <:+: groups list p :=
    .trans ⟨lit "apoc.coll.toSet([" ++ localName p "_x" ++ lit " IN ", _,
      by simp only [List.append_assoc]; rfl⟩ (infix_sortMaps _ p.groupSortKeys)
  rw [grouping_eq]
  exact hgroups.trans ⟨lit "[" ++ localName p "_g" ++ lit " IN ", _,
    by simp only [List.append_assoc]; rfl⟩

/-- So does what is shaped. -/
theorem infix_shape (p : Property) (list : Fragment) : list <:+: shape p list := by
  have hsorted : list <:+: if p.sort then lit "apoc.coll.sort(" ++ list ++ lit ")" else list := by
    split
    · exact List.infix_append _ _ _
    · exact List.infix_rfl
  unfold shape
  dsimp only
  generalize (if p.sort then lit "apoc.coll.sort(" ++ list ++ lit ")" else list) = sorted
    at hsorted ⊢
  have hgrouped : list <:+: if p.hasGrouping then grouping sorted p else sorted := by
    split
    · exact hsorted.trans (infix_grouping sorted p)
    · exact hsorted
  generalize (if p.hasGrouping then grouping sorted p else sorted) = grouped at hgrouped ⊢
  refine hgrouped.trans ?_
  split
  · exact List.infix_append _ _ _
  · exact ⟨lit "apoc.text.join([" ++ localName p "_x" ++ lit " IN ", _,
      by simp only [List.append_assoc]; rfl⟩
  · exact List.infix_rfl

/-- A comprehension holds its projection. -/
theorem infix_comprehension (parent : Fragment) (p : Property) (conditions : List Fragment)
    (projection : Fragment) :
    projection <:+: comprehension plan parent p conditions projection := by
  have hkept : projection <:+: kept p projection := by
    unfold kept
    split
    · exact List.infix_append _ _ _
    · exact List.infix_rfl
  have hmatched : kept p projection <:+: matched plan parent p conditions projection :=
    List.infix_append _ _ _
  have hordered (list : Fragment) : list <:+: inOrder p list := by
    unfold inOrder
    split
    · exact ⟨lit "[" ++ localName p "_x" ++ lit " IN apoc.coll.sortMaps(", _,
        by simp only [List.append_assoc]; rfl⟩
    · exact List.infix_rfl
  have hblanks (list : Fragment) : list <:+: withoutBlanks p list := by
    unfold withoutBlanks
    split
    · exact List.infix_append _ _ _
    · exact ⟨lit "[" ++ localName p "_x" ++ lit " IN ", _,
        by simp only [List.append_assoc]; rfl⟩
  have hrepeats (list : Fragment) : list <:+: withoutRepeats p list := by
    unfold withoutRepeats
    split
    · exact List.infix_rfl
    · exact List.infix_append _ _ _
  rw [comprehension_eq]
  exact (((hkept.trans hmatched).trans (hordered _)).trans (hblanks _)).trans (hrepeats _)

theorem infix_comma {f : Fragment} {fs : List Fragment} (h : f ∈ fs) : f <:+: comma fs := by
  unfold comma Fragment.join
  induction fs with
  | nil => cases h
  | cons g rest ih =>
    cases rest with
    | nil =>
      obtain rfl := List.mem_singleton.mp h
      simp only [List.intercalate_singleton, List.infix_rfl]
    | cons e rest =>
      rw [List.intercalate_cons_cons, List.append_assoc]
      rcases List.mem_cons.mp h with rfl | h
      · exact (List.prefix_append _ _).isInfix
      · exact (ih h).trans ((List.suffix_append _ _).trans (List.suffix_append _ _)).isInfix

/-- An object has one entry for each property of its level. -/
theorem entries_eq (node : Fragment) (ps : List Property) : entries plan node ps =
    (Property.level ps).map fun p => ticked p.key ++ lit ": " ++ value plan node p := by
  induction ps using Property.forest_induction with
  | nil => rw [entries, Property.level_nil, List.map_nil]
  | cons p rest ihchildren ihrest =>
    rw [entries_cons, Property.level_cons, List.map_append, ihrest, ihchildren]
    split <;> rfl

/-- The values of the children of a property stand in its own value, if no edge on its path is
missing. -/
theorem infix_value {q : Property} (hleaf : q.isLeaf = false)
    (hexists : ∀ step ∈ q.edgeSteps, plan.edgeExists step = true) (parent : Fragment)
    {c : Property} (hc : c ∈ Property.level q.children) :
    value plan (lastNode parent q) c <:+: value plan parent q := by
  have hentry : ticked c.key ++ lit ": " ++ value plan (lastNode parent q) c ∈
      entries plan (lastNode parent q) q.children := by
    rw [entries_eq]
    exact List.mem_map_of_mem (f := fun c => _) hc
  have hdirect : q.isDirect = false := by simp [Property.isDirect, hleaf]
  have hnone : q.leafStep? = none := by simp [Property.leafStep?, hleaf]
  have hmissing : q.edgeSteps.any (fun s => !plan.edgeExists s) = false := by
    simpa using hexists
  have hobject := (List.suffix_append _ _).isInfix.trans ((infix_comma hentry).trans
    (List.infix_append (lit "\x7b") _ (lit "\x7d")))
  rw [value_eq plan parent q, hdirect, hmissing, hnone]
  exact (hobject.trans (infix_comprehension parent q _ _)).trans (infix_shape q _)

/-- The value of a property stands in that of a property of any level above it, unless it is in the
list of a property whose path follows a missing edge. -/
theorem exists_value_infix {p : Property} (hsteps : p.edgeSteps ≠ []) {ps : List Property}
    (hp : p ∈ Property.subtrees ps)
    (hexists : ∀ q ∈ Property.subtrees ps, p ∈ q.subtree →
      ∀ step ∈ q.edgeSteps, plan.edgeExists step = true)
    {parent : Fragment} (hparent : IsNode parent) :
    ∃ q ∈ Property.level ps, q.isDirect = false ∧
      ∃ node, IsNode node ∧ value plan node p <:+: value plan parent q := by
  have hdirect {q : Property} (h : q.isMerge = false) := Aql.isDirect_iff h
  induction ps using Property.forest_induction generalizing parent with
  | nil => simp [Property.subtrees] at hp
  | cons q rest ihchildren ihrest =>
    rw [Property.subtrees_cons] at hp hexists
    rw [Property.level_cons]
    simp only [List.mem_cons, List.mem_append] at hp hexists ⊢
    rcases hp with rfl | hp | hp
    · have hmerge := Property.isMerge_of_edgeSteps hsteps
      refine ⟨p, .inl (by simp [hmerge]), ?_, parent, hparent, List.infix_rfl⟩
      rw [← Bool.not_eq_true, hdirect hmerge]
      exact hsteps
    · have hbelow : ∀ c ∈ Property.subtrees q.children, p ∈ c.subtree →
          ∀ step ∈ c.edgeSteps, plan.edgeExists step = true :=
        fun c hc => hexists c (.inr (.inl hc))
      cases hmerge : q.isMerge with
      | true =>
        -- the children of a merge stand in its place
        obtain ⟨c, hc, hfound⟩ := ihchildren hp hbelow hparent
        exact ⟨c, .inl hc, hfound⟩
      | false =>
        have hleaf := Property.isLeaf_of_mem_subtrees hp
        have hpath : ∀ step ∈ q.edgeSteps, plan.edgeExists step = true := by
          refine hexists q (.inl rfl) ?_
          rw [Property.subtree_eq]
          exact .tail _ hp
        obtain ⟨c, hc, -, node, hnode, hplaced⟩ := ihchildren hp hbelow (hparent.last q)
        have hvalue := infix_value hleaf hpath parent hc
        refine ⟨q, .inl (by simp), by simp [Property.isDirect, hleaf], node, hnode, ?_⟩
        exact hplaced.trans hvalue
    · obtain ⟨f, hf, hfound⟩ := ihrest hp (fun f hf => hexists f (.inr (.inr hf))) hparent
      exact ⟨f, .inr hf, hfound⟩

/-- Each property of the query has its value in a line of the script. -/
theorem exists_value_script {p : Property} (hsteps : p.edgeSteps ≠ [])
    (hp : p ∈ plan.spec.allProperties)
    (hexists : ∀ q ∈ plan.spec.allProperties, p ∈ q.subtree →
      ∀ step ∈ q.edgeSteps, plan.edgeExists step = true) :
    ∃ node line, IsNode node ∧ .line line ∈ script plan ∧ value plan node p <:+: line := by
  obtain ⟨q, hq, hdirect, node, hnode, hplaced⟩ := exists_value_infix hsteps hp hexists .root
  have hlists : q ∈ (Property.level plan.spec.properties).filter fun p => !p.isDirect :=
    List.mem_filter.mpr ⟨hq, by simp [hdirect]⟩
  have hentry := List.mem_map_of_mem
    (f := fun p => value plan root p ++ lit " AS " ++ named p.aliasName) hlists
  have hline := (infix_comma hentry).trans (List.suffix_append (lit "WITH root, ") _).isInfix
  refine ⟨node, _, hnode, ?_, (hplaced.trans ?_).trans hline⟩
  · have hne : ((Property.level plan.spec.properties).filter fun p => !p.isDirect).isEmpty =
        false := by
      rw [List.isEmpty_eq_false_iff]
      exact List.ne_nil_of_mem hlists
    refine List.mem_append_left _ ?_
    simp [selection, hne]
  · exact ⟨[], _, by simp only [List.append_assoc]; rfl⟩

/-! ## Matches -/

/-- A name with a number in front is one word. -/
theorem reads_alias (p : Property) {suffix : String} (hsuffix : IsWord suffix) :
    Aql.Reads (named (p.aliasName ++ suffix)) [.word (p.aliasName ++ suffix)] := by
  have hword := isWord_append (isWord_aliasName p) hsuffix
  refine Aql.reads_word (fun c hc => ?_) ?_ ?_
  · rcases hword c hc with halnum | rfl
    · simp [Aql.isWordChar, halnum]
    · decide
  · simp [Property.aliasName]
  · rw [Fragment.symbols_named, hword.safe_eq]

/-- A pattern is read as its edge, followed by its node in brackets. -/
theorem reads_edgePattern {edge node : Fragment} {es ns : List Aql.Token}
    (hedge : Aql.Reads edge es) (hnode : Aql.Reads node ns) (relation : String) :
    Aql.Reads (lit "-[" ++ (edge ++ lit ":" ++ ticked relation) ++ lit "]->(" ++ node ++ lit ")")
        (es ++ [.opening] ++ ns ++ [.closing]) ∧
      Aql.Reads (lit "<-[" ++ (edge ++ lit ":" ++ ticked relation) ++ lit "]-(" ++ node ++ lit ")")
        (es ++ [.opening] ++ ns ++ [.closing]) := by
  have hforward : Aql.Template.read .start [.text "-[", .slot, .text ":", .text "`", .quoted,
      .text "`", .text "]->(", .slot, .text ")"] =
      some ([none, some .opening, none, some .closing], true) := by decide
  have hbackward : Aql.Template.read .start [.text "<-[", .slot, .text ":", .text "`", .quoted,
      .text "`", .text "]-(", .slot, .text ")"] =
      some ([none, some .opening, none, some .closing], true) := by decide
  have hwhole : ∀ f ∈ [edge, node], Aql.Whole f := by simpa using ⟨hedge.whole, hnode.whole⟩
  have hfirst := Aql.Template.reads _ hforward [relation] [edge, node] hwhole
  have hsecond := Aql.Template.reads _ hbackward [relation] [edge, node] hwhole
  constructor
  · simpa [Aql.Template.fill, Aql.Template.splice, ticked, hedge.tokens, hnode.tokens] using hfirst
  · simpa [Aql.Template.fill, Aql.Template.splice, ticked, hedge.tokens, hnode.tokens] using hsecond

/-- The words of a hop's pattern. Only the last edge of an ordered path has a name. -/
theorem reads_hopPattern {p : Property} (horder : p.ensureOrder = true) (hop : Nat) (step : Step) :
    Aql.Reads (hopPattern p hop step)
      ((if hop + 1 = p.edgeSteps.length then [.word (p.aliasName ++ "_edge")] else []) ++
        [.opening] ++ [.word (p.aliasName ++ ("_n" ++ toString hop))] ++ [.closing]) := by
  have hnode : Aql.Reads (hopNode p hop) [.word (p.aliasName ++ ("_n" ++ toString hop))] := by
    rw [hopNode, String.append_assoc]
    exact reads_alias p (isWord_append (by decide) (isWord_toString hop))
  have hedge : Aql.Reads (if hop + 1 = p.edgeSteps.length then edgeVariable p else [])
      (if hop + 1 = p.edgeSteps.length then [.word (p.aliasName ++ "_edge")] else []) := by
    split
    · exact reads_alias p (by decide)
    · exact Aql.reads_nil
  obtain ⟨hforward, hbackward⟩ := reads_edgePattern hedge hnode step.uri
  unfold hopPattern
  simp only [horder, Bool.and_true, decide_eq_true_eq]
  cases step.reverse
  · exact hforward
  · exact hbackward

/-- Only the pattern of the last edge names its edge. -/
theorem mem_hopPattern_iff {p : Property} (horder : p.ensureOrder = true) (hop : Nat)
    (step : Step) : .word (p.aliasName ++ "_edge") ∈ Aql.tokensOf (hopPattern p hop step) ↔
      hop + 1 = p.edgeSteps.length := by
  have hne : "_edge" ≠ "_n" ++ hop.repr := by
    simp [← String.toList_inj]
  rw [(reads_hopPattern horder hop step).tokens]
  by_cases hlast : hop + 1 = p.edgeSteps.length
  · simp [hlast]
  · simp [hlast, hne]

/-- The values of some matches, in the order of the numbers that an edge of each match has. -/
def orderedMatches (p : Property) (pattern edge projection : Fragment) : Fragment :=
  lit "[" ++ localName p "_x" ++ lit " IN apoc.coll.sortMaps(" ++
    (lit "[" ++ pattern ++ lit " | " ++
      (lit "\x7bo: " ++ edge ++ lit "._orderNumber, v: " ++ projection ++ lit "\x7d") ++ lit "]") ++
    lit ", '^o') | " ++ localName p "_x" ++ lit ".v]"

/-- The conditions under which a match is kept. -/
def matchConditions (plan : Plan) (node : Fragment) (p : Property) : List Fragment :=
  pathConditions plan p ++
    if p.isLeaf then [] else conditions plan (lastNode node p) p.children

/-- What a match is turned into: an attribute of its last node, or an object. -/
def matchValue (plan : Plan) (node : Fragment) (p : Property) : Fragment :=
  match p.leafStep? with
  | some leaf => attr (lastNode node p) leaf.uri
  | none => lit "\x7b" ++ comma (entries plan (lastNode node p) p.children) ++ lit "\x7d"

/-- What the list of a property has to do with the order of its edges. It keeps repetitions, and is
sorted by the number of an edge that its pattern names. -/
structure OrdersByLastEdge (plan : Plan) (node : Fragment) (p : Property) (list : Fragment) :
    Prop where
  list : list = shape p (withoutBlanks p (orderedMatches p
    (pathPattern node p ++ whereClause " WHERE " (matchConditions plan node p)) (edgeVariable p)
    (matchValue plan node p)))
  named : ∀ step hop, (step, hop) ∈ p.edgeSteps.zipIdx →
    (.word (p.aliasName ++ "_edge") ∈ Aql.tokensOf (hopPattern p hop step) ↔
      hop + 1 = p.edgeSteps.length)
  /-- The order of the other hops is lost. -/
  all : (∀ step hop, (step, hop) ∈ p.edgeSteps.zipIdx →
    .word (p.aliasName ++ "_edge") ∈ Aql.tokensOf (hopPattern p hop step)) ↔
      p.edgeSteps.length = 1

/-- The list of an ordered property, where no edge on its path is missing. -/
theorem value_of_ordered {p : Property} (horder : p.ensureOrder = true) (hsteps : p.edgeSteps ≠ [])
    (hexists : ∀ step ∈ p.edgeSteps, plan.edgeExists step = true) (node : Fragment) :
    value plan node p = shape p (withoutBlanks p (orderedMatches p
      (pathPattern node p ++ whereClause " WHERE " (matchConditions plan node p)) (edgeVariable p)
      (matchValue plan node p))) := by
  have hdirect : p.isDirect = false := by
    rw [← Bool.not_eq_true, Aql.isDirect_iff (Property.isMerge_of_edgeSteps hsteps)]
    exact hsteps
  have hmissing : p.edgeSteps.any (fun s => !plan.edgeExists s) = false := by simpa using hexists
  have hlist (conditions : List Fragment) (projection : Fragment) :
      comprehension plan node p conditions projection = withoutBlanks p (orderedMatches p
        (pathPattern node p ++ whereClause " WHERE " (pathConditions plan p ++ conditions))
        (edgeVariable p) projection) := by
    rw [comprehension_eq, withoutRepeats, if_pos horder, inOrder, if_pos horder, matched, kept,
      if_pos horder]
    simp only [orderedMatches, List.append_assoc]
  rw [value_eq, hdirect, hmissing, if_neg Bool.false_ne_true, if_neg Bool.false_ne_true]
  unfold matchConditions matchValue
  cases hstep : p.leafStep? with
  | some leaf =>
    have hleaf : p.isLeaf = true := (Option.ite_none_right_eq_some.mp hstep).1
    rw [if_pos hleaf]
    exact congrArg (shape p) (hlist _ _)
  | none =>
    have hleaf := (Property.leafStep?_eq_none_iff hsteps).mp hstep
    rw [hleaf, if_neg Bool.false_ne_true]
    exact congrArg (shape p) (hlist _ _)

/-- A value with an edge orders by the last of its edges. -/
theorem ordersByLastEdge {p : Property} (horder : p.ensureOrder = true)
    (hsteps : p.edgeSteps ≠ []) (hexists : ∀ step ∈ p.edgeSteps, plan.edgeExists step = true)
    (node : Fragment) : OrdersByLastEdge plan node p (value plan node p) := by
  have hnamed (step : Step) (hop : Nat) := mem_hopPattern_iff horder hop step
  constructor
  case list => exact value_of_ordered horder hsteps hexists node
  case named => exact fun step hop _ => hnamed step hop
  case all =>
    constructor
    · -- the first hop is the last one
      intro hall
      obtain ⟨first, rest, hcons⟩ := List.exists_cons_of_ne_nil hsteps
      have hfirst : (first, 0) ∈ p.edgeSteps.zipIdx := by simp [hcons]
      exact ((hnamed first 0).mp (hall first 0 hfirst)).symm
    · intro hone step hop hhop
      have hlt := (List.mem_zipIdx hhop).2.1
      exact (hnamed step hop).mpr (by omega)

end Cypher

/-! ## Statements -/

theorem Compiled.exists_plan_of_mem_statements {spec : Specification} {dialect : Dialect}
    {r : Request} {s : Statement} (h : s ∈ (spec.compile dialect r).statements) :
    ∃ plan : Plan, plan.spec = spec ∧ s = .ofPlan dialect r.memory plan := by
  rcases statements_cases h with rfl | rfl
  · exact ⟨_, rfl, rfl⟩
  · exact ⟨_, rfl, rfl⟩

/-- The lists of a property that asks for the order of its edges. In AQL, the lines of the property
sort each hop by its own edges; one of them takes repetitions out all the same, namely that of a
nested object. In Cypher, the list keeps its repetitions, but only the last hop counts for its
order. -/
theorem Compiled.edges_ordered (spec : Specification) (r : Request) {p : Property}
    (hp : p ∈ spec.allProperties) (horder : p.ensureOrder = true) (hsteps : p.edgeSteps ≠ []) :
    (∀ s ∈ (spec.compile .aql r).statements, ∃ doc before after,
      s.draft = (Draft.empty .atSign).runAll (before ++ (Aql.linesBefore s.plan doc p ++
        Aql.traversals s.plan (Aql.lastDoc p) p.children ++ Aql.linesAfter s.plan p) ++ after) ∧
      Aql.OrdersByEdges s.plan doc p) ∧
    ∀ s ∈ (spec.compile .cypher r).statements,
      (∀ q ∈ spec.allProperties, p ∈ q.subtree →
        ∀ step ∈ q.edgeSteps, s.plan.edgeExists step = true) →
      ∃ node list before line after,
        s.draft = (Draft.empty .dollar).runAll (before ++ [.line line] ++ after) ∧
        list <:+: line ∧ Cypher.OrdersByLastEdge s.plan node p list := by
  constructor
  · intro s hs
    obtain ⟨plan, rfl, rfl⟩ := exists_plan_of_mem_statements hs
    obtain ⟨doc, hdoc, before, after, hscript⟩ : ∃ doc, Aql.IsDocument doc ∧
        Aql.traversal plan doc p <:+: Aql.script plan :=
      Aql.exists_traversal_script hp
    refine ⟨doc, before, after, ?_, Aql.ordersByEdges horder hsteps hdoc⟩
    rw [← Aql.traversal_eq_lines hsteps]
    exact congrArg (Draft.empty .atSign).runAll hscript.symm
  · intro s hs hexists
    obtain ⟨plan, rfl, rfl⟩ := exists_plan_of_mem_statements hs
    obtain ⟨node, line, -, hline, hplaced⟩ := Cypher.exists_value_script hsteps hp hexists
    obtain ⟨before, after, hscript⟩ := List.append_of_mem hline
    have hpath := hexists p hp p.mem_subtree_self
    refine ⟨node, _, before, line, after, ?_, hplaced,
      Cypher.ordersByLastEdge horder hsteps hpath node⟩
    rw [List.append_assoc]
    exact congrArg (Draft.empty .dollar).runAll hscript

/-- The people behind a paper are objects at the end of two hops: AQL takes repetitions among them
out, and Cypher loses the order of the authors. -/
theorem Compiled.edges_ordered_crowded :
    let aql := (Specification.crowded.compile .aql (.ofStage .released)).statement
    let cypher := (Specification.crowded.compile .cypher (.ofStage .released)).statement
    let author : Step := ⟨"author", false, []⟩
    (∃ doc before after, aql.draft = (Draft.empty .atSign).runAll (before ++
        (Aql.linesBefore aql.plan doc .people ++ Aql.traversals aql.plan (Aql.lastDoc .people)
          Property.people.children ++ Aql.linesAfter aql.plan .people) ++ after)) ∧
      Aql.distinctLine ∈ Aql.linesAfter aql.plan .people ∧
      (∃ node list before line after,
        cypher.draft = (Draft.empty .dollar).runAll (before ++ [.line line] ++ after) ∧
        list <:+: line ∧ Cypher.OrdersByLastEdge cypher.plan node .people list) ∧
      (author, 0) ∈ Property.people.edgeSteps.zipIdx ∧
      .word (Property.people.aliasName ++ "_edge") ∉
        Aql.tokensOf (Cypher.hopPattern .people 0 author) := by
  intro aql cypher author
  have hpeople : Property.people ∈ Specification.crowded.allProperties := .head _
  have hfirst : (author, 0) ∈ Property.people.edgeSteps.zipIdx := .head _
  obtain ⟨haql, hcypher⟩ :=
    edges_ordered .crowded (.ofStage .released) hpeople rfl (List.cons_ne_nil _ _)
  obtain ⟨doc, before, after, hdraft, horders⟩ := haql aql (.head _)
  -- no edge is missing where the collections are not known
  have hexists (step : Step) : cypher.plan.edgeExists step = true := rfl
  obtain ⟨node, list, before', line, after', hlines, hplaced, hlast⟩ :=
    hcypher cypher (.head _) fun _ _ _ step _ => hexists step
  have hunnamed := mt (hlast.named author 0 hfirst).mp (by decide)
  exact ⟨⟨doc, before, after, hdraft⟩, horders.nested.mpr rfl,
    ⟨node, list, before', line, after', hlines, hplaced, hlast⟩, hfirst, hunnamed⟩

end GraphQuery
