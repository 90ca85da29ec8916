import GraphQuery.Proofs.CypherScripts
import GraphQuery.Proofs.Expressions
import GraphQuery.Proofs.Lines

/-!
# GraphQuery.Proofs.Matches — nodes of Cypher statements are tested where they are matched

1. **Fragments** that are written as expressions, or as sound conditions.
2. **Names** of variables and keys.
3. **Conditions** and **shapes** of a value.
4. **Comprehensions** test every node of their path.
5. **Statements** test the root in the line after its match.
-/

namespace GraphQuery.Cypher

/-! ## Fragments -/

/-- A fragment that is written as an expression. -/
abbrev Expresses (plan : Plan) (f : Fragment) : Prop :=
  Expression plan.cypherGuards (Fragment.render .dollar f)

/-- A fragment that is written as a closed text, whose patterns are guarded. -/
abbrev States (plan : Plan) (f : Fragment) : Prop :=
  Sound plan.cypherGuards (Fragment.render .dollar f)

variable {plan : Plan}

/-- A filled template is an expression if it is closed, holds no pattern of its own, and keeps what
fills it apart. -/
theorem Expresses.of_template {f : Fragment} (t : Template) (fs : List Fragment)
    (hf : Fragment.render .dollar f = t.fill (fs.map (Fragment.render .dollar)))
    (ht : (t.isClosed && t.isPatternless && t.all Part.isApart) = true)
    (htakes : t.Takes (Expression plan.cypherGuards) IsPlaceholder
      (fs.map (Fragment.render .dollar))) : Expresses plan f := by
  rw [Expresses, hf]
  exact Template.expression ht htakes

/-- A filled template is sound if it is closed and holds no pattern of its own. -/
theorem States.of_template {f : Fragment} (t : Template) (fs : List Fragment)
    (hf : Fragment.render .dollar f = t.fill (fs.map (Fragment.render .dollar)))
    (ht : (t.isClosed && t.isPatternless) = true)
    (htakes : t.Takes (Expression plan.cypherGuards) IsPlaceholder
      (fs.map (Fragment.render .dollar))) : States plan f := by
  rw [States, hf]
  exact Template.sound ht htakes

/-- A bound value is written as a placeholder. -/
theorem isPlaceholder_bound (name : String) (value : Json.Value) :
    IsPlaceholder (Fragment.render .dollar (bound name value)) := by
  intro c hc
  simp only [Fragment.render_bound, Sigil.placeholder, Sigil.char, String.toList_append,
    Char.toString_eq_singleton, String.toList_singleton, List.mem_append, List.mem_singleton,
    Text.safe, String.toList_ofList, List.mem_filter] at hc
  -- the sigil, or a character of a safe name
  rcases hc with rfl | ⟨-, hsafe⟩
  · exact .inl rfl
  · exact .inr hsafe

/-- Joined fragments are rendered with the separator between them. -/
theorem render_join (separator : String) (fs : List Fragment) :
    Fragment.render .dollar (Fragment.join separator fs) =
      separator.intercalate (fs.map (Fragment.render .dollar)) := by
  unfold Fragment.join
  induction fs with
  | nil => simp
  | cons f rest ih =>
    cases rest with
    | nil => simp
    | cons g rest =>
      rw [List.intercalate_cons_cons, Fragment.render_append, Fragment.render_append, ih,
        Fragment.render_lit]
      simp only [List.map_cons, String.intercalate_cons_cons]

/-- A list of expressions is one. -/
theorem expresses_comma {fs : List Fragment} (h : ∀ f ∈ fs, Expresses plan f) :
    Expresses plan (comma fs) := by
  rw [Expresses, comma, render_join]
  exact expression_intercalate (by decide) (by simpa [Expresses] using h)

/-- Conditions that must hold together are an expression if each of them is. -/
theorem expresses_conjunction {fs : List Fragment} (h : ∀ f ∈ fs, Expresses plan f) :
    Expresses plan (conjunction fs) := by
  rw [Expresses, conjunction, render_join]
  exact expression_intercalate (by decide) (by simpa [Expresses] using h)

/-! ## Names -/

theorem isWord_append {a b : String} (ha : IsWord a) (hb : IsWord b) : IsWord (a ++ b) := by
  intro c hc
  rw [String.toList_append, List.mem_append] at hc
  exact hc.elim (ha c) (hb c)

/-- Numbers are words. -/
theorem isWord_toString (n : Nat) : IsWord (toString n) := by
  intro c hc
  exact .inl (by simp [Char.isAlphanum, Text.isDigit_of_mem_toString hc])

/-- The alias of a property is a word. -/
theorem isWord_aliasName (p : Property) : IsWord p.aliasName := by
  have hword : IsWord (Text.word p.name) := by
    intro c hc
    simp only [Text.word, String.toList_map, List.mem_map] at hc
    rcases hc with ⟨d, -, rfl⟩
    split
    · rename_i halnum
      exact .inl halnum
    · exact .inr rfl
  have hmark : IsWord "_" := by
    intro c hc
    exact .inr (by simpa using hc)
  exact isWord_append (isWord_append hword hmark) (isWord_toString p.index)

/-- A word has no character that is not safe. -/
theorem IsWord.safe_eq {s : String} (h : IsWord s) : Text.safe s = s := by
  apply Text.safe_eq_self
  intro c hc
  rcases h c hc with halnum | rfl
  · simp [Text.isSafe, halnum]
  · decide

/-- The name of a property's variable is a word, and none that stands between alternatives. -/
theorem alias_cases (p : Property) {suffix : String} (hsuffix : IsWord suffix) :
    IsWord (Fragment.render .dollar (named (p.aliasName ++ suffix))) ∧
      isAlternation (Fragment.render .dollar (named (p.aliasName ++ suffix))).toList = false := by
  have hword : IsWord (p.aliasName ++ suffix) := isWord_append (isWord_aliasName p) hsuffix
  rw [Fragment.render_named, hword.safe_eq]
  refine ⟨hword, ?_⟩
  -- there is an underscore in the name, but in no word between alternatives
  have hmark : '_' ∈ (p.aliasName ++ suffix).toList.map Char.toUpper :=
    List.mem_map.mpr ⟨'_', by simp [Property.aliasName], rfl⟩
  rw [Bool.eq_false_iff]
  intro halternation
  simp only [isAlternation, List.contains_iff_mem, List.mem_cons, List.not_mem_nil, or_false]
    at halternation
  rcases halternation with h | h <;> rw [h] at hmark <;> revert hmark <;> decide

/-- A variable of a property is an expression. -/
theorem expresses_alias (p : Property) {suffix : String} (hsuffix : IsWord suffix) :
    Expresses plan (named (p.aliasName ++ suffix)) :=
  (alias_cases p hsuffix).1.expression (alias_cases p hsuffix).2

theorem expresses_aliasName (p : Property) : Expresses plan (named p.aliasName) := by
  have hname : Expresses plan (named (p.aliasName ++ "")) :=
    expresses_alias p (by decide)
  rwa [String.append_empty] at hname

/-- The name of a node is a word, and none that stands between alternatives. -/
theorem node_cases {node : Fragment} (h : IsNode node) :
    IsWord (Fragment.render .dollar node) ∧
      isAlternation (Fragment.render .dollar node).toList = false := by
  cases h with
  | root =>
    have hroot : Fragment.render .dollar root = "root" := Fragment.render_lit .dollar "root"
    rw [hroot]
    exact ⟨by decide, by decide⟩
  | hop p hop =>
    have hmark : IsWord "_n" := by decide
    -- the name is that of the property, with a suffix
    have hname : p.aliasName ++ "_n" ++ toString hop = p.aliasName ++ ("_n" ++ toString hop) :=
      String.append_assoc
    rw [hopNode, hname]
    exact alias_cases p (isWord_append hmark (isWord_toString hop))

/-- The name of a node is an expression. -/
theorem expresses_node {node : Fragment} (h : IsNode node) : Expresses plan node :=
  (node_cases h).1.expression (node_cases h).2

theorem expresses_localName (p : Property) {suffix : String} (hsuffix : IsWord suffix) :
    Expresses plan (localName p suffix) := expresses_alias p hsuffix

/-- A name in backticks is an expression, whatever characters it has. -/
theorem expresses_ticked (name : String) : Expresses plan (ticked name) := by
  -- a safe name neither ends the quote nor opens a bracket
  have hticks : '`' ∉ (Text.safe name).toList ∧ '[' ∉ (Text.safe name).toList := by
    simp [Text.safe, Text.isSafe, Text.safeMarks]
  exact expression_quoted (by simp [ticked]) rfl hticks.1 hticks.2

/-- So is a property of a node. -/
theorem expresses_attr {node : Fragment} (h : Expresses plan node) (key : String) :
    Expresses plan (attr node key) :=
  .of_template [.slot, .text ".", .slot] [node, ticked key] (by simp [attr])
    (by decide) (by simpa using ⟨h, expresses_ticked key⟩)

/-- The value of a property that needs no list is an expression. -/
theorem expresses_directValue {node : Fragment} (h : Expresses plan node) (p : Property) :
    Expresses plan (directValue node p) := by
  unfold directValue
  split
  · exact expresses_attr h _
  · exact .of_template [.text "null"] [] (by simp) (by decide) (by simp)

/-! ## Conditions -/

/-- The tests of a node are sound. -/
theorem states_guards {node : Fragment} (h : Expresses plan node) :
    ∀ f ∈ guards plan node, States plan f := by
  -- the alternatives stand in parentheses of their own
  have haccess : States plan (lit "(" ++ node ++ lit "._space IN allowedSpaces OR " ++ node ++
      lit "._id IN allowedInstances)") :=
    .of_template [.text "(", .slot, .text "._space IN allowedSpaces OR ", .slot,
      .text "._id IN allowedInstances)"] [node, node] (by simp) (by decide)
      (by simpa using h)
  have hspace (spaces : Names) : States plan
      (node ++ lit "._space IN " ++ bound "spaceRestriction" (.strings spaces)) := by
    have hname : Sigil.placeholder .dollar "spaceRestriction" = "$spaceRestriction" := by decide
    exact .of_template [.slot, .text "._space IN $spaceRestriction"] [node]
      (by simp [hname]) (by decide) (by simpa using h)
  unfold guards
  rw [List.forall_mem_append]
  constructor
  · split
    · exact List.forall_mem_singleton.mpr haccess
    · simp
  · split
    · exact List.forall_mem_singleton.mpr (hspace _)
    · simp

/-- A comparison is sound on every field that is an expression. -/
theorem states_comparison {field : Fragment} (h : Expresses plan field) {op : String}
    (c : Condition) (hop : (Template.isClosed [.text "any(v IN apoc.coll.flatten([", .slot,
        .text ("]) WHERE v" ++ op), .value, .text ")"] &&
      Template.isPatternless [.text "any(v IN apoc.coll.flatten([", .slot,
        .text ("]) WHERE v" ++ op), .value, .text ")"]) = true) :
    States plan (comparison field op c) :=
  .of_template _ [field, bound c.bindName (.ofOption .string c.operand)]
    (by simp [comparison, ← String.toList_inj]) hop
    (by simpa [-Fragment.render_bound] using ⟨h, isPlaceholder_bound _ _⟩)

/-- A condition is sound on every field that is an expression. -/
theorem states_condition {field : Fragment} (h : Expresses plan field) (c : Condition) :
    States plan (condition field c) := by
  unfold condition
  split
  · -- the alternatives of an empty field stand in parentheses
    exact .of_template [.text "(", .slot, .text " IS NULL OR ", .slot, .text " = [] OR ", .slot,
      .text " = \"\")"] [field, field, field] (by simp) (by decide)
      (by simpa using h)
  all_goals exact states_comparison h c (by decide)

/-- So are the conditions of a property. -/
theorem states_conditionsOn {field : Fragment} (h : Expresses plan field) (p : Property) :
    ∀ f ∈ conditionsOn plan p field, States plan f := by
  unfold conditionsOn
  rw [List.forall_mem_append]
  constructor
  · have hrequired : States plan (field ++ lit " IS NOT NULL AND " ++ field ++
        lit " <> \"\" AND " ++ field ++ lit " <> []") :=
      .of_template [.slot, .text " IS NOT NULL AND ", .slot, .text " <> \"\" AND ", .slot,
        .text " <> []"] [field, field, field] (by simp) (by decide)
        (by simpa using h)
    split
    · exact List.forall_mem_singleton.mpr hrequired
    · simp
  · split
    · exact List.forall_mem_singleton.mpr (states_condition h _)
    · simp

/-! ## Shapes -/

/-- A sorted list is an expression, as the list is. -/
theorem expresses_sortMaps {list : Fragment} (h : Expresses plan list) (keys : List Property) :
    Expresses plan (sortMaps list keys) := by
  have hkey (c : Property) : Expresses plan (lit "'^" ++ named c.key ++ lit "'") := by
    have hticks : '\'' ∉ '^' :: (Text.safe c.key).toList ∧ '[' ∉ '^' :: (Text.safe c.key).toList := by
      simp [Text.safe, Text.isSafe, Text.safeMarks]
    exact expression_quoted (by simp) rfl hticks.1 hticks.2
  have hkeys : Expresses plan (comma (keys.map fun c => lit "'^" ++ named c.key ++ lit "'")) :=
    expresses_comma (by simpa using fun c _ => hkey c)
  unfold sortMaps
  split
  · exact h
  · generalize comma (keys.map fun c => lit "'^" ++ named c.key ++ lit "'") = items at hkeys ⊢
    exact .of_template [.text "apoc.coll.sortMulti(", .slot, .text ", [", .slot, .text "])"]
      [list, items] (by simp) (by decide) (by simpa using ⟨h, hkeys⟩)

/-- The entries of a map, taken from the keys of another one. -/
theorem expresses_entries {item : Fragment} (h : Expresses plan item) (ps : List Property) :
    Expresses plan (comma (ps.map fun c =>
      ticked c.key ++ lit ": " ++ item ++ lit "." ++ ticked c.key)) := by
  apply expresses_comma
  intro f hf
  rcases List.mem_map.mp hf with ⟨c, -, rfl⟩
  have hkey : Expresses plan (ticked c.key) := expresses_ticked c.key
  exact .of_template [.slot, .text ": ", .slot, .text ".", .slot] [ticked c.key, item, ticked c.key]
    (by simp) (by decide) (by simpa using ⟨hkey, h, hkey⟩)

/-- The groups of a list are an expression. -/
theorem expresses_groups {list : Fragment} (h : Expresses plan list) (p : Property) :
    Expresses plan (groups list p) := by
  have hx : Expresses plan (localName p "_x") := expresses_localName p (by decide)
  have hkeys := expresses_entries hx (p.children.filter Property.groupBy)
  apply expresses_sortMaps
  generalize comma ((p.children.filter Property.groupBy).map fun c =>
    ticked c.key ++ lit ": " ++ localName p "_x" ++ lit "." ++ ticked c.key) = keys at hkeys ⊢
  exact .of_template [.text "apoc.coll.toSet([", .slot, .text " IN ", .slot, .text " | \x7b", .slot,
    .text "\x7d])"] [localName p "_x", list, keys] (by simp) (by decide)
    (by simpa using ⟨hx, h, hkeys⟩)

/-- The members of a group are an expression. -/
theorem expresses_members {list : Fragment} (h : Expresses plan list) (p : Property) :
    Expresses plan (members list p) := by
  have hg : Expresses plan (localName p "_g") := expresses_localName p (by decide)
  have hy : Expresses plan (localName p "_y") := expresses_localName p (by decide)
  -- a member has the keys of its group
  have hsame : Expresses plan (conjunction ((p.children.filter Property.groupBy).map fun c =>
      localName p "_y" ++ lit "." ++ ticked c.key ++ lit " = " ++ localName p "_g" ++ lit "." ++
        ticked c.key)) := by
    apply expresses_conjunction
    intro f hf
    rcases List.mem_map.mp hf with ⟨c, -, rfl⟩
    have hkey : Expresses plan (ticked c.key) := expresses_ticked c.key
    exact .of_template [.slot, .text ".", .slot, .text " = ", .slot, .text ".", .slot]
      [localName p "_y", ticked c.key, localName p "_g", ticked c.key] (by simp) (by decide)
      (by simpa using ⟨hy, hkey, hg, hkey⟩)
  have hfields := expresses_entries hy (p.children.filter fun c => !c.groupBy)
  unfold members
  apply expresses_sortMaps
  generalize conjunction ((p.children.filter Property.groupBy).map fun c =>
    localName p "_y" ++ lit "." ++ ticked c.key ++ lit " = " ++ localName p "_g" ++ lit "." ++
      ticked c.key) = same at hsame ⊢
  generalize comma ((p.children.filter fun c => !c.groupBy).map fun c =>
    ticked c.key ++ lit ": " ++ localName p "_y" ++ lit "." ++ ticked c.key) = fields at hfields ⊢
  exact .of_template [.text "[", .slot, .text " IN ", .slot, .text " WHERE ", .slot,
    .text " | \x7b", .slot, .text "\x7d]"] [localName p "_y", list, same, fields] (by simp)
    (by decide) (by simpa using ⟨hy, h, hsame, hfields⟩)

/-- A grouped list is an expression. -/
theorem expresses_grouping {list : Fragment} (h : Expresses plan list) (p : Property) :
    Expresses plan (grouping list p) := by
  have hg : Expresses plan (localName p "_g") := expresses_localName p (by decide)
  rw [grouping_eq]
  exact .of_template [.text "[", .slot, .text " IN ", .slot, .text " | apoc.map.merge(", .slot,
    .text ", \x7b", .slot, .text ": ", .slot, .text "\x7d)]"]
    [localName p "_g", groups list p, localName p "_g", ticked (p.groupedInstances.getD ""),
      members list p] (by simp) (by decide)
    (by simpa using ⟨hg, expresses_groups h p, hg, expresses_ticked _, expresses_members h p⟩)

/-- A list that has been sorted, grouped and collapsed is an expression. -/
theorem expresses_shape {list : Fragment} (h : Expresses plan list) (p : Property) :
    Expresses plan (shape p list) := by
  have hx : Expresses plan (localName p "_x") := expresses_localName p (by decide)
  -- sorted, grouped, and then collapsed
  have hsorted : Expresses plan
      (if p.sort then lit "apoc.coll.sort(" ++ list ++ lit ")" else list) := by
    split
    · exact .of_template [.text "apoc.coll.sort(", .slot, .text ")"] [list] (by simp) (by decide)
        (by simpa using h)
    · exact h
  unfold shape
  dsimp only
  generalize (if p.sort then lit "apoc.coll.sort(" ++ list ++ lit ")" else list) = sorted
    at hsorted ⊢
  have hgrouped : Expresses plan (if p.hasGrouping then grouping sorted p else sorted) := by
    split
    · exact expresses_grouping hsorted p
    · exact hsorted
  generalize (if p.hasGrouping then grouping sorted p else sorted) = grouped at hgrouped ⊢
  split
  · exact .of_template [.text "head(", .slot, .text ")"] [grouped] (by simp) (by decide)
      (by simpa using hgrouped)
  · exact .of_template [.text "apoc.text.join([", .slot, .text " IN ", .slot, .text " | toString(",
      .slot, .text ")], ', ')"] [localName p "_x", grouped, localName p "_x"] (by simp) (by decide)
      (by simpa using ⟨hx, hgrouped, hx⟩)
  · exact hgrouped

/-! ## Comprehensions -/

/-- What is written on the edge of a hop. -/
def hopRelation (p : Property) (hop : Nat) (step : Step) : Fragment :=
  (if decide (hop + 1 = p.edgeSteps.length) && p.ensureOrder then edgeVariable p else []) ++
    lit ":" ++ ticked step.uri

/-- A hop as it is written. -/
def hopOf (p : Property) (hop : Nat) (step : Step) : Hop :=
  ⟨Fragment.render .dollar (hopRelation p hop step), Fragment.render .dollar (hopNode p hop),
    step.reverse⟩

/-- A hop is written with its relation, its node and its direction. -/
theorem render_hopPattern (p : Property) (hop : Nat) (step : Step) :
    Fragment.render .dollar (hopPattern p hop step) = (hopOf p hop step).text := by
  unfold hopPattern Hop.text
  cases hreverse : step.reverse <;> simp [hopOf, hopRelation, hreverse, String.append_assoc]

/-- What is written on an edge is an expression. -/
theorem expresses_hopRelation (p : Property) (hop : Nat) (step : Step) :
    Expresses plan (hopRelation p hop step) := by
  have hedge : Expresses plan (edgeVariable p) :=
    expresses_localName p (by decide)
  have huri : Expresses plan (ticked step.uri) := expresses_ticked step.uri
  unfold hopRelation
  split
  · exact .of_template [.slot, .text ":", .slot] [edgeVariable p, ticked step.uri] (by simp)
      (by decide) (by simpa using ⟨hedge, huri⟩)
  · exact .of_template [.text ":", .slot] [ticked step.uri] (by simp) (by decide)
      (by simpa using huri)

/-- No name can close the bracket around the edge. -/
theorem bracket_not_mem_hopRelation (p : Property) (hop : Nat) (step : Step) :
    ']' ∉ (Fragment.render .dollar (hopRelation p hop step)).toList := by
  have hsafe (s : String) : ']' ∉ (Text.safe s).toList := by
    simp [Text.safe, Text.isSafe, Text.safeMarks]
  unfold hopRelation edgeVariable localName ticked
  split <;> simp [hsafe]

/-- A hop is closed, and starts with a character that is not part of a word. -/
theorem states_hopPattern (p : Property) (hop : Nat) (step : Step) :
    States plan (hopPattern p hop step) ∧ ∃ c ∈ (Fragment.render .dollar
      (hopPattern p hop step)).toList.head?, isWordChar c = false ∧ c ≠ '(' := by
  have hrelation : Expresses plan (hopRelation p hop step) := expresses_hopRelation p hop step
  have hnode : Expresses plan (hopNode p hop) := expresses_node (.hop p hop)
  rw [States, render_hopPattern]
  -- a hop starts with a dash, or with the tip of its arrow
  unfold Hop.text
  cases hreverse : step.reverse with
  | false =>
    have hsound : Sound plan.cypherGuards (Template.fill [.text "-[", .slot, .text "]->(", .slot,
        .text ")"] [Fragment.render .dollar (hopRelation p hop step),
          Fragment.render .dollar (hopNode p hop)]) :=
      Template.sound (by decide) (by simpa using ⟨hrelation, hnode⟩)
    have hdash : isWordChar '-' = false := by decide
    simpa [hopOf, hreverse, String.append_assoc, hdash] using hsound
  | true =>
    have hsound : Sound plan.cypherGuards (Template.fill [.text "<-[", .slot, .text "]-(", .slot,
        .text ")"] [Fragment.render .dollar (hopRelation p hop step),
          Fragment.render .dollar (hopNode p hop)]) :=
      Template.sound (by decide) (by simpa using ⟨hrelation, hnode⟩)
    have hless : isWordChar '<' = false := by decide
    simpa [hopOf, hreverse, String.append_assoc, hless] using hsound

/-- A clause is written with its conditions, or not at all. -/
theorem render_whereClause (opening : String) (conditions : List Fragment) :
    Fragment.render .dollar (whereClause opening conditions) =
      clauseText opening (conditions.map (Fragment.render .dollar)) := by
  unfold whereClause clauseText
  cases conditions with
  | nil => rfl
  | cons c rest => simp [conjunction, render_join]

/-- The hops of a property's path, as they are written. -/
def hopsOf (p : Property) : List Hop := p.edgeSteps.zipIdx.map fun (step, i) => hopOf p i step

/-- A pattern is written with its parent and its hops. -/
theorem render_pathPattern (parent : Fragment) (p : Property) :
    Fragment.render .dollar (pathPattern parent p) =
      "(" ++ Fragment.render .dollar parent ++ ")" ++ String.join ((hopsOf p).map Hop.text) := by
  -- hop by hop, for any numbering
  have hhops (hops : List (Step × Nat)) :
      Fragment.render .dollar (hops.flatMap fun (step, i) => hopPattern p i step) =
        String.join ((hops.map fun (step, i) => hopOf p i step).map Hop.text) := by
    induction hops with
    | nil => simp
    | cons hop rest ih =>
      rw [List.flatMap_cons, Fragment.render_append, ih, render_hopPattern]
      simp
  simp [pathPattern, hopsOf, hhops, String.append_assoc]

/-- The pattern of a path is sound. -/
theorem states_pathPattern {parent : Fragment} (h : IsNode parent) (p : Property) :
    States plan (pathPattern parent p) := by
  have hstart : Sound plan.cypherGuards (Template.fill [.text "(", .slot, .text ")"]
      [Fragment.render .dollar parent]) :=
    Template.sound (by decide) (by simpa using expresses_node h)
  have hhops : ∀ text ∈ (hopsOf p).map Hop.text, Sound plan.cypherGuards text ∧
      ∃ c ∈ text.toList.head?, isWordChar c = false ∧ c ≠ '(' := by
    intro text htext
    simp only [hopsOf, List.map_map, List.mem_map, Function.comp_apply] at htext
    rcases htext with ⟨hop, -, rfl⟩
    have hstates : States plan (hopPattern p hop.2 hop.1) ∧ _ := states_hopPattern p hop.2 hop.1
    rwa [States, render_hopPattern] at hstates
  rw [States, render_pathPattern]
  exact sound_join (by simpa [String.append_assoc] using hstart) hhops

/-- The tests of the node to which a hop leads are sound. -/
theorem states_hopConditions (p : Property) (hop : Nat) (step : Step) :
    ∀ f ∈ hopConditions plan p hop step, States plan f := by
  have hnode : Expresses plan (hopNode p hop) := expresses_node (.hop p hop)
  unfold hopConditions
  rw [List.forall_mem_append]
  refine ⟨states_guards hnode, ?_⟩
  split
  · simp
  · refine List.forall_mem_singleton.mpr (.of_template [.text "any(l IN labels(", .slot,
      .text ") WHERE l IN ", .value, .text ")"] [hopNode p hop,
        bound (p.aliasName ++ "_types" ++ toString hop) (.strings step.types)] (by simp) (by decide)
      ?_)
    simpa [-Fragment.render_bound] using ⟨hnode, isPlaceholder_bound _ _⟩

/-- The conditions on a path are sound. -/
theorem states_pathConditions (p : Property) : ∀ f ∈ pathConditions plan p, States plan f := by
  intro f hf
  rcases List.mem_flatMap.mp hf with ⟨hop, -, hf⟩
  exact states_hopConditions p hop.2 hop.1 f hf

/-- The conditions on a path test the nodes of all its hops. -/
theorem tests_path (p : Property) {conditions : List Fragment}
    (h : ∀ c ∈ conditions, States plan c) :
    Tests plan.cypherGuards ((hopsOf p).map Hop.node)
      ((pathConditions plan p ++ conditions).map (Fragment.render .dollar)) := by
  constructor
  · intro text htext
    rcases List.mem_map.mp htext with ⟨f, hf, rfl⟩
    rcases List.mem_append.mp hf with hpath | hcondition
    · exact (states_pathConditions p f hpath).closed
    · exact (h f hcondition).closed
  · intro node hnode g hg
    simp only [hopsOf, List.map_map, List.mem_map, Function.comp_apply] at hnode
    rcases hnode with ⟨hop, hhop, rfl⟩
    -- the guards on the node of the hop are written among the conditions of the hop
    have htext : g.cypher (Fragment.render .dollar (hopNode p hop.2)) ∈
        (guards plan (hopNode p hop.2)).map (Fragment.render .dollar) := by
      rw [text_guards]
      exact List.mem_map.mpr ⟨g, hg, rfl⟩
    rcases List.mem_map.mp htext with ⟨f, hf, hrender⟩
    have hmem : f ∈ pathConditions plan p :=
      List.mem_flatMap.mpr ⟨hop, hhop, List.mem_append_left _ hf⟩
    exact List.mem_map.mpr ⟨f, List.mem_append_left _ hmem, hrender⟩

/-- The projection of a path is an expression, with or without the order of its edge. -/
theorem expresses_kept (p : Property) {projection : Fragment} (h : Expresses plan projection) :
    Expresses plan (kept p projection) := by
  have hedge : Expresses plan (edgeVariable p) :=
    expresses_localName p (by decide)
  unfold kept
  split
  · exact .of_template [.text "\x7bo: ", .slot, .text "._orderNumber, v: ", .slot, .text "\x7d"]
      [edgeVariable p, projection] (by simp) (by decide) (by simpa using ⟨hedge, h⟩)
  · exact h

/-- The pattern of a list of matches is guarded. -/
theorem expresses_matched {parent : Fragment} (hparent : IsNode parent) (p : Property)
    {conditions : List Fragment} (hconditions : ∀ c ∈ conditions, States plan c)
    {projection : Fragment} (hprojection : Expresses plan projection) :
    Expresses plan (matched plan parent p conditions projection) := by
  have hkept : Expresses plan (kept p projection) := expresses_kept p hprojection
  -- all conditions of the pattern are sound, those on its path and those given
  have hall : ∀ text ∈ (pathConditions plan p ++ conditions).map (Fragment.render .dollar),
      Sound plan.cypherGuards text := by
    intro text htext
    rcases List.mem_map.mp htext with ⟨f, hf, rfl⟩
    exact (List.mem_append.mp hf).elim (states_pathConditions p f) (hconditions f)
  have hpattern : States plan (pathPattern parent p) := states_pathPattern hparent p
  have hpath := sound_clause hpattern hall
  -- behind its first two brackets, the text is a guarded pattern
  have hguarded : GuardedPattern plan.cypherGuards (Fragment.render .dollar parent ++ ")" ++
      String.join ((hopsOf p).map Hop.text) ++ clauseText " WHERE "
        ((pathConditions plan p ++ conditions).map (Fragment.render .dollar)) ++ " | " ++
      (Fragment.render .dollar (kept p projection) ++ "]")) := by
    refine ⟨_, hopsOf p, _, _, rfl, (node_cases hparent).1, ?_, tests_path p hconditions⟩
    intro h hh
    rcases List.mem_map.mp hh with ⟨hop, -, rfl⟩
    exact ⟨(node_cases (.hop p hop.2)).1, bracket_not_mem_hopRelation p hop.2 hop.1⟩
  generalize hconds : (pathConditions plan p ++ conditions).map (Fragment.render .dollar) = texts
    at hpath hguarded
  have htext : Fragment.render .dollar (matched plan parent p conditions projection) =
      Template.fill [.text "[", .slot, .text " | ", .slot, .text "]"]
        [Fragment.render .dollar (pathPattern parent p) ++ clauseText " WHERE " texts,
          Fragment.render .dollar (kept p projection)] := by
    simp [matched, render_whereClause, ← hconds, String.append_assoc]
  rw [Expresses, htext]
  refine ⟨?_, ?_, ?_⟩
  · exact Template.closed (by decide) (by simpa using ⟨hpath.closed, hkept.closed⟩)
  · -- the patterns: that of the path itself, and those in its conditions and its projection
    have hopened := hpath.patterned.append (b := " | ") (.of_none rfl) (.inr (by simp))
    have hinner := (hopened.append hkept.patterned (.inr hkept.head)).append (b := "]")
      (.of_none rfl) (.inr (by simp))
    rw [render_pathPattern] at hinner
    have hbracket := hguarded.patterned_bracket (by simpa [String.append_assoc] using hinner)
    simpa [render_pathPattern, String.append_assoc] using hbracket
  · simp

/-- The list of a path's projections. -/
theorem expresses_comprehension {parent : Fragment} (hparent : IsNode parent) (p : Property)
    {conditions : List Fragment} (hconditions : ∀ c ∈ conditions, States plan c)
    {projection : Fragment} (hprojection : Expresses plan projection) :
    Expresses plan (comprehension plan parent p conditions projection) := by
  have hx : Expresses plan (localName p "_x") := expresses_localName p (by decide)
  have hmatched := expresses_matched hparent p hconditions hprojection
  -- in the order of their edges
  have hordered : Expresses plan
      (inOrder p (matched plan parent p conditions projection)) := by
    unfold inOrder
    split
    · exact .of_template [.text "[", .slot, .text " IN apoc.coll.sortMaps(", .slot,
        .text ", '^o') | ", .slot, .text ".v]"] [localName p "_x",
          matched plan parent p conditions projection, localName p "_x"] (by simp) (by decide)
        (by simpa using ⟨hx, hmatched, hx⟩)
    · exact hmatched
  rw [comprehension_eq]
  generalize inOrder p (matched plan parent p conditions projection) = ordered at hordered ⊢
  -- without those that hold nothing
  have hblanks : Expresses plan (withoutBlanks p ordered) := by
    unfold withoutBlanks
    split
    · exact .of_template [.text "apoc.coll.flatten(", .slot, .text ")"] [ordered] (by simp)
        (by decide) (by simpa using hordered)
    · exact .of_template [.text "[", .slot, .text " IN ", .slot, .text " WHERE any(k IN keys(",
        .slot, .text ") WHERE ", .slot, .text "[k] IS NOT NULL AND ", .slot,
        .text "[k] <> [])]"] [localName p "_x", ordered, localName p "_x", localName p "_x",
          localName p "_x"] (by simp) (by decide) (by simpa using ⟨hx, hordered, hx⟩)
  -- without repetitions
  unfold withoutRepeats
  split
  · exact hblanks
  · exact .of_template [.text "apoc.coll.toSet(", .slot, .text ")"] [withoutBlanks p ordered]
      (by simp) (by decide) (by simpa using hblanks)

/-- The value of a property is an expression at every node, by induction on the properties. -/
theorem expresses_value {parent : Fragment} (h : IsNode parent) (p : Property) :
    Expresses plan (value plan parent p) := by
  have hattr {node : Fragment} (hnode : IsNode node) (key : String) :
      Expresses plan (attr node key) := expresses_attr (expresses_node hnode) key
  -- recursion on the property: a value is an expression if those of its children are
  have hparts : OnParts plan (Expresses plan) (States plan) (Expresses plan) := {
    direct := fun p _ hnode => expresses_directValue (expresses_node hnode) p
    missing := fun p =>
      expresses_shape (.of_template [.text "[]"] [] (by simp) (by decide) (by simp)) p
    leaf := fun p _ leaf hparent =>
      expresses_shape (expresses_comprehension hparent p (by simp)
        (hattr (hparent.last p) leaf.uri)) p
    objects := fun p _ _ es hparent hcs hes =>
      expresses_shape (expresses_comprehension hparent p hcs
        (.of_template [.text "\x7b", .slot, .text "\x7d"] [comma es] (by simp) (by decide)
          (by simpa using expresses_comma hes))) p
    condition := fun p _ hv => states_conditionsOn hv p
    entry := fun p v hv =>
      .of_template [.slot, .text ": ", .slot] [ticked p.key, v] (by simp) (by decide)
        (by simpa using ⟨expresses_ticked p.key, hv⟩) }
  exact hparts.value h p

/-! ## Statements -/

/-- A marked line whose patterns are guarded. -/
def IsGuardedLine (plan : Plan) (line : String) : Prop :=
  Text.Marked line ∧ Patterned plan.cypherGuards line

/-- A command that writes such a line, which starts no match, or writes nothing. -/
def QuietCommand (plan : Plan) (c : Command) : Prop :=
  (∃ f, c = .line f ∧ IsGuardedLine plan (Fragment.render .dollar f) ∧
    ¬ "MATCH ".toList <+: (Fragment.render .dollar f).toList) ∨ ∃ o, c = .options o

/-- A script whose commands are all quiet. -/
def IsQuiet (plan : Plan) (script : Script) : Prop := ∀ c ∈ script, QuietCommand plan c

/-- A line is quiet if it is marked, if its patterns are guarded and if it starts no match. -/
theorem IsQuiet.line {f : Fragment} {line : String} (hf : Fragment.render .dollar f = line)
    (hmarked : Text.Marked line) (hpatterned : Patterned plan.cypherGuards line)
    (hmatch : ¬ "MATCH ".toList <+: line.toList) : IsQuiet plan [.line f] := by
  intro c hc
  obtain rfl := List.mem_singleton.mp hc
  exact .inl ⟨f, rfl, by rw [hf]; exact ⟨hmarked, hpatterned⟩, by rw [hf]; exact hmatch⟩

theorem IsQuiet.append {a b : Script} (ha : IsQuiet plan a) (hb : IsQuiet plan b) :
    IsQuiet plan (a ++ b) := List.forall_mem_append.mpr ⟨ha, hb⟩

/-- The access lists match nothing. -/
theorem quiet_accessLists (plan : Plan) : IsQuiet plan (accessLists plan.access) := by
  unfold accessLists
  split
  · have hspaces : Sigil.placeholder .dollar "allowedSpaces" = "$allowedSpaces" := by decide
    have hinstances : Sigil.placeholder .dollar "allowedInstances" = "$allowedInstances" := by decide
    refine .line (by simp [hspaces, hinstances]; rfl) ?_ (.of_none ?_) ?_
    · simp [Text.Marked]
    · decide
    · simp
  · intro c hc
    cases hc

/-- A clause of sound conditions matches nothing. -/
theorem quiet_clause {conditions : List Fragment} (h : ∀ c ∈ conditions, States plan c) :
    IsQuiet plan (clause conditions) := by
  have hall : Sound plan.cypherGuards
      (" AND ".intercalate (conditions.map (Fragment.render .dollar))) :=
    sound_conjunction (by simpa using h)
  unfold clause
  split
  · intro c hc
    cases hc
  · -- the clause is a line with the conjunction
    rename_i hne
    have htext : Fragment.render .dollar (whereClause "WHERE " conditions) =
        "WHERE " ++ " AND ".intercalate (conditions.map (Fragment.render .dollar)) := by
      rw [render_whereClause, clauseText, if_neg (by simpa using hne)]
    refine .line htext ?_ (.append (.of_none rfl) hall.patterned (.inl (by simp))) ?_
    · simp [Text.Marked]
    · simp

theorem IsQuiet.nil : IsQuiet plan [] := by
  intro c hc
  cases hc

/-- A line that writes an expression between two texts. -/
theorem quiet_line (opening closing : String) {f e : Fragment} (he : Expresses plan e)
    (hf : Fragment.render .dollar f = opening ++ Fragment.render .dollar e ++ closing)
    (hopening : (opensPattern opening.toList || opensPattern closing.toList) = false)
    (hclosing : closing.toList.head? ≠ some '(')
    (hmarked : Text.Marked (opening ++ (Fragment.render .dollar e ++ closing)))
    (hmatch : ¬ "MATCH ".toList <+: (opening ++ (Fragment.render .dollar e ++ closing)).toList) :
    IsQuiet plan [.line f] := by
  rw [String.append_assoc] at hf
  rw [Bool.or_eq_false_iff] at hopening
  have hinner : Patterned plan.cypherGuards (opening ++ Fragment.render .dollar e ++ closing) :=
    .append (.append (.of_none hopening.1) he.patterned (.inr he.head)) (.of_none hopening.2)
      (.inr hclosing)
  rw [String.append_assoc] at hinner
  exact .line hf hmarked hinner hmatch

/-- The value of a property at the top is an expression. -/
theorem expresses_topValue (p : Property) : Expresses plan (topValue p) := by
  unfold topValue
  split
  · exact expresses_directValue (expresses_node .root) p
  · exact expresses_aliasName p

/-- The lists of the top level stand on one line, which starts no match. -/
theorem quiet_lists (plan : Plan) (ps : List Property) : IsQuiet plan
    (if ps.isEmpty then []
    else [.line (lit "WITH root, " ++
      comma (ps.map fun p => value plan root p ++ lit " AS " ++ named p.aliasName))]) := by
  have hlists : Expresses plan
      (comma (ps.map fun p => value plan root p ++ lit " AS " ++ named p.aliasName)) := by
    apply expresses_comma
    intro f hf
    rcases List.mem_map.mp hf with ⟨p, -, rfl⟩
    exact .of_template [.slot, .text " AS ", .slot] [value plan root p, named p.aliasName] (by simp)
      (by decide) (by simpa using ⟨expresses_value .root p, expresses_aliasName p⟩)
  generalize comma (ps.map fun p => value plan root p ++ lit " AS " ++ named p.aliasName) = lists
    at hlists ⊢
  split
  · exact .nil
  · exact quiet_line "WITH root, " "" hlists (by simp) (by decide) (by simp) (by simp [Text.Marked])
      (by simp)

/-- The projection of a count statement matches nothing. -/
theorem quiet_countProjection (plan : Plan) : IsQuiet plan countProjection := by
  refine .append (a := [.line (lit "RETURN count(root) AS count")]) ?_ ?_
  · exact .line (Fragment.render_lit _ _) (by simp [Text.Marked]) (.of_none (by decide)) (by simp)
  · intro c hc
    exact .inr ⟨.none, by simpa using hc⟩

/-- The page matches nothing. -/
theorem quiet_page (plan : Plan) : IsQuiet plan (match plan.page with
    | some ⟨offset, some size, _⟩ =>
      [.line (lit "SKIP " ++ [.number offset] ++ lit " LIMIT " ++ [.number size])]
    | _ => []) := by
  have hdigits (n : Nat) : '[' ∉ Nat.toDigits 10 n := by
    intro hmem
    exact absurd (Nat.isDigit_of_mem_toDigits (by decide) (by decide) hmem) (by decide)
  split
  · refine .line rfl ?_ (.of_no_bracket ?_) ?_
    · simp [Text.Marked]
    · simp [hdigits]
    · simp
  · exact .nil

/-- The projection matches nothing. -/
theorem quiet_projection (plan : Plan) : IsQuiet plan (projection plan) := by
  -- the keys to sort by
  have hsorted : Expresses plan (comma (((Property.level plan.spec.properties).filter
      Property.sort).map topValue ++ [lit "root._id"])) := by
    apply expresses_comma
    rw [List.forall_mem_append, List.forall_mem_singleton]
    constructor
    · intro f hf
      rcases List.mem_map.mp hf with ⟨p, -, rfl⟩
      exact expresses_topValue p
    · exact .of_template [.text "root._id"] [] (by simp) (by decide) (by simp)
  -- the fields of a row
  have hfields : Expresses plan (comma ((Property.level plan.spec.properties).map fun p =>
      ticked p.key ++ lit ": " ++ topValue p)) := by
    apply expresses_comma
    intro f hf
    rcases List.mem_map.mp hf with ⟨p, -, rfl⟩
    exact .of_template [.slot, .text ": ", .slot] [ticked p.key, topValue p] (by simp) (by decide)
      (by simpa using ⟨expresses_ticked p.key, expresses_topValue p⟩)
  unfold projection
  dsimp only
  refine .append (.append ?_ (quiet_page plan)) ?_
  · exact quiet_line "ORDER BY " "" hsorted (by simp) (by decide) (by simp) (by simp [Text.Marked])
      (by simp)
  · refine .append (a := [.options _]) ?_ ?_
    · intro c hc
      exact .inr ⟨_, by simpa using hc⟩
    · exact quiet_line "RETURN \x7b" "\x7d AS row" hfields (by simp [String.append_assoc])
        (by decide) (by simp) (by simp [Text.Marked]) (by simp)

/-- The conditions on the root are sound. -/
theorem states_rootConditions (plan : Plan) : ∀ f ∈ rootConditions plan, States plan f := by
  have hroot : Expresses plan root := expresses_node .root
  unfold rootConditions
  rw [List.forall_mem_append]
  refine ⟨states_guards hroot, ?_⟩
  split
  · exact List.forall_mem_singleton.mpr (states_condition (expresses_attr hroot _) _)
  · simp

/-- All but the root of a statement matches nothing. -/
theorem quiet_rootless (plan : Plan) : IsQuiet plan (rootless plan) := by
  unfold rootless
  refine .append (.append (quiet_lists plan _) (quiet_clause ?_)) ?_
  · intro f hf
    rcases List.mem_flatMap.mp hf with ⟨p, -, hf⟩
    exact states_conditionsOn (expresses_topValue p) p f hf
  · split
    · exact quiet_countProjection plan
    · exact quiet_projection plan

/-- The root is matched by its label alone. -/
theorem rootSelection_eq (plan : Plan) : ∃ f label,
    rootSelection plan.stage plan.root = [.line f] ∧
    Fragment.render .dollar f = "MATCH " ++ ("(" ++ "root" ++ ":" ++ label) ∧
    '(' ∉ label.toList ∧ '[' ∉ label.toList := by
  -- labels are quoted, and safe names contain no brackets
  have hsafe (s : String) : '(' ∉ (Text.safe s).toList ∧ '[' ∉ (Text.safe s).toList := by
    simp [Text.safe, Text.isSafe, Text.safeMarks]
  have hid : Sigil.placeholder .dollar "rootId" = "$rootId" := by decide
  cases plan.root with
  | document id =>
    refine ⟨_, Fragment.render .dollar (ticked plan.stage.label) ++ " \x7b_id: $rootId\x7d)", rfl,
      ?_, ?_⟩
    · simp [hid, ← String.toList_inj]
    · simp [ticked, hsafe]
  | ofType type =>
    refine ⟨_, Fragment.render .dollar (ticked plan.stage.label) ++ ":" ++
      Fragment.render .dollar (ticked type) ++ ")", rfl, ?_, ?_⟩
    · simp [← String.toList_inj]
    · simp [ticked, hsafe]

/-- The lines that a quiet script writes. -/
theorem IsQuiet.lines {s : Script} (h : IsQuiet plan s) : Script.StartsLine .dollar s ∧
    ∀ line ∈ Script.lines .dollar s, IsGuardedLine plan line ∧
      ¬ "MATCH ".toList <+: line.toList := by
  -- options write nothing, so no line is continued
  have hown : Script.OwnLines s := by
    intro c hc hstarted
    rcases h c hc with ⟨f, rfl, -⟩ | ⟨o, rfl⟩
    · cases hstarted
    · rfl
  refine ⟨by rw [Script.StartsLine, hown.layout_eq], ?_⟩
  rw [Script.lines, hown.layout_eq]
  intro line hline
  rcases List.mem_filterMap.mp hline with ⟨c, hc, hrender⟩
  rcases h c hc with ⟨f, rfl, hf⟩ | ⟨o, rfl⟩
  · cases hrender
    exact hf
  · cases hrender

/-- A clause is a line of its own, unless it is empty. -/
theorem lines_clause {conditions : List Fragment} : Script.lines .dollar (clause conditions) =
    clauseLines (conditions.map (Fragment.render .dollar)) := by
  unfold clause clauseLines
  cases conditions with
  | nil => rfl
  | cons c rest =>
    rw [if_neg (by simp), if_neg (by simp), ← render_whereClause]
    simp [Script.lines]

/-- The only line with a property stands where it is found. -/
theorem split_unique {P : String → Prop} {before after xs ys : List String} {line x : String}
    (h : before ++ line :: after = xs ++ x :: ys) (hline : P line) (hxs : ∀ l ∈ xs, ¬ P l)
    (hys : ∀ l ∈ ys, ¬ P l) : line = x ∧ after = ys := by
  rcases List.append_eq_append_iff.mp h with ⟨between, rfl, htail⟩ | ⟨between, rfl, htail⟩
  · cases between with
    | nil => exact List.cons_eq_cons.mp htail
    | cons first between =>
      rcases List.cons_eq_cons.mp htail with ⟨rfl, -⟩
      -- the line would stand before the only one
      exact absurd hline (hxs _ (by simp))
  · cases between with
    | nil =>
      rcases List.cons_eq_cons.mp htail with ⟨rfl, rfl⟩
      exact ⟨rfl, rfl⟩
    | cons first between =>
      rcases List.cons_eq_cons.mp htail with ⟨-, rfl⟩
      -- the line would stand behind the only one
      exact absurd hline (hys _ (by simp))

/-- The root of a statement is matched after the lists are set, and tested in the next line. -/
theorem lines_script (plan : Plan) : ∃ label, '(' ∉ label.toList ∧ '[' ∉ label.toList ∧
    Script.lines .dollar (script plan) = Script.lines .dollar (accessLists plan.access) ++
      ("MATCH " ++ ("(" ++ "root" ++ ":" ++ label)) ::
        (clauseLines ((rootConditions plan).map (Fragment.render .dollar)) ++
          Script.lines .dollar (rootless plan)) := by
  rcases rootSelection_eq plan with ⟨f, label, hroot, hf, hparenthesis, hbracket⟩
  have hclause := (quiet_clause (states_rootConditions plan)).lines.1
  have hrest := (quiet_rootless plan).lines.1
  have hmatch : Script.StartsLine .dollar [.line f] := rfl
  refine ⟨label, hparenthesis, hbracket, ?_⟩
  -- lists, match, conditions on the root, and the rest each start a line
  rw [script_eq, Script.lines_append hrest, Script.lines_append hclause, hroot,
    Script.lines_append hmatch, lines_clause, ← hf]
  simp [Script.lines]

/-- Every line of a statement has its patterns guarded. -/
theorem guarded_lines (plan : Plan) :
    ∀ line ∈ Script.lines .dollar (script plan), IsGuardedLine plan line := by
  rcases lines_script plan with ⟨label, hparenthesis, hbracket, hlines⟩
  rw [hlines, List.forall_mem_append, List.forall_mem_cons, List.forall_mem_append, ← lines_clause]
  refine ⟨?_, ⟨?_, .of_no_bracket ?_⟩, ?_, ?_⟩
  · exact fun line hline => ((quiet_accessLists plan).lines.2 line hline).1
  · simp [Text.Marked]
  · simp [hbracket]
  · exact fun line hline => ((quiet_clause (states_rootConditions plan)).lines.2 line hline).1
  · exact fun line hline => ((quiet_rootless plan).lines.2 line hline).1

/-- The conditions on the root test it. -/
theorem tests_root (plan : Plan) : Tests plan.cypherGuards ["root"]
    ((rootConditions plan).map (Fragment.render .dollar)) := by
  have hroot : Fragment.render .dollar root = "root" := Fragment.render_lit .dollar "root"
  constructor
  · intro text htext
    rcases List.mem_map.mp htext with ⟨f, hf, rfl⟩
    exact (states_rootConditions plan f hf).closed
  · intro node hnode g hg
    -- the root is the only node
    obtain rfl := List.mem_singleton.mp hnode
    rw [rootConditions, List.map_append, text_guards, hroot]
    exact List.mem_append_left _ (List.mem_map.mpr ⟨g, hg, rfl⟩)

/-- The match of the root is followed by its tests, and is the only one. -/
theorem guarded_matches (plan : Plan) :
    GuardedMatches plan.cypherGuards (Script.lines .dollar (script plan)) := by
  rcases lines_script plan with ⟨label, hparenthesis, -, hlines⟩
  intro before pattern after hsplit
  rw [hlines] at hsplit
  have hclause := (quiet_clause (states_rootConditions plan)).lines.2
  rw [lines_clause] at hclause
  -- no other line starts a match
  obtain ⟨hmatch, hafter⟩ := split_unique (P := fun line => "MATCH ".toList <+: line.toList)
    hsplit.symm (by simp) (fun line hline => ((quiet_accessLists plan).lines.2 line hline).2)
    (fun line hline => (List.mem_append.mp hline).elim (fun h => (hclause line h).2)
      fun h => ((quiet_rootless plan).lines.2 line h).2)
  have hpattern : pattern = "(" ++ "root" ++ ":" ++ label := by
    simpa [← String.toList_inj] using hmatch
  exact ⟨"root", label, _, _, hpattern, by decide, hparenthesis, tests_root plan,
    hafter⟩

/-- A statement starts with a line of text. -/
theorem selection_eq_line (plan : Plan) :
    ∃ f rest, selection plan = .line f :: rest ∧ Fragment.render .dollar f ≠ "" := by
  unfold selection accessLists rootSelection
  cases plan.access with
  | some access => exact ⟨_, _, rfl, by simp⟩
  | none =>
    cases plan.root with
    | document id => exact ⟨_, _, rfl, by simp⟩
    | ofType type => exact ⟨_, _, rfl, by simp⟩

/-- A statement begins with a line. -/
theorem script_eq_line (plan : Plan) :
    ∃ f rest, script plan = .line f :: rest ∧ Fragment.render .dollar f ≠ "" := by
  obtain ⟨f, rest, hselection, hf⟩ := selection_eq_line plan
  exact ⟨f, _, by rw [script, hselection, List.cons_append], hf⟩

/-- Indentation and line breaks change nothing about patterns. -/
theorem patterned_lines {guards : List Guard} {raws : List (List Char)} {lines : List String}
    (h : List.Forall₂ Draft.Indented raws lines) (hlines : ∀ line ∈ lines, Patterned guards line) :
    Patterned guards (String.ofList (['\n'].intercalate raws)) := by
  induction h with
  | nil => exact .of_none rfl
  | @cons raw line raws lines hline hrest ih =>
    rw [List.forall_mem_cons] at hlines
    rcases hline with ⟨n, rfl⟩
    have hblanks : Patterned guards (String.ofList (List.replicate n ' ')) :=
      .of_no_bracket (by simp)
    -- blanks and breaks stand between the lines, so no pattern starts in two of them
    have hraw : Patterned guards (String.ofList (List.replicate n ' ' ++ line.toList)) := by
      rw [String.ofList_append, String.ofList_toList]
      exact hblanks.append hlines.1 (.inl (by cases n <;> simp [List.getLast?_replicate]))
    cases hrest with
    | nil => simpa using hraw
    | cons hnext hmore =>
      have htail := ih hlines.2
      rw [List.intercalate_cons_cons, String.ofList_append, String.ofList_append]
      exact (hraw.append (b := "\n") (.of_none rfl) (.inr (by simp))).append htail (.inl (by simp))

/-- The lines of the text are those of the script. -/
theorem lines_text (plan : Plan) : Text.lines ((Draft.empty .dollar).runAll (script plan)).text =
    Script.lines .dollar (script plan) := by
  have hlines := guarded_lines plan
  have hfits := fits_script plan
  rcases script_eq_line plan with ⟨f, rest, hscript, hf⟩
  rw [hscript] at hlines hfits ⊢
  exact Draft.lines_text hf hfits fun line hline => (hlines line hline).1

/-- All patterns in a statement are guarded. -/
theorem patterned_text (plan : Plan) :
    Patterned plan.cypherGuards ((Draft.empty .dollar).runAll (script plan)).text := by
  have hlines := guarded_lines plan
  rcases script_eq_line plan with ⟨f, rest, hscript, hf⟩
  rw [hscript] at hlines ⊢
  rcases Draft.text_eq_intercalate hf rest with ⟨raws, hraws, htext⟩
  rw [← String.ofList_toList (s := ((Draft.empty .dollar).runAll (.line f :: rest)).text), htext]
  exact patterned_lines hraws fun line hline => (hlines line hline).2

/-- The patterns that a statement matches are guarded, and the root is tested after its match. -/
theorem guarded_text (plan : Plan) :
    Patterned plan.cypherGuards ((Draft.empty .dollar).runAll (script plan)).text ∧
      GuardedMatches plan.cypherGuards
        (Text.lines ((Draft.empty .dollar).runAll (script plan)).text) := by
  rw [lines_text]
  exact ⟨patterned_text plan, guarded_matches plan⟩

end GraphQuery.Cypher
