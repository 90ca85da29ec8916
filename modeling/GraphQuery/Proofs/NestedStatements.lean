import GraphQuery.Proofs.AqlScripts
import GraphQuery.Proofs.CypherScripts
import GraphQuery.Proofs.Guards
import GraphQuery.Proofs.Nesting

/-!
# GraphQuery.Proofs.NestedStatements — no name breaks a statement

1. **AQL**: each part of a statement closes what it opens, and a traversal closes the lists of its
   hops in the opposite order.
2. **Cypher**: values are balanced, by induction on the properties.
3. **Statements** of both dialects are nested texts.
-/

namespace GraphQuery

open Json

/-! ## AQL -/

namespace Aql

variable {plan : Plan}

/-- Fragments that close what they open. -/
abbrev Balanced (f : Fragment) : Prop := Fragment.Balanced .aql f

/-- The variable of a document opens nothing. -/
theorem balanced_document {doc : Fragment} (h : IsDocument doc) : Balanced doc := by
  cases h with
  | root => exact .of_marks (by decide)
  | hop p hop => exact .named _

/-- The key of an attribute stands within backticks, which it cannot close. -/
theorem balanced_attr {doc : Fragment} (h : Balanced doc) (key : String) :
    Balanced (attr doc key) := by
  intro awaited
  simp [attr, isMark, h.read]

/-- A key stands within quotes, which it cannot close. -/
theorem balanced_quotedKey (key : String) : Balanced (quotedKey key) := by
  intro awaited
  simp [quotedKey, isMark]

theorem balanced_comma {fs : List Fragment} (h : ∀ f ∈ fs, Balanced f) : Balanced (comma fs) :=
  .join (.of_marks (by decide)) h

/-- The tests of a document close what they open. -/
theorem balanced_guards {doc : Fragment} (h : Balanced doc) :
    Script.Balanced .aql (guards plan doc) := by
  have hdoc : Balanced (lit "FILTER " ++ doc ++ lit " != NULL") := by
    intro awaited
    simp [isMark, h.read]
  have haccess : Balanced (lit "FILTER PARSE_IDENTIFIER(" ++ doc ++
      lit ").collection IN whitelist OR HAS(invitation, " ++ doc ++ lit "._key)") := by
    intro awaited
    simp [isMark, h.read]
  have hspaces (value : Value) : Balanced (lit "FILTER PARSE_IDENTIFIER(" ++ doc ++
      lit ").collection IN " ++ bound "spaceRestriction" value) := by
    intro awaited
    simp [isMark, h.read]
  unfold guards
  refine .append (.append (.line hdoc) ?_) ?_
  · split
    · exact .line haccess
    · exact .nil
  · split
    · exact .line (hspaces _)
    · exact .nil

/-- The value of a property is an attribute or a variable. -/
theorem balanced_value {doc : Fragment} (h : Balanced doc) (p : Property) :
    Balanced (value doc p) := by
  unfold value
  split
  · -- a field of the document
    split
    · exact balanced_attr h _
    · exact .of_marks (by decide)
  · split <;> exact .named _

/-- A comparison closes the brackets that it opens around its two cases. -/
theorem balanced_comparison {field : Fragment} (h : Balanced field) {op : String}
    (hop : Balanced (lit op)) (c : Condition) (operand : Option String) :
    Balanced (comparison field op c operand) := by
  have hop := hop.read
  intro awaited
  simp only [Fragment.marks_lit] at hop
  simp [comparison, isMark, h.read, hop]

/-- A condition is balanced on every field that is. -/
theorem balanced_condition {field : Fragment} (h : Balanced field) (c : Condition) :
    Balanced (condition field c) := by
  unfold condition
  split
  · intro awaited
    simp [isMark, h.read]
  all_goals exact balanced_comparison h (.of_marks (by decide)) c _

/-- The filters of a property are balanced. -/
theorem balanced_filtersOf {doc : Fragment} (h : Balanced doc) (p : Property) :
    Script.Balanced .aql (filtersOf plan doc p) := by
  have hvalue := balanced_value h p
  have hrequired : Balanced (lit "FILTER " ++ value doc p ++ lit " != NULL AND " ++ value doc p ++
      lit " != \"\" AND " ++ value doc p ++ lit " != []") := by
    intro awaited
    simp [isMark, hvalue.read]
  have hfilter (c : Condition) : Balanced (lit "FILTER " ++ condition (value doc p) c) :=
    .append (.of_marks (by decide)) (balanced_condition hvalue c)
  unfold filtersOf
  refine .append ?_ ?_
  · split
    · exact .line hrequired
    · exact .nil
  · split
    · exact .line (hfilter _)
    · exact .nil

/-- The filters of a level are balanced. -/
theorem balanced_filters {doc : Fragment} (h : Balanced doc) (ps : List Property) :
    Script.Balanced .aql (filters plan doc ps) :=
  .flatMap fun p _ => balanced_filtersOf h p

theorem balanced_entries {fs : List Fragment} (h : ∀ f ∈ fs, Balanced f) :
    Script.Balanced .aql (entries fs) := by
  induction fs with
  | nil => exact .nil
  | cons f rest ih =>
    rw [List.forall_mem_cons] at h
    cases rest with
    | nil => exact .line h.1
    | cons g rest => exact .cons (.line (h.1.append (.of_marks (by decide)))) (ih h.2)

/-- A result closes its braces. -/
theorem balanced_result {doc : Fragment} (h : Balanced doc) (ps : List Property) (nested : Bool) :
    Script.Balanced .aql (result doc ps nested) := by
  have hvalue (p : Property) : Balanced (value doc p) := balanced_value h p
  have hpresent (p : Property) : Balanced (lit "(" ++ value doc p ++ lit " != NULL AND " ++
      value doc p ++ lit " != [])") := by
    intro awaited
    simp [isMark, (hvalue p).read]
  have hentry (p : Property) : Balanced (quotedKey p.key ++ lit ": " ++ value doc p) :=
    ((balanced_quotedKey p.key).append (.of_marks (by decide))).append (hvalue p)
  have hfilter {fs : List Fragment} (hfs : ∀ f ∈ fs, Balanced f) :
      Balanced (lit "FILTER " ++ Fragment.join " OR " fs) :=
    .append (.of_marks (by decide)) (.join (.of_marks (by decide)) hfs)
  unfold result
  dsimp only
  rw [List.append_assoc, List.append_assoc]
  refine .append ?_ ?_
  · split
    · exact .line (hfilter (by simpa using fun p _ => hpresent p))
    · exact .nil
  · -- the object of the result
    rw [← List.append_assoc]
    refine (balanced_entries ?_).enclosed ['\x7d'] (fun awaited => ?_) fun awaited => ?_
    · simpa using fun p _ => hentry p
    · cases nested <;> simp [isMark]
    · simp [isMark]

/-- The variables for keys open nothing. -/
theorem balanced_groupKeys (p : Property) : ∀ k ∈ groupKeys p, Balanced k.2 := by
  intro k hk
  rcases List.mem_map.mp hk with ⟨c, -, rfl⟩
  exact .named _

theorem balanced_keyValues (p : Property) : Balanced (keyValues p) := by
  refine balanced_comma (List.forall_mem_map.mpr fun k hk => ?_)
  exact ((balanced_groupKeys p k hk).append (.of_marks (by decide))).append
    (balanced_attr (.named _) _)

theorem balanced_groupOrder (p : Property) : Script.Balanced .aql (groupOrder p) := by
  unfold groupOrder
  split
  · refine .line (.append (.of_marks (by decide)) (balanced_comma ?_))
    refine List.forall_mem_map.mpr fun k hk => ?_
    exact (balanced_groupKeys p k (mem_groupKeys_of_mem_order hk)).append (.of_marks (by decide))
  · exact .nil

theorem balanced_memberOrder (p : Property) : Balanced (memberOrder p) := by
  unfold memberOrder
  split
  · exact .nil
  · refine .append (.of_marks (by decide)) (balanced_comma ?_)
    refine List.forall_mem_map.mpr fun c _ => ?_
    exact (balanced_attr (.named _) c.key).append (.of_marks (by decide))

theorem balanced_memberFields (p : Property) : Balanced (memberFields p) := by
  refine balanced_comma (List.forall_mem_map.mpr fun c _ => ?_)
  exact ((balanced_quotedKey _).append (.of_marks (by decide))).append
    (balanced_attr (.named _) c.key)

theorem balanced_groupFields (p : Property) : Balanced (groupFields p) := by
  refine balanced_comma (List.forall_mem_append.mpr ⟨List.forall_mem_map.mpr fun k hk => ?_, ?_⟩)
  · exact ((balanced_quotedKey _).append (.of_marks (by decide))).append (balanced_groupKeys p k hk)
  · exact List.forall_mem_singleton.mpr ((balanced_quotedKey _).append (.of_marks (by decide)))

/-- Groups close what they open, over several lines. -/
theorem balanced_grouping (p : Property) : Script.Balanced .aql (grouping p) := by
  have hitems : Balanced (lit "FOR " ++ named (p.aliasName ++ "_g") ++ lit " IN " ++
      named p.aliasName) := .of_marks (by simp [isMark])
  have hcollecting : Balanced (collecting p) := by
    intro awaited
    simp [collecting, isMark, (balanced_keyValues p).read]
  have hgathering : Balanced (gathering p) := by
    intro awaited
    simp [gathering, isMark, (balanced_memberOrder p).read, (balanced_memberFields p).read]
  have hgroup : Balanced (lit "RETURN \x7b " ++ groupFields p ++ lit " \x7d") := by
    intro awaited
    simp [isMark, (balanced_groupFields p).read]
  have hlines := ((Script.Balanced.cons (.line hitems) (.line hcollecting)).append
    (balanced_groupOrder p)).append (.cons (.line hgathering) (.line hgroup))
  rw [grouping_eq]
  refine hlines.enclosed [')'] (fun awaited => ?_) fun awaited => ?_
  · simp [isMark]
  · simp [isMark]

/-! ### Traversals -/

/-- The brackets that are open within the list of a hop. -/
def hopBrackets (p : Property) : List Char := if p.ensureOrder then [')'] else [')', ')']

/-- The brackets that are open around the list of a property. -/
def outerBrackets (p : Property) : List Char :=
  (if p.sort then [')'] else []) ++ (if p.collapse.isSome then [')'] else [])

/-- What a list is wrapped in awaits the outer brackets. -/
theorem opens_opening (p : Property) (awaited : List Char) :
    Surroundings.read .aql ⟨awaited, none⟩ (Fragment.marks (opening p)) =
      some ⟨outerBrackets p ++ awaited, none⟩ := by
  unfold opening outerBrackets sortVariable
  rcases p.collapse with _ | _ | _ <;> cases p.sort <;> simp [isMark]

/-- The wrapping is closed by what follows the list. -/
theorem closes_closing (p : Property) (awaited : List Char) (n : Nat) :
    Script.Leads .aql (closing p) (outerBrackets p ++ awaited) awaited n n := by
  have hsorted (awaited : List Char) : Script.Leads .aql
      [.add (lit " SORT " ++ sortVariable p ++ lit " ASC RETURN " ++ sortVariable p ++ lit ")")]
      (')' :: awaited) awaited n n := .add n (by simp [sortVariable, isMark])
  have hcollapsed : Script.Leads .aql [.add (lit ")")] (')' :: awaited) awaited n n :=
    .add n (by simp [isMark])
  unfold closing outerBrackets
  cases p.sort <;> cases p.collapse.isSome
  · exact .nil _ _
  · exact hcollapsed
  · exact hsorted _
  · exact (hsorted _).append hcollapsed

/-- The first line of a hop awaits the brackets of its list, and the outer ones with the first
hop. -/
theorem opens_listLine (p : Property) (hop : Nat) (awaited : List Char) :
    Surroundings.read .aql ⟨awaited, none⟩ (Fragment.marks (listLine p hop)) =
      some ⟨hopBrackets p ++ ((if hop = 0 then outerBrackets p else []) ++ awaited), none⟩ := by
  have hopening := opens_opening p awaited
  unfold listLine hopBrackets
  by_cases hhop : hop = 0 <;> cases p.ensureOrder <;> simp [isMark, hhop, hopening]

/-- The line that visits the neighbours of a document is balanced. -/
theorem balanced_visitLine {source : Fragment} (h : Balanced source) (p : Property) (hop : Nat)
    (step : Step) : Balanced (visitLine plan p source hop step) := by
  have hdoc : Balanced (hopDoc p hop) := .named _
  have hedge : Balanced (hopEdge p hop) := .named _
  unfold visitLine
  split
  · intro awaited
    cases p.ensureOrder <;> cases step.reverse <;>
      simp [isMark, hdoc.read, hedge.read, h.read]
  · intro awaited
    simp [isMark, hdoc.read]

/-- A hop leaves its brackets open, and what follows is indented. -/
theorem opens_openHop {parent : Fragment} (h : Balanced parent) (p : Property) (hop : Nat)
    (step : Step) (awaited : List Char) (n : Nat) :
    Script.Leads .aql (openHop plan p parent hop step) awaited
      (hopBrackets p ++ ((if hop = 0 then outerBrackets p else []) ++ awaited)) n (n + 1) := by
  have hdoc : Balanced (hopDoc p hop) := .named _
  have hedge : Balanced (hopEdge p hop) := .named _
  have hsource : Balanced (if hop = 0 then parent else hopDoc p (hop - 1)) := by
    split
    · exact h
    · exact .named _
  have htypes (types : Value) : Balanced (lit "FILTER " ++
      bound (stepAlias p hop ++ "_types") types ++ lit " ANY IN " ++
      attr (hopDoc p hop) "@type") := by
    intro awaited
    simp [isMark, (balanced_attr hdoc "@type").read]
  have horder : Balanced (lit "SORT " ++ hopEdge p hop ++ lit "._orderNumber ASC") := by
    intro awaited
    simp [isMark, hedge.read]
  have hopened := (Script.Leads.line n (opens_listLine p hop awaited)).append (.indent _ n)
  rw [openHop_eq]
  refine .followed (.followed (.followed hopened ?_) ?_) ?_
  · exact .append (.line (balanced_visitLine hsource p hop step)) (balanced_guards hdoc)
  · split
    · exact .nil
    · exact .line (htypes _)
  · split
    · exact .line horder
    · exact .nil

/-- A closed hop leaves open what was open before it. -/
theorem closes_closeHop (p : Property) (hop : Nat) (awaited : List Char) (n : Nat) :
    Script.Leads .aql (closeHop p hop) (hopBrackets p ++ awaited) awaited (n + 1) n := by
  have hclosed : Script.Leads .aql [.outdent, .line (lit (if p.ensureOrder then ")" else "))"))]
      (hopBrackets p ++ awaited) awaited (n + 1) n := by
    refine .cons (.outdent _ n) (.line n ?_)
    unfold hopBrackets
    cases p.ensureOrder <;> simp [isMark]
  have hreturned : Balanced (projectionStart p ++ named (stepAlias p hop)) := by
    unfold projectionStart
    cases p.ensureOrder <;> exact .append (.of_marks (by decide)) (.named _)
  unfold closeHop
  refine hclosed.append ?_
  split
  · exact .nil _ _
  · exact .line n (hreturned _)

/-- What stands inside the hops is balanced if the traversals of the children are. -/
theorem balanced_body {doc : Fragment} (h : Balanced doc) (p : Property)
    (hchildren : Script.Balanced .aql (traversals plan doc p.children)) :
    Script.Balanced .aql (body plan doc p) := by
  unfold body
  split
  · -- the values of a leaf
    have hattr (key : String) : Balanced (attr doc key) := balanced_attr h key
    refine .cons (.line ?_) (.line ?_)
    · exact ((Fragment.Balanced.of_marks (by decide)).append (hattr _)).append
        (.of_marks (by decide))
    · unfold projectionStart
      cases p.ensureOrder <;> exact .append (.of_marks (by decide)) (hattr _)
  · exact (hchildren.append (balanced_filters h _)).append (balanced_result h _ true)

/-- The lists of the hops are closed in the opposite order; what is around the first one stays
open. -/
theorem leads_hopLists {parent : Fragment} (h : Balanced parent) (p : Property)
    (hchildren : ∀ {doc}, Balanced doc → Script.Balanced .aql (traversals plan doc p.children))
    (steps : List Step) (hop : Nat) (awaited : List Char) (n : Nat) :
    Script.Leads .aql (hopLists plan parent p hop steps) awaited
      ((if hop = 0 ∧ steps ≠ [] then outerBrackets p else []) ++ awaited) n n := by
  have hdoc (hop : Nat) : Balanced (hopDoc p hop) := .named _
  induction steps generalizing hop awaited n with
  | nil =>
    rw [hopLists, if_neg (by simp), List.nil_append]
    exact balanced_body (hdoc _) p (hchildren (hdoc _)) _ _
  | cons step rest ih =>
    have hrest := ih (hop + 1) (hopBrackets p ++ ((if hop = 0 then outerBrackets p else []) ++
      awaited)) (n + 1)
    have hinner : ¬ (hop + 1 = 0 ∧ rest ≠ []) := fun h => Nat.succ_ne_zero hop h.1
    rw [if_neg hinner, List.nil_append] at hrest
    have hsame : (if hop = 0 ∧ step :: rest ≠ [] then outerBrackets p else []) =
        if hop = 0 then outerBrackets p else [] := by simp
    rw [hopLists, hsame]
    exact ((opens_openHop h p hop step awaited n).append hrest).append (closes_closeHop p hop _ n)

/-- A traversal is balanced if those of the children are, from wherever they start. -/
theorem balanced_traversal_of_children {parent : Fragment} (h : Balanced parent) {p : Property}
    (hchildren : ∀ {doc}, Balanced doc → Script.Balanced .aql (traversals plan doc p.children)) :
    Script.Balanced .aql (traversal plan parent p) := by
  rw [traversal_eq_hopLists]
  split
  · exact hchildren h
  · split
    · exact .nil
    · rename_i hsteps
      refine .append (fun awaited n => ?_) ?_
      · have hlists := leads_hopLists h p hchildren p.edgeSteps 0 awaited n
        rw [if_pos ⟨rfl, hsteps⟩] at hlists
        exact hlists.append (closes_closing p awaited n)
      · split
        · exact balanced_grouping p
        · exact .nil

mutual

/-- Every traversal is balanced, by induction on the properties. -/
theorem balanced_traversal {parent : Fragment} (h : Balanced parent) :
    (p : Property) → Script.Balanced .aql (traversal plan parent p)
  | ⟨_, _, children, _, _, _, _, _, _, _, _⟩ =>
    balanced_traversal_of_children h fun hdoc => balanced_traversals hdoc children

theorem balanced_traversals {parent : Fragment} (h : Balanced parent) :
    (ps : List Property) → Script.Balanced .aql (traversals plan parent ps)
  | [] => .nil
  | p :: rest => (balanced_traversal h p).append (balanced_traversals h rest)

end

/-! ### Statements -/

theorem balanced_accessLists (access : Option AccessFilter) :
    Script.Balanced .aql (accessLists access) := by
  unfold accessLists
  split
  · exact .cons (.line (.append (.of_marks (by decide)) (.bound _ _)))
      (.line (.append (.of_marks (by decide)) (.bound _ _)))
  · exact .nil

theorem balanced_rootSelection (root : Root) : Script.Balanced .aql (rootSelection root) := by
  unfold rootSelection
  split
  · refine .line fun awaited => ?_
    simp [isMark]
  · refine .line fun awaited => ?_
    simp [isMark]

variable (plan)

/-- The selection of an AQL statement is balanced. -/
theorem balanced_selection : Script.Balanced .aql (selection plan) := by
  have hroot : Balanced root := balanced_document .root
  unfold selection
  refine .append (.append (.append (.append (.append (balanced_accessLists _)
    (balanced_rootSelection _)) (balanced_guards hroot)) ?_) (balanced_traversals hroot _))
    (balanced_filters hroot _)
  split
  · exact .line (.append (.of_marks (by decide)) (balanced_condition (balanced_attr hroot _) _))
  · exact .nil

/-- An AQL statement is balanced. -/
theorem balanced_script : Script.Balanced .aql (script plan) := by
  have hroot : Balanced root := balanced_document .root
  have hsilent {c : Command} (hc : c.fragment = [])
      (hindentation : ∀ n, c.indentation n = n) : Script.Balanced .aql [c] := by
    intro awaited n
    refine ⟨?_, hindentation n⟩
    simp [Script.marks, hc]
  have hprojection : Script.Balanced .aql (projection plan) := by
    unfold projection
    refine .append (.append ?_ (hsilent rfl fun _ => rfl)) (balanced_result hroot _ false)
    split
    · exact .nil
    · refine .line (.append (.of_marks (by decide)) (balanced_comma ?_))
      exact List.forall_mem_map.mpr fun p _ =>
        (balanced_value hroot p).append (.of_marks (by decide))
  have hcount : Script.Balanced .aql countProjection := by
    refine .cons (.line (.of_marks (by decide))) (.cons (.line fun awaited => ?_)
      (hsilent rfl fun _ => rfl))
    simp [isMark]
  unfold script
  refine .append (balanced_selection plan) ?_
  split
  · exact hcount
  · exact hprojection

end Aql

/-! ## Cypher -/

namespace Cypher

variable {plan : Plan}

/-- Fragments that close what they open. -/
abbrev Balanced (f : Fragment) : Prop := Fragment.Balanced .cypher f

/-- The variable of a node opens nothing. -/
theorem balanced_node {node : Fragment} (h : IsNode node) : Balanced node := by
  cases h with
  | root => exact .of_marks (by decide)
  | hop p hop => exact .named _

/-- A name stands within backticks, which it cannot close. -/
theorem balanced_ticked (name : String) : Balanced (ticked name) := by
  intro awaited
  simp [ticked, isMark]

theorem balanced_attr {node : Fragment} (h : Balanced node) (key : String) :
    Balanced (attr node key) :=
  (h.append (.of_marks (by decide))).append (balanced_ticked key)

theorem balanced_comma {fs : List Fragment} (h : ∀ f ∈ fs, Balanced f) : Balanced (comma fs) :=
  .join (.of_marks (by decide)) h

theorem balanced_conjunction {fs : List Fragment} (h : ∀ f ∈ fs, Balanced f) :
    Balanced (conjunction fs) :=
  .join (.of_marks (by decide)) h

/-- A clause is balanced if its conditions are. -/
theorem balanced_whereClause {opening : String} (hopening : Balanced (lit opening))
    {conditions : List Fragment} (h : ∀ f ∈ conditions, Balanced f) :
    Balanced (whereClause opening conditions) := by
  unfold whereClause
  split
  · exact .nil
  · exact .append hopening (balanced_conjunction h)

/-- The tests of a node close what they open. -/
theorem balanced_guards {node : Fragment} (h : Balanced node) :
    ∀ f ∈ guards plan node, Balanced f := by
  have haccess : Balanced (lit "(" ++ node ++ lit "._space IN allowedSpaces OR " ++ node ++
      lit "._id IN allowedInstances)") := by
    intro awaited
    simp [isMark, h.read]
  have hspaces (value : Value) :
      Balanced (node ++ lit "._space IN " ++ bound "spaceRestriction" value) :=
    (h.append (.of_marks (by decide))).append (.bound _ _)
  unfold guards
  rw [List.forall_mem_append]
  constructor
  · split
    · exact List.forall_mem_singleton.mpr haccess
    · simp
  · split
    · exact List.forall_mem_singleton.mpr (hspaces _)
    · simp

theorem balanced_directValue {node : Fragment} (h : Balanced node) (p : Property) :
    Balanced (directValue node p) := by
  unfold directValue
  split
  · exact balanced_attr h _
  · exact .of_marks (by decide)

/-- A comparison closes the brackets around its predicate. -/
theorem balanced_comparison {field : Fragment} (h : Balanced field) {op : String}
    (hop : Fragment.marks (lit op) = []) (c : Condition) : Balanced (comparison field op c) := by
  rw [Fragment.marks_lit] at hop
  intro awaited
  simp [comparison, isMark, h.read, hop]

/-- A condition is balanced on every field that is. -/
theorem balanced_condition {field : Fragment} (h : Balanced field) (c : Condition) :
    Balanced (condition field c) := by
  unfold condition
  split
  · intro awaited
    simp [isMark, h.read]
  all_goals exact balanced_comparison h (by decide) c

/-- The conditions of a property are balanced. -/
theorem balanced_conditionsOn {field : Fragment} (h : Balanced field) (p : Property) :
    ∀ f ∈ conditionsOn plan p field, Balanced f := by
  have hrequired : Balanced (field ++ lit " IS NOT NULL AND " ++ field ++ lit " <> \"\" AND " ++
      field ++ lit " <> []") := by
    intro awaited
    simp [isMark, h.read]
  unfold conditionsOn
  rw [List.forall_mem_append]
  constructor
  · split
    · exact List.forall_mem_singleton.mpr hrequired
    · simp
  · split
    · exact List.forall_mem_singleton.mpr (balanced_condition h _)
    · simp

/-! ### Shapes -/

theorem quotes_cypher : '\'' ∈ Dialect.cypher.quotes := by decide

/-- The keys to sort by stand within quotes, which they cannot close. -/
theorem balanced_sortMaps {list : Fragment} (h : Balanced list) (keys : List Property) :
    Balanced (sortMaps list keys) := by
  have hkeys : Balanced (comma (keys.map fun c => lit "'^" ++ named c.key ++ lit "'")) := by
    refine balanced_comma (List.forall_mem_map.mpr fun c _ awaited => ?_)
    simp [isMark, quotes_cypher]
  unfold sortMaps
  split
  · exact h
  · generalize comma (keys.map fun c => lit "'^" ++ named c.key ++ lit "'") = items at hkeys ⊢
    intro awaited
    simp [isMark, h.read, hkeys.read]

/-- The entries of a map, taken from the keys of another one. -/
theorem balanced_entries {item : Fragment} (h : Balanced item) (ps : List Property) :
    Balanced (comma (ps.map fun c =>
      ticked c.key ++ lit ": " ++ item ++ lit "." ++ ticked c.key)) := by
  refine balanced_comma (List.forall_mem_map.mpr fun c _ awaited => ?_)
  simp [isMark, (balanced_ticked c.key).read, h.read]

/-- Groups of a balanced list are balanced. -/
theorem balanced_groups {list : Fragment} (h : Balanced list) (p : Property) :
    Balanced (groups list p) := by
  have hx : Balanced (localName p "_x") := .named _
  have hkeys := balanced_entries hx (p.children.filter Property.groupBy)
  apply balanced_sortMaps
  generalize comma ((p.children.filter Property.groupBy).map fun c =>
    ticked c.key ++ lit ": " ++ localName p "_x" ++ lit "." ++ ticked c.key) = keys at hkeys ⊢
  intro awaited
  simp [isMark, hx.read, h.read, hkeys.read]

/-- Members of groups, likewise. -/
theorem balanced_members {list : Fragment} (h : Balanced list) (p : Property) :
    Balanced (members list p) := by
  have hg : Balanced (localName p "_g") := .named _
  have hy : Balanced (localName p "_y") := .named _
  have hsame : Balanced (conjunction ((p.children.filter Property.groupBy).map fun c =>
      localName p "_y" ++ lit "." ++ ticked c.key ++ lit " = " ++ localName p "_g" ++ lit "." ++
        ticked c.key)) := by
    refine balanced_conjunction (List.forall_mem_map.mpr fun c _ awaited => ?_)
    simp [isMark, hy.read, hg.read, (balanced_ticked c.key).read]
  have hfields := balanced_entries hy (p.children.filter fun c => !c.groupBy)
  apply balanced_sortMaps
  generalize conjunction ((p.children.filter Property.groupBy).map fun c =>
    localName p "_y" ++ lit "." ++ ticked c.key ++ lit " = " ++ localName p "_g" ++ lit "." ++
      ticked c.key) = same at hsame ⊢
  generalize comma ((p.children.filter fun c => !c.groupBy).map fun c =>
    ticked c.key ++ lit ": " ++ localName p "_y" ++ lit "." ++ ticked c.key) = fields at hfields ⊢
  intro awaited
  simp [isMark, hy.read, h.read, hsame.read, hfields.read]

/-- A list is balanced after it has been grouped. -/
theorem balanced_grouping {list : Fragment} (h : Balanced list) (p : Property) :
    Balanced (grouping list p) := by
  have hg : Balanced (localName p "_g") := .named _
  rw [grouping_eq]
  intro awaited
  simp [isMark, hg.read, (balanced_groups h p).read, (balanced_members h p).read,
    (balanced_ticked _).read]

/-- A list is balanced after it has been sorted, grouped and collapsed. -/
theorem balanced_shape {list : Fragment} (h : Balanced list) (p : Property) :
    Balanced (shape p list) := by
  have hx : Balanced (localName p "_x") := .named _
  have hsorted : Balanced (if p.sort then lit "apoc.coll.sort(" ++ list ++ lit ")" else list) := by
    split
    · intro awaited
      simp [isMark, h.read]
    · exact h
  unfold shape
  dsimp only
  generalize (if p.sort then lit "apoc.coll.sort(" ++ list ++ lit ")" else list) = sorted
    at hsorted ⊢
  -- sorted first, then grouped, then collapsed
  have hgrouped : Balanced (if p.hasGrouping then grouping sorted p else sorted) := by
    split
    · exact balanced_grouping hsorted p
    · exact hsorted
  generalize (if p.hasGrouping then grouping sorted p else sorted) = grouped at hgrouped ⊢
  split
  · intro awaited
    simp [isMark, hgrouped.read]
  · intro awaited
    simp [isMark, quotes_cypher, hx.read, hgrouped.read]
  · exact hgrouped

/-! ### Values -/

/-- The conditions of a hop are balanced. -/
theorem balanced_hopConditions (p : Property) (hop : Nat) (step : Step) :
    ∀ f ∈ hopConditions plan p hop step, Balanced f := by
  have hnode : Balanced (hopNode p hop) := .named _
  have htypes (types : Value) : Balanced (lit "any(l IN labels(" ++ hopNode p hop ++
      lit ") WHERE l IN " ++ bound (p.aliasName ++ "_types" ++ toString hop) types ++ lit ")") := by
    intro awaited
    simp [isMark, hnode.read]
  unfold hopConditions
  rw [List.forall_mem_append]
  refine ⟨balanced_guards hnode, ?_⟩
  split
  · simp
  · exact List.forall_mem_singleton.mpr (htypes _)

/-- The pattern of a hop closes its brackets. -/
theorem balanced_hopPattern (p : Property) (hop : Nat) (step : Step) :
    Balanced (hopPattern p hop step) := by
  have hnode : Balanced (hopNode p hop) := .named _
  have hrelation : Balanced ((if decide (hop + 1 = p.edgeSteps.length) && p.ensureOrder then
      edgeVariable p else []) ++ lit ":" ++ ticked step.uri) := by
    refine .append (.append ?_ (.of_marks (by decide))) (balanced_ticked _)
    split
    · exact .named _
    · exact .nil
  unfold hopPattern
  dsimp only
  generalize (if decide (hop + 1 = p.edgeSteps.length) && p.ensureOrder then
    edgeVariable p else []) ++ lit ":" ++ ticked step.uri = relation at hrelation ⊢
  intro awaited
  split <;> simp [isMark, hrelation.read, hnode.read]

/-- A list is balanced after it has been put in order. -/
theorem balanced_inOrder {list : Fragment} (h : Balanced list) (p : Property) :
    Balanced (inOrder p list) := by
  have hx : Balanced (localName p "_x") := .named _
  unfold inOrder
  split
  · intro awaited
    simp [isMark, quotes_cypher, hx.read, h.read]
  · exact h

theorem balanced_withoutBlanks {list : Fragment} (h : Balanced list) (p : Property) :
    Balanced (withoutBlanks p list) := by
  have hx : Balanced (localName p "_x") := .named _
  unfold withoutBlanks
  split
  · intro awaited
    simp [isMark, h.read]
  · intro awaited
    simp [isMark, hx.read, h.read]

theorem balanced_withoutRepeats {list : Fragment} (h : Balanced list) (p : Property) :
    Balanced (withoutRepeats p list) := by
  unfold withoutRepeats
  split
  · exact h
  · intro awaited
    simp [isMark, h.read]

/-- A comprehension is balanced if its parent, its conditions and its projection are. -/
theorem balanced_comprehension {parent : Fragment} (h : Balanced parent) (p : Property)
    {conditions : List Fragment} (hconditions : ∀ f ∈ conditions, Balanced f)
    {projection : Fragment} (hprojection : Balanced projection) :
    Balanced (comprehension plan parent p conditions projection) := by
  have hpattern : Balanced (pathPattern parent p) := by
    refine .append (fun awaited => ?_) (.flatMap fun hop _ => balanced_hopPattern p hop.2 hop.1)
    simp [isMark, h.read]
  have hwhere : Balanced (whereClause " WHERE " (pathConditions plan p ++ conditions)) := by
    refine balanced_whereClause (.of_marks (by decide)) ?_
    refine List.forall_mem_append.mpr ⟨fun f hf => ?_, hconditions⟩
    rcases List.mem_flatMap.mp hf with ⟨hop, -, hf⟩
    exact balanced_hopConditions p hop.2 hop.1 f hf
  have hkept : Balanced (kept p projection) := by
    have hedge : Balanced (edgeVariable p) := .named _
    unfold kept
    split
    · intro awaited
      simp [isMark, hedge.read, hprojection.read]
    · exact hprojection
  have hmatched : Balanced (matched plan parent p conditions projection) := by
    unfold matched
    generalize pathPattern parent p = pattern at hpattern ⊢
    generalize whereClause " WHERE " (pathConditions plan p ++ conditions) = filter at hwhere ⊢
    generalize kept p projection = result at hkept ⊢
    intro awaited
    simp [isMark, hpattern.read, hwhere.read, hkept.read]
  rw [comprehension_eq]
  exact balanced_withoutRepeats (balanced_withoutBlanks (balanced_inOrder hmatched p) p) p

/-- Values are balanced, as are conditions and entries, since their parts are. -/
theorem balanced_parts : OnParts plan Balanced Balanced Balanced where
  direct := fun p _ hnode => balanced_directValue (balanced_node hnode) p
  missing := fun p => balanced_shape (fun awaited => by simp [isMark]) p
  leaf := fun p _ leaf hparent =>
    balanced_shape (balanced_comprehension (balanced_node hparent) p (by simp)
      (balanced_attr (balanced_node (hparent.last p)) leaf.uri)) p
  objects := fun p _ _ es hparent hcs hes => by
    have hentries : Balanced (comma es) := balanced_comma hes
    refine balanced_shape (balanced_comprehension (balanced_node hparent) p hcs ?_) p
    intro awaited
    simp [isMark, hentries.read]
  condition := fun p _ hv => balanced_conditionsOn hv p
  entry := fun p _ hv => ((balanced_ticked _).append (.of_marks (by decide))).append hv

/-- The value of a property is balanced at every node. -/
theorem balanced_value {parent : Fragment} (h : IsNode parent) (p : Property) :
    Balanced (value plan parent p) := balanced_parts.value h p

/-- The list of the objects of a property. -/
theorem balanced_objects {parent : Fragment} (h : IsNode parent) (p : Property) :
    Balanced (comprehension plan parent p (conditions plan (lastNode parent p) p.children)
      (lit "\x7b" ++ comma (entries plan (lastNode parent p) p.children) ++ lit "\x7d")) := by
  have hnode := h.last p
  have hentries : Balanced (comma (entries plan (lastNode parent p) p.children)) :=
    balanced_comma (balanced_parts.entries hnode p.children)
  refine balanced_comprehension (balanced_node h) p (balanced_parts.conditions hnode p.children) ?_
  intro awaited
  simp [isMark, hentries.read]

/-! ### Statements -/

theorem balanced_topValue (p : Property) : Balanced (topValue p) := by
  unfold topValue
  split
  · exact balanced_directValue (balanced_node .root) p
  · exact .named _

/-- A clause of its own is balanced if its conditions are. -/
theorem balanced_clause {conditions : List Fragment} (h : ∀ f ∈ conditions, Balanced f) :
    Script.Balanced .cypher (clause conditions) := by
  unfold clause
  split
  · exact .nil
  · exact .line (balanced_whereClause (.of_marks (by decide)) h)

theorem balanced_accessLists (access : Option AccessFilter) :
    Script.Balanced .cypher (accessLists access) := by
  unfold accessLists
  split
  · refine .line fun awaited => ?_
    simp [isMark]
  · exact .nil

theorem balanced_rootSelection (stage : Stage) (root : Root) :
    Script.Balanced .cypher (rootSelection stage root) := by
  have hticked := balanced_ticked
  unfold rootSelection
  split
  · refine .line fun awaited => ?_
    simp [isMark, (hticked _).read]
  · refine .line fun awaited => ?_
    simp [isMark, (hticked _).read]

variable (plan)

/-- The conditions on the root are balanced. -/
theorem balanced_rootConditions : ∀ f ∈ rootConditions plan, Balanced f := by
  have hroot : Balanced root := balanced_node .root
  unfold rootConditions
  rw [List.forall_mem_append]
  refine ⟨balanced_guards hroot, ?_⟩
  split
  · exact List.forall_mem_singleton.mpr (balanced_condition (balanced_attr hroot _) _)
  · simp

theorem balanced_projection : Script.Balanced .cypher (projection plan) := by
  have hsorted : Balanced (comma (((Property.level plan.spec.properties).filter
      Property.sort).map topValue ++ [lit "root._id"])) := by
    refine balanced_comma (List.forall_mem_append.mpr ⟨?_, ?_⟩)
    · exact List.forall_mem_map.mpr fun p _ => balanced_topValue p
    · exact List.forall_mem_singleton.mpr (.of_marks (by decide))
  have hfields : Balanced (comma ((Property.level plan.spec.properties).map fun p =>
      ticked p.key ++ lit ": " ++ topValue p)) := by
    refine balanced_comma (List.forall_mem_map.mpr fun p _ => ?_)
    exact ((balanced_ticked _).append (.of_marks (by decide))).append (balanced_topValue p)
  have hoptions (o : CountOptions) : Script.Balanced .cypher [.options o] := fun _ _ => ⟨rfl, rfl⟩
  unfold projection
  dsimp only
  refine .append (.append (.line (.append (.of_marks (by decide)) hsorted)) ?_)
    (.cons (hoptions _) (.line fun awaited => ?_))
  · split
    · exact .line (.of_marks (by simp [isMark]))
    · exact .nil
  · generalize comma ((Property.level plan.spec.properties).map fun p =>
      ticked p.key ++ lit ": " ++ topValue p) = fields at hfields ⊢
    simp [isMark, hfields.read]

/-- The selection of a Cypher statement is balanced. -/
theorem balanced_selection : Script.Balanced .cypher (selection plan) := by
  unfold selection
  dsimp only
  refine .append (.append (.append (.append (balanced_accessLists _) (balanced_rootSelection _ _))
    (balanced_clause (balanced_rootConditions plan))) ?_) (balanced_clause fun f hf => ?_)
  · -- the lists get their names
    split
    · exact .nil
    · refine .line (.append (.of_marks (by decide)) (balanced_comma ?_))
      exact List.forall_mem_map.mpr fun p _ =>
        ((balanced_value .root p).append (.of_marks (by decide))).append (.named _)
  · rcases List.mem_flatMap.mp hf with ⟨p, -, hf⟩
    exact balanced_conditionsOn (balanced_topValue p) p f hf

/-- A Cypher statement is balanced. -/
theorem balanced_script : Script.Balanced .cypher (script plan) := by
  have hcount : Script.Balanced .cypher countProjection := by
    refine .cons (.line fun awaited => ?_) fun _ _ => ⟨rfl, rfl⟩
    simp [isMark]
  unfold script
  refine .append (balanced_selection plan) ?_
  split
  · exact hcount
  · exact balanced_projection plan

end Cypher

/-! ## Statements -/

/-- Whatever names a client gives, the quotes and brackets of a statement match, and the builder has
taken back all that it has indented. -/
theorem Compiled.nested_statements (spec : Specification) (dialect : Dialect) (r : Request) :
    ∀ s ∈ (spec.compile dialect r).statements, Nested dialect s.text ∧ s.draft.indentation = 0 := by
  intro s hs
  have hbalanced (plan : Plan) : Script.Balanced dialect (dialect.script plan) := by
    cases dialect with
    | aql => exact Aql.balanced_script plan
    | cypher => exact Cypher.balanced_script plan
  rw [(Compiled.ofPlan_of_mem_statements hs).1]
  exact (hbalanced s.plan).nested

/-- A query all of whose names try to end what they stand in. -/
def Specification.hostile : Specification where
  properties :=
    [⟨"na`me\"(", [⟨"ed`ge](", false, ["ty'pe)"]⟩],
      [⟨"le`af'", [⟨"va`lue\"]", false, []⟩], [], false, true, true, false, none,
        some ⟨.equals, some "pa ra)meter'", some "x"⟩, none, 1⟩],
      true, false, false, true, some "gro`up)\"", none, none, 0⟩]
  documentFilter := none
  rootType := "ro`ot)"
  vocabulary := none

/-- Names with quotes, brackets and line breaks in them break no statement. -/
theorem Compiled.nested_hostile :
    let r := { Request.ofStage .released with page := some ⟨0, some 10, true⟩ }
    let aql := Specification.hostile.compile .aql r
    let cypher := Specification.hostile.compile .cypher r
    aql.statement ∈ aql.statements ∧ Nested .aql aql.statement.text ∧
      aql.statement.draft.indentation = 0 ∧
      cypher.statement ∈ cypher.statements ∧ Nested .cypher cypher.statement.text ∧
      cypher.statement.draft.indentation = 0 := by
  intro r aql cypher
  have haql : aql.statement ∈ aql.statements := .head _
  have hcypher : cypher.statement ∈ cypher.statements := .head _
  obtain ⟨haqlText, haqlIndentation⟩ := nested_statements .hostile .aql r _ haql
  obtain ⟨hcypherText, hcypherIndentation⟩ := nested_statements .hostile .cypher r _ hcypher
  exact ⟨haql, haqlText, haqlIndentation, hcypher, hcypherText, hcypherIndentation⟩

end GraphQuery
