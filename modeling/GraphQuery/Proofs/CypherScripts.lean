import GraphQuery.Evaluation
import GraphQuery.Proofs.Drafts

/-!
# GraphQuery.Proofs.CypherScripts — the parts of Cypher statements

1. **Comprehensions** are made of a pattern with conditions, and of what is done to its matches.
2. **Groupings** are made of groups and their members.
3. **Parts**: what the parts of a value pass on holds of all values, by induction on the
   properties.
4. **Placeholders** of a statement, and what they carry.
5. **Options** of a statement depend on its page alone.
-/

namespace GraphQuery.Cypher

open Json

/-! ## Comprehensions -/

/-- The path that a property follows from a node. -/
def pathPattern (parent : Fragment) (p : Property) : Fragment :=
  lit "(" ++ parent ++ lit ")" ++ p.edgeSteps.zipIdx.flatMap fun (step, i) => hopPattern p i step

/-- Conditions on the nodes of the path that a property follows. -/
def pathConditions (plan : Plan) (p : Property) : List Fragment :=
  p.edgeSteps.zipIdx.flatMap fun (step, i) => hopConditions plan p i step

/-- What is kept of a match. -/
def kept (p : Property) (projection : Fragment) : Fragment :=
  if p.ensureOrder then
    lit "\x7bo: " ++ edgeVariable p ++ lit "._orderNumber, v: " ++ projection ++ lit "\x7d"
  else projection

/-- The matches of a path. -/
def matched (plan : Plan) (parent : Fragment) (p : Property) (conditions : List Fragment)
    (projection : Fragment) : Fragment :=
  lit "[" ++ pathPattern parent p ++ whereClause " WHERE " (pathConditions plan p ++ conditions) ++
    lit " | " ++ kept p projection ++ lit "]"

/-- Matches in the order of their edges. -/
def inOrder (p : Property) (list : Fragment) : Fragment :=
  if p.ensureOrder then
    lit "[" ++ localName p "_x" ++ lit " IN apoc.coll.sortMaps(" ++ list ++ lit ", '^o') | " ++
      localName p "_x" ++ lit ".v]"
  else list

/-- Matches without those that hold nothing. -/
def withoutBlanks (p : Property) (list : Fragment) : Fragment :=
  if p.isLeaf then lit "apoc.coll.flatten(" ++ list ++ lit ")"
  else
    lit "[" ++ localName p "_x" ++ lit " IN " ++ list ++ lit " WHERE any(k IN keys(" ++
      localName p "_x" ++ lit ") WHERE " ++ localName p "_x" ++ lit "[k] IS NOT NULL AND " ++
      localName p "_x" ++ lit "[k] <> [])]"

/-- Matches without repetitions, unless their order counts. -/
def withoutRepeats (p : Property) (list : Fragment) : Fragment :=
  if p.ensureOrder then list else lit "apoc.coll.toSet(" ++ list ++ lit ")"

/-- A comprehension is put in order, freed of blanks and of repetitions, one after the other. -/
theorem comprehension_eq (plan : Plan) (parent : Fragment) (p : Property)
    (conditions : List Fragment) (projection : Fragment) :
    comprehension plan parent p conditions projection =
      withoutRepeats p (withoutBlanks p (inOrder p
        (matched plan parent p conditions projection))) := rfl

/-! ## Groupings -/

/-- The groups of a list of maps. -/
def groups (list : Fragment) (p : Property) : Fragment :=
  sortMaps (lit "apoc.coll.toSet([" ++ localName p "_x" ++ lit " IN " ++ list ++ lit " | \x7b" ++
    comma ((p.children.filter Property.groupBy).map fun c =>
      ticked c.key ++ lit ": " ++ localName p "_x" ++ lit "." ++ ticked c.key) ++ lit "\x7d])")
    p.groupSortKeys

/-- The members of the group at hand. -/
def members (list : Fragment) (p : Property) : Fragment :=
  sortMaps (lit "[" ++ localName p "_y" ++ lit " IN " ++ list ++ lit " WHERE " ++
    conjunction ((p.children.filter Property.groupBy).map fun c =>
      localName p "_y" ++ lit "." ++ ticked c.key ++ lit " = " ++ localName p "_g" ++ lit "." ++
        ticked c.key) ++ lit " | \x7b" ++
    comma ((p.children.filter fun c => !c.groupBy).map fun c =>
      ticked c.key ++ lit ": " ++ localName p "_y" ++ lit "." ++ ticked c.key) ++ lit "\x7d]")
    p.memberSortKeys

/-- A grouping merges each group with its members. -/
theorem grouping_eq (list : Fragment) (p : Property) : grouping list p =
    lit "[" ++ localName p "_g" ++ lit " IN " ++ groups list p ++ lit " | apoc.map.merge(" ++
      localName p "_g" ++ lit ", \x7b" ++ ticked (p.groupedInstances.getD "") ++ lit ": " ++
      members list p ++ lit "\x7d)]" := rfl

/-! ## Parts -/

/-- The node that a part of a statement is about. -/
inductive IsNode : Fragment → Prop
  | root : IsNode root
  | hop (p : Property) (hop : Nat) : IsNode (hopNode p hop)

/-- The node at the end of a path is a node. -/
theorem IsNode.last {parent : Fragment} (h : IsNode parent) (p : Property) :
    IsNode (lastNode parent p) := by
  unfold lastNode
  split
  · exact h
  · exact .hop p _

/-- The value of a property: at the node itself, empty without its edges, or a shaped
comprehension. -/
theorem value_eq (plan : Plan) (parent : Fragment) (p : Property) :
    value plan parent p =
      if p.isDirect then directValue parent p
      else if p.edgeSteps.any fun s => !plan.edgeExists s then shape p (lit "[]")
      else shape p (match p.leafStep? with
        | some leaf => comprehension plan parent p [] (attr (lastNode parent p) leaf.uri)
        | none => comprehension plan parent p (conditions plan (lastNode parent p) p.children)
            (lit "\x7b" ++ comma (entries plan (lastNode parent p) p.children) ++ lit "\x7d")) := by
  cases p
  unfold value
  rfl

/-- The conditions of a level, in which merge nodes give way to their children. -/
theorem conditions_cons (plan : Plan) (node : Fragment) (p : Property) (rest : List Property) :
    conditions plan node (p :: rest) =
      (if p.isMerge then conditions plan node p.children
      else if !p.required && (plan.condition? p).isNone then []
      else conditionsOn plan p (value plan node p)) ++ conditions plan node rest := by
  cases p
  simp only [conditions]
  rfl

/-- The entries of a level, in which merge nodes give way to their children. -/
theorem entries_cons (plan : Plan) (node : Fragment) (p : Property) (rest : List Property) :
    entries plan node (p :: rest) =
      (if p.isMerge then entries plan node p.children
      else [ticked p.key ++ lit ": " ++ value plan node p]) ++ entries plan node rest := by
  cases p
  simp only [entries]
  rfl

/-- What a property makes of the documents that its path leads to: values, conditions on a
document, entries of an object. -/
structure OnParts (plan : Plan) (V C E : Fragment → Prop) : Prop where
  direct : ∀ p {node}, IsNode node → V (directValue node p)
  missing : ∀ p, V (shape p (lit "[]"))
  leaf : ∀ p {parent} (leaf : Step), IsNode parent →
    V (shape p (comprehension plan parent p [] (attr (lastNode parent p) leaf.uri)))
  objects : ∀ p {parent} {cs es : List Fragment}, IsNode parent → (∀ c ∈ cs, C c) →
    (∀ e ∈ es, E e) →
    V (shape p (comprehension plan parent p cs (lit "\x7b" ++ comma es ++ lit "\x7d")))
  condition : ∀ p {v}, V v → ∀ c ∈ conditionsOn plan p v, C c
  entry : ∀ (p : Property) {v}, V v → E (ticked p.key ++ lit ": " ++ v)

namespace OnParts

variable {plan : Plan} {V C E : Fragment → Prop}

/-- A value has what its parts preserve, if the conditions and entries of the children have. -/
theorem value_of_children (h : OnParts plan V C E) {parent : Fragment} (hparent : IsNode parent)
    {p : Property} (hconditions : ∀ {node}, IsNode node → ∀ c ∈ conditions plan node p.children, C c)
    (hentries : ∀ {node}, IsNode node → ∀ e ∈ entries plan node p.children, E e) :
    V (value plan parent p) := by
  rw [value_eq]
  split
  · exact h.direct p hparent
  split
  · exact h.missing p
  split
  · exact h.leaf p _ hparent
  · exact h.objects p hparent (hconditions (hparent.last p)) (hentries (hparent.last p))

/-- So have the conditions of a level, one property after the other. -/
theorem conditions_of_cons (h : OnParts plan V C E) {node : Fragment} {p : Property}
    {rest : List Property} (hvalue : V (value plan node p))
    (hchildren : ∀ c ∈ conditions plan node p.children, C c)
    (hrest : ∀ c ∈ conditions plan node rest, C c) :
    ∀ c ∈ conditions plan node (p :: rest), C c := by
  rw [Cypher.conditions_cons, List.forall_mem_append]
  -- a merge passes on the conditions of its children, another property has its own, if any
  refine ⟨?_, hrest⟩
  split
  · exact hchildren
  split
  · simp
  · exact h.condition p hvalue

/-- So have the entries of a level. -/
theorem entries_of_cons (h : OnParts plan V C E) {node : Fragment} {p : Property}
    {rest : List Property} (hvalue : V (value plan node p))
    (hchildren : ∀ e ∈ entries plan node p.children, E e)
    (hrest : ∀ e ∈ entries plan node rest, E e) :
    ∀ e ∈ entries plan node (p :: rest), E e := by
  rw [Cypher.entries_cons, List.forall_mem_append]
  -- a merge passes on the entries of its children
  refine ⟨?_, hrest⟩
  split
  · exact hchildren
  · simpa using h.entry p hvalue

mutual

/-- What all parts pass on holds of the value of a property. -/
theorem value (h : OnParts plan V C E) {parent : Fragment} (hparent : IsNode parent) :
    (p : Property) → V (Cypher.value plan parent p)
  -- recursion on the property, through the levels below it
  | ⟨_, _, children, _, _, _, _, _, _, _, _⟩ =>
    h.value_of_children hparent (fun hnode => h.conditions hnode children)
      (fun hnode => h.entries hnode children)

/-- All conditions have it, by induction on the properties. -/
theorem conditions (h : OnParts plan V C E) {node : Fragment} (hnode : IsNode node) :
    (ps : List Property) → ∀ c ∈ Cypher.conditions plan node ps, C c
  | [] => by simp [Cypher.conditions]
  | ⟨_, _, children, _, _, _, _, _, _, _, _⟩ :: rest =>
    h.conditions_of_cons (h.value hnode _) (h.conditions hnode children) (h.conditions hnode rest)

/-- So have all entries. -/
theorem entries (h : OnParts plan V C E) {node : Fragment} (hnode : IsNode node) :
    (ps : List Property) → ∀ e ∈ Cypher.entries plan node ps, E e
  | [] => by simp [Cypher.entries]
  | ⟨_, _, children, _, _, _, _, _, _, _, _⟩ :: rest =>
    h.entries_of_cons (h.value hnode _) (h.entries hnode children) (h.entries hnode rest)

end

end OnParts

/-- Conditions on the root of a statement. -/
def rootConditions (plan : Plan) : List Fragment :=
  guards plan root ++
    (match plan.documentFilter with
      | some c => [condition (attr root "@id") c]
      | none => [])

/-- What follows the selection of the root. -/
def rootless (plan : Plan) : Script :=
  (if ((Property.level plan.spec.properties).filter fun p => !p.isDirect).isEmpty then []
  else [.line (lit "WITH root, " ++
    comma (((Property.level plan.spec.properties).filter fun p => !p.isDirect).map fun p =>
      value plan root p ++ lit " AS " ++ named p.aliasName))]) ++
  clause ((Property.level plan.spec.properties).flatMap fun p => conditionsOn plan p (topValue p)) ++
  (if plan.countOnly then countProjection else projection plan)

/-- A statement has its access lists, then the root with its conditions, then the rest. -/
theorem script_eq (plan : Plan) : script plan =
    accessLists plan.access ++ rootSelection plan.stage plan.root ++
      clause (rootConditions plan) ++ rootless plan := by
  simp only [script, selection, rootless, List.append_assoc]
  rfl

/-! ## Placeholders -/

/-- The placeholders that the library names, with the values that they carry. -/
def own (plan : Plan) : List (String × Value) :=
  (match plan.access with
    | some access =>
      [("allowedSpaces", .strings access.spaces),
       ("allowedInstances", .strings (access.instances.map Uuid.text))]
    | none => []) ++
  (match plan.root with
    | .document id => [("rootId", .string id.uuid.text)]
    | .ofType _ => []) ++
  (match plan.spaces with
    | some spaces => [("spaceRestriction", .strings spaces)]
    | none => [])

/-- The placeholders of a statement for a plan: those that the library names, the types of a hop,
and the operands of conditions, which are named after the client's parameters. -/
inductive Placeholder (plan : Plan) : String → Value → Prop
  | own {key : String} {value : Value} (h : (key, value) ∈ own plan) : Placeholder plan key value
  | types (p : Property) (hop : Nat) (types : List String) :
      Placeholder plan (p.aliasName ++ "_types" ++ toString hop) (.strings types)
  | operand {c : Condition} (h : c ∈ plan.conditions) :
      Placeholder plan c.bindName (.ofOption .string c.operand)

section

variable {plan : Plan}

/-- Fragments whose placeholders are those of the plan. -/
abbrev Fits (plan : Plan) (f : Fragment) : Prop := Fragment.Fits (Placeholder plan) f

/-- A direct value holds no placeholder. -/
theorem fits_directValue {node : Fragment} (h : Fits plan node) (p : Property) :
    Fits plan (directValue node p) := by
  unfold directValue attr ticked
  split <;> simp [h]

/-- The tests of a node fit. -/
theorem fits_guards {node : Fragment} (h : Fits plan node) :
    ∀ f ∈ guards plan node, Fits plan f := by
  have hrestriction (spaces : Names) (hspaces : plan.spaces = some spaces) :
      Placeholder plan "spaceRestriction" (.strings spaces) :=
    .own (by simp [own, hspaces])
  unfold guards
  cases plan.access <;> cases hspaces : plan.spaces <;> simp [h, hrestriction, hspaces]

/-- A condition fits on every field that does. -/
theorem fits_condition {field : Fragment} (h : Fits plan field) {c : Condition}
    (hc : c ∈ plan.conditions) : Fits plan (condition field c) := by
  unfold condition comparison
  split <;> simp [h, Placeholder.operand hc]

theorem fits_conditionsOn {field : Fragment} (h : Fits plan field) (p : Property) :
    ∀ f ∈ conditionsOn plan p field, Fits plan f := by
  unfold conditionsOn
  rw [List.forall_mem_append]
  constructor
  · cases p.required <;> simp [h]
  · split
    · rename_i c hc
      simpa using fits_condition h (Plan.mem_conditions hc)
    · simp

@[simp]
theorem fits_sortMaps {list : Fragment} {keys : List Property} :
    Fits plan (sortMaps list keys) ↔ Fits plan list := by
  unfold sortMaps comma
  split <;> simp [List.forall_mem_map, -List.mem_map]

/-- Groups fit if their list does. -/
theorem fits_grouping {list : Fragment} (h : Fits plan list) (p : Property) :
    Fits plan (grouping list p) := by
  unfold grouping comma conjunction ticked localName
  simp [h, List.forall_mem_map, -List.mem_map]

/-- A list fits after it has been sorted, grouped and collapsed. -/
theorem fits_shape {list : Fragment} (h : Fits plan list) (p : Property) :
    Fits plan (shape p list) := by
  have hsorted : Fits plan (if p.sort then lit "apoc.coll.sort(" ++ list ++ lit ")" else list) := by
    split <;> simp [h]
  unfold shape
  dsimp only
  generalize (if p.sort then lit "apoc.coll.sort(" ++ list ++ lit ")" else list) = sorted
    at hsorted ⊢
  -- sorted first, then grouped
  have hgrouped : Fits plan (if p.hasGrouping then grouping sorted p else sorted) := by
    split
    · exact fits_grouping hsorted p
    · exact hsorted
  split <;> simp [hgrouped, localName]

theorem fits_hopConditions (p : Property) (hop : Nat) (step : Step) :
    ∀ f ∈ hopConditions plan p hop step, Fits plan f := by
  have hnode : Fits plan (hopNode p hop) := by simp [hopNode]
  unfold hopConditions
  rw [List.forall_mem_append]
  refine ⟨fits_guards hnode, ?_⟩
  split
  · simp
  · simpa [hnode] using Placeholder.types p hop step.types

theorem fits_whereClause {opening : String} (hopening : '\n' ∉ opening.toList)
    {conditions : List Fragment} (h : ∀ f ∈ conditions, Fits plan f) :
    Fits plan (whereClause opening conditions) := by
  unfold whereClause conjunction
  split
  · simp
  · simpa [hopening] using h

theorem fits_pathPattern {parent : Fragment} (h : Fits plan parent) (p : Property) :
    Fits plan (pathPattern parent p) := by
  have hhop (hop : Nat) (step : Step) : Fits plan (hopPattern p hop step) := by
    have hedge : Fits plan (if decide (hop + 1 = p.edgeSteps.length) && p.ensureOrder then
        edgeVariable p else []) := by
      split <;> simp [edgeVariable, localName]
    unfold hopPattern ticked hopNode
    cases step.reverse <;> simpa using hedge
  have hhops : ∀ hops : List (Step × Nat),
      Fits plan (hops.flatMap fun (step, i) => hopPattern p i step) := by
    intro hops
    induction hops with
    | nil => simp
    | cons hop rest ih => simp [hhop, ih]
  simp [pathPattern, h, hhops]

/-- A comprehension fits if its parent, its conditions and its projection do. -/
theorem fits_comprehension {parent : Fragment} (hparent : Fits plan parent) (p : Property)
    {conditions : List Fragment} (hconditions : ∀ f ∈ conditions, Fits plan f)
    {projection : Fragment} (hprojection : Fits plan projection) :
    Fits plan (comprehension plan parent p conditions projection) := by
  have hname (suffix : String) : Fits plan (localName p suffix) := by simp [localName]
  have hwhere : Fits plan (whereClause " WHERE " (pathConditions plan p ++ conditions)) := by
    refine fits_whereClause (by simp) (List.forall_mem_append.mpr ⟨?_, hconditions⟩)
    intro f hf
    rcases List.mem_flatMap.mp hf with ⟨hop, -, hf⟩
    exact fits_hopConditions p hop.2 hop.1 f hf
  have hkept : Fits plan (kept p projection) := by
    unfold kept edgeVariable
    split <;> simp [hname, hprojection]
  -- what is done to the matches adds names only
  have hmatched : Fits plan (matched plan parent p conditions projection) := by
    simp [matched, fits_pathPattern hparent, hwhere, hkept]
  rw [comprehension_eq]
  unfold withoutRepeats withoutBlanks inOrder
  cases p.ensureOrder <;> cases p.isLeaf <;> simp [hname, hmatched]

theorem fits_node {node : Fragment} (h : IsNode node) : Fits plan node := by
  cases h <;> simp [root, hopNode]

/-- The value of a property fits at every node. -/
theorem fits_value {parent : Fragment} (h : IsNode parent) (p : Property) :
    Fits plan (value plan parent p) := by
  have hattr {node : Fragment} (hnode : IsNode node) (key : String) : Fits plan (attr node key) := by
    simp [attr, ticked, fits_node hnode]
  have hparts : OnParts plan (Fits plan) (Fits plan) (Fits plan) := {
    direct := fun p _ hnode => fits_directValue (fits_node hnode) p
    missing := fun p => fits_shape (by simp) p
    leaf := fun p _ leaf hparent =>
      fits_shape (fits_comprehension (fits_node hparent) p (by simp)
        (hattr (hparent.last p) leaf.uri)) p
    objects := fun p _ _ _ hparent hcs hes =>
      fits_shape (fits_comprehension (fits_node hparent) p hcs (by simpa [comma] using hes)) p
    condition := fun p _ hv => fits_conditionsOn hv p
    entry := fun p _ hv => by simpa [ticked] using hv }
  exact hparts.value h p

theorem fits_topValue (p : Property) : Fits plan (topValue p) := by
  unfold topValue
  split
  · exact fits_directValue (fits_node .root) p
  · simp

theorem fits_clause {conditions : List Fragment} (h : ∀ f ∈ conditions, Fits plan f) :
    Script.Fits (Placeholder plan) (clause conditions) := by
  have hwhere : Fits plan (whereClause "WHERE " conditions) := fits_whereClause (by simp) h
  unfold clause
  split
  · simp
  · simpa [Command.fragment] using hwhere

variable (plan)

/-- The selection of a Cypher statement fits. -/
theorem fits_selection : Script.Fits (Placeholder plan) (selection plan) := by
  -- what the head of the statement binds is the library's own
  have hown : ∀ e ∈ own plan, Placeholder plan e.1 e.2 := fun _ he => .own he
  have haccess : Script.Fits (Placeholder plan) (accessLists plan.access) := by
    cases haccess : plan.access with
    | none => simp [accessLists]
    | some access =>
      simp only [own, haccess, List.forall_mem_append, List.forall_mem_cons] at hown
      simp [accessLists, Command.fragment, hown]
  have hroot : Script.Fits (Placeholder plan) (rootSelection plan.stage plan.root) := by
    cases hroot : plan.root with
    | document id =>
      simp only [own, hroot, List.forall_mem_append, List.forall_mem_cons] at hown
      simp [rootSelection, Command.fragment, ticked, hown]
    | ofType type => simp [rootSelection, Command.fragment, ticked]
  unfold selection
  simp only [Script.Fits.append_iff]
  refine ⟨⟨⟨⟨haccess, hroot⟩, ?_⟩, ?_⟩, ?_⟩
  · apply fits_clause
    refine List.forall_mem_append.mpr ⟨fits_guards (fits_node .root), ?_⟩
    cases hid : plan.documentFilter with
    | none => simp
    | some c =>
      have hmem : c ∈ plan.conditions := by simp [Plan.conditions, hid]
      have hattr : Fits plan (attr root "@id") := by simp [attr, ticked, fits_node .root]
      simpa using fits_condition hattr hmem
  · split <;> simp [Command.fragment, comma, fits_value .root, List.forall_mem_map, -List.mem_map]
  · apply fits_clause
    intro f hf
    rcases List.mem_flatMap.mp hf with ⟨p, -, hf⟩
    exact fits_conditionsOn (fits_topValue p) p f hf

/-- Every placeholder of a statement is one of those listed, and no text has a line break. -/
theorem fits_script : Script.Fits (Placeholder plan) (script plan) := by
  have hprojection : Script.Fits (Placeholder plan) (projection plan) := by
    unfold projection comma
    simp only [Script.Fits.append_iff]
    refine ⟨⟨?_, ?_⟩, ?_⟩
    · simp [Command.fragment, fits_topValue, or_imp, forall_and, List.forall_mem_map,
        -List.mem_map]
    · split <;> simp [Command.fragment]
    · simp [Command.fragment, ticked, fits_topValue, List.forall_mem_map, -List.mem_map]
  unfold script
  rw [Script.Fits.append_iff]
  refine ⟨fits_selection plan, ?_⟩
  split
  · simp [countProjection, Command.fragment]
  · exact hprojection

end

/-! ## Options -/

/-- A selection only writes. -/
theorem writes_selection (plan : Plan) : Script.Writes (selection plan) := by
  have hclause (conditions : List Fragment) : Script.Writes (clause conditions) := by
    unfold clause
    split <;> simp [Command.Writes]
  unfold selection accessLists rootSelection
  dsimp only
  simp only [Script.Writes.append_iff]
  refine ⟨⟨⟨⟨?_, ?_⟩, hclause _⟩, ?_⟩, hclause _⟩
  · cases plan.access <;> simp [Command.Writes]
  · cases plan.root <;> simp [Command.Writes]
  · split <;> simp [Command.Writes]

/-- No full count is ever asked for. -/
theorem options_script (sigil : Sigil) (plan : Plan) :
    ((Draft.empty sigil).runAll (script plan)).options =
      if plan.countOnly then .none else ⟨false, (plan.page.bind PageRequest.size).isNone⟩ := by
  have hselection := Draft.options_runAll (writes_selection plan) (Draft.empty sigil)
  rw [script, Draft.runAll_append]
  generalize (Draft.empty sigil).runAll (selection plan) = d at hselection ⊢
  split
  · rfl
  · unfold projection
    -- the line that follows leaves the options as they are set
    have hline (d : Draft) (o : CountOptions) (f : Fragment) :
        (d.runAll [.options o, .line f]).options = o :=
      Draft.options_run (d := d.run (.options o)) (c := .line f) trivial
    rw [Draft.runAll_append, hline]

end GraphQuery.Cypher
