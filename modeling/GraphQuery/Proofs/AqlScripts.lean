import GraphQuery.Evaluation
import GraphQuery.Proofs.Drafts

/-!
# GraphQuery.Proofs.AqlScripts — the parts of AQL statements

1. **Hops** and **groupings**, line by line.
2. **Parts**: what holds of the parts of a traversal and passes from two scripts to their sequence
   holds of all traversals, by induction on the properties.
3. **Names**: which names the placeholders of a statement have, and what they carry.
4. **Options** of a statement depend on its page alone.
-/

namespace GraphQuery.Aql

open Json

/-! ## Traversals -/

/-- What the innermost sub-query of a traversed property returns. -/
def body (plan : Plan) (doc : Fragment) (p : Property) : Script :=
  match p.leafStep? with
  | some leaf =>
    [.line (lit "FILTER " ++ attr doc leaf.uri ++ lit " != NULL"),
     .line (projectionStart p ++ attr doc leaf.uri)]
  | none =>
    traversals plan doc p.children ++ filters plan doc p.children ++ result doc p.children true

/-- Only properties that follow edges are traversed. -/
theorem needsTraversal_iff {p : Property} (h : p.isMerge = false) :
    p.needsTraversal = true ↔ p.edgeSteps ≠ [] := by
  obtain ⟨name, path, children, required, sort, groupBy, ensureOrder, groupedInstances, filter,
    collapse, index⟩ := p
  cases children with
  -- without children it is a leaf: its last step is a field
  | nil =>
    rcases path with _ | ⟨a, _ | ⟨b, path⟩⟩ <;>
      simp [Property.edgeSteps, Property.needsTraversal, Property.isLeaf]
  -- with children and no path it would be a merge
  | cons c cs =>
    simpa [Property.edgeSteps, Property.needsTraversal, Property.isLeaf, Property.isMerge] using h

/-- A traversal, hop by hop. -/
theorem traversal_eq (plan : Plan) (parent : Fragment) (p : Property) :
    traversal plan parent p =
      if p.isMerge then traversals plan parent p.children
      else match p.edgeSteps with
        | [] => []
        | step :: steps =>
          openHop plan p parent 0 step ++
            ((steps.zipIdx 1).flatMap (fun (step, hop) => openHop plan p parent hop step) ++
              body plan (hopDoc p steps.length) p ++
              ((List.range (steps.length + 1)).reverse.flatMap (closeHop p) ++ closing p)) ++
            (if p.hasGrouping then grouping p else []) := by
  -- the equation of the definition, without the pattern of its argument
  have hequation : traversal plan parent p =
      if p.isMerge then traversals plan parent p.children
      else if !p.needsTraversal then []
      else
        p.edgeSteps.zipIdx.flatMap (fun (step, hop) => openHop plan p parent hop step) ++
          body plan
            (if p.edgeSteps.length = 0 then parent else hopDoc p (p.edgeSteps.length - 1)) p ++
          (List.range p.edgeSteps.length).reverse.flatMap (closeHop p) ++ closing p ++
          (if p.hasGrouping then grouping p else []) := by
    cases p
    rfl
  rw [hequation]
  by_cases hmerge : p.isMerge = true
  · rw [if_pos hmerge, if_pos hmerge]
  · -- what needs no traversal has no edges to follow
    rw [if_neg hmerge, if_neg hmerge]
    have hneeds := needsTraversal_iff (by simpa using hmerge)
    cases hsteps : p.edgeSteps with
    | nil =>
      have hnot : p.needsTraversal = false := by simpa [hsteps] using hneeds
      simp [hnot]
    | cons step steps =>
      have htraversal : p.needsTraversal = true := by simpa [hsteps] using hneeds
      simp [htraversal]

/-! ## Hops -/

/-- The line that sets the list of a hop. -/
def listLine (p : Property) (hop : Nat) : Fragment :=
  lit "LET " ++ named (stepAlias p hop) ++ lit " = " ++ (if hop = 0 then opening p else []) ++
    lit (if p.ensureOrder then "FLATTEN(" else "UNIQUE(FLATTEN(")

/-- The line that visits the documents of a hop. -/
def visitLine (plan : Plan) (p : Property) (source : Fragment) (hop : Nat) (step : Step) :
    Fragment :=
  if plan.edgeExists step then
    lit "FOR " ++ hopDoc p hop ++ (if p.ensureOrder then lit ", " ++ hopEdge p hop else []) ++
      lit " IN 1..1" ++ lit (if step.reverse then " INBOUND " else " OUTBOUND ") ++ source ++
      lit " `" ++ named (Collection.ofRelation step.uri).name ++ lit "`"
  else lit "FOR " ++ hopDoc p hop ++ lit " IN []"

/-- A hop opens its list, then visits its documents, then tests them. -/
theorem openHop_eq (plan : Plan) (p : Property) (parent : Fragment) (hop : Nat) (step : Step) :
    openHop plan p parent hop step =
      [.line (listLine p hop), .indent] ++
        ([.line (visitLine plan p (if hop = 0 then parent else hopDoc p (hop - 1)) hop step)] ++
          guards plan (hopDoc p hop)) ++
        (if step.types.isEmpty then []
        else [.line (lit "FILTER " ++ bound (stepAlias p hop ++ "_types") (.strings step.types) ++
          lit " ANY IN " ++ attr (hopDoc p hop) "@type")]) ++
        (if p.ensureOrder && plan.edgeExists step then
          [.line (lit "SORT " ++ hopEdge p hop ++ lit "._orderNumber ASC")]
        else []) := by
  unfold openHop visitLine
  cases plan.edgeExists step <;> simp [listLine]

/-- The lists of a traversed property from a hop on. The list of a hop spans those after it; the last
one spans the body. -/
def hopLists (plan : Plan) (parent : Fragment) (p : Property) : Nat → List Step → Script
  | hop, [] => body plan (hopDoc p (hop - 1)) p
  | hop, step :: rest =>
    openHop plan p parent hop step ++ hopLists plan parent p (hop + 1) rest ++ closeHop p hop

/-- The lists of hops are opened one after the other and closed in the opposite order. -/
theorem hopLists_eq (plan : Plan) (parent : Fragment) (p : Property) (steps : List Step)
    (hop : Nat) : hopLists plan parent p hop steps =
      (steps.zipIdx hop).flatMap (fun (step, hop) => openHop plan p parent hop step) ++
        body plan (hopDoc p (hop + steps.length - 1)) p ++
        (List.range' hop steps.length).reverse.flatMap (closeHop p) := by
  induction steps generalizing hop with
  | nil => simp [hopLists]
  | cons step rest ih =>
    have hlast : hop + 1 + rest.length = hop + (step :: rest).length := by
      rw [List.length_cons]
      omega
    rw [hopLists, ih, hlast, List.zipIdx_cons, List.length_cons, List.range'_succ]
    simp

/-- A traversal, with the list of each hop within that of the hop before. -/
theorem traversal_eq_hopLists (plan : Plan) (parent : Fragment) (p : Property) :
    traversal plan parent p =
      if p.isMerge then traversals plan parent p.children
      else if p.edgeSteps = [] then []
      else hopLists plan parent p 0 p.edgeSteps ++ closing p ++
        (if p.hasGrouping then grouping p else []) := by
  rw [traversal_eq]
  split
  · rfl
  · cases hsteps : p.edgeSteps with
    | nil => rfl
    | cons step rest =>
      rw [if_neg (List.cons_ne_nil step rest), hopLists_eq, List.length_cons, Nat.zero_add,
        Nat.add_sub_cancel, List.zipIdx_cons, Nat.zero_add, ← List.range_eq_range']
      simp only [List.flatMap_cons, List.append_assoc]

/-! ## Groupings -/

/-- Keys of the groups of a property, each with the variable that holds its value. -/
def groupKeys (p : Property) : List (Property × Fragment) :=
  (p.children.filter Property.groupBy).zipIdx.map fun (c, i) =>
    (c, named (p.aliasName ++ "_k" ++ toString i))

/-- The values of the keys. -/
def keyValues (p : Property) : Fragment :=
  comma ((groupKeys p).map fun (c, k) =>
    k ++ lit " = " ++ attr (named (p.aliasName ++ "_g")) c.key)

/-- The order of the groups. -/
def groupOrder (p : Property) : Script :=
  if (groupKeys p).any (·.1.sort) then
    [.line (lit "SORT " ++
      comma (((groupKeys p).filter (·.1.sort) ++ (groupKeys p).filter fun k => !k.1.sort).map
        fun (_, k) => k ++ lit " ASC"))]
  else []

/-- The order of keys has no others. -/
theorem mem_groupKeys_of_mem_order {p : Property} {k : Property × Fragment}
    (hk : k ∈ (groupKeys p).filter (·.1.sort) ++ (groupKeys p).filter fun k => !k.1.sort) :
    k ∈ groupKeys p := by
  rcases List.mem_append.mp hk with hk | hk <;> exact (List.mem_filter.mp hk).1

/-- The order of the members of a group. -/
def memberOrder (p : Property) : Fragment :=
  if p.memberSortKeys.isEmpty then []
  else lit " SORT " ++ comma (p.memberSortKeys.map fun c =>
    attr (named (p.aliasName ++ "_gi")) c.key ++ lit " ASC")

/-- The fields of a member: those that are no keys. -/
def memberFields (p : Property) : Fragment :=
  comma ((p.children.filter fun c => !c.groupBy).map fun c =>
    quotedKey c.key ++ lit ": " ++ attr (named (p.aliasName ++ "_gi")) c.key)

/-- The fields of a group: its keys and its members. -/
def groupFields (p : Property) : Fragment :=
  comma ((groupKeys p).map (fun (c, k) => quotedKey c.key ++ lit ": " ++ k) ++
    [quotedKey (p.groupedInstances.getD "") ++ lit ": instances"])

/-- Collects the items of a property. -/
def collecting (p : Property) : Fragment :=
  lit "COLLECT " ++ keyValues p ++ lit " INTO " ++ named (p.aliasName ++ "_group")

/-- The list of the members of a group. -/
def gathering (p : Property) : Fragment :=
  lit "LET instances = (FOR " ++ named (p.aliasName ++ "_gi") ++ lit " IN " ++
    named (p.aliasName ++ "_group") ++ lit "[*]." ++ named (p.aliasName ++ "_g") ++ memberOrder p ++
    lit " RETURN \x7b " ++ memberFields p ++ lit " \x7d)"

/-- A grouping goes over the items, collects them and gathers the members. -/
theorem grouping_eq (p : Property) : grouping p =
    [.line (lit "LET " ++ named p.groupAlias ++ lit " = ("), .indent] ++
      ([.line (lit "FOR " ++ named (p.aliasName ++ "_g") ++ lit " IN " ++ named p.aliasName),
        .line (collecting p)] ++ groupOrder p ++
        [.line (gathering p), .line (lit "RETURN \x7b " ++ groupFields p ++ lit " \x7d")]) ++
      [.outdent, .line (lit ")")] := by
  unfold grouping collecting keyValues groupOrder gathering memberOrder memberFields groupFields
  simp only [List.append_assoc, List.cons_append, List.nil_append, List.isEmpty_map]
  rfl

/-! ## Parts -/

/-- The document that a part of a statement is about. -/
inductive IsDocument : Fragment → Prop
  | root : IsDocument root
  | hop (p : Property) (hop : Nat) : IsDocument (hopDoc p hop)

/-- What holds of no commands and of the parts of a traversal, and passes to sequences. A property
is closed after its first hop, and grouped after the list that this hop has opened. -/
structure OnParts (plan : Plan) (P : Script → Prop) : Prop where
  nil : P []
  append : ∀ {a b : Script}, P a → P b → P (a ++ b)
  opened : ∀ p {parent} hop step, IsDocument parent → P (openHop plan p parent hop step)
  leaf : ∀ p {doc} (leaf : Step), IsDocument doc →
    P [.line (lit "FILTER " ++ attr doc leaf.uri ++ lit " != NULL"),
      .line (projectionStart p ++ attr doc leaf.uri)]
  filters : ∀ {doc} ps, IsDocument doc → P (filters plan doc ps)
  result : ∀ {doc} ps, IsDocument doc → P (result doc ps true)
  closed : ∀ p hop, P (closeHop p (hop + 1))
  ended : ∀ p, P (closeHop p 0 ++ closing p)
  grouped : ∀ p {parent} step rest, IsDocument parent →
    P (openHop plan p parent 0 step ++ rest) →
    P (openHop plan p parent 0 step ++ rest ++ grouping p)

namespace OnParts

variable {plan : Plan} {P : Script → Prop}

/-- A script of parts has what its parts have. -/
theorem flatMap (h : OnParts plan P) {α : Type} {f : α → Script} {xs : List α}
    (hf : ∀ x ∈ xs, P (f x)) : P (xs.flatMap f) := by
  induction xs with
  | nil => exact h.nil
  | cons x rest ih =>
    rw [List.flatMap_cons]
    exact h.append (hf x (by simp)) (ih fun y hy => hf y (by simp [hy]))

/-- Closing all hops of a property. -/
theorem closeHops (h : OnParts plan P) (p : Property) (n : Nat) :
    P ((List.range (n + 1)).reverse.flatMap (Aql.closeHop p) ++ Aql.closing p) := by
  -- the first hop is closed last, together with the property
  rw [List.range_succ_eq_map, List.reverse_cons, List.flatMap_append, List.append_assoc]
  refine h.append (h.flatMap ?_) (by simpa using h.ended p)
  intro hop hhop
  simp only [List.mem_reverse, List.mem_map] at hhop
  rcases hhop with ⟨i, -, rfl⟩
  exact h.closed p i

/-- A traversal has what its parts preserve, if the traversals of the children have. -/
theorem traversal_of_children (h : OnParts plan P) {parent : Fragment}
    (hparent : IsDocument parent) {p : Property}
    (hchildren : ∀ {doc}, IsDocument doc → P (traversals plan doc p.children)) :
    P (traversal plan parent p) := by
  rw [traversal_eq]
  split
  · exact hchildren hparent
  split
  · exact h.nil
  rename_i step steps hsteps
  -- the body is about the document that the last hop leads to
  have hdoc : IsDocument (hopDoc p steps.length) := .hop p _
  have hopened := h.flatMap fun (s : Step × Nat) (_ : s ∈ steps.zipIdx 1) =>
    h.opened p s.2 s.1 hparent
  have hbody : P (body plan (hopDoc p steps.length) p) := by
    unfold body
    split
    · exact h.leaf p _ hdoc
    · exact h.append (h.append (hchildren hdoc) (h.filters p.children hdoc))
        (h.result p.children hdoc)
  -- the list of the first hop spans all others, the body and what closes them
  have hlists := h.append (h.opened p 0 step hparent)
    (h.append (h.append hopened hbody) (h.closeHops p steps.length))
  split
  · exact h.grouped p step _ hparent hlists
  · rwa [List.append_nil]

mutual

/-- So has every traversal, by induction on the properties. -/
theorem traversal (h : OnParts plan P) {parent : Fragment} (hparent : IsDocument parent) :
    (p : Property) → P (Aql.traversal plan parent p)
  | ⟨_, _, children, _, _, _, _, _, _, _, _⟩ =>
    h.traversal_of_children hparent fun hdoc => h.traversals hdoc children

/-- What holds of all parts of a traversal holds of the traversals of a level. -/
theorem traversals (h : OnParts plan P) {parent : Fragment} (hparent : IsDocument parent) :
    (ps : List Property) → P (Aql.traversals plan parent ps)
  | [] => h.nil
  | p :: rest => h.append (h.traversal hparent p) (h.traversals hparent rest)

end

end OnParts

/-! ## Placeholders -/

/-- The placeholders that the library names, with the values that they carry. -/
def own (plan : Plan) : List (String × Value) :=
  (match plan.access with
    | some access =>
      [("readAccessBySpace", spaceCollections access.spaces),
       ("readAccessByInvitation",
        .object (Dictionary.ofEntries (access.instances.map fun id => (id.text, .bool true))))]
    | none => []) ++
  (match plan.root with
    | .document id =>
      [("@rootCollection", .string (Collection.ofSpace id.space).name),
       ("rootId", .string id.uuid.text)]
    | .ofType type =>
      [("@typeCollection", .string typeCollection), ("typeId", .string type),
       ("@typeRelation", .string typeRelation)]) ++
  (match plan.spaces with
    | some spaces => [("spaceRestriction", spaceCollections spaces)]
    | none => [])

/-- The placeholders of a statement for a plan: those that the library names, the types of a hop,
and the operands of conditions, which are named after the client's parameters. -/
inductive Placeholder (plan : Plan) : String → Value → Prop
  | own {key : String} {value : Value} (h : (key, value) ∈ own plan) : Placeholder plan key value
  | types (p : Property) (hop : Nat) (types : List String) :
      Placeholder plan (stepAlias p hop ++ "_types") (.strings types)
  | operand {c : Condition} (h : c ∈ plan.conditions) :
      Placeholder plan c.bindName (.ofOption .string c.operand)
  | like {c : Condition} (h : c ∈ plan.conditions) :
      Placeholder plan c.bindName (.ofOption .string c.likePattern)

section

variable {plan : Plan}

/-- The variable of a document fits. -/
@[simp]
theorem fits_document {doc : Fragment} (h : IsDocument doc) :
    Fragment.Fits (Placeholder plan) doc := by
  cases h <;> simp [root, hopDoc]

@[simp]
theorem fits_attr {doc : Fragment} (h : IsDocument doc) (key : String) :
    Fragment.Fits (Placeholder plan) (attr doc key) := by
  simp [attr, h]

/-- The value of a property fits. -/
@[simp]
theorem fits_value {doc : Fragment} (h : IsDocument doc) (p : Property) :
    Fragment.Fits (Placeholder plan) (value doc p) := by
  unfold value
  -- a field of the document, or a variable
  repeat' split
  all_goals simp [h]

/-- The tests of a document fit. -/
@[simp]
theorem fits_guards {doc : Fragment} (h : IsDocument doc) :
    Script.Fits (Placeholder plan) (guards plan doc) := by
  have hrestriction (spaces : Names) (hspaces : plan.spaces = some spaces) :
      Placeholder plan "spaceRestriction" (spaceCollections spaces) :=
    .own (by simp [own, hspaces])
  unfold guards
  cases plan.access <;> cases hspaces : plan.spaces <;>
    simp [h, Command.fragment, hrestriction, hspaces]

/-- A condition fits on every field that does. -/
theorem fits_condition {field : Fragment} (hfield : Fragment.Fits (Placeholder plan) field)
    {c : Condition} (hc : c ∈ plan.conditions) :
    Fragment.Fits (Placeholder plan) (condition field c) := by
  unfold condition
  split <;> simp [comparison, hfield, Placeholder.operand hc, Placeholder.like hc]

theorem fits_filtersOf {doc : Fragment} (h : IsDocument doc) (p : Property) :
    Script.Fits (Placeholder plan) (filtersOf plan doc p) := by
  unfold filtersOf
  rw [Script.Fits.append_iff]
  constructor
  · split <;> simp [h, Command.fragment]
  · split
    · rename_i c hc
      have hcondition := fits_condition (fits_value h p) (Plan.mem_conditions hc)
      simp [hcondition, Command.fragment]
    · simp

/-- The filters of a level fit. -/
theorem fits_filters {doc : Fragment} (h : IsDocument doc) (ps : List Property) :
    Script.Fits (Placeholder plan) (filters plan doc ps) := by
  intro c hc
  rcases List.mem_flatMap.mp hc with ⟨p, -, hc⟩
  exact fits_filtersOf h p c hc

theorem fits_entries {fs : List Fragment} (h : ∀ f ∈ fs, Fragment.Fits (Placeholder plan) f) :
    Script.Fits (Placeholder plan) (entries fs) := by
  induction fs with
  | nil => simp [entries]
  | cons f rest ih =>
    have hf := h f (by simp)
    have hrest := ih fun g hg => h g (by simp [hg])
    cases rest with
    | nil => simpa [entries, Command.fragment] using hf
    | cons g rest => simpa [entries, Command.fragment, hf] using hrest

/-- A result fits. -/
theorem fits_result {doc : Fragment} (h : IsDocument doc) (ps : List Property) (nested : Bool) :
    Script.Fits (Placeholder plan) (result doc ps nested) := by
  unfold result
  simp only [Script.Fits.append_iff]
  refine ⟨⟨⟨?_, ?_⟩, fits_entries ?_⟩, by simp [Command.fragment]⟩
  · split <;> simp [Command.fragment, h]
  · cases nested <;> simp [Command.fragment]
  · simp [quotedKey, h]

theorem fits_opening (p : Property) : Fragment.Fits (Placeholder plan) (opening p) := by
  unfold opening sortVariable
  rcases p.collapse with _ | _ | _ <;> cases p.sort <;> simp

/-- A hop fits: its types are a placeholder of the plan. -/
theorem fits_openHop (p : Property) {parent : Fragment} (hop : Nat) (step : Step)
    (h : IsDocument parent) : Script.Fits (Placeholder plan) (openHop plan p parent hop step) := by
  have hdoc (i : Nat) : IsDocument (hopDoc p i) := .hop p i
  have hsource : Fragment.Fits (Placeholder plan)
      (if hop = 0 then parent else hopDoc p (hop - 1)) := by
    split <;> simp [h, hdoc]
  have hopening : Fragment.Fits (Placeholder plan) (if hop = 0 then opening p else []) := by
    split <;> simp [fits_opening]
  unfold openHop hopEdge
  simp only [Script.Fits.append_iff]
  refine ⟨⟨⟨⟨?_, ?_⟩, fits_guards (hdoc hop)⟩, ?_⟩, ?_⟩
  · cases p.ensureOrder <;> simp [Command.fragment, hopening]
  · cases plan.edgeExists step <;> cases p.ensureOrder <;> cases step.reverse <;>
      simp [Command.fragment, hdoc, hsource]
  · split <;> simp [Command.fragment, hdoc, Placeholder.types]
  · split <;> simp [Command.fragment]

theorem fits_closeHop (p : Property) (hop : Nat) :
    Script.Fits (Placeholder plan) (closeHop p hop) := by
  unfold closeHop projectionStart
  cases p.ensureOrder <;> by_cases hhop : hop = 0 <;> simp [hhop, Command.fragment]

theorem fits_closing (p : Property) : Script.Fits (Placeholder plan) (closing p) := by
  unfold closing sortVariable
  cases p.sort <;> cases p.collapse <;> simp [Command.fragment]

/-- Groups fit. -/
theorem fits_grouping (p : Property) : Script.Fits (Placeholder plan) (grouping p) := by
  have hattr (name key : String) : Fragment.Fits (Placeholder plan) (attr (named name) key) := by
    simp [attr]
  unfold grouping comma quotedKey
  simp only [Script.Fits.append_iff]
  refine ⟨⟨?_, ?_⟩, ?_⟩
  · simp [Command.fragment, hattr, List.forall_mem_map, -List.mem_map, -Prod.forall]
  · split <;> simp [Command.fragment, List.forall_mem_map, or_imp, forall_and, -List.mem_map,
      -Prod.forall]
  · split <;> simp [Command.fragment, hattr, List.forall_mem_map, or_imp, forall_and,
      -List.mem_map, -Prod.forall]

/-- Traversals fit, since their parts do. -/
theorem fits_traversals {parent : Fragment} (h : IsDocument parent) (ps : List Property) :
    Script.Fits (Placeholder plan) (traversals plan parent ps) := by
  have hparts : OnParts plan (Script.Fits (Placeholder plan)) := {
    nil := by simp
    append := fun ha hb => Script.Fits.append_iff.mpr ⟨ha, hb⟩
    opened := fun p _ hop step h => fits_openHop p hop step h
    leaf := fun p _ leaf h => by
      unfold projectionStart
      cases p.ensureOrder <;> simp [Command.fragment, h]
    filters := fun ps h => fits_filters h ps
    result := fun ps h => fits_result h ps true
    closed := fun p hop => fits_closeHop p (hop + 1)
    ended := fun p => Script.Fits.append_iff.mpr ⟨fits_closeHop p 0, fits_closing p⟩
    grouped := fun p _ step rest h hlists =>
      Script.Fits.append_iff.mpr ⟨hlists, fits_grouping p⟩ }
  exact hparts.traversals h ps

variable (plan)

/-- The selection of an AQL statement fits. -/
theorem fits_selection : Script.Fits (Placeholder plan) (selection plan) := by
  -- what the head of the statement binds is the library's own
  have hown : ∀ e ∈ own plan, Placeholder plan e.1 e.2 := fun _ he => .own he
  have hhead : Script.Fits (Placeholder plan)
      (accessLists plan.access ++ rootSelection plan.root) := by
    rw [Script.Fits.append_iff]
    constructor
    · cases haccess : plan.access with
      | none => simp [accessLists]
      | some access =>
        simp only [own, haccess, List.forall_mem_append, List.forall_mem_cons] at hown
        simp [accessLists, Command.fragment, hown]
    · cases hroot : plan.root with
      | document id =>
        simp only [own, hroot, List.forall_mem_append, List.forall_mem_cons] at hown
        simp [rootSelection, Command.fragment, hown]
      | ofType type =>
        simp only [own, hroot, List.forall_mem_append, List.forall_mem_cons] at hown
        simp [rootSelection, Command.fragment, hown]
  unfold selection
  simp only [Script.Fits.append_iff] at hhead ⊢
  refine ⟨⟨⟨⟨hhead, fits_guards .root⟩, ?_⟩, fits_traversals .root _⟩, fits_filters .root _⟩
  -- the filter on ids is a condition of the plan
  cases hid : plan.documentFilter with
  | none => simp
  | some c =>
    have hcondition := fits_condition (fits_attr .root "@id")
      (show c ∈ plan.conditions by simp [Plan.conditions, hid])
    simp [Command.fragment, hcondition]

/-- Every placeholder of a statement is one of those listed, and no text has a line break. -/
theorem fits_script : Script.Fits (Placeholder plan) (script plan) := by
  have hprojection : Script.Fits (Placeholder plan) (projection plan) := by
    have hresult : Script.Fits (Placeholder plan) (result root plan.spec.properties false) :=
      fits_result .root plan.spec.properties false
    unfold projection comma
    simp only [Script.Fits.append_iff]
    refine ⟨⟨?_, ?_⟩, hresult⟩
    · split <;> simp [Command.fragment, IsDocument.root, List.forall_mem_map, -List.mem_map]
    · simp [Command.fragment]
  unfold script
  rw [Script.Fits.append_iff]
  refine ⟨fits_selection plan, ?_⟩
  split
  · simp [countProjection, Command.fragment]
  · exact hprojection

end

/-! ## Options -/

section

variable {plan : Plan}

theorem writes_guards (doc : Fragment) : Script.Writes (guards plan doc) := by
  unfold guards
  cases plan.access <;> cases plan.spaces <;> simp [Command.Writes]

theorem writes_filters (doc : Fragment) (ps : List Property) :
    Script.Writes (filters plan doc ps) := by
  have hproperty (p : Property) : Script.Writes (filtersOf plan doc p) := by
    unfold filtersOf
    cases p.required <;> cases plan.condition? p <;> simp [Command.Writes]
  intro c hc
  rcases List.mem_flatMap.mp hc with ⟨p, -, hc⟩
  exact hproperty p c hc

theorem writes_entries (fs : List Fragment) : Script.Writes (entries fs) := by
  induction fs with
  | nil => simp [entries]
  | cons f rest ih =>
    cases rest with
    | nil => simp [entries, Command.Writes]
    | cons g rest => simpa [entries, Command.Writes] using ih

theorem writes_result (doc : Fragment) (ps : List Property) (nested : Bool) :
    Script.Writes (result doc ps nested) := by
  unfold result
  dsimp only
  split <;> simp [Command.Writes, writes_entries]

theorem writes_openHop (p : Property) (parent : Fragment) (hop : Nat) (step : Step) :
    Script.Writes (openHop plan p parent hop step) := by
  unfold openHop
  dsimp only
  cases plan.edgeExists step <;> cases step.types.isEmpty <;> cases p.ensureOrder <;>
    simp [Command.Writes, writes_guards]

/-- Traversals only write. -/
theorem writes_traversals {parent : Fragment} (h : IsDocument parent) (ps : List Property) :
    Script.Writes (traversals plan parent ps) := by
  have hclose (p : Property) (hop : Nat) : Script.Writes (closeHop p hop) := by
    unfold closeHop
    by_cases hhop : hop = 0 <;> simp [hhop, Command.Writes]
  have hclosing (p : Property) : Script.Writes (closing p) := by
    unfold closing
    cases p.sort <;> cases p.collapse.isSome <;> simp [Command.Writes]
  have hgrouping (p : Property) : Script.Writes (grouping p) := by
    unfold grouping
    dsimp only
    split <;> simp [Command.Writes]
  -- nothing in a traversal asks for a page
  have hparts : OnParts plan Script.Writes := {
    nil := by simp
    append := fun ha hb => Script.Writes.append_iff.mpr ⟨ha, hb⟩
    opened := fun p parent hop step _ => writes_openHop p parent hop step
    leaf := fun p _ leaf _ => by simp [Command.Writes]
    filters := fun ps _ => writes_filters _ ps
    result := fun ps _ => writes_result _ ps true
    closed := fun p hop => hclose p (hop + 1)
    ended := fun p => Script.Writes.append_iff.mpr ⟨hclose p 0, hclosing p⟩
    grouped := fun p _ step rest _ hlists =>
      Script.Writes.append_iff.mpr ⟨hlists, hgrouping p⟩ }
  exact hparts.traversals h ps

variable (plan)

/-- A selection only writes. -/
theorem writes_selection : Script.Writes (selection plan) := by
  unfold selection accessLists rootSelection
  cases plan.access <;> cases plan.root <;> cases plan.documentFilter <;>
    simp [Command.Writes, writes_guards, writes_filters, writes_traversals .root]

end

/-- A full count is asked for only for a page with a size that wants its total. -/
theorem options_script (sigil : Sigil) (plan : Plan) :
    ((Draft.empty sigil).runAll (script plan)).options =
      if plan.countOnly then .none
      else match plan.page with
        | some ⟨_, some _, returnTotal⟩ => ⟨returnTotal, false⟩
        | _ => ⟨false, true⟩ := by
  have hselection := Draft.options_runAll (writes_selection plan) (Draft.empty sigil)
  have hresult := Draft.options_runAll (writes_result root plan.spec.properties false)
  rw [script, Draft.runAll_append]
  generalize (Draft.empty sigil).runAll (selection plan) = d at hselection ⊢
  split
  · -- counting leaves the options alone
    rfl
  · -- the page comes after the sorting, and the result changes no options
    unfold projection
    rw [Draft.runAll_append, hresult, Draft.runAll_append]
    have hsort (fs : List Fragment) : (d.runAll (if ((Property.level plan.spec.properties).filter
        Property.sort).isEmpty then [] else [.line (lit "SORT " ++ comma fs)])).options = .none := by
      rw [Draft.options_runAll _ d, hselection]
      · rfl
      · split <;> simp [Command.Writes]
    have hpage (d : Draft) (page : Option PageRequest) : (d.runAll [.page page]).options =
        match page with
        | some ⟨_, some _, returnTotal⟩ => ⟨returnTotal, false⟩
        | _ => ⟨d.options.fullCount, true⟩ := by
      rcases page with _ | ⟨offset, _ | size, returnTotal⟩ <;> rfl
    rw [hpage, hsort]
    rfl

end GraphQuery.Aql
