import GraphQuery.Proofs.Bindings

/-!
# GraphQuery.Proofs.Guards — what the guards of a statement let pass

A guard tests where a document lives, or which one it is, against lists that the statement binds.

1. **Guards** as they are meant, and as both dialects write them.
2. **Texts**: the guards and the lists of a statement are written that way.
3. **Decisions**: Cypher lets the documents of the plan pass. AQL asks for the collection of a
   document, and lets those pass too that only share a collection with them.
-/

namespace GraphQuery

open Json

/-! ## Guards -/

/-- A list or an object: how a guard writes it, and the name of the placeholder that carries it. -/
structure Listing where
  written : String
  key : String

/-- A test on a document. -/
inductive Guard
  /-- The place where the document lives is listed. -/
  | home (l : Listing)
  /-- The id of the document is listed. -/
  | id (l : Listing)
  | either (a b : Guard)

namespace Guard

/-- Whether a name is an item of a list, or a key of an object. -/
def lists (v : Value) (name : String) : Bool :=
  match v with
  | .array items => items.any fun item => item.asString? == some name
  | .object row => Dictionary.contains row name
  | _ => false

/-- Whether a document with this home and this id passes a guard. -/
def holds (bindings : Dictionary Value) (home id : String) : Guard → Bool
  | .home l => (bindings.get? l.key).any (lists · home)
  | .id l => (bindings.get? l.key).any (lists · id)
  | .either a b => a.holds bindings home id || b.holds bindings home id

/-- A guard on a document, in AQL. -/
def aql (doc : String) : Guard → String
  | .home l => "PARSE_IDENTIFIER(" ++ doc ++ ").collection IN " ++ l.written
  | .id l => "HAS(" ++ l.written ++ ", " ++ doc ++ "._key)"
  | .either a b => a.aql doc ++ " OR " ++ b.aql doc

/-- A guard on a node, in Cypher. -/
def cypher (node : String) : Guard → String
  | .home l => node ++ "._space IN " ++ l.written
  | .id l => node ++ "._id IN " ++ l.written
  | .either a b => "(" ++ a.cypher node ++ " OR " ++ b.cypher node ++ ")"

@[simp]
theorem aql_home (doc : String) (l : Listing) : (home l).aql doc =
    "PARSE_IDENTIFIER(" ++ doc ++ ").collection IN " ++ l.written := rfl

@[simp]
theorem aql_id (doc : String) (l : Listing) : (Guard.id l).aql doc =
    "HAS(" ++ l.written ++ ", " ++ doc ++ "._key)" := rfl

@[simp]
theorem aql_either (doc : String) (a b : Guard) :
    (either a b).aql doc = a.aql doc ++ " OR " ++ b.aql doc := rfl

@[simp]
theorem cypher_home (node : String) (l : Listing) : (home l).cypher node =
    node ++ "._space IN " ++ l.written := rfl

@[simp]
theorem cypher_id (node : String) (l : Listing) : (Guard.id l).cypher node =
    node ++ "._id IN " ++ l.written := rfl

@[simp]
theorem cypher_either (node : String) (a b : Guard) :
    (either a b).cypher node = "(" ++ a.cypher node ++ " OR " ++ b.cypher node ++ ")" := rfl

end Guard

/-- Guards of a plan: on what the reader may read, then on the spaces that are asked for. -/
def Plan.guards (plan : Plan) (spaces instances restriction : Listing) : List Guard :=
  (if plan.access.isSome then [.either (.home spaces) (.id instances)] else []) ++
  (if plan.spaces.isSome then [.home restriction] else [])

/-- The conditions that the AQL statement of a plan puts on the root. -/
def Plan.aqlGuards (plan : Plan) : List Guard :=
  plan.guards ⟨"whitelist", "readAccessBySpace"⟩ ⟨"invitation", "readAccessByInvitation"⟩
    ⟨"@spaceRestriction", "spaceRestriction"⟩

/-- The conditions that the Cypher statement of a plan puts on the root. -/
def Plan.cypherGuards (plan : Plan) : List Guard :=
  plan.guards ⟨"allowedSpaces", "allowedSpaces"⟩ ⟨"allowedInstances", "allowedInstances"⟩
    ⟨"$spaceRestriction", "spaceRestriction"⟩

/-! ## Texts -/

/-- The text that a command writes. -/
def Command.text (sigil : Sigil) (c : Command) : String := c.fragment.render sigil

@[simp]
theorem Command.text_line (sigil : Sigil) (f : Fragment) :
    (Command.line f).text sigil = f.render sigil := rfl

/-- The access filter of AQL is a guard as it is written. -/
theorem Aql.text_accessGuard (doc : String) :
    "FILTER PARSE_IDENTIFIER(" ++ doc ++ ").collection IN whitelist OR HAS(invitation, " ++ doc ++
        "._key)" =
      "FILTER " ++ Guard.aql doc (.either (.home ⟨"whitelist", "readAccessBySpace"⟩)
        (.id ⟨"invitation", "readAccessByInvitation"⟩)) := by
  simp [← String.toList_inj]

/-- So is the filter of the allowed spaces. -/
theorem Aql.text_spaceGuard (doc : String) :
    "FILTER PARSE_IDENTIFIER(" ++ doc ++ ").collection IN " ++ "@spaceRestriction" =
      "FILTER " ++ Guard.aql doc (.home ⟨"@spaceRestriction", "spaceRestriction"⟩) := by
  simp [← String.toList_inj]

/-- Every document of an AQL statement is tested by the guards of its plan. -/
theorem Aql.text_guards (plan : Plan) (doc : Fragment) :
    (Aql.guards plan doc).map (Command.text .atSign) =
      ("FILTER " ++ doc.render .atSign ++ " != NULL") ::
        plan.aqlGuards.map fun g => "FILTER " ++ g.aql (doc.render .atSign) := by
  have hrestriction : Sigil.placeholder .atSign "spaceRestriction" = "@spaceRestriction" := by decide
  have haccess := Aql.text_accessGuard (doc.render .atSign)
  have hspace := Aql.text_spaceGuard (doc.render .atSign)
  unfold Aql.guards Plan.aqlGuards Plan.guards
  -- with and without a filter, with and without a restriction
  cases plan.access <;> cases plan.spaces <;>
    simp only [List.map_cons, List.map_nil, Command.text_line,
      Fragment.render_append, Fragment.render_lit, Fragment.render_bound, hrestriction,
      Option.isSome_none, Option.isSome_some, if_true, Bool.false_eq_true, if_false,
      List.cons_append, List.nil_append, haccess, hspace]

/-- The lists that AQL guards look into are set at the head of the statement. -/
theorem Aql.text_accessLists (access : Option AccessFilter) :
    (Aql.accessLists access).map (Command.text .atSign) =
      if access.isSome then
        ["LET whitelist=@readAccessBySpace", "LET invitation=@readAccessByInvitation"]
      else [] := by
  have hspaces : Sigil.placeholder .atSign "readAccessBySpace" = "@readAccessBySpace" := by decide
  have hinvitation : Sigil.placeholder .atSign "readAccessByInvitation" =
      "@readAccessByInvitation" := by decide
  cases access <;>
    simp [Aql.accessLists, hspaces, hinvitation]

/-- Every node of a Cypher statement is tested by the guards of its plan. -/
theorem Cypher.text_guards (plan : Plan) (node : Fragment) :
    (Cypher.guards plan node).map (Fragment.render .dollar) =
      plan.cypherGuards.map (Guard.cypher (node.render .dollar)) := by
  have hrestriction : Sigil.placeholder .dollar "spaceRestriction" = "$spaceRestriction" := by decide
  unfold Cypher.guards Plan.cypherGuards Plan.guards
  cases plan.access <;> cases plan.spaces <;>
    simp [hrestriction, ← String.toList_inj]

/-- The lists that Cypher guards look into are set at the head of the statement. -/
theorem Cypher.text_accessLists (access : Option AccessFilter) :
    (Cypher.accessLists access).map (Command.text .dollar) =
      if access.isSome then
        ["WITH $allowedSpaces AS allowedSpaces, $allowedInstances AS allowedInstances"]
      else [] := by
  have hspaces : Sigil.placeholder .dollar "allowedSpaces" = "$allowedSpaces" := by decide
  have hinstances : Sigil.placeholder .dollar "allowedInstances" = "$allowedInstances" := by decide
  cases access <;>
    simp [Cypher.accessLists, hspaces, hinstances]

/-! ## Decisions -/

namespace Guard

/-- A list of strings lists its members. -/
theorem lists_strings (names : List String) (name : String) :
    lists (.strings names) name = names.contains name := by
  rw [Bool.eq_iff_iff]
  simp [lists, Value.strings, Value.asString?]

/-- An object of identifiers lists its keys. -/
theorem lists_ids (ids : List Uuid) (id : Uuid) :
    lists (.object (Dictionary.ofEntries (ids.map fun i => (i.text, .bool true)))) id.text =
      ids.contains id := by
  rw [Bool.eq_iff_iff, lists, Dictionary.contains_ofEntries, List.contains_iff_mem]
  simp only [List.map_map, List.mem_map, Function.comp_apply]
  -- uuids that are written alike are the same
  constructor
  · rintro ⟨i, hi, htext⟩
    rwa [← Uuid.text_inj htext]
  · intro hid
    exact ⟨id, hid, rfl⟩

theorem lists_texts (ids : List Uuid) (id : Uuid) :
    lists (.strings (ids.map Uuid.text)) id.text = ids.contains id := by
  rw [Bool.eq_iff_iff, lists_strings, List.contains_iff_mem, List.contains_iff_mem, List.mem_map]
  constructor
  · rintro ⟨i, hi, htext⟩
    rwa [← Uuid.text_inj htext]
  · intro hid
    exact ⟨id, hid, rfl⟩

end Guard

/-- Whether the collection of a space is among those of the given spaces. -/
def Collection.sharedWith (space : String) (spaces : Names) : Bool :=
  spaces.any fun s => Collection.ofSpace s = Collection.ofSpace space

/-- Whether a document may take part as far as its collection tells. -/
def Plan.visibleByCollection (plan : Plan) (space : String) (id : Uuid) : Bool :=
  plan.access.all (fun a => Collection.sharedWith space a.spaces || a.instances.contains id) &&
    plan.spaces.all (Collection.sharedWith space)

/-- The spaces that decide which documents may take part. -/
def Plan.listedSpaces (plan : Plan) : List String :=
  (plan.access.map AccessFilter.spaces).getD [] ++ plan.spaces.getD []

/-- Two spaces share a collection exactly when they share its name. -/
theorem Collection.ofSpace_inj {s t : String} :
    ofSpace s = ofSpace t ↔ (ofSpace s).name = (ofSpace t).name := by
  simp [ofSpace]

theorem Guard.lists_spaceCollections (spaces : Names) (space : String) :
    lists (Aql.spaceCollections spaces) (Collection.ofSpace space).name =
      Collection.sharedWith space spaces := by
  rw [Bool.eq_iff_iff, Aql.spaceCollections, lists_strings, List.contains_iff_mem, List.mem_map,
    Collection.sharedWith, List.any_eq_true]
  simp only [decide_eq_true_eq, Collection.ofSpace_inj]

namespace Plan

variable {plan : Plan}

/-- Cypher lets exactly those documents pass that may take part. -/
theorem cypherGuards_hold (hnames : plan.NamedApart) (space : String) (id : Uuid) :
    plan.cypherGuards.all (·.holds ((Draft.empty .dollar).runAll (Cypher.script plan)).bindings
      space id.text) = plan.visible space id := by
  -- no parameter of the client takes over the lists of the library
  have hallowed (a : AccessFilter) (h : plan.access = some a) :=
    Cypher.get?_own .dollar hnames (show ("allowedSpaces", .strings a.spaces) ∈ Cypher.own plan by
      simp [Cypher.own, h])
  have hinstances (a : AccessFilter) (h : plan.access = some a) :=
    Cypher.get?_own .dollar hnames (show ("allowedInstances",
      .strings (a.instances.map Uuid.text)) ∈ Cypher.own plan by simp [Cypher.own, h])
  have hrestriction (spaces : Names) (h : plan.spaces = some spaces) :=
    Cypher.get?_own .dollar hnames (show ("spaceRestriction", .strings spaces) ∈ Cypher.own plan by
      simp [Cypher.own, h])
  unfold cypherGuards guards visible
  cases haccess : plan.access <;> cases hspaces : plan.spaces <;>
    simp [Guard.holds, hallowed, hinstances, hrestriction, haccess, hspaces, Guard.lists_texts,
      AccessFilter.permits, -List.contains_eq_mem]
  all_goals simp [Guard.lists_strings]

/-- AQL lets exactly those documents pass that may take part as far as their collection tells. -/
theorem aqlGuards_hold (hnames : plan.NamedApart) (space : String) (id : Uuid) :
    plan.aqlGuards.all (·.holds ((Draft.empty .atSign).runAll (Aql.script plan)).bindings
      (Collection.ofSpace space).name id.text) = plan.visibleByCollection space id := by
  -- no parameter of the client takes over the lists of the library
  have hwhitelist (a : AccessFilter) (h : plan.access = some a) :=
    Aql.get?_own .atSign hnames (show ("readAccessBySpace", Aql.spaceCollections a.spaces) ∈
      Aql.own plan by simp [Aql.own, h])
  have hinvitation (a : AccessFilter) (h : plan.access = some a) :=
    Aql.get?_own .atSign hnames (show ("readAccessByInvitation", .object (Dictionary.ofEntries
      (a.instances.map fun i => (i.text, .bool true)))) ∈ Aql.own plan by simp [Aql.own, h])
  have hrestriction (spaces : Names) (h : plan.spaces = some spaces) :=
    Aql.get?_own .atSign hnames (show ("spaceRestriction", Aql.spaceCollections spaces) ∈
      Aql.own plan by simp [Aql.own, h])
  unfold aqlGuards guards visibleByCollection
  cases haccess : plan.access <;> cases hspaces : plan.spaces <;>
    simp [Guard.holds, hwhitelist, hinvitation, hrestriction, haccess, hspaces,
      Guard.lists_spaceCollections, Guard.lists_ids, -List.contains_eq_mem]

/-- What a plan lets appear, it lets appear by its collection as well. -/
theorem visibleByCollection_of_visible {space : String} {id : Uuid}
    (h : plan.visible space id = true) : plan.visibleByCollection space id = true := by
  -- a listed space shares a collection with itself
  have hshared (spaces : Names) (hmem : spaces.contains space = true) :
      Collection.sharedWith space spaces = true := by
    rw [Collection.sharedWith, List.any_eq_true]
    exact ⟨space, List.contains_iff_mem.mp hmem, by simp⟩
  unfold visible at h
  unfold visibleByCollection
  rw [Bool.and_eq_true, Option.all_eq_true, Option.all_eq_true] at h ⊢
  rcases h with ⟨haccess, hspaces⟩
  constructor
  · intro a ha
    rcases Bool.or_eq_true_iff.mp (haccess a ha) with hmem | hid
    · rw [hshared a.spaces hmem, Bool.true_or]
    · rw [hid, Bool.or_true]
  · intro spaces hmem
    exact hshared spaces (hspaces spaces hmem)

/-- A document that only passes by its collection shares it with a listed space of another name. -/
theorem exists_namesake {space : String} {id : Uuid}
    (h : plan.visibleByCollection space id = true) (hnot : plan.visible space id = false) :
    ∃ s ∈ plan.listedSpaces, s ≠ space ∧ Collection.ofSpace s = Collection.ofSpace space := by
  -- suppose that listed spaces share the collection only if they are the space itself
  by_contra hnone
  have hshared (spaces : Names) (hsub : ∀ s ∈ spaces, s ∈ plan.listedSpaces)
      (hmem : Collection.sharedWith space spaces = true) : spaces.contains space = true := by
    rcases List.any_eq_true.mp hmem with ⟨s, hs, heq⟩
    have hsame : s = space := by
      by_contra hne
      exact hnone ⟨s, hsub s hs, hne, by simpa using heq⟩
    rw [List.contains_iff_mem, ← hsame]
    exact hs
  -- then both lists decide by collection as they do by name
  have hvisible : plan.visible space id = true := by
    unfold visibleByCollection at h
    unfold visible
    rw [Bool.and_eq_true, Option.all_eq_true, Option.all_eq_true] at h ⊢
    rcases h with ⟨haccess, hspaces⟩
    constructor
    · intro a ha
      rcases Bool.or_eq_true_iff.mp (haccess a ha) with hmem | hid
      · have hcontains := hshared a.spaces (by simp [listedSpaces, ha]; tauto) hmem
        rw [AccessFilter.permits, hcontains, Bool.true_or]
      · rw [AccessFilter.permits, hid, Bool.or_true]
    · intro spaces hmem
      exact hshared spaces (by simp [listedSpaces, hmem]; tauto) (hspaces spaces hmem)
  rw [hvisible] at hnot
  cases hnot

end Plan

/-- The statement for the rows, and the one that counts them. -/
def Compiled.statements (c : Compiled) : List Statement := c.statement :: c.count.toList

/-- The statements of a compiled query are those of its plan and of the plan as a count. -/
theorem Compiled.statements_cases {spec : Specification} {dialect : Dialect} {r : Request}
    {s : Statement} (h : s ∈ (spec.compile dialect r).statements) :
    s = .ofPlan dialect r.memory (Plan.build spec r) ∨
      s = .ofPlan dialect r.memory (Plan.build spec r).asCount := by
  simp only [statements, Specification.compile, Plan.compile, List.mem_cons, Option.mem_toList]
    at h
  rcases h with rfl | h
  · exact .inl rfl
  · split at h
    · cases h
      exact .inr rfl
    · cases h

theorem Compiled.ofPlan_of_mem_statements {spec : Specification} {dialect : Dialect} {r : Request}
    {s : Statement} (h : s ∈ (spec.compile dialect r).statements) :
    s = .ofPlan dialect r.memory s.plan ∧ s.plan.NamedApart := by
  have hnames := Plan.namedApart_build spec r
  rcases statements_cases h with rfl | rfl
  · exact ⟨rfl, hnames⟩
  · -- the plan that counts has the same conditions
    exact ⟨rfl, hnames⟩

/-- Guards decide. The guards that a statement writes, with the lists that it binds, let a document
pass in Cypher exactly if it may take part. In AQL they let it pass exactly if its collection may;
this holds of all documents that may take part, and of others only if their space shares its
collection with a listed space of another name. -/
theorem Compiled.guards_decide (spec : Specification) (r : Request) (space : String) (id : Uuid) :
    (∀ s ∈ (spec.compile .cypher r).statements,
      (∀ node, (Cypher.guards s.plan node).map (Fragment.render .dollar) =
        s.plan.cypherGuards.map (Guard.cypher (node.render .dollar))) ∧
      (Cypher.accessLists s.plan.access).map (Command.text .dollar) =
        (if s.plan.access.isSome then
          ["WITH $allowedSpaces AS allowedSpaces, $allowedInstances AS allowedInstances"]
        else []) ∧
      s.plan.cypherGuards.all (·.holds s.bindings space id.text) = s.plan.visible space id) ∧
    (∀ s ∈ (spec.compile .aql r).statements,
      (∀ doc, (Aql.guards s.plan doc).map (Command.text .atSign) =
        ("FILTER " ++ doc.render .atSign ++ " != NULL") ::
          s.plan.aqlGuards.map fun g => "FILTER " ++ g.aql (doc.render .atSign)) ∧
      (Aql.accessLists s.plan.access).map (Command.text .atSign) =
        (if s.plan.access.isSome then
          ["LET whitelist=@readAccessBySpace", "LET invitation=@readAccessByInvitation"]
        else []) ∧
      s.plan.aqlGuards.all (·.holds s.bindings (Collection.ofSpace space).name id.text) =
        s.plan.visibleByCollection space id ∧
      (s.plan.visible space id = true → s.plan.visibleByCollection space id = true) ∧
      (s.plan.visibleByCollection space id = true → s.plan.visible space id = false →
        ∃ t ∈ s.plan.listedSpaces, t ≠ space ∧ Collection.ofSpace t = Collection.ofSpace space)) := by
  constructor
  · intro s hs
    rcases ofPlan_of_mem_statements hs with ⟨hs, hnames⟩
    have hhold := Plan.cypherGuards_hold hnames space id
    refine ⟨Cypher.text_guards s.plan, Cypher.text_accessLists s.plan.access, ?_⟩
    rw [hs]
    exact hhold
  · intro s hs
    rcases ofPlan_of_mem_statements hs with ⟨hs, hnames⟩
    have hhold := Plan.aqlGuards_hold hnames space id
    refine ⟨Aql.text_guards s.plan, Aql.text_accessLists s.plan.access, ?_,
      Plan.visibleByCollection_of_visible, Plan.exists_namesake⟩
    rw [hs]
    exact hhold

/-- A reader of the space `a b` alone: documents of `a_b` may not take part, and Cypher turns them
away, but they pass the guards of AQL. -/
theorem Compiled.guards_decide_namesake :
    let spec : Specification := ⟨[], none, "Paper", none⟩
    let r : Request := { Request.ofStage .inProgress with access := some ⟨["a b"], []⟩ }
    let cypher := (spec.compile .cypher r).statement
    let aql := (spec.compile .aql r).statement
    cypher.plan.cypherGuards.all (·.holds cypher.bindings "a_b" (Uuid.text ⟨1⟩)) = false ∧
      aql.plan.visible "a_b" ⟨1⟩ = false ∧
      aql.plan.aqlGuards.all
        (·.holds aql.bindings (Collection.ofSpace "a_b").name (Uuid.text ⟨1⟩)) = true := by
  intro spec r cypher aql
  rcases guards_decide spec r "a_b" ⟨1⟩ with ⟨hcypher, haql⟩
  rcases hcypher cypher (.head _) with ⟨-, -, hturned⟩
  rcases haql aql (.head _) with ⟨-, -, hpassed, -, -⟩
  -- blanks become underscores
  have hshared : Collection.ofSpace "a b" = Collection.ofSpace "a_b" := by
    rw [Collection.ofSpace_inj]
    simp [Collection.ofSpace, Collection.nameOf, Collection.isNameChar, ← String.toList_inj]
  have hcollection : aql.plan.visibleByCollection "a_b" ⟨1⟩ = true := by
    have haccess : aql.plan.access = some ⟨["a b"], []⟩ := rfl
    have hspaces : aql.plan.spaces = none := rfl
    simp [Plan.visibleByCollection, haccess, hspaces, Collection.sharedWith, hshared]
  exact ⟨hturned.trans (by decide), by decide, hpassed.trans hcollection⟩

end GraphQuery
