import GraphQuery.Proofs.AqlScripts
import GraphQuery.Proofs.CypherScripts
import GraphQuery.Proofs.Outlines

/-!
# GraphQuery.Proofs.Redaction — plans without the values of clients

A redacted plan has lost all values of clients: operands of filters, types that steps ask for,
spaces, instances and ids. Its statements look as those of the plan do.

1. **Redaction** of properties, and what it leaves as it is.
2. **Redacted plans**
3. **AQL** statements of a redacted plan.
4. **Cypher** statements of a redacted plan.
-/

namespace GraphQuery

open Json

/-! ## Redaction -/

/-- A filter without its literal. -/
def ValueFilter.redact (f : ValueFilter) : ValueFilter := { f with operand := none }

/-- A step without the types that it asks for; that it asks for some stays. -/
def Step.redact (s : Step) : Step := { s with types := if s.types.isEmpty then [] else [""] }

@[simp]
theorem Step.uri_redact (s : Step) : s.redact.uri = s.uri := rfl

@[simp]
theorem Step.reverse_redact (s : Step) : s.redact.reverse = s.reverse := rfl

/-- Whether a step asks for types at all is not lost. -/
@[simp]
theorem Step.isEmpty_types_redact (s : Step) : s.redact.types.isEmpty = s.types.isEmpty := by
  unfold redact
  cases h : s.types.isEmpty <;> simp

namespace Property

mutual

/-- A property without the literals and types that it is filtered by, and so for all below it. -/
def redact : Property → Property
  | ⟨name, path, children, required, sort, groupBy, ensureOrder, groupedInstances, filter, collapse,
      index⟩ =>
    ⟨name, path.map Step.redact, redactAll children, required, sort, groupBy, ensureOrder,
      groupedInstances, filter.map ValueFilter.redact, collapse, index⟩

/-- A list of properties without the literals and types, one by one. -/
def redactAll : List Property → List Property
  | [] => []
  | p :: rest => redact p :: redactAll rest

end

@[simp]
theorem redactAll_eq (ps : List Property) : redactAll ps = ps.map redact := by
  induction ps with
  | nil => rfl
  | cons p rest ih => rw [redactAll, ih, List.map_cons]

section

variable (p : Property)

/-- What is lost of a property itself. -/
theorem redact_eq : p.redact =
    { p with
      path := p.path.map Step.redact
      children := p.children.map redact
      filter := p.filter.map ValueFilter.redact } := by
  cases p
  rw [redact, redactAll_eq]

/-- The path keeps its steps, without the types they ask for. -/
@[simp]
theorem path_redact : p.redact.path = p.path.map Step.redact := by rw [redact_eq]

/-- The children of a redacted property are the redacted children. -/
@[simp]
theorem children_redact : p.redact.children = p.children.map redact := by rw [redact_eq]

@[simp]
theorem filter_redact : p.redact.filter = p.filter.map ValueFilter.redact := by rw [redact_eq]

@[simp]
theorem required_redact : p.redact.required = p.required := by rw [redact_eq]

@[simp]
theorem sort_redact : p.redact.sort = p.sort := by rw [redact_eq]

@[simp]
theorem groupBy_redact : p.redact.groupBy = p.groupBy := by rw [redact_eq]

@[simp]
theorem ensureOrder_redact : p.redact.ensureOrder = p.ensureOrder := by rw [redact_eq]

@[simp]
theorem groupedInstances_redact : p.redact.groupedInstances = p.groupedInstances := by
  rw [redact_eq]

@[simp]
theorem collapse_redact : p.redact.collapse = p.collapse := by rw [redact_eq]

@[simp]
theorem index_redact : p.redact.index = p.index := by rw [redact_eq]

/-- Aliases come from names and numbers, which are not the client's values. -/
@[simp]
theorem aliasName_redact : p.redact.aliasName = p.aliasName := by
  rw [redact_eq]
  rfl

@[simp]
theorem groupAlias_redact : p.redact.groupAlias = p.groupAlias := by
  rw [groupAlias, aliasName_redact, groupAlias]

/-- The key of a result comes from the name. -/
@[simp]
theorem key_redact : p.redact.key = p.key := by
  rw [redact_eq]
  rfl

@[simp]
theorem isLeaf_redact : p.redact.isLeaf = p.isLeaf := by
  simp [isLeaf]

@[simp]
theorem isDirect_redact : p.redact.isDirect = p.isDirect := by simp [isDirect]

@[simp]
theorem isMerge_redact : p.redact.isMerge = p.isMerge := by simp [isMerge]

/-- What groups a property is not redacted. -/
@[simp]
theorem hasGrouping_redact : p.redact.hasGrouping = p.hasGrouping := by
  simp [hasGrouping, Function.comp_def]

/-- The attribute that a leaf reads stays. -/
@[simp]
theorem leafStep?_redact : p.redact.leafStep? = p.leafStep?.map Step.redact := by
  unfold leafStep?
  rw [isLeaf_redact, path_redact, List.getLast?_map]
  split <;> rfl

@[simp]
theorem edgeSteps_redact : p.redact.edgeSteps = p.edgeSteps.map Step.redact := by
  unfold edgeSteps
  rw [isLeaf_redact, path_redact, ← List.map_dropLast]
  split <;> rfl

end

/-- A choice of properties that does not look at what redaction takes away. -/
theorem filter_map_redact {choice : Property → Bool} (h : ∀ p, choice p.redact = choice p)
    (ps : List Property) : (ps.map redact).filter choice = (ps.filter choice).map redact := by
  rw [List.filter_map]
  congr 2
  funext p
  exact h p

/-- A merge node stands for the level below it. -/
theorem expand_eq (p : Property) : p.expand = if p.isMerge then level p.children else [p] := by
  cases p
  rw [expand]
  rfl

theorem subtree_eq (p : Property) : p.subtree = p :: subtrees p.children := by
  cases p
  rw [subtree]

mutual

/-- Redaction commutes with the expansion of merge nodes. -/
theorem expand_redact : (p : Property) → p.redact.expand = p.expand.map redact
  | ⟨_, _, children, _, _, _, _, _, _, _, _⟩ => by
    rw [expand_eq, expand_eq, isMerge_redact, children_redact, level_redact children]
    split <;> rfl

/-- The level of redacted properties is the redacted level. -/
theorem level_redact : (ps : List Property) → level (ps.map redact) = (level ps).map redact
  | [] => rfl
  | p :: rest => by
    rw [List.map_cons, level, level, expand_redact p, level_redact rest, List.map_append]

end

mutual

/-- Redaction commutes with the listing of all properties. -/
theorem subtree_redact : (p : Property) → p.redact.subtree = p.subtree.map redact
  | ⟨_, _, children, _, _, _, _, _, _, _, _⟩ => by
    rw [subtree_eq, subtree_eq, children_redact, subtrees_redact children, List.map_cons]

/-- The properties below are redacted one by one. -/
theorem subtrees_redact : (ps : List Property) → subtrees (ps.map redact) = (subtrees ps).map redact
  | [] => rfl
  | p :: rest => by
    rw [List.map_cons, subtrees, subtrees, subtree_redact p, subtrees_redact rest, List.map_append]

end

end Property

/-! ## Redacted plans -/

/-- A condition without its operand. -/
def Condition.redact (c : Condition) : Condition := { c with operand := none }

/-- AQL binds the root type, so a redacted plan for AQL has lost it, too. -/
def Root.redact (dialect : Dialect) : Root → Root
  | .document _ => .document ⟨⟨0⟩, ""⟩
  | .ofType type =>
    match dialect with
    | .aql => .ofType ""
    | .cypher => .ofType type

/-- A plan without the values of clients. -/
def Plan.redact (dialect : Dialect) (plan : Plan) : Plan :=
  { plan with
    spec := ⟨plan.spec.properties.map Property.redact, none, "", none⟩
    root := plan.root.redact dialect
    access := plan.access.map fun _ => .nothing
    spaces := plan.spaces.map fun _ => []
    documentFilter := plan.documentFilter.map Condition.redact
    propertyFilters := plan.propertyFilters.map fun (index, c) => (index, c.redact) }

section

variable (dialect : Dialect) (plan : Plan)

/-- The edges that are missing are not the client's values. -/
@[simp]
theorem Plan.edgeExists_redact (s : Step) :
    (plan.redact dialect).edgeExists s.redact = plan.edgeExists s := rfl

/-- A condition keeps its place and name, and loses its operand. -/
@[simp]
theorem Plan.condition?_redact (p : Property) :
    (plan.redact dialect).condition? p.redact = (plan.condition? p).map Condition.redact := by
  unfold condition?
  rw [Property.index_redact]
  change (plan.propertyFilters.map fun (index, c) => (index, c.redact)).lookup p.index = _
  induction plan.propertyFilters with
  | nil => rfl
  | cons entry rest ih =>
    rw [List.map_cons, List.lookup_cons, List.lookup_cons, ih]
    split <;> rfl

end

/-! ## AQL -/

namespace Aql

section

variable (plan : Plan)

@[simp]
theorem outline_root : Fragment.outline root = root := rfl

@[simp]
theorem outline_attr (doc : Fragment) (key : String) :
    Fragment.outline (attr doc key) = attr (Fragment.outline doc) key := by
  simp [attr]

/-- Where a value is found does not depend on what the client filters by. -/
@[simp]
theorem value_redact (doc : Fragment) (p : Property) : value doc p.redact = value doc p := by
  unfold value
  rw [Property.isDirect_redact, Property.leafStep?_redact, Property.hasGrouping_redact,
    Property.groupAlias_redact, Property.aliasName_redact]
  cases p.leafStep? <;> rfl

/-- The tests of a document look alike, whatever spaces may be read or are asked for. -/
theorem outline_guards (doc : Fragment) :
    Script.outline (guards (plan.redact .aql) doc) = Script.outline (guards plan doc) := by
  unfold guards
  cases haccess : plan.access <;> cases hspaces : plan.spaces <;>
    simp [Plan.redact, haccess, hspaces, Command.outline]

/-- Comparisons with different operands look alike. -/
theorem outline_comparison (field : Fragment) (op : String) (c : Condition)
    (operand operand' : Option String) :
    Fragment.outline (comparison field op c.redact operand') =
      Fragment.outline (comparison field op c operand) := by
  simp [comparison, Condition.redact]

/-- A condition looks as it does without its operand. -/
theorem outline_condition (field : Fragment) (c : Condition) :
    Fragment.outline (condition field c.redact) = Fragment.outline (condition field c) := by
  have hop : c.redact.op = c.op := rfl
  unfold condition
  rw [hop]
  split
  · rfl
  all_goals exact outline_comparison field _ c _ _

/-- The filters of a property look as those of the redacted one. -/
theorem outline_filtersOf (doc : Fragment) (p : Property) :
    Script.outline (filtersOf (plan.redact .aql) doc p.redact) =
      Script.outline (filtersOf plan doc p) := by
  unfold filtersOf
  rw [value_redact, Property.required_redact, Plan.condition?_redact]
  cases plan.condition? p with
  | none => rfl
  | some c => simp [Command.outline, outline_condition]

/-- The filters of a level, likewise. -/
theorem outline_filters (doc : Fragment) (ps : List Property) :
    Script.outline (filters (plan.redact .aql) doc (ps.map Property.redact)) =
      Script.outline (filters plan doc ps) := by
  unfold filters
  rw [Property.level_redact, List.flatMap_map, Script.outline_flatMap, Script.outline_flatMap]
  congr 1
  funext p
  exact outline_filtersOf plan doc p

/-- The result has nothing of the client's values in it. -/
theorem result_redact (doc : Fragment) (ps : List Property) (nested : Bool) :
    result doc (ps.map Property.redact) nested = result doc ps nested := by
  unfold result
  simp [Property.level_redact, Function.comp_def]

/-- Neither have groups. -/
theorem grouping_redact (p : Property) : grouping p.redact = grouping p := by
  have hchildren {choice : Property → Bool} (h : ∀ c, choice c.redact = choice c) :
      p.redact.children.filter choice = (p.children.filter choice).map Property.redact := by
    rw [Property.children_redact, Property.filter_map_redact h]
  unfold grouping Property.memberSortKeys
  dsimp only
  rw [hchildren (by simp), hchildren (by simp), hchildren (by simp)]
  simp [List.zipIdx_map, List.filter_map, Function.comp_def, Prod.map, -List.any_eq_true]

@[simp]
theorem stepAlias_redact (p : Property) (hop : Nat) : stepAlias p.redact hop = stepAlias p hop := by
  simp [stepAlias]

@[simp]
theorem hopDoc_redact (p : Property) (hop : Nat) : hopDoc p.redact hop = hopDoc p hop := by
  simp [hopDoc]

@[simp]
theorem projectionStart_redact (p : Property) : projectionStart p.redact = projectionStart p := by
  simp [projectionStart]

theorem opening_redact (p : Property) : opening p.redact = opening p := by
  simp [opening, sortVariable]

theorem closing_redact (p : Property) : closing p.redact = closing p := by
  simp [closing, sortVariable]

theorem closeHop_redact (p : Property) (hop : Nat) : closeHop p.redact hop = closeHop p hop := by
  simp [closeHop]

/-- A hop looks alike, whatever types its step asks for. -/
theorem outline_openHop (p : Property) (parent : Fragment) (hop : Nat) (step : Step) :
    Script.outline (openHop (plan.redact .aql) p.redact parent hop step.redact) =
      Script.outline (openHop plan p parent hop step) := by
  unfold openHop
  simp only [hopDoc_redact, stepAlias_redact, opening_redact, Property.ensureOrder_redact,
    Plan.edgeExists_redact, Step.reverse_redact, Step.uri_redact, Step.isEmpty_types_redact,
    Script.outline_append, outline_guards, hopEdge]
  -- the types of the step are bound
  cases step.types.isEmpty with
  | true => rfl
  | false =>
    simp [Command.outline]
    rfl

/-- What stands inside the hops looks alike if the traversals of the children do. -/
theorem outline_body {p : Property} (doc : Fragment)
    (hchildren :
      Script.outline (traversals (plan.redact .aql) doc (p.children.map Property.redact)) =
        Script.outline (traversals plan doc p.children)) :
    Script.outline (body (plan.redact .aql) doc p.redact) = Script.outline (body plan doc p) := by
  unfold body
  rw [Property.leafStep?_redact]
  cases p.leafStep? with
  | some leaf => simp
  | none =>
    dsimp only [Option.map_none]
    rw [Property.children_redact, Script.outline_append, Script.outline_append, hchildren,
      outline_filters, result_redact, ← Script.outline_append, ← Script.outline_append]

/-- All hops of a path look alike. -/
theorem outline_openHops (p : Property) (parent : Fragment) (steps : List (Step × Nat)) :
    Script.outline (steps.flatMap fun (step, hop) =>
      openHop (plan.redact .aql) p.redact parent hop step.redact) =
        Script.outline (steps.flatMap fun (step, hop) => openHop plan p parent hop step) := by
  rw [Script.outline_flatMap, Script.outline_flatMap]
  exact List.flatMap_congr fun e _ => outline_openHop plan p parent e.2 e.1

/-- A traversal looks alike if those of the children do, wherever they start. -/
theorem outline_traversal_of_children {p : Property} (parent : Fragment)
    (hchildren : ∀ doc,
      Script.outline (traversals (plan.redact .aql) doc (p.children.map Property.redact)) =
        Script.outline (traversals plan doc p.children)) :
    Script.outline (traversal (plan.redact .aql) parent p.redact) =
      Script.outline (traversal plan parent p) := by
  rw [traversal_eq, traversal_eq, Property.isMerge_redact, Property.edgeSteps_redact,
    Property.hasGrouping_redact, grouping_redact, closing_redact]
  split
  · rw [Property.children_redact, hchildren]
  · cases p.edgeSteps with
    | nil => rfl
    | cons step steps =>
      have hhops := outline_openHops plan p parent (steps.zipIdx 1)
      have hclose : closeHop p.redact = closeHop p := funext (closeHop_redact p)
      simp only [List.map_cons, List.length_map, List.zipIdx_map, List.flatMap_map,
        Script.outline_append, outline_openHop, Prod.map, id, hhops, hopDoc_redact,
        outline_body plan _ (hchildren _), hclose]

mutual

/-- The traversal of a property looks as that of the redacted one. -/
theorem outline_traversal (parent : Fragment) : (p : Property) →
    Script.outline (traversal (plan.redact .aql) parent p.redact) =
      Script.outline (traversal plan parent p)
  | ⟨_, _, children, _, _, _, _, _, _, _, _⟩ =>
    outline_traversal_of_children plan parent fun doc => outline_traversals doc children

/-- The traversals of a redacted plan have the outline of those of the plan. -/
theorem outline_traversals (parent : Fragment) : (ps : List Property) →
    Script.outline (traversals (plan.redact .aql) parent (ps.map Property.redact)) =
      Script.outline (traversals plan parent ps)
  | [] => rfl
  | p :: rest => by
    rw [List.map_cons, traversals, traversals, Script.outline_append, outline_traversal parent p,
      outline_traversals parent rest, Script.outline_append]

end

/-- The selection of an AQL statement looks as that of the redacted plan. -/
theorem outline_selection :
    Script.outline (selection (plan.redact .aql)) = Script.outline (selection plan) := by
  have haccess : Script.outline (accessLists (plan.redact .aql).access) =
      Script.outline (accessLists plan.access) := by
    cases h : plan.access <;> simp [Plan.redact, h, accessLists, Command.outline]
  have hroot : Script.outline (rootSelection (plan.redact .aql).root) =
      Script.outline (rootSelection plan.root) := by
    cases h : plan.root <;> simp [Plan.redact, Root.redact, h, rootSelection, Command.outline]
  have hproperties : (plan.redact .aql).spec.properties =
      plan.spec.properties.map Property.redact := rfl
  have hfilter : (plan.redact .aql).documentFilter = plan.documentFilter.map Condition.redact := rfl
  unfold selection
  simp only [Script.outline_append, haccess, hroot, hproperties, hfilter, outline_guards,
    outline_traversals, outline_filters]
  cases plan.documentFilter with
  | none => rfl
  | some c => simp [Command.outline, outline_condition]

/-- A statement looks as it does without the values of clients. -/
theorem outline_script :
    Script.outline (script (plan.redact .aql)) = Script.outline (script plan) := by
  have hprojection : projection (plan.redact .aql) = projection plan := by
    have hproperties : (plan.redact .aql).spec.properties =
        plan.spec.properties.map Property.redact := rfl
    unfold projection
    rw [hproperties, result_redact, Property.level_redact,
      Property.filter_map_redact Property.sort_redact]
    simp [Function.comp_def, Plan.redact]
  have hcount : (plan.redact .aql).countOnly = plan.countOnly := rfl
  unfold script
  rw [Script.outline_append, outline_selection, hprojection, hcount, Script.outline_append]

end

end Aql

/-! ## Cypher -/

namespace Cypher

/-! ### Parts without values of clients -/

/-- Names are outlines of themselves. -/
@[simp]
theorem outline_ticked (name : String) : Fragment.outline (ticked name) = ticked name := rfl

@[simp]
theorem outline_localName (p : Property) (suffix : String) :
    Fragment.outline (localName p suffix) = localName p suffix := rfl

@[simp]
theorem outline_edgeVariable (p : Property) :
    Fragment.outline (edgeVariable p) = edgeVariable p := rfl

@[simp]
theorem outline_hopNode (p : Property) (hop : Nat) :
    Fragment.outline (hopNode p hop) = hopNode p hop := rfl

@[simp]
theorem outline_attr (node : Fragment) (key : String) :
    Fragment.outline (attr node key) = attr (Fragment.outline node) key := by
  simp [attr]

@[simp]
theorem outline_comma (fs : List Fragment) :
    Fragment.outline (comma fs) = comma (fs.map Fragment.outline) :=
  Fragment.outline_join ", " fs

@[simp]
theorem outline_conjunction (fs : List Fragment) :
    Fragment.outline (conjunction fs) = conjunction (fs.map Fragment.outline) :=
  Fragment.outline_join " AND " fs

theorem outline_whereClause (opening : String) (conditions : List Fragment) :
    Fragment.outline (whereClause opening conditions) =
      whereClause opening (conditions.map Fragment.outline) := by
  unfold whereClause
  cases conditions <;> simp

theorem outline_sortMaps (list : Fragment) (keys : List Property) :
    Fragment.outline (sortMaps list keys) = sortMaps (Fragment.outline list) keys := by
  unfold sortMaps
  split <;> simp [Function.comp_def]

/-- The outline of groups is that of the list they are made from. -/
theorem outline_grouping (list : Fragment) (p : Property) :
    Fragment.outline (grouping list p) = grouping (Fragment.outline list) p := by
  unfold grouping
  simp [outline_sortMaps, Function.comp_def]

/-- The outline of a list that is sorted, grouped and collapsed. -/
theorem outline_shape (p : Property) (list : Fragment) :
    Fragment.outline (shape p list) = shape p (Fragment.outline list) := by
  unfold shape
  cases p.sort <;> cases p.hasGrouping <;> rcases p.collapse with _ | _ | _ <;>
    simp [outline_grouping]

/-! ### Parts of a redacted plan -/

@[simp]
theorem localName_redact (p : Property) (suffix : String) :
    localName p.redact suffix = localName p suffix := by
  simp [localName]

@[simp]
theorem hopNode_redact (p : Property) (hop : Nat) : hopNode p.redact hop = hopNode p hop := by
  simp [hopNode]

/-- A direct value does not depend on what the client filters by. -/
@[simp]
theorem directValue_redact (node : Fragment) (p : Property) :
    directValue node p.redact = directValue node p := by
  unfold directValue
  rw [Property.leafStep?_redact]
  cases p.leafStep? <;> rfl

theorem sortMaps_redact (list : Fragment) (keys : List Property) :
    sortMaps list (keys.map Property.redact) = sortMaps list keys := by
  simp [sortMaps, Function.comp_def]

/-- Groups do not depend on what the client filters by. -/
theorem grouping_redact (list : Fragment) (p : Property) :
    grouping list p.redact = grouping list p := by
  have hchildren {choice : Property → Bool} (h : ∀ c, choice c.redact = choice c) :
      p.redact.children.filter choice = (p.children.filter choice).map Property.redact := by
    rw [Property.children_redact, Property.filter_map_redact h]
  have hgroups : p.redact.groupSortKeys = p.groupSortKeys.map Property.redact := by
    unfold Property.groupSortKeys
    dsimp only
    rw [hchildren (by simp), Property.filter_map_redact (by simp),
      Property.filter_map_redact (by simp), List.map_append]
  have hmembers : p.redact.memberSortKeys = p.memberSortKeys.map Property.redact := by
    unfold Property.memberSortKeys
    rw [hchildren (by simp)]
  unfold grouping
  dsimp only
  rw [hchildren (by simp), hchildren (by simp), hgroups, hmembers, sortMaps_redact,
    sortMaps_redact]
  simp [Function.comp_def]

/-- Nor does what is done with a list. -/
theorem shape_redact (p : Property) (list : Fragment) : shape p.redact list = shape p list := by
  unfold shape
  simp [grouping_redact]

/-- A hop keeps its direction and relation. -/
theorem hopPattern_redact (p : Property) (hop : Nat) (step : Step) :
    hopPattern p.redact hop step.redact = hopPattern p hop step := by
  simp [hopPattern, edgeVariable]

section

variable (plan : Plan)

/-- The tests of a node look alike, whatever spaces may be read or are asked for. -/
theorem outline_guards (node : Fragment) :
    (guards (plan.redact .cypher) node).map Fragment.outline =
      (guards plan node).map Fragment.outline := by
  unfold guards
  cases haccess : plan.access <;> cases hspaces : plan.spaces <;>
    simp [Plan.redact, haccess, hspaces]

/-- A condition on fields that look alike looks alike without its operand. -/
theorem outline_condition {field field' : Fragment}
    (hfield : Fragment.outline field' = Fragment.outline field) (c : Condition) :
    Fragment.outline (condition field' c.redact) = Fragment.outline (condition field c) := by
  have hop : c.redact.op = c.op := rfl
  have hname : c.redact.bindName = c.bindName := rfl
  unfold condition comparison
  rw [hop]
  split <;> simp [hfield, hname]

/-- The conditions of a property look as those of the redacted one. -/
theorem outline_conditionsOn (p : Property) {field field' : Fragment}
    (hfield : Fragment.outline field' = Fragment.outline field) :
    (conditionsOn (plan.redact .cypher) p.redact field').map Fragment.outline =
      (conditionsOn plan p field).map Fragment.outline := by
  unfold conditionsOn
  rw [Property.required_redact, Plan.condition?_redact]
  cases p.required <;> cases plan.condition? p <;> simp [hfield, outline_condition hfield]

/-- The conditions of a hop look alike, whatever types its step asks for. -/
theorem outline_hopConditions (p : Property) (hop : Nat) (step : Step) :
    (hopConditions (plan.redact .cypher) p.redact hop step.redact).map Fragment.outline =
      (hopConditions plan p hop step).map Fragment.outline := by
  unfold hopConditions
  rw [hopNode_redact, Step.isEmpty_types_redact, List.map_append, List.map_append, outline_guards]
  -- the types of the step are bound
  cases step.types.isEmpty <;> simp

/-- The pattern of a path stays. -/
theorem outline_pathPattern (parent : Fragment) (p : Property) :
    pathPattern parent p.redact = pathPattern parent p := by
  simp [pathPattern, List.zipIdx_map, List.flatMap_map, hopPattern_redact]

/-- The conditions of a path look alike. -/
theorem outline_pathConditions (p : Property) :
    (pathConditions (plan.redact .cypher) p.redact).map Fragment.outline =
      (pathConditions plan p).map Fragment.outline := by
  unfold pathConditions
  rw [Property.edgeSteps_redact, List.zipIdx_map, List.flatMap_map, List.map_flatMap,
    List.map_flatMap]
  congr 1
  funext ⟨step, hop⟩
  exact outline_hopConditions plan p hop step

/-- Comprehensions look alike if their conditions and projections do. -/
theorem outline_comprehension (parent : Fragment) (p : Property)
    {conditions conditions' : List Fragment} {projection projection' : Fragment}
    (hconditions : conditions'.map Fragment.outline = conditions.map Fragment.outline)
    (hprojection : Fragment.outline projection' = Fragment.outline projection) :
    Fragment.outline
        (comprehension (plan.redact .cypher) parent p.redact conditions' projection') =
      Fragment.outline (comprehension plan parent p conditions projection) := by
  have hkept : Fragment.outline (kept p.redact projection') =
      Fragment.outline (kept p projection) := by
    unfold kept edgeVariable
    cases h : p.ensureOrder <;> simp [h, hprojection]
  have hmatched : Fragment.outline
      (matched (plan.redact .cypher) parent p.redact conditions' projection') =
        Fragment.outline (matched plan parent p conditions projection) := by
    simp only [matched, Fragment.outline_append, outline_pathPattern, outline_whereClause, hkept,
      List.map_append, hconditions, outline_pathConditions]
  -- what is done to the matches adds names only
  rw [comprehension_eq, comprehension_eq]
  unfold withoutRepeats withoutBlanks inOrder
  cases horder : p.ensureOrder <;> cases hleaf : p.isLeaf <;> simp [horder, hleaf, hmatched]

/-- A value looks alike if the conditions and entries of the children do, at whatever node. -/
theorem outline_value_of_children {p : Property} (parent : Fragment)
    (hconditions : ∀ node,
      (conditions (plan.redact .cypher) node (p.children.map Property.redact)).map
        Fragment.outline = (conditions plan node p.children).map Fragment.outline)
    (hentries : ∀ node,
      (entries (plan.redact .cypher) node (p.children.map Property.redact)).map
        Fragment.outline = (entries plan node p.children).map Fragment.outline) :
    Fragment.outline (value (plan.redact .cypher) parent p.redact) =
      Fragment.outline (value plan parent p) := by
  have hlast : lastNode parent p.redact = lastNode parent p := by
    simp [lastNode]
  have hmissing : (p.redact.edgeSteps.any fun s => !(plan.redact .cypher).edgeExists s) =
      p.edgeSteps.any fun s => !plan.edgeExists s := by
    rw [Property.edgeSteps_redact, List.any_map]
    rfl
  rw [value_eq, value_eq, Property.isDirect_redact, directValue_redact, hmissing]
  split
  · rfl
  split
  · rw [shape_redact]
  · rw [shape_redact, outline_shape, outline_shape, Property.leafStep?_redact, hlast]
    congr 1
    cases p.leafStep? with
    | some leaf => exact outline_comprehension plan parent p rfl rfl
    | none =>
      dsimp only [Option.map_none]
      rw [Property.children_redact]
      apply outline_comprehension plan parent p (hconditions _)
      simp [hentries]

/-- The conditions of a level, from those of its first property and of the others. -/
theorem outline_conditions_cons {p : Property} {rest : List Property} (node : Fragment)
    (hvalue : Fragment.outline (value (plan.redact .cypher) node p.redact) =
      Fragment.outline (value plan node p))
    (hchildren : (conditions (plan.redact .cypher) node (p.children.map Property.redact)).map
      Fragment.outline = (conditions plan node p.children).map Fragment.outline)
    (hrest : (conditions (plan.redact .cypher) node (rest.map Property.redact)).map
      Fragment.outline = (conditions plan node rest).map Fragment.outline) :
    (conditions (plan.redact .cypher) node ((p :: rest).map Property.redact)).map
        Fragment.outline =
      (conditions plan node (p :: rest)).map Fragment.outline := by
  rw [List.map_cons, conditions_cons, conditions_cons, List.map_append, List.map_append, hrest,
    Property.isMerge_redact, Property.children_redact, Property.required_redact,
    Plan.condition?_redact, Option.isNone_map]
  split
  · rw [hchildren]
  split
  · rfl
  · rw [outline_conditionsOn plan p hvalue]

/-- The entries of a level, from those of its first property and of the others. -/
theorem outline_entries_cons {p : Property} {rest : List Property} (node : Fragment)
    (hvalue : Fragment.outline (value (plan.redact .cypher) node p.redact) =
      Fragment.outline (value plan node p))
    (hchildren : (entries (plan.redact .cypher) node (p.children.map Property.redact)).map
      Fragment.outline = (entries plan node p.children).map Fragment.outline)
    (hrest : (entries (plan.redact .cypher) node (rest.map Property.redact)).map
      Fragment.outline = (entries plan node rest).map Fragment.outline) :
    (entries (plan.redact .cypher) node ((p :: rest).map Property.redact)).map
        Fragment.outline =
      (entries plan node (p :: rest)).map Fragment.outline := by
  rw [List.map_cons, entries_cons, entries_cons, List.map_append, List.map_append, hrest,
    Property.isMerge_redact, Property.children_redact]
  split
  · rw [hchildren]
  · simp [hvalue]

mutual

/-- The value of a property looks as that of the redacted one, by induction on the properties. -/
theorem outline_value (parent : Fragment) : (p : Property) →
    Fragment.outline (value (plan.redact .cypher) parent p.redact) =
      Fragment.outline (value plan parent p)
  | ⟨_, _, children, _, _, _, _, _, _, _, _⟩ =>
    outline_value_of_children plan parent (fun node => outline_conditions node children)
      (fun node => outline_entries node children)

/-- So have the conditions on the fields of a node. -/
theorem outline_conditions (node : Fragment) : (ps : List Property) →
    (conditions (plan.redact .cypher) node (ps.map Property.redact)).map Fragment.outline =
      (conditions plan node ps).map Fragment.outline
  | [] => by simp [conditions]
  | ⟨_, _, children, _, _, _, _, _, _, _, _⟩ :: rest =>
    outline_conditions_cons plan node (outline_value node _) (outline_conditions node children)
      (outline_conditions node rest)

/-- So have the entries of a projection. -/
theorem outline_entries (node : Fragment) : (ps : List Property) →
    (entries (plan.redact .cypher) node (ps.map Property.redact)).map Fragment.outline =
      (entries plan node ps).map Fragment.outline
  | [] => by simp [entries]
  | ⟨_, _, children, _, _, _, _, _, _, _, _⟩ :: rest =>
    outline_entries_cons plan node (outline_value node _) (outline_entries node children)
      (outline_entries node rest)

end

/-! ### Statements -/

/-- Clauses look alike if their conditions do. -/
theorem outline_clause {conditions conditions' : List Fragment}
    (h : conditions'.map Fragment.outline = conditions.map Fragment.outline) :
    Script.outline (clause conditions') = Script.outline (clause conditions) := by
  have houtline (cs : List Fragment) :
      Script.outline (clause cs) = clause (cs.map Fragment.outline) := by
    unfold clause
    cases cs with
    | nil => rfl
    | cons c cs => simp [Command.outline, outline_whereClause]
  rw [houtline, houtline, h]

theorem topValue_redact (p : Property) : topValue p.redact = topValue p := by
  simp [topValue]

/-- The conditions on the root look alike. -/
theorem outline_rootConditions :
    (rootConditions (plan.redact .cypher)).map Fragment.outline =
      (rootConditions plan).map Fragment.outline := by
  unfold rootConditions
  rw [List.map_append, List.map_append, outline_guards]
  congr 1
  cases h : plan.documentFilter with
  | none => simp [Plan.redact, h]
  | some c => simp [Plan.redact, h, outline_condition rfl c]

/-- The projection of a Cypher statement has nothing of the client's values in it. -/
theorem projection_redact : projection (plan.redact .cypher) = projection plan := by
  have hlevel : Property.level (plan.redact .cypher).spec.properties =
      (Property.level plan.spec.properties).map Property.redact := Property.level_redact _
  have hpage : (plan.redact .cypher).page = plan.page := rfl
  unfold projection
  rw [hlevel, hpage]
  dsimp only
  rw [Property.filter_map_redact Property.sort_redact]
  simp [Function.comp_def, topValue_redact]

/-- A Cypher statement looks as that of the redacted plan but for its root. -/
theorem outline_rootless :
    Script.outline (rootless (plan.redact .cypher)) = Script.outline (rootless plan) := by
  have hlevel : Property.level (plan.redact .cypher).spec.properties =
      (Property.level plan.spec.properties).map Property.redact := Property.level_redact _
  have hlists : ((Property.level plan.spec.properties).map Property.redact).filter
      (fun p => !p.isDirect) =
      ((Property.level plan.spec.properties).filter fun p => !p.isDirect).map Property.redact :=
    Property.filter_map_redact (by simp) _
  have hconditions : (((Property.level plan.spec.properties).map Property.redact).flatMap fun p =>
      conditionsOn (plan.redact .cypher) p (topValue p)).map Fragment.outline =
      ((Property.level plan.spec.properties).flatMap fun p =>
        conditionsOn plan p (topValue p)).map Fragment.outline := by
    rw [List.flatMap_map, List.map_flatMap, List.map_flatMap]
    congr 1
    funext p
    exact outline_conditionsOn plan p (congrArg Fragment.outline (topValue_redact p))
  have hcount : (plan.redact .cypher).countOnly = plan.countOnly := rfl
  unfold rootless
  rw [hlevel, hlists, hcount, projection_redact]
  simp only [Script.outline_append, outline_clause hconditions]
  congr 2
  -- the lists get their names
  cases (Property.level plan.spec.properties).filter (fun p => !p.isDirect) with
  | nil => rfl
  | cons p rest => simp [Command.outline, outline_value, Function.comp_def]

/-- A statement looks as it does without the values of clients. -/
theorem outline_script :
    Script.outline (script (plan.redact .cypher)) = Script.outline (script plan) := by
  have haccess : Script.outline (accessLists (plan.redact .cypher).access) =
      Script.outline (accessLists plan.access) := by
    cases h : plan.access <;> simp [Plan.redact, h, accessLists, Command.outline]
  have hroot : Script.outline (rootSelection (plan.redact .cypher).stage
      (plan.redact .cypher).root) = Script.outline (rootSelection plan.stage plan.root) := by
    cases h : plan.root <;> simp [Plan.redact, Root.redact, h, rootSelection, Command.outline]
  rw [script_eq, script_eq]
  simp only [Script.outline_append, haccess, hroot, outline_rootless,
    outline_clause (outline_rootConditions plan)]

end

end Cypher

/-- A statement looks as that of the redacted plan, in both dialects. -/
theorem Dialect.outline_script (dialect : Dialect) (plan : Plan) :
    Script.outline (dialect.script (plan.redact dialect)) =
      Script.outline (dialect.script plan) := by
  cases dialect with
  | aql => exact Aql.outline_script plan
  | cypher => exact Cypher.outline_script plan

/-- Plans that are the same once redacted give the same text and bind the same names. -/
theorem Statement.alike_ofPlan {dialect : Dialect} {a b : Plan}
    (h : a.redact dialect = b.redact dialect) (memory memory' : Option Nat) :
    (Statement.ofPlan dialect memory a).text = (Statement.ofPlan dialect memory' b).text ∧
      (Statement.ofPlan dialect memory a).bindings.keys =
        (Statement.ofPlan dialect memory' b).bindings.keys := by
  have houtline : Script.outline (dialect.script a) = Script.outline (dialect.script b) := by
    rw [← dialect.outline_script a, h, dialect.outline_script b]
  exact ⟨Draft.text_eq_of_outline_eq houtline _, Draft.keys_eq_of_outline_eq houtline _⟩

end GraphQuery
