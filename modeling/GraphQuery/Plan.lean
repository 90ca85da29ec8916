import GraphQuery.Access
import GraphQuery.Collection
import GraphQuery.Page
import GraphQuery.Specification
import GraphQuery.Text.Blank

/-!
# GraphQuery.Plan — what a statement has to do

1. **Requests** accompany a specification: stage, page, restrictions, filter values.
2. **Conditions**: a filter whose operand has been chosen.
3. **Plans** settle all that depends on the request, for any dialect.
4. **Views** of a plan: its count twin, the condition of a property, which documents take part.
-/

namespace GraphQuery

/-! ## Requests -/

/-- What a query is asked for: the stage, the page, the root, restrictions and values for
filters. -/
structure Request where
  stage : Stage
  page : Option PageRequest
  access : Option AccessFilter
  /-- Spaces in which every document must live. -/
  spaces : Option (List String)
  /-- The only instance that may be a root. -/
  root : Option InstanceId
  filterValues : Dictionary String
  /-- Collections that exist; absent where they are not known. -/
  known : Option (List Collection)
  /-- Memory ceiling in bytes. -/
  memory : Option Nat
deriving Repr

/-- A request for a stage that asks for nothing else. -/
def Request.ofStage (stage : Stage) : Request := ⟨stage, none, none, none, none, [], none, none⟩

/-! ## Conditions -/

/-- A test of a value, with the operand and the name under which the statement binds it. -/
structure Condition where
  op : FilterOp
  operand : Option String
  bindName : String
deriving Repr, DecidableEq

namespace Condition

/-- Chooses the operand: the request's value of the parameter, else the filter's own. A blank
operand is none. -/
def resolve (f : ValueFilter) (values : Dictionary String) (name : String) : Condition :=
  let given := f.parameter.bind fun p => values.get? p
  let operand := (given.or f.operand).filter fun s => !Text.allBlank s
  let parameter := (f.parameter.map Text.safe).filter fun p => !p.isEmpty
  { op := f.op
    operand
    bindName := match parameter with
      | some p => p ++ "_" ++ name
      | none => name }

/-- A condition without operand holds of every value, unless it asks for empty values. -/
def isActive (c : Condition) : Bool := c.op = .isEmpty || c.operand.isSome

/-- A character as it stands for itself in a pattern. -/
def escapeLike : Char → List Char
  | '\\' => ['\\', '\\']
  | '%' => ['\\', '%']
  | '_' => ['\\', '_']
  | c => [c]

/-- Pattern that a text matches where the operand is at its start, at its end or within it; other
comparisons take the operand as it is. -/
def likePattern (c : Condition) : Option String :=
  c.operand.map fun operand =>
    let escaped := String.ofList (operand.toList.flatMap escapeLike)
    match c.op with
    | .startsWith => escaped ++ "%"
    | .endsWith => "%" ++ escaped
    | .contains => "%" ++ escaped ++ "%"
    | _ => operand

end Condition

/-! ## Plans -/

/-- Where the rows of a query come from. -/
inductive Root
  /-- Every instance of the type. -/
  | ofType (type : String)
  | document (id : InstanceId)
deriving Repr, DecidableEq

/-- What a statement is to do, in whatever dialect. -/
structure Plan where
  spec : Specification
  stage : Stage
  root : Root
  access : Option AccessFilter
  spaces : Option Names
  documentFilter : Option Condition
  /-- Active conditions by the index of their property. -/
  propertyFilters : List (Nat × Condition)
  /-- Relations that no collection stores. -/
  missingEdges : Names
  page : Option PageRequest
  countOnly : Bool
deriving Repr

namespace Plan

/-- The condition of a property. The request's value for a parameter goes before the operand. -/
def propertyCondition? (values : Dictionary String) (p : Property) : Option Condition := do
  let c := Condition.resolve (← p.filter) values s!"staticFilter{p.index}"
  if c.isActive then some c else none

/-- At most one root has a given id, so an id leaves neither a size nor a total. -/
def effectivePage (r : Request) : Option PageRequest :=
  if r.root.isSome then r.page.map fun p => ⟨p.offset, none, false⟩ else r.page

/-- The plan for a request. -/
def build (s : Specification) (r : Request) : Plan where
  spec := s
  stage := r.stage
  root := match r.root with
    | some id => .document id
    | none => .ofType s.rootType
  access := r.access
  spaces := (r.spaces.filter fun names => !names.isEmpty).map Names.ofList
  documentFilter :=
    (s.documentFilter.map fun f => Condition.resolve f r.filterValues "documentFilter").filter
      Condition.isActive
  propertyFilters := s.allProperties.filterMap fun p =>
    (propertyCondition? r.filterValues p).map (p.index, ·)
  missingEdges := match r.known with
    | some known =>
      Names.ofList (s.relations.filter fun relation => !known.contains (.ofRelation relation))
    | none => []
  page := effectivePage r
  countOnly := false

/-! ## Views -/

/-- The same selection, of which only the size is wanted. -/
def asCount (p : Plan) : Plan := { p with page := none, countOnly := true }

/-- The condition of a property in a plan. -/
def condition? (plan : Plan) (p : Property) : Option Condition :=
  plan.propertyFilters.lookup p.index

/-- Whether the edges of a step are known to be there. -/
def edgeExists (plan : Plan) (s : Step) : Bool := !plan.missingEdges.contains s.uri

/-- Whether a document may take part in an answer. -/
def visible (plan : Plan) (space : String) (id : Uuid) : Bool :=
  plan.access.all (·.permits space id) && plan.spaces.all (·.contains space)

end Plan

end GraphQuery
