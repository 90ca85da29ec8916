import GraphQuery.Compile
import GraphQuery.Graph.Data
import GraphQuery.Json.Printer
import GraphQuery.Pattern.Parser
import GraphQuery.Text.Cut

/-!
# GraphQuery.Evaluation — running a plan on stored data

1. **Memory**: every list and row that is built is charged for, with the bytes of its compact text.
   Charges are added up, or held against a ceiling one by one.
2. **Conditions** on values. A list fulfils a condition if one of its items does.
3. **Patterns** of a plan are read before its data are looked at, and kept by the names of their
   conditions.
4. **Traversal**: documents that a path leads to, hop by hop.
5. **Grouping** of objects by the values of their group keys.
6. **Objects** are built field by field; a missing required value or a refused condition ends it.
7. **Rows** of all roots, sorted.
8. **Weighed** rows, with the bytes that they take, and the **evaluation** of a plan, which stops at
   the memory ceiling.
-/

namespace GraphQuery

open Json

/-! ## Memory -/

/-- Ways to compute in which the lists and rows that are built are charged for. -/
class Charges (m : Type → Type) where
  charge : Value → m Unit

/-- A value and the bytes that were needed for it. -/
structure Weighed (α : Type) where
  value : α
  bytes : Nat
deriving Repr

namespace Weighed

instance : Monad Weighed where
  pure a := ⟨a, 0⟩
  bind x f :=
    let y := f x.value
    ⟨y.value, x.bytes + y.bytes⟩

/-- Bytes of the compact text of a value. -/
def charge (v : Value) : Weighed Unit := ⟨(), v.compact.utf8ByteSize⟩

instance : Charges Weighed := ⟨charge⟩

end Weighed

/-- A computation that passes on the bytes used so far. With the first charge that brings them above
the ceiling, it fails. Without a ceiling, nothing is charged. -/
def Metered (_ceiling : Option Nat) : Type → Type := StateT Nat (Except Error)

namespace Metered

variable {ceiling : Option Nat}

instance : Monad (Metered ceiling) := inferInstanceAs (Monad (StateT Nat (Except Error)))

/-- What a computation fails with whose charges exceed the ceiling. -/
def excess (limit : Nat) : Error := .limitExceeded s!"statement needs more than {limit} bytes"

def charge (v : Value) : Metered ceiling Unit := fun used =>
  match ceiling with
  | none => .ok ((), used)
  | some limit =>
    let used := used + v.compact.utf8ByteSize
    if used > limit then .error (excess limit) else .ok ((), used)

instance : Charges (Metered ceiling) := ⟨charge⟩

/-- Result of a computation before which nothing was used. -/
def start {α : Type} (x : Metered ceiling α) : Except Error α :=
  (x.run 0).map Prod.fst

end Metered

/-! ## Conditions -/

namespace Json.Value

/-- Null, the empty string and the empty list. -/
def isEmptyValue : Value → Bool
  | null => true
  | string s => s.isEmpty
  | array items => items.isEmpty
  | _ => false

/-- Null and the empty list. -/
def isBlankField : Value → Bool
  | null => true
  | array items => items.isEmpty
  | _ => false

/-- A string as it is, other values as compact text. -/
def display : Value → String
  | string s => s
  | v => v.compact

end Json.Value

namespace Condition

/-- Whether one value that is no list fulfils a condition. A regular expression is looked up by the
condition's name. -/
def acceptsScalar (patterns : Dictionary Pattern) (c : Condition) (operand : String) (v : Value) :
    Bool :=
  if v.isNull then false
  else match c.op with
    | .isEmpty => false
    | .equals => v.asString? == some operand
    | .startsWith => Text.startsWith v.display operand
    | .endsWith => Text.endsWith v.display operand
    | .contains => Text.contains v.display operand
    | .regex => (patterns.get? c.bindName).any (·.matchesText v.display)

/-- Whether a value fulfils a condition. A list does if one of its items does. -/
def accepts (patterns : Dictionary Pattern) (c : Condition) (v : Value) : Bool :=
  if c.op = .isEmpty then v.isEmptyValue
  else match c.operand with
    | none => true
    | some operand =>
      match v with
      | .array items => items.any (c.acceptsScalar patterns operand)
      | v => c.acceptsScalar patterns operand v

/-- The regular expression that a condition holds. -/
def patternText? (c : Condition) : Option String :=
  if c.op = .regex then c.operand else none

end Condition

/-! ## Patterns -/

namespace Plan

/-- Conditions of a plan: those of its properties, then the one on the document. -/
def conditions (plan : Plan) : List Condition :=
  plan.propertyFilters.map Prod.snd ++ plan.documentFilter.toList

/-- Adds the pattern of a condition to those read so far. -/
def addPattern (patterns : Dictionary Pattern) (c : Condition) : Except Error (Dictionary Pattern) :=
  match c.patternText? with
  | none => .ok patterns
  | some text =>
    match Pattern.parse? text with
    | some p => .ok (patterns.insert c.bindName p)
    | none => .error (.invalidQuery s!"invalid regular expression '{text}': regex parse error")

/-- The patterns of all conditions; the first one that cannot be read is an error. -/
def patterns (plan : Plan) : Except Error (Dictionary Pattern) :=
  plan.conditions.foldlM addPattern []

end Plan

/-! ## Traversal -/

/-- Documents at the other end of a document's edges. -/
def neighbors (data : StageData) (plan : Plan) (step : Step) (ordered : Bool) (doc : Document) :
    List Document :=
  if !plan.edgeExists step then []
  else
    let edges := data.edges.filter fun e =>
      e.relation == step.uri && (if step.reverse then e.target else e.source) = doc.id
    let edges := if ordered then edges.mergeSort fun a b => decide (a.order ≤ b.order) else edges
    let targets := edges.filterMap fun e => data.get? (if step.reverse then e.source else e.target)
    targets.filter fun d =>
      plan.visible d.space d.id && (step.types.isEmpty || d.types.any step.types.contains)

/-- First occurrences, where `same` tells repetitions. -/
def firstOccurrences {α : Type} (same : α → α → Bool) (xs : List α) : List α :=
  xs.foldl (fun seen x => if seen.any (same · x) then seen else seen ++ [x]) []

/-- Documents that the steps lead to. Without order, each is visited once per hop. -/
def follow (data : StageData) (plan : Plan) (ordered : Bool) (steps : List Step)
    (start : List Document) : List Document :=
  steps.foldl
    (fun docs step =>
      let next := docs.flatMap (neighbors data plan step ordered)
      if ordered then next else firstOccurrences (fun a b => a.id = b.id) next)
    start

/-- What an attribute adds to a list of values: nothing for null, the items of a list. -/
def contribution : Value → List Value
  | .null => []
  | .array items => items
  | v => [v]

/-! ## Grouping -/

/-- A group: the values of its keys, and its members without them. -/
structure Group where
  key : Row
  members : List Row

namespace Group

/-- Moves the group keys of an object into a row of their own. A key that is absent, or has been
moved already, is null. -/
def split (keys : List String) (object : Row) : Row × Row :=
  keys.foldl (fun (key, rest) k => (key.insert k (rest.value k), rest.erase k)) ([], object)

/-- Adds an object to the group with its keys, or to a new group after the others. -/
def collect (keys : List String) (groups : List Group) (object : Row) : List Group :=
  let (key, rest) := split keys object
  let same (g : Group) : Bool := Value.object g.key == Value.object key
  if groups.any same then
    groups.map fun g => if same g then { g with members := g.members ++ [rest] } else g
  else groups ++ [⟨key, [rest]⟩]

/-- Groups as objects, both groups and members sorted. -/
def objects (p : Property) (groups : List Group) : List Value :=
  let groupOrder := p.groupSortKeys.map Property.key
  let memberOrder := p.memberSortKeys.map Property.key
  (sortBy (fun a b : Group => compareFields groupOrder a.key b.key) groups).map fun g =>
    let members := sortBy (compareFields memberOrder) g.members
    .object (g.key.insert (p.groupedInstances.getD "") (.array (members.map .object)))

end Group

/-- The row, of a value that is one. -/
def asObject? : Value → Option Row
  | .object row => some row
  | _ => none

/-- Groups those of the values that are objects. -/
def group (p : Property) (values : List Value) : List Value :=
  let keys := (p.children.filter Property.groupBy).map Property.key
  Group.objects p ((values.filterMap asObject?).foldl (Group.collect keys) [])

/-! ## Objects -/

/-- Removes repetitions unless the property keeps its order, and sorts if it asks for that. -/
def settle (p : Property) (values : List Value) : List Value :=
  let values := if p.ensureOrder then values else firstOccurrences (· == ·) values
  if p.sort then sortBy Value.compare values else values

/-- The list of a property as it is shown. -/
def arrange (p : Property) (values : List Value) : List Value :=
  let values := settle p values
  if p.hasGrouping then group p values else values

/-- The one value that a property makes of its list, or the list. -/
def collapse (p : Property) (values : List Value) : Value :=
  match p.collapse with
  | some .first => values.headD .null
  | some .concat => .string (", ".intercalate ((values.filter (!·.isNull)).map Value.display))
  | none => .array values

/-- What an evaluation looks at. -/
structure Evaluator where
  data : StageData
  plan : Plan
  patterns : Dictionary Pattern

namespace Evaluator

/-- Whether a value may stand in its object. -/
def admits (e : Evaluator) (p : Property) (v : Value) : Bool :=
  !(p.required && v.isEmptyValue) && (e.plan.condition? p).all (·.accepts e.patterns v)

section

variable {m : Type → Type} [Monad m] [Charges m]

mutual

/-- Value of a property at a document. -/
def buildValue (e : Evaluator) (doc : Document) : Property → m Value
  | p@⟨_, _, children, _, _, _, _, _, _, _, _⟩ =>
    if p.isDirect then
      pure ((p.leafStep?.map fun step => doc.valueOf step.uri).getD .null)
    else do
      let targets := follow e.data e.plan p.ensureOrder p.edgeSteps [doc]
      let values ← match p.leafStep? with
        | some leaf => pure (targets.flatMap fun d => contribution (d.valueOf leaf.uri))
        | none => do
          let objects ← targets.mapM fun d => buildFields e d [] children
          pure (objects.filterMap fun object =>
            object.bind fun row =>
              if row.all (·.2.isBlankField) then none else some (.object row))
      let values := arrange p values
      Charges.charge (.array values)
      return collapse p values

/-- Adds the fields of a level to an object; none where a field is refused. -/
def buildFields (e : Evaluator) (doc : Document) (row : Row) : List Property → m (Option Row)
  | [] => pure (some row)
  | p@⟨_, path, children, _, _, _, _, _, _, _, _⟩ :: rest =>
    if path.isEmpty && !children.isEmpty then do
      match ← buildFields e doc row children with
      | some row => buildFields e doc row rest
      | none => return none
    else do
      let v ← buildValue e doc p
      if e.admits p v then buildFields e doc (row.insert p.key v) rest
      else return none

end

end

/-! ## Rows -/

/-- Documents that may be roots, before any of them is looked at. -/
def candidates (data : StageData) : Root → List Document
  | .document id => (data.get? id.uuid).toList.filter fun d => d.space == id.space
  | .ofType type => data.documents.filter (·.hasType type)

/-- Whether a visible document has an id that fulfils the document filter. -/
def admitsRoot (e : Evaluator) (doc : Document) : Bool :=
  e.plan.visible doc.space doc.id &&
    e.plan.documentFilter.all (·.accepts e.patterns (doc.valueOf "@id"))

/-- The keys by which the rows are sorted. -/
def sortKeys (plan : Plan) : List String :=
  ((Property.level plan.spec.properties).filter Property.sort).map Property.key

section

variable {m : Type → Type} [Monad m] [Charges m]

/-- Rows of all roots in the order of the documents. -/
def buildUnsorted (e : Evaluator) : m (List Row) := do
  let roots := (candidates e.data e.plan.root).filter e.admitsRoot
  let rows ← roots.mapM fun doc => do
    match ← buildFields e doc [] e.plan.spec.properties with
    | some row =>
      Charges.charge (.object row)
      return some row
    | none => return none
  return rows.filterMap id

def buildRows (e : Evaluator) : m (List Row) := do
  return sortBy (compareFields (sortKeys e.plan)) (← buildUnsorted e)

end

/-! ## Weighed rows -/

/-- The value of a property at a document. -/
def propertyValue (e : Evaluator) (doc : Document) (p : Property) : Weighed Value :=
  buildValue e doc p

/-- Puts the values of properties into a row; none if a required value is missing or a condition
fails. -/
def objectFields (e : Evaluator) (doc : Document) (row : Row) (ps : List Property) :
    Weighed (Option Row) :=
  buildFields e doc row ps

/-- The rows in the order in which their documents were found. -/
def unsortedRows (e : Evaluator) : Weighed (List Row) := buildUnsorted e

/-- The rows as the query sorts them. -/
def rows (e : Evaluator) : Weighed (List Row) := buildRows e

end Evaluator

/-- All rows of a plan, without regard to its page. -/
def evaluate (data : StageData) (plan : Plan) (memory : Option Nat) : Except Error (List Row) := do
  let rows : Metered memory (List Row) := (Evaluator.mk data plan (← plan.patterns)).buildRows
  rows.start

end GraphQuery
