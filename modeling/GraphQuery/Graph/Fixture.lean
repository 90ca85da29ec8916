import GraphQuery.Graph.Store

/-!
# GraphQuery.Graph.Fixture — graphs written as JSON

1. **Documents and edges**
2. **Stages**: an object from stage names to their data. Of a stage that is named twice, the last
   data count.
3. **Fixtures**: stages, scope queries, and what matters for scopes.

Text that is no fixture is a JSON error. A scope query of a fixture that is not complete is an
error of its own.
-/

namespace GraphQuery

open Json

/-- Reads a list whose items all have a form. -/
def list? {α : Type} (item? : Value → Option α) : Value → Option (List α)
  | .array items => items.mapM item?
  | _ => none

/-- A field with a value that stands for an absent one. -/
def fieldOr {α : Type} (absent : α) (read? : Value → Option α) : Option Value → Option α
  | none => some absent
  | some v => read? v

/-! ## Documents and edges -/

/-- Reads a uuid. -/
def uuid? (v : Value) : Option Uuid := v.asString?.bind Uuid.ofText?

/-- An integer of 64 bits with sign. -/
def signed? : Value → Option Int
  | .number (.int i) => if -Int.pow 2 63 ≤ i && i < Int.pow 2 63 then some i else none
  | _ => none

/-- Reads a row, whose keys are brought into order. -/
def row? : Value → Option Row
  | .object entries =>
    match Value.sorted (.object entries) with
    | .object row => some row
    | _ => none
  | _ => none

/-- The fields of a document. -/
inductive DocumentField
  | id
  | space
  | types
  | label
  | properties
deriving Repr, DecidableEq

/-- How documents are read. -/
def documentForm : RecordForm DocumentField where
  name := "StoredDocument"
  fields := [.id, .space, .types, .label, .properties]
  keys
    | .id => ["id"]
    | .space => ["space"]
    | .types => ["types"]
    | .label => ["label"]
    | .properties => ["properties"]

/-- Reads a document. -/
def Document.ofValue? (v : Value) : Option Document := do
  let field ← documentForm.fields? v
  return { id := ← uuid? (← field .id)
           space := ← (← field .space).asString?
           types := ← fieldOr [] (list? Value.asString?) (field .types)
           label := ← field? Value.asString? (field .label)
           properties := ← fieldOr [] row? (field .properties) }

/-- The fields of an edge. -/
inductive EdgeField
  | source
  | target
  | relation
  | order
deriving Repr, DecidableEq

/-- How edges are read. -/
def edgeForm : RecordForm EdgeField where
  name := "StoredEdge"
  fields := [.source, .target, .relation, .order]
  keys
    | .source => ["from"]
    | .target => ["to"]
    | .relation => ["relation"]
    | .order => ["order"]

/-- Reads an edge. -/
def Edge.ofValue? (v : Value) : Option Edge := do
  let field ← edgeForm.fields? v
  return { source := ← uuid? (← field .source)
           target := ← uuid? (← field .target)
           relation := ← (← field .relation).asString?
           order := ← fieldOr 0 signed? (field .order) }

/-! ## Stages -/

/-- The fields of the data of a stage. -/
inductive StageField
  | documents
  | edges
deriving Repr, DecidableEq

/-- How the data of a stage are read. -/
def stageForm : RecordForm StageField where
  name := "StageData"
  fields := [.documents, .edges]
  keys
    | .documents => ["documents"]
    | .edges => ["edges"]

/-- Reads the data of a stage. -/
def StageData.ofValue? (v : Value) : Option StageData := do
  let field ← stageForm.fields? v
  return { documents := ← fieldOr [] (list? Document.ofValue?) (field .documents)
           edges := ← fieldOr [] (list? Edge.ofValue?) (field .edges) }

/-- Reads stages by their names. -/
def stages? : Value → Option (List (Stage × StageData))
  | .object entries => entries.mapM fun (key, v) => do
    return (← Stage.ofName? key, ← StageData.ofValue? v)
  | _ => none

/-! ## Fixtures -/

/-- A scope query as a fixture holds it, before its query is read. -/
structure ScopeQueryPayload where
  type : String
  space : String
  payload : Value

/-- The fields of a scope query. -/
inductive ScopeQueryField
  | type
  | space
  | query
deriving Repr, DecidableEq

/-- How scope queries are read. -/
def scopeQueryForm : RecordForm ScopeQueryField where
  name := "ScopeQueryFixture"
  fields := [.type, .space, .query]
  keys
    | .type => ["type"]
    | .space => ["space"]
    | .query => ["query"]

/-- Reads a scope query, but not yet the payload in it. -/
def ScopeQueryPayload.ofValue? (v : Value) : Option ScopeQueryPayload := do
  let field ← scopeQueryForm.fields? v
  return { type := ← (← field .type).asString?
           space := ← (← field .space).asString?
           payload := (← field .query).sorted }

/-- All that a fixture file describes. -/
structure Fixture where
  stages : List (Stage × StageData)
  scopeQueries : List ScopeQueryPayload
  excluded : List String
  relevant : Option (List String)

/-- The fields of a fixture. -/
inductive FixtureField
  | stages
  | scopeQueries
  | excluded
  | relevant
deriving Repr, DecidableEq

/-- How fixtures are read. -/
def fixtureForm : RecordForm FixtureField where
  name := "GraphFixture"
  fields := [.stages, .scopeQueries, .excluded, .relevant]
  keys
    | .stages => ["stages"]
    | .scopeQueries => ["scopeQueries"]
    | .excluded => ["excludedFromScope"]
    | .relevant => ["scopeRelevantSpaces"]

namespace Fixture

/-- Reads a fixture. -/
def ofValue? (v : Value) : Option Fixture := do
  let field ← fixtureForm.fields? v
  return { stages := ← fieldOr [] stages? (field .stages)
           scopeQueries := ← fieldOr [] (list? ScopeQueryPayload.ofValue?) (field .scopeQueries)
           excluded := ← fieldOr [] (list? Value.asString?) (field .excluded)
           relevant := ← field? (list? Value.asString?) (field .relevant) }

/-- The store that a fixture describes; a scope query that is no query is an error. -/
def store (f : Fixture) : Except Error Store := do
  let st := f.stages.foldl (fun st (stage, d) => st.setData stage d) Store.empty
  let st ← f.scopeQueries.foldlM (fun st q => st.addScopeQuery q.type q.space q.payload) st
  let st := f.excluded.foldl Store.exclude st
  return { st with relevant := f.relevant.map Names.ofList }

end Fixture

/-- A store from fixture text. -/
def Store.ofText (text : String) : Except Error Store :=
  match (Value.ofText? text).bind Fixture.ofValue? with
  | some f => f.store
  | none => .error .json

end GraphQuery
