import GraphQuery.Evaluation
import GraphQuery.Execution
import GraphQuery.Graph.Data
import GraphQuery.Provisioning
import GraphQuery.Specification.Interpret

/-!
# GraphQuery.Graph.Store — a graph in memory

1. **Store**: the data of each stage, the scope queries, the schema, and counts of what has been
   executed and is still open.
2. **Changes**: documents, links, scope queries.
3. **Statements** are answered by evaluating their plan, so both dialects give the same rows. Only
   AQL reports a full count.
4. **Cursors** are counted from when a statement gave them until they are closed.
5. **Catalog**: what the store knows about its instances.
-/

namespace GraphQuery

open Json

/-- A query that reports what an instance of a type depends on, stored in a space. -/
structure ScopeQuery where
  type : String
  space : String
  query : Query
deriving Repr

/-- All stages, what is said about scopes, the schema, and counts of what has happened. -/
structure Store where
  data : Stage → StageData
  scopeQueries : List ScopeQuery
  excludable : Names
  /-- Spaces whose scope queries count; absent where those of all queries do. -/
  relevant : Option Names
  schema : Schema
  executions : Nat
  /-- Number of cursors that were opened, less the number of closings. -/
  cursorBalance : Int

namespace Store

/-- The store in which there is nothing. -/
def empty : Store := ⟨fun _ => .empty, [], [], none, .empty, 0, 0⟩

/-! ## Changes -/

def setData (st : Store) (stage : Stage) (d : StageData) : Store :=
  { st with data := fun s => if s = stage then d else st.data s }

/-- Stores a document in a stage. -/
def insert (st : Store) (stage : Stage) (doc : Document) : Store :=
  st.setData stage ((st.data stage).insert doc)

/-- Adds an edge in a stage. -/
def link (st : Store) (stage : Stage) (source : Uuid) (relation : String) (target : Uuid) : Store :=
  st.setData stage ((st.data stage).link source relation target)

/-- Adds a scope query, which must be complete. -/
def addScopeQuery (st : Store) (type space : String) (payload : Value) : Except Error Store := do
  let query ← (Query.ofValue payload).mapError fun f => (InterpretFault.query f).toError
  return { st with scopeQueries := st.scopeQueries ++ [⟨type, space, query⟩] }

/-- Makes a type excludable. -/
def exclude (st : Store) (type : String) : Store :=
  { st with excludable := st.excludable.insert type }

/-! ## Statements -/

/-- The rows of a page with a size; all rows otherwise. -/
def pageRows (page : Option PageRequest) (rows : List Row) : List Row :=
  match page with
  | some ⟨offset, some size, _⟩ => (rows.drop offset).take size
  | _ => rows

/-- Answers a statement on the data of a stage. -/
def backend (st : Store) (stage : Stage) : Backend := fun s => do
  let matched ← evaluate (st.data stage) s.plan s.memory
  let rows :=
    if s.isCount then [Dictionary.ofEntries [("count", Value.nat matched.length)]]
    else pageRows s.plan.page matched
  return { rows := rows.map .ok
           count := some rows.length
           fullCount :=
             if s.options.fullCount && s.dialect = .aql then some matched.length else none }

/-! ## Cursors -/

/-- How many cursors are open. -/
def openCursors (st : Store) : Nat := st.cursorBalance.toNat

/-- Closes a cursor, which may be closed already. -/
def closeCursor (st : Store) (isOpen : Bool) : Store × Bool :=
  (if isOpen then { st with cursorBalance := st.cursorBalance - 1 } else st, false)

/-- The store after a cursor is given up: its holder closes it, and once more it closes itself. -/
def close (st : Store) : Store :=
  let (closed, isOpen) := st.closeCursor true
  (closed.closeCursor isOpen).1

/-- Counts what happened to a statement. -/
def record (st : Store) : Event → Store
  | .executed _ opened =>
    { st with
      executions := st.executions + 1
      cursorBalance := if opened then st.cursorBalance + 1 else st.cursorBalance }
  | .closed _ => st.close

/-- Counts all of what happened. -/
def recordAll (st : Store) (events : List Event) : Store := events.foldl record st

/-- The store after a run. A stream that the run gave is still open. -/
def after {α : Type} (st : Store) (r : Run α) : Store := st.recordAll r.events

/-! ## Catalog -/

/-- Collections of the data and of the schema. -/
def collections (st : Store) (stage : Stage) : List Collection :=
  Collection.setOf ((st.data stage).collections ++ st.schema.collectionsOf stage)

/-- The scope queries for a type. -/
def scopeQueriesOf (st : Store) (type : String) : List ScopeQuery :=
  st.scopeQueries.filter (·.type == type)

/-- The spaces whose scope queries count. -/
def relevantSpaces (st : Store) : Names :=
  st.relevant.getD (Names.ofList (st.scopeQueries.map ScopeQuery.space))

/-- Whether instances of a type may be left out of scopes. -/
def isExcludable (st : Store) (type : String) : Bool := st.excludable.contains type

/-- Labels of those instances that have one. -/
def labels (st : Store) (stage : Stage) (ids : List Uuid) : List (Uuid × String) :=
  (Uuid.setOf ids).filterMap fun id => do
    let doc ← (st.data stage).get? id
    return (id, ← doc.label)

end Store

end GraphQuery
