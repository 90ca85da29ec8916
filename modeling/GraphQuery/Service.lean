import GraphQuery.Access
import GraphQuery.Graph.Store
import GraphQuery.Settings
import GraphQuery.Vocabulary

/-!
# GraphQuery.Service — queries of users

1. **Preparing** a query compiles it against the collections that the store has at that time.
2. **Submissions**: a payload with its restrictions and filter values.
3. **Access** is settled before anything is executed. A user who asks for spaces and may read
   nothing of them is refused.
4. **Answers** carry the response vocabulary of the query.
-/

namespace GraphQuery

open Json

/-! ## Preparing -/

namespace Store

/-- A request's own ceiling goes before the one that is set. -/
def prepare (st : Store) (settings : Settings) (q : Query) (r : Request) :
    Except Error Compiled := do
  let spec ← q.interpret.mapError InterpretFault.toError
  let r := { r with known := some (st.collections r.stage), memory := r.memory.or settings.memory }
  return spec.compile settings.dialect r

def runQuery (st : Store) (settings : Settings) (q : Query) (r : Request) : Run Stream :=
  match st.prepare settings q r with
  | .ok compiled => compiled.run (st.backend r.stage)
  | .error e => ⟨.error e, []⟩

end Store

/-! ## Submissions -/

/-- A query as it is submitted, with all that it asks for besides. -/
structure Submission where
  payload : Value
  stage : Stage
  root : Option InstanceId
  /-- Spaces that the answer may come from; all where none are named. -/
  spaces : List String
  filterValues : Dictionary String
  page : Option PageRequest

/-! ## Access -/

namespace Submission

/-- The filter that a submission runs under. A reader that is absent reads without a filter. -/
def access (s : Submission) (reader : Option User) (all : Names) :
    Except Error (Option AccessFilter) :=
  match reader with
  | none => .ok none
  | some user =>
    let filter := AccessFilter.resolve user s.stage all s.spaces
    if !s.spaces.isEmpty && filter.any AccessFilter.isEmpty then
      .error (.forbidden s!"user {user.id} cannot read any of the requested spaces")
    else .ok filter

/-- The request for a submission, under the filter of its reader. -/
def request (s : Submission) (access : Option AccessFilter) : Request :=
  { Request.ofStage s.stage with
    page := s.page
    access
    spaces := if s.spaces.isEmpty then none else some s.spaces
    root := s.root
    filterValues := s.filterValues }

end Submission

/-! ## Answers -/

namespace Query

/-- The vocabulary that answers carry. -/
def vocabulary? (q : Query) : Option String :=
  (q.header.bind Header.vocabulary).filter fun v => !v.isEmpty

end Query

namespace Store

/-- Answers a submission under the filter of its reader, with the keys of rows in the query's
vocabulary. -/
def answer (st : Store) (settings : Settings) (reader : Option User) (s : Submission) : Run Stream :=
  let admitted : Except Error (Query × Option AccessFilter) := do
    let q ← (Query.ofValue s.payload).mapError fun f => (InterpretFault.query f).toError
    return (q, ← s.access reader (st.data s.stage).spaces)
  match admitted with
  | .error e => ⟨.error e, []⟩
  | .ok (q, access) =>
    let run := st.runQuery settings q (s.request access)
    match q.vocabulary? with
    | some v => { run with result := run.result.map (Stream.mapRows (Vocabulary.extendRow v)) }
    | none => run

end Store

end GraphQuery
