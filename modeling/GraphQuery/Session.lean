import GraphQuery.Provisioning
import GraphQuery.Scope
import GraphQuery.Service

/-!
# GraphQuery.Session — a store in use

1. **Sessions** hold a store, a provisioner for its schema, and the streams that are still open.
2. **Streams** are opened, read row by row, and dropped. A query answered as a page opens a stream,
   drains it and drops it.
3. **Scopes** run statements, but leave no stream behind.
4. **Schema** calls go to the store's schema, directly or through the provisioner.
-/

namespace GraphQuery

open Json

/-- A store with all that has happened to it. -/
structure Session where
  store : Store
  provisioner : Provisioner
  streams : List Stream

namespace Session

/-- The session in which nothing has happened yet. -/
def ofStore (st : Store) : Session := ⟨st, .fresh 0, []⟩

/-! ## Streams -/

/-- Answers a submission with a stream, which is held after those that are open already. -/
def openStream (s : Session) (settings : Settings) (reader : Option User) (sub : Submission) :
    Except Error Stream × Session :=
  let run := s.store.answer settings reader sub
  let store := s.store.after run
  match run.result with
  | .ok stream => (.ok stream, { s with store, streams := s.streams ++ [stream] })
  | .error e => (.error e, { s with store })

/-- Next row of a stream, none at its end. -/
def next (s : Session) (i : Nat) : Option (Except Error Row) × Session :=
  match s.streams[i]? with
  | some stream =>
    (stream.rows.head?, { s with streams := s.streams.set i { stream with rows := stream.rows.tail } })
  | none => (none, s)

/-- Gives up a stream, which closes its cursor. -/
def drop (s : Session) (i : Nat) : Session :=
  if i < s.streams.length then { s with store := s.store.close, streams := s.streams.eraseIdx i }
  else s

/-- Answers a query, and records what happened to its statements. -/
def query (s : Session) (settings : Settings) (reader : Option User) (sub : Submission) :
    Except Error Page × Session :=
  let (result, after) := s.openStream settings reader sub
  match result with
  | .ok stream => (stream.drain, after.drop s.streams.length)
  | .error e => (.error e, after)

/-! ## Scopes -/

/-- Computes a scope, and records what happened to its statements. -/
def scope (s : Session) (settings : Settings) (stage : Stage) (id : InstanceId)
    (options : ScopeOptions) : Except Error (Option Element) × Session :=
  let (result, events) := s.store.scope settings stage id options
  (result, { s with store := s.store.recordAll events })

/-! ## Schema -/

/-- Makes a call to the schema backend. -/
def call {α : Type} (s : Session) (c : Schema.Call α) : Except Error α × Session :=
  let (result, schema) := c.run s.store.schema
  (result, { s with store := { s.store with schema } })

/-- Takes a step of provisioning. -/
def provision (s : Session) (step : Provisioner.Step Unit) : Except Error Unit × Session :=
  let (result, provisioner, schema) := step.run (s.provisioner, s.store.schema)
  (result, { s with provisioner, store := { s.store with schema } })

/-- Lets the next calls on the schema fail. -/
def failNext (s : Session) (n : Nat) : Session :=
  { s with store := { s.store with schema := { s.store.schema with pendingFailures := n } } }

end Session

end GraphQuery
