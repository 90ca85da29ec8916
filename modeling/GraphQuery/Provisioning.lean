import GraphQuery.Collection
import GraphQuery.Error
import GraphQuery.Stage

/-!
# GraphQuery.Provisioning — databases and collections on demand

1. **Schema** of a backend: what exists, and how many of the next calls will fail.
2. **Calls** on a schema. A failing call changes nothing but the number of failures to come.
3. **Retries** of a transient failure, up to a budget.
4. **Provisioner**: remembers what it knows to exist, checks before it creates, and checks again.
-/

namespace GraphQuery

/-! ## Schema -/

/-- The databases and collections of a backend, and the failures that it still has in store. -/
structure Schema where
  databases : List String
  collections : List (String × Collection)
  pendingFailures : Nat
  /-- Databases and collections created so far. -/
  creations : Nat
deriving Repr, DecidableEq

namespace Schema

/-- The schema in which there is nothing. -/
def empty : Schema := ⟨[], [], 0, 0⟩

/-- A call's outcome and the schema after it. -/
abbrev Call (α : Type) := ExceptT Error (StateM Schema) α

/-! ## Calls -/

/-- Every call uses up a pending failure first. -/
def reach : Call Unit := do
  let s ← get
  if s.pendingFailures > 0 then
    set { s with pendingFailures := s.pendingFailures - 1 }
    throw (.ofBackend Error.connectionRefused "connection refused")

/-- Asks for a database. -/
def databaseExists (name : String) : Call Bool := do
  reach
  return (← get).databases.contains name

/-- Creates a database. -/
def createDatabase (name : String) : Call Unit := do
  reach
  let s ← get
  if !s.databases.contains name then
    set { s with databases := s.databases ++ [name], creations := s.creations + 1 }

/-- Asks for a collection. -/
def collectionExists (database : String) (c : Collection) : Call Bool := do
  reach
  return (← get).collections.contains (database, c)

/-- Creates a collection. -/
def createCollection (database : String) (c : Collection) : Call Unit := do
  reach
  let s ← get
  if !s.collections.contains (database, c) then
    set { s with collections := s.collections ++ [(database, c)], creations := s.creations + 1 }

/-- Collections of a stage's database. -/
def collectionsOf (s : Schema) (stage : Stage) : List Collection :=
  (s.collections.filter (·.1 == stage.database)).map Prod.snd

/-! ## Retries -/

/-- Runs a call again while it fails transiently and `retries` are left. `attempts` counts the runs
before. -/
def withRetries (call : Call Unit) (attempts : Nat) : Nat → Call Unit
  | 0 => fun s =>
    match call s with
    | (.error e, s) =>
      if e.isTransient then (.error (.unavailable (attempts + 1) e.message), s) else (.error e, s)
    | done => done
  | retries + 1 => fun s =>
    match call s with
    | (.error e, s) =>
      if e.isTransient then withRetries call (attempts + 1) retries s else (.error e, s)
    | done => done

/-- Creates what does not exist, unless a second look finds that it does by now. -/
def ensure (isThere : Call Bool) (create : Call Unit) : Call Unit := do
  if ← isThere then return
  if ← isThere then return
  create

end Schema

/-! ## Provisioner -/

/-- The number of retries, and what is remembered of databases and collections. -/
structure Provisioner where
  retries : Nat
  databases : List String
  collections : List (String × Collection)
deriving Repr, DecidableEq

namespace Provisioner

/-- A provisioner that has not ensured anything. -/
def fresh (retries : Nat) : Provisioner := ⟨retries, [], []⟩

/-- A call that also uses and extends what a provisioner remembers. -/
abbrev Step := ExceptT Error (StateM (Provisioner × Schema))

/-- Runs a call on the schema with the provisioner's retries. -/
def retrying (call : Schema.Call Unit) : Step Unit := fun (p, s) =>
  let (result, s) := Schema.withRetries call 0 p.retries s
  (result, (p, s))

/-- Ensures a database, unless it is remembered. -/
def ensureDatabase (name : String) : Step Unit := do
  if (← get).1.databases.contains name then return
  retrying (Schema.ensure (Schema.databaseExists name) (Schema.createDatabase name))
  modify fun (p, s) => ({ p with databases := p.databases ++ [name] }, s)

/-- Ensures a collection, unless it is remembered. -/
def ensureCollection (database : String) (c : Collection) : Step Unit := do
  if (← get).1.collections.contains (database, c) then return
  ensureDatabase database
  retrying (Schema.ensure (Schema.collectionExists database c) (Schema.createCollection database c))
  modify fun (p, s) => ({ p with collections := p.collections ++ [(database, c)] }, s)

/-- The database of a stage with some collections. -/
def ensureStage (stage : Stage) (cs : List Collection) : Step Unit := do
  ensureDatabase stage.database
  cs.forM (ensureCollection stage.database)

end Provisioner

end GraphQuery
