import GraphQuery.Dictionary
import GraphQuery.Json.Value
import GraphQuery.Stage
import GraphQuery.Toml.Reader

/-!
# GraphQuery.Settings — settings of the engine

1. **Settings** with their defaults.
2. **Reading** a TOML document. What the document leaves out has its default, and keys that name
   no setting are passed over. A section may also be written as an array of its fields.
3. **Writing** as JSON: all fields in their declared order.
-/

namespace GraphQuery

open Json

/-! ## Settings -/

/-- Retries of schema calls. -/
structure RetrySettings where
  retries : Nat
  /-- Delay before the first retry; it doubles with every further one. -/
  baseDelayMs : Nat
deriving Repr, DecidableEq

/-- How scopes are computed. -/
structure ScopeSettings where
  /-- Whether the scope queries of one instance may run at the same time. -/
  parallel : Bool
  /-- Spaces whose scope queries count; absent where the store decides. -/
  relevantSpaces : Option Names
deriving Repr, DecidableEq

/-- The settings of the program. -/
structure Settings where
  dialect : Dialect
  /-- Memory ceiling of a statement in bytes. -/
  memory : Option Nat
  retry : RetrySettings
  scope : ScopeSettings
deriving Repr, DecidableEq

namespace Settings

/-- The settings where a file says nothing. -/
def default : Settings where
  dialect := .aql
  memory := none
  retry := ⟨5, 2000⟩
  scope := ⟨true, none⟩

/-! ## Reading -/

/-- Reads a section: each field by its name or by its place. -/
def section? (fields : List String) (v : Value) : Option (String → Option Value) :=
  match v with
  | .object entries => some fun name => entries.lookup name
  | .array items => some fun name => (fields.zip items).lookup name
  | _ => none

/-- Reads a field that may be absent. -/
def field? {α : Type} (fields : String → Option Value) (name : String) (default : α)
    (read : Value → Option α) : Option α :=
  match fields name with
  | none => some default
  | some v => read v

/-- An integer from zero up to, but without, a bound. -/
def natBelow? (bound : Nat) : Value → Option Nat
  | .number (.int n) => if 0 ≤ n ∧ n < bound then some n.toNat else none
  | _ => none

def bool? : Value → Option Bool
  | .bool b => some b
  | _ => none

def names? : Value → Option Names
  | .array items => (items.mapM Value.asString?).map Names.ofList
  | _ => none

/-- The name of a dialect, also as the only key of a section that is otherwise empty. -/
def dialect? (v : Value) : Option Dialect :=
  match v with
  | .string s => Dialect.ofName? s
  | .object [(s, .object [])] | .object [(s, .array [])] => Dialect.ofName? s
  | _ => none

/-- Reads the settings for retries; absent ones have their defaults. -/
def retry? (v : Value) : Option RetrySettings := do
  let fields ← section? ["retries", "base_delay_ms"] v
  let retries ← field? fields "retries" default.retry.retries (natBelow? (Nat.pow 2 32))
  let delay ← field? fields "base_delay_ms" default.retry.baseDelayMs (natBelow? (Nat.pow 2 64))
  return ⟨retries, delay⟩

/-- Reads the settings for scopes; absent ones have their defaults. -/
def scope? (v : Value) : Option ScopeSettings := do
  let fields ← section? ["parallel", "relevant_spaces"] v
  let parallel ← field? fields "parallel" default.scope.parallel bool?
  let spaces ← field? fields "relevant_spaces" none fun v => (names? v).map some
  return ⟨parallel, spaces⟩

/-- Reads settings from a text in TOML. -/
def ofToml? (text : String) : Option Settings := do
  let .object entries ← Toml.document? text | none
  let fields (name : String) : Option Value := entries.lookup name
  let dialect ← field? fields "dialect" default.dialect dialect?
  let memory ← field? fields "max_memory_bytes" none fun v => (natBelow? (Nat.pow 2 64) v).map some
  let retry ← field? fields "bootstrap" default.retry retry?
  let scope ← field? fields "scope" default.scope scope?
  return ⟨dialect, memory, retry, scope⟩

/-! ## Writing -/

/-- Settings as a value. -/
def toValue (s : Settings) : Value :=
  .object
    [("dialect", .string s.dialect.name),
     ("max_memory_bytes", .ofOption .nat s.memory),
     ("bootstrap", .object
       [("retries", .nat s.retry.retries), ("base_delay_ms", .nat s.retry.baseDelayMs)]),
     ("scope", .object
       [("parallel", .bool s.scope.parallel),
        ("relevant_spaces", .ofOption .strings s.scope.relevantSpaces)])]

end Settings

end GraphQuery
