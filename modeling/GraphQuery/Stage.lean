import GraphQuery.Error

/-!
# GraphQuery.Stage — stages and dialects

1. **Stages** of an instance's life: drafts, released data, raw contributions.
2. **Dialects** a query is compiled to.
-/

namespace GraphQuery

/-! ## Stages -/

/-- The stages of an instance's life. -/
inductive Stage
  | inProgress
  | released
  | native
deriving Repr, DecidableEq

namespace Stage

def all : List Stage := [inProgress, released, native]

/-- The name of a stage. -/
def name : Stage → String
  | inProgress => "IN_PROGRESS"
  | released => "RELEASED"
  | native => "NATIVE"

/-- Label that marks the nodes of the stage in a property graph. -/
def label (s : Stage) : String := "Stage_" ++ s.name

/-- Database that holds the documents of the stage. -/
def database : Stage → String
  | inProgress => "in_progress"
  | released => "released"
  | native => "native"

/-- The stage with a name. -/
def ofName? (s : String) : Option Stage := all.find? (·.name == s)

/-- Upper-case letters and underscores, as stage names are written. -/
def foldName (s : String) : String := s.toUpper.map fun c => if c == '-' then '_' else c

/-- Reads a stage name in any case, with dashes or underscores. -/
def read (s : String) : Except Error Stage :=
  let name := foldName s
  match ofName? name with
  | some stage => .ok stage
  | none => .error (.validation s!"unknown stage '{name}'")

end Stage

/-! ## Dialects -/

/-- The languages of backends. -/
inductive Dialect
  | aql
  | cypher
deriving Repr, DecidableEq

namespace Dialect

/-- The name of a dialect. -/
def name : Dialect → String
  | aql => "aql"
  | cypher => "cypher"

/-- The dialect with a name. -/
def ofName? (s : String) : Option Dialect := [aql, cypher].find? (·.name == s)

/-- Reads a dialect name in any case. -/
def read (s : String) : Except Error Dialect :=
  let name := s.toLower
  match ofName? name with
  | some dialect => .ok dialect
  | none => .error (.validation s!"unknown dialect '{name}'")

end Dialect

end GraphQuery
