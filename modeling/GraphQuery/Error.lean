/-!
# GraphQuery.Error — causes of failure

1. **Causes**, with what their messages need.
2. **Texts**: the code of a cause, its message, and both together.
3. **Backend failures** classified by their error number.
-/

namespace GraphQuery

/-- The failures of a query, by what is to blame. -/
inductive Error
  /-- The query breaks a rule of the query language. -/
  | validation (reason : String)
  /-- The backend cannot run the statement. -/
  | invalidQuery (reason : String)
  /-- The statement ran into the memory ceiling. -/
  | limitExceeded (reason : String)
  | forbidden (reason : String)
  /-- A failure that a later attempt may not meet. -/
  | transient (reason : String)
  /-- Every attempt met a transient failure; `reason` is the last one's. -/
  | unavailable (attempts : Nat) (reason : String)
  | notFound (what : String)
  | io (reason : String)
  /-- A text that is no JSON of the expected form. -/
  | json
  | config (reason : String)
deriving Repr, DecidableEq

namespace Error

/-- The name of a failure, without its details. -/
def code : Error → String
  | validation _ => "Validation"
  | invalidQuery _ => "InvalidQuery"
  | limitExceeded _ => "LimitExceeded"
  | forbidden _ => "Forbidden"
  | transient _ => "TransientBackend"
  | unavailable _ _ => "BackendUnavailable"
  | notFound _ => "NotFound"
  | io _ => "Io"
  | json => "Json"
  | config _ => "Config"

/-- The words in which a failure is told. -/
def message : Error → String
  | validation reason => s!"invalid query specification: {reason}"
  | invalidQuery reason => s!"Invalid query: {reason}"
  | limitExceeded reason => s!"Query size limit exceeded: {reason}"
  | forbidden reason => s!"forbidden: {reason}"
  | transient reason => s!"transient backend failure: {reason}"
  | unavailable attempts reason => s!"backend unavailable after {attempts} attempts: {reason}"
  | notFound what => s!"{what} not found"
  | io reason => s!"I/O error: {reason}"
  | json => "JSON error"
  | config reason => reason

/-- The code in brackets before the message. -/
def coded (e : Error) : String := s!"[{e.code}] {e.message}"

/-- Whether another attempt may help. -/
def isTransient : Error → Bool
  | transient _ => true
  | _ => false

/-! ## Backend failures -/

/-- Classifies a failure by its number: 32 is the memory ceiling, 1501 a refused statement. -/
def ofBackend (number : Int) (reason : String) : Error :=
  if number == 32 then limitExceeded reason
  else if number == 1501 then invalidQuery reason
  else transient s!"backend error {number}: {reason}"

/-- Number of the failure of a backend that cannot be reached. -/
def connectionRefused : Int := 1497

end Error

end GraphQuery
