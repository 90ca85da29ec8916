import GraphQuery.CommandLine.Invocation
import GraphQuery.CommandLine.Report
import GraphQuery.Graph.Fixture
import GraphQuery.Scope
import GraphQuery.Service

/-!
# GraphQuery.CommandLine — the command line

1. **Files** are read through the environment, so that a run does not depend on where they are.
2. **Failures** are shown with their code: that of an error, or `Error` for faults of settings and
   of users.
3. **Settings** come from the path that the invocation names, which must exist, or else from the
   default path if there is a file.
4. **Commands** read their files in a fixed order, so that the first fault in that order is shown.
5. **Outcomes**: output and exit code of a whole run.
-/

namespace GraphQuery.CommandLine

open Json

/-! ## Files -/

/-- Why a file cannot be read. -/
inductive FileFault
  | missing
  | directory
  /-- A part of the path is a file. -/
  | notDirectory
  | notText
  | other (reason : String)
deriving Repr, DecidableEq

/-- The words in which a fault of the file system is told. -/
def FileFault.message : FileFault → String
  | missing => "No such file or directory (os error 2)"
  | directory => "Is a directory (os error 21)"
  | notDirectory => "Not a directory (os error 20)"
  | notText => "stream did not contain valid UTF-8"
  | other reason => reason

/-- What the program asks of its surroundings. -/
structure Environment (m : Type → Type) where
  /-- The path of the settings that the environment names. -/
  settings : Option String
  /-- The path of the settings that are read if none are named. -/
  defaultSettings : Option String
  read : String → m (Except FileFault String)

/-! ## Failures -/

/-- Why a command has failed. -/
inductive Failure
  | unreadableSettings (path : String) (fault : FileFault)
  | malformedSettings (path : String)
  | user (fault : Fault)
  | error (e : Error)

namespace Failure

/-- The name of a failure: that of an engine error, and a common one for all others. -/
def code : Failure → String
  | error e => e.code
  | _ => "Error"

def message : Failure → String
  | unreadableSettings path fault => s!"failed to read engine config {path}: {fault.message}"
  | malformedSettings path => s!"failed to parse engine config {path}: TOML parse error"
  | user fault => fault.message
  | error e => e.message

/-- A failure as it is printed. -/
def text (f : Failure) : String := s!"error[{f.code}]: {f.message}"

end Failure

section Running

variable {m : Type → Type} [Monad m]

/-- A computation that may ask for files, and that may fail. -/
abbrev Running (m : Type → Type) (α : Type) := ExceptT Failure m α

/-- An engine error is a failure of the command. -/
def check {α : Type} (r : Except Error α) : Running m α :=
  match r with
  | .ok a => pure a
  | .error e => throw (.error e)

/-- The text of a file that a command names. -/
def readFile (env : Environment m) (path : String) : Running m String := do
  match ← (env.read path : m (Except FileFault String)) with
  | .ok text => pure text
  | .error fault => throw (.error (.io fault.message))

/-- The value in a file that a command names. -/
def readJson (env : Environment m) (path : String) : Running m Value := do
  match Value.ofText? (← readFile env path) with
  | some v => pure v.sorted
  | none => throw (.error .json)

/-! ## Settings -/

def settingsOf (path text : String) : Running m Settings :=
  match Settings.ofToml? text with
  | some s => pure s
  | none => throw (.malformedSettings path)

/-- The settings in the file that is named, else in the default file. Only the latter may be
missing. -/
def loadSettings (env : Environment m) (named : Option String) : Running m Settings := do
  let some path := named.or env.defaultSettings | return Settings.default
  match ← (env.read path : m (Except FileFault String)) with
  | .ok text => settingsOf path text
  | .error fault =>
    if named.isNone ∧ (fault = .missing ∨ fault = .notDirectory) then return Settings.default
    else throw (.unreadableSettings path fault)

/-! ## Commands -/

/-- A reader without restrictions. -/
def globalReader : User := ⟨"cli", [⟨.read, .everywhere⟩, ⟨.readReleased, .everywhere⟩]⟩

/-- The user in a file. -/
def readUser (env : Environment m) (path : String) : Running m User := do
  match User.read (← readJson env path) with
  | .ok user => pure user
  | .error fault => throw (.user fault)

/-- The store that a fixture file describes. -/
def readGraph (env : Environment m) (path : String) : Running m Store := do
  check (Store.ofText (← readFile env path))

/-- The specification that a query file stands for. -/
def readSpecification (env : Environment m) (path : String) : Running m Specification := do
  check (Specification.ofValue (← readJson env path))

/-- The request that the options of a command ask for. -/
def RequestOptions.toRequest (r : RequestOptions) (stage : Stage) (memory : Option Nat) : Request :=
  { Request.ofStage stage with
    page := r.page
    spaces := if r.spaces.isEmpty then none else some r.spaces
    root := r.root
    filterValues := r.filterValues
    memory }

/-- What is submitted to a session by a query command. -/
def RequestOptions.toSubmission (r : RequestOptions) (stage : Stage) (payload : Value) :
    Submission where
  payload
  stage
  root := r.root
  spaces := r.spaces
  filterValues := r.filterValues
  page := r.page

/-- What a command does: the report that it ends with, or a failure. -/
def Command.report (env : Environment m) (settings : Settings) : Command → Running m Report
  | .validate query => do return specificationReport (← readSpecification env query)
  | .compile query dialect stage debug request => do
    let spec ← readSpecification env query
    let dialect := dialect.getD settings.dialect
    return compiledReport dialect debug
      (spec.compile dialect (request.toRequest stage settings.memory))
  | .run graph query stage user request => do
    let st ← readGraph env graph
    let user ← match user with
      | some path => readUser env path
      | none => pure globalReader
    let payload ← readJson env query
    let stream ← check (st.answer settings (some user) (request.toSubmission stage payload)).result
    return pageReport (← check stream.drain)
  | .scope graph id stage labels restrictions => do
    let st ← readGraph env graph
    match ← check (st.scope settings stage id ⟨labels, restrictions⟩).1 with
    | some e => return scopeReport e
    | none => throw (.error (.notFound s!"instance {id.space}/{id.uuid.text}"))

/-! ## Outcomes -/

/-- How the program ends. -/
inductive Outcome
  | shown (text : String)
  | failed (f : Failure)
  | refused (reason : String)

namespace Outcome

/-- The exit code: 0 for success, 1 for a failure, 2 for arguments that cannot be read. -/
def exitCode : Outcome → Nat
  | shown _ => 0
  | failed _ => 1
  | refused _ => 2

/-- What goes to the standard output. -/
def output : Outcome → String
  | shown text => text
  | _ => ""

/-- Text for the standard error stream. -/
def complaint : Outcome → String
  | shown _ => ""
  | failed f => f.text ++ "\n"
  | refused reason => s!"error: {reason}\n"

end Outcome

def versionText : String := "kgquery 0.1.0\n"

def helpText : String :=
  "Compile, run and inspect declarative knowledge-graph queries\n\n" ++
  "Usage: kgquery [OPTIONS] <COMMAND>\n\n" ++
  "Commands:\n" ++
  "  validate  Validate a query and print its normalized tree\n" ++
  "  compile   Compile a query into a backend statement\n" ++
  "  run       Run a query against a JSON graph fixture\n" ++
  "  scope     Compute the scope of an instance in a JSON graph fixture\n"

/-- A report in the format that was asked for. -/
def Report.text (r : Report) : Format → String
  | .text => String.join (r.lines.map (· ++ "\n"))
  | .json => r.value.indented ++ "\n"

/-- Help and version are shown; arguments that cannot be read are refused. -/
def Refusal.outcome : Refusal → Outcome
  | help => .shown helpText
  | version => .shown versionText
  | fault reason => .refused reason

/-- Runs the program on its arguments. -/
def run (env : Environment m) (args : List String) : m Outcome := do
  match Invocation.read env.settings args with
  | .error refusal => return refusal.outcome
  | .ok i =>
    let shown : Running m String := do
      let settings ← loadSettings env i.settings
      return (← i.command.report env settings).text i.format
    match ← shown.run with
    | .ok text => return .shown text
    | .error f => return .failed f

end Running

end GraphQuery.CommandLine
