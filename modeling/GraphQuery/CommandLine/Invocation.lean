import GraphQuery.CommandLine.Options
import GraphQuery.Dictionary
import GraphQuery.Page
import GraphQuery.Stage
import GraphQuery.Uuid

/-!
# GraphQuery.CommandLine.Invocation — what the arguments ask for

1. **Values**: numbers, filter values, and paths, which are not empty.
2. **Requests** restrict and page the result of a query. An instance is named by its uuid and its
   space together.
3. **Commands** and how their arguments are read.
4. **Invocations**: a command with the options that stand before or after its name; those after it
   count. The environment names the settings if no option does.
-/

namespace GraphQuery.CommandLine

/-! ## Values -/

/-- Reads a number without a sign. -/
def unsigned? (s : String) : Option Nat :=
  let digits := match s.toList with
    | '+' :: cs => cs
    | cs => cs
  if digits.isEmpty || !digits.all Char.isDigit then none
  else
    let n := digits.foldl (fun n c => n * 10 + (c.toNat - 48)) 0
    if n < Nat.pow 2 64 then some n else none

/-- Splits `NAME=VALUE` at the first `=`. The name is not empty. -/
def filterValue? (s : String) : Option (String × String) :=
  let cs := s.toList
  let name := cs.takeWhile (· != '=')
  match cs.dropWhile (· != '=') with
  | _ :: value => if name.isEmpty then none else some (String.ofList name, String.ofList value)
  | [] => none

def isPath (s : String) : Bool := !s.isEmpty

/-- Reads the name of a stage. -/
def stage? (s : String) : Option Stage := (Stage.read s).toOption

/-! ## Requests -/

/-- The options that commands share which run queries. -/
structure RequestOptions where
  page : Option PageRequest
  spaces : List String
  root : Option InstanceId
  filterValues : Dictionary String
deriving Repr, DecidableEq

namespace RequestOptions

/-- The forms of these options. -/
def forms : List OptionForm :=
  [single "from" (unsigned? · |>.isSome), single "size" (unsigned? · |>.isSome), switch "total",
   repeated "restrict-space" fun _ => true, single "id" (Uuid.ofText? · |>.isSome),
   single "id-space" fun _ => true, repeated "filter" (filterValue? · |>.isSome)]

/-- A page is asked for by any of its three options. -/
def page? (s : Scanned) : Option PageRequest :=
  if s.has "from" || s.has "size" || s.has "total" then
    some ⟨((s.value? "from").bind unsigned?).getD 0, (s.value? "size").bind unsigned?, s.has "total"⟩
  else none

/-- The root that the options name; its id and its space go together. -/
def root? (s : Scanned) : Except Refusal (Option InstanceId) :=
  match (s.value? "id").bind Uuid.ofText?, s.value? "id-space" with
  | some uuid, some space => .ok (some ⟨uuid, space⟩)
  | none, none => .ok none
  | _, _ => .error (.fault "the arguments '--id' and '--id-space' go together")

/-- The values of these options on a command line. -/
def read (s : Scanned) : Except Refusal RequestOptions := do
  return { page := page? s
           spaces := s.values "restrict-space"
           root := ← root? s
           filterValues := .ofEntries ((s.values "filter").filterMap filterValue?) }

end RequestOptions

/-! ## Commands -/

inductive Command
  /-- Shows how a query is interpreted. -/
  | validate (query : String)
  /-- Shows the statements of a query; `debug` also shows them with their bindings filled in. -/
  | compile (query : String) (dialect : Option Dialect) (stage : Stage) (debug : Bool)
      (request : RequestOptions)
  /-- Answers a query from a graph, for a user given as a file or one who reads everything. -/
  | run (graph query : String) (stage : Stage) (user : Option String) (request : RequestOptions)
  /-- Shows the scope of an instance of a graph. -/
  | scope (graph : String) (id : InstanceId) (stage : Stage) (labels restrictions : Bool)
deriving Repr, DecidableEq

/-- The names of the commands. -/
inductive CommandName
  | validate
  | compile
  | run
  | scope
deriving Repr, DecidableEq

/-- The formats of reports. -/
inductive Format
  | text
  | json
deriving Repr, DecidableEq

def Format.ofName? : String → Option Format
  | "text" => some text
  | "json" => some json
  | _ => none

namespace CommandName

def all : List CommandName := [validate, compile, run, scope]

/-- The name of a command on the command line. -/
def name : CommandName → String
  | validate => "validate"
  | compile => "compile"
  | run => "run"
  | scope => "scope"

def ofName? (s : String) : Option CommandName := all.find? (·.name == s)

def stageForm : OptionForm := single "stage" (stage? · |>.isSome)

/-- Options of a command alone. -/
def forms : CommandName → List OptionForm
  | validate => []
  | compile =>
    [single "dialect" (Dialect.ofName? · |>.isSome), stageForm, switch "debug"]
      ++ RequestOptions.forms
  | run => [stageForm, single "user" isPath] ++ RequestOptions.forms
  | scope =>
    [single "space" fun _ => true, single "id" (Uuid.ofText? · |>.isSome), stageForm,
     switch "labels", switch "restrictions"]

/-- Names of the files that a command reads. -/
def files : CommandName → List String
  | validate => ["QUERY"]
  | compile => ["QUERY"]
  | run => ["GRAPH", "QUERY"]
  | scope => ["GRAPH"]

/-- The stage that a command line names, drafts by default. -/
def stageOf (s : Scanned) : Stage := ((s.value? "stage").bind stage?).getD .inProgress

/-- The value of an option that has to be there. -/
def required (s : Scanned) (name : String) : Except Refusal String :=
  match s.value? name with
  | some v => .ok v
  | none => .error (.fault s!"the required argument '--{name}' was not provided")

/-- Reads the arguments of a command. -/
def read (c : CommandName) (s : Scanned) : Except Refusal Command := do
  if s.plain.any (!isPath ·) then .error (.fault "a path is empty") else pure ()
  match c, s.plain with
  | validate, [query] => return .validate query
  | compile, [query] =>
    return .compile query ((s.value? "dialect").bind Dialect.ofName?) (stageOf s) (s.has "debug")
      (← RequestOptions.read s)
  | run, [graph, query] =>
    return .run graph query (stageOf s) (s.value? "user") (← RequestOptions.read s)
  | scope, [graph] =>
    let space ← required s "space"
    let id ← required s "id"
    let some uuid := Uuid.ofText? id | .error (.fault "a uuid is malformed")
    return .scope graph ⟨uuid, space⟩ (stageOf s) (s.has "labels") (s.has "restrictions")
  | c, plain =>
    match plain.drop c.files.length with
    | arg :: _ => .error (unexpected arg)
    | [] => .error (.fault ("required arguments were not provided: " ++ ", ".intercalate c.files))

end CommandName

/-! ## Invocations -/

/-- What a command line asks for. -/
structure Invocation where
  /-- Path of the settings. -/
  settings : Option String
  format : Format
  command : Command
deriving Repr, DecidableEq

namespace Invocation

/-- Options that may stand before or after the name of the command. -/
def forms : List OptionForm := [single "config" isPath, single "format" (Format.ofName? · |>.isSome)]

/-- Reads the arguments. `settingsPath` is what the environment says of the settings; it is not
empty unless options on both sides of the command's name go before it. -/
def read (settingsPath : Option String) (args : List String) : Except Refusal Invocation := do
  let (before, rest) ← scan forms true .nothing args
  let name :: rest := rest | .error (.fault "a command is required")
  let some c := CommandName.ofName? name | .error (.fault s!"unrecognized subcommand '{name}'")
  let (after, _) ← scan (forms ++ c.forms) false .nothing rest
  let command ← c.read after
  if settingsPath = some "" ∧ !(before.has "config" ∧ after.has "config") then
    .error (.fault "a path is empty")
  else
    let option? (key : String) : Option String := (after.value? key).or (before.value? key)
    return { settings := (option? "config").or settingsPath
             format := ((option? "format").bind Format.ofName?).getD .text
             command }

end Invocation

end GraphQuery.CommandLine
