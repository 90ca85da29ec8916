/-!
# GraphQuery.CommandLine.Options — arguments with options

1. **Forms** of options: a switch, an option with one value, or one that may be repeated.
2. **Refusals**: a request for help or for the version, or a fault in the arguments.
3. **Scanning** goes from left to right. A value is either joined to its option by `=` or is the
   argument after it, which must not look like an option. After `--` all arguments are plain.
-/

namespace GraphQuery.CommandLine

/-! ## Forms -/

/-- How often an option may stand, and whether a value follows it. -/
inductive Arity
  | switch
  | single
  | repeated
deriving Repr, DecidableEq

/-- An option: its name, how often it may stand, and the values that it accepts. -/
structure OptionForm where
  /-- The name after the two dashes. -/
  name : String
  arity : Arity
  /-- Whether a value can be read. -/
  accepts : String → Bool

def switch (name : String) : OptionForm := ⟨name, .switch, fun _ => true⟩

def single (name : String) (accepts : String → Bool) : OptionForm := ⟨name, .single, accepts⟩

def repeated (name : String) (accepts : String → Bool) : OptionForm := ⟨name, .repeated, accepts⟩

/-! ## Refusals -/

/-- Why a command line ends before any command runs. -/
inductive Refusal
  | help
  | version
  | fault (reason : String)
deriving Repr, DecidableEq

/-! ## Scanning -/

/-- What has been read of a command line. -/
structure Scanned where
  plain : List String
  /-- Options in the order in which they were given. -/
  options : List (String × String)
deriving Repr, DecidableEq

namespace Scanned

def nothing : Scanned := ⟨[], []⟩

/-- The value of an option that stands at most once. -/
def value? (s : Scanned) (name : String) : Option String := s.options.lookup name

/-- The values of an option that may stand repeatedly, in their order. -/
def values (s : Scanned) (name : String) : List String :=
  s.options.filterMap fun (n, v) => if n = name then some v else none

/-- Whether an option stands on the command line. -/
def has (s : Scanned) (name : String) : Bool := (s.value? name).isSome

def addPlain (s : Scanned) (arg : String) : Scanned := { s with plain := s.plain ++ [arg] }

/-- Adds an option, which only a repeated one may be given twice, and its value. -/
def add (s : Scanned) (form : OptionForm) (value : String) : Except Refusal Scanned :=
  if form.arity ≠ .repeated ∧ s.has form.name then
    .error (.fault s!"the argument '--{form.name}' cannot be used multiple times")
  else if form.accepts value then .ok { s with options := s.options ++ [(form.name, value)] }
  else .error (.fault s!"invalid value '{value}' for '--{form.name}'")

end Scanned

/-- Whether an argument is meant as an option, rather than as a value. -/
def looksLikeOption (arg : String) : Bool :=
  match arg.toList with
  | ['-'] => false
  | '-' :: _ => true
  | _ => false

/-- Splits a long option into its name and the value that is joined to it. -/
def long? (arg : String) : Option (String × Option String) :=
  match arg.toList with
  | '-' :: '-' :: cs =>
    let name := String.ofList (cs.takeWhile (· != '='))
    match cs.dropWhile (· != '=') with
    | _ :: value => some (name, some (String.ofList value))
    | [] => some (name, none)
  | _ => none

/-- The refusal of an argument that has no place. -/
def unexpected (arg : String) : Refusal := .fault s!"unexpected argument '{arg}' found"

/-- The refusal of an option without a value. -/
def valueMissing (name : String) : Refusal :=
  .fault s!"a value is required for '--{name}' but none was supplied"

/-- What an option asks for that has no form; `leading` says whether it stands before the
command. -/
def refuse (leading : Bool) (arg : String) : Refusal :=
  if arg = "--help" ∨ arg.startsWith "-h" then .help
  else if leading ∧ (arg = "--version" ∨ arg.startsWith "-V") then .version
  else unexpected arg

/-- Reads one option. `next` is the argument after it; the number says how many arguments after
the option belong to it. -/
def readOption (forms : List OptionForm) (leading : Bool) (s : Scanned) (arg : String)
    (next : Option String) : Except Refusal (Scanned × Nat) := do
  let some (name, joined) := long? arg | .error (refuse leading arg)
  let some form := forms.find? (·.name = name) | .error (refuse leading arg)
  match form.arity, joined with
  | .switch, none => return (← s.add form "", 0)
  | .switch, some value => .error (.fault s!"unexpected value '{value}' for '--{name}'")
  | _, some value => return (← s.add form value, 0)
  | _, none =>
    let some value := next | .error (valueMissing name)
    if looksLikeOption value then .error (valueMissing name)
    else return (← s.add form value, 1)

/-- Scans arguments. Those that lead up to a command end with the first plain one, which is left
over with all that follow. -/
def scan (forms : List OptionForm) (leading : Bool) (s : Scanned) (args : List String) :
    Except Refusal (Scanned × List String) :=
  match args with
  | [] => .ok (s, [])
  | arg :: rest =>
    if leading ∧ (arg = "--" ∨ !looksLikeOption arg) then .ok (s, args)
    else if arg = "--" then .ok ({ s with plain := s.plain ++ rest }, [])
    else if looksLikeOption arg then
      match readOption forms leading s arg rest.head? with
      | .ok (s, taken) => scan forms leading s (rest.drop taken)
      | .error e => .error e
    else scan forms leading (s.addPlain arg) rest
termination_by args.length
decreasing_by all_goals simp [List.length_drop]; try omega

end GraphQuery.CommandLine
