import GraphQuery.Json.Printer
import GraphQuery.Text.Quoted

/-!
# GraphQuery.Json.Record — reading records from JSON values

1. **Faults**: why a value does not have the expected form, and the message.
2. **Scalars** and lists.
3. **Variants**: a name, or an object whose only key is the name and whose value is `null`.
4. **Records**: an object, or an array of the fields in their declared order. A key that names no
   field is passed over, two keys for one field are a fault, and the first fault in the order of
   the entries is the one reported.
-/

namespace GraphQuery.Json

/-! ## Faults -/

/-- Why a value is not of the expected shape. -/
inductive Fault
  | wrongType (found : Value) (expected : String)
  | notSingleKey
  | missingField (name : String)
  | duplicateField (name : String)
  | unknownVariant (name : String) (known : List String)
  | tooLong (length : Nat)
  | tooShort (length : Nat) (expected : String)
  /-- No form of a choice fits. -/
  | noForm (choice : String)
  /-- A text that does not spell a value of its type. -/
  | malformed (reason : String)
deriving Repr

/-- What a value is, as a message says it. -/
def Value.described : Value → String
  | null => "null"
  | bool b => "boolean `" ++ (if b then "true" else "false") ++ "`"
  | number (.int i) => "integer `" ++ toString i ++ "`"
  | number (.double d) => "floating point `" ++ d.positionalText ++ "`"
  | string s => "string " ++ Text.quoted s
  | array _ => "sequence"
  | object _ => "map"

def Fault.ticked (s : String) : String := "`" ++ s ++ "`"

/-- The words in which a fault is told. -/
def Fault.message : Fault → String
  | wrongType found expected => "invalid type: " ++ found.described ++ ", expected " ++ expected
  | notSingleKey => "invalid value: map, expected map with a single key"
  | missingField name => "missing field " ++ ticked name
  | duplicateField name => "duplicate field " ++ ticked name
  | unknownVariant name known =>
    let expected := match known with
      | [] => "there are no variants"
      | [a] => "expected " ++ ticked a
      | [a, b] => "expected " ++ ticked a ++ " or " ++ ticked b
      | known => "expected one of " ++ ", ".intercalate (known.map ticked)
    "unknown variant " ++ ticked name ++ ", " ++ expected
  | tooLong length => s!"invalid length {length}, expected fewer elements in array"
  | tooShort length expected => s!"invalid length {length}, expected {expected}"
  | noForm choice => s!"data did not match any variant of untagged enum {choice}"
  | malformed reason => reason

/-- The outcome of reading a value. -/
abbrev Read (α : Type) := Except Fault α

/-! ## Scalars -/

def readText : Value → Read String
  | .string s => .ok s
  | v => .error (.wrongType v "a string")

/-- `null` is the absent value. -/
def readOptional {α : Type} (read : Value → Read α) : Value → Read (Option α)
  | .null => .ok none
  | v => (read v).map some

def readList {α : Type} (read : Value → Read α) : Value → Read (List α)
  | .array items => items.mapM read
  | v => .error (.wrongType v "a sequence")

/-! ## Variants -/

def readUnit : Value → Read Unit
  | .null => .ok ()
  | v => .error (.wrongType v "unit")

/-- Reads one of finitely many names. -/
def readVariant {α : Type} (known : List α) (name : α → String) (v : Value) : Read α :=
  let named (s : String) : Read α :=
    match known.find? (name · == s) with
    | some a => .ok a
    | none => .error (.unknownVariant s (known.map name))
  match v with
  | .string s => named s
  | .object [(s, v)] => do
    let a ← named s
    readUnit v
    return a
  | .object _ => .error .notSingleKey
  | v => .error (.wrongType v "string or map")

/-! ## Records -/

/-- The fields of a record in their declared order, each with the keys it may have. -/
structure RecordForm (F : Type) where
  name : String
  fields : List F
  /-- The first key is the one that messages name. -/
  keys : F → List String

namespace RecordForm

variable {F : Type} [DecidableEq F] {σ : Type}

/-- The field that a key stands for, if it is one of the record's. -/
def fieldOf? (form : RecordForm F) (key : String) : Option F :=
  form.fields.find? fun f => (form.keys f).contains key

/-- The key of a field in messages. -/
def label (form : RecordForm F) (f : F) : String := (form.keys f).headD ""

/-- The place of a field among the record's. -/
def index (form : RecordForm F) (f : F) : Nat := form.fields.findIdx (· = f)

/-- Fault of a record that lacks a field it must have. -/
def missing (form : RecordForm F) (v : Value) (f : F) : Fault :=
  match v with
  | .array _ =>
    let n := form.fields.length
    .tooShort (form.index f)
      (s!"struct {form.name} with {n} element" ++ (if n == 1 then "" else "s"))
  | _ => .missingField (form.label f)

/-- Reads the entries of an object. Unknown keys are passed over, and no field may stand twice. -/
def readEntries (form : RecordForm F) (set : σ → F → Value → Read σ) (seen : List F) (draft : σ) :
    List (String × Value) → Read σ
  | [] => .ok draft
  | (key, v) :: rest =>
    match form.fieldOf? key with
    | none => readEntries form set seen draft rest
    | some f =>
      if f ∈ seen then .error (.duplicateField (form.label f))
      else do
        let draft ← set draft f v
        readEntries form set (f :: seen) draft rest

/-- Reads fields from a list, in which they stand in order. -/
def readItems (set : σ → F → Value → Read σ) (draft : σ) : List F → List Value → Read σ
  | f :: fields, v :: rest => do
    let draft ← set draft f v
    readItems set draft fields rest
  | _, _ => .ok draft

/-- Reads a record into `draft`, one field after the other. -/
def read (form : RecordForm F) (set : σ → F → Value → Read σ) (draft : σ) : Value → Read σ
  | .object entries => form.readEntries set [] draft entries
  | .array items => do
    let draft ← readItems set draft form.fields items
    if items.length > form.fields.length then .error (.tooLong items.length) else .ok draft
  | v => .error (.wrongType v s!"struct {form.name}")

/-- The values of a record's fields, unread; none where a field is given twice, an array has
surplus items, or the value is no record at all. -/
def fields? (form : RecordForm F) : Value → Option (F → Option Value)
  | .object entries =>
    let named := entries.filterMap fun (key, v) => (form.fieldOf? key).map (·, v)
    if (named.map Prod.fst).Nodup then some fun f => named.lookup f else none
  | .array items =>
    if items.length ≤ form.fields.length then some fun f => items[form.index f]? else none
  | _ => none

end RecordForm

end GraphQuery.Json
