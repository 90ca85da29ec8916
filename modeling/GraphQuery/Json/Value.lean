import GraphQuery.Dictionary
import GraphQuery.Double

/-!
# GraphQuery.Json.Value — JSON values

1. **Numbers** are integers or doubles; `1` and `1.0` are different values.
2. **Values** hold the entries of an object in the order they were given. `sorted` brings the
   objects at every level into key order, the last entry of a repeated key winning.
3. **Equality** compares doubles as numbers, so `0.0 == -0.0`.
-/

namespace GraphQuery.Json

/-! ## Numbers -/

/-- Numbers are integers of any size or doubles. -/
inductive Number
  | int (value : Int)
  | double (value : Double)
deriving Repr, DecidableEq

namespace Number

/-- An integer equals a double of the same value. -/
instance : BEq Number where
  beq
    | .int a, .int b => a == b
    | .double a, .double b => a.sameNumber b
    | _, _ => false

/-- The double next to a number. -/
def toDouble : Number → Double
  | .int i => Double.ofInt i
  | .double d => d

end Number

/-! ## Values -/

/-- Values. Objects keep their entries in order, repeated keys included. -/
inductive Value
  | null
  | bool (b : Bool)
  | number (n : Number)
  | string (s : String)
  | array (items : List Value)
  | object (entries : List (String × Value))
deriving Repr, Inhabited

namespace Value

/-- An integer as a value. -/
abbrev int (i : Int) : Value := .number (.int i)

/-- A natural number as a value. -/
abbrev nat (n : Nat) : Value := .number (.int n)

/-- A list of texts. -/
def strings (names : List String) : Value := .array (names.map .string)

/-- The value itself, or `null` for none. -/
def ofOption {α : Type} (toValue : α → Value) : Option α → Value
  | some a => toValue a
  | none => .null

mutual

/-- Objects at every level in key order, without repeated keys. -/
def sorted : Value → Value
  | array items => array (sortedItems items)
  | object entries => object (Dictionary.ofEntries (sortedEntries entries))
  | v => v

/-- The items of an array with their keys sorted. -/
def sortedItems : List Value → List Value
  | [] => []
  | v :: rest => sorted v :: sortedItems rest

/-- The entries of an object with sorted keys in their values. -/
def sortedEntries : List (String × Value) → List (String × Value)
  | [] => []
  | (k, v) :: rest => (k, sorted v) :: sortedEntries rest

end

/-! ## Equality -/

mutual

/-- Equality of values, in which numbers are compared by their value. -/
def same : Value → Value → Bool
  | null, null => true
  | bool a, bool b => a == b
  | number a, number b => a == b
  | string a, string b => a == b
  | array a, array b => sameItems a b
  | object a, object b => sameEntries a b
  | _, _ => false

/-- Items that are the same one by one. -/
def sameItems : List Value → List Value → Bool
  | [], [] => true
  | a :: as, b :: bs => same a b && sameItems as bs
  | _, _ => false

/-- Entries that are the same one by one, in their order. -/
def sameEntries : List (String × Value) → List (String × Value) → Bool
  | [], [] => true
  | (k, a) :: as, (l, b) :: bs => k == l && same a b && sameEntries as bs
  | _, _ => false

end

instance : BEq Value := ⟨same⟩

/-! ## Views -/

/-- Whether a value is null. -/
def isNull : Value → Bool
  | null => true
  | _ => false

/-- The text, of a value that is one. -/
def asString? : Value → Option String
  | string s => some s
  | _ => none

/-- Value of a key; `null` where the key is absent or the value is no object. -/
def field (v : Value) (key : String) : Value :=
  match v with
  | object entries => (entries.lookup key).getD null
  | _ => null

end Value

end GraphQuery.Json
