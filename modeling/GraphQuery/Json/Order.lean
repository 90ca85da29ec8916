import GraphQuery.Json.Printer

/-!
# GraphQuery.Json.Order — the order of values

1. **Values**: null, then booleans, numbers, strings, arrays, objects. Numbers compare as doubles,
   arrays item by item, objects by their compact text.
2. **Fields**: objects compare by the values of given keys, the first difference deciding.
3. **Sorting** keeps the order of equal items.
-/

namespace GraphQuery.Json

/-- Place of a value's kind. -/
def Value.rank : Value → Nat
  | .null => 0
  | .bool _ => 1
  | .number _ => 2
  | .string _ => 3
  | .array _ => 4
  | .object _ => 5

/-- Numbers are ordered as doubles. -/
def Number.compare (a b : Number) : Ordering := compareOfLessAndEq a.toDouble.key b.toDouble.key

/-- Texts are ordered by their characters. -/
def compareText (a b : String) : Ordering := compareOfLessAndEq a b

mutual

/-- The order of values: first by their kinds, then by what they hold. -/
def Value.compare : Value → Value → Ordering
  | .bool a, .bool b => compareOfLessAndEq a.toNat b.toNat
  | .number a, .number b => a.compare b
  | .string a, .string b => compareText a b
  | .array a, .array b => compareItems a b
  | .object a, .object b => compareText (Value.object a).compact (Value.object b).compact
  | a, b => compareOfLessAndEq a.rank b.rank

/-- The first difference decides; a list comes after those it begins with. -/
def compareItems : List Value → List Value → Ordering
  | [], [] => .eq
  | [], _ :: _ => .lt
  | _ :: _, [] => .gt
  | a :: as, b :: bs => (Value.compare a b).then (compareItems as bs)

end

/-! ## Fields -/

/-- A row of a result: its columns by their keys. -/
abbrev Row := Dictionary Value

/-- Value of a key; `null` where it is absent. -/
def Row.value (r : Row) (key : String) : Value := (r.get? key).getD .null

/-- Compares rows by the values of some keys, the first of which weighs most. -/
def compareFields (keys : List String) (a b : Row) : Ordering :=
  match keys with
  | [] => .eq
  | key :: rest => ((a.value key).compare (b.value key)).then (compareFields rest a b)

/-! ## Sorting -/

/-- Sorts a list. What compares as equal keeps its order. -/
def sortBy {α : Type} (compare : α → α → Ordering) (xs : List α) : List α :=
  xs.mergeSort fun a b => (compare a b).isLE

end GraphQuery.Json
