import GraphQuery.Json.Order
import GraphQuery.Text.Cut

/-!
# GraphQuery.Vocabulary — keys of responses

The response vocabulary is put before every key of a row, at any depth, that does not begin with it
already. Keys that become equal share one entry, which has the value of the last of them.
-/

namespace GraphQuery.Vocabulary

open Json

/-- A key with the vocabulary before it, unless the key begins with the vocabulary already. -/
def extendKey (vocabulary key : String) : String :=
  if Text.startsWith key vocabulary then key else vocabulary ++ key

mutual

/-- A value in which the keys of all objects have the vocabulary before them. -/
def extendValue (vocabulary : String) : Value → Value
  | .object entries => .object (Dictionary.ofEntries (extendEntries vocabulary entries))
  | .array items => .array (extendItems vocabulary items)
  | v => v

def extendItems (vocabulary : String) : List Value → List Value
  | [] => []
  | v :: rest => extendValue vocabulary v :: extendItems vocabulary rest

def extendEntries (vocabulary : String) : List (String × Value) → List (String × Value)
  | [] => []
  | (key, v) :: rest =>
    (extendKey vocabulary key, extendValue vocabulary v) :: extendEntries vocabulary rest

end

/-- A row in which all keys, also those at depth, have the vocabulary before them. -/
def extendRow (vocabulary : String) (row : Row) : Row :=
  Dictionary.ofEntries (extendEntries vocabulary row)

end GraphQuery.Vocabulary
