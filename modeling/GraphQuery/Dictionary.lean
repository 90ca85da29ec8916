/-!
# GraphQuery.Dictionary — finite maps from names, in key order

A dictionary lists its entries by strictly increasing key. Keys compare by code point, which is
also the order of their UTF-8 bytes.

1. **Operations**: `insert` replaces the value of a key that is present.
2. **Names**: a set of names, kept sorted in the same way.
-/

namespace GraphQuery

/-- A dictionary as a list of entries, whose keys ascend in those that the functions below build. -/
abbrev Dictionary (α : Type) := List (String × α)

namespace Dictionary

variable {α : Type}

/-- Puts an entry at its place, where it replaces one with the same key. -/
def insert (key : String) (value : α) : Dictionary α → Dictionary α
  | [] => [(key, value)]
  | (k, v) :: rest =>
    if key < k then (key, value) :: (k, v) :: rest
    else if key = k then (key, value) :: rest
    else (k, v) :: insert key value rest

/-- The value of a key. -/
def get? (d : Dictionary α) (key : String) : Option α := d.lookup key

def contains (d : Dictionary α) (key : String) : Bool := (d.get? key).isSome

/-- The keys in their order. -/
def keys (d : Dictionary α) : List String := d.map Prod.fst

/-- Entries given in any order; the last one of a repeated key counts. -/
def ofEntries (entries : List (String × α)) : Dictionary α :=
  entries.foldl (fun d (k, v) => insert k v d) []

/-- Drops the entry of a key. -/
def erase (d : Dictionary α) (key : String) : Dictionary α := d.filter (·.1 != key)

end Dictionary

/-! ## Names -/

/-- A set of names in increasing order, without repetition. -/
abbrev Names := List String

namespace Names

/-- Puts a name at its place, if it is not there already. -/
def insert (name : String) : Names → Names
  | [] => [name]
  | n :: rest =>
    if name < n then name :: n :: rest
    else if name = n then n :: rest
    else n :: insert name rest

/-- The different names of a list, in ascending order. -/
def ofList (names : List String) : Names := names.foldl (fun s n => insert n s) []

end Names

end GraphQuery
