import GraphQuery.Json.Value

/-!
# GraphQuery.Toml.Table — tables under construction

1. **Nodes**: complete values, tables that may still grow, and lists of tables. A table remembers
   what brought it about, because that decides how it may grow.
2. **Growing**: a line with a key adds to the present table, a header opens a table. No value is
   defined twice.
3. **The result** is an object.
-/

namespace GraphQuery.Toml

open Json

/-! ## Nodes -/

/-- What brought a table about. -/
inductive Origin
  /-- A header of its own. -/
  | header
  /-- A header of a table inside it. -/
  | implied
  /-- A dotted key. -/
  | dotted
deriving Repr, DecidableEq

/-- A value, a table that may still grow, or a list of tables. -/
inductive Node
  | value (v : Value)
  | table (origin : Origin) (entries : List (String × Node))
  | tables (items : List (List (String × Node)))

/-- The entries of a table, in the order in which they were made. -/
abbrev Entries := List (String × Node)

/-! ## Growing -/

/-- Gives a key its node, which replaces one that is there. -/
def Entries.set (key : String) (node : Node) : Entries → Entries
  | [] => [(key, node)]
  | (k, n) :: rest => if k = key then (k, node) :: rest else (k, n) :: Entries.set key node rest

/-- Changes the table at the end of a path. Tables that are missing on the way are made; those
that are there have to satisfy `enters`. A list of tables stands for its last table. -/
def Entries.change (made : Origin) (enters : Origin → Bool)
    (f : Origin → Entries → Option Entries) :
    List String → Origin → Entries → Option Entries
  | [], origin, entries => f origin entries
  | key :: path, _, entries =>
    match entries.lookup key with
    | none => do
      let inner ← change made enters f path made []
      return entries.set key (.table made inner)
    | some (.table origin inner) => do
      let inner ← if enters origin then change made enters f path origin inner else none
      return entries.set key (.table origin inner)
    | some (.tables items) => do
      let last ← items.getLast?
      let last ← change made enters f path .header last
      return entries.set key (.tables (items.dropLast ++ [last]))
    | some (.value _) => none

/-- Adds an entry, whose key must be new. -/
def Entries.addNew (key : String) (v : Value) (entries : Entries) : Option Entries :=
  if (entries.lookup key).isSome then none else some (entries.set key (.value v))

/-- Adds a value under a dotted key. All of the key but its last part leads through tables that
dotted keys have made. -/
def Entries.addValue (path : List String) (key : String) (v : Value) (entries : Entries) :
    Option Entries :=
  entries.change .dotted (· ≠ .header)
    (fun origin inner =>
      if path ≠ [] ∧ origin ≠ .dotted then none else inner.addNew key v)
    path .header

/-- Changes the table that a header has opened. -/
def Entries.within (header : List String) (f : Entries → Option Entries) (entries : Entries) :
    Option Entries :=
  entries.change .implied (fun _ => true) (fun _ inner => f inner) header .header

/-- Opens a table: a new one, or one that a header of a table inside it has implied. -/
def Entries.openTable (path : List String) (key : String) (entries : Entries) : Option Entries :=
  entries.within path fun inner =>
    match inner.lookup key with
    | none => some (inner.set key (.table .header []))
    | some (.table .implied es) => some (inner.set key (.table .header es))
    | some _ => none

/-- Opens a further table of a list. -/
def Entries.openItem (path : List String) (key : String) (entries : Entries) : Option Entries :=
  entries.within path fun inner =>
    match inner.lookup key with
    | none => some (inner.set key (.tables [[]]))
    | some (.tables items) => some (inner.set key (.tables (items ++ [[]])))
    | some _ => none

/-! ## The result -/

mutual

/-- A node as a value. -/
def Node.toValue : Node → Value
  | .value v => v
  | .table _ entries => .object (entriesToValues entries)
  | .tables items => .array (itemsToValues items)

def entriesToValues : List (String × Node) → List (String × Value)
  | [] => []
  | (k, n) :: rest => (k, n.toValue) :: entriesToValues rest

def itemsToValues : List (List (String × Node)) → List Value
  | [] => []
  | es :: rest => .object (entriesToValues es) :: itemsToValues rest

end

end GraphQuery.Toml
