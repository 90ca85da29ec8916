import GraphQuery.Json.Value
import GraphQuery.Query.Basic

/-!
# GraphQuery.Query.Encode — writing queries

Fields have their plain names. Absent options are left out, flags are always written, and a list or
reference keeps the form in which it was written.
-/

namespace GraphQuery

open Json

/-- The entry of an option, unless the option is absent. -/
def entryOf {α : Type} (key : String) (toValue : α → Value) : Option α → List (String × Value)
  | some a => [(key, toValue a)]
  | none => []

namespace Reference

/-- A reference, written the way it was read. -/
def toValue : Reference → Value
  | bare uri => .string uri
  | object uri => .object [("@id", .string uri)]

end Reference

/-- A list, or an item without a list around it. -/
def OneOrMany.toValue {α : Type} (item : α → Value) : OneOrMany α → Value
  | many items => .array (items.map item)
  | one a => item a

/-- A filter, with the parts that it has. -/
def ValueFilter.toValue (f : ValueFilter) : Value :=
  .object <| [("op", .string f.op.name)] ++ entryOf "parameter" .string f.parameter ++
    entryOf "value" .string f.operand

/-- A step of a path with its direction and types. -/
def Hop.toValue (h : Hop) : Value :=
  .object <| [("@id", .string h.uri), ("reverse", .bool h.reverse)] ++
    entryOf "typeFilter" (OneOrMany.toValue Reference.toValue) h.types

/-- A step of a path, written the way it was read. -/
def PathStep.toValue : PathStep → Value
  | bare uri => .string uri
  | hop h => h.toValue

namespace Item

/-- Entries of an item whose children have been written already. -/
def entries (i : Item) (children : List (String × Value)) : List (String × Value) :=
  [("propertyName", i.propertyName.toValue)] ++
  entryOf "path" (OneOrMany.toValue PathStep.toValue) i.path ++
  children ++
  [("required", .bool i.required), ("sort", .bool i.sort), ("groupBy", .bool i.groupBy)] ++
  entryOf "groupedInstances" .string i.groupedInstances ++
  [("ensureOrder", .bool i.ensureOrder)] ++
  entryOf "filter" ValueFilter.toValue i.filter ++
  entryOf "singleValue" (fun c => .string c.name) i.collapse

mutual

/-- An item with all below it. -/
def toValue : Item → Value
  | i@⟨_, _, children, _, _, _, _, _, _, _⟩ => .object (i.entries (childEntries children))

def childEntries : Option (OneOrMany Item) → List (String × Value)
  | none => []
  | some (.one child) => [("structure", toValue child)]
  | some (.many children) => [("structure", .array (toValues children))]

def toValues : List Item → List Value
  | [] => []
  | i :: rest => toValue i :: toValues rest

end

end Item

/-- The header of a query, with the parts that it has. -/
def Header.toValue (h : Header) : Value :=
  .object <| entryOf "type" Reference.toValue h.rootType ++
    entryOf "responseVocab" .string h.vocabulary ++
    entryOf "filter" ValueFilter.toValue h.filter ++
    entryOf "name" .string h.title

/-- A query in the form in which clients write it. -/
def Query.toValue (q : Query) : Value :=
  .object <| entryOf "meta" Header.toValue q.header ++
    Item.childEntries q.structured

end GraphQuery
