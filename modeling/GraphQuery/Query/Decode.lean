import GraphQuery.Json.Record
import GraphQuery.Query.Basic
import GraphQuery.Text.Blank

/-!
# GraphQuery.Query.Decode — reading queries

Each field has two keys: its name, and the name after `query:`. A step's uri has the keys `@id`
and `id`. A fault inside the structure is reported as a fault of the structure as a whole; only
the header has faults of its own.

1. **References, lists and filters**
2. **Paths**
3. **Items**: the recursion follows the value, and a list that is no list of items may still be
   one item written as an array of its fields.
4. **Header and query**
5. **Completeness**: what every query must have.
-/

namespace GraphQuery

open Json

/-- The two keys of a field: its name, and the name with a prefix. -/
def bothKeys (name : String) : List String := [name, "query:" ++ name]

/-! ## References, lists and filters -/

/-- Reads a uri, by itself or in an object, whose entry `@id` it is. -/
def Reference.ofValue? : Value → Option Reference
  | .string uri => some (.bare uri)
  | .object entries =>
    match entries.filter (·.1 == "@id") with
    | [(_, .string uri)] => some (.object uri)
    | _ => none
  | _ => none

/-- Reads a list of items, or a single item without a list around it. -/
def OneOrMany.ofValue? {α : Type} (item? : Value → Option α) (v : Value) : Option (OneOrMany α) :=
  match v with
  | .array items =>
    match items.mapM item? with
    | some xs => some (.many xs)
    | none => (item? v).map .one
  | v => (item? v).map .one

/-- `null` is the absent value. -/
def optional? {α : Type} (read? : Value → Option α) : Value → Option (Option α)
  | .null => some none
  | v => (read? v).map some

/-- The fields of a filter. -/
inductive FilterField
  | op
  | parameter
  | value
deriving Repr, DecidableEq

/-- How filters are read. -/
def filterForm : RecordForm FilterField where
  name := "ValueFilter"
  fields := [.op, .parameter, .value]
  keys
    | .op => bothKeys "op"
    | .parameter => bothKeys "parameter"
    | .value => bothKeys "value"

/-- The fields of a filter that have been read. -/
structure FilterDraft where
  op : Option FilterOp
  parameter : Option String
  operand : Option String

/-- Reads a filter. -/
def ValueFilter.read (v : Value) : Read ValueFilter := do
  let set (d : FilterDraft) (f : FilterField) (v : Value) : Read FilterDraft :=
    match f with
    | .op => do return { d with op := some (← readVariant FilterOp.all FilterOp.name v) }
    | .parameter => do return { d with parameter := ← readOptional readText v }
    | .value => do return { d with operand := ← readOptional readText v }
  let d ← filterForm.read set ⟨none, none, none⟩ v
  match d.op with
  | some op => return ⟨op, d.parameter, d.operand⟩
  | none => .error (filterForm.missing v .op)

/-! ## Paths -/

/-- The fields of a step with options. -/
inductive HopField
  | uri
  | reverse
  | typeFilter
deriving Repr, DecidableEq

/-- How steps with options are read. -/
def hopForm : RecordForm HopField where
  name := "PathStepObject"
  fields := [.uri, .reverse, .typeFilter]
  keys
    | .uri => ["@id", "id"]
    | .reverse => bothKeys "reverse"
    | .typeFilter => bothKeys "typeFilter"

/-- A flag is off where its field is absent. -/
def flag? : Option Value → Option Bool
  | none => some false
  | some (.bool b) => some b
  | some _ => none

/-- An optional field may be absent or `null`. -/
def field? {α : Type} (read? : Value → Option α) : Option Value → Option (Option α)
  | none => some none
  | some v => optional? read? v

/-- Reads a step with options. -/
def Hop.ofValue? (v : Value) : Option Hop := do
  let field ← hopForm.fields? v
  let uri ← (← field .uri).asString?
  let reverse ← flag? (field .reverse)
  let types ← field? (OneOrMany.ofValue? Reference.ofValue?) (field .typeFilter)
  return ⟨uri, reverse, types⟩

/-- Reads a step, which is a uri or has options. -/
def PathStep.ofValue? : Value → Option PathStep
  | .string uri => some (.bare uri)
  | v => (Hop.ofValue? v).map .hop

/-- Reads a path of one step or several. -/
def pathOfValue? : Value → Option (OneOrMany PathStep) := OneOrMany.ofValue? PathStep.ofValue?

/-- Reads the path of an item alone. -/
def readPath (v : Value) : Read (OneOrMany PathStep) :=
  match pathOfValue? v with
  | some path => .ok path
  | none => .error (.noForm "OneOrMany")

/-! ## Items -/

/-- The fields of an item. -/
inductive ItemField
  | propertyName
  | path
  | items
  | required
  | sort
  | groupBy
  | groupedInstances
  | ensureOrder
  | filter
  | singleValue
deriving Repr, DecidableEq

/-- How items are read. -/
def itemForm : RecordForm ItemField where
  name := "StructureItem"
  fields := [.propertyName, .path, .items, .required, .sort, .groupBy, .groupedInstances,
    .ensureOrder, .filter, .singleValue]
  keys
    | .propertyName => bothKeys "propertyName"
    | .path => bothKeys "path"
    | .items => bothKeys "structure"
    | .required => bothKeys "required"
    | .sort => bothKeys "sort"
    | .groupBy => bothKeys "groupBy"
    | .groupedInstances => bothKeys "groupedInstances"
    | .ensureOrder => bothKeys "ensureOrder"
    | .filter => bothKeys "filter"
    | .singleValue => bothKeys "singleValue"

namespace Item

/-- Joins the fields of an item with its children, which have been read already. -/
def assemble? (v : Value) (children : Option (Option (OneOrMany Item))) : Option Item := do
  let field ← itemForm.fields? v
  let propertyName ← Reference.ofValue? (← field .propertyName)
  let path ← field? pathOfValue? (field .path)
  let children ← children
  let required ← flag? (field .required)
  let sort ← flag? (field .sort)
  let groupBy ← flag? (field .groupBy)
  let groupedInstances ← field? Value.asString? (field .groupedInstances)
  let ensureOrder ← flag? (field .ensureOrder)
  let filter ← field? (fun v => (ValueFilter.read v).toOption) (field .filter)
  let collapse ← field? (fun v => (readVariant Collapse.all Collapse.name v).toOption)
    (field .singleValue)
  return { propertyName, path, children, required, sort, groupBy, groupedInstances, ensureOrder,
           filter, collapse }

mutual

/-- Reads an item with all below it. -/
def ofValue? : Value → Option Item
  | .object entries => assemble? (.object entries) (childrenIn? entries)
  | .array items => assemble? (.array items) (childrenAt? items)
  | _ => none

/-- Items in a list, or one item alone; `null` for none. -/
def children? : Value → Option (Option (OneOrMany Item))
  | .null => some none
  | .array items =>
    match listOf? items with
    | some xs => some (some (.many xs))
    | none => (assemble? (.array items) (childrenAt? items)).map (some ∘ .one)
  | .object entries => (assemble? (.object entries) (childrenIn? entries)).map (some ∘ .one)
  | _ => none

/-- Reads a list of items. -/
def listOf? : List Value → Option (List Item)
  | [] => some []
  | v :: rest => do return (← ofValue? v) :: (← listOf? rest)

/-- Children of an item that is written as an array of its fields. -/
def childrenAt? : List Value → Option (Option (OneOrMany Item))
  | _ :: _ :: v :: _ => children? v
  | _ => some none

/-- Children of an item that is written as an object. -/
def childrenIn? : List (String × Value) → Option (Option (OneOrMany Item))
  | [] => some none
  | (key, v) :: rest =>
    if itemForm.fieldOf? key = some .items then children? v else childrenIn? rest

end

end Item

/-! ## Header and query -/

/-- The fields of a header. -/
inductive HeaderField
  | type
  | responseVocab
  | filter
  | name
deriving Repr, DecidableEq

/-- How headers are read. -/
def headerForm : RecordForm HeaderField where
  name := "QueryMeta"
  fields := [.type, .responseVocab, .filter, .name]
  keys
    | .type => bothKeys "type"
    | .responseVocab => bothKeys "responseVocab"
    | .filter => bothKeys "filter"
    | .name => bothKeys "name"

/-- The header in which nothing is given. -/
def Header.empty : Header := ⟨none, none, none, none⟩

def Reference.read (v : Value) : Read Reference :=
  match Reference.ofValue? v with
  | some r => .ok r
  | none => .error (.noForm "IdRef")

/-- Reads a header. -/
def Header.read (v : Value) : Read Header :=
  let set (h : Header) (f : HeaderField) (v : Value) : Read Header :=
    match f with
    | .type => do return { h with rootType := ← readOptional Reference.read v }
    | .responseVocab => do return { h with vocabulary := ← readOptional readText v }
    | .filter => do return { h with filter := ← readOptional ValueFilter.read v }
    | .name => do return { h with title := ← readOptional readText v }
  headerForm.read set Header.empty v

/-- The fields of a query. -/
inductive QueryField
  | header
  | items
deriving Repr, DecidableEq

/-- How queries are read. -/
def queryForm : RecordForm QueryField where
  name := "QuerySpecification"
  fields := [.header, .items]
  keys
    | .header => bothKeys "meta"
    | .items => bothKeys "structure"

/-- Reads a query, which may lack what a complete one needs. -/
def Query.read (v : Value) : Read Query :=
  let set (q : Query) (f : QueryField) (v : Value) : Read Query :=
    match f with
    | .header => do return { q with header := ← readOptional Header.read v }
    | .items =>
      match Item.children? v with
      | some items => .ok { q with structured := items }
      | none => .error (.noForm "OneOrMany")
  queryForm.read set ⟨none, none⟩ v

/-! ## Completeness -/

/-- Why a value is no complete query. -/
inductive QueryFault
  | empty
  | malformed (fault : Fault)
  | missingHeader
  | missingType
  | missingStructure
deriving Repr

/-- The words in which a client learns of it. -/
def QueryFault.message : QueryFault → String
  | empty => "The provided query is empty"
  | malformed fault => "malformed query: " ++ fault.message
  | missingHeader => "The query provided is missing a value for meta"
  | missingType => "The query provided is missing type in meta"
  | missingStructure => "The query provided is missing structure"

namespace Query

/-- A query has a header that says something, a root type and at least one item. -/
def check (q : Query) : Except QueryFault Unit := do
  let header := q.header.getD Header.empty
  if header = Header.empty then throw .missingHeader
  match header.rootType with
  | some type => if Text.allBlank type.uri then throw .missingType
  | none => throw .missingType
  if q.items.isEmpty then throw .missingStructure

/-- Reads a complete query: one with a header, a type in it and a structure. -/
def ofValue (v : Value) : Except QueryFault Query :=
  match v with
  | .object (_ :: _) => do
    let q ← (Query.read v).mapError .malformed
    q.check
    return q
  | _ => .error .empty

end Query

end GraphQuery
