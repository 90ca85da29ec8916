/-!
# GraphQuery.Query.Basic — queries as clients write them

1. **References and lists**: a uri may stand bare or in an object, an item alone or in a list. The
   written form is kept, so that a query can be written back as it was.
2. **Filters** on a property or on the root document.
3. **Paths** of steps, and the plain form of a path.
4. **Queries**: a header and a tree of items.
-/

namespace GraphQuery

/-! ## References and lists -/

/-- A uri, by itself or in an object. -/
inductive Reference
  | bare (uri : String)
  | object (uri : String)
deriving Repr, DecidableEq

namespace Reference

/-- The uri that is referred to. -/
def uri : Reference → String
  | bare uri | object uri => uri

/-- Applies a function to the uri. -/
def mapUri (f : String → String) : Reference → Reference
  | bare uri => bare (f uri)
  | object uri => object (f uri)

end Reference

/-- A list, or a single item without a list around it. -/
inductive OneOrMany (α : Type) where
  | many (items : List α)
  | one (item : α)
deriving Repr, DecidableEq

namespace OneOrMany

variable {α β : Type}

/-- The items, be they in a list or not. -/
def toList : OneOrMany α → List α
  | many items => items
  | one item => [item]

/-- Applies a function to all items. -/
def map (f : α → β) : OneOrMany α → OneOrMany β
  | many items => many (items.map f)
  | one item => one (f item)

end OneOrMany

/-! ## Filters -/

/-- How a filter compares a value with its operand. -/
inductive FilterOp
  /-- The value is null, the empty string or the empty list. -/
  | isEmpty
  | startsWith
  | endsWith
  | contains
  | equals
  /-- The operand is a regular expression with a match somewhere in the value. -/
  | regex
deriving Repr, DecidableEq

namespace FilterOp

/-- The comparisons, in the order in which messages name them. -/
def all : List FilterOp := [isEmpty, startsWith, endsWith, contains, equals, regex]

/-- The name of a comparison in a query. -/
def name : FilterOp → String
  | isEmpty => "IS_EMPTY"
  | startsWith => "STARTS_WITH"
  | endsWith => "ENDS_WITH"
  | contains => "CONTAINS"
  | equals => "EQUALS"
  | regex => "REGEX"

end FilterOp

/-- A comparison with an operand: the one a request gives for `parameter`, else `operand`. -/
structure ValueFilter where
  op : FilterOp
  parameter : Option String
  operand : Option String
deriving Repr, DecidableEq

/-- How the values of a leaf become one value. -/
inductive Collapse
  | first
  | concat
deriving Repr, DecidableEq

namespace Collapse

def all : List Collapse := [first, concat]

/-- The name of a collapse in a query. -/
def name : Collapse → String
  | first => "FIRST"
  | concat => "CONCAT"

end Collapse

/-! ## Paths -/

/-- A step of a path with its options. -/
structure Hop where
  uri : String
  reverse : Bool
  types : Option (OneOrMany Reference)
deriving Repr, DecidableEq

/-- A step of a path, as a uri or with a direction and types. -/
inductive PathStep
  | bare (uri : String)
  | hop (hop : Hop)
deriving Repr, DecidableEq

/-- A step in plain form; no types means that any type will do. -/
structure Step where
  uri : String
  reverse : Bool
  types : List String
deriving Repr, DecidableEq

/-- A step with its defaults filled in. -/
def PathStep.plain : PathStep → Step
  | bare uri => ⟨uri, false, []⟩
  | hop h => ⟨h.uri, h.reverse, (h.types.map fun ts => ts.toList.map Reference.uri).getD []⟩

/-- The steps of a path that is a list, a single step or absent. -/
def plainPath (path : Option (OneOrMany PathStep)) : List Step :=
  (path.map fun p => p.toList.map PathStep.plain).getD []

/-! ## Queries -/

/-- One column of the rows of a query. -/
structure Item where
  propertyName : Reference
  path : Option (OneOrMany PathStep)
  children : Option (OneOrMany Item)
  required : Bool
  sort : Bool
  groupBy : Bool
  groupedInstances : Option String
  ensureOrder : Bool
  filter : Option ValueFilter
  collapse : Option Collapse
deriving Repr

/-- What a query says about itself. -/
structure Header where
  rootType : Option Reference
  vocabulary : Option String
  filter : Option ValueFilter
  title : Option String
deriving Repr, DecidableEq

/-- A query as a client submits it. -/
structure Query where
  header : Option Header
  structured : Option (OneOrMany Item)
deriving Repr

namespace Query

/-- The columns of a query, be they in a list or not. -/
def items (q : Query) : List Item := (q.structured.map OneOrMany.toList).getD []

/-- The type whose instances a query asks for. -/
def rootType? (q : Query) : Option Reference := q.header.bind Header.rootType

end Query

end GraphQuery
