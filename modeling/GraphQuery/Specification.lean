import GraphQuery.Query.Basic
import GraphQuery.Text.Safe

/-!
# GraphQuery.Specification — interpreted queries

1. **Properties** form a tree. Each has a number of its own, counted in pre-order.
2. **Names** derived from a property: its alias in statements and its key in results.
3. **Shape**: leaves, merge nodes, traversals, groupings.
4. **Levels**: a merge node stands for its children, in results as in sort orders.
-/

namespace GraphQuery

/-- A column of the result, its defaults filled in. -/
structure Property where
  name : String
  path : List Step
  children : List Property
  required : Bool
  sort : Bool
  groupBy : Bool
  ensureOrder : Bool
  groupedInstances : Option String
  filter : Option ValueFilter
  collapse : Option Collapse
  /-- Place in the pre-order of the whole tree. -/
  index : Nat
deriving Repr

namespace Property

/-! ## Names -/

/-- The name of a property in statements. Its number keeps it apart from all others. -/
def aliasName (p : Property) : String := Text.word p.name ++ "_" ++ toString p.index

/-- The name of a property's groups in statements. -/
def groupAlias (p : Property) : String := p.aliasName ++ "_grp"

/-- Key of the property in result objects. -/
def key (p : Property) : String := Text.safe p.name

/-! ## Shape -/

/-- Whether nothing stands below a property. -/
def isLeaf (p : Property) : Bool := p.children.isEmpty

/-- An attribute of the document at hand. -/
def isDirect (p : Property) : Bool := p.isLeaf && p.path.length < 2

/-- A node without path, whose children belong to the level of the node. -/
def isMerge (p : Property) : Bool := p.path.isEmpty && !p.isLeaf

/-- Whether a property needs more than an attribute of the document at hand. -/
def needsTraversal (p : Property) : Bool := !p.isLeaf || p.path.length > 1

/-- Groups need a key for their members and at least one child to group by. -/
def hasGrouping (p : Property) : Bool :=
  (p.groupedInstances.any fun key => !key.isEmpty) && p.children.any groupBy

/-- Children to group by, as groups are sorted: those marked `sort` first. -/
def groupSortKeys (p : Property) : List Property :=
  let keys := p.children.filter groupBy
  keys.filter sort ++ keys.filter fun c => !c.sort

/-- Children by which the members of a group are sorted. -/
def memberSortKeys (p : Property) : List Property :=
  p.children.filter fun c => !c.groupBy && c.sort

/-- The attribute that a leaf reads from the last document of its path. -/
def leafStep? (p : Property) : Option Step := if p.isLeaf then p.path.getLast? else none

/-- Steps that follow an edge. -/
def edgeSteps (p : Property) : List Step := if p.isLeaf then p.path.dropLast else p.path

/-! ## Trees -/

mutual

/-- The property and all below it, in pre-order. -/
def subtree : Property → List Property
  | p@⟨_, _, children, _, _, _, _, _, _, _, _⟩ => p :: subtrees children

/-- Properties with all that stands below them, in pre-order. -/
def subtrees : List Property → List Property
  | [] => []
  | p :: rest => subtree p ++ subtrees rest

end

/-! ## Levels -/

mutual

/-- The properties that stand for a property on its level. -/
def expand : Property → List Property
  | p@⟨_, path, children, _, _, _, _, _, _, _, _⟩ =>
    if path.isEmpty && !children.isEmpty then level children else [p]

/-- The properties of a level, with the children of merge nodes in their places. -/
def level : List Property → List Property
  | [] => []
  | p :: rest => expand p ++ level rest

end

end Property

/-- A query as the compiler sees it. -/
structure Specification where
  properties : List Property
  documentFilter : Option ValueFilter
  rootType : String
  vocabulary : Option String
deriving Repr

namespace Specification

/-- All properties of a specification, in pre-order. -/
def allProperties (s : Specification) : List Property := Property.subtrees s.properties

/-- Relations that the specification follows, in pre-order. -/
def relations (s : Specification) : List String :=
  s.allProperties.flatMap fun p => p.edgeSteps.map Step.uri

end Specification

end GraphQuery
