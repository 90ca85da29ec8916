import GraphQuery.Dictionary
import GraphQuery.Json.Record
import GraphQuery.Uuid

/-!
# GraphQuery.Scope.Element — trees of instances

1. **Elements**: an instance with what is known about it, and the instances below it. An element
   without children has none, rather than an empty list of them.
2. **Views** of a tree: its elements in pre-order, its ids, its ids by type.
3. **Merging** of elements with one id, on every level of a tree.
4. **Claiming**: every id is kept at its first place in pre-order.
5. **Reading and writing** as JSON.
-/

namespace GraphQuery

open Json

/-- An instance in a scope, with the instances below it. No list of children differs from an empty
one. -/
structure Element where
  id : Uuid
  types : List String
  label : Option String
  children : Option (List Element)
  /-- Where the backend keeps the document. -/
  reference : Option String
  space : Option String
deriving Repr

namespace Element

/-- An element without anything below it. -/
def leaf (id : Uuid) (types : List String) : Element := ⟨id, types, none, none, none, none⟩

/-- The children, be there a list of them or not. -/
def childList (e : Element) : List Element := e.children.getD []

/-- Adds children after those that are there. -/
def addChildren (e : Element) (cs : List Element) : Element :=
  if cs.isEmpty then e else { e with children := some (e.childList ++ cs) }

/-- A list of children as an element holds it. -/
def unlessEmpty (cs : List Element) : Option (List Element) := if cs.isEmpty then none else some cs

/-! ## Equality -/

mutual

/-- Equality of elements, with all that is below them. -/
def same : Element → Element → Bool
  | ⟨id, types, label, children, reference, space⟩,
    ⟨id', types', label', children', reference', space'⟩ =>
    id = id' && types == types' && label == label' && sameChildren children children' &&
      reference == reference' && space == space'

def sameChildren : Option (List Element) → Option (List Element) → Bool
  | none, none => true
  | some a, some b => sameAll a b
  | _, _ => false

def sameAll : List Element → List Element → Bool
  | [], [] => true
  | a :: as, b :: bs => same a b && sameAll as bs
  | _, _ => false

end

instance : BEq Element := ⟨same⟩

/-! ## Views -/

mutual

/-- The element and all below it, in pre-order. -/
def subtree : Element → List Element
  | e@⟨_, _, _, none, _, _⟩ => [e]
  | e@⟨_, _, _, some children, _, _⟩ => e :: subtrees children

/-- All elements of trees, in pre-order. -/
def subtrees : List Element → List Element
  | [] => []
  | e :: rest => subtree e ++ subtrees rest

end

mutual

/-- Number of levels of a tree. -/
def height : Element → Nat
  | ⟨_, _, _, none, _, _⟩ => 1
  | ⟨_, _, _, some children, _, _⟩ => heights children + 1

/-- Number of levels of the tallest tree. -/
def heights : List Element → Nat
  | [] => 0
  | e :: rest => max (height e) (heights rest)

end

/-- The ids in a tree, each of them once. -/
def ids (e : Element) : List Uuid := Uuid.setOf (e.subtree.map Element.id)

/-- Ids of the tree by type; an element with several types is listed under each. -/
def byType (e : Element) : Dictionary (List Uuid) :=
  let listed := e.subtree.flatMap fun x => x.types.map (·, x.id)
  listed.foldl
    (fun (d : Dictionary (List Uuid)) (type, id) => d.insert type (id.insertInto ((d.get? type).getD [])))
    []

mutual

/-- Applies a function to the own data of every element; it must not look at the children. -/
def mapAll (f : Element → Element) : Element → Element
  | e@⟨_, _, _, none, _, _⟩ => f e
  | e@⟨_, _, _, some children, _, _⟩ => { f e with children := some (mapEach f children) }

def mapEach (f : Element → Element) : List Element → List Element
  | [] => []
  | e :: rest => mapAll f e :: mapEach f rest

end

/-! ## Merging -/

/-- What one element knows, completed by another. Types and children of both are kept. -/
def merge (a b : Element) : Element :=
  { a with
    types := b.types.foldl (fun ts t => if ts.contains t then ts else ts ++ [t]) a.types
    label := a.label.or b.label
    reference := a.reference.or b.reference
    space := a.space.or b.space }.addChildren b.childList

/-- Merges an element into the one with its id, or puts it after the others. -/
def mergeInto (es : List Element) (e : Element) : List Element :=
  if es.any (·.id = e.id) then es.map fun x => if x.id = e.id then x.merge e else x
  else es ++ [e]

/-- Merges the elements of `levels` levels; the rest of a tree stays as it is. -/
def mergeLevels : Nat → List Element → List Element
  | 0, es => es
  | levels + 1, es =>
    (es.foldl mergeInto []).map fun e =>
      { e with children := e.children.bind fun cs => unlessEmpty (mergeLevels levels cs) }

/-- Merges elements that share an id, on every level. Merging makes no tree taller, so the height
tells how many levels there are. -/
def mergeSameLevel (es : List Element) : List Element := mergeLevels (heights es) es

/-! ## Claiming -/

mutual

/-- Keeps an element that is not claimed yet, and gives the ids claimed after it. -/
def claimTree (claimed : List Uuid) : Element → Option Element × List Uuid
  | ⟨id, types, label, children, reference, space⟩ =>
    if claimed.contains id then (none, claimed)
    else
      let (below, claimed) := claimChildren (claimed ++ [id]) children
      (some ⟨id, types, label, below, reference, space⟩, claimed)

def claimChildren (claimed : List Uuid) : Option (List Element) → Option (List Element) × List Uuid
  | none => (none, claimed)
  | some children =>
    let (kept, claimed) := claim claimed children
    (unlessEmpty kept, claimed)

/-- Keeps the elements that are not claimed yet, and gives the ids claimed after them. -/
def claim (claimed : List Uuid) : List Element → List Element × List Uuid
  | [] => ([], claimed)
  | e :: rest =>
    let (kept, claimed) := claimTree claimed e
    let (others, claimed) := claim claimed rest
    (kept.toList ++ others, claimed)

end

/-! ## Reading and writing -/

/-- The fields of an element. -/
inductive Field
  | id
  | types
  | label
  | children
  | internalReference
  | space
deriving Repr, DecidableEq

/-- How elements are read. -/
def form : RecordForm Field where
  name := "ScopeElement"
  fields := [.id, .types, .label, .children, .internalReference, .space]
  keys
    | .id => ["id"]
    | .types => ["types"]
    | .label => ["label"]
    | .children => ["children"]
    | .internalReference => ["internalReference"]
    | .space => ["space"]

def text? : Option Value → Option (Option String)
  | none | some .null => some none
  | some (.string s) => some (some s)
  | some _ => none

/-- Joins the fields of an element with its children, which have been read already. -/
def assemble? (v : Value) (children : Option (Option (List Element))) : Option Element := do
  let field ← form.fields? v
  let id ← (← (← field .id).asString?) |> Uuid.ofText?
  let types ← match ← field .types with
    | .array items => items.mapM Value.asString?
    | _ => none
  let label ← text? (field .label)
  let children ← children
  let reference ← text? (field .internalReference)
  let space ← text? (field .space)
  return ⟨id, types, label, children, reference, space⟩

mutual

/-- Reads an element with all below it. -/
def ofValue? : Value → Option Element
  | .object entries => assemble? (.object entries) (childrenIn? entries)
  | .array items => assemble? (.array items) (childrenAt? items)
  | _ => none

def ofValues? : List Value → Option (List Element)
  | [] => some []
  | v :: rest => do return (← ofValue? v) :: (← ofValues? rest)

def children? : Value → Option (Option (List Element))
  | .null => some none
  | .array items => (ofValues? items).map some
  | _ => none

/-- Children of an element that is written as an array of its fields. -/
def childrenAt? : List Value → Option (Option (List Element))
  | _ :: _ :: _ :: v :: _ => children? v
  | _ => some none

def childrenIn? : List (String × Value) → Option (Option (List Element))
  | [] => some none
  | (key, v) :: rest => if key = "children" then children? v else childrenIn? rest

end

def textEntry (key : String) (s : Option String) : List (String × Value) :=
  (s.map fun s => (key, Value.string s)).toList

mutual

/-- Absent data are left out. -/
def toValue : Element → Value
  | ⟨id, types, label, children, reference, space⟩ =>
    .object <| [("id", .string id.text), ("types", .strings types)] ++ textEntry "label" label ++
      childrenEntry children ++ textEntry "internalReference" reference ++ textEntry "space" space

def childrenEntry : Option (List Element) → List (String × Value)
  | none => []
  | some children => [("children", .array (toValues children))]

def toValues : List Element → List Value
  | [] => []
  | e :: rest => toValue e :: toValues rest

end

end Element

end GraphQuery
