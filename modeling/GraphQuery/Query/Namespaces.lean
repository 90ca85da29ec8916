import GraphQuery.Dictionary
import GraphQuery.Query.Basic
import GraphQuery.Text.Cut

/-!
# GraphQuery.Query.Namespaces — namespaces of uris

1. **Namespace** of a uri: the part before its last slash.
2. **Uris** of a query: its root type, the steps of its paths and their types.
3. **Abbreviation**: the first namespace of a map, in key order, that a uri continues after a
   slash is replaced by its short form.
-/

namespace GraphQuery

/-- The part before the last slash, unless it is empty. -/
def namespaceOf (uri : String) : Option String :=
  match Text.beforeLast? '/' uri with
  | some space => if space.isEmpty then none else some space
  | none => none

/-- Short forms by namespace. -/
abbrev Abbreviations := Dictionary String

/-- A uri in which the first namespace that fits is replaced by its abbreviation. -/
def Abbreviations.apply : Abbreviations → String → String
  | [], uri => uri
  | (space, short) :: rest, uri =>
    match Text.dropLeading? (space ++ "/") uri with
    | some name => short ++ name
    | none => Abbreviations.apply rest uri

/-! ## Paths -/

/-- All uris in a step: its own and those of its types. -/
def Step.uris (s : Step) : List String := s.uri :: s.types

/-- Applies a function to all uris in a step of a path. -/
def PathStep.mapUri (f : String → String) : PathStep → PathStep
  | bare uri => bare (f uri)
  | hop h => hop { h with uri := f h.uri, types := h.types.map (·.map (·.mapUri f)) }

/-! ## Items -/

namespace Item

mutual

/-- All uris in the paths of an item and of the items below it. -/
def uris : Item → List String
  | ⟨_, path, children, _, _, _, _, _, _, _⟩ =>
    (plainPath path).flatMap Step.uris ++ childUris children

def childUris : Option (OneOrMany Item) → List String
  | none => []
  | some (.one child) => uris child
  | some (.many children) => urisOf children

def urisOf : List Item → List String
  | [] => []
  | i :: rest => uris i ++ urisOf rest

end

mutual

/-- Applies a function to all uris in the paths of an item and of the items below it. -/
def mapUri (f : String → String) : Item → Item
  | i@⟨_, path, children, _, _, _, _, _, _, _⟩ =>
    { i with
      path := path.map (·.map (·.mapUri f))
      children := mapChildren f children }

def mapChildren (f : String → String) : Option (OneOrMany Item) → Option (OneOrMany Item)
  | none => none
  | some (.one child) => some (.one (mapUri f child))
  | some (.many children) => some (.many (mapItems f children))

def mapItems (f : String → String) : List Item → List Item
  | [] => []
  | i :: rest => mapUri f i :: mapItems f rest

end

end Item

/-! ## Queries -/

namespace Query

/-- All uris in a query. -/
def uris (q : Query) : List String :=
  (q.rootType?.map Reference.uri).toList ++ Item.urisOf q.items

/-- The namespaces of the uris in a query, each of them once. -/
def namespaces (q : Query) : Names := Names.ofList (q.uris.filterMap namespaceOf)

/-- Applies a function to all uris in a query. -/
def mapUri (f : String → String) (q : Query) : Query where
  header := q.header.map fun h => { h with rootType := h.rootType.map (·.mapUri f) }
  structured := Item.mapChildren f q.structured

/-- A query in which namespaces are abbreviated. -/
def abbreviate (short : Abbreviations) (q : Query) : Query := q.mapUri short.apply

end Query

end GraphQuery
