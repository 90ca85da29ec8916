/-!
# GraphQuery.Collection — collections of documents and edges

A collection is named after the space or the relation that it stores. Its name is spliced into
statement text, so characters other than ASCII letters, digits, underscores and dashes become
underscores; different relations can therefore share one collection.
-/

namespace GraphQuery

/-- A collection of documents or edges, by its name. -/
structure Collection where
  name : String
  edge : Bool
deriving Repr, DecidableEq

namespace Collection

def isNameChar (c : Char) : Bool := c.isAlphanum || c == '_' || c == '-'

/-- A text in which all but letters, digits, underscores and dashes are replaced by underscores. -/
def nameOf (s : String) : String := s.map fun c => if isNameChar c then c else '_'

/-- The collection of the documents in a space. -/
def ofSpace (space : String) : Collection := ⟨nameOf space, false⟩

/-- The collection of the edges of a relation. -/
def ofRelation (relation : String) : Collection := ⟨nameOf relation, true⟩

/-- By name; of one name the document collection comes first. -/
def before (a b : Collection) : Bool := a.name < b.name || (a.name == b.name && !a.edge && b.edge)

/-- Inserts into a set of collections kept in order. -/
def insertInto (c : Collection) : List Collection → List Collection
  | [] => [c]
  | d :: rest => if before c d then c :: d :: rest else if c = d then d :: rest else d :: insertInto c rest

/-- The collections in order, without repetition. -/
def setOf (cs : List Collection) : List Collection := cs.foldl (fun s c => insertInto c s) []

end Collection

end GraphQuery
