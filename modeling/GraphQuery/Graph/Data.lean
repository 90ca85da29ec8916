import GraphQuery.Collection
import GraphQuery.Json.Order
import GraphQuery.Uuid

/-!
# GraphQuery.Graph.Data — documents and edges of a stage

1. **Documents** with their attributes, and **edges** between them.
2. **Data** of a stage: both in the order of their insertion. A document that is given again
   replaces the last one with its id, in its place.
3. **Links** get the number of edges that their source has for the relation already.
-/

namespace GraphQuery

open Json

/-- An instance of the graph, as a stage holds it. -/
structure Document where
  id : Uuid
  space : String
  types : List String
  label : Option String
  properties : Row
deriving Repr

namespace Document

/-- Whether a type is among those of a document. -/
def hasType (d : Document) (type : String) : Bool := d.types.contains type

/-- Value of an attribute. Those of the system can be hidden by properties of their name. -/
def valueOf (d : Document) (key : String) : Value :=
  match d.properties.get? key with
  | some v => v
  | none =>
    match key with
    | "@id" | "_key" => .string d.id.text
    | "@type" => .strings d.types
    | "_id" => .string (InstanceId.text ⟨d.id, d.space⟩)
    | "_space" => .string d.space
    | "_label" => .ofOption .string d.label
    | _ => .null

end Document

/-- A relation between two documents, with a number for its place among those of its source. -/
structure Edge where
  source : Uuid
  target : Uuid
  relation : String
  /-- Place among the edges of an ordered traversal. -/
  order : Int
deriving Repr, DecidableEq

/-- The documents and edges of one stage. -/
structure StageData where
  documents : List Document
  edges : List Edge
deriving Repr

namespace StageData

def empty : StageData := ⟨[], []⟩

/-- The document with an id; the last one, if several were loaded with it. -/
def get? (d : StageData) (id : Uuid) : Option Document :=
  d.documents.reverse.find? fun doc => doc.id = id

/-- Replaces the first document with the id. -/
def replaceFirst (doc : Document) : List Document → List Document
  | [] => []
  | d :: rest => if d.id = doc.id then doc :: rest else d :: replaceFirst doc rest

/-- Stores a document, which replaces one with the same id. -/
def insert (d : StageData) (doc : Document) : StageData :=
  if (d.get? doc.id).isSome then
    { d with documents := (replaceFirst doc d.documents.reverse).reverse }
  else { d with documents := d.documents ++ [doc] }

/-- Adds an edge, whose number is the count of those with its source and relation. -/
def link (d : StageData) (source : Uuid) (relation : String) (target : Uuid) : StageData :=
  let earlier := d.edges.filter fun e => e.source = source && e.relation == relation
  { d with edges := d.edges ++ [⟨source, target, relation, earlier.length⟩] }

/-- The spaces of the documents. -/
def spaces (d : StageData) : Names := Names.ofList (d.documents.map Document.space)

/-- Collections of the stored documents and edges. -/
def collections (d : StageData) : List Collection :=
  Collection.setOf (d.documents.map (fun doc => .ofSpace doc.space) ++
    d.edges.map fun e => .ofRelation e.relation)

end StageData

end GraphQuery
