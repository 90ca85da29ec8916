import GraphQuery.Plan
import GraphQuery.Statement

/-!
# GraphQuery.Statement.Aql — plans as AQL

1. **Guards**: every document variable is tested right after it is introduced.
2. **Values**: where a statement finds the value of a property.
3. **Filters**: required properties and conditions become filters on the document at hand.
4. **Results**: one object per document.
5. **Groupings** of a traversed property.
6. **Traversals**: a property with edges becomes a list, with one sub-query per hop, each nested in
   the one before. An optional property without matches leaves its document in place.
7. **Statements**: root selection, then the parts above, then the projection.
-/

namespace GraphQuery.Aql

open Json

/-- Collection of the documents that stand for types. -/
def typeCollection : String := "types"

/-- Edges from a type to its instances. -/
def typeRelation : String := "typeOf"

/-- An attribute of a document. The key is quoted, whatever it holds. -/
def attr (doc : Fragment) (key : String) : Fragment :=
  doc ++ lit ".`" ++ named key ++ lit "`"

/-- A key in an object. -/
def quotedKey (key : String) : Fragment := lit "\"" ++ named key ++ lit "\""

def comma (fs : List Fragment) : Fragment := Fragment.join ", " fs

/-- The names of the collections for some spaces. -/
def spaceCollections (spaces : Names) : Value :=
  .strings (spaces.map fun s => (Collection.ofSpace s).name)

/-! ## Guards -/

/-- The tests of a document: that it is there, that it may be seen, and that its space is asked
for. -/
def guards (plan : Plan) (doc : Fragment) : Script :=
  [.line (lit "FILTER " ++ doc ++ lit " != NULL")] ++
  (match plan.access with
    | some _ => [.line (lit "FILTER PARSE_IDENTIFIER(" ++ doc ++
        lit ").collection IN whitelist OR HAS(invitation, " ++ doc ++ lit "._key)")]
    | none => []) ++
  (match plan.spaces with
    | some spaces => [.line (lit "FILTER PARSE_IDENTIFIER(" ++ doc ++ lit ").collection IN " ++
        bound "spaceRestriction" (spaceCollections spaces))]
    | none => [])

/-! ## Values -/

/-- The value of a property at a document: an attribute, or the variable of the list for it. -/
def value (doc : Fragment) (p : Property) : Fragment :=
  if p.isDirect then
    match p.leafStep? with
    | some step => attr doc step.uri
    | none => lit "null"
  else if p.hasGrouping then named p.groupAlias
  else named p.aliasName

/-! ## Filters -/

/-- A test of a field, passed by a list if an item passes it. -/
def comparison (field : Fragment) (op : String) (c : Condition) (operand : Option String) :
    Fragment :=
  let test := lit op ++ bound c.bindName (.ofOption .string operand)
  lit "(IS_ARRAY(" ++ field ++ lit ") ? LENGTH(" ++ field ++ lit "[* FILTER CURRENT" ++ test ++
    lit "]) > 0 : " ++ field ++ test ++ lit ")"

/-- The test of a condition. -/
def condition (field : Fragment) (c : Condition) : Fragment :=
  match c.op with
  | .isEmpty => lit "(" ++ field ++ lit " == NULL OR " ++ field ++ lit " == \"\" OR " ++ field ++
      lit " == [])"
  | .equals => comparison field " == " c c.operand
  | .regex => comparison field " =~ " c c.operand
  | .startsWith | .endsWith | .contains => comparison field " LIKE " c c.likePattern

/-- The filters of one property. -/
def filtersOf (plan : Plan) (doc : Fragment) (p : Property) : Script :=
  let field := value doc p
  (if p.required then
    [.line (lit "FILTER " ++ field ++ lit " != NULL AND " ++ field ++ lit " != \"\" AND " ++ field ++
      lit " != []")]
  else []) ++
  (match plan.condition? p with
    | some c => [.line (lit "FILTER " ++ condition field c)]
    | none => [])

/-- The filters of a level of properties, where merge nodes give way to what is below them. -/
def filters (plan : Plan) (doc : Fragment) (ps : List Property) : Script :=
  (Property.level ps).flatMap (filtersOf plan doc)

/-! ## Results -/

/-- Entries of an object, one a line, with commas between them. -/
def entries : List Fragment → Script
  | [] => []
  | [f] => [.line f]
  | f :: rest => .line (f ++ lit ",") :: entries rest

/-- Projection to an object. A nested object without any value is left out. -/
def result (doc : Fragment) (ps : List Property) (nested : Bool) : Script :=
  let fields := (Property.level ps).map fun p => (p.key, value doc p)
  let present (f : String × Fragment) : Fragment :=
    lit "(" ++ f.2 ++ lit " != NULL AND " ++ f.2 ++ lit " != [])"
  (if nested && !fields.isEmpty then
    [.line (lit "FILTER " ++ Fragment.join " OR " (fields.map present))]
  else []) ++
  [.line (lit (if nested then "RETURN DISTINCT \x7b" else "RETURN \x7b")), .indent] ++
  entries (fields.map fun (key, field) => quotedKey key ++ lit ": " ++ field) ++
  [.outdent, .line (lit "\x7d")]

/-! ## Groupings -/

/-- Collects the objects of a property by its keys; the members of a group keep the other fields. -/
def grouping (p : Property) : Script :=
  let item := named (p.aliasName ++ "_g")
  let inner := named (p.aliasName ++ "_gi")
  let group := named (p.aliasName ++ "_group")
  let keys := (p.children.filter Property.groupBy).zipIdx.map fun (c, i) =>
    (c, named (p.aliasName ++ "_k" ++ toString i))
  let sortedKeys := keys.filter (·.1.sort) ++ keys.filter fun k => !k.1.sort
  let rest := p.children.filter fun c => !c.groupBy
  let memberOrder := p.memberSortKeys.map fun c => attr inner c.key ++ lit " ASC"
  [.line (lit "LET " ++ named p.groupAlias ++ lit " = ("), .indent,
   .line (lit "FOR " ++ item ++ lit " IN " ++ named p.aliasName),
   .line (lit "COLLECT " ++
     comma (keys.map fun (c, k) => k ++ lit " = " ++ attr item c.key) ++
     lit " INTO " ++ group)] ++
  (if keys.any (·.1.sort) then
    [.line (lit "SORT " ++ comma (sortedKeys.map fun (_, k) => k ++ lit " ASC"))]
  else []) ++
  [.line (lit "LET instances = (FOR " ++ inner ++ lit " IN " ++ group ++ lit "[*]." ++ item ++
     (if memberOrder.isEmpty then [] else lit " SORT " ++ comma memberOrder) ++
     lit " RETURN \x7b " ++
     comma (rest.map fun c => quotedKey c.key ++ lit ": " ++ attr inner c.key) ++
     lit " \x7d)"),
   .line (lit "RETURN \x7b " ++
     comma ((keys.map fun (c, k) => quotedKey c.key ++ lit ": " ++ k) ++
       [quotedKey (p.groupedInstances.getD "") ++ lit ": instances"]) ++
     lit " \x7d"),
   .outdent, .line (lit ")")]

/-! ## Traversals -/

/-- Name of the list that the hop with the given number fills. -/
def stepAlias (p : Property) (hop : Nat) : String :=
  if hop = 0 then p.aliasName else p.aliasName ++ "_s" ++ toString hop

/-- The variable of the document to which a hop leads. -/
def hopDoc (p : Property) (hop : Nat) : Fragment := named (stepAlias p hop ++ "_doc")

/-- The variable of the edge that a hop takes. -/
def hopEdge (p : Property) (hop : Nat) : Fragment := named (stepAlias p hop ++ "_edge")

/-- The variable by which a list is sorted. -/
def sortVariable (p : Property) : Fragment := named (p.aliasName ++ "_sort")

/-- What the outermost list of a property is wrapped in. -/
def opening (p : Property) : Fragment :=
  (match p.collapse with
    | some .first => lit "FIRST("
    | some .concat => lit "CONCAT_SEPARATOR(\", \", "
    | none => []) ++
  (if p.sort then lit "(FOR " ++ sortVariable p ++ lit " IN " else [])

/-- What closes the wrapping of a property's outermost list. -/
def closing (p : Property) : Script :=
  (if p.sort then
    [.add (lit " SORT " ++ sortVariable p ++ lit " ASC RETURN " ++ sortVariable p ++ lit ")")]
  else []) ++
  (if p.collapse.isSome then [.add (lit ")")] else [])

/-- Without an order to keep, repetitions are dropped. -/
def projectionStart (p : Property) : Fragment :=
  lit (if p.ensureOrder then "RETURN " else "RETURN DISTINCT ")

/-- Opens the sub-query of one hop, which starts from the document of the hop before. -/
def openHop (plan : Plan) (p : Property) (parent : Fragment) (hop : Nat) (step : Step) : Script :=
  let doc := hopDoc p hop
  let source := if hop = 0 then parent else hopDoc p (hop - 1)
  [.line (lit "LET " ++ named (stepAlias p hop) ++ lit " = " ++
     (if hop = 0 then opening p else []) ++
     lit (if p.ensureOrder then "FLATTEN(" else "UNIQUE(FLATTEN(")),
   .indent] ++
  (if plan.edgeExists step then
    [.line (lit "FOR " ++ doc ++ (if p.ensureOrder then lit ", " ++ hopEdge p hop else []) ++
      lit " IN 1..1" ++ lit (if step.reverse then " INBOUND " else " OUTBOUND ") ++ source ++
      lit " `" ++ named (Collection.ofRelation step.uri).name ++ lit "`")]
  else [.line (lit "FOR " ++ doc ++ lit " IN []")]) ++
  guards plan doc ++
  (if step.types.isEmpty then []
  else [.line (lit "FILTER " ++ bound (stepAlias p hop ++ "_types") (.strings step.types) ++
    lit " ANY IN " ++ attr doc "@type")]) ++
  (if p.ensureOrder && plan.edgeExists step then
    [.line (lit "SORT " ++ hopEdge p hop ++ lit "._orderNumber ASC")]
  else [])

/-- Closes the sub-query of one hop; all but the first hand their list to the hop before. -/
def closeHop (p : Property) (hop : Nat) : Script :=
  [.outdent, .line (lit (if p.ensureOrder then ")" else "))"))] ++
  (if hop = 0 then [] else [.line (projectionStart p ++ named (stepAlias p hop))])

mutual

/-- The lists that a level of properties needs at the document `parent`. -/
def traversals (plan : Plan) (parent : Fragment) : List Property → Script
  | [] => []
  | p :: rest => traversal plan parent p ++ traversals plan parent rest

/-- The list for a property, and none for a property that needs no list. -/
def traversal (plan : Plan) (parent : Fragment) : Property → Script
  | p@⟨_, path, children, _, _, _, _, _, _, _, _⟩ =>
    if path.isEmpty && !children.isEmpty then traversals plan parent children
    else if !p.needsTraversal then []
    else
      let hops := p.edgeSteps.length
      let doc := if hops = 0 then parent else hopDoc p (hops - 1)
      let body : Script :=
        match p.leafStep? with
        | some leaf =>
          [.line (lit "FILTER " ++ attr doc leaf.uri ++ lit " != NULL"),
           .line (projectionStart p ++ attr doc leaf.uri)]
        | none =>
          traversals plan doc children ++ filters plan doc children ++ result doc children true
      p.edgeSteps.zipIdx.flatMap (fun (step, hop) => openHop plan p parent hop step) ++
      body ++
      (List.range hops).reverse.flatMap (closeHop p) ++
      closing p ++
      (if p.hasGrouping then grouping p else [])

end

/-! ## Statements -/

/-- The lists of what the reader may see. -/
def accessLists : Option AccessFilter → Script
  | some access =>
    [.line (lit "LET whitelist=" ++ bound "readAccessBySpace" (spaceCollections access.spaces)),
     .line (lit "LET invitation=" ++ bound "readAccessByInvitation"
       (.object (Dictionary.ofEntries (access.instances.map fun id => (id.text, .bool true)))))]
  | none => []

/-- The variable of the root. -/
def root : Fragment := lit "root_doc"

/-- The line that introduces the root. -/
def rootSelection : Root → Script
  | .document id =>
    [.line (lit "LET root_doc = DOCUMENT(" ++
      bound "@rootCollection" (.string (Collection.ofSpace id.space).name) ++ lit ", " ++
      bound "rootId" (.string id.uuid.text) ++ lit ")")]
  | .ofType type =>
    [.line (lit "FOR root_doc IN 1..1 OUTBOUND DOCUMENT(" ++
      bound "@typeCollection" (.string typeCollection) ++ lit ", " ++
      bound "typeId" (.string type) ++ lit ") " ++
      bound "@typeRelation" (.string typeRelation))]

/-- All that decides which documents are counted. -/
def selection (plan : Plan) : Script :=
  accessLists plan.access ++ rootSelection plan.root ++ guards plan root ++
  (match plan.documentFilter with
    | some c => [.line (lit "FILTER " ++ condition (attr root "@id") c)]
    | none => []) ++
  traversals plan root plan.spec.properties ++
  filters plan root plan.spec.properties

/-- The projection of a count statement. -/
def countProjection : Script :=
  [.line (lit "COLLECT WITH COUNT INTO length"),
   .line (lit "RETURN \x7b \"count\": length \x7d"),
   .options .none]

/-- The order of the rows, the page and the columns. -/
def projection (plan : Plan) : Script :=
  let sorted := (Property.level plan.spec.properties).filter Property.sort
  (if sorted.isEmpty then []
  else [.line (lit "SORT " ++ comma (sorted.map fun p => value root p ++ lit " ASC"))]) ++
  [.page plan.page] ++
  result root plan.spec.properties false

/-- The statement for a plan. -/
def script (plan : Plan) : Script :=
  selection plan ++ (if plan.countOnly then countProjection else projection plan)

end GraphQuery.Aql
