import GraphQuery.Plan
import GraphQuery.Statement

/-!
# GraphQuery.Statement.Cypher — plans as Cypher

1. **Guards** on a node, and the values of direct properties.
2. **Conditions** on values.
3. **Lists**: a traversed property becomes a pattern comprehension, which is the empty list where
   nothing matches. A path of several hops is one pattern.
4. **Shapes** of a list: order, groups, a single value.
5. **Statements**: one `MATCH` for the root, one `WITH` for the lists, the projection.
-/

namespace GraphQuery.Cypher

open Json

/-- A name in backticks. -/
def ticked (name : String) : Fragment := lit "`" ++ named name ++ lit "`"

/-- A property of a node. -/
def attr (node : Fragment) (key : String) : Fragment := node ++ lit "." ++ ticked key

def comma (fs : List Fragment) : Fragment := Fragment.join ", " fs

/-- Conditions that must hold together. -/
def conjunction (fs : List Fragment) : Fragment := Fragment.join " AND " fs

/-- A clause, unless it would be empty. -/
def whereClause (opening : String) (conditions : List Fragment) : Fragment :=
  if conditions.isEmpty then [] else lit opening ++ conjunction conditions

/-! ## Guards -/

/-- The tests of a node: that it may be seen, and that it is in a space asked for. -/
def guards (plan : Plan) (node : Fragment) : List Fragment :=
  (match plan.access with
    | some _ => [lit "(" ++ node ++ lit "._space IN allowedSpaces OR " ++ node ++
        lit "._id IN allowedInstances)"]
    | none => []) ++
  (match plan.spaces with
    | some spaces => [node ++ lit "._space IN " ++ bound "spaceRestriction" (.strings spaces)]
    | none => [])

/-- The value of a property that needs no list. -/
def directValue (node : Fragment) (p : Property) : Fragment :=
  match p.leafStep? with
  | some step => attr node step.uri
  | none => lit "null"

/-! ## Conditions -/

/-- A test that some value of a field passes. -/
def comparison (field : Fragment) (op : String) (c : Condition) : Fragment :=
  lit "any(v IN apoc.coll.flatten([" ++ field ++ lit "]) WHERE v" ++ lit op ++
    bound c.bindName (.ofOption .string c.operand) ++ lit ")"

/-- The test of a condition. -/
def condition (field : Fragment) (c : Condition) : Fragment :=
  match c.op with
  | .isEmpty => lit "(" ++ field ++ lit " IS NULL OR " ++ field ++ lit " = [] OR " ++ field ++
      lit " = \"\")"
  | .startsWith => comparison field " STARTS WITH " c
  | .endsWith => comparison field " ENDS WITH " c
  | .contains => comparison field " CONTAINS " c
  | .equals => comparison field " = " c
  | .regex => comparison field " =~ " c

/-- Conditions of one property, whose value is `field`. -/
def conditionsOn (plan : Plan) (p : Property) (field : Fragment) : List Fragment :=
  (if p.required then
    [field ++ lit " IS NOT NULL AND " ++ field ++ lit " <> \"\" AND " ++ field ++ lit " <> []"]
  else []) ++
  (match plan.condition? p with
    | some c => [condition field c]
    | none => [])

/-! ## Shapes -/

/-- Sorts a list of maps by the keys of the given properties. -/
def sortMaps (list : Fragment) (keys : List Property) : Fragment :=
  if keys.isEmpty then list
  else lit "apoc.coll.sortMulti(" ++ list ++ lit ", [" ++
    comma (keys.map fun c => lit "'^" ++ named c.key ++ lit "'") ++ lit "])"

/-- A variable of a property, for use in its own list. -/
def localName (p : Property) (suffix : String) : Fragment := named (p.aliasName ++ suffix)

/-- Groups a list of maps by the keys of a property; the members of a group keep the other
fields. -/
def grouping (list : Fragment) (p : Property) : Fragment :=
  let g := localName p "_g"
  let x := localName p "_x"
  let y := localName p "_y"
  let keys := p.children.filter Property.groupBy
  let rest := p.children.filter fun c => !c.groupBy
  let groups := sortMaps
    (lit "apoc.coll.toSet([" ++ x ++ lit " IN " ++ list ++ lit " | \x7b" ++
      comma (keys.map fun c => ticked c.key ++ lit ": " ++ x ++ lit "." ++ ticked c.key) ++
      lit "\x7d])")
    p.groupSortKeys
  let members := sortMaps
    (lit "[" ++ y ++ lit " IN " ++ list ++ lit " WHERE " ++
      conjunction (keys.map fun c =>
        y ++ lit "." ++ ticked c.key ++ lit " = " ++ g ++ lit "." ++ ticked c.key) ++
      lit " | \x7b" ++
      comma (rest.map fun c => ticked c.key ++ lit ": " ++ y ++ lit "." ++ ticked c.key) ++
      lit "\x7d]")
    p.memberSortKeys
  lit "[" ++ g ++ lit " IN " ++ groups ++ lit " | apoc.map.merge(" ++ g ++ lit ", \x7b" ++
    ticked (p.groupedInstances.getD "") ++ lit ": " ++ members ++ lit "\x7d)]"

/-- Orders, groups and collapses the list of a property. -/
def shape (p : Property) (list : Fragment) : Fragment :=
  let list := if p.sort then lit "apoc.coll.sort(" ++ list ++ lit ")" else list
  let list := if p.hasGrouping then grouping list p else list
  match p.collapse with
  | some .first => lit "head(" ++ list ++ lit ")"
  | some .concat => lit "apoc.text.join([" ++ localName p "_x" ++ lit " IN " ++ list ++
      lit " | toString(" ++ localName p "_x" ++ lit ")], ', ')"
  | none => list

/-! ## Lists -/

/-- The node to which a hop leads. -/
def hopNode (p : Property) (hop : Nat) : Fragment := named (p.aliasName ++ "_n" ++ toString hop)

def edgeVariable (p : Property) : Fragment := localName p "_edge"

/-- One hop of a pattern. Only the last edge of an ordered path has a name. -/
def hopPattern (p : Property) (hop : Nat) (step : Step) : Fragment :=
  let isLast := hop + 1 = p.edgeSteps.length
  let relation := (if isLast && p.ensureOrder then edgeVariable p else []) ++ lit ":" ++
    ticked step.uri
  if step.reverse then lit "<-[" ++ relation ++ lit "]-(" ++ hopNode p hop ++ lit ")"
  else lit "-[" ++ relation ++ lit "]->(" ++ hopNode p hop ++ lit ")"

/-- The tests of the node to which a hop leads. -/
def hopConditions (plan : Plan) (p : Property) (hop : Nat) (step : Step) : List Fragment :=
  guards plan (hopNode p hop) ++
  (if step.types.isEmpty then []
  else [lit "any(l IN labels(" ++ hopNode p hop ++ lit ") WHERE l IN " ++
    bound (p.aliasName ++ "_types" ++ toString hop) (.strings step.types) ++ lit ")"])

/-- The list of a path's projections. -/
def comprehension (plan : Plan) (parent : Fragment) (p : Property) (conditions : List Fragment)
    (projection : Fragment) : Fragment :=
  let hops := p.edgeSteps.zipIdx
  let item := localName p "_x"
  let pattern := lit "(" ++ parent ++ lit ")" ++ hops.flatMap fun (step, i) => hopPattern p i step
  let projection :=
    if p.ensureOrder then
      lit "\x7bo: " ++ edgeVariable p ++ lit "._orderNumber, v: " ++ projection ++ lit "\x7d"
    else projection
  let list := lit "[" ++ pattern ++
    whereClause " WHERE " (hops.flatMap (fun (step, i) => hopConditions plan p i step) ++ conditions) ++
    lit " | " ++ projection ++ lit "]"
  let list :=
    if p.ensureOrder then
      lit "[" ++ item ++ lit " IN apoc.coll.sortMaps(" ++ list ++ lit ", '^o') | " ++ item ++ lit ".v]"
    else list
  let list :=
    if p.isLeaf then lit "apoc.coll.flatten(" ++ list ++ lit ")"
    else
      lit "[" ++ item ++ lit " IN " ++ list ++ lit " WHERE any(k IN keys(" ++ item ++ lit ") WHERE " ++
        item ++ lit "[k] IS NOT NULL AND " ++ item ++ lit "[k] <> [])]"
  if p.ensureOrder then list else lit "apoc.coll.toSet(" ++ list ++ lit ")"

/-- The node at the end of a path. -/
def lastNode (parent : Fragment) (p : Property) : Fragment :=
  match p.edgeSteps.length with
  | 0 => parent
  | n + 1 => hopNode p n

mutual

/-- The value of a property at the node `parent`. -/
def value (plan : Plan) (parent : Fragment) : Property → Fragment
  | p@⟨_, _, children, _, _, _, _, _, _, _, _⟩ =>
    if p.isDirect then directValue parent p
    else if p.edgeSteps.any fun s => !plan.edgeExists s then shape p (lit "[]")
    else
      let node := lastNode parent p
      let list :=
        match p.leafStep? with
        | some leaf => comprehension plan parent p [] (attr node leaf.uri)
        | none =>
          comprehension plan parent p (conditions plan node children)
            (lit "\x7b" ++ comma (entries plan node children) ++ lit "\x7d")
      shape p list

/-- Conditions of a nested level. -/
def conditions (plan : Plan) (node : Fragment) : List Property → List Fragment
  | [] => []
  | p@⟨_, path, children, _, _, _, _, _, _, _, _⟩ :: rest =>
    (if path.isEmpty && !children.isEmpty then conditions plan node children
    else if !p.required && (plan.condition? p).isNone then []
    else conditionsOn plan p (value plan node p)) ++ conditions plan node rest

/-- Entries of the object for a nested level. -/
def entries (plan : Plan) (node : Fragment) : List Property → List Fragment
  | [] => []
  | p@⟨_, path, children, _, _, _, _, _, _, _, _⟩ :: rest =>
    (if path.isEmpty && !children.isEmpty then entries plan node children
    else [ticked p.key ++ lit ": " ++ value plan node p]) ++ entries plan node rest

end

/-! ## Statements -/

/-- The node at the root. -/
def root : Fragment := lit "root"

/-- Value of a property once the lists have names. -/
def topValue (p : Property) : Fragment :=
  if p.isDirect then directValue root p else named p.aliasName

/-- The lists of what the reader may see. -/
def accessLists : Option AccessFilter → Script
  | some access =>
    [.line (lit "WITH " ++ bound "allowedSpaces" (.strings access.spaces) ++
      lit " AS allowedSpaces, " ++
      bound "allowedInstances" (.strings (access.instances.map Uuid.text)) ++
      lit " AS allowedInstances")]
  | none => []

/-- The match that introduces the root. -/
def rootSelection (stage : Stage) : Root → Script
  | .document id =>
    [.line (lit "MATCH (root:" ++ ticked stage.label ++ lit " \x7b_id: " ++
      bound "rootId" (.string id.uuid.text) ++ lit "\x7d)")]
  | .ofType type =>
    [.line (lit "MATCH (root:" ++ ticked stage.label ++ lit ":" ++ ticked type ++ lit ")")]

/-- A clause of its own, unless it would be empty. -/
def clause (conditions : List Fragment) : Script :=
  if conditions.isEmpty then [] else [.line (whereClause "WHERE " conditions)]

/-- All that decides which nodes are counted. -/
def selection (plan : Plan) : Script :=
  let fields := Property.level plan.spec.properties
  let lists := fields.filter fun p => !p.isDirect
  accessLists plan.access ++ rootSelection plan.stage plan.root ++
  clause (guards plan root ++
    (match plan.documentFilter with
      | some c => [condition (attr root "@id") c]
      | none => [])) ++
  (if lists.isEmpty then []
  else [.line (lit "WITH root, " ++
    comma (lists.map fun p => value plan root p ++ lit " AS " ++ named p.aliasName))]) ++
  clause (fields.flatMap fun p => conditionsOn plan p (topValue p))

/-- The projection of a count statement. -/
def countProjection : Script := [.line (lit "RETURN count(root) AS count"), .options .none]

/-- The order of the rows, the page and the columns. -/
def projection (plan : Plan) : Script :=
  let fields := Property.level plan.spec.properties
  let size := plan.page.bind PageRequest.size
  [.line (lit "ORDER BY " ++
    comma ((fields.filter Property.sort).map topValue ++ [lit "root._id"]))] ++
  (match plan.page with
    | some ⟨offset, some size, _⟩ =>
      [.line (lit "SKIP " ++ [.number offset] ++ lit " LIMIT " ++ [.number size])]
    | _ => []) ++
  [.options ⟨false, size.isNone⟩,
   .line (lit "RETURN \x7b" ++
    comma (fields.map fun p => ticked p.key ++ lit ": " ++ topValue p) ++ lit "\x7d AS row")]

/-- The statement for a plan. -/
def script (plan : Plan) : Script :=
  selection plan ++ (if plan.countOnly then countProjection else projection plan)

end GraphQuery.Cypher
