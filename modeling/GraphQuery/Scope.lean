import GraphQuery.Scope.Element
import GraphQuery.Service

/-!
# GraphQuery.Scope — what an instance depends on

1. **Rows**: a result row of a scope query reports an instance, and the rows nested in its
   dependency columns report what it depends on.
2. **Queries** of an instance are those of its types that are stored in a relevant space. They run
   on the instance alone and without an access filter.
3. **Discovery**: the children that the queries report for an instance.
4. **Expansion** of every element of a tree by the queries of its own types. An instance joins the
   tree once, so a path of the tree passes every stored document at most once.
5. **Scopes**: the tree of an instance, labelled if so asked.
-/

namespace GraphQuery

open Json

/-- What a scope is asked for besides its tree. -/
structure ScopeOptions where
  /-- Look up the labels of elements that have none. -/
  labels : Bool
  /-- Leave out instances of excludable types; their dependencies take their place. -/
  restrictions : Bool
deriving Repr, DecidableEq

/-! ## Rows -/

/-- What the columns begin with that hold dependencies. -/
def dependencyMark : String := "dependency_"

/-- A uuid, or a uri whose last segment is one. -/
def instanceUuid? (s : String) : Option Uuid :=
  (Uuid.ofText? s).or (Uuid.ofText? (Text.afterLast '/' s))

/-- A text, or the texts of a list. -/
def stringList : Value → List String
  | .string s => [s]
  | .array items => items.filterMap Value.asString?
  | _ => []

namespace Json.Row

/-- Whether a row says that its instance is part of another. -/
def isEmbedded (row : Row) : Bool := row.get? "embedded" matches some (.bool true)

/-- The types that a row reports. -/
def typeList (row : Row) : List String := stringList (row.value "type")

/-- The instance that a row reports. -/
def reportedId? (row : Row) : Option Uuid := (row.value "id").asString?.bind instanceUuid?

/-- The element that a row stands for, without children. -/
def element (row : Row) (id : Uuid) : Element :=
  { Element.leaf id row.typeList with
    label := (row.value "label").asString?
    reference := (row.value "internalId").asString?
    space := (row.value "space").asString? }

end Json.Row

/-- How the rows of one instance are read: the types of that instance, and what to leave out. -/
structure RowReading where
  rootTypes : List String
  isLeftOut : List String → Bool

namespace RowReading

/-- Elements that a row stands for, given those of the rows below it. A row that is embedded, or
that reports another instance of a root type, stands for none; one that is left out stands for its
dependencies. -/
def elements (r : RowReading) (isTop : Bool) (row : Row) (below : List Element) : List Element :=
  let leftOut := r.isLeftOut row.typeList
  if row.isEmbedded then []
  else if !isTop && row.typeList.any r.rootTypes.contains then []
  else
    let children := if isTop && leftOut then [] else firstOccurrences (· == ·) below
    if !isTop && leftOut then children
    else match row.reportedId? with
      | none => []
      | some id => [(row.element id).addChildren children]

mutual

/-- Elements of the rows in dependency columns. -/
def dependencies (r : RowReading) : List (String × Value) → List Element
  | [] => []
  | (key, v) :: rest =>
    (if Text.startsWith key dependencyMark then nested r v else []) ++ dependencies r rest

/-- Elements of the rows that a value holds. -/
def nested (r : RowReading) : Value → List Element
  | .object row => r.elements false row (dependencies r row)
  | .array items => nestedItems r items
  | _ => []

def nestedItems (r : RowReading) : List Value → List Element
  | [] => []
  | .object row :: rest => r.elements false row (dependencies r row) ++ nestedItems r rest
  | _ :: rest => nestedItems r rest

end

/-- Elements of a result row, of which there is one at most. -/
def ofTopRow (r : RowReading) (row : Row) : List Element := r.elements true row (r.dependencies row)

end RowReading

/-! ## Queries -/

/-- Where scopes are computed: the store, the settings, the stage and the options. -/
structure ScopeRun where
  store : Store
  settings : Settings
  stage : Stage
  options : ScopeOptions

namespace ScopeRun

/-- The spaces whose queries count: those of the settings, else those of the store. -/
def relevantSpaces (c : ScopeRun) : Names :=
  c.settings.scope.relevantSpaces.getD c.store.relevantSpaces

/-- The relevant queries of types, type by type. -/
def queriesFor (c : ScopeRun) (types : List String) : List Query :=
  types.flatMap fun type =>
    ((c.store.scopeQueriesOf type).filter fun q => c.relevantSpaces.contains q.space).map
      ScopeQuery.query

/-- Rows are read for an instance by its types. Only under restrictions anything is left out. -/
def reading (c : ScopeRun) (types : List String) : RowReading where
  rootTypes := types
  isLeftOut := fun ts => c.options.restrictions && ts.any c.store.isExcludable

/-- What a scope computation has done so far. -/
structure Progress where
  claimed : List Uuid
  events : List Event

/-- A computation over the progress of a scope, which may fail. -/
abbrev Walk := ExceptT Error (StateM Progress)

/-- Rows of one query on one instance. -/
def rowsOf (c : ScopeRun) (id : InstanceId) (q : Query) : Walk (List Row) := do
  let run := (c.store.runQuery c.settings q
    { Request.ofStage c.stage with root := some id }).finish Stream.drain
  modify fun p => { p with events := p.events ++ run.events }
  match run.result with
  | .ok page => return page.rows
  | .error e => throw e

/-- Elements that the queries of an instance's types report, merged by id. The queries run in order
here, and the first failure ends them. Where they run side by side, as they do unless configured
otherwise, the others may still be executed when one fails, and the failure of another one may be the
one that is reported. -/
def reported (c : ScopeRun) (id : InstanceId) (types : List String) : Walk (List Element) := do
  let rows ← (c.queriesFor types).mapM (c.rowsOf id)
  return Element.mergeSameLevel (rows.flatten.flatMap (c.reading types).ofTopRow)

/-! ## Discovery -/

/-- Where an element's document is looked for. -/
def spaceOf (c : ScopeRun) (e : Element) : Option String :=
  e.space.or (((c.store.data c.stage).get? e.id).map Document.space)

/-- Children that the queries of an element's types report for it. -/
def discovered (c : ScopeRun) (e : Element) : Walk (List Element) := do
  match c.spaceOf e with
  | none => return []
  | some space =>
    let es ← c.reported ⟨e.id, space⟩ e.types
    return (es.filter (·.id = e.id)).flatMap Element.childList

/-- Keeps what has not joined the tree yet. -/
def claim (es : List Element) : Walk (List Element) := do
  let p ← get
  let (kept, claimed) := Element.claim p.claimed es
  set { p with claimed }
  return kept

/-! ## Expansion -/

mutual

/-- Expands an element by what its queries report. Where they report nothing new, its own children
are expanded; where they do, the children there are then are left to `deeper`. -/
def expandTree (c : ScopeRun) (deeper : List Element → Walk (List Element)) :
    Element → Walk Element
  | ⟨id, types, label, children, reference, space⟩ => do
    let e : Element := ⟨id, types, label, children, reference, space⟩
    match ← claim (← c.discovered e) with
    | [] => return { e with children := ← expandChildren c deeper children }
    | found => return { e with children := some (← deeper (e.childList ++ found)) }

def expandChildren (c : ScopeRun) (deeper : List Element → Walk (List Element)) :
    Option (List Element) → Walk (Option (List Element))
  | none => return none
  | some children => return some (← expandTrees c deeper children)

/-- Expands trees one after the other. -/
def expandTrees (c : ScopeRun) (deeper : List Element → Walk (List Element)) :
    List Element → Walk (List Element)
  | [] => return []
  | e :: rest => return (← expandTree c deeper e) :: (← expandTrees c deeper rest)

end

/-- Expands trees. Only stored documents have dependencies to discover; `stored` bounds how many of
them one path can still pass. -/
def expand (c : ScopeRun) : Nat → List Element → Walk (List Element)
  | 0 => c.expandTrees pure
  | stored + 1 => c.expandTrees (c.expand stored)

/-! ## Scopes -/

/-- The element of an instance as the store knows it. -/
def summary (doc : Document) : Element where
  id := doc.id
  types := doc.types
  label := doc.label
  children := none
  reference := some (InstanceId.text ⟨doc.id, doc.space⟩)
  space := some doc.space

/-- The tree of a document: its root is what its queries report for it, else the document's
summary. -/
def tree (c : ScopeRun) (doc : Document) : Walk Element := do
  let es ← c.reported ⟨doc.id, doc.space⟩ doc.types
  let root := (es.find? (·.id = doc.id)).getD (summary doc)
  let children ← claim root.childList
  let below ← c.expand (c.store.data c.stage).documents.length children
  return { root with children := Element.unlessEmpty below }

/-- Gives labels to the elements without one. -/
def addLabels (c : ScopeRun) (root : Element) : Element :=
  let missing := (root.subtree.filter (·.label.isNone)).map Element.id
  let labels := c.store.labels c.stage missing
  root.mapAll fun e => if e.label.isNone then { e with label := labels.lookup e.id } else e

end ScopeRun

namespace Store

/-- Scope of an instance, none where the stage has no such instance in the space; and what happened
to the statements that were executed for it. -/
def scope (st : Store) (settings : Settings) (stage : Stage) (id : InstanceId)
    (options : ScopeOptions) : Except Error (Option Element) × List Event :=
  match (st.data stage).get? id.uuid with
  | none => (.ok none, [])
  | some doc =>
    if doc.space = id.space then
      let c : ScopeRun := ⟨st, settings, stage, options⟩
      let (result, progress) := (c.tree doc).run ⟨[doc.id], []⟩
      (result.map fun root => some (if options.labels then c.addLabels root else root),
       progress.events)
    else (.ok none, [])

end Store

end GraphQuery
