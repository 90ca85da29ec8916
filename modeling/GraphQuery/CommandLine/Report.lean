import GraphQuery.Compile
import GraphQuery.Execution
import GraphQuery.Scope.Element
import GraphQuery.Specification.Encode

/-!
# GraphQuery.CommandLine.Report — what commands show

Every result is shown as lines of text or as an indented JSON value.

1. **Lines**: headings, fields and indented entries.
2. **Specifications** with the tree of their properties.
3. **Statements** with their bindings.
4. **Pages** with one row in a line.
5. **Scopes** with the tree of their elements and the number of instances of each type.
-/

namespace GraphQuery.CommandLine

open Json

/-- What a command shows, as lines for a reader and as a value for a program. -/
structure Report where
  value : Value
  lines : List String

/-! ## Lines -/

/-- The line over a section of a report. -/
def heading (title : String) : String := "== " ++ title

/-- An indented line with a name and what it stands for. -/
def field (key value : String) : String := s!"  {key}: {value}"

/-! ## Specifications -/

/-- A step of a path, with an arrow where it is walked against its edges. -/
def stepText (s : Step) : String := if s.reverse then "<-" ++ s.uri else s.uri

/-- Marks of a property, in brackets if there are any. -/
def marks (p : Property) : String :=
  let set := [(p.required, "required"), (p.sort, "sort"), (p.groupBy, "groupBy"),
    (p.ensureOrder, "ensureOrder")].filterMap fun (holds, name) => if holds then some name else none
  if set.isEmpty then "" else " (" ++ ", ".intercalate set ++ ")"

/-- The line of a property: its name, its alias, its path and its marks. -/
def propertyLine (depth : Nat) (p : Property) : String :=
  let path := " / ".intercalate (p.path.map stepText)
  s!"{Value.indentation depth}{p.name} [{p.aliasName}] {path}{marks p}"

mutual

/-- The lines of a property, with those below it indented by one level more. -/
def propertyLines (depth : Nat) : Property → List String
  | p@⟨_, _, children, _, _, _, _, _, _, _, _⟩ =>
    propertyLine depth p :: propertiesLines (depth + 1) children

def propertiesLines (depth : Nat) : List Property → List String
  | [] => []
  | p :: rest => propertyLines depth p ++ propertiesLines depth rest

end

/-- The report about a query that is valid: what it was read as. -/
def specificationReport (s : Specification) : Report where
  value := s.toValue
  lines :=
    [heading "Specification", field "type" s.rootType] ++
      (s.vocabulary.map (field "responseVocab")).toList ++ propertiesLines 1 s.properties

/-! ## Statements -/

/-- A statement as a value, with the text for debugging if so asked. -/
def statementValue (debug : Bool) (s : Statement) : Value :=
  .object <|
    [("text", .string s.text), ("bindings", .object s.bindings)] ++
      if debug then [("debug", .string s.draft.debugText)] else []

/-- A statement as lines, with the text for debugging if so asked. -/
def statementLines (debug : Bool) (title : String) (s : Statement) : List String :=
  let bindings :=
    if s.bindings.isEmpty then []
    else heading "Bindings" :: s.bindings.map fun (name, v) => field name v.sorted.compact
  let filledIn := if debug then [heading "Debug rendering", s.draft.debugText] else []
  [heading title, s.text] ++ bindings ++ filledIn

/-- The report about a compiled query: its statement, and the one that counts if there is one. -/
def compiledReport (dialect : Dialect) (debug : Bool) (c : Compiled) : Report where
  value := Value.sorted <| .object
    [("dialect", .string dialect.name), ("statement", statementValue debug c.statement),
     ("count", .ofOption (statementValue debug) c.count)]
  lines :=
    statementLines debug "Statement" c.statement ++
      (c.count.map (statementLines debug "Count statement")).getD []

/-! ## Pages -/

/-- The report about a page: its numbers and its rows. -/
def pageReport (p : Page) : Report where
  value := Page.toValue { p with rows := p.rows.map fun row => .ofEntries (Value.sortedEntries row) }
  lines :=
    [heading "Result", field "from" (toString p.offset), field "size" (toString p.size),
     field "total" ((p.total.map toString).getD "-")] ++
      p.rows.map fun row => (Value.object row).sorted.compact

/-! ## Scopes -/

/-- The line of an element: its id, types and label. -/
def elementLine (depth : Nat) (id : Uuid) (types : List String) (label : String) : String :=
  let names := ",".intercalate types
  s!"{Value.indentation depth}{id.text} {names} {label}"

mutual

/-- The lines of an element, with those below it indented by one level more. -/
def elementLines (depth : Nat) : Element → List String
  | ⟨id, types, label, children, _, _⟩ =>
    elementLine depth id types (label.getD "") :: childrenLines (depth + 1) children

def childrenLines (depth : Nat) : Option (List Element) → List String
  | none => []
  | some es => elementsLines depth es

def elementsLines (depth : Nat) : List Element → List String
  | [] => []
  | e :: rest => elementLines depth e ++ elementsLines depth rest

end

/-- The report about a scope: its tree, and how many instances of each type are in it. -/
def scopeReport (e : Element) : Report where
  value := e.toValue
  lines :=
    [heading "Scope"] ++ elementLines 1 e ++ [heading "Types"] ++
      e.byType.map fun (type, ids) => field type (toString ids.length)

end GraphQuery.CommandLine
