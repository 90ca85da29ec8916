import GraphQuery.Dictionary
import GraphQuery.Error
import GraphQuery.Query.Decode
import GraphQuery.Specification
import GraphQuery.Text.Cut

/-!
# GraphQuery.Specification.Interpret — from queries to specifications

1. **Names**: the response vocabulary is taken off the front of a property name once.
2. **Properties**: items become properties, numbered in pre-order.
3. **Keys**: on every level the keys of the properties are usable and distinct, where merge nodes
   stand for their children.
4. **Interpretation** of a query, and of a JSON payload.
-/

namespace GraphQuery

/-- Why a query cannot be interpreted. -/
inductive InterpretFault
  | query (fault : QueryFault)
  | blankName
  | unusableKey (name : String)
  | sharedKey (first second key : String)
deriving Repr

namespace InterpretFault

/-- The words in which a client learns of it. -/
def message : InterpretFault → String
  | query fault => fault.message
  | blankName => "The query provided contains a structure item without propertyName"
  | unusableKey name =>
    s!"The query provided contains propertyName '{name}' without a usable output key"
  | sharedKey first second key =>
    s!"The query provided maps propertyName '{first}' and '{second}' to the same key '{key}'"

def toError (f : InterpretFault) : Error := .validation f.message

end InterpretFault

/-! ## Names -/

/-- A name without the vocabulary that it may begin with. -/
def stripVocabulary (vocabulary : Option String) (name : String) : String :=
  match vocabulary with
  | some v => (Text.dropLeading? v name).getD name
  | none => name

/-! ## Properties -/

namespace Item

mutual

/-- The property of an item and the number that the next one gets. -/
def interpret (vocabulary : Option String) (next : Nat) :
    Item → Except InterpretFault (Property × Nat)
  | i@⟨reference, _, children, _, _, _, _, _, _, _⟩ => do
    let name := stripVocabulary vocabulary reference.uri
    if Text.allBlank name then throw .blankName
    let (properties, after) ← interpretChildren vocabulary (next + 1) children
    return ({ name
              path := plainPath i.path
              children := properties
              required := i.required
              sort := i.sort
              groupBy := i.groupBy
              ensureOrder := i.ensureOrder
              groupedInstances := i.groupedInstances
              filter := i.filter
              collapse := i.collapse
              index := next }, after)

def interpretChildren (vocabulary : Option String) (next : Nat) :
    Option (OneOrMany Item) → Except InterpretFault (List Property × Nat)
  | none => .ok ([], next)
  | some (.one child) => do
    let (p, after) ← interpret vocabulary next child
    return ([p], after)
  | some (.many children) => interpretAll vocabulary next children

def interpretAll (vocabulary : Option String) (next : Nat) :
    List Item → Except InterpretFault (List Property × Nat)
  | [] => .ok ([], next)
  | i :: rest => do
    let (p, after) ← interpret vocabulary next i
    let (ps, last) ← interpretAll vocabulary after rest
    return (p :: ps, last)

end

end Item

/-! ## Keys -/

namespace Property

mutual

/-- Checks the keys of one property. `seen` holds the names that have taken a key of the level. -/
def checkKeys (seen : Dictionary String) : Property → Except InterpretFault (Dictionary String)
  | p@⟨_, path, children, _, _, _, _, _, _, _, _⟩ =>
    if path.isEmpty && !children.isEmpty then checkLevel seen children
    else if p.key.isEmpty then .error (.unusableKey p.name)
    else match seen.get? p.key with
      | some first => .error (.sharedKey first p.name p.key)
      | none => do
        let _ ← checkLevel [] children
        return seen.insert p.key p.name

/-- Checks a level and the levels below it, and gives the keys that are taken after it. -/
def checkLevel (seen : Dictionary String) : List Property → Except InterpretFault (Dictionary String)
  | [] => .ok seen
  | p :: rest => do
    let seen ← checkKeys seen p
    checkLevel seen rest

end

end Property

/-! ## Interpretation -/

namespace Query

/-- Interprets a query: its items become properties with aliases, and all keys are checked. -/
def interpret (q : Query) : Except InterpretFault Specification := do
  q.check.mapError .query
  let vocabulary := (q.header.bind Header.vocabulary).filter fun v => !v.isEmpty
  let (properties, _) ← Item.interpretChildren vocabulary 0 q.structured
  let _ ← Property.checkLevel [] properties
  return { properties
           documentFilter := q.header.bind Header.filter
           rootType := (q.rootType?.map Reference.uri).getD ""
           vocabulary }

end Query

namespace Specification

open Json

/-- Reads and interprets a query payload. -/
def ofValue (payload : Value) : Except Error Specification := do
  let q ← (Query.ofValue payload).mapError fun f => (InterpretFault.query f).toError
  q.interpret.mapError InterpretFault.toError

end Specification

end GraphQuery
