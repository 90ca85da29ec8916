import GraphQuery.Dictionary
import GraphQuery.Json.Record
import GraphQuery.Stage
import GraphQuery.Uuid

/-!
# GraphQuery.Access — who may read what

1. **Permissions**: an operation, granted everywhere, in a space or on an instance.
2. **Users** and what their permissions add up to.
3. **Filters**: the spaces and the instances that a user may read. A user who may read everything
   has no filter.
4. **Reading and writing** users as JSON.
-/

namespace GraphQuery

open Json

/-! ## Permissions -/

/-- The operations that a user may be allowed. -/
inductive Functionality
  | read
  | readReleased
  | write
  | release
  | invite
deriving Repr, DecidableEq

namespace Functionality

def all : List Functionality := [read, readReleased, write, release, invite]

/-- The name of an operation in a user file. -/
def name : Functionality → String
  | read => "READ"
  | readReleased => "READ_RELEASED"
  | write => "WRITE"
  | release => "RELEASE"
  | invite => "INVITE"

def ofName? (s : String) : Option Functionality := all.find? (·.name == s)

/-- What it takes to read a stage. Nothing lets a user read native data. -/
def forReading : Stage → Option Functionality
  | .inProgress => some read
  | .released => some readReleased
  | .native => none

end Functionality

/-- Where a permission holds. -/
inductive Grant
  | everywhere
  | space (name : String)
  /-- The instance, whatever its space. -/
  | document (id : Uuid)
deriving Repr, DecidableEq

/-- An operation, and where it is allowed. -/
structure Permission where
  functionality : Functionality
  grant : Grant
deriving Repr, DecidableEq

/-! ## Users -/

/-- A user with all permissions. -/
structure User where
  id : String
  permissions : List Permission
deriving Repr, DecidableEq

namespace User

/-- Where the user holds an operation. -/
def grants (u : User) (f : Functionality) : List Grant :=
  (u.permissions.filter (·.functionality = f)).map Permission.grant

/-- Whether the user holds an operation in all spaces. -/
def holdsEverywhere (u : User) (f : Functionality) : Bool := (u.grants f).contains .everywhere

/-- Those of the given spaces in which the user holds an operation. -/
def spaces (u : User) (f : Functionality) (candidates : Names) : Names :=
  if u.holdsEverywhere f then candidates
  else Names.ofList <| (u.grants f).filterMap fun
    | .space s => if candidates.contains s then some s else none
    | _ => none

/-- Instances on which the user holds an operation. -/
def instances (u : User) (f : Functionality) : List Uuid :=
  Uuid.setOf <| (u.grants f).filterMap fun
    | .document id => some id
    | _ => none

end User

/-! ## Filters -/

/-- What a reader may see: the documents of some spaces, and some documents in any space. -/
structure AccessFilter where
  spaces : Names
  instances : List Uuid
deriving Repr, DecidableEq

namespace AccessFilter

/-- The filter that lets no document pass. -/
def nothing : AccessFilter := ⟨[], []⟩

/-- Whether a document passes the filter. -/
def permits (a : AccessFilter) (space : String) (id : Uuid) : Bool :=
  a.spaces.contains space || a.instances.contains id

/-- Whether no document passes the filter. -/
def isEmpty (a : AccessFilter) : Bool := a.spaces.isEmpty && a.instances.isEmpty

/-- Filter of a user for an operation. Only the requested spaces count, or all spaces where none
are requested. -/
def resolveFor (u : User) (f : Functionality) (all : Names) (requested : List String) :
    Option AccessFilter :=
  if u.holdsEverywhere f then none
  else
    let candidates := if requested.isEmpty then all else Names.ofList requested
    some ⟨u.spaces f candidates, u.instances f⟩

/-- Filter of a user for reading a stage. -/
def resolve (u : User) (stage : Stage) (all : Names) (requested : List String) :
    Option AccessFilter :=
  match Functionality.forReading stage with
  | some f => resolveFor u f all requested
  | none => some nothing

/-- A filter as a report shows it. -/
def toValue (a : AccessFilter) : Value :=
  .object [("allowedSpaces", .strings a.spaces),
    ("permittedInstances", .strings (a.instances.map Uuid.text))]

end AccessFilter

/-! ## Reading and writing -/

/-- Reads a uuid; the failure quotes what is wrong with the text. -/
def Uuid.read : Value → Read Uuid
  | .string s =>
    match Uuid.ofText? s with
    | some u => .ok u
    | none => .error (.malformed ("UUID parsing failed: " ++ (Uuid.malformed s).message))
  | v => .error (.wrongType v "a UUID string")

namespace Grant

/-- A grant, written the way it is read. -/
def toValue : Grant → Value
  | everywhere => .string "global"
  | space name => .object [("space", .string name)]
  | .document id => .object [("instance", .string id.text)]

def names : List String := ["global", "space", "instance"]

/-- A grant everywhere is a name; the others are objects with one key. -/
def read : Value → Read Grant
  | .string "global" => .ok .everywhere
  | .string s =>
    if names.contains s then .error (.malformed "invalid type: unit variant, expected newtype variant")
    else .error (.unknownVariant s names)
  | .object [("global", v)] => (readUnit v).map fun _ => .everywhere
  | .object [("space", v)] => (readText v).map .space
  | .object [("instance", v)] => (Uuid.read v).map .document
  | .object [(s, _)] => .error (.unknownVariant s names)
  | .object _ => .error .notSingleKey
  | v => .error (.wrongType v "string or map")

end Grant

namespace Permission

/-- The fields of a permission. -/
inductive Field
  | functionality
  | scope
deriving Repr, DecidableEq

/-- How permissions are read. -/
def form : RecordForm Field where
  name := "Permission"
  fields := [.functionality, .scope]
  keys
    | .functionality => ["functionality"]
    | .scope => ["scope"]

/-- The fields of a permission that have been read so far. -/
structure Draft where
  functionality : Option Functionality
  grant : Option Grant

/-- Reads a permission. -/
def read (v : Value) : Read Permission := do
  let set (d : Draft) (f : Field) (v : Value) : Read Draft :=
    match f with
    | .functionality => do
      return { d with functionality := some (← readVariant Functionality.all Functionality.name v) }
    | .scope => do return { d with grant := some (← Grant.read v) }
  let d ← form.read set ⟨none, none⟩ v
  let some functionality := d.functionality | .error (form.missing v .functionality)
  let some grant := d.grant | .error (form.missing v .scope)
  return ⟨functionality, grant⟩

def toValue (p : Permission) : Value :=
  .object [("functionality", .string p.functionality.name), ("scope", p.grant.toValue)]

end Permission

namespace User

/-- The fields of a user. -/
inductive Field
  | userId
  | permissions
deriving Repr, DecidableEq

/-- How users are read. -/
def form : RecordForm Field where
  name := "UserWithRoles"
  fields := [.userId, .permissions]
  keys
    | .userId => ["userId"]
    | .permissions => ["permissions"]

/-- The fields of a user that have been read so far. -/
structure Draft where
  id : Option String
  permissions : List Permission

/-- Reads a user. -/
def read (v : Value) : Read User := do
  let set (d : Draft) (f : Field) (v : Value) : Read Draft :=
    match f with
    | .userId => do return { d with id := some (← readText v) }
    | .permissions => do return { d with permissions := ← readList Permission.read v }
  let d ← form.read set ⟨none, []⟩ v
  let some id := d.id | .error (form.missing v .userId)
  return ⟨id, d.permissions⟩

def toValue (u : User) : Value :=
  .object [("userId", .string u.id), ("permissions", .array (u.permissions.map Permission.toValue))]

end User

end GraphQuery
