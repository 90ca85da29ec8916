import GraphQuery.Toml.Scalar
import GraphQuery.Toml.Table

/-!
# GraphQuery.Toml.Reader — reading documents

1. **Keys** are bare or quoted, and may be joined by dots.
2. **Values** nest at most 79 levels deep. A moment is read as an object with a single key that no
   setting has, and of a float it counts only that it is none of the other values.
3. **Documents** are lines of keys with values, and headers.
-/

namespace GraphQuery.Toml

open Json

/-- Drops blanks, ends of lines and comments. -/
def skipLines (cs : List Char) : List Char :=
  Text.skipComments (fun c => isSpace c || c == '\n') false cs

/-! ## Keys -/

/-- The characters of keys without quotes. -/
def isBareChar (c : Char) : Bool := c.isAlphanum || c == '_' || c == '-'

/-- Reads one part of a key, which may be quoted. -/
def readKeyPart : List Char → Option (String × List Char)
  | '"' :: rest => readLine '"' [] rest
  | '\'' :: rest => readLine '\'' [] rest
  | cs =>
    let bare := cs.takeWhile isBareChar
    if bare.isEmpty then none else some (String.ofList bare, cs.dropWhile isBareChar)

/-- Reads the parts of a key; there may be at most `most`. -/
def readKey : Nat → List Char → Option (List String × List Char)
  | 0, _ => none
  | most + 1, cs => do
    let (part, rest) ← readKeyPart (skipSpaces cs)
    match skipSpaces rest with
    | '.' :: rest =>
      let (parts, rest) ← readKey most rest
      return (part :: parts, rest)
    | rest => return ([part], rest)

/-- Parts that a key may have. -/
def maxParts : Nat := 79

/-! ## Values -/

/-- The value of a word. -/
def wordValue? (word : List Char) : Option Value :=
  if word = ['t', 'r', 'u', 'e'] then some (.bool true)
  else if word = ['f', 'a', 'l', 's', 'e'] then some (.bool false)
  else match integer? word with
    | some n => some (.number (.int n))
    | none =>
      if isFloat word then some (.number (.double (.ofInt 0)))
      else if isMoment word then some (.object [("moment", .string (String.ofList word))])
      else none

mutual

/-- Reads one value; `depth` more levels may be opened, and `fuel` bounds the steps. -/
def readValue (depth : Nat) : Nat → List Char → Option (Value × List Char)
  | 0, _ => none
  | fuel + 1, cs =>
    match cs with
    | '"' :: rest => (readString '"' rest).map fun (s, rest) => (.string s, rest)
    | '\'' :: rest => (readString '\'' rest).map fun (s, rest) => (.string s, rest)
    | '[' :: rest =>
      if depth = 0 then none
      else (readItems (depth - 1) fuel rest).map fun (vs, rest) => (.array vs, rest)
    | '\x7b' :: rest =>
      if depth = 0 then none
      else match skipSpaces rest with
        | '\x7d' :: rest => some (.object [], rest)
        | rest => (readPairs (depth - 1) fuel [] rest).map fun (es, rest) =>
            (.object (entriesToValues es), rest)
    | cs =>
      let (word, rest) := splitWord cs
      (wordValue? word).map (·, rest)

/-- Reads the items of an array and its closing bracket. -/
def readItems (depth : Nat) : Nat → List Char → Option (List Value × List Char)
  | 0, _ => none
  | fuel + 1, cs =>
    match skipLines cs with
    | ']' :: rest => some ([], rest)
    | cs => do
      let (v, rest) ← readValue depth fuel cs
      match skipLines rest with
      | ']' :: rest => return ([v], rest)
      | ',' :: rest =>
        let (vs, rest) ← readItems depth fuel rest
        return (v :: vs, rest)
      | _ => none

/-- Reads the entries of an inline table with at least one, and its closing brace. -/
def readPairs (depth : Nat) : Nat → Entries → List Char → Option (Entries × List Char)
  | 0, _, _ => none
  | fuel + 1, entries, cs => do
    let (key, rest) ← readKey maxParts cs
    let .cons '=' rest := rest | none
    let (v, rest) ← readValue depth fuel (skipSpaces rest)
    let entries ← entries.addValue key.dropLast (key.getLastD "") v
    match skipSpaces rest with
    | '\x7d' :: rest => return (entries, rest)
    | ',' :: rest => readPairs depth fuel entries rest
    | _ => none

end

/-- Levels of arrays and inline tables that a value may nest. -/
def maxDepth : Nat := 79

/-! ## Documents -/

/-- Reads the end of a line, which a comment may precede. -/
def endLine (cs : List Char) : Option (List Char) :=
  match skipSpaces cs with
  | [] => some []
  | '\n' :: rest => some rest
  | '#' :: rest => some (rest.dropWhile (· != '\n'))
  | _ => none

/-- What has been read of a document. -/
structure Draft where
  entries : Entries
  /-- Path of the last header. -/
  header : List String

/-- Reads one header or one key with its value. -/
def readStep (d : Draft) (cs : List Char) : Option (Draft × List Char) :=
  match cs with
  | '[' :: '[' :: rest => do
    let (key, rest) ← readKey maxParts rest
    let .cons ']' (.cons ']' rest) := rest | none
    let entries ← d.entries.openItem key.dropLast (key.getLastD "")
    return (⟨entries, key⟩, ← endLine rest)
  | '[' :: rest => do
    let (key, rest) ← readKey maxParts rest
    let .cons ']' rest := rest | none
    let entries ← d.entries.openTable key.dropLast (key.getLastD "")
    return (⟨entries, key⟩, ← endLine rest)
  | cs => do
    let (key, rest) ← readKey maxParts cs
    let .cons '=' rest := rest | none
    let (v, rest) ← readValue maxDepth (2 * rest.length + 2) (skipSpaces rest)
    let entries ← d.entries.within d.header fun inner =>
      inner.addValue key.dropLast (key.getLastD "") v
    return (⟨entries, d.header⟩, ← endLine rest)

/-- Reads a document line by line. -/
def readDocument (d : Draft) (cs : List Char) : Option Entries :=
  match skipLines cs with
  | [] => some d.entries
  | c :: rest =>
    match readStep d (c :: rest) with
    | some (d, rest) => if rest.length < cs.length then readDocument d rest else none
    | none => none
termination_by cs.length

/-- Reads a document as an object. A byte order mark may precede it. -/
def document? (text : String) : Option Value := do
  let cs := text.toList
  let cs ← lines? (if cs.head? = some '\ufeff' then cs.drop 1 else cs)
  let entries ← readDocument ⟨[], []⟩ cs
  return .object (entriesToValues entries)

end GraphQuery.Toml
