import GraphQuery.Json.Reader
import GraphQuery.Pattern.Flags

/-!
# GraphQuery.Pattern.Escape — what follows a backslash

1. **Characters by number**, in two, four or eight hexadecimal digits or in braces.
2. **Properties**, in one letter or in braces.
3. **Borders of words**, some of them named in braces.
4. **All escapes** read one of three things: a character, a set or a condition on a place.
-/

namespace GraphQuery.Pattern

/-- What a backslash and the characters after it stand for. -/
inductive Escape
  | literal (c : Char)
  | set (set : CharSet)
  | look (condition : Look)

/-! ## Characters by number -/

/-- The character with a code point. -/
def scalar? (n : Nat) : Option Char := if n.isValidChar then some (Char.ofNat n) else none

/-- Reads a given number of hexadecimal digits. -/
def readHexDigits (f : Flags) (number : Nat) : Nat → List Char → Option (Nat × List Char)
  | 0, cs => some (number, cs)
  | n + 1, c :: rest => do readHexDigits f (number * 16 + (← Json.hexValue? c)) n (f.skip rest)
  | _ + 1, [] => none

/-- The characters up to a closing brace. -/
def readBraced (f : Flags) (seen : List Char) (cs : List Char) : Option (List Char × List Char) :=
  match cs with
  | '\x7d' :: rest => some (seen.reverse, rest)
  | c :: rest => readBraced f (c :: seen) (f.skip rest)
  | [] => none
termination_by cs.length
decreasing_by
  have := f.length_skip_le rest
  simp; omega

/-- Without Unicode, two digits stand for a byte, which has to be an ASCII character. -/
def readNumbered (f : Flags) (digits : Nat) (cs : List Char) : Option (Char × List Char) :=
  match f.skip cs with
  | '\x7b' :: rest => do
    let (name, rest) ← readBraced f [] (f.skip rest)
    if name.isEmpty then none
    else
      let number ← name.foldlM (fun n c => (Json.hexValue? c).map (n * 16 + ·)) 0
      return (← scalar? number, f.skip rest)
  | cs => do
    let (number, rest) ← readHexDigits f 0 digits cs
    if digits = 2 && !f.unicode && 0x80 ≤ number then none
    else return (← scalar? number, rest)

/-! ## Properties -/

/-- Splits at the first place where `mark` occurs. -/
def splitAtMark? (mark : List Char) (seen : List Char) : List Char → Option (List Char × List Char)
  | [] => none
  | c :: rest =>
    if mark.isPrefixOf (c :: rest) then some (seen.reverse, (c :: rest).drop mark.length)
    else splitAtMark? mark (c :: seen) rest

/-- The set of a property as written between braces, with whether its value is ruled out. -/
def bracedProperty? (name : List Char) : Option (Bool × CharSet) :=
  match splitAtMark? ['!', '='] [] name with
  | some (property, value) => (CharSet.propertyValue? property value).map (true, ·)
  | none =>
    match splitAtMark? [':'] [] name <|> splitAtMark? ['='] [] name with
    | some (property, value) => (CharSet.propertyValue? property value).map (false, ·)
    | none => (CharSet.property? name).map (false, ·)

/-- Reads the name of a property after `\p` or `\P`. -/
def readProperty (f : Flags) (negated : Bool) (cs : List Char) : Option (CharSet × List Char) :=
  if !f.unicode then none
  else match f.skip cs with
    | '\x7b' :: rest => do
      let (name, rest) ← readBraced f [] (f.skip rest)
      let (excluded, set) ← bracedProperty? name
      return (← f.negateIf? (negated != excluded) (f.fold set), rest)
    | c :: rest => do
      let set ← if c = '\\' then none else CharSet.property? [c]
      return (← f.negateIf? negated (f.fold set), f.skip rest)
    | [] => none

/-! ## Borders of words -/

/-- Whether there is a character of a word at the place. -/
def wordAt (f : Flags) (c : Option Char) : Bool := c.any f.word

/-- Where a word begins or ends. -/
def border (f : Flags) : Look := fun before after => wordAt f before != wordAt f after

/-- Where no word begins or ends. -/
def noBorder (f : Flags) : Look := fun before after => wordAt f before == wordAt f after

/-- Where a word begins. -/
def wordStart (f : Flags) : Look := fun before after => !wordAt f before && wordAt f after

/-- Where a word ends. -/
def wordEnd (f : Flags) : Look := fun before after => wordAt f before && !wordAt f after

/-- The conditions with names of their own. -/
def borderNamed? (f : Flags) (name : String) : Option Look :=
  match name with
  | "start" => some (wordStart f)
  | "end" => some (wordEnd f)
  | "start-half" => some fun before _ => !wordAt f before
  | "end-half" => some fun _ after => !wordAt f after
  | _ => none

def isNameChar (c : Char) : Bool := c.isAlpha || c == '-'

/-- A brace after `\b` names a border if a letter or a dash follows; else it counts repetitions. -/
def readBorder (f : Flags) (cs : List Char) : Option (Look × List Char) :=
  match cs with
  | '\x7b' :: rest =>
    match f.skip rest with
    | [] => none
    | c :: after =>
      if isNameChar c then do
        let (name, rest) ← readBraced f [] (c :: after)
        return (← borderNamed? f (String.ofList name), rest)
      else some (border f, cs)
  | cs => some (border f, cs)

/-! ## All escapes -/

/-- Letters that stand for a control character. -/
def controlChar? : Char → Option Char
  | 'a' => some '\x07'
  | 'f' => some '\x0c'
  | 't' => some '\t'
  | 'n' => some '\n'
  | 'r' => some '\r'
  | 'v' => some '\x0b'
  | _ => none

/-- Signs that may be escaped and then stand for themselves. -/
def isSign (c : Char) : Bool := c.toNat < 0x80 && !c.isAlphanum && c != '<' && c != '>'

/-- Reads what follows a backslash. -/
def readEscape (f : Flags) : List Char → Option (Escape × List Char)
  | [] => none
  | 'x' :: rest => (readNumbered f 2 rest).map fun (c, rest) => (.literal c, rest)
  | 'u' :: rest => (readNumbered f 4 rest).map fun (c, rest) => (.literal c, rest)
  | 'U' :: rest => (readNumbered f 8 rest).map fun (c, rest) => (.literal c, rest)
  | 'p' :: rest => (readProperty f false rest).map fun (set, rest) => (.set set, rest)
  | 'P' :: rest => (readProperty f true rest).map fun (set, rest) => (.set set, rest)
  | 'd' :: rest => some (.set f.digit, rest)
  | 's' :: rest => some (.set f.space, rest)
  | 'w' :: rest => some (.set f.word, rest)
  | 'D' :: rest => (f.negateIf? true f.digit).map fun set => (.set set, rest)
  | 'S' :: rest => (f.negateIf? true f.space).map fun set => (.set set, rest)
  | 'W' :: rest => (f.negateIf? true f.word).map fun set => (.set set, rest)
  | 'A' :: rest => some (.look fun before _ => before.isNone, rest)
  | 'z' :: rest => some (.look fun _ after => after.isNone, rest)
  | 'b' :: rest => (readBorder f rest).map fun (condition, rest) => (.look condition, rest)
  | 'B' :: rest => some (.look (noBorder f), rest)
  | '<' :: rest => some (.look (wordStart f), rest)
  | '>' :: rest => some (.look (wordEnd f), rest)
  | c :: rest =>
    if isSign c then some (.literal c, rest)
    else (controlChar? c).map fun c => (.literal c, rest)

end GraphQuery.Pattern
