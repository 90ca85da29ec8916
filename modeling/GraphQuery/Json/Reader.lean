import GraphQuery.Json.Value

/-!
# GraphQuery.Json.Reader — reading JSON text

1. **Strings** refuse raw control characters and escapes of half a surrogate pair.
2. **Numbers** without fraction and exponent are integers while they fit 64 bits; `-0` and all
   others are doubles.
3. **Values** nest at most 127 levels deep. Entries keep their written order and repetitions, so
   that a reader of records can refuse a repeated field.
-/

namespace GraphQuery.Json

/-- White space between values. -/
def isBlank (c : Char) : Bool := c == ' ' || c == '\n' || c == '\t' || c == '\r'

/-- Passes over white space. -/
def skipBlank (cs : List Char) : List Char := cs.dropWhile isBlank

/-! ## Strings -/

/-- The number that a hexadecimal digit stands for, in either case. -/
def hexValue? (c : Char) : Option Nat :=
  if '0' ≤ c && c ≤ '9' then some (c.toNat - 48)
  else if 'a' ≤ c && c ≤ 'f' then some (c.toNat - 87)
  else if 'A' ≤ c && c ≤ 'F' then some (c.toNat - 55)
  else none

/-- The number that four hexadecimal digits stand for. -/
def unit? (a b c d : Char) : Option Nat := do
  return (← hexValue? a) * 4096 + (← hexValue? b) * 256 + (← hexValue? c) * 16 + (← hexValue? d)

/-- Whether a unit begins a pair that stands for one character. -/
def isLeading (unit : Nat) : Bool := 0xd800 ≤ unit && unit < 0xdc00

/-- Whether a unit ends such a pair. -/
def isTrailing (unit : Nat) : Bool := 0xdc00 ≤ unit && unit < 0xe000

/-- The character that a pair stands for. -/
def joinPair (lead trail : Nat) : Char :=
  Char.ofNat (0x10000 + (lead - 0xd800) * 0x400 + (trail - 0xdc00))

/-- What a backslash and one more character stand for. -/
def escaped? : Char → Option Char
  | '"' => some '"'
  | '\\' => some '\\'
  | '/' => some '/'
  | 'b' => some '\x08'
  | 'f' => some '\x0c'
  | 'n' => some '\n'
  | 'r' => some '\r'
  | 't' => some '\t'
  | _ => none

/-- Reads up to the closing quote; `seen` holds the characters so far, last one first. -/
def readString (seen : List Char) : List Char → Option (String × List Char)
  | '"' :: rest => some (String.ofList seen.reverse, rest)
  | '\\' :: 'u' :: a :: b :: c :: d :: '\\' :: 'u' :: e :: f :: g :: h :: rest => do
    let lead ← unit? a b c d
    if isLeading lead then
      let trail ← unit? e f g h
      if isTrailing trail then readString (joinPair lead trail :: seen) rest else none
    else if isTrailing lead then none
    else readString (Char.ofNat lead :: seen) ('\\' :: 'u' :: e :: f :: g :: h :: rest)
  | '\\' :: 'u' :: a :: b :: c :: d :: rest => do
    let unit ← unit? a b c d
    if isLeading unit || isTrailing unit then none
    else readString (Char.ofNat unit :: seen) rest
  | '\\' :: c :: rest => do readString ((← escaped? c) :: seen) rest
  | c :: rest => if c.toNat < 0x20 then none else readString (c :: seen) rest
  | [] => none

/-! ## Numbers -/

def isDigit (c : Char) : Bool := '0' ≤ c && c ≤ '9'

/-- The number that a decimal digit stands for. -/
def digitValue (c : Char) : Nat := c.toNat - 48

/-- Takes digits as long as the number so far stays below `2 ^ 64`. -/
def takeDigits (number count : Nat) : List Char → Nat × Nat × List Char
  | c :: rest =>
    if isDigit c && number * 10 + digitValue c < Nat.pow 2 64 then
      takeDigits (number * 10 + digitValue c) (count + 1) rest
    else (number, count, c :: rest)
  | [] => (number, count, [])

/-- Exponent part, if there is one. Digits that were left out before it count in `scale`. -/
def readScaled (negative : Bool) (digits : Nat) (scale : Int) (cs : List Char) :
    Option (Double × List Char) :=
  let read (negativeExponent : Bool) (cs : List Char) : Option (Double × List Char) :=
    match cs.takeWhile isDigit, cs.dropWhile isDigit with
    | [], _ => none
    | ds, rest =>
      let e : Int := ds.foldl (fun n c => n * 10 + digitValue c) 0
      (Double.ofDecimal? negative digits (if negativeExponent then scale - e else scale + e)).map
        (·, rest)
  match cs with
  | 'e' :: '-' :: rest | 'E' :: '-' :: rest => read true rest
  | 'e' :: '+' :: rest | 'E' :: '+' :: rest => read false rest
  | 'e' :: rest | 'E' :: rest => read false rest
  | _ => (Double.ofDecimal? negative digits scale).map (·, cs)

/-- Fraction and exponent parts. Digits that no longer fit 64 bits are dropped. -/
def readFraction (negative : Bool) (digits : Nat) (scale : Int) (cs : List Char) :
    Option (Double × List Char) :=
  match cs with
  | '.' :: rest =>
    let (digits, count, after) := takeDigits digits 0 rest
    if (rest.takeWhile isDigit).isEmpty then none
    else readScaled negative digits (scale - count) (after.dropWhile isDigit)
  | _ => readScaled negative digits scale cs

/-- Reads the digits of a number whose sign has been read. -/
def readNumber (negative : Bool) (cs : List Char) : Option (Number × List Char) :=
  let plain (digits : Nat) (rest : List Char) : Option (Number × List Char) :=
    match rest with
    | '.' :: _ | 'e' :: _ | 'E' :: _ =>
      (readFraction negative digits 0 rest).map fun (d, rest) => (.double d, rest)
    | _ =>
      if !negative then some (.int digits, rest)
      else if digits == 0 || digits > Nat.pow 2 63 then
        some (.double { Double.ofInt digits with negative := true }, rest)
      else some (.int (-digits), rest)
  match cs with
  | '0' :: c :: rest => if isDigit c then none else plain 0 (c :: rest)
  | ['0'] => plain 0 []
  | c :: _ =>
    if !isDigit c then none
    else
      let (digits, _, rest) := takeDigits 0 0 cs
      match rest with
      | r :: _ =>
        if isDigit r then
          -- too long for 64 bits: the further digits only count
          let dropped := (rest.takeWhile isDigit).length
          (readFraction negative digits dropped (rest.dropWhile isDigit)).map
            fun (d, rest) => (.double d, rest)
        else plain digits rest
      | [] => plain digits rest
  | [] => none

/-! ## Values -/

mutual

/-- Reads one value; `depth` more levels may be opened, and `fuel` bounds the steps. -/
def readValue (depth : Nat) : Nat → List Char → Option (Value × List Char)
  | 0, _ => none
  | fuel + 1, cs =>
    match skipBlank cs with
    | 'n' :: 'u' :: 'l' :: 'l' :: rest => some (.null, rest)
    | 't' :: 'r' :: 'u' :: 'e' :: rest => some (.bool true, rest)
    | 'f' :: 'a' :: 'l' :: 's' :: 'e' :: rest => some (.bool false, rest)
    | '"' :: rest => (readString [] rest).map fun (s, rest) => (.string s, rest)
    | '-' :: rest => (readNumber true rest).map fun (n, rest) => (.number n, rest)
    | '[' :: rest =>
      if depth == 0 then none
      else match skipBlank rest with
        | ']' :: rest => some (.array [], rest)
        | rest => (readItems (depth - 1) fuel rest).map fun (vs, rest) => (.array vs, rest)
    | '\x7b' :: rest =>
      if depth == 0 then none
      else match skipBlank rest with
        | '\x7d' :: rest => some (.object [], rest)
        | rest => (readEntries (depth - 1) fuel rest).map fun (es, rest) => (.object es, rest)
    | rest => (readNumber false rest).map fun (n, rest) => (.number n, rest)

/-- Reads the items of an array with at least one, and its closing bracket. -/
def readItems (depth : Nat) : Nat → List Char → Option (List Value × List Char)
  | 0, _ => none
  | fuel + 1, cs => do
    let (v, rest) ← readValue depth fuel cs
    match skipBlank rest with
    | ']' :: rest => return ([v], rest)
    | ',' :: rest =>
      let (vs, rest) ← readItems depth fuel rest
      return (v :: vs, rest)
    | _ => none

/-- Reads the entries of an object with at least one, and its closing brace. -/
def readEntries (depth : Nat) : Nat → List Char → Option (List (String × Value) × List Char)
  | 0, _ => none
  | fuel + 1, cs => do
    let .cons '"' rest := skipBlank cs | none
    let (key, rest) ← readString [] rest
    let .cons ':' rest := skipBlank rest | none
    let (v, rest) ← readValue depth fuel rest
    match skipBlank rest with
    | '\x7d' :: rest => return ([(key, v)], rest)
    | ',' :: rest =>
      let (es, rest) ← readEntries depth fuel rest
      return ((key, v) :: es, rest)
    | _ => none

end

/-- Levels of arrays and objects that a text may nest. -/
def maxDepth : Nat := 127

/-- Reads a text that holds one value; objects keep their entries as written. Every step of the
reader takes a character or closes a level, so twice the length bounds the steps. -/
def Value.ofText? (text : String) : Option Value := do
  let cs := text.toList
  let (v, rest) ← readValue maxDepth (2 * cs.length + 2) cs
  if (skipBlank rest).isEmpty then some v else none

end GraphQuery.Json
