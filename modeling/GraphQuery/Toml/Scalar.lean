import GraphQuery.Json.Reader
import GraphQuery.Text.Blank

/-!
# GraphQuery.Toml.Scalar — strings, numbers and moments

1. **Characters**: blanks within a line, and the control characters that a text must not hold.
2. **Strings** in one line or several, with escapes or without.
3. **Numbers** group their digits by single underscores. Integers fit 64 bits.
4. **Moments** are dates, times of day, and both together, which may have an offset.
5. **Words**: any other value is told by the characters up to the next delimiter.
-/

namespace GraphQuery.Toml

/-! ## Characters -/

def isSpace (c : Char) : Bool := c == ' ' || c == '\t'

def skipSpaces (cs : List Char) : List Char := cs.dropWhile isSpace

/-- Writes every end of a line as a line feed, and refuses other control characters but tabs. -/
def lines? : List Char → Option (List Char)
  | '\r' :: '\n' :: rest => (lines? rest).map ('\n' :: ·)
  | c :: rest =>
    if c == '\t' || c == '\n' || (0x20 ≤ c.toNat && c.toNat != 0x7f) then
      (lines? rest).map (c :: ·)
    else none
  | [] => some []

/-! ## Strings -/

/-- The character with a code point in hexadecimal digits. -/
def scalarOf? (digits : List Char) : Option Char := do
  let n ← digits.foldlM (fun n c => (Json.hexValue? c).map (n * 16 + ·)) 0
  if n.isValidChar then some (Char.ofNat n) else none

/-- Reads what follows a backslash. -/
def readEscape : List Char → Option (Char × List Char)
  | 'b' :: rest => some ('\x08', rest)
  | 't' :: rest => some ('\t', rest)
  | 'n' :: rest => some ('\n', rest)
  | 'f' :: rest => some ('\x0c', rest)
  | 'r' :: rest => some ('\r', rest)
  | '"' :: rest => some ('"', rest)
  | '\\' :: rest => some ('\\', rest)
  | 'u' :: rest =>
    if rest.length < 4 then none else (scalarOf? (rest.take 4)).map (·, rest.drop 4)
  | 'U' :: rest =>
    if rest.length < 8 then none else (scalarOf? (rest.take 8)).map (·, rest.drop 8)
  | _ => none

/-- Reads a string of one line up to the closing quote. -/
def readLine (quote : Char) (seen : List Char) (cs : List Char) : Option (String × List Char) :=
  match cs with
  | [] => none
  | c :: rest =>
    if c = quote then some (String.ofList seen.reverse, rest)
    else if c = '\n' then none
    else if c = '\\' ∧ quote = '"' then
      match readEscape rest with
      | some (c, after) =>
        if after.length ≤ rest.length then readLine quote (c :: seen) after else none
      | none => none
    else readLine quote (c :: seen) rest
termination_by cs.length

/-- A backslash at the end of a line joins the next line that is not blank. -/
def joinLines? (cs : List Char) : Option (List Char) :=
  if (skipSpaces cs).head? = some '\n' then
    some (cs.dropWhile fun c => isSpace c || c == '\n')
  else none

/-- Reads a string of several lines up to three closing quotes, of which up to two more may stand
before them. `quotes` counts the quotes just read. -/
def readLong (quote : Char) (quotes : Nat) (seen : List Char) (cs : List Char) :
    Option (String × List Char) :=
  let close : Option (String × List Char) :=
    if quotes ≤ 5 then
      some (String.ofList (List.replicate (quotes - 3) quote ++ seen).reverse, cs)
    else none
  match cs with
  | [] => if 3 ≤ quotes then close else none
  | c :: rest =>
    if c = quote then readLong quote (quotes + 1) seen rest
    else if 3 ≤ quotes then close
    else
      let seen := List.replicate quotes quote ++ seen
      if c = '\\' ∧ quote = '"' then
        match joinLines? rest with
        | some after =>
          if after.length ≤ rest.length then readLong quote 0 seen after else none
        | none =>
          match readEscape rest with
          | some (c, after) =>
            if after.length ≤ rest.length then readLong quote 0 (c :: seen) after else none
          | none => none
      else readLong quote 0 (c :: seen) rest
termination_by cs.length

/-- Reads a string after its opening quote. -/
def readString (quote : Char) : List Char → Option (String × List Char)
  | c :: d :: rest =>
    if c = quote ∧ d = quote then
      readLong quote 0 [] (if rest.head? = some '\n' then rest.drop 1 else rest)
    else readLine quote [] (c :: d :: rest)
  | cs => readLine quote [] cs

/-! ## Numbers -/

/-- Digits without the single underscores between them. -/
def ungrouped? (isDigit : Char → Bool) : List Char → Option (List Char)
  | [] => none
  | [c] => if isDigit c then some [c] else none
  | c :: '_' :: rest => if isDigit c then (ungrouped? isDigit rest).map (c :: ·) else none
  | c :: rest => if isDigit c then (ungrouped? isDigit rest).map (c :: ·) else none

/-- Reads digits, with single underscores between them. -/
def numberOf? (base : Nat) (cs : List Char) : Option Nat := do
  let isDigit (c : Char) : Bool := (Json.hexValue? c).any (· < base)
  let digits ← ungrouped? isDigit cs
  return digits.foldl (fun n c => n * base + (Json.hexValue? c).getD 0) 0

/-- A decimal number does not begin with a zero unless it is zero. -/
def decimal? (cs : List Char) : Option Nat :=
  if cs.head? = some '0' ∧ 1 < cs.length then none else numberOf? 10 cs

/-- Whether there is a minus sign, and what follows the sign. -/
def splitSign : List Char → Bool × List Char
  | '-' :: rest => (true, rest)
  | '+' :: rest => (false, rest)
  | cs => (false, cs)

/-- Reads an integer in decimal form, or in another base with its prefix. -/
def integer? (cs : List Char) : Option Int := do
  let n : Int ← match cs with
    | '0' :: 'x' :: rest => numberOf? 16 rest
    | '0' :: 'o' :: rest => numberOf? 8 rest
    | '0' :: 'b' :: rest => numberOf? 2 rest
    | cs =>
      let (negative, digits) := splitSign cs
      (decimal? digits).map fun n => if negative then -(n : Int) else n
  if -Int.pow 2 63 ≤ n ∧ n < Int.pow 2 63 then some n else none

/-- Whether a text can follow the mark of an exponent. -/
def isExponent (cs : List Char) : Bool := (numberOf? 10 (splitSign cs).2).isSome

/-- Whether a text can follow the point of a number. -/
def isFraction (cs : List Char) : Bool :=
  let isMark (c : Char) : Bool := c == 'e' || c == 'E'
  (numberOf? 10 (cs.takeWhile (!isMark ·))).isSome &&
    match cs.dropWhile (!isMark ·) with
    | [] => true
    | _ :: exponent => isExponent exponent

/-- Whether a text is a number with a fraction or an exponent, or a special one. -/
def isFloat (cs : List Char) : Bool :=
  let (_, cs) := splitSign cs
  let ends (c : Char) : Bool := c == '.' || c == 'e' || c == 'E'
  cs == ['i', 'n', 'f'] || cs == ['n', 'a', 'n'] ||
    (decimal? (cs.takeWhile (!ends ·))).isSome &&
      match cs.dropWhile (!ends ·) with
      | '.' :: fraction => isFraction fraction
      | _ :: exponent => isExponent exponent
      | [] => false

/-! ## Moments -/

/-- Reads two digits whose number lies within bounds. -/
def twoDigits? (low high : Nat) : List Char → Option (Nat × List Char)
  | a :: b :: rest =>
    let n := Json.digitValue a * 10 + Json.digitValue b
    if Json.isDigit a && Json.isDigit b && low ≤ n && n ≤ high then some (n, rest) else none
  | _ => none

/-- Passes over a character that must be there. -/
def expect? (c : Char) : List Char → Option (List Char)
  | d :: rest => if d = c then some rest else none
  | [] => none

/-- The number of days in a month. -/
def daysOf (year month : Nat) : Nat :=
  if month = 2 then
    if year % 4 = 0 ∧ (year % 100 ≠ 0 ∨ year % 400 = 0) then 29 else 28
  else if month = 4 ∨ month = 6 ∨ month = 9 ∨ month = 11 then 30
  else 31

/-- Passes over a date. -/
def date? (cs : List Char) : Option (List Char) := do
  let (century, rest) ← twoDigits? 0 99 cs
  let (year, rest) ← twoDigits? 0 99 rest
  let (month, rest) ← twoDigits? 1 12 (← expect? '-' rest)
  let (_, rest) ← twoDigits? 1 (daysOf (century * 100 + year) month) (← expect? '-' rest)
  return rest

/-- Passes over a time of the day. -/
def time? (cs : List Char) : Option (List Char) := do
  let (_, rest) ← twoDigits? 0 23 cs
  let (_, rest) ← twoDigits? 0 59 (← expect? ':' rest)
  let (_, rest) ← twoDigits? 0 60 (← expect? ':' rest)
  match rest with
  | '.' :: fraction =>
    if (fraction.takeWhile Json.isDigit).isEmpty then none
    else return fraction.dropWhile Json.isDigit
  | rest => return rest

/-- Whether a text is the offset of a time from the universal one, or nothing. -/
def isOffset : List Char → Bool
  | [] | ['Z'] | ['z'] => true
  | sign :: rest =>
    (sign == '+' || sign == '-') &&
      ((do
        let (_, rest) ← twoDigits? 0 23 rest
        let (_, rest) ← twoDigits? 0 59 (← expect? ':' rest)
        return rest.isEmpty) == some true)

/-- Whether a text is a date, a time or both. -/
def isMoment (cs : List Char) : Bool :=
  match date? cs with
  | some [] => true
  | some (c :: rest) =>
    (c == 'T' || c == 't' || c == ' ') && (time? rest).any isOffset
  | none => (time? cs).any List.isEmpty

/-! ## Words -/

def isWordChar (c : Char) : Bool :=
  c.isAlphanum || c == '+' || c == '-' || c == '.' || c == '_' || c == ':'

/-- Splits off the characters up to the next delimiter. A blank may stand between a date and a
time of day. -/
def splitWord (cs : List Char) : List Char × List Char :=
  let word := cs.takeWhile isWordChar
  let rest := cs.dropWhile isWordChar
  match date? word, rest with
  | some [], ' ' :: after =>
    if (after.headD ' ').isDigit then
      (word ++ ' ' :: after.takeWhile isWordChar, after.dropWhile isWordChar)
    else (word, rest)
  | _, _ => (word, rest)

end GraphQuery.Toml
