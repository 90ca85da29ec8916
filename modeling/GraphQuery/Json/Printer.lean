import GraphQuery.Json.Value
import GraphQuery.Double.Shortest

/-!
# GraphQuery.Json.Printer — JSON text

1. **Scalars**: integers in decimal, doubles by their fewest digits, strings with the quote, the
   backslash and control characters escaped.
2. **Compact text** has no white space.
3. **Indented text** puts each item and entry on a line of its own, two spaces per level.

Entries are printed in the order in which the object holds them.
-/

namespace GraphQuery.Json

/-! ## Scalars -/

/-- A number as it is printed: integers in full, doubles in their shortest form. -/
def Number.text : Number → String
  | .int i => toString i
  | .double d => d.text

/-- The digit for a number below 16, in lower case. -/
def hexDigit (n : Nat) : Char :=
  if n < 10 then Char.ofNat (48 + n) else Char.ofNat (87 + n)

/-- A character as it stands in a quoted text: quotes, backslashes and control characters are
escaped. -/
def escapeChar (c : Char) : List Char :=
  match c with
  | '"' => ['\\', '"']
  | '\\' => ['\\', '\\']
  | '\n' => ['\\', 'n']
  | '\r' => ['\\', 'r']
  | '\t' => ['\\', 't']
  | '\x08' => ['\\', 'b']
  | '\x0c' => ['\\', 'f']
  | c =>
    if c.toNat < 0x20 then ['\\', 'u', '0', '0', hexDigit (c.toNat / 16), hexDigit (c.toNat % 16)]
    else [c]

/-- A text in quotes. -/
def quote (s : String) : String :=
  String.ofList ('"' :: s.toList.flatMap escapeChar ++ ['"'])

/-! ## Compact text -/

namespace Value

mutual

/-- A value on one line, without blanks. -/
def compact : Value → String
  | null => "null"
  | bool b => if b then "true" else "false"
  | number n => n.text
  | string s => quote s
  | array items => "[" ++ ",".intercalate (compactItems items) ++ "]"
  | object entries => "\x7b" ++ ",".intercalate (compactEntries entries) ++ "\x7d"

def compactItems : List Value → List String
  | [] => []
  | v :: rest => compact v :: compactItems rest

def compactEntries : List (String × Value) → List String
  | [] => []
  | (k, v) :: rest => (quote k ++ ":" ++ compact v) :: compactEntries rest

end

/-! ## Indented text -/

/-- Two blanks for each level. -/
def indentation (level : Nat) : String := String.ofList (List.replicate (2 * level) ' ')

/-- Lines between an opening and a closing bracket; nothing stands between those of no line. -/
def block (opening closing : String) (level : Nat) (lines : List String) : String :=
  if lines.isEmpty then opening ++ closing
  else
    let inner := "\n" ++ indentation (level + 1)
    opening ++ inner ++ ("," ++ inner).intercalate lines ++ "\n" ++ indentation level ++ closing

mutual

/-- A value over several lines; all lines but the first are indented from the level of the value. -/
def indentedAt (level : Nat) : Value → String
  | array items => block "[" "]" level (indentedItems (level + 1) items)
  | object entries => block "\x7b" "\x7d" level (indentedEntries (level + 1) entries)
  | null => "null"
  | bool b => if b then "true" else "false"
  | number n => n.text
  | string s => quote s

def indentedItems (level : Nat) : List Value → List String
  | [] => []
  | v :: rest => indentedAt level v :: indentedItems level rest

def indentedEntries (level : Nat) : List (String × Value) → List String
  | [] => []
  | (k, v) :: rest => (quote k ++ ": " ++ indentedAt level v) :: indentedEntries level rest

end

/-- A value over several lines. -/
def indented (v : Value) : String := indentedAt 0 v

end Value

end GraphQuery.Json
