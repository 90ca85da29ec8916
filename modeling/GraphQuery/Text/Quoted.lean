import GraphQuery.Unicode.Property

/-!
# GraphQuery.Text.Quoted — text quoted for a message

A text in double quotes, in which the quote, the backslash, characters that leave no mark and
characters that attach to others are escaped.
-/

namespace GraphQuery.Text

/-- Hexadecimal digits without leading zeros. -/
def hex (n : Nat) : List Char := (Nat.toDigits 16 n)

/-- A character as it stands in a quoted text. -/
def escapeQuoted (c : Char) : List Char :=
  match c with
  | '"' => ['\\', '"']
  | '\\' => ['\\', '\\']
  | '\n' => ['\\', 'n']
  | '\r' => ['\\', 'r']
  | '\t' => ['\\', 't']
  | '\x00' => ['\\', '0']
  | c =>
    if Unicode.isGraphemeExtend c || !Unicode.isPrintable c then
      ['\\', 'u', '\x7b'] ++ hex c.toNat ++ ['\x7d']
    else [c]

/-- A text in quotes, in which quotes, backslashes and control characters are escaped. -/
def quoted (s : String) : String :=
  String.ofList ('"' :: s.toList.flatMap escapeQuoted ++ ['"'])

end GraphQuery.Text
