import GraphQuery.Pattern.CharSet

/-!
# GraphQuery.Pattern.Flags — settings within a pattern

1. **Flags** are set by letters, as in `(?i)` and `(?-u:…)`. They hold up to the end of the group in
   which they are set.
2. **Ignored text**: with the flag `x`, white space and comments do not count.
3. **Meaning of single parts** under given flags.
-/

namespace GraphQuery.Pattern

/-! ## Flags -/

/-- What a pattern may set for the characters that follow. -/
structure Flags where
  /-- Letters match in either case. -/
  caseless : Bool
  /-- The anchors hold at the ends of lines. -/
  byLine : Bool
  /-- The dot matches the end of a line. -/
  dotAll : Bool
  /-- White space and comments are ignored. -/
  spaced : Bool
  /-- Sets reach beyond ASCII. -/
  unicode : Bool
  /-- A carriage return ends a line too. -/
  returns : Bool
deriving Repr, DecidableEq

/-- The flags at the start of a pattern. -/
def Flags.default : Flags := ⟨false, false, false, false, true, false⟩

/-- Sets the flag of a letter. Preference for short matches (`U`) decides nothing here. -/
def Flags.set? (f : Flags) (value : Bool) : Char → Option Flags
  | 'i' => some { f with caseless := value }
  | 'm' => some { f with byLine := value }
  | 's' => some { f with dotAll := value }
  | 'x' => some { f with spaced := value }
  | 'u' => some { f with unicode := value }
  | 'R' => some { f with returns := value }
  | 'U' => some f
  | _ => none

/-- Reads the letters of flags up to the colon that opens a group (`true`) or the parenthesis
that ends the setting (`false`). `seen` holds the characters so far, last one first. -/
def readFlags (f : Flags) (value : Bool) (seen : List Char) :
    List Char → Option (Flags × Bool × List Char)
  | ':' :: rest => if seen.head? = some '-' then none else some (f, true, rest)
  | ')' :: rest =>
    if seen.isEmpty || seen.head? = some '-' then none else some (f, false, rest)
  | c :: rest =>
    if seen.contains c then none
    else if c = '-' then readFlags f false ('-' :: seen) rest
    else match f.set? value c with
      | some f => readFlags f value (c :: seen) rest
      | none => none
  | [] => none

/-! ## Ignored text -/

/-- Passes over white space and comments, if these do not count. -/
def Flags.skip (f : Flags) (cs : List Char) : List Char :=
  if f.spaced then Text.skipComments Text.isBlank false cs else cs

theorem Flags.length_skip_le (f : Flags) (cs : List Char) : (f.skip cs).length ≤ cs.length := by
  unfold Flags.skip
  split
  · exact Text.length_skipComments_le Text.isBlank false cs
  · exact Nat.le_refl _

/-! ## Meaning of single parts -/

/-- The digits that `\d` stands for. -/
def Flags.digit (f : Flags) : CharSet := if f.unicode then CharSet.digit else CharSet.asciiDigit

/-- The white space that `\s` stands for. -/
def Flags.space (f : Flags) : CharSet := if f.unicode then Text.isBlank else CharSet.asciiSpace

/-- The characters of words that `\w` stands for. -/
def Flags.word (f : Flags) : CharSet :=
  if f.unicode then Unicode.isWordChar else CharSet.asciiWord

/-- A set, with the other cases of its characters if case does not count. -/
def Flags.fold (f : Flags) (set : CharSet) : CharSet :=
  if f.caseless then
    if f.unicode then set.folded else set.foldedAscii
  else set

/-- Complements are refused where sets are confined to ASCII. -/
def Flags.negateIf? (f : Flags) (negated : Bool) (set : CharSet) : Option CharSet :=
  if negated then
    if f.unicode then some set.complement else none
  else some set

/-- What a dot stands for; it is refused where sets are confined to ASCII. -/
def Flags.dot? (f : Flags) : Option CharSet :=
  if !f.unicode then none
  else if f.dotAll then some fun _ => true
  else if f.returns then some fun c => c != '\n' && c != '\r'
  else some fun c => c != '\n'

/-- Where `^` holds. -/
def Flags.start (f : Flags) : Look := fun before after =>
  before.isNone ||
    (f.byLine && (before == some '\n' || (f.returns && before == some '\r' && after != some '\n')))

/-- Where `$` holds. -/
def Flags.stop (f : Flags) : Look := fun before after =>
  after.isNone ||
    (f.byLine && if f.returns then after == some '\r' || (after == some '\n' && before != some '\r')
      else after == some '\n')

end GraphQuery.Pattern
