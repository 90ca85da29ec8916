import GraphQuery.Pattern
import GraphQuery.Unicode.Folding
import GraphQuery.Unicode.Property
import GraphQuery.Unicode.Script

/-!
# GraphQuery.Pattern.CharSet — sets of characters that patterns name

1. **Operations** on sets. `folded` closes a set under change of case.
2. **Basic sets**: digits, spaces and word characters, of all scripts or of ASCII alone.
3. **Named ASCII sets**, as in `[:alpha:]`.
4. **Properties**, as in `\p{Greek}` and `\p{gc=Lu}`. Names are compared without regard to case,
   spaces, dashes, underscores and a leading `is`.
-/

namespace GraphQuery.CharSet

/-! ## Operations -/

/-- The characters in one of two sets. -/
def union (a b : CharSet) : CharSet := fun c => a c || b c

/-- The characters in both of two sets. -/
def inter (a b : CharSet) : CharSet := fun c => a c && b c

/-- The characters in the first set but not in the second. -/
def without (a b : CharSet) : CharSet := fun c => a c && !b c

/-- The characters of exactly one of two sets. -/
def differing (a b : CharSet) : CharSet := fun c => a c != b c

/-- The characters outside a set. -/
def complement (a : CharSet) : CharSet := fun c => !a c

/-- The set of one character. -/
def single (c : Char) : CharSet := fun d => d == c

/-- The characters from a first one to a last one. -/
def span (first last : Char) : CharSet := fun c => first ≤ c && c ≤ last

def none : CharSet := fun _ => false

/-- The characters that differ from one in the set by their case at most. -/
def folded (a : CharSet) : CharSet := fun c => (Unicode.variants c).any a

/-- Closes a set under change of case of ASCII letters. -/
def foldedAscii (a : CharSet) : CharSet := fun c => a c || a c.toLower || a c.toUpper

/-! ## Basic sets -/

/-- The decimal digits of all scripts. -/
def digit : CharSet := fun c => Unicode.category c = .decimalNumber

def asciiDigit : CharSet := span '0' '9'

/-- The white space among ASCII characters. -/
def asciiSpace : CharSet := fun c => c == ' ' || ('\t' ≤ c && c ≤ '\r')

/-- The characters of words among ASCII characters. -/
def asciiWord : CharSet := fun c => c.isAlphanum || c == '_'

def isAscii : CharSet := fun c => c.toNat < 0x80

/-! ## Named ASCII sets -/

/-- The sets of ASCII characters with a name. -/
def asciiNamed? (name : String) : Option CharSet :=
  match name with
  | "alnum" => some Char.isAlphanum
  | "alpha" => some Char.isAlpha
  | "ascii" => some isAscii
  | "blank" => some fun c => c == '\t' || c == ' '
  | "cntrl" => some fun c => c.toNat < 0x20 || c.toNat == 0x7f
  | "digit" => some asciiDigit
  | "graph" => some (span '!' '~')
  | "lower" => some (span 'a' 'z')
  | "print" => some (span ' ' '~')
  | "punct" => some fun c => span '!' '~' c && !c.isAlphanum
  | "space" => some asciiSpace
  | "upper" => some (span 'A' 'Z')
  | "word" => some asciiWord
  | "xdigit" => some fun c => c.isDigit || ('a' ≤ c && c ≤ 'f') || ('A' ≤ c && c ≤ 'F')
  | _ => Option.none

/-! ## Properties -/

/-- The form in which names of properties are compared. -/
def propertyName (name : List Char) : String :=
  let small := name.map Char.toLower
  let isMarked := small.take 2 == ['i', 's']
  let kept := (if isMarked then small.drop 2 else small).filter fun c =>
    c != ' ' && c != '_' && c != '-' && c.toNat < 0x80
  if isMarked && kept == ['c'] then "isc" else String.ofList kept

/-- The general categories that a name stands for. -/
def categoryNamed? (name : String) : Option (Unicode.Category → Bool) :=
  match name with
  | "l" | "letter" => some Unicode.Category.isLetter
  | "lc" | "casedletter" => some fun c =>
    c = .uppercaseLetter || c = .lowercaseLetter || c = .titlecaseLetter
  | "lu" | "uppercaseletter" => some (· = .uppercaseLetter)
  | "ll" | "lowercaseletter" => some (· = .lowercaseLetter)
  | "lt" | "titlecaseletter" => some (· = .titlecaseLetter)
  | "lm" | "modifierletter" => some (· = .modifierLetter)
  | "lo" | "otherletter" => some (· = .otherLetter)
  | "m" | "mark" | "combiningmark" => some Unicode.Category.isMark
  | "mn" | "nonspacingmark" => some (· = .nonspacingMark)
  | "mc" | "spacingmark" => some (· = .spacingMark)
  | "me" | "enclosingmark" => some (· = .enclosingMark)
  | "n" | "number" => some Unicode.Category.isNumber
  | "nd" | "decimalnumber" | "digit" => some (· = .decimalNumber)
  | "nl" | "letternumber" => some (· = .letterNumber)
  | "no" | "othernumber" => some (· = .otherNumber)
  | "p" | "punctuation" | "punct" => some Unicode.Category.isPunctuation
  | "pc" | "connectorpunctuation" => some (· = .connectorPunctuation)
  | "pd" | "dashpunctuation" => some (· = .dashPunctuation)
  | "ps" | "openpunctuation" => some (· = .openPunctuation)
  | "pe" | "closepunctuation" => some (· = .closePunctuation)
  | "pi" | "initialpunctuation" => some (· = .initialPunctuation)
  | "pf" | "finalpunctuation" => some (· = .finalPunctuation)
  | "po" | "otherpunctuation" => some (· = .otherPunctuation)
  | "s" | "symbol" => some Unicode.Category.isSymbol
  | "sm" | "mathsymbol" => some (· = .mathSymbol)
  | "sc" | "currencysymbol" => some (· = .currencySymbol)
  | "sk" | "modifiersymbol" => some (· = .modifierSymbol)
  | "so" | "othersymbol" => some (· = .otherSymbol)
  | "z" | "separator" => some Unicode.Category.isSeparator
  | "zs" | "spaceseparator" => some (· = .spaceSeparator)
  | "zl" | "lineseparator" => some (· = .lineSeparator)
  | "zp" | "paragraphseparator" => some (· = .paragraphSeparator)
  | "c" | "other" => some Unicode.Category.isOther
  | "cc" | "control" | "cntrl" => some (· = .control)
  | "cf" | "format" => some (· = .format)
  | "co" | "privateuse" => some (· = .privateUse)
  | "cn" | "unassigned" => some (· = .unassigned)
  | "any" => some fun _ => true
  | "assigned" => some (· ≠ .unassigned)
  | _ => Option.none

/-- The set of a general category, with the set of all ASCII characters among them. -/
def categorySet? (name : String) : Option CharSet :=
  if name = "ascii" then some isAscii
  else (categoryNamed? name).map fun holds c => holds (Unicode.category c)

/-- The characters of a script. -/
def scriptSet? (name : String) : Option CharSet :=
  (Unicode.scriptCode? name).map fun code c => Unicode.script c == code

/-- Properties that a character has or lacks. -/
def binarySet? (name : String) : Option CharSet :=
  match name with
  | "alphabetic" | "alpha" => some Unicode.isAlphabetic
  | "lowercase" | "lower" => some Unicode.isLowercase
  | "uppercase" | "upper" => some Unicode.isUppercase
  | "cased" => some fun c =>
    Unicode.isLowercase c || Unicode.isUppercase c || Unicode.category c = .titlecaseLetter
  | "whitespace" | "wspace" | "space" => some Text.isBlank
  | "graphemeextend" | "grext" => some Unicode.isGraphemeExtend
  | "joincontrol" | "joinc" => some fun c => c == '\u200c' || c == '\u200d'
  | "asciihexdigit" | "ahex" => asciiNamed? "xdigit"
  | _ => Option.none

/-- The set of a property that is given by a single name. -/
def property? (name : List Char) : Option CharSet :=
  let name := propertyName name
  binarySet? name <|> categorySet? name <|> scriptSet? name

/-- The set of a property that is given by name and value. -/
def propertyValue? (name value : List Char) : Option CharSet :=
  match propertyName name with
  | "gc" | "generalcategory" => categorySet? (propertyName value)
  | "sc" | "script" => scriptSet? (propertyName value)
  | _ => Option.none

end GraphQuery.CharSet
