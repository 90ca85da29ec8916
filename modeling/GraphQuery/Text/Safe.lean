/-!
# GraphQuery.Text.Safe — names that may stand in a statement

`safe` keeps ASCII letters and digits and the seven characters of `safeMarks`, none of which can
end a quoted region of a statement. `word` replaces all but letters and digits by underscores.
-/

namespace GraphQuery.Text

/-- The marks that may stand in a statement besides letters and digits. -/
def safeMarks : List Char := ['-', '_', ':', '.', '#', '/', '@']

/-- Whether a character may stand in a statement as it is. -/
def isSafe (c : Char) : Bool := c.isAlphanum || safeMarks.contains c

/-- A text without the characters that could end a quoted region. -/
def safe (s : String) : String := String.ofList (s.toList.filter isSafe)

/-- A text as a word of letters, digits and underscores. -/
def word (s : String) : String := s.map fun c => if c.isAlphanum then c else '_'

end GraphQuery.Text
