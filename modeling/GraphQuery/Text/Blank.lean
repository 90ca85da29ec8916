/-!
# GraphQuery.Text.Blank — white space

`isBlank` holds of the characters with the Unicode property White_Space. `skipComments` drops
blanks together with comments, which begin with `#` and end with their line.
-/

namespace GraphQuery.Text

/-- Code points of the property White_Space, as inclusive ranges. -/
def blankRanges : List (Nat × Nat) :=
  [(0x09, 0x0d), (0x20, 0x20), (0x85, 0x85), (0xa0, 0xa0), (0x1680, 0x1680), (0x2000, 0x200a),
   (0x2028, 0x2029), (0x202f, 0x202f), (0x205f, 0x205f), (0x3000, 0x3000)]

/-- The property White_Space. -/
def isBlank (c : Char) : Bool := blankRanges.any fun (lo, hi) => lo ≤ c.toNat && c.toNat ≤ hi

/-- A text without a character other than white space. -/
def allBlank (s : String) : Bool := s.toList.all isBlank

/-- Drops leading blanks and comments; `inComment` says whether a comment is open. -/
def skipComments (blank : Char → Bool) (inComment : Bool) : List Char → List Char
  | c :: rest =>
    if inComment then skipComments blank (c != '\n') rest
    else if blank c then skipComments blank false rest
    else if c = '#' then skipComments blank true rest
    else c :: rest
  | [] => []

/-- Nothing gets longer by dropping what it begins with. -/
theorem length_skipComments_le (blank : Char → Bool) (inComment : Bool) (cs : List Char) :
    (skipComments blank inComment cs).length ≤ cs.length := by
  induction cs generalizing inComment with
  | nil => simp [skipComments]
  | cons c rest ih =>
    have first := ih (c != '\n')
    have second := ih false
    have third := ih true
    unfold skipComments
    split
    · simp; omega
    · split
      · simp; omega
      · split
        · simp; omega
        · simp

end GraphQuery.Text
