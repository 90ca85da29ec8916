/-!
# GraphQuery.Unicode.Runs — tables over all characters

A property that gives every character a label is stored as runs: the code point where a run
begins, and its label. A run ends where the next one begins.

1. **Reading** a table from lines of words, each a code point in hexadecimal digits followed by a
   label that begins with a capital letter.
2. **Looking up** a code point by bisection.
-/

namespace GraphQuery.Unicode

/-- Code points with the same label, from the first one up to where the next run begins. -/
structure Run (α : Type) where
  first : Nat
  label : α

/-! ## Reading -/

def isHexDigit (c : Char) : Bool := ('0' ≤ c && c ≤ '9') || ('a' ≤ c && c ≤ 'f')

/-- The number that hexadecimal digits stand for. -/
def hexNumber (cs : List Char) : Nat :=
  cs.foldl (fun n c => n * 16 + if c ≤ '9' then c.toNat - 48 else c.toNat - 87) 0

/-- Reads a run: the digits of its first code point, and its label right after them. -/
def Run.ofWord? {α : Type} (label? : List Char → Option α) (word : List Char) : Option (Run α) :=
  (label? (word.dropWhile isHexDigit)).map fun label =>
    ⟨hexNumber (word.takeWhile isHexDigit), label⟩

/-- The words of lines, which are parted by single blanks. -/
def words (lines : List String) : List (List Char) :=
  lines.flatMap fun line => (line.splitOn " ").map String.toList

/-- Reads a table of runs. Words that are no runs are left out. -/
def runs {α : Type} (label? : List Char → Option α) (lines : List String) : Array (Run α) :=
  ((words lines).filterMap (Run.ofWord? label?)).toArray

/-- Inclusive ranges, each written as one code point or as two joined by a dash. -/
def ranges (lines : List String) : Array (Nat × Nat) :=
  ((words lines).map fun word =>
    let first := hexNumber (word.takeWhile isHexDigit)
    match word.dropWhile isHexDigit with
    | '-' :: last => (first, hexNumber last)
    | _ => (first, first)).toArray

/-! ## Looking up -/

/-- The last run between `low` and `high` that begins at `n` or before it; the one at `low` does. -/
def bisect {α : Type} (table : Array (Run α)) (n low high : Nat) : Option (Run α) :=
  if low + 1 < high then
    let middle := (low + high) / 2
    if table[middle]?.any (·.first ≤ n) then bisect table n middle high
    else bisect table n low middle
  else table[low]?
termination_by high - low

/-- The run in which a code point lies. -/
def lookUp? {α : Type} (table : Array (Run α)) (n : Nat) : Option (Run α) :=
  bisect table n 0 table.size

/-- Whether a code point lies in one of the ranges. -/
def inRanges (table : Array (Nat × Nat)) (n : Nat) : Bool :=
  table.any fun (low, high) => low ≤ n && n ≤ high

end GraphQuery.Unicode
