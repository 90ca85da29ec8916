/-!
# GraphQuery.Pattern — regular expressions

1. **Patterns**: single characters, conditions on a place, and their combinations.
2. **Places**: a text of `n` characters has `n + 1` places; a set of places is a list of as many
   flags.
3. **Matching** carries a set of places, where a match may begin, to the set of places where it may
   end. A text matches where that set is not empty for all places together.
-/

namespace GraphQuery

/-- Set of characters, by its membership test. -/
abbrev CharSet := Char → Bool

/-- A condition on the characters around a place. -/
abbrev Look := Option Char → Option Char → Bool

/-- Regular expressions over sets of characters. -/
inductive Pattern
  | empty
  | char (set : CharSet)
  /-- A condition on the characters before and after a place. -/
  | look (condition : Look)
  | concat (a b : Pattern)
  | either (a b : Pattern)
  /-- At least `least` and at most `most` matches in a row. -/
  | repeated (p : Pattern) (least : Nat) (most : Option Nat)

namespace Pattern

/-! ## Places -/

/-- A flag for each place of a text. -/
abbrev Places := List Bool

/-- The places in one of two sets. -/
def Places.union (a b : Places) : Places := List.zipWith (· || ·) a b

/-- Whether there is a place in the set. -/
def Places.any (s : Places) : Bool := s.contains true

/-! ## Matching -/

/-- Applies `step` a given number of times, less often if nothing changes any more. -/
def iterate (step : Places → Places) : Nat → Places → Places
  | 0, s => s
  | n + 1, s =>
    let next := step s
    if next == s then s else iterate step n next

/-- All places that at most `n` applications of `step` reach. -/
def reach (step : Places → Places) : Nat → Places → Places
  | 0, s => s
  | n + 1, s =>
    let next := s.union (step s)
    if next == s then s else reach step n next

/-- Places where matches end that begin at one of the given places. -/
def ends (text : List Char) : Pattern → Places → Places
  | empty, s => s
  | char set, s => false :: List.zipWith (fun here c => here && set c) s text
  | look condition, s =>
    List.zipWith (· && ·) s
      (List.zipWith condition (none :: text.map some) (text.map some ++ [none]))
  | concat a b, s => ends text b (ends text a s)
  | either a b, s => (ends text a s).union (ends text b s)
  | repeated p least most, s =>
    let first := iterate (ends text p) least s
    match most with
    | none => reach (ends text p) (text.length + 1) first
    | some m => reach (ends text p) (m - least) first

/-- Whether some part of the text matches. -/
def matchesText (p : Pattern) (text : String) : Bool :=
  let cs := text.toList
  (ends cs p (List.replicate (cs.length + 1) true)).any

end Pattern

end GraphQuery
