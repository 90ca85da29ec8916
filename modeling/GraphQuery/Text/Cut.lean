/-!
# GraphQuery.Text.Cut — leading parts of a text

1. `dropLeading?` takes a given text off the front of another.
2. `beforeLast?` and `afterLast?` cut at the last occurrence of a character.
-/

namespace GraphQuery.Text

/-- The characters after `lead`, where the list begins with it. -/
def rest? : List Char → List Char → Option (List Char)
  | [], cs => some cs
  | l :: lead, c :: cs => if l = c then rest? lead cs else none
  | _ :: _, [] => none

theorem rest?_eq_some_iff {lead cs rest : List Char} :
    rest? lead cs = some rest ↔ cs = lead ++ rest := by
  induction lead generalizing cs with
  | nil => simp [rest?]
  | cons l lead ih =>
    cases cs with
    | nil => simp [rest?]
    | cons c cs =>
      rw [rest?, List.cons_append, List.cons.injEq, ← ih]
      by_cases h : l = c <;> simp [h, eq_comm]

/-- A text without what it begins with. -/
def dropLeading? (lead s : String) : Option String :=
  (rest? lead.toList s.toList).map String.ofList

theorem dropLeading?_eq_some_iff {lead s rest : String} :
    dropLeading? lead s = some rest ↔ s = lead ++ rest := by
  simp only [dropLeading?, Option.map_eq_some_iff, rest?_eq_some_iff]
  constructor
  · rintro ⟨cs, hcs, rfl⟩
    rw [← String.toList_inj, hcs, String.toList_append, String.toList_ofList]
  · rintro rfl
    exact ⟨rest.toList, String.toList_append, String.ofList_toList⟩

/-- Whether a text begins with another. -/
def startsWith (s lead : String) : Bool := (rest? lead.toList s.toList).isSome

/-- Whether a text ends with another. -/
def endsWith (s tail : String) : Bool :=
  (rest? tail.toList.reverse s.toList.reverse).isSome

/-- Whether the list holds `part` in adjacent places. -/
def holds (part : List Char) : List Char → Bool
  | [] => part.isEmpty
  | c :: cs => (rest? part (c :: cs)).isSome || holds part cs

/-- Whether another text is part of a text. -/
def contains (s part : String) : Bool := holds part.toList s.toList

/-- The text before the last `mark`, if there is one. -/
def beforeLast? (mark : Char) (s : String) : Option String :=
  match s.toList.reverse.dropWhile (· != mark) with
  | [] => none
  | _ :: before => some (String.ofList before.reverse)

/-- The text after the last `mark`; the whole text where there is none. -/
def afterLast (mark : Char) (s : String) : String :=
  String.ofList (s.toList.reverse.takeWhile (· != mark)).reverse

end GraphQuery.Text
