import GraphQuery.Text.Replace
import Mathlib.Data.List.Infix

/-!
# GraphQuery.Proofs.Replacement — replacing a part in a text that is put together

1. **Occurrences**: a text without any is left as it is, and the part itself becomes what is new.
2. **Parted texts**: where no occurrence goes over from one text into the next, each of them is
   replaced in by itself.
-/

namespace GraphQuery.Text

variable {part new : List Char}

/-! ## Occurrences -/

/-- Replacing in a text goes through its characters. -/
theorem toList_replaceAll_of_ne {part : String} (h : part ≠ "") (new s : String) :
    (replaceAll part new s).toList = replaceFrom part.toList new.toList 0 s.toList := by
  rw [replaceAll, if_neg (by simpa using h), String.toList_ofList]

/-- Characters that are skipped are left out. -/
theorem replaceFrom_skip (skip : Nat) (cs : List Char) :
    replaceFrom part new skip cs = replaceFrom part new 0 (cs.drop skip) := by
  induction cs generalizing skip with
  | nil => cases skip <;> rfl
  | cons c rest ih =>
    cases skip with
    | zero => rfl
    | succ skip => exact ih skip

/-- A part that starts here is replaced, and its other characters are passed over. -/
theorem replaceFrom_cons_of_start {c : Char} {cs : List Char} (h : part <+: c :: cs) :
    replaceFrom part new 0 (c :: cs) =
      new ++ replaceFrom part new (part.length - 1) cs :=
  if_pos (List.isPrefixOf_iff_prefix.mpr h)

/-- A character with which no part starts stays. -/
theorem replaceFrom_cons_of_not_start {c : Char} {cs : List Char} (h : ¬ part <+: c :: cs) :
    replaceFrom part new 0 (c :: cs) = c :: replaceFrom part new 0 cs :=
  if_neg fun hstart => h (List.isPrefixOf_iff_prefix.mp hstart)

/-- Without the part nothing is replaced. -/
theorem replaceFrom_of_absent {cs : List Char} (h : ¬ part <:+: cs) :
    replaceFrom part new 0 cs = cs := by
  induction cs with
  | nil => rfl
  | cons c rest ih =>
    rw [List.infix_cons_iff, not_or] at h
    rw [replaceFrom_cons_of_not_start h.1, ih h.2]

/-- The part itself becomes the new text. -/
theorem replaceFrom_self (h : part ≠ []) : replaceFrom part new 0 part = new := by
  obtain ⟨c, rest, rfl⟩ := List.exists_cons_of_ne_nil h
  rw [replaceFrom_cons_of_start (List.prefix_refl _), replaceFrom_skip]
  simp [replaceFrom]

/-! ## Parted texts -/

/-- No occurrence of the part begins in `xs` and ends in `ys`. -/
def Parted (part xs ys : List Char) : Prop :=
  ∀ cs, cs <:+ xs → cs ≠ [] → part <+: cs ++ ys → part.length ≤ cs.length

theorem Parted.tail {c : Char} {xs ys : List Char} (h : Parted part (c :: xs) ys) :
    Parted part xs ys :=
  fun cs hcs => h cs (hcs.trans (List.suffix_cons c xs))

/-- An occurrence at the start of a text does not go on behind it. -/
theorem Parted.starts_iff {c : Char} {xs ys : List Char} (h : Parted part (c :: xs) ys) :
    part <+: c :: xs ++ ys ↔ part <+: c :: xs := by
  constructor
  · intro hstart
    have hlength := h (c :: xs) (List.suffix_refl _) (List.cons_ne_nil c xs) hstart
    exact List.prefix_of_prefix_length_le hstart (List.prefix_append _ ys) hlength
  · exact fun hstart => hstart.trans (List.prefix_append _ ys)

/-- Where no part lies across the border of two texts, each is replaced by itself. -/
theorem replaceFrom_append {xs ys : List Char} (h : Parted part xs ys) {skip : Nat}
    (hskip : skip ≤ xs.length) : replaceFrom part new skip (xs ++ ys) =
      replaceFrom part new skip xs ++ replaceFrom part new 0 ys := by
  induction xs generalizing skip with
  | nil =>
    obtain rfl : skip = 0 := Nat.le_zero.mp hskip
    rfl
  | cons c rest ih =>
    cases skip with
    | succ skip => exact ih h.tail (Nat.le_of_succ_le_succ hskip)
    | zero =>
      by_cases hstart : part <+: c :: rest
      · have hwhole : part <+: c :: (rest ++ ys) := h.starts_iff.mpr hstart
        have hlength : part.length - 1 ≤ rest.length := by
          have := hstart.length_le
          rw [List.length_cons] at this
          omega
        rw [List.cons_append, replaceFrom_cons_of_start hwhole, ih h.tail hlength,
          replaceFrom_cons_of_start hstart, List.append_assoc]
      · have hwhole : ¬ part <+: c :: (rest ++ ys) := fun hw => hstart (h.starts_iff.mp hw)
        rw [List.cons_append, replaceFrom_cons_of_not_start hwhole, ih h.tail (Nat.zero_le _),
          replaceFrom_cons_of_not_start hstart, List.cons_append]

/-- A text without the first character of the part has no occurrence that begins in it. -/
theorem parted_of_not_mem {c : Char} {rest xs ys : List Char} (h : c ∉ xs) :
    Parted (c :: rest) xs ys := by
  intro cs hcs hne hstart
  obtain ⟨d, others, rfl⟩ := List.exists_cons_of_ne_nil hne
  rw [List.cons_append, List.cons_prefix_cons] at hstart
  exact absurd (hcs.subset (hstart.1 ▸ List.mem_cons_self)) h

/-- No occurrence goes on over a character that the part does not have. -/
theorem parted_of_apart {c : Char} {xs ys : List Char} (h : c ∉ part) :
    Parted part xs (c :: ys) := by
  intro cs _ _ hstart
  by_contra hlength
  -- the character would be one of the part
  obtain ⟨behind, hwhole⟩ := hstart
  have hsplit : cs <+: part :=
    List.prefix_of_prefix_length_le (List.prefix_append cs (c :: ys)) ⟨behind, hwhole⟩ (by omega)
  obtain ⟨more, rfl⟩ := hsplit
  rw [List.append_assoc, List.append_cancel_left_eq] at hwhole
  cases more with
  | nil => simp at hlength
  | cons d rest =>
    rw [List.cons_append, List.cons.injEq] at hwhole
    exact h (by simp [hwhole.1])

theorem parted_nil (part xs : List Char) : Parted part xs [] := by
  intro cs _ _ hstart
  rw [List.append_nil] at hstart
  exact hstart.length_le

end GraphQuery.Text
