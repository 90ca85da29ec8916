import Mathlib.Data.List.Sort
import GraphQuery.Json.Order

/-!
# GraphQuery.Proofs.Sorting — stable sorting

1. **Insertion**: a stable merge sort puts the first item before all items that it may stand
   before, so it is an insertion sort.
2. **Selection** commutes with stable sorting: it does not matter whether items are left out before
   a list is sorted or after it.
3. **Last items**: a new last item is sorted in behind all items that may stand before it.
-/

namespace GraphQuery.Sorting

variable {α : Type} {le : α → α → Bool}

/-! ## Insertion -/

/-- Inserts an item before the first one that it may stand before. -/
def place (le : α → α → Bool) (a : α) (xs : List α) : List α :=
  xs.takeWhile (fun b => !le a b) ++ a :: xs.dropWhile (fun b => !le a b)

/-- Sorting a longer list inserts its head into the sorted tail. -/
theorem mergeSort_cons_eq_place (trans : ∀ a b c, le a b → le b c → le a c)
    (total : ∀ a b, le a b || le b a) (a : α) (xs : List α) :
    (a :: xs).mergeSort le = place le a (xs.mergeSort le) := by
  rcases List.mergeSort_cons trans total a xs with ⟨before, after, hcons, hrest, hbefore⟩
  have hsorted := List.pairwise_mergeSort trans total (a :: xs)
  rw [hcons] at hsorted
  -- behind the item stands only what it may stand before
  have hafter : ∀ b ∈ after, le a b = true := by
    intro b hb
    have htail := (List.pairwise_append.mp hsorted).2.1
    exact List.rel_of_pairwise_cons htail hb
  rw [hcons, hrest, place, List.takeWhile_append_of_pos hbefore,
    List.dropWhile_append_of_pos hbefore]
  cases after with
  | nil => simp
  | cons b rest =>
    have hb : (!le a b) = false := by simp [hafter b (by simp)]
    simp [hb]

theorem mergeSort_eq_insertionSort {r : α → α → Prop} [DecidableRel r]
    (trans : ∀ a b c, r a b → r b c → r a c) (total : ∀ a b, r a b ∨ r b a) (xs : List α) :
    xs.mergeSort (fun a b => decide (r a b)) = xs.insertionSort r := by
  induction xs with
  | nil => simp
  | cons a rest ih =>
    rw [List.insertionSort_cons, ← ih, List.orderedInsert_eq_take_drop,
      mergeSort_cons_eq_place (by simpa using trans) (by simpa using total), place]
    simp only [decide_not]

/-! ## Selection -/

theorem filter_place (trans : ∀ a b c, le a b → le b c → le a c) (p : α → Bool) (a : α)
    {xs : List α} (hsorted : xs.Pairwise fun b c => le b c = true) :
    (place le a xs).filter p = if p a then place le a (xs.filter p) else xs.filter p := by
  induction xs with
  | nil => by_cases ha : p a <;> simp [place, ha]
  | cons b rest ih =>
    have hrest := ih hsorted.of_cons
    by_cases hab : le a b = true
    · -- All of the list follows the new item, and so does all that is left of it.
      have hall : ∀ c ∈ (b :: rest).filter p, le a c = true := by
        intro c hc
        rcases List.mem_cons.mp (List.mem_filter.mp hc).1 with rfl | hc
        · exact hab
        · exact trans a b c hab (List.rel_of_pairwise_cons hsorted hc)
      have hplace : place le a ((b :: rest).filter p) = a :: (b :: rest).filter p := by
        cases hf : (b :: rest).filter p with
        | nil => simp [place]
        | cons c cs =>
          have hc : le a c = true := hall c (by simp [hf])
          simp [place, hc]
      rw [hplace]
      by_cases ha : p a <;> simp [place, hab, ha]
    · -- the first item stays in front of the new one, if it is kept at all
      have hfirst (ys : List α) : place le a (b :: ys) = b :: place le a ys := by
        simp [place, hab]
      rw [hfirst]
      by_cases hb : p b
      · by_cases ha : p a
        · simp [hb, ha, hfirst, hrest]
        · simp [hb, ha, hrest]
      · simp [hb, hrest]

/-- Leaving items out commutes with stable sorting. -/
theorem filter_mergeSort (trans : ∀ a b c, le a b → le b c → le a c)
    (total : ∀ a b, le a b || le b a) (p : α → Bool) (xs : List α) :
    (xs.mergeSort le).filter p = (xs.filter p).mergeSort le := by
  -- induction on the list, as a stable sort is an insertion sort
  induction xs with
  | nil => simp
  | cons a rest ih =>
    have hsorted := List.pairwise_mergeSort trans total rest
    rw [mergeSort_cons_eq_place trans total, filter_place trans p a hsorted, ih]
    by_cases ha : p a
    · rw [if_pos ha, List.filter_cons_of_pos ha, mergeSort_cons_eq_place trans total]
    · rw [if_neg ha, List.filter_cons_of_neg ha]

/-! ## Last items -/

/-- A sorted list splits at a bound. -/
theorem filter_append_filter_not (trans : ∀ a b c, le a b → le b c → le a c) (a : α) {xs : List α}
    (hsorted : xs.Pairwise fun b c => le b c = true) :
    xs.filter (fun b => le b a) ++ xs.filter (fun b => !le b a) = xs := by
  induction xs with
  | nil => rfl
  | cons b rest ih =>
    have hrest := ih hsorted.of_cons
    by_cases hba : le b a = true
    · simp only [hba, List.filter_cons_of_pos, Bool.not_true, Bool.false_eq_true, not_false_iff,
        List.filter_cons_of_neg, List.cons_append, hrest]
    · -- behind an item that is over the bound, all are
      have hover : ∀ c ∈ b :: rest, ¬ le c a = true := by
        intro c hc hca
        rcases List.mem_cons.mp hc with rfl | hc
        · exact hba hca
        · exact hba (trans b c a (List.rel_of_pairwise_cons hsorted hc) hca)
      have hnone : (b :: rest).filter (fun c => le c a) = [] := List.filter_eq_nil_iff.mpr hover
      have hall : (b :: rest).filter (fun c => !le c a) = b :: rest :=
        List.filter_eq_self.mpr fun c hc => by simp [hover c hc]
      rw [hnone, hall, List.nil_append]

theorem place_concat {b a : α} (h : le b a = true) (xs : List α) :
    place le b (xs ++ [a]) = place le b xs ++ [a] := by
  induction xs with
  | nil => simp [place, h]
  | cons c rest ih =>
    unfold place at ih ⊢
    by_cases hbc : le b c = true
    · simp [hbc]
    · simpa [hbc] using ih

/-- An item that all the others may stand before stays the last one. -/
theorem mergeSort_concat_of_le (trans : ∀ a b c, le a b → le b c → le a c)
    (total : ∀ a b, le a b || le b a) {a : α} {xs : List α} (h : ∀ b ∈ xs, le b a = true) :
    (xs ++ [a]).mergeSort le = xs.mergeSort le ++ [a] := by
  induction xs with
  | nil => simp
  | cons b rest ih =>
    rcases List.forall_mem_cons.mp h with ⟨hb, hrest⟩
    rw [List.cons_append, mergeSort_cons_eq_place trans total, ih hrest, place_concat hb,
      mergeSort_cons_eq_place trans total]

/-- A new last item comes right behind those that may stand before it. -/
theorem mergeSort_concat (trans : ∀ a b c, le a b → le b c → le a c)
    (total : ∀ a b, le a b || le b a) (xs : List α) (a : α) :
    (xs ++ [a]).mergeSort le =
      (xs.mergeSort le).filter (fun b => le b a) ++
        a :: (xs.mergeSort le).filter fun b => !le b a := by
  have hself : le a a = true := by simpa using total a a
  have hbefore : ((xs ++ [a]).mergeSort le).filter (fun b => le b a) =
      (xs.mergeSort le).filter (fun b => le b a) ++ [a] := by
    have hlast : [a].filter (fun b => le b a) = [a] := by simp [hself]
    rw [filter_mergeSort trans total, List.filter_append, hlast, filter_mergeSort trans total]
    exact mergeSort_concat_of_le trans total fun b hb => (List.mem_filter.mp hb).2
  have hbehind : ((xs ++ [a]).mergeSort le).filter (fun b => !le b a) =
      (xs.mergeSort le).filter fun b => !le b a := by
    have hnone : [a].filter (fun b => !le b a) = [] := by simp [hself]
    rw [filter_mergeSort trans total, List.filter_append, hnone, List.append_nil,
      filter_mergeSort trans total]
  have hsorted := List.pairwise_mergeSort trans total (xs ++ [a])
  rw [← filter_append_filter_not trans a hsorted, hbefore, hbehind, List.append_assoc,
    List.singleton_append]

end GraphQuery.Sorting
