import Mathlib.Order.Compare
import GraphQuery.Proofs.Sorting

/-!
# GraphQuery.Proofs.Comparison — the order of values is a preorder

1. **Chains**: what two comparisons of three items say about the third one. Chains of first
   differences are made from those of the items.
2. **Values** compare by their kinds, and by what they hold if these are the same.
3. **Fields** compare like the values of their keys, one after the other.
4. **Sorting** by a comparison is an insertion sort, and commutes with leaving items out.
-/

namespace GraphQuery.Json

/-! ## Chains -/

/-- Comparisons of a first item with a second, of the second with a third, and of the first with the
third: where the first two ascend, so does the last, and it is level only if both are. -/
def Chained (ab bc ac : Ordering) : Prop :=
  ab.isLE → bc.isLE → ac.isLE ∧ (ac = .eq → ab = .eq ∧ bc = .eq)

/-- A comparison that is transitive chains. -/
theorem Chained.of_transCmp {α : Type} (compare : α → α → Ordering) [Std.TransCmp compare]
    (a b c : α) : Chained (compare a b) (compare b c) (compare a c) := by
  intro hab hbc
  refine ⟨Std.TransCmp.isLE_trans hab hbc, fun hac => ?_⟩
  have hca : (compare c a).isLE := by
    have hswap : compare c a = (compare a c).swap := Std.OrientedCmp.eq_swap
    rw [hswap, hac]
    rfl
  -- the items are level with each other, as one could also go round the other way
  constructor
  · exact Std.OrientedCmp.isLE_antisymm hab (Std.TransCmp.isLE_trans hbc hca)
  · exact Std.OrientedCmp.isLE_antisymm hbc (Std.TransCmp.isLE_trans hca hab)

/-- Comparisons one after the other chain if each of them does. -/
theorem Chained.then {ab bc ac ab' bc' ac' : Ordering} (h : Chained ab bc ac)
    (h' : Chained ab' bc' ac') : Chained (ab.then ab') (bc.then bc') (ac.then ac') := by
  intro hab hbc
  rw [Ordering.isLE_then_iff_and] at hab hbc
  obtain ⟨hac, heq⟩ := h hab.1 hbc.1
  cases ac with
  | gt => cases hac
  | lt => exact ⟨rfl, fun hlt => by cases hlt⟩
  | eq =>
    obtain ⟨rfl, rfl⟩ := heq rfl
    exact h' (by simpa using hab.2) (by simpa using hbc.2)

/-- A comparison is transitive if it chains, and turns around with its operands. -/
theorem transCmp_of_chained {α : Type} {compare : α → α → Ordering}
    (swap : ∀ a b, compare a b = (compare b a).swap)
    (chained : ∀ a b c, Chained (compare a b) (compare b c) (compare a c)) :
    Std.TransCmp compare where
  eq_swap := swap _ _
  isLE_trans hab hbc := (chained _ _ _ hab hbc).1

/-! ## Values -/

section

variable {α : Type} [LT α] [LE α] [DecidableLT α] [DecidableEq α] [Std.IsLinearOrder α]
  [Std.LawfulOrderLT α]

instance transCmp_compareOfLessAndEq : Std.TransCmp fun a b : α => compareOfLessAndEq a b :=
  .compareOfLessAndEq_of_irrefl_of_trans_of_antisymm (fun _ => Std.lt_irrefl) Std.lt_trans
    fun hab hba => Std.le_antisymm (Std.not_lt.mp hba) (Std.not_lt.mp hab)

theorem compareOfLessAndEq_swap (a b : α) :
    compareOfLessAndEq a b = (compareOfLessAndEq b a).swap :=
  transCmp_compareOfLessAndEq.eq_swap

/-- Comparing by a linear order chains. -/
theorem chained_compareOfLessAndEq (a b c : α) :
    Chained (compareOfLessAndEq a b) (compareOfLessAndEq b c) (compareOfLessAndEq a c) :=
  .of_transCmp (fun a b : α => compareOfLessAndEq a b) a b c

end

namespace Value

/-- Values of different kinds compare as their kinds do. -/
theorem compare_of_rank_ne {a b : Value} (h : a.rank ≠ b.rank) :
    a.compare b = compareOfLessAndEq a.rank b.rank := by
  cases a <;> cases b <;> first | exact absurd rfl h | simp only [Value.compare]

/-- A smaller value has no greater rank. -/
theorem rank_le_of_isLE {a b : Value} (h : (a.compare b).isLE) : a.rank ≤ b.rank := by
  by_contra hlt
  rw [compare_of_rank_ne (by omega), compareOfLessAndEq, if_neg (by omega), if_neg (by omega)] at h
  cases h

@[simp]
theorem compareItems_nil : compareItems [] [] = .eq := by rw [compareItems]

@[simp]
theorem compareItems_nil_cons (b : Value) (bs : List Value) : compareItems [] (b :: bs) = .lt := by
  rw [compareItems]

@[simp]
theorem compareItems_cons_nil (a : Value) (as : List Value) : compareItems (a :: as) [] = .gt := by
  rw [compareItems]

/-- Only values of one kind need to be looked into. -/
theorem chained_of_kind {a b c : Value}
    (h : a.rank = b.rank → b.rank = c.rank →
      Chained (a.compare b) (b.compare c) (a.compare c)) :
    Chained (a.compare b) (b.compare c) (a.compare c) := by
  intro hab hbc
  have hranks := rank_le_of_isLE hab
  have hranks' := rank_le_of_isLE hbc
  by_cases hsame : a.rank = c.rank
  · exact h (by omega) (by omega) hab hbc
  · have hlt : a.compare c = .lt := by
      rw [compare_of_rank_ne hsame, compareOfLessAndEq, if_pos (by omega)]
    rw [hlt]
    exact ⟨rfl, fun heq => by cases heq⟩

mutual

/-- Comparing values the other way round gives the other answer. -/
theorem compare_swap (a b : Value) : a.compare b = (b.compare a).swap :=
  if hab : a.rank = b.rank then
    match a, b, hab with
    | .null, .null, _ => by rfl
    | .bool a, .bool b, _ => compareOfLessAndEq_swap a.toNat b.toNat
    | .number a, .number b, _ => compareOfLessAndEq_swap a.toDouble.key b.toDouble.key
    | .string a, .string b, _ => compareOfLessAndEq_swap a b
    | .array as, .array bs, _ => compareItems_swap as bs
    | .object a, .object b, _ =>
      compareOfLessAndEq_swap (Value.object a).compact (Value.object b).compact
  else by
    rw [compare_of_rank_ne hab, compare_of_rank_ne (Ne.symm hab)]
    exact compareOfLessAndEq_swap _ _

theorem compareItems_swap : (as bs : List Value) → compareItems as bs = (compareItems bs as).swap
  | [], [] => by simp
  | [], _ :: _ => by simp
  | _ :: _, [] => by simp
  | a :: as, b :: bs => by
    rw [compareItems, compareItems, Ordering.swap_then, compare_swap a b, compareItems_swap as bs]

end

mutual

/-- The order of values chains, by induction on them. -/
theorem chained_compare (a b c : Value) : Chained (a.compare b) (b.compare c) (a.compare c) :=
  chained_of_kind fun hab hbc =>
    match a, b, c, hab, hbc with
    | .null, .null, .null, _, _ => chained_compareOfLessAndEq 0 0 0
    | .bool a, .bool b, .bool c, _, _ => chained_compareOfLessAndEq a.toNat b.toNat c.toNat
    | .number a, .number b, .number c, _, _ =>
      chained_compareOfLessAndEq a.toDouble.key b.toDouble.key c.toDouble.key
    | .string a, .string b, .string c, _, _ => chained_compareOfLessAndEq a b c
    | .array as, .array bs, .array cs, _, _ => chained_compareItems as bs cs
    | .object a, .object b, .object c, _, _ => chained_compareOfLessAndEq
      (Value.object a).compact (Value.object b).compact (Value.object c).compact

theorem chained_compareItems : (as bs cs : List Value) →
    Chained (compareItems as bs) (compareItems bs cs) (compareItems as cs)
  | [], [], _ => by simp [Chained]
  | [], _ :: _, [] => by simp [Chained]
  | [], _ :: _, _ :: _ => by simp [Chained]
  | _ :: _, [], _ => by simp [Chained]
  | _ :: _, _ :: _, [] => by simp [Chained]
  | a :: as, b :: bs, c :: cs => by
    rw [compareItems, compareItems, compareItems]
    exact (chained_compare a b c).then (chained_compareItems as bs cs)

end

/-- Values are preordered. -/
instance transCmp_compare : Std.TransCmp Value.compare :=
  transCmp_of_chained compare_swap chained_compare

end Value

/-! ## Fields -/

/-- Rows are preordered by their fields, whatever the keys. -/
instance transCmp_compareFields (keys : List String) : Std.TransCmp (compareFields keys) := by
  refine transCmp_of_chained (fun a b => ?_) fun a b c => ?_
  · induction keys with
    | nil => rfl
    | cons key rest ih =>
      rw [compareFields, compareFields, Ordering.swap_then, ← ih, ← Value.compare_swap]
  · induction keys with
    | nil => exact fun _ _ => ⟨rfl, fun _ => ⟨rfl, rfl⟩⟩
    | cons key rest ih =>
      rw [compareFields, compareFields, compareFields]
      exact (Value.chained_compare _ _ _).then ih

/-! ## Sorting -/

section

variable {α : Type} (compare : α → α → Ordering) [Std.TransCmp compare]

/-- Any two values are comparable. -/
theorem isLE_total (a b : α) : (compare a b).isLE || (compare b a).isLE := by
  have hswap : compare b a = (compare a b).swap := Std.OrientedCmp.eq_swap
  rw [hswap]
  cases compare a b <;> rfl

/-- Sorting a list inserts each item at its place. -/
theorem sortBy_eq_insertionSort (xs : List α) :
    sortBy compare xs = xs.insertionSort fun a b => (compare a b).isLE := by
  rw [← Sorting.mergeSort_eq_insertionSort (fun _ _ _ => Std.TransCmp.isLE_trans)
    fun a b => by simpa using isLE_total compare a b]
  simp only [sortBy, Bool.decide_eq_true]

/-- Leaving items out commutes with sorting. -/
theorem filter_sortBy (p : α → Bool) (xs : List α) :
    (sortBy compare xs).filter p = sortBy compare (xs.filter p) :=
  Sorting.filter_mergeSort (fun _ _ _ => Std.TransCmp.isLE_trans) (isLE_total compare) p xs

end

end GraphQuery.Json
