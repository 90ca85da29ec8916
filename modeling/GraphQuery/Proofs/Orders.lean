import GraphQuery.Proofs.Comparison
import GraphQuery.Proofs.Metering
import GraphQuery.Proofs.ResultKeys

/-!
# GraphQuery.Proofs.Orders — what an evaluation puts in order

Rows are sorted, and so are the values of a property, groups, and the members of a group. The order
of items decides nothing but where they stand.

1. **Preorders**: comparisons that a sort can rely on.
2. **Stable sorting**: what a list has to do with the list that it was sorted from.
3. **Groups** are shown in the order of their keys, each with its members in order.
4. **Sorts** of an evaluation are stable, by comparisons that are preorders.
-/

namespace GraphQuery

open Json

/-! ## Preorders -/

/-- A comparison under which every item is level with itself, two items compare the other way round
if they change places, and whatever two neighbouring pairs of three items agree on holds of the
outer pair. -/
structure Preorders {α : Type} (compare : α → α → Ordering) : Prop where
  refl (a : α) : compare a a = .eq
  swap (a b : α) : compare b a = (compare a b).swap
  trans (a b c : α) (o : Ordering) : compare a b = o → compare b c = o → compare a c = o

theorem Preorders.of_transCmp {α : Type} (compare : α → α → Ordering) [Std.TransCmp compare] :
    Preorders compare where
  refl _ := Std.ReflCmp.compare_self
  swap _ _ := Std.OrientedCmp.eq_swap
  trans a b c o hab hbc := by
    cases o with
    | lt => exact Std.TransCmp.lt_trans hab hbc
    | eq => exact Std.TransCmp.eq_trans hab hbc
    | gt => exact Std.TransCmp.gt_trans hab hbc

/-! ## Stable sorting -/

/-- A list has the items of another one, no later item compares less than an earlier one, and items
that are level stand as they stood. -/
structure StablySorted {α : Type} (compare : α → α → Ordering) (xs sorted : List α) : Prop where
  perm : sorted.Perm xs
  ordered : sorted.Pairwise fun a b => compare b a ≠ .lt
  kept (a : α) : sorted.filter (compare a · = .eq) = xs.filter (compare a · = .eq)

/-- Items that are level with one item stay as they are when they are sorted. -/
theorem sortBy_level {α : Type} {compare : α → α → Ordering} [Std.TransCmp compare] {a : α}
    {xs : List α} (h : ∀ b ∈ xs, compare a b = .eq) : sortBy compare xs = xs := by
  refine List.mergeSort_of_pairwise (List.pairwise_of_forall_mem_list fun b hb c hc => ?_)
  have hba : compare b a = .eq := Std.OrientedCmp.eq_symm (h b hb)
  rw [Std.TransCmp.eq_trans hba (h c hc)]
  rfl

theorem stablySorted_sortBy {α : Type} (compare : α → α → Ordering) [Std.TransCmp compare]
    (xs : List α) : StablySorted compare xs (sortBy compare xs) where
  perm := List.mergeSort_perm xs _
  ordered := by
    have hsorted := List.pairwise_mergeSort (fun _ _ _ => Std.TransCmp.isLE_trans)
      (isLE_total compare) xs
    refine hsorted.imp fun {a b} hle hlt => ?_
    have hswap : compare a b = (compare b a).swap := Std.OrientedCmp.eq_swap
    rw [hswap, hlt] at hle
    cases hle
  kept a := by
    rw [filter_sortBy]
    exact sortBy_level fun b hb => by simpa using (List.mem_filter.mp hb).2

/-! ## Groups -/

namespace Group

/-- A group as an object: its keys, and its members under the key that the property has for them. -/
def toValue (p : Property) (g : Group) : Value :=
  .object (g.key.insert p.instancesKey (.array (g.members.map .object)))

/-- How groups of a property compare: by their keys, those marked for sorting first. -/
def compare (p : Property) (g h : Group) : Ordering :=
  compareFields (p.groupSortKeys.map Property.key) g.key h.key

/-- How members of a group compare. -/
def compareMembers (p : Property) : Row → Row → Ordering :=
  compareFields (p.memberSortKeys.map Property.key)

instance (p : Property) : Std.TransCmp (compare p) where
  eq_swap := (transCmp_compareFields (p.groupSortKeys.map Property.key)).eq_swap
  isLE_trans := (transCmp_compareFields (p.groupSortKeys.map Property.key)).isLE_trans

instance (p : Property) : Std.TransCmp (compareMembers p) :=
  transCmp_compareFields (p.memberSortKeys.map Property.key)

/-- A group with its members in order. -/
def arranged (p : Property) (g : Group) : Group :=
  { g with members := sortBy (compareMembers p) g.members }

theorem objects_eq (p : Property) (groups : List Group) :
    objects p groups = ((sortBy (compare p) groups).map (arranged p)).map (toValue p) := by
  rw [List.map_map]
  rfl

end Group

/-! ## Sorts -/

/-- Sorting the rows is the last step of an evaluation, which neither fails nor needs memory. -/
theorem Evaluator.start_buildRows (e : Evaluator) (memory : Option Nat) :
    (e.buildRows : Metered memory (List Row)).start =
      (e.buildUnsorted : Metered memory (List Row)).start.map
        (sortBy (compareFields (sortKeys e.plan))) := by
  unfold Metered.start buildRows
  rw [Metered.run_bind]
  cases (e.buildUnsorted : Metered memory (List Row)).run 0 <;> rfl

theorem stablySorted_of_evaluate {data : StageData} {plan : Plan} {memory : Option Nat}
    {rows : List Row} (h : evaluate data plan memory = .ok rows) :
    ∃ patterns unsorted, plan.patterns = .ok patterns ∧
      (Evaluator.buildUnsorted ⟨data, plan, patterns⟩ : Metered memory (List Row)).start =
        .ok unsorted ∧
      StablySorted (compareFields (Evaluator.sortKeys plan)) unsorted rows := by
  unfold evaluate at h
  cases hpatterns : plan.patterns with
  | error e =>
    rw [hpatterns] at h
    cases h
  | ok patterns =>
    rw [hpatterns] at h
    have hrows := (Evaluator.start_buildRows ⟨data, plan, patterns⟩ memory).symm.trans h
    cases hunsorted :
        (Evaluator.buildUnsorted ⟨data, plan, patterns⟩ : Metered memory (List Row)).start with
    | error e =>
      rw [hunsorted] at hrows
      cases hrows
    | ok unsorted =>
      rw [hunsorted] at hrows
      cases hrows
      exact ⟨patterns, unsorted, rfl, hunsorted, stablySorted_sortBy _ _⟩

/-- The values of a sorted property are those that it has without sorting. -/
theorem stablySorted_settle {p : Property} (h : p.sort = true) (values : List Value) :
    StablySorted Value.compare (settle { p with sort := false } values) (settle p values) := by
  unfold settle
  dsimp only
  rw [h, if_pos rfl, if_neg Bool.false_ne_true]
  exact stablySorted_sortBy _ _

/-- Values compare by a total preorder, and so do objects by any keys. The rows of a plan are those
that its roots have, stably sorted by the keys of its sorted properties. The values of a sorted
property are stably sorted, and so are groups by their keys, and the members of each group. -/
theorem sorted_by_preorders :
    Preorders Value.compare ∧ (∀ keys, Preorders (compareFields keys)) ∧
    (∀ data plan memory rows, evaluate data plan memory = .ok rows →
      ∃ patterns unsorted, plan.patterns = .ok patterns ∧
        (Evaluator.buildUnsorted ⟨data, plan, patterns⟩ : Metered memory (List Row)).start =
          .ok unsorted ∧
        StablySorted (compareFields (Evaluator.sortKeys plan)) unsorted rows) ∧
    (∀ p values, p.sort = true →
      StablySorted Value.compare (settle { p with sort := false } values) (settle p values)) ∧
    (∀ p groups, ∃ sorted shown : List Group,
      StablySorted (fun g h => compareFields (p.groupSortKeys.map Property.key) g.key h.key) groups
        sorted ∧
      List.Forall₂ (fun g h => h.key = g.key ∧
        StablySorted (compareFields (p.memberSortKeys.map Property.key)) g.members h.members)
        sorted shown ∧
      Group.objects p groups = shown.map (Group.toValue p)) := by
  refine ⟨.of_transCmp _, fun keys => .of_transCmp _, fun _ _ _ _ => stablySorted_of_evaluate,
    fun _ values h => stablySorted_settle h values, fun p groups => ?_⟩
  refine ⟨_, _, stablySorted_sortBy (Group.compare p) groups, ?_, Group.objects_eq p groups⟩
  rw [List.forall₂_map_right_iff, List.forall₂_same]
  exact fun g _ => ⟨rfl, stablySorted_sortBy (Group.compareMembers p) g.members⟩

end GraphQuery
