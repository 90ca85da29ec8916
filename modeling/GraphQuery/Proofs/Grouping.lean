import GraphQuery.Proofs.Enumeration
import GraphQuery.Proofs.Orders
import GraphQuery.Proofs.Vocabularies
import Mathlib.Data.List.Perm.Basic

/-!
# GraphQuery.Proofs.Grouping — groups divide objects

A property that groups takes the values of its group keys out of every object, and gathers what is
left of objects that have the same values. A key that two of its children share is taken twice, and
read as null.

1. **Dictionaries** keep the values of the keys that are not filtered out.
2. **Classes** of a list, one after the other, have all of its items.
3. **Keys** of an object, the rest of it, and both put together again.
4. **Collecting** objects: what one more of them changes, and all of them.
5. **Groups** of a property divide the objects that they are made from.
-/

namespace GraphQuery

open Json

/-! ## Dictionaries -/

namespace Dictionary

variable {α : Type}

/-- Entries filtered by their keys. -/
theorem get?_filter (d : Dictionary α) (c : String → Bool) (k : String) :
    get? (d.filter fun entry => c entry.1) k = if c k then d.get? k else none := by
  induction d with
  | nil => cases c k <;> rfl
  | cons entry rest ih =>
    rcases entry with ⟨k', v⟩
    rw [List.filter_cons, get?_cons]
    dsimp only
    by_cases hk : k = k'
    · subst hk
      cases hc : c k with
      | true => rw [if_pos rfl, if_pos rfl, get?_cons, if_pos rfl, if_pos rfl]
      | false =>
        rw [if_neg Bool.false_ne_true, if_neg Bool.false_ne_true, ih, hc,
          if_neg Bool.false_ne_true]
    · rw [if_neg hk, ← ih]
      cases c k' with
      | true => rw [if_pos rfl, get?_cons, if_neg hk]
      | false => rfl

end Dictionary

/-! ## Classes -/

/-- Where every item belongs to one class only, the classes have the items of the list. -/
theorem flatMap_filter_perm {κ α : Type} {belongs : κ → α → Bool} {classes : List κ} {xs : List α}
    (happart : ∀ x ∈ xs, classes.Pairwise fun k l => belongs k x = true → belongs l x = false)
    (hcover : ∀ x ∈ xs, ∃ k ∈ classes, belongs k x = true) :
    (classes.flatMap fun k => xs.filter (belongs k)).Perm xs := by
  -- the first class takes its items away, the other ones share the rest
  induction classes generalizing xs with
  | nil =>
    have hnil : xs = [] := List.eq_nil_iff_forall_not_mem.mpr fun x hx => by simpa using hcover x hx
    rw [hnil]
    exact .refl _
  | cons k rest ih =>
    let left := xs.filter fun x => !belongs k x
    have hleft : (rest.flatMap fun l => left.filter (belongs l)) =
        rest.flatMap fun l => xs.filter (belongs l) := by
      refine List.flatMap_congr fun l hl => ?_
      rw [List.filter_filter]
      refine List.filter_congr fun x hx => ?_
      have hfirst := List.rel_of_pairwise_cons (happart x hx) hl
      cases hk : belongs k x with
      | false => simp
      | true => simp [hfirst hk]
    have hrest : (rest.flatMap fun l => left.filter (belongs l)).Perm left := by
      refine ih (fun x hx => (happart x (List.mem_filter.mp hx).1).of_cons) fun x hx => ?_
      obtain ⟨hx, hk⟩ := List.mem_filter.mp hx
      obtain ⟨l, hl, hbelongs⟩ := hcover x hx
      rcases List.mem_cons.mp hl with rfl | hl
      · rw [hbelongs] at hk
        cases hk
      · exact ⟨l, hl, hbelongs⟩
    rw [List.flatMap_cons, ← hleft]
    exact (hrest.append_left _).trans (List.filter_append_perm (belongs k) xs)

theorem forall₂_flatMap {α β γ : Type} {r : β → γ → Prop} {f : α → List β} {g : α → List γ}
    {xs : List α} (h : ∀ a ∈ xs, List.Forall₂ r (f a) (g a)) :
    List.Forall₂ r (xs.flatMap f) (xs.flatMap g) := by
  induction xs with
  | nil => exact .nil
  | cons a rest ih =>
    rw [List.forall_mem_cons] at h
    exact List.rel_append h.1 (ih h.2)

section

variable {α : Type} {same : α → α → Bool}

/-- Another element is a first occurrence unless one like it came before. -/
theorem firstOccurrences_concat (xs : List α) (x : α) : firstOccurrences same (xs ++ [x]) =
    if (firstOccurrences same xs).any (same · x) then firstOccurrences same xs
    else firstOccurrences same xs ++ [x] := by
  rw [firstOccurrences, List.foldl_append]
  rfl

/-- Of what is kept, nothing repeats anything before it. -/
theorem pairwise_firstOccurrences (xs : List α) :
    (firstOccurrences same xs).Pairwise fun a b => same a b = false := by
  induction xs using List.reverseRecOn with
  | nil => exact .nil
  | append_singleton xs x ih =>
    rw [firstOccurrences_concat]
    split
    · exact ih
    · rename_i hnew
      rw [List.pairwise_append]
      refine ⟨ih, List.pairwise_singleton _ _, fun a ha b hb => ?_⟩
      rw [List.mem_singleton.mp hb]
      simpa using fun hsame => hnew (List.any_eq_true.mpr ⟨a, ha, hsame⟩)

end

/-! ## Keys -/

theorem Json.Value.eq_null_of_beq {v : Value} (h : (Value.null == v) = true) : v = .null := by
  cases v <;> first | rfl | cases h

/-- Whether two objects have the same fields, with the same values. -/
def Json.Row.same (a b : Row) : Bool := Value.object a == Value.object b

namespace Json.Row

theorem same_refl (a : Row) : same a a = true := beq_self_eq_true (Value.object a)

theorem same_symm {a b : Row} (h : same a b = true) : same b a = true := BEq.symm h

theorem same_trans {a b c : Row} (hab : same a b = true) (hbc : same b c = true) :
    same a c = true := BEq.trans hab hbc

theorem same_comm (a b : Row) : same a b = same b a := BEq.comm

/-- Rows are the same when their entries agree one by one. -/
theorem same_cons {k l : String} {v w : Value} {a b : Row} :
    same ((k, v) :: a) ((l, w) :: b) = true ↔ k = l ∧ (v == w) = true ∧ same a b = true := by
  change Value.sameEntries _ _ = true ↔ _
  rw [Value.sameEntries, Bool.and_eq_true, Bool.and_eq_true, beq_iff_eq, and_assoc]
  rfl

theorem value_cons (k key : String) (v : Value) (row : Row) :
    value ((k, v) :: row) key = if key = k then v else value row key := by
  unfold value
  rw [Dictionary.get?_cons]
  split <;> rfl

/-- Objects with the same fields have the same values. -/
theorem same_value {a b : Row} (h : same a b = true) (key : String) :
    (a.value key == b.value key) = true := by
  induction a generalizing b with
  | nil =>
    cases b with
    | nil => exact beq_self_eq_true _
    | cons entry rest => cases h
  | cons entry rest ih =>
    cases b with
    | nil => cases h
    | cons entry' rest' =>
      obtain ⟨heq, hvalue, hrest⟩ := same_cons.mp h
      rw [value_cons, value_cons, heq]
      split
      · exact hvalue
      · exact ih hrest

/-- Objects with the same keys and the same values have the same fields. -/
theorem same_of_values {a b : Row} (hkeys : a.keys = b.keys) (hnodup : a.keys.Nodup)
    (h : ∀ k ∈ a.keys, (a.value k == b.value k) = true) : same a b = true := by
  unfold Dictionary.keys at *
  induction a generalizing b with
  | nil =>
    obtain rfl := List.map_eq_nil_iff.mp hkeys.symm
    exact same_refl _
  | cons entry rest ih =>
    cases b with
    | nil => cases hkeys
    | cons entry' rest' =>
      rcases entry with ⟨k, v⟩
      rcases entry' with ⟨l, w⟩
      rw [List.map_cons, List.map_cons, List.cons.injEq] at hkeys
      obtain ⟨rfl, hrest⟩ := hkeys
      rw [List.map_cons, List.nodup_cons] at hnodup
      have hfirst := h k (by simp)
      rw [value_cons, value_cons, if_pos rfl, if_pos rfl] at hfirst
      refine same_cons.mpr ⟨rfl, hfirst, ih hrest hnodup.2 fun k' hk' => ?_⟩
      have hne : k' ≠ k := fun heq => hnodup.1 (heq ▸ hk')
      have hlater := h k' (List.mem_cons_of_mem k hk')
      rwa [value_cons, value_cons, if_neg hne, if_neg hne] at hlater

theorem beq_map_iff {f g : String → Value} {keys : List String} :
    (keys.map f == keys.map g) = true ↔ ∀ k ∈ keys, (f k == g k) = true := by
  induction keys with
  | nil => simp
  | cons k rest ih =>
    rw [List.map_cons, List.map_cons, List.cons_beq_cons, Bool.and_eq_true, ih,
      List.forall_mem_cons]

/-- Objects with the same keys have the same fields if these keys have the same values. -/
theorem beq_values {a b : Row} (ha : a.Ordered) (hb : b.Ordered) {keys : List String}
    (hakeys : ∀ k, k ∈ a.keys ↔ k ∈ keys) (hbkeys : ∀ k, k ∈ b.keys ↔ k ∈ keys) :
    (keys.map a.value == keys.map b.value) = same a b := by
  rw [Bool.eq_iff_iff, beq_map_iff]
  constructor
  · intro h
    have hkeys := Dictionary.keys_eq ha hb fun k => (hakeys k).trans (hbkeys k).symm
    exact same_of_values hkeys ha.nodup fun k hk => h k ((hakeys k).mp hk)
  · exact fun h k _ => same_value h k

end Json.Row

/-- An object in which some keys have the values of a function. -/
def Json.Row.withValues (keys : List String) (f : String → Value) (row : Row) : Row :=
  keys.foldl (fun row k => row.insert k (f k)) row

namespace Json.Row

variable (keys : List String) (f : String → Value) (row : Row)

/-- Values put into a row are found under their keys. -/
theorem get?_withValues (k : String) : (withValues keys f row).get? k =
    if k ∈ keys then some (f k) else row.get? k := by
  unfold withValues
  induction keys generalizing row with
  | nil => simp
  | cons k' rest ih =>
    rw [List.foldl_cons, ih, Dictionary.get?_insert]
    by_cases hrest : k ∈ rest
    · simp [hrest]
    · by_cases hk : k = k' <;> simp [hrest, hk]

variable {row} in
theorem ordered_withValues (h : row.Ordered) : (withValues keys f row).Ordered := by
  unfold withValues
  induction keys generalizing row with
  | nil => exact h
  | cons k rest ih => exact ih (h.insert k (f k))

theorem mem_keys_withValues {k : String} :
    k ∈ (withValues keys f row).keys ↔ k ∈ keys ∨ k ∈ row.keys := by
  rw [← not_iff_not, ← Dictionary.get?_eq_none_iff, get?_withValues, not_or,
    ← Dictionary.get?_eq_none_iff]
  split <;> simp [*]

variable {keys} in
theorem value_withValues {k : String} (h : k ∈ keys) : (withValues keys f row).value k = f k := by
  rw [value, get?_withValues, if_pos h]
  rfl

/-- Only the values that are put into an object matter. -/
theorem same_withValues {f g : String → Value} (h : ∀ k ∈ keys, (f k == g k) = true) {row : Row}
    (hrow : row.Ordered) : same (withValues keys f row) (withValues keys g row) = true := by
  have hf := ordered_withValues keys f hrow
  have hg := ordered_withValues keys g hrow
  refine same_of_values (Dictionary.keys_eq hf hg fun k => ?_) hf.nodup fun k _ => ?_
  · rw [mem_keys_withValues, mem_keys_withValues]
  · rw [value, get?_withValues, value, get?_withValues]
    split
    · exact h k ‹_›
    · exact beq_self_eq_true _

end Json.Row

namespace Group

/-- What a key to group by is read as: a key that is there twice is null. -/
def read (keys : List String) (object : Row) (k : String) : Value :=
  if keys.count k = 1 then object.value k else .null

/-- The keys of an object. -/
def keyRow (keys : List String) (object : Row) : Row := Row.withValues keys (read keys object) []

/-- What is left of an object without its keys. -/
def memberRow (keys : List String) (object : Row) : Row :=
  object.filter fun entry => entry.1 ∉ keys

/-- An object that has all keys to group by. Those that it lacks are null. -/
def completed (keys : List String) (object : Row) : Row :=
  Row.withValues keys object.value object

/-- A member of a group together with the keys of the group. -/
def joined (keys : List String) (key member : Row) : Row :=
  Row.withValues keys key.value member

variable (keys : List String) (object : Row)

theorem ordered_keyRow : (keyRow keys object).Ordered :=
  Row.ordered_withValues keys _ List.Pairwise.nil

theorem mem_keys_keyRow {k : String} : k ∈ (keyRow keys object).keys ↔ k ∈ keys := by
  rw [keyRow, Row.mem_keys_withValues]
  simp [Dictionary.keys]

variable {object} in
theorem ordered_memberRow (h : object.Ordered) : (memberRow keys object).Ordered :=
  List.Pairwise.sublist (List.filter_sublist.map Prod.fst) h

/-- The keys of two objects have the same values if they are the same rows. -/
theorem beq_keyRow (object' : Row) :
    (keys.map (keyRow keys object).value == keys.map (keyRow keys object').value) =
      Row.same (keyRow keys object) (keyRow keys object') :=
  Row.beq_values (ordered_keyRow keys object) (ordered_keyRow keys object')
    (fun _ => mem_keys_keyRow keys object) fun _ => mem_keys_keyRow keys object'

/-- The key of a split object holds what was read under the group keys. -/
theorem get?_split_key (k : String) : (split keys object).1.get? k =
    if k ∈ keys then some (read keys object k) else none := by
  -- stated for any fields that have been moved already
  have hmove : ∀ (moved left : Row),
      (keys.foldl (fun parts k => (parts.1.insert k (parts.2.value k), parts.2.erase k))
        (moved, left)).1.get? k = if k ∈ keys then some (read keys left k) else moved.get? k := by
    induction keys with
    | nil => simp
    | cons k' rest ih =>
      intro moved left
      have herase : Row.value (left.erase k') k = if k = k' then .null else left.value k := by
        rw [Row.value, Dictionary.erase, Dictionary.get?_filter left (· != k')]
        by_cases hk : k = k' <;> simp [hk, Row.value]
      rw [List.foldl_cons, ih, Dictionary.get?_insert, read, read, herase, List.count_cons]
      by_cases hk : k = k'
      · subst hk
        by_cases hrest : k ∈ rest
        · have hcount := List.count_pos_iff.mpr hrest
          simp [hrest, hcount.ne']
        · simp [hrest, List.count_eq_zero.mpr hrest]
      · have hne : ¬ k' = k := fun heq => hk heq.symm
        simp [hk, hne]
  exact (hmove [] object).trans (by split <;> rfl)

/-- The keys of an object are taken out of it. -/
theorem split_eq : split keys object = (keyRow keys object, memberRow keys object) := by
  have hspec := split_spec keys object
  refine Prod.ext (Dictionary.ext_get? hspec.1 (ordered_keyRow keys object) fun k => ?_) hspec.2.2
  rw [get?_split_key, keyRow, Row.get?_withValues]
  rfl

variable {object} in
/-- Nothing is lost where keys that are there twice have no value. -/
theorem completed_eq (h : object.Ordered)
    (hnull : ∀ k ∈ keys, 1 < keys.count k → object.value k = .null) :
    completed keys object = joined keys (keyRow keys object) (memberRow keys object) := by
  have hmember := ordered_memberRow keys h
  refine Dictionary.ext_get? (Row.ordered_withValues keys _ h)
    (Row.ordered_withValues keys _ hmember) fun k => ?_
  rw [completed, joined, Row.get?_withValues, Row.get?_withValues]
  by_cases hk : k ∈ keys
  · rw [if_pos hk, if_pos hk, keyRow, Row.value_withValues _ _ hk, read]
    split
    · rfl
    · have hcount := List.count_pos_iff.mpr hk
      rw [hnull k hk (by omega)]
  · rw [if_neg hk, if_neg hk, memberRow, Dictionary.get?_filter object (· ∉ keys)]
    simp [hk]

end Group

/-! ## Collecting -/

namespace Group

variable {keys : List String} {objects : List Row} {groups : List Group}

/-- An object joins each group with its key, or opens one. -/
theorem collect_eq (keys : List String) (groups : List Group) (object : Row) :
    collect keys groups object =
      if groups.any (fun g => Row.same g.key (keyRow keys object)) then
        groups.map fun g =>
          if Row.same g.key (keyRow keys object) then
            { g with members := g.members ++ [memberRow keys object] }
          else g
      else groups ++ [⟨keyRow keys object, [memberRow keys object]⟩] := by
  unfold collect
  rw [split_eq]
  rfl

/-- There is a group for each of the keys that objects have, in the order in which these came first.
Its members are what is left of its objects, in their order. -/
structure Collected (keys : List String) (objects : List Row) (groups : List Group) : Prop where
  map_key : groups.map key = firstOccurrences Row.same (objects.map (keyRow keys))
  members : ∀ g ∈ groups, g.members =
    (objects.filter fun o => Row.same g.key (keyRow keys o)).map (memberRow keys)

namespace Collected

/-- Every object has its group. -/
theorem exists_group (h : Collected keys objects groups) {o : Row} (ho : o ∈ objects) :
    ∃ g ∈ groups, Row.same g.key (keyRow keys o) = true := by
  have hseen := any_seenAfter Row.same_refl [] (List.mem_map_of_mem (f := keyRow keys) ho)
  obtain ⟨key, hkey, hsame⟩ := List.any_eq_true.mp hseen
  have hmem : key ∈ groups.map Group.key := h.map_key ▸ hkey
  obtain ⟨g, hg, rfl⟩ := List.mem_map.mp hmem
  exact ⟨g, hg, hsame⟩

/-- One more object changes its own group alone. -/
theorem collect (h : Collected keys objects groups) (object : Row) :
    Collected keys (objects ++ [object]) (Group.collect keys groups object) := by
  have hany : (firstOccurrences Row.same (objects.map (keyRow keys))).any
      (Row.same · (keyRow keys object)) =
        groups.any fun g => Row.same g.key (keyRow keys object) := by
    rw [← h.map_key, List.any_map]
    rfl
  have hfilter (key : Row) :
      (objects ++ [object]).filter (fun o => Row.same key (keyRow keys o)) =
        objects.filter (fun o => Row.same key (keyRow keys o)) ++
          if Row.same key (keyRow keys object) then [object] else [] := by
    rw [List.filter_append, List.filter_singleton, cond_eq_ite]
  rw [collect_eq]
  constructor
  · rw [List.map_append, List.map_singleton, firstOccurrences_concat, hany]
    split
    · rw [← h.map_key, List.map_map]
      refine List.map_congr_left fun g _ => ?_
      rw [Function.comp_apply]
      split <;> rfl
    · rw [List.map_append, h.map_key]
      rfl
  · split
    · intro g' hg'
      obtain ⟨g, hg, rfl⟩ := List.mem_map.mp hg'
      cases hsame : Row.same g.key (keyRow keys object) with
      | true =>
        rw [if_pos rfl, hfilter, hsame, if_pos rfl, List.map_append, ← h.members g hg]
        rfl
      | false =>
        rw [if_neg Bool.false_ne_true, hfilter, hsame, if_neg Bool.false_ne_true,
          List.append_nil, h.members g hg]
    · rename_i hnew
      have hfresh (g : Group) (hg : g ∈ groups) :
          ¬ Row.same g.key (keyRow keys object) = true := fun hsame =>
        hnew (List.any_eq_true.mpr ⟨g, hg, hsame⟩)
      intro g hg
      rw [hfilter]
      rcases List.mem_append.mp hg with hg | hg
      · rw [if_neg (hfresh g hg), List.append_nil, h.members g hg]
      · -- no earlier object has the keys of the new group
        obtain rfl := List.mem_singleton.mp hg
        have hnone : objects.filter
            (fun o => Row.same (keyRow keys object) (keyRow keys o)) = [] := by
          refine List.filter_eq_nil_iff.mpr fun o ho hsame => ?_
          obtain ⟨g, hg, hgroup⟩ := h.exists_group ho
          exact hfresh g hg (Row.same_trans hgroup (Row.same_symm hsame))
        rw [hnone, if_pos (Row.same_refl _)]
        rfl

/-- After all objects the groups collect them. -/
theorem foldl_collect (keys : List String) (objects : List Row) :
    Collected keys objects (objects.foldl (Group.collect keys) []) := by
  induction objects using List.reverseRecOn with
  | nil => exact ⟨rfl, by simp⟩
  | append_singleton objects object ih =>
    rw [List.foldl_append]
    exact ih.collect object

/-- No two groups have the same keys. -/
theorem pairwise (h : Collected keys objects groups) :
    groups.Pairwise fun g g' => Row.same g.key g'.key = false := by
  rw [← List.pairwise_map (f := key) (R := fun a b => Row.same a b = false), h.map_key]
  exact pairwise_firstOccurrences _

/-- The objects of all groups are those that have been collected. -/
theorem flatMap_perm (h : Collected keys objects groups) :
    (groups.flatMap fun g => objects.filter fun o => Row.same g.key (keyRow keys o)).Perm
      objects := by
  refine flatMap_filter_perm (fun o _ => h.pairwise.imp fun {g g'} hne hg => ?_)
    fun o ho => h.exists_group ho
  by_contra hg'
  rw [Bool.not_eq_false] at hg'
  rw [Row.same_trans hg (Row.same_symm hg')] at hne
  cases hne

/-- A group has the keys of one of its objects. -/
theorem exists_keyRow (h : Collected keys objects groups) {g : Group} (hg : g ∈ groups) :
    ∃ o ∈ objects, g.key = keyRow keys o := by
  have hmem : g.key ∈ groups.map key := List.mem_map_of_mem hg
  rw [h.map_key] at hmem
  obtain ⟨o, ho, hkey⟩ := List.mem_map.mp (mem_of_mem_firstOccurrences hmem)
  exact ⟨o, ho, hkey.symm⟩

end Collected

end Group

/-! ## Groups -/

/-- Two lists have the same objects, in whatever order. -/
def SameRows (xs ys : List Row) : Prop :=
  ∃ zs : List Row, zs.Perm ys ∧ List.Forall₂ (fun a b => Row.same a b = true) xs zs

namespace SameRows

variable {xs xs' ys ys' : List Row}

theorem perm_left (hperm : xs.Perm xs') (h : SameRows xs' ys) : SameRows xs ys := by
  obtain ⟨zs, hzs, hsame⟩ := h
  obtain ⟨ws, hws, hperm'⟩ := List.perm_comp_forall₂ hperm hsame
  exact ⟨ws, hperm'.trans hzs, hws⟩

theorem perm_right (h : SameRows xs ys) (hperm : ys.Perm ys') : SameRows xs ys' := by
  obtain ⟨zs, hzs, hsame⟩ := h
  exact ⟨zs, hzs.trans hperm, hsame⟩

theorem exists_mem (h : SameRows xs ys) {y : Row} (hy : y ∈ ys) :
    ∃ x ∈ xs, Row.same x y = true := by
  obtain ⟨zs, hzs, hsame⟩ := h
  have hmem := hzs.mem_iff.mpr hy
  clear hzs hy
  induction hsame with
  | nil => cases hmem
  | cons hfirst _ ih =>
    rcases List.mem_cons.mp hmem with rfl | hmem
    · exact ⟨_, List.mem_cons_self, hfirst⟩
    · obtain ⟨x, hx, hsame⟩ := ih hmem
      exact ⟨x, List.mem_cons_of_mem _ hx, hsame⟩

end SameRows

namespace Property

variable {p : Property} {objects : List Row} {groups : List Group}

/-- How the groups of a property divide objects. -/
structure Divides (p : Property) (objects : List Row) (groups : List Group) : Prop where
  /-- No two groups have the same values of the keys to group by. -/
  distinct : groups.Pairwise fun g h =>
    (p.groupKeys.map g.key.value == p.groupKeys.map h.key.value) = false
  /-- The groups are those of the objects, in the order of their keys. Where these are level, the
  group whose first object came first stands first. -/
  sorted : StablySorted (compareFields (p.groupSortKeys.map key))
    (firstOccurrences Row.same (objects.map (Group.keyRow p.groupKeys))) (groups.map Group.key)
  /-- The members of a group are what is left of the objects with its values, in their order. -/
  members : ∀ g ∈ groups, StablySorted (compareFields (p.memberSortKeys.map key))
    ((objects.filter fun o => p.groupKeys.map (Group.read p.groupKeys o) ==
      p.groupKeys.map g.key.value).map (Group.memberRow p.groupKeys)) g.members

/-- Groups whose members, each joined with the keys of its group, are the objects again. -/
def Rejoins (p : Property) (objects : List Row) (groups : List Group) : Prop :=
  SameRows (groups.flatMap fun g => g.members.map (Group.joined p.groupKeys g.key))
    (objects.map (Group.completed p.groupKeys))

/-- Groups as a property shows them. -/
def shownGroups (p : Property) (groups : List Group) : List Group :=
  (sortBy (Group.compare p) groups).map (Group.arranged p)

/-- A shown group is a group that was collected, with its members arranged. -/
theorem exists_of_mem_shownGroups {g : Group} (h : g ∈ p.shownGroups groups) :
    ∃ g' ∈ groups, g = g'.arranged p := by
  obtain ⟨g', hg', rfl⟩ := List.mem_map.mp h
  exact ⟨g', mem_sortBy.mp hg', rfl⟩

/-- The keys of the shown groups are sorted. -/
theorem map_key_shownGroups (p : Property) (groups : List Group) :
    (p.shownGroups groups).map Group.key =
      sortBy (compareFields (p.groupSortKeys.map key)) (groups.map Group.key) := by
  rw [shownGroups, List.map_map]
  exact List.map_mergeSort fun _ _ _ _ => rfl

/-- Whatever is made of groups and their members, showing them brings it into another order. -/
theorem flatMap_shownGroups_perm {α : Type} (f : Row → Row → α) :
    ((p.shownGroups groups).flatMap fun g => g.members.map (f g.key)).Perm
      (groups.flatMap fun g => g.members.map (f g.key)) := by
  rw [shownGroups, List.flatMap_map]
  refine List.Perm.trans (List.Perm.flatMap_left _ fun g _ => ?_)
    ((List.mergeSort_perm groups _).flatMap_right _)
  exact (List.mergeSort_perm g.members _).map _

section

variable (h : Group.Collected p.groupKeys objects groups)

include h

theorem beq_group_values {g : Group} (hg : g ∈ groups) (o : Row) :
    (p.groupKeys.map (Group.read p.groupKeys o) == p.groupKeys.map g.key.value) =
      Row.same g.key (Group.keyRow p.groupKeys o) := by
  obtain ⟨o', -, hkey⟩ := h.exists_keyRow hg
  have hread : p.groupKeys.map (Group.read p.groupKeys o) =
      p.groupKeys.map (Group.keyRow p.groupKeys o).value :=
    List.map_congr_left fun k hk => (Row.value_withValues _ _ hk).symm
  rw [hread, hkey, Group.beq_keyRow, Row.same_comm]

/-- The shown groups divide the objects. -/
theorem divides_shownGroups : p.Divides objects (p.shownGroups groups) where
  distinct := by
    have hpairwise := (List.mergeSort_perm groups fun a b => (Group.compare p a b).isLE).pairwise_iff
      (fun {g g'} hne => (Row.same_comm _ _).trans hne) |>.mpr h.pairwise
    rw [shownGroups, List.pairwise_map]
    refine hpairwise.imp_of_mem fun {g g'} hg hg' hne => ?_
    obtain ⟨o, -, hkey⟩ := h.exists_keyRow (mem_sortBy.mp hg)
    obtain ⟨o', -, hkey'⟩ := h.exists_keyRow (mem_sortBy.mp hg')
    rw [hkey, hkey'] at hne
    change (p.groupKeys.map g.key.value == p.groupKeys.map g'.key.value) = false
    rw [hkey, hkey', Group.beq_keyRow, hne]
  sorted := by
    rw [map_key_shownGroups, h.map_key]
    exact stablySorted_sortBy _ _
  members := by
    intro g' hg'
    obtain ⟨g, hg, rfl⟩ := exists_of_mem_shownGroups hg'
    have hmembers : (objects.filter fun o => p.groupKeys.map (Group.read p.groupKeys o) ==
        p.groupKeys.map (g.arranged p).key.value).map (Group.memberRow p.groupKeys) = g.members := by
      rw [h.members g hg]
      congr 1
      exact List.filter_congr fun o _ => beq_group_values h hg o
    rw [hmembers]
    exact stablySorted_sortBy _ _

/-- Groups that are joined with their members give the objects with the keys that were read. -/
theorem sameRows_joined (hobjects : ∀ o ∈ objects, o.Ordered) :
    SameRows ((p.shownGroups groups).flatMap fun g =>
        g.members.map (Group.joined p.groupKeys g.key))
      (objects.map fun o => Group.joined p.groupKeys (Group.keyRow p.groupKeys o)
        (Group.memberRow p.groupKeys o)) := by
  refine .perm_left (flatMap_shownGroups_perm (Group.joined p.groupKeys))
    (.perm_right ?_ (h.flatMap_perm.map _))
  refine ⟨_, .refl _, ?_⟩
  rw [List.map_flatMap]
  refine forall₂_flatMap fun g hg => ?_
  rw [h.members g hg, List.map_map, List.forall₂_map_left_iff, List.forall₂_map_right_iff,
    List.forall₂_same]
  intro o ho
  -- the keys of the group may be those of another object, with the same values
  obtain ⟨hmem, hsame⟩ := List.mem_filter.mp ho
  exact Row.same_withValues _ (fun k _ => Row.same_value hsame k)
    (Group.ordered_memberRow _ (hobjects o hmem))

/-- The groups give back the objects exactly when no key that is read twice had a value. -/
theorem rejoins_shownGroups_iff (hobjects : ∀ o ∈ objects, o.Ordered) :
    p.Rejoins objects (p.shownGroups groups) ↔
      ∀ o ∈ objects, ∀ k ∈ p.groupKeys, 1 < p.groupKeys.count k → o.value k = .null := by
  constructor
  · intro hrejoins o ho k hk hcount
    obtain ⟨x, hx, hsame⟩ := hrejoins.exists_mem (List.mem_map_of_mem ho)
    obtain ⟨g', hg', hmember⟩ := List.mem_flatMap.mp hx
    obtain ⟨m, -, rfl⟩ := List.mem_map.mp hmember
    obtain ⟨g, hg, rfl⟩ := exists_of_mem_shownGroups hg'
    obtain ⟨o', -, hkey⟩ := h.exists_keyRow hg
    -- both have a value for the key, but that of the group is null
    have hvalue := Row.same_value hsame k
    have hnull : (g.arranged p).key.value k = .null := by
      change g.key.value k = .null
      rw [hkey, Group.keyRow, Row.value_withValues _ _ hk, Group.read, if_neg (by omega)]
    rw [Group.joined, Row.value_withValues _ _ hk, hnull, Group.completed,
      Row.value_withValues _ _ hk] at hvalue
    exact Value.eq_null_of_beq hvalue
  · intro hnull
    have hcompleted : objects.map (Group.completed p.groupKeys) =
        objects.map fun o => Group.joined p.groupKeys (Group.keyRow p.groupKeys o)
          (Group.memberRow p.groupKeys o) := by
      exact List.map_congr_left fun o ho =>
        Group.completed_eq _ (hobjects o ho) (hnull o ho)
    unfold Rejoins
    rw [hcompleted]
    exact sameRows_joined h hobjects

end

/-- The groups of a property divide the objects that they are made from, whatever the objects are: no
two groups have the same values of the keys to group by, groups stand in the order of their keys, and
members in that of theirs, each where it came first among those that are level. Nothing is lost, in
that members joined with the keys of their groups are the objects again, if and only if no object has
a value for a key that two children share. -/
theorem group_divides (p : Property) {objects : List Row} (hobjects : ∀ o ∈ objects, o.Ordered)
    (hfresh : p.instancesKey ∉ p.groupKeys) :
    ∃ groups : List Group, group p (objects.map .object) = groups.map (Group.toValue p) ∧
      (∀ g ∈ groups, (∀ k ∈ p.groupKeys, (g.toValue p).field k = g.key.value k) ∧
        (g.toValue p).field p.instancesKey = .array (g.members.map .object)) ∧
      p.Divides objects groups ∧
      (p.groupKeys.Nodup → p.Rejoins objects groups) ∧
      (p.Rejoins objects groups ↔
        ∀ o ∈ objects, ∀ k ∈ p.groupKeys, 1 < p.groupKeys.count k → o.value k = .null) := by
  have hcollected := Group.Collected.foldl_collect p.groupKeys objects
  have hrejoins := rejoins_shownGroups_iff hcollected hobjects
  refine ⟨_, ?_, fun g _ => ⟨fun k hk => ?_, ?_⟩, divides_shownGroups hcollected, fun hnodup => ?_,
    hrejoins⟩
  · have hrows : (objects.map Value.object).filterMap asObject? = objects := by
      rw [List.filterMap_map]
      exact List.filterMap_some
    unfold group
    rw [hrows, Group.objects_eq]
    rfl
  · have hne : k ≠ p.instancesKey := fun heq => hfresh (heq ▸ hk)
    change Row.value (g.key.insert p.instancesKey _) k = _
    rw [Row.value, Dictionary.get?_insert, if_neg hne, Row.value]
  · change Row.value (g.key.insert p.instancesKey _) p.instancesKey = _
    rw [Row.value, Dictionary.get?_insert, if_pos rfl]
    rfl
  · refine hrejoins.mpr fun o _ k _ hcount => absurd hcount ?_
    have honce := List.nodup_iff_count_le_one.mp hnodup k
    omega

/-- Authors who are grouped by their roles, and by a merge node that has the key of these. -/
def staffTwice : Property :=
  let name : Property :=
    ⟨"name", [⟨"name", false, []⟩], [], false, false, false, false, none, none, none, 3⟩
  let role (path : List Step) (children : List Property) (index : Nat) : Property :=
    ⟨"role", path, children, false, false, true, false, none, none, none, index⟩
  { staff with children := [role [⟨"role", false, []⟩] [] 1, role [] [name] 2] }

/-- Authors, one of whom has no role, are divided by their roles. If the key of the roles is there
twice, roles are lost. -/
theorem group_divides_staff :
    let objects : List Row := [[("name", .string "Ada"), ("role", .string "editor")],
      [("name", .string "Bob")], [("name", .string "Cyd"), ("role", .string "editor")]]
    (∀ o ∈ objects, o.Ordered) ∧
      (staff.instancesKey ∉ staff.groupKeys ∧ staff.groupKeys.Nodup ∧
        ∃ groups : List Group, group staff (objects.map .object) = groups.map (Group.toValue staff) ∧
          groups.length = 2 ∧ staff.Divides objects groups ∧ staff.Rejoins objects groups) ∧
      staffTwice.instancesKey ∉ staffTwice.groupKeys ∧
        ∃ groups : List Group,
          group staffTwice (objects.map .object) = groups.map (Group.toValue staffTwice) ∧
          groups.length = 1 ∧ staffTwice.Divides objects groups ∧
          ¬ staffTwice.Rejoins objects groups := by
  intro objects
  have hobjects : ∀ o ∈ objects, o.Ordered := by
    unfold Dictionary.Ordered
    decide +kernel
  have hfresh : staff.instancesKey ∉ staff.groupKeys := by decide +kernel
  have hnodup : staff.groupKeys.Nodup := by decide +kernel
  have hfresh' : staffTwice.instancesKey ∉ staffTwice.groupKeys := by decide +kernel
  obtain ⟨groups, hgroups, -, hdivides, hrejoins, -⟩ := group_divides staff hobjects hfresh
  obtain ⟨groups', hgroups', -, hdivides', -, hrejoins'⟩ :=
    group_divides staffTwice hobjects hfresh'
  have hlength := hdivides.sorted.perm.length_eq
  have hlength' := hdivides'.sorted.perm.length_eq
  rw [List.length_map] at hlength hlength'
  refine ⟨hobjects, ⟨hfresh, hnodup, groups, hgroups, ?_, hdivides, hrejoins hnodup⟩, hfresh',
    groups', hgroups', ?_, hdivides', fun h => ?_⟩
  · rw [hlength]
    decide +kernel
  · rw [hlength']
    decide +kernel
  · -- the editors have a role
    have hnull := hrejoins'.mp h _ List.mem_cons_self "role" (by decide +kernel) (by decide +kernel)
    cases hnull

end Property

end GraphQuery
