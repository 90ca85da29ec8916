import GraphQuery.Evaluation
import Mathlib.Data.List.Induction
import Mathlib.Data.List.Nodup

/-!
# GraphQuery.Proofs.Membership — what sets, dictionaries and plans hold

1. **Sets** of names, uuids and collections hold exactly what they were made from. A set of uuids
   is settled by what it holds.
2. **Dictionaries**: a key that is inserted has the new value, other keys keep theirs. Keys stay in
   order, and a dictionary is settled by the values of its keys.
3. **Plans** hold the conditions that they have on properties, and leave out no relation that has
   edges.
-/

namespace GraphQuery

/-! ## Sets -/

/-- A set that is filled item by item holds what it held and the items. -/
theorem mem_foldl_of_mem_insert {α : Type} {insert : α → List α → List α}
    (h : ∀ a b s, a ∈ insert b s ↔ a = b ∨ a ∈ s) (a : α) (xs s : List α) :
    a ∈ xs.foldl (fun s x => insert x s) s ↔ a ∈ s ∨ a ∈ xs := by
  induction xs generalizing s with
  | nil => simp
  | cons x rest ih =>
    rw [List.foldl_cons, ih, h, List.mem_cons, or_assoc, or_left_comm]

/-- An item at the end is new, or a repetition. -/
theorem eraseDups_concat {α : Type} [BEq α] [LawfulBEq α] (xs : List α) (x : α) :
    (xs ++ [x]).eraseDups = if x ∈ xs then xs.eraseDups else xs.eraseDups ++ [x] := by
  rw [List.eraseDups_append]
  by_cases h : x ∈ xs <;> simp [List.removeAll, h, List.eraseDups_cons]

theorem nodup_eraseDups {α : Type} [BEq α] [LawfulBEq α] (xs : List α) : xs.eraseDups.Nodup := by
  induction xs using List.reverseRecOn with
  | nil => simp
  | append_singleton xs x ih =>
    rw [eraseDups_concat]
    split
    · exact ih
    · rename_i hnew
      exact ih.append (List.nodup_singleton x) (by simpa using hnew)

theorem eraseDups_of_nodup {α : Type} [BEq α] [LawfulBEq α] {xs : List α} (h : xs.Nodup) :
    xs.eraseDups = xs := by
  induction xs using List.reverseRecOn with
  | nil => simp
  | append_singleton xs x ih =>
    rcases List.nodup_append'.mp h with ⟨hxs, _, hdisjoint⟩
    rw [eraseDups_concat, if_neg (by simpa using hdisjoint), ih hxs]

namespace Names

theorem mem_insert (n name : String) (s : Names) : n ∈ insert name s ↔ n = name ∨ n ∈ s := by
  induction s with
  | nil => simp [insert]
  | cons m rest ih =>
    unfold insert
    split
    · simp
    · -- the name goes in front, is there already, or belongs further back
      split
      · rename_i heq
        simp [heq]
      · rw [List.mem_cons, ih, List.mem_cons, or_left_comm]

/-- The set of names holds the names of the list. -/
@[simp]
theorem mem_ofList {n : String} {names : List String} : n ∈ ofList names ↔ n ∈ names := by
  simpa [ofList] using mem_foldl_of_mem_insert mem_insert n names []

@[simp]
theorem ofList_eq_nil {names : List String} : ofList names = [] ↔ names = [] := by
  simp [List.eq_nil_iff_forall_not_mem]

end Names

namespace Uuid

theorem mem_insertInto (u v : Uuid) (s : List Uuid) : u ∈ insertInto v s ↔ u = v ∨ u ∈ s := by
  induction s with
  | nil => simp [insertInto]
  | cons w rest ih =>
    unfold insertInto
    split
    · simp
    · split
      · rename_i heq
        simp [heq]
      · rw [List.mem_cons, ih, List.mem_cons, or_left_comm]

/-- The set of ids holds the ids of the list. -/
@[simp]
theorem mem_setOf {u : Uuid} {us : List Uuid} : u ∈ setOf us ↔ u ∈ us := by
  simpa [setOf] using mem_foldl_of_mem_insert mem_insertInto u us []

@[simp]
theorem setOf_eq_nil {us : List Uuid} : setOf us = [] ↔ us = [] := by
  simp [List.eq_nil_iff_forall_not_mem]

theorem lt_of_not_lt_of_ne {u v : Uuid} (h : ¬ u < v) (hne : u ≠ v) : v < u := by
  have hbits : u.bits ≠ v.bits := fun heq => hne (congrArg Uuid.mk heq)
  have hle : ¬ u.bits < v.bits := h
  have hlt : v.bits < u.bits := by bv_omega
  exact hlt

/-- An id is inserted where the order wants it. -/
theorem pairwise_insertInto {s : List Uuid} (h : s.Pairwise (· < ·)) (u : Uuid) :
    (insertInto u s).Pairwise (· < ·) := by
  induction s with
  | nil => simp [insertInto]
  | cons v rest ih =>
    rw [List.pairwise_cons] at h
    unfold insertInto
    split
    · rename_i hlt
      rw [List.pairwise_cons]
      refine ⟨List.forall_mem_cons.mpr ⟨hlt, fun w hw => ?_⟩, List.pairwise_cons.mpr h⟩
      exact BitVec.lt_trans hlt (h.1 w hw)
    · rename_i hle
      split
      · exact List.pairwise_cons.mpr h
      · -- the id follows the first one, as do all others
        rename_i hne
        rw [List.pairwise_cons]
        refine ⟨fun w hw => ?_, ih h.2⟩
        rcases (mem_insertInto w u rest).mp hw with rfl | hw
        · exact lt_of_not_lt_of_ne hle hne
        · exact h.1 w hw

theorem setOf_concat (us : List Uuid) (u : Uuid) : setOf (us ++ [u]) = insertInto u (setOf us) :=
  List.foldl_concat ..

/-- A set of ids ascends. -/
theorem pairwise_setOf (us : List Uuid) : (setOf us).Pairwise (· < ·) := by
  induction us using List.reverseRecOn with
  | nil => exact .nil
  | append_singleton us u ih =>
    rw [setOf_concat]
    exact pairwise_insertInto ih u

/-- A set is settled by what it holds. -/
theorem setOf_eq_of_mem_iff {us vs : List Uuid} (h : ∀ u, u ∈ us ↔ u ∈ vs) :
    setOf us = setOf vs := by
  have hnodup (us : List Uuid) : (setOf us).Nodup :=
    List.Pairwise.imp (fun {a b} (hlt : a < b) (heq : a = b) => BitVec.lt_irrefl _ (heq ▸ hlt))
      (pairwise_setOf us)
  have hperm : (setOf us).Perm (setOf vs) :=
    (List.perm_ext_iff_of_nodup (hnodup us) (hnodup vs)).mpr fun u => by simp [h]
  refine List.Perm.eq_of_pairwise ?_ (pairwise_setOf us) (pairwise_setOf vs) hperm
  exact fun _ _ _ _ hlt hgt => absurd (BitVec.lt_trans hlt hgt) (BitVec.lt_irrefl _)

end Uuid

namespace Collection

theorem mem_insertInto (c d : Collection) (s : List Collection) :
    c ∈ insertInto d s ↔ c = d ∨ c ∈ s := by
  induction s with
  | nil => simp [insertInto]
  | cons e rest ih =>
    unfold insertInto
    split
    · simp
    · split
      · rename_i heq
        simp [heq]
      · rw [List.mem_cons, ih, List.mem_cons, or_left_comm]

/-- The set of collections holds the collections of the list. -/
@[simp]
theorem mem_setOf {c : Collection} {cs : List Collection} : c ∈ setOf cs ↔ c ∈ cs := by
  simpa [setOf] using mem_foldl_of_mem_insert mem_insertInto c cs []

end Collection

/-! ## Dictionaries -/

/-- A key that is not repeated is found with its value. -/
theorem lookup_of_mem {κ β : Type} [DecidableEq κ] {l : List (κ × β)} (h : (l.map Prod.fst).Nodup)
    {k : κ} {v : β} (hmem : (k, v) ∈ l) : l.lookup k = some v := by
  induction l with
  | nil => cases hmem
  | cons entry rest ih =>
    rcases entry with ⟨k', w⟩
    rw [List.map_cons, List.nodup_cons] at h
    rcases List.mem_cons.mp hmem with heq | hrest
    · cases heq
      simp
    · have hne : k ≠ k' := by
        rintro rfl
        exact h.1 (List.mem_map.mpr ⟨(k, v), hrest, rfl⟩)
      rw [List.lookup_cons, beq_false_of_ne hne]
      exact ih h.2 hrest

namespace Dictionary

variable {α : Type}

theorem get?_cons (k key : String) (value : α) (d : Dictionary α) :
    get? ((k, value) :: d) key = if key = k then some value else d.get? key := by
  by_cases h : key = k
  · simp [get?, h]
  · have hbeq : (key == k) = false := by simp [h]
    simp [get?, List.lookup_cons, hbeq, h]

/-- An entry that is inserted is found under its key, and all others as before. -/
theorem get?_insert (d : Dictionary α) (key k : String) (value : α) :
    (insert key value d).get? k = if k = key then some value else d.get? k := by
  induction d with
  | nil => simp [insert, get?_cons]
  | cons entry rest ih =>
    rcases entry with ⟨k', v'⟩
    unfold insert
    split
    · -- the key goes in front
      rw [get?_cons]
    · split
      · -- the key is there already, with another value
        rename_i heq
        subst heq
        rw [get?_cons, get?_cons]
        split <;> rfl
      · -- the key belongs further back
        rename_i hne
        rw [get?_cons, get?_cons, ih]
        by_cases hk : k = k'
        · have hkey : ¬ k = key := fun h => hne (h.symm.trans hk)
          rw [if_pos hk, if_neg hkey, if_pos hk]
        · rw [if_neg hk, if_neg hk]

/-- Of entries that are inserted one by one, the last one with a key counts. -/
theorem get?_foldl_insert (entries : List (String × α)) (d : Dictionary α) (k : String) :
    (entries.foldl (fun d (k, v) => insert k v d) d).get? k =
      (entries.reverse.lookup k).or (d.get? k) := by
  -- induction on the entries, for any dictionary to start with
  induction entries generalizing d with
  | nil => rfl
  | cons entry rest ih =>
    rcases entry with ⟨key, value⟩
    have hsingle : List.lookup k [(key, value)] = if k = key then some value else none :=
      get?_cons key k value []
    rw [List.foldl_cons, ih, get?_insert, List.reverse_cons, List.lookup_append, hsingle,
      Option.or_assoc]
    split <;> rfl

/-- The keys after an insertion. -/
theorem mem_keys_insert (d : Dictionary α) (key k : String) (value : α) :
    k ∈ (insert key value d).keys ↔ k = key ∨ k ∈ d.keys := by
  unfold keys
  induction d with
  | nil => simp [insert]
  | cons entry rest ih =>
    rcases entry with ⟨k', v'⟩
    unfold insert
    split
    · simp
    · split
      · rename_i heq
        simp [heq]
      · rw [List.map_cons, List.mem_cons, ih, List.map_cons, List.mem_cons, or_left_comm]

theorem mem_keys_foldl_insert (entries : List (String × α)) (d : Dictionary α) (k : String) :
    k ∈ (entries.foldl (fun d (k, v) => insert k v d) d).keys ↔
      k ∈ d.keys ∨ k ∈ entries.map Prod.fst := by
  induction entries generalizing d with
  | nil => simp
  | cons entry rest ih =>
    rw [List.foldl_cons, ih, mem_keys_insert, List.map_cons, List.mem_cons, or_assoc, or_left_comm]

/-- An entry whose key is not there yet is added to the others. -/
theorem insert_perm {d : Dictionary α} {key : String} (h : key ∉ d.keys) (value : α) :
    (insert key value d).Perm ((key, value) :: d) := by
  unfold keys at h
  induction d with
  | nil => exact .refl _
  | cons entry rest ih =>
    rcases entry with ⟨k, v⟩
    rw [List.map_cons, List.mem_cons, not_or] at h
    unfold insert
    split
    · exact .refl _
    · rw [if_neg h.1]
      exact ((ih h.2).cons (k, v)).trans (.swap (key, value) (k, v) rest)

theorem keys_insert_perm {d : Dictionary α} {key : String} (h : key ∉ d.keys) (value : α) :
    (insert key value d).keys.Perm (key :: d.keys) := (insert_perm h value).map Prod.fst

/-- A new key joins the others, wherever it stands among those to be added. -/
theorem keys_insert_append_perm {d : Dictionary α} {key : String} {rest : List String}
    (h : (d.keys ++ key :: rest).Nodup) (value : α) :
    ((insert key value d).keys ++ rest).Perm (d.keys ++ key :: rest) := by
  have hfresh : key ∉ d.keys := fun hmem =>
    (List.nodup_append.mp h).2.2 key hmem key List.mem_cons_self rfl
  exact ((keys_insert_perm hfresh value).append_right rest).trans List.perm_middle.symm

/-- A key that is erased leaves the others. -/
theorem keys_erase_perm {d : Dictionary α} {key : String} {others : List String}
    (h : d.keys.Perm (key :: others)) (hkey : key ∉ others) : (erase d key).keys.Perm others := by
  have herase : (erase d key).keys = d.keys.filter (· != key) := by
    unfold erase keys
    rw [List.filter_map]
    rfl
  have hothers : others.filter (· != key) = others := by
    rw [List.filter_eq_self]
    intro k hk
    rw [bne_iff_ne]
    rintro rfl
    exact hkey hk
  have hfilter := h.filter (· != key)
  rwa [List.filter_cons_of_neg (by simp), hothers, ← herase] at hfilter

/-- A key without a value is not there. -/
theorem get?_eq_none_iff {d : Dictionary α} {key : String} :
    d.get? key = none ↔ key ∉ d.keys := by
  unfold get? keys
  rw [List.lookup_eq_none_iff, List.mem_map]
  constructor
  · rintro h ⟨entry, hentry, rfl⟩
    simpa using h entry hentry
  · intro h entry hentry
    rw [bne_iff_ne]
    rintro rfl
    exact h ⟨entry, hentry, rfl⟩

/-- Entries without a repeated key are all kept. -/
theorem ofEntries_perm {entries : List (String × α)} (h : (entries.map Prod.fst).Nodup) :
    (ofEntries entries).Perm entries := by
  have hinserted (d : Dictionary α) (hd : (d.keys ++ entries.map Prod.fst).Nodup) :
      (entries.foldl (fun d (k, v) => insert k v d) d).Perm (d ++ entries) := by
    clear h
    induction entries generalizing d with
    | nil => simp
    | cons entry rest ih =>
      rcases entry with ⟨key, value⟩
      have hfresh : key ∉ d.keys := fun hmem =>
        (List.nodup_append.mp hd).2.2 key hmem key List.mem_cons_self rfl
      rw [List.foldl_cons]
      refine (ih _ ((keys_insert_append_perm hd value).nodup_iff.mpr hd)).trans ?_
      exact ((insert_perm hfresh value).append_right rest).trans List.perm_middle.symm
  simpa [ofEntries] using hinserted [] h

/-- The keys increase, so that none of them is there twice. -/
def Ordered (d : Dictionary α) : Prop := d.keys.Pairwise (· < ·)

/-- An ordered dictionary has no key twice. -/
theorem Ordered.nodup {d : Dictionary α} (h : d.Ordered) : d.keys.Nodup := by
  refine List.Pairwise.imp ?_ h
  rintro k _ hlt rfl
  exact String.lt_irrefl k hlt

/-- Insertion keeps the order. -/
theorem Ordered.insert {d : Dictionary α} (h : d.Ordered) (key : String) (value : α) :
    Ordered (insert key value d) := by
  unfold Ordered keys at h ⊢
  induction d with
  | nil => simp [Dictionary.insert]
  | cons entry rest ih =>
    rcases entry with ⟨k, v⟩
    rw [List.map_cons, List.pairwise_cons] at h
    unfold Dictionary.insert
    split
    · rename_i hlt
      rw [List.map_cons, List.map_cons, List.pairwise_cons, List.pairwise_cons]
      exact ⟨List.forall_mem_cons.mpr ⟨hlt, fun k' hk' => String.lt_trans hlt (h.1 k' hk')⟩, h⟩
    · rename_i hle
      split
      · rename_i heq
        rw [List.map_cons, List.pairwise_cons, heq]
        exact h
      · -- the key follows the first one, as do all others
        rename_i hne
        have hlt : k < key := Std.lt_of_le_of_ne (String.not_lt.mp hle) (Ne.symm hne)
        rw [List.map_cons, List.pairwise_cons]
        refine ⟨fun k' hk' => ?_, ih h.2⟩
        rcases (mem_keys_insert rest key k' value).mp hk' with rfl | hk'
        · exact hlt
        · exact h.1 k' hk'

/-- The entries of an ordered dictionary are what is found in it. -/
theorem mem_iff_get? {d : Dictionary α} (h : d.Ordered) {k : String} {v : α} :
    (k, v) ∈ d ↔ d.get? k = some v := by
  constructor
  · exact lookup_of_mem h.nodup
  · intro hget
    obtain ⟨before, after, hsplit, -⟩ := List.lookup_eq_some_iff.mp hget
    simp [hsplit]

/-- Ordered dictionaries in which the same is found are the same. -/
theorem ext_get? {a b : Dictionary α} (ha : a.Ordered) (hb : b.Ordered)
    (h : ∀ k, a.get? k = b.get? k) : a = b := by
  have hperm : a.Perm b := by
    refine (List.perm_ext_iff_of_nodup (List.Nodup.of_map _ ha.nodup)
      (List.Nodup.of_map _ hb.nodup)).mpr ?_
    rintro ⟨k, v⟩
    rw [mem_iff_get? ha, mem_iff_get? hb, h]
  -- both are in the order of their keys, of which no two are equal
  refine List.Perm.eq_of_pairwise ?_ (List.pairwise_map.mp ha) (List.pairwise_map.mp hb) hperm
  exact fun _ _ _ _ hlt hgt => absurd (String.lt_trans hlt hgt) (String.lt_irrefl _)

/-- The keys of a dictionary stand in their order, whatever values they have. -/
theorem keys_eq {a b : Dictionary α} (ha : a.Ordered) (hb : b.Ordered)
    (h : ∀ k, k ∈ a.keys ↔ k ∈ b.keys) : a.keys = b.keys := by
  refine List.Perm.eq_of_pairwise ?_ ha hb
    ((List.perm_ext_iff_of_nodup ha.nodup hb.nodup).mpr h)
  exact fun _ _ _ _ hlt hgt => absurd (String.lt_trans hlt hgt) (String.lt_irrefl _)

/-- A dictionary of entries is ordered. -/
theorem ordered_ofEntries (entries : List (String × α)) : (ofEntries entries).Ordered := by
  have hinserted (d : Dictionary α) (hd : d.Ordered) :
      Ordered (entries.foldl (fun d (k, v) => Dictionary.insert k v d) d) := by
    induction entries generalizing d with
    | nil => exact hd
    | cons entry rest ih => exact ih _ (hd.insert entry.1 entry.2)
  exact hinserted [] List.Pairwise.nil

/-- The last entry of a key is the one that counts. -/
theorem get?_ofEntries (entries : List (String × α)) (k : String) :
    (ofEntries entries).get? k = entries.reverse.lookup k := by
  unfold ofEntries
  rw [get?_foldl_insert]
  exact Option.or_none

/-- If no key is repeated, every entry is found. -/
theorem get?_ofEntries_of_mem {entries : List (String × α)} (h : (entries.map Prod.fst).Nodup)
    {k : String} {v : α} (hmem : (k, v) ∈ entries) : (ofEntries entries).get? k = some v := by
  have hreverse := (entries.reverse_perm.map Prod.fst).nodup_iff.mpr h
  rw [get?_ofEntries]
  exact lookup_of_mem hreverse (List.mem_reverse.mpr hmem)

theorem contains_ofEntries {entries : List (String × α)} {k : String} :
    (ofEntries entries).contains k = true ↔ k ∈ entries.map Prod.fst := by
  rw [contains, get?_ofEntries, ← List.mem_reverse, ← List.map_reverse]
  induction entries.reverse with
  | nil => simp
  | cons entry rest ih =>
    rcases entry with ⟨key, value⟩
    have hcons := get?_cons key k value rest
    unfold get? at hcons
    rw [hcons, List.map_cons, List.mem_cons, ← ih]
    split <;> simp [*]

end Dictionary

/-! ## Plans -/

/-- The condition on a property is one of the plan's. -/
theorem Plan.mem_conditions {plan : Plan} {p : Property} {c : Condition}
    (h : plan.condition? p = some c) : c ∈ plan.conditions := by
  rcases List.lookup_eq_some_iff.mp h with ⟨before, after, hsplit, -⟩
  simp [conditions, hsplit]

/-- A plan that was made with knowledge of all collections, or of none, leaves out no relation that
has edges. -/
theorem Plan.not_mem_missingEdges {data : StageData} {r : Request}
    (hknown : ∀ known, r.known = some known → data.collections ⊆ known) (spec : Specification)
    {e : Edge} (he : e ∈ data.edges) : e.relation ∉ (build spec r).missingEdges := by
  intro hmissing
  cases hr : r.known with
  | none => simp [build, hr] at hmissing
  | some known =>
    have hcollection : Collection.ofRelation e.relation ∈ data.collections := by
      rw [StageData.collections, Collection.mem_setOf]
      exact List.mem_append_right _ (List.mem_map.mpr ⟨e, he, rfl⟩)
    simp only [build, hr, Names.mem_ofList, List.mem_filter] at hmissing
    simp [hknown known hr hcollection] at hmissing

end GraphQuery
