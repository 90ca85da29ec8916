import GraphQuery.Proofs.Claiming

/-!
# GraphQuery.Proofs.Merging — one element for every id of a level

1. **One level**: elements with one id become one, with the children of all of them.
2. **All levels**: the height of trees counts the levels that there are to merge.
3. **Places**: merging leaves every id where it stands, and no id stands twice on a level.
4. **Own data**: what holds of all elements and of any two that are merged, holds afterwards.
-/

namespace GraphQuery

namespace Element

/-! ## One level -/

theorem merge_id (a b : Element) : (a.merge b).id = a.id := by
  unfold merge addChildren
  split <;> rfl

/-- The children of merged elements follow each other. -/
@[simp]
theorem childList_merge (a b : Element) : (a.merge b).childList = a.childList ++ b.childList := by
  rw [merge, childList_addChildren]
  rfl

/-- The types of merged elements are those of both. -/
theorem mem_types_merge {a b : Element} {type : String} :
    type ∈ (a.merge b).types ↔ type ∈ a.types ∨ type ∈ b.types := by
  have hfold : ∀ ts us : List String,
      type ∈ us.foldl (fun ts t => if ts.contains t then ts else ts ++ [t]) ts ↔
        type ∈ ts ∨ type ∈ us := by
    intro ts us
    induction us generalizing ts with
    | nil => simp
    | cons u rest ih =>
      rw [List.foldl_cons, ih]
      split
      · rename_i hmem
        have hmem : u ∈ ts := List.contains_iff_mem.mp hmem
        rw [List.mem_cons]
        constructor
        · exact Or.imp_right .inr
        · rintro (h | rfl | h)
          · exact .inl h
          · exact .inl hmem
          · exact .inr h
      · rw [List.mem_append, List.mem_singleton, List.mem_cons, or_assoc]
  have htypes : (a.merge b).types =
      b.types.foldl (fun ts t => if ts.contains t then ts else ts ++ [t]) a.types :=
    congrArg types (bare_addChildren _ b.childList)
  rw [htypes, hfold]

theorem any_id_iff {es : List Element} {u : Uuid} :
    es.any (fun x => x.id = u) = true ↔ u ∈ es.map id := by
  simp

/-- An element with a known id is merged with the first one that has it. -/
theorem mergeInto_of_mem {es : List Element} {e : Element} (h : e.id ∈ es.map id) :
    mergeInto es e = es.map fun x => if x.id = e.id then x.merge e else x := by
  rw [mergeInto, if_pos (any_id_iff.mpr h)]

/-- An element with a new id comes last. -/
theorem mergeInto_of_not_mem {es : List Element} {e : Element} (h : e.id ∉ es.map id) :
    mergeInto es e = es ++ [e] := by
  rw [mergeInto, if_neg fun hany => h (any_id_iff.mp hany)]

/-- Merging into an element keeps the ids. -/
theorem map_id_mergeInto_of_mem {es : List Element} {e : Element} (h : e.id ∈ es.map id) :
    (mergeInto es e).map id = es.map id := by
  rw [mergeInto_of_mem h, List.map_map]
  apply List.map_congr_left
  intro x _
  rw [Function.comp_apply]
  split
  · exact merge_id x e
  · rfl

/-- No id is repeated by an element that is merged in. -/
theorem nodup_mergeInto {es : List Element} (h : (es.map id).Nodup) (e : Element) :
    ((mergeInto es e).map id).Nodup := by
  by_cases hmem : e.id ∈ es.map id
  · rw [map_id_mergeInto_of_mem hmem]
    exact h
  · rw [mergeInto_of_not_mem hmem, List.map_append, List.nodup_append]
    refine ⟨h, List.nodup_singleton _, ?_⟩
    intro u hu v hv heq
    rw [heq, List.mem_singleton.mp hv] at hu
    exact hmem hu

/-- An element that is merged into a level adds its id, and its children below that id. -/
theorem place_mergeInto {es : List Element} {e : Element} {above : List Uuid} {u : Uuid} :
    Place (mergeInto es e) above u ↔ Place (es ++ [e]) above u := by
  by_cases hmem : e.id ∈ es.map id
  · rw [mergeInto_of_mem hmem, Place.append_iff]
    rcases List.mem_map.mp hmem with ⟨x, hx, hid⟩
    cases above with
    | nil =>
      simp only [Place.top_iff, List.mem_map, List.mem_singleton]
      constructor
      · rintro ⟨y, ⟨z, hz, rfl⟩, rfl⟩
        refine .inl ⟨z, hz, ?_⟩
        split
        · exact (merge_id z e).symm
        · rfl
      · rintro (⟨z, hz, rfl⟩ | ⟨z, rfl, rfl⟩)
        · refine ⟨_, ⟨z, hz, rfl⟩, ?_⟩
          split
          · exact merge_id z e
          · rfl
        · exact ⟨_, ⟨x, hx, rfl⟩, by rw [if_pos hid, merge_id, hid]⟩
    | cons v above =>
      simp only [Place.under_iff, List.mem_map, List.mem_singleton]
      constructor
      · rintro ⟨y, ⟨z, hz, rfl⟩, rfl, h⟩
        split at h
        · rename_i heq
          rw [if_pos heq, merge_id]
          rw [childList_merge, Place.append_iff] at h
          rcases h with h | h
          · exact .inl ⟨z, hz, rfl, h⟩
          · exact .inr ⟨e, rfl, heq.symm, h⟩
        · rename_i hne
          rw [if_neg hne]
          exact .inl ⟨z, hz, rfl, h⟩
      · rintro (⟨z, hz, rfl, h⟩ | ⟨z, rfl, rfl, h⟩)
        · refine ⟨_, ⟨z, hz, rfl⟩, ?_⟩
          split
          · rw [merge_id, childList_merge, Place.append_iff]
            exact ⟨rfl, .inl h⟩
          · exact ⟨rfl, h⟩
        · refine ⟨_, ⟨x, hx, rfl⟩, ?_⟩
          rw [if_pos hid, merge_id, childList_merge, Place.append_iff]
          exact ⟨hid, .inr h⟩
  · rw [mergeInto_of_not_mem hmem]

/-- What holds of the elements of a level, and of any two with one id that are merged, holds of the
level afterwards. -/
theorem forall_mem_mergeInto {P : Element → Prop}
    (hmerge : ∀ a b : Element, a.id = b.id → P a → P b → P (a.merge b)) {es : List Element}
    {e : Element} (hes : ∀ x ∈ es, P x) (he : P e) : ∀ x ∈ mergeInto es e, P x := by
  by_cases hmem : e.id ∈ es.map id
  · rw [mergeInto_of_mem hmem]
    intro x hx
    rcases List.mem_map.mp hx with ⟨z, hz, rfl⟩
    split
    · rename_i heq
      exact hmerge z e heq (hes z hz) he
    · exact hes z hz
  · rw [mergeInto_of_not_mem hmem]
    intro x hx
    rcases List.mem_append.mp hx with hx | hx
    · exact hes x hx
    · rw [List.mem_singleton.mp hx]
      exact he

/-- Merges the elements of one level. -/
def mergeTop (es : List Element) : List Element := es.foldl mergeInto []

/-- After merging, no id is repeated at the top. -/
theorem nodup_mergeTop (es : List Element) : ((mergeTop es).map id).Nodup := by
  -- stated for any level that the elements are merged into
  have hfold : ∀ (es acc : List Element), (acc.map id).Nodup →
      ((es.foldl mergeInto acc).map id).Nodup := by
    intro es
    induction es with
    | nil => exact fun _ h => h
    | cons e rest ih => exact fun acc h => ih _ (nodup_mergeInto h e)
  exact hfold es [] List.nodup_nil

/-- Merging at the top keeps all places. -/
theorem place_mergeTop {es : List Element} {above : List Uuid} {u : Uuid} :
    Place (mergeTop es) above u ↔ Place es above u := by
  have hfold : ∀ (es acc : List Element),
      Place (es.foldl mergeInto acc) above u ↔ Place (acc ++ es) above u := by
    intro es
    induction es with
    | nil => simp
    | cons e rest ih =>
      intro acc
      rw [List.foldl_cons, ih, Place.append_iff, place_mergeInto, ← Place.append_iff,
        List.append_assoc, List.singleton_append]
  exact hfold es []

/-- What holds of elements, and of two that are merged, holds after merging. -/
theorem forall_mem_mergeTop {P : Element → Prop}
    (hmerge : ∀ a b : Element, a.id = b.id → P a → P b → P (a.merge b)) {es : List Element}
    (hes : ∀ x ∈ es, P x) : ∀ x ∈ mergeTop es, P x := by
  have hfold : ∀ (es acc : List Element), (∀ x ∈ acc, P x) → (∀ x ∈ es, P x) →
      ∀ x ∈ es.foldl mergeInto acc, P x := by
    intro es
    induction es with
    | nil => exact fun _ hacc _ => hacc
    | cons e rest ih =>
      intro acc hacc hes
      exact ih _ (forall_mem_mergeInto hmerge hacc (hes e (.head _)))
        fun x hx => hes x (.tail _ hx)
  exact hfold es [] (fun _ h => nomatch h) hes

/-- What holds of all that stands below the elements of a level stays so: merging moves nothing up. -/
theorem forall_mem_childList_mergeTop {P : Element → Prop} {es : List Element}
    (h : ∀ e ∈ es, ∀ x ∈ subtrees e.childList, P x) :
    ∀ e ∈ mergeTop es, ∀ x ∈ subtrees e.childList, P x := by
  refine forall_mem_mergeTop (P := fun e => ∀ x ∈ subtrees e.childList, P x) ?_ h
  intro a b _ ha hb x hx
  rw [childList_merge, subtrees_append, List.mem_append] at hx
  rcases hx with hx | hx
  · exact ha x hx
  · exact hb x hx

/-! ## All levels -/

/-- A tree is one level higher than what is below its element. -/
theorem height_eq (e : Element) : e.height = heights e.childList + 1 := by
  rcases e with ⟨_, _, _, _ | _, _, _⟩ <;> simp [height, childList, heights]

theorem heights_le_iff {es : List Element} {n : Nat} :
    heights es ≤ n ↔ ∀ e ∈ es, e.height ≤ n := by
  induction es with
  | nil => simp [heights]
  | cons e rest ih => rw [heights, Nat.max_le, ih, List.forall_mem_cons]

/-- No element of merged trees has more levels below it than the trees had. -/
theorem heights_childList_mergeTop {es : List Element} {n : Nat} (h : heights es ≤ n + 1) :
    ∀ e ∈ mergeTop es, heights e.childList ≤ n := by
  apply forall_mem_mergeTop (P := fun e => heights e.childList ≤ n)
  · intro a b _ ha hb
    rw [childList_merge, heights_le_iff]
    intro e he
    rcases List.mem_append.mp he with he | he
    · exact heights_le_iff.mp ha e he
    · exact heights_le_iff.mp hb e he
  · intro e he
    have hheight := heights_le_iff.mp h e he
    rw [height_eq] at hheight
    omega

theorem mergeLevels_nil (n : Nat) : mergeLevels n [] = [] := by
  cases n <;> rfl

/-- Merging goes level by level: first the top, then what is below each element. -/
theorem mergeLevels_succ (n : Nat) (es : List Element) :
    mergeLevels (n + 1) es = (mergeTop es).map fun e =>
      { e with children := unlessEmpty (mergeLevels n e.childList) } := by
  rw [mergeLevels, ← mergeTop]
  apply List.map_congr_left
  rintro ⟨id, types, label, _ | cs, reference, space⟩ _
  · simp [childList, mergeLevels_nil, unlessEmpty]
  · rfl

theorem eq_nil_of_heights_le_zero {es : List Element} (h : heights es ≤ 0) : es = [] := by
  cases es with
  | nil => rfl
  | cons e rest =>
    have hheight := heights_le_iff.mp h e (.head _)
    rw [height_eq] at hheight
    omega

/-! ## Places -/

/-- Merging keeps all places, if it goes deep enough. -/
theorem place_mergeLevels {n : Nat} {es : List Element} (hn : heights es ≤ n)
    {above : List Uuid} {u : Uuid} : Place (mergeLevels n es) above u ↔ Place es above u := by
  induction n generalizing es above with
  | zero => rw [eq_nil_of_heights_le_zero hn, mergeLevels_nil]
  | succ n ih =>
    rw [mergeLevels_succ, ← @place_mergeTop es]
    have hheights := heights_childList_mergeTop hn
    cases above with
    | nil => simp [Place.top_iff]
    | cons v above =>
      simp only [Place.under_iff, List.mem_map]
      constructor
      · rintro ⟨_, ⟨e, he, rfl⟩, rfl, h⟩
        rw [childList_unlessEmpty, ih (hheights e he)] at h
        exact ⟨e, he, rfl, h⟩
      · rintro ⟨e, he, rfl, h⟩
        refine ⟨_, ⟨e, he, rfl⟩, rfl, ?_⟩
        rw [childList_unlessEmpty, ih (hheights e he)]
        exact h

/-- Elements with different ids are a level if their children are. -/
theorem Level.of_nodup {es : List Element} (hids : (es.map id).Nodup)
    (hbelow : ∀ e ∈ es, Level e.childList) : Level es := by
  induction es with
  | nil => exact .nil
  | cons e rest ih =>
    rw [List.map_cons, List.nodup_cons] at hids
    refine .cons ?_ (hbelow e (.head _)) (ih hids.2 fun d hd => hbelow d (.tail _ hd))
    intro d hd heq
    exact hids.1 (heq ▸ List.mem_map_of_mem hd)

/-- After merging, no id is repeated on any level. -/
theorem level_mergeLevels {n : Nat} {es : List Element} (hn : heights es ≤ n) :
    Level (mergeLevels n es) := by
  induction n generalizing es with
  | zero =>
    rw [eq_nil_of_heights_le_zero hn, mergeLevels_nil]
    exact .nil
  | succ n ih =>
    rw [mergeLevels_succ]
    apply Level.of_nodup
    · rw [List.map_map]
      exact nodup_mergeTop es
    · intro e he
      rcases List.mem_map.mp he with ⟨d, hd, rfl⟩
      rw [childList_unlessEmpty]
      exact ih (heights_childList_mergeTop hn d hd)

/-- Merging leaves every id where it stands. -/
theorem place_mergeSameLevel {es : List Element} {above : List Uuid} {u : Uuid} :
    Place (mergeSameLevel es) above u ↔ Place es above u :=
  place_mergeLevels (Nat.le_refl _)

/-- After merging, no id stands twice on a level. -/
theorem level_mergeSameLevel (es : List Element) : Level (mergeSameLevel es) :=
  level_mergeLevels (Nat.le_refl _)

/-! ## Own data -/

section OwnData

variable {P : Element → Prop} (hown : OfOwnData P)
  (hmerge : ∀ a b : Element, a.id = b.id → P a → P b → P (a.merge b))

include hown hmerge

/-- What holds of all elements holds after merging, if merging two of them keeps it. -/
theorem forall_mem_mergeLevels {n : Nat} {es : List Element} (h : ∀ x ∈ subtrees es, P x) :
    ∀ x ∈ subtrees (mergeLevels n es), P x := by
  induction n generalizing es with
  | zero => exact h
  | succ n ih =>
    have htop : ∀ e ∈ mergeTop es, P e :=
      forall_mem_mergeTop hmerge fun e he => h e (mem_subtrees_of_mem he)
    have hbelow : ∀ e ∈ mergeTop es, ∀ x ∈ subtrees e.childList, P x :=
      forall_mem_childList_mergeTop fun e he x hx =>
        h x (mem_subtrees_childList (mem_subtrees_of_mem he) hx)
    intro x hx
    rw [mergeLevels_succ, mem_subtrees] at hx
    rcases hx with ⟨d, hd, hx⟩
    rcases List.mem_map.mp hd with ⟨e, he, rfl⟩
    rw [childList_unlessEmpty] at hx
    rcases hx with rfl | hx
    · exact hown e _ rfl (htop e he)
    · exact ih (hbelow e he) x hx

/-- What holds of the own data of all elements holds after merging, if it holds of any two elements
with one id that are merged. -/
theorem forall_mem_mergeSameLevel {es : List Element} (h : ∀ x ∈ subtrees es, P x) :
    ∀ x ∈ subtrees (mergeSameLevel es), P x :=
  forall_mem_mergeLevels hown hmerge h

/-- The same for what stands below the elements of the first level, whatever these are. -/
theorem forall_mem_childList_mergeSameLevel {es : List Element}
    (h : ∀ e ∈ es, ∀ x ∈ subtrees e.childList, P x) :
    ∀ e ∈ mergeSameLevel es, ∀ x ∈ subtrees e.childList, P x := by
  unfold mergeSameLevel
  cases heights es with
  | zero => exact h
  | succ levels =>
    intro d hd
    rw [mergeLevels_succ] at hd
    rcases List.mem_map.mp hd with ⟨e, he, rfl⟩
    rw [childList_unlessEmpty]
    exact forall_mem_mergeLevels hown hmerge (forall_mem_childList_mergeTop h e he)

end OwnData

end Element

end GraphQuery
