import GraphQuery.Proofs.Merging

/-!
# GraphQuery.Proofs.MergedLevels — what merging makes of the levels of trees

A level of trees is what stands below one sequence of ids: the children of all elements that stand
there, one list after the other.

1. **One level**: merging it keeps the ids in the order in which they first came, and the children
   that stand below each of them.
2. **Number of levels**: merging more levels than there are changes nothing, and no tree gets
   taller.
3. **Levels** of merged trees are the merged levels of the trees.
4. **Pieces** of a list can be merged before the whole is.
5. **Views**: the ids of trees, and their ids by type, tell what the levels hold.
-/

namespace GraphQuery

namespace Element

/-! ## One level -/

/-- What stands below the elements of a level that have a given id. -/
def childrenOf (u : Uuid) (es : List Element) : List Element :=
  (es.filter (·.id = u)).flatMap childList

@[simp]
theorem childrenOf_nil (u : Uuid) : childrenOf u [] = [] := rfl

theorem childrenOf_cons (u : Uuid) (e : Element) (rest : List Element) :
    childrenOf u (e :: rest) = (if e.id = u then e.childList else []) ++ childrenOf u rest := by
  unfold childrenOf
  rw [List.filter_cons]
  by_cases h : e.id = u <;> simp [h]

/-- The children of an id in more elements follow each other. -/
theorem childrenOf_append (u : Uuid) (as bs : List Element) :
    childrenOf u (as ++ bs) = childrenOf u as ++ childrenOf u bs := by
  simp [childrenOf]

theorem childrenOf_eq_nil {u : Uuid} {es : List Element} (h : u ∉ es.map id) :
    childrenOf u es = [] := by
  have hnone : es.filter (·.id = u) = [] := by simpa using h
  rw [childrenOf, hnone, List.flatMap_nil]

/-- Elements are merged in one after the other. -/
theorem mergeTop_concat (es : List Element) (e : Element) :
    mergeTop (es ++ [e]) = mergeInto (mergeTop es) e :=
  List.foldl_concat ..

theorem mergeTop_append (as bs : List Element) :
    mergeTop (as ++ bs) = bs.foldl mergeInto (mergeTop as) :=
  List.foldl_append

/-- Merging keeps the ids in the order in which they first came. -/
theorem map_id_mergeTop (es : List Element) : (mergeTop es).map id = (es.map id).eraseDups := by
  induction es using List.reverseRecOn with
  | nil => rfl
  | append_singleton es e ih =>
    have hmem : e.id ∈ (mergeTop es).map id ↔ e.id ∈ es.map id := by
      rw [ih, List.mem_eraseDups]
    rw [mergeTop_concat, List.map_append, List.map_singleton, eraseDups_concat]
    by_cases h : e.id ∈ es.map id
    · rw [if_pos h, map_id_mergeInto_of_mem (hmem.mpr h), ih]
    · rw [if_neg h, mergeInto_of_not_mem (mt hmem.mp h), List.map_append, ih, List.map_singleton]

/-- Elements with ids of their own are left alone. -/
theorem mergeTop_of_nodup {es : List Element} (h : (es.map id).Nodup) : mergeTop es = es := by
  induction es using List.reverseRecOn with
  | nil => rfl
  | append_singleton es e ih =>
    rw [List.map_append, List.nodup_append'] at h
    have hnew : e.id ∉ es.map id := by simpa using h.2.2
    rw [mergeTop_concat, ih h.1, mergeInto_of_not_mem hnew]

/-- An element is merged into the only one that has its id. -/
theorem mergeInto_split {before after : List Element} {x e : Element}
    (h : ((before ++ x :: after).map id).Nodup) (hid : x.id = e.id) :
    mergeInto (before ++ x :: after) e = before ++ x.merge e :: after := by
  rw [List.map_append, List.map_cons, List.nodup_append', List.nodup_cons] at h
  have hmem : e.id ∈ (before ++ x :: after).map id := by simp [← hid]
  -- the others have other ids
  have hothers {es : List Element} (hes : x.id ∉ es.map id) :
      (es.map fun y => if y.id = e.id then y.merge e else y) = es := by
    refine (List.map_congr_left fun y hy => if_neg fun heq => hes ?_).trans (List.map_id es)
    rw [hid, ← heq]
    exact List.mem_map_of_mem hy
  have hbefore : x.id ∉ before.map id := fun hx => h.2.2 hx List.mem_cons_self
  rw [mergeInto_of_mem hmem, List.map_append, List.map_cons, if_pos hid, hothers hbefore,
    hothers h.2.1.1]

/-- Merging an element in loses no children, and changes no order among those of one id. -/
theorem childrenOf_mergeInto {es : List Element} (h : (es.map id).Nodup) (e : Element) (u : Uuid) :
    childrenOf u (mergeInto es e) = childrenOf u (es ++ [e]) := by
  by_cases hmem : e.id ∈ es.map id
  · obtain ⟨x, hx, hid⟩ := List.mem_map.mp hmem
    obtain ⟨before, after, rfl⟩ := List.append_of_mem hx
    rw [mergeInto_split h hid]
    rw [List.map_append, List.map_cons, List.nodup_append', List.nodup_cons] at h
    simp only [childrenOf_append, childrenOf_cons, merge_id, childList_merge, hid, childrenOf_nil]
    by_cases hu : e.id = u
    · -- nothing stands below this id after the merged element
      have hafter : childrenOf u after = [] := childrenOf_eq_nil (hu ▸ hid ▸ h.2.1.1)
      simp [hu, hafter]
    · simp [hu]
  · rw [mergeInto_of_not_mem hmem]

/-- What stands below an id is put together, in the order in which it stood. -/
theorem childrenOf_mergeTop (u : Uuid) (es : List Element) :
    childrenOf u (mergeTop es) = childrenOf u es := by
  induction es using List.reverseRecOn with
  | nil => rfl
  | append_singleton es e ih =>
    rw [mergeTop_concat, childrenOf_mergeInto (nodup_mergeTop es), childrenOf_append,
      childrenOf_append, ih]

/-- A type that some element with an id has. -/
def Typed (es : List Element) (u : Uuid) (type : String) : Prop :=
  ∃ e ∈ es, e.id = u ∧ type ∈ e.types

/-- Nor does it lose a type. -/
theorem typed_mergeInto {es : List Element} {e : Element} {u : Uuid} {type : String} :
    Typed (mergeInto es e) u type ↔ Typed (es ++ [e]) u type := by
  by_cases hmem : e.id ∈ es.map id
  · rw [mergeInto_of_mem hmem]
    unfold Typed
    constructor
    · rintro ⟨y, hy, rfl, htype⟩
      obtain ⟨x, hx, rfl⟩ := List.mem_map.mp hy
      split at htype
      · rename_i hid
        rw [if_pos hid, merge_id]
        rcases mem_types_merge.mp htype with htype | htype
        · exact ⟨x, by simp [hx], rfl, htype⟩
        · exact ⟨e, by simp, hid.symm, htype⟩
      · rename_i hid
        rw [if_neg hid]
        exact ⟨x, by simp [hx], rfl, htype⟩
    · rintro ⟨y, hy, rfl, htype⟩
      rcases List.mem_append.mp hy with hy | hy
      · refine ⟨_, List.mem_map_of_mem hy, ?_⟩
        split
        · exact ⟨merge_id y e, mem_types_merge.mpr (.inl htype)⟩
        · exact ⟨rfl, htype⟩
      · obtain rfl := List.mem_singleton.mp hy
        obtain ⟨x, hx, hid⟩ := List.mem_map.mp hmem
        refine ⟨_, List.mem_map_of_mem hx, ?_⟩
        rw [if_pos hid]
        exact ⟨(merge_id x y).trans hid, mem_types_merge.mpr (.inr htype)⟩
  · rw [mergeInto_of_not_mem hmem]

theorem typed_append {as bs : List Element} {u : Uuid} {type : String} :
    Typed (as ++ bs) u type ↔ Typed as u type ∨ Typed bs u type := by
  simp [Typed, or_and_right, exists_or]

/-- The types of elements with one id are put together. -/
theorem typed_mergeTop {es : List Element} {u : Uuid} {type : String} :
    Typed (mergeTop es) u type ↔ Typed es u type := by
  induction es using List.reverseRecOn with
  | nil => rfl
  | append_singleton es e ih =>
    rw [mergeTop_concat, typed_mergeInto, typed_append, ih, typed_append]

/-! ## Number of levels -/

/-- An element whose children are merged, as many levels of them as are given. -/
def mergeBelow (n : Nat) (e : Element) : Element :=
  { e with children := unlessEmpty (mergeLevels n e.childList) }

@[simp]
theorem mergeBelow_id (n : Nat) (e : Element) : (mergeBelow n e).id = e.id := rfl

@[simp]
theorem childList_mergeBelow (n : Nat) (e : Element) :
    (mergeBelow n e).childList = mergeLevels n e.childList :=
  childList_unlessEmpty ..

/-- Merging goes level by level: first the top, then what is below each element. -/
theorem mergeLevels_succ_eq (n : Nat) (es : List Element) :
    mergeLevels (n + 1) es = (mergeTop es).map (mergeBelow n) :=
  mergeLevels_succ n es

/-- Merging below an element keeps the ids at the top. -/
theorem map_id_mergeBelow (n : Nat) (es : List Element) :
    (es.map (mergeBelow n)).map id = es.map id := by
  rw [List.map_map]
  rfl

/-- Merging more levels than there are changes nothing. -/
theorem mergeLevels_eq {n : Nat} {es : List Element} (hn : heights es ≤ n) :
    mergeLevels n es = mergeSameLevel es := by
  have hsame : ∀ (n m : Nat) (es : List Element), heights es ≤ n → heights es ≤ m →
      mergeLevels n es = mergeLevels m es := by
    intro n
    induction n with
    | zero =>
      intro m es hn _
      rw [eq_nil_of_heights_le_zero hn, mergeLevels_nil, mergeLevels_nil]
    | succ n ih =>
      intro m es hn hm
      cases m with
      | zero => rw [eq_nil_of_heights_le_zero hm, mergeLevels_nil, mergeLevels_nil]
      | succ m =>
        rw [mergeLevels_succ_eq, mergeLevels_succ_eq]
        refine List.map_congr_left fun e he => ?_
        unfold mergeBelow
        rw [ih m e.childList (heights_childList_mergeTop hn e he)
          (heights_childList_mergeTop hm e he)]
  exact hsame n _ es hn (Nat.le_refl _)

/-- Merging makes no tree taller. -/
theorem heights_mergeLevels (n : Nat) {es : List Element} {m : Nat} (hm : heights es ≤ m) :
    heights (mergeLevels n es) ≤ m := by
  induction n generalizing es m with
  | zero => exact hm
  | succ n ih =>
    cases m with
    | zero =>
      rw [eq_nil_of_heights_le_zero hm, mergeLevels_nil]
      exact Nat.zero_le _
    | succ m =>
      rw [mergeLevels_succ_eq, heights_le_iff]
      intro d hd
      obtain ⟨e, he, rfl⟩ := List.mem_map.mp hd
      rw [height_eq, childList_mergeBelow]
      exact Nat.succ_le_succ (ih (heights_childList_mergeTop hm e he))

theorem heights_append (as bs : List Element) :
    heights (as ++ bs) = max (heights as) (heights bs) := by
  induction as with
  | nil => simp [heights]
  | cons a rest ih => rw [List.cons_append, heights, heights, ih, Nat.max_assoc]

/-- The children are one level lower. -/
theorem heights_childrenOf {es : List Element} {n : Nat} (h : heights es ≤ n + 1) (u : Uuid) :
    heights (childrenOf u es) ≤ n := by
  rw [heights_le_iff]
  intro d hd
  obtain ⟨e, he, hd⟩ := List.mem_flatMap.mp hd
  have hheight := heights_le_iff.mp h e (List.mem_filter.mp he).1
  rw [height_eq] at hheight
  exact heights_le_iff.mp (by omega : heights e.childList ≤ n) d hd

/-! ## Levels -/

/-- The ids of merged trees are those of the trees, in the order in which they first came. -/
theorem map_id_mergeSameLevel (es : List Element) :
    (mergeSameLevel es).map id = (es.map id).eraseDups := by
  have hsucc := mergeLevels_eq (Nat.le_succ (heights es))
  rw [← hsucc, mergeLevels_succ_eq, map_id_mergeBelow, map_id_mergeTop]

/-- Merging keeps the types at the top. -/
theorem typed_mergeSameLevel {es : List Element} {u : Uuid} {type : String} :
    Typed (mergeSameLevel es) u type ↔ Typed es u type := by
  have hsucc := mergeLevels_eq (Nat.le_succ (heights es))
  rw [← hsucc, mergeLevels_succ_eq, ← @typed_mergeTop es]
  unfold Typed
  constructor
  · rintro ⟨d, hd, rfl, htype⟩
    obtain ⟨e, he, rfl⟩ := List.mem_map.mp hd
    exact ⟨e, he, rfl, htype⟩
  · rintro ⟨e, he, rfl, htype⟩
    exact ⟨_, List.mem_map_of_mem he, rfl, htype⟩

/-- Where every id stands once, what stands below it is merged by itself. -/
theorem childrenOf_map_mergeBelow {es : List Element} (h : (es.map id).Nodup) (n : Nat) (u : Uuid) :
    childrenOf u (es.map (mergeBelow n)) = mergeLevels n (childrenOf u es) := by
  by_cases hmem : u ∈ es.map id
  · obtain ⟨e, he, rfl⟩ := List.mem_map.mp hmem
    obtain ⟨before, after, rfl⟩ := List.append_of_mem he
    rw [List.map_append, List.map_cons, List.nodup_append', List.nodup_cons] at h
    have hbefore : e.id ∉ before.map id := fun hid => h.2.2 hid List.mem_cons_self
    have hnone {es : List Element} (hes : e.id ∉ es.map id) :
        childrenOf e.id (es.map (mergeBelow n)) = [] :=
      childrenOf_eq_nil (by rwa [map_id_mergeBelow])
    simp [childrenOf_append, childrenOf_cons, hnone hbefore, hnone h.2.1.1,
      childrenOf_eq_nil hbefore, childrenOf_eq_nil h.2.1.1]
  · rw [childrenOf_eq_nil hmem, childrenOf_eq_nil (by rwa [map_id_mergeBelow]), mergeLevels_nil]

/-- What stands below an id in merged trees is what stands below it, merged. -/
theorem childrenOf_mergeSameLevel (u : Uuid) (es : List Element) :
    childrenOf u (mergeSameLevel es) = mergeSameLevel (childrenOf u es) := by
  have hsucc := mergeLevels_eq (Nat.le_succ (heights es))
  have hheights := heights_childrenOf (Nat.le_succ (heights es)) u
  rw [← hsucc, mergeLevels_succ_eq, childrenOf_map_mergeBelow (nodup_mergeTop es),
    childrenOf_mergeTop, mergeLevels_eq hheights]

/-- The level below a sequence of ids, the topmost first. -/
def levelBelow (above : List Uuid) (es : List Element) : List Element :=
  above.foldl (fun level u => childrenOf u level) es

@[simp]
theorem levelBelow_nil (es : List Element) : levelBelow [] es = es := rfl

@[simp]
theorem levelBelow_cons (u : Uuid) (above : List Uuid) (es : List Element) :
    levelBelow (u :: above) es = levelBelow above (childrenOf u es) := rfl

/-- Every level of merged trees is a level of the trees, merged. -/
theorem levelBelow_mergeSameLevel (above : List Uuid) (es : List Element) :
    levelBelow above (mergeSameLevel es) = mergeSameLevel (levelBelow above es) := by
  induction above generalizing es with
  | nil => rfl
  | cons u above ih => rw [levelBelow_cons, childrenOf_mergeSameLevel, ih, levelBelow_cons]

/-- Fewer elements have fewer children at every depth. -/
theorem levelBelow_subset {as bs : List Element} (h : as ⊆ bs) (above : List Uuid) :
    levelBelow above as ⊆ levelBelow above bs := by
  induction above generalizing as bs with
  | nil => exact h
  | cons u above ih =>
    refine ih fun x hx => ?_
    obtain ⟨e, he, hx⟩ := List.mem_flatMap.mp hx
    exact List.mem_flatMap.mpr ⟨e, List.filter_subset _ h he, hx⟩

/-- The elements of trees are those of their levels. -/
theorem mem_subtrees_iff {x : Element} {es : List Element} :
    x ∈ subtrees es ↔ ∃ above, x ∈ levelBelow above es := by
  constructor
  · intro h
    induction es using forest_induction with
    | nil => cases h
    | cons e rest ihbelow ihrest =>
      simp only [subtrees_cons, List.mem_cons, List.mem_append] at h
      rcases h with rfl | h | h
      · exact ⟨[], .head _⟩
      · obtain ⟨above, hx⟩ := ihbelow h
        have hchildren : e.childList ⊆ childrenOf e.id (e :: rest) := by
          rw [childrenOf_cons, if_pos rfl]
          exact List.subset_append_left _ _
        exact ⟨e.id :: above, levelBelow_subset hchildren above hx⟩
      · obtain ⟨above, hx⟩ := ihrest h
        exact ⟨above, levelBelow_subset (List.subset_cons_self e rest) above hx⟩
  · rintro ⟨above, h⟩
    induction above generalizing es with
    | nil => exact mem_subtrees_of_mem h
    | cons u above ih =>
      obtain ⟨e, he, hx⟩ := mem_subtrees_flatMap.mp (ih h)
      exact mem_subtrees.mpr ⟨e, (List.mem_filter.mp he).1, .inr hx⟩

/-! ## Pieces -/

/-- Elements with the same own data, whose children are merged to the same, are merged to the
same. -/
theorem mergeBelow_congr {n : Nat} {x y : Element} (hbare : x.bare = y.bare)
    (h : mergeLevels n x.childList = mergeLevels n y.childList) :
    mergeBelow n x = mergeBelow n y := by
  have heq (z : Element) : mergeBelow n z =
      { z.bare with children := unlessEmpty (mergeLevels n z.childList) } := rfl
  rw [heq x, hbare, h, ← heq]

section

variable {n : Nat}
  (ih : ∀ as bs, mergeLevels n (mergeLevels n as ++ bs) = mergeLevels n (as ++ bs))

include ih

/-- Merging below an element twice is merging once. -/
theorem mergeBelow_mergeBelow (x : Element) : mergeBelow n (mergeBelow n x) = mergeBelow n x := by
  have hchildren := ih x.childList []
  rw [List.append_nil, List.append_nil] at hchildren
  refine mergeBelow_congr rfl ?_
  rw [childList_mergeBelow, hchildren]

/-- Merging the children of an element first does not change what becomes of it and of what is
merged into it. -/
theorem mergeBelow_merge (x e : Element) :
    mergeBelow n ((mergeBelow n x).merge e) = mergeBelow n (x.merge e) := by
  refine mergeBelow_congr ?_ ?_
  · unfold merge
    rw [bare_addChildren, bare_addChildren]
    rfl
  · rw [childList_merge, childList_merge, childList_mergeBelow, ih]

theorem map_mergeBelow_mergeBelow (es : List Element) :
    (es.map (mergeBelow n)).map (mergeBelow n) = es.map (mergeBelow n) := by
  rw [List.map_map]
  exact List.map_congr_left fun x _ => mergeBelow_mergeBelow ih x

/-- Whether one merges below before an element is merged in makes no difference, if one does so
after. -/
theorem map_mergeBelow_mergeInto (es : List Element) (e : Element) :
    (mergeInto (es.map (mergeBelow n)) e).map (mergeBelow n) =
      (mergeInto es e).map (mergeBelow n) := by
  by_cases hmem : e.id ∈ es.map id
  · rw [mergeInto_of_mem hmem, mergeInto_of_mem (by rwa [map_id_mergeBelow]), List.map_map,
      List.map_map, List.map_map]
    refine List.map_congr_left fun x _ => ?_
    by_cases hid : x.id = e.id
    · simp [hid, mergeBelow_merge ih x e]
    · simp [hid, mergeBelow_mergeBelow ih x]
  · rw [mergeInto_of_not_mem hmem, mergeInto_of_not_mem (by rwa [map_id_mergeBelow]),
      List.map_append, List.map_append, map_mergeBelow_mergeBelow ih]

/-- Nor does it for any number of elements. -/
theorem map_mergeBelow_foldl (es bs : List Element) :
    (bs.foldl mergeInto (es.map (mergeBelow n))).map (mergeBelow n) =
      (bs.foldl mergeInto es).map (mergeBelow n) := by
  -- one after the other, for any elements that the others are merged into
  induction bs generalizing es with
  | nil => exact map_mergeBelow_mergeBelow ih es
  | cons b rest ihrest =>
    rw [List.foldl_cons, ← ihrest, map_mergeBelow_mergeInto ih, ihrest, List.foldl_cons]

end

/-- Merging the first of two lists beforehand makes no difference. -/
theorem mergeLevels_mergeLevels_append (n : Nat) (as bs : List Element) :
    mergeLevels n (mergeLevels n as ++ bs) = mergeLevels n (as ++ bs) := by
  induction n generalizing as bs with
  | zero => rfl
  | succ n ih =>
    have hnodup : (((mergeTop as).map (mergeBelow n)).map id).Nodup := by
      rw [map_id_mergeBelow]
      exact nodup_mergeTop as
    rw [mergeLevels_succ_eq, mergeLevels_succ_eq, mergeLevels_succ_eq, mergeTop_append,
      mergeTop_of_nodup hnodup, map_mergeBelow_foldl ih, mergeTop_append]

/-- What has been merged before may be merged again with more. -/
theorem mergeSameLevel_append (as bs : List Element) :
    mergeSameLevel (mergeSameLevel as ++ bs) = mergeSameLevel (as ++ bs) := by
  have hboth := heights_append as bs
  have has : heights as ≤ heights (as ++ bs) := by omega
  have hbs : heights bs ≤ heights (as ++ bs) := by omega
  have hmerged : heights (mergeSameLevel as ++ bs) ≤ heights (as ++ bs) := by
    rw [heights_append]
    exact Nat.max_le.mpr ⟨heights_mergeLevels _ has, hbs⟩
  rw [← mergeLevels_eq hmerged, ← mergeLevels_eq has, mergeLevels_mergeLevels_append]
  rfl

/-! ## Views -/

/-- Ids of trees. -/
def idSet (es : List Element) : List Uuid := Uuid.setOf (idsIn es)

/-- The types of the elements of trees, each with the id of its element. -/
def typedIds (es : List Element) : List (String × Uuid) :=
  (subtrees es).flatMap fun e => e.types.map (·, e.id)

/-- Ids by the types that they are listed with. -/
def index (listed : List (String × Uuid)) : Dictionary (List Uuid) :=
  listed.foldl
    (fun (d : Dictionary (List Uuid)) (type, u) =>
      d.insert type (u.insertInto ((d.get? type).getD [])))
    []

/-- Ids of trees by type. -/
def typeIndex (es : List Element) : Dictionary (List Uuid) := index (typedIds es)

/-- The ids of a tree are those of its element and of what is below. -/
theorem ids_eq (e : Element) : e.ids = Uuid.setOf (e.id :: idsIn e.childList) := by
  rw [ids, subtree_eq]
  rfl

/-- The index of a tree lists the types of its element and of what is below. -/
theorem byType_eq (e : Element) :
    e.byType = index (e.types.map (·, e.id) ++ typedIds e.childList) := by
  rw [byType, subtree_eq]
  rfl

/-- A listed id is added under its type. -/
theorem index_concat (listed : List (String × Uuid)) (type : String) (u : Uuid) :
    index (listed ++ [(type, u)]) =
      (index listed).insert type (u.insertInto (((index listed).get? type).getD [])) :=
  List.foldl_concat ..

/-- The index is in order. -/
theorem ordered_index (listed : List (String × Uuid)) : (index listed).Ordered := by
  induction listed using List.reverseRecOn with
  | nil => exact List.Pairwise.nil
  | append_singleton listed entry ih =>
    rw [index_concat]
    exact ih.insert _ _

/-- Under a type, the index has the set of ids that are listed with it. -/
theorem get?_index (listed : List (String × Uuid)) (type : String) :
    (index listed).get? type =
      if type ∈ listed.map Prod.fst then
        some (Uuid.setOf ((listed.filter (·.1 = type)).map Prod.snd))
      else none := by
  induction listed using List.reverseRecOn with
  | nil => rfl
  | append_singleton listed entry ih =>
    obtain ⟨key, u⟩ := entry
    rw [index_concat, Dictionary.get?_insert]
    by_cases heq : type = key
    · subst heq
      -- a type that was not listed has no ids yet
      have hids : ((index listed).get? type).getD [] =
          Uuid.setOf ((listed.filter (·.1 = type)).map Prod.snd) := by
        rw [ih]
        split
        · rfl
        · rename_i hnew
          have hnone : listed.filter (·.1 = type) = [] := by
            rw [List.filter_eq_nil_iff]
            intro entry hentry htype
            exact hnew (List.mem_map.mpr ⟨entry, hentry, by simpa using htype⟩)
          rw [hnone]
          rfl
      rw [if_pos rfl, if_pos (by simp), hids, List.filter_append, List.map_append,
        ← Uuid.setOf_concat]
      simp
    · have hkeys : type ∈ (listed ++ [(key, u)]).map Prod.fst ↔
          type ∈ listed.map Prod.fst := by simp [heq]
      have hother : [(key, u)].filter (·.1 = type) = [] := by simp [Ne.symm heq]
      rw [if_neg heq, ih, List.filter_append, hother, List.append_nil]
      simp only [hkeys]

/-- An index is settled by what is listed. -/
theorem index_eq_of_mem_iff {xs ys : List (String × Uuid)}
    (h : ∀ entry, entry ∈ xs ↔ entry ∈ ys) : index xs = index ys := by
  refine Dictionary.ext_get? (ordered_index xs) (ordered_index ys) fun type => ?_
  have hkeys : type ∈ xs.map Prod.fst ↔ type ∈ ys.map Prod.fst := by simp [h]
  have hids : Uuid.setOf ((xs.filter (·.1 = type)).map Prod.snd) =
      Uuid.setOf ((ys.filter (·.1 = type)).map Prod.snd) :=
    Uuid.setOf_eq_of_mem_iff fun u => by simp [h]
  rw [get?_index, get?_index, hids]
  simp only [hkeys]

/-- The ids of trees are those of all their levels. -/
theorem mem_idsIn_iff {es : List Element} {u : Uuid} :
    u ∈ idsIn es ↔ ∃ above, u ∈ (levelBelow above es).map id := by
  simp only [idsIn, List.mem_map, mem_subtrees_iff]
  constructor
  · rintro ⟨e, ⟨above, he⟩, hid⟩
    exact ⟨above, e, he, hid⟩
  · rintro ⟨above, e, he, hid⟩
    exact ⟨e, ⟨above, he⟩, hid⟩

/-- The types of trees are those of all their levels. -/
theorem mem_typedIds_iff {es : List Element} {type : String} {u : Uuid} :
    (type, u) ∈ typedIds es ↔ ∃ above, Typed (levelBelow above es) u type := by
  simp only [typedIds, List.mem_flatMap, List.mem_map, Prod.mk.injEq, mem_subtrees_iff, Typed]
  constructor
  · rintro ⟨e, ⟨above, he⟩, _, htype, rfl, rfl⟩
    exact ⟨above, e, he, rfl, htype⟩
  · rintro ⟨above, e, he, rfl, htype⟩
    exact ⟨e, ⟨above, he⟩, type, htype, rfl, rfl⟩

/-- Merging keeps the ids of trees. -/
theorem mem_idsIn_mergeSameLevel {es : List Element} {u : Uuid} :
    u ∈ idsIn (mergeSameLevel es) ↔ u ∈ idsIn es := by
  simp only [mem_idsIn_iff, levelBelow_mergeSameLevel, map_id_mergeSameLevel, List.mem_eraseDups]

/-- Merging keeps the types of trees. -/
theorem mem_typedIds_mergeSameLevel {es : List Element} {type : String} {u : Uuid} :
    (type, u) ∈ typedIds (mergeSameLevel es) ↔ (type, u) ∈ typedIds es := by
  simp only [mem_typedIds_iff, levelBelow_mergeSameLevel, typed_mergeSameLevel]

/-- An element with other children. -/
def withChildren (e : Element) (es : List Element) : Element := { e with children := some es }

/-- The set of ids does not depend on whether the children are merged. -/
theorem ids_withChildren_mergeSameLevel (e : Element) (es : List Element) :
    (e.withChildren (mergeSameLevel es)).ids = (e.withChildren es).ids := by
  have hchildren (es : List Element) : (e.withChildren es).childList = es := rfl
  rw [ids_eq, ids_eq, hchildren, hchildren]
  refine Uuid.setOf_eq_of_mem_iff fun u => ?_
  rw [List.mem_cons, mem_idsIn_mergeSameLevel, List.mem_cons]
  rfl

/-- Nor does the index. -/
theorem byType_withChildren_mergeSameLevel (e : Element) (es : List Element) :
    (e.withChildren (mergeSameLevel es)).byType = (e.withChildren es).byType := by
  have hchildren (es : List Element) : (e.withChildren es).childList = es := rfl
  rw [byType_eq, byType_eq, hchildren, hchildren]
  refine index_eq_of_mem_iff fun ⟨type, u⟩ => ?_
  rw [List.mem_append, mem_typedIds_mergeSameLevel, List.mem_append]
  rfl

/-- A level has no id twice, nor have the children of any element. -/
theorem Level.nodup {es : List Element} (h : Level es) :
    (es.map id).Nodup ∧ ∀ e ∈ subtrees es, (e.childList.map id).Nodup := by
  induction h with
  | nil => simp
  | @cons e rest hfirst _ _ ihbelow ihrest =>
    have hid : e.id ∉ rest.map id := by simpa using hfirst
    refine ⟨List.nodup_cons.mpr ⟨hid, ihrest.1⟩, fun x hx => ?_⟩
    simp only [subtrees_cons, List.mem_cons, List.mem_append] at hx
    rcases hx with rfl | hx | hx
    · exact ihbelow.1
    · exact ihbelow.2 x hx
    · exact ihrest.2 x hx

/-- Merging on every level. No list of elements holds an id twice, be it the list itself or the
children of an element. No id and no type of an id is lost or added, neither in the trees nor below
any element that they stand under. On every level the ids stand in the order in which they first
came. Merging once more changes nothing, and the first of two lists may be merged beforehand. -/
theorem levels_merged (as bs : List Element) :
    (((mergeSameLevel as).map id).Nodup ∧
      ∀ e ∈ subtrees (mergeSameLevel as), (e.childList.map id).Nodup) ∧
    (idSet (mergeSameLevel as) = idSet as ∧ typeIndex (mergeSameLevel as) = typeIndex as ∧
      ∀ e : Element, (e.withChildren (mergeSameLevel as)).ids = (e.withChildren as).ids ∧
        (e.withChildren (mergeSameLevel as)).byType = (e.withChildren as).byType) ∧
    (∀ above, (levelBelow above (mergeSameLevel as)).map id =
      ((levelBelow above as).map id).eraseDups) ∧
    mergeSameLevel (mergeSameLevel as) = mergeSameLevel as ∧
    mergeSameLevel (mergeSameLevel as ++ bs) = mergeSameLevel (as ++ bs) := by
  have hids : idSet (mergeSameLevel as) = idSet as :=
    Uuid.setOf_eq_of_mem_iff fun _ => mem_idsIn_mergeSameLevel
  have htypes : typeIndex (mergeSameLevel as) = typeIndex as :=
    index_eq_of_mem_iff fun _ => mem_typedIds_mergeSameLevel
  have hagain := mergeSameLevel_append as []
  rw [List.append_nil, List.append_nil] at hagain
  refine ⟨(level_mergeSameLevel as).nodup,
    ⟨hids, htypes, fun e =>
      ⟨ids_withChildren_mergeSameLevel e as, byType_withChildren_mergeSameLevel e as⟩⟩,
    fun above => ?_, hagain, mergeSameLevel_append as bs⟩
  rw [levelBelow_mergeSameLevel, map_id_mergeSameLevel]

end Element

end GraphQuery
