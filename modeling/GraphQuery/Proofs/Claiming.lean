import GraphQuery.Proofs.Forests

/-!
# GraphQuery.Proofs.Claiming — every id once, at its first place

Claiming goes through trees in pre-order and keeps an element if its id has not been claimed. An
element that is not kept takes all below it with it.

1. **Claimed ids** are those claimed before and those of the elements kept, each of them once.
2. **Kept elements** stand where they stood, and have children or none, but no empty list.
3. **Levels** on which no id stands twice.
-/

namespace GraphQuery

namespace Element

/-- An element whose id has been claimed is dropped, with all below it. -/
theorem claim_cons_of_mem {claimed : List Uuid} {e : Element} (h : e.id ∈ claimed)
    (rest : List Element) : claim claimed (e :: rest) = claim claimed rest := by
  rcases e with ⟨id, types, label, children, reference, space⟩
  rw [claim, claimTree, if_pos (List.contains_iff_mem.mpr h)]
  rfl

/-- An element that is kept claims its id, then its children claim theirs, then the others. -/
theorem claim_cons_of_not_mem {claimed : List Uuid} {e : Element} (h : e.id ∉ claimed)
    (rest : List Element) : claim claimed (e :: rest) =
      let below := claim (claimed ++ [e.id]) e.childList
      let others := claim below.2 rest
      ({ e with children := unlessEmpty below.1 } :: others.1, others.2) := by
  rcases e with ⟨id, types, label, children, reference, space⟩
  rw [claim, claimTree, if_neg (by simpa using h)]
  cases children <;> rfl

/-! ## Claimed ids -/

/-- What has been claimed in the end had been before, or is the id of an element kept. -/
theorem claimed_eq (claimed : List Uuid) (es : List Element) :
    (claim claimed es).2 = claimed ++ idsIn (claim claimed es).1 := by
  induction es using forest_induction generalizing claimed with
  | nil => simp [claim]
  | cons e rest below others =>
    by_cases h : e.id ∈ claimed
    · rw [claim_cons_of_mem h, others]
    · rw [claim_cons_of_not_mem h]
      dsimp only
      rw [others, below]
      simp

/-- No id is claimed twice. -/
theorem nodup_claimed {claimed : List Uuid} (h : claimed.Nodup) (es : List Element) :
    (claim claimed es).2.Nodup := by
  induction es using forest_induction generalizing claimed with
  | nil => exact h
  | cons e rest below others =>
    by_cases hmem : e.id ∈ claimed
    · rw [claim_cons_of_mem hmem]
      exact others h
    · rw [claim_cons_of_not_mem hmem]
      have hnext : (claimed ++ [e.id]).Nodup :=
        List.nodup_append.mpr ⟨h, List.nodup_singleton _, by
          intro a ha b hb
          rw [List.mem_singleton.mp hb]
          exact fun heq => hmem (heq ▸ ha)⟩
      exact others (below hnext)

theorem mem_claimed_of_mem {claimed : List Uuid} {u : Uuid} (h : u ∈ claimed) (es : List Element) :
    u ∈ (claim claimed es).2 := by
  rw [claimed_eq]
  exact List.mem_append_left _ h

/-- An element is kept only if its id is new. -/
theorem not_mem_of_mem_kept {claimed : List Uuid} (h : claimed.Nodup) {es : List Element} {u : Uuid}
    (hu : u ∈ idsIn (claim claimed es).1) : u ∉ claimed := by
  have hnodup := nodup_claimed h es
  rw [claimed_eq, List.nodup_append] at hnodup
  exact fun hclaimed => hnodup.2.2 u hclaimed u hu rfl

/-! ## Kept elements -/

/-- What is kept stands where it stood. -/
theorem place_of_claim {claimed : List Uuid} {es : List Element} {above : List Uuid} {u : Uuid}
    (h : Place (claim claimed es).1 above u) : Place es above u := by
  induction es using forest_induction generalizing claimed above with
  | nil => exact h
  | cons e rest below others =>
    by_cases hmem : e.id ∈ claimed
    · rw [claim_cons_of_mem hmem] at h
      exact (others h).mono fun _ he => .tail _ he
    · rw [claim_cons_of_not_mem hmem] at h
      rw [Place.cons_iff, Place.singleton_iff] at h ⊢
      -- at the top or below it, as before
      rcases h with (h | ⟨rest, rfl, h⟩) | h
      · exact .inl (.inl h)
      · rw [childList_unlessEmpty] at h
        exact .inl (.inr ⟨rest, rfl, below h⟩)
      · exact .inr (others h)

/-- No empty list of children is left. -/
theorem tidy_claim (claimed : List Uuid) (es : List Element) : Tidy (claim claimed es).1 := by
  induction es using forest_induction generalizing claimed with
  | nil =>
    intro x hx
    cases hx
  | cons e rest below others =>
    by_cases hmem : e.id ∈ claimed
    · rw [claim_cons_of_mem hmem]
      exact others claimed
    · rw [claim_cons_of_not_mem hmem]
      intro x hx
      simp only [subtrees_cons, List.mem_cons, List.mem_append, childList_unlessEmpty] at hx
      rcases hx with rfl | hx | hx
      · exact unlessEmpty_ne _
      · exact below _ x hx
      · exact others _ x hx

/-- What is kept of an element are its own data. -/
theorem exists_bare_of_claim {claimed : List Uuid} {es : List Element} {x : Element}
    (h : x ∈ subtrees (claim claimed es).1) : ∃ y ∈ subtrees es, x.bare = y.bare := by
  induction es using forest_induction generalizing claimed with
  | nil => cases h
  | cons e rest below others =>
    simp only [subtrees_cons, List.mem_cons, List.mem_append]
    by_cases hmem : e.id ∈ claimed
    · rw [claim_cons_of_mem hmem] at h
      rcases others h with ⟨y, hy, hbare⟩
      exact ⟨y, .inr (.inr hy), hbare⟩
    · rw [claim_cons_of_not_mem hmem] at h
      simp only [subtrees_cons, List.mem_cons, List.mem_append, childList_unlessEmpty] at h
      rcases h with rfl | h | h
      · exact ⟨e, .inl rfl, rfl⟩
      · rcases below h with ⟨y, hy, hbare⟩
        exact ⟨y, .inr (.inl hy), hbare⟩
      · rcases others h with ⟨y, hy, hbare⟩
        exact ⟨y, .inr (.inr hy), hbare⟩

/-- What can be told from own data holds of the elements kept, if it held of all. -/
theorem forall_mem_claim {P : Element → Prop} (hown : OfOwnData P) {claimed : List Uuid}
    {es : List Element} (h : ∀ x ∈ subtrees es, P x) :
    ∀ x ∈ subtrees (claim claimed es).1, P x := by
  intro x hx
  rcases exists_bare_of_claim hx with ⟨y, hy, hbare⟩
  exact hown y x hbare.symm (h y hy)

/-! ## Levels -/

/-- No two elements of one level have the same id. -/
inductive Level : List Element → Prop
  | nil : Level []
  | cons {e : Element} {rest : List Element} :
      (∀ d ∈ rest, d.id ≠ e.id) → Level e.childList → Level rest → Level (e :: rest)

/-- The children of the elements with one id are those of the first of them. -/
theorem Level.flatMap_childList_filter {es : List Element} (h : Level es) (u : Uuid) :
    (es.filter (·.id = u)).flatMap childList = ((es.find? (·.id = u)).map childList).getD [] := by
  induction h with
  | nil => rfl
  | @cons e rest hfirst _ _ _ ih =>
    rw [List.filter_cons, List.find?_cons]
    by_cases hid : e.id = u
    · have hnone : rest.filter (·.id = u) = [] := by
        rw [List.filter_eq_nil_iff]
        intro d hd heq
        exact hfirst d hd ((of_decide_eq_true heq).trans hid.symm)
      simp [hid, hnone]
    · simpa [hid] using ih

/-- The children of the elements with one id are a level, too. -/
theorem Level.childList_filter {es : List Element} (h : Level es) (u : Uuid) :
    Level ((es.filter (·.id = u)).flatMap childList) := by
  rw [h.flatMap_childList_filter]
  induction h with
  | nil => exact .nil
  | @cons e rest _ hbelow _ _ ih =>
    rw [List.find?_cons]
    split
    · exact hbelow
    · exact ih

end Element

end GraphQuery
