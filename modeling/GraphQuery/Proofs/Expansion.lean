import GraphQuery.Proofs.Discovery
import Mathlib.Data.Finset.Card
import Mathlib.Data.List.Perm.Subperm

/-!
# GraphQuery.Proofs.Expansion — the expansion of trees comes to an end

1. **Expansions** as a relation that knows no bound: what is found for an element and has not joined
   yet is put below it, then all below it is expanded, then the elements after it.
2. **Ids** of expanded trees are those of the trees and those that joined, each of them once.
3. **Progress**: an expansion goes deeper only below a stored document that it has not passed, so
   the number of documents bounds the depth.
4. **Runs** of the program follow the relation to its end.
-/

namespace GraphQuery

/-! ## Expansions -/

/-- An element whose children, after others have been found, are expanded to `below`. -/
def Element.withBelow (e : Element) (found below : List Element) : Element :=
  { e with children := (e.addChildren found).children.map fun _ => below }

/-- An element is alike with what is put below it. -/
theorem Element.alike_withBelow (e : Element) (found below : List Element) :
    (e.withBelow found below).Alike e := ⟨rfl, rfl, rfl⟩

namespace ScopeRun

/-- `c.Expands claimed es result last`: the trees `es` expand to `result`, where the ids `claimed`
had joined before, and `last` have in the end. -/
inductive Expands (c : ScopeRun) :
    List Uuid → List Element → List Element → List Uuid → Prop
  | nil {claimed : List Uuid} : Expands c claimed [] [] claimed
  | cons {claimed next last : List Uuid} {e : Element} {rest es below others : List Element} :
      c.found e = .ok es →
      Expands c (Element.claim claimed es).2 (e.childList ++ (Element.claim claimed es).1)
        below next →
      Expands c next rest others last →
      Expands c claimed (e :: rest) (e.withBelow (Element.claim claimed es).1 below :: others) last

/-- `c.Fails claimed es err`: the queries of an element fail while the trees `es` are expanded, and
nothing is expanded after it. -/
inductive Fails (c : ScopeRun) : List Uuid → List Element → Error → Prop
  | here {claimed : List Uuid} {e : Element} {rest : List Element} {err : Error} :
      c.found e = .error err → Fails c claimed (e :: rest) err
  | inside {claimed : List Uuid} {e : Element} {rest es : List Element} {err : Error} :
      c.found e = .ok es →
      Fails c (Element.claim claimed es).2 (e.childList ++ (Element.claim claimed es).1) err →
      Fails c claimed (e :: rest) err
  | later {claimed next : List Uuid} {e : Element} {rest es below : List Element} {err : Error} :
      c.found e = .ok es →
      Expands c (Element.claim claimed es).2 (e.childList ++ (Element.claim claimed es).1)
        below next →
      Fails c next rest err →
      Fails c claimed (e :: rest) err

variable {c : ScopeRun} {claimed last : List Uuid} {es result : List Element}

namespace Expands

/-- Expanded trees keep the own data of their roots. -/
theorem map_bare (h : c.Expands claimed es result last) :
    result.map Element.bare = es.map Element.bare := by
  induction h with
  | nil => rfl
  | cons _ _ _ _ others =>
    rw [List.map_cons, List.map_cons, others]
    rfl

/-- The expansion changes nothing but what is below. -/
theorem bare_eq {e t : Element} (h : c.Expands claimed [e] [t] last) : t.bare = e.bare :=
  (List.cons.inj h.map_bare).1

theorem eq_nil_iff (h : c.Expands claimed es result last) : result = [] ↔ es = [] := by
  rw [← List.map_eq_nil_iff (f := Element.bare), h.map_bare, List.map_eq_nil_iff]

/-- What was expanded below an element is what is listed there afterwards. -/
theorem childList_withBelow {e : Element} {found below : List Element}
    (h : c.Expands claimed (e.childList ++ found) below last) :
    (e.withBelow found below).childList = below := by
  change ((e.addChildren found).children.map fun _ => below).getD [] = below
  rcases hchildren : (e.addChildren found).children with _ | children
  · have hnil : e.childList ++ found = [] := by
      rw [← Element.childList_addChildren, Element.childList, hchildren]
      rfl
    exact (h.eq_nil_iff.mpr hnil).symm
  · rfl

end Expands

/-! ## Ids -/

namespace Expands

/-- Ids of expanded trees are those of the trees and those that joined. -/
theorem ids_perm (h : c.Expands claimed es result last) :
    (claimed ++ Element.idsIn result).Perm (last ++ Element.idsIn es) := by
  induction h with
  | nil => exact .refl _
  | @cons claimed next last e rest es below others _ hbelow _ ihbelow ihothers =>
    rw [Element.claimed_eq] at ihbelow
    rw [Element.idsIn_cons, Element.idsIn_cons, hbelow.childList_withBelow]
    change (claimed ++ e.id :: (Element.idsIn below ++ Element.idsIn others)).Perm _
    rw [List.perm_iff_count] at ihbelow ihothers ⊢
    intro u
    have hone := ihbelow u
    have hother := ihothers u
    simp only [List.count_append, List.count_cons, Element.idsIn_append] at hone hother ⊢
    omega

/-- No instance is claimed twice. -/
theorem nodup_last (h : c.Expands claimed es result last) (hnodup : claimed.Nodup) :
    last.Nodup := by
  induction h with
  | nil => exact hnodup
  | cons _ _ _ below others => exact others (below (Element.nodup_claimed hnodup _))

/-- What was claimed stays claimed. -/
theorem mem_last (h : c.Expands claimed es result last) {u : Uuid} (hu : u ∈ claimed) :
    u ∈ last := by
  induction h with
  | nil => exact hu
  | cons _ _ _ below others => exact others (below (Element.mem_claimed_of_mem hu _))

end Expands

/-- The ids of the trees have joined, each of them once. -/
structure Joined (claimed : List Uuid) (es : List Element) : Prop where
  nodup : claimed.Nodup
  ids : (Element.idsIn es).Subperm claimed

namespace Joined

variable {e : Element} {rest : List Element}

theorem nodup_ids (h : Joined claimed es) : (Element.idsIn es).Nodup := by
  rcases h.ids with ⟨ids, hperm, hsub⟩
  exact hperm.nodup_iff.mp (hsub.nodup h.nodup)

/-- What is claimed of other trees joins below an element. -/
theorem below (h : Joined claimed (e :: rest)) (es : List Element) :
    Joined (Element.claim claimed es).2 (e.childList ++ (Element.claim claimed es).1) where
  nodup := Element.nodup_claimed h.nodup es
  ids := by
    rw [Element.claimed_eq, Element.idsIn_append]
    refine List.Subperm.append (List.Subperm.trans ?_ h.ids) (.refl _)
    rw [Element.idsIn_cons]
    exact ((List.sublist_append_left _ _).cons _).subperm

/-- After the first element and all below it, the rest is still joined. -/
theorem after (h : Joined claimed (e :: rest)) (hnodup : last.Nodup)
    (hlast : ∀ u ∈ claimed, u ∈ last) : Joined last rest where
  nodup := hnodup
  ids := by
    have hids := h.nodup_ids
    rw [Element.idsIn_cons, List.nodup_cons, List.nodup_append] at hids
    refine hids.2.2.1.subperm fun u hu => hlast u (h.ids.subset ?_)
    rw [Element.idsIn_cons]
    exact .tail _ (List.mem_append_right _ hu)

/-- The ids of trees that are claimed are claimed once. -/
theorem of_claim (hnodup : claimed.Nodup) (es : List Element) :
    Joined (Element.claim claimed es).2 (Element.claim claimed es).1 where
  nodup := Element.nodup_claimed hnodup es
  ids := by
    rw [Element.claimed_eq]
    exact (List.sublist_append_right _ _).subperm

/-- No instance is twice in an expanded forest. -/
theorem nodup_result (h : Joined claimed es) (hexpands : c.Expands claimed es result last) :
    (Element.idsIn result).Nodup := by
  rw [List.nodup_iff_count_le_one]
  intro u
  have hcount := List.perm_iff_count.mp hexpands.ids_perm u
  have hlast := List.nodup_iff_count_le_one.mp (hexpands.nodup_last h.nodup) u
  have hids := h.ids.count_le u
  rw [List.count_append, List.count_append] at hcount
  omega

end Joined

theorem Expands.tidy (h : c.Expands claimed es result last) (htidy : Element.Tidy es) :
    Element.Tidy result := by
  induction h with
  | nil => exact htidy
  | @cons claimed next last e rest es below others _ hbelow _ ihbelow ihothers =>
    have hkept := Element.tidy_claim claimed es
    have hchildren : Element.Tidy (e.childList ++ (Element.claim claimed es).1) := by
      intro x hx
      rw [Element.subtrees_append, List.mem_append] at hx
      rcases hx with hx | hx
      · exact htidy x (by simp [hx])
      · exact hkept x hx
    intro x hx
    rw [Element.subtrees_cons, hbelow.childList_withBelow, List.mem_cons, List.mem_append] at hx
    rcases hx with rfl | hx | hx
    · intro hempty
      -- an empty list of children was there before
      rcases Option.map_eq_some_iff.mp hempty with ⟨children, hsome, hnil⟩
      have hlist : e.childList ++ (Element.claim claimed es).1 = [] := hbelow.eq_nil_iff.mp hnil
      rcases List.append_eq_nil_iff.mp hlist with ⟨hnone, hkept⟩
      rw [Element.addChildren, hkept, List.isEmpty_nil, if_pos rfl] at hsome
      refine htidy e (by simp) ?_
      rw [hsome]
      rw [Element.childList, hsome] at hnone
      exact congrArg some hnone
    · exact ihbelow hchildren x hx
    · exact ihothers (fun x hx => htidy x (by simp [hx])) x hx

/-- What holds of the own data of trees, and of all that is found for an element of which it holds,
holds of the expanded trees. -/
theorem Expands.forall_mem {P : Element → Prop} (hown : Element.OfOwnData P)
    (hfound : ∀ e es, P e → c.found e = .ok es → ∀ x ∈ Element.subtrees es, P x)
    (h : c.Expands claimed es result last) (hes : ∀ x ∈ Element.subtrees es, P x) :
    ∀ x ∈ Element.subtrees result, P x := by
  induction h with
  | nil => exact hes
  | @cons claimed next last e rest es below others he hbelow _ ihbelow ihothers =>
    have hhead : P e := hes e (by simp)
    intro x hx
    rw [Element.subtrees_cons, hbelow.childList_withBelow, List.mem_cons, List.mem_append] at hx
    rcases hx with rfl | hx | hx
    · exact hown e _ rfl hhead
    · refine ihbelow (fun y hy => ?_) x hx
      rw [Element.subtrees_append, List.mem_append] at hy
      rcases hy with hy | hy
      · exact hes y (by simp [hy])
      · exact Element.forall_mem_claim hown (hfound e es hhead he) y hy
    · exact ihothers (fun y hy => hes y (by simp [hy])) x hx

/-! ## Progress -/

/-- Ids of stored documents that have not joined, or that stand in the trees still to expand. -/
def unspent (c : ScopeRun) (claimed : List Uuid) (es : List Element) : Finset Uuid :=
  ((c.store.data c.stage).documents.map Document.id).toFinset.filter fun u =>
    u ∈ Element.idsIn es ∨ u ∉ claimed

theorem mem_stored {data : StageData} {u : Uuid} {doc : Document} (h : data.get? u = some doc) :
    u ∈ data.documents.map Document.id := by
  have hmem := List.mem_of_find?_eq_some h
  exact List.mem_map.mpr ⟨doc, List.mem_reverse.mp hmem, StageData.id_of_get? h⟩

/-- Each claimed or listed instance spends one of the stored documents. -/
theorem card_unspent_le (claimed : List Uuid) (es : List Element) :
    (c.unspent claimed es).card ≤ (c.store.data c.stage).documents.length := by
  calc (c.unspent claimed es).card
      ≤ ((c.store.data c.stage).documents.map Document.id).toFinset.card :=
        Finset.card_filter_le _ _
    _ ≤ ((c.store.data c.stage).documents.map Document.id).length := List.toFinset_card_le _
    _ = (c.store.data c.stage).documents.length := List.length_map _

theorem unspent_subset {claimed' : List Uuid} {es' : List Element}
    (h : ∀ u, u ∈ Element.idsIn es' ∨ u ∉ claimed' → u ∈ Element.idsIn es ∨ u ∉ claimed) :
    c.unspent claimed' es' ⊆ c.unspent claimed es := by
  intro u hu
  rw [unspent, Finset.mem_filter] at hu ⊢
  exact ⟨hu.1, h u hu.2⟩

variable {e : Element} {rest : List Element}

/-- Below an element there is no more to pass than there was before. -/
theorem unspent_below_subset (h : Joined claimed (e :: rest)) (es : List Element) :
    c.unspent (Element.claim claimed es).2 (e.childList ++ (Element.claim claimed es).1) ⊆
      c.unspent claimed (e :: rest) := by
  apply unspent_subset
  intro u hu
  rw [Element.idsIn_append, List.mem_append, Element.claimed_eq, List.mem_append] at hu
  rw [Element.idsIn_cons, List.mem_cons, List.mem_append]
  rcases hu with (hu | hu) | hu
  · exact .inl (.inr (.inl hu))
  · exact .inr (Element.not_mem_of_mem_kept h.nodup hu)
  · exact .inr fun hclaimed => hu (.inl hclaimed)

/-- Below a stored document there is less to pass, as it has been passed itself. -/
theorem card_unspent_below_lt (h : Joined claimed (e :: rest)) {doc : Document}
    (hdoc : (c.store.data c.stage).get? e.id = some doc) (es : List Element) :
    (c.unspent (Element.claim claimed es).2 (e.childList ++ (Element.claim claimed es).1)).card <
      (c.unspent claimed (e :: rest)).card := by
  have hclaimed : e.id ∈ claimed := h.ids.subset (by simp)
  have hids := h.nodup_ids
  rw [Element.idsIn_cons, List.nodup_cons, List.mem_append, not_or] at hids
  refine Finset.card_lt_card ((Finset.ssubset_iff_of_subset (unspent_below_subset h es)).mpr
    ⟨e.id, ?_, ?_⟩)
  · rw [unspent, Finset.mem_filter, List.mem_toFinset]
    exact ⟨mem_stored hdoc, .inl (by simp)⟩
  · rw [unspent, Finset.mem_filter, Element.idsIn_append, List.mem_append]
    rintro ⟨-, (hbelow | hkept) | hnot⟩
    · exact hids.1.1 hbelow
    · exact Element.not_mem_of_mem_kept h.nodup hkept hclaimed
    · exact hnot (Element.mem_claimed_of_mem hclaimed es)

/-- Fewer instances are unspent after the first element. -/
theorem unspent_after_subset (e : Element) (rest : List Element)
    (hlast : ∀ u ∈ claimed, u ∈ last) :
    c.unspent last rest ⊆ c.unspent claimed (e :: rest) := by
  apply unspent_subset
  rintro u (hu | hu)
  · exact .inl (by simp [hu])
  · exact .inr fun hclaimed => hu (hlast u hclaimed)

/-! ## Runs -/

/-- The result of a run on trees is that of their expansion. -/
def Follows (c : ScopeRun) (claimed : List Uuid) (es : List Element)
    (run : Except Error (List Element) × Progress) : Prop :=
  (∃ result last n, c.Expands claimed es result last ∧ run = (.ok result, ⟨last, n⟩)) ∨
    ∃ err p, c.Fails claimed es err ∧ run = (.error err, p)

theorem run_claim (es : List Element) (p : Progress) : (claim es).run p =
    (.ok (Element.claim p.claimed es).1,
      { p with claimed := (Element.claim p.claimed es).2 }) := rfl

variable {deeper : List Element → Walk (List Element)}

/-- Where the queries of an element answer, its children are expanded with what is new. -/
theorem run_expandTree (deeper : List Element → Walk (List Element)) (hfound : c.found e = .ok es)
    (p : Progress) : ∃ n,
    (c.expandTree deeper e).run p =
      match ((if (Element.claim p.claimed es).1 = [] then c.expandTrees deeper e.childList
        else deeper (e.childList ++ (Element.claim p.claimed es).1)).run
          ⟨(Element.claim p.claimed es).2, n⟩) with
      | (.ok below, q) => (.ok (e.withBelow (Element.claim p.claimed es).1 below), q)
      | (.error err, q) => (.error err, q) := by
  rcases e with ⟨id, types, label, children, reference, space⟩
  rcases c.reads_discovered ⟨id, types, label, children, reference, space⟩ p with ⟨n, hreads⟩
  refine ⟨n, ?_⟩
  rw [expandTree, run_bind, hreads, hfound]
  dsimp only
  rw [run_bind, run_claim]
  dsimp only
  cases hkept : (Element.claim p.claimed es).1 with
  | nil =>
    rw [if_pos rfl]
    dsimp only
    rw [run_bind]
    cases children with
    | none => rfl
    | some children =>
      rw [expandChildren, run_bind]
      dsimp only [Element.childList, Option.getD_some]
      cases (c.expandTrees deeper children).run ⟨(Element.claim p.claimed es).2, n⟩ with
      | mk result q => cases result <;> rfl
  | cons kept rest =>
    rw [if_neg (List.cons_ne_nil _ _)]
    dsimp only
    rw [run_bind]
    rcases (deeper (Element.childList ⟨id, types, label, children, reference, space⟩ ++
      kept :: rest)).run ⟨(Element.claim p.claimed es).2, n⟩ with ⟨_ | below, q⟩ <;> rfl

/-- If whatever is left to `deeper` follows its expansion, then so do all trees. -/
theorem follows_expandTrees {bound : Nat}
    (hdeeper : ∀ ds p, Joined p.claimed ds → (c.unspent p.claimed ds).card < bound →
      c.Follows p.claimed ds ((deeper ds).run p))
    (es : List Element) (p : Progress) (hjoined : Joined p.claimed es)
    (hbound : (c.unspent p.claimed es).card ≤ bound) :
    c.Follows p.claimed es ((c.expandTrees deeper es).run p) := by
  induction es using Element.forest_induction generalizing p with
  | nil => exact .inl ⟨[], p.claimed, p.events, .nil, rfl⟩
  | cons e rest below others =>
    rw [expandTrees, run_bind]
    cases hfound : c.found e with
    | error err =>
      rcases e with ⟨id, types, label, children, reference, space⟩
      rcases c.reads_discovered ⟨id, types, label, children, reference, space⟩ p with ⟨n, hreads⟩
      rw [expandTree, run_bind, hreads, hfound]
      exact .inr ⟨err, _, .here hfound, rfl⟩
    | ok es =>
      rcases run_expandTree deeper hfound p with ⟨n, hrun⟩
      rw [hrun]
      -- what has joined by then, and the trees that are expanded below the element
      have hinside : c.Follows (Element.claim p.claimed es).2
          (e.childList ++ (Element.claim p.claimed es).1)
          ((if (Element.claim p.claimed es).1 = [] then c.expandTrees deeper e.childList
            else deeper (e.childList ++ (Element.claim p.claimed es).1)).run
              ⟨(Element.claim p.claimed es).2, n⟩) := by
        have hbelow := hjoined.below es
        have hless := Finset.card_le_card (unspent_below_subset (c := c) hjoined es)
        by_cases hkept : (Element.claim p.claimed es).1 = []
        · rw [if_pos hkept]
          rw [hkept, List.append_nil] at hbelow hless ⊢
          exact below ⟨_, n⟩ hbelow (Nat.le_trans hless hbound)
        · rw [if_neg hkept]
          refine hdeeper _ ⟨_, n⟩ hbelow ?_
          cases hdoc : (c.store.data c.stage).get? e.id with
          | none =>
            -- nothing is found for what is not stored
            rw [found_of_absent hdoc hfound] at hkept
            exact absurd rfl hkept
          | some doc =>
            exact Nat.lt_of_lt_of_le (card_unspent_below_lt hjoined hdoc es) hbound
      rcases hinside with ⟨result, next, m, hexpands, hrun⟩ | ⟨err, q, hfails, hrun⟩
      · rw [hrun]
        dsimp only
        rw [run_bind]
        have hlast (u : Uuid) (hu : u ∈ p.claimed) : u ∈ next :=
          hexpands.mem_last (Element.mem_claimed_of_mem hu es)
        have hafter : Joined next rest :=
          hjoined.after (hexpands.nodup_last (hjoined.below es).nodup) hlast
        have hless := Finset.card_le_card (unspent_after_subset (c := c) e rest hlast)
        rcases others ⟨next, m⟩ hafter (Nat.le_trans hless hbound) with
          ⟨results, last, k, hothers, hrun⟩ | ⟨err, q, hfails, hrun⟩
        · rw [hrun]
          exact .inl ⟨_, last, k, .cons hfound hexpands hothers, rfl⟩
        · rw [hrun]
          exact .inr ⟨err, q, .later hfound hexpands hfails, rfl⟩
      · rw [hrun]
        exact .inr ⟨err, q, .inside hfound hfails, rfl⟩

/-- The bound of an expansion is not reached, if it is no less than what there is to pass. -/
theorem follows_expand (stored : Nat) (es : List Element) (p : Progress)
    (hjoined : Joined p.claimed es) (hstored : (c.unspent p.claimed es).card ≤ stored) :
    c.Follows p.claimed es ((c.expand stored es).run p) := by
  induction stored generalizing es p with
  | zero =>
    rw [expand]
    exact follows_expandTrees (fun _ _ _ h => absurd h (Nat.not_lt_zero _)) es p hjoined hstored
  | succ stored ih =>
    rw [expand]
    exact follows_expandTrees (fun ds q hds h => ih ds q hds (Nat.le_of_lt_succ h)) es p hjoined
      hstored

end ScopeRun

end GraphQuery
