import GraphQuery.Proofs.Claiming

/-!
# GraphQuery.Proofs.Joining — by which findings ids join

An id may be found for several elements of a tree, and at several places for one of them. A finding
is one of these places.

1. **Findings** in the trees that queries give, in pre-order.
2. **Joining**: of each id, the first finding in a list by which it can join. A finding is open if
   what stands right above it has joined there, and an id joins by an open finding only.
3. **Order**: a list in which findings stand behind those of the ids above them. There, what is open
   is in the end among what has joined, and what is not open stands below an open finding by which
   nothing joined, because its id had joined before.
4. **Claiming** ids in trees is joining by what is found in them.
-/

namespace GraphQuery

open Element

/-! ## Findings -/

/-- A finding: the element for which queries ran, the ids that stand above, the topmost first, and
the id that was found. -/
structure Finding where
  element : Uuid
  above : List Uuid
  id : Uuid
deriving Repr, DecidableEq

namespace Finding

variable {root : Uuid} {joined fs gs : List Finding} {f g : Finding}

/-- The ids down to the one that was found. -/
def path (f : Finding) : List Uuid := f.above ++ [f.id]

/-- A finding is settled by its element and its path. -/
theorem eq_of_path (helement : f.element = g.element) (hpath : f.path = g.path) : f = g := by
  rcases f with ⟨element, above, id⟩
  rcases g with ⟨element', above', id'⟩
  cases helement
  rcases List.append_inj' hpath rfl with ⟨rfl, hid⟩
  cases hid
  rfl

/-- What stands in trees, as findings for an element below some ids. -/
def inTrees (element : Uuid) (above : List Uuid) (es : List Element) : List Finding :=
  (places es).map fun (path, u) => ⟨element, above ++ path, u⟩

/-- A tree is found before what stands below it, and then come the other trees. -/
theorem inTrees_cons (element : Uuid) (above : List Uuid) (e : Element) (rest : List Element) :
    inTrees element above (e :: rest) =
      ⟨element, above, e.id⟩ ::
        (inTrees element (above ++ [e.id]) e.childList ++ inTrees element above rest) := by
  simp [inTrees, places, placesBelow_eq, Function.comp_def]

theorem mem_inTrees_top {element : Uuid} {es : List Element} :
    f ∈ inTrees element [] es ↔ f.element = element ∧ Place es f.above f.id := by
  rcases f with ⟨element', above, u⟩
  rw [inTrees, List.mem_map]
  constructor
  · rintro ⟨⟨path, v⟩, hplace, heq⟩
    cases heq
    exact ⟨rfl, mem_places.mp hplace⟩
  · rintro ⟨rfl, hplace⟩
    exact ⟨(above, u), mem_places.mpr hplace, rfl⟩

/-- What is found below some ids has them on its path. -/
theorem of_mem_inTrees {element : Uuid} {above : List Uuid} {es : List Element}
    (h : f ∈ inTrees element above es) : f.element = element ∧ above <+: f.above := by
  rcases List.mem_map.mp h with ⟨⟨path, u⟩, -, rfl⟩
  exact ⟨rfl, path, rfl⟩

/-! ## Joining -/

/-- `f.Open joined`: nothing stands above the finding, or what stands right above it has joined by
the finding that is there. -/
def Open (joined : List Finding) (f : Finding) : Prop :=
  f.above = [] ∨ ∃ p ∈ joined, p.element = f.element ∧ p.path = f.above

instance (joined : List Finding) (f : Finding) : Decidable (f.Open joined) :=
  inferInstanceAs (Decidable (_ ∨ ∃ p ∈ joined, _))

theorem Open.mono (hsub : ∀ p ∈ joined, p ∈ fs) (h : f.Open joined) : f.Open fs := by
  rcases h with h | ⟨p, hp, h⟩
  · exact .inl h
  · exact .inr ⟨p, hsub p hp, h⟩

/-- One more finding, after those by which ids have joined: its id joins by it, if it is new and the
finding is open. -/
def join (root : Uuid) (joined : List Finding) (f : Finding) : List Finding :=
  if f.id ∉ root :: joined.map Finding.id ∧ f.Open joined then joined ++ [f] else joined

/-- Of all findings in their order, those by which ids join the tree of a root. -/
def joinAll (root : Uuid) (fs : List Finding) : List Finding := fs.foldl (join root) []

/-- What joins by more findings follows what had joined before. -/
theorem joinAll_append (root : Uuid) (fs gs : List Finding) :
    joinAll root (fs ++ gs) = gs.foldl (join root) (joinAll root fs) := List.foldl_append

theorem joinAll_concat (root : Uuid) (fs : List Finding) (f : Finding) :
    joinAll root (fs ++ [f]) = join root (joinAll root fs) f := joinAll_append root fs [f]

theorem mem_join (h : g ∈ joined) : g ∈ join root joined f := by
  unfold join
  split
  · exact List.mem_append_left _ h
  · exact h

/-- What joins last is the last finding, which is open and has a new id. -/
theorem mem_join_cases (h : g ∈ join root joined f) : g ∈ joined ∨
    (g = f ∧ f.id ∉ root :: joined.map Finding.id ∧ f.Open joined) := by
  unfold join at h
  split at h
  · rename_i hnew
    rcases List.mem_append.mp h with h | h
    · exact .inl h
    · exact .inr ⟨List.mem_singleton.mp h, hnew⟩
  · exact .inl h

/-- After a list of findings, what had joined before is there, and findings of the list. -/
theorem mem_foldl_join (h : g ∈ joined) : g ∈ fs.foldl (join root) joined := by
  induction fs generalizing joined with
  | nil => exact h
  | cons f rest ih => exact ih (mem_join h)

theorem mem_foldl_join_cases (h : g ∈ fs.foldl (join root) joined) : g ∈ joined ∨ g ∈ fs := by
  induction fs generalizing joined with
  | nil => exact .inl h
  | cons f rest ih =>
    rcases ih h with h | h
    · rcases mem_join_cases h with h | ⟨rfl, -⟩
      · exact .inl h
      · exact .inr (.head _)
    · exact .inr (.tail _ h)

/-- Ids join by findings that are open, and not the id of the root. -/
theorem of_mem_joinAll (h : f ∈ joinAll root fs) :
    f ∈ fs ∧ f.Open (joinAll root fs) ∧ f.id ≠ root := by
  induction fs using List.reverseRecOn with
  | nil => cases h
  | append_singleton fs last ih =>
    rw [joinAll_concat] at h ⊢
    rcases mem_join_cases h with h | ⟨rfl, hnew, hopen⟩
    · rcases ih h with ⟨hmem, hopen, hroot⟩
      exact ⟨List.mem_append_left _ hmem, hopen.mono fun _ => mem_join, hroot⟩
    · exact ⟨List.mem_append_right _ (.head _), hopen.mono fun _ => mem_join,
        fun heq => hnew (heq ▸ .head _)⟩

/-- Every id joins once. -/
theorem nodup_joinAll (root : Uuid) (fs : List Finding) :
    (root :: (joinAll root fs).map Finding.id).Nodup := by
  induction fs using List.reverseRecOn with
  | nil => exact List.nodup_singleton root
  | append_singleton fs last ih =>
    rw [joinAll_concat, join]
    split
    · rename_i hnew
      rw [List.map_append, ← List.cons_append]
      exact List.nodup_append'.mpr ⟨ih, List.nodup_singleton _, by simpa using hnew.1⟩
    · exact ih

/-! ## Order -/

/-- Every finding of a list is there once, behind the one that stands right above it. -/
inductive Orderly : List Finding → Prop
  | nil : Orderly []
  | concat {fs : List Finding} {f : Finding} : Orderly fs → f ∉ fs → f.Open fs → Orderly (fs ++ [f])

namespace Orderly

/-- What stands right above a finding of the list is there, too. -/
theorem open_of_mem (h : Orderly fs) (hf : f ∈ fs) : f.Open fs := by
  induction h with
  | nil => cases hf
  | concat _ _ hopen ih =>
    rcases List.mem_append.mp hf with hf | hf
    · exact (ih hf).mono fun _ => List.mem_append_left _
    · rw [List.mem_singleton.mp hf]
      exact hopen.mono fun _ => List.mem_append_left _

/-- A finding that is open in the end was so when its turn came. -/
theorem open_of_concat (h : Orderly fs) (hg : g ∉ fs) (hf : f ∈ fs)
    (hopen : f.Open (join root joined g)) : f.Open joined := by
  rcases hopen with hnil | ⟨p, hp, helement, hpath⟩
  · exact .inl hnil
  · rcases mem_join_cases hp with hp | ⟨rfl, -⟩
    · exact .inr ⟨p, hp, helement, hpath⟩
    · -- the finding right above was there before
      rcases h.open_of_mem hf with hnil | ⟨q, hq, hqelement, hqpath⟩
      · exact .inl hnil
      · have heq : q = p := eq_of_path (hqelement.trans helement.symm) (hqpath.trans hpath.symm)
        exact absurd (heq ▸ hq) hg

/-- The id of an open finding is that of the root, or joined by this finding or an earlier one. -/
theorem joined_of_open (h : Orderly fs) (hf : f ∈ fs) (hopen : f.Open (joinAll root fs)) :
    f.id = root ∨ ∃ q ∈ joinAll root fs, q.id = f.id ∧ (f = q ∨ [q, f].Sublist fs) := by
  induction h with
  | nil => cases hf
  | @concat fs last horderly hnew hlast ih =>
    rw [joinAll_concat] at hopen ⊢
    rcases List.mem_append.mp hf with hf | hf
    · rcases ih hf (horderly.open_of_concat hnew hf hopen) with hroot | ⟨q, hq, hid, hfirst⟩
      · exact .inl hroot
      · exact .inr ⟨q, mem_join hq, hid,
          hfirst.imp_right fun hsub => hsub.trans (List.sublist_append_left _ _)⟩
    · obtain rfl := List.mem_singleton.mp hf
      by_cases hid : f.id ∈ root :: (joinAll root fs).map Finding.id
      · rcases List.mem_cons.mp hid with hid | hid
        · exact .inl hid
        · rcases List.mem_map.mp hid with ⟨q, hq, hid⟩
          refine .inr ⟨q, mem_join hq, hid, .inr ?_⟩
          have hbefore := List.singleton_sublist.mpr (of_mem_joinAll hq).1
          exact hbefore.append (.refl [f])
      · -- the id is new, so that the finding is open at its turn
        have hopen' : f.Open (joinAll root fs) := by
          rcases hopen with hnil | ⟨p, hp, helement, hpath⟩
          · exact .inl hnil
          · rcases mem_join_cases hp with hp | ⟨rfl, -⟩
            · exact .inr ⟨p, hp, helement, hpath⟩
            · exact absurd (congrArg List.length hpath) (by simp [path])
        refine .inr ⟨f, ?_, rfl, .inl rfl⟩
        rw [join, if_pos ⟨hid, hopen'⟩]
        exact List.mem_append_right _ (.head _)

/-- A finding that is not open stands below an open one by which nothing joined. -/
theorem exists_repeated (h : Orderly fs) (hf : f ∈ fs) (hshut : ¬ f.Open joined) :
    ∃ p ∈ fs, p.element = f.element ∧ p.path <+: f.above ∧ p.Open joined ∧ p ∉ joined := by
  -- the finding right above is the one, or there is one above that
  induction hlength : f.above.length using Nat.strongRecOn generalizing f with
  | _ n ih =>
    rcases h.open_of_mem hf with hnil | ⟨p, hp, helement, hpath⟩
    · exact absurd (.inl hnil) hshut
    · have hnot : p ∉ joined := fun hp => hshut (.inr ⟨p, hp, helement, hpath⟩)
      by_cases hopen : p.Open joined
      · exact ⟨p, hp, helement, hpath ▸ List.prefix_refl _, hopen, hnot⟩
      · have hshorter : p.above.length < n := by
          rw [← hlength, ← hpath, path, List.length_append]
          exact Nat.lt_succ_self _
        rcases ih _ hshorter hp hopen rfl with ⟨q, hq, hqelement, hprefix, hqopen, hqnot⟩
        refine ⟨q, hq, hqelement.trans helement, hprefix.trans ?_, hqopen, hqnot⟩
        rw [← hpath]
        exact List.prefix_append _ _

/-- The ids that have joined in the end are those with an open finding. -/
theorem joined_iff_open (h : Orderly fs) {u : Uuid} :
    (u = root ∨ ∃ q ∈ joinAll root fs, q.id = u) ↔
      u = root ∨ ∃ f ∈ fs, f.id = u ∧ f.Open (joinAll root fs) := by
  refine ⟨Or.imp_right ?_, ?_⟩
  · rintro ⟨q, hq, hid⟩
    rcases of_mem_joinAll hq with ⟨hmem, hopen, -⟩
    exact ⟨q, hmem, hid, hopen⟩
  · rintro (hroot | ⟨f, hf, rfl, hopen⟩)
    · exact .inl hroot
    · rcases h.joined_of_open hf hopen with hroot | ⟨q, hq, hid, -⟩
      · exact .inl hroot
      · exact .inr ⟨q, hq, hid⟩

/-- Of the open findings of an id, the first is the one by which it joined. -/
theorem first_of_joined (h : Orderly fs) (hg : g ∈ joinAll root fs) (hf : f ∈ fs)
    (hid : f.id = g.id) (hopen : f.Open (joinAll root fs)) : f = g ∨ [g, f].Sublist fs := by
  rcases h.joined_of_open hf hopen with hroot | ⟨q, hq, hqid, hfirst⟩
  · exact absurd (hid.symm.trans hroot) (of_mem_joinAll hg).2.2
  · -- an id joins once
    have hnodup := (List.nodup_cons.mp (nodup_joinAll root fs)).2
    obtain rfl := List.inj_on_of_nodup_map hnodup hq hg (hqid.trans hid)
    exact hfirst

/-- A finding that is not open in the end stands below an open one whose id had joined before. -/
theorem exists_joined_before (h : Orderly fs) (hf : f ∈ fs) (hshut : ¬ f.Open (joinAll root fs)) :
    ∃ p ∈ fs, p.element = f.element ∧ p.path <+: f.above ∧ p.Open (joinAll root fs) ∧
      (p.id = root ∨ ∃ q ∈ joinAll root fs, q.id = p.id ∧ [q, p].Sublist fs) := by
  rcases h.exists_repeated hf hshut with ⟨p, hp, helement, hprefix, hopen, hnot⟩
  refine ⟨p, hp, helement, hprefix, hopen, ?_⟩
  rcases h.joined_of_open hp hopen with hroot | ⟨q, hq, hid, rfl | hsub⟩
  · exact .inl hroot
  · exact absurd hq hnot
  · exact .inr ⟨q, hq, hid, hsub⟩

end Orderly

/-- No finding of the list is for the element and has the ids on its path. -/
def Untouched (fs : List Finding) (element : Uuid) (ids : List Uuid) : Prop :=
  ∀ f ∈ fs, f.element = element → ¬ ids <+: f.path

section Trees

variable {element : Uuid} {above : List Uuid} {es : List Element}

/-- What can be below some ids is settled by what may stand right below them. -/
theorem Untouched.of_append {u : Uuid} (h : Untouched fs element (above ++ [u])) (v : Uuid) :
    Untouched fs element (above ++ [u] ++ [v]) := fun f hf helement hprefix =>
  h f hf helement ((List.prefix_append _ _).trans hprefix)

/-- A tree touches nothing beside it. -/
theorem untouched_beside {e d : Element} (hne : d.id ≠ e.id)
    (h : Untouched fs element (above ++ [d.id])) :
    Untouched (fs ++ ⟨element, above, e.id⟩ :: inTrees element (above ++ [e.id]) e.childList)
      element (above ++ [d.id]) := by
  intro f hf helement hprefix
  rcases List.mem_append.mp hf with hf | hf
  · exact h f hf helement hprefix
  · -- all paths of the tree begin with its own id
    have htree : above ++ [e.id] <+: f.path := by
      rcases List.mem_cons.mp hf with rfl | hf
      · exact List.prefix_refl _
      · exact (of_mem_inTrees hf).2.trans (List.prefix_append _ _)
    have hsame := List.prefix_of_prefix_length_le hprefix htree (by simp)
    have heq := hsame.eq_of_length (by simp)
    exact hne (List.singleton_inj.mp (List.append_cancel_left heq))

/-- A tree touches its own children only below itself. -/
theorem untouched_below {e : Element} (h : Untouched fs element (above ++ [e.id])) (v : Uuid) :
    Untouched (fs ++ [⟨element, above, e.id⟩]) element (above ++ [e.id] ++ [v]) := by
  intro f hf helement hprefix
  rcases List.mem_append.mp hf with hf | hf
  · exact h.of_append v f hf helement hprefix
  · rw [List.mem_singleton.mp hf] at hprefix
    exact absurd hprefix.length_le (by simp [path])

/-- The findings in trees may follow others, if what stands above them is there. -/
theorem Orderly.append_inTrees (h : Orderly fs)
    (hopen : ∀ u, Open fs ⟨element, above, u⟩) (hlevel : Level es)
    (hnew : ∀ e ∈ es, Untouched fs element (above ++ [e.id])) :
    Orderly (fs ++ inTrees element above es) := by
  induction es using forest_induction generalizing fs above with
  | nil => simpa [inTrees, places] using h
  | cons e rest below others =>
    rcases hlevel with _ | ⟨hfirst, hbelow, hrest⟩
    have huntouched := hnew e (.head _)
    have hhead : Orderly (fs ++ [⟨element, above, e.id⟩]) :=
      h.concat (fun hmem => huntouched _ hmem rfl (List.prefix_refl _)) (hopen e.id)
    have htree := below hhead (fun u => .inr ⟨_, List.mem_append_right _ (.head _), rfl, rfl⟩) hbelow
      fun x _ => untouched_below huntouched x.id
    rw [List.append_assoc, List.singleton_append] at htree
    have hall := others htree (fun u => (hopen u).mono fun _ => List.mem_append_left _) hrest
      fun d hd => untouched_beside (hfirst d hd) (hnew d (.tail _ hd))
    rw [inTrees_cons]
    simpa using hall

/-! ## Claiming -/

/-- Below ids by which nothing joined, nothing joins. -/
theorem foldl_join_of_untouched (h : Untouched joined element above) (hne : above ≠ []) :
    (inTrees element above es).foldl (join root) joined = joined := by
  induction es using forest_induction generalizing above with
  | nil => rfl
  | cons e rest below others =>
    have hshut : ¬ Open joined ⟨element, above, e.id⟩ := by
      rintro (hnil | ⟨p, hp, helement, hpath⟩)
      · exact hne hnil
      · exact h p hp helement (hpath ▸ List.prefix_refl _)
    rw [inTrees_cons, List.foldl_cons, join, if_neg fun hnew => hshut hnew.2, List.foldl_append,
      below ?_ (by simp), others h hne]
    exact fun p hp helement hprefix =>
      h p hp helement ((List.prefix_append _ _).trans hprefix)

/-- Claiming ids in trees is joining by what is found in them, if what stands above has joined. -/
theorem map_id_foldl_join (hopen : ∀ u, Open joined ⟨element, above, u⟩) (hlevel : Level es)
    (hnew : ∀ e ∈ es, Untouched joined element (above ++ [e.id])) :
    root :: ((inTrees element above es).foldl (join root) joined).map Finding.id =
      (claim (root :: joined.map Finding.id) es).2 := by
  induction es using forest_induction generalizing joined above with
  | nil => rfl
  | cons e rest below others =>
    rcases hlevel with _ | ⟨hfirst, hbelow, hrest⟩
    have huntouched := hnew e (.head _)
    rw [inTrees_cons, List.foldl_cons, List.foldl_append]
    by_cases hid : e.id ∈ root :: joined.map Finding.id
    · -- the tree is dropped, with all below it
      rw [claim_cons_of_mem hid, join, if_neg fun hjoins => hjoins.1 hid,
        foldl_join_of_untouched huntouched (by simp)]
      exact others hopen hrest fun d hd => hnew d (.tail _ hd)
    · rw [claim_cons_of_not_mem hid, join, if_pos ⟨hid, hopen e.id⟩]
      have hopenBelow (u : Uuid) :
          Open (joined ++ [⟨element, above, e.id⟩]) ⟨element, above ++ [e.id], u⟩ :=
        .inr ⟨_, List.mem_append_right _ (.head _), rfl, rfl⟩
      have htree := below hopenBelow hbelow fun x _ => untouched_below huntouched x.id
      have hopenBeside (u : Uuid) :
          Open ((inTrees element (above ++ [e.id]) e.childList).foldl (join root)
            (joined ++ [⟨element, above, e.id⟩])) ⟨element, above, u⟩ :=
        (hopen u).mono fun _ hp => mem_foldl_join (List.mem_append_left _ hp)
      have hafter := others hopenBeside hrest fun d hd f hf =>
        untouched_beside (hfirst d hd) (hnew d (.tail _ hd)) f (by
          simpa [or_assoc] using mem_foldl_join_cases hf)
      rw [htree, List.map_append, ← List.cons_append] at hafter
      exact hafter

end Trees

end Finding

end GraphQuery
