import GraphQuery.Proofs.Joining
import GraphQuery.Proofs.Scopes

/-!
# GraphQuery.Proofs.Completeness — what is reported joins the scope

1. **Findings** for elements are what their queries report, in order.
2. **Expansions**: ids join by the findings for the expanded elements.
3. **Scopes**: an id is in the tree if and only if it is that of the root, or one of its findings is
   open. So nothing is lost at the place where an instance joined, nor right below it; what is lost
   stands below a place of an instance that had joined before.
4. **The study** with an instance that is reported twice, and with what is lost below it.
-/

namespace GraphQuery

open Element Finding

/-! ## Findings -/

namespace ScopeRun

variable {c : ScopeRun} {claimed last : List Uuid} {es result : List Element}

/-- Queries run alike for elements that are alike. -/
theorem found_congr {e d : Element} (h : e.Alike d) : c.found e = c.found d := by
  unfold found spaceOf
  rw [h.id, h.types, h.space]

/-- What is found for an element, nothing if its queries fail. -/
def foundTrees (c : ScopeRun) (e : Element) : List Element := (c.found e).toOption.getD []

theorem foundTrees_eq {e : Element} (h : c.found e = .ok es) : c.foundTrees e = es := by
  rw [foundTrees, h]
  rfl

theorem level_foundTrees (c : ScopeRun) (e : Element) : Level (c.foundTrees e) := by
  unfold foundTrees
  cases h : c.found e with
  | error err => exact .nil
  | ok es => exact level_found h

/-- What the queries of elements find: for one element after the other, each in pre-order. -/
def findings (c : ScopeRun) (es : List Element) : List Finding :=
  es.flatMap fun e => inTrees e.id [] (c.foundTrees e)

theorem findings_cons (c : ScopeRun) (e : Element) (rest : List Element) :
    c.findings (e :: rest) = inTrees e.id [] (c.foundTrees e) ++ c.findings rest := rfl

theorem findings_append (c : ScopeRun) (es ds : List Element) :
    c.findings (es ++ ds) = c.findings es ++ c.findings ds := List.flatMap_append

/-- Elements that are alike have the same findings. -/
theorem findings_map {f : Element → Element} (h : ∀ e ∈ es, (f e).Alike e) :
    c.findings (es.map f) = c.findings es := by
  induction es with
  | nil => rfl
  | cons e rest ih =>
    have halike := h e (.head _)
    rw [List.map_cons, findings_cons, findings_cons, ih fun d hd => h d (.tail _ hd), halike.id,
      foundTrees, found_congr halike]
    rfl

theorem element_of_mem_findings {f : Finding} (h : f ∈ c.findings es) :
    f.element ∈ es.map Element.id := by
  rcases List.mem_flatMap.mp h with ⟨e, he, hf⟩
  rw [(of_mem_inTrees hf).1]
  exact List.mem_map_of_mem he

/-- Findings for elements whose queries answer are what the queries report. -/
theorem mem_findings (hfound : ∀ e ∈ es, ∃ ds, c.found e = .ok ds) {f : Finding} :
    f ∈ c.findings es ↔ ∃ e ∈ es, e.id = f.element ∧ c.Reports e f.above f.id := by
  rw [findings, List.mem_flatMap]
  refine exists_congr fun e => and_congr_right fun he => ?_
  rcases hfound e he with ⟨ds, hds⟩
  rw [foundTrees_eq hds, mem_inTrees_top, place_found hds, eq_comm]

/-- Findings for elements with different ids are in order. -/
theorem orderly_findings (c : ScopeRun) {fs : List Finding} (h : Orderly fs)
    (hnodup : (es.map Element.id).Nodup) (hnew : ∀ f ∈ fs, f.element ∉ es.map Element.id) :
    Orderly (fs ++ c.findings es) := by
  induction es generalizing fs with
  | nil => simpa [findings] using h
  | cons e rest ih =>
    rw [List.map_cons, List.nodup_cons] at hnodup
    have hhead := h.append_inTrees (fun _ => .inl rfl) (c.level_foundTrees e) fun x _ f hf helement =>
      absurd (helement ▸ .head _) (hnew f hf)
    have hall := ih hhead hnodup.2 fun f hf => by
      rcases List.mem_append.mp hf with hf | hf
      · exact fun hmem => hnew f hf (.tail _ hmem)
      · rw [(of_mem_inTrees hf).1]
        exact hnodup.1
    rwa [List.append_assoc, ← findings_cons] at hall

/-! ## Expansions -/

/-- The queries of expanded elements have answered. -/
theorem Expands.exists_found (h : c.Expands claimed es result last) {e : Element}
    (he : e ∈ subtrees result) : ∃ ds, c.found e = .ok ds := by
  induction h with
  | nil => cases he
  | @cons claimed next last d rest es below others hfound hbelow _ ihbelow ihothers =>
    simp only [subtrees_cons, hbelow.childList_withBelow, List.mem_cons, List.mem_append] at he
    rcases he with rfl | he | he
    · exact ⟨es, (found_congr (alike_withBelow d _ _)).trans hfound⟩
    · exact ihbelow he
    · exact ihothers he

/-- What has joined after an expansion has joined by the findings for the expanded elements. -/
theorem Expands.last_eq (h : c.Expands claimed es result last) (hnodup : (idsIn result).Nodup)
    {root : Uuid} {fs : List Finding} (hclaimed : claimed = root :: (joinAll root fs).map Finding.id)
    (hnew : ∀ f ∈ fs, f.element ∉ idsIn result) :
    last = root :: (joinAll root (fs ++ c.findings (subtrees result))).map Finding.id := by
  induction h generalizing fs with
  | nil => simpa [findings] using hclaimed
  | @cons claimed next last d rest es below others hfound hbelow hrest ihbelow ihothers =>
    have hchildren := hbelow.childList_withBelow
    have halike := alike_withBelow d (Element.claim claimed es).1 below
    rw [idsIn_cons, hchildren, List.nodup_cons, List.mem_append, not_or, List.nodup_append]
      at hnodup
    rcases hnodup with ⟨⟨hheadBelow, hheadOthers⟩, hnodupBelow, hnodupOthers, hdisjoint⟩
    simp only [idsIn_cons, hchildren, List.mem_cons, List.mem_append, not_or] at hnew
    -- first the findings for the element itself
    have hclaim : (Element.claim claimed es).2 =
        root :: (joinAll root (fs ++ inTrees d.id [] es)).map Finding.id := by
      rw [hclaimed, joinAll_append]
      refine (map_id_foldl_join (fun _ => .inl rfl) (level_found hfound) ?_).symm
      exact fun x _ f hf helement => absurd helement (hnew f (of_mem_joinAll hf).1).1
    -- then those for the elements below, and those for the others
    have hnext := ihbelow hnodupBelow hclaim fun f hf => by
      rcases List.mem_append.mp hf with hf | hf
      · exact (hnew f hf).2.1
      · rw [(of_mem_inTrees hf).1]
        exact hheadBelow
    have hlast := ihothers hnodupOthers hnext fun f hf => by
      rcases List.mem_append.mp hf with hf | hf
      · rcases List.mem_append.mp hf with hf | hf
        · exact (hnew f hf).2.2
        · rw [(of_mem_inTrees hf).1]
          exact hheadOthers
      · exact fun hmem => hdisjoint _ (element_of_mem_findings hf) _ hmem rfl
    rw [hlast, subtrees_cons, hchildren, findings_cons, findings_append,
      foundTrees_eq ((found_congr halike).trans hfound)]
    simp [withBelow]

section Trees

variable {doc : Document} {t₀ : Element} {last : List Uuid}
  (hexpands : c.Expands [doc.id] [summary doc] [t₀] last)

include hexpands

/-- The findings for the tree of a document are in order. -/
theorem orderly_tree : Orderly (c.findings (subtrees [t₀])) :=
  orderly_findings c .nil ((joined_summary doc).nodup_result hexpands) nofun

/-- What has joined the tree of a document is the document, and what joins by the findings for the
elements of the tree. -/
theorem last_eq_tree :
    last = doc.id :: (joinAll doc.id (c.findings (subtrees [t₀]))).map Finding.id := by
  have hstart : [doc.id] = doc.id :: (joinAll doc.id []).map Finding.id := rfl
  exact hexpands.last_eq ((joined_summary doc).nodup_result hexpands) hstart (List.forall_mem_nil _)

/-- An id has joined the tree if it is found openly. -/
theorem mem_last_of_open {f : Finding} (hf : f ∈ c.findings (subtrees [t₀]))
    (hopen : f.Open (joinAll doc.id (c.findings (subtrees [t₀])))) : f.id ∈ last := by
  rw [last_eq_tree hexpands]
  rcases (orderly_tree hexpands).joined_of_open hf hopen with hroot | ⟨q, hq, hid, -⟩
  · rw [hroot]
    exact .head _
  · exact .tail _ (hid ▸ List.mem_map_of_mem hq)

/-- What is reported for an element of the tree itself, and not below another id, has joined. -/
theorem mem_last_of_top {e : Element} (he : e ∈ subtrees [t₀]) {u : Uuid}
    (hu : c.Reports e [] u) : u ∈ last := by
  have hf : ⟨e.id, [], u⟩ ∈ c.findings (subtrees [t₀]) :=
    (mem_findings fun _ => hexpands.exists_found).mpr ⟨e, he, rfl, hu⟩
  exact mem_last_of_open hexpands hf (.inl rfl)

/-- The queries of the elements of a tree with labels have answered. -/
theorem exists_found_dressed {f : Element → Element} {t : Element} (hdressed : Dressed f t₀ t)
    {e : Element} (he : e ∈ t.subtree.map (subject doc)) : ∃ es, c.found e = .ok es := by
  rcases List.mem_map.mp he with ⟨x, hx, rfl⟩
  rcases exists_stands_of_mem hexpands hdressed hx with ⟨x₀, hx₀, hstands⟩
  rw [found_congr hstands.alike]
  exact hexpands.exists_found (subtrees_singleton t₀ ▸ hx₀)

/-- Labels do not change what is found. -/
theorem findings_dressed {f : Element → Element} {t : Element} (hdressed : Dressed f t₀ t) :
    c.findings (t.subtree.map (subject doc)) = c.findings (subtrees [t₀]) := by
  have hroot : (subject doc t).Alike t₀ := (stands_root hexpands hdressed).alike
  have hbelow := findings_map (c := c) (f := subject doc ∘ mapAll f)
    fun e he => (stands_below hexpands hdressed he).alike
  rw [subtrees_singleton, subtree_eq, subtree_eq, hdressed.subtrees_childList, List.map_cons,
    List.map_map, findings_cons, findings_cons, hbelow, hroot.id, foundTrees, found_congr hroot]
  rfl

end Trees

end ScopeRun

/-! ## Scopes -/

namespace Store

open ScopeRun

variable {st : Store} {settings : Settings} {stage : Stage} {id : InstanceId}
  {options : ScopeOptions} {doc : Document} {t : Element}

/-- The tree of a scope, and all that the queries of its elements find, in order. An instance is in
the tree if and only if it is the root, or one of its findings is open: nothing stands above it, or
what stands right above joined there. Every other element joined by exactly one finding, the first
of its open ones. So an instance keeps all that is reported right below the place where it joined,
however often it is reported. What is lost stands below a place that is open as well, but whose
instance had joined before: it is the root, or it joined by an earlier finding. -/
theorem mem_scope_iff_open (hdoc : (st.data stage).get? id.uuid = some doc)
    (h : (st.scope settings stage id options).1 = .ok (some t)) :
    let c : ScopeRun := ⟨st, settings, stage, options⟩
    let findings := c.findings (t.subtree.map (subject doc))
    let joined := joinAll t.id findings
    (∀ f, f ∈ findings ↔
      ∃ e ∈ t.subtree, e.id = f.element ∧ c.Reports (subject doc e) f.above f.id) ∧
    (∀ u, u ∈ t.ids ↔ u = t.id ∨ ∃ f ∈ findings, f.id = u ∧ f.Open joined) ∧
    (t.subtree.map Element.id).Perm (t.id :: joined.map Finding.id) ∧
    (∀ q ∈ joined, q ∈ findings ∧ q.Open joined ∧
      ∀ f ∈ findings, f.id = q.id → f.Open joined → f = q ∨ [q, f].Sublist findings) ∧
    ∀ f ∈ findings, f.id ∉ t.ids → ∃ p ∈ findings, p.element = f.element ∧ p.path <+: f.above ∧
      p.Open joined ∧ (p.id = t.id ∨ ∃ q ∈ joined, q.id = p.id ∧ [q, p].Sublist findings) := by
  intro c findings joined
  rcases expands_of_scope hdoc h with ⟨g, t₀, last, hexpands, hdressed⟩
  have hroot : t.id = doc.id := hdressed.id.trans (congrArg Element.id hexpands.bare_eq)
  have hfindings : findings = c.findings (subtrees [t₀]) := findings_dressed hexpands hdressed
  have horderly : Orderly findings := hfindings ▸ orderly_tree hexpands
  have hlast : last = t.id :: joined.map Finding.id := by
    rw [last_eq_tree hexpands, ← hfindings, ← hroot]
  have hmem (u : Uuid) : u ∈ t.ids ↔ u = t.id ∨ ∃ f ∈ findings, f.id = u ∧ f.Open joined := by
    rw [mem_ids_iff_mem_last hexpands hdressed, hlast, List.mem_cons, List.mem_map]
    exact horderly.joined_iff_open
  refine ⟨fun f => ?_, hmem, ?_, fun q hq => ?_, fun f hf hlost => ?_⟩
  · have hfound (e : Element) (he : e ∈ t.subtree.map (subject doc)) : ∃ es, c.found e = .ok es :=
      exists_found_dressed hexpands hdressed he
    rw [mem_findings hfound]
    simp [subject_id]
  · rw [hdressed.map_id_subtree, ← hlast]
    exact hexpands.perm_last
  · rcases of_mem_joinAll hq with ⟨hqmem, hqopen, -⟩
    exact ⟨hqmem, hqopen, fun f hf => horderly.first_of_joined hq hf⟩
  · exact horderly.exists_joined_before hf fun hopen =>
      hlost ((hmem f.id).mpr (.inr ⟨f, hf, rfl, hopen⟩))

/-! ### The study -/

namespace Study

/-- The query for datasets reports the samples of the patients, too, and the query for patients the
files of the samples. -/
def nested : Store :=
  store data [scopeQuery "Dataset" [dependency "studies" [dependency "has" []]],
    scopeQuery "Patient" [dependency "has" [dependency "has" []]]]

/-- The query for datasets reports the files of the samples, too, and the query for patients the
samples alone. -/
def layered : Store :=
  store data [scopeQuery "Dataset" [dependency "studies" [dependency "has" [dependency "has" []]]],
    scopeQuery "Patient" [dependency "has" []]]

/-- The root of a tree, and what the queries of a store find for its elements. -/
def rootFindings (st : Store) (t : Element) : Uuid × List Finding :=
  (t.id, findings ⟨st, .default, .inProgress, ⟨false, false⟩⟩ (t.subtree.map (subject dataset)))

theorem exists_of_rootFindings {st : Store} {root : Uuid} {fs : List Finding}
    (h : (Study.scope st false).toOption.join.map (rootFindings st) = some (root, fs)) :
    ∃ t, Study.scope st false = .ok (some t) ∧ t.id = root ∧
      findings ⟨st, .default, .inProgress, ⟨false, false⟩⟩ (t.subtree.map (subject dataset)) = fs := by
  rcases exists_of_tree h with ⟨t, ht, hshown⟩
  exact ⟨t, ht, Prod.mk.inj hshown⟩

/-- What the queries of the store `layered` find. -/
def layeredFindings : List Finding :=
  [⟨dataset.id, [], patient.id⟩, ⟨dataset.id, [patient.id], sample.id⟩,
    ⟨dataset.id, [patient.id, sample.id], file.id⟩, ⟨patient.id, [], sample.id⟩]

/-- What the queries of the store `nested` find. -/
def nestedFindings : List Finding :=
  [⟨dataset.id, [], patient.id⟩, ⟨dataset.id, [patient.id], sample.id⟩,
    ⟨patient.id, [], sample.id⟩, ⟨patient.id, [sample.id], file.id⟩]

end Study

open Study in
/-- The sample joins below the patient, as it is reported for the dataset. So it keeps its file if
that is reported there, although the patient reports the sample as well; and it loses the file if
only the patient reports it. -/
theorem mem_scope_iff_open_nested :
    (∃ t, Study.scope layered false = .ok (some t) ∧
      (∃ e ∈ t.subtree, e.id = dataset.id ∧
        Reports (run layered false) (subject dataset e) [patient.id, sample.id] file.id) ∧
      (∃ e ∈ t.subtree, e.id = patient.id ∧
        Reports (run layered false) (subject dataset e) [] sample.id) ∧
      sample.id ∈ t.ids ∧ file.id ∈ t.ids) ∧
    ∃ t, Study.scope nested false = .ok (some t) ∧
      (∃ e ∈ t.subtree, e.id = dataset.id ∧
        Reports (run nested false) (subject dataset e) [patient.id] sample.id) ∧
      (∃ e ∈ t.subtree, e.id = patient.id ∧
        Reports (run nested false) (subject dataset e) [sample.id] file.id) ∧
      sample.id ∈ t.ids ∧ file.id ∉ t.ids := by
  constructor
  · have hshown : (Study.scope layered false).toOption.join.map (rootFindings layered) =
        some (dataset.id, layeredFindings) := by decide +kernel
    rcases exists_of_rootFindings hshown with ⟨t, ht, hroot, hfound⟩
    obtain ⟨hfindings, hids, -⟩ := mem_scope_iff_open rfl ht
    rw [hfound] at hfindings hids
    rw [hroot] at hids
    exact ⟨t, ht, (hfindings ⟨dataset.id, [patient.id, sample.id], file.id⟩).mp (by decide),
      (hfindings ⟨patient.id, [], sample.id⟩).mp (by decide), (hids _).mpr (by decide),
      (hids _).mpr (by decide)⟩
  · have hshown : (Study.scope nested false).toOption.join.map (rootFindings nested) =
        some (dataset.id, nestedFindings) := by decide +kernel
    rcases exists_of_rootFindings hshown with ⟨t, ht, hroot, hfound⟩
    obtain ⟨hfindings, hids, -⟩ := mem_scope_iff_open rfl ht
    rw [hfound] at hfindings hids
    rw [hroot] at hids
    exact ⟨t, ht, (hfindings ⟨dataset.id, [patient.id], sample.id⟩).mp (by decide),
      (hfindings ⟨patient.id, [sample.id], file.id⟩).mp (by decide), (hids _).mpr (by decide),
      fun hlost => absurd ((hids _).mp hlost) (by decide)⟩

end Store

end GraphQuery
