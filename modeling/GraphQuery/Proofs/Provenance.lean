import GraphQuery.Proofs.Scopes

/-!
# GraphQuery.Proofs.Provenance — nothing joins a scope unreported

1. **Expansions** put nothing into a tree but what is reported for an element above it.
2. **Scopes**: every element but the root was reported for an element above it.
3. **The study** with its subjects left out: a sample takes the place of its subject.
-/

namespace GraphQuery

open Element

/-! ## Expansions -/

namespace ScopeRun

variable {c : ScopeRun}

/-- An element of expanded trees stood in the trees before, or it was reported for an element above
it. -/
theorem Expands.reported {claimed last : List Uuid} {es result : List Element}
    (h : c.Expands claimed es result last) : ∀ x ∈ subtrees result, x.id ∈ idsIn es ∨
      ∃ a ∈ subtrees result, x ∈ subtrees a.childList ∧ ∃ above, c.Reports a above x.id := by
  induction h with
  | nil =>
    intro x hx
    cases hx
  | @cons claimed next last e rest es below others hfound hbelow _ ihbelow ihothers =>
    have hchildren := hbelow.childList_withBelow
    intro x hx
    simp only [subtrees_cons, idsIn_cons, hchildren, List.mem_cons, List.mem_append] at hx ⊢
    rcases hx with rfl | hx | hx
    · exact .inl (.inl rfl)
    · rcases ihbelow x hx with hid | ⟨a, ha, hxa, hreports⟩
      · rw [idsIn_append, List.mem_append] at hid
        rcases hid with hid | hid
        · exact .inl (.inr (.inl hid))
        · -- it joined below this element, where it was found
          rcases Place.mem_idsIn.mp hid with ⟨above, hplace⟩
          refine .inr ⟨_, .inl rfl, hchildren.symm ▸ hx, above, ?_⟩
          rw [reports_congr (alike_withBelow e _ _)]
          exact (place_found hfound).mp (place_of_claim hplace)
      · exact .inr ⟨a, .inr (.inl ha), hxa, hreports⟩
    · rcases ihothers x hx with hid | ⟨a, ha, hxa, hreports⟩
      · exact .inl (.inr (.inr hid))
      · exact .inr ⟨a, .inr (.inr ha), hxa, hreports⟩

end ScopeRun

/-! ## Scopes -/

namespace Store

open ScopeRun

/-- Every element of a scope's tree but the root was reported by a query: for an element above it,
by a query of that element's types. -/
theorem reported_of_mem_scope {st : Store} {settings : Settings} {stage : Stage} {id : InstanceId}
    {options : ScopeOptions} {doc : Document} {t : Element}
    (hdoc : (st.data stage).get? id.uuid = some doc)
    (h : (st.scope settings stage id options).1 = .ok (some t)) :
    ∀ x ∈ subtrees t.childList, ∃ a ∈ t.subtree, x ∈ subtrees a.childList ∧ ∃ above,
      Reports ⟨st, settings, stage, options⟩ (subject doc a) above x.id := by
  intro x hx
  rcases expands_of_scope hdoc h with ⟨f, t₀, last, hexpands, hdressed⟩
  rw [hdressed.subtrees_childList, List.mem_map] at hx
  rcases hx with ⟨x₀, hx₀, rfl⟩
  rcases hexpands.reported x₀ (by simp [hx₀]) with hid | ⟨a₀, ha₀, hxa, above, hreports⟩
  · exact absurd (List.mem_singleton.mp hid) (hexpands.id_ne_root hx₀)
  · rw [subtrees_singleton] at ha₀
    rcases exists_stands_for_mem hexpands hdressed ha₀ with ⟨a, ha, halike, hbelow⟩
    refine ⟨a, ha, ?_, above, ?_⟩
    · rw [hbelow]
      exact List.mem_map_of_mem hxa
    · rw [reports_congr halike, (hdressed.labels.alike x₀).id]
      exact hreports

namespace Study

/-- Patients may be left out. The query for datasets reports the samples of the patients, too. -/
def samples : Store :=
  { store data [scopeQuery "Dataset" [dependency "studies" [dependency "has" []]],
      scopeQuery "Sample" [dependency "has" []]] with
    excludable := ["Patient"] }

end Study

open Study in
/-- The sample of the study takes the place of its patient. It and its file have both been
reported. -/
theorem reported_of_mem_scope_samples : ∃ t, Study.scope samples true = .ok (some t) ∧
    t.subtree.map Element.id = [dataset.id, sample.id, file.id] ∧
      ∀ x ∈ subtrees t.childList, ∃ a ∈ t.subtree, x ∈ subtrees a.childList ∧ ∃ above,
        Reports (run samples true) (subject dataset a) above x.id := by
  have hids : (Study.scope samples true).toOption.join.map (·.subtree.map Element.id) =
      some [dataset.id, sample.id, file.id] := by decide +kernel
  rcases exists_of_tree hids with ⟨t, ht, hids⟩
  exact ⟨t, ht, hids, reported_of_mem_scope rfl ht⟩

end Store

end GraphQuery
