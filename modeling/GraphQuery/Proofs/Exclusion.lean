import GraphQuery.Proofs.Scopes

/-!
# GraphQuery.Proofs.Exclusion — restricted scopes hold nothing excludable below their root

1. **Findings** for an element are elements that stay: none of their types is excludable. Rows are
   left out one by one, so this has to survive the merging of what several rows report.
2. **Scopes**: all below the root of a restricted scope stays.
3. **The study** with a patient who volunteered.
-/

namespace GraphQuery

open Element

/-! ## Findings -/

namespace ScopeRun

variable {c : ScopeRun}

/-- None of the element's types is excludable. -/
def Stays (c : ScopeRun) (e : Element) : Prop := ∀ type ∈ e.types, c.store.isExcludable type = false

theorem Stays.ofOwnData : OfOwnData c.Stays := by
  intro a b hbare h
  have halike : a.Alike b := .of_bare hbare
  unfold Stays
  rw [← halike.types]
  exact h

theorem Stays.merge {a b : Element} (ha : c.Stays a) (hb : c.Stays b) : c.Stays (a.merge b) := by
  intro type htype
  rcases mem_types_merge.mp htype with htype | htype
  · exact ha type htype
  · exact hb type htype

section Restricted

variable (hrestricted : c.options.restrictions = true)

include hrestricted

/-- What stands below the element of a result row has been read with the restrictions. -/
theorem stays_of_mem_ofTopRow {types : List String} {row : Json.Row} {e x : Element}
    (he : e ∈ (c.reading types).ofTopRow row) (hx : x ∈ subtrees e.childList) : c.Stays x := by
  have hdependency : x ∈ subtrees ((c.reading types).dependencies row) := by
    rcases RowReading.mem_elements he with ⟨htop, -⟩ | ⟨-, -, hbelow⟩
    · cases htop
    · rcases mem_subtrees.mp hx with ⟨d, hd, hx⟩
      exact mem_subtrees.mpr ⟨d, hbelow d hd, hx⟩
  rcases RowReading.exists_row_of_mem_dependencies hdependency with
    ⟨nested, -, ⟨id, -, hbare⟩, hkept⟩
  refine Stays.ofOwnData (nested.element id) x hbare.symm fun type htype => ?_
  have hkept : (c.options.restrictions && nested.typeList.any c.store.isExcludable) = false := hkept
  rw [hrestricted, Bool.true_and, List.any_eq_false] at hkept
  simpa using hkept type htype

/-- The element that queries run for may be excludable itself; what they find for it is not. -/
theorem stays_of_found {e : Element} {es : List Element} (h : c.found e = .ok es) :
    ∀ x ∈ subtrees es, c.Stays x := by
  rcases found_cases h with ⟨-, rfl⟩ | ⟨space, merged, -, hreported, rfl⟩
  · intro x hx
    cases hx
  · rcases rows_of_reportedOn hreported with ⟨rows, -, rfl⟩
    have hrows : ∀ d ∈ rows.flatMap (c.reading e.types).ofTopRow, ∀ x ∈ subtrees d.childList,
        c.Stays x := by
      intro d hd x hx
      rcases List.mem_flatMap.mp hd with ⟨row, -, hd⟩
      exact stays_of_mem_ofTopRow hrestricted hd hx
    have hmerged := forall_mem_childList_mergeSameLevel Stays.ofOwnData (fun _ _ _ => .merge) hrows
    intro x hx
    rcases mem_subtrees_flatMap.mp hx with ⟨d, hd, hx⟩
    exact hmerged d (List.mem_filter.mp hd).1 x hx

/-- An expanded leaf has only elements below it that stay. -/
theorem Expands.stays_below {claimed last : List Uuid} {e t : Element}
    (h : c.Expands claimed [e] [t] last) (hleaf : e.childList = []) :
    ∀ x ∈ subtrees t.childList, c.Stays x := by
  rcases h with _ | ⟨hfound, hbelow, -⟩
  rw [hbelow.childList_withBelow]
  refine hbelow.forall_mem Stays.ofOwnData (fun d es _ => stays_of_found hrestricted) ?_
  rw [hleaf, List.nil_append]
  exact forall_mem_claim Stays.ofOwnData (stays_of_found hrestricted hfound)

end Restricted

end ScopeRun

/-! ## Scopes -/

namespace Store

open ScopeRun

/-- No element of a restricted scope but its root has an excludable type, at any depth, and however
many rows and queries its types were merged from. -/
theorem not_excludable_of_mem_scope {st : Store} {settings : Settings} {stage : Stage}
    {id : InstanceId} {options : ScopeOptions} {t : Element}
    (hrestricted : options.restrictions = true)
    (h : (st.scope settings stage id options).1 = .ok (some t)) :
    ∀ x ∈ subtrees t.childList, ∀ type ∈ x.types, st.isExcludable type = false := by
  rcases exists_stored_of_scope h with ⟨doc, hdoc, -⟩
  rcases expands_of_scope hdoc h with ⟨f, t₀, last, hexpands, hdressed⟩
  have hstays := hexpands.stays_below hrestricted rfl
  intro x hx
  rw [hdressed.subtrees_childList, List.mem_map] at hx
  rcases hx with ⟨x₀, hx₀, rfl⟩
  rw [(hdressed.labels.alike x₀).types]
  exact hstays x₀ hx₀

namespace Study

/-- The patient volunteered, and volunteers may be left out. The file refers to the patient again,
who is reported twice in this way: by the query for datasets, and by the one for files. -/
def volunteers : Store :=
  { store
      { documents := [dataset, { patient with types := ["Patient", "Volunteer"] }, sample, file]
        edges := data.edges ++ [⟨file.id, patient.id, "of", 0⟩] }
      [scopeQuery "Dataset" [dependency "studies" [dependency "has" []]],
        scopeQuery "Sample" [dependency "has" []], scopeQuery "File" [dependency "of" []]] with
    excludable := ["Volunteer"] }

end Study

open Study in
/-- The sample and the file stay in the tree, whose types hold no volunteer. -/
theorem not_excludable_of_mem_scope_volunteers : ∃ t, Study.scope volunteers true = .ok (some t) ∧
    t.subtree.map Element.id = [dataset.id, sample.id, file.id] ∧
      ∀ x ∈ subtrees t.childList, ∀ type ∈ x.types, volunteers.isExcludable type = false := by
  have hids : (Study.scope volunteers true).toOption.join.map (·.subtree.map Element.id) =
      some [dataset.id, sample.id, file.id] := by decide +kernel
  rcases exists_of_tree hids with ⟨t, ht, hids⟩
  exact ⟨t, ht, hids, not_excludable_of_mem_scope rfl ht⟩

end Store

end GraphQuery
