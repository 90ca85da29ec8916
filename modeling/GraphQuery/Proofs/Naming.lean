import GraphQuery.Proofs.Bindings
import GraphQuery.Proofs.Variables

/-!
# GraphQuery.Proofs.Naming — conditions have names of their own

1. **Names** of conditions are made of safe characters. The condition on a property ends in the
   number of the property, the one on documents does not end in a number.
2. **Plans** for interpreted queries find the condition of a property by its number, and name no
   two conditions alike.
3. **Patterns** of conditions with names of their own are found by these names.
-/

namespace GraphQuery

/-! ## Names -/

theorem Text.not_isDigit_of_eq (c : Char) (h : (c == 'r') = true) : (!c.isDigit) = true := by
  rw [beq_iff_eq.mp h]
  decide

namespace Condition

/-- The name of a condition ends with the name of its place, after a safe part that may be empty. -/
theorem bindName_resolve (f : ValueFilter) (values : Dictionary String) (name : String) :
    ∃ before, (resolve f values name).bindName = before ++ name ∧ Text.safe before = before := by
  unfold resolve
  dsimp only
  split
  · rename_i parameter hparameter
    -- a parameter, then an underscore
    obtain ⟨hmap, -⟩ := Option.filter_eq_some_iff.mp hparameter
    obtain ⟨p, -, rfl⟩ := Option.map_eq_some_iff.mp hmap
    have hmark : Text.safe "_" = "_" := by decide
    exact ⟨Text.safe p ++ "_", rfl, by rw [Text.safe_append, Text.safe_safe, hmark]⟩
  · exact ⟨"", String.empty_append.symm, rfl⟩

/-- A condition is named by a word if its parameter is one. -/
theorem isWord_resolve {f : ValueFilter} (values : Dictionary String) {name : String}
    (hparameter : ∀ p, f.parameter = some p → Cypher.IsWord (Text.safe p))
    (hname : Cypher.IsWord name) : Cypher.IsWord (resolve f values name).bindName := by
  unfold resolve
  dsimp only
  split
  · rename_i parameter hresolved
    obtain ⟨hmap, -⟩ := Option.filter_eq_some_iff.mp hresolved
    obtain ⟨p, hp, rfl⟩ := Option.map_eq_some_iff.mp hmap
    exact Cypher.isWord_append (Cypher.isWord_append (hparameter p hp) (by decide)) hname
  · exact hname

/-- A condition that is named after the property with the given number, which follows a name of
the library. -/
def IsNumbered (i : Nat) (c : Condition) : Prop :=
  ∃ before, c.bindName = before ++ toString i ∧ Text.EndsIn (· == 'r') before ∧
    Text.safe before = before

/-- The name of a numbered condition is safe. -/
theorem IsNumbered.safe {i : Nat} {c : Condition} (h : c.IsNumbered i) :
    Text.safe c.bindName = c.bindName := by
  obtain ⟨before, hname, -, hsafe⟩ := h
  rw [hname, Text.safe_append, hsafe, Text.safe_toString]

/-- Conditions with one name have one number. -/
theorem IsNumbered.inj {i j : Nat} {c d : Condition} (hc : c.IsNumbered i) (hd : d.IsNumbered j)
    (h : c.bindName = d.bindName) : i = j := by
  obtain ⟨before, hname, hends, -⟩ := hc
  obtain ⟨before', hname', hends', -⟩ := hd
  rw [hname, hname'] at h
  exact (Text.append_toString_inj (hends.mono Text.not_isDigit_of_eq)
    (hends'.mono Text.not_isDigit_of_eq) h).2

/-- The condition of a property has the property's number. -/
theorem isNumbered_resolve (f : ValueFilter) (values : Dictionary String) (i : Nat) :
    (resolve f values s!"staticFilter{i}").IsNumbered i := by
  obtain ⟨before, hname, hsafe⟩ := bindName_resolve f values s!"staticFilter{i}"
  have hnumber : s!"staticFilter{i}" = "staticFilter" ++ toString i := rfl
  refine ⟨before ++ "staticFilter", ?_, ?_, ?_⟩
  · rw [hname, hnumber, String.append_assoc]
  · exact Text.EndsIn.append ⟨'r', by decide, by decide⟩ before
  · rw [Text.safe_append, hsafe]
    congr 1

end Condition

/-- The filters of a specification. -/
def Specification.filters (s : Specification) : List ValueFilter :=
  s.allProperties.filterMap Property.filter ++ s.documentFilter.toList

/-- The parameters that the filters of a specification name. -/
def Specification.parameters (s : Specification) : List String :=
  s.filters.filterMap ValueFilter.parameter

namespace Plan

/-- Where a condition of a plan comes from. -/
theorem exists_resolve {spec : Specification} {r : Request} {c : Condition}
    (h : c ∈ (build spec r).conditions) : ∃ f ∈ spec.filters, ∃ name, c.isActive = true ∧
      c = Condition.resolve f r.filterValues name ∧
      (name = "documentFilter" ∨ ∃ i : Nat, name = s!"staticFilter{i}") := by
  rcases List.mem_append.mp h with h | h
  · obtain ⟨e, he, rfl⟩ := List.mem_map.mp h
    obtain ⟨p, hp, hentry⟩ := List.mem_filterMap.mp he
    obtain ⟨d, hcondition, rfl⟩ := Option.map_eq_some_iff.mp hentry
    obtain ⟨f, hf, hresolve⟩ := Option.bind_eq_some_iff.mp hcondition
    dsimp only at hresolve
    split at hresolve
    · cases hresolve
      refine ⟨f, ?_, _, ‹_›, rfl, .inr ⟨p.index, rfl⟩⟩
      exact List.mem_append_left _ (List.mem_filterMap.mpr ⟨p, hp, hf⟩)
    · cases hresolve
  · obtain ⟨hmap, hactive⟩ := Option.filter_eq_some_iff.mp (Option.mem_toList.mp h)
    obtain ⟨f, hf, rfl⟩ := Option.map_eq_some_iff.mp hmap
    exact ⟨f, List.mem_append_right _ (Option.mem_toList.mpr hf), _, hactive, rfl, .inl rfl⟩

/-- All conditions of a plan are active. -/
theorem isActive_of_mem_conditions {spec : Specification} {r : Request} {c : Condition}
    (h : c ∈ (build spec r).conditions) : c.isActive = true := by
  obtain ⟨f, -, name, hactive, -⟩ := exists_resolve h
  exact hactive

/-- If the parameters of a client are words, the names of its conditions are. -/
theorem isWord_bindName {spec : Specification} {r : Request}
    (hwords : ∀ p ∈ spec.parameters, Cypher.IsWord (Text.safe p)) {c : Condition}
    (h : c ∈ (build spec r).conditions) : Cypher.IsWord c.bindName := by
  obtain ⟨f, hf, name, -, rfl, hname⟩ := exists_resolve h
  refine Condition.isWord_resolve _ (fun p hp => hwords p ?_) ?_
  · exact List.mem_filterMap.mpr ⟨f, hf, hp⟩
  · rcases hname with rfl | ⟨i, rfl⟩
    · decide
    · exact Cypher.isWord_append (a := "staticFilter") (by decide) (Cypher.isWord_toString i)

theorem isNumbered_propertyCondition? {values : Dictionary String} {p : Property} {c : Condition}
    (h : propertyCondition? values p = some c) : c.IsNumbered p.index := by
  obtain ⟨f, -, hresolve⟩ := Option.bind_eq_some_iff.mp h
  dsimp only at hresolve
  split at hresolve
  · cases hresolve
    exact Condition.isNumbered_resolve f values p.index
  · cases hresolve

/-- What the condition on documents is named. -/
theorem bindName_documentFilter {spec : Specification} {r : Request} {c : Condition}
    (h : (build spec r).documentFilter = some c) :
    Text.EndsIn (· == 'r') c.bindName ∧ Text.safe c.bindName = c.bindName := by
  obtain ⟨hmap, -⟩ := Option.filter_eq_some_iff.mp h
  obtain ⟨f, -, rfl⟩ := Option.map_eq_some_iff.mp hmap
  obtain ⟨before, hname, hsafe⟩ :=
    Condition.bindName_resolve f r.filterValues "documentFilter"
  rw [hname, Text.safe_append, hsafe]
  exact ⟨Text.EndsIn.append ⟨'r', by decide, by decide⟩ before, by congr 1⟩

theorem isNumbered_propertyFilters {spec : Specification} {r : Request} {e : Nat × Condition}
    (h : e ∈ (build spec r).propertyFilters) : e.2.IsNumbered e.1 := by
  obtain ⟨p, -, hp⟩ := List.mem_filterMap.mp h
  obtain ⟨c, hcondition, rfl⟩ := Option.map_eq_some_iff.mp hp
  exact isNumbered_propertyCondition? hcondition

/-- A condition of a plan is numbered, or its name ends in no number. -/
theorem bindName_cases {spec : Specification} {r : Request} {c : Condition}
    (h : c ∈ (build spec r).conditions) :
    (∃ i, c.IsNumbered i) ∨ Text.EndsIn (· == 'r') c.bindName := by
  rcases List.mem_append.mp h with h | h
  · obtain ⟨e, he, rfl⟩ := List.mem_map.mp h
    exact .inl ⟨e.1, isNumbered_propertyFilters he⟩
  · exact .inr (bindName_documentFilter (Option.mem_toList.mp h)).1

/-- All conditions of a plan have names. -/
theorem bindName_ne_empty {spec : Specification} {r : Request} {c : Condition}
    (h : c ∈ (build spec r).conditions) : c.bindName ≠ "" := by
  intro hempty
  -- every name ends in some character
  rcases bindName_cases h with ⟨i, before, hname, ⟨d, hlast, -⟩, -⟩ | ⟨d, hlast, -⟩
  · rw [hempty] at hname
    have hbefore := String.append_eq_empty_iff.mp hname.symm
    rw [hbefore.1] at hlast
    cases hlast
  · rw [hempty] at hlast
    cases hlast

/-- The condition on documents has no number. -/
theorem not_isNumbered_of_endsIn {c : Condition} (h : Text.EndsIn (· == 'r') c.bindName) (i : Nat) :
    ¬ c.IsNumbered i := by
  rintro ⟨before, hname, -, -⟩
  have hdigit := (Text.endsIn_toString i).append before
  rw [← hname] at hdigit
  obtain ⟨d, hlast, hd⟩ := hdigit
  refine h.ne (t := c.bindName) ?_ rfl
  rw [hlast, Option.any_some, beq_eq_false_iff_ne]
  rintro rfl
  revert hd
  decide

/-! ## Plans -/

/-- The names of conditions are safe. -/
theorem safe_bindName {spec : Specification} {r : Request} {c : Condition}
    (h : c ∈ (build spec r).conditions) : Text.safe c.bindName = c.bindName := by
  rcases List.mem_append.mp h with h | h
  · obtain ⟨e, he, rfl⟩ := List.mem_map.mp h
    exact (isNumbered_propertyFilters he).safe
  · exact (bindName_documentFilter (Option.mem_toList.mp h)).2

/-- Where properties have numbers of their own, conditions have names of their own. -/
theorem nodup_bindNames {spec : Specification}
    (hnodup : (spec.allProperties.map Property.index).Nodup) (r : Request) :
    ((build spec r).conditions.map Condition.bindName).Nodup := by
  have hnumbers : (build spec r).propertyFilters.Pairwise fun a b => a.1 ≠ b.1 := by
    rw [List.Nodup, List.pairwise_map] at hnodup
    refine hnodup.filterMap _ fun p p' hne e he e' he' => ?_
    obtain ⟨c, -, rfl⟩ := Option.map_eq_some_iff.mp he
    obtain ⟨c', -, rfl⟩ := Option.map_eq_some_iff.mp he'
    exact hne
  rw [conditions, List.map_append, List.map_map]
  refine List.Nodup.append ?_ ?_ ?_
  · -- the numbers of two properties differ, so the names of their conditions do
    rw [List.Nodup, List.pairwise_map]
    refine hnumbers.imp_of_mem fun {e e'} he he' hne hsame => hne ?_
    exact (isNumbered_propertyFilters he).inj (isNumbered_propertyFilters he') hsame
  · cases (build spec r).documentFilter <;> simp
  · -- the name of the condition on documents ends in no number
    intro name hname hname'
    obtain ⟨e, he, rfl⟩ := List.mem_map.mp hname
    obtain ⟨c, hc, hsame⟩ := List.mem_map.mp hname'
    have hends := (bindName_documentFilter (Option.mem_toList.mp hc)).1
    obtain ⟨before, hbefore, hrest⟩ := isNumbered_propertyFilters he
    exact not_isNumbered_of_endsIn hends e.1 ⟨before, hsame.trans hbefore, hrest⟩

/-- The condition of a property is found by the number of the property. -/
theorem condition?_build {spec : Specification}
    (h : (spec.allProperties.map Property.index).Nodup) (r : Request) {p : Property}
    (hp : p ∈ spec.allProperties) :
    (build spec r).condition? p = propertyCondition? r.filterValues p := by
  unfold condition? build
  dsimp only
  generalize spec.allProperties = ps at h hp
  induction ps with
  | nil => cases hp
  | cons q rest ih =>
    rw [List.map_cons, List.nodup_cons] at h
    -- no later property has the number of an earlier one
    have hlater {p : Property} (hp : p ∈ rest) : p.index ≠ q.index := by
      intro hindex
      exact h.1 (List.mem_map.mpr ⟨p, hp, hindex⟩)
    have hnone : (rest.filterMap fun p =>
        (propertyCondition? r.filterValues p).map (p.index, ·)).lookup q.index = none := by
      rw [List.lookup_eq_none_iff]
      intro e he
      obtain ⟨p', hp', he⟩ := List.mem_filterMap.mp he
      obtain ⟨c, -, rfl⟩ := Option.map_eq_some_iff.mp he
      simpa using (hlater hp').symm
    rw [List.filterMap_cons]
    rcases List.mem_cons.mp hp with rfl | hp
    · cases hcondition : propertyCondition? r.filterValues p with
      | none => exact hnone
      | some c => simp
    · rw [← ih h.2 hp]
      cases hcondition : propertyCondition? r.filterValues q with
      | none => rfl
      | some c =>
        have hne : (p.index == q.index) = false := by simpa using hlater hp
        simp [List.lookup_cons, hne]

end Plan

/-! ## Patterns -/

/-- A condition whose regular expression, if it has one, can be read. -/
def Condition.IsReadable (c : Condition) : Prop :=
  ∀ text, c.patternText? = some text → (Pattern.parse? text).isSome = true

instance (c : Condition) : Decidable c.IsReadable :=
  decidable_of_iff ((c.patternText?.all fun text => (Pattern.parse? text).isSome) = true)
    (Option.all_eq_true _ _)

namespace Plan

/-- A condition without a pattern adds none, and a pattern that can be read is added under the
name. -/
theorem addPattern_eq_ok {patterns result : Dictionary Pattern} {c : Condition}
    (h : addPattern patterns c = .ok result) :
    (c.patternText? = none ∧ result = patterns) ∨
      ∃ text p, c.patternText? = some text ∧ Pattern.parse? text = some p ∧
        result = patterns.insert c.bindName p := by
  unfold addPattern at h
  split at h
  · cases h
    exact .inl ⟨‹_›, rfl⟩
  · split at h
    · cases h
      exact .inr ⟨_, _, ‹_›, ‹_›, rfl⟩
    · cases h

/-- If names differ, every pattern is found under the name of its condition, and nothing else is. -/
theorem get?_foldlM_addPattern {cs : List Condition} {patterns result : Dictionary Pattern}
    (hnames : (cs.map Condition.bindName).Nodup) (h : cs.foldlM addPattern patterns = .ok result) :
    (∀ c ∈ cs, ∀ text, c.patternText? = some text →
      ∃ p, Pattern.parse? text = some p ∧ result.get? c.bindName = some p) ∧
    ∀ name ∉ cs.map Condition.bindName, result.get? name = patterns.get? name := by
  -- induction on the conditions; those that follow leave the pattern of a name alone
  induction cs generalizing patterns with
  | nil =>
    cases h
    simp
  | cons c rest ih =>
    rw [List.map_cons, List.nodup_cons] at hnames
    rw [List.foldlM_cons] at h
    cases hfirst : addPattern patterns c with
    | error e =>
      rw [hfirst] at h
      cases h
    | ok next =>
      rw [hfirst] at h
      obtain ⟨hrest, hothers⟩ := ih hnames.2 h
      have hadded := addPattern_eq_ok hfirst
      constructor
      · rw [List.forall_mem_cons]
        refine ⟨fun text htext => ?_, hrest⟩
        rcases hadded with ⟨hnone, -⟩ | ⟨text', p, htext', hparse, rfl⟩
        · rw [hnone] at htext
          cases htext
        · rw [htext'] at htext
          cases htext
          refine ⟨p, hparse, ?_⟩
          rw [hothers _ hnames.1, Dictionary.get?_insert, if_pos rfl]
      · intro name hname
        rw [List.map_cons, List.mem_cons, not_or] at hname
        rw [hothers name hname.2]
        rcases hadded with ⟨-, rfl⟩ | ⟨text, p, -, -, rfl⟩
        · rfl
        · rw [Dictionary.get?_insert, if_neg hname.1]

/-- A condition can be added if it can be read. -/
theorem exists_addPattern_iff (patterns : Dictionary Pattern) (c : Condition) :
    (∃ next, addPattern patterns c = .ok next) ↔ c.IsReadable := by
  unfold addPattern Condition.IsReadable
  cases htext : c.patternText? with
  | none => simp
  | some text => cases hparse : Pattern.parse? text <;> simp [hparse]

/-- The patterns of a plan are read if the expressions of its conditions can be. -/
theorem exists_patterns_iff (plan : Plan) : (∃ patterns, plan.patterns = .ok patterns) ↔
    ∀ c ∈ plan.conditions, c.IsReadable := by
  have hfold : ∀ (cs : List Condition) (patterns : Dictionary Pattern),
      (∃ result, cs.foldlM addPattern patterns = .ok result) ↔ ∀ c ∈ cs, c.IsReadable := by
    intro cs
    induction cs with
    | nil => exact fun patterns => ⟨fun _ => by simp, fun _ => ⟨patterns, rfl⟩⟩
    | cons c rest ih =>
      intro patterns
      rw [List.forall_mem_cons, ← exists_addPattern_iff patterns, List.foldlM_cons]
      cases hfirst : addPattern patterns c with
      | error e =>
        constructor
        · rintro ⟨result, hresult⟩
          cases hresult
        · rintro ⟨⟨next, hnext⟩, -⟩
          cases hnext
      | ok next =>
        exact (ih next).trans ⟨fun hrest => ⟨⟨next, rfl⟩, hrest⟩, And.right⟩
  exact hfold plan.conditions []

/-- An active condition with a regular expression has its pattern under its name. -/
theorem get?_patterns {spec : Specification}
    (h : (spec.allProperties.map Property.index).Nodup) {r : Request}
    {patterns : Dictionary Pattern} (hpatterns : (build spec r).patterns = .ok patterns)
    {c : Condition} (hc : c ∈ (build spec r).conditions) {s : String}
    (hs : c.patternText? = some s) :
    ∃ p, Pattern.parse? s = some p ∧ patterns.get? c.bindName = some p :=
  (get?_foldlM_addPattern (nodup_bindNames h r) hpatterns).1 c hc s hs

end Plan

end GraphQuery
