import GraphQuery.Proofs.Redaction

/-!
# GraphQuery.Proofs.Indifference — texts do not depend on the values of clients

1. **Requests alike** for specifications alike lead to plans that are the same once redacted.
2. **Texts** of their statements are the same, and so are the names that these bind.
-/

namespace GraphQuery

open Json

/-! ## Requests alike -/

namespace Specification

/-- Specifications that differ in nothing but filter literals and the types that steps ask for. For
AQL they may ask for different root types. -/
structure Alike (dialect : Dialect) (s t : Specification) : Prop where
  properties : Property.redactAll s.properties = Property.redactAll t.properties
  documentFilter : s.documentFilter.map ValueFilter.redact = t.documentFilter.map ValueFilter.redact
  rootType : dialect = .cypher → s.rootType = t.rootType

/-- Which properties have an active filter, in pre-order. -/
def activeFilters (s : Specification) (r : Request) : List Bool :=
  s.allProperties.map fun p => (Plan.propertyCondition? r.filterValues p).isSome

/-- Whether the filter on the documents themselves is active. -/
def hasActiveFilter (s : Specification) (r : Request) : Bool :=
  s.documentFilter.any fun f => (Condition.resolve f r.filterValues "documentFilter").isActive

end Specification

namespace Request

/-- Whether the documents must live in certain spaces. -/
def restrictsSpaces (r : Request) : Bool := r.spaces.any fun names => !names.isEmpty

/-- Whether the collection of a relation is known to be missing. -/
def misses (r : Request) (relation : String) : Bool :=
  r.known.any fun known => !known.contains (.ofRelation relation)

/-- Requests for two specifications that agree in all but the values of clients. -/
structure Alike (s t : Specification) (q r : Request) : Prop where
  stage : q.stage = r.stage
  page : q.page = r.page
  access : q.access.isSome = r.access.isSome
  spaces : q.restrictsSpaces = r.restrictsSpaces
  root : q.root.isSome = r.root.isSome
  documentFilter : s.hasActiveFilter q = t.hasActiveFilter r
  filters : s.activeFilters q = t.activeFilters r
  missing : ∀ relation ∈ s.relations, q.misses relation = r.misses relation

end Request

/-- A condition without operand is made of the filter without its literal. -/
theorem Condition.redact_resolve (f : ValueFilter) (values values' : Dictionary String)
    (name : String) :
    (Condition.resolve f values name).redact = (Condition.resolve f.redact values' name).redact :=
  rfl

namespace Plan

/-- What is left of the condition on a property depends on whether there is one. -/
theorem map_redact_propertyCondition? (values : Dictionary String) (p : Property) :
    (propertyCondition? values p).map Condition.redact =
      if (propertyCondition? values p).isSome then
        p.redact.filter.map fun f =>
          (Condition.resolve f [] s!"staticFilter{p.redact.index}").redact
      else none := by
  rw [Property.filter_redact, Property.index_redact]
  unfold propertyCondition?
  cases p.filter with
  | none => rfl
  | some f =>
    dsimp only [Option.map_some, bind, Option.bind]
    split
    · rfl
    · rfl

/-- What is left of the conditions on properties depends on which properties have one. -/
theorem redact_propertyFilters {values values' : Dictionary String} {ps qs : List Property}
    (hredact : ps.map Property.redact = qs.map Property.redact)
    (hactive : (ps.map fun p => (propertyCondition? values p).isSome) =
      qs.map fun q => (propertyCondition? values' q).isSome) :
    (ps.filterMap fun p => (propertyCondition? values p).map (p.index, ·)).map
        (fun (index, c) => (index, c.redact)) =
      (qs.filterMap fun q => (propertyCondition? values' q).map (q.index, ·)).map
        fun (index, c) => (index, c.redact) := by
  -- property by property
  induction ps generalizing qs with
  | nil =>
    cases qs with
    | nil => rfl
    | cons q qs => simp at hredact
  | cons p ps ih =>
    cases qs with
    | nil => simp at hredact
    | cons q qs =>
      obtain ⟨hhead, htail⟩ := List.cons_eq_cons.mp hredact
      obtain ⟨hsome, hsomes⟩ := List.cons_eq_cons.mp hactive
      dsimp only at hsome
      have hcondition : (propertyCondition? values p).map Condition.redact =
          (propertyCondition? values' q).map Condition.redact := by
        rw [map_redact_propertyCondition?, map_redact_propertyCondition?, hhead, hsome]
      have hindex : p.index = q.index := by rw [← p.index_redact, hhead, q.index_redact]
      have hrest := ih htail hsomes
      rw [List.filterMap_cons, List.filterMap_cons]
      cases hp : propertyCondition? values p <;> cases hq : propertyCondition? values' q <;>
        simp_all

theorem redact_documentFilter {s t : Specification} {q r : Request}
    (hfilter : s.documentFilter.map ValueFilter.redact = t.documentFilter.map ValueFilter.redact)
    (hactive : s.hasActiveFilter q = t.hasActiveFilter r) :
    (build s q).documentFilter.map Condition.redact =
      (build t r).documentFilter.map Condition.redact := by
  unfold Specification.hasActiveFilter at hactive
  change ((s.documentFilter.map fun f => Condition.resolve f q.filterValues "documentFilter").filter
      Condition.isActive).map Condition.redact =
    ((t.documentFilter.map fun f => Condition.resolve f r.filterValues "documentFilter").filter
      Condition.isActive).map Condition.redact
  cases hs : s.documentFilter with
  | none =>
    rw [hs, Option.map_none, eq_comm, Option.map_eq_none_iff] at hfilter
    rw [hfilter]
    rfl
  | some f =>
    rw [hs, Option.map_some, eq_comm, Option.map_eq_some_iff] at hfilter
    obtain ⟨g, ht, hg⟩ := hfilter
    have hcondition : (Condition.resolve g r.filterValues "documentFilter").redact =
        (Condition.resolve f q.filterValues "documentFilter").redact := by
      rw [Condition.redact_resolve g _ [], Condition.redact_resolve f _ [], hg]
    rw [hs, ht, Option.any_some, Option.any_some] at hactive
    rw [ht, Option.map_some, Option.map_some, Option.filter_some, Option.filter_some, hactive]
    split
    · rw [Option.map_some, Option.map_some, hcondition]
    · rfl

theorem redact_spaces {q r : Request} (h : q.restrictsSpaces = r.restrictsSpaces) :
    ((q.spaces.filter fun names => !names.isEmpty).map Names.ofList).map (fun _ => ([] : Names)) =
      ((r.spaces.filter fun names => !names.isEmpty).map Names.ofList).map fun _ => [] := by
  have hsome (r : Request) : ((r.spaces.filter fun names => !names.isEmpty).map Names.ofList).map
      (fun _ => ([] : Names)) = if r.restrictsSpaces then some [] else none := by
    unfold Request.restrictsSpaces
    cases r.spaces with
    | none => rfl
    | some names => cases names <;> rfl
  rw [hsome, hsome, h]

theorem missingEdges_eq {s t : Specification} {q r : Request}
    (hrelations : s.relations = t.relations)
    (h : ∀ relation ∈ s.relations, q.misses relation = r.misses relation) :
    (build s q).missingEdges = (build t r).missingEdges := by
  have hmissing (s : Specification) (r : Request) :
      (build s r).missingEdges = Names.ofList (s.relations.filter r.misses) := by
    unfold build Request.misses
    cases r.known with
    | none => simp [Names.ofList]
    | some known => rfl
  rw [hmissing, hmissing, ← hrelations, List.filter_congr h]

/-- Plans for requests alike are the same once redacted. -/
theorem redact_build {dialect : Dialect} {s t : Specification} {q r : Request}
    (hspec : s.Alike dialect t) (h : q.Alike s t r) :
    (build s q).redact dialect = (build t r).redact dialect := by
  have hproperties : s.properties.map Property.redact = t.properties.map Property.redact := by
    simpa using hspec.properties
  have hall : s.allProperties.map Property.redact = t.allProperties.map Property.redact := by
    unfold Specification.allProperties
    rw [← Property.subtrees_redact, hproperties, Property.subtrees_redact]
  have hrelations : s.relations = t.relations := by
    have huris (s : Specification) : s.relations =
        (s.allProperties.map Property.redact).flatMap fun p => p.edgeSteps.map Step.uri := by
      rw [Specification.relations, List.flatMap_map]
      simp [Function.comp_def]
    rw [huris, hall, huris]
  have hroot : (build s q).root.redact dialect = (build t r).root.redact dialect := by
    have hsome := h.root
    unfold build
    cases hq : q.root <;> cases hr : r.root
    · cases dialect with
      | aql => rfl
      | cypher => simp [Root.redact, hspec.rootType rfl]
    · simp [hq, hr] at hsome
    · simp [hq, hr] at hsome
    · rfl
  have haccess : q.access.map (fun _ => AccessFilter.nothing) =
      r.access.map fun _ => AccessFilter.nothing := by
    have hsome := h.access
    cases hq : q.access <;> cases hr : r.access <;> simp_all
  have hpage : effectivePage q = effectivePage r := by
    rw [effectivePage, effectivePage, h.root, h.page]
  have hspaces := redact_spaces h.spaces
  have hdocument := redact_documentFilter hspec.documentFilter h.documentFilter
  have hfilters := redact_propertyFilters hall h.filters
  have hmissing := missingEdges_eq hrelations h.missing
  unfold redact
  congr 1
  · exact congrArg (Specification.mk · none "" none) hproperties
  · exact h.stage

end Plan

/-! ## Texts -/

namespace Specification

/-- The values of clients never reach the text of a statement, nor the names that it binds: they are
the same for all requests alike, for the rows as for their number. -/
theorem texts_eq_of_alike {dialect : Dialect} {s t : Specification} {q r : Request}
    (hspec : s.Alike dialect t) (hrequest : q.Alike s t r) :
    let a := s.compile dialect q
    let b := t.compile dialect r
    a.statement.text = b.statement.text ∧
      a.statement.bindings.keys = b.statement.bindings.keys ∧
      a.count.map Statement.text = b.count.map Statement.text ∧
      a.count.map (·.bindings.keys) = b.count.map (·.bindings.keys) := by
  intro a b
  have hplan := Plan.redact_build hspec hrequest
  -- redaction leaves the page as it is
  have hcount : (Plan.build s q).asCount.redact dialect = (Plan.build t r).asCount.redact dialect :=
    congrArg Plan.asCount hplan
  have hpage : (Plan.build s q).page = (Plan.build t r).page :=
    (congrArg Plan.page hplan :)
  have hwants : (Plan.build s q).wantsCount = (Plan.build t r).wantsCount := by
    rw [Plan.wantsCount, hpage, Plan.wantsCount]
  obtain ⟨htext, hkeys⟩ := Statement.alike_ofPlan hplan q.memory r.memory
  obtain ⟨hcountText, hcountKeys⟩ := Statement.alike_ofPlan hcount q.memory r.memory
  refine ⟨htext, hkeys, ?_, ?_⟩
  -- both requests want a count or none does
  all_goals
    dsimp only [a, b, compile, Plan.compile]
    rw [hwants]
    split
  · exact congrArg some hcountText
  · rfl
  · exact congrArg some hcountKeys
  · rfl

namespace Letters

/-- Asks for the letters that someone of a type and with a name has sent. -/
def sentBy (root type name : String) : Specification where
  properties :=
    [⟨"sender", [⟨"sentBy", false, [type]⟩],
      [⟨"name", [⟨"name", false, []⟩], [], true, false, false, false, none,
        some ⟨.equals, some "who", some name⟩, none, 1⟩],
      false, false, false, false, none, none, none, 0⟩]
  documentFilter := none
  rootType := root
  vocabulary := none

/-- Asks for the first letters in some spaces, and for their number. -/
def letters (spaces : Names) (values : Dictionary String) : Request :=
  { Request.ofStage .released with
    page := some ⟨0, some 10, true⟩
    access := some ⟨spaces, []⟩
    spaces := some spaces
    filterValues := values }

end Letters

open Letters in
/-- Whose letters are looked for, and where, does not show in the statements. -/
theorem texts_eq_letters :
    let a := (sentBy "Letter" "Person" "Ada").compile .aql (letters ["archive"] [])
    let b := (sentBy "Paper" "x\" RETURN 1" "y").compile .aql
      (letters ["library", "shelf"] [("who", "' OR 1 = 1")])
    a.statement.text = b.statement.text ∧ a.count.isSome ∧
      a.count.map Statement.text = b.count.map Statement.text := by
  intro a b
  have hspec : (sentBy "Letter" "Person" "Ada").Alike .aql (sentBy "Paper" "x\" RETURN 1" "y") :=
    ⟨rfl, rfl, by decide⟩
  have hrequest : (letters ["archive"] []).Alike (sentBy "Letter" "Person" "Ada")
      (sentBy "Paper" "x\" RETURN 1" "y")
      (letters ["library", "shelf"] [("who", "' OR 1 = 1")]) :=
    { stage := rfl
      page := rfl
      access := rfl
      spaces := rfl
      root := rfl
      documentFilter := rfl
      filters := by decide +kernel
      missing := fun _ _ => rfl }
  obtain ⟨htext, -, hcount, -⟩ := texts_eq_of_alike hspec hrequest
  exact ⟨htext, rfl, hcount⟩

end Specification

end GraphQuery
