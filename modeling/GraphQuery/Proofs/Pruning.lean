import GraphQuery.Proofs.Isolation

/-!
# GraphQuery.Proofs.Pruning — known collections change no answer

A plan that knows which collections exist takes no hop along a relation without one. Collections are
told apart by their names, and several relations can share a name, so a plan may follow a relation
that has no edges. It never leaves out one that has.

1. **Plans** that leave out only relations without edges have the rows of plans that leave out none.
2. **Queries** are answered as if nothing was known about collections.
-/

namespace GraphQuery

/-! ## Plans -/

/-- A plan that leaves out no relation. -/
def Plan.unpruned (plan : Plan) : Plan := { plan with missingEdges := [] }

theorem Plan.build_of_unknown (spec : Specification) (r : Request) :
    build spec { r with known := none } = (build spec r).unpruned := rfl

theorem Plan.like_unpruned (plan : Plan) : plan.Like plan.unpruned :=
  ⟨rfl, rfl, rfl, rfl, rfl, rfl⟩

section

variable {data : StageData} {plan : Plan}
  (h : ∀ step, plan.edgeExists step = false → ∀ e ∈ data.edges, e.relation ≠ step.uri)

include h

/-- Along a relation that is left out, there is nowhere to go. -/
theorem neighbors_unpruned (step : Step) (ordered : Bool) (doc : Document) :
    neighbors data plan step ordered doc = neighbors data plan.unpruned step ordered doc := by
  rw [neighbors_eq_of_hopEdges, neighbors_eq_of_hopEdges]
  cases hexists : plan.edgeExists step with
  | true => rfl
  | false =>
    -- the other plan follows the relation, but there are no edges
    rw [hopEdges_of_missing (h step hexists)]
    rfl

/-- Leaving out relations without edges changes neither the rows nor the memory that they need. -/
theorem evaluate_unpruned (memory : Option Nat) :
    evaluate data plan memory = evaluate data plan.unpruned memory := by
  have hagree (patterns : Dictionary Pattern) :
      (Evaluator.mk data plan patterns).Agree (Evaluator.mk data plan.unpruned patterns)
        fun _ => True := {
    patterns := rfl
    spec := rfl
    conditions := rfl
    roots := rfl
    seen_root := fun _ _ => trivial
    neighbors := fun doc _ step ordered => neighbors_unpruned h step ordered doc
    seen_neighbor := fun _ _ _ _ _ _ => trivial }
  have hpatterns : plan.unpruned.patterns = plan.patterns := rfl
  unfold evaluate
  rw [hpatterns]
  congr 1
  funext patterns
  rw [Evaluator.buildRows_congr (hagree patterns)]

end

/-! ## Queries -/

/-- A store prepares a query for the collections that it has. It answers as it would without any
knowledge of them: the same rows, the same count, or the same failure, and the same statements are
executed. -/
theorem Store.pruning_invisible (st : Store) (settings : Settings) {q : Query}
    {spec : Specification} (h : q.interpret = .ok spec) (r : Request) :
    let memory := r.memory.or settings.memory
    let pruned := { r with known := some (st.collections r.stage), memory }
    let unknown := { r with known := none, memory }
    st.prepare settings q r = .ok (spec.compile settings.dialect pruned) ∧
      evaluate (st.data r.stage) (Plan.build spec pruned) memory =
        evaluate (st.data r.stage) (Plan.build spec unknown) memory ∧
      st.runQuery settings q r =
        (spec.compile settings.dialect unknown).run (st.backend r.stage) := by
  intro memory pruned unknown
  have hmissing (plan : Plan) (hplan : plan.missingEdges = (Plan.build spec pruned).missingEdges)
      (step : Step) : plan.edgeExists step = false →
        ∀ e ∈ (st.data r.stage).edges, e.relation ≠ step.uri := by
    rw [Plan.edgeExists, hplan]
    exact st.ne_of_missing r.stage spec rfl
  have hrows := evaluate_unpruned (hmissing (Plan.build spec pruned) rfl) memory
  have hcounted := evaluate_unpruned (hmissing (Plan.build spec pruned).asCount rfl) memory
  have hprepare : st.prepare settings q r = .ok (spec.compile settings.dialect pruned) := by
    unfold prepare
    rw [h]
    rfl
  have hunknown : Plan.build spec unknown = (Plan.build spec pruned).unpruned :=
    Plan.build_of_unknown spec pruned
  refine ⟨hprepare, hrows.trans (by rw [hunknown]), ?_⟩
  unfold runQuery
  rw [hprepare]
  exact run_congr_of_rows (Plan.build spec pruned).like_unpruned settings.dialect hrows hcounted

namespace Library

/-- Papers with the names of what they cite, of their reviews, and of their notes. -/
def linked : Query where
  header := some ⟨some (.bare "Paper"), none, none, none⟩
  structured :=
    let names (name relation : String) : Item := ⟨.bare name,
      some (.many [.bare relation, .bare "name"]), none, false, false, false, none, false, none,
      none⟩
    some (.many [names "cited" "cites.paper", names "reviews" "reviews", names "notes" "notes"])

def linkedNames : Specification :=
  let names (name relation : String) (index : Nat) : Property := ⟨name,
    [⟨relation, false, []⟩, ⟨"name", false, []⟩], [], false, false, false, false, none, none, none,
    index⟩
  ⟨[names "cited" "cites.paper" 0, names "reviews" "reviews" 1, names "notes" "notes" 2], none,
    "Paper", none⟩

/-- A paper that cites itself by another relation, which has the same collection as the one that the
query asks for. There is a collection for notes, which is empty. -/
def provisionedShelf : Store :=
  let st := (Store.empty.insert .inProgress Store.Library.paper).link .inProgress
    Store.Library.paper.id "cites/paper" Store.Library.paper.id
  { st with schema := { Schema.empty with
      collections := [(Stage.inProgress.database, .ofRelation "notes")] } }

end Library

open Library in
/-- The plan leaves out reviews alone. -/
theorem Store.pruning_invisible_shelf :
    let r := Request.ofStage .inProgress
    let memory := r.memory.or Settings.default.memory
    let pruned := { r with known := some (provisionedShelf.collections r.stage), memory }
    let unknown := { r with known := none, memory }
    linked.interpret = .ok linkedNames ∧
      ((Plan.build linkedNames pruned).missingEdges = ["reviews"] ∧
        (Plan.build linkedNames unknown).missingEdges = []) ∧
      provisionedShelf.prepare .default linked r =
        .ok (linkedNames.compile Settings.default.dialect pruned) ∧
      evaluate (provisionedShelf.data r.stage) (Plan.build linkedNames pruned) memory =
        evaluate (provisionedShelf.data r.stage) (Plan.build linkedNames unknown) memory ∧
      provisionedShelf.runQuery .default linked r =
        (linkedNames.compile Settings.default.dialect unknown).run
          (provisionedShelf.backend r.stage) := by
  intro r memory pruned unknown
  have hspec : linked.interpret = .ok linkedNames := rfl
  -- which collections there are, in whatever order
  have hknown (relation : String) :
      (provisionedShelf.collections .inProgress).contains (.ofRelation relation) =
        decide ((Collection.nameOf relation).toList ∈ ["cites_paper".toList, "notes".toList]) := by
    have hcollections : Collection.ofRelation relation ∈ provisionedShelf.collections .inProgress ↔
        Collection.ofRelation relation ∈
          [.ofSpace "library", .ofRelation "cites/paper", .ofRelation "notes"] := by
      rw [Store.collections, Collection.mem_setOf, List.mem_append, StageData.collections,
        Collection.mem_setOf, ← List.mem_append]
      rfl
    have hcites : Collection.nameOf "cites/paper" = "cites_paper" := by decide +kernel
    have hnotes : Collection.nameOf "notes" = "notes" := by decide +kernel
    rw [Bool.eq_iff_iff, List.contains_iff_mem, hcollections]
    simp [Collection.ofRelation, Collection.ofSpace, hcites, hnotes, ← String.toList_inj]
  have hmissing : (Plan.build linkedNames pruned).missingEdges = ["reviews"] ∧
      (Plan.build linkedNames unknown).missingEdges = [] := by
    change Names.ofList (linkedNames.relations.filter fun relation =>
      !(provisionedShelf.collections .inProgress).contains (.ofRelation relation)) = _ ∧ _
    simp only [hknown]
    decide +kernel
  have hsame := pruning_invisible provisionedShelf .default hspec r
  exact ⟨hspec, hmissing, hsame⟩

end GraphQuery
