import GraphQuery.Proofs.Documents

/-!
# GraphQuery.Proofs.Links — where a new link stands in an ordered hop

1. **Ranks**: the order number that the next link of a source and a relation gets.
2. **Hops** with a new link: it comes behind the edges whose numbers are at most its own, and before
   the others. The order of these does not change.
3. **Ranked** stages, in which no number is larger than the number of edges it is one of. Changes
   keep a stage ranked, and in a ranked stage a new link comes last.
-/

namespace GraphQuery

/-! ## Ranks -/

namespace StageData

/-- Number of edges that a source has for a relation, which is the number of the next one. -/
def rank (data : StageData) (source : Uuid) (relation : String) : Nat :=
  (data.edges.filter fun e => e.source = source && e.relation == relation).length

/-- A new edge comes last, and its number is the rank of its source and relation. -/
theorem edges_link (data : StageData) (source : Uuid) (relation : String) (target : Uuid) :
    (data.link source relation target).edges =
      data.edges ++ [⟨source, target, relation, data.rank source relation⟩] := rfl

theorem edges_insert (data : StageData) (doc : Document) : (data.insert doc).edges = data.edges := by
  unfold insert
  split <;> rfl

/-- Ranks only grow. -/
theorem rank_le_link (data : StageData) (source s : Uuid) (relation r : String) (target : Uuid) :
    data.rank s r ≤ (data.link source relation target).rank s r := by
  unfold rank
  rw [edges_link, List.filter_append, List.length_append]
  exact Nat.le_add_right _ _

end StageData

/-! ## Hops -/

section Hops

variable {data : StageData} {source target : Uuid} {relation : String} {plan : Plan} {step : Step}
  {doc d : Document}

/-- Where edges lead in a hop of a plan. -/
def hopEnds (data : StageData) (plan : Plan) (step : Step) (edges : List Edge) : List Document :=
  (edges.filterMap fun e => data.get? (if step.reverse then e.source else e.target)).filter fun d =>
    plan.visible d.space d.id && (step.types.isEmpty || d.types.any step.types.contains)

/-- A hop from the source of a relation, forward along it, which the plan does not leave out. -/
structure HopsFrom (plan : Plan) (step : Step) (doc : Document) (source : Uuid) (relation : String) :
    Prop where
  uri : step.uri = relation
  forward : step.reverse = false
  source : doc.id = source
  exists_edge : plan.edgeExists step = true

/-- A hop reaches a document that is stored, visible, and of one of the types that are asked for. -/
structure HopsTo (data : StageData) (plan : Plan) (step : Step) (target : Uuid) (d : Document) :
    Prop where
  stored : data.get? target = some d
  visible : plan.visible d.space d.id = true
  typed : (step.types.isEmpty || d.types.any step.types.contains) = true

/-- Neighbours are the ends of the edges of a hop. -/
theorem neighbors_eq_hopEnds (h : plan.edgeExists step = true) (ordered : Bool) :
    neighbors data plan step ordered doc =
      hopEnds data plan step (hopEdges data step ordered doc) := by
  rw [neighbors_eq_of_hopEdges, if_pos h]
  rfl

theorem hopEnds_append (edges edges' : List Edge) : hopEnds data plan step (edges ++ edges') =
    hopEnds data plan step edges ++ hopEnds data plan step edges' := by
  unfold hopEnds
  rw [List.filterMap_append, List.filter_append]

/-- An edge to a document that may be seen ends there. -/
theorem hopEnds_cons (h : HopsTo data plan step target d)
    (hforward : step.reverse = false) (order : Int) (edges : List Edge) :
    hopEnds data plan step (⟨source, target, relation, order⟩ :: edges) =
      d :: hopEnds data plan step edges := by
  have hkept : (plan.visible d.space d.id &&
      (step.types.isEmpty || d.types.any step.types.contains)) = true := by
    rw [h.visible, h.typed]
    rfl
  unfold hopEnds
  simp only [hforward, Bool.false_eq_true, if_false, List.filterMap_cons, h.stored]
  exact List.filter_cons_of_pos hkept

theorem order_trans (a b c : Edge) (hab : decide (a.order ≤ b.order) = true)
    (hbc : decide (b.order ≤ c.order) = true) : decide (a.order ≤ c.order) = true := by
  simp only [decide_eq_true_eq] at hab hbc ⊢
  exact Int.le_trans hab hbc

theorem order_total (a b : Edge) :
    (decide (a.order ≤ b.order) || decide (b.order ≤ a.order)) = true := by
  simpa using Int.le_total a.order b.order

/-- The edges of an ordered hop with numbers up to some number. -/
def early (data : StageData) (step : Step) (doc : Document) (n : Nat) : List Edge :=
  (hopEdges data step true doc).filter fun e => decide (e.order ≤ n)

/-- The edges of an ordered hop with numbers over some number. -/
def late (data : StageData) (step : Step) (doc : Document) (n : Nat) : List Edge :=
  (hopEdges data step true doc).filter fun e => !decide (e.order ≤ n)

/-- Ordered by numbers, the edges below a number come before the others. -/
theorem hopEdges_eq_early_append_late (data : StageData) (step : Step) (doc : Document) (n : Nat) :
    hopEdges data step true doc = early data step doc n ++ late data step doc n :=
  (Sorting.filter_append_filter_not order_trans ⟨doc.id, doc.id, step.uri, n⟩
    (List.pairwise_mergeSort order_trans order_total _)).symm

/-- A new edge comes after the edges with lower numbers, and before the later ones. -/
theorem hopEdges_link (h : HopsFrom plan step doc source relation) (target : Uuid) :
    let n := data.rank source relation
    hopEdges (data.link source relation target) step true doc =
      early data step doc n ++ ⟨source, target, relation, n⟩ :: late data step doc n := by
  intro n
  have hnew : [(⟨source, target, relation, n⟩ : Edge)].filter (fun e =>
      e.relation == step.uri && (if step.reverse then e.target else e.source) = doc.id) =
      [⟨source, target, relation, n⟩] := by
    simp [h.uri, h.forward, h.source]
  unfold early late hopEdges
  rw [StageData.edges_link, List.filter_append, hnew]
  exact Sorting.mergeSort_concat order_trans order_total _ _

/-- In front of the new link's target are the ends of the edges with numbers up to its own, behind it
those of the others; without the link, these follow each other. -/
theorem neighbors_link (h : HopsFrom plan step doc source relation)
    (hd : HopsTo data plan step target d) :
    let n := data.rank source relation
    neighbors data plan step true doc =
      hopEnds data plan step (early data step doc n) ++
        hopEnds data plan step (late data step doc n) ∧
    neighbors (data.link source relation target) plan step true doc =
      hopEnds data plan step (early data step doc n) ++
        d :: hopEnds data plan step (late data step doc n) := by
  intro n
  rw [neighbors_eq_hopEnds h.exists_edge, neighbors_eq_hopEnds h.exists_edge,
    hopEdges_eq_early_append_late data step doc n, hopEnds_append]
  refine ⟨rfl, ?_⟩
  have hlink : hopEnds (data.link source relation target) plan step = hopEnds data plan step := rfl
  rw [hlink, hopEdges_link h target, hopEnds_append, hopEnds_cons hd h.forward]

end Hops

/-! ## Ranked stages -/

namespace StageData

/-- No order number is larger than the number of edges of its source and relation. -/
def Ranked (data : StageData) : Prop :=
  ∀ e ∈ data.edges, e.order ≤ data.rank e.source e.relation

/-- Inserting a document keeps the numbers below the ranks. -/
theorem Ranked.insert {data : StageData} (h : data.Ranked) (doc : Document) :
    (data.insert doc).Ranked := by
  unfold Ranked rank at h ⊢
  rw [edges_insert]
  exact h

/-- So does linking, as long as numbers are ranks. -/
theorem Ranked.link {data : StageData} (h : data.Ranked) (source : Uuid) (relation : String)
    (target : Uuid) : (data.link source relation target).Ranked := by
  intro e he
  have hrank := data.rank_le_link source e.source relation e.relation target
  rw [edges_link, List.mem_append, List.mem_singleton] at he
  rcases he with hold | rfl
  · have := h e hold
    omega
  · dsimp only at hrank ⊢
    omega

/-- A ranked stage has no late edges. -/
theorem Ranked.late_eq_nil {data : StageData} (h : data.Ranked) {plan : Plan} {step : Step}
    {doc : Document} {source : Uuid} {relation : String}
    (hfrom : HopsFrom plan step doc source relation) :
    late data step doc (data.rank source relation) = [] := by
  unfold late
  rw [List.filter_eq_nil_iff]
  intro e he
  unfold hopEdges at he
  rw [if_pos rfl, List.mem_mergeSort, List.mem_filter] at he
  rcases he with ⟨he, hhop⟩
  simp only [hfrom.forward, hfrom.uri, hfrom.source, Bool.and_eq_true, beq_iff_eq,
    decide_eq_true_eq, Bool.false_eq_true, if_false] at hhop
  have horder := h e he
  rw [hhop.1, hhop.2] at horder
  simpa using horder

end StageData

/-- The data of a stage in a fixture. If the stage is named twice, its last data count. -/
def Fixture.stageData (f : Fixture) (stage : Stage) : StageData :=
  (f.stages.reverse.lookup stage).getD .empty

theorem Store.ranked_change {st : Store} {stage : Stage} (h : (st.data stage).Ranked) (c : Change) :
    ((st.change c).data stage).Ranked := by
  cases c with
  | insert s doc =>
    by_cases hs : stage = s
    · subst hs
      simpa [change, Store.insert] using h.insert doc
    · simpa [change, Store.insert, hs] using h
  | link s source relation target =>
    by_cases hs : stage = s
    · subst hs
      simpa [change, Store.link] using h.link source relation target
    · simpa [change, Store.link, hs] using h

/-- So do any changes. -/
theorem Store.ranked_changeAll {st : Store} {stage : Stage} (h : (st.data stage).Ranked)
    (changes : List Change) : ((st.changeAll changes).data stage).Ranked := by
  induction changes generalizing st with
  | nil => exact h
  | cons c rest ih => exact ih (ranked_change h c)

/-- A store was loaded from a fixture and then changed. A link that is added to it stands, in an
ordered hop from its source, behind the earlier edges with order numbers up to the number of these
edges, and before the others; the order of the earlier ones stays as it was. There are no others,
so that the new link comes last, if in the fixture no order number is larger than the number of
edges of its source and relation. -/
theorem Store.new_link_by_rank {f : Fixture} {st : Store} (h : f.store = .ok st)
    (changes : List Change) (stage : Stage) (source : Uuid) (relation : String) (target : Uuid) :
    let before := st.changeAll changes
    let data := before.data stage
    let linked := (before.link stage source relation target).data stage
    let n := data.rank source relation
    ∀ plan step doc d, HopsFrom plan step doc source relation → HopsTo data plan step target d →
      let front := hopEnds data plan step (early data step doc n)
      let back := hopEnds data plan step (late data step doc n)
      neighbors data plan step true doc = front ++ back ∧
      neighbors linked plan step true doc = front ++ d :: back ∧
      ((f.stageData stage).Ranked → back = []) := by
  intro before data linked n plan step doc d hfrom hto front back
  have hlinked : linked = data.link source relation target := by
    change (before.link stage source relation target).data stage = _
    unfold link
    rw [data_setData, if_pos rfl]
  rw [hlinked]
  rcases neighbors_link hfrom hto with ⟨hbefore, hafter⟩
  refine ⟨hbefore, hafter, fun hranked => ?_⟩
  unfold Fixture.stageData at hranked
  rw [← Fixture.data_store h stage] at hranked
  have hnone : late data step doc n = [] := (ranked_changeAll hranked changes).late_eq_nil hfrom
  change hopEnds data plan step (late data step doc n) = []
  rw [hnone]
  rfl

/-- A paper cites two others, and the number of one citation is larger than that of the next one. -/
def Fixture.renumbered : Fixture where
  stages := [(.inProgress, ⟨[⟨⟨1⟩, "shelf", ["Paper"], none, []⟩,
    ⟨⟨2⟩, "shelf", ["Paper"], none, []⟩, ⟨⟨3⟩, "shelf", ["Paper"], none, []⟩],
    [⟨⟨1⟩, ⟨2⟩, "cites", 5⟩, ⟨⟨1⟩, ⟨3⟩, "cites", 0⟩]⟩)]
  scopeQueries := []
  excluded := []
  relevant := none

theorem Store.new_link_by_rank_renumbered :
    ∃ st, Fixture.renumbered.store = .ok st ∧
      let added : Document := ⟨⟨4⟩, "shelf", ["Paper"], none, []⟩
      let paper : Document := ⟨⟨1⟩, "shelf", ["Paper"], none, []⟩
      let plan := Plan.build ⟨[], none, "Paper", none⟩ (Request.ofStage .inProgress)
      let step : Step := ⟨"cites", false, []⟩
      let before := st.changeAll [.insert .inProgress added]
      let linked := before.link .inProgress ⟨1⟩ "cites" ⟨4⟩
      HopsFrom plan step paper ⟨1⟩ "cites" ∧ HopsTo (before.data .inProgress) plan step ⟨4⟩ added ∧
      (neighbors (before.data .inProgress) plan step true paper).map Document.id = [⟨3⟩, ⟨2⟩] ∧
      (neighbors (linked.data .inProgress) plan step true paper).map Document.id =
        [⟨3⟩, ⟨4⟩, ⟨2⟩] := by
  refine ⟨_, rfl, ?_⟩
  intro added paper plan step before linked
  have hfrom : HopsFrom plan step paper ⟨1⟩ "cites" := ⟨rfl, rfl, rfl, by decide⟩
  have hto : HopsTo (before.data .inProgress) plan step ⟨4⟩ added :=
    ⟨rfl, by decide, by decide⟩
  have hhop : hopEdges (before.data .inProgress) step true paper =
      [⟨⟨1⟩, ⟨3⟩, "cites", 0⟩, ⟨⟨1⟩, ⟨2⟩, "cites", 5⟩] := by
    unfold hopEdges
    rw [if_pos rfl, Sorting.mergeSort_eq_insertionSort (r := fun a b : Edge => a.order ≤ b.order)
      (fun _ _ _ => Int.le_trans) fun a b => Int.le_total a.order b.order]
    decide +kernel
  rcases new_link_by_rank (f := Fixture.renumbered) rfl [.insert .inProgress added] .inProgress ⟨1⟩
    "cites" ⟨4⟩ plan step paper added hfrom hto with ⟨hbefore, hafter, _⟩
  refine ⟨hfrom, hto, ?_, ?_⟩
  · rw [hbefore]
    unfold early late
    rw [hhop]
    decide +kernel
  · rw [hafter]
    unfold early late
    rw [hhop]
    decide +kernel

end GraphQuery
