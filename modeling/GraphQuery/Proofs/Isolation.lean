import GraphQuery.Proofs.Access
import GraphQuery.Proofs.Agreement
import GraphQuery.Proofs.AqlScripts
import GraphQuery.Proofs.CypherScripts
import GraphQuery.Proofs.Sorting
import GraphQuery.Session
import Mathlib.Data.List.Nodup

/-!
# GraphQuery.Proofs.Isolation — what a user cannot read does not matter

Two stores that hold the same readable documents, and the same edges between them, answer a user
alike, whatever else they hold.

1. **Views**: the part of a stage that a reader can see.
2. **Lookups** of documents that are shown depend on the view alone.
3. **Hops** depend on the view alone: edges that touch anything else lead nowhere.
4. **Evaluations** of plans that let the same documents take part agree on the view.
5. **Runs** on two stores give the same stream.
6. **Queries** give the same page, or the same error.
-/

namespace GraphQuery

/-! ## Views -/

namespace StageData

variable (shown : Document → Bool)

/-- Whether the stage has a document with the id that is shown. -/
def showsId (data : StageData) (id : Uuid) : Bool :=
  data.documents.any fun d => d.id = id && shown d

/-- Whether both ends of an edge are documents that are shown. -/
def joinsShown (data : StageData) (e : Edge) : Bool :=
  data.showsId shown e.source && data.showsId shown e.target

/-- Two stages hold the same as far as documents are shown: the same of these documents, and the
same edges between them, both in the same order. -/
structure SameView (a b : StageData) : Prop where
  documents : a.documents.filter shown = b.documents.filter shown
  edges : a.edges.filter (a.joinsShown shown) = b.edges.filter (b.joinsShown shown)

/-- No two documents of a stage have one id. -/
def DistinctIds (data : StageData) : Prop := (data.documents.map Document.id).Nodup

instance (data : StageData) : Decidable data.DistinctIds :=
  inferInstanceAs (Decidable (data.documents.map Document.id).Nodup)

variable {shown} {a b data : StageData}

/-! ## Lookups -/

theorem get?_eq_some_iff (h : data.DistinctIds) {id : Uuid} {d : Document} :
    data.get? id = some d ↔ d ∈ data.documents ∧ d.id = id := by
  unfold get?
  constructor
  · intro hfind
    have hmem := List.mem_of_find?_eq_some hfind
    have hid := List.find?_some hfind
    exact ⟨by simpa using hmem, by simpa using hid⟩
  · -- some document with this id is found, and ids are distinct
    rintro ⟨hmem, rfl⟩
    cases hfind : data.documents.reverse.find? fun doc => doc.id = d.id with
    | none =>
      have hnot := List.find?_eq_none.mp hfind d (by simpa using hmem)
      simp at hnot
    | some d' =>
      have hmem' : d' ∈ data.documents := by simpa using List.mem_of_find?_eq_some hfind
      have hid : d'.id = d.id := by simpa using List.find?_some hfind
      rw [List.inj_on_of_nodup_map h hmem' hmem hid]

theorem filter_get?_eq_some_iff (h : data.DistinctIds) {id : Uuid} {d : Document} :
    (data.get? id).filter shown = some d ↔ d ∈ data.documents.filter shown ∧ d.id = id := by
  rw [Option.filter_eq_some_iff, get?_eq_some_iff h, List.mem_filter]
  constructor
  · rintro ⟨⟨hmem, hid⟩, hshown⟩
    exact ⟨⟨hmem, hshown⟩, hid⟩
  · rintro ⟨⟨hmem, hshown⟩, hid⟩
    exact ⟨⟨hmem, hid⟩, hshown⟩

/-- A lookup that gives a shown document gives the same in both stages. -/
theorem SameView.filter_get? (h : SameView shown a b) (ha : a.DistinctIds) (hb : b.DistinctIds)
    (id : Uuid) : (a.get? id).filter shown = (b.get? id).filter shown := by
  ext d
  rw [filter_get?_eq_some_iff ha, filter_get?_eq_some_iff hb, h.documents]

theorem showsId_iff (h : data.DistinctIds) {id : Uuid} :
    data.showsId shown id = true ↔ ((data.get? id).filter shown).isSome = true := by
  rw [Option.isSome_iff_exists, showsId, List.any_eq_true]
  -- a shown document with the id is the one that a lookup gives
  constructor
  · rintro ⟨d, hmem, hd⟩
    obtain ⟨hid, hshown⟩ : d.id = id ∧ shown d = true := by simpa using hd
    exact ⟨d, (filter_get?_eq_some_iff h).mpr ⟨List.mem_filter.mpr ⟨hmem, hshown⟩, hid⟩⟩
  · rintro ⟨d, hd⟩
    rcases (filter_get?_eq_some_iff h).mp hd with ⟨hmem, hid⟩
    rcases List.mem_filter.mp hmem with ⟨hmem, hshown⟩
    exact ⟨d, hmem, by simp [hid, hshown]⟩

end StageData

/-! ## Hops -/

/-- What a hop goes by: the edges of the step at a document, in order if that counts. -/
def hopEdges (data : StageData) (step : Step) (ordered : Bool) (doc : Document) : List Edge :=
  let edges := data.edges.filter fun e =>
    e.relation == step.uri && (if step.reverse then e.target else e.source) = doc.id
  if ordered then edges.mergeSort fun a b => decide (a.order ≤ b.order) else edges

/-- Where a hop along stored edges leads, unless the plan leaves the relation out. -/
theorem neighbors_eq_of_hopEdges (data : StageData) (plan : Plan) (step : Step) (ordered : Bool)
    (doc : Document) : neighbors data plan step ordered doc =
      if plan.edgeExists step then
        ((hopEdges data step ordered doc).filterMap fun e =>
          data.get? (if step.reverse then e.source else e.target)).filter fun d =>
            plan.visible d.space d.id && (step.types.isEmpty || d.types.any step.types.contains)
      else [] := by
  unfold neighbors
  cases plan.edgeExists step <;> rfl

/-- A plan sees a stage: it leaves out only relations that the stage has no edges of, and lets
exactly the documents that are shown take part. -/
structure Plan.Sees (plan : Plan) (shown : Document → Bool) (data : StageData) : Prop where
  visible : ∀ d ∈ data.documents, plan.visible d.space d.id = shown d
  missing : ∀ step, plan.edgeExists step = false → ∀ e ∈ data.edges, e.relation ≠ step.uri

section

variable {shown : Document → Bool} {data : StageData} {plan : Plan}

theorem hopEdges_of_missing {step : Step} (h : ∀ e ∈ data.edges, e.relation ≠ step.uri)
    (ordered : Bool) (doc : Document) : hopEdges data step ordered doc = [] := by
  have hnone : (data.edges.filter fun e =>
      e.relation == step.uri && (if step.reverse then e.target else e.source) = doc.id) = [] := by
    rw [List.filter_eq_nil_iff]
    intro e he
    simp [h e he]
  unfold hopEdges
  rw [hnone]
  -- sorting no edges gives none
  cases ordered <;> simp

/-- Leaving out edges before they are ordered makes no difference. -/
theorem filter_hopEdges (p : Edge → Bool) (step : Step) (ordered : Bool) (doc : Document) :
    (hopEdges data step ordered doc).filter p =
      hopEdges { data with edges := data.edges.filter p } step ordered doc := by
  have hcomm (q : Edge → Bool) : (data.edges.filter q).filter p = (data.edges.filter p).filter q := by
    rw [List.filter_filter, List.filter_filter]
    congr 1
    funext e
    exact Bool.and_comm _ _
  unfold hopEdges
  dsimp only
  cases ordered with
  | false => simp [hcomm]
  | true =>
    -- a stable sort commutes with the selection
    rw [if_pos rfl, if_pos rfl, Sorting.filter_mergeSort, hcomm]
    · intro a b c hab hbc
      simp only [decide_eq_true_eq] at hab hbc ⊢
      exact Int.le_trans hab hbc
    · intro a b
      simpa using Int.le_total a.order b.order

/-- Neighbours, by lookups that give shown documents only. -/
theorem neighbors_eq (hsees : plan.Sees shown data) (step : Step) (ordered : Bool)
    (doc : Document) : neighbors data plan step ordered doc =
      (hopEdges data step ordered doc).filterMap fun e =>
        ((data.get? (if step.reverse then e.source else e.target)).filter shown).filter fun d =>
          step.types.isEmpty || d.types.any step.types.contains := by
  rw [neighbors_eq_of_hopEdges]
  cases hexists : plan.edgeExists step with
  | false =>
    -- the plan leaves the relation out, and the stage has no edge of it
    rw [hopEdges_of_missing (hsees.missing step hexists), List.filterMap_nil]
    rfl
  | true =>
    rw [if_pos rfl, List.filter_filterMap]
    apply List.filterMap_congr
    intro e _
    -- the plan lets the document at the other end take part if it is shown
    cases hget : data.get? (if step.reverse then e.source else e.target) with
    | none => rfl
    | some d =>
      have hmem : d ∈ data.documents := by
        simpa using List.mem_of_find?_eq_some hget
      rw [Option.filter_some, hsees.visible d hmem, Option.filter_some]
      by_cases hshown : shown d = true <;> simp [hshown, Option.filter_some]

/-- An edge that a hop goes by joins shown documents, if the document at its other end is shown. -/
theorem joinsShown_of_mem_hopEdges (h : data.DistinctIds) {step : Step} {ordered : Bool}
    {doc : Document} (hmem : doc ∈ data.documents) (hshown : shown doc = true) {e : Edge}
    (he : e ∈ hopEdges data step ordered doc)
    (hend : ((data.get? (if step.reverse then e.source else e.target)).filter shown).isSome) :
    data.joinsShown shown e = true := by
  have he : e ∈ data.edges.filter fun e =>
      e.relation == step.uri && (if step.reverse then e.target else e.source) = doc.id := by
    unfold hopEdges at he
    dsimp only at he
    split at he
    · exact List.mem_mergeSort.mp he
    · exact he
  -- the near end is the document itself
  have hnear : (if step.reverse then e.target else e.source) = doc.id := by
    have hstep := (List.mem_filter.mp he).2
    simp only [Bool.and_eq_true, decide_eq_true_eq] at hstep
    exact hstep.2
  -- the far end is shown by assumption
  have hfar := (StageData.showsId_iff h).mpr hend
  have hdoc : data.showsId shown (if step.reverse then e.target else e.source) = true := by
    rw [hnear, StageData.showsId, List.any_eq_true]
    exact ⟨doc, hmem, by simp [hshown]⟩
  unfold StageData.joinsShown
  cases hreverse : step.reverse with
  | true => simp_all
  | false => simp_all

/-- Neighbours of a shown document, by the edges between shown documents alone. -/
theorem neighbors_eq_of_shown (hsees : plan.Sees shown data) (h : data.DistinctIds) (step : Step)
    (ordered : Bool) {doc : Document} (hmem : doc ∈ data.documents) (hshown : shown doc = true) :
    neighbors data plan step ordered doc =
      (hopEdges { data with edges := data.edges.filter (data.joinsShown shown) } step ordered
        doc).filterMap fun e =>
          ((data.get? (if step.reverse then e.source else e.target)).filter shown).filter fun d =>
            step.types.isEmpty || d.types.any step.types.contains := by
  rw [neighbors_eq hsees, ← filter_hopEdges, List.filterMap_filter]
  apply List.filterMap_congr
  intro e he
  by_cases hjoins : data.joinsShown shown e = true
  · rw [if_pos hjoins]
  · -- the edge touches something that is not shown, so it leads nowhere
    rw [if_neg hjoins]
    have hnone : ¬ ((data.get? (if step.reverse then e.source else e.target)).filter
        shown).isSome = true := fun hend =>
      hjoins (joinsShown_of_mem_hopEdges h hmem hshown he hend)
    rw [Option.not_isSome_iff_eq_none] at hnone
    rw [hnone, Option.filter_none]

theorem shown_of_mem_neighbors (hsees : plan.Sees shown data) {step : Step} {ordered : Bool}
    {doc t : Document} (ht : t ∈ neighbors data plan step ordered doc) :
    t ∈ data.documents.filter shown := by
  rw [neighbors_eq hsees] at ht
  rcases List.mem_filterMap.mp ht with ⟨e, -, he⟩
  rcases Option.filter_eq_some_iff.mp he with ⟨hfar, -⟩
  rcases Option.filter_eq_some_iff.mp hfar with ⟨hget, hshown⟩
  exact List.mem_filter.mpr ⟨by simpa using List.mem_of_find?_eq_some hget, hshown⟩

end

/-! ## Evaluations -/

/-- Plans for the same work, but not necessarily on the same documents. -/
structure Plan.Like (p q : Plan) : Prop where
  spec : p.spec = q.spec
  root : p.root = q.root
  documentFilter : p.documentFilter = q.documentFilter
  propertyFilters : p.propertyFilters = q.propertyFilters
  page : p.page = q.page
  countOnly : p.countOnly = q.countOnly

theorem Plan.Like.asCount {p q : Plan} (h : p.Like q) : p.asCount.Like q.asCount :=
  ⟨h.spec, h.root, h.documentFilter, h.propertyFilters, rfl, rfl⟩

section

variable {shown : Document → Bool} {a b data : StageData} {plan plan' : Plan}

/-- Whether a document fulfils the filter on roots. -/
def meetsFilter (patterns : Dictionary Pattern) (plan : Plan) (d : Document) : Bool :=
  plan.documentFilter.all (·.accepts patterns (d.valueOf "@id"))

/-- Roots are chosen among the documents that are shown. -/
theorem roots_eq (hsees : plan.Sees shown data) (patterns : Dictionary Pattern) :
    (Evaluator.candidates data plan.root).filter (Evaluator.mk data plan patterns).admitsRoot =
      match plan.root with
      | .ofType type =>
        ((data.documents.filter shown).filter (·.hasType type)).filter (meetsFilter patterns plan)
      | .document id =>
        (((data.get? id.uuid).filter shown).toList.filter fun d => d.space == id.space).filter
          (meetsFilter patterns plan) := by
  -- of stored documents, a plan admits those that are shown and meet the filter
  have hadmits : ∀ d ∈ data.documents, (Evaluator.mk data plan patterns).admitsRoot d =
      (shown d && meetsFilter patterns plan d) := by
    intro d hd
    rw [Evaluator.admitsRoot, hsees.visible d hd]
    rfl
  cases plan.root with
  | ofType type =>
    -- all documents of the type are candidates
    dsimp only [Evaluator.candidates]
    rw [List.filter_filter, List.filter_filter, List.filter_filter]
    apply List.filter_congr
    intro d hd
    rw [hadmits d hd]
    cases shown d <;> cases d.hasType type <;> simp
  | document id =>
    -- the only candidate is the document with the id
    dsimp only [Evaluator.candidates]
    cases hget : data.get? id.uuid with
    | none => rfl
    | some d =>
      have hd : d ∈ data.documents := by simpa using List.mem_of_find?_eq_some hget
      rw [List.filter_filter, Option.filter_some]
      cases hshown : shown d with
      | false => simp [hadmits d hd, hshown]
      | true =>
        by_cases hspace : d.space = id.space <;> simp [List.filter_cons, hadmits d hd, hshown, hspace]

/-- On data that look alike, plans for the same work select and follow the same. -/
theorem agree (hview : StageData.SameView shown a b) (ha : a.DistinctIds) (hb : b.DistinctIds)
    (hlike : plan.Like plan') (hplan : plan.Sees shown a) (hplan' : plan'.Sees shown b)
    (patterns : Dictionary Pattern) :
    (Evaluator.mk a plan patterns).Agree (Evaluator.mk b plan' patterns)
      fun d => d ∈ a.documents.filter shown where
  patterns := rfl
  spec := hlike.spec
  conditions := hlike.propertyFilters
  roots := by
    have hfilter : meetsFilter patterns plan = meetsFilter patterns plan' := by
      unfold meetsFilter
      rw [hlike.documentFilter]
    dsimp only
    rw [roots_eq hplan, roots_eq hplan', ← hlike.root, hfilter, hview.documents]
    cases plan.root with
    | ofType type => rfl
    | document id =>
      dsimp only
      rw [hview.filter_get? ha hb]
  seen_root := by
    intro d hd
    dsimp only at hd
    rw [roots_eq hplan] at hd
    cases hroot : plan.root with
    | ofType type =>
      rw [hroot] at hd
      exact (List.mem_filter.mp (List.mem_filter.mp hd).1).1
    | document id =>
      rw [hroot] at hd
      have hmem := (List.mem_filter.mp (List.mem_filter.mp hd).1).1
      exact ((StageData.filter_get?_eq_some_iff ha).mp (Option.mem_toList.mp hmem)).1
  neighbors := by
    intro d hd step ordered
    rcases List.mem_filter.mp hd with ⟨hmem, hshown⟩
    -- the document is shown in both stages
    rcases List.mem_filter.mp (hview.documents ▸ hd) with ⟨hmem', -⟩
    dsimp only
    rw [neighbors_eq_of_shown hplan ha step ordered hmem hshown,
      neighbors_eq_of_shown hplan' hb step ordered hmem' hshown, hview.edges]
    apply List.filterMap_congr
    intro e _
    rw [hview.filter_get? ha hb]
  seen_neighbor := fun d _ step ordered t ht => shown_of_mem_neighbors hplan ht

/-- Evaluations on data that look alike give the same rows, or fail alike. -/
theorem evaluate_congr (hview : StageData.SameView shown a b) (ha : a.DistinctIds)
    (hb : b.DistinctIds) (hlike : plan.Like plan') (hplan : plan.Sees shown a)
    (hplan' : plan'.Sees shown b) (memory : Option Nat) :
    evaluate a plan memory = evaluate b plan' memory := by
  have hpatterns : plan.patterns = plan'.patterns := by
    unfold Plan.patterns Plan.conditions
    rw [hlike.propertyFilters, hlike.documentFilter]
  unfold evaluate
  rw [hpatterns]
  -- the patterns are the same; what remains are the rows and the memory they need
  congr 1
  funext patterns
  rw [Evaluator.buildRows_congr (agree hview ha hb hlike hplan hplan' patterns)]

end

/-! ## Runs -/

theorem Plan.Sees.asCount {plan : Plan} {shown : Document → Bool} {data : StageData}
    (h : plan.Sees shown data) : plan.asCount.Sees shown data := ⟨h.visible, h.missing⟩

/-- The options of a statement depend on the page of its plan, not on what it selects. -/
theorem Statement.options_ofPlan_congr (dialect : Dialect) (memory : Option Nat) {p q : Plan}
    (h : p.Like q) : (ofPlan dialect memory p).options = (ofPlan dialect memory q).options := by
  cases dialect with
  | aql =>
    have hp := Aql.options_script .atSign p
    have hq := Aql.options_script .atSign q
    rw [h.page, h.countOnly] at hp
    exact hp.trans hq.symm
  | cypher =>
    have hp := Cypher.options_script .dollar p
    have hq := Cypher.options_script .dollar q
    rw [h.page, h.countOnly] at hp
    exact hp.trans hq.symm

namespace Store

variable {x y : Store} {stage : Stage} {shown : Document → Bool} {p q : Plan}

/-- Statements for the same work give the same cursor if their plans have the same rows. -/
theorem backend_congr (hlike : p.Like q) (dialect : Dialect) {memory : Option Nat}
    (hrows : evaluate (x.data stage) p memory = evaluate (y.data stage) q memory) :
    x.backend stage (.ofPlan dialect memory p) = y.backend stage (.ofPlan dialect memory q) := by
  have hoptions := Statement.options_ofPlan_congr dialect memory hlike
  have hpage : (Statement.ofPlan dialect memory p).plan.page =
      (Statement.ofPlan dialect memory q).plan.page := hlike.page
  have hcount : (Statement.ofPlan dialect memory p).isCount =
      (Statement.ofPlan dialect memory q).isCount := hlike.countOnly
  unfold backend
  rw [hoptions, hpage, hcount]
  exact congrArg (· >>= _) hrows

/-- Plans for the same work run alike if they have the same rows, and the same rows to count. -/
theorem run_congr_of_rows (hlike : p.Like q) (dialect : Dialect) {memory : Option Nat}
    (hrows : evaluate (x.data stage) p memory = evaluate (y.data stage) q memory)
    (hcounted : evaluate (x.data stage) p.asCount memory =
      evaluate (y.data stage) q.asCount memory) :
    (p.compile dialect memory).run (x.backend stage) =
      (q.compile dialect memory).run (y.backend stage) := by
  have hpage : (Statement.ofPlan dialect memory p).plan.page =
      (Statement.ofPlan dialect memory q).plan.page := hlike.page
  -- the rows
  have hmain : openStream (x.backend stage) (.ofPlan dialect memory p) =
      openStream (y.backend stage) (.ofPlan dialect memory q) := by
    unfold openStream
    rw [backend_congr hlike dialect hrows, hpage]
  -- the count, which is only taken if the page wants it
  have hcount : runCount (x.backend stage) (.ofPlan dialect memory p.asCount) =
      runCount (y.backend stage) (.ofPlan dialect memory q.asCount) := by
    unfold runCount
    rw [backend_congr hlike.asCount dialect hcounted]
  have hwants : p.wantsCount = q.wantsCount := by
    unfold Plan.wantsCount
    rw [hlike.page]
  unfold Compiled.run Plan.compile
  rw [hwants]
  dsimp only
  rw [hmain]
  cases (openStream (y.backend stage) (Statement.ofPlan dialect memory q)).result with
  | error e => rfl
  | ok stream =>
    cases q.wantsCount with
    | false => rfl
    | true => simp only [if_true, hcount]

/-- Plans for the same work run alike on stores that look alike. -/
theorem run_congr (hview : StageData.SameView shown (x.data stage) (y.data stage))
    (hx : (x.data stage).DistinctIds) (hy : (y.data stage).DistinctIds) (hlike : p.Like q)
    (hp : p.Sees shown (x.data stage)) (hq : q.Sees shown (y.data stage)) (dialect : Dialect)
    (memory : Option Nat) :
    (p.compile dialect memory).run (x.backend stage) =
      (q.compile dialect memory).run (y.backend stage) :=
  run_congr_of_rows hlike dialect (evaluate_congr hview hx hy hlike hp hq memory)
    (evaluate_congr hview hx hy hlike.asCount hp.asCount hq.asCount memory)

end Store

/-! ## Queries -/

theorem Plan.like_build (spec : Specification) {r r' : Request} (hroot : r.root = r'.root)
    (hvalues : r.filterValues = r'.filterValues) (hpage : r.page = r'.page) :
    (build spec r).Like (build spec r') := by
  constructor <;> simp [build, effectivePage, hroot, hvalues, hpage]

/-- No edge is stored of a relation that the collections of its store leave out. -/
theorem Store.ne_of_missing (st : Store) (stage : Stage) (spec : Specification) {r : Request}
    (hknown : r.known = some (st.collections stage)) {step : Step}
    (hmissing : (Plan.build spec r).edgeExists step = false) :
    ∀ e ∈ (st.data stage).edges, e.relation ≠ step.uri := by
  intro e he heq
  have hcollections : ∀ known, r.known = some known → (st.data stage).collections ⊆ known := by
    intro known hr c hc
    rw [hknown] at hr
    cases hr
    rw [Store.collections, Collection.mem_setOf]
    exact List.mem_append_left _ hc
  have hfollowed := Plan.not_mem_missingEdges hcollections spec he
  rw [heq] at hfollowed
  exact hfollowed (by simpa [Plan.edgeExists] using hmissing)

/-- The plan of a submission sees what the submission shows. -/
theorem Submission.sees_build (s : Submission) (u : User) (st : Store) (spec : Specification)
    {r : Request} (hknown : r.known = some (st.collections s.stage))
    (haccess : r.access = AccessFilter.resolve u s.stage (st.data s.stage).spaces s.spaces)
    (hspaces : r.spaces = if s.spaces.isEmpty then none else some s.spaces) :
    (Plan.build spec r).Sees (s.shows u) (st.data s.stage) :=
  ⟨fun _ hd => s.visible_eq_shows u hd spec haccess hspaces,
    fun _ hmissing => st.ne_of_missing s.stage spec hknown hmissing⟩

namespace Store

variable {x y : Store} {s : Submission} {u : User}

theorem runQuery_congr (settings : Settings) (q : Query)
    (hview : StageData.SameView (s.shows u) (x.data s.stage) (y.data s.stage))
    (hx : (x.data s.stage).DistinctIds) (hy : (y.data s.stage).DistinctIds) :
    x.runQuery settings q
        (s.request (AccessFilter.resolve u s.stage (x.data s.stage).spaces s.spaces)) =
      y.runQuery settings q
        (s.request (AccessFilter.resolve u s.stage (y.data s.stage).spaces s.spaces)) := by
  unfold runQuery prepare
  cases q.interpret with
  | error fault => rfl
  | ok spec =>
    exact run_congr hview hx hy (Plan.like_build spec (by rfl) (by rfl) (by rfl))
      (s.sees_build u x spec (by rfl) (by rfl) (by rfl))
      (s.sees_build u y spec (by rfl) (by rfl) (by rfl)) settings.dialect _

/-- A submission is refused for what the user may read, not for what is stored. -/
theorem access_congr (s : Submission) (u : User) (names names' : Names) :
    (∃ e, s.access (some u) names = .error e ∧ s.access (some u) names' = .error e) ∨
      s.access (some u) names = .ok (AccessFilter.resolve u s.stage names s.spaces) ∧
        s.access (some u) names' = .ok (AccessFilter.resolve u s.stage names' s.spaces) := by
  simp only [Submission.access_of_user]
  by_cases hspaces : s.spaces = []
  · -- no space is requested: nothing is refused
    right
    simp [hspaces]
  · have hne : s.spaces.isEmpty = false := by simpa using hspaces
    -- both filters are empty, or none is: the user decides, not the stage
    have hnames := s.resolve_isEmpty_iff u names hspaces
    have hnames' := s.resolve_isEmpty_iff u names' hspaces
    by_cases hrefused : s.Refused u
    · left
      simp [hne, hnames, hnames', hrefused]
    · right
      simp [hne, hnames, hnames', hrefused]

theorem answer_congr (settings : Settings)
    (hview : StageData.SameView (s.shows u) (x.data s.stage) (y.data s.stage))
    (hx : (x.data s.stage).DistinctIds) (hy : (y.data s.stage).DistinctIds) :
    x.answer settings (some u) s = y.answer settings (some u) s := by
  unfold answer
  cases Query.ofValue s.payload with
  | error fault => rfl
  | ok q =>
    simp only [mapError_ok, bind, Except.bind]
    rcases access_congr s u (x.data s.stage).spaces (y.data s.stage).spaces with
      ⟨e, hx', hy'⟩ | ⟨hx', hy'⟩
    · -- refused in both stores
      rw [hx', hy']
    · rw [hx', hy']
      simp only [pure, Except.pure]
      rw [runQuery_congr settings q hview hx hy]

end Store

/-- Read isolation. Two sessions whose stores hold the same readable documents of a stage and the
same edges between them answer a user's query with the same page, or fail alike, whatever else the
stage holds. -/
theorem Session.query_eq_of_sameView (settings : Settings) (u : User) (s : Submission)
    (x y : Session) (hx : (x.store.data s.stage).DistinctIds)
    (hy : (y.store.data s.stage).DistinctIds)
    (hview : StageData.SameView (s.shows u) (x.store.data s.stage) (y.store.data s.stage)) :
    (x.query settings (some u) s).1 = (y.query settings (some u) s).1 := by
  have hanswer := Store.answer_congr settings hview hx hy
  unfold query openStream
  dsimp only
  rw [hanswer]
  cases (y.store.answer settings (some u) s).result <;> rfl

open Store.Library in
/-- A letter in the archive that cites the paper of the library, or a note of the paper that leads
nowhere: the visitor of the library cannot tell. -/
theorem Session.query_eq_library :
    let x := ofStore (shelf.link .inProgress letter.id "cites" paper.id)
    let y := ofStore ((Store.empty.insert .inProgress paper).link .inProgress paper.id "notes" ⟨3⟩)
    (x.store.data .inProgress).DistinctIds ∧ (y.store.data .inProgress).DistinctIds ∧
      StageData.SameView ((visit []).shows visitor) (x.store.data .inProgress)
        (y.store.data .inProgress) ∧
      (x.query .default (some visitor) (visit [])).1 = (y.query .default (some visitor) (visit [])).1 := by
  intro x y
  have hx : (x.store.data .inProgress).DistinctIds := by decide
  have hy : (y.store.data .inProgress).DistinctIds := by decide
  -- the letter is hidden, and with it its edge; the note is not stored, so its edge joins nothing
  have hview : StageData.SameView ((visit []).shows visitor) (x.store.data .inProgress)
      (y.store.data .inProgress) := ⟨rfl, rfl⟩
  exact ⟨hx, hy, hview, query_eq_of_sameView .default visitor (visit []) x y hx hy hview⟩

end GraphQuery
