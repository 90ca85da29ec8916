import GraphQuery.Proofs.Failure
import GraphQuery.Proofs.Reports

/-!
# GraphQuery.Proofs.Discovery — what the queries of an instance give

1. **Reading** steps of a walk claim nothing: they give an answer and count statements.
2. **Rows** of a query on one instance are the rows of its plan. An instance that is not stored has
   none.
3. **Findings** for an element: what its queries report below it.
4. **Reports** for an element, said row by row, are exactly what is found.
-/

namespace GraphQuery

open Json

/-- The answers of steps that all succeed are those of the items, in their order. -/
theorem mem_of_mapM_ok {ε α β : Type} {f : α → Except ε β} {xs : List α} {ys : List β}
    (h : xs.mapM f = .ok ys) {y : β} : y ∈ ys ↔ ∃ x ∈ xs, f x = .ok y := by
  induction xs generalizing ys with
  | nil =>
    cases h
    simp
  | cons x rest ih =>
    rw [List.mapM_cons] at h
    cases hx : f x with
    | error e =>
      rw [hx] at h
      cases h
    | ok a =>
      cases hrest : rest.mapM f with
      | error e =>
        rw [hx, hrest] at h
        cases h
      | ok bs =>
        rw [hx, hrest] at h
        cases h
        rw [List.mem_cons, ih hrest, List.exists_mem_cons_iff, hx, Except.ok.injEq, eq_comm]

/-- A document is stored under its id. -/
theorem StageData.id_of_get? {data : StageData} {u : Uuid} {doc : Document}
    (h : data.get? u = some doc) : doc.id = u := by
  have hfind := List.find?_some h
  exact of_decide_eq_true hfind

namespace ScopeRun

/-! ## Reading -/

/-- A step that claims nothing and gives an answer that does not depend on what is claimed. -/
def Reads {α : Type} (x : Walk α) (answer : Except Error α) : Prop :=
  ∀ p, ∃ events, x.run p = (answer, { p with events })

theorem Reads.pure {α : Type} (a : α) : Reads (pure a : Walk α) (.ok a) :=
  fun p => ⟨p.events, rfl⟩

/-- Walks one after the other read both answers. -/
theorem Reads.bind {α β : Type} {x : Walk α} {answer : Except Error α} {f : α → Walk β}
    {g : α → Except Error β} (hx : Reads x answer) (hf : ∀ a, Reads (f a) (g a)) :
    Reads (x >>= f) (answer >>= g) := by
  intro p
  rcases hx p with ⟨n, hx⟩
  rw [run_bind, hx]
  cases answer with
  | error e => exact ⟨n, rfl⟩
  | ok a =>
    rcases hf a { p with events := n } with ⟨m, hf⟩
    exact ⟨m, hf⟩

/-- A walk over a list reads an answer for each member. -/
theorem Reads.mapM {α β : Type} {f : α → Walk β} {g : α → Except Error β}
    (hf : ∀ a, Reads (f a) (g a)) (xs : List α) : Reads (xs.mapM f) (xs.mapM g) := by
  induction xs with
  | nil => exact Reads.pure []
  | cons x rest ih =>
    rw [List.mapM_cons, List.mapM_cons]
    exact (hf x).bind fun y => ih.bind fun ys => Reads.pure (y :: ys)

end ScopeRun

/-! ## Rows -/

/-- The rows of a plan are those of its evaluator, once the patterns are read. -/
theorem eq_of_evaluate {data : StageData} {plan : Plan} {memory : Option Nat} {rows : List Row}
    (h : evaluate data plan memory = .ok rows) :
    ∃ patterns, plan.patterns = .ok patterns ∧
      rows = (Evaluator.mk data plan patterns).rows.value := by
  rw [evaluate_eq] at h
  cases hpatterns : plan.patterns with
  | error e =>
    rw [hpatterns] at h
    cases h
  | ok patterns =>
    rw [hpatterns] at h
    refine ⟨patterns, rfl, ?_⟩
    cases memory with
    | none => exact (Except.ok.inj h).symm
    | some limit =>
      simp only [bind, Except.bind] at h
      split at h
      · cases h
      · exact (Except.ok.inj h).symm

namespace ScopeRun

variable (c : ScopeRun)

/-- Rows of a query on one instance. -/
def rowsOn (id : InstanceId) (q : Query) : Except Error (List Row) :=
  ((c.store.runQuery c.settings q { Request.ofStage c.stage with root := some id }).result.bind
    Stream.drain).map Page.rows

/-- To run a query reads its rows. -/
theorem reads_rowsOf (id : InstanceId) (q : Query) : Reads (c.rowsOf id q) (c.rowsOn id q) := by
  intro p
  refine ⟨p.events ++ ((c.store.runQuery c.settings q
    { Request.ofStage c.stage with root := some id }).finish Stream.drain).events, ?_⟩
  unfold rowsOf rowsOn
  dsimp only
  rw [run_bind, Run.finish_result]
  cases (c.store.runQuery c.settings q
    { Request.ofStage c.stage with root := some id }).result.bind Stream.drain <;> rfl

/-- The plan of a query on one instance. -/
def planOn (id : InstanceId) (spec : Specification) : Plan :=
  Plan.build spec { Request.ofStage c.stage with
    root := some id
    known := some (c.store.collections c.stage)
    memory := c.settings.memory }

/-- The cursor of a plan on one instance gives the rows of the plan. -/
theorem drain_openStream (id : InstanceId) (spec : Specification) :
    ((openStream (c.store.backend c.stage) (.ofPlan c.settings.dialect c.settings.memory
      (c.planOn id spec))).result.bind Stream.drain).map Page.rows =
        evaluate (c.store.data c.stage) (c.planOn id spec) c.settings.memory := by
  unfold openStream Store.backend
  dsimp only [Statement.ofPlan]
  cases evaluate (c.store.data c.stage) (c.planOn id spec) c.settings.memory with
  | error e => rfl
  | ok rows =>
    change (Stream.drain ⟨rows.map .ok, _, _, _⟩).map Page.rows = _
    unfold Stream.drain
    rw [mapM_id_map_ok]
    rfl

/-- The rows of a query are those of its plan: nothing is counted, and no row is cut off. -/
theorem rowsOn_eq (id : InstanceId) (q : Query) : c.rowsOn id q =
    (q.interpret.mapError InterpretFault.toError).bind fun spec =>
      evaluate (c.store.data c.stage) (c.planOn id spec) c.settings.memory := by
  unfold rowsOn Store.runQuery Store.prepare
  cases q.interpret with
  | error fault => rfl
  | ok spec =>
    rw [mapError_ok]
    change ((Compiled.run (c.store.backend c.stage) ⟨.ofPlan c.settings.dialect c.settings.memory
      (c.planOn id spec), none⟩).result.bind Stream.drain).map Page.rows =
        evaluate (c.store.data c.stage) (c.planOn id spec) c.settings.memory
    rw [run_without_count, drain_openStream]

/-- An instance that is not stored has no rows. -/
theorem rowsOn_of_absent {id : InstanceId} (habsent : (c.store.data c.stage).get? id.uuid = none)
    {q : Query} {rows : List Row} (h : c.rowsOn id q = .ok rows) : rows = [] := by
  rw [rowsOn_eq] at h
  cases hspec : q.interpret.mapError InterpretFault.toError with
  | error e =>
    rw [hspec] at h
    cases h
  | ok spec =>
    rw [hspec] at h
    rcases eq_of_evaluate h with ⟨patterns, -, rfl⟩
    have hroots : Evaluator.candidates (c.store.data c.stage) (c.planOn id spec).root = [] := by
      change ((c.store.data c.stage).get? id.uuid).toList.filter _ = []
      rw [habsent]
      rfl
    unfold Evaluator.rows Evaluator.buildRows Evaluator.buildUnsorted
    dsimp only
    rw [hroots]
    simp [sortBy, bind, pure]

/-! ## Findings -/

/-- Elements that the queries of types report for an instance. -/
def reportedOn (id : InstanceId) (types : List String) : Except Error (List Element) := do
  let rows ← (c.queriesFor types).mapM (c.rowsOn id)
  return Element.mergeSameLevel (rows.flatten.flatMap (c.reading types).ofTopRow)

/-- What the queries of an element's types report below it. -/
def found (e : Element) : Except Error (List Element) :=
  match c.spaceOf e with
  | none => .ok []
  | some space => do
    let es ← c.reportedOn ⟨e.id, space⟩ e.types
    return (es.filter (·.id = e.id)).flatMap Element.childList

theorem reads_reported (id : InstanceId) (types : List String) :
    Reads (c.reported id types) (c.reportedOn id types) :=
  (Reads.mapM (c.reads_rowsOf id) _).bind fun _ => Reads.pure _

/-- To discover what is below an element reads what is found there. -/
theorem reads_discovered (e : Element) : Reads (c.discovered e) (c.found e) := by
  unfold discovered found
  cases c.spaceOf e with
  | none => exact Reads.pure []
  | some space => exact (c.reads_reported _ _).bind fun _ => Reads.pure _

variable {c} {e : Element} {es : List Element}

/-- The elements that are reported for an instance are those of the rows of its queries. -/
theorem rows_of_reportedOn {id : InstanceId} {types : List String}
    (h : c.reportedOn id types = .ok es) : ∃ rows : List Row,
      (∀ row, row ∈ rows ↔
        ∃ q ∈ c.queriesFor types, ∃ answer, c.rowsOn id q = .ok answer ∧ row ∈ answer) ∧
        es = Element.mergeSameLevel (rows.flatMap (c.reading types).ofTopRow) := by
  unfold reportedOn at h
  cases hanswers : (c.queriesFor types).mapM (c.rowsOn id) with
  | error err =>
    rw [hanswers] at h
    cases h
  | ok answers =>
    rw [hanswers] at h
    cases h
    refine ⟨answers.flatten, fun row => ?_, rfl⟩
    rw [List.mem_flatten]
    constructor
    · rintro ⟨answer, hanswer, hrow⟩
      rcases (mem_of_mapM_ok hanswers).mp hanswer with ⟨q, hq, hrun⟩
      exact ⟨q, hq, answer, hrun, hrow⟩
    · rintro ⟨q, hq, answer, hrun, hrow⟩
      exact ⟨answer, (mem_of_mapM_ok hanswers).mpr ⟨q, hq, hrun⟩, hrow⟩

/-- Something is found only in the space of an element: the children that are reported for it. -/
theorem found_cases (h : c.found e = .ok es) : (c.spaceOf e = none ∧ es = []) ∨
    ∃ space merged, c.spaceOf e = some space ∧ c.reportedOn ⟨e.id, space⟩ e.types = .ok merged ∧
      es = (merged.filter (·.id = e.id)).flatMap Element.childList := by
  unfold found at h
  cases hspace : c.spaceOf e with
  | none =>
    rw [hspace] at h
    exact .inl ⟨rfl, (Except.ok.inj h).symm⟩
  | some space =>
    rw [hspace] at h
    dsimp only at h
    cases hreported : c.reportedOn ⟨e.id, space⟩ e.types with
    | error err =>
      rw [hreported] at h
      cases h
    | ok merged =>
      rw [hreported] at h
      exact .inr ⟨space, merged, rfl, hreported, (Except.ok.inj h).symm⟩

/-- Nothing is found for an instance that is not stored. -/
theorem found_of_absent (habsent : (c.store.data c.stage).get? e.id = none)
    (h : c.found e = .ok es) : es = [] := by
  rcases found_cases h with ⟨-, rfl⟩ | ⟨space, merged, -, hreported, rfl⟩
  · rfl
  · rcases rows_of_reportedOn hreported with ⟨rows, hrows, rfl⟩
    have hnone : rows = [] := by
      rw [List.eq_nil_iff_forall_not_mem]
      intro row hrow
      rcases (hrows row).mp hrow with ⟨q, -, answer, hrun, hanswer⟩
      rw [c.rowsOn_of_absent habsent hrun] at hanswer
      cases hanswer
    rw [hnone]
    rfl

end ScopeRun

/-! ## Reports -/

/-- Two elements that are the same for queries: of one instance, with the same types, and looked for
in the same space. -/
structure Element.Alike (a b : Element) : Prop where
  id : a.id = b.id
  types : a.types = b.types
  space : a.space = b.space

/-- Elements that agree but for what is below are alike. -/
theorem Element.Alike.of_bare {a b : Element} (h : a.bare = b.bare) : a.Alike b where
  id := by rw [← bare_id a, h, bare_id]
  types := by rw [← bare_types a, h, bare_types]
  space := by rw [← bare_space a, h, bare_space]

theorem Element.Alike.symm {a b : Element} (h : a.Alike b) : b.Alike a :=
  ⟨h.id.symm, h.types.symm, h.space.symm⟩

namespace ScopeRun

variable {c : ScopeRun} {e d : Element} {es : List Element} {above : List Uuid} {u : Uuid}

/-- `c.Answers e row`: the row is one that the queries of the element's types give for the element,
and it reports the element itself. -/
def Answers (c : ScopeRun) (e : Element) (row : Row) : Prop :=
  ∃ space, c.spaceOf e = some space ∧ ∃ q ∈ c.queriesFor e.types, ∃ rows,
    c.rowsOn ⟨e.id, space⟩ q = .ok rows ∧ row ∈ rows ∧ row.reportedId? = some e.id

/-- Alike elements have the same answers. -/
theorem answers_congr (h : e.Alike d) {row : Row} : c.Answers e row ↔ c.Answers d row := by
  unfold Answers spaceOf
  rw [h.id, h.types, h.space]

/-- `c.Reports e above u`: the queries of the element's types report `u` for the element, in a row
below which the ids `above` stand over it, the topmost first. Result rows that are embedded or left
out report nothing. -/
def Reports (c : ScopeRun) (e : Element) (above : List Uuid) (u : Uuid) : Prop :=
  ∃ row, c.Answers e row ∧ row.isEmbedded = false ∧
    (c.reading e.types).isLeftOut row.typeList = false ∧ (c.reading e.types).Reports row above u

/-- Alike elements report the same. -/
theorem reports_congr (h : e.Alike d) : c.Reports e above u ↔ c.Reports d above u := by
  unfold Reports
  rw [h.types]
  simp only [answers_congr h]

/-- The ids that stand over one are reported, too. -/
theorem Reports.of_append {pre post : List Uuid} {v : Uuid} (h : c.Reports e (pre ++ v :: post) u) :
    c.Reports e pre v := by
  rcases h with ⟨row, hanswers, hembedded, hleft, h⟩
  have hplace := (RowReading.place_dependencies.mpr h).of_append
  exact ⟨row, hanswers, hembedded, hleft, RowReading.place_dependencies.mp hplace⟩

/-- The places in what is reported are the places in the rows of the queries. -/
theorem place_reportedOn {id : InstanceId} {types : List String}
    (h : c.reportedOn id types = .ok es) : Element.Place es (id.uuid :: above) u ↔
      ∃ q ∈ c.queriesFor types, ∃ rows, c.rowsOn id q = .ok rows ∧ ∃ row ∈ rows,
        row.isEmbedded = false ∧ (c.reading types).isLeftOut row.typeList = false ∧
          row.reportedId? = some id.uuid ∧ (c.reading types).Reports row above u := by
  rcases rows_of_reportedOn h with ⟨rows, hrows, rfl⟩
  simp only [Element.place_mergeSameLevel, Element.Place.flatMap_iff, RowReading.place_ofTopRow,
    hrows]
  constructor
  · rintro ⟨row, ⟨q, hq, answer, hrun, hrow⟩, h⟩
    exact ⟨q, hq, answer, hrun, row, hrow, h⟩
  · rintro ⟨q, hq, answer, hrun, row, hrow, h⟩
    exact ⟨row, ⟨q, hq, answer, hrun, hrow⟩, h⟩

/-- What is found for an element are its reports, where they are reported. -/
theorem place_found (h : c.found e = .ok es) :
    Element.Place es above u ↔ c.Reports e above u := by
  rcases found_cases h with ⟨hspace, rfl⟩ | ⟨space, merged, hspace, hreported, rfl⟩
  · constructor
    · intro h
      cases Element.Place.mem_idsIn.mpr ⟨above, h⟩
    · rintro ⟨_, ⟨space, hsome, -⟩, -⟩
      rw [hspace] at hsome
      cases hsome
  · have hunder :
        Element.Place ((merged.filter (·.id = e.id)).flatMap Element.childList) above u ↔
          Element.Place merged (e.id :: above) u := by
      simp [Element.Place.flatMap_iff, Element.Place.under_iff, and_assoc]
    rw [hunder, place_reportedOn hreported]
    constructor
    · rintro ⟨q, hq, rows, hrun, row, hrow, hembedded, hleft, hid, h⟩
      exact ⟨row, ⟨space, hspace, q, hq, rows, hrun, hrow, hid⟩, hembedded, hleft, h⟩
    · rintro ⟨row, ⟨space', hspace', q, hq, rows, hrun, hrow, hid⟩, hembedded, hleft, h⟩
      rw [hspace] at hspace'
      cases hspace'
      exact ⟨q, hq, rows, hrun, row, hrow, hembedded, hleft, hid, h⟩

/-- What is reported is a level. -/
theorem level_reportedOn {id : InstanceId} {types : List String}
    (h : c.reportedOn id types = .ok es) : Element.Level es := by
  rcases rows_of_reportedOn h with ⟨rows, -, rfl⟩
  exact Element.level_mergeSameLevel _

/-- No id is found twice on a level. -/
theorem level_found (h : c.found e = .ok es) : Element.Level es := by
  rcases found_cases h with ⟨-, rfl⟩ | ⟨space, merged, -, hreported, rfl⟩
  · exact .nil
  · exact (level_reportedOn hreported).childList_filter e.id

end ScopeRun

end GraphQuery
