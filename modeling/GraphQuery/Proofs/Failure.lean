import GraphQuery.Proofs.Metering
import GraphQuery.Service

/-!
# GraphQuery.Proofs.Failure — what can go wrong while a query runs

1. **Evaluation** fails for a pattern that cannot be read, or at the memory ceiling.
2. **Runs** on a store fail for nothing else: neither a page nor a count adds a failure.
3. **Preparing** fails only for a query that breaks a rule of the query language.
-/

namespace GraphQuery

/-- A failure of a statement: it cannot be run, or it needs too much memory. -/
def Error.OfStatement (e : Error) : Prop :=
  (∃ reason, e = .invalidQuery reason) ∨ ∃ reason, e = .limitExceeded reason

theorem mapError_ok {ε ε' α : Type} (f : ε → ε') (a : α) :
    (Except.ok a : Except ε α).mapError f = .ok a := rfl

/-- Steps that change a state and can fail: the second one starts where the first one succeeded. -/
theorem run_bind {ε σ α β : Type} (x : ExceptT ε (StateM σ) α)
    (f : α → ExceptT ε (StateM σ) β) (s : σ) : (x >>= f).run s = match x.run s with
      | (.ok a, s') => (f a).run s'
      | (.error e, s') => (.error e, s') := by
  change (match x.run s with | (r, s') => ExceptT.bindCont f r s') = _
  rcases x.run s with ⟨_ | a, s'⟩ <;> rfl

/-! ## Evaluation -/

namespace Plan

/-- A pattern that cannot be read is a fault of the query. -/
theorem addPattern_eq_error {patterns : Dictionary Pattern} {c : Condition} {e : Error}
    (h : addPattern patterns c = .error e) : ∃ reason, e = .invalidQuery reason := by
  unfold addPattern at h
  split at h
  · cases h
  · split at h
    · cases h
    · cases h
      exact ⟨_, rfl⟩

/-- So it is among any number of conditions. -/
theorem foldlM_addPattern_eq_error {conditions : List Condition} {patterns : Dictionary Pattern}
    {e : Error} (h : conditions.foldlM addPattern patterns = .error e) :
    ∃ reason, e = .invalidQuery reason := by
  -- induction on the conditions, for whatever patterns have been read
  induction conditions generalizing patterns with
  | nil => cases h
  | cons c rest ih =>
    rw [List.foldlM_cons] at h
    cases hc : addPattern patterns c with
    | error e' =>
      rw [hc] at h
      cases h
      exact addPattern_eq_error hc
    | ok next =>
      rw [hc] at h
      exact ih h

end Plan

/-- An evaluation fails by the statement only: a pattern, or the ceiling. -/
theorem evaluate_eq_error {data : StageData} {plan : Plan} {memory : Option Nat} {e : Error}
    (h : evaluate data plan memory = .error e) : e.OfStatement := by
  rw [evaluate_eq] at h
  -- patterns are read before any document is visited
  cases hp : plan.patterns with
  | error e' =>
    rw [hp] at h
    cases h
    exact .inl (Plan.foldlM_addPattern_eq_error hp)
  | ok patterns =>
    rw [hp] at h
    -- without a ceiling there is nothing left that could fail
    cases memory with
    | none => cases h
    | some limit =>
      simp only [bind, Except.bind] at h
      split at h
      · cases h
        exact .inr ⟨_, rfl⟩
      · cases h

/-! ## Runs -/

/-- The backend of a store fails by the statement only. -/
theorem Store.backend_eq_error {st : Store} {stage : Stage} {s : Statement} {e : Error}
    (h : st.backend stage s = .error e) : e.OfStatement := by
  unfold Store.backend at h
  cases hrows : evaluate (st.data stage) s.plan s.memory with
  | error e' =>
    rw [hrows] at h
    cases h
    exact evaluate_eq_error hrows
  | ok rows =>
    rw [hrows] at h
    cases h

theorem mapM_id_map_ok {ε α : Type} (xs : List α) :
    (xs.map (Except.ok (ε := ε))).mapM id = .ok xs := by
  induction xs with
  | nil => rfl
  | cons x rest ih =>
    rw [List.map_cons, List.mapM_cons, ih]
    rfl

/-- A finished run has the result of reading the stream. -/
@[simp] theorem Run.finish_result {α : Type} (read : Stream → Except Error α) (r : Run Stream) :
    (r.finish read).result = r.result.bind read := by
  unfold Run.finish
  cases r.result <;> rfl

/-- Without a count there is nothing but the stream. -/
theorem run_without_count (backend : Backend) (s : Statement) :
    Compiled.run backend ⟨s, none⟩ = openStream backend s := by
  unfold Compiled.run
  dsimp only
  split
  · contradiction
  · rfl

/-- The cursors of a store hold no failures. -/
theorem Store.ok_of_backend {st : Store} {stage : Stage} {s : Statement} {c : Cursor}
    (h : st.backend stage s = .ok c) : ∃ rows : List Json.Row, c.rows = rows.map .ok := by
  unfold Store.backend at h
  cases hrows : evaluate (st.data stage) s.plan s.memory with
  | error e' =>
    rw [hrows] at h
    cases h
  | ok rows =>
    rw [hrows] at h
    cases h
    exact ⟨_, rfl⟩

/-- Reading a count fails only if the column holds no number. -/
theorem readCount_eq_error {c : Cursor} {rows : List Json.Row} {e : Error}
    (hc : c.rows = rows.map .ok) (h : readCount c = .error e) : e.OfStatement := by
  unfold readCount at h
  rw [hc] at h
  cases rows with
  -- no row counts as none
  | nil => cases h
  | cons row rest =>
    simp only [List.map_cons] at h
    -- the column is missing, holds a number, which may be negative, or something else
    split at h
    · cases h
    · split at h
      · cases h
      · cases h
        exact .inl ⟨_, rfl⟩
    · cases h
      exact .inl ⟨_, rfl⟩

/-- Counting in a store fails by the statement only. -/
theorem Store.runCount_eq_error {st : Store} {stage : Stage} {s : Statement} {e : Error}
    (h : (runCount (st.backend stage) s).result = .error e) : e.OfStatement := by
  unfold runCount at h
  cases hb : st.backend stage s with
  | error e' =>
    rw [hb] at h
    cases h
    exact backend_eq_error hb
  | ok cursor =>
    rw [hb] at h
    rcases ok_of_backend hb with ⟨rows, hrows⟩
    exact readCount_eq_error hrows h

theorem Store.openStream_eq_error {st : Store} {stage : Stage} {s : Statement} {e : Error}
    (h : (openStream (st.backend stage) s).result = .error e) : e.OfStatement := by
  unfold openStream at h
  cases hb : st.backend stage s with
  | error e' =>
    rw [hb] at h
    cases h
    exact backend_eq_error hb
  | ok cursor =>
    rw [hb] at h
    cases h

/-- A run in a store fails by the statement only. -/
theorem Store.run_eq_error {st : Store} {stage : Stage} {c : Compiled} {e : Error}
    (h : (c.run (st.backend stage)).result = .error e) : e.OfStatement := by
  unfold Compiled.run at h
  simp only at h
  -- a count is only run once the rows are open, and if their total is not known
  split at h
  · split at h
    · split at h
      · cases h
      · rename_i hcount
        cases h
        exact runCount_eq_error hcount
    · exact openStream_eq_error h
  · exact openStream_eq_error h

/-! ## Preparing -/

/-- A query that cannot be prepared is not valid. -/
theorem Store.prepare_eq_error {st : Store} {settings : Settings} {q : Query} {r : Request}
    {e : Error} (h : st.prepare settings q r = .error e) : ∃ reason, e = .validation reason := by
  unfold Store.prepare at h
  cases hq : q.interpret with
  | error fault =>
    rw [hq] at h
    cases h
    exact ⟨_, rfl⟩
  | ok spec =>
    rw [hq] at h
    cases h

/-- A query that runs on a store fails for its wording, its statements, or the memory it needs. -/
theorem Store.runQuery_eq_error {st : Store} {settings : Settings} {q : Query} {r : Request}
    {e : Error} (h : (st.runQuery settings q r).result = .error e) :
    (∃ reason, e = .validation reason) ∨ e.OfStatement := by
  unfold Store.runQuery at h
  cases hp : st.prepare settings q r with
  | error e' =>
    rw [hp] at h
    cases h
    exact .inl (prepare_eq_error hp)
  | ok compiled =>
    rw [hp] at h
    exact .inr (run_eq_error h)

/-- No query is forbidden once it runs: that is decided before. -/
theorem Store.runQuery_ne_forbidden (st : Store) (settings : Settings) (q : Query) (r : Request)
    (reason : String) : (st.runQuery settings q r).result ≠ .error (.forbidden reason) := by
  intro h
  rcases runQuery_eq_error h with ⟨_, h⟩ | ⟨_, h⟩ | ⟨_, h⟩ <;> cases h

end GraphQuery
