import GraphQuery.Proofs.Bookkeeping

/-!
# GraphQuery.Proofs.RowFailures — failures among the rows of a stream

A row that a cursor holds may be a failure. Who drains a stream reads rows up to the first failure,
but a stream need not begin with the first row of its cursor.

1. **First failures** of a list of rows.
2. **Draining** fails with the first failure of the stream, and succeeds where it has none.
3. **Passed over**: the rows of a cursor that its stream leaves out.
4. **Runs**: which failures of a cursor whoever drains the stream of a compiled query meets.
-/

namespace GraphQuery

open Json

/-! ## First failures -/

/-- The failure `e` stands among the rows, and only rows stand before it. -/
def FailsFirst (rows : List (Except Error Row)) (e : Error) : Prop :=
  ∃ (before : List Row) (rest : List (Except Error Row)), rows = before.map .ok ++ .error e :: rest

variable {rows : List (Except Error Row)} {e : Error}

theorem not_failsFirst_nil : ¬ FailsFirst [] e := by
  rintro ⟨_ | ⟨row, before⟩, rest, h⟩ <;> cases h

/-- A failure at the start is the first one. -/
theorem failsFirst_error (e' : Error) (rest : List (Except Error Row)) :
    FailsFirst (.error e' :: rest) e ↔ e' = e := by
  constructor
  · rintro ⟨_ | ⟨row, before⟩, rest', h⟩
    · cases h
      rfl
    · cases h
  · rintro rfl
    exact ⟨[], rest, rfl⟩

/-- Rows before a failure change nothing. -/
theorem failsFirst_ok (row : Row) (rest : List (Except Error Row)) :
    FailsFirst (.ok row :: rest) e ↔ FailsFirst rest e := by
  constructor
  · rintro ⟨_ | ⟨row', before⟩, rest', h⟩
    · cases h
    · exact ⟨before, rest', (List.cons.inj h).2⟩
  · rintro ⟨before, rest', rfl⟩
    exact ⟨row :: before, rest', rfl⟩

/-! ## Draining -/

/-- Reading rows in order ends with the first failure among them. -/
theorem mapM_id_eq_error_iff : rows.mapM id = .error e ↔ FailsFirst rows e := by
  induction rows with
  | nil => exact iff_of_false nofun not_failsFirst_nil
  | cons row rest ih =>
    rw [List.mapM_cons]
    cases row with
    | error e' =>
      rw [failsFirst_error]
      constructor <;>
      · rintro ⟨⟩
        rfl
    | ok row =>
      rw [failsFirst_ok, ← ih]
      cases rest.mapM id with
      | error e' => exact Iff.rfl
      | ok read => exact iff_of_false nofun nofun

/-- Rows are read, or there is a failure among them. -/
theorem exists_mapM_id_iff : (∃ read, rows.mapM id = .ok read) ↔ ∀ e, ¬ FailsFirst rows e := by
  constructor
  · rintro ⟨read, hread⟩ e hfails
    rw [mapM_id_eq_error_iff.mpr hfails] at hread
    cases hread
  · intro hnone
    cases hread : rows.mapM id with
    | ok read => exact ⟨read, rfl⟩
    | error e => exact absurd (mapM_id_eq_error_iff.mp hread) (hnone e)

/-- Without a first failure there is none at all. -/
theorem forall_not_failsFirst_iff :
    (∀ e, ¬ FailsFirst rows e) ↔ ∀ e, .error e ∉ rows := by
  induction rows with
  | nil => exact iff_of_true (fun _ => not_failsFirst_nil) (fun _ => List.not_mem_nil)
  | cons row rest ih =>
    cases row with
    | error e' =>
      refine iff_of_false (fun h => h e' ?_) (fun h => h e' List.mem_cons_self)
      rw [failsFirst_error]
    | ok row =>
      simp only [failsFirst_ok, ih, List.mem_cons, reduceCtorEq, false_or]

namespace Stream

/-- Draining a stream ends with its first failure. -/
theorem drain_eq_error_iff {s : Stream} : s.drain = .error e ↔ FailsFirst s.rows e := by
  rw [← mapM_id_eq_error_iff]
  unfold drain
  cases s.rows.mapM id with
  | error e' =>
    constructor <;>
    · rintro ⟨⟩
      rfl
  | ok read => exact iff_of_false nofun nofun

/-- A stream without failures can be drained. -/
theorem exists_drain_iff {s : Stream} :
    (∃ page, s.drain = .ok page) ↔ ∀ e, ¬ FailsFirst s.rows e := by
  rw [← exists_mapM_id_iff]
  unfold drain
  cases s.rows.mapM id with
  | error e' => exact iff_of_false nofun nofun
  | ok read => exact iff_of_true ⟨_, rfl⟩ ⟨_, rfl⟩

end Stream

/-! ## Passed over -/

/-- How many rows of a cursor are passed over: as many as the offset of a page without a size says,
where the backend reports that more rows follow. -/
def Cursor.passedOver (c : Cursor) (page : Option PageRequest) : Nat :=
  match (page.getD .everything).size, c.count with
  | none, some n => if (page.getD .everything).offset < n then (page.getD .everything).offset else 0
  | _, _ => 0

/-- The rows of a stream are those of the cursor that are not passed over. -/
theorem Stream.rows_ofCursor (page : Option PageRequest) (c : Cursor) :
    (ofCursor page c).rows = c.rows.drop (c.passedOver page) := by
  unfold Cursor.passedOver
  cases hsize : (page.getD .everything).size with
  | some size =>
    rw [ofCursor_of_size (by rw [hsize]; rfl)]
    rfl
  | none =>
    cases hcount : c.count with
    | none => exact (ofCursor_of_uncounted page hcount).1
    | some n =>
      rw [ofCursor_of_unsized hsize hcount]
      dsimp only
      by_cases hmore : (page.getD .everything).offset < n
      · rw [if_pos hmore]
        by_cases hpos : 0 < (page.getD .everything).offset
        · rw [if_pos ⟨hpos, hmore⟩]
        · have hzero : (page.getD .everything).offset = 0 := by omega
          rw [if_neg fun h => hpos h.1, hzero]
          rfl
      · rw [if_neg hmore, if_neg fun h => hmore h.2]
        rfl

/-- Rows are passed over only without a page size, and fewer than the cursor reports. -/
theorem Cursor.passedOver_ne_zero {c : Cursor} {page : Option PageRequest}
    (h : c.passedOver page ≠ 0) :
    (page.getD .everything).size = none ∧ (page.getD .everything).offset = c.passedOver page ∧
      ∃ n, c.count = some n ∧ c.passedOver page < n := by
  unfold passedOver at h ⊢
  split at h
  · rename_i n hsize hcount
    by_cases hmore : (page.getD .everything).offset < n
    · rw [hsize, hcount, if_pos hmore]
      exact ⟨rfl, rfl, n, rfl, hmore⟩
    · rw [if_neg hmore] at h
      exact absurd rfl h
  · exact absurd rfl h

/-! ## Runs -/

namespace Compiled

variable {backend : Backend} {c : Compiled} {cursor : Cursor}

/-- A run that was given a cursor gives its stream, unless a total must be counted and counting
fails. -/
theorem run_of_cursor (hmain : backend c.statement = .ok cursor) :
    (∃ stream, (c.run backend).result = .ok stream ∧
      stream.rows = (Stream.ofCursor c.statement.plan.page cursor).rows) ∨
    ∃ count e, c.count = some count ∧ (runCount backend count).result = .error e ∧
      (c.run backend).result = .error e := by
  rcases c with ⟨s, _ | count⟩
  · left
    rw [run_without_count, openStream_of_cursor hmain]
    exact ⟨_, rfl, rfl⟩
  · by_cases htotal : (Stream.ofCursor s.plan.page cursor).total = some (-1)
    · unfold run
      dsimp only
      rw [openStream_of_cursor hmain]
      dsimp only
      rw [if_pos htotal]
      cases hcounted : (runCount backend count).result with
      | ok n => exact .inl ⟨_, rfl, rfl⟩
      | error e => exact .inr ⟨count, e, rfl, hcounted, rfl⟩
    · left
      rw [run_of_known hmain htotal, openStream_of_cursor hmain]
      exact ⟨_, rfl, rfl⟩

/-- Whatever rows and failures a cursor holds and whatever it reports, draining the stream of a
compiled query fails with the first failure that is not passed over, and succeeds if and only if no
such failure is left. So the first failure of all is met unless it is among the rows that are passed
over; only a page without a size, whose offset is below the reported number of rows, passes over
any. A stream is there to be drained unless counting fails, and then the run fails like it. -/
theorem fails_unless_passed_over (hmain : backend c.statement = .ok cursor) :
    ((∃ stream, (c.run backend).result = .ok stream) ∨
      ∃ count e, c.count = some count ∧ (runCount backend count).result = .error e ∧
        (c.run backend).result = .error e) ∧
    (∀ stream, (c.run backend).result = .ok stream →
      (∀ (before : List Row) (e : Error) (rest : List (Except Error Row)),
        cursor.rows = before.map .ok ++ .error e :: rest →
        cursor.passedOver c.statement.plan.page ≤ before.length → stream.drain = .error e) ∧
      (∀ e, stream.drain = .error e ↔
        FailsFirst (cursor.rows.drop (cursor.passedOver c.statement.plan.page)) e) ∧
      ((∃ page, stream.drain = .ok page) ↔
        ∀ e, .error e ∉ cursor.rows.drop (cursor.passedOver c.statement.plan.page))) ∧
    (cursor.passedOver c.statement.plan.page ≠ 0 →
      (c.statement.plan.page.getD .everything).size = none ∧
      (c.statement.plan.page.getD .everything).offset = cursor.passedOver c.statement.plan.page ∧
      ∃ n, cursor.count = some n ∧ cursor.passedOver c.statement.plan.page < n) := by
  refine ⟨?_, ?_, Cursor.passedOver_ne_zero⟩
  · rcases run_of_cursor hmain with ⟨stream, hrun, -⟩ | hcount
    · exact .inl ⟨stream, hrun⟩
    · exact .inr hcount
  · intro stream hrun
    have hrows : stream.rows = cursor.rows.drop (cursor.passedOver c.statement.plan.page) := by
      rcases run_of_cursor hmain with ⟨stream', hrun', hrows⟩ | ⟨-, e, -, -, hfailed⟩
      · cases hrun.symm.trans hrun'
        rw [hrows, Stream.rows_ofCursor]
      · cases hrun.symm.trans hfailed
    refine ⟨?_, ?_, ?_⟩
    · intro before e rest hcursor hlate
      rw [Stream.drain_eq_error_iff, hrows, hcursor,
        List.drop_append_of_le_length (by rwa [List.length_map]), ← List.map_drop]
      exact ⟨before.drop (cursor.passedOver c.statement.plan.page), rest, rfl⟩
    · intro e
      rw [Stream.drain_eq_error_iff, hrows]
    · rw [Stream.exists_drain_iff, hrows, forall_not_failsFirst_iff]

/-- A cursor whose first row failed, and a later one too. -/
def torn : Cursor :=
  ⟨[.error (.transient "gone"), .ok [("i", .nat 1)], .ok [("i", .nat 2)],
      .error (.transient "late")],
    some 4, none⟩

/-- The first failure is met, but not from an offset behind it; the later one is met then. -/
theorem fails_unless_passed_over_torn :
    let c (offset : Nat) : Compiled := (Plan.build ⟨[], none, "T", none⟩
      { Request.ofStage .released with page := some ⟨offset, none, false⟩ }).compile .cypher none
    let backend : Backend := fun _ => .ok torn
    (∀ offset, backend (c offset).statement = .ok torn) ∧
    (∃ stream, ((c 0).run backend).result = .ok stream ∧
      stream.drain = .error (.transient "gone")) ∧
    ∃ stream, ((c 1).run backend).result = .ok stream ∧
      stream.drain = .error (.transient "late") := by
  intro c backend
  have hmain (offset : Nat) : backend (c offset).statement = .ok torn := rfl
  refine ⟨hmain, ?_, ?_⟩
  · obtain ⟨hstream, hdrain, -⟩ := fails_unless_passed_over (hmain 0)
    obtain ⟨stream, hrun⟩ := hstream.resolve_right (by rintro ⟨_, _, ⟨⟩, -⟩)
    exact ⟨stream, hrun, (hdrain stream hrun).1 [] _ _ rfl (by decide)⟩
  · obtain ⟨hstream, hdrain, -⟩ := fails_unless_passed_over (hmain 1)
    obtain ⟨stream, hrun⟩ := hstream.resolve_right (by rintro ⟨_, _, ⟨⟩, -⟩)
    exact ⟨stream, hrun, ((hdrain stream hrun).2.1 _).mpr ⟨[_, _], [], rfl⟩⟩

end Compiled

end GraphQuery
