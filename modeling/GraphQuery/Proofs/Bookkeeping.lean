import GraphQuery.Proofs.Paging

/-!
# GraphQuery.Proofs.Bookkeeping — numbers of a stream

The numbers of a stream come from five sources: the offset, the size and the wish for a total of the
page, and what the backend reports, which is a count of its rows and a count without the limit of
the page. A total that was not reported comes from a second statement.

1. **Counting**: what the cursor of a count statement says.
2. **Running**: the second statement is run for a total that is wanted and was not reported.
3. **Bookkeeping** of the stream, for every page.
-/

namespace GraphQuery

open Json

/-! ## Counting -/

/-- What the first row of a cursor has in its count column, if there are such a row and column.
A count is a whole number and not negative. -/
inductive Cursor.Counts : Cursor → Option Nat → Prop
  | noRow {count fullCount : Option Nat} : Counts ⟨[], count, fullCount⟩ none
  | noColumn {row : Row} {rest : List (Except Error Row)} {count fullCount : Option Nat}
      (h : row.get? "count" = none) : Counts ⟨.ok row :: rest, count, fullCount⟩ none
  | number {row : Row} {rest : List (Except Error Row)} {count fullCount : Option Nat} {n : Nat}
      (h : row.get? "count" = some (.nat n)) : Counts ⟨.ok row :: rest, count, fullCount⟩ (some n)

/-- What is read from a counting cursor is its count. -/
theorem Cursor.Counts.readCount_eq {c : Cursor} {n : Option Nat} (h : c.Counts n) :
    readCount c = .ok n := by
  cases h with
  | noRow => rfl
  | noColumn hcolumn => simp [readCount, hcolumn]
  | number hcolumn => simp [readCount, hcolumn]

/-- A count statement executes once and closes its cursor. -/
theorem runCount_of_counts {backend : Backend} {s : Statement} {c : Cursor} {n : Option Nat}
    (hc : backend s = .ok c) (h : c.Counts n) :
    runCount backend s = ⟨.ok n, [.executed true true, .closed true]⟩ := by
  unfold runCount
  rw [hc, ← h.readCount_eq]

/-! ## Running -/

namespace Compiled

variable {backend : Backend} {s c : Statement} {cursor : Cursor}

/-- A cursor that is opened becomes the stream. -/
theorem openStream_of_cursor (h : backend s = .ok cursor) :
    openStream backend s = ⟨.ok (.ofCursor s.plan.page cursor), [.executed false true]⟩ := by
  unfold openStream
  rw [h]

/-- A total that is known, or not wanted, is not counted. -/
theorem run_of_known (h : backend s = .ok cursor)
    (htotal : (Stream.ofCursor s.plan.page cursor).total ≠ some (-1)) :
    Compiled.run backend ⟨s, some c⟩ = openStream backend s := by
  unfold run
  dsimp only
  rw [openStream_of_cursor h]
  dsimp only
  rw [if_neg htotal]

/-- A total that is wanted and unknown is counted. -/
theorem run_of_unknown (h : backend s = .ok cursor) {counting : Cursor} {n : Option Nat}
    (htotal : (Stream.ofCursor s.plan.page cursor).total = some (-1))
    (hc : backend c = .ok counting) (hcounts : counting.Counts n) :
    Compiled.run backend ⟨s, some c⟩ =
      ⟨.ok { Stream.ofCursor s.plan.page cursor with total := some ((n.map signed64).getD (-1)) },
        [.executed false true, .executed true true, .closed true]⟩ := by
  unfold run
  dsimp only
  rw [openStream_of_cursor h]
  dsimp only
  rw [if_pos htotal]
  simp only [runCount_of_counts hc hcounts]
  rfl

end Compiled

/-! ## Bookkeeping -/

/-- A number that a backend reports; -1 where it does not. -/
def reportedOr (n : Option Nat) : Int := n.elim (-1) Nat.cast

theorem getD_signed64 {n : Option Nat} (h : ∀ k, n = some k → k < 2 ^ 63) :
    (n.map signed64).getD (-1) = reportedOr n := by
  cases n with
  | none => rfl
  | some k =>
    rw [Option.map_some, Option.getD_some, signed64_of_lt (h k rfl)]
    rfl

namespace Stream

/-- The offset of a stream is that of its page. -/
theorem offset_ofCursor (page : Option PageRequest) (c : Cursor) :
    (ofCursor page c).offset = (page.getD .everything).offset := by
  unfold ofCursor
  dsimp only
  split
  · rfl
  · split <;> rfl
  · rfl

/-- A page with a size has the full count as its total and the count as its size. -/
theorem ofCursor_of_size {page : Option PageRequest} (h : (page.getD .everything).size.isSome)
    (c : Cursor) : ofCursor page c =
      ⟨c.rows,
        if (page.getD .everything).returnTotal then some ((c.fullCount.map signed64).getD (-1))
          else none, (c.count.map signed64).getD (-1), (page.getD .everything).offset⟩ := by
  obtain ⟨size, hsize⟩ := Option.isSome_iff_exists.mp h
  unfold ofCursor
  dsimp only
  rw [hsize]

/-- Where the backend does not count its rows, none is passed over. -/
theorem ofCursor_of_uncounted (page : Option PageRequest) {c : Cursor} (h : c.count = none) :
    (ofCursor page c).rows = c.rows ∧ (ofCursor page c).size = -1 := by
  unfold ofCursor
  dsimp only
  rw [h]
  split <;> simp_all

/-- Without a size, rows are passed over if some are left. -/
theorem ofCursor_of_unsized {page : Option PageRequest} (h : (page.getD .everything).size = none)
    {c : Cursor} {n : Nat} (hc : c.count = some n) : ofCursor page c =
      if 0 < (page.getD .everything).offset ∧ (page.getD .everything).offset < n then
        ⟨c.rows.drop (page.getD .everything).offset,
          some (signed64 (n - (page.getD .everything).offset)),
          signed64 (n - (page.getD .everything).offset), (page.getD .everything).offset⟩
      else ⟨c.rows, some (signed64 n), signed64 n, (page.getD .everything).offset⟩ := by
  obtain ⟨rows, count, fullCount⟩ := c
  obtain rfl : count = some n := hc
  rcases page with _ | ⟨offset, _ | size, returnTotal⟩
  case none => exact ofCursor_unsized 0 false rows n fullCount
  case some.none => exact ofCursor_unsized offset returnTotal rows n fullCount
  case some.some => cases h

/-- The numbers of a stream are those of its rows. `count` is what the backend reports of the rows,
and `total` what it reports, or counts, of the rows without the limit of the page. -/
structure Bookkept (page : PageRequest) (rows : List Row) (count total : Option Nat)
    (stream : Stream) : Prop where
  offset_eq : stream.offset = page.offset
  size_eq : count.isSome → stream.size = stream.rows.length
  sized : page.size.isSome → stream.rows = rows.map .ok ∧
    stream.total = if page.returnTotal then some (reportedOr total) else none
  passed : page.size = none → count.isSome → 0 < page.offset → page.offset < rows.length →
    stream.rows = (rows.drop page.offset).map .ok ∧
    stream.total = some ((rows.length : Int) - page.offset) ∧
    stream.size = (rows.length : Int) - page.offset
  unpassed : page.size = none → count.isSome → page.offset = 0 ∨ rows.length ≤ page.offset →
    stream.rows = rows.map .ok ∧ stream.total = some (rows.length : Int)
  uncounted : count = none → stream.rows = rows.map .ok ∧ stream.size = -1

variable {page : Option PageRequest} {rows : List Row} {count fullCount : Option Nat}

/-- The stream of a page with a size, with the total that it gets. -/
theorem bookkept_of_size (hpage : (page.getD .everything).size.isSome)
    (htrue : ∀ c, count = some c → c = rows.length) (hcount : ∀ c, count = some c → c < 2 ^ 63)
    {total : Option Int} {reported : Option Nat}
    (htotal : total = if (page.getD .everything).returnTotal then some (reportedOr reported)
      else none) :
    Bookkept (page.getD .everything) rows count reported
      { ofCursor page ⟨rows.map .ok, count, fullCount⟩ with total } := by
  have hsized (h : (page.getD .everything).size = none) : False := by
    rw [h] at hpage
    cases hpage
  rw [ofCursor_of_size hpage]
  exact {
    offset_eq := rfl
    size_eq := fun hsome => by
      obtain ⟨c, rfl⟩ := Option.isSome_iff_exists.mp hsome
      obtain rfl := htrue c rfl
      have hlength : signed64 rows.length = rows.length := signed64_of_lt (hcount _ rfl)
      dsimp only
      rw [Option.map_some, Option.getD_some, hlength, List.length_map]
    sized := fun _ => ⟨rfl, htotal⟩
    passed := fun h => (hsized h).elim
    unpassed := fun h => (hsized h).elim
    uncounted := by
      rintro rfl
      exact ⟨rfl, rfl⟩ }

/-- The stream of a page without a size, or of no page. -/
theorem bookkept_of_unsized (hpage : (page.getD .everything).size = none)
    (htrue : ∀ c, count = some c → c = rows.length) (hcount : ∀ c, count = some c → c < 2 ^ 63)
    (reported : Option Nat) :
    Bookkept (page.getD .everything) rows count reported
      (ofCursor page ⟨rows.map .ok, count, fullCount⟩) := by
  have hunsized (h : (page.getD .everything).size.isSome) : False := by
    rw [hpage] at h
    cases h
  cases count with
  | none =>
    have huncounted := ofCursor_of_uncounted page (c := ⟨rows.map .ok, none, fullCount⟩) rfl
    exact {
      offset_eq := offset_ofCursor page _
      size_eq := nofun
      sized := fun h => (hunsized h).elim
      passed := nofun
      unpassed := nofun
      uncounted := fun _ => huncounted }
  | some c =>
    obtain rfl := htrue c rfl
    have hlength : signed64 rows.length = rows.length := signed64_of_lt (hcount _ rfl)
    rw [ofCursor_of_unsized hpage rfl]
    by_cases hpassed : 0 < (page.getD .everything).offset ∧
        (page.getD .everything).offset < rows.length
    · have hrest : signed64 (rows.length - (page.getD .everything).offset) =
          (rows.length : Int) - (page.getD .everything).offset := by
        have hlt := hcount _ rfl
        rw [signed64_of_lt (by omega)]
        omega
      rw [if_pos hpassed, hrest]
      exact {
        offset_eq := rfl
        size_eq := fun _ => by simp; omega
        sized := fun h => (hunsized h).elim
        passed := fun _ _ _ _ => ⟨(List.map_drop ..).symm, rfl, rfl⟩
        unpassed := fun _ _ h => by omega
        uncounted := nofun }
    · rw [if_neg hpassed, hlength]
      exact {
        offset_eq := rfl
        size_eq := fun _ => by simp
        sized := fun h => (hunsized h).elim
        passed := fun _ _ hpos hlt => (hpassed ⟨hpos, hlt⟩).elim
        unpassed := fun _ _ _ => ⟨rfl, rfl⟩
        uncounted := nofun }

end Stream

namespace Plan

variable {backend : Backend} {plan : Plan} {dialect : Dialect} {memory : Option Nat}

theorem wantsCount_eq (plan : Plan) : plan.wantsCount =
    ((plan.page.getD .everything).returnTotal && (plan.page.getD .everything).size.isSome) := by
  unfold wantsCount
  cases plan.page <;> rfl

/-- Without a count statement the result is the stream of the main statement. -/
theorem result_run_of_unwanted {cursor : Cursor}
    (hmain : backend (.ofPlan dialect memory plan) = .ok cursor) (h : plan.wantsCount = false) :
    ((plan.compile dialect memory).run backend).result = .ok (.ofCursor plan.page cursor) := by
  unfold compile
  rw [h, if_neg Bool.false_ne_true, run_without_count, Compiled.openStream_of_cursor hmain]
  rfl

/-- A total that is wanted is the number without the limit of the page, else the counted one. -/
theorem result_run_of_wanted {cursor : Cursor} {counted : Option Nat}
    (hmain : backend (.ofPlan dialect memory plan) = .ok cursor) (h : plan.wantsCount = true)
    (hfull : ∀ c, cursor.fullCount = some c → c < 2 ^ 63)
    (hcounted : ∀ c, counted = some c → c < 2 ^ 63)
    (hcounting : cursor.fullCount = none →
      ∃ c, backend (.ofPlan dialect memory plan.asCount) = .ok c ∧ c.Counts counted) :
    ((plan.compile dialect memory).run backend).result =
      .ok { Stream.ofCursor plan.page cursor with
        total := some (reportedOr (cursor.fullCount.or counted)) } := by
  have hwanted := h
  rw [wantsCount_eq, Bool.and_eq_true] at hwanted
  have htotal : (Stream.ofCursor plan.page cursor).total = some (reportedOr cursor.fullCount) := by
    rw [Stream.ofCursor_of_size hwanted.2]
    dsimp only
    rw [if_pos hwanted.1, getD_signed64 hfull]
  unfold compile
  rw [h, if_pos rfl]
  cases hreported : cursor.fullCount with
  | some n =>
    -- the backend has reported the total
    have hknown : (Stream.ofCursor plan.page cursor).total = some (n : Int) := by
      rw [htotal, hreported]
      rfl
    have hne : (Stream.ofCursor plan.page cursor).total ≠ some (-1) := by
      rw [hknown]
      simp
    rw [Compiled.run_of_known hmain hne, Compiled.openStream_of_cursor hmain, Option.some_or]
    have hsame : some (reportedOr (some n)) = (Stream.ofCursor plan.page cursor).total := by
      rw [hknown]
      rfl
    rw [hsame]
    rfl
  | none =>
    -- the total is left to the count statement
    obtain ⟨counting, hc, hcounts⟩ := hcounting hreported
    rw [hreported] at htotal
    rw [Compiled.run_of_unknown hmain htotal hc hcounts, getD_signed64 hcounted, Option.none_or]
    rfl

/-- Whatever a backend reports, the numbers of a stream are those of its rows. Where the number of
the rows is reported, it is the size of the stream. A page with a size has all rows of the cursor,
and a total only if one is wanted: the reported one, else the counted one, else -1. Without a size,
an offset below the number of rows passes over that many of them, any other one passes over none,
and what is left is the total. Where the number of the rows is not reported, none is passed over. -/
theorem run_bookkept {rows : List Row} {count fullCount counted : Option Nat}
    (hmain : backend (.ofPlan dialect memory plan) = .ok ⟨rows.map .ok, count, fullCount⟩)
    (htrue : ∀ c, count = some c → c = rows.length)
    (hcount : ∀ c, count = some c → c < 2 ^ 63) (hfull : ∀ c, fullCount = some c → c < 2 ^ 63)
    (hcounted : ∀ c, counted = some c → c < 2 ^ 63)
    (hcounting : plan.wantsCount = true → fullCount = none →
      ∃ c, backend (.ofPlan dialect memory plan.asCount) = .ok c ∧ c.Counts counted) :
    ∃ stream, ((plan.compile dialect memory).run backend).result = .ok stream ∧
      stream.Bookkept (plan.page.getD .everything) rows count (fullCount.or counted) := by
  have hwants := plan.wantsCount_eq
  cases hwanted : plan.wantsCount with
  | true =>
    rw [hwanted, eq_comm, Bool.and_eq_true] at hwants
    refine ⟨_, result_run_of_wanted hmain hwanted hfull hcounted (hcounting hwanted), ?_⟩
    exact Stream.bookkept_of_size hwants.2 htrue hcount (by rw [if_pos hwants.1])
  | false =>
    refine ⟨_, result_run_of_unwanted hmain hwanted, ?_⟩
    cases hsize : (plan.page.getD .everything).size with
    | none => exact Stream.bookkept_of_unsized hsize htrue hcount _
    | some size =>
      -- no total is wanted for the page
      have hsome : (plan.page.getD .everything).size.isSome := by rw [hsize]; rfl
      rw [hwanted, hsome, Bool.and_true] at hwants
      have hbookkept : Stream.Bookkept (plan.page.getD .everything) rows count
          (fullCount.or counted)
          { Stream.ofCursor plan.page ⟨rows.map .ok, count, fullCount⟩ with total := none } :=
        Stream.bookkept_of_size hsome htrue hcount (by rw [← hwants]; rfl)
      rw [Stream.ofCursor_of_size hsome] at hbookkept ⊢
      rw [← hwants] at hbookkept ⊢
      exact hbookkept

/-- Two of twelve rows, the fourth and the fifth; the twelve are only told if they are counted. -/
def halfPage : List Row := [[("i", .nat 3)], [("i", .nat 4)]]

/-- A backend that counts twelve rows, and has half a page of them. -/
def counter : Backend := fun s =>
  if s.isCount then .ok ⟨[.ok [("count", .nat 12)]], some 1, none⟩
  else .ok ⟨halfPage.map .ok, some 2, none⟩

theorem run_bookkept_counter :
    let plan := build ⟨[], none, "T", none⟩
      { Request.ofStage .released with page := some ⟨3, some 2, true⟩ }
    plan.wantsCount = true ∧
    (∀ dialect, counter (.ofPlan dialect none plan) = .ok ⟨halfPage.map .ok, some 2, none⟩) ∧
    ∀ dialect, ∃ stream, ((plan.compile dialect none).run counter).result = .ok stream ∧
      stream.offset = 3 ∧ stream.size = 2 ∧ stream.rows = halfPage.map .ok ∧
      stream.total = some 12 := by
  intro plan
  have hmain (dialect : Dialect) :
      counter (.ofPlan dialect none plan) = .ok ⟨halfPage.map .ok, some 2, none⟩ := rfl
  refine ⟨rfl, hmain, fun dialect => ?_⟩
  have hcounting : ∃ c, counter (.ofPlan dialect none plan.asCount) = .ok c ∧ c.Counts (some 12) :=
    ⟨_, rfl, .number rfl⟩
  have hsmall (n : Nat) (hn : n < 2 ^ 63) : ∀ c, some n = some c → c < 2 ^ 63 := by
    rintro c ⟨⟩
    exact hn
  obtain ⟨stream, hrun, hbookkept⟩ := run_bookkept (hmain dialect) (by rintro c ⟨⟩; rfl)
    (hsmall 2 (by decide)) nofun (hsmall 12 (by decide)) (fun _ _ => hcounting)
  obtain ⟨hrows, htotal⟩ := hbookkept.sized rfl
  have hsize := hbookkept.size_eq rfl
  rw [hrows] at hsize
  exact ⟨stream, hrun, hbookkept.offset_eq, hsize, hrows, htotal⟩

end Plan

end GraphQuery
