import GraphQuery.Proofs.Access
import GraphQuery.Proofs.Agreement
import GraphQuery.Proofs.AqlScripts
import GraphQuery.Proofs.CypherScripts
import GraphQuery.Proofs.Failure
import GraphQuery.Session
import Mathlib.Algebra.Group.Nat.Defs

/-!
# GraphQuery.Proofs.Paging — pages of a result

A page with a size is cut out of the rows that its query gives without a page, whatever dialect the
rows come through.

1. **Selections**: what a plan selects depends neither on its page nor on whether it only counts.
2. **Cuts**: the page that is made of all rows of a plan.
3. **Runs** of a compiled query give that page, in both dialects.
4. **Queries** give the cut of what they match.
5. **Sessions** are left with the same data.
6. **Turning pages** reads the rows from the first page on, without a gap.
-/

namespace GraphQuery

open Json

/-! ## Selections -/

/-- What is selected does not depend on the page, and counting selects the same. -/
theorem evaluate_with_page (data : StageData) (p : Plan) (page : Option PageRequest)
    (countOnly : Bool) (memory : Option Nat) :
    evaluate data { p with page, countOnly } memory = evaluate data p memory := by
  have hagree (patterns : Dictionary Pattern) :
      (Evaluator.mk data { p with page, countOnly } patterns).Agree (Evaluator.mk data p patterns)
        fun _ => True := {
    patterns := rfl
    spec := rfl
    conditions := rfl
    roots := rfl
    seen_root := fun _ _ => trivial
    neighbors := fun _ _ _ _ => rfl
    seen_neighbor := fun _ _ _ _ _ _ => trivial }
  unfold evaluate
  have hpatterns : Plan.patterns { p with page, countOnly } = p.patterns := rfl
  rw [hpatterns]
  congr 1
  funext patterns
  rw [Evaluator.buildRows_congr (hagree patterns)]

/-! ## Cuts -/

/-- The page that is made of all rows of a plan. Without a size, rows are only passed over if some
are left. Numbers of rows are signed numbers of 64 bits. -/
def Page.cut (page : Option PageRequest) (rows : List Row) : Page :=
  match page with
  | some ⟨offset, some size, returnTotal⟩ =>
    let shown := (rows.drop offset).take size
    ⟨shown, if returnTotal then some (signed64 rows.length) else none, signed64 shown.length, offset⟩
  | page =>
    let offset := (page.getD .everything).offset
    let shown := if offset < rows.length then rows.drop offset else rows
    ⟨shown, some (signed64 shown.length), signed64 shown.length, offset⟩

/-- A page with a size cuts the rows from its offset to its size. -/
theorem Page.cut_sized (offset size : Nat) (returnTotal : Bool) (rows : List Row) :
    cut (some ⟨offset, some size, returnTotal⟩) rows =
      ⟨(rows.drop offset).take size, if returnTotal then some (signed64 rows.length) else none,
        signed64 ((rows.drop offset).take size).length, offset⟩ := rfl

/-- A page without a size passes over its offset only while that is within the rows. -/
theorem Page.cut_unsized (offset : Nat) (returnTotal : Bool) (rows : List Row) :
    cut (some ⟨offset, none, returnTotal⟩) rows =
      let shown := if offset < rows.length then rows.drop offset else rows
      ⟨shown, some (signed64 shown.length), signed64 shown.length, offset⟩ := rfl

/-- No page is the page of everything. -/
theorem Page.cut_none (rows : List Row) : cut none rows = cut (some .everything) rows := rfl

/-- A small number is itself as a signed number. -/
theorem signed64_of_lt {n : Nat} (h : n < 2 ^ 63) : signed64 n = n := by
  have hpow : Nat.pow 2 64 = 2 ^ 64 := rfl
  unfold signed64
  rw [hpow, Int.bmod_eq_of_le (by omega) (by omega)]

/-! ## Runs -/

namespace Stream

/-- A stream without failures is drained to all its rows. -/
theorem drain_map_ok (rows : List Row) (total : Option Int) (size : Int) (offset : Nat) :
    drain ⟨rows.map .ok, total, size, offset⟩ = .ok ⟨rows, total, size, offset⟩ := by
  unfold drain
  rw [mapM_id_map_ok]
  rfl

theorem ofCursor_none (c : Cursor) : ofCursor none c = ofCursor (some .everything) c := rfl

/-- A cursor becomes a stream with its counts. -/
theorem ofCursor_sized (offset size : Nat) (returnTotal : Bool) (rows : List (Except Error Row))
    (count : Nat) (fullCount : Option Nat) :
    ofCursor (some ⟨offset, some size, returnTotal⟩) ⟨rows, some count, fullCount⟩ =
      ⟨rows, if returnTotal then some ((fullCount.map signed64).getD (-1)) else none,
        signed64 count, offset⟩ := by
  unfold ofCursor
  simp only [Option.getD_some]
  rw [Option.map_some, Option.getD_some]

/-- Without a size, rows are passed over if some are left, and what remains is counted. -/
theorem ofCursor_unsized (offset : Nat) (returnTotal : Bool) (rows : List (Except Error Row))
    (count : Nat) (fullCount : Option Nat) :
    ofCursor (some ⟨offset, none, returnTotal⟩) ⟨rows, some count, fullCount⟩ =
      if 0 < offset ∧ offset < count then
        ⟨rows.drop offset, some (signed64 (count - offset)), signed64 (count - offset), offset⟩
      else ⟨rows, some (signed64 count), signed64 count, offset⟩ := by
  by_cases hpassed : 0 < offset ∧ offset < count
  · rw [if_pos hpassed]
    simp [ofCursor, hpassed]
  · rw [if_neg hpassed]
    have hnot : (0 < offset && offset < count) = false := by simpa using hpassed
    unfold ofCursor
    simp only [Option.getD_some, hnot, Bool.false_eq_true, if_false]
    rw [Option.map_some, Option.getD_some]

/-- A stream whose page has no size needs no count to be complete. -/
theorem drain_unsized (offset : Nat) (returnTotal : Bool) (rows : List Row)
    (fullCount : Option Nat) :
    (ofCursor (some ⟨offset, none, returnTotal⟩) ⟨rows.map .ok, some rows.length, fullCount⟩).drain =
      .ok (Page.cut (some ⟨offset, none, returnTotal⟩) rows) := by
  rw [ofCursor_unsized, Page.cut_unsized]
  by_cases hlt : offset < rows.length
  · by_cases hpos : 0 < offset
    · -- some rows are passed over
      simp [hlt, hpos, ← List.map_drop, drain_map_ok]
    · obtain rfl : offset = 0 := by omega
      simp [hlt, drain_map_ok]
  · -- an offset beyond the rows is left alone
    simp [hlt, drain_map_ok]

end Stream

namespace Compiled

variable {backend : Backend} {s c : Statement} {stream : Stream}

/-- A total that the backend has not reported is counted; a reported one is the same. -/
theorem result_run_of_count {n : Nat} (h : (openStream backend s).result = .ok stream)
    (hcount : (runCount backend c).result = .ok (some n))
    (htotal : stream.total = some (-1) ∨ stream.total = some (signed64 n)) :
    (Compiled.run backend ⟨s, some c⟩).result =
      .ok { stream with total := some (signed64 n) } := by
  unfold run
  dsimp only
  rw [h]
  by_cases hunknown : stream.total = some (-1)
  · dsimp only
    rw [if_pos hunknown, hcount]
    dsimp only
    rw [Option.map_some, Option.getD_some]
  · -- the total is known, and putting it in once more changes nothing
    have hsame : { stream with total := some (signed64 n) } = stream := by
      rcases stream with ⟨rows, total, size, offset⟩
      cases htotal.resolve_left hunknown
      rfl
    dsimp only
    rw [if_neg hunknown, h, hsame]

end Compiled

/-- Which rows a backend is asked to count beside those of a page with a size. -/
theorem Statement.fullCount_ofPlan (dialect : Dialect) (memory : Option Nat) {p : Plan}
    (hcount : p.countOnly = false) {offset size : Nat} {returnTotal : Bool}
    (hpage : p.page = some ⟨offset, some size, returnTotal⟩) :
    ((ofPlan dialect memory p).options.fullCount && dialect = .aql) =
      (returnTotal && dialect = .aql) := by
  cases dialect with
  | aql =>
    have hoptions := Aql.options_script .atSign p
    rw [hcount, hpage] at hoptions
    have hfull : (ofPlan .aql memory p).options = ⟨returnTotal, false⟩ := hoptions
    rw [hfull]
  | cypher => simp

namespace Store

variable {st : Store} {stage : Stage} {p : Plan} {memory : Option Nat} {rows : List Row}

theorem pageRows_none (rows : List Row) : pageRows none rows = rows := rfl

theorem pageRows_unsized (offset : Nat) (returnTotal : Bool) (rows : List Row) :
    pageRows (some ⟨offset, none, returnTotal⟩) rows = rows := rfl

theorem pageRows_sized (offset size : Nat) (returnTotal : Bool) (rows : List Row) :
    pageRows (some ⟨offset, some size, returnTotal⟩) rows = (rows.drop offset).take size := rfl

/-- The rows of a plan are counted by their number. -/
theorem runCount_asCount (dialect : Dialect)
    (hrows : evaluate (st.data stage) p memory = .ok rows) :
    (runCount (st.backend stage) (.ofPlan dialect memory p.asCount)).result =
      .ok (some rows.length) := by
  have hcounted : evaluate (st.data stage) p.asCount memory = .ok rows :=
    (evaluate_with_page (st.data stage) p none true memory).trans hrows
  have hbackend : st.backend stage (.ofPlan dialect memory p.asCount) = _ :=
    congrArg (· >>= _) hcounted
  unfold runCount
  rw [hbackend]
  rfl

/-- A stream before its total is counted: the rows of the page, and in AQL the total already. -/
theorem openStream_ofPlan (dialect : Dialect) (hcount : p.countOnly = false)
    (hrows : evaluate (st.data stage) p memory = .ok rows) :
    (openStream (st.backend stage) (.ofPlan dialect memory p)).result =
      .ok (.ofCursor p.page ⟨(pageRows p.page rows).map .ok, some (pageRows p.page rows).length,
        if (Statement.ofPlan dialect memory p).options.fullCount && dialect = .aql then
          some rows.length else none⟩) := by
  have hisCount : (Statement.ofPlan dialect memory p).isCount = false := hcount
  have hbackend : st.backend stage (.ofPlan dialect memory p) = _ := congrArg (· >>= _) hrows
  unfold openStream
  rw [hbackend, hisCount]
  rfl

/-- A compiled query, run and drained, gives the cut of all its rows in both dialects: a total that
the backend does not report is counted apart, and the count fails only where the rows did. -/
theorem drain_run (st : Store) (stage : Stage) (dialect : Dialect) (memory : Option Nat)
    (hcount : p.countOnly = false) :
    ((p.compile dialect memory).run (st.backend stage)).result.bind Stream.drain =
      (evaluate (st.data stage) p memory).map (Page.cut p.page) := by
  have hcompile : p.compile dialect memory = ⟨.ofPlan dialect memory p,
      if p.wantsCount then some (.ofPlan dialect memory p.asCount) else none⟩ := rfl
  cases hrows : evaluate (st.data stage) p memory with
  | error e =>
    have hbackend : st.backend stage (.ofPlan dialect memory p) = .error e :=
      congrArg (· >>= _) hrows
    unfold Compiled.run openStream Plan.compile
    dsimp only
    rw [hbackend]
    rfl
  | ok rows =>
    have hmain := openStream_ofPlan dialect hcount hrows
    have hcounted := runCount_asCount dialect hrows
    rw [hcompile]
    rcases hpage : p.page with _ | ⟨offset, _ | size, returnTotal⟩
    case none =>
      have hwants : p.wantsCount = false := by simp [Plan.wantsCount, hpage]
      rw [hpage, pageRows_none, Stream.ofCursor_none] at hmain
      rw [hwants, if_neg Bool.false_ne_true, run_without_count, hmain]
      simp only [Except.bind, Except.map, Page.cut_none]
      exact Stream.drain_unsized 0 false rows _
    case some.none =>
      have hwants : p.wantsCount = false := by simp [Plan.wantsCount, hpage]
      rw [hpage, pageRows_unsized] at hmain
      rw [hwants, if_neg Bool.false_ne_true, run_without_count, hmain]
      exact Stream.drain_unsized offset returnTotal rows _
    case some.some =>
      have hwants : p.wantsCount = returnTotal := by simp [Plan.wantsCount, hpage]
      have hfull := Statement.fullCount_ofPlan dialect memory hcount hpage
      rw [hfull, hpage, pageRows_sized, Stream.ofCursor_sized] at hmain
      rw [hwants]
      cases returnTotal with
      | false =>
        rw [if_neg Bool.false_ne_true] at hmain ⊢
        rw [run_without_count, hmain]
        simp only [Except.bind, Except.map, Page.cut_sized]
        rw [if_neg Bool.false_ne_true]
        exact Stream.drain_map_ok _ _ _ _
      | true =>
        -- AQL has the total already, Cypher counts it
        rw [if_pos rfl] at hmain ⊢
        rw [Compiled.result_run_of_count hmain hcounted]
        · simp only [Except.bind, Except.map, Page.cut_sized]
          rw [if_pos trivial]
          exact Stream.drain_map_ok _ _ _ _
        · by_cases haql : dialect = .aql
          · right
            dsimp only
            rw [if_pos (by simp [haql]), Option.map_some, Option.getD_some]
          · left
            dsimp only
            rw [if_neg (by simp [haql]), Option.map_none, Option.getD_none]

end Store

/-! ## Queries -/

/-- A row as an answer shows it. -/
def Query.extend (q : Query) (row : Row) : Row :=
  match q.vocabulary? with
  | some v => Vocabulary.extendRow v row
  | none => row

/-- To change each row changes each row of a page. -/
theorem Page.cut_map (f : Row → Row) (page : Option PageRequest) (rows : List Row) :
    cut page (rows.map f) = { cut page rows with rows := (cut page rows).rows.map f } := by
  have hunsized (offset : Nat) (returnTotal : Bool) :
      cut (some ⟨offset, none, returnTotal⟩) (rows.map f) =
        { cut (some ⟨offset, none, returnTotal⟩) rows with
          rows := (cut (some ⟨offset, none, returnTotal⟩) rows).rows.map f } := by
    rw [cut_unsized, cut_unsized]
    by_cases hlt : offset < rows.length <;> simp [hlt, List.map_drop]
  rcases page with _ | ⟨offset, _ | size, returnTotal⟩
  case none => exact hunsized 0 false
  case some.none => exact hunsized offset returnTotal
  case some.some =>
    rw [cut_sized, cut_sized]
    simp

/-- To change each row of a stream changes each row that is drained. -/
theorem Stream.drain_mapRows (f : Row → Row) (s : Stream) :
    (s.mapRows f).drain = s.drain.map fun page => { page with rows := page.rows.map f } := by
  -- the first failure stays the first one
  have hrows (rows : List (Except Error Row)) :
      (rows.map (·.map f)).mapM id = (rows.mapM id).map (List.map f) := by
    induction rows with
    | nil => rfl
    | cons row rest ih =>
      rw [List.map_cons, List.mapM_cons, List.mapM_cons, ih]
      cases row with
      | error e => rfl
      | ok row => cases rest.mapM id <;> rfl
  unfold drain mapRows
  rw [hrows]
  cases s.rows.mapM id <;> rfl

namespace Store

/-- All rows of a query on a store. -/
def selected (st : Store) (memory : Option Nat) (q : Query) (r : Request) :
    Except Error (List Row) := do
  let spec ← q.interpret.mapError InterpretFault.toError
  let memory := r.memory.or memory
  evaluate (st.data r.stage) (Plan.build spec { r with known := some (st.collections r.stage), memory })
    memory

/-- All rows of a submission, as its answer shows them. -/
def matched (st : Store) (memory : Option Nat) (reader : Option User) (s : Submission) :
    Except Error (List Row) := do
  let q ← (Query.ofValue s.payload).mapError fun f => (InterpretFault.query f).toError
  let access ← s.access reader (st.data s.stage).spaces
  let rows ← st.selected memory q (s.request access)
  return rows.map q.extend

/-- The rows that are selected do not depend on the page. -/
theorem selected_with_page (st : Store) (memory : Option Nat) (q : Query) (r : Request)
    (page : Option PageRequest) :
    st.selected memory q { r with page } = st.selected memory q r := by
  have hrows (spec : Specification) (memory : Option Nat) :
      evaluate (st.data r.stage)
        (Plan.build spec { r with page, known := some (st.collections r.stage), memory }) memory =
      evaluate (st.data r.stage)
        (Plan.build spec { r with known := some (st.collections r.stage), memory }) memory :=
    evaluate_with_page (st.data r.stage)
      (Plan.build spec { r with known := some (st.collections r.stage), memory }) _ false memory
  unfold selected
  dsimp only
  simp only [hrows]

/-- What a submission matches does not depend on the page that it asks for. -/
theorem matched_with_page (st : Store) (memory : Option Nat) (reader : Option User)
    (s : Submission) (page : Option PageRequest) :
    st.matched memory reader { s with page } = st.matched memory reader s := by
  have hselected (q : Query) (access : Option AccessFilter) :
      st.selected memory q (Submission.request { s with page } access) =
        st.selected memory q (s.request access) :=
    st.selected_with_page memory q (s.request access) page
  unfold matched
  simp only [hselected]
  rfl

/-- What matches depends on the data and the schema only. -/
theorem matched_congr {x y : Store} (hdata : x.data = y.data) (hschema : x.schema = y.schema)
    (memory : Option Nat) (reader : Option User) (s : Submission) :
    x.matched memory reader s = y.matched memory reader s := by
  unfold matched selected collections
  rw [hdata, hschema]

/-- A query, drained, is the cut of its rows. The dialect does not matter. -/
theorem drain_runQuery (st : Store) (settings : Settings) (q : Query) (r : Request) :
    (st.runQuery settings q r).result.bind Stream.drain =
      (st.selected settings.memory q r).map (Page.cut (Plan.effectivePage r)) := by
  unfold runQuery prepare selected
  cases q.interpret with
  | error fault => rfl
  | ok spec => exact drain_run st r.stage settings.dialect _ rfl

/-- The vocabulary is put in front of the keys row by row. -/
theorem drain_extended (q : Query) (run : Run Stream) :
    (match q.vocabulary? with
      | some v => { run with result := run.result.map (Stream.mapRows (Vocabulary.extendRow v)) }
      | none => run).result.bind Stream.drain =
    (run.result.bind Stream.drain).map fun page => { page with rows := page.rows.map q.extend } := by
  rcases run with ⟨result, events⟩
  cases hvocabulary : q.vocabulary? with
  | none =>
    have hextend : q.extend = id := by
      funext row
      simp [Query.extend, hvocabulary]
    cases result with
    | error e => rfl
    | ok stream =>
      simp only [hextend, List.map_id, Except.bind]
      cases stream.drain <;> rfl
  | some v =>
    have hextend : q.extend = Vocabulary.extendRow v := by
      funext row
      simp [Query.extend, hvocabulary]
    rw [hextend]
    cases result with
    | error e => rfl
    | ok stream => exact stream.drain_mapRows (Vocabulary.extendRow v)

/-- A submission that is admitted matches the rows of its query. -/
theorem matched_of_admitted {st : Store} {memory : Option Nat} {reader : Option User}
    {s : Submission} {q : Query} {access : Option AccessFilter}
    (hq : Query.ofValue s.payload = .ok q)
    (haccess : s.access reader (st.data s.stage).spaces = .ok access) :
    st.matched memory reader s =
      (st.selected memory q (s.request access)).map (List.map q.extend) := by
  unfold matched
  rw [hq, haccess]
  change (st.selected memory q (s.request access) >>= fun rows => pure (rows.map q.extend)) = _
  cases st.selected memory q (s.request access) <;> rfl

/-- An answer, drained, is the cut of what its submission matches. -/
theorem drain_answer (st : Store) (settings : Settings) (reader : Option User) (s : Submission) :
    (st.answer settings reader s).result.bind Stream.drain =
      (st.matched settings.memory reader s).map (Page.cut (Plan.effectivePage (s.request none))) := by
  cases hq : Query.ofValue s.payload with
  | error fault =>
    unfold answer matched
    rw [hq]
    rfl
  | ok q =>
    cases haccess : s.access reader (st.data s.stage).spaces with
    | error e =>
      unfold answer matched
      rw [hq, haccess]
      rfl
    | ok access =>
      have hrun := st.drain_runQuery settings q (s.request access)
      have hpage : Plan.effectivePage (s.request access) = Plan.effectivePage (s.request none) := rfl
      rw [matched_of_admitted hq haccess]
      unfold answer
      rw [hq, haccess]
      simp only [mapError_ok, bind, pure, Except.pure]
      refine (drain_extended q _).trans ?_
      rw [hrun, hpage]
      cases st.selected settings.memory q (s.request access) with
      | error e => rfl
      | ok rows => exact congrArg Except.ok (Page.cut_map q.extend _ rows).symm

/-- What happens to statements leaves the stored data and the schema alone. -/
theorem recordAll_keeps_data (st : Store) (events : List Event) :
    (st.recordAll events).data = st.data ∧ (st.recordAll events).schema = st.schema := by
  induction events generalizing st with
  | nil => exact ⟨rfl, rfl⟩
  | cons event rest ih =>
    have hrecord : (st.record event).data = st.data ∧ (st.record event).schema = st.schema := by
      cases event <;> exact ⟨rfl, rfl⟩
    obtain ⟨hdata, hschema⟩ := ih (st.record event)
    exact ⟨hdata.trans hrecord.1, hschema.trans hrecord.2⟩

end Store

/-! ## Sessions -/

namespace Session

/-- A query on a session answers with the cut of what it matches, in both dialects. -/
theorem query_eq_cut (s : Session) (settings : Settings) (reader : Option User)
    (sub : Submission) : (s.query settings reader sub).1 =
      (s.store.matched settings.memory reader sub).map
        (Page.cut (Plan.effectivePage (sub.request none))) := by
  rw [← Store.drain_answer]
  unfold query openStream
  dsimp only
  cases (s.store.answer settings reader sub).result <;> rfl

/-- A query leaves the stored data and the schema alone. -/
theorem query_keeps_data (s : Session) (settings : Settings) (reader : Option User)
    (sub : Submission) : (s.query settings reader sub).2.store.data = s.store.data ∧
      (s.query settings reader sub).2.store.schema = s.store.schema := by
  have hafter := s.store.recordAll_keeps_data (s.store.answer settings reader sub).events
  unfold query openStream drop
  dsimp only
  cases (s.store.answer settings reader sub).result with
  | error e => exact hafter
  | ok stream =>
    dsimp only
    split <;> exact hafter

/-! ## Turning pages -/

/-- Asks for the page of a size at an offset, then for the next page, and so on, and gathers their
rows. -/
def turnPages (settings : Settings) (reader : Option User) (sub : Submission) (size : Nat)
    (returnTotal : Bool) : Nat → Nat → Session → Except Error (List Row)
  | 0, _, _ => .ok []
  | n + 1, offset, s => do
    let (page, s) :=
      s.query settings reader { sub with page := some ⟨offset, some size, returnTotal⟩ }
    return (← page).rows ++ (← turnPages settings reader sub size returnTotal n (offset + size) s)

variable {s : Session} {settings : Settings} {reader : Option User} {sub : Submission}

/-- A query for everything shows all that matches. -/
theorem matched_of_query {whole : Page} (hroot : sub.root = none)
    (h : (s.query settings reader { sub with page := none }).1 = .ok whole) :
    s.store.matched settings.memory reader sub = .ok whole.rows := by
  have hpage : Plan.effectivePage (Submission.request { sub with page := none } none) = none := by
    simp [Plan.effectivePage, Submission.request, hroot]
  rw [query_eq_cut, Store.matched_with_page, hpage] at h
  cases hmatched : s.store.matched settings.memory reader sub with
  | error e =>
    rw [hmatched] at h
    cases h
  | ok rows =>
    rw [hmatched] at h
    obtain rfl : Page.cut none rows = whole := Except.ok.inj h
    -- nothing is passed over
    rw [Page.cut_none, PageRequest.everything, Page.cut_unsized]
    simp

/-- A query for a page shows its part of what matches. -/
theorem query_of_matched {rows : List Row} (hroot : sub.root = none)
    (h : s.store.matched settings.memory reader sub = .ok rows) (offset size : Nat)
    (returnTotal : Bool) :
    (s.query settings reader { sub with page := some ⟨offset, some size, returnTotal⟩ }).1 =
      .ok (Page.cut (some ⟨offset, some size, returnTotal⟩) rows) := by
  have hpage : Plan.effectivePage (Submission.request
      { sub with page := some ⟨offset, some size, returnTotal⟩ } none) =
        some ⟨offset, some size, returnTotal⟩ := by
    simp [Plan.effectivePage, Submission.request, hroot]
  rw [query_eq_cut, Store.matched_with_page, hpage, h]
  rfl

/-- Pages of a size that follow each other hold the rows from the first offset on. -/
theorem turnPages_eq {rows : List Row} (hroot : sub.root = none) (size : Nat) (returnTotal : Bool)
    (n offset : Nat) (h : s.store.matched settings.memory reader sub = .ok rows) :
    turnPages settings reader sub size returnTotal n offset s =
      .ok ((rows.drop offset).take (n * size)) := by
  -- induction on the number of pages, for any session that matches the same rows
  induction n generalizing offset s with
  | zero => simp [turnPages]
  | succ n ih =>
    have hquery := query_of_matched hroot h offset size returnTotal
    obtain ⟨hdata, hschema⟩ := s.query_keeps_data settings reader
      { sub with page := some ⟨offset, some size, returnTotal⟩ }
    have hnext := ih (offset + size) ((Store.matched_congr hdata hschema _ _ _).trans h)
    have hrows : (Page.cut (some ⟨offset, some size, returnTotal⟩) rows).rows =
        (rows.drop offset).take size := by
      rw [Page.cut_sized]
    have hjoin : (rows.drop offset).take size ++ (rows.drop (offset + size)).take (n * size) =
        (rows.drop offset).take ((n + 1) * size) := by
      rw [Nat.succ_mul, Nat.add_comm (n * size), List.take_add, List.drop_drop]
    unfold turnPages
    dsimp only
    rw [hquery, hnext]
    change Except.ok ((Page.cut (some ⟨offset, some size, returnTotal⟩) rows).rows ++ _) = _
    rw [hrows, hjoin]

/-- Pages partition the result, and both dialects agree. Where a query without a page gives some
rows, a page with a size gives those of them that it asks for, with their number, and their total
where that is wanted; pages of one size that follow each other give all rows, each of them once.
Totals are signed numbers of 64 bits, which tell apart as many rows as fit into memory. -/
theorem query_page (s : Session) (settings : Settings) (reader : Option User) (sub : Submission)
    (hroot : sub.root = none) :
    (∀ whole, (s.query settings reader { sub with page := none }).1 = .ok whole →
      (∀ offset size returnTotal, size < 2 ^ 63 → ∃ page,
        (s.query settings reader { sub with page := some ⟨offset, some size, returnTotal⟩ }).1 =
          .ok page ∧
        page.rows = (whole.rows.drop offset).take size ∧
        page.size = page.rows.length ∧
        page.total = (if returnTotal then some (signed64 whole.rows.length) else none)) ∧
      (whole.rows.length < 2 ^ 63 → signed64 whole.rows.length = whole.rows.length) ∧
      (∀ size returnTotal n, 1 ≤ size → whole.rows.length ≤ n * size →
        turnPages settings reader sub size returnTotal n 0 s = .ok whole.rows)) ∧
    (s.query { settings with dialect := .aql } reader sub).1 =
      (s.query { settings with dialect := .cypher } reader sub).1 := by
  constructor
  · intro whole hwhole
    have hmatched := matched_of_query hroot hwhole
    refine ⟨?_, signed64_of_lt, ?_⟩
    · intro offset size returnTotal hsize
      -- a page has no more rows than its size
      have hlength : ((whole.rows.drop offset).take size).length ≤ size := List.length_take_le _ _
      refine ⟨_, query_of_matched hroot hmatched offset size returnTotal, ?_⟩
      rw [Page.cut_sized]
      dsimp only
      refine ⟨rfl, signed64_of_lt (by omega), ?_⟩
      rfl
    · intro size returnTotal n _ hn
      rw [turnPages_eq hroot size returnTotal n 0 hmatched, List.drop_zero,
        List.take_of_length_le hn]
  · rw [query_eq_cut, query_eq_cut]

open Store.Library in
/-- The visitor turns the pages of the library, one paper a page: the first page has the paper and
the total, and there is nothing on the second one. -/
theorem query_page_library :
    let s := ofStore shelf
    let u := some visitor
    (visit []).root = none ∧
    ∃ whole, (s.query .default u { visit [] with page := none }).1 = .ok whole ∧
      whole.rows.length = 1 ∧
      (∃ page, (s.query .default u { visit [] with page := some ⟨0, some 1, true⟩ }).1 = .ok page ∧
        page.rows = whole.rows ∧ page.size = 1 ∧ page.total = some 1) ∧
      turnPages .default u (visit []) 1 false 2 0 s = .ok whole.rows := by
  intro s u
  have hroot : (visit []).root = none := rfl
  have hlength : ((s.query .default u { visit [] with page := none }).1.toOption.map
      fun page => page.rows.length) = some 1 := by decide +kernel
  obtain ⟨whole, hwhole, hone⟩ : ∃ whole,
      (s.query .default u { visit [] with page := none }).1 = .ok whole ∧ whole.rows.length = 1 := by
    cases hquery : (s.query .default u { visit [] with page := none }).1 with
    | error e =>
      rw [hquery] at hlength
      cases hlength
    | ok whole =>
      rw [hquery] at hlength
      exact ⟨whole, rfl, Option.some.inj hlength⟩
  obtain ⟨hpages, hsigned, hturned⟩ := (query_page s .default u (visit []) hroot).1 whole hwhole
  obtain ⟨page, hpage, hrows, hsize, htotal⟩ := hpages 0 1 true (by decide)
  rw [List.drop_zero, List.take_of_length_le (Nat.le_of_eq hone)] at hrows
  rw [hrows, hone] at hsize
  rw [if_pos rfl, hsigned (by rw [hone]; decide), hone] at htotal
  exact ⟨hroot, whole, hwhole, hone, ⟨page, hpage, hrows, hsize, htotal⟩,
    hturned 1 false 2 (by decide) (by rw [hone]; decide)⟩

end Session

end GraphQuery
