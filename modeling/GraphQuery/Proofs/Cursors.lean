import GraphQuery.Proofs.Access
import GraphQuery.Proofs.Discovery
import GraphQuery.Session
import Mathlib.Data.List.Infix

/-!
# GraphQuery.Proofs.Cursors — every cursor is closed once

A run opens a cursor for its rows, and one more where it has to count them. The second one does not
outlive the run. The first one goes with the stream that the run gives, if it gives one.

1. **Traces**: events that close nothing before it is opened, and what they leave open.
2. **Runs** of statements and of compiled queries, whatever the backend answers.
3. **Scopes** leave nothing open.
4. **Sessions** have as many cursors open as they hold streams, through all that is done with them.
5. **Rejected** queries are never executed.
-/

namespace GraphQuery

open Json

/-! ## Traces -/

namespace Event

/-- What an event adds to the number of open cursors. -/
def balance : Event → Int
  | .executed _ true => 1
  | .executed _ false => 0
  | .closed _ => -1

/-- What events add to it, one after the other. -/
def net : List Event → Int
  | [] => 0
  | event :: rest => event.balance + net rest

@[simp] theorem net_nil : net [] = 0 := rfl

@[simp] theorem net_cons (event : Event) (rest : List Event) :
    net (event :: rest) = event.balance + net rest := rfl

end Event

/-- No cursor is closed before it is opened. In the end `n` cursors of rows are open, and no cursor
of a count. -/
structure Leaves (n : Nat) (events : List Event) : Prop where
  opened_first : ∀ before, before <+: events → ∀ count,
    before.count (.closed count) ≤ before.count (.executed count true)
  rows : events.count (.executed false true) = events.count (.closed false) + n
  counts : events.count (.executed true true) = events.count (.closed true)

/-- A finished trace: each cursor in it was opened and then closed, and neither happened twice. -/
structure ClosedOnce (events : List Event) : Prop extends Leaves 0 events where
  opened_le : ∀ count, events.count (.executed count true) ≤ 1

/-- What it takes to leave cursors open, in terms of counts: no cursor is closed that is not
open. -/
theorem leaves_iff (n : Nat) (events : List Event) : Leaves n events ↔
    (∀ before ∈ events.inits, ∀ count,
      before.count (.closed count) ≤ before.count (.executed count true)) ∧
    events.count (.executed false true) = events.count (.closed false) + n ∧
    events.count (.executed true true) = events.count (.closed true) := by
  simp only [List.mem_inits]
  exact ⟨fun h => ⟨h.opened_first, h.rows, h.counts⟩, fun h => ⟨h.1, h.2.1, h.2.2⟩⟩

instance (n : Nat) (events : List Event) : Decidable (Leaves n events) :=
  decidable_of_iff' _ (leaves_iff n events)

/-- The net of events: openings less closings. -/
theorem Event.net_eq (events : List Event) : net events =
    events.count (.executed false true) + events.count (.executed true true) -
      (events.count (.closed false) + events.count (.closed true) : Int) := by
  induction events with
  | nil => rfl
  | cons event rest ih =>
    rw [net_cons, ih]
    rcases event with ⟨_ | _, _ | _⟩ | ⟨_ | _⟩ <;> simp [Event.balance] <;> omega

namespace Leaves

variable {m n : Nat} {events more before : List Event}

/-- Events one after the other leave open what both do. -/
theorem append (h : Leaves m events) (hmore : Leaves n more) : Leaves (m + n) (events ++ more) where
  opened_first := by
    intro before hbefore count
    rcases List.prefix_or_prefix_of_prefix hbefore (events.prefix_append more) with
      hin | ⟨rest, rfl⟩
    · exact h.opened_first before hin count
    · have hrest := (List.prefix_append_right_inj events).mp hbefore
      have hfirst := h.opened_first events List.prefix_rfl count
      have hthen := hmore.opened_first rest hrest count
      simp only [List.count_append]
      omega
  rows := by
    have hfirst := h.rows
    have hthen := hmore.rows
    simp only [List.count_append]
    omega
  counts := by rw [List.count_append, List.count_append, h.counts, hmore.counts]

/-- One of the open cursors is closed. -/
theorem close (h : Leaves (n + 1) events) : Leaves n (events ++ [.closed false]) where
  opened_first := by
    intro before hbefore count
    rcases List.prefix_concat_iff.mp hbefore with rfl | hin
    · have hfirst := h.opened_first events List.prefix_rfl count
      have hrows := h.rows
      cases count <;> simp <;> omega
    · exact h.opened_first before hin count
  rows := by
    have hrows := h.rows
    simp
    omega
  counts := by simpa using h.counts

/-- The net of events is the number of cursors that they leave open. -/
theorem net_eq (h : Leaves n events) : Event.net events = n := by
  rw [Event.net_eq, h.rows, h.counts]
  omega

/-- There are never more closings than openings before them. -/
theorem net_nonneg (h : Leaves n events) (hbefore : before <+: events) :
    0 ≤ Event.net before := by
  have hrows := h.opened_first before hbefore false
  have hcounts := h.opened_first before hbefore true
  rw [Event.net_eq]
  omega

end Leaves

/-! ## Runs -/

/-- Number of cursors that go with a result. -/
def held (result : Except Error Stream) : Nat := if result.isOk then 1 else 0

/-- While the stream of a run is held, its cursor alone is open. However the stream is read, in
full, in part or not at all, no cursor is open when it is gone, and none was closed twice. -/
structure Run.ClosesOnce (r : Run Stream) : Prop where
  leaves : Leaves (held r.result) r.events
  finished : ∀ {α : Type} (read : Stream → Except Error α), ClosedOnce (r.finish read).events

/-- The ways in which a compiled query runs, with the number of cursors that are left open. -/
inductive Course : Nat → List Event → Prop
  | failed : Course 0 [.executed false false]
  | opened : Course 1 [.executed false true]
  | counted : Course 1 [.executed false true, .executed true true, .closed true]
  | countFailed : Course 0 [.executed false true, .executed true false, .closed false]
  | miscounted : Course 0 [.executed false true, .executed true true, .closed true, .closed false]

/-- A course leaves open what it says. -/
theorem Course.leaves {n : Nat} {events : List Event} (h : Course n events) : Leaves n events := by
  cases h <;> decide

/-- In a course, no cursor is opened twice. -/
theorem Course.opened_le {n : Nat} {events : List Event} (h : Course n events) :
    ∀ count, events.count (.executed count true) ≤ 1 := by
  cases h <;> decide

/-- Opening a stream runs one of the courses. -/
theorem course_openStream (backend : Backend) (s : Statement) :
    Course (held (openStream backend s).result) (openStream backend s).events := by
  unfold openStream
  cases backend s with
  | error e => exact .failed
  | ok cursor => exact .opened

/-- A count has failed where its statement did, or where its cursor does not hold a number. -/
theorem closedOnce_runCount (backend : Backend) (s : Statement) :
    ClosedOnce (runCount backend s).events := by
  unfold runCount
  cases backend s with
  | error e =>
    dsimp only
    exact ⟨by decide, by decide⟩
  | ok cursor =>
    dsimp only
    exact ⟨by decide, by decide⟩

/-- So does running a compiled query. -/
theorem Compiled.course_run (backend : Backend) (c : Compiled) :
    Course (held (c.run backend).result) (c.run backend).events := by
  have hmain := course_openStream backend c.statement
  unfold run
  dsimp only
  split
  · rename_i stream count hresult _
    split
    · -- the rows are open, and their total is left to the count
      have hopened : (openStream backend c.statement).events = [.executed false true] := by
        unfold openStream at hresult ⊢
        cases hbackend : backend c.statement with
        | error e =>
          rw [hbackend] at hresult
          cases hresult
        | ok cursor => rfl
      rw [hopened]
      unfold runCount
      cases backend count with
      | error e => exact .countFailed
      | ok cursor =>
        dsimp only
        cases readCount cursor with
        | error e => exact .miscounted
        | ok n => exact .counted
    · exact hmain
  · exact hmain

/-- A finished run leaves nothing open. -/
theorem Run.leaves_finish {α : Type} {r : Run Stream} (h : Leaves (held r.result) r.events)
    (read : Stream → Except Error α) : Leaves 0 (r.finish read).events := by
  unfold finish
  rcases r with ⟨_ | stream, events⟩
  · exact h
  · exact h.close

/-- A run that takes one of the courses closes each cursor once. -/
theorem Run.closesOnce_of_course {r : Run Stream} (h : Course (held r.result) r.events) :
    r.ClosesOnce where
  leaves := h.leaves
  finished := fun read => by
    refine ⟨leaves_finish h.leaves read, fun count => ?_⟩
    have hle := h.opened_le count
    unfold finish
    rcases r with ⟨_ | stream, events⟩
    · exact hle
    · simpa using hle

/-! ### On a store -/

/-- Other rows of the same cursor. -/
def Run.mapRows (f : Row → Row) (r : Run Stream) : Run Stream :=
  { r with result := r.result.map (Stream.mapRows f) }

/-- Changing the rows changes nothing about what is held. -/
theorem Run.held_mapRows (f : Row → Row) (r : Run Stream) :
    held (r.mapRows f).result = held r.result := by
  rcases r with ⟨_ | _, _⟩ <;> rfl

theorem Run.mapRows_id (r : Run Stream) : r.mapRows id = r := by
  have hrow : Except.map (ε := Error) (id : Row → Row) = id := by
    funext row
    cases row <;> rfl
  rcases r with ⟨_ | stream, events⟩
  · rfl
  · change ⟨.ok { stream with rows := stream.rows.map (Except.map id) }, events⟩ = (_ : Run Stream)
    rw [hrow, List.map_id]

namespace Store

/-- A query is rejected before anything is executed, or it is compiled and run. -/
theorem runQuery_cases (st : Store) (settings : Settings) (q : Query) (r : Request) :
    (∃ e, st.runQuery settings q r = ⟨.error e, []⟩) ∨
      ∃ c, st.runQuery settings q r = Compiled.run (st.backend r.stage) c := by
  unfold runQuery
  cases st.prepare settings q r with
  | error e => exact .inl ⟨e, rfl⟩
  | ok c => exact .inr ⟨c, rfl⟩

/-- So is a submission, whose rows may be extended by a vocabulary. -/
theorem answer_cases (st : Store) (settings : Settings) (reader : Option User) (s : Submission) :
    (∃ e, st.answer settings reader s = ⟨.error e, []⟩) ∨
      ∃ c f, st.answer settings reader s = (Compiled.run (st.backend s.stage) c).mapRows f := by
  unfold answer
  dsimp only
  split
  · exact .inl ⟨_, rfl⟩
  · rename_i q access _
    rcases st.runQuery_cases settings q (s.request access) with ⟨e, hrun⟩ | ⟨c, hrun⟩
    · rw [hrun]
      split <;> exact .inl ⟨e, rfl⟩
    · rw [hrun]
      split
      · exact .inr ⟨c, _, rfl⟩
      · exact .inr ⟨c, id, (Run.mapRows_id _).symm⟩

/-- A query leaves open the cursor of its stream, if it gives one. -/
theorem leaves_runQuery (st : Store) (settings : Settings) (q : Query) (r : Request) :
    Leaves (held (st.runQuery settings q r).result) (st.runQuery settings q r).events := by
  rcases st.runQuery_cases settings q r with ⟨e, hrun⟩ | ⟨c, hrun⟩
  · rw [hrun]
    exact (by decide : Leaves 0 [])
  · rw [hrun]
    exact (c.course_run _).leaves

/-- So does the answer to a submission. -/
theorem leaves_answer (st : Store) (settings : Settings) (reader : Option User) (s : Submission) :
    Leaves (held (st.answer settings reader s).result) (st.answer settings reader s).events := by
  rcases st.answer_cases settings reader s with ⟨e, hrun⟩ | ⟨c, f, hrun⟩
  · rw [hrun]
    exact (by decide : Leaves 0 [])
  · rw [hrun, Run.held_mapRows]
    exact (c.course_run _).leaves

end Store

/-! ## Scopes -/

namespace ScopeRun

/-- A step that leaves no cursor open. -/
def Releases {α : Type} (x : Walk α) : Prop :=
  ∀ p, Leaves 0 p.events → Leaves 0 (x.run p).2.events

theorem Releases.pure {α : Type} (a : α) : Releases (pure a : Walk α) := fun _ h => h

/-- A walk releases its cursors if its steps do. -/
theorem Releases.bind {α β : Type} {x : Walk α} {f : α → Walk β} (hx : Releases x)
    (hf : ∀ a, Releases (f a)) : Releases (x >>= f) := by
  intro p hp
  have hnext := hx p hp
  rw [run_bind]
  cases hrun : x.run p with
  | mk result p' =>
    rw [hrun] at hnext
    cases result with
    | error e => exact hnext
    | ok a => exact hf a p' hnext

theorem Releases.mapM {α β : Type} {f : α → Walk β} (hf : ∀ a, Releases (f a)) (xs : List α) :
    Releases (xs.mapM f) := by
  induction xs with
  | nil => exact .pure []
  | cons x rest ih =>
    rw [List.mapM_cons]
    exact (hf x).bind fun y => ih.bind fun ys => .pure (y :: ys)

variable (c : ScopeRun) {deeper : List Element → Walk (List Element)}

theorem releases_claim (es : List Element) : Releases (claim es) := fun _ h => h

/-- The rows of a query are drained, and the stream is given up. -/
theorem releases_rowsOf (id : InstanceId) (q : Query) : Releases (c.rowsOf id q) := by
  intro p hp
  have hrun := Run.leaves_finish (c.store.leaves_runQuery c.settings q
    { Request.ofStage c.stage with root := some id }) Stream.drain
  unfold rowsOf
  dsimp only
  rw [run_bind]
  have hboth := hp.append hrun
  cases ((c.store.runQuery c.settings q
    { Request.ofStage c.stage with root := some id }).finish Stream.drain).result <;> exact hboth

/-- The queries of an element release their cursors. -/
theorem releases_reported (id : InstanceId) (types : List String) :
    Releases (c.reported id types) :=
  (Releases.mapM (c.releases_rowsOf id) _).bind fun _ => .pure _

theorem releases_discovered (e : Element) : Releases (c.discovered e) := by
  unfold discovered
  split
  · exact .pure []
  · exact (c.releases_reported _ _).bind fun _ => .pure _

mutual

/-- So does the expansion of an element, if deeper expansions do. -/
theorem releases_expandTree (hdeeper : ∀ es, Releases (deeper es)) :
    ∀ e, Releases (c.expandTree deeper e)
  | ⟨id, types, label, children, reference, space⟩ => by
    rw [expandTree]
    refine (c.releases_discovered _).bind fun es => (releases_claim es).bind fun found => ?_
    cases found with
    | nil => exact (releases_expandChildren hdeeper children).bind fun _ => .pure _
    | cons e rest => exact (hdeeper _).bind fun _ => .pure _

theorem releases_expandChildren (hdeeper : ∀ es, Releases (deeper es)) :
    ∀ children, Releases (c.expandChildren deeper children)
  | none => by
    rw [expandChildren]
    exact .pure none
  | some children => by
    rw [expandChildren]
    exact (releases_expandTrees hdeeper children).bind fun _ => .pure _

theorem releases_expandTrees (hdeeper : ∀ es, Releases (deeper es)) :
    ∀ es, Releases (c.expandTrees deeper es)
  | [] => by
    rw [expandTrees]
    exact .pure []
  | e :: rest => by
    rw [expandTrees]
    exact (releases_expandTree hdeeper e).bind fun _ =>
      (releases_expandTrees hdeeper rest).bind fun _ => .pure _

end

/-- So does the expansion of a forest, by induction on the depth. -/
theorem releases_expand (stored : Nat) : ∀ es, Releases (c.expand stored es) := by
  induction stored with
  | zero => exact c.releases_expandTrees Releases.pure
  | succ stored ih => exact c.releases_expandTrees ih

theorem releases_tree (doc : Document) : Releases (c.tree doc) :=
  (c.releases_reported _ _).bind fun _ => (releases_claim _).bind fun _ =>
    (c.releases_expand _ _).bind fun _ => .pure _

end ScopeRun

/-- A scope leaves nothing open. -/
theorem Store.leaves_scope (st : Store) (settings : Settings) (stage : Stage) (id : InstanceId)
    (options : ScopeOptions) : Leaves 0 (st.scope settings stage id options).2 := by
  have hnone : Leaves 0 [] := by decide
  unfold scope
  cases (st.data stage).get? id.uuid with
  | none => exact hnone
  | some doc =>
    dsimp only
    split
    · exact ScopeRun.releases_tree _ doc _ hnone
    · exact hnone

/-! ## Sessions -/

namespace Store

/-- Events are recorded one after the other. -/
theorem recordAll_append (st : Store) (events more : List Event) :
    st.recordAll (events ++ more) = (st.recordAll events).recordAll more := List.foldl_append

/-- A cursor that its holder has closed is not counted once more when it closes itself. -/
theorem cursorBalance_close (st : Store) : st.close.cursorBalance = st.cursorBalance - 1 := rfl

/-- Recording events adds their net to the balance. -/
theorem cursorBalance_recordAll (st : Store) (events : List Event) :
    (st.recordAll events).cursorBalance = st.cursorBalance + Event.net events := by
  induction events generalizing st with
  | nil => simp [recordAll]
  | cons event rest ih =>
    have hrecord : (st.record event).cursorBalance = st.cursorBalance + event.balance := by
      cases event with
      | executed count opened => cases opened <;> simp [record, Event.balance]
      | closed count => exact (cursorBalance_close st).trans Int.sub_eq_add_neg
    have hrest := ih (st.record event)
    rw [hrecord] at hrest
    rw [Event.net_cons, ← Int.add_assoc]
    exact hrest

end Store

namespace Session

/-- What can be done with the statements and the streams of a session. -/
inductive Action
  | query (settings : Settings) (reader : Option User) (sub : Submission)
  | openStream (settings : Settings) (reader : Option User) (sub : Submission)
  | next (i : Nat)
  | drop (i : Nat)
  | scope (settings : Settings) (stage : Stage) (id : InstanceId) (options : ScopeOptions)

/-- What an action leaves behind. -/
def perform (s : Session) : Action → Session
  | .query settings reader sub => (s.query settings reader sub).2
  | .openStream settings reader sub => (s.openStream settings reader sub).2
  | .next i => (s.next i).2
  | .drop i => s.drop i
  | .scope settings stage id options => (s.scope settings stage id options).2

/-- What actions leave behind, one after the other. -/
def performAll (s : Session) (actions : List Action) : Session := actions.foldl perform s

/-- What happens to statements during an action. -/
def trace (s : Session) : Action → List Event
  | .query settings reader sub =>
    ((s.store.answer settings reader sub).finish Stream.drain).events
  | .openStream settings reader sub => (s.store.answer settings reader sub).events
  | .next _ => []
  | .drop i => if i < s.streams.length then [.closed false] else []
  | .scope settings stage id options => (s.store.scope settings stage id options).2

/-- An action does to the store what its trace says, and nothing else. -/
theorem store_perform (s : Session) (a : Action) :
    (s.perform a).store = s.store.recordAll (s.trace a) := by
  cases a with
  | query settings reader sub =>
    unfold perform trace query openStream drop Run.finish
    dsimp only
    cases (s.store.answer settings reader sub).result with
    | error e => rfl
    | ok stream =>
      dsimp only
      rw [if_pos (by simp), Store.recordAll_append]
      rfl
  | openStream settings reader sub =>
    unfold perform trace openStream
    dsimp only
    cases (s.store.answer settings reader sub).result <;> rfl
  | next i =>
    unfold perform trace next
    dsimp only
    cases s.streams[i]? <;> rfl
  | drop i =>
    unfold perform trace drop
    dsimp only
    split <;> rfl
  | scope settings stage id options => rfl

/-- The streams change as the open cursors do. -/
theorem length_streams_perform (s : Session) (a : Action) :
    ((s.perform a).streams.length : Int) =
      s.streams.length + Event.net (s.trace a) := by
  cases a with
  | query settings reader sub =>
    have hleaves := Run.leaves_finish (s.store.leaves_answer settings reader sub) Stream.drain
    unfold perform trace
    rw [hleaves.net_eq]
    unfold query openStream drop
    dsimp only
    cases (s.store.answer settings reader sub).result with
    | error e => simp
    | ok stream => simp [List.length_eraseIdx]
  | openStream settings reader sub =>
    have hleaves := s.store.leaves_answer settings reader sub
    unfold perform trace
    rw [hleaves.net_eq]
    unfold openStream
    dsimp only
    cases (s.store.answer settings reader sub).result <;> simp [held, Except.isOk, Except.toBool]
  | next i =>
    unfold perform trace next
    dsimp only
    cases s.streams[i]? <;> simp
  | drop i =>
    unfold perform trace drop
    dsimp only
    split
    · rename_i hi
      rw [List.length_eraseIdx_of_lt hi]
      simp only [Event.net_cons, Event.net_nil, Event.balance]
      omega
    · simp
  | scope settings stage id options =>
    have hleaves := s.store.leaves_scope settings stage id options
    unfold perform trace
    rw [hleaves.net_eq]
    simp [scope]

/-- As many cursors are open as streams are held. -/
def Balanced (s : Session) : Prop := s.store.cursorBalance = s.streams.length

/-- An action keeps the balance: it is the number of streams that are open. -/
theorem Balanced.perform {s : Session} (h : s.Balanced) (a : Action) : (s.perform a).Balanced := by
  unfold Balanced at h ⊢
  rw [store_perform, Store.cursorBalance_recordAll, length_streams_perform, h]

/-- So do any actions. -/
theorem Balanced.performAll {s : Session} (h : s.Balanced) (actions : List Action) :
    (s.performAll actions).Balanced := by
  induction actions generalizing s with
  | nil => exact h
  | cons a rest ih => exact ih (h.perform a)

/-- The number of open cursors stays non-negative through an action. -/
theorem Balanced.cursorBalance_nonneg {s : Session} (h : s.Balanced) (a : Action)
    {before : List Event} (hbefore : before <+: s.trace a) :
    0 ≤ (s.store.recordAll before).cursorBalance := by
  unfold Balanced at h
  rw [Store.cursorBalance_recordAll, h]
  -- only a drop closes what an earlier action opened
  have hopening {n : Nat} (hleaves : Leaves n (s.trace a)) :
      0 ≤ (s.streams.length : Int) + Event.net before := by
    have hnonneg := hleaves.net_nonneg hbefore
    omega
  cases a with
  | query settings reader sub =>
    exact hopening (Run.leaves_finish (s.store.leaves_answer settings reader sub) Stream.drain)
  | openStream settings reader sub => exact hopening (s.store.leaves_answer settings reader sub)
  | next i => exact hopening (by decide : Leaves 0 [])
  | scope settings stage id options =>
    exact hopening (s.store.leaves_scope settings stage id options)
  | drop i =>
    unfold trace at hbefore
    dsimp only at hbefore
    split at hbefore
    · have hpos : 0 < s.streams.length := by omega
      rcases List.prefix_cons_iff.mp hbefore with rfl | ⟨rest, rfl, hrest⟩
      · simp
      · rw [List.prefix_nil.mp hrest]
        simp only [Event.net_cons, Event.net_nil, Event.balance]
        omega
    · rw [List.prefix_nil.mp hbefore]
      simp

end Session

/-! ## Rejected queries -/

/-- A failure of a submission itself: its query breaks a rule, or its user may not ask for it. -/
def Error.OfSubmission (e : Error) : Prop :=
  (∃ reason, e = .validation reason) ∨ ∃ reason, e = .forbidden reason

/-- A fault of a submission is none of a statement. -/
theorem Error.OfSubmission.not_ofStatement {e : Error} (h : e.OfSubmission) : ¬e.OfStatement := by
  rcases h with ⟨_, rfl⟩ | ⟨_, rfl⟩ <;> rintro (⟨_, h⟩ | ⟨_, h⟩) <;> cases h

/-- A stream without failures. -/
def Stream.Sound (s : Stream) : Prop := ∃ rows : List Row, s.rows = rows.map .ok

/-- A sound stream is read to its end. -/
theorem Stream.Sound.drain {s : Stream} (h : s.Sound) : ∃ page, s.drain = .ok page := by
  obtain ⟨rows, hrows⟩ := h
  unfold Stream.drain
  rw [hrows, mapM_id_map_ok]
  exact ⟨_, rfl⟩

theorem Stream.sound_ofCursor (page : Option PageRequest) {c : Cursor}
    (h : ∃ rows : List Row, c.rows = rows.map .ok) : (Stream.ofCursor page c).Sound := by
  obtain ⟨rows, hrows⟩ := h
  unfold ofCursor
  dsimp only
  rw [hrows]
  split
  · exact ⟨rows, rfl⟩
  · split
    · exact ⟨_, (List.map_drop ..).symm⟩
    · exact ⟨rows, rfl⟩
  · exact ⟨rows, rfl⟩

namespace Store

variable {st : Store} {settings : Settings} {stream : Stream} {e : Error}

/-- A stream of a store is sound: no row of it fails. -/
theorem sound_openStream {stage : Stage} {s : Statement}
    (h : (openStream (st.backend stage) s).result = .ok stream) : stream.Sound := by
  unfold openStream at h
  cases hbackend : st.backend stage s with
  | error e =>
    rw [hbackend] at h
    cases h
  | ok cursor =>
    rw [hbackend] at h
    cases h
    exact Stream.sound_ofCursor _ (ok_of_backend hbackend)

theorem sound_run {stage : Stage} {c : Compiled}
    (h : (c.run (st.backend stage)).result = .ok stream) : stream.Sound := by
  unfold Compiled.run at h
  dsimp only at h
  split at h
  · rename_i opened count hopened _
    have hsound := sound_openStream hopened
    split at h
    · split at h
      · -- the count adds a total to the rows
        cases h
        exact hsound
      · cases h
    · exact sound_openStream h
  · exact sound_openStream h

theorem sound_answer {reader : Option User} {s : Submission}
    (h : (st.answer settings reader s).result = .ok stream) : stream.Sound := by
  rcases st.answer_cases settings reader s with ⟨e, hrun⟩ | ⟨c, f, hrun⟩
  · rw [hrun] at h
    cases h
  · rw [hrun] at h
    unfold Run.mapRows at h
    cases hresult : (c.run (st.backend s.stage)).result with
    | error e =>
      rw [hresult] at h
      cases h
    | ok opened =>
      rw [hresult] at h
      obtain ⟨rows, hrows⟩ := sound_run hresult
      cases h
      refine ⟨rows.map f, ?_⟩
      rw [Stream.mapRows, hrows, List.map_map, List.map_map]
      rfl

/-- Statements do not fail for what is wrong with a submission. -/
theorem events_answer_of_rejected {reader : Option User} {s : Submission} (he : e.OfSubmission)
    (h : (st.answer settings reader s).result = .error e) :
    (st.answer settings reader s).events = [] := by
  rcases st.answer_cases settings reader s with ⟨e', hrun⟩ | ⟨c, f, hrun⟩
  · rw [hrun]
  · rw [hrun] at h
    unfold Run.mapRows at h
    cases hresult : (c.run (st.backend s.stage)).result with
    | error e' =>
      rw [hresult] at h
      cases h
      exact absurd (run_eq_error hresult) he.not_ofStatement
    | ok opened =>
      rw [hresult] at h
      cases h

end Store

namespace Session

variable {s : Session} {settings : Settings} {reader : Option User} {sub : Submission} {e : Error}

/-- Opening a stream answers as the store does. -/
theorem openStream_fst (s : Session) (settings : Settings) (reader : Option User)
    (sub : Submission) :
    (s.openStream settings reader sub).1 = (s.store.answer settings reader sub).result := by
  unfold openStream
  dsimp only
  cases (s.store.answer settings reader sub).result <;> rfl

/-- A query answers as the store does, with all rows. -/
theorem query_fst (s : Session) (settings : Settings) (reader : Option User) (sub : Submission) :
    (s.query settings reader sub).1 =
      (s.store.answer settings reader sub).result.bind Stream.drain := by
  unfold query openStream
  dsimp only
  cases (s.store.answer settings reader sub).result <;> rfl

/-- Nothing is executed for a stream that is rejected. -/
theorem openStream_of_rejected (he : e.OfSubmission)
    (h : (s.openStream settings reader sub).1 = .error e) :
    s.trace (.openStream settings reader sub) = [] ∧ (s.openStream settings reader sub).2 = s := by
  rw [openStream_fst] at h
  have hevents := Store.events_answer_of_rejected he h
  refine ⟨hevents, ?_⟩
  unfold openStream Store.after
  dsimp only
  rw [h, hevents]
  rfl

/-- Reading what a store has found does not fail, so a query can only be rejected before it runs. -/
theorem query_of_rejected (he : e.OfSubmission) (h : (s.query settings reader sub).1 = .error e) :
    s.trace (.query settings reader sub) = [] ∧ (s.query settings reader sub).2 = s := by
  rw [query_fst] at h
  cases hresult : (s.store.answer settings reader sub).result with
  | ok stream =>
    obtain ⟨page, hpage⟩ := (Store.sound_answer hresult).drain
    rw [hresult] at h
    exact nomatch hpage.symm.trans h
  | error e' =>
    rw [hresult] at h
    cases h
    have hopen := hresult
    rw [← openStream_fst] at hopen
    obtain ⟨htrace, hsession⟩ := openStream_of_rejected he hopen
    constructor
    · unfold trace Run.finish
      dsimp only
      rw [hresult]
      exact htrace
    · unfold query
      dsimp only
      rw [hopen]
      exact hsession

end Session

/-! ## Cursors -/

/-- Cursors are closed once on every path. Whatever a backend answers, a count leaves no cursor
open, and neither does a statement or a compiled query once its stream is gone. On a store, through
all that is done with its streams, as many cursors are open as streams are held, and their number
never falls below zero. A query that is rejected, for its wording or for its user, executes
nothing. -/
theorem cursors_closed_once :
    (∀ (backend : Backend) (s : Statement), ClosedOnce (runCount backend s).events) ∧
    (∀ (backend : Backend) (s : Statement), (openStream backend s).ClosesOnce) ∧
    (∀ (backend : Backend) (c : Compiled), (c.run backend).ClosesOnce) ∧
    (∀ st : Store, st.cursorBalance = 0 → ∀ actions : List Session.Action,
      let s := (Session.ofStore st).performAll actions
      s.store.openCursors = s.streams.length ∧
      ∀ a, (s.perform a).store = s.store.recordAll (s.trace a) ∧
        ∀ before, before <+: s.trace a → 0 ≤ (s.store.recordAll before).cursorBalance) ∧
    ∀ (s : Session) (settings : Settings) (reader : Option User) (sub : Submission) (e : Error),
      e.OfSubmission →
      ((s.query settings reader sub).1 = .error e →
        s.trace (.query settings reader sub) = [] ∧ (s.query settings reader sub).2 = s) ∧
      ((s.openStream settings reader sub).1 = .error e →
        s.trace (.openStream settings reader sub) = [] ∧
          (s.openStream settings reader sub).2 = s) := by
  refine ⟨closedOnce_runCount,
    fun backend s => Run.closesOnce_of_course (course_openStream backend s),
    fun backend c => Run.closesOnce_of_course (c.course_run backend), ?_, ?_⟩
  · intro st hst actions s
    have hbalanced : s.Balanced := Session.Balanced.performAll (s := Session.ofStore st) hst actions
    refine ⟨?_, fun a => ⟨s.store_perform a, fun before => hbalanced.cursorBalance_nonneg a⟩⟩
    unfold Store.openCursors
    rw [hbalanced]
    rfl
  · intro s settings reader sub e he
    exact ⟨Session.query_of_rejected he, Session.openStream_of_rejected he⟩

namespace Session

open Store.Library

/-- Totals are counted apart in this dialect. -/
def counting : Settings := { Settings.default with dialect := .cypher }

/-- Asks for the name of one paper, and how many there are. -/
def firstOf : Submission := { visit [] with page := some ⟨0, some 1, true⟩ }

/-- The visitor opens two streams, reads from the second one, asks a question, gives up the first
stream and is refused the archive. -/
def day : List Action :=
  [.openStream counting (some visitor) firstOf, .openStream .default (some visitor) (visit []),
    .next 1, .query counting (some visitor) firstOf, .drop 0,
    .query .default (some visitor) (visit ["archive"])]

end Session

open Session Store.Library in
/-- At the end of the day the second stream is open, five statements have been executed, two of them
counts, and asking for the archive again executes none. -/
theorem cursors_closed_once_library :
    let s := (ofStore shelf).performAll day
    shelf.cursorBalance = 0 ∧ s.streams.length = 1 ∧ s.store.openCursors = 1 ∧
    s.store.executions = 5 ∧
    (∃ reason, (s.query .default (some visitor) (visit ["archive"])).1 =
      .error (.forbidden reason)) ∧
    (s.query .default (some visitor) (visit ["archive"])).2 = s := by
  intro s
  obtain ⟨-, -, -, hsessions, hrejected⟩ := cursors_closed_once
  have hstreams : s.streams.length = 1 := by decide +kernel
  have hexecutions : s.store.executions = 5 := by decide +kernel
  have hopen := (hsessions shelf rfl day).1
  have hforbidden : (s.query .default (some visitor) (visit ["archive"])).1 =
      .error (.forbidden "user visitor cannot read any of the requested spaces") := rfl
  have hsame := (hrejected s .default (some visitor) (visit ["archive"]) _ (.inr ⟨_, rfl⟩)).1
    hforbidden
  exact ⟨rfl, hstreams, hopen.trans hstreams, hexecutions, ⟨_, hforbidden⟩, hsame.2⟩

end GraphQuery
