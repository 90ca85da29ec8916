import GraphQuery.Proofs.Schemas

/-!
# GraphQuery.Proofs.Retries — a budget of retries, and what it weathers

1. **Outcomes** of a call that is run again and again.
2. **Budgets**: the first outcome that is not a transient failure is the answer, if it comes within
   the budget; otherwise the last failure is reported, with the number of runs.
3. **Faltering** calls, which fail as often as failures are pending.
4. **Provisioning** weathers as many pending failures as it has retries.
-/

namespace GraphQuery

namespace Schema

/-! ## Outcomes -/

/-- The schema after some runs of a call. -/
def afterRuns (call : Call Unit) (s : Schema) : Nat → Schema
  | 0 => s
  | n + 1 => afterRuns call (call.run s).2 n

theorem afterRuns_succ (call : Call Unit) (s : Schema) (n : Nat) :
    afterRuns call s (n + 1) = (call.run (afterRuns call s n)).2 := by
  induction n generalizing s with
  | zero => rfl
  | succ n ih => exact ih (call.run s).2

/-- What comes of the next run after some runs of a call. -/
def outcome (call : Call Unit) (s : Schema) (n : Nat) : Except Error Unit :=
  (call.run (afterRuns call s n)).1

/-- An outcome that is tried again. -/
def IsTransient (result : Except Error Unit) : Prop :=
  ∃ e : Error, result = .error e ∧ e.isTransient = true

section Budgets

variable {call : Call Unit} {attempts retries : Nat} {s : Schema}

/-- A call whose first outcome is final is made once. -/
theorem withRetries_of_decided (h : ¬ IsTransient (outcome call s 0)) :
    (withRetries call attempts retries).run s = call.run s := by
  change withRetries call attempts retries s = call s
  rcases hrun : call s with ⟨e | done, s'⟩
  · have he : ¬ e.isTransient = true := fun he => h ⟨e, congrArg Prod.fst hrun, he⟩
    cases retries <;>
      · simp only [withRetries, hrun]
        exact if_neg he
  · cases retries <;> simp only [withRetries, hrun]

/-- Without retries left, a transient failure is reported. -/
theorem withRetries_zero_of_transient {e : Error} (h : outcome call s 0 = .error e)
    (he : e.isTransient = true) : (withRetries call attempts 0).run s =
      (.error (.unavailable (attempts + 1) e.message), afterRuns call s 1) := by
  have hrun : call s = (.error e, afterRuns call s 1) := Prod.ext h rfl
  change withRetries call attempts 0 s = _
  simp only [withRetries, hrun]
  exact if_pos he

/-- With retries left, the call is run again on the schema that the failed run left. -/
theorem withRetries_succ_of_transient (h : IsTransient (outcome call s 0)) :
    (withRetries call attempts (retries + 1)).run s =
      (withRetries call (attempts + 1) retries).run (afterRuns call s 1) := by
  rcases h with ⟨e, h, he⟩
  have hrun : call s = (.error e, afterRuns call s 1) := Prod.ext h rfl
  change withRetries call attempts (retries + 1) s = _
  simp only [withRetries, hrun]
  exact if_pos he

/-! ## Budgets -/

/-- Run by run: a decided run ends the matter, a transient failure costs a retry. -/
theorem withRetries_decided {k : Nat} (hk : k ≤ retries)
    (hbefore : ∀ j < k, IsTransient (outcome call s j))
    (hdecided : ¬ IsTransient (outcome call s k)) :
    (withRetries call attempts retries).run s = (outcome call s k, afterRuns call s (k + 1)) := by
  induction k generalizing attempts retries s with
  | zero => exact withRetries_of_decided hdecided
  | succ k ih =>
    obtain ⟨retries, rfl⟩ : ∃ n, retries = n + 1 := ⟨retries - 1, by omega⟩
    rw [withRetries_succ_of_transient (hbefore 0 (by omega))]
    exact ih (by omega) (fun j hj => hbefore (j + 1) (by omega)) hdecided

/-- A call that fails transiently to the end is reported as unavailable, with the number of its
attempts. -/
theorem withRetries_exhausted (attempts : Nat)
    (h : ∀ j ≤ retries, IsTransient (outcome call s j)) :
    ∃ e, outcome call s retries = .error e ∧ (withRetries call attempts retries).run s =
      (.error (.unavailable (attempts + retries + 1) e.message),
        afterRuns call s (retries + 1)) := by
  induction retries generalizing attempts s with
  | zero =>
    rcases h 0 (by omega) with ⟨e, houtcome, he⟩
    exact ⟨e, houtcome, withRetries_zero_of_transient houtcome he⟩
  | succ retries ih =>
    rcases ih (attempts + 1) (s := afterRuns call s 1) (fun j hj => h (j + 1) (by omega)) with
      ⟨e, houtcome, hrun⟩
    refine ⟨e, houtcome, ?_⟩
    rw [withRetries_succ_of_transient (h 0 (by omega)), hrun, Nat.add_right_comm attempts 1 retries]
    rfl

/-- A call that is run with some retries: the first run that does not fail transiently decides, and
is the last one; without such a run among the first `retries + 1`, all of these are made, and the
failure of the last one is reported. -/
structure Budgeted (call : Call Unit) (retries : Nat) (s : Schema) : Prop where
  decided : ∀ k ≤ retries, (∀ j < k, IsTransient (outcome call s j)) →
    ¬ IsTransient (outcome call s k) →
    (withRetries call 0 retries).run s = (outcome call s k, afterRuns call s (k + 1))
  exhausted : (∀ j ≤ retries, IsTransient (outcome call s j)) →
    ∃ e, outcome call s retries = .error e ∧ (withRetries call 0 retries).run s =
      (.error (.unavailable (retries + 1) e.message), afterRuns call s (retries + 1))

/-- Every call keeps its budget of retries. -/
theorem budgeted (call : Call Unit) (retries : Nat) (s : Schema) : Budgeted call retries s where
  decided := fun _ hk hbefore hdecided => withRetries_decided hk hbefore hdecided
  exhausted := fun h => by simpa only [Nat.zero_add] using withRetries_exhausted 0 h

end Budgets

/-- A call with the given outcomes, one after the other, that counts its runs as creations. -/
def scripted (outcomes : Nat → Except Error Unit) : Call Unit := fun s =>
  (outcomes s.creations, { s with creations := s.creations + 1 })

/-- Each run of a scripted call is counted as a creation. -/
theorem afterRuns_scripted (outcomes : Nat → Except Error Unit) (s : Schema) (n : Nat) :
    afterRuns (scripted outcomes) s n = { s with creations := s.creations + n } := by
  induction n generalizing s with
  | zero => rfl
  | succ n ih =>
    change afterRuns (scripted outcomes) { s with creations := s.creations + 1 } n = _
    rw [ih]
    simp only [Schema.mk.injEq, true_and]
    omega

/-- The outcomes of a scripted call are those of the script. -/
theorem outcome_scripted (outcomes : Nat → Except Error Unit) (s : Schema) (n : Nat) :
    outcome (scripted outcomes) s n = outcomes (s.creations + n) := by
  unfold outcome
  rw [afterRuns_scripted]
  rfl

/-! ## Faltering calls -/

section Faltering

variable {α β : Type} {s : Schema}

/-- Where no failure is pending, the call succeeds and leaves none pending. -/
def SucceedsUndisturbed (call : Call α) : Prop :=
  ∀ s : Schema, s.pendingFailures = 0 → ∃ a s', call.run s = (.ok a, s') ∧ s'.pendingFailures = 0

/-- Where failures are pending, the call is refused, which uses up one of them. -/
structure Faltering (call : Call α) : Prop where
  refused : ∀ s n, s.pendingFailures = n + 1 →
    call.run s = (.error refusal, { s with pendingFailures := n })
  undisturbed : SucceedsUndisturbed call

/-- A step of its own that disturbs nothing. -/
theorem SucceedsUndisturbed.of_run {call : Call α} (answer : Schema → α) (next : Schema → Schema)
    (hrun : ∀ s, call.run s = (.ok (answer s), next s))
    (hnext : ∀ s, (next s).pendingFailures = s.pendingFailures) : SucceedsUndisturbed call :=
  fun s hs => ⟨answer s, next s, hrun s, (hnext s).trans hs⟩

/-- What is refused at its first step is refused. -/
theorem Faltering.bind {x : Call α} {f : α → Call β} (hx : Faltering x)
    (hf : ∀ a, SucceedsUndisturbed (f a)) : Faltering (x >>= f) where
  refused := fun s n hs => by rw [run_bind, hx.refused s n hs]
  undisturbed := fun s hs => by
    rcases hx.undisturbed s hs with ⟨a, s', hrun, hs'⟩
    rw [run_bind, hrun]
    exact hf a s' hs'

/-- To reach the database takes away one pending failure, or succeeds. -/
theorem faltering_reach : Faltering reach where
  refused := fun s n hs => by
    rw [run_reach, if_pos (by omega), hs]
    rfl
  undisturbed := fun s hs => ⟨(), s, by rw [run_reach, if_neg (by omega)], hs⟩

theorem faltering_look (isThere : Schema → Bool) :
    Faltering (do reach; return isThere (← get)) :=
  faltering_reach.bind fun _ => .of_run isThere id (fun _ => rfl) fun _ => rfl

/-- A call that reaches the database and then adds what is missing falters as reaching it does. -/
theorem faltering_add (isThere : Schema → Bool) (added : Schema → Schema)
    (hadded : ∀ s, (added s).pendingFailures = s.pendingFailures) : Faltering (do
      reach
      let s ← get
      if !isThere s then set (added s)) := by
  refine faltering_reach.bind fun _ =>
    .of_run (fun _ => ()) (fun s => if isThere s then s else added s) (fun s => ?_) fun s => ?_
  · change (if (!isThere s) = true then set (added s) else pure () : Call Unit).run s = _
    cases isThere s <;> rfl
  · split
    · rfl
    · exact hadded s

/-- An attempt is refused at its first look, and goes through when it is not refused there. -/
theorem faltering_ensure {isThere : Call Bool} {create : Call Unit} (hlook : Faltering isThere)
    (hcreate : Faltering create) : Faltering (ensure isThere create) := by
  have hunless {rest : Call Unit} (hrest : SucceedsUndisturbed rest) :
      Faltering (isThere >>= fun found => if found then pure () else rest) := by
    refine hlook.bind fun found => ?_
    cases found with
    | true => exact .of_run (fun _ => ()) id (fun _ => rfl) fun _ => rfl
    | false => exact hrest
  exact hunless (hunless hcreate.undisturbed).undisturbed

theorem faltering_ensureDatabase (name : String) :
    Faltering (ensure (databaseExists name) (createDatabase name)) :=
  faltering_ensure (faltering_look _) (faltering_add _ _ fun _ => rfl)

theorem faltering_ensureCollection (database : String) (c : Collection) :
    Faltering (ensure (collectionExists database c) (createCollection database c)) :=
  faltering_ensure (faltering_look _) (faltering_add _ _ fun _ => rfl)

namespace Faltering

variable {call : Call Unit}

/-- Each failed run takes away one pending failure. -/
theorem afterRuns_eq (h : Faltering call) {n : Nat} (hn : n ≤ s.pendingFailures) :
    afterRuns call s n = { s with pendingFailures := s.pendingFailures - n } := by
  induction n generalizing s with
  | zero => rfl
  | succ n ih =>
    obtain ⟨m, hm⟩ : ∃ m, s.pendingFailures = m + 1 := ⟨s.pendingFailures - 1, by omega⟩
    change afterRuns call (call.run s).2 n = _
    rw [h.refused s m hm, ih (show n ≤ m by omega)]
    simp only [Schema.mk.injEq, true_and, and_true]
    omega

/-- While failures are pending, a run is refused. -/
theorem outcome_of_lt (h : Faltering call) {n : Nat} (hn : n < s.pendingFailures) :
    outcome call s n = .error refusal := by
  unfold outcome
  rw [h.afterRuns_eq (Nat.le_of_lt hn),
    h.refused _ (s.pendingFailures - n - 1) (by dsimp only; omega)]

theorem isTransient_outcome (h : Faltering call) {n : Nat} (hn : n < s.pendingFailures) :
    IsTransient (outcome call s n) :=
  ⟨refusal, h.outcome_of_lt hn, by decide⟩

/-- As many runs as failures are pending are refused, and the next one is not. -/
theorem run_withRetries_of_le (h : Faltering call) {retries : Nat}
    (hs : s.pendingFailures ≤ retries) :
    ∃ s', (withRetries call 0 retries).run s = (.ok (), s') ∧ s'.pendingFailures = 0 := by
  have hcalm : (afterRuns call s s.pendingFailures).pendingFailures = 0 := by
    rw [h.afterRuns_eq (Nat.le_refl _)]
    exact Nat.sub_self _
  rcases h.undisturbed _ hcalm with ⟨_, s', hrun, hs'⟩
  have hdone : outcome call s s.pendingFailures = .ok () := congrArg Prod.fst hrun
  have hafter : afterRuns call s (s.pendingFailures + 1) = s' := by rw [afterRuns_succ, hrun]
  refine ⟨s', ?_, hs'⟩
  rw [← hafter, ← hdone]
  refine (budgeted call retries s).decided _ hs (fun j hj => h.isTransient_outcome hj) ?_
  rintro ⟨e, he, -⟩
  rw [hdone] at he
  cases he

/-- More pending failures than retries use up the budget. -/
theorem run_withRetries_of_lt (h : Faltering call) {retries : Nat}
    (hs : retries < s.pendingFailures) :
    (withRetries call 0 retries).run s = (.error (.unavailable (retries + 1) refusal.message),
      { s with pendingFailures := s.pendingFailures - (retries + 1) }) := by
  rcases (budgeted call retries s).exhausted fun j hj => h.isTransient_outcome (by omega) with
    ⟨e, he, hrun⟩
  rw [h.outcome_of_lt hs, Except.error.injEq] at he
  rw [hrun, h.afterRuns_eq hs, he]

end Faltering

end Faltering

end Schema

/-! ## Provisioning -/

namespace Provisioner

/-- A step that gets over as many pending failures as there are retries. With more of them it fails
and reports the refusals, and nothing is changed except that these failures are used up. -/
structure Weathers (step : Step Unit) (p : Provisioner) (s : Schema) : Prop where
  within : s.pendingFailures ≤ p.retries →
    ∃ p' s', step.run (p, s) = (.ok (), p', s') ∧ s'.pendingFailures = 0
  beyond : p.retries < s.pendingFailures → step.run (p, s) =
    (.error (.unavailable (p.retries + 1) Schema.refusal.message), p,
      { s with pendingFailures := s.pendingFailures - (p.retries + 1) })

variable {p : Provisioner} {s : Schema}

theorem Weathers.of_run_eq {step step' : Step Unit} (h : Weathers step p s)
    (hrun : step'.run (p, s) = step.run (p, s)) : Weathers step' p s :=
  ⟨fun hs => hrun ▸ h.within hs, fun hs => hrun ▸ h.beyond hs⟩

/-- To learn something afterwards does not change what a retried call weathers. -/
theorem weathers_retrying {call : Schema.Call Unit} (hcall : Schema.Faltering call)
    (learn : Provisioner → Provisioner) : Weathers (do
      retrying call
      modify fun (p, s) => (learn p, s)) p s := by
  have hretrying : (retrying call).run (p, s) =
      ((Schema.withRetries call 0 p.retries).run s).map id (p, ·) := rfl
  refine ⟨fun hs => ?_, fun hs => ?_⟩
  · rcases hcall.run_withRetries_of_le hs with ⟨s', hrun, hs'⟩
    refine ⟨learn p, s', ?_, hs'⟩
    rw [run_bind, hretrying, hrun]
    rfl
  · rw [run_bind, hretrying, hcall.run_withRetries_of_lt hs]
    rfl

/-- The failures are all met by the first of two steps: the second one has to weather none. -/
theorem Weathers.bind {first second : Step Unit} (hfirst : Weathers first p s)
    (hsecond : ∀ p s, Weathers second p s) : Weathers (first >>= fun _ => second) p s where
  within := fun hs => by
    rcases hfirst.within hs with ⟨p', s', hrun, hs'⟩
    rw [run_bind, hrun]
    exact (hsecond p' s').within (by omega)
  beyond := fun hs => by rw [run_bind, hfirst.beyond hs]

/-- What is not known goes to its step. -/
theorem run_of_unknown (known : Provisioner → Bool) {step : Step Unit} (h : known p = false) : (do
      if known (← get).1 then return
      step : Step Unit).run (p, s) = step.run (p, s) := by
  change (if known p = true then pure () else step : Step Unit).run (p, s) = _
  rw [if_neg (by simp [h])]

theorem weathers_ensureDatabase {name : String} (h : name ∉ p.databases) :
    Weathers (ensureDatabase name) p s :=
  (weathers_retrying (Schema.faltering_ensureDatabase name)
    fun p => { p with databases := p.databases ++ [name] }).of_run_eq
    (run_of_unknown (·.databases.contains name) (by simpa using h))

/-- The attempts to make sure of a collection in a database that is known. -/
def attemptCollection (database : String) (c : Collection) : Step Unit := do
  retrying (Schema.ensure (Schema.collectionExists database c) (Schema.createCollection database c))
  modify fun (p, s) => ({ p with collections := p.collections ++ [(database, c)] }, s)

theorem weathers_attemptCollection (p : Provisioner) (s : Schema) (database : String)
    (c : Collection) : Weathers (attemptCollection database c) p s :=
  weathers_retrying (Schema.faltering_ensureCollection database c)
    fun p => { p with collections := p.collections ++ [(database, c)] }

/-- Where the database is known, the failures are met by the collection's own attempts; otherwise by
those for the database. -/
theorem weathers_ensureCollection {database : String} {c : Collection}
    (h : (database, c) ∉ p.collections) : Weathers (ensureCollection database c) p s := by
  have hown (p : Provisioner) (s : Schema) := weathers_attemptCollection p s database c
  have hrun : (ensureCollection database c).run (p, s) =
      (ensureDatabase database >>= fun _ => attemptCollection database c).run (p, s) :=
    run_of_unknown (·.collections.contains (database, c)) (by simpa using h)
  by_cases hknown : database ∈ p.databases
  · refine (hown p s).of_run_eq (hrun.trans ?_)
    rw [run_bind, ensureDatabase_of_known hknown]
  · exact ((weathers_ensureDatabase hknown).bind hown).of_run_eq hrun

/-- A call that is run with some retries, whatever its outcomes are, answers with the first of them
that is no transient failure, or reports the last one. In particular a provisioner with so many
retries gets over so many pending failures, in making sure of a database or of a collection that it
does not know of: with more of them it gives up after its last retry, and creates and learns
nothing. -/
theorem retries_budgeted :
    (∀ call retries s, Schema.Budgeted call retries s) ∧
    (∀ (outcomes : Nat → Except Error Unit) n,
      Schema.outcome (Schema.scripted outcomes) .empty n = outcomes n ∧
      (Schema.afterRuns (Schema.scripted outcomes) .empty n).creations = n) ∧
    ∀ p s,
      (∀ name, name ∉ p.databases → Weathers (ensureDatabase name) p s) ∧
      ∀ database c, (database, c) ∉ p.collections → Weathers (ensureCollection database c) p s := by
  refine ⟨Schema.budgeted, fun outcomes n => ⟨?_, ?_⟩, fun p s => ⟨?_, ?_⟩⟩
  · rw [Schema.outcome_scripted]
    exact congrArg outcomes (Nat.zero_add n)
  · rw [Schema.afterRuns_scripted]
    exact Nat.zero_add n
  · exact fun _ h => weathers_ensureDatabase h
  · exact fun _ _ h => weathers_ensureCollection h

/-- With two retries, the third outcome decides; two pending failures are weathered, and of four one
is left. -/
theorem retries_budgeted_two :
    let outcomes : Nat → Except Error Unit := fun n =>
      if n < 2 then .error Schema.refusal else .error (.forbidden "no")
    let p := fresh 2
    (Schema.withRetries (Schema.scripted outcomes) 0 2).run .empty =
      (.error (.forbidden "no"), { Schema.empty with creations := 3 }) ∧
    (∃ p' s', (ensureCollection "native" (.ofRelation "uses")).run
      (p, { Schema.empty with pendingFailures := 2 }) = (.ok (), p', s') ∧ s'.pendingFailures = 0) ∧
    (ensureDatabase "native").run (p, { Schema.empty with pendingFailures := 4 }) =
      (.error (.unavailable 3 Schema.refusal.message), p,
        { Schema.empty with pendingFailures := 1 }) := by
  intro outcomes p
  rcases retries_budgeted with ⟨hbudgeted, hscripted, hensure⟩
  refine ⟨?_, ?_, ?_⟩
  · have htransient : ∀ j < 2, Schema.IsTransient
        (Schema.outcome (Schema.scripted outcomes) .empty j) := fun j hj =>
      ⟨Schema.refusal, by rw [(hscripted outcomes j).1]; exact if_pos hj, by decide⟩
    refine (hbudgeted (Schema.scripted outcomes) 2 .empty).decided 2 (by decide) htransient ?_
    rintro ⟨e, he, htransient⟩
    rw [(hscripted outcomes 2).1] at he
    cases he
    cases htransient
  · exact ((hensure p _).2 "native" _ (by decide)).within (by decide)
  · exact ((hensure p _).1 "native" (by decide)).beyond (by decide)

end Provisioner

end GraphQuery
