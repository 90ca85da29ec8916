import GraphQuery.Proofs.Failure
import GraphQuery.Proofs.Membership
import GraphQuery.Session
import Mathlib.Data.List.Nodup

/-!
# GraphQuery.Proofs.Schemas — what is provisioned exists, and was created once

1. **Steps** that change a state and can fail: what holds of the state whatever comes of a step, and
   what holds where the step succeeds.
2. **Growth** of a schema: nothing that exists disappears, and creations are counted.
3. **Calls** let the schema grow. Where a call succeeds, what it was for exists, also after retries.
4. **Provisioners** remember only what exists. For what they remember they make no call.
5. **Needs** that a provisioner has met are met without a call from then on.
6. **Sessions** in which a schema is provisioned, called directly, and made to fail, by one
   provisioner after the other.
-/

namespace GraphQuery

/-! ## Steps -/

/-- Whatever comes of a step, it goes to a state that `goes` allows; and where the step succeeds, its
answer and the state are as `post` says. -/
structure Attains {σ α : Type} (goes : σ → σ → Prop) (s : σ) (step : ExceptT Error (StateM σ) α)
    (post : α → σ → Prop) : Prop where
  goes : goes s (step.run s).2
  post : ∀ a, (step.run s).1 = .ok a → post a (step.run s).2

namespace Attains

variable {σ α β : Type} {goes : σ → σ → Prop} {s : σ}

theorem of_run_ok {step : ExceptT Error (StateM σ) α} {post : α → σ → Prop} {a : α} {s' : σ}
    (hrun : step.run s = (.ok a, s')) (hgoes : goes s s') (h : post a s') :
    Attains goes s step post := by
  refine ⟨?_, fun b hb => ?_⟩
  · rw [hrun]
    exact hgoes
  · rw [hrun] at hb ⊢
    cases hb
    exact h

theorem of_run_error {step : ExceptT Error (StateM σ) α} {post : α → σ → Prop} {e : Error} {s' : σ}
    (hrun : step.run s = (.error e, s')) (hgoes : goes s s') : Attains goes s step post := by
  refine ⟨?_, fun b hb => ?_⟩
  · rw [hrun]
    exact hgoes
  · rw [hrun] at hb
    cases hb

/-- A step that goes the same way attains the same. -/
theorem congr {step step' : ExceptT Error (StateM σ) α} {post : α → σ → Prop}
    (h : Attains goes s step post) (hrun : step'.run s = step.run s) : Attains goes s step' post := by
  rcases h with ⟨hgoes, hpost⟩
  rw [← hrun] at hgoes hpost
  exact ⟨hgoes, hpost⟩

/-- What is attained implies less. -/
theorem imp {step : ExceptT Error (StateM σ) α} {post post' : α → σ → Prop}
    (h : Attains goes s step post) (himp : ∀ a s', goes s s' → post a s' → post' a s') :
    Attains goes s step post' :=
  ⟨h.goes, fun a ha => himp a _ h.goes (h.post a ha)⟩

/-- The second step starts where the first one went, and knows how it went there. -/
theorem bind {x : ExceptT Error (StateM σ) α} {f : α → ExceptT Error (StateM σ) β}
    {mid : α → σ → Prop} {post : β → σ → Prop} (hx : Attains goes s x mid)
    (htrans : ∀ {s₁ s₂ s₃}, goes s₁ s₂ → goes s₂ s₃ → goes s₁ s₃)
    (hf : ∀ a s', goes s s' → mid a s' → Attains goes s' (f a) post) :
    Attains goes s (x >>= f) post := by
  rcases hx with ⟨hgoes, hmid⟩
  rcases hrun : x.run s with ⟨e | a, s'⟩ <;> rw [hrun] at hgoes hmid
  · exact of_run_error (by rw [run_bind, hrun]) hgoes
  · have hnext := hf a s' hgoes (hmid a rfl)
    refine ⟨?_, ?_⟩ <;> rw [run_bind, hrun]
    · exact htrans hgoes hnext.goes
    · exact hnext.post

end Attains

/-! ## Growth -/

namespace Schema

/-- What exists is listed once, and its creation was counted. -/
structure Counted (s : Schema) : Prop where
  databases : s.databases.Nodup
  collections : s.collections.Nodup
  creations : s.creations = s.databases.length + s.collections.length

/-- All that exists in `s` exists in `s'`, and if creations were counted in `s`, they are in `s'`. -/
structure Grows (s s' : Schema) : Prop where
  databases : ∀ name ∈ s.databases, name ∈ s'.databases
  collections : ∀ c ∈ s.collections, c ∈ s'.collections
  counted : s.Counted → s'.Counted

namespace Grows

/-- A schema grows to itself. -/
theorem refl (s : Schema) : s.Grows s := ⟨fun _ h => h, fun _ h => h, fun h => h⟩

/-- Growing twice is growing. -/
theorem trans {s₁ s₂ s₃ : Schema} (h : s₁.Grows s₂) (h' : s₂.Grows s₃) : s₁.Grows s₃ where
  databases := fun name hname => h'.databases name (h.databases name hname)
  collections := fun c hc => h'.collections c (h.collections c hc)
  counted := fun hcounted => h'.counted (h.counted hcounted)

/-- How many calls will fail has nothing to do with what exists. -/
theorem failures (s : Schema) (n : Nat) : s.Grows { s with pendingFailures := n } :=
  ⟨fun _ h => h, fun _ h => h, fun h => ⟨h.databases, h.collections, h.creations⟩⟩

/-- A schema grows by a new database. -/
theorem addDatabase {s : Schema} {name : String} (h : name ∉ s.databases) :
    s.Grows { s with databases := s.databases ++ [name], creations := s.creations + 1 } where
  databases := fun _ hmem => List.mem_append_left _ hmem
  collections := fun _ hmem => hmem
  counted := fun hcounted =>
    { databases := hcounted.databases.append (List.nodup_singleton name) (by simpa using h)
      collections := hcounted.collections
      creations := by simp [hcounted.creations]; omega }

/-- It grows by a new collection. -/
theorem addCollection {s : Schema} {c : String × Collection} (h : c ∉ s.collections) :
    s.Grows { s with collections := s.collections ++ [c], creations := s.creations + 1 } where
  databases := fun _ hmem => hmem
  collections := fun _ hmem => List.mem_append_left _ hmem
  counted := fun hcounted =>
    { databases := hcounted.databases
      collections := hcounted.collections.append (List.nodup_singleton c) (by simpa using h)
      creations := by simp [hcounted.creations]; omega }

end Grows

/-! ## Calls -/

section Calls

/-- The failure of a call that cannot get through. -/
def refusal : Error := .ofBackend Error.connectionRefused "connection refused"

/-- A call is refused while failures are pending, and uses one up. -/
theorem run_reach (s : Schema) : reach.run s = if 0 < s.pendingFailures then
    (.error refusal, { s with pendingFailures := s.pendingFailures - 1 }) else (.ok (), s) := by
  unfold reach
  rw [run_bind]
  change (if 0 < s.pendingFailures then _ else _ : Call Unit).run s = _
  split <;> rfl

/-- A call that cannot get through changes nothing but the number of failures to come. -/
theorem attains_reach (s : Schema) : Attains Grows s reach fun _ _ => True := by
  have hrun := run_reach s
  split at hrun
  · exact .of_run_error hrun (.failures s _)
  · exact .of_run_ok hrun (.refl s) trivial

/-- Looks whether something is there. -/
theorem attains_look {isThere : Schema → Bool} {There : Schema → Prop}
    (hthere : ∀ s, isThere s = true → There s) (s : Schema) :
    Attains Grows s (do reach; return isThere (← get)) fun found s' => found = true → There s' :=
  (attains_reach s).bind Grows.trans fun _ s' _ _ =>
    .of_run_ok rfl (.refl s') (hthere s')

/-- Adds something that is not there yet. -/
theorem attains_add {isThere : Schema → Bool} {added : Schema → Schema} {There : Schema → Prop}
    (hthere : ∀ s, isThere s = true → There s) (hadded : ∀ s, There (added s))
    (hgrows : ∀ s, isThere s = false → s.Grows (added s)) (s : Schema) :
    Attains Grows s (do
      reach
      let s ← get
      if !isThere s then set (added s)) fun _ s' => There s' := by
  refine (attains_reach s).bind Grows.trans fun _ s' _ _ => ?_
  have hrun : (do
      let s ← get
      if !isThere s then set (added s) : Call Unit).run s' =
      (.ok (), if isThere s' then s' else added s') := by
    change (if (!isThere s') = true then set (added s') else pure () : Call Unit).run s' = _
    cases isThere s' <;> rfl
  cases h : isThere s' with
  | true =>
    rw [h] at hrun
    exact .of_run_ok hrun (.refl s') (hthere s' h)
  | false =>
    rw [h] at hrun
    exact .of_run_ok hrun (hgrows s' h) (hadded s')

/-- A database that is said to exist does. -/
theorem attains_databaseExists (name : String) (s : Schema) :
    Attains Grows s (databaseExists name) fun found s' => found = true → name ∈ s'.databases :=
  attains_look (fun _ => List.contains_iff_mem.mp) s

/-- After creating a database it is there. -/
theorem attains_createDatabase (name : String) (s : Schema) :
    Attains Grows s (createDatabase name) fun _ s' => name ∈ s'.databases :=
  attains_add (fun _ => List.contains_iff_mem.mp) (fun _ => by simp)
    (fun _ h => .addDatabase (by simpa using h)) s

/-- A collection that is said to exist does. -/
theorem attains_collectionExists (database : String) (c : Collection) (s : Schema) :
    Attains Grows s (collectionExists database c) fun found s' =>
      found = true → (database, c) ∈ s'.collections :=
  attains_look (fun _ => List.contains_iff_mem.mp) s

/-- After creating a collection it is there. -/
theorem attains_createCollection (database : String) (c : Collection) (s : Schema) :
    Attains Grows s (createCollection database c) fun _ s' => (database, c) ∈ s'.collections :=
  attains_add (fun _ => List.contains_iff_mem.mp) (fun _ => by simp)
    (fun _ h => .addCollection (by simpa using h)) s

variable {There : Schema → Prop}

/-- What a look finds, or else what is created, is there in the end. -/
theorem attains_ensure {isThere : Call Bool} {create : Call Unit}
    (hlook : ∀ s, Attains Grows s isThere fun found s' => found = true → There s')
    (hcreate : ∀ s, Attains Grows s create fun _ s' => There s') (s : Schema) :
    Attains Grows s (ensure isThere create) fun _ s' => There s' := by
  have hunless {rest : Call Unit} (hrest : ∀ s, Attains Grows s rest fun _ s' => There s')
      (s : Schema) : Attains Grows s (isThere >>= fun found => if found then pure () else rest)
        fun _ s' => There s' := by
    refine (hlook s).bind Grows.trans fun found s' _ hfound => ?_
    cases found with
    | true => exact .of_run_ok rfl (.refl s') (hfound rfl)
    | false => exact hrest s'
  exact hunless (hunless hcreate) s

/-- A call that is answered after a transient failure, on the schema that has grown until then. -/
theorem attains_unlessTransient (answer : Error → Call Unit) {call retried : Call Unit} {s : Schema}
    (hcall : Attains Grows s call fun _ s' => There s')
    (hanswer : ∀ e s', Attains Grows s' (answer e) fun _ s' => There s')
    (hrun : retried.run s = match call.run s with
      | (.error e, s') => if e.isTransient then (answer e).run s' else (.error e, s')
      | done => done) : Attains Grows s retried fun _ s' => There s' := by
  rcases hcall with ⟨hgrows, hthere⟩
  rcases h : call.run s with ⟨e | done, s'⟩ <;> rw [h] at hgrows hthere hrun
  · dsimp only at hrun
    split at hrun
    · have hnext := hanswer e s'
      refine ⟨?_, ?_⟩ <;> rw [hrun]
      · exact hgrows.trans hnext.goes
      · exact hnext.post
    · exact .of_run_error hrun hgrows
  · exact .of_run_ok hrun hgrows (hthere done rfl)

/-- Without retries left, the failure is the end; otherwise the next run starts where it happened. -/
theorem attains_withRetries {call : Call Unit}
    (hcall : ∀ s, Attains Grows s call fun _ s' => There s') (attempts retries : Nat) (s : Schema) :
    Attains Grows s (withRetries call attempts retries) fun _ s' => There s' := by
  induction retries generalizing attempts s with
  | zero =>
    exact attains_unlessTransient (fun e => throw (.unavailable (attempts + 1) e.message)) (hcall s)
      (fun _ s' => .of_run_error rfl (.refl s')) rfl
  | succ retries ih =>
    exact attains_unlessTransient (fun _ => withRetries call (attempts + 1) retries) (hcall s)
      (fun _ s' => ih (attempts + 1) s') rfl

end Calls

end Schema

/-! ## Provisioners -/

namespace Provisioner

/-- All that the provisioner remembers exists. A collection is remembered with its database. -/
structure Remembers (p : Provisioner) (s : Schema) : Prop where
  databases : ∀ name ∈ p.databases, name ∈ s.databases
  collections : ∀ c ∈ p.collections, c ∈ s.collections
  homes : ∀ c ∈ p.collections, c.1 ∈ p.databases

/-- What is remembered stays true while the schema grows. -/
theorem Remembers.grows {p : Provisioner} {s s' : Schema} (h : p.Remembers s) (hgrows : s.Grows s') :
    p.Remembers s' where
  databases := fun name hname => hgrows.databases name (h.databases name hname)
  collections := fun c hc => hgrows.collections c (h.collections c hc)
  homes := h.homes

/-- What `p` remembers, `p'` does. -/
structure Learns (p p' : Provisioner) : Prop where
  databases : ∀ name ∈ p.databases, name ∈ p'.databases
  collections : ∀ c ∈ p.collections, c ∈ p'.collections

/-- A provisioner learns nothing by doing nothing. -/
theorem Learns.refl (p : Provisioner) : p.Learns p := ⟨fun _ h => h, fun _ h => h⟩

theorem Learns.trans {p₁ p₂ p₃ : Provisioner} (h : p₁.Learns p₂) (h' : p₂.Learns p₃) :
    p₁.Learns p₃ where
  databases := fun name hname => h'.databases name (h.databases name hname)
  collections := fun c hc => h'.collections c (h.collections c hc)

/-- A provisioner and its schema go on: the schema grows, the provisioner learns, and if what it
remembered existed, what it remembers does. -/
structure Goes (x y : Provisioner × Schema) : Prop where
  grows : x.2.Grows y.2
  learns : x.1.Learns y.1
  remembers : x.1.Remembers x.2 → y.1.Remembers y.2

theorem Goes.refl (x : Provisioner × Schema) : Goes x x := ⟨.refl x.2, .refl x.1, fun h => h⟩

theorem Goes.trans {x y z : Provisioner × Schema} (h : Goes x y) (h' : Goes y z) : Goes x z :=
  ⟨h.grows.trans h'.grows, h.learns.trans h'.learns, fun hx => h'.remembers (h.remembers hx)⟩

section Steps

variable {p : Provisioner} {s : Schema}

/-- What a call has made sure of is remembered. -/
theorem attains_retrying (learn : Provisioner → Provisioner) {call : Schema.Call Unit}
    {There : Schema → Prop} (hcall : ∀ s, Attains Schema.Grows s call fun _ s' => There s')
    (hlearns : p.Learns (learn p))
    (hlearn : ∀ s', There s' → p.Remembers s' → (learn p).Remembers s') :
    Attains Goes (p, s) (do
      retrying call
      modify fun (p, s) => (learn p, s)) fun _ x => x.1 = learn p := by
  rcases Schema.attains_withRetries hcall 0 p.retries s with ⟨hgrows, hthere⟩
  have hretrying : (retrying call).run (p, s) =
      ((Schema.withRetries call 0 p.retries).run s).map id (p, ·) := rfl
  rcases hrun : (Schema.withRetries call 0 p.retries).run s with ⟨e | done, s'⟩ <;>
    rw [hrun] at hgrows hthere hretrying
  · have hgoes : Goes (p, s) (p, s') := ⟨hgrows, .refl p, (·.grows hgrows)⟩
    refine .of_run_error (e := e) ?_ hgoes
    rw [run_bind, hretrying]
    rfl
  · have hgoes : Goes (p, s) (learn p, s') :=
      ⟨hgrows, hlearns, fun hp => hlearn s' (hthere done rfl) (hp.grows hgrows)⟩
    refine .of_run_ok (a := ()) ?_ hgoes rfl
    rw [run_bind, hretrying]
    rfl

/-- What is known already needs no call. -/
theorem run_of_known (known : Provisioner → Bool) {step : Provisioner.Step Unit}
    (h : known p = true) : (do
      if known (← get).1 then return
      step : Provisioner.Step Unit).run (p, s) = (.ok (), p, s) := by
  change (if known p = true then pure () else step : Provisioner.Step Unit).run (p, s) = _
  rw [if_pos h]
  rfl

/-- A step that is skipped where its end is known attains it. -/
theorem attains_unless (known : Provisioner → Bool) {step : Provisioner.Step Unit}
    {post : Unit → Provisioner × Schema → Prop} (hknown : known p = true → post () (p, s))
    (hstep : Attains Goes (p, s) step post) : Attains Goes (p, s) (do
      if known (← get).1 then return
      step) post := by
  cases h : known p with
  | true => exact .of_run_ok (run_of_known known h) (.refl (p, s)) (hknown h)
  | false =>
    refine hstep.congr ?_
    change (if known p = true then pure () else step : Provisioner.Step Unit).run (p, s) = _
    rw [if_neg (by simp [h])]

/-- Nothing happens for a database that is known. -/
theorem ensureDatabase_of_known {name : String} (h : name ∈ p.databases) :
    (ensureDatabase name).run (p, s) = (.ok (), p, s) :=
  run_of_known (·.databases.contains name) (List.contains_iff_mem.mpr h)

/-- Nothing happens for a collection that is known. -/
theorem ensureCollection_of_known {database : String} {c : Collection}
    (h : (database, c) ∈ p.collections) :
    (ensureCollection database c).run (p, s) = (.ok (), p, s) :=
  run_of_known (·.collections.contains (database, c)) (List.contains_iff_mem.mpr h)

/-- Nothing happens for collections that are known. -/
theorem ensureCollections_of_known {database : String} {cs : List Collection}
    (h : ∀ c ∈ cs, (database, c) ∈ p.collections) :
    (cs.forM (ensureCollection database)).run (p, s) = (.ok (), p, s) := by
  induction cs with
  | nil => rfl
  | cons c rest ih =>
    rcases List.forall_mem_cons.mp h with ⟨hc, hrest⟩
    change (ensureCollection database c >>= fun _ =>
      rest.forM (ensureCollection database)).run (p, s) = _
    rw [run_bind, ensureCollection_of_known hc]
    exact ih hrest

/-- After ensuring a database it is remembered. -/
theorem attains_ensureDatabase (p : Provisioner) (s : Schema) (name : String) :
    Attains Goes (p, s) (ensureDatabase name) fun _ x => name ∈ x.1.databases := by
  refine attains_unless (·.databases.contains name) List.contains_iff_mem.mp ?_
  refine (attains_retrying (fun p => { p with databases := p.databases ++ [name] })
    (Schema.attains_ensure (Schema.attains_databaseExists name) (Schema.attains_createDatabase name))
    ⟨fun _ => List.mem_append_left _, fun _ h => h⟩ fun s' hname hp => ?_).imp fun _ x _ hx => ?_
  · exact
      { databases := List.forall_mem_append.mpr ⟨hp.databases, List.forall_mem_singleton.mpr hname⟩
        collections := hp.collections
        homes := fun c hc => List.mem_append_left _ (hp.homes c hc) }
  · rw [hx]
    exact List.mem_append_right _ (List.mem_singleton_self name)

/-- The database is made sure of first, so that it is remembered with the collection. -/
theorem attains_ensureCollection (p : Provisioner) (s : Schema) (database : String)
    (c : Collection) :
    Attains Goes (p, s) (ensureCollection database c) fun _ x => (database, c) ∈ x.1.collections := by
  refine attains_unless (·.collections.contains (database, c)) List.contains_iff_mem.mp ?_
  refine (attains_ensureDatabase p s database).bind Goes.trans fun _ (p', s') _ hdatabase => ?_
  refine (attains_retrying (fun p => { p with collections := p.collections ++ [(database, c)] })
    (Schema.attains_ensure (Schema.attains_collectionExists database c)
      (Schema.attains_createCollection database c))
    ⟨fun _ h => h, fun _ => List.mem_append_left _⟩ fun s'' hc hp => ?_).imp fun _ x _ hx => ?_
  · exact
      { databases := hp.databases
        collections := List.forall_mem_append.mpr
          ⟨hp.collections, List.forall_mem_singleton.mpr hc⟩
        homes := List.forall_mem_append.mpr
          ⟨hp.homes, List.forall_mem_singleton.mpr hdatabase⟩ }
  · rw [hx]
    exact List.mem_append_right _ (List.mem_singleton_self (database, c))

/-- After ensuring collections they are all remembered. -/
theorem attains_ensureCollections (p : Provisioner) (s : Schema) (database : String)
    (cs : List Collection) :
    Attains Goes (p, s) (cs.forM (ensureCollection database)) fun _ x =>
      ∀ c ∈ cs, (database, c) ∈ x.1.collections := by
  induction cs generalizing p s with
  | nil => exact .of_run_ok rfl (.refl (p, s)) (by simp)
  | cons c rest ih =>
    refine (attains_ensureCollection p s database c).bind Goes.trans fun _ (p', s') _ hc => ?_
    refine (ih p' s').imp fun _ x hgoes hrest => ?_
    exact List.forall_mem_cons.mpr ⟨hgoes.learns.collections _ hc, hrest⟩

end Steps

end Provisioner

/-! ## Needs -/

/-- What a provisioner can be asked to make sure of. -/
inductive Need
  | database (name : String)
  | collection (database : String) (c : Collection)
  | stage (stage : Stage) (cs : List Collection)
deriving Repr, DecidableEq

namespace Need

/-- The step that meets a need. -/
def step : Need → Provisioner.Step Unit
  | database name => Provisioner.ensureDatabase name
  | collection home c => Provisioner.ensureCollection home c
  | stage st cs => Provisioner.ensureStage st cs

/-- The database that is needed. -/
def home : Need → String
  | database name => name
  | collection home _ => home
  | stage st _ => st.database

/-- The collections that are needed in it. -/
def collections : Need → List Collection
  | database _ => []
  | collection _ c => [c]
  | stage _ cs => cs

/-- What a need asks for is in the schema. -/
structure MetBy (need : Need) (s : Schema) : Prop where
  database : need.home ∈ s.databases
  collections : ∀ c ∈ need.collections, (need.home, c) ∈ s.collections

/-- What a need asks for is remembered. -/
structure KnownTo (need : Need) (p : Provisioner) : Prop where
  database : need.home ∈ p.databases
  collections : ∀ c ∈ need.collections, (need.home, c) ∈ p.collections

variable {need : Need} {p p' : Provisioner} {s : Schema}

/-- A provisioner that learns forgets no need. -/
theorem KnownTo.learns (h : need.KnownTo p) (hlearns : p.Learns p') : need.KnownTo p' where
  database := hlearns.databases _ h.database
  collections := fun c hc => hlearns.collections _ (h.collections c hc)

/-- What a provisioner remembers has been met. -/
theorem KnownTo.metBy (h : need.KnownTo p) (hp : p.Remembers s) : need.MetBy s where
  database := hp.databases _ h.database
  collections := fun c hc => hp.collections _ (h.collections c hc)

/-- After its step, a need is known. -/
theorem attains_step (hp : p.Remembers s) (need : Need) :
    Attains Provisioner.Goes (p, s) need.step fun _ x => need.KnownTo x.1 := by
  cases need with
  | database name =>
    refine (Provisioner.attains_ensureDatabase p s name).imp fun _ x _ h => ?_
    exact ⟨h, List.forall_mem_nil _⟩
  | collection home c =>
    refine (Provisioner.attains_ensureCollection p s home c).imp fun _ x hgoes h => ?_
    exact ⟨(hgoes.remembers hp).homes _ h, List.forall_mem_singleton.mpr h⟩
  | stage st cs =>
    refine (Provisioner.attains_ensureDatabase p s st.database).bind Provisioner.Goes.trans
      fun _ (p', s') _ hhome => ?_
    refine (Provisioner.attains_ensureCollections p' s' st.database cs).imp fun _ x hgoes h => ?_
    exact ⟨hgoes.learns.databases _ hhome, h⟩

/-- The schema is not even asked: calls on it that are to fail next are still to fail. -/
theorem KnownTo.run_step (h : need.KnownTo p) (s : Schema) :
    need.step.run (p, s) = (.ok (), p, s) := by
  rcases h with ⟨hhome, hcollections⟩
  cases need with
  | database name => exact Provisioner.ensureDatabase_of_known hhome
  | collection home c =>
    exact Provisioner.ensureCollection_of_known (hcollections c (List.mem_singleton_self c))
  | stage st cs =>
    have hrun : (Provisioner.ensureDatabase st.database).run (p, s) = (.ok (), p, s) :=
      Provisioner.ensureDatabase_of_known hhome
    change (Provisioner.ensureDatabase st.database >>= fun _ =>
      cs.forM (Provisioner.ensureCollection st.database)).run (p, s) = _
    rw [run_bind, hrun]
    exact Provisioner.ensureCollections_of_known hcollections

end Need

/-! ## Sessions -/

/-- What can happen to the schema of a session. -/
inductive SchemaAction
  | ensure (need : Need)
  | createDatabase (name : String)
  | createCollection (database : String) (c : Collection)
  | databaseExists (name : String)
  | collectionExists (database : String) (c : Collection)
  | failNext (n : Nat)
  | renew (retries : Nat)
deriving Repr, DecidableEq

/-- Whether the session's provisioner stays. -/
def SchemaAction.keeps : SchemaAction → Bool
  | renew _ => false
  | _ => true

namespace Session

/-- What an action on the schema leaves behind. -/
def administer (s : Session) : SchemaAction → Session
  | .ensure need => (s.provision need.step).2
  | .createDatabase name => (s.call (Schema.createDatabase name)).2
  | .createCollection database c => (s.call (Schema.createCollection database c)).2
  | .databaseExists name => (s.call (Schema.databaseExists name)).2
  | .collectionExists database c => (s.call (Schema.collectionExists database c)).2
  | .failNext n => s.failNext n
  | .renew retries => { s with provisioner := .fresh retries }

/-- What such actions leave behind, one after the other. -/
def administerAll (s : Session) (actions : List SchemaAction) : Session :=
  actions.foldl administer s

/-- What the provisioner remembers exists, and what exists was created once. -/
structure Provisioned (s : Session) : Prop where
  remembers : s.provisioner.Remembers s.store.schema
  counted : s.store.schema.Counted

/-- A session goes on as a provisioned one. -/
structure Continues (s s' : Session) : Prop where
  grows : s.store.schema.Grows s'.store.schema
  provisioned : s'.Provisioned

theorem Continues.trans {s₁ s₂ s₃ : Session} (h : s₁.Continues s₂) (h' : s₂.Continues s₃) :
    s₁.Continues s₃ :=
  ⟨h.grows.trans h'.grows, h'.provisioned⟩

theorem provisioned_ofStore {st : Store} (h : st.schema = .empty) : (ofStore st).Provisioned where
  remembers := ⟨by simp [ofStore, Provisioner.fresh], by simp [ofStore, Provisioner.fresh],
    by simp [ofStore, Provisioner.fresh]⟩
  counted := by
    have hschema : (ofStore st).store.schema = .empty := h
    rw [hschema]
    exact ⟨List.nodup_nil, List.nodup_nil, rfl⟩

variable {s : Session}

/-- Ensuring a need keeps the session provisioned, and only adds to its schema. -/
theorem continues_provision (h : s.Provisioned) (need : Need) :
    s.Continues (s.provision need.step).2 := by
  have hgoes := (need.attains_step h.remembers).goes
  exact ⟨hgoes.grows, hgoes.remembers h.remembers, hgoes.grows.counted h.counted⟩

theorem continues_call {α : Type} {call : Schema.Call α} {post : α → Schema → Prop}
    (h : s.Provisioned) (hcall : Attains Schema.Grows s.store.schema call post) :
    s.Continues (s.call call).2 :=
  ⟨hcall.goes, h.remembers.grows hcall.goes, hcall.goes.counted h.counted⟩

/-- So does any action. -/
theorem continues_administer (h : s.Provisioned) (action : SchemaAction) :
    s.Continues (s.administer action) := by
  cases action with
  | ensure need => exact continues_provision h need
  | createDatabase name => exact continues_call h (Schema.attains_createDatabase name _)
  | createCollection database c => exact continues_call h (Schema.attains_createCollection database c _)
  | databaseExists name => exact continues_call h (Schema.attains_databaseExists name _)
  | collectionExists database c => exact continues_call h (Schema.attains_collectionExists database c _)
  | failNext n =>
    have hgrows := Schema.Grows.failures s.store.schema n
    exact ⟨hgrows, h.remembers.grows hgrows, hgrows.counted h.counted⟩
  | renew retries => exact ⟨.refl _, ⟨nofun, nofun, nofun⟩, h.counted⟩

/-- An action that keeps the provisioner only adds to what it knows. -/
theorem learns_administer (h : s.Provisioned) {action : SchemaAction} (hkeeps : action.keeps = true) :
    s.provisioner.Learns (s.administer action).provisioner := by
  cases action with
  | ensure need => exact (need.attains_step h.remembers).goes.learns
  | renew retries => exact nomatch hkeeps
  | _ => exact .refl _

/-- A session goes on through any actions. -/
theorem continues_administerAll (h : s.Provisioned) (actions : List SchemaAction) :
    s.Continues (s.administerAll actions) := by
  induction actions generalizing s with
  | nil => exact ⟨.refl _, h⟩
  | cons action rest ih =>
    have hnext := continues_administer h action
    exact hnext.trans (ih hnext.provisioned)

/-- Actions that keep the provisioner only add to what it knows. -/
theorem learns_administerAll (h : s.Provisioned) {actions : List SchemaAction}
    (hkeep : ∀ action ∈ actions, action.keeps = true) :
    s.provisioner.Learns (s.administerAll actions).provisioner := by
  induction actions generalizing s with
  | nil => exact .refl _
  | cons action rest ih =>
    rcases List.forall_mem_cons.mp hkeep with ⟨hkeeps, hrest⟩
    exact (learns_administer h hkeeps).trans
      (ih (continues_administer h action).provisioned hrest)

/-- A collection of a need that is met is one of the stage. -/
theorem mem_collections_of_metBy {st : Store} {need : Need} (h : need.MetBy st.schema) {stage : Stage}
    (hstage : need.home = stage.database) {c : Collection} (hc : c ∈ need.collections) :
    c ∈ st.collections stage := by
  have hmem : c ∈ st.schema.collectionsOf stage :=
    List.mem_map.mpr ⟨_, List.mem_filter.mpr ⟨h.collections c hc, by simp [hstage]⟩, rfl⟩
  exact Collection.mem_setOf.mpr (List.mem_append_right _ hmem)

/-- Whatever happens to the schema of a new session: the provisioner remembers only what exists,
what exists was created once, and nothing disappears. What is then provisioned, with success or
without, leaves it so. With success, it exists and is known to its stage; and as long as the
provisioner stays, it needs no call on the schema to be provisioned again. -/
theorem provisioned_once {st : Store} (hst : st.schema = .empty) (actions : List SchemaAction) :
    let s := (ofStore st).administerAll actions
    s.Provisioned ∧
    (∀ later, s.Continues (s.administerAll later)) ∧
    ∀ need : Need, let (result, s') := s.provision need.step
      s.Continues s' ∧
      (result = .ok () →
        need.MetBy s'.store.schema ∧
        (∀ stage : Stage, need.home = stage.database →
          ∀ c ∈ need.collections, c ∈ s'.store.collections stage) ∧
        ∀ later, (∀ action ∈ later, action.keeps = true) → ∀ schema,
          let p := (s'.administerAll later).provisioner
          need.step.run (p, schema) = (.ok (), p, schema)) := by
  intro s
  have hs : s.Provisioned := (continues_administerAll (provisioned_ofStore hst) actions).provisioned
  refine ⟨hs, continues_administerAll hs, fun need => ?_⟩
  have hstep := continues_provision hs need
  refine ⟨hstep, fun hok => ?_⟩
  have hknown : need.KnownTo (s.provision need.step).2.provisioner :=
    (need.attains_step hs.remembers).post () hok
  have hmet := hknown.metBy hstep.provisioned.remembers
  refine ⟨hmet, fun stage hstage c hc => mem_collections_of_metBy hmet hstage hc, ?_⟩
  intro later hkeep schema
  exact (hknown.learns (learns_administerAll hstep.provisioned hkeep)).run_step schema

/-- A provisioner without retries gives up when a call fails after the database was made, and is
replaced by one that has the retries for two more failures. -/
def rollout : List SchemaAction :=
  [.ensure (.database "in_progress"), .databaseExists "in_progress",
    .createDatabase "in_progress", .failNext 1,
    .ensure (.stage .inProgress [.ofRelation "uses", .ofSpace "data"]), .renew 2,
    .createDatabase "native", .failNext 2]

theorem provisioned_once_uses :
    let need := Need.collection "in_progress" (.ofRelation "uses")
    let s := (ofStore .empty).administerAll rollout
    let s' := (s.provision need.step).2
    s.Provisioned ∧ s.store.schema.creations = 2 ∧ s.provisioner.databases = [] ∧
    s.Continues s' ∧ s'.store.schema.creations = 3 ∧
    .ofRelation "uses" ∈ s'.store.collections .inProgress ∧
    need.step.run (s'.provisioner, s'.store.schema) = (.ok (), s'.provisioner, s'.store.schema) := by
  intro need s s'
  have hempty : Store.empty.schema = .empty := rfl
  rcases provisioned_once hempty rollout with ⟨hs, _, hneed⟩
  rcases hneed need with ⟨hcontinues, hok⟩
  have hresult : (s.provision need.step).1 = .ok () := by decide +kernel
  rcases hok hresult with ⟨_, hknown, hrepeat⟩
  exact ⟨hs, by decide +kernel, by decide +kernel, hcontinues, by decide +kernel,
    hknown .inProgress rfl _ (List.mem_singleton_self _), hrepeat [] (List.forall_mem_nil _) _⟩

end Session

end GraphQuery
