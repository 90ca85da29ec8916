import GraphQuery.Evaluation

/-!
# GraphQuery.Proofs.Metering — evaluations under a ceiling

An evaluation is one computation, whatever its charges are used for. Under a ceiling it goes along
with the evaluation that only adds its charges up, until these exceed the ceiling.

1. **Related computations**: two ways to compute under which steps stay related.
2. **Evaluations** in related ways are related, by induction on the properties.
3. **Ceilings**: a metered computation goes along with a weighed one.
4. **Evaluation** of a plan, by the weight of its rows.
-/

namespace GraphQuery

open Json

/-! ## Related computations -/

section

variable {m n : Type → Type} [Monad m] [Charges m] [Monad n] [Charges n]

/-- A relation between computations of two kinds that their steps keep. -/
structure StepRelation (R : (α : Type) → m α → n α → Prop) : Prop where
  pure : ∀ {α : Type} (a : α), R α (pure a) (pure a)
  bind : ∀ {α β : Type} {x : m α} {y : n α} {f : α → m β} {g : α → n β},
    R α x y → (∀ a, R β (f a) (g a)) → R β (x >>= f) (y >>= g)
  charge : ∀ v, R Unit (Charges.charge v) (Charges.charge v)

namespace StepRelation

variable {R : (α : Type) → m α → n α → Prop} (h : StepRelation R)

include h

/-- A relation that steps keep is kept by mapping them over a list. -/
theorem mapM {α β : Type} {f : α → m β} {g : α → n β} (hfg : ∀ a, R β (f a) (g a)) (xs : List α) :
    R (List β) (xs.mapM f) (xs.mapM g) := by
  -- stated for the loop behind `mapM`, with any results done
  have hloop : ∀ (xs : List α) (done : List β),
      R (List β) (List.mapM.loop f xs done) (List.mapM.loop g xs done) := by
    intro xs
    induction xs with
    | nil => exact fun done => h.pure done.reverse
    | cons x rest ih => exact fun done => h.bind (hfg x) fun b => ih (b :: done)
  exact hloop xs []

/-! ## Evaluations -/

variable (e : Evaluator)

mutual

/-- The value of a property is related in both readings, by induction on the properties. -/
theorem buildValue (doc : Document) :
    (p : Property) → R Value (e.buildValue doc p) (e.buildValue doc p)
  | ⟨name, path, children, required, sort, groupBy, ensureOrder, groupedInstances, filter,
      collapse, index⟩ => by
    unfold Evaluator.buildValue
    dsimp only
    split
    · exact h.pure _
    · -- the values at the ends of the path come before the charge for their list
      split
      · exact h.bind (h.pure _) fun values => h.bind (h.charge _) fun _ => h.pure _
      · exact h.bind (h.mapM (fun d => buildFields d [] children) _) fun objects =>
          h.bind (h.pure _) fun values => h.bind (h.charge _) fun _ => h.pure _

/-- So are the fields of a level. -/
theorem buildFields (doc : Document) (row : Row) :
    (ps : List Property) → R (Option Row) (e.buildFields doc row ps) (e.buildFields doc row ps)
  | [] => by
    rw [Evaluator.buildFields, Evaluator.buildFields]
    exact h.pure _
  | ⟨name, path, children, required, sort, groupBy, ensureOrder, groupedInstances, filter,
      collapse, index⟩ :: rest => by
    unfold Evaluator.buildFields
    split
    · refine h.bind (buildFields doc row children) fun row? => ?_
      cases row? with
      | none => exact h.pure none
      | some row => exact buildFields doc row rest
    · refine h.bind (buildValue doc _) fun v => ?_
      split
      · exact buildFields doc _ rest
      · exact h.pure none

end

/-- And so are the rows. -/
theorem buildRows : R (List Row) e.buildRows e.buildRows := by
  have hunsorted : R (List Row) e.buildUnsorted e.buildUnsorted := by
    refine h.bind (h.mapM (fun doc => ?_) _) fun rows => h.pure _
    refine h.bind (h.buildFields e doc [] _) fun row? => ?_
    cases row? with
    | none => exact h.pure none
    | some row => exact h.bind (h.charge _) fun _ => h.pure (some row)
  exact h.bind hunsorted fun rows => h.pure _

end StepRelation

end

/-! ## Ceilings -/

namespace Metered

instance {ceiling : Option Nat} : LawfulMonad (Metered ceiling) :=
  inferInstanceAs (LawfulMonad (StateT Nat (Except Error)))

variable {α : Type}

/-- A computation under a ceiling goes along with a weighed one: it comes to the same value and has
used so many bytes more, unless they exceed the ceiling. -/
def GoesAlong (limit : Nat) (α : Type) (x : Metered (some limit) α) (w : Weighed α) : Prop :=
  ∀ used ≤ limit, x.run used =
    if used + w.bytes ≤ limit then .ok (w.value, used + w.bytes) else .error (excess limit)

/-- Without a ceiling, a computation comes to the value of a weighed one, and nothing is used. -/
def ComesTo (α : Type) (x : Metered none α) (w : Weighed α) : Prop :=
  ∀ used, x.run used = .ok (w.value, used)

/-- What one step has used the next one starts from. -/
theorem run_bind {ceiling : Option Nat} {β : Type} (x : Metered ceiling α)
    (f : α → Metered ceiling β) (used : Nat) :
    (x >>= f).run used = (x.run used).bind fun (a, used) => (f a).run used := by
  rfl

/-- A metered step below its limit goes along with a weighed one. -/
theorem stepRelation_goesAlong (limit : Nat) : StepRelation (GoesAlong limit) where
  pure a used hused := by
    have hfits : used + (pure a : Weighed _).bytes ≤ limit := hused
    rw [if_pos hfits]
    rfl
  bind := by
    intro α β x y f g hx hf used hused
    have hbytes : (y >>= g).bytes = y.bytes + (g y.value).bytes := rfl
    rw [run_bind, hx used hused, hbytes]
    by_cases hfits : used + y.bytes ≤ limit
    · rw [if_pos hfits, ← Nat.add_assoc]
      exact hf y.value (used + y.bytes) hfits
    · -- what has exceeded the ceiling stays above it
      have hexceeds : ¬ used + (y.bytes + (g y.value).bytes) ≤ limit := by omega
      rw [if_neg hfits, if_neg hexceeds]
      rfl
  charge v used hused := by
    have hbytes : (Charges.charge v : Weighed Unit).bytes = v.compact.utf8ByteSize := rfl
    have hcharge : (Charges.charge v : Metered (some limit) Unit).run used =
        if used + v.compact.utf8ByteSize > limit then .error (excess limit)
        else .ok ((), used + v.compact.utf8ByteSize) := rfl
    rw [hcharge, hbytes]
    by_cases hfits : used + v.compact.utf8ByteSize ≤ limit
    · rw [if_neg (by omega), if_pos hfits]
    · rw [if_pos (by omega), if_neg hfits]

/-- Without a limit, a metered step comes to what a weighed one does. -/
theorem stepRelation_comesTo : StepRelation ComesTo where
  pure _ _ := rfl
  bind := by
    intro α β x y f g hx hf used
    rw [run_bind, hx used]
    exact hf y.value used
  charge _ _ := rfl

/-- A metered run exceeds its limit exactly if the weighed run weighs more. -/
theorem GoesAlong.start_eq {limit : Nat} {x : Metered (some limit) α} {w : Weighed α}
    (h : GoesAlong limit α x w) :
    x.start = if w.bytes > limit then .error (excess limit) else .ok w.value := by
  have hrun := h 0 (Nat.zero_le limit)
  rw [Nat.zero_add] at hrun
  unfold start
  rw [hrun]
  by_cases hfits : w.bytes ≤ limit
  · rw [if_pos hfits, if_neg (by omega)]
    rfl
  · rw [if_neg hfits, if_pos (by omega)]
    rfl

/-- Without a limit nothing is exceeded. -/
theorem ComesTo.start_eq {x : Metered none α} {w : Weighed α} (h : ComesTo α x w) :
    x.start = .ok w.value := by
  unfold start
  rw [h 0]
  rfl

end Metered

/-! ## Evaluation -/

/-- The ceiling is held against the weight of all rows. -/
theorem evaluate_eq (data : StageData) (plan : Plan) (memory : Option Nat) :
    evaluate data plan memory = do
      let rows := (Evaluator.mk data plan (← plan.patterns)).rows
      match memory with
      | some limit =>
        if rows.bytes > limit then .error (Metered.excess limit) else return rows.value
      | none => return rows.value := by
  unfold evaluate
  congr 1
  funext patterns
  cases memory with
  | none => exact (Metered.stepRelation_comesTo.buildRows ⟨data, plan, patterns⟩).start_eq
  | some limit =>
    exact ((Metered.stepRelation_goesAlong limit).buildRows ⟨data, plan, patterns⟩).start_eq

end GraphQuery
