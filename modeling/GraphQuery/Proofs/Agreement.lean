import GraphQuery.Evaluation
import Mathlib.Data.List.Basic

/-!
# GraphQuery.Proofs.Agreement — evaluations that cannot be told apart

An evaluation looks at its data only through the roots that it admits and through the neighbours of
documents that it has come to. Two evaluators that agree on both give the same rows and need the
same memory, whatever is done with their charges.

1. **Agreement** on a set of documents that hops do not leave.
2. **Paths** lead to the same documents.
3. **Values** of properties are the same, and so are objects, by induction on the properties.
4. **Rows** are the same.
-/

namespace GraphQuery

/-! ## Agreement -/

/-- Two evaluators agree on the documents `seen`: all roots are among them, hops from one of them
lead to the same documents in the same order, and these are among them again. -/
structure Evaluator.Agree (e f : Evaluator) (seen : Document → Prop) : Prop where
  patterns : e.patterns = f.patterns
  spec : e.plan.spec = f.plan.spec
  conditions : e.plan.propertyFilters = f.plan.propertyFilters
  roots : (candidates e.data e.plan.root).filter e.admitsRoot =
    (candidates f.data f.plan.root).filter f.admitsRoot
  seen_root : ∀ d ∈ (candidates e.data e.plan.root).filter e.admitsRoot, seen d
  neighbors : ∀ d, seen d → ∀ step ordered,
    neighbors e.data e.plan step ordered d = neighbors f.data f.plan step ordered d
  seen_neighbor : ∀ d, seen d → ∀ step ordered,
    ∀ t ∈ GraphQuery.neighbors e.data e.plan step ordered d, seen t

/-! ## Paths -/

/-- The first occurrences come from the list. -/
theorem mem_of_mem_firstOccurrences {α : Type} {same : α → α → Bool} {a : α} {xs : List α}
    (h : a ∈ firstOccurrences same xs) : a ∈ xs := by
  -- stated for any items seen so far, as the fold goes on from them
  have hfold : ∀ (xs seen : List α),
      a ∈ xs.foldl (fun seen x => if seen.any (same · x) then seen else seen ++ [x]) seen →
        a ∈ seen ∨ a ∈ xs := by
    intro xs
    induction xs with
    | nil => intro seen ha; exact .inl ha
    | cons x rest ih =>
      intro seen ha
      rcases ih _ ha with ha | ha
      · dsimp only at ha
        split at ha
        · exact .inl ha
        · rcases List.mem_append.mp ha with ha | ha
          · exact .inl ha
          · exact .inr (by simp_all)
      · exact .inr (List.mem_cons_of_mem x ha)
  simpa using hfold xs [] h

namespace Evaluator.Agree

variable {e f : Evaluator} {seen : Document → Prop}

/-- A path leads to the same documents, and these have been seen. -/
theorem follow_eq (h : e.Agree f seen) (ordered : Bool) (steps : List Step) (start : List Document)
    (hstart : ∀ d ∈ start, seen d) :
    follow e.data e.plan ordered steps start = follow f.data f.plan ordered steps start ∧
      ∀ d ∈ follow e.data e.plan ordered steps start, seen d := by
  -- induction on the steps; the documents at hand have always been seen
  induction steps generalizing start with
  | nil => exact ⟨rfl, hstart⟩
  | cons step rest ih =>
    have hnext : start.flatMap (GraphQuery.neighbors e.data e.plan step ordered) =
        start.flatMap (GraphQuery.neighbors f.data f.plan step ordered) :=
      List.flatMap_congr fun d hd => h.neighbors d (hstart d hd) step ordered
    have hseen : ∀ t ∈ start.flatMap (GraphQuery.neighbors e.data e.plan step ordered), seen t := by
      intro t ht
      rcases List.mem_flatMap.mp ht with ⟨d, hd, ht⟩
      exact h.seen_neighbor d (hstart d hd) step ordered t ht
    simp only [follow, List.foldl_cons] at ih ⊢
    rw [← hnext]
    -- documents may be left out on the way, but none is added
    apply ih
    intro t ht
    split at ht
    · exact hseen t ht
    · exact hseen t (mem_of_mem_firstOccurrences ht)

end Evaluator.Agree

/-! ## Values -/

theorem mapM_congr_left {m : Type → Type} [Monad m] {α β : Type} {f g : α → m β} {xs : List α}
    (h : ∀ x ∈ xs, f x = g x) : xs.mapM f = xs.mapM g := by
  -- stated for the loop behind `mapM`, with any results done
  have hloop : ∀ (xs : List α) (done : List β), (∀ x ∈ xs, f x = g x) →
      List.mapM.loop f xs done = List.mapM.loop g xs done := by
    intro xs
    induction xs with
    | nil => intro done _; rfl
    | cons x rest ih =>
      intro done hxs
      simp only [List.mapM.loop]
      rw [hxs x (by simp)]
      congr 1
      funext y
      exact ih _ fun z hz => hxs z (by simp [hz])
  exact hloop xs [] h

namespace Evaluator

variable {e f : Evaluator} {seen : Document → Prop}

/-- Evaluators that agree admit the same values. -/
theorem Agree.admits (h : e.Agree f seen) (p : Property) (v : Json.Value) :
    e.admits p v = f.admits p v := by
  simp only [Evaluator.admits, Plan.condition?, h.patterns, h.conditions]

variable {m : Type → Type} [Monad m] [Charges m]

mutual

/-- They build the same value for every property, at documents that are seen. -/
theorem buildValue_congr (h : e.Agree f seen) (d : Document) (hd : seen d) :
    (p : Property) → (e.buildValue d p : m Json.Value) = f.buildValue d p
  | ⟨name, path, children, required, sort, groupBy, ensureOrder, groupedInstances, filter,
      collapse, index⟩ => by
    -- recursion on the property: its objects are made of the documents at the end of the path
    obtain ⟨hfollow, hseen⟩ := h.follow_eq ensureOrder
      (Property.edgeSteps ⟨name, path, children, required, sort, groupBy, ensureOrder,
        groupedInstances, filter, collapse, index⟩) [d] (by simpa using hd)
    have hobjects := mapM_congr_left (m := m) fun t ht =>
      buildFields_congr h t (hseen t ht) [] children
    simp only [buildValue]
    rw [hfollow] at hobjects ⊢
    rw [hobjects]

/-- They build the same row. -/
theorem buildFields_congr (h : e.Agree f seen) (d : Document) (hd : seen d) (row : Json.Row) :
    (ps : List Property) → (e.buildFields d row ps : m (Option Json.Row)) = f.buildFields d row ps
  | [] => by simp only [buildFields]
  | ⟨name, path, children, required, sort, groupBy, ensureOrder, groupedInstances, filter,
      collapse, index⟩ :: rest => by
    have hrest (row : Json.Row) := buildFields_congr h d hd row rest
    have hchildren := buildFields_congr h d hd row children
    have hvalue := buildValue_congr h d hd ⟨name, path, children, required, sort, groupBy,
      ensureOrder, groupedInstances, filter, collapse, index⟩
    simp only [buildFields, hrest, hchildren, hvalue, h.admits]

end

/-! ## Rows -/

/-- They build the same rows. -/
theorem buildUnsorted_congr (h : e.Agree f seen) :
    (e.buildUnsorted : m (List Json.Row)) = f.buildUnsorted := by
  unfold buildUnsorted
  rw [← h.roots, ← h.spec]
  dsimp only
  -- what remains is the list of rows
  congr 1
  apply mapM_congr_left
  intro d hd
  rw [buildFields_congr h d (h.seen_root d hd)]

/-- Evaluators that agree build the same rows, and are charged for the same. -/
theorem buildRows_congr (h : e.Agree f seen) :
    (e.buildRows : m (List Json.Row)) = f.buildRows := by
  unfold buildRows sortKeys
  rw [buildUnsorted_congr h, h.spec]

end Evaluator

end GraphQuery
