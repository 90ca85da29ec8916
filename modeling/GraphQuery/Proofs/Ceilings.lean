import GraphQuery.Proofs.Naming
import GraphQuery.Proofs.Paging

/-!
# GraphQuery.Proofs.Ceilings — a memory ceiling changes no result

Every plan needs a number of bytes on the data of a stage. Under a lower ceiling it fails. Under any
other ceiling it gives all that it gives without one.

1. **Needs** of a computation that is run under ceilings.
2. **Plans** need the same, whatever their page is, and for the rows as for their number.
-/

namespace GraphQuery

open Json

/-! ## Needs -/

/-- A computation needs a number of bytes: without a ceiling it succeeds, and under a ceiling it
either gives the same, or fails, if the ceiling is lower than that. -/
structure NeedsExactly {α : Type} (run : Option Nat → Except Error α) (needed : Nat) : Prop where
  succeeds : ∃ a, run none = .ok a
  under : ∀ limit, run (some limit) =
    if needed ≤ limit then run none else .error (Metered.excess limit)

namespace NeedsExactly

variable {α : Type} {run : Option Nat → Except Error α} {needed : Nat}

/-- What succeeds under a ceiling, gives the same under a higher one. -/
theorem mono (h : NeedsExactly run needed) {limit limit' : Nat} (hle : limit ≤ limit') {a : α}
    (hok : run (some limit) = .ok a) : run (some limit') = .ok a := by
  rw [h.under] at hok ⊢
  by_cases hfits : needed ≤ limit
  · rw [if_pos hfits] at hok
    rw [if_pos (by omega), hok]
  · rw [if_neg hfits] at hok
    cases hok

end NeedsExactly

/-! ## Plans -/

theorem needsExactly_evaluate {plan : Plan} {patterns : Dictionary Pattern}
    (hpatterns : plan.patterns = .ok patterns) (data : StageData) :
    NeedsExactly (evaluate data plan) (Evaluator.mk data plan patterns).rows.bytes := by
  have hrun (memory : Option Nat) := evaluate_eq data plan memory
  simp only [hpatterns, bind, Except.bind, pure, Except.pure] at hrun
  constructor
  · exact ⟨_, hrun none⟩
  · intro limit
    rw [hrun (some limit), hrun none]
    dsimp only
    by_cases hfits : (Evaluator.mk data plan patterns).rows.bytes ≤ limit
    · rw [if_pos hfits, if_neg (by omega)]
    · rw [if_neg hfits, if_pos (by omega)]

/-- A statement needs what its plan needs: it makes a cursor of the rows. -/
theorem NeedsExactly.backend {st : Store} {stage : Stage} {s : Statement} {needed : Nat}
    (h : NeedsExactly (evaluate (st.data stage) s.plan) needed) :
    NeedsExactly (fun memory => st.backend stage { s with memory }) needed := by
  unfold Store.backend
  constructor
  · obtain ⟨rows, hrows⟩ := h.succeeds
    dsimp only
    rw [hrows]
    exact ⟨_, rfl⟩
  · intro limit
    dsimp only
    rw [h.under limit]
    split <;> rfl

/-- On the data of a stage, a plan whose regular expressions can be read needs a number of bytes,
whatever its page is and whether its rows are wanted or their number. So it does as a statement. -/
theorem exists_needsExactly {plan : Plan} (hreadable : ∀ c ∈ plan.conditions, c.IsReadable)
    (data : StageData) :
    ∃ needed, ∀ (page : Option PageRequest) (countOnly : Bool),
      let paged := { plan with page, countOnly }
      NeedsExactly (evaluate data paged) needed ∧
      (∀ limit limit' rows, limit ≤ limit' → evaluate data paged (some limit) = .ok rows →
        evaluate data paged (some limit') = .ok rows) ∧
      ∀ (st : Store) (stage : Stage) (s : Statement), st.data stage = data → s.plan = paged →
        NeedsExactly (fun memory => st.backend stage { s with memory }) needed := by
  obtain ⟨patterns, hpatterns⟩ := plan.exists_patterns_iff.mpr hreadable
  refine ⟨(Evaluator.mk data plan patterns).rows.bytes, fun page countOnly => ?_⟩
  have hneeds : NeedsExactly (evaluate data { plan with page, countOnly })
      (Evaluator.mk data plan patterns).rows.bytes := by
    have hpage : evaluate data { plan with page, countOnly } = evaluate data plan :=
      funext fun memory => evaluate_with_page data plan page countOnly memory
    rw [hpage]
    exact needsExactly_evaluate hpatterns data
  refine ⟨hneeds, fun limit limit' rows hle => hneeds.mono hle, fun st stage s hdata hplan => ?_⟩
  refine NeedsExactly.backend ?_
  rw [hdata, hplan]
  exact hneeds

namespace Library

/-- The papers whose list of cited papers has a name that starts with "On". -/
def surveys : Plan :=
  let cited : Property := ⟨"cited", [⟨"cites", false, []⟩, ⟨"name", false, []⟩], [], false, false,
    false, false, none, some ⟨.regex, none, some "^On"⟩, none, 0⟩
  Plan.build ⟨[cited], none, "Paper", none⟩ (Request.ofStage .inProgress)

/-- A paper that cites another one, which cites nothing. -/
def citation : StageData where
  documents := [⟨⟨1⟩, "library", ["Paper"], none, []⟩,
    ⟨⟨2⟩, "library", ["Paper"], none, [("name", .string "On Trees")]⟩]
  edges := [⟨⟨1⟩, ⟨2⟩, "cites", 0⟩]

end Library

open Library in
/-- The list of a paper is charged for even where the paper is refused for it. -/
theorem exists_needsExactly_surveys :
    (∀ c ∈ surveys.conditions, c.IsReadable) ∧
    (∃ needed, ∀ (page : Option PageRequest) (countOnly : Bool),
      let paged := { surveys with page, countOnly }
      NeedsExactly (evaluate citation paged) needed ∧
      (∀ limit limit' rows, limit ≤ limit' → evaluate citation paged (some limit) = .ok rows →
        evaluate citation paged (some limit') = .ok rows) ∧
      ∀ (st : Store) (stage : Stage) (s : Statement), st.data stage = citation → s.plan = paged →
        NeedsExactly (fun memory => st.backend stage { s with memory }) needed) ∧
    (surveys.conditions.map Condition.op = [.regex] ∧
      (evaluate citation surveys none).toOption.map List.length = some 1 ∧
      (evaluate citation surveys (some 36)).toOption.map List.length = some 1 ∧
      (evaluate citation surveys (some 35)).toOption.map List.length = none) := by
  have hreadable : ∀ c ∈ surveys.conditions, c.IsReadable := by decide +kernel
  exact ⟨hreadable, exists_needsExactly hreadable citation, by decide +kernel⟩

end GraphQuery
