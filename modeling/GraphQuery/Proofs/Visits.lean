import GraphQuery.Proofs.Introductions
import GraphQuery.Proofs.Matches

/-!
# GraphQuery.Proofs.Visits — no document that a statement visits escapes the guards

1. **Guarded texts** of both dialects.
2. **Statements**: for the rows and for their number alike, the text is guarded.
-/

namespace GraphQuery

/-! ## Guarded texts -/

/-- A text that tests every document it visits with the guards of a plan. In AQL, every line that
introduces a document is followed by the tests on it. In Cypher, the condition of every pattern
comprehension, and the clause in the line after every match, is a conjunction of closed texts, and
the guards on all nodes are among them. -/
def Plan.GuardsText (plan : Plan) (text : String) : Dialect → Prop
  | .aql => Aql.Guarded plan.aqlGuards [] (Text.lines text)
  | .cypher => Cypher.Patterned plan.cypherGuards text ∧
      Cypher.GuardedMatches plan.cypherGuards (Text.lines text)

theorem Plan.guardsText_ofPlan (plan : Plan) (memory : Option Nat) (dialect : Dialect) :
    plan.GuardsText (Statement.ofPlan dialect memory plan).text dialect := by
  cases dialect with
  | aql => exact Aql.guarded_text plan
  | cypher => exact Cypher.guarded_text plan

/-- Counting changes nothing about the guards. -/
theorem Plan.guardsText_asCount {plan : Plan} {text : String} {dialect : Dialect}
    (h : plan.asCount.GuardsText text dialect) : plan.GuardsText text dialect := by
  cases dialect <;> exact h

/-! ## Statements -/

/-- Every document that a statement visits is tested by the guards of the request. -/
theorem Compiled.visits_guarded (spec : Specification) (r : Request) (dialect : Dialect)
    {s : Statement} (h : s ∈ (spec.compile dialect r).statements) :
    (Plan.build spec r).GuardsText s.text dialect := by
  rcases statements_cases h with rfl | rfl
  · exact Plan.guardsText_ofPlan _ _ _
  · -- the plan that counts has the same guards
    exact Plan.guardsText_asCount (Plan.guardsText_ofPlan _ _ _)

/-- Papers of the spaces that a reader may read, and of one space only: both dialects test the root
right where they find it. -/
theorem Compiled.visits_guarded_papers :
    let spec : Specification := ⟨[], none, "Paper", none⟩
    let r : Request :=
      { Request.ofStage .inProgress with access := some ⟨["a"], []⟩, spaces := some ["b"] }
    let aql := (spec.compile .aql r).statement
    let cypher := (spec.compile .cypher r).statement
    ["FILTER root_doc != NULL",
      "FILTER PARSE_IDENTIFIER(root_doc).collection IN whitelist OR HAS(invitation, root_doc._key)",
      "FILTER PARSE_IDENTIFIER(root_doc).collection IN @spaceRestriction"] <+:
        (Text.lines aql.text).drop 3 ∧
      ∃ conditions rest, (Text.lines cypher.text).drop 2 = Cypher.clauseLines conditions ++ rest ∧
        "(root._space IN allowedSpaces OR root._id IN allowedInstances)" ∈ conditions ∧
        "root._space IN $spaceRestriction" ∈ conditions := by
  intro spec r aql cypher
  have haql : Aql.Guarded (Plan.build spec r).aqlGuards [] (Text.lines aql.text) :=
    visits_guarded spec r .aql (.head _)
  rcases visits_guarded spec r .cypher (s := cypher) (.head _) with ⟨-, hcypher⟩
  have hlinesAql : Text.lines aql.text = _ := Aql.lines_text (Plan.build spec r)
  have hlinesCypher : Text.lines cypher.text = _ := Cypher.lines_text (Plan.build spec r)
  rw [hlinesAql] at haql ⊢
  rw [hlinesCypher] at hcypher ⊢
  constructor
  · have hlines : Script.lines .atSign (Aql.script (Plan.build spec r)) =
        ["LET whitelist=@readAccessBySpace", "LET invitation=@readAccessByInvitation"] ++
          ("FOR " ++ "root_doc" ++ " IN " ++
            "1..1 OUTBOUND DOCUMENT(@@typeCollection, @typeId) @@typeRelation") ::
              (Script.lines .atSign (Aql.script (Plan.build spec r))).drop 3 := by decide +kernel
    -- behind the lists, the roots are introduced
    refine haql _ _ _ "root_doc" hlines (.visits (by decide) ?_)
    intro rest
    simp [← String.toList_inj]
  · have hlines : Script.lines .dollar (Cypher.script (Plan.build spec r)) =
        ["WITH $allowedSpaces AS allowedSpaces, $allowedInstances AS allowedInstances"] ++
          ("MATCH " ++ "(root:`Stage_IN_PROGRESS`:`Paper`)") ::
            (Script.lines .dollar (Cypher.script (Plan.build spec r))).drop 2 := by decide +kernel
    obtain ⟨node, label, conditions, rest, hpattern, hnode, -, ⟨-, htests⟩, hafter⟩ :=
      hcypher _ _ _ hlines
    -- the node that is tested is the one that is matched
    have hchars : "root".toList ++ ':' :: "`Stage_IN_PROGRESS`:`Paper`)".toList =
        node.toList ++ ':' :: label.toList := by
      simpa [← String.toList_inj] using hpattern
    obtain ⟨hname, -⟩ := Text.append_inj_of_ends (p := fun c => c.isAlphanum || c == '_')
      (by simp) (by simpa [Cypher.IsWord] using hnode) (by decide) (by decide) hchars
    obtain rfl := String.toList_inj.mp hname
    have htested := htests "root" (by simp)
    exact ⟨conditions, rest, hafter, htested (.either (.home ⟨"allowedSpaces", "allowedSpaces"⟩)
        (.id ⟨"allowedInstances", "allowedInstances"⟩)) (.head _),
      htested (.home ⟨"$spaceRestriction", "spaceRestriction"⟩) (.tail _ (.head _))⟩

end GraphQuery
