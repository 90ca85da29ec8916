import GraphQuery.Proofs.Bindings
import GraphQuery.Proofs.Levels
import GraphQuery.Proofs.Placements
import GraphQuery.Proofs.ScopedStatements

/-!
# GraphQuery.Proofs.PlacedStatements — what the placeholders of a statement carry, and where

1. **AQL**: what each placeholder carries, and each part of a statement with its placeholders in
   their places.
2. **Cypher**, likewise.
-/

namespace GraphQuery

open Json

/-! ## AQL -/

namespace Aql

/-- The placeholders of a statement for a plan. Conditions write their operands as patterns. -/
inductive Carries (plan : Plan) : String → Value → Prop
  | own {key : String} {value : Value} (h : (key, value) ∈ own plan) : Carries plan key value
  | types {p : Property} {step : Step} {hop : Nat} (hp : p ∈ plan.spec.allProperties)
      (h : (step, hop) ∈ p.edgeSteps.zipIdx) :
      Carries plan (stepAlias p hop ++ "_types") (.strings step.types)
  | operand {c : Condition} (h : c ∈ plan.conditions) :
      Carries plan c.bindName (.ofOption .string c.likePattern)

/-- Fragments and scripts whose placeholders are in their places. -/
abbrev Placed (plan : Plan) (f : Fragment) : Prop := Fragment.Placed .atSign (Carries plan) f

/-- Fragments of the same kind that may end in a placeholder. -/
abbrev Placing (plan : Plan) (f : Fragment) : Prop := Fragment.Placing .atSign (Carries plan) f

abbrev PlacedScript (plan : Plan) (s : Script) : Prop := Script.Placed .atSign (Carries plan) s

variable {plan : Plan}

/-- The names that the compiler gives to its variables hold no sigil. -/
theorem placed_variable (p : Property) (r : Role) : Placed plan (named (variableName p r)) :=
  .word (isWord_variableName p r)

theorem placed_hopDoc (p : Property) (hop : Nat) : Placed plan (hopDoc p hop) :=
  placed_variable p (.document hop)

theorem placed_hopEdge (p : Property) (hop : Nat) : Placed plan (hopEdge p hop) :=
  placed_variable p (.edge hop)

/-- A document is a variable, be it the root or one to which a hop leads. -/
theorem placed_document {doc : Fragment} (h : IsDocument doc) : Placed plan doc := by
  cases h with
  | root => exact .text (by decide)
  | hop p hop => exact placed_hopDoc p hop

/-- A key stands within backticks, so that a sigil in it introduces nothing. -/
theorem placed_attr {doc : Fragment} (h : Placed plan doc) (key : String) :
    Placed plan (attr doc key) := by
  have hfield : Placed plan (lit ".`" ++ named key ++ lit "`") :=
    .quoted '`' key (by decide) (by decide) (by decide) (by decide) (by decide)
  have hattr : attr doc key = doc ++ (lit ".`" ++ named key ++ lit "`") := by simp [attr]
  rw [hattr]
  exact h.append hfield

/-- A key in quotes, likewise. -/
theorem placed_quotedKey (key : String) : Placed plan (quotedKey key) :=
  .quoted '"' key (by decide) (by decide) (by decide) (by decide) (by decide)

theorem placed_comma {fs : List Fragment} (h : ∀ f ∈ fs, Placed plan f) : Placed plan (comma fs) :=
  .join (by decide) h

/-- The tests of a document carry the spaces asked for, if there are any. -/
theorem placed_guards {doc : Fragment} (h : Placed plan doc) :
    PlacedScript plan (guards plan doc) := by
  have hdoc : Placed plan (lit "FILTER " ++ doc ++ lit " != NULL") := by
    simp +decide [h]
  have haccess : Placed plan (lit "FILTER PARSE_IDENTIFIER(" ++ doc ++
      lit ").collection IN whitelist OR HAS(invitation, " ++ doc ++ lit "._key)") := by
    simp +decide [h]
  have hspaces : Placed plan (lit "FILTER PARSE_IDENTIFIER(" ++ doc ++ lit ").collection IN ") := by
    simp +decide [h]
  unfold guards
  refine .append (.append (.line hdoc.placing) ?_) ?_
  · split
    · exact .line haccess.placing
    · exact .nil
  · split
    · rename_i spaces heq
      exact .line (hspaces.append_placing (.bound (.own (by simp [own, heq]))))
    · exact .nil

/-- The value of a property is an attribute or a variable, and carries nothing. -/
theorem placed_value {doc : Fragment} (h : Placed plan doc) (p : Property) :
    Placed plan (value doc p) := by
  unfold value
  split
  · split
    · exact placed_attr h _
    · exact .text (by decide)
  · split
    · exact placed_variable p .grouping
    · exact placed_variable p (.list 0)

/-- A comparison carries its operand, in the place of a value. -/
theorem placed_comparison {field : Fragment} (h : Placed plan field) {op : String}
    (hop : isPlainText .atSign op = true) {c : Condition} (hc : c ∈ plan.conditions)
    {operand : Option String} (hoperand : operand = c.likePattern) :
    Placed plan (comparison field op c operand) := by
  have htest : Placing plan (lit op ++ bound c.bindName (.ofOption .string operand)) := by
    rw [hoperand]
    exact Fragment.Placed.append_placing (.text hop) (.bound (.operand hc))
  have hitems : Placed plan (lit "(IS_ARRAY(" ++ field ++ lit ") ? LENGTH(" ++ field ++
      lit "[* FILTER CURRENT") := by
    simp +decide [h]
  unfold comparison
  refine Fragment.Placing.followed (Fragment.Placed.append_placing (.append ?_ h) htest)
    (by decide) (by decide)
  exact (hitems.append_placing htest).followed (by decide) (by decide)

/-- A condition carries what its comparison does; asking for empty values, it carries nothing. -/
theorem placed_condition {field : Fragment} (h : Placed plan field) {c : Condition}
    (hc : c ∈ plan.conditions) : Placed plan (condition field c) := by
  unfold condition
  split
  · simp +decide [h]
  · -- operands of these are patterns as they are
    rename_i hop
    exact placed_comparison h (by decide) hc (by simp [Condition.likePattern, hop])
  · rename_i hop
    exact placed_comparison h (by decide) hc (by simp [Condition.likePattern, hop])
  all_goals exact placed_comparison h (by decide) hc rfl

/-- The filters of a property carry the operand of its condition in the plan. -/
theorem placed_filtersOf {doc : Fragment} (h : Placed plan doc) (p : Property) :
    PlacedScript plan (filtersOf plan doc p) := by
  have hvalue := placed_value h p
  have hrequired : Placed plan (lit "FILTER " ++ value doc p ++ lit " != NULL AND " ++ value doc p ++
      lit " != \"\" AND " ++ value doc p ++ lit " != []") := by
    simp +decide [hvalue]
  unfold filtersOf
  refine .append ?_ ?_
  · split
    · exact .line hrequired.placing
    · exact .nil
  · split
    · rename_i c hc
      have hfilter := placed_condition hvalue (Plan.mem_conditions hc)
      exact .line (Fragment.Placed.append (.text (by decide)) hfilter).placing
    · exact .nil

/-- The filters of a level carry those of its properties. -/
theorem placed_filters {doc : Fragment} (h : Placed plan doc) (ps : List Property) :
    PlacedScript plan (filters plan doc ps) :=
  .flatMap fun p _ => placed_filtersOf h p

theorem placed_entries {fs : List Fragment} (h : ∀ f ∈ fs, Placed plan f) :
    PlacedScript plan (entries fs) := by
  induction fs with
  | nil => exact .nil
  | cons f rest ih =>
    rw [List.forall_mem_cons] at h
    cases rest with
    | nil => exact .line h.1.placing
    | cons g rest => exact .cons (.line (h.1.append (.text (by decide))).placing) (ih h.2)

/-- A result has its keys in quotes. -/
theorem placed_result {doc : Fragment} (h : Placed plan doc) (ps : List Property) (nested : Bool) :
    PlacedScript plan (result doc ps nested) := by
  have hvalue (p : Property) : Placed plan (value doc p) := placed_value h p
  have hpresent (p : Property) : Placed plan (lit "(" ++ value doc p ++ lit " != NULL AND " ++
      value doc p ++ lit " != [])") := by
    simp +decide [hvalue p]
  have hentry (p : Property) : Placed plan (quotedKey p.key ++ lit ": " ++ value doc p) :=
    ((placed_quotedKey p.key).append (.text (by decide))).append (hvalue p)
  have hfilter {fs : List Fragment} (hfs : ∀ f ∈ fs, Placed plan f) :
      Placed plan (lit "FILTER " ++ Fragment.join " OR " fs) :=
    .append (.text (by decide)) (.join (by decide) hfs)
  unfold result
  dsimp only
  refine .append (.append (.append ?_ ?_) (placed_entries ?_)) ?_
  · split
    · exact .line (hfilter (by simpa using fun p _ => hpresent p)).placing
    · exact .nil
  · cases nested <;> exact .cons (.line (Fragment.Placed.text (by decide)).placing) (.silent rfl)
  · simpa using fun p _ => hentry p
  · exact .cons (.silent rfl) (.line (Fragment.Placed.text (by decide)).placing)

theorem placed_groupKeys (p : Property) : ∀ k ∈ groupKeys p, Placed plan k.2 := by
  intro k hk
  rcases List.mem_map.mp hk with ⟨⟨c, i⟩, -, rfl⟩
  exact placed_variable p (.key i)

theorem placed_item (p : Property) : Placed plan (named (p.aliasName ++ "_g")) :=
  placed_variable p .item

theorem placed_member (p : Property) : Placed plan (named (p.aliasName ++ "_gi")) :=
  placed_variable p .member

theorem placed_group (p : Property) : Placed plan (named (p.aliasName ++ "_group")) :=
  placed_variable p .group

/-- The line that collects groups names the keys by variables. -/
theorem placed_collecting (p : Property) : Placed plan (collecting p) := by
  have hvalues : Placed plan (keyValues p) := by
    refine placed_comma (List.forall_mem_map.mpr fun k hk => ?_)
    exact ((placed_groupKeys p k hk).append (.text (by decide))).append
      (placed_attr (placed_item p) _)
  simp +decide [collecting, hvalues, placed_group]

theorem placed_groupOrder (p : Property) : PlacedScript plan (groupOrder p) := by
  unfold groupOrder
  split
  · refine .line (Fragment.Placed.append (.text (by decide)) (placed_comma ?_)).placing
    refine List.forall_mem_map.mpr fun k hk => ?_
    exact (placed_groupKeys p k (mem_groupKeys_of_mem_order hk)).append (.text (by decide))
  · exact .nil

theorem placed_memberOrder (p : Property) : Placed plan (memberOrder p) := by
  unfold memberOrder
  split
  · exact .nil
  · refine .append (.text (by decide)) (placed_comma (List.forall_mem_map.mpr fun c _ => ?_))
    exact (placed_attr (placed_member p) c.key).append (.text (by decide))

/-- The line that gathers the members of a group has its keys in quotes and backticks. -/
theorem placed_gathering (p : Property) : Placed plan (gathering p) := by
  have hmembers : Placed plan (memberFields p) := by
    refine placed_comma (List.forall_mem_map.mpr fun c _ => ?_)
    exact ((placed_quotedKey _).append (.text (by decide))).append
      (placed_attr (placed_member p) c.key)
  simp +decide [gathering, placed_item, placed_member, placed_group, placed_memberOrder, hmembers]

theorem placed_groupFields (p : Property) : Placed plan (groupFields p) := by
  refine placed_comma (List.forall_mem_append.mpr ⟨List.forall_mem_map.mpr fun k hk => ?_, ?_⟩)
  · exact ((placed_quotedKey _).append (.text (by decide))).append (placed_groupKeys p k hk)
  · exact List.forall_mem_singleton.mpr ((placed_quotedKey _).append (.text (by decide)))

/-- Groups are made of variables and keys alone. -/
theorem placed_grouping (p : Property) : PlacedScript plan (grouping p) := by
  have halias : Placed plan (named p.aliasName) := placed_variable p (.list 0)
  have hlist : Placed plan (named p.groupAlias) := placed_variable p .grouping
  have hopened : Placed plan (lit "LET " ++ named p.groupAlias ++ lit " = (") := by
    simp +decide [hlist]
  have hitems : Placed plan (lit "FOR " ++ named (p.aliasName ++ "_g") ++ lit " IN " ++
      named p.aliasName) := by
    simp +decide [placed_item, halias]
  have hobject : Placed plan (lit "RETURN \x7b " ++ groupFields p ++ lit " \x7d") := by
    simp +decide [placed_groupFields]
  rw [grouping_eq]
  refine .append (.append (.cons (.line hopened.placing) (.silent rfl))
    (.append (.append ?_ (placed_groupOrder p)) ?_))
    (.cons (.silent rfl) (.line (Fragment.Placed.text (by decide)).placing))
  · exact .cons (.line hitems.placing) (.line (placed_collecting p).placing)
  · exact .cons (.line (placed_gathering p).placing) (.line hobject.placing)

/-! ### Traversals -/

theorem placed_opening (p : Property) : Placed plan (opening p) := by
  have hsort : Placed plan (sortVariable p) := placed_variable p .sorted
  unfold opening
  refine .append ?_ ?_
  · rcases p.collapse with _ | _ | _
    · exact .nil
    · exact .text (by decide)
    · exact .text (by decide)
  · split
    · simp +decide [hsort]
    · exact .nil

theorem placed_closing (p : Property) : PlacedScript plan (closing p) := by
  have hsort : Placed plan (sortVariable p) := placed_variable p .sorted
  have hsorted : Placed plan (sortVariable p ++ lit " ASC RETURN " ++ sortVariable p ++ lit ")") := by
    simp +decide [hsort]
  unfold closing
  refine .append ?_ ?_
  · split
    · -- what closes the list begins with a blank
      have hclosed : Placed plan (lit " SORT " ++ sortVariable p ++ lit " ASC RETURN " ++
          sortVariable p ++ lit ")") := by
        simp +decide [hsort]
      refine .add hclosed ?_
      have hapart : lit " SORT " ++ sortVariable p ++ lit " ASC RETURN " ++ sortVariable p ++
          lit ")" = lit " SORT " ++
            (sortVariable p ++ lit " ASC RETURN " ++ sortVariable p ++ lit ")") := by simp
      rw [hapart, Fragment.through_append, Fragment.through_named_lit (by decide) (by decide),
        Option.bind_some, hsorted.through]
    · exact .nil
  · split
    · exact .add (.text (by decide)) (Fragment.through_named_lit (by decide) (by decide))
    · exact .nil

theorem placed_projectionStart (p : Property) : Placed plan (projectionStart p) := by
  unfold projectionStart
  cases p.ensureOrder <;> exact .text (by decide)

theorem placed_listLine (p : Property) (hop : Nat) : Placed plan (listLine p hop) := by
  have hopening : Placed plan (if hop = 0 then opening p else []) := by
    split
    · exact placed_opening p
    · exact .nil
  have hname : Placed plan (named (stepAlias p hop)) := placed_variable p (.list hop)
  unfold listLine
  cases p.ensureOrder <;> simp +decide [hname, hopening]

/-- An edge collection stands within backticks. -/
theorem placed_visitLine {source : Fragment} (h : Placed plan source) (p : Property) (hop : Nat)
    (step : Step) : Placed plan (visitLine plan p source hop step) := by
  have hdoc : Placed plan (hopDoc p hop) := placed_hopDoc p hop
  have hedge : Placed plan (hopEdge p hop) := placed_hopEdge p hop
  have hrelation : Placed plan (lit " `" ++ named (Collection.ofRelation step.uri).name ++
      lit "`") := .quoted '`' _ (by decide) (by decide) (by decide) (by decide) (by decide)
  unfold visitLine
  split
  · rw [List.append_assoc, List.append_assoc _ (lit " `"), ← List.append_assoc (lit " `")]
    refine .append ?_ hrelation
    cases p.ensureOrder <;> cases step.reverse <;> simp +decide [hdoc, hedge, h]
  · simp +decide [hdoc]

/-- A hop carries the types that its step asks for. -/
theorem placed_openHop {parent : Fragment} (h : Placed plan parent) {p : Property}
    (hp : p ∈ plan.spec.allProperties) {step : Step} {hop : Nat}
    (hstep : (step, hop) ∈ p.edgeSteps.zipIdx) :
    PlacedScript plan (openHop plan p parent hop step) := by
  have hdoc : Placed plan (hopDoc p hop) := placed_hopDoc p hop
  have hsource : Placed plan (if hop = 0 then parent else hopDoc p (hop - 1)) := by
    split
    · exact h
    · exact placed_hopDoc p _
  have htypes : Placed plan (lit "FILTER " ++ bound (stepAlias p hop ++ "_types")
      (.strings step.types) ++ lit " ANY IN " ++ attr (hopDoc p hop) "@type") := by
    have hbound : Placing plan (lit "FILTER " ++ bound (stepAlias p hop ++ "_types")
        (.strings step.types)) :=
      Fragment.Placed.append_placing (.text (by decide)) (.bound (.types hp hstep))
    exact (hbound.followed (by decide) (by decide)).append (placed_attr hdoc _)
  have horder : Placed plan (lit "SORT " ++ hopEdge p hop ++ lit "._orderNumber ASC") := by
    have hedge : Placed plan (hopEdge p hop) := placed_hopEdge p hop
    simp +decide [hedge]
  rw [openHop_eq]
  refine .append (.append (.append (.cons (.line (placed_listLine p hop).placing) (.silent rfl))
    (.append (.line (placed_visitLine hsource p hop step).placing) (placed_guards hdoc))) ?_) ?_
  · split
    · exact .nil
    · exact .line htypes.placing
  · split
    · exact .line horder.placing
    · exact .nil

theorem placed_closeHop (p : Property) (hop : Nat) : PlacedScript plan (closeHop p hop) := by
  have hname : Placed plan (named (stepAlias p hop)) := placed_variable p (.list hop)
  have hbracket : Placed plan (lit (if p.ensureOrder then ")" else "))")) := by
    cases p.ensureOrder <;> exact .text (by decide)
  unfold closeHop
  refine .append (.cons (.silent rfl) (.line hbracket.placing)) ?_
  split
  · exact .nil
  · exact .line ((placed_projectionStart p).append hname).placing

/-- What stands inside the hops is placed if the traversals of the children are. -/
theorem placed_body {doc : Fragment} (h : Placed plan doc) (p : Property)
    (hchildren : PlacedScript plan (traversals plan doc p.children)) :
    PlacedScript plan (body plan doc p) := by
  unfold body
  split
  · rename_i leaf _
    have hattr : Placed plan (attr doc leaf.uri) := placed_attr h _
    refine .cons (.line (Fragment.Placed.placing ?_)) (.line ((placed_projectionStart p).append
      hattr).placing)
    simp +decide [hattr]
  · exact (hchildren.append (placed_filters h _)).append (placed_result h _ true)

/-- The lists of the hops from the given one on; the steps before it come first in the path. -/
theorem placed_hopLists {parent : Fragment} (h : Placed plan parent) {p : Property}
    (hp : p ∈ plan.spec.allProperties)
    (hchildren : ∀ {doc}, Placed plan doc → PlacedScript plan (traversals plan doc p.children))
    (steps : List Step) (hop : Nat) (hsteps : ∀ e ∈ steps.zipIdx hop, e ∈ p.edgeSteps.zipIdx) :
    PlacedScript plan (hopLists plan parent p hop steps) := by
  induction steps generalizing hop with
  | nil => exact placed_body (placed_hopDoc p _) p (hchildren (placed_hopDoc p _))
  | cons step rest ih =>
    rw [List.zipIdx_cons, List.forall_mem_cons] at hsteps
    exact ((placed_openHop h hp hsteps.1).append (ih (hop + 1) hsteps.2)).append
      (placed_closeHop p hop)

/-- A traversal is placed if those of the children are, from wherever they start. -/
theorem placed_traversal_of_children {parent : Fragment} (h : Placed plan parent) {p : Property}
    (hp : p ∈ plan.spec.allProperties)
    (hchildren : ∀ {doc}, Placed plan doc → PlacedScript plan (traversals plan doc p.children)) :
    PlacedScript plan (traversal plan parent p) := by
  rw [traversal_eq_hopLists]
  split
  · exact hchildren h
  split
  · exact .nil
  · refine .append (.append (placed_hopLists h hp hchildren p.edgeSteps 0 fun _ he => he)
      (placed_closing p)) ?_
    split
    · exact placed_grouping p
    · exact .nil

/-- The lists of a level, with those of the levels below it. -/
theorem placed_traversals {parent : Fragment} (h : Placed plan parent) (ps : List Property)
    (hps : Property.subtrees ps ⊆ plan.spec.allProperties) :
    PlacedScript plan (traversals plan parent ps) := by
  induction ps using Property.forest_induction generalizing parent with
  | nil => exact .nil
  | cons p rest ihchildren ihrest =>
    rw [Property.subtrees_cons, List.cons_subset, List.append_subset] at hps
    have hfirst := placed_traversal_of_children h hps.1 fun hdoc => ihchildren hdoc hps.2.1
    rw [traversals]
    exact hfirst.append (ihrest h hps.2.2)

/-! ### Statements -/

/-- The access lists carry the spaces and instances that may be read. -/
theorem placed_accessLists : PlacedScript plan (accessLists plan.access) := by
  cases haccess : plan.access with
  | none => exact .nil
  | some access =>
    refine .cons (.line ?_) (.line ?_) <;>
      exact Fragment.Placed.append_placing (.text (by decide))
        (.bound (.own (by simp [own, haccess])))

/-- The root carries its type or id and the collections it is found by. -/
theorem placed_rootSelection : PlacedScript plan (rootSelection plan.root) := by
  have hbound (key : String) (value : Value) (h : (key, value) ∈ own plan) :
      Placing plan (bound key value) := .bound (.own h)
  unfold rootSelection
  split
  · rename_i id hroot
    have hcollection := hbound "@rootCollection"
      (.string (Collection.ofSpace id.space).name) (by simp [own, hroot])
    have hid := hbound "rootId" (.string id.uuid.text) (by simp [own, hroot])
    have hhead : Placing plan (lit "LET root_doc = DOCUMENT(" ++
        bound "@rootCollection" (.string (Collection.ofSpace id.space).name)) :=
      Fragment.Placed.append_placing (.text (by decide)) hcollection
    have hboth := (hhead.followed (s := ", ") (by decide) (by decide)).append_placing hid
    exact .line (hboth.followed (by decide) (by decide)).placing
  · rename_i type hroot
    have hcollection := hbound "@typeCollection" (.string typeCollection)
      (by simp [own, hroot])
    have htype := hbound "typeId" (.string type) (by simp [own, hroot])
    have hrelation := hbound "@typeRelation" (.string typeRelation)
      (by simp [own, hroot])
    have hhead : Placing plan (lit "FOR root_doc IN 1..1 OUTBOUND DOCUMENT(" ++
        bound "@typeCollection" (.string typeCollection)) :=
      Fragment.Placed.append_placing (.text (by decide)) hcollection
    have hboth := (hhead.followed (s := ", ") (by decide) (by decide)).append_placing htype
    exact .line ((hboth.followed (by decide) (by decide)).append_placing hrelation)

variable (plan)

/-- The selection of an AQL statement has its placeholders in their places. -/
theorem placed_selection : PlacedScript plan (selection plan) := by
  have hroot : Placed plan root := placed_document .root
  unfold selection
  refine .append (.append (.append (.append (.append placed_accessLists placed_rootSelection)
    (placed_guards hroot)) ?_) (placed_traversals hroot _ (List.Subset.refl _)))
    (placed_filters hroot _)
  split
  · rename_i c hc
    have hcondition := placed_condition (placed_attr hroot "@id")
      (show c ∈ plan.conditions by simp [Plan.conditions, hc])
    exact .line (Fragment.Placed.append (.text (by decide)) hcondition).placing
  · exact .nil

/-- An AQL statement has its placeholders in their places. -/
theorem placed_script : PlacedScript plan (script plan) := by
  have hroot : Placed plan root := placed_document .root
  have hpage : PlacedScript plan [.page plan.page] := by
    rcases plan.page with _ | ⟨offset, _ | size, returnTotal⟩
    · exact .silent rfl
    · exact .silent rfl
    · refine .starting rfl (Fragment.Placed.placing ?_)
      exact (((Fragment.Placed.text (by decide)).append (.number offset)).append
        (.text (by decide))).append (.number size)
  unfold script
  refine .append (placed_selection plan) ?_
  split
  · exact .cons (.line (Fragment.Placed.text (by decide)).placing)
      (.cons (.line (Fragment.Placed.text (by decide)).placing) (.silent rfl))
  · unfold projection
    refine .append (.append ?_ hpage) (placed_result hroot _ false)
    split
    · exact .nil
    · refine .line (Fragment.Placed.append (.text (by decide)) (placed_comma ?_)).placing
      exact List.forall_mem_map.mpr fun p _ => (placed_value hroot p).append (.text (by decide))

end Aql

/-! ## Cypher -/

namespace Cypher

/-- The placeholders of a statement for a plan. -/
inductive Carries (plan : Plan) : String → Value → Prop
  | own {key : String} {value : Value} (h : (key, value) ∈ own plan) : Carries plan key value
  | types {p : Property} {step : Step} {hop : Nat} (hp : p ∈ plan.spec.allProperties)
      (h : (step, hop) ∈ p.edgeSteps.zipIdx) :
      Carries plan (p.aliasName ++ "_types" ++ toString hop) (.strings step.types)
  | operand {c : Condition} (h : c ∈ plan.conditions) :
      Carries plan c.bindName (.ofOption .string c.operand)

/-- Fragments of Cypher, likewise. -/
abbrev Placed (plan : Plan) (f : Fragment) : Prop := Fragment.Placed .dollar (Carries plan) f

abbrev Placing (plan : Plan) (f : Fragment) : Prop := Fragment.Placing .dollar (Carries plan) f

abbrev PlacedScript (plan : Plan) (s : Script) : Prop := Script.Placed .dollar (Carries plan) s

variable {plan : Plan}

/-- The local names of a property hold no sigil. -/
theorem placed_localName (p : Property) {suffix : String} (h : IsWord suffix) :
    Placed plan (localName p suffix) := .word (isWord_append (isWord_aliasName p) h)

theorem placed_hopNode (p : Property) (hop : Nat) : Placed plan (hopNode p hop) :=
  .word (isWord_append (isWord_append (isWord_aliasName p) (by decide)) (isWord_toString hop))

theorem placed_node {node : Fragment} (h : IsNode node) : Placed plan node := by
  cases h with
  | root => exact .text (by decide)
  | hop p hop => exact placed_hopNode p hop

/-- A name stands within backticks, so that a sigil in it introduces nothing. -/
theorem placed_ticked (name : String) : Placed plan (ticked name) :=
  .quoted '`' name (by decide) (by decide) (by decide) (by decide) (by decide)

theorem placed_attr {node : Fragment} (h : Placed plan node) (key : String) :
    Placed plan (attr node key) :=
  (h.append (.text (by decide))).append (placed_ticked key)

theorem placed_comma {fs : List Fragment} (h : ∀ f ∈ fs, Placed plan f) : Placed plan (comma fs) :=
  .join (by decide) h

/-- A clause is placed if its conditions are. -/
theorem placing_whereClause {opening : String} (hopening : isPlainText .dollar opening = true)
    {conditions : List Fragment} (h : ∀ f ∈ conditions, Placing plan f) :
    Placing plan (whereClause opening conditions) := by
  unfold whereClause
  split
  · exact Fragment.Placed.nil.placing
  · exact Fragment.Placed.append_placing (.text hopening) (.join (by decide) (by decide) h)

/-- The tests of a node carry the spaces asked for, if there are any. -/
theorem placing_guards {node : Fragment} (h : Placed plan node) :
    ∀ f ∈ guards plan node, Placing plan f := by
  have haccess : Placed plan (lit "(" ++ node ++ lit "._space IN allowedSpaces OR " ++ node ++
      lit "._id IN allowedInstances)") := by
    simp +decide [h]
  have hspaces : Placed plan (node ++ lit "._space IN ") := h.append (.text (by decide))
  unfold guards
  rw [List.forall_mem_append]
  constructor
  · split
    · simpa using haccess.placing
    · simp
  · split
    · rename_i spaces heq
      have hown : Carries plan "spaceRestriction" (.strings spaces) :=
        .own (by simp [own, heq])
      simpa using hspaces.append_placing (.bound hown)
    · simp

theorem placed_directValue {node : Fragment} (h : Placed plan node) (p : Property) :
    Placed plan (directValue node p) := by
  unfold directValue
  split
  · exact placed_attr h _
  · exact .text (by decide)

/-- A comparison carries its operand, in the place of a value. -/
theorem placed_comparison {field : Fragment} (h : Placed plan field) {op : String}
    (hop : isPlainText .dollar op = true) {c : Condition} (hc : c ∈ plan.conditions) :
    Placed plan (comparison field op c) := by
  have hitems : Placed plan (lit "any(v IN apoc.coll.flatten([" ++ field ++ lit "]) WHERE v" ++
      lit op) := by
    have hop : Placed plan (lit op) := .text hop
    simp +decide [h, hop]
  exact (hitems.append_placing (.bound (.operand hc))).followed (by decide) (by decide)

/-- A condition carries what its comparison does; asking for empty values, it carries nothing. -/
theorem placed_condition {field : Fragment} (h : Placed plan field) {c : Condition}
    (hc : c ∈ plan.conditions) : Placed plan (condition field c) := by
  unfold condition
  split
  · simp +decide [h]
  all_goals exact placed_comparison h (by decide) hc

/-- The conditions of a property carry the operand of its condition in the plan. -/
theorem placed_conditionsOn {field : Fragment} (h : Placed plan field) (p : Property) :
    ∀ f ∈ conditionsOn plan p field, Placed plan f := by
  have hrequired : Placed plan (field ++ lit " IS NOT NULL AND " ++ field ++ lit " <> \"\" AND " ++
      field ++ lit " <> []") := by
    simp +decide [h]
  unfold conditionsOn
  rw [List.forall_mem_append]
  constructor
  · split
    · exact List.forall_mem_singleton.mpr hrequired
    · simp
  · split
    · rename_i c hc
      exact List.forall_mem_singleton.mpr (placed_condition h (Plan.mem_conditions hc))
    · simp

/-! ### Shapes -/

/-- Lists are sorted by keys within quotes. -/
theorem placed_sortMaps {list : Fragment} (h : Placed plan list) (keys : List Property) :
    Placed plan (sortMaps list keys) := by
  -- a safe name has no dollar sign
  have hkey (c : Property) : Placed plan (lit "'^" ++ named c.key ++ lit "'") := by
    have hname : Placed plan (named c.key) := .name (by simp [Text.safe, Text.isSafe, Sigil.char,
      Text.safeMarks])
    simp +decide [hname]
  have hkeys : Placed plan (comma (keys.map fun c => lit "'^" ++ named c.key ++ lit "'")) :=
    placed_comma (List.forall_mem_map.mpr fun c _ => hkey c)
  unfold sortMaps
  split
  · exact h
  · exact ((((Fragment.Placed.text (by decide)).append h).append (.text (by decide))).append
      hkeys).append (.text (by decide))

/-- Entries of an object, each with the field of a variable. -/
theorem placed_fields {name : Fragment} (h : Placed plan name) (cs : List Property) :
    Placed plan (comma (cs.map fun c => ticked c.key ++ lit ": " ++ name ++ lit "." ++
      ticked c.key)) := by
  refine placed_comma (List.forall_mem_map.mpr fun c _ => ?_)
  have hkey : Placed plan (ticked c.key) := placed_ticked c.key
  simp +decide [hkey, h]

theorem placed_groups {list : Fragment} (h : Placed plan list) (p : Property) :
    Placed plan (groups list p) := by
  have hx : Placed plan (localName p "_x") := placed_localName p (by decide)
  have hlist : Placed plan (lit "apoc.coll.toSet([" ++ localName p "_x" ++ lit " IN " ++ list ++
      lit " | \x7b") := by
    simp +decide [hx, h]
  exact placed_sortMaps ((hlist.append (placed_fields hx _)).append (.text (by decide))) _

theorem placed_members {list : Fragment} (h : Placed plan list) (p : Property) :
    Placed plan (members list p) := by
  have hg : Placed plan (localName p "_g") := placed_localName p (by decide)
  have hy : Placed plan (localName p "_y") := placed_localName p (by decide)
  have hlist : Placed plan (lit "[" ++ localName p "_y" ++ lit " IN " ++ list ++ lit " WHERE ") := by
    simp +decide [hy, h]
  have hmatching : Placed plan (conjunction ((p.children.filter Property.groupBy).map fun c =>
      localName p "_y" ++ lit "." ++ ticked c.key ++ lit " = " ++ localName p "_g" ++ lit "." ++
        ticked c.key)) := by
    refine .join (by decide) (List.forall_mem_map.mpr fun c _ => ?_)
    have hkey : Placed plan (ticked c.key) := placed_ticked c.key
    simp +decide [hkey, hg, hy]
  exact placed_sortMaps ((((hlist.append hmatching).append (.text (by decide))).append
    (placed_fields hy _)).append (.text (by decide))) _

/-- Groups are placed as far as the list is from which they are made. -/
theorem placed_grouping {list : Fragment} (h : Placed plan list) (p : Property) :
    Placed plan (grouping list p) := by
  have hg : Placed plan (localName p "_g") := placed_localName p (by decide)
  have hgroups := placed_groups h p
  have hmembers := placed_members h p
  have hkey : Placed plan (ticked (p.groupedInstances.getD "")) := placed_ticked _
  rw [grouping_eq]
  simp +decide [hg, hgroups, hkey, hmembers]

/-- A list may be sorted, grouped and collapsed. -/
theorem placed_shape {list : Fragment} (h : Placed plan list) (p : Property) :
    Placed plan (shape p list) := by
  have hsorted : Placed plan (if p.sort then lit "apoc.coll.sort(" ++ list ++ lit ")" else list) := by
    split
    · simp +decide [h]
    · exact h
  unfold shape
  dsimp only
  generalize (if p.sort then lit "apoc.coll.sort(" ++ list ++ lit ")" else list) = sorted
    at hsorted ⊢
  -- sorted first, then grouped
  have hgrouped : Placed plan (if p.hasGrouping then grouping sorted p else sorted) := by
    split
    · exact placed_grouping hsorted p
    · exact hsorted
  have hx : Placed plan (localName p "_x") := placed_localName p (by decide)
  split
  · simp +decide [hgrouped]
  · simp +decide [hgrouped, hx]
  · exact hgrouped

/-! ### Lists -/

/-- The relations of a path stand within backticks. -/
theorem placed_pathPattern {parent : Fragment} (h : Placed plan parent) (p : Property) :
    Placed plan (pathPattern parent p) := by
  have hhop (hop : Nat) (step : Step) : Placed plan (hopPattern p hop step) := by
    have hedge : Placed plan (if decide (hop + 1 = p.edgeSteps.length) && p.ensureOrder then
        edgeVariable p else []) := by
      split
      · exact placed_localName p (by decide)
      · exact .nil
    have hnode : Placed plan (hopNode p hop) := placed_hopNode p hop
    have hrelation : Placed plan (ticked step.uri) := placed_ticked _
    unfold hopPattern
    dsimp only
    generalize (if decide (hop + 1 = p.edgeSteps.length) && p.ensureOrder then edgeVariable p
      else []) = edge at hedge ⊢
    split <;> simp +decide [hedge, hnode, hrelation]
  have hopened : Placed plan (lit "(" ++ parent ++ lit ")") := by
    simp +decide [h]
  exact hopened.append (.flatMap fun hop _ => hhop hop.2 hop.1)

/-- The conditions of a path carry the types that its steps ask for. -/
theorem placing_pathConditions {p : Property} (hp : p ∈ plan.spec.allProperties) :
    ∀ f ∈ pathConditions plan p, Placing plan f := by
  intro f hf
  obtain ⟨⟨step, hop⟩, hstep, hf⟩ := List.mem_flatMap.mp hf
  have hnode : Placed plan (hopNode p hop) := placed_hopNode p hop
  have htypes : Placed plan (lit "any(l IN labels(" ++ hopNode p hop ++ lit ") WHERE l IN ") := by
    simp +decide [hnode]
  rcases List.mem_append.mp hf with hf | hf
  · exact placing_guards hnode f hf
  · split at hf
    · cases hf
    · rw [List.mem_singleton.mp hf]
      exact ((htypes.append_placing (.bound (.types hp hstep))).followed (by decide)
        (by decide)).placing

/-- A comprehension is placed if its parent, its conditions and its projection are. -/
theorem placed_comprehension {parent : Fragment} (hparent : Placed plan parent) {p : Property}
    (hp : p ∈ plan.spec.allProperties) {conditions : List Fragment}
    (hconditions : ∀ f ∈ conditions, Placed plan f) {projection : Fragment}
    (hprojection : Placed plan projection) :
    Placed plan (comprehension plan parent p conditions projection) := by
  have hx : Placed plan (localName p "_x") := placed_localName p (by decide)
  have hedge : Placed plan (edgeVariable p) := placed_localName p (by decide)
  have hkept : Placed plan (kept p projection) := by
    unfold kept
    split
    · simp +decide [hedge, hprojection]
    · exact hprojection
  have hwhere : Placing plan (whereClause " WHERE " (pathConditions plan p ++ conditions)) :=
    placing_whereClause (by decide) (List.forall_mem_append.mpr
      ⟨placing_pathConditions hp, fun f hf => (hconditions f hf).placing⟩)
  have hmatched : Placed plan (matched plan parent p conditions projection) := by
    have hpattern : Placed plan (lit "[" ++ pathPattern parent p) :=
      .append (.text (by decide)) (placed_pathPattern hparent p)
    exact (((hpattern.append_placing hwhere).followed (by decide) (by decide)).append hkept).append
      (.text (by decide))
  -- what is done to the matches adds names only
  rw [comprehension_eq]
  unfold withoutRepeats withoutBlanks inOrder
  cases p.ensureOrder <;> cases p.isLeaf <;> simp +decide [hx, hmatched]

/-- A value is placed if the conditions and entries of the children are, at whatever node. -/
theorem placed_value_of_children {parent : Fragment} (h : IsNode parent) {p : Property}
    (hp : p ∈ plan.spec.allProperties)
    (hconditions : ∀ {node}, IsNode node → ∀ f ∈ conditions plan node p.children, Placed plan f)
    (hentries : ∀ {node}, IsNode node → ∀ f ∈ entries plan node p.children, Placed plan f) :
    Placed plan (value plan parent p) := by
  have hparent : Placed plan parent := placed_node h
  have hlast : Placed plan (lastNode parent p) := placed_node (h.last p)
  rw [value_eq]
  split
  · exact placed_directValue hparent p
  split
  · exact placed_shape (.text (by decide)) p
  refine placed_shape ?_ p
  split
  · exact placed_comprehension hparent hp (by simp) (placed_attr hlast _)
  · refine placed_comprehension hparent hp (hconditions (h.last p)) ?_
    have hfields := placed_comma (hentries (h.last p))
    simp +decide [hfields]

/-- Values, conditions and entries of a level, with those of the levels below it. -/
theorem placed_level (ps : List Property) (hps : Property.subtrees ps ⊆ plan.spec.allProperties)
    {node : Fragment} (h : IsNode node) : (∀ p ∈ ps, Placed plan (value plan node p)) ∧
      (∀ f ∈ conditions plan node ps, Placed plan f) ∧ ∀ f ∈ entries plan node ps, Placed plan f := by
  induction ps using Property.forest_induction generalizing node with
  | nil => simp [conditions, entries]
  | cons p rest ihchildren ihrest =>
    rw [Property.subtrees_cons, List.cons_subset, List.append_subset] at hps
    obtain ⟨hp, hchildren, hrest⟩ := hps
    have hbelow {node : Fragment} (h : IsNode node) := ihchildren hchildren h
    obtain ⟨hvalues, hconditions, hentries⟩ := ihrest hrest h
    have hvalue := placed_value_of_children h hp (fun hnode => (hbelow hnode).2.1)
      fun hnode => (hbelow hnode).2.2
    refine ⟨List.forall_mem_cons.mpr ⟨hvalue, hvalues⟩, ?_, ?_⟩
    · rw [conditions_cons, List.forall_mem_append]
      refine ⟨?_, hconditions⟩
      split
      · exact (hbelow h).2.1
      split
      · simp
      · exact placed_conditionsOn hvalue p
    · rw [entries_cons, List.forall_mem_append]
      refine ⟨?_, hentries⟩
      split
      · exact (hbelow h).2.2
      · exact List.forall_mem_singleton.mpr
          (((placed_ticked p.key).append (.text (by decide))).append hvalue)

/-- The value of a property is placed at every node, by induction on the properties. -/
theorem placed_value {parent : Fragment} (h : IsNode parent) {p : Property}
    (hp : p.subtree ⊆ plan.spec.allProperties) : Placed plan (value plan parent p) := by
  refine (placed_level [p] ?_ h).1 p (by simp)
  rwa [Property.subtrees, Property.subtrees, List.append_nil]

/-! ### Statements -/

theorem placed_topValue (p : Property) : Placed plan (topValue p) := by
  unfold topValue
  split
  · exact placed_directValue (placed_node .root) p
  · exact .word (isWord_aliasName p)

theorem placed_clause {conditions : List Fragment} (h : ∀ f ∈ conditions, Placing plan f) :
    PlacedScript plan (clause conditions) := by
  unfold clause
  split
  · exact .nil
  · exact .line (placing_whereClause (by decide) h)

/-- The access lists carry the spaces and instances that may be read. -/
theorem placed_accessLists : PlacedScript plan (accessLists plan.access) := by
  cases haccess : plan.access with
  | none => exact .nil
  | some access =>
    have hspaces : Placing plan (lit "WITH " ++
        bound "allowedSpaces" (.strings access.spaces)) :=
      Fragment.Placed.append_placing (.text (by decide)) (.bound (.own (by simp [own, haccess])))
    have hinstances : Placing plan
        (bound "allowedInstances" (.strings (access.instances.map Uuid.text))) :=
      .bound (.own (by simp [own, haccess]))
    have hboth := (hspaces.followed (s := " AS allowedSpaces, ") (by decide)
      (by decide)).append_placing hinstances
    exact .line (hboth.followed (by decide) (by decide)).placing

/-- The root carries its id; a type stands within backticks as a label. -/
theorem placed_rootSelection : PlacedScript plan (rootSelection plan.stage plan.root) := by
  have hlabel (name : String) : Placed plan (ticked name) := placed_ticked name
  unfold rootSelection
  split
  · rename_i id hroot
    have hid : Placing plan (bound "rootId" (.string id.uuid.text)) :=
      .bound (.own (by simp [own, hroot]))
    have hhead : Placed plan (lit "MATCH (root:" ++ ticked plan.stage.label ++
        lit " \x7b_id: ") := by
      simp +decide [hlabel]
    exact .line ((hhead.append_placing hid).followed (by decide) (by decide)).placing
  · rename_i type _
    have hhead : Placed plan (lit "MATCH (root:" ++ ticked plan.stage.label ++ lit ":" ++
        ticked type ++ lit ")") := by
      simp +decide [hlabel]
    exact .line hhead.placing

variable (plan)

/-- The selection of a Cypher statement has its placeholders in their places. -/
theorem placed_selection : PlacedScript plan (selection plan) := by
  have hroot : Placed plan root := placed_node .root
  have hlevel : ∀ p ∈ Property.level plan.spec.properties,
      Property.subtree p ⊆ plan.spec.allProperties := fun p hp =>
    (Property.of_mem_level hp).2
  unfold selection
  refine .append (.append (.append (.append placed_accessLists placed_rootSelection)
    (placed_clause ?_)) ?_) (placed_clause ?_)
  · refine List.forall_mem_append.mpr ⟨placing_guards hroot, ?_⟩
    split
    · rename_i c hc
      have hcondition := placed_condition (placed_attr hroot "@id")
        (show c ∈ plan.conditions by simp [Plan.conditions, hc])
      exact List.forall_mem_singleton.mpr hcondition.placing
    · simp
  · split
    · exact .nil
    · refine .line (Fragment.Placed.append (.text (by decide)) (placed_comma ?_)).placing
      refine List.forall_mem_map.mpr fun p hp => ?_
      have hvalue := placed_value .root (hlevel p (List.mem_filter.mp hp).1)
      have hname : Placed plan (named p.aliasName) := .word (isWord_aliasName p)
      exact (hvalue.append (.text (by decide))).append hname
  · intro f hf
    obtain ⟨p, -, hf⟩ := List.mem_flatMap.mp hf
    exact (placed_conditionsOn (placed_topValue p) p f hf).placing

/-- A Cypher statement has its placeholders in their places. -/
theorem placed_script : PlacedScript plan (script plan) := by
  have hcount : Placed plan (lit "RETURN count(root) AS count") := .text (by decide)
  have hfields : Placed plan (comma ((Property.level plan.spec.properties).map fun p =>
      ticked p.key ++ lit ": " ++ topValue p)) :=
    placed_comma (List.forall_mem_map.mpr fun p _ =>
      ((placed_ticked p.key).append (.text (by decide))).append (placed_topValue p))
  have hsorted : Placed plan (comma (((Property.level plan.spec.properties).filter
      Property.sort).map topValue ++ [lit "root._id"])) := by
    refine placed_comma (List.forall_mem_append.mpr ⟨?_, ?_⟩)
    · exact List.forall_mem_map.mpr fun p _ => placed_topValue p
    · exact List.forall_mem_singleton.mpr (.text (by decide))
  unfold script
  refine .append (placed_selection plan) ?_
  split
  · exact .cons (.line hcount.placing) (.silent rfl)
  · unfold projection
    refine .append (.append (.line ?_) ?_) (.cons (.silent rfl) (.line ?_))
    · exact (Fragment.Placed.append (.text (by decide)) hsorted).placing
    · split
      · exact .line ((((Fragment.Placed.text (by decide)).append (.number _)).append
          (.text (by decide))).append (.number _)).placing
      · exact .nil
    · exact ((Fragment.Placed.append (.text (by decide)) hfields).append
        (.text (by decide))).placing

end Cypher

end GraphQuery
