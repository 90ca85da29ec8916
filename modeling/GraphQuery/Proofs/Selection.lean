import Mathlib.Data.List.Pairwise
import GraphQuery.Proofs.Enumeration
import GraphQuery.Proofs.Naming
import GraphQuery.Proofs.ResultKeys

/-!
# GraphQuery.Proofs.Selection — required fields and filters select rows

While a row is built, it is given up with the first field that is required and empty, or whose
filter refuses its value. On the first level this is a selection among the rows that one gets if
nothing is asked of any field.

1. **Texts** that begin with another one, end with it, or hold it.
2. **Conditions** on a value, with no regard to how patterns are kept.
3. **Demands** on the fields of a level, and plans without those of the first level.
4. **Values** do not depend on the demands of their own level.
5. **Rows** are selected.
-/

namespace GraphQuery

open Json

/-! ## Texts -/

namespace Text

theorem isSome_rest?_iff {lead cs : List Char} : (rest? lead cs).isSome = true ↔ lead <+: cs := by
  rw [Option.isSome_iff_exists]
  exact exists_congr fun _ => rest?_eq_some_iff.trans eq_comm

/-- A text starts with another exactly when that is a prefix of it. -/
theorem startsWith_iff {s lead : String} : startsWith s lead = true ↔ lead.toList <+: s.toList :=
  isSome_rest?_iff

theorem endsWith_iff {s tail : String} : endsWith s tail = true ↔ tail.toList <:+ s.toList :=
  isSome_rest?_iff.trans List.reverse_prefix

theorem holds_iff {part cs : List Char} : holds part cs = true ↔ part <:+: cs := by
  induction cs with
  | nil => rw [holds, List.isEmpty_iff, List.infix_nil]
  | cons c cs ih => rw [holds, Bool.or_eq_true, isSome_rest?_iff, ih, List.infix_cons_iff]

/-- A text contains another exactly when that is an infix of it. -/
theorem contains_iff {s part : String} : contains s part = true ↔ part.toList <:+: s.toList :=
  holds_iff

end Text

/-! ## Conditions -/

/-- Null, the empty string or the empty list. -/
def Json.Value.IsEmpty (v : Value) : Prop := v = .null ∨ v = .string "" ∨ v = .array []

/-- The empty values are those that are named so. -/
theorem Json.Value.isEmptyValue_iff {v : Value} : v.isEmptyValue = true ↔ v.IsEmpty := by
  unfold IsEmpty
  cases v <;> simp [isEmptyValue]

namespace Condition

/-- What a condition with an operand says of one value. -/
def HoldsOf (c : Condition) (operand : String) (v : Value) : Prop :=
  v ≠ .null ∧ match c.op with
    | .isEmpty => False
    | .equals => v = .string operand
    | .startsWith => operand.toList <+: v.display.toList
    | .endsWith => operand.toList <:+ v.display.toList
    | .contains => operand.toList <:+: v.display.toList
    | .regex => ∃ p, Pattern.parse? operand = some p ∧ p.matchesText v.display = true

/-- What a condition says of a value: whether it is empty, or something that holds of the value, or
of some item of a list. -/
def Holds (c : Condition) (v : Value) : Prop :=
  if c.op = .isEmpty then v.IsEmpty
  else ∃ operand, c.operand = some operand ∧
    match v with
    | .array items => ∃ item ∈ items, c.HoldsOf operand item
    | v => c.HoldsOf operand v

/-- The pattern of a condition's regular expression, if it has one, is kept under its name. -/
def IsKept (c : Condition) (patterns : Dictionary Pattern) : Prop :=
  ∀ text, c.patternText? = some text →
    ∃ p, Pattern.parse? text = some p ∧ patterns.get? c.bindName = some p

variable {c : Condition} {patterns : Dictionary Pattern}

/-- A condition accepts a scalar exactly when it holds of it. -/
theorem acceptsScalar_iff (hkept : c.IsKept patterns) {operand : String}
    (hoperand : c.operand = some operand) (v : Value) :
    c.acceptsScalar patterns operand v = true ↔ c.HoldsOf operand v := by
  have hnull : v.isNull = true ↔ v = .null := by cases v <;> simp [Value.isNull]
  unfold acceptsScalar HoldsOf
  by_cases hv : v = .null
  · simp [hv, Value.isNull]
  · rw [if_neg (mt hnull.mp hv), and_iff_right hv]
    cases hop : c.op with
    | isEmpty => simp
    | equals => cases v <;> simp [Value.asString?]
    | startsWith => exact Text.startsWith_iff
    | endsWith => exact Text.endsWith_iff
    | contains => exact Text.contains_iff
    | regex =>
      obtain ⟨p, hparse, hget⟩ := hkept operand (by rw [patternText?, if_pos hop, hoperand])
      simp [hparse, hget]

/-- An active condition accepts a value exactly when it holds of it. -/
theorem accepts_iff (hactive : c.isActive = true) (hkept : c.IsKept patterns) (v : Value) :
    c.accepts patterns v = true ↔ c.Holds v := by
  unfold accepts Holds
  by_cases hop : c.op = .isEmpty
  · rw [if_pos hop, if_pos hop]
    exact Value.isEmptyValue_iff
  · -- an active condition has an operand, unless it asks for empty values
    have hoperand : c.operand.isSome = true := by simpa [isActive, hop] using hactive
    obtain ⟨operand, hoperand⟩ := Option.isSome_iff_exists.mp hoperand
    have hscalar := acceptsScalar_iff hkept hoperand
    rw [if_neg hop, if_neg hop, hoperand]
    simp only [Option.some.injEq, exists_eq_left']
    cases v <;> simp only [hscalar, List.any_eq_true]

end Condition

/-! ## Demands -/

namespace Property

/-- A property of which nothing is asked. -/
def lenient (p : Property) : Property := { p with required := false, filter := none }

mutual

/-- Asks nothing of the properties that stand for a property on its level. -/
def relax : Property → Property
  | p@⟨_, path, children, _, _, _, _, _, _, _, _⟩ =>
    if path.isEmpty && !children.isEmpty then { p with children := relaxAll children }
    else p.lenient

/-- Asks nothing of the properties of a level. Demands on the levels below stay. -/
def relaxAll : List Property → List Property
  | [] => []
  | p :: rest => relax p :: relaxAll rest

end

/-- Only the properties of a level are made lenient, through merge nodes. -/
theorem relax_eq (p : Property) :
    relax p = if p.isMerge then { p with children := relaxAll p.children } else p.lenient := by
  cases p
  rw [relax]
  rfl

theorem isMerge_relax (p : Property) : (relax p).isMerge = p.isMerge := by
  rw [relax_eq]
  cases hmerge : p.isMerge with
  | false => exact hmerge
  | true =>
    -- there are as many children as before
    obtain ⟨c, rest, hchildren⟩ : ∃ c rest, p.children = c :: rest := by
      cases hchildren : p.children with
      | nil => simp [isMerge, isLeaf, hchildren] at hmerge
      | cons c rest => exact ⟨c, rest, rfl⟩
    rw [if_pos rfl, hchildren, relaxAll]
    unfold isMerge isLeaf at hmerge ⊢
    simpa [hchildren] using hmerge

/-- The relaxed level is the level of lenient properties. -/
theorem level_relaxAll (ps : List Property) : level (relaxAll ps) = (level ps).map lenient := by
  induction ps using forest_induction with
  | nil => rw [relaxAll, level_nil, List.map_nil]
  | cons p rest ihchildren ihrest =>
    rw [relaxAll, level_cons, level_cons, List.map_append, ihrest, isMerge_relax, relax_eq]
    cases p.isMerge with
    | true => rw [if_pos rfl, if_pos rfl, if_pos rfl, ihchildren]
    | false => rfl

/-- The trees of the properties of a level, one after the other, are part of all trees. -/
theorem flatMap_subtree_level (ps : List Property) :
    ((level ps).flatMap subtree).Sublist (subtrees ps) := by
  induction ps using forest_induction with
  | nil => simp [subtrees]
  | cons p rest ihchildren ihrest =>
    rw [level_cons, List.flatMap_append, subtrees_cons, ← List.cons_append]
    refine List.Sublist.append ?_ ihrest
    split
    · exact ihchildren.cons p
    · rw [List.flatMap_singleton, subtree_eq]

/-- Where no number is repeated, none is in a tree of the level or in two of them. -/
theorem nodup_trees {ps : List Property} (h : ((subtrees ps).map index).Nodup) :
    (∀ p ∈ level ps, (p.subtree.map index).Nodup) ∧
      (level ps).Pairwise (Function.onFun List.Disjoint fun p => p.subtree.map index) := by
  have hlevel := h.sublist ((flatMap_subtree_level ps).map index)
  rwa [List.map_flatMap, List.nodup_flatMap] at hlevel

/-- The number of a property tells in which of the trees of a level it is. -/
theorem eq_of_index_eq {ps : List Property} (h : ((subtrees ps).map index).Nodup) {p p' : Property}
    (hp : p ∈ level ps) (hp' : p' ∈ level ps) {q q' : Property} (hq : q ∈ p.subtree)
    (hq' : q' ∈ p'.subtree) (hindex : q.index = q'.index) : p = p' := by
  have : Std.Symm (Function.onFun List.Disjoint fun p : Property => p.subtree.map index) :=
    ⟨fun _ _ h _ ha hb => h hb ha⟩
  by_contra hne
  exact (nodup_trees h).2.forall hp hp' hne (List.mem_map_of_mem hq)
    (List.mem_map.mpr ⟨q', hq', hindex.symm⟩)

/-- A property below a level has the number of none on the level. -/
theorem index_below_level {ps : List Property} (h : ((subtrees ps).map index).Nodup)
    {p : Property} (hp : p ∈ level ps) {q : Property} (hq : q ∈ subtrees p.children) :
    q.index ∉ (level ps).map index := by
  rw [List.mem_map]
  rintro ⟨p', hp', hindex⟩
  obtain rfl : p = p' := by
    refine eq_of_index_eq h hp hp' (q := q) ?_ p'.mem_subtree_self hindex.symm
    rw [subtree_eq]
    exact .tail p hq
  -- a tree has the number of its root once
  have hown := (nodup_trees h).1 p hp
  rw [subtree_eq, List.map_cons, List.nodup_cons] at hown
  exact hown.1 (List.mem_map.mpr ⟨q, hq, hindex.symm⟩)

end Property

/-- The plan that asks nothing of the properties of the first level. -/
def Plan.relaxed (plan : Plan) : Plan :=
  { plan with
    spec := { plan.spec with properties := Property.relaxAll plan.spec.properties }
    propertyFilters := plan.propertyFilters.filter fun f =>
      f.1 ∉ (Property.level plan.spec.properties).map Property.index }

namespace Plan

theorem lookup_filter {β : Type} (keep : Nat → Bool) (l : List (Nat × β)) (i : Nat) :
    (l.filter fun f => keep f.1).lookup i = if keep i then l.lookup i else none := by
  induction l with
  | nil => simp
  | cons f rest ih =>
    rcases f with ⟨j, b⟩
    rw [List.filter_cons, List.lookup_cons]
    by_cases hij : i = j
    · subst hij
      cases hkeep : keep i with
      | true => simp
      | false => simpa [hkeep] using ih
    · have hne : (i == j) = false := by simpa using hij
      cases keep j <;> simp [List.lookup_cons, hne, ih]

end Plan

/-! ## Values -/

namespace Evaluator

theorem map_fst_pathFields (e : Evaluator) (doc : Document) (ps : List Property) :
    (e.pathFields doc ps).map Prod.fst = Property.level ps := by
  induction ps using Property.forest_induction with
  | nil => rw [pathFields_nil, Property.level_nil, List.map_nil]
  | cons p rest ihchildren ihrest =>
    rw [pathFields_cons, Property.level_cons, List.map_append, ihrest]
    split
    · rw [ihchildren]
    · split <;> rfl

/-- Rows are assembled alike under plans that admit the same properties. -/
theorem assemble_congr {e f : Evaluator} {fields : List (Property × Value)}
    (h : ∀ field ∈ fields, e.admits field.1 = f.admits field.1) :
    e.assemble fields = f.assemble fields := by
  have hall : (fields.all fun field => e.admits field.1 field.2) =
      fields.all fun field => f.admits field.1 field.2 := by
    rw [Bool.eq_iff_iff, List.all_eq_true, List.all_eq_true]
    exact forall₂_congr fun field hfield => by rw [h field hfield]
  rw [assemble, assemble, hall]

section

variable {e f : Evaluator} (hdata : e.data = f.data) (hvisible : e.plan.visible = f.plan.visible)

include hdata hvisible

/-- Paths depend on what is stored and on what may be seen. -/
theorem paths_congr (ordered : Bool) (steps : List Step) (doc : Document) :
    e.paths ordered steps doc = f.paths ordered steps doc := by
  have hends (step : Step) (doc : Document) : e.ends ordered step doc = f.ends ordered step doc := by
    have hend : e.isEnd step = f.isEnd step := by
      funext d
      rw [isEnd_eq, isEnd_eq, hvisible]
    rw [ends, ends, edgesFrom, edgesFrom, hend, hdata]
  induction steps generalizing doc with
  | nil => rfl
  | cons step rest ih =>
    rw [paths, paths, hends]
    simp only [ih]

/-- The values of a property depend further on which fields are admitted below it. -/
theorem pathValues_congr {p : Property}
    (hadmits : ∀ q ∈ Property.subtrees p.children, e.admits q = f.admits q)
    (hfields : ∀ doc, e.pathFields doc p.children = f.pathFields doc p.children) (doc : Document) :
    e.pathValues doc p = f.pathValues doc p := by
  have hassemble (doc : Document) : e.assemble (f.pathFields doc p.children) =
      f.assemble (f.pathFields doc p.children) := by
    refine assemble_congr fun field hfield => hadmits field.1 ?_
    have hlevel := List.mem_map_of_mem (f := Prod.fst) hfield
    rw [map_fst_pathFields] at hlevel
    exact (Property.of_mem_level hlevel).2 field.1.mem_subtree_self
  unfold pathValues
  rw [paths_congr hdata hvisible]
  refine List.flatMap_congr fun path _ => ?_
  dsimp only
  rw [hfields, endValues, endValues, hassemble]

/-- Fields are read alike under plans that admit the same below. -/
theorem pathFields_congr {ps : List Property}
    (hadmits : ∀ q ∈ Property.subtrees ps, e.admits q = f.admits q) (doc : Document) :
    e.pathFields doc ps = f.pathFields doc ps := by
  induction ps using Property.forest_induction generalizing doc with
  | nil => rw [pathFields_nil, pathFields_nil]
  | cons p rest ihchildren ihrest =>
    rw [Property.subtrees_cons] at hadmits
    have hchildren : ∀ q ∈ Property.subtrees p.children, e.admits q = f.admits q :=
      fun q hq => hadmits q (by simp [hq])
    have hrest : ∀ q ∈ Property.subtrees rest, e.admits q = f.admits q :=
      fun q hq => hadmits q (by simp [hq])
    rw [pathFields_cons, pathFields_cons, ihchildren hchildren, ihrest hrest,
      pathValues_congr hdata hvisible hchildren (ihchildren hchildren)]

/-- Demands on the fields of a level change none of their values. -/
theorem pathFields_relaxAll {ps : List Property}
    (hadmits : ∀ p ∈ Property.level ps, ∀ q ∈ Property.subtrees p.children,
      e.admits q = f.admits q) (doc : Document) :
    e.pathFields doc (Property.relaxAll ps) =
      (f.pathFields doc ps).map fun field => (field.1.lenient, field.2) := by
  induction ps using Property.forest_induction with
  | nil => rw [Property.relaxAll, pathFields_nil, pathFields_nil, List.map_nil]
  | cons p rest ihchildren ihrest =>
    rw [Property.level_cons, List.forall_mem_append] at hadmits
    rw [Property.relaxAll, pathFields_cons, pathFields_cons, List.map_append,
      ihrest hadmits.2, Property.isMerge_relax, Property.relax_eq]
    cases hmerge : p.isMerge with
    | true =>
      rw [hmerge, if_pos rfl] at hadmits
      rw [if_pos rfl, if_pos rfl, if_pos rfl, ihchildren hadmits.1]
    | false =>
      rw [hmerge, if_neg Bool.false_ne_true, List.forall_mem_singleton] at hadmits
      have hvalues : e.pathValues doc p.lenient = f.pathValues doc p :=
        pathValues_congr hdata hvisible hadmits.1
          (pathFields_congr hdata hvisible hadmits.1) doc
      have hdirect : p.lenient.isDirect = p.isDirect := rfl
      rw [if_neg Bool.false_ne_true, if_neg Bool.false_ne_true, if_neg Bool.false_ne_true, hvalues,
        hdirect]
      cases p.isDirect <;> rfl

end

end Evaluator

/-! ## Rows -/

theorem Plan.conditions_relaxed (plan : Plan) :
    plan.relaxed.conditions.Sublist plan.conditions :=
  (List.filter_sublist.map Prod.snd).append (.refl _)

/-- The relaxed plan has no conditions at the level of the root. -/
theorem Plan.condition?_relaxed (plan : Plan) (p : Property) : plan.relaxed.condition? p =
    if p.index ∉ (Property.level plan.spec.properties).map Property.index then plan.condition? p
    else none := by
  have hlookup := lookup_filter (fun i =>
    decide (i ∉ (Property.level plan.spec.properties).map Property.index)) plan.propertyFilters
    p.index
  simp only [decide_eq_true_eq] at hlookup
  exact hlookup

namespace Evaluator

section

variable {spec : Specification} (hnodup : (spec.allProperties.map Property.index).Nodup)
  {r : Request} {patterns patterns' : Dictionary Pattern}
  (hpatterns : (Plan.build spec r).patterns = .ok patterns)

include hnodup hpatterns

theorem accepts_iff_holds {c : Condition} (hc : c ∈ (Plan.build spec r).conditions) (v : Value) :
    c.accepts patterns v = true ↔ c.Holds v :=
  Condition.accepts_iff (Plan.isActive_of_mem_conditions hc)
    (fun _ htext => Plan.get?_patterns hnodup hpatterns hc htext) v

variable (hpatterns' : (Plan.build spec r).relaxed.patterns = .ok patterns') (data : StageData)

include hpatterns'

theorem accepts_relaxed {c : Condition} (hc : c ∈ (Plan.build spec r).relaxed.conditions) :
    c.accepts patterns' = c.accepts patterns := by
  have hsub := (Plan.build spec r).conditions_relaxed
  have hnames := (Plan.nodup_bindNames hnodup r).sublist (hsub.map Condition.bindName)
  have hmem := hsub.subset hc
  funext v
  rw [Bool.eq_iff_iff, accepts_iff_holds hnodup hpatterns hmem]
  exact Condition.accepts_iff (Plan.isActive_of_mem_conditions hmem)
    (fun text htext => (Plan.get?_foldlM_addPattern hnames hpatterns').1 c hc text htext) v

/-- The root is admitted alike. -/
theorem admitsRoot_relaxed : admitsRoot ⟨data, (Plan.build spec r).relaxed, patterns'⟩ =
    admitsRoot ⟨data, Plan.build spec r, patterns⟩ := by
  have hfilter : (Plan.build spec r).relaxed.documentFilter =
      (Plan.build spec r).documentFilter := rfl
  have hvisible : (Plan.build spec r).relaxed.visible = (Plan.build spec r).visible := rfl
  funext doc
  unfold admitsRoot
  dsimp only
  rw [hfilter, hvisible]
  cases hc : (Plan.build spec r).documentFilter with
  | none => rfl
  | some c =>
    have hmem : c ∈ (Plan.build spec r).relaxed.conditions :=
      List.mem_append_right _ (Option.mem_toList.mpr hc)
    rw [Option.all_some, Option.all_some, accepts_relaxed hnodup hpatterns hpatterns' hmem]

/-- Demands below the first level stay. -/
theorem admits_relaxed {q : Property}
    (hq : q.index ∉ (Property.level spec.properties).map Property.index) :
    admits ⟨data, (Plan.build spec r).relaxed, patterns'⟩ q =
      admits ⟨data, Plan.build spec r, patterns⟩ q := by
  have hcondition : (Plan.build spec r).relaxed.condition? q = (Plan.build spec r).condition? q :=
    (Plan.condition?_relaxed _ q).trans (if_pos hq)
  funext v
  unfold admits
  dsimp only
  rw [← hcondition]
  cases hc : (Plan.build spec r).relaxed.condition? q with
  | none => rfl
  | some c =>
    rw [Option.all_some, Option.all_some,
      accepts_relaxed hnodup hpatterns hpatterns' (Plan.mem_conditions hc)]

end

/-- Nothing is asked of the properties of the first level. -/
theorem admits_lenient (data : StageData) (plan : Plan) (patterns : Dictionary Pattern)
    {p : Property} (hp : p ∈ Property.level plan.spec.properties) (v : Value) :
    admits ⟨data, plan.relaxed, patterns⟩ p.lenient v = true := by
  have hcondition : plan.relaxed.condition? p.lenient = none :=
    (plan.condition?_relaxed p).trans (if_neg (not_not_intro (List.mem_map_of_mem hp)))
  unfold admits
  dsimp only
  rw [hcondition]
  rfl

/-- Rows are sorted as before. -/
theorem sortKeys_relaxed (plan : Plan) : sortKeys plan.relaxed = sortKeys plan := by
  unfold sortKeys Plan.relaxed
  rw [Property.level_relaxAll, List.filter_map, List.map_map]
  rfl

/-- Whether a row fulfils what is asked of the fields of the first level. -/
def keeps (e : Evaluator) (row : Row) : Bool :=
  (Property.level e.plan.spec.properties).all fun p => e.admits p (row.value p.key)

/-- The row that is made of fields with distinct keys holds their values. -/
theorem keeps_ofEntries (e : Evaluator) (doc : Document)
    (hkeys : (Property.levelKeys e.plan.spec.properties).Nodup) :
    let fields := e.fieldValues doc e.plan.spec.properties
    e.keeps (Dictionary.ofEntries (fields.map fun field => (field.1.key, field.2))) =
      fields.all fun field => e.admits field.1 field.2 := by
  intro fields
  have hentries : ((fields.map fun field => (field.1.key, field.2)).map Prod.fst).Nodup := by
    rwa [keys_fieldValues]
  have hvalue : ∀ p ∈ Property.level e.plan.spec.properties,
      Row.value (Dictionary.ofEntries (fields.map fun field => (field.1.key, field.2))) p.key =
        (propertyValue e doc p).value := by
    intro p hp
    have hmem : (p.key, (propertyValue e doc p).value) ∈
        fields.map fun field => (field.1.key, field.2) :=
      List.mem_map.mpr ⟨_, List.mem_map.mpr ⟨p, hp, rfl⟩, rfl⟩
    rw [Row.value, Dictionary.get?_ofEntries_of_mem hentries hmem, Option.getD_some]
  have hfields : (fields.all fun field => e.admits field.1 field.2) = true ↔
      ∀ p ∈ Property.level e.plan.spec.properties,
        e.admits p (propertyValue e doc p).value = true := by
    rw [List.all_eq_true]
    exact List.forall_mem_map
  rw [Bool.eq_iff_iff, hfields, keeps, List.all_eq_true]
  exact forall₂_congr fun p hp => by rw [hvalue p hp]

section

variable {q : Query} {spec : Specification} (h : q.interpret = .ok spec) {r : Request}
  {patterns patterns' : Dictionary Pattern}
  (hpatterns : (Plan.build spec r).patterns = .ok patterns)
  (hpatterns' : (Plan.build spec r).relaxed.patterns = .ok patterns') (data : StageData)

include h hpatterns hpatterns'

/-- The object of a document is that of which nothing is asked, if this one fulfils what is asked. -/
theorem assemble_eq_filter (doc : Document) :
    let e : Evaluator := ⟨data, Plan.build spec r, patterns⟩
    let e' : Evaluator := ⟨data, (Plan.build spec r).relaxed, patterns'⟩
    e.assemble (e.fieldValues doc spec.properties) =
      (e'.assemble (e'.fieldValues doc (Property.relaxAll spec.properties))).filter e.keeps := by
  intro e e'
  have hnodup := Query.nodup_index h
  have hfields : e'.fieldValues doc (Property.relaxAll spec.properties) =
      (e.fieldValues doc spec.properties).map fun field => (field.1.lenient, field.2) := by
    rw [fieldValues_eq_pathFields, fieldValues_eq_pathFields]
    have hadmits : ∀ p ∈ Property.level spec.properties, ∀ q ∈ Property.subtrees p.children,
        e'.narrowed.admits q = e.narrowed.admits q := fun p hp q hq =>
      admits_relaxed hnodup hpatterns hpatterns' data (Property.index_below_level hnodup hp hq)
    have hdata : e'.narrowed.data = e.narrowed.data := rfl
    exact pathFields_relaxAll hdata rfl hadmits doc
  have hlevel : ∀ field ∈ e.fieldValues doc spec.properties,
      field.1 ∈ Property.level spec.properties := by
    rw [fieldValues, List.forall_mem_map]
    exact fun p hp => hp
  have hadmitted : (e'.fieldValues doc (Property.relaxAll spec.properties)).all
      (fun field => e'.admits field.1 field.2) = true := by
    rw [hfields, List.all_map, List.all_eq_true]
    exact fun field hfield =>
      admits_lenient data (Plan.build spec r) patterns' (hlevel field hfield) _
  have hkeeps : e.keeps (Dictionary.ofEntries
      ((e.fieldValues doc spec.properties).map fun field => (field.1.key, field.2))) =
      (e.fieldValues doc spec.properties).all fun field => e.admits field.1 field.2 :=
    e.keeps_ofEntries doc (Query.keys_of_level h .first).1
  rw [assemble, assemble, if_pos hadmitted, Option.filter_some, hfields, List.map_map]
  change _ = if e.keeps (Dictionary.ofEntries
    ((e.fieldValues doc spec.properties).map fun field => (field.1.key, field.2))) then _ else _
  rw [hkeeps]
  rfl

/-- The rows are selected before they are sorted, and could as well be selected after it. -/
theorem rows_eq_filter :
    let e : Evaluator := ⟨data, Plan.build spec r, patterns⟩
    let e' : Evaluator := ⟨data, (Plan.build spec r).relaxed, patterns'⟩
    e.rows.value = e'.rows.value.filter e.keeps := by
  intro e e'
  have hsort : sortKeys e'.plan = sortKeys e.plan := sortKeys_relaxed (Plan.build spec r)
  have hroots : (candidates e'.data e'.plan.root).filter e'.admitsRoot =
      (candidates e.data e.plan.root).filter e.admitsRoot := by
    unfold e e'
    rw [admitsRoot_relaxed (Query.nodup_index h) hpatterns hpatterns' data]
    rfl
  rw [value_rows, value_rows, filter_sortBy, hsort, value_unsortedRows, value_unsortedRows, hroots,
    List.filter_filterMap]
  simp only [value_objectFields]
  congr 1
  exact List.filterMap_congr fun doc _ => assemble_eq_filter h hpatterns hpatterns' data doc

end

end Evaluator

/-- Whether the fields of a row are what is asked of a level: the required ones are not empty, and
all filters with an operand in force hold of theirs. -/
def Json.Row.Fulfils (row : Row) (values : Dictionary String) (ps : List Property) : Prop :=
  ∀ p ∈ Property.level ps,
    (p.required = true → ¬ (row.value p.key).IsEmpty) ∧
      ∀ c, Plan.propertyCondition? values p = some c → c.Holds (row.value p.key)

/-- A row is kept exactly when it fulfils its conditions. -/
theorem Evaluator.keeps_iff_fulfils {spec : Specification}
    (hnodup : (spec.allProperties.map Property.index).Nodup) {r : Request}
    {patterns : Dictionary Pattern} (hpatterns : (Plan.build spec r).patterns = .ok patterns)
    (data : StageData) (row : Row) :
    keeps ⟨data, Plan.build spec r, patterns⟩ row = true ↔
      row.Fulfils r.filterValues spec.properties := by
  rw [keeps, List.all_eq_true]
  refine forall₂_congr fun p hp => ?_
  have hcondition := Plan.condition?_build hnodup r
    ((Property.of_mem_level hp).2 p.mem_subtree_self)
  unfold admits
  dsimp only
  rw [hcondition, Bool.and_eq_true, Bool.not_eq_true', Option.all_eq_true]
  refine and_congr ?_ (forall₂_congr fun c hc => ?_)
  · rw [← Value.isEmptyValue_iff]
    cases p.required <;> simp
  · exact accepts_iff_holds hnodup hpatterns (Plan.mem_conditions (hcondition.trans hc)) _

/-- Required fields and filters of the first level select rows: the rows of a plan are those of the
plan that asks nothing of the first level which fulfil what is asked, in the same order. -/
theorem Plan.evaluate_eq_filter {q : Query} {spec : Specification} (h : q.interpret = .ok spec)
    (r : Request) (hreadable : ∀ c ∈ (build spec r).conditions, c.IsReadable) (data : StageData) :
    ∃ (rows : List Row) (keeps : Row → Bool),
      evaluate data (build spec r).relaxed none = .ok rows ∧
      evaluate data (build spec r) none = .ok (rows.filter keeps) ∧
      ∀ row, keeps row = true ↔ row.Fulfils r.filterValues spec.properties := by
  have hreadable' : ∀ c ∈ (build spec r).relaxed.conditions, c.IsReadable :=
    fun c hc => hreadable c ((build spec r).conditions_relaxed.subset hc)
  obtain ⟨patterns, hpatterns⟩ := (exists_patterns_iff _).mpr hreadable
  obtain ⟨patterns', hpatterns'⟩ := (exists_patterns_iff _).mpr hreadable'
  refine ⟨(Evaluator.rows ⟨data, (build spec r).relaxed, patterns'⟩).value,
    Evaluator.keeps ⟨data, build spec r, patterns⟩, ?_, ?_,
    Evaluator.keeps_iff_fulfils (Query.nodup_index h) hpatterns data⟩
  · rw [evaluate_eq, hpatterns']
    rfl
  · rw [evaluate_eq, hpatterns, ← Evaluator.rows_eq_filter h hpatterns hpatterns' data]
    rfl

namespace Library

/-- Papers by their names, which they must have. A node without path holds what they cite: some name
there must begin with a word. -/
def arboreal : Query where
  header := some ⟨some (.bare "Paper"), none, none, none⟩
  structured :=
    let name : Item := ⟨.bare "name", some (.one (.bare "name")), none, true, true, false, none,
      false, none, none⟩
    let cited : Item := ⟨.bare "cited", some (.many [.bare "cites", .bare "name"]), none, false,
      false, false, none, false, some ⟨.regex, none, some "^On"⟩, none⟩
    some (.many [name, ⟨.bare "links", none, some (.one cited), false, false, false, none, false,
      none, none⟩])

def arborealFields : Specification :=
  let name : Property := ⟨"name", [⟨"name", false, []⟩], [], true, true, false, false, none, none,
    none, 0⟩
  let cited : Property := ⟨"cited", [⟨"cites", false, []⟩, ⟨"name", false, []⟩], [], false, false,
    false, false, none, some ⟨.regex, none, some "^On"⟩, none, 2⟩
  ⟨[name, ⟨"links", [], [cited], false, false, false, false, none, none, none, 1⟩], none, "Paper",
    none⟩

/-- Two papers with names cite a third one, as does one without a name. -/
def grove : StageData where
  documents := [⟨⟨1⟩, "library", ["Paper"], none, [("name", .string "Woods")]⟩,
    ⟨⟨2⟩, "library", ["Paper"], none, []⟩,
    ⟨⟨3⟩, "library", ["Paper"], none, [("name", .string "Forests")]⟩,
    ⟨⟨4⟩, "library", ["Paper"], none, [("name", .string "On Trees")]⟩]
  edges := [⟨⟨1⟩, ⟨4⟩, "cites", 0⟩, ⟨⟨2⟩, ⟨4⟩, "cites", 0⟩, ⟨⟨3⟩, ⟨4⟩, "cites", 0⟩]

end Library

open Library in
/-- Of four papers, two fulfil what is asked. -/
theorem Plan.evaluate_eq_filter_grove :
    let r := Request.ofStage .inProgress
    let plan := build arborealFields r
    arboreal.interpret = .ok arborealFields ∧ (∀ c ∈ plan.conditions, c.IsReadable) ∧
      (plan.conditions.map Condition.op = [.regex] ∧
        (evaluate grove plan.relaxed none).toOption.map List.length = some 4 ∧
        (evaluate grove plan none).toOption.map List.length = some 2) ∧
      ∃ (rows : List Row) (keeps : Row → Bool),
        evaluate grove plan.relaxed none = .ok rows ∧
        evaluate grove plan none = .ok (rows.filter keeps) ∧
        ∀ row, keeps row = true ↔ row.Fulfils r.filterValues arborealFields.properties := by
  intro r plan
  have hspec : arboreal.interpret = .ok arborealFields := rfl
  have hreadable : ∀ c ∈ plan.conditions, c.IsReadable := by decide +kernel
  refine ⟨hspec, hreadable, ?_, evaluate_eq_filter hspec r hreadable grove⟩
  rw [evaluate_eq_enumeration, evaluate_eq_enumeration]
  decide +kernel

end GraphQuery
