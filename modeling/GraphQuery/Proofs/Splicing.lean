import GraphQuery.Proofs.Agreement
import GraphQuery.Proofs.Metering
import GraphQuery.Proofs.Naming
import GraphQuery.Proofs.Objects

/-!
# GraphQuery.Proofs.Splicing — merge nodes stand for their children

1. **Splicing** puts the children of merge nodes in their places, on every level.
2. **Plans** for spliced properties follow the same edges, and have the conditions of the
   properties that are left.
3. **Values** of spliced properties are the same, where groups look at the same keys.
4. **Rows** are the same, so are failures.
-/

namespace GraphQuery

open Json

/-! ## Splicing -/

namespace Property

mutual

/-- The properties that stand for a property once no merge nodes are left. -/
def splice : Property → List Property
  | p@⟨_, path, children, _, _, _, _, _, _, _, _⟩ =>
    if path.isEmpty && !children.isEmpty then spliceAll children
    else [{ p with children := spliceAll children }]

/-- Puts the children of merge nodes in their places. They keep all that they have. -/
def spliceAll : List Property → List Property
  | [] => []
  | p :: rest => splice p ++ spliceAll rest

end

/-- A property with merge nodes below it replaced. -/
def spliced (p : Property) : Property := { p with children := spliceAll p.children }

@[simp]
theorem spliceAll_nil : spliceAll [] = [] := by rw [spliceAll]

/-- A merge node gives way to its children, spliced. -/
theorem spliceAll_cons (p : Property) (rest : List Property) : spliceAll (p :: rest) =
    (if p.isMerge then spliceAll p.children else [p.spliced]) ++ spliceAll rest := by
  cases p
  rw [spliceAll, splice]
  rfl

/-- The spliced children are the level, spliced. -/
theorem spliceAll_eq (ps : List Property) : spliceAll ps = (level ps).map spliced := by
  induction ps using forest_induction with
  | nil => simp
  | cons p rest ihchildren ihrest =>
    rw [spliceAll_cons, level_cons, ihchildren, ihrest, List.map_append]
    split <;> rfl

/-- Splicing leaves no level empty that was not. -/
theorem isEmpty_spliceAll (ps : List Property) : (spliceAll ps).isEmpty = ps.isEmpty := by
  induction ps using forest_induction with
  | nil => simp
  | cons p rest ihchildren ihrest =>
    rw [spliceAll_cons]
    split
    · -- a merge node has children
      rename_i hmerge
      have hchildren : p.children.isEmpty = false := by
        simp only [isMerge, isLeaf, Bool.and_eq_true, Bool.not_eq_true'] at hmerge
        exact hmerge.2
      rw [hchildren, List.isEmpty_eq_false_iff] at ihchildren
      rw [List.isEmpty_cons, List.isEmpty_eq_false_iff]
      exact List.append_ne_nil_of_left_ne_nil ihchildren _
    · rfl

section

variable (p : Property)

@[simp]
theorem isLeaf_spliced : p.spliced.isLeaf = p.isLeaf := isEmpty_spliceAll p.children

@[simp]
theorem isDirect_spliced : p.spliced.isDirect = p.isDirect := by
  simp only [isDirect, isLeaf_spliced]
  rfl

@[simp]
theorem isMerge_spliced : p.spliced.isMerge = p.isMerge := by
  simp only [isMerge, isLeaf_spliced]
  rfl

@[simp]
theorem leafStep?_spliced : p.spliced.leafStep? = p.leafStep? := by
  simp only [leafStep?, isLeaf_spliced]
  rfl

@[simp]
theorem edgeSteps_spliced : p.spliced.edgeSteps = p.edgeSteps := by
  simp only [edgeSteps, isLeaf_spliced]
  rfl

@[simp]
theorem key_spliced : p.spliced.key = p.key := rfl

end

/-- No merge node is left. -/
theorem level_spliceAll (ps : List Property) : level (spliceAll ps) = spliceAll ps := by
  refine level_eq_self fun q hq => ?_
  rw [spliceAll_eq] at hq
  obtain ⟨p, hp, rfl⟩ := List.mem_map.mp hq
  rw [isMerge_spliced, (of_mem_level hp).1]

/-- What is left of a tree are the properties that are no merge nodes. -/
theorem subtrees_spliceAll (ps : List Property) :
    subtrees (spliceAll ps) = ((subtrees ps).filter fun p => !p.isMerge).map spliced := by
  induction ps using forest_induction with
  | nil => simp [subtrees]
  | cons p rest ihchildren ihrest =>
    rw [spliceAll_cons, subtrees_append, ihrest, subtrees_cons, List.filter_cons, List.filter_append]
    cases hmerge : p.isMerge with
    | true => simp [ihchildren]
    | false =>
      have hchildren : p.spliced.children = spliceAll p.children := rfl
      rw [if_neg Bool.false_ne_true, subtrees_cons, hchildren, ihchildren]
      simp [subtrees]

/-- Whether groups look at the same keys once merge nodes are replaced. -/
structure GroupsAlike (p : Property) : Prop where
  keys : (p.spliced.children.filter groupBy).map key = (p.children.filter groupBy).map key
  groupOrder : p.spliced.groupSortKeys.map key = p.groupSortKeys.map key
  memberOrder : p.spliced.memberSortKeys.map key = p.memberSortKeys.map key

instance (p : Property) : Decidable p.GroupsAlike :=
  decidable_of_iff (((p.spliced.children.filter groupBy).map key =
      (p.children.filter groupBy).map key) ∧
    p.spliced.groupSortKeys.map key = p.groupSortKeys.map key ∧
    p.spliced.memberSortKeys.map key = p.memberSortKeys.map key)
    ⟨fun h => ⟨h.1, h.2.1, h.2.2⟩, fun h => ⟨h.keys, h.groupOrder, h.memberOrder⟩⟩

/-- Where groups are alike, splicing changes nothing about whether there are any. -/
theorem GroupsAlike.hasGrouping {p : Property} (h : p.GroupsAlike) :
    p.spliced.hasGrouping = p.hasGrouping := by
  -- a key to group by is there or not
  have hany (cs : List Property) : cs.any groupBy = !((cs.filter groupBy).map key).isEmpty := by
    rw [List.isEmpty_map]
    induction cs with
    | nil => rfl
    | cons c rest ih =>
      rw [List.any_cons, List.filter_cons, ih]
      cases c.groupBy <;> rfl
  rw [Property.hasGrouping, Property.hasGrouping, hany, hany, h.keys]
  rfl

/-- Nor does it change the groups. -/
theorem GroupsAlike.group {p : Property} (h : p.GroupsAlike) (values : List Value) :
    group p.spliced values = GraphQuery.group p values := by
  unfold GraphQuery.group Group.objects
  rw [h.keys, h.groupOrder, h.memberOrder]
  rfl

/-- A property that has no name for the members of its groups has no groups. -/
theorem arrange_spliced {p : Property}
    (h : (p.groupedInstances.any fun name => !name.isEmpty) = true → p.GroupsAlike)
    (values : List Value) : arrange p.spliced values = arrange p values := by
  have hsettle : settle p.spliced values = settle p values := rfl
  unfold arrange
  rw [hsettle]
  by_cases hname : (p.groupedInstances.any fun name => !name.isEmpty) = true
  · rw [(h hname).hasGrouping]
    dsimp only
    rw [(h hname).group]
  · have hnone : p.hasGrouping = false ∧ p.spliced.hasGrouping = false := by
      have hspliced : p.spliced.groupedInstances = p.groupedInstances := rfl
      rw [Bool.not_eq_true] at hname
      simp only [Property.hasGrouping, hspliced, hname, Bool.false_and, and_self]
    rw [hnone.1, hnone.2]
    rfl

end Property

/-- A specification without merge nodes. -/
def Specification.spliced (s : Specification) : Specification :=
  { s with properties := Property.spliceAll s.properties }

namespace Specification

variable (s : Specification)

/-- The properties that are left are those that are no merge nodes. -/
theorem allProperties_spliced : s.spliced.allProperties =
    (s.allProperties.filter fun p => !p.isMerge).map Property.spliced :=
  Property.subtrees_spliceAll s.properties

/-- No edges are lost. -/
theorem relations_spliced : s.spliced.relations = s.relations := by
  unfold relations
  rw [allProperties_spliced]
  -- merge nodes follow no edges
  induction s.allProperties with
  | nil => rfl
  | cons p rest ih =>
    rw [List.filter_cons, List.flatMap_cons, ← ih]
    cases hmerge : p.isMerge with
    | false => simp
    | true =>
      simp only [Property.isMerge, Bool.and_eq_true, Bool.not_eq_true', List.isEmpty_iff] at hmerge
      simp [Property.edgeSteps, hmerge.1, hmerge.2]

/-- Splicing repeats no number. -/
theorem nodup_index_spliced {s : Specification} (h : (s.allProperties.map Property.index).Nodup) :
    (s.spliced.allProperties.map Property.index).Nodup := by
  have hindex : Property.index ∘ Property.spliced = Property.index := rfl
  rw [allProperties_spliced, List.map_map, hindex]
  exact h.sublist (List.filter_sublist.map _)

end Specification

/-! ## Plans -/

namespace Plan

/-- The conditions that are left are those of the properties that are left. -/
theorem conditions_spliced (spec : Specification) (r : Request) :
    (build spec.spliced r).conditions = (spec.allProperties.filter fun p =>
      !p.isMerge).filterMap (propertyCondition? r.filterValues) ++
        (build spec r).documentFilter.toList := by
  have hcondition (p : Property) :
      propertyCondition? r.filterValues p.spliced = propertyCondition? r.filterValues p := rfl
  unfold conditions build
  dsimp only
  rw [Specification.allProperties_spliced, List.filterMap_map, List.map_filterMap]
  congr 1
  refine List.filterMap_congr fun p _ => ?_
  cases h : propertyCondition? r.filterValues p <;> simp [hcondition, h]

/-- The conditions of a plan: those of its properties, then the one on documents. -/
theorem conditions_build (spec : Specification) (r : Request) :
    (build spec r).conditions = spec.allProperties.filterMap (propertyCondition? r.filterValues) ++
      (build spec r).documentFilter.toList := by
  unfold conditions build
  dsimp only
  rw [List.map_filterMap]
  congr 1
  refine List.filterMap_congr fun p _ => ?_
  cases h : propertyCondition? r.filterValues p <;> simp

/-- Whether a condition is readable, or how it is not. -/
def checkPattern (c : Condition) : Except Error Unit := (addPattern [] c).map fun _ => ()

/-- Reading the patterns of some conditions fails as the first check that does. -/
theorem map_foldlM_addPattern (cs : List Condition) (patterns : Dictionary Pattern) :
    (cs.foldlM addPattern patterns).map (fun _ => ()) = forM cs checkPattern := by
  induction cs generalizing patterns with
  | nil => rfl
  | cons c rest ih =>
    rw [List.foldlM_cons, List.forM_cons]
    have hcheck : checkPattern c = (addPattern patterns c).map fun _ => () := by
      unfold checkPattern addPattern
      split
      · rfl
      · split <;> rfl
    rw [hcheck]
    cases addPattern patterns c with
    | error e => rfl
    | ok next => exact ih next

/-- A condition that can be read passes the check of patterns. -/
theorem checkPattern_of_isReadable {c : Condition} (h : c.IsReadable) : checkPattern c = .ok () := by
  obtain ⟨next, hnext⟩ := (exists_addPattern_iff [] c).mpr h
  rw [checkPattern, hnext]
  rfl

/-- A specification without merge nodes has the patterns that it had if merge nodes have no
conditions that cannot be read. -/
theorem map_patterns_spliced {spec : Specification} {r : Request}
    (hmerge : ∀ p ∈ spec.allProperties, p.isMerge = true →
      ∀ c, propertyCondition? r.filterValues p = some c → c.IsReadable) :
    (build spec.spliced r).patterns.map (fun _ => ()) =
      (build spec r).patterns.map fun _ => () := by
  unfold patterns
  rw [map_foldlM_addPattern, map_foldlM_addPattern, conditions_spliced, conditions_build,
    List.forM_append, List.forM_append]
  congr 1
  generalize spec.allProperties = ps at hmerge
  induction ps with
  | nil => rfl
  | cons p rest ih =>
    rw [List.forall_mem_cons] at hmerge
    have hrest := ih hmerge.2
    cases hp : p.isMerge with
    | true =>
      rw [List.filter_cons_of_neg (by simp [hp]), hrest, List.filterMap_cons]
      cases hcondition : propertyCondition? r.filterValues p with
      | none => rfl
      | some c =>
        dsimp only
        rw [List.forM_cons, checkPattern_of_isReadable (hmerge.1 hp c hcondition)]
        rfl
    | false =>
      rw [List.filter_cons_of_pos (by simp [hp]), List.filterMap_cons, List.filterMap_cons]
      cases hcondition : propertyCondition? r.filterValues p with
      | none => exact hrest
      | some c =>
        dsimp only
        rw [List.forM_cons, List.forM_cons, hrest]

end Plan

/-! ## Values -/

namespace Plan

theorem missingEdges_spliced (spec : Specification) (r : Request) :
    (build spec.spliced r).missingEdges = (build spec r).missingEdges := by
  unfold build
  dsimp only
  rw [Specification.relations_spliced]

/-- Paths are followed alike. -/
theorem follow_spliced (data : StageData) (spec : Specification) (r : Request) (ordered : Bool)
    (steps : List Step) (start : List Document) :
    follow data (build spec.spliced r) ordered steps start =
      follow data (build spec r) ordered steps start := by
  have hneighbors : neighbors data (build spec.spliced r) = neighbors data (build spec r) := by
    funext step ordered doc
    unfold neighbors edgeExists
    rw [missingEdges_spliced]
    rfl
  unfold follow
  rw [hneighbors]

/-- A property that is no merge node keeps its condition. -/
theorem condition?_spliced {spec : Specification}
    (hnodup : (spec.allProperties.map Property.index).Nodup) (r : Request) {p : Property}
    (hp : p ∈ spec.allProperties) (hmerge : p.isMerge = false) :
    (build spec.spliced r).condition? p.spliced = (build spec r).condition? p := by
  have hspliced : p.spliced ∈ spec.spliced.allProperties := by
    rw [Specification.allProperties_spliced]
    exact List.mem_map_of_mem (List.mem_filter.mpr ⟨hp, by rw [hmerge]; rfl⟩)
  rw [condition?_build (Specification.nodup_index_spliced hnodup) r hspliced,
    condition?_build hnodup r hp]
  rfl

end Plan

/-- Only the pattern of its own regular expression tells what a condition accepts. -/
theorem Condition.accepts_congr {c : Condition} {patterns patterns' : Dictionary Pattern}
    (h : ∀ text, c.patternText? = some text →
      patterns.get? c.bindName = patterns'.get? c.bindName) :
    c.accepts patterns = c.accepts patterns' := by
  have hscalar (operand : String) (hoperand : c.operand = some operand) :
      c.acceptsScalar patterns operand = c.acceptsScalar patterns' operand := by
    funext v
    unfold acceptsScalar
    split
    · rfl
    · split <;> try rfl
      rename_i hop
      rw [h operand (by rw [patternText?, if_pos hop, hoperand])]
  funext v
  unfold accepts
  split
  · rfl
  · cases hoperand : c.operand with
    | none => rfl
    | some operand =>
      dsimp only
      rw [hscalar operand hoperand]

/-- Whether groups look at the same keys everywhere once merge nodes are replaced. Nothing is asked
of properties that have no name for the members of their groups. -/
def Specification.GroupsAlike (s : Specification) : Prop :=
  ∀ p ∈ s.allProperties, p.isMerge = false →
    (p.groupedInstances.any fun name => !name.isEmpty) = true → p.GroupsAlike

instance (s : Specification) : Decidable s.GroupsAlike :=
  inferInstanceAs (Decidable (∀ p ∈ s.allProperties, p.isMerge = false →
    (p.groupedInstances.any fun name => !name.isEmpty) = true → p.GroupsAlike))

namespace Evaluator

section

variable {spec : Specification} (hnodup : (spec.allProperties.map Property.index).Nodup)
  {r : Request} {patterns patterns' : Dictionary Pattern}
  (hpatterns : (Plan.build spec r).patterns = .ok patterns)
  (hpatterns' : (Plan.build spec.spliced r).patterns = .ok patterns')
  (data : StageData)

include hnodup hpatterns hpatterns'

/-- Both evaluators have read the pattern of a condition from the same text. -/
theorem accepts_spliced {c : Condition} (hc : c ∈ (Plan.build spec r).conditions)
    (hc' : c ∈ (Plan.build spec.spliced r).conditions) :
    c.accepts patterns' = c.accepts patterns := by
  refine Condition.accepts_congr fun text htext => ?_
  obtain ⟨pattern, hparse, hget⟩ := Plan.get?_patterns hnodup hpatterns hc htext
  obtain ⟨pattern', hparse', hget'⟩ :=
    Plan.get?_patterns (Specification.nodup_index_spliced hnodup) hpatterns' hc' htext
  rw [hget, hget', ← hparse, ← hparse']

/-- Properties admit the same values after splicing. -/
theorem admits_spliced {p : Property} (hp : p ∈ spec.allProperties) (hmerge : p.isMerge = false)
    (v : Value) : admits ⟨data, Plan.build spec.spliced r, patterns'⟩ p.spliced v =
      admits ⟨data, Plan.build spec r, patterns⟩ p v := by
  have hcondition := Plan.condition?_spliced hnodup r hp hmerge
  unfold admits
  dsimp only
  rw [hcondition]
  congr 1
  cases hc : (Plan.build spec r).condition? p with
  | none => rfl
  | some c =>
    rw [hc] at hcondition
    have haccepts := accepts_spliced hnodup hpatterns hpatterns' (Plan.mem_conditions hc)
      (Plan.mem_conditions hcondition)
    rw [Option.all_some, Option.all_some, haccepts]

/-- So do the roots. -/
theorem admitsRoot_spliced : admitsRoot ⟨data, Plan.build spec.spliced r, patterns'⟩ =
    admitsRoot ⟨data, Plan.build spec r, patterns⟩ := by
  have hfilter : (Plan.build spec.spliced r).documentFilter = (Plan.build spec r).documentFilter :=
    rfl
  funext doc
  unfold admitsRoot
  dsimp only
  rw [hfilter]
  congr 1
  cases hc : (Plan.build spec r).documentFilter with
  | none => rfl
  | some c =>
    have hmem {s : Specification} (h : (Plan.build s r).documentFilter = some c) :
        c ∈ (Plan.build s r).conditions :=
      List.mem_append_right _ (Option.mem_toList.mpr h)
    have haccepts := accepts_spliced hnodup hpatterns hpatterns' (hmem hc) (hmem hc)
    rw [Option.all_some, Option.all_some, haccepts]

variable (hgroups : spec.GroupsAlike)

include hgroups

/-- The fields of a level are those of the spliced level. -/
theorem objectFields_spliced (ps : List Property) (hps : Property.subtrees ps ⊆ spec.allProperties)
    (doc : Document) (row : Row) :
    objectFields ⟨data, Plan.build spec.spliced r, patterns'⟩ doc row (Property.spliceAll ps) =
      objectFields ⟨data, Plan.build spec r, patterns⟩ doc row ps := by
  induction ps using Property.forest_induction generalizing doc row with
  | nil => rw [Property.spliceAll_nil, objectFields_nil, objectFields_nil]
  | cons p rest ihchildren ihrest =>
    rw [Property.subtrees_cons, List.cons_subset, List.append_subset] at hps
    obtain ⟨hp, hchildren, hrest⟩ := hps
    rw [Property.spliceAll_cons]
    cases hmerge : p.isMerge with
    | true =>
      rw [if_pos rfl, objectFields_append, objectFields_merge _ _ hmerge, objectFields_append]
      simp only [ihchildren hchildren, ihrest hrest]
    | false =>
      have hobjects : p.spliced.children = Property.spliceAll p.children := rfl
      have hvalue : propertyValue ⟨data, Plan.build spec.spliced r, patterns'⟩ doc p.spliced =
          propertyValue ⟨data, Plan.build spec r, patterns⟩ doc p := by
        have horder : p.spliced.ensureOrder = p.ensureOrder := rfl
        rw [propertyValue_eq, propertyValue_eq]
        simp only [Property.isDirect_spliced, Property.leafStep?_spliced,
          Property.edgeSteps_spliced, horder, Plan.follow_spliced, hobjects,
          ihchildren hchildren, Property.arrange_spliced (hgroups p hp hmerge)]
        rfl
      have hspliced : p.spliced.isMerge = false := by rw [Property.isMerge_spliced, hmerge]
      rw [if_neg Bool.false_ne_true, List.singleton_append, objectFields_field _ _ hspliced,
        objectFields_field _ _ hmerge, hvalue]
      simp only [admits_spliced hnodup hpatterns hpatterns' data hp hmerge, ihrest hrest,
        Property.key_spliced]

end

end Evaluator

/-! ## Rows -/

/-- The rows of a specification are those of the spliced one. -/
theorem Evaluator.rows_spliced {spec : Specification}
    (hnodup : (spec.allProperties.map Property.index).Nodup) {r : Request}
    {patterns patterns' : Dictionary Pattern}
    (hpatterns : (Plan.build spec r).patterns = .ok patterns)
    (hpatterns' : (Plan.build spec.spliced r).patterns = .ok patterns')
    (data : StageData) (hgroups : spec.GroupsAlike) :
    rows ⟨data, Plan.build spec.spliced r, patterns'⟩ =
      rows ⟨data, Plan.build spec r, patterns⟩ := by
  have hfields (doc : Document) := objectFields_spliced hnodup hpatterns hpatterns' data hgroups
    spec.properties (List.Subset.refl _) doc []
  have hsort : sortKeys (Plan.build spec.spliced r) = sortKeys (Plan.build spec r) := by
    unfold sortKeys Plan.build Specification.spliced
    dsimp only
    rw [Property.level_spliceAll, Property.spliceAll_eq, List.filter_map, List.map_map]
    rfl
  have hunsorted : unsortedRows ⟨data, Plan.build spec.spliced r, patterns'⟩ =
      unsortedRows ⟨data, Plan.build spec r, patterns⟩ := by
    have hproperties : (Plan.build spec.spliced r).spec.properties =
        Property.spliceAll spec.properties := rfl
    rw [unsortedRows_eq, unsortedRows_eq, admitsRoot_spliced hnodup hpatterns hpatterns' data]
    dsimp only
    simp only [hproperties, hfields]
    rfl
  rw [rows_eq, rows_eq, hunsorted, hsort]

/-- Merge nodes may be replaced by their children, where groups look at the same keys after that and
where no merge node has a condition that cannot be read: the same rows come out, at the same cost,
or the same failure. -/
theorem evaluate_spliced {q : Query} {spec : Specification} (h : q.interpret = .ok spec)
    (r : Request) (hgroups : spec.GroupsAlike)
    (hmerge : ∀ p ∈ spec.allProperties, p.isMerge = true →
      ∀ c, Plan.propertyCondition? r.filterValues p = some c → c.IsReadable)
    (data : StageData) (memory : Option Nat) :
    evaluate data (Plan.build spec.spliced r) memory =
      evaluate data (Plan.build spec r) memory := by
  have hnodup := q.nodup_index h
  have hread := Plan.map_patterns_spliced hmerge
  rw [evaluate_eq, evaluate_eq]
  cases hpatterns : (Plan.build spec r).patterns with
  | error e =>
    cases hpatterns' : (Plan.build spec.spliced r).patterns with
    | error e' =>
      rw [hpatterns, hpatterns', Except.map, Except.map, Except.error.injEq] at hread
      simp only [bind, Except.bind, hread]
    | ok patterns' =>
      rw [hpatterns, hpatterns', Except.map, Except.map] at hread
      cases hread
  | ok patterns =>
    cases hpatterns' : (Plan.build spec.spliced r).patterns with
    | error e' =>
      rw [hpatterns, hpatterns', Except.map, Except.map] at hread
      cases hread
    | ok patterns' =>
      have hrows := Evaluator.rows_spliced hnodup hpatterns hpatterns' data hgroups
      dsimp only [bind, Except.bind]
      rw [hrows]

/-- Papers with their authors, who are grouped by their roles. A merge node has their names. -/
def Query.credits : Query where
  header := some ⟨some (.bare "Paper"), none, none, none⟩
  structured :=
    let leaf (name : String) (groupBy : Bool) : Item := ⟨.bare name, some (.one (.bare name)), none,
      false, false, groupBy, none, false, none, none⟩
    let merge : Item := ⟨.bare "details", none, some (.one (leaf "name" false)), false, false,
      false, none, false, none, none⟩
    some (.one ⟨.bare "authors", some (.one (.bare "author")),
      some (.many [leaf "role" true, merge]), false, false, false, some "people", false, none, none⟩)

/-- Credits of a paper, with a merge node among them. -/
def Specification.credits : Specification :=
  let leaf (name : String) (groupBy : Bool) (index : Nat) : Property := ⟨name, [⟨name, false, []⟩],
    [], false, false, groupBy, false, none, none, none, index⟩
  let merge : Property := ⟨"details", [], [leaf "name" false 3], false, false, false, false, none,
    none, none, 2⟩
  ⟨[⟨"authors", [⟨"author", false, []⟩], [leaf "role" true 1, merge], false, false, false, false,
    some "people", none, none, 0⟩], none, "Paper", none⟩

/-- A paper by an editor. -/
def StageData.credits : StageData where
  documents := [⟨⟨1⟩, "shelf", ["Paper"], none, []⟩,
    ⟨⟨2⟩, "shelf", ["Person"], none, [("name", .string "Ada"), ("role", .string "editor")]⟩]
  edges := [⟨⟨1⟩, ⟨2⟩, "author", 0⟩]

theorem evaluate_spliced_credits :
    let r := Request.ofStage .inProgress
    let plan := Plan.build Specification.credits.spliced r
    let texts (answer : Except Error (List Row)) := answer.toOption.map fun rows =>
      rows.map fun row => (Value.object row).compact
    Query.credits.interpret = .ok .credits ∧
      Specification.credits.GroupsAlike ∧
      (Specification.credits.allProperties.map Property.isMerge = [false, false, true, false] ∧
        plan.spec.allProperties.map Property.isMerge = [false, false, false]) ∧
      evaluate .credits plan none = evaluate .credits (Plan.build .credits r) none ∧
      texts (evaluate .credits plan none) = some
        ["\x7b\"authors\":[\x7b\"people\":[\x7b\"name\":\"Ada\"\x7d],\"role\":\"editor\"\x7d]\x7d"] := by
  intro r plan texts
  have hspec : Query.credits.interpret = .ok .credits := rfl
  have hgroups : Specification.credits.GroupsAlike := by decide +kernel
  -- there are no conditions
  have hnone : ∀ p ∈ Specification.credits.allProperties,
      Plan.propertyCondition? r.filterValues p = none := by decide +kernel
  refine ⟨hspec, hgroups, by decide +kernel,
    evaluate_spliced hspec r hgroups (fun p hp _ c hc => ?_) .credits none, by decide +kernel⟩
  rw [hnone p hp] at hc
  cases hc

end GraphQuery
