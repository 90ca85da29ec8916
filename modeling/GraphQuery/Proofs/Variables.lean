import GraphQuery.Proofs.Matches
import GraphQuery.Proofs.Redaction
import GraphQuery.Proofs.Scoping
import GraphQuery.Specification.Interpret
import Mathlib.Data.List.Induction

/-!
# GraphQuery.Proofs.Variables — the variables of AQL statements are distinct

1. **Numbers**: the properties of an interpreted query are numbered in pre-order.
2. **Variables** of a property, by their roles in its traversal.
3. **Names** tell the number of the property and the role.
4. **Variables of a plan**, none of which has the name of another.
-/

namespace GraphQuery

/-! ## Numbers -/

/-- Properties whose trees have the numbers from `next` up to, but not including, `after`. -/
structure Property.Numbered (next after : Nat) (ps : List Property) : Prop where
  le : next ≤ after
  numbers : (Property.subtrees ps).map Property.index = List.range' next (after - next)

namespace Property

theorem subtrees_append (ps qs : List Property) :
    subtrees (ps ++ qs) = subtrees ps ++ subtrees qs := by
  induction ps with
  | nil => rfl
  | cons p rest ih => rw [List.cons_append, subtrees, subtrees, ih, List.append_assoc]

namespace Numbered

theorem nil (next : Nat) : Numbered next next [] := ⟨Nat.le_refl next, by simp [subtrees]⟩

/-- Properties numbered one after the other are numbered together. -/
theorem append {next mid after : Nat} {ps qs : List Property} (hps : Numbered next mid ps)
    (hqs : Numbered mid after qs) : Numbered next after (ps ++ qs) := by
  have hle := hps.le
  have hle' := hqs.le
  refine ⟨Nat.le_trans hle hle', ?_⟩
  have hmid : mid = next + 1 * (mid - next) := by omega
  have hlength : after - next = (mid - next) + (after - mid) := by omega
  rw [subtrees_append, List.map_append, hps.numbers, hqs.numbers, hlength, ← List.range'_append,
    ← hmid]

/-- A property takes its number before those below it. -/
theorem singleton {next after : Nat} {p : Property} (hindex : p.index = next)
    (h : Numbered (next + 1) after p.children) : Numbered next after [p] := by
  have hle := h.le
  have hlength : after - next = after - (next + 1) + 1 := by omega
  refine ⟨by omega, ?_⟩
  rw [subtrees, subtrees, List.append_nil, subtree_eq, List.map_cons, h.numbers, hlength,
    List.range'_succ, hindex]

end Numbered

end Property

namespace Item

mutual

/-- An item that is read numbers its properties in pre-order. -/
theorem numbered_interpret {vocabulary : Option String} {next after : Nat} {p : Property} :
    (i : Item) → interpret vocabulary next i = .ok (p, after) →
      Property.Numbered next after [p]
  | ⟨reference, path, children, required, sort, groupBy, ensureOrder, groupedInstances, filter,
      collapse⟩, h => by
    rw [interpret] at h
    simp only [bind, Except.bind, pure, Except.pure, throw, throwThe, MonadExceptOf.throw] at h
    split at h
    · cases h
    · split at h
      · cases h
      · rename_i result hchildren
        obtain ⟨properties, last⟩ := result
        cases h
        exact .singleton rfl (numbered_interpretChildren children hchildren)

theorem numbered_interpretChildren {vocabulary : Option String} {next after : Nat}
    {ps : List Property} : (children : Option (OneOrMany Item)) →
      interpretChildren vocabulary next children = .ok (ps, after) →
      Property.Numbered next after ps
  | none, h => by
    cases h
    exact .nil next
  | some (.one child), h => by
    rw [interpretChildren] at h
    simp only [bind, Except.bind, pure, Except.pure] at h
    split at h
    · cases h
    · rename_i result hchild
      obtain ⟨p, last⟩ := result
      cases h
      exact numbered_interpret child hchild
  | some (.many children), h => numbered_interpretAll children h

theorem numbered_interpretAll {vocabulary : Option String} {next after : Nat}
    {ps : List Property} : (items : List Item) →
      interpretAll vocabulary next items = .ok (ps, after) →
      Property.Numbered next after ps
  | [], h => by
    cases h
    exact .nil next
  | i :: rest, h => by
    rw [interpretAll] at h
    simp only [bind, Except.bind, pure, Except.pure] at h
    split at h
    · cases h
    · rename_i first hfirst
      obtain ⟨p, mid⟩ := first
      dsimp only at h
      split at h
      · cases h
      · rename_i others hothers
        obtain ⟨qs, last⟩ := others
        cases h
        exact (numbered_interpret i hfirst).append (numbered_interpretAll rest hothers)

end

end Item

/-- What interpretation has read and checked. -/
theorem Query.interpret_eq_ok {q : Query} {spec : Specification} (h : q.interpret = .ok spec) :
    (∃ vocabulary after, Item.interpretChildren vocabulary 0 q.structured =
      .ok (spec.properties, after)) ∧
    ∃ keys, Property.checkLevel [] spec.properties = .ok keys := by
  unfold interpret at h
  simp only [bind, Except.bind, pure, Except.pure] at h
  split at h
  · cases h
  · split at h
    · cases h
    · rename_i result hresult
      obtain ⟨ps, after⟩ := result
      dsimp only at h
      split at h
      · cases h
      · rename_i keys hkeys
        cases h
        exact ⟨⟨_, after, hresult⟩, keys, hkeys⟩

/-- No two properties of an interpreted query have one number. -/
theorem Query.nodup_index {q : Query} {spec : Specification} (h : q.interpret = .ok spec) :
    (spec.allProperties.map Property.index).Nodup := by
  obtain ⟨⟨vocabulary, after, hread⟩, -⟩ := Query.interpret_eq_ok h
  have hnumbers := (Item.numbered_interpretChildren q.structured hread).numbers
  rw [Specification.allProperties, hnumbers]
  exact List.nodup_range'

namespace Aql

/-! ## Variables -/

/-- What a variable of a traversed property stands for. -/
inductive Role
  /-- The list that a hop fills. -/
  | list (hop : Nat)
  | document (hop : Nat)
  | edge (hop : Nat)
  | sorted
  | grouping
  | item
  | member
  | group
  | key (i : Nat)
deriving Repr, DecidableEq

/-- The variable of a property in a role, as the AQL statement spells it. -/
def variableName (p : Property) : Role → String
  | .list hop => stepAlias p hop
  | .document hop => stepAlias p hop ++ "_doc"
  | .edge hop => stepAlias p hop ++ "_edge"
  | .sorted => p.aliasName ++ "_sort"
  | .grouping => p.groupAlias
  | .item => p.aliasName ++ "_g"
  | .member => p.aliasName ++ "_gi"
  | .group => p.aliasName ++ "_group"
  | .key i => p.aliasName ++ "_k" ++ toString i

/-- The roles of the variables that a hop has: an edge has one where its order counts. -/
def hopRoles (plan : Plan) (p : Property) (hop : Nat) (step : Step) : List Role :=
  [.list hop, .document hop] ++ if p.ensureOrder && plan.edgeExists step then [.edge hop] else []

/-- The roles of a property that groups its objects. -/
def groupingRoles (p : Property) : List Role :=
  [.grouping, .item] ++ (List.range (p.children.filter Property.groupBy).length).map .key ++
    [.group, .member]

/-- The roles of the variables that a property has. Only a property that follows edges has any. -/
def roles (plan : Plan) (p : Property) : List Role :=
  if p.edgeSteps.isEmpty then []
  else
    p.edgeSteps.zipIdx.flatMap (fun (step, hop) => hopRoles plan p hop step) ++
      (if p.sort then [.sorted] else []) ++ (if p.hasGrouping then groupingRoles p else [])

/-- The variables of a statement. -/
def variableNames (plan : Plan) : List String :=
  (if plan.access.isSome then ["whitelist", "invitation"] else []) ++ ["root_doc"] ++
    plan.spec.allProperties.flatMap fun p => (roles plan p).map (variableName p)

/-! ## Names -/

def hopParts (hop : Nat) : List String := if hop = 0 then [] else ["s" ++ toString hop]

/-- What a role adds to the alias of a property: some parts, each after an underscore. -/
def Role.parts : Role → List String
  | list hop => hopParts hop
  | document hop => hopParts hop ++ ["doc"]
  | edge hop => hopParts hop ++ ["edge"]
  | sorted => ["sort"]
  | grouping => ["grp"]
  | item => ["g"]
  | member => ["gi"]
  | group => ["group"]
  | key i => ["k" ++ toString i]

/-- The number in a part, after its first letter. -/
def partNumber (part : String) : Nat := Nat.ofDigitChars 10 part.toList.tail 0

/-- The role that adds some parts. -/
def Role.ofParts : List String → Role
  | [] => .list 0
  | [part] =>
    if part = "doc" then .document 0
    else if part = "edge" then .edge 0
    else if part = "sort" then .sorted
    else if part = "grp" then .grouping
    else if part = "g" then .item
    else if part = "gi" then .member
    else if part = "group" then .group
    else if part.toList.head? = some 'k' then .key (partNumber part)
    else .list (partNumber part)
  | part :: last :: _ =>
    if last = "doc" then .document (partNumber part) else .edge (partNumber part)

/-- The parts of a name give back its role. -/
theorem Role.ofParts_parts : (r : Role) → ofParts r.parts = r := by
  -- a part with a number ends in a digit, and the other ones in a letter
  have hne (letter : String) (n : Nat) :
      ∀ t ∈ ["doc", "edge", "sort", "grp", "g", "gi", "group"], letter ++ toString n ≠ t := by
    intro t ht
    refine ((Text.endsIn_toString n).append letter).ne ?_
    revert t
    decide
  have hs (n : Nat) : partNumber ("s" ++ toString n) = n := by simp [partNumber]
  have hk (n : Nat) : partNumber ("k" ++ toString n) = n := by simp [partNumber]
  simp only [List.forall_mem_cons, Nat.toString_eq_repr] at hne hs hk
  intro r
  cases r with
  | list hop => by_cases hhop : hop = 0 <;> simp [parts, hopParts, ofParts, hhop, hne, hs]
  | document hop => by_cases hhop : hop = 0 <;> simp [parts, hopParts, ofParts, hhop, hs]
  | edge hop => by_cases hhop : hop = 0 <;> simp [parts, hopParts, ofParts, hhop, hs]
  | key i => simp [parts, ofParts, hne, hk]
  | _ => simp [parts, ofParts]

/-- A part that a name has after its number. -/
def IsPart (part : String) : Prop :=
  '_' ∉ part.toList ∧ ∃ c ∈ part.toList, c.isDigit = false

theorem IsPart.numbered {letters : String} (h : IsPart letters) (n : Nat) :
    IsPart (letters ++ toString n) := by
  obtain ⟨hmark, c, hc, hdigit⟩ := h
  refine ⟨?_, c, by simp [hc], hdigit⟩
  rw [String.toList_append, List.mem_append]
  rintro (h | h)
  · exact hmark h
  · exact absurd (Text.isDigit_of_mem_toString h) (by decide)

theorem Role.isPart_of_mem_parts (r : Role) : ∀ part ∈ r.parts, IsPart part := by
  have hname : ∀ part ∈ ["s", "k", "doc", "edge", "sort", "grp", "g", "gi", "group"],
      IsPart part := by
    have hall : ["s", "k", "doc", "edge", "sort", "grp", "g", "gi", "group"].all (fun part =>
        !part.toList.contains '_' && part.toList.any fun c => !c.isDigit) = true := by decide
    intro part hpart
    simpa [IsPart] using List.all_eq_true.mp hall part hpart
  have hhop (hop : Nat) : ∀ part ∈ hopParts hop, IsPart part := by
    unfold hopParts
    split
    · simp
    · exact List.forall_mem_singleton.mpr ((hname "s" (by simp)).numbered hop)
  cases r with
  | list hop => exact hhop hop
  | document hop =>
    exact List.forall_mem_append.mpr
      ⟨hhop hop, List.forall_mem_singleton.mpr (hname "doc" (by simp))⟩
  | edge hop =>
    exact List.forall_mem_append.mpr
      ⟨hhop hop, List.forall_mem_singleton.mpr (hname "edge" (by simp))⟩
  | key i => exact List.forall_mem_singleton.mpr ((hname "k" (by simp)).numbered i)
  | _ => exact List.forall_mem_singleton.mpr (hname _ (by simp))

/-- The characters of a name: the alias of the property, and the parts of the role. -/
theorem toList_variableName (p : Property) (r : Role) : (variableName p r).toList =
    (Text.word p.name).toList ++ '_' :: (toString p.index).toList ++
      r.parts.flatMap fun part => '_' :: part.toList := by
  have hlist (hop : Nat) : (stepAlias p hop).toList =
      (Text.word p.name).toList ++ '_' :: (toString p.index).toList ++
        (hopParts hop).flatMap fun part => '_' :: part.toList := by
    unfold stepAlias hopParts
    split <;> simp [Property.aliasName]
  cases r <;> simp [variableName, Role.parts, hlist, Property.groupAlias, Property.aliasName]

/-- What follows the last underscore of a name. -/
theorem last_inj {a b x y : List Char} (hx : '_' ∉ x) (hy : '_' ∉ y)
    (h : a ++ '_' :: x = b ++ '_' :: y) : a = b ∧ x = y := by
  have hreverse : x.reverse ++ '_' :: a.reverse = y.reverse ++ '_' :: b.reverse := by
    simpa using congrArg List.reverse h
  have hother {z : List Char} (hz : '_' ∉ z) : ∀ c ∈ z.reverse, (c != '_') = true := by
    rintro c hc
    have hne : c ≠ '_' := by
      rintro rfl
      exact hz (List.mem_reverse.mp hc)
    simpa using hne
  obtain ⟨hxy, hab⟩ := Text.append_inj_of_ends (hother hx) (hother hy) (by decide) (by decide)
    hreverse
  exact ⟨List.reverse_inj.mp (List.cons.inj hab).2, List.reverse_inj.mp hxy⟩

/-- A name that ends in a number and some parts tells both. -/
theorem parts_inj {a b d e : List Char} {ss ts : List String}
    (hd : ∀ c ∈ d, c.isDigit = true) (he : ∀ c ∈ e, c.isDigit = true)
    (hs : ∀ s ∈ ss, IsPart s) (ht : ∀ t ∈ ts, IsPart t)
    (h : a ++ '_' :: d ++ ss.flatMap (fun part => '_' :: part.toList) =
      b ++ '_' :: e ++ ts.flatMap (fun part => '_' :: part.toList)) : d = e ∧ ss = ts := by
  have hmark {d : List Char} (hd : ∀ c ∈ d, c.isDigit = true) : '_' ∉ d := fun h =>
    absurd (hd _ h) (by decide)
  -- a number is no part
  have hnumber {d : List Char} (hd : ∀ c ∈ d, c.isDigit = true) {t : String} (ht : IsPart t) :
      d ≠ t.toList := by
    rintro rfl
    obtain ⟨-, c, hc, hdigit⟩ := ht
    rw [hd c hc] at hdigit
    cases hdigit
  -- induction on the parts, from the last one backwards
  induction ss using List.reverseRecOn generalizing ts with
  | nil =>
    rcases List.eq_nil_or_concat ts with rfl | ⟨ts, t, rfl⟩
    · obtain ⟨-, hnumbers⟩ := last_inj (hmark hd) (hmark he) (by simpa using h)
      exact ⟨hnumbers, rfl⟩
    · have hlast := ht t (by simp)
      obtain ⟨-, heq⟩ := last_inj (hmark hd) hlast.1 (by simpa [← List.append_assoc] using h)
      exact absurd heq (hnumber hd hlast)
  | append_singleton ss s ih =>
    have hlast := hs s (by simp)
    rcases List.eq_nil_or_concat ts with rfl | ⟨ts, t, rfl⟩
    · obtain ⟨-, heq⟩ := last_inj (hmark he) hlast.1 (by simpa [← List.append_assoc] using h.symm)
      exact absurd heq (hnumber he hlast)
    · have hlast' := ht t (by simp)
      obtain ⟨hfront, heq⟩ := last_inj hlast.1 hlast'.1 (by simpa [← List.append_assoc] using h)
      obtain ⟨hnumbers, rfl⟩ := ih (fun s hs' => hs s (by simp [hs']))
        (fun t ht' => ht t (by simp [ht'])) hfront
      exact ⟨hnumbers, by rw [String.toList_inj.mp heq, List.concat_eq_append]⟩

/-- What follows the name of a property tells its number, and the parts after that. -/
theorem index_parts_inj {p p' : Property} {ss ts : List String} (hs : ∀ s ∈ ss, IsPart s)
    (ht : ∀ t ∈ ts, IsPart t)
    (h : (Text.word p.name).toList ++ '_' :: (toString p.index).toList ++
        ss.flatMap (fun part => '_' :: part.toList) =
      (Text.word p'.name).toList ++ '_' :: (toString p'.index).toList ++
        ts.flatMap (fun part => '_' :: part.toList)) : p.index = p'.index ∧ ss = ts := by
  have hdigits (n : Nat) : ∀ c ∈ (toString n).toList, c.isDigit = true := fun _ hc =>
    Text.isDigit_of_mem_toString hc
  obtain ⟨hnumbers, hparts⟩ := parts_inj (hdigits _) (hdigits _) hs ht h
  have hindex := congrArg (fun ds => Nat.ofDigitChars 10 ds 0) hnumbers
  exact ⟨by simpa using hindex, hparts⟩

/-- A variable tells the number of its property, and its role. -/
theorem variableName_inj {p p' : Property} {r r' : Role}
    (h : variableName p r = variableName p' r') : p.index = p'.index ∧ r = r' := by
  have hchars := congrArg String.toList h
  rw [toList_variableName, toList_variableName] at hchars
  obtain ⟨hindex, hparts⟩ := index_parts_inj r.isPart_of_mem_parts r'.isPart_of_mem_parts hchars
  have hrole := congrArg Role.ofParts hparts
  rw [Role.ofParts_parts, Role.ofParts_parts] at hrole
  exact ⟨hindex, hrole⟩

/-- A name that has a property's number in it has a digit. -/
theorem exists_digit_of_toList {p : Property} {ss : List String} {name : String}
    (h : name.toList = (Text.word p.name).toList ++ '_' :: (toString p.index).toList ++
      ss.flatMap fun part => '_' :: part.toList) : ∃ c ∈ name.toList, c.isDigit = true := by
  obtain ⟨c, hlast, hdigit⟩ := Text.endsIn_toString p.index
  refine ⟨c, ?_, hdigit⟩
  have hmem := List.mem_of_getLast? hlast
  rw [h, List.mem_append, List.mem_append, List.mem_cons]
  exact .inl (.inr (.inr hmem))

/-- Each variable ends in a number. -/
theorem exists_digit_variableName (p : Property) (r : Role) :
    ∃ c ∈ (variableName p r).toList, c.isDigit = true :=
  exists_digit_of_toList (toList_variableName p r)

/-- The names are variables of AQL. -/
theorem isVariable_variableName (p : Property) (r : Role) :
    isVariable (variableName p r) = true := by
  have hmark : '_' ∈ (variableName p r).toList := by
    rw [toList_variableName]
    simp
  have hdigit : (variableName p r).toList.any Char.isDigit = true :=
    List.any_eq_true.mpr (exists_digit_variableName p r)
  simp only [isVariable, hdigit, Bool.and_true, Bool.or_eq_true]
  exact .inr (by simpa using hmark)

/-- The variables that a statement for a specification may have. -/
inductive IsGenerated (spec : Specification) : String → Prop
  | root : IsGenerated spec "root_doc"
  | whitelist : IsGenerated spec "whitelist"
  | invitation : IsGenerated spec "invitation"
  | ofProperty {p : Property} (h : p ∈ spec.allProperties) (r : Role) :
      IsGenerated spec (variableName p r)

theorem IsGenerated.isVariable {spec : Specification} {v : String} (h : IsGenerated spec v) :
    isVariable v = true := by
  cases h with
  | ofProperty h r => exact isVariable_variableName _ r
  | _ => decide

/-! ## Variables of a plan -/

/-- The role of a variable of some hop from the given one on. -/
def Role.IsHop (start : Nat) (r : Role) : Prop :=
  ∃ hop, start ≤ hop ∧ (r = .list hop ∨ r = .document hop ∨ r = .edge hop)

/-- Each edge of a path has its own roles. -/
theorem hopRoles_spec (plan : Plan) (p : Property) (hop : Nat) (step : Step) :
    (hopRoles plan p hop step).Nodup ∧ ∀ r ∈ hopRoles plan p hop step,
      r = .list hop ∨ r = .document hop ∨ r = .edge hop := by
  unfold hopRoles
  split <;> simp

theorem hopsRoles_spec (plan : Plan) (p : Property) (steps : List Step) (start : Nat) :
    ((steps.zipIdx start).flatMap fun (step, hop) => hopRoles plan p hop step).Nodup ∧
      ∀ r ∈ (steps.zipIdx start).flatMap fun (step, hop) => hopRoles plan p hop step,
        r.IsHop start := by
  induction steps generalizing start with
  | nil => simp
  | cons step rest ih =>
    obtain ⟨hnodup, hhops⟩ := ih (start + 1)
    obtain ⟨hfirst, hroles⟩ := hopRoles_spec plan p start step
    rw [List.zipIdx_cons, List.flatMap_cons]
    constructor
    · refine List.nodup_append.mpr ⟨hfirst, hnodup, ?_⟩
      -- the hops that follow have greater numbers
      rintro r hr _ hr' rfl
      obtain ⟨hop, hle, hlater⟩ := hhops r hr'
      rcases hroles r hr with rfl | rfl | rfl <;> simp at hlater <;> omega
    · rw [List.forall_mem_append]
      constructor
      · intro r hr
        exact ⟨start, Nat.le_refl start, hroles r hr⟩
      · intro r hr
        obtain ⟨hop, hle, hlater⟩ := hhops r hr
        exact ⟨hop, by omega, hlater⟩

variable {plan : Plan}

theorem nodup_groupingRoles (p : Property) : (groupingRoles p).Nodup := by
  have hkeys (n : Nat) : ((List.range n).map Role.key).Nodup :=
    List.nodup_range.map fun _ _ h => Role.key.inj h
  simp [groupingRoles, List.nodup_append, hkeys]

/-- A property has each of its roles once. -/
theorem nodup_roles (p : Property) : (roles plan p).Nodup := by
  obtain ⟨hhops, hroles⟩ := hopsRoles_spec plan p p.edgeSteps 0
  have hgrouping : ∀ r ∈ groupingRoles p, ¬ r.IsHop 0 ∧ r ≠ .sorted := by
    intro r hr
    simp only [groupingRoles, List.mem_append, List.mem_cons, List.not_mem_nil, or_false,
      List.mem_map] at hr
    rcases hr with ((rfl | rfl) | ⟨i, -, rfl⟩) | rfl | rfl <;> simp [Role.IsHop]
  have hsorted : ¬ Role.IsHop 0 .sorted := by simp [Role.IsHop]
  unfold roles
  split
  · exact .nil
  · refine List.nodup_append.mpr ⟨List.nodup_append.mpr ⟨hhops, ?_, ?_⟩, ?_, ?_⟩
    · split <;> simp
    · rintro r hr _ hr' rfl
      split at hr'
      · obtain rfl := List.mem_singleton.mp hr'
        exact hsorted (hroles _ hr)
      · cases hr'
    · split
      · exact nodup_groupingRoles p
      · exact .nil
    · rintro r hr _ hr' rfl
      split at hr'
      · obtain ⟨hhop, hne⟩ := hgrouping r hr'
        rcases List.mem_append.mp hr with hr | hr
        · exact hhop (hroles r hr)
        · split at hr
          · exact hne (List.mem_singleton.mp hr)
          · cases hr
      · cases hr'

/-- No variable of a plan has the name of another, as properties have numbers of their own. -/
theorem nodup_variableNames (h : (plan.spec.allProperties.map Property.index).Nodup) :
    (variableNames plan).Nodup := by
  have hfixed : ∀ v ∈ ["whitelist", "invitation", "root_doc"],
      v.toList.any Char.isDigit = false := by
    decide
  have hgenerated (p : Property) (r : Role) :
      variableName p r ∉ ["whitelist", "invitation", "root_doc"] := by
    intro hmem
    have hdigit := List.any_eq_true.mpr (exists_digit_variableName p r)
    rw [hfixed _ hmem] at hdigit
    cases hdigit
  have hproperties : (plan.spec.allProperties.flatMap fun p =>
      (roles plan p).map (variableName p)).Nodup := by
    refine List.nodup_flatMap.mpr ⟨fun p _ => ?_, ?_⟩
    · exact (nodup_roles p).map fun _ _ h => (variableName_inj h).2
    · refine (List.pairwise_map.mp h).imp fun hne => ?_
      intro v hv hv'
      rcases List.mem_map.mp hv with ⟨r, -, rfl⟩
      rcases List.mem_map.mp hv' with ⟨r', -, heq⟩
      exact hne (variableName_inj heq).1.symm
  have hhead : ((if plan.access.isSome then ["whitelist", "invitation"] else []) ++
      ["root_doc"]).Nodup := by
    split <;> decide
  refine List.nodup_append.mpr ⟨hhead, hproperties, ?_⟩
  rintro v hv _ hv' rfl
  rcases List.mem_flatMap.mp hv' with ⟨p, -, hp⟩
  rcases List.mem_map.mp hp with ⟨r, -, rfl⟩
  apply hgenerated p r
  split at hv <;> simp_all

end Aql

end GraphQuery
