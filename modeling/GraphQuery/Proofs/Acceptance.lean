import GraphQuery.Proofs.ResultKeys

/-!
# GraphQuery.Proofs.Acceptance — which queries are accepted

A query is interpreted if it has all that a query needs, if its items have names, and if the fields
of each object that it asks for have keys of their own. This is said here of the items as they are
written, with no regard to the properties that they become and to the order of the checks.

1. **Items** of a structure: those below an item, those at any depth, and those of a level.
2. **Names**: a vocabulary is taken off the front of a name once.
3. **Reading**: items become a tree of properties of the same shape unless one of them has no name.
4. **Checking**: properties pass if and only if all levels have usable and distinct keys.
5. **Queries** are accepted if and only if they are well-formed.
-/

namespace GraphQuery

/-! ## Items -/

namespace Item

/-- The items of a structure, which may be one item alone. -/
def listed (children : Option (OneOrMany Item)) : List Item :=
  (children.map OneOrMany.toList).getD []

/-- The items directly below an item. -/
def inner (i : Item) : List Item := listed i.children

/-- An item without path, whose children belong to the level of the item. -/
def isMerge (i : Item) : Bool := (plainPath i.path).isEmpty && !i.inner.isEmpty

/-- Items and the items below them, at any depth. -/
inductive Within (items : List Item) : Item → Prop
  | here {i : Item} : i ∈ items → Within items i
  | inner {i child : Item} : Within items i → child ∈ i.inner → Within items child

mutual

/-- The items that stand for an item on its level. -/
def expand : Item → List Item
  | i@⟨_, path, children, _, _, _, _, _, _, _⟩ =>
    if (plainPath path).isEmpty && !(listed children).isEmpty then expandChildren children else [i]

/-- The items of the level below an item, with the merge nodes expanded. -/
def expandChildren : Option (OneOrMany Item) → List Item
  | none => []
  | some (.one child) => expand child
  | some (.many children) => level children

/-- The items of a level, with the children of merge items in their places. -/
def level : List Item → List Item
  | [] => []
  | i :: rest => expand i ++ level rest

end

mutual

/-- Induction on the items below an item: what holds of no items, and is kept by an item in front,
holds of them. -/
theorem inner_induction {P : List Item → Prop} (nil : P [])
    (cons : ∀ i rest, P i.inner → P rest → P (i :: rest)) : (i : Item) → P i.inner
  | ⟨_, _, children, _, _, _, _, _, _, _⟩ => listed_induction nil cons children

/-- The same for the items listed in a field. -/
theorem listed_induction {P : List Item → Prop} (nil : P [])
    (cons : ∀ i rest, P i.inner → P rest → P (i :: rest)) :
    (children : Option (OneOrMany Item)) → P (listed children)
  | none => nil
  | some (.one child) => cons child [] (inner_induction nil cons child) nil
  | some (.many children) => forest_induction nil cons children

/-- What holds of no items, and of some if it holds of those below the first and of the others,
holds of any items. -/
theorem forest_induction {P : List Item → Prop} (nil : P [])
    (cons : ∀ i rest, P i.inner → P rest → P (i :: rest)) : (items : List Item) → P items
  | [] => nil
  | i :: rest => cons i rest (inner_induction nil cons i) (forest_induction nil cons rest)

end

variable {i j : Item} {items rest : List Item}

theorem not_within_nil : ¬ Within [] i := by
  intro h
  induction h with
  | here h => cases h
  | inner _ _ ih => exact ih

/-- An item is in a list of trees when it is the first root, below it, or in the rest. -/
theorem within_cons : Within (i :: rest) j ↔ j = i ∨ Within i.inner j ∨ Within rest j := by
  constructor
  · intro h
    induction h with
    | here h => exact (List.mem_cons.mp h).imp_right fun h => .inr (.here h)
    | inner _ hchild ih =>
      rcases ih with rfl | h | h
      · exact .inr (.inl (.here hchild))
      · exact .inr (.inl (.inner h hchild))
      · exact .inr (.inr (.inner h hchild))
  · rintro (rfl | h | h)
    · exact .here (.head _)
    · induction h with
      | here h => exact .inner (.here (.head _)) h
      | inner _ hchild ih => exact .inner ih hchild
    · induction h with
      | here h => exact .here (.tail _ h)
      | inner _ hchild ih => exact .inner ih hchild

/-- The level below an item is that of its listed items. -/
theorem expandChildren_eq (children : Option (OneOrMany Item)) :
    expandChildren children = level (listed children) := by
  match children with
  | none => rfl
  | some (.one child) => exact (List.append_nil _).symm
  | some (.many _) => rfl

theorem level_cons (i : Item) (rest : List Item) :
    level (i :: rest) = (if i.isMerge then level i.inner else [i]) ++ level rest := by
  rw [inner, ← expandChildren_eq]
  cases i
  rw [level, expand]
  rfl

end Item

/-! ## Names -/

/-- What is left of a uri when the vocabulary in front of it is taken off once. -/
def Strips (vocabulary : Option String) (uri name : String) : Prop :=
  match vocabulary with
  | none => name = uri
  | some v => uri = v ++ name ∨ (∀ rest, uri ≠ v ++ rest) ∧ name = uri

/-- A name that is stripped of the vocabulary is the stripped name. -/
theorem strips_iff {vocabulary : Option String} {uri name : String} :
    Strips vocabulary uri name ↔ name = stripVocabulary vocabulary uri := by
  cases vocabulary with
  | none => rfl
  | some v =>
    rw [Strips, stripVocabulary]
    cases hdrop : Text.dropLeading? v uri with
    | some rest =>
      obtain rfl := Text.dropLeading?_eq_some_iff.mp hdrop
      simp [String.append_right_inj, eq_comm]
    | none =>
      have hother (rest : String) : uri ≠ v ++ rest := fun h => by
        rw [Text.dropLeading?_eq_some_iff.mpr h] at hdrop
        cases hdrop
      simp [hother]

namespace Item

/-- The name of the property that an item becomes. -/
def name (vocabulary : Option String) (i : Item) : String :=
  stripVocabulary vocabulary i.propertyName.uri

/-- Keys of the items of a level, where merge items stand for their children. -/
def levelKeys (vocabulary : Option String) (items : List Item) : List String :=
  (level items).map fun i => Text.safe (i.name vocabulary)

theorem levelKeys_cons (vocabulary : Option String) (i : Item) (rest : List Item) :
    levelKeys vocabulary (i :: rest) = (if i.isMerge then levelKeys vocabulary i.inner
      else [Text.safe (i.name vocabulary)]) ++ levelKeys vocabulary rest := by
  unfold levelKeys
  rw [level_cons, List.map_append]
  split <;> rfl

/-! ## Reading -/

/-- A property that has the name, the path and the options of an item. -/
structure Shows (vocabulary : Option String) (i : Item) (p : Property) : Prop where
  name : Strips vocabulary i.propertyName.uri p.name
  path : p.path = plainPath i.path
  required : p.required = i.required
  sort : p.sort = i.sort
  groupBy : p.groupBy = i.groupBy
  ensureOrder : p.ensureOrder = i.ensureOrder
  groupedInstances : p.groupedInstances = i.groupedInstances
  filter : p.filter = i.filter
  collapse : p.collapse = i.collapse

/-- Properties that show items in their order, with the properties below them. -/
inductive Mirrors (vocabulary : Option String) : List Item → List Property → Prop
  | nil : Mirrors vocabulary [] []
  | cons {i : Item} {p : Property} {items : List Item} {ps : List Property} :
    Shows vocabulary i p → Mirrors vocabulary i.inner p.children → Mirrors vocabulary items ps →
    Mirrors vocabulary (i :: items) (p :: ps)

variable {vocabulary : Option String} {next after : Nat} {i : Item} {items : List Item}
  {p : Property} {ps : List Property}

theorem interpretChildren_eq (vocabulary : Option String) (next : Nat)
    (children : Option (OneOrMany Item)) :
    interpretChildren vocabulary next children =
      interpretAll vocabulary next (listed children) := by
  match children with
  | none => rfl
  | some (.many _) => rfl
  | some (.one child) =>
    change _ = interpretAll vocabulary next [child]
    rw [interpretChildren, interpretAll]
    cases interpret vocabulary next child <;> rfl

/-- A blank name is an error. -/
theorem interpret_of_blank (h : Text.allBlank (i.name vocabulary) = true) :
    interpret vocabulary next i = .error .blankName := by
  cases i
  exact if_pos h

/-- The property of an item, for those that the items below it become. -/
def property (vocabulary : Option String) (i : Item) (children : List Property) (index : Nat) :
    Property where
  name := i.name vocabulary
  path := plainPath i.path
  children := children
  required := i.required
  sort := i.sort
  groupBy := i.groupBy
  ensureOrder := i.ensureOrder
  groupedInstances := i.groupedInstances
  filter := i.filter
  collapse := i.collapse
  index := index

/-- The property that is read from an item shows it. -/
theorem shows_property (vocabulary : Option String) (i : Item) (ps : List Property) (index : Nat) :
    Shows vocabulary i (i.property vocabulary ps index) := by
  constructor
  case name => exact strips_iff.mpr rfl
  all_goals rfl

/-- An item with a name is read with what is below it. -/
theorem interpret_of_named (h : Text.allBlank (i.name vocabulary) = false) :
    interpret vocabulary next i = (interpretAll vocabulary (next + 1) i.inner).map fun read =>
      (i.property vocabulary read.1 next, read.2) := by
  rw [inner, ← interpretChildren_eq]
  cases i
  rw [interpret]
  refine (if_neg (Bool.not_eq_true _ ▸ h)).trans ?_
  dsimp only
  cases interpretChildren vocabulary (next + 1) _ <;> rfl

/-- Items are read unless one of them has no name, wherever it is. -/
theorem interpretAll_cases (vocabulary : Option String) (next : Nat) (items : List Item) :
    (∃ i, Within items i ∧ Text.allBlank (i.name vocabulary) = true) ∧
        interpretAll vocabulary next items = .error .blankName ∨
      (∀ i, Within items i → Text.allBlank (i.name vocabulary) = false) ∧
        ∃ ps after, interpretAll vocabulary next items = .ok (ps, after) ∧
          Mirrors vocabulary items ps := by
  induction items using forest_induction generalizing next with
  | nil => exact .inr ⟨fun i h => absurd h not_within_nil, [], next, rfl, .nil⟩
  | cons i rest ihinner ihrest =>
    rw [interpretAll]
    cases hname : Text.allBlank (i.name vocabulary) with
    | true =>
      rw [interpret_of_blank hname]
      exact .inl ⟨⟨i, .here (.head _), hname⟩, rfl⟩
    | false =>
      rw [interpret_of_named hname]
      rcases ihinner (next + 1) with ⟨⟨j, hj, hblank⟩, herror⟩ | ⟨hinner, ps, mid, hps, hmirrors⟩
      · rw [herror]
        exact .inl ⟨⟨j, within_cons.mpr (.inr (.inl hj)), hblank⟩, rfl⟩
      · rw [hps]
        simp only [Except.map, bind, Except.bind, pure, Except.pure]
        rcases ihrest mid with ⟨⟨j, hj, hblank⟩, herror⟩ | ⟨hrest, qs, after, hqs, hmirrors'⟩
        · rw [herror]
          exact .inl ⟨⟨j, within_cons.mpr (.inr (.inr hj)), hblank⟩, rfl⟩
        · rw [hqs]
          refine .inr ⟨fun j hj => ?_, _, after, rfl, .cons ?_ hmirrors hmirrors'⟩
          · rcases within_cons.mp hj with rfl | hj | hj
            · exact hname
            · exact hinner j hj
            · exact hrest j hj
          · exact shows_property vocabulary i ps next

theorem Mirrors.isEmpty_eq (h : Mirrors vocabulary items ps) : ps.isEmpty = items.isEmpty := by
  cases h <;> rfl

/-- Merge items become merge nodes. -/
theorem Shows.isMerge_eq (h : Shows vocabulary i p)
    (hinner : Mirrors vocabulary i.inner p.children) : p.isMerge = i.isMerge := by
  rw [Property.isMerge, Property.isLeaf, isMerge, h.path, hinner.isEmpty_eq]

/-- A property has the sanitized name of its item as its key. -/
theorem Shows.key_eq (h : Shows vocabulary i p) : p.key = Text.safe (i.name vocabulary) := by
  rw [Property.key, strips_iff.mp h.name]
  rfl

/-- The keys of a level are the sanitized names of its items. -/
theorem Mirrors.levelKeys_eq (h : Mirrors vocabulary items ps) :
    Property.levelKeys ps = levelKeys vocabulary items := by
  induction h with
  | nil => rw [Property.levelKeys_nil, levelKeys, level, List.map_nil]
  | cons hshows hinner _ ihinner ihrest =>
    rw [Property.levelKeys_cons, levelKeys_cons, hshows.isMerge_eq hinner, hshows.key_eq, ihinner,
      ihrest]

/-- The levels below properties are those below the items that they show. -/
theorem Mirrors.forall_inner_iff {P : List String → Prop} (h : Mirrors vocabulary items ps) :
    (∀ p ∈ Property.subtrees ps, p.isMerge = false → P (Property.levelKeys p.children)) ↔
      ∀ i, Within items i → i.isMerge = false → P (levelKeys vocabulary i.inner) := by
  induction h with
  | nil => simp [Property.subtrees, not_within_nil]
  | cons hshows hinner _ ihinner ihrest =>
    simp only [Property.subtrees_cons, List.forall_mem_cons, List.forall_mem_append, within_cons,
      or_imp, forall_and, forall_eq, ihinner, ihrest, hshows.isMerge_eq hinner,
      hinner.levelKeys_eq]

end Item

/-! ## Checking -/

/-- Keys of the fields of an object, if each field has one of its own. -/
structure UsableKeys (keys : List String) : Prop where
  nodup : keys.Nodup
  nonempty : "" ∉ keys

namespace Property

/-- When the keys of a property are accepted, they are taken afterwards. -/
theorem taken_checkKeys {seen after : Dictionary String} {p : Property}
    (h : checkKeys seen p = .ok after) :
    Taken seen after (if p.isMerge then levelKeys p.children else [p.key]) := by
  cases hmerge : p.isMerge with
  | true =>
    rw [checkKeys_merge hmerge] at h
    exact taken_checkLevel h
  | false => exact (checkKeys_eq_ok hmerge h).1

/-- A property that is no merge node passes if its key is usable and new, and the level below it
passes. -/
theorem exists_checkKeys {seen below : Dictionary String} {p : Property}
    (hmerge : p.isMerge = false) (hempty : p.key ≠ "") (hfresh : p.key ∉ seen.keys)
    (hbelow : checkLevel [] p.children = .ok below) : ∃ after, checkKeys seen p = .ok after := by
  have hkey : p.key.isEmpty = false := by simpa using hempty
  rw [checkKeys_eq, hmerge, if_neg Bool.false_ne_true, hkey, if_neg Bool.false_ne_true,
    Dictionary.get?_eq_none_iff.mpr hfresh, hbelow]
  exact ⟨_, rfl⟩

/-- A level passes, after some keys have been taken, if and only if its keys are usable and none of
them is taken, and all levels below it have usable keys. -/
theorem exists_checkLevel_iff {seen : Dictionary String} {ps : List Property} :
    (∃ after, checkLevel seen ps = .ok after) ↔
      UsableKeys (levelKeys ps) ∧ (∀ k ∈ levelKeys ps, k ∉ seen.keys) ∧
        ∀ p ∈ subtrees ps, p.isMerge = false → UsableKeys (levelKeys p.children) := by
  constructor
  · rintro ⟨after, h⟩
    have htaken := taken_checkLevel h
    refine ⟨⟨htaken.nodup, htaken.nonempty⟩, htaken.fresh, fun p hp hmerge => ?_⟩
    obtain ⟨below, hbelow⟩ := exists_checkLevel_children h hp hmerge
    exact ⟨(taken_checkLevel hbelow).nodup, (taken_checkLevel hbelow).nonempty⟩
  · rintro ⟨husable, hfresh, hinner⟩
    induction ps using forest_induction generalizing seen with
    | nil => exact ⟨seen, by rw [checkLevel]⟩
    | cons p rest ihchildren ihrest =>
      rw [levelKeys_cons] at husable hfresh
      rw [subtrees_cons, List.forall_mem_cons, List.forall_mem_append] at hinner
      obtain ⟨hp, hchildren, hrest⟩ := hinner
      obtain ⟨hnodup, hnodup', hdisjoint⟩ := List.nodup_append.mp husable.nodup
      have hnonempty := husable.nonempty
      rw [List.mem_append, not_or] at hnonempty
      rw [List.forall_mem_append] at hfresh
      have hfirst : ∃ mid, checkKeys seen p = .ok mid := by
        cases hmerge : p.isMerge with
        | true =>
          rw [hmerge, if_pos rfl] at hnodup hnonempty hfresh
          rw [checkKeys_merge hmerge]
          exact ihchildren ⟨hnodup, hnonempty.1⟩ hfresh.1 hchildren
        | false =>
          rw [hmerge, if_neg Bool.false_ne_true] at hnonempty hfresh
          obtain ⟨below, hbelow⟩ :=
            @ihchildren [] (hp hmerge) (by simp [Dictionary.keys]) hchildren
          refine exists_checkKeys hmerge (fun hempty => hnonempty.1 ?_) ?_ hbelow
          · rw [hempty]
            exact .head _
          · exact hfresh.1 p.key (.head _)
      obtain ⟨mid, hmid⟩ := hfirst
      rw [checkLevel_cons, hmid]
      refine ihrest ⟨hnodup', hnonempty.2⟩ (fun k hk htaken => ?_) hrest
      rcases ((taken_checkKeys hmid).after_iff k).mp htaken with hseen | hk'
      · exact hfresh.2 k hk hseen
      · exact hdisjoint k hk' k hk rfl

end Property

/-! ## Queries -/

namespace Query

/-- A query that asks for something: it says of which type, and its items have names and keys by
which they are told apart. -/
structure WellFormed (q : Query) : Prop where
  header : ∃ h, q.header = some h ∧ h ≠ Header.empty
  type : ∃ type, q.rootType? = some type ∧ Text.allBlank type.uri = false
  items : q.items ≠ []
  named : ∀ i, Item.Within q.items i → Text.allBlank (i.name q.vocabulary?) = false
  keys : UsableKeys (Item.levelKeys q.vocabulary? q.items)
  inner : ∀ i, Item.Within q.items i → i.isMerge = false →
    UsableKeys (Item.levelKeys q.vocabulary? i.inner)

/-- The checks on the header pass exactly for a header with a root type and some items. -/
theorem check_eq_ok_iff {q : Query} : q.check = .ok () ↔
    (∃ h, q.header = some h ∧ h ≠ Header.empty) ∧
      (∃ type, q.rootType? = some type ∧ Text.allBlank type.uri = false) ∧ q.items ≠ [] := by
  unfold check rootType?
  simp only [throw, throwThe, MonadExceptOf.throw, bind, Except.bind, pure, Except.pure]
  cases q.header with
  | none => simp
  | some h =>
    by_cases hempty : h = Header.empty
    · simp [hempty]
    · cases htype : h.rootType with
      | none => simp [hempty, htype]
      | some type => cases hblank : Text.allBlank type.uri <;> simp [hempty, htype, hblank]

theorem interpret_eq (q : Query) : q.interpret = (q.check.mapError .query).bind fun _ =>
    (Item.interpretAll q.vocabulary? 0 q.items).bind fun read =>
      (Property.checkLevel [] read.1).map fun _ =>
        { properties := read.1
          documentFilter := q.header.bind Header.filter
          rootType := (q.rootType?.map Reference.uri).getD ""
          vocabulary := q.vocabulary? } := by
  have hread : Item.interpretAll q.vocabulary? 0 q.items =
      Item.interpretChildren q.vocabulary? 0 q.structured :=
    (Item.interpretChildren_eq q.vocabulary? 0 q.structured).symm
  rw [hread]
  rfl

/-- A query is interpreted and well-formed, or neither. -/
theorem interpret_cases (q : Query) :
    (∃ spec, q.interpret = .ok spec ∧ q.WellFormed ∧
        Item.Mirrors q.vocabulary? q.items spec.properties) ∨
      ∃ fault, q.interpret = .error fault ∧ ¬ q.WellFormed := by
  rw [interpret_eq]
  cases hcheck : q.check with
  | error fault =>
    refine .inr ⟨.query fault, rfl, fun h => ?_⟩
    rw [check_eq_ok_iff.mpr ⟨h.header, h.type, h.items⟩] at hcheck
    cases hcheck
  | ok _ =>
    obtain ⟨hheader, htype, hitems⟩ := check_eq_ok_iff.mp hcheck
    rcases Item.interpretAll_cases q.vocabulary? 0 q.items with
      ⟨⟨i, hi, hblank⟩, herror⟩ | ⟨hnamed, ps, after, hps, hmirrors⟩
    · rw [herror]
      refine .inr ⟨.blankName, rfl, fun h => ?_⟩
      rw [h.named i hi] at hblank
      cases hblank
    · rw [hps]
      dsimp only [Except.mapError, Except.bind]
      -- what the check asks of the properties is what is asked of the items
      have hpasses := @Property.exists_checkLevel_iff [] ps
      rw [hmirrors.levelKeys_eq, hmirrors.forall_inner_iff] at hpasses
      cases hlevels : Property.checkLevel [] ps with
      | error fault =>
        refine .inr ⟨fault, rfl, fun h => ?_⟩
        obtain ⟨_, hok⟩ := hpasses.mpr ⟨h.keys, by simp [Dictionary.keys], h.inner⟩
        rw [hlevels] at hok
        cases hok
      | ok after =>
        obtain ⟨hkeys, -, hinner⟩ := hpasses.mp ⟨after, hlevels⟩
        refine .inl ⟨_, rfl, ?_, hmirrors⟩
        exact ⟨hheader, htype, hitems, hnamed, hkeys, hinner⟩

/-- A query is interpreted if and only if it is well-formed. Otherwise it is reported as invalid.
The properties of an interpreted query show its items, in the same order and at the same depth. -/
theorem interpreted_iff_wellFormed (q : Query) :
    ((∃ spec, q.interpret = .ok spec) ↔ q.WellFormed) ∧
      (¬ q.WellFormed →
        ∃ reason, q.interpret.mapError InterpretFault.toError = .error (.validation reason)) ∧
      ∀ spec, q.interpret = .ok spec → Item.Mirrors q.vocabulary? q.items spec.properties := by
  rcases q.interpret_cases with ⟨spec, hspec, hwell, hmirrors⟩ | ⟨fault, hfault, hill⟩
  · refine ⟨iff_of_true ⟨spec, hspec⟩ hwell, fun h => absurd hwell h, fun spec' h => ?_⟩
    cases hspec.symm.trans h
    exact hmirrors
  · rw [hfault]
    refine ⟨iff_of_false ?_ hill, fun _ => ⟨_, rfl⟩, fun spec h => by cases h⟩
    rintro ⟨spec, h⟩
    cases h

end Query

end GraphQuery
