import GraphQuery.Proofs.Agreement
import GraphQuery.Proofs.Discovery
import GraphQuery.Proofs.Objects

/-!
# GraphQuery.Proofs.ResultKeys — the keys of result objects

1. **Levels** of an interpreted query have distinct keys, none of which is empty.
2. **Objects** of a level have its keys, each of them once.
3. **Groups** have the keys of a property to group by and the key of their members, and the members
   have the other keys.
4. **Rows** have the keys of the first level.
-/

namespace GraphQuery

open Json

/-! ## Levels -/

namespace Property

/-- Keys of the properties of a level, where merge nodes stand for their children. -/
def levelKeys (ps : List Property) : List String := (level ps).map key

@[simp]
theorem levelKeys_nil : levelKeys [] = [] := by rw [levelKeys, level_nil, List.map_nil]

/-- The keys of a level, with those of a merge node in its place. -/
theorem levelKeys_cons (p : Property) (rest : List Property) : levelKeys (p :: rest) =
    (if p.isMerge then levelKeys p.children else [p.key]) ++ levelKeys rest := by
  unfold levelKeys
  rw [level_cons, List.map_append]
  split <;> rfl

/-- The keys that a check has found to be usable between two of its states. -/
structure Taken (seen after : Dictionary String) (keys : List String) : Prop where
  nodup : keys.Nodup
  nonempty : "" ∉ keys
  fresh : ∀ k ∈ keys, k ∉ seen.keys
  after_iff : ∀ k, k ∈ after.keys ↔ k ∈ seen.keys ∨ k ∈ keys

namespace Taken

theorem nil (seen : Dictionary String) : Taken seen seen [] := by
  constructor <;> simp

/-- Keys are taken one after the other. -/
theorem append {seen mid after : Dictionary String} {ks ls : List String} (hks : Taken seen mid ks)
    (hls : Taken mid after ls) : Taken seen after (ks ++ ls) where
  nodup := by
    refine hks.nodup.append hls.nodup fun k hk hl => ?_
    exact hls.fresh k hl ((hks.after_iff k).mpr (.inr hk))
  nonempty := by
    rw [List.mem_append, not_or]
    exact ⟨hks.nonempty, hls.nonempty⟩
  fresh := by
    intro k hk
    rcases List.mem_append.mp hk with hk | hk
    · exact hks.fresh k hk
    · exact fun hseen => hls.fresh k hk ((hks.after_iff k).mpr (.inl hseen))
  after_iff := by
    intro k
    rw [hls.after_iff, hks.after_iff, List.mem_append, or_assoc]

/-- A key that is not empty, and new, is taken. -/
theorem singleton {seen : Dictionary String} {k : String} (hempty : k ≠ "") (hfresh : k ∉ seen.keys)
    (name : String) : Taken seen (seen.insert k name) [k] where
  nodup := List.nodup_singleton k
  nonempty := by simpa [eq_comm] using hempty
  fresh := by simpa using hfresh
  after_iff := by
    intro k'
    rw [Dictionary.mem_keys_insert, List.mem_singleton, or_comm]

end Taken

theorem checkLevel_cons (seen : Dictionary String) (p : Property) (rest : List Property) :
    checkLevel seen (p :: rest) = checkKeys seen p >>= fun seen => checkLevel seen rest := by
  rw [checkLevel]

/-- The check of the keys of a property, with its cases spelled out. -/
theorem checkKeys_eq (seen : Dictionary String) (p : Property) : checkKeys seen p =
    if p.isMerge then checkLevel seen p.children
    else if p.key.isEmpty then .error (.unusableKey p.name)
    else match seen.get? p.key with
      | some first => .error (.sharedKey first p.name p.key)
      | none => do
        let _ ← checkLevel [] p.children
        return seen.insert p.key p.name := by
  cases p
  rw [checkKeys]
  rfl

/-- What the check of a property that is no merge node has found. -/
theorem checkKeys_eq_ok {seen after : Dictionary String} {p : Property} (hmerge : p.isMerge = false)
    (h : checkKeys seen p = .ok after) :
    Taken seen after [p.key] ∧ ∃ below, checkLevel [] p.children = .ok below := by
  rw [checkKeys_eq, hmerge, if_neg Bool.false_ne_true] at h
  split at h
  · cases h
  · rename_i hempty
    split at h
    · cases h
    · rename_i hnone
      cases hbelow : checkLevel [] p.children with
      | error fault =>
        rw [hbelow] at h
        cases h
      | ok below =>
        rw [hbelow] at h
        cases h
        refine ⟨.singleton ?_ (Dictionary.get?_eq_none_iff.mp hnone) p.name, below, rfl⟩
        simpa using hempty

/-- A level passes the check when its first property does, and the rest after it. -/
theorem checkLevel_cons_eq_ok {seen after : Dictionary String} {p : Property}
    {rest : List Property} (h : checkLevel seen (p :: rest) = .ok after) :
    ∃ mid, checkKeys seen p = .ok mid ∧ checkLevel mid rest = .ok after := by
  rw [checkLevel_cons] at h
  cases hfirst : checkKeys seen p with
  | error fault =>
    rw [hfirst] at h
    cases h
  | ok mid =>
    rw [hfirst] at h
    exact ⟨mid, rfl, h⟩

/-- A merge node passes on the check to its children. -/
theorem checkKeys_merge {p : Property} (h : p.isMerge = true) (seen : Dictionary String) :
    checkKeys seen p = checkLevel seen p.children := by
  rw [checkKeys_eq, if_pos h]

/-- A level that passes the check has distinct keys, none of which is empty. -/
theorem taken_checkLevel {seen after : Dictionary String} {ps : List Property}
    (h : checkLevel seen ps = .ok after) : Taken seen after (levelKeys ps) := by
  induction ps using forest_induction generalizing seen after with
  | nil =>
    rw [checkLevel] at h
    cases h
    rw [levelKeys_nil]
    exact .nil seen
  | cons p rest ihchildren ihrest =>
    obtain ⟨mid, hfirst, hrest⟩ := checkLevel_cons_eq_ok h
    rw [levelKeys_cons]
    refine .append ?_ (ihrest hrest)
    cases hmerge : p.isMerge with
    | true =>
      rw [checkKeys_merge hmerge] at hfirst
      exact ihchildren hfirst
    | false => exact (checkKeys_eq_ok hmerge hfirst).1

/-- The levels below a level that passes the check pass it as well. -/
theorem exists_checkLevel_children {seen after : Dictionary String} {ps : List Property}
    (h : checkLevel seen ps = .ok after) {p : Property} (hp : p ∈ subtrees ps)
    (hmerge : p.isMerge = false) : ∃ below, checkLevel [] p.children = .ok below := by
  induction ps using forest_induction generalizing seen after with
  | nil => simp [subtrees] at hp
  | cons q rest ihchildren ihrest =>
    obtain ⟨mid, hfirst, hrest⟩ := checkLevel_cons_eq_ok h
    rw [subtrees_cons, List.mem_cons, List.mem_append] at hp
    rcases hp with rfl | hp | hp
    · exact (checkKeys_eq_ok hmerge hfirst).2
    · cases hq : q.isMerge with
      | true =>
        rw [checkKeys_merge hq] at hfirst
        exact ihchildren hfirst hp
      | false =>
        obtain ⟨below, hbelow⟩ := (checkKeys_eq_ok hq hfirst).2
        exact ihchildren hbelow hp
    · exact ihrest hrest hp

end Property

/-- The properties that an object of a specification is built from: those of a row, or those below
a property that is no merge node. -/
inductive Specification.IsLevel (s : Specification) : List Property → Prop
  | first : s.IsLevel s.properties
  | below {p : Property} : p ∈ s.allProperties → p.isMerge = false → s.IsLevel p.children

/-- The keys of each level are distinct, and none is empty. -/
theorem Query.keys_of_level {q : Query} {spec : Specification} (h : q.interpret = .ok spec)
    {ps : List Property} (hps : spec.IsLevel ps) :
    (Property.levelKeys ps).Nodup ∧ "" ∉ Property.levelKeys ps := by
  obtain ⟨-, after, hcheck⟩ := Query.interpret_eq_ok h
  have hlevel : ∃ after, Property.checkLevel [] ps = .ok after := by
    cases hps with
    | first => exact ⟨after, hcheck⟩
    | below hp hmerge => exact Property.exists_checkLevel_children hcheck hp hmerge
  obtain ⟨after, hlevel⟩ := hlevel
  exact ⟨(Property.taken_checkLevel hlevel).nodup, (Property.taken_checkLevel hlevel).nonempty⟩

/-! ## Objects -/

namespace Evaluator

variable {e : Evaluator} {doc : Document}

/-- The fields of an object have the keys of its level. -/
theorem keys_fieldValues (e : Evaluator) (doc : Document) (ps : List Property) :
    ((fieldValues e doc ps).map fun field => (field.1.key, field.2)).map Prod.fst =
      Property.levelKeys ps := by
  unfold fieldValues Property.levelKeys
  simp only [List.map_map, Function.comp_def]

/-- An object of a level has the keys of the level. -/
theorem keys_object {row : Row} {ps : List Property} (hkeys : (Property.levelKeys ps).Nodup)
    (h : (objectFields e doc [] ps).value = some row) : row.keys.Perm (Property.levelKeys ps) := by
  rw [value_objectFields, assemble] at h
  split at h
  · cases h
    rw [← keys_fieldValues e doc ps] at hkeys ⊢
    exact (Dictionary.ofEntries_perm hkeys).map Prod.fst
  · cases h

end Evaluator

/-! ## Groups -/

theorem Json.mem_sortBy {α : Type} {compare : α → α → Ordering} {a : α} {xs : List α} :
    a ∈ sortBy compare xs ↔ a ∈ xs := List.mem_mergeSort

namespace Property

/-- Keys of the properties to group by. -/
def groupKeys (p : Property) : List String := (p.children.filter groupBy).map key

/-- Keys that the members of a group keep. -/
def memberKeys (p : Property) : List String := (p.children.filter fun c => !c.groupBy).map key

/-- Key of the members in a group. -/
def instancesKey (p : Property) : String := p.groupedInstances.getD ""

/-- A property whose groups are objects with keys of their own: no merge node stands between the
property and what it groups, and its members are named by a key that is usable and is no other. -/
structure NamesGroups (p : Property) : Prop where
  grouping : p.hasGrouping = true
  plain : ∀ c ∈ p.children, c.isMerge = false
  safe : Text.safe p.instancesKey = p.instancesKey
  fresh : p.instancesKey ∉ p.groupKeys

/-- The fields of a grouped property are divided among groups and members. -/
theorem levelKeys_perm_groupKeys {p : Property} (h : ∀ c ∈ p.children, c.isMerge = false) :
    (levelKeys p.children).Perm (p.groupKeys ++ p.memberKeys) := by
  unfold levelKeys groupKeys memberKeys
  rw [level_eq_self h, ← List.map_append]
  exact (List.filter_append_perm groupBy p.children).symm.map key

end Property

namespace Group

/-- Keys that are moved out of an object make a row, and leave the other fields. -/
theorem keys_split {keys others : List String} {object : Row}
    (hobject : object.keys.Perm (keys ++ others)) (hnodup : (keys ++ others).Nodup) :
    (split keys object).1.keys.Perm keys ∧ (split keys object).2.keys.Perm others := by
  -- stated for any fields that have been moved already
  have hmove : ∀ (keys : List String) (moved left : Row), (moved.keys ++ keys).Nodup →
      left.keys.Perm (keys ++ others) → (keys ++ others).Nodup →
      let result := keys.foldl (fun parts k => (parts.1.insert k (parts.2.value k), parts.2.erase k))
        (moved, left)
      result.1.keys.Perm (moved.keys ++ keys) ∧ result.2.keys.Perm others := by
    intro keys
    induction keys with
    | nil =>
      intro moved left _ hleft _
      rw [List.append_nil]
      exact ⟨.refl _, hleft⟩
    | cons k rest ih =>
      intro moved left hmoved hleft hkeys
      have hinsert := Dictionary.keys_insert_append_perm hmoved (left.value k)
      rw [List.cons_append, List.nodup_cons] at hkeys
      have herase := Dictionary.keys_erase_perm hleft hkeys.1
      obtain ⟨hkey, hrest⟩ := ih (moved.insert k (left.value k)) (left.erase k)
        (hinsert.nodup_iff.mpr hmoved) herase hkeys.2
      exact ⟨hkey.trans hinsert, hrest⟩
  exact hmove keys [] object (List.nodup_append.mp hnodup).1 hobject hnodup

/-- What holds of the keys of an object holds of the group's, and what holds of the rest of an
object holds of its members. -/
structure Consists (inKey inMember : Row → Prop) (g : Group) : Prop where
  key : inKey g.key
  members : ∀ m ∈ g.members, inMember m

variable {keys : List String} {inKey inMember : Row → Prop}

/-- Groups that consist of what is allowed still do with one more object. -/
theorem consists_collect {groups : List Group} (hgroups : ∀ g ∈ groups, g.Consists inKey inMember)
    {object : Row} (hkey : inKey (split keys object).1) (hrest : inMember (split keys object).2) :
    ∀ g ∈ collect keys groups object, g.Consists inKey inMember := by
  intro g hg
  unfold collect at hg
  dsimp only at hg
  split at hg
  · -- the object joins the group with its keys
    obtain ⟨g', hg', rfl⟩ := List.mem_map.mp hg
    have hold := hgroups g' hg'
    split
    · refine ⟨hold.key, fun m hm => ?_⟩
      rcases List.mem_append.mp hm with hm | hm
      · exact hold.members m hm
      · rw [List.mem_singleton.mp hm]
        exact hrest
    · exact hold
  · rcases List.mem_append.mp hg with hg | hg
    · exact hgroups g hg
    · rw [List.mem_singleton.mp hg]
      refine ⟨hkey, fun m hm => ?_⟩
      rw [List.mem_singleton.mp hm]
      exact hrest

/-- So they do after all objects. -/
theorem consists_foldl_collect {objects : List Row}
    (hobjects : ∀ o ∈ objects, inKey (split keys o).1 ∧ inMember (split keys o).2)
    {groups : List Group} (hgroups : ∀ g ∈ groups, g.Consists inKey inMember) :
    ∀ g ∈ objects.foldl (collect keys) groups, g.Consists inKey inMember := by
  induction objects generalizing groups with
  | nil => exact hgroups
  | cons o rest ih =>
    rw [List.forall_mem_cons] at hobjects
    exact ih hobjects.2 (consists_collect hgroups hobjects.1.1 hobjects.1.2)

end Group

namespace Property

/-- A group of a property: it has the keys to group by and that of its members, which have the other
keys. -/
def IsGroup (p : Property) (v : Value) : Prop :=
  ∃ (g : Row) (members : List Row), v = .object g ∧ g.keys.Perm (p.groupKeys ++ [p.instancesKey]) ∧
    g.get? p.instancesKey = some (.array (members.map .object)) ∧
    ∀ m ∈ members, m.keys.Perm p.memberKeys

variable {p : Property}

/-- A value that is settled was there before. -/
theorem mem_of_mem_settle {values : List Value} {v : Value} (h : v ∈ settle p values) :
    v ∈ values := by
  have hrepeats (h : v ∈ (if p.ensureOrder then values else firstOccurrences (· == ·) values)) :
      v ∈ values := by
    split at h
    · exact h
    · exact mem_of_mem_firstOccurrences h
  unfold settle at h
  dsimp only at h
  split at h
  · exact hrepeats (mem_sortBy.mp h)
  · exact hrepeats h

/-- The groups of a property are objects that have their members besides their keys. -/
theorem exists_of_mem_arrange (inKey inMember : Row → Prop) (hgrouping : p.hasGrouping = true)
    {values : List Value}
    (hvalues : ∀ row : Row, .object row ∈ values →
      inKey (Group.split p.groupKeys row).1 ∧ inMember (Group.split p.groupKeys row).2)
    {v : Value} (hv : v ∈ arrange p values) :
    ∃ (k : Row) (members : List Row),
      v = .object (k.insert p.instancesKey (.array (members.map .object))) ∧ inKey k ∧
      ∀ m ∈ members, inMember m := by
  unfold arrange at hv
  dsimp only at hv
  rw [if_pos hgrouping] at hv
  obtain ⟨g, hg, rfl⟩ := List.mem_map.mp hv
  have hconsists : g.Consists inKey inMember := by
    refine Group.consists_foldl_collect (fun o ho => ?_) (by simp) g (mem_sortBy.mp hg)
    obtain ⟨value, hvalue, hobject⟩ := List.mem_filterMap.mp ho
    obtain rfl : value = .object o := by
      unfold asObject? at hobject
      split at hobject <;> cases hobject
      rfl
    exact hvalues o (mem_of_mem_settle hvalue)
  exact ⟨g.key, sortBy (compareFields (p.memberSortKeys.map key)) g.members, rfl, hconsists.key,
    fun m hm => hconsists.members m (mem_sortBy.mp hm)⟩

/-- Where objects of the level below a property are grouped, groups and members have their keys. -/
theorem isGroup_of_mem_arrange (h : p.NamesGroups) (hnodup : (levelKeys p.children).Nodup)
    {values : List Value}
    (hvalues : ∀ row : Row, .object row ∈ values → row.keys.Perm (levelKeys p.children)) {v : Value}
    (hv : v ∈ arrange p values) : p.IsGroup v := by
  have hperm := levelKeys_perm_groupKeys h.plain
  obtain ⟨k, members, rfl, hk, hmembers⟩ := exists_of_mem_arrange (·.keys.Perm p.groupKeys)
    (·.keys.Perm p.memberKeys) h.grouping (fun row hrow => Group.keys_split
      ((hvalues row hrow).trans hperm) (hperm.nodup_iff.mp hnodup)) hv
  refine ⟨_, members, rfl, ?_, ?_, hmembers⟩
  · have hfresh : p.instancesKey ∉ k.keys := fun hmem => h.fresh (hk.mem_iff.mp hmem)
    exact (Dictionary.keys_insert_perm hfresh _).trans
      ((hk.cons p.instancesKey).trans (List.perm_append_singleton _ _).symm)
  · rw [Dictionary.get?_insert, if_pos rfl]

end Property

/-! ## Rows -/

/-- Every row is an object of the first level at some root. -/
theorem Evaluator.exists_of_mem_rows {e : Evaluator} {row : Row} (h : row ∈ e.rows.value) :
    ∃ doc, (objectFields e doc [] e.plan.spec.properties).value = some row := by
  have hmem : row ∈ (unsortedRows e).value := mem_sortBy.mp h
  rw [value_unsortedRows] at hmem
  obtain ⟨doc, -, hdoc⟩ := List.mem_filterMap.mp hmem
  exact ⟨doc, hdoc⟩

end GraphQuery
