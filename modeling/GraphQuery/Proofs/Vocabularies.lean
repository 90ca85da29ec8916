import GraphQuery.Proofs.ProjectedKeys
import GraphQuery.Vocabulary
import Mathlib.Data.List.Nodup

/-!
# GraphQuery.Proofs.Vocabularies — which fields a response vocabulary keeps apart

1. **Keys** that a vocabulary is put before fall together only where one of them is another one with
   the vocabulary before it.
2. **Objects** keep an entry for each field if their keys stay apart, and otherwise lose one.
3. **Groups** and their members have distinct keys, whatever the properties are named.
4. **Results** of a query: which of their objects keep all fields is seen from the keys of its levels.
-/

namespace GraphQuery

open Json

/-! ## Keys -/

/-- What is put together starts with its first part. -/
theorem Text.startsWith_append (lead s : String) : startsWith (lead ++ s) lead = true := by
  rw [startsWith, String.toList_append, rest?_eq_some_iff.mpr rfl]
  rfl

namespace Vocabulary

/-- The vocabulary can be put before these keys: where one of them is another one with the vocabulary
before it, that other one begins with the vocabulary already. -/
def Apart (v : String) (keys : List String) : Prop :=
  ∀ k ∈ keys, v ++ k ∈ keys → Text.startsWith k v = true

instance (v : String) (keys : List String) : Decidable (Apart v keys) :=
  inferInstanceAs (Decidable (∀ k ∈ keys, v ++ k ∈ keys → Text.startsWith k v = true))

variable {v : String} {keys keys' : List String}

/-- Apartness depends on the set of the keys only. -/
theorem apart_congr (h : ∀ k, k ∈ keys ↔ k ∈ keys') : Apart v keys ↔ Apart v keys' := by
  unfold Apart
  simp only [h]

/-- A key that begins with the vocabulary is kept. -/
theorem extendKey_of_startsWith {k : String} (h : Text.startsWith k v = true) :
    extendKey v k = k := if_pos h

/-- Any other key is prefixed. -/
theorem extendKey_of_not_startsWith {k : String} (h : ¬ Text.startsWith k v = true) :
    extendKey v k = v ++ k := if_neg h

/-- Distinct keys stay distinct if and only if they are apart. -/
theorem nodup_map_extendKey (h : keys.Nodup) : (keys.map (extendKey v)).Nodup ↔ Apart v keys := by
  rw [List.nodup_map_iff_inj_on h]
  constructor
  · -- a key and the same one after the vocabulary
    intro hinj k hk hlonger
    by_contra hbare
    have hsame : extendKey v k = extendKey v (v ++ k) := by
      rw [extendKey_of_not_startsWith hbare, extendKey_of_startsWith (Text.startsWith_append v k)]
    have hk' : k = v ++ k := hinj k hk (v ++ k) hlonger hsame
    rw [hk'] at hbare
    exact hbare (Text.startsWith_append v k)
  · intro hapart a ha b hb hsame
    by_cases hva : Text.startsWith a v = true <;> by_cases hvb : Text.startsWith b v = true
    · rwa [extendKey_of_startsWith hva, extendKey_of_startsWith hvb] at hsame
    · rw [extendKey_of_startsWith hva, extendKey_of_not_startsWith hvb] at hsame
      exact absurd (hapart b hb (hsame ▸ ha)) hvb
    · rw [extendKey_of_not_startsWith hva, extendKey_of_startsWith hvb] at hsame
      exact absurd (hapart a ha (hsame ▸ hb)) hva
    · rw [extendKey_of_not_startsWith hva, extendKey_of_not_startsWith hvb] at hsame
      exact (String.append_right_inj v).mp hsame

/-- Sanitized keys are kept apart by a vocabulary that is not sanitized. -/
theorem apart_of_unsafe (hv : Text.safe v ≠ v) (hkeys : ∀ k ∈ keys, Text.safe k = k) :
    Apart v keys := by
  intro k _ hlonger
  refine absurd (Text.safe_eq_self fun c hc => ?_) hv
  have hmem : c ∈ (Text.safe (v ++ k)).toList := by
    rw [hkeys _ hlonger, String.toList_append]
    exact List.mem_append_left _ hc
  exact Text.isSafe_of_mem_safe hmem

/-! ## Objects -/

/-- The entries of a row are extended one by one. -/
theorem extendEntries_eq_map (v : String) (entries : List (String × Value)) :
    extendEntries v entries = entries.map fun (k, x) => (extendKey v k, extendValue v x) := by
  induction entries with
  | nil => rw [extendEntries, List.map_nil]
  | cons entry rest ih => rw [extendEntries, ih, List.map_cons]

/-- Each field of an object has an entry of its own after the vocabulary was put before the keys, with
the field's value, and there are no other entries. -/
def Keeps (v : String) (row : Row) : Prop :=
  (extendRow v row).Perm (row.map fun (k, x) => (extendKey v k, extendValue v x))

/-- A row keeps its entries exactly when its keys stay apart. -/
theorem keeps_iff_apart {row : Row} (h : row.keys.Nodup) : Keeps v row ↔ Apart v row.keys := by
  unfold Keeps extendRow
  rw [extendEntries_eq_map, ← nodup_map_extendKey h]
  have hkeys : (row.map fun (k, x) => (extendKey v k, extendValue v x)).map Prod.fst =
      row.keys.map (extendKey v) := by
    rw [Dictionary.keys, List.map_map, List.map_map]
    rfl
  rw [← hkeys]
  constructor
  · intro hperm
    exact (hperm.map Prod.fst).nodup_iff.mp (Dictionary.ordered_ofEntries _).nodup
  · exact Dictionary.ofEntries_perm

end Vocabulary

/-! ## Groups -/

/-- The keys of a group are in order, and the members have the other keys, whatever keys are there
and however often one of them is moved. -/
theorem Group.split_spec (keys : List String) (object : Row) :
    (split keys object).1.Ordered ∧ (∀ k, k ∈ (split keys object).1.keys ↔ k ∈ keys) ∧
    (split keys object).2 = object.filter fun entry => entry.1 ∉ keys := by
  -- stated for any fields that have been moved already
  have hmove (keys : List String) (moved left : Row) (hmoved : moved.Ordered) :
      let result := keys.foldl (fun parts k => (parts.1.insert k (parts.2.value k), parts.2.erase k))
        (moved, left)
      result.1.Ordered ∧ (∀ k, k ∈ result.1.keys ↔ k ∈ moved.keys ∨ k ∈ keys) ∧
      result.2 = left.filter fun entry => entry.1 ∉ keys := by
    induction keys generalizing moved left with
    | nil => simpa using hmoved
    | cons k rest ih =>
      obtain ⟨hordered, hkeys, hleft⟩ := ih (moved.insert k (left.value k)) (left.erase k)
        (hmoved.insert k (left.value k))
      refine ⟨hordered, fun k' => ?_, ?_⟩
      · rw [List.foldl_cons, hkeys, Dictionary.mem_keys_insert, List.mem_cons, or_assoc,
          or_left_comm]
      · rw [List.foldl_cons, hleft, Dictionary.erase, List.filter_filter]
        refine List.filter_congr fun entry _ => ?_
        by_cases h : entry.1 = k <;> simp [h]
  obtain ⟨hordered, hkeys, hleft⟩ := hmove keys [] object List.Pairwise.nil
  exact ⟨hordered, fun k => (hkeys k).trans (by simp [Dictionary.keys]), hleft⟩

namespace Property

variable {p : Property}

/-- Keys of a level that no group takes away. -/
def restKeys (p : Property) : List String := (levelKeys p.children).filter (· ∉ p.groupKeys)

/-- The members of a group have the keys that are left. -/
theorem keys_rest_of_split {row : Row} (hrow : row.keys.Perm (levelKeys p.children)) :
    (Group.split p.groupKeys row).2.keys.Perm p.restKeys := by
  rw [(Group.split_spec p.groupKeys row).2.2]
  have hkeys : Dictionary.keys (row.filter fun entry => entry.1 ∉ p.groupKeys) =
      row.keys.filter (· ∉ p.groupKeys) := by
    rw [Dictionary.keys, Dictionary.keys, List.filter_map]
    rfl
  rw [hkeys]
  exact hrow.filter _

end Property

/-! ## Results -/

namespace Query

open Vocabulary

variable {q : Query} {spec : Specification}

/-- An object of a level keeps its fields if and only if the keys of the level stay apart. -/
theorem keeps_object_iff (h : q.interpret = .ok spec) {ps : List Property} (hps : spec.IsLevel ps)
    (v : String) {e : Evaluator} {doc : Document} {row : Row}
    (hrow : (e.objectFields doc [] ps).value = some row) :
    Keeps v row ↔ Apart v (Property.levelKeys ps) := by
  have hkeys := Evaluator.keys_object (Query.keys_of_level h hps).1 hrow
  rw [Vocabulary.keeps_iff_apart (hkeys.nodup_iff.mpr (Query.keys_of_level h hps).1)]
  exact apart_congr fun _ => hkeys.mem_iff

/-- A group of a property keeps its fields if and only if its keys stay apart, and a member does if
and only if the other keys do. -/
theorem keeps_group_iff (h : q.interpret = .ok spec) {p : Property} (hp : p ∈ spec.allProperties)
    (hmerge : p.isMerge = false) (hgrouping : p.hasGrouping = true) (v : String)
    {values : List Value}
    (hvalues : ∀ row : Row, .object row ∈ values → ∃ (e : Evaluator) (doc : Document),
      (e.objectFields doc [] p.children).value = some row) {x : Value} (hx : x ∈ arrange p values) :
    ∃ (group : Row) (members : List Row), x = .object group ∧
      group.get? p.instancesKey = some (.array (members.map .object)) ∧
      (Keeps v group ↔ Apart v (p.instancesKey :: p.groupKeys)) ∧
      ∀ m ∈ members, Keeps v m ↔ Apart v p.restKeys := by
  have hnodup := (Query.keys_of_level h (.below hp hmerge)).1
  obtain ⟨k, members, rfl, ⟨hordered, hkeys⟩, hmembers⟩ := Property.exists_of_mem_arrange
    (fun k => k.Ordered ∧ ∀ key, key ∈ k.keys ↔ key ∈ p.groupKeys) (·.keys.Perm p.restKeys) hgrouping
    (fun row hrow => by
      obtain ⟨e, doc, hobject⟩ := hvalues row hrow
      have hsplit := Group.split_spec p.groupKeys row
      exact ⟨⟨hsplit.1, hsplit.2.1⟩,
        Property.keys_rest_of_split (Evaluator.keys_object hnodup hobject)⟩) hx
  refine ⟨_, members, rfl, by rw [Dictionary.get?_insert, if_pos rfl], ?_, fun m hm => ?_⟩
  · rw [Vocabulary.keeps_iff_apart (hordered.insert _ _).nodup]
    refine apart_congr fun key => ?_
    rw [Dictionary.mem_keys_insert, hkeys, List.mem_cons]
  · have hm := hmembers m hm
    rw [Vocabulary.keeps_iff_apart (hm.nodup_iff.mpr (hnodup.filter _))]
    exact apart_congr fun _ => hm.mem_iff

/-- Which objects of a result keep all of their fields, with their own values, when a vocabulary is
put before the keys: those whose level has no key that is another one of its keys with the vocabulary
before it, unless that other one begins with the vocabulary as well. This holds of the rows, of the
objects of each level, and of groups and their members. A vocabulary that keys cannot begin with
keeps all levels apart. -/
theorem fields_kept_iff (h : q.interpret = .ok spec) (v : String) :
    (∀ r data memory rows, evaluate data (Plan.build spec r) memory = .ok rows →
      ∀ row ∈ rows, Keeps v row ↔ Apart v (Property.levelKeys spec.properties)) ∧
    (∀ ps, spec.IsLevel ps → ∀ (e : Evaluator) doc row,
      (e.objectFields doc [] ps).value = some row → (Keeps v row ↔ Apart v (Property.levelKeys ps))) ∧
    (∀ p ∈ spec.allProperties, p.isMerge = false → p.hasGrouping = true → ∀ values : List Value,
      (∀ row : Row, .object row ∈ values → ∃ (e : Evaluator) (doc : Document),
        (e.objectFields doc [] p.children).value = some row) →
      ∀ x ∈ arrange p values, ∃ (group : Row) (members : List Row), x = .object group ∧
        group.get? p.instancesKey = some (.array (members.map .object)) ∧
        (Keeps v group ↔ Apart v (p.instancesKey :: p.groupKeys)) ∧
        ∀ m ∈ members, Keeps v m ↔ Apart v p.restKeys) ∧
    (Text.safe v ≠ v → ∀ ps, spec.IsLevel ps → Apart v (Property.levelKeys ps)) := by
  refine ⟨?_, fun ps hps e doc row hrow => keeps_object_iff h hps v hrow,
    fun p hp hmerge hgrouping values hvalues x hx =>
      keeps_group_iff h hp hmerge hgrouping v hvalues hx,
    fun hv ps _ => apart_of_unsafe hv fun _ => Property.safe_of_mem_levelKeys⟩
  intro r data memory rows hrows row hrow
  obtain ⟨patterns, -, rfl⟩ := eq_of_evaluate hrows
  obtain ⟨doc, hobject⟩ := Evaluator.exists_of_mem_rows hrow
  exact keeps_object_iff h .first v hobject

/-- Papers with their authors, who are grouped by their roles, and with two fields whose keys fall
together once the vocabulary is put before them. -/
def doubled : Query where
  header := some ⟨some (.bare "Paper"), some "https://v/", none, none⟩
  structured :=
    let leaf (name path : String) (groupBy : Bool) : Item := ⟨.bare name, some (.one (.bare path)),
      none, false, false, groupBy, none, false, none, none⟩
    some (.many [⟨.bare "authors", some (.one (.bare "author")),
        some (.many [leaf "https://v/role" "role" true, leaf "name" "name" false]), false, false,
        false, some "people", false, none, none⟩,
      leaf "https://v/https://v/name" "code" false, leaf "name" "name" false])

/-- The rows lose a field, but the groups of authors do not. -/
theorem fields_kept_iff_doubled :
    let leaf (name path : String) (index : Nat) : Property := ⟨name, [⟨path, false, []⟩], [], false,
      false, false, false, none, none, none, index⟩
    let spec : Specification := ⟨[.staff, leaf "https://v/name" "code" 3, leaf "name" "name" 4],
      none, "Paper", some "https://v/"⟩
    let plan := Plan.build spec (Request.ofStage .inProgress)
    doubled.interpret = .ok spec ∧
    (∃ rows, evaluate .staff plan none = .ok rows ∧ rows.length = 1 ∧
      ∀ row ∈ rows, ¬ Keeps "https://v/" row) ∧
    ∃ row, (Evaluator.objectFields ⟨.staff, plan, []⟩ ⟨⟨2⟩, "shelf", ["Person"], none, []⟩ []
        Property.staff.children).value = some row ∧
      ∀ x ∈ arrange .staff [.object row], ∃ group, x = .object group ∧ Keeps "https://v/" group := by
  intro leaf spec plan
  have hspec : doubled.interpret = .ok spec := rfl
  obtain ⟨hrows, -, hgroups, -⟩ := fields_kept_iff hspec "https://v/"
  refine ⟨hspec, ?_, ?_⟩
  · have hlength : (evaluate .staff plan none).toOption.map List.length = some 1 := by
      decide +kernel
    cases hresult : evaluate .staff plan none with
    | error e =>
      rw [hresult] at hlength
      cases hlength
    | ok rows =>
      rw [hresult] at hlength
      refine ⟨rows, rfl, Option.some.inj hlength, fun row hrow hkeeps => ?_⟩
      have hapart := (hrows _ _ _ rows hresult row hrow).mp hkeeps
      exact absurd hapart (by decide +kernel)
  · have hsome : (Evaluator.objectFields ⟨.staff, plan, []⟩ ⟨⟨2⟩, "shelf", ["Person"], none, []⟩ []
        Property.staff.children).value.isSome = true := by decide +kernel
    obtain ⟨row, hrow⟩ := Option.isSome_iff_exists.mp hsome
    have hbuilt : ∀ row' : Row, .object row' ∈ [Value.object row] →
        ∃ (e : Evaluator) (doc : Document),
          (e.objectFields doc [] Property.staff.children).value = some row' := by
      intro row' hrow'
      cases List.mem_singleton.mp hrow'
      exact ⟨_, _, hrow⟩
    refine ⟨row, hrow, fun x hx => ?_⟩
    obtain ⟨group, members, hgroup, -, hkeeps, -⟩ := hgroups .staff List.mem_cons_self rfl
      (by decide +kernel) [.object row] hbuilt x hx
    exact ⟨group, hgroup, hkeeps.mpr (by decide +kernel)⟩

end Query

end GraphQuery
