import GraphQuery.Proofs.Renamings
import GraphQuery.Proofs.Selection
import GraphQuery.Proofs.Vocabularies

/-!
# GraphQuery.Proofs.ExtendedKeys — putting a vocabulary before the keys of a row

1. **Extended values**, level by level.
2. **Once**: every key begins with the vocabulary afterwards, so doing it again changes nothing.
3. **Nothing else**: the row is the same but for its keys, as long as none of them fall together.
-/

namespace GraphQuery

open Json

/-- A dictionary of entries holds no others. -/
theorem Dictionary.mem_of_mem_ofEntries {α : Type} {entries : List (String × α)}
    {e : String × α} (h : e ∈ ofEntries entries) : e ∈ entries := by
  have hget := (mem_iff_get? (ordered_ofEntries entries)).mp h
  rw [get?_ofEntries] at hget
  obtain ⟨before, after, hsplit, -⟩ := List.lookup_eq_some_iff.mp hget
  rw [← List.mem_reverse, hsplit]
  simp

/-- A dictionary is made of its own entries. -/
theorem Dictionary.ofEntries_of_ordered {α : Type} {d : Dictionary α} (h : d.Ordered) :
    ofEntries d = d := by
  refine ext_get? (ordered_ofEntries d) h fun k => Option.ext fun x => ?_
  rw [← mem_iff_get? (ordered_ofEntries d), ← mem_iff_get? h, (ofEntries_perm h.nodup).mem_iff]

namespace Vocabulary

variable {v : String}

/-! ## Extended values -/

/-- Scalars have no keys. -/
theorem extendValue_of_isScalar {x : Value} (h : x.IsScalar) : extendValue v x = x := by
  cases x with
  | null | bool | number | string => rfl
  | array | object => cases h

theorem extendItems_eq_map (v : String) (items : List Value) :
    extendItems v items = items.map (extendValue v) := by
  induction items with
  | nil => rw [extendItems, List.map_nil]
  | cons x rest ih => rw [extendItems, ih, List.map_cons]

theorem extendValue_array (v : String) (items : List Value) :
    extendValue v (.array items) = .array (items.map (extendValue v)) := by
  rw [extendValue, extendItems_eq_map]

theorem extendValue_object (v : String) (entries : List (String × Value)) :
    extendValue v (.object entries) = .object (extendRow v entries) := by
  rw [extendValue, extendRow]

/-- A row gets its keys extended, then they are put in order. -/
theorem extendRow_eq (v : String) (row : Row) : extendRow v row =
    Dictionary.ofEntries (row.map fun (k, x) => (extendKey v k, extendValue v x)) := by
  rw [extendRow, extendEntries_eq_map]

/-- The keys of an extended row are in order. -/
theorem ordered_extendRow (v : String) (row : Row) : (extendRow v row).Ordered :=
  Dictionary.ordered_ofEntries _

/-- The entries of an extended row come from those of the row. -/
theorem exists_of_mem_extendRow {row : Row} {e : String × Value} (h : e ∈ extendRow v row) :
    ∃ f ∈ row, e = (extendKey v f.1, extendValue v f.2) := by
  rw [extendRow_eq] at h
  obtain ⟨f, hf, rfl⟩ := List.mem_map.mp (Dictionary.mem_of_mem_ofEntries h)
  exact ⟨f, hf, rfl⟩

/-- An extended key begins with the vocabulary. -/
theorem startsWith_extendKey (v k : String) : Text.startsWith (extendKey v k) v = true := by
  by_cases h : Text.startsWith k v = true
  · rwa [extendKey_of_startsWith h]
  · rw [extendKey_of_not_startsWith h]
    exact Text.startsWith_append v k

/-! ## Once -/

/-- So do all keys of an extended row. -/
theorem startsWith_of_mem_keys {row : Row} {k : String} (h : k ∈ (extendRow v row).keys) :
    Text.startsWith k v = true := by
  obtain ⟨e, he, rfl⟩ := List.mem_map.mp h
  obtain ⟨f, -, rfl⟩ := exists_of_mem_extendRow he
  exact startsWith_extendKey v f.1

/-- At every depth, the objects in an extended value are extended rows. -/
theorem exists_of_mem_objects {x : Value} {object : Row} (h : object ∈ (extendValue v x).objects) :
    ∃ row, object = extendRow v row := by
  induction x using Value.induction with
  | scalar x hx =>
    rw [extendValue_of_isScalar hx, Value.objects_of_isScalar hx] at h
    cases h
  | array items ih =>
    rw [extendValue_array, Value.mem_objects_array] at h
    obtain ⟨y, hy, h⟩ := h
    obtain ⟨x, hx, rfl⟩ := List.mem_map.mp hy
    exact ih x hx h
  | object row ih =>
    rw [extendValue_object, Value.mem_objects_object] at h
    rcases h with rfl | ⟨e, he, h⟩
    · exact ⟨row, rfl⟩
    · obtain ⟨f, hf, rfl⟩ := exists_of_mem_extendRow he
      exact ih f hf h

/-- A row whose keys have the vocabulary at every depth stays as it is. -/
theorem extendRow_of_fixed {row : Row} (hrow : row.Ordered)
    (h : ∀ e ∈ row, Text.startsWith e.1 v = true ∧ extendValue v e.2 = e.2) :
    extendRow v row = row := by
  have hmap : (row.map fun (k, x) => (extendKey v k, extendValue v x)) = row := by
    refine (List.map_congr_left fun e he => ?_).trans (List.map_id row)
    obtain ⟨hkey, hvalue⟩ := h e he
    exact Prod.ext (extendKey_of_startsWith hkey) hvalue
  rw [extendRow_eq, hmap, Dictionary.ofEntries_of_ordered hrow]

/-- Extending twice is extending once. -/
theorem extendValue_extendValue (x : Value) :
    extendValue v (extendValue v x) = extendValue v x := by
  induction x using Value.induction with
  | scalar x hx => rw [extendValue_of_isScalar hx, extendValue_of_isScalar hx]
  | array items ih =>
    rw [extendValue_array, extendValue_array, List.map_map]
    exact congrArg Value.array (List.map_congr_left fun x hx => ih x hx)
  | object row ih =>
    rw [extendValue_object, extendValue_object]
    refine congrArg Value.object (extendRow_of_fixed (ordered_extendRow v row) fun e he => ?_)
    obtain ⟨f, hf, rfl⟩ := exists_of_mem_extendRow he
    exact ⟨startsWith_extendKey v f.1, ih f hf⟩

/-! ## Nothing else -/

/-- The key `l` is the key `k`, with the vocabulary before it unless it is there already. -/
def Prefixes (v k l : String) : Prop :=
  (v.toList <+: k.toList → l = k) ∧ (¬ v.toList <+: k.toList → l = v ++ k)

/-- A key is related to its extension, and to nothing else. -/
theorem prefixes_iff {k l : String} : Prefixes v k l ↔ l = extendKey v k := by
  unfold Prefixes
  rw [← Text.startsWith_iff]
  by_cases h : Text.startsWith k v = true <;> simp [extendKey, h]

/-- A list is extended item by item. -/
theorem renamed_array_iff {items : List Value} :
    Value.Renamed (Prefixes v) (.array items) (extendValue v (.array items)) ↔
      ∀ x ∈ items, Value.Renamed (Prefixes v) x (extendValue v x) := by
  rw [extendValue_array, Value.Renamed.arrays_iff, List.forall₂_map_right_iff, List.forall₂_same]

/-- Entries are renamed one by one if and only if no two of the keys fall together. -/
theorem renamed_object_iff {row : Row} (hrow : row.keys.Nodup) :
    Value.Renamed (Prefixes v) (.object row) (extendValue v (.object row)) ↔
      Apart v row.keys ∧ ∀ e ∈ row, Value.Renamed (Prefixes v) e.2 (extendValue v e.2) := by
  rw [extendValue_object, Value.Renamed.objects_iff]
  constructor
  · rintro ⟨renamed, h, hperm⟩
    have hkeys : renamed.map Prod.fst = row.keys.map (extendKey v) := by
      clear hperm hrow
      induction h with
      | nil => rfl
      | cons he _ ih =>
        cases he with
        | intro hkey => rw [List.map_cons, ih, prefixes_iff.mp hkey]; rfl
    have hnodup : (row.keys.map (extendKey v)).Nodup := by
      rw [← hkeys]
      exact (hperm.map Prod.fst).nodup_iff.mpr (ordered_extendRow v row).nodup
    refine ⟨(nodup_map_extendKey hrow).mp hnodup, ?_⟩
    rintro ⟨k, x⟩ he
    -- the value under the new key comes from an entry with the same key, which is the same entry
    obtain ⟨l, y, hmem, hkey, hvalue⟩ := Value.exists_of_relatedEntries h he
    obtain ⟨⟨k', x'⟩, he', heq⟩ := exists_of_mem_extendRow (hperm.mem_iff.mp hmem)
    obtain ⟨rfl, rfl⟩ := Prod.mk.inj heq
    have hsame : k = k' := List.inj_on_of_nodup_map hnodup (List.mem_map_of_mem he)
      (List.mem_map_of_mem he') (prefixes_iff.mp hkey).symm
    subst hsame
    cases (lookup_of_mem hrow he).symm.trans (lookup_of_mem hrow he')
    exact hvalue
  · rintro ⟨hapart, hvalues⟩
    refine ⟨_, ?_, ((keeps_iff_apart hrow).mpr hapart).symm⟩
    rw [List.forall₂_map_right_iff, List.forall₂_same]
    exact fun e he => .intro (prefixes_iff.mpr rfl) (hvalues e he)

/-- A value is renamed, and nothing else, if and only if at no depth two keys of an object fall
together. -/
theorem renamed_extendValue_iff {x : Value}
    (hx : ∀ object : Row, object ∈ x.objects → object.keys.Nodup) :
    Value.Renamed (Prefixes v) x (extendValue v x) ↔
      ∀ object : Row, object ∈ x.objects → Apart v object.keys := by
  induction x using Value.induction with
  | scalar x hscalar =>
    rw [extendValue_of_isScalar hscalar, Value.objects_of_isScalar hscalar]
    exact iff_of_true (.scalar hscalar) nofun
  | array items ih =>
    rw [renamed_array_iff]
    simp only [Value.mem_objects_array] at hx ⊢
    constructor
    · rintro h object ⟨x, hitem, hobject⟩
      exact (ih x hitem fun object hobject => hx object ⟨x, hitem, hobject⟩).mp (h x hitem) object
        hobject
    · intro h x hitem
      exact (ih x hitem fun object hobject => hx object ⟨x, hitem, hobject⟩).mpr
        fun object hobject => h object ⟨x, hitem, hobject⟩
  | object row ih =>
    simp only [Value.mem_objects_object] at hx ⊢
    rw [renamed_object_iff (hx row (.inl rfl))]
    constructor
    · rintro ⟨hapart, h⟩ object (rfl | ⟨e, he, hobject⟩)
      · exact hapart
      · exact (ih e he fun object hobject => hx object (.inr ⟨e, he, hobject⟩)).mp (h e he) object
          hobject
    · intro h
      refine ⟨h row (.inl rfl), fun e he => ?_⟩
      exact (ih e he fun object hobject => hx object (.inr ⟨e, he, hobject⟩)).mpr
        fun object hobject => h object (.inr ⟨e, he, hobject⟩)

/-- After a vocabulary was put before the keys of a row, every object in the row, at whatever depth,
has its keys in order, and all of them begin with the vocabulary. Putting it before them once more
changes nothing. The result is the row with all keys that do not begin with the vocabulary behind
it, and nothing else changed, if and only if at no depth an object has a key and the same key behind
the vocabulary, unless that key begins with the vocabulary itself. -/
theorem extendRow_once (v : String) (row : Row) :
    (∀ object : Row, object ∈ (Value.object (extendRow v row)).objects →
      object.Ordered ∧ ∀ k ∈ object.keys, v.toList <+: k.toList) ∧
    extendRow v (extendRow v row) = extendRow v row ∧
    ((∀ object : Row, object ∈ (Value.object row).objects → object.keys.Nodup) →
      (Value.Renamed (Prefixes v) (.object row) (.object (extendRow v row)) ↔
        ∀ object : Row, object ∈ (Value.object row).objects → Apart v object.keys)) := by
  refine ⟨?_, ?_, fun hrow => ?_⟩
  · intro object hobject
    rw [← extendValue_object] at hobject
    obtain ⟨row', rfl⟩ := exists_of_mem_objects hobject
    exact ⟨ordered_extendRow v row', fun k hk => Text.startsWith_iff.mp (startsWith_of_mem_keys hk)⟩
  · have htwice := extendValue_extendValue (v := v) (.object row)
    rw [extendValue_object, extendValue_object] at htwice
    exact Value.object.inj htwice
  · rw [← extendValue_object]
    exact renamed_extendValue_iff hrow

/-- A paper with its languages in a list. A key of one language begins with the vocabulary already;
if `clash`, it is another key of the same language behind the vocabulary. -/
def translated (clash : Bool) : Row := [("code", .string "x"), ("langs", .array [.string "plain",
  .object [("name", .string "de"), (if clash then "v/name" else "v/tag", .null)]])]

theorem extendRow_once_translated :
    (∀ clash, ∀ object : Row, object ∈ (Value.object (translated clash)).objects →
      object.keys.Nodup) ∧
    Value.Renamed (Prefixes "v/") (.object (translated false))
      (.object (extendRow "v/" (translated false))) ∧
    ¬ Value.Renamed (Prefixes "v/") (.object (translated true))
      (.object (extendRow "v/" (translated true))) := by
  have hrow : ∀ clash, ∀ object : Row, object ∈ (Value.object (translated clash)).objects →
      object.keys.Nodup := by
    intro clash
    cases clash <;> decide +kernel
  obtain ⟨-, -, happly⟩ := extendRow_once "v/" (translated false)
  obtain ⟨-, -, hclash⟩ := extendRow_once "v/" (translated true)
  refine ⟨hrow, (happly (hrow false)).mpr (by decide +kernel), ?_⟩
  rw [hclash (hrow true)]
  decide +kernel

end Vocabulary

end GraphQuery
