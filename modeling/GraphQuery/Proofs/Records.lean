import GraphQuery.Json.Record
import GraphQuery.Proofs.Membership
import Mathlib.Data.List.Nodup
import Mathlib.Data.List.Perm.Basic

/-!
# GraphQuery.Proofs.Records — records that were written can be read

A record is written field by field, in the declared order and under the first key of each field. An
object may get its entries in another order before it is read again.

1. **Arrangements** reorder the entries of objects at every level. Sorting is one.
2. **Writing** a record.
3. **Reading** gives each field what was written for it, in whatever order the entries are.
-/

namespace GraphQuery.Json

/-! ## Arrangements -/

/-- Leaves scalars as they are, and reorders the entries of objects at every level. -/
structure Value.Arranges (arrange : Value → Value) : Prop where
  string : ∀ s, arrange (.string s) = .string s
  bool : ∀ b, arrange (.bool b) = .bool b
  array : ∀ items, arrange (.array items) = .array (items.map arrange)
  object : ∀ entries, ∃ arranged, arrange (.object entries) = .object arranged ∧
    ((entries.map Prod.fst).Nodup → arranged.Perm (entries.map (Prod.map id arrange)))

namespace Value

/-- To leave values as they are is an arrangement. -/
theorem arranges_id : Arranges id where
  string := fun _ => rfl
  bool := fun _ => rfl
  array := fun items => by simp
  object := fun entries => ⟨entries, rfl, fun _ => by simp⟩

theorem sortedItems_eq (items : List Value) : sortedItems items = items.map sorted := by
  induction items with
  | nil => rfl
  | cons v rest ih => rw [sortedItems, ih, List.map_cons]

theorem sortedEntries_eq (entries : List (String × Value)) :
    sortedEntries entries = entries.map (Prod.map id sorted) := by
  induction entries with
  | nil => rfl
  | cons entry rest ih =>
    rcases entry with ⟨k, v⟩
    rw [sortedEntries, ih, List.map_cons]
    rfl

/-- To sort keys at every depth is an arrangement. -/
theorem arranges_sorted : Arranges sorted where
  string := fun _ => by rw [sorted] <;> exact nofun
  bool := fun _ => by rw [sorted] <;> exact nofun
  array := fun items => by rw [sorted, sortedItems_eq]
  object := by
    intro entries
    refine ⟨_, by rw [sorted, sortedEntries_eq], fun hnodup => ?_⟩
    apply Dictionary.ofEntries_perm
    rwa [List.map_map, show Prod.fst ∘ Prod.map id sorted = (Prod.fst : String × Value → String)
      from rfl]

/-- Strings and objects. Neither an absent value nor a list can be taken for one. -/
def IsSingle (v : Value) : Prop := (∃ s, v = .string s) ∨ ∃ entries, v = .object entries

namespace IsSingle

variable {v : Value}

theorem ne_null (h : v.IsSingle) : v ≠ .null := by
  rcases h with ⟨s, rfl⟩ | ⟨entries, rfl⟩ <;> exact nofun

theorem ne_array (h : v.IsSingle) (items : List Value) : v ≠ .array items := by
  rcases h with ⟨s, rfl⟩ | ⟨entries, rfl⟩ <;> exact nofun

/-- Arranging makes no list of what is none. -/
theorem arrange (h : v.IsSingle) {arrange : Value → Value} (ha : Arranges arrange) :
    (arrange v).IsSingle := by
  rcases h with ⟨s, rfl⟩ | ⟨entries, rfl⟩
  · exact .inl ⟨s, ha.string s⟩
  · obtain ⟨arranged, h, -⟩ := ha.object entries
    exact .inr ⟨arranged, h⟩

end IsSingle

end Value

/-! ## Writing -/

namespace RecordForm

variable {F : Type} {form : RecordForm F}

/-- A form that declares all fields, each once and with keys of its own. -/
structure Proper (form : RecordForm F) : Prop where
  nodup : form.fields.Nodup
  complete : ∀ f, f ∈ form.fields
  fieldOf?_label : ∀ f, form.fieldOf? (form.label f) = some f

/-- The entries of a record, of which some fields may be absent. -/
def write (form : RecordForm F) (written : F → Option Value) : List (String × Value) :=
  form.fields.filterMap fun f => (written f).map (form.label f, ·)

/-- The fields that are not absent. -/
def present (form : RecordForm F) (written : F → Option Value) : List F :=
  form.fields.filter fun f => (written f).isSome

/-- The values that entries give to fields. -/
def named (form : RecordForm F) (entries : List (String × Value)) : List (F × Value) :=
  entries.filterMap fun (key, v) => (form.fieldOf? key).map (·, v)

/-- An entry with a key of the record names a field. -/
theorem named_cons_of_some {key : String} {f : F} (h : form.fieldOf? key = some f) (v : Value)
    (rest : List (String × Value)) : form.named ((key, v) :: rest) = (f, v) :: form.named rest := by
  simp [named, h]

/-- An entry with another key names none. -/
theorem named_cons_of_none {key : String} (h : form.fieldOf? key = none) (v : Value)
    (rest : List (String × Value)) : form.named ((key, v) :: rest) = form.named rest := by
  simp [named, h]

variable {written : F → Option Value} {arranged : List (String × Value)}

/-- Arranging the values of a record is arranging those of its fields. -/
theorem write_map (form : RecordForm F) (written : F → Option Value) (g : Value → Value) :
    (form.write written).map (Prod.map id g) = form.write fun f => (written f).map g := by
  unfold write
  rw [List.map_filterMap]
  congr 1
  funext f
  simp only [Option.map_map]
  rfl

theorem map_fst_filterMap {β : Type} (key : F → β) (fields : List F) (written : F → Option Value) :
    (fields.filterMap fun f => (written f).map (key f, ·)).map Prod.fst =
      (fields.filter fun f => (written f).isSome).map key := by
  induction fields with
  | nil => rfl
  | cons f rest ih => cases hf : written f <;> simp [hf, ih]

namespace Proper

variable (h : form.Proper)
include h

/-- A record is written without repeated keys. -/
theorem nodup_keys_write (written : F → Option Value) :
    ((form.write written).map Prod.fst).Nodup := by
  have hlabels : (form.fields.map form.label).Nodup :=
    h.nodup.map_on fun f _ g _ hlabel =>
      Option.some.inj ((h.fieldOf?_label f).symm.trans (hlabel ▸ h.fieldOf?_label g))
  rw [write, map_fst_filterMap]
  exact hlabels.sublist (List.filter_sublist.map form.label)

/-- What is written names the fields that are there, in order. -/
theorem named_write (written : F → Option Value) :
    form.named (form.write written) = form.fields.filterMap fun f => (written f).map (f, ·) := by
  unfold named write
  rw [List.filterMap_filterMap]
  congr 1
  funext f
  cases written f with
  | none => rfl
  | some v => simp [h.fieldOf?_label]

variable (harranged : arranged.Perm (form.write written))
include harranged

/-- In whatever order the entries stand, they name the same fields. -/
theorem named_perm : (form.named arranged).Perm
    (form.fields.filterMap fun f => (written f).map (f, ·)) := by
  rw [← h.named_write]
  exact harranged.filterMap _

theorem named_fields_perm : ((form.named arranged).map Prod.fst).Perm (form.present written) := by
  have hfields := (h.named_perm harranged).map Prod.fst
  rwa [map_fst_filterMap (fun f => f), List.map_id'] at hfields

/-- No field is named twice. -/
theorem nodup_named : ((form.named arranged).map Prod.fst).Nodup :=
  (h.named_fields_perm harranged).nodup_iff.mpr (h.nodup.sublist List.filter_sublist)

end Proper

/-! ## Reading -/

variable [DecidableEq F] {σ : Type}

namespace Proper

variable (h : form.Proper) (harranged : arranged.Perm (form.write written))
include h harranged

/-- Every field is found with the value that was written. -/
theorem lookup_named (f : F) : (form.named arranged).lookup f = written f := by
  have hmem (v : Value) : (f, v) ∈ form.named arranged ↔ written f = some v := by
    rw [(h.named_perm harranged).mem_iff, List.mem_filterMap]
    constructor
    · rintro ⟨g, -, hg⟩
      obtain ⟨w, hw, heq⟩ := Option.map_eq_some_iff.mp hg
      cases heq
      exact hw
    · intro hf
      exact ⟨f, h.complete f, by rw [hf]; rfl⟩
  cases hf : written f with
  | some v => exact lookup_of_mem (h.nodup_named harranged) ((hmem v).mpr hf)
  | none =>
    rw [List.lookup_eq_none_iff]
    rintro ⟨g, v⟩ hgv
    rw [bne_iff_ne]
    rintro rfl
    rw [hmem, hf] at hgv
    cases hgv

/-- A record is read as it was written, however it is arranged. -/
theorem fields?_eq : form.fields? (.object arranged) = some written := by
  change (if ((form.named arranged).map Prod.fst).Nodup then
    some fun f => (form.named arranged).lookup f else none) = some written
  rw [if_pos (h.nodup_named harranged)]
  exact congrArg some (funext (h.lookup_named harranged))

end Proper

/-- Entries that have fields of their own are read one after the other. -/
theorem readEntries_eq {set : σ → F → Value → Read σ} {put : σ → F → σ}
    (hset : ∀ d f v, written f = some v → set d f v = .ok (put d f))
    {entries : List (String × Value)} {seen : List F} (draft : σ)
    (hwritten : ∀ e ∈ entries, ∃ f, form.fieldOf? e.1 = some f ∧ written f = some e.2)
    (hnodup : (seen ++ (form.named entries).map Prod.fst).Nodup) :
    form.readEntries set seen draft entries =
      .ok (((form.named entries).map Prod.fst).foldl put draft) := by
  -- induction on the entries, whatever fields have been seen before
  induction entries generalizing seen draft with
  | nil => rfl
  | cons entry rest ih =>
    rcases entry with ⟨key, v⟩
    obtain ⟨f, hf, hv⟩ := hwritten (key, v) List.mem_cons_self
    rw [named_cons_of_some hf, List.map_cons] at hnodup ⊢
    have hfresh : f ∉ seen := fun hmem =>
      (List.nodup_append.mp hnodup).2.2 f hmem f List.mem_cons_self rfl
    unfold readEntries
    dsimp only at hf hv
    rw [hf]
    dsimp only
    rw [if_neg hfresh, hset draft f v hv]
    exact ih (put draft f) (fun e he => hwritten e (List.mem_cons_of_mem _ he))
      (List.perm_middle.nodup_iff.mp hnodup)

/-- A record is read back from whatever order its entries are in, if the order in which fields are
set does not matter. -/
theorem Proper.readEntries_eq (h : form.Proper) (harranged : arranged.Perm (form.write written))
    {set : σ → F → Value → Read σ} {put : σ → F → σ}
    (hset : ∀ d f v, written f = some v → set d f v = .ok (put d f))
    (hput : ∀ d f g, put (put d f) g = put (put d g) f) (draft : σ) :
    form.readEntries set [] draft arranged = .ok ((form.present written).foldl put draft) := by
  have hwritten : ∀ e ∈ arranged, ∃ f, form.fieldOf? e.1 = some f ∧ written f = some e.2 := by
    intro e he
    obtain ⟨f, -, hf⟩ := List.mem_filterMap.mp (harranged.mem_iff.mp he)
    obtain ⟨v, hv, rfl⟩ := Option.map_eq_some_iff.mp hf
    exact ⟨f, h.fieldOf?_label f, hv⟩
  rw [RecordForm.readEntries_eq hset draft hwritten (h.nodup_named harranged)]
  exact congrArg Except.ok
    ((h.named_fields_perm harranged).foldl_eq' (fun f _ g _ d => hput d f g) draft)

namespace Proper

variable {arrange : Value → Value} (h : form.Proper) (ha : Value.Arranges arrange)
include h ha

omit [DecidableEq F] in
/-- Arranging a record permutes its entries, and arranges their values. -/
theorem exists_arranged (written : F → Option Value) : ∃ arranged,
    arrange (.object (form.write written)) = .object arranged ∧
      arranged.Perm (form.write fun f => (written f).map arrange) := by
  obtain ⟨arranged, hobject, hperm⟩ := ha.object (form.write written)
  refine ⟨arranged, hobject, ?_⟩
  rw [← write_map]
  exact hperm (h.nodup_keys_write written)

/-- The fields of a record, unread, are those that were written. -/
theorem fields?_write (written : F → Option Value) :
    form.fields? (arrange (.object (form.write written))) =
      some fun f => (written f).map arrange := by
  obtain ⟨arranged, hobject, hperm⟩ := h.exists_arranged ha written
  rw [hobject]
  exact h.fields?_eq hperm

/-- A record is read by putting all fields that were written. -/
theorem read_write (written : F → Option Value) {set : σ → F → Value → Read σ}
    (put : σ → F → σ) (hset : ∀ d f v, written f = some v → set d f (arrange v) = .ok (put d f))
    (hput : ∀ d f g, put (put d f) g = put (put d g) f) (draft : σ) :
    form.read set draft (arrange (.object (form.write written))) =
      .ok ((form.present written).foldl put draft) := by
  obtain ⟨arranged, hobject, hperm⟩ := h.exists_arranged ha written
  have hpresent : form.present (fun f => (written f).map arrange) = form.present written := by
    simp only [present, Option.isSome_map]
  rw [hobject, ← hpresent]
  refine h.readEntries_eq hperm (fun d f v hv => ?_) hput draft
  obtain ⟨w, hw, rfl⟩ := Option.map_eq_some_iff.mp hv
  exact hset d f w hw

end Proper

end RecordForm

end GraphQuery.Json
