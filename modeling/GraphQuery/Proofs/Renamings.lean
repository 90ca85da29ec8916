import GraphQuery.Json.Value
import Mathlib.Data.List.Forall2
import Mathlib.Data.List.Perm.Basic
import Mathlib.Data.Option.Basic

/-!
# GraphQuery.Proofs.Renamings — values with other keys

1. **Induction** on values: the items of a list, the entries of an object.
2. **Objects** in a value, at any depth.
3. **Renamings** give the entries of objects other keys and another order, at every level. Scalars,
   and the items of lists with their order, stay as they are.
-/

namespace GraphQuery.Json

namespace Value

/-! ## Induction -/

/-- Neither a list nor an object. -/
def IsScalar : Value → Prop
  | .array _ | .object _ => False
  | _ => True

/-- What holds of scalars, of lists if it holds of their items, and of objects if it holds of their
values, holds of all values. -/
theorem induction {P : Value → Prop} (scalar : ∀ v, v.IsScalar → P v)
    (array : ∀ items, (∀ v ∈ items, P v) → P (.array items))
    (object : ∀ entries : List (String × Value), (∀ e ∈ entries, P e.2) → P (.object entries))
    (v : Value) : P v := by
  refine @Value.rec P (fun items => ∀ v ∈ items, P v) (fun entries => ∀ e ∈ entries, P e.2)
    (fun e => P e.2) ?null ?bool ?number ?string array object ?nil ?cons ?none ?more ?entry v
  case null => exact scalar _ trivial
  case bool => exact fun _ => scalar _ trivial
  case number => exact fun _ => scalar _ trivial
  case string => exact fun _ => scalar _ trivial
  case nil => exact nofun
  case cons => exact fun _ _ hv hrest => List.forall_mem_cons.mpr ⟨hv, hrest⟩
  case none => exact nofun
  case more => exact fun _ _ he hrest => List.forall_mem_cons.mpr ⟨he, hrest⟩
  case entry => exact fun _ _ hv => hv

/-! ## Objects -/

mutual

/-- The objects in a value, itself included, at any depth. -/
def objects : Value → List (List (String × Value))
  | .object entries => entries :: objectsInEntries entries
  | .array items => objectsInItems items
  | _ => []

/-- The objects in the items of an array. -/
def objectsInItems : List Value → List (List (String × Value))
  | [] => []
  | v :: rest => objects v ++ objectsInItems rest

/-- The objects in the values of an object. -/
def objectsInEntries : List (String × Value) → List (List (String × Value))
  | [] => []
  | (_, v) :: rest => objects v ++ objectsInEntries rest

end

/-- A scalar has no objects in it. -/
theorem objects_of_isScalar {v : Value} (h : v.IsScalar) : v.objects = [] := by
  cases v with
  | null | bool | number | string => rfl
  | array | object => cases h

/-- An object in an array is in one of its items. -/
@[simp]
theorem mem_objects_array {items : List Value} {object : List (String × Value)} :
    object ∈ (array items).objects ↔ ∃ v ∈ items, object ∈ v.objects := by
  rw [objects]
  induction items with
  | nil => simp [objectsInItems]
  | cons v rest ih => simp [objectsInItems, ih]

/-- An object in an object is that object, or is in one of its values. -/
@[simp]
theorem mem_objects_object {entries object : List (String × Value)} :
    object ∈ (Value.object entries).objects ↔
      object = entries ∨ ∃ e ∈ entries, object ∈ e.2.objects := by
  rw [objects, List.mem_cons]
  refine or_congr_right ?_
  induction entries with
  | nil => simp [objectsInEntries]
  | cons e rest ih => simp [objectsInEntries, ih]

/-! ## Renamings -/

/-- Entries whose keys are related, and their values too. -/
inductive RelatedEntry {α β : Type} (R : String → String → Prop) (S : α → β → Prop) :
    String × α → String × β → Prop
  | intro {k l : String} {a : α} {b : β} (hkey : R k l) (hvalue : S a b) :
      RelatedEntry R S (k, a) (l, b)

/-- Values that differ in nothing but the keys of objects, which are related by `R`, and in the
order of their entries. -/
inductive Renamed (R : String → String → Prop) : Value → Value → Prop
  | scalar {v : Value} (h : v.IsScalar) : Renamed R v v
  | array {items items' : List Value} (h : List.Forall₂ (Renamed R) items items') :
      Renamed R (.array items) (.array items')
  | object {entries renamed arranged : List (String × Value)}
      (h : List.Forall₂ (RelatedEntry R (Renamed R)) entries renamed)
      (hperm : renamed.Perm arranged) : Renamed R (.object entries) (.object arranged)

/-- What holds of equal scalars, of lists if it holds of their items in turn, and of objects if it
holds of the values under related keys, holds of all values that differ by renaming. -/
theorem Renamed.induction {R : String → String → Prop} {P : Value → Value → Prop}
    (scalar : ∀ v, v.IsScalar → P v v)
    (array : ∀ items items', List.Forall₂ (fun v w => Renamed R v w ∧ P v w) items items' →
      P (.array items) (.array items'))
    (object : ∀ entries renamed arranged,
      List.Forall₂ (RelatedEntry R fun v w => Renamed R v w ∧ P v w) entries renamed →
      renamed.Perm arranged → P (.object entries) (.object arranged))
    {v w : Value} (h : Renamed R v w) : P v w := by
  refine @Renamed.rec R (fun v w _ => P v w)
    (fun items items' _ => List.Forall₂ (fun v w => Renamed R v w ∧ P v w) items items')
    (fun entries renamed _ =>
      List.Forall₂ (RelatedEntry R fun v w => Renamed R v w ∧ P v w) entries renamed)
    (fun e f _ => RelatedEntry R (fun v w => Renamed R v w ∧ P v w) e f)
    ?scalar ?array ?object ?nil ?cons ?none ?more ?entry v w h
  case scalar => exact fun hv => scalar _ hv
  case array => exact fun _ hitems => array _ _ hitems
  case object => exact fun _ hperm hentries => object _ _ _ hentries hperm
  case nil => exact .nil
  case cons => exact fun hv _ hP hrest => .cons ⟨hv, hP⟩ hrest
  case none => exact .nil
  case more => exact fun _ _ he hrest => .cons he hrest
  case entry => exact fun hkey hv hP => .intro hkey ⟨hv, hP⟩

namespace Renamed

variable {R : String → String → Prop}

/-- Arrays are renamed item by item. -/
theorem arrays_iff {items items' : List Value} :
    Renamed R (.array items) (.array items') ↔ List.Forall₂ (Renamed R) items items' := by
  constructor
  · intro h
    cases h with
    | scalar h => cases h
    | array h => exact h
  · exact .array

/-- Objects are renamed entry by entry, in any order. -/
theorem objects_iff {entries entries' : List (String × Value)} :
    Renamed R (.object entries) (.object entries') ↔
      ∃ renamed, List.Forall₂ (RelatedEntry R (Renamed R)) entries renamed ∧
        renamed.Perm entries' := by
  constructor
  · intro h
    cases h with
    | scalar h => cases h
    | object h hperm => exact ⟨_, h, hperm⟩
  · rintro ⟨renamed, h, hperm⟩
    exact .object h hperm

end Renamed

/-- Each entry is renamed to one of the others. -/
theorem exists_of_relatedEntries {α β : Type} {R : String → String → Prop} {S : α → β → Prop}
    {entries : List (String × α)} {renamed : List (String × β)}
    (h : List.Forall₂ (RelatedEntry R S) entries renamed) {k : String} {a : α}
    (hmem : (k, a) ∈ entries) : ∃ l b, (l, b) ∈ renamed ∧ R k l ∧ S a b := by
  induction h with
  | nil => cases hmem
  | cons he hrest ih =>
    rcases List.mem_cons.mp hmem with rfl | hmem
    · cases he with
      | intro hkey hvalue => exact ⟨_, _, List.mem_cons_self, hkey, hvalue⟩
    · obtain ⟨l, b, hmem, hrelated⟩ := ih hmem
      exact ⟨l, b, List.mem_cons_of_mem _ hmem, hrelated⟩

section

variable {R : String → String → Prop} {S : Value → Value → Prop}
variable {entries renamed arranged : List (String × Value)}

/-- Entries that are picked by key. -/
theorem filter_related {p : String → Bool} (hp : ∀ ⦃k l : String⦄, R k l → p k = p l)
    (h : List.Forall₂ (RelatedEntry R S) entries renamed) :
    List.Forall₂ (RelatedEntry R S) (entries.filter fun e => p e.1)
      (renamed.filter fun e => p e.1) := by
  induction h with
  | nil => exact .nil
  | cons he _ ih =>
    cases he with
    | @intro k l v w hkey hvalue =>
      rw [List.filter_cons, List.filter_cons]
      dsimp only
      rw [hp hkey]
      split
      · exact .cons (.intro hkey hvalue) ih
      · exact ih

/-- An entry that stands alone does so in any order. -/
theorem lone_related (h : List.Forall₂ (RelatedEntry R S) entries renamed)
    (hperm : renamed.Perm arranged) :
    (∃ k v l w, entries = [(k, v)] ∧ arranged = [(l, w)] ∧ R k l ∧ S v w) ∨
      entries.length ≠ 1 ∧ arranged.length ≠ 1 := by
  have hlength : entries.length = arranged.length := h.length_eq.trans hperm.length_eq
  by_cases hone : entries.length = 1
  · obtain ⟨⟨k, v⟩, rfl⟩ := List.length_eq_one_iff.mp hone
    cases h with
    | cons he hrest =>
      cases hrest
      cases he with
      | @intro _ l _ w hkey hvalue =>
        exact .inl ⟨k, v, l, w, rfl, (List.singleton_perm.mp hperm).symm, hkey, hvalue⟩
  · exact .inr ⟨hone, hlength ▸ hone⟩

end

end Value

end GraphQuery.Json
