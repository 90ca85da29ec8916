import GraphQuery.Proofs.Records
import GraphQuery.Proofs.Renamings

/-!
# GraphQuery.Proofs.RenamedRecords — records with other keys are read alike

Keys may be renamed where the new ones name the same fields. Which fault is reported depends on the
order of the entries, but whether there is one does not.

1. **Overlooking**: readers that do not tell renamed values apart.
2. **Fields** of renamed records have renamed values.
3. **Reading** a record sets fields one after the other, in the order of the entries. It comes to
   the same in any order if fields are set independently of each other.
-/

namespace GraphQuery.Json

/-! ## Overlooking -/

/-- A reader that does not tell apart values that differ by renaming. -/
def Value.Overlooks {α : Type} (R : String → String → Prop) (g : Value → α) : Prop :=
  ∀ ⦃v w : Value⦄, Renamed R v w → g v = g w

theorem toOption_bind {ε α β : Type} (x : Except ε α) (f : α → Except ε β) :
    (x >>= f).toOption = x.toOption.bind fun a => (f a).toOption := by
  cases x <;> rfl

theorem toOption_map {ε α β : Type} (x : Except ε α) (f : α → β) :
    (x.map f).toOption = x.toOption.map f := by
  cases x <;> rfl

theorem toOption_pure {ε α : Type} (a : α) : (pure a : Except ε α).toOption = some a := rfl

/-- Renaming keys makes or removes no `null`. -/
theorem Value.isNull_iff_of_renamed {R : String → String → Prop} {v w : Value}
    (h : Renamed R v w) : v = .null ↔ w = .null := by
  cases h with
  | scalar => exact Iff.rfl
  | array => exact iff_of_false nofun nofun
  | object => exact iff_of_false nofun nofun

variable {R : String → String → Prop}

/-- Reading an optional value overlooks the keys, if reading the value does. -/
theorem overlooks_readOptional {α : Type} {read : Value → Read α}
    (h : Value.Overlooks R fun v => (read v).toOption) :
    Value.Overlooks R fun v => (readOptional read v).toOption := by
  intro v w hvw
  have hnull := Value.isNull_iff_of_renamed hvw
  have hread := h hvw
  dsimp only at hread ⊢
  by_cases hv : v = .null
  · rw [hv, hnull.mp hv]
  · have hw : w ≠ .null := fun hw => hv (hnull.mpr hw)
    rw [readOptional.eq_2 _ _ hv, readOptional.eq_2 _ _ hw, toOption_map, toOption_map, hread]

theorem overlooks_readText : Value.Overlooks R fun v => (readText v).toOption := by
  intro v w hvw
  cases hvw <;> rfl

/-! ## Fields -/

namespace RecordForm

variable {F : Type} {form : RecordForm F} {S : Value → Value → Prop}
variable {entries renamed arranged : List (String × Value)}

/-- Keys that are related name the same field, if any. -/
def Keeps (form : RecordForm F) (R : String → String → Prop) : Prop :=
  ∀ ⦃k l : String⦄, R k l → form.fieldOf? k = form.fieldOf? l

/-- The same field with related values. -/
def RelatedField (S : Value → Value → Prop) (a b : F × Value) : Prop := a.1 = b.1 ∧ S a.2 b.2

/-- Fields, unread, with related values; those that are absent are the same. -/
def RelatedFields (S : Value → Value → Prop) (field field' : F → Option Value) : Prop :=
  ∀ f, Option.Rel S (field f) (field' f)

theorem RelatedFields.imp {T : Value → Value → Prop} (hT : ∀ v w, S v w → T v w)
    {field field' : F → Option Value} (h : RelatedFields S field field') :
    RelatedFields T field field' := by
  intro f
  have hf := h f
  generalize field f = o, field' f = o' at hf ⊢
  cases hf with
  | none => exact .none
  | some hvalue => exact .some (hT _ _ hvalue)

/-- Entries with renamed keys name the same fields. -/
theorem named_related (hform : form.Keeps R)
    (h : List.Forall₂ (Value.RelatedEntry R S) entries renamed) :
    List.Forall₂ (RelatedField S) (form.named entries) (form.named renamed) := by
  induction h with
  | nil => exact .nil
  | cons he _ ih =>
    cases he with
    | @intro k l v w hkey hvalue =>
      have hfield := hform hkey
      cases hl : form.fieldOf? l with
      | none => rwa [named_cons_of_none (hfield.trans hl), named_cons_of_none hl]
      | some f =>
        rw [named_cons_of_some (hfield.trans hl), named_cons_of_some hl]
        exact .cons ⟨rfl, hvalue⟩ ih

/-- Related fields are the same fields. -/
theorem map_fst_related {as bs : List (F × Value)} (h : List.Forall₂ (RelatedField S) as bs) :
    as.map Prod.fst = bs.map Prod.fst := by
  induction h with
  | nil => rfl
  | cons hab _ ih => rw [List.map_cons, List.map_cons, hab.1, ih]

variable [DecidableEq F]

/-- Looking up a field in related ones gives related values. -/
theorem lookup_related {as bs : List (F × Value)} (h : List.Forall₂ (RelatedField S) as bs)
    (f : F) : Option.Rel S (as.lookup f) (bs.lookup f) := by
  induction h with
  | nil => exact .none
  | @cons a b _ _ hab _ ih =>
    rcases a with ⟨g, v⟩
    rcases b with ⟨g', w⟩
    obtain ⟨rfl, hvalue⟩ := hab
    rw [List.lookup_cons, List.lookup_cons]
    cases f == g with
    | true => exact .some hvalue
    | false => exact ih

/-- Fields that are not repeated have the same values in any order. -/
theorem lookup_perm {as bs : List (F × Value)} (h : as.Perm bs) (hnodup : (as.map Prod.fst).Nodup)
    (f : F) : as.lookup f = bs.lookup f := by
  have hnodup' : (bs.map Prod.fst).Nodup := (h.map Prod.fst).nodup_iff.mp hnodup
  cases hb : bs.lookup f with
  | some v =>
    obtain ⟨before, after, hsplit, -⟩ := List.lookup_eq_some_iff.mp hb
    exact lookup_of_mem hnodup (h.mem_iff.mpr (by simp [hsplit]))
  | none =>
    rw [List.lookup_eq_none_iff] at hb ⊢
    exact fun e he => hb e (h.mem_iff.mp he)

/-- The fields of a record, unread, are those of the renamed one, with renamed values. -/
theorem fields?_object_related (hform : form.Keeps R)
    (h : List.Forall₂ (Value.RelatedEntry R S) entries renamed) (hperm : renamed.Perm arranged) :
    Option.Rel (RelatedFields S) (form.fields? (.object entries))
      (form.fields? (.object arranged)) := by
  have hnamed := named_related hform h
  have harranged : (form.named renamed).Perm (form.named arranged) := hperm.filterMap _
  have hfields : ((form.named entries).map Prod.fst).Nodup ↔
      ((form.named arranged).map Prod.fst).Nodup := by
    rw [map_fst_related hnamed]
    exact (harranged.map Prod.fst).nodup_iff
  change Option.Rel _
    (if ((form.named entries).map Prod.fst).Nodup then
      some fun f => (form.named entries).lookup f else none)
    (if ((form.named arranged).map Prod.fst).Nodup then
      some fun f => (form.named arranged).lookup f else none)
  by_cases hnodup : ((form.named entries).map Prod.fst).Nodup
  · rw [if_pos hnodup, if_pos (hfields.mp hnodup)]
    refine .some fun f => ?_
    rw [← lookup_perm harranged (map_fst_related hnamed ▸ hnodup)]
    exact lookup_related hnamed f
  · rw [if_neg hnodup, if_neg fun hnodup' => hnodup (hfields.mpr hnodup')]
    exact .none

omit [DecidableEq F] in
theorem getElem?_related {items items' : List Value} (h : List.Forall₂ S items items') (n : Nat) :
    Option.Rel S items[n]? items'[n]? := by
  induction h generalizing n with
  | nil => exact .none
  | cons hvalue _ ih =>
    cases n with
    | zero => exact .some hvalue
    | succ n => exact ih n

/-- Related lists are read as related fields. -/
theorem fields?_array_related {items items' : List Value} (h : List.Forall₂ S items items') :
    Option.Rel (RelatedFields S) (form.fields? (.array items)) (form.fields? (.array items')) := by
  change Option.Rel _ (if items.length ≤ form.fields.length then some _ else none)
    (if items'.length ≤ form.fields.length then some _ else none)
  rw [← h.length_eq]
  by_cases hlength : items.length ≤ form.fields.length
  · rw [if_pos hlength, if_pos hlength]
    exact .some fun f => getElem?_related h (form.index f)
  · rw [if_neg hlength, if_neg hlength]
    exact .none

/-- Renamed records are read as related fields. -/
theorem fields?_related (hform : form.Keeps R) {v w : Value} (h : Value.Renamed R v w) :
    Option.Rel (RelatedFields (Value.Renamed R)) (form.fields? v) (form.fields? w) := by
  cases h with
  | @scalar v hv =>
    cases v with
    | array => cases hv
    | object => cases hv
    | null | bool | number | string => exact .none
  | array h => exact fields?_array_related h
  | object h hperm => exact fields?_object_related hform h hperm

/-! ## Reading -/

section

variable {σ : Type} {set : σ → F → Value → Read σ}

/-- Sets a field, unless one before it could not be set. -/
def setField (set : σ → F → Value → Read σ) (o : Option σ) (e : F × Value) : Option σ :=
  o.bind fun d => (set d e.1 e.2).toOption

/-- Two fields come out the same whichever is set first. -/
def Independent (set : σ → F → Value → Read σ) : Prop :=
  ∀ ⦃f g : F⦄, f ≠ g → ∀ (d : σ) (v w : Value),
    ((set d f v).toOption.bind fun d => (set d g w).toOption) =
      (set d g w).toOption.bind fun d => (set d f v).toOption

omit [DecidableEq F] in
theorem foldl_setField_none (fields : List (F × Value)) :
    fields.foldl (setField set) none = none := by
  induction fields with
  | nil => rfl
  | cons e rest ih => exact ih

/-- A record can be read if no field is given twice and each can be set in turn. -/
theorem toOption_readEntries {seen : List F} (hseen : seen.Nodup) (draft : σ)
    (entries : List (String × Value)) :
    (form.readEntries set seen draft entries).toOption =
      if (seen ++ (form.named entries).map Prod.fst).Nodup then
        (form.named entries).foldl (setField set) (some draft) else none := by
  -- a repeated field is found where its second key stands, after the fields before it were set
  induction entries generalizing seen draft with
  | nil =>
    have hnil : (seen ++ (form.named []).map Prod.fst).Nodup := by simpa [named] using hseen
    rw [if_pos hnil]
    rfl
  | cons e rest ih =>
    rcases e with ⟨key, v⟩
    rw [readEntries]
    cases hf : form.fieldOf? key with
    | none =>
      rw [named_cons_of_none hf]
      exact ih hseen draft
    | some f =>
      rw [named_cons_of_some hf, List.map_cons, List.foldl_cons]
      dsimp only
      by_cases hmem : f ∈ seen
      · have htwice : ¬(seen ++ f :: (form.named rest).map Prod.fst).Nodup := fun hnodup =>
          (List.nodup_append.mp hnodup).2.2 f hmem f List.mem_cons_self rfl
        rw [if_pos hmem, if_neg htwice]
        rfl
      · have hseen' : (f :: seen).Nodup := List.nodup_cons.mpr ⟨hmem, hseen⟩
        have hmiddle : (f :: seen ++ (form.named rest).map Prod.fst).Nodup =
            (seen ++ f :: (form.named rest).map Prod.fst).Nodup :=
          propext List.perm_middle.nodup_iff.symm
        rw [if_neg hmem, toOption_bind]
        change _ =
          if _ then (form.named rest).foldl (setField set) (set draft f v).toOption else none
        cases set draft f v with
        | error fault =>
          change none = if _ then (form.named rest).foldl (setField set) none else none
          rw [foldl_setField_none, ite_self]
        | ok d => exact (ih hseen' d).trans (ite_congr hmiddle (fun _ => rfl) fun _ => rfl)

variable (hset : ∀ d f, Value.Overlooks R fun v => (set d f v).toOption)
include hset

omit [DecidableEq F] in
/-- Setting related fields has one outcome. -/
theorem foldl_setField_related {as bs : List (F × Value)}
    (h : List.Forall₂ (RelatedField (Value.Renamed R)) as bs) (o : Option σ) :
    as.foldl (setField set) o = bs.foldl (setField set) o := by
  induction h generalizing o with
  | nil => rfl
  | @cons a b _ _ hab _ ih =>
    rcases a with ⟨f, v⟩
    rcases b with ⟨f', w⟩
    obtain ⟨rfl, hvalue⟩ := hab
    have hstep : setField set o (f, v) = setField set o (f, w) := by
      cases o with
      | none => rfl
      | some d => exact hset d f hvalue
    rw [List.foldl_cons, List.foldl_cons, hstep]
    exact ih _

omit hset [DecidableEq F] in
/-- The order in which fields are set does not matter, if none is set twice. -/
theorem foldl_setField_perm (hind : Independent set) {as bs : List (F × Value)} (h : as.Perm bs)
    (hnodup : (as.map Prod.fst).Nodup) (o : Option σ) :
    as.foldl (setField set) o = bs.foldl (setField set) o := by
  refine h.foldl_eq' (fun a ha b hb o => ?_) o
  -- fields that are the same stand in one entry
  by_cases hfield : a.1 = b.1
  · rw [List.inj_on_of_nodup_map hnodup ha hb hfield]
  · cases o with
    | none => rfl
    | some d => exact hind hfield d a.2 b.2

omit [DecidableEq F] in
/-- Reading related lists has one outcome. -/
theorem toOption_readItems_related {items items' : List Value}
    (h : List.Forall₂ (Value.Renamed R) items items') (fields : List F) (draft : σ) :
    (readItems set draft fields items).toOption =
      (readItems set draft fields items').toOption := by
  induction h generalizing fields draft with
  | nil => rfl
  | cons hvalue _ ih =>
    cases fields with
    | nil => rfl
    | cons f fields =>
      have hfield := hset draft f hvalue
      dsimp only at hfield
      rw [readItems, readItems, toOption_bind, toOption_bind, hfield]
      exact congrArg _ (funext fun d => ih fields d)

/-- Whether a record can be read, and what is read, does not depend on the spelling of its keys or
on the order of its entries. -/
theorem overlooks_read (hform : form.Keeps R) (hind : Independent set) (draft : σ) :
    Value.Overlooks R fun v => (form.read set draft v).toOption := by
  intro v w h
  dsimp only
  cases h with
  | scalar _ => rfl
  | @array items items' h =>
    rw [read, read, toOption_bind, toOption_bind, toOption_readItems_related hset h, h.length_eq]
  | @object entries renamed arranged h hperm =>
    have hnamed := named_related hform h
    have harranged : (form.named renamed).Perm (form.named arranged) := hperm.filterMap _
    rw [read, read, toOption_readEntries List.nodup_nil, toOption_readEntries List.nodup_nil,
      List.nil_append, List.nil_append, map_fst_related hnamed,
      foldl_setField_related hset hnamed]
    have hnodup := (harranged.map Prod.fst).nodup_iff
    refine ite_congr (propext hnodup) (fun harranged' => ?_) fun _ => rfl
    exact foldl_setField_perm hind harranged (hnodup.mpr harranged') _

end

end RecordForm

end GraphQuery.Json
