import GraphQuery.Proofs.RenamedRecords
import GraphQuery.Proofs.RoundTrip

/-!
# GraphQuery.Proofs.Spellings — prefixed keys mean the same as bare ones

No reader tells two payloads apart that differ in the spelling of keys. Each is shown to overlook it
before the readers that call it. Faults may differ, so only what is read is compared.

1. **Spellings** of a field.
2. **References, lists and filters**
3. **Paths**
4. **Items**, by induction on the renaming.
5. **Header and query**
-/

namespace GraphQuery

open Json

/-! ## Spellings -/

/-- The fields of queries, headers, items, filters and hops. A hop's uri is not among them: neither
of its keys is prefixed. -/
def fieldNames : List String :=
  queryForm.fields.map queryForm.label ++ headerForm.fields.map headerForm.label ++
    itemForm.fields.map itemForm.label ++ filterForm.fields.map filterForm.label ++
    (hopForm.fields.filter (· ≠ .uri)).map hopForm.label

/-- The same key, or two keys of one field. -/
inductive SameField : String → String → Prop
  | same (key : String) : SameField key key
  | spelled {name key key' : String} (hname : name ∈ fieldNames) (hkey : key ∈ bothKeys name)
      (hkey' : key' ∈ bothKeys name) : SameField key key'

namespace SameField

/-- A prefix does not change which field a key names. -/
theorem prefixed {name : String} (h : name ∈ fieldNames) : SameField name ("query:" ++ name) :=
  .spelled h List.mem_cons_self (List.mem_cons_of_mem _ List.mem_cons_self)

/-- What is the same for both keys of each field depends on the field only. -/
theorem congr {α : Type} {g : String → α} (hg : ∀ name ∈ fieldNames, g ("query:" ++ name) = g name)
    {key key' : String} (h : SameField key key') : g key = g key' := by
  cases h with
  | same => rfl
  | @spelled name _ _ hname hkey hkey' =>
    have hboth : ∀ k ∈ bothKeys name, g k = g name := by
      intro k hk
      rcases List.mem_cons.mp hk with rfl | hk
      · rfl
      · rw [List.mem_singleton.mp hk, hg name hname]
    rw [hboth key hkey, hboth key' hkey']

end SameField

/-- Filters have the same fields in either spelling. -/
theorem filterForm_keeps : filterForm.Keeps SameField := fun _ _ h => h.congr (by decide +kernel)

/-- So have steps. -/
theorem hopForm_keeps : hopForm.Keeps SameField := fun _ _ h => h.congr (by decide +kernel)

/-- So have items. -/
theorem itemForm_keeps : itemForm.Keeps SameField := fun _ _ h => h.congr (by decide +kernel)

/-- So have headers. -/
theorem headerForm_keeps : headerForm.Keeps SameField := fun _ _ h => h.congr (by decide +kernel)

/-- So have queries. -/
theorem queryForm_keeps : queryForm.Keeps SameField := fun _ _ h => h.congr (by decide +kernel)

/-! ## References, lists and filters -/

/-- A reference has exactly one uri. -/
theorem Reference.ofValue?_of_many {entries : List (String × Value)}
    (h : (entries.filter (·.1 == "@id")).length ≠ 1) : ofValue? (.object entries) = none := by
  rw [ofValue?]
  split
  · rename_i heq
    exact absurd (congrArg List.length heq) h
  · rfl

/-- Reading a reference overlooks the spelling of other keys. -/
theorem Reference.overlooks_ofValue? : Value.Overlooks SameField ofValue? := by
  intro v w h
  cases h with
  | scalar => rfl
  | array => rfl
  | @object entries renamed arranged h hperm =>
    have hfilter := Value.filter_related (p := (· == "@id"))
      (fun _ _ h => h.congr (g := (· == "@id")) (by decide +kernel)) h
    rcases Value.lone_related hfilter (hperm.filter _) with
      ⟨k, v, l, w, hk, hl, -, hvalue⟩ | ⟨hmany, hmany'⟩
    · rw [ofValue?, ofValue?, hk, hl]
      cases hvalue with
      | scalar => cases v <;> rfl
      | array => rfl
      | object => rfl
    · rw [ofValue?_of_many hmany, ofValue?_of_many hmany']

/-- An object that names a variant has exactly one key. -/
theorem readVariant_of_many {α : Type} (known : List α) (name : α → String)
    {entries : List (String × Value)} (h : entries.length ≠ 1) :
    readVariant known name (.object entries) = .error .notSingleKey := by
  match entries with
  | [] => rfl
  | [_] => exact absurd rfl h
  | _ :: _ :: _ => rfl

/-- Variants are named by keys too, none of which is a field. -/
theorem overlooks_readVariant {α : Type} {known : List α} {name : α → String}
    (hname : ∀ field ∈ fieldNames, known.find? (name · == "query:" ++ field) =
      known.find? (name · == field)) :
    Value.Overlooks SameField fun v => (readVariant known name v).toOption := by
  intro v w h
  dsimp only
  cases h with
  | scalar => rfl
  | array => rfl
  | @object entries renamed arranged h hperm =>
    rcases Value.lone_related h hperm with ⟨k, v, l, w, rfl, rfl, hkey, hvalue⟩ | ⟨hmany, hmany'⟩
    · have hfound : known.find? (name · == k) = known.find? (name · == l) :=
        hkey.congr (g := fun k => known.find? (name · == k)) hname
      unfold readVariant
      dsimp only
      rw [hfound]
      cases known.find? (name · == l) with
      | none => rfl
      | some a =>
        cases hvalue with
        | scalar => rfl
        | array => rfl
        | object => rfl
    · rw [readVariant_of_many known name hmany, readVariant_of_many known name hmany']

section

variable {α : Type} {read? : Value → Option α}

/-- Lists whose items are read alike are read alike. -/
theorem mapM_related {items items' : List Value}
    (h : List.Forall₂ (fun v w => read? v = read? w) items items') :
    items.mapM read? = items'.mapM read? := by
  induction h with
  | nil => rfl
  | cons hv _ ih => rw [List.mapM_cons, List.mapM_cons, hv, ih]

variable {R : String → String → Prop} (hread : Value.Overlooks R read?)
include hread

/-- Reading a list or an item overlooks the spelling, if reading items does. -/
theorem OneOrMany.overlooks_ofValue? : Value.Overlooks R (ofValue? read?) := by
  intro v w h
  have hone := congrArg (Option.map OneOrMany.one) (hread h)
  cases h with
  | scalar => rfl
  | array h =>
    unfold ofValue?
    dsimp only
    rw [mapM_related (h.imp fun _ _ h => hread h), hone]
  | object => exact hone

theorem overlooks_optional? : Value.Overlooks R (optional? read?) := by
  intro v w h
  have hsome := congrArg (Option.map some) (hread h)
  cases h with
  | scalar => rfl
  | array => exact hsome
  | object => exact hsome

/-- Fields that are spelled differently are read alike. -/
theorem field?_related {o o' : Option Value} (h : Option.Rel (Value.Renamed R) o o') :
    field? read? o = field? read? o' := by
  cases h with
  | none => rfl
  | some h => exact overlooks_optional? hread h

end

section

variable {R : String → String → Prop}

theorem flag?_related {o o' : Option Value} (h : Option.Rel (Value.Renamed R) o o') :
    flag? o = flag? o' := by
  cases h with
  | none => rfl
  | some h => cases h <;> rfl

theorem overlooks_asString? : Value.Overlooks R Value.asString? := by
  intro v w h
  cases h <;> rfl

end

section

variable {α σ : Type}

/-- What is set to a value that was read is set to the same one. -/
theorem toOption_set_congr {x y : Read α} (h : x.toOption = y.toOption) (put : α → σ) :
    (x >>= fun a => (pure (put a) : Read σ)).toOption =
      (y >>= fun a => (pure (put a) : Read σ)).toOption := by
  rw [toOption_bind, toOption_bind, h]

end

/-- Reading a filter overlooks the spelling. -/
theorem ValueFilter.overlooks_read :
    Value.Overlooks SameField fun v => (ValueFilter.read v).toOption := by
  intro v w h
  unfold ValueFilter.read
  dsimp only
  rw [toOption_bind, toOption_bind]
  refine Option.bind_congr' (RecordForm.overlooks_read ?set filterForm_keeps ?order _ h) ?op
  case set =>
    intro d f v w h
    cases f with
    | op => exact toOption_set_congr (overlooks_readVariant (by decide +kernel) h) _
    | parameter => exact toOption_set_congr (overlooks_readOptional overlooks_readText h) _
    | value => exact toOption_set_congr (overlooks_readOptional overlooks_readText h) _
  case order =>
    intro f g hfg d v w
    cases f <;> cases g
    case op.op | parameter.parameter | value.value => exact absurd rfl hfg
    all_goals
      simp only [toOption_bind, toOption_pure, Option.bind_assoc, Option.bind_some]
      exact Option.bind_comm _ _
  case op =>
    intro d _
    cases d.op <;> rfl

/-! ## Paths -/

theorem bind_related {α : Type} {R : String → String → Prop} {read? : Value → Option α}
    (hread : Value.Overlooks R read?) {o o' : Option Value}
    (h : Option.Rel (Value.Renamed R) o o') : o.bind read? = o'.bind read? := by
  cases h with
  | none => rfl
  | some h => exact hread h

/-- Reading a step with options overlooks the spelling. -/
theorem Hop.overlooks_ofValue? : Value.Overlooks SameField ofValue? := by
  intro v w h
  have hfields := RecordForm.fields?_related hopForm_keeps h
  unfold ofValue?
  generalize hopForm.fields? v = fields, hopForm.fields? w = fields' at hfields ⊢
  cases hfields with
  | none => rfl
  | @some field field' hfield =>
    have hreverse := flag?_related (hfield .reverse)
    have htypes := field?_related (OneOrMany.overlooks_ofValue? Reference.overlooks_ofValue?)
      (hfield .typeFilter)
    dsimp only [Option.bind_eq_bind, Option.bind_some]
    rw [hreverse, htypes]
    exact bind_related (fun _ _ h => by rw [overlooks_asString? h]) (hfield .uri)

/-- Reading a step overlooks the spelling. -/
theorem PathStep.overlooks_ofValue? : Value.Overlooks SameField ofValue? := by
  intro v w h
  have hhop := congrArg (Option.map hop) (Hop.overlooks_ofValue? h)
  cases h with
  | @scalar v =>
    cases v <;> rfl
  | array => exact hhop
  | object => exact hhop

/-- Reading a path overlooks the spelling. -/
theorem overlooks_pathOfValue? : Value.Overlooks SameField pathOfValue? :=
  OneOrMany.overlooks_ofValue? PathStep.overlooks_ofValue?

/-! ## Items -/

namespace Item

/-- Values that are read alike as an item and as children. -/
def ReadAlike (v w : Value) : Prop := ofValue? v = ofValue? w ∧ children? v = children? w

/-- The children of an item whose fields are unread. -/
def childrenOf (field : ItemField → Option Value) : Option (Option (OneOrMany Item)) :=
  (field .items).elim (some none) children?

/-- The children of an object are those in its field. -/
theorem childrenIn?_of_fields? {entries : List (String × Value)} {field : ItemField → Option Value}
    (h : itemForm.fields? (.object entries) = some field) :
    childrenIn? entries = childrenOf field := by
  change (if ((itemForm.named entries).map Prod.fst).Nodup then
    some fun f => (itemForm.named entries).lookup f else none) = some field at h
  split at h
  · cases h
    rw [childrenIn?_eq]
    unfold childrenOf
    dsimp only
    cases (itemForm.named entries).lookup .items <;> rfl
  · cases h

/-- The children of a list are those in its place. -/
theorem childrenAt?_of_fields? {items : List Value} {field : ItemField → Option Value}
    (h : itemForm.fields? (.array items) = some field) :
    childrenAt? items = childrenOf field := by
  change (if items.length ≤ itemForm.fields.length then
    some fun f => items[itemForm.index f]? else none) = some field at h
  split at h
  · cases h
    match items with
    | [] | [_] | [_, _] => rw [childrenAt?] <;> first | rfl | exact nofun
    | _ :: _ :: _ :: _ => rw [childrenAt?]; rfl
  · cases h

/-- An item is assembled from its fields, unread, and its children. -/
theorem assemble?_related {v w : Value} {children children' : Option (Option (OneOrMany Item))}
    (h : Option.Rel
      (RecordForm.RelatedFields fun v w => Value.Renamed SameField v w ∧ ReadAlike v w)
      (itemForm.fields? v) (itemForm.fields? w))
    (hv : ∀ field, itemForm.fields? v = some field → children = childrenOf field)
    (hw : ∀ field, itemForm.fields? w = some field → children' = childrenOf field) :
    assemble? v children = assemble? w children' := by
  unfold assemble?
  generalize itemForm.fields? v = fields, itemForm.fields? w = fields' at h hv hw ⊢
  cases h with
  | none => rfl
  | @some field field' h =>
    have hchildren : children = children' := by
      have hitems := h .items
      rw [hv field rfl, hw field' rfl]
      unfold childrenOf
      generalize field .items = o, field' .items = o' at hitems ⊢
      cases hitems with
      | none => rfl
      | some h => exact h.2.2
    have hfield := h.imp fun _ _ h => And.left h
    have hpath := field?_related overlooks_pathOfValue? (hfield .path)
    have hrequired := flag?_related (hfield .required)
    have hsort := flag?_related (hfield .sort)
    have hgroupBy := flag?_related (hfield .groupBy)
    have hgrouped := field?_related overlooks_asString? (hfield .groupedInstances)
    have horder := flag?_related (hfield .ensureOrder)
    have hfilter := field?_related ValueFilter.overlooks_read (hfield .filter)
    have hcollapse := field?_related
      (@overlooks_readVariant _ Collapse.all Collapse.name (by decide +kernel))
      (hfield .singleValue)
    dsimp only [Option.bind_eq_bind, Option.bind_some]
    -- the name must be there and is read first, so its value is bound by what reads the rest
    rw [hpath, hchildren, hrequired, hsort, hgroupBy, hgrouped, horder, hfilter, hcollapse]
    exact bind_related (fun _ _ h => by rw [Reference.overlooks_ofValue? h]) (hfield .propertyName)

/-- Lists of items that are read alike are read alike. -/
theorem listOf?_related {items items' : List Value} (h : List.Forall₂ ReadAlike items items') :
    listOf? items = listOf? items' := by
  induction h with
  | nil => rfl
  | cons hv _ ih => rw [listOf?, listOf?, hv.1, ih]

/-- Items are read alike however their keys are spelled, at every depth. -/
theorem readAlike {v w : Value} (h : Value.Renamed SameField v w) : ReadAlike v w := by
  -- a list may be a list of items or one item, so both readings go along with the induction
  refine Value.Renamed.induction ?scalar ?array ?object h
  case scalar => exact fun v _ => ⟨rfl, rfl⟩
  case array =>
    intro items items' h
    have hitem := assemble?_related (RecordForm.fields?_array_related h)
      (fun _ => childrenAt?_of_fields?) fun _ => childrenAt?_of_fields?
    have hlist := listOf?_related (h.imp fun _ _ h => h.2)
    constructor
    · rw [ofValue?, ofValue?, hitem]
    · rw [children?, children?, hlist, hitem]
  case object =>
    intro entries renamed arranged h hperm
    have hitem := assemble?_related (RecordForm.fields?_object_related itemForm_keeps h hperm)
      (fun _ => childrenIn?_of_fields?) fun _ => childrenIn?_of_fields?
    constructor
    · rw [ofValue?, ofValue?, hitem]
    · rw [children?, children?, hitem]

end Item

/-! ## Header and query -/

theorem Reference.overlooks_read :
    Value.Overlooks SameField fun v => (Reference.read v).toOption := by
  intro v w h
  unfold Reference.read
  dsimp only
  rw [overlooks_ofValue? h]

/-- Reading a header overlooks the spelling. -/
theorem Header.overlooks_read : Value.Overlooks SameField fun v => (Header.read v).toOption := by
  refine RecordForm.overlooks_read ?set headerForm_keeps ?order _
  case set =>
    intro d f v w h
    cases f with
    | type => exact toOption_set_congr (overlooks_readOptional Reference.overlooks_read h) _
    | responseVocab => exact toOption_set_congr (overlooks_readOptional overlooks_readText h) _
    | filter => exact toOption_set_congr (overlooks_readOptional ValueFilter.overlooks_read h) _
    | name => exact toOption_set_congr (overlooks_readOptional overlooks_readText h) _
  case order =>
    intro f g hfg d v w
    cases f <;> cases g
    case type.type | responseVocab.responseVocab | filter.filter | name.name =>
      exact absurd rfl hfg
    all_goals
      simp only [toOption_bind, toOption_pure, Option.bind_assoc, Option.bind_some]
      exact Option.bind_comm _ _

namespace Query

/-- Reading a query overlooks the spelling. -/
theorem overlooks_read : Value.Overlooks SameField fun v => (Query.read v).toOption := by
  refine RecordForm.overlooks_read ?set queryForm_keeps ?order _
  case set =>
    intro d f v w h
    cases f with
    | header => exact toOption_set_congr (overlooks_readOptional Header.overlooks_read h) _
    | items =>
      dsimp only
      rw [(Item.readAlike h).2]
  case order =>
    intro f g hfg d v w
    cases f <;> cases g
    case header.header | items.items => exact absurd rfl hfg
    case header.items =>
      dsimp only
      cases readOptional Header.read v <;> cases Item.children? w <;> rfl
    case items.header =>
      dsimp only
      cases readOptional Header.read w <;> cases Item.children? v <;> rfl

/-- Neither an empty object nor another value can become an object with entries. -/
theorem exists_entries_of_respelled {R : String → String → Prop} {v w : Value}
    (h : Value.Renamed R v w) :
    (∃ e rest, v = .object (e :: rest)) ↔ ∃ e rest, w = .object (e :: rest) := by
  cases h with
  | scalar => exact Iff.rfl
  | array => exact iff_of_false nofun nofun
  | @object entries renamed arranged h hperm =>
    have hlength : entries.length = arranged.length := h.length_eq.trans hperm.length_eq
    cases entries with
    | nil =>
      rw [List.eq_nil_of_length_eq_zero hlength.symm]
    | cons e rest =>
      cases arranged with
      | nil => cases hlength
      | cons e' rest' => exact iff_of_true ⟨e, rest, rfl⟩ ⟨e', rest', rfl⟩

/-- A payload is accepted if it has entries, can be read and is complete. -/
theorem ofValue_eq_ok_iff (v : Value) (q : Query) :
    ofValue v = .ok q ↔ (∃ e rest, v = .object (e :: rest)) ∧
      (Query.read v).toOption = some q ∧ q.check = .ok () := by
  unfold ofValue
  split
  · rename_i e rest
    rw [and_iff_right ⟨e, rest, rfl⟩]
    cases Query.read (.object (e :: rest)) with
    | error fault => exact iff_of_false nofun fun h => nomatch h.1
    | ok read =>
      change (read.check >>= fun _ => pure read) = .ok q ↔ some read = some q ∧ _
      constructor
      · intro h
        cases hcheck : read.check with
        | error fault =>
          rw [hcheck] at h
          cases h
        | ok _ =>
          rw [hcheck] at h
          cases h
          exact ⟨rfl, hcheck⟩
      · rintro ⟨hread, hcheck⟩
        cases hread
        rw [hcheck]
        rfl
  · rename_i hempty
    refine iff_of_false nofun ?_
    rintro ⟨⟨e, rest, rfl⟩, -⟩
    exact hempty e rest rfl

/-- Each key of a field means the same as the other, at every depth and in any order of the
entries. A payload is accepted with the one spelling if it is with the other, as the same query. -/
theorem ofValue_respelled {v w : Value} (h : Value.Renamed SameField v w) (q : Query) :
    ofValue v = .ok q ↔ ofValue w = .ok q := by
  have hread : (Query.read v).toOption = (Query.read w).toOption := overlooks_read h
  rw [ofValue_eq_ok_iff, ofValue_eq_ok_iff, exists_entries_of_respelled h, hread]

/-- An item with a hop and a filter under bare keys. -/
def plain : Value := .object [
  ("meta", .object [("type", .string "Paper")]),
  ("structure", .array [.object [
    ("propertyName", .string "citedBy"),
    ("path", .object [("@id", .string "cites"), ("reverse", .bool true)])]])]

/-- The same under prefixed keys, in another order. -/
def prefixed : Value := .object [
  ("query:structure", .array [.object [
    ("query:path", .object [("query:reverse", .bool true), ("@id", .string "cites")]),
    ("query:propertyName", .string "citedBy")]]),
  ("meta", .object [("query:type", .string "Paper")])]

theorem ofValue_respelled_prefixed :
    ∃ q, ofValue plain = .ok q ∧ ofValue prefixed = .ok q := by
  obtain ⟨q, hq⟩ : ∃ q, ofValue plain = .ok q := ⟨_, rfl⟩
  have hkey (name : String) (h : name ∈ fieldNames) := SameField.prefixed h
  have hheader : Value.Renamed SameField (.object [("type", .string "Paper")])
      (.object [("query:type", .string "Paper")]) :=
    .object (.cons (.intro (hkey "type" (by decide)) (.scalar trivial)) .nil) (.refl _)
  have hhop : Value.Renamed SameField
      (.object [("@id", .string "cites"), ("reverse", .bool true)])
      (.object [("query:reverse", .bool true), ("@id", .string "cites")]) :=
    .object (.cons (.intro (.same _) (.scalar trivial))
      (.cons (.intro (hkey "reverse" (by decide)) (.scalar trivial)) .nil)) (.swap _ _ _)
  have hitem : Value.Renamed SameField
      (.object [("propertyName", .string "citedBy"),
        ("path", .object [("@id", .string "cites"), ("reverse", .bool true)])])
      (.object [("query:path", .object [("query:reverse", .bool true), ("@id", .string "cites")]),
        ("query:propertyName", .string "citedBy")]) :=
    .object (.cons (.intro (hkey "propertyName" (by decide)) (.scalar trivial))
      (.cons (.intro (hkey "path" (by decide)) hhop) .nil)) (.swap _ _ _)
  have hrespelled : Value.Renamed SameField plain prefixed :=
    .object (.cons (.intro (.same _) hheader)
      (.cons (.intro (hkey "structure" (by decide)) (.array (.cons hitem .nil))) .nil))
      (.swap _ _ _)
  exact ⟨q, hq, (ofValue_respelled hrespelled q).mp hq⟩

end Query

end GraphQuery
