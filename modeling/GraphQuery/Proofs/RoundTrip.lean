import GraphQuery.Proofs.Records
import GraphQuery.Query.Decode
import GraphQuery.Query.Encode

/-!
# GraphQuery.Proofs.RoundTrip — a query that is written can be read again

Alternatives are tried one after the other where a query is read: a list before a single element, a
bare reference before an object. What is written must therefore not be caught by an earlier one. A
single element is written as a string or as an object, so it is never taken for a list, and no value
that is there is written as an absent one.

1. **References, lists and filters**
2. **Paths**
3. **Items**, by recursion on the tree.
4. **Header and query**
5. **Canonical forms**: what is read from a written query is that query.
-/

namespace GraphQuery

open Json

variable {arrange : Value → Value} (ha : Value.Arranges arrange)

/-! ## References, lists and filters -/

section
include ha

/-- A reference is read as it was written. -/
theorem Reference.ofValue?_toValue (r : Reference) : ofValue? (arrange r.toValue) = some r := by
  cases r with
  | bare uri =>
    rw [toValue, ha.string]
    rfl
  | object uri =>
    obtain ⟨arranged, hobject, hperm⟩ := ha.object [("@id", .string uri)]
    have harranged := List.perm_singleton.mp (hperm (by simp))
    rw [toValue, hobject, harranged]
    simp [ofValue?, ha.string]

/-- An element that is never written as a list is read back alone and in lists. -/
theorem OneOrMany.ofValue?_toValue {α : Type} {read? : Value → Option α} {write : α → Value}
    (hread : ∀ a, read? (arrange (write a)) = some a) (hsingle : ∀ a, (write a).IsSingle)
    (x : OneOrMany α) : ofValue? read? (arrange (x.toValue write)) = some x := by
  cases x with
  | many items =>
    have hitems : (items.map fun a => arrange (write a)).mapM read? = some items := by
      induction items with
      | nil => rfl
      | cons a rest ih => rw [List.map_cons, List.mapM_cons, hread, ih]; rfl
    rw [toValue, ha.array, List.map_map]
    unfold ofValue?
    dsimp only [Function.comp_def]
    rw [hitems]
  | one a =>
    have hlone := ((hsingle a).arrange ha).ne_array
    rw [toValue]
    unfold ofValue?
    split
    · rename_i items heq
      exact absurd heq (hlone items)
    · rw [hread]
      rfl

end

/-- An optional field is read as it was written, if nothing is written as `null`. -/
theorem field?_written {α : Type} {read? : Value → Option α} {write : α → Value}
    (hread : ∀ a, read? (arrange (write a)) = some a) (hnull : ∀ a, arrange (write a) ≠ .null)
    (o : Option α) : field? read? ((o.map write).map arrange) = some o := by
  cases o with
  | none => rfl
  | some a =>
    rw [Option.map_some, Option.map_some]
    unfold field? optional?
    dsimp only
    split
    · rename_i heq
      exact absurd heq (hnull a)
    · rw [hread]
      rfl

/-- Likewise, if the field is there. -/
theorem readOptional_written {α : Type} {read : Value → Read α} {write : α → Value}
    (hread : ∀ a, read (arrange (write a)) = .ok a) (hnull : ∀ a, arrange (write a) ≠ .null)
    {o : Option α} {v : Value} (hv : o.map write = some v) :
    readOptional read (arrange v) = .ok o := by
  obtain ⟨a, rfl, rfl⟩ := Option.map_eq_some_iff.mp hv
  unfold readOptional
  split
  · rename_i heq
    exact absurd heq (hnull a)
  · rw [hread]
    rfl

theorem readOptional_text (ha : Value.Arranges arrange) {o : Option String} {v : Value}
    (hv : o.map .string = some v) : readOptional readText (arrange v) = .ok o :=
  readOptional_written (fun s => by rw [ha.string]; rfl)
    (fun s => by rw [ha.string]; exact nofun) hv

/-- A reference is written as no list. -/
theorem Reference.isSingle_toValue (r : Reference) : r.toValue.IsSingle := by
  cases r with
  | bare uri => exact .inl ⟨uri, rfl⟩
  | object uri => exact .inr ⟨_, rfl⟩

/-- Neither a list nor a single element is written as an absent value. -/
theorem OneOrMany.toValue_ne_null (ha : Value.Arranges arrange) {α : Type} {write : α → Value}
    (hsingle : ∀ a, (write a).IsSingle) (x : OneOrMany α) : arrange (x.toValue write) ≠ .null := by
  cases x with
  | many items =>
    rw [toValue, ha.array]
    exact nofun
  | one a => exact ((hsingle a).arrange ha).ne_null

/-- A name is read as what it names. -/
theorem readVariant_name {α : Type} {known : List α} {name : α → String} {a : α}
    (h : known.find? (name · == name a) = some a) :
    readVariant known name (.string (name a)) = .ok a := by
  unfold readVariant
  dsimp only
  rw [h]

/-- The fields of filters have keys of their own. -/
theorem filterForm_proper : filterForm.Proper where
  nodup := by decide
  complete := fun f => by cases f <;> decide
  fieldOf?_label := fun f => by cases f <;> decide

namespace ValueFilter

/-- The fields of a filter that are written. -/
def written (f : ValueFilter) : FilterField → Option Value
  | .op => some (.string f.op.name)
  | .parameter => f.parameter.map .string
  | .value => f.operand.map .string

/-- A filter is written as the record of its fields. -/
theorem toValue_eq (f : ValueFilter) : f.toValue = .object (filterForm.write f.written) := by
  rcases f with ⟨op, _ | parameter, _ | operand⟩ <;> rfl

theorem isSingle_toValue (f : ValueFilter) : f.toValue.IsSingle := .inr ⟨_, rfl⟩

/-- Sets a field to what it is in `f`. -/
def put (f : ValueFilter) (d : FilterDraft) : FilterField → FilterDraft
  | .op => { d with op := some f.op }
  | .parameter => { d with parameter := f.parameter }
  | .value => { d with operand := f.operand }

/-- A filter is read as it was written. -/
theorem read_toValue (ha : Value.Arranges arrange) (f : ValueFilter) :
    read (arrange f.toValue) = .ok f := by
  have hname : FilterOp.all.find? (FilterOp.name · == f.op.name) = some f.op := by
    cases f.op <;> decide
  rw [toValue_eq]
  unfold read
  dsimp only
  rw [filterForm_proper.read_write ha f.written f.put]
  · rcases f with ⟨op, _ | parameter, _ | operand⟩ <;> rfl
  · intro d field v hv
    cases field with
    | op =>
      cases hv
      rw [ha.string]
      dsimp only
      rw [readVariant_name hname]
      rfl
    | parameter =>
      dsimp only
      rw [readOptional_text ha hv]
      rfl
    | value =>
      dsimp only
      rw [readOptional_text ha hv]
      rfl
  · intro d field field'
    cases field <;> cases field' <;> rfl

end ValueFilter

/-! ## Paths -/

/-- The fields of steps have keys of their own. -/
theorem hopForm_proper : hopForm.Proper where
  nodup := by decide
  complete := fun f => by cases f <;> decide
  fieldOf?_label := fun f => by cases f <;> decide

namespace Hop

/-- The fields of a step that are written. -/
def written (h : Hop) : HopField → Option Value
  | .uri => some (.string h.uri)
  | .reverse => some (.bool h.reverse)
  | .typeFilter => h.types.map (OneOrMany.toValue Reference.toValue)

/-- A step with options is written as the record of its fields. -/
theorem toValue_eq (h : Hop) : h.toValue = .object (hopForm.write h.written) := by
  rcases h with ⟨uri, reverse, _ | types⟩ <;> rfl

/-- A step with options is read as it was written. -/
theorem ofValue?_toValue (ha : Value.Arranges arrange) (h : Hop) :
    ofValue? (arrange h.toValue) = some h := by
  have htypes : field? (OneOrMany.ofValue? Reference.ofValue?)
      ((h.types.map (OneOrMany.toValue Reference.toValue)).map arrange) = some h.types :=
    field?_written
      (OneOrMany.ofValue?_toValue ha (Reference.ofValue?_toValue ha) Reference.isSingle_toValue)
      (OneOrMany.toValue_ne_null ha Reference.isSingle_toValue) h.types
  rw [toValue_eq]
  unfold ofValue?
  rw [hopForm_proper.fields?_write ha h.written]
  simp only [written, Option.map_some, ha.string, ha.bool, bind, Option.bind, Value.asString?,
    flag?, htypes]
  rfl

end Hop

namespace PathStep

theorem isSingle_toValue (s : PathStep) : s.toValue.IsSingle := by
  cases s with
  | bare uri => exact .inl ⟨uri, rfl⟩
  | hop h => exact .inr ⟨_, rfl⟩

/-- A step is read as it was written. -/
theorem ofValue?_toValue (ha : Value.Arranges arrange) (s : PathStep) :
    ofValue? (arrange s.toValue) = some s := by
  cases s with
  | bare uri =>
    rw [toValue, ha.string]
    rfl
  | hop h =>
    -- a hop is an object, so it is not read as a bare uri
    obtain ⟨arranged, hobject, -⟩ := hopForm_proper.exists_arranged ha h.written
    have hread := Hop.ofValue?_toValue ha h
    rw [Hop.toValue_eq, hobject] at hread
    rw [toValue, Hop.toValue_eq, hobject]
    unfold ofValue?
    dsimp only
    rw [hread]
    rfl

end PathStep

/-! ## Items -/

/-- The fields of items have keys of their own. -/
theorem itemForm_proper : itemForm.Proper where
  nodup := by decide
  complete := fun f => by cases f <;> decide
  fieldOf?_label := fun f => by cases f <;> decide

namespace Item

/-- The children of an item, as the value of its field. -/
def childrenValue : OneOrMany Item → Value
  | .one child => toValue child
  | .many children => .array (toValues children)

/-- The fields of an item that are written. -/
def written (i : Item) : ItemField → Option Value
  | .propertyName => some i.propertyName.toValue
  | .path => i.path.map (OneOrMany.toValue PathStep.toValue)
  | .items => i.children.map childrenValue
  | .required => some (.bool i.required)
  | .sort => some (.bool i.sort)
  | .groupBy => some (.bool i.groupBy)
  | .groupedInstances => i.groupedInstances.map .string
  | .ensureOrder => some (.bool i.ensureOrder)
  | .filter => i.filter.map ValueFilter.toValue
  | .singleValue => i.collapse.map fun c => .string c.name

theorem childEntries_eq (children : Option (OneOrMany Item)) :
    childEntries children = entryOf "structure" childrenValue children := by
  rcases children with _ | _ | _ <;> rw [childEntries] <;> rfl

/-- An item is written as the record of its fields. -/
theorem toValue_eq (i : Item) : i.toValue = .object (itemForm.write i.written) := by
  rcases i with ⟨name, path, children, required, sort, groupBy, grouped, order, filter, collapse⟩
  rw [toValue, childEntries_eq]
  cases path <;> cases children <;> cases grouped <;> cases filter <;> cases collapse <;> rfl

/-- The fields of an item are read back, if its children were. -/
theorem assemble?_toValue (ha : Value.Arranges arrange) (i : Item) :
    assemble? (arrange i.toValue) (some i.children) = some i := by
  have hpath : field? pathOfValue?
      ((i.path.map (OneOrMany.toValue PathStep.toValue)).map arrange) = some i.path :=
    field?_written
      (OneOrMany.ofValue?_toValue ha (PathStep.ofValue?_toValue ha) PathStep.isSingle_toValue)
      (OneOrMany.toValue_ne_null ha PathStep.isSingle_toValue) i.path
  have hgrouped : field? Value.asString? ((i.groupedInstances.map Value.string).map arrange) =
      some i.groupedInstances :=
    field?_written (fun s => by rw [ha.string]; rfl) (fun s => by rw [ha.string]; exact nofun) _
  have hfilter : field? (fun v => (ValueFilter.read v).toOption)
      ((i.filter.map ValueFilter.toValue).map arrange) = some i.filter :=
    field?_written (fun f => by rw [ValueFilter.read_toValue ha]; rfl)
      (fun f => (f.isSingle_toValue.arrange ha).ne_null) _
  have hcollapse : field? (fun v => (readVariant Collapse.all Collapse.name v).toOption)
      ((i.collapse.map fun c => Value.string c.name).map arrange) = some i.collapse :=
    field?_written
      (fun c => by
        have hname : Collapse.all.find? (Collapse.name · == c.name) = some c := by
          cases c <;> decide
        rw [ha.string, readVariant_name hname]
        rfl)
      (fun c => by rw [ha.string]; exact nofun) _
  rw [toValue_eq]
  unfold assemble?
  rw [itemForm_proper.fields?_write ha i.written]
  simp only [written, Option.map_some, ha.bool, bind, Option.bind, flag?, hpath, hgrouped, hfilter,
    hcollapse, Reference.ofValue?_toValue ha]
  cases i
  rfl

/-- The children are read from the entry that is named for them. -/
theorem childrenIn?_eq (entries : List (String × Value)) : childrenIn? entries =
    match (itemForm.named entries).lookup .items with
    | none => some none
    | some v => children? v := by
  induction entries with
  | nil => rw [childrenIn?]; rfl
  | cons entry rest ih =>
    rcases entry with ⟨key, v⟩
    rw [childrenIn?]
    cases hf : itemForm.fieldOf? key with
    | none =>
      rw [if_neg nofun, RecordForm.named_cons_of_none hf, ih]
    | some f =>
      rw [RecordForm.named_cons_of_some hf]
      by_cases hitems : f = .items
      · subst hitems
        rw [if_pos rfl]
        simp
      · rw [if_neg fun h => hitems (Option.some.inj h), List.lookup_cons,
          beq_false_of_ne fun h => hitems h.symm, ih]

/-- An item is read back with its children, if these are. -/
theorem ofValue?_of_children (ha : Value.Arranges arrange) (i : Item)
    (h : ∀ children, i.children = some children →
      children? (arrange (childrenValue children)) = some (some children)) :
    ofValue? (arrange i.toValue) = some i := by
  obtain ⟨arranged, hobject, hperm⟩ := itemForm_proper.exists_arranged ha i.written
  have hitem := assemble?_toValue ha i
  have hchildren : childrenIn? arranged = some i.children := by
    rw [childrenIn?_eq, itemForm_proper.lookup_named hperm]
    change (match (i.children.map childrenValue).map arrange with
      | none => some none
      | some v => children? v) = _
    cases hi : i.children with
    | none => rfl
    | some children => exact h children hi
  rw [toValue_eq, hobject] at hitem ⊢
  rw [ofValue?, hchildren]
  exact hitem

mutual

/-- Items are read back at every depth. -/
theorem ofValue?_toValue (ha : Value.Arranges arrange) :
    ∀ i : Item, ofValue? (arrange i.toValue) = some i
  | ⟨_, _, children, _, _, _, _, _, _, _⟩ =>
    ofValue?_of_children ha _ (children?_childrenValue ha children)

/-- The children of an item are read as they were written. -/
theorem children?_childrenValue (ha : Value.Arranges arrange) :
    ∀ (o : Option (OneOrMany Item)) (children : OneOrMany Item), o = some children →
      children? (arrange (childrenValue children)) = some (some children)
  | some (.one child), _, rfl => by
    -- a lone child is an object, so it is not tried as a list
    have hread := ofValue?_toValue ha child
    obtain ⟨arranged, hobject, -⟩ := itemForm_proper.exists_arranged ha child.written
    rw [childrenValue, toValue_eq, hobject, children?]
    rw [toValue_eq, hobject, ofValue?] at hread
    rw [hread]
    rfl
  | some (.many items), _, rfl => by
    rw [childrenValue, ha.array, children?, listOf?_toValues ha items]

/-- A list of items is read as it was written. -/
theorem listOf?_toValues (ha : Value.Arranges arrange) :
    ∀ is : List Item, listOf? ((toValues is).map arrange) = some is
  | [] => by
    rw [toValues, List.map_nil, listOf?]
  | i :: rest => by
    rw [toValues, List.map_cons, listOf?, ofValue?_toValue ha i, listOf?_toValues ha rest]
    rfl

end

end Item

/-! ## Header and query -/

/-- The reference in a header is read as it was written. -/
theorem Reference.read_toValue (ha : Value.Arranges arrange) (r : Reference) :
    Reference.read (arrange r.toValue) = .ok r := by
  unfold Reference.read
  rw [ofValue?_toValue ha]

/-- The fields of headers have keys of their own. -/
theorem headerForm_proper : headerForm.Proper where
  nodup := by decide
  complete := fun f => by cases f <;> decide
  fieldOf?_label := fun f => by cases f <;> decide

namespace Header

/-- The fields of a header that are written. -/
def written (h : Header) : HeaderField → Option Value
  | .type => h.rootType.map Reference.toValue
  | .responseVocab => h.vocabulary.map .string
  | .filter => h.filter.map ValueFilter.toValue
  | .name => h.title.map .string

theorem toValue_eq (h : Header) : h.toValue = .object (headerForm.write h.written) := by
  rcases h with ⟨_ | type, _ | vocabulary, _ | filter, _ | title⟩ <;> rfl

theorem isSingle_toValue (h : Header) : h.toValue.IsSingle := .inr ⟨_, rfl⟩

/-- Sets a field to what it is in `h`. -/
def put (h d : Header) : HeaderField → Header
  | .type => { d with rootType := h.rootType }
  | .responseVocab => { d with vocabulary := h.vocabulary }
  | .filter => { d with filter := h.filter }
  | .name => { d with title := h.title }

/-- A header is read as it was written. -/
theorem read_toValue (ha : Value.Arranges arrange) (h : Header) :
    read (arrange h.toValue) = .ok h := by
  rw [toValue_eq]
  unfold read
  dsimp only
  rw [headerForm_proper.read_write ha h.written h.put]
  · rcases h with ⟨_ | type, _ | vocabulary, _ | filter, _ | title⟩ <;> rfl
  · intro d field v hv
    cases field with
    | type =>
      dsimp only
      rw [readOptional_written (Reference.read_toValue ha)
        (fun r => (r.isSingle_toValue.arrange ha).ne_null) hv]
      rfl
    | responseVocab =>
      dsimp only
      rw [readOptional_text ha hv]
      rfl
    | filter =>
      dsimp only
      rw [readOptional_written (ValueFilter.read_toValue ha)
        (fun f => (f.isSingle_toValue.arrange ha).ne_null) hv]
      rfl
    | name =>
      dsimp only
      rw [readOptional_text ha hv]
      rfl
  · intro d field field'
    cases field <;> cases field' <;> rfl

end Header

/-- The fields of queries have keys of their own. -/
theorem queryForm_proper : queryForm.Proper where
  nodup := by decide
  complete := fun f => by cases f <;> decide
  fieldOf?_label := fun f => by cases f <;> decide

namespace Query

/-- The fields of a query that are written. -/
def written (q : Query) : QueryField → Option Value
  | .header => q.header.map Header.toValue
  | .items => q.structured.map Item.childrenValue

theorem toValue_eq (q : Query) : q.toValue = .object (queryForm.write q.written) := by
  rcases q with ⟨header, structured⟩
  unfold toValue
  rw [Item.childEntries_eq]
  cases header <;> cases structured <;> rfl

/-- Sets a field to what it is in `q`. -/
def put (q d : Query) : QueryField → Query
  | .header => { d with header := q.header }
  | .items => { d with structured := q.structured }

/-- A query is read as it was written. -/
theorem read_toValue (ha : Value.Arranges arrange) (q : Query) :
    read (arrange q.toValue) = .ok q := by
  rw [toValue_eq]
  unfold read
  dsimp only
  rw [queryForm_proper.read_write ha q.written q.put]
  · rcases q with ⟨_ | header, _ | structured⟩ <;> rfl
  · intro d field v hv
    cases field with
    | header =>
      dsimp only
      rw [readOptional_written (Header.read_toValue ha)
        (fun h => (h.isSingle_toValue.arrange ha).ne_null) hv]
      rfl
    | items =>
      obtain ⟨items, hitems, rfl⟩ := Option.map_eq_some_iff.mp hv
      dsimp only
      rw [Item.children?_childrenValue ha (some items) items rfl]
      simp [put, hitems]
  · intro d field field'
    cases field <;> cases field' <;> rfl

/-! ## Canonical forms -/

/-- An accepted query is complete. -/
theorem check_of_ofValue {payload : Value} {q : Query} (h : ofValue payload = .ok q) :
    q.check = .ok () := by
  unfold ofValue at h
  split at h
  · rename_i entry rest
    cases hread : (Query.read (.object (entry :: rest))).mapError QueryFault.malformed with
    | error fault =>
      rw [hread] at h
      cases h
    | ok read =>
      rw [hread] at h
      cases hcheck : read.check with
      | error fault =>
        simp only [bind, Except.bind, hcheck] at h
        cases h
      | ok _ =>
        simp only [bind, Except.bind, hcheck] at h
        cases h
        exact hcheck
  · cases h

/-- A complete query is read back from what is written for it. -/
theorem ofValue_arrange (ha : Value.Arranges arrange) {q : Query} (hcheck : q.check = .ok ()) :
    ofValue (arrange q.toValue) = .ok q := by
  have hread := q.read_toValue ha
  obtain ⟨arranged, hobject, -⟩ := queryForm_proper.exists_arranged ha q.written
  rw [toValue_eq, hobject] at hread ⊢
  cases arranged with
  | nil =>
    -- a query of which nothing is written is not complete
    cases hread
    cases hcheck
  | cons entry rest =>
    unfold ofValue
    dsimp only
    rw [hread]
    simp only [Except.mapError, bind, Except.bind, hcheck]
    rfl

/-- Queries that are written alike are the same. -/
theorem toValue_injective (ha : Value.Arranges arrange) {q q' : Query}
    (h : arrange q.toValue = arrange q'.toValue) : q = q' := by
  have hread := q.read_toValue ha
  rw [h, q'.read_toValue ha] at hread
  exact (Except.ok.inj hread).symm

/-- Reading undoes writing. Whatever payload a query was read from, what is written for it is read
as the same query, with its keys in order as well as in the order of its fields. Writing what was
read changes nothing any more, and only the query itself is written in this way. -/
theorem ofValue_written {payload : Value} {q : Query} (h : ofValue payload = .ok q) :
    ofValue q.toValue.sorted = .ok q ∧ ofValue q.toValue = .ok q ∧
    (∀ q', ofValue q.toValue.sorted = .ok q' → q'.toValue.sorted = q.toValue.sorted) ∧
    ∀ q' : Query, q'.toValue.sorted = q.toValue.sorted → q' = q := by
  have hcheck := check_of_ofValue h
  have hsorted := ofValue_arrange Value.arranges_sorted hcheck
  refine ⟨hsorted, ofValue_arrange Value.arranges_id hcheck, ?_, fun q' heq => ?_⟩
  · intro q' hq'
    cases hsorted.symm.trans hq'
    rfl
  · exact toValue_injective Value.arranges_sorted heq

/-- A query with its header, its filter, its only item and the only step of that item written as
arrays, a reference as an object, and prefixed keys. -/
def mixed : Value := .object [
  ("query:meta", .array [.object [("@id", .string "Paper")], .null,
    .array [.string "CONTAINS", .null, .string "graph"]]),
  ("structure", .array [.string "citedBy", .array [.string "cites", .bool true],
    .object [("query:propertyName", .object [("@id", .string "title")]), ("path", .string "name"),
      ("query:singleValue", .object [("FIRST", .null)])]])]

/-- What is written for it. -/
def tidied : Value := .object [
  ("meta", .object [
    ("filter", .object [("op", .string "CONTAINS"), ("value", .string "graph")]),
    ("type", .object [("@id", .string "Paper")])]),
  ("structure", .object [
    ("ensureOrder", .bool false), ("groupBy", .bool false),
    ("path", .object [("@id", .string "cites"), ("reverse", .bool true)]),
    ("propertyName", .string "citedBy"), ("required", .bool false), ("sort", .bool false),
    ("structure", .object [
      ("ensureOrder", .bool false), ("groupBy", .bool false), ("path", .string "name"),
      ("propertyName", .object [("@id", .string "title")]), ("required", .bool false),
      ("singleValue", .string "FIRST"), ("sort", .bool false)])])]

theorem ofValue_written_mixed : ∃ q, ofValue mixed = .ok q ∧ q.toValue.sorted = tidied ∧
    ofValue tidied = .ok q ∧ ∀ q' : Query, q'.toValue.sorted = tidied → q' = q := by
  obtain ⟨q, hq⟩ : ∃ q, ofValue mixed = .ok q := ⟨_, rfl⟩
  have htidied : q.toValue.sorted = tidied := by
    cases hq
    rfl
  obtain ⟨hread, -, -, honly⟩ := ofValue_written hq
  rw [htidied] at hread honly
  exact ⟨q, hq, htidied, hread, honly⟩

end Query

end GraphQuery
