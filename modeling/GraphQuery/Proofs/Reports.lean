import GraphQuery.Proofs.Agreement
import GraphQuery.Proofs.Merging
import GraphQuery.Scope

/-!
# GraphQuery.Proofs.Reports — what result rows report

1. **Rows** and the rows in their dependency columns.
2. **Reports**: the ids that stand below a row, and what stands over each of them. Said row by row,
   without trees.
3. **Repetitions** among the elements below a row leave nothing out.
4. **Elements** of rows hold exactly what the rows report.
5. **Own data** of elements are those of the rows that report them.
-/

namespace GraphQuery

open Json

/-! ## Rows -/

namespace Json

/-- The row that a value is, or the rows in a list. -/
def Value.rows : Value → List Row
  | .object row => [row]
  | .array items => items.filterMap asObject?
  | _ => []

/-- The rows in the dependency columns of a row. -/
def Row.dependencies (row : Row) : List Row :=
  row.flatMap fun (key, v) => if Text.startsWith key dependencyMark then v.rows else []

/-- `row.Holds nested`: the row itself, or one in its dependency columns, at any depth. -/
inductive Row.Holds : Row → Row → Prop
  | self {row : Row} : Row.Holds row row
  | inside {row nested x : Row} : nested ∈ row.dependencies → Row.Holds nested x → Row.Holds row x

theorem Value.sizeOf_lt_of_mem_rows {v : Value} {row : Row} (h : row ∈ v.rows) :
    sizeOf row < sizeOf v := by
  cases v with
  | object entries =>
    rw [List.mem_singleton.mp h]
    simp
  | array items =>
    rcases List.mem_filterMap.mp h with ⟨item, hitem, hrow⟩
    have hlt := List.sizeOf_lt_of_mem hitem
    cases item with
    | object entries =>
      cases hrow
      simp only [Value.object.sizeOf_spec, Value.array.sizeOf_spec] at hlt ⊢
      omega
    | _ => cases hrow
  | _ => cases h

theorem Row.sizeOf_lt_of_mem_dependencies {row nested : Row} (h : nested ∈ row.dependencies) :
    sizeOf nested < sizeOf row := by
  rcases List.mem_flatMap.mp h with ⟨⟨key, v⟩, hentry, hnested⟩
  have hlt := List.sizeOf_lt_of_mem hentry
  dsimp only at hnested
  split at hnested
  · have hrow := Value.sizeOf_lt_of_mem_rows hnested
    simp only [Prod.mk.sizeOf_spec] at hlt
    omega
  · cases hnested

end Json

/-! ## Reports -/

namespace RowReading

/-- Whether a nested row counts: it is not embedded and has no type of the instance whose rows are
read. -/
structure Admits (r : RowReading) (row : Row) : Prop where
  embedded : row.isEmbedded = false
  types : row.typeList.any r.rootTypes.contains = false

/-- `r.Reports row above u`: below the row, a row reports the id `u`, and the ids `above` are those
of the rows between, the topmost first. Rows that do not count are not looked into; of rows that are
left out only what they hold counts. -/
inductive Reports (r : RowReading) : Row → List Uuid → Uuid → Prop
  | here {row nested : Row} {u : Uuid} : nested ∈ row.dependencies → r.Admits nested →
      r.isLeftOut nested.typeList = false → nested.reportedId? = some u → Reports r row [] u
  | deeper {row nested : Row} {v u : Uuid} {above : List Uuid} : nested ∈ row.dependencies →
      r.Admits nested → r.isLeftOut nested.typeList = false → nested.reportedId? = some v →
      Reports r nested above u → Reports r row (v :: above) u
  | hoisted {row nested : Row} {u : Uuid} {above : List Uuid} : nested ∈ row.dependencies →
      r.Admits nested → r.isLeftOut nested.typeList = true →
      Reports r nested above u → Reports r row above u

end RowReading

/-! ## Repetitions -/

namespace Element

theorem eq_of_sameAll {es ds : List Element} (h : sameAll es ds = true) : es = ds := by
  induction es using forest_induction generalizing ds with
  | nil =>
    cases ds with
    | nil => rfl
    | cons d ds => cases h
  | cons e rest below others =>
    cases ds with
    | nil => cases h
    | cons d ds =>
      rcases e with ⟨id, types, label, children, reference, space⟩
      rcases d with ⟨id', types', label', children', reference', space'⟩
      simp only [sameAll, same, Bool.and_eq_true, decide_eq_true_eq, beq_iff_eq] at h
      rcases h with ⟨⟨⟨⟨⟨⟨rfl, rfl⟩, rfl⟩, hchildren⟩, rfl⟩, rfl⟩, hrest⟩
      have heq : children = children' := by
        cases children <;> cases children'
        · rfl
        · cases hchildren
        · cases hchildren
        · exact congrArg some (below hchildren)
      rw [heq, others hrest]

theorem eq_of_beq {e d : Element} (h : (e == d) = true) : e = d := by
  have hall : sameAll [e] [d] = true := by
    rw [sameAll, sameAll, Bool.and_true]
    exact h
  exact (List.cons.inj (eq_of_sameAll hall)).1

theorem mem_firstOccurrences {e : Element} {es : List Element} :
    e ∈ firstOccurrences (· == ·) es ↔ e ∈ es := by
  refine ⟨mem_of_mem_firstOccurrences, fun h => ?_⟩
  -- stated for any elements seen so far, as the fold goes on from them
  have hfold : ∀ (es seen : List Element), e ∈ seen ∨ e ∈ es →
      e ∈ es.foldl (fun seen x => if seen.any (· == x) then seen else seen ++ [x]) seen := by
    intro es
    induction es with
    | nil => simp
    | cons d rest ih =>
      intro seen h
      apply ih
      rw [List.mem_cons, ← or_assoc] at h
      refine h.imp_left fun h => ?_
      dsimp only
      split
      · rename_i hseen
        rcases h with h | rfl
        · exact h
        · -- an element that is not added is among those seen
          rcases List.any_eq_true.mp hseen with ⟨x, hx, heq⟩
          rwa [← eq_of_beq heq]
      · simpa using h
  exact hfold es [] (.inr h)

theorem place_firstOccurrences {es : List Element} {above : List Uuid} {u : Uuid} :
    Place (firstOccurrences (· == ·) es) above u ↔ Place es above u :=
  ⟨fun h => h.mono fun _ => mem_firstOccurrences.mp,
    fun h => h.mono fun _ => mem_firstOccurrences.mpr⟩

end Element

/-! ## Elements -/

namespace RowReading

variable {r : RowReading} {row : Row} {above : List Uuid} {u : Uuid}

/-- Reading a row is reading the rows in its dependency columns. -/
theorem dependencies_eq (row : Row) : r.dependencies row =
    row.dependencies.flatMap fun nested => r.elements false nested (r.dependencies nested) := by
  have hvalue (v : Value) : r.nested v =
      v.rows.flatMap fun nested => r.elements false nested (r.dependencies nested) := by
    cases v with
    | array items =>
      rw [nested, Value.rows]
      induction items with
      | nil => rfl
      | cons item rest ih =>
        rw [List.filterMap_cons]
        cases item <;> simp [nestedItems, asObject?, ih]
    | _ => simp [nested, Value.rows]
  induction row with
  | nil => rfl
  | cons entry rest ih =>
    rcases entry with ⟨key, v⟩
    rw [dependencies, ih, Row.dependencies, Row.dependencies, List.flatMap_cons,
      List.flatMap_append]
    congr 1
    dsimp only
    split
    · exact hvalue v
    · rfl

theorem place_element {id : Uuid} {cs : List Element} :
    Element.Place [(row.element id).addChildren cs] above u ↔
      (above = [] ∧ u = id) ∨ ∃ rest, above = id :: rest ∧ Element.Place cs rest u := by
  have hid : ((row.element id).addChildren cs).id = id :=
    congrArg Element.id (Element.bare_addChildren (row.element id) cs)
  have hchildren : ((row.element id).addChildren cs).childList = cs := by
    rw [Element.childList_addChildren]
    rfl
  rw [Element.Place.singleton_iff, hid, hchildren]

/-- A nested row that counts stands for its instance, with what is below it, or, if it is left out,
for what is below it alone. -/
theorem place_nested {below : List Element} :
    Element.Place (r.elements false row below) above u ↔ r.Admits row ∧
      ((r.isLeftOut row.typeList = true ∧ Element.Place below above u) ∨
        (r.isLeftOut row.typeList = false ∧ ∃ v, row.reportedId? = some v ∧
          ((above = [] ∧ u = v) ∨ ∃ rest, above = v :: rest ∧ Element.Place below rest u))) := by
  have hadmits : r.Admits row ↔
      row.isEmbedded = false ∧ row.typeList.any r.rootTypes.contains = false :=
    ⟨fun h => ⟨h.embedded, h.types⟩, fun h => ⟨h.1, h.2⟩⟩
  have hnil : ¬ Element.Place [] above u := fun h =>
    nomatch Element.Place.mem_idsIn.mpr ⟨above, h⟩
  rw [hadmits, elements]
  cases hembedded : row.isEmbedded with
  | true => simp [hnil]
  | false =>
    cases htypes : row.typeList.any r.rootTypes.contains with
    | true => simp [hnil]
    | false =>
      cases hleft : r.isLeftOut row.typeList with
      | true => simp [Element.place_firstOccurrences]
      | false =>
        cases hid : row.reportedId? with
        | none => simp [hnil]
        | some v => simp [place_element, Element.place_firstOccurrences]

/-- The trees below a row hold what the row reports, where it reports it. -/
theorem place_dependencies :
    Element.Place (r.dependencies row) above u ↔ r.Reports row above u := by
  constructor
  · -- nested rows are smaller
    induction hsize : sizeOf row using Nat.strongRecOn generalizing row above with
    | _ n ih =>
      intro h
      rw [dependencies_eq, Element.Place.flatMap_iff] at h
      rcases h with ⟨nested, hnested, h⟩
      have hlt := Row.sizeOf_lt_of_mem_dependencies hnested
      rcases place_nested.mp h with
        ⟨hadmits, ⟨hleft, hbelow⟩ | ⟨hleft, v, hid, ⟨rfl, rfl⟩ | ⟨rest, rfl, hbelow⟩⟩⟩
      · exact .hoisted hnested hadmits hleft (ih _ (hsize ▸ hlt) rfl hbelow)
      · exact .here hnested hadmits hleft hid
      · exact .deeper hnested hadmits hleft hid (ih _ (hsize ▸ hlt) rfl hbelow)
  · intro h
    induction h with
    | here hnested hadmits hleft hid =>
      rw [dependencies_eq, Element.Place.flatMap_iff]
      exact ⟨_, hnested, place_nested.mpr ⟨hadmits, .inr ⟨hleft, _, hid, .inl ⟨rfl, rfl⟩⟩⟩⟩
    | deeper hnested hadmits hleft hid _ ih =>
      rw [dependencies_eq, Element.Place.flatMap_iff]
      exact ⟨_, hnested, place_nested.mpr ⟨hadmits, .inr ⟨hleft, _, hid, .inr ⟨_, rfl, ih⟩⟩⟩⟩
    | hoisted hnested hadmits hleft _ ih =>
      rw [dependencies_eq, Element.Place.flatMap_iff]
      exact ⟨_, hnested, place_nested.mpr ⟨hadmits, .inl ⟨hleft, ih⟩⟩⟩

/-- The tree of a result row holds below its instance what the row reports. Nothing is below it if
the row is embedded or left out. -/
theorem place_ofTopRow {id : Uuid} : Element.Place (r.ofTopRow row) (id :: above) u ↔
    row.isEmbedded = false ∧ r.isLeftOut row.typeList = false ∧ row.reportedId? = some id ∧
      r.Reports row above u := by
  have hnil (above : List Uuid) : ¬ Element.Place [] above u := fun h =>
    nomatch Element.Place.mem_idsIn.mpr ⟨above, h⟩
  rw [ofTopRow, elements]
  cases hembedded : row.isEmbedded with
  | true => simp [hnil]
  | false =>
    cases hid : row.reportedId? with
    | none => simp [hnil]
    | some v =>
      cases hleft : r.isLeftOut row.typeList with
      | true => simp [place_element, hnil]
      | false =>
        simp only [Bool.not_true, Bool.false_and, Bool.true_and, Bool.false_eq_true, if_false,
          place_element, Element.place_firstOccurrences, place_dependencies, Option.some.injEq,
          List.cons.injEq, reduceCtorEq, false_and, false_or, true_and]
        constructor
        · rintro ⟨rest, ⟨rfl, rfl⟩, h⟩
          exact ⟨rfl, h⟩
        · rintro ⟨rfl, h⟩
          exact ⟨above, ⟨rfl, rfl⟩, h⟩

/-! ## Own data -/

/-- An element of a row stands for the row's instance, over those below, unless the row is left out
and those below take its place. -/
theorem mem_elements {isTop : Bool} {below : List Element} {d : Element}
    (h : d ∈ r.elements isTop row below) : (isTop = false ∧ d ∈ below) ∨
      ((∃ id, row.reportedId? = some id ∧ d.bare = row.element id) ∧
        (isTop = false → r.isLeftOut row.typeList = false) ∧ ∀ e ∈ d.childList, e ∈ below) := by
  have hchildren (e : Element) (he : e ∈ if (isTop && r.isLeftOut row.typeList) = true then [] else
      firstOccurrences (· == ·) below) : e ∈ below := by
    split at he
    · cases he
    · exact Element.mem_firstOccurrences.mp he
  unfold elements at h
  dsimp only at h
  split at h
  · cases h
  · split at h
    · cases h
    · split at h
      · rename_i hleft
        exact .inl ⟨by simpa using (Bool.and_eq_true_iff.mp hleft).1, hchildren d h⟩
      · rename_i hkept
        split at h
        · cases h
        · rename_i id hid
          rw [List.mem_singleton.mp h]
          refine .inr ⟨⟨id, hid, Element.bare_addChildren _ _⟩, fun htop => ?_, fun e he => ?_⟩
          · simpa [htop] using hkept
          · rw [Element.childList_addChildren] at he
            exact hchildren e he

/-- What stands in the trees of a row is the row's instance, or stands below it. -/
theorem mem_subtrees_elements {isTop : Bool} {below : List Element} {x : Element}
    (h : x ∈ Element.subtrees (r.elements isTop row below)) :
    ((∃ id, row.reportedId? = some id ∧ x.bare = row.element id) ∧
      (isTop = false → r.isLeftOut row.typeList = false)) ∨ x ∈ Element.subtrees below := by
  rcases Element.mem_subtrees.mp h with ⟨d, hd, hx⟩
  rcases mem_elements hd with ⟨-, hbelow⟩ | ⟨hid, hkept, hbelow⟩
  · exact .inr (Element.mem_subtrees.mpr ⟨d, hbelow, hx⟩)
  · rcases hx with rfl | hx
    · exact .inl ⟨hid, hkept⟩
    · rcases Element.mem_subtrees.mp hx with ⟨e, he, hx⟩
      exact .inr (Element.mem_subtrees.mpr ⟨e, hbelow e he, hx⟩)

/-- Below a row stand elements of rows in it that are not left out. -/
theorem exists_row_of_mem_dependencies {x : Element}
    (h : x ∈ Element.subtrees (r.dependencies row)) : ∃ nested, row.Holds nested ∧
      (∃ id, nested.reportedId? = some id ∧ x.bare = nested.element id) ∧
        r.isLeftOut nested.typeList = false := by
  -- nested rows are smaller
  induction hsize : sizeOf row using Nat.strongRecOn generalizing row with
  | _ n ih =>
    rw [dependencies_eq, Element.mem_subtrees_flatMap] at h
    rcases h with ⟨nested, hnested, h⟩
    have hlt := Row.sizeOf_lt_of_mem_dependencies hnested
    rcases mem_subtrees_elements h with ⟨hid, hkept⟩ | h
    · exact ⟨nested, .inside hnested .self, hid, hkept rfl⟩
    · rcases ih _ (hsize ▸ hlt) h rfl with ⟨x, hholds, hid⟩
      exact ⟨x, .inside hnested hholds, hid⟩

/-- The own data of an element are those of a row, at any depth, that reports it. -/
theorem exists_row_of_mem {x : Element} (h : x ∈ Element.subtrees (r.ofTopRow row)) :
    ∃ nested, row.Holds nested ∧
      ∃ id, nested.reportedId? = some id ∧ x.bare = nested.element id := by
  rcases mem_subtrees_elements h with ⟨hid, -⟩ | h
  · exact ⟨row, .self, hid⟩
  · rcases exists_row_of_mem_dependencies h with ⟨nested, hholds, hid, -⟩
    exact ⟨nested, hholds, hid⟩

end RowReading

end GraphQuery
