import GraphQuery.Proofs.Levels

/-!
# GraphQuery.Proofs.Objects — how the objects of an evaluation are built

1. **Weighing** one thing after the other is a monad with its laws.
2. **Values** of a property at a document.
3. **Fields** of one part of a level after the other. Merge nodes stand for their children.
4. **Levels**: an object has all fields of its level. Whether they are admitted could as well be
   asked in the end.
5. **Rows** are the objects of the roots.
-/

namespace GraphQuery

open Json

/-! ## Weighing -/

namespace Weighed

instance : LawfulMonad Weighed := LawfulMonad.mk' _
  (fun _ => rfl)
  (fun x f => by simp [bind, pure])
  (fun x f g => by simp only [bind, Nat.add_assoc])

variable {α β : Type}

/-- What is bound is evaluated from the value, whatever it weighs. -/
theorem value_bind (x : Weighed α) (f : α → Weighed β) : (x >>= f).value = (f x.value).value := rfl

theorem value_mapM (f : α → Weighed β) (xs : List α) :
    (xs.mapM f).value = xs.map fun x => (f x).value := by
  induction xs with
  | nil => rfl
  | cons x rest ih =>
    rw [List.mapM_cons, value_bind, value_bind, ih]
    rfl

end Weighed

namespace Evaluator

variable (e : Evaluator) (doc : Document)

/-! ## Values -/

/-- A value is read at once, or assembled from the path's ends. -/
theorem buildValue_eq {m : Type → Type} [Monad m] [Charges m] (p : Property) :
    buildValue e doc p = (
      if p.isDirect then
        pure ((p.leafStep?.map fun step => doc.valueOf step.uri).getD .null)
      else do
        let targets := follow e.data e.plan p.ensureOrder p.edgeSteps [doc]
        let values ← match p.leafStep? with
          | some leaf => pure (targets.flatMap fun d => contribution (d.valueOf leaf.uri))
          | none => do
            let objects ← targets.mapM fun d => buildFields e d [] p.children
            pure (objects.filterMap fun object =>
              object.bind fun row =>
                if row.all (·.2.isBlankField) then none else some (.object row))
        let values := arrange p values
        Charges.charge (.array values)
        return collapse p values : m Value) := by
  cases p
  unfold buildValue
  rfl

/-- The value of a property, weighed: it is read at once, or assembled from the path's ends. -/
theorem propertyValue_eq (p : Property) : propertyValue e doc p =
    if p.isDirect then
      pure ((p.leafStep?.map fun step => doc.valueOf step.uri).getD .null)
    else do
      let targets := follow e.data e.plan p.ensureOrder p.edgeSteps [doc]
      let values ← match p.leafStep? with
        | some leaf => pure (targets.flatMap fun d => contribution (d.valueOf leaf.uri))
        | none => do
          let objects ← targets.mapM fun d => objectFields e d [] p.children
          pure (objects.filterMap fun object =>
            object.bind fun row =>
              if row.all (·.2.isBlankField) then none else some (.object row))
      let values := arrange p values
      Weighed.charge (.array values)
      return collapse p values := by
  rw [propertyValue, buildValue_eq]
  rfl

/-! ## Fields -/

theorem objectFields_nil (row : Row) : objectFields e doc row [] = pure (some row) := by
  rw [objectFields, buildFields]

/-- The fields of a level: a merge node puts its children's fields into the row, and goes on. -/
theorem objectFields_cons (row : Row) (p : Property) (rest : List Property) :
    objectFields e doc row (p :: rest) =
      if p.isMerge then do
        match ← objectFields e doc row p.children with
        | some row => objectFields e doc row rest
        | none => return none
      else do
        let v ← propertyValue e doc p
        if e.admits p v then objectFields e doc (row.insert p.key v) rest
        else return none := by
  cases p
  rw [objectFields, buildFields]
  rfl

/-- A field that is admitted goes into the row, and one that is not ends the row. -/
theorem objectFields_field {p : Property} (h : p.isMerge = false) (row : Row)
    (rest : List Property) : objectFields e doc row (p :: rest) = do
      let v ← propertyValue e doc p
      if e.admits p v then objectFields e doc (row.insert p.key v) rest
      else return none := by
  rw [objectFields_cons, h]
  rfl

/-- The fields of two levels are those of the one and then those of the other. -/
theorem objectFields_append (row : Row) (ps qs : List Property) :
    objectFields e doc row (ps ++ qs) = do
      match ← objectFields e doc row ps with
      | some row => objectFields e doc row qs
      | none => return none := by
  induction ps generalizing row with
  | nil =>
    rw [List.nil_append, objectFields_nil, pure_bind]
  | cons p rest ih =>
    rw [List.cons_append, objectFields_cons, objectFields_cons]
    split
    · rw [bind_assoc]
      congr 1
      funext row?
      cases row? with
      | none => rfl
      | some row => exact ih row
    · rw [bind_assoc]
      congr 1
      funext v
      split
      · exact ih _
      · rfl

/-- Merge nodes stand for their children. -/
theorem objectFields_merge {p : Property} (h : p.isMerge = true) (row : Row)
    (rest : List Property) :
    objectFields e doc row (p :: rest) = objectFields e doc row (p.children ++ rest) := by
  rw [objectFields_cons, if_pos h, objectFields_append]

/-! ## Levels -/

/-- The properties of a level with their values at a document. -/
def fieldValues (ps : List Property) : List (Property × Value) :=
  (Property.level ps).map fun p => (p, (propertyValue e doc p).value)

theorem fieldValues_nil : fieldValues e doc [] = [] := by
  rw [fieldValues, Property.level_nil, List.map_nil]

/-- The values of a level, in which merge nodes give way to their children. -/
theorem fieldValues_cons (p : Property) (rest : List Property) :
    fieldValues e doc (p :: rest) =
      (if p.isMerge then fieldValues e doc p.children else [(p, (propertyValue e doc p).value)]) ++
        fieldValues e doc rest := by
  unfold fieldValues
  rw [Property.level_cons, List.map_append]
  split <;> rfl

/-- The object that is made of fields, if all of them are admitted. -/
def assemble (fields : List (Property × Value)) : Option Row :=
  if fields.all fun f => e.admits f.1 f.2 then
    some (Dictionary.ofEntries (fields.map fun f => (f.1.key, f.2)))
  else none

/-- An object ends with the first field that is refused; those before it change nothing. -/
theorem value_objectFields (ps : List Property) :
    (objectFields e doc [] ps).value = e.assemble (fieldValues e doc ps) := by
  -- stated for the fields that are added to any object
  have hadded : ∀ row : Row, (objectFields e doc row ps).value =
      if (fieldValues e doc ps).all (fun f => e.admits f.1 f.2) then
        some ((fieldValues e doc ps).foldl (fun row f => row.insert f.1.key f.2) row)
      else none := by
    induction ps using Property.forest_induction with
    | nil =>
      intro row
      rw [objectFields_nil, fieldValues_nil]
      rfl
    | cons p rest ihchildren ihrest =>
      intro row
      rw [fieldValues_cons, List.all_append, List.foldl_append]
      cases hmerge : p.isMerge with
      | true =>
        rw [objectFields_cons, hmerge, if_pos rfl, if_pos rfl, Weighed.value_bind, ihchildren row]
        cases (fieldValues e doc p.children).all fun f => e.admits f.1 f.2 with
        | true => exact ihrest _
        | false => rfl
      | false =>
        rw [objectFields_field e doc hmerge, if_neg Bool.false_ne_true, Weighed.value_bind,
          List.all_cons, List.all_nil, Bool.and_true]
        cases e.admits p (propertyValue e doc p).value with
        | true => exact ihrest _
        | false => rfl
  rw [hadded, assemble, Dictionary.ofEntries, List.foldl_map]

/-! ## Rows -/

/-- The rows come from the roots that are admitted, in their order. -/
theorem unsortedRows_eq : unsortedRows e = do
    let roots := (candidates e.data e.plan.root).filter e.admitsRoot
    let rows ← roots.mapM fun doc => do
      match ← objectFields e doc [] e.plan.spec.properties with
      | some row =>
        Weighed.charge (.object row)
        return some row
      | none => return none
    return rows.filterMap id := rfl

theorem rows_eq : rows e = do
    return sortBy (compareFields (sortKeys e.plan)) (← unsortedRows e) := rfl

/-- The rows are sorted by the keys of the plan. -/
theorem value_rows : (rows e).value =
    sortBy (compareFields (sortKeys e.plan)) (unsortedRows e).value := rfl

/-- The rows are the objects of the roots, as far as these have one. -/
theorem value_unsortedRows : (unsortedRows e).value =
    ((candidates e.data e.plan.root).filter e.admitsRoot).filterMap fun doc =>
      (objectFields e doc [] e.plan.spec.properties).value := by
  rw [unsortedRows_eq, Weighed.value_bind, Weighed.value_mapM]
  change List.filterMap id (List.map _ _) = _
  rw [List.filterMap_map]
  refine List.filterMap_congr fun doc _ => ?_
  dsimp only [Function.comp_apply, id]
  rw [Weighed.value_bind]
  cases (objectFields e doc [] e.plan.spec.properties).value <;> rfl

end Evaluator

end GraphQuery
