import GraphQuery.Proofs.Comparison
import GraphQuery.Proofs.Metering
import GraphQuery.Proofs.Objects

/-!
# GraphQuery.Proofs.Enumeration — traversal as the enumeration of paths

An evaluator goes from all documents that it has reached to the next ones, hop by hop. Unless order
matters, it keeps each document once per hop, and in the end each value once. The values are those
that one finds by going along each path on its own.

1. **Equality** of values is an equivalence.
2. **Repetitions** among what a list is made from are repetitions of what is made from them.
3. **Paths** are enumerated, and the values at their ends are listed.
4. **Hops** of the evaluator come to the ends of the paths.
5. **Lists** of the evaluator are those of the enumeration, at every level.
-/

namespace GraphQuery

open Json

/-! ## Equality -/

namespace Json

theorem Number.beq_self (n : Number) : (n == n) = true := by
  cases n with
  | int i => exact beq_self_eq_true i
  | double d => exact beq_self_eq_true d.key

/-- Equality of numbers is symmetric. -/
theorem Number.beq_comm (a b : Number) : (a == b) = (b == a) := by
  cases a with
  | int i =>
    cases b with
    | int j => exact BEq.comm (a := i) (b := j)
    | double _ => rfl
  | double d =>
    cases b with
    | int _ => rfl
    | double d' => exact BEq.comm (a := d.key) (b := d'.key)

theorem Number.beq_trans {a b c : Number} (hab : (a == b) = true) (hbc : (b == c) = true) :
    (a == c) = true :=
  match a, b, c, hab, hbc with
  | .int i, .int j, .int k, hab, hbc => BEq.trans (a := i) (b := j) (c := k) hab hbc
  | .double d, .double d', .double d'', hab, hbc =>
    BEq.trans (a := d.key) (b := d'.key) (c := d''.key) hab hbc

namespace Value

mutual

/-- Every value equals itself. -/
theorem same_self : (v : Value) → same v v = true
  | .null => by rw [same]
  | .bool b => by rw [same, beq_self_eq_true]
  | .number n => by rw [same, n.beq_self]
  | .string s => by rw [same, beq_self_eq_true]
  | .array items => by rw [same, sameItems_self items]
  | .object entries => by rw [same, sameEntries_self entries]

theorem sameItems_self : (items : List Value) → sameItems items items = true
  | [] => by rw [sameItems]
  | v :: rest => by rw [sameItems, same_self v, sameItems_self rest, Bool.and_self]

theorem sameEntries_self : (entries : List (String × Value)) → sameEntries entries entries = true
  | [] => by rw [sameEntries]
  | (k, v) :: rest => by
    rw [sameEntries, beq_self_eq_true, same_self v, sameEntries_self rest]
    rfl

end

mutual

/-- Equality of values is symmetric. -/
theorem same_symm {a b : Value} (h : same a b = true) : same b a = true :=
  match a, b, h with
  | .null, .null, _ => by rw [same]
  | .bool _, .bool _, h => BEq.symm h
  | .number a, .number b, h => (b.beq_comm a).trans h
  | .string _, .string _, h => BEq.symm h
  | .array _, .array _, h => sameItems_symm h
  | .object _, .object _, h => sameEntries_symm h

theorem sameItems_symm {as bs : List Value} (h : sameItems as bs = true) :
    sameItems bs as = true :=
  match as, bs, h with
  | [], [], _ => by rw [sameItems]
  | a :: as, b :: bs, h => by
    rw [sameItems, Bool.and_eq_true] at h ⊢
    exact ⟨same_symm h.1, sameItems_symm h.2⟩

theorem sameEntries_symm {as bs : List (String × Value)} (h : sameEntries as bs = true) :
    sameEntries bs as = true :=
  match as, bs, h with
  | [], [], _ => by rw [sameEntries]
  | (k, a) :: as, (l, b) :: bs, h => by
    rw [sameEntries, Bool.and_eq_true, Bool.and_eq_true] at h ⊢
    exact ⟨⟨BEq.symm h.1.1, same_symm h.1.2⟩, sameEntries_symm h.2⟩

end

mutual

/-- Equality of values is transitive. -/
theorem same_trans {a b c : Value} (hab : same a b = true) (hbc : same b c = true) :
    same a c = true :=
  match a, b, c, hab, hbc with
  | .null, .null, .null, _, _ => by rw [same]
  | .bool _, .bool _, .bool _, hab, hbc => BEq.trans hab hbc
  | .number _, .number _, .number _, hab, hbc => Number.beq_trans hab hbc
  | .string _, .string _, .string _, hab, hbc => BEq.trans hab hbc
  | .array _, .array _, .array _, hab, hbc => sameItems_trans hab hbc
  | .object _, .object _, .object _, hab, hbc => sameEntries_trans hab hbc

theorem sameItems_trans {as bs cs : List Value} (hab : sameItems as bs = true)
    (hbc : sameItems bs cs = true) : sameItems as cs = true :=
  match as, bs, cs, hab, hbc with
  | [], [], [], _, _ => by rw [sameItems]
  | a :: as, b :: bs, c :: cs, hab, hbc => by
    rw [sameItems, Bool.and_eq_true] at hab hbc ⊢
    exact ⟨same_trans hab.1 hbc.1, sameItems_trans hab.2 hbc.2⟩

theorem sameEntries_trans {as bs cs : List (String × Value)} (hab : sameEntries as bs = true)
    (hbc : sameEntries bs cs = true) : sameEntries as cs = true :=
  match as, bs, cs, hab, hbc with
  | [], [], [], _, _ => by rw [sameEntries]
  | (k, a) :: as, (l, b) :: bs, (m, c) :: cs, hab, hbc => by
    rw [sameEntries, Bool.and_eq_true, Bool.and_eq_true] at hab hbc ⊢
    exact ⟨⟨BEq.trans hab.1.1 hbc.1.1, same_trans hab.1.2 hbc.1.2⟩,
      sameEntries_trans hab.2 hbc.2⟩

end

/-- Equality of values is an equivalence. -/
instance : EquivBEq Value where
  rfl := same_self _
  symm := same_symm
  trans := same_trans

theorem beq_comm (a b : Value) : (a == b) = (b == a) :=
  Bool.eq_iff_iff.mpr ⟨same_symm, same_symm⟩

end Value

end Json

/-! ## Repetitions -/

section

variable {α β : Type} {same : α → α → Bool}

/-- What has been seen, and first occurrences of what has not. -/
def seenAfter (same : α → α → Bool) (seen xs : List α) : List α :=
  xs.foldl (fun seen x => if seen.any (same · x) then seen else seen ++ [x]) seen

/-- What has been seen grows by what is new. -/
theorem seenAfter_cons (seen : List α) (x : α) (xs : List α) : seenAfter same seen (x :: xs) =
    if seen.any (same · x) then seenAfter same seen xs else seenAfter same (seen ++ [x]) xs := by
  unfold seenAfter
  rw [List.foldl_cons, apply_ite (List.foldl _ · xs)]

/-- Lists are gone through one after the other. -/
theorem seenAfter_append (seen xs ys : List α) :
    seenAfter same seen (xs ++ ys) = seenAfter same (seenAfter same seen xs) ys :=
  List.foldl_append

/-- Nothing is added by what has been seen. -/
theorem seenAfter_eq_self {seen xs : List α} (h : ∀ x ∈ xs, seen.any (same · x) = true) :
    seenAfter same seen xs = seen := by
  induction xs with
  | nil => rfl
  | cons x rest ih =>
    rw [List.forall_mem_cons] at h
    rw [seenAfter_cons, if_pos h.1, ih h.2]

theorem mem_seenAfter {seen xs : List α} {a : α} (h : a ∈ seen) : a ∈ seenAfter same seen xs := by
  induction xs generalizing seen with
  | nil => exact h
  | cons x rest ih =>
    rw [seenAfter_cons]
    split
    · exact ih h
    · exact ih (List.mem_append_left [x] h)

/-- What one has gone through has been seen. -/
theorem any_seenAfter (hself : ∀ a, same a a = true) (seen : List α) {xs : List α} {a : α}
    (h : a ∈ xs) : (seenAfter same seen xs).any (same · a) = true := by
  induction xs generalizing seen with
  | nil => cases h
  | cons x rest ih =>
    rw [seenAfter_cons]
    rcases List.mem_cons.mp h with rfl | h
    · split
      · rename_i hseen
        obtain ⟨b, hb, hsame⟩ := List.any_eq_true.mp hseen
        exact List.any_eq_true.mpr ⟨b, mem_seenAfter hb, hsame⟩
      · exact List.any_eq_true.mpr ⟨a, mem_seenAfter (by simp), hself a⟩
    · split
      · exact ih seen h
      · exact ih (seen ++ [x]) h

/-- Leaving out repetitions before something is made of each item does not matter, if repetitions
are left out of what is made. -/
theorem firstOccurrences_flatMap {same' : β → β → Bool} (hself : ∀ b, same' b b = true)
    {f : α → List β} {xs : List α} (hf : ∀ a ∈ xs, ∀ b ∈ xs, same a b = true → f a = f b) :
    firstOccurrences same' ((firstOccurrences same xs).flatMap f) =
      firstOccurrences same' (xs.flatMap f) := by
  -- stated for what has been seen so far, and for what has been made of it
  have hseen : ∀ seen : List α, (∀ a ∈ seen, ∀ b ∈ xs, same a b = true → f a = f b) →
      seenAfter same' [] ((seenAfter same seen xs).flatMap f) =
        seenAfter same' (seenAfter same' [] (seen.flatMap f)) (xs.flatMap f) := by
    induction xs with
    | nil => exact fun _ _ => rfl
    | cons x rest ih =>
      intro seen hseen
      have hrest := ih fun a ha b hb => hf a (.tail x ha) b (.tail x hb)
      rw [seenAfter_cons, List.flatMap_cons, seenAfter_append]
      split
      · -- an item that is repeated makes nothing new
        rename_i hrepeated
        obtain ⟨a, ha, hsame⟩ := List.any_eq_true.mp hrepeated
        have hmade : seenAfter same' (seenAfter same' [] (seen.flatMap f)) (f x) =
            seenAfter same' [] (seen.flatMap f) := by
          refine seenAfter_eq_self fun b hb => any_seenAfter hself [] ?_
          rw [← hseen a ha x (by simp) hsame] at hb
          exact List.mem_flatMap.mpr ⟨a, ha, hb⟩
        rw [hmade]
        exact hrest seen fun a ha b hb => hseen a ha b (.tail x hb)
      · rw [hrest (seen ++ [x]), List.flatMap_append, List.flatMap_singleton, seenAfter_append]
        intro a ha b hb
        rcases List.mem_append.mp ha with ha | ha
        · exact hseen a ha b (.tail x hb)
        · obtain rfl := List.mem_singleton.mp ha
          exact hf a (by simp) b (.tail a hb)
  exact hseen [] (by simp)

/-- Keeping first occurrences is erasing duplicates. -/
theorem firstOccurrences_eq_eraseDups [BEq α] (hcomm : ∀ a b : α, (a == b) = (b == a))
    (xs : List α) : firstOccurrences (· == ·) xs = xs.eraseDups := by
  -- the loop behind `eraseDups` holds what has been seen in reverse
  have hloop : ∀ seen : List α, seenAfter (· == ·) seen xs =
      List.eraseDupsBy.loop (· == ·) xs seen.reverse := by
    induction xs with
    | nil =>
      intro seen
      rw [List.eraseDupsBy.loop, List.reverse_reverse]
      rfl
    | cons x rest ih =>
      intro seen
      have hany : seen.reverse.any (x == ·) = seen.any (· == x) := by
        simp only [List.any_reverse, hcomm x]
      rw [seenAfter_cons, List.eraseDupsBy.loop, hany]
      cases seen.any (· == x) with
      | true => exact ih seen
      | false =>
        rw [if_neg Bool.false_ne_true, ih, List.reverse_append]
        rfl
  exact hloop []

end

/-! ## Paths -/

/-- A list as a property has it: without repetitions unless it keeps its order, and sorted if it
asks for that. -/
def tidy (p : Property) (values : List Value) : List Value :=
  let values := if p.ensureOrder then values else values.eraseDups
  if p.sort then values.insertionSort fun a b => (a.compare b).isLE else values

/-- The value that a property makes of its list, which it may group first. -/
def shown (p : Property) (values : List Value) : Value :=
  collapse p (if p.hasGrouping then group p values else values)

namespace Evaluator

section

variable (e : Evaluator)

/-- Edges that a step follows from a document. -/
def edgesFrom (step : Step) (doc : Document) : List Edge :=
  e.data.edges.filter fun edge =>
    edge.relation = step.uri ∧ (if step.reverse then edge.target else edge.source) = doc.id

/-- Whether a document may be seen, and has one of the types that a step asks for, if any. -/
def isEnd (step : Step) (d : Document) : Bool :=
  e.plan.visible d.space d.id ∧ (step.types = [] ∨ ∃ type ∈ d.types, type ∈ step.types)

/-- Documents at the other ends of the edges, one for each edge that has an end. -/
def ends (ordered : Bool) (step : Step) (doc : Document) : List Document :=
  let edges := e.edgesFrom step doc
  let edges := if ordered then edges.insertionSort fun a b => a.order ≤ b.order else edges
  edges.filterMap fun edge =>
    (e.data.get? (if step.reverse then edge.source else edge.target)).filter (e.isEnd step)

/-- All ways to go from a document along the steps, as the documents that are passed. -/
def paths (ordered : Bool) : List Step → Document → List (List Document)
  | [], _ => [[]]
  | step :: rest, doc =>
    (e.ends ordered step doc).flatMap fun next => (paths ordered rest next).map (next :: ·)

/-- What a document at the end of a path adds to a list: its attribute, or the object of the fields
that it has on the next level, if this is accepted and not blank. -/
def endValues (p : Property) (last : Document) (fields : List (Property × Value)) : List Value :=
  match p.leafStep? with
  | some leaf => contribution (last.valueOf leaf.uri)
  | none =>
    let object := (e.assemble fields).filter fun row => ¬ row.all (·.2.isBlankField)
    (object.map Value.object).toList

mutual

/-- What a property adds to the fields of its level: an attribute of the document, or what the
values at the ends of all paths are shown as. -/
def pathField (doc : Document) : Property → List (Property × Value)
  | p@⟨_, path, children, _, _, _, _, _, _, _, _⟩ =>
    if path.isEmpty && !children.isEmpty then pathFields doc children
    else if p.isDirect then [(p, (p.leafStep?.map fun step => doc.valueOf step.uri).getD .null)]
    else
      let values := (e.paths p.ensureOrder p.edgeSteps doc).flatMap fun path =>
        let last := path.getLastD doc
        e.endValues p last (pathFields last children)
      [(p, shown p (tidy p values))]

/-- The fields of a level, from paths listed in full. -/
def pathFields (doc : Document) : List Property → List (Property × Value)
  | [] => []
  | p :: rest => pathField doc p ++ pathFields doc rest

end

/-- The values at the ends of all paths of a property. -/
def pathValues (doc : Document) (p : Property) : List Value :=
  (e.paths p.ensureOrder p.edgeSteps doc).flatMap fun path =>
    let last := path.getLastD doc
    e.endValues p last (e.pathFields last p.children)

theorem pathFields_nil (doc : Document) : e.pathFields doc [] = [] := by rw [pathFields]

/-- A merge node gives way to its children, and an attribute is read directly. -/
theorem pathFields_cons (doc : Document) (p : Property) (rest : List Property) :
    e.pathFields doc (p :: rest) =
      (if p.isMerge then e.pathFields doc p.children
      else if p.isDirect then [(p, (p.leafStep?.map fun step => doc.valueOf step.uri).getD .null)]
      else [(p, shown p (tidy p (e.pathValues doc p)))]) ++ e.pathFields doc rest := by
  cases p
  rw [pathFields, pathField]
  rfl

end

/-! ## Hops -/

section

variable (e : Evaluator)

/-- An evaluator that is left with the edges of the relations that its plan follows. -/
def narrowed : Evaluator :=
  { e with data := { e.data with
      edges := e.data.edges.filter fun edge => !e.plan.missingEdges.contains edge.relation } }

/-- Edges that a plan says are missing are left out. -/
theorem edgesFrom_narrowed (step : Step) (doc : Document) : e.narrowed.edgesFrom step doc =
    if e.plan.edgeExists step then e.edgesFrom step doc else [] := by
  rw [narrowed, edgesFrom, List.filter_filter]
  have hedge (edge : Edge) (huri : edge.relation = step.uri) :
      (!e.plan.missingEdges.contains edge.relation) = e.plan.edgeExists step := by
    rw [huri, Plan.edgeExists]
  cases hexists : e.plan.edgeExists step with
  | true =>
    refine List.filter_congr fun edge _ => ?_
    rw [Bool.and_eq_left_iff_imp, decide_eq_true_eq]
    exact fun h => (hedge edge h.1).trans hexists
  | false =>
    refine List.filter_eq_nil_iff.mpr fun edge _ => ?_
    rw [Bool.and_eq_true, decide_eq_true_eq]
    rintro ⟨h, hfollows⟩
    rw [hedge edge h.1, hexists] at hfollows
    cases hfollows

theorem isEnd_eq (step : Step) (d : Document) : e.isEnd step d =
    (e.plan.visible d.space d.id && (step.types.isEmpty || d.types.any step.types.contains)) := by
  rw [isEnd, Bool.eq_iff_iff]
  simp

/-- Neighbours are the ends of the edges that a plan knows of. -/
theorem neighbors_eq_ends (ordered : Bool) (step : Step) (doc : Document) :
    neighbors e.data e.plan step ordered doc = e.narrowed.ends ordered step doc := by
  have hsort (edges : List Edge) : edges.mergeSort (fun a b => decide (a.order ≤ b.order)) =
      edges.insertionSort fun a b => a.order ≤ b.order :=
    Sorting.mergeSort_eq_insertionSort (r := fun a b : Edge => a.order ≤ b.order)
      (fun _ _ _ => Int.le_trans) (fun a b => Int.le_total a.order b.order) edges
  have hedges : (e.data.edges.filter fun edge =>
      edge.relation == step.uri && (if step.reverse then edge.target else edge.source) = doc.id) =
        e.edgesFrom step doc := by
    rw [edgesFrom]
    exact List.filter_congr fun edge _ => by rw [Bool.decide_and, beq_eq_decide]
  unfold neighbors ends
  rw [edgesFrom_narrowed, hedges]
  cases e.plan.edgeExists step with
  | false => cases ordered <;> rfl
  | true =>
    dsimp only
    rw [hsort, Bool.not_true, if_neg Bool.false_ne_true, if_pos rfl, List.filter_filterMap]
    simp only [← isEnd_eq]
    rfl

/-- Ends of the paths that start at a document. -/
def pathEnds (ordered : Bool) (steps : List Step) (doc : Document) : List Document :=
  (e.paths ordered steps doc).map fun path => path.getLastD doc

theorem pathEnds_nil (ordered : Bool) : e.pathEnds ordered [] = fun doc => [doc] := rfl

/-- The ends of a path: from each end of its first step, those of the others. -/
theorem pathEnds_cons (ordered : Bool) (step : Step) (rest : List Step) :
    e.pathEnds ordered (step :: rest) =
      fun doc => (e.ends ordered step doc).flatMap (e.pathEnds ordered rest) := by
  funext doc
  unfold pathEnds
  rw [paths, List.map_flatMap]
  simp only [List.map_map, Function.comp_def, List.getLastD_cons]

/-- A document that has been reached is the one that is stored with its id. -/
theorem eq_of_mem_ends {ordered : Bool} {step : Step} {doc d d' : Document}
    (hd : d ∈ e.ends ordered step doc) {doc' : Document} (hd' : d' ∈ e.ends ordered step doc')
    (hid : d.id = d'.id) : d = d' := by
  have hstored {doc d : Document} (h : d ∈ e.ends ordered step doc) :
      e.data.get? d.id = some d := by
    obtain ⟨edge, -, hend⟩ := List.mem_filterMap.mp h
    have hget := (Option.filter_eq_some_iff.mp hend).1
    have hfound := List.find?_some hget
    rw [decide_eq_true_eq] at hfound
    rwa [hfound]
  have hsame := hstored hd
  rw [hid, hstored hd'] at hsame
  exact (Option.some.inj hsame).symm

/-- A step is followed from all documents at hand. -/
theorem follow_cons (ordered : Bool) (step : Step) (rest : List Step) (start : List Document) :
    follow e.data e.plan ordered (step :: rest) start =
      follow e.data e.plan ordered rest (
        let next := start.flatMap (e.narrowed.ends ordered step)
        if ordered then next else firstOccurrences (fun a b => a.id = b.id) next) := by
  have hends : neighbors e.data e.plan step ordered = e.narrowed.ends ordered step :=
    funext (e.neighbors_eq_ends ordered step)
  rw [← hends]
  rfl

/-- Where an order is kept, following a path lists its ends. -/
theorem follow_ordered (steps : List Step) (start : List Document) :
    follow e.data e.plan true steps start = start.flatMap (e.narrowed.pathEnds true steps) := by
  induction steps generalizing start with
  | nil =>
    rw [pathEnds_nil, List.flatMap_singleton']
    rfl
  | cons step rest ih =>
    rw [follow_cons, ih, if_pos rfl, List.flatMap_assoc, pathEnds_cons]

/-- Whatever is made of the documents that have been reached, the first occurrences among it are
those among what is made of the ends of all paths. -/
theorem firstOccurrences_follow {β : Type} (same : β → β → Bool) (hself : ∀ b, same b b = true)
    (f : Document → List β) (steps : List Step) (start : List Document) :
    firstOccurrences same ((follow e.data e.plan false steps start).flatMap f) =
      firstOccurrences same ((start.flatMap (e.narrowed.pathEnds false steps)).flatMap f) := by
  induction steps generalizing start with
  | nil =>
    rw [pathEnds_nil, List.flatMap_singleton']
    rfl
  | cons step rest ih =>
    rw [follow_cons, ih, if_neg Bool.false_ne_true, pathEnds_cons, ← List.flatMap_assoc,
      List.flatMap_assoc, List.flatMap_assoc]
    -- of the documents that the first hop leads to, those with one id are the same
    refine firstOccurrences_flatMap hself fun a ha b hb hid => ?_
    obtain ⟨doc, -, ha⟩ := List.mem_flatMap.mp ha
    obtain ⟨doc', -, hb⟩ := List.mem_flatMap.mp hb
    rw [e.narrowed.eq_of_mem_ends ha hb (by simpa using hid)]

end

/-! ## Lists -/

/-- The list that an evaluator forms for a property at a document, before it groups the list or
makes one value of it. -/
def listed {m : Type → Type} [Monad m] [Charges m] (e : Evaluator) (doc : Document) (p : Property) :
    m (List Value) := do
  let targets := follow e.data e.plan p.ensureOrder p.edgeSteps [doc]
  let values ← match p.leafStep? with
    | some leaf => pure (targets.flatMap fun d => contribution (d.valueOf leaf.uri))
    | none => do
      let objects ← targets.mapM fun d => buildFields e d [] p.children
      pure (objects.filterMap fun object =>
        object.bind fun row =>
          if row.all (·.2.isBlankField) then none else some (.object row))
  return settle p values

/-- Where a property is no attribute of the document at hand, its value is made of its list. -/
theorem buildValue_eq_listed {m : Type → Type} [Monad m] [LawfulMonad m] [Charges m] (e : Evaluator)
    (doc : Document) {p : Property} (h : p.isDirect = false) :
    buildValue e doc p = (do
      let values ← listed e doc p
      let values := if p.hasGrouping then group p values else values
      Charges.charge (.array values)
      return collapse p values : m Value) := by
  rw [buildValue_eq, h, if_neg Bool.false_ne_true, listed]
  cases p.leafStep? <;> simp only [bind_assoc, pure_bind, arrange]

end Evaluator

/-- Listing values is kept by relations that steps keep. -/
theorem StepRelation.listed {m n : Type → Type} [Monad m] [Charges m] [Monad n] [Charges n]
    {R : (α : Type) → m α → n α → Prop} (h : StepRelation R) (e : Evaluator) (doc : Document)
    (p : Property) : R (List Value) (e.listed doc p) (e.listed doc p) := by
  unfold Evaluator.listed
  dsimp only
  split
  · exact h.bind (h.pure _) fun values => h.pure _
  · exact h.bind (h.mapM (fun d => h.buildFields e d [] p.children) _) fun objects =>
      h.bind (h.pure _) fun values => h.pure _

namespace Evaluator

section

variable (e : Evaluator)

/-- Settling a list is tidying it. -/
theorem settle_eq_tidy (p : Property) (values : List Value) : settle p values = tidy p values := by
  unfold settle tidy
  rw [firstOccurrences_eq_eraseDups Value.beq_comm]
  simp only [sortBy_eq_insertionSort]

/-- Whether hops keep each document once or not, the list is that of all paths. -/
theorem settle_follow (p : Property) (doc : Document) (f : Document → List Value) :
    settle p ((follow e.data e.plan p.ensureOrder p.edgeSteps [doc]).flatMap f) =
      settle p ((e.narrowed.pathEnds p.ensureOrder p.edgeSteps doc).flatMap f) := by
  unfold settle
  cases p.ensureOrder with
  | true => rw [follow_ordered, List.flatMap_singleton]
  | false =>
    dsimp only
    rw [if_neg Bool.false_ne_true, if_neg Bool.false_ne_true,
      e.firstOccurrences_follow (· == ·) beq_self_eq_true f p.edgeSteps [doc],
      List.flatMap_singleton]

/-- The values listed for a property are those at the ends of its paths, tidied. -/
theorem value_listed {p : Property}
    (hfields : ∀ d, fieldValues e d p.children = e.narrowed.pathFields d p.children)
    (doc : Document) : (listed e doc p : Weighed (List Value)).value =
      tidy p (e.narrowed.pathValues doc p) := by
  have hends : (listed e doc p : Weighed (List Value)).value =
      settle p ((follow e.data e.plan p.ensureOrder p.edgeSteps [doc]).flatMap fun d =>
        e.narrowed.endValues p d (e.narrowed.pathFields d p.children)) := by
    unfold listed endValues
    cases p.leafStep? with
    | some leaf => rfl
    | none =>
      dsimp only
      rw [Weighed.value_bind, Weighed.value_mapM]
      change settle p (List.filterMap _ (List.map (fun d => (objectFields e d [] _).value) _)) = _
      rw [List.filterMap_map, List.filterMap_eq_flatMap_toList]
      congr 2
      funext d
      -- an object is accepted or refused alike, as edges do not matter for that
      have hassemble : e.assemble = e.narrowed.assemble := rfl
      rw [Function.comp_apply, value_objectFields, hfields, hassemble]
      cases e.narrowed.assemble (e.narrowed.pathFields d p.children) with
      | none => rfl
      | some row =>
        rw [Option.bind_some, Option.filter_some]
        cases row.all fun f => f.2.isBlankField <;> rfl
  rw [hends, settle_follow, settle_eq_tidy, pathValues, pathEnds, List.flatMap_map]

/-- The fields of a level are those from the paths, by induction on the properties. -/
theorem fieldValues_eq_pathFields (ps : List Property) (doc : Document) :
    fieldValues e doc ps = e.narrowed.pathFields doc ps := by
  induction ps using Property.forest_induction generalizing doc with
  | nil => rw [fieldValues_nil, pathFields_nil]
  | cons p rest ihchildren ihrest =>
    rw [fieldValues_cons, pathFields_cons, ihrest, ihchildren]
    congr 2
    cases hdirect : p.isDirect with
    | true =>
      rw [if_pos rfl, propertyValue_eq, if_pos hdirect]
      rfl
    | false =>
      rw [if_neg Bool.false_ne_true, propertyValue, buildValue_eq_listed e doc hdirect,
        Weighed.value_bind, value_listed e ihchildren]
      rfl

end

end Evaluator

namespace Library

/-- A document that has a name. -/
def titled (n : BitVec 128) (name : String) : Document :=
  ⟨⟨n⟩, "library", [], none, [("name", .string name)]⟩

/-- A survey with several authors. -/
def survey : Document := titled 1 "On Trees"

/-- A paper that cites two others, which are by the same person. -/
def coauthored : StageData :=
  { documents := [survey, titled 2 "On Forests", titled 3 "On Woods", titled 4 "Ada"]
    edges := [⟨⟨1⟩, ⟨2⟩, "cites", 0⟩, ⟨⟨1⟩, ⟨3⟩, "cites", 1⟩, ⟨⟨2⟩, ⟨4⟩, "author", 0⟩,
      ⟨⟨3⟩, ⟨4⟩, "author", 0⟩] }

/-- The authors of the papers that a paper cites. -/
def influences (ordered : Bool) : Property :=
  let name : Property :=
    ⟨"name", [⟨"name", false, []⟩], [], true, false, false, false, none, none, none, 1⟩
  ⟨"influences", [⟨"cites", false, []⟩, ⟨"author", false, []⟩], [name], false, false, false,
    ordered, none, none, none, 0⟩

/-- The evaluation of its authors. -/
def reading : Evaluator :=
  ⟨coauthored, Plan.build ⟨[influences false], none, "Paper", none⟩ (Request.ofStage .inProgress),
    []⟩

end Library

/-- The rows of a plan are the accepted objects of its roots, found by going along each path on its
own, in the order of their sorted fields. -/
theorem evaluate_eq_enumeration (data : StageData) (plan : Plan) : evaluate data plan none = do
    let e : Evaluator := ⟨data, plan, ← plan.patterns⟩
    let roots := (Evaluator.candidates data plan.root).filter e.admitsRoot
    let rows := roots.filterMap fun doc =>
      e.assemble (e.narrowed.pathFields doc plan.spec.properties)
    return rows.insertionSort fun a b => (compareFields (Evaluator.sortKeys plan) a b).isLE := by
  rw [evaluate_eq]
  congr 1
  funext patterns
  dsimp only
  rw [Evaluator.value_rows, Evaluator.value_unsortedRows, sortBy_eq_insertionSort]
  simp only [Evaluator.value_objectFields, Evaluator.fieldValues_eq_pathFields]

end GraphQuery
