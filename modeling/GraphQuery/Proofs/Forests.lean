import GraphQuery.Proofs.Membership
import GraphQuery.Scope.Element
import Mathlib.Data.List.Nodup

/-!
# GraphQuery.Proofs.Forests — lists of trees of instances

1. **Induction** over a list of trees: the children of the first tree, then the other trees.
2. **Elements** of a list of trees, and their **own data**: all but the children.
3. **Ids** of a list of trees, and the **places** where they stand: the ids above them.
4. **Relabelling** changes the own data of elements, but not where they stand.
-/

namespace GraphQuery

namespace Element

/-! ## Induction -/

mutual

/-- Induction over the children of an element. -/
theorem childList_induction {P : List Element → Prop} (nil : P [])
    (cons : ∀ e rest, P e.childList → P rest → P (e :: rest)) : ∀ e : Element, P e.childList
  | ⟨_, _, _, none, _, _⟩ => nil
  | ⟨_, _, _, some children, _, _⟩ => forest_induction nil cons children

/-- What holds of no trees, and of trees if it holds of the children of the first one and of the
others, holds of all lists of trees. -/
theorem forest_induction {P : List Element → Prop} (nil : P [])
    (cons : ∀ e rest, P e.childList → P rest → P (e :: rest)) : ∀ es, P es
  | [] => nil
  | e :: rest =>
    cons e rest (childList_induction nil cons e) (forest_induction nil cons rest)

end

/-! ## Elements -/

/-- No children and an empty list of them make no difference. -/
@[simp]
theorem childList_unlessEmpty (id : Uuid) (types : List String) (label : Option String)
    (cs : List Element) (reference space : Option String) :
    childList ⟨id, types, label, unlessEmpty cs, reference, space⟩ = cs := by
  cases cs <;> rfl

/-- Added children follow those that are there. -/
@[simp]
theorem childList_addChildren (e : Element) (cs : List Element) :
    (e.addChildren cs).childList = e.childList ++ cs := by
  cases cs with
  | nil => simp [addChildren]
  | cons c rest => simp [addChildren, childList]

/-- A tree is its element, then the trees of the children. -/
theorem subtree_eq (e : Element) : e.subtree = e :: subtrees e.childList := by
  rcases e with ⟨_, _, _, _ | _, _, _⟩ <;> simp [subtree, childList, subtrees]

@[simp]
theorem subtrees_nil : subtrees [] = [] := rfl

@[simp]
theorem subtrees_cons (e : Element) (rest : List Element) :
    subtrees (e :: rest) = e :: (subtrees e.childList ++ subtrees rest) := by
  rw [subtrees, subtree_eq, List.cons_append]

theorem subtrees_singleton (e : Element) : subtrees [e] = e.subtree := by
  rw [subtrees, subtrees_nil, List.append_nil]

@[simp]
theorem subtrees_append (as bs : List Element) :
    subtrees (as ++ bs) = subtrees as ++ subtrees bs := by
  induction as with
  | nil => rfl
  | cons a rest ih => simp [ih]

theorem mem_subtree_self (e : Element) : e ∈ e.subtree := by
  rw [subtree_eq]
  exact .head _

theorem mem_subtrees_of_mem {e : Element} {es : List Element} (h : e ∈ es) : e ∈ subtrees es := by
  induction es with
  | nil => cases h
  | cons d rest ih =>
    rcases List.mem_cons.mp h with rfl | h
    · simp
    · simp [ih h]

/-- The children of an element of trees are elements of them. -/
theorem mem_subtrees_childList {e x : Element} {es : List Element} (he : e ∈ subtrees es)
    (hx : x ∈ subtrees e.childList) : x ∈ subtrees es := by
  induction es using forest_induction with
  | nil => cases he
  | cons d rest below others =>
    simp only [subtrees_cons, List.mem_cons, List.mem_append] at he ⊢
    rcases he with rfl | he | he
    · exact .inr (.inl hx)
    · exact .inr (.inl (below he))
    · exact .inr (.inr (others he))

/-- An element of trees is one of their roots, or below one. -/
theorem mem_subtrees {x : Element} {es : List Element} :
    x ∈ subtrees es ↔ ∃ e ∈ es, x = e ∨ x ∈ subtrees e.childList := by
  induction es with
  | nil => simp
  | cons d rest ih => simp [ih, or_assoc]

theorem mem_subtrees_flatMap {α : Type} {f : α → List Element} {xs : List α} {e : Element} :
    e ∈ subtrees (xs.flatMap f) ↔ ∃ x ∈ xs, e ∈ subtrees (f x) := by
  induction xs with
  | nil => simp
  | cons x rest ih => simp [ih]

/-- An element without what stands below it. -/
def bare (e : Element) : Element := { e with children := none }

@[simp]
theorem bare_id (e : Element) : e.bare.id = e.id := rfl

@[simp]
theorem bare_types (e : Element) : e.bare.types = e.types := rfl

@[simp]
theorem bare_space (e : Element) : e.bare.space = e.space := rfl

/-- Own data do not change with what is below. -/
@[simp]
theorem bare_addChildren (e : Element) (cs : List Element) : (e.addChildren cs).bare = e.bare := by
  unfold addChildren
  split <;> rfl

/-- The property is one of the own data of elements. -/
def OfOwnData (P : Element → Prop) : Prop := ∀ a b : Element, a.bare = b.bare → P a → P b

/-- No element has an empty list in the place of its children. -/
def Tidy (es : List Element) : Prop := ∀ e ∈ subtrees es, e.children ≠ some []

/-- A list of children that is made from found ones is not empty. -/
theorem unlessEmpty_ne (cs : List Element) : unlessEmpty cs ≠ some [] := by
  cases cs <;> simp [unlessEmpty]

/-! ## Ids and places -/

/-- Ids of the elements of trees in pre-order. -/
def idsIn (es : List Element) : List Uuid := (subtrees es).map id

@[simp]
theorem idsIn_nil : idsIn [] = [] := rfl

/-- The ids in a forest are those of the first tree, then those of the rest. -/
@[simp]
theorem idsIn_cons (e : Element) (rest : List Element) :
    idsIn (e :: rest) = e.id :: (idsIn e.childList ++ idsIn rest) := by
  simp [idsIn]

@[simp]
theorem idsIn_append (as bs : List Element) : idsIn (as ++ bs) = idsIn as ++ idsIn bs := by
  simp [idsIn]

/-- The set of ids holds the ids of all elements. -/
theorem mem_ids {u : Uuid} {e : Element} : u ∈ e.ids ↔ u ∈ e.subtree.map id := by
  rw [ids, Uuid.mem_setOf]

/-- `Place es above u`: the id `u` stands in the trees `es`, with the ids `above` over it, the
topmost first. -/
inductive Place : List Element → List Uuid → Uuid → Prop
  | top {es : List Element} {e : Element} : e ∈ es → Place es [] e.id
  | under {es : List Element} {e : Element} {above : List Uuid} {u : Uuid} :
      e ∈ es → Place e.childList above u → Place es (e.id :: above) u

namespace Place

variable {es fs : List Element} {above : List Uuid} {u v : Uuid}

/-- A place at the top is that of a root. -/
theorem top_iff : Place es [] u ↔ ∃ e ∈ es, e.id = u := by
  constructor
  · rintro (⟨he⟩ | _)
    exact ⟨_, he, rfl⟩
  · rintro ⟨e, he, rfl⟩
    exact .top he

/-- A place below an id is one among the children of a root with this id. -/
theorem under_iff : Place es (v :: above) u ↔ ∃ e ∈ es, e.id = v ∧ Place e.childList above u := by
  constructor
  · rintro (_ | ⟨he, h⟩)
    exact ⟨_, he, rfl, h⟩
  · rintro ⟨e, he, rfl, h⟩
    exact .under he h

/-- More trees have more places. -/
theorem mono (hsub : ∀ e ∈ es, e ∈ fs) (h : Place es above u) : Place fs above u := by
  cases h with
  | top he => exact .top (hsub _ he)
  | under he h => exact .under (hsub _ he) h

/-- A place in two forests is one in either of them. -/
theorem append_iff : Place (es ++ fs) above u ↔ Place es above u ∨ Place fs above u := by
  constructor
  · intro h
    cases h with
    | top he =>
      rcases List.mem_append.mp he with he | he
      · exact .inl (.top he)
      · exact .inr (.top he)
    | under he h =>
      rcases List.mem_append.mp he with he | he
      · exact .inl (.under he h)
      · exact .inr (.under he h)
  · rintro (h | h)
    · exact h.mono fun _ he => List.mem_append_left fs he
    · exact h.mono fun _ he => List.mem_append_right es he

/-- The places in one tree: at the top, or below its id. -/
theorem singleton_iff {e : Element} :
    Place [e] above u ↔
      (above = [] ∧ u = e.id) ∨ ∃ rest, above = e.id :: rest ∧ Place e.childList rest u := by
  cases above with
  | nil => simp [top_iff, eq_comm]
  | cons v rest => simp [under_iff, eq_comm]

theorem cons_iff {e : Element} :
    Place (e :: es) above u ↔ Place [e] above u ∨ Place es above u := by
  rw [← List.singleton_append, append_iff]

theorem flatMap_iff {α : Type} {xs : List α} {f : α → List Element} :
    Place (xs.flatMap f) above u ↔ ∃ x ∈ xs, Place (f x) above u := by
  induction xs with
  | nil =>
    constructor
    · intro h
      cases h with
      | top he => cases he
      | under he => cases he
    · rintro ⟨x, hx, -⟩
      cases hx
  | cons x rest ih => simp [append_iff, ih]

/-- Ids of trees are those that stand somewhere in them. -/
theorem mem_idsIn : u ∈ idsIn es ↔ ∃ above, Place es above u := by
  constructor
  · intro h
    induction es using forest_induction with
    | nil => cases h
    | cons e rest below others =>
      simp only [idsIn_cons, List.mem_cons, List.mem_append] at h
      rcases h with rfl | h | h
      · exact ⟨[], .top (.head _)⟩
      · rcases below h with ⟨above, h⟩
        exact ⟨e.id :: above, .under (.head _) h⟩
      · rcases others h with ⟨above, h⟩
        exact ⟨above, h.mono fun _ he => .tail _ he⟩
  · rintro ⟨above, h⟩
    induction h with
    | top he => exact List.mem_map_of_mem (mem_subtrees_of_mem he)
    | under he _ ih =>
      rcases List.mem_map.mp ih with ⟨x, hx, rfl⟩
      exact List.mem_map_of_mem (mem_subtrees_childList (mem_subtrees_of_mem he) hx)

/-- The ids over a place have places of their own. -/
theorem of_append {pre post : List Uuid} (h : Place es (pre ++ v :: post) u) : Place es pre v := by
  induction pre generalizing es with
  | nil =>
    rcases under_iff.mp h with ⟨e, he, rfl, -⟩
    exact .top he
  | cons w pre ih =>
    rcases under_iff.mp h with ⟨e, he, rfl, hbelow⟩
    exact .under he (ih hbelow)

end Place

mutual

/-- All places of trees: the ids above, and the id that stands there. -/
def places : List Element → List (List Uuid × Uuid)
  | [] => []
  | e :: rest =>
    ([], e.id) :: (placesBelow e).map (fun (above, u) => (e.id :: above, u)) ++ places rest

/-- The places below the id of an element, each with the ids above it. -/
def placesBelow : Element → List (List Uuid × Uuid)
  | ⟨_, _, _, none, _, _⟩ => []
  | ⟨_, _, _, some children, _, _⟩ => places children

end

/-- They are the places among its children. -/
theorem placesBelow_eq (e : Element) : placesBelow e = places e.childList := by
  rcases e with ⟨_, _, _, _ | _, _, _⟩ <;> simp [placesBelow, childList, places]

/-- All places are listed. -/
theorem mem_places {es : List Element} {above : List Uuid} {u : Uuid} :
    (above, u) ∈ places es ↔ Place es above u := by
  induction es using forest_induction generalizing above with
  | nil =>
    constructor
    · intro h
      cases h
    · intro h
      cases Place.mem_idsIn.mpr ⟨above, h⟩
  | cons e rest below others =>
    rw [places, placesBelow_eq, Place.cons_iff, Place.singleton_iff, List.mem_append, others,
      List.mem_cons, Prod.mk.injEq]
    refine or_congr (or_congr Iff.rfl ?_) Iff.rfl
    rw [List.mem_map]
    constructor
    · rintro ⟨⟨above, v⟩, hplace, heq⟩
      cases heq
      exact ⟨above, rfl, below.mp hplace⟩
    · rintro ⟨above, rfl, hplace⟩
      exact ⟨(above, u), below.mpr hplace, rfl⟩

instance (es : List Element) (above : List Uuid) (u : Uuid) : Decidable (Place es above u) :=
  decidable_of_iff _ mem_places

/-! ## Relabelling -/

variable {f : Element → Element}

theorem mapEach_eq (es : List Element) : mapEach f es = es.map (mapAll f) := by
  induction es with
  | nil => rfl
  | cons e rest ih => rw [mapEach, ih, List.map_cons]

/-- An element is changed with its own data only. -/
theorem bare_mapAll (e : Element) : (e.mapAll f).bare = (f e).bare := by
  rcases e with ⟨_, _, _, _ | _, _, _⟩ <;> rfl

/-- To change each element keeps the children in place. -/
theorem childList_mapAll (hf : ∀ e, (f e).children = e.children) (e : Element) :
    (e.mapAll f).childList = e.childList.map (mapAll f) := by
  rcases e with ⟨id, types, label, _ | cs, reference, space⟩
  · simp [mapAll, childList, hf]
  · simp [mapAll, childList, mapEach_eq]

/-- The elements of changed trees are those of the trees, changed, if no children are added or
dropped. -/
theorem subtrees_map (hf : ∀ e, (f e).children = e.children) (es : List Element) :
    subtrees (es.map (mapAll f)) = (subtrees es).map (mapAll f) := by
  induction es using forest_induction with
  | nil => rfl
  | cons e rest below others => simp [childList_mapAll hf, below, others]

end Element

end GraphQuery
