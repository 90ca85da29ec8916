import GraphQuery.Proofs.Membership
import GraphQuery.Query.Namespaces
import Mathlib.Data.List.Forall2
import Mathlib.Data.List.TakeWhile
import Mathlib.Data.Option.Basic
import Mathlib.Data.String.Basic

/-!
# GraphQuery.Proofs.Abbreviations — short forms for the namespaces of a query

Namespaces may lie one within another, and a uri continues all those that it lies in. Its own
namespace, which ends at its last slash, is the longest of them.

1. **Namespaces**: a uri is its namespace, a slash, and a name without any.
2. **Uris**: of the namespaces with a short form that a uri continues, the shortest counts.
3. **Rewriting** gives all uris of a query related ones, and changes nothing else.
4. **Queries** are rewritten by their short forms.
-/

namespace GraphQuery

/-! ## Namespaces -/

/-- The last mark divides a text, and does not stand after the border. -/
theorem Text.eq_of_beforeLast? {mark : Char} {s before : String}
    (h : beforeLast? mark s = some before) :
    s.toList = before.toList ++ mark :: (afterLast mark s).toList ∧
      mark ∉ (afterLast mark s).toList := by
  unfold beforeLast? at h
  unfold afterLast
  rw [String.toList_ofList]
  have hname : ∀ c ∈ s.toList.reverse.takeWhile (· != mark), c ≠ mark := by
    intro c hc
    simpa using List.mem_takeWhile_imp hc
  refine ⟨?_, fun hmem => hname mark (List.mem_reverse.mp hmem) rfl⟩
  split at h
  · cases h
  · rename_i c rest hdrop
    cases h
    obtain rfl : c = mark := by
      have hhead := List.head?_dropWhile_not (· != mark) s.toList.reverse
      rw [hdrop] at hhead
      simpa using hhead
    rw [String.toList_ofList, ← List.reverse_inj, List.reverse_append, List.reverse_cons,
      List.reverse_reverse, List.reverse_reverse, List.append_assoc, List.singleton_append, ← hdrop,
      List.takeWhile_append_dropWhile]

/-- A uri is its namespace, a slash, and what follows the last slash. -/
theorem eq_of_namespaceOf {uri space : String} (h : namespaceOf uri = some space) :
    uri = space ++ "/" ++ Text.afterLast '/' uri ∧ '/' ∉ (Text.afterLast '/' uri).toList := by
  unfold namespaceOf at h
  split at h
  · rename_i before hbefore
    obtain ⟨hsplit, hname⟩ := Text.eq_of_beforeLast? hbefore
    split at h
    · cases h
    · cases h
      refine ⟨String.toList_inj.mp ?_, hname⟩
      rw [hsplit, String.toList_append, String.toList_append]
      simp
  · cases h

/-! ## Uris -/

/-- The uri continues the namespace after a slash. -/
def Continues (uri space : String) : Prop := ∃ name, uri = space ++ "/" ++ name

/-- A namespace is a prefix of what continues it. -/
theorem Continues.prefix {uri space : String} (h : Continues uri space) :
    space.toList <+: uri.toList := by
  obtain ⟨name, rfl⟩ := h
  rw [String.append_assoc, String.toList_append]
  exact List.prefix_append _ _

namespace Abbreviations

variable {short : Abbreviations}

/-- A name that continues no namespace is kept. -/
theorem apply_of_none {uri : String} (h : ∀ space ∈ short.keys, ¬ Continues uri space) :
    short.apply uri = uri := by
  induction short with
  | nil => rfl
  | cons entry rest ih =>
    rcases entry with ⟨space, s⟩
    unfold apply
    split
    · rename_i name hdrop
      exact absurd ⟨name, Text.dropLeading?_eq_some_iff.mp hdrop⟩ (h space List.mem_cons_self)
    · exact ih fun other hother => h other (List.mem_cons_of_mem _ hother)

/-- A namespace that another one begins with comes after it. -/
theorem not_lt_of_shorter {uri space other : String} (hspace : Continues uri space)
    (hother : Continues uri other) (h : space.length ≤ other.length) : ¬ other < space := by
  have hprefix : space.toList <+: other.toList :=
    List.prefix_of_prefix_length_le hspace.prefix hother.prefix h
  exact fun hlt => hprefix.le (String.lt_iff_toList_lt.mp hlt)

/-- The shortest namespace that a uri continues is the first one in the order of namespaces. -/
theorem apply_of_shortest (hshort : short.Ordered) {space s : String}
    (hget : short.get? space = some s) {name : String}
    (h : ∀ other ∈ short.keys, Continues (space ++ "/" ++ name) other →
      space.length ≤ other.length) :
    short.apply (space ++ "/" ++ name) = s ++ name := by
  induction short with
  | nil => cases hget
  | cons entry rest ih =>
    rcases entry with ⟨first, t⟩
    obtain ⟨hfirst, hrest⟩ := List.pairwise_cons.mp hshort
    have hown : Continues (space ++ "/" ++ name) space := ⟨name, rfl⟩
    rw [Dictionary.get?_cons] at hget
    unfold apply
    split
    · rename_i name' hdrop
      have hcut := Text.dropLeading?_eq_some_iff.mp hdrop
      have hlength := h first List.mem_cons_self ⟨name', hcut⟩
      by_cases hsame : space = first
      · -- the first namespace is the one
        subst hsame
        rw [if_pos rfl] at hget
        cases hget
        rw [(String.append_right_inj _).mp hcut]
      · -- no later namespace is shorter
        rw [if_neg hsame] at hget
        have hmem : space ∈ Dictionary.keys rest := by
          by_contra habsent
          rw [Dictionary.get?_eq_none_iff.mpr habsent] at hget
          cases hget
        exact absurd (hfirst space hmem) (not_lt_of_shorter hown ⟨name', hcut⟩ hlength)
    · rename_i hdrop
      have hne : space ≠ first := by
        rintro rfl
        rw [Text.dropLeading?_eq_some_iff.mpr rfl] at hdrop
        cases hdrop
      rw [if_neg hne] at hget
      exact ih hrest hget fun other hother => h other (List.mem_cons_of_mem _ hother)

/-- What becomes of a uri. Its own namespace is replaced by its short form, if the uri continues no
other namespace that has one; else the shortest such namespace is, and if there is none, nothing. -/
structure Shortens (short : Abbreviations) (uri uri' : String) : Prop where
  own : ∀ space s, namespaceOf uri = some space → short.get? space = some s →
    (∀ other ∈ short.keys, Continues uri other → other = space) →
    uri' = s ++ Text.afterLast '/' uri
  shortest : ∀ space s name, short.get? space = some s → uri = space ++ "/" ++ name →
    (∀ other ∈ short.keys, Continues uri other → space.length ≤ other.length) → uri' = s ++ name
  unchanged : (∀ space ∈ short.keys, ¬ Continues uri space) → uri' = uri

/-- To apply the abbreviations shortens a name. -/
theorem shortens_apply (hshort : short.Ordered) (uri : String) :
    short.Shortens uri (short.apply uri) where
  own := by
    intro space s hspace hget honly
    obtain ⟨huri, -⟩ := eq_of_namespaceOf hspace
    have hlength : ∀ other ∈ short.keys,
        Continues (space ++ "/" ++ Text.afterLast '/' uri) other → space.length ≤ other.length := by
      intro other hother hcontinues
      rw [honly other hother (huri ▸ hcontinues)]
    have happly := apply_of_shortest hshort hget hlength
    rwa [← huri] at happly
  shortest := by
    rintro space s name hget rfl h
    exact apply_of_shortest hshort hget h
  unchanged := apply_of_none

end Abbreviations

/-! ## Rewriting -/

/-- A reference of the same form, whose uri is related. -/
inductive Reference.Rewritten (R : String → String → Prop) : Reference → Reference → Prop
  | bare {uri uri' : String} (h : R uri uri') : Rewritten R (.bare uri) (.bare uri')
  | object {uri uri' : String} (h : R uri uri') : Rewritten R (.object uri) (.object uri')

/-- One item or a list as before, and the items are related in turn. -/
inductive OneOrMany.Related {α : Type} (S : α → α → Prop) : OneOrMany α → OneOrMany α → Prop
  | one {a b : α} (h : S a b) : Related S (.one a) (.one b)
  | many {items items' : List α} (h : List.Forall₂ S items items') :
      Related S (.many items) (.many items')

/-- A step of the same form and direction; its uri and those of its types are related. -/
inductive PathStep.Rewritten (R : String → String → Prop) : PathStep → PathStep → Prop
  | bare {uri uri' : String} (h : R uri uri') : Rewritten R (.bare uri) (.bare uri')
  | hop {uri uri' : String} {reverse : Bool} {types types' : Option (OneOrMany Reference)}
      (h : R uri uri')
      (htypes : Option.Rel (OneOrMany.Related (Reference.Rewritten R)) types types') :
      Rewritten R (.hop ⟨uri, reverse, types⟩) (.hop ⟨uri', reverse, types'⟩)

/-- An item with other paths for itself and for the items below it, and all else the same. -/
inductive Item.Rewritten (R : String → String → Prop) : Item → Item → Prop
  | intro {i : Item} {path : Option (OneOrMany PathStep)} {children : Option (OneOrMany Item)}
      (hpath : Option.Rel (OneOrMany.Related (PathStep.Rewritten R)) i.path path)
      (hchildren : Option.Rel (OneOrMany.Related (Item.Rewritten R)) i.children children) :
      Rewritten R i { i with path, children }

/-- A query with other uris for its root type, its steps and their types, and all else the same. -/
structure Query.Rewritten (R : String → String → Prop) (q q' : Query) : Prop where
  header : Option.Rel (fun h h' => ∃ rootType,
    Option.Rel (Reference.Rewritten R) h.rootType rootType ∧ h' = { h with rootType })
    q.header q'.header
  structured : Option.Rel (OneOrMany.Related (Item.Rewritten R)) q.structured q'.structured

variable {R : String → String → Prop} {f : String → String}

theorem rel_map {α β : Type} {S : α → β → Prop} {g : α → β} (h : ∀ a, S a (g a)) (o : Option α) :
    Option.Rel S o (o.map g) := by
  cases o with
  | none => exact .none
  | some a => exact .some (h a)

theorem OneOrMany.related_map {α : Type} {S : α → α → Prop} {g : α → α} (h : ∀ a, S a (g a))
    (x : OneOrMany α) : Related S x (x.map g) := by
  cases x with
  | one a => exact .one (h a)
  | many items =>
    refine .many ?_
    rw [List.forall₂_map_right_iff, List.forall₂_same]
    exact fun a _ => h a

section
variable (h : ∀ uri, R uri (f uri))
include h

/-- A reference is rewritten name by name. -/
theorem Reference.rewritten_mapUri (r : Reference) : r.Rewritten R (r.mapUri f) := by
  cases r with
  | bare uri => exact .bare (h uri)
  | object uri => exact .object (h uri)

theorem PathStep.rewritten_mapUri (s : PathStep) : s.Rewritten R (s.mapUri f) := by
  cases s with
  | bare uri => exact .bare (h uri)
  | hop hop =>
    exact .hop (h hop.uri)
      (rel_map (OneOrMany.related_map (Reference.rewritten_mapUri h)) hop.types)

end

mutual

/-- Items are rewritten at every depth. -/
theorem Item.rewritten_mapUri (h : ∀ uri, R uri (f uri)) : ∀ i : Item, i.Rewritten R (i.mapUri f)
  | ⟨_, path, children, _, _, _, _, _, _, _⟩ =>
    .intro (rel_map (OneOrMany.related_map (PathStep.rewritten_mapUri h)) path)
      (Item.rewritten_mapChildren h children)

/-- So are the items below an item. -/
theorem Item.rewritten_mapChildren (h : ∀ uri, R uri (f uri)) :
    ∀ children : Option (OneOrMany Item),
      Option.Rel (OneOrMany.Related (Item.Rewritten R)) children (Item.mapChildren f children)
  | none => .none
  | some (.one child) => .some (.one (Item.rewritten_mapUri h child))
  | some (.many children) => .some (.many (Item.rewritten_mapItems h children))

theorem Item.rewritten_mapItems (h : ∀ uri, R uri (f uri)) :
    ∀ items : List Item, List.Forall₂ (Item.Rewritten R) items (Item.mapItems f items)
  | [] => .nil
  | i :: rest => .cons (Item.rewritten_mapUri h i) (Item.rewritten_mapItems h rest)

end

/-! ## Queries -/

namespace Query

/-- So is a query. -/
theorem rewritten_mapUri (h : ∀ uri, R uri (f uri)) (q : Query) : q.Rewritten R (q.mapUri f) where
  header := rel_map (fun header => ⟨_, rel_map (Reference.rewritten_mapUri h) header.rootType, rfl⟩)
    q.header
  structured := Item.rewritten_mapChildren h q.structured

/-- In a query that is abbreviated, every root type, every uri of a step and every type of a step is
what the short forms make of it, and nothing else is changed: a uri whose namespace has a short form
begins with it and goes on with the part after its last slash, unless it continues another namespace
that has one as well, such as one that its own namespace lies in. Then the shortest of these counts,
and the uri goes on with all that follows it. A uri that continues no namespace with a short form
stays as it is. -/
theorem rewritten_abbreviate {short : Abbreviations} (hshort : short.Ordered) (q : Query) :
    q.Rewritten short.Shortens (q.abbreviate short) :=
  rewritten_mapUri (Abbreviations.shortens_apply hshort) q

/-- A namespace within another one, each with a short form. -/
def nested : Abbreviations :=
  Dictionary.ofEntries [("https://schema.org/a", "a:"), ("https://schema.org", "s:")]

/-- A query whose root type lies in both. -/
def borders : Query :=
  ⟨some ⟨some (.bare "https://schema.org/a/Country"), none, none, none⟩,
    some (.one ⟨.bare "borders", some (.many [
        .hop ⟨"https://schema.org/borders", true,
          some (.one (.bare "https://schema.org/a/Country"))⟩,
        .bare "https://schema.org/name"]),
      none, false, false, false, none, false, none, none⟩)⟩

theorem rewritten_abbreviate_borders : nested.Ordered ∧
    borders.Rewritten nested.Shortens (borders.abbreviate nested) ∧
    namespaceOf "https://schema.org/a/Country" = some "https://schema.org/a" ∧
    (borders.abbreviate nested).rootType? = some (.bare "s:a/Country") := by
  have hordered : nested.Ordered := Dictionary.ordered_ofEntries _
  refine ⟨hordered, rewritten_abbreviate hordered borders, ?_, ?_⟩
  · decide +kernel
  · decide +kernel

end Query

end GraphQuery
