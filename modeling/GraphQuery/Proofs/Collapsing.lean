import GraphQuery.Proofs.Enumeration

/-!
# GraphQuery.Proofs.Collapsing — one value made of a list

A leaf shows the list of its values, or one value that it makes of them: the first one, or all of
them as one text. An attribute of the document at hand is shown as it is, even if it is a list.

1. **Attributes** of the document at hand, which no property changes.
2. **Lists** of leaves that follow edges. How a leaf shows its list does not matter to the list.
3. **Collapsed values**, and where they are made of the list.
-/

namespace GraphQuery

open Json

/-- The text of all values of a list but for nulls. -/
def joinedText (values : List Value) : String :=
  ", ".intercalate ((values.filter (!·.isNull)).map Value.display)

namespace Evaluator

variable (e : Evaluator) (doc : Document)

/-- Value of a property, computed without a ceiling, if it collapses its list in some way. -/
def collapsed (p : Property) (c : Option Collapse) : Except Error Value :=
  (buildValue e doc { p with collapse := c } : Metered none Value).start

/-- A collapsed value is that of the property with another collapse. -/
theorem collapsed_eq (p : Property) (c : Option Collapse) :
    e.collapsed doc p c = .ok (propertyValue e doc { p with collapse := c }).value :=
  (Metered.stepRelation_comesTo.buildValue e doc _).start_eq

/-! ## Attributes -/

/-- The value of an attribute does not depend on the collapse. -/
theorem collapsed_of_direct {p : Property} (h : p.isDirect = true) (c : Option Collapse) :
    e.collapsed doc p c = .ok ((p.leafStep?.map fun step => doc.valueOf step.uri).getD .null) := by
  have hdirect : { p with collapse := c }.isDirect = true := h
  rw [collapsed_eq, propertyValue_eq, if_pos hdirect]
  rfl

/-! ## Lists -/

theorem hasGrouping_of_leaf {p : Property} (h : p.isLeaf = true) : p.hasGrouping = false := by
  rw [Property.isLeaf, List.isEmpty_iff] at h
  rw [Property.hasGrouping, h, List.any_nil, Bool.and_false]

/-- The value at the end of edges is the collapse of the list. -/
theorem collapsed_of_leaf {p : Property} (hleaf : p.isLeaf = true) (h : p.isDirect = false)
    (c : Option Collapse) : e.collapsed doc p c =
      .ok (collapse { p with collapse := c } (listed e doc p : Weighed (List Value)).value) := by
  have hdirect : { p with collapse := c }.isDirect = false := h
  have hgrouping : { p with collapse := c }.hasGrouping = false := hasGrouping_of_leaf hleaf
  have hlisted : (listed e doc { p with collapse := c } : Weighed (List Value)) =
      listed e doc p := rfl
  rw [collapsed_eq, propertyValue, buildValue_eq_listed e doc hdirect, hlisted]
  dsimp only
  rw [hgrouping]
  rfl

/-! ## Collapsed values -/

/-- No list is its own first item. -/
theorem eq_headD_contribution_iff {v : Value} :
    v = (contribution v).headD .null ↔ ∀ items, v ≠ .array items := by
  cases v with
  | array items =>
    constructor
    · intro h
      cases items with
      | nil => cases h
      | cons first rest =>
        have hsize : sizeOf first < sizeOf (Value.array (first :: rest)) := by
          simp only [Value.array.sizeOf_spec, List.cons.sizeOf_spec]
          omega
        have hfirst : Value.array (first :: rest) = first := h
        rw [hfirst] at hsize
        exact absurd hsize (Nat.lt_irrefl _)
    · exact fun h => absurd rfl (h items)
  | _ => simp [contribution]

/-- Joining a value with nothing else gives it back only if it is a text. -/
theorem eq_joinedText_contribution_iff {v : Value} :
    v = .string (joinedText (contribution v)) ↔ ∃ s, v = .string s := by
  constructor
  · exact fun h => ⟨_, h⟩
  · rintro ⟨s, rfl⟩
    rfl

/-- What a leaf makes of its list, where `l` is the list that it shows otherwise, with a scalar for
a list of one value and null for an empty list. If the leaf follows edges, it is the first value or
all of them as one text. If it is an attribute of the document at hand, the attribute itself is
shown, which is the first value of `l` unless it is a list, and its text if it is a text already. -/
theorem collapsed_iff {p : Property} (hleaf : p.isLeaf = true) (hpath : p.path ≠ []) :
    ∃ v, e.collapsed doc p none = .ok v ∧
      (let l := contribution v
      (e.collapsed doc p (some .first) = .ok (l.headD .null) ↔
        2 ≤ p.path.length ∨ ∀ items, v ≠ .array items) ∧
      (e.collapsed doc p (some .concat) = .ok (.string (joinedText l)) ↔
        2 ≤ p.path.length ∨ ∃ s, v = .string s)) ∧
      (2 ≤ p.path.length → ∃ items, v = .array items) ∧
      (p.path.length = 1 → ∀ c, e.collapsed doc p c = .ok v) := by
  have hlength := List.length_pos_iff.mpr hpath
  by_cases hsteps : 2 ≤ p.path.length
  · have hdirect : p.isDirect = false := by
      rw [Property.isDirect, hleaf, Bool.true_and, decide_eq_false_iff_not]
      omega
    have hvalue := e.collapsed_of_leaf doc hleaf hdirect
    refine ⟨_, hvalue none, ⟨?_, ?_⟩, fun _ => ⟨_, rfl⟩, fun hone => by omega⟩
    · exact iff_of_true (hvalue (some .first)) (.inl hsteps)
    · exact iff_of_true (hvalue (some .concat)) (.inl hsteps)
  · have hdirect : p.isDirect = true := by
      rw [Property.isDirect, hleaf, Bool.true_and, decide_eq_true_eq]
      omega
    have hvalue := e.collapsed_of_direct doc hdirect
    refine ⟨_, hvalue none, ⟨?_, ?_⟩, fun h => absurd h hsteps, fun _ => hvalue⟩
    · rw [hvalue, Except.ok.injEq, eq_headD_contribution_iff, or_iff_right hsteps]
    · rw [hvalue, Except.ok.injEq, eq_joinedText_contribution_iff, or_iff_right hsteps]

end Evaluator

namespace Library

/-- A leaf without options. -/
def leafAt (path : List String) : Property :=
  ⟨"shown", path.map fun uri => ⟨uri, false, []⟩, [], false, false, false, false, none, none,
    none, 0⟩

def keyworded : Document :=
  ⟨⟨5⟩, "library", [], none,
    [("keywords", .strings ["trees", "forests"]), ("year", .int 1999)]⟩

end Library

open Library in
/-- The names of what a paper cites, and the keywords of another one. -/
theorem Evaluator.collapsed_iff_keyworded :
    ((leafAt ["cites", "name"]).isLeaf = true ∧ (leafAt ["cites", "name"]).path ≠ []) ∧
      (reading.collapsed survey (leafAt ["cites", "name"]) (some .first) =
          .ok (.string "On Forests") ∧
        reading.collapsed survey (leafAt ["cites", "name"]) (some .concat) =
          .ok (.string "On Forests, On Woods")) ∧
      ((leafAt ["keywords"]).isLeaf = true ∧ (leafAt ["keywords"]).path ≠ []) ∧
      reading.collapsed keyworded (leafAt ["keywords"]) (some .first) ≠
        .ok (.string "trees") ∧
      reading.collapsed keyworded (leafAt ["year"]) (some .concat) ≠ .ok (.string "1999") := by
  have hnames : reading.collapsed survey (leafAt ["cites", "name"]) none =
      .ok (.strings ["On Forests", "On Woods"]) := by
    have honce : tidy (leafAt ["cites", "name"]) [.string "On Forests", .string "On Woods"] =
        [.string "On Forests", .string "On Woods"] := by
      have hdiffer : (Value.string "On Woods" == .string "On Forests") = false := by decide
      simp [tidy, leafAt, List.eraseDups_cons, hdiffer]
    have hpaths : reading.narrowed.pathValues survey (leafAt ["cites", "name"]) =
        [.string "On Forests", .string "On Woods"] := rfl
    rw [reading.collapsed_of_leaf survey rfl rfl,
      reading.value_listed (reading.fieldValues_eq_pathFields _), hpaths, honce]
    rfl
  have hkeywords := reading.collapsed_of_direct keyworded (p := leafAt ["keywords"]) rfl none
  have hyear := reading.collapsed_of_direct keyworded (p := leafAt ["year"]) rfl none
  obtain ⟨v, hv, ⟨hfirst, hconcat⟩, -⟩ :=
    reading.collapsed_iff survey (p := leafAt ["cites", "name"]) rfl (by simp [leafAt])
  obtain ⟨w, hw, ⟨hfirst', -⟩, -⟩ :=
    reading.collapsed_iff keyworded (p := leafAt ["keywords"]) rfl (by simp [leafAt])
  obtain ⟨x, hx, ⟨-, hconcat'⟩, -⟩ :=
    reading.collapsed_iff keyworded (p := leafAt ["year"]) rfl (by simp [leafAt])
  obtain rfl := Except.ok.inj (hv.symm.trans hnames)
  obtain rfl := Except.ok.inj (hw.symm.trans hkeywords)
  obtain rfl := Except.ok.inj (hx.symm.trans hyear)
  refine ⟨⟨rfl, by simp [leafAt]⟩, ⟨hfirst.mpr (.inl (Nat.le_refl 2)),
    hconcat.mpr (.inl (Nat.le_refl 2))⟩, ⟨rfl, by simp [leafAt]⟩, fun h => ?_, fun h => ?_⟩
  · rcases hfirst'.mp h with hsteps | hscalar
    · exact absurd hsteps (by decide)
    · exact hscalar _ rfl
  · rcases hconcat'.mp h with hsteps | ⟨s, hs⟩
    · exact absurd hsteps (by decide)
    · cases hs

end GraphQuery
