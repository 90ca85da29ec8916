import GraphQuery.Proofs.ScopedStatements

/-!
# GraphQuery.Proofs.Repetitions — lines of AQL statements that keep repetitions

1. **Tokens** that take repetitions out of a list.
2. **Parts** of statements without such tokens: values, guards, filters.
3. **Nested objects** lose their repetitions.
4. **Hops** of a property that asks for the order of its edges.
5. **Groupings**.
-/

namespace GraphQuery.Aql

open Json

variable {plan : Plan}

/-! ## Tokens -/

/-- Whether a token is no word that takes repetitions out of a list. -/
def Token.isHarmless : Token → Bool
  | .word w => w != "UNIQUE" && w != "DISTINCT"
  | _ => true

/-- A fragment, closing its quotes, without such words outside them. -/
structure Repeating (f : Fragment) : Prop where
  whole : Whole f
  harmless : ∀ t ∈ tokensOf f, t.isHarmless = true

/-- What is read as harmless words keeps repetitions. -/
theorem Reads.repeating {f : Fragment} {ts : List Token} (h : Reads f ts)
    (hts : ∀ t ∈ ts, t.isHarmless = true) : Repeating f := ⟨h.whole, h.tokens ▸ hts⟩

/-- A fragment that keeps repetitions holds no word that drops them. -/
theorem Repeating.not_mem {f : Fragment} (h : Repeating f) {t : Token}
    (ht : t.isHarmless = false) : t ∉ tokensOf f := fun hmem =>
  Bool.false_ne_true (ht.symm.trans (h.harmless t hmem))

namespace Template

/-- A token of a filled template is one of the template, or of what fills it. -/
theorem mem_splice {t : Token} {es : List (Option Token)} {fs : List Fragment}
    (h : t ∈ splice es fs) : some t ∈ es ∨ ∃ f ∈ fs, t ∈ tokensOf f := by
  induction es generalizing fs with
  | nil => cases h
  | cons e rest ih =>
    cases e with
    | some u =>
      rw [splice, List.mem_cons] at h
      rcases h with rfl | h
      · exact .inl (.head _)
      · exact (ih h).imp_left (.tail _)
    | none =>
      rw [splice, List.mem_append] at h
      rcases h with h | h
      · cases fs with
        | nil => cases h
        | cons f fs => exact .inr ⟨f, .head _, h⟩
      · rcases ih h with h | ⟨f, hf, h⟩
        · exact .inl (.tail _ h)
        · exact .inr ⟨f, List.mem_of_mem_tail hf, h⟩

/-- Whether the text of a template keeps repetitions, whatever fills its places. -/
def isRepeating (t : Template) : Bool :=
  (t.read .start).any fun r => r.1.all fun e => e.all Token.isHarmless

/-- A filled template keeps repetitions if it does by itself, and so do the fragments in it. -/
theorem repeating (t : Template) (h : t.isRepeating = true) (names : List String)
    (fs : List Fragment) (hfs : ∀ f ∈ fs, Repeating f) : Repeating (t.fill names fs) := by
  rcases (Option.any_eq_true _ _).mp h with ⟨⟨es, b⟩, hread, hall⟩
  refine (reads t hread names fs fun f hf => (hfs f hf).whole).repeating fun u hu => ?_
  rcases mem_splice hu with hu | ⟨f, hf, hu⟩
  · exact List.all_eq_true.mp hall _ hu
  · exact (hfs f hf).harmless u hu

end Template

theorem Repeating.text {s : String} (h : Template.isRepeating [.text s] = true) :
    Repeating (lit s) := by
  have hnone : ∀ f ∈ ([] : List Fragment), Repeating f := by simp
  simpa [Template.fill] using Template.repeating [.text s] h [] [] hnone

theorem Repeating.nil : Repeating [] := ⟨rfl, by simp⟩

theorem Repeating.bound (name : String) (value : Value) : Repeating (bound name value) :=
  ⟨rfl, by simp⟩

/-- Joined fragments keep repetitions, if the separator does between them. -/
theorem Repeating.join {separator : String}
    (hseparator : Template.isRepeating [.slot, .text separator, .slot] = true)
    {fs : List Fragment} (h : ∀ f ∈ fs, Repeating f) :
    Repeating (Fragment.join separator fs) := by
  unfold Fragment.join
  induction fs with
  | nil => exact .nil
  | cons f rest ih =>
    rw [List.forall_mem_cons] at h
    cases rest with
    | nil => simpa using h.1
    | cons g rest =>
      have hboth : ∀ e ∈ [f, List.intercalate (lit separator) (g :: rest)], Repeating e := by
        simpa using ⟨h.1, ih h.2⟩
      have hfill := Template.repeating _ hseparator [] _ hboth
      rw [List.intercalate_cons_cons]
      simpa [Template.fill] using hfill

/-- The variables of properties end in digits or marks of their own, so that none is a harmful
word. -/
@[simp]
theorem isHarmless_variable (p : Property) (r : Role) :
    (Token.word (variableName p r)).isHarmless = true := by
  have hvariable := isVariable_variableName p r
  have hne {w : String} (hw : isVariable w = false) : variableName p r ≠ w := by
    rintro rfl
    exact Bool.false_ne_true (hw.symm.trans hvariable)
  have hunique := hne (w := "UNIQUE") (by decide)
  have hdistinct := hne (w := "DISTINCT") (by decide)
  simp [Token.isHarmless, hunique, hdistinct]

theorem repeating_variable (p : Property) (r : Role) : Repeating (named (variableName p r)) :=
  (reads_variable p r).repeating (by simp)

/-- Commands without such words. -/
def RepeatingScript (script : Script) : Prop := ∀ c ∈ script, Repeating (written c)

namespace RepeatingScript

variable {a b : Script}

theorem nil : RepeatingScript [] := by
  intro c hc
  cases hc

theorem append (ha : RepeatingScript a) (hb : RepeatingScript b) : RepeatingScript (a ++ b) :=
  List.forall_mem_append.mpr ⟨ha, hb⟩

theorem line {f : Fragment} (h : Repeating f) : RepeatingScript [.line f] :=
  List.forall_mem_singleton.mpr h

theorem silent {c : Command} (h : written c = []) : RepeatingScript [c] :=
  List.forall_mem_singleton.mpr (h ▸ .nil)

theorem flatMap {α : Type} {f : α → Script} {xs : List α} (h : ∀ x ∈ xs, RepeatingScript (f x)) :
    RepeatingScript (xs.flatMap f) := by
  intro c hc
  obtain ⟨x, hx, hc⟩ := List.mem_flatMap.mp hc
  exact h x hx c hc

end RepeatingScript

/-- Lines that are read as harmless words keep repetitions. -/
theorem ReadsScript.repeating {script : Script} {ts : List Token} (h : ReadsScript script ts)
    (hts : ∀ t ∈ ts, t.isHarmless = true) : RepeatingScript script := by
  intro c hc
  refine ⟨(h.tidy c hc).whole, fun t ht => hts t ?_⟩
  rw [← h.tokens]
  exact List.mem_flatMap.mpr ⟨c, hc, ht⟩

/-! ## Parts -/

/-- A fragment for a document is repeating. -/
theorem repeating_document {doc : Fragment} (h : IsDocument doc) : Repeating doc := by
  cases h with
  | root => exact .text (by decide)
  | hop p hop => exact repeating_variable p (.document hop)

theorem repeating_attr {doc : Fragment} (h : Repeating doc) (key : String) :
    Repeating (attr doc key) := by
  have hfill := Template.repeating [.slot, .text ".`", .quoted, .text "`"] (by decide) [key] [doc]
    (by simpa using h)
  simpa [Template.fill, attr] using hfill

theorem repeating_value {doc : Fragment} (h : Repeating doc) (p : Property) :
    Repeating (value doc p) := by
  unfold value
  split
  · split
    · exact repeating_attr h _
    · exact .text (by decide)
  · split
    · exact repeating_variable p .grouping
    · exact repeating_variable p (.list 0)

theorem repeating_comma {fs : List Fragment} (h : ∀ f ∈ fs, Repeating f) : Repeating (comma fs) :=
  .join (by decide) h

/-- A text before a fragment. -/
theorem Repeating.after {s : String} (hs : Template.isRepeating [.text s, .slot] = true)
    {f : Fragment} (h : Repeating f) : Repeating (lit s ++ f) := by
  have hfill := Template.repeating _ hs [] [f] (by simpa using h)
  simpa [Template.fill] using hfill

/-- A text after a fragment. -/
theorem Repeating.before {s : String} (hs : Template.isRepeating [.slot, .text s] = true)
    {f : Fragment} (h : Repeating f) : Repeating (f ++ lit s) := by
  have hfill := Template.repeating _ hs [] [f] (by simpa using h)
  simpa [Template.fill] using hfill

/-- An entry of an object keeps repetitions if its value does. -/
theorem repeating_quotedEntry {f : Fragment} (h : Repeating f) (key : String) :
    Repeating (quotedKey key ++ lit ": " ++ f) := by
  have hfill := Template.repeating [.text "\"", .quoted, .text "\"", .text ": ", .slot] (by decide)
    [key] [f] (by simpa using h)
  simpa [Template.fill, quotedKey] using hfill

/-- The tests of a document keep repetitions. -/
theorem repeating_guards {doc : Fragment} (h : Repeating doc) :
    RepeatingScript (guards plan doc) := by
  have hdoc := Template.repeating [.text "FILTER ", .slot, .text " != NULL"] (by decide) [] [doc]
    (by simpa using h)
  have hlists := Template.repeating [.text "FILTER PARSE_IDENTIFIER(", .slot,
    .text ").collection IN whitelist OR HAS(invitation, ", .slot, .text "._key)"] (by decide) []
    [doc, doc] (by simpa using h)
  have hspaces (v : Value) := Template.repeating [.text "FILTER PARSE_IDENTIFIER(", .slot,
    .text ").collection IN ", .slot] (by decide) [] [doc, bound "spaceRestriction" v]
    (by simpa using ⟨h, .bound _ v⟩)
  unfold guards
  refine .append (.append (.line (by simpa [Template.fill] using hdoc)) ?_) ?_
  · split
    · exact .line (by simpa [Template.fill] using hlists)
    · exact .nil
  · split
    · exact .line (by simpa [Template.fill] using hspaces _)
    · exact .nil

/-- A condition keeps repetitions on every field that does. -/
theorem repeating_condition {field : Fragment} (h : Repeating field) (c : Condition) :
    Repeating (condition field c) := by
  have hempty := Template.repeating [.text "(", .slot, .text " == NULL OR ", .slot,
    .text " == \"\" OR ", .slot, .text " == [])"] (by decide) [] [field, field, field]
    (by simpa using h)
  have hcomparison : ∀ op ∈ [" == ", " =~ ", " LIKE "], ∀ operand : Option String,
      Repeating (comparison field op c operand) := by
    have htemplate : ∀ op ∈ [" == ", " =~ ", " LIKE "], Template.isRepeating
        [.text "(IS_ARRAY(", .slot, .text ") ? LENGTH(", .slot, .text "[* FILTER CURRENT",
          .text op, .slot, .text "]) > 0 : ", .slot, .text op, .slot, .text ")"] = true := by
      decide
    intro op hop operand
    have hoperand : Repeating (bound c.bindName (.ofOption .string operand)) := .bound _ _
    have hfill := Template.repeating _ (htemplate op hop) []
      [field, field, bound c.bindName (.ofOption .string operand), field,
        bound c.bindName (.ofOption .string operand)] (by simpa using ⟨h, hoperand, h, hoperand⟩)
    simpa [Template.fill, comparison] using hfill
  unfold condition
  split
  · simpa [Template.fill] using hempty
  all_goals exact hcomparison _ (by simp) _

/-- The filters of a level keep repetitions. -/
theorem repeating_filters {doc : Fragment} (h : Repeating doc) (ps : List Property) :
    RepeatingScript (filters plan doc ps) := by
  refine .flatMap fun p _ => ?_
  have hvalue := repeating_value h p
  have hrequired := Template.repeating [.text "FILTER ", .slot, .text " != NULL AND ", .slot,
    .text " != \"\" AND ", .slot, .text " != []"] (by decide) []
    [value doc p, value doc p, value doc p] (by simpa using hvalue)
  unfold filtersOf
  refine .append ?_ ?_
  · split
    · exact .line (by simpa [Template.fill] using hrequired)
    · exact .nil
  · split
    · exact .line (.after (by decide) (repeating_condition hvalue _))
    · exact .nil

/-! ## Nested objects -/

/-- Entries of repeating fragments repeat. -/
theorem repeating_entries {fs : List Fragment} (h : ∀ f ∈ fs, Repeating f) :
    RepeatingScript (entries fs) := by
  induction fs with
  | nil => exact .nil
  | cons f rest ih =>
    rw [List.forall_mem_cons] at h
    cases rest with
    | nil => exact .line h.1
    | cons g rest => exact RepeatingScript.append (.line (.before (by decide) h.1)) (ih h.2)

/-- The line that begins a nested object. -/
def distinctLine : Command := .line (lit "RETURN DISTINCT \x7b")

/-- The line that drops repetitions is read as two words. -/
theorem tokensOf_distinctLine :
    tokensOf (written distinctLine) = [.word "RETURN", .word "DISTINCT"] := by
  have hleads : Leads (lit "RETURN DISTINCT \x7b") [.word "RETURN", .word "DISTINCT"] :=
    .text (by decide)
  exact hleads.reads.tokens

/-- It is the one line that does not keep repetitions. -/
theorem not_repeating_distinctLine : ¬ Repeating (written distinctLine) := by
  intro h
  have hword : Token.word "DISTINCT" ∉ tokensOf (written distinctLine) := h.not_mem (by decide)
  simp [tokensOf_distinctLine] at hword

/-- Of a nested object, only the line that begins it has such a word. -/
theorem repeating_result {doc : Fragment} (h : Repeating doc) (ps : List Property) :
    ∀ c ∈ result doc ps true, c = distinctLine ∨ Repeating (written c) := by
  have hvalue (p : Property) : Repeating (value doc p) := repeating_value h p
  have hpresent : ∀ f ∈ (Property.level ps).map fun p =>
      lit "(" ++ value doc p ++ lit " != NULL AND " ++ value doc p ++ lit " != [])",
      Repeating f := by
    refine List.forall_mem_map.mpr fun p _ => ?_
    have hfill := Template.repeating [.text "(", .slot, .text " != NULL AND ", .slot,
      .text " != [])"] (by decide) [] [value doc p, value doc p] (by simpa using hvalue p)
    simpa [Template.fill] using hfill
  have hfields : RepeatingScript (entries ((Property.level ps).map fun p =>
      quotedKey p.key ++ lit ": " ++ value doc p)) :=
    repeating_entries (List.forall_mem_map.mpr fun p _ => repeating_quotedEntry (hvalue p) p.key)
  have hfilter : RepeatingScript [.line (lit "FILTER " ++ Fragment.join " OR "
      ((Property.level ps).map fun p =>
        lit "(" ++ value doc p ++ lit " != NULL AND " ++ value doc p ++ lit " != [])"))] :=
    .line (.after (by decide) (.join (by decide) hpresent))
  have hclosed : RepeatingScript [.outdent, .line (lit "\x7d")] :=
    .append (.silent rfl) (.line (.text (by decide)))
  have hindent : RepeatingScript [.indent] := .silent rfl
  intro c hc
  unfold result at hc
  simp only [List.map_map, Function.comp_def, if_true, Bool.true_and, List.mem_append] at hc
  rcases hc with ((hc | hc) | hc) | hc
  · split at hc
    · exact .inr (hfilter c hc)
    · cases hc
  · rcases List.mem_cons.mp hc with rfl | hc
    · exact .inl rfl
    · exact .inr (hindent c hc)
  · exact .inr (hfields c hc)
  · exact .inr (hclosed c hc)

/-! ## Hops -/

section

variable {p : Property} (horder : p.ensureOrder = true)

include horder

/-- A projection keeps repetitions where an order is to be kept. -/
theorem repeating_projection {f : Fragment} (h : Repeating f) :
    Repeating (projectionStart p ++ f) := by
  rw [projectionStart, if_pos horder]
  exact .after (by decide) h

theorem repeating_listLine (hop : Nat) : Repeating (listLine p hop) := by
  refine (reads_listLine p hop).repeating ?_
  rw [spanStart, if_pos horder]
  unfold collapseStart sortStart
  rcases p.collapse with _ | _ | _ <;> cases p.sort <;> split <;> simp +decide

theorem repeating_visitLine {source : Fragment} (h : Repeating source) (hop : Nat) (step : Step) :
    Repeating (visitLine plan p source hop step) := by
  refine (reads_visitLine h.whole p hop step).repeating ?_
  cases plan.edgeExists step
  · simp +decide
  · cases step.reverse <;> simpa +decide [horder, or_imp, forall_and] using h.harmless

/-- A hop keeps repetitions where an order is to be kept. -/
theorem repeating_openHop {parent : Fragment} (h : Repeating parent) (hop : Nat) (step : Step) :
    RepeatingScript (openHop plan p parent hop step) := by
  have hdoc (hop : Nat) : Repeating (hopDoc p hop) := repeating_variable p (.document hop)
  have hedge : Repeating (hopEdge p hop) := repeating_variable p (.edge hop)
  have hsource : Repeating (if hop = 0 then parent else hopDoc p (hop - 1)) := by
    split
    · exact h
    · exact hdoc _
  have htypes := Template.repeating [.text "FILTER ", .slot, .text " ANY IN ", .slot] (by decide) []
    [bound (stepAlias p hop ++ "_types") (.strings step.types), attr (hopDoc p hop) "@type"]
    (by simpa using ⟨.bound _ _, repeating_attr (hdoc hop) "@type"⟩)
  have hsort := Template.repeating [.text "SORT ", .slot, .text "._orderNumber ASC"] (by decide) []
    [hopEdge p hop] (by simpa using hedge)
  rw [openHop_eq]
  refine .append (.append (.append ?_ (.append ?_ (repeating_guards (hdoc hop)))) ?_) ?_
  · exact .append (.line (repeating_listLine horder hop)) (.silent rfl)
  · exact .line (repeating_visitLine horder hsource hop step)
  · split
    · exact .nil
    · exact .line (by simpa [Template.fill] using htypes)
  · split
    · exact .line (by simpa [Template.fill] using hsort)
    · exact .nil

/-- So does the end of a hop. -/
theorem repeating_closeHop (hop : Nat) : RepeatingScript (closeHop p hop) := by
  unfold closeHop
  refine .append (.append (.silent rfl) (.line ?_)) ?_
  · rw [if_pos horder]
    exact .text (by decide)
  · split
    · exact .nil
    · exact .line (repeating_projection horder (repeating_variable p (.list hop)))

end

/-- Sorting and collapsing keep repetitions. -/
theorem repeating_closing (p : Property) : RepeatingScript (closing p) := by
  refine (reads_closing p).repeating ?_
  unfold sortEnd collapseEnd
  cases p.sort <;> cases p.collapse <;> simp +decide

/-! ## Groupings -/

theorem repeating_groupKeys (p : Property) : ∀ k ∈ groupKeys p, Repeating k.2 := by
  rw [groupKeys_eq]
  exact List.forall_mem_map.mpr fun c _ => repeating_variable p (.key c.2)

theorem repeating_groupOrder (p : Property) : RepeatingScript (groupOrder p) := by
  unfold groupOrder
  split
  · refine .line (.after (by decide) (repeating_comma ?_))
    exact List.forall_mem_map.mpr fun k hk =>
      .before (by decide) (repeating_groupKeys p k (mem_groupKeys_of_mem_order hk))
  · exact .nil

theorem repeating_collecting (p : Property) : Repeating (collecting p) := by
  have hvalue : ∀ k ∈ groupKeys p,
      Repeating (k.2 ++ lit " = " ++ attr (named (variableName p .item)) k.1.key) := by
    intro k hk
    have hattr := repeating_attr (repeating_variable p .item) k.1.key
    have hfill := Template.repeating [.slot, .text " = ", .slot] (by decide) []
      [k.2, attr (named (variableName p .item)) k.1.key]
      (by simpa using ⟨repeating_groupKeys p k hk, hattr⟩)
    simpa [Template.fill] using hfill
  have hvalues : Repeating (keyValues p) := repeating_comma (List.forall_mem_map.mpr hvalue)
  have hfill := Template.repeating [.text "COLLECT ", .slot, .text " INTO ", .slot] (by decide) []
    [keyValues p, named (variableName p .group)]
    (by simpa using ⟨hvalues, repeating_variable p .group⟩)
  simpa [Template.fill, collecting, variableName] using hfill

theorem repeating_gathering (p : Property) : Repeating (gathering p) := by
  have hattr (key : String) := repeating_attr (repeating_variable p .member) key
  have hfields : Repeating (memberFields p) :=
    repeating_comma (List.forall_mem_map.mpr fun c _ => repeating_quotedEntry (hattr c.key) c.key)
  have horder : Repeating (memberOrder p) := by
    unfold memberOrder
    split
    · exact .nil
    · exact .after (by decide) (repeating_comma (List.forall_mem_map.mpr fun c _ =>
        .before (by decide) (hattr c.key)))
  refine (reads_gathering p).repeating ?_
  simpa +decide [or_imp, forall_and] using ⟨horder.harmless, hfields.harmless⟩

/-- Groups are collected without dropping repetitions. -/
theorem repeating_grouping (p : Property) : RepeatingScript (grouping p) := by
  have hlet := Template.repeating [.text "LET ", .slot, .text " = ("] (by decide) []
    [named (variableName p .grouping)] (by simpa using repeating_variable p .grouping)
  have hitems := Template.repeating [.text "FOR ", .slot, .text " IN ", .slot] (by decide) []
    [named (variableName p .item), named (variableName p (.list 0))]
    (by simpa using ⟨repeating_variable p .item, repeating_variable p (.list 0)⟩)
  have hinstances := Template.repeating [.text "\"", .quoted, .text "\"", .text ": instances"]
    (by decide) [p.groupedInstances.getD ""] [] (by simp)
  have hfields : Repeating (groupFields p) := by
    refine repeating_comma (List.forall_mem_append.mpr ⟨?_, ?_⟩)
    · exact List.forall_mem_map.mpr fun k hk => repeating_quotedEntry (repeating_groupKeys p k hk) _
    · exact List.forall_mem_singleton.mpr (by simpa [Template.fill, quotedKey] using hinstances)
  have hreturn := Template.repeating [.text "RETURN \x7b ", .slot, .text " \x7d"] (by decide) []
    [groupFields p] (by simpa using hfields)
  rw [grouping_eq]
  refine .append (.append (.append (.line ?_) (.silent rfl)) (.append (.append ?_
    (repeating_groupOrder p)) ?_)) (.append (.silent rfl) (.line (.text (by decide))))
  · simpa [Template.fill, variableName] using hlet
  · refine .append (.line ?_) (.line (repeating_collecting p))
    simpa [Template.fill, variableName, stepAlias] using hitems
  · refine .append (.line (repeating_gathering p)) (.line ?_)
    simpa [Template.fill] using hreturn

end GraphQuery.Aql
