import GraphQuery.Proofs.Guards
import GraphQuery.Proofs.Lines

/-!
# GraphQuery.Proofs.Introductions — documents of AQL statements are tested where they are introduced

1. **Introductions**: the lines that give a name to a document.
2. **Guarded lines**: every introduction is followed by the tests on its document.
3. **Plain lines** introduce nothing.
4. **Parts** of a statement are guarded, hence the whole statement.
-/

namespace GraphQuery.Aql

/-! ## Introductions -/

/-- A name as it stands in a statement. -/
def IsName (s : String) : Prop := ∀ c ∈ s.toList, Text.isSafe c = true

instance (s : String) : Decidable (IsName s) :=
  List.decidableBAll (fun c => Text.isSafe c = true) s.toList

/-- A line that introduces a document: it fetches one, or it visits what a source yields, with or
without the edges that lead there. Lists that an earlier line has made are no such source. -/
inductive Introduces (before : List String) : String → String → Prop
  | fetches {doc : String} (h : IsName doc) (rest : String) :
      Introduces before ("LET " ++ doc ++ " = DOCUMENT(" ++ rest) doc
  | visits {doc source : String} (h : IsName doc)
      (hsource : ∀ rest, "LET " ++ source ++ " = " ++ rest ∉ before) :
      Introduces before ("FOR " ++ doc ++ " IN " ++ source) doc
  | follows {doc edge source : String} (h : IsName doc) (hedge : IsName edge)
      (hsource : ∀ rest, "LET " ++ source ++ " = " ++ rest ∉ before) :
      Introduces before ("FOR " ++ doc ++ ", " ++ edge ++ " IN " ++ source) doc

/-- The lines that test a document. -/
def guardLines (guards : List Guard) (doc : String) : List String :=
  ("FILTER " ++ doc ++ " != NULL") :: guards.map fun g => "FILTER " ++ g.aql doc

/-- Every introduction is followed by the tests on its document. -/
def Guarded (guards : List Guard) (before lines : List String) : Prop :=
  ∀ pre line post doc, lines = pre ++ line :: post → Introduces (before ++ pre) line doc →
    guardLines guards doc <+: post

/-! ## Guarded lines -/

/-- What is introduced after more lines is introduced after fewer. -/
theorem Introduces.mono {before after : List String} {line doc : String}
    (h : Introduces after line doc) (hsub : ∀ l ∈ before, l ∈ after) :
    Introduces before line doc := by
  cases h with
  | fetches h rest => exact .fetches h rest
  | visits h hsource => exact .visits h fun rest hmem => hsource rest (hsub _ hmem)
  | follows h hedge hsource =>
    exact .follows h hedge fun rest hmem => hsource rest (hsub _ hmem)

namespace Guarded

variable {guards : List Guard} {before lines : List String}

theorem nil : Guarded guards before [] := by
  intro pre line post doc hsplit
  simp at hsplit

/-- A guarded list of lines grows at its start, if the guards of what its line introduces follow. -/
theorem cons {line : String}
    (h : ∀ doc, Introduces before line doc → guardLines guards doc <+: lines)
    (hrest : Guarded guards (before ++ [line]) lines) : Guarded guards before (line :: lines) := by
  intro pre l post doc hsplit hintroduces
  -- the introduction is the first line, or one of the others
  cases pre with
  | nil =>
    rcases List.cons_eq_cons.mp hsplit with ⟨rfl, rfl⟩
    exact h doc (by simpa using hintroduces)
  | cons first pre =>
    rcases List.cons_eq_cons.mp hsplit with ⟨rfl, htail⟩
    exact hrest pre l post doc htail (by simpa using hintroduces)

theorem after (h : Guarded guards [] lines) (before : List String) :
    Guarded guards before lines := by
  intro pre line post doc hsplit hintroduces
  exact h pre line post doc hsplit (hintroduces.mono (by simp +contextual))

/-- Guarded lists of lines are put one after the other, since the second knows what came first. -/
theorem append {rest : List String} (h : Guarded guards before lines)
    (hrest : Guarded guards (before ++ lines) rest) : Guarded guards before (lines ++ rest) := by
  intro pre line post doc hsplit hintroduces
  -- the introduction stands in the second part or in the first one
  rcases List.append_eq_append_iff.mp hsplit with ⟨between, rfl, htail⟩ | ⟨between, rfl, htail⟩
  · exact hrest between line post doc htail (by simpa using hintroduces)
  · cases between with
    | nil => exact hrest [] line post doc htail.symm (by simpa using hintroduces)
    | cons first between =>
      rcases List.cons_eq_cons.mp htail with ⟨rfl, rfl⟩
      -- its tests follow in the first part, so they are not cut off
      exact (h pre line between doc rfl hintroduces).trans (List.prefix_append _ _)

end Guarded

/-! ## Plain lines -/

/-- What is safe is a name. -/
theorem isName_safe (s : String) : IsName (Text.safe s) := by
  simp [IsName, Text.safe]

/-- A line that starts with a mark, and neither sets a variable nor runs over a source. -/
def Plain (line : String) : Prop :=
  Text.Marked line ∧ ¬ "LET ".toList <+: line.toList ∧ ¬ "FOR ".toList <+: line.toList

/-- A plain line introduces nothing. -/
theorem Plain.not_introduces {line : String} (h : Plain line) (before : List String)
    (doc : String) : ¬ Introduces before line doc := by
  rcases h with ⟨-, hlet, hfor⟩
  intro hintroduces
  cases hintroduces with
  | fetches h rest => exact hlet ⟨(doc ++ " = DOCUMENT(" ++ rest).toList, by simp⟩
  | @visits _ source h hsource => exact hfor ⟨(doc ++ " IN " ++ source).toList, by simp⟩
  | @follows _ edge source h hedge hsource =>
    exact hfor ⟨(doc ++ ", " ++ edge ++ " IN " ++ source).toList, by simp⟩

/-- Plain lines need no guards. -/
theorem Guarded.of_plain {guards : List Guard} {lines : List String}
    (h : ∀ line ∈ lines, Plain line) (before : List String) : Guarded guards before lines := by
  intro pre line post doc hsplit hintroduces
  exact absurd hintroduces ((h line (by simp [hsplit])).not_introduces _ doc)

/-- A document that is fetched is introduced by its variable. -/
theorem introduces_fetch {before : List String} {name rest doc : String} (hname : IsName name)
    (h : Introduces before ("LET " ++ name ++ " = DOCUMENT(" ++ rest) doc) : doc = name := by
  generalize hline : "LET " ++ name ++ " = DOCUMENT(" ++ rest = line at h
  cases h with
  | fetches hdoc other =>
    -- both names end at the first blank
    have hchars : name.toList ++ ' ' :: ("= DOCUMENT(" ++ rest).toList =
        doc.toList ++ ' ' :: ("= DOCUMENT(" ++ other).toList := by
      simpa [← String.toList_inj] using hline
    rcases Text.append_inj_of_ends hname hdoc (by decide) (by decide) hchars with ⟨hsame, -⟩
    exact (String.toList_inj.mp hsame).symm
  | visits hdoc hsource => simp [← String.toList_inj] at hline
  | follows hdoc hedge hsource => simp [← String.toList_inj] at hline

/-- A line that sets a variable introduces a document only if it fetches one. -/
theorem not_introduces_let {name value : String} (hname : IsName name)
    (hvalue : value.toList.head? ≠ some 'D') (before : List String) (doc : String) :
    ¬ Introduces before ("LET " ++ name ++ " = " ++ value) doc := by
  generalize hline : "LET " ++ name ++ " = " ++ value = line
  intro hintroduces
  cases hintroduces with
  | fetches hdoc rest =>
    -- the names end at the first blank, so the values would be the same
    have hchars : name.toList ++ ' ' :: '=' :: ' ' :: value.toList =
        doc.toList ++ ' ' :: '=' :: ' ' :: ("DOCUMENT(" ++ rest).toList := by
      simpa [← String.toList_inj] using hline
    rcases Text.append_inj_of_ends hname hdoc (by decide) (by decide) hchars with ⟨-, hrest⟩
    have hsame : value.toList = ("DOCUMENT(" ++ rest).toList := by simpa using hrest
    rw [hsame] at hvalue
    simp at hvalue
  | visits h hsource => simp [← String.toList_inj] at hline
  | follows h hedge hsource => simp [← String.toList_inj] at hline

/-- A line that sets a variable, with no blank before the sign, introduces no document. -/
theorem not_introduces_assignment {name value : String} (hname : IsName name)
    (before : List String) (doc : String) :
    ¬ Introduces before ("LET " ++ name ++ "=" ++ value) doc := by
  generalize hline : "LET " ++ name ++ "=" ++ value = line
  intro hintroduces
  cases hintroduces with
  | fetches hdoc rest =>
    -- one name would end at the sign, the other one at a blank
    have hchars : name.toList ++ '=' :: value.toList =
        doc.toList ++ ' ' :: ("= DOCUMENT(" ++ rest).toList := by
      simpa [← String.toList_inj] using hline
    rcases Text.append_inj_of_ends hname hdoc (by decide) (by decide) hchars with ⟨-, hrest⟩
    simp at hrest
  | visits h hsource => simp [← String.toList_inj] at hline
  | follows h hedge hsource => simp [← String.toList_inj] at hline

/-- A loop introduces its variable, if it does not run over a list that was computed. -/
theorem introduces_for {before : List String} {name source doc : String} (hname : IsName name)
    (h : Introduces before ("FOR " ++ name ++ " IN " ++ source) doc) :
    doc = name ∧ ∀ rest, "LET " ++ source ++ " = " ++ rest ∉ before := by
  generalize hline : "FOR " ++ name ++ " IN " ++ source = line at h
  cases h with
  | fetches hdoc rest => simp [← String.toList_inj] at hline
  | @visits _ other hdoc hsource =>
    -- both names end at the first blank, and so the sources are the same
    have hchars : name.toList ++ ' ' :: ("IN " ++ source).toList =
        doc.toList ++ ' ' :: ("IN " ++ other).toList := by
      simpa [← String.toList_inj] using hline
    rcases Text.append_inj_of_ends hname hdoc (by decide) (by decide) hchars with ⟨hsame, hrest⟩
    have hother : source = other := String.toList_inj.mp (by simpa using hrest)
    rw [hother]
    exact ⟨(String.toList_inj.mp hsame).symm, hsource⟩
  | @follows _ edge other hdoc hedge hsource =>
    -- one name would end at a blank, the other one at a comma
    have hchars : name.toList ++ ' ' :: ("IN " ++ source).toList =
        doc.toList ++ ',' :: (" " ++ edge ++ " IN " ++ other).toList := by
      simpa [← String.toList_inj] using hline
    rcases Text.append_inj_of_ends hname hdoc (by decide) (by decide) hchars with ⟨-, hrest⟩
    simp at hrest

/-- A loop over neighbours with their edges introduces the variable of the neighbours. -/
theorem introduces_forEdge {before : List String} {name edge source doc : String}
    (hname : IsName name)
    (h : Introduces before ("FOR " ++ name ++ ", " ++ edge ++ " IN " ++ source) doc) :
    doc = name := by
  generalize hline : "FOR " ++ name ++ ", " ++ edge ++ " IN " ++ source = line at h
  cases h with
  | fetches hdoc rest => simp [← String.toList_inj] at hline
  | @visits _ other hdoc hsource =>
    -- one name would end at a comma, the other one at a blank
    have hchars : name.toList ++ ',' :: (" " ++ edge ++ " IN " ++ source).toList =
        doc.toList ++ ' ' :: ("IN " ++ other).toList := by
      simpa [← String.toList_inj] using hline
    rcases Text.append_inj_of_ends hname hdoc (by decide) (by decide) hchars with ⟨-, hrest⟩
    simp at hrest
  | @follows _ other source' hdoc hedge hsource =>
    -- both names end at the first comma
    have hchars : name.toList ++ ',' :: (" " ++ edge ++ " IN " ++ source).toList =
        doc.toList ++ ',' :: (" " ++ other ++ " IN " ++ source').toList := by
      simpa [← String.toList_inj] using hline
    rcases Text.append_inj_of_ends hname hdoc (by decide) (by decide) hchars with ⟨hsame, -⟩
    exact (String.toList_inj.mp hsame).symm

/-! ## Parts -/

/-- A script that writes lines of its own, all of them marked, and guards what it introduces after
the lines that stand before it. -/
structure LaidAfter (plan : Plan) (before : List String) (script : Script) : Prop where
  starts : Script.StartsLine .atSign script
  marked : ∀ line ∈ Script.lines .atSign script, Text.Marked line
  guarded : Guarded plan.aqlGuards before (Script.lines .atSign script)

/-- A script that is laid, whatever comes before it. -/
abbrev Laid (plan : Plan) (script : Script) : Prop := LaidAfter plan [] script

namespace LaidAfter

variable {plan : Plan} {before : List String}

theorem nil : LaidAfter plan before [] := ⟨rfl, by simp [Script.lines], .nil⟩

/-- Laid scripts are put one after the other, since the second knows what came first. -/
theorem append {a b : Script} (ha : LaidAfter plan before a)
    (hb : LaidAfter plan (before ++ Script.lines .atSign a) b) : LaidAfter plan before (a ++ b) where
  starts := ha.starts.append hb.starts
  marked := by
    rw [Script.lines_append hb.starts]
    exact List.forall_mem_append.mpr ⟨ha.marked, hb.marked⟩
  guarded := by
    rw [Script.lines_append hb.starts]
    exact ha.guarded.append hb.guarded

/-- A script of plain lines is laid. -/
theorem of_plain {script : Script} (hstarts : Script.StartsLine .atSign script)
    (h : ∀ line ∈ Script.lines .atSign script, Plain line) : LaidAfter plan before script :=
  ⟨hstarts, fun line hline => (h line hline).1, .of_plain h before⟩

/-- A line that introduces nothing. -/
theorem of_line {f : Fragment} (hmarked : Text.Marked (Fragment.render .atSign f))
    (h : ∀ doc, ¬ Introduces before (Fragment.render .atSign f) doc) :
    LaidAfter plan before [.line f] := by
  have hlines : Script.lines .atSign [.line f] = [Fragment.render .atSign f] := by
    simp [Script.lines]
  refine ⟨rfl, by simpa [hlines] using hmarked, ?_⟩
  rw [hlines]
  exact .cons (fun doc hdoc => absurd hdoc (h doc)) .nil

theorem cons {c : Command} {rest : Script} (hc : LaidAfter plan before [c])
    (hrest : LaidAfter plan (before ++ Script.lines .atSign [c]) rest) :
    LaidAfter plan before (c :: rest) := hc.append hrest

end LaidAfter

namespace Laid

variable {plan : Plan}

/-- More lines before a laid script change nothing. -/
theorem after {script : Script} (h : Laid plan script) (before : List String) :
    LaidAfter plan before script := ⟨h.starts, h.marked, h.guarded.after before⟩

theorem append {a b : Script} (ha : Laid plan a) (hb : Laid plan b) : Laid plan (a ++ b) :=
  LaidAfter.append ha (hb.after _)

theorem flatMap {α : Type} {f : α → Script} {xs : List α} (h : ∀ x ∈ xs, Laid plan (f x)) :
    Laid plan (xs.flatMap f) := by
  induction xs with
  | nil => exact .nil
  | cons x rest ih =>
    rw [List.flatMap_cons]
    exact (h x (by simp)).append (ih fun y hy => h y (by simp [hy]))

end Laid

/-- The filters of a property introduce nothing. -/
theorem laid_filtersOf (plan : Plan) (doc : Fragment) (p : Property) :
    Laid plan (filtersOf plan doc p) := by
  unfold filtersOf
  apply LaidAfter.of_plain
  · cases p.required <;> cases plan.condition? p <;> simp [Script.StartsLine]
  · cases p.required <;> cases plan.condition? p <;>
      simp [Script.lines, Plain, Text.Marked]

/-- Nor do those of a level. -/
theorem laid_filters (plan : Plan) (doc : Fragment) (ps : List Property) :
    Laid plan (filters plan doc ps) :=
  Laid.flatMap fun p _ => laid_filtersOf plan doc p

theorem laid_entries (plan : Plan) {fs : List Fragment}
    (h : ∀ f ∈ fs, ∀ rest, Plain (Fragment.render .atSign f ++ rest)) : Laid plan (entries fs) := by
  induction fs with
  | nil => exact .nil
  | cons f rest ih =>
    have hf := h f (by simp)
    have hrest := ih fun g hg => h g (by simp [hg])
    cases rest with
    | nil => exact .of_plain rfl (by simpa [entries, Script.lines] using hf "")
    | cons g rest =>
      have hline : Laid plan [.line (f ++ lit ",")] :=
        .of_plain rfl (by simpa [Script.lines] using hf ",")
      exact hline.append hrest

/-- A result introduces nothing. -/
theorem laid_result (plan : Plan) (doc : Fragment) (ps : List Property) (nested : Bool) :
    Laid plan (result doc ps nested) := by
  unfold result
  dsimp only
  refine Laid.append (.append (.append ?_ ?_) ?_) ?_
  · split
    · exact .of_plain rfl (by simp [Script.lines, Plain, Text.Marked])
    · exact .nil
  · refine .of_plain (by simp [Script.StartsLine]) ?_
    cases nested <;> simp [Script.lines, Plain, Text.Marked]
  · apply laid_entries
    simp [quotedKey, Plain, Text.Marked]
  · exact .of_plain (by simp [Script.StartsLine]) (by simp [Script.lines, Plain, Text.Marked])

/-- Nor does the end of a hop. -/
theorem laid_closeHop (plan : Plan) (p : Property) (hop : Nat) : Laid plan (closeHop p hop) := by
  unfold closeHop projectionStart
  apply LaidAfter.of_plain
  · cases p.ensureOrder <;> by_cases hhop : hop = 0 <;> simp [Script.StartsLine, hhop]
  · cases p.ensureOrder <;> by_cases hhop : hop = 0 <;>
      simp [Script.lines, Plain, Text.Marked, hhop]

theorem laid_ended (plan : Plan) (p : Property) : Laid plan (closeHop p 0 ++ closing p) := by
  unfold closeHop closing
  apply LaidAfter.of_plain
  · cases p.sort <;> cases p.collapse.isSome <;> simp [Script.StartsLine]
  · cases p.ensureOrder <;> cases p.sort <;> cases p.collapse.isSome <;>
      simp [Script.lines, Plain, Text.Marked]

theorem laid_leaf (plan : Plan) (p : Property) (doc : Fragment) (leaf : Step) :
    Laid plan [.line (lit "FILTER " ++ attr doc leaf.uri ++ lit " != NULL"),
      .line (projectionStart p ++ attr doc leaf.uri)] := by
  unfold projectionStart
  apply LaidAfter.of_plain
  · simp [Script.StartsLine]
  · cases p.ensureOrder <;> simp [Script.lines, Plain, Text.Marked]

/-- The guards of a document are written one a line. -/
theorem layout_guards (plan : Plan) (doc : Fragment) :
    Script.layout .atSign (guards plan doc) =
      ("", guardLines plan.aqlGuards (doc.render .atSign)) := by
  have htext := text_guards plan doc
  unfold guards at htext ⊢
  cases haccess : plan.access <;> cases hspaces : plan.spaces <;>
    simpa [guardLines, haccess, hspaces] using htext

/-- A guard introduces nothing. -/
theorem plain_of_mem_guardLines {guards : List Guard} {doc line : String}
    (h : line ∈ guardLines guards doc) : Plain line := by
  rcases List.mem_cons.mp h with rfl | hmem
  · simp [Plain, Text.Marked]
  · rcases List.mem_map.mp hmem with ⟨g, -, rfl⟩
    simp [Plain, Text.Marked]

/-- Lines before an introduction, the introduction, then the tests on its document. -/
theorem laid_introduction {plan : Plan} {setup : Script} {f doc : Fragment}
    (hsetup : Laid plan setup) (hf : Text.Marked (Fragment.render .atSign f))
    (hintroduces : ∀ before d, Introduces before (Fragment.render .atSign f) d →
      d = Fragment.render .atSign doc) :
    Laid plan (setup ++ ([Command.line f] ++ guards plan doc)) := by
  have hguards : Script.StartsLine .atSign (guards plan doc) := by
    rw [Script.StartsLine, layout_guards]
  have hlines : Script.lines .atSign ([Command.line f] ++ guards plan doc) =
      Fragment.render .atSign f :: guardLines plan.aqlGuards (doc.render .atSign) := by
    rw [Script.lines_append hguards, Script.lines, Script.lines, layout_guards]
    simp
  have hplain : ∀ line ∈ guardLines plan.aqlGuards (doc.render .atSign), Plain line :=
    fun line hline => plain_of_mem_guardLines hline
  refine hsetup.append ⟨?_, ?_, ?_⟩
  · simp [Script.StartsLine]
  · rw [hlines, List.forall_mem_cons]
    exact ⟨hf, fun line hline => (hplain line hline).1⟩
  · rw [hlines]
    -- only the first line introduces something, and the tests are what follows
    refine .cons ?_ (.of_plain hplain _)
    intro d hd
    obtain rfl := hintroduces _ d hd
    exact List.prefix_rfl

/-- The list of a hop is set to what a call or a loop returns. -/
theorem render_listLine (p : Property) (hop : Nat) : ∃ value : String,
    value.toList.head? ≠ some 'D' ∧ Fragment.render .atSign (listLine p hop) =
      "LET " ++ Text.safe (stepAlias p hop) ++ " = " ++ value := by
  refine ⟨Fragment.render .atSign ((if hop = 0 then opening p else []) ++
    lit (if p.ensureOrder then "FLATTEN(" else "UNIQUE(FLATTEN(")), ?_, ?_⟩
  · -- a call or a parenthesis comes first, whatever the shape of the list is
    unfold opening
    cases p.ensureOrder <;> cases p.sort <;> rcases p.collapse with _ | _ | _ <;>
      by_cases hhop : hop = 0 <;> simp [hhop]
  · simp [listLine, String.append_assoc]

/-- A visit introduces the document to which its hop leads. -/
theorem introduces_visitLine {plan : Plan} {p : Property} {source : Fragment} {hop : Nat}
    {step : Step} {before : List String} {doc : String}
    (h : Introduces before (Fragment.render .atSign (visitLine plan p source hop step)) doc) :
    doc = Fragment.render .atSign (hopDoc p hop) := by
  have hname : IsName (Fragment.render .atSign (hopDoc p hop)) := by
    simpa [hopDoc] using isName_safe _
  unfold visitLine at h
  cases hexists : plan.edgeExists step with
  -- the relation has no edges: the loop runs over no documents
  | false =>
    have hline : Fragment.render .atSign (lit "FOR " ++ hopDoc p hop ++ lit " IN []") =
        "FOR " ++ Fragment.render .atSign (hopDoc p hop) ++ " IN " ++ "[]" := by
      simp [← String.toList_inj]
    rw [hexists, if_neg (by decide), hline] at h
    exact (introduces_for hname h).1
  | true =>
    rw [hexists, if_pos rfl] at h
    -- direction and relation are behind the name, so they do not matter
    generalize lit (if step.reverse then " INBOUND " else " OUTBOUND ") = direction at h
    generalize named (Collection.ofRelation step.uri).name = relation at h
    cases hordered : p.ensureOrder with
    | false =>
      have hline : Fragment.render .atSign (lit "FOR " ++ hopDoc p hop ++
          (if p.ensureOrder then lit ", " ++ hopEdge p hop else []) ++ lit " IN 1..1" ++
          direction ++ source ++ lit " `" ++ relation ++ lit "`") =
        "FOR " ++ Fragment.render .atSign (hopDoc p hop) ++ " IN " ++
          ("1..1" ++ Fragment.render .atSign (direction ++ source ++ lit " `" ++ relation ++
            lit "`")) := by
        simp [hordered, ← String.toList_inj]
      rw [hline] at h
      exact (introduces_for hname h).1
    | true =>
      have hline : Fragment.render .atSign (lit "FOR " ++ hopDoc p hop ++
          (if p.ensureOrder then lit ", " ++ hopEdge p hop else []) ++ lit " IN 1..1" ++
          direction ++ source ++ lit " `" ++ relation ++ lit "`") =
        "FOR " ++ Fragment.render .atSign (hopDoc p hop) ++ ", " ++
          Fragment.render .atSign (hopEdge p hop) ++ " IN " ++
          ("1..1" ++ Fragment.render .atSign (direction ++ source ++ lit " `" ++ relation ++
            lit "`")) := by
        simp [hordered, ← String.toList_inj]
      rw [hline] at h
      exact introduces_forEdge hname h

/-- A hop is laid: the guards of the document that it introduces follow it. -/
theorem laid_openHop (plan : Plan) (p : Property) (parent : Fragment) (hop : Nat) (step : Step) :
    Laid plan (openHop plan p parent hop step) := by
  rcases render_listLine p hop with ⟨value, hvalue, hlist⟩
  -- the list of the hop is set to what the loop yields, which introduces nothing
  have hset : Laid plan [.line (listLine p hop), .indent] := by
    refine .cons (.of_line ?_ ?_) (.of_plain ?_ ?_)
    · simp [hlist, Text.Marked]
    · rw [hlist]
      exact not_introduces_let (isName_safe _) hvalue []
    · simp [Script.StartsLine]
    · simp [Script.lines]
  rw [openHop_eq]
  -- the visit with its tests, then the types, then the order
  refine Laid.append (.append (laid_introduction hset ?_ ?_) ?_) ?_
  · unfold visitLine
    split <;> simp [Text.Marked]
  · exact fun before d hd => introduces_visitLine hd
  · split
    · exact .nil
    · exact .of_plain rfl (by simp [Script.lines, Plain, Text.Marked])
  · split
    · exact .of_plain rfl (by simp [Script.lines, Plain, Text.Marked])
    · exact .nil

/-- The members of groups are no documents. -/
theorem not_introduces_members (before : List String) (rest doc : String) :
    ¬ Introduces before ("LET instances = (FOR " ++ rest) doc := by
  have hline : "LET instances = (FOR " ++ rest =
      "LET " ++ "instances" ++ " = " ++ ("(FOR " ++ rest) := by
    simp [← String.toList_inj]
  rw [hline]
  exact not_introduces_let (by decide) (by simp) before doc

/-- A grouping runs over the list that the first hop of its property has set. -/
theorem laid_grouping {plan : Plan} {p : Property} {before : List String}
    (hset : ∃ value, "LET " ++ Text.safe p.aliasName ++ " = " ++ value ∈ before) :
    LaidAfter plan before (grouping p) := by
  rcases hset with ⟨value, hvalue⟩
  have hplain (before : List String) {f : Fragment} (h : Plain (Fragment.render .atSign f)) :
      LaidAfter plan before [.line f] := .of_plain rfl (by simpa [Script.lines] using h)
  have hskip (before : List String) {c : Command} (h : Script.layout .atSign [c] = ("", [])) :
      LaidAfter plan before [c] :=
    .of_plain (by rw [Script.StartsLine, h]) (by simp [Script.lines, h])
  unfold grouping
  dsimp only
  refine .append (.append (.cons ?_ (.cons (hskip _ rfl) (.cons ?_ (hplain _ ?_)))) ?_)
    (.cons ?_ (.cons (hplain _ ?_) (.cons (hskip _ rfl) (hplain _ ?_))))
  · -- The list of groups is made by a loop.
    refine .of_line (by simp [Text.Marked]) ?_
    have hline : Fragment.render .atSign (lit "LET " ++ named p.groupAlias ++ lit " = (") =
        "LET " ++ Text.safe p.groupAlias ++ " = " ++ "(" := by
      simp [← String.toList_inj]
    rw [hline]
    exact not_introduces_let (isName_safe _) (by simp) _
  · -- The loop runs over the list that is set.
    refine .of_line (by simp [Text.Marked]) ?_
    intro doc hdoc
    have hline : Fragment.render .atSign (lit "FOR " ++ named (p.aliasName ++ "_g") ++ lit " IN " ++
        named p.aliasName) = "FOR " ++ Text.safe (p.aliasName ++ "_g") ++ " IN " ++
          Text.safe p.aliasName := by
      simp [String.append_assoc]
    rw [hline] at hdoc
    rcases introduces_for (isName_safe _) hdoc with ⟨-, hnot⟩
    exact hnot value (by simp [hvalue])
  · simp [Plain, Text.Marked]
  · split
    · exact hplain _ (by simp [Plain, Text.Marked])
    · exact .nil
  · -- The members of a group are collected by a loop.
    refine .of_line (by simp [Text.Marked]) ?_
    intro doc hdoc
    simp only [Fragment.render_append, Fragment.render_lit, String.append_assoc] at hdoc
    exact not_introduces_members _ _ _ hdoc
  · simp [Plain, Text.Marked]
  · simp [Plain, Text.Marked]

/-- Traversals are laid, by induction on the properties. -/
theorem laid_traversals (plan : Plan) {parent : Fragment} (h : IsDocument parent)
    (ps : List Property) : Laid plan (traversals plan parent ps) := by
  have hparts : OnParts plan (Laid plan) := {
    nil := .nil
    append := fun ha hb => ha.append hb
    opened := fun p parent hop step _ => laid_openHop plan p parent hop step
    leaf := fun p doc leaf _ => laid_leaf plan p doc leaf
    filters := fun ps _ => laid_filters plan _ ps
    result := fun ps _ => laid_result plan _ ps true
    closed := fun p hop => laid_closeHop plan p (hop + 1)
    ended := fun p => laid_ended plan p
    grouped := fun p parent step rest _ hlists => by
      refine LaidAfter.append hlists (laid_grouping ?_)
      -- The list is set by the first line of the traversal.
      rcases render_listLine p 0 with ⟨value, -, hlist⟩
      have hfirst : ∃ more, openHop plan p parent 0 step ++ rest =
          .line (listLine p 0) :: more := by
        rw [openHop_eq]
        exact ⟨_, rfl⟩
      rcases hfirst with ⟨more, hmore⟩
      refine ⟨value ++ (Script.layout .atSign more).1, ?_⟩
      rw [hmore]
      simp [Script.lines, hlist, stepAlias, String.append_assoc] }
  exact hparts.traversals h ps

/-- The access lists introduce nothing. -/
theorem laid_accessLists (plan : Plan) : Laid plan (accessLists plan.access) := by
  have hassignment (name : String) (hname : IsName name) (before : List String) (f : Fragment)
      (value : String) (hf : Fragment.render .atSign f = "LET " ++ name ++ "=" ++ value) :
      LaidAfter plan before [.line f] := by
    refine .of_line (by simp [hf, Text.Marked]) ?_
    rw [hf]
    exact not_introduces_assignment hname before
  unfold accessLists
  split
  · refine .cons (hassignment "whitelist" (by decide) _ _
      (Sigil.placeholder .atSign "readAccessBySpace") ?_) (hassignment "invitation" (by decide) _ _
      (Sigil.placeholder .atSign "readAccessByInvitation") ?_)
    · simp
    · simp
  · exact .nil

/-- The root is laid: its guards follow it. -/
theorem laid_root (plan : Plan) : Laid plan (rootSelection plan.root ++ guards plan root) := by
  have hroot : IsName "root_doc" := by decide
  have hlaid (f : Fragment) (hf : Text.Marked (Fragment.render .atSign f))
      (hintroduces : ∀ before doc, Introduces before (Fragment.render .atSign f) doc →
        doc = "root_doc") : Laid plan ([] ++ ([Command.line f] ++ guards plan root)) :=
    laid_introduction .nil hf (by simpa [root] using hintroduces)
  cases plan.root with
  -- the root is fetched by its id
  | document id =>
    refine hlaid _ (by simp [Text.Marked]) ?_
    intro before doc hdoc
    have hsplit (rest : String) : "LET root_doc = DOCUMENT(" ++ rest =
        "LET " ++ "root_doc" ++ " = DOCUMENT(" ++ rest := by
      simp
    simp only [Fragment.render_append, Fragment.render_lit, String.append_assoc] at hdoc
    rw [hsplit] at hdoc
    exact introduces_fetch hroot hdoc
  -- the roots are visited from the node of their type
  | ofType type =>
    refine hlaid _ (by simp [Text.Marked]) ?_
    intro before doc hdoc
    have hsplit (rest : String) : "FOR root_doc IN 1..1 OUTBOUND DOCUMENT(" ++ rest =
        "FOR " ++ "root_doc" ++ " IN " ++ ("1..1 OUTBOUND DOCUMENT(" ++ rest) := by
      simp [← String.toList_inj]
    simp only [Fragment.render_append, Fragment.render_lit, String.append_assoc] at hdoc
    rw [hsplit] at hdoc
    exact (introduces_for hroot hdoc).1

/-- The selection of an AQL statement is laid. -/
theorem laid_selection (plan : Plan) : Laid plan (selection plan) := by
  unfold selection
  refine Laid.append (.append (.append ?_ ?_) (laid_traversals plan .root _)) (laid_filters plan _ _)
  · -- the lists of the access filter, then the root with its tests
    rw [List.append_assoc]
    exact (laid_accessLists plan).append (laid_root plan)
  · split
    · exact .of_plain rfl (by simp [Script.lines, Plain, Text.Marked])
    · exact .nil

/-- An AQL statement is laid. -/
theorem laid_script (plan : Plan) : Laid plan (script plan) := by
  unfold script
  refine (laid_selection plan).append ?_
  split
  · exact .of_plain (by simp [countProjection, Script.StartsLine])
      (by simp [countProjection, Script.lines, Plain, Text.Marked])
  · unfold projection
    refine Laid.append (.append ?_ ?_) (laid_result plan _ _ false)
    · split
      · exact .nil
      · exact .of_plain rfl (by simp [Script.lines, Plain, Text.Marked])
    · -- only a page with a size writes a line
      rcases plan.page with _ | ⟨offset, _ | size, returnTotal⟩
      · exact .of_plain rfl (by simp [Script.lines, Script.layout, Command.started?])
      · exact .of_plain rfl (by simp [Script.lines, Script.layout, Command.started?])
      · exact .of_plain rfl
          (by simp [Script.lines, Script.layout, Command.started?, Plain, Text.Marked])

/-- A statement starts with a line of text. -/
theorem selection_eq_line (plan : Plan) :
    ∃ f rest, selection plan = .line f :: rest ∧ Fragment.render .atSign f ≠ "" := by
  unfold selection accessLists rootSelection
  cases plan.access with
  | some access => exact ⟨_, _, rfl, by simp⟩
  | none =>
    cases plan.root with
    | document id => exact ⟨_, _, rfl, by simp⟩
    | ofType type => exact ⟨_, _, rfl, by simp⟩

/-- A statement begins with a line. -/
theorem script_eq_line (plan : Plan) :
    ∃ f rest, script plan = .line f :: rest ∧ Fragment.render .atSign f ≠ "" := by
  obtain ⟨f, rest, hselection, hf⟩ := selection_eq_line plan
  exact ⟨f, _, by rw [script, hselection, List.cons_append], hf⟩

/-- The lines of the text are those of the script. -/
theorem lines_text (plan : Plan) : Text.lines ((Draft.empty .atSign).runAll (script plan)).text =
    Script.lines .atSign (script plan) := by
  have hlaid := laid_script plan
  have hfits := fits_script plan
  rcases script_eq_line plan with ⟨f, rest, hscript, hf⟩
  rw [hscript] at hlaid hfits ⊢
  exact Draft.lines_text hf hfits hlaid.marked

/-- Every document that the text of a statement introduces is tested in the next lines. -/
theorem guarded_text (plan : Plan) : Guarded plan.aqlGuards []
    (Text.lines ((Draft.empty .atSign).runAll (script plan)).text) := by
  rw [lines_text]
  exact (laid_script plan).guarded

end GraphQuery.Aql
