import GraphQuery.Proofs.Drafts
import GraphQuery.Proofs.Identifiers

/-!
# GraphQuery.Proofs.Lines — the lines of a statement's text

1. **Lines of a script**: those that its commands start, with what is added to them.
2. **Texts of drafts** grow by what is added to them.
3. **Layout**: the text of a script is made of its lines, each after some blanks.
4. **Lines of a text**, read without the blanks before them, are the lines of its script.
-/

namespace GraphQuery

/-! ## Lines of a script -/

/-- What a command starts a line with. -/
def Command.started? : Command → Option Fragment
  | .line f => some f
  | .page (some ⟨offset, some size, _⟩) =>
    some (lit "LIMIT " ++ [.number offset] ++ lit ", " ++ [.number size])
  | _ => none

namespace Script

/-- What a script adds to the line before it, and the lines that it starts. -/
def layout (sigil : Sigil) : Script → String × List String
  | [] => ("", [])
  | c :: rest =>
    match c.started? with
    | some f => ("", (Fragment.render sigil f ++ (layout sigil rest).1) :: (layout sigil rest).2)
    | none => (Fragment.render sigil c.fragment ++ (layout sigil rest).1, (layout sigil rest).2)

/-- The lines of a script, after what continues the line before it. -/
def lines (sigil : Sigil) (script : Script) : List String := (layout sigil script).2

/-- A script that adds nothing to the line before it. -/
def StartsLine (sigil : Sigil) (script : Script) : Prop := (layout sigil script).1 = ""

variable {sigil : Sigil}

/-- A command that starts a line writes it, with what continues it. -/
theorem layout_of_started {c : Command} {f : Fragment} (h : c.started? = some f) (rest : Script) :
    layout sigil (c :: rest) =
      ("", (Fragment.render sigil f ++ (layout sigil rest).1) :: lines sigil rest) := by
  simp [layout, lines, h]

/-- Any other command continues the line before. -/
theorem layout_of_continued {c : Command} (h : c.started? = none) (rest : Script) :
    layout sigil (c :: rest) =
      (Fragment.render sigil c.fragment ++ (layout sigil rest).1, lines sigil rest) := by
  simp [layout, lines, h]

@[simp]
theorem layout_nil : layout sigil [] = ("", []) := rfl

@[simp]
theorem layout_line (f : Fragment) (rest : Script) : layout sigil (.line f :: rest) =
    ("", (Fragment.render sigil f ++ (layout sigil rest).1) :: (layout sigil rest).2) := rfl

@[simp]
theorem layout_add (f : Fragment) (rest : Script) : layout sigil (.add f :: rest) =
    (Fragment.render sigil f ++ (layout sigil rest).1, (layout sigil rest).2) := rfl

@[simp]
theorem layout_indent (rest : Script) :
    layout sigil (.indent :: rest) = layout sigil rest := by
  simp [layout, Command.started?, Command.fragment]

@[simp]
theorem layout_outdent (rest : Script) :
    layout sigil (.outdent :: rest) = layout sigil rest := by
  simp [layout, Command.started?, Command.fragment]

@[simp]
theorem layout_options (o : CountOptions) (rest : Script) :
    layout sigil (.options o :: rest) = layout sigil rest := by
  simp [layout, Command.started?, Command.fragment]

/-- A script that starts with a line of its own begins after what came before. -/
theorem layout_append {a b : Script} (hb : StartsLine sigil b) :
    layout sigil (a ++ b) = ((layout sigil a).1, lines sigil a ++ lines sigil b) := by
  -- induction on the first script; the second one adds nothing to its last line
  induction a with
  | nil => exact Prod.ext hb rfl
  | cons c rest ih =>
    cases hstarted : c.started? <;> simp [layout, lines, ih, hstarted]

theorem StartsLine.append {a b : Script} (ha : StartsLine sigil a) (hb : StartsLine sigil b) :
    StartsLine sigil (a ++ b) := by
  rw [StartsLine, layout_append hb]
  exact ha

/-- The lines of scripts follow each other. -/
theorem lines_append {a b : Script} (hb : StartsLine sigil b) :
    lines sigil (a ++ b) = lines sigil a ++ lines sigil b := by
  rw [lines, layout_append hb]

/-- A script of which no command continues a line. -/
def OwnLines (script : Script) : Prop := ∀ c ∈ script, c.started? = none → c.fragment = []

/-- Commands that start their lines write one line each. -/
theorem OwnLines.layout_eq {script : Script} (h : OwnLines script) : layout sigil script =
    ("", script.filterMap fun c => c.started?.map (Fragment.render sigil)) := by
  induction script with
  | nil => rfl
  | cons c rest ih =>
    have hrest := ih fun c hc => h c (by simp [hc])
    cases hstarted : c.started? with
    | some f => simp [layout_of_started hstarted, lines, hrest, hstarted]
    -- the command writes nothing at all
    | none => simp [layout_of_continued hstarted, lines, hrest, hstarted, h c (by simp) hstarted]

end Script

/-! ## Texts of drafts -/

theorem Fragment.render_cons (sigil : Sigil) (p : Piece) (f : Fragment) :
    Fragment.render sigil (p :: f) = p.render sigil ++ Fragment.render sigil f := by
  simp [Fragment.render]

namespace Draft

/-- Adding a fragment writes it. -/
@[simp]
theorem text_add (d : Draft) (f : Fragment) : (d.add f).text = d.text ++ f.render d.sigil := by
  rw [add_eq]
  exact Fragment.render_append d.sigil d.pieces f

@[simp]
theorem sigil_add (d : Draft) (f : Fragment) : (d.add f).sigil = d.sigil := by
  rw [add_eq]

theorem indentation_add (d : Draft) (f : Fragment) : (d.add f).indentation = d.indentation := by
  rw [add_eq]

theorem sigil_startLine (d : Draft) : d.startLine.sigil = d.sigil := by
  unfold startLine
  dsimp only
  rw [sigil_add]
  split
  · rfl
  · exact sigil_add d _

/-- A draft is empty if nothing has been written. -/
theorem isEmpty_iff (d : Draft) : d.isEmpty = true ↔ d.text = "" := by
  -- a text is empty if all its pieces are
  have hpieces (f : Fragment) : (f.all fun p => (p.render d.sigil).isEmpty) = true ↔
      Fragment.render d.sigil f = "" := by
    induction f with
    | nil => simp
    | cons p rest ih =>
      rw [List.all_cons, Bool.and_eq_true, ih, Fragment.render_cons, String.append_eq_empty_iff,
        String.isEmpty_iff]
  exact hpieces d.pieces

/-- Indentation is blanks. -/
theorem render_units (sigil : Sigil) (n : Nat) :
    (Fragment.render sigil (List.replicate n (.text indentUnit))).toList =
      List.replicate (n * 3) ' ' := by
  induction n with
  | zero => rfl
  | succ n ih =>
    have hunit : indentUnit.toList = List.replicate 3 ' ' := by decide
    rw [List.replicate_succ, Fragment.render_cons, String.toList_append, ih, Nat.succ_mul,
      Nat.add_comm, List.replicate_add, ← hunit]
    rfl

/-- A line is started after a line break, unless it is the first one. -/
theorem text_startLine (d : Draft) : ∃ n, d.startLine.text.toList =
    (if d.text = "" then [] else d.text.toList ++ ['\n']) ++ List.replicate n ' ' := by
  -- three blanks for each level
  refine ⟨d.indentation * 3, ?_⟩
  unfold startLine
  by_cases hempty : d.text = ""
  · rw [if_pos ((isEmpty_iff d).mpr hempty), if_pos hempty]
    simp [text_add, render_units, hempty]
  · rw [if_neg (mt (isEmpty_iff d).mp hempty), if_neg hempty]
    simp [text_add, render_units, sigil_add, indentation_add]

theorem sigil_run (d : Draft) (c : Command) : (d.run c).sigil = d.sigil := by
  rcases c with f | f | _ | _ | (_ | ⟨offset, _ | size, returnTotal⟩) | o
  case line => exact (sigil_add _ f).trans (sigil_startLine d)
  case add => exact sigil_add d f
  case page.some.some => exact (sigil_add _ _).trans (sigil_startLine d)
  all_goals rfl

theorem sigil_runAll (script : Script) (d : Draft) : (d.runAll script).sigil = d.sigil := by
  induction script generalizing d with
  | nil => rfl
  | cons c rest ih => exact (ih (d.run c)).trans (sigil_run d c)

theorem pieces_run_started {d : Draft} {c : Command} {f : Fragment} (h : c.started? = some f) :
    (d.run c).pieces = d.startLine.pieces ++ f := by
  rcases c with g | g | _ | _ | (_ | ⟨offset, _ | size, returnTotal⟩) | o
  case line =>
    cases h
    simp [run, add_eq]
  case page.some.some =>
    cases h
    simp [run, add_eq]
  all_goals cases h

theorem pieces_run_continued {d : Draft} {c : Command} (h : c.started? = none) :
    (d.run c).pieces = d.pieces ++ c.fragment := by
  rcases c with g | g | _ | _ | (_ | ⟨offset, _ | size, returnTotal⟩) | o
  case line => cases h
  case add => simp [run, add_eq, Command.fragment]
  case page.some.some => cases h
  all_goals exact (List.append_nil _).symm

/-- A command that starts a line writes its fragment after the line break and the indentation. -/
theorem text_run_started {d : Draft} {c : Command} {f : Fragment} (h : c.started? = some f) :
    (d.run c).text = d.startLine.text ++ Fragment.render d.sigil f := by
  have hadd (f : Fragment) : (d.startLine.add f).text =
      d.startLine.text ++ Fragment.render d.sigil f := by
    rw [text_add, sigil_startLine]
  rcases c with g | g | _ | _ | (_ | ⟨offset, _ | size, returnTotal⟩) | o
  case line =>
    cases h
    exact hadd f
  case page.some.some =>
    cases h
    exact hadd _
  all_goals cases h

/-- Any other command writes its fragment alone. -/
theorem text_run_continued {d : Draft} {c : Command} (h : c.started? = none) :
    (d.run c).text = d.text ++ Fragment.render d.sigil c.fragment := by
  rcases c with g | g | _ | _ | (_ | ⟨offset, _ | size, returnTotal⟩) | o
  case line => cases h
  case add => exact text_add d g
  case page.some.some => cases h
  all_goals exact String.append_empty.symm

/-! ## Layout -/

/-- A line after some blanks. -/
def Indented (raw : List Char) (line : String) : Prop :=
  ∃ n, raw = List.replicate n ' ' ++ line.toList

/-- After a first line, a text grows by what is added to that line, and by further lines. -/
theorem text_runAll (script : Script) (d : Draft) (hd : d.text ≠ "") :
    ∃ raws, List.Forall₂ Indented raws (Script.lines d.sigil script) ∧
      (d.runAll script).text.toList = d.text.toList ++ (Script.layout d.sigil script).1.toList ++
        raws.flatMap ('\n' :: ·) := by
  -- induction on the script, for any draft that has a first line
  induction script generalizing d with
  | nil => exact ⟨[], .nil, by simp [Script.layout, runAll]⟩
  | cons c rest ih =>
    have hcons : d.runAll (c :: rest) = (d.run c).runAll rest := rfl
    rw [hcons]
    cases hstarted : c.started? with
    | some f =>
      -- a new line: a break, blanks, what the command writes, and what is added to it later
      rcases text_startLine d with ⟨n, hstart⟩
      rw [if_neg hd] at hstart
      have htext : (d.run c).text.toList = d.text.toList ++
          '\n' :: (List.replicate n ' ' ++ (Fragment.render d.sigil f).toList) := by
        simp [text_run_started hstarted, hstart]
      have hne : (d.run c).text ≠ "" := by
        intro hempty
        simp [hempty] at htext
      rcases ih (d.run c) hne with ⟨raws, hraws, hrest⟩
      rw [sigil_run] at hraws hrest
      refine ⟨(List.replicate n ' ' ++
        (Fragment.render d.sigil f ++ (Script.layout d.sigil rest).1).toList) :: raws, ?_, ?_⟩
      · rw [Script.lines, Script.layout_of_started hstarted]
        exact .cons ⟨n, rfl⟩ hraws
      · rw [hrest, htext]
        simp [Script.layout_of_started hstarted]
    | none =>
      -- the line at hand grows
      have htext := text_run_continued (d := d) hstarted
      have hne : (d.run c).text ≠ "" := by
        rw [htext]
        simp [hd]
      rcases ih (d.run c) hne with ⟨raws, hraws, hrest⟩
      rw [sigil_run] at hraws hrest
      rw [Script.lines, Script.layout_of_continued hstarted]
      refine ⟨raws, hraws, ?_⟩
      rw [hrest, htext]
      simp

end Draft

/-! ## Lines of a text -/

/-- The lines of a text, without the blanks before them. -/
def Text.lines (text : String) : List String :=
  (text.toList.splitOn '\n').map fun line => String.ofList (line.dropWhile (· == ' '))

/-- A line that starts with a mark. -/
def Text.Marked (line : String) : Prop := ∃ c ∈ line.toList.head?, c ≠ ' '

/-- An indented line is found behind its blanks. -/
theorem Draft.Indented.dropWhile_eq {raw : List Char} {line : String}
    (h : Indented raw line) (hline : Text.Marked line) :
    String.ofList (raw.dropWhile (· == ' ')) = line := by
  rcases h with ⟨n, rfl⟩
  rcases hline with ⟨c, hhead, hc⟩
  rcases List.head?_eq_some_iff.mp hhead with ⟨rest, hrest⟩
  have hdrop : (List.replicate n ' ').dropWhile (· == ' ') = [] := by simp
  -- the blanks go, and the first mark of the line stops that
  rw [List.dropWhile_append, hdrop, List.isEmpty_nil, if_pos rfl, hrest,
    List.dropWhile_cons_of_neg (by simpa using hc), ← hrest, String.ofList_toList]

/-- Safe names hold no line break. -/
theorem Text.safe_newline (s : String) : '\n' ∉ (safe s).toList := by
  simp [safe, isSafe, safeMarks]

/-- What fits stays on its line. -/
theorem Fragment.Fits.newline {Q : String → Json.Value → Prop} {f : Fragment}
    (h : Fragment.Fits Q f) (sigil : Sigil) : '\n' ∉ (Fragment.render sigil f).toList := by
  induction f with
  | nil => simp
  | cons p rest ih =>
    have hrest := ih fun q hq => h q (by simp [hq])
    -- texts have no break by assumption, names, numbers and placeholders by their characters
    have hpiece : '\n' ∉ (p.render sigil).toList := by
      cases p with
      | text s => exact h (.text s) (by simp)
      | name s => exact Text.safe_newline s
      | number n =>
        intro hmem
        exact absurd (Text.isDigit_of_mem_toString hmem) (by decide)
      | bound key value =>
        have hkey := Text.safe_newline key
        cases sigil <;> simpa [Piece.render, Sigil.placeholder, Sigil.char] using hkey
    rw [Fragment.render_cons]
    simp [hpiece, hrest]

theorem Fragment.Fits.started {Q : String → Json.Value → Prop} {c : Command} {f : Fragment}
    (h : Fragment.Fits Q c.fragment) (hstarted : c.started? = some f) : Fragment.Fits Q f := by
  rcases c with g | g | _ | _ | (_ | ⟨offset, _ | size, returnTotal⟩) | o
  case line =>
    cases hstarted
    exact h
  case page.some.some =>
    cases hstarted
    simp
  all_goals cases hstarted

/-- Where no text has a line break, no line has one. -/
theorem Script.Fits.newline {Q : String → Json.Value → Prop} {script : Script}
    (h : Script.Fits Q script) (sigil : Sigil) :
    '\n' ∉ (Script.layout sigil script).1.toList ∧
      ∀ line ∈ Script.lines sigil script, '\n' ∉ line.toList := by
  induction script with
  | nil => simp [Script.layout, Script.lines]
  | cons c rest ih =>
    rcases ih fun c hc => h c (by simp [hc]) with ⟨hadded, hlines⟩
    have hfits := h c (by simp)
    cases hstarted : c.started? with
    | some f =>
      -- a new line, with what is added to it
      have hf := (hfits.started hstarted).newline sigil
      rw [lines, layout_of_started hstarted, List.forall_mem_cons]
      exact ⟨by simp, by simp [hf, hadded], hlines⟩
    | none =>
      -- more of the line before
      have hf := hfits.newline sigil
      rw [lines, layout_of_continued hstarted]
      exact ⟨by simp [hf, hadded], hlines⟩

/-- The lines of a text are those that were indented. -/
theorem Draft.lines_of_indented {raws : List (List Char)} {lines : List String}
    (h : List.Forall₂ Indented raws lines) (hbreaks : ∀ line ∈ lines, '\n' ∉ line.toList)
    (hmarked : ∀ line ∈ lines, Text.Marked line) : (∀ raw ∈ raws, '\n' ∉ raw) ∧
      raws.map (fun raw => String.ofList (raw.dropWhile (· == ' '))) = lines := by
  induction h with
  | nil => simp
  | @cons raw line raws lines hline hrest ih =>
    rw [List.forall_mem_cons] at hbreaks hmarked
    rcases ih hbreaks.2 hmarked.2 with ⟨hnone, hmap⟩
    constructor
    · rcases hline with ⟨n, rfl⟩
      simpa [hbreaks.1] using hnone
    · rw [List.map_cons, hmap, hline.dropWhile_eq hmarked.1]

/-- A break before each further line is a break between all of them. -/
theorem append_flatMap_newline (line : List Char) (raws : List (List Char)) :
    line ++ raws.flatMap ('\n' :: ·) = ['\n'].intercalate (line :: raws) := by
  induction raws generalizing line with
  | nil => simp
  | cons raw rest ih =>
    rw [List.intercalate_cons_cons, ← ih]
    simp

/-- The text of a script that starts with a line is made of its lines, each after some blanks. -/
theorem Draft.text_eq_intercalate {sigil : Sigil} {f : Fragment} (hf : Fragment.render sigil f ≠ "")
    (rest : Script) : ∃ raws,
      List.Forall₂ Indented raws (Script.lines sigil (.line f :: rest)) ∧
      ((Draft.empty sigil).runAll (.line f :: rest)).text.toList = ['\n'].intercalate raws := by
  -- the first line is started without a break before it
  have hfirst : ((Draft.empty sigil).run (.line f)).text = Fragment.render sigil f :=
    (Draft.text_add _ f).trans String.empty_append
  have hsigil : ((Draft.empty sigil).run (.line f)).sigil = sigil := Draft.sigil_run _ _
  obtain ⟨raws, hraws, htext⟩ :=
    Draft.text_runAll rest ((Draft.empty sigil).run (.line f)) (by rwa [hfirst])
  rw [hsigil] at hraws
  rw [hfirst, hsigil, ← String.toList_append] at htext
  refine ⟨_ :: raws, ?_, htext.trans (append_flatMap_newline _ raws)⟩
  rw [Script.lines, Script.layout_of_started rfl]
  exact .cons ⟨0, rfl⟩ hraws

/-- The lines of the text of a script are those of the script. -/
theorem Draft.lines_text {Q : String → Json.Value → Prop} {sigil : Sigil} {f : Fragment}
    {rest : Script} (hf : Fragment.render sigil f ≠ "") (hfits : Script.Fits Q (.line f :: rest))
    (hmarked : ∀ line ∈ Script.lines sigil (.line f :: rest), Text.Marked line) :
    Text.lines ((Draft.empty sigil).runAll (.line f :: rest)).text =
      Script.lines sigil (.line f :: rest) := by
  rcases Draft.text_eq_intercalate hf rest with ⟨raws, hraws, htext⟩
  rcases Draft.lines_of_indented hraws (hfits.newline sigil).2 hmarked with ⟨hnone, hmap⟩
  have hne : raws ≠ [] := by
    rintro rfl
    cases hraws
  -- no line has a break in it, so splitting undoes the joining
  rw [Text.lines, htext, List.splitOn_intercalate '\n' hnone hne, hmap]

/-- A script that begins with a line writes something. -/
theorem Draft.text_runAll_ne_empty {sigil : Sigil} {f : Fragment}
    (hf : Fragment.render sigil f ≠ "") (rest : Script) :
    ((Draft.empty sigil).runAll (.line f :: rest)).text ≠ "" := by
  have hfirst : ((Draft.empty sigil).run (.line f)).text = Fragment.render sigil f :=
    (Draft.text_add _ f).trans String.empty_append
  have hne : ((Draft.empty sigil).run (.line f)).text ≠ "" := by rwa [hfirst]
  obtain ⟨raws, -, htext⟩ := Draft.text_runAll rest _ hne
  intro hempty
  have hcons : (Draft.empty sigil).runAll (.line f :: rest) =
      ((Draft.empty sigil).run (.line f)).runAll rest := rfl
  rw [← hcons, hempty] at htext
  simp [hne] at htext

/-- A script that starts a line goes on after a text with its own lines. -/
theorem Draft.exists_lines_runAll {Q : String → Json.Value → Prop} {sigil : Sigil} {d : Draft}
    {script : Script} (hsigil : d.sigil = sigil) (hd : d.text ≠ "")
    (hstarts : Script.StartsLine sigil script) (hfits : Script.Fits Q script)
    (hmarked : ∀ line ∈ Script.lines sigil script, Text.Marked line) :
    ∃ rest, (d.runAll script).text = d.text ++ rest ∧
      Text.lines rest = "" :: Script.lines sigil script := by
  subst hsigil
  rcases Draft.text_runAll script d hd with ⟨raws, hraws, htext⟩
  rcases Draft.lines_of_indented hraws (hfits.newline d.sigil).2 hmarked with ⟨hnone, hmap⟩
  rw [hstarts, String.toList_empty, List.append_nil] at htext
  refine ⟨String.ofList (raws.flatMap ('\n' :: ·)), ?_, ?_⟩
  · rw [← String.toList_inj, htext, String.toList_append, String.toList_ofList]
  · -- before the first break stands nothing
    have hbreaks : ∀ raw ∈ [] :: raws, '\n' ∉ raw := List.forall_mem_cons.mpr ⟨by simp, hnone⟩
    have hjoin := append_flatMap_newline [] raws
    rw [List.nil_append] at hjoin
    rw [Text.lines, String.toList_ofList, hjoin,
      List.splitOn_intercalate '\n' hbreaks (List.cons_ne_nil _ _), List.map_cons, hmap]
    rfl

end GraphQuery
