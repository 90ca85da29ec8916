import GraphQuery.Proofs.Lines

/-!
# GraphQuery.Proofs.Outlines — statements without their values

The outline of a fragment has the same placeholders, with nothing bound to them.

1. **Outlines** of pieces, fragments, commands and scripts.
2. **Drafts**: a draft from the outline of a script is the outline of the draft.
3. **Shown alike**: scripts with one outline give the same text and bind the same names.
-/

namespace GraphQuery

open Json

/-! ## Outlines -/

/-- A placeholder without the value that is bound to it. -/
def Piece.outline : Piece → Piece
  | .bound key _ => .bound key .null
  | p => p

/-- A fragment without the values of its placeholders. -/
def Fragment.outline (f : Fragment) : Fragment := f.map Piece.outline

/-- A command without the values of its placeholders. -/
def Command.outline : Command → Command
  | .line f => .line f.outline
  | .add f => .add f.outline
  | c => c

/-- A script without the values of its placeholders. -/
def Script.outline (script : Script) : Script := script.map Command.outline

/-- The outline of a piece looks as the piece does. -/
@[simp]
theorem Piece.render_outline (sigil : Sigil) (p : Piece) :
    p.outline.render sigil = p.render sigil := by
  cases p <;> rfl

namespace Fragment

@[simp]
theorem outline_nil : Fragment.outline [] = [] := rfl

@[simp]
theorem outline_append (f g : Fragment) :
    Fragment.outline (f ++ g) = Fragment.outline f ++ Fragment.outline g := List.map_append

@[simp]
theorem outline_lit (s : String) : Fragment.outline (lit s) = lit s := rfl

@[simp]
theorem outline_named (s : String) : Fragment.outline (named s) = named s := rfl

@[simp]
theorem outline_bound (name : String) (value : Value) :
    Fragment.outline (bound name value) = bound name .null := rfl

/-- Outlines of joined fragments are joined. -/
@[simp]
theorem outline_join (separator : String) (fs : List Fragment) :
    Fragment.outline (Fragment.join separator fs) =
      Fragment.join separator (fs.map Fragment.outline) := by
  unfold Fragment.join
  induction fs with
  | nil => rfl
  | cons f rest ih =>
    cases rest with
    | nil => simp
    | cons g rest =>
      rw [List.map_cons] at ih
      rw [List.intercalate_cons_cons, outline_append, outline_append, ih, outline_lit,
        List.map_cons, List.map_cons, List.intercalate_cons_cons]

end Fragment

namespace Script

@[simp]
theorem outline_nil : Script.outline [] = [] := rfl

@[simp]
theorem outline_cons (c : Command) (s : Script) :
    Script.outline (c :: s) = c.outline :: Script.outline s := rfl

@[simp]
theorem outline_append (a b : Script) :
    Script.outline (a ++ b) = Script.outline a ++ Script.outline b := List.map_append

theorem outline_flatMap {α : Type} (f : α → Script) (xs : List α) :
    Script.outline (xs.flatMap f) = xs.flatMap fun x => Script.outline (f x) :=
  List.map_flatMap

end Script

/-! ## Drafts -/

namespace Draft

/-- A draft in which nothing is bound to its placeholders. -/
def outline (d : Draft) : Draft :=
  { d with pieces := d.pieces.outline, bindings := d.bindings.map fun (name, _) => (name, .null) }

/-- The outline of a draft has its text. -/
theorem text_outline (d : Draft) : d.outline.text = d.text := by
  simp [text, outline, Fragment.render, Fragment.outline, Function.comp_def]

/-- The outline of a draft binds the same names. -/
theorem keys_outline (d : Draft) : d.outline.bindings.keys = d.bindings.keys := by
  simp [outline, Dictionary.keys, Function.comp_def]

theorem isEmpty_outline (d : Draft) : d.outline.isEmpty = d.isEmpty := by
  simp [isEmpty, outline, Fragment.outline, Function.comp_def]

/-- Where a name stands in a dictionary does not depend on its value. -/
theorem map_insert (name : String) (value : Value) (d : Dictionary Value) :
    (d.insert name value).map (fun (name, _) => (name, Value.null)) =
      Dictionary.insert name .null (d.map fun (name, _) => (name, .null)) := by
  induction d with
  | nil => rfl
  | cons entry rest ih =>
    rw [List.map_cons, Dictionary.insert, Dictionary.insert]
    by_cases hlt : name < entry.1
    · rw [if_pos hlt, if_pos hlt]
      rfl
    · rw [if_neg hlt, if_neg hlt]
      by_cases heq : name = entry.1
      · rw [if_pos heq, if_pos heq]
        rfl
      · rw [if_neg heq, if_neg heq, List.map_cons, ih]

/-- Binding a piece in an outline binds no more than its name. -/
theorem outline_bindPiece (d : Draft) (p : Piece) :
    (d.bindPiece p).outline = d.outline.bindPiece p.outline := by
  cases p with
  | bound name value =>
    have hinsert := map_insert (Text.safe name) value d.bindings
    simpa [outline, bindPiece, bind, Piece.outline] using hinsert
  | text s => rfl
  | name s => rfl
  | number n => rfl

theorem outline_add (d : Draft) (f : Fragment) : (d.add f).outline = d.outline.add f.outline := by
  -- the pieces are bound one after another
  have hfold : ∀ (f : Fragment) (d : Draft), (f.foldl bindPiece d).outline =
      f.outline.foldl bindPiece d.outline := by
    intro f
    induction f with
    | nil => intro d; rfl
    | cons p rest ih =>
      intro d
      rw [List.foldl_cons, ih, outline_bindPiece]
      rfl
  unfold add
  rw [hfold]
  simp [outline]

theorem outline_startLine (d : Draft) : d.startLine.outline = d.outline.startLine := by
  have hunits (n : Nat) : Fragment.outline (List.replicate n (.text indentUnit)) =
      List.replicate n (.text indentUnit) := by
    simp [Fragment.outline, Piece.outline]
  unfold startLine
  dsimp only
  rw [isEmpty_outline]
  cases d.isEmpty with
  | true =>
    rw [if_pos rfl, if_pos rfl, outline_add, hunits]
    rfl
  | false =>
    rw [if_neg Bool.false_ne_true, if_neg Bool.false_ne_true, outline_add, outline_add, hunits,
      indentation_add, indentation_add]
    rfl

/-- One command, and its outline. -/
theorem outline_run (d : Draft) (c : Command) : (d.run c).outline = d.outline.run c.outline := by
  rcases c with f | f | _ | _ | (_ | ⟨offset, _ | size, returnTotal⟩) | o
  case line =>
    have hrun (d : Draft) (f : Fragment) : d.run (.line f) = d.startLine.add f := rfl
    rw [hrun, outline_add, outline_startLine]
    rfl
  case add => exact outline_add d f
  case page.some.some =>
    -- the limits of a page have no placeholders
    have hlimits := outline_add d.startLine
      (lit "LIMIT " ++ [.number offset] ++ lit ", " ++ [.number size])
    rw [outline_startLine] at hlimits
    exact congrArg (fun d : Draft => { d with options := ⟨returnTotal, false⟩ }) hlimits
  all_goals rfl

/-- All commands of a script, and their outlines. -/
theorem outline_runAll (d : Draft) (script : Script) :
    (d.runAll script).outline = d.outline.runAll script.outline := by
  induction script generalizing d with
  | nil => rfl
  | cons c rest ih =>
    have hcons : d.runAll (c :: rest) = (d.run c).runAll rest := rfl
    rw [hcons, ih, outline_run]
    rfl

end Draft

/-! ## Shown alike -/

section

variable {a b : Script}

/-- Scripts with one outline write the same texts and bind the same names. -/
theorem Draft.outline_eq_of_outline_eq (h : a.outline = b.outline) (sigil : Sigil) :
    ((Draft.empty sigil).runAll a).outline = ((Draft.empty sigil).runAll b).outline := by
  rw [outline_runAll, outline_runAll, h]

/-- Scripts with one outline give the same text. -/
theorem Draft.text_eq_of_outline_eq (h : a.outline = b.outline) (sigil : Sigil) :
    ((Draft.empty sigil).runAll a).text = ((Draft.empty sigil).runAll b).text := by
  rw [← text_outline, outline_eq_of_outline_eq h, text_outline]

/-- Scripts with one outline bind the same names. -/
theorem Draft.keys_eq_of_outline_eq (h : a.outline = b.outline) (sigil : Sigil) :
    ((Draft.empty sigil).runAll a).bindings.keys =
      ((Draft.empty sigil).runAll b).bindings.keys := by
  rw [← keys_outline, outline_eq_of_outline_eq h, keys_outline]

end

end GraphQuery
