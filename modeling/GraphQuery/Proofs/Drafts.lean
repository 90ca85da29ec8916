import GraphQuery.Compile
import GraphQuery.Proofs.Membership

/-!
# GraphQuery.Proofs.Drafts — what a script leaves in a draft

1. **Texts** of fragments are those of their pieces.
2. **Entries**: the values that fragments, commands and scripts bind.
3. **Bindings** of a draft are the entries of its script; of one name the last one counts.
4. **Options** are left alone by commands that only write.
5. **Pieces that fit**: text of one line, and placeholders that carry what they should.
-/

namespace GraphQuery

open Json

/-! ## Texts -/

namespace Fragment

variable (sigil : Sigil)

@[simp]
theorem render_nil : Fragment.render sigil [] = "" := rfl

/-- Fragments are rendered piece by piece. -/
@[simp]
theorem render_append (f g : Fragment) :
    Fragment.render sigil (f ++ g) = Fragment.render sigil f ++ Fragment.render sigil g := by
  simp [Fragment.render]

@[simp]
theorem render_lit (s : String) : Fragment.render sigil (lit s) = s := by
  simp [Fragment.render, lit, Piece.render]

/-- A name loses its unsafe characters. -/
@[simp]
theorem render_named (s : String) : Fragment.render sigil (named s) = Text.safe s := by
  simp [Fragment.render, named, Piece.render]

@[simp]
theorem render_bound (name : String) (value : Value) :
    Fragment.render sigil (bound name value) = sigil.placeholder name := by
  simp [Fragment.render, bound, Piece.render]

@[simp]
theorem render_number_cons (n : Nat) (f : Fragment) :
    Fragment.render sigil (.number n :: f) = toString n ++ Fragment.render sigil f := by
  simp [Fragment.render, Piece.render]

end Fragment

/-! ## Entries -/

/-- What a placeholder binds. -/
def Piece.entry? : Piece → Option (String × Value)
  | .bound key value => some (Text.safe key, value)
  | _ => none

/-- The entries of a fragment: its placeholders with their values. -/
def Fragment.entries (f : Fragment) : List (String × Value) := f.filterMap Piece.entry?

@[simp]
theorem Fragment.entries_append (f g : Fragment) :
    Fragment.entries (f ++ g) = Fragment.entries f ++ Fragment.entries g :=
  List.filterMap_append

@[simp]
theorem Fragment.entries_lit (s : String) : Fragment.entries (lit s) = [] := rfl

@[simp]
theorem Fragment.entries_named (s : String) : Fragment.entries (named s) = [] := rfl

@[simp]
theorem Fragment.entries_bound (name : String) (value : Value) :
    Fragment.entries (bound name value) = [(Text.safe name, value)] := rfl

/-- Joined fragments have the entries of all of them. -/
theorem Fragment.entries_join (separator : String) (fs : List Fragment) :
    Fragment.entries (Fragment.join separator fs) = fs.flatMap Fragment.entries := by
  unfold Fragment.join
  induction fs with
  | nil => rfl
  | cons f rest ih =>
    cases rest with
    | nil => simp
    | cons g rest =>
      rw [List.intercalate_cons_cons, entries_append, entries_append, ih, entries_lit]
      simp

/-- What a command writes, apart from the limits of a page. -/
def Command.fragment : Command → Fragment
  | .line f | .add f => f
  | _ => []

/-- The entries of a script, in the order in which they are written. -/
def Script.entries (script : Script) : List (String × Value) :=
  script.flatMap fun c => Fragment.entries c.fragment

@[simp]
theorem Script.entries_nil : Script.entries [] = [] := rfl

@[simp]
theorem Script.entries_cons (c : Command) (s : Script) :
    Script.entries (c :: s) = Fragment.entries c.fragment ++ Script.entries s := rfl

@[simp]
theorem Script.entries_append (a b : Script) :
    Script.entries (a ++ b) = Script.entries a ++ Script.entries b := List.flatMap_append

/-- A command that writes, or changes the indentation. -/
def Command.Writes : Command → Prop
  | .page _ | .options _ => False
  | _ => True

/-- A script that leaves the options alone. -/
def Script.Writes (script : Script) : Prop := ∀ c ∈ script, c.Writes

namespace Draft

/-! ## Bindings -/

/-- What adding a fragment changes. -/
theorem add_eq (d : Draft) (f : Fragment) : d.add f =
    { d with
      pieces := d.pieces ++ f
      bindings := (Fragment.entries f).foldl (fun b (k, v) => b.insert k v) d.bindings } := by
  -- pieces are bound one after another, each on top of those before it
  have hfold : ∀ (f : Fragment) (d : Draft), f.foldl bindPiece d =
      { d with bindings := (Fragment.entries f).foldl (fun b (k, v) => b.insert k v) d.bindings } := by
    intro f
    induction f with
    | nil => intro d; rfl
    | cons p rest ih =>
      intro d
      rw [List.foldl_cons, ih]
      cases p <;> rfl
  exact hfold f _

/-- Adding a fragment binds its entries. -/
theorem bindings_add (d : Draft) (f : Fragment) :
    (d.add f).bindings = (Fragment.entries f).foldl (fun b (k, v) => b.insert k v) d.bindings := by
  rw [add_eq]

theorem entries_units (n : Nat) :
    Fragment.entries (List.replicate n (.text indentUnit)) = [] := by
  induction n with
  | zero => rfl
  | succ n ih => exact ih

/-- Starting a line binds nothing. -/
theorem bindings_startLine (d : Draft) : d.startLine.bindings = d.bindings := by
  have hbreak : (d.add (lit "\n")).bindings = d.bindings := rfl
  unfold startLine
  dsimp only
  rw [bindings_add, entries_units, List.foldl_nil]
  split
  · rfl
  · exact hbreak

/-- A command binds the entries of its fragment. -/
theorem bindings_run (d : Draft) (c : Command) :
    (d.run c).bindings =
      (Fragment.entries c.fragment).foldl (fun b (k, v) => b.insert k v) d.bindings := by
  cases c with
  | line f =>
    have hline : d.run (.line f) = d.startLine.add f := rfl
    rw [hline, bindings_add, bindings_startLine]
    rfl
  | add f => exact bindings_add d f
  | indent => rfl
  | outdent => rfl
  | options o => rfl
  | page p =>
    rcases p with _ | ⟨offset, _ | size, returnTotal⟩
    · rfl
    · rfl
    · exact (bindings_add d.startLine _).trans (bindings_startLine d)

/-- A script binds its entries, so that the last one of a name counts. -/
theorem bindings_runAll (d : Draft) (script : Script) :
    (d.runAll script).bindings =
      (Script.entries script).foldl (fun b (k, v) => b.insert k v) d.bindings := by
  induction script generalizing d with
  | nil => rfl
  | cons c rest ih =>
    have hcons : d.runAll (c :: rest) = (d.run c).runAll rest := rfl
    have hentries : Script.entries (c :: rest) =
        Fragment.entries c.fragment ++ Script.entries rest := rfl
    rw [hcons, ih, bindings_run, hentries, List.foldl_append]

/-- The names of a script's placeholders are those that its draft binds. -/
theorem mem_keys_bindings (sigil : Sigil) (script : Script) (name : String) :
    name ∈ ((empty sigil).runAll script).bindings.keys ↔
      name ∈ (Script.entries script).map Prod.fst := by
  have hnone : name ∉ (empty sigil).bindings.keys := by simp [empty, Dictionary.keys]
  rw [bindings_runAll, Dictionary.mem_keys_foldl_insert]
  simp [hnone]

theorem entries_startLine (d : Draft) :
    Fragment.entries d.startLine.pieces = Fragment.entries d.pieces := by
  unfold startLine
  dsimp only
  rw [add_eq, Fragment.entries_append, entries_units, List.append_nil]
  split
  · rfl
  · simp [add_eq]

/-- The pieces of a draft are those of its script, apart from line breaks and numbers. -/
theorem entries_run (d : Draft) (c : Command) : Fragment.entries (d.run c).pieces =
    Fragment.entries d.pieces ++ Fragment.entries c.fragment := by
  cases c with
  | line f =>
    have hline : d.run (.line f) = d.startLine.add f := rfl
    rw [hline, add_eq, Fragment.entries_append, entries_startLine]
    rfl
  | add f =>
    have hadd : d.run (.add f) = d.add f := rfl
    rw [hadd, add_eq, Fragment.entries_append]
    rfl
  | page p =>
    rcases p with _ | ⟨offset, _ | size, returnTotal⟩
    · exact (List.append_nil _).symm
    · exact (List.append_nil _).symm
    · -- the limits of a page are numbers
      have hline : (d.run (.page (some ⟨offset, some size, returnTotal⟩))).pieces =
          d.startLine.pieces ++ (lit "LIMIT " ++ [.number offset] ++ lit ", " ++ [.number size]) := by
        simp [run, add_eq]
      rw [hline, Fragment.entries_append, entries_startLine]
      rfl
  | indent | outdent | options o => exact (List.append_nil _).symm

/-- What has been written holds the entries of the script. -/
theorem entries_runAll (d : Draft) (script : Script) :
    Fragment.entries (d.runAll script).pieces =
      Fragment.entries d.pieces ++ Script.entries script := by
  induction script generalizing d with
  | nil => exact (List.append_nil _).symm
  | cons c rest ih =>
    have hcons : d.runAll (c :: rest) = (d.run c).runAll rest := rfl
    rw [hcons, ih, entries_run, Script.entries_cons, List.append_assoc]

/-- A name has the value that its last placeholder carries. -/
theorem get?_bindings (sigil : Sigil) (script : Script) (name : String) :
    ((empty sigil).runAll script).bindings.get? name =
      (Script.entries script).reverse.lookup name := by
  rw [bindings_runAll, Dictionary.get?_foldl_insert]
  exact Option.or_none

/-- If all placeholders of a name carry one value, that is the value of the name. -/
theorem get?_bindings_eq_some {sigil : Sigil} {script : Script} {name : String} {value : Value}
    (hmem : (name, value) ∈ Script.entries script)
    (hunique : ∀ v, (name, v) ∈ Script.entries script → v = value) :
    ((empty sigil).runAll script).bindings.get? name = some value := by
  rw [get?_bindings]
  cases hlookup : (Script.entries script).reverse.lookup name with
  -- the name has an entry, so it is found
  | none =>
    have hbeq := List.lookup_eq_none_iff.mp hlookup (name, value) (by simpa using hmem)
    simp at hbeq
  | some v =>
    rcases List.lookup_eq_some_iff.mp hlookup with ⟨before, after, hsplit, -⟩
    have hv : (name, v) ∈ (Script.entries script).reverse := by simp [hsplit]
    rw [hunique v (by simpa using hv)]

/-! ## Options -/

theorem options_add (d : Draft) (f : Fragment) : (d.add f).options = d.options := by
  rw [add_eq]

theorem options_startLine (d : Draft) : d.startLine.options = d.options := by
  unfold startLine
  dsimp only
  rw [options_add]
  split
  · rfl
  · exact options_add d _

/-- Writing does not touch the options. -/
theorem options_run {d : Draft} {c : Command} (h : c.Writes) : (d.run c).options = d.options := by
  cases c with
  | line f => exact (options_add _ f).trans (options_startLine d)
  | add f => exact options_add d f
  | indent => rfl
  | outdent => rfl
  | page p => exact h.elim
  | options o => exact h.elim

/-- Scripts are run one after the other. -/
theorem runAll_append (d : Draft) (a b : Script) : d.runAll (a ++ b) = (d.runAll a).runAll b :=
  List.foldl_append

/-- A script that only writes does not touch the options. -/
theorem options_runAll {script : Script} (h : Script.Writes script) (d : Draft) :
    (d.runAll script).options = d.options := by
  induction script generalizing d with
  | nil => rfl
  | cons c rest ih =>
    have hcons : d.runAll (c :: rest) = (d.run c).runAll rest := rfl
    rw [hcons, ih (fun c hc => h c (by simp [hc])), options_run (h c (by simp))]

end Draft

namespace Script.Writes

@[simp]
theorem nil_iff : Script.Writes [] ↔ True := by simp [Script.Writes]

@[simp]
theorem append_iff {a b : Script} :
    Script.Writes (a ++ b) ↔ Script.Writes a ∧ Script.Writes b := List.forall_mem_append

@[simp]
theorem cons_iff {c : Command} {s : Script} :
    Script.Writes (c :: s) ↔ c.Writes ∧ Script.Writes s := by
  simp [Script.Writes]

end Script.Writes

/-! ## Pieces that fit -/

/-- Text without line breaks, or a placeholder that carries what `Q` says of its name. -/
def Piece.Fits (Q : String → Value → Prop) : Piece → Prop
  | .text s => '\n' ∉ s.toList
  | .bound key value => Q key value
  | _ => True

/-- A fragment all of whose pieces fit. -/
def Fragment.Fits (Q : String → Value → Prop) (f : Fragment) : Prop := ∀ p ∈ f, p.Fits Q

/-- A script all of whose fragments fit. -/
def Script.Fits (Q : String → Value → Prop) (script : Script) : Prop :=
  ∀ c ∈ script, Fragment.Fits Q c.fragment

namespace Fragment.Fits

variable {Q : String → Value → Prop}

@[simp]
theorem nil_iff : Fragment.Fits Q [] ↔ True := by simp [Fragment.Fits]

@[simp]
theorem append_iff {f g : Fragment} :
    Fragment.Fits Q (f ++ g) ↔ Fragment.Fits Q f ∧ Fragment.Fits Q g := List.forall_mem_append

/-- A text fits if it stays on its line. -/
@[simp]
theorem lit_iff {s : String} : Fragment.Fits Q (lit s) ↔ '\n' ∉ s.toList := by
  simp [Fragment.Fits, lit, Piece.Fits]

/-- A name always fits, since line breaks are not safe. -/
@[simp]
theorem named_iff {s : String} : Fragment.Fits Q (named s) ↔ True := by
  simp [Fragment.Fits, named, Piece.Fits]

@[simp]
theorem number_cons_iff {n : Nat} {f : Fragment} :
    Fragment.Fits Q (.number n :: f) ↔ Fragment.Fits Q f := by
  simp [Fragment.Fits, Piece.Fits]

/-- A placeholder fits if its value is what `Q` asks for. -/
@[simp]
theorem bound_iff {name : String} {value : Value} :
    Fragment.Fits Q (bound name value) ↔ Q name value := by
  simp [Fragment.Fits, bound, Piece.Fits]

/-- Joined fragments fit if all of them do. -/
@[simp]
theorem join_iff {separator : String} {fs : List Fragment} (h : '\n' ∉ separator.toList) :
    Fragment.Fits Q (Fragment.join separator fs) ↔ ∀ f ∈ fs, Fragment.Fits Q f := by
  unfold Fragment.join
  induction fs with
  | nil => simp
  | cons f rest ih =>
    cases rest with
    | nil => simp
    | cons g rest =>
      -- the separator stands between the first two
      rw [List.intercalate_cons_cons, append_iff, append_iff, ih, lit_iff]
      simp [h]

end Fragment.Fits

namespace Script.Fits

variable {Q : String → Value → Prop}

@[simp]
theorem nil_iff : Script.Fits Q [] ↔ True := by simp [Script.Fits]

@[simp]
theorem append_iff {a b : Script} :
    Script.Fits Q (a ++ b) ↔ Script.Fits Q a ∧ Script.Fits Q b := List.forall_mem_append

@[simp]
theorem cons_iff {c : Command} {s : Script} :
    Script.Fits Q (c :: s) ↔ Fragment.Fits Q c.fragment ∧ Script.Fits Q s := by
  simp [Script.Fits]

end Script.Fits

/-- What a script binds is what its placeholders carry. -/
theorem Script.exists_of_mem_entries {Q : String → Value → Prop} {script : Script}
    (h : Script.Fits Q script) {name : String} {value : Value}
    (hmem : (name, value) ∈ Script.entries script) : ∃ key, Text.safe key = name ∧ Q key value := by
  rcases List.mem_flatMap.mp hmem with ⟨c, hc, hentry⟩
  rcases List.mem_filterMap.mp hentry with ⟨p, hp, hpiece⟩
  have hfits := h c hc p hp
  -- only placeholders bind something
  cases p with
  | bound key v =>
    cases hpiece
    exact ⟨key, rfl, hfits⟩
  | text s => cases hpiece
  | name s => cases hpiece
  | number n => cases hpiece

end GraphQuery
