import GraphQuery.Proofs.Matches
import GraphQuery.Proofs.Readings
import Mathlib.Data.List.Induction

/-!
# GraphQuery.Proofs.Placements — where the placeholders of a text stand

1. **Placeholders** of a text, as a dialect reads them: a sigil and the longest word after it.
2. **Positions** of a text, symbol by symbol: within a quoted region, right after a placeholder, or
   outside of both.
3. **Fences**: no text has a sigil, and no placeholder goes on behind a name.
4. **Placed fragments** have their placeholders outside quoted regions, and no name goes on after
   one.
5. **Scripts** of placed fragments: the placeholders of the text are those that were bound.
-/

namespace GraphQuery

open Json
open Aql (isWordChar written)

/-! ## Placeholders -/

/-- Marks between which no placeholder stands. -/
def regionMarks : List Char := ['`', '"']

/-- What a reader of placeholders knows at a position in a text. -/
inductive Seeker
  | outside
  /-- Within a quoted region, which ends where its mark comes again. -/
  | inside (mark : Char)
  /-- After a sigil, with the name so far. -/
  | naming (name : List Char)
deriving Repr, DecidableEq

namespace Seeker

/-- The name at hand. A sigil without a word after it is no placeholder. -/
def found : Seeker → List String
  | naming name => if name.any isWordChar then [String.ofList name] else []
  | _ => []

/-- Reads a character that goes on with no name. -/
def enter (sigil : Sigil) (c : Char) : Seeker :=
  if c = sigil.char then naming [] else if c ∈ regionMarks then inside c else outside

/-- Whether a name may go on with a character. The name of a collection begins with a second
sigil. -/
def goesOn (sigil : Sigil) (name : List Char) (c : Char) : Bool :=
  isWordChar c || sigil == .atSign && name.isEmpty && c == '@'

/-- Reads a character, and tells what ends with it. -/
def step (sigil : Sigil) : Seeker → Char → List String × Seeker
  | outside, c => ([], enter sigil c)
  | inside mark, c => ([], if c = mark then outside else inside mark)
  | naming name, c =>
    if goesOn sigil name c then ([], naming (name ++ [c])) else ((naming name).found, enter sigil c)

/-- The names that end within a text, and what the reader knows after it. -/
def scan (sigil : Sigil) (s : Seeker) : List Char → List String × Seeker
  | [] => ([], s)
  | c :: rest =>
    ((s.step sigil c).1 ++ (scan sigil (s.step sigil c).2 rest).1,
      (scan sigil (s.step sigil c).2 rest).2)

/-- All names that a reader finds. -/
def names (sigil : Sigil) (s : Seeker) (text : List Char) : List String :=
  (s.scan sigil text).1 ++ (s.scan sigil text).2.found

end Seeker

/-- The names of the placeholders in a text. -/
def Text.placeholders (sigil : Sigil) (text : String) : List String :=
  Seeker.outside.names sigil text.toList

example : Text.placeholders .atSign "FOR d IN DOCUMENT(@@types, @id) FILTER d.`@type` == \"@a\"" =
    ["@types", "id"] := by decide

example : Text.placeholders .dollar "any(v IN [n.`$a`] WHERE v = $p_staticFilter0)" =
    ["p_staticFilter0"] := by decide

/-- A name that is read as it is written. -/
def IsPlaceholderName (sigil : Sigil) (name : String) : Prop :=
  Text.placeholders sigil (sigil.placeholder name) = [name]

instance (sigil : Sigil) (name : String) : Decidable (IsPlaceholderName sigil name) :=
  inferInstanceAs (Decidable (Text.placeholders sigil (sigil.placeholder name) = [name]))

namespace Seeker

variable {sigil : Sigil}

theorem scan_append (s : Seeker) (xs ys : List Char) : s.scan sigil (xs ++ ys) =
    ((s.scan sigil xs).1 ++ ((s.scan sigil xs).2.scan sigil ys).1,
      ((s.scan sigil xs).2.scan sigil ys).2) := by
  induction xs generalizing s with
  | nil => rfl
  | cons c rest ih => simp [scan, ih]

/-- Names are found text by text. -/
theorem names_append (s : Seeker) (xs ys : List Char) :
    s.names sigil (xs ++ ys) = (s.scan sigil xs).1 ++ (s.scan sigil xs).2.names sigil ys := by
  simp [names, scan_append]

theorem names_cons (s : Seeker) (c : Char) (rest : List Char) :
    s.names sigil (c :: rest) = (s.step sigil c).1 ++ (s.step sigil c).2.names sigil rest :=
  names_append s [c] rest |>.trans (by simp [scan])

/-- A reader outside quoted regions, perhaps within a name. -/
def IsOpen : Seeker → Prop
  | inside _ => False
  | _ => True

/-- No name goes on with a character that is apart from words. -/
theorem IsOpen.step_apart {s : Seeker} (hs : s.IsOpen) {c : Char} (hword : isWordChar c = false)
    (hsigil : c ≠ sigil.char) : s.step sigil c = (s.found, enter sigil c) := by
  cases s with
  | outside => rfl
  | inside mark => exact hs.elim
  | naming name =>
    have hstop : goesOn sigil name c = false := by
      cases sigil
      · have hc : (c == '@') = false := by simpa [Sigil.char] using hsigil
        simp [goesOn, hword, hc]
      · simp [goesOn, hword]
    simp [step, hstop]

/-- The characters of a placeholder open no region. -/
theorem IsOpen.scan_safe {s : Seeker} (hs : s.IsOpen) {text : List Char}
    (htext : ∀ c ∈ text, c ∉ regionMarks) : (s.scan sigil text).2.IsOpen := by
  induction text generalizing s with
  | nil => exact hs
  | cons c rest ih =>
    rw [List.forall_mem_cons] at htext
    have henter : (enter sigil c).IsOpen := by
      unfold enter
      rw [if_neg htext.1]
      split <;> exact trivial
    refine ih (s := (s.step sigil c).2) ?_ htext.2
    cases s with
    | outside => exact henter
    | inside mark => exact hs.elim
    | naming name =>
      rw [step]
      split
      · exact trivial
      · exact henter

end Seeker

/-! ## Positions -/

/-- A position in a text. -/
inductive Position
  | outside
  /-- Right after a placeholder. -/
  | named
  | inside (mark : Char)
deriving Repr, DecidableEq

namespace Position

/-- Outside quoted regions. -/
def IsOpen : Position → Prop
  | inside _ => False
  | _ => True

/-- The position after a symbol. Outside quoted regions, sigils belong to placeholders, and what
follows a placeholder is no character of a name. -/
def step (sigil : Sigil) : Position → Symbol → Option Position
  | inside mark, .char c => some (if c = mark then outside else inside mark)
  | outside, .char c =>
    if c = sigil.char then none else some (if c ∈ regionMarks then inside c else outside)
  | named, .char c =>
    if c = sigil.char ∨ Text.isSafe c = true then none
    else some (if c ∈ regionMarks then inside c else outside)
  | outside, .placeholder _ => some named
  | _, .placeholder _ => none

/-- Reads symbols, as long as they stand where they may. -/
def read (sigil : Sigil) (position : Position) : List Symbol → Option Position
  | [] => some position
  | s :: rest => (position.step sigil s).bind fun next => next.read sigil rest

variable {sigil : Sigil}

theorem read_append (position : Position) (xs ys : List Symbol) :
    position.read sigil (xs ++ ys) =
      (position.read sigil xs).bind fun next => next.read sigil ys := by
  induction xs generalizing position with
  | nil => rfl
  | cons s rest ih => simp [read, ih, Option.bind_assoc]

/-- What a reader of placeholders may know at a position. -/
def Agrees : Position → Seeker → Prop
  | outside, s => s = .outside
  | named, s => s.IsOpen
  | inside mark, s => s = .inside mark

end Position

/-- The names that a symbol is read as. -/
def Symbol.names (sigil : Sigil) : Symbol → List String
  | char _ => []
  | placeholder name => Text.placeholders sigil (sigil.placeholder name)

/-- A placeholder opens no region. -/
theorem Sigil.not_mem_regionMarks (sigil : Sigil) (name : String) :
    ∀ c ∈ (sigil.placeholder name).toList, c ∉ regionMarks := by
  have hsigil : sigil.char ∉ regionMarks := by cases sigil <;> decide
  have hsafe : ∀ c, Text.isSafe c = true → c ∉ regionMarks := by
    intro c hc hmem
    have hall : regionMarks.all (fun m => !Text.isSafe m) = true := by decide
    have hunsafe := List.all_eq_true.mp hall c hmem
    simp [hc] at hunsafe
  intro c hc
  simp only [Sigil.placeholder, String.toList_append, Char.toString_eq_singleton,
    String.toList_singleton, List.mem_append, List.mem_singleton, Text.safe, String.toList_ofList,
    List.mem_filter] at hc
  rcases hc with rfl | ⟨-, hc⟩
  · exact hsigil
  · exact hsafe c hc

/-- A word holds no sigil. -/
theorem Sigil.not_mem_word (sigil : Sigil) {w : String} (h : Cypher.IsWord w) :
    sigil.char ∉ w.toList := by
  have hsigil : ¬ (sigil.char.isAlphanum = true ∨ sigil.char = '_') := by cases sigil <;> decide
  exact fun hmem => hsigil (h _ hmem)

/-- Words have safe characters only. -/
theorem not_isWordChar_of_not_isSafe {c : Char} (h : Text.isSafe c = false) :
    isWordChar c = false := by
  rw [Text.isSafe, Bool.or_eq_false_iff] at h
  rw [isWordChar, h.1, Bool.false_or, beq_eq_false_iff_ne]
  rintro rfl
  exact absurd h.2 (by decide)

/-- Outside quoted regions, a character other than the sigil ends no name. -/
theorem Position.agrees_enter {sigil : Sigil} {c : Char} (hc : c ≠ sigil.char) :
    (if c ∈ regionMarks then Position.inside c else .outside).Agrees (Seeker.enter sigil c) ∧
      (Seeker.enter sigil c).found = [] := by
  unfold Seeker.enter
  rw [if_neg hc]
  split <;> exact ⟨rfl, rfl⟩

/-- Where a symbol may stand, a reader finds the name at hand and those of the symbol. -/
theorem Position.scan_eq {sigil : Sigil} {symbol : Symbol} {position next : Position} {s : Seeker}
    (hs : position.Agrees s) (h : position.step sigil symbol = some next) :
    (s.scan sigil (symbol.render sigil)).1 ++ (s.scan sigil (symbol.render sigil)).2.found =
        s.found ++ symbol.names sigil ∧
      next.Agrees (s.scan sigil (symbol.render sigil)).2 := by
  cases symbol with
  | char c =>
    have hscan : s.scan sigil (Symbol.render sigil (.char c)) = s.step sigil c := by
      simp [Symbol.render, Seeker.scan]
    rw [hscan, Symbol.names, List.append_nil]
    cases position with
    | outside =>
      cases hs
      simp only [Position.step, Option.ite_none_left_eq_some, Option.some.injEq] at h
      obtain ⟨hc, rfl⟩ := h
      obtain ⟨hagrees, hfound⟩ := agrees_enter hc
      exact ⟨hfound, hagrees⟩
    | named =>
      simp only [Position.step, Option.ite_none_left_eq_some, Option.some.injEq, not_or,
        Bool.not_eq_true] at h
      obtain ⟨⟨hc, hsafe⟩, rfl⟩ := h
      have hword := not_isWordChar_of_not_isSafe hsafe
      obtain ⟨hagrees, hfound⟩ := agrees_enter hc
      have hopen : s.IsOpen := hs
      rw [hopen.step_apart hword hc, hfound, List.append_nil]
      exact ⟨rfl, hagrees⟩
    | inside mark =>
      cases hs
      cases h
      rw [Seeker.step]
      split <;> exact ⟨rfl, rfl⟩
  | placeholder name =>
    cases position with
    | outside =>
      cases hs
      cases h
      have hopen : Seeker.outside.IsOpen := trivial
      exact ⟨rfl, hopen.scan_safe (sigil.not_mem_regionMarks name)⟩
    | named => cases h
    | inside mark => cases h

/-- Where every symbol has its place, a reader finds the placeholders one by one. -/
theorem Position.names_eq {sigil : Sigil} {symbols : List Symbol} {position last : Position}
    {s : Seeker} (hs : position.Agrees s) (h : position.read sigil symbols = some last) :
    s.names sigil (symbols.flatMap (Symbol.render sigil)) =
      s.found ++ symbols.flatMap (Symbol.names sigil) := by
  induction symbols generalizing position s with
  | nil => simp [Seeker.names, Seeker.scan]
  | cons symbol rest ih =>
    obtain ⟨next, hstep, hrest⟩ := Option.bind_eq_some_iff.mp h
    obtain ⟨hfound, hnext⟩ := scan_eq hs hstep
    rw [List.flatMap_cons, List.flatMap_cons, Seeker.names_append, ih hnext hrest,
      ← List.append_assoc, hfound, List.append_assoc]

/-! ## Names -/

namespace Seeker

variable {sigil : Sigil}

/-- A name that is read letter by letter. -/
structure Spells (sigil : Sigil) (name : List Char) : Prop where
  scan : Seeker.outside.scan sigil (sigil.char :: name) = ([], .naming name)
  safe : ∀ c ∈ name, Text.isSafe c = true

theorem Spells.nil : Spells sigil [] := by
  constructor
  · simp [Seeker.scan, step, enter]
  · simp

theorem Spells.snoc {name : List Char} (h : Spells sigil name) {c : Char}
    (hc : goesOn sigil name c = true) : Spells sigil (name ++ [c]) := by
  constructor
  · rw [← List.cons_append, scan_append, h.scan]
    simp [Seeker.scan, step, hc]
  · have hsafe : Text.isSafe c = true := by
      simp only [goesOn, isWordChar, Bool.or_eq_true, Bool.and_eq_true, beq_iff_eq] at hc
      rcases hc with (halnum | rfl) | ⟨-, rfl⟩
      · simp [Text.isSafe, halnum]
      · decide
      · decide
    simpa [or_imp, forall_and, hsafe] using h.safe

/-- What spells a name is read as this name. -/
theorem Spells.isPlaceholderName {name : List Char} (h : Spells sigil name)
    (hword : name.any isWordChar = true) : IsPlaceholderName sigil (String.ofList name) := by
  have hsafe : Text.safe (String.ofList name) = String.ofList name :=
    Text.safe_eq_self (by simpa using h.safe)
  simp [IsPlaceholderName, Text.placeholders, Sigil.placeholder, hsafe, names, h.scan, found, hword]

/-- A name at hand is always read letter by letter. -/
def IsSpelt (sigil : Sigil) (s : Seeker) : Prop := ∀ name, s = .naming name → Spells sigil name

theorem IsSpelt.enter (c : Char) : IsSpelt sigil (enter sigil c) := by
  unfold Seeker.enter
  intro name h
  split at h
  · cases h
    exact .nil
  · split at h <;> cases h

theorem IsSpelt.step {s : Seeker} (hs : IsSpelt sigil s) (c : Char) :
    IsSpelt sigil (s.step sigil c).2 ∧
      ∀ name ∈ (s.step sigil c).1, IsPlaceholderName sigil name := by
  cases s with
  | outside => exact ⟨.enter c, by simp [Seeker.step]⟩
  | inside mark =>
    refine ⟨fun name h => ?_, by simp [Seeker.step]⟩
    dsimp only [Seeker.step] at h
    split at h <;> cases h
  | naming name =>
    have hname := hs name rfl
    rw [Seeker.step]
    split
    · rename_i hc
      refine ⟨fun longer h => ?_, by simp⟩
      cases h
      exact hname.snoc hc
    · refine ⟨.enter c, ?_⟩
      rw [found]
      split
      · exact List.forall_mem_singleton.mpr (hname.isPlaceholderName ‹_›)
      · simp

/-- All names that are found are names of placeholders. -/
theorem IsSpelt.names {s : Seeker} (hs : IsSpelt sigil s) (text : List Char) :
    ∀ name ∈ s.names sigil text, IsPlaceholderName sigil name := by
  induction text generalizing s with
  | nil =>
    -- the name at hand ends with the text
    intro name hname
    cases s with
    | naming word =>
      simp only [Seeker.names, scan, found, List.nil_append] at hname
      split at hname
      · rw [List.mem_singleton.mp hname]
        exact (hs word rfl).isPlaceholderName ‹_›
      · cases hname
    | outside | inside mark => simp [Seeker.names, scan, found] at hname
  | cons c rest ih =>
    obtain ⟨hnext, hfound⟩ := hs.step c
    rw [names_cons, List.forall_mem_append]
    exact ⟨hfound, ih hnext⟩

end Seeker

/-- What is read is read as it is written. -/
theorem Text.isPlaceholderName_of_mem {sigil : Sigil} {text name : String}
    (h : name ∈ Text.placeholders sigil text) : IsPlaceholderName sigil name :=
  Seeker.IsSpelt.names (fun _ h => by cases h) text.toList name h

/-- A word is read as it is written. -/
theorem isPlaceholderName_of_word (sigil : Sigil) {name : String} (h : Cypher.IsWord name)
    (hne : name ≠ "") : IsPlaceholderName sigil name := by
  have hword : ∀ c ∈ name.toList, isWordChar c = true := by
    intro c hc
    rcases h c hc with halnum | rfl
    · simp [isWordChar, halnum]
    · decide
  have hspells : ∀ cs : List Char, (∀ c ∈ cs, isWordChar c = true) → Seeker.Spells sigil cs := by
    intro cs
    induction cs using List.reverseRecOn with
    | nil => exact fun _ => .nil
    | append_singleton before c ih =>
      intro hcs
      refine (ih fun d hd => hcs d (by simp [hd])).snoc ?_
      simp [Seeker.goesOn, hcs c (by simp)]
  have hany : name.toList.any isWordChar = true := by
    cases hchars : name.toList with
    | nil => exact absurd (String.toList_eq_nil_iff.mp hchars) hne
    | cons c rest =>
      rw [hchars, List.forall_mem_cons] at hword
      simp [hword.1]
  simpa using (hspells name.toList hword).isPlaceholderName hany

/-! ## Fences -/

/-- Whether no name goes on with a text. -/
def startsApart (s : String) : Bool := s.toList.head?.any fun c => !Text.isSafe c

namespace Fragment

/-- Pieces between which no name goes on with a sigil: texts have none, and where a client's name
has one, a text follows that is apart. -/
inductive Fenced (sigil : Sigil) : Fragment → Prop
  | nil : Fenced sigil []
  | text {s : String} {rest : Fragment} (hs : sigil.char ∉ s.toList) (hrest : Fenced sigil rest) :
      Fenced sigil (.text s :: rest)
  | number {n : Nat} {rest : Fragment} (hrest : Fenced sigil rest) :
      Fenced sigil (.number n :: rest)
  | bound {name : String} {value : Value} {rest : Fragment} (hrest : Fenced sigil rest) :
      Fenced sigil (.bound name value :: rest)
  | name {s : String} {rest : Fragment} (hs : sigil.char ∉ (Text.safe s).toList)
      (hrest : Fenced sigil rest) : Fenced sigil (.name s :: rest)
  | quoted {s t : String} {rest : Fragment} (ht : startsApart t = true)
      (hrest : Fenced sigil (.text t :: rest)) : Fenced sigil (.name s :: .text t :: rest)

namespace Fenced

variable {sigil : Sigil}

theorem tail {p : Piece} {rest : Fragment} (h : Fenced sigil (p :: rest)) : Fenced sigil rest := by
  cases h with
  | text _ hrest | number hrest | bound hrest | name _ hrest | quoted _ hrest => exact hrest

theorem not_mem {s : String} {rest : Fragment} (h : Fenced sigil (.text s :: rest)) :
    sigil.char ∉ s.toList := by
  cases h with
  | text hs => exact hs

/-- No text of the compiler's own holds a sigil. -/
theorem not_mem_of_mem {f : Fragment} (h : Fenced sigil f) {s : String} (hs : .text s ∈ f) :
    sigil.char ∉ s.toList := by
  induction f with
  | nil => cases hs
  | cons p rest ih =>
    rcases List.mem_cons.mp hs with rfl | hs
    · exact h.not_mem
    · exact ih h.tail hs

theorem append {f g : Fragment} (hf : Fenced sigil f) (hg : Fenced sigil g) :
    Fenced sigil (f ++ g) := by
  induction hf with
  | nil => exact hg
  | text hs _ ih => exact .text hs ih
  | number _ ih => exact .number ih
  | bound _ ih => exact .bound ih
  | name hs _ ih => exact .name hs ih
  | quoted ht _ ih => exact .quoted ht ih

theorem of_append {f g : Fragment} (h : Fenced sigil (f ++ g)) : Fenced sigil g := by
  induction f with
  | nil => exact h
  | cons p rest ih => exact ih h.tail

theorem lit {s : String} (h : sigil.char ∉ s.toList) : Fenced sigil (lit s) := .text h .nil

end Fenced

end Fragment

/-! ## Placed fragments -/

/-- The position after a fragment. -/
def Position.through (sigil : Sigil) (position : Position) (f : Fragment) : Option Position :=
  position.read sigil (Fragment.symbols f)

/-- Text that leaves a reader outside quoted regions, and has neither a line break nor a sigil. -/
def isPlainText (sigil : Sigil) (s : String) : Bool :=
  Position.read sigil .outside (s.toList.map .char) = some .outside &&
    !s.toList.contains '\n' && !s.toList.contains sigil.char

namespace Fragment

/-- A fragment whose placeholders carry what `Q` says of their names. They stand outside quoted
regions, which are all closed, and the fragment may be followed by anything. -/
structure Placed (sigil : Sigil) (Q : String → Value → Prop) (f : Fragment) : Prop where
  fits : Fragment.Fits Q f
  fenced : Fragment.Fenced sigil f
  through : Position.through sigil .outside f = some .outside

/-- A fragment of the same kind, which may end in a placeholder. -/
structure Placing (sigil : Sigil) (Q : String → Value → Prop) (f : Fragment) : Prop where
  fits : Fragment.Fits Q f
  fenced : Fragment.Fenced sigil f
  through : ∃ last, Position.through sigil .outside f = some last ∧ last.IsOpen

variable {sigil : Sigil} {Q : String → Value → Prop}

/-- Positions are read fragment by fragment. -/
theorem through_append (position : Position) (f g : Fragment) : position.through sigil (f ++ g) =
    (position.through sigil f).bind fun position => position.through sigil g := by
  rw [Position.through, symbols_append, Position.read_append]
  rfl

theorem through_lit (position : Position) (s : String) :
    position.through sigil (lit s) = position.read sigil (s.toList.map .char) := by
  rw [Position.through, symbols_lit]

theorem through_named (position : Position) (name : String) : position.through sigil (named name) =
    position.read sigil ((Text.safe name).toList.map .char) := by
  rw [Position.through, symbols_named]

/-- A placed fragment may stand where one may that ends in a placeholder. -/
theorem Placed.placing {f : Fragment} (h : Fragment.Placed sigil Q f) :
    Fragment.Placing sigil Q f := ⟨h.fits, h.fenced, .outside, h.through, trivial⟩

@[simp]
theorem Placed.nil : Fragment.Placed sigil Q [] := ⟨by simp, .nil, rfl⟩

/-- What follows a placed fragment is placed by itself. -/
@[simp]
theorem Placed.append_iff {f g : Fragment} (hf : Fragment.Placed sigil Q f) :
    Fragment.Placed sigil Q (f ++ g) ↔ Fragment.Placed sigil Q g := by
  have hthrough : Position.through sigil .outside (f ++ g) = Position.through sigil .outside g := by
    rw [through_append, hf.through, Option.bind_some]
  constructor
  · intro h
    exact ⟨(Fragment.Fits.append_iff.mp h.fits).2, h.fenced.of_append, hthrough.symm.trans h.through⟩
  · intro h
    exact ⟨Fragment.Fits.append_iff.mpr ⟨hf.fits, h.fits⟩, hf.fenced.append h.fenced,
      hthrough.trans h.through⟩

theorem Placed.append {f g : Fragment} (hf : Fragment.Placed sigil Q f)
    (hg : Fragment.Placed sigil Q g) : Fragment.Placed sigil Q (f ++ g) := hf.append_iff.mpr hg

/-- Text without sigils, whose regions are closed, is placed. -/
@[simp]
theorem Placed.text {s : String} (h : isPlainText sigil s = true) :
    Fragment.Placed sigil Q (lit s) := by
  simp only [isPlainText, Bool.and_eq_true, decide_eq_true_eq, Bool.not_eq_true',
    List.contains_eq_mem, decide_eq_false_iff_not] at h
  obtain ⟨⟨hread, hbreak⟩, hsigil⟩ := h
  exact ⟨Fragment.Fits.lit_iff.mpr hbreak, .lit hsigil, by rw [through_lit, hread]⟩

/-- A name outside quotes, if it has no sigil. -/
theorem Placed.name {name : String} (h : sigil.char ∉ (Text.safe name).toList) :
    Fragment.Placed sigil Q (named name) := by
  refine ⟨by simp, .name h .nil, ?_⟩
  rw [through_named]
  have hchars : ∀ c ∈ (Text.safe name).toList, c ≠ sigil.char ∧ c ∉ regionMarks := by
    refine fun c hc => ⟨?_, sigil.not_mem_regionMarks name c (by simp [Sigil.placeholder, hc])⟩
    rintro rfl
    exact h hc
  generalize (Text.safe name).toList = cs at hchars
  induction cs with
  | nil => rfl
  | cons c rest ih =>
    rw [List.forall_mem_cons] at hchars
    simpa [Position.read, Position.step, hchars.1] using ih hchars.2

theorem Placed.word {w : String} (h : Cypher.IsWord w) : Fragment.Placed sigil Q (named w) :=
  .name (by rw [h.safe_eq]; exact sigil.not_mem_word h)

/-- A name within quotes, after some text that opens them. -/
theorem Placed.quoted {before : String} (mark : Char) (name : String) {after : String}
    (hbefore : Position.read sigil .outside (before.toList.map .char) = some (.inside mark))
    (hmark : Text.isSafe mark = false)
    (hafter : Position.read sigil (.inside mark) (after.toList.map .char) = some .outside)
    (hplain : (before ++ after).toList.all (fun c => c != '\n' && c != sigil.char) = true)
    (hapart : startsApart after = true) :
    Fragment.Placed sigil Q (lit before ++ named name ++ lit after) := by
  have hname : Position.read sigil (.inside mark) ((Text.safe name).toList.map .char) =
      some (.inside mark) := by
    have hsafe : ∀ c ∈ (Text.safe name).toList, c ≠ mark := Text.ne_of_mem_safe hmark
    generalize (Text.safe name).toList = cs at hsafe
    induction cs with
    | nil => rfl
    | cons c rest ih =>
      rw [List.forall_mem_cons] at hsafe
      simpa [Position.read, Position.step, hsafe.1] using ih hsafe.2
  simp only [String.toList_append, List.all_append, Bool.and_eq_true, List.all_eq_true,
    bne_iff_ne] at hplain
  obtain ⟨hopening, hclosing⟩ := hplain
  constructor
  · simpa using And.intro (fun h => (hopening _ h).1 rfl) fun h => (hclosing _ h).1 rfl
  · exact .text (fun h => (hopening _ h).2 rfl) (.quoted hapart (.lit fun h => (hclosing _ h).2 rfl))
  · simp [through_append, through_lit, through_named, hbefore, hname, hafter]

@[simp]
theorem Placed.number (n : Nat) : Fragment.Placed sigil Q [.number n] := by
  have hname : Fragment.Placed sigil Q (named (toString n)) :=
    .word (Cypher.isWord_toString n)
  have hsymbols : Fragment.symbols [.number n] = Fragment.symbols (named (toString n)) := by
    rw [symbols_named, Text.safe_toString]
    simp [Fragment.symbols, Piece.symbols]
  exact ⟨by simp, .number .nil, by rw [Position.through, hsymbols]; exact hname.through⟩

/-- A placeholder with its value, at the end of a fragment. -/
theorem Placing.bound {name : String} {value : Value} (h : Q name value) :
    Fragment.Placing sigil Q (bound name value) :=
  ⟨by simpa using h, .bound .nil, .named, rfl, trivial⟩

theorem Placed.append_placing {f g : Fragment} (hf : Fragment.Placed sigil Q f)
    (hg : Fragment.Placing sigil Q g) : Fragment.Placing sigil Q (f ++ g) :=
  ⟨Fragment.Fits.append_iff.mpr ⟨hf.fits, hg.fits⟩, hf.fenced.append hg.fenced,
    by simpa [through_append, hf.through] using hg.through⟩

/-- What may follow a placeholder may follow what ends in one. -/
theorem Placing.append {f g : Fragment} (hf : Fragment.Placing sigil Q f)
    (hg : Fragment.Placed sigil Q g) (happart : Position.through sigil .named g = some .outside) :
    Fragment.Placed sigil Q (f ++ g) := by
  obtain ⟨last, hlast, hopen⟩ := hf.through
  refine ⟨Fragment.Fits.append_iff.mpr ⟨hf.fits, hg.fits⟩, hf.fenced.append hg.fenced, ?_⟩
  rw [through_append, hlast, Option.bind_some]
  cases last with
  | outside => exact hg.through
  | named => exact happart
  | inside mark => exact hopen.elim

/-- A text with which no name goes on may follow a placeholder. -/
theorem through_named_lit {s : String} (h : isPlainText sigil s = true)
    (hapart : startsApart s = true) : Position.through sigil .named (lit s) = some .outside := by
  have hplain := (Placed.text (Q := fun _ _ => True) h).through
  rw [through_lit] at hplain ⊢
  obtain ⟨c, hhead, hc⟩ := (Option.any_eq_true _ _).mp hapart
  obtain ⟨rest, hrest⟩ := List.head?_eq_some_iff.mp hhead
  rw [hrest, List.map_cons, Position.read] at hplain ⊢
  have hstep : Position.step sigil .named (.char c) = Position.step sigil .outside (.char c) := by
    have hsafe : Text.isSafe c = false := by simpa using hc
    simp [Position.step, hsafe]
  rw [hstep, hplain]

/-- A text that starts apart from names may follow a placeholder. -/
theorem Placing.followed {f : Fragment} (hf : Fragment.Placing sigil Q f) {s : String}
    (h : isPlainText sigil s = true) (hapart : startsApart s = true) :
    Fragment.Placed sigil Q (f ++ lit s) := hf.append (.text h) (through_named_lit h hapart)

theorem Placed.flatMap {α : Type} {f : α → Fragment} {xs : List α}
    (h : ∀ x ∈ xs, Fragment.Placed sigil Q (f x)) : Fragment.Placed sigil Q (xs.flatMap f) := by
  induction xs with
  | nil => exact .nil
  | cons x rest ih =>
    rw [List.forall_mem_cons] at h
    rw [List.flatMap_cons]
    exact h.1.append (ih h.2)

/-- Joined fragments are placed if all of them are. -/
theorem Placed.join {separator : String} (hseparator : isPlainText sigil separator = true)
    {fs : List Fragment} (h : ∀ f ∈ fs, Fragment.Placed sigil Q f) :
    Fragment.Placed sigil Q (Fragment.join separator fs) := by
  unfold Fragment.join
  induction fs with
  | nil => exact .nil
  | cons f rest ih =>
    rw [List.forall_mem_cons] at h
    cases rest with
    | nil => simpa using h.1
    | cons g rest =>
      rw [List.intercalate_cons_cons]
      exact (h.1.append (.text hseparator)).append (ih h.2)

theorem Placing.join {separator : String} (hseparator : isPlainText sigil separator = true)
    (hapart : startsApart separator = true) {fs : List Fragment}
    (h : ∀ f ∈ fs, Fragment.Placing sigil Q f) :
    Fragment.Placing sigil Q (Fragment.join separator fs) := by
  unfold Fragment.join
  induction fs with
  | nil => exact Placed.nil.placing
  | cons f rest ih =>
    rw [List.forall_mem_cons] at h
    cases rest with
    | nil => simpa using h.1
    | cons g rest =>
      rw [List.intercalate_cons_cons]
      exact (h.1.followed hseparator hapart).append_placing (ih h.2)

end Fragment

/-! ## Scripts -/

/-- A command whose placeholders are placed; what continues a line may follow a placeholder. -/
structure Command.Placed (sigil : Sigil) (Q : String → Value → Prop) (c : Command) : Prop where
  placing : Fragment.Placing sigil Q (written c)
  follows : c.started? = none → ∃ last, Position.through sigil .named (written c) = some last ∧
    last.IsOpen

/-- A script all of whose commands are placed. -/
def Script.Placed (sigil : Sigil) (Q : String → Value → Prop) (script : Script) : Prop :=
  ∀ c ∈ script, c.Placed sigil Q

namespace Script.Placed

variable {sigil : Sigil} {Q : String → Value → Prop}

theorem fits {script : Script} (h : Script.Placed sigil Q script) : Script.Fits Q script := by
  intro c hc
  have hwritten := (h c hc).placing.fits
  -- only the limits of a page are written without being a fragment
  rcases c with f | f | _ | _ | (_ | ⟨offset, _ | size, returnTotal⟩) | o
  case line | add => exact hwritten
  all_goals simp [Command.fragment]

@[simp]
theorem nil : Script.Placed sigil Q [] := by simp [Script.Placed]

theorem append {a b : Script} (ha : Script.Placed sigil Q a) (hb : Script.Placed sigil Q b) :
    Script.Placed sigil Q (a ++ b) := List.forall_mem_append.mpr ⟨ha, hb⟩

theorem cons {c : Command} {rest : Script} (hc : Script.Placed sigil Q [c])
    (hrest : Script.Placed sigil Q rest) : Script.Placed sigil Q (c :: rest) := hc.append hrest

theorem flatMap {α : Type} {f : α → Script} {xs : List α}
    (h : ∀ x ∈ xs, Script.Placed sigil Q (f x)) : Script.Placed sigil Q (xs.flatMap f) := by
  intro c hc
  obtain ⟨x, hx, hc⟩ := List.mem_flatMap.mp hc
  exact h x hx c hc

/-- A command that starts a line. -/
theorem starting {c : Command} {f : Fragment} (hc : c.started? = some f)
    (h : Fragment.Placing sigil Q f) : Script.Placed sigil Q [c] := by
  have hwritten : written c = f := by rw [written, hc, Option.getD_some]
  exact List.forall_mem_singleton.mpr ⟨by rwa [hwritten], by simp [hc]⟩

theorem line {f : Fragment} (h : Fragment.Placing sigil Q f) : Script.Placed sigil Q [.line f] :=
  starting rfl h

theorem add {f : Fragment} (h : Fragment.Placed sigil Q f)
    (hapart : Position.through sigil .named f = some .outside) : Script.Placed sigil Q [.add f] :=
  List.forall_mem_singleton.mpr ⟨h.placing, fun _ => ⟨.outside, hapart, trivial⟩⟩

/-- A command that writes nothing. -/
theorem silent {c : Command} (h : written c = []) : Script.Placed sigil Q [c] := by
  refine List.forall_mem_singleton.mpr ⟨?_, fun _ => ?_⟩
  · rw [h]
    exact Fragment.Placed.nil.placing
  · rw [h]
    exact ⟨.named, rfl, trivial⟩

end Script.Placed

/-! ## Texts -/

namespace Draft

variable {sigil : Sigil} {Q : String → Value → Prop}

/-- A draft that a command may go on with. -/
structure IsPlaced (sigil : Sigil) (d : Draft) : Prop where
  fenced : Fragment.Fenced sigil d.pieces
  through : ∃ last, Position.through sigil .outside d.pieces = some last ∧ last.IsOpen

theorem IsPlaced.empty (sigil : Sigil) : (Draft.empty sigil).IsPlaced sigil :=
  ⟨.nil, .outside, rfl, trivial⟩

theorem IsPlaced.fenced_startLine {d : Draft} (h : d.IsPlaced sigil) :
    Fragment.Fenced sigil d.startLine.pieces := by
  have hunits (n : Nat) : Fragment.Fenced sigil (List.replicate n (.text indentUnit)) := by
    induction n with
    | zero => exact .nil
    | succ n ih => exact .text (by cases sigil <;> decide) ih
  unfold Draft.startLine
  dsimp only
  rw [add_eq]
  refine .append ?_ (hunits _)
  split
  · exact h.fenced
  · rw [add_eq]
    exact h.fenced.append (.lit (by cases sigil <;> decide))

/-- A line is started outside quoted regions, and not right after a placeholder. -/
theorem IsPlaced.through_startLine {d : Draft} (h : d.IsPlaced sigil) :
    Position.through sigil .outside d.startLine.pieces = some .outside := by
  have hunits (n : Nat) : Position.through sigil .outside
      (List.replicate n (.text indentUnit)) = some .outside := by
    have hunit : Fragment.Placed sigil (fun _ _ => True) (lit indentUnit) :=
      .text (by cases sigil <;> decide)
    induction n with
    | zero => rfl
    | succ n ih =>
      have hsplit : List.replicate (n + 1) (Piece.text indentUnit) =
          lit indentUnit ++ List.replicate n (.text indentUnit) := rfl
      rw [hsplit, Fragment.through_append, hunit.through, Option.bind_some, ih]
  have hstarted : Position.through sigil .outside
      (if d.isEmpty then d else d.add (lit "\n")).pieces = some .outside := by
    obtain ⟨last, hlast, hopen⟩ := h.through
    split
    · rename_i hempty
      have hsymbols := Aql.symbols_of_isEmpty hempty
      rw [Position.through, ← Draft.symbols, hsymbols]
      rfl
    · rw [add_eq, Fragment.through_append, hlast, Option.bind_some, Fragment.through_lit]
      cases last with
      | outside | named => cases sigil <;> decide
      | inside mark => exact hopen.elim
  unfold Draft.startLine
  dsimp only
  rw [add_eq, Fragment.through_append, hstarted, Option.bind_some, hunits]

theorem IsPlaced.run {d : Draft} (h : d.IsPlaced sigil) {c : Command} (hc : c.Placed sigil Q) :
    (d.run c).IsPlaced sigil := by
  obtain ⟨-, hfenced, last, hlast, hopen⟩ := hc.placing
  cases hstarted : c.started? with
  | some f =>
    have hwritten : Aql.written c = f := by rw [Aql.written, hstarted, Option.getD_some]
    rw [hwritten] at hlast hfenced
    constructor
    · rw [pieces_run_started hstarted]
      exact h.fenced_startLine.append hfenced
    · refine ⟨last, ?_, hopen⟩
      rw [pieces_run_started hstarted, Fragment.through_append, h.through_startLine,
        Option.bind_some, hlast]
  | none =>
    have hwritten : Aql.written c = c.fragment := by
      rw [Aql.written, hstarted, Option.getD_none]
    obtain ⟨hbefore, position, hplace, hplaced⟩ := h
    constructor
    · rw [pieces_run_continued hstarted, ← hwritten]
      exact hbefore.append hfenced
    · rw [pieces_run_continued hstarted, Fragment.through_append, hplace, Option.bind_some,
        ← hwritten]
      cases position with
      | outside => exact ⟨last, hlast, hopen⟩
      | named => exact hc.follows hstarted
      | inside mark => exact hplaced.elim

/-- A placed script leaves a placed draft. -/
theorem IsPlaced.runAll {d : Draft} (h : d.IsPlaced sigil) {script : Script}
    (hscript : Script.Placed sigil Q script) : (d.runAll script).IsPlaced sigil := by
  induction script generalizing d with
  | nil => exact h
  | cons c rest ih =>
    rw [Script.Placed, List.forall_mem_cons] at hscript
    exact ih (h.run hscript.1) hscript.2

end Draft

/-- The entries of a fragment are the names of its placeholders. -/
theorem Fragment.mem_names_symbols (sigil : Sigil) (f : Fragment) (name : String) :
    name ∈ (Fragment.symbols f).flatMap (Symbol.names sigil) ↔
      ∃ e ∈ Fragment.entries f, name ∈ Text.placeholders sigil (sigil.placeholder e.1) := by
  induction f with
  | nil => simp [Fragment.entries]
  | cons p rest ih =>
    have hchars (cs : List Char) : (cs.map Symbol.char).flatMap (Symbol.names sigil) = [] := by
      simp [List.flatMap_map, Symbol.names]
    have hsymbols : Fragment.symbols (p :: rest) = p.symbols ++ Fragment.symbols rest := rfl
    rw [hsymbols, List.flatMap_append, List.mem_append, ih]
    cases p with
    | bound key value =>
      simp [Piece.symbols, Symbol.names, Fragment.entries, Piece.entry?, Sigil.placeholder,
        Text.safe_safe]
    | text s | name s | number n =>
      simp [Piece.symbols, hchars, Fragment.entries, Piece.entry?]

namespace Script.Placed

variable {sigil : Sigil} {Q : String → Value → Prop} {script : Script}

/-- The names that are read in a placed text are those that are read in the placeholders of its
bindings. -/
theorem mem_placeholders (h : Script.Placed sigil Q script) (name : String) :
    name ∈ Text.placeholders sigil ((Draft.empty sigil).runAll script).text ↔
      ∃ key ∈ ((Draft.empty sigil).runAll script).bindings.keys,
        name ∈ Text.placeholders sigil (sigil.placeholder key) := by
  have hsigil : ((Draft.empty sigil).runAll script).sigil = sigil := Draft.sigil_runAll script _
  obtain ⟨last, hlast, -⟩ := ((Draft.IsPlaced.empty sigil).runAll h).through
  have hagrees : Position.outside.Agrees .outside := rfl
  have hnames := Position.names_eq hagrees hlast
  have hpieces : Fragment.entries ((Draft.empty sigil).runAll script).pieces =
      Script.entries script := Draft.entries_runAll _ script
  rw [Text.placeholders, Draft.text, hsigil, Fragment.toList_render, hnames, Seeker.found.eq_def,
    List.nil_append, Fragment.mem_names_symbols, hpieces]
  simp [Draft.mem_keys_bindings]

/-- Names that are read as they are written are found as such. -/
theorem mem_placeholders_iff (h : Script.Placed sigil Q script)
    (hkeys : ∀ key ∈ ((Draft.empty sigil).runAll script).bindings.keys,
      IsPlaceholderName sigil key) (name : String) :
    name ∈ Text.placeholders sigil ((Draft.empty sigil).runAll script).text ↔
      name ∈ ((Draft.empty sigil).runAll script).bindings.keys := by
  rw [h.mem_placeholders name]
  constructor
  · rintro ⟨key, hkey, hname⟩
    rw [hkeys key hkey, List.mem_singleton] at hname
    exact hname ▸ hkey
  · exact fun hname => ⟨name, hname, by rw [hkeys name hname]; exact List.mem_singleton_self name⟩

end Script.Placed

end GraphQuery
