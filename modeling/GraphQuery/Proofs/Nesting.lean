import GraphQuery.Proofs.Lines

/-!
# GraphQuery.Proofs.Nesting — how the quotes and brackets of a text are read

1. **Surroundings** of a place in a text: the brackets that are open there, and the quote.
2. **Nested texts** close every quote, and their brackets outside quotes match exactly.
3. **Marks**: only quotes and brackets matter, and names of clients have none.
4. **Balanced fragments** leave their surroundings as they are.
-/

namespace GraphQuery

open Json

/-! ## Surroundings -/

/-- Marks between which a text is quoted. -/
def Dialect.quotes : Dialect → List Char
  | .aql => ['`', '"']
  | .cypher => ['`', '"', '\'']

/-- Brackets, each with the one that closes it. -/
def brackets : List (Char × Char) := [('(', ')'), ('[', ']'), ('\x7b', '\x7d')]

/-- What a reader knows at a place in a text. -/
structure Surroundings where
  /-- Brackets that are to be closed, the innermost first. -/
  awaited : List Char
  quote : Option Char
deriving Repr, DecidableEq

namespace Surroundings

/-- The surroundings of a whole text. -/
def outermost : Surroundings := ⟨[], none⟩

/-- Reads one character. Within a quote only the end of the quote matters; outside, a closing
bracket must be the one that is awaited. -/
def step (d : Dialect) (s : Surroundings) (c : Char) : Option Surroundings :=
  match s.quote with
  | some q => some { s with quote := if c = q then none else some q }
  | none =>
    match brackets.lookup c with
    | some closing => some { s with awaited := closing :: s.awaited }
    | none =>
      if c ∈ brackets.map Prod.snd then
        if s.awaited.head? = some c then some { s with awaited := s.awaited.tail } else none
      else some (if c ∈ d.quotes then { s with quote := some c } else s)

/-- Reads characters, as long as they fit. -/
def read (d : Dialect) (s : Surroundings) : List Char → Option Surroundings
  | [] => some s
  | c :: rest => (s.step d c).bind fun s => s.read d rest

end Surroundings

/-! ## Nested texts -/

/-- A text that closes every quote and, outside quotes, every bracket that it opens, and no other
one. -/
def Nested (d : Dialect) (text : String) : Prop :=
  Surroundings.outermost.read d text.toList = some .outermost

instance (d : Dialect) (text : String) : Decidable (Nested d text) :=
  inferInstanceAs (Decidable (Surroundings.outermost.read d text.toList = some .outermost))

example : Nested .aql "LET a = (FOR b IN c RETURN \x7b \"k)\": b.`d]` \x7d)" := by decide

example : ¬ Nested .aql "(]" ∧ ¬ Nested .aql "(`)`" ∧ ¬ Nested .aql "\"" := by decide

/-! ## Marks -/

/-- Quotes and brackets. -/
def isMark (c : Char) : Bool :=
  ['`', '"', '\'', '(', ')', '[', ']', '\x7b', '\x7d'].contains c

namespace Surroundings

variable {d : Dialect}

@[simp]
theorem read_nil (s : Surroundings) : s.read d [] = some s := rfl

@[simp]
theorem read_cons (s : Surroundings) (c : Char) (rest : List Char) :
    s.read d (c :: rest) = (s.step d c).bind fun s => s.read d rest := rfl

/-- A text is read part by part. -/
@[simp]
theorem read_append (s : Surroundings) (xs ys : List Char) :
    s.read d (xs ++ ys) = (s.read d xs).bind fun s => s.read d ys := by
  induction xs generalizing s with
  | nil => rfl
  | cons c rest ih => simp [Option.bind_assoc, ih]

/-- Within a quote, nothing but its mark matters. -/
@[simp]
theorem step_quoted (awaited : List Char) (q c : Char) :
    step d ⟨awaited, some q⟩ c = some ⟨awaited, if c = q then none else some q⟩ := rfl

/-- Outside quotes, a character is a bracket, or a quote, or does not matter. -/
@[simp]
theorem step_unquoted (awaited : List Char) (c : Char) :
    step d ⟨awaited, none⟩ c =
      if c = '(' then some ⟨')' :: awaited, none⟩
      else if c = '[' then some ⟨']' :: awaited, none⟩
      else if c = '\x7b' then some ⟨'\x7d' :: awaited, none⟩
      else if c = ')' ∨ c = ']' ∨ c = '\x7d' then
        if awaited.head? = some c then some ⟨awaited.tail, none⟩ else none
      else some ⟨awaited, if c ∈ d.quotes then some c else none⟩ := by
  have hlookup : brackets.lookup c =
      if c = '(' then some ')' else if c = '[' then some ']'
      else if c = '\x7b' then some '\x7d' else none := by
    have hcons (k v : Char) (rest : List (Char × Char)) :
        List.lookup c ((k, v) :: rest) = if c = k then some v else rest.lookup c := by
      by_cases h : c = k
      · simp [h]
      · have hbeq : (c == k) = false := by simpa using h
        rw [List.lookup_cons, hbeq, if_neg h]
    rw [brackets, hcons, hcons, hcons, List.lookup_nil]
  have hclosing : c ∈ brackets.map Prod.snd ↔ c = ')' ∨ c = ']' ∨ c = '\x7d' := by
    simp only [brackets, List.map_cons, List.map_nil, List.mem_cons, List.not_mem_nil, or_false]
  unfold step
  dsimp only
  rw [hlookup]
  simp only [hclosing]
  split_ifs <;> rfl

/-- A quote that is a mark is left by nothing but a mark. -/
def Marked (s : Surroundings) : Prop := ∀ q ∈ s.quote, isMark q = true

/-- A quote is a mark. -/
theorem isMark_of_quote {q : Char} (h : q ∈ d.quotes) : isMark q = true := by
  have hall : d.quotes.all isMark = true := by
    cases d <;> decide
  exact List.all_eq_true.mp hall q h

/-- Surroundings of marks stay such. -/
theorem Marked.step {s s' : Surroundings} (hs : s.Marked) {c : Char} (h : s.step d c = some s') :
    s'.Marked := by
  rcases s with ⟨awaited, _ | q⟩
  · -- a bracket opens or closes, or a quote may open
    rw [step_unquoted] at h
    intro q hq
    split_ifs at h with _ _ _ _ _ hquote <;> cases h <;> cases hq
    exact isMark_of_quote hquote
  · -- the quote goes on or ends
    rw [step_quoted] at h
    intro q' hq'
    split_ifs at h <;> cases h <;> cases hq'
    exact hs q rfl

/-- Characters that are no marks change nothing. -/
theorem Marked.step_of_not_mark {s : Surroundings} (hs : s.Marked) {c : Char}
    (h : isMark c = false) : s.step d c = some s := by
  have hne : ∀ q, isMark q = true → c ≠ q := by
    rintro q hq rfl
    rw [h] at hq
    cases hq
  rcases s with ⟨awaited, _ | q⟩
  · have hquote : c ∉ d.quotes := fun hmem => hne c (isMark_of_quote hmem) rfl
    have hopening : c ≠ '(' ∧ c ≠ '[' ∧ c ≠ '\x7b' :=
      ⟨hne _ (by decide), hne _ (by decide), hne _ (by decide)⟩
    have hclosing : ¬ (c = ')' ∨ c = ']' ∨ c = '\x7d') := by
      rintro (hc | hc | hc) <;> exact hne _ (by decide) hc
    rw [step_unquoted, if_neg hopening.1, if_neg hopening.2.1, if_neg hopening.2.2,
      if_neg hclosing, if_neg hquote]
  · rw [step_quoted, if_neg (hne q (hs q rfl))]

/-- Only marks matter to a reader. -/
theorem Marked.read_filter {s : Surroundings} (hs : s.Marked) (text : List Char) :
    s.read d (text.filter isMark) = s.read d text := by
  induction text generalizing s with
  | nil => rfl
  | cons c rest ih =>
    by_cases hc : isMark c = true
    · rw [List.filter_cons_of_pos hc, read_cons, read_cons]
      cases hstep : s.step d c with
      | none => rfl
      | some next => exact ih (hs.step hstep)
    · rw [List.filter_cons_of_neg hc, read_cons, hs.step_of_not_mark (by simpa using hc)]
      exact ih hs

end Surroundings

/-- The marks of a piece: those of the compiler's own text. -/
def Piece.marks : Piece → List Char
  | .text s => s.toList.filter isMark
  | _ => []

/-- The marks of a fragment are those of the library's own text. -/
def Fragment.marks (f : Fragment) : List Char := f.flatMap Piece.marks

namespace Fragment

@[simp]
theorem marks_nil : Fragment.marks [] = [] := rfl

/-- Fragments one after the other have the marks of both. -/
@[simp]
theorem marks_append (f g : Fragment) :
    Fragment.marks (f ++ g) = Fragment.marks f ++ Fragment.marks g := List.flatMap_append

/-- The marks of a text of the compiler's own. -/
@[simp]
theorem marks_lit (s : String) : Fragment.marks (lit s) = s.toList.filter isMark := by
  simp [marks, lit, Piece.marks]

/-- Names have no marks. -/
@[simp]
theorem marks_named (s : String) : Fragment.marks (named s) = [] := rfl

@[simp]
theorem marks_bound (name : String) (value : Value) : Fragment.marks (bound name value) = [] := rfl

@[simp]
theorem marks_number_cons (n : Nat) (f : Fragment) :
    Fragment.marks (.number n :: f) = Fragment.marks f := rfl

end Fragment

/-- Safe characters are no marks. -/
theorem isMark_of_safe {c : Char} (h : Text.isSafe c = true) : isMark c = false := by
  have hall : ['`', '"', '\'', '(', ')', '[', ']', '\x7b', '\x7d'].all
      (fun m => !Text.isSafe m) = true := by decide
  rw [Bool.eq_false_iff]
  intro hc
  have hunsafe := List.all_eq_true.mp hall c (by simpa [isMark] using hc)
  rw [h] at hunsafe
  cases hunsafe

/-- The marks in a rendered piece are its own. -/
theorem Piece.filter_render (sigil : Sigil) (p : Piece) :
    (p.render sigil).toList.filter isMark = p.marks := by
  have hsafe (s : String) : (Text.safe s).toList.filter isMark = [] := by
    rw [List.filter_eq_nil_iff]
    intro c hc
    simpa using isMark_of_safe (Text.isSafe_of_mem_safe hc)
  cases p with
  | text s => rfl
  | name s => exact hsafe s
  | number n =>
    have hnumber := hsafe (toString n)
    rwa [Text.safe_toString] at hnumber
  | bound key value =>
    have hsigil : isMark sigil.char = false := by cases sigil <;> decide
    simp [render, Sigil.placeholder, hsafe, hsigil, marks]

/-- Names, numbers and placeholders have no marks. -/
theorem Fragment.filter_render (sigil : Sigil) (f : Fragment) :
    (Fragment.render sigil f).toList.filter isMark = Fragment.marks f := by
  induction f with
  | nil => rfl
  | cons p rest ih =>
    rw [Fragment.render_cons, String.toList_append, List.filter_append, ih, Piece.filter_render]
    rfl

/-! ## Balanced fragments -/

@[simp]
theorem Dialect.tick_mem_quotes (d : Dialect) : '`' ∈ d.quotes := by cases d <;> decide

@[simp]
theorem Dialect.quote_mem_quotes (d : Dialect) : '"' ∈ d.quotes := by cases d <;> decide

/-- A fragment that closes what it opens: outside quotes, it leaves its surroundings as they are. -/
def Fragment.Balanced (d : Dialect) (f : Fragment) : Prop :=
  ∀ awaited, Surroundings.read d ⟨awaited, none⟩ (Fragment.marks f) = some ⟨awaited, none⟩

namespace Fragment.Balanced

variable {d : Dialect}

/-- A balanced fragment leaves its surroundings as they were. -/
theorem read {f : Fragment} (h : Fragment.Balanced d f) (awaited : List Char) :
    Surroundings.read d ⟨awaited, none⟩ (Fragment.marks f) = some ⟨awaited, none⟩ := h awaited

/-- What has no marks is balanced. -/
theorem of_marks {f : Fragment} (h : Fragment.marks f = []) : Fragment.Balanced d f := by
  intro awaited
  rw [h]
  rfl

@[simp]
theorem nil : Fragment.Balanced d [] := of_marks rfl

@[simp]
theorem named (name : String) : Fragment.Balanced d (named name) := of_marks rfl

@[simp]
theorem bound (name : String) (value : Value) : Fragment.Balanced d (bound name value) :=
  of_marks rfl

/-- Balanced fragments one after the other are balanced. -/
theorem append {f g : Fragment} (hf : Fragment.Balanced d f) (hg : Fragment.Balanced d g) :
    Fragment.Balanced d (f ++ g) := by
  intro awaited
  rw [marks_append, Surroundings.read_append, hf.read, Option.bind_some, hg.read]

/-- So are those of a list. -/
theorem flatMap {α : Type} {f : α → Fragment} {xs : List α}
    (h : ∀ x ∈ xs, Fragment.Balanced d (f x)) : Fragment.Balanced d (xs.flatMap f) := by
  induction xs with
  | nil => exact .nil
  | cons x rest ih =>
    rw [List.forall_mem_cons] at h
    exact h.1.append (ih h.2)

/-- Joined fragments are balanced if the separator is. -/
theorem join {separator : String} {fs : List Fragment}
    (hseparator : Fragment.Balanced d (lit separator))
    (h : ∀ f ∈ fs, Fragment.Balanced d f) : Fragment.Balanced d (Fragment.join separator fs) := by
  unfold Fragment.join
  induction fs with
  | nil => exact .nil
  | cons f rest ih =>
    rw [List.forall_mem_cons] at h
    cases rest with
    | nil => simpa using h.1
    | cons g rest =>
      rw [List.intercalate_cons_cons]
      exact (h.1.append hseparator).append (ih h.2)

end Fragment.Balanced

/-! ## Scripts -/

/-- The marks that a script writes. -/
def Script.marks (script : Script) : List Char := script.flatMap fun c => Fragment.marks c.fragment

/-- The indentation after a command. -/
def Command.indentation (n : Nat) : Command → Nat
  | .indent => n + 1
  | .outdent => n - 1
  | _ => n

/-- The indentation that a script leaves. -/
def Script.indentation (n : Nat) (script : Script) : Nat := script.foldl Command.indentation n

namespace Draft

/-- A new line adds no mark. -/
theorem filter_text_startLine (d : Draft) :
    d.startLine.text.toList.filter isMark = d.text.toList.filter isMark := by
  obtain ⟨n, htext⟩ := text_startLine d
  have hblank : isMark ' ' = false := by decide
  have hbreak : isMark '\n' = false := by decide
  rw [htext]
  split
  · rename_i hempty
    simp [hempty, hblank]
  · simp [hblank, hbreak]

/-- A command writes the marks of its fragment. -/
theorem filter_text_run (d : Draft) (c : Command) :
    (d.run c).text.toList.filter isMark =
      d.text.toList.filter isMark ++ Fragment.marks c.fragment := by
  cases hstarted : c.started? with
  | some f =>
    -- the limits of a page have no marks
    have hmarks : Fragment.marks f = Fragment.marks c.fragment := by
      rcases c with g | g | _ | _ | (_ | ⟨offset, _ | size, returnTotal⟩) | o
      case line =>
        cases hstarted
        rfl
      case page.some.some =>
        cases hstarted
        simp [Command.fragment, isMark]
      all_goals cases hstarted
    rw [text_run_started hstarted, String.toList_append, List.filter_append,
      filter_text_startLine, Fragment.filter_render, hmarks]
  | none =>
    rw [text_run_continued hstarted, String.toList_append, List.filter_append,
      Fragment.filter_render]

/-- The marks of a text are those of its script. -/
theorem filter_text_runAll (d : Draft) (script : Script) :
    (d.runAll script).text.toList.filter isMark =
      d.text.toList.filter isMark ++ Script.marks script := by
  induction script generalizing d with
  | nil => simp [runAll, Script.marks]
  | cons c rest ih =>
    have hcons : d.runAll (c :: rest) = (d.run c).runAll rest := rfl
    rw [hcons, ih, filter_text_run, List.append_assoc]
    rfl

theorem indentation_startLine (d : Draft) : d.startLine.indentation = d.indentation := by
  unfold startLine
  dsimp only
  rw [indentation_add]
  split
  · rfl
  · exact indentation_add d _

/-- A command changes the indentation by what it is. -/
theorem indentation_run (d : Draft) (c : Command) :
    (d.run c).indentation = c.indentation d.indentation := by
  rcases c with f | f | _ | _ | (_ | ⟨offset, _ | size, returnTotal⟩) | o
  case line => exact (indentation_add _ f).trans (indentation_startLine d)
  case add => exact indentation_add d f
  case page.some.some => exact (indentation_add _ _).trans (indentation_startLine d)
  all_goals rfl

/-- The indentation after a script. -/
theorem indentation_runAll (d : Draft) (script : Script) :
    (d.runAll script).indentation = Script.indentation d.indentation script := by
  induction script generalizing d with
  | nil => rfl
  | cons c rest ih =>
    have hcons : d.runAll (c :: rest) = (d.run c).runAll rest := rfl
    rw [hcons, ih, indentation_run]
    rfl

end Draft

/-- A script that, begun within some brackets and at some indentation, ends within others. -/
structure Script.Leads (d : Dialect) (script : Script) (before after : List Char) (n m : Nat) :
    Prop where
  read : Surroundings.read d ⟨before, none⟩ (Script.marks script) = some ⟨after, none⟩
  indentation : Script.indentation n script = m

/-- A script that closes all it opens, and takes back what it indents. -/
def Script.Balanced (d : Dialect) (script : Script) : Prop :=
  ∀ awaited n, Script.Leads d script awaited awaited n n

namespace Script

variable {d : Dialect}

theorem Leads.nil (awaited : List Char) (n : Nat) : Leads d [] awaited awaited n n := ⟨rfl, rfl⟩

/-- Scripts lead from surroundings to surroundings, one after the other. -/
theorem Leads.append {a b : Script} {before between after : List Char} {n m k : Nat}
    (ha : Leads d a before between n m) (hb : Leads d b between after m k) :
    Leads d (a ++ b) before after n k := by
  constructor
  · have hmarks : marks (a ++ b) = marks a ++ marks b := List.flatMap_append
    rw [hmarks, Surroundings.read_append, ha.read, Option.bind_some, hb.read]
  · have hfold : Script.indentation n (a ++ b) =
        Script.indentation (Script.indentation n a) b := List.foldl_append
    rw [hfold, ha.indentation, hb.indentation]

/-- A command and what follows it lead one after the other. -/
theorem Leads.cons {c : Command} {rest : Script} {before between after : List Char} {n m k : Nat}
    (hc : Leads d [c] before between n m) (hrest : Leads d rest between after m k) :
    Leads d (c :: rest) before after n k := hc.append hrest

/-- A line leads from what is awaited before its marks to what is awaited after them. -/
theorem Leads.line {f : Fragment} {before after : List Char} (n : Nat)
    (h : Surroundings.read d ⟨before, none⟩ (Fragment.marks f) = some ⟨after, none⟩) :
    Leads d [.line f] before after n n := ⟨by simpa [marks, Command.fragment] using h, rfl⟩

theorem Leads.add {f : Fragment} {before after : List Char} (n : Nat)
    (h : Surroundings.read d ⟨before, none⟩ (Fragment.marks f) = some ⟨after, none⟩) :
    Leads d [.add f] before after n n := ⟨by simpa [marks, Command.fragment] using h, rfl⟩

theorem Leads.indent (awaited : List Char) (n : Nat) :
    Leads d [.indent] awaited awaited n (n + 1) := ⟨rfl, rfl⟩

theorem Leads.outdent (awaited : List Char) (n : Nat) :
    Leads d [.outdent] awaited awaited (n + 1) n := ⟨rfl, rfl⟩

/-- What follows and is balanced changes nothing. -/
theorem Leads.followed {a b : Script} {before after : List Char} {m k : Nat}
    (ha : Leads d a before after m k) (hb : Script.Balanced d b) :
    Leads d (a ++ b) before after m k := ha.append (hb _ _)

namespace Balanced

@[simp]
theorem nil : Script.Balanced d [] := Leads.nil

/-- Balanced scripts one after the other are balanced. -/
theorem append {a b : Script} (ha : Script.Balanced d a) (hb : Script.Balanced d b) :
    Script.Balanced d (a ++ b) := fun awaited n => (ha awaited n).append (hb awaited n)

theorem line {f : Fragment} (h : Fragment.Balanced d f) : Script.Balanced d [.line f] :=
  fun awaited n => .line n (h awaited)

theorem cons {c : Command} {rest : Script} (hc : Script.Balanced d [c])
    (hrest : Script.Balanced d rest) : Script.Balanced d (c :: rest) := hc.append hrest

/-- So are those of a list. -/
theorem flatMap {α : Type} {f : α → Script} {xs : List α}
    (h : ∀ x ∈ xs, Script.Balanced d (f x)) : Script.Balanced d (xs.flatMap f) := by
  induction xs with
  | nil => exact .nil
  | cons x rest ih =>
    rw [List.forall_mem_cons] at h
    exact (h.1).append (ih h.2)

/-- A balanced script may stand further in, between lines of which one closes what the other
opens. -/
theorem enclosed {s : Script} (h : Script.Balanced d s) {f g : Fragment} (opened : List Char)
    (hf : ∀ awaited, Surroundings.read d ⟨awaited, none⟩ (Fragment.marks f) =
      some ⟨opened ++ awaited, none⟩)
    (hg : ∀ awaited, Surroundings.read d ⟨opened ++ awaited, none⟩ (Fragment.marks g) =
      some ⟨awaited, none⟩) :
    Script.Balanced d ([.line f, .indent] ++ s ++ [.outdent, .line g]) := by
  intro awaited n
  have hopened : Leads d [.line f, .indent] awaited (opened ++ awaited) n (n + 1) :=
    (Leads.line n (hf awaited)).append (.indent _ n)
  have hclosed : Leads d [.outdent, .line g] (opened ++ awaited) awaited (n + 1) n :=
    (Leads.outdent _ n).append (.line n (hg awaited))
  exact (hopened.append (h _ (n + 1))).append hclosed

/-- A balanced script makes a nested text, and takes back all that it indents. -/
theorem nested {s : Script} (h : Script.Balanced d s) :
    Nested d ((Draft.empty d.sigil).runAll s).text ∧
      ((Draft.empty d.sigil).runAll s).indentation = 0 := by
  have hmarked : Surroundings.outermost.Marked := by
    intro q hq
    cases hq
  constructor
  · rw [Nested, ← hmarked.read_filter, Draft.filter_text_runAll]
    exact (h [] 0).read
  · rw [Draft.indentation_runAll]
    exact (h [] 0).indentation

end Balanced

end Script

end GraphQuery
