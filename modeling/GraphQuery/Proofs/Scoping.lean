import GraphQuery.Proofs.Nesting

/-!
# GraphQuery.Proofs.Scoping — where the variables of an AQL text may be used

1. **Symbols** of a text: its characters, and its placeholders as a whole.
2. **Tokens**: the words, parentheses and commas outside quotes.
3. **Signs**: the words that introduce a variable, the other ones, and the ends of groups.
4. **Scopes**: a variable is in scope from its introduction to the end of the group around it.
5. **Covered signs** use no variable out of its scope.
6. **Scoped tokens** have covered signs, in any group that they may stand in.
-/

namespace GraphQuery

open Json

/-! ## Symbols -/

/-- A character of a text, or a placeholder in it. -/
inductive Symbol
  | char (c : Char)
  | placeholder (name : String)
deriving Repr, DecidableEq

/-- A symbol as it is written. -/
def Symbol.render (sigil : Sigil) : Symbol → List Char
  | char c => [c]
  | placeholder name => (sigil.placeholder name).toList

/-- The symbols of a piece; a placeholder is one symbol. -/
def Piece.symbols : Piece → List Symbol
  | .text s => s.toList.map .char
  | .name s => (Text.safe s).toList.map .char
  | .number n => (toString n).toList.map .char
  | .bound key _ => [.placeholder key]

/-- The symbols of a fragment. -/
def Fragment.symbols (f : Fragment) : List Symbol := f.flatMap Piece.symbols

namespace Fragment

@[simp]
theorem symbols_nil : Fragment.symbols [] = [] := rfl

@[simp]
theorem symbols_append (f g : Fragment) :
    Fragment.symbols (f ++ g) = Fragment.symbols f ++ Fragment.symbols g := List.flatMap_append

@[simp]
theorem symbols_lit (s : String) : Fragment.symbols (lit s) = s.toList.map .char := by
  simp [symbols, lit, Piece.symbols]

@[simp]
theorem symbols_named (s : String) :
    Fragment.symbols (named s) = (Text.safe s).toList.map .char := by
  simp [symbols, named, Piece.symbols]

@[simp]
theorem symbols_bound (name : String) (value : Value) :
    Fragment.symbols (bound name value) = [.placeholder name] := rfl

/-- A text is made of its symbols. -/
theorem toList_render (sigil : Sigil) (f : Fragment) :
    (Fragment.render sigil f).toList = (Fragment.symbols f).flatMap (Symbol.render sigil) := by
  have hpiece (p : Piece) :
      (p.render sigil).toList = p.symbols.flatMap (Symbol.render sigil) := by
    have hchars (cs : List Char) : (cs.map Symbol.char).flatMap (Symbol.render sigil) = cs := by
      simp [List.flatMap_map, Symbol.render]
    cases p with
    | text s => exact (hchars _).symm
    | name s => exact (hchars _).symm
    | number n => exact (hchars _).symm
    | bound key value => simp [Piece.symbols, Piece.render, Symbol.render]
  induction f with
  | nil => rfl
  | cons p rest ih =>
    have hsymbols : Fragment.symbols (p :: rest) = p.symbols ++ Fragment.symbols rest := rfl
    rw [Fragment.render_cons, String.toList_append, ih, hpiece, hsymbols, List.flatMap_append]

end Fragment

/-- The symbols of a draft's text. -/
def Draft.symbols (d : Draft) : List Symbol := Fragment.symbols d.pieces

namespace Aql

/-! ## Tokens -/

/-- A token of a statement. Quoted text and placeholders are none. -/
inductive Token
  | word (w : String)
  | opening
  | closing
  | comma
deriving Repr, DecidableEq

/-- The characters that words consist of. -/
def isWordChar (c : Char) : Bool := c.isAlphanum || c == '_'

/-- What a character that is no part of a word stands for. -/
def punctuation : Char → List Token
  | '(' => [.opening]
  | ')' => [.closing]
  | ',' => [.comma]
  | _ => []

/-- What a reader knows at a place in a text. -/
structure Lexer where
  quote : Option Char
  word : List Char
deriving Repr, DecidableEq

namespace Lexer

/-- A lexer before any text. -/
def start : Lexer := ⟨none, []⟩

/-- The word at hand, if there is one. -/
def ended (l : Lexer) : List Token :=
  if l.word.isEmpty then [] else [.word (String.ofList l.word)]

/-- Reads one symbol. Within a quote only the end of the quote matters; outside, a word ends at any
other symbol. -/
def step (l : Lexer) : Symbol → List Token × Lexer
  | .placeholder _ => (l.ended, { l with word := [] })
  | .char c =>
    match l.quote with
    | some q => ([], if c = q then start else l)
    | none =>
      if isWordChar c then ([], { l with word := l.word ++ [c] })
      else (l.ended ++ punctuation c, ⟨if c ∈ Dialect.aql.quotes then some c else none, []⟩)

/-- The tokens of symbols. -/
def tokens (l : Lexer) : List Symbol → List Token
  | [] => l.ended
  | s :: rest => (l.step s).1 ++ tokens (l.step s).2 rest

end Lexer

/-! ## Signs -/

/-- What the next words of a clause are. -/
structure Clause where
  /-- The next word is a variable that the clause introduces. -/
  introduces : Bool
  /-- Commas separate introductions. -/
  lists : Bool
deriving Repr, DecidableEq

/-- The clause in which nothing has been said. -/
def Clause.plain : Clause := ⟨false, false⟩

/-- The words at which a clause, or a part of one, begins. -/
def keyword? : String → Option Clause
  | "LET" | "INTO" => some ⟨true, false⟩
  | "FOR" | "COLLECT" => some ⟨true, true⟩
  | "IN" | "WITH" | "FILTER" | "SORT" | "LIMIT" | "RETURN" => some .plain
  | _ => none

/-- A sign in a statement: a variable that is introduced or used, or a border of a group. -/
inductive Sign
  | introduced (v : String)
  | used (w : String)
  | opening
  | closing
deriving Repr, DecidableEq

/-- Reads tokens in a clause. The clauses around it, from the innermost outwards, go on after the
groups that they stand around. -/
def signs (c : Clause) (outer : List Clause) : List Token → List Sign
  | [] => []
  | .opening :: rest => .opening :: signs .plain (c :: outer) rest
  | .closing :: rest => .closing :: signs (outer.headD .plain) outer.tail rest
  | .comma :: rest => signs (if c.lists then { c with introduces := true } else c) outer rest
  | .word w :: rest =>
    match keyword? w with
    | some c => signs c outer rest
    | none =>
      if c.introduces then .introduced w :: signs { c with introduces := false } outer rest
      else .used w :: signs c outer rest

/-- The signs of a text. -/
def signsOf (symbols : List Symbol) : List Sign := signs .plain [] (Lexer.start.tokens symbols)

/-! ## Scopes -/

/-- Signs that never close a group that was open before them. -/
def StaysInside (ss : List Sign) : Prop :=
  ∀ n, (ss.take n).count .closing ≤ (ss.take n).count .opening

/-- A variable that has been introduced, in a group that has not been closed since. -/
def InScope (before : List Sign) (v : String) : Prop :=
  ∃ earlier between, before = earlier ++ .introduced v :: between ∧ StaysInside between

example : signsOf ("LET a_1 = (FOR `b, b_1` IN c FILTER b_1) RETURN a_1".toList.map .char) =
    [.introduced "a_1", .opening, .used "c", .used "b_1", .closing, .used "a_1"] := by decide

namespace StaysInside

@[simp]
theorem nil : StaysInside [] := by
  intro n
  simp

/-- Signs that stay inside their groups do so one after the other. -/
theorem append {a b : List Sign} (ha : StaysInside a) (hb : StaysInside b) :
    StaysInside (a ++ b) := by
  intro n
  have ha := ha n
  have hb := hb (n - a.length)
  rw [List.take_append, List.count_append, List.count_append]
  omega

theorem singleton {s : Sign} (h : s ≠ .closing) : StaysInside [s] := by
  intro n
  cases n <;> simp [h]

/-- So they do within a group of their own. -/
theorem group {ss : List Sign} (h : StaysInside ss) :
    StaysInside (Sign.opening :: ss ++ [Sign.closing]) := by
  intro n
  cases n with
  | zero => simp
  | succ n =>
    have hinner := h n
    have hlast : ([Sign.closing].take (n - ss.length)).count .closing ≤ 1 :=
      Nat.le_trans List.count_le_length (List.length_take_le' _ _)
    rw [List.cons_append, List.take_succ_cons, List.take_append, List.count_cons, List.count_cons,
      List.count_append, List.count_append]
    simp only [beq_self_eq_true, if_true, reduceCtorEq, beq_iff_eq, if_false]
    omega

end StaysInside

/-- What is in scope stays so as long as its group is not closed. -/
theorem InScope.append {before ss : List Sign} {v : String} (h : InScope before v)
    (hss : StaysInside ss) : InScope (before ++ ss) v := by
  obtain ⟨earlier, between, rfl, hbetween⟩ := h
  exact ⟨earlier, between ++ ss, by simp, hbetween.append hss⟩

/-! ## Covered signs -/

/-- A word that no text has but for a variable. -/
def isVariable (w : String) : Bool :=
  ["root_doc", "whitelist", "invitation"].contains w ||
    (w.toList.contains '_' && w.toList.any Char.isDigit)

/-- Signs that, where the variables of `known` are in scope, use no variable out of its scope. They
introduce `all`, of which `new` are in scope after them. -/
structure Covers (known : List String) (ss : List Sign) (new all : List String) : Prop where
  inside : StaysInside ss
  uses : ∀ before, (∀ v ∈ known, InScope before v) → ∀ front v back,
    ss = front ++ Sign.used v :: back → isVariable v = true → InScope (before ++ front) v
  introduces : ∀ before, ∀ v ∈ new, InScope (before ++ ss) v
  counts : ∀ v, isVariable v = true → ss.count (.introduced v) = all.count v

namespace Covers

variable {known new all : List String} {ss : List Sign}

theorem nil (known : List String) : Covers known [] [] [] where
  inside := .nil
  uses := by simp
  introduces := by simp
  counts := by simp

/-- An introduction covers its variable. -/
theorem introduced (known : List String) (v : String) :
    Covers known [.introduced v] [v] [v] where
  inside := .singleton (by simp)
  uses := by
    intro before _ front w back h
    rcases List.cons_eq_append_iff.mp h with ⟨rfl, h⟩ | ⟨front, rfl, h⟩
    · cases h
    · simp at h
  introduces := by
    intro before w hw
    obtain rfl := List.mem_singleton.mp hw
    exact ⟨before, [], rfl, .nil⟩
  counts := by
    intro w _
    simp [List.count_singleton]

/-- A name that is no variable need not be in scope after it. -/
theorem introducedName {w : String} (h : isVariable w = false) :
    Covers known [.introduced w] [] [] := by
  have hname := introduced known w
  refine ⟨hname.inside, hname.uses, by simp, fun v hv => ?_⟩
  have hne : v ≠ w := by
    rintro rfl
    rw [h] at hv
    cases hv
  simp [hne.symm]

/-- A word may be used if it is no variable, or one in scope. -/
theorem used {w : String} (h : isVariable w = true → w ∈ known) :
    Covers known [.used w] [] [] where
  inside := .singleton (by simp)
  uses := by
    intro before hknown front v back hsplit hv
    rcases List.cons_eq_append_iff.mp hsplit with ⟨rfl, hsplit⟩ | ⟨front, rfl, hsplit⟩
    · cases hsplit
      simpa using hknown w (h hv)
    · simp at hsplit
  introduces := by simp
  counts := by simp

/-- Signs one after the other cover what both do; the second may use what the first introduced. -/
theorem append {tt : List Sign} {new' all' : List String} (hs : Covers known ss new all)
    (ht : Covers (new ++ known) tt new' all') :
    Covers known (ss ++ tt) (new' ++ new) (all ++ all') where
  inside := hs.inside.append ht.inside
  uses := by
    intro before hknown front v back hsplit hv
    have hbefore : ∀ w ∈ new ++ known, InScope (before ++ ss) w := by
      intro w hw
      rcases List.mem_append.mp hw with hw | hw
      · exact hs.introduces before w hw
      · exact (hknown w hw).append hs.inside
    -- the use is one of the second signs, or one of the first
    rcases List.append_eq_append_iff.mp hsplit with ⟨between, rfl, htail⟩ | ⟨between, hfront, htail⟩
    · simpa using ht.uses _ hbefore between v back htail hv
    · cases between with
      | nil =>
        have hss : ss = front := by simpa using hfront
        have huse := ht.uses _ hbefore [] v back (by simpa using htail.symm) hv
        simpa [hss] using huse
      | cons s between =>
        cases htail
        exact hs.uses before hknown front v between hfront hv
  introduces := by
    intro before v hv
    rw [← List.append_assoc]
    rcases List.mem_append.mp hv with hv | hv
    · exact ht.introduces _ v hv
    · exact (hs.introduces before v hv).append ht.inside
  counts := by
    intro v hv
    rw [List.count_append, List.count_append, hs.counts v hv, ht.counts v hv]

/-- What a group introduces ends with it. -/
theorem group (h : Covers known ss new all) :
    Covers known (Sign.opening :: ss ++ [Sign.closing]) [] all where
  inside := h.inside.group
  uses := by
    intro before hknown front v back hsplit hv
    -- the use is neither the parenthesis before the group nor the one after it
    rw [List.cons_append] at hsplit
    rcases List.cons_eq_append_iff.mp hsplit with ⟨rfl, htail⟩ | ⟨front, rfl, htail⟩
    · cases htail
    · have hopened : ∀ w ∈ known, InScope (before ++ [.opening]) w := fun w hw =>
        (hknown w hw).append (.singleton (by simp))
      rcases List.append_eq_append_iff.mp htail with ⟨between, -, hlast⟩ | ⟨between, hss, hlast⟩
      · rcases List.cons_eq_append_iff.mp hlast with ⟨-, hnone⟩ | ⟨_, -, hnone⟩
        · cases hnone
        · simp at hnone
      · cases between with
        | nil => cases hlast
        | cons s between =>
          cases hlast
          simpa using h.uses _ hopened front v between hss hv
  introduces := by simp
  counts := by
    intro v hv
    simpa using h.counts v hv

/-- Knowing more and promising less, signs still cover. -/
theorem mono {known' new' all' : List String} (h : Covers known ss new all)
    (hknown : known ⊆ known') (hnew : new' ⊆ new) (hall : all.Perm all') :
    Covers known' ss new' all' where
  inside := h.inside
  uses := fun before hbefore => h.uses before fun v hv => hbefore v (hknown hv)
  introduces := fun before v hv => h.introduces before v (hnew hv)
  counts := fun v hv => (h.counts v hv).trans (hall.count_eq v)

end Covers

/-- Signs that introduce nothing, where `known` is in scope and some groups are open. -/
structure Inert (known : List String) (opened : Nat) (ss : List Sign) : Prop where
  inside : ∀ n, (ss.take n).count .closing ≤ opened + (ss.take n).count .opening
  uses : ∀ w, .used w ∈ ss → isVariable w = true → w ∈ known
  introduces : ∀ v, .introduced v ∉ ss

namespace Inert

variable {known : List String} {opened : Nat} {ss tt : List Sign}

theorem nil (known : List String) (opened : Nat) : Inert known opened [] := by
  constructor <;> simp

/-- Signs that introduce nothing do so one after the other. -/
theorem append (hs : Inert known 0 ss) (ht : Inert known opened tt) :
    Inert known opened (ss ++ tt) where
  inside := by
    intro n
    have hs := hs.inside n
    have ht := ht.inside (n - ss.length)
    rw [List.take_append, List.count_append, List.count_append]
    omega
  uses := by
    intro w hw
    exact (List.mem_append.mp hw).elim (hs.uses w) (ht.uses w)
  introduces := by
    intro v hv
    exact (List.mem_append.mp hv).elim (hs.introduces v) (ht.introduces v)

/-- To use a variable that is known introduces nothing. -/
theorem used {w : String} (h : isVariable w = true → w ∈ known) : Inert known 0 [.used w] where
  inside := by
    intro n
    cases n <;> simp
  uses := by
    intro v hv
    obtain rfl : v = w := by simpa using hv
    exact h
  introduces := by simp

theorem opening (h : Inert known (opened + 1) ss) : Inert known opened (.opening :: ss) where
  inside := by
    intro n
    cases n with
    | zero => simp
    | succ n =>
      have h := h.inside n
      rw [List.take_succ_cons, List.count_cons_self, List.count_cons_of_ne (by simp)]
      omega
  uses := by simpa using h.uses
  introduces := by simpa using h.introduces

theorem closing (h : Inert known opened ss) : Inert known (opened + 1) (.closing :: ss) where
  inside := by
    intro n
    cases n with
    | zero => simp
    | succ n =>
      have h := h.inside n
      rw [List.take_succ_cons, List.count_cons_self, List.count_cons_of_ne (by simp)]
      omega
  uses := by simpa using h.uses
  introduces := by simpa using h.introduces

theorem mono {known' : List String} (h : Inert known opened ss) (hknown : known ⊆ known') :
    Inert known' opened ss :=
  ⟨h.inside, fun w hw hvariable => hknown (h.uses w hw hvariable), h.introduces⟩

/-- Signs that introduce nothing cover nothing. -/
theorem covers (h : Inert known 0 ss) : Covers known ss [] [] where
  inside := by
    intro n
    simpa using h.inside n
  uses := by
    rintro before hknown front v back rfl hv
    have hfront : StaysInside front := by
      intro n
      have h := h.inside (min n front.length)
      rw [List.take_append_of_le_length (by omega), ← List.take_eq_take_min] at h
      simpa using h
    exact (hknown v (h.uses v (by simp) hv)).append hfront
  introduces := by simp
  counts := by
    intro v _
    simpa using List.count_eq_zero.mpr (h.introduces v)

end Inert

/-! ## Scoped tokens -/

/-- Tokens that are read as some signs wherever a clause may begin. -/
def Yields (ts : List Token) (ss : List Sign) : Prop :=
  ∀ outer rest, signs .plain outer (ts ++ rest) = ss ++ signs .plain outer rest

namespace Yields

/-- Tokens one after the other yield the signs of both. -/
theorem append {ts us : List Token} {ss tt : List Sign} (hs : Yields ts ss) (ht : Yields us tt) :
    Yields (ts ++ us) (ss ++ tt) := by
  intro outer rest
  rw [List.append_assoc, hs, ht, List.append_assoc]

/-- A group of tokens yields a group of signs. -/
theorem group {ts : List Token} {ss : List Sign} (h : Yields ts ss) :
    Yields (Token.opening :: ts ++ [Token.closing]) (Sign.opening :: ss ++ [Sign.closing]) := by
  intro outer rest
  have hinner := h (.plain :: outer) (.closing :: rest)
  simp only [List.cons_append, List.append_assoc, List.nil_append, signs] at hinner ⊢
  rw [hinner]
  rfl

end Yields

/-- No word that is a variable begins a clause. -/
theorem keyword?_of_isVariable {v : String} (h : isVariable v = true) : keyword? v = none := by
  unfold keyword?
  split
  all_goals first | rfl | exact absurd h (by decide)

/-- A word that introduces nothing, and is no variable. -/
def isPlainWord (w : String) : Bool := (keyword? w).all (· == .plain) && !isVariable w

/-- Tokens whose signs are covered. -/
def Scoped (known : List String) (ts : List Token) (new all : List String) : Prop :=
  ∃ ss, Yields ts ss ∧ Covers known ss new all

namespace Scoped

variable {known new all : List String} {ts : List Token}

theorem nil (known : List String) : Scoped known [] [] [] := ⟨[], fun _ _ => rfl, .nil known⟩

/-- Tokens one after the other are scoped; the second may use what the first introduced. -/
theorem append {us : List Token} {new' all' : List String} (hs : Scoped known ts new all)
    (ht : Scoped (new ++ known) us new' all') :
    Scoped known (ts ++ us) (new' ++ new) (all ++ all') := by
  obtain ⟨ss, hss, hs⟩ := hs
  obtain ⟨tt, htt, ht⟩ := ht
  exact ⟨ss ++ tt, hss.append htt, hs.append ht⟩

/-- A group may follow a word, such as the name of a function. -/
theorem group (h : Scoped known ts new all) :
    Scoped known (Token.opening :: ts ++ [Token.closing]) [] all := by
  obtain ⟨ss, hss, h⟩ := h
  exact ⟨_, hss.group, h.group⟩

/-- Knowing more and promising less, tokens are still scoped. -/
theorem mono {known' new' all' : List String} (h : Scoped known ts new all)
    (hknown : known ⊆ known') (hnew : new' ⊆ new) (hall : all.Perm all') :
    Scoped known' ts new' all' := by
  obtain ⟨ss, hss, h⟩ := h
  exact ⟨ss, hss, h.mono hknown hnew hall⟩

/-- More may be in scope than is used. -/
theorem within {more : List String} (h : Scoped known ts new all) :
    Scoped (more ++ known) ts new all :=
  h.mono (List.subset_append_right _ _) (List.Subset.refl _) (.refl _)

/-- A function that is applied to some tokens. -/
theorem call {w : String} (hkeyword : keyword? w = none) (hw : isVariable w = false)
    (h : Scoped known ts new all) :
    Scoped known (Token.word w :: .opening :: ts ++ [Token.closing]) [] all := by
  obtain ⟨ss, hss, h⟩ := h
  have hname : Covers known [.used w] [] [] := .used (by simp [hw])
  refine ⟨[Sign.used w] ++ (Sign.opening :: ss ++ [Sign.closing]), ?_, hname.append h.group⟩
  have hyields : Yields [.word w] [.used w] := by
    intro outer rest
    simp [signs, hkeyword, Clause.plain]
  exact hyields.append hss.group

theorem comma (h : Scoped known ts new all) : Scoped known (.comma :: ts) new all := by
  obtain ⟨ss, hss, h⟩ := h
  exact ⟨ss, hss, h⟩

/-- Words that introduce nothing, and of which none is a variable out of its scope. -/
theorem words {ws : List String}
    (h : ∀ w ∈ ws, isPlainWord w = true ∨ (isVariable w = true ∧ w ∈ known)) :
    Scoped known (ws.map .word) [] [] := by
  induction ws with
  | nil => exact nil known
  | cons w rest ih =>
    rw [List.forall_mem_cons] at h
    obtain ⟨ss, hss, hrest⟩ := ih h.2
    cases hkeyword : keyword? w with
    | some c =>
      -- the word begins a clause that introduces nothing
      have hplain : c = .plain := by
        rcases h.1 with hword | ⟨hvariable, -⟩
        · simp only [isPlainWord, hkeyword, Bool.and_eq_true] at hword
          simpa using hword.1
        · rw [keyword?_of_isVariable hvariable] at hkeyword
          cases hkeyword
      refine ⟨ss, fun outer rest => ?_, hrest⟩
      have hsigns := hss outer rest
      simpa [signs, hkeyword, hplain] using hsigns
    | none =>
      have hused : isVariable w = true → w ∈ known := by
        intro hvariable
        rcases h.1 with hword | ⟨-, hmem⟩
        · simp [isPlainWord, hvariable] at hword
        · exact hmem
      refine ⟨[Sign.used w] ++ ss, fun outer rest => ?_, (Covers.used hused).append hrest⟩
      have hsigns := hss outer rest
      simpa [signs, hkeyword, Clause.plain] using hsigns

/-- A variable that is computed is introduced. -/
theorem letVariable {v : String} (h : isVariable v = true) :
    Scoped known [.word "LET", .word v] [v] [v] := by
  have hlet : keyword? "LET" = some ⟨true, false⟩ := rfl
  refine ⟨[.introduced v], fun outer rest => ?_, .introduced known v⟩
  simp [signs, hlet, keyword?_of_isVariable h, Clause.plain]

/-- A variable and its value, which does without it. -/
theorem letValue {v : String} (hv : isVariable v = true) (h : Scoped known ts [] all) :
    Scoped known ([Token.word "LET", .word v] ++ ts) [v] ([v] ++ all) :=
  (letVariable hv).append h.within

/-- A variable that runs over a list is introduced. -/
theorem forVariable {v : String} (h : isVariable v = true) :
    Scoped known [.word "FOR", .word v, .word "IN"] [v] [v] := by
  have hfor : keyword? "FOR" = some ⟨true, true⟩ := rfl
  have hin : keyword? "IN" = some .plain := rfl
  refine ⟨[.introduced v], fun outer rest => ?_, .introduced known v⟩
  simp [signs, hfor, hin, keyword?_of_isVariable h]

/-- So are two variables, for neighbours and for their edges. -/
theorem forVariables {v w : String} (hv : isVariable v = true) (hw : isVariable w = true) :
    Scoped known [.word "FOR", .word v, .comma, .word w, .word "IN"] [w, v] [v, w] := by
  have hfor : keyword? "FOR" = some ⟨true, true⟩ := rfl
  have hin : keyword? "IN" = some .plain := rfl
  refine ⟨[.introduced v] ++ [.introduced w], fun outer rest => ?_, ?_⟩
  · simp [signs, hfor, hin, keyword?_of_isVariable hv, keyword?_of_isVariable hw]
  · exact (Covers.introduced known v).append (.introduced _ w)

/-- A name that is no variable may be introduced, too. -/
theorem letName {w : String} (hkeyword : keyword? w = none) (hw : isVariable w = false) :
    Scoped known [.word "LET", .word w] [] [] := by
  have hlet : keyword? "LET" = some ⟨true, false⟩ := rfl
  refine ⟨[.introduced w], fun outer rest => ?_, .introducedName hw⟩
  simp [signs, hlet, hkeyword, Clause.plain]

/-- The count has a variable of its own, which no property can have. -/
theorem countInto {w : String} (hkeyword : keyword? w = none) (hw : isVariable w = false) :
    Scoped known (["COLLECT", "WITH", "COUNT", "INTO", w].map .word) [] [] := by
  have hcollect : keyword? "COLLECT" = some ⟨true, true⟩ := rfl
  have hwith : keyword? "WITH" = some .plain := rfl
  have hcount : keyword? "COUNT" = none := rfl
  have hinto : keyword? "INTO" = some ⟨true, false⟩ := rfl
  have hplain : isVariable "COUNT" = false := by decide
  have hused : Covers known [.used "COUNT"] [] [] := .used (by simp [hplain])
  refine ⟨[Sign.used "COUNT"] ++ [Sign.introduced w], fun outer rest => ?_,
    hused.append (.introducedName hw)⟩
  simp [signs, hcollect, hwith, hcount, hinto, hkeyword, Clause.plain]

/-- The keys of a collection, each from a field of one variable, and its groups. -/
theorem collect {vs : List String} {item group : String} (hvs : ∀ v ∈ vs, isVariable v = true)
    (hitem : isVariable item = true) (hknown : item ∈ known) (hgroup : isVariable group = true) :
    Scoped known (.word "COLLECT" ::
      ([Token.comma].intercalate (vs.map fun v => [.word v, .word item]) ++
        [Token.word "INTO", .word group]))
      (group :: vs) (vs ++ [group]) := by
  have hcollect : keyword? "COLLECT" = some ⟨true, true⟩ := rfl
  have hinto : keyword? "INTO" = some ⟨true, false⟩ := rfl
  have hitem := keyword?_of_isVariable hitem
  -- induction on the keys: after a comma, the next one is introduced
  have hkeys (outer : List Clause) (rest : List Token) : signs ⟨true, true⟩ outer
      ([Token.comma].intercalate (vs.map fun v => [.word v, .word item]) ++
        Token.word "INTO" :: rest) =
      vs.flatMap (fun v => [Sign.introduced v, .used item]) ++ signs ⟨true, false⟩ outer rest := by
    induction vs with
    | nil => simp [signs, hinto]
    | cons v vs ih =>
      rw [List.forall_mem_cons] at hvs
      have hv := keyword?_of_isVariable hvs.1
      cases vs with
      | nil => simp [signs, hv, hitem, hinto]
      | cons w vs =>
        have hrest := ih hvs.2
        have hjoin (more : List Token) (tss : List (List Token)) :
            [Token.comma].intercalate ([.word v, .word item] :: more :: tss) =
              [Token.word v, .word item, .comma] ++ [Token.comma].intercalate (more :: tss) :=
          List.intercalate_cons_cons
        rw [List.map_cons] at hrest
        rw [List.map_cons, List.map_cons, hjoin, List.flatMap_cons]
        generalize [Token.comma].intercalate _ = more at hrest ⊢
        simpa [signs, hv, hitem] using hrest
  have hcovers : Covers known (vs.flatMap fun v => [Sign.introduced v, .used item]) vs vs := by
    clear hkeys
    induction vs generalizing known with
    | nil => exact .nil known
    | cons v vs ih =>
      rw [List.forall_mem_cons] at hvs
      have hfirst : Covers known [.introduced v, .used item] [v] [v] :=
        (Covers.introduced known v).append (.used fun _ => List.mem_append_right _ hknown)
      have hrest := ih hvs.2 (List.mem_append_right [v] hknown)
      exact (hfirst.append hrest).mono (List.Subset.refl _) (by simp) (.refl _)
  refine ⟨_, fun outer rest => ?_, (hcovers.append (.introduced _ group)).mono
    (List.Subset.refl _) (by simp) (.refl _)⟩
  have hsigns := hkeys outer (.word group :: rest)
  simp only [List.cons_append, List.append_assoc, List.nil_append, signs, hcollect] at hsigns ⊢
  rw [hsigns]
  simp [keyword?_of_isVariable hgroup, Clause.plain]

end Scoped

end Aql

end GraphQuery
