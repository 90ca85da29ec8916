import GraphQuery.Proofs.Scoping

/-!
# GraphQuery.Proofs.Readings — how the parts of an AQL text are read

1. **Texts apart**: where no word goes on from one text to the next, each is read by itself.
2. **Templates**: a text with places for others is read like its skeleton.
3. **Plain fragments** introduce nothing and use what is in scope.
4. **Scripts** are read command by command.
-/

namespace GraphQuery.Aql

open Json

/-! ## Texts apart -/

namespace Lexer

/-- The tokens that end within some symbols, and what the reader knows after them. -/
def scan (l : Lexer) : List Symbol → List Token × Lexer
  | [] => ([], l)
  | s :: rest => ((l.step s).1 ++ (scan (l.step s).2 rest).1, (scan (l.step s).2 rest).2)

/-- Symbols are read part by part. -/
theorem tokens_append (l : Lexer) (xs ys : List Symbol) :
    l.tokens (xs ++ ys) = (l.scan xs).1 ++ (l.scan xs).2.tokens ys := by
  induction xs generalizing l with
  | nil => rfl
  | cons s rest ih => simp [tokens, scan, ih]

theorem scan_append (l : Lexer) (xs ys : List Symbol) :
    l.scan (xs ++ ys) =
      ((l.scan xs).1 ++ ((l.scan xs).2.scan ys).1, ((l.scan xs).2.scan ys).2) := by
  induction xs generalizing l with
  | nil => rfl
  | cons s rest ih => simp [scan, ih]

/-- The tokens are those found on the way, and the one at the end. -/
theorem tokens_eq_scan (l : Lexer) (xs : List Symbol) :
    l.tokens xs = (l.scan xs).1 ++ (l.scan xs).2.ended := by
  have h := tokens_append l xs []
  rwa [List.append_nil] at h

end Lexer

/-- Symbols that do not go on with a word. -/
def isApart : List Symbol → Bool
  | .char c :: _ => !isWordChar c
  | _ => true

/-- What is apart from a word is read as if there were none. -/
theorem Lexer.read_apart {l : Lexer} (h : l.quote = none) {ys : List Symbol}
    (hys : isApart ys = true) : l.tokens ys = l.ended ++ start.tokens ys ∧
      ((l.scan ys).2.quote = (start.scan ys).2.quote) ∧
      (ys ≠ [] → (l.scan ys).2 = (start.scan ys).2) := by
  obtain ⟨quote, word⟩ := l
  cases h
  cases ys with
  | nil => simp [tokens, start, ended, scan]
  | cons s rest =>
    cases s with
    | placeholder name => simp [tokens, scan, step, start, ended]
    | char c =>
      have hc : isWordChar c = false := by simpa [isApart] using hys
      simp [tokens, scan, step, start, ended, hc]

/-- The tokens of a fragment. -/
def tokensOf (f : Fragment) : List Token := Lexer.start.tokens (Fragment.symbols f)

/-- A fragment that closes its quotes. -/
def Whole (f : Fragment) : Prop := (Lexer.start.scan (Fragment.symbols f)).2.quote = none

/-- A fragment that ends with no word. -/
def Ends (f : Fragment) : Prop := (Lexer.start.scan (Fragment.symbols f)).2 = .start

/-- A fragment, closing its quotes, that is read as some tokens. -/
structure Reads (f : Fragment) (ts : List Token) : Prop where
  whole : Whole f
  tokens : tokensOf f = ts

/-- Two fragments are read one after the other if no word goes on from the first to the second. -/
theorem Reads.append {f g : Fragment} {ts us : List Token} (hf : Reads f ts) (hg : Reads g us)
    (h : Ends f ∨ isApart (Fragment.symbols g) = true) : Reads (f ++ g) (ts ++ us) := by
  have hflush := Lexer.tokens_eq_scan .start (Fragment.symbols f)
  have hparts : (Lexer.start.scan (Fragment.symbols f)).2.tokens (Fragment.symbols g) =
        (Lexer.start.scan (Fragment.symbols f)).2.ended ++ tokensOf g ∧
      ((Lexer.start.scan (Fragment.symbols f)).2.scan (Fragment.symbols g)).2.quote = none := by
    rcases h with hends | hapart
    · rw [hends]
      exact ⟨rfl, hg.whole⟩
    · obtain ⟨htokens, hquote, -⟩ := Lexer.read_apart hf.whole hapart
      exact ⟨htokens, hquote.trans hg.whole⟩
  constructor
  · rw [Whole, Fragment.symbols_append, Lexer.scan_append]
    exact hparts.2
  · rw [tokensOf, Fragment.symbols_append, Lexer.tokens_append, hparts.1, ← List.append_assoc,
      ← hflush]
    exact congrArg₂ _ hf.tokens hg.tokens

theorem Ends.append {f g : Fragment} (hf : Ends f) (hg : Ends g) : Ends (f ++ g) := by
  rw [Ends, Fragment.symbols_append, Lexer.scan_append, hf]
  exact hg

/-- A fragment after which any other one may follow. -/
structure Leads (f : Fragment) (ts : List Token) : Prop where
  reads : Reads f ts
  ends : Ends f

/-- Fragments that lead from border to border do so one after the other. -/
theorem Leads.append {f g : Fragment} {ts us : List Token} (hf : Leads f ts) (hg : Leads g us) :
    Leads (f ++ g) (ts ++ us) :=
  ⟨hf.reads.append hg.reads (.inl hf.ends), hf.ends.append hg.ends⟩

/-- Whatever a fragment ends with, any other one may follow what is apart from it. -/
theorem Reads.append_leads {f g : Fragment} {ts us : List Token} (hf : Reads f ts)
    (hg : Leads g us) (hapart : isApart (Fragment.symbols g) = true)
    (hne : Fragment.symbols g ≠ []) : Leads (f ++ g) (ts ++ us) := by
  refine ⟨hf.append hg.reads (.inr hapart), ?_⟩
  have hlast := (Lexer.read_apart hf.whole hapart).2.2 hne
  rw [Ends, Fragment.symbols_append, Lexer.scan_append]
  exact hlast.trans hg.ends

theorem Leads.nil : Leads [] [] := ⟨⟨rfl, rfl⟩, rfl⟩

/-- Text that ends at a border leads to its tokens. -/
theorem Leads.text {s : String} {ts : List Token}
    (h : Lexer.start.scan (s.toList.map .char) = (ts, .start)) : Leads (lit s) ts := by
  have hends : Ends (lit s) := by rw [Ends, Fragment.symbols_lit, h]
  refine ⟨⟨by rw [Whole, hends]; rfl, ?_⟩, hends⟩
  rw [tokensOf, Lexer.tokens_eq_scan, Fragment.symbols_lit, h]
  exact List.append_nil ts

/-- Fragments with commas between them. -/
theorem reads_comma {α : Type} {f : α → Fragment} {g : α → List Token} {xs : List α}
    (h : ∀ x ∈ xs, Reads (f x) (g x)) :
    Reads (comma (xs.map f)) ([Token.comma].intercalate (xs.map g)) := by
  have hcomma : Leads (lit ", ") [.comma] := .text (by decide)
  unfold comma Fragment.join
  induction xs with
  | nil => exact ⟨rfl, rfl⟩
  | cons x rest ih =>
    rw [List.forall_mem_cons] at h
    cases rest with
    | nil => simpa using h.1
    | cons y rest =>
      have hfirst := h.1.append_leads hcomma (by decide) (by decide)
      rw [List.map_cons, List.map_cons, List.map_cons, List.map_cons, List.intercalate_cons_cons,
        List.intercalate_cons_cons]
      exact hfirst.reads.append (ih h.2) (.inl hfirst.ends)

@[simp]
theorem tokensOf_nil : tokensOf [] = [] := rfl

theorem reads_nil : Reads [] [] := ⟨rfl, rfl⟩

@[simp]
theorem tokensOf_bound (name : String) (value : Value) : tokensOf (bound name value) = [] := rfl

theorem whole_bound (name : String) (value : Value) : Whole (bound name value) := rfl

/-- A word is read as such. -/
theorem Lexer.scan_word {cs : List Char} (h : ∀ c ∈ cs, isWordChar c = true) (word : List Char) :
    Lexer.scan ⟨none, word⟩ (cs.map .char) = ([], ⟨none, word ++ cs⟩) := by
  induction cs generalizing word with
  | nil => simp [scan]
  | cons c rest ih =>
    rw [List.forall_mem_cons] at h
    have hstep : Lexer.step ⟨none, word⟩ (.char c) = ([], ⟨none, word ++ [c]⟩) := by
      simp [step, h.1]
    simp [scan, hstep, ih h.2]

/-- A word is read as itself. -/
theorem reads_word {f : Fragment} {w : String} (hw : ∀ c ∈ w.toList, isWordChar c = true)
    (hne : w ≠ "") (h : Fragment.symbols f = w.toList.map .char) : Reads f [.word w] := by
  have hscan := Lexer.scan_word hw []
  constructor
  · rw [Whole, h, Lexer.start, hscan]
  · rw [tokensOf, Lexer.tokens_eq_scan, h, Lexer.start, hscan]
    simp [Lexer.ended, hne]

/-! ## Templates -/

/-- A part of a template. -/
inductive Part
  | text (s : String)
  /-- A place for a fragment. -/
  | slot
  /-- A place for a name, within quotes. -/
  | quoted
deriving Repr

/-- Parts in their order. -/
abbrev Template := List Part

namespace Template

/-- Puts names and fragments into their places. -/
def fill : Template → List String → List Fragment → Fragment
  | [], _, _ => []
  | .text s :: rest, names, fs => lit s ++ fill rest names fs
  | .slot :: rest, names, fs => fs.headD [] ++ fill rest names fs.tail
  | .quoted :: rest, names, fs => named (names.headD "") ++ fill rest names.tail fs

/-- Whether a template ends, or goes on without a word. -/
def endsWord : Template → Bool
  | [] => true
  | .text s :: _ => s.toList.head?.any fun c => !isWordChar c
  | _ => false

/-- The tokens of a template, with places for those of its fragments. A fragment must be apart from
the words around it, and a name within quotes. The second component says whether the template ends
with no word. -/
def read (l : Lexer) : Template → Option (List (Option Token) × Bool)
  | [] => if l.quote.isNone then some (l.ended.map some, l.word.isEmpty) else none
  | .text s :: rest =>
    let (ts, l) := l.scan (s.toList.map .char)
    (read l rest).map fun (es, b) => (ts.map some ++ es, b)
  | .slot :: rest =>
    if l = .start ∧ endsWord rest then
      (read .start rest).map fun (es, b) => (none :: es, b && !rest.isEmpty)
    else none
  | .quoted :: rest => if l.quote.any fun q => !Text.isSafe q then read l rest else none

/-- Puts the tokens of fragments into their places. -/
def splice : List (Option Token) → List Fragment → List Token
  | [], _ => []
  | some t :: rest, fs => t :: splice rest fs
  | none :: rest, fs => tokensOf (fs.headD []) ++ splice rest fs.tail

theorem splice_tokens (ts : List Token) (rest : List (Option Token)) (fs : List Fragment) :
    splice (ts.map some ++ rest) fs = ts ++ splice rest fs := by
  induction ts with
  | nil => rfl
  | cons t ts ih => rw [List.map_cons, List.cons_append, splice, ih, List.cons_append]

/-- What holds of some fragments holds of the first, if it holds of none at all. -/
theorem headD_of_forall {P : Fragment → Prop} (hnil : P []) {fs : List Fragment}
    (h : ∀ f ∈ fs, P f) : P (fs.headD []) := by
  cases fs with
  | nil => exact hnil
  | cons f rest => exact h f (by simp)

/-- A filled template that ends words is apart from what is before it. -/
theorem isApart_fill {t : Template} (h : t.endsWord = true) (names : List String)
    (fs : List Fragment) : isApart (Fragment.symbols (t.fill names fs)) = true ∧
      (t ≠ [] → Fragment.symbols (t.fill names fs) ≠ []) := by
  cases t with
  | nil => simp [fill, isApart]
  | cons part rest =>
    cases part with
    | text s =>
      -- a text goes on with its first character
      rcases (Option.any_eq_true _ _).mp h with ⟨c, hc, hword⟩
      rcases List.head?_eq_some_iff.mp hc with ⟨tail, htail⟩
      simpa [fill, htail, isApart] using hword
    | slot => cases h
    | quoted => cases h

/-- A name has no mark that ends the quote around it. -/
theorem scan_safe {q : Char} (hq : Text.isSafe q = false) (word : List Char) (name : String) :
    Lexer.scan ⟨some q, word⟩ ((Text.safe name).toList.map .char) = ([], ⟨some q, word⟩) := by
  have hsafe : ∀ c ∈ (Text.safe name).toList, c ≠ q := Text.ne_of_mem_safe hq
  generalize (Text.safe name).toList = cs at hsafe
  induction cs with
  | nil => rfl
  | cons c rest ih =>
    rw [List.forall_mem_cons] at hsafe
    have hstep : Lexer.step ⟨some q, word⟩ (.char c) = ([], ⟨some q, word⟩) := by
      simp [Lexer.step, hsafe.1]
    simp [Lexer.scan, hstep, ih hsafe.2]

/-- A template reads like its skeleton, whatever stands in its places. -/
theorem read_fill {t : Template} {l : Lexer} {es : List (Option Token)} {b : Bool}
    {fs : List Fragment} (hread : t.read l = some (es, b)) (names : List String)
    (hfs : ∀ f ∈ fs, Whole f) :
    (l.scan (Fragment.symbols (t.fill names fs))).2.quote = none ∧
      l.tokens (Fragment.symbols (t.fill names fs)) = splice es fs ∧
      (b = true → (l.scan (Fragment.symbols (t.fill names fs))).2 = .start) := by
  -- induction on the template, for any reader
  induction t generalizing l es b names fs with
  | nil =>
    simp only [read, Option.ite_none_right_eq_some, Option.some.injEq, Prod.mk.injEq,
      Option.isNone_iff_eq_none] at hread
    obtain ⟨hquote, rfl, rfl⟩ := hread
    have hsplice := splice_tokens l.ended [] fs
    rw [List.append_nil, splice, List.append_nil] at hsplice
    refine ⟨hquote, hsplice.symm, fun hword => ?_⟩
    have hword : l.word = [] := by simpa using hword
    obtain ⟨quote, word⟩ := l
    cases hquote
    cases hword
    rfl
  | cons part rest ih =>
    cases part with
    | text s =>
      simp only [read, Option.map_eq_some_iff, Prod.exists, Prod.mk.injEq] at hread
      obtain ⟨es, b, hrest, rfl, rfl⟩ := hread
      obtain ⟨hquote, htokens, hends⟩ := ih hrest names hfs
      rw [fill, Fragment.symbols_append, Fragment.symbols_lit, Lexer.scan_append,
        Lexer.tokens_append, splice_tokens, htokens]
      exact ⟨hquote, rfl, hends⟩
    | slot =>
      simp only [read, Option.ite_none_right_eq_some, Option.map_eq_some_iff, Prod.exists,
        Prod.mk.injEq] at hread
      obtain ⟨⟨rfl, hword⟩, es, b, hrest, rfl, rfl⟩ := hread
      have hwhole : Whole (fs.headD []) := headD_of_forall (P := Whole) rfl hfs
      obtain ⟨hquote, htokens, hends⟩ := ih hrest names fun f hf => hfs f (List.mem_of_mem_tail hf)
      -- the fragment is apart from what follows it
      obtain ⟨hapart, hne⟩ := isApart_fill hword names fs.tail
      have hreads : Reads (fs.headD [] ++ fill rest names fs.tail)
          (tokensOf (fs.headD []) ++ splice es fs.tail) :=
        Reads.append ⟨hwhole, rfl⟩ ⟨hquote, htokens⟩ (.inr hapart)
      refine ⟨hreads.whole, hreads.tokens, fun hb => ?_⟩
      rw [Bool.and_eq_true, Bool.not_eq_true', List.isEmpty_eq_false_iff] at hb
      rw [fill, Fragment.symbols_append, Lexer.scan_append,
        (Lexer.read_apart hwhole hapart).2.2 (hne hb.2)]
      exact hends hb.1
    | quoted =>
      simp only [read, Option.ite_none_right_eq_some] at hread
      obtain ⟨hsafe, hrest⟩ := hread
      obtain ⟨hquote, htokens, hends⟩ := ih hrest names.tail hfs
      obtain ⟨quote, word⟩ := l
      rcases (Option.any_eq_true _ _).mp hsafe with ⟨q, rfl, hq⟩
      have hscan := scan_safe (by simpa using hq) word (names.headD "")
      rw [fill, Fragment.symbols_append, Fragment.symbols_named, Lexer.scan_append,
        Lexer.tokens_append, hscan, htokens]
      exact ⟨hquote, rfl, hends⟩

/-- A filled template is read as its own tokens, with those of the fragments in their places. -/
theorem reads (t : Template) {es : List (Option Token)} {b : Bool}
    (hread : t.read .start = some (es, b)) (names : List String) (fs : List Fragment)
    (hfs : ∀ f ∈ fs, Whole f) : Reads (t.fill names fs) (splice es fs) :=
  ⟨(read_fill hread names hfs).1, (read_fill hread names hfs).2.1⟩

/-- So it is with what leads from border to border. -/
theorem leads (t : Template) {es : List (Option Token)} (hread : t.read .start = some (es, true))
    (names : List String) (fs : List Fragment) (hfs : ∀ f ∈ fs, Whole f) :
    Leads (t.fill names fs) (splice es fs) :=
  ⟨reads t hread names fs hfs, (read_fill hread names hfs).2.2 rfl⟩

end Template

/-! ## Plain fragments -/

/-- A fragment that introduces nothing, where `known` is in scope. -/
structure Uses (known : List String) (f : Fragment) : Prop where
  whole : Whole f
  inert : ∃ ss, Yields (tokensOf f) ss ∧ Inert known 0 ss

namespace Template

/-- Whether tokens introduce nothing, and are the rest of a text with some groups open. `names` are
the variables that they may use. -/
def isPlainFrom (names : List String) : Nat → List (Option Token) → Bool
  | opened, [] => opened == 0
  | opened, some (.word w) :: rest =>
    (match keyword? w with
      | some c => c == .plain
      | none => !isVariable w || names.contains w) && isPlainFrom names opened rest
  | opened, some .opening :: rest => isPlainFrom names (opened + 1) rest
  | 0, some .closing :: _ => false
  | opened + 1, some .closing :: rest => isPlainFrom names opened rest
  | opened, some .comma :: rest => isPlainFrom names opened rest
  | opened, none :: rest => isPlainFrom names opened rest

/-- Whether a template only uses given names, whatever fills its places. -/
def isPlain (names : List String) (t : Template) : Bool :=
  (t.read .start).any fun r => isPlainFrom names 0 r.1

/-- What is spliced from harmless tokens and fragments introduces nothing. -/
theorem plain_splice {names known : List String} (hnames : names ⊆ known) {opened : Nat}
    {es : List (Option Token)} {fs : List Fragment} (h : isPlainFrom names opened es = true)
    (hfs : ∀ f ∈ fs, Uses known f) : ∃ ss, Inert known opened ss ∧ ∀ outer rest,
      signs .plain (List.replicate opened .plain ++ outer) (splice es fs ++ rest) =
        ss ++ signs .plain outer rest := by
  -- induction on the tokens; the clauses around open groups are plain
  induction es generalizing opened fs with
  | nil =>
    obtain rfl : opened = 0 := by simpa [isPlainFrom] using h
    exact ⟨[], .nil known 0, fun _ _ => rfl⟩
  | cons e es ih =>
    cases e with
    | none =>
      obtain ⟨ss, hss, hrest⟩ := ih h fun f hf => hfs f (List.mem_of_mem_tail hf)
      have hnil : Uses known [] := ⟨rfl, [], fun _ _ => rfl, .nil known 0⟩
      obtain ⟨-, tt, htt, hplain⟩ := headD_of_forall hnil hfs
      refine ⟨tt ++ ss, hplain.append hss, fun outer rest => ?_⟩
      rw [splice, List.append_assoc, htt, hrest, List.append_assoc]
    | some t =>
      cases t with
      | word w =>
        rw [isPlainFrom, Bool.and_eq_true] at h
        obtain ⟨ss, hss, hrest⟩ := ih h.2 hfs
        cases hkeyword : keyword? w with
        | some c =>
          rw [hkeyword] at h
          obtain rfl : c = .plain := by simpa using h.1
          refine ⟨ss, hss, fun outer rest => ?_⟩
          rw [splice, List.cons_append, ← hrest]
          simp only [signs, hkeyword]
        | none =>
          rw [hkeyword] at h
          have hused : isVariable w = true → w ∈ known := by
            intro hw
            have hmem : names.contains w = true := by simpa [hw] using h.1
            exact hnames (by simpa using hmem)
          refine ⟨.used w :: ss, (Inert.used hused).append hss, fun outer rest => ?_⟩
          rw [splice, List.cons_append, List.cons_append, ← hrest]
          simp [signs, hkeyword, Clause.plain]
      | opening =>
        obtain ⟨ss, hss, hrest⟩ := ih h hfs
        exact ⟨.opening :: ss, hss.opening, fun outer rest => congrArg _ (hrest outer rest)⟩
      | closing =>
        cases opened with
        | zero => cases h
        | succ opened =>
          obtain ⟨ss, hss, hrest⟩ := ih h hfs
          exact ⟨.closing :: ss, hss.closing, fun outer rest => congrArg _ (hrest outer rest)⟩
      | comma =>
        obtain ⟨ss, hss, hrest⟩ := ih h hfs
        exact ⟨ss, hss, hrest⟩

/-- A plain template with plain fragments in its places is plain. -/
theorem uses (t : Template) (names : List String) {known : List String}
    (h : t.isPlain names = true) (hnames : names ⊆ known) (ns : List String) (fs : List Fragment)
    (hfs : ∀ f ∈ fs, Uses known f) : Uses known (t.fill ns fs) := by
  rcases (Option.any_eq_true _ _).mp h with ⟨⟨es, b⟩, hread, hplain⟩
  have hreads := reads t hread ns fs fun f hf => (hfs f hf).whole
  obtain ⟨ss, hss, hsigns⟩ := plain_splice hnames hplain hfs
  refine ⟨hreads.whole, ss, fun outer rest => ?_, hss⟩
  rw [hreads.tokens]
  exact hsigns outer rest

/-- A plain template that names no variables itself. -/
theorem plain (t : Template) {known : List String} (h : t.isPlain [] = true) (ns : List String)
    (fs : List Fragment) (hfs : ∀ f ∈ fs, Uses known f) : Uses known (t.fill ns fs) :=
  uses t [] h (List.nil_subset known) ns fs hfs

end Template

namespace Uses

variable {known : List String}

theorem nil : Uses known [] := ⟨rfl, [], fun _ _ => rfl, .nil known 0⟩

theorem bound (name : String) (value : Value) : Uses known (bound name value) :=
  ⟨rfl, [], fun _ _ => rfl, .nil known 0⟩

theorem mono {known' : List String} {f : Fragment} (h : Uses known f) (hknown : known ⊆ known') :
    Uses known' f := by
  obtain ⟨hwhole, ss, hss, hplain⟩ := h
  exact ⟨hwhole, ss, hss, hplain.mono hknown⟩

/-- A fragment that is one word, which begins no clause. -/
theorem word {f : Fragment} {w : String} (h : Reads f [.word w]) (hkeyword : keyword? w = none)
    (hw : isVariable w = true → w ∈ known) : Uses known f := by
  refine ⟨h.whole, [.used w], fun outer rest => ?_, .used hw⟩
  rw [h.tokens]
  simp [signs, hkeyword, Clause.plain]

/-- What only uses variables introduces none. -/
theorem isScoped {f : Fragment} (h : Uses known f) : Scoped known (tokensOf f) [] [] := by
  obtain ⟨-, ss, hss, hplain⟩ := h
  exact ⟨ss, hss, hplain.covers⟩

theorem text {s : String} (h : Template.isPlain [] [.text s] = true) : Uses known (lit s) := by
  have hnone : ∀ f ∈ ([] : List Fragment), Uses known f := by simp
  simpa [Template.fill] using Template.plain [.text s] h [] [] hnone

/-- A text that may stand between plain fragments. -/
theorem join {separator : String}
    (hseparator : Template.isPlain [] [.slot, .text separator, .slot] = true)
    {fs : List Fragment} (h : ∀ f ∈ fs, Uses known f) :
    Uses known (Fragment.join separator fs) := by
  unfold Fragment.join
  induction fs with
  | nil => exact .nil
  | cons f rest ih =>
    rw [List.forall_mem_cons] at h
    cases rest with
    | nil => simpa using h.1
    | cons g rest =>
      have hboth : ∀ e ∈ [f, List.intercalate (lit separator) (g :: rest)], Uses known e := by
        simpa using ⟨h.1, ih h.2⟩
      have hfill := Template.plain _ hseparator [] _ hboth
      rw [List.intercalate_cons_cons]
      simpa [Template.fill] using hfill

end Uses

/-! ## Scripts -/

/-- What a command writes. -/
def written (c : Command) : Fragment := c.started?.getD c.fragment

/-- A command that is read by itself: it closes its quotes, and no word goes on with it. -/
structure Tidy (c : Command) : Prop where
  whole : Whole (written c)
  apart : c.started? = none → isApart (Fragment.symbols (written c)) = true

/-- A script that is read as some tokens, command by command. -/
structure ReadsScript (script : Script) (ts : List Token) : Prop where
  tidy : ∀ c ∈ script, Tidy c
  tokens : script.flatMap (fun c => tokensOf (written c)) = ts

namespace ReadsScript

theorem nil : ReadsScript [] [] := ⟨by simp, rfl⟩

/-- Scripts are read one after the other. -/
theorem append {a b : Script} {ts us : List Token} (ha : ReadsScript a ts)
    (hb : ReadsScript b us) : ReadsScript (a ++ b) (ts ++ us) :=
  ⟨List.forall_mem_append.mpr ⟨ha.tidy, hb.tidy⟩, by rw [List.flatMap_append, ha.tokens, hb.tokens]⟩

/-- A command that starts a line. -/
theorem starting {c : Command} {f : Fragment} {ts : List Token} (hc : c.started? = some f)
    (h : Reads f ts) : ReadsScript [c] ts := by
  have hwritten : written c = f := by rw [written, hc, Option.getD_some]
  constructor
  · exact List.forall_mem_singleton.mpr ⟨hwritten ▸ h.whole, by simp [hc]⟩
  · simpa [hwritten] using h.tokens

theorem line {f : Fragment} {ts : List Token} (h : Reads f ts) : ReadsScript [.line f] ts :=
  starting rfl h

/-- What continues a line must be apart from it. -/
theorem add {f : Fragment} {ts : List Token} (h : Reads f ts)
    (hapart : isApart (Fragment.symbols f) = true) : ReadsScript [.add f] ts := by
  constructor
  · exact List.forall_mem_singleton.mpr ⟨h.whole, fun _ => hapart⟩
  · simpa [written, Command.started?, Command.fragment] using h.tokens

/-- Other commands than these write nothing. -/
theorem silent {c : Command} (h : written c = []) : ReadsScript [c] [] := by
  constructor
  · refine List.forall_mem_singleton.mpr ⟨?_, fun _ => ?_⟩
    · rw [Whole, h]
      rfl
    · rw [h]
      rfl
  · simp [h]

end ReadsScript

/-! ### Drafts -/

theorem ends_of_symbols {f : Fragment} (h : Fragment.symbols f = []) : Ends f := by
  rw [Ends, h]
  rfl

/-- A draft is empty if it has no symbols. -/
theorem symbols_of_isEmpty {d : Draft} (h : d.isEmpty = true) : d.symbols = [] := by
  have htext : (Fragment.render d.sigil d.pieces).toList = [] := by
    simpa [Draft.text] using (Draft.isEmpty_iff d).mp h
  rw [Fragment.toList_render, List.flatMap_eq_nil_iff] at htext
  -- no symbol is without characters
  apply List.eq_nil_iff_forall_not_mem.mpr
  intro s hs
  have hnone := htext s hs
  cases s with
  | char c => simp [Symbol.render] at hnone
  | placeholder name => simp [Symbol.render, Sigil.placeholder] at hnone

theorem leads_units (n : Nat) : Leads (List.replicate n (.text Draft.indentUnit)) [] := by
  have hunit : Leads (lit Draft.indentUnit) [] := .text (by decide)
  induction n with
  | zero => exact .nil
  | succ n ih => exact hunit.append ih

/-- A line is started with no word before it. -/
theorem leads_startLine {d : Draft} {ts : List Token} (h : Reads d.pieces ts) :
    Leads d.startLine.pieces ts := by
  have hbreak : Leads (lit "\n") [] := .text (by decide)
  -- before the blanks stands a line break, or nothing at all
  have hstarted : Leads (if d.isEmpty then d else d.add (lit "\n")).pieces ts := by
    split
    · rename_i hempty
      exact ⟨h, ends_of_symbols (symbols_of_isEmpty hempty)⟩
    · rw [Draft.add_eq]
      simpa using h.append_leads hbreak (by decide) (by decide)
  have hunits := leads_units (if d.isEmpty then d else d.add (lit "\n")).indentation
  unfold Draft.startLine
  dsimp only
  rw [Draft.add_eq]
  simpa using hstarted.append hunits

/-- A tidy command is read after what has been written. -/
theorem reads_run {d : Draft} {ts : List Token} (h : Reads d.pieces ts) {c : Command}
    (hc : Tidy c) : Reads (d.run c).pieces (ts ++ tokensOf (written c)) := by
  cases hstarted : c.started? with
  | some f =>
    have hline := leads_startLine h
    have hwritten : written c = f := by rw [written, hstarted, Option.getD_some]
    rw [Draft.pieces_run_started hstarted, hwritten]
    exact hline.reads.append ⟨hwritten ▸ hc.whole, rfl⟩ (.inl hline.ends)
  | none =>
    have hwritten : written c = c.fragment := by rw [written, hstarted, Option.getD_none]
    have hapart := hc.apart hstarted
    rw [Draft.pieces_run_continued hstarted, ← hwritten]
    exact h.append ⟨hc.whole, rfl⟩ (.inr hapart)

/-- A text is read as the commands that it was written by. -/
theorem reads_runAll {script : Script} {us : List Token} (hscript : ReadsScript script us)
    {d : Draft} {ts : List Token} (h : Reads d.pieces ts) :
    Reads (d.runAll script).pieces (ts ++ us) := by
  obtain ⟨htidy, rfl⟩ := hscript
  induction script generalizing d ts with
  | nil => simpa [Draft.runAll] using h
  | cons c rest ih =>
    rw [List.forall_mem_cons] at htidy
    have hcons : d.runAll (c :: rest) = (d.run c).runAll rest := rfl
    have hrest := ih (reads_run h htidy.1) htidy.2
    rw [hcons, List.flatMap_cons, ← List.append_assoc]
    exact hrest

/-! ### Scoped scripts -/

/-- A script that, where `known` is in scope, uses no variable out of its scope. It introduces
`all`, of which `new` are in scope after it. -/
def ScopedScript (known : List String) (script : Script) (new all : List String) : Prop :=
  ∃ ts, ReadsScript script ts ∧ Scoped known ts new all

namespace ScopedScript

variable {known new all : List String} {a b : Script}

theorem nil (known : List String) : ScopedScript known [] [] [] := ⟨[], .nil, .nil known⟩

/-- Scripts one after the other are scoped; the second may use what the first introduced. -/
theorem append {new' all' : List String} (ha : ScopedScript known a new all)
    (hb : ScopedScript (new ++ known) b new' all') :
    ScopedScript known (a ++ b) (new' ++ new) (all ++ all') := by
  obtain ⟨ts, hts, ha⟩ := ha
  obtain ⟨us, hus, hb⟩ := hb
  exact ⟨ts ++ us, hts.append hus, ha.append hb⟩

theorem mono {known' new' all' : List String} (h : ScopedScript known a new all)
    (hknown : known ⊆ known') (hnew : new' ⊆ new) (hall : all.Perm all') :
    ScopedScript known' a new' all' := by
  obtain ⟨ts, hts, h⟩ := h
  exact ⟨ts, hts, h.mono hknown hnew hall⟩

theorem line {f : Fragment} {ts : List Token} (hf : Reads f ts) (h : Scoped known ts new all) :
    ScopedScript known [.line f] new all := ⟨ts, .line hf, h⟩

/-- What follows a script may use what is in scope after it. -/
theorem followed (ha : ScopedScript known a new all) (hb : ScopedScript (new ++ known) b [] []) :
    ScopedScript known (a ++ b) new all := by
  simpa using ha.append hb

end ScopedScript

/-- A script that introduces nothing, where `known` is in scope. -/
abbrev Consults (known : List String) (script : Script) : Prop := ScopedScript known script [] []

namespace Consults

variable {known : List String} {a b : Script}

/-- Scripts that only use variables do so one after the other. -/
theorem append (ha : Consults known a) (hb : Consults known b) : Consults known (a ++ b) :=
  ScopedScript.append ha hb

theorem starting {c : Command} {f : Fragment} (hc : c.started? = some f) (h : Uses known f) :
    Consults known [c] := ⟨_, .starting hc ⟨h.whole, rfl⟩, h.isScoped⟩

theorem line {f : Fragment} (h : Uses known f) : Consults known [.line f] := starting rfl h

theorem silent {c : Command} (h : written c = []) : Consults known [c] :=
  ⟨[], .silent h, .nil known⟩

theorem flatMap {α : Type} {f : α → Script} {xs : List α} (h : ∀ x ∈ xs, Consults known (f x)) :
    Consults known (xs.flatMap f) := by
  induction xs with
  | nil => exact .nil known
  | cons x rest ih =>
    rw [List.forall_mem_cons] at h
    rw [List.flatMap_cons]
    exact append h.1 (ih h.2)

end Consults

/-- What the signs of a text have to do with the script it was written by. -/
theorem covers_signsOf {script : Script} {new all : List String}
    (h : ScopedScript [] script new all) (sigil : Sigil) :
    Covers [] (signsOf ((Draft.empty sigil).runAll script).symbols) new all := by
  obtain ⟨ts, hts, ss, hss, hcovers⟩ := h
  have htokens := (reads_runAll hts (d := Draft.empty sigil) reads_nil).tokens
  have hsigns := hss [] []
  rw [List.append_nil] at hsigns
  have hnone : signs .plain [] [] = [] := rfl
  rw [hnone, List.append_nil] at hsigns
  rw [signsOf, Draft.symbols, ← tokensOf, htokens, List.nil_append, hsigns]
  exact hcovers

end GraphQuery.Aql
