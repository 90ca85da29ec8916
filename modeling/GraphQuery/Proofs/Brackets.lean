import GraphQuery.Proofs.Identifiers

/-!
# GraphQuery.Proofs.Brackets — how the brackets of a Cypher text are read

1. **Readers** know which brackets are open, whether they are in a quoted text, and the word at
   hand.
2. **Closed texts** close what they open. Outside parentheses they contain no alternatives, and
   outside brackets no bar, so that a reader finds the end of a condition.
3. **Closed texts within others** are read without an effect on what is open around them.
4. **Templates**: a text with places for closed texts is closed if its skeleton is.
-/

namespace GraphQuery.Cypher

/-! ## Readers -/

/-- What a reader knows after some text. -/
structure Reader where
  /-- Brackets that are to be closed, the innermost first. -/
  awaited : List Char
  quote : Option Char
  word : List Char
deriving Repr, DecidableEq

/-- The characters that words consist of. -/
def isWordChar (c : Char) : Bool := c.isAlphanum || c == '_' || c == '$'

/-- The marks between which a text is quoted. -/
def isQuote (c : Char) : Bool := c == '`' || c == '\'' || c == '"'

/-- The bracket that closes a bracket. -/
def closing? : Char → Option Char
  | '(' => some ')'
  | '[' => some ']'
  | '\x7b' => some '\x7d'
  | _ => none

/-- Whether a bracket closes another one. -/
def isClosing (c : Char) : Bool := c == ')' || c == ']' || c == '\x7d'

/-- A word between alternatives, in upper case or in lower case. -/
def isAlternation (word : List Char) : Bool :=
  [['O', 'R'], ['X', 'O', 'R']].contains (word.map Char.toUpper)

namespace Reader

/-- What a reader knows before a text. -/
def start : Reader := ⟨[], none, []⟩

/-- Ends the word at hand. Alternatives may only stand directly in parentheses. -/
def endWord (r : Reader) : Option Reader :=
  if isAlternation r.word && r.awaited.head? != some ')' then none else some { r with word := [] }

/-- Reads a character that is not part of a word. -/
def mark (r : Reader) (c : Char) : Option Reader :=
  if isQuote c then some { r with quote := some c }
  else match closing? c with
    | some bracket => some { r with awaited := bracket :: r.awaited }
    | none =>
      if isClosing c then
        if r.awaited.head? = some c then some { r with awaited := r.awaited.tail } else none
      else if c == '|' && r.awaited.isEmpty then none
      else some r

/-- Reads a character. Within quotes only the end of the quote matters. -/
def step (r : Reader) (c : Char) : Option Reader :=
  match r.quote with
  | some q => some (if c == q then { r with quote := none } else r)
  | none => if isWordChar c then some { r with word := r.word ++ [c] } else r.endWord.bind (·.mark c)

/-- Reads characters, as long as they fit. -/
def read (r : Reader) : List Char → Option Reader
  | [] => some r
  | c :: rest => (r.step c).bind fun r => r.read rest

/-- Whether a text may end here. -/
def isDone (r : Reader) : Bool := r.quote.isNone && r.endWord == some start

end Reader

/-! ## Closed texts -/

/-- A text that closes what it opens. -/
def Closed (text : String) : Prop := (Reader.start.read text.toList).any Reader.isDone = true

instance (text : String) : Decidable (Closed text) :=
  inferInstanceAs (Decidable ((Reader.start.read text.toList).any Reader.isDone = true))

example : Closed "(a OR b) AND any(x IN [c, d] WHERE x = '|')" := by decide

example : ¬ Closed "(a AND b) OR c" := by decide

namespace Reader

/-- A text is read part by part. -/
theorem read_append (r : Reader) (xs ys : List Char) :
    r.read (xs ++ ys) = (r.read xs).bind (·.read ys) := by
  induction xs generalizing r with
  | nil => rfl
  | cons c rest ih =>
    rw [List.cons_append, read, read, Option.bind_assoc]
    -- the reader after the first character goes on alike
    congr 1
    funext r
    exact ih r

/-! ## Closed texts within others -/

/-- The same reader within open brackets. -/
def within (awaited : List Char) (r : Reader) : Reader := { r with awaited := r.awaited ++ awaited }

/-- A word ends, unless it stands between alternatives that are not directly in parentheses. -/
theorem endWord_eq_some {r r' : Reader} (h : r.endWord = some r') :
    (isAlternation r.word = false ∨ r.awaited.head? = some ')') ∧ r' = { r with word := [] } := by
  unfold endWord at h
  split at h
  · cases h
  · rename_i hword
    cases h
    simpa [or_iff_not_imp_left] using hword

/-- What holds at the end of a word holds within further brackets. -/
theorem endWord_within {r r' : Reader} (h : r.endWord = some r') (awaited : List Char) :
    (r.within awaited).endWord = some (r'.within awaited) := by
  rcases endWord_eq_some h with ⟨hword, rfl⟩
  have hwithin : (isAlternation (r.within awaited).word &&
      (r.within awaited).awaited.head? != some ')') = false := by
    -- the word is no alternative, or the bracket around it is one of its own
    rcases hword with hword | hhead
    · simp [within, hword]
    · simp [within, List.head?_append, hhead]
  rw [endWord, hwithin]
  rfl

theorem mark_within {r r' : Reader} {c : Char} (h : r.mark c = some r') (awaited : List Char) :
    (r.within awaited).mark c = some (r'.within awaited) := by
  unfold mark at h ⊢
  split at h
  · -- a quote opens
    rename_i hquote
    cases h
    rw [if_pos hquote]
    rfl
  rename_i hquote
  rw [if_neg hquote]
  split at h
  · -- a bracket opens
    cases h
    rfl
  rename_i hnone
  split at h
  · rename_i hclosing
    rw [if_pos hclosing]
    split at h
    · -- The innermost bracket is closed; those around the text stay open.
      rename_i hhead
      cases h
      rcases List.head?_eq_some_iff.mp hhead with ⟨rest, hrest⟩
      simp [within, hrest]
    · cases h
  · -- any other mark, which is no bar outside brackets
    rename_i hclosing
    rw [if_neg hclosing]
    split at h
    · cases h
    · rename_i hbar
      cases h
      have hwithin : ¬ ((c == '|' && (r.within awaited).awaited.isEmpty) = true) := by
        intro hempty
        apply hbar
        simp only [within, Bool.and_eq_true, List.isEmpty_iff, List.append_eq_nil_iff] at hempty ⊢
        exact ⟨hempty.1, hempty.2.1⟩
      rw [if_neg hwithin]

theorem step_within {r r' : Reader} {c : Char} (h : r.step c = some r') (awaited : List Char) :
    (r.within awaited).step c = some (r'.within awaited) := by
  unfold step at h ⊢
  have hquote : (r.within awaited).quote = r.quote := rfl
  rw [hquote]
  split at h
  · -- within a quoted text, brackets do not matter
    cases h
    split <;> rfl
  · split at h
    · rename_i hword
      cases h
      rw [if_pos hword]
      rfl
    · rename_i hword
      rw [if_neg hword]
      -- the mark ends the word before it
      rcases Option.bind_eq_some_iff.mp h with ⟨ended, hended, hmark⟩
      rw [endWord_within hended, Option.bind_some]
      exact mark_within hmark awaited

/-- A text is read within further brackets as it is by itself. -/
theorem read_within {r r' : Reader} {text : List Char} (h : r.read text = some r')
    (awaited : List Char) : (r.within awaited).read text = some (r'.within awaited) := by
  -- induction on the text, for any reader
  induction text generalizing r with
  | nil =>
    cases h
    rfl
  | cons c rest ih =>
    rcases Option.bind_eq_some_iff.mp h with ⟨next, hstep, hrest⟩
    rw [read, step_within hstep, Option.bind_some]
    exact ih hrest

end Reader

/-- A closed text, wherever it stands, leaves the brackets around it as they are. -/
theorem Closed.read {text : String} (h : Closed text) (awaited : List Char) :
    ∃ r, (Reader.mk awaited none []).read text.toList = some r ∧ r.quote = none ∧
      r.endWord = some ⟨awaited, none, []⟩ := by
  rcases (Option.any_eq_true _ _).mp h with ⟨r, hread, hdone⟩
  simp only [Reader.isDone, Bool.and_eq_true, Option.isNone_iff_eq_none, beq_iff_eq] at hdone
  rcases hdone with ⟨hquote, hend⟩
  exact ⟨r.within awaited, Reader.read_within hread awaited, hquote,
    Reader.endWord_within hend awaited⟩

/-- A text is closed if it can be read, and leaves no quote and no word behind that is open. -/
theorem closed_of_read {text : String} {r : Reader} (h : Reader.start.read text.toList = some r)
    (hquote : r.quote = none) (hend : r.endWord = some Reader.start) : Closed text := by
  simp [Closed, h, Reader.isDone, hquote, hend]

/-! ## Templates -/

/-- A part of a template. -/
inductive Part
  | text (s : String)
  /-- A place for a closed text. -/
  | slot
  /-- A place for a placeholder, directly in parentheses. -/
  | value
deriving Repr

/-- Parts in their order. -/
abbrev Template := List Part

namespace Template

/-- The text of a template whose places are filled. -/
def fill : Template → List String → String
  | [], _ => ""
  | .text s :: rest, contents => s ++ fill rest contents
  | _ :: rest, content :: contents => content ++ fill rest contents
  | _ :: _, [] => ""

@[simp]
theorem fill_nil (contents : List String) : fill [] contents = "" := by cases contents <;> rfl

@[simp]
theorem fill_text (s : String) (rest : Template) (contents : List String) :
    fill (.text s :: rest) contents = s ++ fill rest contents := by cases contents <;> rfl

@[simp]
theorem fill_slot (rest : Template) (content : String) (contents : List String) :
    fill (.slot :: rest) (content :: contents) = content ++ fill rest contents := rfl

@[simp]
theorem fill_value (rest : Template) (content : String) (contents : List String) :
    fill (.value :: rest) (content :: contents) = content ++ fill rest contents := rfl

/-- Whether a template ends, or goes on with a character that ends a word. -/
def endsWord : Template → Bool
  | [] => true
  | .text s :: _ => s.toList.head?.any fun c => !isWordChar c
  | _ => false

/-- Reads the skeleton of a template. Places must be apart from the words around them. -/
def read (r : Reader) : Template → Option Reader
  | [] => some r
  | .text s :: rest => (r.read s.toList).bind fun r => read r rest
  | .slot :: rest =>
    if r.quote.isNone && r.word.isEmpty && endsWord rest then read r rest else none
  | .value :: rest =>
    if r.quote.isNone && r.word.isEmpty && r.awaited.head? == some ')' && endsWord rest then
      read r rest
    else none

/-- Whether the skeleton of a template is closed. -/
def isClosed (t : Template) : Bool := (t.read .start).any Reader.isDone

/-- What may stand in the places of a template. -/
def Takes (S V : String → Prop) : Template → List String → Prop
  | [], [] => True
  | .text _ :: rest, contents => Takes S V rest contents
  | .slot :: rest, content :: contents => S content ∧ Takes S V rest contents
  | .value :: rest, content :: contents => V content ∧ Takes S V rest contents
  | _, _ => False

@[simp]
theorem takes_nil (S V : String → Prop) : Takes S V [] [] ↔ True := Iff.rfl

@[simp]
theorem takes_text (S V : String → Prop) (s : String) (rest : Template) (contents : List String) :
    Takes S V (.text s :: rest) contents ↔ Takes S V rest contents := by
  cases contents <;> exact Iff.rfl

@[simp]
theorem takes_slot (S V : String → Prop) (rest : Template) (content : String)
    (contents : List String) :
    Takes S V (.slot :: rest) (content :: contents) ↔ S content ∧ Takes S V rest contents := Iff.rfl

@[simp]
theorem takes_value (S V : String → Prop) (rest : Template) (content : String)
    (contents : List String) :
    Takes S V (.value :: rest) (content :: contents) ↔ V content ∧ Takes S V rest contents :=
  Iff.rfl

end Template

/-- The text of a placeholder. -/
def IsPlaceholder (text : String) : Prop := ∀ c ∈ text.toList, c = '$' ∨ Text.isSafe c = true

/-- Readers that agree on what comes next, once the word at hand is ended. -/
def Reader.Alike (r s : Reader) : Prop :=
  r.quote = none ∧ s.quote = none ∧ r.endWord = s.endWord

/-- Readers that differ in their last word at most read alike what comes after it. -/
theorem Reader.Alike.read_eq {r s : Reader} (h : r.Alike s) {c : Char} {rest : List Char}
    (hc : isWordChar c = false) : r.read (c :: rest) = s.read (c :: rest) := by
  rcases h with ⟨hr, hs, hend⟩
  have hstep : r.step c = s.step c := by
    simp [step, hr, hs, hc, hend]
  rw [read, read, hstep]

theorem Reader.endWord_of_rest {r : Reader} (h : r.word = []) : r.endWord = some r := by
  rcases r with ⟨awaited, quote, word⟩
  cases h
  rfl

/-- Safe characters and the sigil are no marks. -/
theorem Reader.mark_of_safe {c : Char} (h : c = '$' ∨ Text.isSafe c = true) (r : Reader) :
    r.mark c = some r := by
  -- none of the marks that a reader acts on is safe
  have hne : ∀ d ∈ ['`', '\'', '"', '(', '[', '\x7b', ')', ']', '\x7d', '|'], c ≠ d := by
    rintro d hd rfl
    simp only [List.mem_cons, List.not_mem_nil, or_false] at hd
    rcases hd with rfl | rfl | rfl | rfl | rfl | rfl | rfl | rfl | rfl | rfl <;>
      rcases h with h | h <;> revert h <;> decide
  simp only [List.forall_mem_cons] at hne
  have hclosing : closing? c = none := by
    unfold closing?
    split <;> simp_all
  simp [mark, isQuote, isClosing, hclosing, hne]

/-- Directly in parentheses, a placeholder is read without an effect on what is open. -/
theorem IsPlaceholder.read {text : List Char} (h : ∀ c ∈ text, c = '$' ∨ Text.isSafe c = true)
    {r : Reader} (hquote : r.quote = none) (hhead : r.awaited.head? = some ')') :
    ∃ s, r.read text = some s ∧ s.quote = none ∧ s.endWord = some { r with word := [] } := by
  -- directly in parentheses, any word may end
  have hended (r : Reader) (hhead : r.awaited.head? = some ')') :
      r.endWord = some { r with word := [] } := by
    simp [Reader.endWord, hhead]
  induction text generalizing r with
  | nil => exact ⟨r, rfl, hquote, hended r hhead⟩
  | cons c rest ih =>
    -- a character is added to the word, or ends it and does nothing else
    have hstep : ∃ s, r.step c = some s ∧ s.awaited = r.awaited ∧ s.quote = none := by
      unfold Reader.step
      rw [hquote]
      split
      · rename_i q hq
        cases hq
      · split
        · exact ⟨_, rfl, rfl, rfl⟩
        · rw [hended r hhead, Option.bind_some, Reader.mark_of_safe (h c (by simp))]
          exact ⟨_, rfl, rfl, hquote⟩
    rcases hstep with ⟨next, hnext, hawaited, hnone⟩
    obtain ⟨s, hread, hs, hend⟩ := ih (fun d hd => h d (by simp [hd])) hnone
      (by rw [hawaited, hhead])
    refine ⟨s, ?_, hs, ?_⟩
    · rw [Reader.read, hnext, Option.bind_some, hread]
    · rw [hend, hawaited, hnone, hquote]

/-- A template that ends words is empty, or begins with no character of a word when it is filled. -/
theorem Template.endsWord_cases {t : Template} (h : t.endsWord = true) (contents : List String) :
    t = [] ∨ ∃ c rest, (t.fill contents).toList = c :: rest ∧ isWordChar c = false := by
  cases t with
  | nil => exact .inl rfl
  | cons part rest =>
    cases part with
    | text s =>
      -- a text goes on with its first character
      rcases (Option.any_eq_true _ _).mp h with ⟨c, hc, hword⟩
      rcases List.head?_eq_some_iff.mp hc with ⟨tail, htail⟩
      exact .inr ⟨c, tail ++ (fill rest contents).toList, by simp [fill, htail], by simpa using hword⟩
    | slot => cases h
    | value => cases h

/-- What stands in a place leaves a reader that goes on like the one before it. -/
theorem Template.read_place {t : Template} {contents : List String} {content : List Char}
    {r r' s : Reader} (hcontent : r.read content = some r') (hquote : r.quote = none)
    (hword : r.word = []) (hends : t.endsWord = true)
    (hnone : r'.quote = none) (hend : r'.endWord = some r) (hread : t.read r = some s)
    (ih : ∃ s', r.read (t.fill contents).toList = some s' ∧ (s' = s ∨ s'.Alike s)) :
    ∃ s', r.read (content ++ (t.fill contents).toList) = some s' ∧ (s' = s ∨ s'.Alike s) := by
  have halike : r'.Alike r := ⟨hnone, hquote, by rw [hend, Reader.endWord_of_rest hword]⟩
  rw [Reader.read_append, hcontent, Option.bind_some]
  rcases endsWord_cases hends contents with rfl | ⟨c, rest, hfill, hc⟩
  · -- nothing follows, so the word is left to be ended
    cases hread
    exact ⟨r', by cases contents <;> rfl, .inr halike⟩
  · -- the next character ends the word of both readers
    rw [hfill, halike.read_eq hc, ← hfill]
    exact ih

/-- A template reads like its skeleton, whatever stands in its places. -/
theorem Template.read_fill {t : Template} {contents : List String} {r s : Reader}
    (hread : t.read r = some s) (htakes : t.Takes Closed IsPlaceholder contents) :
    ∃ s', r.read (t.fill contents).toList = some s' ∧ (s' = s ∨ s'.Alike s) := by
  -- induction on the template; the reader of the skeleton and that of the text stay alike
  induction t generalizing r contents with
  | nil =>
    cases hread
    exact ⟨s, by cases contents <;> rfl, .inl rfl⟩
  | cons part rest ih =>
    cases part with
    | text text =>
      rcases Option.bind_eq_some_iff.mp hread with ⟨next, hnext, hrest⟩
      rw [fill_text, String.toList_append, Reader.read_append, hnext, Option.bind_some]
      exact ih hrest (by simpa using htakes)
    | slot =>
      cases contents with
      | nil => exact htakes.elim
      | cons content contents =>
        rcases htakes with ⟨hclosed, htakes⟩
        rw [Template.read] at hread
        split at hread
        · rename_i hcond
          simp only [Bool.and_eq_true, Option.isNone_iff_eq_none, List.isEmpty_iff] at hcond
          rcases hcond with ⟨⟨hquote, hword⟩, hends⟩
          -- a closed text leaves the brackets around it as they are
          rcases hclosed.read r.awaited with ⟨r', hcontent, hnone, hend⟩
          -- at a place, the reader is in no quoted text and in no word
          have hr : Reader.mk r.awaited none [] = r := by
            rw [← hquote, ← hword]
          rw [hr] at hcontent hend
          have hplace := read_place hcontent hquote hword hends hnone hend hread (ih hread htakes)
          simpa [fill] using hplace
        · cases hread
    | value =>
      cases contents with
      | nil => exact htakes.elim
      | cons content contents =>
        rcases htakes with ⟨hplaceholder, htakes⟩
        rw [Template.read] at hread
        split at hread
        · rename_i hcond
          simp only [Bool.and_eq_true, Option.isNone_iff_eq_none, List.isEmpty_iff,
            beq_iff_eq] at hcond
          rcases hcond with ⟨⟨⟨hquote, hword⟩, hhead⟩, hends⟩
          rcases IsPlaceholder.read hplaceholder hquote hhead with ⟨r', hcontent, hnone, hend⟩
          have hr : { r with word := [] } = r := by
            rw [← hword]
          rw [hr] at hend
          have hplace := read_place hcontent hquote hword hends hnone hend hread (ih hread htakes)
          simpa [fill] using hplace
        · cases hread

/-- A template whose skeleton is closed makes closed texts of closed texts. -/
theorem Template.closed {t : Template} (h : t.isClosed = true) {contents : List String}
    (htakes : t.Takes Closed IsPlaceholder contents) : Closed (t.fill contents) := by
  rcases (Option.any_eq_true _ _).mp h with ⟨s, hread, hdone⟩
  simp only [Reader.isDone, Bool.and_eq_true, Option.isNone_iff_eq_none, beq_iff_eq] at hdone
  rcases read_fill hread htakes with ⟨s', hs', halike⟩
  -- readers that are alike may end where the other one may
  rcases halike with rfl | ⟨hnone, -, hend⟩
  · exact closed_of_read hs' hdone.1 hdone.2
  · exact closed_of_read hs' hnone (hend.trans hdone.2)

end GraphQuery.Cypher
