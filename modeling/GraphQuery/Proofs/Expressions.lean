import GraphQuery.Proofs.Brackets
import GraphQuery.Proofs.Guards

/-!
# GraphQuery.Proofs.Expressions — expressions whose patterns are guarded

1. **Guarded patterns**: each pattern in a text has a condition that tests all its nodes.
2. **Texts** put together of such texts.
3. **Expressions**: closed texts with guarded patterns, which do not start with a parenthesis.
4. **Templates** make expressions of expressions.
5. **Names** are expressions.
6. **Joined** expressions and conditions.
-/

namespace GraphQuery.Cypher

/-! ## Guarded patterns -/

/-- The name of a variable. -/
def IsWord (s : String) : Prop := ∀ c ∈ s.toList, c.isAlphanum = true ∨ c = '_'

instance (s : String) : Decidable (IsWord s) :=
  List.decidableBAll (fun c : Char => c.isAlphanum = true ∨ c = '_') s.toList

/-- One hop of a pattern. -/
structure Hop where
  relation : String
  node : String
  reverse : Bool

/-- An edge of a path as it is written in a pattern, with its direction. -/
def Hop.text (h : Hop) : String :=
  if h.reverse then "<-[" ++ h.relation ++ "]-(" ++ h.node ++ ")"
  else "-[" ++ h.relation ++ "]->(" ++ h.node ++ ")"

/-- A clause with the conjunction of the conditions, unless there are none. -/
def clauseText (opening : String) (conditions : List String) : String :=
  if conditions = [] then "" else opening ++ " AND ".intercalate conditions

/-- Conditions among which are all guards on the given nodes. All are closed texts, so the guards
are among the conjuncts of their conjunction. -/
def Tests (guards : List Guard) (nodes conditions : List String) : Prop :=
  (∀ c ∈ conditions, Closed c) ∧ ∀ node ∈ nodes, ∀ g ∈ guards, g.cypher node ∈ conditions

/-- The text of a pattern comprehension behind its first two brackets: the node where it starts,
its hops, its condition, which tests the nodes of all hops, and what is kept of its matches. -/
def GuardedPattern (guards : List Guard) (text : String) : Prop :=
  ∃ (node : String) (hops : List Hop) (conditions : List String) (rest : String),
    text = node ++ ")" ++ String.join (hops.map Hop.text) ++ clauseText " WHERE " conditions ++
      " | " ++ rest ∧
    IsWord node ∧ (∀ h ∈ hops, IsWord h.node ∧ ']' ∉ h.relation.toList) ∧
    Tests guards (hops.map Hop.node) conditions

/-- A text whose pattern comprehensions are all guarded. -/
def Patterned (guards : List Guard) (text : String) : Prop :=
  ∀ before after, text = before ++ "[(" ++ after → GuardedPattern guards after

/-- The line of a clause, unless there are no conditions. -/
def clauseLines (conditions : List String) : List String :=
  if conditions = [] then [] else [clauseText "WHERE " conditions]

/-- Every match is that of a single node, which is tested in the next line. -/
def GuardedMatches (guards : List Guard) (lines : List String) : Prop :=
  ∀ before pattern after, lines = before ++ ("MATCH " ++ pattern) :: after →
    ∃ (node label : String) (conditions rest : List String),
      pattern = "(" ++ node ++ ":" ++ label ∧ IsWord node ∧ '(' ∉ label.toList ∧
      Tests guards [node] conditions ∧ after = clauseLines conditions ++ rest

/-! ## Texts -/

variable {guards : List Guard}

/-- What follows a guarded pattern does not matter. -/
theorem GuardedPattern.append {a : String} (h : GuardedPattern guards a) (b : String) :
    GuardedPattern guards (a ++ b) := by
  rcases h with ⟨node, hops, conditions, rest, rfl, hnode, hhops, htests⟩
  exact ⟨node, hops, conditions, rest ++ b, by simp [String.append_assoc], hnode, hhops, htests⟩

/-- All patterns in a text are guarded, wherever they open. -/
theorem patterned_iff {text : String} : Patterned guards text ↔ ∀ before after,
    text.toList = before ++ '[' :: '(' :: after → GuardedPattern guards (String.ofList after) := by
  constructor
  · intro h before after htext
    refine h (String.ofList before) (String.ofList after) ?_
    simp [← String.toList_inj, htext]
  · intro h before after htext
    have hafter := h before.toList after.toList (by simp [htext])
    rwa [String.ofList_toList] at hafter

/-- Whether a text contains the start of a pattern comprehension. -/
def opensPattern : List Char → Bool
  | '[' :: '(' :: _ => true
  | _ :: rest => opensPattern rest
  | [] => false

theorem opensPattern_append (before after : List Char) :
    opensPattern (before ++ '[' :: '(' :: after) = true := by
  induction before with
  | nil => rfl
  | cons c before ih =>
    rw [List.cons_append]
    unfold opensPattern
    -- the pattern starts here, or behind the first character
    split
    · rfl
    · rename_i heq
      cases heq
      exact ih
    · rename_i heq
      cases heq

/-- A text that opens no pattern is patterned. -/
theorem Patterned.of_none {text : String} (h : opensPattern text.toList = false) :
    Patterned guards text := by
  rw [patterned_iff]
  intro before after htext
  rw [htext, opensPattern_append] at h
  cases h

theorem Patterned.of_no_bracket {text : String} (h : '[' ∉ text.toList) :
    Patterned guards text := by
  rw [patterned_iff]
  intro before after htext
  simp [htext] at h

/-- Two texts are patterned together, unless the border opens a pattern. -/
theorem Patterned.append {a b : String} (ha : Patterned guards a) (hb : Patterned guards b)
    (hbreak : a.toList.getLast? ≠ some '[' ∨ b.toList.head? ≠ some '(') :
    Patterned guards (a ++ b) := by
  rw [patterned_iff] at ha hb ⊢
  intro before after htext
  rw [String.toList_append] at htext
  -- the pattern starts in the right text, between both, or in the left one
  rcases List.append_eq_append_iff.mp htext with ⟨between, rfl, hrest⟩ | ⟨between, hleft, hrest⟩
  · exact hb between after hrest
  · rcases between with _ | ⟨c, _ | ⟨d, between⟩⟩
    · exact hb [] after hrest.symm
    · -- The first bracket would end the left text, and the second one start the right text.
      rcases List.cons_eq_cons.mp hrest with ⟨rfl, htail⟩
      have hright : b.toList = '(' :: after := htail.symm
      simp [hleft, hright] at hbreak
    · rcases List.cons_eq_cons.mp hrest with ⟨rfl, htail⟩
      rcases List.cons_eq_cons.mp htail with ⟨rfl, rfl⟩
      -- it starts in the left text, and what is kept of its matches may go on in the right one
      have hpattern := (ha before between hleft).append b
      rwa [← String.ofList_toList (s := b), ← String.ofList_append] at hpattern

/-! ## Expressions -/

/-- A closed text with guarded patterns, which may stand behind a bracket. -/
structure Expression (guards : List Guard) (text : String) : Prop where
  closed : Closed text
  patterned : Patterned guards text
  head : text.toList.head? ≠ some '('

/-- A closed text with guarded patterns. -/
structure Sound (guards : List Guard) (text : String) : Prop where
  closed : Closed text
  patterned : Patterned guards text

/-! ## Templates -/

namespace Part

/-- A part without the start of a pattern comprehension. -/
def isPatternless : Part → Bool
  | .text s => !opensPattern s.toList
  | _ => true

/-- A part that does not start with a parenthesis. -/
def isApart : Part → Bool
  | .text s => s.toList.head? != some '('
  | _ => true

end Part

namespace Template

/-- A template whose patterns are those of its places. -/
def isPatternless (t : Template) : Bool := t.all Part.isPatternless && t.tail.all Part.isApart

/-- Contents that fit a template fit it under weaker demands. -/
theorem Takes.mono {S S' V V' : String → Prop} (hS : ∀ s, S s → S' s) (hV : ∀ s, V s → V' s)
    {t : Template} {contents : List String} (h : t.Takes S V contents) :
    t.Takes S' V' contents := by
  fun_induction Takes S V t contents with
  | case1 => trivial
  | case2 s rest contents ih => 
    cases contents <;> exact ih h
  | case3 rest content contents ih => exact ⟨hS _ h.1, ih h.2⟩
  | case4 rest content contents ih => exact ⟨hV _ h.1, ih h.2⟩
  | case5 => exact h.elim

end Template

theorem IsPlaceholder.patterned {text : String} (h : IsPlaceholder text) :
    Patterned guards text := by
  apply Patterned.of_no_bracket
  intro hmem
  rcases h '[' hmem with hc | hc <;> revert hc <;> decide

theorem IsPlaceholder.head {text : String} (h : IsPlaceholder text) :
    text.toList.head? ≠ some '(' := by
  intro hhead
  rcases h '(' (List.mem_of_head? hhead) with hc | hc <;> revert hc <;> decide

namespace Template

/-- A template filled with expressions is patterned after any text. -/
theorem patterned_append_fill {t : Template} {contents : List String}
    (hparts : ∀ part ∈ t, part.isPatternless = true ∧ part.isApart = true)
    (htakes : t.Takes (Expression guards) IsPlaceholder contents) {before : String}
    (hbefore : Patterned guards before) : Patterned guards (before ++ t.fill contents) := by
  fun_induction Takes (Expression guards) IsPlaceholder t contents generalizing before with
  | case1 => simpa [fill] using hbefore
  -- a text adds no pattern, and with no parenthesis at its start none arises before it
  | case2 s rest contents ih =>
    rw [List.forall_mem_cons] at hparts
    rcases hparts with ⟨⟨hs, hapart⟩, hparts⟩
    have htext : Patterned guards (before ++ s) :=
      hbefore.append (.of_none (by simpa [Part.isPatternless] using hs))
        (.inr (by simpa [Part.isApart] using hapart))
    rw [fill_text, ← String.append_assoc]
    exact ih hparts (by simpa using htakes) htext
  -- an expression has guarded patterns, and does not start with a parenthesis
  | case3 rest content contents ih =>
    rw [List.forall_mem_cons] at hparts
    rcases htakes with ⟨hcontent, htakes⟩
    rw [fill_slot, ← String.append_assoc]
    exact ih hparts.2 htakes (hbefore.append hcontent.patterned (.inr hcontent.head))
  | case4 rest content contents ih =>
    rw [List.forall_mem_cons] at hparts
    rcases htakes with ⟨hcontent, htakes⟩
    rw [fill_value, ← String.append_assoc]
    exact ih hparts.2 htakes (hbefore.append hcontent.patterned (.inr hcontent.head))
  | case5 => exact htakes.elim

/-- The patterns that a template makes are those of what stands in its places. -/
theorem patterned {t : Template} {contents : List String} (ht : t.isPatternless = true)
    (htakes : t.Takes (Expression guards) IsPlaceholder contents) :
    Patterned guards (t.fill contents) := by
  rw [isPatternless, Bool.and_eq_true, List.all_eq_true, List.all_eq_true] at ht
  rcases ht with ⟨hparts, hapart⟩
  -- only the first part may start with a parenthesis, for nothing stands before it
  cases t with
  | nil => simpa using Patterned.of_none rfl
  | cons part rest =>
    have hrest : ∀ p ∈ rest, p.isPatternless = true ∧ p.isApart = true := by
      intro p hp
      exact ⟨hparts p (by simp [hp]), hapart p hp⟩
    cases part with
    | text s =>
      have hs := hparts (.text s) (by simp)
      rw [fill_text]
      exact patterned_append_fill hrest (by simpa using htakes)
        (.of_none (by simpa [Part.isPatternless] using hs))
    | slot =>
      cases contents with
      | nil => exact htakes.elim
      | cons content contents =>
        exact patterned_append_fill hrest htakes.2 htakes.1.patterned
    | value =>
      cases contents with
      | nil => exact htakes.elim
      | cons content contents =>
        exact patterned_append_fill hrest htakes.2 htakes.1.patterned

/-- A filled template starts apart from a pattern. -/
theorem head_fill {t : Template} {contents : List String} (ht : t.all Part.isApart = true)
    (htakes : t.Takes (Expression guards) IsPlaceholder contents) :
    (t.fill contents).toList.head? ≠ some '(' := by
  -- a text starts where its first part does, unless that is empty
  have happend {a b : String} (ha : a.toList.head? ≠ some '(') (hb : b.toList.head? ≠ some '(') :
      (a ++ b).toList.head? ≠ some '(' := by
    rw [String.toList_append, List.head?_append]
    cases hhead : a.toList.head? with
    | none => simpa using hb
    | some c => simpa [hhead] using ha
  fun_induction Takes (Expression guards) IsPlaceholder t contents with
  | case1 => simp
  | case2 s rest contents ih =>
    rw [List.all_cons, Bool.and_eq_true] at ht
    rw [fill_text]
    exact happend (by simpa [Part.isApart] using ht.1) (ih ht.2 (by simpa using htakes))
  | case3 rest content contents ih =>
    rw [List.all_cons, Bool.and_eq_true] at ht
    exact happend htakes.1.head (ih ht.2 htakes.2)
  | case4 rest content contents ih =>
    rw [List.all_cons, Bool.and_eq_true] at ht
    exact happend htakes.1.head (ih ht.2 htakes.2)
  | case5 => exact htakes.elim

/-- A closed template without patterns of its own makes sound texts of expressions. -/
theorem sound {t : Template} {contents : List String}
    (ht : (t.isClosed && t.isPatternless) = true)
    (htakes : t.Takes (Expression guards) IsPlaceholder contents) :
    Sound guards (t.fill contents) := by
  rw [Bool.and_eq_true] at ht
  exact ⟨closed ht.1 (htakes.mono (fun _ h => h.closed) fun _ h => h), patterned ht.2 htakes⟩

/-- If it does not start with a parenthesis, it makes expressions. -/
theorem expression {t : Template} {contents : List String}
    (ht : (t.isClosed && t.isPatternless && t.all Part.isApart) = true)
    (htakes : t.Takes (Expression guards) IsPlaceholder contents) :
    Expression guards (t.fill contents) := by
  rw [Bool.and_eq_true] at ht
  rcases sound ht.1 htakes with ⟨hclosed, hpatterned⟩
  exact ⟨hclosed, hpatterned, head_fill ht.2 htakes⟩

end Template

/-! ## Names -/

/-- A word is read without a change of the brackets. -/
theorem Reader.read_word {text : List Char} (h : ∀ c ∈ text, isWordChar c = true) {r : Reader}
    (hquote : r.quote = none) : r.read text = some { r with word := r.word ++ text } := by
  -- induction on the text, for any word before it
  induction text generalizing r with
  | nil => simp [read]
  | cons c rest ih =>
    have hstep : r.step c = some { r with word := r.word ++ [c] } := by
      simp [step, hquote, h c (by simp)]
    have hnext : ({ r with word := r.word ++ [c] } : Reader).quote = none := hquote
    rw [read, hstep, Option.bind_some, ih (fun d hd => h d (by simp [hd])) hnext]
    simp

/-- Quoted text is read as a whole. -/
theorem Reader.read_quoted {q : Char} {text : List Char} (h : q ∉ text) {r : Reader}
    (hquote : r.quote = some q) : r.read (text ++ [q]) = some { r with quote := none } := by
  -- nothing before the last character ends the quote
  induction text generalizing r with
  | nil => simp [read, step, hquote]
  | cons c rest ih =>
    rw [List.mem_cons, not_or] at h
    have hstep : r.step c = some r := by
      simp [step, hquote, Ne.symm h.1]
    rw [List.cons_append, read, hstep, Option.bind_some]
    exact ih h.2 hquote

theorem IsWord.expression {s : String} (h : IsWord s) (hword : isAlternation s.toList = false) :
    Expression guards s := by
  -- the whole name is one word, which no bracket interrupts
  have hchars : ∀ c ∈ s.toList, isWordChar c = true := by
    intro c hc
    rcases h c hc with halnum | rfl
    · simp [isWordChar, halnum]
    · decide
  have hplain (d : Char) (hd : d.isAlphanum = false ∧ d ≠ '_') : d ∉ s.toList := by
    intro hmem
    rcases h d hmem with halnum | heq
    · rw [hd.1] at halnum
      cases halnum
    · exact hd.2 heq
  refine ⟨?_, .of_no_bracket (hplain '[' (by decide)), ?_⟩
  · refine closed_of_read (Reader.read_word hchars rfl) rfl ?_
    simp [Reader.endWord, Reader.start, hword]
  · intro hhead
    exact hplain '(' (by decide) (List.mem_of_head? hhead)

/-- A quoted text is an expression, if nothing in it ends the quote. -/
theorem expression_quoted {s : String} {q : Char} {text : List Char}
    (hs : s.toList = q :: (text ++ [q])) (hq : isQuote q = true) (htext : q ∉ text)
    (hbracket : '[' ∉ text) : Expression guards s := by
  have hcases : q = '`' ∨ q = '\'' ∨ q = '"' := by
    simpa [isQuote, or_assoc] using hq
  -- the quote opens at once
  have hstep : Reader.start.step q = some ⟨[], some q, []⟩ := by
    rcases hcases with rfl | rfl | rfl <;> rfl
  refine ⟨?_, .of_no_bracket ?_, ?_⟩
  · refine closed_of_read (r := ⟨[], none, []⟩) ?_ rfl rfl
    rw [hs, Reader.read, hstep, Option.bind_some]
    exact Reader.read_quoted htext rfl
  · rw [hs]
    rcases hcases with rfl | rfl | rfl <;> simp [hbracket]
  · rw [hs]
    rcases hcases with rfl | rfl | rfl <;> simp

/-! ## Joined texts -/

/-- Closed texts are closed together when the second starts with no word. -/
theorem Closed.append {a b : String} (ha : Closed a) (hb : Closed b)
    (hhead : ∃ c ∈ b.toList.head?, isWordChar c = false) : Closed (a ++ b) := by
  rcases ha.read [] with ⟨r, hread, hquote, hend⟩
  rcases hb.read [] with ⟨s, hs, hnone, hdone⟩
  rcases hhead with ⟨c, hc, hword⟩
  rcases List.head?_eq_some_iff.mp hc with ⟨rest, hrest⟩
  -- the first text ends as if it were not there, once its last word is ended
  have halike : r.Alike .start := ⟨hquote, rfl, hend⟩
  refine closed_of_read (r := s) ?_ hnone hdone
  have hread' : Reader.start.read a.toList = some r := hread
  rw [String.toList_append, Reader.read_append, hread', Option.bind_some, hrest,
    halike.read_eq hword, ← hrest]
  exact hs

/-- Expressions joined by a separator. -/
theorem expression_intercalate {separator : String}
    (hseparator : (Template.isClosed [.slot, .text separator, .slot] &&
      Template.isPatternless [.slot, .text separator, .slot] &&
        List.all [.slot, .text separator, .slot] Part.isApart) = true)
    {texts : List String} (h : ∀ text ∈ texts, Expression guards text) :
    Expression guards (separator.intercalate texts) := by
  induction texts with
  | nil =>
    rw [String.intercalate_nil]
    exact ⟨by decide, .of_none rfl, by simp⟩
  | cons a rest ih =>
    cases rest with
    | nil => simpa using h a (by simp)
    | cons b rest =>
      have hrest := ih fun text htext => h text (by simp [htext])
      -- an item and the rest are put in the places of a template
      have hfill : Expression guards (Template.fill [.slot, .text separator, .slot]
          [a, separator.intercalate (b :: rest)]) :=
        Template.expression hseparator (by simpa using ⟨h a (by simp), hrest⟩)
      rw [String.intercalate_cons_cons]
      simpa [String.append_assoc] using hfill

/-- A conjunction of closed conditions. -/
theorem sound_conjunction {conditions : List String} (h : ∀ c ∈ conditions, Sound guards c) :
    Sound guards (" AND ".intercalate conditions) := by
  induction conditions with
  | nil =>
    rw [String.intercalate_nil]
    exact ⟨by decide, .of_none rfl⟩
  | cons a rest ih =>
    cases rest with
    | nil => simpa using h a (by simp)
    | cons b rest =>
      have ha := h a (by simp)
      have hrest := ih fun text htext => h text (by simp [htext])
      rw [String.intercalate_cons_cons]
      -- the parenthesis at the start of a condition stands behind a blank
      constructor
      · have hfill : Closed (Template.fill [.slot, .text " AND ", .slot]
            [a, " AND ".intercalate (b :: rest)]) :=
          Template.closed (by decide) (by simpa using ⟨ha.closed, hrest.closed⟩)
        simpa [String.append_assoc] using hfill
      · refine .append (.append ha.patterned (.of_none rfl) (.inr (by simp))) hrest.patterned
          (.inl (by simp))

/-- So are sound texts, when the second opens no pattern either. -/
theorem Sound.append {a b : String} (ha : Sound guards a) (hb : Sound guards b)
    (hhead : ∃ c ∈ b.toList.head?, isWordChar c = false ∧ c ≠ '(') : Sound guards (a ++ b) := by
  rcases hhead with ⟨c, hc, hword, hparenthesis⟩
  refine ⟨ha.closed.append hb.closed ⟨c, hc, hword⟩, ha.patterned.append hb.patterned (.inr ?_)⟩
  rw [hc]
  simpa using hparenthesis

theorem sound_join {a : String} (ha : Sound guards a) {texts : List String}
    (h : ∀ text ∈ texts, Sound guards text ∧
      ∃ c ∈ text.toList.head?, isWordChar c = false ∧ c ≠ '(') :
    Sound guards (a ++ String.join texts) := by
  induction texts generalizing a with
  | nil => simpa using ha
  | cons text rest ih =>
    rcases h text (by simp) with ⟨hsound, hhead⟩
    rw [String.join_cons, ← String.append_assoc]
    exact ih (ha.append hsound hhead) fun t ht => h t (by simp [ht])

/-- A clause of sound conditions is sound. -/
theorem sound_clause {a : String} (ha : Sound guards a) {conditions : List String}
    (h : ∀ c ∈ conditions, Sound guards c) :
    Sound guards (a ++ clauseText " WHERE " conditions) := by
  unfold clauseText
  split
  · simpa using ha
  · have hall := sound_conjunction h
    have hclosed : Closed (Template.fill [.text " WHERE ", .slot] [" AND ".intercalate conditions]) :=
      Template.closed (by decide) (by simpa using hall.closed)
    have hpatterned : Patterned guards (" WHERE " ++ " AND ".intercalate conditions) :=
      .append (.of_none rfl) hall.patterned (.inl (by simp))
    exact ha.append ⟨by simpa using hclosed, hpatterned⟩ ⟨' ', by simp, by decide, by decide⟩

/-- A pattern comprehension that is guarded. -/
theorem GuardedPattern.patterned_bracket {text : String} (h : GuardedPattern guards text)
    (htext : Patterned guards ("(" ++ text)) : Patterned guards ("[" ++ ("(" ++ text)) := by
  rw [patterned_iff] at htext ⊢
  intro before after hsplit
  have hsplit' : '[' :: '(' :: text.toList = before ++ '[' :: '(' :: after := by
    simpa using hsplit
  -- the pattern is the guarded one, or it starts behind the bracket
  cases before with
  | nil =>
    have hafter : text.toList = after := by simpa using hsplit'
    rwa [← hafter, String.ofList_toList]
  | cons c before =>
    rcases List.cons_eq_cons.mp hsplit' with ⟨-, htail⟩
    exact htext before after (by simpa using htail)

end GraphQuery.Cypher
