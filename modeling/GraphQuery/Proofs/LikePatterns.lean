import GraphQuery.Proofs.Replacement
import GraphQuery.Proofs.Selection
import GraphQuery.Statement.Aql
import Mathlib.Data.List.Infix

/-!
# GraphQuery.Proofs.LikePatterns — patterns that stand for their operands

A statement tests whether a text begins with an operand, ends with it or holds it by comparing the
text with a pattern. In a pattern a percent sign stands for any characters and an underscore for any
one. A backslash makes either of them, or another backslash, stand for itself.

1. **Patterns** and the texts that they match.
2. **Replacing** one character, wherever it stands.
3. **Escaped** operands match themselves only.
4. **Patterns** of conditions match the texts that the conditions accept.
-/

namespace GraphQuery

/-! ## Patterns -/

namespace Like

/-- What a pattern asks for, part by part. -/
inductive Token where
  | many
  | one
  | char (c : Char)
deriving Repr, DecidableEq

/-- What a character asks for that no backslash stands before. -/
def Token.ofChar (c : Char) : Token :=
  if c = '%' then .many else if c = '_' then .one else .char c

/-- Characters that a backslash makes stand for themselves. -/
def special : List Char := ['\\', '%', '_']

/-- The tokens of a pattern; a backslash takes the character after it as it is. -/
def tokens : List Char → List Token
  | [] => []
  | [c] => [.ofChar c]
  | c :: d :: rest =>
    if c = '\\' ∧ d ∈ special then .char d :: tokens rest else .ofChar c :: tokens (d :: rest)

/-- Whether a text matches tokens. -/
inductive Matches : List Token → List Char → Prop
  | nil : Matches [] []
  | many {ts : List Token} {cs : List Char} (before : List Char) (h : Matches ts cs) :
      Matches (.many :: ts) (before ++ cs)
  | one {ts : List Token} {cs : List Char} (c : Char) (h : Matches ts cs) :
      Matches (.one :: ts) (c :: cs)
  | char {ts : List Token} {cs : List Char} (c : Char) (h : Matches ts cs) :
      Matches (.char c :: ts) (c :: cs)

/-- A text is like a pattern if all of it is what the pattern asks for. -/
def IsLike (text pattern : String) : Prop := Matches (tokens pattern.toList) text.toList

variable {ts : List Token} {text : List Char}

@[simp]
theorem matches_nil : Matches [] text ↔ text = [] :=
  ⟨fun h => by cases h; rfl, fun h => h ▸ .nil⟩

/-- The token for any text matches the start of a text, if the rest matches what is left. -/
theorem matches_many :
    Matches (.many :: ts) text ↔ ∃ before cs, text = before ++ cs ∧ Matches ts cs := by
  constructor
  · rintro (_ | ⟨before, h⟩)
    exact ⟨before, _, rfl, h⟩
  · rintro ⟨before, cs, rfl, h⟩
    exact .many before h

/-- The token for any character matches one character. -/
theorem matches_one : Matches (.one :: ts) text ↔ ∃ c cs, text = c :: cs ∧ Matches ts cs := by
  constructor
  · rintro (_ | _ | ⟨c, h⟩)
    exact ⟨c, _, rfl, h⟩
  · rintro ⟨c, cs, rfl, h⟩
    exact .one c h

/-- The token for a character matches this character. -/
theorem matches_char {c : Char} :
    Matches (.char c :: ts) text ↔ ∃ cs, text = c :: cs ∧ Matches ts cs := by
  constructor
  · rintro (_ | _ | _ | ⟨_, h⟩)
    exact ⟨_, rfl, h⟩
  · rintro ⟨cs, rfl, h⟩
    exact .char c h

/-- Matches by trying every part of the text that a percent sign can stand for. -/
def matchAll : List Token → List Char → Bool
  | [], text => text.isEmpty
  | .many :: ts, text => text.tails.any (matchAll ts)
  | .one :: ts, text => text.tail?.any (matchAll ts)
  | .char c :: ts, text => text.head? = some c && matchAll ts text.tail

/-- The computed match is the one described. -/
theorem matchAll_iff : matchAll ts text = true ↔ Matches ts text := by
  induction ts generalizing text with
  | nil => simp [matchAll]
  | cons t ts ih =>
    cases t with
    | many =>
      simp only [matchAll, List.any_eq_true, List.mem_tails, ih, matches_many]
      constructor
      · rintro ⟨cs, ⟨before, rfl⟩, h⟩
        exact ⟨before, cs, rfl, h⟩
      · rintro ⟨before, cs, rfl, h⟩
        exact ⟨cs, List.suffix_append before cs, h⟩
    | one =>
      rw [matches_one]
      cases text <;> simp [matchAll, ih]
    | char c =>
      rw [matches_char]
      cases text <;> simp [matchAll, ih, and_comm]

instance : Decidable (Matches ts text) := decidable_of_iff _ matchAll_iff

instance (text pattern : String) : Decidable (IsLike text pattern) :=
  inferInstanceAs (Decidable (Matches _ _))

end Like

/-! ## Replacing -/

/-- Replacing a single character replaces it wherever it stands. -/
theorem Text.replaceFrom_singleton (a : Char) (new cs : List Char) :
    replaceFrom [a] new 0 cs = cs.flatMap fun c => if c = a then new else [c] := by
  induction cs with
  | nil => rfl
  | cons c cs ih =>
    rw [replaceFrom, List.flatMap_cons, ← ih]
    by_cases h : c = a
    · simp [h]
    · simp [h, Ne.symm h]

/-- Replacing a character changes it wherever it stands. -/
theorem Text.toList_replaceAll {part : String} {a : Char} (h : part.toList = [a]) (new s : String) :
    (replaceAll part new s).toList =
      s.toList.flatMap fun c => if c = a then new.toList else [c] := by
  have hne : part ≠ "" := by
    rintro rfl
    cases h
  rw [toList_replaceAll_of_ne hne, h, replaceFrom_singleton]

/-! ## Escaped operands -/

namespace Condition

/-- Every backslash, percent sign and underscore with a backslash before it. Backslashes come first,
for those that are put before the others are not to be doubled. -/
def escaped (operand : String) : String :=
  Text.replaceAll "_" "\\_" (Text.replaceAll "%" "\\%" (Text.replaceAll "\\" "\\\\" operand))

/-- Escaping puts a backslash before the special characters, and leaves others alone. -/
theorem escapeLike_eq (c : Char) :
    escapeLike c = if c ∈ Like.special then ['\\', c] else [c] := by
  unfold escapeLike
  split <;> simp_all [Like.special]

/-- The three replacements come to escaping character by character. -/
theorem toList_escaped (operand : String) :
    (escaped operand).toList = operand.toList.flatMap escapeLike := by
  have hbackslash : ("\\" : String).toList = ['\\'] := rfl
  have hpercent : ("%" : String).toList = ['%'] := rfl
  have hunderscore : ("_" : String).toList = ['_'] := rfl
  rw [escaped, Text.toList_replaceAll hunderscore, Text.toList_replaceAll hpercent,
    Text.toList_replaceAll hbackslash, List.flatMap_assoc, List.flatMap_assoc]
  refine List.flatMap_congr fun c _ => ?_
  rw [escapeLike_eq]
  by_cases h1 : c = '\\'
  · subst h1
    rfl
  · by_cases h2 : c = '%'
    · subst h2
      rfl
    · by_cases h3 : c = '_'
      · subst h3
        rfl
      · simp [Like.special, h1, h2, h3]

end Condition

namespace Like

/-- A character other than the backslash is a token by itself. -/
theorem tokens_cons {c : Char} (h : c ≠ '\\') (rest : List Char) :
    tokens (c :: rest) = .ofChar c :: tokens rest := by
  cases rest <;> simp [tokens, h]

theorem tokens_percent (rest : List Char) :
    tokens ("%".toList ++ rest) = .many :: tokens rest :=
  tokens_cons (by decide) rest

/-- An escaped operand asks for the characters of the operand. -/
theorem tokens_escaped (cs rest : List Char) :
    tokens (cs.flatMap Condition.escapeLike ++ rest) = cs.map .char ++ tokens rest := by
  induction cs with
  | nil => rfl
  | cons c cs ih =>
    rw [List.flatMap_cons, List.append_assoc, List.map_cons, List.cons_append, ← ih,
      Condition.escapeLike_eq]
    split
    · rename_i hspecial
      simp [tokens, hspecial]
    · rename_i hplain
      simp only [special, List.mem_cons, List.not_mem_nil, or_false, not_or] at hplain
      rw [List.cons_append, List.nil_append, tokens_cons hplain.1]
      simp [Token.ofChar, hplain]

/-- Tokens for characters match exactly these at the start of a text. -/
theorem matches_chars_append {cs : List Char} :
    Matches (cs.map .char ++ ts) text ↔ ∃ rest, text = cs ++ rest ∧ Matches ts rest := by
  induction cs generalizing text with
  | nil => simp
  | cons c cs ih =>
    rw [List.map_cons, List.cons_append, matches_char]
    simp only [ih]
    constructor
    · rintro ⟨_, rfl, rest, rfl, h⟩
      exact ⟨rest, rfl, h⟩
    · rintro ⟨rest, rfl, h⟩
      exact ⟨_, rfl, rest, rfl, h⟩

theorem matches_many_nil : Matches [.many] text :=
  matches_many.mpr ⟨text, [], (List.append_nil text).symm, .nil⟩

end Like

/-! ## Patterns of conditions -/

namespace Condition

/-- The pattern is the escaped operand, with a percent sign where anything may stand. -/
theorem likePattern_eq (c : Condition) :
    c.likePattern = c.operand.map fun operand =>
      match c.op with
      | .startsWith => escaped operand ++ "%"
      | .endsWith => "%" ++ escaped operand
      | .contains => "%" ++ escaped operand ++ "%"
      | _ => operand := by
  have hescaped (operand : String) :
      String.ofList (operand.toList.flatMap escapeLike) = escaped operand := by
    rw [← toList_escaped, String.ofList_toList]
  unfold likePattern
  cases c.operand with
  | none => rw [Option.map_none, Option.map_none]
  | some operand => cases c.op <;> simp only [Option.map_some, hescaped]

section

open Like

variable (text operand : String)

/-- The pattern for starts matches texts that start with the operand. -/
theorem isLike_startsWith :
    IsLike text (escaped operand ++ "%") ↔ operand.toList <+: text.toList := by
  have htokens : tokens (escaped operand ++ "%").toList = operand.toList.map .char ++ [.many] := by
    rw [String.toList_append, toList_escaped]
    exact tokens_escaped _ ['%']
  rw [IsLike, htokens, matches_chars_append]
  constructor
  · rintro ⟨rest, htext, _⟩
    exact ⟨rest, htext.symm⟩
  · rintro ⟨rest, htext⟩
    exact ⟨rest, htext.symm, matches_many_nil⟩

example : IsLike "a_b" "a\\_%" ∧ ¬ IsLike "axb" "a\\_%" := by decide

/-- The pattern for ends matches texts that end with the operand. -/
theorem isLike_endsWith :
    IsLike text ("%" ++ escaped operand) ↔ operand.toList <:+ text.toList := by
  have htokens :
      tokens ("%" ++ escaped operand).toList = .many :: (operand.toList.map .char ++ []) := by
    have hescaped := tokens_escaped operand.toList []
    rw [List.append_nil] at hescaped
    rw [String.toList_append, tokens_percent, toList_escaped, hescaped]
    rfl
  rw [IsLike, htokens, matches_many]
  simp only [matches_chars_append, matches_nil]
  constructor
  · rintro ⟨before, _, htext, _, rfl, rfl⟩
    rw [List.append_nil] at htext
    exact ⟨before, htext.symm⟩
  · rintro ⟨before, htext⟩
    exact ⟨before, _, htext.symm, [], (List.append_nil _).symm, rfl⟩

/-- The pattern for parts matches texts that hold the operand. -/
theorem isLike_contains :
    IsLike text ("%" ++ escaped operand ++ "%") ↔ operand.toList <:+: text.toList := by
  have htokens : tokens ("%" ++ escaped operand ++ "%").toList =
      .many :: (operand.toList.map .char ++ [.many]) := by
    rw [String.toList_append, String.toList_append, toList_escaped, List.append_assoc,
      tokens_percent, tokens_escaped]
    rfl
  rw [IsLike, htokens, matches_many]
  simp only [matches_chars_append]
  constructor
  · rintro ⟨before, _, htext, rest, rfl, _⟩
    exact ⟨before, rest, by rw [htext, List.append_assoc]⟩
  · rintro ⟨before, rest, htext⟩
    rw [List.append_assoc] at htext
    exact ⟨before, _, htext.symm, rest, rfl, matches_many_nil⟩

end

/-- How an operand has to stand in a text, where a statement compares the text with a pattern. -/
def Stands (op : FilterOp) (operand text : String) : Prop :=
  match op with
  | .startsWith => operand.toList <+: text.toList
  | .endsWith => operand.toList <:+ text.toList
  | .contains => operand.toList <:+: text.toList
  | _ => False

variable {c : Condition} {operand : String}

/-- A condition accepts a text if the operand stands in it where the comparison wants it. -/
theorem accepts_string_iff (hoperand : c.operand = some operand)
    (hop : c.op ∈ [.startsWith, .endsWith, .contains]) (patterns : Dictionary Pattern)
    (text : String) : c.accepts patterns (.string text) = true ↔ Stands c.op operand text := by
  simp only [List.mem_cons, List.not_mem_nil, or_false] at hop
  have hkept : c.IsKept patterns := by
    intro text htext
    rcases hop with hop | hop | hop <;> simp [patternText?, hop] at htext
  have hactive : c.isActive = true := by simp [isActive, hoperand]
  rw [accepts_iff hactive hkept]
  rcases hop with hop | hop | hop <;>
    simp [Holds, HoldsOf, Stands, hop, hoperand, Json.Value.display]

/-- Where a text is to begin with an operand, to end with it or to hold it, a statement compares the
text with a pattern. Whatever characters the operand has, the texts that are like this pattern are
those in which the operand stands so, and those that an evaluation accepts. -/
theorem isLike_iff (hoperand : c.operand = some operand)
    (hop : c.op ∈ [.startsWith, .endsWith, .contains]) (patterns : Dictionary Pattern) :
    ∃ pattern, c.likePattern = some pattern ∧
      (∀ field, Aql.condition field c = Aql.comparison field " LIKE " c (some pattern)) ∧
      ∀ text, (Like.IsLike text pattern ↔ Stands c.op operand text) ∧
        (c.accepts patterns (.string text) = true ↔ Stands c.op operand text) := by
  have hpattern := likePattern_eq c
  rw [hoperand, Option.map_some] at hpattern
  have haccepts := accepts_string_iff hoperand hop patterns
  simp only [List.mem_cons, List.not_mem_nil, or_false] at hop
  rcases hop with hop | hop | hop <;>
    refine ⟨_, hpattern, fun field => ?_, fun text => ⟨?_, haccepts text⟩⟩ <;>
    simp only [Aql.condition, hpattern, Stands, hop]
  · exact isLike_startsWith text operand
  · exact isLike_endsWith text operand
  · exact isLike_contains text operand

/-- An operand with characters that patterns do not take for themselves. -/
theorem isLike_iff_special :
    let c : Condition := ⟨.contains, some "50%_of\\", "share"⟩
    c.operand = some "50%_of\\" ∧ c.op ∈ [.startsWith, .endsWith, .contains] ∧
      ∃ pattern, c.likePattern = some pattern ∧
        (∀ field, Aql.condition field c = Aql.comparison field " LIKE " c (some pattern)) ∧
        ∀ text, (Like.IsLike text pattern ↔ Stands c.op "50%_of\\" text) ∧
          (c.accepts [] (.string text) = true ↔ Stands c.op "50%_of\\" text) :=
  ⟨rfl, by decide, isLike_iff rfl (by decide) []⟩

end Condition

end GraphQuery
