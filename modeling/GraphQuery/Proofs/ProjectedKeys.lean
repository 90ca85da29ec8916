import GraphQuery.Proofs.NestedStatements
import GraphQuery.Proofs.ResultKeys

/-!
# GraphQuery.Proofs.ProjectedKeys — statements project the keys of result objects

1. **Keys of a text** stand between two quotes before a colon.
2. **Keys of fragments**, put together from those of their parts.
3. **Keys of scripts**, line by line.
4. **AQL** projects the keys of a level, and of groups and their members.
5. **Cypher** projects the same keys.
6. **Result objects** have these keys.
-/

namespace GraphQuery

open Json

/-! ## Keys of a text -/

/-- The quotes around keys. -/
def Dialect.keyQuote : Dialect → Char
  | .aql => '"'
  | .cypher => '`'

@[simp]
theorem Dialect.keyQuote_aql : Dialect.aql.keyQuote = '"' := rfl

@[simp]
theorem Dialect.keyQuote_cypher : Dialect.cypher.keyQuote = '`' := rfl

/-- Outside quotes, a character that is read opens a quote if it is one. -/
theorem Surroundings.quote_of_step {d : Dialect} {awaited : List Char} {c : Char}
    {s : Surroundings} (h : Surroundings.step d ⟨awaited, none⟩ c = some s) :
    s.quote = if c ∈ d.quotes then some c else none := by
  have hopening : ∀ b ∈ ['(', '[', '\x7b'], b ∉ d.quotes := by
    cases d <;> simp [Dialect.quotes]
  have hclosing : ∀ b ∈ [')', ']', '\x7d'], b ∉ d.quotes := by
    cases d <;> simp [Dialect.quotes]
  have hbracket (b : Char) (hb : b ∉ d.quotes) (hc : c = b) :
      (none : Option Char) = if c ∈ d.quotes then some c else none := by
    rw [hc, if_neg hb]
  rw [step_unquoted] at h
  split_ifs at h with hround hsquare hcurly hclose hhead hquote <;> cases h
  · exact hbracket _ (hopening _ (by decide)) hround
  · exact hbracket _ (hopening _ (by decide)) hsquare
  · exact hbracket _ (hopening _ (by decide)) hcurly
  · exact hbracket c (hclosing c (by simpa using hclose)) rfl
  · rw [if_pos hquote]
  · rw [if_neg hquote]

namespace Text

/-- Reads on in a text, where `quoted` holds the quote at hand and what has been read after it. -/
def keysFrom (d : Dialect) (quoted : Option (Char × List Char)) : List Char → List String
  | [] => []
  | c :: rest =>
    match quoted with
    | none => keysFrom d (if c ∈ d.quotes then some (c, []) else none) rest
    | some (quote, key) =>
      if c = quote then
        (if quote = d.keyQuote ∧ rest.head? = some ':' then [String.ofList key] else []) ++
          keysFrom d none rest
      else keysFrom d (some (quote, key ++ [c])) rest

/-- The keys that a text projects, from the front to the back. -/
def projectedKeys (d : Dialect) (text : String) : List String := keysFrom d none text.toList

example : projectedKeys .aql "RETURN \x7b \"a\": b.`c`, \"d\": \"\" \x7d" = ["a", "d"] := by decide

example : projectedKeys .cypher "RETURN \x7b`a`: b.`c`, `d`: '`e`:'\x7d" = ["a", "d"] := by decide

variable {d : Dialect}

/-- A text without quotes projects nothing by itself. -/
theorem keysFrom_append_of_no_quotes {xs : List Char} (h : ∀ q ∈ d.quotes, q ∉ xs)
    (ys : List Char) : keysFrom d none (xs ++ ys) = keysFrom d none ys := by
  induction xs with
  | nil => rfl
  | cons c rest ih =>
    have hc : c ∉ d.quotes := fun hq => h c hq List.mem_cons_self
    rw [List.cons_append, keysFrom, if_neg hc]
    exact ih fun q hq hmem => h q hq (List.mem_cons_of_mem c hmem)

/-- A text between the quotes of keys is a key if a colon follows. -/
theorem keysFrom_quoted {xs : List Char} (h : d.keyQuote ∉ xs) (ys : List Char) :
    keysFrom d none (d.keyQuote :: (xs ++ d.keyQuote :: ys)) =
      (if ys.head? = some ':' then [String.ofList xs] else []) ++ keysFrom d none ys := by
  have hquote : d.keyQuote ∈ d.quotes := by cases d <;> decide
  -- stated for any beginning of the quoted text
  have hread : ∀ xs key : List Char, d.keyQuote ∉ xs →
      keysFrom d (some (d.keyQuote, key)) (xs ++ d.keyQuote :: ys) =
        (if ys.head? = some ':' then [String.ofList (key ++ xs)] else []) ++
          keysFrom d none ys := by
    intro xs
    induction xs with
    | nil =>
      intro key _
      rw [List.nil_append, keysFrom, if_pos rfl, List.append_nil]
      simp only [true_and]
    | cons c rest ih =>
      intro key hxs
      rw [List.mem_cons, not_or] at hxs
      rw [List.cons_append, keysFrom, if_neg (Ne.symm hxs.1), ih _ hxs.2, List.append_assoc,
        List.singleton_append]
  rw [keysFrom, if_pos hquote, hread xs [] h, List.nil_append]

/-- A text that closes its quotes is read apart from what follows it, unless it may end in a key. -/
theorem keysFrom_append {s s' : Surroundings} {xs ys : List Char} (h : s.read d xs = some s')
    (hclosed : s'.quote = none) (hys : ys.head? ≠ some ':' ∨ d.keyQuote ∉ xs)
    {quoted : Option (Char × List Char)} (hquoted : quoted.map Prod.fst = s.quote) :
    keysFrom d quoted (xs ++ ys) = keysFrom d quoted xs ++ keysFrom d none ys := by
  induction xs generalizing s quoted with
  | nil =>
    cases h
    rw [hclosed, Option.map_eq_none_iff] at hquoted
    rw [hquoted]
    rfl
  | cons c rest ih =>
    obtain ⟨next, hstep, hread⟩ := Option.bind_eq_some_iff.mp h
    obtain ⟨awaited, quote?⟩ := s
    have hrest : ys.head? ≠ some ':' ∨ d.keyQuote ∉ rest :=
      hys.imp_right fun hmem hrest => hmem (List.mem_cons_of_mem c hrest)
    rw [List.cons_append]
    cases quoted with
    | none =>
      cases hquoted
      rw [keysFrom, keysFrom]
      refine ih hread hrest ?_
      rw [Surroundings.quote_of_step hstep]
      split <;> rfl
    | some q =>
      obtain ⟨quote, key⟩ := q
      cases hquoted
      rw [Surroundings.step_quoted, Option.some.injEq] at hstep
      rw [keysFrom, keysFrom]
      by_cases hc : c = quote
      · rw [if_pos hc, if_pos hc, List.append_assoc]
        rw [if_pos hc] at hstep
        rw [ih hread hrest (by rw [← hstep]; rfl)]
        congr 1
        -- what follows the quote is the same, unless nothing of the text does
        cases rest with
        | cons c' rest => rfl
        | nil =>
          have hkey : ¬ (quote = d.keyQuote ∧ ys.head? = some ':') := by
            rintro ⟨rfl, hcolon⟩
            rcases hys with hys | hmem
            · exact hys hcolon
            · exact hmem (by rw [hc]; exact List.mem_cons_self)
          rw [List.nil_append, if_neg hkey, if_neg (by simp)]
      · rw [if_neg hc, if_neg hc]
        rw [if_neg hc] at hstep
        exact ih hread hrest (by rw [← hstep]; rfl)

/-- Nor does one without the quotes of keys. -/
theorem keysFrom_eq_nil {xs : List Char} (h : d.keyQuote ∉ xs)
    (quoted : Option (Char × List Char)) : keysFrom d quoted xs = [] := by
  induction xs generalizing quoted with
  | nil => rfl
  | cons c rest ih =>
    rw [List.mem_cons, not_or] at h
    cases quoted with
    | none => exact ih h.2 _
    | some q =>
      obtain ⟨quote, key⟩ := q
      rw [keysFrom]
      split
      · rename_i hc
        have hquote : ¬ (quote = d.keyQuote ∧ rest.head? = some ':') := fun hkey =>
          h.1 (hkey.1 ▸ hc.symm)
        rw [if_neg hquote, ih h.2, List.append_nil]
      · exact ih h.2 _

end Text

/-! ## Keys of fragments -/

/-- What a dialect writes a key as. -/
def Dialect.quotedKey : Dialect → String → Fragment
  | .aql => Aql.quotedKey
  | .cypher => Cypher.ticked

namespace Fragment

variable {d : Dialect} {f g : Fragment} {ks ls : List String}

/-- A fragment that projects the given keys, wherever it stands. -/
def Projects (d : Dialect) (f : Fragment) (ks : List String) : Prop :=
  ∀ ys : List Char, ys.head? ≠ some ':' →
    Text.keysFrom d none ((f.render d.sigil).toList ++ ys) = ks ++ Text.keysFrom d none ys

/-- A fragment without quotes. -/
def Quoteless (d : Dialect) (f : Fragment) : Prop := ∀ q ∈ d.quotes, q ∉ Fragment.marks f

-- over the quotes of the dialect, not over all characters
instance (d : Dialect) (f : Fragment) : Decidable (Quoteless d f) :=
  List.decidableBAll (fun q => q ∉ Fragment.marks f) d.quotes

/-- Names have no quotes in them. -/
theorem quoteless_named (name : String) : Quoteless d (named name) := fun _ _ => by simp

theorem mem_quotes_keyQuote (d : Dialect) : d.keyQuote ∈ d.quotes := by cases d <;> decide

/-- What has no mark of a quote is rendered without this quote. -/
theorem not_mem_render {q : Char} (hq : q ∈ d.quotes) (h : q ∉ Fragment.marks f) :
    q ∉ (f.render d.sigil).toList := by
  rw [← Fragment.filter_render d.sigil] at h
  exact fun hmem => h (List.mem_filter.mpr ⟨hmem, Surroundings.isMark_of_quote hq⟩)

/-- A safe name cannot end its quotes. -/
theorem keyQuote_not_mem_safe (name : String) : d.keyQuote ∉ (Text.safe name).toList := by
  have hrender : (Fragment.render d.sigil (named name)) = Text.safe name := render_named _ _
  rw [← hrender]
  exact not_mem_render (mem_quotes_keyQuote d) (by simp)

/-- A key is rendered in its quotes, without unsafe characters. -/
theorem toList_render_quotedKey (key : String) : (render d.sigil (d.quotedKey key)).toList =
    d.keyQuote :: ((Text.safe key).toList ++ [d.keyQuote]) := by
  cases d <;> simp [Dialect.quotedKey, Aql.quotedKey, Cypher.ticked, Dialect.keyQuote]

/-- An entry begins with its key, whatever its value is. -/
theorem keysFrom_entry (key : String) (f : Fragment) (ys : List Char) :
    Text.keysFrom d none
      ((render d.sigil (d.quotedKey key ++ lit ": " ++ f)).toList ++ ys) =
        Text.safe key :: Text.keysFrom d none ((f.render d.sigil).toList ++ ys) := by
  have hcolon : ∀ q ∈ d.quotes, q ∉ [':', ' '] := by cases d <;> simp [Dialect.quotes]
  have hlit : (": " : String).toList = [':', ' '] := rfl
  have htext : (render d.sigil (d.quotedKey key ++ lit ": " ++ f)).toList ++ ys =
      d.keyQuote :: ((Text.safe key).toList ++ d.keyQuote :: ([':', ' '] ++
        ((f.render d.sigil).toList ++ ys))) := by
    simp [toList_render_quotedKey, hlit]
  rw [htext, Text.keysFrom_quoted (keyQuote_not_mem_safe key),
    Text.keysFrom_append_of_no_quotes hcolon, String.ofList_toList]
  rfl

/-- A fragment that closes its quotes is read apart from what follows it, unless it may end in a
key. -/
theorem keysFrom_append {before after : List Char}
    (h : Surroundings.read d ⟨before, none⟩ (Fragment.marks f) = some ⟨after, none⟩)
    {ys : List Char} (hys : ys.head? ≠ some ':' ∨ d.keyQuote ∉ Fragment.marks f) :
    Text.keysFrom d none ((f.render d.sigil).toList ++ ys) =
      Text.keysFrom d none (f.render d.sigil).toList ++ Text.keysFrom d none ys := by
  have hmarked : Surroundings.Marked ⟨before, none⟩ := by simp [Surroundings.Marked]
  rw [← Fragment.filter_render d.sigil, hmarked.read_filter] at h
  exact Text.keysFrom_append h rfl
    (hys.imp_right fun hmem => not_mem_render (mem_quotes_keyQuote d) hmem) rfl

namespace Projects

theorem congr (h : Projects d f ks) (hrender : g.render d.sigil = f.render d.sigil) :
    Projects d g ks := by
  intro ys hys
  rw [hrender, h ys hys]

/-- The keys that a fragment projects are read off its text. -/
theorem projectedKeys_eq (h : Projects d f ks) : Text.projectedKeys d (f.render d.sigil) = ks := by
  have hempty := h [] (by simp)
  rwa [List.append_nil, Text.keysFrom, List.append_nil] at hempty

/-- What has no quotes may stand before anything. -/
theorem skip (h : Quoteless d f) (hg : Projects d g ks) : Projects d (f ++ g) ks := by
  intro ys hys
  rw [render_append, String.toList_append, List.append_assoc,
    Text.keysFrom_append_of_no_quotes fun q hq => not_mem_render hq (h q hq), hg ys hys]

/-- A fragment without quotes projects nothing. -/
theorem of_quoteless (h : Quoteless d f) : Projects d f [] := fun ys _ =>
  Text.keysFrom_append_of_no_quotes (fun q hq => not_mem_render hq (h q hq)) ys

/-- A balanced fragment projects some keys. -/
theorem of_balanced (h : Fragment.Balanced d f) :
    Projects d f (Text.projectedKeys d (f.render d.sigil)) := fun _ hys =>
  keysFrom_append (h.read []) (.inl hys)

/-- A fragment that closes its quotes, and has none of keys, projects no keys. -/
theorem of_keyless (before after : List Char)
    (h : Surroundings.read d ⟨before, none⟩ (Fragment.marks f) = some ⟨after, none⟩)
    (hkeyless : d.keyQuote ∉ Fragment.marks f) : Projects d f [] := by
  intro ys _
  rw [keysFrom_append h (.inr hkeyless),
    Text.keysFrom_eq_nil (not_mem_render (mem_quotes_keyQuote d) hkeyless) none]

/-- Two fragments project the keys of both, unless the second one begins with a colon. -/
theorem append (hf : Projects d f ks) (hg : Projects d g ls)
    (hhead : (g.render d.sigil).toList.head? ≠ some ':') : Projects d (f ++ g) (ks ++ ls) := by
  intro ys hys
  have hnext : ((g.render d.sigil).toList ++ ys).head? ≠ some ':' := by
    rw [List.head?_append]
    cases hcases : (g.render d.sigil).toList.head? with
    | none => simpa using hys
    | some c => simpa [hcases] using hhead
  rw [render_append, String.toList_append, List.append_assoc, hf _ hnext, hg ys hys,
    List.append_assoc]

/-- A key in quotes is projected only if a colon follows. -/
theorem quotedKey (name : String) : Projects d (d.quotedKey name) [] := by
  intro ys hys
  rw [toList_render_quotedKey, List.cons_append, List.append_assoc, List.singleton_append,
    Text.keysFrom_quoted (keyQuote_not_mem_safe name), if_neg hys]

/-- An entry projects its key, and what its value does. -/
theorem entry (key : String) (hg : Projects d g ks) :
    Projects d (d.quotedKey key ++ lit ": " ++ g) (Text.safe key :: ks) := by
  intro ys hys
  rw [keysFrom_entry, hg ys hys, List.cons_append]

/-- A text of the library that begins with a mark other than a colon may follow anything. -/
theorem append_lit {s : String} (hf : Projects d f ks) (hg : Projects d g ls)
    (hquote : Quoteless d (lit s)) (hhead : ∃ c ∈ s.toList.head?, c ≠ ':') :
    Projects d (f ++ (lit s ++ g)) (ks ++ ls) := by
  refine hf.append (skip hquote hg) ?_
  obtain ⟨c, hc, hne⟩ := hhead
  rw [render_append, render_lit, String.toList_append, List.head?_append, hc, Option.some_or]
  simpa using hne

/-- A text after a fragment that starts with no colon changes nothing. -/
theorem concat_lit {s : String} (hf : Projects d f ks) (hquote : Quoteless d (lit s))
    (hhead : ∃ c ∈ s.toList.head?, c ≠ ':') : Projects d (f ++ lit s) ks := by
  have hnil : Projects d [] [] := of_quoteless (by simp [Quoteless])
  simpa using hf.append_lit hnil hquote hhead

/-- Joined fragments project what each of them does. -/
theorem join {α : Type} {separator : String} (hquote : Quoteless d (lit separator))
    (hhead : ∃ c ∈ separator.toList.head?, c ≠ ':') {xs : List α} {f : α → Fragment}
    {ks : α → List String} (h : ∀ x ∈ xs, Projects d (f x) (ks x)) :
    Projects d (Fragment.join separator (xs.map f)) (xs.flatMap ks) := by
  induction xs with
  | nil => exact of_quoteless (by simp [Fragment.join, Quoteless])
  | cons x rest ih =>
    rw [List.forall_mem_cons] at h
    cases rest with
    | nil => simpa [Fragment.join] using h.1
    | cons y rest =>
      have hrest := ih h.2
      rw [List.map_cons, List.map_cons, Fragment.join, List.intercalate_cons_cons,
        List.append_assoc, List.flatMap_cons]
      exact h.1.append_lit hrest hquote hhead

theorem join_of_nil {separator : String} (hquote : Quoteless d (lit separator))
    (hhead : ∃ c ∈ separator.toList.head?, c ≠ ':') {fs : List Fragment}
    (h : ∀ f ∈ fs, Projects d f []) : Projects d (Fragment.join separator fs) [] := by
  have hjoin : Projects d (Fragment.join separator (fs.map id)) (fs.flatMap fun _ => []) :=
    join hquote hhead h
  rwa [List.map_id, List.flatMap_eq_nil_iff.mpr fun _ _ => rfl] at hjoin

theorem comma {α : Type} {xs : List α} {f : α → Fragment} {ks : α → List String}
    (h : ∀ x ∈ xs, Projects d (f x) (ks x)) :
    Projects d (Fragment.join ", " (xs.map f)) (xs.flatMap ks) :=
  join (by cases d <;> decide) ⟨',', rfl, by decide⟩ h

end Projects

end Fragment

/-! ## Keys of scripts -/

namespace Script

variable {d : Dialect} {a b : Script} {ks ls : List String}

/-- A script of whole lines that project the given keys. -/
def Projects (d : Dialect) (script : Script) (ks : List String) : Prop :=
  OwnLines script ∧ (lines d.sigil script).flatMap (Text.projectedKeys d) = ks

namespace Projects

theorem nil : Projects d [] [] := ⟨by simp [OwnLines], rfl⟩

/-- Scripts project one after the other. -/
theorem append (ha : Projects d a ks) (hb : Projects d b ls) : Projects d (a ++ b) (ks ++ ls) := by
  have hstarts : StartsLine d.sigil b := by rw [StartsLine, hb.1.layout_eq]
  refine ⟨?_, by rw [lines_append hstarts, List.flatMap_append, ha.2, hb.2]⟩
  intro c hc
  rcases List.mem_append.mp hc with hc | hc
  · exact ha.1 c hc
  · exact hb.1 c hc

/-- A command that starts a line projects what its fragment does. -/
theorem starting {c : Command} {f : Fragment} (hstarted : c.started? = some f)
    (h : Fragment.Projects d f ks) : Projects d [c] ks := by
  refine ⟨by simp [OwnLines, hstarted], ?_⟩
  simp [lines, layout_of_started hstarted, h.projectedKeys_eq]

theorem line {f : Fragment} (h : Fragment.Projects d f ks) : Projects d [.line f] ks :=
  starting rfl h

/-- A command that writes nothing projects nothing. -/
theorem silent {c : Command} (hstarted : c.started? = none) (hfragment : c.fragment = []) :
    Projects d [c] [] := by
  refine ⟨by simp [OwnLines, hfragment], ?_⟩
  simp [lines, layout_of_continued hstarted]

theorem page (p : Option PageRequest) : Projects d [.page p] [] := by
  rcases p with _ | ⟨offset, _ | size, returnTotal⟩
  · exact silent rfl rfl
  · exact silent rfl rfl
  · exact starting rfl (.of_quoteless fun q _ => by simp [isMark])

end Projects

end Script

/-! ## AQL -/

namespace Property

theorem safe_key (p : Property) : Text.safe p.key = p.key := Text.safe_safe p.name

end Property

namespace Aql

open Fragment (Projects)

/-- The variable of a document has no quotes. -/
theorem quoteless_document {doc : Fragment} (h : IsDocument doc) : Fragment.Quoteless .aql doc := by
  cases h with
  | root => decide
  | hop p hop => exact fun _ _ => by simp [hopDoc]

theorem projects_attr {doc : Fragment} (h : Fragment.Quoteless .aql doc) (key : String) :
    Projects .aql (attr doc key) [] := by
  have hname : Projects .aql (lit ".`" ++ named key ++ lit "`") [] :=
    .of_keyless [] [] (by simp [isMark]) (by simp [isMark])
  simpa [attr] using Projects.skip h hname

/-- A value projects nothing. -/
theorem projects_value {doc : Fragment} (h : IsDocument doc) (p : Property) :
    Projects .aql (value doc p) [] := by
  unfold value
  split
  · split
    · exact projects_attr (quoteless_document h) _
    · exact .of_quoteless (by decide)
  · split <;> exact .of_quoteless fun _ _ => by simp

/-- An entry of an object projects its key. -/
theorem projects_entry (key : String) {field : Fragment} (h : Projects .aql field []) :
    Projects .aql (quotedKey key ++ lit ": " ++ field) [Text.safe key] :=
  .entry (d := .aql) key h

/-- Entries project their keys in order. -/
theorem projects_entries {α : Type} {xs : List α} {f : α → Fragment} {ks : α → List String}
    (h : ∀ x ∈ xs, Projects .aql (f x) (ks x)) :
    Script.Projects .aql (entries (xs.map f)) (xs.flatMap ks) := by
  induction xs with
  | nil => exact .nil
  | cons x rest ih =>
    rw [List.forall_mem_cons] at h
    cases rest with
    | nil => simpa [entries] using Script.Projects.line h.1
    | cons y rest =>
      have hcomma : Projects .aql (f x ++ lit ",") (ks x) :=
        h.1.concat_lit (by decide) ⟨',', rfl, by decide⟩
      exact (Script.Projects.line hcomma).append (ih h.2)

/-- The result of a level projects its keys. -/
theorem projects_result {doc : Fragment} (h : IsDocument doc) (ps : List Property)
    (nested : Bool) : Script.Projects .aql (result doc ps nested) (Property.levelKeys ps) := by
  have hvalue (p : Property) := projects_value h p
  have hpresent (p : Property) : Projects .aql (lit "(" ++ value doc p ++ lit " != NULL AND " ++
      value doc p ++ lit " != [])") [] := by
    have hlast := (hvalue p).concat_lit (s := " != [])") (by decide) ⟨' ', rfl, by decide⟩
    simpa using Projects.skip (f := lit "(") (by decide)
      ((hvalue p).append_lit (s := " != NULL AND ") hlast (by decide) ⟨' ', rfl, by decide⟩)
  have hfilter : Script.Projects .aql (if nested && !((Property.level ps).map fun p =>
      (p.key, value doc p)).isEmpty then [.line (lit "FILTER " ++ Fragment.join " OR "
        ((Property.level ps).map fun p => lit "(" ++ value doc p ++ lit " != NULL AND " ++
          value doc p ++ lit " != [])"))] else []) [] := by
    split
    · exact .line (.skip (by decide) (.join_of_nil (by decide) ⟨' ', rfl, by decide⟩
        (List.forall_mem_map.mpr fun p _ => hpresent p)))
    · exact .nil
  have hopen : Script.Projects .aql
      [.line (lit (if nested then "RETURN DISTINCT \x7b" else "RETURN \x7b")), .indent] [] := by
    refine .append (a := [_]) (b := [_]) (.line (.of_quoteless ?_)) (.silent rfl rfl)
    cases nested <;> decide
  have hentries : Script.Projects .aql (entries ((Property.level ps).map fun p =>
      quotedKey p.key ++ lit ": " ++ value doc p))
      ((Property.level ps).flatMap fun p => [Text.safe p.key]) :=
    projects_entries fun p _ => projects_entry p.key (hvalue p)
  have hclose : Script.Projects .aql [.outdent, .line (lit "\x7d")] [] :=
    .append (a := [_]) (b := [_]) (.silent rfl rfl) (.line (.of_quoteless (by decide)))
  have hkeys : Property.levelKeys ps = (Property.level ps).flatMap fun p => [Text.safe p.key] := by
    simp [Property.levelKeys, Property.safe_key, ← List.map_eq_flatMap]
  have hall := ((hfilter.append hopen).append hentries).append hclose
  rw [List.nil_append, List.nil_append, List.append_nil, ← hkeys] at hall
  unfold result
  dsimp only
  rw [List.map_map, List.map_map]
  exact hall

/-- The fields of members project their keys. -/
theorem projects_memberFields (p : Property) : Projects .aql (memberFields p) p.memberKeys := by
  have hfields : Projects .aql (memberFields p)
      ((p.children.filter fun c => !c.groupBy).flatMap fun c => [Text.safe c.key]) :=
    .comma fun c _ => projects_entry c.key (projects_attr (fun _ _ => by simp) c.key)
  simpa [Property.memberKeys, Property.safe_key, ← List.map_eq_flatMap] using hfields

/-- The keys of groups are those of the properties grouped by. -/
theorem keys_groupKeys (p : Property) : (groupKeys p).map (fun k => k.1.key) = p.groupKeys := by
  have hkeys : (p.children.filter Property.groupBy).zipIdx.map Prod.fst =
      p.children.filter Property.groupBy := List.zipIdx_map_fst _ _
  rw [groupKeys, List.map_map, Property.groupKeys]
  nth_rewrite 2 [← hkeys]
  rw [List.map_map]
  rfl

/-- The fields of a group project the keys of the group, and the one of its members. -/
theorem projects_groupFields {p : Property} (h : Text.safe p.instancesKey = p.instancesKey) :
    Projects .aql (groupFields p) (p.groupKeys ++ [p.instancesKey]) := by
  -- the entries, each with the key that it projects
  let fields : List (Fragment × List String) :=
    (groupKeys p).map (fun k => (quotedKey k.1.key ++ lit ": " ++ k.2, [Text.safe k.1.key])) ++
      [(quotedKey p.instancesKey ++ lit ": instances", [p.instancesKey])]
  have hfields : ∀ e ∈ fields, Projects .aql e.1 e.2 := by
    intro e he
    rcases List.mem_append.mp he with he | he
    · obtain ⟨k, hk, rfl⟩ := List.mem_map.mp he
      obtain ⟨c, -, rfl⟩ := List.mem_map.mp hk
      exact projects_entry _ (.of_quoteless fun _ _ => by simp)
    · rw [List.mem_singleton.mp he]
      have hinstances : Projects .aql (quotedKey p.instancesKey ++ lit ": " ++ lit "instances")
          [Text.safe p.instancesKey] := projects_entry _ (.of_quoteless (by decide))
      rw [h] at hinstances
      exact hinstances.congr (by simp)
  have hcomma : Projects .aql (comma (fields.map Prod.fst)) (fields.flatMap Prod.snd) :=
    .comma hfields
  have hkeys : fields.flatMap Prod.snd = p.groupKeys ++ [p.instancesKey] := by
    rw [← keys_groupKeys, List.map_eq_flatMap]
    simp [fields, List.flatMap_map, Property.safe_key]
  rw [hkeys, List.map_append, List.map_map] at hcomma
  exact hcomma

theorem projects_collecting (p : Property) : Projects .aql (collecting p) [] := by
  have hvalues : Projects .aql (keyValues p) [] := by
    refine .join_of_nil (by decide) ⟨',', rfl, by decide⟩ (List.forall_mem_map.mpr fun k hk => ?_)
    obtain ⟨c, -, rfl⟩ := List.mem_map.mp hk
    exact .skip (fun _ _ => by simp [isMark]) (projects_attr (fun _ _ => by simp) _)
  have hinto : Projects .aql (named (p.aliasName ++ "_group")) [] := .of_quoteless fun _ _ => by simp
  simpa [collecting] using Projects.skip (f := lit "COLLECT ") (by decide)
    (hvalues.append_lit (s := " INTO ") hinto (by decide) ⟨' ', rfl, by decide⟩)

theorem projects_groupOrder (p : Property) : Script.Projects .aql (groupOrder p) [] := by
  unfold groupOrder
  split
  · refine .line (.skip (by decide) (.join_of_nil (by decide) ⟨',', rfl, by decide⟩ ?_))
    refine List.forall_mem_map.mpr fun k hk => .of_quoteless fun _ _ => ?_
    obtain ⟨c, -, rfl⟩ := List.mem_map.mp (mem_groupKeys_of_mem_order hk)
    simp [isMark]
  · exact .nil

theorem projects_memberOrder (p : Property) : Projects .aql (memberOrder p) [] := by
  unfold memberOrder
  split
  · exact .of_quoteless (by decide)
  · refine .skip (by decide) (.join_of_nil (by decide) ⟨',', rfl, by decide⟩ ?_)
    exact List.forall_mem_map.mpr fun c _ =>
      (projects_attr (fun _ _ => by simp) c.key).concat_lit (by decide) ⟨' ', rfl, by decide⟩

theorem projects_gathering (p : Property) : Projects .aql (gathering p) p.memberKeys := by
  have hreturn := (projects_memberFields p).concat_lit (s := " \x7d)") (by decide)
    ⟨' ', rfl, by decide⟩
  have hbefore : Fragment.Quoteless .aql (lit "LET instances = (FOR " ++
      named (p.aliasName ++ "_gi") ++ lit " IN " ++ named (p.aliasName ++ "_group") ++
        lit "[*]." ++ named (p.aliasName ++ "_g")) := by
    simp [Fragment.Quoteless, Dialect.quotes, isMark]
  simpa [gathering] using Projects.skip hbefore
    ((projects_memberOrder p).append_lit (s := " RETURN \x7b ") hreturn (by decide)
      ⟨' ', rfl, by decide⟩)

/-- Groups project the keys of members and groups. -/
theorem projects_grouping {p : Property} (h : Text.safe p.instancesKey = p.instancesKey) :
    Script.Projects .aql (grouping p) (p.memberKeys ++ (p.groupKeys ++ [p.instancesKey])) := by
  have hitems : Projects .aql
      (lit "FOR " ++ named (p.aliasName ++ "_g") ++ lit " IN " ++ named p.aliasName) [] :=
    .of_quoteless fun _ _ => by simp [isMark]
  have hgroup : Projects .aql (lit "RETURN \x7b " ++ groupFields p ++ lit " \x7d")
      (p.groupKeys ++ [p.instancesKey]) :=
    .concat_lit (.skip (by decide) (projects_groupFields h)) (by decide) ⟨' ', rfl, by decide⟩
  have hopen : Script.Projects .aql [.line (lit "LET " ++ named p.groupAlias ++ lit " = ("),
      .indent] [] :=
    .append (a := [_]) (b := [_]) (.line (.of_quoteless
      (by simp [Fragment.Quoteless, Dialect.quotes, isMark]))) (.silent rfl rfl)
  have hclose : Script.Projects .aql [.outdent, .line (lit ")")] [] :=
    .append (a := [_]) (b := [_]) (.silent rfl rfl) (.line (.of_quoteless (by decide)))
  have hbefore := (Script.Projects.line hitems).append (.line (projects_collecting p))
  have hafter := (Script.Projects.line (projects_gathering p)).append (.line hgroup)
  have hall := (hopen.append ((hbefore.append (projects_groupOrder p)).append hafter)).append hclose
  rw [grouping_eq]
  simpa using hall

/-- The projection of a statement projects the keys of the first level. -/
theorem projects_projection (plan : Plan) :
    Script.Projects .aql (projection plan) (Property.levelKeys plan.spec.properties) := by
  have hsort : Script.Projects .aql
      (if ((Property.level plan.spec.properties).filter Property.sort).isEmpty then []
      else [.line (lit "SORT " ++ comma (((Property.level plan.spec.properties).filter
        Property.sort).map fun p => value root p ++ lit " ASC"))]) [] := by
    split
    · exact .nil
    · refine .line (.skip (by decide) (.join_of_nil (by decide) ⟨',', rfl, by decide⟩ ?_))
      exact List.forall_mem_map.mpr fun p _ =>
        (projects_value .root p).concat_lit (by decide) ⟨' ', rfl, by decide⟩
  exact (hsort.append (.page plan.page)).append (projects_result .root plan.spec.properties false)

end Aql

/-! ## Cypher -/

namespace Cypher

open Fragment (Projects)

/-- The entries of a level begin with its keys, whatever their values are. -/
theorem head?_projectedKeys_entries (plan : Plan) (node : Fragment) (ps : List Property) :
    ((entries plan node ps).map fun f =>
      (Text.projectedKeys .cypher (f.render .dollar)).head?) =
        (Property.levelKeys ps).map some := by
  have hentry (key : String) (f : Fragment) :
      (Text.projectedKeys .cypher (Fragment.render .dollar (ticked key ++ lit ": " ++ f))).head? =
        some (Text.safe key) := by
    have hfirst := Fragment.keysFrom_entry (d := .cypher) key f []
    rw [List.append_nil, List.append_nil] at hfirst
    exact congrArg List.head? hfirst
  induction ps using Property.forest_induction with
  | nil => rw [entries, Property.levelKeys_nil, List.map_nil, List.map_nil]
  | cons p rest ihchildren ihrest =>
    rw [entries_cons, Property.levelKeys_cons, List.map_append, List.map_append, ihrest]
    split
    · rw [ihchildren]
    · rw [List.map_singleton, List.map_singleton, hentry, Property.safe_key]

theorem projects_ticked (name : String) : Projects .cypher (ticked name) [] :=
  .quotedKey (d := .cypher) name

/-- A property of a node projects nothing. -/
theorem projects_attr {node : Fragment} (h : Fragment.Quoteless .cypher node) (key : String) :
    Projects .cypher (attr node key) [] := by
  have hkey : Projects .cypher (lit "." ++ ticked key) [] := .skip (by decide) (projects_ticked key)
  simpa [attr] using Projects.skip h hkey

/-- A value at the top projects nothing. -/
theorem projects_topValue (p : Property) : Projects .cypher (topValue p) [] := by
  unfold topValue directValue
  split
  · split
    · exact projects_attr (by decide) _
    · exact .of_quoteless (by decide)
  · exact .of_quoteless (Fragment.quoteless_named _)

/-- The projection of a statement projects the keys of the first level. -/
theorem projects_projection (plan : Plan) :
    Script.Projects .cypher (projection plan) (Property.levelKeys plan.spec.properties) := by
  have horder : Projects .cypher (lit "ORDER BY " ++
      comma (((Property.level plan.spec.properties).filter Property.sort).map topValue ++
        [lit "root._id"])) [] := by
    refine .skip (by decide) (.join_of_nil (by decide) ⟨',', rfl, by decide⟩ fun f hf => ?_)
    rcases List.mem_append.mp hf with hf | hf
    · obtain ⟨p, -, rfl⟩ := List.mem_map.mp hf
      exact projects_topValue p
    · rw [List.mem_singleton.mp hf]
      exact .of_quoteless (by decide)
  have hentries : Projects .cypher (comma ((Property.level plan.spec.properties).map fun p =>
      ticked p.key ++ lit ": " ++ topValue p)) (Property.levelKeys plan.spec.properties) := by
    have hcomma : Projects .cypher (comma ((Property.level plan.spec.properties).map fun p =>
        ticked p.key ++ lit ": " ++ topValue p))
        ((Property.level plan.spec.properties).flatMap fun p => [Text.safe p.key]) :=
      .comma fun p _ => .entry (d := .cypher) p.key (projects_topValue p)
    simpa [Property.levelKeys, Property.safe_key, ← List.map_eq_flatMap] using hcomma
  have hreturn : Projects .cypher (lit "RETURN \x7b" ++
      comma ((Property.level plan.spec.properties).map fun p =>
        ticked p.key ++ lit ": " ++ topValue p) ++ lit "\x7d AS row")
      (Property.levelKeys plan.spec.properties) :=
    .concat_lit (.skip (by decide) hentries) (by decide) ⟨'\x7d', rfl, by decide⟩
  have hlast := (Script.Projects.silent (d := .cypher) (c := .options ⟨false,
    (plan.page.bind PageRequest.size).isNone⟩) rfl rfl).append (.line hreturn)
  unfold projection
  refine ((Script.Projects.line horder).append (?_ : Script.Projects .cypher _ [])).append hlast
  split
  · exact .line (.of_quoteless fun _ _ => by simp [isMark])
  · exact .nil

/-- Sorting projects nothing further. -/
theorem projects_sortMaps {list : Fragment} {ks : List String} (h : Projects .cypher list ks)
    (keys : List Property) : Projects .cypher (sortMaps list keys) ks := by
  have hnames : Projects .cypher (comma (keys.map fun c => lit "'^" ++ named c.key ++ lit "'")) [] := by
    refine .join_of_nil (by decide) ⟨',', rfl, by decide⟩ (List.forall_mem_map.mpr fun c _ => ?_)
    exact .of_keyless [] [] (by simp [isMark, quotes_cypher])
      (by simp [isMark])
  unfold sortMaps
  split
  · exact h
  · have hrest := hnames.concat_lit (s := "])") (by decide) ⟨']', rfl, by decide⟩
    simpa using Projects.skip (f := lit "apoc.coll.sortMulti(") (by decide)
      (h.append_lit (s := ", [") hrest (by decide) ⟨',', rfl, by decide⟩)

/-- The fields of a map that are taken from another map. -/
theorem projects_fields {item : Fragment} (h : Fragment.Quoteless .cypher item) (ps : List Property) :
    Projects .cypher (comma (ps.map fun c =>
      ticked c.key ++ lit ": " ++ item ++ lit "." ++ ticked c.key)) (ps.map Property.key) := by
  have hfields : Projects .cypher (comma (ps.map fun c =>
      ticked c.key ++ lit ": " ++ item ++ lit "." ++ ticked c.key))
      (ps.flatMap fun c => [Text.safe c.key]) := by
    refine .comma fun c _ => ?_
    rw [List.append_assoc, List.append_assoc]
    exact .entry (d := .cypher) c.key (by simpa [attr] using projects_attr h c.key)
  simpa [Property.safe_key, ← List.map_eq_flatMap] using hfields

/-- Groups project their keys, after what the list projects. -/
theorem projects_groups {list : Fragment} {ks : List String} (h : Projects .cypher list ks)
    (p : Property) : Projects .cypher (groups list p) (ks ++ p.groupKeys) := by
  have hx : Fragment.Quoteless .cypher (localName p "_x") := Fragment.quoteless_named _
  have hfields := projects_fields hx (p.children.filter Property.groupBy)
  refine projects_sortMaps ?_ p.groupSortKeys
  simp only [List.append_assoc]
  refine .skip (by decide) (.skip hx (.skip (by decide) ?_))
  exact h.append_lit (hfields.concat_lit (by decide) ⟨'\x7d', rfl, by decide⟩) (by decide)
    ⟨' ', rfl, by decide⟩

/-- Members project their keys, after what the list projects. -/
theorem projects_members {list : Fragment} {ks : List String} (h : Projects .cypher list ks)
    (p : Property) : Projects .cypher (members list p) (ks ++ p.memberKeys) := by
  have hmember : Fragment.Quoteless .cypher (localName p "_y") := Fragment.quoteless_named _
  have hgroup : Fragment.Quoteless .cypher (localName p "_g") := Fragment.quoteless_named _
  have hfields := projects_fields hmember (p.children.filter fun c => !c.groupBy)
  have hsame : Projects .cypher (conjunction ((p.children.filter Property.groupBy).map fun c =>
      localName p "_y" ++ lit "." ++ ticked c.key ++ lit " = " ++ localName p "_g" ++ lit "." ++
        ticked c.key)) [] := by
    refine .join_of_nil (by decide) ⟨' ', rfl, by decide⟩ (List.forall_mem_map.mpr fun c _ => ?_)
    simpa [attr] using (projects_attr hmember c.key).append_lit (s := " = ")
      (projects_attr hgroup c.key) (by decide) ⟨' ', rfl, by decide⟩
  refine projects_sortMaps ?_ p.memberSortKeys
  simp only [List.append_assoc]
  refine .skip (by decide) (.skip hmember (.skip (by decide) ?_))
  exact h.append_lit (hsame.append_lit (hfields.concat_lit (by decide) ⟨'\x7d', rfl, by decide⟩)
    (by decide) ⟨' ', rfl, by decide⟩) (by decide) ⟨' ', rfl, by decide⟩

/-- A grouping projects what its list does, each time that it is read. -/
theorem projects_grouping {list : Fragment} {ks : List String} (h : Projects .cypher list ks)
    {p : Property} (hsafe : Text.safe p.instancesKey = p.instancesKey) :
    Projects .cypher (grouping list p)
      (ks ++ p.groupKeys ++ ([p.instancesKey] ++ (ks ++ p.memberKeys))) := by
  have hentry : Projects .cypher (ticked p.instancesKey ++ lit ": " ++ (members list p ++
      lit "\x7d)]")) (Text.safe p.instancesKey :: (ks ++ p.memberKeys)) :=
    .entry (d := .cypher) p.instancesKey
      ((projects_members h p).concat_lit (by decide) ⟨'\x7d', rfl, by decide⟩)
  rw [hsafe] at hentry
  have hmerge : Projects .cypher (localName p "_g" ++ (lit ", \x7b" ++ (ticked p.instancesKey ++
      lit ": " ++ (members list p ++ lit "\x7d)]")))) (p.instancesKey :: (ks ++ p.memberKeys)) :=
    .skip (Fragment.quoteless_named _) (.skip (by decide) hentry)
  have hall := Projects.skip (d := .cypher) (f := lit "[") (by decide)
    (.skip (f := localName p "_g") (Fragment.quoteless_named _) (.skip (f := lit " IN ") (by decide)
      ((projects_groups h p).append_lit (s := " | apoc.map.merge(") hmerge (by decide)
        ⟨' ', rfl, by decide⟩)))
  rw [grouping_eq]
  simpa [Property.instancesKey] using hall

/-- A grouped list projects the keys of groups and of members. -/
theorem projects_shape {list : Fragment} {ks : List String} (h : Projects .cypher list ks)
    {p : Property} (hgrouping : p.hasGrouping = true)
    (hsafe : Text.safe p.instancesKey = p.instancesKey) :
    Projects .cypher (shape p list)
      (ks ++ p.groupKeys ++ ([p.instancesKey] ++ (ks ++ p.memberKeys))) := by
  have hsorted : Projects .cypher
      (if p.sort then lit "apoc.coll.sort(" ++ list ++ lit ")" else list) ks := by
    split
    · exact .concat_lit (.skip (by decide) h) (by decide) ⟨')', rfl, by decide⟩
    · exact h
  have hgrouped := projects_grouping hsorted hsafe
  unfold shape
  dsimp only
  rw [if_pos hgrouping]
  split
  · exact .concat_lit (.skip (by decide) hgrouped) (by decide) ⟨')', rfl, by decide⟩
  · have hx : Fragment.Quoteless .cypher (localName p "_x") := Fragment.quoteless_named _
    have hlast : Projects .cypher (lit ")], ', ')") [] :=
      .of_keyless [')', ']', ')'] [] (by decide) (by decide)
    have hrest : Projects .cypher (localName p "_x" ++ lit ")], ', ')") [] := .skip hx hlast
    have hall := Projects.skip (d := .cypher) (f := lit "apoc.text.join([") (by decide)
      (.skip hx (.skip (f := lit " IN ") (by decide)
        (hgrouped.append_lit (s := " | toString(") hrest (by decide) ⟨' ', rfl, by decide⟩)))
    simpa using hall
  · exact hgrouped

/-- The value of a grouped property projects the keys of its groups and of their members, besides
those of its list. -/
theorem projects_value (plan : Plan) {parent : Fragment} (hparent : IsNode parent) {p : Property}
    (hgrouping : p.hasGrouping = true) (hsafe : Text.safe p.instancesKey = p.instancesKey) :
    ∃ ks, Projects .cypher (value plan parent p)
      (ks ++ p.groupKeys ++ ([p.instancesKey] ++ (ks ++ p.memberKeys))) := by
  have hleaf : p.isLeaf = false := by
    cases hchildren : p.children with
    | nil => simp [Property.hasGrouping, hchildren] at hgrouping
    | cons c rest => simp [Property.isLeaf, hchildren]
  rw [value_eq, if_neg (by simp [Property.isDirect, hleaf])]
  split
  · exact ⟨[], projects_shape (.of_quoteless (by decide)) hgrouping hsafe⟩
  · have hstep : p.leafStep? = none := by rw [Property.leafStep?, if_neg (by simp [hleaf])]
    rw [hstep]
    exact ⟨_, projects_shape (.of_balanced (balanced_objects hparent p)) hgrouping hsafe⟩

end Cypher

/-! ## Result objects -/

namespace Property

/-- The keys of a level are usable and distinct. Its objects have each of them once and no others,
and statements project them. -/
structure LevelAgrees (ps : List Property) : Prop where
  nodup : (levelKeys ps).Nodup
  usable : ∀ k ∈ levelKeys ps, k ≠ "" ∧ Text.safe k = k
  objects : ∀ (e : Evaluator) (doc : Document) (row : Row),
    (e.objectFields doc [] ps).value = some row → row.keys.Perm (levelKeys ps)
  aql : ∀ doc, Aql.IsDocument doc → ∀ nested,
    (Script.lines .atSign (Aql.result doc ps nested)).flatMap (Text.projectedKeys .aql) =
      levelKeys ps
  cypher : ∀ plan node, ((Cypher.entries plan node ps).map fun f =>
    (Text.projectedKeys .cypher (f.render .dollar)).head?) = (levelKeys ps).map some

/-- The same for the groups of a property and for their members. -/
structure GroupsAgree (p : Property) : Prop where
  nodup : (p.groupKeys ++ [p.instancesKey]).Nodup ∧ p.memberKeys.Nodup
  usable : ∀ k ∈ p.groupKeys ++ [p.instancesKey] ++ p.memberKeys, k ≠ "" ∧ Text.safe k = k
  objects : ∀ values : List Value,
    (∀ row : Row, .object row ∈ values → ∃ (e : Evaluator) (doc : Document),
      (e.objectFields doc [] p.children).value = some row) →
    ∀ v ∈ arrange p values, p.IsGroup v
  aql : (Script.lines .atSign (Aql.grouping p)).flatMap (Text.projectedKeys .aql) =
    p.memberKeys ++ (p.groupKeys ++ [p.instancesKey])
  cypher : ∀ plan node, Cypher.IsNode node → ∃ ks,
    Text.projectedKeys .cypher ((Cypher.value plan node p).render .dollar) =
      ks ++ p.groupKeys ++ ([p.instancesKey] ++ (ks ++ p.memberKeys))

/-- The keys of a level are safe already. -/
theorem safe_of_mem_levelKeys {ps : List Property} {k : String} (h : k ∈ levelKeys ps) :
    Text.safe k = k := by
  obtain ⟨p, -, rfl⟩ := List.mem_map.mp h
  exact p.safe_key

end Property

/-- Both dialects and the evaluator agree on the keys of a level. -/
theorem Query.levelAgrees {q : Query} {spec : Specification} (h : q.interpret = .ok spec)
    {ps : List Property} (hps : spec.IsLevel ps) : Property.LevelAgrees ps where
  nodup := (Query.keys_of_level h hps).1
  usable := fun _ hk =>
    ⟨fun hempty => (Query.keys_of_level h hps).2 (hempty ▸ hk), Property.safe_of_mem_levelKeys hk⟩
  objects := fun _ _ _ hrow => Evaluator.keys_object (Query.keys_of_level h hps).1 hrow
  aql := fun _ hdoc nested => (Aql.projects_result hdoc ps nested).2
  cypher := fun plan node => Cypher.head?_projectedKeys_entries plan node ps

/-- They agree on the keys of groups, if the key for the members is safe. -/
theorem Query.groupsAgree {q : Query} {spec : Specification} (h : q.interpret = .ok spec)
    {p : Property} (hp : p ∈ spec.allProperties) (hmerge : p.isMerge = false)
    (hnames : p.NamesGroups) : p.GroupsAgree := by
  have hlevel := Query.levelAgrees h (.below hp hmerge)
  have hperm := Property.levelKeys_perm_groupKeys hnames.plain
  have hnodup := List.nodup_append.mp (hperm.nodup_iff.mp hlevel.nodup)
  have hinstances : p.instancesKey ≠ "" := by
    have hname := (Bool.and_eq_true_iff.mp hnames.grouping).1
    obtain ⟨name, hsome, hnonempty⟩ := (Option.any_eq_true _ _).mp hname
    rw [Property.instancesKey, hsome]
    simpa using hnonempty
  have hfresh : ∀ k ∈ p.groupKeys, ∀ k' ∈ [p.instancesKey], k ≠ k' := by
    intro k hk k' hk'
    rw [List.mem_singleton.mp hk']
    rintro rfl
    exact hnames.fresh hk
  exact {
    nodup := ⟨List.nodup_append.mpr ⟨hnodup.1, List.nodup_singleton _, hfresh⟩, hnodup.2.1⟩
    usable := fun k hk => by
      rw [List.append_assoc, List.mem_append, List.mem_append, List.mem_singleton] at hk
      rcases hk with hk | rfl | hk
      · exact hlevel.usable k (hperm.mem_iff.mpr (List.mem_append_left _ hk))
      · exact ⟨hinstances, hnames.safe⟩
      · exact hlevel.usable k (hperm.mem_iff.mpr (List.mem_append_right _ hk))
    objects := fun values hvalues v hv => by
      refine Property.isGroup_of_mem_arrange hnames hlevel.nodup (fun row hrow => ?_) hv
      obtain ⟨e, doc, hobject⟩ := hvalues row hrow
      exact hlevel.objects e doc row hobject
    aql := (Aql.projects_grouping hnames.safe).2
    cypher := fun plan node hnode => by
      obtain ⟨ks, hks⟩ := Cypher.projects_value plan hnode hnames.grouping hnames.safe
      exact ⟨ks, hks.projectedKeys_eq⟩ }

/-- The objects of an evaluation have the keys that statements project: on every level of an
interpreted query, in the groups of its properties and their members, and in the rows that come out.
No entry takes the place of another one. -/
theorem Query.keys_agree {q : Query} {spec : Specification} (h : q.interpret = .ok spec)
    (r : Request) :
    (∀ ps, spec.IsLevel ps → Property.LevelAgrees ps) ∧
    (∀ p ∈ spec.allProperties, p.isMerge = false → p.NamesGroups → p.GroupsAgree) ∧
    (∀ data memory rows, evaluate data (Plan.build spec r) memory = .ok rows →
      ∀ row ∈ rows, row.keys.Perm (Property.levelKeys spec.properties)) ∧
    (Script.lines .atSign (Aql.projection (Plan.build spec r))).flatMap
      (Text.projectedKeys .aql) = Property.levelKeys spec.properties ∧
    (Script.lines .dollar (Cypher.projection (Plan.build spec r))).flatMap
      (Text.projectedKeys .cypher) = Property.levelKeys spec.properties := by
  refine ⟨fun ps hps => Query.levelAgrees h hps,
    fun p hp hmerge hnames => Query.groupsAgree h hp hmerge hnames, ?_,
    (Aql.projects_projection _).2, (Cypher.projects_projection _).2⟩
  intro data memory rows hrows row hrow
  obtain ⟨patterns, -, rfl⟩ := eq_of_evaluate hrows
  obtain ⟨doc, hobject⟩ := Evaluator.exists_of_mem_rows hrow
  exact (Query.levelAgrees h .first).objects _ doc row hobject

/-- Papers with the names of their authors, who are grouped by their roles. -/
def Query.staff : Query where
  header := some ⟨some (.bare "Paper"), none, none, none⟩
  structured :=
    let leaf (name : String) (groupBy : Bool) : Item := ⟨.bare name, some (.one (.bare name)), none,
      false, false, groupBy, none, false, none, none⟩
    some (.one ⟨.bare "authors", some (.one (.bare "author")),
      some (.many [leaf "role" true, leaf "name" false]), false, false, false, some "people", false,
      none, none⟩)

/-- Authors who are grouped by their roles. -/
def Property.staff : Property :=
  let leaf (name : String) (groupBy : Bool) (index : Nat) : Property := ⟨name, [⟨name, false, []⟩],
    [], false, false, groupBy, false, none, none, none, index⟩
  ⟨"authors", [⟨"author", false, []⟩], [leaf "role" true 1, leaf "name" false 2], false, false,
    false, false, some "people", none, none, 0⟩

/-- A paper by an editor. -/
def StageData.staff : StageData where
  documents := [⟨⟨1⟩, "shelf", ["Paper"], none, []⟩,
    ⟨⟨2⟩, "shelf", ["Person"], none, [("name", .string "Ada"), ("role", .string "editor")]⟩]
  edges := [⟨⟨1⟩, ⟨2⟩, "author", 0⟩]

theorem Query.keys_agree_staff :
    let spec : Specification := ⟨[.staff], none, "Paper", none⟩
    Query.staff.interpret = .ok spec ∧ Property.LevelAgrees [.staff] ∧
      (Property.staff ∈ spec.allProperties ∧ Property.staff.NamesGroups ∧
        Property.staff.GroupsAgree) ∧
      (Script.lines .atSign (Aql.grouping .staff)).flatMap (Text.projectedKeys .aql) =
        ["name", "role", "people"] ∧
      ∃ rows, evaluate .staff (Plan.build spec (Request.ofStage .inProgress)) none = .ok rows ∧
        rows.length = 1 ∧ ∀ row ∈ rows, row.keys.Perm ["authors"] := by
  intro spec
  have hspec : Query.staff.interpret = .ok spec := rfl
  have hmem : Property.staff ∈ spec.allProperties := List.mem_cons_self
  have hnames : Property.staff.NamesGroups :=
    ⟨by decide +kernel, by decide +kernel, by decide +kernel, by decide +kernel⟩
  have hlength : (evaluate .staff (Plan.build spec (Request.ofStage .inProgress))
      none).toOption.map List.length = some 1 := by decide +kernel
  obtain ⟨rows, hrows, hone⟩ : ∃ rows,
      evaluate .staff (Plan.build spec (Request.ofStage .inProgress)) none = .ok rows ∧
        rows.length = 1 := by
    cases hresult : evaluate .staff (Plan.build spec (Request.ofStage .inProgress)) none with
    | error e =>
      rw [hresult] at hlength
      cases hlength
    | ok rows =>
      rw [hresult] at hlength
      exact ⟨rows, rfl, Option.some.inj hlength⟩
  obtain ⟨hlevels, hgroups, hkeys, -⟩ := keys_agree hspec (Request.ofStage .inProgress)
  have hagree := hgroups .staff hmem rfl hnames
  have hauthors : Property.levelKeys spec.properties = ["authors"] := by decide +kernel
  refine ⟨hspec, hlevels _ .first, ⟨hmem, hnames, hagree⟩, hagree.aql, rows, hrows, hone, ?_⟩
  rw [← hauthors]
  exact hkeys _ none rows hrows

end GraphQuery
