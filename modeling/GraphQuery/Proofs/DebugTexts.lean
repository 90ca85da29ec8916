import GraphQuery.Proofs.Placeholders
import GraphQuery.Proofs.Replacement
import GraphQuery.Proofs.Sorting

/-!
# GraphQuery.Proofs.DebugTexts — what debug text shows of a statement

1. **Writing out** bindings in a text, one after the other, wherever a part of it reads like one of
   their placeholders.
2. **Barriers** in a text, over which no placeholder goes on.
3. **Pieces** of a statement are written out each by itself.
4. **Placeholders** are replaced by their own value first, whatever other names are bound.
5. **Statements**: what is shown for each piece, and when that comes to replacing all placeholders
   at once.
-/

namespace GraphQuery

open Json

/-! ## Writing out -/

namespace Draft

/-- A text with some bindings written out, one after the other. -/
def writeOut (sigil : Sigil) (bindings : List (String × Value)) (text : String) : String :=
  bindings.foldl (fun text (name, value) =>
    Text.replaceAll (sigil.char.toString ++ name) (written name value) text) text

/-- Writes out one binding in the characters of a text. -/
def overwrite (sigil : Sigil) (cs : List Char) (b : String × Value) : List Char :=
  Text.replaceFrom (sigil.char :: b.1.toList) (written b.1 b.2).toList 0 cs

/-- Nothing in the text reads like a placeholder of the names. -/
def Spares (sigil : Sigil) (names : List String) (text : String) : Prop :=
  ∀ name ∈ names, ¬ sigil.char :: name.toList <:+: text.toList

instance (sigil : Sigil) (names : List String) (text : String) :
    Decidable (Spares sigil names text) :=
  inferInstanceAs (Decidable (∀ name ∈ names, ¬ sigil.char :: name.toList <:+: text.toList))

variable {sigil : Sigil} {bindings : List (String × Value)}

theorem toList_writeOut (sigil : Sigil) (bindings : List (String × Value)) (text : String) :
    (writeOut sigil bindings text).toList = bindings.foldl (overwrite sigil) text.toList := by
  induction bindings generalizing text with
  | nil => rfl
  | cons b rest ih =>
    have hpart : (sigil.char.toString ++ b.1).toList = sigil.char :: b.1.toList := by simp
    have hfirst : (Text.replaceAll (sigil.char.toString ++ b.1) (written b.1 b.2) text).toList =
        overwrite sigil text.toList b := by
      rw [Text.toList_replaceAll_of_ne (by simp), hpart]
      rfl
    rw [List.foldl_cons, ← hfirst]
    exact ih _

/-- Bindings are written out one after the other. -/
theorem writeOut_append (before after : List (String × Value)) (text : String) :
    writeOut sigil (before ++ after) text = writeOut sigil after (writeOut sigil before text) :=
  List.foldl_append

theorem overwrite_of_not_mem {cs : List Char} (h : sigil.char ∉ cs) (b : String × Value) :
    overwrite sigil cs b = cs :=
  Text.replaceFrom_of_absent fun hwithin => h (hwithin.subset List.mem_cons_self)

/-- A text that spares the names is left as it is. -/
theorem writeOut_of_spares {text : String} (h : Spares sigil (bindings.map Prod.fst) text) :
    writeOut sigil bindings text = text := by
  rw [← String.toList_inj, toList_writeOut]
  induction bindings with
  | nil => rfl
  | cons b rest ih =>
    unfold Spares at h
    rw [List.map_cons, List.forall_mem_cons] at h
    rw [List.foldl_cons, overwrite, Text.replaceFrom_of_absent h.1]
    exact ih h.2

theorem spares_of_not_mem {text : String} (h : sigil.char ∉ text.toList) (names : List String) :
    Spares sigil names text :=
  fun _ _ hwithin => h (hwithin.subset List.mem_cons_self)

end Draft

/-! ## Barriers -/

/-- The rest of a text, with whose first character no placeholder goes on. -/
def Barrier (sigil : Sigil) : List Char → Prop
  | [] => True
  | c :: _ => Text.isSafe c = false ∧ c ≠ sigil.char

/-- A name of safe characters. -/
def IsSafeName (name : String) : Prop := ∀ c ∈ name.toList, Text.isSafe c = true

/-- What is left of a sanitized name is a safe name. -/
theorem isSafeName_safe (name : String) : IsSafeName (Text.safe name) :=
  fun _ => Text.isSafe_of_mem_safe

/-- A placeholder in front of a barrier is replaced as if it stood alone. -/
theorem Barrier.parted {sigil : Sigil} {ys : List Char} (h : Barrier sigil ys) {name : String}
    (hname : IsSafeName name) (xs : List Char) :
    Text.Parted (sigil.char :: name.toList) xs ys := by
  cases ys with
  | nil => exact Text.parted_nil _ xs
  | cons c rest =>
    refine Text.parted_of_apart fun hmem => ?_
    rcases List.mem_cons.mp hmem with rfl | hmem
    · exact h.2 rfl
    · have hsafe := hname c hmem
      rw [h.1] at hsafe
      cases hsafe

/-! ## Pieces -/

/-- What is shown for the pieces of a statement. Pieces without a sigil are shown as they are. -/
def Faithful (sigil : Sigil) (shown : Piece → List Char) : Prop :=
  ∀ p, sigil.char ∉ (p.render sigil).toList → shown p = (p.render sigil).toList

namespace Faithful

variable {sigil : Sigil} {shown : Piece → List Char}

/-- The pieces as they are rendered show themselves faithfully. -/
theorem render (sigil : Sigil) : Faithful sigil fun p => (p.render sigil).toList := fun _ _ => rfl

/-- To write out one more binding keeps what is shown faithful. -/
theorem overwrite (h : Faithful sigil shown) (b : String × Value) :
    Faithful sigil fun p => Draft.overwrite sigil (shown p) b := by
  intro p hp
  dsimp only
  rw [h p hp, Draft.overwrite_of_not_mem hp]

/-- A text that starts apart, and is free of the sigil, is a barrier. -/
theorem barrier_text (h : Faithful sigil shown) {t : String} {rest : Fragment}
    (hapart : startsApart t = true) (ht : sigil.char ∉ t.toList) :
    Barrier sigil ((Piece.text t :: rest).flatMap shown) := by
  obtain ⟨c, hhead, hc⟩ := (Option.any_eq_true _ _).mp hapart
  obtain ⟨cs, hcs⟩ := List.head?_eq_some_iff.mp hhead
  have hshown : shown (.text t) = c :: cs := (h (.text t) ht).trans hcs
  rw [List.flatMap_cons, hshown]
  refine ⟨by simpa using hc, ?_⟩
  rintro rfl
  exact ht (hcs ▸ List.mem_cons_self)

/-- Right after a placeholder, a piece begins with a barrier, or has no text. A piece that begins
with one has no sigil. -/
theorem barrier_cons (h : Faithful sigil shown) {p : Piece} {rest : Fragment}
    (hchars : p.symbols = (p.render sigil).toList.map .char)
    (hsigil : ∀ c cs, (p.render sigil).toList = c :: cs → Text.isSafe c = false →
      sigil.char ∉ (p.render sigil).toList)
    {last : Position} (hnamed : Position.through sigil .named (p :: rest) = some last)
    (hrest : Position.through sigil .named rest = some last → Barrier sigil (rest.flatMap shown)) :
    Barrier sigil ((p :: rest).flatMap shown) := by
  have hread : Position.read sigil .named
      ((p.render sigil).toList.map .char ++ Fragment.symbols rest) = some last := by
    rw [← hchars]
    exact hnamed
  rw [List.flatMap_cons]
  cases htext : (p.render sigil).toList with
  | nil =>
    rw [htext] at hread
    have hshown : shown p = [] := by rw [h p (by simp [htext]), htext]
    rw [hshown]
    exact hrest hread
  | cons c cs =>
    rw [htext] at hread
    obtain ⟨next, hstep, -⟩ := Option.bind_eq_some_iff.mp hread
    simp only [Position.step, Option.ite_none_left_eq_some, not_or, Bool.not_eq_true] at hstep
    obtain ⟨⟨hc, hsafe⟩, -⟩ := hstep
    rw [h p (hsigil c cs htext hsafe), htext]
    exact ⟨hsafe, hc⟩

/-- Pieces that follow a name begin with a barrier. -/
theorem barrier_of_named (h : Faithful sigil shown) {f : Fragment} (hf : Fragment.Fenced sigil f)
    {last : Position} (hnamed : Position.through sigil .named f = some last) :
    Barrier sigil (f.flatMap shown) := by
  induction f with
  | nil => trivial
  | cons p rest ih =>
    cases p with
    | bound key value => cases hnamed
    | text s => exact h.barrier_cons rfl (fun _ _ _ _ => hf.not_mem) hnamed (ih hf.tail)
    | number n =>
      have hdigits := sigil.not_mem_word (Cypher.isWord_toString n)
      exact h.barrier_cons rfl (fun _ _ _ _ => hdigits) hnamed (ih hf.tail)
    | name s =>
      refine h.barrier_cons rfl (fun c cs htext hsafe => ?_) hnamed (ih hf.tail)
      -- a name begins with a safe character
      have hfirst := isSafeName_safe s c (htext ▸ List.mem_cons_self)
      rw [hsafe] at hfirst
      cases hfirst

/-- No placeholder begins in one piece and ends in another. -/
theorem parted (h : Faithful sigil shown) {p : Piece} {rest : Fragment}
    (hf : Fragment.Fenced sigil (p :: rest)) {position last : Position}
    (hthrough : Position.through sigil position (p :: rest) = some last) {name : String}
    (hname : IsSafeName name) :
    Text.Parted (sigil.char :: name.toList) (shown p) (rest.flatMap shown) := by
  have hplain (hp : sigil.char ∉ (p.render sigil).toList) :
      Text.Parted (sigil.char :: name.toList) (shown p) (rest.flatMap shown) :=
    Text.parted_of_not_mem (h p hp ▸ hp)
  cases hf with
  | text hs => exact hplain hs
  | name hs => exact hplain hs
  | number => exact hplain (sigil.not_mem_word (Cypher.isWord_toString _))
  | quoted ht hrest => exact (h.barrier_text ht hrest.not_mem).parted hname _
  | bound hrest =>
    obtain ⟨next, hstep, hnext⟩ := Option.bind_eq_some_iff.mp hthrough
    obtain rfl : next = .named := by
      cases position <;> cases hstep
      rfl
    exact (h.barrier_of_named hrest hnext).parted hname _

/-- A binding is written out piece by piece. -/
theorem overwrite_flatMap (h : Faithful sigil shown) {f : Fragment}
    (hf : Fragment.Fenced sigil f) {position last : Position}
    (hthrough : Position.through sigil position f = some last) {b : String × Value}
    (hname : IsSafeName b.1) : Draft.overwrite sigil (f.flatMap shown) b =
      f.flatMap fun p => Draft.overwrite sigil (shown p) b := by
  induction f generalizing position with
  | nil => rfl
  | cons p rest ih =>
    have hparted := h.parted hf hthrough hname
    rw [← List.singleton_append, Fragment.through_append] at hthrough
    obtain ⟨next, -, hnext⟩ := Option.bind_eq_some_iff.mp hthrough
    have hrest := ih hf.tail hnext
    rw [Draft.overwrite] at hrest ⊢
    rw [List.flatMap_cons, List.flatMap_cons, Text.replaceFrom_append hparted (Nat.zero_le _), hrest]
    rfl

/-- Binding by binding, every piece is written out by itself. -/
theorem foldl_overwrite (h : Faithful sigil shown) {f : Fragment} (hf : Fragment.Fenced sigil f)
    {position last : Position} (hthrough : Position.through sigil position f = some last)
    {bindings : List (String × Value)} (hnames : ∀ b ∈ bindings, IsSafeName b.1) :
    bindings.foldl (Draft.overwrite sigil) (f.flatMap shown) =
      f.flatMap fun p => bindings.foldl (Draft.overwrite sigil) (shown p) := by
  induction bindings generalizing shown with
  | nil => rfl
  | cons b rest ih =>
    rw [List.forall_mem_cons] at hnames
    rw [List.foldl_cons, h.overwrite_flatMap hf hthrough hnames.1]
    exact ih (h.overwrite b) hnames.2

end Faithful

/-- A statement is written out piece by piece. -/
theorem Draft.IsPlaced.writeOut_text {d : Draft} (h : d.IsPlaced d.sigil)
    {bindings : List (String × Value)} (hnames : ∀ b ∈ bindings, IsSafeName b.1) :
    Draft.writeOut d.sigil bindings d.text =
      String.join (d.pieces.map fun p => Draft.writeOut d.sigil bindings (p.render d.sigil)) := by
  obtain ⟨last, hlast, -⟩ := h.through
  have htext : d.text.toList = d.pieces.flatMap fun p => (p.render d.sigil).toList := by
    rw [Draft.text, Fragment.render, String.toList_join, List.flatMap_map]
  rw [← String.toList_inj, Draft.toList_writeOut, htext,
    (Faithful.render d.sigil).foldl_overwrite h.fenced hlast hnames, String.toList_join,
    List.flatMap_map]
  simp only [Draft.toList_writeOut]

/-! ## Placeholders -/

namespace Draft

/-- A placeholder has no other placeholder in it that is at least as long. -/
theorem eq_of_within {sigil : Sigil} {name key : String}
    (hsize : key.utf8ByteSize ≤ name.utf8ByteSize)
    (h : sigil.char :: name.toList <:+: sigil.char :: key.toList) : name = key := by
  obtain ⟨before, after, hsplit⟩ := h
  have htext : String.ofList before ++ (sigil.char.toString ++ name) ++ String.ofList after =
      sigil.char.toString ++ key := by
    rw [← String.toList_inj]
    simpa using hsplit
  have hbytes := congrArg String.utf8ByteSize htext
  simp only [String.utf8ByteSize_append] at hbytes
  have hbefore : String.ofList before = "" := String.utf8ByteSize_eq_zero_iff.mp (by omega)
  have hafter : String.ofList after = "" := String.utf8ByteSize_eq_zero_iff.mp (by omega)
  rw [hbefore, hafter, String.empty_append, String.append_empty] at htext
  exact (String.append_right_inj _).mp htext

/-- In a form that can be evaluated. -/
theorem longestFirst_eq (bindings : Dictionary Value) : longestFirst bindings =
    bindings.insertionSort fun a b => b.1.utf8ByteSize ≤ a.1.utf8ByteSize :=
  Sorting.mergeSort_eq_insertionSort (fun _ _ _ hab hbc => hbc.trans hab)
    (fun _ _ => Nat.le_total ..) _

/-- The bindings before a name are of other names, which are at least as long. -/
theorem exists_split_longestFirst {bindings : Dictionary Value} (hnodup : bindings.keys.Nodup)
    {name : String} {value : Value} (h : (name, value) ∈ bindings) :
    ∃ before after, longestFirst bindings = before ++ (name, value) :: after ∧
      ∀ b ∈ before, b.1 ≠ name ∧ name.utf8ByteSize ≤ b.1.utf8ByteSize := by
  have hperm : (longestFirst bindings).Perm bindings := List.mergeSort_perm ..
  have hsorted : (longestFirst bindings).Pairwise fun a b =>
      decide (b.1.utf8ByteSize ≤ a.1.utf8ByteSize) = true := by
    refine List.pairwise_mergeSort (fun a b c => ?_) (fun a b => ?_) bindings
    · simp only [decide_eq_true_eq]
      omega
    · simp only [Bool.or_eq_true, decide_eq_true_eq]
      omega
  obtain ⟨before, after, hsplit⟩ := List.append_of_mem (hperm.mem_iff.mpr h)
  refine ⟨before, after, hsplit, fun b hb => ⟨?_, ?_⟩⟩
  · have hnames := (hperm.map Prod.fst).nodup_iff.mpr hnodup
    rw [hsplit, List.map_append, List.map_cons, List.nodup_append] at hnames
    exact hnames.2.2 b.1 (List.mem_map_of_mem hb) name List.mem_cons_self
  · rw [hsplit, List.pairwise_append] at hsorted
    exact of_decide_eq_true (hsorted.2.2 b hb _ List.mem_cons_self)

/-- A placeholder turns into its value, and what is written out later may change that value. -/
theorem writeOut_placeholder {sigil : Sigil} {before after : List (String × Value)} {name : String}
    {value : Value} (hbefore : ∀ b ∈ before, b.1 ≠ name ∧ name.utf8ByteSize ≤ b.1.utf8ByteSize) :
    writeOut sigil (before ++ (name, value) :: after) (sigil.char.toString ++ name) =
      writeOut sigil after (written name value) := by
  have hspares : Spares sigil (before.map Prod.fst) (sigil.char.toString ++ name) := by
    intro other hother hwithin
    obtain ⟨b, hb, rfl⟩ := List.mem_map.mp hother
    refine (hbefore b hb).1 (@eq_of_within sigil _ _ (hbefore b hb).2 ?_)
    simpa using hwithin
  have hown : writeOut sigil [(name, value)] (sigil.char.toString ++ name) =
      written name value := by
    rw [← String.toList_inj, toList_writeOut]
    simpa [overwrite] using Text.replaceFrom_self (List.cons_ne_nil _ _)
  rw [writeOut_append, writeOut_of_spares hspares, ← List.singleton_append, writeOut_append, hown]

end Draft

/-! ## Statements -/

/-- What replaces a piece if all placeholders are replaced at once, and nothing else is. -/
def Piece.inlined (sigil : Sigil) : Piece → String
  | .bound key value => Draft.written (Text.safe key) value
  | p => p.render sigil

namespace Draft

/-- What debug text shows for a piece of a statement. -/
def shown (d : Draft) (p : Piece) : String :=
  writeOut d.sigil (longestFirst d.bindings) (p.render d.sigil)

/-- Debug text as the texts of a statement's pieces. -/
structure ShownByPieces (d : Draft) : Prop where
  pieces : d.debugText = String.join (d.pieces.map d.shown)
  /-- Texts and numbers are shown as they are, and so are names that spare the placeholders. -/
  plain : ∀ p ∈ d.pieces, (∀ key value, p ≠ .bound key value) →
    (∀ name, p = .name name → Spares d.sigil d.bindings.keys (Text.safe name)) →
    d.shown p = p.render d.sigil
  /-- A placeholder is replaced by its own value. In that, only the shorter names and those of the
  same length that come later are written out once more. -/
  placeholder : ∀ key value, .bound key value ∈ d.pieces →
    d.bindings.get? (Text.safe key) = some value ∧
      ∃ before after, longestFirst d.bindings = before ++ (Text.safe key, value) :: after ∧
        d.shown (.bound key value) = writeOut d.sigil after (written (Text.safe key) value)
  /-- All placeholders are replaced at once if neither a name of the client's nor a value reads like
  a placeholder of a name that is still to be written out. No name has a dollar sign. -/
  inlined : (d.sigil = .atSign → ∀ name, .name name ∈ d.pieces →
      Spares d.sigil d.bindings.keys (Text.safe name)) →
    ((longestFirst d.bindings).Pairwise fun b c => Spares d.sigil [c.1] (written b.1 b.2)) →
    d.debugText = String.join (d.pieces.map (Piece.inlined d.sigil))

variable {d : Draft}

theorem shown_of_spares {p : Piece} (h : Spares d.sigil d.bindings.keys (p.render d.sigil)) :
    d.shown p = p.render d.sigil := by
  refine writeOut_of_spares fun name hname => h name ?_
  exact ((List.mergeSort_perm ..).map Prod.fst).mem_iff.mp hname

/-- A piece that is no placeholder shows itself when its names are spared. -/
theorem shown_plain (hfenced : Fragment.Fenced d.sigil d.pieces) {p : Piece} (hp : p ∈ d.pieces)
    (hplain : ∀ key value, p ≠ .bound key value)
    (hnames : ∀ name, p = .name name → Spares d.sigil d.bindings.keys (Text.safe name)) :
    d.shown p = p.render d.sigil := by
  refine shown_of_spares ?_
  cases p with
  | text s => exact spares_of_not_mem (hfenced.not_mem_of_mem hp) _
  | name s => exact hnames s rfl
  | number n => exact spares_of_not_mem (d.sigil.not_mem_word (Cypher.isWord_toString n)) _
  | bound key value => exact absurd rfl (hplain key value)

/-- A placeholder shows its value, with the shorter names written out in it. -/
theorem shown_placeholder (hordered : d.bindings.Ordered) {key : String} {value : Value}
    (hget : d.bindings.get? (Text.safe key) = some value) :
    ∃ before after, longestFirst d.bindings = before ++ (Text.safe key, value) :: after ∧
      d.shown (.bound key value) = writeOut d.sigil after (written (Text.safe key) value) := by
  obtain ⟨before, after, hsplit, hbefore⟩ :=
    exists_split_longestFirst hordered.nodup ((Dictionary.mem_iff_get? hordered).mpr hget)
  refine ⟨before, after, hsplit, ?_⟩
  rw [shown, hsplit, Piece.render, Sigil.placeholder, writeOut_placeholder hbefore]

theorem shownByPieces (hplaced : d.IsPlaced d.sigil)
    (hnames : ∀ key ∈ d.bindings.keys, IsSafeName key) (hordered : d.bindings.Ordered)
    (hbound : ∀ key value, .bound key value ∈ d.pieces →
      d.bindings.get? (Text.safe key) = some value) : d.ShownByPieces := by
  have hpieces : d.debugText = String.join (d.pieces.map d.shown) := by
    refine hplaced.writeOut_text fun b hb => hnames b.1 (List.mem_map_of_mem ?_)
    exact (List.mergeSort_perm ..).mem_iff.mp hb
  refine ⟨hpieces, fun p hp => shown_plain hplaced.fenced hp, fun key value hp => ?_,
    fun hspared hvalues => ?_⟩
  · exact ⟨hbound key value hp, shown_placeholder hordered (hbound key value hp)⟩
  · rw [hpieces]
    refine congrArg String.join (List.map_congr_left fun p hp => ?_)
    cases p with
    | bound key value =>
      obtain ⟨before, after, hsplit, hshown⟩ := shown_placeholder hordered (hbound key value hp)
      rw [hsplit, List.pairwise_append, List.pairwise_cons] at hvalues
      have hafter : Spares d.sigil (after.map Prod.fst) (written (Text.safe key) value) :=
        List.forall_mem_map.mpr fun c hc => hvalues.2.1.1 c hc c.1 (List.mem_singleton_self _)
      rw [hshown, writeOut_of_spares hafter, Piece.inlined]
    | text s | number n =>
      exact shown_plain hplaced.fenced hp (by simp) (by simp)
    | name s =>
      refine shown_of_spares ?_
      cases hsigil : d.sigil with
      | atSign => exact hsigil ▸ hspared hsigil s hp
      | dollar =>
        refine spares_of_not_mem (fun hdollar => ?_) _
        exact absurd (isSafeName_safe s _ hdollar) (by decide)

end Draft

namespace Script.Placed

variable {sigil : Sigil} {Q : String → Value → Prop} {script : Script}

theorem shownByPieces (h : Script.Placed sigil Q script)
    (hsafe : ∀ key value, Q key value → Text.safe key = key)
    (hunique : ∀ key value other, Q key value → Q key other → value = other) :
    ((Draft.empty sigil).runAll script).ShownByPieces := by
  have hsigil : ((Draft.empty sigil).runAll script).sigil = sigil := Draft.sigil_runAll script _
  refine Draft.shownByPieces ?_ (fun name hname => ?_) ?_ fun key value hp => ?_
  · rw [hsigil]
    exact (Draft.IsPlaced.empty sigil).runAll h
  · obtain ⟨entry, hentry, rfl⟩ := List.mem_map.mp ((Draft.mem_keys_bindings _ _ _).mp hname)
    obtain ⟨key, hkey, -⟩ := Script.exists_of_mem_entries h.fits hentry
    exact hkey ▸ isSafeName_safe key
  · rw [Draft.bindings_runAll]
    exact Dictionary.ordered_ofEntries _
  · have hpieces : Fragment.entries ((Draft.empty sigil).runAll script).pieces =
        Script.entries script := Draft.entries_runAll _ script
    have hentry : (Text.safe key, value) ∈ Script.entries script :=
      hpieces ▸ List.mem_filterMap.mpr ⟨_, hp, rfl⟩
    exact (h.fits.get?_bindings hsafe hunique sigil hentry).1

end Script.Placed

/-- Debug text is not the text with all placeholders replaced at once. It shows the pieces of a
statement one by one, each with every binding written out in it, the longest name first. So no
placeholder is taken for another one that it begins with or is a beginning of; but a name of the
client's or a value that reads like a placeholder is written over, if that name is still to come. -/
theorem Compiled.shown_by_pieces {q : Query} {spec : Specification} (h : q.interpret = .ok spec)
    (dialect : Dialect) (r : Request) :
    ∀ s ∈ (spec.compile dialect r).statements, s.draft.ShownByPieces := by
  intro s hs
  have hplan := Plan.NamesApart.build h r
  -- the plan that counts has the same properties and conditions
  obtain ⟨plan, hapart, rfl⟩ : ∃ plan : Plan, plan.NamesApart ∧
      s = .ofPlan dialect r.memory plan := by
    rcases statements_cases hs with hs | hs
    · exact ⟨_, hplan, hs⟩
    · exact ⟨(Plan.build spec r).asCount, ⟨hplan.indices, hplan.names, hplan.safe, hplan.ends⟩, hs⟩
  exact (dialect.placed_script plan).shownByPieces (fun _ _ hQ => hQ.safe hapart.safe)
    fun _ _ _ hQ hother => hQ.unique hapart hother

/-- A request whose expression reads like a placeholder of AQL. -/
def Request.searchingSigil : Request :=
  { Request.ofStage .released with filterValues := [("q", "@typeId")] }

/-- In AQL the expression is written over; in Cypher it is not. -/
theorem Compiled.shown_by_pieces_searched :
    let aql := (Specification.searched.compile .aql .searchingSigil).statement.draft
    let cypher := (Specification.searched.compile .cypher .searchingSigil).statement.draft
    let p := Piece.bound "q_staticFilter0" (.string "@typeId")
    Query.searched.interpret = .ok .searched ∧
      (p ∈ aql.pieces ∧ aql.debugText = String.join (aql.pieces.map aql.shown) ∧
        aql.shown p = "\"\"Paper\"\"" ∧ p.inlined .atSign = "\"@typeId\"") ∧
      cypher.debugText = String.join (cypher.pieces.map (Piece.inlined .dollar)) := by
  intro aql cypher p
  have hspec : Query.searched.interpret = .ok .searched := rfl
  have haql := shown_by_pieces hspec .aql .searchingSigil _ (.head _)
  have hcypher := shown_by_pieces hspec .cypher .searchingSigil _ (.head _)
  have hmem : p ∈ aql.pieces := by
    have hpiece : aql.pieces[24]? = some p := rfl
    exact List.mem_of_getElem? hpiece
  have hshown : aql.shown p = "\"\"Paper\"\"" := by
    rw [Draft.shown, Draft.longestFirst_eq]
    decide +kernel
  have hspared : (Draft.longestFirst cypher.bindings).Pairwise fun b c =>
      Draft.Spares .dollar [c.1] (Draft.written b.1 b.2) := by
    rw [Draft.longestFirst_eq]
    decide +kernel
  exact ⟨hspec, ⟨hmem, haql.pieces, hshown, by decide +kernel⟩, hcypher.inlined nofun hspared⟩

end GraphQuery
