import GraphQuery.Proofs.Completeness

/-!
# GraphQuery.Proofs.Restrictions — scopes that leave out instances

1. **Truthful queries** report stored instances with all their types. Then excludability is a matter
   of ids.
2. **Rows** under restrictions report what they report otherwise, but for ids of excludable
   instances: their dependencies move up.
3. **Reach** of an instance: the ids that are reported for it, for these, and so on. The tree of a
   scope holds what its instance reaches, if whatever is reported below an instance is reported for
   that instance, too.
4. **Scopes** with and without restrictions.
5. **The study** without its patient.
-/

namespace GraphQuery

open Json Element

namespace ScopeRun

/-! ## Truthful queries -/

/-- The row reports a stored document, with all its types, and with its space or none. -/
structure Tells (data : StageData) (row : Row) (doc : Document) : Prop where
  stored : data.get? doc.id = some doc
  id : row.reportedId? = some doc.id
  types : row.typeList = doc.types
  space : ∀ space, (row.value "space").asString? = some space → space = doc.space

/-- All rows that the queries of a stored document give for it, and all rows in these, report stored
documents as they are. -/
def Truthful (c : ScopeRun) : Prop :=
  ∀ doc, (c.store.data c.stage).get? doc.id = some doc → ∀ q ∈ c.queriesFor doc.types, ∀ rows,
    c.rowsOn ⟨doc.id, doc.space⟩ q = .ok rows → ∀ row ∈ rows, ∀ nested, row.Holds nested →
      ∃ x, Tells (c.store.data c.stage) nested x

/-- The stored document with the id has an excludable type. -/
def Excludes (c : ScopeRun) (u : Uuid) : Bool :=
  ((c.store.data c.stage).get? u).any fun doc => doc.types.any c.store.isExcludable

/-- The element is known from a stored document: it has all types of the document, and its space or
none. -/
def Known (c : ScopeRun) (e : Element) : Prop :=
  ∃ doc, (c.store.data c.stage).get? e.id = some doc ∧ e.types = doc.types ∧
    (e.space = none ∨ e.space = some doc.space)

variable {c : ScopeRun}

theorem Known.ofOwnData : OfOwnData c.Known := by
  rintro a b hbare ⟨doc, hdoc, htypes, hspace⟩
  have halike : a.Alike b := .of_bare hbare
  exact ⟨doc, halike.id ▸ hdoc, halike.types ▸ htypes, halike.space ▸ hspace⟩

/-- Types that are there are not added. -/
theorem foldl_types {ts bs : List String} (h : ∀ b ∈ bs, b ∈ ts) :
    bs.foldl (fun ts t => if ts.contains t then ts else ts ++ [t]) ts = ts := by
  induction bs with
  | nil => rfl
  | cons b rest ih =>
    rw [List.foldl_cons, if_pos (List.contains_iff_mem.mpr (h b (.head _)))]
    exact ih fun b hb => h b (.tail _ hb)

/-- Two known elements of one instance merge into a known one. -/
theorem Known.merge {a b : Element} (hid : a.id = b.id) (ha : c.Known a) (hb : c.Known b) :
    c.Known (a.merge b) := by
  rcases ha with ⟨doc, hdoc, htypes, hspace⟩
  rcases hb with ⟨doc', hdoc', htypes', hspace'⟩
  rw [← hid, hdoc] at hdoc'
  cases hdoc'
  have hbare := bare_addChildren
    { a with
      types := b.types.foldl (fun ts t => if ts.contains t then ts else ts ++ [t]) a.types
      label := a.label.or b.label
      reference := a.reference.or b.reference
      space := a.space.or b.space } b.childList
  refine Known.ofOwnData _ _ hbare.symm ⟨doc, hdoc, ?_, ?_⟩
  · rw [htypes']
    change doc.types.foldl _ a.types = doc.types
    rw [htypes]
    exact foldl_types fun _ h => h
  · change a.space.or b.space = none ∨ a.space.or b.space = some doc.space
    rcases hspace with h | h <;> rcases hspace' with h' | h' <;> simp [h, h']

/-- A known element stands for a stored document. -/
theorem Known.exists_stored {e : Element} (h : c.Known e) :
    ∃ doc, (c.store.data c.stage).get? e.id = some doc ∧ e.id = doc.id := by
  rcases h with ⟨doc, hdoc, -⟩
  exact ⟨doc, hdoc, (StageData.id_of_get? hdoc).symm⟩

/-- A known element has the types and the space of its document. -/
theorem Known.eq_of_stored {e : Element} {doc : Document} (h : c.Known e)
    (hdoc : (c.store.data c.stage).get? e.id = some doc) :
    e.id = doc.id ∧ e.types = doc.types ∧ c.spaceOf e = some doc.space := by
  rcases h with ⟨doc', hdoc', htypes, hspace⟩
  rw [hdoc] at hdoc'
  cases hdoc'
  refine ⟨(StageData.id_of_get? hdoc).symm, htypes, ?_⟩
  unfold spaceOf
  rw [hdoc]
  rcases hspace with h | h <;> rw [h] <;> rfl

/-- Queries that run for a known element are those that run for its document. -/
theorem reports_of_known {e : Element} {doc : Document} (h : c.Known e)
    (hdoc : (c.store.data c.stage).get? e.id = some doc) {above : List Uuid} {u : Uuid} :
    c.Reports e above u ↔ c.Reports (summary doc) above u := by
  rcases h.eq_of_stored hdoc with ⟨hid, htypes, hspace⟩
  unfold Reports Answers
  rw [hspace, htypes, hid]
  rfl

/-- What is found at a known element is what is found at its document. -/
theorem found_of_known {e : Element} {doc : Document} (h : c.Known e)
    (hdoc : (c.store.data c.stage).get? e.id = some doc) : c.found e = c.found (summary doc) := by
  rcases h.eq_of_stored hdoc with ⟨hid, htypes, hspace⟩
  unfold found
  rw [hspace, htypes, hid]
  rfl

/-- A row that tells of a document reports no other. -/
theorem Tells.eq_id {row : Row} {doc : Document} (h : Tells (c.store.data c.stage) row doc)
    {u : Uuid} (hid : row.reportedId? = some u) : u = doc.id :=
  Option.some.inj (hid.symm.trans h.id)

/-- The element of such a row is known. -/
theorem Tells.known {row : Row} {doc : Document} (h : Tells (c.store.data c.stage) row doc)
    {e : Element} (hbare : e.bare = row.element doc.id) : c.Known e := by
  have halike : (row.element doc.id).Alike e := .of_bare hbare.symm
  refine Known.ofOwnData (row.element doc.id) e hbare.symm ⟨doc, h.stored, h.types, ?_⟩
  cases hspace : (row.value "space").asString? with
  | none => exact .inl hspace
  | some space => exact .inr (h.space space hspace ▸ hspace)

/-- What is found for a stored document is known. -/
theorem Truthful.known_of_found (h : c.Truthful) {doc : Document}
    (hdoc : (c.store.data c.stage).get? doc.id = some doc) {es : List Element}
    (hfound : c.found (summary doc) = .ok es) : ∀ x ∈ subtrees es, c.Known x := by
  rcases found_cases hfound with ⟨-, rfl⟩ | ⟨space, merged, hspace, hreported, rfl⟩
  · intro x hx
    cases hx
  · cases hspace
    have hmerged : ∀ x ∈ subtrees merged, c.Known x := by
      rcases rows_of_reportedOn hreported with ⟨rows, hrows, rfl⟩
      apply forall_mem_mergeSameLevel Known.ofOwnData fun _ _ => Known.merge
      intro x hx
      rcases mem_subtrees_flatMap.mp hx with ⟨row, hrow, hx⟩
      rcases (hrows row).mp hrow with ⟨q, hq, answer, hrun, hanswer⟩
      rcases RowReading.exists_row_of_mem hx with ⟨nested, hholds, id, hid, hbare⟩
      rcases h doc hdoc q hq answer hrun row hanswer nested hholds with ⟨d, htells⟩
      obtain rfl := htells.eq_id hid
      exact htells.known hbare
    intro x hx
    rcases mem_subtrees_flatMap.mp hx with ⟨d, hd, hx⟩
    have hd := mem_subtrees_of_mem (List.mem_filter.mp hd).1
    exact hmerged x (mem_subtrees_childList hd hx)

/-! ## Rows -/

/-- The same computation, with or without restrictions. -/
def withRestrictions (c : ScopeRun) (restrictions : Bool) : ScopeRun :=
  { c with options := { c.options with restrictions } }

/-- Such a row is left out exactly when its instance is excludable. -/
theorem Tells.excludes {row : Row} {doc : Document} (h : Tells (c.store.data c.stage) row doc) :
    c.Excludes doc.id = row.typeList.any c.store.isExcludable := by
  rw [Excludes, h.stored, h.types]
  rfl

/-- Under restrictions, and only there, a row is left out if its instance is excludable. -/
theorem Tells.isLeftOut {row : Row} {doc : Document} (h : Tells (c.store.data c.stage) row doc)
    (types : List String) (restrictions : Bool) :
    ((c.withRestrictions restrictions).reading types).isLeftOut row.typeList =
      (restrictions && c.Excludes doc.id) := by
  rw [h.excludes]
  rfl

/-- Under restrictions, a row reports what it reports otherwise, but for excludable instances, and
their ids do not stand over anything. -/
theorem reports_restricted_iff {row : Row}
    (hrows : ∀ nested, row.Holds nested → ∃ x, Tells (c.store.data c.stage) nested x)
    {types : List String} {above : List Uuid} {u : Uuid} :
    ((c.withRestrictions true).reading types).Reports row above u ↔
      c.Excludes u = false ∧ ∃ full, ((c.withRestrictions false).reading types).Reports row full u ∧
        above = full.filter fun v => !c.Excludes v := by
  constructor
  · intro h
    induction h with
    | @here row nested u hnested hadmits hleft hid =>
      rcases hrows nested (.inside hnested .self) with ⟨x, htells⟩
      rw [htells.isLeftOut, Bool.true_and] at hleft
      obtain rfl := htells.eq_id hid
      exact ⟨hleft, [], .here hnested ⟨hadmits.embedded, hadmits.types⟩ rfl hid, rfl⟩
    | @deeper row nested v u above hnested hadmits hleft hid _ ih =>
      rcases hrows nested (.inside hnested .self) with ⟨x, htells⟩
      rw [htells.isLeftOut, Bool.true_and] at hleft
      obtain rfl := htells.eq_id hid
      rcases ih fun y hy => hrows y (.inside hnested hy) with ⟨hu, full, hfull, rfl⟩
      refine ⟨hu, x.id :: full,
        .deeper hnested ⟨hadmits.embedded, hadmits.types⟩ rfl hid hfull, ?_⟩
      rw [List.filter_cons_of_pos (by simp [hleft])]
    | @hoisted row nested u above hnested hadmits hleft _ ih =>
      rcases hrows nested (.inside hnested .self) with ⟨x, htells⟩
      rw [htells.isLeftOut, Bool.true_and] at hleft
      rcases ih fun y hy => hrows y (.inside hnested hy) with ⟨hu, full, hfull, rfl⟩
      refine ⟨hu, x.id :: full,
        .deeper hnested ⟨hadmits.embedded, hadmits.types⟩ rfl htells.id hfull, ?_⟩
      rw [List.filter_cons_of_neg (by simp [hleft])]
  · rintro ⟨hu, full, h, rfl⟩
    induction h with
    | @here row nested u hnested hadmits _ hid =>
      rcases hrows nested (.inside hnested .self) with ⟨x, htells⟩
      obtain rfl := htells.eq_id hid
      exact .here hnested ⟨hadmits.embedded, hadmits.types⟩ ((htells.isLeftOut types true).trans hu)
        hid
    | @deeper row nested v u above hnested hadmits _ hid _ ih =>
      rcases hrows nested (.inside hnested .self) with ⟨x, htells⟩
      obtain rfl := htells.eq_id hid
      have hbelow := ih (fun y hy => hrows y (.inside hnested hy)) hu
      have hadmits' : ((c.withRestrictions true).reading types).Admits nested :=
        ⟨hadmits.embedded, hadmits.types⟩
      have hleft := htells.isLeftOut types true
      -- an excludable instance stands over nothing any more
      cases hx : c.Excludes x.id with
      | true =>
        rw [List.filter_cons_of_neg (by simp [hx])]
        exact .hoisted hnested hadmits' (hleft.trans hx) hbelow
      | false =>
        rw [List.filter_cons_of_pos (by simp [hx])]
        exact .deeper hnested hadmits' (hleft.trans hx) hid hbelow
    | hoisted _ _ hleft _ _ => cases hleft

/-- Under restrictions, the queries of an instance that is not excludable report what they report
otherwise, but for excludable instances. -/
theorem Truthful.reports_restricted_iff (h : c.Truthful) {doc : Document}
    (hdoc : (c.store.data c.stage).get? doc.id = some doc) (hkept : c.Excludes doc.id = false)
    {above : List Uuid} {u : Uuid} :
    (c.withRestrictions true).Reports (summary doc) above u ↔
      c.Excludes u = false ∧ ∃ full, (c.withRestrictions false).Reports (summary doc) full u ∧
        above = full.filter fun v => !c.Excludes v := by
  have hrows (row : Row) (hanswers : c.Answers (summary doc) row) :
      (∀ nested, row.Holds nested → ∃ x, Tells (c.store.data c.stage) nested x) ∧
        row.typeList.any c.store.isExcludable = false := by
    rcases hanswers with ⟨space, hspace, q, hq, rows, hrun, hrow, hid⟩
    cases hspace
    have htells := h doc hdoc q hq rows hrun row hrow
    rcases htells row .self with ⟨x, hx⟩
    have hxid : doc.id = x.id := hx.eq_id hid
    exact ⟨htells, by rw [← hx.excludes, ← hxid, hkept]⟩
  constructor
  · rintro ⟨row, hanswers, hembedded, -, hreports⟩
    rcases hrows row hanswers with ⟨htells, -⟩
    rcases (ScopeRun.reports_restricted_iff htells).mp hreports with ⟨hu, full, hfull, habove⟩
    exact ⟨hu, full, ⟨row, hanswers, hembedded, rfl, hfull⟩, habove⟩
  · rintro ⟨hu, full, ⟨row, hanswers, hembedded, -, hfull⟩, habove⟩
    rcases hrows row hanswers with ⟨htells, hleft⟩
    exact ⟨row, hanswers, hembedded, hleft,
      (ScopeRun.reports_restricted_iff htells).mpr ⟨hu, full, hfull, habove⟩⟩

/-! ## Reach -/

/-- `c.Reaches doc u`: the id is that of the document, or it is reported for a stored document that
is reached. -/
inductive Reaches (c : ScopeRun) (doc : Document) : Uuid → Prop
  | start : Reaches c doc doc.id
  | report {d : Document} {above : List Uuid} {u : Uuid} : Reaches c doc d.id →
      (c.store.data c.stage).get? d.id = some d → c.Reports (summary d) above u → Reaches c doc u

/-- What is reported below an instance is reported for this instance, too. -/
def RepeatsBelow (c : ScopeRun) (doc : Document) : Prop :=
  ∀ d x, (c.store.data c.stage).get? d.id = some d → (c.store.data c.stage).get? x.id = some x →
    c.Reaches doc d.id → ∀ pre post u, c.Reports (summary d) (pre ++ x.id :: post) u →
      c.Reports (summary x) post u

section Trees

variable {doc : Document} {t₀ : Element} {last : List Uuid} (htruthful : c.Truthful)
  (hdoc : (c.store.data c.stage).get? doc.id = some doc)
  (hexpands : c.Expands [doc.id] [summary doc] [t₀] last)

include htruthful hdoc hexpands

/-- All elements in the tree are known, and reached from its root. -/
theorem known_and_reached : ∀ x ∈ subtrees [t₀], c.Known x ∧ c.Reaches doc x.id := by
  refine hexpands.forall_mem (P := fun x => c.Known x ∧ c.Reaches doc x.id) ?_ ?_ ?_
  · rintro a b hbare ⟨hknown, hreaches⟩
    have halike : a.Alike b := .of_bare hbare
    exact ⟨Known.ofOwnData a b hbare hknown, halike.id ▸ hreaches⟩
  · rintro e es ⟨hknown, hreaches⟩ hfound x hx
    rcases hknown.exists_stored with ⟨d, hd, hid⟩
    have hstored : (c.store.data c.stage).get? d.id = some d := hid ▸ hd
    rcases Place.mem_idsIn.mp (List.mem_map_of_mem hx) with ⟨above, hplace⟩
    have hreports := (reports_of_known hknown hd).mp ((place_found hfound).mp hplace)
    rw [found_of_known hknown hd] at hfound
    exact ⟨htruthful.known_of_found hstored hfound x hx,
      .report (hid ▸ hreaches) hstored hreports⟩
  · intro x hx
    have heq : x = summary doc := by simpa [summary, childList] using hx
    rw [heq]
    exact ⟨⟨doc, hdoc, rfl, .inr rfl⟩, .start⟩

/-- If everything is reported where it belongs, then all that is reported joins. -/
theorem mem_last_of_reports (hrepeats : c.RepeatsBelow doc) {e : Element} (he : e ∈ subtrees [t₀])
    {above : List Uuid} {u : Uuid} (hu : c.Reports e above u) : u ∈ last := by
  -- an id that stands below others is reported for the topmost of these, with fewer ids over it
  induction above generalizing e with
  | nil => exact mem_last_of_top hexpands he hu
  | cons v above ih =>
    rcases known_and_reached htruthful hdoc hexpands e he with ⟨hknown, hreaches⟩
    rcases hknown.exists_stored with ⟨d, hd, hid⟩
    have htop : c.Reports e [] v := .of_append hu
    have hv : v ∈ last := mem_last_of_top hexpands he htop
    rcases List.mem_map.mp (hexpands.perm_last.mem_iff.mpr hv) with ⟨a, ha, rfl⟩
    rcases known_and_reached htruthful hdoc hexpands a ha with ⟨haknown, -⟩
    rcases haknown.exists_stored with ⟨x, hx, haid⟩
    rw [reports_of_known hknown hd, haid] at hu
    have hbelow := hrepeats d x (hid ▸ hd) (haid ▸ hx) (hid ▸ hreaches) [] above u hu
    exact ih ha ((reports_of_known haknown hx).mpr hbelow)

/-- The tree of a document holds nothing but what the document reaches. -/
theorem reaches_of_mem_last {u : Uuid} (hu : u ∈ last) : c.Reaches doc u := by
  rcases List.mem_map.mp (hexpands.perm_last.mem_iff.mpr hu) with ⟨x, hx, rfl⟩
  exact (known_and_reached htruthful hdoc hexpands x hx).2

/-- If what is reported below an instance is reported for it too, the tree holds all of that. -/
theorem mem_last_of_reaches (hrepeats : c.RepeatsBelow doc) {u : Uuid} (h : c.Reaches doc u) :
    u ∈ last := by
  induction h with
  | start => exact hexpands.mem_last (List.mem_singleton_self _)
  | @report d above u _ hd hreports ih =>
    rcases List.mem_map.mp (hexpands.perm_last.mem_iff.mpr ih) with ⟨a, ha, haid⟩
    rcases known_and_reached htruthful hdoc hexpands a ha with ⟨haknown, -⟩
    exact mem_last_of_reports htruthful hdoc hexpands hrepeats ha
      ((reports_of_known haknown (haid ▸ hd)).mpr hreports)

end Trees

section Restricted

variable {doc : Document} (htruthful : c.Truthful) (hkept : c.Excludes doc.id = false)

include htruthful hkept

/-- Under restrictions, an instance reaches what it reaches otherwise, but nothing excludable. -/
theorem reaches_of_restricted {u : Uuid} (h : (c.withRestrictions true).Reaches doc u) :
    (c.withRestrictions false).Reaches doc u ∧ c.Excludes u = false := by
  induction h with
  | start => exact ⟨.start, hkept⟩
  | @report d above u _ hd hreports ih =>
    rcases (htruthful.reports_restricted_iff hd ih.2).mp hreports with ⟨hu, full, hfull, -⟩
    exact ⟨.report ih.1 hd hfull, hu⟩

/-- The restrictions leave what is reported below an instance where it is repeated. -/
theorem RepeatsBelow.restricted (h : (c.withRestrictions false).RepeatsBelow doc) :
    (c.withRestrictions true).RepeatsBelow doc := by
  intro d x hd hx hreaches pre post u hreports
  rcases reaches_of_restricted htruthful hkept hreaches with ⟨hreaches, hdkept⟩
  rcases (htruthful.reports_restricted_iff hd hdkept).mp hreports with ⟨hu, full, hfull, heq⟩
  -- the ids over the place, those of excludable instances among them
  rcases List.filter_eq_append_iff.mp heq.symm with ⟨front, back, rfl, -, hback⟩
  rcases List.filter_eq_cons_iff.mp hback with ⟨dropped, rest, rfl, -, hxkept, hrest⟩
  rw [← List.append_assoc] at hfull
  exact (htruthful.reports_restricted_iff hx (by simpa using hxkept)).mpr
    ⟨hu, rest, h d x hd hx hreaches _ _ _ hfull, hrest.symm⟩

end Restricted

/-- What an excludable instance reports for itself, the instances that report it report, too. -/
def CoversLeftOut (c : ScopeRun) (doc : Document) : Prop :=
  ∀ d x, (c.store.data c.stage).get? d.id = some d → (c.store.data c.stage).get? x.id = some x →
    c.Reaches doc d.id → c.Excludes d.id = false → c.Excludes x.id = true →
      ∀ above below u, c.Reports (summary d) above x.id → c.Reports (summary x) below u →
        ∃ other, c.Reports (summary d) other u

/-- Then nothing is out of reach that is reached through excludable instances: these are reported
for instances that are still reached. -/
theorem CoversLeftOut.reaches {doc : Document} (h : (c.withRestrictions false).CoversLeftOut doc)
    (htruthful : c.Truthful) (hkept : c.Excludes doc.id = false) {u : Uuid}
    (hu : (c.withRestrictions false).Reaches doc u) :
    (c.Excludes u = false → (c.withRestrictions true).Reaches doc u) ∧
      (c.Excludes u = true → ∃ d above, (c.store.data c.stage).get? d.id = some d ∧
        (c.withRestrictions true).Reaches doc d.id ∧
          (c.withRestrictions false).Reports (summary d) above u) := by
  -- what is reported for an instance that is still reached is reached, unless it is excludable
  have hstep {d : Document} {above : List Uuid} {u : Uuid}
      (hd : (c.store.data c.stage).get? d.id = some d)
      (hreaches : (c.withRestrictions true).Reaches doc d.id)
      (hreports : (c.withRestrictions false).Reports (summary d) above u)
      (hukept : c.Excludes u = false) : (c.withRestrictions true).Reaches doc u := by
    have hdkept := (reaches_of_restricted htruthful hkept hreaches).2
    exact .report hreaches hd
      ((htruthful.reports_restricted_iff hd hdkept).mpr ⟨hukept, above, hreports, rfl⟩)
  induction hu with
  | start => exact ⟨fun _ => .start, fun hleft => absurd hleft (by simp [hkept])⟩
  | @report d above u hdreaches hd hreports ih =>
    cases hdkept : c.Excludes d.id with
    | false =>
      have hreaches := ih.1 hdkept
      exact ⟨hstep hd hreaches hreports, fun _ => ⟨d, above, hd, hreaches, hreports⟩⟩
    | true =>
      rcases ih.2 hdkept with ⟨e, path, he, hereaches, habove⟩
      rcases reaches_of_restricted htruthful hkept hereaches with ⟨hefree, hekept⟩
      rcases h e d he hd hefree hekept hdkept path above u habove hreports with ⟨other, hother⟩
      exact ⟨hstep he hereaches hother, fun _ => ⟨e, other, he, hereaches, hother⟩⟩

end ScopeRun

/-! ## Scopes -/

namespace Store

open ScopeRun

/-- Restrictions leave out excludable instances. What an instance that stays reports is what it
reports otherwise, but for these: their dependencies move up. So the scope loses nothing else, if
what is reported below an instance is reported for it too, and what an excludable instance reports
for itself is reported for the instances that report it. -/
theorem mem_restricted_scope_iff {c : ScopeRun} {id : InstanceId} {doc : Document} {t t' : Element}
    (hdoc : (c.store.data c.stage).get? id.uuid = some doc)
    (hroot : doc.types.any c.store.isExcludable = false) (htruthful : c.Truthful)
    (h : (c.store.scope c.settings c.stage id { c.options with restrictions := false }).1 =
      .ok (some t))
    (h' : (c.store.scope c.settings c.stage id { c.options with restrictions := true }).1 =
      .ok (some t')) :
    (∀ u ∈ t'.ids, c.Excludes u = false) ∧
    (∀ d, (c.store.data c.stage).get? d.id = some d → c.Excludes d.id = false → ∀ above u,
      ((c.withRestrictions true).Reports (summary d) above u ↔
        c.Excludes u = false ∧ ∃ full, (c.withRestrictions false).Reports (summary d) full u ∧
          above = full.filter fun v => !c.Excludes v)) ∧
    ((c.withRestrictions false).RepeatsBelow doc → (c.withRestrictions false).CoversLeftOut doc →
      ∀ u, u ∈ t'.ids ↔ u ∈ t.ids ∧ c.Excludes u = false) := by
  have hid : doc.id = id.uuid := StageData.id_of_get? hdoc
  have hstored : (c.store.data c.stage).get? doc.id = some doc := hid.symm ▸ hdoc
  have hkept : c.Excludes doc.id = false := by
    rw [Excludes, hid, hdoc]
    exact hroot
  have hfree : (c.withRestrictions false).Truthful := htruthful
  have hrestricted : (c.withRestrictions true).Truthful := htruthful
  rcases expands_of_scope hdoc h with ⟨f, t₀, last, hexpands, hdressed⟩
  rcases expands_of_scope hdoc h' with ⟨f', t₀', last', hexpands', hdressed'⟩
  have hids := fun u => mem_ids_iff_mem_last (u := u) hexpands hdressed
  have hids' := fun u => mem_ids_iff_mem_last (u := u) hexpands' hdressed'
  -- what the restricted scope holds is reached without restrictions, too
  have hreached {u : Uuid} (hu : u ∈ t'.ids) :=
    reaches_of_restricted htruthful hkept
      (reaches_of_mem_last hrestricted hstored hexpands' ((hids' u).mp hu))
  refine ⟨fun u hu => (hreached hu).2,
    fun d hd hdkept above u => htruthful.reports_restricted_iff hd hdkept, ?_⟩
  intro hrepeats hcovers u
  constructor
  · intro hu
    rcases hreached hu with ⟨hreaches, hukept⟩
    exact ⟨(hids u).mpr (mem_last_of_reaches hfree hstored hexpands hrepeats hreaches), hukept⟩
  · rintro ⟨hu, hukept⟩
    have hreaches := reaches_of_mem_last hfree hstored hexpands ((hids u).mp hu)
    have hreaches' := (hcovers.reaches htruthful hkept hreaches).1 hukept
    exact (hids' u).mpr (mem_last_of_reaches hrestricted hstored hexpands'
      (hrepeats.restricted htruthful hkept) hreaches')

/-! ### The study -/

namespace Study

/-- Patients may be left out. Their samples are reported for the datasets, too. -/
def anonymous : Store :=
  { store data [scopeQuery "Dataset" [dependency "studies" [dependency "has" []]],
      scopeQuery "Patient" [dependency "has" []], scopeQuery "Sample" [dependency "has" []]] with
    excludable := ["Patient"] }

/-- Whether a row, and all rows in it down to a depth, report documents as they are. -/
def tells (data : StageData) : Nat → Row → Bool
  | 0, _ => false
  | depth + 1, row =>
    ((row.reportedId?.bind data.get?).any fun doc => row.typeList == doc.types &&
      (row.value "space").asString?.all (· == doc.space)) && row.dependencies.all (tells data depth)

/-- What is checked of a row to a depth holds of each row in it. -/
theorem tells_of_holds {data : StageData} {depth : Nat} {row nested : Row}
    (h : tells data depth row = true) (hholds : row.Holds nested) : ∃ x, Tells data nested x := by
  induction hholds generalizing depth with
  | @self row =>
    cases depth with
    | zero => cases h
    | succ depth =>
      have htells := (Bool.and_eq_true_iff.mp h).1
      cases hdoc : row.reportedId?.bind data.get? with
      | none =>
        rw [hdoc] at htells
        cases htells
      | some doc =>
        rw [hdoc] at htells
        rcases Option.bind_eq_some_iff.mp hdoc with ⟨u, hid, hget⟩
        rcases Bool.and_eq_true_iff.mp htells with ⟨htypes, hspace⟩
        have huuid := StageData.id_of_get? hget
        refine ⟨doc, huuid.symm ▸ hget, huuid.symm ▸ hid, eq_of_beq htypes, ?_⟩
        intro space hsome
        rw [hsome] at hspace
        exact eq_of_beq hspace
  | inside hnested _ ih =>
    cases depth with
    | zero => cases h
    | succ depth => exact ih (List.all_eq_true.mp (Bool.and_eq_true_iff.mp h).2 _ hnested)

/-- A store whose rows pass the check is truthful. -/
theorem truthful_of_tells {c : ScopeRun} (depth : Nat)
    (h : ((c.store.data c.stage).documents.all fun doc => (c.queriesFor doc.types).all fun q =>
      (c.rowsOn ⟨doc.id, doc.space⟩ q).toOption.all fun rows =>
        rows.all (tells (c.store.data c.stage) depth)) = true) : c.Truthful := by
  intro doc hdoc q hq rows hrows row hrow nested hholds
  have hmem := List.mem_reverse.mp (List.mem_of_find?_eq_some hdoc)
  have hall := List.all_eq_true.mp (List.all_eq_true.mp h doc hmem) q hq
  rw [hrows] at hall
  exact tells_of_holds (List.all_eq_true.mp hall row hrow) hholds

/-- What an instance reports is what its queries show. -/
theorem reports_iff_mem {c : ScopeRun} {doc : Document} {shown : List (List Uuid × Uuid)}
    (h : (c.found (summary doc)).toOption.map places = some shown) {above : List Uuid} {u : Uuid} :
    c.Reports (summary doc) above u ↔ (above, u) ∈ shown := by
  cases hfound : c.found (summary doc) with
  | error err =>
    rw [hfound] at h
    cases h
  | ok es =>
    rw [hfound] at h
    cases h
    rw [← place_found hfound, ← mem_places]

theorem reports_dataset {above : List Uuid} {u : Uuid} :
    (run anonymous false).Reports (summary dataset) above u ↔
      (above, u) ∈ [([], patient.id), ([patient.id], sample.id)] :=
  reports_iff_mem (by decide +kernel)

theorem reports_patient {above : List Uuid} {u : Uuid} :
    (run anonymous false).Reports (summary patient) above u ↔ (above, u) ∈ [([], sample.id)] :=
  reports_iff_mem (by decide +kernel)

theorem reports_sample {above : List Uuid} {u : Uuid} :
    (run anonymous false).Reports (summary sample) above u ↔ (above, u) ∈ [([], file.id)] :=
  reports_iff_mem (by decide +kernel)

theorem reports_file {above : List Uuid} {u : Uuid} :
    (run anonymous false).Reports (summary file) above u ↔ (above, u) ∈ [] :=
  reports_iff_mem (by decide +kernel)

theorem truthful_anonymous : (run anonymous false).Truthful :=
  truthful_of_tells 4 (by decide +kernel)

/-- The documents of the store. -/
theorem eq_of_stored {d : Document} (h : (anonymous.data .inProgress).get? d.id = some d) :
    d = dataset ∨ d = patient ∨ d = sample ∨ d = file := by
  have hmem : d ∈ data.documents := List.mem_reverse.mp (List.mem_of_find?_eq_some h)
  simpa [data] using hmem

theorem repeatsBelow_anonymous : (run anonymous false).RepeatsBelow dataset := by
  intro d x hd hx _ pre post u h
  rcases eq_of_stored hd with rfl | rfl | rfl | rfl
  · rw [reports_dataset] at h
    -- only the sample stands below another instance, and that is the patient
    have hsample : pre = [] ∧ x.id = patient.id ∧ post = [] ∧ u = sample.id := by
      rcases pre with _ | ⟨v, pre⟩
      · simpa [and_assoc] using h
      · simp at h
    rcases hsample with ⟨rfl, hid, rfl, rfl⟩
    rw [hid] at hx
    cases hx
    exact reports_patient.mpr (.head _)
  · rw [reports_patient] at h
    simp at h
  · rw [reports_sample] at h
    simp at h
  · rw [reports_file] at h
    simp at h

theorem coversLeftOut_anonymous : (run anonymous false).CoversLeftOut dataset := by
  intro d x hd hx _ hdkept hxleft above below u h hbelow
  have hpatient : x = patient := by
    rcases eq_of_stored hx with rfl | rfl | rfl | rfl
    · cases hxleft
    · rfl
    · cases hxleft
    · cases hxleft
  rw [hpatient, reports_patient] at hbelow
  have hu : below = [] ∧ u = sample.id := by simpa using hbelow
  rw [hpatient] at h
  rcases eq_of_stored hd with rfl | rfl | rfl | rfl
  · exact ⟨[patient.id], by rw [hu.2, reports_dataset]; simp⟩
  · cases hdkept
  · rw [reports_sample] at h
    simp [patient, file] at h
  · rw [reports_file] at h
    simp at h

end Study

open Study in
/-- The patient is left out of the study, with nothing else. -/
theorem mem_restricted_scope_anonymous : ∃ t t', Study.scope anonymous false = .ok (some t) ∧
    Study.scope anonymous true = .ok (some t') ∧
      t.subtree.map Element.id = [dataset.id, patient.id, sample.id, file.id] ∧
      t'.subtree.map Element.id = [dataset.id, sample.id, file.id] ∧
      (run anonymous false).Truthful ∧ (run anonymous false).RepeatsBelow dataset ∧
      (run anonymous false).CoversLeftOut dataset ∧
      ∀ u, u ∈ t'.ids ↔ u ∈ t.ids ∧ (run anonymous false).Excludes u = false := by
  have hids : (Study.scope anonymous false).toOption.join.map (·.subtree.map Element.id) =
      some [dataset.id, patient.id, sample.id, file.id] := by decide +kernel
  have hids' : (Study.scope anonymous true).toOption.join.map (·.subtree.map Element.id) =
      some [dataset.id, sample.id, file.id] := by decide +kernel
  rcases exists_of_tree hids with ⟨t, ht, hids⟩
  rcases exists_of_tree hids' with ⟨t', ht', hids'⟩
  rcases @mem_restricted_scope_iff (run anonymous false) ⟨dataset.id, dataset.space⟩ dataset t t'
    rfl rfl truthful_anonymous ht ht' with ⟨-, -, hiff⟩
  exact ⟨t, t', ht, ht', hids, hids', truthful_anonymous, repeatsBelow_anonymous,
    coversLeftOut_anonymous, hiff repeatsBelow_anonymous coversLeftOut_anonymous⟩

namespace Study

/-- Patients may be left out, and only the query for patients reports their samples. -/
def hidden : Store :=
  { store data [scopeQuery "Dataset" [dependency "studies" []],
      scopeQuery "Patient" [dependency "has" []]] with
    excludable := ["Patient"] }

end Study

/-- Without that query the samples are lost together with the patient. -/
example : (Study.scope Study.hidden false).toOption.join.map (·.subtree.map Element.id) =
      some [Study.dataset.id, Study.patient.id, Study.sample.id] ∧
    (Study.scope Study.hidden true).toOption.join.map (·.subtree.map Element.id) =
      some [Study.dataset.id] := by
  decide +kernel

end Store

end GraphQuery
