import GraphQuery.Proofs.Expansion

/-!
# GraphQuery.Proofs.Scopes — the tree of a scope

1. **Dressing**: own data of the root, and labels, that are added to a tree whose places stay.
2. **Trees** of documents are what their summaries expand to, dressed.
3. **Scopes** end, with a tree that holds every instance once, or with the failure of a query.
4. **A study** whose instances refer to each other in a ring.
-/

namespace GraphQuery

/-! ## Dressing -/

namespace Element

/-- To change nothing about each element is to change nothing. -/
theorem mapEach_self (es : List Element) : mapEach (fun e => e) es = es := by
  induction es using forest_induction with
  | nil => rfl
  | cons e rest below others =>
    rcases e with ⟨id, types, label, _ | children, reference, space⟩
    · rw [mapEach, mapAll, others]
    · change mapEach (fun e => e) children = children at below
      rw [mapEach, mapAll, below, others]

/-- Changes labels only. -/
def Labels (f : Element → Element) : Prop := ∀ e, f e = { e with label := (f e).label }

namespace Labels

variable {f : Element → Element} (hf : Labels f)

include hf

theorem children_eq (e : Element) : (f e).children = e.children := by
  rw [hf]

/-- Labels do not change what a query sees. -/
theorem alike (e : Element) : (e.mapAll f).Alike e := by
  have halike : (e.mapAll f).Alike (f e) := .of_bare (bare_mapAll e)
  rw [hf e] at halike
  exact ⟨halike.id, halike.types, halike.space⟩

theorem children_mapAll (e : Element) : (e.mapAll f).children = e.children.map (mapEach f) := by
  rcases e with ⟨id, types, label, _ | children, reference, space⟩
  · rw [mapAll, hf.children_eq]
    rfl
  · rfl

/-- What is below a labelled element is labelled. -/
theorem subtrees_childList_mapAll (e : Element) :
    subtrees (e.mapAll f).childList = (subtrees e.childList).map (mapAll f) := by
  rw [childList_mapAll hf.children_eq, subtrees_map hf.children_eq]

end Labels

/-- `Dressed f t₀ t`: the tree `t` is `t₀` with labels by `f`, and with other data of the root. -/
structure Dressed (f : Element → Element) (t₀ t : Element) : Prop where
  labels : Labels f
  id : t.id = t₀.id
  children : t.children = t₀.children.map (mapEach f)

namespace Dressed

variable {f : Element → Element} {t₀ t : Element} (h : Dressed f t₀ t)

include h

/-- What is below a dressed root is labelled. -/
theorem subtrees_childList : subtrees t.childList = (subtrees t₀.childList).map (mapAll f) := by
  have hlist : t.childList = t₀.childList.map (mapAll f) := by
    rw [← mapEach_eq, childList, childList, h.children]
    cases t₀.children <;> rfl
  rw [hlist, subtrees_map h.labels.children_eq]

/-- A dressed tree has the ids of the bare one. -/
theorem map_id_subtree : t.subtree.map Element.id = idsIn [t₀] := by
  have hid : Element.id ∘ mapAll f = Element.id := funext fun e => (h.labels.alike e).id
  rw [subtree_eq, List.map_cons, h.subtrees_childList, List.map_map, hid, h.id, idsIn_cons,
    idsIn_nil, List.append_nil]
  rfl

/-- A dressed tree is as tidy as the bare one. -/
theorem tidy (htidy : Tidy [t₀]) : ∀ x ∈ t.subtree, x.children ≠ some [] := by
  have hmap (e : Element) (he : e ∈ subtrees [t₀]) : e.children.map (mapEach f) ≠ some [] := by
    intro hnil
    rcases Option.map_eq_some_iff.mp hnil with ⟨children, hsome, hempty⟩
    rw [mapEach_eq, List.map_eq_nil_iff] at hempty
    exact htidy e he (hempty ▸ hsome)
  intro x hx
  rw [subtree_eq, List.mem_cons, h.subtrees_childList, List.mem_map] at hx
  rcases hx with rfl | ⟨e, he, rfl⟩
  · rw [h.children]
    exact hmap t₀ (by simp)
  · rw [h.labels.children_mapAll]
    exact hmap e (by simp [he])

end Dressed

end Element

/-! ## Trees -/

namespace ScopeRun

variable {c : ScopeRun} {doc : Document}

/-- What is found for the summary of a document are the children in the rows about it. -/
theorem found_summary (c : ScopeRun) (doc : Document) : c.found (summary doc) =
    (c.reportedOn ⟨doc.id, doc.space⟩ doc.types).map fun es =>
      (es.filter (·.id = doc.id)).flatMap Element.childList := by
  change (c.reportedOn ⟨doc.id, doc.space⟩ doc.types >>= fun es => _) = _
  cases c.reportedOn ⟨doc.id, doc.space⟩ doc.types <;> rfl

/-- A document's tree is the expansion of its summary, with the root's data from the queries. -/
theorem run_tree (doc : Document) :
    (∃ t₀ last t n, c.Expands [doc.id] [summary doc] [t₀] last ∧
      (c.tree doc).run ⟨[doc.id], []⟩ = (.ok t, ⟨last, n⟩) ∧
        t.id = doc.id ∧ t.children = t₀.children) ∨
    ∃ err p, c.Fails [doc.id] [summary doc] err ∧
      (c.tree doc).run ⟨[doc.id], []⟩ = (.error err, p) := by
  rcases c.reads_reported ⟨doc.id, doc.space⟩ doc.types ⟨[doc.id], []⟩ with ⟨n, hreads⟩
  have hfound := c.found_summary doc
  rw [tree, run_bind, hreads]
  cases hreported : c.reportedOn ⟨doc.id, doc.space⟩ doc.types with
  | error err =>
    rw [hreported] at hfound
    exact .inr ⟨err, _, .here hfound, rfl⟩
  | ok merged =>
    rw [hreported] at hfound
    change c.found (summary doc) = .ok ((merged.filter (·.id = doc.id)).flatMap Element.childList)
      at hfound
    dsimp only
    -- the children of the root are what is found for the document
    have hroot : ((merged.find? (·.id = doc.id)).getD (summary doc)).childList =
        (merged.filter (·.id = doc.id)).flatMap Element.childList := by
      rw [(level_reportedOn hreported).flatMap_childList_filter]
      cases merged.find? (·.id = doc.id) <;> rfl
    have hid : ((merged.find? (·.id = doc.id)).getD (summary doc)).id = doc.id := by
      cases hfind : merged.find? (·.id = doc.id) with
      | none => rfl
      | some e =>
        have hid := List.find?_some hfind
        exact of_decide_eq_true hid
    rw [run_bind, run_claim, hroot]
    dsimp only
    rw [run_bind]
    generalize (merged.filter (·.id = doc.id)).flatMap Element.childList = es at hfound
    have hjoined := Joined.of_claim (List.nodup_singleton doc.id) es
    rcases c.follows_expand _ _ ⟨(Element.claim [doc.id] es).2, n⟩ hjoined
      (card_unspent_le _ _) with ⟨below, last, m, hexpands, hrun⟩ | ⟨err, p, hfails, hrun⟩
    · rw [hrun]
      refine .inl ⟨_, last, _, m, .cons hfound hexpands .nil, rfl, hid, ?_⟩
      have hnil := hexpands.eq_nil_iff
      rcases hkept : (Element.claim [doc.id] es).1 with _ | ⟨kept, others⟩
      · rw [hnil.mpr hkept]
        rfl
      · rcases below with _ | ⟨first, rest⟩
        · rw [hnil.mp rfl] at hkept
          cases hkept
        · rfl
    · rw [hrun]
      exact .inr ⟨err, p, .inside hfound hfails, rfl⟩

/-- At the start, the document alone has joined. -/
theorem joined_summary (doc : Document) : Joined [doc.id] [summary doc] where
  nodup := List.nodup_singleton _
  ids := .refl _

/-- A summary has no children. -/
theorem tidy_summary (doc : Document) : Element.Tidy [summary doc] := by
  intro x hx
  have heq : x = summary doc := by simpa [summary, Element.childList] using hx
  rw [heq]
  intro h
  cases h

/-- The ids of a tree are those that have joined in the end. -/
theorem Expands.perm_last {last : List Uuid} {t₀ : Element}
    (h : c.Expands [doc.id] [summary doc] [t₀] last) : (Element.idsIn [t₀]).Perm last := by
  have hperm := h.ids_perm.trans List.perm_append_comm
  exact (List.perm_append_left_iff [doc.id]).mp hperm

/-- The id of the root does not stand below it. -/
theorem Expands.id_ne_root {last : List Uuid} {t₀ e : Element}
    (h : c.Expands [doc.id] [summary doc] [t₀] last) (he : e ∈ Element.subtrees t₀.childList) :
    e.id ≠ doc.id := by
  have hnodup := (joined_summary doc).nodup_result h
  have hroot : t₀.id = doc.id := congrArg Element.id h.bare_eq
  rw [Element.idsIn_cons, List.nodup_cons, hroot, Element.idsIn_nil, List.append_nil] at hnodup
  exact fun heq => hnodup.1 (heq ▸ List.mem_map_of_mem he)

/-- The element that queries run for: the root stands for the document as the store knows it, other
elements stand for themselves. -/
def subject (doc : Document) (e : Element) : Element := if e.id = doc.id then summary doc else e

theorem subject_id (doc : Document) (e : Element) : (subject doc e).id = e.id := by
  unfold subject
  split
  · rename_i h
    exact h.symm
  · rfl

/-- `Stands doc f e₀ e`: in a dressed tree, `e` stands where `e₀` stood, for the same queries. -/
structure Stands (doc : Document) (f : Element → Element) (e₀ e : Element) : Prop where
  alike : (subject doc e).Alike e₀
  below : Element.subtrees e.childList = (Element.subtrees e₀.childList).map (Element.mapAll f)

section Dressing

variable {f : Element → Element} {t₀ t : Element} {last : List Uuid}
  (hexpands : c.Expands [doc.id] [summary doc] [t₀] last) (hdressed : Element.Dressed f t₀ t)

include hexpands hdressed

/-- The root of a tree stands for the root that was expanded. -/
theorem stands_root : Stands doc f t₀ t := by
  have halike : t₀.Alike (summary doc) := .of_bare hexpands.bare_eq
  have hid : t.id = doc.id := hdressed.id.trans halike.id
  refine ⟨?_, hdressed.subtrees_childList⟩
  rw [subject, if_pos hid]
  exact halike.symm

/-- An element below it stands for itself without labels. -/
theorem stands_below {e : Element} (he : e ∈ Element.subtrees t₀.childList) :
    Stands doc f e (e.mapAll f) := by
  have halike := hdressed.labels.alike e
  refine ⟨?_, hdressed.labels.subtrees_childList_mapAll e⟩
  rw [subject, if_neg (halike.id ▸ hexpands.id_ne_root he)]
  exact halike

/-- Every element of the tree stands for one that was expanded. -/
theorem exists_stands_of_mem {e : Element} (he : e ∈ t.subtree) :
    ∃ e₀ ∈ t₀.subtree, Stands doc f e₀ e := by
  rw [Element.subtree_eq, List.mem_cons, hdressed.subtrees_childList, List.mem_map] at he
  rcases he with rfl | ⟨e₀, he₀, rfl⟩
  · exact ⟨t₀, Element.mem_subtree_self t₀, stands_root hexpands hdressed⟩
  · refine ⟨e₀, ?_, stands_below hexpands hdressed he₀⟩
    rw [Element.subtree_eq]
    exact .tail _ he₀

/-- Every element that was expanded is stood for. -/
theorem exists_stands_for_mem {e₀ : Element} (he : e₀ ∈ t₀.subtree) :
    ∃ e ∈ t.subtree, Stands doc f e₀ e := by
  rw [Element.subtree_eq, List.mem_cons] at he
  rcases he with rfl | he
  · exact ⟨t, Element.mem_subtree_self t, stands_root hexpands hdressed⟩
  · refine ⟨e₀.mapAll f, ?_, stands_below hexpands hdressed he⟩
    rw [Element.subtree_eq, hdressed.subtrees_childList]
    exact .tail _ (List.mem_map_of_mem he)

/-- The ids of a dressed tree are those that have joined in the end. -/
theorem mem_ids_iff_mem_last {u : Uuid} : u ∈ t.ids ↔ u ∈ last := by
  rw [Element.mem_ids, hdressed.map_id_subtree, hexpands.perm_last.mem_iff]

end Dressing

/-- A tree to which labels are added is dressed. -/
theorem dressed_addLabels (c : ScopeRun) {t₀ t : Element} (hid : t.id = t₀.id)
    (hchildren : t.children = t₀.children) : ∃ f, Element.Dressed f t₀ (c.addLabels t) := by
  have hlabels : Element.Labels fun e => if e.label.isNone then
      { e with label := (c.store.labels c.stage
        ((t.subtree.filter (·.label.isNone)).map Element.id)).lookup e.id } else e := by
    rintro ⟨_, _, _ | _, _, _, _⟩ <;> rfl
  refine ⟨_, hlabels, (hlabels.alike t).id.trans hid, ?_⟩
  rw [← hchildren]
  exact hlabels.children_mapAll t

theorem dressed_self {t₀ t : Element} (hid : t.id = t₀.id) (hchildren : t.children = t₀.children) :
    Element.Dressed (fun e => e) t₀ t := by
  refine ⟨?_, hid, ?_⟩
  · rintro ⟨_, _, _, _, _, _⟩
    rfl
  · rw [hchildren, funext Element.mapEach_self]
    cases t₀.children <;> rfl

end ScopeRun

/-! ## Scopes -/

namespace Store

open ScopeRun

variable {st : Store} {settings : Settings} {stage : Stage} {id : InstanceId}
  {options : ScopeOptions}

/-- The scope of a stored instance is the expansion of its summary, dressed, or the failure that
ends the expansion. -/
theorem scope_of_stored (settings : Settings) (options : ScopeOptions) {doc : Document}
    (hdoc : (st.data stage).get? id.uuid = some doc) (hspace : doc.space = id.space) :
    (∃ f t₀ last t, Expands ⟨st, settings, stage, options⟩ [doc.id] [summary doc] [t₀] last ∧
      Element.Dressed f t₀ t ∧ (st.scope settings stage id options).1 = .ok (some t)) ∨
    ∃ err, Fails ⟨st, settings, stage, options⟩ [doc.id] [summary doc] err ∧
      (st.scope settings stage id options).1 = .error err := by
  unfold scope
  rw [hdoc]
  dsimp only
  rw [if_pos hspace]
  rcases run_tree (c := ⟨st, settings, stage, options⟩) doc with
    ⟨t₀, last, t, n, hexpands, hrun, hid, hchildren⟩ | ⟨err, p, hfails, hrun⟩
  · rw [hrun]
    have hroot : t.id = t₀.id := hid.trans (congrArg Element.id hexpands.bare_eq).symm
    cases hlabels : options.labels with
    | true =>
      rcases dressed_addLabels ⟨st, settings, stage, options⟩ hroot hchildren with
        ⟨f, hdressed⟩
      exact .inl ⟨f, t₀, last, _, hexpands, hdressed, rfl⟩
    | false => exact .inl ⟨_, t₀, last, t, hexpands, dressed_self hroot hchildren, rfl⟩
  · rw [hrun]
    exact .inr ⟨err, hfails, rfl⟩

/-- A scope has no tree exactly if the stage has no such instance in the space. -/
theorem scope_eq_none_iff (settings : Settings) (options : ScopeOptions) :
    (st.scope settings stage id options).1 = .ok none ↔
    ∀ doc, (st.data stage).get? id.uuid = some doc → doc.space ≠ id.space := by
  constructor
  · intro h doc hdoc hspace
    rcases scope_of_stored settings options hdoc hspace with
      ⟨f, t₀, last, t, -, -, hsome⟩ | ⟨err, -, herror⟩
    · rw [hsome] at h
      cases h
    · rw [herror] at h
      cases h
  · intro h
    unfold scope
    cases hdoc : (st.data stage).get? id.uuid with
    | none => rfl
    | some doc =>
      dsimp only
      rw [if_neg (h doc hdoc)]

/-- A tree is returned for a stored document in the space that was named. -/
theorem exists_stored_of_scope {t : Element}
    (h : (st.scope settings stage id options).1 = .ok (some t)) :
    ∃ doc, (st.data stage).get? id.uuid = some doc ∧ doc.space = id.space := by
  by_contra hnot
  have hnone := (scope_eq_none_iff settings options).mpr
    fun doc hdoc hspace => hnot ⟨doc, hdoc, hspace⟩
  rw [hnone] at h
  cases h

/-- The tree of a scope comes from the expansion of the instance's document. -/
theorem expands_of_scope {t : Element} {doc : Document}
    (hdoc : (st.data stage).get? id.uuid = some doc)
    (h : (st.scope settings stage id options).1 = .ok (some t)) : ∃ f t₀ last,
      Expands ⟨st, settings, stage, options⟩ [doc.id] [summary doc] [t₀] last ∧
        Element.Dressed f t₀ t := by
  rcases exists_stored_of_scope h with ⟨doc', hdoc', hspace⟩
  rw [hdoc] at hdoc'
  cases hdoc'
  rcases scope_of_stored settings options hdoc hspace with
    ⟨f, t₀, last, t', hexpands, hdressed, hsome⟩ | ⟨err, -, herror⟩
  · rw [hsome] at h
    cases h
    exact ⟨f, t₀, last, hexpands, hdressed⟩
  · rw [herror] at h
    cases h

/-- A scope comes to an end, whatever the queries report: with the tree that the instance expands
to, or with the failure that ends its expansion; without a tree exactly if the stage has no such
instance in the space. A tree has the instance at its root and holds every instance once, and its
elements have children or none, but no empty list of them. -/
theorem scope_ends (st : Store) (settings : Settings) (stage : Stage) (id : InstanceId)
    (options : ScopeOptions) :
    (∀ doc, (st.data stage).get? id.uuid = some doc → doc.space = id.space →
      (∃ t₀ last t, Expands ⟨st, settings, stage, options⟩ [doc.id] [summary doc] [t₀] last ∧
        (st.scope settings stage id options).1 = .ok (some t) ∧
          t.subtree.map Element.id = t₀.subtree.map Element.id) ∨
      ∃ err, Fails ⟨st, settings, stage, options⟩ [doc.id] [summary doc] err ∧
        (st.scope settings stage id options).1 = .error err) ∧
    ((st.scope settings stage id options).1 = .ok none ↔
      ∀ doc, (st.data stage).get? id.uuid = some doc → doc.space ≠ id.space) ∧
    ∀ t, (st.scope settings stage id options).1 = .ok (some t) →
      (t.subtree.map Element.id).Nodup ∧ t.id = id.uuid ∧
        ∀ e ∈ t.subtree, e.children ≠ some [] := by
  refine ⟨?_, scope_eq_none_iff settings options, ?_⟩
  · intro doc hdoc hspace
    rcases scope_of_stored settings options hdoc hspace with
      ⟨f, t₀, last, t, hexpands, hdressed, hsome⟩ | hfails
    · refine .inl ⟨t₀, last, t, hexpands, hsome, ?_⟩
      rw [hdressed.map_id_subtree, Element.idsIn, Element.subtrees_singleton]
    · exact .inr hfails
  · intro t h
    rcases exists_stored_of_scope h with ⟨doc, hdoc, -⟩
    rcases expands_of_scope hdoc h with ⟨f, t₀, last, hexpands, hdressed⟩
    have hroot : t₀.id = doc.id := congrArg Element.id hexpands.bare_eq
    refine ⟨?_, ?_, ?_⟩
    · rw [hdressed.map_id_subtree]
      exact (joined_summary doc).nodup_result hexpands
    · rw [hdressed.id, hroot]
      exact StageData.id_of_get? hdoc
    · exact hdressed.tidy (hexpands.tidy (tidy_summary doc))

/-! ### A study -/

namespace Study

/-- A dataset. -/
def dataset : Document := ⟨⟨1⟩, "data", ["Dataset"], none, []⟩

/-- A patient. -/
def patient : Document := ⟨⟨2⟩, "data", ["Patient"], none, []⟩

/-- A sample. -/
def sample : Document := ⟨⟨3⟩, "data", ["Sample"], none, []⟩

/-- A file. -/
def file : Document := ⟨⟨4⟩, "data", ["File"], none, []⟩

/-- The dataset studies a patient, who has a sample, and the sample has a file. -/
def data : StageData where
  documents := [dataset, patient, sample, file]
  edges := [⟨dataset.id, patient.id, "studies", 0⟩, ⟨patient.id, sample.id, "has", 0⟩,
    ⟨sample.id, file.id, "has", 0⟩]

/-- A column with a name and a path. -/
def item (name path : String) (children : Option (OneOrMany Item)) : Item :=
  ⟨.bare name, some (.one (.bare path)), children, false, false, false, none, false, none, none⟩

/-- A level of rows that report their instances with their types, and what depends on them. -/
def level (dependencies : List Item) : List Item :=
  [item "id" "@id" none, item "type" "@type" none] ++ dependencies

/-- The instances that an instance refers to, with what is below them. -/
def dependency (relation : String) (below : List Item) : Item :=
  item (dependencyMark ++ relation) relation (some (.many (level below)))

/-- A scope query for a type, from its dependencies. -/
def scopeQuery (type : String) (dependencies : List Item) : ScopeQuery :=
  ⟨type, "queries", ⟨some ⟨some (.bare type), none, none, none⟩, some (.many (level dependencies))⟩⟩

/-- A store with some data and scope queries. -/
def store (data : StageData) (queries : List ScopeQuery) : Store :=
  { Store.empty with data := fun _ => data, scopeQueries := queries }

/-- The computation of scopes in a store, with or without restrictions. -/
def run (st : Store) (restrictions : Bool) : ScopeRun :=
  ⟨st, .default, .inProgress, ⟨false, restrictions⟩⟩

/-- The scope of the dataset. -/
def scope (st : Store) (restrictions : Bool) : Except Error (Option Element) :=
  (st.scope .default .inProgress ⟨dataset.id, dataset.space⟩ ⟨false, restrictions⟩).1

/-- The file belongs to the dataset and to itself, and every type has a query for what its instances
refer to. -/
def ring : Store :=
  store
    { data with edges :=
        data.edges ++ [⟨file.id, dataset.id, "in", 0⟩, ⟨file.id, file.id, "in", 0⟩] }
    [scopeQuery "Dataset" [dependency "studies" []], scopeQuery "Patient" [dependency "has" []],
      scopeQuery "Sample" [dependency "has" []], scopeQuery "File" [dependency "in" []]]

/-- A tree of which something is known has been returned. -/
theorem exists_of_tree {α : Type} {f : Element → α} {result : Except Error (Option Element)} {x : α}
    (h : result.toOption.join.map f = some x) : ∃ t, result = .ok (some t) ∧ f t = x := by
  rcases result with _ | _ | t
  · cases h
  · cases h
  · exact ⟨t, rfl, Option.some.inj h⟩

end Study

open Study in
/-- The ring of the study ends where it began. -/
theorem scope_ends_ring : ∃ t, Study.scope ring false = .ok (some t) ∧
    t.subtree.map Element.id = [dataset.id, patient.id, sample.id, file.id] ∧
      (t.subtree.map Element.id).Nodup ∧ ∀ e ∈ t.subtree, e.children ≠ some [] := by
  have hids : (Study.scope ring false).toOption.join.map (·.subtree.map Element.id) =
      some [dataset.id, patient.id, sample.id, file.id] := by decide +kernel
  rcases exists_of_tree hids with ⟨t, ht, hids⟩
  rcases scope_ends ring .default .inProgress ⟨dataset.id, dataset.space⟩ ⟨false, false⟩ with
    ⟨-, -, htree⟩
  rcases htree t ht with ⟨hnodup, -, htidy⟩
  exact ⟨t, ht, hids, hnodup, htidy⟩

end Store

end GraphQuery
