import GraphQuery.Graph.Fixture
import GraphQuery.Proofs.Discovery
import GraphQuery.Proofs.Isolation
import Mathlib.Data.List.Induction
import Mathlib.Logic.Function.Basic

/-!
# GraphQuery.Proofs.Documents — which documents a store holds

1. **Latest** documents: of those that were given with one id, the last one.
2. **Insertions** put a document in the place of the latest one with its id, or at the end.
3. **Indices** from ids to places, made at once for many documents, and kept by insertions.
4. **Ids** in the order in which they first came.
5. **Changes** of a store, one after the other.
6. **Fixtures** load documents as they are written, also several with one id.
7. **Looks** at a stage: lookups, hops, and labels see the latest documents, and so do scans if
   no two of the loaded documents have one id.
-/

namespace GraphQuery

/-! ## Latest documents -/

/-- The last one of some documents that has an id. -/
def latest (docs : List Document) (id : Uuid) : Option Document :=
  docs.reverse.find? fun doc => doc.id = id

/-- A document that is added last is the latest one with its id. -/
theorem latest_concat (docs : List Document) (doc : Document) (id : Uuid) :
    latest (docs ++ [doc]) id = if doc.id = id then some doc else latest docs id := by
  unfold latest
  rw [List.reverse_concat, List.find?_cons]
  by_cases h : doc.id = id <;> simp [h]

/-- Ids with a latest document are those of the list. -/
theorem latest_isSome {docs : List Document} {id : Uuid} :
    (latest docs id).isSome = true ↔ id ∈ docs.map Document.id := by
  simp [latest]

/-- A stage looks up the latest document. -/
theorem StageData.get?_eq_latest (data : StageData) (id : Uuid) :
    data.get? id = latest data.documents id := rfl

/-! ## Insertions -/

namespace StageData

/-- Replacing a document keeps the ids. -/
theorem map_id_replaceFirst (doc : Document) (docs : List Document) :
    (replaceFirst doc docs).map Document.id = docs.map Document.id := by
  induction docs with
  | nil => rfl
  | cons d rest ih =>
    unfold replaceFirst
    split
    · rename_i heq
      rw [List.map_cons, List.map_cons, heq]
    · rw [List.map_cons, List.map_cons, ih]

/-- A document that has been replaced is found under its id, and all others as before. -/
theorem find?_replaceFirst {doc : Document} {docs : List Document}
    (h : doc.id ∈ docs.map Document.id) (id : Uuid) :
    (replaceFirst doc docs).find? (fun d => d.id = id) =
      if doc.id = id then some doc else docs.find? fun d => d.id = id := by
  induction docs with
  | nil => cases h
  | cons d rest ih =>
    unfold replaceFirst
    split
    · rename_i heq
      rw [List.find?_cons, List.find?_cons, heq]
      by_cases hid : doc.id = id <;> simp [hid]
    · rename_i hne
      have hrest : doc.id ∈ rest.map Document.id := by
        rcases List.mem_cons.mp h with heq | hrest
        · exact absurd heq.symm hne
        · exact hrest
      rw [List.find?_cons, List.find?_cons, ih hrest]
      by_cases hd : d.id = id
      · have hid : doc.id ≠ id := fun hid => hne (hd.trans hid.symm)
        simp [hd, hid]
      · simp [hd]

/-- Inserting replaces the latest document with the id, or adds one at the end. -/
theorem documents_insert (data : StageData) (doc : Document) :
    (data.insert doc).documents = if doc.id ∈ data.documents.map Document.id
      then (replaceFirst doc data.documents.reverse).reverse else data.documents ++ [doc] := by
  unfold insert
  rw [get?_eq_latest]
  by_cases h : doc.id ∈ data.documents.map Document.id
  · rw [if_pos (latest_isSome.mpr h), if_pos h]
  · rw [if_neg (fun hsome => h (latest_isSome.mp hsome)), if_neg h]

/-- An inserted document is found under its id, and all others as before. -/
theorem get?_insert (data : StageData) (doc : Document) (id : Uuid) :
    (data.insert doc).get? id = if doc.id = id then some doc else data.get? id := by
  rw [get?_eq_latest, documents_insert]
  by_cases h : doc.id ∈ data.documents.map Document.id
  · rw [if_pos h, latest, List.reverse_reverse, find?_replaceFirst (by simpa using h)]
    rfl
  · rw [if_neg h]
    exact latest_concat _ _ _

/-- Inserting a document adds its id if that is new. -/
theorem ids_insert (data : StageData) (doc : Document) :
    (data.insert doc).documents.map Document.id = if doc.id ∈ data.documents.map Document.id
      then data.documents.map Document.id else data.documents.map Document.id ++ [doc.id] := by
  rw [documents_insert]
  by_cases h : doc.id ∈ data.documents.map Document.id
  · rw [if_pos h, if_pos h, List.map_reverse, map_id_replaceFirst, List.map_reverse,
      List.reverse_reverse]
  · rw [if_neg h, if_neg h, List.map_append]
    rfl

end StageData

/-! ## Indices -/

/-- Where ids stand in a list; of several places the last one. -/
def places (ids : List Uuid) : Uuid → Option Nat :=
  ids.zipIdx.foldl (fun index (id, i) => Function.update index id (some i)) fun _ => none

/-- An id that is added last has the last place. -/
theorem places_concat (ids : List Uuid) (id : Uuid) :
    places (ids ++ [id]) = Function.update (places ids) id (some ids.length) := by
  unfold places
  rw [List.zipIdx_append, List.foldl_append]
  simp

theorem lt_of_places {ids : List Uuid} {id : Uuid} {i : Nat} (h : places ids id = some i) :
    i < ids.length := by
  induction ids using List.reverseRecOn with
  | nil => cases h
  | append_singleton ids last ih =>
    rw [places_concat] at h
    rw [List.length_append]
    by_cases heq : id = last
    · rw [heq, Function.update_self] at h
      cases h
      simp
    · rw [Function.update_of_ne heq] at h
      exact Nat.lt_add_right _ (ih h)

/-- Ids without a place are not in the list. -/
theorem places_eq_none {ids : List Uuid} {id : Uuid} : places ids id = none ↔ id ∉ ids := by
  induction ids using List.reverseRecOn with
  | nil => simp [places]
  | append_singleton ids last ih =>
    rw [places_concat]
    by_cases heq : id = last
    · simp [heq]
    · rw [Function.update_of_ne heq, ih]
      simp [heq]

/-- Documents with an index from ids to places. -/
structure Indexed where
  documents : List Document
  index : Uuid → Option Nat

namespace Indexed

/-- The documents with the places of their ids. -/
def ofList (docs : List Document) : Indexed := ⟨docs, places (docs.map Document.id)⟩

/-- Looks up a document by the place of its id. -/
def get? (x : Indexed) (id : Uuid) : Option Document := (x.index id).bind (x.documents[·]?)

/-- Puts a document in the place that the index has for its id, or else at the end. -/
def upsert (x : Indexed) (doc : Document) : Indexed :=
  match x.index doc.id with
  | some i => { x with documents := x.documents.set i doc }
  | none =>
    { documents := x.documents ++ [doc]
      index := Function.update x.index doc.id (some x.documents.length) }

/-- An index that was made at once finds the latest documents. -/
theorem get?_ofList (docs : List Document) (id : Uuid) : (ofList docs).get? id = latest docs id := by
  induction docs using List.reverseRecOn with
  | nil => rfl
  | append_singleton docs last ih =>
    unfold get? ofList at ih ⊢
    dsimp only at ih ⊢
    rw [List.map_append, List.map_singleton, places_concat, latest_concat]
    by_cases heq : last.id = id
    · subst heq
      simp
    · rw [Function.update_of_ne (Ne.symm heq), if_neg heq, ← ih]
      cases hplace : places (docs.map Document.id) id with
      | none => rfl
      | some i =>
        have hlt : i < docs.length := by simpa using lt_of_places hplace
        exact List.getElem?_append_left hlt

/-- Setting the document at the place of its id is replacing it. -/
theorem set_places {docs : List Document} {doc : Document} {i : Nat}
    (h : places (docs.map Document.id) doc.id = some i) :
    docs.set i doc = (StageData.replaceFirst doc docs.reverse).reverse := by
  induction docs using List.reverseRecOn with
  | nil => cases h
  | append_singleton docs last ih =>
    rw [List.map_append, List.map_singleton, places_concat] at h
    rw [List.reverse_concat, StageData.replaceFirst]
    by_cases heq : last.id = doc.id
    · rw [heq, Function.update_self, List.length_map] at h
      cases h
      simp [heq]
    · rw [Function.update_of_ne (Ne.symm heq)] at h
      have hlt : i < docs.length := by simpa using lt_of_places h
      rw [if_neg heq, List.reverse_cons, ← ih h, List.set_append_left _ _ hlt]

/-- An index that is kept up is the one that would be made at once. -/
theorem upsert_ofList (data : StageData) (doc : Document) :
    (ofList data.documents).upsert doc = ofList (data.insert doc).documents := by
  have hids := data.ids_insert doc
  have hdocs := data.documents_insert doc
  unfold upsert
  cases hplace : (ofList data.documents).index doc.id with
  | none =>
    have hnew := places_eq_none.mp hplace
    rw [if_neg hnew] at hids hdocs
    unfold ofList
    dsimp only
    rw [hids, hdocs, places_concat, List.length_map]
  | some i =>
    have hold : doc.id ∈ data.documents.map Document.id := by
      by_contra hnew
      exact nomatch hplace.symm.trans (places_eq_none.mpr hnew)
    rw [if_pos hold] at hids hdocs
    unfold ofList
    dsimp only
    rw [hids, hdocs, set_places hplace]

end Indexed

/-! ## Ids -/

/-- A further id is new if it is neither among the old ones nor among the new ones. -/
theorem newIds_concat (old ids : List Uuid) (id : Uuid) :
    old ++ ((ids ++ [id]).filter (· ∉ old)).eraseDups =
      if id ∈ old ++ (ids.filter (· ∉ old)).eraseDups
      then old ++ (ids.filter (· ∉ old)).eraseDups
      else old ++ (ids.filter (· ∉ old)).eraseDups ++ [id] := by
  by_cases hold : id ∈ old
  · simp [hold]
  · have hlast : [id].filter (· ∉ old) = [id] := by simp [hold]
    rw [List.filter_append, hlast, eraseDups_concat]
    by_cases hids : id ∈ ids <;> simp [hold, hids]

/-! ## Changes -/

/-- What can be given to a store in use. -/
inductive Change
  | insert (stage : Stage) (doc : Document)
  | link (stage : Stage) (source : Uuid) (relation : String) (target : Uuid)
deriving Repr

/-- The document that a change gives to a stage. -/
def Change.document? (stage : Stage) : Change → Option Document
  | insert s doc => if s = stage then some doc else none
  | link .. => none

/-- Makes a change to a store. -/
def Store.change (st : Store) : Change → Store
  | .insert stage doc => st.insert stage doc
  | .link stage source relation target => st.link stage source relation target

/-- Makes changes to a store, one after the other. -/
def Store.changeAll (st : Store) (changes : List Change) : Store := changes.foldl change st

@[simp]
theorem Store.data_setData (st : Store) (stage s : Stage) (data : StageData) :
    (st.setData s data).data stage = if stage = s then data else st.data stage := rfl

/-- A change inserts a document in a stage at most. -/
theorem Store.documents_change (st : Store) (c : Change) (stage : Stage) :
    ((st.change c).data stage).documents = match c.document? stage with
      | some doc => ((st.data stage).insert doc).documents
      | none => (st.data stage).documents := by
  cases c with
  | insert s doc =>
    by_cases h : stage = s
    · simp [change, insert, Change.document?, h]
    · simp [change, insert, Change.document?, h, Ne.symm h]
  | link s source relation target =>
    by_cases h : stage = s <;> simp [change, link, Change.document?, h, StageData.link]

/-- What a stage holds after documents were `loaded` at once and `inserted` one by one: the latest
document of each id. The loaded ones keep their places, and the others have them in the order in
which their ids came. The index that was kept is the one of these documents. -/
structure Holds (loaded inserted docs : List Document) : Prop where
  lookups : ∀ id, latest docs id = latest (loaded ++ inserted) id
  ids : docs.map Document.id = loaded.map Document.id ++
    ((inserted.map Document.id).filter (· ∉ loaded.map Document.id)).eraseDups
  indexed : inserted.foldl Indexed.upsert (.ofList loaded) = .ofList docs

namespace Holds

variable {loaded inserted docs : List Document} {data : StageData}

theorem nil (loaded : List Document) : Holds loaded [] loaded where
  lookups := by simp
  ids := by simp
  indexed := rfl

theorem insert (h : Holds loaded inserted data.documents) (doc : Document) :
    Holds loaded (inserted ++ [doc]) (data.insert doc).documents where
  lookups := by
    intro id
    rw [← List.append_assoc, latest_concat, ← StageData.get?_eq_latest, data.get?_insert,
      StageData.get?_eq_latest, h.lookups]
  ids := by
    rw [data.ids_insert, h.ids, List.map_append, List.map_singleton]
    exact (newIds_concat _ _ _).symm
  indexed := by
    rw [List.foldl_append, h.indexed]
    exact Indexed.upsert_ofList data doc

/-- Inserting repeats no id, so that only loading may. -/
theorem nodup_iff (h : Holds loaded inserted docs) :
    (docs.map Document.id).Nodup ↔ (loaded.map Document.id).Nodup := by
  rw [h.ids, List.nodup_append']
  constructor
  · exact And.left
  · intro hloaded
    refine ⟨hloaded, nodup_eraseDups _, fun id hid hnew => ?_⟩
    simp only [List.mem_eraseDups, List.mem_filter, decide_eq_true_eq] at hnew
    exact hnew.2 hid

/-- Without repetitions, the ids are those loaded and inserted, each of them once. -/
theorem ids_of_nodup (h : Holds loaded inserted docs) (hloaded : (loaded.map Document.id).Nodup) :
    docs.map Document.id = ((loaded ++ inserted).map Document.id).eraseDups := by
  have hremove : (inserted.map Document.id).removeAll (loaded.map Document.id) =
      (inserted.map Document.id).filter (· ∉ loaded.map Document.id) :=
    List.filter_congr fun id _ => by simp [-List.mem_map]
  rw [h.ids, List.map_append, List.eraseDups_append, eraseDups_of_nodup hloaded, hremove]

end Holds

/-- After changes, a stage holds what was loaded and what was inserted. -/
theorem Store.holds_changeAll (st : Store) (changes : List Change) (stage : Stage) :
    Holds (st.data stage).documents (changes.filterMap (Change.document? stage))
      ((st.changeAll changes).data stage).documents := by
  -- induction on the changes, the last one last
  induction changes using List.reverseRecOn with
  | nil => exact .nil _
  | append_singleton changes c ih =>
    have hlast := (st.changeAll changes).documents_change c stage
    unfold changeAll at hlast ih ⊢
    rw [List.foldl_append, List.foldl_cons, List.foldl_nil, hlast, List.filterMap_append]
    cases hdoc : c.document? stage with
    | none => simpa [hdoc] using ih
    | some doc => simpa [hdoc] using ih.insert doc

/-! ## Fixtures -/

namespace Fixture

/-- The documents of a stage. If the stage is named twice, its last ones count. -/
def documents (f : Fixture) (stage : Stage) : List Document :=
  ((f.stages.reverse.lookup stage).getD .empty).documents

/-- Of stages that are set repeatedly, the last data count. -/
theorem data_setAll (stages : List (Stage × StageData)) (stage : Stage) :
    (stages.foldl (fun st (stage, d) => st.setData stage d) Store.empty).data stage =
      (stages.reverse.lookup stage).getD .empty := by
  induction stages using List.reverseRecOn with
  | nil => rfl
  | append_singleton stages last ih =>
    rcases last with ⟨s, data⟩
    rw [List.foldl_append, List.foldl_cons, List.foldl_nil, Store.data_setData,
      List.reverse_concat, List.lookup_cons, ih]
    by_cases h : stage = s
    · simp [h]
    · rw [if_neg h, beq_false_of_ne h]

theorem data_addScopeQuery {st st' : Store} {type space : String} {payload : Json.Value}
    (h : st.addScopeQuery type space payload = .ok st') : st'.data = st.data := by
  unfold Store.addScopeQuery at h
  cases hquery : (Query.ofValue payload).mapError fun f => (InterpretFault.query f).toError with
  | error e =>
    rw [hquery] at h
    cases h
  | ok query =>
    rw [hquery] at h
    cases h
    rfl

/-- Adding scope queries leaves the data alone. -/
theorem data_addScopeQueries {queries : List ScopeQueryPayload} {st st' : Store}
    (h : queries.foldlM (fun st q => st.addScopeQuery q.type q.space q.payload) st = .ok st') :
    st'.data = st.data := by
  induction queries generalizing st with
  | nil =>
    cases h
    rfl
  | cons q rest ih =>
    rw [List.foldlM_cons] at h
    cases hq : st.addScopeQuery q.type q.space q.payload with
    | error e =>
      rw [hq] at h
      cases h
    | ok next =>
      rw [hq] at h
      exact (ih h).trans (data_addScopeQuery hq)

theorem data_excludeAll (types : List String) (st : Store) :
    (types.foldl Store.exclude st).data = st.data := by
  induction types generalizing st with
  | nil => rfl
  | cons type rest ih => exact ih (st.exclude type)

/-- A stage of a store holds what the fixture gives for it, whatever else is loaded. -/
theorem data_store {f : Fixture} {st : Store} (h : f.store = .ok st) (stage : Stage) :
    st.data stage = (f.stages.reverse.lookup stage).getD .empty := by
  unfold store at h
  cases hqueries : f.scopeQueries.foldlM (fun st q => st.addScopeQuery q.type q.space q.payload)
      (f.stages.foldl (fun st (stage, d) => st.setData stage d) Store.empty) with
  | error e =>
    simp only [hqueries] at h
    cases h
  | ok next =>
    simp only [hqueries] at h
    cases h
    change (f.excluded.foldl Store.exclude next).data stage = _
    rw [data_excludeAll, data_addScopeQueries hqueries, data_setAll]

/-- A store from a fixture holds the documents of the fixture. -/
theorem documents_store {f : Fixture} {st : Store} (h : f.store = .ok st) (stage : Stage) :
    (st.data stage).documents = f.documents stage :=
  congrArg StageData.documents (data_store h stage)

end Fixture

/-! ## Looks -/

/-- Whoever asks a store for a document, follows an edge to it, or asks for its label, gets the
latest one of those that were `given` with its id. -/
structure Store.Shows (st : Store) (stage : Stage) (given : List Document) : Prop where
  lookups : ∀ id, (st.data stage).get? id = latest given id
  hops : ∀ plan step ordered doc, ∀ d ∈ neighbors (st.data stage) plan step ordered doc,
    latest given d.id = some d
  labels : ∀ ids id label, (id, label) ∈ st.labels stage ids ↔
    id ∈ ids ∧ (latest given id).bind Document.label = some label

/-- Documents at the ends of edges are those that are looked up. -/
theorem StageData.get?_id_of_mem_neighbors {data : StageData} {plan : Plan} {step : Step}
    {ordered : Bool} {doc d : Document} (h : d ∈ neighbors data plan step ordered doc) :
    data.get? d.id = some d := by
  unfold neighbors at h
  split at h
  · cases h
  · -- the end of an edge is looked up
    rcases List.mem_filterMap.mp (List.mem_of_mem_filter h) with ⟨e, _, hend⟩
    have hid := StageData.id_of_get? hend
    rw [hid]
    exact hend

/-- A stage shows the documents that it looks up. -/
theorem Store.shows_of_lookups {st : Store} {stage : Stage} {given : List Document}
    (h : ∀ id, (st.data stage).get? id = latest given id) : st.Shows stage given where
  lookups := h
  hops := by
    intro plan step ordered doc d hd
    rw [← h]
    exact StageData.get?_id_of_mem_neighbors hd
  labels := by
    intro ids id label
    unfold labels
    rw [← h]
    rw [List.mem_filterMap]
    constructor
    · rintro ⟨u, hu, hlabel⟩
      rcases Option.bind_eq_some_iff.mp hlabel with ⟨doc, hdoc, hlabel⟩
      rcases Option.bind_eq_some_iff.mp hlabel with ⟨text, htext, heq⟩
      cases heq
      exact ⟨Uuid.mem_setOf.mp hu, Option.bind_eq_some_iff.mpr ⟨doc, hdoc, htext⟩⟩
    · rintro ⟨hid, hlabel⟩
      rcases Option.bind_eq_some_iff.mp hlabel with ⟨doc, hdoc, htext⟩
      refine ⟨id, Uuid.mem_setOf.mpr hid, Option.bind_eq_some_iff.mpr ⟨doc, hdoc, ?_⟩⟩
      exact Option.bind_eq_some_iff.mpr ⟨label, htext, rfl⟩

/-- The documents of a scan are the latest ones, each of them once, if no two have one id. -/
theorem StageData.candidates_of_distinctIds {data : StageData} (h : data.DistinctIds) (root : Root) :
    ((Evaluator.candidates data root).map Document.id).Nodup ∧
    ∀ d ∈ Evaluator.candidates data root, data.get? d.id = some d := by
  have hself : ∀ d ∈ data.documents, data.get? d.id = some d :=
    fun d hd => (get?_eq_some_iff h).mpr ⟨hd, rfl⟩
  cases root with
  | document id =>
    have hmem {d : Document} (hd : d ∈ Evaluator.candidates data (.document id)) :
        data.get? id.uuid = some d := Option.mem_toList.mp (List.mem_of_mem_filter hd)
    have hone : ((data.get? id.uuid).toList.map Document.id).Nodup := by
      cases data.get? id.uuid <;> simp
    refine ⟨hone.sublist (List.filter_sublist.map Document.id), fun d hd => ?_⟩
    exact hself d ((get?_eq_some_iff h).mp (hmem hd)).1
  | ofType type =>
    refine ⟨h.sublist (List.filter_sublist.map Document.id), fun d hd => ?_⟩
    exact hself d (List.mem_of_mem_filter hd)

/-- A store was loaded from a fixture and then changed. Its lookups, hops and labels see the latest
documents, which stand in the order in which their ids came; the index that was kept finds the same
ones. As many documents have one id as were loaded with it, so that scans see each instance once,
and its latest document, if the loaded ids are distinct. -/
theorem Store.one_document_per_id {f : Fixture} {st : Store} (h : f.store = .ok st)
    (changes : List Change) (stage : Stage) :
    let loaded := f.documents stage
    let inserted := changes.filterMap (Change.document? stage)
    let given := loaded ++ inserted
    let indexed := inserted.foldl Indexed.upsert (.ofList loaded)
    let data := (st.changeAll changes).data stage
    (st.changeAll changes).Shows stage given ∧
    (indexed.documents = data.documents ∧ ∀ id, indexed.get? id = data.get? id) ∧
    (data.DistinctIds ↔ (loaded.map Document.id).Nodup) ∧
    ((loaded.map Document.id).Nodup →
      data.documents.map Document.id = (given.map Document.id).eraseDups ∧
      ∀ root, ((Evaluator.candidates data root).map Document.id).Nodup ∧
        ∀ d ∈ Evaluator.candidates data root, latest given d.id = some d) := by
  intro loaded inserted given indexed data
  have hholds : Holds loaded inserted data.documents := by
    have hchanged := st.holds_changeAll changes stage
    rw [Fixture.documents_store h stage] at hchanged
    exact hchanged
  refine ⟨shows_of_lookups hholds.lookups, ?_, hholds.nodup_iff, fun hloaded => ?_⟩
  · have hindexed : indexed = .ofList data.documents := hholds.indexed
    rw [hindexed]
    exact ⟨rfl, Indexed.get?_ofList data.documents⟩
  · refine ⟨hholds.ids_of_nodup hloaded, fun root => ?_⟩
    rcases StageData.candidates_of_distinctIds (hholds.nodup_iff.mpr hloaded) root
      with ⟨honce, hseen⟩
    refine ⟨honce, fun d hd => ?_⟩
    rw [← hholds.lookups]
    exact hseen d hd

/-- Two papers on a shelf. -/
def Fixture.shelf : Fixture where
  stages := [(.inProgress, ⟨[⟨⟨1⟩, "shelf", ["Paper"], some "First draft", []⟩,
    ⟨⟨2⟩, "shelf", ["Paper"], none, []⟩], []⟩)]
  scopeQueries := []
  excluded := []
  relevant := none

/-- A third paper comes, cites the first one, and the first one is written again. -/
def Change.rewriting : List Change :=
  [.insert .inProgress ⟨⟨3⟩, "shelf", ["Paper"], none, []⟩,
    .link .inProgress ⟨3⟩ "cites" ⟨1⟩,
    .insert .inProgress ⟨⟨1⟩, "shelf", ["Paper"], some "Second draft", []⟩,
    .insert .released ⟨⟨1⟩, "shelf", ["Paper"], some "Released", []⟩]

theorem Store.one_document_per_id_shelf :
    ∃ st, Fixture.shelf.store = .ok st ∧
      ((Fixture.shelf.documents .inProgress).map Document.id).Nodup ∧
      ((st.changeAll Change.rewriting).data .inProgress).documents.map Document.id =
        [⟨1⟩, ⟨2⟩, ⟨3⟩] ∧
      (((st.changeAll Change.rewriting).data .inProgress).get? ⟨1⟩).bind Document.label =
        some "Second draft" := by
  refine ⟨_, rfl, by decide, ?_⟩
  rcases one_document_per_id (f := Fixture.shelf) rfl Change.rewriting .inProgress
    with ⟨hshows, _, _, hdistinct⟩
  refine ⟨(hdistinct (by decide)).1.trans (by decide), ?_⟩
  rw [hshows.lookups]
  decide

end GraphQuery
