import GraphQuery.Graph.Fixture
import GraphQuery.Proofs.Acceptance
import GraphQuery.Proofs.RoundTrip
import GraphQuery.Proofs.Scopes

/-!
# GraphQuery.Proofs.ScopeFaults — scope queries that are registered and cannot be run

1. **Faults of items**: what is left to find fault with in a query that has all its parts.
2. **Registrations** check that a query has all its parts, and nothing else.
3. **Failures** of an expansion are failures of a query that was registered: it cannot be
   interpreted, or its statement cannot be evaluated.
4. **Scopes** are refused as invalid only for such a query. Without one no scope is, and with one
   no instance of its type has a scope.
-/

namespace GraphQuery

/-! ## Faults of items -/

/-- A fault in the names of a query's items, or in the keys of their fields. -/
inductive InterpretFault.OfItems : InterpretFault → Prop
  | blankName : OfItems .blankName
  | unusableKey (name : String) : OfItems (.unusableKey name)
  | sharedKey (first second key : String) : OfItems (.sharedKey first second key)

namespace Property

variable {seen : Dictionary String} {fault : InterpretFault}

/-- A key that is not usable is a fault of items. -/
theorem ofItems_of_checkKeys {p : Property}
    (hbelow : ∀ seen, checkLevel seen p.children = .error fault → fault.OfItems)
    (h : checkKeys seen p = .error fault) : fault.OfItems := by
  rw [checkKeys_eq] at h
  split at h
  · exact hbelow seen h
  split at h
  · cases h
    exact .unusableKey _
  split at h
  · cases h
    exact .sharedKey _ _ _
  · cases hlevel : checkLevel [] p.children with
    | error fault' =>
      rw [hlevel] at h
      cases h
      exact hbelow [] hlevel
    | ok below =>
      rw [hlevel] at h
      cases h

/-- So is a key that is shared on a level. -/
theorem ofItems_of_checkLevel {ps : List Property} (h : checkLevel seen ps = .error fault) :
    fault.OfItems := by
  induction ps using forest_induction generalizing seen with
  | nil =>
    rw [checkLevel] at h
    cases h
  | cons p rest ihchildren ihrest =>
    rw [checkLevel_cons] at h
    cases hfirst : checkKeys seen p with
    | error fault' =>
      rw [hfirst] at h
      cases h
      exact ofItems_of_checkKeys (fun _ => ihchildren) hfirst
    | ok mid =>
      rw [hfirst] at h
      exact ihrest h

end Property

namespace Query

/-- A query that has all its parts can only be refused for its items. -/
theorem ofItems_of_interpret {q : Query} {fault : InterpretFault} (hcheck : q.check = .ok ())
    (h : q.interpret = .error fault) : fault.OfItems := by
  rw [interpret_eq, hcheck] at h
  change (Item.interpretAll q.vocabulary? 0 q.items).bind _ = _ at h
  rcases Item.interpretAll_cases q.vocabulary? 0 q.items with ⟨-, hblank⟩ | ⟨-, ps, after, hps, -⟩
  · rw [hblank] at h
    cases h
    exact .blankName
  · rw [hps] at h
    dsimp only [Except.bind] at h
    cases hlevel : Property.checkLevel [] ps with
    | error fault' =>
      rw [hlevel] at h
      cases h
      exact Property.ofItems_of_checkLevel hlevel
    | ok taken =>
      rw [hlevel] at h
      cases h

end Query

/-! ## Registrations -/

namespace Store

/-- All registered queries have their parts. -/
def Checked (st : Store) : Prop := ∀ q ∈ st.scopeQueries, q.query.check = .ok ()

/-- Registers queries one after the other, as long as none of them is refused. -/
def registerAll (st : Store) (queries : List ScopeQueryPayload) : Except Error Store :=
  queries.foldlM (fun st q => st.addScopeQuery q.type q.space q.payload) st

variable {st st' : Store}

/-- Adding a scope query checks it, but not its items. -/
theorem checked_addScopeQuery {type space : String} {payload : Json.Value} (hst : st.Checked)
    (h : st.addScopeQuery type space payload = .ok st') : st'.Checked := by
  unfold addScopeQuery at h
  cases hquery : Query.ofValue payload with
  | error fault =>
    rw [hquery] at h
    cases h
  | ok query =>
    rw [hquery] at h
    cases h
    intro q hq
    rcases List.mem_append.mp hq with hold | hnew
    · exact hst q hold
    · rw [List.mem_singleton.mp hnew]
      exact Query.check_of_ofValue hquery

/-- So does adding several. -/
theorem checked_registerAll {queries : List ScopeQueryPayload} (hst : st.Checked)
    (h : st.registerAll queries = .ok st') : st'.Checked := by
  unfold registerAll at h
  induction queries generalizing st with
  | nil =>
    cases h
    exact hst
  | cons q rest ih =>
    rw [List.foldlM_cons] at h
    cases hq : st.addScopeQuery q.type q.space q.payload with
    | error e =>
      rw [hq] at h
      cases h
    | ok next =>
      rw [hq] at h
      exact ih (checked_addScopeQuery hst hq) h

theorem scopeQueries_setAll (stages : List (Stage × StageData)) (st : Store) :
    (stages.foldl (fun st (stage, d) => st.setData stage d) st).scopeQueries = st.scopeQueries := by
  induction stages generalizing st with
  | nil => rfl
  | cons first rest ih => exact ih (st.setData first.1 first.2)

theorem scopeQueries_excludeAll (types : List String) (st : Store) :
    (types.foldl exclude st).scopeQueries = st.scopeQueries := by
  induction types generalizing st with
  | nil => rfl
  | cons type rest ih => exact ih (st.exclude type)

/-- A store from a fixture has checked queries. -/
theorem checked_store {f : Fixture} (h : f.store = .ok st) : st.Checked := by
  unfold Fixture.store at h
  generalize hloaded : f.stages.foldl (fun st (stage, d) => st.setData stage d) Store.empty = loaded
    at h
  have hempty : loaded.Checked := by
    unfold Checked
    rw [← hloaded, scopeQueries_setAll]
    exact List.forall_mem_nil _
  change (loaded.registerAll f.scopeQueries >>= fun st => _) = _ at h
  cases hregistered : loaded.registerAll f.scopeQueries with
  | error e =>
    rw [hregistered] at h
    cases h
  | ok next =>
    rw [hregistered] at h
    cases h
    unfold Checked
    dsimp only
    rw [scopeQueries_excludeAll]
    exact checked_registerAll hempty hregistered

end Store

/-! ## Failures -/

/-- Steps fail with the failure of one of them. -/
theorem exists_of_mapM_error {ε α β : Type} {f : α → Except ε β} {xs : List α} {e : ε}
    (h : xs.mapM f = .error e) : ∃ x ∈ xs, f x = .error e := by
  induction xs with
  | nil => cases h
  | cons x rest ih =>
    rw [List.mapM_cons] at h
    cases hx : f x with
    | error e' =>
      rw [hx] at h
      cases h
      exact ⟨x, .head _, hx⟩
    | ok y =>
      cases hrest : rest.mapM f with
      | error e' =>
        rw [hx, hrest] at h
        cases h
        rcases ih hrest with ⟨z, hz, hfz⟩
        exact ⟨z, .tail _ hz, hfz⟩
      | ok ys =>
        rw [hx, hrest] at h
        cases h

/-- One step that fails is enough. -/
theorem mapM_ne_ok {ε α β : Type} {f : α → Except ε β} {xs : List α} {x : α} (hx : x ∈ xs) {e : ε}
    (hfail : f x = .error e) (ys : List β) : xs.mapM f ≠ .ok ys := by
  intro h
  induction xs generalizing ys with
  | nil => cases hx
  | cons first rest ih =>
    rw [List.mapM_cons] at h
    cases hfirst : f first with
    | error e' =>
      rw [hfirst] at h
      cases h
    | ok y =>
      rcases List.mem_cons.mp hx with rfl | hx
      · rw [hfirst] at hfail
        cases hfail
      · cases hrest : rest.mapM f with
        | error e' =>
          rw [hfirst, hrest] at h
          cases h
        | ok ys => exact ih hx ys hrest

namespace ScopeRun

variable {c : ScopeRun} {id : InstanceId} {types : List String} {e : Element} {err : Error}

/-- A query is run for the instances of its type if it is stored in a relevant space. -/
def Runs (c : ScopeRun) (q : ScopeQuery) : Prop :=
  q ∈ c.store.scopeQueries ∧ c.relevantSpaces.contains q.space = true

/-- The queries for types are those that run, for one of the types. -/
theorem mem_queriesFor {query : Query} : query ∈ c.queriesFor types ↔
    ∃ q, c.Runs q ∧ q.type ∈ types ∧ q.query = query := by
  simp only [queriesFor, Store.scopeQueriesOf, List.mem_flatMap, List.mem_map, List.mem_filter,
    beq_iff_eq, Runs]
  constructor
  · rintro ⟨type, htype, q, ⟨⟨hq, rfl⟩, hspace⟩, hquery⟩
    exact ⟨q, ⟨hq, hspace⟩, htype, hquery⟩
  · rintro ⟨q, ⟨hq, hspace⟩, htype, hquery⟩
    exact ⟨q.type, htype, q, ⟨⟨hq, rfl⟩, hspace⟩, hquery⟩

/-- An expansion fails with what the queries of an element fail with. -/
theorem Fails.exists_found {claimed : List Uuid} {es : List Element} (h : c.Fails claimed es err) :
    ∃ e, c.found e = .error err := by
  induction h with
  | here hfound => exact ⟨_, hfound⟩
  | inside _ _ ih => exact ih
  | later _ _ _ ih => exact ih

/-- The queries of an element fail with what one of them fails with. -/
theorem exists_rowsOn_of_reportedOn (h : c.reportedOn id types = .error err) :
    ∃ query ∈ c.queriesFor types, c.rowsOn id query = .error err := by
  unfold reportedOn at h
  cases hrows : (c.queriesFor types).mapM (c.rowsOn id) with
  | error err' =>
    rw [hrows] at h
    cases h
    exact exists_of_mapM_error hrows
  | ok rows =>
    rw [hrows] at h
    cases h

theorem exists_rowsOn_of_found (h : c.found e = .error err) :
    ∃ space, ∃ query ∈ c.queriesFor e.types, c.rowsOn ⟨e.id, space⟩ query = .error err := by
  unfold found at h
  cases hspace : c.spaceOf e with
  | none =>
    rw [hspace] at h
    cases h
  | some space =>
    rw [hspace] at h
    dsimp only at h
    cases hreported : c.reportedOn ⟨e.id, space⟩ e.types with
    | error err' =>
      rw [hreported] at h
      cases h
      exact ⟨space, exists_rowsOn_of_reportedOn hreported⟩
    | ok es =>
      rw [hreported] at h
      cases h

/-- A statement that cannot be evaluated is not invalid, so only the interpreter says so. -/
theorem exists_fault_of_rowsOn {query : Query} {reason : String}
    (h : c.rowsOn id query = .error (.validation reason)) :
    ∃ fault, query.interpret = .error fault ∧ fault.message = reason := by
  rw [rowsOn_eq] at h
  cases hinterpret : query.interpret with
  | error fault =>
    rw [hinterpret] at h
    cases h
    exact ⟨fault, rfl, rfl⟩
  | ok spec =>
    rw [hinterpret] at h
    rcases evaluate_eq_error h with ⟨_, hother⟩ | ⟨_, hother⟩ <;> cases hother

/-- A query that cannot be interpreted fails on every instance. -/
theorem rowsOn_of_fault {query : Query} {fault : InterpretFault}
    (h : query.interpret = .error fault) (id : InstanceId) :
    c.rowsOn id query = .error fault.toError := by
  rw [rowsOn_eq, h]
  rfl

/-- The instances of a type of which one query cannot be interpreted are not even read. -/
theorem found_summary_ne_ok {doc : Document} {query : Query} {fault : InterpretFault}
    (hquery : query ∈ c.queriesFor doc.types) (h : query.interpret = .error fault)
    (es : List Element) : c.found (summary doc) ≠ .ok es := by
  intro hfound
  rw [found_summary, reportedOn] at hfound
  cases hrows : (c.queriesFor doc.types).mapM (c.rowsOn ⟨doc.id, doc.space⟩) with
  | error err =>
    rw [hrows] at hfound
    cases hfound
  | ok rows => exact mapM_ne_ok hquery (rowsOn_of_fault h _) rows hrows

end ScopeRun

/-! ## Scopes -/

namespace Store

open ScopeRun

variable {st : Store} {settings : Settings} {stage : Stage} {id : InstanceId}
  {options : ScopeOptions}

/-- A scope that is refused as invalid is refused for a query that is run and cannot be
interpreted. -/
theorem exists_fault_of_scope {reason : String}
    (h : (st.scope settings stage id options).1 = .error (.validation reason)) :
    ∃ q, Runs ⟨st, settings, stage, options⟩ q ∧
      ∃ fault, q.query.interpret = .error fault ∧ fault.message = reason := by
  have hstored : ∃ doc, (st.data stage).get? id.uuid = some doc ∧ doc.space = id.space := by
    by_contra hnot
    have hnone := (scope_eq_none_iff settings options).mpr
      fun doc hdoc hspace => hnot ⟨doc, hdoc, hspace⟩
    rw [hnone] at h
    cases h
  rcases hstored with ⟨doc, hdoc, hspace⟩
  rcases scope_of_stored settings options hdoc hspace with
    ⟨f, t₀, last, t, -, -, hsome⟩ | ⟨err, hfails, herror⟩
  · rw [hsome] at h
    cases h
  · rw [herror] at h
    cases h
    rcases hfails.exists_found with ⟨e, hfound⟩
    rcases exists_rowsOn_of_found hfound with ⟨space, query, hquery, hrows⟩
    rcases mem_queriesFor.mp hquery with ⟨q, hruns, -, rfl⟩
    exact ⟨q, hruns, exists_fault_of_rowsOn hrows⟩

/-- An instance has no scope if one of the queries for its types cannot be interpreted. -/
theorem exists_scope_error {doc : Document} (hdoc : (st.data stage).get? id.uuid = some doc)
    (hspace : doc.space = id.space) {q : ScopeQuery}
    (hruns : Runs ⟨st, settings, stage, options⟩ q) (htype : q.type ∈ doc.types)
    {fault : InterpretFault} (hfault : q.query.interpret = .error fault) :
    ∃ err, (st.scope settings stage id options).1 = .error err := by
  rcases scope_of_stored settings options hdoc hspace with
    ⟨f, t₀, last, t, hexpands, -, -⟩ | ⟨err, -, herror⟩
  · cases hexpands with
    | cons hfound _ _ =>
      have hquery := mem_queriesFor.mpr ⟨q, hruns, htype, rfl⟩
      exact absurd hfound (found_summary_ne_ok hquery hfault _)
  · exact ⟨err, herror⟩

/-- A store was loaded from a fixture, and more scope queries were registered in it. All of its
queries have their parts. A scope is refused as invalid only if a query that is run has a fault in
its items, which is the reason that is given; so never, if these queries are all well-formed. And
as soon as one of them is not, no stored instance of its type has a scope. -/
theorem scope_faults {f : Fixture} {loaded : Store} (hloaded : f.store = .ok loaded)
    {queries : List ScopeQueryPayload} (hregistered : loaded.registerAll queries = .ok st)
    (settings : Settings) (stage : Stage) (options : ScopeOptions) :
    let c : ScopeRun := ⟨st, settings, stage, options⟩
    let scope (id : InstanceId) := (st.scope settings stage id options).1
    st.Checked ∧
    (∀ id reason, scope id = .error (.validation reason) → ∃ q, c.Runs q ∧
      ∃ fault, q.query.interpret = .error fault ∧ fault.OfItems ∧ fault.message = reason) ∧
    ((∀ q, c.Runs q → q.query.WellFormed) → ∀ id reason, scope id ≠ .error (.validation reason)) ∧
    ∀ q, c.Runs q → ¬ q.query.WellFormed → ∀ id doc, (st.data stage).get? id.uuid = some doc →
      doc.space = id.space → q.type ∈ doc.types → ∃ err, scope id = .error err := by
  intro c scope
  have hchecked : st.Checked := checked_registerAll (checked_store hloaded) hregistered
  refine ⟨hchecked, fun id reason h => ?_, fun hwell id reason h => ?_, ?_⟩
  · rcases exists_fault_of_scope h with ⟨q, hruns, fault, hfault, hreason⟩
    have hitems := Query.ofItems_of_interpret (hchecked q hruns.1) hfault
    exact ⟨q, hruns, fault, hfault, hitems, hreason⟩
  · rcases exists_fault_of_scope h with ⟨q, hruns, fault, hfault, -⟩
    rcases q.query.interpret_cases with ⟨spec, hspec, -⟩ | ⟨fault', -, hill⟩
    · rw [hspec] at hfault
      cases hfault
    · exact hill (hwell q hruns)
  · intro q hruns hill id doc hdoc hspace htype
    rcases q.query.interpret_cases with ⟨spec, -, hwell, -⟩ | ⟨fault, hfault, -⟩
    · exact absurd hwell hill
    · exact exists_scope_error hdoc hspace hruns htype hfault

/-! ### A bookcase -/

namespace Bookcase

def paper : Document := ⟨⟨1⟩, "shelf", ["Paper"], none, []⟩

def fixture : Fixture where
  stages := [(.inProgress, ⟨[paper], []⟩)]
  scopeQueries := []
  excluded := []
  relevant := none

/-- A query of two fields with one name. -/
def payload : ScopeQueryPayload where
  type := "Paper"
  space := "queries"
  payload := .object [("meta", .object [("type", .string "Paper")]),
    ("structure", .array (["id", "id"].map fun name =>
      .object [("path", .string "@id"), ("propertyName", .string name)]))]

def query : ScopeQuery where
  type := "Paper"
  space := "queries"
  query := ⟨some ⟨some (.bare "Paper"), none, none, none⟩,
    some (.many [Study.item "id" "@id" none, Study.item "id" "@id" none])⟩

def loaded : Store := setData .empty .inProgress ⟨[paper], []⟩

def registered : Store := { loaded with scopeQueries := [query] }

end Bookcase

open Bookcase in
/-- A query that gives one key to two fields is registered, and then its instance has no scope. -/
theorem scope_faults_bookcase :
    fixture.store = .ok loaded ∧ loaded.registerAll [payload] = .ok registered ∧
    ¬ query.query.WellFormed ∧ registered.Checked ∧
    ∃ err, (registered.scope .default .inProgress ⟨paper.id, paper.space⟩ ⟨false, false⟩).1 =
      .error err := by
  have hloaded : fixture.store = .ok loaded := rfl
  have hregistered : loaded.registerAll [payload] = .ok registered := rfl
  have hruns : Runs ⟨registered, .default, .inProgress, ⟨false, false⟩⟩ query :=
    ⟨List.mem_singleton_self query, by decide +kernel⟩
  have hill : ¬ query.query.WellFormed := fun hwell =>
    absurd hwell.keys.nodup (by decide +kernel)
  rcases scope_faults hloaded hregistered .default .inProgress ⟨false, false⟩ with
    ⟨hchecked, -, -, hfails⟩
  exact ⟨hloaded, hregistered, hill, hchecked,
    hfails query hruns hill ⟨paper.id, paper.space⟩ paper rfl rfl (List.mem_singleton_self _)⟩

end Store

end GraphQuery
