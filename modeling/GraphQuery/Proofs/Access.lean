import GraphQuery.Proofs.Failure
import GraphQuery.Proofs.Membership

/-!
# GraphQuery.Proofs.Access — which documents take part

Three places decide together who reads what: the candidate spaces of a filter, the filter itself,
and the restriction of the plan. Here they are reduced to one rule on the grants of the user.

1. **The rule**: the documents that a submission of a user shows, and the submissions that are
   refused.
2. **Filters** hold exactly the granted spaces among the candidates, and the granted instances.
3. **Plans** that a submission is run as let exactly the documents of the rule take part.
4. **Refusals**: nothing after the check of access refuses a submission, and what is refused would
   have shown nothing.
5. **Queries** of users follow the rule.
-/

namespace GraphQuery

/-! ## The rule -/

/-- Whether a grant reaches a document. -/
def Grant.covers : Grant → Document → Bool
  | .everywhere, _ => true
  | .space name, d => name == d.space
  | .document id, d => id = d.id

/-- Whether a user may read a document of a stage. -/
def User.mayRead (u : User) (stage : Stage) (d : Document) : Bool :=
  (Functionality.forReading stage).any fun f => (u.grants f).any (·.covers d)

namespace Submission

/-- Whether a document may take part in the answer to a submission of a user. -/
def shows (s : Submission) (u : User) (d : Document) : Bool :=
  u.mayRead s.stage d && (s.spaces.isEmpty || s.spaces.contains d.space)

/-- Spaces are requested, but the user has no grant that could reach a document in them. -/
def Refused (s : Submission) (u : User) : Prop :=
  s.spaces ≠ [] ∧ ∀ f, Functionality.forReading s.stage = some f →
    .everywhere ∉ u.grants f ∧ (∀ name ∈ s.spaces, .space name ∉ u.grants f) ∧
      ∀ id, .document id ∉ u.grants f

end Submission

/-- The plans of the statements of a compiled query. -/
def Compiled.plans (c : Compiled) : List Plan :=
  c.statement.plan :: (c.count.map Statement.plan).toList

/-! ## Filters -/

namespace User

variable {u : User} {f : Functionality}

/-- A user may act in all spaces exactly when there is such a grant. -/
theorem holdsEverywhere_iff : u.holdsEverywhere f = true ↔ .everywhere ∈ u.grants f := by
  simp [holdsEverywhere]

/-- The spaces of a user are the candidates that were granted. -/
theorem mem_spaces (h : u.holdsEverywhere f = false) {candidates : Names} {name : String} :
    name ∈ u.spaces f candidates ↔ .space name ∈ u.grants f ∧ name ∈ candidates := by
  simp only [spaces, h, Bool.false_eq_true, if_false, Names.mem_ofList, List.mem_filterMap]
  -- only a grant on a space names one, and only a candidate is kept
  constructor
  · rintro ⟨g, hg, hname⟩
    cases g with
    | everywhere => simp at hname
    | document id => simp at hname
    | space s =>
      simp only [List.contains_iff_mem, Option.ite_none_right_eq_some, Option.some.injEq] at hname
      rcases hname with ⟨hs, rfl⟩
      exact ⟨hg, hs⟩
  · rintro ⟨hg, hcandidate⟩
    exact ⟨_, hg, by simp [hcandidate]⟩

theorem mem_instances {id : Uuid} : id ∈ u.instances f ↔ .document id ∈ u.grants f := by
  simp only [instances, Uuid.mem_setOf, List.mem_filterMap]
  -- only a grant on a document has an id
  constructor
  · rintro ⟨g, hg, hid⟩
    cases g with
    | everywhere => simp at hid
    | space s => simp at hid
    | document v =>
      obtain rfl : v = id := by simpa using hid
      exact hg
  · intro hg
    exact ⟨_, hg, rfl⟩

/-- Some grant covers a document when it is for all spaces, for its space or for itself. -/
theorem any_covers_iff {d : Document} :
    (u.grants f).any (·.covers d) = true ↔
      .everywhere ∈ u.grants f ∨ .space d.space ∈ u.grants f ∨ .document d.id ∈ u.grants f := by
  rw [List.any_eq_true]
  constructor
  · rintro ⟨g, hg, hcovers⟩
    cases g with
    | everywhere => exact .inl hg
    | space name =>
      obtain rfl : name = d.space := by simpa [Grant.covers] using hcovers
      exact .inr (.inl hg)
    | document id =>
      obtain rfl : id = d.id := by simpa [Grant.covers] using hcovers
      exact .inr (.inr hg)
  · rintro (hg | hg | hg)
    · exact ⟨_, hg, rfl⟩
    · exact ⟨_, hg, by simp [Grant.covers]⟩
    · exact ⟨_, hg, by simp [Grant.covers]⟩

end User

/-! ## Plans -/

namespace Plan

/-- The restriction to no spaces is none. -/
theorem visible_build (spec : Specification) (r : Request) (space : String) (id : Uuid) :
    (build spec r).visible space id =
      (r.access.all (·.permits space id) &&
        r.spaces.all fun names => names.isEmpty || names.contains space) := by
  unfold visible build
  cases r.spaces with
  | none => simp
  | some names =>
    cases names with
    -- the plan drops an empty restriction
    | nil => simp [Option.filter]
    | cons n rest => simp [Option.filter]

end Plan

namespace Submission

variable (s : Submission) (u : User)

/-- A document of the stage passes the filter exactly if the user may read it, as far as the space
of the document is among the requested ones. -/
theorem permits_resolve {data : StageData} {d : Document} (hd : d ∈ data.documents)
    (hspace : s.spaces = [] ∨ d.space ∈ s.spaces) :
    (AccessFilter.resolve u s.stage data.spaces s.spaces).all (·.permits d.space d.id) =
      u.mayRead s.stage d := by
  unfold AccessFilter.resolve User.mayRead
  cases hf : Functionality.forReading s.stage with
  -- nobody reads a stage without a functionality: the filter lets nothing pass
  | none => simp [AccessFilter.nothing, AccessFilter.permits]
  | some f =>
    simp only [AccessFilter.resolveFor, Option.any_some]
    by_cases heverywhere : u.holdsEverywhere f = true
    · -- a grant everywhere: there is no filter
      have hcovers : (u.grants f).any (·.covers d) = true :=
        User.any_covers_iff.mpr (.inl (User.holdsEverywhere_iff.mp heverywhere))
      simp [heverywhere, hcovers]
    · have hnot : u.holdsEverywhere f = false := by simpa using heverywhere
      -- the space of the document is a candidate, since it is stored or requested
      have hcandidate :
          d.space ∈ if s.spaces.isEmpty then data.spaces else Names.ofList s.spaces := by
        rcases hspace with hempty | hmem
        · simp only [hempty, List.isEmpty_nil, if_true, StageData.spaces, Names.mem_ofList]
          exact List.mem_map_of_mem hd
        · have hne : s.spaces.isEmpty = false := by
            cases hs : s.spaces with
            | nil => simp [hs] at hmem
            | cons => rfl
          simpa [hne] using hmem
      rw [Bool.eq_iff_iff, User.any_covers_iff]
      simp only [hnot, Bool.false_eq_true, if_false, Option.all_some, AccessFilter.permits,
        Bool.or_eq_true, List.contains_iff_mem, User.mem_spaces hnot, User.mem_instances,
        hcandidate, and_true, ← User.holdsEverywhere_iff, false_or]

/-- Every plan for a submission lets exactly those documents take part that the submission shows. -/
theorem visible_eq_shows {data : StageData} {d : Document} (hd : d ∈ data.documents)
    (spec : Specification) {r : Request}
    (haccess : r.access = AccessFilter.resolve u s.stage data.spaces s.spaces)
    (hspaces : r.spaces = if s.spaces.isEmpty then none else some s.spaces) :
    (Plan.build spec r).visible d.space d.id = s.shows u d := by
  rw [Plan.visible_build, haccess, hspaces, shows]
  by_cases hspace : s.spaces = [] ∨ d.space ∈ s.spaces
  · -- the restriction lets the document pass, so the filter decides
    rw [permits_resolve s u hd hspace]
    rcases hspace with hempty | hmem
    · simp [hempty]
    · by_cases hempty : s.spaces = [] <;> simp [hempty, hmem]
  · -- the space is not requested: the restriction turns the document away
    rcases not_or.mp hspace with ⟨hne, hnot⟩
    have hempty : s.spaces.isEmpty = false := by simpa using hne
    simp [hempty, hnot]

/-! ## Refusals -/

/-- What the access of a user is, with the refusal spelled out. -/
theorem access_of_user (all : Names) :
    s.access (some u) all =
      if !s.spaces.isEmpty && (AccessFilter.resolve u s.stage all s.spaces).any (·.isEmpty) then
        .error (.forbidden s!"user {u.id} cannot read any of the requested spaces")
      else .ok (AccessFilter.resolve u s.stage all s.spaces) := rfl

theorem access_eq_resolve {all : Names} {access : Option AccessFilter}
    (h : s.access (some u) all = .ok access) :
    access = AccessFilter.resolve u s.stage all s.spaces := by
  rw [access_of_user] at h
  split at h
  · cases h
  · exact (Except.ok.inj h).symm

/-- A filter that was made for requested spaces does not depend on the spaces that exist. -/
theorem resolve_isEmpty_iff (all : Names) (h : s.spaces ≠ []) :
    (AccessFilter.resolve u s.stage all s.spaces).any (·.isEmpty) = true ↔ s.Refused u := by
  unfold AccessFilter.resolve Refused
  cases hf : Functionality.forReading s.stage with
  | none => simp [AccessFilter.nothing, AccessFilter.isEmpty, h]
  | some f =>
    -- the candidates are the requested spaces, so `all` does not matter
    have hne : s.spaces.isEmpty = false := by simpa using h
    simp only [AccessFilter.resolveFor, Option.some.injEq, forall_eq', hne]
    by_cases heverywhere : u.holdsEverywhere f = true
    · simp [heverywhere, User.holdsEverywhere_iff.mp heverywhere]
    · have hnot : u.holdsEverywhere f = false := by simpa using heverywhere
      have hgrant : .everywhere ∉ u.grants f := by rwa [← User.holdsEverywhere_iff]
      simp only [hnot, Bool.false_eq_true, if_false, Option.any_some, AccessFilter.isEmpty,
        Bool.and_eq_true, List.isEmpty_iff, List.eq_nil_iff_forall_not_mem, User.mem_spaces hnot,
        User.mem_instances, Names.mem_ofList]
      constructor
      · rintro ⟨hspaces, hinstances⟩
        exact ⟨h, hgrant, fun name hmem hname => hspaces name ⟨hname, hmem⟩, hinstances⟩
      · rintro ⟨-, -, hspaces, hinstances⟩
        exact ⟨fun name hname => hspaces name hname.2 hname.1, hinstances⟩

/-- The check of access fails exactly for the submissions that are refused. -/
theorem access_eq_error_iff (all : Names) :
    (∃ e, s.access (some u) all = .error e) ↔ s.Refused u := by
  rw [access_of_user]
  by_cases h : s.spaces = []
  · -- no space is requested: there is nothing to refuse
    simp [h, Refused]
  · rw [← resolve_isEmpty_iff s u all h]
    have hne : s.spaces.isEmpty = false := by simpa using h
    by_cases hempty : (AccessFilter.resolve u s.stage all s.spaces).any (·.isEmpty) = true
    · simp [hne, hempty]
    · simp [hne, hempty]

/-- A submission that is refused shows no document. -/
theorem shows_of_refused {s : Submission} {u : User} (h : s.Refused u) (d : Document) :
    s.shows u d = false := by
  rcases h with ⟨hne, hgrants⟩
  rw [shows, Bool.and_eq_false_iff]
  by_cases hspace : d.space ∈ s.spaces
  · -- the space is requested, but no grant reaches the document
    left
    unfold User.mayRead
    cases hf : Functionality.forReading s.stage with
    | none => rfl
    | some f =>
      rcases hgrants f hf with ⟨heverywhere, hspaces, hinstances⟩
      rw [Option.any_some, Bool.eq_false_iff, Ne, User.any_covers_iff]
      rintro (hg | hg | hg)
      · exact heverywhere hg
      · exact hspaces d.space hspace hg
      · exact hinstances d.id hg
  · -- the space is not requested
    right
    simp [hne, hspace]

end Submission

/-! ## Queries -/

namespace Store

variable {st : Store} {settings : Settings} {s : Submission} {u : User} {q : Query}

/-- Plans of a query carry the access filter and the spaces of its request. -/
theorem visible_of_prepare {r : Request} {c : Compiled} (hc : st.prepare settings q r = .ok c)
    {plan : Plan} (hplan : plan ∈ c.plans) :
    ∃ spec r', r'.access = r.access ∧ r'.spaces = r.spaces ∧
      plan.visible = (Plan.build spec r').visible := by
  unfold prepare at hc
  cases hspec : q.interpret with
  | error fault =>
    rw [hspec] at hc
    cases hc
  | ok spec =>
    rw [hspec] at hc
    cases hc
    let r' := { r with
      known := some (st.collections r.stage), memory := r.memory.or settings.memory }
    refine ⟨spec, r', rfl, rfl, ?_⟩
    simp only [Compiled.plans, Specification.compile, Plan.compile, List.mem_cons,
      Option.mem_toList, Option.map_eq_some_iff] at hplan
    rcases hplan with rfl | ⟨count, hcount, rfl⟩
    · rfl
    · -- the plan that counts has the access and the spaces of the other one
      split at hcount
      · cases hcount
        rfl
      · cases hcount

variable (settings) in
/-- When a payload is parsed and the access granted, the answer is that of the query. -/
theorem answer_of_parsed (hq : Query.ofValue s.payload = .ok q) {access : Option AccessFilter}
    (haccess : s.access (some u) (st.data s.stage).spaces = .ok access) :
    ∃ f, (st.answer settings (some u) s).result =
      (st.runQuery settings q (s.request access)).result.map f := by
  unfold answer
  rw [hq]
  simp only [mapError_ok, bind, Except.bind, haccess, pure, Except.pure]
  -- a vocabulary changes the rows of a stream, and adds no failure
  cases q.vocabulary? with
  | none => exact ⟨id, by cases (st.runQuery settings q (s.request access)).result <;> rfl⟩
  | some v => exact ⟨_, rfl⟩

/-- A refusal is the answer. -/
theorem answer_of_refused (hq : Query.ofValue s.payload = .ok q) {e : Error}
    (haccess : s.access (some u) (st.data s.stage).spaces = .error e) :
    (st.answer settings (some u) s).result = .error e := by
  unfold answer
  rw [hq]
  simp only [mapError_ok, bind, Except.bind, haccess]

/-- The answer is Forbidden exactly when the user is refused. -/
theorem answer_forbidden_iff (hq : Query.ofValue s.payload = .ok q) :
    (∃ reason, (st.answer settings (some u) s).result = .error (.forbidden reason)) ↔
      s.Refused u := by
  rw [← Submission.access_eq_error_iff s u (st.data s.stage).spaces]
  cases haccess : s.access (some u) (st.data s.stage).spaces with
  | error e =>
    have hforbidden : ∃ reason, e = .forbidden reason := by
      rw [Submission.access_of_user] at haccess
      split at haccess
      · cases haccess
        exact ⟨_, rfl⟩
      · cases haccess
    rcases hforbidden with ⟨reason, rfl⟩
    rw [answer_of_refused hq haccess]
    simp
  | ok access =>
    rcases answer_of_parsed settings hq haccess with ⟨f, hanswer⟩
    rw [hanswer]
    -- past the check of access, nothing is forbidden
    constructor
    · rintro ⟨reason, hreason⟩
      exfalso
      cases hrun : (st.runQuery settings q (s.request access)).result with
      | ok stream =>
        rw [hrun] at hreason
        cases hreason
      | error e =>
        rw [hrun] at hreason
        cases hreason
        exact runQuery_ne_forbidden st settings q (s.request access) reason hrun
    · rintro ⟨e, he⟩
      cases he

/-- Who reads what. The plans of a user's query let a stored document take part exactly if the
user holds what it takes to read the stage on the document, its space or everywhere, and the
document's space is requested. A query that can be read is refused exactly if spaces are requested
and no grant of the user could reach a document in them, and then no plan for it would let any
document take part. -/
theorem takes_part_iff_shown (st : Store) (settings : Settings) (u : User) (s : Submission) :
    (∀ q access c, Query.ofValue s.payload = .ok q →
      s.access (some u) (st.data s.stage).spaces = .ok access →
      st.prepare settings q (s.request access) = .ok c →
      ∀ plan ∈ c.plans, ∀ d ∈ (st.data s.stage).documents,
        plan.visible d.space d.id = s.shows u d) ∧
    (∀ q, Query.ofValue s.payload = .ok q →
      ((∃ reason, (st.answer settings (some u) s).result = .error (.forbidden reason)) ↔
        s.Refused u)) ∧
    (∀ reason, (st.answer settings (some u) s).result = .error (.forbidden reason) →
      ∀ d ∈ (st.data s.stage).documents, s.shows u d = false ∧ ∀ spec,
        (Plan.build spec (s.request
          (AccessFilter.resolve u s.stage (st.data s.stage).spaces s.spaces))).visible
            d.space d.id = false) := by
  refine ⟨?_, fun q hq => answer_forbidden_iff hq, ?_⟩
  · intro q access c hq haccess hc plan hplan d hd
    rcases visible_of_prepare hc hplan with ⟨spec, r, hr, hspaces, hvisible⟩
    rw [hvisible]
    refine Submission.visible_eq_shows s u hd spec ?_ hspaces
    rw [hr]
    exact Submission.access_eq_resolve s u haccess
  · intro reason hreason d hd
    -- a payload that cannot be read fails for another reason
    have hrefused : s.Refused u := by
      cases hq : Query.ofValue s.payload with
      | ok q => exact (answer_forbidden_iff hq).mp ⟨reason, hreason⟩
      | error fault =>
        unfold answer at hreason
        rw [hq] at hreason
        cases hreason
    have hshows := Submission.shows_of_refused hrefused d
    refine ⟨hshows, fun spec => ?_⟩
    rw [Submission.visible_eq_shows s u hd spec rfl rfl, hshows]

/-! ### A library with an archive -/

namespace Library

/-- A paper in the library. -/
def paper : Document := ⟨⟨1⟩, "library", ["Paper"], none, [("name", .string "On Graphs")]⟩

/-- A letter in the archive, which is another space. -/
def letter : Document := ⟨⟨2⟩, "archive", ["Paper"], none, [("name", .string "Unsent")]⟩

/-- The store that holds both. -/
def shelf : Store := (Store.empty.insert .inProgress paper).insert .inProgress letter

/-- May read what is in the library, nothing else. -/
def visitor : User := ⟨"visitor", [⟨.read, .space "library"⟩]⟩

/-- Asks for the names of all papers. -/
def payload : Json.Value :=
  .object [("meta", .object [("type", .string "Paper")]),
    ("structure", .array [.object [("propertyName", .string "name"), ("path", .string "name")]])]

/-- A query over both, restricted to spaces. -/
def visit (spaces : List String) : Submission := ⟨payload, .inProgress, none, spaces, [], none⟩

end Library

open Store.Library in
/-- The visitor is shown the paper but not the letter, and is refused the archive. -/
theorem takes_part_library :
    (∃ q access c, Query.ofValue (visit []).payload = .ok q ∧
      (visit []).access (some visitor) (shelf.data .inProgress).spaces = .ok access ∧
      shelf.prepare .default q ((visit []).request access) = .ok c ∧
      ∀ plan ∈ c.plans, plan.visible paper.space paper.id = true ∧
        plan.visible letter.space letter.id = false) ∧
    (∃ reason, (shelf.answer .default (some visitor) (visit ["archive"])).result =
      .error (.forbidden reason)) ∧
    (visit ["archive"]).shows visitor letter = false := by
  rcases takes_part_iff_shown shelf .default visitor (visit []) with ⟨hvisible, -, -⟩
  obtain ⟨-, hrefused, hnothing⟩ := takes_part_iff_shown shelf .default visitor (visit ["archive"])
  have hforbidden : ∃ reason, (shelf.answer .default (some visitor) (visit ["archive"])).result =
      .error (.forbidden reason) := by
    refine (hrefused _ rfl).mpr ⟨by decide, ?_⟩
    -- the only grant is on the library
    intro f hf
    obtain rfl : f = .read := (Option.some.inj hf).symm
    simp [User.grants, visitor, visit]
  refine ⟨⟨_, _, _, rfl, rfl, rfl, ?_⟩, hforbidden, ?_⟩
  · intro plan hplan
    have hpaper := hvisible _ _ _ rfl rfl rfl plan hplan paper (.head _)
    have hletter := hvisible _ _ _ rfl rfl rfl plan hplan letter (.tail _ (.head _))
    exact ⟨hpaper.trans rfl, hletter.trans rfl⟩
  · rcases hforbidden with ⟨reason, hreason⟩
    exact (hnothing reason hreason letter (.tail _ (.head _))).1

end Store

end GraphQuery
