import GraphQuery.Proofs.AqlScripts
import GraphQuery.Proofs.CypherScripts
import GraphQuery.Proofs.Identifiers
import Mathlib.Data.List.Nodup

/-!
# GraphQuery.Proofs.Bindings — values that no name of the client's takes over

The library names some placeholders itself. Others are named after parameters of the client, and
of one name the last value counts.

1. **Names of the client** end in ways of their own, whatever the parameters are.
2. **Names of the library** keep the values that they were given, in both dialects.
-/

namespace GraphQuery

open Json

/-! ## Names of the client -/

/-- A placeholder of a condition ends in a digit, or in the last letter of the filter on ids. -/
def Plan.NamedApart (plan : Plan) : Prop :=
  ∀ c ∈ plan.conditions, Text.EndsIn (fun c => c.isDigit || c == 'r') (Text.safe c.bindName)

/-- The name of a condition ends as the name that it is given for its place. -/
theorem Condition.endsIn_resolve {p : Char → Bool} {name : String}
    (h : Text.EndsIn p (Text.safe name)) (f : ValueFilter) (values : Dictionary String) :
    Text.EndsIn p (Text.safe (Condition.resolve f values name).bindName) := by
  unfold Condition.resolve
  dsimp only
  split
  · -- a parameter only stands before the name
    rw [Text.safe_append]
    exact h.append _
  · exact h

/-- The conditions of a plan that is built from a specification have names apart. -/
theorem Plan.namedApart_build (spec : Specification) (r : Request) :
    (Plan.build spec r).NamedApart := by
  have hproperty (i : Nat) : Text.EndsIn (fun c => c.isDigit || c == 'r')
      (Text.safe s!"staticFilter{i}") := by
    have hdigit := (Text.endsIn_toString i).append (Text.safe "staticFilter")
    rw [← Text.safe_toString i, ← Text.safe_append] at hdigit
    exact hdigit.mono fun c hc => by simp [hc]
  have hid : Text.EndsIn (fun c => c.isDigit || c == 'r') (Text.safe "documentFilter") :=
    ⟨'r', by decide, by decide⟩
  intro c hc
  rcases List.mem_append.mp hc with hc | hc
  · -- a condition on a property: its name ends in an index
    rcases List.mem_map.mp hc with ⟨⟨i, c⟩, hmem, rfl⟩
    rcases List.mem_filterMap.mp hmem with ⟨p, -, hp⟩
    rcases Option.map_eq_some_iff.mp hp with ⟨c', hcondition, heq⟩
    cases heq
    rcases Option.bind_eq_some_iff.mp hcondition with ⟨f, -, hresolve⟩
    dsimp only at hresolve
    split at hresolve
    · cases hresolve
      exact Condition.endsIn_resolve (hproperty p.index) f r.filterValues
    · cases hresolve
  · -- the filter on ids
    rcases Option.filter_eq_some_iff.mp (Option.mem_toList.mp hc) with ⟨hresolve, -⟩
    rcases Option.map_eq_some_iff.mp hresolve with ⟨f, -, rfl⟩
    exact Condition.endsIn_resolve hid f r.filterValues

/-! ## Names of the library -/

/-- If the names of the client end otherwise, the library's own placeholders carry what they
should. -/
theorem Draft.get?_of_own (sigil : Sigil) {Q : String → Value → Prop} {script : Script}
    {own : List (String × Value)} {p : Char → Bool} (hfits : Script.Fits Q script)
    (hentries : ∀ e ∈ own, e ∈ Script.entries script) (hnodup : (own.map Prod.fst).Nodup)
    (hapart : ∀ e ∈ own, Text.safe e.1 = e.1 ∧ e.1.toList.getLast?.any p = false)
    (hclient : ∀ key v, Q key v → (key, v) ∈ own ∨ Text.EndsIn p (Text.safe key))
    {name : String} {value : Value} (h : (name, value) ∈ own) :
    ((Draft.empty sigil).runAll script).bindings.get? name = some value := by
  apply get?_bindings_eq_some (hentries _ h)
  -- any other value of the name comes from the library too, or the name ends otherwise
  intro v hv
  rcases Script.exists_of_mem_entries hfits hv with ⟨key, hkey, hQ⟩
  rcases hclient key v hQ with hmem | hends
  · rw [(hapart _ hmem).1] at hkey
    have hsame := List.inj_on_of_nodup_map hnodup hmem h hkey
    exact (Prod.ext_iff.mp hsame).2
  · exact absurd hkey (hends.ne (hapart _ h).2)

namespace Aql

variable {plan : Plan}

/-- The names of placeholders that a statement has of its own. -/
def ownNames : List String :=
  ["readAccessBySpace", "readAccessByInvitation", "@rootCollection", "rootId", "@typeCollection",
    "typeId", "@typeRelation", "spaceRestriction"]

/-- None of them ends as the names do that are made for properties. -/
theorem apart_ownNames : ∀ name ∈ ownNames, Text.safe name = name ∧
    name.toList.getLast?.any (fun c => (c.isDigit || c == 'r') || c == 's') = false := by
  decide

theorem mem_ownNames (plan : Plan) : ∀ e ∈ own plan, e.1 ∈ ownNames := by
  unfold own ownNames
  cases plan.access <;> cases plan.root <;> cases plan.spaces <;> simp

/-- A statement writes its own placeholders. -/
theorem mem_entries_of_mem_own {e : String × Value} (h : e ∈ own plan) :
    e ∈ Script.entries (script plan) := by
  have hsafe : ∀ name ∈ ownNames, Text.safe name = name := fun name hname =>
    (apart_ownNames name hname).1
  simp only [ownNames, List.forall_mem_cons] at hsafe
  -- they are all bound at the head of the statement
  have hhead : e ∈ Script.entries (accessLists plan.access) ++
      Script.entries (rootSelection plan.root) ++ Script.entries (guards plan root) := by
    unfold own at h
    revert h
    unfold accessLists rootSelection guards
    cases plan.access <;> cases plan.root <;> cases plan.spaces <;>
      simp [hsafe, Command.fragment, root]
  unfold script selection
  simp only [Script.entries_append, List.mem_append] at hhead ⊢
  tauto

/-- Its own placeholders have different names. -/
theorem nodup_own (plan : Plan) : ((own plan).map Prod.fst).Nodup := by
  unfold own
  cases plan.access <;> cases plan.root <;> cases plan.spaces <;> simp

/-- The library's own placeholders carry what they should. -/
theorem get?_own (sigil : Sigil) (hnames : plan.NamedApart) {name : String} {value : Value}
    (h : (name, value) ∈ own plan) :
    ((Draft.empty sigil).runAll (script plan)).bindings.get? name = some value := by
  apply Draft.get?_of_own sigil (fits_script plan) (fun _ => mem_entries_of_mem_own)
    (nodup_own plan) (fun _ he => apart_ownNames _ (mem_ownNames plan _ he)) _ h
  intro key v hplaceholder
  cases hplaceholder with
  | own h => exact .inl h
  | types p hop ts =>
    -- the types of a hop end in `s`, as no name of the library does
    right
    rw [Text.safe_append]
    exact Text.EndsIn.append ⟨'s', by decide, by decide⟩ _
  | operand hc | like hc => exact .inr ((hnames _ hc).mono fun c h => by simp [h])

end Aql

namespace Cypher

variable {plan : Plan}

/-- The names of placeholders that a statement has of its own. -/
def ownNames : List String := ["allowedSpaces", "allowedInstances", "rootId", "spaceRestriction"]

/-- None of them ends as the names do that are made for properties. -/
theorem apart_ownNames : ∀ name ∈ ownNames, Text.safe name = name ∧
    name.toList.getLast?.any (fun c => c.isDigit || c == 'r') = false := by
  decide

theorem mem_ownNames (plan : Plan) : ∀ e ∈ own plan, e.1 ∈ ownNames := by
  unfold own ownNames
  cases plan.access <;> cases plan.root <;> cases plan.spaces <;> simp

/-- The entries of a clause are those of its conditions. -/
theorem entries_clause (conditions : List Fragment) :
    Script.entries (clause conditions) = conditions.flatMap Fragment.entries := by
  unfold clause whereClause conjunction
  cases conditions with
  | nil => rfl
  | cons c rest =>
    have hjoin := Fragment.entries_join " AND " (c :: rest)
    simp [Command.fragment, hjoin]

/-- A statement writes its own placeholders. -/
theorem mem_entries_of_mem_own {e : String × Value} (h : e ∈ own plan) :
    e ∈ Script.entries (script plan) := by
  have hsafe : ∀ name ∈ ownNames, Text.safe name = name := fun name hname =>
    (apart_ownNames name hname).1
  simp only [ownNames, List.forall_mem_cons] at hsafe
  have hhead : e ∈ Script.entries (accessLists plan.access) ++
      Script.entries (rootSelection plan.stage plan.root) ++
        (guards plan root).flatMap Fragment.entries := by
    unfold own at h
    revert h
    unfold accessLists rootSelection guards
    cases plan.access <;> cases plan.root <;> cases plan.spaces <;>
      simp [hsafe, Command.fragment, root, ticked]
  unfold script selection
  simp only [Script.entries_append, entries_clause, List.flatMap_append, List.mem_append]
    at hhead ⊢
  tauto

/-- Its own placeholders have different names. -/
theorem nodup_own (plan : Plan) : ((own plan).map Prod.fst).Nodup := by
  unfold own
  cases plan.access <;> cases plan.root <;> cases plan.spaces <;> simp

/-- The library's own placeholders carry what they should. -/
theorem get?_own (sigil : Sigil) (hnames : plan.NamedApart) {name : String} {value : Value}
    (h : (name, value) ∈ own plan) :
    ((Draft.empty sigil).runAll (script plan)).bindings.get? name = some value := by
  apply Draft.get?_of_own sigil (fits_script plan) (fun _ => mem_entries_of_mem_own)
    (nodup_own plan) (fun _ he => apart_ownNames _ (mem_ownNames plan _ he)) _ h
  intro key v hplaceholder
  cases hplaceholder with
  | own h => exact .inl h
  | types p hop ts =>
    right
    rw [Text.safe_append, Text.safe_toString]
    exact ((Text.endsIn_toString hop).append _).mono fun c h => by simp [h]
  | operand hc => exact .inr (hnames _ hc)

end Cypher

end GraphQuery
