import GraphQuery.Proofs.Naming
import GraphQuery.Proofs.PlacedStatements

/-!
# GraphQuery.Proofs.Placeholders — placeholders and bindings correspond

1. **Unique names**: the placeholders of a name carry one value.
2. **Bindings** of a statement are what its placeholders carry.
3. **Names that are read**: a dialect reads the names that are bound, if the parameters of the
   client are words.
-/

namespace GraphQuery

open Json

/-! ## Unique names -/

/-- A plan whose properties have numbers of their own, and whose conditions have names of their
own. -/
structure Plan.NamesApart (plan : Plan) : Prop where
  indices : (plan.spec.allProperties.map Property.index).Nodup
  names : (plan.conditions.map Condition.bindName).Nodup
  safe : ∀ c ∈ plan.conditions, Text.safe c.bindName = c.bindName
  ends : ∀ c ∈ plan.conditions, (∃ i, c.IsNumbered i) ∨ Text.EndsIn (· == 'r') c.bindName

namespace Plan.NamesApart

variable {plan : Plan}

/-- The plan of a query that is interpreted has its names apart. -/
theorem build {q : Query} {spec : Specification} (h : q.interpret = .ok spec) (r : Request) :
    (Plan.build spec r).NamesApart :=
  ⟨Query.nodup_index h, nodup_bindNames (Query.nodup_index h) r, fun _ hc => safe_bindName hc,
    fun _ hc => bindName_cases hc⟩

/-- The step of a hop is told by the alias of the property and the number of the hop. -/
theorem step_unique (hplan : plan.NamesApart) {p p' : Property} {step step' : Step} {hop hop' : Nat}
    (hp : p ∈ plan.spec.allProperties) (hp' : p' ∈ plan.spec.allProperties)
    (hindex : p.index = p'.index) (hstep : (step, hop) ∈ p.edgeSteps.zipIdx)
    (hstep' : (step', hop') ∈ p'.edgeSteps.zipIdx) (hhop : hop = hop') : step = step' := by
  obtain rfl := List.inj_on_of_nodup_map hplan.indices hp hp' hindex
  subst hhop
  rw [List.mem_zipIdx_iff_getElem?] at hstep hstep'
  exact Option.some.inj (hstep.symm.trans hstep')

/-- The bind name of a condition is its own. -/
theorem condition_unique (hplan : plan.NamesApart) {c d : Condition} (hc : c ∈ plan.conditions)
    (hd : d ∈ plan.conditions) (h : c.bindName = d.bindName) : c = d :=
  List.inj_on_of_nodup_map hplan.names hc hd h

/-- The name of a condition ends in a digit, or in the last letter of the filter on documents. -/
theorem endsIn (hplan : plan.NamesApart) {c : Condition} (hc : c ∈ plan.conditions) :
    Text.EndsIn (fun c => c.isDigit || c == 'r') c.bindName := by
  rcases hplan.ends c hc with ⟨i, before, hname, -, -⟩ | hends
  · rw [hname]
    exact ((Text.endsIn_toString i).append before).mono fun c hc => by simp [hc]
  · exact hends.mono fun c hc => by simp [hc]

end Plan.NamesApart

theorem endsIn_types {good : Char → Bool} (h : good 's' = true) (name : String) :
    Text.EndsIn good (name ++ "_types") :=
  Text.EndsIn.append ⟨'s', by decide, h⟩ name

namespace Aql

variable {plan : Plan}

/-- What a placeholder is named after. -/
theorem Carries.safe (hsafe : ∀ c ∈ plan.conditions, Text.safe c.bindName = c.bindName)
    {key : String} {value : Value} (h : Carries plan key value) : Text.safe key = key := by
  cases h with
  | own h => exact (apart_ownNames _ (mem_ownNames plan _ h)).1
  | @types p step hop _ _ =>
    exact (Cypher.isWord_append (isWord_variableName p (.list hop)) (by decide)).safe_eq
  | operand h => exact hsafe _ h

/-- A bound name is one of the fixed names, or ends as the names of a property do. -/
theorem Carries.endsIn (hplan : plan.NamesApart) {key : String} {value : Value}
    (h : Carries plan key value) :
    (key, value) ∈ Aql.own plan ∨ Text.EndsIn (fun c => (c.isDigit || c == 'r') || c == 's') key := by
  cases h with
  | own h => exact .inl h
  | types => exact .inr (endsIn_types rfl _)
  | operand h => exact .inr ((hplan.endsIn h).mono fun c hc => by simp [hc])

/-- Types end otherwise than conditions. -/
theorem types_ne_bindName (hplan : plan.NamesApart) {c : Condition} (hc : c ∈ plan.conditions)
    (name : String) : name ++ "_types" ≠ c.bindName := by
  intro h
  have htypes : Text.EndsIn (· == 's') (name ++ "_types") := endsIn_types rfl name
  obtain ⟨d, hlast, hd⟩ := hplan.endsIn hc
  rw [h] at htypes
  refine htypes.ne (t := c.bindName) ?_ rfl
  rw [hlast, Option.any_some, beq_eq_false_iff_ne]
  rintro rfl
  revert hd
  decide

/-- Placeholders of one name carry one value. -/
theorem Carries.unique (hplan : plan.NamesApart) {key : String} {value other : Value}
    (h : Carries plan key value) (hother : Carries plan key other) : value = other := by
  have hown {name : String} {v w : Value} (hv : (name, v) ∈ Aql.own plan)
      (hw : Carries plan name w) : v = w := by
    rcases hw.endsIn hplan with hw | hends
    · exact (Prod.ext_iff.mp (List.inj_on_of_nodup_map (nodup_own plan) hv hw rfl)).2
    · exact absurd rfl (hends.ne (apart_ownNames _ (mem_ownNames plan _ hv)).2)
  generalize hkey : key = key' at hother
  cases h with
  | own h => exact hown h (hkey ▸ hother)
  | @types p _ hop hp hstep =>
    cases hother with
    | own h => exact (hown h (hkey ▸ .types hp hstep)).symm
    | @types p' _ hop' hp' hstep' =>
      -- the alias of a step tells its property and its number
      have hname : variableName p (.list hop) = variableName p' (.list hop') :=
        (String.append_left_inj _).mp hkey
      obtain ⟨hindex, hrole⟩ := variableName_inj hname
      cases hrole
      rw [hplan.step_unique hp hp' hindex hstep hstep' rfl]
    | operand h => exact absurd hkey (types_ne_bindName hplan h _)
  | operand h =>
    cases hother with
    | own h' => exact (hown h' (hkey ▸ .operand h)).symm
    | types => exact absurd hkey.symm (types_ne_bindName hplan h _)
    | operand h' => rw [hplan.condition_unique h h' hkey]

end Aql

namespace Cypher

variable {plan : Plan}

theorem isWord_types (p : Property) (hop : Nat) :
    IsWord (p.aliasName ++ "_types" ++ toString hop) :=
  isWord_append (isWord_append (isWord_aliasName p) (by decide)) (isWord_toString hop)

/-- Bound names are safe names when those of the conditions are. -/
theorem Carries.safe (hsafe : ∀ c ∈ plan.conditions, Text.safe c.bindName = c.bindName)
    {key : String} {value : Value} (h : Carries plan key value) : Text.safe key = key := by
  cases h with
  | own h => exact (apart_ownNames _ (mem_ownNames plan _ h)).1
  | @types p step hop _ _ => exact (isWord_types p hop).safe_eq
  | operand h => exact hsafe _ h

/-- The same holds of Cypher, where no types are bound. -/
theorem Carries.endsIn (hplan : plan.NamesApart) {key : String} {value : Value}
    (h : Carries plan key value) :
    (key, value) ∈ Cypher.own plan ∨ Text.EndsIn (fun c => c.isDigit || c == 'r') key := by
  cases h with
  | own h => exact .inl h
  | @types p step hop _ _ =>
    exact .inr (((Text.endsIn_toString hop).append _).mono fun c hc => by simp [hc])
  | operand h => exact .inr (hplan.endsIn h)

/-- Before the number of a hop stands another letter than before the number of a condition. -/
theorem types_ne_bindName (hplan : plan.NamesApart) {c : Condition} (hc : c ∈ plan.conditions)
    (name : String) (hop : Nat) : name ++ "_types" ++ toString hop ≠ c.bindName := by
  intro h
  rcases hplan.ends c hc with ⟨i, before, hname, hends, -⟩ | hends
  · rw [hname] at h
    obtain ⟨hbefore, -⟩ := Text.append_toString_inj (endsIn_types rfl name)
      (hends.mono Text.not_isDigit_of_eq) h
    rw [← hbefore] at hends
    refine hends.ne (t := name ++ "_types") ?_ rfl
    obtain ⟨d, hlast, hd⟩ : Text.EndsIn (· == 's') (name ++ "_types") := endsIn_types rfl name
    rw [hlast, Option.any_some, beq_iff_eq.mp hd]
    decide
  · obtain ⟨d, hlast, hd⟩ := (Text.endsIn_toString hop).append (name ++ "_types")
    rw [← h] at hends
    refine hends.ne (t := name ++ "_types" ++ toString hop) ?_ rfl
    rw [hlast, Option.any_some, beq_eq_false_iff_ne]
    rintro rfl
    revert hd
    decide

/-- Placeholders of one name carry one value. -/
theorem Carries.unique (hplan : plan.NamesApart) {key : String} {value other : Value}
    (h : Carries plan key value) (hother : Carries plan key other) : value = other := by
  have hown {name : String} {v w : Value} (hv : (name, v) ∈ Cypher.own plan)
      (hw : Carries plan name w) : v = w := by
    rcases hw.endsIn hplan with hw | hends
    · exact (Prod.ext_iff.mp (List.inj_on_of_nodup_map (nodup_own plan) hv hw rfl)).2
    · exact absurd rfl (hends.ne (apart_ownNames _ (mem_ownNames plan _ hv)).2)
  generalize hkey : key = key' at hother
  cases h with
  | own h => exact hown h (hkey ▸ hother)
  | @types p _ _ hp hstep =>
    cases hother with
    | own h => exact (hown h (hkey ▸ .types hp hstep)).symm
    | @types p' _ _ hp' hstep' =>
      -- the number of the hop comes last, after the alias of the property
      obtain ⟨htypes, rfl⟩ := Text.append_toString_inj (endsIn_types rfl _) (endsIn_types rfl _) hkey
      have hname : Aql.variableName p (.list 0) = Aql.variableName p' (.list 0) :=
        (String.append_left_inj _).mp htypes
      obtain ⟨hindex, -⟩ := Aql.variableName_inj hname
      rw [hplan.step_unique hp hp' hindex hstep hstep' rfl]
    | operand h => exact absurd hkey (types_ne_bindName hplan h _ _)
  | operand h =>
    cases hother with
    | own h' => exact (hown h' (hkey ▸ .operand h)).symm
    | types => exact absurd hkey.symm (types_ne_bindName hplan h _ _)
    | operand h' => rw [hplan.condition_unique h h' hkey]

end Cypher

namespace Dialect

/-- The placeholders of a statement for a plan, with the values that they carry. -/
def Carries : Dialect → Plan → String → Value → Prop
  | aql => Aql.Carries
  | cypher => Cypher.Carries

/-- The placeholders of a script are those that its plan carries. -/
theorem placed_script (d : Dialect) (plan : Plan) :
    Script.Placed d.sigil (d.Carries plan) (d.script plan) := by
  cases d with
  | aql => exact Aql.placed_script plan
  | cypher => exact Cypher.placed_script plan

variable {d : Dialect} {plan : Plan} {key : String} {value other : Value}

/-- In both dialects, bound names are safe when those of the conditions are. -/
theorem Carries.safe (hsafe : ∀ c ∈ plan.conditions, Text.safe c.bindName = c.bindName)
    (h : d.Carries plan key value) : Text.safe key = key := by
  cases d with
  | aql => exact Aql.Carries.safe hsafe h
  | cypher => exact Cypher.Carries.safe hsafe h

/-- No name is bound to two values. -/
theorem Carries.unique (hplan : plan.NamesApart) (h : d.Carries plan key value)
    (hother : d.Carries plan key other) : value = other := by
  cases d with
  | aql => exact Aql.Carries.unique hplan h hother
  | cypher => exact Cypher.Carries.unique hplan h hother

/-- What is read of a placeholder is its name, unless that is the name of a condition and no
word. -/
theorem Carries.isPlaceholderName (hwords : ∀ c ∈ plan.conditions, Cypher.IsWord c.bindName)
    (hnonempty : ∀ c ∈ plan.conditions, c.bindName ≠ "") (h : d.Carries plan key value) :
    IsPlaceholderName d.sigil key := by
  cases d with
  | aql =>
    have hown : ∀ name ∈ Aql.ownNames, IsPlaceholderName .atSign name := by decide
    cases h with
    | own h => exact hown _ (Aql.mem_ownNames plan _ h)
    | @types p step hop _ _ =>
      refine isPlaceholderName_of_word _ (Cypher.isWord_append
        (Aql.isWord_variableName p (.list hop)) (by decide)) ?_
      simp
    | operand h => exact isPlaceholderName_of_word _ (hwords _ h) (hnonempty _ h)
  | cypher =>
    have hown : ∀ name ∈ Cypher.ownNames, IsPlaceholderName .dollar name := by decide
    cases h with
    | own h => exact hown _ (Cypher.mem_ownNames plan _ h)
    | @types p step hop _ _ =>
      refine isPlaceholderName_of_word _ (Cypher.isWord_types p hop) ?_
      simp
    | operand h => exact isPlaceholderName_of_word _ (hwords _ h) (hnonempty _ h)

end Dialect

/-! ## Bindings -/

/-- Where the placeholders of a name carry one value, the name has that value. -/
theorem Script.Fits.get?_bindings {Q : String → Value → Prop} {script : Script}
    (hfits : Script.Fits Q script) (hsafe : ∀ key value, Q key value → Text.safe key = key)
    (hunique : ∀ key value other, Q key value → Q key other → value = other) (sigil : Sigil)
    {name : String} {value : Value} (h : (name, value) ∈ Script.entries script) :
    ((Draft.empty sigil).runAll script).bindings.get? name = some value ∧
      ∀ other, (name, other) ∈ Script.entries script → other = value := by
  have hcarries {v : Value} (hv : (name, v) ∈ Script.entries script) : Q name v := by
    obtain ⟨key, hkey, hQ⟩ := Script.exists_of_mem_entries hfits hv
    rw [hsafe key v hQ] at hkey
    exact hkey ▸ hQ
  have hothers : ∀ other, (name, other) ∈ Script.entries script → other = value := fun other ho =>
    hunique name other value (hcarries ho) (hcarries h)
  exact ⟨Draft.get?_bindings_eq_some h hothers, hothers⟩

/-- No binding is overwritten. All placeholders of a name carry the value that the name is bound to.
The conditions of a plan have distinct names, which sanitizing leaves as they are. The patterns of a
plan can be read if each of its expressions can, and then each condition finds its own pattern under
its name. -/
theorem Compiled.bound_once {q : Query} {spec : Specification} (h : q.interpret = .ok spec)
    (dialect : Dialect) (r : Request) :
    (∀ s ∈ (spec.compile dialect r).statements,
      ∀ name value, (name, value) ∈ Fragment.entries s.draft.pieces →
        s.bindings.get? name = some value ∧
          ∀ other, (name, other) ∈ Fragment.entries s.draft.pieces → other = value) ∧
    ((Plan.build spec r).conditions.map Condition.bindName).Nodup ∧
    (∀ c ∈ (Plan.build spec r).conditions, Text.safe c.bindName = c.bindName) ∧
    ((∃ patterns, (Plan.build spec r).patterns = .ok patterns) ↔
      ∀ c ∈ (Plan.build spec r).conditions, c.IsReadable) ∧
    ∀ patterns, (Plan.build spec r).patterns = .ok patterns →
      ∀ c ∈ (Plan.build spec r).conditions, c.op = .regex →
        ∃ text p, c.operand = some text ∧ Pattern.parse? text = some p ∧
          patterns.get? c.bindName = some p := by
  refine ⟨fun s hs name value hentry => ?_, Plan.nodup_bindNames (Query.nodup_index h) r,
    fun _ hc => Plan.safe_bindName hc, Plan.exists_patterns_iff _, ?_⟩
  · have hplan := Plan.NamesApart.build h r
    -- the plan that counts has the same properties and conditions
    obtain ⟨plan, hapart, rfl⟩ : ∃ plan : Plan, plan.NamesApart ∧
        s = .ofPlan dialect r.memory plan := by
      rcases statements_cases hs with hs | hs
      · exact ⟨_, hplan, hs⟩
      · exact ⟨(Plan.build spec r).asCount,
          ⟨hplan.indices, hplan.names, hplan.safe, hplan.ends⟩, hs⟩
    have hpieces : Fragment.entries (Statement.ofPlan dialect r.memory plan).draft.pieces =
        Script.entries (dialect.script plan) := Draft.entries_runAll _ _
    rw [hpieces] at hentry ⊢
    exact (dialect.placed_script plan).fits.get?_bindings (fun _ _ hQ => hQ.safe hapart.safe)
      (fun _ _ _ hQ hother => hQ.unique hapart hother) dialect.sigil hentry
  · intro patterns hpatterns c hc hop
    -- an active condition with a regular expression has an operand
    have hactive := Plan.isActive_of_mem_conditions hc
    obtain ⟨text, htext⟩ : ∃ text, c.operand = some text := by
      simpa [Condition.isActive, hop, Option.isSome_iff_exists] using hactive
    have hpattern : c.patternText? = some text := by simp [Condition.patternText?, hop, htext]
    obtain ⟨p, hparse, hget⟩ := Plan.get?_patterns (Query.nodup_index h) hpatterns hc hpattern
    exact ⟨text, p, htext, hparse, hget⟩

/-- Papers whose name and title match one expression of the client's. -/
def Query.searched : Query where
  header := some ⟨some (.bare "Paper"), none, none, none⟩
  structured :=
    let item (name : String) : Item := ⟨.bare name, some (.one (.bare name)), none, false, false,
      false, none, false, some ⟨.regex, some "q", none⟩, none⟩
    some (.many [item "name", item "title"])

/-- A query whose filter has a parameter. -/
def Specification.searched : Specification :=
  let property (name : String) (index : Nat) : Property := ⟨name, [⟨name, false, []⟩], [], false,
    false, false, false, none, some ⟨.regex, some "q", none⟩, none, index⟩
  ⟨[property "name" 0, property "title" 1], none, "Paper", none⟩

/-- A request that gives the expression. -/
def Request.searching : Request := { Request.ofStage .released with filterValues := [("q", "a+")] }

theorem Compiled.bound_once_searched :
    let plan := Plan.build .searched .searching
    Query.searched.interpret = .ok .searched ∧
      plan.conditions = [⟨.regex, some "a+", "q_staticFilter0"⟩,
        ⟨.regex, some "a+", "q_staticFilter1"⟩] ∧
      ∃ patterns, plan.patterns = .ok patterns ∧ ∃ p, Pattern.parse? "a+" = some p ∧
        patterns.get? "q_staticFilter1" = some p := by
  intro plan
  have hspec : Query.searched.interpret = .ok .searched := rfl
  have hconditions : plan.conditions = [⟨.regex, some "a+", "q_staticFilter0"⟩,
      ⟨.regex, some "a+", "q_staticFilter1"⟩] := by decide +kernel
  have hreadable : ∀ c ∈ plan.conditions, c.IsReadable := by
    have hparse : (Pattern.parse? "a+").isSome = true := by decide +kernel
    rw [hconditions]
    simp [Condition.IsReadable, Condition.patternText?, hparse]
  obtain ⟨-, -, -, hread, hfound⟩ := bound_once hspec .aql .searching
  obtain ⟨patterns, hpatterns⟩ := hread.mpr hreadable
  obtain ⟨text, p, htext, hparse, hget⟩ := hfound patterns hpatterns
    ⟨.regex, some "a+", "q_staticFilter1"⟩ (hconditions ▸ by simp) rfl
  cases htext
  exact ⟨hspec, hconditions, patterns, hpatterns, p, hparse, hget⟩

/-! ## Names that are read -/

/-- The placeholders that a dialect reads in a statement are those that it reads in the names of the
bindings. They are these names just if each of them is read as it is written, which holds if the
parameters of the client, once they are sanitized, are words. -/
theorem Compiled.placeholders_bound (spec : Specification) (dialect : Dialect) (r : Request) :
    ∀ s ∈ (spec.compile dialect r).statements,
      (∀ name, name ∈ Text.placeholders dialect.sigil s.text ↔ ∃ key ∈ s.bindings.keys,
        name ∈ Text.placeholders dialect.sigil (dialect.sigil.placeholder key)) ∧
      ((∀ name, name ∈ Text.placeholders dialect.sigil s.text ↔ name ∈ s.bindings.keys) ↔
        ∀ key ∈ s.bindings.keys, IsPlaceholderName dialect.sigil key) ∧
      ((∀ parameter ∈ spec.parameters, Cypher.IsWord (Text.safe parameter)) →
        ∀ name, name ∈ Text.placeholders dialect.sigil s.text ↔ name ∈ s.bindings.keys) := by
  intro s hs
  obtain ⟨plan, hconditions, rfl⟩ : ∃ plan : Plan,
      plan.conditions = (Plan.build spec r).conditions ∧ s = .ofPlan dialect r.memory plan := by
    rcases statements_cases hs with hs | hs
    · exact ⟨_, rfl, hs⟩
    · exact ⟨(Plan.build spec r).asCount, rfl, hs⟩
  have hplaced := dialect.placed_script plan
  have hnames (hkeys : ∀ key ∈ (Statement.ofPlan dialect r.memory plan).bindings.keys,
      IsPlaceholderName dialect.sigil key) (name : String) :
      name ∈ Text.placeholders dialect.sigil (Statement.ofPlan dialect r.memory plan).text ↔
        name ∈ (Statement.ofPlan dialect r.memory plan).bindings.keys :=
    hplaced.mem_placeholders_iff hkeys name
  refine ⟨hplaced.mem_placeholders,
    ⟨fun hall key hkey => Text.isPlaceholderName_of_mem ((hall key).mpr hkey), hnames⟩,
    fun hwords => hnames fun key hkey => ?_⟩
  -- a binding is what a placeholder carries
  obtain ⟨⟨name, value⟩, hentry, rfl⟩ :=
    List.mem_map.mp ((Draft.mem_keys_bindings dialect.sigil (dialect.script plan) key).mp hkey)
  obtain ⟨written, hwritten, hcarries⟩ := Script.exists_of_mem_entries hplaced.fits hentry
  have hsafe := hcarries.safe fun c hc => Plan.safe_bindName (hconditions ▸ hc)
  rw [← hwritten, hsafe]
  exact hcarries.isPlaceholderName (fun c hc => Plan.isWord_bindName hwords (hconditions ▸ hc))
    fun c hc => Plan.bindName_ne_empty (hconditions ▸ hc)

/-- The parameter `q` is a word. -/
theorem Compiled.placeholders_bound_searched :
    let s := (Specification.searched.compile .aql .searching).statement
    s ∈ (Specification.searched.compile .aql .searching).statements ∧
      (∀ parameter ∈ Specification.searched.parameters,
        Cypher.IsWord (Text.safe parameter)) ∧
      ∀ name, name ∈ Text.placeholders .atSign s.text ↔ name ∈ s.bindings.keys := by
  intro s
  have hwords : ∀ parameter ∈ Specification.searched.parameters,
      Cypher.IsWord (Text.safe parameter) := by decide +kernel
  exact ⟨.head _, hwords, (placeholders_bound .searched .aql .searching s (.head _)).2.2 hwords⟩

/-- A dash ends the name that is read. -/
example : Text.placeholders .atSign (Sigil.placeholder .atSign "my-param_staticFilter0") =
    ["my"] := by decide

end GraphQuery
