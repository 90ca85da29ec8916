import GraphQuery.Proofs.NestedStatements
import GraphQuery.Proofs.Paging
import GraphQuery.Proofs.Visits

/-!
# GraphQuery.Proofs.Counting — a statement that counts selects what the one for the rows does

1. **Selections** depend on neither the page nor the purpose of a plan.
2. **Projections** order the rows, limit them to the page and make their objects, and bind nothing.
3. **Texts** of both statements part where the selection ends.
4. **Counts** are compiled for pages with a size and a total, and count the rows of all pages.
-/

namespace GraphQuery

open Json

/-! ## Selections -/

/-- The same plan for another page, or for the number of its rows. -/
def Plan.withPage (plan : Plan) (page : Option PageRequest) (countOnly : Bool) : Plan :=
  { plan with page, countOnly }

namespace Aql

variable (plan : Plan) (page : Option PageRequest) (countOnly : Bool)

/-- A traversal does not depend on the page, if those of the children do not. -/
theorem traversal_withPage_of_children {p : Property}
    (h : ∀ doc, traversals (plan.withPage page countOnly) doc p.children =
      traversals plan doc p.children) (parent : Fragment) :
    traversal (plan.withPage page countOnly) parent p = traversal plan parent p := by
  have hbody (doc : Fragment) : body (plan.withPage page countOnly) doc p = body plan doc p := by
    unfold body
    rw [h]
    rfl
  rw [traversal_eq, traversal_eq, h]
  simp only [hbody]
  rfl

mutual

/-- Nor does that of any property. -/
theorem traversal_withPage (parent : Fragment) : (p : Property) →
    traversal (plan.withPage page countOnly) parent p = traversal plan parent p
  | ⟨_, _, children, _, _, _, _, _, _, _, _⟩ =>
    traversal_withPage_of_children plan page countOnly
      (fun doc => traversals_withPage doc children) parent

theorem traversals_withPage (parent : Fragment) : (ps : List Property) →
    traversals (plan.withPage page countOnly) parent ps = traversals plan parent ps
  | [] => rfl
  | p :: rest => by
    rw [traversals, traversals, traversal_withPage parent p, traversals_withPage parent rest]

end

/-- The selection of an AQL statement does not depend on the page. -/
theorem selection_withPage : selection (plan.withPage page countOnly) = selection plan := by
  unfold selection
  rw [traversals_withPage]
  rfl

end Aql

namespace Cypher

variable (plan : Plan) (page : Option PageRequest) (countOnly : Bool)

mutual

/-- Nor does a value in a Cypher statement, by induction on the properties. -/
theorem value_withPage (parent : Fragment) : (p : Property) →
    value (plan.withPage page countOnly) parent p = value plan parent p
  | ⟨_, _, children, _, _, _, _, _, _, _, _⟩ => by
    rw [value_eq, value_eq, conditions_withPage _ children, entries_withPage _ children]
    rfl

theorem conditions_withPage (node : Fragment) : (ps : List Property) →
    conditions (plan.withPage page countOnly) node ps = conditions plan node ps
  | [] => by simp only [conditions]
  | ⟨_, _, children, _, _, _, _, _, _, _, _⟩ :: rest => by
    rw [conditions_cons, conditions_cons, conditions_withPage node children,
      value_withPage node ⟨_, _, children, _, _, _, _, _, _, _, _⟩, conditions_withPage node rest]
    rfl

theorem entries_withPage (node : Fragment) : (ps : List Property) →
    entries (plan.withPage page countOnly) node ps = entries plan node ps
  | [] => by simp only [entries]
  | ⟨_, _, children, _, _, _, _, _, _, _, _⟩ :: rest => by
    rw [entries_cons, entries_cons, entries_withPage node children,
      value_withPage node ⟨_, _, children, _, _, _, _, _, _, _, _⟩, entries_withPage node rest]

end

/-- Nor does the selection of a Cypher statement. -/
theorem selection_withPage : selection (plan.withPage page countOnly) = selection plan := by
  unfold selection
  simp only [value_withPage]
  rfl

end Cypher

namespace Dialect

/-- All that decides which rows there are. -/
def selection : Dialect → Plan → Script
  | aql => Aql.selection
  | cypher => Cypher.selection

/-- What a statement makes of the selected rows. -/
def projection : Dialect → Plan → Script
  | aql => Aql.projection
  | cypher => Cypher.projection

/-- The projection of a count statement in a dialect. -/
def countProjection : Dialect → Script
  | aql => Aql.countProjection
  | cypher => Cypher.countProjection

variable (d : Dialect) (plan : Plan)

/-- A statement is its selection, then a projection. -/
theorem script_eq : d.script plan = d.selection plan ++
    (if plan.countOnly then d.countProjection else d.projection plan) := by
  cases d <;> rfl

/-- The selection does not depend on the page. -/
theorem selection_withPage (page : Option PageRequest) (countOnly : Bool) :
    d.selection (plan.withPage page countOnly) = d.selection plan := by
  cases d with
  | aql => exact Aql.selection_withPage plan page countOnly
  | cypher => exact Cypher.selection_withPage plan page countOnly

/-- The selection begins with a line. -/
theorem selection_eq_line : ∃ f rest, d.selection plan = .line f :: rest ∧
    Fragment.render d.sigil f ≠ "" := by
  cases d with
  | aql => exact Aql.selection_eq_line plan
  | cypher => exact Cypher.selection_eq_line plan

/-- A selection takes back what it indents. -/
theorem indentation_selection :
    ((Draft.empty d.sigil).runAll (d.selection plan)).indentation = 0 := by
  rw [Draft.indentation_runAll]
  cases d with
  | aql => exact (Aql.balanced_selection plan [] 0).indentation
  | cypher => exact (Cypher.balanced_selection plan [] 0).indentation

end Dialect

/-! ## Projections -/

/-- A line that orders the rows, limits them to a page, or belongs to the object for a row. -/
inductive Dialect.Projects : Dialect → String → Prop
  | sort (keys : String) : Projects .aql ("SORT " ++ keys)
  | limit (offset size : Nat) : Projects .aql ("LIMIT " ++ toString offset ++ ", " ++ toString size)
  | opening : Projects .aql "RETURN \x7b"
  | entry (rest : String) : Projects .aql ("\"" ++ rest)
  | closing : Projects .aql "\x7d"
  | orderBy (keys : String) : Projects .cypher ("ORDER BY " ++ keys)
  | skip (offset size : Nat) :
      Projects .cypher ("SKIP " ++ toString offset ++ " LIMIT " ++ toString size)
  | object (entries : String) : Projects .cypher ("RETURN \x7b" ++ entries ++ "\x7d AS row")

namespace Dialect.Projects

variable {d : Dialect} {line : String}

/-- A line of a projection is marked. -/
theorem marked (h : d.Projects line) : Text.Marked line := by
  cases h <;> simp [Text.Marked]

/-- Such a line selects nothing. -/
theorem not_selects (h : d.Projects line) :
    ∀ word ∈ ["FILTER", "MATCH", "LET", "WITH", "WHERE"], ¬ word.toList <+: line.toList := by
  cases h <;> simp

end Dialect.Projects

/-- Text of one line that binds nothing. -/
abbrev Fragment.Unbound (f : Fragment) : Prop := Fragment.Fits (fun _ _ => False) f

/-- A command that binds nothing, and writes a line of a projection if it writes at all. -/
structure Command.Projects (d : Dialect) (c : Command) : Prop where
  unbound : Fragment.Unbound c.fragment
  started : ∀ f, c.started? = some f → d.Projects (Fragment.render d.sigil f)
  continued : c.started? = none → c.fragment = []

namespace Command.Projects

variable {d : Dialect}

theorem line {f : Fragment} (hunbound : Fragment.Unbound f)
    (h : d.Projects (Fragment.render d.sigil f)) : Command.Projects d (.line f) where
  unbound := hunbound
  started := by
    rintro _ ⟨⟩
    exact h
  continued := nofun

/-- A command that writes nothing. -/
theorem silent {c : Command} (hfragment : c.fragment = []) (hstarted : c.started? = none) :
    c.Projects d where
  unbound := by simp [hfragment]
  started := by simp [hstarted]
  continued _ := hfragment

end Command.Projects

namespace Aql

/-- The value of a property at the root binds nothing. -/
theorem unbound_value (p : Property) : Fragment.Unbound (value root p) := by
  have hroot : Fragment.Unbound root := by simp [root]
  unfold value attr
  split
  · split <;> simp [hroot]
  · split <;> simp

theorem mem_entries {fs : List Fragment} {c : Command} (h : c ∈ entries fs) :
    ∃ f ∈ fs, c = .line f ∨ c = .line (f ++ lit ",") := by
  induction fs with
  | nil => cases h
  | cons f rest ih =>
    cases rest with
    | nil => exact ⟨f, .head _, .inl (List.mem_singleton.mp h)⟩
    | cons g rest =>
      rcases List.mem_cons.mp h with rfl | h
      · exact ⟨f, .head _, .inr rfl⟩
      · obtain ⟨f, hf, hc⟩ := ih h
        exact ⟨f, .tail _ hf, hc⟩

/-- The result at the root consists of projection lines. -/
theorem projects_of_mem_result (ps : List Property) :
    ∀ c ∈ result root ps false, c.Projects .aql := by
  have hobject : Command.Projects .aql (.line (lit "RETURN \x7b")) := .line (by simp) .opening
  have hend : Command.Projects .aql (.line (lit "\x7d")) := .line (by simp) .closing
  have hentry (p : Property) {rest : Fragment} (hrest : Fragment.Unbound rest) :
      Command.Projects .aql (.line (quotedKey p.key ++ lit ": " ++ value root p ++ rest)) := by
    refine .line ?_ ?_
    · simp [quotedKey, unbound_value, hrest]
    · simp only [quotedKey, Fragment.render_append, Fragment.render_lit, String.append_assoc]
      exact .entry _
  unfold result
  simp only [Bool.false_and, Bool.false_eq_true, if_false, List.nil_append, List.forall_mem_append,
    List.forall_mem_cons]
  refine ⟨⟨⟨hobject, .silent rfl rfl, by simp⟩, fun c hc => ?_⟩, .silent rfl rfl, hend, by simp⟩
  -- an entry of the object, with a comma or without
  obtain ⟨f, hf, hline⟩ := mem_entries hc
  rw [List.map_map] at hf
  obtain ⟨p, -, rfl⟩ := List.mem_map.mp hf
  rcases hline with rfl | rfl
  · have hnothing : Fragment.Unbound [] := by simp
    have hlast := hentry p hnothing
    rwa [List.append_nil] at hlast
  · exact hentry p (by simp)

/-- So does the projection of an AQL statement. -/
theorem projects_of_mem_projection (plan : Plan) : ∀ c ∈ projection plan, c.Projects .aql := by
  unfold projection
  dsimp only
  rw [List.forall_mem_append, List.forall_mem_append]
  refine ⟨⟨?_, ?_⟩, projects_of_mem_result _⟩
  · split
    · simp
    · rw [List.forall_mem_singleton]
      refine .line ?_ ?_
      · simp [comma, unbound_value, List.forall_mem_map, -List.mem_map]
      · rw [Fragment.render_append, Fragment.render_lit]
        exact .sort _
  · -- only a page with a size writes a line
    rw [List.forall_mem_singleton]
    rcases plan.page with _ | ⟨offset, _ | size, returnTotal⟩
    · exact .silent rfl rfl
    · exact .silent rfl rfl
    · refine ⟨by simp [Command.fragment], ?_, nofun⟩
      rintro _ ⟨⟩
      simpa [String.append_assoc] using Dialect.Projects.limit offset size

end Aql

namespace Cypher

/-- A value at the top binds nothing. -/
theorem unbound_topValue (p : Property) : Fragment.Unbound (topValue p) := by
  have hroot : Fragment.Unbound root := by simp [root]
  unfold topValue directValue attr ticked
  split
  · split <;> simp [hroot]
  · simp

/-- The projection of a Cypher statement consists of projection lines. -/
theorem projects_of_mem_projection (plan : Plan) : ∀ c ∈ projection plan, c.Projects .cypher := by
  unfold projection
  dsimp only
  rw [List.forall_mem_append, List.forall_mem_append, List.forall_mem_singleton,
    List.forall_mem_cons, List.forall_mem_singleton]
  refine ⟨⟨?_, ?_⟩, .silent rfl rfl, ?_⟩
  · refine .line ?_ ?_
    · simp [comma, unbound_topValue, or_imp, forall_and, List.forall_mem_map, -List.mem_map]
    · rw [Fragment.render_append, Fragment.render_lit]
      exact .orderBy _
  · split
    · rw [List.forall_mem_singleton]
      refine .line (by simp) ?_
      simpa [String.append_assoc] using Dialect.Projects.skip _ _
    · simp
  · refine .line ?_ ?_
    · simp [comma, ticked, unbound_topValue, List.forall_mem_map, -List.mem_map]
    · rw [Fragment.render_append, Fragment.render_append, Fragment.render_lit, Fragment.render_lit]
      exact .object _

end Cypher

namespace Dialect

variable (d : Dialect) (plan : Plan)

theorem projects_of_mem_projection : ∀ c ∈ d.projection plan, c.Projects d := by
  cases d with
  | aql => exact Aql.projects_of_mem_projection plan
  | cypher => exact Cypher.projects_of_mem_projection plan

/-- A projection binds nothing. -/
theorem unbound_projection : Script.Fits (fun _ _ => False) (d.projection plan) :=
  fun c hc => (d.projects_of_mem_projection plan c hc).unbound

theorem entries_projection : Script.entries (d.projection plan) = [] := by
  rw [List.eq_nil_iff_forall_not_mem]
  rintro ⟨name, value⟩ hmem
  obtain ⟨_, _, hfalse⟩ := Script.exists_of_mem_entries (d.unbound_projection plan) hmem
  exact hfalse

theorem entries_countProjection : Script.entries d.countProjection = [] := by
  cases d <;> rfl

theorem layout_projection : Script.layout d.sigil (d.projection plan) =
    ("", (d.projection plan).filterMap fun c => c.started?.map (Fragment.render d.sigil)) :=
  Script.OwnLines.layout_eq fun c hc => (d.projects_of_mem_projection plan c hc).continued

/-- All lines of a projection are projection lines. -/
theorem projects_lines : ∀ line ∈ Script.lines d.sigil (d.projection plan), d.Projects line := by
  intro line hline
  rw [Script.lines, layout_projection, List.mem_filterMap] at hline
  obtain ⟨c, hc, hstarted⟩ := hline
  obtain ⟨f, hf, rfl⟩ := Option.map_eq_some_iff.mp hstarted
  exact (d.projects_of_mem_projection plan c hc).started f hf

end Dialect

/-! ## Texts -/

namespace Draft

/-- A line that is not indented follows a line break. -/
theorem text_line {d : Draft} (hd : d.text ≠ "") (hindentation : d.indentation = 0)
    (f : Fragment) : (d.run (.line f)).text = d.text ++ "\n" ++ Fragment.render d.sigil f := by
  have hline : d.run (.line f) = d.startLine.add f := rfl
  have hbreak : d.startLine.text = d.text ++ "\n" := by
    unfold startLine
    rw [if_neg (mt (isEmpty_iff d).mp hd)]
    simp [indentation_add, hindentation]
  rw [hline, text_add, hbreak, sigil_startLine]

end Draft

/-- What a statement that counts makes of the selected rows. -/
def Dialect.countText : Dialect → String
  | aql => "\nCOLLECT WITH COUNT INTO length\nRETURN \x7b \"count\": length \x7d"
  | cypher => "\nRETURN count(root) AS count"

/-- A count projection goes on new lines. -/
theorem Draft.text_countProjection (dialect : Dialect) {d : Draft} (hd : d.text ≠ "")
    (hindentation : d.indentation = 0) :
    (d.runAll dialect.countProjection).text = d.text ++ dialect.countText := by
  cases dialect with
  | aql =>
    have hfirst := text_line hd hindentation (lit "COLLECT WITH COUNT INTO length")
    have hne : (d.run (.line (lit "COLLECT WITH COUNT INTO length"))).text ≠ "" := by
      simp [hfirst]
    have hsecond := text_line hne (by rwa [indentation_run])
      (lit "RETURN \x7b \"count\": length \x7d")
    refine hsecond.trans ?_
    rw [hfirst]
    simp [String.append_assoc, Dialect.countText]
  | cypher =>
    refine (text_line hd hindentation (lit "RETURN count(root) AS count")).trans ?_
    simp [String.append_assoc, Dialect.countText]

namespace Plan

/-- The text with which the statement for the rows and the one that counts begin. -/
def selectionText (plan : Plan) (d : Dialect) : String :=
  ((Draft.empty d.sigil).runAll (d.selection plan)).text

variable (plan : Plan) (d : Dialect)

/-- A selection writes something. -/
theorem selectionText_ne_empty : plan.selectionText d ≠ "" := by
  obtain ⟨f, rest, hselection, hf⟩ := d.selection_eq_line plan
  rw [selectionText, hselection]
  exact Draft.text_runAll_ne_empty hf rest

end Plan

namespace Statement

variable (d : Dialect) (memory : Option Nat) (plan : Plan)

/-- After the selection, the statement for the rows has lines of a projection only. -/
theorem text_rows (h : plan.countOnly = false) : ∃ rest lines,
    (ofPlan d memory plan).text = plan.selectionText d ++ rest ∧
      Text.lines rest = "" :: lines ∧ ∀ line ∈ lines, d.Projects line := by
  have hprojects := d.projects_lines plan
  have hsigil : ((Draft.empty d.sigil).runAll (d.selection plan)).sigil = d.sigil :=
    Draft.sigil_runAll _ _
  obtain ⟨rest, htext, hlines⟩ := Draft.exists_lines_runAll hsigil
    (plan.selectionText_ne_empty d) (congrArg Prod.fst (d.layout_projection plan))
    (d.unbound_projection plan) fun line hline => (hprojects line hline).marked
  refine ⟨rest, _, ?_, hlines, hprojects⟩
  rw [text, ofPlan, d.script_eq, h, if_neg Bool.false_ne_true, Draft.runAll_append, htext]
  rfl

/-- The count statement is the selection, then the count projection. -/
theorem text_asCount :
    (ofPlan d memory plan.asCount).text = plan.selectionText d ++ d.countText := by
  have hscript : d.script plan.asCount = d.selection plan ++ d.countProjection := by
    rw [d.script_eq, ← d.selection_withPage plan none true]
    rfl
  rw [text, ofPlan, hscript, Draft.runAll_append]
  exact Draft.text_countProjection d (plan.selectionText_ne_empty d)
    (d.indentation_selection plan)

/-- Values are bound by selections only. -/
theorem bindings_ofPlan : (ofPlan d memory plan).bindings =
    ((Draft.empty d.sigil).runAll (d.selection plan)).bindings := by
  have hentries : Script.entries (d.script plan) = Script.entries (d.selection plan) := by
    rw [d.script_eq, Script.entries_append]
    split
    · rw [d.entries_countProjection, List.append_nil]
    · rw [d.entries_projection, List.append_nil]
  rw [bindings, ofPlan, Draft.bindings_runAll, hentries, ← Draft.bindings_runAll]

/-- The count statement has the bindings of the statement. -/
theorem bindings_asCount :
    (ofPlan d memory plan.asCount).bindings = (ofPlan d memory plan).bindings := by
  have hselection : d.selection plan.asCount = d.selection plan :=
    d.selection_withPage plan none true
  rw [bindings_ofPlan, bindings_ofPlan, hselection]

end Statement

/-! ## Counts -/

/-- A page with a size and a total is one that was asked for, without a root. -/
theorem Plan.effectivePage_eq_sized {r : Request} {offset size : Nat} :
    effectivePage r = some ⟨offset, some size, true⟩ ↔
      r.root = none ∧ r.page = some ⟨offset, some size, true⟩ := by
  unfold effectivePage
  cases r.root <;> simp

/-- There is a count statement if a page with a size asks for a total. -/
theorem Plan.isSome_count (d : Dialect) (memory : Option Nat) (plan : Plan) :
    (plan.compile d memory).count.isSome = true ↔
      ∃ offset size, plan.page = some ⟨offset, some size, true⟩ := by
  unfold compile wantsCount
  rcases plan.page with _ | ⟨offset, _ | size, _ | _⟩ <;> simp

namespace Store

variable (st : Store) (stage : Stage) (d : Dialect) (memory : Option Nat) {plan : Plan}

/-- A statement for rows gives the page of its plan. -/
theorem rows_backend (h : plan.countOnly = false) :
    (st.backend stage (.ofPlan d memory plan)).map Cursor.rows =
      (evaluate (st.data stage) plan memory).map fun rows => (pageRows plan.page rows).map .ok := by
  have hisCount : (Statement.ofPlan d memory plan).isCount = false := h
  unfold backend
  rw [hisCount]
  change (evaluate (st.data stage) plan memory >>= _).map _ = _
  cases evaluate (st.data stage) plan memory <;> rfl

/-- A count fails where the rows do. -/
theorem result_runCount_asCount :
    (runCount (st.backend stage) (.ofPlan d memory plan.asCount)).result =
      (evaluate (st.data stage) plan memory).map fun rows => some rows.length := by
  cases hrows : evaluate (st.data stage) plan memory with
  | ok rows => exact runCount_asCount d hrows
  | error e =>
    have hcounted : evaluate (st.data stage) plan.asCount memory = .error e :=
      (evaluate_with_page (st.data stage) plan none true memory).trans hrows
    have hbackend : st.backend stage (.ofPlan d memory plan.asCount) = .error e :=
      congrArg (· >>= _) hcounted
    unfold runCount
    rw [hbackend]
    rfl

end Store

/-- A count is compiled exactly for a page with a size and a total, neither of which is left where
the id of the root is given. It selects what the statement for the rows selects: both have the same
bindings, and begin with the same text. After that the one counts; the other orders the rows, limits
them to the page and makes their objects. On a store, the one counts the rows of which the other
gives a page. -/
theorem Compiled.count_selects (spec : Specification) (r : Request) (d : Dialect) :
    let compiled := spec.compile d r
    let s := compiled.statement
    (compiled.count.isSome = true ↔
      ∃ offset size, Plan.effectivePage r = some ⟨offset, some size, true⟩) ∧
    (∀ offset size, Plan.effectivePage r = some ⟨offset, some size, true⟩ ↔
      r.root = none ∧ r.page = some ⟨offset, some size, true⟩) ∧
    ∀ count ∈ compiled.count,
      count.bindings = s.bindings ∧
      (∃ selection rest lines, s.text = selection ++ rest ∧ count.text = selection ++ d.countText ∧
        Text.lines rest = "" :: lines ∧
        ∀ line ∈ lines, d.Projects line ∧
          ∀ word ∈ ["FILTER", "MATCH", "LET", "WITH", "WHERE"], ¬ word.toList <+: line.toList) ∧
      ∀ (st : Store) (stage : Stage),
        let rows := evaluate (st.data stage) s.plan s.memory
        (st.backend stage s).map Cursor.rows =
            rows.map (fun rows => (Store.pageRows s.plan.page rows).map .ok) ∧
          (runCount (st.backend stage) count).result = rows.map fun rows => some rows.length := by
  intro compiled s
  refine ⟨Plan.isSome_count d r.memory (Plan.build spec r),
    fun _ _ => Plan.effectivePage_eq_sized, fun count hcount => ?_⟩
  obtain rfl : count = .ofPlan d r.memory (Plan.build spec r).asCount := by
    have hcompiled : compiled.count = if (Plan.build spec r).wantsCount then
        some (.ofPlan d r.memory (Plan.build spec r).asCount) else none := rfl
    rw [hcompiled, Option.mem_def] at hcount
    split at hcount <;> simp_all
  obtain ⟨rest, lines, htext, hlines, hprojects⟩ :=
    Statement.text_rows d r.memory (Plan.build spec r) rfl
  refine ⟨Statement.bindings_asCount d r.memory _, ⟨_, rest, lines, htext,
    Statement.text_asCount d r.memory _, hlines, fun line hline => ?_⟩, fun st stage => ?_⟩
  · exact ⟨hprojects line hline, (hprojects line hline).not_selects⟩
  · exact ⟨st.rows_backend stage d r.memory rfl, st.result_runCount_asCount stage d r.memory⟩

/-- The third page of all papers, with their number. -/
theorem Compiled.count_selects_papers :
    let spec : Specification := ⟨[], none, "Paper", none⟩
    let r := { Request.ofStage .inProgress with page := some ⟨20, some 10, true⟩ }
    let s := (spec.compile .aql r).statement
    ∃ count ∈ (spec.compile .aql r).count, count.bindings = s.bindings ∧
      ∃ selection rest, s.text = selection ++ rest ∧
        count.text = selection ++ Dialect.countText .aql := by
  intro spec r s
  obtain ⟨hcounted, -, hcount⟩ := count_selects spec r .aql
  obtain ⟨count, hmem⟩ := Option.isSome_iff_exists.mp (hcounted.mpr ⟨20, 10, rfl⟩)
  obtain ⟨hbindings, ⟨selection, rest, _, hrows, htext, _⟩, _⟩ := hcount count hmem
  exact ⟨count, hmem, hbindings, selection, rest, hrows, htext⟩

end GraphQuery
