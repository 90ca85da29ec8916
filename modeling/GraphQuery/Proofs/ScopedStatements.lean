import GraphQuery.Proofs.Guards
import GraphQuery.Proofs.Readings
import GraphQuery.Proofs.Variables

/-!
# GraphQuery.Proofs.ScopedStatements — AQL statements use no variable out of its scope

1. **Values** of properties are fields of a document, or variables.
2. **Lines** that introduce nothing.
3. **Hops**: the list of a hop, and the sub-query that fills it.
4. **Groupings**.
5. **Traversals**, by induction on the properties.
6. **Selections and projections**.
7. **Statements**.
-/

namespace GraphQuery

namespace Aql

open Json

variable {plan : Plan} {known : List String}

/-! ## Values -/

/-- The name of a variable is a word. -/
theorem isWord_variableName (p : Property) (r : Role) : Cypher.IsWord (variableName p r) := by
  have halias := Cypher.isWord_aliasName p
  have hlist (hop : Nat) : Cypher.IsWord (stepAlias p hop) := by
    unfold stepAlias
    split
    · exact halias
    · exact Cypher.isWord_append (Cypher.isWord_append halias (by decide))
        (Cypher.isWord_toString hop)
  cases r with
  | list hop => exact hlist hop
  | document hop => exact Cypher.isWord_append (hlist hop) (by decide)
  | edge hop => exact Cypher.isWord_append (hlist hop) (by decide)
  | key i =>
    exact Cypher.isWord_append (Cypher.isWord_append halias (by decide)) (Cypher.isWord_toString i)
  | _ => exact Cypher.isWord_append halias (by decide)

/-- A variable is read as one word. -/
theorem reads_variable (p : Property) (r : Role) :
    Reads (named (variableName p r)) [.word (variableName p r)] := by
  have hword := isWord_variableName p r
  refine reads_word (fun c hc => ?_) ?_ ?_
  · rcases hword c hc with halnum | rfl
    · simp [isWordChar, halnum]
    · decide
  · intro hempty
    obtain ⟨c, hc, -⟩ := exists_digit_variableName p r
    simp [hempty] at hc
  · rw [Fragment.symbols_named, hword.safe_eq]

/-- A variable that is known may be used. -/
theorem uses_variable {p : Property} {r : Role} (h : variableName p r ∈ known) :
    Uses known (named (variableName p r)) :=
  .word (reads_variable p r) (keyword?_of_isVariable (isVariable_variableName p r)) fun _ => h

theorem uses_root (h : "root_doc" ∈ known) : Uses known root := by
  have hname := Template.uses [.text "root_doc"] ["root_doc"] (by decide) (by simpa using h) [] []
    (by simp)
  simpa [Template.fill, root] using hname

/-- An attribute uses its document. -/
theorem uses_attr {doc : Fragment} (h : Uses known doc) (key : String) :
    Uses known (attr doc key) := by
  have hplain := Template.plain [.slot, .text ".`", .quoted, .text "`"] (by decide) [key] [doc]
    (by simpa using h)
  simpa [Template.fill, attr] using hplain

/-- The role of the variable that holds the value of a property, unless it is a field. -/
def valueRole (p : Property) : Role := if p.hasGrouping then .grouping else .list 0

/-- The variables that hold the values of a level. -/
def valueNames (ps : List Property) : List String :=
  ((Property.level ps).filter fun p => !p.isDirect).map fun p => variableName p (valueRole p)

/-- The lists of a level are known by their names. -/
theorem mem_of_valueNames {ps : List Property} (h : valueNames ps ⊆ known) :
    ∀ p ∈ Property.level ps, p.isDirect = false → variableName p (valueRole p) ∈ known := by
  intro p hp hdirect
  exact h (List.mem_map.mpr ⟨p, List.mem_filter.mpr ⟨hp, by simp [hdirect]⟩, rfl⟩)

/-- A value is a field of the document at hand, or a variable. -/
theorem uses_value {doc : Fragment} (h : Uses known doc) {p : Property}
    (hp : p.isDirect = false → variableName p (valueRole p) ∈ known) :
    Uses known (value doc p) := by
  unfold value
  split
  · split
    · exact uses_attr h _
    · exact .text (by decide)
  · rename_i hdirect
    have hmem := hp (by simpa using hdirect)
    by_cases hgrouping : p.hasGrouping = true
    · rw [valueRole, if_pos hgrouping] at hmem
      rw [if_pos hgrouping]
      exact uses_variable hmem
    · rw [valueRole, if_neg hgrouping] at hmem
      rw [if_neg hgrouping]
      exact uses_variable hmem

/-- An entry of an object uses what its value does. -/
theorem uses_quotedEntry {f : Fragment} (h : Uses known f) (key : String) :
    Uses known (quotedKey key ++ lit ": " ++ f) := by
  have hplain := Template.plain [.text "\"", .quoted, .text "\"", .text ": ", .slot] (by decide)
    [key] [f] (by simpa using h)
  simpa [Template.fill, quotedKey] using hplain

theorem uses_comma {fs : List Fragment} (h : ∀ f ∈ fs, Uses known f) : Uses known (comma fs) :=
  .join (by decide) h

/-! ## Lines -/

/-- The variables that the guards of documents use. -/
def accessNames (plan : Plan) : List String :=
  if plan.access.isSome then ["whitelist", "invitation"] else []

/-- The tests of a document use it, and the access lists. -/
theorem consults_guards {doc : Fragment} (h : Uses known doc) (haccess : accessNames plan ⊆ known) :
    Consults known (guards plan doc) := by
  have hdoc := Template.plain [.text "FILTER ", .slot, .text " != NULL"] (by decide) [] [doc]
    (by simpa using h)
  have hspaces (v : Value) := Template.plain [.text "FILTER PARSE_IDENTIFIER(", .slot,
    .text ").collection IN ", .slot] (by decide) [] [doc, bound "spaceRestriction" v]
    (by simpa using ⟨h, .bound _ v⟩)
  unfold guards
  refine .append (.append (.line (by simpa [Template.fill] using hdoc)) ?_) ?_
  · split
    · rename_i access hsome
      have hnames : ["whitelist", "invitation"] ⊆ known := by
        simpa [accessNames, hsome] using haccess
      have hlists := Template.uses [.text "FILTER PARSE_IDENTIFIER(", .slot,
        .text ").collection IN whitelist OR HAS(invitation, ", .slot, .text "._key)"]
        ["whitelist", "invitation"] (by decide) hnames [] [doc, doc] (by simpa using h)
      exact .line (by simpa [Template.fill] using hlists)
    · exact .nil known
  · split
    · exact .line (by simpa [Template.fill] using hspaces _)
    · exact .nil known

/-- A comparison uses its field alone. -/
theorem uses_comparison {field : Fragment} (h : Uses known field) {op : String}
    (hop : op ∈ [" == ", " =~ ", " LIKE "]) (c : Condition) (operand : Option String) :
    Uses known (comparison field op c operand) := by
  have hplain : ∀ op ∈ [" == ", " =~ ", " LIKE "], Template.isPlain []
      [.text "(IS_ARRAY(", .slot, .text ") ? LENGTH(", .slot, .text "[* FILTER CURRENT", .text op,
        .slot, .text "]) > 0 : ", .slot, .text op, .slot, .text ")"] = true := by
    decide
  have hoperand : Uses known (bound c.bindName (.ofOption .string operand)) := .bound _ _
  have hfill := Template.plain _ (hplain op hop) []
    [field, field, bound c.bindName (.ofOption .string operand), field,
      bound c.bindName (.ofOption .string operand)] (by simpa using ⟨h, hoperand, h, hoperand⟩)
  simpa [Template.fill, comparison] using hfill

/-- A condition uses its field alone. -/
theorem uses_condition {field : Fragment} (h : Uses known field) (c : Condition) :
    Uses known (condition field c) := by
  have hempty := Template.plain [.text "(", .slot, .text " == NULL OR ", .slot,
    .text " == \"\" OR ", .slot, .text " == [])"] (by decide) [] [field, field, field]
    (by simpa using h)
  unfold condition
  split
  · simpa [Template.fill] using hempty
  all_goals exact uses_comparison h (by simp) c _

/-- A filter introduces nothing. -/
theorem consults_condition {field : Fragment} (h : Uses known field) (c : Condition) :
    Consults known [.line (lit "FILTER " ++ condition field c)] := by
  have hplain := Template.plain [.text "FILTER ", .slot] (by decide) [] [condition field c]
    (by simpa using uses_condition h c)
  exact .line (by simpa [Template.fill] using hplain)

/-- The filters of a property use its value. -/
theorem consults_filtersOf {doc : Fragment} (h : Uses known doc) {p : Property}
    (hp : p.isDirect = false → variableName p (valueRole p) ∈ known) :
    Consults known (filtersOf plan doc p) := by
  have hvalue := uses_value h hp
  have hrequired := Template.plain [.text "FILTER ", .slot, .text " != NULL AND ", .slot,
    .text " != \"\" AND ", .slot, .text " != []"] (by decide) []
    [value doc p, value doc p, value doc p] (by simpa using hvalue)
  unfold filtersOf
  refine .append ?_ ?_
  · split
    · exact .line (by simpa [Template.fill] using hrequired)
    · exact .nil known
  · split
    · exact consults_condition hvalue _
    · exact .nil known

/-- The filters of a level use its values. -/
theorem consults_filters {doc : Fragment} (h : Uses known doc) {ps : List Property}
    (hps : valueNames ps ⊆ known) : Consults known (filters plan doc ps) :=
  .flatMap fun p hp => consults_filtersOf h (mem_of_valueNames hps p hp)

theorem consults_entries {fs : List Fragment} (h : ∀ f ∈ fs, Uses known f) :
    Consults known (entries fs) := by
  induction fs with
  | nil => exact .nil known
  | cons f rest ih =>
    rw [List.forall_mem_cons] at h
    cases rest with
    | nil => exact .line h.1
    | cons g rest =>
      have hline := Template.plain [.slot, .text ","] (by decide) [] [f] (by simpa using h.1)
      exact Consults.append (.line (by simpa [Template.fill] using hline)) (ih h.2)

/-- A projection introduces nothing. -/
theorem consults_projection {f : Fragment} (h : Uses known f) (p : Property) :
    Consults known [.line (projectionStart p ++ f)] := by
  have hall := Template.plain [.text "RETURN ", .slot] (by decide) [] [f] (by simpa using h)
  have hdistinct := Template.plain [.text "RETURN DISTINCT ", .slot] (by decide) [] [f]
    (by simpa using h)
  unfold projectionStart
  cases p.ensureOrder
  · exact .line (by simpa [Template.fill] using hdistinct)
  · exact .line (by simpa [Template.fill] using hall)

/-- A result uses the values of its level. -/
theorem consults_result {doc : Fragment} (h : Uses known doc) {ps : List Property}
    (hps : valueNames ps ⊆ known) (nested : Bool) : Consults known (result doc ps nested) := by
  have hvalue : ∀ p ∈ Property.level ps, Uses known (value doc p) := fun p hp =>
    uses_value h (mem_of_valueNames hps p hp)
  have hpresent : ∀ p ∈ Property.level ps, Uses known (lit "(" ++ value doc p ++
      lit " != NULL AND " ++ value doc p ++ lit " != [])") := by
    intro p hp
    have hplain := Template.plain [.text "(", .slot, .text " != NULL AND ", .slot, .text " != [])"]
      (by decide) [] [value doc p, value doc p] (by simpa using hvalue p hp)
    simpa [Template.fill] using hplain
  have hfilter {fs : List Fragment} (hfs : ∀ f ∈ fs, Uses known f) :
      Uses known (lit "FILTER " ++ Fragment.join " OR " fs) := by
    have hplain := Template.plain [.text "FILTER ", .slot] (by decide) [] [Fragment.join " OR " fs]
      (by simpa using Uses.join (by decide) hfs)
    simpa [Template.fill] using hplain
  have hstart : Uses known (lit (if nested then "RETURN DISTINCT \x7b" else "RETURN \x7b")) := by
    cases nested
    · exact .text (by decide)
    · exact .text (by decide)
  unfold result
  dsimp only
  refine .append (.append (.append ?_ (.append (.line hstart) (.silent rfl)))
    (consults_entries ?_)) (.append (.silent rfl) (.line (.text (by decide))))
  · split
    · refine .line (hfilter ?_)
      rw [List.map_map]
      exact List.forall_mem_map.mpr fun p hp => hpresent p hp
    · exact .nil known
  · rw [List.map_map]
    exact List.forall_mem_map.mpr fun p hp => uses_quotedEntry (hvalue p hp) p.key

/-! ## Hops -/

/-- What is read before the sub-query of a hop. -/
def spanStart (p : Property) : List Token :=
  if p.ensureOrder then [.word "FLATTEN", .opening]
  else [.word "UNIQUE", .opening, .word "FLATTEN", .opening]

/-- What is read after it. -/
def spanEnd (p : Property) : List Token :=
  if p.ensureOrder then [.closing] else [.closing, .closing]

/-- What is read before the items of a property, if they are sorted, and after them. -/
def sortStart (p : Property) : List Token :=
  if p.sort then [.opening, .word "FOR", .word (variableName p .sorted), .word "IN"] else []

/-- The end of sorting a list: the group of its loop closes. -/
def sortEnd (p : Property) : List Token :=
  if p.sort then
    [.word "SORT", .word (variableName p .sorted), .word "ASC", .word "RETURN",
      .word (variableName p .sorted), .closing]
  else []

/-- What is read before them if they are collapsed, and after them. -/
def collapseStart (p : Property) : List Token :=
  match p.collapse with
  | some .first => [.word "FIRST", .opening]
  | some .concat => [.word "CONCAT_SEPARATOR", .opening, .comma]
  | none => []

/-- The end of collapsing a list. -/
def collapseEnd (p : Property) : List Token := if p.collapse.isSome then [.closing] else []

/-- The wrapping of a list leads into the groups that are opened. -/
theorem leads_opening (p : Property) : Leads (opening p) (collapseStart p ++ sortStart p) := by
  have hvariable := reads_variable p .sorted
  have hfirst : Leads (lit "FIRST(") [.word "FIRST", .opening] := .text (by decide)
  have hconcat : Leads (lit "CONCAT_SEPARATOR(\", \", ")
      [.word "CONCAT_SEPARATOR", .opening, .comma] := .text (by decide)
  have hread : Template.read .start [.text "(FOR ", .slot, .text " IN "] =
      some ([some .opening, some (.word "FOR"), none, some (.word "IN")], true) := by decide
  have hsorted : Leads (lit "(FOR " ++ sortVariable p ++ lit " IN ")
      [.opening, .word "FOR", .word (variableName p .sorted), .word "IN"] := by
    have hname : sortVariable p = named (variableName p .sorted) := rfl
    have hleads := Template.leads _ hread [] [sortVariable p]
      (by simpa [hname] using hvariable.whole)
    simpa [Template.fill, Template.splice, hname, hvariable.tokens] using hleads
  unfold opening collapseStart sortStart
  refine .append ?_ ?_
  · rcases p.collapse with _ | _ | _
    · exact .nil
    · exact hfirst
    · exact hconcat
  · cases p.sort
    · exact .nil
    · exact hsorted

/-- The line that introduces the list of a hop. -/
theorem reads_listLine (p : Property) (hop : Nat) : Reads (listLine p hop)
    ([Token.word "LET", .word (variableName p (.list hop))] ++
      (if hop = 0 then collapseStart p ++ sortStart p else []) ++ spanStart p) := by
  have hvariable := reads_variable p (.list hop)
  have hread : Template.read .start [.text "LET ", .slot, .text " = "] =
      some ([some (.word "LET"), none], true) := by decide
  have hlet : Leads (lit "LET " ++ named (stepAlias p hop) ++ lit " = ")
      [.word "LET", .word (variableName p (.list hop))] := by
    have hname : stepAlias p hop = variableName p (.list hop) := rfl
    have hleads := Template.leads _ hread [] [named (stepAlias p hop)]
      (by simpa [hname] using hvariable.whole)
    simpa [Template.fill, Template.splice, hname, hvariable.tokens] using hleads
  have houter : Leads (if hop = 0 then opening p else [])
      (if hop = 0 then collapseStart p ++ sortStart p else []) := by
    split
    · exact leads_opening p
    · exact .nil
  have hspan : Leads (lit (if p.ensureOrder then "FLATTEN(" else "UNIQUE(FLATTEN("))
      (spanStart p) := by
    unfold spanStart
    cases p.ensureOrder
    · exact .text (by decide)
    · exact .text (by decide)
  exact ((hlet.append houter).append hspan).reads

/-- The line that introduces the documents of a hop, and their edges if their order counts. -/
theorem reads_visitLine {source : Fragment} (h : Whole source) (p : Property) (hop : Nat)
    (step : Step) : Reads (visitLine plan p source hop step)
      ([Token.word "FOR", .word (variableName p (.document hop))] ++
        (if p.ensureOrder && plan.edgeExists step then
          [Token.comma, .word (variableName p (.edge hop))] else []) ++ [Token.word "IN"] ++
        (if plan.edgeExists step then [Token.word "1", .word "1",
          .word (if step.reverse then "INBOUND" else "OUTBOUND")] ++ tokensOf source else [])) := by
  have hdoc := reads_variable p (.document hop)
  have hedge := reads_variable p (.edge hop)
  have hdocName : hopDoc p hop = named (variableName p (.document hop)) := rfl
  have hedgeName : hopEdge p hop = named (variableName p (.edge hop)) := rfl
  have hordered : ∀ r : Bool, Template.read .start [.text "FOR ", .slot, .text ", ", .slot,
      .text " IN 1..1", .text (if r then " INBOUND " else " OUTBOUND "), .slot, .text " `", .quoted,
      .text "`"] = some ([some (.word "FOR"), none, some .comma, none, some (.word "IN"),
        some (.word "1"), some (.word "1"), some (.word (if r then "INBOUND" else "OUTBOUND")),
        none], true) := by decide
  have hunordered : ∀ r : Bool, Template.read .start [.text "FOR ", .slot,
      .text " IN 1..1", .text (if r then " INBOUND " else " OUTBOUND "), .slot, .text " `", .quoted,
      .text "`"] = some ([some (.word "FOR"), none, some (.word "IN"),
        some (.word "1"), some (.word "1"), some (.word (if r then "INBOUND" else "OUTBOUND")),
        none], true) := by decide
  have hmissing : Template.read .start [.text "FOR ", .slot, .text " IN []"] =
      some ([some (.word "FOR"), none, some (.word "IN")], true) := by decide
  unfold visitLine
  cases plan.edgeExists step
  · have hreads := Template.reads _ hmissing [] [hopDoc p hop]
      (by simpa [hdocName] using hdoc.whole)
    simpa [Template.fill, Template.splice, hdocName, hdoc.tokens] using hreads
  · cases p.ensureOrder
    · have hreads := Template.reads _ (hunordered step.reverse)
        [(Collection.ofRelation step.uri).name] [hopDoc p hop, source]
        (by simpa [hdocName] using ⟨hdoc.whole, h⟩)
      simpa [Template.fill, Template.splice, hdocName, hdoc.tokens] using hreads
    · have hreads := Template.reads _ (hordered step.reverse)
        [(Collection.ofRelation step.uri).name] [hopDoc p hop, hopEdge p hop, source]
        (by simpa [hdocName, hedgeName] using ⟨hdoc.whole, hedge.whole, h⟩)
      simpa [Template.fill, Template.splice, hdocName, hedgeName, hdoc.tokens, hedge.tokens]
        using hreads

/-- What stands within brackets introduces nothing outside them. -/
theorem scoped_span (p : Property) {ts : List Token} {new all : List String}
    (h : Scoped known ts new all) : Scoped known (spanStart p ++ ts ++ spanEnd p) [] all := by
  have hflat : Scoped known (Token.word "FLATTEN" :: .opening :: ts ++ [Token.closing]) [] all :=
    .call rfl (by decide) h
  unfold spanStart spanEnd
  cases p.ensureOrder
  · have hunique : Scoped known (Token.word "UNIQUE" :: .opening ::
        (Token.word "FLATTEN" :: .opening :: ts ++ [Token.closing]) ++ [Token.closing]) [] all :=
      .call rfl (by decide) hflat
    simpa using hunique
  · simpa using hflat

/-- Names of the variables that a property has around its first hop. -/
def sortNames (p : Property) : List String := if p.sort then [variableName p .sorted] else []

/-- A sorted list introduces the variable that it is sorted by, for itself. -/
theorem scoped_sorted (p : Property) {ts : List Token} {all : List String}
    (h : Scoped known ts [] all) :
    Scoped known (sortStart p ++ ts ++ sortEnd p) [] (sortNames p ++ all) := by
  have hvariable := isVariable_variableName p .sorted
  have hwords : Scoped ([] ++ [variableName p .sorted] ++ known)
      (["SORT", variableName p .sorted, "ASC", "RETURN", variableName p .sorted].map .word)
      [] [] := by
    have hplain : ∀ w ∈ ["SORT", "ASC", "RETURN"], isPlainWord w = true := by decide
    simp only [List.forall_mem_cons] at hplain
    refine .words ?_
    simp [hplain, hvariable]
  have hfor : Scoped known [.word "FOR", .word (variableName p .sorted), .word "IN"]
      [variableName p .sorted] [variableName p .sorted] := .forVariable hvariable
  -- the items are sorted in a group of their own
  have hitems := (hfor.append h.within).append hwords
  unfold sortStart sortEnd sortNames
  cases p.sort
  · simpa using h
  · simpa using hitems.group

/-- A collapsed list introduces nothing. -/
theorem scoped_collapsed (p : Property) {ts : List Token} {all : List String}
    (h : Scoped known ts [] all) :
    Scoped known (collapseStart p ++ ts ++ collapseEnd p) [] all := by
  have hfirst : Scoped known (Token.word "FIRST" :: .opening :: ts ++ [Token.closing]) [] all :=
    .call rfl (by decide) h
  have hconcat : Scoped known (Token.word "CONCAT_SEPARATOR" :: .opening :: (.comma :: ts) ++
      [Token.closing]) [] all := .call rfl (by decide) h.comma
  unfold collapseStart collapseEnd
  rcases p.collapse with _ | _ | _
  · simpa using h
  · simpa using hfirst
  · simpa using hconcat

/-- The variables that a hop introduces within its list. -/
def visitNames (plan : Plan) (p : Property) (hop : Nat) (step : Step) : List String :=
  [variableName p (.document hop)] ++
    if p.ensureOrder && plan.edgeExists step then [variableName p (.edge hop)] else []

/-- A visit introduces the document, and the edge if there is an order. -/
theorem scoped_visitLine {source : Fragment} (h : Uses known source) (p : Property) (hop : Nat)
    (step : Step) : ScopedScript known [.line (visitLine plan p source hop step)]
      (visitNames plan p hop step) (visitNames plan p hop step) := by
  have hreads : Reads (visitLine plan p source hop step) _ :=
    reads_visitLine h.whole p hop step
  have hdoc := isVariable_variableName p (.document hop)
  have hedge := isVariable_variableName p (.edge hop)
  have hfor : Scoped known ([Token.word "FOR", .word (variableName p (.document hop))] ++
      (if p.ensureOrder && plan.edgeExists step then
        [Token.comma, .word (variableName p (.edge hop))] else []) ++ [Token.word "IN"])
      (visitNames plan p hop step) (visitNames plan p hop step) := by
    unfold visitNames
    split
    · exact (Scoped.forVariables hdoc hedge).mono (List.Subset.refl _) (by simp) (.refl _)
    · exact .forVariable hdoc
  have hsource : Scoped (visitNames plan p hop step ++ known)
      (if plan.edgeExists step then [Token.word "1", .word "1",
        .word (if step.reverse then "INBOUND" else "OUTBOUND")] ++ tokensOf source else [])
      [] [] := by
    have hwords : ∀ r : Bool, ∀ w ∈ ["1", "1", if r then "INBOUND" else "OUTBOUND"],
        isPlainWord w = true := by decide
    have hrange : Scoped (visitNames plan p hop step ++ known)
        (["1", "1", if step.reverse then "INBOUND" else "OUTBOUND"].map .word) [] [] :=
      .words fun w hw => .inl (hwords step.reverse w hw)
    split
    · exact hrange.append h.isScoped.within
    · exact .nil _
  have hline := hfor.append hsource
  rw [List.nil_append, List.append_nil] at hline
  exact .line hreads hline

/-- The sub-query of a hop, but for what goes on within it, is read in the list of the hop. -/
theorem reads_hop (parent : Fragment) {p : Property} (hop : Nat) {step : Step} {inner : Script}
    {new all : List String}
    (hsource : Uses known (if hop = 0 then parent else hopDoc p (hop - 1)))
    (haccess : accessNames plan ⊆ known)
    (hinner : ScopedScript (visitNames plan p hop step ++ known) inner new all) :
    ∃ ts, Scoped known ts [] (visitNames plan p hop step ++ all) ∧
      ReadsScript (openHop plan p parent hop step ++ inner ++
          [Command.outdent, .line (lit (if p.ensureOrder then ")" else "))"))])
        ([Token.word "LET", .word (variableName p (.list hop))] ++
          (if hop = 0 then collapseStart p ++ sortStart p else []) ++
          (spanStart p ++ ts ++ spanEnd p)) := by
  have hdoc : Uses (visitNames plan p hop step ++ known) (hopDoc p hop) :=
    uses_variable (r := .document hop) (by simp [visitNames])
  have hguards : Consults (visitNames plan p hop step ++ known) (guards plan (hopDoc p hop)) :=
    consults_guards hdoc (List.subset_append_of_subset_right _ haccess)
  have htypes : Consults (visitNames plan p hop step ++ known) (if step.types.isEmpty then []
      else [.line (lit "FILTER " ++ bound (stepAlias p hop ++ "_types") (.strings step.types) ++
        lit " ANY IN " ++ attr (hopDoc p hop) "@type")]) := by
    split
    · exact .nil _
    · have hplain := Template.plain [.text "FILTER ", .slot, .text " ANY IN ", .slot] (by decide) []
        [bound (stepAlias p hop ++ "_types") (.strings step.types), attr (hopDoc p hop) "@type"]
        (by simpa using ⟨.bound _ _, uses_attr hdoc "@type"⟩)
      exact .line (by simpa [Template.fill] using hplain)
  have horder : Consults (visitNames plan p hop step ++ known)
      (if p.ensureOrder && plan.edgeExists step then
        [.line (lit "SORT " ++ hopEdge p hop ++ lit "._orderNumber ASC")] else []) := by
    split
    · rename_i hedges
      have hedge : Uses (visitNames plan p hop step ++ known) (hopEdge p hop) :=
        uses_variable (r := .edge hop) (by simp [visitNames, hedges])
      have hplain := Template.plain [.text "SORT ", .slot, .text "._orderNumber ASC"] (by decide) []
        [hopEdge p hop] (by simpa using hedge)
      exact .line (by simpa [Template.fill] using hplain)
    · exact .nil _
  have hvisits := (((scoped_visitLine hsource p hop step).followed hguards).followed
    htypes).followed horder
  obtain ⟨ts, hts, hscoped⟩ := hvisits.append hinner
  have hend : Reads (lit (if p.ensureOrder then ")" else "))")) (spanEnd p) := by
    unfold spanEnd
    cases p.ensureOrder
    · exact (Leads.text (by decide)).reads
    · exact (Leads.text (by decide)).reads
  refine ⟨ts, hscoped.mono (List.Subset.refl _) (List.nil_subset _) (.refl _), ?_⟩
  have hstart := (ReadsScript.line (reads_listLine p hop)).append (.silent (c := .indent) rfl)
  have hscript := (hstart.append hts).append
    ((ReadsScript.silent (c := .outdent) rfl).append (.line hend))
  rw [openHop_eq]
  simpa using hscript

/-- What closes the wrapping is read as the ends of sorting and collapsing. -/
theorem reads_closing (p : Property) : ReadsScript (closing p) (sortEnd p ++ collapseEnd p) := by
  have hvariable := reads_variable p .sorted
  have hname : sortVariable p = named (variableName p .sorted) := rfl
  have hread : Template.read .start [.text " SORT ", .slot, .text " ASC RETURN ", .slot,
      .text ")"] = some ([some (.word "SORT"), none, some (.word "ASC"), some (.word "RETURN"),
        none, some .closing], true) := by decide
  have hsorted : Reads (lit " SORT " ++ sortVariable p ++ lit " ASC RETURN " ++ sortVariable p ++
      lit ")") [.word "SORT", .word (variableName p .sorted), .word "ASC", .word "RETURN",
        .word (variableName p .sorted), .closing] := by
    have hreads := Template.reads _ hread [] [sortVariable p, sortVariable p]
      (by simpa [hname] using hvariable.whole)
    simpa [Template.fill, Template.splice, hname, hvariable.tokens] using hreads
  have hcollapsed : Reads (lit ")") [.closing] := (Leads.text (by decide)).reads
  unfold closing sortEnd collapseEnd
  refine .append ?_ ?_
  · split
    · exact .add hsorted (by simp [isApart, isWordChar])
    · exact .nil
  · split
    · exact .add hcollapsed (by decide)
    · exact .nil

/-- The list of a property is in scope after it. -/
theorem scoped_firstHop {parent : Fragment} {p : Property} {step : Step} {inner : Script}
    {new all : List String} (hsource : Uses known parent) (haccess : accessNames plan ⊆ known)
    (hinner : ScopedScript (visitNames plan p 0 step ++ known) inner new all) :
    ScopedScript known (openHop plan p parent 0 step ++ inner ++ closeHop p 0 ++ closing p)
      [variableName p (.list 0)]
      ([variableName p (.list 0)] ++ (sortNames p ++ (visitNames plan p 0 step ++ all))) := by
  obtain ⟨ts, hts, hhop⟩ := reads_hop parent 0 hsource haccess hinner
  have hcollapsed := scoped_collapsed p (scoped_sorted p (scoped_span p hts))
  have hscoped := hcollapsed.letValue (isVariable_variableName p (.list 0))
  refine ⟨_, hhop.append (reads_closing p), ?_⟩
  simpa using hscoped

/-- The list of a later hop is what its sub-query returns. -/
theorem scoped_laterHop (parent : Fragment) {p : Property} {hop : Nat} {step : Step}
    {inner : Script} {new all : List String} (hsource : Uses known (hopDoc p hop))
    (haccess : accessNames plan ⊆ known)
    (hinner : ScopedScript (visitNames plan p (hop + 1) step ++ known) inner new all) :
    ScopedScript known (openHop plan p parent (hop + 1) step ++ inner ++ closeHop p (hop + 1))
      [variableName p (.list (hop + 1))]
      ([variableName p (.list (hop + 1))] ++ (visitNames plan p (hop + 1) step ++ all)) := by
  obtain ⟨ts, hts, hhop⟩ := reads_hop parent (hop + 1) hsource haccess hinner
  have hscoped := (scoped_span p hts).letValue (isVariable_variableName p (.list (hop + 1)))
  have hreturn : Consults ([variableName p (.list (hop + 1))] ++ known)
      [.line (projectionStart p ++ named (stepAlias p (hop + 1)))] :=
    consults_projection (uses_variable (r := .list (hop + 1)) (by simp)) p
  have hlists : ScopedScript known (openHop plan p parent (hop + 1) step ++ inner ++
      [Command.outdent, .line (lit (if p.ensureOrder then ")" else "))"))])
      [variableName p (.list (hop + 1))]
      ([variableName p (.list (hop + 1))] ++ (visitNames plan p (hop + 1) step ++ all)) :=
    ⟨_, hhop, by simpa using hscoped⟩
  have hfollowed := hlists.followed hreturn
  simpa [closeHop] using hfollowed

/-! ## Groupings -/

/-- The variables of the keys of a property's groups. -/
def keyNames (p : Property) : List String :=
  (List.range (p.children.filter Property.groupBy).length).map fun i => variableName p (.key i)

/-- The keys of groups have a variable each. -/
theorem keyNames_eq (p : Property) : keyNames p =
    (p.children.filter Property.groupBy).zipIdx.map fun c => variableName p (.key c.2) := by
  have hnumbers : (p.children.filter Property.groupBy).zipIdx.map Prod.snd =
      List.range (p.children.filter Property.groupBy).length := by
    rw [List.zipIdx_map_snd, List.range_eq_range']
  rw [keyNames, ← hnumbers, List.map_map]
  rfl

theorem groupKeys_eq (p : Property) : groupKeys p =
    (p.children.filter Property.groupBy).zipIdx.map fun c =>
      (c.1, named (variableName p (.key c.2))) := rfl

theorem uses_groupKey {p : Property} (h : keyNames p ⊆ known) :
    ∀ k ∈ groupKeys p, Uses known k.2 := by
  rw [keyNames_eq] at h
  rw [groupKeys_eq]
  refine List.forall_mem_map.mpr fun c hc => ?_
  exact uses_variable (h (List.mem_map_of_mem hc))

/-- The order of groups uses the variables of keys. -/
theorem consults_groupOrder {p : Property} (h : keyNames p ⊆ known) :
    Consults known (groupOrder p) := by
  have hkey (k : Property × Fragment) (hk : k ∈ groupKeys p) : Uses known (k.2 ++ lit " ASC") := by
    have hplain := Template.plain [.slot, .text " ASC"] (by decide) [] [k.2]
      (by simpa using uses_groupKey h k hk)
    simpa [Template.fill] using hplain
  have hsort {fs : List Fragment} (hfs : ∀ f ∈ fs, Uses known f) :
      Uses known (lit "SORT " ++ comma fs) := by
    have hplain := Template.plain [.text "SORT ", .slot] (by decide) [] [comma fs]
      (by simpa using uses_comma hfs)
    simpa [Template.fill] using hplain
  unfold groupOrder
  split
  · exact .line (hsort (List.forall_mem_map.mpr fun k hk =>
      hkey k (mem_groupKeys_of_mem_order hk)))
  · exact .nil known

/-- So do the fields of groups. -/
theorem uses_groupFields {p : Property} (h : keyNames p ⊆ known) :
    Uses known (groupFields p) := by
  refine uses_comma (List.forall_mem_append.mpr ⟨?_, ?_⟩)
  · exact List.forall_mem_map.mpr fun k hk => uses_quotedEntry (uses_groupKey h k hk) _
  · have hnone : ∀ f ∈ ([] : List Fragment), Uses known f := by simp
    have hinstances := Template.plain [.text "\"", .quoted, .text "\"", .text ": instances"]
      (by decide) [p.groupedInstances.getD ""] [] hnone
    refine List.forall_mem_singleton.mpr ?_
    simpa [Template.fill, quotedKey] using hinstances

/-- The line that collects groups is read word by word. -/
theorem reads_collecting (p : Property) : Reads (collecting p) (Token.word "COLLECT" ::
    ([Token.comma].intercalate
      ((keyNames p).map fun v => [.word v, .word (variableName p .item)]) ++
      [Token.word "INTO", .word (variableName p .group)])) := by
  have hkey : Template.read .start [.slot, .text " = ", .slot, .text ".`", .quoted, .text "`"] =
      some ([none, none], true) := by decide
  have hline : Template.read .start [.text "COLLECT ", .slot, .text " INTO ", .slot] =
      some ([some (.word "COLLECT"), none, some (.word "INTO"), none], false) := by decide
  have hitem := reads_variable p .item
  have hgroup := reads_variable p .group
  have hvalues : Reads (keyValues p) ([Token.comma].intercalate
      ((keyNames p).map fun v => [.word v, .word (variableName p .item)])) := by
    unfold keyValues
    rw [groupKeys_eq, keyNames_eq, List.map_map, List.map_map]
    refine reads_comma fun c _ => ?_
    have hvariable := reads_variable p (.key c.2)
    have hvalue : Reads (named (variableName p (.key c.2)) ++ lit " = " ++
        attr (named (variableName p .item)) c.1.key)
        [.word (variableName p (.key c.2)), .word (variableName p .item)] := by
      have hreads := Template.reads _ hkey [c.1.key] [named (variableName p (.key c.2)),
        named (variableName p .item)] (by simpa using ⟨hvariable.whole, hitem.whole⟩)
      simpa [Template.fill, Template.splice, hvariable.tokens, hitem.tokens, attr] using hreads
    exact hvalue
  have hcollecting : collecting p = lit "COLLECT " ++ keyValues p ++ lit " INTO " ++
      named (variableName p .group) := rfl
  have hreads := Template.reads _ hline [] [keyValues p, named (variableName p .group)]
    (by simpa using ⟨hvalues.whole, hgroup.whole⟩)
  rw [hcollecting]
  simpa [Template.fill, Template.splice, hvalues.tokens, hgroup.tokens] using hreads

/-- The fields of members use the variable of the member. -/
theorem uses_memberFields {p : Property} (h : variableName p .member ∈ known) :
    Uses known (memberFields p) :=
  uses_comma (List.forall_mem_map.mpr fun c _ =>
    uses_quotedEntry (uses_attr (uses_variable (r := .member) h) c.key) c.key)

/-- So does their order. -/
theorem uses_memberOrder {p : Property} (h : variableName p .member ∈ known) :
    Uses known (memberOrder p) ∧ isApart (Fragment.symbols (memberOrder p)) = true := by
  have hkey (c : Property) : Uses known (attr (named (p.aliasName ++ "_gi")) c.key ++
      lit " ASC") := by
    have hattr : Uses known (attr (named (p.aliasName ++ "_gi")) c.key) :=
      uses_attr (uses_variable (r := .member) h) c.key
    have hplain := Template.plain [.slot, .text " ASC"] (by decide) [] [_] (by simpa using hattr)
    simpa [Template.fill] using hplain
  have hsort {fs : List Fragment} (hfs : ∀ f ∈ fs, Uses known f) :
      Uses known (lit " SORT " ++ comma fs) := by
    have hplain := Template.plain [.text " SORT ", .slot] (by decide) [] [comma fs]
      (by simpa using uses_comma hfs)
    simpa [Template.fill] using hplain
  unfold memberOrder
  split
  · exact ⟨.nil, rfl⟩
  · exact ⟨hsort (List.forall_mem_map.mpr fun c _ => hkey c), by simp [isApart, isWordChar]⟩

/-- The line that gathers members opens a group of its own, and closes it. -/
theorem reads_gathering (p : Property) : Reads (gathering p)
    ([Token.word "LET", .word "instances"] ++ (Token.opening :: ([Token.word "FOR",
      .word (variableName p .member), .word "IN"] ++ [Token.word (variableName p .group),
        .word (variableName p .item)] ++ tokensOf (memberOrder p) ++ ([Token.word "RETURN"] ++
          tokensOf (memberFields p))) ++ [Token.closing])) := by
  have hmember := reads_variable p .member
  have hgroup := reads_variable p .group
  have hitem := reads_variable p .item
  have hhead : Template.read .start [.text "LET instances = (FOR ", .slot, .text " IN ", .slot,
      .text "[*].", .slot] = some ([some (.word "LET"), some (.word "instances"), some .opening,
        some (.word "FOR"), none, some (.word "IN"), none, none], false) := by decide
  have htail : Template.read .start [.text " RETURN \x7b ", .slot, .text " \x7d)"] =
      some ([some (.word "RETURN"), none, some .closing], true) := by decide
  have hknown : variableName p .member ∈ [variableName p .member] := List.mem_cons_self
  have hfields := (uses_memberFields hknown).whole
  obtain ⟨horder, hapart⟩ := uses_memberOrder hknown
  have hbefore := Template.reads _ hhead [] [named (variableName p .member),
    named (variableName p .group), named (variableName p .item)]
    (by simpa using ⟨hmember.whole, hgroup.whole, hitem.whole⟩)
  have hafter := Template.reads _ htail [] [memberFields p] (by simpa using hfields)
  have hreads := (hbefore.append ⟨horder.whole, rfl⟩ (.inr hapart)).append hafter
    (.inr (by simp [Template.fill, isApart, isWordChar]))
  have hgathering : gathering p = lit "LET instances = (FOR " ++ named (variableName p .member) ++
      lit " IN " ++ named (variableName p .group) ++ lit "[*]." ++ named (variableName p .item) ++
      memberOrder p ++ lit " RETURN \x7b " ++ memberFields p ++ lit " \x7d)" := rfl
  rw [hgathering]
  simpa [Template.fill, Template.splice, hmember.tokens, hgroup.tokens, hitem.tokens] using hreads

/-- The members of a group are gathered in parentheses of their own. -/
theorem scoped_gathering {p : Property} (hitem : variableName p .item ∈ known)
    (hgroup : variableName p .group ∈ known) :
    ScopedScript known [.line (gathering p)] [] [variableName p .member] := by
  have hmember := isVariable_variableName p .member
  have hknown : variableName p .member ∈ [variableName p .member] ++ known := List.mem_cons_self
  have hlet : Scoped known [.word "LET", .word "instances"] [] [] := .letName rfl (by decide)
  have hfor : Scoped known [.word "FOR", .word (variableName p .member), .word "IN"]
      [variableName p .member] [variableName p .member] := .forVariable hmember
  have hsource : Scoped ([variableName p .member] ++ known) ([variableName p .group,
      variableName p .item].map .word) [] [] := by
    refine .words ?_
    simp [isVariable_variableName, hitem, hgroup]
  have hreturn : Scoped ([variableName p .member] ++ known) (["RETURN"].map .word) [] [] := by
    have hplain : isPlainWord "RETURN" = true := by decide
    exact .words (by simp [hplain])
  have horder := (uses_memberOrder hknown).1.isScoped
  have hfields := (uses_memberFields hknown).isScoped
  have hitems := ((hfor.append hsource).append horder).append (hreturn.append hfields)
  have hline := hlet.append hitems.group.within
  exact .line (reads_gathering p) (by simpa using hline)

/-- The loop over items introduces its variable. -/
theorem scoped_items {p : Property} (h : variableName p (.list 0) ∈ known) :
    ScopedScript known
      [.line (lit "FOR " ++ named (p.aliasName ++ "_g") ++ lit " IN " ++ named p.aliasName)]
      [variableName p .item] [variableName p .item] := by
  have hitem := reads_variable p .item
  have hlist := reads_variable p (.list 0)
  have hread : Template.read .start [.text "FOR ", .slot, .text " IN ", .slot] =
      some ([some (.word "FOR"), none, some (.word "IN"), none], false) := by decide
  have hreads := Template.reads _ hread [] [named (variableName p .item),
    named (variableName p (.list 0))] (by simpa using ⟨hitem.whole, hlist.whole⟩)
  have hline : Reads (lit "FOR " ++ named (variableName p .item) ++ lit " IN " ++
      named (variableName p (.list 0))) ([Token.word "FOR", .word (variableName p .item),
        .word "IN"] ++ [variableName p (.list 0)].map .word) := by
    simpa [Template.fill, Template.splice, hitem.tokens, hlist.tokens] using hreads
  have hfor : Scoped known [.word "FOR", .word (variableName p .item), .word "IN"]
      [variableName p .item] [variableName p .item] :=
    .forVariable (isVariable_variableName p _)
  have hsource : Scoped ([variableName p .item] ++ known)
      ([variableName p (.list 0)].map .word) [] [] := by
    refine .words ?_
    simp [isVariable_variableName, h]
  exact .line hline (hfor.append hsource)

/-- Collecting introduces the variables of keys and groups. -/
theorem scoped_collecting {p : Property} (h : variableName p .item ∈ known) :
    ScopedScript known [.line (collecting p)] (variableName p .group :: keyNames p)
      (keyNames p ++ [variableName p .group]) := by
  have hkeys : ∀ v ∈ keyNames p, isVariable v = true :=
    List.forall_mem_map.mpr fun i _ => isVariable_variableName p (.key i)
  exact .line (reads_collecting p)
    (.collect hkeys (isVariable_variableName p _) h (isVariable_variableName p _))

/-- The groups of a property are in scope after its grouping. -/
theorem scoped_grouping {p : Property} (h : variableName p (.list 0) ∈ known) :
    ScopedScript known (grouping p) [variableName p .grouping]
      ((groupingRoles p).map (variableName p)) := by
  have hkeys : keyNames p ⊆ variableName p .group :: keyNames p ++ ([variableName p .item] ++
      known) := fun v hv => by simp [hv]
  have hreturn : Consults (variableName p .group :: keyNames p ++ ([variableName p .item] ++ known))
      [.line (lit "RETURN \x7b " ++ groupFields p ++ lit " \x7d")] := by
    have hplain := Template.plain [.text "RETURN \x7b ", .slot, .text " \x7d"] (by decide) []
      [groupFields p] (by simpa using uses_groupFields hkeys)
    exact .line (by simpa [Template.fill] using hplain)
  have hcollected := (((scoped_items h).append (scoped_collecting List.mem_cons_self)).followed
    (by simpa using consults_groupOrder hkeys))
  have hgathered := (hcollected.append (scoped_gathering (p := p) (by simp) (by simp))).followed
    (by simpa using hreturn)
  obtain ⟨ts, hts, hscoped⟩ := hgathered
  have hgroups := reads_variable p .grouping
  have hread : Template.read .start [.text "LET ", .slot, .text " = ("] =
      some ([some (.word "LET"), none, some .opening], true) := by decide
  have hlet : Reads (lit "LET " ++ named p.groupAlias ++ lit " = (")
      [.word "LET", .word (variableName p .grouping), .opening] := by
    have hname : p.groupAlias = variableName p .grouping := rfl
    have hreads := Template.reads _ hread [] [named p.groupAlias]
      (by simpa [hname] using hgroups.whole)
    simpa [Template.fill, Template.splice, hname, hgroups.tokens] using hreads
  have hend : Reads (lit ")") [.closing] := (Leads.text (by decide)).reads
  have hgrouping := hscoped.group.letValue (isVariable_variableName p .grouping)
  have hscript := (((ReadsScript.line hlet).append (.silent (c := .indent) rfl)).append hts).append
    ((ReadsScript.silent (c := .outdent) rfl).append (.line hend))
  rw [grouping_eq]
  refine ⟨_, by simpa using hscript, ?_⟩
  simpa [groupingRoles, keyNames, Function.comp_def] using hgrouping

/-! ## Traversals -/

/-- The variables of some properties and of those below them. -/
def levelNames (plan : Plan) (ps : List Property) : List String :=
  (Property.subtrees ps).flatMap fun p => (roles plan p).map (variableName p)

/-- What a traversal needs of the traversals below it. -/
def ScopedLevel (plan : Plan) (ps : List Property) : Prop :=
  ∀ {known : List String} {doc : Fragment}, accessNames plan ⊆ known → Uses known doc →
    ScopedScript known (traversals plan doc ps) (valueNames ps) (levelNames plan ps)

/-- The variables of the hops of a property, from a hop on. -/
def hopNames (plan : Plan) (p : Property) (hop : Nat) (steps : List Step) : List String :=
  ((steps.zipIdx hop).flatMap fun (step, hop) => hopRoles plan p hop step).map (variableName p)

/-- A path introduces the list of its first hop, then what the visit introduces, then the others. -/
theorem hopNames_cons (p : Property) (hop : Nat) (step : Step) (rest : List Step) :
    hopNames plan p hop (step :: rest) =
      [variableName p (.list hop)] ++ visitNames plan p hop step ++
        hopNames plan p (hop + 1) rest := by
  have hfirst : (hopRoles plan p hop step).map (variableName p) =
      [variableName p (.list hop)] ++ visitNames plan p hop step := by
    unfold hopRoles visitNames
    split <;> rfl
  unfold hopNames
  rw [List.zipIdx_cons, List.flatMap_cons, List.map_append, ← hfirst]

/-- What stands inside the hops uses what the children introduce. -/
theorem scoped_body {doc : Fragment} (hdoc : Uses known doc) (haccess : accessNames plan ⊆ known)
    {p : Property} (hchildren : ScopedLevel plan p.children) :
    ScopedScript known (body plan doc p) [] (levelNames plan p.children) := by
  unfold body
  split
  · rename_i leaf hleaf
    -- a leaf has nothing below it
    have hnone : p.children = [] := by
      unfold Property.leafStep? Property.isLeaf at hleaf
      split at hleaf
      · rename_i hempty
        simpa using hempty
      · cases hleaf
    have hattr := uses_attr hdoc leaf.uri
    have hpresent := Template.plain [.text "FILTER ", .slot, .text " != NULL"] (by decide) []
      [attr doc leaf.uri] (by simpa using hattr)
    have hfilter : Consults known [.line (lit "FILTER " ++ attr doc leaf.uri ++ lit " != NULL")] :=
      .line (by simpa [Template.fill] using hpresent)
    have hlines := hfilter.append (consults_projection hattr p)
    rw [hnone]
    exact hlines
  · -- the values of the children are in scope after their traversals
    have hvalues : Uses (valueNames p.children ++ known) doc :=
      hdoc.mono (List.subset_append_right _ _)
    have hfilters : Consults (valueNames p.children ++ known) (filters plan doc p.children) :=
      consults_filters hvalues (List.subset_append_left _ _)
    have hlines := ((hchildren haccess hdoc).followed hfilters).followed
      (consults_result hvalues (List.subset_append_left _ _) true)
    exact hlines.mono (List.Subset.refl _) (List.nil_subset _) (.refl _)

/-- The lists of the later hops, each within that of the hop before, and the body within all. -/
theorem scoped_hopLists (parent : Fragment) {p : Property}
    (hchildren : ScopedLevel plan p.children) (steps : List Step) (hop : Nat)
    (hdoc : Uses known (hopDoc p hop)) (haccess : accessNames plan ⊆ known) :
    ScopedScript known (hopLists plan parent p (hop + 1) steps) []
      (hopNames plan p (hop + 1) steps ++ levelNames plan p.children) := by
  induction steps generalizing hop known with
  | nil =>
    rw [hopLists, Nat.add_sub_cancel]
    simpa [hopNames] using scoped_body hdoc haccess hchildren
  | cons step rest ih =>
    have hnext : Uses (visitNames plan p (hop + 1) step ++ known) (hopDoc p (hop + 1)) :=
      uses_variable (r := .document (hop + 1)) (by simp [visitNames])
    have hinner := ih (hop + 1) hnext (List.subset_append_of_subset_right _ haccess)
    have hlist := scoped_laterHop parent hdoc haccess hinner
    rw [hopLists, hopNames_cons]
    exact hlist.mono (List.Subset.refl _) (List.nil_subset _) (by simp)

/-- A property that is no merge is traversed unless it is a field. -/
theorem isDirect_iff {p : Property} (h : p.isMerge = false) :
    p.isDirect = true ↔ p.edgeSteps = [] := by
  have hneeds : p.isDirect = !p.needsTraversal := by
    unfold Property.isDirect Property.needsTraversal
    cases p.isLeaf
    · rfl
    · by_cases hlength : 1 < p.path.length
      · simp [hlength, Nat.not_lt.mpr hlength]
      · simp [hlength, Nat.lt_succ_iff.mpr (Nat.not_lt.mp hlength)]
  rw [hneeds, Bool.not_eq_true', ← Bool.not_eq_true, needsTraversal_iff h, not_not]

/-- A property introduces the variables of its roles, and those of the children. -/
theorem levelNames_singleton (p : Property) : levelNames plan [p] =
    (roles plan p).map (variableName p) ++ levelNames plan p.children := by
  rw [levelNames, Property.subtrees, Property.subtrees, List.append_nil, Property.subtree_eq]
  rfl

/-- A traversal with hops: the list is in scope after it, and the groups if it is grouped. -/
theorem scoped_hops {p : Property} (hchildren : ScopedLevel plan p.children) {parent : Fragment}
    (haccess : accessNames plan ⊆ known) (hparent : Uses known parent) {step : Step}
    {rest : List Step} (hsteps : p.edgeSteps = step :: rest) :
    ScopedScript known (hopLists plan parent p 0 p.edgeSteps ++ closing p ++
      (if p.hasGrouping then grouping p else [])) [variableName p (valueRole p)]
      (levelNames plan [p]) := by
  have hdoc : Uses (visitNames plan p 0 step ++ known) (hopDoc p 0) :=
    uses_variable (r := .document 0) (by simp [visitNames])
  have hinner := scoped_hopLists parent hchildren rest 0 hdoc
    (List.subset_append_of_subset_right _ haccess)
  have hlist := scoped_firstHop hparent haccess hinner
  have hgrouping : ScopedScript ([variableName p (.list 0)] ++ known)
      (if p.hasGrouping then grouping p else [])
      (if p.hasGrouping then [variableName p .grouping] else [])
      (if p.hasGrouping then (groupingRoles p).map (variableName p) else []) := by
    split
    · exact scoped_grouping List.mem_cons_self
    · exact .nil _
  have hnames : levelNames plan [p] = hopNames plan p 0 (step :: rest) ++ sortNames p ++
      (if p.hasGrouping then (groupingRoles p).map (variableName p) else []) ++
        levelNames plan p.children := by
    rw [levelNames_singleton, roles, hsteps]
    unfold hopNames sortNames
    cases p.sort <;> cases p.hasGrouping <;> simp
  rw [hsteps, hopLists, hnames, hopNames_cons]
  refine (hlist.append hgrouping).mono (List.Subset.refl _) ?_ ?_
  · unfold valueRole
    cases p.hasGrouping <;> simp
  · -- the variables of the children are introduced before those of the groups
    rw [List.perm_iff_count]
    intro v
    simp only [List.count_append]
    omega

/-- The value of a property is in scope after its traversal. -/
theorem scoped_traversal_of_children {p : Property} (hchildren : ScopedLevel plan p.children)
    {parent : Fragment} (haccess : accessNames plan ⊆ known) (hparent : Uses known parent) :
    ScopedScript known (traversal plan parent p) (valueNames [p]) (levelNames plan [p]) := by
  have hlevel : Property.level [p] = p.expand := by
    rw [Property.level, Property.level, List.append_nil]
  rw [traversal_eq_hopLists]
  by_cases hmerge : p.isMerge = true
  · -- a merge has no variables, and the values of its children
    have hsteps : p.edgeSteps = [] := by
      unfold Property.isMerge at hmerge
      rw [Bool.and_eq_true, Bool.not_eq_true', List.isEmpty_iff] at hmerge
      simp [Property.edgeSteps, hmerge]
    have hvalues : valueNames [p] = valueNames p.children := by
      rw [valueNames, hlevel, Property.expand_eq, if_pos hmerge]
      rfl
    have hroles : roles plan p = [] := by simp [roles, hsteps]
    rw [if_pos hmerge, hvalues, levelNames_singleton, hroles]
    exact hchildren haccess hparent
  · have hdirect := isDirect_iff (by simpa using hmerge)
    have hexpand : Property.level [p] = [p] := by rw [hlevel, Property.expand_eq, if_neg hmerge]
    rw [if_neg hmerge]
    cases hsteps : p.edgeSteps with
    | nil =>
      -- a field needs no variable
      have hfield := hdirect.mpr hsteps
      have hvalues : valueNames [p] = [] := by simp [valueNames, hexpand, hfield]
      have hchildless : p.children = [] := by
        rw [Property.isDirect, Bool.and_eq_true] at hfield
        simpa [Property.isLeaf] using hfield.1
      have hnames : levelNames plan [p] = [] := by
        rw [levelNames_singleton, hchildless]
        simp [roles, hsteps, levelNames, Property.subtrees]
      rw [if_pos rfl, hvalues, hnames]
      exact .nil known
    | cons step rest =>
      have hvalues : valueNames [p] = [variableName p (valueRole p)] := by
        have hnot : p.isDirect = false := by
          rw [← Bool.not_eq_true, hdirect, hsteps]
          exact List.cons_ne_nil step rest
        simp [valueNames, hexpand, hnot]
      rw [if_neg (List.cons_ne_nil step rest), hvalues, ← hsteps]
      exact scoped_hops hchildren haccess hparent hsteps

mutual

/-- A traversal introduces the value of its property for what follows, by induction on the
properties. -/
theorem scoped_traversal {known : List String} {parent : Fragment}
    (haccess : accessNames plan ⊆ known) (hparent : Uses known parent) : (p : Property) →
    ScopedScript known (traversal plan parent p) (valueNames [p]) (levelNames plan [p])
  | ⟨_, _, children, _, _, _, _, _, _, _, _⟩ =>
    scoped_traversal_of_children (fun haccess hdoc => scoped_traversals haccess hdoc children)
      haccess hparent

/-- The values of a level are in scope after its traversals. -/
theorem scoped_traversals {known : List String} {parent : Fragment}
    (haccess : accessNames plan ⊆ known) (hparent : Uses known parent) : (ps : List Property) →
    ScopedScript known (traversals plan parent ps) (valueNames ps) (levelNames plan ps)
  | [] => .nil known
  | p :: rest => by
    have hfirst := scoped_traversal haccess hparent p
    have hrest := scoped_traversals (List.subset_append_of_subset_right (valueNames [p]) haccess)
      (hparent.mono (List.subset_append_right _ _)) rest
    have hvalues : valueNames (p :: rest) = valueNames [p] ++ valueNames rest := by
      simp [valueNames, Property.level]
    have hnames : levelNames plan (p :: rest) = levelNames plan [p] ++ levelNames plan rest := by
      simp [levelNames, Property.subtrees]
    rw [traversals, hvalues, hnames]
    refine (hfirst.append hrest).mono (List.Subset.refl _) ?_ (.refl _)
    intro v hv
    rcases List.mem_append.mp hv with hv | hv
    · exact List.mem_append_right _ hv
    · exact List.mem_append_left _ hv

end

/-! ## Selections and projections -/

/-- The access lists introduce their names. -/
theorem scoped_accessLists : ScopedScript known (accessLists plan.access) (accessNames plan)
    (accessNames plan) := by
  have hwhitelist : Template.read .start [.text "LET whitelist=", .slot] =
      some ([some (.word "LET"), some (.word "whitelist"), none], false) := by decide
  have hinvitation : Template.read .start [.text "LET invitation=", .slot] =
      some ([some (.word "LET"), some (.word "invitation"), none], false) := by decide
  have hspaces (v : Value) : ScopedScript known
      [.line (lit "LET whitelist=" ++ bound "readAccessBySpace" v)] ["whitelist"]
      ["whitelist"] := by
    have hreads := Template.reads _ hwhitelist [] [bound "readAccessBySpace" v]
      (by simpa using whole_bound _ v)
    exact .line (by simpa [Template.fill, Template.splice] using hreads) (.letVariable (by decide))
  have hinstances (v : Value) : ScopedScript (["whitelist"] ++ known)
      [.line (lit "LET invitation=" ++ bound "readAccessByInvitation" v)] ["invitation"]
      ["invitation"] := by
    have hreads := Template.reads _ hinvitation [] [bound "readAccessByInvitation" v]
      (by simpa using whole_bound _ v)
    exact .line (by simpa [Template.fill, Template.splice] using hreads) (.letVariable (by decide))
  unfold accessLists accessNames
  cases plan.access with
  | none => exact .nil known
  | some access =>
    exact ((hspaces _).append (hinstances _)).mono (List.Subset.refl _) (by simp) (.refl _)

/-- The root introduces its variable. -/
theorem scoped_rootSelection : ScopedScript known (rootSelection plan.root) ["root_doc"]
    ["root_doc"] := by
  have hdocument : Template.read .start [.text "LET root_doc = DOCUMENT(", .slot, .text ", ",
      .slot, .text ")"] = some ([some (.word "LET"), some (.word "root_doc"),
        some (.word "DOCUMENT"), some .opening, none, some .comma, none, some .closing], true) := by
    decide
  have htype : Template.read .start [.text "FOR root_doc IN 1..1 OUTBOUND DOCUMENT(", .slot,
      .text ", ", .slot, .text ") ", .slot] = some ([some (.word "FOR"), some (.word "root_doc"),
        some (.word "IN"), some (.word "1"), some (.word "1"), some (.word "OUTBOUND"),
        some (.word "DOCUMENT"), some .opening, none, some .comma, none, some .closing, none],
        false) := by
    decide
  have hroot : isVariable "root_doc" = true := by decide
  have hcall : Scoped (["root_doc"] ++ known) (Token.word "DOCUMENT" :: .opening :: [.comma] ++
      [Token.closing]) [] [] := .call rfl (by decide) (Scoped.nil _).comma
  unfold rootSelection
  cases plan.root with
  | document id =>
    have hreads := Template.reads _ hdocument []
      [bound "@rootCollection" (.string (Collection.ofSpace id.space).name),
        bound "rootId" (.string id.uuid.text)] (by simp [whole_bound])
    have hline : Scoped known ([Token.word "LET", .word "root_doc"] ++
        (Token.word "DOCUMENT" :: .opening :: [.comma] ++ [Token.closing])) ["root_doc"]
        ["root_doc"] :=
      (Scoped.letVariable hroot).append hcall
    exact .line (by simpa [Template.fill, Template.splice] using hreads) hline
  | ofType type =>
    have hreads := Template.reads _ htype []
      [bound "@typeCollection" (.string typeCollection), bound "typeId" (.string type),
        bound "@typeRelation" (.string typeRelation)] (by simp [whole_bound])
    have hwords : Scoped (["root_doc"] ++ known) (["1", "1", "OUTBOUND"].map .word) [] [] := by
      have hplain : ∀ w ∈ ["1", "1", "OUTBOUND"], isPlainWord w = true := by decide
      exact .words fun w hw => .inl (hplain w hw)
    have hline : Scoped known ([Token.word "FOR", .word "root_doc", .word "IN"] ++
        (["1", "1", "OUTBOUND"].map Token.word ++ (Token.word "DOCUMENT" :: .opening :: [.comma] ++
          [Token.closing]))) ["root_doc"] ["root_doc"] :=
      (Scoped.forVariable hroot).append (hwords.append hcall)
    exact .line (by simpa [Template.fill, Template.splice] using hreads) hline

/-- The filter on documents uses the root. -/
theorem consults_documentFilter (plan : Plan) (h : "root_doc" ∈ known) : Consults known
    (match plan.documentFilter with
      | some c => [.line (lit "FILTER " ++ condition (attr root "@id") c)]
      | none => []) := by
  split
  · exact consults_condition (uses_attr (uses_root h) "@id") _
  · exact .nil known

/-- All variables are introduced before the projection. The document and its values are in scope
there. -/
theorem scoped_selection (plan : Plan) : ScopedScript [] (selection plan)
    (valueNames plan.spec.properties ++ (["root_doc"] ++ accessNames plan))
    (variableNames plan) := by
  have hstart : ScopedScript [] (accessLists plan.access ++ rootSelection plan.root)
      (["root_doc"] ++ accessNames plan) (accessNames plan ++ ["root_doc"]) :=
    scoped_accessLists.append scoped_rootSelection
  have hroot : "root_doc" ∈ ["root_doc"] ++ accessNames plan ++ [] := by simp
  have haccess : accessNames plan ⊆ ["root_doc"] ++ accessNames plan ++ [] := by simp
  have hdocument := (hstart.followed (consults_guards (uses_root hroot) haccess)).followed
    (consults_documentFilter plan hroot)
  have hvalues := hdocument.append
    (scoped_traversals haccess (uses_root hroot) plan.spec.properties)
  have hfilters : Consults (valueNames plan.spec.properties ++ (["root_doc"] ++ accessNames plan) ++
      []) (filters plan root plan.spec.properties) :=
    consults_filters (uses_root (by simp)) (by simp)
  have hall : accessNames plan ++ ["root_doc"] ++ levelNames plan plan.spec.properties =
      variableNames plan := rfl
  rw [← hall]
  exact hvalues.followed hfilters

/-- The number of documents has a name of its own, which is no variable. -/
theorem consults_countProjection (known : List String) : Consults known countProjection := by
  have hread : Template.read .start [.text "COLLECT WITH COUNT INTO length"] =
      some (["COLLECT", "WITH", "COUNT", "INTO", "length"].map (some ∘ .word), false) := by decide
  have hreads := Template.reads _ hread [] [] (by simp)
  have hlength : isVariable "length" = false := by decide
  have hcount : Consults known [.line (lit "COLLECT WITH COUNT INTO length")] :=
    ScopedScript.line (by simpa [Template.fill, Template.splice] using hreads)
      (.countInto rfl hlength)
  exact hcount.append (.append (.line (.text (by decide))) (.silent rfl))

theorem uses_number (n : Nat) : Uses known [.number n] := by
  have hdigits : ∀ c ∈ (toString n).toList, c.isDigit = true := fun _ hc =>
    Text.isDigit_of_mem_toString hc
  obtain ⟨c, hlast, hdigit⟩ := Text.endsIn_toString n
  have hmem : c ∈ (toString n).toList := List.mem_of_getLast? hlast
  have hreads : Reads [.number n] [.word (toString n)] := by
    refine reads_word (fun c hc => ?_) ?_ (List.append_nil _)
    · simp [isWordChar, Char.isAlphanum, hdigits c hc]
    · intro hempty
      simp [hempty] at hmem
  have hkeyword : keyword? (toString n) = none := by
    generalize toString n = w at hmem
    unfold keyword?
    split
    all_goals first | rfl | exact absurd (List.any_eq_true.mpr ⟨c, hmem, hdigit⟩) (by decide)
  -- a variable has an underscore, or is one of those without digits
  have hvariable : isVariable (toString n) = true → toString n ∈ known := by
    generalize toString n = w at hmem hdigits
    intro h
    rw [isVariable, Bool.or_eq_true, Bool.and_eq_true] at h
    rcases h with hfixed | ⟨hmark, -⟩
    · have hnone : ∀ v ∈ ["root_doc", "whitelist", "invitation"],
          v.toList.any Char.isDigit = false := by decide
      have hdigitless := hnone w (by simpa using hfixed)
      rw [List.any_eq_true.mpr ⟨c, hmem, hdigit⟩] at hdigitless
      cases hdigitless
    · have hunderscore := hdigits '_' (by simpa using hmark)
      exact absurd hunderscore (by decide)
  exact .word hreads hkeyword hvariable

theorem consults_page (page : Option PageRequest) : Consults known [.page page] := by
  rcases page with _ | ⟨offset, _ | size, returnTotal⟩
  · exact .silent rfl
  · exact .silent rfl
  · have hnumbers : ∀ f ∈ [[Piece.number offset], [.number size]], Uses known f := by
      simp [uses_number]
    have hplain := Template.plain [.text "LIMIT ", .slot, .text ", ", .slot] (by decide) [] _
      hnumbers
    exact .starting rfl (by simpa [Template.fill] using hplain)

/-- The projection of rows uses the values of the top level. -/
theorem consults_rows (h : "root_doc" ∈ known)
    (hvalues : valueNames plan.spec.properties ⊆ known) : Consults known (projection plan) := by
  have hkey : ∀ p ∈ (Property.level plan.spec.properties).filter Property.sort,
      Uses known (value root p ++ lit " ASC") := by
    intro p hp
    have hvalue := uses_value (uses_root h)
      (mem_of_valueNames hvalues p (List.mem_filter.mp hp).1)
    have hplain := Template.plain [.slot, .text " ASC"] (by decide) [] [value root p]
      (by simpa using hvalue)
    simpa [Template.fill] using hplain
  have hkeys := uses_comma (List.forall_mem_map.mpr hkey)
  have hsort := Template.plain [.text "SORT ", .slot] (by decide) [] [_] (by simpa using hkeys)
  unfold projection
  refine .append (.append ?_ (consults_page plan.page))
    (consults_result (uses_root h) hvalues false)
  split
  · exact .nil known
  · exact .line (by simpa [Template.fill] using hsort)

/-- An AQL statement is scoped by itself. -/
theorem scoped_script (plan : Plan) : ScopedScript [] (script plan)
    (valueNames plan.spec.properties ++ (["root_doc"] ++ accessNames plan))
    (variableNames plan) := by
  unfold script
  refine (scoped_selection plan).followed ?_
  split
  · exact consults_countProjection _
  · exact consults_rows (by simp) (by simp)

end Aql

/-! ## Statements -/

/-- In the statements for an interpreted query, every use of a variable comes after its
introduction, within the group of parentheses where that stands. Each variable of a statement is
introduced once, and no other one at all. -/
theorem Compiled.well_scoped {q : Query} {spec : Specification} (h : q.interpret = .ok spec)
    (r : Request) : ∀ s ∈ (spec.compile .aql r).statements,
      s.text.toList = s.draft.symbols.flatMap (Symbol.render s.draft.sigil) ∧
      ∀ v, Aql.IsGenerated spec v →
        (∀ before after, Aql.signsOf s.draft.symbols = before ++ Aql.Sign.used v :: after →
          Aql.InScope before v) ∧
        (Aql.signsOf s.draft.symbols).count (.introduced v) =
          if v ∈ Aql.variableNames s.plan then 1 else 0 := by
  intro s hs
  obtain ⟨plan, hspec, rfl⟩ : ∃ plan : Plan, plan.spec = spec ∧ s = .ofPlan .aql r.memory plan := by
    rcases statements_cases hs with rfl | rfl
    · exact ⟨_, rfl, rfl⟩
    · exact ⟨_, rfl, rfl⟩
  have hcovers := Aql.covers_signsOf (Aql.scoped_script plan) Dialect.aql.sigil
  have hnodup : (Aql.variableNames plan).Nodup :=
    Aql.nodup_variableNames (hspec ▸ Query.nodup_index h)
  refine ⟨Fragment.toList_render _ _, fun v hv => ⟨fun before after hsigns => ?_, ?_⟩⟩
  · simpa using hcovers.uses [] (by simp) before v after hsigns hv.isVariable
  · exact (hcovers.counts v hv.isVariable).trans hnodup.count

/-- Papers with the people behind them, by city. -/
def Query.crowded : Query where
  header := some ⟨some (.bare "Paper"), none, none, none⟩
  structured :=
    let name : Item := ⟨.bare "name", some (.one (.bare "name")), none, false, true, false, none,
      false, none, none⟩
    let city : Item := ⟨.bare "city", some (.one (.bare "city")), none, false, true, true, none,
      false, none, none⟩
    some (.one ⟨.bare "people", some (.many [.bare "author", .bare "person"]),
      some (.many [name, city]), true, true, false, some "members", true, none, none⟩)

/-- People behind the authors, in their order and grouped by city. -/
def Property.people : Property where
  name := "people"
  path := [⟨"author", false, []⟩, ⟨"person", false, []⟩]
  children :=
    [⟨"name", [⟨"name", false, []⟩], [], false, true, false, false, none, none, none, 1⟩,
      ⟨"city", [⟨"city", false, []⟩], [], false, true, true, false, none, none, none, 2⟩]
  required := true
  sort := true
  groupBy := false
  ensureOrder := true
  groupedInstances := some "members"
  filter := none
  collapse := none
  index := 0

/-- A specification in which many variables are needed. -/
def Specification.crowded : Specification := ⟨[.people], none, "Paper", none⟩

theorem Compiled.well_scoped_crowded :
    let s := (Specification.crowded.compile .aql (.ofStage .released)).statement
    Query.crowded.interpret = .ok .crowded ∧ Aql.IsGenerated .crowded "people_0_grp" ∧
      (∀ before after,
        Aql.signsOf s.draft.symbols = before ++ Aql.Sign.used "people_0_grp" :: after →
          Aql.InScope before "people_0_grp") ∧
      (Aql.signsOf s.draft.symbols).count (.introduced "people_0_grp") = 1 := by
  intro s
  have hspec : Query.crowded.interpret = .ok .crowded := rfl
  have hname : Aql.variableName .people .grouping = "people_0_grp" := by decide +kernel
  have hgenerated : Aql.IsGenerated .crowded "people_0_grp" :=
    hname ▸ .ofProperty (.head _) .grouping
  have hrole : .grouping ∈ Aql.roles s.plan .people := by decide
  have hmem : "people_0_grp" ∈ Aql.variableNames s.plan :=
    List.mem_append_right _ (List.mem_flatMap.mpr
      ⟨.people, .head _, List.mem_map.mpr ⟨.grouping, hrole, hname⟩⟩)
  obtain ⟨-, hscoped⟩ := well_scoped hspec (.ofStage .released) s (.head _)
  obtain ⟨huses, honce⟩ := hscoped "people_0_grp" hgenerated
  exact ⟨hspec, hgenerated, huses, honce.trans (if_pos hmem)⟩

end GraphQuery
