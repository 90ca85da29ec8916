import GraphQuery.Proofs.ScopedStatements

/-!
# GraphQuery.Proofs.Aliases — names derived from properties

A property has its name for an alias, reduced to letters, digits and underscores, with its number
after it. Statements derive further names from the alias. A client may choose property names that
look like derived names, but the last number in a name and the parts behind it tell them all apart.

1. **Items** of a query are counted; their properties have the numbers below that count.
2. **Names** that Cypher statements derive from a property, by their roles. Those of AQL are the
   variables of `Aql.Role`.
3. **Reserved names** of the library contain no digit, and derived names do.
4. **Aliases** of an interpreted query, and all names derived from them.
-/

namespace GraphQuery

/-! ## Items -/

namespace Item

mutual

/-- Number of items in the tree of an item. -/
def count : Item → Nat
  | ⟨_, _, children, _, _, _, _, _, _, _⟩ => countChildren children + 1

def countChildren : Option (OneOrMany Item) → Nat
  | none => 0
  | some (.one child) => count child
  | some (.many children) => countAll children

def countAll : List Item → Nat
  | [] => 0
  | i :: rest => count i + countAll rest

end

mutual

/-- An item uses up one number for each item of its tree. -/
theorem next_interpret {vocabulary : Option String} {next after : Nat} {p : Property} :
    (i : Item) → interpret vocabulary next i = .ok (p, after) → after = next + i.count
  | ⟨reference, path, children, required, sort, groupBy, ensureOrder, groupedInstances, filter,
      collapse⟩, h => by
    rw [interpret] at h
    simp only [bind, Except.bind, pure, Except.pure, throw, throwThe, MonadExceptOf.throw] at h
    split at h
    · cases h
    · split at h
      · cases h
      · rename_i result hchildren
        obtain ⟨properties, last⟩ := result
        cases h
        have hlast := next_interpretChildren children hchildren
        rw [count]
        omega

/-- Children that are read take as many numbers as there are items. -/
theorem next_interpretChildren {vocabulary : Option String} {next after : Nat}
    {ps : List Property} : (children : Option (OneOrMany Item)) →
      interpretChildren vocabulary next children = .ok (ps, after) →
      after = next + countChildren children
  | none, h => by
    cases h
    rfl
  | some (.one child), h => by
    rw [interpretChildren] at h
    simp only [bind, Except.bind, pure, Except.pure] at h
    split at h
    · cases h
    · rename_i result hchild
      obtain ⟨p, last⟩ := result
      cases h
      exact next_interpret child hchild
  | some (.many children), h => next_interpretAll children h

theorem next_interpretAll {vocabulary : Option String} {next after : Nat}
    {ps : List Property} : (items : List Item) →
      interpretAll vocabulary next items = .ok (ps, after) → after = next + countAll items
  | [], h => by
    cases h
    rfl
  | i :: rest, h => by
    rw [interpretAll] at h
    simp only [bind, Except.bind, pure, Except.pure] at h
    split at h
    · cases h
    · rename_i first hfirst
      obtain ⟨p, mid⟩ := first
      dsimp only at h
      split at h
      · cases h
      · rename_i others hothers
        obtain ⟨qs, last⟩ := others
        cases h
        have hmid := next_interpret i hfirst
        have hlast := next_interpretAll rest hothers
        rw [countAll]
        omega

end

end Item

/-- Number of items in the structure of a query. -/
def Query.itemCount (q : Query) : Nat := Item.countChildren q.structured

/-- In pre-order, the properties of an interpreted query are numbered without a gap. -/
theorem Query.map_index {q : Query} {spec : Specification} (h : q.interpret = .ok spec) :
    spec.allProperties.map Property.index = List.range q.itemCount := by
  obtain ⟨⟨vocabulary, after, hread⟩, -⟩ := Query.interpret_eq_ok h
  have hnumbers := (Item.numbered_interpretChildren q.structured hread).numbers
  have hafter := Item.next_interpretChildren q.structured hread
  rw [Nat.zero_add] at hafter
  rw [Specification.allProperties, hnumbers, hafter, Nat.sub_zero, List.range_eq_range']
  rfl

/-! ## Names -/

namespace Cypher

/-- What a name of a property stands for. -/
inductive Role
  /-- The list of the property's values. -/
  | list
  | item
  | member
  | group
  | edge
  | node (hop : Nat)
  /-- The placeholder for the types that a hop asks for. -/
  | types (hop : Nat)
deriving Repr, DecidableEq

/-- How a statement writes the name of a role. -/
def occurrence (p : Property) : Role → Fragment
  | .list => named p.aliasName
  | .item => localName p "_x"
  | .member => localName p "_y"
  | .group => localName p "_g"
  | .edge => edgeVariable p
  | .node hop => hopNode p hop
  | .types hop => named (p.aliasName ++ "_types" ++ toString hop)

/-- The name of a property in a role, as the Cypher statement spells it. -/
def variableName (p : Property) (r : Role) : String := (occurrence p r).render .dollar

/-- What a role adds to the alias of a property: at most one part, after an underscore. -/
def Role.parts : Role → List String
  | list => []
  | item => ["x"]
  | member => ["y"]
  | group => ["g"]
  | edge => ["edge"]
  | node hop => ["n" ++ toString hop]
  | types hop => ["types" ++ toString hop]

/-- The role that adds some parts: their first letter tells it. -/
def Role.ofParts : List String → Role
  | [] => .list
  | part :: _ =>
    match part.toList with
    | 'x' :: _ => .item
    | 'y' :: _ => .member
    | 'g' :: _ => .group
    | 'e' :: _ => .edge
    | 'n' :: digits => .node (Nat.ofDigitChars 10 digits 0)
    | letters => .types (Nat.ofDigitChars 10 (letters.drop 5) 0)

/-- The parts of a name give back its role. -/
theorem Role.ofParts_parts (r : Role) : ofParts r.parts = r := by
  cases r <;> simp [parts, ofParts]

theorem Role.isPart_of_mem_parts (r : Role) : ∀ part ∈ r.parts, Aql.IsPart part := by
  have hword : ∀ part ∈ ["x", "y", "g", "edge", "n", "types"], Aql.IsPart part := by
    have hall : ["x", "y", "g", "edge", "n", "types"].all (fun part =>
        !part.toList.contains '_' && part.toList.any fun c => !c.isDigit) = true := by decide
    intro part hpart
    simpa [Aql.IsPart] using List.all_eq_true.mp hall part hpart
  cases r with
  | list => simp [parts]
  | node hop => exact List.forall_mem_singleton.mpr ((hword "n" (by simp)).numbered hop)
  | types hop => exact List.forall_mem_singleton.mpr ((hword "types" (by simp)).numbered hop)
  | _ => exact List.forall_mem_singleton.mpr (hword _ (by simp))

/-- An alias and what follows it are written as they are. -/
theorem render_alias (p : Property) {suffix : String} (h : IsWord suffix) :
    Fragment.render .dollar (named (p.aliasName ++ suffix)) = p.aliasName ++ suffix := by
  rw [Fragment.render_named, (isWord_append (isWord_aliasName p) h).safe_eq]

theorem variableName_list (p : Property) : variableName p .list = p.aliasName :=
  (Fragment.render_named .dollar p.aliasName).trans (isWord_aliasName p).safe_eq

/-- The characters of a name: the alias of the property, and the part of the role. -/
theorem toList_variableName (p : Property) (r : Role) : (variableName p r).toList =
    (Text.word p.name).toList ++ '_' :: (toString p.index).toList ++
      r.parts.flatMap fun part => '_' :: part.toList := by
  have hname (suffix : String) (h : IsWord suffix) :
      (Fragment.render .dollar (named (p.aliasName ++ suffix))).toList =
        (Text.word p.name).toList ++ '_' :: (toString p.index).toList ++ suffix.toList := by
    rw [render_alias p h]
    simp [Property.aliasName]
  have hnumbered (suffix : String) (h : IsWord suffix) (hop : Nat) :
      (Fragment.render .dollar (named (p.aliasName ++ suffix ++ toString hop))).toList =
        (Text.word p.name).toList ++ '_' :: (toString p.index).toList ++
          (suffix ++ toString hop).toList := by
    rw [String.append_assoc]
    exact hname (suffix ++ toString hop) (isWord_append h (isWord_toString hop))
  cases r with
  | list => simpa [variableName, occurrence, Role.parts] using hname "" (by decide)
  | item => exact hname "_x" (by decide)
  | member => exact hname "_y" (by decide)
  | group => exact hname "_g" (by decide)
  | edge => exact hname "_edge" (by decide)
  | node hop => exact (hnumbered "_n" (by decide) hop).trans (by simp [Role.parts])
  | types hop => exact (hnumbered "_types" (by decide) hop).trans (by simp [Role.parts])

/-- A name tells the number of its property, and its role. -/
theorem variableName_inj {p p' : Property} {r r' : Role}
    (h : variableName p r = variableName p' r') : p.index = p'.index ∧ r = r' := by
  have hchars := congrArg String.toList h
  rw [toList_variableName, toList_variableName] at hchars
  obtain ⟨hindex, hparts⟩ := Aql.index_parts_inj r.isPart_of_mem_parts r'.isPart_of_mem_parts hchars
  have hrole := congrArg Role.ofParts hparts
  rw [Role.ofParts_parts, Role.ofParts_parts] at hrole
  exact ⟨hindex, hrole⟩

/-- Each name has a number in it. -/
theorem exists_digit_variableName (p : Property) (r : Role) :
    ∃ c ∈ (variableName p r).toList, c.isDigit = true :=
  Aql.exists_digit_of_toList (toList_variableName p r)

theorem safe_variableName (p : Property) (r : Role) :
    Text.safe (variableName p r) = variableName p r := by
  unfold variableName
  cases r with
  | list => rw [occurrence, Fragment.render_named, Text.safe_safe]
  | item => rw [occurrence, localName, Fragment.render_named, Text.safe_safe]
  | member => rw [occurrence, localName, Fragment.render_named, Text.safe_safe]
  | group => rw [occurrence, localName, Fragment.render_named, Text.safe_safe]
  | edge => rw [occurrence, edgeVariable, localName, Fragment.render_named, Text.safe_safe]
  | node hop => rw [occurrence, hopNode, Fragment.render_named, Text.safe_safe]
  | types hop => rw [occurrence, Fragment.render_named, Text.safe_safe]

end Cypher

/-! ## Reserved names -/

/-- Names that statements use beside those of properties. -/
def reservedNames : List String :=
  ["root_doc", "whitelist", "invitation", "instances", "length", "root", "row", "allowedSpaces",
    "allowedInstances"]

/-- A name with a number in it is not a fixed name of the dialect. -/
theorem not_mem_reservedNames {s : String} (h : ∃ c ∈ s.toList, c.isDigit = true) :
    s ∉ reservedNames := by
  have hdigits : ∀ t ∈ reservedNames, t.toList.any Char.isDigit = false := by decide
  intro hmem
  have hdigit := List.any_eq_true.mpr h
  rw [hdigits s hmem] at hdigit
  cases hdigit

/-! ## Aliases -/

/-- The names that a dialect gives to the roles of the properties of a specification. One role has
the alias itself for its name. -/
structure NamesApart {ρ : Type} (spec : Specification) (name : Property → ρ → String) (plain : ρ) :
    Prop where
  plain_eq : ∀ p, name p plain = p.aliasName
  /-- Statements write a name as it is. -/
  written : ∀ p r, Text.safe (name p r) = name p r
  distinct : ∀ p ∈ spec.allProperties, ∀ p' ∈ spec.allProperties, ∀ r r',
    name p r = name p' r' → p = p' ∧ r = r'
  reserved : ∀ p ∈ spec.allProperties, ∀ r, name p r ∉ reservedNames

section

variable {q : Query} {spec : Specification} (h : q.interpret = .ok spec)

include h

/-- Names that tell the number of the property and the role belong to one property only. -/
theorem Query.eq_of_name_eq {ρ : Type} {name : Property → ρ → String}
    (hinj : ∀ {p p' : Property} {r r' : ρ}, name p r = name p' r' → p.index = p'.index ∧ r = r') :
    ∀ p ∈ spec.allProperties, ∀ p' ∈ spec.allProperties, ∀ r r',
      name p r = name p' r' → p = p' ∧ r = r' := by
  intro p hp p' hp' r r' hname
  obtain ⟨hindex, hrole⟩ := hinj hname
  exact ⟨List.inj_on_of_nodup_map (Query.nodup_index h) hp hp' hindex, hrole⟩

/-- The names of the AQL statement are apart. -/
theorem Query.aqlNamesApart : NamesApart spec Aql.variableName (.list 0) where
  plain_eq _ := rfl
  written p r := (Aql.isWord_variableName p r).safe_eq
  distinct := Query.eq_of_name_eq h Aql.variableName_inj
  reserved p _ r := not_mem_reservedNames (Aql.exists_digit_variableName p r)

/-- The names of the Cypher statement are apart. -/
theorem Query.cypherNamesApart : NamesApart spec Cypher.variableName .list where
  plain_eq := Cypher.variableName_list
  written := Cypher.safe_variableName
  distinct := Query.eq_of_name_eq h Cypher.variableName_inj
  reserved p _ r := not_mem_reservedNames (Cypher.exists_digit_variableName p r)

end

/-- In pre-order, the properties of an interpreted query have the numbers from zero on, one for
each item. Whatever names the client has chosen, aliases differ, and so do all names that either
dialect derives from them: among each other, from every alias, and from the reserved names. -/
theorem Query.aliases_assigned {q : Query} {spec : Specification} (h : q.interpret = .ok spec) :
    spec.allProperties.map Property.index = List.range q.itemCount ∧
    (spec.allProperties.map Property.aliasName).Nodup ∧
    NamesApart spec Aql.variableName (.list 0) ∧
    NamesApart spec Cypher.variableName .list := by
  have hnodup := Query.nodup_index h
  refine ⟨Query.map_index h, ?_, Query.aqlNamesApart h, Query.cypherNamesApart h⟩
  -- one alias for two properties would be one number for both
  rw [List.Nodup, List.pairwise_map] at hnodup ⊢
  refine hnodup.imp fun hne halias => hne ?_
  rw [← Cypher.variableName_list, ← Cypher.variableName_list] at halias
  exact (Cypher.variableName_inj halias).1

/-- Names that are alike once they are words, and one that looks like the second hop of another. -/
def Query.disguised : Query where
  header := some ⟨some (.bare "Paper"), none, none, none⟩
  structured :=
    let leaf (name : String) (path : List PathStep) : Item :=
      ⟨.bare name, some (.many path), none, false, false, false, none, true, none, none⟩
    some (.many [leaf "a-b" [.bare "author", .bare "friend", .bare "name"],
      leaf "a_b" [.bare "name"], leaf "a_b_0_s1" [.bare "name"]])

theorem Query.aliases_assigned_disguised : ∃ spec, Query.disguised.interpret = .ok spec ∧
    spec.allProperties.map Property.aliasName = ["a_b_0", "a_b_1", "a_b_0_s1_2"] ∧
    spec.allProperties.map Property.index = [0, 1, 2] ∧
    NamesApart spec Aql.variableName (.list 0) ∧ NamesApart spec Cypher.variableName .list := by
  refine ⟨_, rfl, by decide +kernel, ?_⟩
  obtain ⟨hindex, -, hnames⟩ := Query.aliases_assigned (q := .disguised) rfl
  exact ⟨hindex, hnames⟩

end GraphQuery
