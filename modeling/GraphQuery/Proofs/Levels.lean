import GraphQuery.Proofs.Variables

/-!
# GraphQuery.Proofs.Levels — trees of properties and their levels

1. **Induction** on the properties of a tree.
2. **Levels**: which properties stand on a level, and where they come from.
-/

namespace GraphQuery.Property

/-! ## Induction -/

mutual

/-- Induction over the children of a property. -/
theorem children_induction {P : List Property → Prop} (nil : P [])
    (cons : ∀ p rest, P p.children → P rest → P (p :: rest)) : (p : Property) → P p.children
  | ⟨_, _, children, _, _, _, _, _, _, _, _⟩ => forest_induction nil cons children

/-- What holds of no properties, and of some if it holds of those below the first and of the others,
holds of any properties. -/
theorem forest_induction {P : List Property → Prop} (nil : P [])
    (cons : ∀ p rest, P p.children → P rest → P (p :: rest)) : (ps : List Property) → P ps
  | [] => nil
  | p :: rest =>
    cons p rest (children_induction nil cons p) (forest_induction nil cons rest)

end

theorem mem_subtree_self (p : Property) : p ∈ p.subtree := by
  rw [subtree_eq]
  exact .head _

theorem subtrees_cons (p : Property) (rest : List Property) :
    subtrees (p :: rest) = p :: (subtrees p.children ++ subtrees rest) := by
  rw [subtrees, subtree_eq, List.cons_append]

/-! ## Levels -/

@[simp]
theorem level_nil : level [] = [] := by rw [level]

/-- The level of a merge node gives way to that of its children. -/
theorem level_cons (p : Property) (rest : List Property) :
    level (p :: rest) = (if p.isMerge then level p.children else [p]) ++ level rest := by
  rw [level, expand_eq]

/-- Without merge nodes, a level is the list of its properties. -/
theorem level_eq_self {ps : List Property} (h : ∀ p ∈ ps, p.isMerge = false) : level ps = ps := by
  induction ps with
  | nil => simp
  | cons p rest ih =>
    rw [List.forall_mem_cons] at h
    rw [level_cons, h.1, ih h.2]
    rfl

/-- A property on a level is no merge node, and its tree is part of the level's. -/
theorem of_mem_level {p : Property} {ps : List Property} (h : p ∈ level ps) :
    p.isMerge = false ∧ p.subtree ⊆ subtrees ps := by
  induction ps using forest_induction with
  | nil => simp at h
  | cons q rest ihchildren ihrest =>
    rw [level_cons, List.mem_append] at h
    rw [subtrees_cons]
    rcases h with h | h
    · split at h
      · obtain ⟨hmerge, hsub⟩ := ihchildren h
        exact ⟨hmerge, fun r hr => by simp [hsub hr]⟩
      · rename_i hmerge
        obtain rfl := List.mem_singleton.mp h
        refine ⟨by simpa using hmerge, fun r hr => ?_⟩
        rw [subtree_eq, List.mem_cons] at hr
        rcases hr with rfl | hr
        · simp
        · simp [hr]
    · obtain ⟨hmerge, hsub⟩ := ihrest h
      exact ⟨hmerge, fun r hr => by simp [hsub hr]⟩

end GraphQuery.Property
