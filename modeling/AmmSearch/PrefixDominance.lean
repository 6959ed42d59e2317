/-
The dominance index of heuristic search as Pareto lists of labels.
-/
import AmmSearch.HeuristicSearch
import AmmSearch.Pareto

open FiniteMap

namespace AmmSearch

namespace PrefixLabel

theorem dominates_iff {label other : PrefixLabel} :
    label.dominates other = true ↔
      other.amount ≤ label.amount ∧ label.visitedTokens ⊆ other.visitedTokens ∧
        label.usedPools ⊆ other.usedPools := by
  simp [dominates]

theorem dominates_refl (label : PrefixLabel) : label.dominates label = true :=
  dominates_iff.mpr ⟨le_refl _, Finset.Subset.refl _, Finset.Subset.refl _⟩

theorem dominates_trans (first second third : PrefixLabel)
    (hleft : first.dominates second = true) (hright : second.dominates third = true) :
    first.dominates third = true := by
  obtain ⟨hamount, hvisited, hused⟩ := dominates_iff.mp hleft
  obtain ⟨hamount', hvisited', hused'⟩ := dominates_iff.mp hright
  exact dominates_iff.mpr
    ⟨hamount'.trans hamount, hvisited.trans hvisited', hused.trans hused'⟩

theorem dominates_antisymm {label other : PrefixLabel}
    (hleft : label.dominates other = true) (hright : other.dominates label = true) :
    label = other := by
  obtain ⟨hamount, hvisited, hused⟩ := dominates_iff.mp hleft
  obtain ⟨hamount', hvisited', hused'⟩ := dominates_iff.mp hright
  obtain ⟨amount, visited, used⟩ := label
  obtain ⟨amount', visited', used'⟩ := other
  simp only at hamount hvisited hused hamount' hvisited' hused'
  rw [le_antisymm hamount' hamount, Finset.Subset.antisymm hvisited hvisited',
    Finset.Subset.antisymm hused hused']

end PrefixLabel

namespace PrefixDominanceIndex

/-- Some label at `token` dominates `label`. -/
def Covers (index : PrefixDominanceIndex) (token : Address) (label : PrefixLabel) :
    Prop :=
  Pareto.Covered PrefixLabel.dominates (index.labelsAt token) label

/-- Labels are incomparable and belong to nonempty prefixes. -/
structure WellFormed (index : PrefixDominanceIndex) : Prop where
  incomparable : ∀ token,
    Pareto.Incomparable PrefixLabel.dominates (index.labelsAt token)
  visited : ∀ token, ∀ label ∈ index.labelsAt token, 2 ≤ label.visitedTokens.card

variable {index : PrefixDominanceIndex} {token : Address}
  {label candidate : PrefixLabel}

theorem labelsAt_empty (token : Address) : empty.labelsAt token = [] := by
  simp [labelsAt, empty]

theorem wellFormed_empty : empty.WellFormed := by
  constructor
  · intro token left hleft
    rw [labelsAt_empty] at hleft
    cases hleft
  · intro token label hlabel
    rw [labelsAt_empty] at hlabel
    cases hlabel

theorem Covers.trans (hcovers : index.Covers token candidate)
    (hdom : candidate.dominates label = true) : index.Covers token label :=
  Pareto.Covered.trans PrefixLabel.dominates_trans hcovers hdom

/-- The two outcomes of an insertion. -/
theorem insertOrDominated_spec (index : PrefixDominanceIndex) (token : Address)
    (candidate : PrefixLabel) :
    (index.Covers token candidate ∧
        index.insertOrDominated token candidate = (true, index)) ∨
      (¬ index.Covers token candidate ∧
        (index.insertOrDominated token candidate).1 = false ∧
        ∀ other, (index.insertOrDominated token candidate).2.labelsAt other =
          if other = token then
            Pareto.insert PrefixLabel.dominates (index.labelsAt token) candidate
          else index.labelsAt other) := by
  have hany : ((index.labelsAt token).any fun label => label.dominates candidate) =
      true ↔ index.Covers token candidate := List.any_eq_true
  unfold insertOrDominated
  split
  · rename_i hdominated
    exact Or.inl ⟨hany.mp hdominated, rfl⟩
  · rename_i hnew
    refine Or.inr ⟨mt hany.mpr hnew, rfl, ?_⟩
    intro other
    simp only [labelsAt, lookup_insert_eq]
    split
    · rfl
    · rfl

/-- A label is strictly dominated when a different label dominates it. -/
theorem isStrictlyDominated_iff :
    index.isStrictlyDominated token candidate = true ↔
      ∃ label ∈ index.labelsAt token,
        label.dominates candidate = true ∧ label ≠ candidate := by
  unfold isStrictlyDominated
  rw [List.any_eq_true]
  refine exists_congr fun label => and_congr_right fun _ => ?_
  rw [Bool.and_eq_true, decide_eq_true_eq]
  refine and_congr_right fun hdom => ?_
  obtain ⟨hamount, hvisited, hused⟩ := PrefixLabel.dominates_iff.mp hdom
  constructor
  · rintro hstrict rfl
    simp at hstrict
  · intro hne
    by_contra hnone
    simp only [not_or, not_lt] at hnone
    apply hne
    obtain ⟨amount, visited, used⟩ := label
    obtain ⟨amount', visited', used'⟩ := candidate
    simp only at hamount hvisited hused hnone
    rw [le_antisymm hnone.1 hamount,
      Finset.eq_of_subset_of_card_le hvisited hnone.2.1,
      Finset.eq_of_subset_of_card_le hused hnone.2.2]

/-- A label that is in the index is not strictly dominated by it. -/
theorem WellFormed.not_isStrictlyDominated (hindex : index.WellFormed)
    (hlabel : label ∈ index.labelsAt token) :
    index.isStrictlyDominated token label = false := by
  rw [← Bool.not_eq_true, isStrictlyDominated_iff]
  rintro ⟨other, hother, hdom, hne⟩
  exact hne (hindex.incomparable token other hother label hlabel hdom)

/-- What an insertion preserves and adds. -/
theorem covers_insertOrDominated {other : Address}
    (hcovers : index.Covers other label) :
    (index.insertOrDominated token candidate).2.Covers other label := by
  rcases index.insertOrDominated_spec token candidate with ⟨_, heq⟩ | ⟨_, _, hlabels⟩
  · rwa [heq]
  · unfold Covers
    rw [hlabels]
    split
    · rename_i hother
      subst hother
      exact Pareto.Covered.insert PrefixLabel.dominates_trans hcovers
    · exact hcovers

theorem covers_self_insertOrDominated :
    (index.insertOrDominated token candidate).2.Covers token candidate := by
  rcases index.insertOrDominated_spec token candidate with ⟨hold, heq⟩ | ⟨_, _, hlabels⟩
  · rwa [heq]
  · unfold Covers
    rw [hlabels, if_pos rfl]
    exact Pareto.covered_of_mem PrefixLabel.dominates_refl Pareto.mem_insert_self

theorem mem_labelsAt_insertOrDominated {other : Address}
    (hlabel : label ∈ (index.insertOrDominated token candidate).2.labelsAt other) :
    label ∈ index.labelsAt other ∨
      other = token ∧ label = candidate ∧
        (index.insertOrDominated token candidate).1 = false := by
  rcases index.insertOrDominated_spec token candidate with
    ⟨_, heq⟩ | ⟨_, hflag, hlabels⟩
  · rw [heq] at hlabel
    exact Or.inl hlabel
  · rw [hlabels] at hlabel
    split at hlabel
    · rename_i hother
      subst hother
      rcases Pareto.mem_of_mem_insert hlabel with hold | hnew
      · exact Or.inl hold
      · exact Or.inr ⟨rfl, hnew, hflag⟩
    · exact Or.inl hlabel

theorem WellFormed.insertOrDominated (hindex : index.WellFormed)
    (hcard : 2 ≤ candidate.visitedTokens.card) :
    (index.insertOrDominated token candidate).2.WellFormed := by
  rcases index.insertOrDominated_spec token candidate with
    ⟨_, heq⟩ | ⟨hnew, _, hlabels⟩
  · rwa [heq]
  · constructor
    · intro other
      rw [hlabels]
      split
      · exact (hindex.incomparable token).insert hnew
      · exact hindex.incomparable other
    · intro other label hlabel
      rcases mem_labelsAt_insertOrDominated hlabel with hold | ⟨_, rfl, _⟩
      · exact hindex.visited other label hold
      · exact hcard

end PrefixDominanceIndex

end AmmSearch
