/-
Sums over the values of a finite map, and maps with changed values.  Replacing
one entry changes a sum by the weights of that entry.
-/
import Mathlib.Algebra.BigOperators.Group.Finset.Basic
import Mathlib.Algebra.GroupWithZero.Nat
import AmmSearch.FiniteMap

namespace FiniteMap

variable {α β γ : Type}

section Totals

variable [DecidableEq α] {m m' : Map α β} {key : α}

/-- The sum of the weights of the values. -/
def total (weight : β → ℕ) (m : Map α β) : ℕ :=
  ∑ key ∈ m.keys, (m.lookup key).elim 0 weight

theorem total_split (weight : β → ℕ) (m : Map α β) (key : α) :
    total weight m = (m.lookup key).elim 0 weight +
      ∑ other ∈ m.keys.erase key, (m.lookup other).elim 0 weight := by
  unfold total
  by_cases hmem : key ∈ m.keys
  · exact (Finset.add_sum_erase _ _ hmem).symm
  · have hnone : m.lookup key = none := by
      rw [Finmap.mem_keys] at hmem
      exact Finmap.lookup_eq_none.mpr hmem
    rw [Finset.erase_eq_of_notMem hmem, hnone, Option.elim_none, Nat.zero_add]

/-- Two maps that differ in one entry. -/
theorem total_replace (weight : β → ℕ)
    (hothers : ∀ other ≠ key, m'.lookup other = m.lookup other) :
    total weight m' + (m.lookup key).elim 0 weight =
      total weight m + (m'.lookup key).elim 0 weight := by
  have hkeys : m'.keys.erase key = m.keys.erase key := by
    ext other
    simp only [Finset.mem_erase, Finmap.mem_keys, Finmap.mem_iff]
    apply and_congr_right
    intro hne
    rw [hothers other hne]
  have hrest : ∑ other ∈ m'.keys.erase key, (m'.lookup other).elim 0 weight =
      ∑ other ∈ m.keys.erase key, (m.lookup other).elim 0 weight := by
    rw [hkeys]
    apply Finset.sum_congr rfl
    intro other hother
    rw [hothers other (Finset.ne_of_mem_erase hother)]
  rw [total_split weight m' key, total_split weight m key, hrest]
  omega

end Totals

section MapValues

variable [LinearOrder α] [DecidableEq α]

theorem total_eq_sum (weight : β → ℕ) (m : Map α β) :
    total weight m = ((ascending m.keys).map fun key => (m.lookup key).elim 0 weight).sum := by
  unfold total
  rw [Finset.sum_eq_multiset_sum, ← ascending_coe, Multiset.map_coe, Multiset.sum_coe]

/-- The map with every value changed. -/
def mapValues (change : β → γ) (m : Map α β) : Map α γ :=
  (ascending m.keys).foldl (fun mapped key =>
    alter mapped key fun _ => (m.lookup key).map change) ∅

theorem lookup_mapValues (change : β → γ) (m : Map α β) (key : α) :
    (mapValues change m).lookup key = (m.lookup key).map change := by
  have hfold : ∀ (keys : List α) (mapped : Map α γ),
      (keys.foldl (fun mapped key => alter mapped key fun _ => (m.lookup key).map change)
        mapped).lookup key =
        if key ∈ keys then (m.lookup key).map change else mapped.lookup key := by
    intro keys
    induction keys with
    | nil => simp
    | cons head rest ih =>
        intro mapped
        rw [List.foldl_cons, ih, lookup_alter]
        by_cases hkey : key = head
        · subst hkey
          simp
        · simp [hkey]
  unfold mapValues
  rw [hfold]
  split
  · rfl
  · rename_i habsent
    rw [mem_ascending, Finmap.mem_keys] at habsent
    rw [Finmap.lookup_eq_none.mpr habsent]
    rfl

end MapValues

end FiniteMap
