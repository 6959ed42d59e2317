/-
Tables of reusable slots: values are stored in a list, and the positions of
released slots are kept on a stack from which the next value takes its position.
-/
import Mathlib.Data.List.Nodup

namespace SlotTable

variable {α : Type} {slots : List α} {free : List ℕ}

/-- The position that the next value takes. -/
def nextPosition (slots : List α) (free : List ℕ) : ℕ :=
  free.getLast?.getD slots.length

/-- Store a value at the next position. -/
def store (slots : List α) (free : List ℕ) (value : α) : List α :=
  if nextPosition slots free = slots.length then slots ++ [value]
  else slots.set (nextPosition slots free) value

/-- Free positions are slots, each listed once. -/
structure Valid (slots : List α) (free : List ℕ) : Prop where
  lt_length : ∀ position ∈ free, position < slots.length
  nodup : free.Nodup

/-- The next position is free, and then taken off the stack, or new. -/
theorem Valid.nextPosition_cases (hvalid : Valid slots free) :
    (nextPosition slots free ∈ free ∧ nextPosition slots free ∉ free.dropLast) ∨
      (nextPosition slots free = slots.length ∧ free = []) := by
  rcases List.eq_nil_or_concat free with rfl | ⟨front, last, rfl⟩
  · exact Or.inr ⟨rfl, rfl⟩
  · left
    rw [List.concat_eq_append] at hvalid ⊢
    have hnext : nextPosition slots (front ++ [last]) = last := by
      simp [nextPosition]
    rw [hnext, List.dropLast_concat]
    refine ⟨by simp, ?_⟩
    intro hlast
    exact (List.nodup_append.mp hvalid.nodup).2.2 last hlast last List.mem_cons_self rfl

theorem Valid.nextPosition_notMem (hvalid : Valid slots free) :
    nextPosition slots free ∉ free.dropLast := by
  obtain ⟨_, hlast⟩ | ⟨_, rfl⟩ := hvalid.nextPosition_cases
  · exact hlast
  · exact List.not_mem_nil

theorem getElem?_store (hvalid : Valid slots free) (value : α) (position : ℕ) :
    (store slots free value)[position]? =
      if position = nextPosition slots free then some value else slots[position]? := by
  unfold store
  split
  · rename_i hnew
    rw [hnew, List.getElem?_append]
    by_cases hposition : position = slots.length
    · simp [hposition]
    · rw [if_neg hposition]
      split
      · rfl
      · rename_i hlt
        have hpast : 1 ≤ position - slots.length := by omega
        rw [List.getElem?_eq_none (by simpa using hpast),
          List.getElem?_eq_none (Nat.not_lt.mp hlt)]
  · rename_i hold
    have hlt : nextPosition slots free < slots.length := by
      obtain ⟨hmem, _⟩ | ⟨hnew, _⟩ := hvalid.nextPosition_cases
      · exact hvalid.lt_length _ hmem
      · exact absurd hnew hold
    rw [List.getElem?_set]
    by_cases hposition : position = nextPosition slots free
    · simp [hposition, hlt]
    · rw [if_neg (Ne.symm hposition), if_neg hposition]

theorem length_le_length_store (slots : List α) (free : List ℕ) (value : α) :
    slots.length ≤ (store slots free value).length := by
  unfold store
  split
  · simp
  · simp

theorem Valid.store (hvalid : Valid slots free) (value : α) :
    Valid (store slots free value) free.dropLast := by
  constructor
  · intro position hposition
    exact Nat.lt_of_lt_of_le
      (hvalid.lt_length position ((List.dropLast_sublist free).subset hposition))
      (length_le_length_store slots free value)
  · exact hvalid.nodup.sublist (List.dropLast_sublist free)

/-- Release a slot that is not free. -/
theorem Valid.release (hvalid : Valid slots free) {position : ℕ} (value : α)
    (hlt : position < slots.length) (hused : position ∉ free) :
    Valid (slots.set position value) (free ++ [position]) := by
  constructor
  · intro other hother
    rw [List.length_set]
    obtain hold | hlast := List.mem_append.mp hother
    · exact hvalid.lt_length other hold
    · rw [List.mem_singleton.mp hlast]
      exact hlt
  · apply List.Nodup.append hvalid.nodup (List.nodup_singleton position)
    intro other hother hlast
    rw [List.mem_singleton.mp hlast] at hother
    exact hused hother

end SlotTable
