/-
Finite maps with extensional equality, and the two operations the hash-map
and ordered-map idioms of the modelled code need beyond Mathlib's `Finmap`:
an entry update and an iteration in key order that evaluates in the kernel.
-/
import Mathlib.Data.Finmap
import Mathlib.Data.List.Sort

namespace FiniteMap

variable {α β : Type}

/-- A non-dependent finite map. -/
abbrev Map (α β : Type) := Finmap (fun _ : α => β)

/-- A property of the state that single items of a fold may bring about. -/
theorem foldl_iff {σ ι : Type} {step : σ → ι → σ} (holds : σ → Prop) (adds : ι → Prop)
    (hstep : ∀ state item, holds (step state item) ↔ holds state ∨ adds item) (items : List ι)
    (state : σ) :
    holds (items.foldl step state) ↔ holds state ∨ ∃ item ∈ items, adds item := by
  induction items generalizing state with
  | nil => simp
  | cons item rest ih =>
      rw [List.foldl_cons, ih, hstep, or_assoc, List.exists_mem_cons_iff]

section Lookup

variable [DecidableEq α]

theorem lookup_insert_eq (m : Map α β) (key other : α) (value : β) :
    (m.insert key value).lookup other =
      if other = key then some value else m.lookup other := by
  by_cases heq : other = key
  · subst heq
    simp
  · simp [heq, Finmap.lookup_insert_of_ne]

theorem lookup_erase_eq (m : Map α β) (key other : α) :
    (m.erase key).lookup other =
      if other = key then none else m.lookup other := by
  by_cases heq : other = key
  · subst heq
    simp
  · simp [heq, Finmap.lookup_erase_ne]

/-- Update the entry at `key`; returning `none` removes the key. -/
def alter (m : Map α β) (key : α) (change : Option β → Option β) : Map α β :=
  match change (m.lookup key) with
  | some value => m.insert key value
  | none => m.erase key

theorem lookup_alter (m : Map α β) (key other : α)
    (change : Option β → Option β) :
    (alter m key change).lookup other =
      if other = key then change (m.lookup key) else m.lookup other := by
  unfold alter
  cases hchange : change (m.lookup key) with
  | some value => rw [lookup_insert_eq]
  | none => rw [lookup_erase_eq]

/-- Inserting entries whose values agree on each key. -/
theorem lookup_foldl_insert_iff {γ : Type} {entries : List γ} {key : γ → α} {value : γ → β}
    (hsame : ∀ left ∈ entries, ∀ right ∈ entries, key left = key right →
      value left = value right) (m : Map α β) (other : α) (found : β) :
    (entries.foldl (fun m entry => m.insert (key entry) (value entry)) m).lookup other =
        some found ↔
      (∃ entry ∈ entries, key entry = other ∧ value entry = found) ∨
        ((∀ entry ∈ entries, key entry ≠ other) ∧ m.lookup other = some found) := by
  induction entries generalizing m with
  | nil => simp
  | cons head rest ih =>
      rw [List.foldl_cons, ih (fun left hleft right hright =>
        hsame left (List.mem_cons_of_mem head hleft) right (List.mem_cons_of_mem head hright)),
        lookup_insert_eq]
      simp only [List.mem_cons, exists_eq_or_imp, forall_eq_or_imp]
      by_cases hhead : other = key head
      · subst hhead
        simp only [if_true, Option.some.injEq, true_and, ne_eq, not_true_eq_false, false_and,
          or_false]
        constructor
        · rintro (hrest | ⟨_, hvalue⟩)
          · exact Or.inr hrest
          · exact Or.inl hvalue
        · rintro (hvalue | hrest)
          · by_cases hkeys : ∀ entry ∈ rest, key entry ≠ key head
            · exact Or.inr ⟨hkeys, hvalue⟩
            · simp only [not_forall, not_not] at hkeys
              obtain ⟨entry, hentry, hkey⟩ := hkeys
              refine Or.inl ⟨entry, hentry, hkey, ?_⟩
              rw [← hvalue]
              exact hsame entry (List.mem_cons_of_mem head hentry) head List.mem_cons_self hkey
          · exact Or.inl hrest
      · simp [hhead, Ne.symm hhead]

end Lookup

section Ascending

variable [LinearOrder α]

/-- The elements of a finite set in increasing order.  Insertion sort keeps
the iteration executable inside the kernel. -/
def ascending (s : Finset α) : List α :=
  Quotient.liftOn s.val (List.insertionSort (· ≤ ·)) fun left right hperm =>
    ((List.perm_insertionSort (· ≤ ·) left).trans
      (hperm.trans (List.perm_insertionSort (· ≤ ·) right).symm)).eq_of_pairwise
      (fun _ _ _ _ => le_antisymm)
      (List.pairwise_insertionSort (· ≤ ·) left)
      (List.pairwise_insertionSort (· ≤ ·) right)

theorem ascending_coe (s : Finset α) : (ascending s : Multiset α) = s.val := by
  obtain ⟨multiset, hnodup⟩ := s
  induction multiset using Quotient.inductionOn with
  | h list => exact Quotient.sound (List.perm_insertionSort (· ≤ ·) list)

@[simp] theorem mem_ascending (s : Finset α) (a : α) :
    a ∈ ascending s ↔ a ∈ s := by
  rw [← Finset.mem_val, ← ascending_coe, Multiset.mem_coe]

theorem pairwise_ascending (s : Finset α) : (ascending s).Pairwise (· ≤ ·) := by
  obtain ⟨multiset, hnodup⟩ := s
  induction multiset using Quotient.inductionOn with
  | h list => exact List.pairwise_insertionSort (· ≤ ·) list

theorem nodup_ascending (s : Finset α) : (ascending s).Nodup := by
  rw [← Multiset.coe_nodup, ascending_coe]
  exact s.nodup

end Ascending

/-- An iteration order of hash sets. -/
structure HashOrder (α : Type) where
  list : Finset α → List α
  mem_list : ∀ s a, a ∈ list s ↔ a ∈ s
  nodup_list : ∀ s, (list s).Nodup

/-- The increasing order, as one that evaluates. -/
def HashOrder.ascending [LinearOrder α] : HashOrder α :=
  ⟨FiniteMap.ascending, mem_ascending, nodup_ascending⟩

end FiniteMap
