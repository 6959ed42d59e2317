/-
Lists of mutually incomparable candidates under a dominance order.  Inserting
a candidate that nothing dominates removes what it dominates; coverage only
grows.  In a search where what survives decides what is offered next, the
survivors are determined by the order and its tie break.
-/
import Mathlib.Data.List.Basic

namespace Pareto

variable {α : Type} (dominates : α → α → Bool)

/-- Some listed candidate dominates `candidate`. -/
def Covered (kept : List α) (candidate : α) : Prop :=
  ∃ other ∈ kept, dominates other candidate = true

/-- No listed candidate dominates another one. -/
def Incomparable (kept : List α) : Prop :=
  ∀ left ∈ kept, ∀ right ∈ kept, dominates left right = true → left = right

/-- Add a candidate and drop what it dominates. -/
def insert (kept : List α) (candidate : α) : List α :=
  kept.filter (fun other => !dominates candidate other) ++ [candidate]

variable {dominates} {kept : List α} {candidate other : α}

theorem covered_of_mem (hrefl : ∀ a, dominates a a = true) (hmem : candidate ∈ kept) :
    Covered dominates kept candidate :=
  ⟨candidate, hmem, hrefl candidate⟩

theorem Covered.trans
    (htrans : ∀ a b c, dominates a b = true → dominates b c = true →
      dominates a c = true)
    (hcovered : Covered dominates kept candidate)
    (hdom : dominates candidate other = true) : Covered dominates kept other := by
  obtain ⟨best, hbest, hcandidate⟩ := hcovered
  exact ⟨best, hbest, htrans best candidate other hcandidate hdom⟩

theorem mem_of_mem_insert (hmem : other ∈ insert dominates kept candidate) :
    other ∈ kept ∨ other = candidate := by
  rcases List.mem_append.mp hmem with hold | hnew
  · exact Or.inl (List.mem_filter.mp hold).1
  · exact Or.inr (List.mem_singleton.mp hnew)

theorem mem_insert_self : candidate ∈ insert dominates kept candidate :=
  List.mem_append_right _ (List.mem_singleton_self candidate)

/-- What was covered stays covered. -/
theorem Covered.insert
    (htrans : ∀ a b c, dominates a b = true → dominates b c = true →
      dominates a c = true)
    (hcovered : Covered dominates kept other) :
    Covered dominates (insert dominates kept candidate) other := by
  obtain ⟨best, hbest, hother⟩ := hcovered
  cases hdom : dominates candidate best with
  | true => exact ⟨candidate, mem_insert_self, htrans _ _ _ hdom hother⟩
  | false =>
      refine ⟨best, List.mem_append_left _ (List.mem_filter.mpr ⟨hbest, ?_⟩), hother⟩
      rw [hdom]
      rfl

theorem Incomparable.insert (hkept : Incomparable dominates kept)
    (hnew : ¬ Covered dominates kept candidate) :
    Incomparable dominates (insert dominates kept candidate) := by
  intro left hleft right hright hdom
  rcases List.mem_append.mp hleft with hleft | hleft
  · have hold := (List.mem_filter.mp hleft).1
    rcases List.mem_append.mp hright with hright | hright
    · exact hkept left hold right (List.mem_filter.mp hright).1 hdom
    · rw [List.mem_singleton.mp hright] at hdom
      exact absurd ⟨left, hold, hdom⟩ hnew
  · rw [List.mem_singleton.mp hleft] at hdom ⊢
    rcases List.mem_append.mp hright with hright | hright
    · have hkeep := (List.mem_filter.mp hright).2
      rw [hdom] at hkeep
      exact absurd hkeep (by decide)
    · exact (List.mem_singleton.mp hright).symm

section Survivors

variable {α : Type} (offers : (α → Prop) → α → Prop) (displaces sooner : α → α → Prop)

/-- What survives where the survivors decide what is offered: all that is
offered is displaced by a survivor, the sooner one of a tie, and no survivor
displaces another one. -/
structure Survivors (kept : α → Prop) : Prop where
  offered : ∀ a, kept a → offers kept a
  covered : ∀ a, offers kept a →
    ∃ b, kept b ∧ displaces b a ∧ (displaces a b → b = a ∨ sooner b a)
  free : ∀ a b, kept a → kept b → displaces b a → b = a

variable {offers displaces sooner}

/-- The survivors are unique when what is offered depends on smaller survivors
only. -/
theorem Survivors.unique {size : α → ℕ} (hsize : ∀ a b, displaces a b → size a ≤ size b)
    (htrans : ∀ a b c, displaces a b → displaces b c → displaces a c)
    (hasymm : ∀ a b, sooner a b → ¬ sooner b a)
    (hlocal : ∀ kept kept' : α → Prop, ∀ a, (∀ b, size b < size a → kept b → kept' b) →
      offers kept a → offers kept' a) {kept kept' : α → Prop}
    (hkept : Survivors offers displaces sooner kept)
    (hkept' : Survivors offers displaces sooner kept') (a : α) : kept a ↔ kept' a := by
  induction hlength : size a using Nat.strongRecOn generalizing a with
  | _ length ih =>
    subst hlength
    have hstep : ∀ {kept kept' : α → Prop}, Survivors offers displaces sooner kept →
        Survivors offers displaces sooner kept' →
        (∀ b, size b < size a → (kept b ↔ kept' b)) → kept a → kept' a := by
      intro kept kept' hkept hkept' hsmaller ha
      obtain ⟨b, hb, hover, htie⟩ := hkept'.covered a
        (hlocal kept kept' a (fun b hb => (hsmaller b hb).mp) (hkept.offered a ha))
      rcases Nat.lt_or_eq_of_le (hsize b a hover) with hless | hsame
      · -- a smaller survivor would have displaced `a` on both sides
        rw [← hkept.free a b ha ((hsmaller b hless).mpr hb) hover]
        exact hb
      · obtain ⟨c, hc, hover', htie'⟩ := hkept.covered b
          (hlocal kept' kept b (fun c hc => (hsmaller c (hsame ▸ hc)).mpr)
            (hkept'.offered b hb))
        obtain rfl := hkept.free a c ha hc (htrans c b a hover' hover)
        rcases htie hover' with rfl | hfirst
        · exact hb
        · rcases htie' hover with rfl | hfirst'
          · exact hb
          · exact absurd hfirst' (hasymm b c hfirst)
    exact ⟨hstep hkept hkept' fun b hb => ih (size b) hb b rfl,
      hstep hkept' hkept fun b hb => (ih (size b) hb b rfl).symm⟩

end Survivors

end Pareto
