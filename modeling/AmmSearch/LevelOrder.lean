/-
First-in first-out exploration of a ranked branching process: the queue loop
produces its outputs level by level, and a potential that counts descendants
bounds the number of iterations.
-/
import Mathlib.Algebra.BigOperators.Group.List.Basic
import Mathlib.Algebra.Order.BigOperators.Group.List
import Mathlib.Data.List.Nodup
import Mathlib.Tactic.Ring
import Mathlib.Tactic.Linarith

namespace LevelOrder

variable {α β : Type} (children : α → List α) (emits : α → List β)

/-- The entries `depth` generations below `queue`, in queue order. -/
def level : ℕ → List α → List α
  | 0, queue => queue
  | depth + 1, queue => level depth (queue.flatMap children)

/-- The outputs of the first `depth` generations, level by level. -/
def levelOrder : ℕ → List α → List β
  | 0, _ => []
  | depth + 1, queue =>
      queue.flatMap emits ++ levelOrder depth (queue.flatMap children)

/-- The queue loop. -/
def drain : ℕ → List α → List β
  | 0, _ => []
  | _ + 1, [] => []
  | fuel + 1, head :: tail => emits head ++ drain fuel (tail ++ children head)

theorem level_succ (depth : ℕ) (queue : List α) :
    level children (depth + 1) queue =
      (level children depth queue).flatMap children := by
  induction depth generalizing queue with
  | zero => rfl
  | succ depth ih =>
      rw [level, ih]
      rfl

theorem level_nil (depth : ℕ) : level children depth [] = [] := by
  induction depth with
  | zero => rfl
  | succ depth ih => exact ih

theorem mem_levelOrder (depth : ℕ) (queue : List α) (output : β) :
    output ∈ levelOrder children emits depth queue ↔
      ∃ generation < depth, ∃ entry ∈ level children generation queue,
        output ∈ emits entry := by
  induction depth generalizing queue with
  | zero => simp [levelOrder]
  | succ depth ih =>
      simp only [levelOrder, List.mem_append, List.mem_flatMap, ih]
      constructor
      · rintro (⟨entry, hentry, houtput⟩ | ⟨generation, hlt, entry, hentry, houtput⟩)
        · exact ⟨0, Nat.succ_pos depth, entry, hentry, houtput⟩
        · exact ⟨generation + 1, Nat.succ_lt_succ hlt, entry, hentry, houtput⟩
      · rintro ⟨generation, hlt, entry, hentry, houtput⟩
        cases generation with
        | zero => exact Or.inl ⟨entry, hentry, houtput⟩
        | succ generation =>
            exact Or.inr ⟨generation, Nat.lt_of_succ_lt_succ hlt, entry,
              hentry, houtput⟩

/-- Outputs whose size is their generation come out in order of size. -/
theorem pairwise_levelOrder (size : β → ℕ) (offset depth : ℕ) (queue : List α)
    (hsize : ∀ generation, ∀ entry ∈ level children generation queue,
      ∀ output ∈ emits entry, size output = offset + generation) :
    (levelOrder children emits depth queue).Pairwise
      fun left right => size left ≤ size right := by
  induction depth generalizing queue offset with
  | zero => exact List.Pairwise.nil
  | succ depth ih =>
      have hhead : ∀ output ∈ queue.flatMap emits, size output = offset := by
        intro output houtput
        obtain ⟨entry, hentry, hemits⟩ := List.mem_flatMap.mp houtput
        simpa using hsize 0 entry hentry output hemits
      have htail : ∀ generation,
          ∀ entry ∈ level children generation (queue.flatMap children),
          ∀ output ∈ emits entry, size output = (offset + 1) + generation := by
        intro generation entry hentry output houtput
        have := hsize (generation + 1) entry hentry output houtput
        omega
      refine List.pairwise_append.mpr ⟨?_, ih _ _ htail, ?_⟩
      · refine List.pairwise_of_forall_mem_list fun left hleft right hright => ?_
        rw [hhead left hleft, hhead right hright]
      · intro left hleft right hright
        obtain ⟨generation, _, entry, hentry, hemits⟩ :=
          (mem_levelOrder children emits depth _ right).mp hright
        rw [hhead left hleft, htail generation entry hentry right hemits]
        omega

/-- Distinct entries with disjoint outputs give no output twice. -/
theorem nodup_levelOrder (size : β → ℕ) (offset depth : ℕ) (queue : List α)
    (hsize : ∀ generation, ∀ entry ∈ level children generation queue,
      ∀ output ∈ emits entry, size output = offset + generation)
    (hlevel : ∀ generation,
      ((level children generation queue).flatMap emits).Nodup) :
    (levelOrder children emits depth queue).Nodup := by
  induction depth generalizing queue offset with
  | zero => exact List.nodup_nil
  | succ depth ih =>
      have htail : ∀ generation,
          ∀ entry ∈ level children generation (queue.flatMap children),
          ∀ output ∈ emits entry, size output = (offset + 1) + generation := by
        intro generation entry hentry output houtput
        have := hsize (generation + 1) entry hentry output houtput
        omega
      refine List.nodup_append.mpr ⟨hlevel 0,
        ih _ _ htail fun generation => hlevel (generation + 1), ?_⟩
      rintro output hleft right hright rfl
      obtain ⟨entry, hentry, hemits⟩ := List.mem_flatMap.mp hleft
      obtain ⟨generation, _, later, hlater, hemitsLater⟩ :=
        (mem_levelOrder children emits depth _ output).mp hright
      have hnow := hsize 0 entry hentry output hemits
      have hthen := htail generation later hlater output hemitsLater
      omega

section Ranked

variable {children emits} {rank : α → ℕ} {degree : ℕ}
  (hrank : ∀ entry, ∀ child ∈ children entry, rank child < rank entry)
  (hleaf : ∀ entry, rank entry = 0 → emits entry = [])

include hrank in
theorem children_eq_nil {entry : α} (hzero : rank entry = 0) :
    children entry = [] := by
  apply List.eq_nil_iff_forall_not_mem.mpr
  intro child hchild
  have := hrank entry child hchild
  omega

include hrank hleaf

/-- Processing a front segment first moves its children to the back. -/
theorem levelOrder_append (depth : ℕ) (front back : List α)
    (hdepth : ∀ entry ∈ front ++ back, rank entry ≤ depth) :
    levelOrder children emits depth (front ++ back) =
      front.flatMap emits ++
        levelOrder children emits depth (back ++ front.flatMap children) := by
  induction depth generalizing front back with
  | zero =>
      have hfront : front.flatMap emits = [] := by
        apply List.flatMap_eq_nil_iff.mpr
        intro entry hentry
        exact hleaf entry (Nat.le_zero.mp
          (hdepth entry (List.mem_append_left back hentry)))
      simp [levelOrder, hfront]
  | succ depth ih =>
      have hchildren : ∀ entry ∈ front.flatMap children ++ back.flatMap children,
          rank entry ≤ depth := by
        intro child hchild
        rw [← List.flatMap_append] at hchild
        obtain ⟨entry, hentry, hmem⟩ := List.mem_flatMap.mp hchild
        have hlt := hrank entry child hmem
        have hle := hdepth entry hentry
        omega
      simp only [levelOrder, List.flatMap_append, List.append_assoc]
      rw [ih _ _ hchildren]

/-- Descendant count bound of a queue. -/
def potential (rank : α → ℕ) (degree : ℕ) (queue : List α) : ℕ :=
  (queue.map fun entry => (degree + 1) ^ rank entry).sum

omit hleaf in
theorem potential_step
    (hdegree : ∀ entry, (children entry).length ≤ degree) (head : α)
    (tail : List α) :
    potential rank degree (tail ++ children head) + 1 ≤
      potential rank degree (head :: tail) := by
  have hchildren : potential rank degree (children head) + 1 ≤
      (degree + 1) ^ rank head := by
    cases hzero : rank head with
    | zero => simp [potential, children_eq_nil hrank hzero]
    | succ below =>
        have hterm : ∀ weight ∈ (children head).map
            (fun entry => (degree + 1) ^ rank entry),
            weight ≤ (degree + 1) ^ below := by
          intro weight hweight
          obtain ⟨child, hchild, rfl⟩ := List.mem_map.mp hweight
          have hlt := hrank head child hchild
          exact Nat.pow_le_pow_right (Nat.succ_pos degree) (by omega)
        have hsum := List.sum_le_card_nsmul _ _ hterm
        simp only [List.length_map, nsmul_eq_mul, Nat.cast_id] at hsum
        have hbound : (children head).length * (degree + 1) ^ below ≤
            degree * (degree + 1) ^ below :=
          Nat.mul_le_mul_right _ (hdegree head)
        have hpos : 1 ≤ (degree + 1) ^ below := Nat.one_le_pow _ _ (Nat.succ_pos _)
        have hpow : (degree + 1) ^ (below + 1) =
            degree * (degree + 1) ^ below + (degree + 1) ^ below := by ring
        unfold potential
        omega
  have happend : potential rank degree (tail ++ children head) =
      potential rank degree tail + potential rank degree (children head) := by
    simp [potential]
  have hcons : potential rank degree (head :: tail) =
      (degree + 1) ^ rank head + potential rank degree tail := by
    simp [potential]
  omega

variable (rank degree) in
/-- With enough fuel the queue loop is level order. -/
theorem drain_eq_levelOrder
    (hdegree : ∀ entry, (children entry).length ≤ degree) (depth fuel : ℕ)
    (queue : List α) (hfuel : potential rank degree queue ≤ fuel)
    (hdepth : ∀ entry ∈ queue, rank entry ≤ depth) :
    drain children emits fuel queue = levelOrder children emits depth queue := by
  have hempty : levelOrder children emits depth ([] : List α) = [] := by
    apply List.eq_nil_iff_forall_not_mem.mpr
    intro output houtput
    obtain ⟨generation, _, entry, hentry, _⟩ :=
      (mem_levelOrder children emits depth [] output).mp houtput
    rw [level_nil] at hentry
    cases hentry
  induction fuel generalizing queue with
  | zero =>
      cases queue with
      | nil => exact hempty.symm
      | cons head tail =>
          have hstep := potential_step hrank hdegree head tail
          omega
  | succ fuel ih =>
      cases queue with
      | nil => exact hempty.symm
      | cons head tail =>
          have hstep := potential_step hrank hdegree head tail
          have happend := levelOrder_append hrank hleaf depth [head] tail hdepth
          simp only [List.singleton_append, List.flatMap_singleton] at happend
          rw [drain, happend, ih _ (by omega)]
          intro entry hentry
          rcases List.mem_append.mp hentry with htail | hchild
          · exact hdepth entry (List.mem_cons_of_mem head htail)
          · have hlt := hrank head entry hchild
            have hle := hdepth head List.mem_cons_self
            omega

end Ranked

end LevelOrder
