/-
Search with a bound.  A node may be left out when no solution below it is worth
more than one that was found; the best solution is then found.
-/
import Mathlib.Logic.Relation
import Mathlib.Order.Bounds.Basic

namespace BranchAndBound

open Relation

/-- The nodes that follow a node, and the values of the solutions that it completes. -/
structure Tree (σ α : Type) where
  child : σ → σ → Prop
  value : σ → α → Prop

namespace Tree

variable {σ α : Type} {tree : Tree σ α} {node next : σ} {value : α}

/-- A solution at the node or further down. -/
def Below (tree : Tree σ α) (node : σ) (value : α) : Prop :=
  ∃ last, ReflTransGen tree.child node last ∧ tree.value last value

theorem Below.of_child (hchild : tree.child node next) (hbelow : tree.Below next value) :
    tree.Below node value := by
  obtain ⟨last, hpath, hvalue⟩ := hbelow
  exact ⟨last, hpath.head hchild, hvalue⟩

/-- A tree whose nodes are rivalled by nodes of another one offers no better solutions. -/
theorem Below.rivalled [Preorder α] {other : Tree σ α} {rivals : σ → σ → Prop}
    (hchild : ∀ node better next, rivals node better → tree.child node next →
      ∃ later, other.child better later ∧ rivals next later)
    (hvalue : ∀ node better value, rivals node better → tree.value node value →
      ∃ best, other.value better best ∧ value ≤ best) {better : σ}
    (hrivals : rivals node better) (hbelow : tree.Below node value) :
    ∃ best, other.Below better best ∧ value ≤ best := by
  obtain ⟨last, hpath, hlast⟩ := hbelow
  induction hpath using ReflTransGen.head_induction_on generalizing better with
  | refl =>
      obtain ⟨best, hbest, hle⟩ := hvalue _ _ _ hrivals hlast
      exact ⟨best, ⟨better, .refl, hbest⟩, hle⟩
  | head hfirst _ ih =>
      obtain ⟨later, hlater, hnext⟩ := hchild _ _ _ hrivals hfirst
      obtain ⟨best, hbelow, hle⟩ := ih hnext
      exact ⟨best, hbelow.of_child hlater, hle⟩

section Bound

variable [Preorder α] {found : α → Prop} {reached : σ → Prop}

/-- A value that some found value is at least as good as. -/
def Matched (found : α → Prop) (value : α) : Prop :=
  ∃ best, found best ∧ value ≤ best

theorem Matched.mono {found more : α → Prop} (hmore : ∀ value, found value → more value)
    (hmatched : Matched found value) : Matched more value := by
  obtain ⟨best, hbest, hle⟩ := hmatched
  exact ⟨best, hmore best hbest, hle⟩

/-- Nothing below the node is better than what was found. -/
def Settled (tree : Tree σ α) (found : α → Prop) (node : σ) : Prop :=
  ∀ value, tree.Below node value → Matched found value

/-- A reached node is left out only when it is settled. -/
def Explored (tree : Tree σ α) (found : α → Prop) (reached : σ → Prop) : Prop :=
  ∀ node, reached node → tree.Settled found node ∨
    (∀ next, tree.child node next → reached next) ∧
      ∀ value, tree.value node value → Matched found value

/-- Every reached node is settled in the end. -/
theorem Explored.settled (hexplored : tree.Explored found reached) (hreached : reached node) :
    tree.Settled found node := by
  rintro value ⟨last, hpath, hvalue⟩
  induction hpath using ReflTransGen.head_induction_on with
  | refl =>
      rcases hexplored last hreached with hsettled | ⟨_, hvalues⟩
      · exact hsettled value ⟨last, .refl, hvalue⟩
      · exact hvalues value hvalue
  | head hchild hrest ih =>
      rcases hexplored _ hreached with hsettled | ⟨hnext, _⟩
      · exact hsettled value ⟨last, hrest.head hchild, hvalue⟩
      · exact ih (hnext _ hchild)

end Bound

/-- Sets that match one another have the same greatest element. -/
theorem isGreatest_iff_of_matched [PartialOrder α] {found offered : α → Prop}
    (hoffered : ∀ value, offered value → Matched found value)
    (hfound : ∀ value, found value → Matched offered value) :
    IsGreatest {value | found value} value ↔ IsGreatest {value | offered value} value := by
  have hgreatest : ∀ left right : α → Prop, (∀ value, left value → Matched right value) →
      (∀ value, right value → Matched left value) → IsGreatest {value | left value} value →
      IsGreatest {value | right value} value := by
    rintro left right hleft hright ⟨hmem, hbound⟩
    have hupper : ∀ other, right other → other ≤ value := by
      intro other hother
      obtain ⟨best, hbest, hle⟩ := hright other hother
      exact hle.trans (hbound hbest)
    obtain ⟨best, hbest, hle⟩ := hleft value hmem
    rw [le_antisymm hle (hupper best hbest)]
    exact ⟨hbest, fun other hother => (hupper other hother).trans hle⟩
  exact ⟨hgreatest found offered hfound hoffered, hgreatest offered found hoffered hfound⟩

/-- The greatest solution is the greatest one that was found. -/
theorem isGreatest_iff [PartialOrder α] {found offered : α → Prop}
    (hmatched : ∀ value, offered value → Matched found value)
    (hfound : ∀ value, found value → offered value) :
    IsGreatest {value | found value} value ↔ IsGreatest {value | offered value} value :=
  isGreatest_iff_of_matched hmatched fun value hvalue => ⟨value, hfound value hvalue, le_rfl⟩

end Tree

end BranchAndBound
