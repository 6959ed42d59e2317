/-
Transition systems with labelled steps.  A step that is not enabled in a state
gives `none`; a run is a list of enabled steps, and properties of runs follow
from properties of one step.
-/
import Mathlib.Data.List.Basic
import Mathlib.Data.Option.Basic

namespace Transitions

universe u v

variable {σ : Type u} {ι : Type v} (step : σ → ι → Option σ)

/-- The state after a list of steps. -/
def run (state : σ) (labels : List ι) : Option σ :=
  labels.foldlM step state

/-- Some run leads from one state to the other. -/
def Reaches (state next : σ) : Prop :=
  ∃ labels, run step state labels = some next

variable {step} {state middle next : σ} {label : ι}

theorem run_cons (labels : List ι) :
    run step state (label :: labels) =
      (step state label).bind fun after => run step after labels :=
  rfl

theorem run_append (first second : List ι) :
    run step state (first ++ second) =
      (run step state first).bind fun after => run step after second := by
  rw [run, List.foldlM_append]
  rfl

namespace Reaches

theorem refl (state : σ) : Reaches step state state :=
  ⟨[], rfl⟩

/-- What every step preserves, every run preserves. -/
theorem preserves {invariant : σ → Prop}
    (hstep : ∀ {state label next}, invariant state → step state label = some next →
      invariant next)
    (hreaches : Reaches step state next) (hstart : invariant state) : invariant next := by
  obtain ⟨labels, hrun⟩ := hreaches
  induction labels generalizing state with
  | nil =>
      cases hrun
      exact hstart
  | cons label rest ih =>
      obtain ⟨after, hfirst, hrest⟩ := Option.bind_eq_some_iff.mp hrun
      exact ih (hstep hstart hfirst) hrest

end Reaches

/-- Every step of a run meets the condition in the state it starts from. -/
def Along (step : σ → ι → Option σ) (condition : σ → ι → Prop) : σ → List ι → Prop
  | _, [] => True
  | state, label :: rest =>
      condition state label ∧
        ∀ next, step state label = some next → Along step condition next rest

/-- What every step that meets the condition preserves, every run of such steps
preserves. -/
theorem Along.preserves {condition : σ → ι → Prop} {invariant : σ → Prop}
    (hstep : ∀ {state label next}, invariant state → condition state label →
      step state label = some next → invariant next)
    {labels : List ι} (halong : Along step condition state labels)
    (hrun : run step state labels = some next) (hstart : invariant state) :
    invariant next := by
  induction labels generalizing state with
  | nil =>
      cases hrun
      exact hstart
  | cons label rest ih =>
      obtain ⟨after, hfirst, hrest⟩ := Option.bind_eq_some_iff.mp hrun
      exact ih (halong.2 after hfirst) hrest (hstep hstart halong.1 hfirst)

/-- A condition that holds of the listed steps in every state holds along the run. -/
theorem along_of_forall {condition : σ → ι → Prop} {labels : List ι}
    (hcondition : ∀ label ∈ labels, ∀ state, condition state label) :
    Along step condition state labels := by
  induction labels generalizing state with
  | nil => trivial
  | cons label rest ih =>
      exact ⟨hcondition label List.mem_cons_self state, fun _ _ => ih fun other hother =>
        hcondition other (List.mem_cons_of_mem label hother)⟩

/-- A potential that every step under the condition lowers bounds the run. -/
theorem Along.length_add_le {condition : σ → ι → Prop} (potential : σ → ℕ)
    (hstep : ∀ {state label next}, condition state label → step state label = some next →
      potential next < potential state)
    {labels : List ι} (halong : Along step condition state labels)
    (hrun : run step state labels = some next) :
    potential next + labels.length ≤ potential state := by
  induction labels generalizing state with
  | nil =>
      cases hrun
      exact Nat.le_refl _
  | cons label rest ih =>
      obtain ⟨after, hfirst, hrest⟩ := Option.bind_eq_some_iff.mp hrun
      have hless := hstep halong.1 hfirst
      have hlater := ih (halong.2 after hfirst) hrest
      rw [List.length_cons]
      omega

/-- Under such a potential a run can go on until no step meets the condition. -/
theorem Along.exists_final {condition : σ → ι → Prop} (potential : σ → ℕ)
    (hstep : ∀ {state label}, condition state label →
      ∃ next, step state label = some next ∧ potential next < potential state)
    (state : σ) :
    ∃ labels next, Along step condition state labels ∧ run step state labels = some next ∧
      ∀ label, ¬condition next label := by
  induction hwork : potential state using Nat.strongRecOn generalizing state with
  | ind work ih =>
      by_cases hdone : ∀ label, ¬condition state label
      · exact ⟨[], state, trivial, rfl, hdone⟩
      · obtain ⟨label, hlabel⟩ := not_forall_not.mp hdone
        obtain ⟨after, hfirst, hless⟩ := hstep hlabel
        obtain ⟨rest, next, halong, hrun, hnext⟩ := ih _ (hwork ▸ hless) after rfl
        refine ⟨label :: rest, next, ⟨hlabel, fun other hother => ?_⟩, ?_, hnext⟩
        · rw [hfirst, Option.some.injEq] at hother
          exact hother ▸ halong
        · rw [run_cons, hfirst]
          exact hrun

/-- A potential that a step raises only when `adds` counts it, and that it lowers when
`spends` counts it, bounds how often a run spends. -/
theorem countP_add_le {condition : ι → Prop} (invariant : σ → Prop) (potential : σ → ℕ)
    (spends adds : ι → Bool)
    (hstep : ∀ {state label next}, invariant state → condition label →
      step state label = some next → invariant next ∧
        potential next + (if spends label then 1 else 0) ≤
          potential state + if adds label then 1 else 0)
    {labels : List ι} (hlabels : ∀ label ∈ labels, condition label)
    (hrun : run step state labels = some next) (hstart : invariant state) :
    invariant next ∧
      potential next + labels.countP spends ≤ potential state + labels.countP adds := by
  induction labels generalizing state with
  | nil =>
      cases hrun
      exact ⟨hstart, Nat.le_refl _⟩
  | cons label rest ih =>
      obtain ⟨after, hfirst, hrest⟩ := Option.bind_eq_some_iff.mp hrun
      obtain ⟨hafter, hspent⟩ := hstep hstart (hlabels label List.mem_cons_self) hfirst
      obtain ⟨hnext, hlater⟩ := ih (fun other hother =>
        hlabels other (List.mem_cons_of_mem label hother)) hrest hafter
      refine ⟨hnext, ?_⟩
      rw [List.countP_cons, List.countP_cons]
      omega

end Transitions
