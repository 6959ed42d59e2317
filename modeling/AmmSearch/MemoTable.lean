/-
Concurrent programs that share a memo table.  A program asks for keyed values one
after another and carries, with each question, the value it would compute itself.
A worker polls the table: a ready value is used, an absent key is marked and
computed, and a key that another worker computes is polled again.  A schedule
interleaves the polls and the stores of all workers.
-/
import Mathlib.Algebra.BigOperators.Group.List.Basic
import Mathlib.Algebra.GroupWithZero.Nat
import Mathlib.Algebra.Order.BigOperators.Group.List
import Mathlib.Logic.Relator

namespace MemoTable

variable {κ α ρ τ : Type}

/-- A computation that asks for values by key. -/
inductive Program (κ α ρ : Type)
  | done (result : ρ)
  | query (key : κ) (compute : α) (next : α → Program κ α ρ)

namespace Program

def bind {π : Type} (program : Program κ α ρ) (rest : ρ → Program κ α π) :
    Program κ α π :=
  match program with
  | done result => rest result
  | query key compute next => query key compute fun value => (next value).bind rest

/-- The result when every question is answered by its own computation. -/
def eval : Program κ α ρ → ρ
  | done result => result
  | query _ compute next => (next compute).eval

/-- The number of questions on that path. -/
def steps : Program κ α ρ → ℕ
  | done _ => 0
  | query _ compute next => (next compute).steps + 1

/-- Every value the program would compute is one that `truth` allows its key. -/
def Asks (truth : κ → α → Prop) : Program κ α ρ → Prop
  | done _ => True
  | query key compute next => truth key compute ∧ (next compute).Asks truth

/-- Whatever allowed values answer its questions, the program ends with a result in
`post`, and asks only where its own value is allowed. -/
def Meets (allowed : κ → α → Prop) (post : ρ → Prop) : Program κ α ρ → Prop
  | done result => post result
  | query key compute next =>
      allowed key compute ∧ ∀ value, allowed key value → (next value).Meets allowed post

/-- Where everything is allowed, every program ends. -/
theorem meets_true (program : Program κ α ρ) :
    program.Meets (fun _ _ => True) fun _ => True := by
  induction program with
  | done result => trivial
  | query key compute next ih => exact ⟨trivial, fun value _ => ih value⟩

theorem Meets.bind {π : Type} {allowed : κ → α → Prop} {middle : ρ → Prop} {post : π → Prop}
    {program : Program κ α ρ} (hprogram : program.Meets allowed middle)
    {rest : ρ → Program κ α π}
    (hrest : ∀ result, middle result → (rest result).Meets allowed post) :
    (program.bind rest).Meets allowed post := by
  induction program with
  | done result => exact hrest result hprogram
  | query key compute next ih =>
      exact ⟨hprogram.1, fun value hvalue => ih value (hprogram.2 value hvalue)⟩

@[simp]
theorem eval_bind {π : Type} (program : Program κ α ρ) (rest : ρ → Program κ α π) :
    (program.bind rest).eval = (rest program.eval).eval := by
  induction program with
  | done result => rfl
  | query key compute next ih => exact ih compute

theorem Asks.bind {π : Type} {truth : κ → α → Prop} {program : Program κ α ρ}
    (hprogram : program.Asks truth) {rest : ρ → Program κ α π}
    (hrest : (rest program.eval).Asks truth) : (program.bind rest).Asks truth := by
  induction program with
  | done result => exact hrest
  | query key compute next ih => exact ⟨hprogram.1, ih compute hprogram.2 hrest⟩

end Program

/-- What a table holds for a key. -/
inductive Slot (α : Type)
  | absent
  | inFlight
  | ready (value : α)

/-- A table with its two critical sections: polling marks an absent key, storing
publishes a value where the key is marked. -/
structure Table (τ κ α : Type) [DecidableEq κ] where
  slot : τ → κ → Slot α
  poll : τ → κ → τ
  store : τ → κ → α → τ
  slot_poll_absent : ∀ table key, slot table key = .absent → ∀ other,
    slot (poll table key) other = if other = key then .inFlight else slot table other
  slot_poll_present : ∀ table key, slot table key ≠ .absent → ∀ other,
    slot (poll table key) other = slot table other
  slot_store_marked : ∀ table key value, slot table key = .inFlight → ∀ other,
    slot (store table key value) other =
      if other = key then .ready value else slot table other
  slot_store_unmarked : ∀ table key value, slot table key ≠ .inFlight → ∀ other,
    slot (store table key value) other = slot table other

/-- A worker between two critical sections. -/
inductive Worker (κ α ρ : Type)
  | asking (program : Program κ α ρ)
  | computing (key : κ) (value : α) (next : α → Program κ α ρ)

namespace Worker

def result : Worker κ α ρ → Option ρ
  | asking (.done result) => some result
  | _ => none

/-- The result the worker is heading for. -/
def eval : Worker κ α ρ → ρ
  | asking program => program.eval
  | computing _ value next => (next value).eval

/-- A bound on the critical sections that still change the worker. -/
def remaining : Worker κ α ρ → ℕ
  | asking program => 2 * program.steps
  | computing _ value next => 2 * (next value).steps + 1

def Asks (truth : κ → α → Prop) : Worker κ α ρ → Prop
  | asking program => program.Asks truth
  | computing key value next => truth key value ∧ (next value).Asks truth

end Worker

structure System (τ κ α ρ : Type) where
  table : τ
  workers : List (Worker κ α ρ)

section Run

variable [DecidableEq κ] (tables : Table τ κ α)

/-- One critical section of a worker. -/
def advance (table : τ) : Worker κ α ρ → τ × Worker κ α ρ
  | .asking (.done result) => (table, .asking (.done result))
  | .asking (.query key compute next) =>
      match tables.slot table key with
      | .absent => (tables.poll table key, .computing key compute next)
      | .inFlight => (tables.poll table key, .asking (.query key compute next))
      | .ready value => (tables.poll table key, .asking (next value))
  | .computing key value next => (tables.store table key value, .asking (next value))

def step (system : System τ κ α ρ) (index : ℕ) : System τ κ α ρ :=
  match system.workers[index]? with
  | none => system
  | some worker =>
      let (table, worker) := advance tables system.table worker
      ⟨table, system.workers.set index worker⟩

def run (system : System τ κ α ρ) (schedule : List ℕ) : System τ κ α ρ :=
  schedule.foldl (step tables) system

/-- The next critical section of the worker changes it. -/
def enabled (table : τ) : Worker κ α ρ → Bool
  | .asking (.done _) => false
  | .asking (.query key _ _) =>
      match tables.slot table key with
      | .inFlight => false
      | _ => true
  | .computing _ _ _ => true

/-- Let enabled workers go on. -/
def drain : ℕ → System τ κ α ρ → System τ κ α ρ
  | 0, system => system
  | fuel + 1, system =>
      match system.workers.findIdx? (enabled tables system.table) with
      | none => system
      | some index => drain fuel (step tables system index)

/-- Run the workers to their end. -/
def settle (system : System τ κ α ρ) : System τ κ α ρ :=
  drain tables (system.workers.map Worker.remaining).sum system

/-- The results in worker order, once all workers have finished. -/
def collect (system : System τ κ α ρ) : Option (List ρ) :=
  system.workers.mapM Worker.result

/-- A program alone at the table.  It has no result where it would wait for another
worker. -/
def perform (table : τ) : Program κ α ρ → Option (ρ × τ)
  | .done result => some (result, table)
  | .query key compute next =>
      match tables.slot table key with
      | .absent => perform (tables.store (tables.poll table key) key compute) (next compute)
      | .inFlight => none
      | .ready value => perform (tables.poll table key) (next value)

end Run

section Alone

variable [DecidableEq κ] {tables : Table τ κ α} {allowed : κ → α → Prop}

/-- Nothing is being computed, and every ready value is allowed. -/
structure Settled (tables : Table τ κ α) (allowed : κ → α → Prop) (table : τ) : Prop where
  idle : ∀ key, tables.slot table key ≠ .inFlight
  ready : ∀ key value, tables.slot table key = .ready value → allowed key value

theorem Settled.mono {table : τ} (hsettled : Settled tables allowed table)
    {other : κ → α → Prop} (hallowed : ∀ key value, allowed key value → other key value) :
    Settled tables other table :=
  ⟨hsettled.idle, fun key value hready => hallowed key value (hsettled.ready key value hready)⟩

theorem Settled.poll {table : τ} (hsettled : Settled tables allowed table) {key : κ}
    (hpresent : tables.slot table key ≠ .absent) :
    Settled tables allowed (tables.poll table key) := by
  have hpoll := tables.slot_poll_present table key hpresent
  constructor
  · intro other
    rw [hpoll]
    exact hsettled.idle other
  · intro other value
    rw [hpoll]
    exact hsettled.ready other value

theorem Settled.compute {table : τ} (hsettled : Settled tables allowed table) {key : κ}
    (habsent : tables.slot table key = .absent) {value : α} (hvalue : allowed key value) :
    Settled tables allowed (tables.store (tables.poll table key) key value) := by
  have hpoll := tables.slot_poll_absent table key habsent
  have hstore := tables.slot_store_marked (tables.poll table key) key value
    (by rw [hpoll, if_pos rfl])
  constructor
  · intro other
    rw [hstore]
    split
    · simp
    · rename_i hne
      rw [hpoll, if_neg hne]
      exact hsettled.idle other
  · intro other found
    rw [hstore]
    split
    · rename_i heq
      intro hfound
      rw [Slot.ready.injEq] at hfound
      exact heq ▸ hfound ▸ hvalue
    · rename_i hne
      rw [hpoll, if_neg hne]
      exact hsettled.ready other found

/-- A program alone at a settled table ends as it says, and leaves the table settled. -/
theorem Program.Meets.perform {post : ρ → Prop} {holds : τ → Prop}
    (hpoll : ∀ table key, holds table → holds (tables.poll table key))
    (hstore : ∀ table key value, holds table → holds (tables.store table key value))
    {program : Program κ α ρ} (hprogram : program.Meets allowed post) {table : τ}
    (hsettled : Settled tables allowed table) (hholds : holds table) :
    ∃ result table', perform tables table program = some (result, table') ∧
      post result ∧ Settled tables allowed table' ∧ holds table' := by
  induction program generalizing table with
  | done result => exact ⟨result, table, rfl, hprogram, hsettled, hholds⟩
  | query key compute next ih =>
      rw [MemoTable.perform]
      cases hslot : tables.slot table key with
      | inFlight => exact absurd hslot (hsettled.idle key)
      | absent =>
          exact ih compute (hprogram.2 compute hprogram.1)
            (hsettled.compute hslot hprogram.1)
            (hstore _ key compute (hpoll table key hholds))
      | ready value =>
          exact ih value (hprogram.2 value (hsettled.ready key value hslot))
            (hsettled.poll (by simp [hslot])) (hpoll table key hholds)

/-- Whatever the table holds, a program alone ends as it says about all answers. -/
theorem Program.Meets.of_perform {post : ρ → Prop} {program : Program κ α ρ}
    (hprogram : program.Meets (fun _ _ => True) post) {table table' : τ} {result : ρ}
    (hrun : MemoTable.perform tables table program = some (result, table')) : post result := by
  induction program generalizing table with
  | done final =>
      obtain ⟨rfl, rfl⟩ := Prod.mk.inj (Option.some.inj hrun)
      exact hprogram
  | query key compute next ih =>
      rw [MemoTable.perform] at hrun
      cases hslot : tables.slot table key with
      | inFlight =>
          rw [hslot] at hrun
          cases hrun
      | absent =>
          rw [hslot] at hrun
          exact ih compute (hprogram.2 compute trivial) hrun
      | ready value =>
          rw [hslot] at hrun
          exact ih value (hprogram.2 value trivial) hrun

end Alone

section Sound

variable [DecidableEq κ] (tables : Table τ κ α) (truth : κ → α → Prop)

/-- A ready value is the true one, at the keys that have one. -/
def Correct (table : τ) : Prop :=
  ∀ key value, tables.slot table key = .ready value → ∀ other, truth key other →
    value = other

/-- Ready values are true, the workers ask for true values, and every marked key
has a worker that computes it. -/
structure Sound (system : System τ κ α ρ) : Prop where
  ready : Correct tables truth system.table
  asks : ∀ worker ∈ system.workers, worker.Asks truth
  owned : ∀ key, tables.slot system.table key = .inFlight →
    ∃ value next, Worker.computing key value next ∈ system.workers

/-- What one critical section does to the table and to its worker. -/
structure Advanced (table table' : τ) (worker worker' : Worker κ α ρ) : Prop where
  eval : worker'.eval = worker.eval
  asks : worker'.Asks truth
  ready : Correct tables truth table'
  remaining : enabled tables table worker = true → worker'.remaining < worker.remaining
  owned : ∀ key, tables.slot table' key = .inFlight →
    (∃ value next, worker' = .computing key value next) ∨
      (tables.slot table key = .inFlight ∧
        ∀ value next, worker ≠ .computing key value next)

variable {tables truth}

theorem advanced_query {table : τ}
    (hready : Correct tables truth table)
    {key : κ} {compute : α} {next : α → Program κ α ρ}
    (hasks : (Program.query key compute next).Asks truth) :
    Advanced tables truth table (advance tables table (.asking (.query key compute next))).1
      (.asking (.query key compute next))
      (advance tables table (.asking (.query key compute next))).2 := by
  cases hslot : tables.slot table key with
  | absent =>
      have hpoll := tables.slot_poll_absent table key hslot
      simp only [advance, hslot]
      refine ⟨rfl, hasks, ?_, ?_, ?_⟩
      · intro other value hother
        rw [hpoll] at hother
        split at hother
        · cases hother
        · exact hready other value hother
      · intro _
        simp only [Worker.remaining, Program.steps]
        omega
      · intro other hother
        rw [hpoll] at hother
        split at hother
        · rename_i heq
          exact Or.inl ⟨compute, next, heq ▸ rfl⟩
        · exact Or.inr ⟨hother, by simp⟩
  | inFlight =>
      have hpoll := tables.slot_poll_present table key (by simp [hslot])
      simp only [advance, hslot]
      refine ⟨rfl, hasks, ?_, by simp [enabled, hslot], ?_⟩
      · intro other value hother
        rw [hpoll] at hother
        exact hready other value hother
      · intro other hother
        rw [hpoll] at hother
        exact Or.inr ⟨hother, by simp⟩
  | ready value =>
      have hpoll := tables.slot_poll_present table key (by simp [hslot])
      have hvalue : value = compute := hready key value hslot compute hasks.1
      subst hvalue
      simp only [advance, hslot]
      refine ⟨rfl, hasks.2, ?_, ?_, ?_⟩
      · intro other found hother
        rw [hpoll] at hother
        exact hready other found hother
      · intro _
        simp only [Worker.remaining, Program.steps]
        omega
      · intro other hother
        rw [hpoll] at hother
        exact Or.inr ⟨hother, by simp⟩

theorem advanced_computing (hunique : Relator.RightUnique truth) {table : τ}
    (hready : Correct tables truth table)
    {key : κ} {value : α} {next : α → Program κ α ρ}
    (hasks : (Worker.computing key value next).Asks truth) :
    Advanced tables truth table (tables.store table key value) (.computing key value next)
      (.asking (next value)) := by
  refine ⟨rfl, hasks.2, ?_, by simp [Worker.remaining], ?_⟩
  · intro other found hother
    by_cases hmarked : tables.slot table key = .inFlight
    · rw [tables.slot_store_marked table key value hmarked] at hother
      split at hother
      · rename_i heq
        rw [Slot.ready.injEq] at hother
        subst heq hother
        exact fun true' htrue => hunique hasks.1 htrue
      · exact hready other found hother
    · rw [tables.slot_store_unmarked table key value hmarked] at hother
      exact hready other found hother
  · intro other hother
    refine Or.inr ?_
    by_cases hmarked : tables.slot table key = .inFlight
    · rw [tables.slot_store_marked table key value hmarked] at hother
      split at hother
      · cases hother
      · rename_i hne
        refine ⟨hother, fun _ _ hworker => ?_⟩
        rw [Worker.computing.injEq] at hworker
        exact hne hworker.1.symm
    · rw [tables.slot_store_unmarked table key value hmarked] at hother
      refine ⟨hother, fun _ _ hworker => ?_⟩
      rw [Worker.computing.injEq] at hworker
      exact hmarked (hworker.1 ▸ hother)

theorem advanced_advance (hunique : Relator.RightUnique truth) {table : τ}
    (hready : Correct tables truth table)
    {worker : Worker κ α ρ} (hasks : worker.Asks truth) :
    Advanced tables truth table (advance tables table worker).1 worker
      (advance tables table worker).2 := by
  cases worker with
  | computing key value next => exact advanced_computing hunique hready hasks
  | asking program =>
      cases program with
      | query key compute next => exact advanced_query hready hasks
      | done result =>
          refine ⟨rfl, hasks, hready, by simp [enabled], ?_⟩
          intro key hkey
          exact Or.inr ⟨hkey, by simp⟩

/-- A step replaces one worker by its successor. -/
theorem step_cases (hunique : Relator.RightUnique truth) {system : System τ κ α ρ}
    (hsound : Sound tables truth system) (index : ℕ) :
    step tables system index = system ∨
      ∃ worker table' worker', system.workers[index]? = some worker ∧
        Advanced tables truth system.table table' worker worker' ∧
        step tables system index = ⟨table', system.workers.set index worker'⟩ := by
  unfold step
  split
  · exact Or.inl rfl
  · rename_i worker hworker
    have hasks := hsound.asks worker (List.mem_of_getElem? hworker)
    exact Or.inr ⟨worker, _, _, hworker, advanced_advance hunique hsound.ready hasks, rfl⟩

theorem Sound.step (hunique : Relator.RightUnique truth) {system : System τ κ α ρ}
    (hsound : Sound tables truth system) (index : ℕ) :
    Sound tables truth (step tables system index) := by
  obtain hidle | ⟨worker, table', worker', hworker, hadvanced, hstep⟩ :=
    step_cases hunique hsound index
  · rwa [hidle]
  · rw [hstep]
    refine ⟨hadvanced.ready, ?_, ?_⟩
    · intro other hother
      obtain hbefore | rfl := List.mem_or_eq_of_mem_set hother
      · exact hsound.asks other hbefore
      · exact hadvanced.asks
    · intro key hkey
      obtain ⟨value, next, rfl⟩ | ⟨hbefore, hother⟩ := hadvanced.owned key hkey
      · refine ⟨value, next, ?_⟩
        exact List.mem_set (List.getElem?_eq_some_iff.mp hworker).1 _
      · -- the owner is another worker, which the step leaves as it is
        obtain ⟨value, next, howner⟩ := hsound.owned key hbefore
        refine ⟨value, next, ?_⟩
        obtain ⟨position, hposition⟩ := List.mem_iff_getElem?.mp howner
        have hne : index ≠ position := by
          rintro rfl
          rw [hworker, Option.some.injEq] at hposition
          exact hother value next hposition
        exact List.mem_of_getElem? ((List.getElem?_set_ne hne).trans hposition)

theorem map_eval_step (hunique : Relator.RightUnique truth) {system : System τ κ α ρ}
    (hsound : Sound tables truth system) (index : ℕ) :
    (step tables system index).workers.map Worker.eval = system.workers.map Worker.eval := by
  obtain hidle | ⟨worker, table', worker', hworker, hadvanced, hstep⟩ :=
    step_cases hunique hsound index
  · rw [hidle]
  · obtain ⟨hlt, hget⟩ := List.getElem?_eq_some_iff.mp hworker
    rw [hstep, List.map_set, hadvanced.eval, ← hget]
    refine List.ext_getElem (by simp) fun position hleft hright => ?_
    by_cases hposition : index = position
    · subst hposition
      simp
    · simp [List.getElem_set_ne hposition]

/-- An enabled step uses up some of the remaining work. -/
theorem remaining_step (hunique : Relator.RightUnique truth) {system : System τ κ α ρ}
    (hsound : Sound tables truth system) {index : ℕ} {worker : Worker κ α ρ}
    (hworker : system.workers[index]? = some worker)
    (henabled : enabled tables system.table worker = true) :
    ((step tables system index).workers.map Worker.remaining).sum <
      (system.workers.map Worker.remaining).sum := by
  obtain ⟨hlt, hget⟩ := List.getElem?_eq_some_iff.mp hworker
  have hasks := hsound.asks worker (List.mem_of_getElem? hworker)
  have hadvanced := advanced_advance hunique hsound.ready hasks
  have hless := hadvanced.remaining henabled
  have hstep : step tables system index =
      ⟨(advance tables system.table worker).1,
        system.workers.set index (advance tables system.table worker).2⟩ := by
    simp [step, hworker]
  have hsplit : system.workers =
      system.workers.take index ++ worker :: system.workers.drop (index + 1) := by
    rw [← hget, List.getElem_cons_drop, List.take_append_drop]
  rw [hstep, List.set_eq_take_append_cons_drop, if_pos hlt]
  conv_rhs => rw [hsplit]
  simp only [List.map_append, List.map_cons, List.sum_append, List.sum_cons]
  omega

/-- When no worker is enabled, all have finished. -/
theorem finished_of_findIdx? {system : System τ κ α ρ} (hsound : Sound tables truth system)
    (hnone : system.workers.findIdx? (enabled tables system.table) = none)
    {worker : Worker κ α ρ} (hworker : worker ∈ system.workers) :
    worker.result = some worker.eval := by
  rw [List.findIdx?_eq_none_iff] at hnone
  have hdisabled := hnone worker hworker
  cases worker with
  | computing key value next => simp [enabled] at hdisabled
  | asking program =>
      cases program with
      | done result => rfl
      | query key compute next =>
          cases hslot : tables.slot system.table key with
          | absent => simp [enabled, hslot] at hdisabled
          | ready value => simp [enabled, hslot] at hdisabled
          | inFlight =>
              -- the key has a worker that computes it, and that one is enabled
              obtain ⟨value, following, howner⟩ := hsound.owned key hslot
              have howner := hnone _ howner
              simp [enabled] at howner

theorem drain_spec (hunique : Relator.RightUnique truth) (fuel : ℕ)
    {system : System τ κ α ρ} (hsound : Sound tables truth system)
    (hfuel : (system.workers.map Worker.remaining).sum ≤ fuel) :
    Sound tables truth (drain tables fuel system) ∧
      (drain tables fuel system).workers.map Worker.result =
        system.workers.map fun worker => some worker.eval := by
  induction fuel generalizing system with
  | zero =>
      refine ⟨hsound, List.map_congr_left fun worker hworker => ?_⟩
      refine finished_of_findIdx? hsound ?_ hworker
      rw [List.findIdx?_eq_none_iff]
      intro other hother
      by_contra henabled
      obtain ⟨index, hindex⟩ := List.mem_iff_getElem?.mp hother
      have hless := remaining_step hunique hsound hindex (by simpa using henabled)
      omega
  | succ fuel ih =>
      rw [drain]
      split
      · rename_i hnone
        refine ⟨hsound, List.map_congr_left fun worker hworker => ?_⟩
        exact finished_of_findIdx? hsound hnone hworker
      · rename_i index hindex
        obtain ⟨hlt, henabled, _⟩ := List.findIdx?_eq_some_iff_getElem.mp hindex
        have hless := remaining_step hunique hsound (List.getElem?_eq_getElem hlt) henabled
        obtain ⟨hsettled, hresults⟩ := ih (hsound.step hunique index) (by omega)
        refine ⟨hsettled, hresults.trans ?_⟩
        have heval := map_eval_step hunique hsound index
        simpa [Function.comp_def] using congrArg (List.map some) heval

theorem Sound.run (hunique : Relator.RightUnique truth) {system : System τ κ α ρ}
    (hsound : Sound tables truth system) (schedule : List ℕ) :
    Sound tables truth (run tables system schedule) ∧
      (run tables system schedule).workers.map Worker.eval =
        system.workers.map Worker.eval := by
  induction schedule generalizing system with
  | nil => exact ⟨hsound, rfl⟩
  | cons index rest ih =>
      obtain ⟨hrest, heval⟩ := ih (hsound.step hunique index)
      exact ⟨hrest, heval.trans (map_eval_step hunique hsound index)⟩

/-- What every critical section preserves holds at the end. -/
theorem settle_run_induction {holds : System τ κ α ρ → Prop}
    (hstep : ∀ system index, holds system → holds (MemoTable.step tables system index))
    {system : System τ κ α ρ} (hholds : holds system) (schedule : List ℕ) :
    holds (settle tables (MemoTable.run tables system schedule)) := by
  have hrun : holds (MemoTable.run tables system schedule) := by
    unfold MemoTable.run
    induction schedule generalizing system with
    | nil => exact hholds
    | cons index rest ih => exact ih (hstep system index hholds)
  unfold settle
  generalize ((MemoTable.run tables system schedule).workers.map Worker.remaining).sum = fuel
  generalize MemoTable.run tables system schedule = system at hrun
  induction fuel generalizing system with
  | zero => exact hrun
  | succ fuel ih =>
      rw [drain]
      split
      · exact hrun
      · exact ih _ (hstep system _ hrun)

/-- What polls and stores preserve holds of the table at the end. -/
theorem table_settle_run {holds : τ → Prop}
    (hpoll : ∀ table key, holds table → holds (tables.poll table key))
    (hstore : ∀ table key value, holds table → holds (tables.store table key value))
    {system : System τ κ α ρ} (hholds : holds system.table) (schedule : List ℕ) :
    holds (settle tables (MemoTable.run tables system schedule)).table := by
  apply @settle_run_induction _ _ _ _ _ tables fun system => holds system.table
  · intro system index hsystem
    unfold MemoTable.step
    split
    · exact hsystem
    · rename_i worker _
      cases worker with
      | computing key value next => exact hstore _ key value hsystem
      | asking program =>
          cases program with
          | done result => exact hsystem
          | query key compute next =>
              simp only [advance]
              split <;> exact hpoll _ key hsystem
  · exact hholds

/-- Whatever the interleaving, every worker finishes with the result of its own
program, and the table stays sound. -/
theorem collect_settle_run (hunique : Relator.RightUnique truth)
    {system : System τ κ α ρ} (hsound : Sound tables truth system) (schedule : List ℕ) :
    collect (settle tables (run tables system schedule)) =
        some (system.workers.map Worker.eval) ∧
      Sound tables truth (settle tables (run tables system schedule)) := by
  obtain ⟨hrun, heval⟩ := hsound.run hunique schedule
  obtain ⟨hsettled, hresults⟩ := drain_spec hunique _ hrun le_rfl
  refine ⟨?_, hsettled⟩
  unfold collect settle
  have hmapM : ∀ workers : List (Worker κ α ρ), ∀ results : List ρ,
      workers.map Worker.result = results.map some →
      workers.mapM Worker.result = some results := by
    intro workers
    induction workers with
    | nil =>
        intro results hmap
        cases results with
        | nil => rfl
        | cons result rest => cases hmap
    | cons worker workers ih =>
        intro results hmap
        cases results with
        | nil => cases hmap
        | cons result rest =>
            rw [List.map_cons, List.map_cons, List.cons.injEq] at hmap
            simp [hmap.1, ih rest hmap.2]
  refine hmapM _ _ (hresults.trans ?_)
  rw [← heval, List.map_map]
  rfl

/-- A sound system whose ready values are all true. -/
structure Filled (tables : Table τ κ α) (truth : κ → α → Prop) (system : System τ κ α ρ) :
    Prop where
  sound : Sound tables truth system
  stored : ∀ key value, tables.slot system.table key = .ready value → truth key value

theorem stored_advance {table : τ} {worker : Worker κ α ρ} (hasks : worker.Asks truth)
    (hstored : ∀ key value, tables.slot table key = .ready value → truth key value)
    (key : κ) (value : α)
    (hready : tables.slot (advance tables table worker).1 key = .ready value) :
    truth key value := by
  have hpoll : ∀ asked, tables.slot (tables.poll table asked) key = .ready value →
      truth key value := by
    intro asked hpolled
    by_cases habsent : tables.slot table asked = .absent
    · rw [tables.slot_poll_absent table asked habsent] at hpolled
      split at hpolled
      · cases hpolled
      · exact hstored key value hpolled
    · rw [tables.slot_poll_present table asked habsent] at hpolled
      exact hstored key value hpolled
  cases worker with
  | computing asked found next =>
      simp only [advance] at hready
      by_cases hmarked : tables.slot table asked = .inFlight
      · rw [tables.slot_store_marked table asked found hmarked] at hready
        split at hready
        · rename_i heq
          rw [Slot.ready.injEq] at hready
          exact heq ▸ hready ▸ hasks.1
        · exact hstored key value hready
      · rw [tables.slot_store_unmarked table asked found hmarked] at hready
        exact hstored key value hready
  | asking program =>
      cases program with
      | done result => exact hstored key value hready
      | query asked compute next =>
          simp only [advance] at hready
          split at hready <;> exact hpoll asked hready

theorem Filled.step (hunique : Relator.RightUnique truth) {system : System τ κ α ρ}
    (hfilled : Filled tables truth system) (index : ℕ) :
    Filled tables truth (MemoTable.step tables system index) := by
  refine ⟨hfilled.sound.step hunique index, ?_⟩
  intro key value hready
  unfold MemoTable.step at hready
  split at hready
  · exact hfilled.stored key value hready
  · rename_i worker hworker
    exact stored_advance (hfilled.sound.asks worker (List.mem_of_getElem? hworker))
      hfilled.stored key value hready

/-- Programs that ask for true values leave a settled table. -/
theorem Filled.settled (hunique : Relator.RightUnique truth) {system : System τ κ α ρ}
    (hfilled : Filled tables truth system) (schedule : List ℕ) :
    Settled tables truth (settle tables (run tables system schedule)).table := by
  have hend := @settle_run_induction _ _ _ _ _ tables (Filled tables truth)
    (fun system index hsystem => Filled.step hunique hsystem index) system hfilled schedule
  refine ⟨?_, hend.stored⟩
  intro key hflight
  -- its owner would still be computing, but every worker has finished
  obtain ⟨value, next, howner⟩ := hend.sound.owned key hflight
  obtain ⟨hrun, _⟩ := hfilled.sound.run hunique schedule
  obtain ⟨_, hresults⟩ := drain_spec hunique _ hrun le_rfl
  have hfinished : (Worker.computing key value next).result ∈
      (settle tables (run tables system schedule)).workers.map Worker.result :=
    List.mem_map_of_mem howner
  unfold settle at hfinished
  rw [hresults] at hfinished
  obtain ⟨worker, _, hworker⟩ := List.mem_map.mp hfinished
  cases hworker

end Sound

end MemoTable
