/-
Workers that report to one coordinator.  Each worker goes through its own list
of outcomes; it sends the items among them over a shared channel and keeps the
failures.  The coordinator hands every received item to a callback; once the
callback refuses, it sets a flag that the workers read around each send, and
drops the receiver.  A schedule interleaves the steps of the workers with the
receptions.  A read of the flag may be stale.
-/
import Mathlib.Algebra.GroupWithZero.Nat
import Mathlib.Data.List.Flatten
import Mathlib.Data.List.Perm.Basic
import Mathlib.Order.Basic
import Mathlib.Order.Lattice

namespace FanIn

variable {α β σ : Type}

/-- One worker thread.  `sent` holds between a send and the read of the flag
that follows it. -/
structure Worker (α β : Type) where
  pending : List (α ⊕ β)
  reported : List α := []
  failed : List β := []
  stopped : Bool := false
  sent : Bool := false

structure Pool (α β σ : Type) where
  workers : List (Worker α β)
  channel : List α := []
  cancelled : Bool := false
  receiving : Bool := true
  observed : σ

/-- A step of a worker, which sees the flag or a stale value of it, or a
reception. -/
inductive Event
  | work (worker : ℕ) (fresh : Bool)
  | receive
deriving DecidableEq

/-- One step of a worker, with the items that it sends. -/
def Worker.advance (cancelled receiving : Bool) (worker : Worker α β) :
    Worker α β × List α :=
  if worker.stopped then (worker, [])
  else if worker.sent then ({ worker with sent := false, stopped := cancelled }, [])
  else
    match worker.pending with
    | [] => (worker, [])
    | .inr failure :: rest =>
        ({ worker with pending := rest, failed := worker.failed ++ [failure] }, [])
    | .inl item :: rest =>
        let worker :=
          { worker with pending := rest, reported := worker.reported ++ [item] }
        if cancelled || !receiving then ({ worker with stopped := true }, [])
        else ({ worker with sent := true }, [item])

variable (onItem : σ → α → σ × Bool)

def step (pool : Pool α β σ) : Event → Pool α β σ
  | .work index fresh =>
      match pool.workers[index]? with
      | none => pool
      | some worker =>
          let advanced := worker.advance (pool.cancelled && fresh) pool.receiving
          { pool with
            workers := pool.workers.set index advanced.1
            channel := pool.channel ++ advanced.2 }
  | .receive =>
      if pool.receiving then
        match pool.channel with
        | [] => pool
        | item :: rest =>
            { pool with
              channel := rest
              observed := (onItem pool.observed item).1
              cancelled := pool.cancelled || !(onItem pool.observed item).2
              receiving := (onItem pool.observed item).2 }
      else pool

def run (pool : Pool α β σ) (schedule : List Event) : Pool α β σ :=
  schedule.foldl (step onItem) pool

/-- How many steps a worker has left at most. -/
def Worker.remaining (worker : Worker α β) : ℕ :=
  if worker.stopped then 0 else 2 * worker.pending.length + worker.sent.toNat

def Pool.remaining (pool : Pool α β σ) (index : ℕ) : ℕ :=
  (pool.workers[index]?.map Worker.remaining).getD 0

/-- Run the workers one after the other, then receive what was sent. -/
def settle (pool : Pool α β σ) : Pool α β σ :=
  let finished := run onItem pool ((List.range pool.workers.length).flatMap fun index =>
    List.replicate (pool.remaining index) (.work index true))
  run onItem finished (List.replicate finished.channel.length .receive)

/-- A pool whose workers have not started. -/
def begin (outcomes : List (List (α ⊕ β))) (observed : σ) : Pool α β σ :=
  { workers := outcomes.map fun pending => { pending := pending }, observed := observed }

section Settling

theorem Worker.remaining_advance (cancelled receiving : Bool) (worker : Worker α β) :
    (worker.advance cancelled receiving).1.remaining ≤ worker.remaining - 1 := by
  obtain ⟨pending, reported, failed, stopped, sent⟩ := worker
  cases stopped with
  | true => simp [advance, remaining]
  | false =>
      cases sent with
      | true =>
          simp only [advance, remaining, Bool.false_eq_true, if_false, if_true,
            Bool.toNat_true, Bool.toNat_false]
          split <;> omega
      | false =>
          rcases pending with _ | ⟨item | failure, rest⟩
          · simp [advance, remaining]
          · simp only [advance, remaining, Bool.false_eq_true, if_false,
              List.length_cons, Bool.toNat_false]
            split
            · simp
            · simp only [Bool.false_eq_true, if_false, Bool.toNat_true]
              omega
          · simp only [advance, remaining, Bool.false_eq_true, if_false,
              List.length_cons, Bool.toNat_false]
            omega

theorem length_workers_step (pool : Pool α β σ) (event : Event) :
    (step onItem pool event).workers.length = pool.workers.length := by
  cases event with
  | work index fresh =>
      simp only [step]
      split
      · rfl
      · exact List.length_set
  | receive =>
      simp only [step]
      split
      · split <;> rfl
      · rfl

theorem remaining_receive (pool : Pool α β σ) (index : ℕ) :
    (step onItem pool .receive).remaining index = pool.remaining index := by
  simp only [step]
  split
  · split <;> rfl
  · rfl

theorem remaining_work_of_ne (pool : Pool α β σ) {index other : ℕ} (fresh : Bool)
    (hne : index ≠ other) :
    (step onItem pool (.work index fresh)).remaining other = pool.remaining other := by
  simp only [step]
  split
  · rfl
  · simp only [Pool.remaining]
    rw [List.getElem?_set_ne hne]

theorem remaining_work_self (pool : Pool α β σ) (index : ℕ) (fresh : Bool) :
    (step onItem pool (.work index fresh)).remaining index ≤
      pool.remaining index - 1 := by
  simp only [step]
  split
  · rename_i hnone
    simp [Pool.remaining, hnone]
  · rename_i worker hworker
    simp only [Pool.remaining]
    rw [List.getElem?_set_self (List.getElem?_eq_some_iff.mp hworker).1, hworker]
    exact worker.remaining_advance _ _

theorem remaining_step_le (pool : Pool α β σ) (event : Event) (index : ℕ) :
    (step onItem pool event).remaining index ≤ pool.remaining index := by
  cases event with
  | receive => exact (remaining_receive onItem pool index).le
  | work worker fresh =>
      by_cases heq : worker = index
      · subst heq
        exact (remaining_work_self onItem pool worker fresh).trans (Nat.sub_le _ _)
      · exact (remaining_work_of_ne onItem pool fresh heq).le

theorem remaining_run_le (pool : Pool α β σ) (schedule : List Event) (index : ℕ) :
    (run onItem pool schedule).remaining index ≤ pool.remaining index := by
  induction schedule generalizing pool with
  | nil => exact le_refl _
  | cons event rest ih => exact (ih _).trans (remaining_step_le onItem pool event index)

theorem remaining_replicate (pool : Pool α β σ) (index count : ℕ) :
    (run onItem pool (List.replicate count (.work index true))).remaining index ≤
      pool.remaining index - count := by
  induction count generalizing pool with
  | zero => exact le_refl _
  | succ count ih =>
      have hstep := remaining_work_self onItem pool index true
      have hrest := ih (step onItem pool (.work index true))
      change (run onItem (step onItem pool (.work index true)) _).remaining index ≤ _
      omega

theorem run_append (pool : Pool α β σ) (front back : List Event) :
    run onItem pool (front ++ back) = run onItem (run onItem pool front) back :=
  List.foldl_append

/-- Running each listed worker long enough finishes all of them. -/
theorem remaining_flatMap (bound : ℕ → ℕ) (indices : List ℕ) (pool : Pool α β σ)
    (hbound : ∀ index, pool.remaining index ≤ bound index) :
    ∀ index ∈ indices, (run onItem pool (indices.flatMap fun index =>
      List.replicate (bound index) (.work index true))).remaining index = 0 := by
  induction indices generalizing pool with
  | nil => simp
  | cons head rest ih =>
      intro index hindex
      rw [List.flatMap_cons, run_append]
      have hhead := remaining_replicate onItem pool head (bound head)
      rcases List.mem_cons.mp hindex with rfl | hrest
      · have hlater := remaining_run_le onItem
          (run onItem pool (List.replicate (bound index) (.work index true)))
          (rest.flatMap fun index => List.replicate (bound index) (.work index true)) index
        have hstart := hbound index
        omega
      · refine ih _ ?_ index hrest
        intro other
        exact (remaining_run_le onItem pool _ other).trans (hbound other)

theorem length_workers_run (pool : Pool α β σ) (schedule : List Event) :
    (run onItem pool schedule).workers.length = pool.workers.length := by
  induction schedule generalizing pool with
  | nil => rfl
  | cons event rest ih => exact (ih _).trans (length_workers_step onItem pool event)

/-- Receiving as often as there are messages empties the channel, unless the
receiver is dropped. -/
theorem channel_replicate_receive (pool : Pool α β σ) (count : ℕ)
    (hcount : pool.channel.length ≤ count)
    (hreceiving : (run onItem pool (List.replicate count .receive)).receiving = true) :
    (run onItem pool (List.replicate count .receive)).channel = [] := by
  induction count generalizing pool with
  | zero => exact List.length_eq_zero_iff.mp (Nat.le_zero.mp hcount)
  | succ count ih =>
      refine ih (step onItem pool .receive) ?_ hreceiving
      simp only [step]
      split
      · split
        · rename_i hempty
          rw [hempty]
          exact Nat.zero_le _
        · rename_i hchannel
          rw [hchannel] at hcount
          exact Nat.le_of_succ_le_succ hcount
      · -- a dropped receiver stays dropped
        rename_i hdropped
        exfalso
        have hstays : ∀ count, (run onItem pool
            (List.replicate count .receive)).receiving = pool.receiving := by
          intro count
          induction count with
          | zero => rfl
          | succ count ih =>
              rw [List.replicate_succ]
              change (run onItem (step onItem pool .receive) _).receiving = _
              rw [step, if_neg hdropped]
              exact ih
        exact hdropped ((hstays _).symm.trans hreceiving)

/-- A settled pool has finished workers and an empty channel. -/
theorem settle_finished (pool : Pool α β σ) :
    (∀ worker ∈ (settle onItem pool).workers, worker.remaining = 0) ∧
      ((settle onItem pool).receiving = true → (settle onItem pool).channel = []) := by
  refine ⟨?_, channel_replicate_receive onItem _ _ (le_refl _)⟩
  intro worker hworker
  obtain ⟨index, hindex⟩ := List.mem_iff_getElem?.mp hworker
  have hlength : (settle onItem pool).workers.length = pool.workers.length := by
    rw [settle, length_workers_run, length_workers_run]
  have hmem : index ∈ List.range pool.workers.length := by
    rw [List.mem_range, ← hlength]
    exact (List.getElem?_eq_some_iff.mp hindex).1
  have hfinished := remaining_flatMap onItem pool.remaining
    (List.range pool.workers.length) pool (fun _ => le_refl _) index hmem
  have hsettled : (settle onItem pool).remaining index = 0 :=
    Nat.le_zero.mp ((remaining_run_le onItem _ _ index).trans hfinished.le)
  simpa [Pool.remaining, hindex] using hsettled

end Settling

section Draining

/-- The callback state after a sequence of received items. -/
def receiveAll (observed : σ) (items : List α) : σ :=
  items.foldl (fun observed item => (onItem observed item).1) observed

def items (outcomes : List (α ⊕ β)) : List α :=
  outcomes.filterMap Sum.getLeft?

def failures (outcomes : List (α ⊕ β)) : List β :=
  outcomes.filterMap Sum.getRight?

/-- While nobody refuses, every item of `outcomes` has been received, or is on
its way, or is still pending, and `log` is what was received. -/
structure Draining (outcomes : List (List (α ⊕ β))) (start : σ) (log : List α)
    (pool : Pool α β σ) : Prop where
  cancelled : pool.cancelled = false
  receiving : pool.receiving = true
  running : ∀ worker ∈ pool.workers, worker.stopped = false
  observed : pool.observed = receiveAll onItem start log
  items : (log ++ pool.channel ++
    pool.workers.flatMap fun worker => items worker.pending).Perm
      (outcomes.flatMap items)
  failures : (pool.workers.flatMap fun worker =>
    worker.failed ++ failures worker.pending).Perm (outcomes.flatMap failures)

variable {onItem}

theorem draining_begin (outcomes : List (List (α ⊕ β))) (start : σ) :
    Draining onItem outcomes start [] (begin outcomes start) where
  cancelled := rfl
  receiving := rfl
  running := by simp [begin]
  observed := rfl
  items := by simp [begin, List.flatMap_map]
  failures := by simp [begin, List.flatMap_map]

/-- Replacing one worker permutes what is collected over all of them. -/
theorem perm_flatMap_set {γ : Type} (collect : Worker α β → List γ)
    {workers : List (Worker α β)} {index : ℕ} {worker next : Worker α β}
    (hworker : workers[index]? = some worker) (taken : List γ)
    (htaken : (taken ++ collect next).Perm (collect worker)) :
    (taken ++ (workers.set index next).flatMap collect).Perm
      (workers.flatMap collect) := by
  induction workers generalizing index with
  | nil => simp at hworker
  | cons head rest ih =>
      cases index with
      | zero =>
          obtain rfl : head = worker := by simpa using hworker
          rw [List.set_cons_zero, List.flatMap_cons, List.flatMap_cons,
            ← List.append_assoc]
          exact htaken.append_right _
      | succ index =>
          rw [List.getElem?_cons_succ] at hworker
          rw [List.set_cons_succ, List.flatMap_cons, List.flatMap_cons]
          have hswap : (taken ++ (collect head ++
              (rest.set index next).flatMap collect)).Perm
              (collect head ++ (taken ++ (rest.set index next).flatMap collect)) := by
            rw [← List.append_assoc, ← List.append_assoc]
            exact List.perm_append_comm.append_right _
          exact hswap.trans ((ih hworker).append_left _)

theorem Worker.advance_running {worker : Worker α β}
    (hrunning : worker.stopped = false) :
    (worker.advance false true).1.stopped = false ∧
      (worker.advance false true).2 ++ FanIn.items (worker.advance false true).1.pending =
        FanIn.items worker.pending ∧
      (worker.advance false true).1.failed ++
          FanIn.failures (worker.advance false true).1.pending =
        worker.failed ++ FanIn.failures worker.pending := by
  obtain ⟨pending, reported, failed, stopped, sent⟩ := worker
  obtain rfl : stopped = false := hrunning
  cases sent with
  | true => exact ⟨rfl, rfl, rfl⟩
  | false =>
      rcases pending with _ | ⟨item | failure, rest⟩
      · exact ⟨rfl, rfl, rfl⟩
      · exact ⟨rfl, rfl, rfl⟩
      · refine ⟨rfl, rfl, ?_⟩
        simp [advance, FanIn.failures]

theorem Draining.step (hcontinue : ∀ observed item, (onItem observed item).2 = true)
    {outcomes : List (List (α ⊕ β))} {start : σ} {log : List α} {pool : Pool α β σ}
    (hpool : Draining onItem outcomes start log pool) (event : Event) :
    ∃ log', Draining onItem outcomes start log' (FanIn.step onItem pool event) := by
  cases event with
  | work index fresh =>
      simp only [FanIn.step]
      split
      · exact ⟨log, hpool⟩
      · rename_i worker hworker
        obtain ⟨hstopped, hitems, hfailures⟩ := Worker.advance_running
          (hpool.running worker (List.mem_of_getElem? hworker))
        rw [hpool.cancelled, Bool.false_and, hpool.receiving]
        refine ⟨log, rfl, rfl, ?_, hpool.observed, ?_, ?_⟩
        · intro other hother
          rcases List.mem_or_eq_of_mem_set hother with hold | rfl
          · exact hpool.running other hold
          · exact hstopped
        · refine List.Perm.trans ?_ hpool.items
          rw [List.append_assoc, List.append_assoc, List.append_assoc]
          refine List.Perm.append_left log (List.Perm.append_left pool.channel ?_)
          exact perm_flatMap_set (fun worker => FanIn.items worker.pending) hworker _
            (List.Perm.of_eq hitems)
        · refine List.Perm.trans ?_ hpool.failures
          exact perm_flatMap_set (fun worker =>
            worker.failed ++ FanIn.failures worker.pending) hworker []
            (List.Perm.of_eq hfailures)
  | receive =>
      simp only [FanIn.step, hpool.receiving, if_true]
      split
      · exact ⟨log, hpool⟩
      · rename_i item rest hchannel
        refine ⟨log ++ [item], ?_, hcontinue _ _, hpool.running, ?_, ?_, hpool.failures⟩
        · rw [hpool.cancelled, hcontinue]
          rfl
        · rw [hpool.observed]
          simp [receiveAll]
        · have hitems := hpool.items
          rw [hchannel] at hitems
          simpa [List.append_assoc] using hitems

theorem Draining.run (hcontinue : ∀ observed item, (onItem observed item).2 = true)
    {outcomes : List (List (α ⊕ β))} {start : σ} (schedule : List Event) {log : List α}
    {pool : Pool α β σ} (hpool : Draining onItem outcomes start log pool) :
    ∃ log', Draining onItem outcomes start log' (FanIn.run onItem pool schedule) := by
  induction schedule generalizing log pool with
  | nil => exact ⟨log, hpool⟩
  | cons event rest ih =>
      obtain ⟨log', hstep⟩ := hpool.step hcontinue event
      exact ih hstep

theorem Worker.pending_eq_nil {worker : Worker α β} (hrunning : worker.stopped = false)
    (hremaining : worker.remaining = 0) : worker.pending = [] := by
  rw [remaining, hrunning, if_neg (by simp)] at hremaining
  exact List.length_eq_zero_iff.mp (by omega)

/-- When nobody refuses, every schedule delivers every item exactly once and
keeps every failure. -/
theorem settle_delivers (hcontinue : ∀ observed item, (onItem observed item).2 = true)
    (outcomes : List (List (α ⊕ β))) (start : σ) (schedule : List Event) :
    let pool := settle onItem (FanIn.run onItem (begin outcomes start) schedule)
    (∃ log, log.Perm (outcomes.flatMap items) ∧
        pool.observed = receiveAll onItem start log) ∧
      (pool.workers.flatMap Worker.failed).Perm (outcomes.flatMap failures) ∧
      pool.cancelled = false ∧ ∀ worker ∈ pool.workers, worker.stopped = false := by
  intro pool
  obtain ⟨log, hrun⟩ := (draining_begin outcomes start).run hcontinue schedule
  obtain ⟨log, hworked⟩ := hrun.run hcontinue _
  obtain ⟨log, hsettled⟩ := hworked.run hcontinue _
  have hpool : Draining onItem outcomes start log pool := hsettled
  obtain ⟨hfinished, hchannel⟩ := settle_finished onItem
    (FanIn.run onItem (begin outcomes start) schedule)
  have hpending : ∀ worker ∈ pool.workers, worker.pending = [] := fun worker hworker =>
    Worker.pending_eq_nil (hpool.running worker hworker) (hfinished worker hworker)
  refine ⟨⟨log, ?_, hpool.observed⟩, ?_, hpool.cancelled, hpool.running⟩
  · have hitems := hpool.items
    have hnone : pool.workers.flatMap (fun worker => items worker.pending) = [] := by
      rw [List.flatMap_eq_nil_iff]
      intro worker hworker
      rw [hpending worker hworker]
      rfl
    rwa [hchannel hpool.receiving, hnone, List.append_nil, List.append_nil] at hitems
  · refine List.Perm.trans (List.Perm.of_eq ?_) hpool.failures
    apply List.flatMap_congr
    intro worker hworker
    rw [hpending worker hworker]
    exact (List.append_nil _).symm

end Draining

section Watching

/-- Accepting a good item keeps `holds`, and refusing one leaves `refused`. -/
structure Watches (onItem : σ → α → σ × Bool) (good : α → Prop) (holds refused : σ → Prop) :
    Prop where
  accepts : ∀ observed item, good item → holds observed →
    (onItem observed item).2 = true → holds (onItem observed item).1
  refuses : ∀ observed item, good item → holds observed →
    (onItem observed item).2 = false → refused (onItem observed item).1

/-- Every item that is sent or still pending is good. -/
structure GoodItems (good : α → Prop) (pool : Pool α β σ) : Prop where
  channel : ∀ item ∈ pool.channel, good item
  pending : ∀ worker ∈ pool.workers, ∀ item ∈ items worker.pending, good item

/-- The callback has accepted every item so far. -/
structure Accepting (holds : σ → Prop) (pool : Pool α β σ) : Prop where
  receiving : pool.receiving = true
  cancelled : pool.cancelled = false
  running : ∀ worker ∈ pool.workers, worker.stopped = false
  holds : holds pool.observed

/-- The callback has refused the last item that it received. -/
structure Refusing (refused : σ → Prop) (pool : Pool α β σ) : Prop where
  receiving : pool.receiving = false
  cancelled : pool.cancelled = true
  refused : refused pool.observed

variable {onItem} {good : α → Prop} {holds refused : σ → Prop}

/-- A callback that never refuses leaves no refusal. -/
theorem Watches.of_continues (hwatches : Watches onItem good holds refused)
    (hcontinue : ∀ observed item, (onItem observed item).2 = true) :
    Watches onItem good holds fun _ => False := by
  refine ⟨hwatches.accepts, ?_⟩
  intro observed item _ _ hrefuses
  rw [hcontinue] at hrefuses
  cases hrefuses

/-- What a worker sends, and what it has left, was pending. -/
theorem Worker.advance_pending (worker : Worker α β) (cancelled receiving : Bool) :
    (∀ item ∈ (worker.advance cancelled receiving).2, item ∈ FanIn.items worker.pending) ∧
      ∀ item ∈ FanIn.items (worker.advance cancelled receiving).1.pending,
        item ∈ FanIn.items worker.pending := by
  obtain ⟨pending, reported, failed, stopped, sent⟩ := worker
  unfold advance
  split
  · simp
  · split
    · simp
    · rcases pending with _ | ⟨item | failure, rest⟩
      · simp
      · have hrest : ∀ other ∈ FanIn.items rest,
            other ∈ FanIn.items (.inl item :: rest : List (α ⊕ β)) :=
          fun _ hother => List.mem_cons_of_mem item hother
        simp only
        split
        · exact ⟨by simp, hrest⟩
        · exact ⟨by simp [FanIn.items], hrest⟩
      · simp [FanIn.items]

theorem GoodItems.step {pool : Pool α β σ} (hpool : GoodItems good pool) (event : Event) :
    GoodItems good (FanIn.step onItem pool event) := by
  cases event with
  | work index fresh =>
      simp only [FanIn.step]
      split
      · exact hpool
      · rename_i worker hworker
        have hgood := hpool.pending worker (List.mem_of_getElem? hworker)
        obtain ⟨hsent, hleft⟩ := worker.advance_pending (pool.cancelled && fresh)
          pool.receiving
        refine ⟨?_, ?_⟩
        · intro item hitem
          rcases List.mem_append.mp hitem with hold | hnew
          · exact hpool.channel item hold
          · exact hgood item (hsent item hnew)
        · intro other hother item hitem
          rcases List.mem_or_eq_of_mem_set hother with hold | rfl
          · exact hpool.pending other hold item hitem
          · exact hgood item (hleft item hitem)
  | receive =>
      simp only [FanIn.step]
      split
      · split
        · exact hpool
        · rename_i item rest hchannel
          refine ⟨?_, hpool.pending⟩
          intro other hother
          exact hpool.channel other (hchannel ▸ List.mem_cons_of_mem _ hother)
      · exact hpool

theorem Accepting.step (hwatches : Watches onItem good holds refused) {pool : Pool α β σ}
    (hgood : GoodItems good pool) (hpool : Accepting holds pool) (event : Event) :
    Accepting holds (FanIn.step onItem pool event) ∨
      Refusing refused (FanIn.step onItem pool event) := by
  cases event with
  | work index fresh =>
      left
      simp only [FanIn.step]
      split
      · exact hpool
      · rename_i worker hworker
        refine ⟨hpool.receiving, hpool.cancelled, ?_, hpool.holds⟩
        intro other hother
        rcases List.mem_or_eq_of_mem_set hother with hold | rfl
        · exact hpool.running other hold
        · rw [hpool.cancelled, Bool.false_and, hpool.receiving]
          exact (Worker.advance_running
            (hpool.running worker (List.mem_of_getElem? hworker))).1
  | receive =>
      simp only [FanIn.step, hpool.receiving, if_true]
      split
      · exact Or.inl hpool
      · rename_i item rest hchannel
        have hitem : good item := hgood.channel item (hchannel ▸ List.mem_cons_self)
        cases hanswer : (onItem pool.observed item).2 with
        | true =>
            refine Or.inl ⟨rfl, ?_, hpool.running, ?_⟩
            · simp [hpool.cancelled]
            · exact hwatches.accepts _ _ hitem hpool.holds hanswer
        | false =>
            refine Or.inr ⟨rfl, by simp, ?_⟩
            exact hwatches.refuses _ _ hitem hpool.holds hanswer

/-- A dropped receiver receives nothing. -/
theorem Refusing.step {pool : Pool α β σ} (hpool : Refusing refused pool)
    (event : Event) : Refusing refused (FanIn.step onItem pool event) := by
  cases event with
  | work index fresh =>
      simp only [FanIn.step]
      split
      · exact hpool
      · exact ⟨hpool.receiving, hpool.cancelled, hpool.refused⟩
  | receive =>
      rw [FanIn.step, if_neg (by simp [hpool.receiving])]
      exact hpool

theorem watched_run (hwatches : Watches onItem good holds refused) (schedule : List Event)
    {pool : Pool α β σ} (hgood : GoodItems good pool)
    (hpool : Accepting holds pool ∨ Refusing refused pool) :
    GoodItems good (run onItem pool schedule) ∧
      (Accepting holds (run onItem pool schedule) ∨
        Refusing refused (run onItem pool schedule)) := by
  induction schedule generalizing pool with
  | nil => exact ⟨hgood, hpool⟩
  | cons event rest ih =>
      apply ih (hgood.step event)
      rcases hpool with haccepting | hrefusing
      · exact haccepting.step hwatches hgood event
      · exact Or.inr (hrefusing.step event)

/-- Whatever the schedule, the callback has accepted every item that it was
given, or it was given none after the one that it refused. -/
theorem settle_watched (hwatches : Watches onItem good holds refused)
    {outcomes : List (List (α ⊕ β))}
    (hgood : ∀ pending ∈ outcomes, ∀ item ∈ items pending, good item) {start : σ}
    (hstart : holds start) (schedule : List Event) :
    let pool := settle onItem (run onItem (begin outcomes start) schedule)
    Accepting holds pool ∨ Refusing refused pool := by
  intro pool
  have hbegin : Accepting holds (begin outcomes start) :=
    ⟨rfl, rfl, by simp [begin], hstart⟩
  have hitems : GoodItems good (begin outcomes start) := by
    refine ⟨by simp [begin], ?_⟩
    intro worker hworker item hitem
    obtain ⟨pending, hpending, rfl⟩ := List.mem_map.mp hworker
    exact hgood pending hpending item hitem
  obtain ⟨hitems, hran⟩ := watched_run hwatches schedule hitems (Or.inl hbegin)
  obtain ⟨hitems, hworked⟩ := watched_run hwatches _ hitems hran
  exact (watched_run hwatches _ hitems hworked).2

end Watching

section Obliging

/-- The same callback, except that it never refuses. -/
def obliging (onItem : σ → α → σ × Bool) : σ → α → σ × Bool :=
  fun observed item => ((onItem observed item).1, true)

variable {onItem} {pool : Pool α β σ}

theorem cancelled_step (hcancelled : pool.cancelled = true) (event : Event) :
    (step onItem pool event).cancelled = true := by
  cases event with
  | work index fresh =>
      simp only [step]
      split
      · exact hcancelled
      · exact hcancelled
  | receive =>
      simp only [step]
      split
      · split
        · exact hcancelled
        · simp [hcancelled]
      · exact hcancelled

theorem cancelled_run (hcancelled : pool.cancelled = true) (schedule : List Event) :
    (run onItem pool schedule).cancelled = true := by
  induction schedule generalizing pool with
  | nil => exact hcancelled
  | cons event rest ih => exact ih (cancelled_step hcancelled event)

theorem step_obliging (pool : Pool α β σ) (event : Event) :
    (step onItem pool event).cancelled = true ∨
      step onItem pool event = step (obliging onItem) pool event := by
  cases event with
  | work index fresh => exact Or.inr rfl
  | receive =>
      simp only [step, obliging]
      split
      · split
        · exact Or.inr rfl
        · rename_i item rest _
          cases hanswer : (onItem pool.observed item).2 with
          | true => exact Or.inr rfl
          | false => exact Or.inl (by simp)
      · exact Or.inr rfl

theorem run_obliging (pool : Pool α β σ) (schedule : List Event) :
    (run onItem pool schedule).cancelled = true ∨
      run onItem pool schedule = run (obliging onItem) pool schedule := by
  induction schedule generalizing pool with
  | nil => exact Or.inr rfl
  | cons event rest ih =>
      rcases @step_obliging _ _ _ onItem pool event with hcancelled | hsame
      · exact Or.inl (cancelled_run hcancelled rest)
      · have hrest := ih (step onItem pool event)
        rcases hrest with hcancelled | hrest
        · exact Or.inl hcancelled
        · right
          refine Eq.trans hrest ?_
          rw [hsame]
          rfl

/-- A pool that is not cancelled has run as if its callback never refused. -/
theorem settle_obliging (pool : Pool α β σ) :
    (settle onItem pool).cancelled = true ∨
      settle onItem pool = settle (obliging onItem) pool := by
  unfold settle
  simp only
  rcases @run_obliging _ _ _ onItem pool ((List.range pool.workers.length).flatMap
    fun index => List.replicate (pool.remaining index) (.work index true)) with
    hcancelled | hsame
  · exact Or.inl (cancelled_run hcancelled _)
  · rw [← hsame]
    exact run_obliging _ _

theorem cancelled_settle (hcancelled : pool.cancelled = true) :
    (settle onItem pool).cancelled = true :=
  cancelled_run (cancelled_run hcancelled _) _

end Obliging

section Received

variable {onItem} {measure : σ → ℕ}

/-- The items that are on their way or still pending. -/
def Pool.undelivered (pool : Pool α β σ) : ℕ :=
  pool.channel.length + (pool.workers.map fun worker => (items worker.pending).length).sum

theorem sum_map_set_le (weight : Worker α β → ℕ) {workers : List (Worker α β)} {index : ℕ}
    {worker next : Worker α β} (hworker : workers[index]? = some worker) {sent : ℕ}
    (hle : sent + weight next ≤ weight worker) :
    sent + ((workers.set index next).map weight).sum ≤ (workers.map weight).sum := by
  induction workers generalizing index with
  | nil => simp at hworker
  | cons head rest ih =>
      cases index with
      | zero =>
          obtain rfl : head = worker := by simpa using hworker
          rw [List.set_cons_zero, List.map_cons, List.map_cons, List.sum_cons, List.sum_cons]
          omega
      | succ index =>
          rw [List.getElem?_cons_succ] at hworker
          have hrest := ih hworker
          rw [List.set_cons_succ, List.map_cons, List.map_cons, List.sum_cons, List.sum_cons]
          omega

theorem Worker.length_advance_le (worker : Worker α β) (cancelled receiving : Bool) :
    (worker.advance cancelled receiving).2.length +
        (items (worker.advance cancelled receiving).1.pending).length ≤
      (items worker.pending).length := by
  obtain ⟨pending, reported, failed, stopped, sent⟩ := worker
  unfold advance
  split
  · simp
  · split
    · simp
    · rcases pending with _ | ⟨item | failure, rest⟩
      · simp
      · simp only
        split
        · simp [FanIn.items]
        · simp [FanIn.items, Nat.add_comm]
      · exact (Nat.zero_add _).le

/-- No step delivers an item twice. -/
theorem measure_step_le
    (hmeasure : ∀ observed item, measure (onItem observed item).1 = measure observed + 1)
    (pool : Pool α β σ) (event : Event) :
    measure (step onItem pool event).observed + (step onItem pool event).undelivered ≤
      measure pool.observed + pool.undelivered := by
  cases event with
  | work index fresh =>
      simp only [step]
      split
      · exact le_rfl
      · rename_i worker hworker
        have hsum := sum_map_set_le (fun worker => (items worker.pending).length) hworker
          (worker.length_advance_le (pool.cancelled && fresh) pool.receiving)
        simp only [Pool.undelivered, List.length_append]
        omega
  | receive =>
      simp only [step]
      split
      · split
        · exact le_rfl
        · rename_i item rest hchannel
          simp only [Pool.undelivered, hmeasure, hchannel, List.length_cons]
          omega
      · exact le_rfl

theorem measure_run_le
    (hmeasure : ∀ observed item, measure (onItem observed item).1 = measure observed + 1)
    (pool : Pool α β σ) (schedule : List Event) :
    measure (run onItem pool schedule).observed + (run onItem pool schedule).undelivered ≤
      measure pool.observed + pool.undelivered := by
  induction schedule generalizing pool with
  | nil => exact le_rfl
  | cons event rest ih => exact (ih _).trans (measure_step_le hmeasure pool event)

theorem measure_settle
    (hmeasure : ∀ observed item, measure (onItem observed item).1 = measure observed + 1)
    (pool : Pool α β σ) :
    measure (settle onItem pool).observed + (settle onItem pool).undelivered ≤
      measure pool.observed + pool.undelivered := by
  unfold settle
  exact (measure_run_le hmeasure _ _).trans (measure_run_le hmeasure _ _)

/-- The callback receives no more items than there are. -/
theorem measure_settle_le
    (hmeasure : ∀ observed item, measure (onItem observed item).1 = measure observed + 1)
    (outcomes : List (List (α ⊕ β))) (start : σ) (schedule : List Event) :
    measure (settle onItem (run onItem (begin outcomes start) schedule)).observed ≤
      measure start + (outcomes.map fun pending => (items pending).length).sum := by
  have hbegin : (begin outcomes start).undelivered =
      (outcomes.map fun pending => (items pending).length).sum := by
    simp [Pool.undelivered, begin, List.map_map, Function.comp_def]
  have hran := measure_run_le hmeasure (begin outcomes start) schedule
  have hsettled := measure_settle hmeasure (run onItem (begin outcomes start) schedule)
  rw [hbegin] at hran
  exact (Nat.le_add_right _ _).trans (hsettled.trans hran)

end Received

end FanIn
