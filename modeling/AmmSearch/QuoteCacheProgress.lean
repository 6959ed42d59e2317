/-
The callers that wait for a quote.  They sleep on the condition variable `ready`, and
every critical section that changes a mark wakes them all.  So whoever sleeps waits for
a key that some call is still quoting, and without invalidations and panics every call
returns, whatever the schedule.
-/
import AmmSearch.QuoteCacheInvariant
import AmmSearch.Transitions
import Mathlib.Data.Finset.Card

open FiniteMap

namespace AmmSearch

/-- A run with the callers that sleep on `ready`. -/
structure CondvarRun where
  run : CacheRun
  asleep : Finset ℕ

namespace CondvarRun

def initial : CondvarRun := ⟨.initial, ∅⟩

/-- Who sleeps after a critical section: `wait` puts the caller to sleep, and
`notify_all` wakes everyone. -/
def sleepers (waiting : CondvarRun) : CacheEvent → Finset ℕ
  | .call _ => waiting.asleep
  | .poll index =>
      match waiting.run.calls[index]? with
      | none => waiting.asleep
      | some call =>
          if call.phase = .polling then
            if waiting.run.cache.entries.lookup call.key = some .inFlight then
              insert index waiting.asleep
            else waiting.asleep.erase index
          else waiting.asleep
  | .quoted _ _ => waiting.asleep
  | .store index =>
      match waiting.run.calls[index]? with
      | none => waiting.asleep
      | some call =>
          match call.phase with
          | .storing _ => ∅
          | _ => waiting.asleep
  | .panic index =>
      match waiting.run.calls[index]? with
      | none => waiting.asleep
      | some call => if call.phase = .quoting then ∅ else waiting.asleep
  | .invalidate pools => if pools = [] then waiting.asleep else ∅

def step (waiting : CondvarRun) (event : CacheEvent) : CondvarRun :=
  ⟨waiting.run.step event, waiting.sleepers event⟩

/-- The sleepers along an interleaving. -/
def after (events : List CacheEvent) : CondvarRun :=
  events.foldl step initial

theorem after_append_singleton (events : List CacheEvent) (event : CacheEvent) :
    after (events ++ [event]) = (after events).step event := by
  simp [after, List.foldl_append]

theorem run_after (events : List CacheEvent) : (after events).run = CacheRun.run events := by
  induction events using List.reverseRecOn with
  | nil => rfl
  | append_singleton events event ih =>
      rw [after_append_singleton, CacheRun.run_append_singleton, ← ih]
      rfl

/-- A sleeper waits for a key that is in flight: no wake-up is lost. -/
def Awaits (waiting : CondvarRun) : Prop :=
  ∀ index ∈ waiting.asleep, ∃ call, waiting.run.calls[index]? = some call ∧
    call.phase = .polling ∧ waiting.run.cache.entries.lookup call.key = some .inFlight

variable {waiting : CondvarRun}

/-- A step on one call that leaves the marks in flight keeps the other sleepers. -/
theorem Awaits.update (hawaits : waiting.Awaits) {next : CacheRun} (index : ℕ)
    {updated : QuoteCall} {asleep : Finset ℕ}
    (hflight : ∀ key, waiting.run.cache.entries.lookup key = some .inFlight →
      next.cache.entries.lookup key = some .inFlight)
    (hcalls : next.calls = waiting.run.calls.set index updated)
    (hasleep : ∀ other ∈ asleep, other ∈ waiting.asleep ∧ other ≠ index) :
    Awaits ⟨next, asleep⟩ := by
  intro other hother
  obtain ⟨hbefore, hne⟩ := hasleep other hother
  obtain ⟨call, hcall, hphase, hkey⟩ := hawaits other hbefore
  refine ⟨call, ?_, hphase, hflight call.key hkey⟩
  simp only [hcalls]
  rw [List.getElem?_set_ne hne.symm]
  exact hcall

/-- Whoever has left the loop does not sleep. -/
theorem Awaits.ne (hawaits : waiting.Awaits) {index other : ℕ} {call : QuoteCall}
    (hcall : waiting.run.calls[index]? = some call) (hphase : call.phase ≠ .polling)
    (hother : other ∈ waiting.asleep) : other ≠ index := by
  rintro rfl
  obtain ⟨found, hfound, hpolling, _⟩ := hawaits other hother
  rw [hcall, Option.some.injEq] at hfound
  exact hphase (hfound ▸ hpolling)

theorem awaits_empty (run : CacheRun) : Awaits ⟨run, ∅⟩ := by
  intro index hindex
  cases hindex

/-- A poll puts its own caller to sleep and nobody else. -/
theorem Awaits.poll (hawaits : waiting.Awaits) {index : ℕ} {call : QuoteCall}
    (hcall : waiting.run.calls[index]? = some call) (hphase : call.phase = .polling) :
    Awaits ⟨waiting.run.pollCall index call,
      if waiting.run.cache.entries.lookup call.key = some .inFlight then
        insert index waiting.asleep
      else waiting.asleep.erase index⟩ := by
  cases hlookup : waiting.run.cache.entries.lookup call.key with
  | none =>
      rw [if_neg (by simp)]
      refine hawaits.update index ?_ (by
        simp only [CacheRun.pollCall, SharedQuoteCache.poll, hlookup, CacheRun.update]
        rfl) fun other hother => (Finset.mem_erase.mp hother).symm
      intro key hkey
      have hne : key ≠ call.key := by
        rintro rfl
        rw [hlookup] at hkey
        cases hkey
      simp [CacheRun.pollCall, SharedQuoteCache.poll, hlookup, CacheRun.update, hne, hkey]
  | some state =>
      cases state with
      | inFlight =>
          rw [if_pos rfl]
          simp only [CacheRun.pollCall, SharedQuoteCache.poll, hlookup]
          intro other hother
          rcases Finset.mem_insert.mp hother with rfl | hbefore
          · exact ⟨call, hcall, hphase, hlookup⟩
          · exact hawaits other hbefore
      | ready entry =>
          rw [if_neg (by simp)]
          refine hawaits.update index ?_ (by
            simp only [CacheRun.pollCall, SharedQuoteCache.poll, hlookup, CacheRun.update]
            rfl) fun other hother => (Finset.mem_erase.mp hother).symm
          intro key hkey
          simp [CacheRun.pollCall, SharedQuoteCache.poll, hlookup, CacheRun.update, hkey]

theorem Awaits.step (hawaits : waiting.Awaits) (event : CacheEvent) :
    (waiting.step event).Awaits := by
  unfold CondvarRun.step
  cases event with
  | call key =>
      intro index hindex
      obtain ⟨call, hcall, hphase, hkey⟩ := hawaits index hindex
      refine ⟨call, ?_, hphase, hkey⟩
      have hlt : index < waiting.run.calls.length := (List.getElem?_eq_some_iff.mp hcall).1
      exact (List.getElem?_append_left hlt).trans hcall
  | poll index =>
      cases hcall : waiting.run.calls[index]? with
      | none =>
          simp only [sleepers, CacheRun.step, hcall]
          exact hawaits
      | some call =>
          simp only [sleepers, CacheRun.step, hcall]
          by_cases hphase : call.phase = .polling
          · simp only [if_pos hphase]
            exact hawaits.poll hcall hphase
          · simp only [if_neg hphase]
            exact hawaits
  | quoted index entry =>
      simp only [sleepers, CacheRun.step]
      split
      · exact hawaits
      · rename_i call hcall
        split
        · rename_i hphase
          refine hawaits.update index ?_ rfl ?_
          · exact fun _ hkey => hkey
          · exact fun other hother => ⟨hother, hawaits.ne hcall (by simp [hphase]) hother⟩
        · exact hawaits
  | store index =>
      cases hcall : waiting.run.calls[index]? with
      | none =>
          simp only [sleepers, CacheRun.step, hcall]
          exact hawaits
      | some call =>
          cases hphase : call.phase with
          | storing entry =>
              simp only [sleepers, CacheRun.step, hcall, hphase]
              exact awaits_empty _
          | polling | quoting | panicked | returned =>
              simp only [sleepers, CacheRun.step, hcall, hphase]
              exact hawaits
  | panic index =>
      cases hcall : waiting.run.calls[index]? with
      | none =>
          simp only [sleepers, CacheRun.step, hcall]
          exact hawaits
      | some call =>
          simp only [sleepers, CacheRun.step, hcall]
          by_cases hphase : call.phase = .quoting
          · simp only [if_pos hphase]
            exact awaits_empty _
          · simp only [if_neg hphase]
            exact hawaits
  | invalidate pools =>
      simp only [sleepers]
      split
      · rename_i hnone
        subst hnone
        intro index hindex
        obtain ⟨call, hcall, hphase, hkey⟩ := hawaits index hindex
        refine ⟨CacheRun.overtake [] call, ?_, hphase, hkey⟩
        simp [CacheRun.step, hcall]
      · exact awaits_empty _

theorem awaits_after (events : List CacheEvent) : (after events).Awaits := by
  induction events using List.reverseRecOn with
  | nil => exact awaits_empty _
  | append_singleton events event ih =>
      rw [after_append_singleton]
      exact ih.step event

/-- The event is a step of a call that is awake. -/
def GoesOn (waiting : CondvarRun) : CacheEvent → Prop
  | .poll index => index ∉ waiting.asleep ∧
      ∃ call, waiting.run.calls[index]? = some call ∧ call.phase = .polling
  | .quoted index _ =>
      ∃ call, waiting.run.calls[index]? = some call ∧ call.phase = .quoting
  | .store index => ∃ call entry,
      waiting.run.calls[index]? = some call ∧ call.phase = .storing entry
  | .call _ | .panic _ | .invalidate _ => False

/-- The steps a call has before it, sleep apart. -/
def stepsLeft (call : QuoteCall) : ℕ :=
  match call.phase with
  | .polling => 3
  | .quoting => 2
  | .storing _ => 1
  | .returned _ _ | .panicked => 0

/-- A bound on the steps of the calls: between two steps that bring a call further, each
caller can fall asleep once. -/
def work (waiting : CondvarRun) : ℕ :=
  (waiting.run.calls.map stepsLeft).sum * (waiting.run.calls.length + 1) +
    (Finset.range waiting.run.calls.length \ waiting.asleep).card

theorem sum_set {calls : List QuoteCall} {index : ℕ} {call : QuoteCall}
    (hcall : calls[index]? = some call) (updated : QuoteCall) :
    ((calls.set index updated).map stepsLeft).sum + stepsLeft call =
      (calls.map stepsLeft).sum + stepsLeft updated := by
  induction calls generalizing index with
  | nil => simp at hcall
  | cons head rest ih =>
      cases index with
      | zero =>
          obtain rfl := Option.some.inj hcall
          simp only [List.set_cons_zero, List.map_cons, List.sum_cons]
          omega
      | succ index =>
          have hrest := ih hcall
          simp only [List.set_cons_succ, List.map_cons, List.sum_cons]
          omega

/-- Bringing one call further is worth more than all that sleep can cost. -/
theorem work_update {next : CacheRun} {index : ℕ} {call : QuoteCall} (updated : QuoteCall)
    {asleep : Finset ℕ} (hcall : waiting.run.calls[index]? = some call)
    (hcalls : next.calls = waiting.run.calls.set index updated)
    (hless : stepsLeft updated < stepsLeft call) : work ⟨next, asleep⟩ < waiting.work := by
  have hsum := sum_set hcall updated
  have hcard := Finset.card_le_card
    (Finset.sdiff_subset (s := Finset.range waiting.run.calls.length) (t := asleep))
  rw [Finset.card_range] at hcard
  simp only [work, hcalls, List.length_set]
  obtain ⟨gap, hgap⟩ := Nat.exists_eq_add_of_lt
    (show ((waiting.run.calls.set index updated).map stepsLeft).sum <
      (waiting.run.calls.map stepsLeft).sum by omega)
  rw [hgap, Nat.add_mul, Nat.add_mul]
  omega

theorem work_step {event : CacheEvent} (hgoes : waiting.GoesOn event) :
    (waiting.step event).work < waiting.work := by
  cases event with
  | call | panic | invalidate => exact hgoes.elim
  | poll index =>
      obtain ⟨hawake, call, hcall, hphase⟩ := hgoes
      simp only [step, sleepers, CacheRun.step, hcall, if_pos hphase]
      cases hlookup : waiting.run.cache.entries.lookup call.key with
      | none =>
          refine work_update { call with phase := .quoting, miss := true } hcall
            ?_ ?_
          · simp only [CacheRun.pollCall, SharedQuoteCache.poll, hlookup, CacheRun.update]
          · simp [stepsLeft, hphase]
      | some state =>
          cases state with
          | inFlight =>
              have hindex : index ∈ Finset.range waiting.run.calls.length \ waiting.asleep :=
                Finset.mem_sdiff.mpr
                  ⟨Finset.mem_range.mpr (List.getElem?_eq_some_iff.mp hcall).1, hawake⟩
              have herase := Finset.card_erase_lt_of_mem hindex
              rw [← Finset.sdiff_insert] at herase
              simp only [if_pos, CacheRun.pollCall, SharedQuoteCache.poll, hlookup, work]
              omega
          | ready entry =>
              refine work_update { call with
                phase := .returned entry ((waiting.run.owner.lookup call.key).getD index) }
                hcall ?_ ?_
              · simp only [CacheRun.pollCall, SharedQuoteCache.poll, hlookup, CacheRun.update]
              · simp [stepsLeft, hphase]
  | quoted index entry =>
      obtain ⟨call, hcall, hphase⟩ := hgoes
      simp only [step, sleepers, CacheRun.step, hcall, if_pos hphase]
      exact work_update { call with phase := .storing entry } hcall rfl
        (by simp [stepsLeft, hphase])
  | store index =>
      obtain ⟨call, entry, hcall, hphase⟩ := hgoes
      simp only [step, sleepers, CacheRun.step, hcall, hphase]
      exact work_update { call with phase := .returned entry index } hcall rfl
        (by simp [stepsLeft, hphase])

/-- Steps of calls that are awake, one after the other. -/
def Schedule (waiting : CondvarRun) (events : List CacheEvent) : Prop :=
  Transitions.Along (fun (state : CondvarRun) event => some (state.step event)) GoesOn waiting
    events

/-- Every call has returned, with the one quote of its key. -/
structure AllReturned (waiting : CondvarRun) : Prop where
  returned : ∀ call ∈ waiting.run.calls, ∃ entry source, call.phase = .returned entry source
  once : waiting.run.AnsweredOnce

/-- How the calls get their answers.  Once the owner of a key has stored, the next poll of
every other caller returns that entry and nobody sleeps for it.  No schedule goes on for
longer than the work allows, and one that cannot go on has answered every call. -/
structure Progresses (waiting : CondvarRun) : Prop where
  answered : ∀ (owner index : ℕ) started call entry, waiting.run.calls[owner]? = some started →
    started.miss = true → started.phase = .returned entry owner →
    waiting.run.calls[index]? = some call → call.key = started.key → call.phase = .polling →
    index ∉ waiting.asleep ∧ (waiting.step (.poll index)).run.calls[index]? =
      some { call with phase := .returned entry owner }
  bounded : ∀ events, waiting.Schedule events → events.length ≤ waiting.work
  returns : ∀ events, waiting.Schedule events →
    (∀ event, ¬(events.foldl step waiting).GoesOn event) →
    AllReturned (events.foldl step waiting)
  completes : ∃ events, waiting.Schedule events ∧ AllReturned (events.foldl step waiting)

theorem transitions_run (events : List CacheEvent) :
    Transitions.run (fun (state : CondvarRun) event => some (state.step event)) waiting events =
      some (events.foldl step waiting) := by
  induction events generalizing waiting with
  | nil => rfl
  | cons event rest ih => exact ih

theorem quiet_of_schedule {events : List CacheEvent} (hschedule : waiting.Schedule events) :
    ∀ event ∈ events, CacheRun.Quiet event := by
  induction events generalizing waiting with
  | nil => simp
  | cons event rest ih =>
      have hfirst : CacheRun.Quiet event := by
        cases event with
        | panic | invalidate => exact hschedule.1.elim
        | call | poll | quoted | store => trivial
      exact List.forall_mem_cons.mpr ⟨hfirst, ih (hschedule.2 _ rfl)⟩

/-- Where no call can go on, nobody is quoting, so nobody waits. -/
theorem returned_of_quotedOnce (hawaits : waiting.Awaits)
    (honce : ∀ key, waiting.run.QuotedOnce key)
    (hstuck : ∀ event, ¬waiting.GoesOn event) :
    ∀ call ∈ waiting.run.calls, ∃ entry source, call.phase = .returned entry source := by
  intro call hmem
  obtain ⟨index, hcall⟩ := List.mem_iff_getElem?.mp hmem
  have hidle : ∀ (owner : ℕ) started, waiting.run.calls[owner]? = some started →
      ¬(started.phase = .quoting ∨ ∃ entry, started.phase = .storing entry) := by
    rintro owner started hstarted (hquoting | ⟨entry, hstoring⟩)
    · exact hstuck (.quoted owner (.ok 0)) ⟨started, hstarted, hquoting⟩
    · exact hstuck (.store owner) ⟨started, entry, hstarted, hstoring⟩
  have hnotWaiting : ¬CacheRun.Waiting call := by
    rintro ⟨hphase, _⟩
    have hasleep : index ∈ waiting.asleep := by
      by_contra hawake
      exact hstuck (.poll index) ⟨hawake, call, hcall, hphase⟩
    obtain ⟨found, hfound, _, hflight⟩ := hawaits index hasleep
    cases honce found.key with
    | absent hlookup => rw [hflight] at hlookup; cases hlookup
    | ready _ _ _ hlookup => rw [hflight] at hlookup; cases hlookup
    | inFlight owner started _ hstarted _ _ hquoting => exact hidle owner started hstarted hquoting
  cases honce call.key with
  | absent _ hcalls => exact absurd (hcalls index call hcall rfl) hnotWaiting
  | inFlight owner started _ hstarted _ _ hquoting =>
      exact absurd hquoting (hidle owner started hstarted)
  | ready owner started entry _ _ hstarted _ _ hphase hcalls =>
      by_cases hsame : index = owner
      · rw [hsame, hstarted, Option.some.injEq] at hcall
        exact ⟨entry, owner, hcall ▸ hphase⟩
      · obtain hwaiting | ⟨_, hanswered⟩ := hcalls index call hsame hcall rfl
        · exact absurd hwaiting hnotWaiting
        · exact ⟨entry, owner, hanswered⟩

/-- The answer of the owner is there for every later poll of its key. -/
theorem poll_ready (hawaits : waiting.Awaits) {owner index : ℕ} {started call : QuoteCall}
    {entry : Except Text U256} (honce : waiting.run.QuotedOnce started.key)
    (hstarted : waiting.run.calls[owner]? = some started) (hmiss : started.miss = true)
    (hreturned : started.phase = .returned entry owner)
    (hcall : waiting.run.calls[index]? = some call) (hkey : call.key = started.key)
    (hphase : call.phase = .polling) :
    index ∉ waiting.asleep ∧ (waiting.step (.poll index)).run.calls[index]? =
      some { call with phase := .returned entry owner } := by
  have hready : waiting.run.cache.entries.lookup call.key = some (.ready entry) ∧
      waiting.run.owner.lookup call.key = some owner := by
    rw [hkey]
    cases honce with
    | absent _ hcalls =>
        have hwaiting := hcalls owner started hstarted rfl
        rw [hwaiting.2] at hmiss
        cases hmiss
    | inFlight other quoting _ hquoting _ _ hphase hcalls =>
        by_cases hsame : owner = other
        · rw [← hsame, hstarted, Option.some.injEq] at hquoting
          rw [← hquoting, hreturned] at hphase
          simp at hphase
        · rw [(hcalls owner started hsame hstarted rfl).2] at hmiss
          cases hmiss
    | ready other quoted found hlookup howner hquoted _ _ hphase hcalls =>
        by_cases hsame : owner = other
        · rw [← hsame, hstarted, Option.some.injEq] at hquoted
          rw [← hquoted, hreturned, CallPhase.returned.injEq] at hphase
          exact ⟨hphase.1 ▸ hlookup, hsame ▸ howner⟩
        · obtain hwaiting | hanswered := hcalls owner started hsame hstarted rfl
          · rw [hwaiting.2] at hmiss
            cases hmiss
          · rw [hanswered.1] at hmiss
            cases hmiss
  refine ⟨fun hasleep => ?_, ?_⟩
  · obtain ⟨found, hfound, _, hflight⟩ := hawaits index hasleep
    rw [hcall, Option.some.injEq] at hfound
    rw [← hfound, hready.1] at hflight
    cases hflight
  · have hlt : index < waiting.run.calls.length := (List.getElem?_eq_some_iff.mp hcall).1
    simp only [step, CacheRun.step, hcall, if_pos hphase, CacheRun.pollCall,
      SharedQuoteCache.poll, hready.1, hready.2, CacheRun.update, Option.getD_some]
    exact List.getElem?_set_self hlt

theorem progresses_after (events : List CacheEvent)
    (hquiet : ∀ event ∈ events, CacheRun.Quiet event) : (after events).Progresses := by
  have hreturns : ∀ rest, (after events).Schedule rest →
      (∀ event, ¬(rest.foldl step (after events)).GoesOn event) →
      AllReturned (rest.foldl step (after events)) := by
    intro rest hschedule hstuck
    have hafter : rest.foldl step (after events) = after (events ++ rest) := by
      simp [after, List.foldl_append]
    have hlonger : ∀ event ∈ events ++ rest, CacheRun.Quiet event := by
      intro event hevent
      rcases List.mem_append.mp hevent with hearlier | hlater
      · exact hquiet event hearlier
      · exact quiet_of_schedule hschedule event hlater
    rw [hafter] at hstuck ⊢
    refine ⟨returned_of_quotedOnce (awaits_after _) (fun key => ?_) hstuck, ?_⟩
    · rw [run_after]
      exact CacheRun.quotedOnce_run _ hlonger key
    · rw [run_after]
      exact CacheRun.answeredOnce_run _ hlonger
  refine ⟨?_, ?_, hreturns, ?_⟩
  · intro owner index started call entry hstarted hmiss hreturned hcall hkey hphase
    refine poll_ready (awaits_after events) ?_ hstarted hmiss hreturned hcall hkey hphase
    rw [run_after]
    exact CacheRun.quotedOnce_run events hquiet started.key
  · intro rest hschedule
    have hbound := hschedule.length_add_le work (fun hgoes hstep => by
      obtain rfl := Option.some.inj hstep
      exact work_step hgoes) (transitions_run rest)
    omega
  · obtain ⟨rest, next, hschedule, hrun, hstuck⟩ :=
      @Transitions.Along.exists_final _ _ (fun (state : CondvarRun) event =>
        some (state.step event)) _ work (fun hgoes => ⟨_, rfl, work_step hgoes⟩) (after events)
    rw [transitions_run, Option.some.injEq] at hrun
    subst hrun
    exact ⟨rest, hschedule, hreturns rest hschedule hstuck⟩

end CondvarRun

namespace CacheRun

/-- In every interleaving the pool index files exactly the cached keys.  Without
invalidations and panics each key is quoted once, for all its callers, and every
schedule ends with all of them answered.  Each call that leaves the loop counts one
miss or one hit. -/
theorem sharedQuoteCache_consistent (events : List CacheEvent) :
    (run events).cache.Consistent ∧
      ((∀ event ∈ events, Quiet event) →
        (run events).AnsweredOnce ∧
        (run events).cache.stats.misses = (run events).calls.countP (·.miss) ∧
        (run events).cache.stats.hits = (run events).calls.countP hitOnly ∧
        (∀ call ∈ (run events).calls, call.phase = .polling → call.miss = false) ∧
        (CondvarRun.after events).Progresses) := by
  refine ⟨(filed_run events).consistent, fun hquiet => ?_⟩
  have hcounted := counted_run events
  exact ⟨answeredOnce_run events hquiet, hcounted.misses, hcounted.hits, hcounted.polling,
    CondvarRun.progresses_after events hquiet⟩

/-- A key of the pool with no address. -/
def sampleKey : HopQuoteKey :=
  { pool := .static ⟨.uniswapV2, none, []⟩, tokenIn := 1, tokenOut := 2, amountIn := 3
    simConfig := ⟨0, 0, 0⟩ }

/-- Two callers of one key: the second goes to sleep while the first quotes. -/
def sharedQuoteEvents : List CacheEvent :=
  [.call sampleKey, .call sampleKey, .poll 0, .poll 1]

/-- The first stores and so wakes the second. -/
def sharedQuoteAnswer : List CacheEvent :=
  [.quoted 0 (.ok 7), .store 0, .poll 1]

theorem sharedQuoteCache_consistent_shared :
    (CondvarRun.after sharedQuoteEvents).asleep = {1} ∧
      (CondvarRun.after sharedQuoteEvents).Progresses ∧
      (run (sharedQuoteEvents ++ sharedQuoteAnswer)).calls.map (·.phase) =
        [.returned (.ok 7) 0, .returned (.ok 7) 0] ∧
      (run (sharedQuoteEvents ++ sharedQuoteAnswer)).cache.Consistent ∧
      (run (sharedQuoteEvents ++ sharedQuoteAnswer)).AnsweredOnce ∧
      (run (sharedQuoteEvents ++ sharedQuoteAnswer)).cache.stats.misses = 1 ∧
      (run (sharedQuoteEvents ++ sharedQuoteAnswer)).cache.stats.hits = 1 := by
  have hprogresses := ((sharedQuoteCache_consistent sharedQuoteEvents).2 (by decide)).2.2.2.2
  obtain ⟨hconsistent, hquiet⟩ :=
    sharedQuoteCache_consistent (sharedQuoteEvents ++ sharedQuoteAnswer)
  obtain ⟨honce, hmisses, hhits, _⟩ := hquiet (by decide)
  have hcalls : (run (sharedQuoteEvents ++ sharedQuoteAnswer)).calls =
      [⟨sampleKey, .returned (.ok 7) 0, true, false⟩,
        ⟨sampleKey, .returned (.ok 7) 0, false, false⟩] := by
    decide
  rw [hcalls] at hmisses hhits
  exact ⟨by decide, hprogresses, by rw [hcalls]; rfl, hconsistent, honce, hmisses, hhits⟩

end CacheRun

end AmmSearch
