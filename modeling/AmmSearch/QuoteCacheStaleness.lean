/-
Quotes that an invalidation has overtaken.  A call that was quoting when its pool
was invalidated still finds a mark in flight if another call has started on the
key since, and stores its result over that mark.  Readers get a quote older than
an invalidation they started after in exactly the runs that contain such a store.
-/
import AmmSearch.QuoteCacheProgress
import Mathlib.Tactic.IntervalCases

open FiniteMap

namespace AmmSearch

namespace CacheRun

/-- No call on a pool that starts after an invalidation of the pool returns the
result of a quote started before it. -/
def NoStaleQuote (events : List CacheEvent) : Prop :=
  ∀ before pools after, events = before ++ .invalidate pools :: after →
    ∀ (index : ℕ) call entry source, (run before).calls.length ≤ index →
      (run events).calls[index]? = some call → call.key.logicalPool ∈ pools →
      call.phase = .returned entry source →
      ∀ started, (run before).calls[source]? = some started → started.miss = false

/-- Every quote stored over a mark in flight was started after the last
invalidation of its pool. -/
def StoresFresh (events : List CacheEvent) : Prop :=
  ∀ before index after, events = before ++ .store index :: after →
    ∀ call entry, (run before).calls[index]? = some call →
      call.phase = .storing entry →
      (run before).cache.entries.lookup call.key = some .inFlight →
      call.overtaken = false

/-- The pools an event invalidates. -/
def invalidated : CacheEvent → List PoolKey
  | .invalidate pools => pools
  | _ => []

/-- What `event` can do to a call: its key, what it has started and what it has
returned stay, and only an invalidation overtakes it. -/
structure Advances (event : CacheEvent) (before after : QuoteCall) : Prop where
  key : after.key = before.key
  miss : before.miss = true → after.miss = true
  returned : ∀ entry source, before.phase = .returned entry source →
    after.phase = .returned entry source
  overtaken : after.overtaken = (before.overtaken ||
    (before.miss && decide (before.key.logicalPool ∈ invalidated event)))

theorem Advances.refl {event : CacheEvent} (hevent : invalidated event = [])
    (call : QuoteCall) : Advances event call call :=
  ⟨rfl, id, fun _ _ => id, by simp [hevent]⟩

theorem Advances.of_phase {event : CacheEvent} (hevent : invalidated event = [])
    {call : QuoteCall} {phase : CallPhase}
    (hphase : ∀ entry source, call.phase ≠ .returned entry source) :
    Advances event call { call with phase := phase } :=
  ⟨rfl, id, fun entry source hreturned => absurd hreturned (hphase entry source),
    by simp [hevent]⟩

theorem advances_update {run : CacheRun} {event : CacheEvent} {index : ℕ}
    {call updated : QuoteCall} (hevent : invalidated event = [])
    (hcall : run.calls[index]? = some call) (hupdated : Advances event call updated)
    {other : ℕ} {later : QuoteCall}
    (hlater : (run.update index updated).calls[other]? = some later) :
    ∃ found, run.calls[other]? = some found ∧ Advances event found later := by
  by_cases hother : other = index
  · subst hother
    rw [getElem?_update_self hcall, Option.some.injEq] at hlater
    exact ⟨call, hcall, hlater ▸ hupdated⟩
  · rw [getElem?_update_ne run hother] at hlater
    exact ⟨later, hlater, .refl hevent later⟩

/-- The calls after an event are the calls before it, advanced, and the new one. -/
theorem advances_step (run : CacheRun) (event : CacheEvent) {index : ℕ} {later : QuoteCall}
    (hlater : (run.step event).calls[index]? = some later) :
    (∃ call, run.calls[index]? = some call ∧ Advances event call later) ∨
      (∃ key, event = .call key ∧ later = { key := key }) := by
  have hmove := moves_step run event
  generalize run.step event = next at hlater hmove
  cases hmove with
  | idle hevent =>
      have hnone : invalidated event = [] := by
        cases event with
        | invalidate pools => exact absurd rfl (hevent pools)
        | _ => rfl
      exact Or.inl ⟨later, hlater, .refl hnone later⟩
  | call key =>
      simp only [List.getElem?_append] at hlater
      split at hlater
      · exact Or.inl ⟨later, hlater, .refl rfl later⟩
      · have hnew := List.mem_of_getElem? hlater
        exact Or.inr ⟨key, rfl, List.mem_singleton.mp hnew⟩
  | hit hpolled hphase _ =>
      refine Or.inl (advances_update rfl ?_ (Advances.of_phase rfl ?_) hlater)
      · exact hpolled
      · simp [hphase]
  | wait => exact Or.inl ⟨later, hlater, .refl rfl later⟩
  | @begin polled call hpolled hphase _ =>
      have hadvances : Advances (.poll polled) call
          { call with phase := .quoting, miss := true } :=
        ⟨rfl, fun _ => rfl, by simp [hphase], by simp [invalidated]⟩
      exact Or.inl (advances_update rfl hpolled hadvances hlater)
  | quoted entry hquoting hphase =>
      refine Or.inl (advances_update rfl ?_ (Advances.of_phase rfl ?_) hlater)
      · exact hquoting
      · simp [hphase]
  | publish hstoring hphase _ =>
      refine Or.inl (advances_update rfl ?_ (Advances.of_phase rfl ?_) hlater)
      · exact hstoring
      · simp [hphase]
  | discard hstoring hphase _ =>
      refine Or.inl (advances_update rfl ?_ (Advances.of_phase rfl ?_) hlater)
      · exact hstoring
      · simp [hphase]
  | panic hquoting hphase =>
      refine Or.inl (advances_update rfl ?_ (Advances.of_phase rfl ?_) hlater)
      · exact hquoting
      · simp [hphase]
  | invalidate pools =>
      rw [List.getElem?_map, Option.map_eq_some_iff] at hlater
      obtain ⟨call, hcall, rfl⟩ := hlater
      exact Or.inl ⟨call, hcall, rfl, id, fun _ _ => id, rfl⟩

theorem length_calls_step_le (run : CacheRun) (event : CacheEvent) :
    run.calls.length ≤ (run.step event).calls.length := by
  have hmove := moves_step run event
  generalize run.step event = next at hmove
  cases hmove <;> simp [update]

theorem run_append (before after : List CacheEvent) :
    run (before ++ after) = after.foldl step (run before) := by
  simp [run, List.foldl_append]

theorem length_calls_run_le (before after : List CacheEvent) :
    (run before).calls.length ≤ (run (before ++ after)).calls.length := by
  induction after using List.reverseRecOn with
  | nil => simp
  | append_singleton after event ih =>
      rw [← List.append_assoc, run_append_singleton]
      exact ih.trans (length_calls_step_le _ event)

/-- A call keeps its key through a whole run, and once overtaken stays so. -/
theorem overtaken_run (before after : List CacheEvent) {index : ℕ} {call later : QuoteCall}
    (hcall : (run before).calls[index]? = some call)
    (hlater : (run (before ++ after)).calls[index]? = some later) :
    later.key = call.key ∧ (call.overtaken = true → later.overtaken = true) := by
  induction after using List.reverseRecOn generalizing later with
  | nil =>
      rw [List.append_nil, hcall, Option.some.injEq] at hlater
      subst hlater
      exact ⟨rfl, id⟩
  | append_singleton after event ih =>
      rw [← List.append_assoc, run_append_singleton] at hlater
      have hlt : index < (run (before ++ after)).calls.length :=
        (List.getElem?_eq_some_iff.mp hcall).1.trans_le (length_calls_run_le before after)
      obtain ⟨found, hfound, hadvances⟩ | ⟨key, rfl, rfl⟩ := advances_step _ event hlater
      · obtain ⟨hkey, hovertaken⟩ := ih hfound
        refine ⟨hadvances.key.trans hkey, fun hcallOvertaken => ?_⟩
        rw [hadvances.overtaken, hovertaken hcallOvertaken, Bool.true_or]
      · -- the new call stands behind all earlier ones
        simp only [step, List.getElem?_append_left hlt] at hlater
        exact ih hlater

/-- Whatever had started on a pool when it was invalidated is overtaken. -/
theorem overtaken_of_invalidate (before after : List CacheEvent) {pools : List PoolKey}
    {index : ℕ} {call later : QuoteCall} (hcall : (run before).calls[index]? = some call)
    (hmiss : call.miss = true) (hpool : call.key.logicalPool ∈ pools)
    (hlater : (run (before ++ .invalidate pools :: after)).calls[index]? = some later) :
    later.key = call.key ∧ later.overtaken = true := by
  have hstep : (run (before ++ [.invalidate pools])).calls[index]? =
      some (overtake pools call) := by
    rw [run_append_singleton]
    simp [step, hcall]
  rw [← List.singleton_append, ← List.append_assoc] at hlater
  obtain ⟨hkey, hovertaken⟩ := overtaken_run _ after hstep hlater
  refine ⟨hkey, hovertaken ?_⟩
  simp [overtake, hmiss, hpool]

/-- A call is overtaken only by an invalidation of its pool after it has started. -/
theorem invalidate_of_overtaken (events : List CacheEvent) {index : ℕ} {call : QuoteCall}
    (hcall : (run events).calls[index]? = some call) (hovertaken : call.overtaken = true) :
    ∃ before pools after started, events = before ++ .invalidate pools :: after ∧
      (run before).calls[index]? = some started ∧ started.miss = true ∧
      call.key.logicalPool ∈ pools := by
  induction events using List.reverseRecOn generalizing call with
  | nil => simp [run, initial] at hcall
  | append_singleton events event ih =>
      rw [run_append_singleton] at hcall
      obtain ⟨found, hfound, hadvances⟩ | ⟨key, rfl, rfl⟩ := advances_step _ event hcall
      · rw [hadvances.overtaken, Bool.or_eq_true, Bool.and_eq_true, decide_eq_true_eq]
          at hovertaken
        obtain hearlier | ⟨hmiss, hpool⟩ := hovertaken
        · obtain ⟨before, pools, after, started, rfl, hstarted, hmiss, hpool⟩ :=
            ih hfound hearlier
          refine ⟨before, pools, after ++ [event], started, by simp, hstarted, hmiss, ?_⟩
          rwa [hadvances.key]
        · cases event with
          | invalidate pools =>
              exact ⟨events, pools, [], found, rfl, hfound, hmiss, hadvances.key ▸ hpool⟩
          | _ => cases hpool
      · cases hovertaken

/-- Every ready entry comes from a quote that no invalidation of its pool has
overtaken. -/
def Fresh (run : CacheRun) : Prop :=
  ∀ key entry, run.cache.entries.lookup key = some (.ready entry) →
    ∃ owner call, run.owner.lookup key = some owner ∧ run.calls[owner]? = some call ∧
      call.key = key ∧ call.overtaken = false

/-- The calls a step other than an invalidation leaves keep what has overtaken them. -/
theorem Fresh.of_step {run : CacheRun} {event : CacheEvent} {key : HopQuoteKey}
    (hpool : key.logicalPool ∉ invalidated event) {owner : ℕ}
    (howner : (run.step event).owner.lookup key = some owner) {call : QuoteCall}
    (hcall : run.calls[owner]? = some call) (hkey : call.key = key)
    (hovertaken : call.overtaken = false) :
    ∃ owner call, (run.step event).owner.lookup key = some owner ∧
      (run.step event).calls[owner]? = some call ∧ call.key = key ∧
      call.overtaken = false := by
  have hlt := (List.getElem?_eq_some_iff.mp hcall).1
  have hltStep := hlt.trans_le (length_calls_step_le run event)
  have hlater := List.getElem?_eq_getElem hltStep
  refine ⟨owner, _, howner, hlater, ?_⟩
  obtain ⟨found, hfound, hadvances⟩ | ⟨newKey, rfl, _⟩ := advances_step run event hlater
  · rw [hcall, Option.some.injEq] at hfound
    subst hfound
    refine ⟨hadvances.key.trans hkey, ?_⟩
    rw [hadvances.overtaken, hovertaken, hkey]
    simp [hpool]
  · simp only [step, List.getElem_append_left hlt]
    rw [(List.getElem?_eq_some_iff.mp hcall).2]
    exact ⟨hkey, hovertaken⟩

theorem Fresh.step {run : CacheRun} (hfresh : run.Fresh) (hfiled : run.cache.Filed)
    (event : CacheEvent)
    (hstore : ∀ index, event = .store index → ∀ call entry,
      run.calls[index]? = some call → call.phase = .storing entry →
      run.cache.entries.lookup call.key = some .inFlight → call.overtaken = false) :
    (run.step event).Fresh := by
  intro key entry hready
  -- an entry that was ready before the step keeps its owner
  have hkept : run.cache.entries.lookup key = some (.ready entry) →
      (run.step event).owner.lookup key = run.owner.lookup key →
      key.logicalPool ∉ invalidated event →
      ∃ owner call, (run.step event).owner.lookup key = some owner ∧
        (run.step event).calls[owner]? = some call ∧ call.key = key ∧
        call.overtaken = false := by
    intro hbefore hsame hpool
    obtain ⟨owner, call, howner, hcall, hkey, hovertaken⟩ := hfresh key entry hbefore
    exact Fresh.of_step hpool (hsame.trans howner) hcall hkey hovertaken
  have hmove := moves_step run event
  generalize run.step event = next at hmove hready hkept ⊢
  cases hmove with
  | idle hevent =>
      have hnone : invalidated event = [] := by
        cases event with
        | invalidate pools => exact absurd rfl (hevent pools)
        | _ => rfl
      exact hkept hready rfl (by simp [hnone])
  | call => exact hkept hready rfl (by simp [invalidated])
  | hit => exact hkept hready rfl (by simp [invalidated])
  | wait => exact hkept hready rfl (by simp [invalidated])
  | @begin index call hcall hphase habsent =>
      refine hkept ?_ rfl (by simp [invalidated])
      simp only [update, SharedQuoteCache.poll, habsent, lookup_insert_eq] at hready
      split at hready
      · cases hready
      · exact hready
  | quoted => exact hkept hready rfl (by simp [invalidated])
  | @publish index call stored hcall hphase hflight =>
      simp only [update, lookup_insert_eq] at hready hkept ⊢
      by_cases hkey : key = call.key
      · refine ⟨index, { call with phase := .returned stored index }, by simp [hkey], ?_,
          hkey.symm, ?_⟩
        · exact List.getElem?_set_self (List.getElem?_eq_some_iff.mp hcall).1
        · exact hstore index rfl call stored hcall hphase hflight
      · rw [if_neg hkey] at hready
        exact hkept hready (if_neg hkey) (by simp [invalidated])
  | discard => exact hkept hready rfl (by simp [invalidated])
  | @panic index call hcall hphase =>
      refine hkept ?_ rfl (by simp [invalidated])
      simp only [update, SharedQuoteCache.dropGuard, SharedQuoteCache.removeQuoteKeyFromPoolIndex,
        lookup_erase_eq] at hready
      split at hready
      · cases hready
      · exact hready
  | invalidate pools =>
      simp only [(hfiled.invalidatePools pools).2] at hready
      split at hready
      · cases hready
      · rename_i hpool
        exact hkept hready rfl hpool

theorem StoresFresh.of_append {before after : List CacheEvent}
    (hstores : StoresFresh (before ++ after)) : StoresFresh before := by
  intro first index rest hsplit
  subst hsplit
  exact hstores first index (rest ++ after) (by simp)

theorem StoresFresh.fresh {events : List CacheEvent} (hstores : StoresFresh events) :
    (run events).Fresh := by
  induction events using List.reverseRecOn with
  | nil =>
      intro key entry hready
      simp [run, initial, SharedQuoteCache.empty] at hready
  | append_singleton events event ih =>
      rw [run_append_singleton]
      refine (ih hstores.of_append).step (filed_run events) event ?_
      intro index hevent call entry
      exact hstores events index [] (by rw [hevent]) call entry

/-- Where the answer of a call comes from when it returns. -/
theorem returned_step (run : CacheRun) (event : CacheEvent) {index : ℕ} {later : QuoteCall}
    {entry : Except Text U256} {source : ℕ}
    (hlater : (run.step event).calls[index]? = some later)
    (hphase : later.phase = .returned entry source) :
    (∃ call, run.calls[index]? = some call ∧ call.key = later.key ∧
        call.phase = .returned entry source) ∨
      source = index ∨
      (run.owner.lookup later.key = some source ∧
        run.cache.entries.lookup later.key = some (.ready entry)) := by
  have hmove := moves_step run event
  generalize run.step event = next at hlater hmove
  -- a replaced call is the one the event is about, any other is as before
  have hsplit : ∀ {before : CacheRun} {moved : ℕ} {call updated : QuoteCall},
      before.calls = run.calls → before.calls[moved]? = some call →
      (before.update moved updated).calls[index]? = some later →
      (index = moved ∧ later = updated) ∨ run.calls[index]? = some later := by
    intro before moved call updated hbefore hcall hupdated
    by_cases hsame : index = moved
    · subst hsame
      rw [getElem?_update_self hcall, Option.some.injEq] at hupdated
      exact Or.inl ⟨rfl, hupdated.symm⟩
    · rw [getElem?_update_ne before hsame, hbefore] at hupdated
      exact Or.inr hupdated
  cases hmove with
  | idle => exact Or.inl ⟨later, hlater, rfl, hphase⟩
  | call key =>
      simp only [List.getElem?_append] at hlater
      split at hlater
      · exact Or.inl ⟨later, hlater, rfl, hphase⟩
      · have hnew := List.mem_singleton.mp (List.mem_of_getElem? hlater)
        rw [hnew] at hphase
        cases hphase
  | wait => exact Or.inl ⟨later, hlater, rfl, hphase⟩
  | @hit moved call found hcall hpolling hready =>
      obtain ⟨rfl, rfl⟩ | hbefore := hsplit rfl hcall hlater
      · simp only [CallPhase.returned.injEq] at hphase
        obtain ⟨rfl, hsource⟩ := hphase
        rcases howner : run.owner.lookup call.key with _ | owner
        · rw [howner, Option.getD_none] at hsource
          exact Or.inr (Or.inl hsource.symm)
        · rw [howner, Option.getD_some] at hsource
          subst hsource
          exact Or.inr (Or.inr ⟨rfl, hready⟩)
      · exact Or.inl ⟨later, hbefore, rfl, hphase⟩
  | begin hcall _ _ =>
      obtain ⟨rfl, rfl⟩ | hbefore := hsplit rfl hcall hlater
      · cases hphase
      · exact Or.inl ⟨later, hbefore, rfl, hphase⟩
  | quoted _ hcall _ =>
      obtain ⟨rfl, rfl⟩ | hbefore := hsplit rfl hcall hlater
      · cases hphase
      · exact Or.inl ⟨later, hbefore, rfl, hphase⟩
  | publish hcall _ _ =>
      obtain ⟨rfl, rfl⟩ | hbefore := hsplit rfl hcall hlater
      · cases hphase
        exact Or.inr (Or.inl rfl)
      · exact Or.inl ⟨later, hbefore, rfl, hphase⟩
  | discard hcall _ _ =>
      obtain ⟨rfl, rfl⟩ | hbefore := hsplit rfl hcall hlater
      · cases hphase
        exact Or.inr (Or.inl rfl)
      · exact Or.inl ⟨later, hbefore, rfl, hphase⟩
  | panic hcall _ =>
      obtain ⟨rfl, rfl⟩ | hbefore := hsplit rfl hcall hlater
      · cases hphase
      · exact Or.inl ⟨later, hbefore, rfl, hphase⟩
  | invalidate pools =>
      rw [List.getElem?_map, Option.map_eq_some_iff] at hlater
      obtain ⟨call, hcall, rfl⟩ := hlater
      exact Or.inl ⟨call, hcall, rfl, hphase⟩

theorem StoresFresh.noStaleQuote {events : List CacheEvent} (hstores : StoresFresh events) :
    NoStaleQuote events := by
  intro before pools after hsplit
  subst hsplit
  induction after using List.reverseRecOn with
  | nil =>
      -- the invalidation starts no call
      intro index call entry source hindex hcall
      rw [run_append_singleton] at hcall
      have hlt := (List.getElem?_eq_some_iff.mp hcall).1
      simp only [step, List.length_map] at hlt
      omega
  | append_singleton after event ih =>
      intro index call entry source hindex hcall hpool hphase started hstarted
      have hassoc : before ++ .invalidate pools :: (after ++ [event]) =
          (before ++ .invalidate pools :: after) ++ [event] := by simp
      rw [hassoc] at hstores hcall
      rw [run_append_singleton] at hcall
      obtain ⟨found, hfound, hkey, hreturned⟩ | rfl | ⟨howner, hready⟩ :=
        returned_step _ event hcall hphase
      · exact ih hstores.of_append index found entry source hindex hfound (hkey ▸ hpool)
          hreturned started hstarted
      · have hlt := (List.getElem?_eq_some_iff.mp hstarted).1
        omega
      · obtain ⟨owner, ownerCall, hsame, hownerCall, hownerKey, hfresh⟩ :=
          hstores.of_append.fresh call.key entry hready
        rw [howner, Option.some.injEq] at hsame
        subst hsame
        by_contra hmiss
        rw [Bool.not_eq_false] at hmiss
        have hstartedKey : ownerCall.key = started.key :=
          (overtaken_run before _ hstarted hownerCall).1
        rw [hownerKey] at hstartedKey
        obtain ⟨_, hovertaken⟩ := overtaken_of_invalidate before after hstarted hmiss
          (hstartedKey ▸ hpool) hownerCall
        rw [hfresh] at hovertaken
        cases hovertaken

/-- A new call on a ready key gets its entry. -/
theorem run_call_poll {events : List CacheEvent} {key : HopQuoteKey}
    {entry : Except Text U256} {owner : ℕ}
    (hready : (run events).cache.entries.lookup key = some (.ready entry))
    (howner : (run events).owner.lookup key = some owner) :
    (run (events ++ [.call key, .poll (run events).calls.length])).calls[
      (run events).calls.length]? =
        some { key := key, phase := .returned entry owner } := by
  rw [run_append]
  simp [step, pollCall, SharedQuoteCache.poll, hready, howner, update]

/-- The entry a store publishes over a mark in flight. -/
theorem run_store {events : List CacheEvent} {index : ℕ} {call : QuoteCall}
    {entry : Except Text U256} (hcall : (run events).calls[index]? = some call)
    (hphase : call.phase = .storing entry)
    (hflight : (run events).cache.entries.lookup call.key = some .inFlight) :
    (run (events ++ [.store index])).cache.entries.lookup call.key = some (.ready entry) ∧
      (run (events ++ [.store index])).owner.lookup call.key = some index := by
  rw [run_append_singleton]
  simp [step, hcall, hphase, storeCall, SharedQuoteCache.store, hflight, update]

/-- Invalidation is final for later readers in the runs whose stores over a mark
in flight are all fresh; a run with any other store is one that a further reader
of the key makes stale. -/
theorem noStaleQuote_iff_storesFresh (events : List CacheEvent) :
    (StoresFresh events → NoStaleQuote events) ∧
      (¬StoresFresh events → ∃ before after key, events = before ++ after ∧
        ¬NoStaleQuote (before ++ [.call key, .poll (run before).calls.length])) := by
  refine ⟨StoresFresh.noStaleQuote, fun hstale => ?_⟩
  simp only [StoresFresh, not_forall, Bool.not_eq_false] at hstale
  obtain ⟨before, index, after, rfl, call, entry, hcall, hphase, hflight, hovertaken⟩ := hstale
  refine ⟨before ++ [.store index], after, call.key, by simp, fun hnone => ?_⟩
  obtain ⟨first, pools, rest, started, rfl, hstarted, hmiss, hpool⟩ :=
    invalidate_of_overtaken before hcall hovertaken
  obtain ⟨hready, howner⟩ := run_store hcall hphase hflight
  have hreader := run_call_poll hready howner
  have hlength : (run first).calls.length ≤
      (run (first ++ .invalidate pools :: rest ++ [.store index])).calls.length := by
    rw [List.append_assoc]
    exact length_calls_run_le first _
  generalize (run (first ++ .invalidate pools :: rest ++ [.store index])).calls.length = reader
    at hnone hreader hlength
  have hfalse := hnone first pools (rest ++ [.store index, .call call.key, .poll reader])
    (by simp) reader _ entry index hlength hreader hpool rfl started hstarted
  rw [hmiss] at hfalse
  cases hfalse

/-- A call quotes and stores, its pool is invalidated, and the next call quotes
again. -/
def freshEvents : List CacheEvent :=
  [.call sampleKey, .poll 0, .quoted 0 (.ok 7), .store 0, .invalidate [sampleKey.logicalPool],
    .call sampleKey, .poll 1, .quoted 1 (.ok 8), .store 1]

theorem noStaleQuote_iff_storesFresh_freshEvents :
    (run freshEvents).calls.map (·.phase) = [.returned (.ok 7) 0, .returned (.ok 8) 1] ∧
      NoStaleQuote freshEvents := by
  refine ⟨by decide, (noStaleQuote_iff_storesFresh freshEvents).1 ?_⟩
  intro before index after hsplit call entry hcall _ _
  -- the stores are the fourth and the last event
  have hstores : ∀ count < 9, freshEvents[count]? = some (.store index) →
      count = 3 ∧ index = 0 ∨ count = 8 ∧ index = 1 := by
    intro count hcount hstore
    interval_cases count <;> simp [freshEvents] at hstore
    · exact Or.inl ⟨rfl, hstore.symm⟩
    · exact Or.inr ⟨rfl, hstore.symm⟩
  have hlength := congrArg List.length hsplit
  rw [List.length_append, List.length_cons] at hlength
  have hcount : before.length < 9 := by
    simp only [freshEvents, List.length_cons, List.length_nil] at hlength
    omega
  have htake : before = freshEvents.take before.length := by
    rw [hsplit, List.take_left]
  have hstore : freshEvents[before.length]? = some (.store index) := by
    simp [hsplit]
  rw [htake] at hcall
  obtain ⟨hthird, rfl⟩ | ⟨hlast, rfl⟩ := hstores before.length hcount hstore
  · have hcalls : (run (freshEvents.take 3)).calls[0]? =
        some ⟨sampleKey, .storing (.ok 7), true, false⟩ := by
      decide
    rw [hthird, hcalls, Option.some.injEq] at hcall
    rw [← hcall]
  · have hcalls : (run (freshEvents.take 8)).calls[1]? =
        some ⟨sampleKey, .storing (.ok 8), true, false⟩ := by
      decide
    rw [hlast, hcalls, Option.some.injEq] at hcall
    rw [← hcall]

/-- The quote of the first call is in flight when its pool is invalidated; the
second call marks the key again, and the first stores over that mark. -/
def staleEvents : List CacheEvent :=
  [.call sampleKey, .poll 0, .invalidate [sampleKey.logicalPool], .call sampleKey, .poll 1,
    .quoted 0 (.ok 7), .store 0, .call sampleKey, .poll 2]

theorem not_noStaleQuote_staleEvents : ¬NoStaleQuote staleEvents := by
  intro hnone
  have hfalse := hnone [.call sampleKey, .poll 0] [sampleKey.logicalPool]
    [.call sampleKey, .poll 1, .quoted 0 (.ok 7), .store 0, .call sampleKey, .poll 2] rfl
    2 ⟨sampleKey, .returned (.ok 7) 0, false, false⟩ (.ok 7) 0 (by decide) (by decide)
    (by decide) rfl ⟨sampleKey, .quoting, true, false⟩ (by decide)
  cases hfalse

end CacheRun

end AmmSearch
