/-
The quote cache that concurrent callers share.  Every access runs under the lock
of `entries`, so a call is a sequence of critical sections: it polls its key,
quotes it when the key is absent, and stores the result; a call whose quote
panics drops its mark instead.  A run interleaves the critical sections of all
calls with invalidations.
-/
import AmmSearch.Quoting

open FiniteMap

namespace AmmSearch

/-- Some caller is quoting the key, or its result is known. -/
inductive QuoteCacheState
  | inFlight
  | ready (entry : Except Text U256)
deriving DecidableEq

structure QuoteCacheStats where
  hits : ℕ := 0
  misses : ℕ := 0
  waits : ℕ := 0
  executed : ℕ := 0
  failed : ℕ := 0
deriving DecidableEq

structure SharedQuoteCache where
  entries : Map HopQuoteKey QuoteCacheState
  keysByPool : Map PoolKey (Finset HopQuoteKey)
  stats : QuoteCacheStats

/-- What one turn of the loop of `get_or_quote` finds. -/
inductive QuotePoll
  | hit (entry : Except Text U256)
  | wait
  | begin
deriving DecidableEq

instance : RightCommutative
    fun (entries : Map HopQuoteKey QuoteCacheState) key => entries.erase key :=
  ⟨fun _ _ _ => Finmap.erase_erase⟩

namespace SharedQuoteCache

def empty : SharedQuoteCache := ⟨∅, ∅, {}⟩

/-- One turn of the loop of `get_or_quote`, under the lock. -/
def poll (cache : SharedQuoteCache) (key : HopQuoteKey) :
    QuotePoll × SharedQuoteCache :=
  match cache.entries.lookup key with
  | some (.ready entry) =>
      (.hit entry, { cache with
        stats := { cache.stats with hits := cache.stats.hits + 1 } })
  | some .inFlight =>
      (.wait, { cache with
        stats := { cache.stats with waits := cache.stats.waits + 1 } })
  | none =>
      (.begin,
        { entries := cache.entries.insert key .inFlight
          keysByPool := alter cache.keysByPool key.logicalPool fun keys =>
            some (insert key (keys.getD ∅))
          stats := { cache.stats with misses := cache.stats.misses + 1 } })

/-- Count an executed quote. -/
def recordExecuted (cache : SharedQuoteCache) (entry : Except Text U256) :
    SharedQuoteCache :=
  { cache with
    stats := { cache.stats with
      executed := cache.stats.executed + 1
      failed := cache.stats.failed + if entry.toBool then 0 else 1 } }

/-- Publish a result where the key is still in flight. -/
def store (cache : SharedQuoteCache) (key : HopQuoteKey)
    (entry : Except Text U256) : SharedQuoteCache :=
  if cache.entries.lookup key = some .inFlight then
    { cache with entries := cache.entries.insert key (.ready entry) }
  else cache

def removeQuoteKeyFromPoolIndex (cache : SharedQuoteCache) (key : HopQuoteKey) :
    SharedQuoteCache :=
  { cache with
    keysByPool := alter cache.keysByPool key.logicalPool fun keys =>
      (keys.map fun keys => keys.erase key).filter (· ≠ ∅) }

/-- Dropping the guard of a call whose quote has panicked. -/
def dropGuard (cache : SharedQuoteCache) (key : HopQuoteKey) : SharedQuoteCache :=
  removeQuoteKeyFromPoolIndex
    { cache with entries := cache.entries.erase key } key

def invalidatePool (cache : SharedQuoteCache) (pool : PoolKey) :
    SharedQuoteCache :=
  match cache.keysByPool.lookup pool with
  | none => cache
  | some keys =>
      { cache with
        keysByPool := cache.keysByPool.erase pool
        entries := keys.val.foldl (fun entries key => entries.erase key)
          cache.entries }

/-- Forget every key of `pools`, listed in the iteration order of their set. -/
def invalidatePools (cache : SharedQuoteCache) (pools : List PoolKey) :
    SharedQuoteCache :=
  pools.foldl invalidatePool cache

end SharedQuoteCache

/-- Where a call of `get_or_quote` stands.  A returned entry was computed by the
call `source`. -/
inductive CallPhase
  | polling
  | quoting
  | storing (entry : Except Text U256)
  | returned (entry : Except Text U256) (source : ℕ)
  | panicked
deriving DecidableEq

/-- One call.  `miss` holds once it has started its quote, and `overtaken` once
its pool was invalidated after that. -/
structure QuoteCall where
  key : HopQuoteKey
  phase : CallPhase := .polling
  miss : Bool := false
  overtaken : Bool := false
deriving DecidableEq

/-- The cache with all calls so far; `owner` names the call that computed a ready
entry. -/
structure CacheRun where
  cache : SharedQuoteCache
  calls : List QuoteCall
  owner : Map HopQuoteKey ℕ

inductive CacheEvent
  | call (key : HopQuoteKey)
  | poll (index : ℕ)
  | quoted (index : ℕ) (entry : Except Text U256)
  | store (index : ℕ)
  | panic (index : ℕ)
  | invalidate (pools : List PoolKey)
deriving DecidableEq

namespace CacheRun

def initial : CacheRun := ⟨.empty, [], ∅⟩

/-- Replace the call at `index`. -/
def update (run : CacheRun) (index : ℕ) (call : QuoteCall) : CacheRun :=
  { run with calls := run.calls.set index call }

def pollCall (run : CacheRun) (index : ℕ) (call : QuoteCall) : CacheRun :=
  let (poll, cache) := run.cache.poll call.key
  let polled := { run with cache := cache }
  match poll with
  | .hit entry =>
      polled.update index
        { call with phase := .returned entry ((run.owner.lookup call.key).getD index) }
  | .wait => polled
  | .begin => polled.update index { call with phase := .quoting, miss := true }

def storeCall (run : CacheRun) (index : ℕ) (call : QuoteCall)
    (entry : Except Text U256) : CacheRun :=
  update
    { run with
      cache := run.cache.store call.key entry
      owner :=
        if run.cache.entries.lookup call.key = some .inFlight then
          run.owner.insert call.key index
        else run.owner }
    index { call with phase := .returned entry index }

/-- The calls that have started their quote see the invalidation. -/
def overtake (pools : List PoolKey) (call : QuoteCall) : QuoteCall :=
  { call with
    overtaken := call.overtaken ||
      (call.miss && decide (call.key.logicalPool ∈ pools)) }

/-- One critical section.  An event that is not enabled changes nothing. -/
def step (run : CacheRun) : CacheEvent → CacheRun
  | .call key => { run with calls := run.calls ++ [{ key := key }] }
  | .poll index =>
      match run.calls[index]? with
      | none => run
      | some call => if call.phase = .polling then run.pollCall index call else run
  | .quoted index entry =>
      match run.calls[index]? with
      | none => run
      | some call =>
          if call.phase = .quoting then
            update { run with cache := run.cache.recordExecuted entry } index
              { call with phase := .storing entry }
          else run
  | .store index =>
      match run.calls[index]? with
      | none => run
      | some call =>
          match call.phase with
          | .storing entry => run.storeCall index call entry
          | _ => run
  | .panic index =>
      match run.calls[index]? with
      | none => run
      | some call =>
          if call.phase = .quoting then
            update { run with cache := run.cache.dropGuard call.key } index
              { call with phase := .panicked }
          else run
  | .invalidate pools =>
      { run with
        cache := run.cache.invalidatePools pools
        calls := run.calls.map (overtake pools) }

/-- Run an interleaving from the empty cache. -/
def run (events : List CacheEvent) : CacheRun :=
  events.foldl step initial

theorem run_append_singleton (events : List CacheEvent) (event : CacheEvent) :
    run (events ++ [event]) = (run events).step event := by
  simp [run, List.foldl_append]

/-- What the critical section of an event can do, with the test that selects it. -/
inductive Moves (run : CacheRun) : CacheEvent → CacheRun → Prop
  | idle {event : CacheEvent} (hevent : ∀ pools, event ≠ .invalidate pools) :
      Moves run event run
  | call (key : HopQuoteKey) :
      Moves run (.call key) { run with calls := run.calls ++ [{ key := key }] }
  | hit {index : ℕ} {call : QuoteCall} {entry : Except Text U256}
      (hcall : run.calls[index]? = some call) (hphase : call.phase = .polling)
      (hready : run.cache.entries.lookup call.key = some (.ready entry)) :
      Moves run (.poll index)
        (update
          { run with
            cache := { run.cache with
              stats := { run.cache.stats with hits := run.cache.stats.hits + 1 } } }
          index { call with
            phase := .returned entry ((run.owner.lookup call.key).getD index) })
  | wait {index : ℕ} {call : QuoteCall}
      (hcall : run.calls[index]? = some call) (hphase : call.phase = .polling)
      (hflight : run.cache.entries.lookup call.key = some .inFlight) :
      Moves run (.poll index)
        { run with
          cache := { run.cache with
            stats := { run.cache.stats with waits := run.cache.stats.waits + 1 } } }
  | begin {index : ℕ} {call : QuoteCall}
      (hcall : run.calls[index]? = some call) (hphase : call.phase = .polling)
      (habsent : run.cache.entries.lookup call.key = none) :
      Moves run (.poll index)
        (update { run with cache := (run.cache.poll call.key).2 }
          index { call with phase := .quoting, miss := true })
  | quoted {index : ℕ} {call : QuoteCall} (entry : Except Text U256)
      (hcall : run.calls[index]? = some call) (hphase : call.phase = .quoting) :
      Moves run (.quoted index entry)
        (update { run with cache := run.cache.recordExecuted entry } index
          { call with phase := .storing entry })
  | publish {index : ℕ} {call : QuoteCall} {entry : Except Text U256}
      (hcall : run.calls[index]? = some call) (hphase : call.phase = .storing entry)
      (hflight : run.cache.entries.lookup call.key = some .inFlight) :
      Moves run (.store index)
        (update
          { run with
            cache := { run.cache with
              entries := run.cache.entries.insert call.key (.ready entry) }
            owner := run.owner.insert call.key index }
          index { call with phase := .returned entry index })
  | discard {index : ℕ} {call : QuoteCall} {entry : Except Text U256}
      (hcall : run.calls[index]? = some call) (hphase : call.phase = .storing entry)
      (hflight : run.cache.entries.lookup call.key ≠ some .inFlight) :
      Moves run (.store index)
        (run.update index { call with phase := .returned entry index })
  | panic {index : ℕ} {call : QuoteCall}
      (hcall : run.calls[index]? = some call) (hphase : call.phase = .quoting) :
      Moves run (.panic index)
        (update { run with cache := run.cache.dropGuard call.key } index
          { call with phase := .panicked })
  | invalidate (pools : List PoolKey) :
      Moves run (.invalidate pools)
        { run with
          cache := run.cache.invalidatePools pools
          calls := run.calls.map (overtake pools) }

theorem moves_pollCall {run : CacheRun} {index : ℕ} {call : QuoteCall}
    (hcall : run.calls[index]? = some call) (hphase : call.phase = .polling) :
    Moves run (.poll index) (run.pollCall index call) := by
  cases hlookup : run.cache.entries.lookup call.key with
  | none =>
      have hmove := Moves.begin hcall hphase hlookup
      simpa [pollCall, SharedQuoteCache.poll, hlookup] using hmove
  | some state =>
      cases state with
      | inFlight =>
          have hmove := Moves.wait hcall hphase hlookup
          simpa [pollCall, SharedQuoteCache.poll, hlookup] using hmove
      | ready entry =>
          have hmove := Moves.hit hcall hphase hlookup
          simpa [pollCall, SharedQuoteCache.poll, hlookup] using hmove

theorem moves_storeCall {run : CacheRun} {index : ℕ} {call : QuoteCall}
    {entry : Except Text U256} (hcall : run.calls[index]? = some call)
    (hphase : call.phase = .storing entry) :
    Moves run (.store index) (run.storeCall index call entry) := by
  by_cases hflight : run.cache.entries.lookup call.key = some .inFlight
  · have hmove := Moves.publish hcall hphase hflight
    simpa [storeCall, SharedQuoteCache.store, hflight] using hmove
  · have hmove := Moves.discard hcall hphase hflight
    simpa [storeCall, SharedQuoteCache.store, hflight] using hmove

theorem moves_step (run : CacheRun) (event : CacheEvent) :
    Moves run event (run.step event) := by
  cases event with
  | call key => exact .call key
  | poll index =>
      simp only [step]
      split
      · exact .idle (by simp)
      · rename_i call hcall
        split
        · rename_i hphase
          exact moves_pollCall hcall hphase
        · exact .idle (by simp)
  | quoted index entry =>
      simp only [step]
      split
      · exact .idle (by simp)
      · rename_i call hcall
        split
        · rename_i hphase
          exact .quoted entry hcall hphase
        · exact .idle (by simp)
  | store index =>
      simp only [step]
      split
      · exact .idle (by simp)
      · rename_i call hcall
        split
        · rename_i entry hphase
          exact moves_storeCall hcall hphase
        · exact .idle (by simp)
  | panic index =>
      simp only [step]
      split
      · exact .idle (by simp)
      · rename_i call hcall
        split
        · rename_i hphase
          exact .panic hcall hphase
        · exact .idle (by simp)
  | invalidate pools => exact .invalidate pools

end CacheRun

end AmmSearch
