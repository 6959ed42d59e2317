/-
Quoting through the shared cache.  The evaluation of a tree of paths is a program
that asks the cache for one hop quote after another; any number of such programs
share the cache, and their critical sections interleave.  Whatever the
interleaving, every program ends with the result it has without a cache.
-/
import AmmSearch.MemoTable
import AmmSearch.QuotingExact
import AmmSearch.QuoteCacheProgress

open FiniteMap MemoTable

namespace AmmSearch

/-- A computation that takes its hop quotes from the shared cache. -/
abbrev QuoteProgram (ρ : Type) := Program HopQuoteKey (Except Text U256) ρ

namespace SharedQuoteCache

def slot (cache : SharedQuoteCache) (key : HopQuoteKey) : Slot (Except Text U256) :=
  match cache.entries.lookup key with
  | none => .absent
  | some .inFlight => .inFlight
  | some (.ready entry) => .ready entry

theorem slot_eq_absent {cache : SharedQuoteCache} {key : HopQuoteKey} :
    cache.slot key = .absent ↔ cache.entries.lookup key = none := by
  unfold slot
  split <;> simp_all

theorem slot_eq_inFlight {cache : SharedQuoteCache} {key : HopQuoteKey} :
    cache.slot key = .inFlight ↔ cache.entries.lookup key = some .inFlight := by
  unfold slot
  split <;> simp_all

theorem slot_eq_ready {cache : SharedQuoteCache} {key : HopQuoteKey}
    {entry : Except Text U256} :
    cache.slot key = .ready entry ↔ cache.entries.lookup key = some (.ready entry) := by
  unfold slot
  split <;> simp_all

/-- The shared quote cache as a memo table: a turn of the loop of `get_or_quote`,
and the bookkeeping after a quote. -/
def table : Table SharedQuoteCache HopQuoteKey (Except Text U256) where
  slot := slot
  poll cache key := (cache.poll key).2
  store cache key entry := (cache.recordExecuted entry).store key entry
  slot_poll_absent cache key habsent other := by
    rw [slot_eq_absent] at habsent
    simp only [slot, poll, habsent, lookup_insert_eq]
    by_cases hother : other = key
    · simp [hother]
    · simp [hother]
  slot_poll_present cache key hpresent other := by
    rw [ne_eq, slot_eq_absent] at hpresent
    unfold poll
    split
    · rfl
    · rfl
    · rename_i habsent
      exact absurd habsent hpresent
  slot_store_marked cache key entry hmarked other := by
    rw [slot_eq_inFlight] at hmarked
    simp only [slot, store, recordExecuted, hmarked, if_true, lookup_insert_eq]
    by_cases hother : other = key
    · simp [hother]
    · simp [hother]
  slot_store_unmarked cache key entry hunmarked other := by
    rw [ne_eq, slot_eq_inFlight] at hunmarked
    have hstore : (cache.recordExecuted entry).store key entry = cache.recordExecuted entry :=
      if_neg hunmarked
    rw [hstore]
    rfl

end SharedQuoteCache

section Evaluate

variable {σ : Type} (observer : QuoteObserver σ) (env : QuoteEnv)
  (context : QuoteKeyContext) (amountIn : U256)

/-- One hop quote through the cache. -/
def quoteHopCached (hop : Hop) (amount : U256) : QuoteProgram (Except Text U256) :=
  match env.quoteKey context hop amount with
  | .error reason => .done (.error reason)
  | .ok key => .query key (env.quoteHopUncached hop amount) .done

mutual

def QuoteDagNode.evaluateCached (run : QuoteRun σ) :
    QuoteDagNode → U256 → List HopQuote → QuoteProgram (QuoteRun σ)
  | .mk children terminals, amount, hopQuotes =>
      children.evaluateCached
        (terminals.foldl (fun run path =>
          observer.pushQuote run ⟨path, amountIn, amount, hopQuotes⟩) run)
        amount hopQuotes

def QuoteDagChildren.evaluateCached (run : QuoteRun σ) :
    QuoteDagChildren → U256 → List HopQuote → QuoteProgram (QuoteRun σ)
  | .nil, _, _ => .done run
  | .cons hop node rest, amount, hopQuotes =>
      if run.stopped then .done run
      else
        (quoteHopCached env context hop amount).bind fun
          | .ok amountOut =>
              (node.evaluateCached run amountOut
                (hopQuotes ++ [⟨hop, amount, amountOut⟩])).bind fun run =>
                  rest.evaluateCached run amount hopQuotes
          | .error reason =>
              rest.evaluateCached
                ((node.collectFailures reason).foldl observer.pushFailure run)
                amount hopQuotes

end

def quotePathsWithRegistryObservedCached (paths : List RoutePath) (observed : σ) :
    QuoteProgram (QuoteRun σ) :=
  let (run, dag) :=
    insertPaths observer env paths (⟨[], [], observed, false⟩, .empty)
  if run.stopped then .done run
  else dag.evaluateCached observer env context amountIn run amountIn []

end Evaluate

def quotePathsWithRegistryCached (env : QuoteEnv) (context : QuoteKeyContext)
    (paths : List RoutePath) (amountIn : U256) :
    QuoteProgram (List RouteQuote × List PathFailure) :=
  (quotePathsWithRegistryObservedCached QuoteObserver.silent env context amountIn paths
    ()).bind fun report => .done (report.quotes, report.failures)

section Eval

variable {σ : Type} (observer : QuoteObserver σ) (env : QuoteEnv)
  (context : QuoteKeyContext) (amountIn : U256)

theorem eval_quoteHopCached (hop : Hop) (amount : U256) :
    (quoteHopCached env context hop amount).eval = env.quoteHop context hop amount := by
  unfold quoteHopCached QuoteEnv.quoteHop
  split <;> simp_all [Program.eval]

mutual

theorem QuoteDagNode.eval_evaluateCached : ∀ (node : QuoteDagNode) (run : QuoteRun σ)
    (amount : U256) (hopQuotes : List HopQuote),
    (node.evaluateCached observer env context amountIn run amount hopQuotes).eval =
      node.evaluate observer env context amountIn run amount hopQuotes
  | .mk children terminals, run, amount, hopQuotes => by
      rw [QuoteDagNode.evaluateCached, QuoteDagNode.evaluate]
      exact QuoteDagChildren.eval_evaluateCached children _ amount hopQuotes

theorem QuoteDagChildren.eval_evaluateCached : ∀ (children : QuoteDagChildren)
    (run : QuoteRun σ) (amount : U256) (hopQuotes : List HopQuote),
    (children.evaluateCached observer env context amountIn run amount hopQuotes).eval =
      children.evaluate observer env context amountIn run amount hopQuotes
  | .nil, run, amount, hopQuotes => by
      rw [QuoteDagChildren.evaluateCached, QuoteDagChildren.evaluate, Program.eval]
  | .cons hop node rest, run, amount, hopQuotes => by
      rw [QuoteDagChildren.evaluateCached, QuoteDagChildren.evaluate]
      split
      · rfl
      · rw [Program.eval_bind, eval_quoteHopCached]
        cases env.quoteHop context hop amount with
        | error reason => exact QuoteDagChildren.eval_evaluateCached rest _ amount hopQuotes
        | ok amountOut =>
            simp only [Program.eval_bind]
            rw [QuoteDagNode.eval_evaluateCached node run amountOut _]
            exact QuoteDagChildren.eval_evaluateCached rest _ amount hopQuotes

end

theorem eval_quotePathsWithRegistryObservedCached (paths : List RoutePath) (observed : σ) :
    (quotePathsWithRegistryObservedCached observer env context amountIn paths observed).eval =
      quotePathsWithRegistryObserved observer env context amountIn paths observed := by
  simp only [quotePathsWithRegistryObservedCached, quotePathsWithRegistryObserved]
  split
  · rfl
  · exact QuoteDagNode.eval_evaluateCached observer env context amountIn _ _ _ _

theorem eval_quotePathsWithRegistryCached (paths : List RoutePath) :
    (quotePathsWithRegistryCached env context paths amountIn).eval =
      quotePathsWithRegistry env context paths amountIn := by
  rw [quotePathsWithRegistryCached, Program.eval_bind,
    eval_quotePathsWithRegistryObservedCached]
  rfl

end Eval

/-- The adapter's answer to the hop that `key` stands for. -/
def AdapterAnswer (registry : AdapterRegistry) (debug : DebugText)
    (context : QuoteKeyContext) (key : HopQuoteKey) (entry : Except Text U256) : Prop :=
  ∃ simConfig hop amountIn,
    QuoteEnv.quoteKey ⟨registry, simConfig, debug⟩ context hop amountIn = .ok key ∧
      entry = QuoteEnv.quoteHopUncached ⟨registry, simConfig, debug⟩ hop amountIn

/-- Every ready entry that a hop can hit is the adapter's answer. -/
def SharedQuoteCache.Agrees (cache : SharedQuoteCache) (registry : AdapterRegistry)
    (debug : DebugText) (context : QuoteKeyContext) : Prop :=
  ∀ simConfig hop amountIn key entry,
    QuoteEnv.quoteKey ⟨registry, simConfig, debug⟩ context hop amountIn = .ok key →
    cache.entries.lookup key = some (.ready entry) →
    entry = QuoteEnv.quoteHopUncached ⟨registry, simConfig, debug⟩ hop amountIn

section Asks

variable {registry : AdapterRegistry} {debug : DebugText} {context : QuoteKeyContext}

theorem QuoteEnv.quoteKey_simConfig {env : QuoteEnv} {hop : Hop} {amountIn : U256}
    {key : HopQuoteKey} (hkey : env.quoteKey context hop amountIn = .ok key) :
    key.simConfig = env.simConfig := by
  unfold QuoteEnv.quoteKey at hkey
  split at hkey
  · cases hkey
  · rw [Except.ok.injEq] at hkey
    rw [← hkey]

/-- A key stands for one hop and one amount. -/
theorem rightUnique_adapterAnswer (hkeyed : context.Keyed) :
    Relator.RightUnique (AdapterAnswer registry debug context) := by
  rintro key left right ⟨leftConfig, leftHop, leftAmount, hleft, rfl⟩
    ⟨rightConfig, rightHop, rightAmount, hright, rfl⟩
  have hconfig : leftConfig = rightConfig :=
    (QuoteEnv.quoteKey_simConfig hleft).symm.trans (QuoteEnv.quoteKey_simConfig hright)
  subst hconfig
  obtain ⟨rfl, rfl⟩ := QuoteEnv.quoteKey_injective hkeyed hleft hright
  rfl

theorem SharedQuoteCache.Agrees.correct {cache : SharedQuoteCache}
    (hagrees : cache.Agrees registry debug context) :
    Correct SharedQuoteCache.table (AdapterAnswer registry debug context) cache := by
  rintro key entry hready other ⟨simConfig, hop, amountIn, hkey, rfl⟩
  exact hagrees simConfig hop amountIn key entry hkey (SharedQuoteCache.slot_eq_ready.mp hready)

variable {σ : Type} (observer : QuoteObserver σ) (env : QuoteEnv) (amountIn : U256)

theorem asks_quoteHopCached (hop : Hop) (amount : U256) :
    (quoteHopCached env context hop amount).Asks
      (AdapterAnswer env.registry env.debug context) := by
  unfold quoteHopCached
  split
  · trivial
  · rename_i key hkey
    exact ⟨⟨env.simConfig, hop, amount, hkey, rfl⟩, trivial⟩

mutual

theorem QuoteDagNode.asks_evaluateCached : ∀ (node : QuoteDagNode) (run : QuoteRun σ)
    (amount : U256) (hopQuotes : List HopQuote),
    (node.evaluateCached observer env context amountIn run amount hopQuotes).Asks
      (AdapterAnswer env.registry env.debug context)
  | .mk children terminals, run, amount, hopQuotes => by
      rw [QuoteDagNode.evaluateCached]
      exact QuoteDagChildren.asks_evaluateCached children _ amount hopQuotes

theorem QuoteDagChildren.asks_evaluateCached : ∀ (children : QuoteDagChildren)
    (run : QuoteRun σ) (amount : U256) (hopQuotes : List HopQuote),
    (children.evaluateCached observer env context amountIn run amount hopQuotes).Asks
      (AdapterAnswer env.registry env.debug context)
  | .nil, run, amount, hopQuotes => by
      rw [QuoteDagChildren.evaluateCached]
      trivial
  | .cons hop node rest, run, amount, hopQuotes => by
      rw [QuoteDagChildren.evaluateCached]
      split
      · trivial
      · apply (asks_quoteHopCached env hop amount).bind
        split
        · apply (QuoteDagNode.asks_evaluateCached node run _ _).bind
          exact QuoteDagChildren.asks_evaluateCached rest _ amount hopQuotes
        · exact QuoteDagChildren.asks_evaluateCached rest _ amount hopQuotes

end

theorem asks_quotePathsWithRegistryCached (paths : List RoutePath) :
    (quotePathsWithRegistryCached env context paths amountIn).Asks
      (AdapterAnswer env.registry env.debug context) := by
  apply Program.Asks.bind
  · simp only [quotePathsWithRegistryObservedCached]
    split
    · trivial
    · exact QuoteDagNode.asks_evaluateCached QuoteObserver.silent env amountIn _ _ _ _
  · trivial

end Asks

section Exact

theorem foldl_push_silent (outcomes : List (RouteQuote ⊕ PathFailure)) {run : QuoteRun Unit}
    (hrun : run.stopped = false) :
    (outcomes.foldl QuoteObserver.silent.push run).quotes =
        run.quotes ++ quotedOutcomes outcomes ∧
      (outcomes.foldl QuoteObserver.silent.push run).failures =
        run.failures ++ failedOutcomes outcomes := by
  induction outcomes generalizing run with
  | nil => simp [quotedOutcomes, failedOutcomes]
  | cons outcome rest ih =>
      rw [List.foldl_cons]
      cases outcome with
      | inl quote =>
          obtain ⟨hquotes, hfailures⟩ := @ih (QuoteObserver.silent.push run (.inl quote))
            (by simp [QuoteObserver.push, QuoteObserver.pushQuote, QuoteObserver.silent, hrun])
          rw [hquotes, hfailures]
          simp [QuoteObserver.push, QuoteObserver.pushQuote, hrun]
      | inr failure =>
          obtain ⟨hquotes, hfailures⟩ := @ih (QuoteObserver.silent.push run (.inr failure))
            (by simp [QuoteObserver.push, QuoteObserver.pushFailure, QuoteObserver.silent, hrun])
          rw [hquotes, hfailures]
          simp [QuoteObserver.push, QuoteObserver.pushFailure, hrun]

variable {env : QuoteEnv} {context : QuoteKeyContext} {amountIn : U256}

theorem quotePathsWithRegistry_eq (paths : List RoutePath) :
    quotePathsWithRegistry env context paths amountIn =
      (quotedOutcomes ((quoteOrder paths).map (env.pathOutcome context amountIn)),
        failedOutcomes ((quoteOrder paths).map (env.pathOutcome context amountIn))) := by
  obtain ⟨hquotes, hfailures⟩ := @foldl_push_silent
    ((quoteOrder paths).map (env.pathOutcome context amountIn)) ⟨[], [], (), false⟩ rfl
  simp only [quotePathsWithRegistry]
  rw [quotePathsWithRegistryObserved_eq, hquotes, hfailures]
  rfl

/-- Every pool of the path has a cache scope. -/
def Scoped (context : QuoteKeyContext) (path : RoutePath) : Prop :=
  ∀ hop ∈ path, ∃ scope, context.poolScope hop.pool = .ok scope

theorem quoteHop_of_scope {hop : Hop}
    (hscope : ∃ scope, context.poolScope hop.pool = .ok scope) (amount : U256) :
    env.quoteHop context hop amount = env.quoteHopUncached hop amount := by
  obtain ⟨scope, hscope⟩ := hscope
  simp [QuoteEnv.quoteHop, QuoteEnv.quoteKey, hscope]

/-- With a scope for every pool, tracing a path differs from quoting it only in the
form of the error. -/
theorem traceHops_of_scoped {path : RoutePath} (hscoped : Scoped context path)
    (amount : U256) :
    env.traceHops context path amount =
      (env.quoteHops path amount).mapError fun error => error.display env.debug := by
  induction path generalizing amount with
  | nil => rfl
  | cons hop rest ih =>
      rw [Scoped, List.forall_mem_cons] at hscoped
      rw [QuoteEnv.traceHops, QuoteEnv.quoteHops, quoteHop_of_scope hscoped.1,
        QuoteEnv.quoteHopUncached]
      cases env.simulateHop hop amount with
      | error error => rfl
      | ok amountOut =>
          simp only [ih hscoped.2 amountOut]
          cases env.quoteHops rest amountOut with
          | error error => rfl
          | ok result => rfl

theorem pathOutcome_of_scoped {path : RoutePath} (hscoped : Scoped context path) :
    env.pathOutcome context amountIn path =
      match env.quotePathWithRegistry path amountIn with
      | .ok quote => .inl quote
      | .error error => .inr ⟨path, error.display env.debug⟩ := by
  unfold QuoteEnv.pathOutcome QuoteEnv.quotePathWithRegistry
  split
  · rfl
  · rw [traceHops_of_scoped hscoped]
    cases env.quoteHops path amountIn with
    | error error => rfl
    | ok result => rfl

/-- The quoted and the failed outcomes together are the paths. -/
theorem perm_outcomes (paths : List RoutePath) :
    ((quotedOutcomes (paths.map (env.pathOutcome context amountIn))).map RouteQuote.path ++
      (failedOutcomes (paths.map (env.pathOutcome context amountIn))).map
        PathFailure.path).Perm paths := by
  have hpath : ∀ path, Sum.elim RouteQuote.path PathFailure.path
      (env.pathOutcome context amountIn path) = path := by
    intro path
    unfold QuoteEnv.pathOutcome
    split
    · rfl
    · split <;> rfl
  induction paths with
  | nil => rfl
  | cons path rest ih =>
      have hhead := hpath path
      rw [List.map_cons]
      cases houtcome : env.pathOutcome context amountIn path with
      | inl quote =>
          rw [houtcome, Sum.elim_inl] at hhead
          simpa [hhead] using ih
      | inr failure =>
          rw [houtcome, Sum.elim_inr] at hhead
          have hmiddle := List.perm_middle.trans (ih.cons path)
          simpa [hhead] using hmiddle

/-- Quotes and failures of the given paths are those of quoting each path alone. -/
structure QuotesEach (env : QuoteEnv) (amountIn : U256) (paths : List RoutePath)
    (report : List RouteQuote × List PathFailure) : Prop where
  perm : (report.1.map RouteQuote.path ++ report.2.map PathFailure.path).Perm paths
  quoted : ∀ quote ∈ report.1, env.quotePathWithRegistry quote.path amountIn = .ok quote
  failed : ∀ failure ∈ report.2, ∃ error,
    env.quotePathWithRegistry failure.path amountIn = .error error ∧
      failure.reason = error.display env.debug

theorem quotesEach_quotePathsWithRegistry {paths : List RoutePath}
    (hscoped : ∀ path ∈ paths, Scoped context path) :
    QuotesEach env amountIn paths (quotePathsWithRegistry env context paths amountIn) := by
  rw [quotePathsWithRegistry_eq]
  have hperm := quoteOrder_perm paths
  refine ⟨(perm_outcomes (quoteOrder paths)).trans hperm, ?_, ?_⟩
  · intro quote hquote
    obtain ⟨path, hpath, houtcome⟩ : ∃ path ∈ quoteOrder paths,
        env.pathOutcome context amountIn path = .inl quote := by
      simpa [quotedOutcomes] using hquote
    rw [pathOutcome_of_scoped (hscoped path (hperm.mem_iff.mp hpath))] at houtcome
    split at houtcome
    · rename_i found hfound
      rw [Sum.inl.injEq] at houtcome
      subst houtcome
      have hsame : found.path = path := by
        unfold QuoteEnv.quotePathWithRegistry at hfound
        split at hfound
        · cases hfound
        · split at hfound
          · cases hfound
          · rw [Except.ok.injEq] at hfound
            rw [← hfound]
      rwa [hsame]
    · cases houtcome
  · intro failure hfailure
    obtain ⟨path, hpath, houtcome⟩ : ∃ path ∈ quoteOrder paths,
        env.pathOutcome context amountIn path = .inr failure := by
      simpa [failedOutcomes] using hfailure
    rw [pathOutcome_of_scoped (hscoped path (hperm.mem_iff.mp hpath))] at houtcome
    split at houtcome
    · cases houtcome
    · rename_i error herror
      rw [Sum.inr.injEq] at houtcome
      subst houtcome
      exact ⟨error, herror, rfl⟩

/-- A caller of the cache in the middle of quoting its paths. -/
abbrev QuoteCaller :=
  Worker HopQuoteKey (Except Text U256) (List RouteQuote × List PathFailure)

/-- Quote `paths` against `cache` while the `others` use it; `schedule` interleaves
the callers, which are then run to their end. -/
def quotePathsWithCache (env : QuoteEnv) (context : QuoteKeyContext)
    (cache : SharedQuoteCache) (others : List QuoteCaller) (schedule : List ℕ)
    (paths : List RoutePath) (amountIn : U256) :
    Option (List RouteQuote × List PathFailure) :=
  let system : System SharedQuoteCache _ _ _ :=
    ⟨cache, .asking (quotePathsWithRegistryCached env context paths amountIn) :: others⟩
  (collect (settle SharedQuoteCache.table (run SharedQuoteCache.table system schedule))).bind
    List.head?

/-- Shared-prefix quoting through a cache that agrees with the adapters is quoting
each path alone. -/
theorem quotePathsWithCache_quotesEach {cache : SharedQuoteCache} {others : List QuoteCaller}
    {paths : List RoutePath} (hkeyed : context.Keyed)
    (hagrees : cache.Agrees env.registry env.debug context)
    (hothers : ∀ caller ∈ others,
      caller.Asks (AdapterAnswer env.registry env.debug context))
    (howned : ∀ key, cache.entries.lookup key = some .inFlight →
      ∃ entry next, Worker.computing key entry next ∈ others)
    (hscoped : ∀ path ∈ paths, Scoped context path) (schedule : List ℕ) :
    ∃ report, quotePathsWithCache env context cache others schedule paths amountIn =
        some report ∧ QuotesEach env amountIn paths report := by
  let callers : List QuoteCaller :=
    .asking (quotePathsWithRegistryCached env context paths amountIn) :: others
  have hsound : Sound SharedQuoteCache.table
      (AdapterAnswer env.registry env.debug context) ⟨cache, callers⟩ := by
    refine ⟨hagrees.correct, ?_, ?_⟩
    · intro caller hcaller
      obtain rfl | hother := List.mem_cons.mp hcaller
      · exact asks_quotePathsWithRegistryCached env amountIn paths
      · exact hothers caller hother
    · intro key hflight
      obtain ⟨entry, next, hother⟩ := howned key (SharedQuoteCache.slot_eq_inFlight.mp hflight)
      exact ⟨entry, next, List.mem_cons_of_mem _ hother⟩
  obtain ⟨hcollect, _⟩ :=
    collect_settle_run (rightUnique_adapterAnswer hkeyed) hsound schedule
  refine ⟨quotePathsWithRegistry env context paths amountIn, ?_,
    quotesEach_quotePathsWithRegistry hscoped⟩
  rw [quotePathsWithCache, hcollect]
  simp [callers, Worker.eval, eval_quotePathsWithRegistryCached]

/-- One pool whose swaps add four. -/
def sampleEnv : QuoteEnv where
  registry :=
    { pools := [⟨⟨.uniswapV2, none, []⟩, .ready, .unknown, none⟩]
      nodup_keys := by simp
      adapter := fun _ => some ⟨fun _ _ _ amount _ => .ok (amount + 4)⟩ }
  simConfig := ⟨0, 0, 0⟩
  debug := ⟨fun _ => [], fun _ => [], fun _ => [], fun _ => []⟩

def sampleHop : Hop := ⟨⟨.uniswapV2, none, []⟩, 1, 2⟩

/-- The only hop is in flight for another caller when the paths are quoted. -/
theorem quotePathsWithCache_quotesEach_waiting :
    ∃ report, quotePathsWithCache sampleEnv .static
        (SharedQuoteCache.empty.poll CacheRun.sampleKey).2
        [.computing CacheRun.sampleKey (.ok 7) fun _ => .done ([], [])] [0, 0, 1, 0]
        [[sampleHop], [], [sampleHop]] 3 = some report ∧
      QuotesEach sampleEnv 3 [[sampleHop], [], [sampleHop]] report := by
  have hentries : ∀ key, (SharedQuoteCache.empty.poll CacheRun.sampleKey).2.entries.lookup key =
      if key = CacheRun.sampleKey then some .inFlight else none := by
    intro key
    exact lookup_insert_eq _ _ _ _
  apply quotePathsWithCache_quotesEach
  · trivial
  · intro simConfig hop amountIn key entry _ hready
    rw [hentries] at hready
    split at hready <;> cases hready
  · intro caller hcaller
    rw [List.mem_singleton.mp hcaller]
    exact ⟨⟨⟨0, 0, 0⟩, sampleHop, 3, rfl, by decide⟩, trivial⟩
  · intro key hflight
    rw [hentries] at hflight
    split at hflight
    · rename_i hkey
      exact ⟨.ok 7, fun _ => .done ([], []), by simp [hkey]⟩
    · cases hflight
  · intro path _ hop _
    exact ⟨.static hop.pool, rfl⟩

end Exact

end AmmSearch
