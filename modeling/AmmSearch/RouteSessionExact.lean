/-
Refreshing a route session.  While the callback lets the quoting go on, a refresh
quotes every affected route and probe against the current state, so a session that was
exact stays exact over any sequence of refreshes.
-/
import AmmSearch.RouteSessionStart

open FiniteMap StableGraph MemoTable

namespace AmmSearch

section Outcomes

variable {σ : Type} {env : QuoteEnv} {context : QuoteKeyContext} {amountIn : U256}

theorem path_of_pathOutcome {path : RoutePath} {failure : PathFailure}
    (houtcome : env.pathOutcome context amountIn path = .inr failure) :
    failure.path = path := by
  unfold QuoteEnv.pathOutcome at houtcome
  split at houtcome
  · rw [← Sum.inr.inj houtcome]
  · split at houtcome
    · cases houtcome
    · rw [← Sum.inr.inj houtcome]

/-- Only the given paths fail. -/
theorem failures_subset (observer : QuoteObserver σ) {paths : List RoutePath}
    {run : QuoteRun σ} {failure : PathFailure}
    (hfailure : failure ∈ ((paths.map (env.pathOutcome context amountIn)).foldl
      observer.push run).failures) :
    failure ∈ run.failures ∨ failure.path ∈ paths := by
  induction paths generalizing run with
  | nil => exact Or.inl hfailure
  | cons path rest ih =>
      rw [List.map_cons, List.foldl_cons] at hfailure
      obtain hpushed | hrest := ih hfailure
      · cases houtcome : env.pathOutcome context amountIn path with
        | inl quote =>
            rw [houtcome] at hpushed
            simp only [QuoteObserver.push, QuoteObserver.pushQuote] at hpushed
            split at hpushed <;> exact Or.inl hpushed
        | inr failed =>
            rw [houtcome] at hpushed
            simp only [QuoteObserver.push, QuoteObserver.pushFailure] at hpushed
            split at hpushed
            · exact Or.inl hpushed
            · obtain hold | hlast := List.mem_append.mp hpushed
              · exact Or.inl hold
              · rw [List.mem_singleton.mp hlast, path_of_pathOutcome houtcome]
                exact Or.inr List.mem_cons_self
      · exact Or.inr (List.mem_cons_of_mem path hrest)

end Outcomes

/-- What a quoting loop of a refresh reports. -/
structure PathsQuoted (env : QuoteEnv) (amountIn : U256) (paths : List RoutePath) {σ : Type}
    (report : QuoteRun σ) : Prop where
  quoted : ∀ quote ∈ report.quotes, quote.path ∈ paths ∧ env.Gives amountIn quote
  complete : report.stopped = false → ∀ path ∈ paths, ∀ quote,
    env.quotePathWithRegistry path amountIn = .ok quote → quote ∈ report.quotes
  failed : ∀ failure ∈ report.failures, failure.path ∈ paths

theorem pathsQuoted_of_sameRun {σ : Type} {onQuote : σ → RouteQuote → σ × Bool}
    {env : QuoteEnv} {context : QuoteKeyContext} {amountIn : U256} {paths : List RoutePath}
    (hpublished : env.Published context) (hnodup : paths.Nodup) {observed : σ}
    {report : QuoteRun σ}
    (hsame : SameRun report (quotePathsWithRegistryObserved
      ⟨onQuote, fun observed _ => (observed, true)⟩ env context amountIn paths observed)) :
    PathsQuoted env amountIn paths report := by
  obtain ⟨_, _, hquoted, hcomplete, _⟩ :=
    quotePathsWithRegistryObserved_spec env context amountIn onQuote hnodup observed
  refine ⟨?_, ?_, ?_⟩
  · intro quote hquote
    rw [hsame.quotes] at hquote
    obtain ⟨hpath, hnonempty, hamount, htrace⟩ := hquoted quote hquote
    exact ⟨hpath, QuoteEnv.gives_of_traceHops hnonempty hamount htrace⟩
  · intro hstopped path hpath quote hquote
    rw [hsame.stopped] at hstopped
    rw [hsame.quotes]
    obtain ⟨rfl, hnonempty⟩ := QuoteEnv.path_of_quotePathWithRegistry hquote
    unfold QuoteEnv.quotePathWithRegistry at hquote
    rw [if_neg hnonempty] at hquote
    cases hhops : env.quoteHops quote.path amountIn with
    | error error => simp [hhops] at hquote
    | ok result =>
        obtain ⟨hops, amountOut⟩ := result
        simp only [hhops, Except.ok.injEq] at hquote
        apply hcomplete hstopped quote hpath hnonempty
        · rw [← hquote]
        · rw [QuoteEnv.traceHops_of_quoteHops hpublished hhops, ← hquote]
  · intro failure hfailure
    have hmem : failure.path ∈ report.failures.map PathFailure.path :=
      List.mem_map_of_mem hfailure
    rw [hsame.failed, quotePathsWithRegistryObserved_eq] at hmem
    obtain ⟨other, hother, hpath⟩ := List.mem_map.mp hmem
    obtain hnone | hin := failures_subset _ hother
    · exact absurd hnone List.not_mem_nil
    · exact hpath ▸ (quoteOrder_perm paths).mem_iff.mp hin

namespace RouteSearchSession

section Failed

variable {session : RouteSearchSession} {paths : List RoutePath}

def insertFailures (session : RouteSearchSession) (paths : List RoutePath) :
    RouteSearchSession := paths.foldl insertFailed session

theorem lookup_insertFailures (path : RoutePath) :
    (session.insertFailures paths).routeTable.lookup path =
      if path ∈ paths then some .failed else session.routeTable.lookup path := by
  unfold insertFailures
  induction paths generalizing session with
  | nil => simp
  | cons head rest ih =>
      have hhead : (session.insertFailed head).routeTable.lookup path =
          if path = head then some .failed else session.routeTable.lookup path :=
        lookup_insert_eq _ _ _ _
      rw [List.foldl_cons, ih, hhead]
      by_cases hrest : path ∈ rest
      · simp [hrest]
      · simp [hrest]

@[simp]
theorem request_insertFailures :
    (session.insertFailures paths).request = session.request := by
  unfold insertFailures
  induction paths generalizing session with
  | nil => rfl
  | cons head rest ih => exact ih

@[simp]
theorem graphVersion_insertFailures :
    (session.insertFailures paths).graphVersion = session.graphVersion := by
  unfold insertFailures
  induction paths generalizing session with
  | nil => rfl
  | cons head rest ih => exact ih

@[simp]
theorem quoteCache_insertFailures :
    (session.insertFailures paths).quoteCache = session.quoteCache := by
  unfold insertFailures
  induction paths generalizing session with
  | nil => rfl
  | cons head rest ih => exact ih

@[simp]
theorem poolToRoutes_insertFailures :
    (session.insertFailures paths).poolToRoutes = session.poolToRoutes := by
  unfold insertFailures
  induction paths generalizing session with
  | nil => rfl
  | cons head rest ih => exact ih

@[simp]
theorem parallelProbeIndex_insertFailures :
    (session.insertFailures paths).parallelProbeIndex = session.parallelProbeIndex := by
  unfold insertFailures
  induction paths generalizing session with
  | nil => rfl
  | cons head rest ih => exact ih

/-- Failing paths that have failed changes nothing. -/
theorem insertFailures_again {failures : List RoutePath}
    (hfailures : ∀ path ∈ failures, path ∈ paths) :
    (session.insertFailures paths).insertFailures failures = session.insertFailures paths := by
  have htable : ∀ path ∈ failures,
      (session.insertFailures paths).insertFailed path = session.insertFailures paths := by
    intro path hpath
    unfold insertFailed
    rw [show (session.insertFailures paths).routeTable.insert path .failed =
      (session.insertFailures paths).routeTable from ?_]
    apply Finmap.ext_lookup
    intro other
    rw [lookup_insert_eq]
    split
    · rename_i hother
      rw [lookup_insertFailures, if_pos (hother ▸ hfailures path hpath)]
    · rfl
  generalize session.insertFailures paths = failed at htable
  unfold insertFailures
  induction failures with
  | nil => rfl
  | cons path rest ih =>
      rw [List.foldl_cons, htable path List.mem_cons_self]
      exact ih (fun other hother => hfailures other (List.mem_cons_of_mem path hother))
        fun other hother => htable other (List.mem_cons_of_mem path hother)

theorem mem_insertFailures (hpaths : ∀ path ∈ paths, path ∈ session.routeTable)
    {path : RoutePath} :
    path ∈ (session.insertFailures paths).routeTable ↔ path ∈ session.routeTable := by
  rw [← Finmap.lookup_isSome, lookup_insertFailures, ← Finmap.lookup_isSome]
  split
  · rename_i hpath
    simp [Finmap.lookup_isSome.mpr (hpaths path hpath)]
  · rfl

theorem hasPair_insertFailures (hpaths : ∀ path ∈ paths, path ∈ session.routeTable)
    {tokenIn tokenOut : Address} :
    (session.insertFailures paths).HasPair tokenIn tokenOut ↔
      session.HasPair tokenIn tokenOut := by
  simp only [HasPair, mem_insertFailures hpaths]

theorem files_insertFailures {pool : PoolKey} :
    (session.insertFailures paths).Files pool ↔ session.Files pool := by
  simp only [Files, poolToRoutes_insertFailures, parallelProbeIndex_insertFailures]

theorem covers_insertFailures (hpaths : ∀ path ∈ paths, path ∈ session.routeTable)
    {hop : Hop} : (session.insertFailures paths).Covers hop ↔ session.Covers hop := by
  simp only [Covers, files_insertFailures, hasPair_insertFailures hpaths]

/-- Failing table entries changes neither the indexes nor the listed paths. -/
theorem Indexed.insertFailures (hindexed : session.Indexed)
    (hpaths : ∀ path ∈ paths, path ∈ session.routeTable) :
    (session.insertFailures paths).Indexed := by
  refine ⟨?_, ?_, ?_⟩
  · intro path hpath hop hhop
    rw [mem_insertFailures hpaths] at hpath
    rw [poolToRoutes_insertFailures]
    exact hindexed.routes path hpath hop hhop
  · intro pool path hpath
    rw [poolToRoutes_insertFailures] at hpath
    rw [mem_insertFailures hpaths]
    exact hindexed.tabled pool path hpath
  · intro pool probe hprobe hop hhop
    rw [parallelProbeIndex_insertFailures] at hprobe
    rw [covers_insertFailures hpaths]
    exact hindexed.probes pool probe hprobe hop hhop

end Failed

section Allowed

variable {session next : RouteSearchSession} {env other : QuoteEnv}

theorem Allowed.of_pairs {key : HopQuoteKey} {entry : Except Text U256}
    (hallowed : session.Allowed env key entry)
    (hpairs : ∀ tokenIn tokenOut, next.HasPair tokenIn tokenOut →
      session.HasPair tokenIn tokenOut)
    (hfiles : ∀ pool, session.Files pool → next.Files pool) :
    next.Allowed env key entry := by
  intro hpair
  obtain ⟨hpool, hentry⟩ := hallowed (hpairs _ _ hpair)
  exact ⟨hfiles _ hpool, hentry⟩

/-- The hops that the session covers are answered as the adapters do. -/
theorem serves_allowed {context : QuoteKeyContext} (hkeyed : context.Keyed) :
    Serves (session.Allowed env) env context session.Covers := by
  constructor
  · intro hop amount key hhop hkey
    obtain ⟨rfl, rfl⟩ := QuoteEnv.quoteKey_spec hkeyed hkey
    intro _
    exact ⟨hhop.1, QuoteEnv.toOption_quoteHopUncached _ _⟩
  · intro hop amount key entry hhop hkey hentry
    obtain ⟨rfl, rfl⟩ := QuoteEnv.quoteKey_spec hkeyed hkey
    rw [QuoteEnv.toOption_quoteHopUncached]
    exact (hentry hhop.2).2

theorem slot_invalidatePools {cache : SharedQuoteCache} (hfiled : cache.Filed)
    (pools : List PoolKey) (key : HopQuoteKey) :
    SharedQuoteCache.table.slot (cache.invalidatePools pools) key =
      if key.logicalPool ∈ pools then .absent else SharedQuoteCache.table.slot cache key := by
  simp only [SharedQuoteCache.table, SharedQuoteCache.slot, (hfiled.invalidatePools pools).2]
  by_cases hpool : key.logicalPool ∈ pools
  · simp only [hpool, if_true]
  · simp only [hpool, if_false]

/-- Invalidating the pools that are not alike makes the cache current again. -/
theorem settled_invalidatePools (hfiled : session.quoteCache.Filed)
    (hsettled : Settled SharedQuoteCache.table (session.Allowed env) session.quoteCache)
    {pools : List PoolKey} (halike : ∀ pool, pool ∉ pools → env.Alike other pool) :
    Settled SharedQuoteCache.table (session.Allowed other)
      (session.quoteCache.invalidatePools pools) := by
  constructor
  · intro key
    rw [slot_invalidatePools hfiled]
    split
    · simp
    · exact hsettled.idle key
  · intro key entry hready
    rw [slot_invalidatePools hfiled] at hready
    split at hready
    · cases hready
    · rename_i hpool
      intro hpair
      obtain ⟨hfiles, hentry⟩ := hsettled.ready key entry hready hpair
      exact ⟨hfiles, hentry.trans (halike _ hpool _ _ rfl)⟩

end Allowed

section Phases

variable {G : Type} {κ : Type}
  {session : RouteSearchSession} {call : RefreshCall G} {onEvent : RouteUpdateCallback κ}

/-- The state that a refresh of the session quotes against. -/
def callEnv (session : RouteSearchSession) (call : RefreshCall G) : QuoteEnv :=
  call.searcher.quoteEnv session.request.simConfig

/-- The runtime of the call keys its pools, and publishes those that can be quoted. -/
structure Serviceable (session : RouteSearchSession) (call : RefreshCall G) : Prop where
  keyed : call.searcher.quoteContext.Keyed
  published : (session.callEnv call).Published call.searcher.quoteContext

/-- A quoting loop as it runs without a cache. -/
def uncachedRun (session : RouteSearchSession) (call : RefreshCall G)
    (onEvent : RouteUpdateCallback κ) (event : RouteQuote → RouteUpdateEvent)
    (paths : List RoutePath) (callback : κ) : QuoteRun κ :=
  quotePathsWithRegistryObserved
    ⟨fun callback quote => emitRouteUpdateEvent onEvent callback (event quote),
      fun callback _ => (callback, true)⟩
    (session.callEnv call) call.searcher.quoteContext session.request.amountIn paths callback

/-- Only the request of a session matters to its quotes. -/
theorem uncachedRun_congr {other : RouteSearchSession}
    (hrequest : other.request = session.request) :
    other.uncachedRun call onEvent = session.uncachedRun call onEvent := by
  unfold uncachedRun callEnv
  rw [hrequest]

theorem uncachedRun_nil (event : RouteQuote → RouteUpdateEvent) (callback : κ) :
    (session.uncachedRun call onEvent event [] callback).observed = callback := by
  unfold uncachedRun
  rw [quotePathsWithRegistryObserved_eq]
  rfl

/-- A quoting loop over covered paths runs as it does without a cache. -/
theorem quotePaths_spec (hcall : session.Serviceable call)
    (hfiled : session.quoteCache.Filed)
    (hsettled : Settled SharedQuoteCache.table (session.Allowed (session.callEnv call))
      session.quoteCache) {paths : List RoutePath}
    (hcovers : ∀ path ∈ paths, ∀ hop ∈ path, session.Covers hop)
    (event : RouteQuote → RouteUpdateEvent) (callback : κ) :
    ∃ report quoteCache,
      session.quotePaths call onEvent event paths callback = some (report, quoteCache) ∧
      quoteCache.Filed ∧
      Settled SharedQuoteCache.table (session.Allowed (session.callEnv call)) quoteCache ∧
      SameRun report (session.uncachedRun call onEvent event paths callback) := by
  obtain ⟨report, quoteCache, hrun, hsame, hsettled', hfiled'⟩ :=
    SharedQuoteCache.runProgram_spec hfiled hsettled
      ((serves_allowed hcall.keyed).meets_quotePathsWithRegistryObservedCached
        session.request.amountIn hcovers callback)
  exact ⟨report, quoteCache, hrun, hfiled', hsettled', hsame⟩

/-- What a quoting loop leaves.  If it `ranOn` to its end, every entry is what quoting its
path gives, or it was there before and is not in `failed`. -/
structure Requoted (session next : RouteSearchSession) (env : QuoteEnv)
    (failed : List RoutePath) (ranOn : Prop) : Prop where
  request : next.request = session.request
  indexed : next.Indexed
  filed : next.quoteCache.Filed
  settled : Settled SharedQuoteCache.table (next.Allowed env) next.quoteCache
  covers : ∀ hop, session.Covers hop → next.Covers hop
  entries : ranOn → ∀ path entry, next.routeTable.lookup path = some entry →
    entry.Truthful env session.request.amountIn path ∨
      (path ∉ failed ∧ session.routeTable.lookup path = some entry)

/-- The session after a quoting loop: it has the cache of the loop, `failed` are failed, and
then the quotes are inserted. -/
def inserted (session : RouteSearchSession) (searcher : AmmSearcher G)
    (quoteCache : SharedQuoteCache) (failed : List RoutePath) (quotes : List RouteQuote) :
    RouteSearchSession :=
  ({ session with quoteCache := quoteCache }.insertFailures failed).insertQuotes searcher
    quotes

/-- The quotes of a loop over `paths`: if it `ranOn` to its end, all that there are. -/
structure LoopQuotes (env : QuoteEnv) (amountIn : U256) (paths : List RoutePath)
    (ranOn : Prop) (quotes : List RouteQuote) : Prop where
  quoted : ∀ quote ∈ quotes, quote.path ∈ paths ∧ env.Gives amountIn quote
  complete : ranOn → ∀ path ∈ paths, ∀ quote,
    env.quotePathWithRegistry path amountIn = .ok quote → quote ∈ quotes

theorem loopQuotes_nil {env : QuoteEnv} {amountIn : U256} {ranOn : Prop} :
    LoopQuotes env amountIn [] ranOn [] :=
  ⟨fun _ hquote => absurd hquote List.not_mem_nil,
    fun _ _ hpath => absurd hpath List.not_mem_nil⟩

/-- A path holds its quote from the loop; the others have failed or are as before. -/
theorem lookup_inserted {quoteCache : SharedQuoteCache} {failed : List RoutePath}
    {quotes : List RouteQuote} (path : RoutePath) :
    (∃ quote ∈ quotes, quote.path = path ∧
        (session.inserted call.searcher quoteCache failed quotes).routeTable.lookup path =
          some (.quoted quote)) ∨
      ((∀ quote ∈ quotes, quote.path ≠ path) ∧
        (session.inserted call.searcher quoteCache failed quotes).routeTable.lookup path =
          if path ∈ failed then some .failed else session.routeTable.lookup path) := by
  obtain hquoted | ⟨hnone, hlookup⟩ := @lookup_insertQuotes G call.searcher
    ({ session with quoteCache := quoteCache }.insertFailures failed) quotes path
  · exact Or.inl hquoted
  · exact Or.inr ⟨hnone, hlookup.trans (lookup_insertFailures path)⟩

/-- Inserting quotes of covered paths covers no new pair of tokens. -/
theorem requoted_inserted {env : QuoteEnv} (hindexed : session.Indexed)
    {quoteCache : SharedQuoteCache} (hfiled : quoteCache.Filed)
    (hsettled : Settled SharedQuoteCache.table (session.Allowed env) quoteCache)
    {paths failed : List RoutePath}
    (hfailed : ∀ path ∈ failed, path ∈ session.routeTable ∧ path ∈ paths)
    (hcovers : ∀ path ∈ paths, ∀ hop ∈ path, session.Covers hop) {ranOn done : Prop}
    (hruns : done → ∀ path ∈ failed, ranOn) {quotes : List RouteQuote}
    (hquotes : LoopQuotes env session.request.amountIn paths ranOn quotes) :
    Requoted session (session.inserted call.searcher quoteCache failed quotes) env failed
      done := by
  let base : RouteSearchSession := { session with quoteCache := quoteCache }
  have htabled : ∀ path ∈ failed, path ∈ base.routeTable := fun path hpath =>
    (hfailed path hpath).1
  have hbase : base.Indexed := ⟨hindexed.routes, hindexed.tabled, hindexed.probes⟩
  have hcleared := hbase.insertFailures htabled
  have hcovered : ∀ hop, (base.insertFailures failed).Covers hop ↔ session.Covers hop :=
    fun hop => @covers_insertFailures base failed htabled hop
  refine ⟨?_, hcleared.insertQuotes, ?_, ?_, ?_, ?_⟩
  · exact request_insertQuotes.trans request_insertFailures
  · unfold inserted
    rw [quoteCache_insertQuotes, quoteCache_insertFailures]
    exact hfiled
  · unfold inserted
    rw [quoteCache_insertQuotes, quoteCache_insertFailures]
    apply hsettled.mono
    intro key entry hallowed
    apply hallowed.of_pairs
    · intro tokenIn tokenOut hpair
      obtain hold | ⟨quote, hquote, hop, hhop, rfl, rfl⟩ := hpair.of_insertQuotes
      · exact (@hasPair_insertFailures base failed htabled tokenIn tokenOut).mp hold
      · exact (hcovers _ (hquotes.quoted quote hquote).1 hop hhop).2
    · intro pool hfiles
      exact Files.insertQuotes (files_insertFailures.mpr hfiles)
  · intro hop hhop
    have hkept := (hcovered hop).mpr hhop
    exact ⟨hkept.1.insertQuotes, hkept.2.insertQuotes⟩
  · intro hdone path entry hlookup
    unfold RouteSessionEntry.Truthful
    obtain ⟨quote, hquote, rfl, hfound⟩ | ⟨hnone, hfound⟩ :=
      @lookup_inserted G session call quoteCache failed quotes path
    · -- a quoted path holds its quote
      left
      rw [hfound, Option.some.injEq] at hlookup
      have hgives := (hquotes.quoted quote hquote).2
      unfold QuoteEnv.Gives at hgives
      rw [hgives]
      exact hlookup.symm
    · rw [hfound] at hlookup
      split at hlookup
      · -- a failed path without a quote cannot be quoted, because the loop was not stopped
        rename_i hpath
        left
        obtain rfl := Option.some.inj hlookup
        cases hquote : env.quotePathWithRegistry path session.request.amountIn with
        | error error => rfl
        | ok quote =>
            have hmem := hquotes.complete (hruns hdone path hpath) path
              (hfailed path hpath).2 quote hquote
            exact absurd (QuoteEnv.path_of_quotePathWithRegistry hquote).1
              (hnone quote hmem)
      · rename_i hpath
        exact Or.inr ⟨hpath, hlookup⟩

/-- The quoting loop is not stopped. -/
def RunsOn (session : RouteSearchSession) (call : RefreshCall G)
    (onEvent : RouteUpdateCallback κ) (event : RouteQuote → RouteUpdateEvent)
    (paths : List RoutePath) (callback : κ) : Prop :=
  (session.uncachedRun call onEvent event paths callback).stopped = false

/-- The session that the first loop leaves. -/
theorem requoteRoutes_spec (hcall : session.Serviceable call) (hindexed : session.Indexed)
    (hfiled : session.quoteCache.Filed)
    (hsettled : Settled SharedQuoteCache.table (session.Allowed (session.callEnv call))
      session.quoteCache) {paths : List RoutePath} (hnodup : paths.Nodup)
    (hpaths : ∀ path ∈ paths, path ∈ session.routeTable) (callback : κ) :
    ∃ quoteCache quotes count, session.requoteRoutes call onEvent paths callback =
        some (session.inserted call.searcher quoteCache paths quotes,
          (session.uncachedRun call onEvent .routeRequoted paths callback).observed, count) ∧
      LoopQuotes (session.callEnv call) session.request.amountIn paths
        (session.RunsOn call onEvent .routeRequoted paths callback) quotes ∧
      Requoted session (session.inserted call.searcher quoteCache paths quotes)
        (session.callEnv call) paths
        (session.RunsOn call onEvent .routeRequoted paths callback) := by
  have hcovers : ∀ path ∈ paths, ∀ hop ∈ path, session.Covers hop :=
    fun path hpath hop hhop => hindexed.covers (hpaths path hpath) hhop
  unfold requoteRoutes
  split
  · rename_i hempty
    subst hempty
    rw [uncachedRun_nil]
    have hquotes := @loopQuotes_nil (session.callEnv call) session.request.amountIn
      (session.RunsOn call onEvent .routeRequoted [] callback)
    exact ⟨session.quoteCache, [], 0, rfl, hquotes,
      requoted_inserted hindexed hfiled hsettled (by simp) hcovers (by simp) hquotes⟩
  · obtain ⟨report, quoteCache, hrun, hfiled', hsettled', hsame⟩ := @quotePaths_spec G κ
      session call onEvent hcall hfiled hsettled paths hcovers .routeRequoted callback
    obtain ⟨hquoted, hcomplete, hfailed⟩ :=
      pathsQuoted_of_sameRun hcall.published hnodup hsame
    have hquotes : LoopQuotes (session.callEnv call) session.request.amountIn paths
        (session.RunsOn call onEvent .routeRequoted paths callback) report.quotes :=
      ⟨hquoted, fun hruns => hcomplete (hsame.stopped.trans hruns)⟩
    have hagain := @insertFailures_again { session with quoteCache := quoteCache } paths
      (report.failures.map PathFailure.path) (by
        intro path hpath
        obtain ⟨failure, hfailure, rfl⟩ := List.mem_map.mp hpath
        exact hfailed failure hfailure)
    refine ⟨quoteCache, report.quotes, report.quotes.length, ?_, hquotes,
      requoted_inserted hindexed hfiled' hsettled'
        (fun path hpath => ⟨hpaths path hpath, hpath⟩) hcovers (fun hruns _ _ => hruns)
        hquotes⟩
    rw [hrun, ← hsame.observed]
    unfold inserted
    rw [← hagain]
    rfl

/-- The session that the second loop leaves. -/
theorem quoteProbes_spec (hcall : session.Serviceable call) (hindexed : session.Indexed)
    (hfiled : session.quoteCache.Filed)
    (hsettled : Settled SharedQuoteCache.table (session.Allowed (session.callEnv call))
      session.quoteCache) {paths : List RoutePath} (hnodup : paths.Nodup)
    (hcovers : ∀ path ∈ paths, ∀ hop ∈ path, session.Covers hop) (callback : κ) :
    ∃ quoteCache quotes count, session.quoteProbes call onEvent paths callback =
        some (session.inserted call.searcher quoteCache [] quotes,
          (session.uncachedRun call onEvent .probeRouteFound paths callback).observed,
          count) ∧
      LoopQuotes (session.callEnv call) session.request.amountIn paths
        (session.RunsOn call onEvent .probeRouteFound paths callback) quotes ∧
      Requoted session (session.inserted call.searcher quoteCache [] quotes)
        (session.callEnv call) [] True := by
  unfold quoteProbes
  split
  · rename_i hempty
    subst hempty
    rw [uncachedRun_nil]
    have hquotes := @loopQuotes_nil (session.callEnv call) session.request.amountIn
      (session.RunsOn call onEvent .probeRouteFound [] callback)
    exact ⟨session.quoteCache, [], 0, rfl, hquotes,
      requoted_inserted hindexed hfiled hsettled (by simp) hcovers (by simp) hquotes⟩
  · obtain ⟨report, quoteCache, hrun, hfiled', hsettled', hsame⟩ := @quotePaths_spec G κ
      session call onEvent hcall hfiled hsettled paths hcovers .probeRouteFound callback
    obtain ⟨hquoted, hcomplete, _⟩ := pathsQuoted_of_sameRun hcall.published hnodup hsame
    have hquotes : LoopQuotes (session.callEnv call) session.request.amountIn paths
        (session.RunsOn call onEvent .probeRouteFound paths callback) report.quotes :=
      ⟨hquoted, fun hruns => hcomplete (hsame.stopped.trans hruns)⟩
    rw [hrun, ← hsame.observed]
    exact ⟨quoteCache, report.quotes, report.quotes.length, rfl, hquotes,
      requoted_inserted hindexed hfiled' hsettled' (by simp) hcovers (by simp) hquotes⟩

end Phases

section Best

theorem isBest_laterMax {quotes : List RouteQuote} {best : Option RouteQuote}
    (hbest : IsBest quotes best) (quote : RouteQuote) :
    IsBest (quotes ++ [quote]) (laterMax best quote) := by
  cases best with
  | none =>
      obtain rfl : quotes = [] := hbest
      simp [laterMax, IsBest]
  | some best =>
      obtain ⟨hmem, hmax⟩ := hbest
      by_cases hsmaller : quote.amountOut < best.amountOut
      · rw [laterMax, if_pos hsmaller]
        refine ⟨List.mem_append_left _ hmem, ?_⟩
        intro other hother
        rcases List.mem_append.mp hother with hold | hlast
        · exact hmax other hold
        · rw [List.mem_singleton.mp hlast]
          exact hsmaller.le
      · rw [laterMax, if_neg hsmaller]
        refine ⟨List.mem_append_right _ List.mem_cons_self, ?_⟩
        intro other hother
        rcases List.mem_append.mp hother with hold | hlast
        · exact (hmax other hold).trans (not_lt.mp hsmaller)
        · rw [List.mem_singleton.mp hlast]

theorem isBest_foldl_laterMax {quotes : List RouteQuote} {best : Option RouteQuote}
    (hbest : IsBest quotes best) (rest : List RouteQuote) :
    IsBest (quotes ++ rest) (rest.foldl laterMax best) := by
  induction rest generalizing quotes best with
  | nil => simpa using hbest
  | cons quote rest ih =>
      have hrest := ih (isBest_laterMax hbest quote)
      rw [List.append_assoc, List.singleton_append] at hrest
      exact hrest

/-- The chosen quote is the best of the table. -/
theorem bestFromTable_spec (session : RouteSearchSession) (order : HashOrder RoutePath) :
    BestOfTable { session with best := session.bestFromTable order } := by
  have hmem : ∀ quote, quote ∈ ((order.list session.routeTable.keys).filterMap fun path =>
      (session.routeTable.lookup path).bind RouteSessionEntry.quote) ↔
      ∃ path, session.routeTable.lookup path = some (.quoted quote) := by
    intro quote
    rw [List.mem_filterMap]
    constructor
    · rintro ⟨path, _, hquote⟩
      obtain ⟨entry, hentry, hentryQuote⟩ := Option.bind_eq_some_iff.mp hquote
      cases entry with
      | failed => cases hentryQuote
      | quoted found => exact ⟨path, Option.some.inj hentryQuote ▸ hentry⟩
    · rintro ⟨path, hlookup⟩
      refine ⟨path, ?_, by simp [hlookup, RouteSessionEntry.quote]⟩
      rw [order.mem_list, Finmap.mem_keys]
      exact Finmap.mem_of_lookup_eq_some hlookup
  have hbest := @isBest_foldl_laterMax [] none rfl
    ((order.list session.routeTable.keys).filterMap fun path =>
      (session.routeTable.lookup path).bind RouteSessionEntry.quote)
  rw [List.nil_append] at hbest
  change IsBest _ (session.bestFromTable order) at hbest
  unfold BestOfTable
  simp only
  cases hchosen : session.bestFromTable order with
  | none =>
      rw [hchosen] at hbest
      intro path quote hlookup
      have hquote := (hmem quote).mpr ⟨path, hlookup⟩
      rw [show _ = [] from hbest] at hquote
      exact absurd hquote List.not_mem_nil
  | some best =>
      rw [hchosen] at hbest
      refine ⟨(hmem best).mp hbest.1, ?_⟩
      intro path quote hlookup
      exact hbest.2 quote ((hmem quote).mpr ⟨path, hlookup⟩)

end Best

section Refresh

variable {G : Type} {κ : Type}
  {session : RouteSearchSession} {call : RefreshCall G} {onEvent : RouteUpdateCallback κ}
  {env : QuoteEnv}

theorem mem_sortedPaths {searcher : AmmSearcher G} {order : HashOrder RoutePath}
    {paths : Finset RoutePath} {path : RoutePath} :
    path ∈ searcher.sortedPaths order paths ↔ path ∈ paths := by
  unfold AmmSearcher.sortedPaths
  rw [(List.perm_insertionSort _ _).mem_iff, order.mem_list]

theorem nodup_sortedPaths (searcher : AmmSearcher G) (order : HashOrder RoutePath)
    (paths : Finset RoutePath) : (searcher.sortedPaths order paths).Nodup := by
  unfold AmmSearcher.sortedPaths
  rw [(List.perm_insertionSort _ _).nodup_iff]
  exact order.nodup_list paths

theorem mem_materializedPaths {path : RoutePath} :
    path ∈ session.materializedPaths call ↔
      ∃ pool ∈ call.affected.pools, path ∈ session.poolToRoutes.pathsOf pool :=
  Finset.mem_biUnion

theorem mem_probePaths {path : RoutePath} :
    path ∈ session.probePaths call ↔
      (∃ pool ∈ call.affected.pools, path ∈ session.parallelProbeIndex.pathsOf pool) ∧
        path ∉ session.materializedPaths call := by
  unfold probePaths
  rw [Finset.mem_sdiff, Finset.mem_biUnion]

/-- The pools that the call does not name are quoted as before. -/
def Unaffected (session : RouteSearchSession) (env : QuoteEnv) (call : RefreshCall G) :
    Prop :=
  ∀ pool, pool ∉ call.affected.pools → env.Alike (session.callEnv call) pool

/-- An entry whose path is not quoted again is still what quoting gives. -/
theorem Current.truthful (hcurrent : session.Current env)
    (hunaffected : session.Unaffected env call) {path : RoutePath}
    {entry : RouteSessionEntry} (hlookup : session.routeTable.lookup path = some entry)
    (hpath : path ∉ session.materializedPaths call) :
    entry.Truthful (session.callEnv call) session.request.amountIn path := by
  apply (hcurrent.exact.entries path entry hlookup).of_alike
  intro hop hhop
  apply hunaffected
  intro hpool
  exact hpath (mem_materializedPaths.mpr ⟨hop.pool, hpool,
    hcurrent.indexed.routes path (Finmap.mem_of_lookup_eq_some hlookup) hop hhop⟩)

/-- What the session relies on are the quotes of its filed pools. -/
theorem Current.of_alike {other : QuoteEnv} (hcurrent : session.Current env)
    (halike : ∀ pool, session.Files pool → env.Alike other pool) :
    session.Current other := by
  refine ⟨hcurrent.indexed, ⟨?_, hcurrent.exact.best⟩, hcurrent.filed, ?_⟩
  · intro path entry hlookup
    apply (hcurrent.exact.entries path entry hlookup).of_alike
    intro hop hhop
    exact halike hop.pool (hcurrent.indexed.covers
      (Finmap.mem_of_lookup_eq_some hlookup) hhop).1
  · apply hcurrent.settled.mono
    intro key entry hallowed hpair
    obtain ⟨hfiles, hentry⟩ := hallowed hpair
    exact ⟨hfiles, hentry.trans (halike key.logicalPool hfiles _ _ rfl)⟩

/-- When no affected pool is filed, nothing the session relies on has changed. -/
theorem Current.of_unfiled (hcurrent : session.Current env)
    (hunaffected : session.Unaffected env call)
    (hunfiled : ∀ pool ∈ call.affected.pools, ¬session.Files pool) :
    session.Current (session.callEnv call) := by
  apply hcurrent.of_alike
  intro pool hfiles
  exact hunaffected pool fun hpool => hunfiled pool hpool hfiles

/-- The first quoting loop of the call is not stopped. -/
def RequotesAll (session : RouteSearchSession) (call : RefreshCall G)
    (onEvent : RouteUpdateCallback κ) (callback : κ) : Prop :=
  session.RunsOn call onEvent .routeRequoted
    (call.searcher.sortedPaths call.pathOrder (session.materializedPaths call)) callback

/-- The callback after both quoting loops of the call. -/
def quotedCallback (session : RouteSearchSession) (call : RefreshCall G)
    (onEvent : RouteUpdateCallback κ) (callback : κ) : κ :=
  (session.uncachedRun call onEvent .probeRouteFound
    (call.searcher.sortedPaths call.pathOrder (session.probePaths call))
    (session.uncachedRun call onEvent .routeRequoted
      (call.searcher.sortedPaths call.pathOrder (session.materializedPaths call))
      callback).observed).observed

/-- The second quoting loop of the call is not stopped. -/
def ProbesAll (session : RouteSearchSession) (call : RefreshCall G)
    (onEvent : RouteUpdateCallback κ) (callback : κ) : Prop :=
  session.RunsOn call onEvent .probeRouteFound
    (call.searcher.sortedPaths call.pathOrder (session.probePaths call))
    (session.uncachedRun call onEvent .routeRequoted
      (call.searcher.sortedPaths call.pathOrder (session.materializedPaths call))
      callback).observed

/-- What the two quoting loops of the call leave: `requoted` after the routes, and `probed`
after the probes. -/
structure Requotes (session : RouteSearchSession) (call : RefreshCall G)
    (onEvent : RouteUpdateCallback κ) (callback : κ) (requoted probed : RouteSearchSession) :
    Prop where
  routes : ∃ quoteCache quotes,
    requoted = (session.invalidated call).inserted call.searcher quoteCache
      (call.searcher.sortedPaths call.pathOrder (session.materializedPaths call)) quotes ∧
    LoopQuotes (session.callEnv call) session.request.amountIn
      (call.searcher.sortedPaths call.pathOrder (session.materializedPaths call))
      (session.RequotesAll call onEvent callback) quotes
  probes : ∃ quoteCache quotes,
    probed = requoted.inserted call.searcher quoteCache [] quotes ∧
    LoopQuotes (session.callEnv call) session.request.amountIn
      (call.searcher.sortedPaths call.pathOrder (session.probePaths call))
      (session.ProbesAll call onEvent callback) quotes
  first : Requoted session requoted (session.callEnv call)
    (call.searcher.sortedPaths call.pathOrder (session.materializedPaths call))
    (session.RequotesAll call onEvent callback)
  second : Requoted requoted probed (session.callEnv call) [] True

/-- A refresh that quotes, whether or not it is stopped. -/
theorem requote_runs (hindexed : session.Indexed) (hfiled : session.quoteCache.Filed)
    (hsettled : Settled SharedQuoteCache.table (session.Allowed env) session.quoteCache)
    (hunaffected : session.Unaffected env call) (hcall : session.Serviceable call)
    (callback : κ) :
    ∃ requoted probed routesRequoted probeRoutesQuoted,
      session.requote call onEvent callback =
        some (finishRefresh probed call onEvent session.best routesRequoted probeRoutesQuoted
          (session.quotedCallback call onEvent callback)) ∧
      session.Requotes call onEvent callback requoted probed := by
  have hinvalid : (session.invalidated call).Indexed :=
    ⟨hindexed.routes, hindexed.tabled, hindexed.probes⟩
  have hpools : ∀ pool, pool ∉ call.poolOrder.list call.affected.pools →
      env.Alike (session.callEnv call) pool := by
    intro pool hpool
    rw [call.poolOrder.mem_list] at hpool
    exact hunaffected pool hpool
  have hsettled' := settled_invalidatePools hfiled hsettled hpools
  obtain ⟨hfiled', _⟩ := hfiled.invalidatePools (call.poolOrder.list call.affected.pools)
  have hmaterialized : ∀ path ∈ call.searcher.sortedPaths call.pathOrder
      (session.materializedPaths call), path ∈ session.routeTable := by
    intro path hpath
    obtain ⟨pool, _, hfiles⟩ := mem_materializedPaths.mp (mem_sortedPaths.mp hpath)
    exact hindexed.tabled pool path hfiles
  obtain ⟨quoteCache, quotes, count, hroutes, hquotes, hrequoted⟩ := @requoteRoutes_spec G κ
    (session.invalidated call) call onEvent ⟨hcall.keyed, hcall.published⟩ hinvalid hfiled'
    hsettled' _ (nodup_sortedPaths _ _ _) hmaterialized callback
  generalize hsession : (session.invalidated call).inserted call.searcher quoteCache _ quotes =
    requoted at hroutes hrequoted
  -- the probes of the call are covered before the first loop, so also after it
  have hprobes : ∀ path ∈ call.searcher.sortedPaths call.pathOrder
      (session.probePaths call), ∀ hop ∈ path, requoted.Covers hop := by
    intro path hpath hop hhop
    obtain ⟨⟨pool, _, hfiles⟩, _⟩ := mem_probePaths.mp (mem_sortedPaths.mp hpath)
    exact hrequoted.covers hop (hindexed.probes pool path hfiles hop hhop)
  have hrequest : requoted.request = session.request := hrequoted.request
  have hsame : requoted.callEnv call = session.callEnv call := by
    unfold callEnv
    rw [hrequest]
  have hserviceable : requoted.Serviceable call := ⟨hcall.keyed, hsame ▸ hcall.published⟩
  obtain ⟨probeCache, probeQuotes, probeCount, hquoted, hprobeQuotes, hprobed⟩ :=
    @quoteProbes_spec G κ requoted call onEvent hserviceable hrequoted.indexed hrequoted.filed
      (hsame ▸ hrequoted.settled) _ (nodup_sortedPaths _ _ _) hprobes
      (session.uncachedRun call onEvent .routeRequoted
        (call.searcher.sortedPaths call.pathOrder (session.materializedPaths call))
        callback).observed
  have hinvalidated : (session.invalidated call).uncachedRun call onEvent =
    session.uncachedRun call onEvent := uncachedRun_congr rfl
  have hloop : requoted.uncachedRun call onEvent = session.uncachedRun call onEvent :=
    uncachedRun_congr hrequest
  rw [hinvalidated] at hroutes
  unfold RunsOn at hprobeQuotes
  rw [hsame, hrequest, hloop] at hprobeQuotes
  rw [hsame] at hprobed
  refine ⟨requoted, _, count, probeCount, ?_, ⟨quoteCache, quotes, hsession.symm, hquotes⟩,
    ⟨probeCache, probeQuotes, rfl, hprobeQuotes⟩, ?_, hprobed⟩
  · rw [hloop] at hquoted
    unfold requote
    simp only [hroutes, bind, Option.bind, hquoted]
    rfl
  · exact ⟨hrequest, hrequoted.indexed, hrequoted.filed, hrequoted.settled,
      hrequoted.covers, hrequoted.entries⟩

theorem requote_spec (hcurrent : session.Current env)
    (hunaffected : session.Unaffected env call) (hcall : session.Serviceable call)
    (callback : κ) :
    ∃ probed routesRequoted probeRoutesQuoted, session.requote call onEvent callback =
        some (finishRefresh probed call onEvent session.best routesRequoted probeRoutesQuoted
          (session.quotedCallback call onEvent callback)) ∧
      probed.request = session.request ∧
      (session.RequotesAll call onEvent callback →
        Current { probed with best := probed.bestFromTable call.pathOrder }
          (session.callEnv call)) := by
  obtain ⟨requoted, probed, count₁, count₂, hrequote, hrequotes⟩ :=
    @requote_runs G κ session call onEvent env hcurrent.indexed hcurrent.filed
      hcurrent.settled hunaffected hcall callback
  have hrequoted := hrequotes.first
  have hprobed := hrequotes.second
  have hrequest : probed.request = session.request :=
    hprobed.request.trans hrequoted.request
  refine ⟨probed, count₁, count₂, hrequote, hrequest, ?_⟩
  intro hruns
  refine ⟨?_, ⟨?_, bestFromTable_spec probed call.pathOrder⟩, hprobed.filed,
    hprobed.settled⟩
  · exact ⟨hprobed.indexed.routes, hprobed.indexed.tabled, hprobed.indexed.probes⟩
  · intro path entry hlookup
    change entry.Truthful (session.callEnv call) probed.request.amountIn path
    rw [hrequest]
    obtain htrue | ⟨_, hbefore⟩ := hprobed.entries trivial path entry hlookup
    · rw [hrequoted.request] at htrue
      exact htrue
    · obtain htrue | ⟨hkept, hold⟩ := hrequoted.entries hruns path entry hbefore
      · exact htrue
      · exact hcurrent.truthful hunaffected hold fun hpath =>
          hkept (mem_sortedPaths.mpr hpath)

/-- The refresh declines to update in place. -/
def AsksForSearch (session : RouteSearchSession) (call : RefreshCall G) : Prop :=
  session.earlyRecomputeReason call ≠ none ∨ affectedPoolReason call ≠ none ∨
    session.maxProbePathsPerRefresh < (session.probePaths call).card

theorem not_files_of_paths (hmaterialized : session.materializedPaths call = ∅)
    (hprobes : session.probePaths call = ∅) {pool : PoolKey}
    (hpool : pool ∈ call.affected.pools) : ¬session.Files pool := by
  rintro ⟨path, hroute | hprobe⟩
  · have hmem := mem_materializedPaths.mpr ⟨pool, hpool, hroute⟩
    rw [hmaterialized] at hmem
    exact absurd hmem (Finset.notMem_empty path)
  · have hmem : path ∈ session.probePaths call := by
      rw [mem_probePaths, hmaterialized]
      exact ⟨⟨pool, hpool, hprobe⟩, Finset.notMem_empty path⟩
    rw [hprobes] at hmem
    exact absurd hmem (Finset.notMem_empty path)

/-- What a refresh does once its first event is answered: it asks for a new search, finds
nothing to quote, or quotes. -/
theorem refreshAffected_cases {callback : κ}
    (hstarted : (onEvent callback (.started call.affected.pools)).2 = .continue) :
    (session.AsksForSearch call ∧ ∃ reason,
      session.refreshAffected call onEvent callback =
        some (session.recomputeRequired onEvent session.best call.affected.pools reason
          (onEvent callback (.started call.affected.pools)).1)) ∨
    (¬session.AsksForSearch call ∧ (∀ pool ∈ call.affected.pools, ¬session.Files pool) ∧
      session.refreshAffected call onEvent callback =
        some (session.completeUnchanged onEvent call.affected.pools
          (onEvent callback (.started call.affected.pools)).1)) ∨
    (¬session.AsksForSearch call ∧
      session.refreshAffected call onEvent callback =
        session.requote call onEvent
          (onEvent callback (.started call.affected.pools)).1) := by
  unfold refreshAffected
  simp only [emitRouteUpdateEvent, hstarted, beq_self_eq_true, Bool.not_true,
    Bool.false_eq_true, if_false]
  split
  · rename_i reason hreason
    exact Or.inl ⟨Or.inl (by simp [hreason]), reason, rfl⟩
  · rename_i hearly
    split
    · rename_i hempty
      have hnothing : ∀ pool, pool ∉ call.affected.pools := by
        intro pool hpool
        rw [hempty] at hpool
        exact absurd hpool (Finset.notMem_empty pool)
      refine Or.inr (Or.inl ⟨?_, fun pool hpool => absurd hpool (hnothing pool), rfl⟩)
      have hpools : call.poolOrder.list call.affected.pools = [] := by
        apply List.eq_nil_iff_forall_not_mem.mpr
        intro pool hpool
        exact hnothing pool ((call.poolOrder.mem_list _ _).mp hpool)
      have hprobes : session.probePaths call = ∅ := by
        apply Finset.eq_empty_of_forall_notMem
        intro path hpath
        obtain ⟨⟨pool, hpool, _⟩, _⟩ := mem_probePaths.mp hpath
        exact hnothing pool hpool
      simp [AsksForSearch, hearly, affectedPoolReason, hpools, hprobes]
    · split
      · rename_i reason hreason
        exact Or.inl ⟨Or.inr (Or.inl (by simp [hreason])), reason, rfl⟩
      · rename_i hknown
        split
        · rename_i hnothing
          refine Or.inr (Or.inl ⟨?_, fun pool hpool =>
            not_files_of_paths hnothing.1 hnothing.2 hpool, rfl⟩)
          simp [AsksForSearch, hearly, hknown, hnothing.2]
        · split
          · rename_i hbudget
            exact Or.inl ⟨Or.inr (Or.inr hbudget), _, rfl⟩
          · rename_i hbudget
            refine Or.inr (Or.inr ⟨?_, rfl⟩)
            simpa [AsksForSearch, hearly, hknown] using hbudget

/-- A refresh whose first event and first quoting loop are let run makes the session
current, unless it reports that a new search is required. -/
theorem refreshAffected_current (hcurrent : session.Current env)
    (hunaffected : session.Unaffected env call) (hcall : session.Serviceable call)
    {callback : κ} (hstarted : (onEvent callback (.started call.affected.pools)).2 =
      .continue) :
    ∃ next callback' report,
      session.refreshAffected call onEvent callback = some (next, callback', report) ∧
      next.request = session.request ∧
      (session.RequotesAll call onEvent
          (onEvent callback (.started call.affected.pools)).1 →
        report.status ≠ .recomputeRequired → next.Current (session.callEnv call)) := by
  obtain ⟨_, reason, hrefresh⟩ | ⟨_, hunfiled, hrefresh⟩ | ⟨_, hrefresh⟩ :=
    @refreshAffected_cases G κ session call onEvent callback hstarted
  · exact ⟨_, _, _, hrefresh, rfl, fun _ hstatus => absurd rfl hstatus⟩
  · exact ⟨_, _, _, hrefresh, rfl, fun _ _ => hcurrent.of_unfiled hunaffected hunfiled⟩
  · obtain ⟨probed, count₁, count₂, hrequote, hrequest, hnext⟩ :=
      @requote_spec G κ session call onEvent env hcurrent hunaffected hcall
        (onEvent callback (.started call.affected.pools)).1
    exact ⟨_, _, _, hrefresh.trans hrequote, hrequest, fun hruns _ => hnext hruns⟩

end Refresh

end RouteSearchSession

section Sessions

variable {G : Type} [StableDiGraph G Address EdgeData] {searcher : AmmSearcher G}
  {request : RouteRequest}

/-- The sessions that refreshes reach from `start`, each with the searcher of the last
one: the callbacks answer `Continue`, every pool whose quotes have changed is named, and
no refresh asks for a new search. -/
inductive Refreshed (searcher : AmmSearcher G) (start : RouteSearchSession) :
    AmmSearcher G → RouteSearchSession → Prop
  | start : Refreshed searcher start searcher start
  | refresh {last : AmmSearcher G} {session next : RouteSearchSession} {κ : Type}
      {call : RefreshCall G} {onEvent : RouteUpdateCallback κ} {callback callback' : κ}
      {report : IncrementalRouteUpdateReport}
      (hsession : Refreshed searcher start last session)
      (hcontinue : ∀ callback event, (onEvent callback event).2 = .continue)
      (hcall : session.Serviceable call)
      (hunaffected : session.Unaffected (last.quoteEnv session.request.simConfig) call)
      (hrefresh : session.refreshAffected call onEvent callback =
        some (next, callback', report))
      (hstatus : report.status ≠ .recomputeRequired) :
      Refreshed searcher start call.searcher next

omit [StableDiGraph G Address EdgeData] in
theorem requotesAll_of_continue {session : RouteSearchSession} {call : RefreshCall G}
    {κ : Type} {onEvent : RouteUpdateCallback κ}
    (hcontinue : ∀ callback event, (onEvent callback event).2 = .continue)
    (callback : κ) : session.RequotesAll call onEvent callback := by
  apply (quotePathsWithRegistryObserved_continues _ _ _).1
  intro callback quote
  simp [emitRouteUpdateEvent, hcontinue]

omit [StableDiGraph G Address EdgeData] in
theorem probesAll_of_continue {session : RouteSearchSession} {call : RefreshCall G}
    {κ : Type} {onEvent : RouteUpdateCallback κ}
    (hcontinue : ∀ callback event, (onEvent callback event).2 = .continue)
    (callback : κ) : session.ProbesAll call onEvent callback := by
  apply (quotePathsWithRegistryObserved_continues _ _ _).1
  intro callback quote
  simp [emitRouteUpdateEvent, hcontinue]

omit [StableDiGraph G Address EdgeData] in
theorem Refreshed.current {start session : RouteSearchSession} {last : AmmSearcher G}
    (hstart : start.Current (searcher.quoteEnv start.request.simConfig))
    (hrefreshed : Refreshed searcher start last session) :
    session.request = start.request ∧
      session.Current (last.quoteEnv start.request.simConfig) := by
  induction hrefreshed with
  | start => exact ⟨rfl, hstart⟩
  | refresh hsession hcontinue hcall hunaffected hrefresh hstatus ih =>
      obtain ⟨hrequest, hcurrent⟩ := ih
      rw [hrequest] at hunaffected
      obtain ⟨next, callback', report, hrun, hsame, hnext⟩ :=
        RouteSearchSession.refreshAffected_current hcurrent hunaffected hcall
          (hcontinue _ _)
      rw [hrefresh, Option.some.injEq, Prod.mk.injEq, Prod.mk.injEq] at hrun
      obtain ⟨rfl, rfl, rfl⟩ := hrun
      refine ⟨hsame.trans hrequest, ?_⟩
      have hafter := hnext
        (requotesAll_of_continue hcontinue _) hstatus
      unfold RouteSearchSession.callEnv at hafter
      rwa [hrequest] at hafter

/-- After any sequence of refreshes that name the changed pools, every table entry is
what quoting its path gives now and the best quote is the best of the table; the next
refresh that is let go on has a result. -/
theorem refreshed_exact (hkeyed : searcher.quoteContext.Keyed)
    {programs : List (QuoteProgram Unit)}
    (hasks : ∀ program ∈ programs, program.Asks (searcher.StreamAnswer request))
    {cacheSchedule : List ℕ} {streaming : StreamingSearchConfig}
    {schedule : List FanIn.Event} {κ : Type} {onEvent : EventCallback κ}
    {callback callback' : κ} {start : RouteSearchSession}
    (hstart : searcher.startRouteSession request streaming schedule onEvent
      (streamCache programs cacheSchedule) callback = (callback', .ok start))
    {last : AmmSearcher G} {session : RouteSearchSession}
    (hrefreshed : Refreshed searcher start last session) :
    session.Exact (last.quoteEnv request.simConfig) ∧
      ∀ {μ : Type} (call : RefreshCall G) (onUpdate : RouteUpdateCallback μ)
        (update : μ), session.Serviceable call →
        session.Unaffected (last.quoteEnv request.simConfig) call →
        (∀ update event, (onUpdate update event).2 = .continue) →
        (session.refreshAffected call onUpdate update).isSome = true := by
  obtain ⟨hfiled, hsettled⟩ := streamCache_spec hkeyed hasks cacheSchedule
  obtain ⟨hrequest, hcurrent⟩ :=
    AmmSearcher.startRouteSession_current hkeyed hfiled hsettled hstart
  rw [← hrequest] at hcurrent
  obtain ⟨hsame, hsession⟩ := hrefreshed.current hcurrent
  rw [hrequest] at hsession
  refine ⟨hsession.exact, ?_⟩
  intro μ call onUpdate update hcall hunaffected hcontinue
  obtain ⟨next, update', report, hrun, _⟩ :=
    RouteSearchSession.refreshAffected_current hsession hunaffected hcall
      (hcontinue update _)
  rw [hrun]
  rfl

end Sessions

namespace RoundTripExample

/-- The searcher after the first of the two pools has begun to pay double. -/
def doublingSearcher : AmmSearcher (SlotGraph Address EdgeData) :=
  searcherOver { registry with
    adapter := fun _ => some ⟨fun pool _ _ amount _ =>
      if pool.key.debug = ['a'] then .ok (amount + amount) else .ok amount⟩ }

def firstPool : PoolKey := (TwoPoolExample.pool ['a'] 1 2).key

def hopPosition (hop : Hop) : PoolKey ×ₗ Address ×ₗ Address :=
  toLex (hop.pool, toLex (hop.tokenIn, hop.tokenOut))

theorem hopPosition_injective : Function.Injective hopPosition := by
  rintro ⟨_, _, _⟩ ⟨_, _, _⟩ hposition
  simpa [hopPosition] using hposition

def pathOrder : HashOrder RoutePath :=
  letI : LinearOrder Hop := LinearOrder.lift' hopPosition hopPosition_injective
  .ascending

/-- The refresh that follows the change of the first pool. -/
def doublingCall : RefreshCall (SlotGraph Address EdgeData) where
  searcher := doublingSearcher
  affected := { pools := {firstPool} }
  poolOrder := .ascending
  pathOrder := pathOrder

/-- The two direct quotes of the stream, as its workers ask the cache for them. -/
def directPrograms : List (QuoteProgram Unit) :=
  registry.pools.map fun pool =>
    (quoteHopCached (searcher.quoteEnv narrowRequest.simConfig) searcher.quoteContext
      ⟨pool.key, 1, 2⟩ narrowRequest.amountIn).bind fun _ => .done ()

def startedSession : Unit × Except SearchError RouteSearchSession :=
  searcher.startRouteSession narrowRequest streaming [.work 1 true, .work 0 true, .receive]
    (fun _ _ => ((), .continue)) (streamCache directPrograms [0, 1, 0, 1]) ()

theorem graphHop_direct {pool : PoolRegistration} (hpool : pool ∈ registry.pools) :
    searcher.GraphHop ⟨pool.key, 1, 2⟩ := by
  have hedge : ∀ pool ∈ registry.pools, ∃ node,
      searcher.graph.nodeIndex 1 = some node ∧
      ∃ edge ∈ searcher.graph.outgoingEdges node, edge.tokenOut = 2 ∧ edge.pool = pool.key := by
    refine fun pool hpool => ⟨0, rfl, ?_⟩
    revert pool
    decide +kernel
  exact hedge pool hpool

theorem asks_directPrograms : ∀ program ∈ directPrograms,
    program.Asks (searcher.StreamAnswer narrowRequest) := by
  intro program hprogram
  obtain ⟨pool, hpool, rfl⟩ := List.mem_map.mp hprogram
  refine Program.Asks.bind ?_ trivial
  refine ⟨?_, trivial⟩
  exact ⟨⟨pool.key, 1, 2⟩, narrowRequest.amountIn, graphHop_direct hpool, rfl, rfl⟩

/-- The other pool pays as before. -/
theorem alike_doublingSearcher (simConfig : SimConfig) {pool : PoolKey}
    (hpool : pool ≠ firstPool) :
    (searcher.quoteEnv simConfig).Alike (doublingSearcher.quoteEnv simConfig) pool := by
  rintro hop amount rfl
  have hbefore : (searcher.quoteEnv simConfig).registry.pool hop.pool =
    registry.pool hop.pool := rfl
  have hafter : (doublingSearcher.quoteEnv simConfig).registry.pool hop.pool =
    registry.pool hop.pool := rfl
  unfold QuoteEnv.simulateHop
  rw [hbefore, hafter]
  cases hfound : registry.pool hop.pool with
  | none => rfl
  | some registration =>
      obtain ⟨hmem, hkey⟩ := (registry.pool_eq_some_iff _ _).mp hfound
      have hname : registration.key.debug ≠ ['a'] := by
        have hnamed : ∀ registration ∈ registry.pools,
            registration.key ≠ firstPool → registration.key.debug ≠ ['a'] := by
          decide
        exact hnamed registration hmem (hkey ▸ hpool)
      simp [searcher, doublingSearcher, searcherOver, registry, adapter, AmmSearcher.quoteEnv,
        hname]

/-- After the refresh the best route takes the first pool, and the table is exact. -/
theorem refreshed_exact_doublingCall :
    ∃ start session callback report, startedSession = ((), .ok start) ∧
      start.refreshAffected doublingCall (fun (_ : Unit) _ => ((), .continue)) () =
        some (session, callback, report) ∧
      session.best.map RouteQuote.amountOut = some 10 ∧
      session.Exact (doublingSearcher.quoteEnv narrowRequest.simConfig) := by
  have hresult : (startedSession.2.toOption.bind fun start =>
      (start.refreshAffected doublingCall (fun (_ : Unit) _ => ((), .continue)) ()).map
        fun (session, _, report) => (start.request.simConfig, report.status,
          session.best.map RouteQuote.amountOut)) =
      some (narrowRequest.simConfig, .updated, some 10) := by
    decide +kernel
  cases hstart : startedSession with
  | mk callback outcome =>
      rw [hstart] at hresult
      cases outcome with
      | error error => cases hresult
      | ok start =>
          change (start.refreshAffected doublingCall _ ()).map _ = _ at hresult
          obtain ⟨⟨session, callback', report⟩, hrefresh, hshown⟩ :=
            Option.map_eq_some_iff.mp hresult
          simp only [Prod.mk.injEq] at hshown
          obtain ⟨hconfig, hstatus, hbest⟩ := hshown
          refine ⟨start, session, callback', report, rfl, hrefresh, hbest, ?_⟩
          refine (@refreshed_exact (SlotGraph Address EdgeData) _ searcher narrowRequest
            trivial directPrograms asks_directPrograms [0, 1, 0, 1] streaming
            [.work 1 true, .work 0 true, .receive] Unit (fun _ _ => ((), .continue)) ()
            callback start hstart doublingSearcher session ?_).1
          have hcall : start.Serviceable doublingCall :=
            ⟨trivial, fun _ _ _ _ => ⟨_, rfl⟩⟩
          refine .refresh .start (fun _ _ => rfl) hcall ?_ hrefresh (by simp [hstatus])
          intro pool hpool
          unfold RouteSearchSession.callEnv
          exact alike_doublingSearcher _ fun hfirst =>
            hpool (Finset.mem_singleton.mpr hfirst)

end RoundTripExample

end AmmSearch
