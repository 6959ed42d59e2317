/-
The probes of a refresh.  Every parallel replacement of a table route is filed under the
pool that it drops and under the one that it takes, when the route is inserted; a refresh
that names either pool quotes it, unless the graph of the call is a copy that has the
version of the session's graph and other pools.
-/
import AmmSearch.AmmGraphVersions
import AmmSearch.RouteSessionStop

open FiniteMap StableGraph MemoTable

namespace AmmSearch

/-- The path with another pool at one hop. -/
def replacePool (path : RoutePath) (hopIndex : ℕ) (hop : Hop) (pool : PoolKey) : RoutePath :=
  path.set hopIndex ⟨pool, hop.tokenIn, hop.tokenOut⟩

namespace AmmSearcher

variable {G : Type} {searcher : AmmSearcher G} {path : RoutePath} {hopIndex : ℕ} {hop : Hop}
  {pool : PoolKey}

/-- The pool offers the edge of a hop of the path, and no other hop uses it. -/
structure Replacement (searcher : AmmSearcher G) (path : RoutePath) (hopIndex : ℕ) (hop : Hop)
    (pool : PoolKey) : Prop where
  replaced : path[hopIndex]? = some hop
  offered : searcher.GraphHop ⟨pool, hop.tokenIn, hop.tokenOut⟩
  unused : ∀ index other, path[index]? = some other → index ≠ hopIndex → other.pool ≠ pool

theorem Replacement.isProbe (hreplacement : searcher.Replacement path hopIndex hop pool)
    (hpool : pool ≠ hop.pool) :
    searcher.IsProbe path hop.pool (replacePool path hopIndex hop pool) ∧
      searcher.IsProbe path pool (replacePool path hopIndex hop pool) := by
  obtain ⟨node, hnode, edge, hedge, htoken, rfl⟩ := hreplacement.offered
  have hprobe : probeForEdge path hopIndex hop edge =
      some (replacePool path hopIndex hop edge.pool) := by
    unfold probeForEdge
    rw [if_neg (not_not.mpr htoken), if_neg hpool, if_neg]
    · rfl
    · intro hused
      rw [List.any_eq_true] at hused
      obtain ⟨⟨other, index⟩, hentry, htest⟩ := hused
      rw [List.mem_zipIdx_iff_getElem?] at hentry
      simp only [Bool.and_eq_true, decide_eq_true_eq] at htest
      exact hreplacement.unused index other hentry htest.1 htest.2
  exact ⟨⟨hopIndex, hop, node, edge, hreplacement.replaced, hnode, hedge, hprobe, Or.inl rfl⟩,
    ⟨hopIndex, hop, node, edge, hreplacement.replaced, hnode, hedge, hprobe, Or.inr rfl⟩⟩

/-- A replacement by the pool of the hop is the path itself. -/
theorem Replacement.replacePool_self (hreplacement : searcher.Replacement path hopIndex hop pool)
    (hpool : pool = hop.pool) : replacePool path hopIndex hop pool = path := by
  obtain ⟨hlt, hget⟩ := List.getElem?_eq_some_iff.mp hreplacement.replaced
  subst hpool
  unfold replacePool
  rw [show (⟨hop.pool, hop.tokenIn, hop.tokenOut⟩ : Hop) = path[hopIndex] from hget.symm]
  exact List.set_getElem_self hlt

end AmmSearcher

namespace RouteSearchSession

variable {G : Type} {start : AmmSearcher G} {session next : RouteSearchSession}

section Filed

/-- Every replacement by another pool is filed under both pools. -/
def FilesProbes (session : RouteSearchSession) (start : AmmSearcher G) : Prop :=
  ∀ path ∈ session.routeTable, ∀ hopIndex hop pool,
    start.Replacement path hopIndex hop pool → pool ≠ hop.pool →
    replacePool path hopIndex hop pool ∈ session.parallelProbeIndex.pathsOf hop.pool ∧
      replacePool path hopIndex hop pool ∈ session.parallelProbeIndex.pathsOf pool

/-- The searcher offers the pools that `start` offers for the hops of the path. -/
def OffersPools (start searcher : AmmSearcher G) (path : RoutePath) : Prop :=
  ∀ hop ∈ path, ∀ pool, start.GraphHop ⟨pool, hop.tokenIn, hop.tokenOut⟩ →
    searcher.GraphHop ⟨pool, hop.tokenIn, hop.tokenOut⟩

theorem FilesProbes.insertQuote (hfiles : session.FilesProbes start)
    {searcher : AmmSearcher G} {quote : RouteQuote}
    (hoffers : OffersPools start searcher quote.path) :
    (session.insertQuote searcher quote).FilesProbes start := by
  intro path hpath hopIndex hop pool hreplacement hpool
  obtain rfl | hold := mem_routeTable_insertQuote.mp hpath
  · have hhop : hop ∈ quote.path := List.mem_of_getElem? hreplacement.replaced
    have hnow : searcher.Replacement quote.path hopIndex hop pool :=
      ⟨hreplacement.replaced, hoffers hop hhop pool hreplacement.offered, hreplacement.unused⟩
    obtain ⟨hdropped, htaken⟩ := hnow.isProbe hpool
    exact ⟨mem_pathsOf_indexProbePathsForRoute.mpr (Or.inl hdropped),
      mem_pathsOf_indexProbePathsForRoute.mpr (Or.inl htaken)⟩
  · obtain ⟨hdropped, htaken⟩ := hfiles path hold hopIndex hop pool hreplacement hpool
    exact ⟨mem_pathsOf_indexProbePathsForRoute.mpr (Or.inr hdropped),
      mem_pathsOf_indexProbePathsForRoute.mpr (Or.inr htaken)⟩

theorem FilesProbes.insertQuotes (hfiles : session.FilesProbes start)
    {searcher : AmmSearcher G} {quotes : List RouteQuote}
    (hoffers : ∀ quote ∈ quotes, OffersPools start searcher quote.path) :
    (session.insertQuotes searcher quotes).FilesProbes start := by
  unfold RouteSearchSession.insertQuotes
  induction quotes generalizing session with
  | nil => exact hfiles
  | cons quote rest ih =>
      rw [List.forall_mem_cons] at hoffers
      exact ih (hfiles.insertQuote hoffers.1) hoffers.2

/-- Failing table paths files nothing, and what a quoting loop inserts is filed. -/
theorem FilesProbes.inserted (hfiles : session.FilesProbes start)
    {searcher : AmmSearcher G} {quoteCache : SharedQuoteCache} {failed : List RoutePath}
    (hfailed : ∀ path ∈ failed, path ∈ session.routeTable) {quotes : List RouteQuote}
    (hoffers : ∀ quote ∈ quotes, OffersPools start searcher quote.path) :
    (session.inserted searcher quoteCache failed quotes).FilesProbes start := by
  apply FilesProbes.insertQuotes _ hoffers
  intro path hpath
  rw [parallelProbeIndex_insertFailures]
  have hkept : ∀ path ∈ failed,
      path ∈ ({ session with quoteCache := quoteCache } : RouteSearchSession).routeTable := hfailed
  rw [mem_insertFailures hkept] at hpath
  exact hfiles path hpath

end Filed

section Start

variable [StableDiGraph G Address EdgeData]

/-- A new session files the probes of all its routes. -/
theorem startRouteSession_filesProbes {κ : Type} {request : RouteRequest}
    {streaming : StreamingSearchConfig} {schedule : List FanIn.Event}
    {onEvent : EventCallback κ} {callback callback' : κ} {quoteCache : SharedQuoteCache}
    (hstart : start.startRouteSession request streaming schedule onEvent quoteCache
      callback = (callback', .ok session)) :
    session.graphVersion = start.graph.version ∧ session.FilesProbes start := by
  unfold AmmSearcher.startRouteSession at hstart
  rw [Prod.mk.injEq] at hstart
  obtain ⟨_, hresult⟩ := hstart
  cases hrun : (start.streamRoutesParallelWithCache request
      { streaming with emitAllViable := true } schedule onEvent none callback).2 with
  | error error =>
      rw [hrun] at hresult
      cases hresult
  | ok run =>
      rw [hrun] at hresult
      obtain rfl := Except.ok.inj hresult
      obtain ⟨hbest, _⟩ := AmmSearcher.streamRoutes_reportsQuotes request
        { streaming with emitAllViable := true } schedule onEvent none callback run hrun
      rw [sessionFromRun_eq hbest, graphVersion_insertQuotes]
      refine ⟨rfl, FilesProbes.insertQuotes ?_ fun _ _ _ _ _ hoffered => hoffered⟩
      intro path hpath
      exact absurd hpath notMem_emptySession

end Start

section Refresh

variable {κ : Type} {call : RefreshCall G} {onEvent : RouteUpdateCallback κ} {env : QuoteEnv}
  {path : RoutePath} {quote : RouteQuote}

/-- When the graph of the call has the version of the graph of `start`, both offer the same
pools for the hops of the table. -/
def SamePools (session : RouteSearchSession) (start : AmmSearcher G) (call : RefreshCall G) :
    Prop :=
  call.searcher.graph.version = start.graph.version →
    ∀ path ∈ session.routeTable, ∀ hop ∈ path, ∀ pool,
      call.searcher.GraphHop ⟨pool, hop.tokenIn, hop.tokenOut⟩ ↔
        start.GraphHop ⟨pool, hop.tokenIn, hop.tokenOut⟩

/-- A session that tracks `env` over the graph version and the probes of `start`. -/
structure Reflects (session : RouteSearchSession) (start : AmmSearcher G) (env : QuoteEnv) :
    Prop extends session.Tracks env where
  version : session.graphVersion = start.graph.version
  probes : session.FilesProbes start

theorem offersPools_of_covers (hpools : session.SamePools start call)
    (hversion : call.searcher.graph.version = start.graph.version)
    (hcovers : ∀ hop ∈ path, session.Covers hop) : OffersPools start call.searcher path := by
  intro hop hhop pool hoffered
  obtain ⟨_, other, hother, found, hfound, htokenIn, htokenOut⟩ := hcovers hop hhop
  rw [← htokenIn, ← htokenOut] at hoffered ⊢
  exact (hpools hversion other hother found hfound pool).mpr hoffered

variable {callback : κ} {requoted probed : RouteSearchSession}

/-- However its loops are stopped, a refresh that quotes reflects its state. -/
theorem Reflects.requotes (hreflects : session.Reflects start env)
    (hunaffected : session.Unaffected env call) (hpools : session.SamePools start call)
    (hversion : call.searcher.graph.version = start.graph.version)
    (hrequotes : session.Requotes call onEvent callback requoted probed)
    (best : Option RouteQuote) :
    Reflects { probed with best := best } start (session.callEnv call) := by
  have htracks := hreflects.toTracks.requotes hunaffected hrequotes best
  obtain ⟨_, _, rfl, hquotes⟩ := hrequotes.routes
  obtain ⟨_, _, rfl, hprobes⟩ := hrequotes.probes
  refine ⟨htracks, ?_, ?_⟩
  · simpa [inserted, invalidated] using hreflects.version
  · apply FilesProbes.inserted _ (by simp)
    · intro quote hquote
      have hpath := mem_sortedPaths.mp (hprobes.quoted quote hquote).1
      obtain ⟨⟨pool, _, hfiled⟩, _⟩ := mem_probePaths.mp hpath
      exact offersPools_of_covers hpools hversion
        (hreflects.indexed.probes pool quote.path hfiled)
    · apply FilesProbes.inserted hreflects.probes
      · intro path hpath
        exact mem_routeTable_of_materialized hreflects.indexed (mem_sortedPaths.mp hpath)
      · intro quote hquote
        have hpath := mem_routeTable_of_materialized hreflects.indexed
          (mem_sortedPaths.mp (hquotes.quoted quote hquote).1)
        exact offersPools_of_covers hpools hversion
          fun hop hhop => hreflects.indexed.covers hpath hhop

/-- When no affected pool is filed, the session already reflects the state of the call. -/
theorem Reflects.of_unfiled (hreflects : session.Reflects start env)
    (hunaffected : session.Unaffected env call)
    (hunfiled : ∀ pool ∈ call.affected.pools, ¬session.Files pool) :
    session.Reflects start (session.callEnv call) :=
  ⟨hreflects.toTracks.of_unfiled hunaffected hunfiled, hreflects.version, hreflects.probes⟩

/-- A refresh that asks for no search has the graph version of the session. -/
theorem version_of_not_asksForSearch (hsearch : ¬session.AsksForSearch call) :
    session.graphVersion = call.searcher.graph.version := by
  by_contra hversion
  apply hsearch
  left
  unfold earlyRecomputeReason
  rw [if_pos hversion]
  repeat' split
  all_goals simp

/-- The refresh gets to its quoting loops, and one of them quotes the path. -/
def QuotesPath (session : RouteSearchSession) (call : RefreshCall G)
    (onEvent : RouteUpdateCallback κ) (callback : κ) (path : RoutePath) : Prop :=
  session.refreshAffected call onEvent callback =
      session.requote call onEvent (onEvent callback (.started call.affected.pools)).1 ∧
    (path ∈ session.materializedPaths call ∨ path ∈ session.probePaths call)

/-- Every replacement that drops or takes an affected pool is quoted by the refresh, and has
exactly its quote in the table afterwards. -/
def CompletesProbes (session : RouteSearchSession) (call : RefreshCall G)
    (onEvent : RouteUpdateCallback κ) (callback : κ) (next : RouteSearchSession) : Prop :=
  ∀ path ∈ session.routeTable, ∀ hopIndex hop pool,
    call.searcher.Replacement path hopIndex hop pool →
    (pool ∈ call.affected.pools ∨ hop.pool ∈ call.affected.pools) →
    session.QuotesPath call onEvent callback (replacePool path hopIndex hop pool) ∧
      ∀ quote, next.routeTable.lookup (replacePool path hopIndex hop pool) =
          some (.quoted quote) ↔
        session.quoteNow call (replacePool path hopIndex hop pool) = .ok quote

/-- A replacement that drops or takes an affected pool is filed under an affected pool. -/
theorem Reflects.filed_replacement (hreflects : session.Reflects start env)
    (hpools : session.SamePools start call)
    (hversion : call.searcher.graph.version = start.graph.version)
    (hpath : path ∈ session.routeTable) {hopIndex : ℕ} {hop : Hop} {pool : PoolKey}
    (hreplacement : call.searcher.Replacement path hopIndex hop pool)
    (haffected : pool ∈ call.affected.pools ∨ hop.pool ∈ call.affected.pools) :
    replacePool path hopIndex hop pool ∈ session.materializedPaths call ∨
      replacePool path hopIndex hop pool ∈ session.probePaths call := by
  have hhop : hop ∈ path := List.mem_of_getElem? hreplacement.replaced
  by_cases hpool : pool = hop.pool
  · left
    rw [hreplacement.replacePool_self hpool]
    have hnamed : hop.pool ∈ call.affected.pools := haffected.elim (fun h => hpool ▸ h) id
    exact mem_materializedPaths.mpr
      ⟨hop.pool, hnamed, hreflects.indexed.routes path hpath hop hhop⟩
  · have hbefore : start.Replacement path hopIndex hop pool :=
      ⟨hreplacement.replaced, (hpools hversion path hpath hop hhop pool).mp
        hreplacement.offered, hreplacement.unused⟩
    obtain ⟨hdropped, htaken⟩ := hreflects.probes path hpath hopIndex hop pool hbefore hpool
    by_cases hmaterialized :
        replacePool path hopIndex hop pool ∈ session.materializedPaths call
    · exact Or.inl hmaterialized
    · right
      rw [mem_probePaths]
      refine ⟨?_, hmaterialized⟩
      obtain hnamed | hnamed := haffected
      · exact ⟨pool, hnamed, htaken⟩
      · exact ⟨hop.pool, hnamed, hdropped⟩

/-- A refresh that is not refused and asks for no search reflects its state. -/
theorem Reflects.refreshAffected (hreflects : session.Reflects start env)
    (hcall : session.Serviceable call) (hunaffected : session.Unaffected env call)
    (hpools : session.SamePools start call)
    (hstarted : (onEvent callback (.started call.affected.pools)).2 = .continue)
    {callback' : κ} {report : IncrementalRouteUpdateReport}
    (hrefresh : session.refreshAffected call onEvent callback = some (next, callback', report))
    (hstatus : report.status ≠ .recomputeRequired) :
    next.request = session.request ∧ next.Reflects start (session.callEnv call) := by
  obtain ⟨_, reason, hrun⟩ | ⟨_, hunfiled, hrun⟩ | ⟨hsearch, hrun⟩ :=
    @refreshAffected_cases G κ session call onEvent callback hstarted
  · rw [hrun, Option.some.injEq] at hrefresh
    cases hrefresh
    exact absurd rfl hstatus
  · rw [hrun, Option.some.injEq] at hrefresh
    cases hrefresh
    exact ⟨rfl, hreflects.of_unfiled hunaffected hunfiled⟩
  · have hversion : call.searcher.graph.version = start.graph.version :=
      (version_of_not_asksForSearch hsearch).symm.trans hreflects.version
    obtain ⟨requoted, probed, _, _, hrequote, hrequotes⟩ := requote_runs hreflects.indexed
      hreflects.filed hreflects.settled hunaffected hcall
      (onEvent callback (.started call.affected.pools)).1
    rw [hrun, hrequote, Option.some.injEq] at hrefresh
    cases hrefresh
    exact ⟨hrequotes.second.request.trans hrequotes.first.request,
      hreflects.requotes hunaffected hpools hversion hrequotes _⟩

/-- When its callback always continues, a refresh completes its probes. -/
theorem Reflects.completesProbes (hreflects : session.Reflects start env)
    (hcall : session.Serviceable call) (hunaffected : session.Unaffected env call)
    (hpools : session.SamePools start call)
    (hcontinue : ∀ callback event, (onEvent callback event).2 = .continue)
    {callback' : κ} {report : IncrementalRouteUpdateReport}
    (hrefresh : session.refreshAffected call onEvent callback = some (next, callback', report))
    (hstatus : report.status ≠ .recomputeRequired) :
    session.CompletesProbes call onEvent callback next := by
  intro path hpath hopIndex hop pool hreplacement haffected
  obtain ⟨_, reason, hrun⟩ | ⟨hsearch, hunfiled, _⟩ | ⟨hsearch, hrun⟩ :=
    @refreshAffected_cases G κ session call onEvent callback (hcontinue _ _)
  · rw [hrun, Option.some.injEq] at hrefresh
    cases hrefresh
    exact absurd rfl hstatus
  · -- the probe would be filed under an affected pool
    have hversion : call.searcher.graph.version = start.graph.version :=
      (version_of_not_asksForSearch hsearch).symm.trans hreflects.version
    obtain hmem | hmem := hreflects.filed_replacement hpools hversion hpath hreplacement
      haffected
    · obtain ⟨named, hnamed, hfiled⟩ := mem_materializedPaths.mp hmem
      exact absurd ⟨_, Or.inl hfiled⟩ (hunfiled named hnamed)
    · obtain ⟨⟨named, hnamed, hfiled⟩, _⟩ := mem_probePaths.mp hmem
      exact absurd ⟨_, Or.inr hfiled⟩ (hunfiled named hnamed)
  · have hversion : call.searcher.graph.version = start.graph.version :=
      (version_of_not_asksForSearch hsearch).symm.trans hreflects.version
    have hmem := hreflects.filed_replacement hpools hversion hpath hreplacement haffected
    refine ⟨⟨hrun, hmem⟩, ?_⟩
    intro quote
    obtain ⟨requoted, probed, _, _, hrequote, hrequotes⟩ := requote_runs hreflects.indexed
      hreflects.filed hreflects.settled hunaffected hcall
      (onEvent callback (.started call.affected.pools)).1
    rw [hrun, hrequote, Option.some.injEq] at hrefresh
    cases hrefresh
    have hlookup : probed.routeTable.lookup (replacePool path hopIndex hop pool) =
        some (.quoted quote) ↔
          session.quoteNow call (replacePool path hopIndex hop pool) = .ok quote :=
      hreflects.toTracks.lookup_probed_iff hunaffected hrequotes
        (requotesAll_of_continue hcontinue _)
        (probesAll_of_continue hcontinue _) hmem
    exact hlookup

end Refresh

end RouteSearchSession

section Sessions

variable {G : Type} {searcher : AmmSearcher G} {request : RouteRequest}

/-- The sessions that refreshes reach from `first`, however they are stopped, each with the
searcher whose state it reflects.  A refresh that is refused or asks for a new search leaves
the session alone.  In the others every pool whose quotes have changed since is named, and
the pools of the graph are those of the session's graph when the versions are equal. -/
inductive Reaches (searcher : AmmSearcher G) (first : RouteSearchSession) :
    AmmSearcher G → RouteSearchSession → Prop
  | start : Reaches searcher first searcher first
  | leftAlone {last : AmmSearcher G} {session next : RouteSearchSession} {κ : Type}
      {call : RefreshCall G} {onEvent : RouteUpdateCallback κ} {callback callback' : κ}
      {report : IncrementalRouteUpdateReport} (hsession : Reaches searcher first last session)
      (hrefresh : session.refreshAffected call onEvent callback =
        some (next, callback', report))
      (halone : (onEvent callback (.started call.affected.pools)).2 = .stop ∨
        (report.status = .recomputeRequired)) : Reaches searcher first last next
  | refresh {last : AmmSearcher G} {session next : RouteSearchSession} {κ : Type}
      {call : RefreshCall G} {onEvent : RouteUpdateCallback κ} {callback callback' : κ}
      {report : IncrementalRouteUpdateReport} (hsession : Reaches searcher first last session)
      (hcall : session.Serviceable call)
      (hunaffected : session.Unaffected (last.quoteEnv session.request.simConfig) call)
      (hpools : session.SamePools searcher call)
      (hstarted : (onEvent callback (.started call.affected.pools)).2 = .continue)
      (hrefresh : session.refreshAffected call onEvent callback =
        some (next, callback', report))
      (hstatus : report.status ≠ .recomputeRequired) :
      Reaches searcher first call.searcher next

theorem Reaches.reflects {first session : RouteSearchSession} {last : AmmSearcher G}
    (hfirst : first.Reflects searcher (searcher.quoteEnv first.request.simConfig))
    (hreaches : Reaches searcher first last session) :
    session.request = first.request ∧
      session.Reflects searcher (last.quoteEnv first.request.simConfig) := by
  induction hreaches with
  | start => exact ⟨rfl, hfirst⟩
  | leftAlone _ hrefresh halone ih =>
      rw [RouteSearchSession.eq_of_leftAlone hrefresh halone]
      exact ih
  | refresh _ hcall hunaffected hpools hstarted hrefresh hstatus ih =>
      obtain ⟨hrequest, hreflects⟩ := ih
      rw [hrequest] at hunaffected
      obtain ⟨hsame, hnext⟩ := hreflects.refreshAffected hcall hunaffected hpools hstarted
        hrefresh hstatus
      refine ⟨hsame.trans hrequest, ?_⟩
      unfold RouteSearchSession.callEnv at hnext
      rwa [hrequest] at hnext

variable [StableDiGraph G Address EdgeData]

/-- A new session reflects the state it was quoted in. -/
theorem startRouteSession_reflects (hkeyed : searcher.quoteContext.Keyed)
    {programs : List (QuoteProgram Unit)}
    (hasks : ∀ program ∈ programs, program.Asks (searcher.StreamAnswer request))
    {cacheSchedule : List ℕ} {streaming : StreamingSearchConfig}
    {schedule : List FanIn.Event} {κ : Type} {onEvent : EventCallback κ}
    {callback callback' : κ} {first : RouteSearchSession}
    (hstart : searcher.startRouteSession request streaming schedule onEvent
      (streamCache programs cacheSchedule) callback = (callback', .ok first)) :
    first.request = request ∧
      first.Reflects searcher (searcher.quoteEnv request.simConfig) := by
  obtain ⟨hrequest, htracks⟩ := startRouteSession_tracks hkeyed hasks hstart
  obtain ⟨hversion, hprobes⟩ := RouteSearchSession.startRouteSession_filesProbes hstart
  exact ⟨hrequest, htracks, hversion, hprobes⟩

/-- After any refreshes that name the changed pools, stopped or not, the next such refresh
that always continues has a result.  If it asks for no search it completes its probes, as long
as no graph is a copy that has the version of the session's graph and other pools. -/
theorem reached_completesProbes (hkeyed : searcher.quoteContext.Keyed)
    {programs : List (QuoteProgram Unit)}
    (hasks : ∀ program ∈ programs, program.Asks (searcher.StreamAnswer request))
    {cacheSchedule : List ℕ} {streaming : StreamingSearchConfig}
    {schedule : List FanIn.Event} {κ : Type} {onEvent : EventCallback κ}
    {callback callback' : κ} {first : RouteSearchSession}
    (hstart : searcher.startRouteSession request streaming schedule onEvent
      (streamCache programs cacheSchedule) callback = (callback', .ok first))
    {last : AmmSearcher G} {session : RouteSearchSession}
    (hreaches : Reaches searcher first last session) {call : RefreshCall G}
    (hcall : session.Serviceable call)
    (hunaffected : session.Unaffected (last.quoteEnv request.simConfig) call)
    (hpools : session.SamePools searcher call) {μ : Type} {onUpdate : RouteUpdateCallback μ}
    (hcontinue : ∀ update event, (onUpdate update event).2 = .continue) (update : μ) :
    ∃ next update' report,
      session.refreshAffected call onUpdate update = some (next, update', report) ∧
      (report.status ≠ .recomputeRequired →
        session.CompletesProbes call onUpdate update next) := by
  obtain ⟨hrequest, hfirst⟩ := startRouteSession_reflects hkeyed hasks hstart
  rw [← hrequest] at hfirst hunaffected
  obtain ⟨_, hreflects⟩ := hreaches.reflects hfirst
  obtain ⟨next, update', report, hrefresh⟩ :=
    hreflects.toTracks.exists_result hunaffected hcall onUpdate update
  exact ⟨next, update', report, hrefresh,
    hreflects.completesProbes hcall hunaffected hpools hcontinue hrefresh⟩

end Sessions

section Versions

variable {G : Type} [StableDiGraph G Address EdgeData] {searcher : AmmSearcher G}

theorem graphHop_iff (hindexed : searcher.graph.Indexed) {hop : Hop} :
    searcher.GraphHop hop ↔ searcher.graph.IsHop hop := by
  constructor
  · rintro ⟨node, hnode, edge, hedge, htoken, hpool⟩
    have hhop := ((hindexed.mem_outgoingEdges hnode edge).mp hedge).2.2
    rw [hpool, htoken] at hhop
    exact hhop
  · rintro ⟨e, hedge⟩
    obtain ⟨record, hrecord, hpool, hin, hout⟩ := hedge
    have hnode : searcher.graph.nodeIndex hop.tokenIn = some record.source :=
      (hindexed.linked.node_iff _ _).mpr hin
    refine ⟨record.source, hnode, ⟨record.target, hop.tokenIn, hop.tokenOut, hop.pool⟩, ?_,
      rfl, rfl⟩
    rw [hindexed.mem_outgoingEdges hnode]
    exact ⟨rfl, (hindexed.linked.node_iff _ _).mpr hout, e, record, hrecord, hpool, hin, hout⟩

/-- In a process whose versions identify their topologies the condition always holds. -/
theorem GraphProcess.Identifies.samePools {p : GraphProcess G} (hidentifies : p.Identifies)
    (hconsistent : p.Consistent) {session : RouteSearchSession} {call : RefreshCall G}
    (hstart : searcher.graph ∈ p.obtained) (hcall : call.searcher.graph ∈ p.obtained) :
    session.SamePools searcher call := by
  intro hversion path _ hop _ pool
  have hpools := (hidentifies _ hcall _ hstart hversion).1
  rw [graphHop_iff (hconsistent.valid _ hcall).indexed,
    graphHop_iff (hconsistent.valid _ hstart).indexed,
    (hconsistent.valid _ hcall).indexed.isHop_iff,
    (hconsistent.valid _ hstart).indexed.isHop_iff]
  unfold AmmGraph.HasPair
  rw [hpools]

end Versions

namespace RoundTripExample

/-- The refresh after the change of the first pool quotes every replacement by it. -/
theorem completesProbes_doublingCall :
    ∃ start session callback report, startedSession = ((), .ok start) ∧
      start.refreshAffected doublingCall (fun (_ : Unit) _ => ((), .continue)) () =
        some (session, callback, report) ∧
      start.CompletesProbes doublingCall (fun (_ : Unit) _ => ((), .continue)) () session := by
  have hresult : (startedSession.2.toOption.bind fun start =>
      (start.refreshAffected doublingCall (fun (_ : Unit) _ => ((), .continue)) ()).map
        fun (_, _, report) => (start.request.simConfig, report.status)) =
      some (narrowRequest.simConfig, .updated) := by
    decide +kernel
  cases hstart : startedSession with
  | mk callback outcome =>
      rw [hstart] at hresult
      cases outcome with
      | error error => cases hresult
      | ok start =>
          change (start.refreshAffected doublingCall _ ()).map _ = _ at hresult
          obtain ⟨⟨session, callback', report⟩, hrefresh, hshown⟩ :=
            Option.map_eq_some_iff.mp hresult
          simp only [Prod.mk.injEq] at hshown
          obtain ⟨hconfig, hstatus⟩ := hshown
          refine ⟨start, session, callback', report, rfl, hrefresh, ?_⟩
          have hunaffected : start.Unaffected
              (searcher.quoteEnv narrowRequest.simConfig) doublingCall := by
            intro pool hpool
            unfold RouteSearchSession.callEnv
            rw [hconfig]
            exact alike_doublingSearcher _ fun hfirst =>
              hpool (Finset.mem_singleton.mpr hfirst)
          obtain ⟨found, found', foundReport, hfound, hcompletes⟩ :=
            @reached_completesProbes (SlotGraph Address EdgeData) searcher narrowRequest _
              trivial directPrograms asks_directPrograms [0, 1, 0, 1] streaming
              [.work 1 true, .work 0 true, .receive] Unit (fun _ _ => ((), .continue)) ()
              callback start hstart searcher start .start doublingCall
              ⟨trivial, fun _ _ _ _ => ⟨_, rfl⟩⟩ hunaffected
              (fun _ _ _ _ _ _ => Iff.rfl) Unit (fun _ _ => ((), .continue)) (fun _ _ => rfl)
              ()
          rw [hrefresh, Option.some.injEq] at hfound
          cases hfound
          exact hcompletes (by simp [hstatus])

/-- Two more pools: one parallel to the other two, and one elsewhere. -/
def widerRegistry : AdapterRegistry where
  pools := registry.pools ++ [TwoPoolExample.pool ['c'] 1 2, TwoPoolExample.pool ['d'] 2 3]
  adapter := fun _ => some adapter
  nodup_keys := by decide

/-- A copy of the graph that one more pool was applied to. -/
def forkedSearcher (pool : PoolRegistration) : AmmSearcher (SlotGraph Address EdgeData) :=
  { searcherOver widerRegistry with
    graph := ((searcher.graph.applyPool pool {}).map Prod.snd).getD searcher.graph }

/-- The session of the copy with the pool elsewhere. -/
def forkedSession : Unit × Except SearchError RouteSearchSession :=
  (forkedSearcher (TwoPoolExample.pool ['d'] 2 3)).startRouteSession narrowRequest streaming
    [.work 1 true, .work 0 true, .receive] (fun _ _ => ((), .continue))
    (streamCache directPrograms [0, 1, 0, 1]) ()

/-- A refresh with the copy that has the parallel pool, after that pool has changed. -/
def forkedCall : RefreshCall (SlotGraph Address EdgeData) where
  searcher := forkedSearcher (TwoPoolExample.pool ['c'] 1 2)
  affected := { pools := {(TwoPoolExample.pool ['c'] 1 2).key} }
  poolOrder := .ascending
  pathOrder := pathOrder

/-- The route over the third pool. -/
def thirdPath : RoutePath :=
  [⟨(TwoPoolExample.pool ['c'] 1 2).key, 1, 2⟩]

/-- The copies have the same version, so the refresh finds nothing to do, although the third
pool is parallel to the table routes and can be quoted. -/
theorem not_completesProbes_forkedCall :
    ∃ start next callback report, forkedSession = ((), .ok start) ∧
      start.Serviceable forkedCall ∧
      start.Unaffected ((forkedSearcher (TwoPoolExample.pool ['d'] 2 3)).quoteEnv
        start.request.simConfig) forkedCall ∧
      start.refreshAffected forkedCall (fun (_ : Unit) _ => ((), .continue)) () =
        some (next, callback, report) ∧
      report.status = .unchanged ∧
      ¬start.CompletesProbes forkedCall (fun (_ : Unit) _ => ((), .continue)) () next := by
  have hresult : (forkedSession.2.toOption.bind fun start =>
      (start.refreshAffected forkedCall (fun (_ : Unit) _ => ((), .continue)) ()).map
        fun (next, _, report) => (report.status, decide (secondPath ∈ start.routeTable),
          (next.routeTable.lookup thirdPath).isSome,
          (start.quoteNow forkedCall thirdPath).toOption.isSome)) =
      some (.unchanged, true, false, true) := by
    decide +kernel
  cases hstart : forkedSession with
  | mk callback outcome =>
      rw [hstart] at hresult
      cases outcome with
      | error error => cases hresult
      | ok start =>
          change (start.refreshAffected forkedCall _ _).map _ = _ at hresult
          obtain ⟨⟨next, callback', report⟩, hrefresh, hshown⟩ :=
            Option.map_eq_some_iff.mp hresult
          simp only [Prod.mk.injEq, decide_eq_true_eq] at hshown
          obtain ⟨hstatus, hpath, hmissing, hquoted⟩ := hshown
          refine ⟨start, next, callback', report, rfl, ⟨trivial, fun _ _ _ _ => ⟨_, rfl⟩⟩,
            fun _ _ _ _ _ => rfl, hrefresh, hstatus, ?_⟩
          intro hcompletes
          have hoffered : forkedCall.searcher.GraphHop
              ⟨(TwoPoolExample.pool ['c'] 1 2).key, 1, 2⟩ := by
            refine ⟨0, by decide +kernel, ?_⟩
            decide +kernel
          have hreplacement : forkedCall.searcher.Replacement secondPath 0
              ⟨(TwoPoolExample.pool ['b'] 1 2).key, 1, 2⟩
              (TwoPoolExample.pool ['c'] 1 2).key := by
            refine ⟨rfl, hoffered, ?_⟩
            intro index other hother hindex
            cases index with
            | zero => exact absurd rfl hindex
            | succ index => cases hother
          have hprobe := (hcompletes secondPath hpath 0 _ _ hreplacement
            (Or.inl (Finset.mem_singleton_self _))).2
          obtain ⟨quote, hquote⟩ := Option.isSome_iff_exists.mp hquoted
          have hnow : start.quoteNow forkedCall thirdPath = .ok quote := by
            cases houtcome : start.quoteNow forkedCall thirdPath with
            | ok found =>
                rw [houtcome] at hquote
                exact congrArg Except.ok (Option.some.inj hquote)
            | error error =>
                rw [houtcome] at hquote
                cases hquote
          have hlookup := (hprobe quote).mpr hnow
          rw [show replacePool secondPath 0 _ _ = thirdPath from rfl] at hlookup
          rw [hlookup] at hmissing
          cases hmissing

end RoundTripExample

end AmmSearch
