/-
Stopping a refresh.  However the refreshes of a session are stopped, its quotes are those of
the last one that was let run; but a route that a stop has kept from being quoted stays
failed until a later refresh quotes it.  A stop that answers the last event of a refresh
comes after all its quotes, and one that answers the first event leaves the table as it was.
Any other stop is followed by further events.
-/
import AmmSearch.RouteSessionExact

open FiniteMap StableGraph MemoTable

namespace AmmSearch

/-- The events of a refresh with the answers to them. -/
abbrev UpdateLog := List (RouteUpdateEvent × SearchControl)

/-- A refresh callback that also keeps the log. -/
def loggedUpdates {κ : Type} (onEvent : RouteUpdateCallback κ) :
    RouteUpdateCallback (κ × UpdateLog) :=
  fun callback event =>
    (((onEvent callback.1 event).1,
      callback.2 ++ [(event, (onEvent callback.1 event).2)]),
      (onEvent callback.1 event).2)

/-- Neither the first nor the last event of a refresh. -/
def RouteUpdateEvent.isInner : RouteUpdateEvent → Bool
  | .started _ => false
  | .completed _ => false
  | _ => true

namespace UpdateLog

variable {log longer last : UpdateLog}

/-- Every answer was to continue. -/
def Continued (log : UpdateLog) : Prop :=
  ∀ entry ∈ log, entry.2 = .continue

/-- `longer` goes on with inner events. -/
def Extends (log longer : UpdateLog) : Prop :=
  ∃ inner, longer = log ++ inner ∧ ∀ entry ∈ inner, entry.1.isInner = true

theorem Extends.refl (log : UpdateLog) : log.Extends log :=
  ⟨[], (List.append_nil log).symm, fun _ hentry => absurd hentry List.not_mem_nil⟩

theorem Extends.trans (hfirst : log.Extends longer) (hsecond : longer.Extends last) :
    log.Extends last := by
  obtain ⟨first, rfl, hinner⟩ := hfirst
  obtain ⟨second, rfl, hinner'⟩ := hsecond
  refine ⟨first ++ second, List.append_assoc log first second, ?_⟩
  intro entry hentry
  obtain hentry | hentry := List.mem_append.mp hentry
  · exact hinner entry hentry
  · exact hinner' entry hentry

theorem Extends.continued (hextends : log.Extends longer) (hlonger : longer.Continued) :
    log.Continued := by
  obtain ⟨inner, rfl, _⟩ := hextends
  intro entry hentry
  exact hlonger entry (List.mem_append_left inner hentry)

theorem extends_concat (log : UpdateLog) {event : RouteUpdateEvent}
    (hevent : event.isInner = true) (answer : SearchControl) :
    log.Extends (log ++ [(event, answer)]) := by
  refine ⟨[(event, answer)], rfl, ?_⟩
  intro entry hentry
  rw [List.mem_singleton.mp hentry]
  exact hevent

theorem stop_of_singleton {event other : RouteUpdateEvent} {answer : SearchControl}
    {before after : UpdateLog} (hsplit : [(other, answer)] = before ++ (event, .stop) :: after) :
    event = other ∧ after = [] := by
  cases before with
  | nil =>
      rw [List.nil_append, List.cons.injEq, Prod.mk.injEq] at hsplit
      exact ⟨hsplit.1.1.symm, hsplit.2.symm⟩
  | cons first rest => simp at hsplit

/-- A stop of a refresh answers an inner event, and more events follow, or it answers the
last event. -/
theorem stop_cases {pools : Finset PoolKey} {inner : UpdateLog}
    (hinner : Extends [(.started pools, .continue)] inner)
    {report : IncrementalRouteUpdateReport} {answer : SearchControl}
    {before after : UpdateLog} {event : RouteUpdateEvent}
    (hsplit : inner ++ [(.completed report, answer)] = before ++ (event, .stop) :: after) :
    (after ≠ [] ∧ event.isInner = true ∧ (event, .stop) ∈ inner) ∨
      (after = [] ∧ event = .completed report ∧ before = inner) := by
  rcases List.eq_nil_or_concat after with rfl | ⟨middle, final, rfl⟩
  · right
    obtain ⟨rfl, hlast⟩ := List.append_inj' hsplit rfl
    rw [List.singleton_inj, Prod.mk.injEq] at hlast
    exact ⟨rfl, hlast.1.symm, rfl⟩
  · left
    have hmiddle : inner = before ++ (event, .stop) :: middle := by
      rw [List.concat_eq_append, ← List.cons_append, ← List.append_assoc] at hsplit
      exact (List.append_inj' hsplit rfl).1
    have hmem : (event, .stop) ∈ inner := by
      rw [hmiddle]
      simp
    refine ⟨by simp, ?_, hmem⟩
    obtain ⟨rest, rfl, hrest⟩ := hinner
    cases List.mem_cons.mp hmem with
    | inl hstarted => cases congrArg Prod.snd hstarted
    | inr hinner => exact hrest (event, .stop) hinner

end UpdateLog

namespace RouteSearchSession

section Loops

variable {G : Type} {κ : Type} {session : RouteSearchSession} {call : RefreshCall G}
  {onEvent : RouteUpdateCallback κ}

/-- A quoting loop adds one event a quote, and is stopped only by an answer. -/
theorem uncachedRun_logged {event : RouteQuote → RouteUpdateEvent}
    (hevent : ∀ quote, (event quote).isInner = true) (paths : List RoutePath)
    (callback : κ × UpdateLog) :
    callback.2.Extends
        (session.uncachedRun call (loggedUpdates onEvent) event paths callback).observed.2 ∧
      ((session.uncachedRun call (loggedUpdates onEvent) event paths
          callback).observed.2.Continued →
        (session.uncachedRun call (loggedUpdates onEvent) event paths
          callback).stopped = false) := by
  let observer : QuoteObserver (κ × UpdateLog) :=
    ⟨fun callback quote => emitRouteUpdateEvent (loggedUpdates onEvent) callback (event quote),
      fun callback _ => (callback, true)⟩
  have hfold : ∀ (outcomes : List (RouteQuote ⊕ PathFailure))
      (run : QuoteRun (κ × UpdateLog)), run.stopped = false →
      run.observed.2.Extends (outcomes.foldl observer.push run).observed.2 ∧
        ((outcomes.foldl observer.push run).observed.2.Continued →
          (outcomes.foldl observer.push run).stopped = false) := by
    intro outcomes
    induction outcomes with
    | nil => exact fun run hrun => ⟨.refl _, fun _ => hrun⟩
    | cons outcome rest ih =>
        intro run hrun
        rw [List.foldl_cons]
        cases outcome with
        | inr failure =>
            have hpushed : (observer.push run (.inr failure)).observed = run.observed ∧
                (observer.push run (.inr failure)).stopped = false := by
              simp [observer, QuoteObserver.push, QuoteObserver.pushFailure, hrun]
            rw [← hpushed.1]
            exact ih _ hpushed.2
        | inl quote =>
            have hpushed : (observer.push run (.inl quote)).observed.2 =
                run.observed.2 ++ [(event quote, (onEvent run.observed.1 (event quote)).2)] ∧
                (observer.push run (.inl quote)).stopped =
                  !((onEvent run.observed.1 (event quote)).2 == .continue) := by
              simp [observer, QuoteObserver.push, QuoteObserver.pushQuote, hrun,
                emitRouteUpdateEvent, loggedUpdates]
            have hextends : run.observed.2.Extends
                (observer.push run (.inl quote)).observed.2 := by
              rw [hpushed.1]
              exact UpdateLog.extends_concat _ (hevent quote) _
            cases hanswer : (onEvent run.observed.1 (event quote)).2 with
            | «continue» =>
                rw [hanswer] at hpushed
                obtain ⟨hrest, hstopped⟩ := ih _ (hpushed.2.trans rfl)
                exact ⟨hextends.trans hrest, hstopped⟩
            | stop =>
                rw [hanswer] at hpushed
                rw [QuoteObserver.foldl_push_stopped (hpushed.2.trans rfl)]
                refine ⟨hextends, ?_⟩
                intro hcontinued
                rw [hpushed.1] at hcontinued
                have hlast := hcontinued (event quote, .stop) (by simp)
                cases hlast
  have hrun := hfold ((quoteOrder paths).map ((session.callEnv call).pathOutcome
    call.searcher.quoteContext session.request.amountIn)) ⟨[], [], callback, false⟩ rfl
  unfold uncachedRun
  rw [quotePathsWithRegistryObserved_eq]
  exact hrun

theorem quotedCallback_logged (callback : κ × UpdateLog) :
    callback.2.Extends (session.quotedCallback call (loggedUpdates onEvent) callback).2 ∧
      ((session.quotedCallback call (loggedUpdates onEvent) callback).2.Continued →
        session.RequotesAll call (loggedUpdates onEvent) callback ∧
          session.ProbesAll call (loggedUpdates onEvent) callback) := by
  obtain ⟨hroutes, hruns⟩ := @uncachedRun_logged G κ session call onEvent .routeRequoted
    (fun _ => rfl)
    (call.searcher.sortedPaths call.pathOrder (session.materializedPaths call)) callback
  obtain ⟨hprobes, hprobed⟩ := @uncachedRun_logged G κ session call onEvent .probeRouteFound
    (fun _ => rfl) (call.searcher.sortedPaths call.pathOrder (session.probePaths call))
    (session.uncachedRun call (loggedUpdates onEvent) .routeRequoted
      (call.searcher.sortedPaths call.pathOrder (session.materializedPaths call))
      callback).observed
  exact ⟨hroutes.trans hprobes, fun hcontinued =>
    ⟨hruns (hprobes.continued hcontinued), hprobed hcontinued⟩⟩

/-- The end of a refresh adds the completed report to the log. -/
theorem finishRefresh_logged (previousBest : Option RouteQuote)
    (routesRequoted probeRoutesQuoted : ℕ) (callback : κ × UpdateLog) :
    ∃ inner answer, callback.2.Extends inner ∧
      (session.finishRefresh call (loggedUpdates onEvent) previousBest routesRequoted
        probeRoutesQuoted callback).2.1.2 =
        inner ++ [(.completed (session.finishRefresh call (loggedUpdates onEvent) previousBest
          routesRequoted probeRoutesQuoted callback).2.2, answer)] := by
  unfold finishRefresh
  simp only
  split
  · exact ⟨_, _, UpdateLog.extends_concat _ rfl _, rfl⟩
  · exact ⟨_, _, .refl _, rfl⟩

end Loops

section Tracks

variable {G : Type} {session : RouteSearchSession} {call : RefreshCall G}
  {env : QuoteEnv} {path : RoutePath} {quote : RouteQuote}

/-- What quoting the path gives in the state of the call. -/
def quoteNow (session : RouteSearchSession) (call : RefreshCall G) (path : RoutePath) :
    Except SearchError RouteQuote :=
  (session.callEnv call).quotePathWithRegistry path session.request.amountIn

/-- What a session keeps however its refreshes are stopped: its indexes, and the quotes of
`env` in its cache and its table. -/
structure Tracks (session : RouteSearchSession) (env : QuoteEnv) : Prop where
  indexed : session.Indexed
  filed : session.quoteCache.Filed
  settled : Settled SharedQuoteCache.table (session.Allowed env) session.quoteCache
  quoted : ∀ path quote, session.routeTable.lookup path = some (.quoted quote) →
    env.quotePathWithRegistry path session.request.amountIn = .ok quote

section Inserted

variable {quoteCache : SharedQuoteCache} {paths failed : List RoutePath} {ranOn : Prop}
  {quotes : List RouteQuote} {amountIn : U256}

/-- A quote of the table comes from the loop or was there before. -/
theorem quoted_inserted (hquotes : LoopQuotes env amountIn paths ranOn quotes)
    (hlookup : (session.inserted call.searcher quoteCache failed quotes).routeTable.lookup
      path = some (.quoted quote)) :
    env.quotePathWithRegistry path amountIn = .ok quote ∨
      (path ∉ failed ∧ session.routeTable.lookup path = some (.quoted quote)) := by
  obtain ⟨other, hother, rfl, hfound⟩ | ⟨_, hfound⟩ :=
    @lookup_inserted G session call quoteCache failed quotes path
  · left
    rw [hlookup, Option.some.injEq, RouteSessionEntry.quoted.injEq] at hfound
    rw [hfound]
    exact (hquotes.quoted other hother).2
  · rw [hlookup] at hfound
    split at hfound
    · cases hfound
    · rename_i hpath
      exact Or.inr ⟨hpath, hfound.symm⟩

/-- What the loop has quoted stays in the table. -/
theorem lookup_inserted_of_gives (hquotes : LoopQuotes env amountIn paths ranOn quotes)
    (hgives : env.quotePathWithRegistry path amountIn = .ok quote)
    (hkept : quote ∈ quotes ∨
      (path ∉ failed ∧ session.routeTable.lookup path = some (.quoted quote))) :
    (session.inserted call.searcher quoteCache failed quotes).routeTable.lookup path =
      some (.quoted quote) := by
  obtain ⟨other, hother, rfl, hfound⟩ | ⟨hnone, hfound⟩ :=
    @lookup_inserted G session call quoteCache failed quotes path
  · have hsame := (hquotes.quoted other hother).2
    unfold QuoteEnv.Gives at hsame
    rw [hgives, Except.ok.injEq] at hsame
    rw [hfound, hsame]
  · obtain hquote | ⟨hpath, hold⟩ := hkept
    · exact absurd (QuoteEnv.path_of_quotePathWithRegistry hgives).1 (hnone quote hquote)
    · rw [hfound, if_neg hpath, hold]

end Inserted

/-- A quote whose path is not quoted again is still what quoting gives. -/
theorem Tracks.quoted_now (htracks : session.Tracks env)
    (hunaffected : session.Unaffected env call)
    (hlookup : session.routeTable.lookup path = some (.quoted quote))
    (hpath : path ∉ session.materializedPaths call) :
    session.quoteNow call path = .ok quote := by
  have halike : ∀ hop ∈ path, env.Alike (session.callEnv call) hop.pool := by
    intro hop hhop
    apply hunaffected
    intro hpool
    exact hpath (mem_materializedPaths.mpr ⟨hop.pool, hpool, htracks.indexed.routes path
      (Finmap.mem_of_lookup_eq_some hlookup) hop hhop⟩)
  have hsame := QuoteEnv.toOption_quotePathWithRegistry halike session.request.amountIn
  rw [htracks.quoted path quote hlookup] at hsame
  unfold quoteNow
  cases hquote : (session.callEnv call).quotePathWithRegistry path
      session.request.amountIn with
  | ok found =>
      rw [hquote] at hsame
      exact congrArg Except.ok (Option.some.inj hsame).symm
  | error error =>
      rw [hquote] at hsame
      cases hsame

theorem mem_routeTable_of_materialized (hindexed : session.Indexed)
    (hpath : path ∈ session.materializedPaths call) : path ∈ session.routeTable := by
  obtain ⟨pool, _, hfiles⟩ := mem_materializedPaths.mp hpath
  exact hindexed.tabled pool path hfiles

variable {κ : Type} {onEvent : RouteUpdateCallback κ} {callback : κ}
  {requoted probed next : RouteSearchSession}

/-- The quotes that the loops of a refresh leave are those of its state. -/
theorem Tracks.quoted_probed (htracks : session.Tracks env)
    (hunaffected : session.Unaffected env call)
    (hrequotes : session.Requotes call onEvent callback requoted probed)
    (hlookup : probed.routeTable.lookup path = some (.quoted quote)) :
    session.quoteNow call path = .ok quote := by
  obtain ⟨_, _, rfl, hquotes⟩ := hrequotes.routes
  obtain ⟨_, _, rfl, hprobes⟩ := hrequotes.probes
  obtain hnow | ⟨_, hbefore⟩ := quoted_inserted hprobes hlookup
  · exact hnow
  · obtain hnow | ⟨hpath, hold⟩ := quoted_inserted hquotes hbefore
    · exact hnow
    · exact htracks.quoted_now hunaffected hold fun hmaterialized =>
        hpath (mem_sortedPaths.mpr hmaterialized)

/-- When neither loop is stopped, every path that they quote is in the table exactly with
its quote. -/
theorem Tracks.lookup_probed_iff (htracks : session.Tracks env)
    (hunaffected : session.Unaffected env call)
    (hrequotes : session.Requotes call onEvent callback requoted probed)
    (hroutes : session.RequotesAll call onEvent callback)
    (hprobes : session.ProbesAll call onEvent callback)
    (hpath : path ∈ session.materializedPaths call ∨ path ∈ session.probePaths call) :
    probed.routeTable.lookup path = some (.quoted quote) ↔
      session.quoteNow call path = .ok quote := by
  constructor
  · exact htracks.quoted_probed hunaffected hrequotes
  · intro hquote
    obtain ⟨_, routeQuotes, rfl, hrouteQuotes⟩ := hrequotes.routes
    obtain ⟨_, probeQuotes, rfl, hprobeQuotes⟩ := hrequotes.probes
    apply lookup_inserted_of_gives hprobeQuotes hquote
    obtain hmaterialized | hprobe := hpath
    · have hmem := hrouteQuotes.complete hroutes path
        (mem_sortedPaths.mpr hmaterialized) quote hquote
      exact Or.inr ⟨List.not_mem_nil,
        lookup_inserted_of_gives hrouteQuotes hquote (Or.inl hmem)⟩
    · exact Or.inl (hprobeQuotes.complete hprobes path (mem_sortedPaths.mpr hprobe) quote
        hquote)

/-- The entries that neither loop quotes are left as they were. -/
theorem lookup_probed_of_not_mem
    (hrequotes : session.Requotes call onEvent callback requoted probed)
    (hroute : path ∉ session.materializedPaths call) (hprobe : path ∉ session.probePaths call) :
    probed.routeTable.lookup path = session.routeTable.lookup path := by
  obtain ⟨quoteCache, quotes, rfl, hquotes⟩ := hrequotes.routes
  obtain ⟨probeCache, probes, rfl, hprobes⟩ := hrequotes.probes
  obtain ⟨other, hother, rfl, _⟩ | ⟨_, hlookup⟩ := @lookup_inserted G _ call probeCache [] probes
    path
  · exact absurd (mem_sortedPaths.mp (hprobes.quoted other hother).1) hprobe
  · rw [hlookup, if_neg List.not_mem_nil]
    obtain ⟨other, hother, rfl, _⟩ | ⟨_, hbefore⟩ :=
      @lookup_inserted G (session.invalidated call) call quoteCache _ quotes path
    · exact absurd (mem_sortedPaths.mp (hquotes.quoted other hother).1) hroute
    · rw [hbefore, if_neg fun hpath => hroute (mem_sortedPaths.mp hpath)]
      rfl

/-- However its loops are stopped, a refresh that quotes tracks its state. -/
theorem Tracks.requotes (htracks : session.Tracks env) (hunaffected : session.Unaffected env call)
    (hrequotes : session.Requotes call onEvent callback requoted probed)
    (best : Option RouteQuote) :
    Tracks { probed with best := best } (session.callEnv call) := by
  have hrequest : probed.request = session.request :=
    hrequotes.second.request.trans hrequotes.first.request
  have hindexed := hrequotes.second.indexed
  refine ⟨⟨hindexed.routes, hindexed.tabled, hindexed.probes⟩, hrequotes.second.filed,
    hrequotes.second.settled, ?_⟩
  intro path quote hlookup
  change (session.callEnv call).quotePathWithRegistry path probed.request.amountIn = .ok quote
  rw [hrequest]
  exact htracks.quoted_probed hunaffected hrequotes hlookup

/-- When no affected pool is filed, the session already tracks the state of the call. -/
theorem Tracks.of_unfiled (htracks : session.Tracks env)
    (hunaffected : session.Unaffected env call)
    (hunfiled : ∀ pool ∈ call.affected.pools, ¬session.Files pool) :
    session.Tracks (session.callEnv call) := by
  refine ⟨htracks.indexed, htracks.filed, ?_, ?_⟩
  · apply htracks.settled.mono
    intro key entry hallowed hpair
    obtain ⟨hfiles, hentry⟩ := hallowed hpair
    have halike := hunaffected key.logicalPool fun hpool => hunfiled _ hpool hfiles
    exact ⟨hfiles, hentry.trans (halike _ _ rfl)⟩
  · intro path quote hlookup
    apply htracks.quoted_now hunaffected hlookup
    intro hpath
    obtain ⟨pool, hpool, hfiled⟩ := mem_materializedPaths.mp hpath
    exact hunfiled pool hpool ⟨path, Or.inl hfiled⟩

end Tracks

section Stop

variable {G : Type} {κ : Type} {session next : RouteSearchSession} {call : RefreshCall G}
  {onEvent : RouteUpdateCallback κ} {env : QuoteEnv}

/-- No failed entry has a quote now. -/
def FailuresStand (session : RouteSearchSession) (call : RefreshCall G)
    (table : RouteSearchSession) : Prop :=
  ∀ path, table.routeTable.lookup path = some .failed →
    (session.quoteNow call path).toOption = none

/-- Every quoted entry is what quoting its path gives now. -/
def QuotesStand (session : RouteSearchSession) (call : RefreshCall G)
    (table : RouteSearchSession) : Prop :=
  ∀ path quote, table.routeTable.lookup path = some (.quoted quote) →
    session.quoteNow call path = .ok quote

/-- The counters of the quote cache when the event is emitted, for the events that tell
them. -/
def cacheStats (session : RouteSearchSession) : RouteUpdateEvent → Option QuoteCacheStats
  | .started _ => some session.quoteCache.stats
  | .completed report => some report.quoteCache
  | _ => none

/-- A refresh that leaves a truthful table, or reports that the quotes in it are not, and
does nothing after a stop: it emits no event and asks the cache for no hop. -/
structure StopsTruthfully (session : RouteSearchSession) (call : RefreshCall G)
    (next : RouteSearchSession) (log : UpdateLog) (report : IncrementalRouteUpdateReport) :
    Prop where
  failures : session.FailuresStand call next
  quotes : session.QuotesStand call next ∨ report.status = .recomputeRequired
  final : ∀ before event after, log = before ++ (event, .stop) :: after →
    after = [] ∧ ∀ stats ∈ session.cacheStats event, next.quoteCache.stats = stats

/-- No failed entry that the refresh does not quote has a quote now. -/
def LeftFailuresStand (session : RouteSearchSession) (call : RefreshCall G) : Prop :=
  ∀ path, session.routeTable.lookup path = some .failed →
    path ∉ session.materializedPaths call → path ∉ session.probePaths call →
    (session.quoteNow call path).toOption = none

/-- A stop of the event leaves a truthful refresh: it answers the first event while the
table still holds, or the last event when every failure that it has left holds. -/
def HarmlessStop (session : RouteSearchSession) (call : RefreshCall G) :
    RouteUpdateEvent → Prop
  | .started _ => session.FailuresStand call session ∧
      (session.QuotesStand call session ∨ session.earlyRecomputeReason call ≠ none)
  | .completed _ => (session.AsksForSearch call → session.FailuresStand call session) ∧
      (¬session.AsksForSearch call → session.LeftFailuresStand call)
  | _ => False

theorem not_harmlessStop_of_isInner {event : RouteUpdateEvent}
    (hevent : event.isInner = true) : ¬session.HarmlessStop call event := by
  cases event with
  | started pools => cases hevent
  | completed report => cases hevent
  | _ => exact id

/-- A stop of the first event returns at once. -/
theorem refreshAffected_refused {callback : κ}
    (hstarted : (onEvent callback (.started call.affected.pools)).2 = .stop) :
    session.refreshAffected call onEvent callback =
      some (session, (onEvent callback (.started call.affected.pools)).1,
        session.incrementalReport session.best
          (if (session.earlyRecomputeReason call).isSome then .recomputeRequired
            else .unchanged)
          call.affected.pools 0 0 (session.earlyRecomputeReason call)) := by
  unfold refreshAffected
  simp [emitRouteUpdateEvent, hstarted]

theorem Tracks.quotesStand (hnext : next.Tracks (session.callEnv call))
    (hrequest : next.request = session.request) : session.QuotesStand call next := by
  intro path quote hlookup
  unfold quoteNow
  rw [← hrequest]
  exact hnext.quoted path quote hlookup

/-- When both loops run to their end, the failures that stand are those left alone. -/
theorem Tracks.failuresStand_iff (htracks : session.Tracks env)
    (hunaffected : session.Unaffected env call) {callback : κ}
    {requoted probed : RouteSearchSession}
    (hrequotes : session.Requotes call onEvent callback requoted probed)
    (hroutes : session.RequotesAll call onEvent callback)
    (hprobes : session.ProbesAll call onEvent callback) :
    session.FailuresStand call probed ↔ session.LeftFailuresStand call := by
  constructor
  · intro hstand path hlookup hroute hprobe
    rw [← lookup_probed_of_not_mem hrequotes hroute hprobe] at hlookup
    exact hstand path hlookup
  · intro hleft path hlookup
    by_cases hpath : path ∈ session.materializedPaths call ∨ path ∈ session.probePaths call
    · cases hquote : session.quoteNow call path with
      | error error => rfl
      | ok quote =>
          have hquoted := (htracks.lookup_probed_iff hunaffected hrequotes hroutes hprobes
            hpath).mpr hquote
          rw [hlookup] at hquoted
          cases hquoted
    · obtain ⟨hroute, hprobe⟩ := not_or.mp hpath
      rw [lookup_probed_of_not_mem hrequotes hroute hprobe] at hlookup
      exact hleft path hlookup hroute hprobe

/-- A refresh for which nothing is filed leaves every failure alone. -/
theorem leftFailuresStand_of_unfiled
    (hunfiled : ∀ pool ∈ call.affected.pools, ¬session.Files pool) :
    session.FailuresStand call session ↔ session.LeftFailuresStand call := by
  constructor
  · exact fun hstand path hlookup _ _ => hstand path hlookup
  · intro hleft path hlookup
    apply hleft path hlookup
    · intro hpath
      obtain ⟨pool, hpool, hfiled⟩ := mem_materializedPaths.mp hpath
      exact hunfiled pool hpool ⟨path, Or.inl hfiled⟩
    · intro hpath
      obtain ⟨⟨pool, hpool, hfiled⟩, _⟩ := mem_probePaths.mp hpath
      exact hunfiled pool hpool ⟨path, Or.inr hfiled⟩

/-- The log of a refresh whose first event is not refused: some inner events, then the
completed report.  The session is left alone when a new search is asked for.  Otherwise it
tracks the state of the call, and unless an inner event was refused, the failures that stand
in it are those left alone. -/
theorem refreshAffected_logged (htracks : session.Tracks env)
    (hunaffected : session.Unaffected env call) (hcall : session.Serviceable call)
    {callback : κ} (hstarted : (onEvent callback (.started call.affected.pools)).2 =
      .continue) :
    ∃ next callback' inner report answer,
      session.refreshAffected call (loggedUpdates onEvent) (callback, []) =
        some (next, (callback', inner ++ [(.completed report, answer)]), report) ∧
      UpdateLog.Extends [(.started call.affected.pools, .continue)] inner ∧
      report.quoteCache = next.quoteCache.stats ∧ next.request = session.request ∧
      (session.AsksForSearch call → next = session ∧ report.status = .recomputeRequired) ∧
      (¬session.AsksForSearch call → next.Tracks (session.callEnv call) ∧
        (UpdateLog.Continued inner →
          (session.FailuresStand call next ↔ session.LeftFailuresStand call))) := by
  have hemitted : loggedUpdates onEvent (callback, []) (.started call.affected.pools) =
      (((onEvent callback (.started call.affected.pools)).1,
        [(.started call.affected.pools, .continue)]), .continue) := by
    simp [loggedUpdates, hstarted]
  obtain ⟨hasks, reason, hrefresh⟩ | ⟨hasks, hunfiled, hrefresh⟩ | ⟨hasks, hrefresh⟩ :=
    @refreshAffected_cases G _ session call (loggedUpdates onEvent) (callback, [])
      (by rw [hemitted])
  · rw [hemitted] at hrefresh
    exact ⟨_, _, _, _, _, hrefresh, UpdateLog.extends_concat _ rfl _, rfl, rfl,
      fun _ => ⟨rfl, rfl⟩, fun hnot => absurd hasks hnot⟩
  · rw [hemitted] at hrefresh
    exact ⟨_, _, _, _, _, hrefresh, .refl _, rfl, rfl, fun hyes => absurd hyes hasks,
      fun _ => ⟨htracks.of_unfiled hunaffected hunfiled,
        fun _ => leftFailuresStand_of_unfiled hunfiled⟩⟩
  · rw [hemitted] at hrefresh
    obtain ⟨requoted, probed, count₁, count₂, hrequote, hrequotes⟩ :=
      @requote_runs G _ session call (loggedUpdates onEvent) env htracks.indexed htracks.filed
        htracks.settled hunaffected hcall
        ((onEvent callback (.started call.affected.pools)).1,
          [(.started call.affected.pools, .continue)])
    obtain ⟨hextends, hruns⟩ := @quotedCallback_logged G κ session call onEvent
      ((onEvent callback (.started call.affected.pools)).1,
        [(.started call.affected.pools, .continue)])
    obtain ⟨inner, answer, hinner, hlog⟩ := @finishRefresh_logged G κ probed call onEvent
      session.best count₁ count₂ (session.quotedCallback call (loggedUpdates onEvent)
        ((onEvent callback (.started call.affected.pools)).1,
          [(.started call.affected.pools, .continue)]))
    generalize hfinish : finishRefresh probed call _ session.best count₁ count₂ _ = finished
      at hrequote hlog
    have hsession : finished.1 = { probed with best := probed.bestFromTable call.pathOrder } := by
      rw [← hfinish]
      rfl
    have hstats : finished.2.2.quoteCache = finished.1.quoteCache.stats := by
      rw [← hfinish]
      rfl
    obtain ⟨next, ⟨callback', log⟩, report⟩ := finished
    obtain rfl : log = inner ++ [(.completed report, answer)] := hlog
    obtain rfl : next = _ := hsession
    refine ⟨_, callback', inner, report, answer, hrefresh.trans hrequote,
      hextends.trans hinner, hstats, hrequotes.second.request.trans hrequotes.first.request,
      fun hyes => absurd hyes hasks, fun _ => ⟨htracks.requotes hunaffected hrequotes _, ?_⟩⟩
    intro hcontinued
    obtain ⟨hroutes, hprobes⟩ := hruns (hinner.continued hcontinued)
    have hstand := htracks.failuresStand_iff hunaffected hrequotes hroutes hprobes
    exact hstand

/-- When the first event is refused, the table stays as it was. -/
theorem stopsTruthfully_started {pools : Finset PoolKey} :
    session.StopsTruthfully call session [(.started pools, .stop)]
        (session.incrementalReport session.best
          (if (session.earlyRecomputeReason call).isSome then .recomputeRequired
            else .unchanged)
          call.affected.pools 0 0 (session.earlyRecomputeReason call)) ↔
      session.HarmlessStop call (.started pools) := by
  constructor
  · intro htruthful
    refine ⟨htruthful.failures, htruthful.quotes.imp id ?_⟩
    intro hstatus hnone
    simp [incrementalReport, hnone] at hstatus
  · rintro ⟨hfailures, hquotes⟩
    refine ⟨hfailures, hquotes.imp id ?_, ?_⟩
    · intro hreason
      simp [incrementalReport, Option.isSome_iff_ne_none, hreason]
    · intro before event after hsplit
      obtain ⟨rfl, rfl⟩ := UpdateLog.stop_of_singleton hsplit
      refine ⟨rfl, ?_⟩
      intro stats hstats
      exact Option.some.inj hstats

/-- A refresh that is stopped is truthful exactly when its first stop is harmless. -/
theorem Tracks.stopsTruthfully_iff (htracks : session.Tracks env)
    (hunaffected : session.Unaffected env call) (hcall : session.Serviceable call)
    (onEvent : RouteUpdateCallback κ) (callback : κ) :
    ∃ next callback' log report,
      session.refreshAffected call (loggedUpdates onEvent) (callback, []) =
        some (next, (callback', log), report) ∧
      ∀ before event after, log = before ++ (event, .stop) :: after →
        UpdateLog.Continued before →
        (session.StopsTruthfully call next log report ↔ session.HarmlessStop call event) := by
  cases hstarted : (onEvent callback (.started call.affected.pools)).2 with
  | stop =>
      have hemitted : loggedUpdates onEvent (callback, []) (.started call.affected.pools) =
          (((onEvent callback (.started call.affected.pools)).1,
            [(.started call.affected.pools, .stop)]), .stop) := by
        simp [loggedUpdates, hstarted]
      have hrefresh := @refreshAffected_refused G _ session call (loggedUpdates onEvent)
        (callback, []) (by rw [hemitted])
      rw [hemitted] at hrefresh
      refine ⟨_, _, _, _, hrefresh, ?_⟩
      intro before event after hsplit _
      obtain ⟨rfl, _⟩ := UpdateLog.stop_of_singleton hsplit
      exact stopsTruthfully_started
  | «continue» =>
      obtain ⟨next, callback', inner, report, answer, hrefresh, hinner, hstats, hrequest, hasks,
        hquotes⟩ := refreshAffected_logged htracks hunaffected hcall hstarted
      refine ⟨next, callback', _, report, hrefresh, ?_⟩
      intro before event after hsplit hbefore
      obtain ⟨hafter, hevent, _⟩ | ⟨rfl, rfl, rfl⟩ := UpdateLog.stop_cases hinner hsplit
      · -- the completed report follows the stop
        constructor
        · intro htruthful
          exact absurd (htruthful.final before event after hsplit).1 hafter
        · intro hharmless
          exact absurd hharmless (not_harmlessStop_of_isInner hevent)
      · have hfinal : ∀ before' event after,
            before ++ [(.completed report, answer)] = before' ++ (event, .stop) :: after →
            after = [] ∧ ∀ stats ∈ session.cacheStats event, next.quoteCache.stats = stats := by
          intro before' event after hsplit'
          obtain ⟨_, _, hstop⟩ | ⟨rfl, rfl, _⟩ := UpdateLog.stop_cases hinner hsplit'
          · cases hbefore _ hstop
          · exact ⟨rfl, fun stats hreport => hstats.symm.trans (Option.some.inj hreport)⟩
        by_cases hsearch : session.AsksForSearch call
        · obtain ⟨rfl, hstatus⟩ := hasks hsearch
          constructor
          · intro htruthful
            exact ⟨fun _ => htruthful.failures, fun hnot => absurd hsearch hnot⟩
          · intro hharmless
            exact ⟨hharmless.1 hsearch, Or.inr hstatus, hfinal⟩
        · obtain ⟨hnext, hfailures⟩ := hquotes hsearch
          constructor
          · intro htruthful
            exact ⟨fun hyes => absurd hyes hsearch,
              fun _ => (hfailures hbefore).mp htruthful.failures⟩
          · intro hharmless
            exact ⟨(hfailures hbefore).mpr (hharmless.2 hsearch),
              Or.inl (hnext.quotesStand hrequest), hfinal⟩

/-- A refresh that asks for a new search, or is refused, leaves the session alone. -/
theorem eq_of_leftAlone {callback' : κ} {report : IncrementalRouteUpdateReport}
    (hrefresh : session.refreshAffected call onEvent callback = some (next, callback', report))
    (halone : (onEvent callback (.started call.affected.pools)).2 = .stop ∨
      (report.status = .recomputeRequired)) : next = session := by
  cases hstarted : (onEvent callback (.started call.affected.pools)).2 with
  | stop =>
      rw [refreshAffected_refused hstarted, Option.some.injEq, Prod.mk.injEq] at hrefresh
      exact hrefresh.1.symm
  | «continue» =>
      rw [hstarted] at halone
      have hstatus := halone.resolve_left (by simp)
      obtain ⟨_, reason, hrun⟩ | ⟨_, _, hrun⟩ | ⟨_, hrun⟩ :=
        @refreshAffected_cases G κ session call onEvent callback hstarted
      · rw [hrun, Option.some.injEq, Prod.mk.injEq] at hrefresh
        exact hrefresh.1.symm
      · rw [hrun, Option.some.injEq, Prod.mk.injEq] at hrefresh
        exact hrefresh.1.symm
      · -- a refresh that quotes reports no recomputation
        rw [hrun] at hrefresh
        unfold requote at hrefresh
        simp only [bind, Option.bind_eq_some_iff, Option.some.injEq] at hrefresh
        obtain ⟨_, _, _, _, hfinish⟩ := hrefresh
        have hreport := congrArg (fun result => result.2.2.status) hfinish
        simp only [hstatus, finishRefresh, complete, incrementalReport] at hreport
        split at hreport <;> cases hreport

/-- A refresh has a result, whatever its callback answers. -/
theorem Tracks.exists_result (htracks : session.Tracks env)
    (hunaffected : session.Unaffected env call) (hcall : session.Serviceable call)
    (onEvent : RouteUpdateCallback κ) (callback : κ) :
    ∃ next callback' report,
      session.refreshAffected call onEvent callback = some (next, callback', report) := by
  cases hstarted : (onEvent callback (.started call.affected.pools)).2 with
  | stop => exact ⟨_, _, _, refreshAffected_refused hstarted⟩
  | «continue» =>
      obtain ⟨_, reason, hrun⟩ | ⟨_, _, hrun⟩ | ⟨_, hrun⟩ :=
        @refreshAffected_cases G κ session call onEvent callback hstarted
      · exact ⟨_, _, _, hrun⟩
      · exact ⟨_, _, _, hrun⟩
      · obtain ⟨_, _, _, _, hrequote, _⟩ := @requote_runs G κ session call onEvent env
          htracks.indexed htracks.filed htracks.settled hunaffected hcall
          (onEvent callback (.started call.affected.pools)).1
        exact ⟨_, _, _, hrun.trans hrequote⟩

/-- A refresh that is not refused and asks for no search tracks its state. -/
theorem Tracks.refreshAffected (htracks : session.Tracks env)
    (hcall : session.Serviceable call) (hunaffected : session.Unaffected env call)
    {callback callback' : κ}
    (hstarted : (onEvent callback (.started call.affected.pools)).2 = .continue)
    {report : IncrementalRouteUpdateReport}
    (hrefresh : session.refreshAffected call onEvent callback = some (next, callback', report))
    (hstatus : report.status ≠ .recomputeRequired) :
    next.request = session.request ∧ next.Tracks (session.callEnv call) := by
  obtain ⟨_, reason, hrun⟩ | ⟨_, hunfiled, hrun⟩ | ⟨_, hrun⟩ :=
    @refreshAffected_cases G κ session call onEvent callback hstarted
  · rw [hrun, Option.some.injEq] at hrefresh
    cases hrefresh
    exact absurd rfl hstatus
  · rw [hrun, Option.some.injEq] at hrefresh
    cases hrefresh
    exact ⟨rfl, htracks.of_unfiled hunaffected hunfiled⟩
  · obtain ⟨requoted, probed, _, _, hrequote, hrequotes⟩ := requote_runs htracks.indexed
      htracks.filed htracks.settled hunaffected hcall
      (onEvent callback (.started call.affected.pools)).1
    rw [hrun, hrequote, Option.some.injEq] at hrefresh
    cases hrefresh
    exact ⟨hrequotes.second.request.trans hrequotes.first.request,
      htracks.requotes hunaffected hrequotes _⟩

end Stop

end RouteSearchSession

section Sessions

variable {G : Type} {searcher : AmmSearcher G} {request : RouteRequest}

/-- The sessions that refreshes reach from `start`, however they are stopped, each with the
searcher whose state it tracks.  A refresh that is refused or asks for a new search leaves
the session alone.  In the others every pool whose quotes have changed since is named. -/
inductive RefreshedWithStops (searcher : AmmSearcher G) (start : RouteSearchSession) :
    AmmSearcher G → RouteSearchSession → Prop
  | start : RefreshedWithStops searcher start searcher start
  | leftAlone {last : AmmSearcher G} {session next : RouteSearchSession} {κ : Type}
      {call : RefreshCall G} {onEvent : RouteUpdateCallback κ} {callback callback' : κ}
      {report : IncrementalRouteUpdateReport}
      (hsession : RefreshedWithStops searcher start last session)
      (hrefresh : session.refreshAffected call onEvent callback =
        some (next, callback', report))
      (halone : (onEvent callback (.started call.affected.pools)).2 = .stop ∨
        (report.status = .recomputeRequired)) : RefreshedWithStops searcher start last next
  | refresh {last : AmmSearcher G} {session next : RouteSearchSession} {κ : Type}
      {call : RefreshCall G} {onEvent : RouteUpdateCallback κ} {callback callback' : κ}
      {report : IncrementalRouteUpdateReport}
      (hsession : RefreshedWithStops searcher start last session)
      (hcall : session.Serviceable call)
      (hunaffected : session.Unaffected (last.quoteEnv session.request.simConfig) call)
      (hstarted : (onEvent callback (.started call.affected.pools)).2 = .continue)
      (hrefresh : session.refreshAffected call onEvent callback =
        some (next, callback', report))
      (hstatus : report.status ≠ .recomputeRequired) :
      RefreshedWithStops searcher start call.searcher next

theorem RefreshedWithStops.tracks {start session : RouteSearchSession} {last : AmmSearcher G}
    (hstart : start.Tracks (searcher.quoteEnv start.request.simConfig))
    (hrefreshed : RefreshedWithStops searcher start last session) :
    session.request = start.request ∧
      session.Tracks (last.quoteEnv start.request.simConfig) := by
  induction hrefreshed with
  | start => exact ⟨rfl, hstart⟩
  | leftAlone _ hrefresh halone ih =>
      rw [RouteSearchSession.eq_of_leftAlone hrefresh halone]
      exact ih
  | refresh _ hcall hunaffected hstarted hrefresh hstatus ih =>
      obtain ⟨hrequest, htracks⟩ := ih
      rw [hrequest] at hunaffected
      obtain ⟨hsame, hnext⟩ := htracks.refreshAffected hcall hunaffected hstarted hrefresh
        hstatus
      refine ⟨hsame.trans hrequest, ?_⟩
      unfold RouteSearchSession.callEnv at hnext
      rwa [hrequest] at hnext

variable [StableDiGraph G Address EdgeData]

/-- A new session tracks the state it was quoted in. -/
theorem startRouteSession_tracks (hkeyed : searcher.quoteContext.Keyed)
    {programs : List (QuoteProgram Unit)}
    (hasks : ∀ program ∈ programs, program.Asks (searcher.StreamAnswer request))
    {cacheSchedule : List ℕ} {streaming : StreamingSearchConfig}
    {schedule : List FanIn.Event} {κ : Type} {onEvent : EventCallback κ}
    {callback callback' : κ} {start : RouteSearchSession}
    (hstart : searcher.startRouteSession request streaming schedule onEvent
      (streamCache programs cacheSchedule) callback = (callback', .ok start)) :
    start.request = request ∧ start.Tracks (searcher.quoteEnv request.simConfig) := by
  obtain ⟨hfiled, hsettled⟩ := streamCache_spec hkeyed hasks cacheSchedule
  obtain ⟨hrequest, hcurrent⟩ :=
    AmmSearcher.startRouteSession_current hkeyed hfiled hsettled hstart
  refine ⟨hrequest, hcurrent.indexed, hcurrent.filed, hcurrent.settled, ?_⟩
  intro path quote hlookup
  have hentry := hcurrent.exact.entries path _ hlookup
  unfold RouteSessionEntry.Truthful at hentry
  cases hquote : (searcher.quoteEnv request.simConfig).quotePathWithRegistry path
      start.request.amountIn with
  | ok found =>
      rw [hquote] at hentry
      rw [RouteSessionEntry.quoted.inj hentry]
  | error error =>
      rw [hquote] at hentry
      cases hentry

/-- After any refreshes that name the changed pools, stopped anywhere or answered by a request
for a new search, the next refresh that is stopped is truthful exactly when its first stop is
harmless. -/
theorem stopped_refresh_iff (hkeyed : searcher.quoteContext.Keyed)
    {programs : List (QuoteProgram Unit)}
    (hasks : ∀ program ∈ programs, program.Asks (searcher.StreamAnswer request))
    {cacheSchedule : List ℕ} {streaming : StreamingSearchConfig}
    {schedule : List FanIn.Event} {κ : Type} {onEvent : EventCallback κ}
    {callback callback' : κ} {start : RouteSearchSession}
    (hstart : searcher.startRouteSession request streaming schedule onEvent
      (streamCache programs cacheSchedule) callback = (callback', .ok start))
    {last : AmmSearcher G} {session : RouteSearchSession}
    (hrefreshed : RefreshedWithStops searcher start last session) {call : RefreshCall G}
    (hcall : session.Serviceable call)
    (hunaffected : session.Unaffected (last.quoteEnv request.simConfig) call)
    {μ : Type} (onUpdate : RouteUpdateCallback μ) (update : μ) :
    ∃ next update' log report,
      session.refreshAffected call (loggedUpdates onUpdate) (update, []) =
        some (next, (update', log), report) ∧
      ∀ before event after, log = before ++ (event, .stop) :: after →
        UpdateLog.Continued before →
        (session.StopsTruthfully call next log report ↔ session.HarmlessStop call event) := by
  obtain ⟨hrequest, htracks⟩ := startRouteSession_tracks hkeyed hasks hstart
  rw [← hrequest] at htracks hunaffected
  obtain ⟨_, hsession⟩ := hrefreshed.tracks htracks
  exact hsession.stopsTruthfully_iff hunaffected hcall onUpdate update

end Sessions

namespace RoundTripExample

/-- A refresh that names both pools. -/
def bothPoolsCall : RefreshCall (SlotGraph Address EdgeData) :=
  { doublingCall with
    affected := { pools := (registry.pools.map PoolRegistration.key).toFinset } }

/-- A callback that refuses every requoted route. -/
def stopAtRoute : RouteUpdateCallback Unit :=
  fun callback event =>
    match event with
    | .routeRequoted _ => (callback, .stop)
    | _ => (callback, .continue)

/-- A callback that refuses the report. -/
def stopAtReport : RouteUpdateCallback Unit :=
  fun callback event =>
    match event with
    | .completed _ => (callback, .stop)
    | _ => (callback, .continue)

/-- The route over the second pool. -/
def secondPath : RoutePath :=
  [⟨(TwoPoolExample.pool ['b'] 1 2).key, 1, 2⟩]

/-- The stop at the first route leaves the other one failed, although it can be quoted, and
two more events follow. -/
theorem not_stopsTruthfully_bothPoolsCall :
    ∃ start next callback log report, startedSession = ((), .ok start) ∧
      start.refreshAffected bothPoolsCall (loggedUpdates stopAtRoute) ((), []) =
        some (next, (callback, log), report) ∧
      log.map Prod.snd = [.continue, .stop, .continue, .continue] ∧
      ¬start.StopsTruthfully bothPoolsCall next log report := by
  have hresult : (startedSession.2.toOption.bind fun start =>
      (start.refreshAffected bothPoolsCall (loggedUpdates stopAtRoute) ((), [])).map
        fun (next, (_, log), _) => (log.map Prod.snd, next.routeTable.lookup secondPath,
          (start.quoteNow bothPoolsCall secondPath).toOption.isSome)) =
      some ([.continue, .stop, .continue, .continue], some .failed, true) := by
    decide +kernel
  cases hstart : startedSession with
  | mk callback outcome =>
      rw [hstart] at hresult
      cases outcome with
      | error error => cases hresult
      | ok start =>
          change (start.refreshAffected bothPoolsCall _ _).map _ = _ at hresult
          obtain ⟨⟨next, ⟨callback', log⟩, report⟩, hrefresh, hshown⟩ :=
            Option.map_eq_some_iff.mp hresult
          simp only [Prod.mk.injEq] at hshown
          obtain ⟨hlog, hfailed, hquote⟩ := hshown
          refine ⟨start, next, callback', log, report, rfl, hrefresh, hlog, ?_⟩
          intro htruthful
          rw [htruthful.failures secondPath hfailed] at hquote
          cases hquote

/-- After the stop at the first route, a stop at the next report leaves a truthful table:
that refresh quotes the route that was left failed. -/
theorem stopsTruthfully_recovering :
    ∃ start stopped next callback callback' log earlier report, startedSession = ((), .ok start) ∧
      start.refreshAffected bothPoolsCall stopAtRoute () = some (stopped, callback, earlier) ∧
      stopped.routeTable.lookup secondPath = some .failed ∧
      stopped.refreshAffected bothPoolsCall (loggedUpdates stopAtReport) ((), []) =
        some (next, (callback', log), report) ∧
      log.map Prod.snd = [.continue, .continue, .continue, .stop] ∧
      stopped.StopsTruthfully bothPoolsCall next log report := by
  have hresult : (startedSession.2.toOption.bind fun start =>
      (start.refreshAffected bothPoolsCall stopAtRoute ()).bind fun (stopped, _, earlier) =>
        (stopped.refreshAffected bothPoolsCall (loggedUpdates stopAtReport) ((), [])).map
          fun (_, (_, log), report) => (earlier.status, stopped.request.simConfig,
            log.map Prod.snd, decide (log.getLast? = some (.completed report, .stop) ∧
              start.request.simConfig = narrowRequest.simConfig ∧
              stopped.routeTable.lookup secondPath = some .failed ∧
              stopped.earlyRecomputeReason bothPoolsCall = none ∧
              RouteSearchSession.affectedPoolReason bothPoolsCall = none ∧
              (stopped.probePaths bothPoolsCall).card ≤ stopped.maxProbePathsPerRefresh ∧
              ∀ path ∈ stopped.routeTable.keys,
                path ∈ stopped.materializedPaths bothPoolsCall))) =
      some (.updated, narrowRequest.simConfig, [.continue, .continue, .continue, .stop],
        true) := by
    decide +kernel
  cases hstart : startedSession with
  | mk callback outcome =>
      rw [hstart] at hresult
      cases outcome with
      | error error => cases hresult
      | ok start =>
          change (start.refreshAffected bothPoolsCall _ _).bind _ = _ at hresult
          obtain ⟨⟨stopped, callback', earlier⟩, hearlier, hrest⟩ :=
            Option.bind_eq_some_iff.mp hresult
          obtain ⟨⟨next, ⟨callback'', log⟩, report⟩, hrefresh, hshown⟩ :=
            Option.map_eq_some_iff.mp hrest
          simp only [Prod.mk.injEq, decide_eq_true_eq] at hshown
          obtain ⟨hstatus, hlater, hlog, hlast, hconfig, hfailed, hearly, hknown, hbudget,
            hquoted⟩ := hshown
          refine ⟨start, stopped, next, callback', callback'', log, earlier, report, rfl,
            hearlier, hfailed, hrefresh, hlog, ?_⟩
          have hrefreshed : RefreshedWithStops searcher start doublingSearcher stopped := by
            have hserviceable : start.Serviceable bothPoolsCall :=
              ⟨trivial, fun _ _ _ _ => ⟨_, rfl⟩⟩
            change RefreshedWithStops searcher start bothPoolsCall.searcher stopped
            refine .refresh .start hserviceable ?_ rfl hearlier (by simp [hstatus])
            intro pool hpool
            unfold RouteSearchSession.callEnv
            refine alike_doublingSearcher _ fun hfirst => hpool ?_
            rw [hfirst]
            decide
          have hunaffected : stopped.Unaffected
              (doublingSearcher.quoteEnv narrowRequest.simConfig) bothPoolsCall := by
            intro pool _
            unfold RouteSearchSession.callEnv
            rw [hlater]
            exact fun _ _ _ => rfl
          obtain ⟨found, found', foundLog, foundReport, hfound, hiff⟩ :=
            @stopped_refresh_iff (SlotGraph Address EdgeData) searcher narrowRequest _ trivial
              directPrograms asks_directPrograms [0, 1, 0, 1] streaming
              [.work 1 true, .work 0 true, .receive] Unit (fun _ _ => ((), .continue)) ()
              callback start hstart doublingSearcher stopped hrefreshed bothPoolsCall
              ⟨trivial, fun _ _ _ _ => ⟨_, rfl⟩⟩ hunaffected Unit stopAtReport ()
          rw [hrefresh, Option.some.injEq, Prod.mk.injEq, Prod.mk.injEq, Prod.mk.injEq]
            at hfound
          obtain ⟨rfl, ⟨rfl, rfl⟩, rfl⟩ := hfound
          obtain ⟨before, rfl⟩ := List.getLast?_eq_some_iff.mp hlast
          have hbefore : before.map Prod.snd = List.replicate 3 .continue := by
            rw [List.map_append] at hlog
            exact List.append_cancel_right
              (hlog : _ = List.replicate 3 SearchControl.continue ++ [.stop])
          have hcontinued : UpdateLog.Continued before := by
            intro entry hentry
            have hmem := List.mem_map_of_mem (f := Prod.snd) hentry
            rw [hbefore] at hmem
            exact List.eq_of_mem_replicate hmem
          refine (hiff before (.completed report) [] rfl hcontinued).mpr ⟨?_, ?_⟩
          · intro hsearch
            simp [RouteSearchSession.AsksForSearch, hearly, hknown] at hsearch
            omega
          · intro _ path hlookup hpath
            exact absurd (hquoted path (Finmap.mem_keys.mpr
              (Finmap.mem_of_lookup_eq_some hlookup))) hpath

end RoundTripExample

end AmmSearch
