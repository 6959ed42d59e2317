/-
The routes of a stream.  Whatever its callbacks answer and wherever it stops, a stream has
observed quotes of routes of its request only, and it reports the best of them.
-/
import AmmSearch.StreamAccounting
import AmmSearch.StreamRanking

open FiniteMap StableGraph

namespace AmmSearch

section Enumerated

variable {G : Type} [StableDiGraph G Address EdgeData] {g : AmmGraph G}
  {tokenIn tokenOut : Address} {config : SearchConfig} {allow : Bool}
  {excluded : Finset RoutePath} {maxNewPaths : Option ℕ}

/-- An enumeration with a path limit lists routes of the request. -/
theorem AmmGraph.isRoute_of_mem_uninterrupted (hindexed : g.Indexed)
    {enumeration : RouteEnumeration}
    (henumeration : g.enumerateRoutesFiltered tokenIn tokenOut config allow excluded
      maxNewPaths none = .ok enumeration) :
    ∀ path ∈ enumeration.paths, g.IsRoute config tokenIn tokenOut allow path := by
  have henumerated := henumeration
  simp only [enumerateRoutesFiltered, bind, Except.bind] at henumerated
  split at henumerated
  · cases henumerated
  rename_i hvalid
  split at henumerated
  rotate_left
  · cases henumerated
  rename_i source hsource
  split at henumerated
  rotate_left
  · cases henumerated
  rename_i target htarget
  have hroutes := requestRoutes_spec hindexed hvalid hsource htarget allow
  obtain ⟨hfull, -⟩ := @enumerateLoop_full _ g tokenIn tokenOut config source target allow
    excluded
  split at henumerated
  · obtain rfl := Except.ok.inj henumerated
    exact fun path hpath => absurd hpath List.not_mem_nil
  rename_i hpositive
  rw [enumerateRoutesFiltered_eq hvalid hsource htarget allow excluded hpositive]
    at henumeration
  unfold finishEnumeration at henumeration
  split at henumeration
  · cases henumeration
  obtain rfl := Except.ok.inj henumeration
  intro path hpath
  refine (hroutes.2.1 path).mp ?_
  cases maxNewPaths with
  | none =>
      simp only at hpath
      rw [hfull] at hpath
      exact List.mem_of_mem_filter hpath
  | some limit =>
      have hlimit : 0 < limit := by
        refine Nat.pos_of_ne_zero fun hzero => hpositive ?_
        rw [hzero]
      rcases @enumerateLoop_truncates _ g
        (requestContext source target tokenIn tokenOut config allow excluded none)
        (requestContext source target tokenIn tokenOut config allow excluded (some limit))
        limit rfl rfl rfl (g.enumerationFuel config.maxHops)
        { queue := [rootState (requestContext source target tokenIn tokenOut config allow
          excluded (some limit))] } rfl hlimit with ⟨hsame, -⟩ | ⟨-, -, hpre, -⟩
      · simp only at hpath
        rw [hsame] at hpath
        refine List.mem_of_mem_filter (p := fun path => path ∉ excluded) ?_
        rw [← hfull]
        exact hpath
      · have hmem := hpre.subset hpath
        refine List.mem_of_mem_filter (p := fun path => path ∉ excluded) ?_
        rw [← hfull]
        exact hmem

/-- So does one that a cancellation callback could have cut short, but did not. -/
theorem AmmGraph.isRoute_of_mem_enumeration (hindexed : g.Indexed)
    {shouldContinue : Option (ℕ → Bool)} {enumeration : RouteEnumeration}
    (henumeration : g.enumerateRoutesFiltered tokenIn tokenOut config allow excluded
      maxNewPaths shouldContinue = .ok enumeration) (hrunning : enumeration.stopped = false) :
    ∀ path ∈ enumeration.paths, g.IsRoute config tokenIn tokenOut allow path := by
  rcases g.enumerateRoutesFiltered_cases tokenIn tokenOut config allow excluded maxNewPaths
    shouldContinue with ⟨other, hother, hstopped⟩ | hsame
  · rw [henumeration] at hother
    rw [Except.ok.inj hother, hstopped] at hrunning
    cases hrunning
  · rw [hsame] at henumeration
    exact isRoute_of_mem_uninterrupted hindexed henumeration

end Enumerated

namespace StreamRun

variable {κ : Type} {streaming : StreamingSearchConfig} {onEvent : EventCallback κ}
  {good : RouteQuote → Prop}

/-- Every quote that the stream has observed is good. -/
def ObservesOnly (good : RouteQuote → Prop) (run : StreamRun κ) : Prop :=
  ∀ quote ∈ run.observedQuotes, good quote

theorem ObservesOnly.concat {run next : StreamRun κ} (hrun : run.ObservesOnly good)
    {quote : RouteQuote} (hquote : good quote)
    (hnext : next.observedQuotes = run.observedQuotes ++ [quote]) : next.ObservesOnly good := by
  intro other hother
  rw [hnext] at hother
  rcases List.mem_append.mp hother with hold | hnew
  · exact hrun other hold
  · rw [List.mem_singleton.mp hnew]
    exact hquote

theorem watches_observesOnly :
    FanIn.Watches (observeExhaustive streaming onEvent) good (ObservesOnly good)
      (ObservesOnly good) :=
  ⟨fun _ _ hquote hrun _ => hrun.concat hquote rfl, fun _ _ hquote hrun _ => hrun.concat hquote rfl⟩

theorem observesOnly_reportAll {run : StreamRun κ} (hrun : run.ObservesOnly good)
    {log : List RouteQuote} (hlog : ∀ quote ∈ log, good quote) :
    (reportAll (observeHeuristic streaming onEvent) run log).ObservesOnly good := by
  induction log generalizing run with
  | nil => exact hrun
  | cons quote rest ih =>
      rw [List.forall_mem_cons] at hlog
      exact ih (hrun.concat hlog.1 rfl) hlog.2

/-- The quotes of a report are good. -/
def ReportsOnly (good : RouteQuote → Prop)
    (result : κ × Except SearchError StreamingRunReport) : Prop :=
  ∀ report, result.2 = .ok report → ∀ quote ∈ report.quotes, good quote

theorem ObservesOnly.finish {run : StreamRun κ} (hrun : run.ObservesOnly good)
    (finality : SearchFinality) (emitCompleted : Bool) :
    ReportsOnly good (run.finish streaming onEvent finality emitCompleted) := by
  intro report hreport
  obtain rfl := Except.ok.inj hreport
  exact hrun

theorem ObservesOnly.finishStopped {run : StreamRun κ} (hrun : run.ObservesOnly good) :
    ReportsOnly good (run.finishStopped streaming onEvent) :=
  hrun.finish _ _

/-- Only a quote callback observes quotes. -/
theorem ObservesOnly.withSession {run : StreamRun κ} (hrun : run.ObservesOnly good)
    (session : StreamingSession κ) :
    ({ run with session := session } : StreamRun κ).ObservesOnly good :=
  hrun

theorem ObservesOnly.emit {run : StreamRun κ} (hrun : run.ObservesOnly good)
    (event : RouteSearchEvent) : (run.emit onEvent event).1.ObservesOnly good :=
  hrun

theorem reportsOnly_fail {run : StreamRun κ} (error : SearchError) :
    ReportsOnly good (run.fail error) := by
  intro report hreport
  cases hreport

end StreamRun

namespace AmmSearcher

open StreamRun

variable {G : Type} [StableDiGraph G Address EdgeData] {searcher : AmmSearcher G} {κ : Type}
  {onEvent : EventCallback κ} {request : RouteRequest} {streaming : StreamingSearchConfig}
  {shouldContinue : Option (ℕ → Bool)} {run : StreamRun κ}
  {heuristicError : Option SearchError}

/-- The quote is one of a route of the request. -/
def Routes (searcher : AmmSearcher G) (request : RouteRequest) (quote : RouteQuote) : Prop :=
  searcher.graph.IsRoute request.config request.tokenIn request.tokenOut false quote.path

section Phases

variable (hrun : run.ObservesOnly (searcher.Routes request))

include hrun

theorem completeStream_routes (failures : List PathFailure) :
    ReportsOnly (searcher.Routes request)
      (completeStream streaming onEvent run heuristicError failures) := by
  have hmarked := hrun.withSession run.session.markExhaustiveComplete
  have hemitted := @ObservesOnly.emit κ onEvent _ _ hmarked
    (.phaseCompleted .exhaustive run.session.markExhaustiveComplete.state.phaseStats)
  unfold completeStream
  simp only
  generalize StreamRun.emit onEvent _ _ = emitted at hemitted ⊢
  split
  · exact hemitted.finish _ _
  · split
    · split
      · exact reportsOnly_fail _
      · exact reportsOnly_fail _
    · exact hemitted.finish _ _

theorem streamRemainder_routes (hparallel : streaming.parallel.validate = .ok ())
    (schedule : List FanIn.Event) {paths : List RoutePath}
    (hpaths : ∀ path ∈ paths, searcher.graph.IsRoute request.config request.tokenIn
      request.tokenOut false path) :
    ReportsOnly (searcher.Routes request) (searcher.streamRemainder request streaming schedule
      onEvent run heuristicError paths) := by
  have hgood : ∀ path ∈ paths, ∀ quote, (searcher.quoteEnv request.simConfig).pathOutcome
      searcher.quoteContext request.amountIn path = .inl quote →
      searcher.Routes request quote := by
    intro path hpath quote houtcome
    have hsame : quote.path = path := path_of_quoteOutcome houtcome
    unfold Routes
    rw [hsame]
    exact hpaths path hpath
  obtain ⟨report, hreport, hwatched⟩ := quoteAndStreamParallel_watched_of_mem
    (@watches_observesOnly κ streaming onEvent (searcher.Routes request)) hgood hparallel
    schedule hrun
  have hobserved : report.observed.ObservesOnly (searcher.Routes request) :=
    hwatched.elim And.right And.right
  unfold streamRemainder
  split
  · exact completeStream_routes hrun []
  · simp only [hreport]
    split
    · exact hobserved.finishStopped
    · have hfailed := hobserved.withSession (report.observed.session.observeFailedCandidates
        streaming onEvent .exhaustive report.failures.length).1
      split
      · exact hfailed.finishStopped
      · exact completeStream_routes hfailed _

theorem streamExhaustive_routes (hindexed : searcher.graph.Indexed)
    (hparallel : streaming.parallel.validate = .ok ()) (schedule : List FanIn.Event) :
    ReportsOnly (searcher.Routes request) (searcher.streamExhaustive request streaming schedule
      onEvent shouldContinue run heuristicError) := by
  unfold streamExhaustive
  simp only
  split
  · split
    · exact reportsOnly_fail _
    · exact hrun.finish _ _
  · rename_i enumeration henumeration
    generalize min usizeMax (run.session.state.duplicatePathsSkipped +
      enumeration.duplicatesSkipped) = skipped
    generalize hstate : ({ run.session.state with duplicatePathsSkipped := skipped } :
      StreamingRouteState) = state
    generalize hsession : ({ run.session with state := state } : StreamingSession κ) = session
    have hskipped := hrun.withSession session
    split
    · exact hskipped.finish _ _
    · rename_i hrunning
      have hpaths : ∀ path ∈ enumeration.paths, searcher.graph.IsRoute request.config
          request.tokenIn request.tokenOut false path := by
        intro path hpath
        obtain ⟨hedges, hconnects, hmin, hmax, hpools, htokens, hinter⟩ :=
          AmmGraph.isRoute_of_mem_enumeration hindexed henumeration (by simpa using hrunning)
            path hpath
        exact ⟨hedges, hconnects, hmin, hmax, hpools, htokens, hinter⟩
      generalize StreamingSession.setTotalCandidates streaming onEvent _ _ = totalled
      have htotalled := hrun.withSession totalled.1
      split
      · exact htotalled.finishStopped
      · exact streamRemainder_routes htotalled hparallel schedule hpaths

theorem finishHeuristic_routes (hindexed : searcher.graph.Indexed)
    (hparallel : streaming.parallel.validate = .ok ()) (schedule : List FanIn.Event)
    (stopped : Bool) :
    ReportsOnly (searcher.Routes request) (searcher.finishHeuristic request streaming schedule
      onEvent shouldContinue run stopped heuristicError) := by
  unfold finishHeuristic
  simp only
  generalize (if stopped then (run.session, false)
    else run.session.finishHeuristicPhase streaming onEvent) = finished
  have hfinished := hrun.withSession finished.1
  have hemitted := @ObservesOnly.emit κ onEvent _ _ hfinished
    (.phaseCompleted .heuristic finished.1.state.phaseStats)
  split
  · exact hfinished.finishStopped
  · generalize StreamRun.emit onEvent _ _ = emitted at hemitted ⊢
    split
    · exact hemitted.finish _ _
    · split
      · exact streamExhaustive_routes hemitted hindexed hparallel schedule
      · split
        · exact reportsOnly_fail _
        · exact hemitted.finish _ _
      · split
        · exact reportsOnly_fail _
        · exact hemitted.finish _ _

end Phases

variable (hindexed : searcher.graph.Indexed) (hne : request.tokenIn ≠ request.tokenOut)
  (hvalid : request.config.validate = .ok ())
  (hparallel : streaming.parallel.validate = .ok ())

include hindexed hne hvalid hparallel

theorem streamHeuristic_routes (hrun : run.ObservesOnly (searcher.Routes request))
    (schedule : List FanIn.Event) :
    ReportsOnly (searcher.Routes request) (searcher.streamHeuristic request streaming schedule
      onEvent shouldContinue run) := by
  obtain ⟨⟨log, hlog, hfaithful⟩, -⟩ := observedSearch_sound hindexed
    (validate_heuristicRequest hvalid) (fun hroundTrip => hne hroundTrip.1)
    (StreamRun.observeHeuristic streaming onEvent)
    (if streaming.completion = .fastLaneExhausted then .fastLaneOnly else .full) run
  have hlogged : ∀ quote ∈ log, searcher.Routes request quote := by
    intro quote hquote
    obtain ⟨hedges, hconnects, hmin, hmax, hpools, htokens, hinter⟩ :=
      hfaithful.isRoute quote hquote
    exact ⟨hedges, hconnects, hmin, hmax, hpools, htokens, hinter⟩
  have hobserved := @observesOnly_reportAll κ streaming onEvent _ run hrun log hlogged
  unfold streamHeuristic
  simp only
  generalize hsearch : searcher.findRoutesHeuristicWithCacheObserved _ _ _ _ _ _ _ _ _ _ =
    searched
  rw [show searcher.observedSearch (heuristicRequest request) _ _ _ run = searched
    from hsearch] at hlog
  rw [← hlog] at hobserved
  obtain ⟨after, outcome⟩ := searched
  simp only
  split
  · refine finishHeuristic_routes ?_ hindexed hparallel schedule _
    exact hobserved
  · exact reportsOnly_fail _
  · exact reportsOnly_fail _
  · exact finishHeuristic_routes hobserved hindexed hparallel schedule _

omit hvalid hparallel hindexed hne in
/-- A valid stream whose first event is accepted goes on with its heuristic phase. -/
theorem streamRoutes_started (schedule : List FanIn.Event) (callback : κ)
    {result : StreamingRunReport}
    (hresult : (searcher.streamRoutesParallelWithCache request streaming schedule onEvent
      shouldContinue callback).2 = .ok result) :
    let started := StreamRun.emit onEvent ({ session := ⟨.new streaming, callback⟩ } :
      StreamRun κ) (.started streaming.completion)
    streaming.validate = .ok () ∧ request.config.validate = .ok () ∧
      ((started.2 = false ∧ result.quotes = []) ∨
        (started.2 = true ∧ (searcher.streamHeuristic request streaming schedule onEvent
          shouldContinue started.1).2 = .ok result)) := by
  intro started
  unfold streamRoutesParallelWithCache at hresult
  split at hresult
  · cases hresult
  · cases hresult
  · rename_i hstreaming hvalid
    refine ⟨hstreaming, hvalid, ?_⟩
    change (if !started.2 then _ else _ : κ × Except SearchError StreamingRunReport).2 = _
      at hresult
    cases hkeep : started.2 with
    | false =>
        rw [hkeep] at hresult
        obtain rfl := Except.ok.inj hresult
        exact Or.inl ⟨rfl, rfl⟩
    | true =>
        rw [hkeep] at hresult
        exact Or.inr ⟨rfl, hresult⟩

omit hvalid hparallel in
/-- A stream reports quotes of routes of its request only. -/
theorem streamRoutes_routes (schedule : List FanIn.Event) (callback : κ) :
    ReportsOnly (searcher.Routes request) (searcher.streamRoutesParallelWithCache request
      streaming schedule onEvent shouldContinue callback) := by
  intro result hresult
  obtain ⟨hstreaming, hvalid, ⟨-, hquotes⟩ | ⟨-, hheuristic⟩⟩ :=
    streamRoutes_started schedule callback hresult
  · intro quote hquote
    rw [hquotes] at hquote
    cases hquote
  · refine streamHeuristic_routes hindexed hne hvalid (parallel_of_validate hstreaming) ?_
      schedule result hheuristic
    exact fun quote hquote => absurd hquote List.not_mem_nil

omit hvalid hparallel in
/-- An exhaustive stream that nobody stops has observed every route of its request. -/
theorem streamRoutes_universe (hlimit : request.config.maxCandidates = none)
    (hcompletion : streaming.completion = .exhaustive) (hpolicy : streaming.stopPolicy = none)
    (hcontinue : ∀ callback event, (onEvent callback event).2 = .continue)
    (hrunning : ∀ poll ∈ shouldContinue, ∀ count, poll count = true)
    (schedule : List FanIn.Event) (callback : κ) {result : StreamingRunReport}
    (hresult : (searcher.streamRoutesParallelWithCache request streaming schedule onEvent
      shouldContinue callback).2 = .ok result) :
    searcher.StreamsUniverse request result := by
  have hgoes := StreamRun.emit_goesOn hcontinue ({ session := ⟨.new streaming, callback⟩ } :
    StreamRun κ) (.started streaming.completion)
  obtain ⟨hstreaming, hvalid, ⟨hrefused, -⟩ | ⟨-, hheuristic⟩⟩ :=
    streamRoutes_started schedule callback hresult
  · rw [hgoes.1] at hrefused
    cases hrefused
  · refine streamHeuristic_universe hindexed hlimit hcompletion hpolicy hcontinue hrunning
      (parallel_of_validate hstreaming) hvalid hne schedule ?_ rfl rfl hheuristic
    unfold StreamRun.Tracks
    rfl

end AmmSearcher

section Answers

variable {G : Type} [StableDiGraph G Address EdgeData] {searcher : AmmSearcher G} {κ : Type}
  {onEvent : EventCallback κ} {request : RouteRequest} {streaming : StreamingSearchConfig}
  {shouldContinue : Option (ℕ → Bool)}

/-- The routes that a report names are the best of some quotes, in order; each is the quote
that the adapters give for a route of the request. -/
structure AmmSearcher.Answers (searcher : AmmSearcher G) (request : RouteRequest)
    (streaming : StreamingSearchConfig) (report : StreamingSearchReport) : Prop where
  ranked : ∃ quotes, IsFirstBest quotes report.best ∧
    report.topRoutes = bestRoutes streaming.topK quotes ∧
    report.topRoutes.head? = report.best ∧
    ∀ quote ∈ quotes, searcher.Routes request quote ∧
      (searcher.quoteEnv request.simConfig).Gives request.amountIn quote

open AmmSearcher in
/-- Whatever its callbacks answer, a stream between distinct tokens reports quotes of routes,
ranked. -/
theorem AmmSearcher.streamRoutes_answers (hindexed : searcher.graph.Indexed)
    (hne : request.tokenIn ≠ request.tokenOut) (schedule : List FanIn.Event) (callback : κ)
    {result : StreamingRunReport}
    (hresult : (searcher.streamRoutesParallelWithCache request streaming schedule
      (logged onEvent) shouldContinue (callback, [])).2 = .ok result) :
    searcher.Answers request streaming result.report := by
  have hroutes := @streamRoutes_routes G _ searcher (κ × EventLog) (logged onEvent) request
    streaming shouldContinue hindexed hne schedule (callback, []) result hresult
  rcases searcher.streamRoutes_concludes request streaming schedule (logged onEvent)
    shouldContinue (callback, []) with ⟨error, herror⟩ | ⟨_, hrefused⟩ | ⟨_, hvalid, hconcludes⟩
  · rw [herror] at hresult
    cases hresult
  · rw [hrefused] at hresult
    obtain rfl := Except.ok.inj hresult
    exact ⟨[], rfl, (bestRoutes_nil _).symm, rfl, fun quote hquote =>
      absurd hquote List.not_mem_nil⟩
  · have hempty : (StreamingRouteState.new streaming).Ranked streaming [] :=
      ⟨rfl, (bestRoutes_nil _).symm, fun _ => rfl, fun _ => rfl⟩
    have hstarted : (StreamRun.emit (logged onEvent) ({ session :=
        ⟨.new streaming, (callback, [])⟩ } : StreamRun (κ × EventLog))
        (.started streaming.completion)).1.Ranked streaming
          (searcher.quoteEnv request.simConfig) request.amountIn :=
      ⟨hempty, fun _ hquote => absurd hquote List.not_mem_nil⟩
    have hcount := topK_of_validate hvalid
    have hreported : ∀ {run : StreamRun (κ × EventLog)} {finality emitCompleted},
        run.Ranked streaming (searcher.quoteEnv request.simConfig) request.amountIn →
        (run.finish streaming (logged onEvent) finality emitCompleted).2 = .ok result →
        searcher.Answers request streaming result.report := by
      intro run finality emitCompleted hranked hfinish
      obtain ⟨hquotes, hbest, htop, -⟩ := report_finish run finality emitCompleted hfinish
      rw [hquotes] at hroutes
      refine ⟨run.observedQuotes, ?_, ?_, ?_, fun quote hquote =>
        ⟨hroutes quote hquote, hranked.gives quote hquote⟩⟩
      · rw [hbest]
        exact hranked.state.best
      · rw [htop]
        exact hranked.state.topRoutes
      · rw [htop, hbest]
        exact hranked.state.head hcount
    generalize searcher.streamRoutesParallelWithCache request streaming schedule
      (logged onEvent) shouldContinue (callback, []) = concluded at hresult hconcludes
    cases hconcludes with
    | failed hrun error => cases hresult
    | completed hrun =>
        exact hreported (hrun.holds (fun hrun hstep => hstep.ranked hrun) hstarted) hresult
    | stopped hrun finality hfinality emitCompleted =>
        refine hreported ?_ hresult
        rcases hrun with hrun | hended
        · exact hrun.holds (fun hrun hstep => hstep.ranked hrun) hstarted
        · exact hended.holds (fun hrun hstep => hstep.ranked hrun) hstarted

end Answers

end AmmSearch
