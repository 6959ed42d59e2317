/-
The finality of a stream that nobody stops.  It is the one of the configured
completion, and the last event is the completed report, except when the fast
lane alone reaches the candidate limit: that limit is reported as a stop.
-/
import AmmSearch.EventLog
import AmmSearch.ObservedSearch
import AmmSearch.StreamingSteps

open FiniteMap StableGraph

namespace AmmSearch

/-- A stream that returns a report has reached its completion, and the report
was its last event. -/
def TruthfulFinality {κ : Type} (streaming : StreamingSearchConfig)
    (result : (κ × EventLog) × Except SearchError StreamingRunReport) : Prop :=
  ∀ run, result.2 = .ok run →
    run.report.finality = streaming.completion.finality ∧
      ∃ before answer, result.1.2 = before ++ [(.completed run.report, answer)]

section Finish

variable {κ : Type} {onEvent : EventCallback κ} {streaming : StreamingSearchConfig}

theorem logged_continues (hcontinue : ∀ callback event, (onEvent callback event).2 = .continue)
    (callback : κ × EventLog) (event : RouteSearchEvent) :
    (logged onEvent callback event).2 = .continue :=
  hcontinue callback.1 event

theorem truthful_fail (run : StreamRun (κ × EventLog)) (error : SearchError) :
    TruthfulFinality streaming (run.fail error) := by
  intro result hresult
  cases hresult

theorem releaseAtCompletion_continues
    (hcontinue : ∀ callback event, (onEvent callback event).2 = .continue)
    (session : StreamingSession (κ × EventLog)) (finality : SearchFinality) :
    (session.releaseInitialResultsAtCompletion streaming (logged onEvent) finality).2 =
      true := by
  unfold StreamingSession.releaseInitialResultsAtCompletion
  split
  · rfl
  · exact (StreamingSession.releaseInitialResults_goesOn (logged_continues hcontinue) _ _).keep

theorem truthful_finish (hcontinue : ∀ callback event, (onEvent callback event).2 = .continue)
    (run : StreamRun (κ × EventLog)) {finality : SearchFinality}
    (hfinality : finality = streaming.completion.finality) :
    TruthfulFinality streaming (run.finish streaming (logged onEvent) finality true) := by
  intro result hresult
  obtain rfl := Except.ok.inj hresult
  simp only [StreamRun.finish, StreamingSession.finishStreamReport,
    releaseAtCompletion_continues hcontinue, if_true]
  exact ⟨hfinality, _, _, rfl⟩

end Finish

namespace AmmSearcher

variable {G : Type} {searcher : AmmSearcher G} {κ : Type} {onEvent : EventCallback κ}
  {request : RouteRequest} {streaming : StreamingSearchConfig}
  {shouldContinue : Option (ℕ → Bool)}

section Phases

variable (hcontinue : ∀ callback event, (onEvent callback event).2 = .continue)
  (hpolicy : streaming.stopPolicy = none)

include hcontinue

theorem completeStream_truthful (hcompletion : streaming.completion = .exhaustive)
    (run : StreamRun (κ × EventLog)) (heuristicError : Option SearchError)
    (failures : List PathFailure) :
    TruthfulFinality streaming
      (completeStream streaming (logged onEvent) run heuristicError failures) := by
  unfold completeStream
  have hemit := fun run event => (StreamRun.emit_goesOn (logged_continues hcontinue)
    run event).1
  simp only [hemit, Bool.not_true, Bool.false_eq_true, if_false]
  split
  · split
    · exact truthful_fail _ _
    · exact truthful_fail _ _
  · exact truthful_finish hcontinue _ (by rw [hcompletion]; rfl)

include hpolicy

theorem streamRemainder_truthful (hparallel : streaming.parallel.validate = .ok ())
    (hcompletion : streaming.completion = .exhaustive) (schedule : List FanIn.Event)
    (run : StreamRun (κ × EventLog)) (heuristicError : Option SearchError)
    (paths : List RoutePath) :
    TruthfulFinality streaming (searcher.streamRemainder request streaming schedule
      (logged onEvent) run heuristicError paths) := by
  unfold streamRemainder
  split
  · exact completeStream_truthful hcontinue hcompletion run heuristicError []
  · have hobserves := StreamRun.observes_observeExhaustive (logged_continues hcontinue)
      hpolicy
    obtain ⟨report, hreport, hstopped, _⟩ := @quoteAndStreamParallel_continues
      (searcher.quoteEnv request.simConfig) searcher.quoteContext request.amountIn _ _
      hparallel schedule _ hobserves.keep paths run
    have hfailed := (StreamingSession.observeFailedCandidates_goesOn
      (logged_continues hcontinue) hpolicy report.observed.session .exhaustive
      report.failures.length).keep
    simp only [hreport, hstopped, hfailed, Bool.not_true, Bool.false_eq_true, if_false]
    exact completeStream_truthful hcontinue hcompletion _ heuristicError report.failures

variable (hrunning : ∀ poll ∈ shouldContinue, ∀ count, poll count = true)
  (hparallel : streaming.parallel.validate = .ok ())

include hrunning hparallel

theorem streamExhaustive_truthful (hcompletion : streaming.completion = .exhaustive)
    (schedule : List FanIn.Event) (run : StreamRun (κ × EventLog))
    (heuristicError : Option SearchError) :
    TruthfulFinality streaming (searcher.streamExhaustive request streaming schedule
      (logged onEvent) shouldContinue run heuristicError) := by
  have hpolls : ∀ poll ∈ shouldContinue.map fun poll count => poll (count + 1),
      ∀ count, poll count = true := by
    intro poll hpoll count
    obtain ⟨original, horiginal, rfl⟩ := Option.map_eq_some_iff.mp hpoll
    exact hrunning original horiginal _
  unfold streamExhaustive
  simp only
  rw [AmmGraph.enumerateRoutesFiltered_uninterrupted _ _ _ _ _ _ _ hpolls]
  split
  · split
    · exact truthful_fail _ _
    · exact truthful_finish hcontinue _ (by rw [hcompletion]; rfl)
  · rename_i enumeration henumeration
    rw [AmmGraph.stopped_enumerateRoutesFiltered (by simp) henumeration]
    have htotal := fun session total => (StreamingSession.setTotalCandidates_goesOn
      (logged_continues hcontinue) hpolicy session total).keep
    simp only [htotal, Bool.not_true, Bool.false_eq_true, if_false]
    exact streamRemainder_truthful hcontinue hpolicy hparallel hcompletion schedule _
      heuristicError enumeration.paths

theorem finishHeuristic_truthful (schedule : List FanIn.Event)
    (run : StreamRun (κ × EventLog)) (heuristicError : Option SearchError) :
    TruthfulFinality streaming (searcher.finishHeuristic request streaming schedule
      (logged onEvent) shouldContinue run false heuristicError) := by
  have hpolls : (shouldContinue.any fun poll => !poll 0) = false := by
    cases hpoll : shouldContinue with
    | none => rfl
    | some poll => simp [hrunning poll hpoll]
  have hfinish := (StreamingSession.finishHeuristicPhase_goesOn
    (logged_continues hcontinue) hpolicy run.session).keep
  have hemit := fun run event => (StreamRun.emit_goesOn (logged_continues hcontinue)
    run event).1
  unfold finishHeuristic
  simp only [Bool.false_eq_true, if_false, hfinish, hpolls, Bool.or_false, Bool.not_true,
    hemit]
  split
  · rename_i hcompletion
    exact streamExhaustive_truthful hcontinue hpolicy hrunning hparallel hcompletion schedule
      _ heuristicError
  · rename_i hcompletion
    split
    · exact truthful_fail _ _
    · exact truthful_finish hcontinue _ (by rw [hcompletion]; rfl)
  · rename_i hcompletion
    split
    · exact truthful_fail _ _
    · exact truthful_finish hcontinue _ (by rw [hcompletion]; rfl)

end Phases

section FastLane

variable {σ : Type} {onQuote : σ → RouteQuote → σ × Bool} {context : HeuristicContext}

/-- Taking over quotes stops the run exactly when they reach the limit. -/
theorem stopped_acceptFastLane_iff (config : SearchConfig) (quotes : List RouteQuote)
    (run : HeuristicRun σ) :
    (acceptFastLane config quotes run).stopped = true ↔ run.stopped = true ∨
      (quotes ≠ [] ∧ ∃ limit ∈ config.maxCandidates,
        limit ≤ run.quotes.length + quotes.length) := by
  induction quotes generalizing run with
  | nil => simp [acceptFastLane]
  | cons quote rest ih =>
      rw [acceptFastLane]
      simp only
      split
      · rename_i hreached
        simp only [maxCandidatesReached, Option.any_eq_true_iff_get, List.length_append,
          List.length_singleton, decide_eq_true_eq] at hreached
        obtain ⟨hsome, hlimit⟩ := hreached
        refine iff_of_true rfl (Or.inr ⟨List.cons_ne_nil _ _, _, Option.get_mem hsome, ?_⟩)
        rw [List.length_cons]
        omega
      · rename_i hreached
        rw [ih]
        apply or_congr Iff.rfl
        have hbelow : ∀ limit ∈ config.maxCandidates, run.quotes.length + 1 < limit := by
          intro limit hlimit
          by_contra hle
          apply hreached
          rw [Option.mem_def] at hlimit
          simp only [maxCandidatesReached, hlimit, Option.any_some, List.length_append,
            List.length_singleton, decide_eq_true_eq]
          omega
        simp only [List.length_append, List.length_cons, List.length_nil]
        constructor
        · rintro ⟨_, limit, hlimit, hle⟩
          exact ⟨List.cons_ne_nil _ _, limit, hlimit, by omega⟩
        · rintro ⟨_, limit, hlimit, hle⟩
          have hlt := hbelow limit hlimit
          refine ⟨?_, limit, hlimit, by omega⟩
          rintro rfl
          rw [List.length_nil] at hle
          omega

theorem acceptFastLane_ne_nil (config : SearchConfig) (quotes : List RouteQuote)
    {run : HeuristicRun σ} (hquotes : run.quotes ≠ [] ∨ quotes ≠ []) :
    (acceptFastLane config quotes run).quotes ≠ [] := by
  induction quotes generalizing run with
  | nil =>
      rcases hquotes with hrun | hquotes
      · exact hrun
      · exact absurd rfl hquotes
  | cons quote rest ih =>
      rw [acceptFastLane]
      simp only
      split
      · simp
      · exact ih (Or.inl (by simp))

/-- The quotes of the fast-lane paths that can be quoted. -/
def laneQuotes [StableDiGraph G Address EdgeData] (searcher : AmmSearcher G)
    (context : HeuristicContext) : List RouteQuote :=
  quotedOutcomes ((searcher.fastLanePaths context.tokenIn context.tokenOut context.config
    context.heuristic context.connectorTokens).map
      ((searcher.quoteEnv context.simConfig).pathOutcome searcher.quoteContext
        context.amountIn))

/-- The fast lane of a search without round trips reaches the limit alone. -/
def LaneFills [StableDiGraph G Address EdgeData] (searcher : AmmSearcher G)
    (context : HeuristicContext) : Prop :=
  context.heuristic.fastLane.enabled = true ∧
    ∃ limit ∈ context.config.maxCandidates, limit ≤ (searcher.laneQuotes context).length

variable [StableDiGraph G Address EdgeData]

/-- A fast lane whose observer never refuses is stopped exactly when it fills
the candidate limit, and it has then found a route. -/
theorem runFastLane_stopped_iff
    (hcontinue : ∀ observed quote, (onQuote observed quote).2 = true)
    (hrevisit : context.allowFinalSourceRevisit = false)
    (hpositive : ∀ limit ∈ context.config.maxCandidates, 1 ≤ limit) (start : σ) :
    ((searcher.runFastLane context onQuote { observed := start }).stopped = true ↔
        searcher.LaneFills context) ∧
      ((searcher.runFastLane context onQuote { observed := start }).stopped = true →
        (searcher.runFastLane context onQuote { observed := start }).quotes ≠ []) := by
  have hempty : ∀ limit ∈ context.config.maxCandidates, ¬ limit ≤ 0 := by
    intro limit hlimit hzero
    have := hpositive limit hlimit
    omega
  unfold runFastLane
  split
  · rename_i henabled
    simp only
    split
    · rename_i hpaths
      refine ⟨iff_of_false Bool.false_ne_true ?_, fun hstopped => by cases hstopped⟩
      rintro ⟨_, limit, hlimit, hle⟩
      rw [laneQuotes, hpaths] at hle
      exact hempty limit hlimit hle
    · obtain ⟨hrunning, hquotes, _⟩ := @quotePathsWithRegistryObserved_continues
        (searcher.quoteEnv context.simConfig) searcher.quoteContext context.amountIn σ
        onQuote hcontinue (searcher.fastLanePaths context.tokenIn context.tokenOut
          context.config context.heuristic context.connectorTokens) start
      have hlength := (((quoteOrder_perm (searcher.fastLanePaths context.tokenIn
        context.tokenOut context.config context.heuristic context.connectorTokens)).map
          ((searcher.quoteEnv context.simConfig).pathOutcome searcher.quoteContext
            context.amountIn)).filterMap Sum.getLeft?).length_eq
      generalize quotePathsWithRegistryObserved _ _ _ _ _ _ = report at hrunning hquotes ⊢
      obtain ⟨reported, failures, observed, stopped⟩ := report
      replace hlength : reported.length = (searcher.laneQuotes context).length := by
        rw [show reported = _ from hquotes]
        exact hlength
      obtain rfl : stopped = false := hrunning
      rw [stopped_acceptFastLane_iff]
      have hfills : (reported ≠ [] ∧ ∃ limit ∈ context.config.maxCandidates,
          limit ≤ reported.length) ↔ searcher.LaneFills context := by
        rw [hlength]
        constructor
        · exact fun hreached => ⟨henabled.2, hreached.2⟩
        · rintro ⟨_, limit, hlimit, hle⟩
          refine ⟨?_, limit, hlimit, hle⟩
          rintro rfl
          rw [← hlength] at hle
          exact hempty limit hlimit hle
      refine ⟨?_, ?_⟩
      · simpa using hfills
      · rintro (hstopped | ⟨hreported, _⟩)
        · cases hstopped
        · exact acceptFastLane_ne_nil _ _ (Or.inr hreported)
  · rename_i hdisabled
    refine ⟨iff_of_false Bool.false_ne_true ?_, fun hstopped => by cases hstopped⟩
    exact fun hfills => hdisabled ⟨hrevisit, hfills.1⟩

omit [StableDiGraph G Address EdgeData] in
theorem stopped_finishSearch {run : HeuristicRun σ} {report : HeuristicRoutesReport}
    (hreport : searcher.finishSearch context run = .ok report) :
    report.stopped = run.stopped := by
  simp only [finishSearch] at hreport
  split at hreport
  · obtain rfl := Except.ok.inj hreport
    rfl
  · rename_i hrunning
    have hrunning : run.stopped = false := by simpa using hrunning
    split at hreport
    · split at hreport <;> cases hreport
    · split at hreport
      · obtain rfl := Except.ok.inj hreport
        exact hrunning.symm
      · split at hreport
        · cases hreport
        · obtain rfl := Except.ok.inj hreport
          exact hrunning.symm

/-- Under an observer that never refuses a search is stopped exactly when its
fast lane fills the candidate limit. -/
theorem searchRoutes_stopped
    (hcontinue : ∀ observed quote, (onQuote observed quote).2 = true)
    (hrevisit : context.allowFinalSourceRevisit = false)
    (hpositive : ∀ limit ∈ context.config.maxCandidates, 1 ≤ limit)
    (hfinalists : 1 ≤ context.heuristic.maxFinalists) (runLimit : HeuristicRunLimit)
    (start : σ) :
    let result := searcher.searchRoutes context onQuote runLimit start
    (searcher.LaneFills context → ∃ report, result.2 = .ok report ∧ report.stopped = true) ∧
      (¬ searcher.LaneFills context → ∀ report, result.2 = .ok report →
        report.stopped = false) := by
  intro result
  obtain ⟨hfills, hquotes⟩ := @runFastLane_stopped_iff G searcher σ onQuote context _
    hcontinue hrevisit hpositive start
  simp only [result, searchRoutes]
  constructor
  · intro hlane
    have hstopped := hfills.mpr hlane
    rw [if_pos (Or.inl hstopped)]
    simp only [finishFastLane]
    rw [if_neg (fun hempty => finalists_ne_nil hfinalists (hquotes hstopped) hempty.1)]
    exact ⟨_, rfl, hstopped⟩
  · intro hlane report hreport
    have hrunning : (searcher.runFastLane context onQuote
        { observed := start }).stopped = false := by
      simpa using fun hstopped => hlane (hfills.mp hstopped)
    split at hreport
    · exact (reports_finishFastLane hreport).2.trans hrunning
    · have hpasses : searcher.PassInvariant context onQuote fun run => run.stopped = false :=
        passInvariant_running hcontinue
      exact (stopped_finishSearch hreport).trans
        (hpasses.runPasses (heuristicPassModes context.heuristic) hrunning hrunning)

end FastLane

section Truthful

variable [StableDiGraph G Address EdgeData]

/-- The fast lane of a stream between two indexed tokens quotes as many routes as
the request admits candidates. -/
def FastLaneFills (searcher : AmmSearcher G) (request : RouteRequest) : Prop :=
  ∃ source target, searcher.graph.nodeIndex request.tokenIn = some source ∧
    searcher.graph.nodeIndex request.tokenOut = some target ∧
    searcher.LaneFills (searcher.requestContext (heuristicRequest request)
      request.config.mode.heuristicOrDefault source target)

variable (hcontinue : ∀ callback event, (onEvent callback event).2 = .continue)
  (hpolicy : streaming.stopPolicy = none)

include hcontinue

/-- A run that was stopped without a refusal ends as stopped. -/
theorem not_truthful_finishStopped {run : StreamRun (κ × EventLog)}
    (hrun : run.session.state.stopFinality = none) :
    ¬ TruthfulFinality streaming (run.finishStopped streaming (logged onEvent)) := by
  intro htruthful
  obtain ⟨hfinality, _⟩ := htruthful _ rfl
  simp only [StreamingRouteState.stoppedFinality, hrun, Option.getD_none,
    StreamingSession.finishStreamReport, releaseAtCompletion_continues hcontinue, if_true,
    apply_ite Prod.snd] at hfinality
  rw [ite_self] at hfinality
  have hstopped : SearchFinality.stopped = streaming.completion.finality := hfinality
  cases hcompletion : streaming.completion <;> rw [hcompletion] at hstopped <;> cases hstopped

include hpolicy

variable (hrunning : ∀ poll ∈ shouldContinue, ∀ count, poll count = true)
  (hparallel : streaming.parallel.validate = .ok ())
  (hvalid : request.config.validate = .ok ()) {run : StreamRun (κ × EventLog)}
  {runLimit : HeuristicRunLimit}

include hvalid

/-- The heuristic phase under a callback that always continues. -/
theorem observedSearch_stopped (hopen : run.Open streaming) :
    let result := searcher.observedSearch (heuristicRequest request)
      request.config.mode.heuristicOrDefault
      (StreamRun.observeHeuristic streaming (logged onEvent)) runLimit run
    (searcher.FastLaneFills request → result.1.Open streaming ∧
        ∃ report, result.2 = .ok report ∧ report.stopped = true) ∧
      (¬ searcher.FastLaneFills request → ∀ report, result.2 = .ok report →
        report.stopped = false) := by
  intro result
  have hvalid' := validate_heuristicRequest hvalid
  have hkeep := (StreamRun.observes_observeHeuristic (logged_continues hcontinue)
    hpolicy).keep
  have hwatches := (@StreamRun.watches_observeHeuristic κ onEvent streaming).of_continues
    hkeep
  have hpositive := SearchConfig.maxCandidates_of_validate hvalid'
  have hfinalists := HeuristicSearchConfig.maxFinalists_of_validate
    (SearchConfig.heuristic_of_validate rfl hvalid')
  constructor
  · rintro ⟨source, target, hsource, htarget, hfills⟩
    have heq : result = _ := observedSearch_eq hvalid' hsource htarget
      (StreamRun.observeHeuristic streaming (logged onEvent)) runLimit run
    rw [heq]
    refine ⟨?_, (searchRoutes_stopped hkeep rfl hpositive hfinalists runLimit run).1 hfills⟩
    rcases @searchRoutes_watched _ _ _ _ _ G searcher (searcher.requestContext
      (heuristicRequest request) request.config.mode.heuristicOrDefault source target) _
      hwatches (fun _ _ => trivial) hfinalists runLimit run hopen with hholds | ⟨hfalse, _⟩
    · exact hholds
    · exact hfalse.elim
  · intro hlane report hreport
    rcases @observedSearch_resolved G _ searcher _ request.config.mode.heuristicOrDefault
      hvalid' _ (StreamRun.observeHeuristic streaming (logged onEvent)) runLimit run with
      ⟨source, target, hsource, htarget⟩ | ⟨token, hmissing⟩
    · have heq : result = _ := observedSearch_eq hvalid' hsource htarget
        (StreamRun.observeHeuristic streaming (logged onEvent)) runLimit run
      rw [heq] at hreport
      refine (searchRoutes_stopped hkeep rfl hpositive hfinalists runLimit run).2 ?_ report
        hreport
      exact fun hfills => hlane ⟨source, target, hsource, htarget, hfills⟩
    · rw [show result = _ from hmissing] at hreport
      cases hreport

include hrunning hparallel

theorem streamHeuristic_truthful_iff (schedule : List FanIn.Event)
    (hopen : run.Open streaming) :
    TruthfulFinality streaming (searcher.streamHeuristic request streaming schedule
      (logged onEvent) shouldContinue run) ↔ ¬ searcher.FastLaneFills request := by
  obtain ⟨hfilled, hunfilled⟩ := @observedSearch_stopped G searcher κ onEvent request
    streaming _ hcontinue hpolicy hvalid run
    (if streaming.completion = .fastLaneExhausted then .fastLaneOnly else .full) hopen
  unfold streamHeuristic
  simp only
  generalize hsearch : searcher.findRoutesHeuristicWithCacheObserved _ _ _ _ _ _ _ _ _ _ =
    searched
  have hsearched : searcher.observedSearch (heuristicRequest request)
      request.config.mode.heuristicOrDefault
      (StreamRun.observeHeuristic streaming (logged onEvent))
      (if streaming.completion = .fastLaneExhausted then .fastLaneOnly else .full) run =
        searched := hsearch
  rw [hsearched] at hfilled hunfilled
  obtain ⟨after, outcome⟩ := searched
  by_cases hfills : searcher.FastLaneFills request
  · refine iff_of_false ?_ (not_not.mpr hfills)
    obtain ⟨hafter, report, rfl, hstopped⟩ := hfilled hfills
    have hfailed := @StreamingSession.observeFailedCandidates_advances κ onEvent streaming
      after.session hafter.live .heuristic report.failedCandidates
    have hkeep := (StreamingSession.observeFailedCandidates_goesOn
      (logged_continues hcontinue) hpolicy after.session .heuristic
      report.failedCandidates).keep
    simp only
    generalize StreamingSession.observeFailedCandidates streaming (logged onEvent)
      after.session .heuristic report.failedCandidates = failed at hfailed hkeep ⊢
    cases hfailed with
    | policy => cases hkeep
    | stops => cases hkeep
    | continues next hlive hfinality =>
        simp only [hstopped, Bool.not_true, Bool.or_true, finishHeuristic, if_true,
          Bool.not_false, Bool.true_or]
        exact not_truthful_finishStopped hcontinue (hfinality.trans hafter.finality)
  · refine iff_of_true ?_ hfills
    cases outcome with
    | ok report =>
        have hstopped := hunfilled hfills report rfl
        have hkeep := (StreamingSession.observeFailedCandidates_goesOn
          (logged_continues hcontinue) hpolicy after.session .heuristic
          report.failedCandidates).keep
        simp only [hkeep, hstopped, Bool.not_true, Bool.or_false]
        exact finishHeuristic_truthful hcontinue hpolicy hrunning hparallel schedule _ none
    | error error =>
        have hfinish := @finishHeuristic_truthful G searcher κ onEvent request streaming
          shouldContinue hcontinue hpolicy hrunning hparallel schedule after (some error)
        cases error with
        | invalidConfig reason => exact truthful_fail _ _
        | tokenNotFound token => exact truthful_fail _ _
        | _ => exact hfinish

end Truthful

/-- A stream that nobody stops reports the finality of its completion, and its
last event is that report, unless its fast lane alone reaches the candidate
limit. -/
theorem truthfulFinality_iff [StableDiGraph G Address EdgeData]
    (hcontinue : ∀ callback event, (onEvent callback event).2 = .continue)
    (hpolicy : streaming.stopPolicy = none)
    (hrunning : ∀ poll ∈ shouldContinue, ∀ count, poll count = true)
    (schedule : List FanIn.Event) (callback : κ) :
    TruthfulFinality streaming (searcher.streamRoutesParallelWithCache request streaming
        schedule (logged onEvent) shouldContinue (callback, [])) ↔
      ¬ (streaming.validate = .ok () ∧ request.config.validate = .ok () ∧
        searcher.FastLaneFills request) := by
  unfold streamRoutesParallelWithCache
  split
  · rename_i error herror
    refine iff_of_true ?_ ?_
    · intro result hresult
      cases hresult
    · rintro ⟨hstreaming, _⟩
      rw [hstreaming] at herror
      cases herror
  · rename_i error _ herror
    refine iff_of_true ?_ ?_
    · intro result hresult
      cases hresult
    · rintro ⟨_, hvalid, _⟩
      rw [hvalid] at herror
      cases herror
  · rename_i hstreaming hvalid
    have hstarted : StreamRun.emit (logged onEvent)
        ({ session := ⟨.new streaming, (callback, [])⟩ } : StreamRun (κ × EventLog))
        (.started streaming.completion) =
      ({ session := ⟨.new streaming, ((onEvent callback (.started streaming.completion)).1,
          [(.started streaming.completion, .continue)])⟩ }, true) := by
      simp [StreamRun.emit, emitSearchEvent, logged, hcontinue]
    simp only [hstarted, Bool.not_true, Bool.false_eq_true, if_false]
    rw [streamHeuristic_truthful_iff hcontinue hpolicy hrunning
      (parallel_of_validate hstreaming) hvalid schedule (StreamRun.open_started _ _ rfl)]
    simp [hstreaming, hvalid]

end AmmSearcher

namespace RoundTripExample

/-- A request that admits one candidate, which its fast lane finds. -/
def limitedRequest : RouteRequest :=
  { narrowRequest with config := { narrowRequest.config with maxCandidates := some 1 } }

/-- Without a limit the stream is truthful. -/
theorem truthfulFinality_narrowRequest :
    TruthfulFinality streaming (searcher.streamRoutesParallelWithCache narrowRequest
      streaming [.work 1 true, .work 0 true, .receive]
      (logged fun _ _ => ((), .continue)) none ((), [])) := by
  refine (AmmSearcher.truthfulFinality_iff (fun _ _ => rfl) rfl (by simp) _ ()).mpr ?_
  rintro ⟨_, _, source, target, _, _, _, limit, hlimit, _⟩
  cases hlimit

theorem finality_limitedRequest :
    (searcher.streamRoutesParallelWithCache limitedRequest streaming []
      (logged fun _ _ => ((), .continue)) none ((), [])).2.toOption.map
        (fun result => result.report.finality) = some .stopped := by
  decide +kernel

/-- The candidate limit is reported as a stop of the callback. -/
theorem not_truthfulFinality_limitedRequest :
    ¬ TruthfulFinality streaming (searcher.streamRoutesParallelWithCache limitedRequest
      streaming [] (logged fun _ _ => ((), .continue)) none ((), [])) := by
  intro htruthful
  have hfinality := finality_limitedRequest
  generalize searcher.streamRoutesParallelWithCache limitedRequest streaming []
    (logged fun _ _ => ((), .continue)) none ((), []) = result at htruthful hfinality
  obtain ⟨callback, outcome⟩ := result
  cases outcome with
  | error error => cases hfinality
  | ok run =>
      have hstopped : run.report.finality = .stopped := Option.some.inj hfinality
      have hclaimed := (htruthful run rfl).1
      rw [hstopped] at hclaimed
      cases hclaimed

end RoundTripExample

end AmmSearch
