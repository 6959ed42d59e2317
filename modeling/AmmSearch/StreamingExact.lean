/-
Exactness of streaming search.  When nobody stops it, an exhaustive stream
observes every route of its request that can be quoted exactly once, whatever
the heuristic phase prunes and in whatever order the workers report, and its
best quote is the best of them.
-/
import AmmSearch.EnumerationExact
import AmmSearch.HeuristicInvariant
import AmmSearch.StreamedQuotes

open FiniteMap StableGraph

namespace AmmSearch

section Sessions

variable {κ : Type} {onEvent : EventCallback κ} {streaming : StreamingSearchConfig}

/-- A step that goes on and leaves the best quote as it is. -/
structure GoesOn (session : StreamingSession κ) (result : StreamingSession κ × Bool) :
    Prop where
  keep : result.2 = true
  best : result.1.state.best = session.state.best

theorem GoesOn.of_best {session other : StreamingSession κ}
    {result : StreamingSession κ × Bool} (hresult : GoesOn other result)
    (hbest : other.state.best = session.state.best) : GoesOn session result :=
  ⟨hresult.keep, hresult.best.trans hbest⟩

namespace StreamingSession

variable (hcontinue : ∀ callback event, (onEvent callback event).2 = .continue)

include hcontinue

theorem emitOrStop_goesOn (session : StreamingSession κ) (event : RouteSearchEvent) :
    GoesOn session (session.emitOrStop onEvent event) := by
  simp only [emitOrStop, emitSearchEvent, hcontinue, beq_self_eq_true, if_true]
  exact ⟨rfl, rfl⟩

theorem releaseInitialResults_goesOn (session : StreamingSession κ)
    (progress : RouteSearchProgress) :
    GoesOn session (session.releaseInitialResults onEvent progress) := by
  unfold releaseInitialResults
  split
  · exact ⟨rfl, rfl⟩
  · exact (emitOrStop_goesOn hcontinue _ _).of_best rfl

variable (hpolicy : streaming.stopPolicy = none)

include hpolicy

theorem emitProgressAndApplyPolicies_goesOn (session : StreamingSession κ)
    (phase : RouteSearchPhase) :
    GoesOn session (session.emitProgressAndApplyPolicies streaming onEvent phase) := by
  unfold emitProgressAndApplyPolicies
  obtain ⟨hkeep, hbest⟩ := emitOrStop_goesOn hcontinue
    { session with state := { session.state with progressPhase := some phase } }
    (.progress { session.state with progressPhase := some phase }.progress)
  simp only
  generalize emitOrStop onEvent _ _ = emitted at hkeep hbest ⊢
  obtain ⟨emitted, keep⟩ := emitted
  obtain rfl : keep = true := hkeep
  have hrelease : GoesOn emitted
      (if releasesInitialResults streaming emitted.state
          { session.state with progressPhase := some phase }.progress then
        emitted.releaseInitialResults onEvent
          { session.state with progressPhase := some phase }.progress
      else (emitted, true)) := by
    split
    · exact releaseInitialResults_goesOn hcontinue _ _
    · exact ⟨rfl, rfl⟩
  simp only [Bool.not_true, Bool.false_eq_true, if_false]
  generalize (if releasesInitialResults streaming emitted.state _ = true then _ else _) =
    released at hrelease ⊢
  obtain ⟨released, keep⟩ := released
  obtain rfl : keep = true := hrelease.keep
  simp only [stopsByPolicy, hpolicy, Option.any_none, Bool.and_false, Bool.not_true,
    Bool.false_eq_true, if_false]
  exact ⟨rfl, hrelease.best.trans hbest⟩

theorem emitObserved_goesOn (session : StreamingSession κ) (phase : RouteSearchPhase)
    (releasedBefore : Bool) (rank : Option ℕ) (quote : RouteQuote)
    (improvement : Option (Option RouteQuote)) :
    GoesOn session (session.emitObserved streaming onEvent phase releasedBefore rank quote
      improvement) := by
  have hfound : ∀ session : StreamingSession κ,
      GoesOn session (session.emitRouteFound streaming onEvent phase rank quote) := by
    intro session
    unfold emitRouteFound
    split
    · exact emitOrStop_goesOn hcontinue _ _
    · exact ⟨rfl, rfl⟩
  unfold emitObserved
  have hprogress := emitProgressAndApplyPolicies_goesOn hcontinue hpolicy session phase
  generalize emitProgressAndApplyPolicies streaming onEvent session phase = result
    at hprogress ⊢
  obtain ⟨next, keep⟩ := result
  obtain rfl : keep = true := hprogress.keep
  have hbest : next.state.best = session.state.best := hprogress.best
  simp only [Bool.not_true, Bool.false_eq_true, if_false]
  split
  · exact ⟨rfl, hbest⟩
  · split
    · exact (hfound next).of_best hbest
    · rename_i previous
      have hupdated := emitOrStop_goesOn hcontinue next
        (.bestUpdated phase quote previous .provisional)
      generalize emitOrStop onEvent next _ = updated at hupdated ⊢
      obtain ⟨updated, keep⟩ := updated
      obtain rfl : keep = true := hupdated.keep
      simp only [Bool.not_true, Bool.false_eq_true, if_false]
      exact (hfound updated).of_best (hupdated.best.trans hbest)

/-- Observing a quote goes on, and a larger quote becomes the best one. -/
theorem observeQuote_spec (phase : RouteSearchPhase) (session : StreamingSession κ)
    (quote : RouteQuote) :
    (session.observeQuote streaming onEvent phase quote).2 = true ∧
      (session.observeQuote streaming onEvent phase quote).1.state.best =
        if session.state.best.all fun best => best.amountOut < quote.amountOut then
          some quote
        else session.state.best := by
  unfold observeQuote
  have hbest := @best_recordTopRoute streaming
    { session.state with
      progressPhase := some phase
      routesObserved := session.state.routesObserved + 1 } quote
  simp only
  generalize StreamingRouteState.recordTopRoute streaming _ quote = recorded at hbest ⊢
  obtain ⟨state, rank⟩ := recorded
  simp only at hbest ⊢
  rw [hbest]
  split
  · obtain ⟨hkeep, hnext⟩ := emitObserved_goesOn hcontinue hpolicy _ phase
      session.state.initialResultsReleased rank quote (some session.state.best)
    exact ⟨hkeep, hnext⟩
  · obtain ⟨hkeep, hnext⟩ := emitObserved_goesOn hcontinue hpolicy
      { session with state := state } phase session.state.initialResultsReleased rank
      quote none
    exact ⟨hkeep, hnext.trans hbest⟩

theorem observeFailedCandidates_goesOn (session : StreamingSession κ)
    (phase : RouteSearchPhase) (count : ℕ) :
    GoesOn session
      (session.observeFailedCandidates streaming onEvent phase count) := by
  unfold observeFailedCandidates
  split
  · exact ⟨rfl, rfl⟩
  · exact (emitProgressAndApplyPolicies_goesOn hcontinue hpolicy _ phase).of_best rfl

theorem finishHeuristicPhase_goesOn (session : StreamingSession κ) :
    GoesOn session (session.finishHeuristicPhase streaming onEvent) :=
  (emitProgressAndApplyPolicies_goesOn hcontinue hpolicy _ _).of_best rfl

theorem setTotalCandidates_goesOn (session : StreamingSession κ) (total : ℕ) :
    GoesOn session (session.setTotalCandidates streaming onEvent total) :=
  (emitProgressAndApplyPolicies_goesOn hcontinue hpolicy _ _).of_best rfl

end StreamingSession

namespace StreamRun

/-- A quote callback that goes on, logs every quote and tracks the best. -/
structure Observes (onQuote : StreamRun κ → RouteQuote → StreamRun κ × Bool) : Prop where
  keep : ∀ run quote, (onQuote run quote).2 = true
  quotes : ∀ run quote,
    (onQuote run quote).1.observedQuotes = run.observedQuotes ++ [quote]
  tracks : ∀ run quote, run.Tracks → (onQuote run quote).1.Tracks

theorem Observes.reportAll {onQuote : StreamRun κ → RouteQuote → StreamRun κ × Bool}
    (hobserves : Observes onQuote) (log : List RouteQuote) {run : StreamRun κ}
    (hrun : run.Tracks) :
    (reportAll onQuote run log).Tracks ∧
      (reportAll onQuote run log).observedQuotes = run.observedQuotes ++ log := by
  induction log generalizing run with
  | nil => exact ⟨hrun, (List.append_nil _).symm⟩
  | cons quote rest ih =>
      obtain ⟨htracks, hquotes⟩ := ih (hobserves.tracks run quote hrun)
      refine ⟨htracks, hquotes.trans ?_⟩
      rw [hobserves.quotes, List.append_assoc, List.singleton_append]

variable (hcontinue : ∀ callback event, (onEvent callback event).2 = .continue)
  (hpolicy : streaming.stopPolicy = none)

include hcontinue

section Callbacks

include hpolicy

theorem observes_observeHeuristic :
    Observes (observeHeuristic streaming onEvent) where
  keep := fun run quote =>
    (StreamingSession.observeQuote_spec hcontinue hpolicy .heuristic run.session quote).1
  quotes := fun _ _ => rfl
  tracks := by
    intro run quote hrun
    have hbest := (StreamingSession.observeQuote_spec hcontinue hpolicy .heuristic
      run.session quote).2
    simp only [Tracks, observeHeuristic, hbest]
    exact IsBest.append_singleton hrun quote

theorem observes_observeExhaustive :
    Observes (observeExhaustive streaming onEvent) where
  keep := fun run quote =>
    (StreamingSession.observeQuote_spec hcontinue hpolicy .exhaustive run.session quote).1
  quotes := fun _ _ => rfl
  tracks := by
    intro run quote hrun
    have hbest := (StreamingSession.observeQuote_spec hcontinue hpolicy .exhaustive
      run.session quote).2
    simp only [Tracks, observeExhaustive, hbest]
    exact IsBest.append_singleton hrun quote

end Callbacks

omit hcontinue in
theorem evaluatedPaths_reportAll (log : List RouteQuote) (run : StreamRun κ) :
    (reportAll (observeHeuristic streaming onEvent) run log).evaluatedPaths =
      run.evaluatedPaths ∪ (log.map RouteQuote.path).toFinset := by
  induction log generalizing run with
  | nil => simp [AmmSearch.reportAll]
  | cons quote rest ih =>
      refine (ih _).trans ?_
      simp [observeHeuristic, Finset.insert_union]

theorem emit_goesOn (run : StreamRun κ) (event : RouteSearchEvent) :
    (run.emit onEvent event).2 = true ∧
      (run.emit onEvent event).1.session.state = run.session.state ∧
      (run.emit onEvent event).1.observedQuotes = run.observedQuotes ∧
      (run.emit onEvent event).1.evaluatedPaths = run.evaluatedPaths := by
  simp [emit, emitSearchEvent, hcontinue]

/-- A finished run reports the best of what it has observed. -/
theorem finish_spec (run : StreamRun κ) (finality : SearchFinality)
    (emitCompleted : Bool) :
    ∃ report, (run.finish streaming onEvent finality emitCompleted).2 =
      .ok ⟨report, run.observedQuotes⟩ ∧ report.best = run.session.state.best := by
  have hrelease : GoesOn run.session
      (run.session.releaseInitialResultsAtCompletion streaming onEvent finality) := by
    unfold StreamingSession.releaseInitialResultsAtCompletion
    split
    · exact ⟨rfl, rfl⟩
    · exact StreamingSession.releaseInitialResults_goesOn hcontinue _ _
  refine ⟨_, rfl, ?_⟩
  simp only [StreamingSession.finishStreamReport]
  split
  · exact hrelease.best
  · exact hrelease.best

end StreamRun

end Sessions

namespace AmmSearcher

variable {G : Type} [StableDiGraph G Address EdgeData] {searcher : AmmSearcher G}
  {κ : Type} {onEvent : EventCallback κ} {request : RouteRequest}
  {streaming : StreamingSearchConfig} {shouldContinue : Option (ℕ → Bool)}

/-- What quoting one path of the request gives. -/
def quoteOutcome (searcher : AmmSearcher G) (request : RouteRequest) (path : RoutePath) :
    RouteQuote ⊕ PathFailure :=
  (searcher.quoteEnv request.simConfig).pathOutcome searcher.quoteContext
    request.amountIn path

/-- The quotes of the paths that can be quoted. -/
def pathQuotes (searcher : AmmSearcher G) (request : RouteRequest)
    (paths : List RoutePath) : List RouteQuote :=
  quotedOutcomes (paths.map (searcher.quoteOutcome request))

omit [StableDiGraph G Address EdgeData] in
theorem path_of_quoteOutcome {path : RoutePath} {quote : RouteQuote}
    (houtcome : searcher.quoteOutcome request path = .inl quote) : quote.path = path := by
  simp only [quoteOutcome, QuoteEnv.pathOutcome] at houtcome
  split at houtcome
  · cases houtcome
  · split at houtcome
    · obtain rfl := Sum.inl.inj houtcome
      rfl
    · cases houtcome

omit [StableDiGraph G Address EdgeData] in
theorem mem_pathQuotes {paths : List RoutePath} {quote : RouteQuote} :
    quote ∈ searcher.pathQuotes request paths ↔
      quote.path ∈ paths ∧ searcher.quoteOutcome request quote.path = .inl quote := by
  simp only [pathQuotes, quotedOutcomes, List.mem_filterMap, List.mem_map]
  constructor
  · rintro ⟨_, ⟨path, hpath, rfl⟩, hquote⟩
    have houtcome : searcher.quoteOutcome request path = .inl quote :=
      Sum.getLeft?_eq_some_iff.mp hquote
    rw [path_of_quoteOutcome houtcome]
    exact ⟨hpath, houtcome⟩
  · rintro ⟨hpath, houtcome⟩
    exact ⟨_, ⟨quote.path, hpath, rfl⟩, by rw [houtcome]; rfl⟩

/-- The stream has observed `log` and reports the best of them. -/
structure Streamed (log : List RouteQuote) (result : StreamingRunReport) : Prop where
  quotes : result.quotes = log
  best : IsBest log result.report.best
  found : result.report.best ≠ none

section Phases

variable (hcontinue : ∀ callback event, (onEvent callback event).2 = .continue)
  (hpolicy : streaming.stopPolicy = none) {heuristicError : Option SearchError}

include hcontinue

omit [StableDiGraph G Address EdgeData] in
theorem completeStream_spec {run : StreamRun κ} (hrun : run.Tracks)
    (failures : List PathFailure) {result : StreamingRunReport}
    (hresult : (completeStream streaming onEvent run heuristicError failures).2 =
      .ok result) : Streamed run.observedQuotes result := by
  unfold completeStream at hresult
  obtain ⟨hkeep, hstate, hquotes, _⟩ := StreamRun.emit_goesOn hcontinue
    { run with session := run.session.markExhaustiveComplete }
    (.phaseCompleted .exhaustive
      ({ run with session := run.session.markExhaustiveComplete } :
        StreamRun κ).session.state.phaseStats)
  simp only at hresult
  generalize StreamRun.emit onEvent _ _ = emitted at hresult hkeep hstate hquotes
  obtain ⟨emitted, keep⟩ := emitted
  obtain rfl : keep = true := hkeep
  have hbest : emitted.session.state.best = run.session.state.best := by
    rw [hstate]
    rfl
  simp only [Bool.not_true, Bool.false_eq_true, if_false] at hresult
  split at hresult
  · split at hresult <;> cases hresult
  · rename_i hsome
    obtain ⟨report, hfinish, hreport⟩ := @StreamRun.finish_spec κ onEvent streaming
      hcontinue emitted .exhaustive true
    rw [hfinish] at hresult
    obtain rfl := Except.ok.inj hresult
    have hreport : report.best = run.session.state.best := hreport.trans hbest
    refine ⟨hquotes, hreport ▸ hrun, ?_⟩
    rw [hreport, ← hbest]
    simpa using hsome

include hpolicy

omit [StableDiGraph G Address EdgeData] in
theorem streamRemainder_spec (hparallel : streaming.parallel.validate = .ok ())
    (schedule : List FanIn.Event) {run : StreamRun κ} (hrun : run.Tracks)
    (paths : List RoutePath) {result : StreamingRunReport}
    (hresult : (searcher.streamRemainder request streaming schedule onEvent run
      heuristicError paths).2 = .ok result) :
    ∃ log, log.Perm (searcher.pathQuotes request paths) ∧
      Streamed (run.observedQuotes ++ log) result := by
  unfold streamRemainder at hresult
  split at hresult
  · rename_i hempty
    refine ⟨[], by simp [pathQuotes, quotedOutcomes, hempty], ?_⟩
    rw [List.append_nil]
    exact completeStream_spec hcontinue hrun _ hresult
  · have hobserves := StreamRun.observes_observeExhaustive hcontinue hpolicy
    obtain ⟨report, hreport, hstopped, log, hlog, hobserved⟩ :=
      @quoteAndStreamParallel_continues (searcher.quoteEnv request.simConfig)
        searcher.quoteContext request.amountIn _ _ hparallel schedule _ hobserves.keep
        paths run
    obtain ⟨htracks, hquotes⟩ := hobserves.reportAll log hrun
    rw [← hobserved] at htracks hquotes
    simp only [hreport, hstopped, Bool.false_eq_true, if_false] at hresult
    have hfailed := StreamingSession.observeFailedCandidates_goesOn hcontinue hpolicy
      report.observed.session .exhaustive report.failures.length
    generalize StreamingSession.observeFailedCandidates streaming onEvent _ _ _ = failed
      at hresult hfailed
    obtain ⟨session, keep⟩ := failed
    obtain rfl : keep = true := hfailed.keep
    simp only [Bool.not_true, Bool.false_eq_true, if_false] at hresult
    have hnext : StreamRun.Tracks { report.observed with session := session } := by
      unfold StreamRun.Tracks
      rw [show session.state.best = report.observed.session.state.best from hfailed.best]
      exact htracks
    exact ⟨log, hlog, hquotes ▸ completeStream_spec hcontinue hnext _ hresult⟩

variable (hlimit : request.config.maxCandidates = none)
  (hrunning : ∀ poll ∈ shouldContinue, ∀ count, poll count = true)
  (hparallel : streaming.parallel.validate = .ok ())
  (hvalid : request.config.validate = .ok ()) {source target : NodeIndex}
  (hsource : searcher.graph.nodeIndex request.tokenIn = some source)
  (htarget : searcher.graph.nodeIndex request.tokenOut = some target)

include hlimit hrunning hparallel hvalid hsource htarget

omit [StableDiGraph G Address EdgeData] in
/-- The exhaustive phase observes the routes that were not evaluated before. -/
theorem streamExhaustive_spec (schedule : List FanIn.Event) {run : StreamRun κ}
    (hrun : run.Tracks) {result : StreamingRunReport}
    (hresult : (searcher.streamExhaustive request streaming schedule onEvent
      shouldContinue run heuristicError).2 = .ok result) :
    ∃ log, log.Perm (searcher.pathQuotes request
        ((searcher.graph.requestRoutes source target request.tokenIn request.tokenOut
          request.config false).filter (· ∉ run.evaluatedPaths))) ∧
      Streamed (run.observedQuotes ++ log) result := by
  have hvalid' : ({ request.config with mode := .exhaustive } : SearchConfig).validate =
      .ok () := SearchConfig.validate_exhaustive hvalid
  have henumerate := AmmGraph.enumerateRoutesFiltered_full hvalid' hsource htarget false
    run.evaluatedPaths
  have hbudget : (request.config.maxCandidates.map fun maxCandidates =>
      maxCandidates - run.session.state.candidatesEvaluated) = none := by
    rw [hlimit, Option.map_none]
  have hpolls : ∀ poll ∈ shouldContinue.map fun poll count => poll (count + 1),
      ∀ count, poll count = true := by
    intro poll hpoll count
    obtain ⟨original, horiginal, rfl⟩ := Option.map_eq_some_iff.mp hpoll
    exact hrunning original horiginal _
  simp only [streamExhaustive] at hresult
  rw [hbudget, AmmGraph.enumerateRoutesFiltered_uninterrupted _ _ _ _ _ _ _ hpolls,
    henumerate] at hresult
  by_cases hempty : searcher.graph.requestRoutes source target request.tokenIn
      request.tokenOut { request.config with mode := .exhaustive } false = []
  · have hempty' : searcher.graph.requestRoutes source target request.tokenIn
      request.tokenOut request.config false = [] := hempty
    rw [if_pos hempty] at hresult
    simp only at hresult
    refine ⟨[], ?_, ?_⟩
    · rw [hempty']
      exact List.Perm.refl _
    · rw [List.append_nil]
      split at hresult
      · cases hresult
      · rename_i hsome
        obtain ⟨report, hfinish, hreport⟩ := @StreamRun.finish_spec κ onEvent streaming
          hcontinue run .exhaustive true
        rw [hfinish] at hresult
        obtain rfl := Except.ok.inj hresult
        refine ⟨rfl, hreport ▸ hrun, ?_⟩
        rw [hreport]
        simpa using hsome
  · rw [if_neg hempty] at hresult
    simp only [Bool.false_eq_true, if_false] at hresult
    generalize hskipped : ({ run.session with state := { run.session.state with
      duplicatePathsSkipped := _ } } : StreamingSession κ) = session at hresult
    have hsession : session.state.best = run.session.state.best := by
      rw [← hskipped]
    generalize htotalled : StreamingSession.setTotalCandidates streaming onEvent session _ =
      totalled at hresult
    have hgoes : GoesOn session totalled :=
      htotalled ▸ StreamingSession.setTotalCandidates_goesOn hcontinue hpolicy session _
    obtain ⟨next, keep⟩ := totalled
    obtain rfl : keep = true := hgoes.keep
    have hnext : StreamRun.Tracks { run with session := next } := by
      unfold StreamRun.Tracks
      rw [show next.state.best = session.state.best from hgoes.best, hsession]
      exact hrun
    simp only [Bool.not_true, Bool.false_eq_true, if_false] at hresult
    exact streamRemainder_spec hcontinue hpolicy hparallel schedule hnext _ hresult

omit [StableDiGraph G Address EdgeData] in
theorem finishHeuristic_spec (hcompletion : streaming.completion = .exhaustive)
    (schedule : List FanIn.Event) {run : StreamRun κ} (hrun : run.Tracks)
    {result : StreamingRunReport}
    (hresult : (searcher.finishHeuristic request streaming schedule onEvent shouldContinue
      run false heuristicError).2 = .ok result) :
    ∃ log, log.Perm (searcher.pathQuotes request
        ((searcher.graph.requestRoutes source target request.tokenIn request.tokenOut
          request.config false).filter (· ∉ run.evaluatedPaths))) ∧
      Streamed (run.observedQuotes ++ log) result := by
  have hpolls : (shouldContinue.any fun poll => !poll 0) = false := by
    cases hpoll : shouldContinue with
    | none => rfl
    | some poll => simp [hrunning poll hpoll]
  have hfinish := StreamingSession.finishHeuristicPhase_goesOn hcontinue hpolicy
    run.session
  simp only [finishHeuristic, Bool.false_eq_true, if_false, hpolls, Bool.or_false]
    at hresult
  generalize StreamingSession.finishHeuristicPhase streaming onEvent run.session =
    finished at hresult hfinish
  obtain ⟨session, keep⟩ := finished
  obtain rfl : keep = true := hfinish.keep
  simp only [Bool.not_true, Bool.false_eq_true, if_false] at hresult
  obtain ⟨hkeep, hstate, hquotes, hpaths⟩ := StreamRun.emit_goesOn hcontinue
    { run with session := session }
    (.phaseCompleted .heuristic session.state.phaseStats)
  generalize StreamRun.emit onEvent _ _ = emitted at hresult hkeep hstate hquotes hpaths
  obtain ⟨emitted, keep⟩ := emitted
  obtain rfl : keep = true := hkeep
  simp only [Bool.not_true, Bool.false_eq_true, if_false, hcompletion] at hresult
  have htracks : emitted.Tracks := by
    unfold StreamRun.Tracks
    rw [show emitted.observedQuotes = run.observedQuotes from hquotes, hstate,
      show session.state.best = run.session.state.best from hfinish.best]
    exact hrun
  rw [← show emitted.observedQuotes = run.observedQuotes from hquotes,
    ← show emitted.evaluatedPaths = run.evaluatedPaths from hpaths]
  exact streamExhaustive_spec hcontinue hpolicy hlimit hrunning hparallel hvalid hsource
    htarget schedule htracks hresult

end Phases

section Heuristic

/-- The request as the heuristic phase sees it. -/
def heuristicRequest (request : RouteRequest) : RouteRequest :=
  { request with
    config := { request.config with
      mode := .heuristic request.config.mode.heuristicOrDefault } }

omit [StableDiGraph G Address EdgeData] in
theorem validate_heuristicRequest (hvalid : request.config.validate = .ok ()) :
    (heuristicRequest request).config.validate = .ok () := by
  unfold heuristicRequest
  cases hmode : request.config.mode with
  | heuristic heuristic =>
      have hsame : ({ request.config with mode := .heuristic heuristic } : SearchConfig) =
          request.config := by
        rw [← hmode]
      simp only [SearchMode.heuristicOrDefault]
      rw [hsame]
      exact hvalid
  | exhaustive =>
      unfold SearchConfig.validate at hvalid ⊢
      rw [rejectWhen_bind_eq_ok_iff, rejectWhen_bind_eq_ok_iff,
        rejectWhen_bind_eq_ok_iff] at hvalid ⊢
      exact ⟨hvalid.1, hvalid.2.1, hvalid.2.2.1, rfl⟩

/-- Quotes of distinct routes of the request. -/
structure Quoted (searcher : AmmSearcher G) (request : RouteRequest)
    (log : List RouteQuote) : Prop where
  nodup : (log.map RouteQuote.path).Nodup
  isRoute : ∀ quote ∈ log, searcher.graph.IsRoute request.config request.tokenIn
    request.tokenOut false quote.path
  outcome : ∀ quote ∈ log, searcher.quoteOutcome request quote.path = .inl quote

/-- What the heuristic phase observes between distinct tokens. -/
theorem heuristicPhase_spec (hindexed : searcher.graph.Indexed)
    (hvalid : request.config.validate = .ok ())
    (hne : request.tokenIn ≠ request.tokenOut)
    (hlimit : request.config.maxCandidates = none) {source target : NodeIndex}
    (hsource : searcher.graph.nodeIndex request.tokenIn = some source)
    (htarget : searcher.graph.nodeIndex request.tokenOut = some target) {σ : Type}
    {onQuote : σ → RouteQuote → σ × Bool}
    (hcontinue : ∀ observed quote, (onQuote observed quote).2 = true)
    (runLimit : HeuristicRunLimit) (start : σ) :
    let result := searcher.observedSearch (heuristicRequest request)
      request.config.mode.heuristicOrDefault onQuote runLimit start
    ∃ log, result.1 = reportAll onQuote start log ∧ searcher.Quoted request log ∧
      ∀ report, result.2 = .ok report → report.stopped = false ∧
        ∀ quote ∈ report.quotes, quote.path ∈ log.map RouteQuote.path := by
  intro result
  have hvalid' := validate_heuristicRequest hvalid
  have hresolved : (searcher.requestContext (heuristicRequest request)
      request.config.mode.heuristicOrDefault source target).Resolved searcher.graph :=
    ⟨hindexed, hsource, htarget⟩
  have hfast := soundRun_requestContext hresolved (fun hroundTrip => hne hroundTrip.1)
    onQuote start
  obtain ⟨log, hlog, hsound, hreports⟩ := searchRoutes_running hresolved hfast hcontinue
    hlimit runLimit
  have heq : result = _ := observedSearch_eq hvalid' hsource htarget onQuote runLimit start
  rw [← heq] at hlog hreports
  have hfaithful := hsound.faithful hvalid'
  refine ⟨log, hlog, ⟨hsound.1, ?_, ?_⟩, hreports⟩
  · intro quote hquote
    obtain ⟨hedges, hconnects, hmin, hmax, hpools, htokens, hinter⟩ :=
      hfaithful.isRoute quote hquote
    exact ⟨hedges, hconnects, hmin, hmax, hpools, htokens, hinter⟩
  · intro quote hquote
    obtain ⟨hroute, hamount, htrace⟩ := hsound.2 quote hquote
    have hnonempty : quote.path ≠ [] := by
      intro hempty
      have hmin := hroute.minHops
      rw [hempty] at hmin
      exact absurd ((SearchConfig.hops_of_validate hvalid).1.trans hmin) (by simp)
    have htrace : (searcher.quoteEnv request.simConfig).traceHops searcher.quoteContext
        quote.path request.amountIn = .ok (quote.hops, quote.amountOut) := htrace
    have hamount : quote.amountIn = request.amountIn := hamount
    rw [quoteOutcome, QuoteEnv.pathOutcome, if_neg hnonempty, htrace]
    simp only [← hamount]

end Heuristic

/-- The stream has observed the routes of the request that can be quoted, each
exactly once, and nothing else, and reports the best of them. -/
structure StreamsUniverse (searcher : AmmSearcher G) (request : RouteRequest)
    (result : StreamingRunReport) : Prop where
  observed : ∀ path quote, searcher.graph.IsRoute request.config request.tokenIn
    request.tokenOut false path → searcher.quoteOutcome request path = .inl quote →
    quote ∈ result.quotes ∧ (result.quotes.map RouteQuote.path).count path = 1
  inside : ∀ quote ∈ result.quotes, searcher.graph.IsRoute request.config request.tokenIn
    request.tokenOut false quote.path ∧
    searcher.quoteOutcome request quote.path = .inl quote
  best : ∃ best ∈ result.quotes, result.report.best = some best ∧
    ∀ path quote, searcher.graph.IsRoute request.config request.tokenIn request.tokenOut
      false path → searcher.quoteOutcome request path = .inl quote →
      quote.amountOut ≤ best.amountOut

/-- The two phases together observe the universe. -/
theorem streamsUniverse_of_phases (hindexed : searcher.graph.Indexed)
    (hvalid : request.config.validate = .ok ()) {source target : NodeIndex}
    (hsource : searcher.graph.nodeIndex request.tokenIn = some source)
    (htarget : searcher.graph.nodeIndex request.tokenOut = some target)
    {found rest : List RouteQuote} (hfound : searcher.Quoted request found)
    {evaluated : Finset RoutePath}
    (hevaluated : ∀ path, path ∈ evaluated ↔ path ∈ found.map RouteQuote.path)
    (hrest : rest.Perm (searcher.pathQuotes request
      ((searcher.graph.requestRoutes source target request.tokenIn request.tokenOut
        request.config false).filter (· ∉ evaluated))))
    {result : StreamingRunReport} (hresult : Streamed (found ++ rest) result) :
    searcher.StreamsUniverse request result := by
  obtain ⟨hnodup, hroutes, _⟩ := AmmGraph.requestRoutes_spec hindexed hvalid hsource
    htarget false
  generalize searcher.graph.requestRoutes source target request.tokenIn request.tokenOut
    request.config false = routes at hnodup hroutes hrest
  have hmem : ∀ quote, quote ∈ rest ↔ quote.path ∈ routes ∧
      quote.path ∉ found.map RouteQuote.path ∧
      searcher.quoteOutcome request quote.path = .inl quote := by
    intro quote
    rw [hrest.mem_iff, mem_pathQuotes, List.mem_filter, decide_eq_true_eq, hevaluated,
      and_assoc]
  have hdistinct : ((found ++ rest).map RouteQuote.path).Nodup := by
    rw [List.map_append, List.nodup_append]
    refine ⟨hfound.nodup, ?_, ?_⟩
    · exact (hrest.map RouteQuote.path).nodup_iff.mpr
        (QuoteEnv.nodup_quotedOutcomes (hnodup.filter _))
    · rintro path hleft _ hright rfl
      obtain ⟨quote, hquote, rfl⟩ := List.mem_map.mp hright
      exact ((hmem quote).mp hquote).2.1 hleft
  have hobserved : ∀ path quote, searcher.graph.IsRoute request.config request.tokenIn
      request.tokenOut false path → searcher.quoteOutcome request path = .inl quote →
      quote ∈ found ++ rest := by
    intro path quote hroute houtcome
    obtain rfl := path_of_quoteOutcome houtcome
    by_cases hseen : quote.path ∈ found.map RouteQuote.path
    · obtain ⟨other, hother, hpath⟩ := List.mem_map.mp hseen
      have hsame := hfound.outcome other hother
      rw [hpath, houtcome] at hsame
      exact List.mem_append_left _ (Sum.inl.inj hsame ▸ hother)
    · exact List.mem_append_right _
        ((hmem quote).mpr ⟨(hroutes _).mpr hroute, hseen, houtcome⟩)
  obtain ⟨hquotes, hbest, hsome⟩ := hresult
  refine ⟨?_, ?_, ?_⟩
  · intro path quote hroute houtcome
    have hquote := hobserved path quote hroute houtcome
    rw [hquotes]
    refine ⟨hquote, List.count_eq_one_of_mem hdistinct ?_⟩
    exact List.mem_map.mpr ⟨quote, hquote, path_of_quoteOutcome houtcome⟩
  · intro quote hquote
    rw [hquotes] at hquote
    rcases List.mem_append.mp hquote with hleft | hright
    · exact ⟨hfound.isRoute quote hleft, hfound.outcome quote hleft⟩
    · obtain ⟨hroute, _, houtcome⟩ := (hmem quote).mp hright
      exact ⟨(hroutes _).mp hroute, houtcome⟩
  · obtain ⟨best, heq⟩ := Option.ne_none_iff_exists'.mp hsome
    rw [heq] at hbest
    refine ⟨best, hquotes ▸ hbest.1, heq, ?_⟩
    intro path quote hroute houtcome
    exact hbest.2 quote (hobserved path quote hroute houtcome)

omit [StableDiGraph G Address EdgeData] in
theorem parallel_of_validate (hvalid : streaming.validate = .ok ()) :
    streaming.parallel.validate = .ok () := by
  unfold StreamingSearchConfig.validate at hvalid
  cases hparallel : streaming.parallel.validate with
  | ok _ => rfl
  | error error =>
      rw [hparallel] at hvalid
      cases hvalid

section Handover

variable (hindexed : searcher.graph.Indexed)
  (hlimit : request.config.maxCandidates = none)
  (hcompletion : streaming.completion = .exhaustive)
  (hpolicy : streaming.stopPolicy = none)
  (hcontinue : ∀ callback event, (onEvent callback event).2 = .continue)
  (hrunning : ∀ poll ∈ shouldContinue, ∀ count, poll count = true)
  (hparallel : streaming.parallel.validate = .ok ())
  (hvalid : request.config.validate = .ok ())

include hindexed hlimit hcompletion hpolicy hcontinue hrunning hparallel hvalid

/-- A run that excludes exactly what it has observed completes the universe. -/
theorem finishHeuristic_universe (schedule : List FanIn.Event)
    {source target : NodeIndex}
    (hsource : searcher.graph.nodeIndex request.tokenIn = some source)
    (htarget : searcher.graph.nodeIndex request.tokenOut = some target)
    {run : StreamRun κ} (hrun : run.Tracks)
    (hquoted : searcher.Quoted request run.observedQuotes)
    (hpaths : ∀ path, path ∈ run.evaluatedPaths ↔
      path ∈ run.observedQuotes.map RouteQuote.path)
    {heuristicError : Option SearchError} {result : StreamingRunReport}
    (hresult : (searcher.finishHeuristic request streaming schedule onEvent
      shouldContinue run false heuristicError).2 = .ok result) :
    searcher.StreamsUniverse request result := by
  obtain ⟨rest, hrest, hstreamed⟩ := finishHeuristic_spec hcontinue hpolicy hlimit
    hrunning hparallel hvalid hsource htarget hcompletion schedule hrun hresult
  exact streamsUniverse_of_phases hindexed hvalid hsource htarget hquoted hpaths hrest
    hstreamed

/-- The first phase hands over to the second one with what it has observed. -/
theorem streamHeuristic_universe (hne : request.tokenIn ≠ request.tokenOut)
    (schedule : List FanIn.Event) {run : StreamRun κ} (hrun : run.Tracks)
    (hquotes : run.observedQuotes = []) (hpaths : run.evaluatedPaths = ∅)
    {result : StreamingRunReport}
    (hresult : (searcher.streamHeuristic request streaming schedule onEvent
      shouldContinue run).2 = .ok result) :
    searcher.StreamsUniverse request result := by
  have hobserves := StreamRun.observes_observeHeuristic hcontinue hpolicy
  unfold streamHeuristic at hresult
  rw [if_neg (by rw [hcompletion]; simp)] at hresult
  simp only at hresult
  generalize hsearch : searcher.findRoutesHeuristicWithCacheObserved _ _ _ _ _ _ _ _ _ _ =
    searched at hresult
  have hsearched : searcher.observedSearch (heuristicRequest request)
      request.config.mode.heuristicOrDefault
      (StreamRun.observeHeuristic streaming onEvent) .full run = searched := hsearch
  rcases @observedSearch_resolved G _ searcher _ request.config.mode.heuristicOrDefault
    (validate_heuristicRequest hvalid) _
    (StreamRun.observeHeuristic streaming onEvent) .full run with
    ⟨source, target, hsource, htarget⟩ | ⟨token, hmissing⟩
  · obtain ⟨found, hfound, hquoted, hreports⟩ := heuristicPhase_spec hindexed hvalid hne
      hlimit hsource htarget hobserves.keep .full run
    obtain ⟨htracks, hobserved⟩ := hobserves.reportAll found hrun
    have hevaluated := @StreamRun.evaluatedPaths_reportAll κ onEvent streaming found run
    rw [hsearched] at hfound hreports
    rw [← hfound] at htracks hobserved hevaluated
    rw [hquotes, List.nil_append] at hobserved
    rw [hpaths, Finset.empty_union] at hevaluated
    obtain ⟨after, outcome⟩ := searched
    obtain rfl : after.observedQuotes = found := hobserved
    have hafter : ∀ path, path ∈ after.evaluatedPaths ↔
        path ∈ after.observedQuotes.map RouteQuote.path := by
      intro path
      rw [show after.evaluatedPaths = _ from hevaluated, List.mem_toFinset]
    have hfinish := fun run hrun hquoted hpaths error hresult =>
      @finishHeuristic_universe G _ searcher κ onEvent request streaming shouldContinue
        hindexed hlimit hcompletion hpolicy hcontinue hrunning hparallel hvalid schedule
        source target hsource htarget run hrun hquoted hpaths error result hresult
    simp only at htracks hreports hresult
    split at hresult
    · rename_i report
      obtain ⟨hstopped, hreported⟩ := hreports report rfl
      have hfailed := StreamingSession.observeFailedCandidates_goesOn hcontinue hpolicy
        after.session .heuristic report.failedCandidates
      rw [hfailed.keep, hstopped] at hresult
      refine hfinish _ ?_ ?_ ?_ none hresult
      · unfold StreamRun.Tracks
        rw [hfailed.best]
        exact htracks
      · exact hquoted
      · -- the returned finalists are among the observed quotes
        intro path
        rw [Finset.mem_union, hafter, List.mem_toFinset]
        refine ⟨?_, Or.inl⟩
        rintro (hold | hnew)
        · exact hold
        · obtain ⟨quote, hquote, rfl⟩ := List.mem_map.mp hnew
          exact hreported quote hquote
    · cases hresult
    · cases hresult
    · exact hfinish after htracks hquoted hafter _ hresult
  · rw [← hsearched, hmissing] at hresult
    cases hresult

end Handover

/-- An exhaustive stream between distinct tokens, without a candidate limit,
that nobody stops observes exactly the route universe of its request, whatever
the heuristic phase prunes and however the workers are interleaved. -/
theorem streamRoutesParallel_exact (hbuilt : searcher.graph.Built)
    (hne : request.tokenIn ≠ request.tokenOut)
    (hlimit : request.config.maxCandidates = none)
    (hcompletion : streaming.completion = .exhaustive)
    (hpolicy : streaming.stopPolicy = none)
    (hcontinue : ∀ callback event, (onEvent callback event).2 = .continue)
    (hrunning : ∀ poll ∈ shouldContinue, ∀ count, poll count = true)
    (schedule : List FanIn.Event) (callback : κ) {result : StreamingRunReport}
    (hresult : (searcher.streamRoutesParallelWithCache request streaming schedule onEvent
      shouldContinue callback).2 = .ok result) :
    searcher.StreamsUniverse request result := by
  unfold streamRoutesParallelWithCache at hresult
  split at hresult
  · cases hresult
  · cases hresult
  · rename_i hstreaming hvalid
    obtain ⟨hkeep, hstate, hquotes, hpaths⟩ := StreamRun.emit_goesOn hcontinue
      ({ session := ⟨.new streaming, callback⟩ } : StreamRun κ)
      (.started streaming.completion)
    simp only at hresult
    generalize StreamRun.emit onEvent _ _ = emitted at hresult hkeep hstate hquotes hpaths
    obtain ⟨run, keep⟩ := emitted
    obtain rfl : keep = true := hkeep
    simp only [Bool.not_true, Bool.false_eq_true, if_false] at hresult
    have hrun : run.Tracks := by
      unfold StreamRun.Tracks
      rw [show run.observedQuotes = [] from hquotes, hstate]
      rfl
    exact streamHeuristic_universe hbuilt.indexed hlimit hcompletion hpolicy hcontinue
      hrunning (parallel_of_validate hstreaming) hvalid hne schedule hrun hquotes hpaths
      hresult

end AmmSearcher

namespace RoundTripExample

/-- A stream over two workers that step in turn. -/
def streaming : StreamingSearchConfig where
  parallel := ⟨2⟩

/-- A request whose heuristic phase takes one of the two parallel pools, so that
the remainder is not empty. -/
def narrowRequest : RouteRequest :=
  { request 2 with config := { connectorTokens := some {2}, maxHops := 1 } }

/-- The routes that the stream of `narrowRequest` has observed. -/
theorem length_quotes_narrowRequest :
    ((searcher.streamRoutesParallelWithCache narrowRequest streaming
      [.work 1 true, .work 0 true, .receive] (fun _ _ => ((), .continue)) none
        ()).2.toOption.map fun result => result.quotes.length) = some 2 := by
  decide +kernel

theorem streamRoutesParallel_narrowRequest :
    ∃ result, (searcher.streamRoutesParallelWithCache narrowRequest streaming
        [.work 1 true, .work 0 true, .receive] (fun _ _ => ((), .continue)) none ()).2 =
          .ok result ∧ result.quotes.length = 2 ∧
      searcher.StreamsUniverse narrowRequest result := by
  have hlength := length_quotes_narrowRequest
  cases hresult : (searcher.streamRoutesParallelWithCache narrowRequest streaming
      [.work 1 true, .work 0 true, .receive] (fun _ _ => ((), .continue)) none ()).2 with
  | error error =>
      rw [hresult] at hlength
      cases hlength
  | ok result =>
      rw [hresult] at hlength
      refine ⟨result, rfl, Option.some.inj hlength, ?_⟩
      exact AmmSearcher.streamRoutesParallel_exact (.fromRegistry 1 registry {})
        (by decide) rfl rfl rfl (fun _ _ => rfl) (by simp) _ () hresult

end RoundTripExample

end AmmSearch
