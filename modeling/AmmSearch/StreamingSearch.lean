/-
Streaming route search: a heuristic phase whose quotes are reported as they are
found, then the exhaustive remainder, which quotes the routes that the
heuristic phase has not reported.
-/
import AmmSearch.StreamingWorkers

open FiniteMap StableGraph

namespace AmmSearch

structure StreamingRunReport where
  report : StreamingSearchReport
  quotes : List RouteQuote
deriving DecidableEq

/-- The mutable locals of a streaming search. -/
structure StreamRun (κ : Type) where
  session : StreamingSession κ
  evaluatedPaths : Finset RoutePath := ∅
  observedQuotes : List RouteQuote := []

namespace StreamRun

variable {κ : Type} (config : StreamingSearchConfig) (onEvent : EventCallback κ)

/-- The quote callback of the heuristic phase. -/
def observeHeuristic (run : StreamRun κ) (quote : RouteQuote) : StreamRun κ × Bool :=
  let observed := run.session.observeQuote config onEvent .heuristic quote
  ({ session := observed.1
     evaluatedPaths := insert quote.path run.evaluatedPaths
     observedQuotes := run.observedQuotes ++ [quote] },
    observed.2)

/-- The quote callback of the exhaustive remainder. -/
def observeExhaustive (run : StreamRun κ) (quote : RouteQuote) : StreamRun κ × Bool :=
  let observed := run.session.observeQuote config onEvent .exhaustive quote
  ({ run with
     session := observed.1
     observedQuotes := run.observedQuotes ++ [quote] },
    observed.2)

/-- Emit an event whose refusal ends the search without a stop finality. -/
def emit (run : StreamRun κ) (event : RouteSearchEvent) : StreamRun κ × Bool :=
  let emitted := emitSearchEvent onEvent run.session.callback event
  ({ run with session := { run.session with callback := emitted.1 } }, emitted.2)

def finish (run : StreamRun κ) (finality : SearchFinality) (emitCompleted : Bool) :
    κ × Except SearchError StreamingRunReport :=
  let finished := run.session.finishStreamReport config onEvent finality emitCompleted
  (finished.1, .ok ⟨finished.2, run.observedQuotes⟩)

/-- The report of a search that a callback or a policy has stopped. -/
def finishStopped (run : StreamRun κ) : κ × Except SearchError StreamingRunReport :=
  run.finish config onEvent run.session.state.stoppedFinality
    run.session.state.shouldEmitCompletionForStop

def fail (run : StreamRun κ) (error : SearchError) :
    κ × Except SearchError StreamingRunReport :=
  (run.session.callback, .error error)

end StreamRun

/-- The heuristic controls of the first phase. -/
def SearchMode.heuristicOrDefault : SearchMode → HeuristicSearchConfig
  | .exhaustive => {}
  | .heuristic config => config

namespace AmmSearcher

variable {G : Type} [StableDiGraph G Address EdgeData] (searcher : AmmSearcher G)
  {κ : Type} (request : RouteRequest) (streaming : StreamingSearchConfig)
  (schedule : List FanIn.Event) (onEvent : EventCallback κ)
  (shouldContinue : Option (ℕ → Bool))

/-- The end of the exhaustive remainder. -/
def completeStream (run : StreamRun κ) (heuristicError : Option SearchError)
    (failures : List PathFailure) : κ × Except SearchError StreamingRunReport :=
  let run := { run with session := run.session.markExhaustiveComplete }
  let (run, keep) := run.emit onEvent
    (.phaseCompleted .exhaustive run.session.state.phaseStats)
  if !keep then run.finish streaming onEvent .stopped false
  else if run.session.state.best.isNone then
    match heuristicError with
    | some error => run.fail error
    | none => run.fail (.noViableRoute failures.length failures)
  else run.finish streaming onEvent .exhaustive true

/-- Quote the routes that the heuristic phase has left. -/
def streamRemainder (run : StreamRun κ) (heuristicError : Option SearchError)
    (paths : List RoutePath) : κ × Except SearchError StreamingRunReport :=
  if paths = [] then completeStream streaming onEvent run heuristicError []
  else
    match quoteAndStreamParallel (searcher.quoteEnv request.simConfig)
        searcher.quoteContext request.amountIn streaming.parallel schedule
        (StreamRun.observeExhaustive streaming onEvent) paths run with
    | .error error => run.fail error
    | .ok report =>
        if report.stopped then report.observed.finishStopped streaming onEvent
        else
          let (session, keep) := report.observed.session.observeFailedCandidates streaming onEvent
            .exhaustive report.failures.length
          let run := { report.observed with session := session }
          if !keep then run.finishStopped streaming onEvent
          else completeStream streaming onEvent run heuristicError report.failures

/-- The second phase: enumerate and quote what is left. -/
def streamExhaustive (run : StreamRun κ) (heuristicError : Option SearchError) :
    κ × Except SearchError StreamingRunReport :=
  let remainingBudget := request.config.maxCandidates.map fun maxCandidates =>
    maxCandidates - run.session.state.candidatesEvaluated
  match searcher.graph.enumerateRoutesFiltered request.tokenIn request.tokenOut
      { request.config with mode := .exhaustive } false run.evaluatedPaths
      remainingBudget (shouldContinue.map fun poll count => poll (count + 1)) with
  | .error error =>
      if run.session.state.best.isNone then run.fail (heuristicError.getD error)
      else run.finish streaming onEvent .exhaustive true
  | .ok enumeration =>
      let run : StreamRun κ :=
        { run with
          session := { run.session with
            state := { run.session.state with
              duplicatePathsSkipped := min usizeMax
                (run.session.state.duplicatePathsSkipped +
                  enumeration.duplicatesSkipped) } } }
      if enumeration.stopped then run.finish streaming onEvent .stopped false
      else
        let (session, keep) := run.session.setTotalCandidates streaming onEvent (min usizeMax
          (run.session.state.candidatesEvaluated + enumeration.paths.length))
        let run := { run with session := session }
        if !keep then run.finishStopped streaming onEvent
        else searcher.streamRemainder request streaming schedule onEvent run
          heuristicError enumeration.paths

/-- The boundary between the phases. -/
def finishHeuristic (run : StreamRun κ) (stopped : Bool)
    (heuristicError : Option SearchError) :
    κ × Except SearchError StreamingRunReport :=
  let (session, keep) :=
    if stopped then (run.session, false) else run.session.finishHeuristicPhase streaming onEvent
  let run := { run with session := session }
  if !keep || shouldContinue.any fun poll => !poll 0 then run.finishStopped streaming onEvent
  else
    let (run, keep) := run.emit onEvent
      (.phaseCompleted .heuristic run.session.state.phaseStats)
    if !keep then run.finish streaming onEvent .stopped false
    else
      match streaming.completion with
      | .exhaustive =>
          searcher.streamExhaustive request streaming schedule onEvent shouldContinue run
            heuristicError
      | .fastLaneExhausted | .heuristicExhausted =>
          match run.session.state.best, heuristicError with
          | none, some error => run.fail error
          | _, _ =>
              run.finish streaming onEvent
                (if streaming.completion = .fastLaneExhausted then .fastLaneOnly
                else .heuristicOnly) true

/-- The first phase. -/
def streamHeuristic (run : StreamRun κ) :
    κ × Except SearchError StreamingRunReport :=
  let heuristic := request.config.mode.heuristicOrDefault
  let (run, result) := searcher.findRoutesHeuristicWithCacheObserved
    (StreamRun.observeHeuristic streaming onEvent) request.tokenIn request.tokenOut
    request.amountIn { request.config with mode := .heuristic heuristic } heuristic
    request.simConfig false
    (if streaming.completion = .fastLaneExhausted then .fastLaneOnly else .full) run
  match result with
  | .ok report =>
      let (session, keep) := run.session.observeFailedCandidates streaming onEvent .heuristic
        report.failedCandidates
      searcher.finishHeuristic request streaming schedule onEvent shouldContinue
        { run with
          session := session
          evaluatedPaths := run.evaluatedPaths ∪
            (report.quotes.map RouteQuote.path).toFinset }
        (!keep || report.stopped) none
  | .error (.invalidConfig reason) => run.fail (.invalidConfig reason)
  | .error (.tokenNotFound token) => run.fail (.tokenNotFound token)
  | .error error =>
      searcher.finishHeuristic request streaming schedule onEvent shouldContinue run
        false (some error)

/-- Stream routes under an event callback and a cancellation callback.  The
`schedule` interleaves the workers of the exhaustive remainder. -/
def streamRoutesParallelWithCache (callback : κ) :
    κ × Except SearchError StreamingRunReport :=
  match streaming.validate, request.config.validate with
  | .error error, _ => (callback, .error error)
  | .ok (), .error error => (callback, .error error)
  | .ok (), .ok () =>
      let run : StreamRun κ := { session := ⟨.new streaming, callback⟩ }
      let (run, keep) := run.emit onEvent (.started streaming.completion)
      if !keep then
        (run.session.callback,
          .ok ⟨run.session.state.report .stopped, run.observedQuotes⟩)
      else
        searcher.streamHeuristic request streaming schedule onEvent shouldContinue run

/-- Stream routes without a cancellation callback. -/
def streamRoutesParallel (callback : κ) : κ × Except SearchError StreamingSearchReport :=
  let result := searcher.streamRoutesParallelWithCache request streaming schedule onEvent
    none callback
  (result.1, result.2.map StreamingRunReport.report)

end AmmSearcher

end AmmSearch
