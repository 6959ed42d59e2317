/-
The state of a streaming route search: its controls, the progress that it
reports, and the bookkeeping that decides after every quote which events are
emitted and whether the search goes on.  The cache and pruning counters that
the reports also carry are left out.
-/
import AmmSearch.HeuristicSearch

namespace AmmSearch

structure ParallelSearchConfig where
  workers : ℕ
deriving DecidableEq

def ParallelSearchConfig.validate (config : ParallelSearchConfig) :
    Except SearchError Unit :=
  rejectWhen (config.workers == 0) "workers must be at least 1"

/-- When a streaming search is considered complete. -/
inductive StreamingCompletion
  | fastLaneExhausted
  | heuristicExhausted
  | exhaustive
deriving DecidableEq

/-- How several thresholds are combined. -/
inductive StreamingThresholdMode
  | all
  | any
deriving DecidableEq

structure StreamingThresholdPolicy where
  mode : StreamingThresholdMode
  minConfidenceBps : Option ℕ := none
  minExhaustiveFractionBps : Option ℕ := none
deriving DecidableEq

/-- A configured threshold outside `1..=10_000`. -/
def thresholdOutOfRange (threshold : Option ℕ) : Bool :=
  threshold.any fun bps => !(decide (1 ≤ bps) && decide (bps ≤ 10000))

def StreamingThresholdPolicy.validate (policy : StreamingThresholdPolicy) :
    Except SearchError Unit := do
  rejectWhen (policy.minConfidenceBps.isNone && policy.minExhaustiveFractionBps.isNone)
    "streaming threshold policy must configure at least one threshold"
  rejectWhen (thresholdOutOfRange policy.minConfidenceBps)
    "streaming confidence threshold must be between 1 and 10000 bps"
  rejectWhen (thresholdOutOfRange policy.minExhaustiveFractionBps)
    "streaming exhaustive fraction threshold must be between 1 and 10000 bps"

structure StreamingSearchConfig where
  completion : StreamingCompletion := .exhaustive
  parallel : ParallelSearchConfig
  emitAllViable : Bool := false
  topK : ℕ := 1
  stopPolicy : Option StreamingThresholdPolicy := none
  initialResultPolicy : Option StreamingThresholdPolicy := none
deriving DecidableEq

def StreamingSearchConfig.validate (config : StreamingSearchConfig) :
    Except SearchError Unit := do
  config.parallel.validate
  rejectWhen (config.topK == 0) "streaming top_k must be at least 1"
  if let some policy := config.stopPolicy then policy.validate
  if let some policy := config.initialResultPolicy then policy.validate

inductive RouteSearchPhase
  | heuristic
  | exhaustive
deriving DecidableEq

inductive StreamedRouteStatus
  | provisional
  | finalWithinConfiguredSearch
deriving DecidableEq

/-- Why a streaming search stopped. -/
inductive SearchFinality
  | fastLaneOnly
  | heuristicOnly
  | exhaustive
  | stopPolicySatisfied
  | stopped
deriving DecidableEq

/-- The answer of an event callback. -/
inductive SearchControl
  | continue
  | stop
deriving DecidableEq

structure StreamingPhaseStats where
  routesObserved : ℕ
  duplicatePathsSkipped : ℕ
deriving DecidableEq

structure RouteSearchProgress where
  phase : Option RouteSearchPhase
  candidatesEvaluated : ℕ
  viableRoutesObserved : ℕ
  failedCandidates : ℕ
  duplicatePathsSkipped : ℕ
  totalCandidates : Option ℕ
  exhaustiveFractionBps : Option ℕ
  confidenceBps : ℕ
  bestAmountOut : Option U256
deriving DecidableEq

def StreamingThresholdPolicy.isSatisfied (policy : StreamingThresholdPolicy)
    (progress : RouteSearchProgress) : Bool :=
  let confidenceSatisfied := policy.minConfidenceBps.map fun threshold =>
    decide (threshold ≤ progress.confidenceBps)
  let exhaustiveSatisfied := policy.minExhaustiveFractionBps.map fun threshold =>
    progress.exhaustiveFractionBps.any fun fraction => threshold ≤ fraction
  match policy.mode with
  | .all => confidenceSatisfied.getD true && exhaustiveSatisfied.getD true
  | .any => confidenceSatisfied.getD false || exhaustiveSatisfied.getD false

structure StreamingSearchReport where
  best : Option RouteQuote
  topRoutes : List RouteQuote
  heuristicBest : Option RouteQuote
  finality : SearchFinality
  heuristicWasFinalBest : Option Bool
  improvementsAfterHeuristic : ℕ
  routesObserved : ℕ
  duplicatePathsSkipped : ℕ
  progress : RouteSearchProgress
  initialResultsReleased : Bool
deriving DecidableEq

inductive RouteSearchEvent
  | started (completion : StreamingCompletion)
  | routeFound (phase : RouteSearchPhase) (rank : Option ℕ) (quote : RouteQuote)
  | bestUpdated (phase : RouteSearchPhase) (quote : RouteQuote)
      (previousBest : Option RouteQuote) (status : StreamedRouteStatus)
  | progress (progress : RouteSearchProgress)
  | initialResultsReady (progress : RouteSearchProgress) (best : RouteQuote)
      (topRoutes : List RouteQuote)
  | phaseCompleted (phase : RouteSearchPhase) (stats : StreamingPhaseStats)
  | completed (report : StreamingSearchReport)
deriving DecidableEq

/-- The mutable state of a stream; its fixed configuration is a parameter of
the functions below. -/
structure StreamingRouteState where
  best : Option RouteQuote := none
  heuristicBest : Option RouteQuote := none
  topRoutes : List RouteQuote := []
  routesObserved : ℕ := 0
  failedCandidates : ℕ := 0
  duplicatePathsSkipped : ℕ := 0
  improvementsAfterHeuristic : ℕ := 0
  heuristicPhaseCompleted : Bool := false
  progressPhase : Option RouteSearchPhase := none
  totalCandidates : Option ℕ := none
  initialResultsReleased : Bool
  stopFinality : Option SearchFinality := none
deriving DecidableEq

namespace StreamingRouteState

def new (config : StreamingSearchConfig) : StreamingRouteState :=
  { initialResultsReleased := config.initialResultPolicy.isNone }

def candidatesEvaluated (state : StreamingRouteState) : ℕ :=
  state.routesObserved + state.failedCandidates

def confidenceBps (state : StreamingRouteState)
    (exhaustiveFractionBps : Option ℕ) : ℕ :=
  if state.best.isNone then 0
  else if state.totalCandidates.any fun total =>
      0 < total ∧ total ≤ state.candidatesEvaluated then 9999
  else
    match exhaustiveFractionBps with
    | some fraction => min (9000 + fraction / 10) 9999
    | none => if state.heuristicPhaseCompleted then 9000 else 7000

def exhaustiveFractionBps (state : StreamingRouteState) : Option ℕ :=
  state.totalCandidates.map fun total =>
    if total = 0 then 10000
    else
      let capped := min state.candidatesEvaluated total
      min (min (capped * 10000) usizeMax / total) 10000

def progress (state : StreamingRouteState) : RouteSearchProgress where
  phase := state.progressPhase
  candidatesEvaluated := state.candidatesEvaluated
  viableRoutesObserved := state.routesObserved
  failedCandidates := state.failedCandidates
  duplicatePathsSkipped := state.duplicatePathsSkipped
  totalCandidates := state.totalCandidates
  exhaustiveFractionBps := state.exhaustiveFractionBps
  confidenceBps := state.confidenceBps state.exhaustiveFractionBps
  bestAmountOut := state.best.map RouteQuote.amountOut

def finalProgress (state : StreamingRouteState) (finality : SearchFinality) :
    RouteSearchProgress :=
  if finality = .exhaustive then
    { state.progress with
      exhaustiveFractionBps := some 10000
      confidenceBps := if state.best.isSome then 10000 else 0 }
  else state.progress

/-- The finality of a stopped search. -/
def stoppedFinality (state : StreamingRouteState) : SearchFinality :=
  state.stopFinality.getD .stopped

def shouldEmitCompletionForStop (state : StreamingRouteState) : Bool :=
  state.stopFinality == some .stopPolicySatisfied

def phaseStats (state : StreamingRouteState) : StreamingPhaseStats :=
  ⟨state.routesObserved, state.duplicatePathsSkipped⟩

def report (state : StreamingRouteState) (finality : SearchFinality) :
    StreamingSearchReport where
  best := state.best
  topRoutes := state.topRoutes
  heuristicBest := state.heuristicBest
  finality := finality
  heuristicWasFinalBest :=
    if finality = .exhaustive then
      state.best.map fun best => state.heuristicBest == some best
    else none
  improvementsAfterHeuristic := state.improvementsAfterHeuristic
  routesObserved := state.routesObserved
  duplicatePathsSkipped := state.duplicatePathsSkipped
  progress := state.finalProgress finality
  initialResultsReleased := state.initialResultsReleased

/-- Insert a quote into the retained routes and rank it there. -/
def recordTopRoute (config : StreamingSearchConfig) (state : StreamingRouteState)
    (quote : RouteQuote) : StreamingRouteState × Option ℕ :=
  if state.topRoutes.any fun existing => existing.path == quote.path then (state, none)
  else
    let sorted := sortByAmountOut (state.topRoutes ++ [quote])
    let rank := (sorted.findIdx? fun candidate => candidate.path == quote.path).map
      (· + 1)
    ({ state with topRoutes := sorted.take config.topK },
      rank.filter fun rank => rank ≤ config.topK)

def justReleasedInitialResults (state : StreamingRouteState) (releasedBefore : Bool) :
    Bool :=
  !releasedBefore && state.initialResultsReleased

end StreamingRouteState

section Events

/-- An event callback, over the state it updates. -/
abbrev EventCallback (κ : Type) := κ → RouteSearchEvent → κ × SearchControl

variable {κ : Type} (config : StreamingSearchConfig) (onEvent : EventCallback κ)

def emitSearchEvent (callback : κ) (event : RouteSearchEvent) : κ × Bool :=
  ((onEvent callback event).1, (onEvent callback event).2 == .continue)

/-- The search state beside the state of its callback. -/
structure StreamingSession (κ : Type) where
  state : StreamingRouteState
  callback : κ
deriving DecidableEq

namespace StreamingSession

/-- Emit an event; a refusal becomes the finality of the search. -/
def emitOrStop (session : StreamingSession κ) (event : RouteSearchEvent) :
    StreamingSession κ × Bool :=
  let (callback, keep) := emitSearchEvent onEvent session.callback event
  if keep then ({ session with callback := callback }, true)
  else
    (⟨{ session.state with stopFinality := some .stopped }, callback⟩, false)

def releaseInitialResults (session : StreamingSession κ)
    (progress : RouteSearchProgress) : StreamingSession κ × Bool :=
  match session.state.best with
  | none => (session, true)
  | some best =>
      emitOrStop onEvent
        { session with
          state := { session.state with initialResultsReleased := true } }
        (.initialResultsReady progress best session.state.topRoutes)

def releaseInitialResultsAtCompletion (session : StreamingSession κ)
    (finality : SearchFinality) : StreamingSession κ × Bool :=
  if session.state.initialResultsReleased ||
      config.initialResultPolicy.isNone then (session, true)
  else releaseInitialResults onEvent session (session.state.finalProgress finality)

/-- The initial results are due. -/
def releasesInitialResults (state : StreamingRouteState)
    (progress : RouteSearchProgress) : Bool :=
  !state.initialResultsReleased && state.best.isSome &&
    config.initialResultPolicy.any fun policy => policy.isSatisfied progress

/-- The stop policy is satisfied. -/
def stopsByPolicy (state : StreamingRouteState) (progress : RouteSearchProgress) :
    Bool :=
  state.best.isSome &&
    config.stopPolicy.any fun policy => policy.isSatisfied progress

def emitProgressAndApplyPolicies (session : StreamingSession κ)
    (phase : RouteSearchPhase) : StreamingSession κ × Bool :=
  let session :=
    { session with state := { session.state with progressPhase := some phase } }
  let progress := session.state.progress
  let (session, keep) := emitOrStop onEvent session (.progress progress)
  if !keep then (session, false)
  else
    let (session, keep) :=
      if releasesInitialResults config session.state progress then
        releaseInitialResults onEvent session progress
      else (session, true)
    if !keep then (session, false)
    else if stopsByPolicy config session.state progress then
      ({ session with
          state := { session.state with stopFinality := some .stopPolicySatisfied } },
        false)
    else (session, true)

/-- The `RouteFound` event that ends the observation of a quote. -/
def emitRouteFound (session : StreamingSession κ) (phase : RouteSearchPhase)
    (rank : Option ℕ) (quote : RouteQuote) : StreamingSession κ × Bool :=
  if config.emitAllViable || rank.isSome then
    emitOrStop onEvent session (.routeFound phase rank quote)
  else (session, true)

/-- The events that follow the progress event of an observed quote. -/
def emitObserved (session : StreamingSession κ) (phase : RouteSearchPhase)
    (releasedBefore : Bool) (rank : Option ℕ) (quote : RouteQuote)
    (improvement : Option (Option RouteQuote)) : StreamingSession κ × Bool :=
  let (session, keep) := emitProgressAndApplyPolicies config onEvent session phase
  if !keep then (session, false)
  else if !releasedBefore ||
      session.state.justReleasedInitialResults releasedBefore then (session, true)
  else
    match improvement with
    | none => emitRouteFound config onEvent session phase rank quote
    | some previousBest =>
        let (session, keep) := emitOrStop onEvent session
          (.bestUpdated phase quote previousBest .provisional)
        if !keep then (session, false)
        else emitRouteFound config onEvent session phase rank quote

def observeQuote (phase : RouteSearchPhase) (session : StreamingSession κ)
    (quote : RouteQuote) : StreamingSession κ × Bool :=
  let releasedBefore := session.state.initialResultsReleased
  let (state, topRank) := StreamingRouteState.recordTopRoute config
    { session.state with
      progressPhase := some phase
      routesObserved := session.state.routesObserved + 1 } quote
  let improvesBest := state.best.all fun best => best.amountOut < quote.amountOut
  if improvesBest then
    let improvements :=
      if phase = .exhaustive ∧ state.heuristicBest.isSome then
        state.improvementsAfterHeuristic + 1
      else state.improvementsAfterHeuristic
    emitObserved config onEvent
      { session with
        state := { state with
          improvementsAfterHeuristic := improvements
          best := some quote } }
      phase releasedBefore topRank quote (some state.best)
  else
    emitObserved config onEvent { session with state := state } phase releasedBefore topRank
      quote none

def observeFailedCandidates (session : StreamingSession κ) (phase : RouteSearchPhase)
    (count : ℕ) : StreamingSession κ × Bool :=
  if count = 0 then (session, true)
  else
    emitProgressAndApplyPolicies config onEvent
      { session with
        state := { session.state with
          progressPhase := some phase
          failedCandidates := session.state.failedCandidates + count } }
      phase

def finishHeuristicPhase (session : StreamingSession κ) :
    StreamingSession κ × Bool :=
  emitProgressAndApplyPolicies config onEvent
    { session with
      state := { session.state with
        heuristicBest := session.state.best
        heuristicPhaseCompleted := true
        progressPhase := some .heuristic } }
    .heuristic

def setTotalCandidates (session : StreamingSession κ) (totalCandidates : ℕ) :
    StreamingSession κ × Bool :=
  emitProgressAndApplyPolicies config onEvent
    { session with
      state := { session.state with
        totalCandidates := some (max totalCandidates session.state.candidatesEvaluated)
        progressPhase := some .exhaustive } }
    .exhaustive

def markExhaustiveComplete (session : StreamingSession κ) : StreamingSession κ :=
  { session with
    state := { session.state with progressPhase := some .exhaustive } }

def finishStreamReport (session : StreamingSession κ) (finality : SearchFinality)
    (emitCompleted : Bool) : κ × StreamingSearchReport :=
  let (session, released) := releaseInitialResultsAtCompletion config onEvent session finality
  let report := session.state.report (if released then finality else .stopped)
  if emitCompleted then
    ((emitSearchEvent onEvent session.callback (.completed report)).1, report)
  else (session.callback, report)

end StreamingSession

end Events

end AmmSearch
