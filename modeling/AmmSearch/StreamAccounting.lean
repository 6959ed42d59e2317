/-
The counts of a stream that is exhausted.  Every viable route of the universe is counted
once; a failed candidate of the heuristic phase is counted again in the remainder.
-/
import AmmSearch.HeuristicAttempts
import AmmSearch.StreamingSteps

open FiniteMap StableGraph

namespace AmmSearch

/-- The counts of a stream that only its callback or its stop policy can have stopped. -/
structure StreamingRouteState.Tallied (viable failed : ℕ) (total : Option ℕ)
    (state : StreamingRouteState) : Prop where
  routesObserved : state.routesObserved = viable
  failedCandidates : state.failedCandidates = failed
  totalCandidates : state.totalCandidates = total
  stoppable : state.Stoppable
  unobserved : viable = 0 → state.best = none

/-- The counts of a report. -/
structure StreamingRunReport.Tallied (viable failed : ℕ) (total : Option ℕ)
    (result : StreamingRunReport) : Prop where
  viableRoutesObserved : result.report.progress.viableRoutesObserved = viable
  failedCandidates : result.report.progress.failedCandidates = failed
  candidatesEvaluated : result.report.progress.candidatesEvaluated = viable + failed
  totalCandidates : result.report.progress.totalCandidates = total

namespace StreamingRouteState

variable {viable failed : ℕ} {total : Option ℕ} {state after : StreamingRouteState}

theorem Tallied.emits (hstate : state.Tallied viable failed total)
    (hemits : state.Emits after) : after.Tallied viable failed total where
  routesObserved := hemits.routesObserved.trans hstate.routesObserved
  failedCandidates := hemits.failedCandidates.trans hstate.failedCandidates
  totalCandidates := hemits.totalCandidates.trans hstate.totalCandidates
  stoppable := hemits.stoppable hstate.stoppable
  unobserved := fun hviable => hemits.best.trans (hstate.unobserved hviable)

end StreamingRouteState

section Sessions

variable {κ : Type} {onEvent : EventCallback κ} {streaming : StreamingSearchConfig}
  {viable failed : ℕ} {total : Option ℕ}

namespace StreamingSession

variable {session : StreamingSession κ}

theorem tallied_observeQuote (hsession : session.state.Tallied viable failed total)
    (phase : RouteSearchPhase) (quote : RouteQuote) :
    (session.observeQuote streaming onEvent phase quote).1.state.Tallied (viable + 1) failed
      total := by
  obtain ⟨_, _, hfailed, _, htotal, hstop, _⟩ :=
    @recordTopRoute_counts streaming session.state quote
  have hranked : (rankQuote streaming phase session.state quote).Tallied (viable + 1) failed
      total := by
    refine ⟨?_, hfailed.trans hsession.failedCandidates,
      htotal.trans hsession.totalCandidates, ?_, nofun⟩
    · exact congrArg Nat.succ hsession.routesObserved
    · have hsame : (rankQuote streaming phase session.state quote).stopFinality =
          session.state.stopFinality := hstop
      unfold StreamingRouteState.Stoppable
      rw [hsame]
      exact hsession.stoppable
  exact hranked.emits (observeQuote_emits session phase quote)

theorem tallied_observeFailedCandidates (hsession : session.state.Tallied viable failed total)
    (phase : RouteSearchPhase) (count : ℕ) :
    (session.observeFailedCandidates streaming onEvent phase count).1.state.Tallied viable
      (failed + count) total := by
  have hcounted : (countFailures phase count session.state).Tallied viable (failed + count)
      total :=
    ⟨hsession.routesObserved, congrArg (· + count) hsession.failedCandidates,
      hsession.totalCandidates, hsession.stoppable, hsession.unobserved⟩
  exact hcounted.emits (observeFailedCandidates_emits _ _ _)

theorem tallied_finishHeuristicPhase (hsession : session.state.Tallied viable failed total) :
    (session.finishHeuristicPhase streaming onEvent).1.state.Tallied viable failed total := by
  have hdone : (completeHeuristic session.state).Tallied viable failed total :=
    ⟨hsession.routesObserved, hsession.failedCandidates, hsession.totalCandidates,
      hsession.stoppable, hsession.unobserved⟩
  exact hdone.emits (finishHeuristicPhase_emits _)

theorem tallied_setTotalCandidates (hsession : session.state.Tallied viable failed total)
    (count : ℕ) :
    (session.setTotalCandidates streaming onEvent count).1.state.Tallied viable failed
      (some (max count (viable + failed))) := by
  have hfixed : (fixTotal count session.state).Tallied viable failed
      (some (max count (viable + failed))) := by
    refine ⟨hsession.routesObserved, hsession.failedCandidates, ?_, hsession.stoppable,
      hsession.unobserved⟩
    change some (max count (session.state.routesObserved + session.state.failedCandidates)) = _
    rw [hsession.routesObserved, hsession.failedCandidates]
  exact hfixed.emits (setTotalCandidates_emits _ _)

end StreamingSession

namespace StreamRun

variable {run : StreamRun κ}

/-- Observing quotes counts them as viable. -/
theorem tallied_reportAll {onQuote : StreamRun κ → RouteQuote → StreamRun κ × Bool}
    {phase : RouteSearchPhase}
    (hobserves : ∀ run quote, (onQuote run quote).1.session =
      (run.session.observeQuote streaming onEvent phase quote).1)
    (log : List RouteQuote) (hrun : run.session.state.Tallied viable failed total) :
    (reportAll onQuote run log).session.state.Tallied (viable + log.length) failed total := by
  induction log generalizing run viable with
  | nil => exact hrun
  | cons quote rest ih =>
      have hnext : (onQuote run quote).1.session.state.Tallied (viable + 1) failed total := by
        rw [hobserves]
        exact StreamingSession.tallied_observeQuote hrun phase quote
      have hrest := ih hnext
      rw [List.length_cons, Nat.add_comm rest.length 1, ← Nat.add_assoc]
      exact hrest

/-- A report has the finality that its run ends with, or that of a refused release. -/
theorem finality_finish {finality : SearchFinality} {emitCompleted : Bool}
    {result : StreamingRunReport}
    (hresult : (run.finish streaming onEvent finality emitCompleted).2 = .ok result) :
    result.report.finality = finality ∨ result.report.finality = .stopped := by
  obtain rfl := Except.ok.inj hresult
  generalize hreleased : StreamingSession.releaseInitialResultsAtCompletion streaming onEvent
    run.session finality = released
  simp only [StreamingSession.finishStreamReport, hreleased]
  cases emitCompleted with
  | false =>
      cases released.2 with
      | false => exact Or.inr rfl
      | true => exact Or.inl rfl
  | true =>
      cases released.2 with
      | false => exact Or.inr rfl
      | true => exact Or.inl rfl

/-- The report of a run has its counts. -/
theorem finish_tallied (hrun : run.session.state.Tallied viable failed total)
    {finality : SearchFinality} {emitCompleted : Bool} {result : StreamingRunReport}
    (hresult : (run.finish streaming onEvent finality emitCompleted).2 = .ok result) :
    result.Tallied viable failed total := by
  have hreleased : (run.session.releaseInitialResultsAtCompletion streaming onEvent
      finality).1.state.Tallied viable failed total := by
    unfold StreamingSession.releaseInitialResultsAtCompletion
    split
    · exact hrun
    · exact hrun.emits (StreamingSession.releaseInitialResults_emits _ _)
  have hprogress : ∃ finality', result.report.progress =
      (run.session.releaseInitialResultsAtCompletion streaming onEvent
        finality).1.state.finalProgress finality' := by
    obtain rfl := Except.ok.inj hresult
    cases emitCompleted with
    | false => exact ⟨_, rfl⟩
    | true => exact ⟨_, rfl⟩
  generalize StreamingSession.releaseInitialResultsAtCompletion streaming onEvent run.session
    finality = released at hreleased hprogress
  obtain ⟨finality', hprogress⟩ := hprogress
  obtain ⟨hviable, hfailed, htotal, _⟩ := hreleased
  have hsame : ∀ state : StreamingRouteState,
      (state.finalProgress finality').viableRoutesObserved = state.routesObserved ∧
      (state.finalProgress finality').failedCandidates = state.failedCandidates ∧
      (state.finalProgress finality').candidatesEvaluated =
        state.routesObserved + state.failedCandidates ∧
      (state.finalProgress finality').totalCandidates = state.totalCandidates := by
    intro state
    unfold StreamingRouteState.finalProgress
    split
    · exact ⟨rfl, rfl, rfl, rfl⟩
    · exact ⟨rfl, rfl, rfl, rfl⟩
  obtain ⟨hfirst, hsecond, hthird, hfourth⟩ := hsame released.1.state
  rw [← hprogress] at hfirst hsecond hthird hfourth
  constructor
  · exact hfirst.trans hviable
  · exact hsecond.trans hfailed
  · rw [hthird, hviable, hfailed]
  · exact hfourth.trans htotal

/-- A stopped stream is not exhausted. -/
theorem finish_ne_exhaustive {finality : SearchFinality} (hfinality : finality ≠ .exhaustive)
    {emitCompleted : Bool} {result : StreamingRunReport}
    (hresult : (run.finish streaming onEvent finality emitCompleted).2 = .ok result) :
    result.report.finality ≠ .exhaustive := by
  rcases finality_finish hresult with hsame | hstopped
  · rw [hsame]
    exact hfinality
  · rw [hstopped]
    decide

theorem finishStopped_ne_exhaustive (hrun : run.session.state.Stoppable)
    {result : StreamingRunReport}
    (hresult : (run.finishStopped streaming onEvent).2 = .ok result) :
    result.report.finality ≠ .exhaustive := by
  apply finish_ne_exhaustive _ hresult
  rcases hrun.finality with hstopped | hpolicy
  · rw [hstopped]
    decide
  · rw [hpolicy]
    decide

theorem watches_stoppable :
    FanIn.Watches (observeExhaustive streaming onEvent) (fun _ => True)
      (fun run => run.session.state.Stoppable) fun run => run.session.state.Stoppable :=
  ⟨fun run quote _ hrun _ => stoppable_observeQuote run.session hrun _ quote,
    fun run quote _ hrun _ => stoppable_observeQuote run.session hrun _ quote⟩

end StreamRun

end Sessions

/-- A route that does not come back to its first token leads to another one. -/
theorem AmmGraph.IsRoute.tokens_ne {G : Type} [StableDiGraph G Address EdgeData]
    {g : AmmGraph G} {config : SearchConfig}
    {tokenIn tokenOut : Address} {path : RoutePath} (hpositive : 1 ≤ config.minHops)
    (hroute : g.IsRoute config tokenIn tokenOut false path) : tokenIn ≠ tokenOut := by
  have hmin := hpositive.trans hroute.minHops
  rcases List.eq_nil_or_concat path with rfl | ⟨front, last, rfl⟩
  · exact absurd hmin (by decide)
  · rw [List.concat_eq_append] at hroute
    have hlast := (connects_append_singleton.mp hroute.connects).2
    have htokens := hroute.tokens
    rw [if_neg (fun hrevisit => Bool.false_ne_true hrevisit.1), List.nodup_cons] at htokens
    intro hsame
    apply htokens.1
    rw [hsame, ← hlast, List.map_append]
    exact List.mem_append_right _ List.mem_cons_self

namespace AmmSearcher

variable {G : Type} [StableDiGraph G Address EdgeData] {searcher : AmmSearcher G}
  {κ : Type} {onEvent : EventCallback κ} {request : RouteRequest}
  {streaming : StreamingSearchConfig} {shouldContinue : Option (ℕ → Bool)}
  {viable failed : ℕ} {total : Option ℕ} {run : StreamRun κ}
  {heuristicError : Option SearchError} {result : StreamingRunReport}

/-- The failures of quoting the paths. -/
def pathFailures (searcher : AmmSearcher G) (request : RouteRequest)
    (paths : List RoutePath) : List PathFailure :=
  failedOutcomes (paths.map (searcher.quoteOutcome request))

section Phases

omit [StableDiGraph G Address EdgeData] in
theorem completeStream_tallied (hrun : run.session.state.Tallied viable failed total)
    (failures : List PathFailure)
    (hresult : (completeStream streaming onEvent run heuristicError failures).2 = .ok result)
    (hfinality : result.report.finality = .exhaustive) :
    result.Tallied viable failed total := by
  have hmarked : run.session.markExhaustiveComplete.state.Tallied viable failed total :=
    ⟨hrun.routesObserved, hrun.failedCandidates, hrun.totalCandidates, hrun.stoppable,
      hrun.unobserved⟩
  unfold completeStream at hresult
  simp only at hresult
  have hemitted : (StreamRun.emit onEvent
      { run with session := run.session.markExhaustiveComplete }
      (.phaseCompleted .exhaustive ({ run with
        session := run.session.markExhaustiveComplete } :
          StreamRun κ).session.state.phaseStats)).1.session.state.Tallied viable failed
        total := hmarked
  generalize StreamRun.emit onEvent _ _ = emitted at hresult hemitted
  obtain ⟨next, keep⟩ := emitted
  simp only at hresult hemitted
  split at hresult
  · exact absurd hfinality (StreamRun.finish_ne_exhaustive (by decide) hresult)
  · split at hresult
    · split at hresult
      · cases hresult
      · cases hresult
    · exact StreamRun.finish_tallied hemitted hresult

omit [StableDiGraph G Address EdgeData] in
theorem streamRemainder_tallied (hparallel : streaming.parallel.validate = .ok ())
    (schedule : List FanIn.Event) (hrun : run.session.state.Tallied viable failed total)
    (paths : List RoutePath)
    (hresult : (searcher.streamRemainder request streaming schedule onEvent run
      heuristicError paths).2 = .ok result)
    (hfinality : result.report.finality = .exhaustive) :
    result.Tallied (viable + (searcher.pathQuotes request paths).length)
      (failed + (searcher.pathFailures request paths).length) total := by
  unfold streamRemainder at hresult
  split at hresult
  · rename_i hempty
    subst hempty
    exact completeStream_tallied hrun [] hresult hfinality
  · obtain ⟨report, hreport, hsettles⟩ := @quoteAndStreamParallel_settles
      (searcher.quoteEnv request.simConfig) searcher.quoteContext request.amountIn _ _
      hparallel schedule (StreamRun.observeExhaustive streaming onEvent) paths run
    have hwatched := @quoteAndStreamParallel_watched _ _ _ _ _
      (searcher.quoteEnv request.simConfig) searcher.quoteContext request.amountIn
      (@StreamRun.watches_stoppable κ onEvent streaming) (fun _ _ _ => trivial) _ hparallel
      schedule paths run hrun.stoppable
    obtain ⟨other, hother, hstoppable⟩ := hwatched
    obtain rfl : other = report := Except.ok.inj (hother.symm.trans hreport)
    have hstoppable : other.observed.session.state.Stoppable := by
      rcases hstoppable with ⟨_, hstoppable⟩ | ⟨_, hstoppable⟩
      · exact hstoppable
      · exact hstoppable
    simp only [hreport] at hresult
    split at hresult
    · exact absurd hfinality
        (StreamRun.finishStopped_ne_exhaustive hstoppable hresult)
    · rename_i hrunning
      rcases hsettles with hstopped | ⟨log, hlog, hobserved, hfailures⟩
      · exact absurd hstopped hrunning
      · have hobserved : other.observed.session.state.Tallied (viable + log.length) failed
            total := by
          rw [hobserved]
          exact StreamRun.tallied_reportAll (fun _ _ => rfl) log hrun
        have hfailed := @StreamingSession.tallied_observeFailedCandidates κ onEvent streaming _
          _ _ _ hobserved .exhaustive other.failures.length
        rw [hlog.length_eq, hfailures] at hfailed
        rw [show (searcher.pathQuotes request paths).length = (quotedOutcomes (paths.map
          ((searcher.quoteEnv request.simConfig).pathOutcome searcher.quoteContext
            request.amountIn))).length from rfl,
          show (searcher.pathFailures request paths).length = (failedOutcomes (paths.map
          ((searcher.quoteEnv request.simConfig).pathOutcome searcher.quoteContext
            request.amountIn))).length from rfl]
        rw [hfailures] at hresult
        generalize StreamingSession.observeFailedCandidates streaming onEvent _ _ _ = counted
          at hresult hfailed
        obtain ⟨session, keep⟩ := counted
        simp only at hresult hfailed
        split at hresult
        · exact absurd hfinality (StreamRun.finishStopped_ne_exhaustive hfailed.stoppable hresult)
        · exact completeStream_tallied hfailed _ hresult hfinality

section Universe

variable (hparallel : streaming.parallel.validate = .ok ())
  (hlimit : request.config.maxCandidates = none)
  (hvalid : request.config.validate = .ok ()) {source target : NodeIndex}
  (hsource : searcher.graph.nodeIndex request.tokenIn = some source)
  (htarget : searcher.graph.nodeIndex request.tokenOut = some target)

include hparallel hlimit hvalid hsource htarget

omit [StableDiGraph G Address EdgeData] in
/-- The exhaustive phase counts the routes that were not evaluated before. -/
theorem streamExhaustive_tallied (schedule : List FanIn.Event)
    (hrun : run.session.state.Tallied viable failed none)
    (hresult : (searcher.streamExhaustive request streaming schedule onEvent shouldContinue
      run heuristicError).2 = .ok result)
    (hfinality : result.report.finality = .exhaustive) :
    let routes := searcher.graph.requestRoutes source target request.tokenIn
      request.tokenOut request.config false
    let rest := routes.filter (· ∉ run.evaluatedPaths)
    (routes = [] ∧ viable ≠ 0 ∧ result.Tallied viable failed none) ∨
      (routes ≠ [] ∧ result.Tallied (viable + (searcher.pathQuotes request rest).length)
        (failed + (searcher.pathFailures request rest).length)
        (some (max (min usizeMax (viable + failed + rest.length)) (viable + failed)))) := by
  intro routes rest
  have hvalid' : ({ request.config with mode := .exhaustive } : SearchConfig).validate =
      .ok () := SearchConfig.validate_exhaustive hvalid
  have henumerate := AmmGraph.enumerateRoutesFiltered_full hvalid' hsource htarget false
    run.evaluatedPaths
  have hbudget : (request.config.maxCandidates.map fun maxCandidates =>
      maxCandidates - run.session.state.candidatesEvaluated) = none := by
    rw [hlimit, Option.map_none]
  have hroutes : searcher.graph.requestRoutes source target request.tokenIn
      request.tokenOut { request.config with mode := .exhaustive } false = routes := rfl
  have hskipped : ∀ duplicates, ({ run.session with state := { run.session.state with
      duplicatePathsSkipped := duplicates } } : StreamingSession κ).state.Tallied viable failed
        none :=
    fun _ => ⟨hrun.routesObserved, hrun.failedCandidates, hrun.totalCandidates,
      hrun.stoppable, hrun.unobserved⟩
  rw [hroutes] at henumerate
  simp only [streamExhaustive] at hresult
  rw [hbudget] at hresult
  rcases searcher.graph.enumerateRoutesFiltered_cases request.tokenIn request.tokenOut
    { request.config with mode := .exhaustive } false run.evaluatedPaths none
    (shouldContinue.map fun poll count => poll (count + 1)) with
    ⟨enumeration, hcut, hstopped⟩ | hsame
  · -- a cancelled enumeration stops the stream
    rw [hcut] at hresult
    simp only [hstopped, if_true] at hresult
    exact absurd hfinality (StreamRun.finish_ne_exhaustive (by decide) hresult)
  · rw [hsame, henumerate] at hresult
    by_cases hempty : routes = []
    · left
      rw [if_pos hempty] at hresult
      simp only at hresult
      split at hresult
      · cases hresult
      · rename_i hsome
        refine ⟨hempty, ?_, StreamRun.finish_tallied hrun hresult⟩
        intro hviable
        apply hsome
        rw [hrun.unobserved hviable]
        rfl
    · right
      rw [if_neg hempty] at hresult
      simp only [Bool.false_eq_true, if_false] at hresult
      have hcount : run.session.state.candidatesEvaluated = viable + failed :=
        congrArg₂ (· + ·) hrun.routesObserved hrun.failedCandidates
      have htotal := @StreamingSession.tallied_setTotalCandidates κ onEvent streaming _ _ _ _
        (hskipped (min usizeMax (run.session.state.duplicatePathsSkipped +
          (routes.filter (· ∈ run.evaluatedPaths)).length)))
        (min usizeMax (viable + failed + rest.length))
      have hevaluated : ∀ duplicates : ℕ, ({ run.session with
          state := { run.session.state with duplicatePathsSkipped := duplicates } } :
            StreamingSession κ).state.candidatesEvaluated = viable + failed :=
        fun _ => hcount
      rw [hevaluated] at hresult
      generalize StreamingSession.setTotalCandidates streaming onEvent _ _ = totalled
        at hresult htotal
      obtain ⟨session, keep⟩ := totalled
      simp only at hresult htotal
      refine ⟨hempty, ?_⟩
      split at hresult
      · exact absurd hfinality
          (StreamRun.finishStopped_ne_exhaustive htotal.stoppable hresult)
      · exact @streamRemainder_tallied G searcher κ onEvent request streaming _ _ _
          { run with session := session } _ _ hparallel schedule htotal _ hresult hfinality

omit [StableDiGraph G Address EdgeData] in
theorem finishHeuristic_tallied (schedule : List FanIn.Event)
    (hrun : run.session.state.Tallied viable failed none) {stopped : Bool}
    (hresult : (searcher.finishHeuristic request streaming schedule onEvent shouldContinue
      run stopped heuristicError).2 = .ok result)
    (hfinality : result.report.finality = .exhaustive) :
    let routes := searcher.graph.requestRoutes source target request.tokenIn
      request.tokenOut request.config false
    let rest := routes.filter (· ∉ run.evaluatedPaths)
    stopped = false ∧ streaming.completion = .exhaustive ∧
    ((routes = [] ∧ viable ≠ 0 ∧ result.Tallied viable failed none) ∨
      (routes ≠ [] ∧ result.Tallied (viable + (searcher.pathQuotes request rest).length)
        (failed + (searcher.pathFailures request rest).length)
        (some (max (min usizeMax (viable + failed + rest.length)) (viable + failed))))) := by
  intro routes rest
  unfold finishHeuristic at hresult
  have hfinished : (if stopped then (run.session, false) else
      run.session.finishHeuristicPhase streaming onEvent).1.state.Tallied viable failed
        none := by
    split
    · exact hrun
    · exact StreamingSession.tallied_finishHeuristicPhase hrun
  have hkeep : (if stopped then (run.session, false) else
      run.session.finishHeuristicPhase streaming onEvent).2 = true → stopped = false := by
    intro hkeep
    cases stopped with
    | false => rfl
    | true => cases hkeep
  generalize (if stopped then (run.session, false) else
    run.session.finishHeuristicPhase streaming onEvent) = finished
    at hresult hfinished hkeep
  obtain ⟨session, keep⟩ := finished
  simp only at hresult hfinished hkeep
  split at hresult
  · exact absurd hfinality
      (StreamRun.finishStopped_ne_exhaustive hfinished.stoppable hresult)
  · rename_i hgoes
    have hkept : keep = true := by
      cases keep with
      | true => rfl
      | false => exact absurd rfl hgoes
    have hemitted : (StreamRun.emit onEvent { run with session := session }
        (.phaseCompleted .heuristic session.state.phaseStats)).1.session.state.Tallied viable
          failed none := hfinished
    have hpaths : (StreamRun.emit onEvent { run with session := session }
        (.phaseCompleted .heuristic session.state.phaseStats)).1.evaluatedPaths =
          run.evaluatedPaths := rfl
    generalize StreamRun.emit onEvent _ _ = emitted at hresult hemitted hpaths
    obtain ⟨next, announced⟩ := emitted
    simp only at hresult hemitted hpaths
    split at hresult
    · exact absurd hfinality (StreamRun.finish_ne_exhaustive (by decide) hresult)
    · cases hcompletion : streaming.completion with
      | exhaustive =>
          rw [hcompletion] at hresult
          refine ⟨hkeep hkept, rfl, ?_⟩
          have hexhaustive := @streamExhaustive_tallied G searcher κ onEvent request
            streaming shouldContinue viable failed next heuristicError result hparallel hlimit
            hvalid source target hsource htarget schedule hemitted hresult hfinality
          rw [hpaths] at hexhaustive
          exact hexhaustive
      | fastLaneExhausted =>
          rw [hcompletion] at hresult
          simp only at hresult
          split at hresult
          · cases hresult
          · exact absurd hfinality (StreamRun.finish_ne_exhaustive (by decide) hresult)
      | heuristicExhausted =>
          rw [hcompletion] at hresult
          simp only at hresult
          split at hresult
          · cases hresult
          · exact absurd hfinality (StreamRun.finish_ne_exhaustive (by decide) hresult)

end Universe

end Phases

section Counts

/-- Whether the path can be quoted. -/
def quotesPath (searcher : AmmSearcher G) (request : RouteRequest) (path : RoutePath) : Bool :=
  (searcher.quoteOutcome request path).isLeft

omit [StableDiGraph G Address EdgeData] in
theorem length_pathQuotes (paths : List RoutePath) :
    (searcher.pathQuotes request paths).length = paths.countP (searcher.quotesPath request) := by
  induction paths with
  | nil => rfl
  | cons path rest ih =>
      unfold pathQuotes at ih ⊢
      rw [List.map_cons, List.countP_cons, ← ih]
      unfold quotesPath
      cases searcher.quoteOutcome request path with
      | inl quote => simp
      | inr failure => simp

omit [StableDiGraph G Address EdgeData] in
theorem length_pathFailures (paths : List RoutePath) :
    (searcher.pathFailures request paths).length =
      paths.countP fun path => !searcher.quotesPath request path := by
  induction paths with
  | nil => rfl
  | cons path rest ih =>
      unfold pathFailures at ih ⊢
      rw [List.map_cons, List.countP_cons, ← ih]
      unfold quotesPath
      cases searcher.quoteOutcome request path with
      | inl quote => simp
      | inr failure => simp

omit [StableDiGraph G Address EdgeData] in
/-- Quotes of some of the routes and the outcomes of the others count all of them. -/
theorem countP_routes {routes : List RoutePath} (hnodup : routes.Nodup)
    {log : List RouteQuote} (hlog : (log.map RouteQuote.path).Nodup)
    (hroutes : ∀ quote ∈ log, quote.path ∈ routes)
    (houtcome : ∀ quote ∈ log, searcher.quoteOutcome request quote.path = .inl quote)
    {evaluated : Finset RoutePath}
    (hevaluated : ∀ path, path ∈ evaluated ↔ path ∈ log.map RouteQuote.path) :
    let rest := routes.filter (· ∉ evaluated)
    log.length + rest.length = routes.length ∧
      log.length + (searcher.pathQuotes request rest).length =
        routes.countP (searcher.quotesPath request) ∧
      (searcher.pathFailures request rest).length =
        routes.countP fun path => !searcher.quotesPath request path := by
  intro rest
  have hseen : (routes.filter (· ∈ evaluated)).Perm (log.map RouteQuote.path) := by
    apply (List.perm_ext_iff_of_nodup (hnodup.filter _) hlog).mpr
    intro path
    rw [List.mem_filter, decide_eq_true_eq, hevaluated]
    constructor
    · exact And.right
    · intro hpath
      obtain ⟨quote, hquote, rfl⟩ := List.mem_map.mp hpath
      exact ⟨hroutes quote hquote, hpath⟩
  have hrest : rest = routes.filter fun path => !decide (path ∈ evaluated) := by
    apply List.filter_congr
    intro path _
    rw [decide_not]
  have hsplit : (log.map RouteQuote.path ++ rest).Perm routes := by
    rw [hrest]
    exact (hseen.symm.append_right _).trans
      (List.filter_append_perm (fun path => decide (path ∈ evaluated)) routes)
  have hquoted : ∀ path ∈ log.map RouteQuote.path, searcher.quotesPath request path = true := by
    intro path hpath
    obtain ⟨quote, hquote, rfl⟩ := List.mem_map.mp hpath
    unfold quotesPath
    rw [houtcome quote hquote]
    rfl
  have hall : (log.map RouteQuote.path).countP (searcher.quotesPath request) = log.length := by
    rw [List.countP_eq_length.mpr hquoted, List.length_map]
  have hnone : (log.map RouteQuote.path).countP
      (fun path => !searcher.quotesPath request path) = 0 := by
    apply List.countP_eq_zero.mpr
    intro path hpath
    rw [hquoted path hpath]
    decide
  refine ⟨?_, ?_, ?_⟩
  · rw [← hsplit.length_eq, List.length_append, List.length_map]
  · rw [← hsplit.countP_eq, List.countP_append, hall, length_pathQuotes]
  · rw [← hsplit.countP_eq, List.countP_append, hnone, Nat.zero_add, length_pathFailures]

end Counts

section Heuristic

/-- The candidates that the heuristic search of the request tries to quote. -/
def heuristicTries (searcher : AmmSearcher G) (request : RouteRequest) : List RoutePath :=
  match searcher.graph.nodeIndex request.tokenIn,
    searcher.graph.nodeIndex request.tokenOut with
  | some source, some target =>
      searcher.searchTries (searcher.requestContext (heuristicRequest request)
        request.config.mode.heuristicOrDefault source target)
  | _, _ => []

/-- The failures that the heuristic search of the request reports when nobody stops it. -/
def heuristicFailures (searcher : AmmSearcher G) (request : RouteRequest) : ℕ :=
  reportedFailures (searcher.observedSearch (heuristicRequest request)
    request.config.mode.heuristicOrDefault silent .full ()).2

omit [StableDiGraph G Address EdgeData] in
/-- Observing heuristic quotes keeps a run without failures. -/
theorem watches_tallied : FanIn.Watches (StreamRun.observeHeuristic streaming onEvent)
    (fun _ => True) (fun run => ∃ viable, run.session.state.Tallied viable 0 none)
    fun run => ∃ viable, run.session.state.Tallied viable 0 none := by
  have hobserves : ∀ run quote, (∃ viable, run.session.state.Tallied viable 0 none) →
      ∃ viable, (StreamRun.observeHeuristic streaming onEvent run
        quote).1.session.state.Tallied viable 0 none := by
    rintro run quote ⟨viable, hrun⟩
    exact ⟨_, StreamingSession.tallied_observeQuote hrun .heuristic quote⟩
  exact ⟨fun run quote _ hrun _ => hobserves run quote hrun,
    fun run quote _ hrun _ => hobserves run quote hrun⟩

variable (hvalid : request.config.validate = .ok ()) {source target : NodeIndex}
  (hsource : searcher.graph.nodeIndex request.tokenIn = some source)
  (htarget : searcher.graph.nodeIndex request.tokenOut = some target)

include hvalid hsource htarget

/-- The heuristic phase of a stream that goes on reports what a silent search reports. -/
theorem heuristicPhase_silent (run : StreamRun κ) :
    let result := searcher.observedSearch (heuristicRequest request)
      request.config.mode.heuristicOrDefault (StreamRun.observeHeuristic streaming onEvent)
      .full run
    result.2 = (searcher.observedSearch (heuristicRequest request)
        request.config.mode.heuristicOrDefault silent .full ()).2 ∨
      ∃ report, result.2 = .ok report ∧ report.stopped = true := by
  intro result
  have hvalid' := validate_heuristicRequest hvalid
  have hfinalists := HeuristicSearchConfig.maxFinalists_of_validate
    (SearchConfig.heuristic_of_validate rfl hvalid')
  have heq : result = _ := observedSearch_eq hvalid' hsource htarget
    (StreamRun.observeHeuristic streaming onEvent) .full run
  rw [heq, observedSearch_eq hvalid' hsource htarget]
  rcases @searchRoutes_alike (StreamRun κ) Unit G searcher (searcher.requestContext
    (heuristicRequest request) request.config.mode.heuristicOrDefault source target)
    (StreamRun.observeHeuristic streaming onEvent) silent (fun _ _ => True) _
    follows_silent hfinalists .full run () trivial with
    ⟨_, hsame⟩ | hstopped
  · exact Or.inl hsame.symm
  · exact Or.inr hstopped

/-- The heuristic phase counts no failure by itself. -/
theorem heuristicPhase_tallied (hrun : run.session.state.Tallied viable 0 none) :
    ∃ viable, (searcher.observedSearch (heuristicRequest request)
      request.config.mode.heuristicOrDefault (StreamRun.observeHeuristic streaming onEvent)
      .full run).1.session.state.Tallied viable 0 none := by
  have hvalid' := validate_heuristicRequest hvalid
  have hfinalists := HeuristicSearchConfig.maxFinalists_of_validate
    (SearchConfig.heuristic_of_validate rfl hvalid')
  rw [observedSearch_eq hvalid' hsource htarget]
  rcases @searchRoutes_watched _ _ _ _ _ G searcher (searcher.requestContext
    (heuristicRequest request) request.config.mode.heuristicOrDefault source target) _
    (@watches_tallied κ onEvent streaming) (fun _ _ => trivial) hfinalists .full run
    ⟨viable, hrun⟩ with hheld | ⟨hheld, _⟩
  · exact hheld
  · exact hheld

/-- The heuristic phase of a stream that goes on has observed quotes of distinct routes,
and the finalists that it returns are among them. -/
theorem heuristicPhase_observes (hindexed : searcher.graph.Indexed)
    (hne : request.tokenIn ≠ request.tokenOut)
    (hlimit : request.config.maxCandidates = none) (run : StreamRun κ) :
    let result := searcher.observedSearch (heuristicRequest request)
      request.config.mode.heuristicOrDefault (StreamRun.observeHeuristic streaming onEvent)
      .full run
    (∃ log, result.1 = reportAll (StreamRun.observeHeuristic streaming onEvent) run log ∧
        searcher.Quoted request log ∧ ∀ report, result.2 = .ok report →
          ∀ quote ∈ report.quotes, quote.path ∈ log.map RouteQuote.path) ∨
      ∃ report, result.2 = .ok report ∧ report.stopped = true := by
  intro result
  have hvalid' := validate_heuristicRequest hvalid
  have hfinalists := HeuristicSearchConfig.maxFinalists_of_validate
    (SearchConfig.heuristic_of_validate rfl hvalid')
  have heq : result = _ := observedSearch_eq hvalid' hsource htarget
    (StreamRun.observeHeuristic streaming onEvent) .full run
  -- the same observer, made to accept every quote
  rcases @searchRoutes_alike (StreamRun κ) (StreamRun κ) G searcher (searcher.requestContext
    (heuristicRequest request) request.config.mode.heuristicOrDefault source target)
    (StreamRun.observeHeuristic streaming onEvent)
    (FanIn.obliging (StreamRun.observeHeuristic streaming onEvent)) Eq _
    (by rintro first _ quote rfl _; exact ⟨rfl, rfl⟩) hfinalists .full run run rfl with
    ⟨hsame, hresult⟩ | hstopped
  · left
    obtain ⟨log, hlog, hquoted, hreports⟩ := heuristicPhase_spec hindexed hvalid hne hlimit
      hsource htarget
      (fun (_ : StreamRun κ) (_ : RouteQuote) => rfl : ∀ observed quote,
        (FanIn.obliging (StreamRun.observeHeuristic streaming onEvent) observed
          quote).2 = true) .full run
    rw [observedSearch_eq hvalid' hsource htarget] at hlog hreports
    rw [heq]
    refine ⟨log, hsame.trans hlog, hquoted, ?_⟩
    intro report hreport
    exact (hreports report (hresult.trans hreport)).2
  · right
    rw [heq]
    exact hstopped

end Heuristic

/-- A stream that is exhausted was to be exhaustive. -/
theorem completion_of_exhaustive (schedule : List FanIn.Event) (callback : κ)
    (hresult : (searcher.streamRoutesParallelWithCache request streaming schedule onEvent
      shouldContinue callback).2 = .ok result)
    (hfinality : result.report.finality = .exhaustive) :
    streaming.completion = .exhaustive := by
  rcases streamRoutes_concludes searcher request streaming schedule onEvent
    shouldContinue callback with ⟨error, herror⟩ | ⟨_, hdeclined⟩ | ⟨_, _, hconcludes⟩
  · rw [herror] at hresult
    cases hresult
  · rw [hdeclined] at hresult
    obtain rfl := Except.ok.inj hresult
    cases hfinality
  · generalize searcher.streamRoutesParallelWithCache request streaming schedule onEvent
      shouldContinue callback = concluded at hresult hconcludes
    cases hconcludes with
    | failed hrun error => cases hresult
    | completed hrun =>
        rcases StreamRun.finality_finish hresult with hsame | hstopped
        · rw [hsame] at hfinality
          cases hcompletion : streaming.completion with
          | exhaustive => rfl
          | fastLaneExhausted =>
              rw [hcompletion] at hfinality
              cases hfinality
          | heuristicExhausted =>
              rw [hcompletion] at hfinality
              cases hfinality
        · rw [hstopped] at hfinality
          cases hfinality
    | stopped hrun finality hstop emitCompleted =>
        apply absurd hfinality
        apply StreamRun.finish_ne_exhaustive _ hresult
        rcases hstop with rfl | rfl
        · decide
        · decide

/-- The counts of an exhausted stream, `failed` candidates of which failed before the
second phase. -/
def Accounts (searcher : AmmSearcher G) (request : RouteRequest) (paths : Finset RoutePath)
    (failed : ℕ) (result : StreamingRunReport) : Prop :=
  ∃ seen ≤ paths.card, result.Tallied
    (paths.filter fun path => searcher.quotesPath request path).card
    (failed + (paths.filter fun path => !searcher.quotesPath request path).card)
    (some (max (min usizeMax (failed + paths.card)) (seen + failed)))

section Streams

variable (hparallel : streaming.parallel.validate = .ok ())
  (hlimit : request.config.maxCandidates = none)
  (hvalid : request.config.validate = .ok ())
  (hcompletion : streaming.completion = .exhaustive)

include hparallel hlimit hvalid hcompletion

omit hcompletion in
/-- The heuristic phase has seen some of the paths when the second phase begins. -/
theorem finishHeuristic_accounts (hindexed : searcher.graph.Indexed)
    {source target : NodeIndex}
    (hsource : searcher.graph.nodeIndex request.tokenIn = some source)
    (htarget : searcher.graph.nodeIndex request.tokenOut = some target)
    {paths : Finset RoutePath}
    (hpaths : ∀ path, path ∈ paths ↔ searcher.graph.IsRoute request.config
      request.tokenIn request.tokenOut false path)
    {log : List RouteQuote} (hlog : searcher.Quoted request log)
    (hrun : run.session.state.Tallied log.length failed none)
    (hevaluated : ∀ path, path ∈ run.evaluatedPaths ↔ path ∈ log.map RouteQuote.path)
    (schedule : List FanIn.Event) {stopped : Bool}
    (hresult : (searcher.finishHeuristic request streaming schedule onEvent shouldContinue
      run stopped heuristicError).2 = .ok result)
    (hfinality : result.report.finality = .exhaustive) :
    stopped = false ∧ searcher.Accounts request paths failed result := by
  obtain ⟨hrunning, _, hcases⟩ := finishHeuristic_tallied hparallel hlimit hvalid hsource
    htarget schedule hrun hresult hfinality
  obtain ⟨hnodup, hroutes, _⟩ := AmmGraph.requestRoutes_spec hindexed hvalid hsource
    htarget false
  generalize searcher.graph.requestRoutes source target request.tokenIn request.tokenOut
    request.config false = routes at hcases hnodup hroutes
  have hinside : ∀ quote ∈ log, quote.path ∈ routes :=
    fun quote hquote => (hroutes _).mpr (hlog.isRoute quote hquote)
  obtain ⟨hlength, hviable, hfailed⟩ := countP_routes hnodup hlog.nodup hinside hlog.outcome
    hevaluated
  have hsame : paths = routes.toFinset := by
    ext path
    rw [List.mem_toFinset, hpaths, hroutes]
  have hcard : paths.card = routes.length := by
    rw [hsame, List.toFinset_card_of_nodup hnodup]
  have hfilter : ∀ test : RoutePath → Bool,
      (paths.filter fun path => test path).card = routes.countP test := by
    intro test
    rw [hsame, List.countP_eq_length_filter,
      ← List.toFinset_card_of_nodup (hnodup.filter test), List.toFinset_filter]
  refine ⟨hrunning, log.length, ?_, ?_⟩
  · rw [hcard, ← hlength]
    exact Nat.le_add_right _ _
  · rcases hcases with ⟨hempty, hviable, _⟩ | ⟨_, htallied⟩
    · -- without routes nothing can have been observed
      exfalso
      obtain ⟨quote, hquote⟩ := List.exists_mem_of_length_pos (Nat.pos_of_ne_zero hviable)
      have hroute := hinside quote hquote
      rw [hempty] at hroute
      cases hroute
    · rw [hviable, hfailed] at htallied
      rw [hfilter, hfilter, hcard, ← hlength]
      have hsum : log.length + failed + (routes.filter (· ∉ run.evaluatedPaths)).length =
          failed + (log.length + (routes.filter (· ∉ run.evaluatedPaths)).length) := by
        omega
      rw [hsum] at htallied
      exact htallied

/-- What an exhausted stream between distinct tokens counts. -/
theorem streamHeuristic_accounts (hindexed : searcher.graph.Indexed)
    (hne : request.tokenIn ≠ request.tokenOut) (schedule : List FanIn.Event)
    (hrun : run.session.state.Tallied 0 0 none) (hfresh : run.evaluatedPaths = ∅)
    {paths : Finset RoutePath}
    (hpaths : ∀ path, path ∈ paths ↔ searcher.graph.IsRoute request.config
      request.tokenIn request.tokenOut false path)
    (hresult : (searcher.streamHeuristic request streaming schedule onEvent shouldContinue
      run).2 = .ok result)
    (hfinality : result.report.finality = .exhaustive) :
    searcher.Accounts request paths (searcher.heuristicFailures request) result := by
  unfold streamHeuristic at hresult
  rw [if_neg (by rw [hcompletion]; decide)] at hresult
  simp only at hresult
  generalize hsearch : searcher.findRoutesHeuristicWithCacheObserved _ _ _ _ _ _ _ _ _ _ =
    searched at hresult
  have hsearched : searcher.observedSearch (heuristicRequest request)
      request.config.mode.heuristicOrDefault
      (StreamRun.observeHeuristic streaming onEvent) .full run = searched := hsearch
  rcases @observedSearch_resolved G _ searcher _ request.config.mode.heuristicOrDefault
    (validate_heuristicRequest hvalid) _
    (StreamRun.observeHeuristic streaming onEvent) .full run with
    ⟨source, target, hsource, htarget⟩ | ⟨token, hmissing⟩
  · have hsilent := @heuristicPhase_silent G _ searcher κ onEvent request streaming hvalid
      source target hsource htarget run
    have hphase := @heuristicPhase_observes G _ searcher κ onEvent request streaming hvalid
      source target hsource htarget hindexed hne hlimit run
    obtain ⟨viable, hviable⟩ := @heuristicPhase_tallied G _ searcher κ onEvent request
      streaming 0 run hvalid source target hsource htarget hrun
    rw [hsearched] at hsilent hphase hviable
    obtain ⟨after, outcome⟩ := searched
    simp only at hresult hsilent hphase hviable
    have hcounted : ∀ log, after = reportAll (StreamRun.observeHeuristic streaming onEvent)
        run log → after.session.state.Tallied log.length 0 none ∧
          ∀ path, path ∈ after.evaluatedPaths ↔ path ∈ log.map RouteQuote.path := by
      intro log hlog
      have htallied := @StreamRun.tallied_reportAll κ onEvent streaming 0 0 none run
        (StreamRun.observeHeuristic streaming onEvent) .heuristic (fun _ _ => rfl) log hrun
      have hseen := @StreamRun.evaluatedPaths_reportAll κ onEvent streaming log run
      rw [← hlog] at htallied hseen
      rw [hfresh, Finset.empty_union] at hseen
      refine ⟨Nat.zero_add log.length ▸ htallied, ?_⟩
      intro path
      rw [hseen, List.mem_toFinset]
    cases outcome with
    | ok report =>
        simp only at hresult
        have hfailed := @StreamingSession.tallied_observeFailedCandidates κ onEvent streaming
          _ _ _ _ hviable .heuristic report.failedCandidates
        obtain ⟨hstopped, _⟩ := finishHeuristic_tallied hparallel hlimit hvalid hsource
          htarget schedule hfailed hresult hfinality
        have hrunning : report.stopped ≠ true := by
          intro hstop
          rw [hstop, Bool.or_true] at hstopped
          cases hstopped
        have hmine : searcher.heuristicFailures request = report.failedCandidates := by
          rcases hsilent with hsame | ⟨other, hother, hstop⟩
          · unfold heuristicFailures
            rw [← hsame]
            rfl
          · obtain rfl := Except.ok.inj hother
            exact absurd hstop hrunning
        rcases hphase with ⟨log, hlog, hquoted, hreports⟩ | ⟨other, hother, hstop⟩
        · obtain ⟨htallied, hseen⟩ := hcounted log hlog
          have hobserved := @StreamingSession.tallied_observeFailedCandidates κ onEvent
            streaming _ _ _ _ htallied .heuristic report.failedCandidates
          rw [Nat.zero_add] at hobserved
          rw [hmine]
          refine (finishHeuristic_accounts hparallel hlimit hvalid hindexed hsource htarget
            hpaths hquoted hobserved ?_ schedule hresult hfinality).2
          -- the returned finalists are among the observed quotes
          intro path
          rw [Finset.mem_union, hseen, List.mem_toFinset]
          constructor
          · rintro (hold | hnew)
            · exact hold
            · obtain ⟨quote, hquote, rfl⟩ := List.mem_map.mp hnew
              exact hreports report rfl quote hquote
          · exact Or.inl
        · obtain rfl := Except.ok.inj hother
          exact absurd hstop hrunning
    | error error =>
        have hmine : searcher.heuristicFailures request = 0 := by
          rcases hsilent with hsame | ⟨other, hother, _⟩
          · unfold heuristicFailures
            rw [← hsame]
            rfl
          · cases hother
        rw [hmine]
        rcases hphase with ⟨log, hlog, hquoted, _⟩ | ⟨other, hother, _⟩
        · obtain ⟨htallied, hseen⟩ := hcounted log hlog
          cases error with
          | invalidConfig reason => cases hresult
          | tokenNotFound token => cases hresult
          | _ =>
              exact (finishHeuristic_accounts hparallel hlimit hvalid hindexed hsource
                htarget hpaths hquoted htallied hseen schedule hresult hfinality).2
        · cases hother
  · rw [← hsearched, hmissing] at hresult
    cases hresult

/-- A stream between equal tokens has no routes to count. -/
theorem streamHeuristic_roundTrip (hindexed : searcher.graph.Indexed)
    (hroundTrip : request.tokenIn = request.tokenOut) (schedule : List FanIn.Event)
    (hrun : run.session.state.Tallied 0 0 none)
    (hresult : (searcher.streamHeuristic request streaming schedule onEvent shouldContinue
      run).2 = .ok result)
    (hfinality : result.report.finality = .exhaustive) :
    result.report.progress.totalCandidates = none := by
  unfold streamHeuristic at hresult
  rw [if_neg (by rw [hcompletion]; decide)] at hresult
  simp only at hresult
  generalize hsearch : searcher.findRoutesHeuristicWithCacheObserved _ _ _ _ _ _ _ _ _ _ =
    searched at hresult
  have hsearched : searcher.observedSearch (heuristicRequest request)
      request.config.mode.heuristicOrDefault
      (StreamRun.observeHeuristic streaming onEvent) .full run = searched := hsearch
  rcases @observedSearch_resolved G _ searcher _ request.config.mode.heuristicOrDefault
    (validate_heuristicRequest hvalid) _
    (StreamRun.observeHeuristic streaming onEvent) .full run with
    ⟨source, target, hsource, htarget⟩ | ⟨token, hmissing⟩
  · obtain ⟨viable, hviable⟩ := @heuristicPhase_tallied G _ searcher κ onEvent request
      streaming 0 run hvalid source target hsource htarget hrun
    rw [hsearched] at hviable
    obtain ⟨after, outcome⟩ := searched
    simp only at hresult hviable
    have hempty : searcher.graph.requestRoutes source target request.tokenIn
        request.tokenOut request.config false = [] := by
      apply List.eq_nil_iff_forall_not_mem.mpr
      intro path hpath
      apply AmmGraph.IsRoute.tokens_ne (SearchConfig.hops_of_validate hvalid).1
        (((AmmGraph.requestRoutes_spec hindexed hvalid hsource htarget false).2.1
          path).mp hpath) hroundTrip
    have hnone : ∀ failed (next : StreamRun κ) stopped error,
        next.session.state.Tallied viable failed none →
        (searcher.finishHeuristic request streaming schedule onEvent shouldContinue next
          stopped error).2 = .ok result →
        result.report.progress.totalCandidates = none := by
      intro failed next stopped error hnext hfinished
      obtain ⟨_, _, ⟨_, _, htallied⟩ | ⟨hroutes, _⟩⟩ := finishHeuristic_tallied hparallel
        hlimit hvalid hsource htarget schedule hnext hfinished hfinality
      · exact htallied.totalCandidates
      · exact absurd hempty hroutes
    cases outcome with
    | ok report =>
        simp only at hresult
        have hfailed := @StreamingSession.tallied_observeFailedCandidates κ onEvent streaming
          _ _ _ _ hviable .heuristic report.failedCandidates
        exact hnone _ _ _ _ hfailed hresult
    | error error =>
        cases error with
        | invalidConfig reason => cases hresult
        | tokenNotFound token => cases hresult
        | _ => exact hnone _ _ _ _ hviable hresult
  · rw [← hsearched, hmissing] at hresult
    cases hresult

end Streams

/-- The final progress counts the paths: those that can be quoted, those that cannot, and
all of them. -/
structure CountsPaths (searcher : AmmSearcher G) (request : RouteRequest)
    (paths : Finset RoutePath) (progress : RouteSearchProgress) : Prop where
  viableRoutesObserved : progress.viableRoutesObserved =
    (paths.filter fun path => searcher.quotesPath request path).card
  failedCandidates : progress.failedCandidates =
    (paths.filter fun path => !searcher.quotesPath request path).card
  candidatesEvaluated : progress.candidatesEvaluated = paths.card
  totalCandidates : progress.totalCandidates = some paths.card

omit [StableDiGraph G Address EdgeData] in
theorem Accounts.countsPaths_iff {paths : Finset RoutePath} {failed : ℕ}
    (hresult : searcher.Accounts request paths failed result)
    (hfits : paths.card ≤ usizeMax) :
    searcher.CountsPaths request paths result.report.progress ↔ failed = 0 := by
  obtain ⟨seen, hseen, hviable, hfailed, hevaluated, htotal⟩ := hresult
  constructor
  · intro hcounts
    have hsame := hfailed.symm.trans hcounts.failedCandidates
    omega
  · rintro rfl
    have hsum := Finset.card_filter_add_card_filter_not (s := paths)
      (fun path => searcher.quotesPath request path = true)
    refine ⟨hviable, ?_, ?_, ?_⟩
    · rw [hfailed, Nat.zero_add]
    · rw [hevaluated, Nat.zero_add, ← hsum]
      simp only [Bool.not_eq_true, Bool.not_eq_true']
    · rw [htotal, Nat.zero_add, min_eq_right hfits, Nat.add_zero, max_eq_left hseen]

theorem quotesPath_eq_canQuote {path : RoutePath} (hpath : path ≠ [])
    {source target : NodeIndex} :
    searcher.quotesPath request path =
      searcher.canQuote (searcher.requestContext (heuristicRequest request)
        request.config.mode.heuristicOrDefault source target) path := by
  unfold quotesPath quoteOutcome QuoteEnv.pathOutcome canQuote
  rw [if_neg hpath]
  change _ = ((searcher.quoteEnv request.simConfig).traceHops searcher.quoteContext path
    request.amountIn).isOk
  cases (searcher.quoteEnv request.simConfig).traceHops searcher.quoteContext path
    request.amountIn with
  | ok result => rfl
  | error reason => rfl

/-- The heuristic search of a request reports no failure exactly when every candidate that
it tries can be quoted, or none of the routes among them can be. -/
theorem heuristicFailures_eq_zero_iff (hindexed : searcher.graph.Indexed)
    (hvalid : request.config.validate = .ok ())
    (hlimit : request.config.maxCandidates = none)
    (hne : request.tokenIn ≠ request.tokenOut) {paths : Finset RoutePath}
    (hpaths : ∀ path, path ∈ paths ↔ searcher.graph.IsRoute request.config
      request.tokenIn request.tokenOut false path) :
    searcher.heuristicFailures request = 0 ↔
      (∀ path ∈ searcher.heuristicTries request, searcher.quotesPath request path = true) ∨
        ∀ path ∈ searcher.heuristicTries request, path ∈ paths →
          searcher.quotesPath request path = false := by
  have hvalid' := validate_heuristicRequest hvalid
  have hheuristic := SearchConfig.heuristic_of_validate rfl hvalid'
  unfold heuristicFailures heuristicTries
  cases hsource : searcher.graph.nodeIndex request.tokenIn with
  | none =>
      simp only [observedSearch, findRoutesHeuristicWithCacheObserved, hvalid',
        show searcher.graph.nodeIndex (heuristicRequest request).tokenIn = none from hsource]
      simp [reportedFailures]
  | some source =>
      cases htarget : searcher.graph.nodeIndex request.tokenOut with
      | none =>
          simp only [observedSearch, findRoutesHeuristicWithCacheObserved, hvalid',
            show searcher.graph.nodeIndex (heuristicRequest request).tokenIn = some source
              from hsource,
            show searcher.graph.nodeIndex (heuristicRequest request).tokenOut = none
              from htarget]
          simp [reportedFailures]
      | some target =>
          have hresolved : (searcher.requestContext (heuristicRequest request)
              request.config.mode.heuristicOrDefault source target).Resolved
                searcher.graph := ⟨hindexed, hsource, htarget⟩
          have hretains := @retainLimit_pos (searcher.requestContext
            (heuristicRequest request) request.config.mode.heuristicOrDefault source target)
            hheuristic
          have hquotes : ∀ path ∈ searcher.searchTries (searcher.requestContext
              (heuristicRequest request) request.config.mode.heuristicOrDefault source
              target), searcher.quotesPath request path = searcher.canQuote
                (searcher.requestContext (heuristicRequest request)
                  request.config.mode.heuristicOrDefault source target) path :=
            fun path hpath => quotesPath_eq_canQuote
              ((answered_search hlimit hresolved hretains).nonempty path hpath)
          have hroutes : ∀ path, searcher.graph.IsRoute (searcher.requestContext
              (heuristicRequest request) request.config.mode.heuristicOrDefault source
                target).effective request.tokenIn request.tokenOut false path →
              path ∈ paths := by
            intro path hroute
            obtain ⟨hedges, hconnects, hmin, hmax, hpools, htokens, hinter⟩ :=
              @isRoute_of_effective G _ searcher (heuristicRequest request)
                request.config.mode.heuristicOrDefault source target path hroute
            exact (hpaths path).mpr
              ⟨hedges, hconnects, hmin, hmax, hpools, htokens, hinter⟩
          rw [observedSearch_eq hvalid' hsource htarget,
            reportedFailures_eq_zero_iff hlimit hresolved hretains
              (HeuristicSearchConfig.maxFinalists_of_validate hheuristic)
              (SearchConfig.hops_of_validate hvalid').1
              (soundRun_requestContext hresolved (fun hroundTrip => hne hroundTrip.1) silent ())
              hroutes]
          · refine or_congr ?_ ?_
            · exact forall₂_congr fun path hpath => by rw [hquotes path hpath]
            · exact forall₂_congr fun path hpath => by rw [hquotes path hpath]
          · intro path hpath
            have hroute := (hpaths path).mp hpath
            exact ⟨hroute.minHops, (connects_iff_endToken.mp hroute.connects).2⟩

/-- The final progress of an exhausted stream counts the universe of its request exactly
when every candidate that the heuristic search tries can be quoted, or none of the routes
among them can be. -/
theorem streamRoutes_countsPaths_iff (hbuilt : searcher.graph.Built)
    (hlimit : request.config.maxCandidates = none) (schedule : List FanIn.Event)
    (callback : κ) {paths : Finset RoutePath}
    (hpaths : ∀ path, path ∈ paths ↔ searcher.graph.IsRoute request.config
      request.tokenIn request.tokenOut false path)
    (hfits : paths.card ≤ usizeMax)
    (hresult : (searcher.streamRoutesParallelWithCache request streaming schedule onEvent
      shouldContinue callback).2 = .ok result)
    (hfinality : result.report.finality = .exhaustive) :
    searcher.CountsPaths request paths result.report.progress ↔
      request.tokenIn ≠ request.tokenOut ∧
        ((∀ path ∈ searcher.heuristicTries request,
            searcher.quotesPath request path = true) ∨
          ∀ path ∈ searcher.heuristicTries request, path ∈ paths →
            searcher.quotesPath request path = false) := by
  have hcompletion := completion_of_exhaustive schedule callback hresult hfinality
  unfold streamRoutesParallelWithCache at hresult
  split at hresult
  · cases hresult
  · cases hresult
  · rename_i hstreaming hvalid
    simp only at hresult
    have hstart : (StreamRun.emit onEvent ({ session := ⟨.new streaming, callback⟩ } :
        StreamRun κ) (.started streaming.completion)).1.session.state.Tallied 0 0 none :=
      ⟨rfl, rfl, rfl, Or.inl rfl, fun _ => rfl⟩
    have hfresh : (StreamRun.emit onEvent ({ session := ⟨.new streaming, callback⟩ } :
        StreamRun κ) (.started streaming.completion)).1.evaluatedPaths = ∅ := rfl
    generalize StreamRun.emit onEvent _ _ = emitted at hresult hstart hfresh
    obtain ⟨run, keep⟩ := emitted
    simp only at hresult hstart hfresh
    split at hresult
    · obtain rfl := Except.ok.inj hresult
      cases hfinality
    · have hparallel := parallel_of_validate hstreaming
      by_cases hne : request.tokenIn = request.tokenOut
      · have hnone := streamHeuristic_roundTrip hparallel hlimit hvalid hcompletion
          hbuilt.indexed hne schedule hstart hresult hfinality
        constructor
        · intro hcounts
          rw [hcounts.totalCandidates] at hnone
          cases hnone
        · rintro ⟨hdistinct, _⟩
          exact absurd hne hdistinct
      · rw [Accounts.countsPaths_iff (streamHeuristic_accounts hparallel hlimit hvalid
          hcompletion hbuilt.indexed hne schedule hstart hfresh hpaths hresult hfinality)
          hfits, heuristicFailures_eq_zero_iff hbuilt.indexed hvalid hlimit hne hpaths]
        exact ⟨fun hcondition => ⟨hne, hcondition⟩, And.right⟩

end AmmSearcher

namespace FailingPoolExample

/-- A quoter that returns its input, except on the pool `b`. -/
def adapter : Adapter :=
  ⟨fun pool _ _ amount _ =>
    if pool.key.debug = ['b'] then .error .unsupported else .ok amount⟩

/-- Two parallel pools, one of which cannot be quoted. -/
def searcher : AmmSearcher (SlotGraph Address EdgeData) :=
  RoundTripExample.searcherOver
    { RoundTripExample.registry with adapter := fun _ => some adapter }

def streamed (searcher : AmmSearcher (SlotGraph Address EdgeData)) :
    Except SearchError StreamingRunReport :=
  (searcher.streamRoutesParallelWithCache RoundTripExample.narrowRequest
    RoundTripExample.streaming [.work 1 true, .work 0 true, .receive]
    (fun _ _ => ((), .continue)) none ()).2

def paths : Finset RoutePath :=
  {[⟨(TwoPoolExample.pool ['a'] 1 2).key, 1, 2⟩],
    [⟨(TwoPoolExample.pool ['b'] 1 2).key, 1, 2⟩]}

theorem mem_paths (path : RoutePath) :
    path ∈ paths ↔ searcher.graph.IsRoute RoundTripExample.narrowRequest.config 1 2 false
      path := by
  have hnodes : searcher.graph.nodeIndex 1 = some 0 ∧ searcher.graph.nodeIndex 2 = some 1 := by
    decide +kernel
  have hroutes : searcher.graph.requestRoutes 0 1 1 2 RoundTripExample.narrowRequest.config
      false = [[⟨(TwoPoolExample.pool ['b'] 1 2).key, 1, 2⟩],
        [⟨(TwoPoolExample.pool ['a'] 1 2).key, 1, 2⟩]] := by
    decide +kernel
  have hbuilt : searcher.graph.Built := .fromRegistry 1 RoundTripExample.registry {}
  have hvalid : RoundTripExample.narrowRequest.config.validate = .ok () := by rfl
  obtain ⟨_, hmem, _⟩ := AmmGraph.requestRoutes_spec hbuilt.indexed hvalid hnodes.1
    hnodes.2 false
  rw [← hmem path, hroutes]
  simp [paths, or_comm]

/-- Where every pool can be quoted, the counts are exact. -/
theorem countsPaths_narrowRequest :
    ∃ result, streamed RoundTripExample.searcher = .ok result ∧
      RoundTripExample.searcher.CountsPaths RoundTripExample.narrowRequest paths
        result.report.progress := by
  have hfinality : (streamed RoundTripExample.searcher).toOption.map
      (fun result => result.report.finality) = some .exhaustive := by
    decide +kernel
  cases hresult : streamed RoundTripExample.searcher with
  | error error =>
      rw [hresult] at hfinality
      cases hfinality
  | ok result =>
      rw [hresult] at hfinality
      refine ⟨result, rfl, ?_⟩
      have hdistinct : RoundTripExample.narrowRequest.tokenIn ≠
          RoundTripExample.narrowRequest.tokenOut := by decide
      have hclean : ∀ path ∈ RoundTripExample.searcher.heuristicTries
          RoundTripExample.narrowRequest, RoundTripExample.searcher.quotesPath
            RoundTripExample.narrowRequest path = true := by
        decide +kernel
      exact (@AmmSearcher.streamRoutes_countsPaths_iff _ _ RoundTripExample.searcher Unit
        (fun _ _ => ((), .continue)) RoundTripExample.narrowRequest
        RoundTripExample.streaming none result (.fromRegistry 1 RoundTripExample.registry {})
        rfl _ () paths mem_paths (by decide +kernel) hresult
        (Option.some.inj hfinality)).mpr ⟨hdistinct, Or.inl hclean⟩

/-- The failing pool is counted once by the heuristic phase and again by the remainder. -/
theorem not_countsPaths_failingPool :
    ∃ result, streamed searcher = .ok result ∧ result.report.finality = .exhaustive ∧
      (∀ path, path ∈ paths ↔ searcher.graph.IsRoute RoundTripExample.narrowRequest.config
        1 2 false path) ∧
      ¬ searcher.CountsPaths RoundTripExample.narrowRequest paths
        result.report.progress := by
  have hcounts : (streamed searcher).toOption.map (fun result =>
      (result.report.finality, result.report.progress.totalCandidates)) =
        some (.exhaustive, some 3) := by
    decide +kernel
  cases hresult : streamed searcher with
  | error error =>
      rw [hresult] at hcounts
      cases hcounts
  | ok result =>
      rw [hresult] at hcounts
      obtain ⟨hfinality, htotal⟩ := Prod.mk.inj (Option.some.inj hcounts)
      refine ⟨result, rfl, hfinality, mem_paths, ?_⟩
      intro hpaths
      have hexact := hpaths.totalCandidates
      rw [htotal] at hexact
      cases hexact

end FailingPoolExample

end AmmSearch
