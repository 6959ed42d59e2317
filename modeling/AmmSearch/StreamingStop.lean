/-
Stopping a stream.  A callback that answers `Stop` is not called again and the
report says `Stopped`, provided that the stop is a clean one: nothing has failed
in the heuristic phase that it ends, no gated results are waiting for their
release, and it does not refuse the release that precedes a completed report.
-/
import AmmSearch.EventLog
import AmmSearch.ObservedSearch
import AmmSearch.StreamingExact

open FiniteMap StableGraph

namespace AmmSearch

/-- A stop ends the stream: it is the last event, and the report says so. -/
def StopIsFinal {κ : Type}
    (result : (κ × EventLog) × Except SearchError StreamingRunReport) : Prop :=
  ∀ before event after, result.1.2 = before ++ (event, .stop) :: after →
    event.isCompleted = false →
    after = [] ∧ ∃ run, result.2 = .ok run ∧ run.report.finality = .stopped

namespace EventLog

/-- Results were found and are held back. -/
def gated (streaming : StreamingSearchConfig) (log : EventLog) : Bool :=
  streaming.initialResultPolicy.isSome && log.showsBest && !log.showsInitialResults

/-- A release after `log` is followed by the completed report.  `cutShort` says
that the enumeration of the remainder was cancelled. -/
def completesAfter (streaming : StreamingSearchConfig) (cutShort : Bool)
    (log : EventLog) : Bool :=
  match log.getLast? with
  | some (.progress progress, _) => log.meetsStopPolicy streaming &&
      !streaming.initialResultPolicy.any fun policy => policy.isSatisfied progress
  | some (.phaseCompleted .heuristic _, _) =>
      !(streaming.completion == .exhaustive && cutShort)
  | some (.phaseCompleted .exhaustive _, _) => true
  | _ => false

/-- No stop of the log holds results back or refuses the release before the
completed report. -/
structure Clean (streaming : StreamingSearchConfig) (cutShort : Bool)
    (log : EventLog) : Prop where
  gated : ∀ before event after, log = before ++ (event, .stop) :: after →
    event.isCompleted = false → EventLog.gated streaming (before ++ [(event, .stop)]) = false
  release : ∀ before event after, log = before ++ (event, .stop) :: after →
    event.isInitialResults = true → completesAfter streaming cutShort before = false

end EventLog

/-- A stream whose clean stops are final. -/
def StopsCleanly {κ : Type} (streaming : StreamingSearchConfig) (cutShort : Bool)
    (result : (κ × EventLog) × Except SearchError StreamingRunReport) : Prop :=
  EventLog.Clean streaming cutShort result.1.2 → StopIsFinal result

section Finish

variable {κ : Type} {onEvent : EventCallback κ} {streaming : StreamingSearchConfig}
  {cutShort : Bool}

theorem stopIsFinal_of_continued
    {result : (κ × EventLog) × Except SearchError StreamingRunReport}
    (hlog : EventLog.Continued result.1.2) : StopIsFinal result := by
  intro before event after hsplit
  have hstop := hlog (event, .stop) (by rw [hsplit]; simp)
  cases hstop

/-- A log whose only stop may be its last event. -/
theorem stopIsFinal_of_last {log : EventLog} (hlog : log.Continued)
    {last : RouteSearchEvent × SearchControl}
    {result : (κ × EventLog) × Except SearchError StreamingRunReport}
    (hresult : result.1.2 = log ++ [last])
    (hlast : last.2 = .stop → last.1.isCompleted = false →
      ∃ run, result.2 = .ok run ∧ run.report.finality = .stopped) :
    StopIsFinal result := by
  intro before event after hsplit hevent
  rw [hresult] at hsplit
  obtain ⟨_, rfl, hafter⟩ := hlog.stop_eq_last hsplit
  exact ⟨hafter, hlast rfl hevent⟩

theorem stopsCleanly_fail {run : StreamRun (κ × EventLog)}
    (hrun : run.session.log.Continued) (error : SearchError) :
    StopsCleanly streaming cutShort (run.fail error) :=
  fun _ => stopIsFinal_of_continued hrun

theorem stopsCleanly_finish {run : StreamRun (κ × EventLog)}
    (hrun : run.session.Live streaming) (finality : SearchFinality) (emitCompleted : Bool)
    (hcompletes : emitCompleted = true → run.session.state.initialResultsReleased = false →
      run.session.state.best.isSome = true →
      run.session.log.completesAfter streaming cutShort = true) :
    StopsCleanly streaming cutShort
      (run.finish streaming (logged onEvent) finality emitCompleted) := by
  unfold StreamRun.finish StreamingSession.finishStreamReport
  rcases @StreamingSession.releaseAtCompletion_cases κ onEvent streaming run.session
    finality with
    ⟨hnothing, _⟩ | ⟨hreleased, _, best, callback, hbest, hcontinue | hstop⟩
  · simp only [hnothing]
    cases emitCompleted with
    | false => exact fun _ => stopIsFinal_of_continued hrun.continued
    | true =>
        refine fun _ => stopIsFinal_of_last hrun.continued rfl ?_
        intro _ hcompleted
        cases hcompleted
  · simp only [hcontinue]
    have hlog := hrun.continued.concat
      (.initialResultsReady (run.session.state.finalProgress finality) best
        run.session.state.topRoutes)
    cases emitCompleted with
    | false => exact fun _ => stopIsFinal_of_continued hlog
    | true =>
        refine fun _ => stopIsFinal_of_last hlog rfl ?_
        intro _ hcompleted
        cases hcompleted
  · simp only [hstop]
    cases emitCompleted with
    | false => exact fun _ => stopIsFinal_of_last hrun.continued rfl fun _ _ => ⟨_, rfl, rfl⟩
    | true =>
        intro hclean
        have hrelease := hclean.release run.session.log
          (.initialResultsReady (run.session.state.finalProgress finality) best
            run.session.state.topRoutes)
        simp only [if_true, emitSearchEvent, logged] at hrelease
        have hdirty := hrelease _ (by rw [List.append_assoc, List.singleton_append]) rfl
        rw [hcompletes rfl hreleased (by rw [hbest]; rfl)] at hdirty
        cases hdirty

theorem stopsCleanly_finish_refused {run : StreamRun (κ × EventLog)}
    (hrun : run.session.Refused) :
    StopsCleanly streaming cutShort
      (run.finish streaming (logged onEvent) .stopped false) := by
  obtain ⟨before, event, hlog, hbefore, hevent⟩ := hrun.last
  unfold StreamRun.finish StreamingSession.finishStreamReport
  rcases @StreamingSession.releaseAtCompletion_cases κ onEvent streaming run.session
    .stopped with
    ⟨hnothing, _⟩ | ⟨hreleased, hpolicy, best, callback, hbest, hrelease⟩
  · simp only [hnothing]
    exact fun _ => stopIsFinal_of_last hbefore hlog fun _ _ => ⟨_, rfl, rfl⟩
  · -- pending results were already held back when the callback stopped
    intro hclean
    exfalso
    have hgated : EventLog.gated streaming (before ++ [(event, .stop)]) = true := by
      rw [← hlog]
      have hshows : run.session.log.showsInitialResults = false := by
        by_contra hshows
        rw [hrun.released (by simpa using hshows)] at hreleased
        cases hreleased
      simp [EventLog.gated, hpolicy, hrun.best (by rw [hbest]; rfl), hshows]
    have hsplit : ∀ last, run.session.log ++ [last] = before ++ (event, .stop) :: [last] := by
      intro last
      rw [hlog, List.append_assoc, List.singleton_append]
    have hdirty : ∀ last, ¬ EventLog.Clean streaming cutShort (run.session.log ++ [last]) := by
      intro last hlast
      rw [hlast.gated before event [last] (hsplit last) hevent] at hgated
      cases hgated
    rcases hrelease with hcontinue | hstop
    · simp only [hcontinue] at hclean
      exact hdirty _ hclean
    · simp only [hstop] at hclean
      exact hdirty _ hclean

namespace StreamRun

/-- A cancelled run. -/
theorem Open.stopsCleanly {run : StreamRun (κ × EventLog)} (hrun : run.Open streaming) :
    StopsCleanly streaming cutShort (run.finishStopped streaming (logged onEvent)) := by
  refine stopsCleanly_finish hrun.live _ _ ?_
  intro hemit
  simp [StreamingRouteState.shouldEmitCompletionForStop, hrun.finality] at hemit

theorem Refused.stopsCleanly {run : StreamRun (κ × EventLog)} (hrun : run.Refused) :
    StopsCleanly streaming cutShort (run.finishStopped streaming (logged onEvent)) := by
  have hfinish : run.finishStopped streaming (logged onEvent) =
      run.finish streaming (logged onEvent) .stopped false := by
    simp only [finishStopped, StreamingRouteState.stoppedFinality,
      StreamingRouteState.shouldEmitCompletionForStop, hrun.finality]
    rfl
  rw [hfinish]
  exact stopsCleanly_finish_refused hrun.refused

theorem Satisfied.stopsCleanly {run : StreamRun (κ × EventLog)}
    (hrun : run.Satisfied streaming) :
    StopsCleanly streaming cutShort (run.finishStopped streaming (logged onEvent)) := by
  refine stopsCleanly_finish hrun.live _ _ ?_
  intro _ hreleased _
  have hmeets : run.session.log.meetsStopPolicy streaming = true := by
    rcases hrun.live.finality with hnone | ⟨_, _, hmeets⟩
    · rw [hrun.finality] at hnone
      cases hnone
    · exact hmeets
  have hends := hrun.live.pending hrun.finality hreleased
  unfold EventLog.endsUnreleased at hends
  unfold EventLog.completesAfter
  split at hends
  · rename_i progress answer hlast
    simp only [hlast, hmeets, hends, Bool.and_self]
  · cases hends

/-- What an emission outside the session state can do. -/
theorem emit_logged (run : StreamRun (κ × EventLog)) (event : RouteSearchEvent) :
    ∃ callback, run.emit (logged onEvent) event =
        ({ run with session := ⟨run.session.state,
            (callback, run.session.log ++ [(event, .continue)])⟩ }, true) ∨
      run.emit (logged onEvent) event =
        ({ run with session := ⟨run.session.state,
            (callback, run.session.log ++ [(event, .stop)])⟩ }, false) := by
  refine ⟨(onEvent run.session.callback.1 event).1, ?_⟩
  cases hanswer : (onEvent run.session.callback.1 event).2 with
  | «continue» =>
      left
      simp [emit, emitSearchEvent, logged, hanswer, StreamingSession.log]
  | stop =>
      right
      simp [emit, emitSearchEvent, logged, hanswer, StreamingSession.log]

/-- An open run after a continued phase event. -/
theorem Open.concat {run : StreamRun (κ × EventLog)} (hrun : run.Open streaming)
    (event : RouteSearchEvent) (hready : event.isInitialResults = false) (callback : κ) :
    Open streaming { run with session := ⟨run.session.state,
      (callback, run.session.log ++ [(event, .continue)])⟩ } := by
  refine ⟨⟨hrun.live.concat (by simp [hready]) callback, ?_, ?_⟩, hrun.finality⟩
  · intro hbest
    simp only [StreamingSession.log, EventLog.showsBest_concat, Bool.or_eq_true]
    exact Or.inl (hrun.live.best hbest)
  · intro hfinality
    have hnone := hrun.finality
    rw [show run.session.state.stopFinality = _ from hfinality] at hnone
    cases hnone

/-- An open run after a refused phase event. -/
theorem Open.refused {run : StreamRun (κ × EventLog)} (hrun : run.Open streaming)
    {event : RouteSearchEvent} (hevent : event.isCompleted = false)
    (hready : event.isInitialResults = false) (callback : κ) :
    StreamingSession.Refused ⟨run.session.state,
      (callback, run.session.log ++ [(event, .stop)])⟩ := by
  refine hrun.live.toUnstopped.refused hevent (by simp [hready]) ?_ callback
    run.session.state.stopFinality
  intro hbest
  simp [hrun.live.best hbest]

/-- Where a phase leaves a run. -/
def Settled (streaming : StreamingSearchConfig) (run : StreamRun (κ × EventLog)) : Prop :=
  run.Open streaming ∨ run.Refused ∨ run.Satisfied streaming

theorem Settled.stopsCleanly {run : StreamRun (κ × EventLog)} (hrun : run.Settled streaming) :
    StopsCleanly streaming cutShort (run.finishStopped streaming (logged onEvent)) := by
  rcases hrun with hopen | hrefused | hsatisfied
  · exact hopen.stopsCleanly
  · exact hrefused.stopsCleanly
  · exact hsatisfied.stopsCleanly

/-- A step of an open run keeps it open while it goes on. -/
theorem Open.advances {run : StreamRun (κ × EventLog)} (hrun : run.Open streaming)
    {next : StreamingSession (κ × EventLog)} {keep : Bool}
    (hadvances : StreamingSession.Advances streaming run.session (next, keep))
    (evaluatedPaths : Finset RoutePath) (observedQuotes : List RouteQuote) :
    Settled streaming ⟨next, evaluatedPaths, observedQuotes⟩ ∧
      (keep = true → Open streaming ⟨next, evaluatedPaths, observedQuotes⟩) := by
  cases hadvances with
  | continues _ hlive hfinality =>
      have hopen : Open streaming ⟨next, evaluatedPaths, observedQuotes⟩ :=
        ⟨hlive, hfinality.trans hrun.finality⟩
      exact ⟨Or.inl hopen, fun _ => hopen⟩
  | policy _ hlive hfinality =>
      exact ⟨Or.inr (Or.inr ⟨hlive, hfinality⟩), fun hkeep => by cases hkeep⟩
  | stops _ hrefused hfinality =>
      exact ⟨Or.inr (Or.inl ⟨hrefused, hfinality⟩), fun hkeep => by cases hkeep⟩

end StreamRun

end Finish

namespace AmmSearcher

variable {G : Type} {searcher : AmmSearcher G} {κ : Type} {onEvent : EventCallback κ}
  {request : RouteRequest} {streaming : StreamingSearchConfig}
  {shouldContinue : Option (ℕ → Bool)} {cutShort : Bool}

theorem completeStream_stopsCleanly {run : StreamRun (κ × EventLog)}
    (hrun : run.Open streaming) (heuristicError : Option SearchError)
    (failures : List PathFailure) :
    StopsCleanly streaming cutShort
      (completeStream streaming (logged onEvent) run heuristicError failures) := by
  have hmarked : StreamRun.Open streaming
      { run with session := run.session.markExhaustiveComplete } :=
    ⟨⟨⟨hrun.live.continued, hrun.live.released, hrun.live.finality⟩, hrun.live.best,
      hrun.live.pending⟩, hrun.finality⟩
  unfold completeStream
  simp only
  obtain ⟨callback, hcontinue | hstop⟩ := @StreamRun.emit_logged κ onEvent
    { run with session := run.session.markExhaustiveComplete }
    (.phaseCompleted .exhaustive run.session.markExhaustiveComplete.state.phaseStats)
  · rw [hcontinue]
    simp only [Bool.not_true, Bool.false_eq_true, if_false]
    have hopen := hmarked.concat (.phaseCompleted .exhaustive
      run.session.markExhaustiveComplete.state.phaseStats) rfl callback
    split
    · split
      · exact stopsCleanly_fail hopen.live.continued _
      · exact stopsCleanly_fail hopen.live.continued _
    · refine stopsCleanly_finish hopen.live _ _ ?_
      intro _ _ _
      simp [StreamingSession.log, EventLog.completesAfter]
  · rw [hstop]
    simp only [Bool.not_false, if_true]
    exact stopsCleanly_finish_refused (hmarked.refused rfl rfl callback)

theorem streamRemainder_stopsCleanly (hparallel : streaming.parallel.validate = .ok ())
    (schedule : List FanIn.Event) {run : StreamRun (κ × EventLog)}
    (hrun : run.Open streaming) (heuristicError : Option SearchError)
    (paths : List RoutePath) :
    StopsCleanly streaming cutShort (searcher.streamRemainder request streaming schedule
      (logged onEvent) run heuristicError paths) := by
  unfold streamRemainder
  split
  · exact completeStream_stopsCleanly hrun heuristicError []
  · obtain ⟨report, hreport, hwatched⟩ := @quoteAndStreamParallel_watched _ _ _ _ _
      (searcher.quoteEnv request.simConfig) searcher.quoteContext request.amountIn
      (@StreamRun.watches_observeExhaustive κ onEvent streaming) (fun _ _ _ => trivial) _
      hparallel schedule paths run hrun
    simp only [hreport]
    rcases hwatched with ⟨hrunning, hopen⟩ | ⟨hstopped, hended⟩
    · have hadvances := @StreamingSession.observeFailedCandidates_advances κ onEvent
        streaming report.observed.session hopen.live .exhaustive report.failures.length
      simp only [hrunning, Bool.false_eq_true, if_false]
      generalize StreamingSession.observeFailedCandidates streaming (logged onEvent)
        report.observed.session .exhaustive report.failures.length = failed at hadvances ⊢
      obtain ⟨session, keep⟩ := failed
      obtain ⟨hsettled, hnext⟩ := hopen.advances hadvances report.observed.evaluatedPaths
        report.observed.observedQuotes
      cases keep with
      | false =>
          simp only [Bool.not_false, if_true]
          exact hsettled.stopsCleanly
      | true =>
          simp only [Bool.not_true, Bool.false_eq_true, if_false]
          exact completeStream_stopsCleanly (hnext rfl) heuristicError report.failures
    · simp only [hstopped, if_true]
      exact StreamRun.Settled.stopsCleanly (Or.inr hended)

/-- Whether the enumeration after the heuristic phase is cancelled. -/
def remainderCutShort (searcher : AmmSearcher G) (request : RouteRequest)
    (shouldContinue : Option (ℕ → Bool)) (run : StreamRun (κ × EventLog)) : Bool :=
  match searcher.graph.enumerateRoutesFiltered request.tokenIn request.tokenOut
      { request.config with mode := .exhaustive } false run.evaluatedPaths
      (request.config.maxCandidates.map fun maxCandidates =>
        maxCandidates - run.session.state.candidatesEvaluated)
      (shouldContinue.map fun poll count => poll (count + 1)) with
  | .ok enumeration => enumeration.stopped
  | .error _ => false

theorem streamExhaustive_stopsCleanly (hparallel : streaming.parallel.validate = .ok ())
    (schedule : List FanIn.Event) {run : StreamRun (κ × EventLog)}
    (hrun : run.Open streaming) {stats : StreamingPhaseStats} {answer : SearchControl}
    (hlast : run.session.log.getLast? = some (.phaseCompleted .heuristic stats, answer))
    (hcut : cutShort = searcher.remainderCutShort request shouldContinue run)
    (heuristicError : Option SearchError) :
    StopsCleanly streaming cutShort (searcher.streamExhaustive request streaming schedule
      (logged onEvent) shouldContinue run heuristicError) := by
  unfold streamExhaustive
  simp only
  unfold remainderCutShort at hcut
  split
  · rename_i error herror
    rw [herror] at hcut
    split
    · exact stopsCleanly_fail hrun.live.continued _
    · refine stopsCleanly_finish hrun.live _ _ ?_
      intro _ _ _
      simp [EventLog.completesAfter, hlast, hcut]
  · rename_i enumeration _
    have hskipped : ∀ skipped, StreamRun.Open streaming { run with
        session := { run.session with
          state := { run.session.state with duplicatePathsSkipped := skipped } } } :=
      fun _ => ⟨⟨⟨hrun.live.continued, hrun.live.released, hrun.live.finality⟩,
        hrun.live.best, hrun.live.pending⟩, hrun.finality⟩
    have hopen := hskipped (min usizeMax (run.session.state.duplicatePathsSkipped +
      enumeration.duplicatesSkipped))
    generalize ({ run.session with state := { run.session.state with
      duplicatePathsSkipped := _ } } : StreamingSession (κ × EventLog)) = skipped
      at hopen ⊢
    split
    · refine stopsCleanly_finish hopen.live _ _ ?_
      intro hemit
      cases hemit
    · generalize htotalled : StreamingSession.setTotalCandidates streaming (logged onEvent)
        skipped _ = totalled
      have hadvances : StreamingSession.Advances streaming skipped totalled :=
        htotalled ▸ StreamingSession.setTotalCandidates_advances hopen.live _
      obtain ⟨session, keep⟩ := totalled
      obtain ⟨hsettled, hnext⟩ := hopen.advances hadvances run.evaluatedPaths
        run.observedQuotes
      cases keep with
      | false =>
          simp only [Bool.not_false, if_true]
          exact hsettled.stopsCleanly
      | true =>
          simp only [Bool.not_true, Bool.false_eq_true, if_false]
          exact streamRemainder_stopsCleanly hparallel schedule (hnext rfl) heuristicError
            enumeration.paths

/-- The run at the boundary between the phases. -/
def boundaryRun (streaming : StreamingSearchConfig) (onEvent : EventCallback κ)
    (run : StreamRun (κ × EventLog)) : StreamRun (κ × EventLog) :=
  { run with session := (run.session.finishHeuristicPhase streaming (logged onEvent)).1 }

theorem finishHeuristic_stopsCleanly (hparallel : streaming.parallel.validate = .ok ())
    (schedule : List FanIn.Event) {run : StreamRun (κ × EventLog)} {stopped : Bool}
    (hsettled : run.Settled streaming) (hrun : stopped = false → run.Open streaming)
    (hcut : cutShort = searcher.remainderCutShort request shouldContinue
      (boundaryRun streaming onEvent run)) (heuristicError : Option SearchError) :
    StopsCleanly streaming cutShort (searcher.finishHeuristic request streaming schedule
      (logged onEvent) shouldContinue run stopped heuristicError) := by
  unfold finishHeuristic
  cases stopped with
  | true =>
      simp only [if_true, Bool.not_false, Bool.true_or]
      exact hsettled.stopsCleanly
  | false =>
      have hopen := hrun rfl
      have hadvances := @StreamingSession.finishHeuristicPhase_advances κ onEvent streaming
        run.session hopen.live
      unfold boundaryRun at hcut
      simp only [Bool.false_eq_true, if_false]
      generalize StreamingSession.finishHeuristicPhase streaming (logged onEvent)
        run.session = finished at hadvances hcut ⊢
      obtain ⟨session, keep⟩ := finished
      obtain ⟨hfinished, hnext⟩ := hopen.advances hadvances run.evaluatedPaths
        run.observedQuotes
      split
      · exact hfinished.stopsCleanly
      · rename_i hgoes
        have hkeep : keep = true := by
          simp only [Bool.or_eq_true, not_or, Bool.not_eq_true, Bool.not_eq_false'] at hgoes
          exact hgoes.1
        have hopen := hnext hkeep
        obtain ⟨callback, hcontinue | hstop⟩ := @StreamRun.emit_logged κ onEvent
          ⟨session, run.evaluatedPaths, run.observedQuotes⟩
          (.phaseCompleted .heuristic session.state.phaseStats)
        · rw [hcontinue]
          have hentered := hopen.concat (.phaseCompleted .heuristic session.state.phaseStats)
            rfl callback
          simp only [Bool.not_true, Bool.false_eq_true, if_false]
          split
          · refine streamExhaustive_stopsCleanly hparallel schedule hentered
              List.getLast?_concat hcut heuristicError
          · rename_i hcompletion
            split
            · exact stopsCleanly_fail hentered.live.continued _
            · refine stopsCleanly_finish hentered.live _ _ ?_
              intro _ _ _
              simp [StreamingSession.log, EventLog.completesAfter, hcompletion]
          · rename_i hcompletion
            split
            · exact stopsCleanly_fail hentered.live.continued _
            · refine stopsCleanly_finish hentered.live _ _ ?_
              intro _ _ _
              simp [StreamingSession.log, EventLog.completesAfter, hcompletion]
        · rw [hstop]
          simp only [Bool.not_false, if_true]
          exact stopsCleanly_finish_refused (hopen.refused rfl rfl callback)

section Heuristic

variable [StableDiGraph G Address EdgeData]

/-- The heuristic phase of a stream. -/
def heuristicPhase (searcher : AmmSearcher G) (request : RouteRequest)
    (streaming : StreamingSearchConfig) (onEvent : EventCallback κ)
    (run : StreamRun (κ × EventLog)) :
    StreamRun (κ × EventLog) × Except SearchError HeuristicRoutesReport :=
  searcher.observedSearch (heuristicRequest request)
    request.config.mode.heuristicOrDefault
    (StreamRun.observeHeuristic streaming (logged onEvent))
    (if streaming.completion = .fastLaneExhausted then .fastLaneOnly else .full) run

/-- The run after the failures of the heuristic phase were counted. -/
def afterHeuristic (streaming : StreamingSearchConfig) (onEvent : EventCallback κ)
    (searched : StreamRun (κ × EventLog) × Except SearchError HeuristicRoutesReport) :
    StreamRun (κ × EventLog) :=
  match searched.2 with
  | .ok report =>
      { searched.1 with
        session := (searched.1.session.observeFailedCandidates streaming (logged onEvent)
          .heuristic report.failedCandidates).1
        evaluatedPaths := searched.1.evaluatedPaths ∪
          (report.quotes.map RouteQuote.path).toFinset }
  | .error _ => searched.1

/-- A stop inside the heuristic phase finds no failed candidate. -/
def StopsBeforeFailures
    (searched : StreamRun (κ × EventLog) × Except SearchError HeuristicRoutesReport) :
    Prop :=
  ∀ entry ∈ searched.1.session.log, entry.2 = .stop →
    ∀ report, searched.2 = .ok report → report.failedCandidates = 0

omit [StableDiGraph G Address EdgeData] in
/-- Counting the failures of a phase that was not stopped before a failure. -/
theorem settled_observeFailedCandidates {run : StreamRun (κ × EventLog)}
    {report : HeuristicRoutesReport}
    (hrun : run.Open streaming ∨
      (run.Refused ∨ run.Satisfied streaming) ∧ report.stopped = true)
    (hfailures : StopsBeforeFailures (run, .ok report)) (evaluatedPaths : Finset RoutePath) :
    let failed := run.session.observeFailedCandidates streaming (logged onEvent) .heuristic
      report.failedCandidates
    StreamRun.Settled streaming ⟨failed.1, evaluatedPaths, run.observedQuotes⟩ ∧
      ((!failed.2 || report.stopped) = false →
        StreamRun.Open streaming ⟨failed.1, evaluatedPaths, run.observedQuotes⟩) := by
  intro failed
  rcases hrun with hopen | ⟨hrefused | hsatisfied, hstopped⟩
  · have hadvances : StreamingSession.Advances streaming run.session failed :=
      StreamingSession.observeFailedCandidates_advances hopen.live _ _
    obtain ⟨hsettled, hnext⟩ := hopen.advances hadvances evaluatedPaths run.observedQuotes
    refine ⟨hsettled, fun hgoes => hnext ?_⟩
    simp only [Bool.or_eq_false_iff, Bool.not_eq_false'] at hgoes
    exact hgoes.1
  · obtain ⟨before, event, hlog, _⟩ := hrefused.refused.last
    have hnone : report.failedCandidates = 0 :=
      hfailures (event, .stop) (by simp [hlog]) rfl report rfl
    have hfailed : failed = (run.session, true) := by
      simp only [failed, StreamingSession.observeFailedCandidates, hnone, if_true]
    rw [hfailed]
    refine ⟨Or.inr (Or.inl ⟨hrefused.refused, hrefused.finality⟩), fun hgoes => ?_⟩
    rw [hstopped, Bool.or_true] at hgoes
    cases hgoes
  · -- the stop policy stays satisfied unless the callback refuses the progress
    have hadvances : StreamingSession.Advances streaming run.session failed :=
      StreamingSession.observeFailedCandidates_advances hsatisfied.live _ _
    have hstops : (!failed.2 || report.stopped) = true := by
      rw [hstopped, Bool.or_true]
    refine ⟨?_, fun hgoes => by rw [hstops] at hgoes; cases hgoes⟩
    generalize failed = result at hadvances ⊢
    cases hadvances with
    | continues next hlive hfinality =>
        exact Or.inr (Or.inr ⟨hlive, hfinality.trans hsatisfied.finality⟩)
    | policy next hlive hfinality => exact Or.inr (Or.inr ⟨hlive, hfinality⟩)
    | stops next hrefused hfinality => exact Or.inr (Or.inl ⟨hrefused, hfinality⟩)

variable (hvalid : request.config.validate = .ok ())

include hvalid

/-- The heuristic phase ends open, or it reports that it was stopped. -/
theorem heuristicPhase_watched {run : StreamRun (κ × EventLog)}
    (hrun : run.Open streaming) :
    let searched := searcher.heuristicPhase request streaming onEvent run
    searched.1.Open streaming ∨
      ((searched.1.Refused ∨ searched.1.Satisfied streaming) ∧
        ∃ report, searched.2 = .ok report ∧ report.stopped = true) := by
  intro searched
  have hvalid' := validate_heuristicRequest hvalid
  have hfinalists := HeuristicSearchConfig.maxFinalists_of_validate
    (SearchConfig.heuristic_of_validate rfl hvalid')
  rcases @observedSearch_resolved G _ searcher _ request.config.mode.heuristicOrDefault
    hvalid' _ (StreamRun.observeHeuristic streaming (logged onEvent))
    (if streaming.completion = .fastLaneExhausted then .fastLaneOnly else .full) run with
    ⟨source, target, hsource, htarget⟩ | ⟨token, hmissing⟩
  · have heq : searched = _ := observedSearch_eq hvalid' hsource htarget
      (StreamRun.observeHeuristic streaming (logged onEvent))
      (if streaming.completion = .fastLaneExhausted then .fastLaneOnly else .full) run
    rw [heq]
    exact @searchRoutes_watched _ _ _ _ _ G searcher (searcher.requestContext
      (heuristicRequest request) request.config.mode.heuristicOrDefault source target) _
      (@StreamRun.watches_observeHeuristic κ onEvent streaming) (fun _ _ => trivial)
      hfinalists _ run hrun
  · left
    rw [show searched = _ from hmissing]
    exact hrun

theorem streamHeuristic_stopsCleanly (hparallel : streaming.parallel.validate = .ok ())
    (schedule : List FanIn.Event) {run : StreamRun (κ × EventLog)}
    (hrun : run.Open streaming)
    (hfailures : StopsBeforeFailures (searcher.heuristicPhase request streaming onEvent run))
    (hcut : cutShort = searcher.remainderCutShort request shouldContinue
      (boundaryRun streaming onEvent (afterHeuristic streaming onEvent
        (searcher.heuristicPhase request streaming onEvent run)))) :
    StopsCleanly streaming cutShort (searcher.streamHeuristic request streaming schedule
      (logged onEvent) shouldContinue run) := by
  have hwatched := @heuristicPhase_watched G searcher κ onEvent request streaming _ hvalid
    run hrun
  unfold streamHeuristic
  simp only
  generalize hsearch : searcher.findRoutesHeuristicWithCacheObserved _ _ _ _ _ _ _ _ _ _ =
    searched
  rw [show searcher.heuristicPhase request streaming onEvent run = searched from hsearch]
    at hwatched hfailures hcut
  obtain ⟨after, outcome⟩ := searched
  cases outcome with
  | ok report =>
      have hafter : after.Open streaming ∨
          (after.Refused ∨ after.Satisfied streaming) ∧ report.stopped = true := by
        rcases hwatched with hopen | ⟨hended, other, hother, hstopped⟩
        · exact Or.inl hopen
        · obtain rfl := Except.ok.inj hother
          exact Or.inr ⟨hended, hstopped⟩
      obtain ⟨hsettled, hopen⟩ := @settled_observeFailedCandidates κ onEvent streaming after
        report hafter hfailures
        (after.evaluatedPaths ∪ (report.quotes.map RouteQuote.path).toFinset)
      exact finishHeuristic_stopsCleanly hparallel schedule hsettled hopen hcut none
  | error error =>
      have hopen : after.Open streaming := by
        rcases hwatched with hopen | ⟨_, report, hreport, _⟩
        · exact hopen
        · cases hreport
      have hfinish := @finishHeuristic_stopsCleanly G searcher κ onEvent request streaming
        shouldContinue cutShort hparallel schedule after false (Or.inl hopen)
        (fun _ => hopen) hcut (some error)
      cases error with
      | invalidConfig reason => exact stopsCleanly_fail hopen.live.continued _
      | tokenNotFound token => exact stopsCleanly_fail hopen.live.continued _
      | _ => exact hfinish

end Heuristic

section Stop

variable [StableDiGraph G Address EdgeData]

/-- The run after its first event. -/
def startedRun (streaming : StreamingSearchConfig) (onEvent : EventCallback κ)
    (callback : κ) : StreamRun (κ × EventLog) :=
  (StreamRun.emit (logged onEvent) { session := ⟨.new streaming, (callback, [])⟩ }
    (.started streaming.completion)).1

/-- Every stop of a stream is a clean one. -/
structure CleanStops (searcher : AmmSearcher G) (request : RouteRequest)
    (streaming : StreamingSearchConfig) (schedule : List FanIn.Event)
    (onEvent : EventCallback κ) (shouldContinue : Option (ℕ → Bool)) (callback : κ) :
    Prop where
  failures : (onEvent callback (.started streaming.completion)).2 = .continue →
    StopsBeforeFailures (searcher.heuristicPhase request streaming onEvent
      (startedRun streaming onEvent callback))
  log : EventLog.Clean streaming
    (searcher.remainderCutShort request shouldContinue
      (boundaryRun streaming onEvent (afterHeuristic streaming onEvent
        (searcher.heuristicPhase request streaming onEvent
          (startedRun streaming onEvent callback)))))
    (searcher.streamRoutesParallelWithCache request streaming schedule (logged onEvent)
      shouldContinue (callback, [])).1.2

/-- Once the callback has answered `Stop` to an event other than `Completed`, it
is not called again and the report says `Stopped`, in every stream whose stops
are clean. -/
theorem streamRoutes_stopIsFinal (schedule : List FanIn.Event) (callback : κ)
    (hclean : searcher.CleanStops request streaming schedule onEvent shouldContinue
      callback) :
    StopIsFinal (searcher.streamRoutesParallelWithCache request streaming schedule
      (logged onEvent) shouldContinue (callback, [])) := by
  obtain ⟨hfailures, hlog⟩ := hclean
  unfold streamRoutesParallelWithCache at hlog ⊢
  have hnil : EventLog.Continued [] := fun entry hentry => by cases hentry
  split at hlog
  · exact stopIsFinal_of_continued hnil
  · exact stopIsFinal_of_continued hnil
  · rename_i hstreaming hvalid
    unfold startedRun at hfailures hlog
    cases hanswer : (onEvent callback (.started streaming.completion)).2 with
    | stop =>
        have hstarted : StreamRun.emit (logged onEvent)
            ({ session := ⟨.new streaming, (callback, [])⟩ } : StreamRun (κ × EventLog))
            (.started streaming.completion) =
          ({ session := ⟨.new streaming,
              ((onEvent callback (.started streaming.completion)).1,
                [(.started streaming.completion, .stop)])⟩ }, false) := by
          simp [StreamRun.emit, emitSearchEvent, logged, hanswer]
        simp only [hstarted, Bool.not_false, if_true]
        exact stopIsFinal_of_last hnil (List.nil_append _).symm fun _ _ => ⟨_, rfl, rfl⟩
    | «continue» =>
        have hstarted : StreamRun.emit (logged onEvent)
            ({ session := ⟨.new streaming, (callback, [])⟩ } : StreamRun (κ × EventLog))
            (.started streaming.completion) =
          ({ session := ⟨.new streaming,
              ((onEvent callback (.started streaming.completion)).1,
                [(.started streaming.completion, .continue)])⟩ }, true) := by
          simp [StreamRun.emit, emitSearchEvent, logged, hanswer]
        simp only [hstarted, Bool.not_true, Bool.false_eq_true, if_false]
          at hfailures hlog ⊢
        exact streamHeuristic_stopsCleanly hvalid (parallel_of_validate hstreaming) schedule
          (StreamRun.open_started _ _ rfl) (hfailures hanswer) rfl hlog

end Stop

end AmmSearcher

namespace RoundTripExample

/-- A callback that refuses the first event of a kind. -/
def stopAtFirst (kind : RouteSearchEvent → Bool) : EventCallback Bool :=
  fun stopped event =>
    if kind event && !stopped then (true, .stop) else (stopped, .continue)

/-- A quoter that fails on the first of the two pools. -/
def failingAdapter : Adapter where
  simulateSwap := fun pool _ _ amount _ =>
    if pool.key.debug = ['a'] then .error .unsupported else .ok amount

def failingSearcher : AmmSearcher (SlotGraph Address EdgeData) :=
  searcherOver { registry with adapter := fun _ => some failingAdapter }

/-- A request whose fast lane quotes both pools. -/
def bothPoolsRequest : RouteRequest :=
  { narrowRequest with
    config := { narrowRequest.config with
      mode := .heuristic { fastLane := { directEdgesPerPair := 2 } } } }

/-- A stream that a confidence of 70 percent ends. -/
def confidentStreaming : StreamingSearchConfig :=
  { streaming with stopPolicy := some { mode := .all, minConfidenceBps := some 7000 } }

/-- The stream in which the callback refuses the first progress event with a
route, after the fast lane has failed on the first pool. -/
def overwrittenStop :
    (Bool × EventLog) × Except SearchError StreamingRunReport :=
  failingSearcher.streamRoutesParallelWithCache bothPoolsRequest confidentStreaming []
    (logged (stopAtFirst RouteSearchEvent.showsBest)) none (false, [])

theorem overwrittenStop_log :
    overwrittenStop.1.2.map (fun entry => (entry.1.isCompleted, entry.2)) =
        [(false, .continue), (false, .stop), (false, .continue), (true, .continue)] ∧
      overwrittenStop.2.toOption.map (fun result => result.report.finality) =
        some .stopPolicySatisfied := by
  decide +kernel

/-- The callback is called twice after its stop, and the report does not say that
it was stopped. -/
theorem not_stopIsFinal_overwrittenStop : ¬ StopIsFinal overwrittenStop := by
  intro hfinal
  obtain ⟨hlog, _⟩ := overwrittenStop_log
  rcases hentries : overwrittenStop.1.2 with _ | ⟨started, _ | ⟨⟨event, answer⟩, rest⟩⟩
  · rw [hentries] at hlog
    cases hlog
  · rw [hentries] at hlog
    simp at hlog
  · rw [hentries] at hlog
    simp only [List.map_cons, List.cons.injEq, Prod.mk.injEq] at hlog
    obtain ⟨_, ⟨hevent, rfl⟩, hrest⟩ := hlog
    obtain ⟨rfl, _⟩ := hfinal [started] event rest hentries hevent
    cases hrest

/-- The same stop when no candidate has failed. -/
theorem cleanStops_narrowRequest :
    searcher.CleanStops narrowRequest streaming []
      (stopAtFirst RouteSearchEvent.showsBest) none false := by
  have hready : ((searcher.streamRoutesParallelWithCache narrowRequest streaming []
      (logged (stopAtFirst RouteSearchEvent.showsBest)) none (false, [])).1.2.all
        fun entry => !entry.1.isInitialResults) = true := by
    decide +kernel
  have hfailed : (searcher.heuristicPhase narrowRequest streaming
      (stopAtFirst RouteSearchEvent.showsBest) (AmmSearcher.startedRun streaming
        (stopAtFirst RouteSearchEvent.showsBest) false)).2.toOption.map
          HeuristicRoutesReport.failedCandidates = some 0 := by
    decide +kernel
  refine ⟨?_, ?_, ?_⟩
  · intro _ entry _ _ report hreport
    rw [hreport] at hfailed
    exact Option.some.inj hfailed
  · intro before event after _ _
    rfl
  · intro before event after hsplit hevent
    rw [hsplit] at hready
    simp [hevent] at hready

theorem stopIsFinal_narrowRequest :
    (searcher.streamRoutesParallelWithCache narrowRequest streaming []
        (logged (stopAtFirst RouteSearchEvent.showsBest)) none (false, [])).1.2.map Prod.snd =
        [.continue, .stop] ∧
      StopIsFinal (searcher.streamRoutesParallelWithCache narrowRequest streaming []
        (logged (stopAtFirst RouteSearchEvent.showsBest)) none (false, [])) := by
  refine ⟨by decide +kernel, ?_⟩
  exact AmmSearcher.streamRoutes_stopIsFinal [] false cleanStops_narrowRequest

end RoundTripExample

end AmmSearch
