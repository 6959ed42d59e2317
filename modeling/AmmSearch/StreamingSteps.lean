/-
The steps of a streaming search.  Whatever its callback answers, a stream is a chain
of steps that go on, perhaps one step that does not, and a report on where that led.
-/
import AmmSearch.ObservedSearch
import AmmSearch.StreamingExact

open FiniteMap StableGraph

namespace AmmSearch

/-- What quoting the path of the quote gives. -/
def QuoteEnv.Gives (env : QuoteEnv) (amountIn : U256) (quote : RouteQuote) : Prop :=
  env.quotePathWithRegistry quote.path amountIn = .ok quote

theorem QuoteEnv.gives_of_traceHops {env : QuoteEnv} {context : QuoteKeyContext}
    {amountIn : U256} {quote : RouteQuote} (hpath : quote.path ≠ [])
    (hamount : quote.amountIn = amountIn)
    (htrace : env.traceHops context quote.path amountIn = .ok (quote.hops, quote.amountOut)) :
    env.Gives amountIn quote := by
  unfold Gives
  rw [quotePathWithRegistry_of_traceHops hpath htrace, ← hamount]

theorem goodQuotes_gives (env : QuoteEnv) (context : QuoteKeyContext) (amountIn : U256) :
    GoodQuotes (env.Gives amountIn) env context amountIn := by
  intro path quote houtcome
  unfold QuoteEnv.pathOutcome at houtcome
  split at houtcome
  · cases houtcome
  · rename_i hpath
    split at houtcome
    · rename_i hops amountOut htrace
      obtain rfl := Sum.inl.inj houtcome
      exact QuoteEnv.gives_of_traceHops hpath rfl htrace
    · cases houtcome

/-- The finality of a stream that reaches its completion. -/
def StreamingCompletion.finality : StreamingCompletion → SearchFinality
  | .fastLaneExhausted => .fastLaneOnly
  | .heuristicExhausted => .heuristicOnly
  | .exhaustive => .exhaustive

/-- A stop is one of the callback or of the stop policy. -/
def StreamingRouteState.Stoppable (state : StreamingRouteState) : Prop :=
  state.stopFinality = none ∨ state.stopFinality = some .stopped ∨
    state.stopFinality = some .stopPolicySatisfied

namespace StreamingRouteState

variable {before after : StreamingRouteState}

theorem Emits.stoppable (hemits : before.Emits after) (hbefore : before.Stoppable) :
    after.Stoppable := by
  rcases hemits.stopFinality with hsame | hstop
  · unfold Stoppable
    rw [hsame]
    exact hbefore
  · exact Or.inr hstop

theorem Stoppable.finality (hstate : before.Stoppable) :
    before.stoppedFinality = .stopped ∨ before.stoppedFinality = .stopPolicySatisfied := by
  unfold stoppedFinality
  rcases hstate with hnone | hstopped | hpolicy
  · exact Or.inl (by rw [hnone]; rfl)
  · exact Or.inl (by rw [hstopped]; rfl)
  · exact Or.inr (by rw [hpolicy]; rfl)

end StreamingRouteState

namespace StreamRun

variable {κ : Type} (streaming : StreamingSearchConfig) (onEvent : EventCallback κ)
  (good : RouteQuote → Prop)

/-- An operation on the session of the run. -/
def advance (run : StreamRun κ)
    (operation : StreamingSession κ → StreamingSession κ × Bool) : StreamRun κ × Bool :=
  ({ run with session := (operation run.session).1 }, (operation run.session).2)

/-- The count of duplicates of the exhaustive enumeration. -/
def skipDuplicates (run : StreamRun κ) (duplicates : ℕ) : StreamRun κ :=
  { run with
    session := { run.session with
      state := { run.session.state with duplicatePathsSkipped := duplicates } } }

/-- One step of a stream, with the flag that says whether the search goes on. -/
inductive Step (run : StreamRun κ) : StreamRun κ × Bool → Prop
  | heuristicQuote (quote : RouteQuote) (hquote : good quote) :
      Step run (run.observeHeuristic streaming onEvent quote)
  | exhaustiveQuote (quote : RouteQuote) (hquote : good quote) :
      Step run (run.observeExhaustive streaming onEvent quote)
  | failures (phase : RouteSearchPhase) (count : ℕ) :
      Step run (run.advance fun session =>
        session.observeFailedCandidates streaming onEvent phase count)
  | evaluated (paths : Finset RoutePath) : Step run ({ run with evaluatedPaths := paths }, true)
  | heuristicDone :
      Step run (run.advance fun session => session.finishHeuristicPhase streaming onEvent)
  | phaseCompleted (phase : RouteSearchPhase) :
      Step run (run.emit onEvent (.phaseCompleted phase run.session.state.phaseStats))
  | skipped (duplicates : ℕ) : Step run (run.skipDuplicates duplicates, true)
  | total (count : ℕ) (hnew : run.session.state.totalCandidates = none) :
      Step run (run.advance fun session => session.setTotalCandidates streaming onEvent count)
  | exhaustiveDone :
      Step run ({ run with session := run.session.markExhaustiveComplete }, true)

/-- The runs that steps lead to while the search goes on. -/
inductive Reached (start : StreamRun κ) : StreamRun κ → Prop
  | start : Reached start start
  | step {run next : StreamRun κ} (hreached : Reached start run)
      (hstep : Step streaming onEvent good run (next, true)) : Reached start next

/-- The runs of a search that does not go on.  The failures of a stopped heuristic phase
are still counted. -/
inductive Ended (start : StreamRun κ) : StreamRun κ → Prop
  | refused {run next : StreamRun κ} (hreached : Reached streaming onEvent good start run)
      (hstep : Step streaming onEvent good run (next, false)) : Ended start next
  | counted {run : StreamRun κ} (hended : Ended start run) (count : ℕ)
      (paths : Finset RoutePath) :
      Ended start { (run.advance fun session =>
        session.observeFailedCandidates streaming onEvent .heuristic count).1 with
          evaluatedPaths := paths }

/-- A stream that has started fails, completes, or is stopped. -/
inductive Concludes (start : StreamRun κ) : κ × Except SearchError StreamingRunReport → Prop
  | failed {run : StreamRun κ} (hrun : Reached streaming onEvent good start run)
      (error : SearchError) : Concludes start (run.fail error)
  | completed {run : StreamRun κ} (hrun : Reached streaming onEvent good start run) :
      Concludes start (run.finish streaming onEvent streaming.completion.finality true)
  | stopped {run : StreamRun κ}
      (hrun : Reached streaming onEvent good start run ∨
        Ended streaming onEvent good start run) (finality : SearchFinality)
      (hfinality : finality = .stopped ∨ finality = .stopPolicySatisfied)
      (emitCompleted : Bool) :
      Concludes start (run.finish streaming onEvent finality emitCompleted)

variable {streaming onEvent good} {start run next : StreamRun κ}

section Frames

variable {result : StreamRun κ × Bool}

theorem stoppable_observeQuote (session : StreamingSession κ)
    (hsession : session.state.Stoppable) (phase : RouteSearchPhase) (quote : RouteQuote) :
    (session.observeQuote streaming onEvent phase quote).1.state.Stoppable := by
  apply (StreamingSession.observeQuote_emits session phase quote).stoppable
  have hranked : (StreamingSession.rankQuote streaming phase session.state
      quote).stopFinality = session.state.stopFinality :=
    (@StreamingSession.recordTopRoute_counts streaming session.state quote).2.2.2.2.2.1
  unfold StreamingRouteState.Stoppable
  rw [hranked]
  exact hsession

theorem totalCandidates_observeQuote (session : StreamingSession κ) (phase : RouteSearchPhase)
    (quote : RouteQuote) :
    (session.observeQuote streaming onEvent phase quote).1.state.totalCandidates =
      session.state.totalCandidates := by
  rw [(StreamingSession.observeQuote_emits session phase quote).totalCandidates]
  exact (@StreamingSession.recordTopRoute_counts streaming session.state quote).2.2.2.2.1

theorem Step.stoppable (hrun : run.session.state.Stoppable)
    (hstep : Step streaming onEvent good run result) :
    result.1.session.state.Stoppable := by
  cases hstep with
  | heuristicQuote quote hquote => exact stoppable_observeQuote _ hrun _ _
  | exhaustiveQuote quote hquote => exact stoppable_observeQuote _ hrun _ _
  | failures phase count =>
      exact (StreamingSession.observeFailedCandidates_emits _ _ _).stoppable hrun
  | evaluated paths => exact hrun
  | heuristicDone => exact (StreamingSession.finishHeuristicPhase_emits _).stoppable hrun
  | phaseCompleted phase => exact hrun
  | skipped duplicates => exact hrun
  | total count hnew => exact (StreamingSession.setTotalCandidates_emits _ _).stoppable hrun
  | exhaustiveDone => exact hrun

/-- What every step keeps holds wherever the search has been. -/
theorem Reached.holds {holds : StreamRun κ → Prop}
    (hkeeps : ∀ {run result}, holds run → Step streaming onEvent good run result →
      holds result.1) (hstart : holds start)
    (hreached : Reached streaming onEvent good start run) : holds run := by
  induction hreached with
  | start => exact hstart
  | step _ hstep ih => exact hkeeps ih hstep

theorem Ended.holds {holds : StreamRun κ → Prop}
    (hkeeps : ∀ {run result}, holds run → Step streaming onEvent good run result →
      holds result.1) (hstart : holds start)
    (hended : Ended streaming onEvent good start run) : holds run := by
  induction hended with
  | refused hreached hstep => exact hkeeps (hreached.holds hkeeps hstart) hstep
  | counted hended count paths ih =>
      exact hkeeps (hkeeps ih (.failures .heuristic count)) (.evaluated paths)

end Frames

/-- A run of the heuristic phase, before the total is known. -/
structure Early (streaming : StreamingSearchConfig) (onEvent : EventCallback κ)
    (good : RouteQuote → Prop) (start run : StreamRun κ) : Prop where
  reached : Reached streaming onEvent good start run
  total : run.session.state.totalCandidates = none

theorem watches_early :
    FanIn.Watches (observeHeuristic streaming onEvent) good
      (Early streaming onEvent good start) (Ended streaming onEvent good start) := by
  constructor
  · intro run quote hquote hrun hkeep
    constructor
    · apply hrun.reached.step
      rw [← hkeep]
      exact .heuristicQuote quote hquote
    · exact (totalCandidates_observeQuote run.session .heuristic quote).trans hrun.total
  · intro run quote hquote hrun hrefused
    apply Ended.refused hrun.reached
    rw [← hrefused]
    exact .heuristicQuote quote hquote

theorem watches_reached :
    FanIn.Watches (observeExhaustive streaming onEvent) good
      (Reached streaming onEvent good start) (Ended streaming onEvent good start) := by
  constructor
  · intro run quote hquote hrun hkeep
    apply hrun.step
    rw [← hkeep]
    exact .exhaustiveQuote quote hquote
  · intro run quote hquote hrun hrefused
    apply Ended.refused hrun
    rw [← hrefused]
    exact .exhaustiveQuote quote hquote

/-- Where a step leads, depending on its flag. -/
theorem Reached.advances (hrun : Reached streaming onEvent good start run)
    {result : StreamRun κ × Bool} (hstep : Step streaming onEvent good run result) :
    (result.2 = true ∧ Reached streaming onEvent good start result.1) ∨
      (result.2 = false ∧ Ended streaming onEvent good start result.1) := by
  obtain ⟨next, keep⟩ := result
  cases keep with
  | true => exact Or.inl ⟨rfl, hrun.step hstep⟩
  | false => exact Or.inr ⟨rfl, .refused hrun hstep⟩

/-- The end of a run that the callback, a policy or a cancellation has stopped. -/
theorem concludes_finishStopped (hstart : start.session.state.Stoppable)
    (hrun : Reached streaming onEvent good start run ∨
      Ended streaming onEvent good start run) :
    Concludes streaming onEvent good start (run.finishStopped streaming onEvent) := by
  have hstop : run.session.state.Stoppable := by
    rcases hrun with hreached | hended
    · exact hreached.holds (fun hrun hstep => hstep.stoppable hrun) hstart
    · exact hended.holds (fun hrun hstep => hstep.stoppable hrun) hstart
  exact .stopped hrun _ hstop.finality _

end StreamRun

namespace AmmSearcher

variable {G : Type} {searcher : AmmSearcher G} {κ : Type} {onEvent : EventCallback κ}
  {request : RouteRequest} {streaming : StreamingSearchConfig}
  {shouldContinue : Option (ℕ → Bool)} {good : RouteQuote → Prop} {start run : StreamRun κ}

open StreamRun

section Phases

variable (hstart : start.session.state.Stoppable)

include hstart

omit hstart in
theorem completeStream_concludes (hcompletion : streaming.completion = .exhaustive)
    (hrun : Reached streaming onEvent good start run) (heuristicError : Option SearchError)
    (failures : List PathFailure) :
    Concludes streaming onEvent good start
      (completeStream streaming onEvent run heuristicError failures) := by
  have hmarked := hrun.step .exhaustiveDone
  have hemitted := hmarked.advances (.phaseCompleted .exhaustive)
  unfold completeStream
  simp only
  generalize StreamRun.emit onEvent _ _ = emitted at hemitted ⊢
  obtain ⟨next, keep⟩ := emitted
  rcases hemitted with ⟨hkeep, hnext⟩ | ⟨hkeep, hnext⟩
  · obtain rfl : keep = true := hkeep
    simp only [Bool.not_true, Bool.false_eq_true, if_false]
    split
    · split
      · exact .failed hnext _
      · exact .failed hnext _
    · have hcompleted := Concludes.completed hnext
      rw [hcompletion] at hcompleted
      exact hcompleted
  · obtain rfl : keep = false := hkeep
    simp only [Bool.not_false, if_true]
    exact .stopped (Or.inr hnext) .stopped (Or.inl rfl) false

theorem streamRemainder_concludes (hcompletion : streaming.completion = .exhaustive)
    (hparallel : streaming.parallel.validate = .ok ())
    (hgood : GoodQuotes good (searcher.quoteEnv request.simConfig) searcher.quoteContext
      request.amountIn) (schedule : List FanIn.Event)
    (hrun : Reached streaming onEvent good start run) (heuristicError : Option SearchError)
    (paths : List RoutePath) :
    Concludes streaming onEvent good start (searcher.streamRemainder request streaming
      schedule onEvent run heuristicError paths) := by
  unfold streamRemainder
  split
  · exact completeStream_concludes hcompletion hrun heuristicError []
  · obtain ⟨report, hreport, hwatched⟩ := @quoteAndStreamParallel_watched _ _ _ _ _
      (searcher.quoteEnv request.simConfig) searcher.quoteContext request.amountIn
      (@watches_reached κ streaming onEvent good start) hgood _ hparallel schedule paths run
      hrun
    simp only [hreport]
    rcases hwatched with ⟨hrunning, hreached⟩ | ⟨hstopped, hended⟩
    · have hfailed := hreached.advances (.failures .exhaustive report.failures.length)
      simp only [advance] at hfailed
      simp only [hrunning, Bool.false_eq_true, if_false]
      generalize StreamingSession.observeFailedCandidates streaming onEvent
        report.observed.session .exhaustive report.failures.length = failed at hfailed ⊢
      obtain ⟨session, keep⟩ := failed
      rcases hfailed with ⟨hkeep, hnext⟩ | ⟨hkeep, hnext⟩
      · obtain rfl : keep = true := hkeep
        simp only [Bool.not_true, Bool.false_eq_true, if_false]
        exact completeStream_concludes hcompletion hnext heuristicError report.failures
      · obtain rfl : keep = false := hkeep
        simp only [Bool.not_false, if_true]
        exact concludes_finishStopped hstart (Or.inr hnext)
    · simp only [hstopped, if_true]
      exact concludes_finishStopped hstart (Or.inr hended)

theorem streamExhaustive_concludes (hcompletion : streaming.completion = .exhaustive)
    (hparallel : streaming.parallel.validate = .ok ())
    (hgood : GoodQuotes good (searcher.quoteEnv request.simConfig) searcher.quoteContext
      request.amountIn) (schedule : List FanIn.Event)
    (hrun : Early streaming onEvent good start run) (heuristicError : Option SearchError) :
    Concludes streaming onEvent good start (searcher.streamExhaustive request streaming
      schedule onEvent shouldContinue run heuristicError) := by
  unfold streamExhaustive
  simp only
  split
  · split
    · exact .failed hrun.reached _
    · have hcompleted := Concludes.completed hrun.reached
      rw [hcompletion] at hcompleted
      exact hcompleted
  · rename_i enumeration _
    have hskipped := hrun.reached.step (.skipped (min usizeMax
      (run.session.state.duplicatePathsSkipped + enumeration.duplicatesSkipped)))
    split
    · exact .stopped (Or.inl hskipped) .stopped (Or.inl rfl) false
    · have htotal := hskipped.advances (.total (min usizeMax
        ((run.skipDuplicates (min usizeMax (run.session.state.duplicatePathsSkipped +
          enumeration.duplicatesSkipped))).session.state.candidatesEvaluated +
          enumeration.paths.length)) hrun.total)
      simp only [advance, skipDuplicates] at htotal
      generalize StreamingSession.setTotalCandidates streaming onEvent _ _ = total
        at htotal ⊢
      obtain ⟨session, keep⟩ := total
      rcases htotal with ⟨hkeep, hnext⟩ | ⟨hkeep, hnext⟩
      · obtain rfl : keep = true := hkeep
        simp only [Bool.not_true, Bool.false_eq_true, if_false]
        exact streamRemainder_concludes hstart hcompletion hparallel hgood schedule hnext
          heuristicError enumeration.paths
      · obtain rfl : keep = false := hkeep
        simp only [Bool.not_false, if_true]
        exact concludes_finishStopped hstart (Or.inr hnext)

theorem Early.finishHeuristic_concludes (hparallel : streaming.parallel.validate = .ok ())
    (hgood : GoodQuotes good (searcher.quoteEnv request.simConfig) searcher.quoteContext
      request.amountIn) (schedule : List FanIn.Event)
    (hrun : Early streaming onEvent good start run) (heuristicError : Option SearchError) :
    Concludes streaming onEvent good start (searcher.finishHeuristic request streaming
      schedule onEvent shouldContinue run false heuristicError) := by
  have hdone := hrun.reached.advances .heuristicDone
  have htotal := (@StreamingSession.finishHeuristicPhase_emits κ onEvent streaming
    run.session).totalCandidates.trans hrun.total
  simp only [advance] at hdone
  unfold finishHeuristic
  simp only [Bool.false_eq_true, if_false]
  generalize StreamingSession.finishHeuristicPhase streaming onEvent run.session = finished
    at hdone htotal ⊢
  obtain ⟨session, keep⟩ := finished
  simp only at hdone htotal ⊢
  rcases hdone with ⟨rfl, hnext⟩ | ⟨rfl, hnext⟩
  · split
    · exact concludes_finishStopped hstart (Or.inl hnext)
    · have hemitted := hnext.advances (.phaseCompleted .heuristic)
      have hstate : (StreamRun.emit onEvent { run with session := session }
          (.phaseCompleted .heuristic session.state.phaseStats)).1.session.state =
            session.state := rfl
      generalize StreamRun.emit onEvent _ _ = emitted at hemitted hstate ⊢
      obtain ⟨boundary, keep⟩ := emitted
      simp only at hemitted hstate ⊢
      rcases hemitted with ⟨rfl, hboundary⟩ | ⟨rfl, hboundary⟩
      · have hearly : Early streaming onEvent good start boundary :=
          ⟨hboundary, hstate ▸ htotal⟩
        have hcompleted := Concludes.completed hboundary
        simp only [Bool.not_true, Bool.false_eq_true, if_false]
        split
        · rename_i hcompletion
          exact streamExhaustive_concludes hstart hcompletion hparallel hgood schedule hearly
            heuristicError
        · rename_i hcompletion
          rw [hcompletion] at hcompleted ⊢
          split
          · exact .failed hboundary _
          · exact hcompleted
        · rename_i hcompletion
          rw [hcompletion] at hcompleted ⊢
          split
          · exact .failed hboundary _
          · exact hcompleted
      · simp only [Bool.not_false, if_true]
        exact .stopped (Or.inr hboundary) .stopped (Or.inl rfl) false
  · simp only [Bool.not_false, Bool.true_or, if_true]
    exact concludes_finishStopped hstart (Or.inr hnext)

theorem finishHeuristic_concludes_stopped (schedule : List FanIn.Event)
    (hrun : Reached streaming onEvent good start run ∨
      Ended streaming onEvent good start run) (heuristicError : Option SearchError) :
    Concludes streaming onEvent good start (searcher.finishHeuristic request streaming
      schedule onEvent shouldContinue run true heuristicError) := by
  unfold finishHeuristic
  simp only [if_true, Bool.not_false, Bool.true_or]
  exact concludes_finishStopped hstart hrun

end Phases

variable [StableDiGraph G Address EdgeData]

/-- The heuristic phase goes on, or it reports that it was stopped. -/
theorem heuristicSearch_early (hvalid : request.config.validate = .ok ())
    (hrun : Early streaming onEvent
      ((searcher.quoteEnv request.simConfig).Gives request.amountIn) start run)
    (runLimit : HeuristicRunLimit) :
    let searched := searcher.observedSearch (heuristicRequest request)
      request.config.mode.heuristicOrDefault (StreamRun.observeHeuristic streaming onEvent)
      runLimit run
    Early streaming onEvent ((searcher.quoteEnv request.simConfig).Gives request.amountIn)
        start searched.1 ∨
      (Ended streaming onEvent ((searcher.quoteEnv request.simConfig).Gives request.amountIn)
        start searched.1 ∧ ∃ report, searched.2 = .ok report ∧ report.stopped = true) := by
  intro searched
  have hvalid' := validate_heuristicRequest hvalid
  have hfinalists := HeuristicSearchConfig.maxFinalists_of_validate
    (SearchConfig.heuristic_of_validate rfl hvalid')
  rcases @observedSearch_resolved G _ searcher _ request.config.mode.heuristicOrDefault
    hvalid' _ (StreamRun.observeHeuristic streaming onEvent) runLimit run with
    ⟨source, target, hsource, htarget⟩ | ⟨token, hmissing⟩
  · have heq : searched = _ := observedSearch_eq hvalid' hsource htarget
      (StreamRun.observeHeuristic streaming onEvent) runLimit run
    have hgives : ∀ quote, searcher.Traced (searcher.requestContext
        (heuristicRequest request) request.config.mode.heuristicOrDefault source target)
        quote → (searcher.quoteEnv request.simConfig).Gives request.amountIn quote :=
      fun quote htraced => QuoteEnv.gives_of_traceHops htraced.nonempty htraced.amountIn
        htraced.trace
    rw [heq]
    exact @searchRoutes_watched _ _ _ _ _ G searcher _ _ watches_early hgives hfinalists
      runLimit run hrun
  · left
    rw [show searched = _ from hmissing]
    exact hrun

theorem streamHeuristic_concludes (hstart : start.session.state.Stoppable)
    (hparallel : streaming.parallel.validate = .ok ())
    (hvalid : request.config.validate = .ok ()) (schedule : List FanIn.Event)
    (hrun : Early streaming onEvent
      ((searcher.quoteEnv request.simConfig).Gives request.amountIn) start run) :
    Concludes streaming onEvent ((searcher.quoteEnv request.simConfig).Gives request.amountIn)
      start (searcher.streamHeuristic request streaming schedule onEvent shouldContinue
        run) := by
  have hgood := goodQuotes_gives (searcher.quoteEnv request.simConfig)
    searcher.quoteContext request.amountIn
  have hsearched := @heuristicSearch_early G searcher κ onEvent request streaming start run _
    hvalid hrun (if streaming.completion = .fastLaneExhausted then .fastLaneOnly else .full)
  unfold streamHeuristic
  simp only at hsearched ⊢
  generalize hsearch : searcher.findRoutesHeuristicWithCacheObserved _ _ _ _ _ _ _ _ _ _ =
    searched
  rw [show searcher.observedSearch (heuristicRequest request) _ _ _ run = searched
    from hsearch] at hsearched
  obtain ⟨after, outcome⟩ := searched
  cases outcome with
  | ok report =>
      simp only
      rcases hsearched with hearly | ⟨hended, other, hother, hstopped⟩
      · have hmarked := hearly.reached.step (.evaluated
          (after.evaluatedPaths ∪ (report.quotes.map RouteQuote.path).toFinset))
        have hfailed := hmarked.advances (.failures .heuristic report.failedCandidates)
        have htotal := (@StreamingSession.observeFailedCandidates_emits κ onEvent streaming
          after.session .heuristic report.failedCandidates).totalCandidates.trans hearly.total
        simp only [advance] at hfailed
        generalize StreamingSession.observeFailedCandidates streaming onEvent after.session
          .heuristic report.failedCandidates = failed at hfailed htotal ⊢
        obtain ⟨session, keep⟩ := failed
        simp only at hfailed htotal ⊢
        rcases hfailed with ⟨rfl, hnext⟩ | ⟨rfl, hnext⟩
        · cases report.stopped with
          | false =>
              exact Early.finishHeuristic_concludes hstart hparallel hgood schedule
                ⟨hnext, htotal⟩ none
          | true => exact finishHeuristic_concludes_stopped hstart schedule (Or.inl hnext) none
        · exact finishHeuristic_concludes_stopped hstart schedule (Or.inr hnext) none
      · obtain rfl := Except.ok.inj hother
        rw [hstopped, Bool.or_true]
        exact finishHeuristic_concludes_stopped hstart schedule
          (Or.inr (hended.counted report.failedCandidates _)) none
  | error error =>
      have hearly : Early streaming onEvent
          ((searcher.quoteEnv request.simConfig).Gives request.amountIn) start after := by
        rcases hsearched with hearly | ⟨_, report, hreport, _⟩
        · exact hearly
        · cases hreport
      have hfinish := @Early.finishHeuristic_concludes G searcher κ onEvent request streaming
        shouldContinue _ start after hstart hparallel hgood schedule hearly (some error)
      cases error with
      | invalidConfig reason => exact .failed hearly.reached _
      | tokenNotFound token => exact .failed hearly.reached _
      | _ => exact hfinish

/-- A stream refuses its controls, or its callback refuses the first event, or it goes
through its steps to a conclusion. -/
theorem streamRoutes_concludes (searcher : AmmSearcher G) (request : RouteRequest)
    (streaming : StreamingSearchConfig) (schedule : List FanIn.Event)
    (onEvent : EventCallback κ) (shouldContinue : Option (ℕ → Bool)) (callback : κ) :
    let result := searcher.streamRoutesParallelWithCache request streaming schedule onEvent
      shouldContinue callback
    let started := StreamRun.emit onEvent ({ session := ⟨.new streaming, callback⟩ } :
      StreamRun κ) (.started streaming.completion)
    (∃ error, result = (callback, .error error)) ∨
      (started.2 = false ∧ result = (started.1.session.callback,
        .ok ⟨started.1.session.state.report .stopped, []⟩)) ∨
      (started.2 = true ∧ streaming.validate = .ok () ∧ Concludes streaming onEvent
        ((searcher.quoteEnv request.simConfig).Gives request.amountIn) started.1 result) := by
  intro result started
  simp only [result]
  unfold streamRoutesParallelWithCache
  cases hstreaming : streaming.validate with
  | error error => exact Or.inl ⟨error, rfl⟩
  | ok validated =>
      cases hvalid : request.config.validate with
      | error error => exact Or.inl ⟨error, rfl⟩
      | ok validated' =>
          right
          cases hkeep : started.2 with
          | false =>
              left
              refine ⟨rfl, ?_⟩
              change (if !started.2 then _ else _) = _
              rw [hkeep]
              rfl
          | true =>
              right
              refine ⟨rfl, rfl, ?_⟩
              change Concludes _ _ _ _ (if !started.2 then _ else _)
              rw [hkeep]
              exact streamHeuristic_concludes (Or.inl rfl) (parallel_of_validate hstreaming)
                hvalid schedule ⟨.start, rfl⟩

end AmmSearcher

end AmmSearch
