/-
The progress of a stream.  Its counts, its best amount, its confidence and its fraction
never step back from one event to the next, so a threshold that was met stays met.
-/
import AmmSearch.StreamingSteps
import AmmSearch.StreamingStop

open FiniteMap StableGraph

namespace AmmSearch

/-- Progress that does not step back. -/
structure RouteSearchProgress.Below (earlier later : RouteSearchProgress) : Prop where
  evaluated : earlier.candidatesEvaluated ≤ later.candidatesEvaluated
  viable : earlier.viableRoutesObserved ≤ later.viableRoutesObserved
  failed : earlier.failedCandidates ≤ later.failedCandidates
  best : ∀ amount ∈ earlier.bestAmountOut, ∃ larger ∈ later.bestAmountOut, amount ≤ larger
  confidence : earlier.confidenceBps ≤ later.confidenceBps
  total : ∀ total ∈ earlier.totalCandidates, later.totalCandidates = some total
  fraction : ∀ bps ∈ earlier.exhaustiveFractionBps,
    ∃ larger ∈ later.exhaustiveFractionBps, bps ≤ larger

namespace RouteSearchProgress.Below

variable {first second third : RouteSearchProgress}

theorem refl (progress : RouteSearchProgress) : progress.Below progress where
  evaluated := le_rfl
  viable := le_rfl
  failed := le_rfl
  best := fun amount hamount => ⟨amount, hamount, le_rfl⟩
  confidence := le_rfl
  total := fun _ htotal => htotal
  fraction := fun bps hbps => ⟨bps, hbps, le_rfl⟩

theorem trans (hfirst : first.Below second) (hsecond : second.Below third) :
    first.Below third where
  evaluated := hfirst.evaluated.trans hsecond.evaluated
  viable := hfirst.viable.trans hsecond.viable
  failed := hfirst.failed.trans hsecond.failed
  best := by
    intro amount hamount
    obtain ⟨larger, hlarger, hle⟩ := hfirst.best amount hamount
    obtain ⟨largest, hlargest, hle'⟩ := hsecond.best larger hlarger
    exact ⟨largest, hlargest, hle.trans hle'⟩
  confidence := hfirst.confidence.trans hsecond.confidence
  total := fun total htotal => hsecond.total total (hfirst.total total htotal)
  fraction := by
    intro bps hbps
    obtain ⟨larger, hlarger, hle⟩ := hfirst.fraction bps hbps
    obtain ⟨largest, hlargest, hle'⟩ := hsecond.fraction larger hlarger
    exact ⟨largest, hlargest, hle.trans hle'⟩

/-- A threshold that was met stays met. -/
theorem isSatisfied (hbelow : first.Below second) (policy : StreamingThresholdPolicy)
    (hsatisfied : policy.isSatisfied first = true) : policy.isSatisfied second = true := by
  have hconfidence : ∀ threshold, decide (threshold ≤ first.confidenceBps) = true →
      decide (threshold ≤ second.confidenceBps) = true := by
    intro threshold hmet
    simp only [decide_eq_true_eq] at hmet ⊢
    exact hmet.trans hbelow.confidence
  have hfraction : ∀ threshold : ℕ,
      (first.exhaustiveFractionBps.any fun fraction => threshold ≤ fraction) = true →
        (second.exhaustiveFractionBps.any fun fraction => threshold ≤ fraction) = true := by
    intro threshold hmet
    obtain ⟨bps, hbps, hle⟩ := (Option.any_eq_true _ _).mp hmet
    obtain ⟨larger, hlarger, hle'⟩ := hbelow.fraction bps hbps
    rw [hlarger, Option.any_some, decide_eq_true_eq]
    exact (decide_eq_true_eq.mp hle).trans hle'
  obtain ⟨mode, minConfidence, minFraction⟩ := policy
  unfold StreamingThresholdPolicy.isSatisfied at hsatisfied ⊢
  cases mode with
  | all =>
      simp only [Bool.and_eq_true] at hsatisfied ⊢
      constructor
      · cases minConfidence with
        | none => rfl
        | some threshold => exact hconfidence threshold hsatisfied.1
      · cases minFraction with
        | none => rfl
        | some threshold => exact hfraction threshold hsatisfied.2
  | any =>
      simp only [Bool.or_eq_true] at hsatisfied ⊢
      rcases hsatisfied with hmet | hmet
      · left
        cases minConfidence with
        | none => cases hmet
        | some threshold => exact hconfidence threshold hmet
      · right
        cases minFraction with
        | none => cases hmet
        | some threshold => exact hfraction threshold hmet

end RouteSearchProgress.Below

namespace StreamingRouteState

/-- A state that has found and counted no less than the other. -/
structure Grows (before after : StreamingRouteState) : Prop where
  routes : before.routesObserved ≤ after.routesObserved
  failed : before.failedCandidates ≤ after.failedCandidates
  best : ∀ quote ∈ before.best, ∃ larger ∈ after.best, quote.amountOut ≤ larger.amountOut
  completed : before.heuristicPhaseCompleted = true → after.heuristicPhaseCompleted = true
  total : ∀ total ∈ before.totalCandidates, after.totalCandidates = some total

variable {before middle after : StreamingRouteState}

theorem Emits.grows (hemits : before.Emits after) : before.Grows after where
  routes := hemits.routesObserved.ge
  failed := hemits.failedCandidates.ge
  best := fun quote hquote => ⟨quote, hemits.best.trans hquote, le_rfl⟩
  completed := fun hcompleted => hemits.heuristicPhaseCompleted.trans hcompleted
  total := fun _ htotal => hemits.totalCandidates.trans htotal

theorem Grows.trans (hfirst : before.Grows middle) (hsecond : middle.Grows after) :
    before.Grows after where
  routes := hfirst.routes.trans hsecond.routes
  failed := hfirst.failed.trans hsecond.failed
  best := by
    intro quote hquote
    obtain ⟨larger, hlarger, hle⟩ := hfirst.best quote hquote
    obtain ⟨largest, hlargest, hle'⟩ := hsecond.best larger hlarger
    exact ⟨largest, hlargest, hle.trans hle'⟩
  completed := fun hcompleted => hsecond.completed (hfirst.completed hcompleted)
  total := fun total htotal => hsecond.total total (hfirst.total total htotal)

theorem Grows.evaluated (hgrows : before.Grows after) :
    before.candidatesEvaluated ≤ after.candidatesEvaluated :=
  Nat.add_le_add hgrows.routes hgrows.failed

theorem Grows.fraction (hgrows : before.Grows after) :
    ∀ bps ∈ before.exhaustiveFractionBps,
      ∃ larger ∈ after.exhaustiveFractionBps, bps ≤ larger := by
  intro bps hbps
  obtain ⟨total, htotal, rfl⟩ := Option.map_eq_some_iff.mp hbps
  refine ⟨_, Option.map_eq_some_iff.mpr ⟨total, hgrows.total total htotal, rfl⟩, ?_⟩
  split
  · exact le_rfl
  · have hcapped : min before.candidatesEvaluated total ≤
        min after.candidatesEvaluated total := min_le_min_right total hgrows.evaluated
    apply min_le_min_right
    apply Nat.div_le_div_right
    exact min_le_min_right usizeMax (Nat.mul_le_mul_right 10000 hcapped)

theorem confidenceBps_le (state : StreamingRouteState) (fraction : Option ℕ) :
    state.confidenceBps fraction ≤ 9999 := by
  unfold confidenceBps
  split
  · exact Nat.zero_le _
  · split
    · exact le_rfl
    · split
      · exact min_le_right _ _
      · split
        · exact Nat.le_of_ble_eq_true rfl
        · exact Nat.le_of_ble_eq_true rfl

/-- Every known candidate was evaluated. -/
def isFull (state : StreamingRouteState) : Bool :=
  state.totalCandidates.any fun total => 0 < total ∧ total ≤ state.candidatesEvaluated

theorem Grows.isFull (hgrows : before.Grows after) (hfull : before.isFull = true) :
    after.isFull = true := by
  obtain ⟨total, htotal, hle⟩ := (Option.any_eq_true _ _).mp hfull
  rw [decide_eq_true_eq] at hle
  unfold StreamingRouteState.isFull
  rw [hgrows.total total htotal, Option.any_some, decide_eq_true_eq]
  exact ⟨hle.1, hle.2.trans hgrows.evaluated⟩

theorem Grows.confidence (hgrows : before.Grows after) :
    before.confidenceBps before.exhaustiveFractionBps ≤
      after.confidenceBps after.exhaustiveFractionBps := by
  have hfraction := hgrows.fraction
  have hfull := hgrows.isFull
  unfold StreamingRouteState.isFull at hfull
  cases hbest : before.best with
  | none => simp [confidenceBps, hbest]
  | some best =>
      obtain ⟨larger, hlarger, _⟩ := hgrows.best best hbest
      simp only [confidenceBps, hbest, show after.best = some larger from hlarger,
        Option.isNone_some, Bool.false_eq_true, if_false]
      by_cases hafter : (after.totalCandidates.any fun total =>
          decide (0 < total ∧ total ≤ after.candidatesEvaluated)) = true
      · -- all candidates were evaluated in the later state
        rw [if_pos hafter]
        have hbound := before.confidenceBps_le before.exhaustiveFractionBps
        simpa only [confidenceBps, hbest, Option.isNone_some, Bool.false_eq_true, if_false]
          using hbound
      · rw [if_neg hafter, if_neg fun hbefore => hafter (hfull hbefore)]
        cases hbps : before.exhaustiveFractionBps with
        | some bps =>
            obtain ⟨later, hlater, hle⟩ := hfraction bps hbps
            rw [show after.exhaustiveFractionBps = some later from hlater]
            apply min_le_min_right
            exact Nat.add_le_add_left (Nat.div_le_div_right hle) 9000
        | none =>
            cases after.exhaustiveFractionBps with
            | some bps =>
                simp only
                split
                · omega
                · omega
            | none =>
                simp only
                split
                · rename_i hcompleted
                  rw [if_pos (hgrows.completed hcompleted)]
                · split
                  · omega
                  · exact le_rfl

/-- Progress of a state that has grown does not step back. -/
theorem Grows.below (hgrows : before.Grows after) : before.progress.Below after.progress where
  evaluated := hgrows.evaluated
  viable := hgrows.routes
  failed := hgrows.failed
  best := by
    intro amount hamount
    obtain ⟨quote, hquote, rfl⟩ := Option.map_eq_some_iff.mp hamount
    obtain ⟨larger, hlarger, hle⟩ := hgrows.best quote hquote
    exact ⟨_, Option.map_eq_some_iff.mpr ⟨larger, hlarger, rfl⟩, hle⟩
  confidence := hgrows.confidence
  total := hgrows.total
  fraction := hgrows.fraction

/-- The final progress of a complete search is not below the last one. -/
theorem below_finalProgress (state : StreamingRouteState) (finality : SearchFinality) :
    state.progress.Below (state.finalProgress finality) := by
  unfold finalProgress
  split
  · have hrefl := RouteSearchProgress.Below.refl state.progress
    refine ⟨hrefl.evaluated, hrefl.viable, hrefl.failed, hrefl.best, ?_, hrefl.total, ?_⟩
    · change state.confidenceBps state.exhaustiveFractionBps ≤ _
      cases hbest : state.best with
      | none => simp [confidenceBps, hbest]
      | some best => exact (confidenceBps_le _ _).trans (by simp)
    · intro bps hbps
      obtain ⟨total, _, rfl⟩ := Option.map_eq_some_iff.mp hbps
      refine ⟨10000, rfl, ?_⟩
      split
      · exact le_rfl
      · exact min_le_right _ _
  · exact .refl _

end StreamingRouteState

/-- The progress that an event carries. -/
def RouteSearchEvent.progress? : RouteSearchEvent → Option RouteSearchProgress
  | .progress current => some current
  | .initialResultsReady current _ _ => some current
  | .completed report => some report.progress
  | _ => none

namespace EventLog

/-- The progress of the events, in order. -/
def progresses (log : EventLog) : List RouteSearchProgress :=
  log.filterMap fun entry => entry.1.progress?

/-- The callback stops the stream when it is handed the results of a search that is
complete. -/
def RefusesFinal (log : EventLog) : Prop :=
  ∃ progress best topRoutes,
    (RouteSearchEvent.initialResultsReady progress best topRoutes, SearchControl.stop) ∈ log ∧
      progress.confidenceBps = 10000

theorem progresses_append (first second : EventLog) :
    progresses (first ++ second) = first.progresses ++ second.progresses :=
  List.filterMap_append

theorem progresses_concat (log : EventLog) (event : RouteSearchEvent)
    (answer : SearchControl) :
    progresses (log ++ [(event, answer)]) = log.progresses ++ event.progress?.toList := by
  unfold progresses
  rw [List.filterMap_append]
  cases hprogress : event.progress? with
  | none => simp [hprogress]
  | some current => simp [hprogress]

end EventLog

namespace StreamingSession

variable {κ : Type} {onEvent : EventCallback κ} {streaming : StreamingSearchConfig}

/-- The events of the session never step back, and none is ahead of its state. -/
structure Steady (session : StreamingSession (κ × EventLog)) : Prop where
  events : session.log.progresses.Pairwise RouteSearchProgress.Below
  current : ∀ progress ∈ session.log.progresses, progress.Below session.state.progress

variable {session : StreamingSession (κ × EventLog)}

theorem Steady.grows (hsession : session.Steady) {state : StreamingRouteState}
    (hgrows : session.state.Grows state) : Steady { session with state := state } :=
  ⟨hsession.events, fun progress hprogress =>
    (hsession.current progress hprogress).trans hgrows.below⟩

/-- One more event, between the state before it and the state after it. -/
theorem Steady.concat (hsession : session.Steady) {state : StreamingRouteState}
    (hgrows : session.state.Grows state) {event : RouteSearchEvent}
    (hevent : ∀ progress, event.progress? = some progress →
      session.state.progress.Below progress ∧ progress.Below state.progress)
    (answer : SearchControl) (callback : κ) :
    Steady ⟨state, (callback, session.log ++ [(event, answer)])⟩ := by
  have hlog : log ⟨state, (callback, session.log ++ [(event, answer)])⟩ =
      session.log ++ [(event, answer)] := rfl
  constructor
  · rw [hlog, EventLog.progresses_concat, List.pairwise_append]
    refine ⟨hsession.events, ?_, ?_⟩
    · cases event.progress? with
      | none => exact List.Pairwise.nil
      | some progress => exact List.pairwise_singleton _ _
    · intro earlier hearlier later hlater
      exact (hsession.current earlier hearlier).trans
        (hevent later (Option.mem_toList.mp hlater)).1
  · rw [hlog, EventLog.progresses_concat]
    intro progress hprogress
    rcases List.mem_append.mp hprogress with hold | hnew
    · exact (hsession.current progress hold).trans hgrows.below
    · exact (hevent progress (Option.mem_toList.mp hnew)).2

/-- An event that carries the progress of the state, or none. -/
theorem Steady.emitOrStop (hsession : session.Steady) {event : RouteSearchEvent}
    (hevent : ∀ progress, event.progress? = some progress →
      progress = session.state.progress) :
    (session.emitOrStop (logged onEvent) event).1.Steady := by
  have hbetween : ∀ progress, event.progress? = some progress →
      session.state.progress.Below progress ∧ progress.Below session.state.progress := by
    intro progress hprogress
    rw [hevent progress hprogress]
    exact ⟨.refl _, .refl _⟩
  have hrefl : session.state.Grows session.state :=
    (StreamingRouteState.Emits.refl session.state).grows
  obtain ⟨callback, hcontinue | hstop⟩ := @emitOrStop_logged κ onEvent session event
  · rw [hcontinue]
    exact hsession.concat hrefl hbetween .continue callback
  · have hstopped : session.state.Grows
        { session.state with stopFinality := some .stopped } :=
      ⟨hrefl.routes, hrefl.failed, hrefl.best, hrefl.completed, hrefl.total⟩
    rw [hstop]
    exact hsession.concat hstopped hbetween .stop callback

theorem Steady.releaseInitialResults (hsession : session.Steady)
    {progress : RouteSearchProgress} (hprogress : progress = session.state.progress) :
    (session.releaseInitialResults (logged onEvent) progress).1.Steady := by
  unfold StreamingSession.releaseInitialResults
  split
  · exact hsession
  · have hreleased : Steady
        { session with state := { session.state with initialResultsReleased := true } } :=
      ⟨hsession.events, hsession.current⟩
    apply hreleased.emitOrStop
    intro current hcurrent
    cases hcurrent
    exact hprogress

theorem Steady.emitProgressAndApplyPolicies (hsession : session.Steady)
    (phase : RouteSearchPhase) :
    (session.emitProgressAndApplyPolicies streaming (logged onEvent) phase).1.Steady := by
  have hphase : Steady
      { session with state := { session.state with progressPhase := some phase } } := by
    apply hsession.grows
    exact StreamingRouteState.Emits.grows ⟨rfl, rfl, rfl, rfl, rfl, rfl, rfl, Or.inl rfl⟩
  unfold StreamingSession.emitProgressAndApplyPolicies
  generalize ({ session with
    state := { session.state with progressPhase := some phase } } :
      StreamingSession (κ × EventLog)) = entered at hphase ⊢
  simp only
  have hemitted : (entered.emitOrStop (logged onEvent)
      (.progress entered.state.progress)).1.Steady := by
    apply hphase.emitOrStop
    intro current hcurrent
    exact (Option.some.inj hcurrent).symm
  have hprogress : (entered.emitOrStop (logged onEvent)
      (.progress entered.state.progress)).1.state.progress = entered.state.progress := by
    simp only [StreamingSession.emitOrStop]
    split <;> rfl
  generalize StreamingSession.emitOrStop (logged onEvent) entered _ = emitted
    at hemitted hprogress ⊢
  obtain ⟨emitted, keep⟩ := emitted
  simp only at hemitted hprogress ⊢
  split
  · exact hemitted
  · have hreleased : (if releasesInitialResults streaming emitted.state
        entered.state.progress then
        emitted.releaseInitialResults (logged onEvent) entered.state.progress
      else (emitted, true)).1.Steady := by
      split
      · exact hemitted.releaseInitialResults hprogress.symm
      · exact hemitted
    generalize (if releasesInitialResults streaming emitted.state _ = true then _ else _) =
      released at hreleased ⊢
    obtain ⟨released, keep⟩ := released
    simp only at hreleased ⊢
    split
    · exact hreleased
    · split
      · exact ⟨hreleased.events, hreleased.current⟩
      · exact hreleased

theorem Steady.emitRouteFound (hsession : session.Steady) (phase : RouteSearchPhase)
    (rank : Option ℕ) (quote : RouteQuote) :
    (session.emitRouteFound streaming (logged onEvent) phase rank quote).1.Steady := by
  unfold StreamingSession.emitRouteFound
  split
  · exact hsession.emitOrStop nofun
  · exact hsession

theorem Steady.emitObserved (hsession : session.Steady) (phase : RouteSearchPhase)
    (releasedBefore : Bool) (rank : Option ℕ) (quote : RouteQuote)
    (improvement : Option (Option RouteQuote)) :
    (session.emitObserved streaming (logged onEvent) phase releasedBefore rank quote
      improvement).1.Steady := by
  have hprogress := @Steady.emitProgressAndApplyPolicies κ onEvent streaming session hsession
    phase
  unfold StreamingSession.emitObserved
  generalize StreamingSession.emitProgressAndApplyPolicies streaming (logged onEvent) session
    phase = emitted at hprogress ⊢
  obtain ⟨next, keep⟩ := emitted
  simp only at hprogress ⊢
  split
  · exact hprogress
  · split
    · exact hprogress
    · split
      · exact hprogress.emitRouteFound _ _ _
      · rename_i previous
        have hupdated : (next.emitOrStop (logged onEvent)
            (.bestUpdated phase quote previous .provisional)).1.Steady :=
          hprogress.emitOrStop nofun
        generalize StreamingSession.emitOrStop (logged onEvent) next _ = updated
          at hupdated ⊢
        obtain ⟨updated, keep⟩ := updated
        simp only at hupdated ⊢
        split
        · exact hupdated
        · exact hupdated.emitRouteFound _ _ _

/-- A state with one more quote has grown. -/
theorem rankQuote_grows (phase : RouteSearchPhase) (state : StreamingRouteState)
    (quote : RouteQuote) : state.Grows (rankQuote streaming phase state quote) := by
  obtain ⟨_, _, hfailed, hcompleted, htotal, _, _⟩ :=
    @recordTopRoute_counts streaming state quote
  refine ⟨Nat.le_succ _, hfailed.ge, ?_, fun hdone => hcompleted.trans hdone,
    fun total hknown => htotal.trans hknown⟩
  intro best hbest
  have hbest : state.best = some best := hbest
  by_cases hlarger : best.amountOut < quote.amountOut
  · exact ⟨quote, by simp [rankQuote, hbest, hlarger], hlarger.le⟩
  · exact ⟨best, by simp [rankQuote, hbest, hlarger], le_rfl⟩

theorem Steady.observeQuote (hsession : session.Steady) (phase : RouteSearchPhase)
    (quote : RouteQuote) :
    (session.observeQuote streaming (logged onEvent) phase quote).1.Steady := by
  obtain ⟨state, rank, hranked, _, hobserve⟩ :=
    @observeQuote_eq_emitObserved (κ × EventLog) (logged onEvent) streaming session phase quote
  rw [hobserve]
  apply Steady.emitObserved
  exact hsession.grows ((rankQuote_grows phase session.state quote).trans hranked.grows)

theorem Steady.observeFailedCandidates (hsession : session.Steady) (phase : RouteSearchPhase)
    (count : ℕ) :
    (session.observeFailedCandidates streaming (logged onEvent) phase count).1.Steady := by
  unfold StreamingSession.observeFailedCandidates
  split
  · exact hsession
  · apply Steady.emitProgressAndApplyPolicies
    apply hsession.grows
    exact ⟨le_rfl, Nat.le_add_right _ _, fun quote hquote => ⟨quote, hquote, le_rfl⟩, id,
      fun _ htotal => htotal⟩

theorem Steady.finishHeuristicPhase (hsession : session.Steady) :
    (session.finishHeuristicPhase streaming (logged onEvent)).1.Steady := by
  apply Steady.emitProgressAndApplyPolicies
  apply hsession.grows
  exact ⟨le_rfl, le_rfl, fun quote hquote => ⟨quote, hquote, le_rfl⟩, fun _ => rfl,
    fun _ htotal => htotal⟩

/-- The total does not change once it is known. -/
theorem Steady.setTotalCandidates (hsession : session.Steady)
    (hnew : session.state.totalCandidates = none) (total : ℕ) :
    (session.setTotalCandidates streaming (logged onEvent) total).1.Steady := by
  apply Steady.emitProgressAndApplyPolicies
  apply hsession.grows
  refine ⟨le_rfl, le_rfl, fun quote hquote => ⟨quote, hquote, le_rfl⟩, id, ?_⟩
  intro known hknown
  rw [hnew] at hknown
  cases hknown

end StreamingSession

namespace StreamRun

variable {κ : Type} {onEvent : EventCallback κ} {streaming : StreamingSearchConfig}
  {good : RouteQuote → Prop} {start run : StreamRun (κ × EventLog)}
  {result : StreamRun (κ × EventLog) × Bool}

theorem Step.steady (hrun : run.session.Steady)
    (hstep : Step streaming (logged onEvent) good run result) : result.1.session.Steady := by
  cases hstep with
  | heuristicQuote quote hquote => exact hrun.observeQuote .heuristic quote
  | exhaustiveQuote quote hquote => exact hrun.observeQuote .exhaustive quote
  | failures phase count => exact hrun.observeFailedCandidates phase count
  | evaluated paths => exact hrun
  | heuristicDone => exact hrun.finishHeuristicPhase
  | phaseCompleted phase =>
      have hcarries : ∀ progress, (RouteSearchEvent.phaseCompleted phase
          run.session.state.phaseStats).progress? = some progress →
            run.session.state.progress.Below progress ∧
              progress.Below run.session.state.progress := nofun
      exact hrun.concat (StreamingRouteState.Emits.refl _).grows hcarries _ _
  | skipped duplicates => exact hrun.grows (StreamingRouteState.Emits.grows
      ⟨rfl, rfl, rfl, rfl, rfl, rfl, rfl, Or.inl rfl⟩)
  | total count hnew => exact hrun.setTotalCandidates hnew count
  | exhaustiveDone => exact hrun.grows (StreamingRouteState.Emits.grows
      ⟨rfl, rfl, rfl, rfl, rfl, rfl, rfl, Or.inl rfl⟩)

end StreamRun

/-- The progress of the events of a stream, in order, and then that of its report. -/
def streamProgress {κ : Type}
    (result : (κ × EventLog) × Except SearchError StreamingRunReport) :
    List RouteSearchProgress :=
  result.1.2.progresses ++ (result.2.toOption.map fun run => run.report.progress).toList

/-- The release of gated results at the end of a complete search, after which at most the
completed report is emitted. -/
def ReleasesFinal {κ : Type} (result : (κ × EventLog) × Except SearchError StreamingRunReport)
    (entry : RouteSearchEvent × SearchControl) : Prop :=
  entry.1.isInitialResults = true ∧
    (∃ before completed, result.1.2 = before ++ entry :: completed ∧
      (completed = [] ∨ ∃ report answer, completed = [(.completed report, answer)])) ∧
    (entry.2 = .continue → ∃ run, result.2 = .ok run ∧ run.report.finality = .exhaustive)

/-- A stream whose progress never steps back.  Full confidence is shown by the report of
a complete search and by the release before it; a callback that stops the stream at that
release gets a report that is not complete. -/
structure StaysSteady {κ : Type}
    (result : (κ × EventLog) × Except SearchError StreamingRunReport) : Prop where
  running : (EventLog.progresses (result.1.2.filter fun entry =>
    !entry.1.isCompleted)).Pairwise RouteSearchProgress.Below
  whole : ¬ result.1.2.RefusesFinal →
    (streamProgress result).Pairwise RouteSearchProgress.Below
  bounds : ∀ progress ∈ streamProgress result, progress.confidenceBps ≤ 10000 ∧
    ∀ bps ∈ progress.exhaustiveFractionBps, bps ≤ 10000
  events : ∀ entry ∈ result.1.2, ∀ progress, entry.1.progress? = some progress →
    progress.confidenceBps = 10000 →
      (∃ report, entry.1 = .completed report ∧ report.finality = .exhaustive) ∨
        ReleasesFinal result entry
  report : ∀ run, result.2 = .ok run → run.report.progress.confidenceBps = 10000 →
    run.report.finality = .exhaustive

namespace StreamingRouteState

theorem fraction_le (state : StreamingRouteState) :
    ∀ bps ∈ state.exhaustiveFractionBps, bps ≤ 10000 := by
  intro bps hbps
  obtain ⟨total, _, rfl⟩ := Option.map_eq_some_iff.mp hbps
  split
  · exact le_rfl
  · exact min_le_right _ _

theorem finalProgress_bounds (state : StreamingRouteState) (finality : SearchFinality) :
    (state.finalProgress finality).confidenceBps ≤ 10000 ∧
      ∀ bps ∈ (state.finalProgress finality).exhaustiveFractionBps, bps ≤ 10000 := by
  unfold finalProgress
  split
  · constructor
    · simp only
      split
      · exact le_rfl
      · exact Nat.zero_le _
    · intro bps hbps
      exact (Option.some.inj hbps).symm.le
  · constructor
    · exact (confidenceBps_le _ _).trans (Nat.le_succ _)
    · exact fraction_le state

/-- Only a complete search is shown with full confidence. -/
theorem finality_of_confidence {state : StreamingRouteState} {finality : SearchFinality}
    (hfull : (state.finalProgress finality).confidenceBps = 10000) :
    finality = .exhaustive := by
  by_contra hother
  rw [finalProgress, if_neg hother] at hfull
  have hbound := state.confidenceBps_le state.exhaustiveFractionBps
  rw [show state.confidenceBps state.exhaustiveFractionBps = 10000 from hfull] at hbound
  exact absurd hbound (by decide)

theorem finalProgress_of_ne {state : StreamingRouteState} {finality : SearchFinality}
    (hother : finality ≠ .exhaustive) : state.finalProgress finality = state.progress :=
  if_neg hother

end StreamingRouteState

section Conclusion

variable {κ : Type} {onEvent : EventCallback κ} {streaming : StreamingSearchConfig}

open StreamingRouteState

theorem StreamingSession.Steady.confidence {session : StreamingSession (κ × EventLog)}
    (hsession : session.Steady) {progress : RouteSearchProgress}
    (hprogress : progress ∈ session.log.progresses) : progress.confidenceBps ≤ 9999 :=
  (hsession.current progress hprogress).confidence.trans (confidenceBps_le _ _)

theorem StreamingSession.Steady.fraction {session : StreamingSession (κ × EventLog)}
    (hsession : session.Steady) {progress : RouteSearchProgress}
    (hprogress : progress ∈ session.log.progresses) :
    ∀ bps ∈ progress.exhaustiveFractionBps, bps ≤ 10000 := by
  intro bps hbps
  obtain ⟨larger, hlarger, hle⟩ := (hsession.current progress hprogress).fraction bps hbps
  exact hle.trans (fraction_le session.state larger hlarger)

/-- Nothing but one final progress follows a steady session. -/
theorem StreamingSession.Steady.append {session : StreamingSession (κ × EventLog)}
    (hsession : session.Steady) {final : RouteSearchProgress}
    (hfinal : session.state.progress.Below final) {rest : List RouteSearchProgress}
    (hrest : ∀ progress ∈ rest, progress = final) :
    (session.log.progresses ++ rest).Pairwise RouteSearchProgress.Below := by
  rw [List.pairwise_append]
  refine ⟨hsession.events, ?_, ?_⟩
  · apply List.pairwise_of_forall_mem_list
    intro first hfirst second hsecond
    rw [hrest first hfirst, hrest second hsecond]
    exact .refl final
  · intro earlier hearlier later hlater
    rw [hrest later hlater]
    exact (hsession.current earlier hearlier).trans hfinal

theorem progress_mem_of_entry {log : EventLog} {entry : RouteSearchEvent × SearchControl}
    (hentry : entry ∈ log) {progress : RouteSearchProgress}
    (hprogress : entry.1.progress? = some progress) : progress ∈ log.progresses :=
  List.mem_filterMap.mpr ⟨entry, hentry, hprogress⟩

theorem StreamingSession.Steady.fail {run : StreamRun (κ × EventLog)}
    (hrun : run.session.Steady) (error : SearchError) : StaysSteady (run.fail error) where
  running := hrun.events.sublist (List.filter_sublist.filterMap _)
  whole := fun _ => by
    rw [streamProgress]
    exact hrun.append (.refl _) nofun
  bounds := by
    intro progress hprogress
    have hlog : progress ∈ run.session.log.progresses :=
      (List.mem_append.mp hprogress).resolve_right List.not_mem_nil
    exact ⟨(hrun.confidence hlog).trans (Nat.le_succ _), hrun.fraction hlog⟩
  events := by
    intro entry hentry progress hprogress hfull
    have hbound := hrun.confidence (progress_mem_of_entry hentry hprogress)
    rw [hfull] at hbound
    exact absurd hbound (by decide)
  report := by
    intro report hreport
    cases hreport

/-- What the end of a stream adds to its session: perhaps a release, and perhaps the
completed report. -/
structure Closing (run : StreamRun (κ × EventLog)) (finality : SearchFinality)
    (result : (κ × EventLog) × Except SearchError StreamingRunReport)
    (report : StreamingSearchReport) (released completed : EventLog) : Prop where
  returned : result.2 = .ok ⟨report, run.observedQuotes⟩
  log : result.1.2 = run.session.log ++ (released ++ completed)
  completion : completed = [] ∨ ∃ answer, completed = [(.completed report, answer)]
  release : released = [] ∨ run.session.state.best.isSome = true ∧
    ∃ best topRoutes answer, released =
      [(.initialResultsReady (run.session.state.finalProgress finality) best topRoutes,
        answer)]
  progress : report.progress = run.session.state.finalProgress report.finality
  accepted : (∀ entry ∈ released, entry.2 = .continue) → report.finality = finality
  refused : (∃ entry ∈ released, entry.2 = .stop) → report.finality = .stopped

theorem closing_finish (run : StreamRun (κ × EventLog)) (finality : SearchFinality)
    (emitCompleted : Bool) :
    ∃ report released completed, Closing run finality
      (run.finish streaming (logged onEvent) finality emitCompleted) report released
        completed := by
  obtain ⟨report, released, completed, hreport, hlog, hcompleted, hreleased⟩ :=
    @StreamRun.finish_logged κ onEvent streaming run finality emitCompleted
  refine ⟨report, released, completed, hreport, hlog, hcompleted, ?_, ?_, ?_, ?_⟩
  · rcases hreleased with ⟨rfl, _⟩ | ⟨_, _, best, answer, hbest, rfl, _⟩
    · exact Or.inl rfl
    · exact Or.inr ⟨by rw [hbest]; rfl, best, _, answer, rfl⟩
  · rcases hreleased with ⟨_, rfl, _⟩ | ⟨_, _, best, answer, _, _, rfl⟩
    · rfl
    · rfl
  · intro haccepted
    rcases hreleased with ⟨_, rfl, _⟩ | ⟨_, _, best, answer, _, rfl, rfl⟩
    · rfl
    · exact if_pos (haccepted _ List.mem_cons_self)
  · rintro ⟨entry, hentry, hstop⟩
    rcases hreleased with ⟨rfl, _⟩ | ⟨_, _, best, answer, _, rfl, rfl⟩
    · cases hentry
    · obtain rfl := List.mem_singleton.mp hentry
      obtain rfl : answer = .stop := hstop
      rfl

section Closing

variable {run : StreamRun (κ × EventLog)} {finality : SearchFinality}
  {result : (κ × EventLog) × Except SearchError StreamingRunReport}
  {report : StreamingSearchReport} {released completed : EventLog}

namespace Closing

/-- The completed event shows the report. -/
theorem event_completed (hclosing : Closing run finality result report released completed)
    {entry : RouteSearchEvent × SearchControl} (hentry : entry ∈ completed) :
    entry.1 = .completed report := by
  rcases hclosing.completion with rfl | ⟨answer, rfl⟩
  · cases hentry
  · rw [List.mem_singleton.mp hentry]

theorem progress_completed (hclosing : Closing run finality result report released completed)
    {progress : RouteSearchProgress} (hmem : progress ∈ EventLog.progresses completed) :
    progress = report.progress := by
  obtain ⟨entry, hentry, hcarries⟩ := List.mem_filterMap.mp hmem
  rw [hclosing.event_completed hentry] at hcarries
  exact (Option.some.inj hcarries).symm

theorem progress_released (hclosing : Closing run finality result report released completed)
    {progress : RouteSearchProgress} (hmem : progress ∈ EventLog.progresses released) :
    progress = run.session.state.finalProgress finality := by
  rcases hclosing.release with rfl | ⟨_, best, topRoutes, answer, rfl⟩
  · cases hmem
  · exact List.mem_singleton.mp hmem

/-- The report shows the progress of the release, unless the callback refuses that of a
complete search. -/
theorem progress_report (hclosing : Closing run finality result report released completed)
    (haccepted : ¬ result.1.2.RefusesFinal) :
    report.progress = run.session.state.finalProgress finality := by
  rw [hclosing.progress]
  by_cases hcontinued : ∀ entry ∈ released, entry.2 = .continue
  · rw [hclosing.accepted hcontinued]
  · have hrefused : ∃ entry ∈ released, entry.2 = .stop := by
      by_contra hnone
      apply hcontinued
      intro entry hentry
      cases hanswer : entry.2 with
      | «continue» => rfl
      | stop => exact absurd ⟨entry, hentry, hanswer⟩ hnone
    have hother : finality ≠ .exhaustive := by
      rintro rfl
      apply haccepted
      obtain ⟨entry, hentry, hstop⟩ := hrefused
      rcases hclosing.release with rfl | ⟨hbest, best, topRoutes, answer, rfl⟩
      · cases hentry
      · obtain rfl := List.mem_singleton.mp hentry
        obtain rfl : answer = .stop := hstop
        refine ⟨run.session.state.finalProgress .exhaustive, best, topRoutes, ?_, ?_⟩
        · rw [hclosing.log]
          exact List.mem_append_right _ (List.mem_append_left _ List.mem_cons_self)
        · simp [finalProgress, hbest]
    rw [hclosing.refused hrefused, finalProgress_of_ne (by decide),
      finalProgress_of_ne hother]

/-- The events before the completed report. -/
theorem running (hclosing : Closing run finality result report released completed)
    (hrun : run.session.Steady) :
    (EventLog.progresses (result.1.2.filter fun entry =>
      !entry.1.isCompleted)).Pairwise RouteSearchProgress.Below := by
  have hfront : (EventLog.progresses (run.session.log ++ released)).Pairwise
      RouteSearchProgress.Below := by
    rw [EventLog.progresses_append]
    exact hrun.append (below_finalProgress _ _) fun _ => hclosing.progress_released
  have hdropped : (completed.filter fun entry => !entry.1.isCompleted) = [] := by
    rw [List.filter_eq_nil_iff]
    intro entry hentry
    rw [hclosing.event_completed hentry]
    exact Bool.false_ne_true
  rw [hclosing.log, ← List.append_assoc, List.filter_append, hdropped, List.append_nil]
  exact hfront.sublist (List.filter_sublist.filterMap _)

theorem whole (hclosing : Closing run finality result report released completed)
    (hrun : run.session.Steady) (haccepted : ¬ result.1.2.RefusesFinal) :
    (streamProgress result).Pairwise RouteSearchProgress.Below := by
  have hreport := hclosing.progress_report haccepted
  unfold streamProgress
  rw [hclosing.returned, hclosing.log, EventLog.progresses_append, List.append_assoc,
    EventLog.progresses_append]
  apply hrun.append (below_finalProgress _ _)
  intro progress hmem
  rcases List.mem_append.mp hmem with hevents | hreported
  · rcases List.mem_append.mp hevents with hnew | hend
    · exact hclosing.progress_released hnew
    · exact (hclosing.progress_completed hend).trans hreport
  · exact (List.mem_singleton.mp hreported).trans hreport

theorem bounds (hclosing : Closing run finality result report released completed)
    (hrun : run.session.Steady) : ∀ progress ∈ streamProgress result,
      progress.confidenceBps ≤ 10000 ∧ ∀ bps ∈ progress.exhaustiveFractionBps,
        bps ≤ 10000 := by
  have hreport : report.progress.confidenceBps ≤ 10000 ∧
      ∀ bps ∈ report.progress.exhaustiveFractionBps, bps ≤ 10000 := by
    rw [hclosing.progress]
    exact finalProgress_bounds _ _
  intro progress hmem
  unfold streamProgress at hmem
  rw [hclosing.returned, hclosing.log, EventLog.progresses_append, List.append_assoc,
    EventLog.progresses_append, List.mem_append, List.mem_append, List.mem_append] at hmem
  rcases hmem with hold | (hnew | hend) | hreported
  · exact ⟨(hrun.confidence hold).trans (Nat.le_succ _), hrun.fraction hold⟩
  · rw [hclosing.progress_released hnew]
    exact finalProgress_bounds _ _
  · rw [hclosing.progress_completed hend]
    exact hreport
  · rw [List.mem_singleton.mp hreported]
    exact hreport

theorem events (hclosing : Closing run finality result report released completed)
    (hrun : run.session.Steady) : ∀ entry ∈ result.1.2, ∀ progress,
      entry.1.progress? = some progress → progress.confidenceBps = 10000 →
      (∃ report, entry.1 = .completed report ∧ report.finality = .exhaustive) ∨
        ReleasesFinal result entry := by
  intro entry hentry progress hcarries hfull
  rw [hclosing.log, List.mem_append, List.mem_append] at hentry
  rcases hentry with hold | hnew | hend
  · have hbound := hrun.confidence (progress_mem_of_entry hold hcarries)
    rw [hfull] at hbound
    exact absurd hbound (by decide)
  · right
    have hcomplete : finality = .exhaustive := by
      rw [hclosing.progress_released (progress_mem_of_entry hnew hcarries)] at hfull
      exact finality_of_confidence hfull
    have hfinality := hclosing.accepted
    have hlog := hclosing.log
    rcases hclosing.release with rfl | ⟨_, best, topRoutes, answer, rfl⟩
    · cases hnew
    · obtain rfl := List.mem_singleton.mp hnew
      refine ⟨rfl, ⟨run.session.log, completed, hlog, ?_⟩, ?_⟩
      · rcases hclosing.completion with hnone | ⟨answer, hsome⟩
        · exact Or.inl hnone
        · exact Or.inr ⟨report, answer, hsome⟩
      · intro hcontinues
        refine ⟨_, hclosing.returned, (hfinality ?_).trans hcomplete⟩
        intro other hother
        rw [List.mem_singleton.mp hother]
        exact hcontinues
  · left
    have hevent := hclosing.event_completed hend
    refine ⟨report, hevent, ?_⟩
    rw [hclosing.progress_completed (progress_mem_of_entry hend hcarries),
      hclosing.progress] at hfull
    exact finality_of_confidence hfull

theorem staysSteady (hclosing : Closing run finality result report released completed)
    (hrun : run.session.Steady) : StaysSteady result where
  running := hclosing.running hrun
  whole := hclosing.whole hrun
  bounds := hclosing.bounds hrun
  events := hclosing.events hrun
  report := by
    intro other hother hfull
    rw [hclosing.returned] at hother
    obtain rfl := Except.ok.inj hother
    rw [show StreamingRunReport.report ⟨report, run.observedQuotes⟩ = report from rfl,
      hclosing.progress] at hfull
    exact finality_of_confidence hfull

end Closing

end Closing

theorem StreamingSession.Steady.finish {run : StreamRun (κ × EventLog)}
    (hrun : run.session.Steady) (finality : SearchFinality) (emitCompleted : Bool) :
    StaysSteady (run.finish streaming (logged onEvent) finality emitCompleted) := by
  obtain ⟨report, released, completed, hclosing⟩ :=
    @closing_finish κ onEvent streaming run finality emitCompleted
  exact hclosing.staysSteady hrun

theorem StreamRun.Concludes.staysSteady {good : RouteQuote → Prop}
    {start : StreamRun (κ × EventLog)} (hstart : start.session.Steady)
    {result : (κ × EventLog) × Except SearchError StreamingRunReport}
    (hconcludes : Concludes streaming (logged onEvent) good start result) :
    StaysSteady result := by
  have hreached : ∀ run, Reached streaming (logged onEvent) good start run →
      run.session.Steady := by
    intro run hrun
    induction hrun with
    | start => exact hstart
    | step _ hstep ih => exact hstep.steady ih
  cases hconcludes with
  | failed hrun error => exact (hreached _ hrun).fail error
  | completed hrun => exact (hreached _ hrun).finish _ _
  | @stopped run hrun finality hfinality emitCompleted =>
      have hsteady : run.session.Steady := by
        rcases hrun with hrun | hended
        · exact hreached run hrun
        · induction hended with
          | refused hrun hstep => exact hstep.steady (hreached _ hrun)
          | counted hended count paths ih =>
              exact StreamingSession.Steady.observeFailedCandidates ih .heuristic count
      exact hsteady.finish _ _

end Conclusion

namespace AmmSearcher

variable {G : Type} [StableDiGraph G Address EdgeData] {κ : Type}

/-- The progress of every stream never steps back along its events and up to its report,
and neither does a threshold policy, unless the callback stops the stream when it is handed
the results of a complete search. -/
theorem streamRoutes_staysSteady (searcher : AmmSearcher G) (request : RouteRequest)
    (streaming : StreamingSearchConfig) (schedule : List FanIn.Event)
    (onEvent : EventCallback κ) (shouldContinue : Option (ℕ → Bool)) (callback : κ) :
    let result := searcher.streamRoutesParallelWithCache request streaming schedule
      (logged onEvent) shouldContinue (callback, [])
    StaysSteady result ∧
      (¬ result.1.2.RefusesFinal → (streamProgress result).Pairwise fun earlier later =>
        ∀ policy : StreamingThresholdPolicy, policy.isSatisfied earlier = true →
          policy.isSatisfied later = true) := by
  intro result
  have hnew : StreamingSession.Steady
      (⟨.new streaming, (callback, [])⟩ : StreamingSession (κ × EventLog)) :=
    ⟨List.Pairwise.nil, nofun⟩
  have hstarted : (StreamRun.emit (logged onEvent) ({ session :=
      ⟨.new streaming, (callback, [])⟩ } : StreamRun (κ × EventLog))
      (.started streaming.completion)).1.session.Steady := ⟨List.Pairwise.nil, nofun⟩
  have hsteady : StaysSteady result := by
    rcases searcher.streamRoutes_concludes request streaming schedule (logged onEvent)
      shouldContinue (callback, []) with ⟨error, herror⟩ | ⟨_, hrefused⟩ | ⟨_, _, hconcludes⟩
    · rw [show result = _ from herror]
      exact @StreamingSession.Steady.fail κ { session := ⟨.new streaming, (callback, [])⟩ }
        hnew error
    · have hclosing : Closing (StreamRun.emit (logged onEvent)
          ({ session := ⟨.new streaming, (callback, [])⟩ } : StreamRun (κ × EventLog))
          (.started streaming.completion)).1 .stopped result
          ((StreamingRouteState.new streaming).report .stopped) [] [] := by
        rw [show result = _ from hrefused]
        exact ⟨rfl, (List.append_nil _).symm, Or.inl rfl, Or.inl rfl, rfl, fun _ => rfl,
          fun _ => rfl⟩
      exact hclosing.staysSteady hstarted
    · exact hconcludes.staysSteady hstarted
  refine ⟨hsteady, fun haccepted => (hsteady.whole haccepted).imp ?_⟩
  intro earlier later hbelow policy hsatisfied
  exact hbelow.isSatisfied policy hsatisfied

end AmmSearcher

namespace RoundTripExample

/-- Results are held back until the search is complete. -/
def gatedStreaming : StreamingSearchConfig :=
  { streaming with
    initialResultPolicy := some { mode := .all, minConfidenceBps := some 10000 } }

/-- A stream whose callback stops it when the results are released. -/
def refusedRelease : (Bool × EventLog) × Except SearchError StreamingRunReport :=
  searcher.streamRoutesParallelWithCache narrowRequest gatedStreaming []
    (logged (stopAtFirst RouteSearchEvent.isInitialResults)) none (false, [])

theorem confidence_refusedRelease :
    (streamProgress refusedRelease).map RouteSearchProgress.confidenceBps =
      [7000, 9000, 9500, 9999, 10000, 9999, 9999] := by
  decide +kernel

theorem ready_refusedRelease :
    (refusedRelease.1.2.any fun entry => entry.1.isInitialResults &&
      entry.1.progress?.any fun progress => progress.confidenceBps == 10000) = true := by
  decide +kernel

/-- The confidence that is shown with the released results goes back in the report. -/
theorem not_steady_refusedRelease :
    ¬ (streamProgress refusedRelease).Pairwise RouteSearchProgress.Below ∧
      ∃ entry ∈ refusedRelease.1.2, entry.1.isCompleted = false ∧
        ∃ progress, entry.1.progress? = some progress ∧ progress.confidenceBps = 10000 := by
  constructor
  · intro hpairwise
    have hconfidence : ((streamProgress refusedRelease).map
        RouteSearchProgress.confidenceBps).Pairwise (· ≤ ·) :=
      List.pairwise_map.mpr (hpairwise.imp fun hbelow => hbelow.confidence)
    rw [confidence_refusedRelease] at hconfidence
    exact absurd hconfidence (by decide)
  · obtain ⟨entry, hentry, hready⟩ := List.any_eq_true.mp ready_refusedRelease
    rw [Bool.and_eq_true] at hready
    obtain ⟨progress, hprogress, hfull⟩ := (Option.any_eq_true _ _).mp hready.2
    refine ⟨entry, hentry, ?_, progress, hprogress, beq_iff_eq.mp hfull⟩
    cases hevent : entry.1 with
    | completed report =>
        rw [hevent] at hready
        cases hready.1
    | _ => rfl

end RoundTripExample

end AmmSearch
