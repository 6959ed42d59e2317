/-
What a streaming search has reported when it ends, however it ends: the quotes of
its observers, each with the amounts of its hops, and the best of them.
-/
import AmmSearch.ObservedSearch
import AmmSearch.StreamingSearch

open FiniteMap StableGraph

namespace AmmSearch

/-- `best` is among the quotes and no other exceeds it. -/
def IsBest (quotes : List RouteQuote) : Option RouteQuote → Prop
  | none => quotes = []
  | some best => best ∈ quotes ∧ ∀ quote ∈ quotes, quote.amountOut ≤ best.amountOut

theorem IsBest.append_singleton {quotes : List RouteQuote} {best : Option RouteQuote}
    (hbest : IsBest quotes best) (quote : RouteQuote) :
    IsBest (quotes ++ [quote])
      (if best.all fun best => best.amountOut < quote.amountOut then some quote
      else best) := by
  cases best with
  | none =>
      obtain rfl : quotes = [] := hbest
      simp [IsBest]
  | some best =>
      obtain ⟨hmem, hmax⟩ := hbest
      by_cases hlarger : best.amountOut < quote.amountOut
      · rw [if_pos (by simpa using hlarger)]
        refine ⟨List.mem_append_right _ List.mem_cons_self, ?_⟩
        intro other hother
        rcases List.mem_append.mp hother with hold | hlast
        · exact (hmax other hold).trans hlarger.le
        · rw [List.mem_singleton.mp hlast]
      · rw [if_neg (by simpa using hlarger)]
        refine ⟨List.mem_append_left _ hmem, ?_⟩
        intro other hother
        rcases List.mem_append.mp hother with hold | hlast
        · exact hmax other hold
        · rw [List.mem_singleton.mp hlast]
          exact not_lt.mp hlarger

/-- Emitting events keeps what a stream has found and counted.  It can only stop the
stream for a refusal or for the stop policy. -/
structure StreamingRouteState.Emits (before after : StreamingRouteState) : Prop where
  best : after.best = before.best
  heuristicBest : after.heuristicBest = before.heuristicBest
  topRoutes : after.topRoutes = before.topRoutes
  routesObserved : after.routesObserved = before.routesObserved
  failedCandidates : after.failedCandidates = before.failedCandidates
  heuristicPhaseCompleted : after.heuristicPhaseCompleted = before.heuristicPhaseCompleted
  totalCandidates : after.totalCandidates = before.totalCandidates
  stopFinality : after.stopFinality = before.stopFinality ∨
    after.stopFinality = some .stopped ∨ after.stopFinality = some .stopPolicySatisfied

namespace StreamingRouteState.Emits

variable {before middle after : StreamingRouteState}

theorem refl (state : StreamingRouteState) : state.Emits state :=
  ⟨rfl, rfl, rfl, rfl, rfl, rfl, rfl, Or.inl rfl⟩

theorem trans (hfirst : before.Emits middle) (hsecond : middle.Emits after) :
    before.Emits after where
  best := hsecond.best.trans hfirst.best
  heuristicBest := hsecond.heuristicBest.trans hfirst.heuristicBest
  topRoutes := hsecond.topRoutes.trans hfirst.topRoutes
  routesObserved := hsecond.routesObserved.trans hfirst.routesObserved
  failedCandidates := hsecond.failedCandidates.trans hfirst.failedCandidates
  heuristicPhaseCompleted :=
    hsecond.heuristicPhaseCompleted.trans hfirst.heuristicPhaseCompleted
  totalCandidates := hsecond.totalCandidates.trans hfirst.totalCandidates
  stopFinality := by
    rcases hsecond.stopFinality with hsame | hstop
    · rw [hsame]
      exact hfirst.stopFinality
    · exact Or.inr hstop

end StreamingRouteState.Emits

namespace StreamingSession

variable {κ : Type} {onEvent : EventCallback κ} {streaming : StreamingSearchConfig}
  (session : StreamingSession κ)

theorem emitOrStop_emits (event : RouteSearchEvent) :
    session.state.Emits (session.emitOrStop onEvent event).1.state := by
  simp only [emitOrStop]
  split
  · exact .refl _
  · exact ⟨rfl, rfl, rfl, rfl, rfl, rfl, rfl, Or.inr (Or.inl rfl)⟩

theorem releaseInitialResults_emits (progress : RouteSearchProgress) :
    session.state.Emits (session.releaseInitialResults onEvent progress).1.state := by
  unfold releaseInitialResults
  split
  · exact .refl _
  · rename_i best _
    have hreleased : session.state.Emits
        { session.state with initialResultsReleased := true } :=
      ⟨rfl, rfl, rfl, rfl, rfl, rfl, rfl, Or.inl rfl⟩
    exact hreleased.trans (@emitOrStop_emits κ onEvent
      { session with state := { session.state with initialResultsReleased := true } }
      (.initialResultsReady progress best session.state.topRoutes))

theorem emitProgressAndApplyPolicies_emits (phase : RouteSearchPhase) :
    session.state.Emits
      (session.emitProgressAndApplyPolicies streaming onEvent phase).1.state := by
  have hphase : session.state.Emits
      { session.state with progressPhase := some phase } :=
    ⟨rfl, rfl, rfl, rfl, rfl, rfl, rfl, Or.inl rfl⟩
  have hemitted := hphase.trans (@emitOrStop_emits κ onEvent
    { session with state := { session.state with progressPhase := some phase } }
    (.progress { session.state with progressPhase := some phase }.progress))
  unfold emitProgressAndApplyPolicies
  simp only
  generalize emitOrStop onEvent _ _ = emitted at hemitted ⊢
  obtain ⟨emitted, keep⟩ := emitted
  split
  · exact hemitted
  · -- the release of the initial results and the stop policy only touch flags
    have hreleased : session.state.Emits
        (if releasesInitialResults streaming emitted.state
            { session.state with progressPhase := some phase }.progress then
          emitted.releaseInitialResults onEvent
            { session.state with progressPhase := some phase }.progress
        else (emitted, true)).1.state := by
      split
      · exact hemitted.trans (releaseInitialResults_emits _ _)
      · exact hemitted
    generalize (if releasesInitialResults streaming emitted.state _ = true then _ else _) =
      released at hreleased ⊢
    obtain ⟨released, keep⟩ := released
    simp only at hreleased ⊢
    split
    · exact hreleased
    · split
      · exact hreleased.trans ⟨rfl, rfl, rfl, rfl, rfl, rfl, rfl, Or.inr (Or.inr rfl)⟩
      · exact hreleased

theorem emitRouteFound_emits (phase : RouteSearchPhase) (rank : Option ℕ)
    (quote : RouteQuote) :
    session.state.Emits
      (session.emitRouteFound streaming onEvent phase rank quote).1.state := by
  unfold emitRouteFound
  split
  · exact emitOrStop_emits _ _
  · exact .refl _

theorem emitObserved_emits (phase : RouteSearchPhase) (releasedBefore : Bool)
    (rank : Option ℕ) (quote : RouteQuote) (improvement : Option (Option RouteQuote)) :
    session.state.Emits (session.emitObserved streaming onEvent phase releasedBefore rank
      quote improvement).1.state := by
  have hprogress := @emitProgressAndApplyPolicies_emits κ onEvent streaming session phase
  unfold emitObserved
  generalize emitProgressAndApplyPolicies streaming onEvent session phase = emitted
    at hprogress ⊢
  obtain ⟨next, keep⟩ := emitted
  simp only at hprogress ⊢
  split
  · exact hprogress
  · split
    · exact hprogress
    · split
      · exact hprogress.trans (emitRouteFound_emits next _ _ _)
      · rename_i previous
        have hupdated := hprogress.trans (@emitOrStop_emits κ onEvent next
          (.bestUpdated phase quote previous .provisional))
        generalize emitOrStop onEvent next _ = updated at hupdated ⊢
        obtain ⟨updated, keep⟩ := updated
        simp only at hupdated ⊢
        split
        · exact hupdated
        · exact hupdated.trans (emitRouteFound_emits updated _ _ _)

@[simp]
theorem best_releaseInitialResults (progress : RouteSearchProgress) :
    (session.releaseInitialResults onEvent progress).1.state.best = session.state.best :=
  (releaseInitialResults_emits session progress).best

theorem best_recordTopRoute (state : StreamingRouteState) (quote : RouteQuote) :
    (state.recordTopRoute streaming quote).1.best = state.best := by
  unfold StreamingRouteState.recordTopRoute
  split <;> rfl

theorem recordTopRoute_counts (state : StreamingRouteState) (quote : RouteQuote) :
    let recorded := (state.recordTopRoute streaming quote).1
    recorded.best = state.best ∧ recorded.routesObserved = state.routesObserved ∧
      recorded.failedCandidates = state.failedCandidates ∧
      recorded.heuristicPhaseCompleted = state.heuristicPhaseCompleted ∧
      recorded.totalCandidates = state.totalCandidates ∧
      recorded.stopFinality = state.stopFinality ∧
      recorded.heuristicBest = state.heuristicBest := by
  unfold StreamingRouteState.recordTopRoute
  split
  · exact ⟨rfl, rfl, rfl, rfl, rfl, rfl, rfl⟩
  · exact ⟨rfl, rfl, rfl, rfl, rfl, rfl, rfl⟩

/-- The routes of a stream after one more quote, whatever the callback answers. -/
def rankQuote (streaming : StreamingSearchConfig) (phase : RouteSearchPhase)
    (state : StreamingRouteState) (quote : RouteQuote) : StreamingRouteState :=
  { (state.recordTopRoute streaming quote).1 with
    progressPhase := some phase
    routesObserved := state.routesObserved + 1
    best := if state.best.all fun best => best.amountOut < quote.amountOut then some quote
      else state.best }

/-- Observing a quote ranks it and then emits; only a larger quote is an improvement. -/
theorem observeQuote_eq_emitObserved (phase : RouteSearchPhase) (quote : RouteQuote) :
    ∃ state rank, (rankQuote streaming phase session.state quote).Emits state ∧
      state.initialResultsReleased = session.state.initialResultsReleased ∧
      session.observeQuote streaming onEvent phase quote =
        emitObserved streaming onEvent { session with state := state } phase
          session.state.initialResultsReleased rank quote
          (if session.state.best.all fun best => best.amountOut < quote.amountOut then
            some session.state.best
          else none) := by
  have hcounts := @recordTopRoute_counts streaming
    { session.state with
      progressPhase := some phase
      routesObserved := session.state.routesObserved + 1 } quote
  have htop : (StreamingRouteState.recordTopRoute streaming
      { session.state with
        progressPhase := some phase
        routesObserved := session.state.routesObserved + 1 } quote).1.topRoutes =
      (session.state.recordTopRoute streaming quote).1.topRoutes := by
    unfold StreamingRouteState.recordTopRoute
    simp only
    split
    · rfl
    · rfl
  have hreleased : (StreamingRouteState.recordTopRoute streaming
      { session.state with
        progressPhase := some phase
        routesObserved := session.state.routesObserved + 1 } quote).1.initialResultsReleased =
      session.state.initialResultsReleased := by
    unfold StreamingRouteState.recordTopRoute
    split
    · rfl
    · rfl
  have hsame := @recordTopRoute_counts streaming session.state quote
  unfold observeQuote rankQuote
  simp only
  generalize StreamingRouteState.recordTopRoute streaming _ quote = recorded
    at hcounts htop hreleased ⊢
  generalize StreamingRouteState.recordTopRoute streaming session.state quote = plain
    at htop hsame ⊢
  obtain ⟨state, rank⟩ := recorded
  obtain ⟨hbest, hroutes, hfailed, hcompleted, htotal, hstop, hheuristic⟩ := hcounts
  obtain ⟨_, _, hfailed', hcompleted', htotal', hstop', hheuristic'⟩ := hsame
  simp only at hbest hroutes hfailed hcompleted htotal hstop hheuristic htop hreleased ⊢
  rw [hbest]
  split
  · refine ⟨_, rank, ?_, ?_, rfl⟩
    · exact ⟨rfl, hheuristic.trans hheuristic'.symm, htop, hroutes, hfailed.trans hfailed'.symm,
        hcompleted.trans hcompleted'.symm, htotal.trans htotal'.symm,
        Or.inl (hstop.trans hstop'.symm)⟩
    · exact hreleased
  · refine ⟨state, rank, ?_, hreleased, rfl⟩
    exact ⟨hbest, hheuristic.trans hheuristic'.symm, htop, hroutes, hfailed.trans hfailed'.symm,
      hcompleted.trans hcompleted'.symm, htotal.trans htotal'.symm,
      Or.inl (hstop.trans hstop'.symm)⟩

theorem observeQuote_emits (phase : RouteSearchPhase) (quote : RouteQuote) :
    (rankQuote streaming phase session.state quote).Emits
      (session.observeQuote streaming onEvent phase quote).1.state := by
  obtain ⟨state, rank, hranked, _, hobserve⟩ :=
    @observeQuote_eq_emitObserved κ onEvent streaming session phase quote
  rw [hobserve]
  exact hranked.trans (@emitObserved_emits κ onEvent streaming { session with state := state }
    phase _ rank quote _)

/-- A larger quote becomes the best one, whatever the callback answers. -/
theorem best_observeQuote (phase : RouteSearchPhase) (quote : RouteQuote) :
    (session.observeQuote streaming onEvent phase quote).1.state.best =
      if session.state.best.all fun best => best.amountOut < quote.amountOut then
        some quote
      else session.state.best :=
  (observeQuote_emits session phase quote).best

/-- The state after some candidates have failed. -/
def countFailures (phase : RouteSearchPhase) (count : ℕ) (state : StreamingRouteState) :
    StreamingRouteState :=
  { state with
    progressPhase := if count = 0 then state.progressPhase else some phase
    failedCandidates := state.failedCandidates + count }

theorem observeFailedCandidates_emits (phase : RouteSearchPhase) (count : ℕ) :
    (countFailures phase count session.state).Emits
      (session.observeFailedCandidates streaming onEvent phase count).1.state := by
  unfold observeFailedCandidates countFailures
  split
  · rename_i hnone
    rw [hnone, Nat.add_zero]
    exact ⟨rfl, rfl, rfl, rfl, rfl, rfl, rfl, Or.inl rfl⟩
  · exact @emitProgressAndApplyPolicies_emits κ onEvent streaming
      { session with
        state := { session.state with
          progressPhase := some phase
          failedCandidates := session.state.failedCandidates + count } }
      phase

@[simp]
theorem best_observeFailedCandidates (phase : RouteSearchPhase) (count : ℕ) :
    (session.observeFailedCandidates streaming onEvent phase count).1.state.best =
      session.state.best :=
  (observeFailedCandidates_emits session phase count).best

/-- The state after the heuristic phase. -/
def completeHeuristic (state : StreamingRouteState) : StreamingRouteState :=
  { state with
    heuristicBest := state.best
    heuristicPhaseCompleted := true
    progressPhase := some .heuristic }

theorem finishHeuristicPhase_emits :
    (completeHeuristic session.state).Emits
      (session.finishHeuristicPhase streaming onEvent).1.state :=
  @emitProgressAndApplyPolicies_emits κ onEvent streaming
    { session with state := completeHeuristic session.state } .heuristic

/-- The state once the total is known. -/
def fixTotal (total : ℕ) (state : StreamingRouteState) : StreamingRouteState :=
  { state with
    totalCandidates := some (max total state.candidatesEvaluated)
    progressPhase := some .exhaustive }

theorem setTotalCandidates_emits (total : ℕ) :
    (fixTotal total session.state).Emits
      (session.setTotalCandidates streaming onEvent total).1.state :=
  @emitProgressAndApplyPolicies_emits κ onEvent streaming
    { session with state := fixTotal total session.state } .exhaustive

end StreamingSession

namespace StreamRun

variable {κ : Type} {onEvent : EventCallback κ} {streaming : StreamingSearchConfig}
  {good : RouteQuote → Prop}

/-- The best quote of the run is the best of what it has observed. -/
def Tracks (run : StreamRun κ) : Prop :=
  IsBest run.observedQuotes run.session.state.best

/-- A run that tracks its best quote and has observed good ones only. -/
structure Faithful (good : RouteQuote → Prop) (run : StreamRun κ) : Prop where
  tracks : run.Tracks
  quotes : ∀ quote ∈ run.observedQuotes, good quote

/-- A step that keeps the best quote and the observed ones. -/
theorem Faithful.of_eq {run next : StreamRun κ} (hrun : run.Faithful good)
    (hbest : next.session.state.best = run.session.state.best)
    (hquotes : next.observedQuotes = run.observedQuotes) : next.Faithful good := by
  refine ⟨?_, hquotes ▸ hrun.quotes⟩
  unfold Tracks
  rw [hbest, hquotes]
  exact hrun.tracks

theorem Faithful.observe {run next : StreamRun κ} {phase : RouteSearchPhase}
    {quote : RouteQuote} (hrun : run.Faithful good) (hquote : good quote)
    (hsession : next.session =
      (run.session.observeQuote streaming onEvent phase quote).1)
    (hquotes : next.observedQuotes = run.observedQuotes ++ [quote]) :
    next.Faithful good := by
  constructor
  · unfold Tracks
    rw [hquotes, hsession, StreamingSession.best_observeQuote]
    exact hrun.tracks.append_singleton quote
  · intro other hother
    rw [hquotes] at hother
    rcases List.mem_append.mp hother with hold | hlast
    · exact hrun.quotes other hold
    · exact List.mem_singleton.mp hlast ▸ hquote

end StreamRun

end AmmSearch
