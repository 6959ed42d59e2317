/-
The log of a stream: every event that its callback was given, with the answer.
A session is live while no event was refused; what its state knows about the
released results and about the stop policy can then be read off the log.
-/
import AmmSearch.StreamingSearch

namespace AmmSearch

/-- The events of a stream with the answers to them. -/
abbrev EventLog := List (RouteSearchEvent × SearchControl)

/-- A callback that also keeps the log. -/
def logged {κ : Type} (onEvent : EventCallback κ) : EventCallback (κ × EventLog) :=
  fun callback event =>
    (((onEvent callback.1 event).1,
      callback.2 ++ [(event, (onEvent callback.1 event).2)]),
      (onEvent callback.1 event).2)

namespace RouteSearchEvent

def isCompleted : RouteSearchEvent → Bool
  | .completed _ => true
  | _ => false

def isInitialResults : RouteSearchEvent → Bool
  | .initialResultsReady _ _ _ => true
  | _ => false

/-- A progress event of a search that has found a route. -/
def showsBest : RouteSearchEvent → Bool
  | .progress current => current.bestAmountOut.isSome
  | _ => false

/-- A progress event that satisfies the stop policy. -/
def meetsStopPolicy (streaming : StreamingSearchConfig) : RouteSearchEvent → Bool
  | .progress current => current.bestAmountOut.isSome &&
      streaming.stopPolicy.any fun policy => policy.isSatisfied current
  | _ => false

end RouteSearchEvent

namespace EventLog

/-- Every answer was to continue. -/
def Continued (log : EventLog) : Prop :=
  ∀ entry ∈ log, entry.2 = .continue

def showsBest (log : EventLog) : Bool :=
  log.any fun entry => entry.1.showsBest

def showsInitialResults (log : EventLog) : Bool :=
  log.any fun entry => entry.1.isInitialResults

def meetsStopPolicy (streaming : StreamingSearchConfig) (log : EventLog) : Bool :=
  log.any fun entry => entry.1.meetsStopPolicy streaming

/-- The last event is a progress event that does not release the results. -/
def endsUnreleased (streaming : StreamingSearchConfig) (log : EventLog) : Bool :=
  match log.getLast? with
  | some (.progress progress, _) =>
      !streaming.initialResultPolicy.any fun policy => policy.isSatisfied progress
  | _ => false

variable {log : EventLog} {event : RouteSearchEvent} {answer : SearchControl}

@[simp] theorem showsBest_concat :
    showsBest (log ++ [(event, answer)]) = (log.showsBest || event.showsBest) := by
  simp [showsBest]

@[simp] theorem showsInitialResults_concat :
    showsInitialResults (log ++ [(event, answer)]) =
      (log.showsInitialResults || event.isInitialResults) := by
  simp [showsInitialResults]

@[simp] theorem meetsStopPolicy_concat {streaming : StreamingSearchConfig} :
    meetsStopPolicy streaming (log ++ [(event, answer)]) =
      (log.meetsStopPolicy streaming || event.meetsStopPolicy streaming) := by
  simp [meetsStopPolicy]

theorem Continued.concat (hlog : log.Continued) (event : RouteSearchEvent) :
    Continued (log ++ [(event, .continue)]) := by
  intro entry hentry
  rcases List.mem_append.mp hentry with hold | hlast
  · exact hlog entry hold
  · rw [List.mem_singleton.mp hlast]

/-- A refusal after nothing but continued events is the last one. -/
theorem Continued.stop_eq_last (hlog : log.Continued) {last : RouteSearchEvent × SearchControl}
    {before after : EventLog} {event : RouteSearchEvent}
    (hsplit : log ++ [last] = before ++ (event, .stop) :: after) :
    log = before ∧ last = (event, .stop) ∧ after = [] := by
  rcases List.eq_nil_or_concat after with rfl | ⟨front, final, rfl⟩
  · obtain ⟨hbefore, hlast⟩ := List.append_inj' hsplit rfl
    exact ⟨hbefore, List.singleton_inj.mp hlast, rfl⟩
  · exfalso
    rw [List.concat_eq_append, ← List.cons_append, ← List.append_assoc] at hsplit
    obtain ⟨hfront, _⟩ := List.append_inj' hsplit rfl
    have hstop := hlog (event, .stop) (by rw [hfront]; simp)
    cases hstop

end EventLog

section Sessions

variable {κ : Type} {onEvent : EventCallback κ} {streaming : StreamingSearchConfig}

namespace StreamingSession

def log (session : StreamingSession (κ × EventLog)) : EventLog := session.callback.2

/-- No event was refused so far.  A finality is set only by the stop policy. -/
structure Unstopped (streaming : StreamingSearchConfig)
    (session : StreamingSession (κ × EventLog)) : Prop where
  continued : session.log.Continued
  released : session.log.showsInitialResults = true →
    session.state.initialResultsReleased = true
  finality : session.state.stopFinality = none ∨
    (session.state.stopFinality = some .stopPolicySatisfied ∧
      session.state.best.isSome = true ∧ session.log.meetsStopPolicy streaming = true)

/-- An unstopped session between two steps. -/
structure Live (streaming : StreamingSearchConfig)
    (session : StreamingSession (κ × EventLog)) : Prop extends
    Unstopped streaming session where
  best : session.state.best.isSome = true → session.log.showsBest = true
  pending : session.state.stopFinality = some .stopPolicySatisfied →
    session.state.initialResultsReleased = false →
    session.log.endsUnreleased streaming = true

/-- The last event was refused, and it was the only one. -/
structure Refused (session : StreamingSession (κ × EventLog)) : Prop where
  last : ∃ (before : EventLog) (event : RouteSearchEvent),
    session.log = before ++ [(event, .stop)] ∧ before.Continued ∧ event.isCompleted = false
  released : session.log.showsInitialResults = true →
    session.state.initialResultsReleased = true
  best : session.state.best.isSome = true → session.log.showsBest = true

/-- A step of a live session leaves it live, or the callback has stopped it. -/
inductive Advances (streaming : StreamingSearchConfig)
    (session : StreamingSession (κ × EventLog)) :
    StreamingSession (κ × EventLog) × Bool → Prop
  | continues (next : StreamingSession (κ × EventLog)) (hlive : next.Live streaming)
      (hfinality : next.state.stopFinality = session.state.stopFinality) :
      Advances streaming session (next, true)
  | policy (next : StreamingSession (κ × EventLog)) (hlive : next.Live streaming)
      (hfinality : next.state.stopFinality = some .stopPolicySatisfied) :
      Advances streaming session (next, false)
  | stops (next : StreamingSession (κ × EventLog)) (hrefused : next.Refused)
      (hfinality : next.state.stopFinality = some .stopped) :
      Advances streaming session (next, false)

/-- What an emission can do. -/
theorem emitOrStop_logged (session : StreamingSession (κ × EventLog))
    (event : RouteSearchEvent) :
    ∃ callback, session.emitOrStop (logged onEvent) event =
        (⟨session.state, (callback, session.log ++ [(event, .continue)])⟩, true) ∨
      session.emitOrStop (logged onEvent) event =
        (⟨{ session.state with stopFinality := some .stopped },
          (callback, session.log ++ [(event, .stop)])⟩, false) := by
  refine ⟨(onEvent session.callback.1 event).1, ?_⟩
  cases hanswer : (onEvent session.callback.1 event).2 with
  | «continue» =>
      left
      simp [emitOrStop, emitSearchEvent, logged, hanswer, log]
  | stop =>
      right
      simp [emitOrStop, emitSearchEvent, logged, hanswer, log]

/-- What a release can do. -/
theorem releaseInitialResults_logged (session : StreamingSession (κ × EventLog))
    (progress : RouteSearchProgress) {best : RouteQuote}
    (hbest : session.state.best = some best) :
    ∃ callback, session.releaseInitialResults (logged onEvent) progress =
        (⟨{ session.state with initialResultsReleased := true },
          (callback, session.log ++
            [(.initialResultsReady progress best session.state.topRoutes, .continue)])⟩,
          true) ∨
      session.releaseInitialResults (logged onEvent) progress =
        (⟨{ session.state with
            initialResultsReleased := true
            stopFinality := some .stopped },
          (callback, session.log ++
            [(.initialResultsReady progress best session.state.topRoutes, .stop)])⟩,
          false) := by
  have hrelease : session.releaseInitialResults (logged onEvent) progress =
      emitOrStop (logged onEvent)
        { session with state := { session.state with initialResultsReleased := true } }
        (.initialResultsReady progress best session.state.topRoutes) := by
    unfold releaseInitialResults
    rw [hbest]
  rw [hrelease]
  exact emitOrStop_logged _ _

/-- The results that a finished session still has to release. -/
theorem releaseAtCompletion_cases (session : StreamingSession (κ × EventLog))
    (finality : SearchFinality) :
    (session.releaseInitialResultsAtCompletion streaming (logged onEvent) finality =
        (session, true) ∧
      (session.state.initialResultsReleased = true ∨ streaming.initialResultPolicy = none ∨
        session.state.best = none)) ∨
      session.state.initialResultsReleased = false ∧
        streaming.initialResultPolicy.isSome = true ∧
        ∃ best callback, session.state.best = some best ∧
          (session.releaseInitialResultsAtCompletion streaming (logged onEvent) finality =
            (⟨{ session.state with initialResultsReleased := true },
              (callback, session.log ++
                [(.initialResultsReady (session.state.finalProgress finality) best
                  session.state.topRoutes, .continue)])⟩, true) ∨
          session.releaseInitialResultsAtCompletion streaming (logged onEvent) finality =
            (⟨{ session.state with
                initialResultsReleased := true
                stopFinality := some .stopped },
              (callback, session.log ++
                [(.initialResultsReady (session.state.finalProgress finality) best
                  session.state.topRoutes, .stop)])⟩, false)) := by
  unfold releaseInitialResultsAtCompletion
  split
  · rename_i hsettled
    left
    refine ⟨rfl, ?_⟩
    rcases Bool.or_eq_true_iff.mp hsettled with hreleased | hpolicy
    · exact Or.inl hreleased
    · exact Or.inr (Or.inl (Option.isNone_iff_eq_none.mp hpolicy))
  · rename_i hpending
    simp only [Bool.or_eq_true, not_or, Bool.not_eq_true, Option.isNone_eq_false_iff]
      at hpending
    cases hbest : session.state.best with
    | none =>
        left
        simp only [releaseInitialResults, hbest, or_true, and_self]
    | some best =>
        right
        obtain ⟨callback, hrelease⟩ := @releaseInitialResults_logged κ
          onEvent session (session.state.finalProgress finality) best hbest
        exact ⟨hpending.1, hpending.2, best, callback, rfl, hrelease⟩

variable {session : StreamingSession (κ × EventLog)}

/-- A refusal ends an unstopped session. -/
theorem Unstopped.refused (hsession : session.Unstopped streaming)
    {event : RouteSearchEvent} (hevent : event.isCompleted = false)
    (hreleased : event.isInitialResults = true →
      session.state.initialResultsReleased = true)
    (hbest : session.state.best.isSome = true →
      (session.log.showsBest || event.showsBest) = true) (callback : κ)
    (finality : Option SearchFinality) :
    Refused ⟨{ session.state with stopFinality := finality },
      (callback, session.log ++ [(event, .stop)])⟩ := by
  refine ⟨⟨session.log, event, rfl, hsession.continued, hevent⟩, ?_, ?_⟩
  · intro hshows
    simp only [log, EventLog.showsInitialResults_concat, Bool.or_eq_true] at hshows
    rcases hshows with hold | hlast
    · exact hsession.released hold
    · exact hreleased hlast
  · simpa [log] using hbest

/-- An event that is neither progress nor a release leaves a live session live. -/
theorem emitOrStop_advances (hsession : session.Live streaming)
    (hfinality : session.state.stopFinality = none) {event : RouteSearchEvent}
    (hevent : event.isCompleted = false) (hready : event.isInitialResults = false) :
    Advances streaming session (session.emitOrStop (logged onEvent) event) := by
  obtain ⟨callback, hcontinue | hstop⟩ := @emitOrStop_logged κ onEvent session event
  · rw [hcontinue]
    refine .continues _ ⟨⟨hsession.continued.concat event, ?_, Or.inl hfinality⟩, ?_, ?_⟩ rfl
    · simpa [log, hready] using hsession.released
    · intro hbest
      simp only [log, EventLog.showsBest_concat, Bool.or_eq_true]
      exact Or.inl (hsession.best hbest)
    · intro hpolicy
      rw [hfinality] at hpolicy
      cases hpolicy
  · rw [hstop]
    refine .stops _ (hsession.refused hevent (by simp [hready]) ?_ _ _) rfl
    intro hbest
    simp [hsession.best hbest]

/-- A session whose progress was reported and continued. -/
structure Reported (streaming : StreamingSearchConfig) (progress : RouteSearchProgress)
    (session : StreamingSession (κ × EventLog)) : Prop extends
    Unstopped streaming session where
  best : session.state.best.isSome = true → session.log.showsBest = true
  policy : stopsByPolicy streaming session.state progress = true →
    session.log.meetsStopPolicy streaming = true

/-- A continued event that is no release keeps what the log shows. -/
theorem Unstopped.concat (hsession : session.Unstopped streaming)
    {event : RouteSearchEvent}
    (hready : event.isInitialResults = true → session.state.initialResultsReleased = true)
    (callback : κ) :
    Unstopped streaming
      ⟨session.state, (callback, session.log ++ [(event, .continue)])⟩ := by
  refine ⟨hsession.continued.concat event, ?_, ?_⟩
  · simp only [log, EventLog.showsInitialResults_concat, Bool.or_eq_true]
    rintro (hold | hlast)
    · exact hsession.released hold
    · exact hready hlast
  · refine hsession.finality.imp_right ?_
    rintro ⟨hpolicy, hbest, hmet⟩
    refine ⟨hpolicy, hbest, ?_⟩
    simp only [log, EventLog.meetsStopPolicy_concat, Bool.or_eq_true]
    exact Or.inl hmet

theorem Unstopped.reported (hsession : session.Unstopped streaming) (callback : κ) :
    Reported streaming session.state.progress
      ⟨session.state, (callback, session.log ++
        [(.progress session.state.progress, .continue)])⟩ := by
  have hbest : session.state.progress.bestAmountOut.isSome = session.state.best.isSome := by
    simp [StreamingRouteState.progress]
  refine ⟨hsession.concat (by simp [RouteSearchEvent.isInitialResults]) callback, ?_, ?_⟩
  · intro hfound
    simp only [log, EventLog.showsBest_concat, RouteSearchEvent.showsBest, hbest,
      Bool.or_eq_true]
    exact Or.inr hfound
  · intro hstops
    simp only [log, EventLog.meetsStopPolicy_concat, RouteSearchEvent.meetsStopPolicy,
      hbest, Bool.or_eq_true]
    exact Or.inr hstops

/-- A continued release. -/
theorem Reported.released_concat {progress : RouteSearchProgress}
    (hsession : session.Reported streaming progress) (event : RouteSearchEvent)
    (callback : κ) :
    Reported streaming progress
      ⟨{ session.state with initialResultsReleased := true },
        (callback, session.log ++ [(event, .continue)])⟩ := by
  have hreleased : Unstopped streaming
      ⟨{ session.state with initialResultsReleased := true }, session.callback⟩ :=
    ⟨hsession.continued, fun _ => rfl, hsession.finality⟩
  refine ⟨hreleased.concat (fun _ => rfl) callback, ?_, ?_⟩
  · intro hfound
    simp only [log, EventLog.showsBest_concat, Bool.or_eq_true]
    exact Or.inl (hsession.best hfound)
  · intro hstops
    simp only [log, EventLog.meetsStopPolicy_concat, Bool.or_eq_true]
    exact Or.inl (hsession.policy hstops)

/-- The stop policy after a reported progress. -/
theorem Reported.advances {progress : RouteSearchProgress}
    {next : StreamingSession (κ × EventLog)} (hnext : next.Reported streaming progress)
    (hpending : next.state.initialResultsReleased = false →
      next.state.best.isSome = true → next.log.endsUnreleased streaming = true)
    (hfinality : next.state.stopFinality = session.state.stopFinality) :
    Advances streaming session
      (if stopsByPolicy streaming next.state progress then
        ({ next with
            state := { next.state with stopFinality := some .stopPolicySatisfied } },
          false)
      else (next, true)) := by
  split
  · rename_i hstops
    have hbest : next.state.best.isSome = true := by
      simp only [stopsByPolicy, Bool.and_eq_true] at hstops
      exact hstops.1
    refine .policy _ ⟨⟨hnext.continued, hnext.released, ?_⟩, hnext.best, ?_⟩ rfl
    · exact Or.inr ⟨rfl, hbest, hnext.policy hstops⟩
    · exact fun _ hreleased => hpending hreleased hbest
  · refine .continues _ ⟨hnext.toUnstopped, hnext.best, ?_⟩ hfinality
    intro hpolicy hreleased
    rcases hnext.finality with hnone | ⟨_, hbest, _⟩
    · rw [hnone] at hpolicy
      cases hpolicy
    · exact hpending hreleased hbest

theorem emitProgressAndApplyPolicies_advances (hsession : session.Unstopped streaming)
    (phase : RouteSearchPhase) :
    Advances streaming session
      (session.emitProgressAndApplyPolicies streaming (logged onEvent) phase) := by
  unfold emitProgressAndApplyPolicies
  simp only
  generalize hstate : ({ session.state with progressPhase := some phase } :
    StreamingRouteState) = state
  have hunstopped : Unstopped streaming ⟨state, session.callback⟩ := by
    rw [← hstate]
    exact ⟨hsession.continued, hsession.released, hsession.finality⟩
  have hfinality : state.stopFinality = session.state.stopFinality := by
    rw [← hstate]
  obtain ⟨callback, hcontinue | hstop⟩ := @emitOrStop_logged κ onEvent
    ⟨state, session.callback⟩ (.progress state.progress)
  · have hreported := hunstopped.reported callback
    rw [hcontinue]
    simp only [Bool.not_true, Bool.false_eq_true, if_false]
    split
    · -- the results are released before the stop policy is looked at
      rename_i hreleases
      simp only [releasesInitialResults, Bool.and_eq_true] at hreleases
      obtain ⟨best, hbest⟩ := Option.isSome_iff_exists.mp hreleases.1.2
      obtain ⟨callback', hcontinue | hstop⟩ := @releaseInitialResults_logged κ onEvent
        ⟨state, (callback, log ⟨state, session.callback⟩ ++
          [(.progress state.progress, .continue)])⟩ state.progress best hbest
      · rw [hcontinue]
        simp only [Bool.not_true, Bool.false_eq_true, if_false]
        have hreleased := hreported.released_concat
          (.initialResultsReady state.progress best state.topRoutes) callback'
        exact hreleased.advances (fun hunreleased => by cases hunreleased) hfinality
      · rw [hstop]
        simp only [Bool.not_false, if_true]
        refine .stops _ ⟨⟨_, _, rfl, hreported.continued, rfl⟩, fun _ => rfl, ?_⟩ rfl
        intro hfound
        simp only [log, EventLog.showsBest_concat, Bool.or_eq_true]
        exact Or.inl (by simpa [log] using hreported.best hfound)
    · rename_i hkeeps
      simp only [Bool.not_true, Bool.false_eq_true, if_false]
      refine hreported.advances ?_ hfinality
      intro hreleased hfound
      have hreleased : state.initialResultsReleased = false := hreleased
      have hfound : state.best.isSome = true := hfound
      simpa [releasesInitialResults, hreleased, hfound, EventLog.endsUnreleased, log]
        using hkeeps
  · rw [hstop]
    simp only [Bool.not_false, if_true]
    refine .stops _ (hunstopped.refused rfl (by simp [RouteSearchEvent.isInitialResults])
      ?_ _ _) rfl
    intro hfound
    have hbest := (hunstopped.reported callback).best hfound
    simpa [log] using hbest

theorem Advances.of_finality {other : StreamingSession (κ × EventLog)}
    {result : StreamingSession (κ × EventLog) × Bool}
    (hresult : Advances streaming other result)
    (hfinality : other.state.stopFinality = session.state.stopFinality) :
    Advances streaming session result := by
  cases hresult with
  | continues next hlive hnext => exact .continues next hlive (hnext.trans hfinality)
  | policy next hlive hnext => exact .policy next hlive hnext
  | stops next hrefused hnext => exact .stops next hrefused hnext

theorem emitRouteFound_advances (hsession : session.Live streaming)
    (hfinality : session.state.stopFinality = none) (phase : RouteSearchPhase)
    (rank : Option ℕ) (quote : RouteQuote) :
    Advances streaming session
      (session.emitRouteFound streaming (logged onEvent) phase rank quote) := by
  unfold emitRouteFound
  split
  · exact emitOrStop_advances hsession hfinality rfl rfl
  · exact .continues _ hsession rfl

theorem emitObserved_advances (hsession : session.Unstopped streaming)
    (hfinality : session.state.stopFinality = none) (phase : RouteSearchPhase)
    (releasedBefore : Bool) (rank : Option ℕ) (quote : RouteQuote)
    (improvement : Option (Option RouteQuote)) :
    Advances streaming session (session.emitObserved streaming (logged onEvent) phase
      releasedBefore rank quote improvement) := by
  have hprogress := @emitProgressAndApplyPolicies_advances κ onEvent streaming session
    hsession phase
  unfold emitObserved
  generalize emitProgressAndApplyPolicies streaming (logged onEvent) session phase =
    result at hprogress ⊢
  cases hprogress with
  | policy next hlive hnext => exact .policy next hlive hnext
  | stops next hrefused hnext => exact .stops next hrefused hnext
  | continues next hlive hnext =>
      have hnone : next.state.stopFinality = none := hnext.trans hfinality
      simp only [Bool.not_true, Bool.false_eq_true, if_false]
      split
      · exact .continues next hlive hnext
      · split
        · exact (emitRouteFound_advances hlive hnone phase rank quote).of_finality hnext
        · rename_i previous
          have hupdated : Advances streaming next (next.emitOrStop (logged onEvent)
            (.bestUpdated phase quote previous .provisional)) :=
            emitOrStop_advances hlive hnone rfl rfl
          generalize emitOrStop (logged onEvent) next _ = updated at hupdated ⊢
          cases hupdated with
          | policy last hlive hlast => exact .policy last hlive hlast
          | stops last hrefused hlast => exact .stops last hrefused hlast
          | continues last hlive hlast =>
              simp only [Bool.not_true, Bool.false_eq_true, if_false]
              exact (emitRouteFound_advances hlive (hlast.trans hnone) phase rank
                quote).of_finality (hlast.trans hnext)

/-- What the events of a session depend on besides its best quote. -/
theorem recordTopRoute_flags (state : StreamingRouteState) (quote : RouteQuote) :
    (state.recordTopRoute streaming quote).1.initialResultsReleased =
        state.initialResultsReleased ∧
      (state.recordTopRoute streaming quote).1.stopFinality = state.stopFinality := by
  unfold StreamingRouteState.recordTopRoute
  split <;> exact ⟨rfl, rfl⟩

theorem observeQuote_advances (hsession : session.Live streaming)
    (hfinality : session.state.stopFinality = none) (phase : RouteSearchPhase)
    (quote : RouteQuote) :
    Advances streaming session
      (session.observeQuote streaming (logged onEvent) phase quote) := by
  obtain ⟨hreleased, hstopFinality⟩ := @recordTopRoute_flags streaming
    { session.state with
      progressPhase := some phase
      routesObserved := session.state.routesObserved + 1 } quote
  unfold observeQuote
  simp only
  generalize StreamingRouteState.recordTopRoute streaming _ quote = recorded
    at hreleased hstopFinality ⊢
  obtain ⟨state, rank⟩ := recorded
  have hnone : state.stopFinality = none := hstopFinality.trans hfinality
  have hunstopped : ∀ best improvements, Unstopped streaming
      (⟨{ state with best := best, improvementsAfterHeuristic := improvements },
        session.callback⟩ : StreamingSession (κ × EventLog)) := by
    intro best improvements
    refine ⟨hsession.continued, ?_, Or.inl hnone⟩
    exact fun hshows => hreleased.trans (hsession.released hshows)
  split
  · refine (emitObserved_advances ?_ ?_ phase _ _ quote _).of_finality ?_
    · exact hunstopped (some quote) _
    · exact hnone
    · exact hstopFinality
  · refine (emitObserved_advances ?_ ?_ phase _ _ quote _).of_finality ?_
    · exact hunstopped state.best state.improvementsAfterHeuristic
    · exact hnone
    · exact hstopFinality

theorem observeFailedCandidates_advances (hsession : session.Live streaming)
    (phase : RouteSearchPhase) (count : ℕ) :
    Advances streaming session
      (session.observeFailedCandidates streaming (logged onEvent) phase count) := by
  unfold observeFailedCandidates
  split
  · exact .continues _ hsession rfl
  · refine (emitProgressAndApplyPolicies_advances ?_ phase).of_finality rfl
    exact ⟨hsession.continued, hsession.released, hsession.finality⟩

theorem finishHeuristicPhase_advances (hsession : session.Live streaming) :
    Advances streaming session
      (session.finishHeuristicPhase streaming (logged onEvent)) := by
  refine (emitProgressAndApplyPolicies_advances ?_ _).of_finality rfl
  exact ⟨hsession.continued, hsession.released, hsession.finality⟩

theorem setTotalCandidates_advances (hsession : session.Live streaming) (total : ℕ) :
    Advances streaming session
      (session.setTotalCandidates streaming (logged onEvent) total) := by
  refine (emitProgressAndApplyPolicies_advances ?_ _).of_finality rfl
  exact ⟨hsession.continued, hsession.released, hsession.finality⟩

end StreamingSession

namespace StreamRun

/-- A run that neither the callback nor the stop policy has ended. -/
structure Open (streaming : StreamingSearchConfig) (run : StreamRun (κ × EventLog)) :
    Prop where
  live : run.session.Live streaming
  finality : run.session.state.stopFinality = none

/-- A run that the callback has ended. -/
structure Refused (run : StreamRun (κ × EventLog)) : Prop where
  refused : run.session.Refused
  finality : run.session.state.stopFinality = some .stopped

/-- A run that the stop policy has ended. -/
structure Satisfied (streaming : StreamingSearchConfig) (run : StreamRun (κ × EventLog)) :
    Prop where
  live : run.session.Live streaming
  finality : run.session.state.stopFinality = some .stopPolicySatisfied

/-- An observer that advances the session keeps a run open until it refuses. -/
theorem watches_of_advances
    {onQuote : StreamRun (κ × EventLog) → RouteQuote → StreamRun (κ × EventLog) × Bool}
    {phase : RouteSearchPhase}
    (hsession : ∀ run quote, ((onQuote run quote).1.session, (onQuote run quote).2) =
      run.session.observeQuote streaming (logged onEvent) phase quote) :
    FanIn.Watches onQuote (fun _ => True) (Open streaming)
      fun run => run.Refused ∨ run.Satisfied streaming := by
  constructor
  · intro run quote _ hopen hkeep
    have hadvances := @StreamingSession.observeQuote_advances κ onEvent streaming
      run.session hopen.live hopen.finality phase quote
    rw [← hsession, hkeep] at hadvances
    cases hadvances with
    | continues _ hlive hfinality => exact ⟨hlive, hfinality.trans hopen.finality⟩
  · intro run quote _ hopen hkeep
    have hadvances := @StreamingSession.observeQuote_advances κ onEvent streaming
      run.session hopen.live hopen.finality phase quote
    rw [← hsession, hkeep] at hadvances
    cases hadvances with
    | policy _ hlive hfinality => exact Or.inr ⟨hlive, hfinality⟩
    | stops _ hrefused hfinality => exact Or.inl ⟨hrefused, hfinality⟩

theorem watches_observeHeuristic :
    FanIn.Watches (observeHeuristic streaming (logged onEvent)) (fun _ => True) (Open streaming)
      fun run => run.Refused ∨ run.Satisfied streaming :=
  watches_of_advances fun _ _ => rfl

theorem watches_observeExhaustive :
    FanIn.Watches (observeExhaustive streaming (logged onEvent)) (fun _ => True) (Open streaming)
      fun run => run.Refused ∨ run.Satisfied streaming :=
  watches_of_advances fun _ _ => rfl

/-- The run after its first event. -/
theorem open_started (callback : κ) (event : RouteSearchEvent)
    (hevent : event.isInitialResults = false) :
    Open streaming ({ session := ⟨.new streaming, (callback, [(event, .continue)])⟩ } :
      StreamRun (κ × EventLog)) := by
  refine ⟨⟨⟨?_, ?_, Or.inl rfl⟩, ?_, ?_⟩, rfl⟩
  · intro entry hentry
    rw [List.mem_singleton.mp hentry]
  · intro hshows
    simp [StreamingSession.log, EventLog.showsInitialResults, hevent] at hshows
  · intro hbest
    cases hbest
  · intro hfinality
    cases hfinality

/-- The last events of a stream and its report: results that were still held back, and
the completed report. -/
theorem finish_logged (run : StreamRun (κ × EventLog)) (finality : SearchFinality)
    (emitCompleted : Bool) :
    ∃ report released completed,
      (run.finish streaming (logged onEvent) finality emitCompleted).2 =
        .ok ⟨report, run.observedQuotes⟩ ∧
      (run.finish streaming (logged onEvent) finality emitCompleted).1.2 =
        run.session.log ++ (released ++ completed) ∧
      (completed = [] ∨ ∃ answer, completed = [(.completed report, answer)]) ∧
      ((released = [] ∧ report = run.session.state.report finality ∧
          (run.session.state.initialResultsReleased = true ∨
            streaming.initialResultPolicy = none ∨ run.session.state.best = none)) ∨
        run.session.state.initialResultsReleased = false ∧
          streaming.initialResultPolicy.isSome = true ∧
          ∃ (best : RouteQuote) (answer : SearchControl), run.session.state.best = some best ∧
            released = [(.initialResultsReady (run.session.state.finalProgress finality) best
              run.session.state.topRoutes, answer)] ∧
            report = ({ run.session.state with
              initialResultsReleased := true }).report
                (if answer = SearchControl.continue then finality else .stopped)) := by
  have hcompleted : ∀ (callback : κ × EventLog) (report : StreamingSearchReport),
      ∃ completed : EventLog, (if emitCompleted then
          (emitSearchEvent (logged onEvent) callback (.completed report)).1
        else callback).2 = callback.2 ++ completed ∧
        (completed = [] ∨ ∃ answer, completed = [(.completed report, answer)]) := by
    intro callback report
    cases emitCompleted with
    | false => exact ⟨[], (List.append_nil _).symm, Or.inl rfl⟩
    | true => exact ⟨_, rfl, Or.inr ⟨_, rfl⟩⟩
  have hfinish : ∀ (session : StreamingSession (κ × EventLog)) (released : Bool),
      run.session.releaseInitialResultsAtCompletion streaming (logged onEvent) finality =
        (session, released) →
      ∃ completed : EventLog,
        (run.finish streaming (logged onEvent) finality emitCompleted).2 =
          .ok ⟨session.state.report (if released then finality else .stopped),
            run.observedQuotes⟩ ∧
        (run.finish streaming (logged onEvent) finality emitCompleted).1.2 =
          session.log ++ completed ∧
        (completed = [] ∨ ∃ answer, completed = [(.completed (session.state.report
          (if released then finality else .stopped)), answer)]) := by
    intro session released hrelease
    obtain ⟨completed, hlog, hcases⟩ := hcompleted session.callback
      (session.state.report (if released then finality else .stopped))
    refine ⟨completed, ?_, ?_, hcases⟩
    · simp only [finish, StreamingSession.finishStreamReport, hrelease]
      cases emitCompleted <;> rfl
    · simp only [finish, StreamingSession.finishStreamReport, hrelease]
      rw [show session.log = session.callback.2 from rfl, ← hlog]
      cases emitCompleted <;> rfl
  rcases @StreamingSession.releaseAtCompletion_cases κ onEvent streaming run.session
    finality with
    ⟨hnothing, hsettled⟩ | ⟨hreleased, hpolicy, best, callback, hbest, hcontinue | hstop⟩
  · obtain ⟨completed, hreport, hlog, hcases⟩ := hfinish _ _ hnothing
    exact ⟨_, [], completed, hreport, hlog, hcases, Or.inl ⟨rfl, rfl, hsettled⟩⟩
  · obtain ⟨completed, hreport, hlog, hcases⟩ := hfinish _ _ hcontinue
    refine ⟨_, _, completed, hreport, hlog.trans (List.append_assoc _ _ _), hcases, ?_⟩
    exact Or.inr ⟨hreleased, hpolicy, best, SearchControl.continue, hbest, rfl, rfl⟩
  · obtain ⟨completed, hreport, hlog, hcases⟩ := hfinish _ _ hstop
    refine ⟨_, _, completed, hreport, hlog.trans (List.append_assoc _ _ _), hcases, ?_⟩
    exact Or.inr ⟨hreleased, hpolicy, best, SearchControl.stop, hbest, rfl, rfl⟩

end StreamRun

end Sessions

end AmmSearch
