/-
The ranking of a stream and the quotes that it announces.  The best quote is the first
one of the largest amount, the top routes are the best of the observed routes, and the
events announce each best quote once its stream may show it.
-/
import AmmSearch.StableRanking
import AmmSearch.StreamProgress

open FiniteMap StableGraph

namespace AmmSearch

/-- The first quote of the largest amount; `none` without quotes. -/
def IsFirstBest (quotes : List RouteQuote) : Option RouteQuote → Prop
  | none => quotes = []
  | some best => ∃ front back, quotes = front ++ best :: back ∧
      (∀ quote ∈ front, quote.amountOut < best.amountOut) ∧
      ∀ quote ∈ back, quote.amountOut ≤ best.amountOut

/-- The best routes of the observed quotes: one quote for each path, in descending order,
earlier ones first. -/
def bestRoutes (count : ℕ) (quotes : List RouteQuote) : List RouteQuote :=
  (sortByAmountOut (StableRanking.distinct RouteQuote.path quotes)).take count

/-- The quotes of one path agree. -/
def Consistent (quotes : List RouteQuote) : Prop :=
  ∀ first ∈ quotes, ∀ second ∈ quotes, first.path = second.path → first = second

theorem IsFirstBest.concat {quotes : List RouteQuote} {best : Option RouteQuote}
    (hbest : IsFirstBest quotes best) (quote : RouteQuote) :
    IsFirstBest (quotes ++ [quote])
      (if best.all fun best => best.amountOut < quote.amountOut then some quote
      else best) := by
  cases best with
  | none =>
      obtain rfl : quotes = [] := hbest
      exact ⟨[], [], rfl, nofun, nofun⟩
  | some best =>
      obtain ⟨front, back, rfl, hfront, hback⟩ := hbest
      by_cases hlarger : best.amountOut < quote.amountOut
      · rw [if_pos (by simpa using hlarger)]
        refine ⟨front ++ best :: back, [], rfl, ?_, nofun⟩
        intro other hother
        rcases List.mem_append.mp hother with hold | hrest
        · exact (hfront other hold).trans hlarger
        · rcases List.mem_cons.mp hrest with rfl | hlater
          · exact hlarger
          · exact (hback other hlater).trans_lt hlarger
      · rw [if_neg (by simpa using hlarger)]
        refine ⟨front, back ++ [quote], by simp, hfront, ?_⟩
        intro other hother
        rcases List.mem_append.mp hother with hold | hlast
        · exact hback other hold
        · rw [List.mem_singleton.mp hlast]
          exact not_lt.mp hlarger

theorem IsFirstBest.le {quotes : List RouteQuote} {best : Option RouteQuote}
    (hbest : IsFirstBest quotes best) {quote : RouteQuote} (hquote : quote ∈ quotes) :
    ∃ larger ∈ best, quote.amountOut ≤ larger.amountOut := by
  cases best with
  | none =>
      obtain rfl : quotes = [] := hbest
      cases hquote
  | some best =>
      obtain ⟨front, back, rfl, hfront, hback⟩ := hbest
      refine ⟨best, rfl, ?_⟩
      rcases List.mem_append.mp hquote with hold | hrest
      · exact (hfront quote hold).le
      · rcases List.mem_cons.mp hrest with rfl | hlater
        · exact le_rfl
        · exact hback quote hlater

theorem bestRoutes_nil (count : ℕ) : bestRoutes count [] = [] :=
  List.take_nil

/-- A route that is already observed changes nothing, another one is placed. -/
theorem bestRoutes_concat (count : ℕ) (quotes : List RouteQuote) (quote : RouteQuote) :
    bestRoutes count (quotes ++ [quote]) =
      if quote.path ∈ quotes.map RouteQuote.path then bestRoutes count quotes
      else (StableRanking.place RouteQuote.amountOut quote
        (bestRoutes count quotes)).take count := by
  unfold bestRoutes
  rw [StableRanking.distinct_concat]
  split
  · rfl
  · change (StableRanking.ranked RouteQuote.amountOut _).take count = _
    rw [StableRanking.ranked_concat, ← StableRanking.take_place]
    rfl

theorem mem_of_mem_bestRoutes {count : ℕ} {quotes : List RouteQuote} {quote : RouteQuote}
    (hmem : quote ∈ bestRoutes count quotes) : quote ∈ quotes :=
  StableRanking.mem_of_mem_distinct
    (StableRanking.mem_ranked.mp (List.mem_of_mem_take hmem))

namespace StreamingRouteState

variable {streaming : StreamingSearchConfig}

/-- The ranking of a state after it has observed the quotes. -/
structure Ranked (streaming : StreamingSearchConfig) (quotes : List RouteQuote)
    (state : StreamingRouteState) : Prop where
  best : IsFirstBest quotes state.best
  topRoutes : state.topRoutes = bestRoutes streaming.topK quotes
  head : 1 ≤ streaming.topK → state.topRoutes.head? = state.best
  heuristicBest : state.best = none → state.heuristicBest = none

variable {quotes : List RouteQuote} {state : StreamingRouteState}

theorem Ranked.emits (hstate : state.Ranked streaming quotes) {after : StreamingRouteState}
    (hemits : state.Emits after) : after.Ranked streaming quotes where
  best := hemits.best ▸ hstate.best
  topRoutes := hemits.topRoutes.trans hstate.topRoutes
  head := fun hcount => by rw [hemits.topRoutes, hemits.best, hstate.head hcount]
  heuristicBest := by
    rw [hemits.best, hemits.heuristicBest]
    exact hstate.heuristicBest

/-- Recording a quote places it among the retained routes. -/
theorem topRoutes_recordTopRoute (state : StreamingRouteState) (quote : RouteQuote) :
    (state.recordTopRoute streaming quote).1.topRoutes =
      if quote.path ∈ state.topRoutes.map RouteQuote.path then state.topRoutes
      else (sortByAmountOut (state.topRoutes ++ [quote])).take streaming.topK := by
  unfold recordTopRoute
  by_cases hmem : quote.path ∈ state.topRoutes.map RouteQuote.path
  · have hany : (state.topRoutes.any fun existing => existing.path == quote.path) = true := by
      obtain ⟨existing, hexisting, hpath⟩ := List.mem_map.mp hmem
      exact List.any_eq_true.mpr ⟨existing, hexisting, beq_iff_eq.mpr hpath⟩
    rw [if_pos hany, if_pos hmem]
  · have hany : ¬ (state.topRoutes.any fun existing => existing.path == quote.path) = true := by
      intro hany
      obtain ⟨existing, hexisting, hpath⟩ := List.any_eq_true.mp hany
      exact hmem (List.mem_map.mpr ⟨existing, hexisting, beq_iff_eq.mp hpath⟩)
    rw [if_neg hany, if_neg hmem]

theorem sorted_bestRoutes (count : ℕ) (quotes : List RouteQuote) :
    sortByAmountOut (bestRoutes count quotes) = bestRoutes count quotes := by
  apply List.Pairwise.insertionSort_eq
  have hsorted := @StableRanking.sorted_ranked _ _ _ RouteQuote.amountOut
    (StableRanking.distinct RouteQuote.path quotes)
  exact hsorted.sublist (List.take_sublist _ _)

theorem placed_bestRoutes (count : ℕ) (quotes : List RouteQuote) (quote : RouteQuote) :
    sortByAmountOut (bestRoutes count quotes ++ [quote]) =
      StableRanking.place RouteQuote.amountOut quote (bestRoutes count quotes) := by
  refine (StableRanking.ranked_concat _ _).trans ?_
  rw [show StableRanking.ranked RouteQuote.amountOut (bestRoutes count quotes) =
    bestRoutes count quotes from sorted_bestRoutes _ _]

theorem Ranked.topRoutes_rankQuote (hstate : state.Ranked streaming quotes)
    {quote : RouteQuote} (hconsistent : Consistent (quotes ++ [quote])) :
    (state.recordTopRoute streaming quote).1.topRoutes =
      bestRoutes streaming.topK (quotes ++ [quote]) := by
  rw [topRoutes_recordTopRoute, bestRoutes_concat, hstate.topRoutes, placed_bestRoutes]
  by_cases hkept : quote.path ∈ (bestRoutes streaming.topK quotes).map RouteQuote.path
  · have hseen : quote.path ∈ quotes.map RouteQuote.path := by
      obtain ⟨existing, hexisting, hpath⟩ := List.mem_map.mp hkept
      exact List.mem_map.mpr ⟨existing, mem_of_mem_bestRoutes hexisting, hpath⟩
    rw [if_pos hkept, if_pos hseen]
  · rw [if_neg hkept]
    by_cases hseen : quote.path ∈ quotes.map RouteQuote.path
    · -- the route was observed before and has dropped out of the retained ones
      rw [if_pos hseen]
      obtain ⟨existing, hexisting, hpath⟩ := List.mem_map.mp hseen
      obtain ⟨first, hfirst, hlabel⟩ :=
        @StableRanking.exists_mem_distinct _ _ _ RouteQuote.path _ _ hexisting
      have hsame : first = quote := by
        apply hconsistent first
          (List.mem_append_left _ (StableRanking.mem_of_mem_distinct hfirst)) quote
        · exact List.mem_append_right _ List.mem_cons_self
        · exact hlabel.trans hpath
      apply StableRanking.take_place_of_mem (StableRanking.sorted_ranked _)
      · rw [← hsame]
        exact StableRanking.mem_ranked.mpr hfirst
      · intro hmem
        exact hkept (List.mem_map.mpr ⟨quote, hmem, rfl⟩)
    · rw [if_neg hseen]

/-- Placing a quote keeps the head, or the quote becomes the head when it is larger. -/
theorem head_place (quote : RouteQuote) (quotes : List RouteQuote) :
    (StableRanking.place RouteQuote.amountOut quote quotes).head? =
      if quotes.head?.all fun best => best.amountOut < quote.amountOut then some quote
      else quotes.head? := by
  cases quotes with
  | nil => rfl
  | cons head tail =>
      unfold StableRanking.place
      by_cases hle : quote.amountOut ≤ head.amountOut
      · simp [hle, not_lt.mpr hle]
      · simp [hle, not_le.mp hle]

/-- Observing a quote keeps the ranking. -/
theorem Ranked.rankQuote (hstate : state.Ranked streaming quotes) (phase : RouteSearchPhase)
    {quote : RouteQuote} (hconsistent : Consistent (quotes ++ [quote])) :
    (StreamingSession.rankQuote streaming phase state quote).Ranked streaming
      (quotes ++ [quote]) where
  best := hstate.best.concat quote
  topRoutes := hstate.topRoutes_rankQuote hconsistent
  head := by
    intro hcount
    have hbest := hstate.head hcount
    change (state.recordTopRoute streaming quote).1.topRoutes.head? = if _ then _ else _
    rw [topRoutes_recordTopRoute]
    split
    · -- a retained route is no larger than the best one
      rename_i hkept
      obtain ⟨existing, hexisting, hpath⟩ := List.mem_map.mp hkept
      have hobserved : existing ∈ quotes := by
        rw [hstate.topRoutes] at hexisting
        exact mem_of_mem_bestRoutes hexisting
      obtain rfl : existing = quote :=
        hconsistent existing (List.mem_append_left _ hobserved) quote
          (List.mem_append_right _ List.mem_cons_self) hpath
      obtain ⟨best, hlarger, hle⟩ := hstate.best.le hobserved
      rw [hbest, show state.best = some best from hlarger, Option.all_some,
        if_neg (by simpa using hle)]
    · have hplaced : sortByAmountOut (state.topRoutes ++ [quote]) =
          StableRanking.place RouteQuote.amountOut quote state.topRoutes := by
        rw [hstate.topRoutes]
        exact placed_bestRoutes _ _ _
      rw [hplaced, List.head?_take, if_neg (Nat.one_le_iff_ne_zero.mp hcount), head_place,
        hbest]
  heuristicBest := by
    intro hnone
    exfalso
    have hnone : (if state.best.all fun best => best.amountOut < quote.amountOut then
      some quote else state.best) = none := hnone
    cases hbest : state.best with
    | none => simp [hbest] at hnone
    | some best =>
        rw [hbest] at hnone
        split at hnone <;> cases hnone

end StreamingRouteState

namespace StreamRun

variable {κ : Type} {onEvent : EventCallback κ} {streaming : StreamingSearchConfig}

/-- A run that has observed quotes of their paths, and their ranking. -/
structure Ranked (streaming : StreamingSearchConfig) (env : QuoteEnv) (amountIn : U256)
    (run : StreamRun κ) : Prop where
  state : run.session.state.Ranked streaming run.observedQuotes
  gives : ∀ quote ∈ run.observedQuotes, env.Gives amountIn quote

variable {env : QuoteEnv} {amountIn : U256} {run : StreamRun κ}
  {result : StreamRun κ × Bool}

/-- Quoting gives one quote for each path. -/
theorem consistent_of_gives {quotes : List RouteQuote}
    (hgives : ∀ quote ∈ quotes, env.Gives amountIn quote) : Consistent quotes := by
  intro first hfirst second hsecond hpath
  have hleft := hgives first hfirst
  have hright := hgives second hsecond
  unfold QuoteEnv.Gives at hleft hright
  rw [hpath, hright] at hleft
  exact (Except.ok.inj hleft).symm

theorem Ranked.observeQuote (hrun : run.Ranked streaming env amountIn)
    (phase : RouteSearchPhase) {quote : RouteQuote} (hquote : env.Gives amountIn quote) :
    (run.session.observeQuote streaming onEvent phase quote).1.state.Ranked streaming
        (run.observedQuotes ++ [quote]) ∧
      ∀ other ∈ run.observedQuotes ++ [quote], env.Gives amountIn other := by
  have hgives : ∀ other ∈ run.observedQuotes ++ [quote], env.Gives amountIn other := by
    intro other hother
    rcases List.mem_append.mp hother with hold | hlast
    · exact hrun.gives other hold
    · exact List.mem_singleton.mp hlast ▸ hquote
  refine ⟨?_, hgives⟩
  exact (hrun.state.rankQuote phase (consistent_of_gives hgives)).emits
    (StreamingSession.observeQuote_emits _ _ _)

theorem Step.ranked (hrun : run.Ranked streaming env amountIn)
    (hstep : Step streaming onEvent (env.Gives amountIn) run result) :
    result.1.Ranked streaming env amountIn := by
  obtain ⟨hbest, htop, hhead, hheuristic⟩ := hrun.state
  cases hstep with
  | heuristicQuote quote hquote =>
      obtain ⟨hstate, hgives⟩ := hrun.observeQuote .heuristic hquote
      exact ⟨hstate, hgives⟩
  | exhaustiveQuote quote hquote =>
      obtain ⟨hstate, hgives⟩ := hrun.observeQuote .exhaustive hquote
      exact ⟨hstate, hgives⟩
  | failures phase count =>
      have hcounted : (StreamingSession.countFailures phase count
          run.session.state).Ranked streaming run.observedQuotes :=
        ⟨hbest, htop, hhead, hheuristic⟩
      exact ⟨hcounted.emits (StreamingSession.observeFailedCandidates_emits _ _ _),
        hrun.gives⟩
  | evaluated paths => exact ⟨hrun.state, hrun.gives⟩
  | heuristicDone =>
      have hdone : (StreamingSession.completeHeuristic run.session.state).Ranked streaming
          run.observedQuotes := ⟨hbest, htop, hhead, id⟩
      exact ⟨hdone.emits (StreamingSession.finishHeuristicPhase_emits _), hrun.gives⟩
  | phaseCompleted phase => exact ⟨hrun.state, hrun.gives⟩
  | skipped duplicates => exact ⟨⟨hbest, htop, hhead, hheuristic⟩, hrun.gives⟩
  | total count hnew =>
      have htotal : (StreamingSession.fixTotal count run.session.state).Ranked streaming
          run.observedQuotes := ⟨hbest, htop, hhead, hheuristic⟩
      exact ⟨htotal.emits (StreamingSession.setTotalCandidates_emits _ _), hrun.gives⟩
  | exhaustiveDone => exact ⟨⟨hbest, htop, hhead, hheuristic⟩, hrun.gives⟩

end StreamRun

/-- The quotes that an event carries. -/
def RouteSearchEvent.quotes : RouteSearchEvent → List RouteQuote
  | .routeFound _ _ quote => [quote]
  | .bestUpdated _ quote previousBest _ => quote :: previousBest.toList
  | .initialResultsReady _ best topRoutes => best :: topRoutes
  | .completed report => report.best.toList ++ report.heuristicBest.toList ++ report.topRoutes
  | _ => []

/-- The best quote that an event announces. -/
def RouteSearchEvent.announced? : RouteSearchEvent → Option RouteQuote
  | .bestUpdated _ quote _ _ => some quote
  | .initialResultsReady _ best _ => some best
  | _ => none

def RouteSearchEvent.updated? : RouteSearchEvent → Option RouteQuote
  | .bestUpdated _ quote _ _ => some quote
  | _ => none

namespace EventLog

/-- The announced quotes, in order. -/
def announced (log : EventLog) : List RouteQuote :=
  log.filterMap fun entry => entry.1.announced?

/-- The quotes of the `BestUpdated` events, in order. -/
def updates (log : EventLog) : List RouteQuote :=
  log.filterMap fun entry => entry.1.updated?

/-- What a log announces.  Every update exceeds the one before it and names the quote that
was announced last; gated results come first, and once. -/
structure Announces (streaming : StreamingSearchConfig) (log : EventLog) : Prop where
  increasing : log.updates.Pairwise fun earlier later => earlier.amountOut < later.amountOut
  previous : ∀ (before : EventLog) phase quote previousBest status answer after,
    log = before ++ (.bestUpdated phase quote previousBest status, answer) :: after →
      previousBest = before.announced.getLast?
  gated : streaming.initialResultPolicy.isSome = true →
    ∀ (before : EventLog) event answer after, log = before ++ (event, answer) :: after →
      before.showsInitialResults = false → event.isInitialResults = false → event.quotes = []
  once : (log.filter fun entry => entry.1.isInitialResults).length ≤ 1

theorem announced_concat (log : EventLog) (event : RouteSearchEvent)
    (answer : SearchControl) :
    announced (log ++ [(event, answer)]) = log.announced ++ event.announced?.toList := by
  unfold announced
  rw [List.filterMap_append]
  cases hquote : event.announced? with
  | none => simp [hquote]
  | some quote => simp [hquote]

theorem updates_concat (log : EventLog) (event : RouteSearchEvent) (answer : SearchControl) :
    updates (log ++ [(event, answer)]) = log.updates ++ event.updated?.toList := by
  unfold updates
  rw [List.filterMap_append]
  cases hquote : event.updated? with
  | none => simp [hquote]
  | some quote => simp [hquote]

/-- Every update is announced. -/
theorem mem_announced_of_mem_updates {log : EventLog} {quote : RouteQuote}
    (hquote : quote ∈ log.updates) : quote ∈ log.announced := by
  obtain ⟨entry, hentry, hupdated⟩ := List.mem_filterMap.mp hquote
  apply List.mem_filterMap.mpr
  refine ⟨entry, hentry, ?_⟩
  cases hevent : entry.1 with
  | bestUpdated phase best previousBest status =>
      rw [hevent] at hupdated
      exact hupdated
  | _ =>
      rw [hevent] at hupdated
      cases hupdated

/-- An entry of a longer log is the last one or an entry of the log. -/
theorem concat_eq_split {log before after : EventLog}
    {last entry : RouteSearchEvent × SearchControl}
    (hsplit : log ++ [last] = before ++ entry :: after) :
    (log = before ∧ last = entry) ∨ ∃ rest, log = before ++ entry :: rest := by
  rcases List.eq_nil_or_concat after with rfl | ⟨rest, final, rfl⟩
  · obtain ⟨hlog, hlast⟩ := List.append_inj' hsplit rfl
    exact Or.inl ⟨hlog, List.singleton_inj.mp hlast⟩
  · right
    rw [List.concat_eq_append, ← List.cons_append, ← List.append_assoc] at hsplit
    exact ⟨rest, (List.append_inj' hsplit rfl).1⟩

variable {streaming : StreamingSearchConfig} {log : EventLog}

theorem Announces.concat (hlog : log.Announces streaming) {event : RouteSearchEvent}
    (hupdate : ∀ phase quote previousBest status,
      event = .bestUpdated phase quote previousBest status →
        previousBest = log.announced.getLast? ∧
          ∀ earlier ∈ log.updates, earlier.amountOut < quote.amountOut)
    (hgated : streaming.initialResultPolicy.isSome = true → log.showsInitialResults = false →
      event.isInitialResults = false → event.quotes = [])
    (honce : event.isInitialResults = true → log.showsInitialResults = false)
    (answer : SearchControl) : Announces streaming (log ++ [(event, answer)]) where
  increasing := by
    rw [updates_concat, List.pairwise_append]
    refine ⟨hlog.increasing, ?_, ?_⟩
    · cases event.updated? with
      | none => exact List.Pairwise.nil
      | some quote => exact List.pairwise_singleton _ _
    · intro earlier hearlier later hlater
      cases hevent : event with
      | bestUpdated phase quote previousBest status =>
          rw [hevent] at hlater
          obtain rfl := List.mem_singleton.mp hlater
          exact (hupdate _ _ _ _ hevent).2 earlier hearlier
      | _ =>
          rw [hevent] at hlater
          cases hlater
  previous := by
    intro before phase quote previousBest status answer' after hsplit
    rcases concat_eq_split hsplit with ⟨rfl, hlast⟩ | ⟨rest, hrest⟩
    · exact (hupdate _ _ _ _ (Prod.mk.inj hlast).1).1
    · exact hlog.previous before phase quote previousBest status answer' rest hrest
  gated := by
    intro hpolicy before other answer' after hsplit hbefore hother
    rcases concat_eq_split hsplit with ⟨rfl, hlast⟩ | ⟨rest, hrest⟩
    · obtain ⟨rfl, _⟩ := Prod.mk.inj hlast
      exact hgated hpolicy hbefore hother
    · exact hlog.gated hpolicy before other answer' rest hrest hbefore hother
  once := by
    rw [List.filter_append, List.length_append]
    cases hready : event.isInitialResults with
    | false => simpa [hready] using hlog.once
    | true =>
        have hnone : (log.filter fun entry => entry.1.isInitialResults) = [] := by
          rw [List.filter_eq_nil_iff]
          intro entry hentry hshown
          have hshows : log.showsInitialResults = true :=
            List.any_eq_true.mpr ⟨entry, hentry, hshown⟩
          rw [honce hready] at hshows
          cases hshows
        simp [hready, hnone]

end EventLog

namespace StreamingSession

variable {κ : Type} {onEvent : EventCallback κ} {streaming : StreamingSearchConfig}

/-- What a session has announced, and what it holds back. -/
structure Announcing (streaming : StreamingSearchConfig)
    (session : StreamingSession (κ × EventLog)) : Prop where
  announces : session.log.Announces streaming
  bound : ∀ quote ∈ session.log.announced,
    ∃ best ∈ session.state.best, quote.amountOut ≤ best.amountOut
  held : session.state.initialResultsReleased = false →
    ∀ entry ∈ session.log, entry.1.quotes = [] ∧ entry.1.isInitialResults = false
  shown : session.state.initialResultsReleased = true →
    streaming.initialResultPolicy.isSome = true → session.log.showsInitialResults = true
  ungated : streaming.initialResultPolicy = none → session.state.initialResultsReleased = true

/-- Once results are released, the best quote is the announced one. -/
def InSync (session : StreamingSession (κ × EventLog)) : Prop :=
  session.state.initialResultsReleased = true →
    session.log.announced.getLast? = session.state.best

variable {session : StreamingSession (κ × EventLog)}

theorem Announcing.held_showsInitialResults (hsession : session.Announcing streaming)
    (hheld : session.state.initialResultsReleased = false) :
    session.log.showsInitialResults = false := by
  unfold EventLog.showsInitialResults
  rw [List.any_eq_false]
  intro entry hentry
  simp [(hsession.held hheld entry hentry).2]

/-- An event of a session that is not the release of its results. -/
theorem Announcing.concat (hsession : session.Announcing streaming)
    {event : RouteSearchEvent} (hother : event.isInitialResults = false)
    (hupdate : ∀ phase quote previousBest status,
      event = .bestUpdated phase quote previousBest status →
        previousBest = session.log.announced.getLast? ∧
          (∀ earlier ∈ session.log.updates, earlier.amountOut < quote.amountOut) ∧
          session.state.best = some quote)
    (hheld : session.state.initialResultsReleased = false → event.quotes = [])
    (answer : SearchControl) (callback : κ) (finality : Option SearchFinality) :
    Announcing streaming ⟨{ session.state with stopFinality := finality },
      (callback, session.log ++ [(event, answer)])⟩ := by
  have hlog : ∀ state, log ⟨state, (callback, session.log ++ [(event, answer)])⟩ =
      session.log ++ [(event, answer)] := fun _ => rfl
  constructor
  · apply hsession.announces.concat
    · intro phase quote previousBest status hevent
      exact ⟨(hupdate _ _ _ _ hevent).1, (hupdate _ _ _ _ hevent).2.1⟩
    · intro hpolicy hnone _
      cases hreleased : session.state.initialResultsReleased with
      | false => exact hheld hreleased
      | true =>
          rw [hsession.shown hreleased hpolicy] at hnone
          cases hnone
    · intro hready
      rw [hother] at hready
      cases hready
  · intro quote hquote
    rw [hlog, EventLog.announced_concat] at hquote
    rcases List.mem_append.mp hquote with hold | hnew
    · exact hsession.bound quote hold
    · cases hevent : event with
      | bestUpdated phase best previousBest status =>
          rw [hevent] at hnew
          obtain rfl := List.mem_singleton.mp hnew
          exact ⟨quote, (hupdate _ _ _ _ hevent).2.2, le_rfl⟩
      | initialResultsReady progress best topRoutes =>
          rw [hevent] at hother
          cases hother
      | _ =>
          rw [hevent] at hnew
          cases hnew
  · intro hreleased entry hentry
    rcases List.mem_append.mp hentry with hold | hlast
    · exact hsession.held hreleased entry hold
    · rw [List.mem_singleton.mp hlast]
      exact ⟨hheld hreleased, hother⟩
  · intro hreleased hpolicy
    rw [hlog, EventLog.showsInitialResults_concat, hsession.shown hreleased hpolicy,
      Bool.true_or]
  · exact hsession.ungated

/-- An event that carries no quote. -/
theorem Announcing.emitOrStop (hsession : session.Announcing streaming)
    {event : RouteSearchEvent} (hother : event.isInitialResults = false)
    (hupdate : ∀ phase quote previousBest status,
      event = .bestUpdated phase quote previousBest status →
        previousBest = session.log.announced.getLast? ∧
          (∀ earlier ∈ session.log.updates, earlier.amountOut < quote.amountOut) ∧
          session.state.best = some quote)
    (hheld : session.state.initialResultsReleased = false → event.quotes = []) :
    let next := (session.emitOrStop (logged onEvent) event).1
    next.Announcing streaming ∧ next.state.best = session.state.best ∧
      next.state.topRoutes = session.state.topRoutes ∧
      next.state.initialResultsReleased = session.state.initialResultsReleased ∧
      next.log.announced = session.log.announced ++ event.announced?.toList ∧
      next.log.updates = session.log.updates ++ event.updated?.toList := by
  intro next
  obtain ⟨callback, hcontinue | hstop⟩ := @emitOrStop_logged κ onEvent session event
  · rw [show next = _ from congrArg Prod.fst hcontinue]
    exact ⟨hsession.concat hother hupdate hheld .continue callback _, rfl, rfl, rfl,
      EventLog.announced_concat _ _ _, EventLog.updates_concat _ _ _⟩
  · rw [show next = _ from congrArg Prod.fst hstop]
    exact ⟨hsession.concat hother hupdate hheld .stop callback _, rfl, rfl, rfl,
      EventLog.announced_concat _ _ _, EventLog.updates_concat _ _ _⟩

/-- The release of results that were held back announces the best quote. -/
theorem Announcing.release (hsession : session.Announcing streaming)
    (hheld : session.state.initialResultsReleased = false)
    (progress : RouteSearchProgress) {best : RouteQuote}
    (hbest : session.state.best = some best) (answer : SearchControl) (callback : κ)
    (finality : Option SearchFinality) :
    Announcing streaming ⟨{ session.state with
        initialResultsReleased := true
        stopFinality := finality },
      (callback, session.log ++ [(.initialResultsReady progress best
        session.state.topRoutes, answer)])⟩ := by
  have hnone := hsession.held_showsInitialResults hheld
  have hlog : ∀ state, StreamingSession.log ⟨state, (callback, session.log ++
      [(.initialResultsReady progress best session.state.topRoutes, answer)])⟩ =
      session.log ++ [(.initialResultsReady progress best session.state.topRoutes,
        answer)] := fun _ => rfl
  constructor
  · apply hsession.announces.concat
    · intro phase quote previousBest status hevent
      cases hevent
    · intro _ _ hother
      cases hother
    · exact fun _ => hnone
  · intro quote hquote
    rw [hlog, EventLog.announced_concat] at hquote
    rcases List.mem_append.mp hquote with hold | hnew
    · exact hsession.bound quote hold
    · obtain rfl := List.mem_singleton.mp hnew
      exact ⟨quote, hbest, le_rfl⟩
  · intro hreleased
    cases hreleased
  · intro _ _
    rw [hlog, EventLog.showsInitialResults_concat]
    exact Bool.or_true _
  · exact fun _ => rfl

theorem Announcing.releaseInitialResults (hsession : session.Announcing streaming)
    (hheld : session.state.initialResultsReleased = false)
    (progress : RouteSearchProgress) (hbest : session.state.best.isSome = true) :
    let next := (session.releaseInitialResults (logged onEvent) progress).1
    next.Announcing streaming ∧ next.state.initialResultsReleased = true ∧ next.InSync := by
  intro next
  obtain ⟨best, hsome⟩ := Option.isSome_iff_exists.mp hbest
  obtain ⟨callback, hcontinue | hstop⟩ :=
    @releaseInitialResults_logged κ onEvent session progress best hsome
  · rw [show next = _ from congrArg Prod.fst hcontinue]
    refine ⟨hsession.release hheld progress hsome .continue callback _, rfl, fun _ => ?_⟩
    simp [StreamingSession.log, EventLog.announced_concat, RouteSearchEvent.announced?, hsome]
  · rw [show next = _ from congrArg Prod.fst hstop]
    refine ⟨hsession.release hheld progress hsome .stop callback _, rfl, fun _ => ?_⟩
    simp [StreamingSession.log, EventLog.announced_concat, RouteSearchEvent.announced?, hsome]

/-- Progress is shown at any time; it may release the results. -/
theorem Announcing.emitProgressAndApplyPolicies (hsession : session.Announcing streaming)
    (phase : RouteSearchPhase) :
    let next := (session.emitProgressAndApplyPolicies streaming (logged onEvent) phase).1
    next.Announcing streaming ∧
      (session.state.initialResultsReleased = true →
        next.state.initialResultsReleased = true ∧
          next.log.announced = session.log.announced ∧
          next.log.updates = session.log.updates) ∧
      (session.state.initialResultsReleased = false → next.InSync) := by
  intro next
  have hentered : Announcing streaming
      { session with state := { session.state with progressPhase := some phase } } :=
    ⟨hsession.announces, hsession.bound, hsession.held, hsession.shown, hsession.ungated⟩
  obtain ⟨hemitted, hbest, _, hreleased, hannounced, hupdates⟩ :=
    @Announcing.emitOrStop κ onEvent streaming _ hentered
      (.progress { session.state with progressPhase := some phase }.progress) rfl
      (fun _ _ _ _ hevent => by cases hevent) fun _ => rfl
  simp only [next, StreamingSession.emitProgressAndApplyPolicies]
  generalize StreamingSession.emitOrStop (logged onEvent) _ _ = emitted
    at hemitted hbest hreleased hannounced hupdates ⊢
  obtain ⟨emitted, keep⟩ := emitted
  simp only [RouteSearchEvent.announced?, RouteSearchEvent.updated?, Option.toList_none,
    List.append_nil] at hemitted hbest hreleased hannounced hupdates ⊢
  have hquiet : emitted.Announcing streaming ∧
      (session.state.initialResultsReleased = true →
        emitted.state.initialResultsReleased = true ∧
          emitted.log.announced = session.log.announced ∧
          emitted.log.updates = session.log.updates) ∧
      (session.state.initialResultsReleased = false → emitted.InSync) := by
    refine ⟨hemitted, fun htrue => ⟨hreleased.trans htrue, hannounced, hupdates⟩, ?_⟩
    intro hfalse htrue
    rw [hreleased, hfalse] at htrue
    cases htrue
  split
  · exact hquiet
  · have hshown : ∀ result, (if releasesInitialResults streaming emitted.state
          { session.state with progressPhase := some phase }.progress = true then
        emitted.releaseInitialResults (logged onEvent)
          { session.state with progressPhase := some phase }.progress
        else (emitted, true)) = result →
        result.1.Announcing streaming ∧
          (session.state.initialResultsReleased = true →
            result.1.state.initialResultsReleased = true ∧
              result.1.log.announced = session.log.announced ∧
              result.1.log.updates = session.log.updates) ∧
          (session.state.initialResultsReleased = false → result.1.InSync) := by
      rintro result rfl
      split
      · rename_i hdue
        simp only [releasesInitialResults, Bool.and_eq_true, Bool.not_eq_true'] at hdue
        obtain ⟨hannouncing, hreleases, hsync⟩ := @Announcing.releaseInitialResults κ onEvent
          streaming emitted hemitted hdue.1.1
          { session.state with progressPhase := some phase }.progress hdue.1.2
        refine ⟨hannouncing, ?_, fun _ => hsync⟩
        intro htrue
        have hheld := hdue.1.1
        rw [hreleased] at hheld
        rw [show session.state.initialResultsReleased = false from hheld] at htrue
        cases htrue
      · exact hquiet
    generalize (if releasesInitialResults streaming emitted.state _ = true then _ else _) =
      released at hshown ⊢
    obtain ⟨hannouncing, hreleases, hsync⟩ := hshown released rfl
    obtain ⟨released, keep⟩ := released
    simp only at hannouncing hreleases hsync ⊢
    split
    · exact ⟨hannouncing, hreleases, hsync⟩
    · split
      · exact ⟨⟨hannouncing.announces, hannouncing.bound, hannouncing.held,
          hannouncing.shown, hannouncing.ungated⟩, hreleases, hsync⟩
      · exact ⟨hannouncing, hreleases, hsync⟩

/-- A found route is shown only once the results are released. -/
theorem Announcing.emitRouteFound (hsession : session.Announcing streaming)
    (hreleased : session.state.initialResultsReleased = true) (phase : RouteSearchPhase)
    (rank : Option ℕ) (quote : RouteQuote) :
    let next := (session.emitRouteFound streaming (logged onEvent) phase rank quote).1
    next.Announcing streaming ∧ next.state.best = session.state.best ∧
      next.log.announced = session.log.announced := by
  intro next
  simp only [next, StreamingSession.emitRouteFound]
  split
  · obtain ⟨hemitted, hbest, _, _, hannounced, _⟩ :=
      @Announcing.emitOrStop κ onEvent streaming session hsession
        (.routeFound phase rank quote) rfl (fun _ _ _ _ hevent => by cases hevent)
        fun hheld => by rw [hreleased] at hheld; cases hheld
    exact ⟨hemitted, hbest, hannounced.trans (List.append_nil _)⟩
  · exact ⟨hsession, rfl, rfl⟩

/-- The events of an observed quote.  The session has the quote as its best one already,
and the log still ends with the previous one, when it improves. -/
theorem Announcing.emitObserved (hsession : session.Announcing streaming)
    (phase : RouteSearchPhase) (rank : Option ℕ) (quote : RouteQuote)
    (improvement : Option (Option RouteQuote))
    (hkept : improvement = none → session.InSync)
    (himproved : ∀ previous, improvement = some previous → session.state.best = some quote ∧
      (∀ earlier ∈ session.log.updates, earlier.amountOut < quote.amountOut) ∧
      (session.state.initialResultsReleased = true →
        session.log.announced.getLast? = previous)) :
    let result := session.emitObserved streaming (logged onEvent) phase
      session.state.initialResultsReleased rank quote improvement
    result.1.Announcing streaming ∧ (result.2 = true → result.1.InSync) := by
  intro result
  have hemits := @emitProgressAndApplyPolicies_emits _ (logged onEvent) streaming session phase
  obtain ⟨hprogress, hopen, hheld⟩ :=
    @Announcing.emitProgressAndApplyPolicies κ onEvent streaming session hsession phase
  simp only [result, StreamingSession.emitObserved]
  generalize StreamingSession.emitProgressAndApplyPolicies streaming (logged onEvent) session
    phase = emitted at hemits hprogress hopen hheld ⊢
  obtain ⟨next, keep⟩ := emitted
  simp only at hemits hprogress hopen hheld ⊢
  split
  · exact ⟨hprogress, nofun⟩
  · cases hreleased : session.state.initialResultsReleased with
    | false =>
        rw [Bool.not_false, Bool.true_or, if_pos rfl]
        exact ⟨hprogress, fun _ => hheld hreleased⟩
    | true =>
        obtain ⟨hstill, hannounced, hupdates⟩ := hopen hreleased
        simp only [StreamingRouteState.justReleasedInitialResults, Bool.not_true,
          Bool.false_and, Bool.or_self, Bool.false_eq_true, if_false]
        cases improvement with
        | none =>
            obtain ⟨hfound, hbest, hsame⟩ :=
              @Announcing.emitRouteFound κ onEvent streaming next hprogress hstill phase rank
                quote
            refine ⟨hfound, fun _ _ => ?_⟩
            rw [hsame, hannounced, hbest, hemits.best]
            exact hkept rfl hreleased
        | some previous =>
            obtain ⟨hquote, hlarger, hlast⟩ := himproved previous rfl
            obtain ⟨hupdated, hbest, _, hopened, hlogged, _⟩ :=
              @Announcing.emitOrStop κ onEvent streaming next hprogress
                (.bestUpdated phase quote previous .provisional) rfl (by
                  intro _ _ _ _ hevent
                  cases hevent
                  refine ⟨?_, ?_, hemits.best.trans hquote⟩
                  · rw [hannounced]
                    exact (hlast hreleased).symm
                  · rw [hupdates]
                    exact hlarger)
                fun hheld => by rw [hstill] at hheld; cases hheld
            simp only
            generalize StreamingSession.emitOrStop (logged onEvent) next _ = updated
              at hupdated hbest hopened hlogged ⊢
            obtain ⟨updated, keep⟩ := updated
            simp only at hupdated hbest hopened hlogged ⊢
            split
            · exact ⟨hupdated, nofun⟩
            · obtain ⟨hfound, hbest', hsame⟩ :=
                @Announcing.emitRouteFound κ onEvent streaming updated hupdated
                  (hopened.trans hstill) phase rank quote
              refine ⟨hfound, fun _ _ => ?_⟩
              rw [hsame, hlogged, hbest', hbest, hemits.best, hquote]
              simp [RouteSearchEvent.announced?]

/-- A session that announces, and whose last announcement is its best quote. -/
structure Synced (streaming : StreamingSearchConfig)
    (session : StreamingSession (κ × EventLog)) : Prop where
  announcing : session.Announcing streaming
  inSync : session.InSync

/-- A state with the same best quote and the same release. -/
theorem Announcing.of_state (hsession : session.Announcing streaming)
    {state : StreamingRouteState} (hbest : state.best = session.state.best)
    (hreleased : state.initialResultsReleased = session.state.initialResultsReleased) :
    Announcing streaming { session with state := state } where
  announces := hsession.announces
  bound := by
    rw [show StreamingSession.state { session with state := state } = state from rfl, hbest]
    exact hsession.bound
  held := fun hheld => hsession.held (hreleased.symm.trans hheld)
  shown := fun hshown => hsession.shown (hreleased.symm.trans hshown)
  ungated := fun hungated => hreleased.trans (hsession.ungated hungated)

theorem InSync.of_state (hsession : session.InSync) {state : StreamingRouteState}
    (hbest : state.best = session.state.best)
    (hreleased : state.initialResultsReleased = session.state.initialResultsReleased) :
    InSync { session with state := state } := by
  intro hshown
  exact (hsession (hreleased.symm.trans hshown)).trans hbest.symm

/-- A quote of any amount keeps the announcements in step with the best quote. -/
theorem Synced.observeQuote (hsession : session.Synced streaming) (phase : RouteSearchPhase)
    (quote : RouteQuote) :
    let result := session.observeQuote streaming (logged onEvent) phase quote
    result.1.Announcing streaming ∧ (result.2 = true → result.1.InSync) := by
  obtain ⟨state, rank, hranked, hreleased, hobserve⟩ :=
    @observeQuote_eq_emitObserved _ (logged onEvent) streaming session phase quote
  have hstate : state.best = if session.state.best.all fun best =>
      best.amountOut < quote.amountOut then some quote else session.state.best := hranked.best
  rw [hobserve, ← hreleased]
  have hannouncing := hsession.announcing
  by_cases himproves : (session.state.best.all fun best =>
      best.amountOut < quote.amountOut) = true
  · rw [if_pos himproves] at hstate ⊢
    have hsmaller : ∀ earlier ∈ session.log.announced, earlier.amountOut < quote.amountOut := by
      intro earlier hearlier
      obtain ⟨best, hbest, hle⟩ := hannouncing.bound earlier hearlier
      rw [show session.state.best = some best from hbest, Option.all_some,
        decide_eq_true_eq] at himproves
      exact hle.trans_lt himproves
    have hnext : Announcing streaming { session with state := state } := by
      refine ⟨hannouncing.announces, ?_, ?_, ?_, ?_⟩
      · intro earlier hearlier
        exact ⟨quote, hstate, (hsmaller earlier hearlier).le⟩
      · exact fun hheld => hannouncing.held (hreleased.symm.trans hheld)
      · exact fun hshown => hannouncing.shown (hreleased.symm.trans hshown)
      · exact fun hungated => hreleased.trans (hannouncing.ungated hungated)
    apply hnext.emitObserved
    · exact nofun
    · intro previous hprevious
      obtain rfl := Option.some.inj hprevious
      refine ⟨hstate, ?_, ?_⟩
      · exact fun earlier hearlier =>
          hsmaller earlier (EventLog.mem_announced_of_mem_updates hearlier)
      · exact fun hshown => hsession.inSync (hreleased.symm.trans hshown)
  · rw [if_neg himproves] at hstate ⊢
    apply (hannouncing.of_state hstate hreleased).emitObserved
    · exact fun _ => hsession.inSync.of_state hstate hreleased
    · intro previous hprevious
      cases hprevious

/-- Progress keeps the announcements in step with the best quote. -/
theorem Synced.emitProgressAndApplyPolicies (hsession : session.Synced streaming)
    {state : StreamingRouteState} (hbest : state.best = session.state.best)
    (hreleased : state.initialResultsReleased = session.state.initialResultsReleased)
    (phase : RouteSearchPhase) :
    ((StreamingSession.emitProgressAndApplyPolicies streaming (logged onEvent)
      { session with state := state } phase).1).Synced streaming := by
  have hemits := @emitProgressAndApplyPolicies_emits _ (logged onEvent) streaming
    { session with state := state } phase
  obtain ⟨hprogress, hopen, hheld⟩ := @Announcing.emitProgressAndApplyPolicies κ onEvent
    streaming _ (hsession.announcing.of_state hbest hreleased) phase
  refine ⟨hprogress, ?_⟩
  cases hshown : state.initialResultsReleased with
  | false => exact hheld hshown
  | true =>
      intro _
      obtain ⟨_, hannounced, _⟩ := hopen hshown
      rw [hannounced, hemits.best]
      exact hsession.inSync.of_state hbest hreleased hshown

/-- Failures are announced by progress only. -/
theorem Announcing.observeFailedCandidates (hsession : session.Announcing streaming)
    (phase : RouteSearchPhase) (count : ℕ) :
    (session.observeFailedCandidates streaming (logged onEvent) phase
      count).1.Announcing streaming := by
  unfold StreamingSession.observeFailedCandidates
  split
  · exact hsession
  · have hcounted := @Announcing.of_state κ streaming session hsession
      { session.state with
        progressPhase := some phase
        failedCandidates := session.state.failedCandidates + count } rfl rfl
    exact (@Announcing.emitProgressAndApplyPolicies κ onEvent streaming _ hcounted phase).1

theorem Synced.observeFailedCandidates (hsession : session.Synced streaming)
    (phase : RouteSearchPhase) (count : ℕ) :
    (session.observeFailedCandidates streaming (logged onEvent) phase
      count).1.Synced streaming := by
  unfold StreamingSession.observeFailedCandidates
  split
  · exact hsession
  · exact @Synced.emitProgressAndApplyPolicies κ onEvent streaming session hsession
      { session.state with
        progressPhase := some phase
        failedCandidates := session.state.failedCandidates + count } rfl rfl phase

end StreamingSession

namespace StreamRun

variable {κ : Type} {onEvent : EventCallback κ} {streaming : StreamingSearchConfig}
  {good : RouteQuote → Prop} {run : StreamRun (κ × EventLog)}
  {result : StreamRun (κ × EventLog) × Bool}

/-- A step announces every quote that becomes the best one, as long as the search goes on. -/
theorem Step.announcing (hrun : run.session.Synced streaming)
    (hstep : Step streaming (logged onEvent) good run result) :
    result.1.session.Announcing streaming ∧
      (result.2 = true → result.1.session.InSync) := by
  cases hstep with
  | heuristicQuote quote hquote => exact hrun.observeQuote .heuristic quote
  | exhaustiveQuote quote hquote => exact hrun.observeQuote .exhaustive quote
  | failures phase count =>
      have hnext := @StreamingSession.Synced.observeFailedCandidates κ onEvent streaming _ hrun
        phase count
      exact ⟨hnext.announcing, fun _ => hnext.inSync⟩
  | evaluated paths => exact ⟨hrun.announcing, fun _ => hrun.inSync⟩
  | heuristicDone =>
      have hnext := @StreamingSession.Synced.emitProgressAndApplyPolicies κ onEvent streaming
        _ hrun (StreamingSession.completeHeuristic run.session.state) rfl rfl .heuristic
      exact ⟨hnext.announcing, fun _ => hnext.inSync⟩
  | phaseCompleted phase =>
      have hemitted := @StreamingSession.Announcing.concat κ streaming run.session
        hrun.announcing (.phaseCompleted phase run.session.state.phaseStats) rfl
        (fun _ _ _ _ hevent => by cases hevent) fun _ => rfl
      refine ⟨hemitted _ _ run.session.state.stopFinality, fun _ hreleased => ?_⟩
      refine (congrArg List.getLast? ?_).trans (hrun.inSync hreleased)
      exact (EventLog.announced_concat _ _ _).trans (List.append_nil _)
  | skipped duplicates =>
      exact ⟨hrun.announcing.of_state rfl rfl, fun _ => hrun.inSync.of_state rfl rfl⟩
  | total count hnew =>
      have hnext := @StreamingSession.Synced.emitProgressAndApplyPolicies κ onEvent streaming
        _ hrun (StreamingSession.fixTotal count run.session.state) rfl rfl .exhaustive
      exact ⟨hnext.announcing, fun _ => hnext.inSync⟩
  | exhaustiveDone =>
      exact ⟨hrun.announcing.of_state rfl rfl, fun _ => hrun.inSync.of_state rfl rfl⟩

variable {start : StreamRun (κ × EventLog)}

theorem Reached.synced (hstart : start.session.Synced streaming)
    (hrun : Reached streaming (logged onEvent) good start run) :
    run.session.Synced streaming := by
  induction hrun with
  | start => exact hstart
  | step _ hstep ih =>
      obtain ⟨hannouncing, hsync⟩ := hstep.announcing ih
      exact ⟨hannouncing, hsync rfl⟩

theorem Ended.announcing (hstart : start.session.Synced streaming)
    (hrun : Ended streaming (logged onEvent) good start run) :
    run.session.Announcing streaming := by
  induction hrun with
  | refused hreached hstep => exact (hstep.announcing (hreached.synced hstart)).1
  | counted hended count paths ih => exact ih.observeFailedCandidates .heuristic count

end StreamRun

/-- What a stream announces, and the ranking that it reports. -/
structure RanksAndAnnounces {κ : Type} (streaming : StreamingSearchConfig)
    (result : (κ × EventLog) × Except SearchError StreamingRunReport) : Prop where
  announces : result.1.2.Announces streaming
  best : ∀ report, result.2 = .ok report → IsFirstBest report.quotes report.report.best
  topRoutes : ∀ report, result.2 = .ok report →
    report.report.topRoutes = bestRoutes streaming.topK report.quotes
  head : ∀ report, result.2 = .ok report →
    report.report.topRoutes.head? = report.report.best
  last : ∀ report, result.2 = .ok report → report.report.finality ≠ .stopped →
    report.report.finality ≠ .stopPolicySatisfied → report.report.best.isSome = true →
      result.1.2.announced.getLast? = report.report.best

section Conclusion

variable {κ : Type} {onEvent : EventCallback κ} {streaming : StreamingSearchConfig}
  {run : StreamRun (κ × EventLog)} {quotes : List RouteQuote}
  {result : (κ × EventLog) × Except SearchError StreamingRunReport}

theorem RanksAndAnnounces.of_error (hannounces : result.1.2.Announces streaming)
    {error : SearchError} (herror : result.2 = .error error) :
    RanksAndAnnounces streaming result := by
  have hnone : ∀ report, result.2 ≠ .ok report := by
    intro report hreport
    rw [herror] at hreport
    cases hreport
  exact ⟨hannounces, fun report hreport => absurd hreport (hnone report),
    fun report hreport => absurd hreport (hnone report),
    fun report hreport => absurd hreport (hnone report),
    fun report hreport => absurd hreport (hnone report)⟩

/-- A stream that ends at its first event has found nothing. -/
theorem RanksAndAnnounces.of_nothing (hannounces : result.1.2.Announces streaming)
    {report : StreamingRunReport} (hreport : result.2 = .ok report)
    (hquotes : report.quotes = []) (hbest : report.report.best = none)
    (htop : report.report.topRoutes = []) : RanksAndAnnounces streaming result := by
  have hsame : ∀ other, result.2 = .ok other → other = report := by
    intro other hother
    rw [hreport] at hother
    exact (Except.ok.inj hother).symm
  refine ⟨hannounces, ?_, ?_, ?_, ?_⟩
  · intro other hother
    rw [hsame other hother, hbest, hquotes]
    exact Eq.refl _
  · intro other hother
    rw [hsame other hother, htop, hquotes, bestRoutes_nil]
  · intro other hother
    rw [hsame other hother, hbest, htop, List.head?_nil]
  · intro other hother _ _ hfound
    rw [hsame other hother, hbest] at hfound
    cases hfound

/-- The events at the end of a stream: the results that it still holds, and its report. -/
theorem announces_finish (hsession : run.session.Announcing streaming)
    (hranked : run.session.state.Ranked streaming quotes) (finality : SearchFinality)
    (emitCompleted : Bool) :
    (run.finish streaming (logged onEvent) finality emitCompleted).1.2.Announces
      streaming := by
  obtain ⟨report, released, completed, _, hlog, hcompleted, hreleased⟩ :=
    @StreamRun.finish_logged κ onEvent streaming run finality emitCompleted
  rw [hlog, ← List.append_assoc]
  have hfront : EventLog.Announces streaming (run.session.log ++ released) ∧
      (streaming.initialResultPolicy.isSome = true →
        EventLog.showsInitialResults (run.session.log ++ released) = false →
          (RouteSearchEvent.completed report).quotes = []) := by
    rcases hreleased with ⟨rfl, rfl, hsettled⟩ | ⟨hheld, _, best, answer, hbest, rfl, rfl⟩
    · rw [List.append_nil]
      refine ⟨hsession.announces, ?_⟩
      intro hpolicy hnone
      rcases hsettled with hshown | hungated | hbest
      · rw [hsession.shown hshown hpolicy] at hnone
        cases hnone
      · rw [hungated] at hpolicy
        cases hpolicy
      · -- a stream without a best quote has found nothing
        obtain rfl : quotes = [] := by
          have hfirst := hranked.best
          rw [hbest] at hfirst
          exact hfirst
        have htop : run.session.state.topRoutes = [] :=
          hranked.topRoutes.trans (bestRoutes_nil _)
        simp [RouteSearchEvent.quotes, StreamingRouteState.report, hbest, htop,
          hranked.heuristicBest hbest]
    · refine ⟨(hsession.release hheld _ hbest answer run.session.callback.1
        none).announces, ?_⟩
      intro _ hnone
      rw [EventLog.showsInitialResults_concat] at hnone
      simp [RouteSearchEvent.isInitialResults] at hnone
  obtain ⟨hannounces, hquotes⟩ := hfront
  rcases hcompleted with rfl | ⟨answer, rfl⟩
  · rw [List.append_nil]
    exact hannounces
  · apply hannounces.concat
    · intro phase quote previousBest status hevent
      cases hevent
    · exact fun hpolicy hnone _ => hquotes hpolicy hnone
    · intro hready
      cases hready

/-- The report of a stream ranks the observed quotes. -/
theorem report_finish (run : StreamRun (κ × EventLog)) (finality : SearchFinality)
    (emitCompleted : Bool) {report : StreamingRunReport}
    (hreport : (run.finish streaming (logged onEvent) finality emitCompleted).2 =
      .ok report) :
    report.quotes = run.observedQuotes ∧ report.report.best = run.session.state.best ∧
      report.report.topRoutes = run.session.state.topRoutes ∧
      (report.report.finality = finality ∨ report.report.finality = .stopped) := by
  obtain ⟨other, released, completed, hother, _, _, hreleased⟩ :=
    @StreamRun.finish_logged κ onEvent streaming run finality emitCompleted
  rw [hother] at hreport
  obtain rfl := Except.ok.inj hreport
  rcases hreleased with ⟨_, rfl, _⟩ | ⟨_, _, best, answer, _, _, rfl⟩
  · exact ⟨rfl, rfl, rfl, Or.inl rfl⟩
  · refine ⟨rfl, rfl, rfl, ?_⟩
    change (if _ then finality else _) = finality ∨ (if _ then finality else _) = _
    split
    · exact Or.inl rfl
    · exact Or.inr rfl

/-- A stream in step announces its best quote last. -/
theorem announced_finish (hsession : run.session.Synced streaming) {best : RouteQuote}
    (hbest : run.session.state.best = some best) (finality : SearchFinality)
    (emitCompleted : Bool) :
    (run.finish streaming (logged onEvent) finality emitCompleted).1.2.announced.getLast? =
      some best := by
  obtain ⟨report, released, completed, _, hlog, hcompleted, hreleased⟩ :=
    @StreamRun.finish_logged κ onEvent streaming run finality emitCompleted
  have hfront : (EventLog.announced (run.session.log ++ released)).getLast? = some best := by
    rcases hreleased with ⟨rfl, _, hsettled⟩ | ⟨_, _, other, answer, hother, rfl, _⟩
    · rw [List.append_nil, ← hbest]
      apply hsession.inSync
      rcases hsettled with hshown | hungated | hnone
      · exact hshown
      · exact hsession.announcing.ungated hungated
      · rw [hbest] at hnone
        cases hnone
    · obtain rfl : other = best := Option.some.inj (hother.symm.trans hbest)
      rw [EventLog.announced_concat]
      exact List.getLast?_concat
  rw [hlog, ← List.append_assoc]
  rcases hcompleted with rfl | ⟨answer, rfl⟩
  · rw [List.append_nil]
    exact hfront
  · rw [EventLog.announced_concat]
    exact (congrArg List.getLast? (List.append_nil _)).trans hfront

/-- A run that is ranked and announces concludes with both. -/
theorem ranksAndAnnounces_finish (hcount : 1 ≤ streaming.topK)
    (hranked : run.session.state.Ranked streaming run.observedQuotes)
    (hsession : run.session.Announcing streaming) (finality : SearchFinality)
    (hsync : finality = .stopped ∨ finality = .stopPolicySatisfied ∨ run.session.InSync)
    (emitCompleted : Bool) :
    RanksAndAnnounces streaming
      (run.finish streaming (logged onEvent) finality emitCompleted) where
  announces := announces_finish hsession hranked finality emitCompleted
  best := by
    intro report hreport
    obtain ⟨hquotes, hbest, _, _⟩ := report_finish run finality emitCompleted hreport
    rw [hquotes, hbest]
    exact hranked.best
  topRoutes := by
    intro report hreport
    obtain ⟨hquotes, _, htop, _⟩ := report_finish run finality emitCompleted hreport
    rw [hquotes, htop]
    exact hranked.topRoutes
  head := by
    intro report hreport
    obtain ⟨_, hbest, htop, _⟩ := report_finish run finality emitCompleted hreport
    rw [hbest, htop]
    exact hranked.head hcount
  last := by
    intro report hreport hstopped hpolicy hfound
    obtain ⟨_, hbest, _, hfinality⟩ := report_finish run finality emitCompleted hreport
    obtain ⟨best, hsome⟩ := Option.isSome_iff_exists.mp hfound
    have hcompleted : report.report.finality = finality := hfinality.resolve_right hstopped
    rcases hsync with hstop | hstop | hsync
    · exact absurd (hcompleted.trans hstop) hstopped
    · exact absurd (hcompleted.trans hstop) hpolicy
    · rw [hsome]
      exact announced_finish ⟨hsession, hsync⟩ (hbest.symm.trans hsome) finality emitCompleted

theorem StreamRun.Concludes.ranksAndAnnounces {env : QuoteEnv} {amountIn : U256}
    {start : StreamRun (κ × EventLog)} (hcount : 1 ≤ streaming.topK)
    (hranked : start.Ranked streaming env amountIn)
    (hsynced : start.session.Synced streaming)
    (hconcludes : Concludes streaming (logged onEvent) (env.Gives amountIn) start result) :
    RanksAndAnnounces streaming result := by
  cases hconcludes with
  | failed hrun error => exact .of_error (hrun.synced hsynced).announcing.announces rfl
  | completed hrun =>
      have hnow := hrun.holds (fun hrun hstep => hstep.ranked hrun) hranked
      have hsync := hrun.synced hsynced
      exact ranksAndAnnounces_finish hcount hnow.state hsync.announcing _
        (Or.inr (Or.inr hsync.inSync)) _
  | @stopped run hrun finality hfinality emitCompleted =>
      have hnow : run.Ranked streaming env amountIn ∧ run.session.Announcing streaming := by
        rcases hrun with hrun | hended
        · exact ⟨hrun.holds (fun hrun hstep => hstep.ranked hrun) hranked,
            (hrun.synced hsynced).announcing⟩
        · exact ⟨hended.holds (fun hrun hstep => hstep.ranked hrun) hranked,
            hended.announcing hsynced⟩
      apply ranksAndAnnounces_finish hcount hnow.1.state hnow.2
      exact hfinality.imp_right Or.inl

theorem announces_nil : EventLog.Announces streaming [] := by
  refine ⟨List.Pairwise.nil, ?_, ?_, Nat.zero_le 1⟩
  · intro before phase quote previousBest status answer after hsplit
    exact absurd hsplit.symm (by simp)
  · intro _ before event answer after hsplit
    exact absurd hsplit.symm (by simp)

/-- A stream starts without a quote and without an announcement. -/
theorem synced_started (callback : κ) (answer : SearchControl)
    (completion : StreamingCompletion) :
    StreamingSession.Synced streaming (⟨.new streaming, (callback,
      [(.started completion, answer)])⟩ : StreamingSession (κ × EventLog)) := by
  have hnew : StreamingSession.Announcing streaming
      (⟨.new streaming, (callback, [])⟩ : StreamingSession (κ × EventLog)) := by
    refine ⟨announces_nil, ?_, ?_, ?_, ?_⟩
    · exact fun _ hquote => absurd hquote List.not_mem_nil
    · exact fun _ _ hentry => absurd hentry List.not_mem_nil
    · intro hreleased hpolicy
      have hnone : streaming.initialResultPolicy.isNone = true := hreleased
      rw [Option.isNone_iff_eq_none.mp hnone] at hpolicy
      cases hpolicy
    · intro hungated
      exact Option.isNone_iff_eq_none.mpr hungated
  constructor
  · exact hnew.concat rfl (fun _ _ _ _ hevent => by cases hevent) (fun _ => rfl) _ _ none
  · exact fun _ => rfl

theorem topK_of_validate (hvalid : streaming.validate = .ok ()) : 1 ≤ streaming.topK := by
  cases hcount : streaming.topK with
  | succ count => exact Nat.succ_pos count
  | zero =>
      unfold StreamingSearchConfig.validate at hvalid
      rw [hcount] at hvalid
      cases hparallel : streaming.parallel.validate with
      | error error =>
          rw [hparallel] at hvalid
          cases hvalid
      | ok validated =>
          rw [hparallel] at hvalid
          cases hvalid

end Conclusion

namespace AmmSearcher

variable {G : Type} [StableDiGraph G Address EdgeData] {κ : Type}

/-- Every stream keeps its best quote and its top routes, in every state that it passes,
and its events announce them. -/
theorem streamRoutes_ranksAndAnnounces (searcher : AmmSearcher G) (request : RouteRequest)
    (streaming : StreamingSearchConfig) (schedule : List FanIn.Event)
    (onEvent : EventCallback κ) (shouldContinue : Option (ℕ → Bool)) (callback : κ) :
    let result := searcher.streamRoutesParallelWithCache request streaming schedule
      (logged onEvent) shouldContinue (callback, [])
    let good := (searcher.quoteEnv request.simConfig).Gives request.amountIn
    let started := (StreamRun.emit (logged onEvent) ({ session :=
      ⟨.new streaming, (callback, [])⟩ } : StreamRun (κ × EventLog))
      (.started streaming.completion)).1
    RanksAndAnnounces streaming result ∧
      ((∃ report, result.2 = .ok report) →
        result.2 = .ok ⟨started.session.state.report .stopped, []⟩ ∨
          StreamRun.Concludes streaming (logged onEvent) good started result) ∧
      ∀ run, StreamRun.Reached streaming (logged onEvent) good started run ∨
          StreamRun.Ended streaming (logged onEvent) good started run →
        run.session.state.Ranked streaming run.observedQuotes := by
  intro result good started
  have hempty : (StreamingRouteState.new streaming).Ranked streaming [] :=
    ⟨rfl, (bestRoutes_nil _).symm, fun _ => rfl, fun _ => rfl⟩
  have hranked : started.Ranked streaming (searcher.quoteEnv request.simConfig)
      request.amountIn := ⟨hempty, fun _ hquote => absurd hquote List.not_mem_nil⟩
  have hsynced : started.session.Synced streaming := synced_started _ _ _
  have hconcluded := searcher.streamRoutes_concludes request streaming schedule
    (logged onEvent) shouldContinue (callback, [])
  refine ⟨?_, ?_, ?_⟩
  · rcases hconcluded with ⟨error, herror⟩ | ⟨_, hrefused⟩ | ⟨_, hvalid, hconcludes⟩
    · apply RanksAndAnnounces.of_error
      · rw [show result = _ from herror]
        exact announces_nil
      · exact congrArg Prod.snd herror
    · apply RanksAndAnnounces.of_nothing
      · rw [show result = _ from hrefused]
        exact hsynced.announcing.announces
      · exact congrArg Prod.snd hrefused
      · rfl
      · rfl
      · rfl
    · exact hconcludes.ranksAndAnnounces (topK_of_validate hvalid) hranked hsynced
  · rintro ⟨report, hreport⟩
    rcases hconcluded with ⟨error, herror⟩ | ⟨_, hrefused⟩ | ⟨_, _, hconcludes⟩
    · rw [show result.2 = _ from congrArg Prod.snd herror] at hreport
      cases hreport
    · exact Or.inl (congrArg Prod.snd hrefused)
    · exact Or.inr hconcludes
  · rintro run (hreached | hended)
    · exact (hreached.holds (fun hrun hstep => hstep.ranked hrun) hranked).state
    · exact (hended.holds (fun hrun hstep => hstep.ranked hrun) hranked).state

end AmmSearcher

end AmmSearch
