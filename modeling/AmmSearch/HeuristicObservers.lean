/-
Two observers of one search.  As long as the first one accepts what it is shown, the
search does the same under both; once it refuses a quote, the other search has quoted no
fewer paths.
-/
import AmmSearch.ObservedSearch

open FiniteMap StableGraph

namespace AmmSearch

variable {σ τ : Type}

/-- The same run with another observer. -/
def HeuristicRun.observing (run : HeuristicRun σ) (observed : τ) : HeuristicRun τ where
  quotes := run.quotes
  failures := run.failures
  evaluatedPaths := run.evaluatedPaths
  incumbentAmount := run.incumbentAmount
  prefixDominance := run.prefixDominance
  nextFrontier := run.nextFrontier
  deferredEdgesSeen := run.deferredEdgesSeen
  observed := observed
  stopped := run.stopped
  halted := run.halted

/-- The second observer accepts what the first one accepts, and stays linked to it. -/
def Follows (link : σ → τ → Prop) (onQuote : σ → RouteQuote → σ × Bool)
    (onOther : τ → RouteQuote → τ × Bool) : Prop :=
  ∀ observed other quote, link observed other → (onQuote observed quote).2 = true →
    (onOther other quote).2 = true ∧ link (onQuote observed quote).1 (onOther other quote).1

/-- The other run is the same, or the observer of this run has refused its last quote. -/
inductive HeuristicRun.Mirrors (link : σ → τ → Prop) (run : HeuristicRun σ)
    (other : HeuristicRun τ) : Prop
  | same (observed : τ) (hlink : link run.observed observed)
      (hother : other = run.observing observed)
  | refused (hstopped : run.stopped = true) (hhalted : run.halted = true)
      (hquotes : run.quotes.length ≤ other.quotes.length)

namespace AmmSearcher

variable {G : Type} {searcher : AmmSearcher G} {context : HeuristicContext}
  {onQuote : σ → RouteQuote → σ × Bool} {onOther : τ → RouteQuote → τ × Bool}

section Quotes

theorem length_quotes_completePath (run : HeuristicRun σ) (quote : RouteQuote) :
    run.quotes.length ≤ (completePath context onQuote run quote).quotes.length := by
  unfold completePath
  split
  · exact le_rfl
  · simp

theorem quotes_pushPrefix (run : HeuristicRun σ) (token : Address) (state : HeuristicState) :
    (searcher.pushPrefix context run token state).quotes = run.quotes := by
  unfold pushPrefix
  split
  · simp only
    split
    · rfl
    · rfl
  · rfl

/-- Expanding only adds quotes. -/
theorem length_quotes_expandQuoted (state : HeuristicState) (run : HeuristicRun σ)
    (quoted : QuotedHeuristicHop) :
    run.quotes.length ≤
      (searcher.expandQuoted context onQuote state run quoted).quotes.length := by
  unfold expandQuoted
  split
  · exact le_rfl
  · split
    · exact le_rfl
    · simp only
      split
      · split
        · exact length_quotes_completePath _ _
        · exact le_rfl
      · split
        · rw [quotes_pushPrefix]
        · exact le_rfl

theorem length_quotes_expandGroup (mode : HeuristicPassMode) (state : HeuristicState)
    (run : HeuristicRun σ) (group : HeuristicHopGroup) :
    run.quotes.length ≤
      (searcher.expandGroup context onQuote mode state run group).quotes.length := by
  unfold expandGroup
  split
  · exact le_rfl
  · refine List.foldlRecOn (motive := fun next : HeuristicRun σ =>
      run.quotes.length ≤ next.quotes.length) _ _ ?_ ?_
    · exact le_rfl
    · intro next hnext quoted _
      exact hnext.trans (length_quotes_expandQuoted state next quoted)

variable [StableDiGraph G Address EdgeData]

theorem length_quotes_expandState (mode : HeuristicPassMode) (run : HeuristicRun σ)
    (state : HeuristicState) :
    run.quotes.length ≤
      (searcher.expandState context onQuote mode run state).quotes.length := by
  unfold expandState
  split
  · exact le_rfl
  · split
    · exact le_rfl
    · refine List.foldlRecOn (motive := fun next : HeuristicRun σ =>
      run.quotes.length ≤ next.quotes.length) _ _ ?_ ?_
      · exact le_rfl
      · intro next hnext group _
        exact hnext.trans (length_quotes_expandGroup mode state next group)

theorem length_quotes_level (mode : HeuristicPassMode) (frontier : List HeuristicState)
    (run : HeuristicRun σ) :
    run.quotes.length ≤
      (frontier.foldl (searcher.expandState context onQuote mode) run).quotes.length := by
  refine List.foldlRecOn (motive := fun next : HeuristicRun σ =>
      run.quotes.length ≤ next.quotes.length) _ _ ?_ ?_
  · exact le_rfl
  · intro next hnext state _
    exact hnext.trans (length_quotes_expandState mode next state)

theorem length_quotes_searchLoop (mode : HeuristicPassMode) (fuel : ℕ)
    (frontier : List HeuristicState) (run : HeuristicRun σ) :
    run.quotes.length ≤
      (searcher.searchLoop context onQuote mode fuel frontier run).quotes.length := by
  induction fuel generalizing frontier run with
  | zero => exact le_rfl
  | succ fuel ih =>
      have hlevel := @length_quotes_level σ G searcher context onQuote _ mode frontier
        { run with nextFrontier := [] }
      rw [searchLoop]
      split
      · exact le_rfl
      · simp only
        split
        · exact hlevel
        · exact hlevel.trans (ih _ _)

theorem length_quotes_runPass (run : HeuristicRun σ) (mode : HeuristicPassMode) :
    run.quotes.length ≤ (searcher.runPass context onQuote run mode).quotes.length :=
  @length_quotes_searchLoop σ G searcher context onQuote _ mode _ _
    { run with halted := false, deferredEdgesSeen := false, nextFrontier := [] }

theorem length_quotes_runPasses (modes : List HeuristicPassMode) (run : HeuristicRun σ) :
    run.quotes.length ≤ (searcher.runPasses context onQuote modes run).quotes.length := by
  induction modes generalizing run with
  | nil => exact le_rfl
  | cons mode rest ih =>
      have hpass := @length_quotes_runPass σ G searcher context onQuote _ run mode
      rw [runPasses]
      split
      · exact hpass
      · split
        · exact hpass
        · exact hpass.trans (ih _)

end Quotes

section Mirrors

variable {link : σ → τ → Prop} (hfollows : Follows link onQuote onOther)
  {run : HeuristicRun σ} {other : HeuristicRun τ}

theorem pushPrefix_observing (run : HeuristicRun σ) (observed : τ) (token : Address)
    (state : HeuristicState) :
    searcher.pushPrefix context (run.observing observed) token state =
      (searcher.pushPrefix context run token state).observing observed := by
  unfold pushPrefix
  split
  · simp only
    by_cases hdominated : (run.prefixDominance.insertOrDominated token
        (searcher.label context state)).1 = true
    · rw [if_pos hdominated, if_pos (show ((run.observing observed).prefixDominance
        |>.insertOrDominated token (searcher.label context state)).1 = true from hdominated)]
      rfl
    · rw [if_neg hdominated, if_neg (show ¬ ((run.observing observed).prefixDominance
        |>.insertOrDominated token (searcher.label context state)).1 = true from hdominated)]
      rfl
  · rfl

theorem observed_pushPrefix (run : HeuristicRun σ) (token : Address)
    (state : HeuristicState) :
    (searcher.pushPrefix context run token state).observed = run.observed := by
  unfold pushPrefix
  split
  · simp only
    split
    · rfl
    · rfl
  · rfl

include hfollows

theorem completePath_mirrors {observed : τ} (hlink : link run.observed observed)
    (quote : RouteQuote) :
    (completePath context onQuote run quote).Mirrors link
      (completePath context onOther (run.observing observed) quote) := by
  unfold completePath
  split
  · rename_i hknown
    rw [if_pos (show quote.path ∈ (run.observing observed).evaluatedPaths from hknown)]
    exact .same observed hlink rfl
  · rename_i hnew
    rw [if_neg (show quote.path ∉ (run.observing observed).evaluatedPaths from hnew)]
    simp only
    cases hanswer : (onQuote run.observed quote).2 with
    | true =>
        obtain ⟨hother, hnext⟩ := hfollows _ _ quote hlink hanswer
        refine .same (onOther observed quote).1 hnext ?_
        simp only [HeuristicRun.observing, hother]
    | false =>
        refine .refused rfl rfl ?_
        simp [HeuristicRun.observing]

theorem expandQuoted_mirrors (hmirrors : run.Mirrors link other) (state : HeuristicState)
    (quoted : QuotedHeuristicHop) :
    (searcher.expandQuoted context onQuote state run quoted).Mirrors link
      (searcher.expandQuoted context onOther state other quoted) := by
  cases hmirrors with
  | refused hstopped hhalted hquotes =>
      have hkept : searcher.expandQuoted context onQuote state run quoted = run := by
        rw [expandQuoted, if_pos hhalted]
      rw [hkept]
      exact .refused hstopped hhalted
        (hquotes.trans (length_quotes_expandQuoted state other quoted))
  | same observed hlink hother =>
      subst hother
      unfold expandQuoted
      split
      · rename_i hhalted
        rw [if_pos (show (run.observing observed).halted = true from hhalted)]
        exact .same observed hlink rfl
      · rename_i hrunning
        rw [if_neg (show ¬ (run.observing observed).halted = true from hrunning)]
        split
        · exact .same observed hlink rfl
        · simp only
          split
          · split
            · exact completePath_mirrors hfollows hlink _
            · exact .same observed hlink rfl
          · split
            · rw [pushPrefix_observing]
              refine .same observed ?_ rfl
              rw [observed_pushPrefix]
              exact hlink
            · exact .same observed hlink rfl

theorem expandGroup_mirrors (hmirrors : run.Mirrors link other) (mode : HeuristicPassMode)
    (state : HeuristicState) (group : HeuristicHopGroup) :
    (searcher.expandGroup context onQuote mode state run group).Mirrors link
      (searcher.expandGroup context onOther mode state other group) := by
  have hkept : ∀ (kept : List QuotedHeuristicHop) {run : HeuristicRun σ}
      {other : HeuristicRun τ}, run.Mirrors link other →
      (kept.foldl (searcher.expandQuoted context onQuote state) run).Mirrors link
        (kept.foldl (searcher.expandQuoted context onOther state) other) := by
    intro kept
    induction kept with
    | nil => exact fun hmirrors => hmirrors
    | cons quoted rest ih =>
        intro run other hmirrors
        exact ih (expandQuoted_mirrors hfollows hmirrors state quoted)
  cases hmirrors with
  | refused hstopped hhalted hquotes =>
      have hsame : searcher.expandGroup context onQuote mode state run group = run := by
        rw [expandGroup, if_pos hhalted]
      rw [hsame]
      exact .refused hstopped hhalted
        (hquotes.trans (length_quotes_expandGroup mode state other group))
  | same observed hlink hother =>
      subst hother
      unfold expandGroup
      split
      · rename_i hhalted
        rw [if_pos (show (run.observing observed).halted = true from hhalted)]
        exact .same observed hlink rfl
      · rename_i hrunning
        rw [if_neg (show ¬ (run.observing observed).halted = true from hrunning)]
        exact hkept _ (.same observed hlink rfl)

variable [StableDiGraph G Address EdgeData]

theorem expandState_mirrors (hmirrors : run.Mirrors link other) (mode : HeuristicPassMode)
    (state : HeuristicState) :
    (searcher.expandState context onQuote mode run state).Mirrors link
      (searcher.expandState context onOther mode other state) := by
  have hgroups : ∀ (groups : List HeuristicHopGroup) {run : HeuristicRun σ}
      {other : HeuristicRun τ}, run.Mirrors link other →
      (groups.foldl (searcher.expandGroup context onQuote mode state) run).Mirrors link
        (groups.foldl (searcher.expandGroup context onOther mode state) other) := by
    intro groups
    induction groups with
    | nil => exact fun hmirrors => hmirrors
    | cons group rest ih =>
        intro run other hmirrors
        exact ih (expandGroup_mirrors hfollows hmirrors mode state group)
  cases hmirrors with
  | refused hstopped hhalted hquotes =>
      have hsame : searcher.expandState context onQuote mode run state = run := by
        rw [expandState, if_pos hhalted]
      rw [hsame]
      exact .refused hstopped hhalted
        (hquotes.trans (length_quotes_expandState mode other state))
  | same observed hlink hother =>
      subst hother
      unfold expandState
      split
      · rename_i hhalted
        rw [if_pos (show (run.observing observed).halted = true from hhalted)]
        exact .same observed hlink rfl
      · rename_i hrunning
        rw [if_neg (show ¬ (run.observing observed).halted = true from hrunning)]
        split
        · rename_i hskips
          rw [if_pos (show searcher.skipsState context (run.observing observed) state = true
            from hskips)]
          exact .same observed hlink rfl
        · rename_i hskips
          rw [if_neg (show ¬ searcher.skipsState context (run.observing observed) state = true
            from hskips)]
          exact hgroups _ (.same observed hlink rfl)

theorem level_mirrors (mode : HeuristicPassMode) (frontier : List HeuristicState)
    (hmirrors : run.Mirrors link other) :
    (frontier.foldl (searcher.expandState context onQuote mode) run).Mirrors link
      (frontier.foldl (searcher.expandState context onOther mode) other) := by
  induction frontier generalizing run other with
  | nil => exact hmirrors
  | cons state rest ih => exact ih (expandState_mirrors hfollows hmirrors mode state)

theorem searchLoop_mirrors (mode : HeuristicPassMode) (fuel : ℕ)
    (frontier : List HeuristicState) {observed : τ} (hlink : link run.observed observed) :
    (searcher.searchLoop context onQuote mode fuel frontier run).Mirrors link
      (searcher.searchLoop context onOther mode fuel frontier (run.observing observed)) := by
  induction fuel generalizing frontier run observed with
  | zero => exact .same observed hlink rfl
  | succ fuel ih =>
      rw [searchLoop, searchLoop]
      split
      · exact .same observed hlink rfl
      · have hstart : HeuristicRun.Mirrors link { run with nextFrontier := [] }
            { run.observing observed with nextFrontier := [] } :=
          .same observed hlink rfl
        have hlevel := @level_mirrors σ τ G searcher context onQuote onOther link hfollows _ _
          _ mode frontier hstart
        simp only
        generalize frontier.foldl (searcher.expandState context onQuote mode) _ = level
          at hlevel ⊢
        generalize frontier.foldl (searcher.expandState context onOther mode) _ = copy
          at hlevel ⊢
        cases hlevel with
        | refused hstopped hhalted hquotes =>
            rw [if_pos hhalted]
            refine .refused hstopped hhalted (hquotes.trans ?_)
            split
            · exact le_rfl
            · exact length_quotes_searchLoop _ _ _ _
        | same observed hlink hcopy =>
            subst hcopy
            split
            · rename_i hhalted
              rw [if_pos (show (level.observing observed).halted = true from hhalted)]
              exact .same observed hlink rfl
            · rename_i hrunning
              rw [if_neg (show ¬ (level.observing observed).halted = true from hrunning)]
              exact ih _ hlink

/-- One pass under two observers. -/
theorem runPass_mirrors (mode : HeuristicPassMode) {observed : τ}
    (hlink : link run.observed observed) :
    (searcher.runPass context onQuote run mode).Mirrors link
      (searcher.runPass context onOther (run.observing observed) mode) :=
  @searchLoop_mirrors σ τ G searcher context onQuote onOther link hfollows
    { run with halted := false, deferredEdgesSeen := false, nextFrontier := [] } _ mode _ _
    observed hlink

/-- All passes under two observers. -/
theorem runPasses_mirrors (modes : List HeuristicPassMode) {observed : τ}
    (hlink : link run.observed observed) (hstopped : run.stopped = false) :
    (searcher.runPasses context onQuote modes run).Mirrors link
      (searcher.runPasses context onOther modes (run.observing observed)) := by
  induction modes generalizing run observed with
  | nil => exact .same observed hlink rfl
  | cons mode rest ih =>
      have hpass := @runPass_mirrors σ τ G searcher context onQuote onOther link hfollows run
        _ mode observed hlink
      rw [runPasses, runPasses]
      generalize searcher.runPass context onQuote run mode = after at hpass ⊢
      generalize searcher.runPass context onOther (run.observing observed) mode = copy
        at hpass ⊢
      cases hpass with
      | refused hstopped hhalted hquotes =>
          rw [if_pos hstopped]
          refine .refused hstopped hhalted (hquotes.trans ?_)
          split
          · exact le_rfl
          · split
            · exact le_rfl
            · exact length_quotes_runPasses _ _
      | same observed hlink hcopy =>
          subst hcopy
          split
          · rename_i hended
            rw [if_pos (show (after.observing observed).stopped = true from hended)]
            exact .same observed hlink rfl
          · rename_i hrunning
            rw [if_neg (show ¬ (after.observing observed).stopped = true from hrunning)]
            split
            · rename_i hearly
              rw [if_pos (show mode = .initial ∧
                .refinement ∈ heuristicPassModes context.heuristic ∧
                (after.observing observed).deferredEdgesSeen = false from hearly)]
              exact .same observed hlink rfl
            · rename_i hlater
              rw [if_neg (show ¬ (mode = .initial ∧
                .refinement ∈ heuristicPassModes context.heuristic ∧
                (after.observing observed).deferredEdgesSeen = false) from hlater)]
              exact ih hlink (by simpa using hrunning)

end Mirrors

section FastLane

variable {link : σ → τ → Prop}

/-- Two quoting runs that agree, or a run whose observer has refused a quote. -/
def QuotesAlike (link : σ → τ → Prop) (run : QuoteRun σ) (other : QuoteRun τ) : Prop :=
  (other = ⟨run.quotes, run.failures, other.observed, false⟩ ∧ run.stopped = false ∧
      link run.observed other.observed) ∨
    (run.stopped = true ∧ run.quotes ≠ [])

theorem quotesAlike_push (hfollows : Follows link onQuote onOther) {run : QuoteRun σ}
    {other : QuoteRun τ} (halike : QuotesAlike link run other)
    (outcome : RouteQuote ⊕ PathFailure) :
    QuotesAlike link
      (QuoteObserver.push ⟨onQuote, fun observed _ => (observed, true)⟩ run outcome)
      (QuoteObserver.push ⟨onOther, fun observed _ => (observed, true)⟩ other outcome) := by
  rcases halike with ⟨hother, hrunning, hlink⟩ | hrefused
  · have hfree : other.stopped = false := congrArg QuoteRun.stopped hother
    have hquotes : other.quotes = run.quotes := congrArg QuoteRun.quotes hother
    have hfailures : other.failures = run.failures := congrArg QuoteRun.failures hother
    cases outcome with
    | inl quote =>
        simp only [QuoteObserver.push, QuoteObserver.pushQuote, hrunning, hfree,
          Bool.false_eq_true, if_false]
        cases hanswer : (onQuote run.observed quote).2 with
        | true =>
            obtain ⟨hkeeps, hnext⟩ := hfollows _ _ quote hlink hanswer
            refine Or.inl ⟨?_, rfl, hnext⟩
            simp only [hkeeps, hquotes, hfailures, Bool.not_true]
        | false => exact Or.inr ⟨rfl, by simp⟩
    | inr failure =>
        simp only [QuoteObserver.push, QuoteObserver.pushFailure, hrunning, hfree,
          Bool.false_eq_true, if_false]
        refine Or.inl ⟨?_, rfl, hlink⟩
        simp only [hquotes, hfailures, Bool.not_true]
  · rw [QuoteObserver.push_stopped hrefused.1]
    exact Or.inr hrefused

theorem quotesAlike_foldl (hfollows : Follows link onQuote onOther)
    (outcomes : List (RouteQuote ⊕ PathFailure)) {run : QuoteRun σ} {other : QuoteRun τ}
    (halike : QuotesAlike link run other) :
    QuotesAlike link
      (outcomes.foldl
        (QuoteObserver.push ⟨onQuote, fun observed _ => (observed, true)⟩) run)
      (outcomes.foldl
        (QuoteObserver.push ⟨onOther, fun observed _ => (observed, true)⟩) other) := by
  induction outcomes generalizing run other with
  | nil => exact halike
  | cons outcome rest ih => exact ih (quotesAlike_push hfollows halike outcome)

/-- Quoting paths under two observers. -/
theorem quotePaths_alike (hfollows : Follows link onQuote onOther) (env : QuoteEnv)
    (keys : QuoteKeyContext) (amountIn : U256) (paths : List RoutePath) {start : σ}
    {begun : τ} (hlink : link start begun) :
    QuotesAlike link
      (quotePathsWithRegistryObserved ⟨onQuote, fun observed _ => (observed, true)⟩ env keys
        amountIn paths start)
      (quotePathsWithRegistryObserved ⟨onOther, fun observed _ => (observed, true)⟩ env keys
        amountIn paths begun) := by
  rw [quotePathsWithRegistryObserved_eq, quotePathsWithRegistryObserved_eq]
  exact quotesAlike_foldl hfollows _ (Or.inl ⟨rfl, rfl, hlink⟩)

theorem acceptFastLane_observing (config : SearchConfig) (quotes : List RouteQuote)
    (run : HeuristicRun σ) (observed : τ) :
    acceptFastLane config quotes (run.observing observed) =
      (acceptFastLane config quotes run).observing observed := by
  induction quotes generalizing run with
  | nil => rfl
  | cons quote rest ih =>
      rw [acceptFastLane, acceptFastLane]
      simp only
      split
      · rename_i hreached
        rw [if_pos (show maxCandidatesReached (run.quotes ++ [quote]).length config = true
          from hreached)]
        rfl
      · rename_i hbelow
        rw [if_neg (show ¬ maxCandidatesReached (run.quotes ++ [quote]).length config = true
          from hbelow)]
        exact ih { run with
          incumbentAmount := raiseIncumbent run.incumbentAmount quote.amountOut
          quotes := run.quotes ++ [quote] }

theorem observed_acceptFastLane (config : SearchConfig) (quotes : List RouteQuote)
    (run : HeuristicRun σ) : (acceptFastLane config quotes run).observed = run.observed := by
  induction quotes generalizing run with
  | nil => rfl
  | cons quote rest ih =>
      rw [acceptFastLane]
      simp only
      split
      · rfl
      · exact ih _

/-- A stopped run stays stopped, with the quotes that it takes over. -/
theorem acceptFastLane_keeps_stopped (config : SearchConfig) (quotes : List RouteQuote)
    {run : HeuristicRun σ} (hstopped : run.stopped = true) :
    (acceptFastLane config quotes run).stopped = true ∧
      (quotes ≠ [] → (acceptFastLane config quotes run).quotes ≠ []) := by
  induction quotes generalizing run with
  | nil => exact ⟨hstopped, fun hne => absurd rfl hne⟩
  | cons quote rest ih =>
      rw [acceptFastLane]
      simp only
      split
      · exact ⟨rfl, fun _ => by simp⟩
      · have hrest := @ih { run with
          incumbentAmount := raiseIncumbent run.incumbentAmount quote.amountOut
          quotes := run.quotes ++ [quote] } hstopped
        refine ⟨hrest.1, fun _ => ?_⟩
        cases rest with
        | nil => simp [acceptFastLane]
        | cons next rest => exact hrest.2 (List.cons_ne_nil _ _)

variable [StableDiGraph G Address EdgeData]

/-- The fast lane under two observers. -/
theorem runFastLane_mirrors (hfollows : Follows link onQuote onOther) {start : σ} {begun : τ}
    (hlink : link start begun) :
    (∃ observed,
      link (searcher.runFastLane context onQuote { observed := start }).observed observed ∧
        searcher.runFastLane context onOther { observed := begun } =
          (searcher.runFastLane context onQuote { observed := start }).observing observed) ∨
      ((searcher.runFastLane context onQuote { observed := start }).stopped = true ∧
        (searcher.runFastLane context onQuote { observed := start }).quotes ≠ []) := by
  unfold runFastLane
  split
  · simp only
    split
    · exact Or.inl ⟨begun, hlink, rfl⟩
    · have halike := @quotePaths_alike σ τ onQuote onOther link hfollows
        (searcher.quoteEnv context.simConfig) searcher.quoteContext context.amountIn
        (searcher.fastLanePaths context.tokenIn context.tokenOut context.config
          context.heuristic context.connectorTokens) start begun hlink
      generalize quotePathsWithRegistryObserved
        ⟨onQuote, fun observed _ => (observed, true)⟩ _ _ _ _ _ = report at halike ⊢
      generalize quotePathsWithRegistryObserved
        ⟨onOther, fun observed _ => (observed, true)⟩ _ _ _ _ _ = other at halike ⊢
      rcases halike with ⟨hother, hrunning, hnext⟩ | ⟨hstopped, hquotes⟩
      · left
        refine ⟨other.observed, ?_, ?_⟩
        · rw [observed_acceptFastLane]
          exact hnext
        · rw [← acceptFastLane_observing, hother, hrunning]
          rfl
      · right
        obtain ⟨hkept, hfound⟩ := @acceptFastLane_keeps_stopped σ context.config report.quotes
          { ({ observed := start } : HeuristicRun σ) with
            evaluatedPaths := ∅ ∪ (searcher.fastLanePaths context.tokenIn context.tokenOut
              context.config context.heuristic context.connectorTokens).toFinset
            failures := [] ++ report.failures
            observed := report.observed
            stopped := report.stopped } hstopped
        exact ⟨hkept, hfound hquotes⟩
  · exact Or.inl ⟨begun, hlink, rfl⟩

/-- A search that is not stopped does not depend on its observer. -/
theorem searchRoutes_alike (hfollows : Follows link onQuote onOther)
    (hfinalists : 1 ≤ context.heuristic.maxFinalists) (runLimit : HeuristicRunLimit)
    {start : σ} {begun : τ} (hlink : link start begun) :
    let result := searcher.searchRoutes context onQuote runLimit start
    let other := searcher.searchRoutes context onOther runLimit begun
    (link result.1 other.1 ∧ other.2 = result.2) ∨
      ∃ report, result.2 = .ok report ∧ report.stopped = true := by
  intro result other
  have hlane := @runFastLane_mirrors σ τ G searcher context onQuote onOther link _ hfollows
    start begun hlink
  simp only [result, other, searchRoutes]
  rcases hlane with ⟨observed, hnext, hcopy⟩ | ⟨hstopped, hquotes⟩
  · rw [hcopy]
    split
    · rename_i hends
      rw [if_pos (show ((searcher.runFastLane context onQuote
        { observed := start }).observing observed).stopped = true ∨
        runLimit = .fastLaneOnly from hends)]
      exact Or.inl ⟨hnext, rfl⟩
    · rename_i hgoes
      rw [if_neg (show ¬ (((searcher.runFastLane context onQuote
        { observed := start }).observing observed).stopped = true ∨
        runLimit = .fastLaneOnly) from hgoes)]
      have hrunning : (searcher.runFastLane context onQuote
          { observed := start }).stopped = false := by
        simpa using fun hstopped => hgoes (Or.inl hstopped)
      have hpasses := @runPasses_mirrors σ τ G searcher context onQuote onOther link hfollows
        _ _ (heuristicPassModes context.heuristic) observed hnext hrunning
      cases hpasses with
      | same observed hlast hother =>
          left
          rw [hother]
          exact ⟨hlast, rfl⟩
      | refused hstopped hhalted hfewer =>
          right
          simp only [finishSearch]
          rw [if_pos hstopped]
          exact ⟨_, rfl, hstopped⟩
  · right
    rw [if_pos (Or.inl hstopped)]
    simp only [finishFastLane]
    rw [if_neg fun hempty => finalists_ne_nil hfinalists hquotes hempty.1]
    exact ⟨_, rfl, hstopped⟩

end FastLane

end AmmSearcher

end AmmSearch
