/-
The candidate limit of one search.  The fast lane quotes all of its paths before the limit
is checked, and the refinement pass checks it only after completing a path; apart from
these two, a search shows its observer no more candidates than its limit.
-/
import AmmSearch.HeuristicObservers
import AmmSearch.StreamingFinality

open FiniteMap StableGraph

namespace AmmSearch

namespace AmmSearcher

variable {σ G : Type} {searcher : AmmSearcher G} {context : HeuristicContext}
  {onQuote : σ → RouteQuote → σ × Bool} {limit : ℕ}

/-- An observer that keeps nothing and never refuses. -/
def silent (_ : Unit) (_ : RouteQuote) : Unit × Bool := ((), true)

theorem follows_silent : Follows (fun (_ : σ) (_ : Unit) => True) onQuote silent :=
  fun _ _ _ _ _ => ⟨rfl, trivial⟩

section Limit

theorem maxCandidatesReached_iff (hlimit : context.config.maxCandidates = some limit)
    (count : ℕ) : maxCandidatesReached count context.config = true ↔ limit ≤ count := by
  simp [maxCandidatesReached, hlimit]

/-- The fast lane takes over no more quotes than the limit. -/
theorem quotes_acceptFastLane (hlimit : context.config.maxCandidates = some limit)
    (quotes : List RouteQuote) {run : HeuristicRun σ} (hroom : run.quotes.length < limit) :
    (acceptFastLane context.config quotes run).quotes =
      run.quotes ++ quotes.take (limit - run.quotes.length) := by
  induction quotes generalizing run with
  | nil => simp [acceptFastLane]
  | cons quote rest ih =>
      have hsucc : limit - run.quotes.length = (limit - (run.quotes.length + 1)) + 1 := by
        omega
      rw [acceptFastLane]
      simp only
      split
      · rename_i hreached
        rw [maxCandidatesReached_iff hlimit, List.length_append, List.length_singleton]
          at hreached
        rw [hsucc, show limit - (run.quotes.length + 1) = 0 from by omega]
        rfl
      · rename_i hreached
        rw [maxCandidatesReached_iff hlimit, List.length_append, List.length_singleton]
          at hreached
        rw [ih (by simpa using hreached), List.length_append, List.length_singleton, hsucc,
          List.take_succ_cons, List.append_assoc]
        rfl

/-- A run that has room for another quote while it goes on. -/
structure WithinLimit (limit : ℕ) (run : HeuristicRun σ) : Prop where
  length : run.quotes.length ≤ limit
  room : run.halted = false → run.quotes.length < limit

theorem loopInvariant_withinLimit (hlimit : context.config.maxCandidates = some limit) :
    searcher.LoopInvariant context onQuote (WithinLimit limit) where
  complete := by
    intro run quote _ hhalted _ hrun
    have hroom := hrun.room hhalted
    unfold completePath
    split
    · exact hrun
    · constructor
      · simp only [List.length_append, List.length_singleton]
        omega
      · intro hgoes
        simp only [Bool.or_eq_false_iff] at hgoes
        have hbelow : ¬ limit ≤ (run.quotes ++ [quote]).length := by
          rw [← maxCandidatesReached_iff hlimit, hgoes.2]
          exact Bool.false_ne_true
        simpa using hbelow
  push := by
    intro run token state hrun
    have hsame : (searcher.pushPrefix context run token state).quotes = run.quotes :=
      quotes_pushPrefix run token state
    have hhalted : (searcher.pushPrefix context run token state).halted = run.halted :=
      (pushPrefix_flags run token state).2
    constructor
    · rw [hsame]
      exact hrun.length
    · intro hgoes
      rw [hsame]
      exact hrun.room (hhalted.symm.trans hgoes)
  record := fun _ _ _ hrun => ⟨hrun.length, hrun.room⟩
  clear := fun _ hrun => ⟨hrun.length, hrun.room⟩

/-- Observing a quote counts it. -/
theorem passInvariant_counted {seen : σ → ℕ}
    (hseen : ∀ observed quote, seen (onQuote observed quote).1 = seen observed + 1) :
    searcher.PassInvariant context onQuote
      fun run => seen run.observed = run.quotes.length where
  complete := by
    intro run quote _ _ _ hrun
    unfold completePath
    split
    · exact hrun
    · simp only [hseen, hrun, List.length_append, List.length_singleton]
  push := by
    intro run token state hrun
    have hobserved : (searcher.pushPrefix context run token state).observed =
        run.observed := observed_pushPrefix run token state
    rw [quotes_pushPrefix, hobserved]
    exact hrun
  record := fun _ _ _ hrun => hrun
  restart := fun _ _ _ hrun => hrun

end Limit

variable [StableDiGraph G Address EdgeData]

/-- The fast lane quotes more paths than the limit admits. -/
def LaneOverflows (searcher : AmmSearcher G) (context : HeuristicContext) (limit : ℕ) :
    Prop :=
  context.heuristic.fastLane.enabled = true ∧ limit < (searcher.laneQuotes context).length

/-- The fast lane, and the initial pass after it. -/
def silentLane (searcher : AmmSearcher G) (context : HeuristicContext) :
    HeuristicRun Unit :=
  searcher.runFastLane context silent { observed := () }

def silentInitial (searcher : AmmSearcher G) (context : HeuristicContext) :
    HeuristicRun Unit :=
  searcher.runPass context silent (searcher.silentLane context) .initial

/-- The initial pass spends the limit and leaves edges to the refinement pass, which
completes another path. -/
structure RefinementOverflows (searcher : AmmSearcher G) (context : HeuristicContext)
    (limit : ℕ) : Prop where
  running : (searcher.silentLane context).stopped = false
  refines : .refinement ∈ heuristicPassModes context.heuristic
  deferred : (searcher.silentInitial context).deferredEdgesSeen = true
  spent : limit ≤ (searcher.silentInitial context).quotes.length
  completes : (searcher.silentInitial context).quotes.length <
    (searcher.runPass context silent (searcher.silentInitial context) .refinement).quotes.length

section Searches

variable (hlimit : context.config.maxCandidates = some limit) (hpositive : 1 ≤ limit)

include hlimit hpositive

omit [StableDiGraph G Address EdgeData] in
theorem length_acceptFastLane (quotes : List RouteQuote) {run : HeuristicRun σ}
    (hempty : run.quotes = []) :
    (acceptFastLane context.config quotes run).quotes.length = min limit quotes.length := by
  rw [quotes_acceptFastLane hlimit quotes (by rw [hempty]; exact hpositive), hempty,
    List.nil_append, List.length_take, List.length_nil, Nat.sub_zero]

omit [StableDiGraph G Address EdgeData] in
/-- A fast lane that does not stop the search has found fewer quotes than the limit. -/
theorem length_lt_of_acceptFastLane {quotes : List RouteQuote} {run : HeuristicRun σ}
    (hrunning : (acceptFastLane context.config quotes run).stopped = false) :
    quotes.length < limit := by
  by_contra hfull
  have hquotes : quotes ≠ [] := by
    rintro rfl
    exact hfull hpositive
  have hended := (stopped_acceptFastLane_iff context.config quotes run).mpr
    (Or.inr ⟨hquotes, limit, hlimit, by omega⟩)
  rw [hended] at hrunning
  cases hrunning

omit [StableDiGraph G Address EdgeData] in
theorem acceptFastLane_withinLimit (quotes : List RouteQuote) {run : HeuristicRun σ}
    (hempty : run.quotes = []) :
    let lane := acceptFastLane context.config quotes run
    lane.quotes.length ≤ limit ∧ (lane.stopped = false → lane.quotes.length < limit) := by
  intro lane
  have hlength : lane.quotes.length = _ := length_acceptFastLane hlimit hpositive quotes hempty
  rw [hlength]
  refine ⟨min_le_left _ _, ?_⟩
  intro hrunning
  exact (min_le_right _ _).trans_lt
    (length_lt_of_acceptFastLane hlimit hpositive hrunning)

omit [StableDiGraph G Address EdgeData] in
/-- Taking over quotes that the observer has seen. -/
theorem acceptFastLane_seen {seen : σ → ℕ} {quotes : List RouteQuote} {run : HeuristicRun σ}
    (hempty : run.quotes = []) (hseen : seen run.observed = quotes.length) {fits : Prop}
    (hfits : fits → quotes.length ≤ limit) :
    let lane := acceptFastLane context.config quotes run
    fits ∨ lane.stopped = false → seen lane.observed = lane.quotes.length := by
  intro lane hends
  have hlength : lane.quotes.length = _ := length_acceptFastLane hlimit hpositive quotes hempty
  have hobserved : lane.observed = run.observed := observed_acceptFastLane _ _ _
  rw [hobserved, hseen, hlength]
  rcases hends with hwithin | hrunning
  · exact (min_eq_right (hfits hwithin)).symm
  · have hbelow := length_lt_of_acceptFastLane hlimit hpositive hrunning
    exact (min_eq_right hbelow.le).symm

/-- The fast lane of a search takes over no more quotes than the limit. -/
theorem runFastLane_withinLimit (start : σ) :
    let lane := searcher.runFastLane context onQuote { observed := start }
    lane.quotes.length ≤ limit ∧ (lane.stopped = false → lane.quotes.length < limit) := by
  intro lane
  simp only [lane, runFastLane]
  split
  · split
    · exact ⟨Nat.zero_le _, fun _ => hpositive⟩
    · exact acceptFastLane_withinLimit hlimit hpositive _ rfl
  · exact ⟨Nat.zero_le _, fun _ => hpositive⟩

/-- What the observer has seen of the fast lane. -/
theorem runFastLane_seen {seen : σ → ℕ}
    (hseen : ∀ observed quote, seen (onQuote observed quote).1 = seen observed + 1)
    {start : σ} (hstart : seen start = 0) :
    let lane := searcher.runFastLane context onQuote { observed := start }
    ¬ searcher.LaneOverflows context limit ∨ lane.stopped = false →
      seen lane.observed = lane.quotes.length := by
  intro lane
  simp only [lane, runFastLane]
  split
  · rename_i henabled
    split
    · exact fun _ => hstart
    · obtain ⟨reported, hprefix, hquotes, hobserved, _⟩ := foldl_push_spec onQuote
        ((quoteOrder (searcher.fastLanePaths context.tokenIn context.tokenOut context.config
          context.heuristic context.connectorTokens)).map
            ((searcher.quoteEnv context.simConfig).pathOutcome searcher.quoteContext
              context.amountIn)) ⟨[], [], start, false⟩
      rw [← quotePathsWithRegistryObserved_eq] at hquotes hobserved
      have hreported : reported.length ≤ (searcher.laneQuotes context).length := by
        refine hprefix.length_le.trans_eq ?_
        exact (((quoteOrder_perm (searcher.fastLanePaths context.tokenIn context.tokenOut
          context.config context.heuristic context.connectorTokens)).map
            ((searcher.quoteEnv context.simConfig).pathOutcome searcher.quoteContext
              context.amountIn)).filterMap Sum.getLeft?).length_eq
      have hcount := (congrArg seen hobserved).trans (measure_reportAll hseen start reported)
      rw [hstart, Nat.zero_add] at hcount
      rw [hquotes, List.nil_append]
      have hfits : ¬ searcher.LaneOverflows context limit → reported.length ≤ limit := by
        intro hfits
        by_contra hover
        exact hfits ⟨henabled.2, by omega⟩
      exact acceptFastLane_seen hlimit hpositive rfl hcount hfits
  · exact fun _ => hstart

omit [StableDiGraph G Address EdgeData] hlimit hpositive in
theorem heuristicPassModes_cases (heuristic : HeuristicSearchConfig) :
    heuristicPassModes heuristic = [.initial] ∨
      heuristicPassModes heuristic = [.initial, .refinement] := by
  unfold heuristicPassModes
  split
  · exact Or.inr rfl
  · exact Or.inl rfl

omit [StableDiGraph G Address EdgeData] hlimit hpositive in
theorem mirrors_length {τ : Type} {link : σ → τ → Prop} {run : HeuristicRun σ}
    {other : HeuristicRun τ} (hmirrors : run.Mirrors link other) :
    run.quotes.length ≤ other.quotes.length := by
  cases hmirrors with
  | same observed hlink hother =>
      subst hother
      exact le_rfl
  | refused hstopped hhalted hquotes => exact hquotes

omit hpositive in
/-- A pass that begins below the limit ends within it. -/
theorem runPass_withinLimit {run : HeuristicRun σ} (hstopped : run.stopped = false)
    (hroom : run.quotes.length < limit) (mode : HeuristicPassMode) :
    (searcher.runPass context onQuote run mode).quotes.length ≤ limit :=
  ((loopInvariant_withinLimit hlimit).runPass mode ⟨hroom.le, fun _ => hroom⟩
    hstopped).length

omit hpositive in
/-- The passes after the fast lane. -/
theorem runPasses_withinLimit (hfits : ¬ searcher.RefinementOverflows context limit)
    (start : σ)
    (hrunning : (searcher.runFastLane context onQuote { observed := start }).stopped =
      false)
    (hroom : (searcher.runFastLane context onQuote
      { observed := start }).quotes.length < limit) :
    (searcher.runPasses context onQuote (heuristicPassModes context.heuristic)
      (searcher.runFastLane context onQuote { observed := start })).quotes.length ≤
        limit := by
  have hlane := @runFastLane_mirrors σ Unit G searcher context onQuote silent _ _
    follows_silent start () trivial
  generalize searcher.runFastLane context onQuote { observed := start } = lane
    at hlane hrunning hroom ⊢
  rcases hlane with ⟨observed, _, hlane⟩ | ⟨hstopped, _⟩
  · have hlane : searcher.silentLane context = lane.observing () := hlane
    have hfirst := @runPass_withinLimit σ G searcher context onQuote limit _ hlimit lane
      hrunning hroom .initial
    have hinitial := @runPass_mirrors σ Unit G searcher context onQuote silent _
      follows_silent lane _ .initial () trivial
    rw [← hlane] at hinitial
    change (searcher.runPass context onQuote lane .initial).Mirrors _
      (searcher.silentInitial context) at hinitial
    rcases heuristicPassModes_cases context.heuristic with hmodes | hmodes
    · rw [hmodes, runPasses]
      simp only
      split
      · exact hfirst
      · split
        · exact hfirst
        · exact hfirst
    · have hrefines : .refinement ∈ heuristicPassModes context.heuristic := by
        rw [hmodes]
        decide
      rw [hmodes, runPasses]
      generalize searcher.runPass context onQuote lane .initial = first at hfirst hinitial ⊢
      simp only
      split
      · exact hfirst
      · rename_i hgoes
        split
        · exact hfirst
        · rename_i hdeferred
          have hsecond : (searcher.runPass context onQuote first .refinement).quotes.length ≤
              limit := by
            by_cases hspent : limit ≤ first.quotes.length
            · -- nothing is completed beyond the spent limit
              cases hinitial with
              | refused hstopped _ _ => exact absurd hstopped hgoes
              | same observed _ hsame =>
                  have hrefined := mirrors_length (@runPass_mirrors σ Unit G searcher context
                    onQuote silent _ follows_silent first _ .refinement () trivial)
                  have hsame : searcher.silentInitial context = first.observing () := hsame
                  rw [← hsame] at hrefined
                  refine hrefined.trans (le_trans ?_ hfirst)
                  by_contra hmore
                  apply hfits
                  refine ⟨?_, hrefines, ?_, ?_, ?_⟩
                  · rw [hlane]
                    exact hrunning
                  · rw [hsame]
                    have hseen : first.deferredEdgesSeen = true := by
                      simpa [hrefines] using hdeferred
                    exact hseen
                  · rw [hsame]
                    exact hspent
                  · rw [hsame] at hmore ⊢
                    exact not_le.mp hmore
            · exact runPass_withinLimit hlimit (by simpa using hgoes) (by omega) .refinement
          rw [runPasses]
          split
          · exact hsecond
          · split
            · exact hsecond
            · exact hsecond
  · rw [hrunning] at hstopped
    cases hstopped

omit [StableDiGraph G Address EdgeData] hlimit hpositive in
theorem length_finalists_le (quotes : List RouteQuote) :
    (finalists context quotes).length ≤ quotes.length := by
  rw [finalists, List.length_take, sortByAmountOut, List.length_insertionSort]
  exact min_le_right _ _

omit [StableDiGraph G Address EdgeData] hlimit hpositive in
theorem length_finishFastLane_le {run : HeuristicRun σ} {report : HeuristicRoutesReport}
    (hreport : finishFastLane context run = .ok report) :
    report.quotes.length ≤ run.quotes.length := by
  simp only [finishFastLane] at hreport
  split at hreport
  · cases hreport
  · obtain rfl := Except.ok.inj hreport
    exact length_finalists_le _

omit [StableDiGraph G Address EdgeData] hlimit hpositive in
theorem length_quotePathsWithRegistry_le (env : QuoteEnv) (quoteContext : QuoteKeyContext)
    (paths : List RoutePath) (amountIn : U256) :
    (quotePathsWithRegistry env quoteContext paths amountIn).1.length ≤ paths.length := by
  obtain ⟨reported, hprefix, hquotes, _⟩ := foldl_push_spec
    (fun (observed : Unit) (_ : RouteQuote) => (observed, true))
    ((quoteOrder paths).map (env.pathOutcome quoteContext amountIn)) ⟨[], [], (), false⟩
  rw [← quotePathsWithRegistryObserved_eq, List.nil_append] at hquotes
  have hlength : reported.length ≤ paths.length := by
    refine hprefix.length_le.trans ((List.length_filterMap_le _ _).trans ?_)
    rw [List.length_map, (quoteOrder_perm paths).length_eq]
  exact (congrArg List.length hquotes).trans_le hlength

omit [StableDiGraph G Address EdgeData] hlimit hpositive in
theorem length_rankOrNoViable {candidates : ℕ} {quotes ranked : List RouteQuote}
    {failures : List PathFailure}
    (hranked : rankOrNoViable candidates quotes failures = .ok ranked) :
    ranked.length = quotes.length := by
  unfold rankOrNoViable at hranked
  split at hranked
  · cases hranked
  · obtain rfl := Except.ok.inj hranked
    exact List.length_insertionSort _ _

omit [StableDiGraph G Address EdgeData] hlimit hpositive in
theorem length_finishSearch_le {run : HeuristicRun σ} {report : HeuristicRoutesReport}
    (hreport : searcher.finishSearch context run = .ok report) :
    report.quotes.length ≤ run.quotes.length := by
  have hfinalists := @length_finalists_le context run.quotes
  simp only [finishSearch] at hreport
  split at hreport
  · obtain rfl := Except.ok.inj hreport
    exact hfinalists
  · split at hreport
    · split at hreport <;> cases hreport
    · split at hreport
      · obtain rfl := Except.ok.inj hreport
        exact hfinalists
      · split at hreport
        · cases hreport
        · rename_i ranked hranked
          obtain rfl := Except.ok.inj hreport
          refine ((length_rankOrNoViable hranked).trans_le
            (length_quotePathsWithRegistry_le _ _ _ _)).trans ?_
          rw [List.length_map]
          exact hfinalists

/-- The quotes that a search returns. -/
theorem searchRoutes_withinLimit (hfits : ¬ searcher.RefinementOverflows context limit)
    (runLimit : HeuristicRunLimit) (start : σ) {report : HeuristicRoutesReport}
    (hreport : (searcher.searchRoutes context onQuote runLimit start).2 = .ok report) :
    report.quotes.length ≤ limit := by
  obtain ⟨hlength, hroom⟩ := @runFastLane_withinLimit σ G searcher context onQuote limit _
    hlimit hpositive start
  unfold searchRoutes at hreport
  simp only at hreport
  split at hreport
  · exact (length_finishFastLane_le hreport).trans hlength
  · rename_i hgoes
    have hrunning : (searcher.runFastLane context onQuote
        { observed := start }).stopped = false := by
      simpa using fun hstopped => hgoes (Or.inl hstopped)
    exact (length_finishSearch_le hreport).trans
      (runPasses_withinLimit hlimit hfits start hrunning (hroom hrunning))

omit hlimit hpositive in
/-- Edges that the initial pass leaves behind lead to the refinement pass. -/
theorem runPasses_both {run : HeuristicRun σ}
    (hrunning : (searcher.runPass context onQuote run .initial).stopped = false)
    (hdeferred : (searcher.runPass context onQuote run .initial).deferredEdgesSeen = true) :
    searcher.runPasses context onQuote [.initial, .refinement] run =
      searcher.runPass context onQuote (searcher.runPass context onQuote run .initial)
        .refinement := by
  rw [runPasses]
  generalize searcher.runPass context onQuote run .initial = first at hrunning hdeferred ⊢
  rw [hrunning, hdeferred, if_neg Bool.false_ne_true, if_neg (by simp), runPasses]
  split
  · rfl
  · split
    · rfl
    · rfl

omit hlimit hpositive in
/-- The refinement pass of a silent search beyond the limit. -/
theorem length_silentPasses (hover : searcher.RefinementOverflows context limit) :
    limit < (searcher.runPasses context silent (heuristicPassModes context.heuristic)
      (searcher.silentLane context)).quotes.length := by
  obtain ⟨hrunning, hrefines, hdeferred, hspent, hcompletes⟩ := hover
  have hinitial : (searcher.silentInitial context).stopped = false :=
    (passInvariant_running (fun _ _ => rfl)).loop.runPass .initial hrunning hrunning
  have hmodes : heuristicPassModes context.heuristic = [.initial, .refinement] := by
    rcases heuristicPassModes_cases context.heuristic with hmodes | hmodes
    · rw [hmodes] at hrefines
      exact absurd hrefines (by decide)
    · exact hmodes
  have hsecond : limit < (searcher.runPass context silent (searcher.silentInitial context)
      .refinement).quotes.length := hspent.trans_lt hcompletes
  rw [hmodes, runPasses_both hinitial hdeferred]
  exact hsecond

section Observed

variable {seen : σ → ℕ}
  (hseen : ∀ observed quote, seen (onQuote observed quote).1 = seen observed + 1)

include hseen

/-- The quotes that a search shows to its observer. -/
theorem searchRoutes_seen_le (hlane : ¬ searcher.LaneOverflows context limit)
    (hfits : ¬ searcher.RefinementOverflows context limit) (runLimit : HeuristicRunLimit)
    {start : σ} (hstart : seen start = 0) :
    seen (searcher.searchRoutes context onQuote runLimit start).1 ≤ limit := by
  obtain ⟨hlength, hroom⟩ := @runFastLane_withinLimit σ G searcher context onQuote limit _
    hlimit hpositive start
  have hcount := @runFastLane_seen σ G searcher context onQuote limit _ hlimit hpositive seen
    hseen start hstart (Or.inl hlane)
  unfold searchRoutes
  simp only
  split
  · exact hcount.trans_le hlength
  · rename_i hgoes
    have hrunning : (searcher.runFastLane context onQuote
        { observed := start }).stopped = false := by
      simpa using fun hstopped => hgoes (Or.inl hstopped)
    have hpasses := (@passInvariant_counted σ G searcher context onQuote seen
      hseen).runPasses (heuristicPassModes context.heuristic) hcount hrunning
    exact hpasses.trans_le
      (runPasses_withinLimit hlimit hfits start hrunning (hroom hrunning))

variable (hcontinue : ∀ observed quote, (onQuote observed quote).2 = true)
  (hrevisit : context.allowFinalSourceRevisit = false)

include hcontinue hrevisit

/-- A fast lane beyond the limit is shown to the observer as a whole. -/
theorem searchRoutes_laneOverflows (hover : searcher.LaneOverflows context limit)
    (runLimit : HeuristicRunLimit) {start : σ} (hstart : seen start = 0) :
    limit < seen (searcher.searchRoutes context onQuote runLimit start).1 := by
  have hpositive' : ∀ limit ∈ context.config.maxCandidates, 1 ≤ limit := by
    intro other hother
    obtain rfl := Option.some.inj (hlimit.symm.trans hother)
    exact hpositive
  have hstopped := (runFastLane_stopped_iff hcontinue hrevisit hpositive' start).1.mpr
    ⟨hover.1, limit, hlimit, hover.2.le⟩
  unfold searchRoutes
  simp only
  rw [if_pos (Or.inl hstopped)]
  simp only [runFastLane]
  rw [if_pos ⟨hrevisit, hover.1⟩]
  split
  · rename_i hempty
    have hlane := hover.2
    unfold laneQuotes at hlane
    rw [hempty] at hlane
    exact absurd hlane (Nat.not_lt_zero _)
  · obtain ⟨_, hquotes, hobserved⟩ := @quotePathsWithRegistryObserved_continues
      (searcher.quoteEnv context.simConfig) searcher.quoteContext context.amountIn σ
      onQuote hcontinue (searcher.fastLanePaths context.tokenIn context.tokenOut
        context.config context.heuristic context.connectorTokens) start
    rw [observed_acceptFastLane]
    simp only
    rw [hobserved, measure_reportAll hseen, hstart, Nat.zero_add, hquotes]
    refine hover.2.trans_eq ?_
    exact (((quoteOrder_perm (searcher.fastLanePaths context.tokenIn context.tokenOut
      context.config context.heuristic context.connectorTokens)).symm.map
        ((searcher.quoteEnv context.simConfig).pathOutcome searcher.quoteContext
          context.amountIn)).filterMap Sum.getLeft?).length_eq

/-- A refinement pass beyond the limit is shown to the observer. -/
theorem searchRoutes_refinementOverflows
    (hover : searcher.RefinementOverflows context limit) {start : σ}
    (hstart : seen start = 0) :
    limit < seen (searcher.searchRoutes context onQuote .full start).1 := by
  have hpositive' : ∀ limit ∈ context.config.maxCandidates, 1 ≤ limit := by
    intro other hother
    obtain rfl := Option.some.inj (hlimit.symm.trans hother)
    exact hpositive
  have hrunning : (searcher.runFastLane context onQuote
      { observed := start }).stopped = false := by
    by_contra hstopped
    have hfills := (runFastLane_stopped_iff hcontinue hrevisit hpositive' start).1.mp
      (by simpa using hstopped)
    have hsilent := (@runFastLane_stopped_iff G searcher Unit silent context _
      (fun _ _ => rfl) hrevisit hpositive' ()).1.mpr hfills
    have hquiet := hover.running
    rw [silentLane, hsilent] at hquiet
    cases hquiet
  have hcount := @runFastLane_seen σ G searcher context onQuote limit _ hlimit hpositive seen
    hseen start hstart (Or.inr hrunning)
  have hlane := @runFastLane_mirrors σ Unit G searcher context onQuote silent _ _
    follows_silent start () trivial
  unfold searchRoutes
  simp only
  rw [if_neg (by rw [hrunning]; rintro (hended | hlimited); cases hended; cases hlimited)]
  generalize searcher.runFastLane context onQuote { observed := start } = lane
    at hlane hrunning hcount ⊢
  simp only
  have hpasses := (@passInvariant_counted σ G searcher context onQuote seen
    hseen).runPasses (heuristicPassModes context.heuristic) hcount hrunning
  have hends : (searcher.runPasses context onQuote (heuristicPassModes context.heuristic)
      lane).stopped = false :=
    (passInvariant_running hcontinue).runPasses _ hrunning hrunning
  rw [hpasses]
  rcases hlane with ⟨observed, _, hsame⟩ | ⟨hstopped, _⟩
  · have hsame : searcher.silentLane context = lane.observing () := hsame
    have hmirrors := @runPasses_mirrors σ Unit G searcher context onQuote silent _
      follows_silent lane _ (heuristicPassModes context.heuristic) () trivial hrunning
    rw [← hsame] at hmirrors
    cases hmirrors with
    | same observed _ hcopy =>
        have hlength := length_silentPasses hover
        rw [hcopy] at hlength
        exact hlength
    | refused hstopped _ _ =>
        rw [hends] at hstopped
        cases hstopped
  · rw [hrunning] at hstopped
    cases hstopped

end Observed

end Searches

end AmmSearcher

end AmmSearch
