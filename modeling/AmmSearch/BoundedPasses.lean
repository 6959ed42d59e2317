/-
The passes of a search that only the upper bound cuts.  A pass walks the tree of
its kept hops from the root; a prefix is left out when its balance cap does not
exceed the incumbent, and then nothing below it is better than what was found.
-/
import AmmSearch.BalanceCaps
import AmmSearch.BranchAndBound
import AmmSearch.HeuristicInvariant
import AmmSearch.HeuristicOutcome

open FiniteMap StableGraph BranchAndBound Relation

namespace AmmSearch

namespace AmmSearcher

variable {G : Type} [StableDiGraph G Address EdgeData] (searcher : AmmSearcher G)
  (context : HeuristicContext)

/-- The search keeps every prefix of a level, and every quote. -/
structure OnlyBounded (context : HeuristicContext) : Prop where
  candidates : context.config.maxCandidates = none
  beam : context.heuristic.beamWidth = none
  dominance : context.heuristic.prefixDominance = false

/-- The pass keeps the quoted hop when it expands the state. -/
def Retains (mode : HeuristicPassMode) (state : HeuristicState)
    (quoted : QuotedHeuristicHop) : Prop :=
  ∃ group ∈ searcher.groupHeuristicHops context mode state,
    quoted ∈ searcher.keptQuotes context mode state group

/-- The prefixes that a pass pushes and the amounts that it completes, without a bound. -/
def passTree (mode : HeuristicPassMode) : Tree HeuristicState U256 where
  child state next :=
    ∃ quoted node, searcher.Retains context mode state quoted ∧
      searcher.graph.nodeIndex quoted.hop.tokenOut = some node ∧ node ≠ context.target ∧
      state.path.length + 1 < context.config.maxHops ∧ next = nextState state node quoted
  value state amount :=
    ∃ quoted, searcher.Retains context mode state quoted ∧
      searcher.graph.nodeIndex quoted.hop.tokenOut = some context.target ∧
      context.config.minHops ≤ state.path.length + 1 ∧ amount = quoted.amountOut

/-- Expanding the state leaves hops to the refinement pass. -/
def DefersAt (mode : HeuristicPassMode) (state : HeuristicState) : Prop :=
  ∃ group ∈ searcher.groupHeuristicHops context mode state, Defers context mode group

/-- A fresh balance of the target token bounds what its pool pays out. -/
def BalancesBound (searcher : AmmSearcher G) (simConfig : SimConfig) (tokenOut : Address) :
    Prop :=
  ∀ index, searcher.liquidityIndex = some index → ∀ pool balance,
    (index.balanceState pool tokenOut).fresh? = some balance →
    ∀ hop : Hop, hop.pool = pool → hop.tokenOut = tokenOut → ∀ amountIn amountOut,
      (searcher.quoteEnv simConfig).quoteHop searcher.quoteContext hop amountIn =
        .ok amountOut → amountOut ≤ balance

variable {searcher context} {mode : HeuristicPassMode} {state next root : HeuristicState}
  {amount : U256}

section Caps

theorem exists_edge_of_retains (hindexed : searcher.graph.Indexed) {token : Address}
    (htoken : searcher.graph.nodeIndex token = some state.node) {quoted : QuotedHeuristicHop}
    (hretains : searcher.Retains context mode state quoted) :
    (∃ edge ∈ searcher.graph.outgoingEdges state.node, edge.pool = quoted.hop.pool ∧
        searcher.graph.nodeIndex quoted.hop.tokenOut = some edge.target) ∧
      searcher.quoteHop context quoted.hop state.amount = .ok quoted.amountOut := by
  obtain ⟨group, hgroup, hquoted⟩ := hretains
  obtain ⟨hoffered, _, hquote⟩ := offered_of_mem_keptQuotes hgroup hquoted
  obtain ⟨edge, hedge, hhop⟩ := List.mem_filterMap.mp hoffered
  have hedgeHop := (admissibleHop_of_edge hhop).1
  rw [hedgeHop] at hquote ⊢
  exact ⟨⟨edge, hedge, rfl, ((hindexed.mem_outgoingEdges htoken edge).mp hedge).2.1⟩, hquote⟩

/-- The prefixes below a state lead away from its node. -/
theorem leadsTo_of_child (hindexed : searcher.graph.Indexed) {token : Address}
    (htoken : searcher.graph.nodeIndex token = some root.node)
    (hroom : root.path.length < context.config.maxHops)
    (hpath : ReflTransGen (searcher.passTree context mode).child root state) :
    ∃ depth, searcher.LeadsTo root.node context.target state.node depth ∧
      state.path.length = root.path.length + depth ∧
      state.path.length < context.config.maxHops ∧
      ∃ token, searcher.graph.nodeIndex token = some state.node := by
  induction hpath with
  | refl => exact ⟨0, .start, rfl, hroom, token, htoken⟩
  | tail _ hchild ih =>
      obtain ⟨depth, hleads, hlength, _, token, htoken⟩ := ih
      obtain ⟨quoted, node, hretains, hnode, hopen, hnext, rfl⟩ := hchild
      obtain ⟨⟨edge, hedge, _, htarget⟩, _⟩ := exists_edge_of_retains hindexed htoken hretains
      obtain rfl := Option.some.inj (hnode.symm.trans htarget)
      refine ⟨depth + 1, .edge hleads hedge hopen, ?_, ?_, _, hnode⟩
      · simp only [nextState, List.length_append, List.length_singleton]
        omega
      · simpa [nextState] using hnext

/-- A balance cap bounds every amount below its prefix. -/
theorem le_of_targetBalanceCap (hresolved : context.Resolved searcher.graph)
    (hbalances : searcher.BalancesBound context.simConfig context.tokenOut) {token : Address}
    (htoken : searcher.graph.nodeIndex token = some root.node)
    (hroom : root.path.length < context.config.maxHops) {cap : U256}
    (hcap : searcher.targetBalanceCap root.node context.target context.tokenOut
      (context.config.maxHops - root.path.length) = .known cap)
    (hbelow : (searcher.passTree context mode).Below root amount) : amount ≤ cap := by
  obtain ⟨index, hindex, hbounds⟩ := (targetBalanceCap_eq_known_iff cap).mp hcap
  obtain ⟨last, hpath, quoted, hretains, hnode, _, rfl⟩ := hbelow
  obtain ⟨depth, hleads, hlength, hlast, other, hother⟩ :=
    leadsTo_of_child hresolved.indexed htoken hroom hpath
  obtain ⟨⟨edge, hedge, hpool, htarget⟩, hquote⟩ :=
    exists_edge_of_retains hresolved.indexed hother hretains
  have hclosing : edge.target = context.target := Option.some.inj (htarget.symm.trans hnode)
  obtain ⟨balance, hfresh, hle⟩ := hbounds.bounds edge
    ⟨last.node, depth, hleads, by omega, hedge, hclosing⟩
  have hout : quoted.hop.tokenOut = context.tokenOut :=
    AmmGraph.nodeIndex_inj hresolved.indexed hnode hresolved.target
  exact (hbalances index hindex edge.pool balance hfresh quoted.hop hpool.symm hout _ _
    hquote).trans hle

end Caps

section Level

variable {σ : Type} {onQuote : σ → RouteQuote → σ × Bool} {frontier : List HeuristicState}
  {start run final : HeuristicRun σ}

/-- The run has a quote of this amount. -/
def Found (run : HeuristicRun σ) (amount : U256) : Prop :=
  ∃ quote ∈ run.quotes, quote.amountOut = amount

theorem Keeps.found {run run' : HeuristicRun σ} (hkeeps : Keeps onQuote run run')
    (hfound : Found run amount) : Found run' amount := by
  obtain ⟨quote, hquote, hamount⟩ := hfound
  exact ⟨quote, hkeeps.mem_quotes hquote, hamount⟩

/-- What a run knows: its quotes are priced, every evaluated path that can be quoted has one,
and the incumbent is one of them. -/
structure Accounted (searcher : AmmSearcher G) (context : HeuristicContext)
    (run : HeuristicRun σ) : Prop where
  quoted : ∀ path ∈ run.evaluatedPaths, ∀ result, searcher.trace context path = .ok result →
    ∃ quote ∈ run.quotes, quote.path = path
  priced : ∀ quote ∈ run.quotes,
    searcher.trace context quote.path = .ok (quote.hops, quote.amountOut)
  incumbent : ∀ best, run.incumbentAmount = some best → Found run best

/-- The prefix was left out because its balance cap is not above a found amount. -/
def BoundCut (searcher : AmmSearcher G) (context : HeuristicContext) (run : HeuristicRun σ)
    (state : HeuristicState) : Prop :=
  ∃ cap best, searcher.targetBalanceCap state.node context.target context.tokenOut
    (context.config.maxHops - state.path.length) = .known cap ∧ Found run best ∧ cap ≤ best

/-- What holds while a level is expanded from the run `start`. -/
structure BoundedLevel (searcher : AmmSearcher G) (context : HeuristicContext)
    (onQuote : σ → RouteQuote → σ × Bool) (mode : HeuristicPassMode)
    (frontier : List HeuristicState) (start run : HeuristicRun σ) : Prop
    extends searcher.Accounted context run where
  halted : run.halted = false
  stopped : run.stopped = false
  grows : Grows onQuote start run
  origin : ∀ quote ∈ run.quotes, quote ∈ start.quotes ∨
    ∃ state ∈ frontier, (searcher.passTree context mode).value state quote.amountOut
  pushed : ∀ next ∈ run.nextFrontier, searcher.TracedState context next ∧
    ∃ state ∈ frontier, (searcher.passTree context mode).child state next
  deferred : run.deferredEdgesSeen = true → start.deferredEdgesSeen = true ∨
    ∃ state ∈ frontier, searcher.DefersAt context mode state

/-- A kept hop of an expanded prefix has been completed or pushed. -/
structure Handled (searcher : AmmSearcher G) (context : HeuristicContext)
    (state : HeuristicState) (quoted : QuotedHeuristicHop) (run : HeuristicRun σ) : Prop where
  closing : searcher.graph.nodeIndex quoted.hop.tokenOut = some context.target →
    context.config.minHops ≤ state.path.length + 1 → Found run quoted.amountOut
  pushed : ∀ node, searcher.graph.nodeIndex quoted.hop.tokenOut = some node →
    node ≠ context.target → state.path.length + 1 < context.config.maxHops →
    nextState state node quoted ∈ run.nextFrontier

omit [StableDiGraph G Address EdgeData] in
theorem Handled.mono {quoted : QuotedHeuristicHop} {run run' : HeuristicRun σ}
    (hgrows : Grows onQuote run run') (hhandled : searcher.Handled context state quoted run) :
    searcher.Handled context state quoted run' where
  closing := fun hnode hmin => hgrows.toKeeps.found (hhandled.closing hnode hmin)
  pushed := fun node hnode hopen hroom =>
    hgrows.frontier _ (hhandled.pushed node hnode hopen hroom)

/-- The bound has left the state out, or its kept hops have been dealt with. -/
def Visited (searcher : AmmSearcher G) (context : HeuristicContext) (mode : HeuristicPassMode)
    (state : HeuristicState) (run : HeuristicRun σ) : Prop :=
  searcher.BoundCut context run state ∨
    (∀ quoted, searcher.Retains context mode state quoted →
      searcher.Handled context state quoted run) ∧
    (searcher.DefersAt context mode state → run.deferredEdgesSeen = true)

omit [StableDiGraph G Address EdgeData] in
theorem BoundCut.mono {run run' : HeuristicRun σ} (hkeeps : Keeps onQuote run run')
    (hcut : searcher.BoundCut context run state) : searcher.BoundCut context run' state := by
  obtain ⟨cap, best, hcap, hfound, hle⟩ := hcut
  exact ⟨cap, best, hcap, hkeeps.found hfound, hle⟩

theorem Visited.mono {run run' : HeuristicRun σ} (hgrows : Grows onQuote run run')
    (hvisited : searcher.Visited context mode state run) :
    searcher.Visited context mode state run' := by
  rcases hvisited with hcut | ⟨hhandled, hdeferred⟩
  · exact Or.inl (hcut.mono hgrows.toKeeps)
  · exact Or.inr ⟨fun quoted hretains => (hhandled quoted hretains).mono hgrows,
      fun hdefers => hgrows.deferred (hdeferred hdefers)⟩

/-- A state with room that is skipped has a balance cap that the incumbent reaches. -/
theorem bound_of_skipsState (hdominance : context.heuristic.prefixDominance = false)
    (hroom : state.path.length < context.config.maxHops)
    (hskip : searcher.skipsState context run state = true) :
    ∃ best cap, run.incumbentAmount = some best ∧
      searcher.targetBalanceCap state.node context.target context.tokenOut
        (context.config.maxHops - state.path.length) = .known cap ∧ cap ≤ best := by
  unfold skipsState at hskip
  rw [decide_eq_false (Nat.not_le.mpr hroom), hdominance, Bool.false_or, Bool.false_and,
    Bool.or_false] at hskip
  unfold shouldPruneUpperBoundPrefix at hskip
  simp only at hskip
  split at hskip
  · cases hskip
  · cases hincumbent : run.incumbentAmount with
    | none =>
        rw [hincumbent] at hskip
        cases hskip
    | some best =>
        rw [hincumbent] at hskip
        simp only at hskip
        split at hskip
        · rename_i cap hcap
          exact ⟨best, cap, rfl, hcap, of_decide_eq_true hskip⟩
        · cases hskip

section Steps

variable (honly : OnlyBounded context)
  (hquiet : ∀ observed quote, (onQuote observed quote).2 = true)
  (hlevel : searcher.BoundedLevel context onQuote mode frontier start run)
  (hmem : state ∈ frontier) (hstate : searcher.TracedState context state)

include honly hquiet hlevel

theorem BoundedLevel.completePath (quote : RouteQuote)
    (htrace : searcher.trace context quote.path = .ok (quote.hops, quote.amountOut))
    (horigin : ∃ state ∈ frontier,
      (searcher.passTree context mode).value state quote.amountOut) :
    searcher.BoundedLevel context onQuote mode frontier start
        (AmmSearcher.completePath context onQuote run quote) ∧
      Found (AmmSearcher.completePath context onQuote run quote) quote.amountOut := by
  have hgrows := @grows_completePath context σ onQuote run quote
  unfold AmmSearcher.completePath at hgrows ⊢
  split at hgrows
  · rename_i hseen
    rw [if_pos hseen]
    -- the path was quoted before, with the same trace
    obtain ⟨other, hother, hpath⟩ := hlevel.quoted quote.path hseen _ htrace
    have hsame := hlevel.priced other hother
    rw [hpath, htrace, Except.ok.injEq, Prod.mk.injEq] at hsame
    exact ⟨hlevel, other, hother, hsame.2.symm⟩
  · rename_i hnew
    rw [if_neg hnew]
    have hlast : quote ∈ run.quotes ++ [quote] :=
      List.mem_append_right _ (List.mem_singleton_self quote)
    refine ⟨⟨⟨?_, ?_, ?_⟩, ?_, ?_, hlevel.grows.trans _ _ _ hgrows, ?_, hlevel.pushed,
      hlevel.deferred⟩, quote, hlast, rfl⟩
    · intro path hpath result hresult
      rcases Finset.mem_insert.mp hpath with rfl | hold
      · exact ⟨quote, hlast, rfl⟩
      · obtain ⟨other, hother, hsame⟩ := hlevel.quoted path hold result hresult
        exact ⟨other, List.mem_append_left _ hother, hsame⟩
    · intro other hother
      rcases List.mem_append.mp hother with hold | hnew
      · exact hlevel.priced other hold
      · obtain rfl := List.mem_singleton.mp hnew
        exact htrace
    · intro best hbest
      obtain ⟨raised, hraised, _, _, hchoice⟩ :=
        raiseIncumbent_spec run.incumbentAmount quote.amountOut
      obtain rfl := Option.some.inj (hraised.symm.trans hbest)
      rcases hchoice with rfl | hold
      · exact ⟨quote, hlast, rfl⟩
      · obtain ⟨other, hother, hamount⟩ := hlevel.incumbent raised hold
        exact ⟨other, List.mem_append_left _ hother, hamount⟩
    · simp [hquiet, maxCandidatesReached, honly.candidates]
    · simp [hquiet]
    · intro other hother
      rcases List.mem_append.mp hother with hold | hnew
      · exact hlevel.origin other hold
      · obtain rfl := List.mem_singleton.mp hnew
        exact Or.inr horigin

include hmem hstate

/-- A kept hop is completed or pushed. -/
theorem BoundedLevel.expandQuoted {quoted : QuotedHeuristicHop}
    (hretains : searcher.Retains context mode state quoted) :
    searcher.BoundedLevel context onQuote mode frontier start
        (searcher.expandQuoted context onQuote state run quoted) ∧
      Grows onQuote run (searcher.expandQuoted context onQuote state run quoted) ∧
      searcher.Handled context state quoted
        (searcher.expandQuoted context onQuote state run quoted) := by
  obtain ⟨group, hgroup, hquoted⟩ := hretains
  have hquote := (offered_of_mem_keptQuotes hgroup hquoted).2.2
  have hretains : searcher.Retains context mode state quoted := ⟨group, hgroup, hquoted⟩
  unfold AmmSearcher.expandQuoted
  rw [hlevel.halted, if_neg Bool.false_ne_true]
  cases hnode : searcher.graph.nodeIndex quoted.hop.tokenOut with
  | none => exact ⟨hlevel, Grows.refl _, by simp [hnode], by simp [hnode]⟩
  | some node =>
      have hnext := hstate.nextState hquote node
      have hlength : (nextState state node quoted).path.length = state.path.length + 1 := by
        simp [nextState]
      simp only [hlength]
      by_cases htarget : node = context.target
      · subst htarget
        rw [if_pos rfl]
        by_cases hmin : context.config.minHops ≤ state.path.length + 1
        · rw [if_pos hmin]
          obtain ⟨hdone, hfound⟩ := hlevel.completePath honly hquiet
            ⟨(nextState state context.target quoted).path, context.amountIn, quoted.amountOut,
              (nextState state context.target quoted).hopQuotes⟩ hnext
            ⟨state, hmem, quoted, hretains, hnode, hmin, rfl⟩
          refine ⟨hdone, grows_completePath _ _, fun _ _ => hfound, ?_⟩
          intro other hother hopen
          exact absurd (Option.some.inj (hnode.symm.trans hother)).symm hopen
        · rw [if_neg hmin]
          refine ⟨hlevel, Grows.refl _, fun _ h => absurd h hmin, ?_⟩
          intro other hother hopen
          exact absurd (Option.some.inj (hnode.symm.trans hother)).symm hopen
      · rw [if_neg htarget]
        have hclosing : searcher.graph.nodeIndex quoted.hop.tokenOut = some context.target →
            False := fun hclose => htarget (Option.some.inj (hnode.symm.trans hclose))
        by_cases hroom : state.path.length + 1 < context.config.maxHops
        · rw [if_pos hroom]
          have hgrows := @grows_pushPrefix G searcher context σ onQuote run
            quoted.hop.tokenOut (nextState state node quoted)
          unfold AmmSearcher.pushPrefix at hgrows ⊢
          rw [if_neg (by simp [honly.dominance])] at hgrows ⊢
          refine ⟨⟨⟨hlevel.quoted, hlevel.priced, hlevel.incumbent⟩, hlevel.halted,
            hlevel.stopped, hlevel.grows.trans _ _ _ hgrows, hlevel.origin, ?_,
            hlevel.deferred⟩, hgrows, fun hclose => (hclosing hclose).elim, ?_⟩
          · intro other hother
            rcases List.mem_append.mp hother with hold | hnew
            · exact hlevel.pushed other hold
            · obtain rfl := List.mem_singleton.mp hnew
              exact ⟨hnext, state, hmem, quoted, node, hretains, hnode, htarget, hroom, rfl⟩
          · intro other hother _ _
            obtain rfl := Option.some.inj (hnode.symm.trans hother)
            exact List.mem_append_right _ (List.mem_singleton_self _)
        · rw [if_neg hroom]
          exact ⟨hlevel, Grows.refl _, fun hclose => (hclosing hclose).elim,
            fun _ _ _ h => absurd h hroom⟩

/-- All kept hops of a group are dealt with. -/
theorem BoundedLevel.expandGroup {group : HeuristicHopGroup}
    (hgroup : group ∈ searcher.groupHeuristicHops context mode state) :
    searcher.BoundedLevel context onQuote mode frontier start
        (searcher.expandGroup context onQuote mode state run group) ∧
      Grows onQuote run (searcher.expandGroup context onQuote mode state run group) ∧
      (∀ quoted ∈ searcher.keptQuotes context mode state group,
        searcher.Handled context state quoted
          (searcher.expandGroup context onQuote mode state run group)) ∧
      (Defers context mode group →
        (searcher.expandGroup context onQuote mode state run group).deferredEdgesSeen =
          true) := by
  have hlength : (searcher.liquidityRankedHops group.hops
      context.heuristic.edgeShortlist context.config.liquidityPruning).length =
        group.hops.length := by
    rw [← (searcher.perm_liquidityRankedHops group.hops _ _).length_eq, List.length_map]
  unfold AmmSearcher.expandGroup
  rw [if_neg (by simp [hlevel.halted])]
  simp only [hlength]
  generalize hfailures : run.failures ++ _ = failures
  generalize hdeferred : (run.deferredEdgesSeen || decide (mode = .initial ∧
    .refinement ∈ heuristicPassModes context.heuristic ∧
    context.heuristic.edgeShortlist.enabled = true ∧
    mode.edgeLimit context.heuristic < group.hops.length)) = deferred
  have hgrows : Grows onQuote run
      { run with failures := failures, deferredEdgesSeen := deferred } := by
    refine ⟨⟨Finset.Subset.refl _, fun _ _ h => h, ⟨[], by simp, rfl⟩, ?_⟩,
      fun _ h => h⟩
    intro hseen
    simp [← hdeferred, hseen]
  have hstart : searcher.BoundedLevel context onQuote mode frontier start
      { run with failures := failures, deferredEdgesSeen := deferred } := by
    refine { hlevel with grows := hlevel.grows.trans _ _ _ hgrows, deferred := ?_ }
    intro hseen
    rw [← hdeferred, Bool.or_eq_true, decide_eq_true_iff] at hseen
    rcases hseen with hold | hdefers
    · exact hlevel.deferred hold
    · exact Or.inr ⟨state, hmem, group, hgroup, hdefers⟩
  obtain ⟨hlast, hmore, hdone⟩ := foldl_establishes (searcher.Handled context state)
    Grows.refl Grows.trans (fun _ _ _ hgrows hdone => hdone.mono hgrows)
    (fun run hrun quoted hquoted => hrun.expandQuoted honly hquiet hmem hstate
      ⟨group, hgroup, hquoted⟩) hstart
  refine ⟨hlast, hgrows.trans _ _ _ hmore, hdone, ?_⟩
  intro hdefers
  apply hmore.deferred
  unfold Defers at hdefers
  rw [← hdeferred, decide_eq_true hdefers, Bool.or_true]

/-- A state of the frontier is left out by the bound, or expanded in full. -/
theorem BoundedLevel.expandState (hroom : state.path.length < context.config.maxHops) :
    searcher.BoundedLevel context onQuote mode frontier start
        (searcher.expandState context onQuote mode run state) ∧
      Grows onQuote run (searcher.expandState context onQuote mode run state) ∧
      searcher.Visited context mode state
        (searcher.expandState context onQuote mode run state) := by
  unfold AmmSearcher.expandState
  rw [if_neg (by simp [hlevel.halted])]
  cases hskip : searcher.skipsState context run state with
  | true =>
      rw [if_pos rfl]
      obtain ⟨best, cap, hbest, hcap, hle⟩ := bound_of_skipsState honly.dominance hroom hskip
      exact ⟨hlevel, Grows.refl _, Or.inl ⟨cap, best, hcap, hlevel.incumbent best hbest, hle⟩⟩
  | false =>
      rw [if_neg Bool.false_ne_true]
      obtain ⟨hlast, hmore, hdone⟩ := foldl_establishes
        (fun group run => (∀ quoted ∈ searcher.keptQuotes context mode state group,
            searcher.Handled context state quoted run) ∧
          (Defers context mode group → run.deferredEdgesSeen = true))
        Grows.refl Grows.trans
        (fun _ _ _ hgrows hdone =>
          ⟨fun quoted hquoted => (hdone.1 quoted hquoted).mono hgrows,
            fun hdefers => hgrows.deferred (hdone.2 hdefers)⟩)
        (fun run hrun group hgroup => hrun.expandGroup honly hquiet hmem hstate hgroup) hlevel
      refine ⟨hlast, hmore, Or.inr ⟨?_, ?_⟩⟩
      · rintro quoted ⟨group, hgroup, hquoted⟩
        exact (hdone group hgroup).1 quoted hquoted
      · rintro ⟨group, hgroup, hdefers⟩
        exact (hdone group hgroup).2 hdefers

end Steps

/-- One level deals with its whole frontier. -/
theorem boundedLevel_foldl (honly : OnlyBounded context)
    (hquiet : ∀ observed quote, (onQuote observed quote).2 = true)
    (hfrontier : ∀ state ∈ frontier, searcher.TracedState context state ∧
      state.path.length < context.config.maxHops)
    (hstart : searcher.BoundedLevel context onQuote mode frontier start start) :
    searcher.BoundedLevel context onQuote mode frontier start
        (frontier.foldl (searcher.expandState context onQuote mode) start) ∧
      ∀ state ∈ frontier, searcher.Visited context mode state
        (frontier.foldl (searcher.expandState context onQuote mode) start) := by
  obtain ⟨hlast, _, hdone⟩ := foldl_establishes (searcher.Visited context mode)
    Grows.refl Grows.trans (fun _ _ _ hgrows hdone => hdone.mono hgrows)
    (fun run hrun state hstate => hrun.expandState honly hquiet hstate
      (hfrontier state hstate).1 (hfrontier state hstate).2) hstart
  exact ⟨hlast, hdone⟩

theorem mem_nextLevel_of_onlyBounded (honly : OnlyBounded context) (run : HeuristicRun σ) :
    state ∈ searcher.nextLevel context run ↔ state ∈ run.nextFrontier := by
  unfold nextLevel applyBeamWidth retainUndominated
  rw [honly.dominance, honly.beam, if_neg Bool.false_ne_true]
  simp only
  split
  · exact (List.perm_insertionSort _ _).mem_iff
  · rfl

end Level

section Pass

variable {σ : Type} {onQuote : σ → RouteQuote → σ × Bool} {frontier : List HeuristicState}
  {start run final : HeuristicRun σ} {reached : HeuristicState → Prop}

/-- What the levels of a pass from `frontier` on achieve; `reached` are the states of their
frontiers. -/
structure BoundedPass (searcher : AmmSearcher G) (context : HeuristicContext)
    (onQuote : σ → RouteQuote → σ × Bool) (mode : HeuristicPassMode)
    (frontier : List HeuristicState) (start final : HeuristicRun σ)
    (reached : HeuristicState → Prop) : Prop extends searcher.Accounted context final where
  stopped : final.stopped = false
  keeps : Keeps onQuote start final
  origin : ∀ quote ∈ final.quotes, quote ∈ start.quotes ∨
    ∃ state, reached state ∧ (searcher.passTree context mode).value state quote.amountOut
  begins : ∀ state ∈ frontier, reached state
  grown : ∀ state, reached state →
    ∃ first ∈ frontier, ReflTransGen (searcher.passTree context mode).child first state
  visited : ∀ state, reached state → searcher.BoundCut context final state ∨
    (∀ next, (searcher.passTree context mode).child state next → reached next) ∧
      (∀ amount, (searcher.passTree context mode).value state amount → Found final amount) ∧
      (searcher.DefersAt context mode state → final.deferredEdgesSeen = true)
  deferred : final.deferredEdgesSeen = true → start.deferredEdgesSeen = true ∨
    ∃ state, reached state ∧ searcher.DefersAt context mode state

theorem boundedPass_nil (haccounted : searcher.Accounted context run)
    (hstopped : run.stopped = false) :
    searcher.BoundedPass context onQuote mode [] run run fun _ => False where
  toAccounted := haccounted
  stopped := hstopped
  keeps := Keeps.refl run
  origin := fun _ hquote => Or.inl hquote
  begins := by simp
  grown := fun _ hstate => hstate.elim
  visited := fun _ hstate => hstate.elim
  deferred := fun hseen => Or.inl hseen

/-- A level followed by the levels after it. -/
theorem BoundedPass.cons (honly : OnlyBounded context)
    (hlevel : searcher.BoundedLevel context onQuote mode frontier start run)
    (hdone : ∀ state ∈ frontier, searcher.Visited context mode state run)
    (hrest : searcher.BoundedPass context onQuote mode (searcher.nextLevel context run) run
      final reached) :
    searcher.BoundedPass context onQuote mode frontier start final
      fun state => state ∈ frontier ∨ reached state where
  toAccounted := hrest.toAccounted
  stopped := hrest.stopped
  keeps := hlevel.grows.toKeeps.trans hrest.keeps
  origin := by
    intro quote hquote
    rcases hrest.origin quote hquote with hold | ⟨state, hstate, hvalue⟩
    · rcases hlevel.origin quote hold with hold | ⟨state, hstate, hvalue⟩
      · exact Or.inl hold
      · exact Or.inr ⟨state, Or.inl hstate, hvalue⟩
    · exact Or.inr ⟨state, Or.inr hstate, hvalue⟩
  begins := fun _ hstate => Or.inl hstate
  grown := by
    rintro state (hstate | hstate)
    · exact ⟨state, hstate, .refl⟩
    · obtain ⟨next, hnext, hpath⟩ := hrest.grown state hstate
      obtain ⟨_, first, hfirst, hchild⟩ :=
        hlevel.pushed next ((mem_nextLevel_of_onlyBounded honly run).mp hnext)
      exact ⟨first, hfirst, hpath.head hchild⟩
  visited := by
    rintro state (hstate | hstate)
    · rcases hdone state hstate with hcut | ⟨hhandled, hdeferred⟩
      · exact Or.inl (hcut.mono hrest.keeps)
      · refine Or.inr ⟨?_, ?_, fun hdefers => hrest.keeps.deferred (hdeferred hdefers)⟩
        · rintro next ⟨quoted, node, hretains, hnode, hopen, hroom, rfl⟩
          refine Or.inr (hrest.begins _ ((mem_nextLevel_of_onlyBounded honly run).mpr ?_))
          exact (hhandled quoted hretains).pushed node hnode hopen hroom
        · rintro amount ⟨quoted, hretains, hnode, hmin, rfl⟩
          exact hrest.keeps.found ((hhandled quoted hretains).closing hnode hmin)
    · rcases hrest.visited state hstate with hcut | ⟨hnext, hvalues, hdeferred⟩
      · exact Or.inl hcut
      · exact Or.inr ⟨fun next hchild => Or.inr (hnext next hchild), hvalues, hdeferred⟩
  deferred := by
    intro hseen
    rcases hrest.deferred hseen with hold | ⟨state, hstate, hdefers⟩
    · rcases hlevel.deferred hold with hold | ⟨state, hstate, hdefers⟩
      · exact Or.inl hold
      · exact Or.inr ⟨state, Or.inl hstate, hdefers⟩
    · exact Or.inr ⟨state, Or.inr hstate, hdefers⟩

theorem boundedPass_searchLoop (honly : OnlyBounded context)
    (hquiet : ∀ observed quote, (onQuote observed quote).2 = true) (fuel : ℕ) {depth : ℕ}
    (hfuel : context.config.maxHops ≤ fuel + depth)
    (hfrontier : ∀ state ∈ frontier, searcher.TracedState context state ∧
      state.path.length = depth ∧ depth < context.config.maxHops)
    (haccounted : searcher.Accounted context run) (hhalted : run.halted = false)
    (hstopped : run.stopped = false) :
    ∃ reached, searcher.BoundedPass context onQuote mode frontier run
      (searcher.searchLoop context onQuote mode fuel frontier run) reached := by
  induction fuel generalizing depth frontier run with
  | zero =>
      obtain rfl : frontier = [] := by
        rw [List.eq_nil_iff_forall_not_mem]
        intro state hstate
        have := (hfrontier state hstate).2.2
        omega
      exact ⟨_, boundedPass_nil haccounted hstopped⟩
  | succ fuel ih =>
      rw [searchLoop]
      split
      · rename_i hempty
        subst hempty
        exact ⟨_, boundedPass_nil haccounted hstopped⟩
      · have hstart : searcher.BoundedLevel context onQuote mode frontier
            { run with nextFrontier := [] } { run with nextFrontier := [] } :=
          ⟨⟨haccounted.quoted, haccounted.priced, haccounted.incumbent⟩, hhalted, hstopped,
            Grows.refl _, fun _ hquote => Or.inl hquote, by simp, fun hseen => Or.inl hseen⟩
        obtain ⟨hlevel, hdone⟩ := boundedLevel_foldl honly hquiet (fun state hstate =>
          ⟨(hfrontier state hstate).1, (hfrontier state hstate).2.1 ▸
            (hfrontier state hstate).2.2⟩) hstart
        simp only
        generalize List.foldl (searcher.expandState context onQuote mode)
          { run with nextFrontier := [] } frontier = next at hlevel hdone ⊢
        rw [if_neg (by simp [hlevel.halted])]
        have hnext : ∀ state ∈ searcher.nextLevel context next,
            searcher.TracedState context state ∧ state.path.length = depth + 1 ∧
              depth + 1 < context.config.maxHops := by
          intro state hstate
          obtain ⟨htraced, parent, hparent, quoted, node, _, _, _, hroom, rfl⟩ :=
            hlevel.pushed state ((mem_nextLevel_of_onlyBounded honly next).mp hstate)
          rw [(hfrontier parent hparent).2.1] at hroom
          exact ⟨htraced, by simp [nextState, (hfrontier parent hparent).2.1], hroom⟩
        obtain ⟨reached, hrest⟩ := ih (by omega) hnext hlevel.toAccounted hlevel.halted
          hlevel.stopped
        have hpass := BoundedPass.cons honly hlevel hdone hrest
        exact ⟨_, { hpass with keeps := { hpass.keeps with } }⟩

/-- A pass deals with everything that it reaches from the root. -/
theorem boundedPass_runPass (honly : OnlyBounded context) (hroom : 0 < context.config.maxHops)
    (hquiet : ∀ observed quote, (onQuote observed quote).2 = true)
    (haccounted : searcher.Accounted context run) (hstopped : run.stopped = false) :
    ∃ reached, searcher.BoundedPass context onQuote mode [context.rootState] (beginPass run)
      (searcher.runPass context onQuote run mode) reached := by
  have hroot : ∀ state ∈ [context.rootState], searcher.TracedState context state ∧
      state.path.length = 0 ∧ 0 < context.config.maxHops := by
    intro state hstate
    obtain rfl := List.mem_singleton.mp hstate
    exact ⟨rfl, rfl, hroom⟩
  exact boundedPass_searchLoop honly hquiet _ (Nat.le_succ _) hroot
    ⟨haccounted.quoted, haccounted.priced, haccounted.incumbent⟩ rfl hstopped

/-- Nothing that a tree offers is better than what a pass found, when the pass keeps all hops
of the tree at the prefixes where it defers none. -/
theorem BoundedPass.settled {other : HeuristicPassMode}
    (hresolved : context.Resolved searcher.graph)
    (hbalances : searcher.BalancesBound context.simConfig context.tokenOut)
    (hroom : 0 < context.config.maxHops)
    (hpass : searcher.BoundedPass context onQuote mode [context.rootState] start final reached)
    (hretains : ∀ state quoted,
      (searcher.DefersAt context mode state → final.deferredEdgesSeen = true) →
      searcher.Retains context other state quoted → searcher.Retains context mode state quoted) :
    (searcher.passTree context other).Settled (Found final) context.rootState := by
  have hexplored : (searcher.passTree context other).Explored (Found final) reached := by
    intro state hstate
    obtain ⟨first, hfirst, hpath⟩ := hpass.grown state hstate
    obtain rfl := List.mem_singleton.mp hfirst
    rcases hpass.visited state hstate with ⟨cap, best, hcap, hfound, hle⟩ |
      ⟨hnext, hvalues, hdeferred⟩
    · obtain ⟨_, _, _, hlength, token, htoken⟩ := @leadsTo_of_child G _ searcher context mode
        state context.rootState hresolved.indexed _ hresolved.source hroom hpath
      refine Or.inl fun amount hbelow => ⟨best, hfound, ?_⟩
      exact (le_of_targetBalanceCap hresolved hbalances htoken hlength hcap hbelow).trans hle
    · refine Or.inr ⟨?_, ?_⟩
      · rintro next ⟨quoted, node, hquoted, hnode⟩
        exact hnext next ⟨quoted, node, hretains state quoted hdeferred hquoted, hnode⟩
      · rintro amount ⟨quoted, hquoted, hnode⟩
        exact ⟨amount, hvalues amount
          ⟨quoted, hretains state quoted hdeferred hquoted, hnode⟩, le_rfl⟩
  exact hexplored.settled (hpass.begins _ (List.mem_singleton_self _))

end Pass

end AmmSearcher

end AmmSearch
