/-
Coverage of the level search.  When nothing but prefix dominance and the edge
shortlist cuts the search, every hop considered at an expanded prefix is
completed, or its prefix is covered by a label of an expanded prefix.
-/
import AmmSearch.HeuristicSoundness
import AmmSearch.PrefixDominance

open FiniteMap StableGraph

namespace AmmSearch

/-- A left fold whose steps keep an invariant, only grow the accumulator and
finish their own element, once the elements before it are finished, finishes all
elements. -/
theorem foldl_establishes_inOrder {α β : Type} {step : β → α → β} {Inv : β → Prop}
    {Le : β → β → Prop} (Done : α → β → Prop) (hrefl : ∀ b, Le b b)
    (htrans : ∀ a b c, Le a b → Le b c → Le a c)
    (hmono : ∀ x b b', Le b b' → Done x b → Done x b') {list : List α}
    (hstep : ∀ front x back, list = front ++ x :: back → ∀ b, Inv b →
      (∀ y ∈ front, Done y b) → Inv (step b x) ∧ Le b (step b x) ∧ Done x (step b x))
    {start : β} (hstart : Inv start) :
    Inv (list.foldl step start) ∧ Le start (list.foldl step start) ∧
      ∀ x ∈ list, Done x (list.foldl step start) := by
  -- the elements before `rest` are finished when the fold comes to it
  suffices hrest : ∀ rest front, list = front ++ rest → ∀ b, Inv b →
      (∀ y ∈ front, Done y b) → Inv (rest.foldl step b) ∧ Le b (rest.foldl step b) ∧
        ∀ y ∈ front ++ rest, Done y (rest.foldl step b) by
    exact hrest list [] rfl start hstart (by simp)
  intro rest
  induction rest with
  | nil =>
      intro front _ b hb hdone
      refine ⟨hb, hrefl b, ?_⟩
      rwa [List.append_nil]
  | cons head rest ih =>
      intro front hlist b hb hdone
      obtain ⟨hinv, hle, hhead⟩ := hstep front head rest hlist b hb hdone
      obtain ⟨hinv', hle', hall⟩ := ih (front ++ [head]) (by simpa using hlist) _ hinv (by
        intro y hy
        rcases List.mem_append.mp hy with hold | hnew
        · exact hmono y _ _ hle (hdone y hold)
        · obtain rfl := List.mem_singleton.mp hnew
          exact hhead)
      refine ⟨hinv', htrans _ _ _ hle hle', ?_⟩
      simpa using hall

/-- A left fold whose steps keep an invariant, only grow the accumulator and
finish their own element finishes all elements. -/
theorem foldl_establishes {α β : Type} {step : β → α → β} {Inv : β → Prop}
    {Le : β → β → Prop} (Done : α → β → Prop) (hrefl : ∀ b, Le b b)
    (htrans : ∀ a b c, Le a b → Le b c → Le a c)
    (hmono : ∀ x b b', Le b b' → Done x b → Done x b') {list : List α}
    (hstep : ∀ b, Inv b → ∀ x ∈ list,
      Inv (step b x) ∧ Le b (step b x) ∧ Done x (step b x))
    {start : β} (hstart : Inv start) :
    Inv (list.foldl step start) ∧ Le start (list.foldl step start) ∧
      ∀ x ∈ list, Done x (list.foldl step start) := by
  refine foldl_establishes_inOrder Done hrefl htrans hmono ?_ hstart
  rintro front x back rfl b hb _
  exact hstep b hb x (by simp)

/-- In a list without repetitions what stands before an element is in the front. -/
theorem mem_front_of_sublist {α : Type} {front back : List α} {left right : α}
    (hnodup : (front ++ right :: back).Nodup)
    (hpair : [left, right].Sublist (front ++ right :: back)) : left ∈ front := by
  induction front with
  | nil =>
      -- the element itself would be repeated
      rw [List.nil_append] at hpair hnodup
      have hright : right ∈ back := by
        cases hpair with
        | cons _ hrest => exact hrest.mem (by simp)
        | cons_cons _ hrest => exact hrest.mem (by simp)
      exact absurd hright (List.nodup_cons.mp hnodup).1
  | cons head front ih =>
      rw [List.cons_append] at hpair hnodup
      cases hpair with
      | cons _ hrest =>
          exact List.mem_cons_of_mem _ (ih (List.nodup_cons.mp hnodup).2 hrest)
      | cons_cons _ hrest => exact List.mem_cons_self

/-- In a list without repetitions two elements stand in one order only. -/
theorem not_sublist_swap {α : Type} {items : List α} {left right : α}
    (hnodup : items.Nodup) (hpair : [left, right].Sublist items) :
    ¬ [right, left].Sublist items := by
  induction items with
  | nil => cases hpair
  | cons head items ih =>
      obtain ⟨hhead, hitems⟩ := List.nodup_cons.mp hnodup
      intro hback
      cases hpair with
      | cons _ hrest =>
          cases hback with
          | cons _ hrest' => exact ih hitems hrest hrest'
          | cons_cons _ _ => exact hhead (hrest.mem (by simp))
      | cons_cons _ hrest =>
          cases hback with
          | cons _ hrest' => exact hhead (hrest'.mem (by simp))
          | cons_cons _ hrest' => exact hhead (hrest'.mem (by simp))

namespace AmmSearcher

variable {G : Type} [StableDiGraph G Address EdgeData] (searcher : AmmSearcher G)
  (context : HeuristicContext)

/-- Nothing but prefix dominance and the edge shortlist cuts the search. -/
structure Uncut : Prop where
  candidates : context.config.maxCandidates = none
  beam : context.heuristic.beamWidth = none
  liquidity : context.config.liquidityPruning.enabled = false
  upperBound : context.heuristic.upperBoundPruning.enabled = false
  edges : context.heuristic.edgeShortlist.enabled = false →
    searcher.graph.maxOutDegree ≤ context.heuristic.parallelEdgeLimit
  shortlist : context.heuristic.edgeShortlist.enabled = true →
    1 ≤ context.heuristic.edgeShortlist.initialEdgesPerPair ∧
      1 ≤ context.heuristic.edgeShortlist.refinementEdgesPerPair

/-- The hops of a group that survive the shortlist. -/
def consideredHops (mode : HeuristicPassMode) (group : HeuristicHopGroup) : List Hop :=
  (shortlistedRankedHops context mode (searcher.liquidityRankedHops group.hops
    context.heuristic.edgeShortlist context.config.liquidityPruning)).map
      LiquidityRankedHop.hop

/-- The pass quotes the hop when it expands the state. -/
def Considers (mode : HeuristicPassMode) (state : HeuristicState) (hop : Hop) : Prop :=
  ∃ group ∈ searcher.groupHeuristicHops context mode state,
    hop ∈ searcher.consideredHops context mode group

/-- The frontier lists `left` ahead of `right`. -/
def Ahead (left right : HeuristicState) : Prop :=
  right.amount < left.amount ∨ left.amount = right.amount ∧
    searcher.routePathSortKey left.path < searcher.routePathSortKey right.path

/-- The pass ranks one hop after the state before another one. -/
def RankedBefore (mode : HeuristicPassMode) (state : HeuristicState) (left right : Hop) :
    Prop :=
  ∃ group ∈ searcher.groupHeuristicHops context mode state,
    [left, right].Sublist (searcher.consideredHops context mode group)

/-- Expanding `parent` generates the open prefix `next` with one more hop. -/
structure Generates (mode : HeuristicPassMode) (parent : HeuristicState) (hop : Hop)
    (next : HeuristicState) : Prop where
  considers : searcher.Considers context mode parent hop
  quote : searcher.quoteHop context hop parent.amount = .ok next.amount
  token : hop.tokenOut ≠ context.tokenOut
  room : parent.path.length + 1 < context.config.maxHops
  node : ∃ node, searcher.graph.nodeIndex hop.tokenOut = some node ∧
    next = nextState parent node ⟨hop, next.amount⟩

/-- A pass comes to the hop after `parent` before the one after `origin`. -/
def Precedes (mode : HeuristicPassMode) (parent : HeuristicState) (hop : Hop)
    (origin : HeuristicState) (last : Hop) : Prop :=
  searcher.Ahead parent origin ∨
    parent = origin ∧ searcher.RankedBefore context mode origin hop last

variable {searcher context} {mode : HeuristicPassMode} {state : HeuristicState}

section Kept

theorem Considers.offered {hop : Hop} (hconsiders : searcher.Considers context mode state hop) :
    hop ∈ searcher.offeredHops context state := by
  obtain ⟨group, hgroup, hhop⟩ := hconsiders
  obtain ⟨_, hhops, _⟩ := (mem_groupHeuristicHops mode state group).mp hgroup
  have hmem := (searcher.perm_liquidityRankedHops _ _ _).mem_iff.mp
    (((shortlistedRankedHops_sublist mode _).map _).mem hhop)
  rw [hhops] at hmem
  exact (List.mem_filter.mp hmem).1

omit [StableDiGraph G Address EdgeData] in
theorem quoteRankedHop_uncut (huncut : context.config.liquidityPruning.enabled = false)
    {closesTarget : Bool} (quotes : GroupQuotes) (ranked : LiquidityRankedHop) :
    (searcher.quoteRankedHop context state closesTarget quotes ranked).quoted =
      match searcher.quoteHop context ranked.hop state.amount with
      | .ok amountOut => quotes.quoted ++ [⟨ranked.hop, amountOut⟩]
      | .error _ => quotes.quoted := by
  have hkeep : searcher.shouldPruneLiquidityHop context ranked quotes.bestQuotedOutput
      closesTarget = false := by
    simp [shouldPruneLiquidityHop, huncut]
  unfold quoteRankedHop
  rw [hkeep]
  cases searcher.quoteHop context ranked.hop state.amount <;> rfl

omit [StableDiGraph G Address EdgeData] in
/-- Without liquidity pruning every hop of the list that can be quoted is. -/
theorem foldl_quoteRankedHop_uncut
    (huncut : context.config.liquidityPruning.enabled = false) {closesTarget : Bool}
    (ranked : List LiquidityRankedHop) (quotes : GroupQuotes) :
    (ranked.foldl (searcher.quoteRankedHop context state closesTarget) quotes).quoted =
      quotes.quoted ++ (ranked.map LiquidityRankedHop.hop).filterMap fun hop =>
        match searcher.quoteHop context hop state.amount with
        | .ok amountOut => some ⟨hop, amountOut⟩
        | .error _ => none := by
  induction ranked generalizing quotes with
  | nil => simp
  | cons head rest ih =>
      rw [List.foldl_cons, ih, quoteRankedHop_uncut huncut]
      cases hquote : searcher.quoteHop context head.hop state.amount <;>
        simp [hquote]

theorem length_consideredHops_le (huncut : searcher.Uncut context)
    {group : HeuristicHopGroup}
    (hgroup : group ∈ searcher.groupHeuristicHops context mode state) :
    (searcher.consideredHops context mode group).length ≤ retainLimit context mode := by
  unfold consideredHops retainLimit shortlistedRankedHops
  rw [List.length_map]
  cases hshort : context.heuristic.edgeShortlist.enabled with
  | false =>
      rw [if_pos (Or.inl rfl), if_neg (by simp)]
      have hlength := (searcher.perm_liquidityRankedHops group.hops
        context.heuristic.edgeShortlist context.config.liquidityPruning).length_eq
      rw [List.length_map] at hlength
      obtain ⟨_, hhops, _⟩ := (mem_groupHeuristicHops mode state group).mp hgroup
      rw [hlength, hhops]
      calc _ ≤ (searcher.offeredHops context state).length := List.length_filter_le _ _
        _ ≤ (searcher.graph.outgoingEdges state.node).length :=
            List.length_filterMap_le _ _
        _ ≤ searcher.graph.maxOutDegree := searcher.graph.length_outgoingEdges_le _
        _ ≤ _ := huncut.edges hshort
  | true =>
      have hlimit : 1 ≤ mode.edgeLimit context.heuristic := by
        obtain ⟨hinitial, hrefinement⟩ := huncut.shortlist hshort
        unfold HeuristicPassMode.edgeLimit
        rw [if_pos hshort]
        cases mode
        · exact hinitial
        · exact hrefinement
      rw [if_pos rfl]
      split
      · rename_i hsmall
        rcases hsmall with hoff | hsmall
        · cases hoff
        · exact hsmall.trans hlimit
      · exact List.length_take_le _ _

/-- The kept quotes of a group are the considered hops that can be quoted. -/
theorem mem_keptQuotes_iff (huncut : searcher.Uncut context)
    {group : HeuristicHopGroup}
    (hgroup : group ∈ searcher.groupHeuristicHops context mode state)
    (quoted : QuotedHeuristicHop) :
    quoted ∈ searcher.keptQuotes context mode state group ↔
      quoted.hop ∈ searcher.consideredHops context mode group ∧
        searcher.quoteHop context quoted.hop state.amount = .ok quoted.amountOut := by
  unfold keptQuotes retainQuoted
  rw [foldl_quoteRankedHop_uncut huncut.liquidity]
  rw [List.take_of_length_le, (List.perm_insertionSort _ _).mem_iff]
  · simp only [List.nil_append, List.mem_filterMap]
    constructor
    · rintro ⟨hop, hhop, hquoted⟩
      split at hquoted
      · rename_i amountOut hquote
        obtain rfl := Option.some.inj hquoted
        exact ⟨hhop, hquote⟩
      · cases hquoted
    · rintro ⟨hhop, hquote⟩
      refine ⟨quoted.hop, hhop, ?_⟩
      rw [hquote]
  · rw [(List.perm_insertionSort _ _).length_eq, List.nil_append]
    exact (List.length_filterMap_le _ _).trans (length_consideredHops_le huncut hgroup)

/-- A considered hop leads to the token of its group. -/
theorem considers_nextToken {group : HeuristicHopGroup}
    (hgroup : group ∈ searcher.groupHeuristicHops context mode state) {hop : Hop}
    (hhop : hop ∈ searcher.consideredHops context mode group) :
    hop.tokenOut = group.nextToken := by
  obtain ⟨_, hhops, _⟩ := (mem_groupHeuristicHops mode state group).mp hgroup
  have hmem := (searcher.perm_liquidityRankedHops _ _ _).mem_iff.mp
    (((shortlistedRankedHops_sublist mode _).map _).mem hhop)
  rw [hhops, List.mem_filter, decide_eq_true_iff] at hmem
  exact hmem.2

/-- A state has one group for a token. -/
theorem group_eq_of_nextToken {left right : HeuristicHopGroup}
    (hleft : left ∈ searcher.groupHeuristicHops context mode state)
    (hright : right ∈ searcher.groupHeuristicHops context mode state)
    (hsame : left.nextToken = right.nextToken) : left = right := by
  obtain ⟨_, hhops, hcloses⟩ := (mem_groupHeuristicHops mode state left).mp hleft
  obtain ⟨_, hhops', hcloses'⟩ := (mem_groupHeuristicHops mode state right).mp hright
  obtain ⟨nextToken, hops, closesTarget⟩ := left
  obtain ⟨nextToken', hops', closesTarget'⟩ := right
  simp only at hsame hhops hcloses hhops' hcloses'
  subst hsame
  rw [hhops, hhops', hcloses, hcloses']

/-- The considered hops of a group are distinct. -/
theorem nodup_consideredHops (hresolved : context.Resolved searcher.graph)
    {group : HeuristicHopGroup}
    (hgroup : group ∈ searcher.groupHeuristicHops context mode state) :
    (searcher.consideredHops context mode group).Nodup := by
  obtain ⟨_, hhops, _⟩ := (mem_groupHeuristicHops mode state group).mp hgroup
  refine List.Nodup.sublist ((shortlistedRankedHops_sublist mode _).map _) ?_
  rw [(searcher.perm_liquidityRankedHops _ _ _).nodup_iff, hhops]
  exact (nodup_offeredHops hresolved.indexed state).filter _

/-- Kept hops of equal output stand in the order of their ranks. -/
theorem mem_front_of_rankedBefore (hresolved : context.Resolved searcher.graph)
    (huncut : searcher.Uncut context) {group : HeuristicHopGroup}
    (hgroup : group ∈ searcher.groupHeuristicHops context mode state)
    {front back : List QuotedHeuristicHop} {quoted : QuotedHeuristicHop}
    (hkept : searcher.keptQuotes context mode state group = front ++ quoted :: back)
    {hop : Hop} (hbefore : searcher.RankedBefore context mode state hop quoted.hop)
    (htoken : hop.tokenOut = quoted.hop.tokenOut)
    (hquote : searcher.quoteHop context hop state.amount = .ok quoted.amountOut) :
    (⟨hop, quoted.amountOut⟩ : QuotedHeuristicHop) ∈ front := by
  obtain ⟨other, hother, hranked⟩ := hbefore
  have hmem : quoted ∈ searcher.keptQuotes context mode state group := by
    rw [hkept]
    simp
  -- both hops lead to the token of one group
  obtain rfl : other = group := by
    refine group_eq_of_nextToken hother hgroup ?_
    rw [← considers_nextToken hother (hranked.mem (List.mem_cons_self : hop ∈ _)), htoken,
      (offered_of_mem_keptQuotes hgroup hmem).2.1]
  have hquoted := ((mem_keptQuotes_iff huncut hgroup quoted).mp hmem).2
  have hnodup := nodup_consideredHops hresolved hgroup
  have hlength := length_consideredHops_le huncut hgroup
  have hwhole : searcher.keptQuotes context mode state other =
      ((searcher.consideredHops context mode other).filterMap fun hop =>
        match searcher.quoteHop context hop state.amount with
        | .ok amountOut => some (⟨hop, amountOut⟩ : QuotedHeuristicHop)
        | .error _ => none).insertionSort fun left right =>
          right.amountOut ≤ left.amountOut := by
    unfold keptQuotes retainQuoted
    rw [foldl_quoteRankedHop_uncut huncut.liquidity, List.nil_append]
    apply List.take_of_length_le
    rw [(List.perm_insertionSort _ _).length_eq]
    exact (List.length_filterMap_le _ _).trans hlength
  have hquotes : [(⟨hop, quoted.amountOut⟩ : QuotedHeuristicHop), quoted].Sublist
      ((searcher.consideredHops context mode other).filterMap fun hop =>
        match searcher.quoteHop context hop state.amount with
        | .ok amountOut => some (⟨hop, amountOut⟩ : QuotedHeuristicHop)
        | .error _ => none) := by
    simpa [hquote, hquoted] using hranked.filterMap fun hop =>
      match searcher.quoteHop context hop state.amount with
      | .ok amountOut => some (⟨hop, amountOut⟩ : QuotedHeuristicHop)
      | .error _ => none
  have hpair := @List.pair_sublist_insertionSort _
    (fun left right : QuotedHeuristicHop => right.amountOut ≤ left.amountOut) _
    ⟨hop, quoted.amountOut⟩ quoted _ (le_refl quoted.amountOut) hquotes
  rw [← hwhole, hkept] at hpair
  refine mem_front_of_sublist ?_ hpair
  rw [← hkept, hwhole, (List.perm_insertionSort _ _).nodup_iff]
  refine hnodup.filterMap ?_
  intro left right kept hleft hright
  split at hleft
  · split at hright
    · have hsame := (Option.mem_some_iff.mp hleft).trans (Option.mem_some_iff.mp hright).symm
      exact congrArg QuotedHeuristicHop.hop hsame
    · cases hright
  · cases hleft

end Kept

omit [StableDiGraph G Address EdgeData] in
theorem not_ahead_self (state : HeuristicState) : ¬ searcher.Ahead state state := by
  rintro (hless | ⟨_, hless⟩)
  · exact lt_irrefl _ hless
  · exact lt_irrefl _ hless

section Level

variable {σ : Type} {onQuote : σ → RouteQuote → σ × Bool}

/-- What a run has achieved is kept. -/
structure Keeps (onQuote : σ → RouteQuote → σ × Bool) (run run' : HeuristicRun σ) :
    Prop where
  evaluated : run.evaluatedPaths ⊆ run'.evaluatedPaths
  covers : ∀ token label, run.prefixDominance.Covers token label →
    run'.prefixDominance.Covers token label
  reported : ∃ more, run'.quotes = run.quotes ++ more ∧
    run'.observed = reportAll onQuote run.observed more
  deferred : run.deferredEdgesSeen = true → run'.deferredEdgesSeen = true

theorem Keeps.refl (run : HeuristicRun σ) : Keeps onQuote run run :=
  ⟨Finset.Subset.refl _, fun _ _ h => h, ⟨[], by simp, rfl⟩, fun h => h⟩

theorem Keeps.trans {first second third : HeuristicRun σ}
    (hleft : Keeps onQuote first second) (hright : Keeps onQuote second third) :
    Keeps onQuote first third where
  evaluated := hleft.evaluated.trans hright.evaluated
  covers := fun token label h => hright.covers token label (hleft.covers token label h)
  reported := by
    obtain ⟨more, hquotes, hobserved⟩ := hleft.reported
    obtain ⟨more', hquotes', hobserved'⟩ := hright.reported
    refine ⟨more ++ more', ?_, ?_⟩
    · rw [hquotes', hquotes, List.append_assoc]
    · rw [hobserved', hobserved, reportAll_append]
  deferred := fun h => hright.deferred (hleft.deferred h)

/-- What was reported stays what was found. -/
theorem Keeps.observed_eq {run run' : HeuristicRun σ} (hkeeps : Keeps onQuote run run')
    {start : σ} (hrun : run.observed = reportAll onQuote start run.quotes) :
    run'.observed = reportAll onQuote start run'.quotes := by
  obtain ⟨more, hquotes, hobserved⟩ := hkeeps.reported
  rw [hobserved, hrun, hquotes, reportAll_append]

theorem Keeps.mem_quotes {run run' : HeuristicRun σ} (hkeeps : Keeps onQuote run run')
    {quote : RouteQuote} (hquote : quote ∈ run.quotes) : quote ∈ run'.quotes := by
  obtain ⟨more, hquotes, _⟩ := hkeeps.reported
  rw [hquotes]
  exact List.mem_append_left more hquote

/-- Within a level the next frontier is kept as well. -/
structure Grows (onQuote : σ → RouteQuote → σ × Bool) (run run' : HeuristicRun σ) : Prop
    extends Keeps onQuote run run' where
  frontier : ∀ state ∈ run.nextFrontier, state ∈ run'.nextFrontier

theorem Grows.refl (run : HeuristicRun σ) : Grows onQuote run run :=
  ⟨Keeps.refl run, fun _ h => h⟩

theorem Grows.trans (first second third : HeuristicRun σ)
    (hleft : Grows onQuote first second) (hright : Grows onQuote second third) :
    Grows onQuote first third :=
  ⟨hleft.toKeeps.trans hright.toKeeps,
    fun state h => hright.frontier state (hleft.frontier state h)⟩

/-- A prefix that a level has pushed. -/
structure Pushed (searcher : AmmSearcher G) (context : HeuristicContext)
    (mode : HeuristicPassMode) (frontier : List HeuristicState)
    (before after : PrefixDominanceIndex) (state : HeuristicState) : Prop where
  sound : searcher.Sound context state
  parent : ∃ parent ∈ frontier, ∃ hop, state.path = parent.path ++ [hop] ∧
    searcher.Considers context mode parent hop
  depth : state.path.length < context.config.maxHops
  covered : context.heuristic.prefixDominance = true →
    after.Covers (endToken context.tokenIn state.path) (searcher.label context state)
  fresh : context.heuristic.prefixDominance = true →
    ¬ before.Covers (endToken context.tokenIn state.path) (searcher.label context state)
  first : context.heuristic.prefixDominance = true →
    ∀ parent ∈ frontier, ∀ hop next, searcher.Generates context mode parent hop next →
    searcher.label context next = searcher.label context state →
    hop.tokenOut = endToken context.tokenIn state.path →
    ∀ origin ∈ frontier, ∀ last, state.path = origin.path ++ [last] →
      ¬ searcher.Precedes context mode parent hop origin last

/-- What holds while a level is expanded from the run `start`. -/
structure LevelInv (searcher : AmmSearcher G) (context : HeuristicContext)
    (onQuote : σ → RouteQuote → σ × Bool) (mode : HeuristicPassMode)
    (frontier : List HeuristicState)
    (start run : HeuristicRun σ) : Prop where
  halted : run.halted = false
  stopped : run.stopped = false
  index : run.prefixDominance.WellFormed
  grows : Grows onQuote start run
  labels : ∀ token, ∀ label ∈ run.prefixDominance.labelsAt token,
    label ∈ start.prefixDominance.labelsAt token ∨
      ∃ state ∈ run.nextFrontier, endToken context.tokenIn state.path = token ∧
        searcher.label context state = label
  pushed : ∀ state ∈ run.nextFrontier, searcher.Pushed context mode frontier
    start.prefixDominance run.prefixDominance state
  quoted : ∀ path ∈ run.evaluatedPaths, ∀ result,
    searcher.trace context path = .ok result → ∃ quote ∈ run.quotes, quote.path = path
  origin : ∀ quote ∈ run.quotes, quote ∈ start.quotes ∨
    ∃ state ∈ frontier, ∃ hop, quote.path = state.path ++ [hop] ∧
      searcher.Considers context mode state hop

/-- The quoted hop of an expanded prefix has been dealt with. -/
structure Finished (searcher : AmmSearcher G) (context : HeuristicContext)
    (state : HeuristicState) (quoted : QuotedHeuristicHop) (run : HeuristicRun σ) :
    Prop where
  closing : quoted.hop.tokenOut = context.tokenOut →
    context.config.minHops ≤ state.path.length + 1 →
    state.path ++ [quoted.hop] ∈ run.evaluatedPaths
  covered : quoted.hop.tokenOut ≠ context.tokenOut →
    state.path.length + 1 < context.config.maxHops →
    context.heuristic.prefixDominance = true →
    ∀ node, searcher.graph.nodeIndex quoted.hop.tokenOut = some node →
      run.prefixDominance.Covers quoted.hop.tokenOut
        (searcher.label context (nextState state node quoted))
  pushed : quoted.hop.tokenOut ≠ context.tokenOut →
    state.path.length + 1 < context.config.maxHops →
    context.heuristic.prefixDominance = false →
    ∀ node, searcher.graph.nodeIndex quoted.hop.tokenOut = some node →
      nextState state node quoted ∈ run.nextFrontier

/-- A finished prefix is covered by a label. -/
theorem Finished.covers {parent next : HeuristicState} {hop : Hop} {run : HeuristicRun σ}
    (hdom : context.heuristic.prefixDominance = true)
    (hgenerates : searcher.Generates context mode parent hop next)
    (hdone : searcher.Finished context parent ⟨hop, next.amount⟩ run) :
    run.prefixDominance.Covers hop.tokenOut (searcher.label context next) := by
  obtain ⟨node, hnode, hnext⟩ := hgenerates.node
  rw [hnext]
  exact hdone.covered hgenerates.token hgenerates.room hdom node hnode

omit [StableDiGraph G Address EdgeData] in
theorem Finished.mono {quoted : QuotedHeuristicHop} {run run' : HeuristicRun σ}
    (hgrows : Grows onQuote run run') (hdone : searcher.Finished context state quoted run) :
    searcher.Finished context state quoted run' where
  closing := fun hout hmin => hgrows.evaluated (hdone.closing hout hmin)
  covered := fun hout hmax hdom node hnode =>
    hgrows.covers _ _ (hdone.covered hout hmax hdom node hnode)
  pushed := fun hout hmax hdom node hnode =>
    hgrows.frontier _ (hdone.pushed hout hmax hdom node hnode)

theorem card_visitedTokens (hstate : searcher.Sound context state) :
    state.visitedTokens.card = state.path.length + 1 := by
  rw [hstate.visited, visitedOf, List.toFinset_card_of_nodup hstate.isOpen.tokens,
    List.length_cons, List.length_map]

/-- A generated prefix is sound. -/
theorem Generates.sound (hresolved : context.Resolved searcher.graph)
    {parent next : HeuristicState} {hop : Hop} (hparent : searcher.Sound context parent)
    (hgenerates : searcher.Generates context mode parent hop next) :
    searcher.Sound context next := by
  obtain ⟨node, hnode, hnext⟩ := hgenerates.node
  rcases (mem_offeredHops hresolved hparent hop).mp hgenerates.considers.offered with
    hcloses | ⟨hextends, _⟩
  · exact absurd hcloses.2.1 hgenerates.token
  · rw [hnext]
    exact hparent.nextState hextends hgenerates.quote hnode

/-- Prefixes with one label have one length. -/
theorem Generates.length_eq (hresolved : context.Resolved searcher.graph)
    {parent next : HeuristicState} {hop : Hop} (hparent : searcher.Sound context parent)
    (hgenerates : searcher.Generates context mode parent hop next)
    (hstate : searcher.Sound context state)
    (hsame : searcher.label context next = searcher.label context state) :
    parent.path.length + 1 = state.path.length := by
  have hnext := hgenerates.sound hresolved hparent
  obtain ⟨node, _, heq⟩ := hgenerates.node
  have hvisited : next.visitedTokens = state.visitedTokens :=
    congrArg PrefixLabel.visitedTokens hsame
  have hcard := congrArg Finset.card hvisited
  rw [card_visitedTokens hnext, card_visitedTokens hstate] at hcard
  have hlength : next.path.length = parent.path.length + 1 := by
    rw [heq]
    simp [nextState]
  omega

theorem grows_completePath (run : HeuristicRun σ) (quote : RouteQuote) :
    Grows onQuote run (completePath context onQuote run quote) := by
  unfold completePath
  split
  · exact Grows.refl run
  · exact ⟨⟨Finset.subset_insert _ _, fun _ _ h => h, ⟨[quote], rfl, rfl⟩, fun h => h⟩,
      fun _ h => h⟩

omit [StableDiGraph G Address EdgeData] in
theorem grows_pushPrefix (run : HeuristicRun σ) (token : Address)
    (next : HeuristicState) :
    Grows onQuote run (searcher.pushPrefix context run token next) := by
  unfold pushPrefix
  split
  · simp only
    split
    · exact ⟨⟨Finset.Subset.refl _,
        fun _ _ => PrefixDominanceIndex.covers_insertOrDominated, ⟨[], by simp, rfl⟩,
        fun h => h⟩, fun _ h => h⟩
    · exact ⟨⟨Finset.Subset.refl _,
        fun _ _ => PrefixDominanceIndex.covers_insertOrDominated, ⟨[], by simp, rfl⟩,
        fun h => h⟩, fun _ h => List.mem_append_left _ h⟩
  · exact ⟨⟨Finset.Subset.refl _, fun _ _ h => h, ⟨[], by simp, rfl⟩, fun h => h⟩,
      fun _ h => List.mem_append_left _ h⟩

variable {frontier : List HeuristicState} {start run : HeuristicRun σ}

theorem LevelInv.completePath (huncut : searcher.Uncut context)
    (hquiet : ∀ observed quote, (onQuote observed quote).2 = true)
    (hinv : searcher.LevelInv context onQuote mode frontier start run) {quote : RouteQuote}
    (horigin : ∃ state ∈ frontier, ∃ hop, quote.path = state.path ++ [hop] ∧
      searcher.Considers context mode state hop) :
    searcher.LevelInv context onQuote mode frontier start
      (AmmSearcher.completePath context onQuote run quote) := by
  have hgrows := @grows_completePath context σ onQuote run quote
  unfold AmmSearcher.completePath at hgrows ⊢
  split at hgrows
  · rename_i hseen
    rwa [if_pos hseen]
  · rename_i hnew
    rw [if_neg hnew]
    constructor
    · simp [hquiet, maxCandidatesReached, huncut.candidates]
    · simp [hquiet]
    · exact hinv.index
    · exact hinv.grows.trans _ _ _ hgrows
    · exact hinv.labels
    · exact hinv.pushed
    · intro path hpath result htrace
      rcases Finset.mem_insert.mp hpath with rfl | hold
      · exact ⟨quote, List.mem_append_right _ (List.mem_singleton_self quote), rfl⟩
      · obtain ⟨other, hother, hpath⟩ := hinv.quoted path hold result htrace
        exact ⟨other, List.mem_append_left _ hother, hpath⟩
    · intro other hother
      rcases List.mem_append.mp hother with hold | hnew
      · exact hinv.origin other hold
      · obtain rfl := List.mem_singleton.mp hnew
        exact Or.inr horigin

theorem Pushed.mono {before after after' : PrefixDominanceIndex}
    (hcovers : ∀ token label, after.Covers token label → after'.Covers token label)
    (hpushed : searcher.Pushed context mode frontier before after state) :
    searcher.Pushed context mode frontier before after' state :=
  { hpushed with covered := fun hdom => hcovers _ _ (hpushed.covered hdom) }

theorem LevelInv.pushPrefix
    (hinv : searcher.LevelInv context onQuote mode frontier start run)
    {next : HeuristicState} (hsound : searcher.Sound context next)
    (hparent : ∃ parent ∈ frontier, ∃ hop, next.path = parent.path ++ [hop] ∧
      searcher.Considers context mode parent hop)
    (hdepth : next.path.length < context.config.maxHops)
    (hearlier : context.heuristic.prefixDominance = true →
      ∀ parent ∈ frontier, ∀ hop other, searcher.Generates context mode parent hop other →
      searcher.label context other = searcher.label context next →
      hop.tokenOut = endToken context.tokenIn next.path →
      ∀ origin ∈ frontier, ∀ last, next.path = origin.path ++ [last] →
      searcher.Precedes context mode parent hop origin last →
        run.prefixDominance.Covers hop.tokenOut (searcher.label context other)) :
    searcher.LevelInv context onQuote mode frontier start
      (searcher.pushPrefix context run (endToken context.tokenIn next.path) next) := by
  have hgrows := @grows_pushPrefix G searcher context σ onQuote run
    (endToken context.tokenIn next.path) next
  have hcard : 2 ≤ (searcher.label context next).visitedTokens.card := by
    obtain ⟨parent, _, hop, hpath, _⟩ := hparent
    have hlength := congrArg List.length hpath
    rw [List.length_append, List.length_singleton] at hlength
    change 2 ≤ next.visitedTokens.card
    rw [card_visitedTokens hsound]
    omega
  have hold : ∀ other ∈ run.nextFrontier, ∀ after,
      (∀ token label, run.prefixDominance.Covers token label →
        after.Covers token label) →
      searcher.Pushed context mode frontier start.prefixDominance after other :=
    fun other hother after hcovers => (hinv.pushed other hother).mono hcovers
  unfold AmmSearcher.pushPrefix at hgrows ⊢
  split at hgrows
  · rename_i hdom
    rw [if_pos hdom]
    simp only at hgrows ⊢
    split at hgrows
    · rename_i hdominated
      rw [if_pos hdominated]
      have hsame : (run.prefixDominance.insertOrDominated
          (endToken context.tokenIn next.path) (searcher.label context next)).2 =
            run.prefixDominance := by
        rcases run.prefixDominance.insertOrDominated_spec
          (endToken context.tokenIn next.path) (searcher.label context next) with
          ⟨_, heq⟩ | ⟨_, hflag, _⟩
        · rw [heq]
        · rw [hflag] at hdominated
          cases hdominated
      rw [hsame]
      exact { hinv with }
    · rename_i hfresh
      rw [if_neg hfresh]
      have hnew : ¬ run.prefixDominance.Covers (endToken context.tokenIn next.path)
          (searcher.label context next) := by
        rcases run.prefixDominance.insertOrDominated_spec
          (endToken context.tokenIn next.path) (searcher.label context next) with
          ⟨_, heq⟩ | ⟨hnew, _, _⟩
        · rw [heq] at hfresh
          exact absurd rfl hfresh
        · exact hnew
      constructor
      · exact hinv.halted
      · exact hinv.stopped
      · exact hinv.index.insertOrDominated hcard
      · exact hinv.grows.trans _ _ _ hgrows
      · intro token label hlabel
        rcases PrefixDominanceIndex.mem_labelsAt_insertOrDominated hlabel with
          hlabel | ⟨rfl, rfl, _⟩
        · rcases hinv.labels token label hlabel with hlabel | ⟨other, hother, heq⟩
          · exact Or.inl hlabel
          · exact Or.inr ⟨other, List.mem_append_left _ hother, heq⟩
        · exact Or.inr ⟨next, List.mem_append_right _ (List.mem_singleton_self next),
            rfl, rfl⟩
      · intro other hother
        rcases List.mem_append.mp hother with hother | hother
        · exact hold other hother _ hgrows.covers
        · obtain rfl := List.mem_singleton.mp hother
          refine ⟨hsound, hparent, hdepth,
            fun _ => PrefixDominanceIndex.covers_self_insertOrDominated,
            fun _ hcovers => hnew (hinv.grows.covers _ _ hcovers), ?_⟩
          -- a prefix with the same label that came earlier would have covered this one
          intro _ parent hparent hop earlier hgenerates hsame htoken origin horigin last
            hpath hprecedes
          have hcovers := hearlier hdom parent hparent hop earlier hgenerates hsame htoken
            origin horigin last hpath hprecedes
          rw [hsame, htoken] at hcovers
          exact hnew hcovers
      · exact hinv.quoted
      · exact hinv.origin
  · rename_i hdom
    rw [if_neg hdom]
    constructor
    · exact hinv.halted
    · exact hinv.stopped
    · exact hinv.index
    · exact hinv.grows.trans _ _ _ hgrows
    · intro token label hlabel
      rcases hinv.labels token label hlabel with hlabel | ⟨other, hother, heq⟩
      · exact Or.inl hlabel
      · exact Or.inr ⟨other, List.mem_append_left _ hother, heq⟩
    · intro other hother
      rcases List.mem_append.mp hother with hother | hother
      · exact hold other hother _ fun _ _ h => h
      · obtain rfl := List.mem_singleton.mp hother
        exact ⟨hsound, hparent, hdepth, fun h => absurd h hdom, fun h => absurd h hdom,
          fun h => absurd h hdom⟩
    · exact hinv.quoted
    · exact hinv.origin

/-- The initial pass leaves hops of the group to the refinement pass. -/
def Defers (context : HeuristicContext) (mode : HeuristicPassMode)
    (group : HeuristicHopGroup) : Prop :=
  mode = .initial ∧ .refinement ∈ heuristicPassModes context.heuristic ∧
    context.heuristic.edgeShortlist.enabled = true ∧
    mode.edgeLimit context.heuristic < group.hops.length

/-- The state has been expanded in full. -/
structure Expanded (searcher : AmmSearcher G) (context : HeuristicContext)
    (mode : HeuristicPassMode) (state : HeuristicState) (run : HeuristicRun σ) :
    Prop where
  finished : ∀ hop amountOut, searcher.Considers context mode state hop →
    searcher.quoteHop context hop state.amount = .ok amountOut →
    searcher.Finished context state ⟨hop, amountOut⟩ run
  deferred : ∀ group ∈ searcher.groupHeuristicHops context mode state,
    Defers context mode group → run.deferredEdgesSeen = true

theorem Expanded.mono {run run' : HeuristicRun σ} (hgrows : Grows onQuote run run')
    (hdone : searcher.Expanded context mode state run) :
    searcher.Expanded context mode state run' where
  finished := fun hop amountOut hconsiders hquote =>
    (hdone.finished hop amountOut hconsiders hquote).mono hgrows
  deferred := fun group hgroup hdefers =>
    hgrows.deferred (hdone.deferred group hgroup hdefers)

section Steps

variable (hresolved : context.Resolved searcher.graph)
  (huncut : searcher.Uncut context)
  (hquiet : ∀ observed quote, (onQuote observed quote).2 = true)
  (hinv : searcher.LevelInv context onQuote mode frontier start run)
  (hmem : state ∈ frontier) (hstate : searcher.Sound context state)

include hresolved huncut hquiet hinv hmem hstate

/-- A considered hop that can be quoted is completed or pushed. -/
theorem LevelInv.expandQuoted (hfrontier : ∀ other ∈ frontier, searcher.Sound context other)
    (hahead : ∀ parent ∈ frontier, searcher.Ahead parent state →
      searcher.Expanded context mode parent run)
    {quoted : QuotedHeuristicHop}
    (hranked : ∀ hop, searcher.RankedBefore context mode state hop quoted.hop →
      hop.tokenOut = quoted.hop.tokenOut →
      searcher.quoteHop context hop state.amount = .ok quoted.amountOut →
      searcher.Finished context state ⟨hop, quoted.amountOut⟩ run)
    (hconsiders : searcher.Considers context mode state quoted.hop)
    (hquote : searcher.quoteHop context quoted.hop state.amount = .ok quoted.amountOut) :
    searcher.LevelInv context onQuote mode frontier start
        (searcher.expandQuoted context onQuote state run quoted) ∧
      Grows onQuote run (searcher.expandQuoted context onQuote state run quoted) ∧
      searcher.Finished context state quoted
        (searcher.expandQuoted context onQuote state run quoted) := by
  have hoffers := (mem_offeredHops hresolved hstate quoted.hop).mp hconsiders.offered
  have hhop : searcher.graph.IsHop quoted.hop := by
    rcases hoffers with hcloses | ⟨hextends, _⟩
    · exact hcloses.1.edge
    · exact hextends.1.edge
  obtain ⟨node, hnode⟩ : ∃ node, searcher.graph.nodeIndex quoted.hop.tokenOut =
      some node := by
    obtain ⟨e, record, _, _, _, hout⟩ := hhop
    exact ⟨_, (hresolved.indexed.linked.node_iff _ _).mpr hout⟩
  have htarget : node = context.target ↔ quoted.hop.tokenOut = context.tokenOut := by
    constructor
    · rintro rfl
      exact AmmGraph.nodeIndex_inj hresolved.indexed hnode hresolved.target
    · intro heq
      rw [heq] at hnode
      exact Option.some.inj (hnode.symm.trans hresolved.target)
  have hlength : (nextState state node quoted).path.length = state.path.length + 1 := by
    simp [nextState]
  unfold AmmSearcher.expandQuoted
  rw [hinv.halted, if_neg Bool.false_ne_true, hnode]
  simp only
  split
  · rename_i hclosing
    have hout := htarget.mp hclosing
    split
    · refine ⟨hinv.completePath huncut hquiet
        ⟨state, hmem, quoted.hop, rfl, hconsiders⟩, grows_completePath _ _, ?_⟩
      constructor
      · intro _ _
        unfold AmmSearcher.completePath
        split
        · rename_i hseen
          exact hseen
        · exact Finset.mem_insert_self _ _
      · intro hne
        exact absurd hout hne
      · intro hne
        exact absurd hout hne
    · rename_i hshort
      refine ⟨hinv, Grows.refl _, ?_⟩
      constructor
      · intro _ hmin
        exact absurd (hlength ▸ hmin) hshort
      · intro hne
        exact absurd hout hne
      · intro hne
        exact absurd hout hne
  · rename_i hopen
    have hne : quoted.hop.tokenOut ≠ context.tokenOut := mt htarget.mpr hopen
    have hextends : context.Extends searcher.graph state.path quoted.hop := by
      rcases hoffers with hcloses | ⟨hextends, _⟩
      · exact absurd hcloses.2.1 hne
      · exact hextends
    have hnext := hstate.nextState hextends hquote hnode
    have hend : endToken context.tokenIn (nextState state node quoted).path =
        quoted.hop.tokenOut := by
      simp [nextState]
    split
    · rename_i hroom
      refine ⟨?_, grows_pushPrefix _ _ _, ?_⟩
      · rw [← hend]
        refine hinv.pushPrefix hnext ⟨state, hmem, quoted.hop, rfl, hconsiders⟩ hroom ?_
        intro hdom parent hparent hop other hgenerates hsame htoken origin horigin last hpath
          hprecedes
        obtain ⟨hpath, hlast⟩ := List.append_inj' hpath rfl
        obtain rfl := hstate.eq_of_path_eq (hfrontier origin horigin) hpath
        obtain rfl := List.singleton_inj.mp hlast
        rcases hprecedes with hbefore | ⟨rfl, hbefore⟩
        · exact ((hahead parent hparent hbefore).finished hop other.amount
            hgenerates.considers hgenerates.quote).covers hdom hgenerates
        · -- equal labels have equal amounts
          have hamount : other.amount = quoted.amountOut := congrArg PrefixLabel.amount hsame
          rw [hend] at htoken
          refine Finished.covers hdom hgenerates ?_
          rw [hamount]
          exact hranked hop hbefore htoken (hamount ▸ hgenerates.quote)
      · constructor
        · intro hout
          exact absurd hout hne
        · intro _ _ hdom other hother
          obtain rfl := Option.some.inj (hnode.symm.trans hother)
          unfold AmmSearcher.pushPrefix
          rw [if_pos hdom]
          simp only
          split
          · exact PrefixDominanceIndex.covers_self_insertOrDominated
          · exact PrefixDominanceIndex.covers_self_insertOrDominated
        · intro _ _ hdom other hother
          obtain rfl := Option.some.inj (hnode.symm.trans hother)
          unfold AmmSearcher.pushPrefix
          rw [if_neg (by simp [hdom])]
          exact List.mem_append_right _ (List.mem_singleton_self _)
    · rename_i hfull
      refine ⟨hinv, Grows.refl _, ?_⟩
      constructor
      · intro hout
        exact absurd hout hne
      · intro _ hroom
        exact absurd (hlength ▸ hroom) hfull
      · intro _ hroom
        exact absurd (hlength ▸ hroom) hfull

/-- All considered hops of a group are dealt with. -/
theorem LevelInv.expandGroup (hfrontier : ∀ other ∈ frontier, searcher.Sound context other)
    (hahead : ∀ parent ∈ frontier, searcher.Ahead parent state →
      searcher.Expanded context mode parent run)
    {group : HeuristicHopGroup}
    (hgroup : group ∈ searcher.groupHeuristicHops context mode state) :
    searcher.LevelInv context onQuote mode frontier start
        (searcher.expandGroup context onQuote mode state run group) ∧
      Grows onQuote run (searcher.expandGroup context onQuote mode state run group) ∧
      (∀ quoted ∈ searcher.keptQuotes context mode state group,
        searcher.Finished context state quoted
          (searcher.expandGroup context onQuote mode state run group)) ∧
      (Defers context mode group →
        (searcher.expandGroup context onQuote mode state run group).deferredEdgesSeen =
          true) := by
  have hlength : (searcher.liquidityRankedHops group.hops
      context.heuristic.edgeShortlist context.config.liquidityPruning).length =
        group.hops.length := by
    rw [← (searcher.perm_liquidityRankedHops group.hops _ _).length_eq, List.length_map]
  unfold AmmSearcher.expandGroup
  rw [if_neg (by simp [hinv.halted])]
  simp only [hlength]
  generalize hfailures : run.failures ++ _ = failures
  generalize hdeferred : (run.deferredEdgesSeen || decide (mode = .initial ∧
    .refinement ∈ heuristicPassModes context.heuristic ∧
    context.heuristic.edgeShortlist.enabled = true ∧
    mode.edgeLimit context.heuristic < group.hops.length)) = deferred
  have hgrows : Grows onQuote run
      { run with failures := failures, deferredEdgesSeen := deferred } := by
    refine ⟨⟨Finset.Subset.refl _, fun _ _ h => h, ⟨[], by simp, rfl⟩, ?_⟩,
      fun _ h => h⟩
    intro hseen
    simp [← hdeferred, hseen]
  have hstart : searcher.LevelInv context onQuote mode frontier start
      { run with failures := failures, deferredEdgesSeen := deferred } :=
    { hinv with grows := hinv.grows.trans _ _ _ hgrows }
  have hstep : ∀ front quoted back,
      searcher.keptQuotes context mode state group = front ++ quoted :: back →
      ∀ next, searcher.LevelInv context onQuote mode frontier start next ∧
        Grows onQuote run next →
      (∀ earlier ∈ front, searcher.Finished context state earlier next) →
      (searcher.LevelInv context onQuote mode frontier start
          (searcher.expandQuoted context onQuote state next quoted) ∧
        Grows onQuote run (searcher.expandQuoted context onQuote state next quoted)) ∧
      Grows onQuote next (searcher.expandQuoted context onQuote state next quoted) ∧
      searcher.Finished context state quoted
        (searcher.expandQuoted context onQuote state next quoted) := by
    rintro front quoted back hkept next ⟨hinv, hgrown⟩ hfront
    have hquoted : quoted ∈ searcher.keptQuotes context mode state group := by
      rw [hkept]
      simp
    obtain ⟨hhop, hquote⟩ := (mem_keptQuotes_iff huncut hgroup quoted).mp hquoted
    obtain ⟨hnext, hgrows, hdone⟩ := hinv.expandQuoted hresolved huncut hquiet hmem hstate
      hfrontier (fun parent hparent hbefore => (hahead parent hparent hbefore).mono hgrown)
      (fun hop hbefore htoken hsame => hfront _
        (mem_front_of_rankedBefore hresolved huncut hgroup hkept hbefore htoken hsame))
      ⟨group, hgroup, hhop⟩ hquote
    exact ⟨⟨hnext, hgrown.trans _ _ _ hgrows⟩, hgrows, hdone⟩
  obtain ⟨⟨hlast, _⟩, hmore, hdone⟩ := foldl_establishes_inOrder
    (searcher.Finished context state) Grows.refl Grows.trans
    (fun _ _ _ hgrows hdone => hdone.mono hgrows) hstep ⟨hstart, hgrows⟩
  refine ⟨hlast, hgrows.trans _ _ _ hmore, hdone, ?_⟩
  intro hdefers
  apply hmore.deferred
  unfold Defers at hdefers
  rw [← hdeferred, decide_eq_true hdefers, Bool.or_true]

omit hquiet hmem in
/-- The labels that a level adds belong to longer prefixes, so they do not
dominate the states of its frontier. -/
theorem LevelInv.skipsState_eq_false
    (hdepths : ∀ other ∈ frontier, other.path.length = state.path.length)
    (hroom : state.path.length < context.config.maxHops)
    (hfree : context.heuristic.prefixDominance = true →
      start.prefixDominance.isStrictlyDominated
        (endToken context.tokenIn state.path) (searcher.label context state) = false) :
    searcher.skipsState context run state = false := by
  have hbound : searcher.shouldPruneUpperBoundPrefix context state
      run.incumbentAmount = false := by
    simp [shouldPruneUpperBoundPrefix, huncut.upperBound]
  have htoken : searcher.graph.nodeToken state.node =
      some (endToken context.tokenIn state.path) :=
    (hresolved.indexed.linked.node_iff _ _).mp hstate.node
  unfold skipsState
  rw [hbound, htoken, decide_eq_false (Nat.not_le.mpr hroom), Bool.or_self,
    Bool.false_or]
  cases hdom : context.heuristic.prefixDominance with
  | false => rfl
  | true =>
      rw [Bool.true_and]
      simp only
      rw [← Bool.not_eq_true, PrefixDominanceIndex.isStrictlyDominated_iff]
      rintro ⟨label, hlabel, hdominates, hne⟩
      rcases hinv.labels _ label hlabel with hold | ⟨other, hother, _, rfl⟩
      · have hstrict := PrefixDominanceIndex.isStrictlyDominated_iff.mpr
          ⟨label, hold, hdominates, hne⟩
        rw [hfree hdom] at hstrict
        cases hstrict
      · obtain ⟨_, hvisited, _⟩ := PrefixLabel.dominates_iff.mp hdominates
        have hpushed := hinv.pushed other hother
        obtain ⟨parent, hparent, hop, hpath, _⟩ := hpushed.parent
        have hlength := congrArg List.length hpath
        rw [List.length_append, List.length_singleton, hdepths parent hparent]
          at hlength
        have hcard := Finset.card_le_card hvisited
        change other.visitedTokens.card ≤ state.visitedTokens.card at hcard
        rw [card_visitedTokens hpushed.sound, card_visitedTokens hstate] at hcard
        omega

/-- A state of the frontier is expanded in full. -/
theorem LevelInv.expandState (hfrontier : ∀ other ∈ frontier, searcher.Sound context other)
    (hahead : ∀ parent ∈ frontier, searcher.Ahead parent state →
      searcher.Expanded context mode parent run)
    (hdepths : ∀ other ∈ frontier, other.path.length = state.path.length)
    (hroom : state.path.length < context.config.maxHops)
    (hfree : context.heuristic.prefixDominance = true →
      start.prefixDominance.isStrictlyDominated
        (endToken context.tokenIn state.path) (searcher.label context state) = false) :
    searcher.LevelInv context onQuote mode frontier start
        (searcher.expandState context onQuote mode run state) ∧
      Grows onQuote run (searcher.expandState context onQuote mode run state) ∧
      searcher.Expanded context mode state
        (searcher.expandState context onQuote mode run state) := by
  have hskip := hinv.skipsState_eq_false hresolved huncut hstate hdepths hroom hfree
  unfold AmmSearcher.expandState
  rw [if_neg (by simp [hinv.halted]), if_neg (by simp [hskip])]
  have hstep : ∀ next, searcher.LevelInv context onQuote mode frontier start next ∧
        Grows onQuote run next →
      ∀ group ∈ searcher.groupHeuristicHops context mode state,
      (searcher.LevelInv context onQuote mode frontier start
          (searcher.expandGroup context onQuote mode state next group) ∧
        Grows onQuote run (searcher.expandGroup context onQuote mode state next group)) ∧
      Grows onQuote next (searcher.expandGroup context onQuote mode state next group) ∧
      (∀ quoted ∈ searcher.keptQuotes context mode state group,
        searcher.Finished context state quoted
          (searcher.expandGroup context onQuote mode state next group)) ∧
      (Defers context mode group →
        (searcher.expandGroup context onQuote mode state next group).deferredEdgesSeen =
          true) := by
    rintro next ⟨hinv, hgrown⟩ group hgroup
    obtain ⟨hnext, hgrows, hdone⟩ := hinv.expandGroup hresolved huncut hquiet hmem hstate
      hfrontier (fun parent hparent hbefore => (hahead parent hparent hbefore).mono hgrown)
      hgroup
    exact ⟨⟨hnext, hgrown.trans _ _ _ hgrows⟩, hgrows, hdone⟩
  obtain ⟨⟨hlast, _⟩, hmore, hdone⟩ := foldl_establishes
    (fun group run => (∀ quoted ∈ searcher.keptQuotes context mode state group,
        searcher.Finished context state quoted run) ∧
      (Defers context mode group → run.deferredEdgesSeen = true))
    Grows.refl Grows.trans
    (fun _ _ _ hgrows hdone => ⟨fun quoted hquoted => (hdone.1 quoted hquoted).mono hgrows,
      fun hdefers => hgrows.deferred (hdone.2 hdefers)⟩) hstep ⟨hinv, Grows.refl run⟩
  refine ⟨hlast, hmore, ?_, fun group hgroup => (hdone group hgroup).2⟩
  rintro hop amountOut ⟨group, hgroup, hhop⟩ hquote
  exact (hdone group hgroup).1 ⟨hop, amountOut⟩
    ((mem_keptQuotes_iff huncut hgroup _).mpr ⟨hhop, hquote⟩)

end Steps

/-- What a level needs of its frontier. -/
structure Ready (searcher : AmmSearcher G) (context : HeuristicContext)
    (depth : ℕ) (index : PrefixDominanceIndex) (state : HeuristicState) : Prop where
  sound : searcher.Sound context state
  level : state.path.length = depth
  room : depth < context.config.maxHops
  free : context.heuristic.prefixDominance = true →
    index.isStrictlyDominated (endToken context.tokenIn state.path)
      (searcher.label context state) = false
  covered : context.heuristic.prefixDominance = true → state.path ≠ [] →
    index.Covers (endToken context.tokenIn state.path) (searcher.label context state)

/-- One level expands its whole frontier. -/
theorem levelInv_foldl (hresolved : context.Resolved searcher.graph)
    (huncut : searcher.Uncut context)
    (hquiet : ∀ observed quote, (onQuote observed quote).2 = true) {depth : ℕ}
    (hfrontier : ∀ state ∈ frontier,
      searcher.Ready context depth start.prefixDominance state)
    (hsorted : frontier.Pairwise fun left right => ¬ searcher.Ahead right left)
    (hstart : searcher.LevelInv context onQuote mode frontier start start) :
    searcher.LevelInv context onQuote mode frontier start
        (frontier.foldl (searcher.expandState context onQuote mode) start) ∧
      ∀ state ∈ frontier, searcher.Expanded context mode state
        (frontier.foldl (searcher.expandState context onQuote mode) start) := by
  have hstep : ∀ front state back, frontier = front ++ state :: back →
      ∀ run, searcher.LevelInv context onQuote mode frontier start run →
      (∀ earlier ∈ front, searcher.Expanded context mode earlier run) →
      searcher.LevelInv context onQuote mode frontier start
          (searcher.expandState context onQuote mode run state) ∧
        Grows onQuote run (searcher.expandState context onQuote mode run state) ∧
        searcher.Expanded context mode state
          (searcher.expandState context onQuote mode run state) := by
    intro front state back hlist run hinv hfront
    have hstate : state ∈ frontier := by simp [hlist]
    have hready := hfrontier state hstate
    refine hinv.expandState hresolved huncut hquiet hstate hready.sound
      (fun other hother => (hfrontier other hother).sound) ?_ ?_ ?_ hready.free
    · -- what is ahead of the state stands in front of it
      intro parent hparent hbefore
      rw [hlist] at hparent hsorted
      rcases List.mem_append.mp hparent with hearlier | hlater
      · exact hfront parent hearlier
      · exfalso
        rcases List.mem_cons.mp hlater with rfl | hback
        · exact not_ahead_self parent hbefore
        · exact (List.pairwise_cons.mp (List.pairwise_append.mp hsorted).2.1).1 parent hback
            hbefore
    · intro other hother
      rw [(hfrontier other hother).level, hready.level]
    · rw [hready.level]
      exact hready.room
  obtain ⟨hlast, _, hdone⟩ := foldl_establishes_inOrder (searcher.Expanded context mode)
    Grows.refl Grows.trans (fun _ _ _ hgrows hdone => hdone.mono hgrows) hstep hstart
  exact ⟨hlast, hdone⟩

omit [StableDiGraph G Address EdgeData] in
/-- The comparison that sorts a frontier. -/
theorem isLE_iff_not_ahead (left right : HeuristicState) :
    ((cmp right.amount left.amount).then (cmp (searcher.routePathSortKey left.path)
      (searcher.routePathSortKey right.path))).isLE = true ↔
        ¬ searcher.Ahead right left := by
  unfold Ahead cmp cmpUsing
  by_cases hmore : right.amount < left.amount
  · simp [hmore, hmore.not_gt, hmore.ne]
  · by_cases hless : left.amount < right.amount
    · simp [hmore, hless]
    · have hsame : right.amount = left.amount :=
        le_antisymm (not_lt.mp hless) (not_lt.mp hmore)
      by_cases hkey : searcher.routePathSortKey left.path <
          searcher.routePathSortKey right.path
      · have hback := lt_asymm hkey
        simp [hsame, hkey, hback]
      · by_cases hback : searcher.routePathSortKey right.path <
            searcher.routePathSortKey left.path
        · simp [hsame, hkey, hback]
        · simp [hsame, hkey, hback]

omit [StableDiGraph G Address EdgeData] in
theorem not_ahead_trans {first second third : HeuristicState}
    (hleft : ¬ searcher.Ahead second first) (hright : ¬ searcher.Ahead third second) :
    ¬ searcher.Ahead third first := by
  unfold Ahead at *
  push Not at *
  obtain ⟨hamount, hkey⟩ := hleft
  obtain ⟨hamount', hkey'⟩ := hright
  refine ⟨hamount'.trans hamount, ?_⟩
  intro hsame
  have hmiddle : third.amount = second.amount :=
    le_antisymm hamount' (hamount.trans_eq hsame.symm)
  exact (hkey (hmiddle.symm.trans hsame)).trans (hkey' hmiddle)

omit [StableDiGraph G Address EdgeData] in
theorem not_ahead_or (left right : HeuristicState) :
    ¬ searcher.Ahead right left ∨ ¬ searcher.Ahead left right := by
  unfold Ahead
  by_contra hboth
  push Not at hboth
  obtain ⟨hmore | ⟨hsame, hkey⟩, hless | ⟨hsame', hkey'⟩⟩ := hboth
  · exact absurd hmore hless.not_gt
  · exact absurd hsame' hmore.ne
  · exact absurd hsame hless.ne
  · exact absurd hkey (lt_asymm hkey')

/-- Without a beam the next level is sorted. -/
theorem pairwise_nextLevel (huncut : searcher.Uncut context) (run : HeuristicRun σ) :
    (searcher.nextLevel context run).Pairwise fun left right =>
      ¬ searcher.Ahead right left := by
  have hsorted : ∀ frontier : List HeuristicState,
      (searcher.sortFrontier frontier).Pairwise fun left right =>
        ¬ searcher.Ahead right left := by
    intro frontier
    let before := fun left right : HeuristicState =>
      ((cmp right.amount left.amount).then (cmp (searcher.routePathSortKey left.path)
        (searcher.routePathSortKey right.path))).isLE = true
    have htotal : Std.Total before := by
      constructor
      intro left right
      exact (not_ahead_or left right).imp (isLE_iff_not_ahead left right).mpr
        (isLE_iff_not_ahead right left).mpr
    have htrans : IsTrans HeuristicState before := by
      constructor
      intro first second third hleft hright
      exact (isLE_iff_not_ahead first third).mpr (not_ahead_trans
        ((isLE_iff_not_ahead first second).mp hleft)
        ((isLE_iff_not_ahead second third).mp hright))
    refine (List.pairwise_insertionSort before frontier).imp ?_
    intro left right
    exact (isLE_iff_not_ahead left right).mp
  unfold nextLevel applyBeamWidth
  simp only [huncut.beam, huncut.liquidity, Bool.false_and, Bool.not_false, Bool.true_or,
    if_true]
  exact hsorted _

/-- Without a beam only dominance drops states between two levels. -/
theorem mem_nextLevel (hresolved : context.Resolved searcher.graph)
    (huncut : searcher.Uncut context) (hstate : searcher.Sound context state) :
    state ∈ searcher.nextLevel context run ↔
      state ∈ run.nextFrontier ∧ (context.heuristic.prefixDominance = true →
        run.prefixDominance.isStrictlyDominated (endToken context.tokenIn state.path)
          (searcher.label context state) = false) := by
  have htoken : searcher.graph.nodeToken state.node =
      some (endToken context.tokenIn state.path) :=
    (hresolved.indexed.linked.node_iff _ _).mp hstate.node
  have hsorted : ∀ (sort : Bool) (frontier : List HeuristicState),
      state ∈ searcher.applyBeamWidth frontier none sort ↔ state ∈ frontier := by
    intro sort frontier
    cases sort with
    | false => rfl
    | true => exact (List.perm_insertionSort _ _).mem_iff
  simp only [nextLevel]
  rw [huncut.beam, hsorted, retainUndominated]
  split
  · rename_i hdom
    rw [List.mem_filter, htoken]
    simp [hdom]
  · rename_i hdom
    simp [hdom]

/-- The states of the next level are ready to be expanded. -/
theorem LevelInv.ready_nextLevel (hresolved : context.Resolved searcher.graph)
    (huncut : searcher.Uncut context)
    (hinv : searcher.LevelInv context onQuote mode frontier start run) {depth : ℕ}
    (hfrontier : ∀ state ∈ frontier,
      searcher.Ready context depth start.prefixDominance state) :
    ∀ state ∈ searcher.nextLevel context run,
      searcher.Ready context (depth + 1) run.prefixDominance state := by
  intro state hstate
  have hpushed := hinv.pushed state (nextLevel_subset run state hstate)
  obtain ⟨parent, hparent, hop, hpath, _⟩ := hpushed.parent
  have hlevel : state.path.length = depth + 1 := by
    rw [hpath, List.length_append, List.length_singleton,
      (hfrontier parent hparent).level]
  refine ⟨hpushed.sound, hlevel, hlevel ▸ hpushed.depth, ?_, ?_⟩
  · exact ((mem_nextLevel hresolved huncut hpushed.sound).mp hstate).2
  · intro hdom _
    exact hpushed.covered hdom

end Level

section Pass

variable {σ : Type} {onQuote : σ → RouteQuote → σ × Bool}

/-- What the levels of a pass from `frontier` on achieve; `expanded` are the
states that they expand. -/
structure PassCovers (searcher : AmmSearcher G) (context : HeuristicContext)
    (onQuote : σ → RouteQuote → σ × Bool) (mode : HeuristicPassMode) (depth : ℕ)
    (frontier : List HeuristicState)
    (start final : HeuristicRun σ) (expanded : HeuristicState → Prop) : Prop where
  stopped : final.stopped = false
  index : final.prefixDominance.WellFormed
  keeps : Keeps onQuote start final
  quoted : ∀ path ∈ final.evaluatedPaths, ∀ result,
    searcher.trace context path = .ok result → ∃ quote ∈ final.quotes, quote.path = path
  origin : ∀ quote ∈ final.quotes, quote ∈ start.quotes ∨
    ∃ state, expanded state ∧ ∃ hop, quote.path = state.path ++ [hop] ∧
      searcher.Considers context mode state hop
  begins : ∀ state ∈ frontier, expanded state
  sound : ∀ state, expanded state → searcher.Sound context state
  level : ∀ state, expanded state → depth ≤ state.path.length
  room : ∀ state, expanded state → state.path.length < context.config.maxHops
  parent : ∀ state, expanded state → state ∈ frontier ∨
    ∃ parent, expanded parent ∧ ∃ hop, state.path = parent.path ++ [hop] ∧
      searcher.Considers context mode parent hop
  closing : ∀ state, expanded state → ∀ hop amountOut,
    searcher.Considers context mode state hop →
    searcher.quoteHop context hop state.amount = .ok amountOut →
    hop.tokenOut = context.tokenOut → context.config.minHops ≤ state.path.length + 1 →
    state.path ++ [hop] ∈ final.evaluatedPaths
  covered : context.heuristic.prefixDominance = true → ∀ state, expanded state →
    ∀ hop amountOut node, searcher.Considers context mode state hop →
    searcher.quoteHop context hop state.amount = .ok amountOut →
    hop.tokenOut ≠ context.tokenOut → state.path.length + 1 < context.config.maxHops →
    searcher.graph.nodeIndex hop.tokenOut = some node →
    final.prefixDominance.Covers hop.tokenOut
      (searcher.label context (nextState state node ⟨hop, amountOut⟩))
  pushed : context.heuristic.prefixDominance = false → ∀ state, expanded state →
    ∀ hop amountOut node, searcher.Considers context mode state hop →
    searcher.quoteHop context hop state.amount = .ok amountOut →
    hop.tokenOut ≠ context.tokenOut → state.path.length + 1 < context.config.maxHops →
    searcher.graph.nodeIndex hop.tokenOut = some node →
    expanded (nextState state node ⟨hop, amountOut⟩)
  labels : ∀ token, ∀ label ∈ final.prefixDominance.labelsAt token,
    label ∈ start.prefixDominance.labelsAt token ∨
      ∃ state, expanded state ∧ state.path ≠ [] ∧
        endToken context.tokenIn state.path = token ∧
        searcher.label context state = label
  labelled : context.heuristic.prefixDominance = true → ∀ state, expanded state →
    state.path ≠ [] → final.prefixDominance.Covers
      (endToken context.tokenIn state.path) (searcher.label context state)
  fresh : context.heuristic.prefixDominance = true → ∀ state, expanded state →
    state ∉ frontier → ¬ start.prefixDominance.Covers
      (endToken context.tokenIn state.path) (searcher.label context state)
  order : context.heuristic.prefixDominance = true → ∀ state, expanded state →
    state ∉ frontier → ∀ other, expanded other → other.path ≠ [] →
    other.path.length < state.path.length →
    endToken context.tokenIn other.path = endToken context.tokenIn state.path →
    (searcher.label context other).dominates (searcher.label context state) = false
  first : context.heuristic.prefixDominance = true → ∀ state, expanded state →
    state ∉ frontier → ∀ parent, expanded parent → ∀ hop next,
    searcher.Generates context mode parent hop next →
    searcher.label context next = searcher.label context state →
    hop.tokenOut = endToken context.tokenIn state.path →
    ∀ origin, expanded origin → ∀ last, state.path = origin.path ++ [last] →
      ¬ searcher.Precedes context mode parent hop origin last
  undominated : context.heuristic.prefixDominance = true → ∀ state, expanded state →
    state ∉ frontier → ∀ other, expanded other → other.path.length = state.path.length →
    endToken context.tokenIn other.path = endToken context.tokenIn state.path →
    (searcher.label context other).dominates (searcher.label context state) = true →
    searcher.label context other = searcher.label context state
  deferred : ∀ state, expanded state →
    ∀ group ∈ searcher.groupHeuristicHops context mode state,
      Defers context mode group → final.deferredEdgesSeen = true

variable {depth : ℕ} {frontier : List HeuristicState} {start run final : HeuristicRun σ}

theorem passCovers_nil (hstopped : run.stopped = false)
    (hindex : run.prefixDominance.WellFormed)
    (hquoted : ∀ path ∈ run.evaluatedPaths, ∀ result,
      searcher.trace context path = .ok result →
        ∃ quote ∈ run.quotes, quote.path = path) :
    searcher.PassCovers context onQuote mode depth [] run run fun _ => False where
  stopped := hstopped
  index := hindex
  keeps := Keeps.refl run
  quoted := hquoted
  origin := fun _ h => Or.inl h
  begins := by simp
  sound := fun _ h => h.elim
  level := fun _ h => h.elim
  room := fun _ h => h.elim
  parent := fun _ h => h.elim
  closing := fun _ h => h.elim
  covered := fun _ _ h => h.elim
  pushed := fun _ _ h => h.elim
  labels := fun _ _ h => Or.inl h
  labelled := fun _ _ h => h.elim
  fresh := fun _ _ h => h.elim
  order := fun _ _ h => h.elim
  first := fun _ _ h => h.elim
  undominated := fun _ _ h => h.elim
  deferred := fun _ h => h.elim

/-- The states of the later levels are longer. -/
theorem PassCovers.longer {expanded : HeuristicState → Prop}
    (hpass : searcher.PassCovers context onQuote mode depth frontier start final expanded)
    {state : HeuristicState} (hstate : expanded state) (hlater : state ∉ frontier) :
    depth < state.path.length := by
  rcases hpass.parent state hstate with hfirst | ⟨parent, hparent, hop, hpath, _⟩
  · exact absurd hfirst hlater
  · have hlevel := hpass.level parent hparent
    rw [hpath, List.length_append, List.length_singleton]
    omega

/-- A level followed by the levels after it. -/
theorem PassCovers.cons (hresolved : context.Resolved searcher.graph)
    (huncut : searcher.Uncut context)
    (hready : ∀ state ∈ frontier,
      searcher.Ready context depth start.prefixDominance state)
    (hinv : searcher.LevelInv context onQuote mode frontier start run)
    (hdone : ∀ state ∈ frontier, searcher.Expanded context mode state run)
    {expanded : HeuristicState → Prop}
    (hrest : searcher.PassCovers context onQuote mode (depth + 1)
      (searcher.nextLevel context run) run final expanded) :
    searcher.PassCovers context onQuote mode depth frontier start final
      fun state => state ∈ frontier ∨ expanded state where
  stopped := hrest.stopped
  index := hrest.index
  keeps := hinv.grows.toKeeps.trans hrest.keeps
  quoted := hrest.quoted
  origin := by
    intro quote hquote
    rcases hrest.origin quote hquote with hold | ⟨state, hstate, hop, hhop⟩
    · rcases hinv.origin quote hold with hold | ⟨state, hstate, hop, hhop⟩
      · exact Or.inl hold
      · exact Or.inr ⟨state, Or.inl hstate, hop, hhop⟩
    · exact Or.inr ⟨state, Or.inr hstate, hop, hhop⟩
  begins := fun _ h => Or.inl h
  sound := by
    rintro state (hstate | hstate)
    · exact (hready state hstate).sound
    · exact hrest.sound state hstate
  level := by
    rintro state (hstate | hstate)
    · exact (hready state hstate).level.ge
    · exact (Nat.le_succ depth).trans (hrest.level state hstate)
  room := by
    rintro state (hstate | hstate)
    · rw [(hready state hstate).level]
      exact (hready state hstate).room
    · exact hrest.room state hstate
  parent := by
    rintro state (hstate | hstate)
    · exact Or.inl hstate
    · rcases hrest.parent state hstate with hnext | ⟨parent, hparent, hop, hhop⟩
      · obtain ⟨parent, hparent, hop, hhop⟩ :=
          (hinv.pushed state (nextLevel_subset run state hnext)).parent
        exact Or.inr ⟨parent, Or.inl hparent, hop, hhop⟩
      · exact Or.inr ⟨parent, Or.inr hparent, hop, hhop⟩
  closing := by
    rintro state (hstate | hstate) hop amountOut hconsiders hquote hout hmin
    · exact hrest.keeps.evaluated
        (((hdone state hstate).finished hop amountOut hconsiders hquote).closing hout hmin)
    · exact hrest.closing state hstate hop amountOut hconsiders hquote hout hmin
  covered := by
    rintro hdom state (hstate | hstate) hop amountOut node hconsiders hquote hout hroom
      hnode
    · exact hrest.keeps.covers _ _
        (((hdone state hstate).finished hop amountOut hconsiders hquote).covered hout
          hroom hdom node hnode)
    · exact hrest.covered hdom state hstate hop amountOut node hconsiders hquote hout
        hroom hnode
  pushed := by
    rintro hdom state (hstate | hstate) hop amountOut node hconsiders hquote hout hroom
      hnode
    · have hnext := ((hdone state hstate).finished hop amountOut hconsiders
        hquote).pushed hout hroom hdom node hnode
      refine Or.inr (hrest.begins _ ?_)
      exact (mem_nextLevel hresolved huncut (hinv.pushed _ hnext).sound).mpr
        ⟨hnext, fun h => absurd (hdom.symm.trans h) Bool.false_ne_true⟩
    · exact Or.inr (hrest.pushed hdom state hstate hop amountOut node hconsiders hquote
        hout hroom hnode)
  labels := by
    intro token label hlabel
    rcases hrest.labels token label hlabel with hold | ⟨state, hstate, hrest⟩
    · rcases hinv.labels token label hold with hold | ⟨state, hstate, rfl, rfl⟩
      · exact Or.inl hold
      · have hpushed := hinv.pushed state hstate
        obtain ⟨parent, _, hop, hpath, _⟩ := hpushed.parent
        refine Or.inr ⟨state, Or.inr (hrest.begins state ?_), by simp [hpath], rfl, rfl⟩
        exact (mem_nextLevel hresolved huncut hpushed.sound).mpr
          ⟨hstate, fun _ => hinv.index.not_isStrictlyDominated hold⟩
    · exact Or.inr ⟨state, Or.inr hstate, hrest⟩
  labelled := by
    rintro hdom state (hstate | hstate) hpath
    · exact hrest.keeps.covers _ _ (hinv.grows.covers _ _
        ((hready state hstate).covered hdom hpath))
    · exact hrest.labelled hdom state hstate hpath
  fresh := by
    rintro hdom state (hstate | hstate) hnew
    · exact absurd hstate hnew
    · by_cases hnext : state ∈ searcher.nextLevel context run
      · exact (hinv.pushed state (nextLevel_subset run state hnext)).fresh hdom
      · exact mt (hinv.grows.covers _ _) (hrest.fresh hdom state hstate hnext)
  order := by
    rintro hdom state (hstate | hstate) hnew other hother hpath hlength hend
    · exact absurd hstate hnew
    · -- an earlier state is covered when this one is pushed
      rcases hother with hother | hother
      · have hcovers := (hready other hother).covered hdom hpath
        rw [hend] at hcovers
        rw [← Bool.not_eq_true]
        intro hdominates
        by_cases hnext : state ∈ searcher.nextLevel context run
        · exact (hinv.pushed state (nextLevel_subset run state hnext)).fresh hdom
            (hcovers.trans hdominates)
        · exact hrest.fresh hdom state hstate hnext
            (hinv.grows.covers _ _ (hcovers.trans hdominates))
      · by_cases hnext : state ∈ searcher.nextLevel context run
        · have hlevel := (hinv.ready_nextLevel hresolved huncut hready state hnext).level
          have := hrest.level other hother
          omega
        · exact hrest.order hdom state hstate hnext other hother hpath hlength hend
  first := by
    rintro hdom state (hstate | hstate) hnew parent hparent hop next hgenerates hsame htoken
      origin horigin last hpath
    · exact absurd hstate hnew
    · have hlong := hrest.level state hstate
      have horiginLength := congrArg List.length hpath
      rw [List.length_append, List.length_singleton] at horiginLength
      have hparentSound : searcher.Sound context parent := by
        rcases hparent with hparent | hparent
        · exact (hready parent hparent).sound
        · exact hrest.sound parent hparent
      have hparentLength := hgenerates.length_eq hresolved hparentSound
        (hrest.sound state hstate) hsame
      by_cases hnext : state ∈ searcher.nextLevel context run
      · -- the parents of the next level stand in this one
        have hlevel := (hinv.ready_nextLevel hresolved huncut hready state hnext).level
        have hlevels : ∀ other, other ∈ frontier ∨ expanded other →
            other.path.length + 1 = state.path.length → other ∈ frontier := by
          rintro other (hother | hother) hlength
          · exact hother
          · have := hrest.level other hother
            omega
        exact (hinv.pushed state (nextLevel_subset run state hnext)).first hdom parent
          (hlevels parent hparent hparentLength) hop next hgenerates hsame htoken origin
          (hlevels origin horigin horiginLength.symm) last hpath
      · have hlonger := hrest.longer hstate hnext
        have hlevels : ∀ other, other ∈ frontier ∨ expanded other →
            other.path.length + 1 = state.path.length → expanded other := by
          rintro other (hother | hother) hlength
          · have := (hready other hother).level
            omega
          · exact hother
        exact hrest.first hdom state hstate hnext parent
          (hlevels parent hparent hparentLength) hop next hgenerates hsame htoken origin
          (hlevels origin horigin horiginLength.symm) last hpath
  undominated := by
    rintro hdom state (hstate | hstate) hnew other hother hlength hend hdominates
    · exact absurd hstate hnew
    · have hlong := hrest.level state hstate
      have hotherRest : expanded other := by
        rcases hother with hother | hother
        · have := (hready other hother).level
          omega
        · exact hother
      by_cases hnext : state ∈ searcher.nextLevel context run
      · have hlevel := (hinv.ready_nextLevel hresolved huncut hready state hnext).level
        have hotherNext : other ∈ searcher.nextLevel context run := by
          by_contra hlater
          have := hrest.longer hotherRest hlater
          omega
        -- a label of the index stands behind the other prefix
        obtain ⟨label, hlabel, hcovers⟩ :=
          (hinv.pushed other (nextLevel_subset run other hotherNext)).covered hdom
        rw [hend] at hlabel
        have hfree := ((mem_nextLevel hresolved huncut (hrest.sound state hstate)).mp
          hnext).2 hdom
        rw [← Bool.not_eq_true, PrefixDominanceIndex.isStrictlyDominated_iff] at hfree
        have hsame : label = searcher.label context state := by
          by_contra hdifferent
          exact hfree ⟨label, hlabel,
            PrefixLabel.dominates_trans _ _ _ hcovers hdominates, hdifferent⟩
        rw [hsame] at hcovers
        exact PrefixLabel.dominates_antisymm hdominates hcovers
      · exact hrest.undominated hdom state hstate hnext other hotherRest hlength hend
          hdominates
  deferred := by
    rintro state (hstate | hstate) group hgroup hdefers
    · exact hrest.keeps.deferred ((hdone state hstate).deferred group hgroup hdefers)
    · exact hrest.deferred state hstate group hgroup hdefers

/-- The level loop covers what it can reach from its frontier. -/
theorem passCovers_searchLoop (hresolved : context.Resolved searcher.graph)
    (huncut : searcher.Uncut context)
    (hquiet : ∀ observed quote, (onQuote observed quote).2 = true) (fuel : ℕ)
    (hfuel : context.config.maxHops ≤ fuel + depth)
    (hready : ∀ state ∈ frontier,
      searcher.Ready context depth run.prefixDominance state)
    (hsorted : frontier.Pairwise fun left right => ¬ searcher.Ahead right left)
    (hhalted : run.halted = false) (hstopped : run.stopped = false)
    (hindex : run.prefixDominance.WellFormed)
    (hquoted : ∀ path ∈ run.evaluatedPaths, ∀ result,
      searcher.trace context path = .ok result →
        ∃ quote ∈ run.quotes, quote.path = path) :
    ∃ expanded, searcher.PassCovers context onQuote mode depth frontier run
      (searcher.searchLoop context onQuote mode fuel frontier run) expanded := by
  induction fuel generalizing depth frontier run with
  | zero =>
      obtain rfl : frontier = [] := by
        rw [List.eq_nil_iff_forall_not_mem]
        intro state hstate
        have := (hready state hstate).room
        omega
      exact ⟨_, passCovers_nil hstopped hindex hquoted⟩
  | succ fuel ih =>
      rw [searchLoop]
      split
      · rename_i hempty
        subst hempty
        exact ⟨_, passCovers_nil hstopped hindex hquoted⟩
      · have hstart : searcher.LevelInv context onQuote mode frontier
            { run with nextFrontier := [] } { run with nextFrontier := [] } :=
          ⟨hhalted, hstopped, hindex, Grows.refl _, fun _ _ h => Or.inl h, by simp,
            hquoted, fun _ h => Or.inl h⟩
        have hbegin : ∀ state ∈ frontier, searcher.Ready context depth
            { run with nextFrontier := [] }.prefixDominance state := hready
        obtain ⟨hinv, hdone⟩ := levelInv_foldl hresolved huncut hquiet hbegin hsorted hstart
        simp only
        generalize List.foldl (searcher.expandState context onQuote mode)
          { run with nextFrontier := [] } frontier = next at hinv hdone ⊢
        rw [if_neg (by simp [hinv.halted])]
        obtain ⟨expanded, hrest⟩ := ih (by omega)
          (hinv.ready_nextLevel hresolved huncut hbegin) (pairwise_nextLevel huncut next)
          hinv.halted hinv.stopped hinv.index hinv.quoted
        have hpass := PassCovers.cons hresolved huncut hbegin hinv hdone hrest
        exact ⟨_, { hpass with keeps := { hpass.keeps with } }⟩

/-- The run with the fields that a pass resets. -/
def beginPass (run : HeuristicRun σ) : HeuristicRun σ :=
  { run with halted := false, deferredEdgesSeen := false, nextFrontier := [] }

/-- A pass covers what it can reach from the root. -/
theorem passCovers_runPass (hresolved : context.Resolved searcher.graph)
    (huncut : searcher.Uncut context) (hroom : 0 < context.config.maxHops)
    (hquiet : ∀ observed quote, (onQuote observed quote).2 = true)
    (hstopped : run.stopped = false) (hindex : run.prefixDominance.WellFormed)
    (hquoted : ∀ path ∈ run.evaluatedPaths, ∀ result,
      searcher.trace context path = .ok result →
        ∃ quote ∈ run.quotes, quote.path = path) :
    ∃ expanded, searcher.PassCovers context onQuote mode 0 [context.rootState] (beginPass run)
      (searcher.runPass context onQuote run mode) expanded := by
  suffices hready : ∀ state ∈ [context.rootState],
      searcher.Ready context 0 run.prefixDominance state from
    @passCovers_searchLoop G _ searcher context mode σ onQuote 0 [context.rootState]
      (beginPass run) hresolved huncut hquiet _ (Nat.le_succ _) hready
      (List.pairwise_singleton _ _) rfl hstopped hindex hquoted
  intro state hstate
  obtain rfl := List.mem_singleton.mp hstate
  refine ⟨sound_rootState hresolved, rfl, hroom, ?_, fun _ hpath => absurd rfl hpath⟩
  intro _
  rw [← Bool.not_eq_true, PrefixDominanceIndex.isStrictlyDominated_iff]
  -- the root has visited fewer tokens than any label
  rintro ⟨label, hlabel, hdominates, _⟩
  obtain ⟨_, hvisited, _⟩ := PrefixLabel.dominates_iff.mp hdominates
  have hcard : label.visitedTokens.card ≤ 1 := Finset.card_le_card hvisited
  have := hindex.visited _ label hlabel
  omega

end Pass

end AmmSearcher

end AmmSearch
