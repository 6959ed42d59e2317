/-
When prefix dominance keeps the best route.  The search with dominance off
finds every viable route; with dominance on a displaced prefix may take its
completions with it.
-/
import AmmSearch.HeuristicOutcome
import AmmSearch.RouteProblem
import AmmSearch.TwoTokenRoutes

open FiniteMap StableGraph

namespace AmmSearch

namespace AmmSearcher

variable {G : Type} [StableDiGraph G Address EdgeData] (searcher : AmmSearcher G)
  (context : HeuristicContext)

/-- An open prefix that some completion within the hop bound closes. -/
def Completable (path : RoutePath) : Prop :=
  context.IsOpen searcher.graph path ∧
    context.Completes searcher.graph path (context.config.maxHops - path.length)

variable {searcher context} {mode : HeuristicPassMode} {path : RoutePath} {hop : Hop}
  {amount : U256}

section Prefixes

/-- The hop after a prefix of a completable path is offered. -/
theorem Completable.split (hcompletable : searcher.Completable context (path ++ [hop])) :
    searcher.Completable context path ∧
      context.Extends searcher.graph path hop ∧ searcher.Offers context path hop ∧
      path.length + 1 < context.config.maxHops := by
  obtain ⟨hopen, hcompletes⟩ := hcompletable
  obtain ⟨hshorter, hextends⟩ := HeuristicContext.isOpen_append_singleton.mp hopen
  rw [List.length_append, List.length_singleton] at hcompletes
  have hroom : path.length + 1 < context.config.maxHops := by
    by_contra hfull
    rw [Nat.sub_eq_zero_of_le (Nat.not_lt.mp hfull)] at hcompletes
    exact HeuristicContext.not_completes_zero hcompletes
  refine ⟨⟨hshorter, ?_⟩, hextends, Or.inr ⟨hextends, hcompletes⟩, hroom⟩
  have hlength : context.config.maxHops - path.length =
      context.config.maxHops - (path.length + 1) + 1 := by omega
  rw [hlength]
  exact (HeuristicContext.completes_succ hshorter _).mpr
    (Or.inr ⟨hop, hextends, hcompletes⟩)

/-- A route is a completable prefix closed by an offered hop. -/
theorem completable_of_isRoute
    (hroute : searcher.graph.IsRoute context.effective context.tokenIn
      context.tokenOut context.allowFinalSourceRevisit (path ++ [hop])) :
    searcher.Completable context path ∧ searcher.Offers context path hop := by
  obtain ⟨hopen, hcloses, _, hmax⟩ :=
    HeuristicContext.isRoute_effective_append_singleton.mp hroute
  exact ⟨⟨hopen, path, hop, List.prefix_refl path, hopen, hcloses, by omega⟩,
    Or.inl hcloses⟩

theorem Completable.of_isPrefix {whole : RoutePath}
    (hcompletable : searcher.Completable context whole) (hpre : path <+: whole) :
    searcher.Completable context path := by
  obtain ⟨rest, rfl⟩ := hpre
  induction rest using List.reverseRecOn with
  | nil => simpa using hcompletable
  | append_singleton rest last ih =>
      rw [← List.append_assoc] at hcompletable
      exact ih hcompletable.split.1

/-- The proper prefixes of a route can be completed. -/
theorem completable_of_isRoute_append {rest : RoutePath} (hrest : rest ≠ [])
    (hroute : searcher.graph.IsRoute context.effective context.tokenIn
      context.tokenOut context.allowFinalSourceRevisit (path ++ rest)) :
    searcher.Completable context path := by
  obtain ⟨middle, last, rfl⟩ := List.eq_nil_or_concat' rest |>.resolve_left hrest
  rw [← List.append_assoc] at hroute
  exact (completable_of_isRoute hroute).1.of_isPrefix (List.prefix_append _ _)

/-- A search is offered each hop of a route after the hops before it. -/
theorem offers_of_isRoute_append {rest : RoutePath}
    (hroute : searcher.graph.IsRoute context.effective context.tokenIn
      context.tokenOut context.allowFinalSourceRevisit (path ++ hop :: rest)) :
    searcher.Offers context path hop := by
  cases rest with
  | nil => exact (completable_of_isRoute hroute).2
  | cons following rest =>
      have happend : path ++ hop :: following :: rest =
          (path ++ [hop]) ++ following :: rest := by simp
      rw [happend] at hroute
      exact (completable_of_isRoute_append (by simp) hroute).split.2.2.1

/-- The proper nonempty prefixes of a quoted route are quoted prefixes. -/
theorem QuotedRoute.exists_quotedPrefix
    (hallow : context.allowFinalSourceRevisit = false)
    (hroute : searcher.QuotedRoute context.problem path amount) {part : RoutePath}
    (hpart : part <+: path) (hproper : part ≠ path) (hnonempty : part ≠ []) :
    ∃ before, searcher.QuotedPrefix context.problem part before := by
  obtain ⟨before, hbefore⟩ := hroute.yields.of_isPrefix hpart
  obtain ⟨rest, rfl⟩ := hpart
  have hrest : rest ≠ [] := by
    rintro rfl
    exact hproper (by simp)
  have hcompletable := completable_of_isRoute_append hrest
    ((isRoute_iff hallow).mpr hroute.isRoute)
  exact ⟨before, isOpen_iff.mp hcompletable.1, hnonempty, hbefore⟩

theorem Sound.quotedPrefix {state : HeuristicState}
    (hstate : searcher.Sound context state) (hpath : state.path ≠ []) :
    searcher.QuotedPrefix context.problem state.path state.amount :=
  ⟨isOpen_iff.mp hstate.isOpen, hpath, hstate.yields⟩

/-- Dominance between the labels of two states, in terms of their paths. -/
theorem dominates_iff_displaces (hresolved : context.Resolved searcher.graph)
    (hne : context.tokenIn ≠ context.tokenOut) {state better : HeuristicState}
    (hstate : searcher.Sound context state) (hpath : state.path ≠ [])
    (hbetter : searcher.Sound context better) (hpath' : better.path ≠ [])
    (hend : endToken context.tokenIn better.path = endToken context.tokenIn state.path) :
    (searcher.label context better).dominates (searcher.label context state) = true ↔
      searcher.Displaces context.problem better.path state.path := by
  rw [PrefixLabel.dominates_iff]
  simp only [label]
  constructor
  · rintro ⟨hmore, hvisited, hblocked⟩
    rw [hstate.visited, hbetter.visited] at hvisited
    refine ⟨_, _, hbetter.quotedPrefix hpath', hstate.quotedPrefix hpath,
      ⟨hend, hvisited, hmore⟩, ?_⟩
    intro pool hpool
    exact (mem_futureBlockedPools_iff hresolved hne hstate pool).mp
      (hblocked ((mem_futureBlockedPools_iff hresolved hne hbetter pool).mpr hpool))
  · rintro ⟨amount', amount, hquoted', hquoted, houtdoes, hblocks⟩
    rw [hbetter.yields.unique hquoted'.yields, hstate.yields.unique hquoted.yields]
    refine ⟨houtdoes.amount_le, ?_, ?_⟩
    · rw [hstate.visited, hbetter.visited]
      exact houtdoes.visited
    intro pool hpool
    exact (mem_futureBlockedPools_iff hresolved hne hstate pool).mpr
      (hblocks pool ((mem_futureBlockedPools_iff hresolved hne hbetter pool).mp hpool))

theorem Reportable.yields {quote : RouteQuote}
    (hquote : searcher.Reportable context quote) :
    searcher.Yields context.problem quote.path quote.amountOut :=
  ⟨quote.hops, hquote.trace⟩

theorem Offers.isHop (hoffers : searcher.Offers context path hop) :
    searcher.graph.IsHop hop := by
  rcases hoffers with hcloses | ⟨hextends, _⟩
  · exact hcloses.1.edge
  · exact hextends.1.edge

end Prefixes

theorem quoteHop_mono (hmono : searcher.MonotoneQuotes context.simConfig)
    (hhop : searcher.graph.IsHop hop) {before larger : U256} (hle : before ≤ larger)
    (hquote : searcher.quoteHop context hop before = .ok amount) :
    ∃ largerOut, searcher.quoteHop context hop larger = .ok largerOut ∧
      amount ≤ largerOut :=
  hmono hop hhop before larger amount hle hquote

section Considered

/-- Without a shortlist every offered hop is considered. -/
theorem considers_of_offered (hshort : context.heuristic.edgeShortlist.enabled = false)
    {state : HeuristicState} (hoffered : hop ∈ searcher.offeredHops context state) :
    searcher.Considers context mode state hop := by
  refine ⟨⟨hop.tokenOut, (searcher.offeredHops context state).filter
    (fun other => other.tokenOut = hop.tokenOut),
    decide (searcher.graph.nodeIndex hop.tokenOut = some context.target)⟩, ?_, ?_⟩
  · exact (mem_groupHeuristicHops mode state _).mpr
      ⟨List.mem_map_of_mem hoffered, rfl, rfl⟩
  · unfold consideredHops shortlistedRankedHops
    rw [if_pos (Or.inl hshort), (searcher.perm_liquidityRankedHops _ _ _).mem_iff]
    exact List.mem_filter.mpr ⟨hoffered, by simp⟩

end Considered

section Pass

variable {σ : Type} {onQuote : σ → RouteQuote → σ × Bool}
  {start final : HeuristicRun σ} {expanded : HeuristicState → Prop}
  (hresolved : context.Resolved searcher.graph)
  (hpass : searcher.PassCovers context onQuote mode 0 [context.rootState] start final expanded)

include hresolved hpass

omit hresolved in
/-- A considered closing hop of an expanded state becomes a quote. -/
theorem PassCovers.exists_quote (hsound : searcher.SoundQuotes context final.quotes)
    {state : HeuristicState} (hstate : expanded state)
    (hconsiders : searcher.Considers context mode state hop)
    (hquote : searcher.quoteHop context hop state.amount = .ok amount)
    (hout : hop.tokenOut = context.tokenOut)
    (hmin : context.config.minHops ≤ state.path.length + 1) :
    ∃ quote ∈ final.quotes, quote.path = state.path ++ [hop] ∧
      quote.amountOut = amount := by
  have hevaluated := hpass.closing state hstate hop amount hconsiders hquote hout hmin
  have hyields : searcher.Yields context.problem (state.path ++ [hop]) amount :=
    yields_append_singleton.mpr ⟨_, (hpass.sound state hstate).yields, hquote⟩
  obtain ⟨hopQuotes, htrace⟩ := hyields
  obtain ⟨quote, hmem, hpath⟩ := hpass.quoted _ hevaluated _ htrace
  have hreported := (hsound.2 quote hmem).yields
  rw [hpath] at hreported
  exact ⟨quote, hmem, hpath, hreported.unique ⟨_, htrace⟩⟩

/-- With dominance off every completable prefix that can be quoted is
expanded. -/
theorem PassCovers.expands (hdom : context.heuristic.prefixDominance = false)
    (hconsiders : ∀ state hop, searcher.Sound context state →
      searcher.Offers context state.path hop →
      searcher.Considers context mode state hop)
    (hcompletable : searcher.Completable context path)
    (hyields : searcher.Yields context.problem path amount) :
    ∃ state, expanded state ∧ state.path = path := by
  induction path using List.reverseRecOn generalizing amount with
  | nil => exact ⟨context.rootState, hpass.begins _ (List.mem_singleton_self _), rfl⟩
  | append_singleton path hop ih =>
      obtain ⟨hshorter, hextends, hoffers, hroom⟩ := hcompletable.split
      obtain ⟨before, hbefore, hquote⟩ := yields_append_singleton.mp hyields
      obtain ⟨state, hstate, rfl⟩ := ih hshorter hbefore
      have hsound := hpass.sound state hstate
      obtain ⟨e, record, _, _, _, hout⟩ := hoffers.isHop
      rw [← hsound.yields.unique hbefore] at hquote
      exact ⟨_, hpass.pushed hdom state hstate hop amount record.target
        (hconsiders state hop hsound hoffers) hquote hextends.2.2.1 hroom
        ((hresolved.indexed.linked.node_iff _ _).mpr hout), rfl⟩

/-- With dominance on the extension of an expanded state is covered by a label
of the start or of an expanded state. -/
theorem PassCovers.exists_label (hdom : context.heuristic.prefixDominance = true)
    {state : HeuristicState} (hstate : expanded state)
    (hconsiders : searcher.Considers context mode state hop)
    (hquote : searcher.quoteHop context hop state.amount = .ok amount)
    (hextends : context.Extends searcher.graph state.path hop)
    (hroom : state.path.length + 1 < context.config.maxHops) :
    ∃ next, searcher.Generates context mode state hop next ∧
      next.path = state.path ++ [hop] ∧
      ((∃ label ∈ start.prefixDominance.labelsAt hop.tokenOut,
          label.dominates (searcher.label context next) = true) ∨
        ∃ better, expanded better ∧
          endToken context.tokenIn better.path = hop.tokenOut ∧
          (searcher.label context better).dominates (searcher.label context next) =
            true) := by
  obtain ⟨e, record, _, _, _, hout⟩ := hextends.1.edge
  have hnode := (hresolved.indexed.linked.node_iff _ _).mpr hout
  refine ⟨nextState state record.target ⟨hop, amount⟩,
    ⟨hconsiders, hquote, hextends.2.2.1, hroom, _, hnode, rfl⟩, rfl, ?_⟩
  obtain ⟨label, hlabel, hdominates⟩ := hpass.covered hdom state hstate hop amount
    record.target hconsiders hquote hextends.2.2.1 hroom hnode
  rcases hpass.labels _ label hlabel with hold | ⟨better, hbetter, _, hend, rfl⟩
  · exact Or.inl ⟨label, hold, hdominates⟩
  · exact Or.inr ⟨better, hbetter, hend, hdominates⟩

end Pass

section TwoToken

variable {σ : Type} {onQuote : σ → RouteQuote → σ × Bool}
  {start final : HeuristicRun σ} {expanded : HeuristicState → Prop}
  (htwo : searcher.graph.TwoToken) (hresolved : context.Resolved searcher.graph)
  (hne : context.tokenIn ≠ context.tokenOut)
  (hmono : searcher.MonotoneQuotes context.simConfig)
  (hpass : searcher.PassCovers context onQuote mode 0 [context.rootState] start final expanded)

include htwo hresolved hne hmono hpass

/-- With dominance on every completable prefix is replaced by an expanded one,
unless a label of the start outdoes one of its own prefixes. -/
theorem PassCovers.covers_prefix (hdom : context.heuristic.prefixDominance = true)
    (hcompletable : searcher.Completable context path)
    (hyields : searcher.Yields context.problem path amount)
    (hconsiders : ∀ hop ∈ path, ∀ state, searcher.Sound context state →
      searcher.Offers context state.path hop →
      searcher.Considers context mode state hop) :
    (∃ state, expanded state ∧
        context.Replaces searcher.graph state.path path ∧ amount ≤ state.amount) ∨
      ∃ part before, part <+: path ∧ part ≠ [] ∧
        searcher.Yields context.problem part before ∧
        ∃ label ∈ start.prefixDominance.labelsAt (endToken context.tokenIn part),
          before ≤ label.amount ∧
            label.visitedTokens ⊆ visitedOf context.tokenIn part := by
  induction path using List.reverseRecOn generalizing amount with
  | nil =>
      have hamount := hyields.unique yields_nil
      exact Or.inl ⟨context.rootState, hpass.begins _ (List.mem_singleton_self _),
        HeuristicContext.Replaces.refl hcompletable.1, hamount.le⟩
  | append_singleton path hop ih =>
      obtain ⟨hshorter, hextends, hoffers, hroom⟩ := hcompletable.split
      obtain ⟨before, hbefore, hquote⟩ := yields_append_singleton.mp hyields
      rcases ih hshorter hbefore fun other hother =>
          hconsiders other (List.mem_append_left _ hother) with
        ⟨state, hstate, hreplaces, hle⟩ | ⟨part, amount', hpart, hrest⟩
      · have hsound := hpass.sound state hstate
        have hlength := hreplaces.length_le
        obtain ⟨larger, hlarger, hamount⟩ := quoteHop_mono hmono hoffers.isHop hle hquote
        obtain ⟨next, hgenerates, hpath, hlabel⟩ := hpass.exists_label hresolved hdom
          hstate (hconsiders hop (by simp) state hsound
            (hoffers.replace htwo hresolved hne hreplaces)) hlarger
          (hreplaces.extends htwo hresolved.indexed hextends) (by omega)
        have hnext := hgenerates.sound hresolved hsound
        obtain rfl := Except.ok.inj (hgenerates.quote.symm.trans hlarger)
        have hreplaced := hreplaces.append htwo hresolved.indexed [hop] hcompletable.1
        rcases hlabel with ⟨label, hlabel, hdominates⟩ | ⟨better, hbetter, hend, hdominates⟩
        · obtain ⟨hmore, hvisited, _⟩ := PrefixLabel.dominates_iff.mp hdominates
          have hsub : label.visitedTokens ⊆ visitedOf context.tokenIn next.path := by
            rw [← hnext.visited]
            exact hvisited
          rw [hpath] at hsub
          refine Or.inr ⟨path ++ [hop], amount, List.prefix_refl _, by simp, hyields,
            label, by simpa using hlabel, hamount.trans hmore,
            hsub.trans hreplaced.visited⟩
        · have hbetterSound := hpass.sound better hbetter
          obtain ⟨hmore, hvisited⟩ := (label_dominates_iff htwo hresolved hne hnext
            hbetterSound).mp hdominates
          rw [hpath] at hvisited
          exact Or.inl ⟨better, hbetter, ⟨hbetterSound.isOpen, hcompletable.1,
            by simpa using hend, hvisited.trans hreplaced.visited⟩, hamount.trans hmore⟩
      · exact Or.inr ⟨part, amount', hpart.trans (List.prefix_append _ _), hrest⟩

end TwoToken

end AmmSearcher

/-- A replacement of a completable prefix is completable. -/
theorem HeuristicContext.Replaces.completable {G : Type}
    [StableDiGraph G Address EdgeData] {searcher : AmmSearcher G}
    {context : HeuristicContext} {path other : RoutePath}
    (htwo : searcher.graph.TwoToken) (hindexed : searcher.graph.Indexed)
    (hne : context.tokenIn ≠ context.tokenOut)
    (hreplaces : context.Replaces searcher.graph path other)
    (hcompletable : searcher.Completable context other) :
    searcher.Completable context path := by
  refine ⟨hreplaces.isOpen, (hreplaces.completes htwo hindexed hne hcompletable.2).mono ?_⟩
  have := hreplaces.length_le
  omega

namespace AmmSearcher

variable {G : Type} [StableDiGraph G Address EdgeData] {searcher : AmmSearcher G}
  {context : HeuristicContext} {mode : HeuristicPassMode} {path : RoutePath} {hop : Hop}
  {amount : U256}

section Ancestors

variable {σ : Type} {onQuote : σ → RouteQuote → σ × Bool}
  {start final : HeuristicRun σ} {expanded : HeuristicState → Prop}
  (hpass : searcher.PassCovers context onQuote mode 0 [context.rootState] start final expanded)

include hpass

/-- The prefixes of an expanded path were expanded. -/
theorem PassCovers.expanded_of_isPrefix {state : HeuristicState}
    (hstate : expanded state) {part : RoutePath} (hpart : part <+: state.path) :
    ∃ earlier, expanded earlier ∧ earlier.path = part := by
  induction hlength : state.path.length generalizing state with
  | zero =>
      rw [List.length_eq_zero_iff] at hlength
      rw [hlength, List.prefix_nil] at hpart
      exact ⟨state, hstate, hlength.trans hpart.symm⟩
  | succ length ih =>
      rcases hpass.parent state hstate with hroot | ⟨parent, hparent, hop, hpath, _⟩
      · obtain rfl := List.mem_singleton.mp hroot
        cases hlength
      · rw [hpath] at hpart hlength
        rw [List.length_append, List.length_singleton] at hlength
        rcases List.prefix_concat_iff.mp hpart with rfl | hshorter
        · exact ⟨state, hstate, hpath⟩
        · exact ih hparent hshorter (by omega)

/-- An expanded path can be completed. -/
theorem PassCovers.completable (hresolved : context.Resolved searcher.graph)
    {state : HeuristicState} (hstate : expanded state) (hpath : state.path ≠ []) :
    searcher.Completable context state.path := by
  refine ⟨(hpass.sound state hstate).isOpen, ?_⟩
  rcases hpass.parent state hstate with hroot | ⟨parent, hparent, hop, heq, hconsiders⟩
  · obtain rfl := List.mem_singleton.mp hroot
    exact absurd rfl hpath
  · have hopen := (hpass.sound state hstate).isOpen
    rw [heq] at hopen ⊢
    rw [List.length_append, List.length_singleton]
    rcases (mem_offeredHops hresolved (hpass.sound parent hparent) hop).mp
      hconsiders.offered with hcloses | ⟨_, hcompletes⟩
    · exact absurd hcloses.2.1
        (HeuristicContext.isOpen_append_singleton.mp hopen).2.2.2.1
    · exact hcompletes

end Ancestors

section Fresh

variable {σ : Type} {onQuote : σ → RouteQuote → σ × Bool}
  {start final : HeuristicRun σ} {expanded : HeuristicState → Prop}
  (hresolved : context.Resolved searcher.graph)
  (hne : context.tokenIn ≠ context.tokenOut)
  (hdom : context.heuristic.prefixDominance = true)
  (hstart : start.prefixDominance = .empty)
  (hshort : context.heuristic.edgeShortlist.enabled = false)
  (hpass : searcher.PassCovers context onQuote mode 0 [context.rootState] start final expanded)

include hresolved hne hdom hstart hshort hpass

omit hne hdom hstart in
theorem PassCovers.considers {state : HeuristicState} (hstate : expanded state)
    (hoffers : searcher.Offers context state.path hop) :
    searcher.Considers context mode state hop :=
  considers_of_offered hshort
    ((mem_offeredHops hresolved (hpass.sound state hstate) hop).mpr hoffers)

section Shorter

variable (htwo : searcher.graph.TwoToken)
  (hmono : searcher.MonotoneQuotes context.simConfig)

include htwo hmono

/-- A route none of whose prefixes a shorter one outdoes is matched by a quote
of the pass. -/
theorem PassCovers.quote_of_not_outdone
    (hallow : context.allowFinalSourceRevisit = false)
    (hsound : searcher.SoundQuotes context final.quotes)
    (hroute : searcher.QuotedRoute context.problem path amount) (hpath : path ≠ [])
    (hlonger : ¬ searcher.OutdoneByShorter context.problem path) :
    ∃ quote ∈ final.quotes, amount ≤ quote.amountOut := by
  obtain ⟨part, hop, rfl⟩ := List.eq_nil_or_concat' path |>.resolve_left hpath
  have hisRoute := (isRoute_iff hallow).mpr hroute.isRoute
  obtain ⟨hcompletable, hoffers⟩ := completable_of_isRoute hisRoute
  obtain ⟨hopen, hcloses, hmin, _⟩ :=
    HeuristicContext.isRoute_effective_append_singleton.mp hisRoute
  obtain ⟨before, hbefore, hquote⟩ := yields_append_singleton.mp hroute.yields
  rcases hpass.covers_prefix htwo hresolved hne hmono hdom hcompletable hbefore
      fun hop _ state hstate hoffers => considers_of_offered hshort
        ((mem_offeredHops hresolved hstate hop).mpr hoffers) with
    ⟨state, hstate, hreplaces, hle⟩ | ⟨_, _, _, _, _, label, hlabel, _⟩
  · have hstateSound := hpass.sound state hstate
    have hlength : part.length ≤ state.path.length := by
      by_contra hshorter
      apply hlonger
      have hpart : part ≠ [] := by
        rintro rfl
        exact hshorter (Nat.zero_le _)
      exact ⟨part, before, state.path, state.amount, List.prefix_append _ _, by simp,
        ⟨isOpen_iff.mp hopen, hpart, hbefore⟩,
        hstateSound.quotedPrefix (hreplaces.ne_nil hpart),
        ⟨hreplaces.token, hreplaces.visited, hle⟩, Nat.not_le.mp hshorter⟩
    obtain ⟨larger, hlarger, hamount⟩ := quoteHop_mono hmono hoffers.isHop hle hquote
    obtain ⟨quote, hmem, _, hout⟩ := hpass.exists_quote hsound hstate
      (hpass.considers hresolved hshort hstate
        (hoffers.replace htwo hresolved hne hreplaces)) hlarger hcloses.2.1 (by omega)
    exact ⟨quote, hmem, hout ▸ hamount⟩
  · rw [hstart, PrefixDominanceIndex.labelsAt_empty] at hlabel
    cases hlabel

/-- A shorter prefix that outdoes an expanded one would have displaced it. -/
theorem PassCovers.not_outdoneByShorter {state : HeuristicState}
    (hstate : expanded state) (hop : Hop) :
    ¬ searcher.OutdoneByShorter context.problem (state.path ++ [hop]) := by
  rintro ⟨part, amount, other, amount', hpre, hproper, hpart, hother, houtdoes, hlength⟩
  have hshorter : part <+: state.path :=
    (List.prefix_concat_iff.mp hpre).resolve_left hproper
  obtain ⟨earlier, hearlier, rfl⟩ := hpass.expanded_of_isPrefix hstate hshorter
  have hearlierSound := hpass.sound earlier hearlier
  have hopen := isOpen_iff.mpr hother.isPrefix
  have hreplaces : context.Replaces searcher.graph other earlier.path :=
    ⟨hopen, hearlierSound.isOpen, houtdoes.token, houtdoes.visited⟩
  have hcompletable := hreplaces.completable htwo hresolved.indexed hne
    (hpass.completable hresolved hearlier hpart.nonempty)
  rcases hpass.covers_prefix htwo hresolved hne hmono hdom hcompletable hother.yields
      fun hop _ state hstate hoffers => considers_of_offered hshort
        ((mem_offeredHops hresolved hstate hop).mpr hoffers) with
    ⟨better, hbetter, hcovers, hle⟩ | ⟨_, _, _, _, _, label, hlabel, _⟩
  · have hbetterSound := hpass.sound better hbetter
    have hroot : earlier ∉ [context.rootState] := by
      intro hmem
      obtain rfl := List.mem_singleton.mp hmem
      exact hpart.nonempty rfl
    have hearlierAmount := hearlierSound.yields.unique hpart.yields
    have hdominates : (searcher.label context better).dominates
        (searcher.label context earlier) = true := by
      refine (label_dominates_iff htwo hresolved hne hearlierSound hbetterSound).mpr
        ⟨?_, hcovers.visited.trans houtdoes.visited⟩
      rw [hearlierAmount]
      exact houtdoes.amount_le.trans hle
    have hfree := hpass.order hdom earlier hearlier hroot better hbetter
      (hcovers.ne_nil hother.nonempty)
      (hcovers.length_le.trans_lt hlength) (hcovers.token.trans houtdoes.token)
    rw [hdominates] at hfree
    cases hfree
  · rw [hstart, PrefixDominanceIndex.labelsAt_empty] at hlabel
    cases hlabel

end Shorter

end Fresh

end AmmSearcher

/-- The request in heuristic mode with prefix dominance switched on or off. -/
def RouteRequest.withDominance (request : RouteRequest)
    (heuristic : HeuristicSearchConfig) (enabled : Bool) : RouteRequest :=
  { request with
    config :=
      { request.config with
        mode := .heuristic { heuristic with prefixDominance := enabled } } }

namespace AmmSearcher

variable {G : Type} [StableDiGraph G Address EdgeData] (searcher : AmmSearcher G)
  (request : RouteRequest) (heuristic : HeuristicSearchConfig)

/-- Nothing but prefix dominance cuts the search. -/
structure ApproximationsOff : Prop where
  candidates : request.config.maxCandidates = none
  beam : heuristic.beamWidth = none
  edges : searcher.graph.maxOutDegree ≤ heuristic.parallelEdgeLimit
  shortlist : heuristic.edgeShortlist.enabled = false
  liquidity : request.config.liquidityPruning.enabled = false
  upperBound : heuristic.upperBoundPruning.enabled = false

/-- The context of the search with prefix dominance switched on or off. -/
def dominanceContext (enabled : Bool) (source target : NodeIndex) : HeuristicContext :=
  searcher.requestContext (request.withDominance heuristic enabled)
    { heuristic with prefixDominance := enabled } source target

/-- A search without approximations as one covering pass. -/
structure DominancePass (enabled : Bool) (source target : NodeIndex)
    (start final : HeuristicRun Unit) (expanded : HeuristicState → Prop) : Prop where
  resolved : (searcher.dominanceContext request heuristic enabled source target).Resolved
    searcher.graph
  covers : searcher.PassCovers
    (searcher.dominanceContext request heuristic enabled source target)
    (fun _ _ => ((), true)) .initial 0
    [(searcher.dominanceContext request heuristic enabled source target).rootState] start
    final expanded
  index : start.prefixDominance = .empty
  lane : ∀ path amount, searcher.FastLanePath
      (searcher.dominanceContext request heuristic enabled source target) path →
    searcher.Yields (searcher.routeProblem request heuristic) path amount →
      ∃ quote ∈ start.quotes, quote.path = path
  laneOrigin : ∀ quote ∈ start.quotes, searcher.FastLanePath
    (searcher.dominanceContext request heuristic enabled source target) quote.path
  sound : searcher.SoundQuotes
    (searcher.dominanceContext request heuristic enabled source target) final.quotes
  returns : Returns (searcher.findRoutes (request.withDominance heuristic enabled)) final

variable {searcher request heuristic} {source target : NodeIndex}

theorem exists_dominancePass (hindexed : searcher.graph.Indexed)
    (hvalid : (request.withDominance heuristic true).config.validate = .ok ())
    (hoff : searcher.ApproximationsOff request heuristic)
    (hne : request.tokenIn ≠ request.tokenOut)
    (hsource : searcher.graph.nodeIndex request.tokenIn = some source)
    (htarget : searcher.graph.nodeIndex request.tokenOut = some target)
    (enabled : Bool) :
    ∃ start final expanded, searcher.DominancePass request heuristic enabled source
      target start final expanded := by
  -- validation does not look at the switch
  have hvalid : (request.withDominance heuristic enabled).config.validate = .ok () :=
    hvalid
  obtain ⟨hmin, hmax⟩ := SearchConfig.hops_of_validate hvalid
  have hresolved : (searcher.dominanceContext request heuristic enabled source
      target).Resolved searcher.graph := ⟨hindexed, hsource, htarget⟩
  have huncut : searcher.Uncut
      (searcher.dominanceContext request heuristic enabled source target) :=
    ⟨hoff.candidates, hoff.beam, hoff.liquidity, hoff.upperBound, fun _ => hoff.edges,
      fun hshort => absurd (hoff.shortlist.symm.trans hshort) Bool.false_ne_true⟩
  have hlane := @fastLaneRun_runFastLane G _ searcher
    (searcher.dominanceContext request heuristic enabled source target) Unit
    (fun _ _ => ((), true)) hoff.candidates (fun _ _ => rfl) ()
  have hroundTrip : ¬ searcher.QuotedRoundTrip (request.withDominance heuristic enabled)
      { heuristic with prefixDominance := enabled } := fun hround => hne hround.1
  obtain ⟨⟨expanded, hpass⟩, hsound⟩ := finalRun_singlePass hresolved huncut
    (show 0 < request.config.maxHops by exact hmin.trans hmax) (fun _ _ => rfl)
    hoff.shortlist
    (soundRun_requestContext hresolved hroundTrip (fun _ _ => ((), true)) ())
  refine ⟨_, _, expanded, hresolved, hpass, hlane.index, ?_, ?_, hsound,
    returns_findRoutes rfl hvalid hsource htarget hoff.candidates hpass.stopped
      (hsound.traced hmin)⟩
  · rintro path amount hpath ⟨_, htrace⟩
    exact hlane.quoted path ((hlane.evaluated path).mpr hpath) _ htrace
  · intro quote hquote
    exact (hlane.evaluated _).mp (hlane.origin quote hquote)

theorem withDominance_mode (enabled : Bool) :
    (request.withDominance heuristic enabled).config.mode =
      .heuristic { heuristic with prefixDominance := enabled } := rfl

theorem QuotedRoute.ne_nil {problem : RouteProblem} {path : RoutePath} {amount : U256}
    (hmin : 1 ≤ problem.minHops) (hroute : searcher.QuotedRoute problem path amount) :
    path ≠ [] := by
  rintro rfl
  exact absurd (hmin.trans hroute.isRoute.minHops) (by simp)

/-- The ends of a route are tokens of the graph. -/
theorem QuotedRoute.exists_nodes (hindexed : searcher.graph.Indexed)
    {problem : RouteProblem} {path : RoutePath} {amount : U256}
    (hmin : 1 ≤ problem.minHops) (hroute : searcher.QuotedRoute problem path amount) :
    (∃ source, searcher.graph.nodeIndex problem.tokenIn = some source) ∧
      ∃ target, searcher.graph.nodeIndex problem.tokenOut = some target := by
  have hpath := hroute.ne_nil hmin
  have hconnects := hroute.isRoute.connects
  constructor
  · cases path with
    | nil => exact absurd rfl hpath
    | cons hop rest =>
        obtain ⟨e, record, _, _, hin, _⟩ := hroute.isRoute.edges hop List.mem_cons_self
        rw [hconnects.1] at hin
        exact ⟨_, (hindexed.linked.node_iff _ _).mpr hin⟩
  · obtain ⟨front, hop, rfl⟩ := List.eq_nil_or_concat' path |>.resolve_left hpath
    obtain ⟨e, record, _, _, _, hout⟩ := hroute.isRoute.edges hop (by simp)
    rw [(connects_append_singleton.mp hconnects).2] at hout
    exact ⟨_, (hindexed.linked.node_iff _ _).mpr hout⟩

section Passes

variable {enabled : Bool} {start final : HeuristicRun Unit}
  {expanded : HeuristicState → Prop}

/-- Everything found is a route that can be quoted. -/
theorem DominancePass.quotedRoute
    (hpass : searcher.DominancePass request heuristic enabled source target start final
      expanded) {quote : RouteQuote} (hquote : quote ∈ final.quotes) :
    searcher.QuotedRoute (searcher.routeProblem request heuristic) quote.path
      quote.amountOut :=
  ⟨(isRoute_iff rfl).mp (hpass.sound.2 quote hquote).isRoute,
    (hpass.sound.2 quote hquote).yields⟩

/-- With dominance off every route that can be quoted is found. -/
theorem DominancePass.exists_quote_of_route
    (hshort : heuristic.edgeShortlist.enabled = false)
    (hmin : 1 ≤ request.config.minHops)
    (hpass : searcher.DominancePass request heuristic false source target start final
      expanded) {path : RoutePath} {amount : U256}
    (hroute : searcher.QuotedRoute (searcher.routeProblem request heuristic) path amount) :
    ∃ quote ∈ final.quotes, quote.amountOut = amount := by
  obtain ⟨front, hop, rfl⟩ :=
    List.eq_nil_or_concat' path |>.resolve_left (hroute.ne_nil hmin)
  have hisRoute := (@isRoute_iff G _ searcher _
    (searcher.dominanceContext request heuristic false source target) rfl).mpr
    hroute.isRoute
  obtain ⟨hcompletable, hoffers⟩ := completable_of_isRoute hisRoute
  obtain ⟨_, hcloses, hbound, _⟩ :=
    HeuristicContext.isRoute_effective_append_singleton.mp hisRoute
  obtain ⟨before, hbefore, hquote⟩ := yields_append_singleton.mp hroute.yields
  obtain ⟨state, hstate, rfl⟩ := hpass.covers.expands hpass.resolved rfl
    (fun state hop hstate hoffers => considers_of_offered hshort
      ((mem_offeredHops hpass.resolved hstate hop).mpr hoffers)) hcompletable hbefore
  rw [← (hpass.covers.sound state hstate).yields.unique hbefore] at hquote
  obtain ⟨quote, hmem, _, hout⟩ := hpass.covers.exists_quote hpass.sound hstate
    (considers_of_offered hshort ((mem_offeredHops hpass.resolved
      (hpass.covers.sound state hstate) hop).mpr hoffers)) hquote hcloses.2.1 hbound
  exact ⟨quote, hmem, hout⟩

/-- A quote that matches the best route is the best quote. -/
theorem DominancePass.bestOf_eq
    (hpass : searcher.DominancePass request heuristic enabled source target start final
      expanded) {path : RoutePath} {amount : U256}
    (hbest : searcher.BestRoute (searcher.routeProblem request heuristic) path amount)
    (hfound : ∃ quote ∈ final.quotes, amount ≤ quote.amountOut) :
    bestOf final.quotes = some amount := by
  have hbound : ∀ quote ∈ final.quotes, quote.amountOut ≤ amount := fun quote hquote =>
    hbest.2 _ _ (hpass.quotedRoute hquote)
  obtain ⟨quote, hquote, hle⟩ := hfound
  exact bestOf_eq_some.mpr
    ⟨⟨quote, hquote, le_antisymm (hbound quote hquote) hle⟩, hbound⟩

end Passes

/-- With prefix dominance the search succeeds whenever it does without, and its
best amount is the same. -/
def DominanceKeepsBest (searcher : AmmSearcher G) (request : RouteRequest)
    (heuristic : HeuristicSearchConfig) : Prop :=
  ∀ quotes, searcher.findRoutes (request.withDominance heuristic false) = .ok quotes →
    ∃ quotes', searcher.findRoutes (request.withDominance heuristic true) = .ok quotes' ∧
      bestOf quotes' = bestOf quotes

section Requests

variable (hindexed : searcher.graph.Indexed)
  (hvalid : (request.withDominance heuristic true).config.validate = .ok ())
  (hoff : searcher.ApproximationsOff request heuristic)
  (hne : request.tokenIn ≠ request.tokenOut)

include hindexed hvalid hoff hne

/-- A search that succeeds found a route that can be quoted. -/
theorem exists_quotedRoute_of_findRoutes {enabled : Bool} {quotes : List RouteQuote}
    (hok : searcher.findRoutes (request.withDominance heuristic enabled) = .ok quotes) :
    ∃ path amount,
      searcher.QuotedRoute (searcher.routeProblem request heuristic) path amount := by
  have hvalid' : (request.withDominance heuristic enabled).config.validate = .ok () :=
    hvalid
  obtain ⟨⟨source, hsource⟩, target, htarget⟩ :=
    exists_nodes_of_findRoutes (withDominance_mode enabled) hvalid' hok
  obtain ⟨start, final, expanded, hpass⟩ := exists_dominancePass hindexed hvalid hoff hne
    hsource htarget enabled
  obtain ⟨quote, hquote⟩ :=
    List.exists_mem_of_ne_nil _ (hpass.returns.nonempty quotes hok)
  exact ⟨_, _, hpass.quotedRoute hquote⟩

/-- The two searches of a request that has a route, and its best route. -/
theorem exists_passes_of_quotedRoute {path : RoutePath} {amount : U256}
    (hroute : searcher.QuotedRoute (searcher.routeProblem request heuristic) path amount) :
    ∃ source target startOn on expandedOn startOff off expandedOff best bestAmount,
      searcher.DominancePass request heuristic true source target startOn on expandedOn ∧
      searcher.DominancePass request heuristic false source target startOff off
        expandedOff ∧
      searcher.BestRoute (searcher.routeProblem request heuristic) best bestAmount ∧
      bestOf off.quotes = some bestAmount := by
  have hmin : 1 ≤ request.config.minHops := (SearchConfig.hops_of_validate hvalid).1
  obtain ⟨⟨source, hsource⟩, target, htarget⟩ := hroute.exists_nodes hindexed hmin
  obtain ⟨startOn, on, expandedOn, hon⟩ := exists_dominancePass hindexed hvalid hoff hne
    hsource htarget true
  obtain ⟨startOff, off, expandedOff, hoffPass⟩ := exists_dominancePass hindexed hvalid
    hoff hne hsource htarget false
  obtain ⟨found, hfound, _⟩ := hoffPass.exists_quote_of_route hoff.shortlist hmin hroute
  obtain ⟨bestAmount, hbest⟩ : ∃ bestAmount, bestOf off.quotes = some bestAmount := by
    cases hbest : bestOf off.quotes with
    | none => exact absurd (bestOf_eq_none.mp hbest) (List.ne_nil_of_mem hfound)
    | some bestAmount => exact ⟨bestAmount, rfl⟩
  obtain ⟨⟨quote, hquote, rfl⟩, hbound⟩ := bestOf_eq_some.mp hbest
  refine ⟨source, target, startOn, on, expandedOn, startOff, off, expandedOff, quote.path,
    quote.amountOut, hon, hoffPass, ⟨hoffPass.quotedRoute hquote, ?_⟩, hbest⟩
  intro other amount' hother
  obtain ⟨quote', hquote', rfl⟩ :=
    hoffPass.exists_quote_of_route hoff.shortlist hmin hother
  exact hbound quote' hquote'

/-- The best amount is kept when the search with dominance has a quote of the
best amount. -/
theorem dominanceKeepsBest_of_found
    (hfound : ∀ source target start final expanded,
      searcher.DominancePass request heuristic true source target start final expanded →
      ∀ best bestAmount,
      searcher.BestRoute (searcher.routeProblem request heuristic) best bestAmount →
      ∃ quote ∈ final.quotes, bestAmount ≤ quote.amountOut) :
    searcher.DominanceKeepsBest request heuristic := by
  intro quotes hok
  obtain ⟨path, amount, hroute⟩ :=
    exists_quotedRoute_of_findRoutes hindexed hvalid hoff hne hok
  obtain ⟨source, target, startOn, on, expandedOn, startOff, off, expandedOff, best,
    bestAmount, hon, hoffPass, hbest, hbestOff⟩ :=
    exists_passes_of_quotedRoute hindexed hvalid hoff hne hroute
  have hquote := hfound source target startOn on expandedOn hon best bestAmount hbest
  have hbestOn := hon.bestOf_eq hbest hquote
  obtain ⟨quote, hmem, _⟩ := hquote
  obtain ⟨quotes', hok', hsame⟩ := hon.returns.exists_ok (List.ne_nil_of_mem hmem)
  refine ⟨quotes', hok', ?_⟩
  have hreturned := hoffPass.returns.best
  rw [hok] at hreturned
  exact (hsame.trans hbestOn).trans (hbestOff.symm.trans hreturned.symm)

/-- Keeping the best amount makes the two best amounts equal. -/
theorem DominanceKeepsBest.bestAmountOut_eq
    (hkeeps : searcher.DominanceKeepsBest request heuristic) :
    bestAmountOut (searcher.findRoutes (request.withDominance heuristic true)) =
      bestAmountOut (searcher.findRoutes (request.withDominance heuristic false)) := by
  cases hoffResult : searcher.findRoutes (request.withDominance heuristic false) with
  | ok quotes =>
      obtain ⟨quotes', hok, hsame⟩ := hkeeps quotes hoffResult
      rw [hok]
      exact hsame
  | error error =>
      cases honResult : searcher.findRoutes (request.withDominance heuristic true) with
      | error error => rfl
      | ok quotes =>
          -- a route found with dominance is found without
          obtain ⟨path, amount, hroute⟩ :=
            exists_quotedRoute_of_findRoutes hindexed hvalid hoff hne honResult
          obtain ⟨_, _, _, _, _, _, off, _, _, _, _, hoffPass, _, hbestOff⟩ :=
            exists_passes_of_quotedRoute hindexed hvalid hoff hne hroute
          have hreturned := hoffPass.returns.best
          rw [hoffResult, hbestOff] at hreturned
          cases hreturned

end Requests

/-- Over two-token pools prefix dominance keeps the best amount exactly when
there is no route, or when some best route has no prefix that a shorter one
outdoes. -/
theorem dominanceKeepsBest_iff (hbuilt : searcher.graph.Built)
    (hvalid : (request.withDominance heuristic true).config.validate = .ok ())
    (hoff : searcher.ApproximationsOff request heuristic)
    (hne : request.tokenIn ≠ request.tokenOut) (htwo : searcher.graph.TwoToken)
    (hmono : searcher.MonotoneQuotes request.simConfig) :
    searcher.DominanceKeepsBest request heuristic ↔
      (∀ path amount,
        ¬ searcher.QuotedRoute (searcher.routeProblem request heuristic) path amount) ∨
      ∃ path amount,
        searcher.BestRoute (searcher.routeProblem request heuristic) path amount ∧
        ¬ searcher.OutdoneByShorter (searcher.routeProblem request heuristic) path := by
  have hindexed := hbuilt.indexed
  have hmin := (SearchConfig.hops_of_validate hvalid).1
  constructor
  · intro hkeeps
    by_cases hsome : ∃ path amount,
      searcher.QuotedRoute (searcher.routeProblem request heuristic) path amount
    · obtain ⟨path, amount, hroute⟩ := hsome
      obtain ⟨source, target, startOn, on, expandedOn, startOff, off, expandedOff, best,
        bestAmount, hon, hoffPass, hbest, hbestOff⟩ :=
        exists_passes_of_quotedRoute hindexed hvalid hoff hne hroute
      have hsomeOff : off.quotes ≠ [] := by
        intro hempty
        rw [bestOf_eq_none.mpr hempty] at hbestOff
        cases hbestOff
      obtain ⟨quotes, hok, hsame⟩ := hoffPass.returns.exists_ok hsomeOff
      obtain ⟨quotes', hok', hsame'⟩ := hkeeps quotes hok
      have hreturned := hon.returns.best
      rw [hok'] at hreturned
      have hbestOn : bestOf on.quotes = some bestAmount :=
        hreturned.symm.trans (hsame'.trans (hsame.trans hbestOff))
      obtain ⟨⟨quote, hquote, rfl⟩, _⟩ := bestOf_eq_some.mp hbestOn
      refine Or.inr ⟨quote.path, quote.amountOut, ⟨hon.quotedRoute hquote, hbest.2⟩, ?_⟩
      rcases hon.covers.origin quote hquote with hlane | ⟨state, hstate, hop, hpath, _⟩
      · -- a fast-lane path has prefixes of one hop only
        rintro ⟨part, _, other, _, hpre, hproper, _, hother, _, hshorter⟩
        have hlength := length_le_two_of_mem_fastLanePaths (hon.laneOrigin quote hlane).2
        have hpart := List.IsPrefix.length_le hpre
        have hnonempty := List.length_pos_of_ne_nil hother.nonempty
        have hne : part.length ≠ quote.path.length := fun heq =>
          hproper (hpre.eq_of_length heq)
        omega
      · rw [hpath]
        exact hon.covers.not_outdoneByShorter hon.resolved hne rfl hon.index
          hoff.shortlist htwo hmono hstate hop
    · refine Or.inl fun path amount hroute => hsome ⟨path, amount, hroute⟩
  · intro hcase
    refine dominanceKeepsBest_of_found hindexed hvalid hoff hne ?_
    intro source target start final expanded hpass best bestAmount hbest
    rcases hcase with hnone | ⟨path, amount, hother, hlonger⟩
    · exact absurd hbest.1 (hnone best bestAmount)
    · obtain ⟨quote, hquote, hle⟩ := hpass.covers.quote_of_not_outdone hpass.resolved hne
        rfl hpass.index hoff.shortlist htwo hmono rfl hpass.sound hother.1
        (hother.1.ne_nil hmin) hlonger
      exact ⟨quote, hquote, (hother.2 best bestAmount hbest.1).trans hle⟩

end AmmSearcher

namespace CappedExample

/-- A quoter that passes its input on up to a cap. -/
def adapter (cap : PoolKey → Address → Address → U256) : Adapter :=
  ⟨fun pool tokenIn tokenOut amount _ => .ok (min amount (cap pool.key tokenIn tokenOut))⟩

def registry (cap : PoolKey → Address → Address → U256) (pools : List PoolRegistration)
    (nodup_keys : (pools.map PoolRegistration.key).Nodup) : AdapterRegistry where
  pools := pools
  adapter := fun _ => some (adapter cap)
  nodup_keys := nodup_keys

/-- Tokens print as their numbers. -/
def debug : DebugText :=
  { RoundTripExample.debug with address := fun token => Nat.toDigits 10 token.val }

def searcher (registry : AdapterRegistry) : AmmSearcher (SlotGraph Address EdgeData) where
  registry := registry
  graph := (AmmGraph.fromRegistry 1 registry {}).graph
  liquidityIndex := none
  quoteContext := .static
  debug := debug
  groupOrder := fun _ _ groups => groups
  groupOrder_perm := fun _ _ groups => List.Perm.refl groups

/-- Every approximation is off. -/
def heuristic : HeuristicSearchConfig :=
  { beamWidth := none
    parallelEdgeLimit := usizeMax
    maxFinalists := usizeMax
    upperBoundPruning := { enabled := false } }

def request (tokenOut : Address) (connectors : Finset Address) (minHops maxHops : ℕ) :
    RouteRequest where
  tokenIn := 1
  tokenOut := tokenOut
  amountIn := 100
  config :=
    { minHops := minHops, maxHops := maxHops, connectorTokens := some connectors }
  simConfig := ⟨0, 0, 0⟩

theorem quoteHop_eq {cap : PoolKey → Address → Address → U256}
    {pools : List PoolRegistration} {hnodup : (pools.map PoolRegistration.key).Nodup}
    {simConfig : SimConfig} {hop : Hop} {amount amountOut : U256}
    (hquote : ((searcher (registry cap pools hnodup)).quoteEnv simConfig).quoteHop
      (searcher (registry cap pools hnodup)).quoteContext hop amount = .ok amountOut) :
    ∃ limit, ∀ other, ((searcher (registry cap pools hnodup)).quoteEnv
      simConfig).quoteHop (searcher (registry cap pools hnodup)).quoteContext hop other =
        .ok (min other limit) := by
  simp only [AmmSearcher.quoteEnv, searcher, QuoteEnv.quoteHop, QuoteEnv.quoteKey,
    QuoteKeyContext.poolScope, QuoteEnv.quoteHopUncached, QuoteEnv.simulateHop] at hquote ⊢
  cases hpool : (registry cap pools hnodup).pool hop.pool with
  | none =>
      rw [hpool] at hquote
      cases hquote
  | some pool => exact ⟨cap pool.key hop.tokenIn hop.tokenOut, fun _ => rfl⟩

theorem monotoneQuotes (cap : PoolKey → Address → Address → U256)
    (pools : List PoolRegistration) (hnodup : (pools.map PoolRegistration.key).Nodup)
    (simConfig : SimConfig) :
    (searcher (registry cap pools hnodup)).MonotoneQuotes simConfig := by
  intro hop _ amount larger amountOut hle hquote
  obtain ⟨limit, hlimit⟩ := quoteHop_eq hquote
  obtain rfl := Except.ok.inj ((hlimit amount).symm.trans hquote)
  exact ⟨_, hlimit larger, min_le_min_right limit hle⟩

/-- A capped path never yields more than its input. -/
theorem le_amountIn_of_yields {cap : PoolKey → Address → Address → U256}
    {pools : List PoolRegistration} {hnodup : (pools.map PoolRegistration.key).Nodup}
    {problem : RouteProblem} {path : RoutePath} {amount : U256}
    (hyields : (searcher (registry cap pools hnodup)).Yields problem path amount) :
    amount ≤ problem.amountIn := by
  induction path using List.reverseRecOn generalizing amount with
  | nil => exact (hyields.unique AmmSearcher.yields_nil).le
  | append_singleton path hop ih =>
      obtain ⟨before, hbefore, hquote⟩ := AmmSearcher.yields_append_singleton.mp hyields
      obtain ⟨limit, hlimit⟩ := quoteHop_eq hquote
      obtain rfl := Except.ok.inj ((hlimit before).symm.trans hquote)
      exact (min_le_left before limit).trans (ih hbefore)

theorem twoToken (registry : AdapterRegistry)
    (hpools : ∀ pool ∈ registry.pools,
      (indexedTokens pool {}).toOption.all (fun tokens => tokens.length = 2) = true) :
    (searcher registry).graph.TwoToken := by
  intro key tokens htokens
  have hlookup := (@AmmGraph.fromRegistry_spec (SlotGraph Address EdgeData) _ 1 registry
    {}).2.2.2 key
  obtain ⟨pool, hpool, hindexed⟩ :=
    Option.bind_eq_some_iff.mp (hlookup.symm.trans htokens)
  have hlength := hpools pool ((registry.pool_eq_some_iff key pool).mp hpool).1
  simpa [hindexed] using hlength

theorem approximationsOff {registry : AdapterRegistry} {tokenOut : Address}
    {connectors : Finset Address} {minHops maxHops : ℕ}
    (hedges : (searcher registry).graph.maxOutDegree ≤ usizeMax) :
    (searcher registry).ApproximationsOff (request tokenOut connectors minHops maxHops)
      heuristic :=
  ⟨rfl, rfl, hedges, rfl, rfl, rfl⟩

end CappedExample

namespace MinHopsExample

open CappedExample

/-- A direct way and a detour from `1` to `3`, and one pool on to `4`. -/
def detour : AdapterRegistry :=
  registry (fun _ _ _ => 1000)
    [TwoPoolExample.pool ['a'] 1 2, TwoPoolExample.pool ['b'] 2 3,
      TwoPoolExample.pool ['c'] 1 3, TwoPoolExample.pool ['d'] 3 4] (by decide)

theorem twoToken_detour : (searcher detour).graph.TwoToken :=
  twoToken detour (by decide)

theorem approximationsOff_detour (minHops maxHops : ℕ) :
    (searcher detour).ApproximationsOff (request 4 {2, 3} minHops maxHops) heuristic :=
  approximationsOff (by decide +kernel)

/-- With a minimum of two hops the direct way stays open. -/
theorem dominanceKeepsBest_two_hops :
    (request 4 {2, 3} 2 3).tokenIn ≠ (request 4 {2, 3} 2 3).tokenOut ∧
      (searcher detour).graph.TwoToken ∧
      ∃ path amount,
        (searcher detour).BestRoute ((searcher detour).routeProblem
          (request 4 {2, 3} 2 3) heuristic) path amount ∧
        ¬ (searcher detour).OutdoneByShorter ((searcher detour).routeProblem
          (request 4 {2, 3} 2 3) heuristic) path := by
  have hne : (request 4 {2, 3} 2 3).tokenIn ≠ (request 4 {2, 3} 2 3).tokenOut := by decide
  have hok : (searcher detour).findRoutes
      ((request 4 {2, 3} 2 3).withDominance heuristic false) = .ok
        (((searcher detour).findRoutes
          ((request 4 {2, 3} 2 3).withDominance heuristic false)).toOption.getD []) := by
    decide +kernel
  have hkeeps : (searcher detour).DominanceKeepsBest (request 4 {2, 3} 2 3) heuristic := by
    intro quotes hquotes
    refine ⟨((searcher detour).findRoutes
      ((request 4 {2, 3} 2 3).withDominance heuristic true)).toOption.getD [], ?_, ?_⟩
    · decide +kernel
    · rw [← Except.ok.inj (hok.symm.trans hquotes)]
      decide +kernel
  refine ⟨hne, twoToken_detour, ?_⟩
  rcases (AmmSearcher.dominanceKeepsBest_iff (.fromRegistry 1 detour {}) (by rfl)
    (approximationsOff_detour 2 3) hne twoToken_detour
    (monotoneQuotes _ _ _ _)).mp hkeeps with hnone | hbest
  · obtain ⟨path, amount, hroute⟩ := AmmSearcher.exists_quotedRoute_of_findRoutes
      (AmmGraph.Built.fromRegistry 1 detour {}).indexed (by rfl)
      (approximationsOff_detour 2 3) hne hok
    exact absurd hroute (hnone path amount)
  · exact hbest

/-- With a minimum of three hops only the detour remains, and the direct way
displaces it. -/
theorem not_dominanceKeepsBest_three_hops :
    (searcher detour).graph.Built ∧
      ((request 4 {2, 3} 3 3).withDominance heuristic true).config.validate = .ok () ∧
      (searcher detour).ApproximationsOff (request 4 {2, 3} 3 3) heuristic ∧
      (request 4 {2, 3} 3 3).tokenIn ≠ (request 4 {2, 3} 3 3).tokenOut ∧
      (searcher detour).graph.TwoToken ∧
      (searcher detour).MonotoneQuotes (request 4 {2, 3} 3 3).simConfig ∧
      ¬ (searcher detour).DominanceKeepsBest (request 4 {2, 3} 3 3) heuristic := by
  refine ⟨.fromRegistry 1 detour {}, by rfl, approximationsOff_detour 3 3, by decide,
    twoToken_detour, monotoneQuotes _ _ _ _, ?_⟩
  intro hkeeps
  obtain ⟨quotes, hquotes, _⟩ := hkeeps (((searcher detour).findRoutes
    ((request 4 {2, 3} 3 3).withDominance heuristic false)).toOption.getD [])
    (by decide +kernel)
  have hfails : ((searcher detour).findRoutes
      ((request 4 {2, 3} 3 3).withDominance heuristic true)).toOption = none := by
    decide +kernel
  rw [hquotes] at hfails
  cases hfails

end MinHopsExample

end AmmSearch
