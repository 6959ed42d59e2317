/-
Routes over pools with two tokens.  There a pool is fresh whenever the token
it leads to is, so a prefix through fewer tokens can take over every
completion of a prefix to the same token.
-/
import AmmSearch.HeuristicExpansion
import AmmSearch.PrefixDominance

open FiniteMap StableGraph

namespace AmmSearch

variable {G : Type} [StableDiGraph G Address EdgeData]

/-- Every indexed pool has two tokens. -/
def AmmGraph.TwoToken (g : AmmGraph G) : Prop :=
  ∀ pool tokens, g.poolTokens.lookup pool = some tokens → tokens.length = 2

theorem AmmGraph.TwoToken.tokenOut_eq {g : AmmGraph G} (htwo : g.TwoToken)
    (hindexed : g.Indexed) {hop other : Hop} (hhop : g.IsHop hop)
    (hother : g.IsHop other) (hpool : other.pool = hop.pool) :
    other.tokenOut = hop.tokenIn ∨ other.tokenOut = hop.tokenOut := by
  obtain ⟨tokens, htokens, hin, hout, hne⟩ := hindexed.isHop_iff.mp hhop
  obtain ⟨tokens', htokens', _, hout', _⟩ := hindexed.isHop_iff.mp hother
  rw [hpool] at htokens'
  obtain rfl := Option.some.inj (htokens.symm.trans htokens')
  obtain ⟨first, second, rfl⟩ := List.length_eq_two.mp (htwo _ _ htokens)
  simp only [List.mem_cons, List.not_mem_nil, or_false] at hin hout hout'
  rcases hin with hin | hin <;> rcases hout with hout | hout <;>
    rcases hout' with hout' | hout' <;> simp_all

/-- Every hop of a connected path starts at a visited token. -/
theorem Connects.tokenIn_mem {start finish : Address} {path : RoutePath}
    (hpath : Connects start path finish) {hop : Hop} (hhop : hop ∈ path) :
    hop.tokenIn ∈ start :: path.map Hop.tokenOut := by
  induction path generalizing start with
  | nil => cases hhop
  | cons head rest ih =>
      obtain ⟨hstart, hrest⟩ := hpath
      rcases List.mem_cons.mp hhop with rfl | hhop
      · rw [hstart]
        exact List.mem_cons_self
      · exact List.mem_cons_of_mem start (ih hrest hhop)

theorem endToken_append (start : Address) (path rest : RoutePath) :
    endToken start (path ++ rest) = endToken (endToken start path) rest := by
  induction path generalizing start with
  | nil => rfl
  | cons hop path ih => rw [List.cons_append, endToken_cons, endToken_cons, ih]

theorem visitedOf_append_subset {start : Address} {path other rest : RoutePath}
    (hsub : visitedOf start path ⊆ visitedOf start other) :
    visitedOf start (path ++ rest) ⊆ visitedOf start (other ++ rest) := by
  intro token htoken
  have hmem := @hsub token
  simp only [mem_visitedOf, List.mem_cons, List.map_append, List.mem_append] at *
  tauto

namespace HeuristicContext

/-- `path` leads to the same token as `other` through some of its tokens. -/
structure Replaces (context : HeuristicContext) (g : AmmGraph G)
    (path other : RoutePath) : Prop where
  isOpen : context.IsOpen g path
  isOpen_other : context.IsOpen g other
  token : endToken context.tokenIn path = endToken context.tokenIn other
  visited : visitedOf context.tokenIn path ⊆ visitedOf context.tokenIn other

variable {context : HeuristicContext} {g : AmmGraph G} {path other : RoutePath}
  {hop : Hop}

theorem Replaces.refl (hopen : context.IsOpen g path) :
    context.Replaces g path path :=
  ⟨hopen, hopen, rfl, Finset.Subset.refl _⟩

theorem IsOpen.card_visitedOf (hopen : context.IsOpen g path) :
    (visitedOf context.tokenIn path).card = path.length + 1 := by
  rw [visitedOf, List.toFinset_card_of_nodup hopen.tokens, List.length_cons,
    List.length_map]

theorem Replaces.length_le (hreplaces : context.Replaces g path other) :
    path.length ≤ other.length := by
  have hcard := Finset.card_le_card hreplaces.visited
  rw [hreplaces.isOpen.card_visitedOf, hreplaces.isOpen_other.card_visitedOf] at hcard
  omega

theorem IsOpen.endToken_ne (hopen : context.IsOpen g path) (hpath : path ≠ []) :
    endToken context.tokenIn path ≠ context.tokenIn := by
  induction path using List.reverseRecOn with
  | nil => exact absurd rfl hpath
  | append_singleton path hop _ =>
      rw [endToken_append_singleton]
      intro heq
      exact (isOpen_append_singleton.mp hopen).2.2.1 (heq ▸ List.mem_cons_self)

theorem Replaces.ne_nil (hreplaces : context.Replaces g path other)
    (hother : other ≠ []) : path ≠ [] := by
  rintro rfl
  exact hreplaces.isOpen_other.endToken_ne hother hreplaces.token.symm

section TwoToken

variable (htwo : g.TwoToken) (hindexed : g.Indexed)

include htwo hindexed

/-- A pool that leads to an unvisited token is unused. -/
theorem IsOpen.pool_fresh (hopen : context.IsOpen g path) (hhop : g.IsHop hop)
    (hnew : hop.tokenOut ∉ context.tokenIn :: path.map Hop.tokenOut) :
    hop.pool ∉ path.map Hop.pool := by
  intro hpool
  obtain ⟨used, hused, heq⟩ := List.mem_map.mp hpool
  rcases htwo.tokenOut_eq hindexed (hopen.edges used hused) hhop heq.symm with
    hin | hout
  · exact hnew (hin ▸ hopen.connects.tokenIn_mem hused)
  · exact hnew (hout ▸ List.mem_cons_of_mem _ (List.mem_map_of_mem hused))

theorem Replaces.extends (hreplaces : context.Replaces g path other)
    (hextends : context.Extends g other hop) : context.Extends g path hop := by
  obtain ⟨hcontinues, hnew, htarget, hallowed⟩ := hextends
  have hfresh : hop.tokenOut ∉ context.tokenIn :: path.map Hop.tokenOut := fun hmem =>
    hnew (mem_visitedOf.mp (hreplaces.visited (mem_visitedOf.mpr hmem)))
  exact ⟨⟨hcontinues.edge, hcontinues.start.trans hreplaces.token.symm,
    hreplaces.isOpen.pool_fresh htwo hindexed hcontinues.edge hfresh⟩, hfresh, htarget,
    hallowed⟩

theorem Replaces.closes (hne : context.tokenIn ≠ context.tokenOut)
    (hreplaces : context.Replaces g path other)
    (hcloses : context.Closes g other hop) : context.Closes g path hop := by
  obtain ⟨hcontinues, hout, hmode⟩ := hcloses
  refine ⟨⟨hcontinues.edge, hcontinues.start.trans hreplaces.token.symm, ?_⟩, hout, hmode⟩
  apply hreplaces.isOpen.pool_fresh htwo hindexed hcontinues.edge
  rw [hout, List.mem_cons, not_or]
  refine ⟨hne.symm, fun hmem => ?_⟩
  obtain ⟨last, hlast, heq⟩ := List.mem_map.mp hmem
  exact (hreplaces.isOpen.intermediates last hlast).1 heq

/-- A common continuation keeps the replacement. -/
theorem Replaces.append (hreplaces : context.Replaces g path other)
    (rest : RoutePath) (hopen : context.IsOpen g (other ++ rest)) :
    context.Replaces g (path ++ rest) (other ++ rest) := by
  refine ⟨?_, hopen, by rw [endToken_append, endToken_append, hreplaces.token],
    visitedOf_append_subset hreplaces.visited⟩
  induction rest using List.reverseRecOn with
  | nil => simpa using hreplaces.isOpen
  | append_singleton rest last ih =>
      rw [← List.append_assoc, isOpen_append_singleton] at hopen ⊢
      have hshorter := ih hopen.1
      refine ⟨hshorter, ?_⟩
      have hrest : context.Replaces g (path ++ rest) (other ++ rest) :=
        ⟨hshorter, hopen.1, by rw [endToken_append, endToken_append, hreplaces.token],
          visitedOf_append_subset hreplaces.visited⟩
      exact hrest.extends htwo hindexed hopen.2

theorem Replaces.completes (hne : context.tokenIn ≠ context.tokenOut)
    (hreplaces : context.Replaces g path other) {hops : ℕ}
    (hcompletes : context.Completes g other hops) : context.Completes g path hops := by
  obtain ⟨whole, last, ⟨rest, rfl⟩, hopen, hcloses, hlength⟩ := hcompletes
  have hwhole := hreplaces.append htwo hindexed rest hopen
  refine ⟨path ++ rest, last, ⟨rest, rfl⟩, hwhole.isOpen,
    hwhole.closes htwo hindexed hne hcloses, ?_⟩
  rw [List.length_append] at hlength ⊢
  omega

end TwoToken

theorem Completes.mono {hops hops' : ℕ} (hle : hops ≤ hops')
    (hcompletes : context.Completes g path hops) : context.Completes g path hops' := by
  obtain ⟨whole, last, hpre, hopen, hcloses, hlength⟩ := hcompletes
  exact ⟨whole, last, hpre, hopen, hcloses, by omega⟩

end HeuristicContext

namespace AmmSearcher

variable {searcher : AmmSearcher G} {context : HeuristicContext}
  {path other : RoutePath} {hop : Hop}

section TwoToken

variable (htwo : searcher.graph.TwoToken) (hresolved : context.Resolved searcher.graph)
  (hne : context.tokenIn ≠ context.tokenOut)

include htwo hresolved hne

/-- What a prefix is offered is offered to every replacement of it. -/
theorem Offers.replace (hreplaces : context.Replaces searcher.graph path other)
    (hoffers : searcher.Offers context other hop) : searcher.Offers context path hop := by
  rcases hoffers with hcloses | ⟨hextends, hcompletes⟩
  · exact Or.inl (hreplaces.closes htwo hresolved.indexed hne hcloses)
  · refine Or.inr ⟨hreplaces.extends htwo hresolved.indexed hextends, ?_⟩
    have hnext := hreplaces.append htwo hresolved.indexed [hop]
      (HeuristicContext.isOpen_append_singleton.mpr ⟨hreplaces.isOpen_other, hextends⟩)
    refine (hnext.completes htwo hresolved.indexed hne hcompletes).mono ?_
    have := hreplaces.length_le
    omega

/-- With two-token pools a used pool blocks nothing. -/
theorem futureBlockedPools_eq_empty {state : HeuristicState}
    (hstate : searcher.Sound context state) :
    searcher.futureBlockedPools context state.node state.visitedTokens
      state.usedPools = ∅ := by
  unfold futureBlockedPools
  rw [List.toFinset_eq_empty_iff, List.map_eq_nil_iff, List.filter_eq_nil_iff]
  intro edge hedge
  rw [decide_eq_true_iff, hstate.used, hstate.visited, mem_usedOf]
  rintro ⟨hpool, hadmits⟩
  obtain ⟨_, hout, hhop⟩ :=
    (hresolved.indexed.mem_outgoingEdges hstate.node edge).mp hedge
  refine hstate.isOpen.pool_fresh htwo hresolved.indexed hhop ?_ hpool
  rcases (HeuristicContext.admits_iff hresolved hstate.isOpen hout).mp hadmits with
    ⟨htarget, _⟩ | ⟨_, hnew, _⟩
  · rw [htarget, List.mem_cons, not_or]
    refine ⟨hne.symm, fun hmem => ?_⟩
    obtain ⟨last, hlast, heq⟩ := List.mem_map.mp hmem
    exact (hstate.isOpen.intermediates last hlast).1 heq
  · exact hnew

/-- With two-token pools dominance compares amounts and visited tokens. -/
theorem label_dominates_iff {state better : HeuristicState}
    (hstate : searcher.Sound context state) (hbetter : searcher.Sound context better) :
    (searcher.label context better).dominates (searcher.label context state) = true ↔
      state.amount ≤ better.amount ∧
        visitedOf context.tokenIn better.path ⊆ visitedOf context.tokenIn state.path := by
  rw [PrefixLabel.dominates_iff, ← hstate.visited, ← hbetter.visited]
  simp only [label]
  rw [futureBlockedPools_eq_empty htwo hresolved hne hstate,
    futureBlockedPools_eq_empty htwo hresolved hne hbetter]
  simp

end TwoToken

end AmmSearcher

end AmmSearch
