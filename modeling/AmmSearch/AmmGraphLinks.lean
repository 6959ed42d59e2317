/-
How the stable graph and the indexes that follow its edges represent a set of
directed token pairs, and how node creation, edge insertion, pool removal and
orphan pruning change that set.
-/
import Mathlib.Data.List.Destutter
import AmmSearch.AmmGraph

open FiniteMap StableGraph

namespace AmmSearch

section TokenLists

theorem map_fst_zipIdx {α : Type} (entries : List α) (start : ℕ) :
    (entries.zipIdx start).map Prod.fst = entries := by
  simp [List.zipIdx_map_fst]

/-- On a list without repetitions, distinct positions are distinct entries. -/
theorem distinctPairs_eq_of_nodup {α : Type} [DecidableEq α] {entries : List α}
    (hnodup : entries.Nodup) :
    distinctPairs entries =
      entries.flatMap fun source =>
        (entries.filter fun target => source ≠ target).map (Prod.mk source) := by
  have hrow : ∀ source ∈ entries.zipIdx,
      ((entries.zipIdx.filter fun target => source.2 ≠ target.2).map
        fun target => (source.1, target.1)) =
      (entries.filter fun target => source.1 ≠ target).map
        (Prod.mk source.1) := by
    intro source hsource
    have hcongr : (entries.zipIdx.filter fun target => source.2 ≠ target.2) =
        entries.zipIdx.filter ((fun target => source.1 ≠ target) ∘ Prod.fst) := by
      apply List.filter_congr
      intro target htarget
      obtain ⟨hsourceLt, hsourceEq⟩ :=
        List.getElem?_eq_some_iff.mp (List.mem_zipIdx_iff_getElem?.mp hsource)
      obtain ⟨htargetLt, htargetEq⟩ :=
        List.getElem?_eq_some_iff.mp (List.mem_zipIdx_iff_getElem?.mp htarget)
      have hiff : source.1 = target.1 ↔ source.2 = target.2 := by
        rw [← hsourceEq, ← htargetEq]
        exact hnodup.getElem_inj_iff
      simp [hiff]
    rw [hcongr]
    conv_rhs => rw [← map_fst_zipIdx entries 0, List.filter_map, List.map_map]
    rfl
  unfold distinctPairs
  conv_rhs => rw [← map_fst_zipIdx entries 0, List.flatMap_map]
  rw [map_fst_zipIdx]
  exact List.flatMap_congr hrow

theorem mem_distinctPairs {α : Type} [DecidableEq α] {entries : List α}
    (hnodup : entries.Nodup) (source target : α) :
    (source, target) ∈ distinctPairs entries ↔
      source ∈ entries ∧ target ∈ entries ∧ source ≠ target := by
  rw [distinctPairs_eq_of_nodup hnodup]
  simp only [List.mem_flatMap, List.mem_map, List.mem_filter, Prod.mk.injEq,
    decide_eq_true_eq]
  constructor
  · rintro ⟨first, hfirst, second, ⟨hsecond, hne⟩, rfl, rfl⟩
    exact ⟨hfirst, hsecond, hne⟩
  · rintro ⟨hsource, htarget, hne⟩
    exact ⟨source, hsource, target, ⟨htarget, hne⟩, rfl, rfl⟩

theorem nodup_distinctPairs {α : Type} [DecidableEq α] {entries : List α}
    (hnodup : entries.Nodup) : (distinctPairs entries).Nodup := by
  rw [distinctPairs_eq_of_nodup hnodup, List.nodup_flatMap]
  constructor
  · intro source _
    exact (hnodup.filter _).map (Prod.mk_right_injective source)
  · refine hnodup.imp ?_
    intro left right hne pair hleft hright
    obtain ⟨_, _, rfl⟩ := List.mem_map.mp hleft
    obtain ⟨_, _, hpair⟩ := List.mem_map.mp hright
    exact hne (congrArg Prod.fst hpair).symm

theorem mem_tokenPairs_left {tokens : List Address} {pair : Address × Address}
    (hpair : pair ∈ tokenPairs tokens) : pair.1 ∈ tokens ∧ pair.2 ∈ tokens := by
  induction tokens with
  | nil => simp [tokenPairs] at hpair
  | cons head tail ih =>
      rcases List.mem_append.mp hpair with hhead | htail
      · obtain ⟨other, hother, rfl⟩ := List.mem_map.mp hhead
        exact ⟨List.mem_cons_self, List.mem_cons_of_mem head hother⟩
      · exact ⟨List.mem_cons_of_mem head (ih htail).1,
          List.mem_cons_of_mem head (ih htail).2⟩

theorem pairwise_lt_sortDedup (tokens : List Address) :
    (sortDedup tokens).Pairwise (· < ·) := by
  have hsorted : (tokens.insertionSort (· ≤ ·)).Pairwise (· ≤ ·) :=
    List.pairwise_insertionSort (· ≤ ·) tokens
  have hsub : (sortDedup tokens).Pairwise (· ≤ ·) :=
    hsorted.sublist (List.destutter_sublist (· ≠ ·) _)
  have hne : (sortDedup tokens).IsChain (· ≠ ·) :=
    List.isChain_destutter (· ≠ ·) _
  apply List.isChain_iff_pairwise.mp
  rw [List.isChain_iff_getElem] at hne ⊢
  intro index hindex
  exact lt_of_le_of_ne
    (List.pairwise_iff_getElem.mp hsub _ _ _ _ (Nat.lt_succ_self index))
    (hne index hindex)

theorem tokensForPool_valid {registration : PoolRegistration}
    {tokens : List Address} (htokens : tokensForPool registration = .ok tokens) :
    tokens.Pairwise (· < ·) ∧ 2 ≤ tokens.length := by
  unfold tokensForPool at htokens
  cases hmetadata : metadataTokens registration.metadata with
  | error reason => rw [hmetadata] at htokens; cases htokens
  | ok declared =>
      rw [hmetadata] at htokens
      change normalizeTokens declared = .ok tokens at htokens
      simp only [normalizeTokens] at htokens
      split at htokens
      · cases htokens
      · obtain rfl := Except.ok.inj htokens
        exact ⟨pairwise_lt_sortDedup declared, by omega⟩

theorem indexedTokens_valid {registration : PoolRegistration}
    {options : GraphBuildOptions} {tokens : List Address}
    (htokens : indexedTokens registration options = .ok tokens) :
    tokens.Pairwise (· < ·) ∧ 2 ≤ tokens.length := by
  unfold indexedTokens at htokens
  split at htokens
  · exact tokensForPool_valid htokens
  · cases htokens

/-- Filtering views agrees with filtering the viewed entries. -/
theorem filter_filterMap_eq {α β : Type} {view view' : α → Option β}
    {keepView : β → Bool} {keep : α → Bool} {entries : List α}
    (hview : ∀ entry ∈ entries, ∃ seen, view entry = some seen ∧
      keepView seen = keep entry ∧ (keep entry → view' entry = some seen)) :
    (entries.filterMap view).filter keepView =
      (entries.filter keep).filterMap view' := by
  induction entries with
  | nil => rfl
  | cons head tail ih =>
      obtain ⟨seen, hseen, hkeep, hview'⟩ := hview head List.mem_cons_self
      have htail := ih fun entry hentry =>
        hview entry (List.mem_cons_of_mem head hentry)
      rw [List.filterMap_cons_some hseen, List.filter_cons, List.filter_cons, hkeep]
      by_cases hhead : keep head = true
      · rw [if_pos hhead, if_pos hhead,
          List.filterMap_cons_some (hview' hhead), htail]
      · rw [if_neg hhead, if_neg hhead, htail]

end TokenLists

namespace AmmGraph

variable {G : Type} [StableDiGraph G Address EdgeData]

/-- Edge `e` is live and swaps `tokenIn` for `tokenOut` through `pool`. -/
def HasEdge (g : AmmGraph G) (e : EdgeIndex) (pool : PoolKey)
    (tokenIn tokenOut : Address) : Prop :=
  ∃ record, StableDiGraph.edge g.graph e = some record ∧
    record.weight.pool = pool ∧ g.nodeToken record.source = some tokenIn ∧
    g.nodeToken record.target = some tokenOut

/-- The view that the outgoing cache should hold for edge `e`. -/
def cachedEdge (g : AmmGraph G) (e : EdgeIndex) : Option CachedOutgoingEdge :=
  (StableDiGraph.edge g.graph e).bind fun record =>
    (g.nodeToken record.source).bind fun tokenIn =>
      (g.nodeToken record.target).map fun tokenOut =>
        ⟨record.target, tokenIn, tokenOut, record.weight.pool⟩

/-- The pool-to-tokens map indexes this directed pair. -/
def HasPair (g : AmmGraph G) (pool : PoolKey) (tokenIn tokenOut : Address) :
    Prop :=
  ∃ tokens, g.poolTokens.lookup pool = some tokens ∧
    tokenIn ∈ tokens ∧ tokenOut ∈ tokens ∧ tokenIn ≠ tokenOut

/-- Nodes, edges, the pool-to-edges map and the outgoing cache represent
exactly the directed pairs `pairs`. -/
structure Linked (g : AmmGraph G)
    (pairs : PoolKey → Address → Address → Prop) : Prop where
  node_iff : ∀ token node,
    g.nodeMap.lookup token = some node ↔ g.nodeToken node = some token
  edge_pair : ∀ e record, StableDiGraph.edge g.graph e = some record →
    ∃ tokenIn tokenOut, g.HasEdge e record.weight.pool tokenIn tokenOut ∧
      pairs record.weight.pool tokenIn tokenOut
  edge_exists : ∀ pool tokenIn tokenOut, pairs pool tokenIn tokenOut →
    ∃ e, g.HasEdge e pool tokenIn tokenOut
  edge_unique : ∀ e other pool tokenIn tokenOut,
    g.HasEdge e pool tokenIn tokenOut →
    g.HasEdge other pool tokenIn tokenOut → e = other
  mem_edgeMap : ∀ pool e, e ∈ (g.edgeMap.lookup pool).getD [] ↔
    ∃ record, StableDiGraph.edge g.graph e = some record ∧
      record.weight.pool = pool
  edgeMap_ne_nil : ∀ pool, g.edgeMap.lookup pool ≠ some []
  cached : ∀ node, g.outgoingEdges node =
    (StableDiGraph.outgoing g.graph node).filterMap g.cachedEdge

theorem HasEdge.tokens_eq {g : AmmGraph G} {e : EdgeIndex}
    {pool pool' : PoolKey} {tokenIn tokenOut tokenIn' tokenOut' : Address}
    (hleft : g.HasEdge e pool tokenIn tokenOut)
    (hright : g.HasEdge e pool' tokenIn' tokenOut') :
    pool = pool' ∧ tokenIn = tokenIn' ∧ tokenOut = tokenOut' := by
  obtain ⟨record, hedge, rfl, hin, hout⟩ := hleft
  obtain ⟨record', hedge', rfl, hin', hout'⟩ := hright
  obtain rfl := Option.some.inj (hedge.symm.trans hedge')
  exact ⟨rfl, Option.some.inj (hin.symm.trans hin'),
    Option.some.inj (hout.symm.trans hout')⟩

namespace Linked

variable {g : AmmGraph G} {pairs : PoolKey → Address → Address → Prop}

theorem pairs_of_hasEdge (hlinked : g.Linked pairs) {e : EdgeIndex}
    {pool : PoolKey} {tokenIn tokenOut : Address}
    (hedge : g.HasEdge e pool tokenIn tokenOut) : pairs pool tokenIn tokenOut := by
  obtain ⟨record, hrecord, hpool, hin, hout⟩ := hedge
  obtain ⟨tokenIn', tokenOut', hedge', hpairs⟩ :=
    hlinked.edge_pair e record hrecord
  obtain ⟨rfl, rfl, rfl⟩ :=
    HasEdge.tokens_eq ⟨record, hrecord, hpool, hin, hout⟩ hedge'
  exact hpairs

theorem congr (hlinked : g.Linked pairs)
    (pairs' : PoolKey → Address → Address → Prop)
    (hiff : ∀ pool tokenIn tokenOut,
      pairs pool tokenIn tokenOut ↔ pairs' pool tokenIn tokenOut) :
    g.Linked pairs' := by
  have heq : pairs = pairs' := by
    funext pool tokenIn tokenOut
    exact propext (hiff pool tokenIn tokenOut)
  exact heq ▸ hlinked

theorem new (lineage : ℕ) :
    (AmmGraph.new lineage : AmmGraph G).Linked fun _ _ _ => False where
  node_iff token node := by
    simp [AmmGraph.new, nodeToken, StableDiGraph.nodeWeight_empty]
  edge_pair e record hedge := by
    simp [AmmGraph.new, StableDiGraph.edge_empty] at hedge
  edge_exists _ _ _ hpairs := hpairs.elim
  edge_unique e other pool tokenIn tokenOut hedge _ := by
    obtain ⟨record, hedge, _⟩ := hedge
    simp [AmmGraph.new, StableDiGraph.edge_empty] at hedge
  mem_edgeMap pool e := by
    simp [AmmGraph.new, StableDiGraph.edge_empty]
  edgeMap_ne_nil pool := by simp [AmmGraph.new]
  cached node := by
    have hnone : ∀ e, (AmmGraph.new lineage : AmmGraph G).cachedEdge e = none := by
      intro e
      simp [cachedEdge, AmmGraph.new, StableDiGraph.edge_empty]
    rw [List.filterMap_eq_nil_iff.mpr fun e _ => hnone e]
    simp [outgoingEdges, AmmGraph.new]

theorem edge_of_mem_outgoing {node : NodeIndex} {e : EdgeIndex}
    (he : e ∈ StableDiGraph.outgoing g.graph node) :
    ∃ record, StableDiGraph.edge g.graph e = some record ∧
      record.source = node :=
  (StableDiGraph.mem_outgoing g.graph node e).mp he

/-- Both endpoints of a live edge are live. -/
theorem endpoints (hlinked : g.Linked pairs) {e : EdgeIndex}
    {record : EdgeRecord EdgeData}
    (hrecord : StableDiGraph.edge g.graph e = some record) :
    ∃ tokenIn tokenOut, g.nodeToken record.source = some tokenIn ∧
      g.nodeToken record.target = some tokenOut ∧
      pairs record.weight.pool tokenIn tokenOut := by
  obtain ⟨tokenIn, tokenOut, ⟨found, hfound, _, hin, hout⟩, hpairs⟩ :=
    hlinked.edge_pair e record hrecord
  obtain rfl := Option.some.inj (hrecord.symm.trans hfound)
  exact ⟨tokenIn, tokenOut, hin, hout, hpairs⟩

/-- A change of nodes that leaves every edge and its endpoints alone. -/
theorem of_same_edges (hlinked : g.Linked pairs) {g' : AmmGraph G}
    (hnodes : ∀ token node,
      g'.nodeMap.lookup token = some node ↔ g'.nodeToken node = some token)
    (hedge : ∀ e, StableDiGraph.edge g'.graph e = StableDiGraph.edge g.graph e)
    (houtgoing : ∀ node, StableDiGraph.outgoing g'.graph node =
      StableDiGraph.outgoing g.graph node)
    (hsource : ∀ e record, StableDiGraph.edge g.graph e = some record →
      g'.nodeToken record.source = g.nodeToken record.source)
    (htarget : ∀ e record, StableDiGraph.edge g.graph e = some record →
      g'.nodeToken record.target = g.nodeToken record.target)
    (hcache : ∀ node, g'.outgoingEdges node = g.outgoingEdges node)
    (hedgeMap : g'.edgeMap = g.edgeMap) : g'.Linked pairs := by
  have hhas : ∀ e pool tokenIn tokenOut,
      g'.HasEdge e pool tokenIn tokenOut ↔ g.HasEdge e pool tokenIn tokenOut := by
    intro e pool tokenIn tokenOut
    simp only [HasEdge, hedge]
    refine exists_congr fun record => and_congr_right fun hrecord => ?_
    rw [hsource e record hrecord, htarget e record hrecord]
  refine ⟨hnodes, ?_, ?_, ?_, ?_, ?_, ?_⟩
  · intro e record hrecord
    rw [hedge] at hrecord
    obtain ⟨tokenIn, tokenOut, hfound, hpairs⟩ := hlinked.edge_pair e record hrecord
    exact ⟨tokenIn, tokenOut, (hhas _ _ _ _).mpr hfound, hpairs⟩
  · intro pool tokenIn tokenOut hpairs
    obtain ⟨e, hfound⟩ := hlinked.edge_exists pool tokenIn tokenOut hpairs
    exact ⟨e, (hhas _ _ _ _).mpr hfound⟩
  · intro e other pool tokenIn tokenOut hleft hright
    exact hlinked.edge_unique e other pool tokenIn tokenOut
      ((hhas _ _ _ _).mp hleft) ((hhas _ _ _ _).mp hright)
  · intro pool e
    simp only [hedgeMap, hedge]
    exact hlinked.mem_edgeMap pool e
  · rw [hedgeMap]
    exact hlinked.edgeMap_ne_nil
  · intro node
    rw [hcache, houtgoing, hlinked.cached node]
    apply List.filterMap_congr
    intro e he
    obtain ⟨record, hrecord, _⟩ := edge_of_mem_outgoing he
    simp [cachedEdge, hedge, hrecord, hsource e record hrecord,
      htarget e record hrecord]

/-- Creating a node changes neither the edges nor the pairs. -/
theorem getOrCreateNode (hlinked : g.Linked pairs) (token : Address) :
    (g.getOrCreateNode token).2.Linked pairs := by
  unfold AmmGraph.getOrCreateNode
  cases hlookup : g.nodeMap.lookup token with
  | some node => exact hlinked
  | none =>
      have hfresh := StableDiGraph.addNode_fresh g.graph token
      have hkeep : ∀ node other, g.nodeToken node = some other →
          StableDiGraph.nodeWeight (StableDiGraph.addNode g.graph token).2 node =
            g.nodeToken node := by
        intro node other hnode
        rw [StableDiGraph.nodeWeight_addNode, if_neg]
        · rfl
        · rintro rfl
          rw [nodeToken, hfresh] at hnode
          cases hnode
      apply hlinked.of_same_edges
      · intro other node
        rw [lookup_insert_eq]
        simp only [nodeToken, StableDiGraph.nodeWeight_addNode]
        by_cases hother : other = token
        · subst hother
          by_cases hnode : node = (StableDiGraph.addNode g.graph other).1
          · simp [hnode]
          · simp only [if_pos, if_neg hnode, Option.some.injEq]
            refine ⟨fun heq => absurd heq.symm hnode, fun hweight => ?_⟩
            rw [(hlinked.node_iff other node).mpr hweight] at hlookup
            cases hlookup
        · by_cases hnode : node = (StableDiGraph.addNode g.graph token).1
          · subst hnode
            simp only [if_neg hother, if_pos, Option.some.injEq]
            refine ⟨fun hmapped => ?_, fun heq => absurd heq.symm hother⟩
            have hweight := (hlinked.node_iff _ _).mp hmapped
            rw [nodeToken, hfresh] at hweight
            cases hweight
          · simp only [if_neg hother, if_neg hnode]
            exact hlinked.node_iff other node
      · exact fun e => StableDiGraph.edge_addNode g.graph token e
      · exact fun node => StableDiGraph.outgoing_addNode g.graph token node
      · intro e record hrecord
        obtain ⟨tokenIn, _, hin, _⟩ := hlinked.endpoints hrecord
        exact hkeep _ _ hin
      · intro e record hrecord
        obtain ⟨_, tokenOut, _, hout, _⟩ := hlinked.endpoints hrecord
        exact hkeep _ _ hout
      · exact fun node => rfl
      · rfl

/-- Inserting one fresh directed pair between live nodes. -/
theorem addDirectedEdge (hlinked : g.Linked pairs) (pool : PoolKey)
    {source target : NodeIndex} {tokenIn tokenOut : Address}
    (hin : g.nodeToken source = some tokenIn)
    (hout : g.nodeToken target = some tokenOut)
    (hnew : ¬ pairs pool tokenIn tokenOut) :
    (g.addDirectedEdge pool ((source, tokenIn), (target, tokenOut))).Linked
      fun pool' tokenIn' tokenOut' => pairs pool' tokenIn' tokenOut' ∨
        (pool' = pool ∧ tokenIn' = tokenIn ∧ tokenOut' = tokenOut) := by
  set g' := g.addDirectedEdge pool ((source, tokenIn), (target, tokenOut))
    with hg'
  set fresh := (StableDiGraph.addEdge g.graph source target ⟨pool⟩).1 with hfresh
  have hlive : (StableDiGraph.nodeWeight g.graph source).isSome ∧
      (StableDiGraph.nodeWeight g.graph target).isSome :=
    ⟨Option.isSome_of_eq_some hin, Option.isSome_of_eq_some hout⟩
  have hunused : StableDiGraph.edge g.graph fresh = none :=
    StableDiGraph.addEdge_fresh g.graph source target ⟨pool⟩
  have htoken : ∀ node, g'.nodeToken node = g.nodeToken node :=
    fun node => StableDiGraph.nodeWeight_addEdge g.graph source target
      (EdgeData.mk pool) node
  have hedge : ∀ e, StableDiGraph.edge g'.graph e =
      if e = fresh then some ⟨source, target, ⟨pool⟩⟩
      else StableDiGraph.edge g.graph e :=
    fun e => StableDiGraph.edge_addEdge g.graph source target ⟨pool⟩ e
      hlive.1 hlive.2
  have hold : ∀ e record, StableDiGraph.edge g.graph e = some record →
      e ≠ fresh := by
    rintro e record hrecord rfl
    rw [hunused] at hrecord
    cases hrecord
  have hhas : ∀ e pool' tokenIn' tokenOut',
      g'.HasEdge e pool' tokenIn' tokenOut' ↔
        if e = fresh then
          pool' = pool ∧ tokenIn' = tokenIn ∧ tokenOut' = tokenOut
        else g.HasEdge e pool' tokenIn' tokenOut' := by
    intro e pool' tokenIn' tokenOut'
    simp only [HasEdge, hedge, htoken]
    by_cases heq : e = fresh
    · simp [heq, hin, hout, eq_comm]
    · simp only [if_neg heq]
  refine ⟨?_, ?_, ?_, ?_, ?_, ?_, ?_⟩
  · intro token node
    rw [htoken]
    exact hlinked.node_iff token node
  · intro e record hrecord
    rw [hedge] at hrecord
    by_cases heq : e = fresh
    · rw [if_pos heq] at hrecord
      obtain rfl := Option.some.inj hrecord
      refine ⟨tokenIn, tokenOut, (hhas _ _ _ _).mpr ?_, Or.inr ⟨rfl, rfl, rfl⟩⟩
      simp [heq]
    · rw [if_neg heq] at hrecord
      obtain ⟨tokenIn', tokenOut', hfound, hpairs⟩ :=
        hlinked.edge_pair e record hrecord
      refine ⟨tokenIn', tokenOut', (hhas _ _ _ _).mpr ?_, Or.inl hpairs⟩
      rwa [if_neg heq]
  · rintro pool' tokenIn' tokenOut' (hpairs | ⟨rfl, rfl, rfl⟩)
    · obtain ⟨e, hfound⟩ := hlinked.edge_exists _ _ _ hpairs
      obtain ⟨record, hrecord, _⟩ := id hfound
      refine ⟨e, (hhas _ _ _ _).mpr ?_⟩
      rwa [if_neg (hold e record hrecord)]
    · refine ⟨fresh, (hhas _ _ _ _).mpr ?_⟩
      simp
  · intro e other pool' tokenIn' tokenOut' hleft hright
    rw [hhas] at hleft hright
    by_cases he : e = fresh <;> by_cases hother : other = fresh
    · rw [he, hother]
    · rw [if_pos he] at hleft
      rw [if_neg hother] at hright
      obtain ⟨rfl, rfl, rfl⟩ := hleft
      exact absurd (hlinked.pairs_of_hasEdge hright) hnew
    · rw [if_neg he] at hleft
      rw [if_pos hother] at hright
      obtain ⟨rfl, rfl, rfl⟩ := hright
      exact absurd (hlinked.pairs_of_hasEdge hleft) hnew
    · rw [if_neg he] at hleft
      rw [if_neg hother] at hright
      exact hlinked.edge_unique e other _ _ _ hleft hright
  · intro pool' e
    change e ∈ ((alter g.edgeMap pool _).lookup pool').getD [] ↔ _
    rw [lookup_alter]
    simp only [hedge]
    have hmem := hlinked.mem_edgeMap pool' e
    by_cases heq : e = fresh
    · have hnot : e ∉ (g.edgeMap.lookup pool').getD [] := by
        intro he
        obtain ⟨record, hrecord, _⟩ := hmem.mp he
        exact hold e record hrecord heq
      by_cases hpool : pool' = pool
      · subst hpool
        simp [heq, hfresh]
      · simp [heq ▸ hnot, hpool, heq, Ne.symm hpool]
    · by_cases hpool : pool' = pool
      · subst hpool
        simpa [heq, hfresh ▸ heq] using hmem
      · simpa [heq, hpool] using hmem
  · intro pool'
    change (alter g.edgeMap pool _).lookup pool' ≠ some []
    rw [lookup_alter]
    by_cases hpool : pool' = pool
    · simp [hpool]
    · simpa [hpool] using hlinked.edgeMap_ne_nil pool'
  · intro node
    have hview : ∀ e ∈ StableDiGraph.outgoing g.graph node,
        g'.cachedEdge e = g.cachedEdge e := by
      intro e he
      obtain ⟨record, hrecord, _⟩ := edge_of_mem_outgoing he
      simp only [cachedEdge, hedge, if_neg (hold e record hrecord), htoken]
    have hnewView : g'.cachedEdge fresh =
        some ⟨target, tokenIn, tokenOut, pool⟩ := by
      simp [cachedEdge, hedge, htoken, hin, hout]
    have houtgoing : StableDiGraph.outgoing g'.graph node =
        if node = source then fresh :: StableDiGraph.outgoing g.graph node
        else StableDiGraph.outgoing g.graph node :=
      StableDiGraph.outgoing_addEdge g.graph source target ⟨pool⟩ node
        hlive.1 hlive.2
    have hcache := hlinked.cached node
    rw [← List.filterMap_congr hview] at hcache
    change ((alter g.outgoingCache source _).lookup node).getD [] = _
    rw [lookup_alter, houtgoing]
    by_cases hnode : node = source
    · subst hnode
      simp only [if_pos, Option.getD_some]
      rw [List.filterMap_cons_some hnewView, ← hcache]
      rfl
    · simp only [if_neg hnode]
      exact hcache

/-- Inserting fresh pairs one by one between live nodes. -/
theorem foldl_addDirectedEdge (pool : PoolKey)
    (ends : List ((NodeIndex × Address) × (NodeIndex × Address)))
    (hlinked : g.Linked pairs)
    (hlive : ∀ pair ∈ ends, g.nodeToken pair.1.1 = some pair.1.2 ∧
      g.nodeToken pair.2.1 = some pair.2.2)
    (hnodup : (ends.map fun pair => (pair.1.2, pair.2.2)).Nodup)
    (hnew : ∀ pair ∈ ends, ¬ pairs pool pair.1.2 pair.2.2) :
    (ends.foldl (AmmGraph.addDirectedEdge pool) g).Linked
      fun pool' tokenIn tokenOut => pairs pool' tokenIn tokenOut ∨
        (pool' = pool ∧
          (tokenIn, tokenOut) ∈ ends.map fun pair => (pair.1.2, pair.2.2)) := by
  induction ends generalizing g pairs with
  | nil => exact hlinked.congr _ (by simp)
  | cons head tail ih =>
      obtain ⟨⟨source, tokenIn⟩, ⟨target, tokenOut⟩⟩ := head
      have hhead := hlive _ List.mem_cons_self
      simp only [List.map_cons, List.nodup_cons] at hnodup
      have hadded := hlinked.addDirectedEdge pool hhead.1 hhead.2
        (hnew _ List.mem_cons_self)
      refine (ih hadded ?_ hnodup.2 ?_).congr _ ?_
      · intro pair hpair
        have hold := hlive pair (List.mem_cons_of_mem _ hpair)
        simp only [nodeToken, AmmGraph.addDirectedEdge,
          StableDiGraph.nodeWeight_addEdge]
        exact hold
      · rintro pair hpair (hpairs | ⟨_, hin, hout⟩)
        · exact hnew pair (List.mem_cons_of_mem _ hpair) hpairs
        · apply hnodup.1
          exact List.mem_map.mpr ⟨pair, hpair, by simp [hin, hout]⟩
      · intro pool' tokenIn' tokenOut'
        simp only [List.map_cons, List.mem_cons, Prod.mk.injEq]
        tauto

/-- Creating the nodes of a token list. -/
theorem getOrCreateNodes (hlinked : g.Linked pairs) (tokens : List Address) :
    (g.getOrCreateNodes tokens).2.Linked pairs := by
  induction tokens generalizing g with
  | nil => exact hlinked
  | cons head tail ih => exact ih (hlinked.getOrCreateNode head)

end Linked

theorem nodeMap_getOrCreateNode (g : AmmGraph G) (token other : Address) :
    (g.getOrCreateNode token).2.nodeMap.lookup other =
      if other = token then some (g.getOrCreateNode token).1
      else g.nodeMap.lookup other := by
  unfold getOrCreateNode
  cases hlookup : g.nodeMap.lookup token with
  | some node =>
      by_cases hother : other = token
      · subst hother
        simp [hlookup]
      · simp [hother]
  | none => exact lookup_insert_eq g.nodeMap token other _

/-- Components that node creation and edge insertion leave alone. -/
structure SameTokens (g g' : AmmGraph G) : Prop where
  poolTokens : g'.poolTokens = g.poolTokens
  pairPools : g'.pairPools = g.pairPools
  version : g'.version = g.version

omit [StableDiGraph G Address EdgeData] in
theorem SameTokens.trans {first second third : AmmGraph G}
    (hfirst : first.SameTokens second) (hsecond : second.SameTokens third) :
    first.SameTokens third :=
  ⟨hsecond.poolTokens.trans hfirst.poolTokens,
    hsecond.pairPools.trans hfirst.pairPools,
    hsecond.version.trans hfirst.version⟩

theorem sameTokens_getOrCreateNode (g : AmmGraph G) (token : Address) :
    g.SameTokens (g.getOrCreateNode token).2 := by
  unfold getOrCreateNode
  cases g.nodeMap.lookup token <;> exact ⟨rfl, rfl, rfl⟩

theorem sameTokens_getOrCreateNodes (g : AmmGraph G) (tokens : List Address) :
    g.SameTokens (g.getOrCreateNodes tokens).2 := by
  induction tokens generalizing g with
  | nil => exact ⟨rfl, rfl, rfl⟩
  | cons head tail ih => exact (sameTokens_getOrCreateNode g head).trans (ih _)

theorem sameTokens_foldl_addDirectedEdge (pool : PoolKey)
    (ends : List ((NodeIndex × Address) × (NodeIndex × Address)))
    (g : AmmGraph G) :
    g.SameTokens (ends.foldl (addDirectedEdge pool) g) ∧
      (ends.foldl (addDirectedEdge pool) g).nodeMap = g.nodeMap := by
  induction ends generalizing g with
  | nil => exact ⟨⟨rfl, rfl, rfl⟩, rfl⟩
  | cons head tail ih =>
      have hstep : g.SameTokens (addDirectedEdge pool g head) := ⟨rfl, rfl, rfl⟩
      obtain ⟨htail, hnodes⟩ := ih (addDirectedEdge pool g head)
      exact ⟨hstep.trans htail, hnodes⟩

theorem map_snd_getOrCreateNodes (g : AmmGraph G) (tokens : List Address) :
    (g.getOrCreateNodes tokens).1.map Prod.snd = tokens := by
  induction tokens generalizing g with
  | nil => rfl
  | cons head tail ih =>
      simp only [getOrCreateNodes, List.map_cons]
      rw [ih]

/-- Node creation keeps existing nodes and adds exactly the requested ones. -/
theorem nodeMap_getOrCreateNodes (g : AmmGraph G) (tokens : List Address) :
    (∀ token node, g.nodeMap.lookup token = some node →
      (g.getOrCreateNodes tokens).2.nodeMap.lookup token = some node) ∧
    (∀ token, ((g.getOrCreateNodes tokens).2.nodeMap.lookup token).isSome ↔
      (g.nodeMap.lookup token).isSome ∨ token ∈ tokens) ∧
    (∀ entry ∈ (g.getOrCreateNodes tokens).1,
      (g.getOrCreateNodes tokens).2.nodeMap.lookup entry.2 = some entry.1) := by
  induction tokens generalizing g with
  | nil => simp [getOrCreateNodes]
  | cons head tail ih =>
      obtain ⟨hkeep, hkeys, hnodes⟩ := ih (g.getOrCreateNode head).2
      have hstep : ∀ token node, g.nodeMap.lookup token = some node →
          (g.getOrCreateNode head).2.nodeMap.lookup token = some node := by
        intro token node hlookup
        unfold getOrCreateNode
        cases hhead : g.nodeMap.lookup head with
        | some _ => exact hlookup
        | none =>
            have hne : token ≠ head := by
              rintro rfl
              rw [hhead] at hlookup
              cases hlookup
            change (g.nodeMap.insert head _).lookup token = some node
            rw [lookup_insert_eq, if_neg hne]
            exact hlookup
      refine ⟨fun token node hlookup => hkeep _ _ (hstep _ _ hlookup), ?_, ?_⟩
      · intro token
        change ((getOrCreateNodes _ tail).2.nodeMap.lookup token).isSome ↔ _
        rw [hkeys, nodeMap_getOrCreateNode, List.mem_cons]
        by_cases htoken : token = head
        · simp [htoken]
        · simp [htoken]
      · intro entry hentry
        rcases List.mem_cons.mp hentry with rfl | htail
        · apply hkeep
          rw [nodeMap_getOrCreateNode, if_pos rfl]
        · exact hnodes entry htail

theorem map_tokens_distinctPairs (entries : List (NodeIndex × Address)) :
    (distinctPairs entries).map (fun pair => (pair.1.2, pair.2.2)) =
      distinctPairs (entries.map Prod.snd) := by
  simp only [distinctPairs, List.map_flatMap, List.map_map, List.zipIdx_map,
    List.flatMap_map, List.filter_map]
  rfl

/-- Linking a new pool adds exactly its directed token pairs. -/
theorem linked_addPoolEdges {g : AmmGraph G} (hlinked : g.Linked g.HasPair)
    {pool : PoolKey} {tokens : List Address}
    (hpool : g.poolTokens.lookup pool = none) (hnodup : tokens.Nodup) :
    (g.addPoolEdges pool tokens).Linked (g.addPoolEdges pool tokens).HasPair := by
  have hnodes := nodeMap_getOrCreateNodes g tokens
  have hcreated := hlinked.getOrCreateNodes tokens
  have hsnd := map_snd_getOrCreateNodes g tokens
  have hentries : ((g.getOrCreateNodes tokens).1.map Prod.snd).Nodup := by
    rw [hsnd]
    exact hnodup
  have hentriesNodup := hentries.of_map
  have hmap := map_tokens_distinctPairs (g.getOrCreateNodes tokens).1
  rw [hsnd] at hmap
  have hfold := hcreated.foldl_addDirectedEdge pool
    (distinctPairs (g.getOrCreateNodes tokens).1) ?_ ?_ ?_
  · have hsame := sameTokens_foldl_addDirectedEdge pool
      (distinctPairs (g.getOrCreateNodes tokens).1) (g.getOrCreateNodes tokens).2
    have htokens := (sameTokens_getOrCreateNodes g tokens).trans hsame.1
    have hresult := hfold.congr
      (g.addPoolEdges pool tokens).HasPair ?_
    · exact ⟨hresult.node_iff, hresult.edge_pair, hresult.edge_exists,
        hresult.edge_unique, hresult.mem_edgeMap, hresult.edgeMap_ne_nil,
        hresult.cached⟩
    · intro pool' tokenIn tokenOut
      rw [hmap, mem_distinctPairs hnodup]
      simp only [HasPair, addPoolEdges, htokens.poolTokens, lookup_insert_eq]
      by_cases hpool' : pool' = pool
      · subst hpool'
        simp [hpool]
      · simp [hpool']
  · rintro ⟨left, right⟩ hpair
    obtain ⟨hleft, hright, _⟩ := (mem_distinctPairs hentriesNodup left right).mp hpair
    exact ⟨(hcreated.node_iff _ _).mp (hnodes.2.2 left hleft),
      (hcreated.node_iff _ _).mp (hnodes.2.2 right hright)⟩
  · rw [hmap]
    exact nodup_distinctPairs hnodup
  · rintro pair _ ⟨found, hfound, _⟩
    rw [hpool] at hfound
    cases hfound

/-- Removing a list of edges. -/
theorem foldl_removeEdge (edges : List EdgeIndex) (graph : G) :
    (∀ node, StableDiGraph.nodeWeight
      (edges.foldl StableDiGraph.removeEdge graph) node =
        StableDiGraph.nodeWeight graph node) ∧
    (∀ e, StableDiGraph.edge (edges.foldl StableDiGraph.removeEdge graph) e =
      if e ∈ edges then none else StableDiGraph.edge graph e) ∧
    (∀ node, StableDiGraph.outgoing
      (edges.foldl StableDiGraph.removeEdge graph) node =
        (StableDiGraph.outgoing graph node).filter (· ∉ edges)) := by
  induction edges generalizing graph with
  | nil => simp
  | cons head tail ih =>
      obtain ⟨hnode, hedge, houtgoing⟩ := ih (StableDiGraph.removeEdge graph head)
      simp only [List.foldl_cons]
      refine ⟨?_, ?_, ?_⟩
      · intro node
        rw [hnode, StableDiGraph.nodeWeight_removeEdge]
      · intro e
        rw [hedge, StableDiGraph.edge_removeEdge]
        by_cases htail : e ∈ tail <;> by_cases hhead : e = head <;>
          simp [htail, hhead]
      · intro node
        rw [houtgoing, StableDiGraph.outgoing_removeEdge, List.filter_filter]
        apply List.filter_congr
        intro e _
        simp [Bool.and_comm]

omit [StableDiGraph G Address EdgeData] in
/-- Components that the cache clean-up leaves alone. -/
theorem foldl_retainCachedEdges (pool : PoolKey) (tokens : List Address)
    (g : AmmGraph G) :
    let retained := tokens.foldl (retainCachedEdges pool) g
    g.SameTokens retained ∧ retained.graph = g.graph ∧
      retained.nodeMap = g.nodeMap ∧ retained.edgeMap = g.edgeMap := by
  induction tokens generalizing g with
  | nil => exact ⟨⟨rfl, rfl, rfl⟩, rfl, rfl, rfl⟩
  | cons head tail ih =>
      have hstep : g.SameTokens (retainCachedEdges pool g head) ∧
          (retainCachedEdges pool g head).graph = g.graph ∧
          (retainCachedEdges pool g head).nodeMap = g.nodeMap ∧
          (retainCachedEdges pool g head).edgeMap = g.edgeMap := by
        unfold retainCachedEdges
        cases g.nodeMap.lookup head <;> exact ⟨⟨rfl, rfl, rfl⟩, rfl, rfl, rfl⟩
      obtain ⟨hsame, hgraph, hnodes, hedges⟩ := ih (retainCachedEdges pool g head)
      exact ⟨hstep.1.trans hsame, hgraph.trans hstep.2.1,
        hnodes.trans hstep.2.2.1, hedges.trans hstep.2.2.2⟩

omit [StableDiGraph G Address EdgeData] in
theorem outgoingEdges_retainCachedEdges (pool : PoolKey) (g : AmmGraph G)
    (token : Address) (node : NodeIndex) :
    (retainCachedEdges pool g token).outgoingEdges node =
      if g.nodeMap.lookup token = some node then
        (g.outgoingEdges node).filter fun edge => edge.pool ≠ pool
      else g.outgoingEdges node := by
  unfold retainCachedEdges outgoingEdges
  cases hlookup : g.nodeMap.lookup token with
  | none => simp
  | some found =>
      simp only [lookup_alter, Option.some.injEq]
      by_cases hnode : node = found
      · subst hnode
        cases g.outgoingCache.lookup node <;> simp
      · simp [hnode, Ne.symm hnode]

omit [StableDiGraph G Address EdgeData] in
/-- The clean-up visits every node whose cached edges mention the pool. -/
theorem outgoingEdges_foldl_retainCachedEdges (pool : PoolKey)
    (tokens : List Address) (g : AmmGraph G)
    (hcover : ∀ node, (∃ token ∈ tokens, g.nodeMap.lookup token = some node) ∨
      ∀ edge ∈ g.outgoingEdges node, edge.pool ≠ pool) (node : NodeIndex) :
    (tokens.foldl (retainCachedEdges pool) g).outgoingEdges node =
      (g.outgoingEdges node).filter fun edge => edge.pool ≠ pool := by
  induction tokens generalizing g with
  | nil =>
      rcases hcover node with ⟨_, htoken, _⟩ | hclean
      · cases htoken
      · exact (List.filter_eq_self.mpr (by simpa using hclean)).symm
  | cons head tail ih =>
      have hnodes : (retainCachedEdges pool g head).nodeMap = g.nodeMap :=
        (foldl_retainCachedEdges pool [head] g).2.2.1
      simp only [List.foldl_cons]
      rw [ih, outgoingEdges_retainCachedEdges]
      · split
        · rw [List.filter_filter]
          simp
        · rfl
      · intro other
        rw [outgoingEdges_retainCachedEdges, hnodes]
        by_cases hhead : g.nodeMap.lookup head = some other
        · right
          intro edge hedge
          rw [if_pos hhead] at hedge
          simpa using (List.mem_filter.mp hedge).2
        · rw [if_neg hhead]
          rcases hcover other with ⟨token, htoken, hlookup⟩ | hclean
          · rcases List.mem_cons.mp htoken with rfl | htail
            · exact absurd hlookup hhead
            · exact Or.inl ⟨token, htail, hlookup⟩
          · exact Or.inr hclean

/-- Unlinking a pool whose tokens cover its pairs removes exactly its pairs. -/
theorem Linked.removePoolEdges {g : AmmGraph G}
    {pairs : PoolKey → Address → Address → Prop} (hlinked : g.Linked pairs)
    (pool : PoolKey)
    (hcover : ∀ tokenIn tokenOut, pairs pool tokenIn tokenOut →
      tokenIn ∈ (g.poolTokens.lookup pool).getD []) :
    (g.removePoolEdges pool).2.Linked fun pool' tokenIn tokenOut =>
      pool' ≠ pool ∧ pairs pool' tokenIn tokenOut := by
  unfold AmmGraph.removePoolEdges
  cases hedges : g.edgeMap.lookup pool with
  | none =>
      have hempty : ∀ tokenIn tokenOut, ¬ pairs pool tokenIn tokenOut := by
        intro tokenIn tokenOut hpairs
        obtain ⟨e, record, hrecord, hpool, _⟩ := hlinked.edge_exists _ _ _ hpairs
        have hmem := (hlinked.mem_edgeMap pool e).mpr ⟨record, hrecord, hpool⟩
        rw [hedges] at hmem
        cases hmem
      have hcongr := hlinked.congr (fun pool' tokenIn tokenOut =>
        pool' ≠ pool ∧ pairs pool' tokenIn tokenOut) (by
          intro pool' tokenIn tokenOut
          refine ⟨fun hpairs => ⟨?_, hpairs⟩, And.right⟩
          rintro rfl
          exact hempty tokenIn tokenOut hpairs)
      exact ⟨hcongr.node_iff, hcongr.edge_pair, hcongr.edge_exists,
        hcongr.edge_unique, hcongr.mem_edgeMap, hcongr.edgeMap_ne_nil,
        hcongr.cached⟩
  | some edges =>
      set tokens := (g.poolTokens.lookup pool).getD [] with htokens
      simp only
      set cut : AmmGraph G :=
        { g with
          poolTokens := g.poolTokens.erase pool
          pairPools := removePoolPairs g.pairPools pool tokens
          edgeMap := g.edgeMap.erase pool
          graph := edges.foldl StableDiGraph.removeEdge g.graph } with hcut
      obtain ⟨_, hgraph, hnodeMap, hedgeMap⟩ :=
        foldl_retainCachedEdges pool tokens cut
      set retained := tokens.foldl (retainCachedEdges pool) cut
      obtain ⟨hnode, hedge, houtgoing⟩ := foldl_removeEdge edges g.graph
      have hmem : ∀ e, e ∈ edges ↔ ∃ record,
          StableDiGraph.edge g.graph e = some record ∧
            record.weight.pool = pool := by
        intro e
        have := hlinked.mem_edgeMap pool e
        rwa [hedges] at this
      have htoken : ∀ node, retained.nodeToken node = g.nodeToken node := by
        intro node
        rw [nodeToken, hgraph]
        exact hnode node
      have hrecord : ∀ e record,
          StableDiGraph.edge retained.graph e = some record ↔
            StableDiGraph.edge g.graph e = some record ∧
              record.weight.pool ≠ pool := by
        intro e record
        rw [hgraph]
        change StableDiGraph.edge (edges.foldl StableDiGraph.removeEdge g.graph) e =
          some record ↔ _
        rw [hedge]
        by_cases he : e ∈ edges
        · rw [if_pos he]
          obtain ⟨found, hfound, hpool⟩ := (hmem e).mp he
          refine ⟨fun hnone => (Option.some_ne_none record hnone.symm).elim, ?_⟩
          rintro ⟨hsome, hne⟩
          obtain rfl := Option.some.inj (hfound.symm.trans hsome)
          exact absurd hpool hne
        · rw [if_neg he]
          refine ⟨fun hsome => ⟨hsome, fun hpool => he ?_⟩, And.left⟩
          exact (hmem e).mpr ⟨record, hsome, hpool⟩
      have hhas : ∀ e pool' tokenIn tokenOut,
          retained.HasEdge e pool' tokenIn tokenOut ↔
            pool' ≠ pool ∧ g.HasEdge e pool' tokenIn tokenOut := by
        intro e pool' tokenIn tokenOut
        simp only [HasEdge, hrecord, htoken]
        constructor
        · rintro ⟨record, ⟨hsome, hne⟩, rfl, hin, hout⟩
          exact ⟨hne, record, hsome, rfl, hin, hout⟩
        · rintro ⟨hne, record, hsome, rfl, hin, hout⟩
          exact ⟨record, ⟨hsome, hne⟩, rfl, hin, hout⟩
      refine ⟨?_, ?_, ?_, ?_, ?_, ?_, ?_⟩
      · intro token node
        rw [hnodeMap, htoken]
        exact hlinked.node_iff token node
      · intro e record hsome
        obtain ⟨hsome, hne⟩ := (hrecord e record).mp hsome
        obtain ⟨tokenIn, tokenOut, hfound, hpairs⟩ :=
          hlinked.edge_pair e record hsome
        exact ⟨tokenIn, tokenOut, (hhas _ _ _ _).mpr ⟨hne, hfound⟩, hne, hpairs⟩
      · rintro pool' tokenIn tokenOut ⟨hne, hpairs⟩
        obtain ⟨e, hfound⟩ := hlinked.edge_exists _ _ _ hpairs
        exact ⟨e, (hhas _ _ _ _).mpr ⟨hne, hfound⟩⟩
      · intro e other pool' tokenIn tokenOut hleft hright
        exact hlinked.edge_unique e other pool' tokenIn tokenOut
          ((hhas _ _ _ _).mp hleft).2 ((hhas _ _ _ _).mp hright).2
      · intro pool' e
        rw [hedgeMap]
        change e ∈ ((g.edgeMap.erase pool).lookup pool').getD [] ↔ _
        rw [lookup_erase_eq]
        simp only [hrecord]
        by_cases hpool : pool' = pool
        · subst hpool
          simp only [if_pos, Option.getD_none, List.not_mem_nil, false_iff]
          rintro ⟨record, ⟨_, hne⟩, heq⟩
          exact hne heq
        · rw [if_neg hpool, hlinked.mem_edgeMap]
          constructor
          · rintro ⟨record, hsome, rfl⟩
            exact ⟨record, ⟨hsome, hpool⟩, rfl⟩
          · rintro ⟨record, ⟨hsome, _⟩, heq⟩
            exact ⟨record, hsome, heq⟩
      · intro pool'
        rw [hedgeMap]
        change (g.edgeMap.erase pool).lookup pool' ≠ some []
        rw [lookup_erase_eq]
        split
        · simp
        · exact hlinked.edgeMap_ne_nil pool'
      · intro node
        have hretain := outgoingEdges_foldl_retainCachedEdges pool tokens cut
          ?_ node
        · rw [hretain, hgraph]
          change (g.outgoingEdges node).filter _ =
            (StableDiGraph.outgoing
              (edges.foldl StableDiGraph.removeEdge g.graph) node).filterMap _
          rw [houtgoing, hlinked.cached node]
          apply filter_filterMap_eq
          intro e he
          obtain ⟨record, hsome, _⟩ := edge_of_mem_outgoing he
          obtain ⟨tokenIn, tokenOut, hin, hout, _⟩ := hlinked.endpoints hsome
          have hpool : record.weight.pool ≠ pool ↔ e ∉ edges := by
            rw [hmem, hsome]
            simp
          refine ⟨⟨record.target, tokenIn, tokenOut, record.weight.pool⟩, ?_, ?_, ?_⟩
          · simp [cachedEdge, hsome, hin, hout]
          · simpa only [decide_eq_decide] using hpool
          · intro hnot
            have hkept := (hrecord e record).mpr
              ⟨hsome, hpool.mpr (of_decide_eq_true hnot)⟩
            simp [cachedEdge, hkept, htoken, hin, hout]
        · intro other
          by_cases hsome : ∃ token ∈ tokens, g.nodeMap.lookup token = some other
          · exact Or.inl hsome
          · right
            intro view hview' hpool
            change view ∈ g.outgoingEdges other at hview'
            rw [hlinked.cached other] at hview'
            obtain ⟨e, he, hcached⟩ := List.mem_filterMap.mp hview'
            obtain ⟨record, hrec, rfl⟩ := edge_of_mem_outgoing he
            obtain ⟨tokenIn, tokenOut, hin, hout, hpairs⟩ := hlinked.endpoints hrec
            simp only [cachedEdge, hrec, hin, hout, Option.bind_some,
              Option.map_some, Option.some.injEq] at hcached
            subst hcached
            simp only at hpool
            rw [hpool] at hpairs
            exact hsome ⟨tokenIn, hcover tokenIn tokenOut hpairs,
              (hlinked.node_iff _ _).mpr hin⟩

theorem sameTokens_pruneOrphanToken (g : AmmGraph G) (token : Address) :
    g.SameTokens (g.pruneOrphanToken token) := by
  unfold pruneOrphanToken
  split
  · exact ⟨rfl, rfl, rfl⟩
  · split <;> exact ⟨rfl, rfl, rfl⟩

/-- Pruning an orphan node changes no edge. -/
theorem Linked.pruneOrphanToken {g : AmmGraph G}
    {pairs : PoolKey → Address → Address → Prop} (hlinked : g.Linked pairs)
    (token : Address) : (g.pruneOrphanToken token).Linked pairs := by
  unfold AmmGraph.pruneOrphanToken
  cases hlookup : g.nodeMap.lookup token with
  | none => exact hlinked
  | some node =>
      by_cases horphan : StableDiGraph.outgoing g.graph node = [] ∧
          StableDiGraph.incoming g.graph node = []
      · simp only [if_pos horphan]
        obtain ⟨hout, hinc⟩ := horphan
        have hweight : ∀ other,
            StableDiGraph.nodeWeight (StableDiGraph.removeNode g.graph node) other =
              if other = node then none else g.nodeToken other :=
          fun other => StableDiGraph.nodeWeight_removeNode g.graph node other hout hinc
        apply hlinked.of_same_edges
        · intro other index
          change (g.nodeMap.erase token).lookup other = some index ↔
            StableDiGraph.nodeWeight _ index = some other
          rw [lookup_erase_eq, hweight]
          by_cases hother : other = token
          · subst hother
            simp only [if_pos, reduceCtorEq, false_iff]
            split
            · simp
            · intro hsome
              have hmapped := (hlinked.node_iff other index).mpr hsome
              rw [hlookup] at hmapped
              exact absurd (Option.some.inj hmapped).symm ‹_›
          · rw [if_neg hother, hlinked.node_iff]
            by_cases hindex : index = node
            · subst hindex
              have hnode := (hlinked.node_iff token index).mp hlookup
              simp [hnode, Ne.symm hother]
            · rw [if_neg hindex]
        · exact fun e => StableDiGraph.edge_removeNode g.graph node e hout hinc
        · exact fun other =>
            StableDiGraph.outgoing_removeNode g.graph node other hout hinc
        · intro e record hrecord
          change StableDiGraph.nodeWeight _ _ = _
          rw [hweight, if_neg]
          rintro rfl
          have hmem := (StableDiGraph.mem_outgoing g.graph _ e).mpr
            ⟨record, hrecord, rfl⟩
          rw [hout] at hmem
          cases hmem
        · intro e record hrecord
          change StableDiGraph.nodeWeight _ _ = _
          rw [hweight, if_neg]
          rintro rfl
          have hmem := (StableDiGraph.mem_incoming g.graph _ e).mpr
            ⟨record, hrecord, rfl⟩
          rw [hinc] at hmem
          cases hmem
        · intro other
          change ((g.outgoingCache.erase node).lookup other).getD [] = _
          rw [lookup_erase_eq]
          split
          · rename_i hother
            rw [hother, hlinked.cached node, hout]
            rfl
          · rfl
        · rfl
      · simp only [if_neg horphan]
        exact hlinked

/-- A node that survives its own pruning is an endpoint of a pair. -/
theorem Linked.nodeMap_pruneOrphanToken {g : AmmGraph G}
    {pairs : PoolKey → Address → Address → Prop} (hlinked : g.Linked pairs)
    (token : Address) {other : Address} {node : NodeIndex}
    (hlookup : (g.pruneOrphanToken token).nodeMap.lookup other = some node) :
    g.nodeMap.lookup other = some node ∧
      (other = token → ∃ pool peer, pairs pool other peer ∨ pairs pool peer other) := by
  unfold AmmGraph.pruneOrphanToken at hlookup
  cases htoken : g.nodeMap.lookup token with
  | none =>
      simp only [htoken] at hlookup
      refine ⟨hlookup, ?_⟩
      rintro rfl
      rw [htoken] at hlookup
      cases hlookup
  | some index =>
      simp only [htoken] at hlookup
      split at hlookup
      · change (g.nodeMap.erase token).lookup other = some node at hlookup
        rw [lookup_erase_eq] at hlookup
        split at hlookup
        · cases hlookup
        · exact ⟨hlookup, fun heq => absurd heq ‹_›⟩
      · rename_i hused
        refine ⟨hlookup, ?_⟩
        rintro rfl
        obtain rfl := Option.some.inj (htoken.symm.trans hlookup)
        have hnode := (hlinked.node_iff other index).mp htoken
        rw [not_and_or] at hused
        rcases hused with hout | hinc
        · obtain ⟨e, he⟩ := List.exists_mem_of_ne_nil _ hout
          obtain ⟨record, hrecord, rfl⟩ := edge_of_mem_outgoing he
          obtain ⟨tokenIn, tokenOut, hin, _, hpairs⟩ := hlinked.endpoints hrecord
          obtain rfl := Option.some.inj (hnode.symm.trans hin)
          exact ⟨_, tokenOut, Or.inl hpairs⟩
        · obtain ⟨e, he⟩ := List.exists_mem_of_ne_nil _ hinc
          obtain ⟨record, hrecord, rfl⟩ :=
            (StableDiGraph.mem_incoming g.graph _ e).mp he
          obtain ⟨tokenIn, tokenOut, _, hout, hpairs⟩ := hlinked.endpoints hrecord
          obtain rfl := Option.some.inj (hnode.symm.trans hout)
          exact ⟨_, tokenIn, Or.inr hpairs⟩

/-- Pruning a list of tokens keeps the pairs and every used node. -/
theorem Linked.pruneOrphanTokens {g : AmmGraph G}
    {pairs : PoolKey → Address → Address → Prop} (hlinked : g.Linked pairs)
    (tokens : List Address) :
    (g.pruneOrphanTokens tokens).Linked pairs ∧
      g.SameTokens (g.pruneOrphanTokens tokens) ∧
      ∀ token node, (g.pruneOrphanTokens tokens).nodeMap.lookup token = some node →
        g.nodeMap.lookup token = some node ∧
          (token ∈ tokens →
            ∃ pool peer, pairs pool token peer ∨ pairs pool peer token) := by
  induction tokens generalizing g with
  | nil => exact ⟨hlinked, ⟨rfl, rfl, rfl⟩, fun _ _ h => ⟨h, by simp⟩⟩
  | cons head tail ih =>
      obtain ⟨hpruned, hsame, hnodes⟩ := ih (hlinked.pruneOrphanToken head)
      refine ⟨hpruned, (sameTokens_pruneOrphanToken g head).trans hsame, ?_⟩
      intro token node hlookup
      obtain ⟨hstep, htail⟩ := hnodes token node hlookup
      obtain ⟨hold, hhead⟩ := hlinked.nodeMap_pruneOrphanToken head hstep
      refine ⟨hold, fun hmem => ?_⟩
      rcases List.mem_cons.mp hmem with heq | hrest
      · exact hhead heq
      · exact htail hrest

end AmmGraph

end AmmSearch
