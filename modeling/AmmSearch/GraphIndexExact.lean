/-
The counters of the request-path index.  An index is consistent when its edge
count and its pools by token are those of its own pool map; a delta that is
applied keeps it so, whatever pools it lists.
-/
import AmmSearch.GraphIndex
import AmmSearch.LiveGraphMirror

open FiniteMap StableGraph

namespace AmmSearch

section Counts

/-- An entry raised by a number of occurrences. -/
def raise (entry : Option ℕ) (occurrences : ℕ) : Option ℕ :=
  if occurrences = 0 then entry else some (entry.getD 0 + occurrences)

theorem raise_raise (entry : Option ℕ) (first second : ℕ) :
    raise (raise entry first) second = raise entry (first + second) := by
  unfold raise
  by_cases hfirst : first = 0
  · simp [hfirst]
  · by_cases hsecond : second = 0
    · simp [hsecond]
    · simp [hfirst, hsecond, Nat.add_assoc]

theorem raise_none (occurrences : ℕ) :
    raise none occurrences = (some occurrences).filter (· ≠ 0) := by
  unfold raise
  by_cases hzero : occurrences = 0 <;> simp [hzero, Option.filter]

theorem getD_filter_ne_zero (count : ℕ) : ((some count).filter (· ≠ 0)).getD 0 = count := by
  by_cases hzero : count = 0 <;> simp [hzero, Option.filter]

theorem lookup_countTokens (counts : Map Address ℕ) (tokens : List Address)
    (token : Address) :
    (countTokens counts tokens).lookup token =
      raise (counts.lookup token) (tokens.count token) := by
  induction tokens generalizing counts with
  | nil => simp [countTokens, raise]
  | cons head rest ih =>
      have hcons : countTokens counts (head :: rest) =
          countTokens (alter counts head fun count => some (count.getD 0 + 1)) rest := rfl
      rw [hcons, ih, lookup_alter, List.count_cons]
      by_cases hhead : token = head
      · subst hhead
        have hone : some ((counts.lookup token).getD 0 + 1) =
            raise (counts.lookup token) 1 := rfl
        rw [if_pos rfl, hone, raise_raise, Nat.add_comm]
        simp
      · simp [hhead, Ne.symm hhead]

/-- The number of pools that list a token. -/
theorem lookup_tokenPoolCounts (poolTokens : Map PoolKey (List Address)) (token : Address) :
    (tokenPoolCounts poolTokens).lookup token =
      (some (total (List.count token) poolTokens)).filter (· ≠ 0) := by
  have hfold : ∀ (pools : List PoolKey) (counts : Map Address ℕ),
      (pools.foldl (fun counts pool =>
        countTokens counts ((poolTokens.lookup pool).getD [])) counts).lookup token =
        raise (counts.lookup token)
          (pools.map fun pool => (poolTokens.lookup pool).elim 0 (List.count token)).sum := by
    intro pools
    induction pools with
    | nil => simp [raise]
    | cons head rest ih =>
        intro counts
        have hcount : ((poolTokens.lookup head).getD []).count token =
            (poolTokens.lookup head).elim 0 (List.count token) := by
          cases poolTokens.lookup head <;> rfl
        rw [List.foldl_cons, ih, lookup_countTokens, raise_raise, hcount, List.map_cons,
          List.sum_cons]
  unfold tokenPoolCounts
  rw [hfold, Finmap.lookup_empty, raise_none, ← total_eq_sum]

/-- A prepared count, or the current one of a token that was not touched. -/
def preparedCount (current next : Map Address ℕ) (token : Address) : ℕ :=
  (next.lookup token).getD ((current.lookup token).getD 0)

theorem preparedCount_insert (current next : Map Address ℕ) (head token : Address)
    (count : ℕ) :
    preparedCount current (next.insert head count) token =
      if token = head then count else preparedCount current next token := by
  unfold preparedCount
  rw [lookup_insert_eq]
  split <;> rfl

theorem updateTokenCounts_remove {current next counts : Map Address ℕ}
    {tokens : List Address}
    (hupdate : updateTokenCounts current .remove tokens next = .ok counts)
    (token : Address) :
    preparedCount current counts token + tokens.count token =
      preparedCount current next token := by
  induction tokens generalizing next with
  | nil =>
      cases hupdate
      simp
  | cons head rest ih =>
      simp only [updateTokenCounts] at hupdate
      split at hupdate
      · rename_i hcount
        have hrest := ih hupdate
        rw [preparedCount_insert] at hrest
        rw [List.count_cons]
        by_cases hhead : token = head
        · subst hhead
          change 1 ≤ preparedCount current next token at hcount
          change _ = if token = token then preparedCount current next token - 1 else _ at hrest
          simp only [if_true, beq_self_eq_true] at hrest ⊢
          omega
        · rw [if_neg hhead] at hrest
          simp only [beq_iff_eq, Ne.symm hhead, if_false]
          exact hrest
      · cases hupdate

theorem updateTokenCounts_add {current next counts : Map Address ℕ}
    {tokens : List Address}
    (hupdate : updateTokenCounts current .add tokens next = .ok counts)
    (token : Address) :
    preparedCount current counts token =
      preparedCount current next token + tokens.count token := by
  induction tokens generalizing next with
  | nil =>
      cases hupdate
      simp
  | cons head rest ih =>
      simp only [updateTokenCounts] at hupdate
      split at hupdate
      · have hrest := ih hupdate
        rw [preparedCount_insert] at hrest
        rw [List.count_cons]
        by_cases hhead : token = head
        · subst hhead
          change _ = (if token = token then preparedCount current next token + 1 else _) + _
            at hrest
          simp only [if_true, beq_self_eq_true] at hrest ⊢
          omega
        · rw [if_neg hhead] at hrest
          simp only [beq_iff_eq, Ne.symm hhead, if_false]
          exact hrest
      · cases hupdate

theorem checkedDirectedEdgeCount_ok {tokens count : ℕ}
    (hcount : checkedDirectedEdgeCount tokens = .ok count) :
    count = directedEdgeCount tokens := by
  unfold checkedDirectedEdgeCount at hcount
  split at hcount
  · exact (Except.ok.inj hcount).symm
  · cases hcount

end Counts

namespace GraphIndex

variable {index next : GraphIndex} {prepared after : PreparedDelta} {delta : GraphDelta}

/-- The directed edges of a pool. -/
def edgeWeight (tokens : List Address) : ℕ :=
  directedEdgeCount tokens.length

/-- The counters are those of the pool map. -/
structure Consistent (index : GraphIndex) : Prop where
  edges : index.edges = total edgeWeight index.poolTokens
  tokenPools : index.tokenPools = tokenPoolCounts index.poolTokens

/-- The pool map under the changes prepared so far. -/
def preparedPools (index : GraphIndex) (prepared : PreparedDelta) :
    Map PoolKey (List Address) :=
  (index.write prepared 0).poolTokens

theorem lookup_preparedPools (index : GraphIndex) (prepared : PreparedDelta)
    (pool : PoolKey) :
    (index.preparedPools prepared).lookup pool = index.currentTokens prepared pool := by
  have hfold : ∀ (pools : List PoolKey) (poolTokens : Map PoolKey (List Address)),
      (pools.foldl (fun poolTokens pool =>
        alter poolTokens pool fun _ => (prepared.pools.lookup pool).join)
          poolTokens).lookup pool =
        if pool ∈ pools then (prepared.pools.lookup pool).join
        else poolTokens.lookup pool := by
    intro pools
    induction pools with
    | nil => simp
    | cons head rest ih =>
        intro poolTokens
        rw [List.foldl_cons, ih, lookup_alter]
        by_cases hpool : pool = head
        · subst hpool
          simp
        · simp [hpool]
  unfold preparedPools write currentTokens
  simp only
  rw [hfold]
  cases hlookup : prepared.pools.lookup pool with
  | none =>
      rw [if_neg]
      · rfl
      · rw [mem_ascending, Finmap.mem_keys]
        exact Finmap.lookup_eq_none.mp hlookup
  | some entry =>
      rw [if_pos]
      · cases entry <;> rfl
      · rw [mem_ascending, Finmap.mem_keys]
        exact Finmap.mem_of_lookup_eq_some hlookup

/-- The prepared counters are those of the prepared pool map. -/
structure Prepares (index : GraphIndex) (pools : Map PoolKey (List Address))
    (prepared : PreparedDelta) : Prop where
  edges : prepared.edges = total edgeWeight pools
  counts : ∀ token, preparedCount index.tokenPools prepared.tokenCounts token =
    total (List.count token) pools

/-- The counters before and after one entry is taken off. -/
theorem subtractPool_spec {pool : PoolKey} {entry : Option (List Address)}
    (hsubtract : index.subtractPool prepared pool entry = .ok after) :
    after.pools = prepared.pools ∧
      after.edges + entry.elim 0 edgeWeight = prepared.edges ∧
      ∀ token, preparedCount index.tokenPools after.tokenCounts token +
          entry.elim 0 (List.count token) =
        preparedCount index.tokenPools prepared.tokenCounts token := by
  cases entry with
  | none =>
      cases hsubtract
      exact ⟨rfl, rfl, fun _ => rfl⟩
  | some tokens =>
      simp only [subtractPool] at hsubtract
      cases hcount : checkedDirectedEdgeCount tokens.length with
      | error error =>
          rw [hcount] at hsubtract
          cases hsubtract
      | ok removed =>
          simp only [hcount] at hsubtract
          split at hsubtract
          · rename_i hle
            cases hupdate : updateTokenCounts index.tokenPools .remove tokens
                prepared.tokenCounts with
            | error error =>
                rw [hupdate] at hsubtract
                cases hsubtract
            | ok counts =>
                rw [hupdate] at hsubtract
                cases hsubtract
                refine ⟨rfl, ?_, updateTokenCounts_remove hupdate⟩
                simp only [Option.elim_some, edgeWeight]
                rw [← checkedDirectedEdgeCount_ok hcount]
                exact Nat.sub_add_cancel hle
          · cases hsubtract

theorem addPool_spec {entry : Option (List Address)}
    (hadd : index.addPool prepared entry = .ok after) :
    after.pools = prepared.pools ∧
      after.edges = prepared.edges + entry.elim 0 edgeWeight ∧
      ∀ token, preparedCount index.tokenPools after.tokenCounts token =
        preparedCount index.tokenPools prepared.tokenCounts token +
          entry.elim 0 (List.count token) := by
  cases entry with
  | none =>
      cases hadd
      exact ⟨rfl, rfl, fun _ => rfl⟩
  | some tokens =>
      simp only [addPool] at hadd
      cases hcount : checkedDirectedEdgeCount tokens.length with
      | error error =>
          rw [hcount] at hadd
          cases hadd
      | ok added =>
          simp only [hcount] at hadd
          split at hadd
          · cases hupdate : updateTokenCounts index.tokenPools .add tokens
                prepared.tokenCounts with
            | error error =>
                rw [hupdate] at hadd
                cases hadd
            | ok counts =>
                rw [hupdate] at hadd
                cases hadd
                refine ⟨rfl, ?_, updateTokenCounts_add hupdate⟩
                simp only [Option.elim_some, edgeWeight]
                rw [← checkedDirectedEdgeCount_ok hcount]
          · cases hadd

/-- A prepared change replaces one entry of the pool map. -/
theorem prepareChange_spec {change : GraphPoolDelta}
    (hprepares : index.Prepares (index.preparedPools prepared) prepared)
    (hchange : index.prepareChange prepared change = .ok after) :
    index.Prepares (index.preparedPools after) after ∧
      index.currentTokens prepared change.pool = canonicalTokens change.before ∧
      ∀ pool, index.currentTokens after pool =
        if pool = change.pool then canonicalTokens change.after
        else index.currentTokens prepared pool := by
  simp only [prepareChange] at hchange
  split at hchange
  · cases hchange
  rename_i hcurrent
  have hbefore := not_not.mp hcurrent
  cases hsubtract : index.subtractPool prepared change.pool
      (canonicalTokens change.before) with
  | error error =>
      rw [hsubtract] at hchange
      cases hchange
  | ok subtracted =>
      simp only [hsubtract] at hchange
      cases hadd : index.addPool subtracted (canonicalTokens change.after) with
      | error error =>
          rw [hadd] at hchange
          cases hchange
      | ok added =>
          rw [hadd] at hchange
          obtain ⟨hpools, hedges, hcounts⟩ := subtractPool_spec hsubtract
          obtain ⟨hpools', hedges', hcounts'⟩ := addPool_spec hadd
          have hafter := (Except.ok.inj hchange).symm
          have hpoolsAfter : after.pools = prepared.pools.insert change.pool
              (canonicalTokens change.after) := by
            rw [hafter, ← hpools, ← hpools']
          have hcurrentAfter : ∀ pool, index.currentTokens after pool =
              if pool = change.pool then canonicalTokens change.after
              else index.currentTokens prepared pool := by
            intro pool
            simp only [currentTokens, hpoolsAfter, lookup_insert_eq]
            split <;> rfl
          -- the two pool maps differ in one entry
          have htotal : ∀ weight : List Address → ℕ,
              total weight (index.preparedPools after) +
                  (canonicalTokens change.before).elim 0 weight =
                total weight (index.preparedPools prepared) +
                  (canonicalTokens change.after).elim 0 weight := by
            intro weight
            have hreplace := @total_replace _ _ _ (index.preparedPools prepared)
              (index.preparedPools after) change.pool weight (by
                intro other hother
                rw [lookup_preparedPools, lookup_preparedPools, hcurrentAfter,
                  if_neg hother])
            rw [lookup_preparedPools, lookup_preparedPools, hbefore, hcurrentAfter,
              if_pos rfl] at hreplace
            exact hreplace
          have hedgesAfter : after.edges = added.edges := by rw [hafter]
          have hcountsAfter : after.tokenCounts = added.tokenCounts := by rw [hafter]
          refine ⟨⟨?_, fun token => ?_⟩, hbefore, hcurrentAfter⟩
          · have hweights := htotal edgeWeight
            rw [← hprepares.edges] at hweights
            omega
          · have hweights := htotal (List.count token)
            rw [← hprepares.counts] at hweights
            have hsubtracted := hcounts token
            have hadded := hcounts' token
            rw [hcountsAfter]
            omega

/-- What a list of changes that is prepared in full does to the pool map. -/
theorem prepareChanges_spec {changes : List GraphPoolDelta}
    (hprepares : index.Prepares (index.preparedPools prepared) prepared)
    (hchanges : index.prepareChanges changes prepared = .ok after) :
    index.Prepares (index.preparedPools after) after ∧
      ∀ pool, index.currentTokens after pool =
        changes.foldl (fun entry change =>
          if pool = change.pool then canonicalTokens change.after else entry)
          (index.currentTokens prepared pool) := by
  induction changes generalizing prepared with
  | nil =>
      cases hchanges
      exact ⟨hprepares, fun _ => rfl⟩
  | cons change rest ih =>
      simp only [prepareChanges] at hchanges
      cases hchange : index.prepareChange prepared change with
      | error error =>
          rw [hchange] at hchanges
          cases hchanges
      | ok middle =>
          rw [hchange] at hchanges
          obtain ⟨hmiddle, _, hcurrent⟩ := prepareChange_spec hprepares hchange
          obtain ⟨hafter, hlookup⟩ := ih hmiddle hchanges
          refine ⟨hafter, fun pool => ?_⟩
          rw [hlookup, List.foldl_cons, hcurrent]

/-- Nothing is prepared yet. -/
theorem Consistent.prepares (hconsistent : index.Consistent) :
    index.Prepares (index.preparedPools ⟨index.edges, ∅, ∅⟩) ⟨index.edges, ∅, ∅⟩ := by
  have hpools : index.preparedPools ⟨index.edges, ∅, ∅⟩ = index.poolTokens := by
    refine Finmap.ext_lookup fun pool => ?_
    rw [lookup_preparedPools, currentTokens, Finmap.lookup_empty, Option.getD_none]
  refine ⟨?_, fun token => ?_⟩
  · rw [hpools]
    exact hconsistent.edges
  · rw [hpools, preparedCount, Finmap.lookup_empty, Option.getD_none, hconsistent.tokenPools,
      lookup_tokenPoolCounts, getD_filter_ne_zero]

theorem lookup_write_tokenPools (index : GraphIndex) (prepared : PreparedDelta)
    (stateVersion : ℕ) (token : Address) :
    (index.write prepared stateVersion).tokenPools.lookup token =
      match prepared.tokenCounts.lookup token with
      | some count => (some count).filter (· ≠ 0)
      | none => index.tokenPools.lookup token := by
  have hfold : ∀ (tokens : List Address) (tokenPools : Map Address ℕ),
      (tokens.foldl (fun tokenPools token =>
        alter tokenPools token fun _ =>
          (prepared.tokenCounts.lookup token).filter (· ≠ 0)) tokenPools).lookup token =
        if token ∈ tokens then (prepared.tokenCounts.lookup token).filter (· ≠ 0)
        else tokenPools.lookup token := by
    intro tokens
    induction tokens with
    | nil => simp
    | cons head rest ih =>
        intro tokenPools
        rw [List.foldl_cons, ih, lookup_alter]
        by_cases htoken : token = head
        · subst htoken
          simp
        · simp [htoken]
  unfold write
  simp only
  rw [hfold]
  cases hlookup : prepared.tokenCounts.lookup token with
  | none =>
      rw [if_neg]
      rw [mem_ascending, Finmap.mem_keys]
      exact Finmap.lookup_eq_none.mp hlookup
  | some count =>
      rw [if_pos]
      rw [mem_ascending, Finmap.mem_keys]
      exact Finmap.mem_of_lookup_eq_some hlookup

/-- Writing prepared counters keeps the index consistent. -/
theorem Consistent.write (hconsistent : index.Consistent)
    (hprepares : index.Prepares (index.preparedPools prepared) prepared)
    (stateVersion : ℕ) : (index.write prepared stateVersion).Consistent := by
  refine ⟨hprepares.edges, Finmap.ext_lookup fun token => ?_⟩
  have hpools : (index.write prepared stateVersion).poolTokens =
      index.preparedPools prepared := rfl
  have hcount := hprepares.counts token
  rw [hpools, lookup_tokenPoolCounts, lookup_write_tokenPools, ← hcount]
  unfold preparedCount
  cases prepared.tokenCounts.lookup token with
  | some count => rfl
  | none =>
      rw [hconsistent.tokenPools, lookup_tokenPoolCounts]
      simp only [Option.getD_none, getD_filter_ne_zero]

/-- A delta that is not applied leaves the index as it is. -/
theorem applyDelta_cases {outcome : Except GraphIndexError Bool}
    (happly : index.applyDelta delta = (outcome, next)) :
    (outcome ≠ .ok true ∧ next = index) ∨
      (outcome = .ok true ∧ delta.sourceStateVersion = index.stateVersion + 1 ∧
        ∃ prepared, index.prepareChanges delta.poolChanges ⟨index.edges, ∅, ∅⟩ =
          .ok prepared ∧ next = index.write prepared delta.sourceStateVersion) := by
  unfold applyDelta at happly
  split at happly
  · cases happly
    exact Or.inl ⟨by simp, rfl⟩
  split at happly
  · cases happly
    exact Or.inl ⟨by simp, rfl⟩
  rename_i expected hexpected
  split at happly
  · cases happly
    exact Or.inl ⟨by simp, rfl⟩
  rename_i hsource
  split at happly
  · cases happly
    exact Or.inl ⟨by simp, rfl⟩
  rename_i prepared hprepared
  cases happly
  refine Or.inr ⟨rfl, ?_, prepared, hprepared, rfl⟩
  unfold checkedNext at hexpected
  split at hexpected
  · cases hexpected
    exact not_not.mp hsource
  · cases hexpected

/-- An applied delta moves a consistent index on by one version. -/
theorem Consistent.applyDelta (hconsistent : index.Consistent)
    (happly : index.applyDelta delta = (.ok true, next)) :
    next.Consistent ∧ next.stateVersion = index.stateVersion + 1 ∧
      next.stateVersion = delta.sourceStateVersion ∧
      ∀ pool, next.poolTokens.lookup pool =
        delta.poolChanges.foldl (fun entry change =>
          if pool = change.pool then canonicalTokens change.after else entry)
          (index.poolTokens.lookup pool) := by
  rcases applyDelta_cases happly with ⟨hnot, _⟩ | ⟨_, hsource, prepared, hprepared, rfl⟩
  · exact absurd rfl hnot
  · obtain ⟨hprepares, hlookup⟩ := prepareChanges_spec hconsistent.prepares hprepared
    refine ⟨hconsistent.write hprepares _, hsource, rfl, fun pool => ?_⟩
    have hpools : (index.write prepared delta.sourceStateVersion).poolTokens =
        index.preparedPools prepared := rfl
    rw [hpools, lookup_preparedPools, hlookup, currentTokens, Finmap.lookup_empty,
      Option.getD_none]

section FromGraph

variable {G : Type} [StableDiGraph G Address EdgeData] {g : AmmGraph G}

theorem sortDedup_of_pairwise {tokens : List Address} (hsorted : tokens.Pairwise (· < ·)) :
    sortDedup tokens = tokens := by
  have hsort : tokens.insertionSort (· ≤ ·) = tokens :=
    (hsorted.imp fun hlt => le_of_lt hlt).insertionSort_eq
  unfold sortDedup
  rw [hsort]
  exact List.destutter_of_isChain _ _ (hsorted.imp fun hlt => ne_of_lt hlt).isChain

theorem ascending_toFinset {tokens : List Address} (hsorted : tokens.Pairwise (· < ·)) :
    ascending tokens.toFinset = tokens := by
  have hperm : (ascending tokens.toFinset).Perm tokens := by
    rw [← Multiset.coe_eq_coe, ascending_coe, List.toFinset_val,
      (AmmGraph.nodup_of_pairwise_lt hsorted).dedup]
  exact hperm.eq_of_pairwise (fun _ _ _ _ => le_antisymm) (pairwise_ascending _)
    (hsorted.imp fun hlt => le_of_lt hlt)

/-- The tokens that the scan has collected for a pool. -/
theorem lookup_collectEdges (g : AmmGraph G) (pool : PoolKey) (edges : List EdgeIndex)
    (collected : Map PoolKey (Finset Address)) :
    (((edges.foldl (collectEdge g) collected).lookup pool).isSome ↔
      (collected.lookup pool).isSome ∨ ∃ edge ∈ edges, ∃ record,
        StableDiGraph.edge g.graph edge = some record ∧ record.weight.pool = pool) ∧
    ∀ token, token ∈ ((edges.foldl (collectEdge g) collected).lookup pool).getD ∅ ↔
      token ∈ (collected.lookup pool).getD ∅ ∨ ∃ edge ∈ edges, ∃ record,
        StableDiGraph.edge g.graph edge = some record ∧ record.weight.pool = pool ∧
          (g.nodeToken record.source = some token ∨
            g.nodeToken record.target = some token) := by
  induction edges generalizing collected with
  | nil => simp
  | cons head rest ih =>
      obtain ⟨hsome, hmem⟩ := ih (collectEdge g collected head)
      rw [List.foldl_cons, hsome]
      simp only [hmem, List.mem_cons, exists_eq_or_imp]
      unfold collectEdge
      cases hedge : StableDiGraph.edge g.graph head with
      | none => simp
      | some record =>
          simp only [lookup_alter, Option.some.injEq, exists_eq_left']
          by_cases hpool : pool = record.weight.pool
          · subst hpool
            simp [or_assoc, Option.mem_def]
          · simp [hpool, Ne.symm hpool]

/-- The scan finds the pools of the graph with their tokens. -/
theorem poolTokens_fromGraph (hvalid : g.Valid) (stateVersion : ℕ) :
    (fromGraph g stateVersion).poolTokens = g.poolTokens := by
  refine Finmap.ext_lookup fun pool => ?_
  change (mapValues ascending ((StableDiGraph.edgeIndices g.graph).foldl (collectEdge g)
    ∅)).lookup pool = _
  rw [lookup_mapValues]
  obtain ⟨hsome, hmem⟩ := lookup_collectEdges g pool (StableDiGraph.edgeIndices g.graph) ∅
  simp only [Finmap.lookup_empty, Option.isSome_none, Bool.false_eq_true, false_or,
    Option.getD_none, Finset.notMem_empty] at hsome hmem
  generalize ((StableDiGraph.edgeIndices g.graph).foldl (collectEdge g) ∅).lookup pool =
    collected at hsome hmem ⊢
  cases htokens : g.poolTokens.lookup pool with
  | none =>
      cases collected with
      | none => rfl
      | some tokens =>
          obtain ⟨edge, _, record, hedge, rfl⟩ := hsome.mp rfl
          obtain ⟨_, _, _, tokens, hfound, _⟩ := hvalid.indexed.linked.edge_pair edge record hedge
          rw [htokens] at hfound
          cases hfound
  | some tokens =>
      obtain ⟨hsorted, hlength⟩ := hvalid.indexed.tokens_valid pool tokens htokens
      -- every token of the pool lies on an edge to another one
      have hlisted : ∀ token ∈ tokens, ∃ edge ∈ StableDiGraph.edgeIndices g.graph, ∃ record,
          StableDiGraph.edge g.graph edge = some record ∧ record.weight.pool = pool ∧
            g.nodeToken record.source = some token := by
        intro token htoken
        obtain ⟨peer, hpeer, hne⟩ := AmmGraph.exists_other_token hsorted hlength token
        obtain ⟨edge, record, hedge, hpool, hsource, _⟩ :=
          hvalid.indexed.linked.edge_exists pool token peer
            ⟨tokens, htokens, htoken, hpeer, hne⟩
        refine ⟨edge, ?_, record, hedge, hpool, hsource⟩
        rw [StableDiGraph.mem_edgeIndices, hedge]
        rfl
      have hset : ∀ token, token ∈ collected.getD ∅ ↔ token ∈ tokens := by
        intro token
        rw [hmem]
        constructor
        · rintro ⟨edge, _, record, hedge, rfl, hends⟩
          obtain ⟨tokenIn, tokenOut, ⟨record', hedge', _, hin, hout⟩, tokens', htokens',
            hinMem, houtMem, _⟩ := hvalid.indexed.linked.edge_pair edge record hedge
          obtain rfl := Option.some.inj (hedge.symm.trans hedge')
          obtain rfl := Option.some.inj (htokens.symm.trans htokens')
          rcases hends with hsource | htarget
          · rwa [Option.some.inj (hsource.symm.trans hin)]
          · rwa [Option.some.inj (htarget.symm.trans hout)]
        · intro htoken
          obtain ⟨edge, hlist, record, hedge, hpool, hsource⟩ := hlisted token htoken
          exact ⟨edge, hlist, record, hedge, hpool, Or.inl hsource⟩
      cases collected with
      | none =>
          obtain ⟨token, htoken⟩ : ∃ token, token ∈ tokens :=
            List.exists_mem_of_ne_nil tokens (by
              rintro rfl
              simp at hlength)
          simpa using (hset token).mpr htoken
      | some found =>
          have hfound : found = tokens.toFinset := by
            ext token
            rw [List.mem_toFinset]
            exact hset token
          rw [Option.map_some, hfound, ascending_toFinset hsorted]

theorem consistent_fromGraph (hvalid : g.Valid) (stateVersion : ℕ) :
    (fromGraph g stateVersion).Consistent := by
  refine ⟨?_, rfl⟩
  rw [poolTokens_fromGraph hvalid]
  change g.edgeCount = _
  rw [hvalid.edgeCount_eq_sum]
  apply Finset.sum_congr rfl
  intro pool _
  cases g.poolTokens.lookup pool <;> rfl

/-- A consistent index is the one of a graph with its pools. -/
theorem Consistent.eq_fromGraph (hconsistent : index.Consistent) (hvalid : g.Valid)
    (hpools : ∀ pool, index.poolTokens.lookup pool = g.poolTokens.lookup pool) :
    index = fromGraph g index.stateVersion := by
  have hbuilt := consistent_fromGraph hvalid index.stateVersion
  have hsame : index.poolTokens = (fromGraph g index.stateVersion).poolTokens := by
    rw [poolTokens_fromGraph hvalid]
    exact Finmap.ext_lookup hpools
  obtain ⟨stateVersion, edges, poolTokens, tokenPools⟩ := index
  simp only at hsame
  have hedges := hconsistent.edges
  have htokenPools := hconsistent.tokenPools
  simp only at hedges htokenPools
  subst hsame
  rw [hedges, htokenPools, ← hbuilt.edges, ← hbuilt.tokenPools]
  rfl

end FromGraph

end GraphIndex

end AmmSearch
