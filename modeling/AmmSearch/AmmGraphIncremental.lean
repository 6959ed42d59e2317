/-
Updating the token graph one pool at a time agrees with a full build from the
registrations that are left at the end, whatever the order of the updates.
-/
import AmmSearch.AmmGraphOperations
import AmmSearch.FiniteMapTotals

open FiniteMap StableGraph

namespace AmmSearch

/-- The edges of a pool indexed under `entry`. -/
def entryEdges : Option (List Address) → ℕ
  | none => 0
  | some tokens => directedEdgeCount tokens.length

theorem removedEdges_poolMutation (current entry : Option (List Address)) :
    (poolMutation current entry).removedEdges = entryEdges current := by
  cases current <;> cases entry <;> rfl

theorem addedEdges_poolMutation (current entry : Option (List Address)) :
    (poolMutation current entry).addedEdges = entryEdges entry := by
  cases current <;> cases entry <;> rfl

theorem topologyChanged_poolMutation {current entry : Option (List Address)}
    (hne : current ≠ entry) : (poolMutation current entry).topologyChanged = true := by
  cases current with
  | none =>
      cases entry with
      | none => exact absurd rfl hne
      | some added => rfl
  | some removed => cases entry <;> rfl

namespace AmmGraph

variable {G : Type} [StableDiGraph G Address EdgeData]

/-- Pool and tokens of edge `e`. -/
def edgeEnds (g : AmmGraph G) (e : EdgeIndex) :
    Option (PoolKey × Address × Address) :=
  (g.cachedEdge e).map fun view => (view.pool, view.tokenIn, view.tokenOut)

/-- The directed edges with multiplicity, without their indices. -/
def edgeMultiset (g : AmmGraph G) : Multiset (PoolKey × Address × Address) :=
  ((StableDiGraph.edgeIndices g.graph).filterMap g.edgeEnds : List _)

section Edges

variable {g g' : AmmGraph G}

theorem edgeEnds_eq_some_iff (e : EdgeIndex) (pool : PoolKey)
    (tokenIn tokenOut : Address) :
    g.edgeEnds e = some (pool, tokenIn, tokenOut) ↔
      g.HasEdge e pool tokenIn tokenOut := by
  constructor
  · intro hends
    obtain ⟨view, hview, heq⟩ := Option.map_eq_some_iff.mp hends
    obtain ⟨record, hrecord, hrest⟩ := Option.bind_eq_some_iff.mp hview
    obtain ⟨source, hsource, hrest⟩ := Option.bind_eq_some_iff.mp hrest
    obtain ⟨target, htarget, rfl⟩ := Option.map_eq_some_iff.mp hrest
    cases heq
    exact ⟨record, hrecord, rfl, hsource, htarget⟩
  · rintro ⟨record, hrecord, rfl, hin, hout⟩
    simp [edgeEnds, cachedEdge, hrecord, hin, hout]

theorem mem_edgeMultiset (g : AmmGraph G) (pool : PoolKey)
    (tokenIn tokenOut : Address) :
    (pool, tokenIn, tokenOut) ∈ g.edgeMultiset ↔
      ∃ e, g.HasEdge e pool tokenIn tokenOut := by
  simp only [edgeMultiset, Multiset.mem_coe, List.mem_filterMap,
    edgeEnds_eq_some_iff]
  constructor
  · rintro ⟨e, _, hedge⟩
    exact ⟨e, hedge⟩
  · rintro ⟨e, hedge⟩
    obtain ⟨record, hrecord, _⟩ := id hedge
    exact ⟨e, (StableDiGraph.mem_edgeIndices g.graph e).mpr
      (Option.isSome_of_eq_some hrecord), hedge⟩

theorem Valid.nodup_edgeMultiset (hvalid : g.Valid) : g.edgeMultiset.Nodup := by
  rw [edgeMultiset, Multiset.coe_nodup]
  apply (StableDiGraph.nodup_edgeIndices g.graph).filterMap
  rintro e other ⟨pool, tokenIn, tokenOut⟩ he hother
  exact hvalid.indexed.linked.edge_unique e other _ _ _
    ((edgeEnds_eq_some_iff _ _ _ _).mp he) ((edgeEnds_eq_some_iff _ _ _ _).mp hother)

/-- The pool map determines the edges. -/
theorem Valid.edgeMultiset_eq (hvalid : g.Valid) (hvalid' : g'.Valid)
    (htokens : g.poolTokens = g'.poolTokens) : g.edgeMultiset = g'.edgeMultiset := by
  have hmem : ∀ {graph : AmmGraph G}, graph.Valid → ∀ pool tokenIn tokenOut,
      (pool, tokenIn, tokenOut) ∈ graph.edgeMultiset ↔
        graph.HasPair pool tokenIn tokenOut := by
    intro graph hgraph pool tokenIn tokenOut
    rw [mem_edgeMultiset]
    constructor
    · rintro ⟨e, hedge⟩
      exact hgraph.indexed.linked.pairs_of_hasEdge hedge
    · exact hgraph.indexed.linked.edge_exists pool tokenIn tokenOut
  apply (Multiset.Nodup.ext hvalid.nodup_edgeMultiset hvalid'.nodup_edgeMultiset).mpr
  rintro ⟨pool, tokenIn, tokenOut⟩
  rw [hmem hvalid, hmem hvalid', HasPair, HasPair, htokens]

/-- The pool map determines the pair index. -/
theorem Valid.pairPools_eq (hvalid : g.Valid) (hvalid' : g'.Valid)
    (htokens : g.poolTokens = g'.poolTokens) : g.pairPools = g'.pairPools := by
  apply Finmap.ext_lookup
  intro pair
  obtain ⟨hne, hmem⟩ := hvalid.indexed.pairs pair
  obtain ⟨hne', hmem'⟩ := hvalid'.indexed.pairs pair
  have hsets : (g.pairPools.lookup pair).getD ∅ = (g'.pairPools.lookup pair).getD ∅ := by
    ext pool
    rw [hmem, hmem', htokens]
  cases hleft : g.pairPools.lookup pair with
  | none =>
      cases hright : g'.pairPools.lookup pair with
      | none => rfl
      | some pools =>
          simp only [hleft, hright, Option.getD_none, Option.getD_some] at hsets
          rw [hright, ← hsets] at hne'
          exact absurd rfl hne'
  | some pools =>
      cases hright : g'.pairPools.lookup pair with
      | none =>
          simp only [hleft, hright, Option.getD_none, Option.getD_some] at hsets
          rw [hleft, hsets] at hne
          exact absurd rfl hne
      | some others =>
          simp only [hleft, hright, Option.getD_some] at hsets
          rw [hsets]

theorem Valid.edgesForPool_eq (hvalid : g.Valid) (pool : PoolKey) :
    g.edgesForPool pool = (g.edgeMap.lookup pool).getD [] := by
  apply List.filter_eq_self.mpr
  exact hvalid.indexed.linked.listsLive pool

theorem Valid.length_edgesForPool (hvalid : g.Valid) (pool : PoolKey) :
    (g.edgesForPool pool).length = entryEdges (g.poolTokens.lookup pool) := by
  rw [hvalid.edgesForPool_eq]
  cases hlookup : g.poolTokens.lookup pool with
  | none =>
      have hedges := hvalid.indexed.lookup_edgeMap_isSome pool
      rw [hlookup] at hedges
      have hnone : g.edgeMap.lookup pool = none := by simpa using hedges
      simp [hnone, entryEdges]
  | some tokens =>
      obtain ⟨edges, hedges⟩ := hvalid.indexed.exists_edges hlookup
      rw [hedges]
      exact hvalid.tidy.length_edges hvalid.indexed hlookup hedges

/-- The edges of the graph are the edges of its pools. -/
theorem Valid.edgeCount_eq_sum (hvalid : g.Valid) :
    g.edgeCount =
      ∑ pool ∈ g.poolTokens.keys, entryEdges (g.poolTokens.lookup pool) := by
  have hmem : ∀ e pool, e ∈ (g.edgesForPool pool).toFinset ↔ ∃ record,
      StableDiGraph.edge g.graph e = some record ∧ record.weight.pool = pool := by
    intro e pool
    rw [List.mem_toFinset, hvalid.edgesForPool_eq]
    exact hvalid.indexed.linked.mem_edgeMap pool e
  have hunion : (StableDiGraph.edgeIndices g.graph).toFinset =
      g.poolTokens.keys.biUnion fun pool => (g.edgesForPool pool).toFinset := by
    ext e
    rw [List.mem_toFinset, StableDiGraph.mem_edgeIndices, Finset.mem_biUnion,
      Option.isSome_iff_exists]
    constructor
    · rintro ⟨record, hrecord⟩
      obtain ⟨_, _, _, tokens, htokens, _⟩ :=
        hvalid.indexed.linked.edge_pair e record hrecord
      refine ⟨record.weight.pool, ?_, (hmem e _).mpr ⟨record, hrecord, rfl⟩⟩
      exact Finmap.mem_keys.mpr (Finmap.mem_iff.mpr ⟨tokens, htokens⟩)
    · rintro ⟨pool, _, he⟩
      obtain ⟨record, hrecord, _⟩ := (hmem e pool).mp he
      exact ⟨record, hrecord⟩
  have hdisjoint : (g.poolTokens.keys : Set PoolKey).PairwiseDisjoint
      fun pool => (g.edgesForPool pool).toFinset := by
    intro pool _ other _ hne
    rw [Function.onFun, Finset.disjoint_left]
    intro e he hother
    obtain ⟨record, hrecord, hpool⟩ := (hmem e pool).mp he
    obtain ⟨record', hrecord', hother⟩ := (hmem e other).mp hother
    obtain rfl := Option.some.inj (hrecord.symm.trans hrecord')
    exact hne (hpool.symm.trans hother)
  have hcard : ∀ pool ∈ g.poolTokens.keys, (g.edgesForPool pool).toFinset.card =
      entryEdges (g.poolTokens.lookup pool) := by
    intro pool _
    rw [← hvalid.length_edgesForPool]
    apply List.toFinset_card_of_nodup
    rw [hvalid.edgesForPool_eq]
    cases hlookup : g.edgeMap.lookup pool with
    | none => exact List.nodup_nil
    | some edges => exact hvalid.tidy.edges_once pool edges hlookup
  rw [edgeCount, ← List.toFinset_card_of_nodup
    (StableDiGraph.nodup_edgeIndices g.graph), hunion,
    Finset.card_biUnion hdisjoint]
  exact Finset.sum_congr rfl hcard

/-- Replacing one entry changes the number of edges by that entry's edges. -/
theorem Valid.edgeCount_replace (hvalid : g.Valid) (hvalid' : g'.Valid)
    (pool : PoolKey) (hothers : ∀ other ≠ pool,
      g'.poolTokens.lookup other = g.poolTokens.lookup other) :
    g'.edgeCount + entryEdges (g.poolTokens.lookup pool) =
      g.edgeCount + entryEdges (g'.poolTokens.lookup pool) := by
  have hentry : ∀ entry : Option (List Address),
      entryEdges entry = entry.elim 0 fun tokens => directedEdgeCount tokens.length := by
    intro entry
    cases entry <;> rfl
  have htotal : ∀ {graph : AmmGraph G}, graph.Valid → graph.edgeCount =
      total (fun tokens => directedEdgeCount tokens.length) graph.poolTokens := by
    intro graph hgraph
    rw [hgraph.edgeCount_eq_sum]
    exact Finset.sum_congr rfl fun pool _ => hentry _
  rw [htotal hvalid, htotal hvalid', hentry, hentry]
  exact total_replace _ hothers

end Edges

section OtherPools

variable {g : AmmGraph G}

theorem edgeMap_removePoolEdges (g : AmmGraph G) {pool other : PoolKey}
    (hne : other ≠ pool) :
    (g.removePoolEdges pool).2.edgeMap.lookup other = g.edgeMap.lookup other := by
  unfold removePoolEdges
  cases g.edgeMap.lookup pool with
  | none => rfl
  | some edges =>
      simp only
      rw [(foldl_retainCachedEdges pool _ _).2.2.2]
      simp only [lookup_erase_eq, if_neg hne]

theorem edgeMap_pruneOrphanTokens (g : AmmGraph G) (tokens : List Address) :
    (g.pruneOrphanTokens tokens).edgeMap = g.edgeMap := by
  induction tokens generalizing g with
  | nil => rfl
  | cons head tail ih =>
      have hstep : (g.pruneOrphanToken head).edgeMap = g.edgeMap := by
        unfold pruneOrphanToken
        split
        · rfl
        · split <;> rfl
      exact (ih _).trans hstep

theorem edgeMap_getOrCreateNodes (g : AmmGraph G) (tokens : List Address) :
    (g.getOrCreateNodes tokens).2.edgeMap = g.edgeMap := by
  induction tokens generalizing g with
  | nil => rfl
  | cons head tail ih =>
      have hstep : (g.getOrCreateNode head).2.edgeMap = g.edgeMap := by
        unfold getOrCreateNode
        split <;> rfl
      exact (ih _).trans hstep

theorem edgeMap_addPoolEdges (g : AmmGraph G) {pool other : PoolKey}
    (hne : other ≠ pool) (tokens : List Address) :
    (g.addPoolEdges pool tokens).edgeMap.lookup other = g.edgeMap.lookup other := by
  have hfold : ∀ (ends : List ((NodeIndex × Address) × (NodeIndex × Address)))
      (graph : AmmGraph G),
      (ends.foldl (addDirectedEdge pool) graph).edgeMap.lookup other =
        graph.edgeMap.lookup other := by
    intro ends
    induction ends with
    | nil => exact fun _ => rfl
    | cons head tail ih =>
        intro graph
        rw [List.foldl_cons, ih]
        exact (lookup_alter graph.edgeMap pool other _).trans (if_neg hne)
  exact (hfold _ _).trans (by rw [edgeMap_getOrCreateNodes])

theorem edgeMap_setPool (g : AmmGraph G) {pool other : PoolKey}
    (hne : other ≠ pool) (entry : Option (List Address)) :
    (g.setPool pool entry).edgeMap.lookup other = g.edgeMap.lookup other := by
  have hretired : (g.retirePool pool).edgeMap.lookup other =
      g.edgeMap.lookup other := by
    rw [retirePool, edgeMap_pruneOrphanTokens]
    exact edgeMap_removePoolEdges g hne
  cases entry with
  | none => exact hretired
  | some tokens => exact (edgeMap_addPoolEdges _ hne tokens).trans hretired

theorem Valid.lookup_setPool (hvalid : g.Valid) (pool other : PoolKey)
    (entry : Option (List Address)) :
    (g.setPool pool entry).poolTokens.lookup other =
      if other = pool then entry else g.poolTokens.lookup other := by
  cases entry with
  | none => exact hvalid.lookup_retirePool pool other
  | some tokens =>
      rw [AmmGraph.setPool, (Indexed.poolTokens_addPoolEdges _ pool tokens).1,
        lookup_insert_eq, hvalid.lookup_retirePool]
      split <;> rfl

end OtherPools

end AmmGraph

/-- One incremental update of the graph. -/
inductive PoolCommand
  | apply (registration : PoolRegistration)
  | remove (pool : PoolKey)
deriving DecidableEq

namespace PoolCommand

def pool : PoolCommand → PoolKey
  | apply registration => registration.key
  | remove pool => pool

/-- The entry the update leaves for its pool. -/
def entry (options : GraphBuildOptions) : PoolCommand → Option (List Address)
  | apply registration => AmmGraph.registeredEntry registration options
  | remove _ => none

/-- What the update does to the set of registrations. -/
def register (registered : PoolKey → Option PoolRegistration) :
    PoolCommand → PoolKey → Option PoolRegistration
  | apply registration =>
      Function.update registered registration.key (some registration)
  | remove pool => Function.update registered pool none

variable {G : Type} [StableDiGraph G Address EdgeData]

def run (options : GraphBuildOptions) (g : AmmGraph G) :
    PoolCommand → Option (GraphPoolMutation × AmmGraph G)
  | apply registration => g.applyPool registration options
  | remove pool => g.removePoolCompacting pool

end PoolCommand

/-- One call with the graphs it started from and left. -/
structure PoolCall (G : Type) where
  before : AmmGraph G
  command : PoolCommand
  mutation : GraphPoolMutation
  after : AmmGraph G

namespace AmmGraph

variable {G : Type} [StableDiGraph G Address EdgeData]

/-- Apply the commands in order and record every call. -/
def applyCommands (options : GraphBuildOptions) (g : AmmGraph G) :
    List PoolCommand → Option (List (PoolCall G) × AmmGraph G)
  | [] => some ([], g)
  | command :: rest =>
      (command.run options g).bind fun step =>
        (step.2.applyCommands options rest).map fun later =>
          (⟨g, command, step.1, step.2⟩ :: later.1, later.2)

end AmmGraph

namespace PoolCall

variable {G : Type} [StableDiGraph G Address EdgeData]

/-- The call changed the pool map or the token set. -/
def Changed (call : PoolCall G) : Prop :=
  call.before.poolTokens ≠ call.after.poolTokens ∨
    call.before.nodeMap.keys ≠ call.after.nodeMap.keys

/-- The version and the mutation of a call say what it did. -/
structure Reported (call : PoolCall G) : Prop where
  lineage : call.after.version.lineage = call.before.version.lineage
  advanced : call.Changed →
    call.before.version.revision < call.after.version.revision
  kept : ¬ call.Changed → call.after.version = call.before.version
  topologyChanged : call.mutation.topologyChanged = true ↔ call.Changed
  removed : call.mutation.removedEdges =
    if call.mutation.topologyChanged then
      (call.before.edgesForPool call.command.pool).length
    else 0
  added : call.mutation.addedEdges =
    if call.mutation.topologyChanged then
      (call.after.edgesForPool call.command.pool).length
    else 0
  balance : call.after.edgeCount + call.mutation.removedEdges =
    call.before.edgeCount + call.mutation.addedEdges
  others : ∀ pool ≠ call.command.pool,
    call.after.edgesForPool pool = call.before.edgesForPool pool

end PoolCall

namespace AmmGraph

variable {G : Type} [StableDiGraph G Address EdgeData]
  {options : GraphBuildOptions} {g g' : AmmGraph G}

/-- A command leaves the graph alone when its entry is already there, and
otherwise replaces the entry and advances the version. -/
theorem run_cases (hvalid : g.Valid) {command : PoolCommand}
    {mutation : GraphPoolMutation}
    (hrun : command.run options g = some (mutation, g')) :
    (g.poolTokens.lookup command.pool = command.entry options ∧ g' = g ∧
      mutation.topologyChanged = false ∧ mutation.removedEdges = 0 ∧
      mutation.addedEdges = 0) ∨
    (g.poolTokens.lookup command.pool ≠ command.entry options ∧
      mutation = poolMutation (g.poolTokens.lookup command.pool)
        (command.entry options) ∧
      g' = { g.setPool command.pool (command.entry options) with
        version := ⟨g.version.lineage, g.version.revision + 1⟩ }) := by
  have hbump : ∀ {pool : PoolKey} {entry : Option (List Address)}
      {bumped : AmmGraph G}, (g.setPool pool entry).bumpVersion = some bumped →
      bumped = { g.setPool pool entry with
        version := ⟨g.version.lineage, g.version.revision + 1⟩ } := by
    intro pool entry bumped hbumped
    obtain ⟨_, rfl⟩ := bumpVersion_eq_some_iff.mp hbumped
    rw [version_setPool hvalid]
  cases command with
  | apply registration =>
      change g.applyPool registration options = some (mutation, g') at hrun
      rw [applyPool_eq hvalid] at hrun
      split at hrun
      · rename_i hsame
        obtain ⟨rfl, rfl⟩ := Prod.mk.inj (Option.some.inj hrun)
        refine Or.inl ⟨hsame, rfl, ?_⟩
        unfold idleMutation
        split <;> exact ⟨rfl, rfl, rfl⟩
      · rename_i hdiffer
        obtain ⟨bumped, hbumped, heq⟩ := Option.map_eq_some_iff.mp hrun
        obtain ⟨rfl, rfl⟩ := Prod.mk.inj heq
        exact Or.inr ⟨hdiffer, rfl, hbump hbumped⟩
  | remove pool =>
      change g.removePoolCompacting pool = some (mutation, g') at hrun
      rw [removePoolCompacting_eq hvalid] at hrun
      cases hlookup : g.poolTokens.lookup pool with
      | none =>
          simp only [hlookup, Option.some.injEq, Prod.mk.injEq] at hrun
          obtain ⟨rfl, rfl⟩ := hrun
          exact Or.inl ⟨hlookup, rfl, rfl, rfl, rfl⟩
      | some tokens =>
          simp only [hlookup] at hrun
          obtain ⟨bumped, hbumped, heq⟩ := Option.map_eq_some_iff.mp hrun
          obtain ⟨rfl, rfl⟩ := Prod.mk.inj heq
          refine Or.inr ⟨?_, ?_, hbump hbumped⟩
          · change g.poolTokens.lookup pool ≠ none
            rw [hlookup]
            exact Option.some_ne_none tokens
          · change _ = poolMutation (g.poolTokens.lookup pool) none
            rw [hlookup]

/-- A command only fails at the last revision. -/
theorem run_isSome (hvalid : g.Valid) (command : PoolCommand)
    (hrevision : g.version.revision < u64Max) :
    ∃ mutation g', command.run options g = some (mutation, g') ∧
      g'.version.revision ≤ g.version.revision + 1 := by
  have hbump : ∀ pool entry, ∃ bumped, (g.setPool pool entry).bumpVersion =
      some bumped ∧ bumped.version.revision = g.version.revision + 1 := by
    intro pool entry
    refine ⟨_, bumpVersion_eq_some_iff.mpr ⟨?_, rfl⟩, ?_⟩
    · rw [version_setPool hvalid]
      exact hrevision
    · rw [version_setPool hvalid]
  cases command with
  | apply registration =>
      obtain ⟨bumped, hbumped, hversion⟩ := hbump registration.key
        (registeredEntry registration options)
      simp only [PoolCommand.run, applyPool_eq hvalid, hbumped, Option.map_some]
      split
      · exact ⟨_, g, rfl, Nat.le_succ _⟩
      · exact ⟨_, bumped, rfl, hversion.le⟩
  | remove pool =>
      obtain ⟨bumped, hbumped, hversion⟩ := hbump pool none
      simp only [PoolCommand.run, removePoolCompacting_eq hvalid, hbumped,
        Option.map_some]
      split
      · exact ⟨_, g, rfl, Nat.le_succ _⟩
      · exact ⟨_, bumped, rfl, hversion.le⟩

theorem Valid.run (hvalid : g.Valid) {command : PoolCommand}
    {mutation : GraphPoolMutation}
    (hrun : command.run options g = some (mutation, g')) : g'.Valid := by
  cases command with
  | apply registration => exact hvalid.applyPool hrun
  | remove pool => exact hvalid.removePoolCompacting hrun

theorem lookup_run (hvalid : g.Valid) {command : PoolCommand}
    {mutation : GraphPoolMutation}
    (hrun : command.run options g = some (mutation, g')) (pool : PoolKey) :
    g'.poolTokens.lookup pool =
      if pool = command.pool then command.entry options
      else g.poolTokens.lookup pool := by
  rcases run_cases hvalid hrun with ⟨hsame, rfl, _⟩ | ⟨_, _, rfl⟩
  · split
    · rename_i heq
      rw [heq, hsame]
    · rfl
  · exact hvalid.lookup_setPool command.pool pool _

/-- Every call is reported as it happened. -/
theorem reported_run (hvalid : g.Valid) {command : PoolCommand}
    {mutation : GraphPoolMutation}
    (hrun : command.run options g = some (mutation, g')) :
    PoolCall.Reported ⟨g, command, mutation, g'⟩ := by
  have hvalid' := hvalid.run hrun
  have hlookup := lookup_run hvalid hrun
  have hbalance := hvalid.edgeCount_replace hvalid' command.pool (by
    intro other hne
    rw [hlookup, if_neg hne])
  rw [hlookup, if_pos rfl] at hbalance
  rcases run_cases hvalid hrun with
    ⟨_, rfl, hidle, hremoved, hadded⟩ | ⟨hdiffer, rfl, rfl⟩
  · have hunchanged : ¬ PoolCall.Changed ⟨g', command, mutation, g'⟩ := by
      simp [PoolCall.Changed]
    constructor
    · rfl
    · exact fun hchanged => absurd hchanged hunchanged
    · exact fun _ => rfl
    · simp [hidle, hunchanged]
    · simp [hidle, hremoved]
    · simp [hidle, hadded]
    · simp only [hremoved, hadded]
    · exact fun _ _ => rfl
  · have hchanged : PoolCall.Changed ⟨g, command,
        poolMutation (g.poolTokens.lookup command.pool) (command.entry options),
        { g.setPool command.pool (command.entry options) with
          version := ⟨g.version.lineage, g.version.revision + 1⟩ }⟩ :=
      Or.inl (poolTokens_setPool_ne hvalid hdiffer).symm
    have htopology := topologyChanged_poolMutation hdiffer
    constructor
    · rfl
    · exact fun _ => Nat.lt_succ_self _
    · exact fun hunchanged => absurd hchanged hunchanged
    · simp only [htopology, hchanged]
    · simp only [htopology, if_true]
      rw [removedEdges_poolMutation, hvalid.length_edgesForPool]
    · simp only [htopology, if_true]
      rw [addedEdges_poolMutation, hvalid'.length_edgesForPool, hlookup, if_pos rfl]
    · simp only [removedEdges_poolMutation, addedEdges_poolMutation]
      exact hbalance
    · intro other hne
      simp only
      rw [hvalid.edgesForPool_eq, hvalid'.edgesForPool_eq]
      exact congrArg (Option.getD · []) (edgeMap_setPool g hne _)

/-- The graph indexes exactly what is registered and holds no spare token. -/
structure Tracks (g : AmmGraph G) (options : GraphBuildOptions)
    (registered : PoolKey → Option PoolRegistration) : Prop where
  valid : g.Valid
  compact : g.topology.Compact
  lookup : ∀ pool, g.poolTokens.lookup pool =
    (registered pool).bind (registeredEntry · options)

theorem compact_topology (hcompact : g.Compact) (hindexed : g.Indexed) :
    g.topology.Compact := by
  ext token
  rw [mem_tokens, Topology.mem_usedTokens]
  constructor
  · exact hcompact token
  · rintro ⟨pool, tokens, htokens, hmem⟩
    by_contra hnone
    obtain ⟨hsorted, hlength⟩ := hindexed.tokens_valid pool tokens htokens
    obtain ⟨peer, hpeer, hne⟩ : ∃ peer ∈ tokens, token ≠ peer :=
      exists_other_token hsorted hlength token
    obtain ⟨e, record, hrecord, _, hin, _⟩ :=
      hindexed.linked.edge_exists pool token peer ⟨tokens, htokens, hmem, hpeer, hne⟩
    rw [(hindexed.linked.node_iff token record.source).mpr hin] at hnone
    exact hnone rfl

theorem tracks_fromRegistry (lineage : ℕ) (registry : AdapterRegistry)
    (options : GraphBuildOptions) :
    ((fromRegistry lineage registry options).graph : AmmGraph G).Tracks options
      registry.pool := by
  obtain ⟨hindexed, hcompact, _, hlookup⟩ :=
    @fromRegistry_spec G _ lineage registry options
  exact ⟨Valid.fromRegistry lineage registry options,
    compact_topology hcompact hindexed, hlookup⟩

/-- A command leaves no spare token behind. -/
theorem compact_run (hvalid : g.Valid) (hcompact : g.topology.Compact)
    {command : PoolCommand} {mutation : GraphPoolMutation}
    (hrun : command.run options g = some (mutation, g')) : g'.topology.Compact := by
  rcases run_cases hvalid hrun with ⟨_, rfl, _⟩ | ⟨_, _, rfl⟩
  · exact hcompact
  · rw [topology_of_version, topology_setPool hvalid]
    split
    · exact hcompact.retire command.pool
    · apply (hcompact.retire command.pool).index
      rw [Topology.lookup_retire, if_pos rfl]

theorem Tracks.run {registered : PoolKey → Option PoolRegistration}
    (htracks : g.Tracks options registered) {command : PoolCommand}
    {mutation : GraphPoolMutation}
    (hrun : command.run options g = some (mutation, g')) :
    g'.Tracks options (command.register registered) := by
  refine ⟨htracks.valid.run hrun, compact_run htracks.valid htracks.compact hrun, ?_⟩
  intro pool
  rw [lookup_run htracks.valid hrun]
  cases command with
  | apply registration =>
      simp only [PoolCommand.pool, PoolCommand.entry, PoolCommand.register,
        Function.update_apply, htracks.lookup pool]
      split <;> rfl
  | remove removed =>
      simp only [PoolCommand.pool, PoolCommand.entry, PoolCommand.register,
        Function.update_apply, htracks.lookup pool]
      split <;> rfl

/-- Every call of a run is reported, and the run ends with the registrations
its commands leave. -/
theorem Tracks.applyCommands {registered : PoolKey → Option PoolRegistration}
    (commands : List PoolCommand) (htracks : g.Tracks options registered)
    {calls : List (PoolCall G)}
    (hrun : g.applyCommands options commands = some (calls, g')) :
    g'.Tracks options (commands.foldl PoolCommand.register registered) ∧
      ∀ call ∈ calls, call.Reported := by
  induction commands generalizing g registered calls with
  | nil =>
      cases hrun
      exact ⟨htracks, by simp⟩
  | cons command rest ih =>
      obtain ⟨⟨mutation, next⟩, hstep, hrest⟩ := Option.bind_eq_some_iff.mp hrun
      obtain ⟨⟨later, last⟩, hlater, heq⟩ := Option.map_eq_some_iff.mp hrest
      cases heq
      obtain ⟨htracks', hreported⟩ := ih (htracks.run hstep) hlater
      refine ⟨htracks', ?_⟩
      intro call hcall
      rcases List.mem_cons.mp hcall with rfl | hmem
      · exact reported_run htracks.valid hstep
      · exact hreported call hmem

theorem applyCommands_isSome (hvalid : g.Valid) (commands : List PoolCommand)
    (hrevision : g.version.revision + commands.length ≤ u64Max) :
    (g.applyCommands options commands).isSome := by
  induction commands generalizing g with
  | nil => rfl
  | cons command rest ih =>
      rw [List.length_cons] at hrevision
      obtain ⟨mutation, next, hstep, hnext⟩ :=
        @run_isSome G _ options g hvalid command (by omega)
      have hrest := ih (hvalid.run hstep) (by omega)
      obtain ⟨later, hlater⟩ := Option.isSome_iff_exists.mp hrest
      simp [AmmGraph.applyCommands, hstep, hlater]

/-- Updates one pool at a time end where a full build of the final
registrations ends, and report every change on the way. -/
theorem applyCommands_eq_rebuild (lineage lineage' : ℕ)
    (initial final : AdapterRegistry) (options : GraphBuildOptions)
    (commands : List PoolCommand)
    (hfinal : final.pool = commands.foldl PoolCommand.register initial.pool) :
    let start : AmmGraph G := (fromRegistry lineage initial options).graph
    let rebuilt : AmmGraph G := (fromRegistry lineage' final options).graph
    (commands.length ≤ u64Max → (start.applyCommands options commands).isSome) ∧
    ∀ calls g', start.applyCommands options commands = some (calls, g') →
      g'.poolTokens = rebuilt.poolTokens ∧
      g'.nodeMap.keys = rebuilt.nodeMap.keys ∧
      g'.edgeMultiset = rebuilt.edgeMultiset ∧
      g'.pairPools = rebuilt.pairPools ∧
      ∀ call ∈ calls, call.Reported := by
  intro start rebuilt
  have hstart := @tracks_fromRegistry G _ lineage initial options
  have hrebuilt := @tracks_fromRegistry G _ lineage' final options
  refine ⟨?_, ?_⟩
  · intro hlength
    apply applyCommands_isSome hstart.valid
    rw [(@fromRegistry_spec G _ lineage initial options).2.2.1]
    simpa [GraphVersion.initial] using hlength
  · intro calls g' hrun
    obtain ⟨htracks, hreported⟩ := hstart.applyCommands commands hrun
    have htokens : g'.poolTokens = rebuilt.poolTokens := by
      apply Finmap.ext_lookup
      intro pool
      rw [htracks.lookup, hrebuilt.lookup, hfinal]
    have hkeys : g'.nodeMap.keys = rebuilt.nodeMap.keys := by
      have hleft : g'.nodeMap.keys = Topology.usedTokens g'.poolTokens :=
        htracks.compact
      have hright : rebuilt.nodeMap.keys = Topology.usedTokens rebuilt.poolTokens :=
        hrebuilt.compact
      rw [hleft, hright, htokens]
    exact ⟨htokens, hkeys, htracks.valid.edgeMultiset_eq hrebuilt.valid htokens,
      htracks.valid.pairPools_eq hrebuilt.valid htokens, hreported⟩

end AmmGraph

namespace TwoPoolGraph

/-- The left pool is replaced by the right one. -/
theorem applyCommands_replace :
    ∃ calls g', ((AmmGraph.fromRegistry 1 (registry [left] (by decide)) {}).graph :
        AmmGraph (SlotGraph Address EdgeData)).applyCommands {}
        [.apply right, .remove left.key] = some (calls, g') ∧
      calls.map PoolCall.mutation = [.added 2, .removed 2] ∧
      g'.poolTokens = ((AmmGraph.fromRegistry 2 (registry [right] (by decide)) {}).graph :
        AmmGraph (SlotGraph Address EdgeData)).poolTokens := by
  refine ⟨_, _, rfl, rfl, ?_⟩
  have hfinal : (registry [right] (by decide)).pool =
      [PoolCommand.apply right, PoolCommand.remove left.key].foldl
        PoolCommand.register (registry [left] (by decide)).pool := by
    funext key
    simp only [List.foldl_cons, List.foldl_nil, PoolCommand.register,
      Function.update_apply, AdapterRegistry.pool, registry, List.find?_cons,
      List.find?_nil]
    by_cases hright : key = right.key
    · subst hright
      decide
    · by_cases hleft : key = left.key
      · subst hleft
        decide
      · simp [hright, hleft, Ne.symm hright, Ne.symm hleft]
  exact ((AmmGraph.applyCommands_eq_rebuild 1 2 _ _ {} _ hfinal).2 _ _ rfl).1

end TwoPoolGraph

end AmmSearch
