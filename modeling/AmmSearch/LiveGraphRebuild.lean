/-
The live graph against a rebuild.  Commits and recovery snapshots keep the graph, the
index of active pools and the liquidity targets as a build from the snapshot they stand
for would have them; a target may only know its slot already.
-/
import AmmSearch.LiquidityLocality
import AmmSearch.GraphIndexRuns

open FiniteMap StableGraph

namespace AmmSearch

/-- The source without a discovered slot. -/
def LiquiditySource.undiscovered : LiquiditySource → LiquiditySource
  | .erc20Balance holder _ => .erc20Balance holder none
  | source => source

theorem undiscovered_preserveDiscoveredSource (previous desired : LiquiditySource) :
    (previous.preserveDiscoveredSource desired).undiscovered = desired.undiscovered := by
  unfold LiquiditySource.preserveDiscoveredSource
  split
  · split
    · rename_i hsame
      rw [hsame]
      rfl
    · rfl
  · rfl

theorem undiscovered_desiredSource {registration : PoolRegistration} {token : Address}
    {source : LiquiditySource} (hsource : desiredSource registration token = some source) :
    source.undiscovered = source := by
  unfold desiredSource at hsource
  split at hsource
  case h_7 =>
    obtain rfl := Option.some.inj hsource
    unfold balancerSource
    split
    · rfl
    · rfl
  case h_8 | h_9 => cases hsource
  all_goals
    obtain rfl := Option.some.inj hsource
    split
    · rfl
    · rfl

namespace PoolLiquidityIndex

section Sources

variable {index next : PoolLiquidityIndex} {pool : PoolKey} {token : Address}

/-- The source of a tracked pair, whether or not its slot is known. -/
def trackedSource (index : PoolLiquidityIndex) (pool : PoolKey) (token : Address) :
    Option LiquiditySource :=
  (index.target pool token).map fun found => found.1.undiscovered

/-- The same pairs are tracked with the same sources, and the same counts are recorded. -/
structure SameSources (index next : PoolLiquidityIndex) : Prop where
  byPoolToken : next.byPoolToken = index.byPoolToken
  counts : next.poolTokenCounts = index.poolTokenCounts
  sources : ∀ position : ℕ,
    (next.targets[position]?).map (fun target => target.source.undiscovered) =
      (index.targets[position]?).map fun target => target.source.undiscovered

theorem SameSources.refl (index : PoolLiquidityIndex) : SameSources index index :=
  ⟨rfl, rfl, fun _ => rfl⟩

theorem SameSources.trans {last : PoolLiquidityIndex} (hfirst : SameSources index next)
    (hsecond : SameSources next last) : SameSources index last :=
  ⟨hsecond.byPoolToken.trans hfirst.byPoolToken, hsecond.counts.trans hfirst.counts,
    fun position => (hsecond.sources position).trans (hfirst.sources position)⟩

theorem SameSources.trackedSource (hsame : SameSources index next) (pool : PoolKey)
    (token : Address) : next.trackedSource pool token = index.trackedSource pool token := by
  unfold PoolLiquidityIndex.trackedSource target
  rw [hsame.byPoolToken]
  cases index.byPoolToken.lookup (pool, token) with
  | none => rfl
  | some position =>
      simp only [Option.bind_some, Option.map_map]
      exact hsame.sources position

theorem sameSources_setTargetSlot (token : Address) (slot : U256) (position : ℕ) :
    SameSources index (setTargetSlot token slot index position) := by
  unfold setTargetSlot
  split
  · rename_i target htarget
    split
    · rename_i holder known hsource
      refine ⟨rfl, rfl, fun other => ?_⟩
      simp only [List.getElem?_set]
      by_cases hother : position = other
      · subst hother
        obtain ⟨hlt, -⟩ := List.getElem?_eq_some_iff.mp htarget
        rw [if_pos rfl, if_pos hlt, htarget, Option.map_some, Option.map_some, hsource]
        rfl
      · rw [if_neg hother]
    · exact .refl index
  · exact .refl index

theorem sameSources_setErc20BalanceSlot (token holder : Address) (slot : U256) :
    SameSources index (index.setErc20BalanceSlot token holder slot).2 := by
  have hfold : ∀ (positions : List ℕ) (start : PoolLiquidityIndex),
      SameSources start (positions.foldl (setTargetSlot token slot) start) := by
    intro positions
    induction positions with
    | nil => exact fun start => .refl start
    | cons position rest ih =>
        exact fun start => (sameSources_setTargetSlot token slot position).trans (ih _)
  exact hfold _ index

theorem sameSources_markStale (hmark : index.markStale pool token = .ok next) :
    SameSources index next := by
  unfold markStale at hmark
  split at hmark
  · cases hmark
  · obtain rfl := Except.ok.inj hmark
    refine ⟨rfl, rfl, fun position => ?_⟩
    rw [List.getElem?_modify]
    cases index.targets[position]? with
    | none => rfl
    | some target =>
        simp only [Option.map_eq_map, Option.map_some]
        split
        · rfl
        · rfl

theorem sameSources_refreshFromSnapshot (storageValue : Address → U256 → Option U256) :
    SameSources index (index.refreshFromSnapshot storageValue).1 := by
  refine ⟨rfl, rfl, fun position => ?_⟩
  simp only [refreshFromSnapshot, List.getElem?_map, Option.map_map]
  congr 1
  funext target
  simp only [Function.comp_apply]
  split
  · rfl
  · split
    · rfl
    · rfl

end Sources

section Registered

variable {G : Type} {registry next : AdapterRegistry} {graph after : AmmGraph G}
  {scope : LiquidityIndexScope} {pool : PoolKey}

/-- What is wanted of a pool depends on its metadata and on what the graph tracks. -/
theorem registered_congr
    (hneeded : neededTokens after scope pool = neededTokens graph scope pool)
    (hsame : graph.poolTokens.lookup pool ≠ none → ∃ registration later,
      registry.pool pool = some registration ∧ next.pool pool = some later ∧
        later.metadata = registration.metadata ∧ later.tokens = registration.tokens) :
    (∀ token, registeredSource next after scope pool token =
      registeredSource registry graph scope pool token) ∧
    registeredCount next after scope pool = registeredCount registry graph scope pool := by
  unfold registeredSource registeredCount
  rw [hneeded]
  cases htokens : graph.poolTokens.lookup pool with
  | none =>
      have hempty := @neededTokens_of_absent G graph scope pool htokens
      rw [hempty]
      simp [wantedSource_empty, desiredTargets_empty]
  | some tokens =>
      obtain ⟨registration, later, hregistered, hlater, hmetadata, hlisted⟩ :=
        hsame (by simp [htokens])
      obtain ⟨-, hkey⟩ := (registry.pool_eq_some_iff pool registration).mp hregistered
      obtain ⟨-, hlaterKey⟩ := (next.pool_eq_some_iff pool later).mp hlater
      have hkeys : later.key = registration.key := hlaterKey.trans hkey.symm
      have hdesired : ∀ needed,
          desiredTargets later needed = desiredTargets registration needed := by
        intro needed
        simp only [desiredTargets, hmetadata, hlisted, hkeys]
      have hwanted : ∀ needed token,
          wantedSource later needed token = wantedSource registration needed token := by
        intro needed token
        simp only [wantedSource, desiredSource, hmetadata, hlisted, hkeys]
      rw [hregistered, hlater]
      simp only [Option.bind_some, hdesired, hwanted, hlisted, implies_true, true_and]

/-- The wanted sources have no slots. -/
theorem undiscovered_registeredSource {token : Address} {source : LiquiditySource}
    (hsource : registeredSource registry graph scope pool token = some source) :
    source.undiscovered = source := by
  obtain ⟨registration, -, hwanted⟩ := Option.bind_eq_some_iff.mp hsource
  obtain ⟨tokens, -, hdesired⟩ := Option.bind_eq_some_iff.mp hwanted
  split at hdesired
  · exact undiscovered_desiredSource hdesired
  · cases hdesired

theorem undiscovered_reconciledTarget (previous : Option (LiquiditySource × BalanceState))
    (source : LiquiditySource) :
    (reconciledTarget previous source).1.undiscovered = source.undiscovered := by
  cases previous with
  | none => rfl
  | some found => exact undiscovered_preserveDiscoveredSource found.1 source

end Registered

end PoolLiquidityIndex

/-- What the runtime promises of the snapshots that it publishes: the views of a registry
agree, a registration lists the tokens of its metadata, and an instance keeps both. -/
structure Published (publish : ℕ → AmmStateSnapshot) : Prop where
  version : ∀ version, (publish version).version = version
  coherent : ∀ version, (publish version).registry.Coherent
  lists : ∀ version pool registration,
    (publish version).registry.registry.pool pool = some registration →
      PoolLiquidityIndex.ListsTokens registration
  instances : ∀ version later instanceId registration next,
    (publish version).registry.pool instanceId = some registration →
    (publish later).registry.pool instanceId = some next →
      next.metadata = registration.metadata ∧ next.tokens = registration.tokens

/-- A pool that is not listed has the instance, the registration and the revision that it
had one version before. -/
def AmmStateCommit.Complete (publish : ℕ → AmmStateSnapshot) (commit : AmmStateCommit) : Prop :=
  ∀ version, commit.snapshot.version = version + 1 →
    ∀ key ∉ LiveAmmGraph.changedKeys commit.changes,
    commit.snapshot.registry.poolInstance key = (publish version).registry.poolInstance key ∧
    ∀ instanceId, (publish version).registry.poolInstance key = some instanceId →
      commit.snapshot.registry.pool instanceId = (publish version).registry.pool instanceId ∧
      commit.snapshot.poolRevision instanceId = (publish version).poolRevision instanceId

section Indexing

variable {snapshot : AmmStateSnapshot} {options : GraphBuildOptions}

theorem poolInstance_of_mem {entry : PoolKey × PoolInstanceId}
    (hentry : entry ∈ snapshot.registry.pools) :
    snapshot.registry.poolInstance entry.1 = some entry.2 := by
  unfold AmmRegistryView.poolInstance
  cases hfind : snapshot.registry.pools.find? fun other => other.1 = entry.1 with
  | none =>
      have hnone := List.find?_eq_none.mp hfind entry hentry
      simp at hnone
  | some found =>
      have hkey : found.1 = entry.1 := by simpa using List.find?_some hfind
      rw [List.inj_on_of_nodup_map snapshot.registry.nodup_pools
        (List.mem_of_find?_eq_some hfind) hentry hkey]
      rfl

theorem exists_indexPools {pools : List (PoolKey × PoolInstanceId)}
    (hpools : ∀ entry ∈ pools, ∃ found, indexedPool snapshot entry.2 options = .ok found)
    (indexed : Map PoolKey IndexedPool) :
    ∃ indexed', indexPools snapshot options pools indexed = .ok indexed' := by
  induction pools generalizing indexed with
  | nil => exact ⟨indexed, rfl⟩
  | cons head rest ih =>
      rw [List.forall_mem_cons] at hpools
      obtain ⟨⟨found, hfound⟩, hrest⟩ := hpools
      obtain ⟨key, instanceId⟩ := head
      simp only [indexPools, hfound]
      cases found with
      | none => exact ih hrest indexed
      | some pool => exact ih hrest _

/-- A snapshot whose active pools are known can be indexed. -/
theorem indexedFromSnapshot_of_active {indexed : Map PoolKey IndexedPool}
    (hactive : ∀ key, activePool snapshot options key = .ok (indexed.lookup key)) :
    indexedFromSnapshot snapshot options = .ok indexed := by
  have hlisted : ∀ entry ∈ snapshot.registry.pools,
      ∃ found, indexedPool snapshot entry.2 options = .ok found := by
    intro entry hentry
    have hkey := hactive entry.1
    unfold activePool at hkey
    rw [poolInstance_of_mem hentry] at hkey
    exact ⟨_, hkey⟩
  obtain ⟨built, hbuilt⟩ := exists_indexPools hlisted ∅
  have hsame : built = indexed := by
    apply Finmap.ext_lookup
    intro key
    have hfound := activePool_of_indexedFromSnapshot hbuilt key
    rw [hactive key] at hfound
    exact (Except.ok.inj hfound).symm
  rw [← hsame]
  exact hbuilt

end Indexing

namespace LiveAmmGraph

section Rebuild

variable {G : Type} [StableDiGraph G Address EdgeData] {publish : ℕ → AmmStateSnapshot}
  {live next : LiveAmmGraph G} {lineage : ℕ} {request : Call} {operation : Operation}

/-- The snapshots of a request are published ones, and commits list what changes. -/
def Call.Published (publish : ℕ → AmmStateSnapshot) : Call → Prop
  | .applyCommit commit =>
      commit.snapshot = publish commit.snapshot.version ∧ commit.Complete publish
  | .reconcileSnapshot snapshot => snapshot = publish snapshot.version

def Operation.Published (publish : ℕ → AmmStateSnapshot) : Operation → Prop
  | .call _ request => request.Published publish
  | _ => True

theorem Call.Published.snapshot_eq (hrequest : request.Published publish) :
    request.snapshot = publish request.snapshot.version := by
  cases request with
  | applyCommit commit => exact hrequest.1
  | reconcileSnapshot snapshot => exact hrequest

/-- The live graph stands for the published snapshot of its version. -/
structure Represents (publish : ℕ → AmmStateSnapshot) (live : LiveAmmGraph G) : Prop where
  mirrors : live.Mirrors
  stamp : live.runtimeId = (publish live.stateVersion).runtimeId ∧
    live.point = (publish live.stateVersion).point
  active : ∀ key, activePool (publish live.stateVersion) live.options key =
    .ok (live.indexed.lookup key)
  liquidity : live.liquidity.HolderIndexed
  sources : ∀ pool token, live.liquidity.trackedSource pool token =
    PoolLiquidityIndex.registeredSource (publish live.stateVersion).registry.registry
      live.graph live.liquidityScope pool token
  counts : ∀ pool, live.liquidity.poolTokenCounts.lookup pool =
    PoolLiquidityIndex.registeredCount (publish live.stateVersion).registry.registry
      live.graph live.liquidityScope pool

/-- The registrations of the active pools. -/
theorem registration_of_active {snapshot : AmmStateSnapshot} {options : GraphBuildOptions}
    {key : PoolKey} {pool : IndexedPool} (hcoherent : snapshot.registry.Coherent)
    (hactive : activePool snapshot options key = .ok (some pool)) :
    ∃ registration, snapshot.registry.registry.pool key = some registration ∧
      snapshot.registry.pool pool.instanceId = some registration := by
  obtain ⟨registration, hpool, -, -⟩ := registration_of_activePool hcoherent hactive
  refine ⟨registration, (hcoherent key registration).mpr ⟨pool.instanceId, ?_, hpool⟩, hpool⟩
  unfold activePool at hactive
  cases hinstance : snapshot.registry.poolInstance key with
  | none =>
      rw [hinstance] at hactive
      cases hactive
  | some instanceId =>
      simp only [hinstance] at hactive
      obtain ⟨_, _, _, hidentity⟩ := indexedPool_ok hactive
      rw [(hidentity pool rfl).1]

theorem activePool_congr {snapshot other : AmmStateSnapshot} {options : GraphBuildOptions}
    {key : PoolKey}
    (hinstance : snapshot.registry.poolInstance key = other.registry.poolInstance key)
    (hsame : ∀ instanceId, other.registry.poolInstance key = some instanceId →
      snapshot.registry.pool instanceId = other.registry.pool instanceId ∧
      snapshot.poolRevision instanceId = other.poolRevision instanceId) :
    activePool snapshot options key = activePool other options key := by
  unfold activePool
  rw [hinstance]
  cases hfound : other.registry.poolInstance key with
  | none => rfl
  | some instanceId =>
      obtain ⟨hpool, hrevision⟩ := hsame instanceId hfound
      simp only [indexedPool, hpool, hrevision]

/-- A pool of both indexes with one instance is registered with one metadata. -/
theorem registered_of_identity (hpublished : Published publish)
    (hrepresents : live.Represents publish)
    (hactive : ∀ key, activePool (publish next.stateVersion) next.options key =
      .ok (next.indexed.lookup key)) {pool : PoolKey}
    (hidentity : (live.indexed.lookup pool).map IndexedPool.identity =
      (next.indexed.lookup pool).map IndexedPool.identity)
    (hpresent : live.graph.poolTokens.lookup pool ≠ none) :
    ∃ registration later,
      (publish live.stateVersion).registry.registry.pool pool = some registration ∧
      (publish next.stateVersion).registry.registry.pool pool = some later ∧
        later.metadata = registration.metadata ∧ later.tokens = registration.tokens := by
  rw [hrepresents.mirrors.tokens pool] at hpresent
  have hbefore := hrepresents.active pool
  have hafter := hactive pool
  cases hindexed : live.indexed.lookup pool with
  | none =>
      rw [hindexed] at hpresent
      exact absurd rfl hpresent
  | some previous =>
      rw [hindexed, Option.map_some] at hidentity
      obtain ⟨current, hcurrent, hsame⟩ := Option.map_eq_some_iff.mp hidentity.symm
      rw [hindexed] at hbefore
      rw [hcurrent] at hafter
      obtain ⟨registration, hregistered, hpool⟩ :=
        registration_of_active (hpublished.coherent live.stateVersion) hbefore
      obtain ⟨later, hlater, hlaterPool⟩ :=
        registration_of_active (hpublished.coherent next.stateVersion) hafter
      rw [show current.instanceId = previous.instanceId from congrArg Prod.fst hsame]
        at hlaterPool
      exact ⟨registration, later, hregistered, hlater,
        hpublished.instances _ _ _ _ _ hpool hlaterPool⟩

/-- A commit that keeps the identity of every pool keeps graph and liquidity. -/
theorem Represents.unchanged (hpublished : Published publish)
    (hrepresents : live.Represents publish) (hmirrors : next.Mirrors)
    (hstamp : next.runtimeId = (publish next.stateVersion).runtimeId ∧
      next.point = (publish next.stateVersion).point)
    (hactive : ∀ key, activePool (publish next.stateVersion) next.options key =
      .ok (next.indexed.lookup key))
    (hscope : next.liquidityScope = live.liquidityScope)
    (hidentity : ∀ key, (live.indexed.lookup key).map IndexedPool.identity =
      (next.indexed.lookup key).map IndexedPool.identity)
    (hgraph : next.graph = live.graph) (hliquidity : next.liquidity = live.liquidity) :
    next.Represents publish := by
  have hsame := fun pool => PoolLiquidityIndex.registered_congr
    (congrArg (PoolLiquidityIndex.neededTokens · live.liquidityScope pool) hgraph)
    (registered_of_identity hpublished hrepresents hactive (hidentity pool))
  refine ⟨hmirrors, hstamp, hactive, ?_, fun pool token => ?_, fun pool => ?_⟩
  · rw [hliquidity]
    exact hrepresents.liquidity
  · rw [hliquidity, hscope, (hsame pool).1 token]
    exact hrepresents.sources pool token
  · rw [hliquidity, hscope, (hsame pool).2]
    exact hrepresents.counts pool

/-- A commit or a recovery that reconciles the affected pools. -/
theorem Represents.reconciled (hpublished : Published publish)
    (hrepresents : live.Represents publish) (hmirrors : next.Mirrors)
    (hstamp : next.runtimeId = (publish next.stateVersion).runtimeId ∧
      next.point = (publish next.stateVersion).point)
    (hactive : ∀ key, activePool (publish next.stateVersion) next.options key =
      .ok (next.indexed.lookup key))
    (hscope : next.liquidityScope = live.liquidityScope) {changed : List PoolKey}
    (hothers : ∀ key ∉ changed, next.indexed.lookup key = live.indexed.lookup key)
    (hliquidity : next.liquidity =
      (live.liquidity.reconcilePools (publish next.stateVersion).registry.registry next.graph
        live.liquidityScope
        (liquidityAffectedPools live.graph next.graph live.liquidityScope changed)).1) :
    next.Represents publish := by
  have htokens : ∀ key ∉ changed,
      next.graph.poolTokens.lookup key = live.graph.poolTokens.lookup key := by
    intro key hkey
    rw [hmirrors.tokens key, hrepresents.mirrors.tokens key, hothers key hkey]
  have hunaffected : ∀ pool ∉ liquidityAffectedPools live.graph next.graph
      live.liquidityScope changed,
      (∀ token, PoolLiquidityIndex.registeredSource
          (publish next.stateVersion).registry.registry next.graph live.liquidityScope pool
          token =
        PoolLiquidityIndex.registeredSource (publish live.stateVersion).registry.registry
          live.graph live.liquidityScope pool token) ∧
      PoolLiquidityIndex.registeredCount (publish next.stateVersion).registry.registry
          next.graph live.liquidityScope pool =
        PoolLiquidityIndex.registeredCount (publish live.stateVersion).registry.registry
          live.graph live.liquidityScope pool := by
    intro pool hpool
    have hkey : pool ∉ changed := fun hmem =>
      hpool (mem_liquidityAffectedPools.mpr (Or.inl hmem))
    apply PoolLiquidityIndex.registered_congr
    · exact neededTokens_of_unaffected hrepresents.mirrors.valid.indexed.pairs
        hmirrors.valid.indexed.pairs htokens hpool
    · exact registered_of_identity hpublished hrepresents hactive
        (congrArg (Option.map IndexedPool.identity) (hothers pool hkey).symm)
  have hwell := hrepresents.liquidity.wellFormed
  refine ⟨hmirrors, hstamp, hactive, ?_, fun pool token => ?_, fun pool => ?_⟩
  · rw [hliquidity]
    exact hrepresents.liquidity.foldl_reconcilePool _ _ _ _ _
  · rw [hliquidity, hscope, PoolLiquidityIndex.trackedSource,
      PoolLiquidityIndex.target_reconcilePools hwell]
    split
    · rw [Option.map_map]
      cases hsource : PoolLiquidityIndex.registeredSource
          (publish next.stateVersion).registry.registry next.graph live.liquidityScope pool
          token with
      | none => rfl
      | some source =>
          rw [Option.map_some, Function.comp_apply,
            PoolLiquidityIndex.undiscovered_reconciledTarget,
            PoolLiquidityIndex.undiscovered_registeredSource hsource]
    · rename_i hpool
      rw [(hunaffected pool hpool).1 token]
      exact hrepresents.sources pool token
  · rw [hliquidity, hscope, PoolLiquidityIndex.counts_reconcilePools hwell]
    split
    · rfl
    · rename_i hpool
      rw [(hunaffected pool hpool).2]
      exact hrepresents.counts pool

/-- The listed pools of a commit are looked up again; the others are complete. -/
theorem Represents.active_commit
    (hrepresents : live.Represents publish) {commit : AmmStateCommit}
    (hrequest : Call.Published publish (.applyCommit commit))
    (hversion : commit.snapshot.version = live.stateVersion + 1)
    (hknown : ∀ key ∈ changedKeys commit.changes,
      activePool commit.snapshot live.options key =
        .ok (representation commit.snapshot live.options key)) (key : PoolKey) :
    activePool commit.snapshot live.options key =
      .ok ((applyIndexDeltas live.indexed (live.commitChanges commit)).lookup key) := by
  rw [lookup_commitChanges]
  by_cases hkey : key ∈ changedKeys commit.changes
  · rw [if_pos hkey]
    exact hknown key hkey
  · rw [if_neg hkey]
    obtain ⟨hinstance, hsame⟩ := hrequest.2 live.stateVersion hversion key hkey
    rw [activePool_congr hinstance hsame]
    exact hrepresents.active key

/-- An accepted commit is contiguous. -/
theorem version_of_applyCommit {commit : AmmStateCommit} {delta : GraphDelta}
    (hcall : live.applyCommit lineage commit = some (.ok delta, next)) :
    commit.snapshot.version = live.stateVersion + 1 := by
  unfold applyCommit at hcall
  split at hcall
  · cases hcall
  · split at hcall
    · cases hcall
    · split at hcall
      · cases hcall
      · rename_i expected hexpected
        split at hcall
        · cases hcall
        · rename_i hversion
          rw [not_not.mp hversion]
          exact eq_succ_of_checkedNext hexpected

omit [StableDiGraph G Address EdgeData] in
/-- The changed pools of a delta are those whose entry changes. -/
theorem lookup_of_not_changed {delta : GraphDelta} {keys : List PoolKey}
    (hsame : ∀ key ∉ keys, next.indexed.lookup key = live.indexed.lookup key)
    (hchanges : delta.poolChanges =
      changesBetween keys (live.indexed.lookup ·) (next.indexed.lookup ·)) (key : PoolKey)
    (hkey : key ∉ delta.poolChanges.map GraphPoolDelta.pool) :
    next.indexed.lookup key = live.indexed.lookup key := by
  by_cases hmem : key ∈ keys
  · by_contra hdiffer
    refine hkey (List.mem_map.mpr
      ⟨⟨key, live.indexed.lookup key, next.indexed.lookup key⟩, ?_, rfl⟩)
    rw [hchanges]
    refine List.mem_flatMap.mpr ⟨key, hmem, ?_⟩
    rw [poolDeltas, if_pos (Ne.symm hdiffer)]
    exact List.mem_singleton_self _
  · exact hsame key hmem

/-- Accepted calls keep the live graph at the snapshot that they were given. -/
theorem Represents.call (hpublished : Published publish)
    (hrepresents : live.Represents publish) (hrequest : request.Published publish)
    {outcome : Except LiveGraphError GraphDelta}
    (hcall : live.call lineage request = some (outcome, next)) : next.Represents publish := by
  rcases outcome_call hcall with ⟨error, hresult⟩ | ⟨hruntime, _, haccepts⟩
  · obtain ⟨-, rfl⟩ := Prod.mk.inj hresult
    exact hrepresents
  · obtain ⟨delta, hok⟩ := haccepts.exists_delta
    simp only at hok
    subst hok
    have hsnapshot := hrequest.snapshot_eq
    have hcoherent : request.snapshot.registry.Coherent := by
      rw [hsnapshot]
      exact hpublished.coherent _
    have hmirrors := hrepresents.mirrors.accepts hcoherent haccepts
    have hcommitted := haccepts.committed
    obtain ⟨hversion, hpoint⟩ := hcommitted.state
    obtain ⟨hkept, hoptions, hscope⟩ := hcommitted.kept
    obtain ⟨keys, -, hsame, hchanges⟩ := hcommitted.changes
    have hpublish : publish next.stateVersion = request.snapshot := by
      rw [hversion, ← hsnapshot]
    have hstamp : next.runtimeId = (publish next.stateVersion).runtimeId ∧
        next.point = (publish next.stateVersion).point := by
      rw [hpublish]
      exact ⟨hkept.trans hruntime.symm, hpoint⟩
    generalize hresult : ((.ok delta, next) :
      Except LiveGraphError GraphDelta × LiveAmmGraph G) = result at haccepts
    cases haccepts with
    | @unchanged commit hknown hidentity =>
        have hactive := hrepresents.active_commit hrequest
          (version_of_applyCommit hcall) hknown
        obtain ⟨-, rfl⟩ := Prod.mk.inj hresult
        refine hrepresents.unchanged hpublished hmirrors hstamp ?_ rfl ?_ rfl rfl
        · rw [hpublish]
          exact hactive
        · intro key
          rw [lookup_commitChanges]
          split
          · rename_i hkey
            exact hidentity key hkey
          · rfl
    | @changed commit impact result hknown hother happly hok =>
        have hactive := hrepresents.active_commit hrequest
          (version_of_applyCommit hcall) hknown
        subst hresult
        obtain ⟨applied, version, -, -, -, -, -, -, hdeltas, hnext⟩ := applyChanged_ok happly
        refine hrepresents.reconciled hpublished hmirrors hstamp ?_ hscope
          (lookup_of_not_changed hsame hchanges) ?_
        · rw [hpublish, hoptions, hnext]
          exact hactive
        · rw [hpublish, hdeltas, hnext]
          rfl
    | @replaced _ nextIndexed hindexed hok =>
        obtain ⟨version, -, -, -, -, -, hdeltas, hnext⟩ := replaceFromSnapshot_ok hresult.symm
        refine hrepresents.reconciled hpublished hmirrors hstamp ?_ hscope
          (lookup_of_not_changed hsame hchanges) ?_
        · rw [hpublish, hoptions, hnext]
          exact activePool_of_indexedFromSnapshot hindexed
        · rw [hpublish, hdeltas, hnext]

/-- The operations on the liquidity sidecar move no source. -/
theorem Represents.of_liquidity (hrepresents : live.Represents publish)
    {liquidity : PoolLiquidityIndex} (hliquidity : liquidity.HolderIndexed)
    (hsame : PoolLiquidityIndex.SameSources live.liquidity liquidity) :
    { live with liquidity := liquidity }.Represents publish := by
  refine ⟨⟨hrepresents.mirrors.valid, hrepresents.mirrors.compact, hrepresents.mirrors.tokens⟩,
    hrepresents.stamp, hrepresents.active, hliquidity, fun pool token => ?_, fun pool => ?_⟩
  · rw [hsame.trackedSource]
    exact hrepresents.sources pool token
  · rw [hsame.counts]
    exact hrepresents.counts pool

theorem Represents.execute (hpublished : Published publish)
    (hrepresents : live.Represents publish) (hoperation : operation.Published publish)
    {emitted : Option GraphDelta} (hexecute : live.execute operation = some (emitted, next)) :
    next.Represents publish := by
  have hliquidity := hrepresents.liquidity
  cases operation with
  | call lineage request =>
      obtain ⟨⟨outcome, after⟩, hcall, heq⟩ := Option.map_eq_some_iff.mp hexecute
      obtain ⟨-, rfl⟩ := Prod.mk.inj heq
      exact hrepresents.call hpublished hoperation hcall
  | setErc20LiquiditySlot token holder slot =>
      cases hexecute
      exact hrepresents.of_liquidity (hliquidity.setErc20Slot token holder slot)
        (PoolLiquidityIndex.sameSources_setErc20BalanceSlot token holder slot)
  | markLiquidityStale pool token =>
      cases hexecute
      unfold markLiquidityStale
      split
      · exact hrepresents
      · rename_i liquidity hmark
        refine hrepresents.of_liquidity ?_ (PoolLiquidityIndex.sameSources_markStale hmark)
        have htouches := PoolLiquidityIndex.touches_markStale live.liquidity pool token
        rw [hmark] at htouches
        exact hliquidity.of_touches htouches
  | refreshLiquidityFromSnapshot snapshot =>
      cases hexecute
      unfold refreshLiquidityFromSnapshot
      split
      · exact hrepresents
      · exact hrepresents.of_liquidity
          (hliquidity.of_touches (PoolLiquidityIndex.touches_refreshFromSnapshot _ _))
          (PoolLiquidityIndex.sameSources_refreshFromSnapshot _)

theorem represents_history (hpublished : Published publish)
    (hrepresents : live.Represents publish) {operations : List Operation}
    (hoperations : ∀ operation ∈ operations, operation.Published publish)
    {deltas : List GraphDelta} {states : List (LiveAmmGraph G)}
    (hhistory : live.history operations = some (deltas, states)) :
    ∀ reached ∈ states, reached.Represents publish := by
  induction operations generalizing live deltas states with
  | nil =>
      cases hhistory
      intro reached hreached
      rw [List.mem_singleton.mp hreached]
      exact hrepresents
  | cons operation rest ih =>
      obtain ⟨emitted, after, laterDeltas, laterStates, hexecute, hrest, -, rfl⟩ :=
        history_cons hhistory
      rw [List.forall_mem_cons] at hoperations
      intro reached hreached
      rcases List.mem_cons.mp hreached with rfl | hlater
      · exact hrepresents
      · exact ih (hrepresents.execute hpublished hoperations.1 hexecute) hoperations.2 hrest
          reached hlater

/-- A build stands for its snapshot. -/
theorem Represents.fromSnapshot (hpublished : Published publish) {version : ℕ}
    {options : GraphBuildOptions} {scope : LiquidityIndexScope}
    (hbuild : fromSnapshotWithLiquidityScope lineage (publish version) options scope =
      .ok live) : live.Represents publish := by
  have hmirrors := Mirrors.fromSnapshot (hpublished.coherent version) hbuild
  unfold fromSnapshotWithLiquidityScope at hbuild
  simp only at hbuild
  cases hindex : indexedFromSnapshot (publish version) options with
  | error error =>
      rw [hindex] at hbuild
      cases hbuild
  | ok indexed =>
      rw [hindex] at hbuild
      obtain rfl := Except.ok.inj hbuild
      have hversion := hpublished.version version
      have hactive := activePool_of_indexedFromSnapshot hindex
      have hregisters : PoolLiquidityIndex.Registers (publish version).registry.registry
          ((AmmGraph.fromRegistry lineage (publish version).registry.registry
            options).graph : AmmGraph G) options := by
        refine ⟨fun pool => ?_, hpublished.lists version⟩
        rw [hmirrors.tokens pool]
        exact tokens_of_activePool (hpublished.coherent version) (hactive pool)
      refine ⟨hmirrors, ?_, ?_, ?_, fun pool token => ?_, fun pool => ?_⟩
      · rw [hversion]
        exact ⟨rfl, rfl⟩
      · rw [hversion]
        exact hactive
      · exact (PoolLiquidityIndex.Constructed.fromRegistryWithScope _ _ _).holderIndexed
      · rw [hversion, PoolLiquidityIndex.trackedSource,
          PoolLiquidityIndex.target_fromRegistryWithScope hmirrors.valid, Option.map_map,
          hregisters.builtSource_eq]
        cases hsource : PoolLiquidityIndex.registeredSource
            (publish version).registry.registry _ scope pool token with
        | none => rfl
        | some source =>
            rw [Option.map_some, Function.comp_apply,
              PoolLiquidityIndex.undiscovered_registeredSource hsource]
      · rw [hversion]
        exact PoolLiquidityIndex.counts_fromRegistryWithScope hmirrors.valid hregisters pool

/-- Two live graphs agree in all that a search reads but the discovered slots and the
balances. -/
structure Agrees (live rebuilt : LiveAmmGraph G) : Prop where
  stamp : live.runtimeId = rebuilt.runtimeId ∧ live.stateVersion = rebuilt.stateVersion ∧
    live.point = rebuilt.point
  indexed : live.indexed = rebuilt.indexed
  poolTokens : live.graph.poolTokens = rebuilt.graph.poolTokens
  tokens : live.graph.nodeMap.keys = rebuilt.graph.nodeMap.keys
  edges : live.graph.edgeMultiset = rebuilt.graph.edgeMultiset
  pairs : live.graph.pairPools = rebuilt.graph.pairPools
  sources : ∀ pool token,
    live.liquidity.trackedSource pool token = rebuilt.liquidity.trackedSource pool token
  twoTokens : ∀ pool,
    live.liquidity.isTwoTokenPool pool = rebuilt.liquidity.isTwoTokenPool pool

/-- A snapshot has one representation up to slots and balances. -/
theorem Represents.agrees (hleft : live.Represents publish)
    (hright : next.Represents publish) (hversion : live.stateVersion = next.stateVersion)
    (hoptions : live.options = next.options)
    (hscope : live.liquidityScope = next.liquidityScope) : live.Agrees next := by
  have hindexed : live.indexed = next.indexed := by
    apply Finmap.ext_lookup
    intro key
    have hkey := hleft.active key
    rw [hversion, hoptions, hright.active key] at hkey
    exact (Except.ok.inj hkey).symm
  have htokens : live.graph.poolTokens = next.graph.poolTokens := by
    apply Finmap.ext_lookup
    intro key
    rw [hleft.mirrors.tokens, hright.mirrors.tokens, hindexed]
  have hpairs := hleft.mirrors.valid.pairPools_eq hright.mirrors.valid htokens
  have hneeded : ∀ pool,
      PoolLiquidityIndex.neededTokens live.graph live.liquidityScope pool =
        PoolLiquidityIndex.neededTokens next.graph next.liquidityScope pool := by
    intro pool
    simp only [PoolLiquidityIndex.neededTokens, AmmGraph.trackedTokensForPool, htokens, hpairs,
      hscope]
  refine ⟨⟨?_, hversion, ?_⟩, hindexed, htokens, ?_,
    hleft.mirrors.valid.edgeMultiset_eq hright.mirrors.valid htokens, hpairs,
    fun pool token => ?_, fun pool => ?_⟩
  · rw [hleft.stamp.1, hright.stamp.1, hversion]
  · rw [hleft.stamp.2, hright.stamp.2, hversion]
  · have hkeys : live.graph.nodeMap.keys = Topology.usedTokens live.graph.poolTokens :=
      hleft.mirrors.compact
    have hkeysNext : next.graph.nodeMap.keys =
        Topology.usedTokens next.graph.poolTokens := hright.mirrors.compact
    rw [hkeys, hkeysNext, htokens]
  · rw [hleft.sources, hright.sources, PoolLiquidityIndex.registeredSource,
      PoolLiquidityIndex.registeredSource, hversion, hneeded]
  · rw [PoolLiquidityIndex.isTwoTokenPool, PoolLiquidityIndex.isTwoTokenPool, hleft.counts,
      hright.counts, PoolLiquidityIndex.registeredCount, PoolLiquidityIndex.registeredCount,
      hversion, hneeded]

theorem history_kept {operations : List Operation} {deltas : List GraphDelta}
    {states : List (LiveAmmGraph G)}
    (hhistory : live.history operations = some (deltas, states)) :
    ∀ reached ∈ states, reached.options = live.options ∧
      reached.liquidityScope = live.liquidityScope := by
  induction operations generalizing live deltas states with
  | nil =>
      cases hhistory
      intro reached hreached
      rw [List.mem_singleton.mp hreached]
      exact ⟨rfl, rfl⟩
  | cons operation rest ih =>
      obtain ⟨emitted, after, laterDeltas, laterStates, hexecute, hrest, -, rfl⟩ :=
        history_cons hhistory
      intro reached hreached
      rcases List.mem_cons.mp hreached with rfl | hlater
      · exact ⟨rfl, rfl⟩
      · obtain ⟨hoptions, hscope⟩ := ih hrest reached hlater
        rcases execute_cases hexecute with
          ⟨_, hnext⟩ | ⟨lineage, request, delta, _, _, _, haccepts⟩
        · rw [hoptions, hscope, hnext]
          exact ⟨rfl, rfl⟩
        · obtain ⟨-, hkept⟩ := haccepts.committed.kept
          rw [hoptions, hscope]
          exact hkept

theorem stamped_fromSnapshot {snapshot : AmmStateSnapshot} {options : GraphBuildOptions}
    {scope : LiquidityIndexScope}
    (hbuild : fromSnapshotWithLiquidityScope lineage snapshot options scope = .ok live) :
    live.stateVersion = snapshot.version ∧ live.options = options ∧
      live.liquidityScope = scope := by
  unfold fromSnapshotWithLiquidityScope at hbuild
  simp only at hbuild
  split at hbuild
  · cases hbuild
  · obtain rfl := Except.ok.inj hbuild
    exact ⟨rfl, rfl, rfl⟩

/-- In every state of every run the live graph is what a build from the snapshot of that
state gives: its graph, its index, and its liquidity targets up to discovered slots. -/
theorem history_eq_rebuild (hpublished : Published publish) {version : ℕ}
    {options : GraphBuildOptions} {scope : LiquidityIndexScope}
    (hbuild : fromSnapshotWithLiquidityScope lineage (publish version) options scope =
      .ok live) {operations : List Operation}
    (hoperations : ∀ operation ∈ operations, operation.Published publish)
    {deltas : List GraphDelta} {states : List (LiveAmmGraph G)}
    (hhistory : live.history operations = some (deltas, states)) (lineage' : ℕ) :
    ∀ reached ∈ states, ∃ rebuilt : LiveAmmGraph G,
      fromSnapshotWithLiquidityScope lineage' (publish reached.stateVersion) options scope =
        .ok rebuilt ∧ reached.Agrees rebuilt := by
  intro reached hreached
  have hrepresents := represents_history hpublished
    (Represents.fromSnapshot hpublished hbuild) hoperations hhistory reached hreached
  obtain ⟨hoptions, hscope⟩ := history_kept hhistory reached hreached
  obtain ⟨-, hlive, hliveScope⟩ := stamped_fromSnapshot hbuild
  rw [hlive] at hoptions
  rw [hliveScope] at hscope
  have hactive := hrepresents.active
  rw [hoptions] at hactive
  have hindex := indexedFromSnapshot_of_active hactive
  obtain ⟨rebuilt, hrebuilt⟩ : ∃ rebuilt : LiveAmmGraph G,
      fromSnapshotWithLiquidityScope lineage' (publish reached.stateVersion) options scope =
        .ok rebuilt := by
    unfold fromSnapshotWithLiquidityScope
    simp only [hindex]
    exact ⟨_, rfl⟩
  have hright := Represents.fromSnapshot hpublished hrebuilt
  obtain ⟨hversion, hrebuiltOptions, hrebuiltScope⟩ := stamped_fromSnapshot hrebuilt
  refine ⟨rebuilt, hrebuilt, hrepresents.agrees hright ?_ ?_ ?_⟩
  · rw [hversion, hpublished.version]
  · rw [hrebuiltOptions, hoptions]
  · rw [hrebuiltScope, hscope]

end Rebuild

end LiveAmmGraph

namespace TwoPoolGraph

/-- A second pool of the pair of `left`. -/
def twin : PoolRegistration := pool 9 ['c'] 1 2

theorem nodup_twin : ([left, twin].map PoolRegistration.key).Nodup := by decide

/-- The snapshots of a runtime that starts with `left` and registers `twin`. -/
def publishTwin : ℕ → AmmStateSnapshot
  | 0 => { snapshot 0 [left] (by decide) with poolRevision := fun _ => some 0 }
  | version + 1 =>
      { snapshot (version + 1) [left, twin] nodup_twin with poolRevision := fun _ => some 0 }

theorem instance_publishTwin {version : ℕ} {instanceId : PoolInstanceId}
    {registration : PoolRegistration}
    (hpool : (publishTwin version).registry.pool instanceId = some registration) :
    registration.key = instanceId.key ∧ registration ∈ [left, twin] := by
  cases version with
  | zero =>
      have hfind : ([left].find? fun pool => pool.key = instanceId.key) = some registration :=
        hpool
      have hmem : registration ∈ [left] := List.mem_of_find?_eq_some hfind
      exact ⟨by simpa using List.find?_some hfind, List.mem_of_mem_take (i := 1) hmem⟩
  | succ version =>
      have hfind : ([left, twin].find? fun pool => pool.key = instanceId.key) =
          some registration := hpool
      exact ⟨by simpa using List.find?_some hfind, List.mem_of_find?_eq_some hfind⟩

theorem listsTokens_of_mem {registration : PoolRegistration}
    (hmem : registration ∈ [left, twin]) : PoolLiquidityIndex.ListsTokens registration := by
  have htokens : registration.tokens = some [1, 2] ∧ tokensForPool registration = .ok [1, 2] := by
    rcases List.mem_pair.mp hmem with rfl | rfl
    · exact ⟨rfl, rfl⟩
    · exact ⟨rfl, rfl⟩
  intro tokens hlisted
  rw [htokens.2] at hlisted
  obtain rfl := Except.ok.inj hlisted
  exact ⟨[1, 2], htokens.1, by decide⟩

theorem published_twin : Published publishTwin where
  version version := by
    cases version with
    | zero => rfl
    | succ version => rfl
  coherent version := by
    cases version with
    | zero => exact coherent_snapshot 0 [left] (by decide)
    | succ version => exact coherent_snapshot (version + 1) [left, twin] nodup_twin
  lists version pool registration hpool := by
    have hmem := ((AdapterRegistry.pool_eq_some_iff _ pool registration).mp hpool).1
    cases version with
    | zero => exact listsTokens_of_mem (List.mem_of_mem_take (i := 1) hmem)
    | succ version => exact listsTokens_of_mem hmem
  instances version later instanceId registration next hpool hnext := by
    obtain ⟨hkey, hmem⟩ := instance_publishTwin hpool
    obtain ⟨hnextKey, hnextMem⟩ := instance_publishTwin hnext
    rw [List.inj_on_of_nodup_map nodup_twin hnextMem hmem (hnextKey.trans hkey.symm)]
    exact ⟨rfl, rfl⟩

/-- The registration of `twin`. -/
def addTwin : AmmStateCommit where
  snapshot := publishTwin 1
  changes := ⟨1, ⟨1, 1, 0⟩, [⟨twin.key, 0⟩], false⟩

theorem complete_addTwin : addTwin.Complete publishTwin := by
  intro version hversion key hkey
  obtain rfl : 0 = version := Nat.succ.inj hversion
  have hkey : twin.key ≠ key := by
    rintro rfl
    exact hkey (by decide)
  have hinstance : (publishTwin 1).registry.poolInstance key =
      (publishTwin 0).registry.poolInstance key := by
    simp [AmmRegistryView.poolInstance, publishTwin, snapshot, List.find?_cons, hkey]
  refine ⟨hinstance, fun instanceId hheld => ⟨?_, rfl⟩⟩
  have hheldKey : left.key = key ∧ instanceId = ⟨left.key, 0⟩ := by
    simpa [AmmRegistryView.poolInstance, publishTwin, snapshot, eq_comm] using hheld
  obtain ⟨-, rfl⟩ := hheldKey
  rfl

/-- A second pool of a pair makes the first one tracked, as a rebuild would. -/
theorem history_eq_rebuild_twin :
    ∃ (live : LiveAmmGraph (SlotGraph Address EdgeData)) (deltas : List GraphDelta)
      (states : List (LiveAmmGraph (SlotGraph Address EdgeData))),
      live.history [.call 2 (.applyCommit addTwin)] = some (deltas, states) ∧
      states.map (fun reached => reached.liquidity.targets.length) = [0, 4] ∧
      ∀ reached ∈ states, ∃ rebuilt : LiveAmmGraph (SlotGraph Address EdgeData),
        LiveAmmGraph.fromSnapshotWithLiquidityScope 3 (publishTwin reached.stateVersion) {}
          .parallelEdgeOutputs = .ok rebuilt ∧ reached.Agrees rebuilt := by
  have hrun : ∃ (live : LiveAmmGraph (SlotGraph Address EdgeData)) (deltas : List GraphDelta)
      (states : List (LiveAmmGraph (SlotGraph Address EdgeData))),
      LiveAmmGraph.fromSnapshotWithLiquidityScope 1 (publishTwin 0) {}
        .parallelEdgeOutputs = .ok live ∧
      live.history [.call 2 (.applyCommit addTwin)] = some (deltas, states) ∧
      states.map (fun reached => reached.liquidity.targets.length) = [0, 4] :=
    ⟨_, _, _, rfl, rfl, by decide⟩
  obtain ⟨live, deltas, states, hbuild, hhistory, htracked⟩ := hrun
  refine ⟨live, deltas, states, hhistory, htracked, ?_⟩
  exact LiveAmmGraph.history_eq_rebuild published_twin hbuild
    (fun operation hoperation => by
      rw [List.mem_singleton.mp hoperation]
      exact ⟨rfl, complete_addTwin⟩)
    hhistory 3

end TwoPoolGraph

end AmmSearch
