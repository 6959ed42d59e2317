/-
Accepted and rejected transitions of the live graph.  A rejected commit or
snapshot leaves everything as it was; an accepted one advances the graph version
by one revision exactly when an indexed pool changes its presence, its tokens or
its instance.
-/
import AmmSearch.AmmGraphOperations
import AmmSearch.LiveGraph

open FiniteMap StableGraph

namespace AmmSearch

/-- What the topology of the search universe depends on. -/
def IndexedPool.identity (pool : IndexedPool) : PoolInstanceId × List Address :=
  (pool.instanceId, pool.tokens)

/-- Some pool changed its presence, its active instance or its tokens. -/
def IndexChanged (before after : Map PoolKey IndexedPool) : Prop :=
  ∃ key, (before.lookup key).map IndexedPool.identity ≠
    (after.lookup key).map IndexedPool.identity

section Changes

variable {indexed before after : Map PoolKey IndexedPool} {keys : List PoolKey}
  {snapshot : AmmStateSnapshot} {options : GraphBuildOptions}

theorem poolImpact_eq_unchanged_iff (previous next : Option IndexedPool) :
    poolImpact previous next = .unchanged ↔
      previous.map IndexedPool.identity = next.map IndexedPool.identity := by
  cases previous with
  | none =>
      cases next with
      | none => simp [poolImpact]
      | some next => simp [poolImpact]
  | some previous =>
      cases next with
      | none => simp [poolImpact]
      | some next =>
          simp only [poolImpact, Option.map_some, Option.some.injEq, IndexedPool.identity,
            Prod.mk.injEq]
          split
          · split <;> simp_all
          · simp_all

theorem max_eq_unchanged_iff (left right : GraphTopologyImpact) :
    left.max right = .unchanged ↔ left = .unchanged ∧ right = .unchanged := by
  cases left <;> cases right <;> decide

theorem semanticPoolChanged_iff (pool : IndexedPool) (next : Option IndexedPool) :
    semanticPoolChanged next pool = true ↔
      some pool.identity ≠ next.map IndexedPool.identity := by
  cases next with
  | none => simp [semanticPoolChanged]
  | some next =>
      simp only [semanticPoolChanged, ne_eq, decide_eq_true_eq, Option.map_some,
        Option.some.injEq, IndexedPool.identity, Prod.mk.injEq]
      tauto

theorem semanticIndexChanged_iff (before after : Map PoolKey IndexedPool) :
    semanticIndexChanged before after = true ↔ IndexChanged before after := by
  simp only [semanticIndexChanged, decide_eq_true_eq, IndexChanged]
  constructor
  · rintro (⟨key, _, hchanged⟩ | ⟨key, hafter, hbefore⟩)
    · refine ⟨key, ?_⟩
      cases hbefore : before.lookup key with
      | none => simp [hbefore] at hchanged
      | some pool =>
          rw [hbefore] at hchanged
          exact (semanticPoolChanged_iff pool _).mp hchanged
    · refine ⟨key, ?_⟩
      rw [Finmap.mem_keys] at hafter hbefore
      obtain ⟨pool, hpool⟩ := Finmap.mem_iff.mp hafter
      rw [Finmap.lookup_eq_none.mpr hbefore, hpool]
      simp
  · rintro ⟨key, hchanged⟩
    cases hbefore : before.lookup key with
    | none =>
        right
        refine ⟨key, ?_, ?_⟩
        · rw [hbefore] at hchanged
          rw [Finmap.mem_keys, ← Finmap.lookup_isSome]
          cases hafter : after.lookup key with
          | none => simp [hafter] at hchanged
          | some pool => rfl
        · rw [Finmap.mem_keys]
          exact Finmap.lookup_eq_none.mp hbefore
    | some pool =>
        left
        refine ⟨key, Finmap.mem_keys.mpr (Finmap.mem_of_lookup_eq_some hbefore), ?_⟩
        rw [hbefore] at hchanged ⊢
        exact (semanticPoolChanged_iff pool _).mpr hchanged

/-- The search representation of a pool in a snapshot where it is known. -/
def representation (snapshot : AmmStateSnapshot) (options : GraphBuildOptions)
    (key : PoolKey) : Option IndexedPool :=
  (activePool snapshot options key).toOption.join

/-- The listed changes of some pools between two indexes. -/
def changesBetween (keys : List PoolKey) (before after : PoolKey → Option IndexedPool) :
    List GraphPoolDelta :=
  keys.flatMap fun key => poolDeltas key (before key) (after key)

theorem collectDeltas_ok {impact impact' : GraphTopologyImpact}
    {deltas deltas' : List GraphPoolDelta}
    (hcollect : collectDeltas indexed snapshot options keys impact deltas =
      .ok (impact', deltas')) :
    (∀ key ∈ keys, activePool snapshot options key =
      .ok (representation snapshot options key)) ∧
    deltas' = deltas ++ changesBetween keys (indexed.lookup ·)
      (representation snapshot options) ∧
    (impact' = .unchanged ↔ impact = .unchanged ∧ ∀ key ∈ keys,
      (indexed.lookup key).map IndexedPool.identity =
        (representation snapshot options key).map IndexedPool.identity) := by
  induction keys generalizing impact deltas with
  | nil =>
      simp only [collectDeltas, Except.ok.injEq, Prod.mk.injEq] at hcollect
      obtain ⟨rfl, rfl⟩ := hcollect
      simp [changesBetween]
  | cons key rest ih =>
      simp only [collectDeltas] at hcollect
      cases hactive : activePool snapshot options key with
      | error error =>
          rw [hactive] at hcollect
          cases hcollect
      | ok pool =>
          rw [hactive] at hcollect
          have hpool : representation snapshot options key = pool := by
            simp [representation, hactive, Except.toOption]
          obtain ⟨hknown, hdeltas, himpact⟩ := ih hcollect
          refine ⟨?_, ?_, ?_⟩
          · intro other hother
            rcases List.mem_cons.mp hother with rfl | hrest
            · rw [hpool, hactive]
            · exact hknown other hrest
          · rw [hdeltas, List.append_assoc]
            simp only [changesBetween, List.flatMap_cons, hpool]
          · rw [himpact, max_eq_unchanged_iff, poolImpact_eq_unchanged_iff, ← hpool]
            simp only [List.mem_cons, forall_eq_or_imp, and_assoc]

theorem lookup_applyIndexDelta (delta : GraphPoolDelta) (key : PoolKey) :
    (applyIndexDelta indexed delta).lookup key =
      if key = delta.pool then delta.after else indexed.lookup key := by
  unfold applyIndexDelta
  cases delta.after with
  | none => exact lookup_erase_eq _ _ _
  | some pool => exact lookup_insert_eq _ _ _ _

/-- Applying the listed changes of some pools. -/
theorem lookup_applyIndexDeltas {previous next : PoolKey → Option IndexedPool}
    (hkeys : keys.Nodup) (hprevious : ∀ key ∈ keys, indexed.lookup key = previous key)
    (key : PoolKey) :
    (applyIndexDeltas indexed (changesBetween keys previous next)).lookup key =
      if key ∈ keys then next key else indexed.lookup key := by
  induction keys generalizing indexed with
  | nil => simp [changesBetween, applyIndexDeltas]
  | cons head rest ih =>
      obtain ⟨hhead, hrest⟩ := List.nodup_cons.mp hkeys
      have hlookup : ∀ other, (applyIndexDeltas indexed
          (poolDeltas head (previous head) (next head))).lookup other =
          if other = head then next head else indexed.lookup other := by
        intro other
        unfold poolDeltas
        split
        · exact lookup_applyIndexDelta _ other
        · rename_i hsame
          simp only [applyIndexDeltas, List.foldl_nil]
          split
          · rename_i heq
            rw [heq, hprevious head List.mem_cons_self, not_not.mp hsame]
          · rfl
      have hsplit : applyIndexDeltas indexed (changesBetween (head :: rest) previous next) =
          applyIndexDeltas (applyIndexDeltas indexed
            (poolDeltas head (previous head) (next head)))
            (changesBetween rest previous next) := by
        simp only [changesBetween, List.flatMap_cons, applyIndexDeltas, List.foldl_append]
      rw [hsplit, ih hrest]
      · rw [hlookup]
        by_cases hkey : key = head
        · subst hkey
          simp [hhead]
        · simp [hkey]
      · intro other hother
        have hne : other ≠ head := fun heq => hhead (heq ▸ hother)
        rw [hlookup, if_neg hne]
        exact hprevious other (List.mem_cons_of_mem head hother)

end Changes

namespace LiveAmmGraph

variable {G : Type} [StableDiGraph G Address EdgeData]

/-- A commit or a recovery snapshot given to the live graph. -/
inductive Call
  | applyCommit (commit : AmmStateCommit)
  | reconcileSnapshot (snapshot : AmmStateSnapshot)

def Call.snapshot : Call → AmmStateSnapshot
  | applyCommit commit => commit.snapshot
  | reconcileSnapshot snapshot => snapshot

def call (live : LiveAmmGraph G) (lineage : ℕ) :
    Call → Option (Except LiveGraphError GraphDelta × LiveAmmGraph G)
  | .applyCommit commit => live.applyCommit lineage commit
  | .reconcileSnapshot snapshot => some (live.reconcileSnapshot lineage snapshot)

/-- The changes of an incremental commit. -/
def commitChanges (live : LiveAmmGraph G) (commit : AmmStateCommit) : List GraphPoolDelta :=
  changesBetween (changedKeys commit.changes) (live.indexed.lookup ·)
    (representation commit.snapshot live.options)

/-- The ways in which a call is accepted. -/
inductive Accepts (live : LiveAmmGraph G) (lineage : ℕ) :
    Call → Except LiveGraphError GraphDelta × LiveAmmGraph G → Prop
  | unchanged {commit : AmmStateCommit}
      (known : ∀ key ∈ changedKeys commit.changes,
        activePool commit.snapshot live.options key =
          .ok (representation commit.snapshot live.options key))
      (same : ∀ key ∈ changedKeys commit.changes,
        (live.indexed.lookup key).map IndexedPool.identity =
          (representation commit.snapshot live.options key).map IndexedPool.identity) :
      Accepts live lineage (.applyCommit commit)
        (live.applyUnchanged commit.snapshot .unchanged (live.commitChanges commit))
  | changed {commit : AmmStateCommit} {impact : GraphTopologyImpact}
      {result : Except LiveGraphError GraphDelta × LiveAmmGraph G}
      (known : ∀ key ∈ changedKeys commit.changes,
        activePool commit.snapshot live.options key =
          .ok (representation commit.snapshot live.options key))
      (other : ¬ ∀ key ∈ changedKeys commit.changes,
        (live.indexed.lookup key).map IndexedPool.identity =
          (representation commit.snapshot live.options key).map IndexedPool.identity)
      (applied : live.applyChanged commit.snapshot impact (live.commitChanges commit) =
        some result)
      (ok : ∃ delta, result.1 = .ok delta) :
      Accepts live lineage (.applyCommit commit) result
  | replaced {call : Call} {nextIndexed : Map PoolKey IndexedPool}
      (indexed : indexedFromSnapshot call.snapshot live.options = .ok nextIndexed)
      (ok : ∃ delta, (live.replaceFromSnapshot lineage call.snapshot nextIndexed
        .fullReconciliation).1 = .ok delta) :
      Accepts live lineage call
        (live.replaceFromSnapshot lineage call.snapshot nextIndexed .fullReconciliation)

variable {live next : LiveAmmGraph G} {lineage : ℕ} {request : Call} {delta : GraphDelta}
  {outcome : Except LiveGraphError GraphDelta}

/-- A rejected call, or one that is accepted for a newer snapshot of the
runtime. -/
def Outcome (live : LiveAmmGraph G) (lineage : ℕ) (request : Call)
    (result : Except LiveGraphError GraphDelta × LiveAmmGraph G) : Prop :=
  (∃ error, result = (.error error, live)) ∨
    (request.snapshot.runtimeId = live.runtimeId ∧
      live.stateVersion < request.snapshot.version ∧ live.Accepts lineage request result)

theorem outcome_reconcileSnapshot (request : Call)
    (hruntime : request.snapshot.runtimeId = live.runtimeId) :
    live.Outcome lineage request (live.reconcileSnapshot lineage request.snapshot) := by
  unfold reconcileSnapshot
  split
  · exact Or.inl ⟨_, rfl⟩
  · split
    · exact Or.inl ⟨_, rfl⟩
    · rename_i hnewer
      split
      · exact Or.inl ⟨_, rfl⟩
      · rename_i nextIndexed hindexed
        cases hversion : live.replacedVersion
            (semanticIndexChanged live.indexed nextIndexed) with
        | none =>
            left
            refine ⟨.graphVersionExhausted, ?_⟩
            simp only [replaceFromSnapshot, hversion]
        | some version =>
            refine Or.inr ⟨hruntime, not_le.mp hnewer, .replaced hindexed ?_⟩
            simp only [replaceFromSnapshot, hversion]
            exact ⟨_, rfl⟩

omit [StableDiGraph G Address EdgeData] in
theorem runtimeId_of_validateRuntime {snapshot : AmmStateSnapshot}
    (hvalid : live.validateRuntime snapshot = none) :
    snapshot.runtimeId = live.runtimeId := by
  unfold validateRuntime at hvalid
  split at hvalid
  · cases hvalid
  · rename_i hsame
    exact not_not.mp hsame

/-- What a call can do. -/
theorem outcome_call {result : Except LiveGraphError GraphDelta × LiveAmmGraph G}
    (hcall : live.call lineage request = some result) :
    live.Outcome lineage request result := by
  cases request with
  | reconcileSnapshot snapshot =>
      cases hcall
      cases hvalid : live.validateRuntime snapshot with
      | some error =>
          left
          refine ⟨error, ?_⟩
          simp only [reconcileSnapshot, hvalid]
      | none =>
          exact outcome_reconcileSnapshot (.reconcileSnapshot snapshot)
            (runtimeId_of_validateRuntime hvalid)
  | applyCommit commit =>
      simp only [call, applyCommit] at hcall
      split at hcall
      · cases hcall
        exact Or.inl ⟨_, rfl⟩
      rename_i hvalid
      have hruntime := runtimeId_of_validateRuntime hvalid
      split at hcall
      · cases hcall
        exact Or.inl ⟨_, rfl⟩
      split at hcall
      · cases hcall
        exact Or.inl ⟨_, rfl⟩
      rename_i expected hexpected
      split at hcall
      · cases hcall
        exact Or.inl ⟨_, rfl⟩
      rename_i hversion
      have hnewer : live.stateVersion < commit.snapshot.version := by
        rw [not_not.mp hversion]
        exact lt_of_checkedNext hexpected
      simp only [applySnapshotChanges] at hcall
      split at hcall
      · cases hcall
        exact outcome_reconcileSnapshot (.applyCommit commit) hruntime
      cases hcollect : collectDeltas live.indexed commit.snapshot live.options
          (changedKeys commit.changes) .unchanged [] with
      | error error =>
          rw [hcollect] at hcall
          cases hcall
          exact Or.inl ⟨_, rfl⟩
      | ok collected =>
          obtain ⟨impact, deltas⟩ := collected
          rw [hcollect] at hcall
          obtain ⟨hknown, hdeltas, himpact⟩ := collectDeltas_ok hcollect
          rw [List.nil_append] at hdeltas
          subst hdeltas
          simp only [true_and] at himpact
          simp only at hcall
          split at hcall
          · rename_i hsame
            cases hcall
            refine Or.inr ⟨hruntime, hnewer, ?_⟩
            rw [hsame]
            exact .unchanged hknown (himpact.mp hsame)
          · rename_i hother
            have happly := hcall
            simp only [applyChanged] at hcall
            split at hcall
            · cases hcall
            · cases hcall
              exact Or.inl ⟨_, rfl⟩
            · split at hcall
              · cases hcall
                exact Or.inl ⟨_, rfl⟩
              · cases hcall
                exact Or.inr ⟨hruntime, hnewer,
                  .changed hknown (fun hsame => hother (himpact.mpr hsame)) happly
                    ⟨_, rfl⟩⟩

/-- What an accepted call records in its delta and in the live graph. -/
structure Committed (live : LiveAmmGraph G) (snapshot : AmmStateSnapshot)
    (delta : GraphDelta) (next : LiveAmmGraph G) : Prop where
  source : delta.sourceStateVersion = snapshot.version ∧ delta.sourcePoint = snapshot.point
  state : next.stateVersion = snapshot.version ∧ next.point = snapshot.point
  kept : next.runtimeId = live.runtimeId ∧ next.options = live.options ∧
    next.liquidityScope = live.liquidityScope
  versions : delta.fromGraphVersion = live.graph.version ∧
    delta.toGraphVersion = next.graph.version
  changes : ∃ keys : List PoolKey, keys.Nodup ∧
    (∀ key ∉ keys, next.indexed.lookup key = live.indexed.lookup key) ∧
    delta.poolChanges = changesBetween keys (live.indexed.lookup ·) (next.indexed.lookup ·)
  advanced : IndexChanged live.indexed next.indexed →
    live.graph.version.checkedNext = some next.graph.version
  stayed : ¬ IndexChanged live.indexed next.indexed →
    next.graph.version = live.graph.version

omit [StableDiGraph G Address EdgeData] in
/-- The index after the changes of a commit. -/
theorem lookup_commitChanges (live : LiveAmmGraph G) (commit : AmmStateCommit)
    (key : PoolKey) :
    (applyIndexDeltas live.indexed (live.commitChanges commit)).lookup key =
      if key ∈ changedKeys commit.changes then
        representation commit.snapshot live.options key
      else live.indexed.lookup key :=
  lookup_applyIndexDeltas (nodup_ascending _) (fun _ _ => rfl) key

omit [StableDiGraph G Address EdgeData] in
theorem changes_commitChanges (live : LiveAmmGraph G) (commit : AmmStateCommit) :
    ∃ keys : List PoolKey, keys.Nodup ∧
      (∀ key ∉ keys, (applyIndexDeltas live.indexed (live.commitChanges commit)).lookup key =
        live.indexed.lookup key) ∧
      live.commitChanges commit = changesBetween keys (live.indexed.lookup ·)
        ((applyIndexDeltas live.indexed (live.commitChanges commit)).lookup ·) := by
  refine ⟨changedKeys commit.changes, nodup_ascending _, fun key hkey => ?_, ?_⟩
  · rw [lookup_commitChanges, if_neg hkey]
  · unfold changesBetween
    refine List.flatMap_congr fun key hkey => ?_
    simp only [lookup_commitChanges, if_pos hkey]

omit [StableDiGraph G Address EdgeData] in
theorem indexChanged_commitChanges_iff (live : LiveAmmGraph G) (commit : AmmStateCommit) :
    IndexChanged live.indexed (applyIndexDeltas live.indexed (live.commitChanges commit)) ↔
      ¬ ∀ key ∈ changedKeys commit.changes,
        (live.indexed.lookup key).map IndexedPool.identity =
          (representation commit.snapshot live.options key).map IndexedPool.identity := by
  simp only [IndexChanged, lookup_commitChanges, not_forall]
  refine exists_congr fun key => ?_
  by_cases hkey : key ∈ changedKeys commit.changes <;> simp [hkey]

theorem applyChanged_ok {snapshot : AmmStateSnapshot} {impact : GraphTopologyImpact}
    {deltas : List GraphPoolDelta}
    (happly : live.applyChanged snapshot impact deltas = some (.ok delta, next)) :
    ∃ applied version, applyPoolDeltas snapshot live.options deltas live.graph =
        some (.ok applied) ∧
      live.graph.version.checkedNext = some version ∧
      delta.sourceStateVersion = snapshot.version ∧ delta.sourcePoint = snapshot.point ∧
      delta.fromGraphVersion = live.graph.version ∧ delta.toGraphVersion = version ∧
      delta.poolChanges = deltas ∧
      next = { live with
        graph := { applied with version := version }
        liquidity := (live.liquidity.reconcilePools snapshot.registry.registry
          { applied with version := version } live.liquidityScope
          (liquidityAffectedPools live.graph { applied with version := version }
            live.liquidityScope (deltas.map GraphPoolDelta.pool))).1
        indexed := applyIndexDeltas live.indexed deltas
        stateVersion := snapshot.version
        point := snapshot.point } := by
  unfold applyChanged at happly
  split at happly
  · cases happly
  · cases happly
  · rename_i applied happlied
    split at happly
    · cases happly
    · rename_i version hversion
      cases happly
      exact ⟨applied, version, happlied, hversion, rfl, rfl, rfl, rfl, rfl, rfl⟩

/-- The graph of a full build under a given version. -/
def rebuiltGraph (live : LiveAmmGraph G) (lineage : ℕ) (snapshot : AmmStateSnapshot)
    (version : GraphVersion) : AmmGraph G :=
  { ((AmmGraph.fromRegistry lineage snapshot.registry.registry live.options).graph :
    AmmGraph G) with version := version }

theorem replaceFromSnapshot_ok {snapshot : AmmStateSnapshot}
    {nextIndexed : Map PoolKey IndexedPool} {impact : GraphTopologyImpact}
    (hreplace : live.replaceFromSnapshot lineage snapshot nextIndexed impact =
      (.ok delta, next)) :
    ∃ version, live.replacedVersion (semanticIndexChanged live.indexed nextIndexed) =
        some version ∧
      delta.sourceStateVersion = snapshot.version ∧ delta.sourcePoint = snapshot.point ∧
      delta.fromGraphVersion = live.graph.version ∧ delta.toGraphVersion = version ∧
      delta.poolChanges = live.replacedPools nextIndexed ∧
      next = { live with
        graph := live.rebuiltGraph lineage snapshot version
        liquidity := (live.liquidity.reconcilePools snapshot.registry.registry
          (live.rebuiltGraph lineage snapshot version) live.liquidityScope
          (liquidityAffectedPools live.graph (live.rebuiltGraph lineage snapshot version)
            live.liquidityScope
            ((live.replacedPools nextIndexed).map GraphPoolDelta.pool))).1
        indexed := nextIndexed
        stateVersion := snapshot.version
        point := snapshot.point } := by
  unfold replaceFromSnapshot at hreplace
  simp only at hreplace
  split at hreplace
  · cases hreplace
  · rename_i version hversion
    cases hreplace
    exact ⟨version, hversion, rfl, rfl, rfl, rfl, rfl, rfl⟩

theorem Accepts.committed (haccepts : live.Accepts lineage request (.ok delta, next)) :
    live.Committed request.snapshot delta next := by
  generalize hresult : ((.ok delta, next) :
    Except LiveGraphError GraphDelta × LiveAmmGraph G) = result at haccepts
  cases haccepts with
  | @unchanged commit hknown hsame =>
      cases hresult
      have hchanged := indexChanged_commitChanges_iff live commit
      refine ⟨⟨rfl, rfl⟩, ⟨rfl, rfl⟩, ⟨rfl, rfl, rfl⟩, ⟨rfl, rfl⟩,
        changes_commitChanges live commit, fun hindex => ?_, fun _ => rfl⟩
      exact absurd hsame (hchanged.mp hindex)
  | @changed commit impact result hknown hother happly hok =>
      subst hresult
      obtain ⟨applied, version, _, hversion, hstate, hpoint, hfrom, hto, hchanges, rfl⟩ :=
        applyChanged_ok happly
      have hchanged := indexChanged_commitChanges_iff live commit
      refine ⟨⟨hstate, hpoint⟩, ⟨rfl, rfl⟩, ⟨rfl, rfl, rfl⟩, ⟨hfrom, hto⟩, ?_,
        fun _ => hversion, fun hindex => ?_⟩
      · rw [hchanges]
        exact changes_commitChanges live commit
      · exact absurd (hchanged.mpr hother) hindex
  | @replaced _ nextIndexed hindexed hok =>
      obtain ⟨version, hversion, hstate, hpoint, hfrom, hto, hchanges, rfl⟩ :=
        replaceFromSnapshot_ok hresult.symm
      have hchanged := semanticIndexChanged_iff live.indexed nextIndexed
      refine ⟨⟨hstate, hpoint⟩, ⟨rfl, rfl⟩, ⟨rfl, rfl, rfl⟩, ⟨hfrom, hto⟩, ?_,
        fun hindex => ?_, fun hindex => ?_⟩
      · refine ⟨ascending (live.indexed.keys ∪ nextIndexed.keys), nodup_ascending _, ?_,
          hchanges⟩
        intro key hkey
        simp only [mem_ascending, Finset.mem_union, not_or, Finmap.mem_keys] at hkey
        rw [Finmap.lookup_eq_none.mpr hkey.1, Finmap.lookup_eq_none.mpr hkey.2]
      · rw [replacedVersion, if_pos (hchanged.mpr hindex)] at hversion
        exact hversion
      · rw [replacedVersion, if_neg (fun h => hindex (hchanged.mp h))] at hversion
        exact (Option.some.inj hversion).symm

/-- Accepted calls return a delta. -/
theorem Accepts.exists_delta {result : Except LiveGraphError GraphDelta × LiveAmmGraph G}
    (haccepts : live.Accepts lineage request result) : ∃ delta, result.1 = .ok delta := by
  cases haccepts with
  | unchanged => exact ⟨_, rfl⟩
  | changed _ _ _ hok => exact hok
  | replaced _ hok => exact hok

/-- A rejected call changes nothing; an accepted one moves the graph version by
one revision exactly when the search universe changes, and its delta turns the
old index into the new one. -/
theorem call_atomic (hcall : live.call lineage request = some (outcome, next)) :
    (∀ error, outcome = .error error → next = live) ∧
    ∀ delta, outcome = .ok delta →
      (IndexChanged live.indexed next.indexed → next.graph.version =
        ⟨live.graph.version.lineage, live.graph.version.revision + 1⟩) ∧
      (¬ IndexChanged live.indexed next.indexed →
        next.graph.version = live.graph.version) ∧
      applyIndexDeltas live.indexed delta.poolChanges = next.indexed := by
  rcases outcome_call hcall with ⟨error, hresult⟩ | ⟨_, _, haccepts⟩
  · cases hresult
    exact ⟨fun _ _ => rfl, fun delta hok => by cases hok⟩
  · refine ⟨fun error herror => ?_, fun delta hok => ?_⟩
    · obtain ⟨delta, hok⟩ := haccepts.exists_delta
      rw [herror] at hok
      cases hok
    · subst hok
      have hcommitted := haccepts.committed
      refine ⟨fun hindex => ?_, hcommitted.stayed, ?_⟩
      · have hnext := hcommitted.advanced hindex
        unfold GraphVersion.checkedNext AmmSearch.checkedNext at hnext
        split at hnext
        · exact (Option.some.inj hnext).symm
        · cases hnext
      · obtain ⟨keys, hkeys, hsame, hchanges⟩ := hcommitted.changes
        refine Finmap.ext_lookup fun key => ?_
        rw [hchanges, lookup_applyIndexDeltas hkeys (fun _ _ => rfl)]
        by_cases hkey : key ∈ keys
        · rw [if_pos hkey]
        · rw [if_neg hkey, hsame key hkey]

end LiveAmmGraph

namespace TwoPoolGraph

/-- A snapshot of pools at their first instances. -/
def snapshot (version : ℕ) (pools : List PoolRegistration)
    (hnodup : (pools.map PoolRegistration.key).Nodup) : AmmStateSnapshot where
  runtimeId := 1
  version := version
  point := ⟨1, version, 0⟩
  registry :=
    { registry := registry pools hnodup
      pools := pools.map fun pool => (pool.key, ⟨pool.key, 0⟩)
      pool := fun instanceId => pools.find? fun pool => pool.key = instanceId.key
      nodup_pools := by simpa [Function.comp_def] using hnodup }
  poolRevision := fun _ => some version
  storageValue := fun _ _ => none

/-- The second pool is added. -/
def addRight : AmmStateCommit where
  snapshot := snapshot 1 [left, right] nodup_keys
  changes := ⟨1, ⟨1, 1, 0⟩, [⟨right.key, 0⟩], false⟩

theorem call_addRight :
    ∃ live next : LiveAmmGraph (SlotGraph Address EdgeData), ∃ delta,
      LiveAmmGraph.fromSnapshot 1 (snapshot 0 [left] (by decide)) {} = .ok live ∧
        live.call 2 (.applyCommit addRight) = some (.ok delta, next) ∧
        next.graph.version = ⟨1, 1⟩ := by
  have hrun : ∃ live next : LiveAmmGraph (SlotGraph Address EdgeData), ∃ delta,
      LiveAmmGraph.fromSnapshot 1 (snapshot 0 [left] (by decide)) {} = .ok live ∧
        live.call 2 (.applyCommit addRight) = some (.ok delta, next) ∧
        live.graph.version = ⟨1, 0⟩ ∧ IndexChanged live.indexed next.indexed :=
    ⟨_, _, _, rfl, rfl, rfl, right.key, by decide⟩
  obtain ⟨live, next, delta, hlive, hcall, hversion, hchanged⟩ := hrun
  refine ⟨live, next, delta, hlive, hcall, ?_⟩
  rw [((LiveAmmGraph.call_atomic hcall).2 delta rfl).1 hchanged, hversion]

end TwoPoolGraph

end AmmSearch
