/-
The request-path index along a run of the live graph.  Deltas may be lost,
repeated or late, and the index may be rebuilt from any graph of the run: it is
always the index of the graph at its own version.
-/
import AmmSearch.GraphIndexExact
import AmmSearch.LiveGraphRuns

open FiniteMap StableGraph

namespace AmmSearch

namespace GraphIndex

variable {G : Type} [StableDiGraph G Address EdgeData]

/-- One step of the index updater. -/
inductive Step (G : Type)
  | applyDelta (delta : GraphDelta)
  | reconcileGraph (live : LiveAmmGraph G)

def Step.Within (deltas : List GraphDelta) (states : List (LiveAmmGraph G)) : Step G → Prop
  | applyDelta delta => delta ∈ deltas
  | reconcileGraph live => live ∈ states

def follow (index : GraphIndex) : Step G → GraphIndex
  | .applyDelta delta => (index.applyDelta delta).2
  | .reconcileGraph live => fromGraph live.graph live.stateVersion

variable {index next : GraphIndex} {live before after : LiveAmmGraph G}
  {operations : List LiveAmmGraph.Operation} {delta : GraphDelta}
  {deltas : List GraphDelta} {states : List (LiveAmmGraph G)}

/-- The last listed change of a pool decides its tokens. -/
theorem foldl_changesBetween {keys : List PoolKey} (hkeys : keys.Nodup)
    (previous later : PoolKey → Option IndexedPool) (pool : PoolKey)
    (entry : Option (List Address)) :
    (changesBetween keys previous later).foldl (fun entry change =>
        if pool = change.pool then canonicalTokens change.after else entry) entry =
      if pool ∈ keys ∧ previous pool ≠ later pool then canonicalTokens (later pool)
      else entry := by
  induction keys generalizing entry with
  | nil => simp [changesBetween]
  | cons head rest ih =>
      obtain ⟨hhead, hrest⟩ := List.nodup_cons.mp hkeys
      have hsplit : changesBetween (head :: rest) previous later =
          poolDeltas head (previous head) (later head) ++ changesBetween rest previous later :=
        rfl
      rw [hsplit, List.foldl_append, ih hrest]
      unfold poolDeltas
      by_cases hpool : pool = head
      · subst hpool
        by_cases hsame : previous pool = later pool
        · simp [hhead, hsame]
        · simp [hhead, hsame]
      · by_cases hsame : previous head = later head
        · simp [hpool, hsame]
        · simp [hpool, hsame]

theorem canonicalTokens_eq (hmirrors : live.Mirrors) (pool : PoolKey) :
    canonicalTokens (live.indexed.lookup pool) = live.graph.poolTokens.lookup pool := by
  have htokens := hmirrors.tokens pool
  unfold canonicalTokens
  cases hlookup : live.indexed.lookup pool with
  | none =>
      rw [hlookup] at htokens
      exact htokens.symm
  | some indexed =>
      rw [hlookup, Option.map_some] at htokens
      rw [htokens, Option.map_some,
        sortDedup_of_pairwise (hmirrors.valid.indexed.tokens_valid pool _ htokens).1]

/-- An applied delta turns the index of one graph into that of the next. -/
theorem applyDelta_fromGraph {snapshot : AmmStateSnapshot} (hbefore : before.Mirrors)
    (hafter : after.Mirrors) (hcommitted : before.Committed snapshot delta after)
    (happly : (fromGraph before.graph before.stateVersion).applyDelta delta =
      (.ok true, next)) :
    next = fromGraph after.graph after.stateVersion := by
  obtain ⟨hconsistent, _, hversion, hlookup⟩ :=
    (consistent_fromGraph hbefore.valid before.stateVersion).applyDelta happly
  obtain ⟨keys, hkeys, hothers, hchanges⟩ := hcommitted.changes
  have hsource : next.stateVersion = after.stateVersion := by
    rw [hversion, hcommitted.source.1, hcommitted.state.1]
  rw [← hsource]
  apply hconsistent.eq_fromGraph hafter.valid
  intro pool
  rw [hlookup, hchanges, foldl_changesBetween hkeys, poolTokens_fromGraph hbefore.valid]
  split
  · exact canonicalTokens_eq hafter pool
  · rename_i hunlisted
    -- a pool without a listed change has the same representation
    have hsame : before.indexed.lookup pool = after.indexed.lookup pool := by
      by_cases hpool : pool ∈ keys
      · by_contra hdiffer
        exact hunlisted ⟨hpool, hdiffer⟩
      · exact (hothers pool hpool).symm
    rw [hbefore.tokens, hafter.tokens, hsame]

/-- The index is that of a visited graph. -/
def Follows (states : List (LiveAmmGraph G)) (index : GraphIndex) : Prop :=
  ∃ reached ∈ states, index = fromGraph reached.graph reached.stateVersion

theorem Follows.follow (hmirrors : ∀ reached ∈ states, reached.Mirrors)
    (hhistory : live.history operations = some (deltas, states))
    (hfollows : index.Follows states) {step : Step G} (hstep : step.Within deltas states) :
    (index.follow step).Follows states := by
  cases step with
  | reconcileGraph rebuilt => exact ⟨rebuilt, hstep, rfl⟩
  | applyDelta delta =>
      obtain ⟨reached, hreached, rfl⟩ := hfollows
      cases happly : (fromGraph reached.graph reached.stateVersion).applyDelta delta with
      | mk outcome next =>
          change Follows states ((fromGraph reached.graph reached.stateVersion).applyDelta
            delta).2
          rw [happly]
          rcases applyDelta_cases happly with ⟨_, rfl⟩ | ⟨rfl, hsource, _⟩
          · exact ⟨reached, hreached, rfl⟩
          · obtain ⟨before, hbefore, after, hafter, snapshot, hcommitted, hlt, hbetween⟩ :=
              LiveAmmGraph.history_delta hhistory hstep
            -- the delta is the one that leaves the version of the index
            have hversion : reached.stateVersion = before.stateVersion := by
              have hnext : after.stateVersion = reached.stateVersion + 1 := by
                rw [hcommitted.state.1, ← hcommitted.source.1, hsource]
                rfl
              rcases hbetween reached hreached with hle | hge
              · omega
              · omega
            obtain ⟨hgraph, _⟩ :=
              LiveAmmGraph.history_unique hhistory hreached hbefore hversion
            rw [hgraph, hversion] at happly
            exact ⟨after, hafter, applyDelta_fromGraph (hmirrors before hbefore)
              (hmirrors after hafter) hcommitted happly⟩

/-- Whatever deltas of a run reach the index, it is the index of the graph at
its version; a delta that is not applied leaves it alone. -/
theorem tracks_run {lineage : ℕ} {snapshot : AmmStateSnapshot}
    {options : GraphBuildOptions} {scope : LiquidityIndexScope}
    (hbuild : LiveAmmGraph.fromSnapshotWithLiquidityScope lineage snapshot options scope =
      .ok live)
    (hsnapshot : snapshot.registry.Coherent)
    (hcoherent : ∀ operation ∈ operations, operation.Coherent)
    (hhistory : live.history operations = some (deltas, states))
    {first : LiveAmmGraph G} (hfirst : first ∈ states) {steps : List (Step G)}
    (hsteps : ∀ step ∈ steps, step.Within deltas states) :
    let index := steps.foldl follow (fromGraph first.graph first.stateVersion)
    (∃ reached ∈ states, reached.stateVersion = index.stateVersion) ∧
    (∀ reached ∈ states, reached.stateVersion = index.stateVersion →
      index.edges = (fromGraph reached.graph reached.stateVersion).edges ∧
      index.poolTokens = (fromGraph reached.graph reached.stateVersion).poolTokens ∧
      index.tokenPools = (fromGraph reached.graph reached.stateVersion).tokenPools) ∧
    ∀ (other next : GraphIndex) (delta : GraphDelta) (outcome : Except GraphIndexError Bool),
      other.applyDelta delta = (outcome, next) → outcome ≠ .ok true → next = other := by
  have hmirrors := LiveAmmGraph.history_mirrors
    (LiveAmmGraph.Mirrors.fromSnapshot hsnapshot hbuild) hcoherent hhistory
  have hfollows : (steps.foldl follow
      (fromGraph first.graph first.stateVersion)).Follows states := by
    have hstart : (fromGraph first.graph first.stateVersion).Follows states :=
      ⟨first, hfirst, rfl⟩
    generalize fromGraph first.graph first.stateVersion = index at hstart
    induction steps generalizing index with
    | nil => exact hstart
    | cons step rest ih =>
        apply ih (fun other hother => hsteps other (List.mem_cons_of_mem step hother))
        exact hstart.follow hmirrors hhistory (hsteps step List.mem_cons_self)
  obtain ⟨reached, hreached, hindex⟩ := hfollows
  refine ⟨⟨reached, hreached, ?_⟩, fun other hother hversion => ?_, ?_⟩
  · rw [hindex]
    rfl
  · rw [hindex] at hversion ⊢
    obtain ⟨hgraph, _⟩ := LiveAmmGraph.history_unique hhistory hother hreached hversion
    rw [hgraph]
    exact ⟨rfl, rfl, rfl⟩
  · intro other next delta outcome happly houtcome
    rcases applyDelta_cases happly with ⟨_, hsame⟩ | ⟨htrue, _⟩
    · exact hsame
    · exact absurd htrue houtcome

end GraphIndex

namespace TwoPoolGraph

theorem coherent_snapshot (version : ℕ) (pools : List PoolRegistration)
    (hnodup : (pools.map PoolRegistration.key).Nodup) :
    (snapshot version pools hnodup).registry.Coherent := by
  intro key registration
  have hinstance : (snapshot version pools hnodup).registry.poolInstance key =
      (pools.find? fun pool => pool.key = key).map fun pool => ⟨pool.key, 0⟩ := by
    simp only [AmmRegistryView.poolInstance, snapshot, List.find?_map, Option.map_map]
    rfl
  change (pools.find? fun pool => pool.key = key) = some registration ↔ _
  rw [hinstance]
  cases hfind : pools.find? fun pool => pool.key = key with
  | none => simp
  | some found =>
      have hkey : found.key = key := by simpa using List.find?_some hfind
      simp only [Option.map_some, Option.some.injEq, exists_eq_left', snapshot, hkey, hfind]

/-- The second pool reaches the index twice. -/
theorem tracks_addRight :
    ∃ (live reached : LiveAmmGraph (SlotGraph Address EdgeData)) (delta : GraphDelta),
      live.history [.call 2 (.applyCommit addRight)] = some ([delta], [live, reached]) ∧
      let index := [delta, delta].foldl (fun index delta => (index.applyDelta delta).2)
        (GraphIndex.fromGraph live.graph live.stateVersion)
      reached.stateVersion = index.stateVersion ∧
        index.edges = (GraphIndex.fromGraph reached.graph reached.stateVersion).edges := by
  have hrun : ∃ live reached : LiveAmmGraph (SlotGraph Address EdgeData), ∃ delta,
      LiveAmmGraph.fromSnapshotWithLiquidityScope 1 (snapshot 0 [left] (by decide)) {}
        .parallelEdgeOutputs = .ok live ∧
      live.history [.call 2 (.applyCommit addRight)] = some ([delta], [live, reached]) ∧
      reached.stateVersion =
        ([delta, delta].foldl (fun index delta => (index.applyDelta delta).2)
          (GraphIndex.fromGraph live.graph live.stateVersion)).stateVersion :=
    ⟨_, _, _, rfl, rfl, rfl⟩
  obtain ⟨live, reached, delta, hbuild, hhistory, hversion⟩ := hrun
  refine ⟨live, reached, delta, hhistory, hversion, ?_⟩
  have htracks := GraphIndex.tracks_run hbuild (coherent_snapshot 0 [left] (by decide))
    (fun operation hoperation => by
      rw [List.mem_singleton.mp hoperation]
      exact coherent_snapshot 1 [left, right] (by decide))
    hhistory List.mem_cons_self
    (fun step hstep => by
      obtain ⟨listed, hlisted, rfl⟩ := List.mem_map.mp hstep
      have hsame : listed = delta := by simpa using hlisted
      exact List.mem_singleton.mpr hsame :
      ∀ step ∈ ([delta, delta].map GraphIndex.Step.applyDelta), step.Within [delta] _)
  exact (htracks.2.1 reached (by simp) hversion).1

end TwoPoolGraph

end AmmSearch
