/-
Fresh balances along a run of the live graph.  Only a refresh reads the storage words of a
snapshot, so a balance is that of the current snapshot as long as no step moves the word
under it: a commit may move it, and a seeded slot may be another word.
-/
import AmmSearch.LiveGraphRebuild

open FiniteMap StableGraph

namespace AmmSearch

namespace PoolLiquidityIndex

section Balances

variable {index next : PoolLiquidityIndex} {pool : PoolKey} {token : Address}
  {source : LiquiditySource} {balance : U256}

/-- A balance that is fresh afterwards was fresh before, with the same amount. -/
def FreshWithin (index next : PoolLiquidityIndex) : Prop :=
  ∀ pool token source balance, next.target pool token = some (source, .fresh balance) →
    ∃ previous, index.target pool token = some (previous, .fresh balance)

/-- The fresh balances are what the storage words of a snapshot say. -/
def Accurate (index : PoolLiquidityIndex) (storageValue : Address → U256 → Option U256) :
    Prop :=
  ∀ pool token source balance, index.target pool token = some (source, .fresh balance) →
    snapshotBalance storageValue token source = some balance

theorem FreshWithin.refl (index : PoolLiquidityIndex) : FreshWithin index index :=
  fun _ _ source _ hfresh => ⟨source, hfresh⟩

theorem FreshWithin.trans {last : PoolLiquidityIndex} (hfirst : FreshWithin index next)
    (hsecond : FreshWithin next last) : FreshWithin index last := by
  intro pool token source balance hfresh
  obtain ⟨middle, hmiddle⟩ := hsecond pool token source balance hfresh
  exact hfirst pool token middle balance hmiddle

/-- Indexes with the same places are compared slot by slot. -/
theorem freshWithin_of_slots (hplaces : next.byPoolToken = index.byPoolToken)
    (hslots : ∀ (position : ℕ) (later : PoolLiquidityTarget) (balance : U256),
      next.targets[position]? = some later → later.balance = .fresh balance →
        ∃ earlier, index.targets[position]? = some earlier ∧ earlier.balance = .fresh balance) :
    FreshWithin index next := by
  intro pool token source balance hfresh
  unfold target at hfresh ⊢
  rw [hplaces] at hfresh
  obtain ⟨position, hposition, hlater⟩ := Option.bind_eq_some_iff.mp hfresh
  obtain ⟨later, htarget, heq⟩ := Option.map_eq_some_iff.mp hlater
  obtain ⟨earlier, hearlier, hbalance⟩ :=
    hslots position later balance htarget (congrArg Prod.snd heq)
  refine ⟨earlier.source, ?_⟩
  rw [hposition, Option.bind_some, hearlier, Option.map_some, hbalance]

theorem freshWithin_setTargetSlot (token : Address) (slot : U256) (position : ℕ) :
    FreshWithin index (setTargetSlot token slot index position) := by
  unfold setTargetSlot
  split
  · rename_i target htarget
    split
    · refine freshWithin_of_slots rfl fun other later balance hlater hbalance => ?_
      rw [List.getElem?_set] at hlater
      split at hlater
      · rename_i hsame
        split at hlater
        · obtain rfl := Option.some.inj hlater
          exact ⟨target, hsame ▸ htarget, hbalance⟩
        · cases hlater
      · exact ⟨later, hlater, hbalance⟩
    · exact .refl index
  · exact .refl index

theorem freshWithin_setErc20BalanceSlot (token holder : Address) (slot : U256) :
    FreshWithin index (index.setErc20BalanceSlot token holder slot).2 := by
  have hfold : ∀ (positions : List ℕ) (start : PoolLiquidityIndex),
      FreshWithin start (positions.foldl (setTargetSlot token slot) start) := by
    intro positions
    induction positions with
    | nil => exact fun start => .refl start
    | cons position rest ih =>
        exact fun start => (freshWithin_setTargetSlot token slot position).trans (ih _)
  exact hfold _ index

theorem freshWithin_markStale (hmark : index.markStale pool token = .ok next) :
    FreshWithin index next := by
  unfold markStale at hmark
  split at hmark
  · cases hmark
  · obtain rfl := Except.ok.inj hmark
    refine freshWithin_of_slots rfl fun position later balance hlater hbalance => ?_
    rw [List.getElem?_modify] at hlater
    obtain ⟨earlier, hearlier, rfl⟩ := Option.map_eq_some_iff.mp hlater
    split at hbalance
    · cases hbalance
    · exact ⟨earlier, hearlier, hbalance⟩

/-- A reconciliation keeps a balance with its source or forgets it. -/
theorem freshWithin_reconcilePools {G : Type} {registry : AdapterRegistry}
    {graph : AmmGraph G} {scope : LiquidityIndexScope} (hindex : index.WellFormed)
    (pools : Finset PoolKey) :
    FreshWithin index (index.reconcilePools registry graph scope pools).1 := by
  intro pool token source balance hfresh
  rw [target_reconcilePools hindex] at hfresh
  split at hfresh
  · obtain ⟨desired, -, hreconciled⟩ := Option.map_eq_some_iff.mp hfresh
    cases hprevious : index.target pool token with
    | none =>
        rw [hprevious] at hreconciled
        cases hreconciled
    | some found =>
        rw [hprevious] at hreconciled
        obtain ⟨-, hkept⟩ := Prod.mk.inj hreconciled
        split at hkept
        · exact ⟨found.1, congrArg some (Prod.ext rfl hkept)⟩
        · cases hkept
  · exact ⟨source, hfresh⟩

/-- A refresh reads every tracked balance again. -/
theorem accurate_refreshFromSnapshot (hindex : index.WellFormed)
    (storageValue : Address → U256 → Option U256) :
    (index.refreshFromSnapshot storageValue).1.Accurate storageValue := by
  intro pool token source balance hfresh
  obtain ⟨position, hposition, hlater⟩ := Option.bind_eq_some_iff.mp hfresh
  obtain ⟨target, htarget, hactive, htoken⟩ := hindex.located pool token position hposition
  simp only [refreshFromSnapshot, List.getElem?_map, htarget, Option.map_some, hactive,
    Bool.not_true, Bool.false_eq_true, if_false, htoken] at hlater
  split at hlater
  · cases hlater
  · rename_i value hvalue
    obtain ⟨rfl, hbalance⟩ := Prod.mk.inj (Option.some.inj hlater)
    obtain rfl := BalanceState.fresh.inj hbalance
    exact hvalue

end Balances

end PoolLiquidityIndex

namespace LiveAmmGraph

section Freshness

variable {G : Type} [StableDiGraph G Address EdgeData] {publish : ℕ → AmmStateSnapshot}
  {live next : LiveAmmGraph G} {lineage : ℕ} {request : Call} {operation : Operation}
  {operations : List Operation} {deltas : List GraphDelta} {states : List (LiveAmmGraph G)}

/-- The storage words of the snapshot that the live graph stands for. -/
def words (publish : ℕ → AmmStateSnapshot) (live : LiveAmmGraph G) :
    Address → U256 → Option U256 :=
  (publish live.stateVersion).storageValue

/-- No word moves under a balance that stays fresh. -/
def KeepsWords (publish : ℕ → AmmStateSnapshot) (live next : LiveAmmGraph G) : Prop :=
  ∀ pool token previous source balance,
    live.liquidity.target pool token = some (previous, .fresh balance) →
    next.liquidity.target pool token = some (source, .fresh balance) →
    PoolLiquidityIndex.snapshotBalance (next.words publish) token source =
      PoolLiquidityIndex.snapshotBalance (live.words publish) token previous

/-- The snapshots of an operation are published ones. -/
def Operation.Observes (publish : ℕ → AmmStateSnapshot) : Operation → Prop
  | .call _ request => request.snapshot = publish request.snapshot.version
  | .refreshLiquidityFromSnapshot snapshot => snapshot = publish snapshot.version
  | _ => True

/-- The operation that reads balances from a snapshot. -/
def Operation.Refreshes : Operation → Prop
  | .refreshLiquidityFromSnapshot _ => True
  | .call _ _ | .setErc20LiquiditySlot _ _ _ | .markLiquidityStale _ _ => False

/-- No operation of a run but a refresh makes a balance fresh. -/
def FreshensByRefresh (operations : List Operation) (states : List (LiveAmmGraph G)) : Prop :=
  ∀ (index : ℕ) operation earlier later, operations[index]? = some operation →
    states[index]? = some earlier → states[index + 1]? = some later →
    ¬operation.Refreshes → PoolLiquidityIndex.FreshWithin earlier.liquidity later.liquidity

/-- An accepted commit or recovery leaves the liquidity alone or reconciles pools. -/
theorem liquidity_accepts {delta : GraphDelta}
    (haccepts : live.Accepts lineage request (.ok delta, next)) :
    next.liquidity = live.liquidity ∨
      ∃ (registry : AdapterRegistry) (graph : AmmGraph G) (pools : Finset PoolKey),
        next.liquidity =
          (live.liquidity.reconcilePools registry graph live.liquidityScope pools).1 := by
  generalize hresult : ((.ok delta, next) :
    Except LiveGraphError GraphDelta × LiveAmmGraph G) = result at haccepts
  cases haccepts with
  | @unchanged commit hknown hidentity =>
      obtain ⟨-, rfl⟩ := Prod.mk.inj hresult
      exact .inl rfl
  | @changed commit impact result hknown hother happly hok =>
      subst hresult
      obtain ⟨applied, version, -, -, -, -, -, -, -, hnext⟩ := applyChanged_ok happly
      rw [hnext]
      exact .inr ⟨_, _, _, rfl⟩
  | @replaced _ nextIndexed hindexed hok =>
      obtain ⟨version, -, -, -, -, -, -, hnext⟩ := replaceFromSnapshot_ok hresult.symm
      rw [hnext]
      exact .inr ⟨_, _, _, rfl⟩

omit [StableDiGraph G Address EdgeData] in
theorem version_of_validateSnapshot {snapshot : AmmStateSnapshot}
    (hvalid : live.validateSnapshot snapshot = none) :
    snapshot.version = live.stateVersion := by
  unfold validateSnapshot at hvalid
  split at hvalid
  · cases hvalid
  · split at hvalid
    · cases hvalid
    · rename_i hsame
      exact not_not.mp (not_or.mp hsame).1

/-- What one operation does to the balances: it refreshes them from the snapshot that the
graph stands for, or makes none of them fresh. -/
theorem liquidity_execute (hindexed : live.liquidity.HolderIndexed)
    (hobserves : operation.Observes publish) {emitted : Option GraphDelta}
    (hexecute : live.execute operation = some (emitted, next)) :
    next.liquidity.HolderIndexed ∧
      (PoolLiquidityIndex.FreshWithin live.liquidity next.liquidity ∨
        operation.Refreshes ∧ next.liquidity.Accurate (next.words publish)) := by
  cases operation with
  | call lineage request =>
      obtain ⟨⟨outcome, after⟩, hcall, heq⟩ := Option.map_eq_some_iff.mp hexecute
      obtain ⟨-, rfl⟩ := Prod.mk.inj heq
      rcases outcome_call hcall with ⟨error, hresult⟩ | ⟨-, -, haccepts⟩
      · obtain ⟨-, rfl⟩ := Prod.mk.inj hresult
        exact ⟨hindexed, .inl (.refl _)⟩
      · obtain ⟨delta, hok⟩ := haccepts.exists_delta
        simp only at hok
        subst hok
        rcases liquidity_accepts haccepts with hsame | ⟨registry, graph, pools, hreconciled⟩
        · rw [hsame]
          exact ⟨hindexed, .inl (.refl _)⟩
        · rw [hreconciled]
          exact ⟨hindexed.foldl_reconcilePool _ _ _ _ _,
            .inl (PoolLiquidityIndex.freshWithin_reconcilePools hindexed.wellFormed pools)⟩
  | setErc20LiquiditySlot token holder slot =>
      cases hexecute
      exact ⟨hindexed.setErc20Slot token holder slot,
        .inl (PoolLiquidityIndex.freshWithin_setErc20BalanceSlot token holder slot)⟩
  | markLiquidityStale pool token =>
      cases hexecute
      unfold markLiquidityStale
      split
      · exact ⟨hindexed, .inl (.refl _)⟩
      · rename_i liquidity hmark
        have htouches := PoolLiquidityIndex.touches_markStale live.liquidity pool token
        rw [hmark] at htouches
        exact ⟨hindexed.of_touches htouches,
          .inl (PoolLiquidityIndex.freshWithin_markStale hmark)⟩
  | refreshLiquidityFromSnapshot snapshot =>
      cases hexecute
      unfold refreshLiquidityFromSnapshot
      split
      · exact ⟨hindexed, .inl (.refl _)⟩
      · rename_i hvalid
        refine ⟨hindexed.of_touches (PoolLiquidityIndex.touches_refreshFromSnapshot _ _),
          .inr ⟨trivial, ?_⟩⟩
        have hversion := version_of_validateSnapshot hvalid
        have hwords : snapshot.storageValue = live.words publish := by
          rw [words, ← hversion, ← show snapshot = publish snapshot.version from hobserves]
        simp only [hwords]
        exact PoolLiquidityIndex.accurate_refreshFromSnapshot hindexed.wellFormed _

omit [StableDiGraph G Address EdgeData] in
/-- A balance stays accurate if the word under it does. -/
theorem accurate_of_keepsWords (haccurate : live.liquidity.Accurate (live.words publish))
    (hwithin : PoolLiquidityIndex.FreshWithin live.liquidity next.liquidity)
    (hkeeps : live.KeepsWords publish next) :
    next.liquidity.Accurate (next.words publish) := by
  intro pool token source balance hfresh
  obtain ⟨previous, hprevious⟩ := hwithin pool token source balance hfresh
  rw [hkeeps pool token previous source balance hprevious hfresh]
  exact haccurate pool token previous balance hprevious

omit [StableDiGraph G Address EdgeData] in
theorem keepsWords_of_accurate (haccurate : live.liquidity.Accurate (live.words publish))
    (hlater : next.liquidity.Accurate (next.words publish)) : live.KeepsWords publish next := by
  intro pool token previous source balance hprevious hfresh
  rw [haccurate pool token previous balance hprevious, hlater pool token source balance hfresh]

omit [StableDiGraph G Address EdgeData] in
theorem keepsWords_of_unknown
    (hunknown : ∀ target ∈ live.liquidity.targets, target.balance = .unknown) :
    live.KeepsWords publish next := by
  intro pool token previous source balance hprevious
  obtain ⟨position, -, htarget⟩ := Option.bind_eq_some_iff.mp hprevious
  obtain ⟨target, hfound, heq⟩ := Option.map_eq_some_iff.mp htarget
  cases (hunknown target (List.mem_of_getElem? hfound)).symm.trans (congrArg Prod.snd heq)

theorem history_head (hhistory : live.history operations = some (deltas, states)) :
    ∃ later, states = live :: later := by
  cases operations with
  | nil =>
      cases hhistory
      exact ⟨[], rfl⟩
  | cons operation rest =>
      obtain ⟨_, _, _, laterStates, _, _, _, rfl⟩ := history_cons hhistory
      exact ⟨laterStates, rfl⟩

/-- A run from accurate balances. -/
theorem accurate_run_iff (hindexed : live.liquidity.HolderIndexed)
    (haccurate : live.liquidity.Accurate (live.words publish))
    (hobserves : ∀ operation ∈ operations, operation.Observes publish)
    (hhistory : live.history operations = some (deltas, states)) :
    (∀ reached ∈ states, reached.liquidity.Accurate (reached.words publish)) ↔
      states.IsChain (KeepsWords publish) := by
  induction operations generalizing live deltas states with
  | nil =>
      cases hhistory
      simpa using haccurate
  | cons operation rest ih =>
      obtain ⟨emitted, after, laterDeltas, laterStates, hexecute, hrest, -, rfl⟩ :=
        history_cons hhistory
      rw [List.forall_mem_cons] at hobserves
      obtain ⟨hlaterIndexed, hstep⟩ := liquidity_execute hindexed hobserves.1 hexecute
      obtain ⟨later, rfl⟩ := history_head hrest
      rw [List.forall_mem_cons, List.isChain_cons_cons]
      constructor
      · rintro ⟨-, hall⟩
        have hafter := hall after List.mem_cons_self
        exact ⟨keepsWords_of_accurate haccurate hafter,
          (ih hlaterIndexed hafter hobserves.2 hrest).mp hall⟩
      · rintro ⟨hkeeps, hchain⟩
        have hafter : after.liquidity.Accurate (after.words publish) :=
          hstep.elim (accurate_of_keepsWords haccurate · hkeeps) And.right
        exact ⟨haccurate, (ih hlaterIndexed hafter hobserves.2 hrest).mpr hchain⟩

/-- Along a run the operations act one by one on its states. -/
theorem freshensByRefresh_of_history (hindexed : live.liquidity.HolderIndexed)
    (hobserves : ∀ operation ∈ operations, operation.Observes publish)
    (hhistory : live.history operations = some (deltas, states)) :
    FreshensByRefresh operations states := by
  induction operations generalizing live deltas states with
  | nil =>
      intro index operation earlier later hoperation
      simp at hoperation
  | cons operation rest ih =>
      obtain ⟨emitted, after, laterDeltas, laterStates, hexecute, hrest, -, rfl⟩ :=
        history_cons hhistory
      rw [List.forall_mem_cons] at hobserves
      obtain ⟨hlaterIndexed, hstep⟩ := liquidity_execute hindexed hobserves.1 hexecute
      intro index acting earlier later hacting hearlier hlater hother
      cases index with
      | zero =>
          obtain rfl := Option.some.inj hacting
          obtain rfl := Option.some.inj hearlier
          obtain ⟨others, rfl⟩ := history_head hrest
          obtain rfl := Option.some.inj hlater
          exact hstep.resolve_right fun hrefresh => hother hrefresh.1
      | succ index =>
          exact ih hlaterIndexed hobserves.2 hrest index acting earlier later hacting hearlier
            hlater hother

/-- A build knows no balance. -/
theorem unknown_fromSnapshot (publish : ℕ → AmmStateSnapshot) {snapshot : AmmStateSnapshot}
    {options : GraphBuildOptions} {scope : LiquidityIndexScope}
    (hbuild : fromSnapshotWithLiquidityScope lineage snapshot options scope = .ok live) :
    live.liquidity.HolderIndexed ∧ live.liquidity.Accurate (live.words publish) := by
  unfold fromSnapshotWithLiquidityScope at hbuild
  simp only at hbuild
  split at hbuild
  · cases hbuild
  · obtain rfl := Except.ok.inj hbuild
    refine ⟨(PoolLiquidityIndex.Constructed.fromRegistryWithScope _ _ _).holderIndexed,
      fun pool token source balance hfresh => ?_⟩
    rw [PoolLiquidityIndex.target_fromRegistryWithScope
      (AmmGraph.Built.fromRegistry lineage snapshot.registry.registry options).valid] at hfresh
    obtain ⟨_, -, hunknown⟩ := Option.map_eq_some_iff.mp hfresh
    cases (Prod.mk.inj hunknown).2

/-- The fresh balances are those of the current snapshot in every state of a run exactly if
no step of the run moves the word under a balance that it leaves fresh; and only a refresh
makes a balance fresh. -/
theorem history_accurate_iff {snapshot : AmmStateSnapshot} {options : GraphBuildOptions}
    {scope : LiquidityIndexScope}
    (hbuild : fromSnapshotWithLiquidityScope lineage snapshot options scope = .ok live)
    (hobserves : ∀ operation ∈ operations, operation.Observes publish)
    (hhistory : live.history operations = some (deltas, states)) :
    ((∀ reached ∈ states, reached.liquidity.Accurate (reached.words publish)) ↔
      states.IsChain (KeepsWords publish)) ∧ FreshensByRefresh operations states := by
  obtain ⟨hindexed, haccurate⟩ := unknown_fromSnapshot publish hbuild
  exact ⟨accurate_run_iff hindexed haccurate hobserves hhistory,
    freshensByRefresh_of_history hindexed hobserves hhistory⟩

end Freshness

end LiveAmmGraph

namespace TwoPoolGraph

/-- Snapshots of two pools of one pair; a word moves with the second version. -/
def publishMoving (version : ℕ) : AmmStateSnapshot :=
  { snapshot version [left, twin] nodup_twin with
    storageValue := fun address slot =>
      if address = 1 ∧ slot = 10 then some (if version < 2 then 100 else 200) else none }

/-- A commit that changes no pool. -/
def keepPools (version : ℕ) : LiveAmmGraph.Operation :=
  .call 0 (.applyCommit ⟨publishMoving version, ⟨version, ⟨1, version, 0⟩, [], false⟩⟩)

/-- Slots are seeded and read before the next commit. -/
def readFirst : List LiveAmmGraph.Operation :=
  [.setErc20LiquiditySlot 1 7 10, .refreshLiquidityFromSnapshot (publishMoving 0), keepPools 1]

/-- Up to the version in which the word moves, the balance that was read is accurate. -/
theorem history_accurate_readFirst :
    ∃ (live : LiveAmmGraph (SlotGraph Address EdgeData)) (deltas : List GraphDelta)
      (states : List (LiveAmmGraph (SlotGraph Address EdgeData))),
      live.history readFirst = some (deltas, states) ∧
      states.map (fun reached => reached.liquidity.balanceState left.key 1) =
        [.unknown, .unknown, .fresh 100, .fresh 100] ∧
      (∀ reached ∈ states, reached.liquidity.Accurate (reached.words publishMoving)) ∧
      LiveAmmGraph.FreshensByRefresh readFirst states := by
  have hrun : ∃ live seeded read last : LiveAmmGraph (SlotGraph Address EdgeData), ∃ deltas,
      LiveAmmGraph.fromSnapshotWithLiquidityScope 1 (publishMoving 0) {}
        .parallelEdgeOutputs = .ok live ∧
      live.history readFirst = some (deltas, [live, seeded, read, last]) ∧
      [live, seeded, read, last].map (fun reached =>
          reached.liquidity.balanceState left.key 1) =
        [.unknown, .unknown, .fresh 100, .fresh 100] ∧
      (∀ target ∈ live.liquidity.targets, target.balance = .unknown) ∧
      (∀ target ∈ seeded.liquidity.targets, target.balance = .unknown) ∧
      last.liquidity = read.liquidity ∧ read.stateVersion = 0 ∧ last.stateVersion = 1 :=
    ⟨_, _, _, _, _, rfl, rfl, by decide, by decide, by decide, rfl, rfl, rfl⟩
  obtain ⟨live, seeded, read, last, deltas, hbuild, hhistory, hbalances, hlive, hseeded, hsame,
    hread, hlast⟩ := hrun
  have hobserves : ∀ operation ∈ readFirst, operation.Observes publishMoving := by
    intro operation hoperation
    simp only [readFirst, List.mem_cons, List.not_mem_nil, or_false] at hoperation
    rcases hoperation with rfl | rfl | rfl
    · trivial
    · rfl
    · rfl
  obtain ⟨haccurate, hfreshens⟩ :=
    LiveAmmGraph.history_accurate_iff hbuild hobserves hhistory
  refine ⟨live, deltas, _, hhistory, hbalances, haccurate.mpr ?_, hfreshens⟩
  have hwords : last.words publishMoving = read.words publishMoving := by
    rw [LiveAmmGraph.words, LiveAmmGraph.words, hread, hlast]
    rfl
  simp only [List.isChain_cons_cons, List.isChain_singleton, and_true]
  refine ⟨LiveAmmGraph.keepsWords_of_unknown hlive,
    LiveAmmGraph.keepsWords_of_unknown hseeded, ?_⟩
  intro pool token previous source balance hprevious hfresh
  rw [hsame, hprevious] at hfresh
  obtain ⟨rfl, -⟩ := Prod.mk.inj (Option.some.inj hfresh)
  rw [hwords]

/-- The commit of the next version leaves the old balance fresh. -/
theorem not_accurate_moved :
    ∃ (live : LiveAmmGraph (SlotGraph Address EdgeData)) (deltas : List GraphDelta)
      (states : List (LiveAmmGraph (SlotGraph Address EdgeData))),
      LiveAmmGraph.fromSnapshotWithLiquidityScope 1 (publishMoving 0) {}
        .parallelEdgeOutputs = .ok live ∧
      live.history (readFirst ++ [keepPools 2]) = some (deltas, states) ∧
      ∃ reached ∈ states, ¬ reached.liquidity.Accurate (reached.words publishMoving) := by
  have hrun : ∃ live seeded read kept last : LiveAmmGraph (SlotGraph Address EdgeData),
      ∃ deltas,
      LiveAmmGraph.fromSnapshotWithLiquidityScope 1 (publishMoving 0) {}
        .parallelEdgeOutputs = .ok live ∧
      live.history (readFirst ++ [keepPools 2]) =
        some (deltas, [live, seeded, read, kept, last]) ∧
      last.liquidity.target left.key 1 = some (.erc20Balance 7 (some 10), .fresh 100) ∧
      last.stateVersion = 2 :=
    ⟨_, _, _, _, _, _, rfl, rfl, by decide, rfl⟩
  obtain ⟨live, seeded, read, kept, last, deltas, hbuild, hhistory, hfresh, hversion⟩ := hrun
  refine ⟨live, deltas, _, hbuild, hhistory, last, by simp, fun haccurate => ?_⟩
  have hword := haccurate left.key 1 _ 100 hfresh
  rw [LiveAmmGraph.words, hversion] at hword
  exact absurd hword (by decide)

end TwoPoolGraph

end AmmSearch
