/-
The public operations of the token graph: each keeps the representation
invariant, refines an operation on the topology, and reports the edges it
removed and added.  An operation is described once, by an equation that says
when it does nothing and otherwise which entry it replaces.
-/
import Mathlib.Algebra.BigOperators.Group.Finset.Basic
import AmmSearch.AmmGraphTopology

open FiniteMap StableGraph

namespace AmmSearch

namespace GraphVersion

theorem checkedNext_eq_some_iff {version next : GraphVersion} :
    version.checkedNext = some next ↔
      version.revision < u64Max ∧ next = ⟨version.lineage, version.revision + 1⟩ := by
  unfold checkedNext AmmSearch.checkedNext
  split
  · simp [*, eq_comm]
  · simp [*]

end GraphVersion

/-- What replacing the entry `current` of a pool by `entry` reports. -/
def poolMutation : Option (List Address) → Option (List Address) → GraphPoolMutation
  | none, none => .unchanged
  | none, some added => .added (directedEdgeCount added.length)
  | some removed, none => .removed (directedEdgeCount removed.length)
  | some removed, some added =>
      .updated (directedEdgeCount removed.length) (directedEdgeCount added.length)

namespace GraphPoolMutation

def removedEdges : GraphPoolMutation → ℕ
  | updated count _ | removed count => count
  | unchanged | added _ | skipped _ => 0

def addedEdges : GraphPoolMutation → ℕ
  | updated _ count | added count => count
  | unchanged | removed _ | skipped _ => 0

end GraphPoolMutation

namespace AmmGraph

variable {G : Type} [StableDiGraph G Address EdgeData]

/-- Every index follows the pool-to-tokens map and nothing is left over. -/
structure Valid (g : AmmGraph G) : Prop where
  indexed : g.Indexed
  tidy : g.Tidy

/-- The graph after the entry of `pool` is replaced, before the version is
advanced. -/
def setPool (g : AmmGraph G) (pool : PoolKey) : Option (List Address) → AmmGraph G
  | none => g.retirePool pool
  | some tokens => (g.retirePool pool).addPoolEdges pool tokens

/-- The entry under which a registration is indexed. -/
def registeredEntry (registration : PoolRegistration)
    (options : GraphBuildOptions) : Option (List Address) :=
  (indexedTokens registration options).toOption

theorem registeredEntry_valid {registration : PoolRegistration}
    {options : GraphBuildOptions} {tokens : List Address}
    (hentry : registeredEntry registration options = some tokens) :
    tokens.Pairwise (· < ·) ∧ 2 ≤ tokens.length := by
  unfold registeredEntry at hentry
  cases htokens : indexedTokens registration options with
  | error reason => rw [htokens] at hentry; cases hentry
  | ok found =>
      rw [htokens] at hentry
      obtain rfl : found = tokens := Option.some.inj hentry
      exact indexedTokens_valid htokens

/-- The mutation that reports an operation without effect. -/
def idleMutation (registration : PoolRegistration)
    (options : GraphBuildOptions) : GraphPoolMutation :=
  match indexedTokens registration options with
  | .error reason => .skipped reason
  | .ok _ => .unchanged

namespace Valid

variable {g : AmmGraph G}

theorem new (lineage : ℕ) : (AmmGraph.new lineage : AmmGraph G).Valid :=
  ⟨Indexed.new lineage, Tidy.new lineage⟩

theorem of_version (hvalid : g.Valid) (version : GraphVersion) :
    { g with version := version }.Valid :=
  ⟨hvalid.indexed.of_version version, hvalid.tidy.of_version version⟩

theorem removePoolEdges (hvalid : g.Valid) (pool : PoolKey) :
    (g.removePoolEdges pool).2.Valid :=
  ⟨hvalid.indexed.removePoolEdges pool, hvalid.tidy.removePoolEdges pool⟩

theorem retirePool (hvalid : g.Valid) (pool : PoolKey) :
    (g.retirePool pool).Valid :=
  ⟨(hvalid.indexed.removePoolEdges pool).pruneOrphanTokens _,
    (hvalid.tidy.removePoolEdges pool).pruneOrphanTokens _⟩

theorem lookup_retirePool (hvalid : g.Valid) (pool other : PoolKey) :
    (g.retirePool pool).poolTokens.lookup other =
      if other = pool then none else g.poolTokens.lookup other := by
  have htopology := topology_retirePool hvalid.tidy hvalid.indexed pool
  have hpools : (g.retirePool pool).poolTokens = (g.topology.retire pool).pools :=
    congrArg Topology.pools htopology
  rw [hpools]
  exact Topology.lookup_retire g.topology pool other

theorem addPoolEdges (hvalid : g.Valid) {pool : PoolKey} {tokens : List Address}
    (habsent : g.poolTokens.lookup pool = none)
    (htokens : tokens.Pairwise (· < ·) ∧ 2 ≤ tokens.length) :
    (g.addPoolEdges pool tokens).Valid :=
  ⟨hvalid.indexed.addPoolEdges habsent htokens.1 htokens.2,
    hvalid.tidy.addPoolEdges hvalid.indexed pool (nodup_of_pairwise_lt htokens.1)⟩

theorem setPool (hvalid : g.Valid) (pool : PoolKey) {entry : Option (List Address)}
    (hentry : ∀ tokens, entry = some tokens →
      tokens.Pairwise (· < ·) ∧ 2 ≤ tokens.length) :
    (g.setPool pool entry).Valid := by
  cases entry with
  | none => exact hvalid.retirePool pool
  | some tokens =>
      apply (hvalid.retirePool pool).addPoolEdges
      · rw [hvalid.lookup_retirePool, if_pos rfl]
      · exact hentry tokens rfl

theorem represented (hvalid : g.Valid) : g.Represented :=
  hvalid.tidy.represented hvalid.indexed

end Valid

section Versions

variable {g : AmmGraph G}

theorem version_removePoolEdges (g : AmmGraph G) (pool : PoolKey) :
    (g.removePoolEdges pool).2.version = g.version := by
  unfold removePoolEdges
  cases g.edgeMap.lookup pool with
  | none => rfl
  | some edges => exact (foldl_retainCachedEdges pool _ _).1.version

theorem version_setPool (hvalid : g.Valid) (pool : PoolKey)
    (entry : Option (List Address)) :
    (g.setPool pool entry).version = g.version := by
  have hretired : (g.retirePool pool).version = g.version :=
    ((hvalid.removePoolEdges pool).indexed.linked.pruneOrphanTokens
      _).2.1.version.trans (version_removePoolEdges g pool)
  cases entry with
  | none => exact hretired
  | some tokens => exact (version_addPoolEdges _ pool tokens).trans hretired

omit [StableDiGraph G Address EdgeData] in
/-- Advancing succeeds below the last revision. -/
theorem bumpVersion_eq_some_iff {bumped : AmmGraph G} :
    g.bumpVersion = some bumped ↔ g.version.revision < u64Max ∧
      bumped = { g with version := ⟨g.version.lineage, g.version.revision + 1⟩ } := by
  unfold bumpVersion
  rw [Option.map_eq_some_iff]
  constructor
  · rintro ⟨version, hversion, rfl⟩
    obtain ⟨hlt, rfl⟩ := GraphVersion.checkedNext_eq_some_iff.mp hversion
    exact ⟨hlt, rfl⟩
  · rintro ⟨hlt, rfl⟩
    exact ⟨_, GraphVersion.checkedNext_eq_some_iff.mpr ⟨hlt, rfl⟩, rfl⟩

end Versions

section Operations

variable {g : AmmGraph G}

theorem retirePool_of_absent (hvalid : g.Valid) {pool : PoolKey}
    (habsent : g.poolTokens.lookup pool = none) : g.retirePool pool = g := by
  simp only [retirePool, removePoolEdges_of_absent hvalid.indexed habsent]
  rfl

theorem removePool_eq (hvalid : g.Valid) (pool : PoolKey) :
    g.removePool pool =
      match g.poolTokens.lookup pool with
      | none => some (0, g)
      | some tokens =>
          (g.removePoolEdges pool).2.bumpVersion.map fun bumped =>
            (directedEdgeCount tokens.length, bumped) := by
  unfold removePool
  cases hlookup : g.poolTokens.lookup pool with
  | none => simp [removePoolEdges_of_absent hvalid.indexed hlookup]
  | some tokens =>
      have hpos := directedEdgeCount_pos hvalid.indexed hlookup
      simp only [removePoolEdges_of_present hvalid.tidy hvalid.indexed hlookup,
        if_pos hpos]

theorem removePoolCompacting_eq (hvalid : g.Valid) (pool : PoolKey) :
    g.removePoolCompacting pool =
      match g.poolTokens.lookup pool with
      | none => some (.unchanged, g)
      | some tokens =>
          (g.setPool pool none).bumpVersion.map fun bumped =>
            (poolMutation (some tokens) none, bumped) := by
  unfold removePoolCompacting
  cases hlookup : g.poolTokens.lookup pool with
  | none => simp [removePoolEdges_of_absent hvalid.indexed hlookup]
  | some tokens =>
      have hpos := directedEdgeCount_pos hvalid.indexed hlookup
      simp only [removePoolEdges_of_present hvalid.tidy hvalid.indexed hlookup,
        if_neg hpos.ne', setPool, retirePool, poolMutation]

/-- An operation on one registration does nothing when the entry is already
there, and replaces the entry otherwise. -/
theorem applyPool_eq (hvalid : g.Valid) (registration : PoolRegistration)
    (options : GraphBuildOptions) :
    g.applyPool registration options =
      if g.poolTokens.lookup registration.key = registeredEntry registration options
      then some (idleMutation registration options, g)
      else
        (g.setPool registration.key
          (registeredEntry registration options)).bumpVersion.map fun bumped =>
            (poolMutation (g.poolTokens.lookup registration.key)
              (registeredEntry registration options), bumped) := by
  unfold applyPool registeredEntry idleMutation
  cases htokens : indexedTokens registration options with
  | error reason =>
      simp only [removeOrSkip, removePoolCompacting_eq hvalid, Except.toOption]
      cases hlookup : g.poolTokens.lookup registration.key with
      | none => simp
      | some current =>
          simp only [reduceCtorEq, if_false, Option.map_map]
          rfl
  | ok tokens =>
      cases hlookup : g.poolTokens.lookup registration.key with
      | none =>
          simp [Except.toOption, setPool, retirePool_of_absent hvalid hlookup,
            poolMutation]
      | some current =>
          simp only [Except.toOption, Option.some.injEq]
          split
          · rfl
          · simp only [setPool, retirePool, poolMutation,
              removePoolEdges_of_present hvalid.tidy hvalid.indexed hlookup]

end Operations

section Refinement

variable {g : AmmGraph G}

omit [StableDiGraph G Address EdgeData] in
theorem topology_of_version (g : AmmGraph G) (version : GraphVersion) :
    { g with version := version }.topology = g.topology := rfl

theorem topology_setPool (hvalid : g.Valid) (pool : PoolKey)
    (entry : Option (List Address)) :
    (g.setPool pool entry).topology =
      match entry with
      | none => g.topology.retire pool
      | some tokens => (g.topology.retire pool).index pool tokens := by
  have hretired := topology_retirePool hvalid.tidy hvalid.indexed pool
  cases entry with
  | none => exact hretired
  | some tokens =>
      rw [setPool, topology_addPoolEdges, hretired]

/-- Replacing an entry by another one changes the pool map. -/
theorem poolTokens_setPool_ne (hvalid : g.Valid) {pool : PoolKey}
    {entry : Option (List Address)} (hne : g.poolTokens.lookup pool ≠ entry) :
    (g.setPool pool entry).poolTokens ≠ g.poolTokens := by
  have hpools : (g.setPool pool entry).poolTokens =
      (g.setPool pool entry).topology.pools := rfl
  rw [hpools, topology_setPool hvalid]
  cases entry with
  | none =>
      obtain ⟨tokens, htokens⟩ := Option.ne_none_iff_exists'.mp hne
      exact Topology.pools_retire_ne htokens
  | some tokens =>
      simp only [Topology.pools_retire_index]
      exact Topology.pools_insert_ne hne

theorem topology_apply (hvalid : g.Valid) (registration : PoolRegistration)
    (options : GraphBuildOptions) :
    g.topology.apply registration options =
      if g.poolTokens.lookup registration.key = registeredEntry registration options
      then g.topology
      else (g.setPool registration.key
        (registeredEntry registration options)).topology := by
  rw [topology_setPool hvalid]
  unfold Topology.apply registeredEntry
  cases htokens : indexedTokens registration options with
  | error reason =>
      by_cases habsent : g.poolTokens.lookup registration.key =
          (Except.error reason : Except _ (List Address)).toOption
      · rw [if_pos habsent]
        exact Topology.retire_of_absent habsent
      · rw [if_neg habsent]
        rfl
  | ok tokens => rfl

end Refinement

/-- Graphs that the public operations can build keep the invariant. -/
theorem Valid.fromRegistry (lineage : ℕ) (registry : AdapterRegistry)
    (options : GraphBuildOptions) :
    (AmmGraph.fromRegistry lineage registry options :
      GraphBuildReport G).graph.Valid := by
  refine ⟨(fromRegistry_spec lineage registry options).1, ?_⟩
  have hstep : ∀ (registrations : List PoolRegistration) (report : GraphBuildReport G),
      (registrations.map PoolRegistration.key).Nodup →
      (∀ registration ∈ registrations,
        report.graph.poolTokens.lookup registration.key = none) →
      report.graph.Valid →
      (registrations.foldl (indexRegistration options) report).graph.Valid := by
    intro registrations
    induction registrations with
    | nil => exact fun report _ _ hvalid => hvalid
    | cons head tail ih =>
        intro report hnodup hnew hvalid
        simp only [List.map_cons, List.nodup_cons] at hnodup
        apply ih _ hnodup.2
        · intro registration hmem
          have hne : registration.key ≠ head.key :=
            fun heq => hnodup.1 (heq ▸ List.mem_map_of_mem hmem)
          have hold := hnew registration (List.mem_cons_of_mem head hmem)
          unfold indexRegistration
          split
          · exact hold
          · rw [(Indexed.poolTokens_addPoolEdges _ _ _).1, lookup_insert_eq,
              if_neg hne]
            exact hold
        · unfold indexRegistration
          split
          · exact hvalid
          · exact hvalid.addPoolEdges (hnew head List.mem_cons_self)
              (indexedTokens_valid ‹_›)
  have hperm := List.perm_insertionSort
    (fun left right : PoolRegistration => left.key.debug ≤ right.key.debug)
    registry.pools
  exact (hstep _ ⟨AmmGraph.new lineage, [], []⟩
    ((hperm.map PoolRegistration.key).nodup_iff.mpr registry.nodup_keys)
    (by intro registration _; simp [AmmGraph.new]) (Valid.new lineage)).tidy

theorem Valid.removePool {g g' : AmmGraph G} (hvalid : g.Valid) {pool : PoolKey}
    {removed : ℕ} (hremove : g.removePool pool = some (removed, g')) :
    g'.Valid := by
  rw [removePool_eq hvalid] at hremove
  split at hremove
  · cases hremove
    exact hvalid
  · obtain ⟨bumped, hbump, heq⟩ := Option.map_eq_some_iff.mp hremove
    obtain ⟨_, rfl⟩ := bumpVersion_eq_some_iff.mp hbump
    cases heq
    exact (hvalid.removePoolEdges pool).of_version _

theorem Valid.removePoolCompacting {g g' : AmmGraph G} (hvalid : g.Valid)
    {pool : PoolKey} {mutation : GraphPoolMutation}
    (hremove : g.removePoolCompacting pool = some (mutation, g')) : g'.Valid := by
  rw [removePoolCompacting_eq hvalid] at hremove
  split at hremove
  · cases hremove
    exact hvalid
  · obtain ⟨bumped, hbump, heq⟩ := Option.map_eq_some_iff.mp hremove
    obtain ⟨_, rfl⟩ := bumpVersion_eq_some_iff.mp hbump
    cases heq
    exact (hvalid.setPool pool (by simp)).of_version _

theorem Valid.applyPool {g g' : AmmGraph G} (hvalid : g.Valid)
    {registration : PoolRegistration} {options : GraphBuildOptions}
    {mutation : GraphPoolMutation}
    (happly : g.applyPool registration options = some (mutation, g')) :
    g'.Valid := by
  rw [applyPool_eq hvalid] at happly
  split at happly
  · cases happly
    exact hvalid
  · obtain ⟨bumped, hbump, heq⟩ := Option.map_eq_some_iff.mp happly
    obtain ⟨_, rfl⟩ := bumpVersion_eq_some_iff.mp hbump
    cases heq
    exact (hvalid.setPool registration.key fun _ => registeredEntry_valid).of_version _

/-- A rebuild is the full build under the old version or the next one. -/
theorem rebuildFromRegistry_cases {g g' : AmmGraph G} {lineage : ℕ}
    {registry : AdapterRegistry} {options : GraphBuildOptions}
    {summary : GraphBuildSummary}
    (hrebuild : g.rebuildFromRegistry lineage registry options = some (summary, g')) :
    let built : AmmGraph G := (fromRegistry lineage registry options).graph
    (g.topology = built.topology ∧ g' = { built with version := g.version }) ∨
      (g.topology ≠ built.topology ∧ g.version.revision < u64Max ∧
        g' = { built with version := ⟨g.version.lineage, g.version.revision + 1⟩ }) := by
  simp only [rebuildFromRegistry] at hrebuild
  split at hrebuild
  · rename_i hsame
    cases hrebuild
    refine Or.inl ⟨?_, rfl⟩
    simp only [topology, hsame.1, hsame.2]
  · rename_i hdiffer
    obtain ⟨version, hversion, heq⟩ := Option.map_eq_some_iff.mp hrebuild
    obtain ⟨hlt, rfl⟩ := GraphVersion.checkedNext_eq_some_iff.mp hversion
    cases heq
    refine Or.inr ⟨fun htopology => hdiffer ?_, hlt, rfl⟩
    exact ⟨congrArg Topology.pools htopology, congrArg Topology.tokens htopology⟩

theorem Valid.rebuildFromRegistry {g g' : AmmGraph G} {lineage : ℕ}
    {registry : AdapterRegistry} {options : GraphBuildOptions}
    {summary : GraphBuildSummary}
    (hrebuild : g.rebuildFromRegistry lineage registry options = some (summary, g')) :
    g'.Valid := by
  have hbuilt := @Valid.fromRegistry G _ lineage registry options
  rcases rebuildFromRegistry_cases hrebuild with ⟨_, rfl⟩ | ⟨_, _, rfl⟩
  · exact hbuilt.of_version _
  · exact hbuilt.of_version _

theorem Built.valid {g : AmmGraph G} (hbuilt : g.Built) : g.Valid := by
  induction hbuilt with
  | new lineage => exact Valid.new lineage
  | fromRegistry lineage registry options =>
      exact Valid.fromRegistry lineage registry options
  | rebuildFromRegistry lineage registry options _ hrebuild _ =>
      exact Valid.rebuildFromRegistry hrebuild
  | removePool _ hremove ih => exact ih.removePool hremove
  | applyPool _ happly ih => exact ih.applyPool happly
  | removePoolCompacting _ hremove ih => exact ih.removePoolCompacting hremove

/-- The representation invariant of every graph the operations can build. -/
theorem built_represented {g : AmmGraph G} (hbuilt : g.Built) : g.Represented :=
  hbuilt.valid.represented

end AmmGraph

namespace TwoPoolGraph

def pool (address : Address) (name : Text) (token0 token1 : Address) : PoolRegistration where
  key := ⟨.uniswapV2, some address, name⟩
  status := .ready
  metadata := .uniswapV2 ⟨some token0, some token1, some 30⟩
  tokens := some [token0, token1]

def left : PoolRegistration := pool 7 ['a'] 1 2

def right : PoolRegistration := pool 8 ['b'] 2 3

def registry (pools : List PoolRegistration)
    (nodup_keys : (pools.map PoolRegistration.key).Nodup) : AdapterRegistry where
  pools := pools
  adapter := fun _ => none
  nodup_keys := nodup_keys

theorem nodup_keys : ([left, right].map PoolRegistration.key).Nodup := by decide

def graph : AmmGraph (SlotGraph Address EdgeData) :=
  (AmmGraph.fromRegistry 1 (registry [left, right] nodup_keys) {}).graph

/-- A pool is removed from a full build and leaves an orphan token behind. -/
theorem represented_removePool :
    ∃ g, graph.removePool left.key = some (2, g) ∧ g.nodeCount = 3 ∧ g.Represented := by
  have hbuilt : graph.Built := .fromRegistry 1 _ {}
  obtain ⟨⟨removed, g⟩, hremove⟩ :=
    Option.isSome_iff_exists.mp (show (graph.removePool left.key).isSome from rfl)
  have hreport : (graph.removePool left.key).map
      (fun result => (result.1, result.2.nodeCount)) = some (2, 3) := by decide
  rw [hremove, Option.map_some, Option.some.injEq, Prod.mk.injEq] at hreport
  obtain ⟨rfl, hnodes⟩ := hreport
  exact ⟨g, hremove, hnodes, AmmGraph.built_represented (.removePool hbuilt hremove)⟩

end TwoPoolGraph

end AmmSearch
