/-
Search controls with their validation, paths and quotes, and the errors a
search can report.
-/
import AmmSearch.Primitives

open FiniteMap

namespace AmmSearch

/-- One directed pool hop. -/
structure Hop where
  pool : PoolKey
  tokenIn : Address
  tokenOut : Address
deriving DecidableEq

/-- A candidate path is its ordered hops. -/
abbrev RoutePath := List Hop

structure HopQuote where
  hop : Hop
  amountIn : U256
  amountOut : U256
deriving DecidableEq

structure RouteQuote where
  path : RoutePath
  amountIn : U256
  amountOut : U256
  hops : List HopQuote
deriving DecidableEq

/-- One failed candidate-path evaluation. -/
structure PathFailure where
  path : RoutePath
  reason : Text
deriving DecidableEq

/-- Search and quote errors. -/
inductive SearchError
  | invalidConfig (reason : Text)
  | tokenNotFound (token : Address)
  | noPath (source target : Address)
  | emptyPath
  | missingPool (pool : PoolKey)
  | missingAdapter (protocol : ProtocolId)
  | missingPoolRevision (pool : PoolInstanceId)
  | snapshotGraphMismatch
  | snapshotRequired
  | quoteFailed (hop : Hop) (source : SimError)
  | noViableRoute (candidates : ℕ) (failures : List PathFailure)
  | workerPanic
deriving DecidableEq

/-- Reject a configuration when `invalid` holds. -/
def rejectWhen (invalid : Bool) (reason : String) : Except SearchError Unit :=
  if invalid then .error (.invalidConfig reason.toList) else .ok ()

/-- Fast initial route search before broad frontier expansion. -/
structure FastLaneConfig where
  enabled : Bool := true
  maxConnectors : ℕ := 8
  directEdgesPerPair : ℕ := 1
  connectorEdgesPerPair : ℕ := 1
  evaluateDirectBestFirst : Bool := true
deriving DecidableEq

def FastLaneConfig.validate (config : FastLaneConfig) :
    Except SearchError Unit := do
  rejectWhen (config.enabled && config.directEdgesPerPair == 0)
    "fast_lane.direct_edges_per_pair must be at least 1"
  rejectWhen (config.enabled && config.connectorEdgesPerPair == 0)
    "fast_lane.connector_edges_per_pair must be at least 1"

/-- Adaptive same-pair parallel-edge search. -/
structure AdaptiveEdgeShortlistConfig where
  enabled : Bool := false
  initialEdgesPerPair : ℕ := 1
  refinementEdgesPerPair : ℕ := 3
  refineParallelEdges : Bool := false
  protocolOrdering : Bool := true
deriving DecidableEq

def AdaptiveEdgeShortlistConfig.validate (config : AdaptiveEdgeShortlistConfig) :
    Except SearchError Unit := do
  rejectWhen (config.enabled && config.initialEdgesPerPair == 0)
    "edge_shortlist.initial_edges_per_pair must be at least 1"
  rejectWhen (config.enabled && config.refinementEdgesPerPair == 0)
    "edge_shortlist.refinement_edges_per_pair must be at least 1"

/-- Optimistic pruning after an incumbent route exists. -/
structure UpperBoundPruningConfig where
  enabled : Bool := true
  balanceCapPruning : Bool := true
  estimatedRatePruning : Bool := false
  failOpenOnUnknown : Bool := true
deriving DecidableEq

/-- Balance-aware ordering and pruning in heuristic search. -/
structure LiquidityPruningConfig where
  enabled : Bool := false
  minParallelEdges : ℕ := 2
  orderByOutputBalance : Bool := true
  pruneBalanceDominated : Bool := true
  pruneUnknown : Bool := false
  rankBranchesByLiquidity : Bool := false
deriving DecidableEq

/-- Controls of the heuristic mode; the defaults are the balanced preset. -/
structure HeuristicSearchConfig where
  maxAutoConnectors : ℕ := 8
  minAutoConnectorDegree : ℕ := 6
  beamWidth : Option ℕ := some 64
  parallelEdgeLimit : ℕ := 1
  simulateFinalists : Bool := true
  maxFinalists : ℕ := 16
  targetFirst : Bool := true
  prefixDominance : Bool := true
  fastLane : FastLaneConfig := {}
  edgeShortlist : AdaptiveEdgeShortlistConfig := {}
  upperBoundPruning : UpperBoundPruningConfig := {}
deriving DecidableEq

def HeuristicSearchConfig.validate (config : HeuristicSearchConfig) :
    Except SearchError Unit := do
  rejectWhen (config.parallelEdgeLimit == 0)
    "parallel_edge_limit must be at least 1"
  rejectWhen (config.maxFinalists == 0) "max_finalists must be at least 1"
  rejectWhen (config.beamWidth == some 0) "beam_width must be at least 1"
  config.fastLane.validate
  config.edgeShortlist.validate

inductive SearchMode
  | exhaustive
  | heuristic (config : HeuristicSearchConfig)
deriving DecidableEq

/-- Search controls shared by route and cycle requests. -/
structure SearchConfig where
  minHops : ℕ := 1
  maxHops : ℕ := 3
  maxCandidates : Option ℕ := none
  connectorTokens : Option (Finset Address) := none
  mode : SearchMode := .exhaustive
  liquidityPruning : LiquidityPruningConfig := {}
deriving DecidableEq

def SearchConfig.validate (config : SearchConfig) : Except SearchError Unit := do
  rejectWhen (config.minHops == 0) "min_hops must be at least 1"
  rejectWhen (config.minHops > config.maxHops) "min_hops cannot exceed max_hops"
  rejectWhen (config.maxCandidates == some 0)
    "max_candidates must be at least 1"
  match config.mode with
  | .heuristic heuristic => heuristic.validate
  | .exhaustive => .ok ()

theorem rejectWhen_bind_eq_ok_iff {invalid : Bool} {reason : String} {β : Type}
    {next : Except SearchError β} {value : β} :
    (rejectWhen invalid reason >>= fun _ => next) = .ok value ↔
      invalid = false ∧ next = .ok value := by
  cases invalid
  · simp [rejectWhen, bind, Except.bind]
  · simp [rejectWhen, bind, Except.bind]

theorem SearchConfig.hops_of_validate {config : SearchConfig}
    (hvalid : config.validate = .ok ()) :
    1 ≤ config.minHops ∧ config.minHops ≤ config.maxHops := by
  unfold SearchConfig.validate at hvalid
  rw [rejectWhen_bind_eq_ok_iff, rejectWhen_bind_eq_ok_iff] at hvalid
  obtain ⟨hmin, hmax, _⟩ := hvalid
  simp only [beq_eq_false_iff_ne, ne_eq, gt_iff_lt, decide_eq_false_iff_not,
    not_lt] at hmin hmax
  exact ⟨Nat.one_le_iff_ne_zero.mpr hmin, hmax⟩

/-- The heuristic controls of a validated configuration are validated. -/
theorem SearchConfig.heuristic_of_validate {config : SearchConfig}
    {heuristic : HeuristicSearchConfig} (hmode : config.mode = .heuristic heuristic)
    (hvalid : config.validate = .ok ()) : heuristic.validate = .ok () := by
  unfold SearchConfig.validate at hvalid
  rw [rejectWhen_bind_eq_ok_iff, rejectWhen_bind_eq_ok_iff,
    rejectWhen_bind_eq_ok_iff] at hvalid
  simpa only [hmode] using hvalid.2.2.2

/-- Without its heuristic controls a validated configuration stays valid. -/
theorem SearchConfig.validate_exhaustive {config : SearchConfig}
    (hvalid : config.validate = .ok ()) :
    ({ config with mode := .exhaustive } : SearchConfig).validate = .ok () := by
  unfold SearchConfig.validate at hvalid ⊢
  rw [rejectWhen_bind_eq_ok_iff, rejectWhen_bind_eq_ok_iff,
    rejectWhen_bind_eq_ok_iff] at hvalid ⊢
  exact ⟨hvalid.1, hvalid.2.1, hvalid.2.2.1, rfl⟩

/-- A validated candidate limit admits at least one candidate. -/
theorem SearchConfig.maxCandidates_of_validate {config : SearchConfig}
    (hvalid : config.validate = .ok ()) : ∀ limit ∈ config.maxCandidates, 1 ≤ limit := by
  unfold SearchConfig.validate at hvalid
  rw [rejectWhen_bind_eq_ok_iff, rejectWhen_bind_eq_ok_iff,
    rejectWhen_bind_eq_ok_iff] at hvalid
  obtain ⟨_, _, hlimit, _⟩ := hvalid
  intro limit hmem
  rw [Option.mem_def] at hmem
  rw [hmem, beq_eq_false_iff_ne] at hlimit
  exact Nat.one_le_iff_ne_zero.mpr fun hzero => hlimit (by rw [hzero])

/-- A validated heuristic keeps at least one finalist. -/
theorem HeuristicSearchConfig.maxFinalists_of_validate {config : HeuristicSearchConfig}
    (hvalid : config.validate = .ok ()) : 1 ≤ config.maxFinalists := by
  unfold HeuristicSearchConfig.validate at hvalid
  rw [rejectWhen_bind_eq_ok_iff, rejectWhen_bind_eq_ok_iff] at hvalid
  have hfinalists := hvalid.2.1
  rw [beq_eq_false_iff_ne] at hfinalists
  exact Nat.one_le_iff_ne_zero.mpr hfinalists

/-- A validated heuristic keeps at least one edge of each group. -/
theorem HeuristicSearchConfig.parallelEdges_of_validate {config : HeuristicSearchConfig}
    (hvalid : config.validate = .ok ()) : 1 ≤ config.parallelEdgeLimit := by
  unfold HeuristicSearchConfig.validate at hvalid
  rw [rejectWhen_bind_eq_ok_iff] at hvalid
  have hedges := hvalid.1
  rw [beq_eq_false_iff_ne] at hedges
  exact Nat.one_le_iff_ne_zero.mpr hedges

/-- A validated shortlist considers at least one edge in each pass. -/
theorem HeuristicSearchConfig.edges_of_validate {config : HeuristicSearchConfig}
    (hvalid : config.validate = .ok ()) (henabled : config.edgeShortlist.enabled = true) :
    1 ≤ config.edgeShortlist.initialEdgesPerPair ∧
      1 ≤ config.edgeShortlist.refinementEdgesPerPair := by
  unfold HeuristicSearchConfig.validate at hvalid
  rw [rejectWhen_bind_eq_ok_iff, rejectWhen_bind_eq_ok_iff,
    rejectWhen_bind_eq_ok_iff] at hvalid
  have hshortlist : config.edgeShortlist.validate = .ok () := by
    cases hlane : config.fastLane.validate with
    | error error =>
        rw [hlane] at hvalid
        cases hvalid.2.2.2
    | ok _ =>
        rw [hlane] at hvalid
        exact hvalid.2.2.2
  unfold AdaptiveEdgeShortlistConfig.validate at hshortlist
  rw [rejectWhen_bind_eq_ok_iff] at hshortlist
  obtain ⟨hinitial, hrefinement⟩ := hshortlist
  simp only [henabled, Bool.true_and, beq_eq_false_iff_ne, ne_eq] at hinitial
  refine ⟨Nat.one_le_iff_ne_zero.mpr hinitial, Nat.one_le_iff_ne_zero.mpr ?_⟩
  intro hzero
  simp [rejectWhen, henabled, hzero] at hrefinement

def connectorAllowedWithTokens (token tokenIn tokenOut : Address)
    (connectorTokens : Option (Finset Address)) : Bool :=
  if token = tokenIn ∨ token = tokenOut then true
  else connectorTokens.all fun tokens => token ∈ tokens

def connectorAllowed (token tokenIn tokenOut : Address) (config : SearchConfig) :
    Bool :=
  connectorAllowedWithTokens token tokenIn tokenOut config.connectorTokens

end AmmSearch
