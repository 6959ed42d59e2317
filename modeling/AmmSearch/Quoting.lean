/-
Quoting: one hop against the registered adapter, a path hop by hop, the
shared quote cache, and the evaluation of many paths through a tree that
shares their common prefixes.
-/
import AmmSearch.SearchConfig

open FiniteMap

namespace AmmSearch

/-- Texts produced by formatters outside the search layer. -/
structure DebugText where
  address : Address → Text
  protocol : ProtocolId → Text
  instanceId : PoolInstanceId → Text
  simError : SimError → Text

def Hop.debugText (debug : DebugText) (hop : Hop) : Text :=
  "Hop \x7b pool: ".toList ++ hop.pool.debug ++ ", token_in: ".toList ++
    debug.address hop.tokenIn ++ ", token_out: ".toList ++
    debug.address hop.tokenOut ++ " \x7d".toList

/-- The display text of an error. -/
def SearchError.display (debug : DebugText) : SearchError → Text
  | .invalidConfig reason => "invalid search config: ".toList ++ reason
  | .tokenNotFound token =>
      "token not found in graph: ".toList ++ debug.address token
  | .noPath source target =>
      "no graph path from ".toList ++ debug.address source ++ " to ".toList ++
        debug.address target
  | .emptyPath => "cannot quote an empty path".toList
  | .missingPool pool => "pool not found in registry: ".toList ++ pool.debug
  | .missingAdapter protocol =>
      "adapter not found for protocol: ".toList ++ debug.protocol protocol
  | .missingPoolRevision pool =>
      "active pool has no published quote-state revision: ".toList ++
        debug.instanceId pool
  | .snapshotGraphMismatch =>
      "live graph does not represent the supplied AMM runtime snapshot".toList
  | .snapshotRequired =>
      "snapshot-only search requires AmmSearcher::from_snapshot".toList
  | .quoteFailed hop source =>
      "quote failed for hop ".toList ++ hop.debugText debug ++ ": ".toList ++
        debug.simError source
  | .noViableRoute candidates _ =>
      "no viable route among ".toList ++ (Nat.repr candidates).toList ++
        " candidates".toList
  | .workerPanic => "parallel search worker panicked".toList

/-- The fixed inputs of every quote of one search. -/
structure QuoteEnv where
  registry : AdapterRegistry
  simConfig : SimConfig
  debug : DebugText

/-- What a hop quote is keyed by: the pool alone, or its versioned state. -/
inductive QuotePoolScope
  | static (pool : PoolKey)
  | versioned (state : PoolStateRef)
deriving DecidableEq

/-- Where pool scopes are read from. -/
inductive QuoteKeyContext
  | static
  | live (point : AmmStatePoint) (poolInstance : PoolKey → Option PoolInstanceId)
      (revisions : PoolInstanceId → Option ℕ)

def QuoteKeyContext.point : QuoteKeyContext → Option AmmStatePoint
  | .static => none
  | .live point _ _ => some point

def QuoteKeyContext.poolScope (context : QuoteKeyContext) (pool : PoolKey) :
    Except Text QuotePoolScope :=
  match context with
  | .static => .ok (.static pool)
  | .live point poolInstance revisions =>
      match (poolInstance pool).bind fun instanceId =>
          (revisions instanceId).map fun revision =>
            (⟨instanceId, revision, point⟩ : PoolStateRef) with
      | some state => .ok (.versioned state)
      | none =>
          .error ("live quote context is missing pool state ref: ".toList ++
            pool.debug)

structure HopQuoteKey where
  pool : QuotePoolScope
  tokenIn : Address
  tokenOut : Address
  amountIn : U256
  simConfig : SimConfig
deriving DecidableEq

def HopQuoteKey.logicalPool (key : HopQuoteKey) : PoolKey :=
  match key.pool with
  | .static pool => pool
  | .versioned state => state.pool.key

namespace QuoteEnv

variable (env : QuoteEnv)

/-- Quote one hop, keeping the structured error. -/
def simulateHop (hop : Hop) (amountIn : U256) : Except SearchError U256 :=
  match env.registry.pool hop.pool with
  | none => .error (.missingPool hop.pool)
  | some pool =>
      match env.registry.adapter hop.pool.protocol with
      | none => .error (.missingAdapter hop.pool.protocol)
      | some adapter =>
          match adapter.simulateSwap pool hop.tokenIn hop.tokenOut amountIn
              env.simConfig with
          | .ok amountOut => .ok amountOut
          | .error source => .error (.quoteFailed hop source)

/-- The hop loop of `quotePathWithRegistry`. -/
def quoteHops : RoutePath → U256 → Except SearchError (List HopQuote × U256)
  | [], amount => .ok ([], amount)
  | hop :: rest, amount =>
      match env.simulateHop hop amount with
      | .error error => .error error
      | .ok amountOut =>
          match quoteHops rest amountOut with
          | .error error => .error error
          | .ok (hops, final) => .ok (⟨hop, amount, amountOut⟩ :: hops, final)

def quotePathWithRegistry (path : RoutePath) (amountIn : U256) :
    Except SearchError RouteQuote :=
  if path = [] then .error .emptyPath
  else
    match env.quoteHops path amountIn with
    | .error error => .error error
    | .ok (hops, amountOut) => .ok ⟨path, amountIn, amountOut, hops⟩

def quoteHopUncached (hop : Hop) (amountIn : U256) : Except Text U256 :=
  match env.simulateHop hop amountIn with
  | .ok amountOut => .ok amountOut
  | .error error => .error (error.display env.debug)

def quoteKey (context : QuoteKeyContext) (hop : Hop) (amountIn : U256) :
    Except Text HopQuoteKey :=
  match context.poolScope hop.pool with
  | .error reason => .error reason
  | .ok pool => .ok ⟨pool, hop.tokenIn, hop.tokenOut, amountIn, env.simConfig⟩

/-- A hop quote as every search sees it: the scope check of the cache key,
then the adapter. -/
def quoteHop (context : QuoteKeyContext) (hop : Hop) (amountIn : U256) :
    Except Text U256 :=
  match env.quoteKey context hop amountIn with
  | .error reason => .error reason
  | .ok _ => env.quoteHopUncached hop amountIn

end QuoteEnv

/-- The runtime answers an instance lookup with an instance of that key. -/
def QuoteKeyContext.Keyed : QuoteKeyContext → Prop
  | .static => True
  | .live _ poolInstance _ =>
      ∀ pool instanceId, poolInstance pool = some instanceId →
        instanceId.key = pool

theorem QuoteKeyContext.poolScope_injective {context : QuoteKeyContext}
    (hkeyed : context.Keyed) {left right : PoolKey} {scope : QuotePoolScope}
    (hleft : context.poolScope left = .ok scope)
    (hright : context.poolScope right = .ok scope) : left = right := by
  cases context with
  | static =>
      simp only [poolScope, Except.ok.injEq] at hleft hright
      subst hleft
      exact (QuotePoolScope.static.inj hright).symm
  | live point poolInstance revisions =>
      have hscope : ∀ pool, poolScope (.live point poolInstance revisions) pool
          = .ok scope → ∃ state, scope = .versioned state ∧ state.pool.key = pool := by
        intro pool hpool
        simp only [poolScope] at hpool
        split at hpool
        · rename_i state hstate
          obtain ⟨instanceId, hinstance, hrevision⟩ := Option.bind_eq_some_iff.mp hstate
          obtain ⟨revision, _, rfl⟩ := Option.map_eq_some_iff.mp hrevision
          exact ⟨_, (Except.ok.inj hpool).symm, hkeyed pool instanceId hinstance⟩
        · cases hpool
      obtain ⟨state, rfl, hkeyLeft⟩ := hscope left hleft
      obtain ⟨state', hstate, hkeyRight⟩ := hscope right hright
      obtain rfl := QuotePoolScope.versioned.inj hstate
      exact hkeyLeft.symm.trans hkeyRight

theorem QuoteEnv.quoteKey_injective {env : QuoteEnv} {context : QuoteKeyContext}
    (hkeyed : context.Keyed) {left right : Hop} {amountLeft amountRight : U256}
    {key : HopQuoteKey} (hleft : env.quoteKey context left amountLeft = .ok key)
    (hright : env.quoteKey context right amountRight = .ok key) :
    left = right ∧ amountLeft = amountRight := by
  obtain ⟨pool, tokenIn, tokenOut⟩ := left
  obtain ⟨pool', tokenIn', tokenOut'⟩ := right
  simp only [quoteKey] at hleft hright
  split at hleft
  · cases hleft
  · rename_i scope hscope
    split at hright
    · cases hright
    · rename_i scope' hscope'
      rw [← Except.ok.inj hleft] at hright
      simp only [Except.ok.injEq, HopQuoteKey.mk.injEq, and_true] at hright
      obtain ⟨rfl, rfl, rfl, rfl⟩ := hright
      obtain rfl := QuoteKeyContext.poolScope_injective hkeyed hscope hscope'
      exact ⟨rfl, rfl⟩

mutual

/-- A shared-prefix tree of paths. -/
inductive QuoteDagNode
  | mk (children : QuoteDagChildren) (terminals : List RoutePath)

/-- The children of a tree node in insertion order. -/
inductive QuoteDagChildren
  | nil
  | cons (hop : Hop) (node : QuoteDagNode) (rest : QuoteDagChildren)

end

namespace QuoteDagNode

def children : QuoteDagNode → QuoteDagChildren
  | mk children _ => children

def terminals : QuoteDagNode → List RoutePath
  | mk _ terminals => terminals

def empty : QuoteDagNode := mk .nil []

end QuoteDagNode

/-- Change the child reached by `hop`, which is appended when missing. -/
def QuoteDagChildren.childForHop (hop : Hop)
    (change : QuoteDagNode → QuoteDagNode) : QuoteDagChildren → QuoteDagChildren
  | .nil => .cons hop (change .empty) .nil
  | .cons other node rest =>
      if other = hop then .cons other (change node) rest
      else .cons other node (rest.childForHop hop change)

/-- Insert `path` below the node that `hops` leads to. -/
def QuoteDagNode.insertAt (path : RoutePath) : List Hop → QuoteDagNode → QuoteDagNode
  | [], node => .mk node.children (node.terminals ++ [path])
  | hop :: rest, node =>
      .mk (node.children.childForHop hop (insertAt path rest)) node.terminals

def QuoteDagNode.insert (root : QuoteDagNode) (path : RoutePath) : QuoteDagNode :=
  root.insertAt path path

mutual

/-- The stored paths, terminals before children. -/
def QuoteDagNode.paths : QuoteDagNode → List RoutePath
  | .mk children terminals => terminals ++ children.paths

def QuoteDagChildren.paths : QuoteDagChildren → List RoutePath
  | .nil => []
  | .cons _ node rest => node.paths ++ rest.paths

end

def QuoteDagNode.collectFailures (node : QuoteDagNode) (reason : Text) :
    List PathFailure :=
  node.paths.map fun path => ⟨path, reason⟩

/-- The callbacks of a quoting run, over the state they update.  An absent
callback answers `true`. -/
structure QuoteObserver (σ : Type) where
  onQuote : σ → RouteQuote → σ × Bool
  onFailure : σ → PathFailure → σ × Bool

/-- The mutable part of `QuoteDagEvaluator`. -/
structure QuoteRun (σ : Type) where
  quotes : List RouteQuote
  failures : List PathFailure
  observed : σ
  stopped : Bool

namespace QuoteObserver

variable {σ : Type} (observer : QuoteObserver σ)

def pushQuote (run : QuoteRun σ) (quote : RouteQuote) : QuoteRun σ :=
  if run.stopped then run
  else
    let (observed, keep) := observer.onQuote run.observed quote
    { run with quotes := run.quotes ++ [quote], observed, stopped := !keep }

def pushFailure (run : QuoteRun σ) (failure : PathFailure) : QuoteRun σ :=
  if run.stopped then run
  else
    let (observed, keep) := observer.onFailure run.observed failure
    { run with failures := run.failures ++ [failure], observed, stopped := !keep }

end QuoteObserver

section Evaluate

variable {σ : Type} (observer : QuoteObserver σ) (env : QuoteEnv)
  (context : QuoteKeyContext) (amountIn : U256)

mutual

def QuoteDagNode.evaluate (run : QuoteRun σ) :
    QuoteDagNode → U256 → List HopQuote → QuoteRun σ
  | .mk children terminals, amount, hopQuotes =>
      children.evaluate
        (terminals.foldl (fun run path =>
          observer.pushQuote run ⟨path, amountIn, amount, hopQuotes⟩) run)
        amount hopQuotes

def QuoteDagChildren.evaluate (run : QuoteRun σ) :
    QuoteDagChildren → U256 → List HopQuote → QuoteRun σ
  | .nil, _, _ => run
  | .cons hop node rest, amount, hopQuotes =>
      if run.stopped then run
      else
        match env.quoteHop context hop amount with
        | .ok amountOut =>
            rest.evaluate
              (node.evaluate run amountOut
                (hopQuotes ++ [⟨hop, amount, amountOut⟩])) amount hopQuotes
        | .error reason =>
            rest.evaluate
              ((node.collectFailures reason).foldl observer.pushFailure run)
              amount hopQuotes

end

/-- The insertion loop: empty paths fail at once, the others enter the tree. -/
def insertPaths : List RoutePath → QuoteRun σ × QuoteDagNode → QuoteRun σ × QuoteDagNode
  | [], acc => acc
  | path :: rest, (run, dag) =>
      if path = [] then
        let run := observer.pushFailure run
          ⟨path, SearchError.emptyPath.display env.debug⟩
        if run.stopped then (run, dag) else insertPaths rest (run, dag)
      else insertPaths rest (run, dag.insert path)

def quotePathsWithRegistryObserved (paths : List RoutePath) (observed : σ) :
    QuoteRun σ :=
  let (run, dag) :=
    insertPaths observer env paths (⟨[], [], observed, false⟩, .empty)
  if run.stopped then run
  else dag.evaluate observer env context amountIn run amountIn []

end Evaluate

/-- Absent callbacks. -/
def QuoteObserver.silent : QuoteObserver Unit :=
  ⟨fun _ _ => ((), true), fun _ _ => ((), true)⟩

def quotePathsWithRegistry (env : QuoteEnv) (context : QuoteKeyContext)
    (paths : List RoutePath) (amountIn : U256) :
    List RouteQuote × List PathFailure :=
  let report := quotePathsWithRegistryObserved QuoteObserver.silent env context
    amountIn paths ()
  (report.quotes, report.failures)

end AmmSearch
