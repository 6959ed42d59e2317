/-
Exhaustive route enumeration: a queue of partial paths, each extended along
the cached outgoing edges of its last token, with per-path pool and token
exclusion, early exit at a path limit, and a polled cancellation callback.
-/
import Mathlib.Order.Lattice.Nat
import AmmSearch.AmmGraph
import AmmSearch.SearchConfig

open FiniteMap StableGraph

namespace AmmSearch

/-- A partial path waiting in the queue. -/
structure SearchState where
  node : NodeIndex
  path : RoutePath
  visitedTokens : Finset Address
  usedPools : Finset PoolKey
deriving DecidableEq

structure RouteEnumeration where
  paths : List RoutePath
  duplicatesSkipped : ℕ
  stopped : Bool
deriving DecidableEq

/-- The fixed inputs of one enumeration.  `shouldContinue` answers the
successive polls of the cancellation callback. -/
structure EnumerationContext where
  source : NodeIndex
  target : NodeIndex
  tokenIn : Address
  tokenOut : Address
  config : SearchConfig
  allowFinalSourceRevisit : Bool
  excluded : Finset RoutePath
  maxNewPaths : Option ℕ
  shouldContinue : Option (ℕ → Bool)

/-- What one outgoing edge does to a partial path. -/
inductive EdgeStep
  | skip
  | close (path : RoutePath)
  | extend (state : SearchState)
deriving DecidableEq

namespace EnumerationContext

def closesSourceCycle (context : EnumerationContext) (node : NodeIndex) : Bool :=
  context.allowFinalSourceRevisit && context.source == context.target &&
    node == context.source

/-- The guards of the edge loop, in order. -/
def edgeStep (context : EnumerationContext) (state : SearchState)
    (edge : CachedOutgoingEdge) : EdgeStep :=
  if edge.pool ∈ state.usedPools then .skip
  else if edge.tokenOut ∈ state.visitedTokens ∧
      context.closesSourceCycle edge.target = false then .skip
  else if edge.target ≠ context.target ∧
      connectorAllowed edge.tokenOut context.tokenIn context.tokenOut
        context.config = false then .skip
  else
    let path := state.path ++ [⟨edge.pool, edge.tokenIn, edge.tokenOut⟩]
    if edge.target = context.target then
      if context.config.minHops ≤ path.length then .close path else .skip
    else if path.length < context.config.maxHops then
      .extend
        { node := edge.target
          path := path
          visitedTokens := insert edge.tokenOut state.visitedTokens
          usedPools := insert edge.pool state.usedPools }
    else .skip

end EnumerationContext

/-- The mutable state of the enumeration loop.  `halted` records that the
outer loop was left by a `break`. -/
structure EnumerationRun where
  queue : List SearchState
  paths : List RoutePath := []
  duplicatesSkipped : ℕ := 0
  foundPath : Bool := false
  stopped : Bool := false
  halted : Bool := false
  polls : ℕ := 0
deriving DecidableEq

namespace EnumerationRun

/-- Poll the cancellation callback, leaving the loop when it refuses. -/
def poll (context : EnumerationContext) (run : EnumerationRun) :
    EnumerationRun :=
  match context.shouldContinue with
  | none => run
  | some shouldContinue =>
      if shouldContinue run.polls then { run with polls := run.polls + 1 }
      else
        { run with polls := run.polls + 1, stopped := true, halted := true }

/-- Record a path that closes the request. -/
def recordPath (context : EnumerationContext) (run : EnumerationRun)
    (path : RoutePath) : EnumerationRun :=
  let recorded : EnumerationRun :=
    if path ∈ context.excluded then
      { run with
        foundPath := true
        duplicatesSkipped := run.duplicatesSkipped + 1 }
    else { run with foundPath := true, paths := run.paths ++ [path] }
  { recorded with
    halted := context.maxNewPaths.any fun limit => limit ≤ recorded.paths.length }

def applyStep (context : EnumerationContext) (run : EnumerationRun) :
    EdgeStep → EnumerationRun
  | .skip => run
  | .close path => run.recordPath context path
  | .extend state => { run with queue := run.queue ++ [state] }

/-- The loop over the outgoing edges of one popped state. -/
def scanEdges (context : EnumerationContext) (state : SearchState) :
    List CachedOutgoingEdge → EnumerationRun → EnumerationRun
  | [], run => run
  | edge :: rest, run =>
      let polled := run.poll context
      if polled.halted then polled
      else
        let stepped := polled.applyStep context (context.edgeStep state edge)
        if stepped.halted then stepped
        else scanEdges context state rest stepped

end EnumerationRun

namespace AmmGraph

variable {G : Type}

/-- The longest cached adjacency list. -/
def maxOutDegree (g : AmmGraph G) : ℕ :=
  g.outgoingCache.keys.sup fun node => (g.outgoingEdges node).length

/-- The queue loop.  `fuel` bounds the number of popped states. -/
def enumerateLoop (g : AmmGraph G) (context : EnumerationContext) :
    ℕ → EnumerationRun → EnumerationRun
  | 0, run => run
  | fuel + 1, run =>
      match run.queue with
      | [] => run
      | state :: rest =>
          let polled := { run with queue := rest }.poll context
          if polled.halted then polled
          else if context.config.maxHops ≤ state.path.length then
            g.enumerateLoop context fuel polled
          else
            let scanned :=
              EnumerationRun.scanEdges context state (g.outgoingEdges state.node)
                polled
            if scanned.halted then scanned
            else g.enumerateLoop context fuel scanned

/-- More pops than any queue of paths below `maxHops` can need. -/
def enumerationFuel (g : AmmGraph G) (maxHops : ℕ) : ℕ :=
  (g.maxOutDegree + 1) ^ maxHops

/-- The report after the loop: no path is an error unless it was cut short. -/
def finishEnumeration (tokenIn tokenOut : Address) (run : EnumerationRun) :
    Except SearchError RouteEnumeration :=
  if !run.foundPath && !run.stopped then .error (.noPath tokenIn tokenOut)
  else
    .ok
      { paths := run.paths
        duplicatesSkipped := run.duplicatesSkipped
        stopped := run.stopped }

/-- The initial queue state. -/
def rootState (context : EnumerationContext) : SearchState :=
  { node := context.source
    path := []
    visitedTokens := {context.tokenIn}
    usedPools := ∅ }

def enumerateRoutesFiltered (g : AmmGraph G) (tokenIn tokenOut : Address)
    (config : SearchConfig) (allowFinalSourceRevisit : Bool)
    (excluded : Finset RoutePath) (maxNewPaths : Option ℕ)
    (shouldContinue : Option (ℕ → Bool)) :
    Except SearchError RouteEnumeration := do
  config.validate
  let source ← match g.nodeIndex tokenIn with
    | some source => .ok source
    | none => .error (.tokenNotFound tokenIn)
  let target ← match g.nodeIndex tokenOut with
    | some target => .ok target
    | none => .error (.tokenNotFound tokenOut)
  if maxNewPaths = some 0 then
    .ok { paths := [], duplicatesSkipped := 0, stopped := false }
  else
    let context : EnumerationContext :=
      { source := source
        target := target
        tokenIn := tokenIn
        tokenOut := tokenOut
        config := config
        allowFinalSourceRevisit := allowFinalSourceRevisit
        excluded := excluded
        maxNewPaths := maxNewPaths
        shouldContinue := shouldContinue }
    finishEnumeration tokenIn tokenOut
      (g.enumerateLoop context (g.enumerationFuel config.maxHops)
        { queue := [rootState context] })

end AmmGraph

end AmmSearch
