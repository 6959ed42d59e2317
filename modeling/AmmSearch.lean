import AmmSearch.FiniteMap
import AmmSearch.FiniteMapTotals
import AmmSearch.StableGraph
import AmmSearch.LevelOrder
import AmmSearch.MemoTable
import AmmSearch.BigEndian
import AmmSearch.SlotTable
import AmmSearch.Transitions
import AmmSearch.Primitives
import AmmSearch.AmmGraph
import AmmSearch.AmmGraphLinks
import AmmSearch.AmmGraphInvariant
import AmmSearch.AmmGraphRepresentation
import AmmSearch.AmmGraphTopology
import AmmSearch.AmmGraphOperations
import AmmSearch.AmmGraphIncremental
import AmmSearch.AmmGraphVersions
import AmmSearch.SearchConfig
import AmmSearch.Routes
import AmmSearch.Enumeration
import AmmSearch.EnumerationExact
import AmmSearch.LiquidityIndex
import AmmSearch.LiquidityTracking
import AmmSearch.LiquidityView
import AmmSearch.LiquidityReconcile
import AmmSearch.LiquidityUpdates
import AmmSearch.LiquidityReverse
import AmmSearch.LiquidityReverseRuns
import AmmSearch.LiquidityHolders
import AmmSearch.CacheWords
import AmmSearch.LiquidityTransfers
import AmmSearch.LiquidityFollows
import AmmSearch.TrackedTokens
import AmmSearch.LiquidityRebuild
import AmmSearch.Quoting
import AmmSearch.QuotingExact
import AmmSearch.SharedQuoteCache
import AmmSearch.QuoteCacheInvariant
import AmmSearch.QuoteCacheProgress
import AmmSearch.QuoteCacheStaleness
import AmmSearch.QuoteProgram
import AmmSearch.CachedQuoting
import AmmSearch.HeuristicRanking
import AmmSearch.HeuristicSearch
import AmmSearch.StaticReachability
import AmmSearch.HeuristicExpansion
import AmmSearch.HeuristicSoundness
import AmmSearch.Pareto
import AmmSearch.StableRanking
import AmmSearch.PrefixDominance
import AmmSearch.HeuristicCoverage
import AmmSearch.HeuristicOutcome
import AmmSearch.RouteProblem
import AmmSearch.TwoTokenRoutes
import AmmSearch.HeuristicDominance
import AmmSearch.DominanceSurvivors
import AmmSearch.HeuristicCompleteness
import AmmSearch.HeuristicRefinement
import AmmSearch.FanIn
import AmmSearch.HeuristicInvariant
import AmmSearch.HeuristicObservers
import AmmSearch.StreamingExact
import AmmSearch.StreamingSteps
import AmmSearch.StreamAccounting
import AmmSearch.StreamProgress
import AmmSearch.StreamRanking
import AmmSearch.ObservedSearch
import AmmSearch.EventLog
import AmmSearch.RouteSession
import AmmSearch.RouteSessionInvariant
import AmmSearch.RouteSessionStart
import AmmSearch.RouteSessionExact
import AmmSearch.RouteSessionStop
import AmmSearch.RouteSessionProbes
import AmmSearch.StaticCompletions
import AmmSearch.TokenCoverageExpiry
import AmmSearch.MixedOrder
import AmmSearch.HopGroupOrder
import AmmSearch.RouteSessionSteady
import AmmSearch.StreamingFinality
import AmmSearch.StreamingStop
import AmmSearch.ParallelSearch
import AmmSearch.ExecutorRoute
import AmmSearch.ExecutorRouteExact
import AmmSearch.DemoRoute
import AmmSearch.DemoRouteExact
import AmmSearch.RoutingSupervisor
import AmmSearch.RoutingSupervisorFence
import AmmSearch.LiveGraph
import AmmSearch.LiveGraphCommits
import AmmSearch.LiveGraphMirror
import AmmSearch.LiveGraphRuns
import AmmSearch.GraphIndex
import AmmSearch.GraphIndexExact
import AmmSearch.GraphIndexRuns
import AmmSearch.LiveRoutes
import AmmSearch.LiveRouteRuntime
import AmmSearch.LiveRouteHandlers
import AmmSearch.LiveRouteTurns
import AmmSearch.LiveRouteLog
import AmmSearch.LiveRouteFlags
import AmmSearch.LiveRouteWork
import AmmSearch.LiveRouteRuns
import AmmSearch.LiveRouteFence
import AmmSearch.DurableProcess
import AmmSearch.WarmStore
import AmmSearch.WarmStoreNames
import AmmSearch.WarmStoreSessions
import AmmSearch.WarmStoreCommit
import AmmSearch.WarmStoreCrashes
import AmmSearch.WarmStoreRecovery
import AmmSearch.TokenCoverage
import AmmSearch.TokenPreparation
import AmmSearch.TokenPreparationRuns
import AmmSearch.SearchBudget
import AmmSearch.CandidateBudget
import AmmSearch.BoundedPasses
import AmmSearch.BranchAndBound
import AmmSearch.BalanceCaps
import AmmSearch.UpperBoundPruning
import AmmSearch.BalancePruning
import AmmSearch.TokenContract
import AmmSearch.ExecutorContract
import AmmSearch.ExecutorSafety
import AmmSearch.ExecutorHops
import AmmSearch.ExecutorFunds
import AmmSearch.ExecutorSwap
import AmmSearch.ExecutorApprovals
import AmmSearch.LiquidityLocality
import AmmSearch.LiveGraphRebuild
import AmmSearch.LiveFreshness
import AmmSearch.TransferSubscriptions
import AmmSearch.LiveRouteDrain
import AmmSearch.StreamedRoutes
import AmmSearch.LiveRouteWorkers
import AmmSearch.LiveAnswers
