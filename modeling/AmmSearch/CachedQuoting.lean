/-
One caller that quotes many paths through a cache of its own.  The cache may hold
answers from earlier states, as long as those that this caller can hit give the
same amounts; the texts of failed quotes may differ.
-/
import AmmSearch.QuoteProgram

open FiniteMap MemoTable

namespace AmmSearch

mutual

/-- Every hop of the tree satisfies `admitted`. -/
def QuoteDagNode.OnlyHops (admitted : Hop → Prop) : QuoteDagNode → Prop
  | .mk children _ => children.OnlyHops admitted

def QuoteDagChildren.OnlyHops (admitted : Hop → Prop) : QuoteDagChildren → Prop
  | .nil => True
  | .cons hop node rest =>
      admitted hop ∧ node.OnlyHops admitted ∧ rest.OnlyHops admitted

end

section Tree

variable {admitted : Hop → Prop}

theorem QuoteDagNode.onlyHops_empty : QuoteDagNode.empty.OnlyHops admitted := by
  rw [QuoteDagNode.empty, QuoteDagNode.OnlyHops, QuoteDagChildren.OnlyHops]
  trivial

theorem QuoteDagChildren.OnlyHops.childForHop {hop : Hop} (hhop : admitted hop)
    {change : QuoteDagNode → QuoteDagNode}
    (hchange : ∀ node, node.OnlyHops admitted → (change node).OnlyHops admitted) :
    ∀ {children : QuoteDagChildren}, children.OnlyHops admitted →
      (children.childForHop hop change).OnlyHops admitted
  | .nil, _ => by
      rw [QuoteDagChildren.childForHop, QuoteDagChildren.OnlyHops]
      exact ⟨hhop, hchange _ QuoteDagNode.onlyHops_empty, trivial⟩
  | .cons other node rest, hchildren => by
      rw [QuoteDagChildren.OnlyHops] at hchildren
      obtain ⟨hother, hnode, hrest⟩ := hchildren
      rw [QuoteDagChildren.childForHop]
      split
      · exact ⟨hother, hchange node hnode, hrest⟩
      · exact ⟨hother, hnode, QuoteDagChildren.OnlyHops.childForHop hhop hchange hrest⟩

theorem QuoteDagNode.OnlyHops.insertAt {path : RoutePath} {hops : List Hop}
    (hhops : ∀ hop ∈ hops, admitted hop) {node : QuoteDagNode}
    (hnode : node.OnlyHops admitted) : (node.insertAt path hops).OnlyHops admitted := by
  induction hops generalizing node with
  | nil =>
      obtain ⟨children, terminals⟩ := node
      exact hnode
  | cons hop rest ih =>
      obtain ⟨children, terminals⟩ := node
      rw [List.forall_mem_cons] at hhops
      rw [QuoteDagNode.insertAt]
      exact QuoteDagChildren.OnlyHops.childForHop hhops.1
        (fun child hchild => ih hhops.2 hchild) hnode

theorem QuoteDagNode.OnlyHops.insertPaths {σ : Type} {observer : QuoteObserver σ}
    {env : QuoteEnv} {paths : List RoutePath}
    (hpaths : ∀ path ∈ paths, ∀ hop ∈ path, admitted hop) {run : QuoteRun σ}
    {dag : QuoteDagNode} (hdag : dag.OnlyHops admitted) :
    (AmmSearch.insertPaths observer env paths (run, dag)).2.OnlyHops admitted := by
  induction paths generalizing run dag with
  | nil => exact hdag
  | cons path rest ih =>
      rw [List.forall_mem_cons] at hpaths
      rw [AmmSearch.insertPaths]
      split
      · simp only
        split
        · exact hdag
        · exact ih hpaths.2 hdag
      · exact ih hpaths.2 (hdag.insertAt hpaths.1)

end Tree

/-- The allowed answers to the admitted hops are those of the adapters, up to the
text of a failure. -/
structure Serves (allowed : HopQuoteKey → Except Text U256 → Prop) (env : QuoteEnv)
    (context : QuoteKeyContext) (admitted : Hop → Prop) : Prop where
  computes : ∀ hop amount key, admitted hop → env.quoteKey context hop amount = .ok key →
    allowed key (env.quoteHopUncached hop amount)
  answers : ∀ hop amount key entry, admitted hop →
    env.quoteKey context hop amount = .ok key → allowed key entry →
    entry.toOption = (env.quoteHopUncached hop amount).toOption

/-- Two runs that differ at most in the texts of their failures. -/
structure SameRun {σ : Type} (left right : QuoteRun σ) : Prop where
  quotes : left.quotes = right.quotes
  failed : left.failures.map PathFailure.path = right.failures.map PathFailure.path
  observed : left.observed = right.observed
  stopped : left.stopped = right.stopped

section Runs

variable {σ : Type} {onQuote : σ → RouteQuote → σ × Bool} {left right : QuoteRun σ}

theorem SameRun.pushQuote (hsame : SameRun left right) (observer : QuoteObserver σ)
    (quote : RouteQuote) :
    SameRun (observer.pushQuote left quote) (observer.pushQuote right quote) := by
  obtain ⟨hquotes, hfailed, hobserved, hstopped⟩ := hsame
  unfold QuoteObserver.pushQuote
  rw [hstopped, hobserved]
  split
  · exact ⟨hquotes, hfailed, hobserved, hstopped⟩
  · exact ⟨congrArg (· ++ [quote]) hquotes, hfailed, rfl, rfl⟩

theorem SameRun.foldl_pushQuote (hsame : SameRun left right) (observer : QuoteObserver σ)
    (quote : RoutePath → RouteQuote) (terminals : List RoutePath) :
    SameRun (terminals.foldl (fun run path => observer.pushQuote run (quote path)) left)
      (terminals.foldl (fun run path => observer.pushQuote run (quote path)) right) := by
  induction terminals generalizing left right with
  | nil => exact hsame
  | cons path rest ih => exact ih (hsame.pushQuote observer (quote path))

/-- A run without a failure callback does not see the text of a failure. -/
theorem SameRun.foldl_pushFailure (hsame : SameRun left right) (node : QuoteDagNode)
    (reason other : Text) :
    SameRun
      ((node.collectFailures reason).foldl
        (QuoteObserver.pushFailure ⟨onQuote, fun observed _ => (observed, true)⟩) left)
      ((node.collectFailures other).foldl
        (QuoteObserver.pushFailure ⟨onQuote, fun observed _ => (observed, true)⟩)
          right) := by
  unfold QuoteDagNode.collectFailures
  induction node.paths generalizing left right with
  | nil => exact hsame
  | cons path rest ih =>
      apply ih
      obtain ⟨hquotes, hfailed, hobserved, hstopped⟩ := hsame
      unfold QuoteObserver.pushFailure
      rw [hstopped, hobserved]
      split
      · exact ⟨hquotes, hfailed, hobserved, hstopped⟩
      · exact ⟨hquotes, by simp [hfailed], rfl, rfl⟩

end Runs

section Evaluate

variable {σ : Type} {onQuote : σ → RouteQuote → σ × Bool} {env : QuoteEnv}
  {context : QuoteKeyContext} {admitted : Hop → Prop}
  {allowed : HopQuoteKey → Except Text U256 → Prop}

theorem Serves.meets_quoteHopCached (hserves : Serves allowed env context admitted)
    {hop : Hop} (hhop : admitted hop) (amount : U256) :
    (quoteHopCached env context hop amount).Meets allowed fun entry =>
      entry.toOption = (env.quoteHop context hop amount).toOption := by
  unfold quoteHopCached QuoteEnv.quoteHop
  cases hkey : env.quoteKey context hop amount with
  | error reason => rfl
  | ok key =>
      refine ⟨hserves.computes hop amount key hhop hkey, ?_⟩
      intro entry hentry
      exact hserves.answers hop amount key entry hhop hkey hentry

variable (amountIn : U256)

mutual

theorem QuoteDagNode.meets_evaluateCached (hserves : Serves allowed env context admitted) :
    ∀ (node : QuoteDagNode), node.OnlyHops admitted → ∀ {left right : QuoteRun σ},
      SameRun left right → ∀ (amount : U256) (hopQuotes : List HopQuote),
      (node.evaluateCached ⟨onQuote, fun observed _ => (observed, true)⟩ env context
        amountIn left amount hopQuotes).Meets allowed fun run =>
          SameRun run (node.evaluate ⟨onQuote, fun observed _ => (observed, true)⟩ env
            context amountIn right amount hopQuotes)
  | .mk children terminals, hnode, left, right, hsame, amount, hopQuotes => by
      rw [QuoteDagNode.evaluateCached, QuoteDagNode.evaluate]
      exact QuoteDagChildren.meets_evaluateCached hserves children hnode
        (hsame.foldl_pushQuote _ (fun path => ⟨path, amountIn, amount, hopQuotes⟩) terminals)
        amount hopQuotes

theorem QuoteDagChildren.meets_evaluateCached
    (hserves : Serves allowed env context admitted) :
    ∀ (children : QuoteDagChildren), children.OnlyHops admitted →
      ∀ {left right : QuoteRun σ}, SameRun left right →
      ∀ (amount : U256) (hopQuotes : List HopQuote),
      (children.evaluateCached ⟨onQuote, fun observed _ => (observed, true)⟩ env context
        amountIn left amount hopQuotes).Meets allowed fun run =>
          SameRun run (children.evaluate ⟨onQuote, fun observed _ => (observed, true)⟩ env
            context amountIn right amount hopQuotes)
  | .nil, _, left, right, hsame, amount, hopQuotes => by
      rw [QuoteDagChildren.evaluateCached, QuoteDagChildren.evaluate]
      exact hsame
  | .cons hop node rest, hchildren, left, right, hsame, amount, hopQuotes => by
      rw [QuoteDagChildren.OnlyHops] at hchildren
      obtain ⟨hhop, hnode, hrest⟩ := hchildren
      rw [QuoteDagChildren.evaluateCached, QuoteDagChildren.evaluate, hsame.stopped]
      split
      · exact hsame
      · apply (hserves.meets_quoteHopCached hhop amount).bind
        intro entry hentry
        cases hquote : env.quoteHop context hop amount with
        | ok amountOut =>
            rw [hquote] at hentry
            cases entry with
            | error reason => cases hentry
            | ok found =>
                obtain rfl : found = amountOut := Option.some.inj hentry
                have hfirst := QuoteDagNode.meets_evaluateCached hserves node hnode hsame
                  found (hopQuotes ++ [(⟨hop, amount, found⟩ : HopQuote)])
                apply hfirst.bind
                intro run hrun
                exact QuoteDagChildren.meets_evaluateCached hserves rest hrest hrun amount
                  hopQuotes
        | error reason =>
            rw [hquote] at hentry
            cases entry with
            | ok found => cases hentry
            | error other =>
                exact QuoteDagChildren.meets_evaluateCached hserves rest hrest
                  (hsame.foldl_pushFailure node other reason) amount hopQuotes

end

theorem Serves.meets_quotePathsWithRegistryObservedCached
    (hserves : Serves allowed env context admitted) {paths : List RoutePath}
    (hpaths : ∀ path ∈ paths, ∀ hop ∈ path, admitted hop) (observed : σ) :
    (quotePathsWithRegistryObservedCached ⟨onQuote, fun observed _ => (observed, true)⟩ env
      context amountIn paths observed).Meets allowed fun run =>
        SameRun run (quotePathsWithRegistryObserved
          ⟨onQuote, fun observed _ => (observed, true)⟩ env context amountIn paths
            observed) := by
  simp only [quotePathsWithRegistryObservedCached, quotePathsWithRegistryObserved]
  split
  · exact ⟨rfl, rfl, rfl, rfl⟩
  · exact QuoteDagNode.meets_evaluateCached amountIn hserves _
      (QuoteDagNode.onlyHops_empty.insertPaths hpaths) ⟨rfl, rfl, rfl, rfl⟩ amountIn []

end Evaluate

namespace SharedQuoteCache

theorem Filed.recordExecuted {cache : SharedQuoteCache} (hfiled : cache.Filed)
    (entry : Except Text U256) : (cache.recordExecuted entry).Filed :=
  ⟨hfiled.mem_filed, hfiled.nonempty⟩

/-- Run a program of a single caller on the cache. -/
def runProgram {ρ : Type} (cache : SharedQuoteCache) (program : QuoteProgram ρ) :
    Option (ρ × SharedQuoteCache) :=
  perform table cache program

/-- A single caller on a settled cache gets the answers of the adapters. -/
theorem runProgram_spec {ρ : Type} {allowed : HopQuoteKey → Except Text U256 → Prop}
    {cache : SharedQuoteCache} (hfiled : cache.Filed) (hsettled : Settled table allowed cache)
    {program : QuoteProgram ρ} {post : ρ → Prop} (hprogram : program.Meets allowed post) :
    ∃ result cache', cache.runProgram program = some (result, cache') ∧ post result ∧
      Settled table allowed cache' ∧ cache'.Filed :=
  hprogram.perform (fun _ key hcache => hcache.poll key)
    (fun _ key entry hcache => (hcache.recordExecuted entry).store key entry) hsettled hfiled

end SharedQuoteCache

end AmmSearch
