/-
The liquidity sidecar: tracked pool-token balances with their storage sources
and the reverse indexes over them.
-/
import AmmSearch.Primitives

open FiniteMap

namespace AmmSearch

/-- Latest known state of a tracked pool-token balance. -/
inductive BalanceState
  | unknown
  | stale
  | fresh (value : U256)
deriving DecidableEq

/-- The amount of a balance that may be used for pruning. -/
def BalanceState.fresh? : BalanceState → Option U256
  | .fresh value => some value
  | .unknown | .stale => none

/-- Where a pool-token balance is stored. -/
inductive LiquiditySource
  | erc20Balance (holder : Address) (slot : Option U256)
  | balancerV2VaultCash (vault : Address) (slot : U256) (highField : Bool)
  | unknown
deriving DecidableEq

structure PoolLiquidityTarget where
  token : Address
  source : LiquiditySource
  balance : BalanceState
  active : Bool
deriving DecidableEq

/-- Tracked targets and the indexes that find them. -/
structure PoolLiquidityIndex where
  targets : List PoolLiquidityTarget
  byPoolToken : Map (PoolKey × Address) ℕ
  byTokenHolder : Map (Address × Address) (List ℕ)
  byStorageSlot : Map (Address × U256) (List ℕ)
  byPool : Map PoolKey (List ℕ)
  poolTokenCounts : Map PoolKey ℕ
  freeTargets : List ℕ

namespace PoolLiquidityIndex

/-- The index that tracks nothing. -/
def empty : PoolLiquidityIndex :=
  ⟨[], ∅, ∅, ∅, ∅, ∅, []⟩

def balanceState (index : PoolLiquidityIndex) (pool : PoolKey) (token : Address) :
    BalanceState :=
  (((index.byPoolToken.lookup (pool, token)).bind
    fun position => index.targets[position]?).map
      PoolLiquidityTarget.balance).getD .unknown

def isTwoTokenPool (index : PoolLiquidityIndex) (pool : PoolKey) : Bool :=
  index.poolTokenCounts.lookup pool = some 2

end PoolLiquidityIndex

end AmmSearch
