/-
What a successful call of the executor leaves behind, and what every run of
transactions keeps.  The books of a chain of hops give the balances; the lock and the
cleared callback make every state between two transactions idle again.
-/
import AmmSearch.ExecutorHops
import AmmSearch.ExecutorRouteExact

open BigEndian TokenContract

namespace AmmSearch

namespace ExecutorContract

variable {Storage Call : Type} {contract : ExecutorContract Storage Call}
  {world next last : ChainState Storage} {frame start after : CallFrame Storage Call}
  {act : ChainState Storage → ChainAction Call → ChainState Storage}
  {depth amount amountOut value : ℕ} {params : ExactInputParams} {caller token : Address}
  {call : RouterCall}

section Books

/-- The ether of the router through a chain of hops. -/
theorem ExactHops.ether {token tokenOut : Address} {hops : List RouterHop}
    (hhops : contract.ExactHops act token hops amount start tokenOut amountOut after) :
    start.world.ether contract.self ≤ after.world.ether contract.self := by
  induction hhops with
  | done token amount frame => exact le_rfl
  | hop _ hdone _ _ _ ih => exact hdone.ether.trans ih

end Books

section Funding

/-- The router with the balances that it had, or more, between two of its own actions. -/
structure Kept (contract : ExecutorContract Storage Call) (world next : ChainState Storage) :
    Prop where
  steady : contract.Steady next
  balance : ∀ token, contract.OrdinaryToken token →
    contract.balanceOf world token contract.self ≤ contract.balanceOf next token contract.self

theorem Calm.kept (hcalm : contract.Calm world next) : contract.Kept world next :=
  ⟨hcalm.steady, hcalm.balance⟩

end Funding

section Runs

end Runs

section Calls

variable {replies : List (EndpointReply Call)}

/-- Between two transactions the lock is open, no callback is expected and nobody may spend
the router's ordinary tokens. -/
structure Idle (contract : ExecutorContract Storage Call) (world : ChainState Storage) :
    Prop where
  storage : world.storage = {}
  grants : contract.GrantsNothing world contract.self

theorem Idle.steady (hidle : contract.Idle world) : contract.Steady (world.lock 2) := by
  refine ⟨?_, hidle.grants⟩
  rw [ChainState.lock, hidle.storage]

theorem Steady.idle (hsteady : contract.Steady world) : contract.Idle (world.lock 1) := by
  refine ⟨?_, hsteady.grants⟩
  rw [ChainState.lock, hsteady.storage]

/-- Closing the lock. -/
theorem Idle.kept (hidle : contract.Idle world) : contract.Kept world (world.lock 2) ∧
    world.ether contract.self ≤ (world.lock 2).ether contract.self :=
  ⟨⟨hidle.steady, fun _ _ => le_rfl⟩, le_rfl⟩

end Calls

section Transactions

variable {replies : List (EndpointReply Call)}

/-- What a transaction leaves to an idle router. -/
structure Untouched (contract : ExecutorContract Storage Call)
    (world next : ChainState Storage) : Prop where
  idle : contract.Idle next
  balance : ∀ token, contract.OrdinaryToken token →
    contract.balanceOf world token contract.self ≤ contract.balanceOf next token contract.self
  ether : world.ether contract.self ≤ next.ether contract.self

theorem Untouched.refl (hidle : contract.Idle world) : contract.Untouched world world :=
  ⟨hidle, fun _ _ => le_rfl, le_rfl⟩

theorem Untouched.trans (hfirst : contract.Untouched world next)
    (hsecond : contract.Untouched next last) : contract.Untouched world last :=
  ⟨hsecond.idle,
    fun token hordinary =>
      (hfirst.balance token hordinary).trans (hsecond.balance token hordinary),
    hfirst.ether.trans hsecond.ether⟩

end Transactions

end ExecutorContract

namespace ExecutorFundsExample

/-- All tokens are plain; token 1 buys token 2 at a pair. -/
def contract : ExecutorContract (PlainToken Address) (Address × ℕ) :=
  ⟨10, 11, 12, fun _ => PlainToken.code⟩

def tokens (token : Address) : PlainToken Address where
  balance owner :=
    if token = 1 ∧ owner = 20 then 1000 else if token = 2 ∧ owner = 30 then 5000 else 0
  allowance owner spender := if token = 1 ∧ owner = 20 ∧ spender = 10 then 1000 else 0

def params : ExactInputParams where
  tokenIn := 1
  tokenOut := 2
  amountIn := 100
  minAmountOut := 80
  recipient := 21
  deadline := 1000
  route := routeBytes 2 [⟨0, 30, 1, 2, .feeBps 30⟩]

/-- The first token call hands over to an account that enters again.  The pair reports its
reserves, is paid, and pays after trying the same; the last reply is of token 2. -/
def replies : List (EndpointReply (Address × ℕ)) :=
  [.mk [.enter 30 0 (.executeExactInput params) []] [] 0 0,
    .mk [] [] 1000 1000,
    .mk [] [] 0 0,
    .mk [.enter 30 0 (.executeExactInput params) []] [.token 2 (.transfer 30 10 90)] 0 0,
    .mk [] [] 0 0]

/-- A donation, a callback out of turn, and then the swap. -/
def history : List (ℕ × ChainAction (Address × ℕ)) :=
  [(5, .token 1 (.transfer 20 10 7)), (6, .callback 30 50 (-50) [])]

end ExecutorFundsExample

end AmmSearch
