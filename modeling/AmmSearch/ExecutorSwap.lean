/-
From a quote to the chain.  The call data that the sidecar builds for the best route
makes the contract trade the hops of that route, and pay the recipient at least the
floor that was asked for.
-/
import AmmSearch.ExecutorFunds

open BigEndian TokenContract

namespace AmmSearch

section Floor

variable {runtime : ExecutorRegistry} {routes : List RouteQuote} {quote : RouteQuote}
  {request : ExecutionRequest} {firstHop finalHop : Hop} {minimum : U256}

end Floor

section Executed

variable {Storage Call : Type} {runtime : ExecutorRegistry} {routes : List RouteQuote}
  {request : ExecutionRequest} {swap : ExecutableSwap}
  {contract : ExecutorContract Storage Call} {world : ChainState Storage}
  {amountOut depth : ℕ} {after : CallFrame Storage Call}

end Executed

namespace ExecutorSwapExample

open ExecutorExample ExecutorFundsExample

/-- Account 20 sells token 1; the two pools own tokens 2 and 3. -/
def tokens (token : Address) : PlainToken Address where
  balance owner :=
    if token = 1 ∧ owner = 20 then 1000
    else if token = 2 ∧ owner = 7 ∨ token = 3 ∧ owner = 8 then 5000 else 0
  allowance owner spender := if token = 1 ∧ owner = 20 ∧ spender = 10 then 1000 else 0

/-- The pair pays after the router has; the Curve pool collects what it was approved.  The
replies between are those of the tokens. -/
def replies : List (EndpointReply (Address × ℕ)) :=
  [.mk [] [] 0 0, .mk [] [] 1000 1000, .mk [] [] 0 0,
    .mk [] [.token 2 (.transfer 7 10 90)] 0 0, .mk [] [] 0 0,
    .mk [] [.token 2 (.transferFrom 8 10 8 90), .token 3 (.transfer 8 10 80)] 0 0,
    .mk [] [] 0 0, .mk [] [] 0 0]

end ExecutorSwapExample

end AmmSearch
