/-
Approvals of the executor.  Every call is a sequence of steps of the router and of the
contracts it calls; the router takes tokens only from its caller, so whoever has approved
only the router keeps everything while others act.
-/
import AmmSearch.ExecutorFunds
import Mathlib.Logic.Relation

open BigEndian TokenContract

namespace AmmSearch

namespace ExecutorContract

variable {Storage Call : Type}

section Steps

/-- What changes the chain while a call of the router runs. -/
inductive CallStep (contract : ExecutorContract Storage Call)
    (act : ChainState Storage → ChainAction Call → ChainState Storage) (caller : Address)
    (replies : List (EndpointReply Call)) : ChainState Storage → ChainState Storage → Prop
  | record (world : ChainState Storage) (storage : RouterStorage) :
      CallStep contract act caller replies world { world with storage := storage }
  | pay {world next : ChainState Storage} {token recipient : Address} {amount : ℕ}
      (hpay : contract.runToken world token (.transfer contract.self recipient amount) =
        some next) :
      CallStep contract act caller replies world next
  | take {world next : ChainState Storage} {token : Address} {amount : ℕ}
      (htake : contract.runToken world token
        (.transferFrom contract.self caller contract.self amount) = some next) :
      CallStep contract act caller replies world next
  | approve {world next : ChainState Storage} {token spender : Address} {amount : ℕ}
      (happrove : contract.runToken world token (.approve contract.self spender amount) =
        some next) :
      CallStep contract act caller replies world next
  | ether {world next : ChainState Storage} {sender recipient : Address} {amount : ℕ}
      (hsender : sender = contract.self ∨ sender = caller)
      (hpay : world.payEther sender recipient amount = some next) :
      CallStep contract act caller replies world next
  | outside {reply : EndpointReply Call} {action : ChainAction Call} (hreply : reply ∈ replies)
      (haction : action ∈ reply.actions) (world : ChainState Storage) :
      CallStep contract act caller replies world (act world action)

/-- The steps from one point of a call to a later one. -/
structure CallSteps (contract : ExecutorContract Storage Call)
    (act : ChainState Storage → ChainAction Call → ChainState Storage) (caller : Address)
    (frame after : CallFrame Storage Call) : Prop where
  steps : Relation.ReflTransGen (CallStep contract act caller frame.replies) frame.world
    after.world
  replies : after.replies ⊆ frame.replies

variable {contract : ExecutorContract Storage Call}
  {act : ChainState Storage → ChainAction Call → ChainState Storage}
  {caller token spender recipient : Address} {replies : List (EndpointReply Call)}
  {frame middle after : CallFrame Storage Call} {amount amountOut value : ℕ}
  {params : ExactInputParams} {operation : Operation Address Call}

theorem CallStep.mono {others : List (EndpointReply Call)} {world next : ChainState Storage}
    (hsubset : replies ⊆ others) (hstep : CallStep contract act caller replies world next) :
    CallStep contract act caller others world next := by
  cases hstep with
  | record world storage => exact .record world storage
  | pay hpay => exact .pay hpay
  | take htake => exact .take htake
  | approve happrove => exact .approve happrove
  | ether hsender hpay => exact .ether hsender hpay
  | outside hreply haction world => exact .outside (hsubset hreply) haction world

theorem CallSteps.refl (frame : CallFrame Storage Call) :
    CallSteps contract act caller frame frame :=
  ⟨.refl, fun _ hreply => hreply⟩

theorem CallSteps.trans (hfirst : CallSteps contract act caller frame middle)
    (hsecond : CallSteps contract act caller middle after) :
    CallSteps contract act caller frame after :=
  ⟨hfirst.steps.trans
      (Relation.ReflTransGen.mono (fun _ _ hstep => CallStep.mono hfirst.replies hstep) _ _
        hsecond.steps),
    fun _ hreply => hfirst.replies (hsecond.replies hreply)⟩

theorem CallSteps.single
    (hstep : CallStep contract act caller frame.replies frame.world after.world)
    (hreplies : after.replies = frame.replies) : CallSteps contract act caller frame after :=
  ⟨.single hstep, fun _ hreply => hreplies ▸ hreply⟩

end Steps

section Bystanders

/-- The user's ordinary tokens, grants and ether are as they were, or more has come in, and
the router has moved nothing of the user's. -/
structure Bystander (contract : ExecutorContract Storage Call) (user : Address)
    (world next : ChainState Storage) : Prop where
  balance : ∀ token, contract.OrdinaryToken token →
    contract.balanceOf world token user ≤ contract.balanceOf next token user
  allowance : ∀ token, contract.OrdinaryToken token → ∀ spender,
    contract.allowance next token user spender = contract.allowance world token user spender
  ether : world.ether user ≤ next.ether user
  moves : ∃ new, next.moves = world.moves ++ new ∧
    ∀ move ∈ new, move.spender = contract.self → move.sender ≠ user

variable {contract : ExecutorContract Storage Call}
  {act : ChainState Storage → ChainAction Call → ChainState Storage}
  {caller user token spender recipient : Address} {amount : ℕ}
  {replies : List (EndpointReply Call)} {world next last : ChainState Storage}
  {operation : Operation Address Call}

theorem Bystander.refl (user : Address) (world : ChainState Storage) :
    contract.Bystander user world world :=
  ⟨fun _ _ => le_rfl, fun _ _ _ => rfl, le_rfl, [], by simp, by simp⟩

theorem Bystander.trans (hfirst : contract.Bystander user world next)
    (hsecond : contract.Bystander user next last) : contract.Bystander user world last := by
  obtain ⟨first, hmoves, hothers⟩ := hfirst.moves
  obtain ⟨second, hlast, hlastOthers⟩ := hsecond.moves
  refine ⟨fun token hordinary => (hfirst.balance token hordinary).trans
      (hsecond.balance token hordinary), ?_, hfirst.ether.trans hsecond.ether,
    first ++ second, ?_, ?_⟩
  · intro token hordinary spender
    rw [hsecond.allowance token hordinary, hfirst.allowance token hordinary]
  · rw [hlast, hmoves, List.append_assoc]
  · intro move hmove
    exact (List.mem_append.mp hmove).elim (hothers move) (hlastOthers move)

end Bystanders

end ExecutorContract

namespace ExecutorApprovalsExample

open ExecutorFundsExample

/-- Accounts 20 and 31 have approved the router for token 1. -/
def tokens (token : Address) : PlainToken Address where
  balance owner :=
    if token = 1 ∧ (owner = 20 ∨ owner = 31) then 100
    else if token = 2 ∧ owner = 30 then 5000 else 0
  allowance owner spender :=
    if token = 1 ∧ (owner = 20 ∨ owner = 31) ∧ spender = 10 then 100 else 0

/-- The pair reaches for the tokens of account 20 before it pays. -/
def replies : List (EndpointReply (Address × ℕ)) :=
  [.mk [] [] 0 0, .mk [] [] 1000 1000, .mk [] [] 0 0,
    .mk [.token 1 (.transferFrom 30 20 30 100)] [.token 2 (.transfer 30 10 90)] 0 0,
    .mk [] [] 0 0]

/-- Account 31 reaches for them too, and then trades its own. -/
def history : List (ℕ × ChainAction (Address × ℕ)) :=
  [(5, .token 1 (.transferFrom 31 20 31 100)),
    (6, .enter 31 0 (.executeExactInput params) replies)]

end ExecutorApprovalsExample

end AmmSearch
