/-
The hops of the executor.  Before and after each of the router's own steps others may
act, so a hop is put together from stretches in which the router stays calm and from the
few steps by which it pays, records a callback or approves an endpoint.
-/
import AmmSearch.ExecutorSafety

open TokenContract

namespace AmmSearch

namespace ExecutorContract

variable {Storage Call : Type} {contract : ExecutorContract Storage Call}
  {world next last : ChainState Storage} {allowed : Address → Address → Prop}
  {act : ChainState Storage → ChainAction Call → ChainState Storage}
  {token recipient spender : Address} {hop : RouterHop} {amount spent received amountOut : ℕ}
  {frame after : CallFrame Storage Call} {operation : Operation Address Call}

section Calm

/-- Between two steps of the router the lock is closed, no callback is expected and nobody
may spend its ordinary tokens. -/
structure Steady (contract : ExecutorContract Storage Call) (world : ChainState Storage) :
    Prop where
  storage : world.storage = { unlocked := 2 }
  grants : contract.GrantsNothing world contract.self

theorem Steady.locked (hsteady : contract.Steady world) : world.storage.unlocked ≠ 1 := by
  rw [hsteady.storage]
  decide

/-- What others leave of a steady router: nothing goes out. -/
structure Calm (contract : ExecutorContract Storage Call) (world next : ChainState Storage) :
    Prop where
  steady : contract.Steady next
  balance : ∀ token, contract.OrdinaryToken token →
    contract.balanceOf world token contract.self ≤ contract.balanceOf next token contract.self
  ether : world.ether contract.self ≤ next.ether contract.self
  moves : ∃ new, next.moves = world.moves ++ new ∧
    (∀ move ∈ new, move.spender ≠ contract.self) ∧
    ∀ move ∈ new, contract.OrdinaryToken move.token → move.sender = contract.self →
      move.amount = 0

end Calm

section Hops

/-- What a hop leaves behind.  The router pays to the endpoint only, at most the amount of
the hop, and an endpoint that it does not approve draws nothing more. -/
structure HopDone (contract : ExecutorContract Storage Call) (hop : RouterHop) (amount : ℕ)
    (before after : ChainState Storage) : Prop where
  steady : contract.Steady after
  others : ∀ token, contract.OrdinaryToken token → token ≠ hop.tokenIn →
    contract.balanceOf before token contract.self ≤ contract.balanceOf after token contract.self
  ether : before.ether contract.self ≤ after.ether contract.self
  moves : ∃ new, after.moves = before.moves ++ new ∧ outflow new contract.self ≤ amount ∧
    (∀ move ∈ new, move.spender = contract.self → move.sender = contract.self ∧
      move.token = hop.tokenIn ∧ move.recipient = hop.endpoint) ∧
    ∀ move ∈ new, contract.OrdinaryToken move.token → move.sender = contract.self →
      move.spender ≠ contract.self → move.amount = 0 ∨
        hop.Approves ∧ move.token = hop.tokenIn ∧ move.spender = hop.endpoint

theorem HopDone.trans (hfirst : contract.HopDone hop spent world next)
    (hsecond : contract.HopDone hop amount next last) :
    contract.HopDone hop (spent + amount) world last := by
  obtain ⟨first, hmoves, hfirstPaid, hfirstOwn, hfirstPulled⟩ := hfirst.moves
  obtain ⟨second, hlast, hsecondPaid, hsecondOwn, hsecondPulled⟩ := hsecond.moves
  refine ⟨hsecond.steady, fun token hordinary hother => (hfirst.others token hordinary hother).trans
    (hsecond.others token hordinary hother), hfirst.ether.trans hsecond.ether, first ++ second,
    ?_, ?_, ?_, ?_⟩
  · rw [hlast, hmoves, List.append_assoc]
  · rw [outflow_append]
    exact Nat.add_le_add hfirstPaid hsecondPaid
  · intro move hmove
    exact (List.mem_append.mp hmove).elim (hfirstOwn move) (hsecondOwn move)
  · intro move hmove
    exact (List.mem_append.mp hmove).elim (hfirstPulled move) (hsecondPulled move)

end Hops

section Approvals

end Approvals

section Swaps

/-- A chain of hops that the router runs, each of which spends exactly what the one before
it received. -/
inductive ExactHops (contract : ExecutorContract Storage Call)
    (act : ChainState Storage → ChainAction Call → ChainState Storage) :
    Address → List RouterHop → ℕ → CallFrame Storage Call → Address → ℕ →
      CallFrame Storage Call → Prop
  | done (token : Address) (amount : ℕ) (frame : CallFrame Storage Call) :
      ExactHops contract act token [] amount frame token amount frame
  | hop {hop : RouterHop} {rest : List RouterHop} {amount received amountOut : ℕ}
      {before middle after : CallFrame Storage Call} {tokenOut : Address}
      (swapped : contract.swap act hop amount before = .ok middle)
      (done : contract.HopDone hop amount before.world middle.world)
      (spent : contract.balanceOf middle.world hop.tokenIn contract.self + amount =
        contract.balanceOf before.world hop.tokenIn contract.self)
      (gained : contract.balanceOf middle.world hop.tokenOut contract.self =
        contract.balanceOf before.world hop.tokenOut contract.self + received)
      (next : ExactHops contract act hop.tokenOut rest received middle tokenOut amountOut after) :
      ExactHops contract act hop.tokenIn (hop :: rest) amount before tokenOut amountOut after

end Swaps

end ExecutorContract

end AmmSearch
