/-
Fund safety of the executor.  Whatever the called tokens and endpoints do, the lock keeps
them from entering again, a callback pays only from the amount of the running hop, and
the balance checks force every hop to spend exactly what the hop before it received.
-/
import AmmSearch.ExecutorContract
import AmmSearch.Transitions

open TokenContract

namespace AmmSearch

/-- The endpoint is approved for the input of the hop, rather than paid. -/
def RouterHop.Approves (hop : RouterHop) : Prop :=
  match hop.payload with
  | .poolId _ | .coins _ _ => True
  | .none | .feeBps _ => False

namespace ExecutorContract

variable {Storage Call : Type} {contract : ExecutorContract Storage Call}
  {world next last : ChainState Storage} {allowed : Address → Address → Prop}
  {act : ChainState Storage → ChainAction Call → ChainState Storage}
  {token other owner recipient spender caller : Address} {amount : ℕ}
  {operation : Operation Address Call}

section Tokens

/-- A token of the chain behaves as an ordinary one. -/
def OrdinaryToken (contract : ExecutorContract Storage Call) (token : Address) : Prop :=
  (contract.code token).Ordinary

/-- Among the ordinary tokens the owner lets only these accounts spend. -/
def GrantsWithin (contract : ExecutorContract Storage Call) (world : ChainState Storage)
    (owner : Address) (allowed : Address → Address → Prop) : Prop :=
  ∀ token, contract.OrdinaryToken token → ∀ spender,
    contract.allowance world token owner spender ≠ 0 → allowed token spender

/-- No account may spend ordinary tokens for the owner. -/
def GrantsNothing (contract : ExecutorContract Storage Call) (world : ChainState Storage)
    (owner : Address) : Prop :=
  ∀ token, contract.OrdinaryToken token → ∀ spender,
    contract.allowance world token owner spender = 0

/-- What a token operation leaves of the chain. -/
structure TokenRan (contract : ExecutorContract Storage Call) (token : Address)
    (operation : Operation Address Call) (world next : ChainState Storage) : Prop where
  storage : next.storage = world.storage
  ether : next.ether = world.ether
  moves : next.moves = world.moves ++ (operation.move token).toList
  ran : (contract.code token).run (world.tokens token) operation = some (next.tokens token)
  others : ∀ other, other ≠ token → next.tokens other = world.tokens other

theorem TokenRan.balanceOf_ne (hran : contract.TokenRan token operation world next)
    (hother : other ≠ token) (owner : Address) :
    contract.balanceOf next other owner = contract.balanceOf world other owner := by
  unfold balanceOf
  rw [hran.others other hother]

theorem TokenRan.allowance_ne (hran : contract.TokenRan token operation world next)
    (hother : other ≠ token) (owner spender : Address) :
    contract.allowance next other owner spender =
      contract.allowance world other owner spender := by
  unfold allowance
  rw [hran.others other hother]

section Others

variable (hran : contract.TokenRan token operation world next)
  (hordinary : contract.OrdinaryToken other)
  (hactor : (contract.code token).actor operation ≠ some owner)

include hran hordinary hactor

end Others

/-- A transfer changes no allowance, and only its sender loses by it. -/
theorem TokenRan.transfer {sender : Address}
    (hran : contract.TokenRan token (.transfer sender recipient amount) world next)
    (hordinary : contract.OrdinaryToken other) :
    (∀ owner spender, contract.allowance next other owner spender =
        contract.allowance world other owner spender) ∧
      ∀ owner, (other = token → owner ≠ sender) →
        contract.balanceOf world other owner ≤ contract.balanceOf next other owner := by
  by_cases hother : other = token
  · subst hother
    obtain ⟨hmoved, hallowance⟩ := hordinary.transfer hran.ran
    refine ⟨fun owner spender => congrFun (congrFun hallowance owner) spender, ?_⟩
    intro owner howner
    exact hmoved.le fun heq => absurd heq (howner rfl)
  · exact ⟨hran.allowance_ne hother, fun owner _ => (hran.balanceOf_ne hother owner).ge⟩

end Tokens

section Meanwhile

/-- The transfers that happen while others act: the router pays the expected pool at most,
and others move its ordinary tokens within what it allows. -/
structure Payments (contract : ExecutorContract Storage Call)
    (allowed : Address → Address → Prop) (storage : RouterStorage)
    (new : List (Move Address Address)) : Prop where
  own : ∀ move ∈ new, move.spender = contract.self → move.sender = contract.self ∧
    storage.callbackPool ≠ 0 ∧ move.token = storage.callbackToken ∧
      move.recipient = storage.callbackPool
  pulled : ∀ move ∈ new, contract.OrdinaryToken move.token → move.sender = contract.self →
    move.spender ≠ contract.self → move.amount = 0 ∨ allowed move.token move.spender

theorem Payments.nil {storage : RouterStorage} : contract.Payments allowed storage [] :=
  ⟨by simp, by simp⟩

theorem Payments.append {storage : RouterStorage} {first second : List (Move Address Address)}
    (hfirst : contract.Payments allowed storage first)
    (hsecond : contract.Payments allowed storage second) :
    contract.Payments allowed storage (first ++ second) := by
  constructor
  · intro move hmove
    rcases List.mem_append.mp hmove with hmove | hmove
    · exact hfirst.own move hmove
    · exact hsecond.own move hmove
  · intro move hmove
    rcases List.mem_append.mp hmove with hmove | hmove
    · exact hfirst.pulled move hmove
    · exact hsecond.pulled move hmove

/-- What others may change while the lock is closed. -/
structure Meanwhile (contract : ExecutorContract Storage Call)
    (allowed : Address → Address → Prop) (world next : ChainState Storage) : Prop where
  storage : next.storage =
    { world.storage with callbackAmount := next.storage.callbackAmount }
  ether : world.ether contract.self ≤ next.ether contract.self
  grants : contract.GrantsWithin next contract.self allowed
  balance : ∀ token, contract.OrdinaryToken token → (∀ spender, ¬ allowed token spender) →
    (world.storage.callbackPool ≠ 0 → token ≠ world.storage.callbackToken) →
    contract.balanceOf world token contract.self ≤ contract.balanceOf next token contract.self
  moves : ∃ new, next.moves = world.moves ++ new ∧
    contract.Payments allowed world.storage new ∧
    outflow new contract.self + next.storage.callbackAmount = world.storage.callbackAmount

theorem Meanwhile.refl (hgrants : contract.GrantsWithin world contract.self allowed) :
    contract.Meanwhile allowed world world :=
  ⟨rfl, le_rfl, hgrants, fun _ _ _ _ => le_rfl, [], by simp, .nil, by simp [outflow]⟩

theorem Meanwhile.trans (hfirst : contract.Meanwhile allowed world next)
    (hsecond : contract.Meanwhile allowed next last) : contract.Meanwhile allowed world last := by
  have hpool : next.storage.callbackPool = world.storage.callbackPool := by
    rw [hfirst.storage]
  have htoken : next.storage.callbackToken = world.storage.callbackToken := by
    rw [hfirst.storage]
  obtain ⟨first, hmoves, hfirstMoves, hfirstPaid⟩ := hfirst.moves
  obtain ⟨second, hlast, hsecondMoves, hsecondPaid⟩ := hsecond.moves
  refine ⟨?_, hfirst.ether.trans hsecond.ether, hsecond.grants, ?_, first ++ second, ?_, ?_, ?_⟩
  · rw [hsecond.storage, hfirst.storage]
  · intro token hordinary hnone hopen
    refine (hfirst.balance token hordinary hnone hopen).trans
      (hsecond.balance token hordinary hnone ?_)
    rw [hpool, htoken]
    exact hopen
  · rw [hlast, hmoves, List.append_assoc]
  · refine hfirstMoves.append ⟨?_, hsecondMoves.pulled⟩
    intro move hmove hown
    rw [← hpool, ← htoken]
    exact hsecondMoves.own move hmove hown
  · rw [outflow_append]
    omega

theorem Meanwhile.locked (hmeanwhile : contract.Meanwhile allowed world next)
    (hlocked : world.storage.unlocked ≠ 1) : next.storage.unlocked ≠ 1 := by
  rw [hmeanwhile.storage]
  exact hlocked

end Meanwhile

end ExecutorContract

end AmmSearch
