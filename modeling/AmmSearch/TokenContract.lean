/-
Token contracts as a chain sees them: unknown code over a storage of its own.  An
ordinary token moves exactly what it is told to, lets others spend within what an
account allows them, and otherwise leaves an account alone that does not act.
-/
import Mathlib.Algebra.BigOperators.Group.List.Basic
import Mathlib.Algebra.GroupWithZero.Nat
import Mathlib.Algebra.Order.Group.Nat

namespace TokenContract

/-- A transfer that went through, and the account that asked for it. -/
structure Move (Token Account : Type) where
  token : Token
  spender : Account
  sender : Account
  recipient : Account
  amount : ℕ
deriving DecidableEq

/-- The amounts that an account has moved, of whatever token. -/
def outflow {Token Account : Type} [DecidableEq Account] (moves : List (Move Token Account))
    (account : Account) : ℕ :=
  ((moves.filter fun move => move.spender = account).map Move.amount).sum

theorem outflow_append {Token Account : Type} [DecidableEq Account]
    (first second : List (Move Token Account)) (account : Account) :
    outflow (first ++ second) account = outflow first account + outflow second account := by
  simp [outflow]

/-- What a token contract is asked for.  Besides the standard entry points it may have
others, which mint or burn, say, or take a signed permit. -/
inductive Operation (Account Call : Type)
  | transfer (sender recipient : Account) (amount : ℕ)
  | transferFrom (spender sender recipient : Account) (amount : ℕ)
  | approve (owner spender : Account) (amount : ℕ)
  | other (call : Call)
deriving DecidableEq

/-- The transfer that the operation asks for. -/
def Operation.move {Token Account Call : Type} (token : Token) :
    Operation Account Call → Option (Move Token Account)
  | transfer sender recipient amount => some ⟨token, sender, sender, recipient, amount⟩
  | transferFrom spender sender recipient amount =>
      some ⟨token, spender, sender, recipient, amount⟩
  | approve _ _ _ => none
  | other _ => none

/-- The code of a token contract; an operation that fails has no result.  A call of
another entry point acts for the account that makes it or whose signature it carries. -/
structure TokenCode (Storage Account Call : Type) where
  balanceOf : Storage → Account → ℕ
  allowance : Storage → Account → Account → ℕ
  run : Storage → Operation Account Call → Option Storage
  authority : Call → Option Account

namespace TokenCode

variable {Storage Account Call : Type} [DecidableEq Account]
  (code : TokenCode Storage Account Call)

/-- The account for which an operation acts. -/
def actor : Operation Account Call → Option Account
  | .transfer sender _ _ => some sender
  | .transferFrom spender _ _ _ => some spender
  | .approve owner _ _ => some owner
  | .other call => code.authority call

/-- The amount goes from the sender to the recipient, and nobody else is touched. -/
structure Moved (storage next : Storage) (sender recipient : Account) (amount : ℕ) : Prop where
  funded : amount ≤ code.balanceOf storage sender
  balance : ∀ owner, code.balanceOf next owner =
    (code.balanceOf storage owner - if owner = sender then amount else 0) +
      if owner = recipient then amount else 0

/-- The token behaves as an ordinary one: without fees on transfers, rebasing, or an
operator who takes tokens from accounts. -/
structure Ordinary : Prop where
  transfer : ∀ {storage next sender recipient amount},
    code.run storage (.transfer sender recipient amount) = some next →
      code.Moved storage next sender recipient amount ∧
        code.allowance next = code.allowance storage
  transferFrom : ∀ {storage next spender sender recipient amount},
    code.run storage (.transferFrom spender sender recipient amount) = some next →
      code.Moved storage next sender recipient amount ∧
        (spender = sender ∨ amount = 0 ∨ code.allowance storage sender spender ≠ 0) ∧
        ∀ owner user, code.allowance next owner user ≤ code.allowance storage owner user ∧
          (owner ≠ sender ∨ user ≠ spender →
            code.allowance next owner user = code.allowance storage owner user)
  approve : ∀ {storage next owner spender amount},
    code.run storage (.approve owner spender amount) = some next →
      code.balanceOf next = code.balanceOf storage ∧
        ∀ account user, code.allowance next account user =
          if account = owner ∧ user = spender then amount
          else code.allowance storage account user
  other : ∀ {storage next call}, code.run storage (.other call) = some next →
    ∀ owner, code.authority call ≠ some owner →
      code.balanceOf storage owner ≤ code.balanceOf next owner ∧
        ∀ spender, code.allowance next owner spender = code.allowance storage owner spender

variable {code} {storage next : Storage} {owner sender recipient spender : Account}
  {amount : ℕ} {operation : Operation Account Call}

theorem Moved.le (hmoved : code.Moved storage next sender recipient amount)
    (howner : owner = sender → amount = 0) :
    code.balanceOf storage owner ≤ code.balanceOf next owner := by
  rw [hmoved.balance]
  split
  · rename_i hsender
    rw [howner hsender]
    omega
  · omega

section Others

variable (hordinary : code.Ordinary) (hrun : code.run storage operation = some next)
  (hactor : code.actor operation ≠ some owner)

include hordinary hrun hactor

/-- A transfer out of an account by another one is covered by an allowance. -/
theorem Ordinary.covered {Token : Type} {token : Token} {move : Move Token Account}
    (hmove : operation.move token = some move) (hsender : move.sender = owner) :
    move.amount = 0 ∨ code.allowance storage owner move.spender ≠ 0 := by
  cases operation with
  | transfer sender recipient amount =>
      obtain rfl := Option.some.inj hmove
      exact absurd (congrArg some hsender) hactor
  | transferFrom spender sender recipient amount =>
      obtain rfl := Option.some.inj hmove
      obtain rfl : sender = owner := hsender
      exact (hordinary.transferFrom hrun).2.1.resolve_left fun heq =>
        hactor (congrArg some heq)
  | approve account spender amount => cases hmove
  | other call => cases hmove

end Others

end TokenCode

section Plain

/-- The storage of a plain token. -/
structure PlainToken (Account : Type) where
  balance : Account → ℕ
  allowance : Account → Account → ℕ

namespace PlainToken

variable {Account : Type} [DecidableEq Account]

def move (token : PlainToken Account) (sender recipient : Account) (amount : ℕ) :
    Option (PlainToken Account) :=
  if amount ≤ token.balance sender then
    some
      { token with
        balance := fun owner =>
          (token.balance owner - if owner = sender then amount else 0) +
            if owner = recipient then amount else 0 }
  else none

def allow (token : PlainToken Account) (owner spender : Account) (amount : ℕ) :
    PlainToken Account :=
  { token with
    allowance := fun account user =>
      if account = owner ∧ user = spender then amount else token.allowance account user }

def run (token : PlainToken Account) :
    Operation Account (Account × ℕ) → Option (PlainToken Account)
  | .transfer sender recipient amount => token.move sender recipient amount
  | .transferFrom spender sender recipient amount =>
      if amount ≤ token.allowance sender spender then
        (token.move sender recipient amount).map fun moved =>
          moved.allow sender spender (token.allowance sender spender - amount)
      else none
  | .approve owner spender amount => some (token.allow owner spender amount)
  | .other (account, amount) =>
      some { token with
        balance := fun owner => token.balance owner + if owner = account then amount else 0 }

/-- Besides the standard entry points anyone may mint. -/
def code : TokenCode (PlainToken Account) Account (Account × ℕ) where
  balanceOf := PlainToken.balance
  allowance := PlainToken.allowance
  run := PlainToken.run
  authority _ := none

end PlainToken

end Plain

end TokenContract
