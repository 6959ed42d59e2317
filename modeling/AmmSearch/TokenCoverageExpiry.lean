/-
The negative cache over runs of the coverage ledger.  A token that was found without a
pool stays negative while callers only read and poll it.  How long it counts as freshly
negative depends on every call that wrote its entry since.
-/
import AmmSearch.TokenCoverage

namespace AmmSearch

/-- The operations of the ledger. -/
inductive LedgerCall
  | get (token : Address)
  | all
  | negativeIsFresh (token : Address) (ttl : ℕ)
  | markConfigured (token : Address)
  | markQueued (token : Address) (protocols : List String) (connectors : List Address)
      (jobs : ℕ)
  | markDiscovering (token : Address)
  | markSettled (token : Address) (pools : ℕ) (graphPresent : Bool)
  | markFailed (token : Address) (error : String)
  | refreshGraphState (token : Address) (pools : ℕ) (graphPresent : Bool)
deriving DecidableEq

/-- An operation with what its clock reads, in Unix milliseconds. -/
structure TimedCall where
  now : ℕ
  call : LedgerCall

namespace LedgerCall

/-- The entry that `mutate` writes, for the operations that go through it. -/
def mutated : LedgerCall → Option Address
  | get _ | all | negativeIsFresh _ _ => none
  | markConfigured token | markQueued token _ _ _ | markDiscovering token
  | markSettled token _ _ | markFailed token _ | refreshGraphState token _ _ => some token

/-- Reads and status refreshes of a token; what happens to other tokens is free. -/
def Polls (token : Address) : LedgerCall → Prop
  | get _ | all | negativeIsFresh _ _ | markConfigured _ => True
  | refreshGraphState other _ graphPresent => other = token → graphPresent = false
  | markQueued other _ _ _ | markDiscovering other | markSettled other _ _
  | markFailed other _ => other ≠ token

end LedgerCall

namespace CoverageLedger

variable {ledger : CoverageLedger} {token : Address}

def serve (ledger : CoverageLedger) (timed : TimedCall) : CoverageLedger :=
  match timed.call with
  | .get _ | .all | .negativeIsFresh _ _ => ledger
  | .markConfigured token => ledger.markConfigured token timed.now
  | .markQueued token protocols connectors jobs =>
      ledger.markQueued token protocols connectors jobs timed.now
  | .markDiscovering token => ledger.markDiscovering token timed.now
  | .markSettled token pools graphPresent =>
      ledger.markSettled token pools graphPresent timed.now
  | .markFailed token error => ledger.markFailed token error timed.now
  | .refreshGraphState token pools graphPresent =>
      ledger.refreshGraphState token pools graphPresent timed.now

/-- The ledger after a sequence of calls. -/
def serveAll (ledger : CoverageLedger) (calls : List TimedCall) : CoverageLedger :=
  calls.foldl serve ledger

/-- The token has an empty entry that was last written at this time. -/
structure EmptySince (ledger : CoverageLedger) (token : Address) (stamp : ℕ) : Prop where
  state : ledger.state token = .empty
  stamped : (ledger.entries token).map TokenCoverage.updatedAtUnixMs = some stamp

theorem entries_mutate_self (ledger : CoverageLedger) (token : Address) (now : ℕ)
    (f : TokenCoverage → TokenCoverage) :
    (ledger.mutate token now f).entries token =
      some { f (ledger.get token now) with updatedAtUnixMs := now } :=
  Function.update_self token _ ledger.entries

theorem entries_mutate_of_ne {other : Address} (hother : other ≠ token) (now : ℕ)
    (f : TokenCoverage → TokenCoverage) :
    (ledger.mutate other now f).entries token = ledger.entries token :=
  Function.update_of_ne (Ne.symm hother) _ ledger.entries

/-- Whatever is written to the entry, the helper stamps it. -/
theorem emptySince_mutate_self {now : ℕ} {f : TokenCoverage → TokenCoverage}
    (hstate : (f (ledger.get token now)).state = .empty) :
    (ledger.mutate token now f).EmptySince token now where
  state := by
    rw [state_mutate, if_pos rfl]
    exact hstate
  stamped := by
    rw [entries_mutate_self]
    rfl

theorem EmptySince.mutate_of_ne {stamp : ℕ} (hempty : ledger.EmptySince token stamp)
    {other : Address} (hother : other ≠ token) (now : ℕ)
    (f : TokenCoverage → TokenCoverage) :
    (ledger.mutate other now f).EmptySince token stamp where
  state := by
    rw [state_mutate, if_neg (Ne.symm hother)]
    exact hempty.state
  stamped := by
    rw [entries_mutate_of_ne hother]
    exact hempty.stamped

theorem emptySince_markSettled (ledger : CoverageLedger) (token : Address) (pools now : ℕ) :
    (ledger.markSettled token pools false now).EmptySince token now :=
  emptySince_mutate_self rfl

/-- When the entry of a token was last written, for calls that follow a write. -/
def lastStamp (token : Address) (stamp : ℕ) (calls : List TimedCall) : ℕ :=
  calls.foldl
    (fun stamp timed => if timed.call.mutated = some token then timed.now else stamp) stamp

theorem lastStamp_cons (stamp : ℕ) (timed : TimedCall) (calls : List TimedCall) :
    lastStamp token stamp (timed :: calls) =
      lastStamp token (if timed.call.mutated = some token then timed.now else stamp) calls :=
  rfl

/-- One call that reads or polls the token keeps it empty, and moves the stamp to the
call's own time when it goes through the helper. -/
theorem EmptySince.serve {stamp : ℕ} (hempty : ledger.EmptySince token stamp)
    {timed : TimedCall} (hpolls : timed.call.Polls token) :
    (ledger.serve timed).EmptySince token
      (if timed.call.mutated = some token then timed.now else stamp) := by
  obtain ⟨now, call⟩ := timed
  -- A write to the token keeps its state, a write to another one keeps its entry.
  have hwrite : ∀ (other : Address) (f : TokenCoverage → TokenCoverage),
      (other = token → (f (ledger.get token now)).state = .empty) →
      (ledger.mutate other now f).EmptySince token
        (if some other = some token then now else stamp) := by
    intro other f hstate
    by_cases hother : other = token
    · subst hother
      rw [if_pos rfl]
      exact emptySince_mutate_self (hstate rfl)
    · rw [if_neg (fun heq => hother (Option.some.inj heq))]
      exact hempty.mutate_of_ne hother now f
  have hkept : (ledger.get token now).state = .empty :=
    (ledger.get_state token now).trans hempty.state
  simp only [CoverageLedger.serve]
  cases call with
  | get other => exact hempty
  | all => exact hempty
  | negativeIsFresh other ttl => exact hempty
  | markConfigured other => exact hwrite other _ fun _ => hkept
  | markQueued other protocols connectors jobs =>
      exact hwrite other _ fun heq => absurd heq hpolls
  | markDiscovering other => exact hwrite other _ fun heq => absurd heq hpolls
  | markSettled other pools graphPresent =>
      exact hwrite other _ fun heq => absurd heq hpolls
  | markFailed other error => exact hwrite other _ fun heq => absurd heq hpolls
  | refreshGraphState other pools graphPresent =>
      apply hwrite other
      intro heq
      have habsent : graphPresent = false := hpolls heq
      simp [habsent, hempty.state]

theorem EmptySince.serveAll {stamp : ℕ} {calls : List TimedCall}
    (hempty : ledger.EmptySince token stamp)
    (hpolls : ∀ timed ∈ calls, timed.call.Polls token) :
    (ledger.serveAll calls).EmptySince token (lastStamp token stamp calls) := by
  induction calls generalizing ledger stamp with
  | nil => exact hempty
  | cons timed rest ih =>
      rw [List.forall_mem_cons] at hpolls
      rw [lastStamp_cons]
      exact ih (hempty.serve hpolls.1) hpolls.2

theorem EmptySince.negativeIsFresh_eq {stamp : ℕ} (hempty : ledger.EmptySince token stamp)
    (ttl now : ℕ) : ledger.negativeIsFresh token ttl now = decide (now - stamp < ttl) := by
  obtain ⟨entry, hentry, hstamp⟩ := Option.map_eq_some_iff.mp hempty.stamped
  have hget : ledger.get token now = entry := by
    rw [get, hentry, Option.getD_some]
  have hstate : entry.state = .empty := by
    rw [← hget, get_state, hempty.state]
  rw [negativeIsFresh, hget, hstamp, hstate]
  simp

/-- On a clock that never runs backwards, the last write is old enough exactly when all
of them are. -/
theorem le_sub_lastStamp_iff {calls : List TimedCall} {stamp later ttl : ℕ}
    (hclock : (stamp :: calls.map TimedCall.now).Pairwise (· ≤ ·)) :
    ttl ≤ later - lastStamp token stamp calls ↔
      ttl ≤ later - stamp ∧
        ∀ timed ∈ calls, timed.call.mutated = some token → ttl ≤ later - timed.now := by
  induction calls generalizing stamp with
  | nil => simp [lastStamp]
  | cons timed rest ih =>
      rw [List.map_cons] at hclock
      have htail := List.Pairwise.of_cons hclock
      have hle : stamp ≤ timed.now := List.rel_of_pairwise_cons hclock List.mem_cons_self
      rw [lastStamp_cons, List.forall_mem_cons]
      by_cases hwrites : timed.call.mutated = some token
      · rw [if_pos hwrites, ih htail]
        constructor
        · rintro ⟨hnow, hrest⟩
          exact ⟨by omega, fun _ => hnow, hrest⟩
        · rintro ⟨_, hnow, hrest⟩
          exact ⟨hnow hwrites, hrest⟩
      · have hskip : (stamp :: rest.map TimedCall.now).Pairwise (· ≤ ·) :=
          hclock.sublist ((List.sublist_cons_self _ _).cons_cons stamp)
        rw [if_neg hwrites, ih hskip]
        constructor
        · rintro ⟨hstamp, hrest⟩
          exact ⟨hstamp, fun habsurd => absurd habsurd hwrites, hrest⟩
        · rintro ⟨hstamp, _, hrest⟩
          exact ⟨hstamp, hrest⟩

/-- A token settled as empty at `settledAt` that is only read and polled afterwards has
expired a time to live later exactly when every call that wrote its entry since is also a
time to live ago. -/
theorem negativeIsFresh_expires_iff {pools settledAt later ttl : ℕ} {calls : List TimedCall}
    (hclock : (settledAt :: calls.map TimedCall.now ++ [later]).Pairwise (· ≤ ·))
    (hpolls : ∀ timed ∈ calls, timed.call.Polls token) (helapsed : ttl ≤ later - settledAt) :
    ((ledger.markSettled token pools false settledAt).serveAll calls).negativeIsFresh
        token ttl later = false ↔
      ∀ timed ∈ calls, timed.call.mutated = some token → ttl ≤ later - timed.now := by
  have hempty := (emptySince_markSettled ledger token pools settledAt).serveAll hpolls
  have hsorted := (List.pairwise_append.mp hclock).1
  calc _ ↔ ttl ≤ later - lastStamp token settledAt calls := by
        rw [hempty.negativeIsFresh_eq, decide_eq_false_iff_not, Nat.not_lt]
    _ ↔ _ := (le_sub_lastStamp_iff hsorted).trans (and_iff_right helapsed)

/-- A poll only delays: the token has expired five minutes after it. -/
theorem negativeIsFresh_expires_polledToken :
    ((markSettled ⟨fun _ => none⟩ 3 0 false 0).serveAll
      [⟨100000, .refreshGraphState 3 0 false⟩, ⟨350000, .get 3⟩]).negativeIsFresh
        3 300000 400000 = false := by
  apply (negativeIsFresh_expires_iff (by decide) ?_ (by decide)).mpr
  · decide
  · intro timed hmem
    rcases List.mem_pair.mp hmem with rfl | rfl
    · exact fun _ => rfl
    · exact trivial

/-- A status poll in the last five minutes keeps the token fresh. -/
theorem not_negativeIsFresh_expires :
    ¬ ∀ (ledger : CoverageLedger) (token : Address) (pools settledAt later ttl : ℕ)
        (calls : List TimedCall),
        (settledAt :: calls.map TimedCall.now ++ [later]).Pairwise (· ≤ ·) →
        (∀ timed ∈ calls, timed.call.Polls token) → ttl ≤ later - settledAt →
        ((ledger.markSettled token pools false settledAt).serveAll calls).negativeIsFresh
          token ttl later = false := by
  intro hexpires
  have hpolls : ∀ timed ∈ [TimedCall.mk 200000 (.refreshGraphState 3 0 false)],
      timed.call.Polls 3 := by
    intro timed hmem
    obtain rfl := List.mem_singleton.mp hmem
    exact fun _ => rfl
  have hexpired := hexpires ⟨fun _ => none⟩ 3 0 0 300000 300000
    [⟨200000, .refreshGraphState 3 0 false⟩] (by decide) hpolls (by decide)
  have hfresh : ((markSettled ⟨fun _ => none⟩ 3 0 false 0).serveAll
      [⟨200000, .refreshGraphState 3 0 false⟩]).negativeIsFresh 3 300000 300000 = true := by
    decide
  rw [hfresh] at hexpired
  cases hexpired

end CoverageLedger

end AmmSearch
