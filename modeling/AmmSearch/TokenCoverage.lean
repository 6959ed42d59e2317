/-
The coverage ledger of a routing node: why a token was discovered, and how far its
discovery has come.
-/
import Mathlib.Logic.Function.Basic
import AmmSearch.Primitives

namespace AmmSearch

inductive CoverageState
  | unknown
  | queued
  | discovering
  | ready
  | empty
  | failed
deriving DecidableEq

/-- The states of a discovery that somebody is still to settle. -/
def CoverageState.InProgress : CoverageState → Prop
  | queued | discovering => True
  | _ => False

instance : DecidablePred CoverageState.InProgress
  | .queued | .discovering => isTrue trivial
  | .unknown | .ready | .empty | .failed => isFalse id

/-- A ledger entry, with the addresses whose texts the source stores. -/
structure TokenCoverage where
  token : Address
  state : CoverageState
  configured : Bool
  graphPresent : Bool
  protocols : List String
  connectors : List Address
  pools : ℕ
  jobs : ℕ
  updatedAtUnixMs : ℕ
  error : Option String
deriving DecidableEq

def TokenCoverage.unknown (token : Address) (now : ℕ) : TokenCoverage where
  token := token
  state := .unknown
  configured := false
  graphPresent := false
  protocols := []
  connectors := []
  pools := 0
  jobs := 0
  updatedAtUnixMs := now
  error := none

structure CoverageLedger where
  entries : Address → Option TokenCoverage

namespace CoverageLedger

/-- The state of a token; one without an entry is unknown. -/
def state (ledger : CoverageLedger) (token : Address) : CoverageState :=
  match ledger.entries token with
  | some entry => entry.state
  | none => .unknown

def get (ledger : CoverageLedger) (token : Address) (now : ℕ) : TokenCoverage :=
  (ledger.entries token).getD (.unknown token now)

def negativeIsFresh (ledger : CoverageLedger) (token : Address) (ttl now : ℕ) : Bool :=
  let entry := ledger.get token now
  entry.state = .empty ∧ now - entry.updatedAtUnixMs < ttl

def mutate (ledger : CoverageLedger) (token : Address) (now : ℕ)
    (f : TokenCoverage → TokenCoverage) : CoverageLedger where
  entries := Function.update ledger.entries token
    (some { f (ledger.get token now) with updatedAtUnixMs := now })

def markConfigured (ledger : CoverageLedger) (token : Address) (now : ℕ) : CoverageLedger :=
  ledger.mutate token now fun entry => { entry with configured := true }

def markQueued (ledger : CoverageLedger) (token : Address) (protocols : List String)
    (connectors : List Address) (jobs now : ℕ) : CoverageLedger :=
  ledger.mutate token now fun entry =>
    { entry with
      state := .queued
      protocols := protocols
      connectors := connectors
      jobs := jobs
      error := none }

def markDiscovering (ledger : CoverageLedger) (token : Address) (now : ℕ) : CoverageLedger :=
  ledger.mutate token now fun entry => { entry with state := .discovering }

def markSettled (ledger : CoverageLedger) (token : Address) (pools : ℕ) (graphPresent : Bool)
    (now : ℕ) : CoverageLedger :=
  ledger.mutate token now fun entry =>
    { entry with
      pools := pools
      graphPresent := graphPresent
      state := if graphPresent then .ready else .empty }

def markFailed (ledger : CoverageLedger) (token : Address) (error : String) (now : ℕ) :
    CoverageLedger :=
  ledger.mutate token now fun entry => { entry with state := .failed, error := some error }

def refreshGraphState (ledger : CoverageLedger) (token : Address) (pools : ℕ)
    (graphPresent : Bool) (now : ℕ) : CoverageLedger :=
  ledger.mutate token now fun entry =>
    { entry with
      pools := pools
      graphPresent := graphPresent
      state :=
        if graphPresent ∧ (entry.state = .unknown ∨ entry.state = .empty) then .ready
        else entry.state }

variable (ledger : CoverageLedger) (token other : Address) (now : ℕ)

@[simp]
theorem get_state : (ledger.get token now).state = ledger.state token := by
  unfold get state
  cases ledger.entries token <;> rfl

theorem state_mutate (f : TokenCoverage → TokenCoverage) :
    (ledger.mutate token now f).state other =
      if other = token then (f (ledger.get token now)).state else ledger.state other := by
  by_cases hother : other = token
  · subst hother
    simp [state, mutate]
  · simp [state, mutate, hother]

@[simp]
theorem state_markConfigured :
    (ledger.markConfigured token now).state other = ledger.state other := by
  rw [markConfigured, state_mutate, get_state]
  by_cases hother : other = token
  · rw [if_pos hother, hother]
  · rw [if_neg hother]

@[simp]
theorem state_markQueued (protocols : List String) (connectors : List Address) (jobs : ℕ) :
    (ledger.markQueued token protocols connectors jobs now).state other =
      if other = token then .queued else ledger.state other :=
  state_mutate ledger token other now _

@[simp]
theorem state_markDiscovering :
    (ledger.markDiscovering token now).state other =
      if other = token then .discovering else ledger.state other :=
  state_mutate ledger token other now _

@[simp]
theorem state_markSettled (pools : ℕ) (graphPresent : Bool) :
    (ledger.markSettled token pools graphPresent now).state other =
      if other = token then (if graphPresent then .ready else .empty) else ledger.state other :=
  state_mutate ledger token other now _

@[simp]
theorem state_markFailed (error : String) :
    (ledger.markFailed token error now).state other =
      if other = token then .failed else ledger.state other :=
  state_mutate ledger token other now _

/-- A refresh puts no token in progress. -/
theorem inProgress_of_refreshGraphState {pools : ℕ} {graphPresent : Bool}
    (hprogress :
      ((ledger.refreshGraphState token pools graphPresent now).state other).InProgress) :
    (ledger.state other).InProgress := by
  rw [refreshGraphState, state_mutate] at hprogress
  split at hprogress
  · rename_i hother
    simp only [get_state] at hprogress
    split at hprogress
    · exact hprogress.elim
    · rw [hother]
      exact hprogress
  · exact hprogress

end CoverageLedger

/-- What startup learns of a configured token: the protocols that took its discovery, and
the graph at the moment the runtime was idle. -/
structure ConfiguredToken where
  token : Address
  protocols : List String
  connectors : List Address
  pools : ℕ
  graphPresent : Bool
  settledAt : ℕ

namespace CoverageLedger

/-- `queue_configured_universe`. -/
def queueConfiguredUniverse (tokens : List ConfiguredToken) (ledger : CoverageLedger) :
    CoverageLedger :=
  tokens.foldl
    (fun ledger entry =>
      (ledger.markQueued entry.token entry.protocols entry.connectors entry.protocols.length
        entry.settledAt).markDiscovering entry.token entry.settledAt)
    ledger

/-- `refresh_configured_coverage`. -/
def refreshConfiguredCoverage (tokens : List ConfiguredToken) (ledger : CoverageLedger) :
    CoverageLedger :=
  tokens.foldl
    (fun ledger entry =>
      ledger.markSettled entry.token entry.pools entry.graphPresent entry.settledAt)
    ledger

/-- The ledger of a node that has started. -/
def startup (tokens : List ConfiguredToken) : CoverageLedger :=
  let configured := tokens.foldl
    (fun ledger entry => ledger.markConfigured entry.token entry.settledAt) ⟨fun _ => none⟩
  refreshConfiguredCoverage tokens (queueConfiguredUniverse tokens configured)

/-- Startup touches the configured tokens only. -/
theorem state_queueConfiguredUniverse {tokens : List ConfiguredToken} {token : Address}
    (hnot : ∀ entry ∈ tokens, entry.token ≠ token) (ledger : CoverageLedger) :
    (queueConfiguredUniverse tokens ledger).state token = ledger.state token := by
  induction tokens generalizing ledger with
  | nil => rfl
  | cons entry rest ih =>
      rw [List.forall_mem_cons] at hnot
      have hne : token ≠ entry.token := fun heq => hnot.1 heq.symm
      rw [queueConfiguredUniverse, List.foldl_cons]
      refine (ih hnot.2 _).trans ?_
      simp [hne]

theorem state_markConfigured_foldl (tokens : List ConfiguredToken) (token : Address)
    (ledger : CoverageLedger) :
    (tokens.foldl (fun ledger entry => ledger.markConfigured entry.token entry.settledAt)
      ledger).state token = ledger.state token := by
  induction tokens generalizing ledger with
  | nil => rfl
  | cons entry rest ih =>
      rw [List.foldl_cons, ih, state_markConfigured]

/-- A settled token stays settled while others are settled. -/
theorem not_inProgress_refreshConfiguredCoverage (tokens : List ConfiguredToken)
    {token : Address} {ledger : CoverageLedger}
    (hsettled : (∃ entry ∈ tokens, entry.token = token) ∨ ¬(ledger.state token).InProgress) :
    ¬((refreshConfiguredCoverage tokens ledger).state token).InProgress := by
  induction tokens generalizing ledger with
  | nil =>
      rcases hsettled with ⟨_, hmem, _⟩ | hsettled
      · cases hmem
      · exact hsettled
  | cons entry rest ih =>
      rw [refreshConfiguredCoverage, List.foldl_cons]
      apply ih
      by_cases htoken : token = entry.token
      · right
        rw [state_markSettled, if_pos htoken]
        split <;> exact id
      · rcases hsettled with ⟨found, hmem, hfound⟩ | hsettled
        · rcases List.mem_cons.mp hmem with rfl | hmem
          · exact absurd hfound.symm htoken
          · exact Or.inl ⟨found, hmem, hfound⟩
        · right
          rw [state_markSettled, if_neg htoken]
          exact hsettled

/-- A node starts with no token in progress. -/
theorem not_inProgress_startup (tokens : List ConfiguredToken) (token : Address) :
    ¬((startup tokens).state token).InProgress := by
  apply not_inProgress_refreshConfiguredCoverage
  by_cases hconfigured : ∃ entry ∈ tokens, entry.token = token
  · exact Or.inl hconfigured
  · right
    push Not at hconfigured
    rw [state_queueConfiguredUniverse hconfigured, state_markConfigured_foldl]
    exact id

end CoverageLedger

end AmmSearch
