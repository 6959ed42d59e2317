/-
Nobody strands a token but a waiting call that gives up.  A token in progress is
tended: a call that has marked it is still to settle it, or a task is.  Every step
keeps this, except that of a call whose wait fails on its own path: it returns and
leaves the ledger as it is.
-/
import AmmSearch.TokenPreparation

namespace AmmSearch

namespace PrepareCall

variable {config : PreparationConfig} {ledger : CoverageLedger} {answer : RuntimeAnswer}

/-- A call writes the entry of its own token only. -/
theorem advance_state_of_ne (call : PrepareCall) {other : Address} (hne : other ≠ call.token) :
    (call.advance config ledger answer).1.state other = ledger.state other := by
  obtain ⟨token, options, phase⟩ := call
  have hother : other ≠ token := hne
  cases phase with
  | lockToken => rfl
  | readCoverage =>
      simp only [advance]
      split
      · rfl
      · split <;> rfl
  | checkNegative current =>
      simp only [advance]
      split <;> rfl
  | queue connectors remaining accepted protocols errors =>
      cases remaining with
      | nil =>
          simp only [advance]
          split <;> rfl
      | cons protocol remaining =>
          simp only [advance]
          split <;> rfl
  | fail message => simp [advance, hother]
  | markQueued connectors accepted protocols => simp [advance, hother]
  | markDiscovering => simp [advance, hother]
  | waitIdle =>
      simp only [advance]
      split <;> rfl
  | waitVersion target =>
      simp only [advance]
      split <;> rfl
  | settle pools graphPresent => simp [advance, hother]
  | answer => rfl

/-- After a step of a call its token is not in progress, unless the call goes on working,
leaves a task behind, or has left the ledger as it was, for it was not working or gives
up. -/
theorem advance_inProgress (call : PrepareCall)
    (hprogress : ((call.advance config ledger answer).1.state call.token).InProgress) :
    (∃ phase, (call.advance config ledger answer).2 = .goOn phase ∧
        ({ call with phase := phase } : PrepareCall).Working) ∨
      (call.advance config ledger answer).2 = .spawnSettle ∨
      (call.advance config ledger answer).1 = ledger ∧
        (¬call.Working ∨ call.GivesUp answer) := by
  obtain ⟨token, options, phase⟩ := call
  cases phase with
  | lockToken => exact Or.inr (Or.inr ⟨rfl, Or.inl id⟩)
  | readCoverage =>
      refine Or.inr (Or.inr ⟨?_, Or.inl id⟩)
      simp only [advance]
      split
      · rfl
      · split <;> rfl
  | checkNegative current =>
      refine Or.inr (Or.inr ⟨?_, Or.inl id⟩)
      simp only [advance]
      split <;> rfl
  | queue connectors remaining accepted protocols errors =>
      refine Or.inr (Or.inr ⟨?_, Or.inl id⟩)
      cases remaining with
      | nil =>
          simp only [advance]
          split <;> rfl
      | cons protocol remaining =>
          simp only [advance]
          split <;> rfl
  | fail message =>
      simp only [advance, CoverageLedger.state_markFailed, if_true] at hprogress
      exact hprogress.elim
  | markQueued connectors accepted protocols => exact Or.inl ⟨.markDiscovering, rfl, trivial⟩
  | markDiscovering =>
      cases hwait : options.wait with
      | true => exact Or.inl ⟨.waitIdle, by simp [advance, hwait], trivial⟩
      | false => exact Or.inr (Or.inl (by simp [advance, hwait]))
  | waitIdle =>
      cases hidle : answer.idle with
      | error error =>
          refine Or.inr (Or.inr ⟨by simp [advance, hidle], Or.inr ?_⟩)
          simp [GivesUp, hidle]
      | ok reached =>
          exact Or.inl ⟨.waitVersion answer.latestVersion, by simp [advance, hidle], trivial⟩
  | waitVersion target =>
      cases hversion : answer.versionReached with
      | error error =>
          refine Or.inr (Or.inr ⟨by simp [advance, hversion], Or.inr ?_⟩)
          simp [GivesUp, hversion]
      | ok reached =>
          exact Or.inl ⟨.settle answer.tokenPools answer.tokenPresent,
            by simp [advance, hversion], trivial⟩
  | settle pools graphPresent =>
      simp only [advance, CoverageLedger.state_markSettled, if_true] at hprogress
      split at hprogress <;> exact hprogress.elim
  | answer => exact Or.inr (Or.inr ⟨rfl, Or.inl id⟩)

/-- A call that gives up returns, and the ledger stays as it was. -/
theorem advance_of_givesUp (config : PreparationConfig) (ledger : CoverageLedger)
    {call : PrepareCall} (hgives : call.GivesUp answer) :
    call.phase ≠ .lockToken ∧ (call.advance config ledger answer).1 = ledger ∧
      ∃ result, (call.advance config ledger answer).2 = .finish result := by
  obtain ⟨token, options, phase⟩ := call
  cases phase with
  | waitIdle =>
      cases hidle : answer.idle with
      | error error => exact ⟨nofun, by simp [advance, hidle], _, by simp [advance, hidle]; rfl⟩
      | ok reached => exact absurd hidle hgives
  | waitVersion target =>
      cases hversion : answer.versionReached with
      | error error =>
          exact ⟨nofun, by simp [advance, hversion], _, by simp [advance, hversion]; rfl⟩
      | ok reached => exact absurd hversion hgives
  | _ => exact hgives.elim

end PrepareCall

namespace SettleTask

variable {ledger : CoverageLedger} {answer : RuntimeAnswer}

/-- A task goes on and leaves the ledger alone, or ends and has settled its token. -/
theorem advance_cases (task : SettleTask) :
    (∃ next, task.advance ledger answer = (ledger, some next) ∧ next.token = task.token) ∨
      (task.advance ledger answer).2 = none ∧
        ¬((task.advance ledger answer).1.state task.token).InProgress ∧
        ∀ other, other ≠ task.token →
          (task.advance ledger answer).1.state other = ledger.state other := by
  obtain ⟨token, phase⟩ := task
  cases phase with
  | waitIdle =>
      left
      cases hidle : answer.idle with
      | error error => exact ⟨⟨token, .fail error⟩, by simp [advance, hidle], rfl⟩
      | ok reached =>
          exact ⟨⟨token, .waitVersion answer.latestVersion⟩, by simp [advance, hidle], rfl⟩
  | waitVersion target =>
      left
      cases hversion : answer.versionReached with
      | error error => exact ⟨⟨token, .fail error⟩, by simp [advance, hversion], rfl⟩
      | ok reached =>
          exact ⟨⟨token, .settle answer.tokenPools answer.tokenPresent⟩,
            by simp [advance, hversion], rfl⟩
  | settle pools graphPresent =>
      refine Or.inr ⟨rfl, ?_, ?_⟩
      · simp only [advance, CoverageLedger.state_markSettled, if_true]
        split <;> exact id
      · intro other hne
        simp [advance, hne]
  | fail message =>
      refine Or.inr ⟨rfl, ?_, ?_⟩
      · simp only [advance, CoverageLedger.state_markFailed, if_true]
        exact id
      · intro other hne
        simp [advance, hne]

end SettleTask

namespace PreparingNode

/-- Some call that has marked the token is still to settle it. -/
def AtWork (node : PreparingNode) (token : Address) : Prop :=
  ∃ id call, node.calls id = some call ∧ call.token = token ∧ call.Working

/-- A token in progress has a call or a task that will settle it. -/
def Tended (node : PreparingNode) : Prop :=
  ∀ token, (node.coverage.state token).InProgress → node.Outstanding token ∨ node.AtWork token

variable {config : PreparationConfig} {node next : PreparingNode} {token : Address}

theorem tended_start (tokens : List ConfiguredToken) : (start tokens).Tended := by
  intro token hprogress
  exact absurd hprogress (CoverageLedger.not_inProgress_startup tokens token)

theorem Tended.notStranded (htended : node.Tended) : node.NotStranded := by
  intro token hidle houtstanding hprogress
  rcases htended token hprogress with htask | ⟨id, call, hcall, htoken, _⟩
  · exact houtstanding htask
  · exact hidle id call hcall htoken

/-- A step of a call changes its own place among the calls, and no task is lost. -/
structure Replaces (node next : PreparingNode) (id : ℕ) (replacement : Option PrepareCall) :
    Prop where
  calls : next.calls = Function.update node.calls id replacement
  tasks : ∀ token, node.Outstanding token → next.Outstanding token

namespace Replaces

variable {id : ℕ} {replacement : Option PrepareCall}

/-- A call that was not working may change without loss. -/
theorem atWork (hreplaces : Replaces node next id replacement) (hwork : node.AtWork token)
    (hother : ∀ call, node.calls id = some call → call.token = token → ¬call.Working) :
    next.AtWork token := by
  obtain ⟨found, call, hcall, htoken, hworking⟩ := hwork
  have hne : found ≠ id := by
    intro heq
    rw [heq] at hcall
    exact hother call hcall htoken hworking
  refine ⟨found, call, ?_, htoken, hworking⟩
  rw [hreplaces.calls, Function.update_of_ne hne]
  exact hcall

/-- Tokens stay tended while calls that do not work change. -/
theorem tended (hreplaces : Replaces node next id replacement)
    (htended : node.Outstanding token ∨ node.AtWork token)
    (hother : ∀ call, node.calls id = some call → call.token = token → ¬call.Working) :
    next.Outstanding token ∨ next.AtWork token :=
  htended.imp (hreplaces.tasks token) fun hwork => hreplaces.atWork hwork hother

end Replaces

/-- What one step of a call does to its node. -/
theorem prepareToken_cases {id taskId : ℕ} {call : PrepareCall} {answer : RuntimeAnswer}
    (hstep : node.prepareToken config id answer taskId call = some next) :
    (call.phase = .lockToken ∧ next.coverage = node.coverage ∧
        Replaces node next id (some { call with phase := .readCoverage })) ∨
      call.phase ≠ .lockToken ∧
        next.coverage = (call.advance config node.coverage answer).1 ∧
        ((∃ phase, (call.advance config node.coverage answer).2 = .goOn phase ∧
            Replaces node next id (some { call with phase := phase })) ∨
          ((call.advance config node.coverage answer).2 = .spawnSettle ∧
            Replaces node next id (some { call with phase := .answer }) ∧
            next.Outstanding call.token) ∨
          (∃ result, (call.advance config node.coverage answer).2 = .finish result ∧
            next.tasks = node.tasks ∧ Replaces node next id none)) := by
  by_cases hlock : call.phase = .lockToken
  · left
    unfold prepareToken at hstep
    simp only [hlock] at hstep
    split at hstep
    · cases hstep
    · obtain rfl := Option.some.inj hstep
      exact ⟨hlock, rfl, rfl, fun _ hfound => hfound⟩
  · right
    have hafter : afterPrepare
        { node with coverage := (call.advance config node.coverage answer).1 } id call taskId
        (call.advance config node.coverage answer).2 = some next := by
      unfold prepareToken at hstep
      split at hstep
      · exact absurd ‹_› hlock
      · exact hstep
    cases houtcome : (call.advance config node.coverage answer).2 with
    | goOn phase =>
        rw [houtcome] at hafter
        obtain rfl := Option.some.inj hafter
        exact ⟨hlock, rfl, Or.inl ⟨phase, rfl, rfl, fun _ hfound => hfound⟩⟩
    | spawnSettle =>
        rw [houtcome] at hafter
        simp only [afterPrepare] at hafter
        split at hafter
        · cases hafter
        · rename_i hfree
          obtain rfl := Option.some.inj hafter
          refine ⟨hlock, rfl, Or.inr (Or.inl ⟨rfl, ⟨rfl, ?_⟩, ?_⟩)⟩
          · rintro token ⟨found, task, htask, htoken⟩
            have hne : found ≠ taskId := by
              intro heq
              rw [heq] at htask
              cases htask.symm.trans hfree
            exact ⟨found, task, (Function.update_of_ne hne _ _).trans htask, htoken⟩
          · exact ⟨taskId, ⟨call.token, .waitIdle⟩, Function.update_self _ _ _, rfl⟩
    | finish result =>
        rw [houtcome] at hafter
        obtain rfl := Option.some.inj hafter
        exact ⟨hlock, rfl, Or.inr (Or.inr ⟨result, rfl, rfl, rfl, fun _ hfound => hfound⟩)⟩

/-- A step of a call keeps the tokens tended, if it does not give up on one that nobody
else settles. -/
theorem Tended.prepareToken {id taskId : ℕ} {call : PrepareCall} {answer : RuntimeAnswer}
    (htended : node.Tended) (hcall : node.calls id = some call)
    (hallowed : call.GivesUp answer →
      ¬(node.coverage.state call.token).InProgress ∨ node.Outstanding call.token)
    (hstep : node.prepareToken config id answer taskId call = some next) : next.Tended := by
  intro token hprogress
  have hsame : ∀ found, node.calls id = some found → found = call := by
    intro found hfound
    exact Option.some.inj (hfound.symm.trans hcall)
  rcases prepareToken_cases hstep with ⟨hlock, hcoverage, hreplaces⟩ | ⟨_, hcoverage, houtcome⟩
  · rw [hcoverage] at hprogress
    apply hreplaces.tended (htended token hprogress)
    intro found hfound _ hworking
    rw [hsame found hfound, PrepareCall.Working, hlock] at hworking
    exact hworking
  · rw [hcoverage] at hprogress
    obtain ⟨replacement, hreplaces⟩ : ∃ replacement, Replaces node next id replacement := by
      rcases houtcome with ⟨_, _, hreplaces⟩ | ⟨_, hreplaces, _⟩ | ⟨_, _, _, hreplaces⟩
      · exact ⟨_, hreplaces⟩
      · exact ⟨_, hreplaces⟩
      · exact ⟨_, hreplaces⟩
    by_cases htoken : token = call.token
    · subst htoken
      rcases call.advance_inProgress hprogress with ⟨phase, hgoes, hworking⟩ | hspawns |
        ⟨hledger, hquits⟩
      · rcases houtcome with ⟨found, hfound, hgoesOn⟩ | ⟨hspawns, _⟩ | ⟨_, hfinish, _⟩
        · obtain rfl : phase = found := PrepareStep.goOn.inj (hgoes.symm.trans hfound)
          right
          refine ⟨id, { call with phase := phase }, ?_, rfl, hworking⟩
          rw [hgoesOn.calls, Function.update_self]
        · cases hgoes.symm.trans hspawns
        · cases hgoes.symm.trans hfinish
      · rcases houtcome with ⟨_, hgoes, _⟩ | ⟨_, _, houtstanding⟩ | ⟨_, hfinish, _⟩
        · cases hgoes.symm.trans hspawns
        · exact Or.inl houtstanding
        · cases hspawns.symm.trans hfinish
      · rw [hledger] at hprogress
        rcases hquits with hidle | hgives
        · apply hreplaces.tended (htended call.token hprogress)
          intro found hfound _
          rwa [hsame found hfound]
        · rcases hallowed hgives with hsettled | houtstanding
          · exact absurd hprogress hsettled
          · exact Or.inl (hreplaces.tasks call.token houtstanding)
    · rw [call.advance_state_of_ne htoken] at hprogress
      apply hreplaces.tended (htended token hprogress)
      intro found hfound hsameToken
      rw [hsame found hfound] at hsameToken
      exact absurd hsameToken.symm htoken

/-- A step of a task keeps the tokens tended. -/
theorem Tended.settle {id : ℕ} {answer : RuntimeAnswer} {task : SettleTask}
    (htended : node.Tended) (htask : node.tasks id = some task) :
    (({ node with coverage := (task.advance node.coverage answer).1 } : PreparingNode).setTask id
      (task.advance node.coverage answer).2).Tended := by
  intro token hprogress
  rcases task.advance_cases with ⟨after, hadvance, htoken⟩ | ⟨hends, hsettled, hothers⟩
  · rw [hadvance] at hprogress ⊢
    refine (htended token hprogress).imp ?_ fun hwork => hwork
    rintro ⟨found, other, hother, hotherToken⟩
    by_cases hid : found = id
    · refine ⟨id, after, Function.update_self _ _ _, ?_⟩
      rw [hid, htask] at hother
      obtain rfl := Option.some.inj hother
      rw [htoken, hotherToken]
    · exact ⟨found, other, (Function.update_of_ne hid _ _).trans hother, hotherToken⟩
  · have hne : token ≠ task.token := by
      rintro rfl
      exact hsettled hprogress
    have hbefore : (node.coverage.state token).InProgress := by
      rw [← hothers token hne]
      exact hprogress
    refine (htended token hbefore).imp ?_ fun hwork => hwork
    rintro ⟨found, other, hother, hotherToken⟩
    have hid : found ≠ id := by
      intro heq
      rw [heq, htask] at hother
      obtain rfl := Option.some.inj hother
      exact hne hotherToken.symm
    exact ⟨found, other, (Function.update_of_ne hid _ _).trans hother, hotherToken⟩

/-- Every allowed step keeps the tokens tended. -/
theorem Tended.step {action : NodeAction} (htended : node.Tended) (hallowed : node.Allows action)
    (hstep : node.step config action = some next) : next.Tended := by
  cases action with
  | arrive id token options =>
      rw [PreparingNode.step] at hstep
      split at hstep
      · cases hstep
      · rename_i hfree
        obtain rfl := Option.some.inj hstep
        have hreplaces : Replaces node (node.setCall id (some ⟨token, options, .lockToken⟩)) id
            (some ⟨token, options, .lockToken⟩) := ⟨rfl, fun _ hfound => hfound⟩
        intro other hprogress
        apply hreplaces.tended (htended other hprogress)
        intro call hcall
        cases hfree.symm.trans hcall
  | prepare id answer taskId =>
      obtain ⟨call, hcall, hprepare⟩ := Option.bind_eq_some_iff.mp hstep
      exact htended.prepareToken hcall (hallowed call hcall) hprepare
  | settle id answer =>
      obtain ⟨task, htask, rfl⟩ := Option.map_eq_some_iff.mp hstep
      exact htended.settle htask
  | tokenCoverage token answer =>
      obtain rfl := Option.some.inj hstep
      intro other hprogress
      exact htended other (CoverageLedger.inProgress_of_refreshGraphState _ _ _ _ hprogress)

/-- A step that is not allowed strands the token of a call that is the only one for it. -/
theorem stranded_of_not_allows {id taskId : ℕ} {answer : RuntimeAnswer} {call : PrepareCall}
    (hcall : node.calls id = some call)
    (hstep : node.step config (.prepare id answer taskId) = some next)
    (hrefused : ¬node.Allows (.prepare id answer taskId)) (hidle : next.Idle call.token) :
    ¬next.NotStranded := by
  obtain ⟨found, hfound, hprepare⟩ := Option.bind_eq_some_iff.mp hstep
  obtain rfl := Option.some.inj (hfound.symm.trans hcall)
  have hlost : found.GivesUp answer ∧ (node.coverage.state found.token).InProgress ∧
      ¬node.Outstanding found.token := by
    rw [Allows] at hrefused
    push Not at hrefused
    obtain ⟨other, hother, hgives, hprogress, houtstanding⟩ := hrefused
    obtain rfl := Option.some.inj (hother.symm.trans hcall)
    exact ⟨hgives, hprogress, houtstanding⟩
  obtain ⟨hphase, hledger, result, hfinish⟩ :=
    PrepareCall.advance_of_givesUp config node.coverage hlost.1
  rcases prepareToken_cases hprepare with ⟨hlock, _⟩ | ⟨_, hcoverage, ⟨_, hgoes, _⟩ |
    ⟨hspawns, _⟩ | ⟨_, _, htasks, _⟩⟩
  · exact absurd hlock hphase
  · cases hgoes.symm.trans hfinish
  · cases hspawns.symm.trans hfinish
  · intro hkept
    apply hkept found.token hidle
    · rintro ⟨task, hmem⟩
      rw [htasks] at hmem
      exact hlost.2.2 ⟨task, hmem⟩
    · rw [hcoverage, hledger]
      exact hlost.2.1

/-- The waits of a call that takes this step succeed. -/
def WaitSucceeds : NodeAction → Prop
  | .prepare _ answer _ => answer.idle = .ok () ∧ answer.versionReached = .ok ()
  | _ => True

theorem allows_of_waitSucceeds {action : NodeAction} (hsucceeds : WaitSucceeds action) :
    node.Allows action := by
  cases action with
  | prepare id answer taskId =>
      intro call hcall hgives
      unfold PrepareCall.GivesUp at hgives
      split at hgives
      · exact absurd hsucceeds.1 hgives
      · exact absurd hsucceeds.2 hgives
      · exact hgives.elim
  | _ => trivial

/-- Runs whose calls wait with success, whatever their tasks meet. -/
theorem along_of_waitSucceeds {actions : List NodeAction}
    (hsucceed : ∀ action ∈ actions, WaitSucceeds action) :
    Transitions.Along (step config) Allows node actions := by
  induction actions generalizing node with
  | nil => trivial
  | cons action rest ih =>
      rw [List.forall_mem_cons] at hsucceed
      exact ⟨allows_of_waitSucceeds hsucceed.1, fun _ _ => ih hsucceed.2⟩

/-- No token is stranded in a run in which no waiting call gives up on a token that
nobody else settles; and such a step, of the only call for its token, strands it. -/
theorem preparation_not_stranded (config : PreparationConfig) (tokens : List ConfiguredToken) :
    (∀ actions final, Transitions.run (step config) (start tokens) actions = some final →
      Transitions.Along (step config) Allows (start tokens) actions → final.NotStranded) ∧
      ∀ node next id answer task call, node.calls id = some call →
        step config node (.prepare id answer task) = some next →
        ¬node.Allows (.prepare id answer task) → next.Idle call.token → ¬next.NotStranded := by
  constructor
  · intro actions final hrun halong
    apply Tended.notStranded
    exact halong.preserves (fun htended hallowed hstep => htended.step hallowed hstep) hrun
      (tended_start tokens)
  · intro node next id answer task call hcall hstep hrefused hidle
    exact stranded_of_not_allows hcall hstep hrefused hidle

end PreparingNode

namespace PreparationExample

open PreparingNode

def config : PreparationConfig := ⟨.ok [7], [.uniswapV2], 0⟩

def answer : RuntimeAnswer := ⟨0, .ok (), .ok (), 1, .ok (), 1, true⟩

/-- The runtime closes while a call waits for it. -/
def closed : RuntimeAnswer :=
  { answer with idle := .error "AMM runtime closed while waiting for discovery" }

/-- A call for the token 5, up to its first wait. -/
def upToWait (wait : Bool) : List NodeAction :=
  .arrive 0 5 ⟨[], [], false, wait⟩ :: List.replicate 7 (.prepare 0 answer 0)

/-- A call that leaves a task behind, and the task, which finds the runtime closed. -/
theorem preparation_not_stranded_failing_task :
    ∃ final, Transitions.run (step config) (start [])
        (upToWait false ++ [.prepare 0 answer 1, .settle 0 closed, .settle 0 closed]) =
          some final ∧
      final.coverage.state 5 = .failed ∧ final.NotStranded := by
  obtain ⟨final, hrun, hfailed⟩ : ∃ final, Transitions.run (step config) (start [])
      (upToWait false ++ [.prepare 0 answer 1, .settle 0 closed, .settle 0 closed]) =
        some final ∧ final.coverage.state 5 = .failed := ⟨_, rfl, rfl⟩
  refine ⟨final, hrun, hfailed, (preparation_not_stranded config []).1 _ final hrun ?_⟩
  apply along_of_waitSucceeds
  simp [upToWait, WaitSucceeds, answer]

/-- A waiting call that finds the runtime closed. -/
theorem preparation_stranded_waiting_call :
    ∃ actions final, Transitions.run (step config) (start []) actions = some final ∧
      ¬final.NotStranded := by
  refine ⟨upToWait true ++ [.prepare 0 closed 0], _, rfl, fun hkept => hkept 5 ?_ ?_ ?_⟩
  · intro id call hcall
    cases id <;> cases hcall
  · rintro ⟨id, task, htask, _⟩
    cases htask
  · exact trivial

end PreparationExample

end AmmSearch
