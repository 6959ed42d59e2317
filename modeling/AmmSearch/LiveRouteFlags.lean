/-
The cancellation flags of the live route actor.  Every job has a flag of its
own, which is neither that of a subscription nor that of another job, so raising
one cancels nothing else.
-/
import AmmSearch.LiveRouteTurns

open FiniteMap StableGraph

namespace AmmSearch

variable {G : Type}

namespace CancellationTokens

variable {tokens : CancellationTokens} {token : RouteCancellationToken} {flag : ℕ}
  {active : Option ActiveRouteJob}

theorem isCancelled_iff : tokens.isCancelled token = true ↔ token.flag ∈ tokens.raised := by
  simp [isCancelled]

theorem isCancelled_eq_false_iff :
    tokens.isCancelled token = false ↔ token.flag ∉ tokens.raised := by
  simp [isCancelled]

theorem mem_cancel_iff :
    flag ∈ (tokens.cancel token).raised ↔ flag = token.flag ∨ flag ∈ tokens.raised := by
  simp [cancel, request]

theorem next_cancelActive : (tokens.cancelActive active).next = tokens.next := by
  cases active <;> rfl

theorem mem_cancelActive_iff :
    flag ∈ (tokens.cancelActive active).raised ↔
      (∃ job, active = some job ∧ flag = job.cancellation.flag) ∨ flag ∈ tokens.raised := by
  cases active with
  | none => simp [cancelActive]
  | some job => simp [cancelActive, mem_cancel_iff]

end CancellationTokens

namespace LiveRouteActor

/-- A flag that exists and is not the one of a job. -/
def Apart (actor : LiveRouteActor G) (flag : ℕ) : Prop :=
  flag < actor.tokens.next ∧ ∀ job ∈ actor.submitted, job.cancellation.flag ≠ flag

structure Flags (actor : LiveRouteActor G) : Prop where
  raised : ∀ flag ∈ actor.tokens.raised, flag < actor.tokens.next
  jobs : ∀ job ∈ actor.submitted, job.cancellation.flag < actor.tokens.next
  distinct : ∀ first ∈ actor.submitted, ∀ second ∈ actor.submitted,
    first.cancellation.flag = second.cancellation.flag → first = second
  entries : ∀ id entry, actor.entries.lookup id = some entry →
    actor.Apart entry.cancellation.flag
  active : ∀ id entry job, actor.entries.lookup id = some entry → entry.active = some job →
    job.cancellation.flag < actor.tokens.next

variable {before after : LiveRouteActor G} {id : RouteSubscriptionId} {old entry : RouteEntry G}
  {shown : Option RouteSubscriptionState} {job : RouteWorkerJob G} {next flag : ℕ}

/-- No job is added, and no flag but those that exist is raised. -/
theorem Flags.quiet (hflags : before.Flags)
    (hraised : ∀ flag ∈ after.tokens.raised, flag < before.tokens.next)
    (hnext : before.tokens.next ≤ after.tokens.next)
    (hsubmitted : after.submitted = before.submitted)
    (hentries : ∀ id entry, after.entries.lookup id = some entry →
      ∃ old, before.entries.lookup id = some old ∧ entry.cancellation = old.cancellation ∧
        (entry.active = old.active ∨ entry.active = none)) : after.Flags := by
  refine ⟨?_, ?_, ?_, ?_, ?_⟩
  · intro flag hflag
    exact (hraised flag hflag).trans_le hnext
  · rw [hsubmitted]
    intro job hjob
    exact (hflags.jobs job hjob).trans_le hnext
  · rw [hsubmitted]
    exact hflags.distinct
  · intro id entry hentry
    obtain ⟨old, hold, hsame, _⟩ := hentries id entry hentry
    obtain ⟨hlt, hapart⟩ := hflags.entries id old hold
    rw [hsame]
    exact ⟨hlt.trans_le hnext, by rw [hsubmitted]; exact hapart⟩
  · intro id entry job hentry hactive
    obtain ⟨old, hold, _, hrunning | hnone⟩ := hentries id entry hentry
    · exact (hflags.active id old job hold (hrunning ▸ hactive)).trans_le hnext
    · rw [hnone] at hactive
      cases hactive

/-- The flags of a cancelled job exist. -/
theorem Flags.cancelActive_lt (hflags : before.Flags)
    (hfound : before.entries.lookup id = some old)
    (hflag : flag ∈ (before.tokens.cancelActive old.active).raised) :
    flag < before.tokens.next := by
  rcases CancellationTokens.mem_cancelActive_iff.mp hflag with ⟨job, hactive, rfl⟩ | hraised
  · exact hflags.active id old job hfound hactive
  · exact hflags.raised flag hraised

theorem Flags.leaves (hflags : before.Flags)
    (hleaves : before.Leaves after id old entry shown [])
    (htokens : after.tokens = before.tokens.cancelActive old.active ∨
      after.tokens = before.tokens)
    (hcancellation : entry.cancellation = old.cancellation)
    (hactive : entry.active = old.active ∨ entry.active = none) : after.Flags := by
  refine hflags.quiet ?_ ?_ (hleaves.submitted.trans (List.append_nil _)) ?_
  · intro flag hflag
    rcases htokens with hcancelled | hsame
    · rw [hcancelled] at hflag
      exact hflags.cancelActive_lt hleaves.found hflag
    · rw [hsame] at hflag
      exact hflags.raised flag hflag
  · rcases htokens with hcancelled | hsame
    · rw [hcancelled, CancellationTokens.next_cancelActive]
    · rw [hsame]
  · intro other found hfound
    rcases hleaves.entry_cases hfound with ⟨rfl, rfl⟩ | ⟨_, hold⟩
    · exact ⟨old, hleaves.found, hcancellation, hactive⟩
    · exact ⟨found, hold, rfl, Or.inl rfl⟩

/-- The job that is added has a new flag. -/
theorem Flags.submit (hflags : before.Flags) (hfound : before.entries.lookup id = some entry)
    (hprepared : before.Prepared id entry job next) :
    (before.submit id entry job next).Flags := by
  have hleaves := leaves_submit hfound job next
  have htokens : (before.submit id entry job next).tokens = (before.tokens.allocate none).2 :=
    submit_tokens job next
  have hflag : job.cancellation.flag = before.tokens.next := by rw [hprepared.cancellation]
  have hnext : (before.submit id entry job next).tokens.next = before.tokens.next + 1 := by
    rw [htokens]
    rfl
  refine ⟨?_, ?_, ?_, ?_, ?_⟩
  · intro flag hraised
    rw [htokens] at hraised
    rw [hnext]
    exact (hflags.raised flag hraised).trans (Nat.lt_succ_self _)
  · rw [hleaves.submitted, hnext]
    intro other hother
    rcases List.mem_append.mp hother with hold | hnew
    · exact (hflags.jobs other hold).trans (Nat.lt_succ_self _)
    · rw [List.mem_singleton.mp hnew, hflag]
      exact Nat.lt_succ_self _
  · rw [hleaves.submitted]
    intro first hfirst second hsecond heq
    rcases List.mem_append.mp hfirst with hfirst | hfirst
    · rcases List.mem_append.mp hsecond with hsecond | hsecond
      · exact hflags.distinct first hfirst second hsecond heq
      · rw [List.mem_singleton.mp hsecond, hflag] at heq
        exact absurd heq (hflags.jobs first hfirst).ne
    · rw [List.mem_singleton.mp hfirst] at heq ⊢
      rcases List.mem_append.mp hsecond with hsecond | hsecond
      · rw [hflag] at heq
        exact absurd heq.symm (hflags.jobs second hsecond).ne
      · exact (List.mem_singleton.mp hsecond).symm
  · intro other found hafter
    have hold : ∃ old, before.entries.lookup other = some old ∧
        found.cancellation = old.cancellation := by
      rcases hleaves.entry_cases hafter with ⟨rfl, rfl⟩ | ⟨_, hbefore⟩
      · exact ⟨entry, hfound, rfl⟩
      · exact ⟨found, hbefore, rfl⟩
    obtain ⟨old, hbefore, hsame⟩ := hold
    obtain ⟨hlt, hapart⟩ := hflags.entries other old hbefore
    rw [hsame]
    refine ⟨by rw [hnext]; exact hlt.trans (Nat.lt_succ_self _), ?_⟩
    rw [hleaves.submitted]
    intro added hadded
    rcases List.mem_append.mp hadded with hadded | hadded
    · exact hapart added hadded
    · rw [List.mem_singleton.mp hadded, hflag]
      exact hlt.ne'
  · intro other found active hafter hactive
    rw [hnext]
    rcases hleaves.entry_cases hafter with ⟨_, rfl⟩ | ⟨_, hbefore⟩
    · obtain rfl := Option.some.inj hactive
      rw [hflag]
      exact Nat.lt_succ_self _
    · exact (hflags.active other found active hbefore hactive).trans (Nat.lt_succ_self _)

theorem Flags.removes {state : RouteSubscriptionState} (hflags : before.Flags)
    (hremoves : before.Removes after id old state) : after.Flags := by
  refine hflags.quiet ?_ ?_ hremoves.submitted ?_
  · intro flag hflag
    rw [hremoves.tokens] at hflag
    rcases CancellationTokens.mem_cancelActive_iff.mp hflag with ⟨job, hactive, rfl⟩ | hrest
    · exact hflags.active id old job hremoves.found hactive
    · rcases CancellationTokens.mem_cancel_iff.mp hrest with rfl | hraised
      · exact (hflags.entries id old hremoves.found).1
      · exact hflags.raised flag hraised
  · rw [hremoves.tokens, CancellationTokens.next_cancelActive]
    exact le_rfl
  · intro other found hfound
    rw [hremoves.lookup] at hfound
    split at hfound
    · cases hfound
    · exact ⟨found, hfound, rfl, Or.inl rfl⟩

/-- The flag of a new subscription is new. -/
theorem Flags.accepts {spec : RouteSubscriptionSpec} (hflags : before.Flags)
    (haccepts : before.Accepts after spec) : after.Flags := by
  have hnext : after.tokens.next = before.tokens.next + 1 := by rw [haccepts.tokens]
  have hraised : after.tokens.raised = before.tokens.raised := by rw [haccepts.tokens]
  refine ⟨?_, ?_, ?_, ?_, ?_⟩
  · rw [hraised, hnext]
    intro flag hflag
    exact (hflags.raised flag hflag).trans (Nat.lt_succ_self _)
  · rw [haccepts.submitted, hnext]
    intro job hjob
    exact (hflags.jobs job hjob).trans (Nat.lt_succ_self _)
  · rw [haccepts.submitted]
    exact hflags.distinct
  · intro other found hfound
    rw [haccepts.lookup] at hfound
    unfold Apart
    rw [haccepts.submitted, hnext]
    split at hfound
    · cases hfound
      exact ⟨Nat.lt_succ_self _, fun job hjob => (hflags.jobs job hjob).ne⟩
    · obtain ⟨hlt, hapart⟩ := hflags.entries other found hfound
      exact ⟨hlt.trans (Nat.lt_succ_self _), hapart⟩
  · intro other found job hfound hactive
    rw [haccepts.lookup] at hfound
    rw [hnext]
    split at hfound
    · cases hfound
      cases hactive
    · exact (hflags.active other found job hfound hactive).trans (Nat.lt_succ_self _)

theorem Flags.handles (hflags : before.Flags) (hhandles : before.Handles after) :
    after.Flags := by
  cases hhandles with
  | quiet same =>
      refine hflags.quiet ?_ same.next same.submitted ?_
      · rw [same.raised]
        exact hflags.raised
      · intro id entry hentry
        rw [same.entries] at hentry
        exact ⟨entry, hentry, rfl, Or.inl rfl⟩
  | advance newer version =>
      exact hflags.quiet hflags.raised le_rfl rfl
        fun id entry hentry => ⟨entry, hentry, rfl, Or.inl rfl⟩
  | invalidate found =>
      exact hflags.leaves (leaves_invalidate found) (Or.inl (invalidate_tokens found)) rfl
        (Or.inl rfl)
  | replace leaves tokens => exact hflags.leaves leaves (Or.inl tokens) rfl (Or.inl rfl)
  | submit found waits prepared => exact hflags.submit found prepared
  | remove removes terminal => exact hflags.removes removes
  | accept accepts => exact hflags.accepts accepts

theorem Flags.message (hflags : before.Flags) (message : RouteWorkerMessage) :
    (before.handleWorkerMessage message).Flags := by
  cases message with
  | event stamp event =>
      rcases handleEvent_cases before stamp event with
        hsame | ⟨entry, active, _, _, hleaves, htokens, _⟩
      · rw [handleWorkerMessage, hsame]
        exact hflags
      · exact hflags.leaves hleaves (Or.inr htokens) rfl (Or.inl rfl)
  | completed stamp result =>
      rcases handleCompleted_cases before stamp result with
        ⟨hsame, _⟩ | ⟨entry, active, _, htokens, ⟨hleaves, _⟩ | ⟨_, hleaves, _⟩⟩
      · rw [handleWorkerMessage, hsame]
        exact hflags
      · exact hflags.leaves hleaves (Or.inr htokens) rfl (Or.inr rfl)
      · exact hflags.leaves hleaves (Or.inr htokens) rfl (Or.inr rfl)

/-- A flag that is not the one of a job stays so. -/
theorem Apart.later (hapart : before.Apart flag) (hnext : before.tokens.next ≤ after.tokens.next)
    (hsubmitted : after.submitted = before.submitted) : after.Apart flag :=
  ⟨hapart.1.trans_le hnext, by rw [hsubmitted]; exact hapart.2⟩

theorem Apart.leaves (hapart : before.Apart flag)
    (hleaves : before.Leaves after id old entry shown [])
    (hnext : after.tokens.next = before.tokens.next) : after.Apart flag :=
  hapart.later hnext.ge (hleaves.submitted.trans (List.append_nil _))

theorem Apart.handles (hapart : before.Apart flag) (hhandles : before.Handles after) :
    after.Apart flag := by
  cases hhandles with
  | quiet same => exact hapart.later same.next same.submitted
  | advance newer version => exact hapart.later le_rfl rfl
  | invalidate found =>
      exact hapart.leaves (leaves_invalidate found)
        (by rw [invalidate_tokens found, CancellationTokens.next_cancelActive])
  | replace leaves tokens =>
      exact hapart.leaves leaves (by rw [tokens, CancellationTokens.next_cancelActive])
  | submit found waits prepared =>
      rename_i id entry job next
      have hnext : (before.submit id entry job next).tokens.next = before.tokens.next + 1 := by
        rw [submit_tokens]
        rfl
      refine ⟨by rw [hnext]; exact hapart.1.trans (Nat.lt_succ_self _), ?_⟩
      rw [(leaves_submit found job next).submitted]
      intro added hadded
      rcases List.mem_append.mp hadded with hold | hnew
      · exact hapart.2 added hold
      · rw [List.mem_singleton.mp hnew, prepared.cancellation]
        exact hapart.1.ne'
  | remove removes terminal =>
      refine hapart.later ?_ removes.submitted
      rw [removes.tokens, CancellationTokens.next_cancelActive]
      exact le_rfl
  | accept accepts =>
      refine hapart.later ?_ accepts.submitted
      rw [accepts.tokens]
      exact Nat.le_succ _

theorem Apart.message (hapart : before.Apart flag) (message : RouteWorkerMessage) :
    (before.handleWorkerMessage message).Apart flag := by
  cases message with
  | event stamp event =>
      rcases handleEvent_cases before stamp event with
        hsame | ⟨_, _, _, _, hleaves, htokens, _⟩
      · rw [handleWorkerMessage, hsame]
        exact hapart
      · exact hapart.leaves hleaves (by rw [handleWorkerMessage, htokens])
  | completed stamp result =>
      rcases handleCompleted_cases before stamp result with
        ⟨hsame, _⟩ | ⟨_, _, _, htokens, ⟨hleaves, _⟩ | ⟨_, hleaves, _⟩⟩
      · rw [handleWorkerMessage, hsame]
        exact hapart
      · exact hapart.leaves hleaves (by rw [handleWorkerMessage, htokens])
      · exact hapart.leaves hleaves (by rw [handleWorkerMessage, htokens])

end LiveRouteActor

end AmmSearch
