/-
The publications of the live route actor over a whole run.  They are numbered
in order, those of one subscription never go back, and none follows a terminal
one; neither a subscription nor a job ever gets the name of an earlier one.
-/
import AmmSearch.LiveRouteTurns

open FiniteMap StableGraph

namespace AmmSearch

variable {G : Type}

/-- The source of a state is the provenance of the view beside it. -/
def RouteSubscriptionSnapshot.Coherent (snapshot : RouteSubscriptionSnapshot G) : Prop :=
  ∀ source, snapshot.state.source = some source → source = .fromView snapshot.view

/-- No work is left for a subscription in this state. -/
def RouteSubscriptionState.isTerminal : RouteSubscriptionState → Bool
  | cancelled | closed | runtimeFailed _ => true
  | _ => false

theorem RouteSubscriptionState.isTerminal_of_source {state : RouteSubscriptionState}
    (hsource : state.source.isSome = true) : state.isTerminal = false := by
  cases state with
  | cancelled => cases hsource
  | closed => cases hsource
  | runtimeFailed failure => cases hsource
  | _ => rfl

/-- One publication comes before another one. -/
structure RouteSubscriptionSnapshot.Precedes (first second : RouteSubscriptionSnapshot G) :
    Prop where
  le : first.sequence ≤ second.sequence
  lt : first.sequence < u64Max → first.sequence < second.sequence
  epoch : first.id = second.id → first.epoch ≤ second.epoch
  version : first.view.snapshot.version ≤ second.view.snapshot.version
  open_of_id : first.id = second.id → first.state.source.isSome = true

/-- The subscription and the number of a job. -/
def RouteWorkerJob.key (job : RouteWorkerJob G) : RouteSubscriptionId × RouteSearchJobId :=
  (job.stamp.subscription, job.stamp.job)

namespace LiveRouteActor

/-- The publications of an actor, against its present state. -/
structure Recorded (actor : LiveRouteActor G) : Prop where
  entries : ∀ id entry, actor.entries.lookup id = some entry → id < actor.nextSubscription
  ids : ∀ snapshot ∈ actor.published, snapshot.id < actor.nextSubscription
  sequences : ∀ snapshot ∈ actor.published, snapshot.sequence ≤ actor.sequence ∧
    (snapshot.sequence < u64Max → snapshot.sequence < actor.sequence)
  versions : ∀ snapshot ∈ actor.published,
    snapshot.view.snapshot.version ≤ actor.view.snapshot.version
  earlier : ∀ snapshot ∈ actor.published, ∀ entry,
    actor.entries.lookup snapshot.id = some entry →
      snapshot.epoch ≤ entry.epoch ∧ snapshot.state.source.isSome = true
  coherent : ∀ snapshot ∈ actor.published, snapshot.Coherent
  ordered : actor.published.Pairwise RouteSubscriptionSnapshot.Precedes

/-- The jobs of an actor, against the counters that number them. -/
structure Numbered (actor : LiveRouteActor G) : Prop where
  subscriptions : ∀ job ∈ actor.submitted, job.stamp.subscription < actor.nextSubscription
  jobs : ∀ job ∈ actor.submitted, ∀ entry,
    actor.entries.lookup job.stamp.subscription = some entry → job.stamp.job < entry.nextJob
  distinct : (actor.submitted.map RouteWorkerJob.key).Nodup

variable {actor before after : LiveRouteActor G} {id epoch : ℕ} {old entry : RouteEntry G}
  {state : RouteSubscriptionState} {shown : Option RouteSubscriptionState}
  {added : List (RouteWorkerJob G)}

section Recorded

/-- The next publication of an entry comes after those from before. -/
theorem Recorded.precedes_next (hrecorded : before.Recorded)
    (hearlier : ∀ snapshot ∈ before.published, snapshot.id = id →
      snapshot.epoch ≤ epoch ∧ snapshot.state.source.isSome = true)
    (state : RouteSubscriptionState) :
    ∀ snapshot ∈ before.published, snapshot.Precedes (before.nextSnapshot id epoch state) := by
  intro snapshot hsnapshot
  obtain ⟨hle, hlt⟩ := hrecorded.sequences snapshot hsnapshot
  exact ⟨hle, hlt, fun hid => (hearlier snapshot hsnapshot hid).1,
    hrecorded.versions snapshot hsnapshot, fun hid => (hearlier snapshot hsnapshot hid).2⟩

/-- Publications stay below the counter when it is advanced. -/
theorem Recorded.sequences_next (hrecorded : before.Recorded) {sequence : ℕ}
    (hsequence : saturatingNext before.sequence ≤ sequence)
    {snapshot : RouteSubscriptionSnapshot G}
    (hsnapshot : snapshot ∈ before.published ++ [before.nextSnapshot id epoch state]) :
    snapshot.sequence ≤ sequence ∧
      (snapshot.sequence < u64Max → snapshot.sequence < sequence) := by
  rcases List.mem_append.mp hsnapshot with hold | hnew
  · obtain ⟨hle, hlt⟩ := hrecorded.sequences snapshot hold
    have hnext := (le_saturatingNext before.sequence).trans hsequence
    exact ⟨hle.trans hnext, fun hbound => (hlt hbound).trans_le hnext⟩
  · rw [List.mem_singleton.mp hnew]
    refine ⟨(le_saturatingNext before.sequence).trans hsequence, fun hbound => ?_⟩
    exact (lt_saturatingNext le_rfl hbound).trans_le hsequence

/-- One publication is added.  Afterwards the entry of its subscription is not
older than it, or there is none. -/
theorem Recorded.append (hrecorded : before.Recorded)
    (hpublished : after.published = before.published ++ [before.nextSnapshot id epoch state])
    (hsequence : saturatingNext before.sequence ≤ after.sequence)
    (hview : after.view = before.view)
    (hcoherent : ∀ source, state.source = some source → source = before.current)
    (hearlier : ∀ snapshot ∈ before.published, snapshot.id = id →
      snapshot.epoch ≤ epoch ∧ snapshot.state.source.isSome = true)
    (hnext : before.nextSubscription ≤ after.nextSubscription)
    (hid : id < after.nextSubscription)
    (hself : ∀ entry, after.entries.lookup id = some entry →
      epoch ≤ entry.epoch ∧ state.source.isSome = true)
    (hothers : ∀ other, other ≠ id → after.entries.lookup other = before.entries.lookup other) :
    after.Recorded := by
  refine ⟨?_, ?_, ?_, ?_, ?_, ?_, ?_⟩
  · intro other entry hentry
    by_cases hother : other = id
    · rw [hother]
      exact hid
    · rw [hothers other hother] at hentry
      exact (hrecorded.entries other entry hentry).trans_le hnext
  · rw [hpublished]
    intro snapshot hsnapshot
    rcases List.mem_append.mp hsnapshot with hold | hnew
    · exact (hrecorded.ids snapshot hold).trans_le hnext
    · rw [List.mem_singleton.mp hnew]
      exact hid
  · rw [hpublished]
    intro snapshot hsnapshot
    exact hrecorded.sequences_next hsequence hsnapshot
  · rw [hpublished, hview]
    intro snapshot hsnapshot
    rcases List.mem_append.mp hsnapshot with hold | hnew
    · exact hrecorded.versions snapshot hold
    · rw [List.mem_singleton.mp hnew]
      exact le_rfl
  · rw [hpublished]
    intro snapshot hsnapshot entry hentry
    by_cases hsame : snapshot.id = id
    · rw [hsame] at hentry
      obtain ⟨hepoch, hopen⟩ := hself entry hentry
      rcases List.mem_append.mp hsnapshot with hold | hnew
      · obtain ⟨hle, hsource⟩ := hearlier snapshot hold hsame
        exact ⟨hle.trans hepoch, hsource⟩
      · rw [List.mem_singleton.mp hnew]
        exact ⟨hepoch, hopen⟩
    · rcases List.mem_append.mp hsnapshot with hold | hnew
      · rw [hothers _ hsame] at hentry
        exact hrecorded.earlier snapshot hold entry hentry
      · rw [List.mem_singleton.mp hnew] at hsame
        exact absurd rfl hsame
  · rw [hpublished]
    intro snapshot hsnapshot
    rcases List.mem_append.mp hsnapshot with hold | hnew
    · exact hrecorded.coherent snapshot hold
    · rw [List.mem_singleton.mp hnew]
      exact hcoherent
  · rw [hpublished, List.pairwise_append]
    refine ⟨hrecorded.ordered, List.pairwise_singleton _ _, ?_⟩
    intro snapshot hsnapshot last hlast
    rw [List.mem_singleton.mp hlast]
    exact hrecorded.precedes_next hearlier state snapshot hsnapshot

/-- Nothing is published, and no entry is older than before. -/
theorem Recorded.quiet (hrecorded : before.Recorded)
    (hpublished : after.published = before.published)
    (hsequence : before.sequence ≤ after.sequence)
    (hversion : before.view.snapshot.version ≤ after.view.snapshot.version)
    (hnext : after.nextSubscription = before.nextSubscription)
    (hentries : ∀ id entry, after.entries.lookup id = some entry →
      ∃ old, before.entries.lookup id = some old ∧ old.epoch ≤ entry.epoch) :
    after.Recorded := by
  refine ⟨?_, ?_, ?_, ?_, ?_, ?_, ?_⟩
  · intro id entry hentry
    obtain ⟨old, hold, _⟩ := hentries id entry hentry
    rw [hnext]
    exact hrecorded.entries id old hold
  · rw [hpublished, hnext]
    exact hrecorded.ids
  · rw [hpublished]
    intro snapshot hsnapshot
    obtain ⟨hle, hlt⟩ := hrecorded.sequences snapshot hsnapshot
    exact ⟨hle.trans hsequence, fun hbound => (hlt hbound).trans_le hsequence⟩
  · rw [hpublished]
    intro snapshot hsnapshot
    exact (hrecorded.versions snapshot hsnapshot).trans hversion
  · rw [hpublished]
    intro snapshot hsnapshot entry hentry
    obtain ⟨old, hold, hepoch⟩ := hentries _ entry hentry
    obtain ⟨hle, hopen⟩ := hrecorded.earlier snapshot hsnapshot old hold
    exact ⟨hle.trans hepoch, hopen⟩
  · rw [hpublished]
    exact hrecorded.coherent
  · rw [hpublished]
    exact hrecorded.ordered

/-- A handler of one entry publishes a state with the current source. -/
theorem Recorded.leaves (hrecorded : before.Recorded)
    (hleaves : before.Leaves after id old entry shown added) (hepoch : old.epoch ≤ entry.epoch)
    (hshown : ∀ state, shown = some state → state.source = some before.current) :
    after.Recorded := by
  cases shown with
  | none =>
      refine hrecorded.quiet (hleaves.published.trans (List.append_nil _)) hleaves.sequence
        (by rw [hleaves.view]) hleaves.nextSubscription ?_
      intro other found hfound
      rcases hleaves.entry_cases hfound with ⟨rfl, rfl⟩ | ⟨_, hold⟩
      · exact ⟨old, hleaves.found, hepoch⟩
      · exact ⟨found, hold, le_rfl⟩
  | some state =>
      have hsource := hshown state rfl
      refine hrecorded.append hleaves.published hleaves.sequence hleaves.view ?_ ?_
        hleaves.nextSubscription.ge ?_ ?_ ?_
      · intro source hstate
        exact Option.some.inj (hstate.symm.trans hsource)
      · intro snapshot hsnapshot hid
        obtain ⟨hle, hopen⟩ := hrecorded.earlier snapshot hsnapshot old
          (by rw [hid]; exact hleaves.found)
        exact ⟨hle.trans hepoch, hopen⟩
      · rw [hleaves.nextSubscription]
        exact hrecorded.entries id old hleaves.found
      · intro found hfound
        obtain rfl : entry = found := Option.some.inj (hleaves.lookup_self.symm.trans hfound)
        exact ⟨le_rfl, by rw [hsource]; rfl⟩
      · intro other hother
        rw [hleaves.lookup, if_neg hother]

theorem Recorded.removes (hrecorded : before.Recorded)
    (hremoves : before.Removes after id old state) (hterminal : state.source = none) :
    after.Recorded := by
  have hnext : after.nextSubscription = before.nextSubscription :=
    congrArg ActorFrame.nextSubscription hremoves.frame
  refine hrecorded.append hremoves.published hremoves.sequence hremoves.view ?_ ?_ hnext.ge ?_
    ?_ ?_
  · intro source hstate
    cases hstate.symm.trans hterminal
  · intro snapshot hsnapshot hid
    exact hrecorded.earlier snapshot hsnapshot old (by rw [hid]; exact hremoves.found)
  · rw [hnext]
    exact hrecorded.entries id old hremoves.found
  · intro found hfound
    rw [hremoves.lookup, if_pos rfl] at hfound
    cases hfound
  · intro other hother
    rw [hremoves.lookup, if_neg hother]

theorem Recorded.accepts {spec : RouteSubscriptionSpec} (hrecorded : before.Recorded)
    (haccepts : before.Accepts after spec) : after.Recorded := by
  have hnew : before.nextSubscription < after.nextSubscription := by
    rw [haccepts.nextSubscription]
    exact Nat.lt_succ_self _
  refine hrecorded.append haccepts.published haccepts.sequence haccepts.view ?_ ?_ hnew.le hnew
    ?_ ?_
  · intro source hstate
    exact (Option.some.inj hstate).symm
  · intro snapshot hsnapshot hid
    exact absurd hid (hrecorded.ids snapshot hsnapshot).ne
  · intro found hfound
    rw [haccepts.lookup, if_pos rfl] at hfound
    cases hfound
    exact ⟨le_rfl, rfl⟩
  · intro other hother
    rw [haccepts.lookup, if_neg hother]

end Recorded

section Numbered

/-- No job is added, and no counter goes back. -/
theorem Numbered.quiet (hnumbered : before.Numbered)
    (hsubmitted : after.submitted = before.submitted)
    (hnext : before.nextSubscription ≤ after.nextSubscription)
    (hentries : ∀ id entry, after.entries.lookup id = some entry →
      (∃ old, before.entries.lookup id = some old ∧ old.nextJob ≤ entry.nextJob) ∨
        before.nextSubscription ≤ id) : after.Numbered := by
  refine ⟨?_, ?_, ?_⟩
  · rw [hsubmitted]
    intro job hjob
    exact (hnumbered.subscriptions job hjob).trans_le hnext
  · rw [hsubmitted]
    intro job hjob entry hentry
    rcases hentries _ entry hentry with ⟨old, hold, hle⟩ | hnew
    · exact (hnumbered.jobs job hjob old hold).trans_le hle
    · exact absurd (hnumbered.subscriptions job hjob) (not_lt.mpr hnew)
  · rw [hsubmitted]
    exact hnumbered.distinct

/-- A handler that adds no job. -/
theorem Numbered.leaves (hnumbered : before.Numbered)
    (hleaves : before.Leaves after id old entry shown []) (hjob : old.nextJob ≤ entry.nextJob) :
    after.Numbered := by
  refine hnumbered.quiet (hleaves.submitted.trans (List.append_nil _))
    hleaves.nextSubscription.ge ?_
  intro other found hfound
  rcases hleaves.entry_cases hfound with ⟨rfl, rfl⟩ | ⟨_, hold⟩
  · exact Or.inl ⟨old, hleaves.found, hjob⟩
  · exact Or.inl ⟨found, hold, le_rfl⟩

/-- The job that is added takes the number of its entry. -/
theorem Numbered.submit {job : RouteWorkerJob G} {next : ℕ} (hnumbered : before.Numbered)
    (hid : id < before.nextSubscription) (hfound : before.entries.lookup id = some entry)
    (hprepared : before.Prepared id entry job next) :
    (before.submit id entry job next).Numbered := by
  have hleaves := leaves_submit hfound job next
  have hsubscription : job.stamp.subscription = id := by rw [hprepared.stamp]
  have hnumber : job.stamp.job = entry.nextJob := by rw [hprepared.stamp]
  refine ⟨?_, ?_, ?_⟩
  · rw [hleaves.submitted, hleaves.nextSubscription]
    intro other hother
    rcases List.mem_append.mp hother with hold | hnew
    · exact hnumbered.subscriptions other hold
    · rw [List.mem_singleton.mp hnew, hsubscription]
      exact hid
  · rw [hleaves.submitted]
    intro other hother found hafter
    rcases hleaves.entry_cases hafter with ⟨hsame, rfl⟩ | ⟨hne, hbefore⟩
    · have hlast : entry.nextJob < next := by
        rw [hprepared.next]
        exact Nat.lt_succ_self _
      rcases List.mem_append.mp hother with hold | hnew
      · exact (hnumbered.jobs other hold entry (by rw [hsame]; exact hfound)).trans hlast
      · rw [List.mem_singleton.mp hnew, hnumber]
        exact hlast
    · rcases List.mem_append.mp hother with hold | hnew
      · exact hnumbered.jobs other hold found hbefore
      · rw [List.mem_singleton.mp hnew] at hne
        exact absurd hsubscription hne
  · rw [hleaves.submitted, List.map_append, List.map_singleton, List.nodup_append]
    refine ⟨hnumbered.distinct, List.nodup_singleton _, ?_⟩
    intro key hkey last hlast heq
    obtain ⟨other, hother, rfl⟩ := List.mem_map.mp hkey
    rw [List.mem_singleton.mp hlast] at heq
    obtain ⟨hsame, hclash⟩ := Prod.mk.inj heq
    have hlt := hnumbered.jobs other hother entry (by rw [hsame, hsubscription]; exact hfound)
    rw [hclash, hnumber] at hlt
    exact absurd hlt (lt_irrefl _)

end Numbered

/-- The publications and the jobs of an actor are in order, and its view is not
newer than its search universe. -/
structure Logged (actor : LiveRouteActor G) : Prop where
  recorded : actor.Recorded
  numbered : actor.Numbered
  version : actor.view.snapshot.version ≤ actor.live.stateVersion

theorem Logged.handles (hlogged : before.Logged) (hhandles : before.Handles after) :
    after.Logged := by
  obtain ⟨hrecorded, hnumbered, hversion⟩ := hlogged
  cases hhandles with
  | quiet same =>
      refine ⟨?_, ?_, ?_⟩
      · refine hrecorded.quiet same.published same.sequence (by rw [same.view])
          same.nextSubscription ?_
        intro id entry hentry
        rw [same.entries] at hentry
        exact ⟨entry, hentry, le_rfl⟩
      · refine hnumbered.quiet same.submitted same.nextSubscription.ge ?_
        intro id entry hentry
        rw [same.entries] at hentry
        exact Or.inl ⟨entry, hentry, le_rfl⟩
      · rw [same.view, same.live]
        exact hversion
  | advance newer version =>
      refine ⟨?_, ?_, version.ge⟩
      · exact hrecorded.quiet rfl (le_saturatingNext _) (hversion.trans newer.le) rfl
          fun id entry hentry => ⟨entry, hentry, le_rfl⟩
      · exact hnumbered.quiet rfl le_rfl fun id entry hentry => Or.inl ⟨entry, hentry, le_rfl⟩
  | invalidate found =>
      have hleaves := leaves_invalidate found
      exact ⟨hrecorded.leaves hleaves le_rfl (by rintro state ⟨⟩; rfl),
        hnumbered.leaves hleaves le_rfl, by rw [hleaves.view, hleaves.live]; exact hversion⟩
  | replace leaves tokens =>
      exact ⟨hrecorded.leaves leaves (Nat.le_succ _) (by rintro state ⟨⟩; rfl),
        hnumbered.leaves leaves le_rfl, by rw [leaves.view, leaves.live]; exact hversion⟩
  | submit found waits prepared =>
      rename_i job next
      have hleaves := leaves_submit found job next
      refine ⟨hrecorded.leaves hleaves le_rfl ?_, hnumbered.submit (hrecorded.entries _ _ found)
        found prepared, by rw [hleaves.view, hleaves.live]; exact hversion⟩
      rintro state ⟨⟩
      simp only [RouteSubscriptionState.source, prepared.stamp]
  | remove removes terminal =>
      refine ⟨hrecorded.removes removes terminal, ?_, by
        rw [removes.view, removes.live]; exact hversion⟩
      refine hnumbered.quiet removes.submitted removes.nextSubscription.ge ?_
      intro other found hfound
      rw [removes.lookup] at hfound
      split at hfound
      · cases hfound
      · exact Or.inl ⟨found, hfound, le_rfl⟩
  | accept accepts =>
      refine ⟨hrecorded.accepts accepts, ?_, by rw [accepts.view, accepts.live]; exact hversion⟩
      refine hnumbered.quiet accepts.submitted (by rw [accepts.nextSubscription]; omega) ?_
      intro other found hfound
      rw [accepts.lookup] at hfound
      split at hfound
      · rename_i hnew
        exact Or.inr hnew.ge
      · exact Or.inl ⟨found, hfound, le_rfl⟩

theorem Logged.message (hlogged : before.Logged) (message : RouteWorkerMessage) :
    (before.handleWorkerMessage message).Logged := by
  cases message with
  | event stamp event =>
      rcases handleEvent_cases before stamp event with
        hsame | ⟨entry, active, hcurrent, _, hleaves, _⟩
      · rw [handleWorkerMessage, hsame]
        exact hlogged
      · refine ⟨hlogged.recorded.leaves hleaves le_rfl ?_,
          hlogged.numbered.leaves hleaves le_rfl, ?_⟩
        · intro state hstate
          obtain ⟨quote, _, rfl⟩ := Option.map_eq_some_iff.mp hstate
          exact congrArg some hcurrent.source
        · rw [handleWorkerMessage, hleaves.view, hleaves.live]
          exact hlogged.version
  | completed stamp result =>
      rcases handleCompleted_cases before stamp result with
        ⟨hsame, _⟩ | ⟨entry, active, _, _, ⟨hleaves, _⟩ | ⟨hcurrent, hleaves, _⟩⟩
      · rw [handleWorkerMessage, hsame]
        exact hlogged
      · refine ⟨hlogged.recorded.leaves hleaves le_rfl (fun state hstate => nomatch hstate),
          hlogged.numbered.leaves hleaves le_rfl, ?_⟩
        rw [handleWorkerMessage, hleaves.view, hleaves.live]
        exact hlogged.version
      · refine ⟨hlogged.recorded.leaves hleaves le_rfl ?_,
          hlogged.numbered.leaves hleaves le_rfl, ?_⟩
        · rintro state ⟨⟩
          cases result with
          | ok report => exact congrArg some hcurrent.source
          | error failure => exact congrArg some hcurrent.source
        · rw [handleWorkerMessage, hleaves.view, hleaves.live]
          exact hlogged.version

/-- Flags and the job queue are not part of the record. -/
theorem Logged.shared (hlogged : before.Logged) (tokens : CancellationTokens)
    (jobs : List (RouteWorkerJob G)) :
    Logged { before with tokens := tokens, jobs := jobs } := by
  obtain ⟨hrecorded, hnumbered, hversion⟩ := hlogged
  exact ⟨⟨hrecorded.entries, hrecorded.ids, hrecorded.sequences, hrecorded.versions,
    hrecorded.earlier, hrecorded.coherent, hrecorded.ordered⟩,
    ⟨hnumbered.subscriptions, hnumbered.jobs, hnumbered.distinct⟩, hversion⟩

theorem Handles.nextSubscription_le (hhandles : before.Handles after) :
    before.nextSubscription ≤ after.nextSubscription := by
  cases hhandles with
  | quiet same => exact same.nextSubscription.ge
  | advance newer version => exact le_rfl
  | invalidate found => exact (leaves_invalidate found).nextSubscription.ge
  | replace leaves tokens => exact leaves.nextSubscription.ge
  | submit found waits prepared => exact (leaves_submit found _ _).nextSubscription.ge
  | remove removes terminal => exact removes.nextSubscription.ge
  | accept accepts =>
      rw [accepts.nextSubscription]
      exact Nat.le_succ _

theorem nextSubscription_le_message (message : RouteWorkerMessage) :
    before.nextSubscription ≤ (before.handleWorkerMessage message).nextSubscription := by
  cases message with
  | event stamp event =>
      rcases handleEvent_cases before stamp event with hsame | ⟨_, _, _, _, hleaves, _⟩
      · rw [handleWorkerMessage, hsame]
      · exact hleaves.nextSubscription.ge
  | completed stamp result =>
      rcases handleCompleted_cases before stamp result with
        ⟨hsame, _⟩ | ⟨_, _, _, _, ⟨hleaves, _⟩ | ⟨_, hleaves, _⟩⟩
      · rw [handleWorkerMessage, hsame]
      · exact hleaves.nextSubscription.ge
      · exact hleaves.nextSubscription.ge

theorem nextSubscription_le_steps (hsteps : Relation.ReflTransGen Handles before after) :
    before.nextSubscription ≤ after.nextSubscription := by
  induction hsteps with
  | refl => exact le_rfl
  | tail _ hlast ih => exact ih.trans hlast.nextSubscription_le

end LiveRouteActor

namespace LiveRouteRuntime

variable [StableDiGraph G Address EdgeData] {start runtime next : LiveRouteRuntime G}
  {action : LiveRouteAction}

/-- The record of a runtime, and the subscriptions it handed out. -/
structure Logged (runtime : LiveRouteRuntime G) : Prop where
  actor : runtime.actor.Logged
  below : ∀ subscription ∈ runtime.subscriptions,
    subscription.id < runtime.actor.nextSubscription
  distinct : (runtime.subscriptions.map LiveRouteSubscription.id).Nodup

theorem Logged.turn {input : LiveRouteActorInput} {answers : List Bool}
    {received : LiveRouteRuntime G} {turn : LiveRouteTurn G} (hlogged : runtime.Logged)
    (hturns : runtime.Turns input answers received turn next) : next.Logged := by
  have hreceived : received.actor.Logged := by
    rw [hturns.receives.actor]
    exact hlogged.actor.shared _ _
  have hsame : received.actor.nextSubscription = runtime.actor.nextSubscription := by
    rw [hturns.receives.actor]
    rfl
  have hmono : runtime.actor.nextSubscription ≤ next.actor.nextSubscription := by
    rw [hturns.actor, ← hsame]
    exact LiveRouteActor.kept_by_turn
      (fun actor => received.actor.nextSubscription ≤ actor.nextSubscription)
      (fun hle hhandles => hle.trans hhandles.nextSubscription_le)
      (fun message hle => hle.trans (LiveRouteActor.nextSubscription_le_message message))
      hturns.turns answers le_rfl
  have hbelow : ∀ subscription ∈ runtime.subscriptions,
      subscription.id < next.actor.nextSubscription :=
    fun subscription hmem => (hlogged.below subscription hmem).trans_le hmono
  refine ⟨?_, ?_, ?_⟩
  · rw [hturns.actor]
    exact LiveRouteActor.kept_by_turn _ LiveRouteActor.Logged.handles
      (fun message hbefore => hbefore.message message) hturns.turns answers hreceived
  · rw [hturns.subscriptions]
    intro subscription hmem
    rcases List.mem_append.mp hmem with hold | hnew
    · exact hbelow subscription hold
    · rcases LiveRouteActor.turn_subscribed hturns.turns with hnone | ⟨spec, haccepts, hsome⟩
      · simp [hnone] at hnew
      · simp only [hsome, Option.toList_some, List.mem_singleton] at hnew
        rw [hnew, hturns.actor]
        have hlater := LiveRouteActor.nextSubscription_le_steps
          (LiveRouteActor.endTurn_handles turn answers)
        rw [haccepts.nextSubscription] at hlater
        exact Nat.lt_of_succ_le hlater
  · rw [hturns.subscriptions, List.map_append, List.nodup_append]
    rcases LiveRouteActor.turn_subscribed hturns.turns with hnone | ⟨spec, _, hsome⟩
    · simp [hnone, hlogged.distinct]
    · refine ⟨hlogged.distinct, by simp [hsome], ?_⟩
      intro id hid last hlast heq
      obtain ⟨subscription, hmem, rfl⟩ := List.mem_map.mp hid
      simp only [hsome, Option.toList_some, List.map_singleton, List.mem_singleton, hsame]
        at hlast
      exact absurd (heq.trans hlast) (hlogged.below subscription hmem).ne

theorem Logged.step (hlogged : runtime.Logged) (hstep : runtime.step action = some next) :
    next.Logged := by
  rcases step_cases hstep with
    ⟨input, answers, received, turn, _, hturns⟩ | ⟨subscription, hraises⟩ | hworks
  · exact hlogged.turn hturns
  · rw [hraises.same]
    exact ⟨hlogged.actor.shared _ _, hlogged.below, hlogged.distinct⟩
  · obtain ⟨hactor, hsubscriptions, _⟩ := hworks.actor
    refine ⟨?_, ?_, ?_⟩
    · rw [hactor]
      exact hlogged.actor.shared _ _
    · rw [hsubscriptions, hactor]
      exact hlogged.below
    · rw [hsubscriptions]
      exact hlogged.distinct

omit [StableDiGraph G Address EdgeData] in
theorem logged_started {live : LiveAmmGraph G} {view : LiveSearchView G} {maxSubscriptions : ℕ}
    (hversion : live.stateVersion = view.snapshot.version) :
    (started live view maxSubscriptions).Logged := by
  have hentries : ∀ id, (started live view maxSubscriptions).actor.entries.lookup id = none :=
    fun id => Finmap.lookup_empty id
  refine ⟨⟨⟨?_, ?_, ?_, ?_, ?_, ?_, ?_⟩, ⟨?_, ?_, ?_⟩, hversion.ge⟩, ?_, List.nodup_nil⟩
  · intro id entry hentry
    cases (hentries id).symm.trans hentry
  all_goals simp [started]

/-- Every state that is published with a source comes with the view of that
source.  The publications of one subscription are numbered in increasing order,
their epochs and versions never go back, and none follows a terminal one; no
name of a subscription or of a job is used twice. -/
structure CoherentSubscriptions (runtime : LiveRouteRuntime G) : Prop where
  sources : ∀ snapshot ∈ runtime.actor.published, ∀ source,
    snapshot.state.source = some source → source = .fromView snapshot.view
  ordered : ∀ id, (runtime.actor.published.filter fun snapshot => snapshot.id = id).Pairwise
    fun first second =>
      (first.sequence < u64Max → first.sequence < second.sequence) ∧
      first.epoch ≤ second.epoch ∧
      first.view.snapshot.version ≤ second.view.snapshot.version ∧
      first.state.isTerminal = false
  subscriptions : (runtime.subscriptions.map LiveRouteSubscription.id).Nodup
  jobs : (runtime.actor.submitted.map RouteWorkerJob.key).Nodup

omit [StableDiGraph G Address EdgeData] in
theorem Logged.coherentSubscriptions (hlogged : runtime.Logged) :
    runtime.CoherentSubscriptions := by
  obtain ⟨⟨hrecorded, hnumbered, _⟩, _, hdistinct⟩ := hlogged
  refine ⟨hrecorded.coherent, ?_, hdistinct, hnumbered.distinct⟩
  intro id
  rw [List.pairwise_filter]
  refine hrecorded.ordered.imp ?_
  intro first second hprecedes hfirst hsecond
  have hid : first.id = second.id :=
    (of_decide_eq_true hfirst).trans (of_decide_eq_true hsecond).symm
  exact ⟨hprecedes.lt, hprecedes.epoch hid, hprecedes.version,
    RouteSubscriptionState.isTerminal_of_source (hprecedes.open_of_id hid)⟩

theorem coherent_subscriptions {lineage : ℕ} {snapshot : AmmStateSnapshot}
    {options : GraphBuildOptions} {config : LiveRouteRuntimeConfig}
    (hspawn : spawn lineage snapshot options config = .ok start)
    (hreaches : Transitions.Reaches step start runtime) : runtime.CoherentSubscriptions := by
  obtain ⟨live, view, maxSubscriptions, rfl, hversion⟩ := started_of_spawn hspawn
  have hlogged : runtime.Logged :=
    hreaches.preserves (fun hbefore hstep => Logged.step hbefore hstep)
      (logged_started hversion)
  exact hlogged.coherentSubscriptions

end LiveRouteRuntime

namespace LiveRouteExample

def spec : RouteSubscriptionSpec where
  request := ⟨1, 2, 100, {}, ⟨0, 0, 0⟩⟩
  streaming := { parallel := ⟨4⟩ }

def failure : RouteSearchFailure where
  message := "no viable route among 0 candidates: all candidates failed"
  workerPanicked := false

/-- The stamp of a job of the first subscription on a version of the graph. -/
def stamp (job version : ℕ) : RouteJobStamp :=
  ⟨0, 0, job, ⟨1, version, ⟨1, version, 0⟩, ⟨1, version⟩⟩⟩

/-- A commit arrives while the first search runs, and the second one ends. -/
def actions : List LiveRouteAction :=
  [.turn (.command (some (.subscribe spec))) [true], .take,
    .turn (.commit (some (2, TwoPoolGraph.addRight))) [], .poll 0, .finish 0 (.error failure),
    .turn (.worker (some (.completed (stamp 0 0) (.error failure))) none) [true], .take,
    .finish 0 (.error failure),
    .turn (.worker (some (.completed (stamp 1 1) (.error failure))) none) []]

theorem coherent_actions :
    ∃ start runtime : LiveRouteRuntime (SlotGraph Address EdgeData),
      LiveRouteRuntime.spawn 1 (TwoPoolGraph.snapshot 0 [TwoPoolGraph.left] (by decide)) {}
        { workerThreads := 1 } = .ok start ∧
      Transitions.run LiveRouteRuntime.step start actions = some runtime ∧
      runtime.actor.published.map RouteSubscriptionSnapshot.sequence = [0, 2, 5, 7, 9] ∧
      runtime.CoherentSubscriptions := by
  have hrun : ∃ start runtime : LiveRouteRuntime (SlotGraph Address EdgeData),
      LiveRouteRuntime.spawn 1 (TwoPoolGraph.snapshot 0 [TwoPoolGraph.left] (by decide)) {}
        { workerThreads := 1 } = .ok start ∧
      Transitions.run LiveRouteRuntime.step start actions = some runtime ∧
      runtime.actor.published.map RouteSubscriptionSnapshot.sequence = [0, 2, 5, 7, 9] :=
    ⟨_, _, rfl, rfl, rfl⟩
  obtain ⟨start, runtime, hspawn, hruns, hsequences⟩ := hrun
  exact ⟨start, runtime, hspawn, hruns, hsequences,
    LiveRouteRuntime.coherent_subscriptions hspawn ⟨actions, hruns⟩⟩

end LiveRouteExample

end AmmSearch
