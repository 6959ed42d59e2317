/-
Processes over a state that survives them.  A process is a chain of steps, each
of which is complete before the next one starts; it ends with a value or an error,
or it dies between two steps.  The rules bound what any of its steps leaves behind.
-/
import Mathlib.Data.List.Basic

namespace Durable

variable {σ ε α β ι : Type}

/-- What a process does from one state: the states after its steps, in order, the
state it ends in, and its result. -/
structure Outcome (σ ε α : Type) where
  visited : List σ
  last : σ
  result : Except ε α

/-- The state when the process died after a number of steps. -/
def Outcome.crashed (outcome : Outcome σ ε α) (start : σ) (steps : ℕ) : σ :=
  ((start :: outcome.visited)[steps]?).getD outcome.last

def Process (σ ε α : Type) : Type :=
  σ → Outcome σ ε α

namespace Process

instance : Monad (Process σ ε) where
  pure value := fun state => ⟨[], state, .ok value⟩
  bind first next := fun state =>
    match first state with
    | ⟨visited, last, .error error⟩ => ⟨visited, last, .error error⟩
    | ⟨visited, last, .ok value⟩ =>
        match next value last with
        | ⟨later, final, result⟩ => ⟨visited ++ later, final, result⟩

/-- One step, which may be refused. -/
def step (change : σ → Except ε σ) : Process σ ε Unit := fun state =>
  match change state with
  | .error error => ⟨[], state, .error error⟩
  | .ok next => ⟨[next], next, .ok ()⟩

/-- One step that is never refused. -/
def update (change : σ → σ) : Process σ ε Unit :=
  step fun state => .ok (change state)

def peek (look : σ → α) : Process σ ε α := fun state =>
  ⟨[], state, .ok (look state)⟩

def fail (error : ε) : Process σ ε α := fun state =>
  ⟨[], state, .error error⟩

/-- The result of a process as a value. -/
def attempt (process : Process σ ε α) : Process σ ε (Except ε α) := fun state =>
  match process state with
  | ⟨visited, last, result⟩ => ⟨visited, last, .ok result⟩

def forEach (body : ι → Process σ ε Unit) : List ι → Process σ ε Unit
  | [] => pure ()
  | item :: rest => do
      body item
      forEach body rest

variable {process : Process σ ε α} {next : α → Process σ ε β} {state after : σ}
  {during during' : σ → Prop} {post post' : Except ε α → σ → Prop}

/-- From a state, every step leaves a state with one property, and the result and
the last state have another one. -/
structure Ends (process : Process σ ε α) (state : σ) (during : σ → Prop)
    (post : Except ε α → σ → Prop) : Prop where
  visited : ∀ reached ∈ (process state).visited, during reached
  post : post (process state).result (process state).last

namespace Ends

theorem mono (hends : process.Ends state during post)
    (hduring : ∀ reached, during reached → during' reached)
    (hpost : ∀ result reached, post result reached → post' result reached) :
    process.Ends state during' post' :=
  ⟨fun reached hreached => hduring reached (hends.visited reached hreached),
    hpost _ _ hends.post⟩

theorem and (hends : process.Ends state during post) (hends' : process.Ends state during' post') :
    process.Ends state (fun reached => during reached ∧ during' reached)
      fun result reached => post result reached ∧ post' result reached :=
  ⟨fun reached hreached => ⟨hends.visited reached hreached, hends'.visited reached hreached⟩,
    hends.post, hends'.post⟩

theorem of_pure {value : α} (hpost : post (.ok value) state) :
    Ends (pure value : Process σ ε α) state during post :=
  ⟨fun _ hreached => absurd hreached List.not_mem_nil, hpost⟩

theorem of_peek {look : σ → α} (hpost : post (.ok (look state)) state) :
    (peek look).Ends state during post :=
  ⟨fun _ hreached => absurd hreached List.not_mem_nil, hpost⟩

theorem of_fail {error : ε} (hpost : post (.error error) state) :
    (fail error : Process σ ε α).Ends state during post :=
  ⟨fun _ hreached => absurd hreached List.not_mem_nil, hpost⟩

theorem bind {post : Except ε β → σ → Prop} {middle : Except ε α → σ → Prop}
    (hfirst : process.Ends state during middle)
    (hnext : ∀ value reached, middle (.ok value) reached →
      (next value).Ends reached during post)
    (herror : ∀ error reached, middle (.error error) reached → post (.error error) reached) :
    (process >>= next).Ends state during post := by
  obtain ⟨hvisited, hmiddle⟩ := hfirst
  have heq : (process >>= next) state = match process state with
      | ⟨visited, last, .error error⟩ => ⟨visited, last, .error error⟩
      | ⟨visited, last, .ok value⟩ =>
          ⟨visited ++ (next value last).visited, (next value last).last,
            (next value last).result⟩ := rfl
  cases hprocess : process state with
  | mk visited last result =>
  rw [hprocess] at heq hvisited hmiddle
  cases result with
  | error error =>
      refine ⟨?_, ?_⟩
      · rw [heq]
        exact hvisited
      · rw [heq]
        exact herror error _ hmiddle
  | ok value =>
      obtain ⟨hlater, hpost⟩ := hnext value _ hmiddle
      refine ⟨?_, ?_⟩
      · rw [heq]
        intro reached hreached
        rcases List.mem_append.mp hreached with hbefore | hafter
        · exact hvisited reached hbefore
        · exact hlater reached hafter
      · rw [heq]
        exact hpost

theorem of_step {change : σ → Except ε σ} {post : Except ε Unit → σ → Prop}
    (hok : ∀ reached, change state = .ok reached → during reached ∧ post (.ok ()) reached)
    (herror : ∀ error, change state = .error error → post (.error error) state) :
    (step change).Ends state during post := by
  cases hchange : change state with
  | error error =>
      have heq : step change state = ⟨[], state, .error error⟩ := by
        simp only [step, hchange]
      refine ⟨?_, ?_⟩
      · rw [heq]
        exact fun _ hreached => absurd hreached List.not_mem_nil
      · rw [heq]
        exact herror error hchange
  | ok reached =>
      have heq : step change state = ⟨[reached], reached, .ok ()⟩ := by
        simp only [step, hchange]
      obtain ⟨hduring, hpost⟩ := hok reached hchange
      refine ⟨?_, ?_⟩
      · rw [heq]
        intro other hother
        rw [List.mem_singleton.mp hother]
        exact hduring
      · rw [heq]
        exact hpost

theorem of_update {change : σ → σ} {post : Except ε Unit → σ → Prop}
    (hduring : during (change state)) (hpost : post (.ok ()) (change state)) :
    (update change).Ends state during post := by
  refine of_step ?_ ?_
  · rintro reached ⟨⟩
    exact ⟨hduring, hpost⟩
  · intro error herror
    cases herror

theorem attempt {post : Except ε (Except ε α) → σ → Prop}
    (hends : process.Ends state during fun result reached => post (.ok result) reached) :
    process.attempt.Ends state during post :=
  ⟨hends.visited, hends.post⟩

/-- A loop whose body keeps a property of the items that are left. -/
theorem forEach {body : ι → Process σ ε Unit} {post : Except ε Unit → σ → Prop}
    (invariant : List ι → σ → Prop)
    (hbody : ∀ item rest reached, invariant (item :: rest) reached →
      (body item).Ends reached during fun result left => match result with
        | .ok _ => invariant rest left
        | .error error => post (.error error) left)
    (hdone : ∀ reached, invariant [] reached → post (.ok ()) reached)
    (items : List ι) (hstart : invariant items state) :
    (forEach body items).Ends state during post := by
  induction items generalizing state with
  | nil => exact of_pure (hdone state hstart)
  | cons item rest ih =>
      refine bind (hbody item rest state hstart) ?_ ?_
      · intro value reached hreached
        exact ih hreached
      · intro error reached hreached
        exact hreached

/-- A loop each of whose turns undoes the one before leaves what its last turn does. -/
theorem forEach_last {body : ι → Process σ ε Unit} (wrote : ι → σ → Prop)
    (hbody : ∀ item reached, (reached = state ∨ ∃ earlier, wrote earlier reached) →
      (body item).Ends reached during fun result left => result = .ok () ∧ wrote item left)
    {items : List ι} {last : ι} (hlast : items.getLast? = some last) :
    (Process.forEach body items).Ends state during
      fun result left => result = .ok () ∧ wrote last left := by
  have hrest : ∀ (rest : List ι) (earlier : ι) (reached : σ), wrote earlier reached →
      (earlier :: rest).getLast? = some last →
      (Process.forEach body rest).Ends reached during
        fun result left => result = .ok () ∧ wrote last left := by
    intro rest
    induction rest with
    | nil =>
        intro earlier reached hwrote hsame
        obtain rfl : earlier = last := Option.some.inj hsame
        exact of_pure ⟨rfl, hwrote⟩
    | cons next rest ih =>
        intro earlier reached hwrote hsame
        refine bind (hbody next reached (Or.inr ⟨earlier, hwrote⟩)) ?_ ?_
        · rintro value left ⟨_, hnext⟩
          rw [List.getLast?_cons_cons] at hsame
          exact ih next left hnext hsame
        · rintro error left ⟨herror, _⟩
          cases herror
  cases items with
  | nil => cases hlast
  | cons first rest =>
      refine bind (hbody first state (Or.inl rfl)) ?_ ?_
      · rintro value reached ⟨_, hfirst⟩
        exact hrest rest first reached hfirst hlast
      · rintro error reached ⟨herror, _⟩
        cases herror

/-- The state in which the process died. -/
theorem crashed (hends : process.Ends state during post) (hstart : during state)
    (hlast : ∀ result reached, post result reached → during reached) (steps : ℕ) :
    during ((process state).crashed state steps) := by
  unfold Outcome.crashed
  cases hfound : (state :: (process state).visited)[steps]? with
  | none => exact hlast _ _ hends.post
  | some reached =>
      rcases List.mem_cons.mp (List.mem_of_getElem? hfound) with rfl | hvisited
      · exact hstart
      · exact hends.visited reached hvisited

end Ends

/-- The process ends with a value in a given state. -/
def Returns (process : Process σ ε α) (state : σ) (during : σ → Prop) (value : α)
    (after : σ) : Prop :=
  process.Ends state during fun result reached => result = .ok value ∧ reached = after

namespace Returns

theorem pure (value : α) (state : σ) :
    Returns (Pure.pure value : Process σ ε α) state during value state :=
  .of_pure ⟨rfl, rfl⟩

theorem peek (look : σ → α) (state : σ) :
    (peek look : Process σ ε α).Returns state during (look state) state :=
  .of_peek ⟨rfl, rfl⟩

theorem step {change : σ → Except ε σ} (hchange : change state = .ok after)
    (hduring : during after) : (step change).Returns state during () after := by
  refine .of_step ?_ ?_
  · intro reached hreached
    obtain rfl : after = reached := Except.ok.inj (hchange.symm.trans hreached)
    exact ⟨hduring, rfl, rfl⟩
  · intro error herror
    cases hchange.symm.trans herror

theorem update {change : σ → σ} (hduring : during (change state)) :
    (update change : Process σ ε Unit).Returns state during () (change state) :=
  .of_update hduring ⟨rfl, rfl⟩

/-- A process goes on from where the first part returned. -/
theorem andThen {value : α} {post : Except ε β → σ → Prop}
    (hfirst : process.Returns state during value after)
    (hnext : (next value).Ends after during post) :
    (process >>= next).Ends state during post := by
  refine Ends.bind hfirst ?_ ?_
  · rintro result reached ⟨hresult, rfl⟩
    cases hresult
    exact hnext
  · rintro error reached ⟨herror, _⟩
    cases herror

end Returns

/-- A process whose steps keep a property keeps it. -/
def Keeps (process : Process σ ε α) (property : σ → Prop) : Prop :=
  ∀ state, property state → process.Ends state property fun _ reached => property reached

namespace Keeps

variable {property : σ → Prop}

theorem bind (hfirst : process.Keeps property) (hnext : ∀ value, (next value).Keeps property) :
    (process >>= next).Keeps property := by
  intro state hstate
  refine (hfirst state hstate).bind ?_ ?_
  · exact fun value reached hreached => hnext value reached hreached
  · exact fun error reached hreached => hreached

theorem of_pure (value : α) : Keeps (pure value : Process σ ε α) property :=
  fun _ hstate => .of_pure hstate

theorem of_peek (look : σ → α) : (peek look : Process σ ε α).Keeps property :=
  fun _ hstate => .of_peek hstate

theorem of_fail (error : ε) : (fail error : Process σ ε α).Keeps property :=
  fun _ hstate => .of_fail hstate

theorem of_step {change : σ → Except ε σ}
    (hchange : ∀ state reached, property state → change state = .ok reached →
      property reached) : (step change).Keeps property := by
  intro state hstate
  refine .of_step ?_ ?_
  · intro reached hreached
    exact ⟨hchange state reached hstate hreached, hchange state reached hstate hreached⟩
  · exact fun error _ => hstate

theorem of_update {change : σ → σ}
    (hchange : ∀ state, property state → property (change state)) :
    (update change : Process σ ε Unit).Keeps property :=
  fun state hstate => .of_update (hchange state hstate) (hchange state hstate)

theorem attempt (hprocess : process.Keeps property) : process.attempt.Keeps property :=
  fun state hstate => (hprocess state hstate).attempt

theorem forEach {body : ι → Process σ ε Unit} (hbody : ∀ item, (body item).Keeps property)
    (items : List ι) : (forEach body items).Keeps property := by
  intro state hstate
  refine .forEach (fun _ reached => property reached) ?_ (fun _ hreached => hreached) items
    hstate
  intro item rest reached hreached
  refine (hbody item reached hreached).mono (fun _ hkept => hkept) ?_
  intro result left hleft
  cases result with
  | ok _ => exact hleft
  | error error => exact hleft

end Keeps

end Process

end Durable
