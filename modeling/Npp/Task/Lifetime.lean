import Npp.Foundation.Machine
import Npp.Task.Result

/-!
# The lifetime of a coroutine frame

One coroutine and the owner of its `Task` on another thread. The coroutine publishes its result in
one critical section, which also wakes the waiters and runs the callbacks, and suspends at
`final_suspend` in a later step. The owner may call `get_result`, await the task, or drop it;
`~Task` calls `get_result` and then destroys the frame. A `get_result` that does not wait is one
step, since it holds `completion_lock` throughout.
-/

namespace Npp.Task

open Npp.Foundation

variable {T : Type}

inductive CoroutinePhase where
  | running
  | published
  | suspended
deriving DecidableEq, Repr

inductive CallSite where
  | thread
  | beforeResume
  | destructor
deriving DecidableEq, Repr

/-- Where the owner is. In `awaiting` it is a parent coroutine, `dispatched` once the callback has
handed its resumption to the executor. `undefined` is the access to an empty `result`. -/
inductive Owner where
  | holding
  | awaiting (dispatched : Bool)
  | locking (site : CallSite)
  | waiting (site : CallSite) (notified : Bool)
  | destroying
  | destroyed
  | terminated
  | undefined
deriving DecidableEq, Repr

def Owner.notify : Owner → Owner
  | .awaiting _ => .awaiting true
  | .waiting site _ => .waiting site true
  | o => o

/-- What follows the return of `get_result`. The full expression of a `co_await` ends with
`~Task`, whether it was left normally or by an exception; a throw that leaves `~Task` ends the
program; a thread that called `get_result` still owns the task. -/
def CallSite.afterGetResult (site : CallSite) (result : Result T) : Owner :=
  match site, result.getOrThrow with
  | .thread, _ => .holding
  | .beforeResume, _ => .locking .destructor
  | .destructor, .ok _ => .destroying
  | .destructor, .error _ => .terminated

structure LifetimeState (T : Type) where
  phase : CoroutinePhase := .running
  result : Option (Result T) := none
  owner : Owner := .holding
  /-- Where the coroutine was when `handle.destroy()` was executed. -/
  destroyedIn : Option CoroutinePhase := none
deriving Repr

namespace LifetimeState

inductive Label (T : Type) where
  | publish (result : Result T)
  | suspend
  | getResult
  | coAwait
  | resume
  | drop
  | lock
  | wake (spurious : Bool)
  | destroy
deriving Repr

def returnResult (s : LifetimeState T) (site : CallSite) : LifetimeState T :=
  match s.result with
  | some result => { s with owner := site.afterGetResult result }
  -- the wait has no predicate, so it may end without a result
  | none => { s with owner := .undefined }

def step (s : LifetimeState T) : Label T → Option (LifetimeState T)
  | .publish result =>
      if s.phase = .running then
        some { s with phase := .published, result := some result, owner := s.owner.notify }
      else none
  | .suspend => if s.phase = .published then some { s with phase := .suspended } else none
  | .getResult =>
      if s.owner = .holding then some { s with owner := .locking .thread } else none
  | .coAwait =>
      -- `on_completed` runs the callback at once when there is a result
      if s.owner = .holding then some { s with owner := .awaiting s.result.isSome } else none
  | .resume =>
      if s.owner = .awaiting true then some { s with owner := .locking .beforeResume } else none
  | .drop =>
      if s.owner = .holding then some { s with owner := .locking .destructor } else none
  | .lock =>
      match s.owner with
      | .locking site =>
          if s.result.isSome then some (s.returnResult site)
          else some { s with owner := .waiting site false }
      | _ => none
  | .wake spurious =>
      match s.owner with
      | .waiting site notified =>
          if notified || spurious then some (s.returnResult site) else none
      | _ => none
  | .destroy =>
      if s.owner = .destroying then
        some { s with owner := .destroyed, destroyedIn := some s.phase }
      else none

def machine (T : Type) : Machine (LifetimeState T) (Label T) where
  init := {}
  step := step

/-- The frame was destroyed at its final suspension point, if at all. -/
def DestroyedAtEnd (s : LifetimeState T) : Prop := ∀ p ∈ s.destroyedIn, p = .suspended

/-- The `get_result` that returns in the step, if it finds a result. -/
def returningSite (s : LifetimeState T) : Label T → Option CallSite
  | .lock => match s.owner with
    | .locking site => some site
    | _ => none
  | .wake _ => match s.owner with
    | .waiting site _ => some site
    | _ => none
  | _ => none

/-- The `get_result` of `~Task` returns a value only once the coroutine has suspended. -/
def DropsSettled (s : LifetimeState T) (l : Label T) : Prop :=
  s.returningSite l = some .destructor →
    ∀ r ∈ s.result, r.exceptionPtr = none → s.phase = .suspended

instance (s : LifetimeState T) : Decidable s.DestroyedAtEnd :=
  inferInstanceAs (Decidable (∀ p ∈ s.destroyedIn, p = .suspended))

instance (s : LifetimeState T) (l : Label T) : Decidable (s.DropsSettled l) :=
  inferInstanceAs (Decidable (s.returningSite l = some .destructor →
    ∀ r ∈ s.result, r.exceptionPtr = none → s.phase = .suspended))

/-! ## What a step does -/

inductive Effect (s : LifetimeState T) (l : Label T) (s' : LifetimeState T) : Prop where
  | publish (result : Result T) (hphase : s.phase = .running)
      (eq : s' = { s with
        phase := .published, result := some result, owner := s.owner.notify })
  | suspend (hphase : s.phase = .published) (eq : s' = { s with phase := .suspended })
  | move (owner : Owner) (howner : owner ≠ .destroying) (eq : s' = { s with owner := owner })
  | release (result : Result T) (hsite : s.returningSite l = some .destructor)
      (hresult : s.result = some result) (hvalue : result.exceptionPtr = none)
      (eq : s' = { s with owner := .destroying })
  | destroy (howner : s.owner = .destroying)
      (eq : s' = { s with owner := .destroyed, destroyedIn := some s.phase })

theorem afterGetResult_destroying {site : CallSite} {r : Result T}
    (h : site.afterGetResult r = .destroying) : site = .destructor ∧ r.exceptionPtr = none := by
  obtain ⟨v, e⟩ := r
  cases site <;> cases e <;> simp_all [CallSite.afterGetResult, Result.getOrThrow]

theorem returnResult_effect {s : LifetimeState T} {l : Label T} {site : CallSite}
    (hsite : s.returningSite l = some site) : Effect s l (s.returnResult site) := by
  unfold returnResult
  split
  case h_1 r hresult =>
    by_cases hdestroying : site.afterGetResult r = .destroying
    · obtain ⟨rfl, hvalue⟩ := afterGetResult_destroying hdestroying
      exact .release r hsite hresult hvalue (by rw [hdestroying])
    · exact .move _ hdestroying rfl
  case h_2 => exact .move .undefined Owner.noConfusion rfl

theorem step_effect {s s' : LifetimeState T} {l : Label T} (h : s.step l = some s') :
    Effect s l s' := by
  cases l with
  | publish result =>
      simp only [step, Option.ite_none_right_eq_some, Option.some.injEq] at h
      exact .publish result h.1 h.2.symm
  | suspend =>
      simp only [step, Option.ite_none_right_eq_some, Option.some.injEq] at h
      exact .suspend h.1 h.2.symm
  | lock =>
      simp only [step] at h
      split at h
      case h_1 site howner =>
        split at h <;> cases h
        · exact returnResult_effect (by simp only [returningSite, howner])
        · exact .move _ Owner.noConfusion rfl
      case h_2 => cases h
  | wake spurious =>
      simp only [step] at h
      split at h
      case h_1 site notified howner =>
        rw [Option.ite_none_right_eq_some] at h
        obtain ⟨-, h⟩ := h
        cases h
        exact returnResult_effect (by simp only [returningSite, howner])
      case h_2 => cases h
  | destroy =>
      simp only [step, Option.ite_none_right_eq_some, Option.some.injEq] at h
      exact .destroy h.1 h.2.symm
  | _ =>
      simp only [step, Option.ite_none_right_eq_some, Option.some.injEq] at h
      exact .move _ Owner.noConfusion h.2.symm

/-! ## The window -/

def ResultPublished (s : LifetimeState T) : Prop := s.result.isSome = true → s.phase ≠ .running

theorem resultPublished_step {s s' : LifetimeState T} {l : Label T} (h : ResultPublished s)
    (hstep : s.step l = some s') : ResultPublished s' := by
  cases step_effect hstep with
  | publish result hphase eq => subst eq; exact fun _ => CoroutinePhase.noConfusion
  | suspend hphase eq => subst eq; exact fun _ => CoroutinePhase.noConfusion
  | move owner howner eq => subst eq; exact h
  | release result hsite hresult hvalue eq => subst eq; exact h
  | destroy howner eq => subst eq; exact h

/-- The frame is only about to be destroyed, and only ever was, once the coroutine suspended. -/
structure Settled (s : LifetimeState T) : Prop where
  destroying : s.owner = .destroying → s.phase = .suspended
  destroyed : DestroyedAtEnd s

theorem notify_destroying {o : Owner} (h : o.notify = .destroying) : o = .destroying := by
  cases o <;> simp_all [Owner.notify]

theorem settled_step {s s' : LifetimeState T} {l : Label T} (h : Settled s)
    (hdrops : s.DropsSettled l) (hstep : s.step l = some s') : Settled s' := by
  cases step_effect hstep with
  | publish result hphase eq =>
      subst eq
      refine ⟨fun howner => ?_, h.destroyed⟩
      exact absurd (hphase.symm.trans (h.destroying (notify_destroying howner)))
        CoroutinePhase.noConfusion
  | suspend hphase eq => subst eq; exact ⟨fun _ => rfl, h.destroyed⟩
  | move owner howner eq => subst eq; exact ⟨fun ho => absurd ho howner, h.destroyed⟩
  | release result hsite hresult hvalue eq =>
      subst eq
      exact ⟨fun _ => hdrops hsite result hresult hvalue, h.destroyed⟩
  | destroy howner eq =>
      subst eq
      refine ⟨fun ho => absurd ho Owner.noConfusion, fun p hp => ?_⟩
      obtain rfl := Option.some.inj hp
      exact h.destroying howner

/-- A `get_result` that finds a result returns it. -/
theorem returning_step {s s' : LifetimeState T} {l : Label T} {site : CallSite}
    (hsite : s.returningSite l = some site) (hresult : s.result.isSome = true)
    (hstep : s.step l = some s') : s' = s.returnResult site := by
  cases l with
  | lock =>
      simp only [returningSite] at hsite
      split at hsite
      case h_1 site' howner =>
        obtain rfl := Option.some.inj hsite
        simp only [step, howner, hresult, if_true, Option.some.injEq] at hstep
        exact hstep.symm
      case h_2 => cases hsite
  | wake spurious =>
      simp only [returningSite] at hsite
      split at hsite
      case h_1 site' notified howner =>
        obtain rfl := Option.some.inj hsite
        simp only [step, howner, Option.ite_none_right_eq_some, Option.some.injEq] at hstep
        exact hstep.2.symm
      case h_2 => cases hsite
  | _ => simp [returningSite] at hsite

theorem returnResult_destructor {s : LifetimeState T} {r : Result T} (hr : s.result = some r)
    (hvalue : r.exceptionPtr = none) :
    s.returnResult .destructor = { s with owner := .destroying } := by
  simp only [returnResult, hr, CallSite.afterGetResult, Result.getOrThrow, hvalue]

/-- A `~Task` whose `get_result` returned too early can destroy the running coroutine at once. -/
theorem exposed_of_breach {s s' : LifetimeState T} {l : Label T} (h : ResultPublished s)
    (hbreach : ¬ s.DropsSettled l) (hstep : s.step l = some s') :
    ∃ t, s'.step .destroy = some t ∧ t.destroyedIn = some .published := by
  unfold DropsSettled at hbreach
  push Not at hbreach
  obtain ⟨hsite, r, hr, hvalue, hphase⟩ := hbreach
  have hpublished : s.phase = .published := by
    have hrunning := h (Option.isSome_iff_exists.mpr ⟨r, hr⟩)
    cases hp : s.phase <;> simp_all
  have hs' : s' = { s with owner := .destroying } :=
    (returning_step hsite (Option.isSome_iff_exists.mpr ⟨r, hr⟩) hstep).trans
      (returnResult_destructor hr hvalue)
  subst hs'
  exact ⟨{ s with owner := .destroyed, destroyedIn := some s.phase },
    by simp only [step, if_true], congrArg some hpublished⟩

/-- **Destroyed at the end.** If every `get_result` of `~Task` that returns a value returns it
after the coroutine has suspended, no state of the run has the frame destroyed earlier. A run in
which one returns sooner can go on at once by destroying a frame whose coroutine still runs. -/
theorem destroyed_at_end_iff {ls : List (Label T)} {s : LifetimeState T}
    (hrun : (machine T).Runs ls s) :
    ((machine T).Meets DropsSettled (machine T).init ls → s.DestroyedAtEnd) ∧
    (¬ (machine T).Meets DropsSettled (machine T).init ls →
      ∃ pre l post t, ls = pre ++ l :: post ∧ (machine T).Runs (pre ++ [l, .destroy]) t ∧
        t.destroyedIn = some .published) := by
  constructor
  · intro hmeets
    have hinit : Settled (machine T).init :=
      ⟨fun h => absurd h Owner.noConfusion, fun p hp => absurd hp (by simp [machine])⟩
    exact (hrun.guarded hinit (fun _ _ _ h hdrops hstep => settled_step h hdrops hstep)
      hmeets).destroyed
  · intro hmeets
    obtain ⟨pre, l, post, a, a', rfl, hpre, -, hbreach, hstep, -⟩ := hrun.exists_breach hmeets
    have hpublished : ResultPublished a :=
      hpre.invariant (I := ResultPublished) (fun h => absurd h (by simp [machine]))
        fun _ _ _ h hstep => resultPublished_step h hstep
    obtain ⟨t, ht, hin⟩ := exposed_of_breach hpublished hbreach hstep
    refine ⟨pre, l, post, t, rfl, ?_, hin⟩
    have hsplit : pre ++ [l, .destroy] = (pre ++ [l]) ++ [.destroy] := by simp
    rw [hsplit]
    exact Machine.runs_snoc.mpr ⟨a', Machine.runs_snoc.mpr ⟨a, hpre, hstep⟩, ht⟩

/-- A parent awaits the task and is resumed after the coroutine has suspended. -/
theorem destroyed_at_end_iff_run :
    ∃ s : LifetimeState Nat,
      (machine Nat).Runs
        [.coAwait, .publish (.ofValue 7), .suspend, .resume, .lock, .lock, .destroy] s ∧
      s.DestroyedAtEnd ∧ s.destroyedIn = some .suspended :=
  have hrun : (machine Nat).Runs
      [.coAwait, .publish (.ofValue 7), .suspend, .resume, .lock, .lock, .destroy] _ := rfl
  ⟨_, hrun, (destroyed_at_end_iff hrun).1 (by decide), rfl⟩

/-- The parent is resumed on another worker before the coroutine has suspended. -/
theorem not_destroyed_at_end :
    ∃ s : LifetimeState Nat,
      (machine Nat).Runs
        [.coAwait, .publish (.ofValue 7), .resume, .lock, .lock, .destroy] s ∧
      s.destroyedIn = some .published ∧ ¬ s.DestroyedAtEnd :=
  ⟨_, rfl, rfl, by decide⟩

end LifetimeState

end Npp.Task
