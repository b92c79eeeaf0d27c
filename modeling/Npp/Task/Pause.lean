import Npp.Task.Elastic

/-!
# Pausing a worker

One worker of the elastic executor and the manager over the worker's `pause_lock`; other threads
push tasks and other workers pop them. The manager does not pause a worker twice and resumes only
what it has paused. The state remembers who unlocked the lock while who held it, and what the
worker popped or started during a pause.
-/

namespace Npp.Task

open Npp.Foundation

namespace WorkerThread

def inside (w : WorkerThread) : Bool :=
  match w.phase with
  | .popping => true
  | .popped _ => true
  | .calling _ => true
  | .releasing => true
  | .missed => true
  | _ => false

def unlocking (w : WorkerThread) : Bool :=
  match w.phase with
  | .releasing => true
  | .missed => true
  | _ => false

/-- What the next step pops or starts. -/
def taking (w : WorkerThread) (queue : List Nat) : List Nat :=
  match w.phase with
  | .popping => queue.head?.toList
  | .popped task => [task]
  | _ => []

inductive LockEffect (w w' : WorkerThread) (spurious : Bool) : Prop where
  | acquire (phase : w.phase = .locking) (free : w.pauseLock = none) (real : spurious = false)
      (lock : w'.pauseLock = some .worker) (inside : w'.inside = true)
  | fail (phase : w.phase = .locking) (failed : ¬ (w.pauseLock = none ∧ spurious = false))
      (lock : w'.pauseLock = w.pauseLock) (missed : w'.phase = .missed)
  | release (unlocking : w.unlocking = true) (lock : w'.pauseLock = none)
      (inside : w'.inside = false)
  | keep (phase : w.phase ≠ .locking) (unlocking : w.unlocking = false)
      (lock : w'.pauseLock = w.pauseLock) (inside : w'.inside = w.inside)

theorem step_lock {w w' : WorkerThread} {queue queue' : List Nat} {spurious : Bool}
    (hstep : w.step queue spurious = some (w', queue')) : LockEffect w w' spurious := by
  obtain ⟨running, lock, phase⟩ := w
  cases phase with
  | testing =>
      cases hstep
      cases running <;> exact .keep (by rintro ⟨⟩) rfl rfl rfl
  | locking =>
      simp only [step] at hstep
      split at hstep
      case isTrue hfree =>
        cases hstep
        rw [Bool.and_eq_true, Option.isNone_iff_eq_none, Bool.not_eq_true'] at hfree
        exact .acquire rfl hfree.1 hfree.2 rfl rfl
      case isFalse hfailed =>
        cases hstep
        rw [Bool.and_eq_true, Option.isNone_iff_eq_none, Bool.not_eq_true'] at hfailed
        exact .fail rfl hfailed rfl rfl
  | popping =>
      cases queue <;> cases hstep <;> exact .keep (by rintro ⟨⟩) rfl rfl rfl
  | popped task =>
      cases hstep
      exact .keep (by rintro ⟨⟩) rfl rfl rfl
  | calling task =>
      cases hstep
      exact .keep (by rintro ⟨⟩) rfl rfl rfl
  | releasing =>
      cases hstep
      exact .release rfl rfl rfl
  | missed =>
      cases hstep
      exact .release rfl rfl rfl
  | sleeping =>
      cases hstep
      exact .keep (by rintro ⟨⟩) rfl rfl rfl
  | exited => cases hstep

theorem inside_of_unlocking {w : WorkerThread} (h : w.unlocking = true) : w.inside = true := by
  unfold unlocking at h
  unfold inside
  split at h <;> simp_all

/-- Only inside its lock the worker takes a task. -/
theorem taking_outside {w : WorkerThread} (h : w.inside = false) (queue : List Nat) :
    w.taking queue = [] := by
  unfold inside at h
  unfold taking
  split <;> simp_all

end WorkerThread

structure PauseState where
  worker : WorkerThread := {}
  queue : List Nat := []
  submitted : Nat := 0
  /-- `try_pause` has returned true, or `pause` has returned, and no `resume` came since. -/
  paused : Bool := false
  /-- Who called `unlock`, and who held the lock then. -/
  unlocks : List (Holder × Option Holder) := []
  /-- What the worker popped or started during a pause. -/
  takenPaused : List Nat := []
deriving DecidableEq, Repr

namespace PauseState

inductive Label where
  | execute
  | steal
  | work (spurious : Bool)
  | tryPause (spurious : Bool)
  | pause
  | resume
  | stop
deriving DecidableEq, Repr

def step (s : PauseState) : Label → Option PauseState
  | .execute =>
      some { s with queue := s.queue ++ [s.submitted], submitted := s.submitted + 1 }
  | .steal => some { s with queue := s.queue.tail }
  | .work spurious =>
      match s.worker.step s.queue spurious with
      | some (worker, queue) =>
          some { s with
            worker := worker
            queue := queue
            unlocks := s.unlocks ++
              if s.worker.unlocking then [(.worker, s.worker.pauseLock)] else []
            takenPaused := s.takenPaused ++ if s.paused then s.worker.taking s.queue else [] }
      | none => none
  | .tryPause spurious =>
      if s.paused then none
      else
        match s.worker.tryPause spurious with
        | some worker => some { s with worker := worker, paused := true }
        | none => some s
  | .pause =>
      -- `lock` returns once the lock is free
      if s.paused then none
      else
        match s.worker.tryPause false with
        | some worker => some { s with worker := worker, paused := true }
        | none => none
  | .resume =>
      if s.paused then
        some { s with
          worker := { s.worker with pauseLock := none }
          paused := false
          unlocks := s.unlocks ++ [(.manager, s.worker.pauseLock)] }
      else none
  | .stop => some { s with worker := s.worker.stop }

def machine : Machine PauseState Label where
  init := {}
  step := step

variable {s s' : PauseState} {l : Label} {ls : List Label}

/-- The lock was only ever unlocked by who held it, and a pause was a pause. -/
def Respected (s : PauseState) : Prop :=
  (∀ u ∈ s.unlocks, u.2 = some u.1) ∧ s.takenPaused = []

instance (s : PauseState) : Decidable (Respected s) :=
  inferInstanceAs (Decidable (_ ∧ _))

/-- A `try_lock` of the worker finds the lock free, and does not fail for no reason. -/
def TryLockFree (s : PauseState) : Label → Prop
  | .work spurious => s.worker.phase = .locking → s.worker.pauseLock = none ∧ spurious = false
  | _ => True

instance (s : PauseState) (l : Label) : Decidable (TryLockFree s l) :=
  match l with
  | .work spurious => inferInstanceAs (Decidable
      (s.worker.phase = .locking → s.worker.pauseLock = none ∧ spurious = false))
  | .execute => .isTrue trivial
  | .steal => .isTrue trivial
  | .tryPause _ => .isTrue trivial
  | .pause => .isTrue trivial
  | .resume => .isTrue trivial
  | .stop => .isTrue trivial

/-! ## Who owns the lock -/

/-- The worker holds the lock where its loop says so, and the manager during a pause. -/
structure Owned (s : PauseState) : Prop where
  worker : s.worker.pauseLock = some .worker ↔ s.worker.inside = true
  manager : s.worker.pauseLock = some .manager ↔ s.paused = true
  respected : Respected s

theorem Owned.outside_of_paused (h : Owned s) (hpaused : s.paused = true) :
    s.worker.inside = false := by
  have hlock := h.manager.mpr hpaused
  cases hinside : s.worker.inside with
  | false => rfl
  | true => cases hlock.symm.trans (h.worker.mpr hinside)

theorem Owned.unpaused_of_inside (h : Owned s) (hinside : s.worker.inside = true) :
    s.paused = false := by
  cases hpaused : s.paused with
  | false => rfl
  | true => cases hinside.symm.trans (h.outside_of_paused hpaused)

/-- The step of an owner: a release is the holder's, and nothing is taken during a pause. -/
theorem Owned.respected_work (h : Owned s) :
    (∀ u ∈ s.unlocks ++ (if s.worker.unlocking then [(Holder.worker, s.worker.pauseLock)] else []),
      u.2 = some u.1) ∧
    s.takenPaused ++ (if s.paused then s.worker.taking s.queue else []) = [] := by
  constructor
  · intro u hu
    rcases List.mem_append.mp hu with hold | hnew
    · exact h.respected.1 u hold
    · split at hnew
      case isTrue hunlocking =>
        obtain rfl := List.mem_singleton.mp hnew
        exact h.worker.mpr (WorkerThread.inside_of_unlocking hunlocking)
      case isFalse => cases hnew
  · rw [h.respected.2, List.nil_append]
    split
    case isTrue hpaused => exact WorkerThread.taking_outside (h.outside_of_paused hpaused) _
    case isFalse => rfl

theorem Owned.work (h : Owned s) {spurious : Bool} {worker : WorkerThread} {queue : List Nat}
    (hfree : TryLockFree s (.work spurious))
    (hwork : s.worker.step s.queue spurious = some (worker, queue)) :
    Owned { s with
      worker := worker
      queue := queue
      unlocks := s.unlocks ++ if s.worker.unlocking then [(.worker, s.worker.pauseLock)] else []
      takenPaused := s.takenPaused ++ if s.paused then s.worker.taking s.queue else [] } := by
  have howner : (worker.pauseLock = some .worker ↔ worker.inside = true) ∧
      (worker.pauseLock = some .manager ↔ s.paused = true) := by
    cases WorkerThread.step_lock hwork with
    | acquire phase free real lock inside =>
        have hunpaused : s.paused ≠ true := by
          intro hpaused
          cases free.symm.trans (h.manager.mpr hpaused)
        rw [lock]
        exact ⟨iff_of_true rfl inside, iff_of_false (by rintro ⟨⟩) hunpaused⟩
    | fail phase failed lock missed => exact absurd (hfree phase) failed
    | release unlocking lock inside =>
        have hunpaused := h.unpaused_of_inside (WorkerThread.inside_of_unlocking unlocking)
        rw [lock, inside, hunpaused]
        exact ⟨iff_of_false (by rintro ⟨⟩) (by rintro ⟨⟩),
          iff_of_false (by rintro ⟨⟩) (by rintro ⟨⟩)⟩
    | keep phase unlocking lock inside =>
        rw [lock, inside]
        exact ⟨h.worker, h.manager⟩
  exact ⟨howner.1, howner.2, h.respected_work⟩

/-- A pause takes a free lock. -/
theorem Owned.tryPause (h : Owned s) {spurious : Bool} {worker : WorkerThread}
    (hpause : s.worker.tryPause spurious = some worker) :
    Owned { s with worker := worker, paused := true } := by
  simp only [WorkerThread.tryPause, Option.ite_none_right_eq_some, Option.some.injEq,
    Bool.and_eq_true, Option.isNone_iff_eq_none] at hpause
  obtain ⟨⟨hfree, -⟩, rfl⟩ := hpause
  have houtside : s.worker.inside ≠ true := by
    intro hinside
    cases hfree.symm.trans (h.worker.mpr hinside)
  exact ⟨iff_of_false (by rintro ⟨⟩) houtside, iff_of_true rfl rfl, h.respected⟩

theorem Owned.step (h : Owned s) (hfree : TryLockFree s l) (hstep : s.step l = some s') :
    Owned s' := by
  cases l with
  | execute =>
      cases hstep
      exact ⟨h.worker, h.manager, h.respected⟩
  | steal =>
      cases hstep
      exact ⟨h.worker, h.manager, h.respected⟩
  | work spurious =>
      simp only [PauseState.step] at hstep
      split at hstep
      case h_1 worker queue hwork =>
        cases hstep
        exact h.work hfree hwork
      case h_2 => cases hstep
  | tryPause spurious =>
      simp only [PauseState.step] at hstep
      split at hstep
      case isTrue => cases hstep
      case isFalse =>
        split at hstep
        case h_1 worker hpause =>
          cases hstep
          exact h.tryPause hpause
        case h_2 =>
          cases hstep
          exact h
  | pause =>
      simp only [PauseState.step] at hstep
      split at hstep
      case isTrue => cases hstep
      case isFalse =>
        split at hstep
        case h_1 worker hpause =>
          cases hstep
          exact h.tryPause hpause
        case h_2 => cases hstep
  | resume =>
      simp only [PauseState.step, Option.ite_none_right_eq_some, Option.some.injEq] at hstep
      obtain ⟨hpaused, rfl⟩ := hstep
      have houtside := h.outside_of_paused hpaused
      refine ⟨iff_of_false (by rintro ⟨⟩) ?_, iff_of_false (by rintro ⟨⟩) (by rintro ⟨⟩), ?_, ?_⟩
      · show ¬ s.worker.inside = true
        rw [houtside]
        exact Bool.false_ne_true
      · intro u hu
        rcases List.mem_append.mp hu with hold | hnew
        · exact h.respected.1 u hold
        · obtain rfl := List.mem_singleton.mp hnew
          exact h.manager.mpr hpaused
      · exact h.respected.2
  | stop =>
      cases hstep
      exact ⟨h.worker, h.manager, h.respected⟩

theorem owned_runs (hrun : machine.Runs ls s)
    (hmeets : machine.Meets TryLockFree machine.init ls) : Owned s := by
  refine hrun.guarded (I := Owned) ?_ (fun _ _ _ h hfree hstep => h.step hfree hstep) hmeets
  exact ⟨iff_of_false (by rintro ⟨⟩) (by rintro ⟨⟩), iff_of_false (by rintro ⟨⟩) (by rintro ⟨⟩),
    (fun u hu => nomatch hu), rfl⟩

/-- The else branch unlocks what the worker could not lock. -/
theorem Owned.breach (h : Owned s) {spurious : Bool} (hbreach : ¬ TryLockFree s (.work spurious))
    (hstep : s.step (.work spurious) = some s') :
    ∃ t, s'.step (.work false) = some t ∧ ¬ Respected t := by
  simp only [TryLockFree, Classical.not_imp] at hbreach
  obtain ⟨hphase, hfailed⟩ := hbreach
  simp only [PauseState.step] at hstep
  split at hstep
  case h_2 => cases hstep
  case h_1 worker queue hwork =>
    cases hstep
    cases WorkerThread.step_lock hwork with
    | acquire phase free real lock inside => exact absurd ⟨free, real⟩ hfailed
    | release unlocking lock inside => simp [WorkerThread.unlocking, hphase] at unlocking
    | keep phase unlocking lock inside => exact absurd hphase phase
    | fail phase failed lock missed =>
        have hforeign : worker.pauseLock ≠ some .worker := by
          rw [lock]
          intro hlock
          have hinside := h.worker.mp hlock
          simp [WorkerThread.inside, hphase] at hinside
        have hunlock : worker.step queue false =
            some ({ worker with pauseLock := none, phase := .sleeping }, queue) := by
          simp [WorkerThread.step, missed]
        have hunlocking : worker.unlocking = true := by
          simp [WorkerThread.unlocking, missed]
        refine ⟨_, by simp only [PauseState.step, hunlock]; rfl, ?_⟩
        rintro ⟨hunlocks, -⟩
        apply hforeign
        apply hunlocks (.worker, worker.pauseLock)
        simp [hunlocking]

/-- **A paused worker stays paused** in every run in which each `try_lock` of the worker finds the
lock free. After any other `try_lock` the worker's next step unlocks a lock it does not hold. -/
theorem respected_iff (hrun : machine.Runs ls s) :
    (machine.Meets TryLockFree machine.init ls → Respected s) ∧
    (¬ machine.Meets TryLockFree machine.init ls →
      ∃ pre spurious post t, ls = pre ++ .work spurious :: post ∧
        machine.Runs (pre ++ [.work spurious, .work false]) t ∧ ¬ Respected t) := by
  constructor
  · intro hmeets
    exact (owned_runs hrun hmeets).respected
  · intro hbreach
    obtain ⟨pre, l, post, a, a', rfl, ha, hmeets, hc, hstep, -⟩ := hrun.exists_breach hbreach
    cases l with
    | work spurious =>
        obtain ⟨t, ht, hnot⟩ := (owned_runs ha hmeets).breach hc hstep
        have hwork : machine.Runs (pre ++ [.work spurious]) a' :=
          Machine.runs_snoc.mpr ⟨a, ha, hstep⟩
        have hrun' : machine.Runs (pre ++ [.work spurious] ++ [.work false]) t :=
          Machine.runs_snoc.mpr ⟨a', hwork, ht⟩
        rw [List.append_assoc] at hrun'
        exact ⟨pre, spurious, post, t, rfl, hrun', hnot⟩
    | _ => exact absurd trivial hc

/-- The worker calls a task and sleeps; the manager pauses it, stops it, and it leaves its loop. -/
theorem respected_iff_run :
    ∃ s : PauseState,
      machine.Runs [.execute, .work false, .work false, .work false, .tryPause false, .work false,
        .work false, .work false, .work false, .work false, .work false, .work false,
        .tryPause false, .execute, .stop, .work false, .work false] s ∧
      Respected s ∧ s.paused = true ∧ s.worker.phase = .exited ∧ s.queue = [1] :=
  have hrun : machine.Runs [.execute, .work false, .work false, .work false, .tryPause false,
      .work false, .work false, .work false, .work false, .work false, .work false, .work false,
      .tryPause false, .execute, .stop, .work false, .work false] _ := rfl
  ⟨_, hrun, (respected_iff hrun).1 (by decide), rfl, rfl, rfl⟩

/-- The manager pauses a worker that is about to try its lock. The `try_lock` fails, the else branch
unlocks the lock of the manager, and after its sleep the worker pops and starts a task. -/
theorem not_respected :
    ∃ s : PauseState,
      machine.Runs [.execute, .work false, .tryPause false, .work false, .work false, .work false,
        .work false, .work false, .work false, .work false] s ∧
      s.paused = true ∧ s.unlocks = [(.worker, some .manager)] ∧ s.takenPaused = [0, 0] ∧
      s.worker.phase = .calling 0 ∧ ¬ Respected s :=
  ⟨_, rfl, rfl, rfl, rfl, rfl, by decide⟩

end PauseState

end Npp.Task
