import Npp.Foundation.Machine
import Mathlib.Data.List.Perm.Basic

/-!
# The elastic executor

A manager thread runs `ElasticExecutorImpl::run` and any number of workers run
`WorkerThread::run` over one concurrent queue, whose `push` and `try_pop` are single steps. Tasks
are numbered in the order of the `execute` calls. What the manager decides by measured times enters
through its labels: on which side of the two thresholds the average rate falls, and what
`unsafe_size` answers. An erased worker stays among the workers until it is joined.
-/

namespace Npp.Task

open Npp.Foundation

inductive Holder where
  | worker
  | manager
deriving DecidableEq, Repr

inductive WorkerPhase where
  | testing
  | locking
  | popping
  | popped (task : Nat)
  | calling (task : Nat)
  | releasing
  | missed
  | sleeping
  | exited
deriving DecidableEq, Repr

structure WorkerThread where
  running : Bool := true
  pauseLock : Option Holder := none
  phase : WorkerPhase := .testing
deriving DecidableEq, Repr

namespace WorkerThread

/-- The task a worker holds between its `try_pop` and the end of its call. -/
def hand (w : WorkerThread) : Option Nat :=
  match w.phase with
  | .popped task => some task
  | .calling task => some task
  | _ => none

def inCall (w : WorkerThread) : Option Nat :=
  match w.phase with
  | .calling task => some task
  | _ => none

def starting (w : WorkerThread) : Option Nat :=
  match w.phase with
  | .popped task => some task
  | _ => none

/-- One step of `WorkerThread::run`, with the queue before and after. `try_lock` may fail for no
reason; `unlock` frees the lock whoever holds it. -/
def step (w : WorkerThread) (queue : List Nat) (spurious : Bool) :
    Option (WorkerThread × List Nat) :=
  match w.phase with
  | .testing => some ({ w with phase := if w.running then .locking else .exited }, queue)
  | .locking =>
      if w.pauseLock.isNone && !spurious then
        some ({ w with pauseLock := some .worker, phase := .popping }, queue)
      else some ({ w with phase := .missed }, queue)
  | .popping =>
      match queue with
      | [] => some ({ w with phase := .missed }, [])
      | task :: rest => some ({ w with phase := .popped task }, rest)
  | .popped task => some ({ w with phase := .calling task }, queue)
  | .calling _ => some ({ w with phase := .releasing }, queue)
  | .releasing => some ({ w with pauseLock := none, phase := .testing }, queue)
  -- the else branch, after either failure
  | .missed => some ({ w with pauseLock := none, phase := .sleeping }, queue)
  | .sleeping => some ({ w with phase := .testing }, queue)
  | .exited => none

/-- A step moves tasks from the queue to the hand and from the hand to the finished ones. -/
theorem step_perm {w w' : WorkerThread} {queue queue' : List Nat} {spurious : Bool}
    (hstep : w.step queue spurious = some (w', queue')) :
    (queue' ++ w'.hand.toList ++ w.inCall.toList).Perm (queue ++ w.hand.toList) ∧
      w'.inCall = w.starting := by
  obtain ⟨running, lock, phase⟩ := w
  cases phase with
  | testing =>
      cases hstep
      cases running <;> exact ⟨by simp [hand, inCall], rfl⟩
  | locking =>
      simp only [step] at hstep
      split at hstep <;> cases hstep <;> exact ⟨by simp [hand, inCall], rfl⟩
  | popping =>
      cases queue with
      | nil =>
          cases hstep
          exact ⟨by simp [hand, inCall], rfl⟩
      | cons task rest =>
          cases hstep
          refine ⟨?_, rfl⟩
          show (queue' ++ [task] ++ []).Perm (task :: queue' ++ [])
          rw [List.append_nil, List.append_nil]
          exact List.perm_append_singleton task queue'
  | popped task =>
      cases hstep
      refine ⟨?_, rfl⟩
      show (queue ++ [task] ++ []).Perm (queue ++ [task])
      rw [List.append_nil]
  | calling task =>
      cases hstep
      refine ⟨?_, rfl⟩
      show (queue ++ [] ++ [task]).Perm (queue ++ [task])
      rw [List.append_nil]
  | releasing =>
      cases hstep
      exact ⟨by simp [hand, inCall], rfl⟩
  | missed =>
      cases hstep
      exact ⟨by simp [hand, inCall], rfl⟩
  | sleeping =>
      cases hstep
      exact ⟨by simp [hand, inCall], rfl⟩
  | exited => cases hstep

def tryPause (w : WorkerThread) (spurious : Bool) : Option WorkerThread :=
  if w.pauseLock.isNone && !spurious then some { w with pauseLock := some .manager } else none

def stop (w : WorkerThread) : WorkerThread := { w with running := false }

end WorkerThread

/-- The average rate against `expire_threshold` and `expand_threshold`. -/
inductive Load where
  | low
  | middle
  | high
deriving DecidableEq, Repr

/-- Where the manager is in its loop; the number is the position of its iterator. -/
inductive Manager where
  | sampling
  | expanding (load : Load)
  | shrinking (i : Nat)
  | erasing (i : Nat)
  | joining (i : Nat)
deriving DecidableEq, Repr

structure ElasticState where
  queue : List Nat := []
  workers : List WorkerThread := []
  manager : Manager := .sampling
  submitted : Nat := 0
  called : List Nat := []
  finished : List Nat := []
deriving DecidableEq, Repr

namespace ElasticState

inductive Label where
  | execute
  | work (i : Nat) (spurious : Bool)
  | sample (load : Load)
  | expand (backlog : Bool)
  | shrink (spurious : Bool)
  | stop
  | join
deriving DecidableEq, Repr

def step (s : ElasticState) : Label → Option ElasticState
  | .execute =>
      some { s with queue := s.queue ++ [s.submitted], submitted := s.submitted + 1 }
  | .work i spurious =>
      match s.workers[i]? with
      | some w =>
          match w.step s.queue spurious with
          | some (w', queue) =>
              some { s with
                queue := queue
                workers := s.workers.set i w'
                called := s.called ++ w.starting.toList
                finished := s.finished ++ w.inCall.toList }
          | none => none
      | none => none
  | .sample load =>
      match s.manager with
      | .sampling =>
          -- the average over no workers is 0
          some { s with manager := .expanding (if s.workers.isEmpty then .low else load) }
      | _ => none
  | .expand backlog =>
      match s.manager with
      | .expanding load =>
          let workers :=
            if (load = .high ∨ s.workers.isEmpty) ∧ backlog then s.workers ++ [{}] else s.workers
          some { s with
            workers := workers
            manager := if load = .low ∧ 1 < workers.length then .shrinking 0 else .sampling }
      | _ => none
  | .shrink spurious =>
      match s.manager with
      | .shrinking i =>
          match s.workers[i]? with
          | none => some { s with manager := .sampling }
          | some w =>
              match w.tryPause spurious with
              | some w' => some { s with workers := s.workers.set i w', manager := .erasing i }
              | none => some { s with manager := .shrinking (i + 1) }
      | _ => none
  | .stop =>
      match s.manager with
      | .erasing i =>
          match s.workers[i]? with
          | some w => some { s with workers := s.workers.set i w.stop, manager := .joining i }
          | none => none
      | _ => none
  | .join =>
      match s.manager with
      | .joining i =>
          match s.workers[i]? with
          | some w =>
              if w.phase = .exited then
                some { s with workers := s.workers.eraseIdx i, manager := .sampling }
              else none
          | none => none
      | _ => none

def machine : Machine ElasticState Label where
  init := {}
  step := step

variable {s s' : ElasticState} {l : Label} {ls : List Label}

/-! ## One worker among many -/

/-- What the workers have in a field, with one of them in front. -/
theorem filterMap_set {workers : List WorkerThread} {i : Nat} {w : WorkerThread}
    (hw : workers[i]? = some w) (f : WorkerThread → Option Nat) :
    ∃ others, (workers.filterMap f).Perm ((f w).toList ++ others) ∧
      ((workers.eraseIdx i).filterMap f) = others ∧
      ∀ w', ((workers.set i w').filterMap f).Perm ((f w').toList ++ others) := by
  obtain ⟨hi, rfl⟩ := List.getElem?_eq_some_iff.mp hw
  refine ⟨(workers.eraseIdx i).filterMap f, ?_, rfl, ?_⟩
  · have hperm := (List.getElem_cons_eraseIdx_perm hi).symm.filterMap f
    cases hf : f workers[i] <;> simpa [List.filterMap_cons, hf] using hperm
  · intro w'
    have hperm := (List.set_perm_cons_eraseIdx hi w').filterMap f
    cases hf : f w' <;> simpa [List.filterMap_cons, hf] using hperm

/-- The manager changes its flags only, not the tasks of a worker. -/
theorem filterMap_set_self {workers : List WorkerThread} {i : Nat} {w w' : WorkerThread}
    (hw : workers[i]? = some w) {f : WorkerThread → Option Nat} (hf : f w' = f w) :
    ((workers.set i w').filterMap f).Perm (workers.filterMap f) := by
  obtain ⟨others, hbefore, -, hafter⟩ := filterMap_set hw f
  refine (hafter w').trans ?_
  rw [hf]
  exact hbefore.symm

theorem filterMap_erase {workers : List WorkerThread} {i : Nat} {w : WorkerThread}
    (hw : workers[i]? = some w) {f : WorkerThread → Option Nat} (hf : f w = none) :
    ((workers.eraseIdx i).filterMap f).Perm (workers.filterMap f) := by
  obtain ⟨others, hbefore, herase, -⟩ := filterMap_set hw f
  rw [herase]
  rw [hf] at hbefore
  exact hbefore.symm

theorem filterMap_append_idle (workers : List WorkerThread) {w : WorkerThread}
    {f : WorkerThread → Option Nat} (hf : f w = none) :
    ((workers ++ [w]).filterMap f).Perm (workers.filterMap f) := by
  rw [List.filterMap_append, List.filterMap_cons_none hf, List.filterMap_nil, List.append_nil]

/-! ## The account of the tasks -/

/-- Every task is queued, in one hand, or finished, and the calls are those going on and those
finished. -/
structure Accounted (s : ElasticState) : Prop where
  tasks : (s.queue ++ s.workers.filterMap WorkerThread.hand ++ s.finished).Perm
    (List.range s.submitted)
  calls : s.called.Perm (s.workers.filterMap WorkerThread.inCall ++ s.finished)

/-- A step of the manager that leaves the tasks of the workers where they are. -/
theorem Accounted.managed (h : Accounted s) {workers : List WorkerThread} (manager : Manager)
    (hand : (workers.filterMap WorkerThread.hand).Perm (s.workers.filterMap WorkerThread.hand))
    (inCall : (workers.filterMap WorkerThread.inCall).Perm
      (s.workers.filterMap WorkerThread.inCall)) :
    Accounted { s with workers := workers, manager := manager } :=
  ⟨((hand.append_left s.queue).append_right s.finished).trans h.tasks,
    h.calls.trans (inCall.append_right s.finished).symm⟩

theorem Accounted.worked (h : Accounted s) {i : Nat} {w w' : WorkerThread} {queue : List Nat}
    {spurious : Bool} (hw : s.workers[i]? = some w)
    (hwork : w.step s.queue spurious = some (w', queue)) :
    Accounted { s with
      queue := queue
      workers := s.workers.set i w'
      called := s.called ++ w.starting.toList
      finished := s.finished ++ w.inCall.toList } := by
  obtain ⟨hperm, hstarting⟩ := WorkerThread.step_perm hwork
  constructor
  · obtain ⟨others, hbefore, -, hafter⟩ := filterMap_set hw WorkerThread.hand
    refine List.Perm.trans ?_ h.tasks
    apply List.perm_iff_count.mpr
    intro t
    have hmoved := hperm.count_eq t
    have hbefore := hbefore.count_eq t
    have hafter := (hafter w').count_eq t
    simp only [List.count_append] at hmoved hbefore hafter ⊢
    omega
  · obtain ⟨others, hbefore, -, hafter⟩ := filterMap_set hw WorkerThread.inCall
    apply List.perm_iff_count.mpr
    intro t
    have hcalls := h.calls.count_eq t
    have hbefore := hbefore.count_eq t
    have hafter := (hafter w').count_eq t
    rw [hstarting] at hafter
    simp only [List.count_append] at hcalls hbefore hafter ⊢
    omega

/-- The manager joins a worker that has left its loop. -/
theorem join_step (hstep : s.step .join = some s') :
    ∃ (i : Nat) (w : WorkerThread), s.workers[i]? = some w ∧ w.phase = .exited ∧
      s' = { s with workers := s.workers.eraseIdx i, manager := .sampling } := by
  simp only [ElasticState.step] at hstep
  split at hstep
  case h_1 i _ =>
    split at hstep
    case h_1 w hw =>
      rw [Option.ite_none_right_eq_some] at hstep
      obtain ⟨hexited, hstep⟩ := hstep
      cases hstep
      exact ⟨i, w, hw, hexited, rfl⟩
    case h_2 => cases hstep
  case h_2 => cases hstep

theorem Accounted.step (h : Accounted s) (hstep : s.step l = some s') : Accounted s' := by
  cases l with
  | execute =>
      cases hstep
      refine ⟨?_, h.calls⟩
      apply List.perm_iff_count.mpr
      intro t
      have htasks := h.tasks.count_eq t
      simp only [List.count_append, List.range_succ] at htasks ⊢
      omega
  | work i spurious =>
      simp only [ElasticState.step] at hstep
      split at hstep
      case h_1 w hw =>
        split at hstep
        case h_1 w' queue hwork =>
          cases hstep
          exact h.worked hw hwork
        case h_2 => cases hstep
      case h_2 => cases hstep
  | sample load =>
      simp only [ElasticState.step] at hstep
      split at hstep
      case h_1 =>
        cases hstep
        exact ⟨h.tasks, h.calls⟩
      case h_2 => cases hstep
  | expand backlog =>
      simp only [ElasticState.step] at hstep
      split at hstep
      case h_1 load =>
        cases hstep
        apply h.managed
        · split
          case isTrue => exact filterMap_append_idle s.workers rfl
          case isFalse => exact List.Perm.refl _
        · split
          case isTrue => exact filterMap_append_idle s.workers rfl
          case isFalse => exact List.Perm.refl _
      case h_2 => cases hstep
  | shrink spurious =>
      simp only [ElasticState.step] at hstep
      split at hstep
      case h_1 i =>
        split at hstep
        case h_1 =>
          cases hstep
          exact ⟨h.tasks, h.calls⟩
        case h_2 w hw =>
          split at hstep
          case h_1 w' hpause =>
            cases hstep
            simp only [WorkerThread.tryPause, Option.ite_none_right_eq_some,
              Option.some.injEq] at hpause
            obtain ⟨-, rfl⟩ := hpause
            exact h.managed _ (filterMap_set_self hw rfl) (filterMap_set_self hw rfl)
          case h_2 =>
            cases hstep
            exact ⟨h.tasks, h.calls⟩
      case h_2 => cases hstep
  | stop =>
      simp only [ElasticState.step] at hstep
      split at hstep
      case h_1 i =>
        split at hstep
        case h_1 w hw =>
          cases hstep
          exact h.managed _ (filterMap_set_self hw rfl) (filterMap_set_self hw rfl)
        case h_2 => cases hstep
      case h_2 => cases hstep
  | join =>
      obtain ⟨i, w, hw, hexited, rfl⟩ := join_step hstep
      exact h.managed _ (filterMap_erase hw (by simp [WorkerThread.hand, hexited]))
        (filterMap_erase hw (by simp [WorkerThread.inCall, hexited]))

theorem accounted_runs (hrun : machine.Runs ls s) : Accounted s := by
  refine hrun.invariant (I := Accounted) ?_ fun _ _ _ h hstep => h.step hstep
  exact ⟨List.Perm.refl [], List.Perm.refl []⟩

/-- **No task is lost and none is repeated.** In every reachable state a task that was passed to
`execute` is once in the queue, or in the hands of one worker, or finished once; it is called once
if it is in a call or finished, and else not at all. To erase a worker takes no task out of any
hand. -/
theorem each_task_once (hrun : machine.Runs ls s) (task : Nat) :
    s.queue.count task + s.workers.countP (·.hand == some task) + s.finished.count task =
      (if task < s.submitted then 1 else 0) ∧
    s.called.count task = s.workers.countP (·.inCall == some task) + s.finished.count task ∧
    ∀ s', machine.step s .join = some s' →
      s'.workers.countP (·.hand == some task) = s.workers.countP (·.hand == some task) := by
  have hacc : Accounted s := accounted_runs hrun
  refine ⟨?_, ?_, ?_⟩
  · have hcount := hacc.tasks.count_eq task
    rw [List.count_append, List.count_append, List.count_filterMap, List.count_range] at hcount
    exact hcount
  · have hcount := hacc.calls.count_eq task
    rw [List.count_append, List.count_filterMap] at hcount
    exact hcount
  · intro s' hjoin
    obtain ⟨i, w, hw, hexited, rfl⟩ := join_step hjoin
    have hnone : w.hand = none := by
      rw [WorkerThread.hand, hexited]
    have hcount := (filterMap_erase hw hnone).count_eq task
    rw [List.count_filterMap, List.count_filterMap] at hcount
    exact hcount

/-- Two workers, of which the manager pauses and erases the second while the first calls its
task. -/
theorem each_task_once_run :
    ∃ s : ElasticState,
      machine.Runs [.execute, .sample .low, .expand true, .work 0 false, .work 0 false,
        .work 0 false, .work 0 false, .execute, .sample .high, .expand true, .sample .low,
        .expand true, .shrink false, .shrink false, .stop, .work 1 false, .join] s ∧
      s.queue.count 1 + s.workers.countP (·.hand == some 1) + s.finished.count 1 = 1 ∧
      s.workers.length = 1 ∧ s.queue = [1] ∧ s.called = [0] :=
  have hrun : machine.Runs [.execute, .sample .low, .expand true, .work 0 false, .work 0 false,
      .work 0 false, .work 0 false, .execute, .sample .high, .expand true, .sample .low,
      .expand true, .shrink false, .shrink false, .stop, .work 1 false, .join] _ := rfl
  ⟨_, hrun, (each_task_once hrun 1).1, rfl, rfl, rfl⟩

end ElasticState

end Npp.Task
