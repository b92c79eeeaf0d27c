import Npp.Task.Pause

/-!
# The elastic executor always has someone to work

The manager pauses, stops and joins one worker at a time, and only when there are two. So whoever
is left goes on with its loop, and what is in the queue can be run: by the workers there are, or
by the one that the manager starts when there is none.
-/

namespace Npp.Task

open Npp.Foundation

/-- Nobody has told the worker to stop, and if its lock is taken it has it itself. -/
structure WorkerThread.Able (w : WorkerThread) : Prop where
  running : w.running = true
  looping : w.phase ≠ .exited
  unpaused : w.pauseLock ≠ some .manager
  own : w.pauseLock = some .worker → w.inside = true

/-- The worker that the manager is about to erase. -/
def Manager.target : Manager → Option Nat
  | .erasing i | .joining i => some i
  | .sampling | .expanding _ | .shrinking _ => none

/-- The manager looks for a worker to erase, or erases one. -/
def Manager.shrinks : Manager → Bool
  | .shrinking _ | .erasing _ | .joining _ => true
  | .sampling | .expanding _ => false

/-- What is still to come until the worker has a task, or has returned from it. -/
def WorkerPhase.turns : WorkerPhase → Nat
  | .popped _ => 8
  | .calling _ => 7
  | .missed => 6
  | .releasing => 5
  | .sleeping => 5
  | .testing => 4
  | .locking => 3
  | .popping => 2
  | .exited => 0

namespace WorkerThread

variable {w w' : WorkerThread} {queue queue' : List Nat} {spurious : Bool}

theorem able_new : Able {} := ⟨rfl, by rintro ⟨⟩, by rintro ⟨⟩, by rintro ⟨⟩⟩

theorem step_running (h : w.step queue spurious = some (w', queue')) :
    w'.running = w.running := by
  obtain ⟨running, lock, phase⟩ := w
  cases phase with
  | locking =>
      simp only [step] at h
      split at h <;> cases h <;> rfl
  | popping => cases queue <;> cases h <;> rfl
  | _ => cases h <;> rfl

theorem step_looping (hrunning : w.running = true)
    (h : w.step queue spurious = some (w', queue')) : w'.phase ≠ .exited := by
  obtain ⟨running, lock, phase⟩ := w
  cases phase with
  | testing =>
      cases h
      obtain rfl : running = true := hrunning
      rintro ⟨⟩
  | locking =>
      simp only [step] at h
      split at h <;> cases h <;> rintro ⟨⟩
  | popping =>
      cases queue <;> cases h <;> rintro ⟨⟩
  | exited => cases h
  | _ =>
      cases h
      rintro ⟨⟩

/-- The loop goes on as long as nobody else interferes. -/
theorem Able.step (hw : w.Able) (h : w.step queue spurious = some (w', queue')) : w'.Able := by
  refine ⟨(step_running h).trans hw.running, step_looping hw.running h, ?_, ?_⟩
  · cases step_lock h with
    | acquire phase free real lock inside => rw [lock]; rintro ⟨⟩
    | fail phase failed lock missed => rw [lock]; exact hw.unpaused
    | release unlocking lock inside => rw [lock]; rintro ⟨⟩
    | keep phase unlocking lock inside => rw [lock]; exact hw.unpaused
  · intro hown
    cases step_lock h with
    | acquire phase free real lock inside => exact inside
    | fail phase failed lock missed => rw [WorkerThread.inside, missed]
    | release unlocking lock inside =>
        rw [lock] at hown
        cases hown
    | keep phase unlocking lock inside =>
        rw [inside]
        exact hw.own (lock ▸ hown)

/-- A worker that can work takes a task, or comes closer to that. -/
theorem Able.progress (hw : w.Able) (hqueue : queue ≠ []) :
    ∃ w' queue', w.step queue false = some (w', queue') ∧
      10 * queue'.length + w'.phase.turns < 10 * queue.length + w.phase.turns := by
  obtain ⟨running, lock, phase⟩ := w
  obtain rfl : running = true := hw.running
  cases phase with
  | testing => exact ⟨_, _, rfl, Nat.lt_succ_self _⟩
  | locking =>
      -- the lock is free: the manager does not have it, and the worker is outside of it
      obtain rfl : lock = none := by
        rcases lock with - | - | -
        · rfl
        · exact absurd (hw.own rfl) (by rintro ⟨⟩)
        · exact absurd rfl hw.unpaused
      exact ⟨_, _, rfl, Nat.lt_succ_self _⟩
  | popping =>
      cases queue with
      | nil => exact absurd rfl hqueue
      | cons task rest =>
          refine ⟨_, _, rfl, ?_⟩
          simp only [WorkerPhase.turns, List.length_cons]
          omega
  | popped task => exact ⟨_, _, rfl, Nat.lt_succ_self _⟩
  | calling task => exact ⟨_, _, rfl, by simp [WorkerPhase.turns]⟩
  | releasing => exact ⟨_, _, rfl, Nat.lt_succ_self _⟩
  | missed => exact ⟨_, _, rfl, Nat.lt_succ_self _⟩
  | sleeping => exact ⟨_, _, rfl, Nat.lt_succ_self _⟩
  | exited => exact absurd rfl hw.looping

/-- Whoever has a task runs it, stopped or not. -/
theorem hand_progress (hhand : w.hand ≠ none) (queue : List Nat) :
    ∃ w', w.step queue false = some (w', queue) ∧ w'.phase.turns < w.phase.turns := by
  obtain ⟨running, lock, phase⟩ := w
  cases phase with
  | popped task => exact ⟨_, rfl, Nat.lt_succ_self _⟩
  | calling task => exact ⟨_, rfl, by simp [WorkerPhase.turns]⟩
  | _ => exact absurd rfl hhand

end WorkerThread

namespace ElasticState

variable {s s' : ElasticState} {l : Label} {ls : List Label}

/-! ## What a step does -/

inductive Steps (s : ElasticState) : Label → ElasticState → Prop where
  | execute : Steps s .execute
      { s with queue := s.queue ++ [s.submitted], submitted := s.submitted + 1 }
  | work (i : Nat) (spurious : Bool) (w w' : WorkerThread) (queue : List Nat)
      (worker : s.workers[i]? = some w) (step : w.step s.queue spurious = some (w', queue)) :
      Steps s (.work i spurious) { s with
        queue := queue
        workers := s.workers.set i w'
        called := s.called ++ w.starting.toList
        finished := s.finished ++ w.inCall.toList }
  | manage (l : Label) (manager : Manager) (target : s.manager.target = none)
      (quiet : manager.target = none)
      (two : manager.shrinks = true → s.manager.shrinks = true ∨ 1 < s.workers.length)
      (works : ∀ i spurious, l ≠ .work i spurious) : Steps s l { s with manager := manager }
  | hire (manager : Manager) (target : s.manager.target = none) (quiet : manager.target = none)
      (two : manager.shrinks = true → 1 < s.workers.length + 1) :
      Steps s (.expand true) { s with workers := s.workers ++ [{}], manager := manager }
  | pause (i : Nat) (w : WorkerThread) (target : s.manager.target = none)
      (worker : s.workers[i]? = some w) (free : w.pauseLock = none)
      (shrinks : s.manager.shrinks = true) : Steps s (.shrink false) { s with
        workers := s.workers.set i { w with pauseLock := some .manager }
        manager := .erasing i }
  | stop (i : Nat) (w : WorkerThread) (manager : s.manager = .erasing i)
      (worker : s.workers[i]? = some w) :
      Steps s .stop { s with workers := s.workers.set i w.stop, manager := .joining i }
  | join (i : Nat) (w : WorkerThread) (manager : s.manager = .joining i)
      (worker : s.workers[i]? = some w) (exited : w.phase = .exited) :
      Steps s .join { s with workers := s.workers.eraseIdx i, manager := .sampling }

theorem steps_of_step (hstep : s.step l = some s') : Steps s l s' := by
  cases l with
  | execute =>
      cases hstep
      exact .execute
  | work i spurious =>
      simp only [ElasticState.step] at hstep
      split at hstep
      case h_1 w hw =>
        split at hstep
        case h_1 w' queue hwork =>
          cases hstep
          exact .work i spurious w w' queue hw hwork
        case h_2 => cases hstep
      case h_2 => cases hstep
  | sample load =>
      simp only [ElasticState.step] at hstep
      split at hstep
      case h_1 hmanager =>
        cases hstep
        exact .manage _ _ (by rw [hmanager]; rfl) rfl (by rintro ⟨⟩) (by rintro _ _ ⟨⟩)
      case h_2 => cases hstep
  | expand backlog =>
      simp only [ElasticState.step] at hstep
      split at hstep
      case h_1 load hmanager =>
        have htarget : s.manager.target = none := by rw [hmanager]; rfl
        have hnext : ∀ workers : List WorkerThread, ∃ manager : Manager,
            (if load = .low ∧ 1 < workers.length then .shrinking 0 else .sampling) = manager ∧
              manager.target = none ∧ (manager.shrinks = true → 1 < workers.length) := by
          intro workers
          by_cases hlow : load = .low ∧ 1 < workers.length
          · exact ⟨_, if_pos hlow, rfl, fun _ => hlow.2⟩
          · exact ⟨_, if_neg hlow, rfl, by rintro ⟨⟩⟩
        by_cases hexpand : (load = .high ∨ s.workers.isEmpty = true) ∧ backlog = true
        · obtain ⟨manager, hmanager', hquiet, htwo⟩ := hnext (s.workers ++ [({} : WorkerThread)])
          rw [List.length_append] at htwo
          rw [if_pos hexpand, hmanager'] at hstep
          cases hstep
          rw [hexpand.2]
          exact .hire manager htarget hquiet htwo
        · obtain ⟨manager, hmanager', hquiet, htwo⟩ := hnext s.workers
          rw [if_neg hexpand, hmanager'] at hstep
          cases hstep
          exact .manage _ manager htarget hquiet (fun hshrinks => Or.inr (htwo hshrinks))
            (by rintro _ _ ⟨⟩)
      case h_2 => cases hstep
  | shrink spurious =>
      simp only [ElasticState.step] at hstep
      split at hstep
      case h_1 i hmanager =>
        have htarget : s.manager.target = none := by rw [hmanager]; rfl
        have hshrinks : s.manager.shrinks = true := by rw [hmanager]; rfl
        split at hstep
        case h_1 =>
          cases hstep
          exact .manage _ _ htarget rfl (fun _ => Or.inl hshrinks) (by rintro _ _ ⟨⟩)
        case h_2 w hw =>
          split at hstep
          case h_1 w' hpause =>
            cases hstep
            rw [WorkerThread.tryPause, Option.ite_none_right_eq_some, Bool.and_eq_true,
              Option.isNone_iff_eq_none, Bool.not_eq_true'] at hpause
            obtain ⟨⟨hfree, rfl⟩, hpause⟩ := hpause
            cases hpause
            exact .pause i w htarget hw hfree hshrinks
          case h_2 =>
            cases hstep
            exact .manage _ _ htarget rfl (fun _ => Or.inl hshrinks) (by rintro _ _ ⟨⟩)
      case h_2 => cases hstep
  | stop =>
      simp only [ElasticState.step] at hstep
      split at hstep
      case h_1 i hmanager =>
        split at hstep
        case h_1 w hw =>
          cases hstep
          exact .stop i w hmanager hw
        case h_2 => cases hstep
      case h_2 => cases hstep
  | join =>
      simp only [ElasticState.step] at hstep
      split at hstep
      case h_1 i hmanager =>
        split at hstep
        case h_1 w hw =>
          obtain ⟨hexited, hstep⟩ := Option.ite_none_right_eq_some.mp hstep
          cases hstep
          exact .join i w hmanager hw hexited
        case h_2 => cases hstep
      case h_2 => cases hstep

/-- A position after one worker has changed. -/
theorem getElem?_set_cases {workers : List WorkerThread} {i j : Nat} {w w' v : WorkerThread}
    (hw : workers[i]? = some w) (hv : (workers.set i w')[j]? = some v) :
    j = i ∧ v = w' ∨ j ≠ i ∧ workers[j]? = some v := by
  by_cases hj : j = i
  · subst hj
    rw [List.getElem?_set_self (List.getElem?_eq_some_iff.mp hw).1] at hv
    exact Or.inl ⟨rfl, (Option.some.inj hv).symm⟩
  · rw [List.getElem?_set_ne (Ne.symm hj)] at hv
    exact Or.inr ⟨hj, hv⟩

/-! ## Nobody is left out -/

/-- The manager erases one of two workers at least, and all others can work. -/
structure Staffed (s : ElasticState) : Prop where
  two : s.manager.shrinks = true → 2 ≤ s.workers.length
  able : ∀ i w, s.workers[i]? = some w → s.manager.target ≠ some i → w.Able

theorem staffed_init : Staffed machine.init := by
  refine ⟨by rintro ⟨⟩, ?_⟩
  intro i w hw
  cases hw

theorem Staffed.work (h : Staffed s) {i : Nat} {w w' : WorkerThread} {queue queue' : List Nat}
    {spurious : Bool} {called finished : List Nat} (hw : s.workers[i]? = some w)
    (hwork : w.step queue spurious = some (w', queue')) :
    Staffed { s with
      queue := queue'
      workers := s.workers.set i w'
      called := called
      finished := finished } := by
  refine ⟨fun hshrinks => ?_, fun j v hv htarget => ?_⟩
  · rw [List.length_set]
    exact h.two hshrinks
  · rcases getElem?_set_cases hw hv with ⟨rfl, rfl⟩ | ⟨-, hv⟩
    · exact (h.able j w hw htarget).step hwork
    · exact h.able j v hv htarget

theorem Staffed.step (h : Staffed s) (hstep : s.step l = some s') : Staffed s' := by
  cases steps_of_step hstep with
  | execute => exact ⟨h.two, h.able⟩
  | work i spurious w w' queue worker step => exact h.work worker step
  | manage l manager target quiet two works =>
      refine ⟨fun hshrinks => ?_, fun i w hw _ => h.able i w hw (by rw [target]; rintro ⟨⟩)⟩
      exact (two hshrinks).elim h.two id
  | hire manager target quiet two =>
      refine ⟨fun hshrinks => ?_, fun i w hw _ => ?_⟩
      · rw [List.length_append]
        exact two hshrinks
      · rw [List.getElem?_append] at hw
        split at hw
        case isTrue => exact h.able i w hw (by rw [target]; rintro ⟨⟩)
        case isFalse =>
          exact List.mem_singleton.mp (List.mem_of_getElem? hw) ▸ WorkerThread.able_new
  | pause i w target worker free shrinks =>
      refine ⟨fun _ => ?_, fun j v hv htarget => ?_⟩
      · rw [List.length_set]
        exact h.two shrinks
      · rcases getElem?_set_cases worker hv with ⟨rfl, -⟩ | ⟨-, hv⟩
        · exact absurd rfl htarget
        · exact h.able j v hv (by rw [target]; rintro ⟨⟩)
  | stop i w manager worker =>
      refine ⟨fun _ => ?_, fun j v hv htarget => ?_⟩
      · rw [List.length_set]
        exact h.two (by rw [manager]; rfl)
      · rcases getElem?_set_cases worker hv with ⟨rfl, -⟩ | ⟨-, hv⟩
        · exact absurd rfl htarget
        · exact h.able j v hv (by rw [manager]; exact htarget)
  | join i w manager worker exited =>
      refine ⟨by rintro ⟨⟩, fun j v hv _ => ?_⟩
      rw [List.getElem?_eraseIdx] at hv
      split at hv
      case isTrue hlt => exact h.able j v hv (by rw [manager]; rintro ⟨⟩; omega)
      case isFalse hge => exact h.able (j + 1) v hv (by rw [manager]; rintro ⟨⟩; omega)

theorem staffed_runs (hrun : machine.Runs ls s) : Staffed s :=
  hrun.invariant (I := Staffed) staffed_init fun _ _ _ h hstep => h.step hstep

/-! ## Someone can work -/

/-- Of two workers the manager erases one. -/
theorem Staffed.exists_able (h : Staffed s) (hworkers : s.workers ≠ []) :
    ∃ i w, s.workers[i]? = some w ∧ s.manager.target ≠ some i ∧ w.Able := by
  obtain ⟨i, hlt, htarget⟩ : ∃ i < s.workers.length, s.manager.target ≠ some i := by
    have hpos : 0 < s.workers.length := List.length_pos_iff.mpr hworkers
    by_cases hzero : s.manager.target = some 0
    · have hshrinks : s.manager.shrinks = true := by
        cases hmanager : s.manager <;> rw [hmanager] at hzero <;> first | rfl | cases hzero
      refine ⟨1, h.two hshrinks, ?_⟩
      rw [hzero]
      rintro ⟨⟩
    · exact ⟨0, hpos, hzero⟩
  have hget := List.getElem?_eq_getElem hlt
  exact ⟨i, _, hget, htarget, h.able i _ hget htarget⟩

theorem workers_step (h : Staffed s) (hstep : s.step l = some s') (hworkers : s.workers ≠ []) :
    s'.workers ≠ [] := by
  have hset : ∀ i w, s.workers.set i w ≠ [] := fun i w hnil =>
    hworkers ((List.set_eq_nil_iff _ _).mp hnil)
  cases steps_of_step hstep with
  | execute => exact hworkers
  | work i spurious w w' queue worker step => exact hset i w'
  | manage l manager target quiet two works => exact hworkers
  | hire manager target quiet two => exact List.append_ne_nil_of_right_ne_nil _ (by rintro ⟨⟩)
  | pause i w target worker free shrinks => exact hset i _
  | stop i w manager worker => exact hset i _
  | join i w manager worker exited =>
      have htwo := h.two (by rw [manager]; rfl)
      rw [← List.length_pos_iff]
      have hlength := List.length_eraseIdx_add_one (List.getElem?_eq_some_iff.mp worker).1
      show 0 < (s.workers.eraseIdx i).length
      omega

/-- An executor that has a worker always has one that can work: nobody has told it to stop, the
manager does not hold its lock and does not wait for its end. -/
theorem keeps_a_worker {es : List Label} {t : ElasticState} (hrun : machine.Runs ls s)
    (hfrom : machine.runFrom s es = some t) (hworkers : s.workers ≠ []) :
    ∃ i w, t.workers[i]? = some w ∧ t.manager.target ≠ some i ∧ w.Able := by
  have hkept : Staffed t ∧ t.workers ≠ [] := by
    refine Machine.runFrom_invariant (I := fun t => Staffed t ∧ t.workers ≠ []) ?_
      ⟨staffed_runs hrun, hworkers⟩ hfrom
    rintro a l a' ⟨ha, hworkers⟩ hstep
    exact ⟨ha.step hstep, workers_step ha hstep hworkers⟩
  exact hkept.1.exists_able hkept.2

/-! ## Everything can be run -/

/-- The steps that come without a new task and without a failure for no reason. -/
def Label.settles : Label → Bool
  | .execute => false
  | .work _ spurious | .shrink spurious => !spurious
  | .sample _ | .expand _ | .stop | .join => true

/-- `unsafe_size` finds a task only where there is one. -/
def Backlogged (s : ElasticState) : Label → Prop
  | .expand true => s.queue ≠ []
  | _ => True

instance (s : ElasticState) : ∀ l, Decidable (Backlogged s l)
  | .expand true => inferInstanceAs (Decidable (s.queue ≠ []))
  | .expand false | .execute | .work _ _ | .sample _ | .shrink _ | .stop | .join => .isTrue trivial

def AllRun (n : Nat) (s : ElasticState) : Prop := s.finished.Perm (List.range n)

def turnsLeft (s : ElasticState) : Nat :=
  10 * s.queue.length + (s.workers.map (·.phase.turns)).sum

structure Manned (n : Nat) (s : ElasticState) : Prop where
  staffed : Staffed s
  accounted : Accounted s
  submitted : s.submitted = n
  workers : s.workers ≠ []

theorem Manned.work {n i : Nat} (h : Manned n s) {w w' : WorkerThread} {queue' : List Nat}
    (hw : s.workers[i]? = some w) (hwork : w.step s.queue false = some (w', queue'))
    (hturns : 10 * queue'.length + w'.phase.turns < 10 * s.queue.length + w.phase.turns) :
    ∃ es s', (∀ e ∈ es, Label.settles e = true) ∧
      (machine.restrict Backlogged).runFrom s es = some s' ∧ Manned n s' ∧
      s'.turnsLeft < s.turnsLeft := by
  obtain ⟨s', hs'⟩ : ∃ s', s' = { s with
      queue := queue'
      workers := s.workers.set i w'
      called := s.called ++ w.starting.toList
      finished := s.finished ++ w.inCall.toList } := ⟨_, rfl⟩
  have hstep : s.step (.work i false) = some s' := by
    simp only [ElasticState.step, hw, hwork, hs']
  refine ⟨[.work i false], s', by simp [Label.settles], ?_, ?_, ?_⟩
  · rw [Machine.runFrom_singleton]
    exact Machine.restrict_step.mpr ⟨trivial, hstep⟩
  · exact ⟨h.staffed.step hstep, h.accounted.step hstep, by rw [hs']; exact h.submitted,
      workers_step h.staffed hstep h.workers⟩
  · have hsum := Machine.sum_map_set (fun x : WorkerThread => x.phase.turns) hw w'
    simp only [hs', turnsLeft]
    omega

/-- What is left can be taken up by a worker. -/
theorem Manned.progress {n : Nat} (h : Manned n s) (hleft : ¬ s.AllRun n) :
    ∃ es s', (∀ e ∈ es, Label.settles e = true) ∧
      (machine.restrict Backlogged).runFrom s es = some s' ∧ Manned n s' ∧
      s'.turnsLeft < s.turnsLeft := by
  by_cases hqueue : s.queue = []
  · -- a task that is neither queued nor finished is in somebody's hand
    have hhand : s.workers.filterMap WorkerThread.hand ≠ [] := by
      intro hnil
      apply hleft
      have htasks := h.accounted.tasks
      rw [hqueue, hnil, h.submitted] at htasks
      exact htasks
    obtain ⟨task, htask⟩ := List.exists_mem_of_ne_nil _ hhand
    obtain ⟨w, hmem, hw⟩ := List.mem_filterMap.mp htask
    obtain ⟨i, hi⟩ := List.getElem?_of_mem hmem
    obtain ⟨w', hwork, hturns⟩ := WorkerThread.hand_progress (hw ▸ Option.some_ne_none task) s.queue
    exact h.work hi hwork (by omega)
  · obtain ⟨i, w, hi, -, hable⟩ := h.staffed.exists_able h.workers
    obtain ⟨w', queue', hwork, hturns⟩ := hable.progress hqueue
    exact h.work hi hwork hturns

/-- With a worker all tasks can be run. -/
theorem Manned.canFinish {n : Nat} (h : Manned n s) :
    (machine.restrict Backlogged).CanReach (fun l => Label.settles l = true) (AllRun n) s :=
  Machine.CanReach.of_measure (I := Manned n) turnsLeft (fun _ ha hleft => ha.progress hleft) h

/-- The manager has nobody for the tasks in the queue, and takes someone on. -/
theorem Staffed.canHire (h : Staffed s) (hacc : Accounted s) (hworkers : s.workers = [])
    (hqueue : s.queue ≠ []) :
    ∃ es s', (∀ e ∈ es, Label.settles e = true) ∧
      (machine.restrict Backlogged).runFrom s es = some s' ∧ Manned s.submitted s' := by
  have hexpand : ∀ {s : ElasticState} {load : Load}, Staffed s → Accounted s →
      s.workers = [] → s.queue ≠ [] → s.manager = .expanding load →
      ∃ s', (machine.restrict Backlogged).step s (.expand true) = some s' ∧
        Manned s.submitted s' := by
    intro s load h hacc hworkers hqueue hmanager
    have hstep : s.step (.expand true) =
        some { s with workers := [{}], manager := .sampling } := by
      simp [ElasticState.step, hmanager, hworkers]
    exact ⟨_, Machine.restrict_step.mpr ⟨hqueue, hstep⟩, h.step hstep, hacc.step hstep, rfl,
      List.cons_ne_nil _ _⟩
  have hshrinks : s.manager.shrinks ≠ true := by
    intro hshrinks
    have := h.two hshrinks
    rw [hworkers] at this
    exact absurd this (by decide)
  cases hmanager : s.manager with
  | sampling =>
      have hstep : s.step (.sample .low) = some { s with manager := .expanding .low } := by
        simp [ElasticState.step, hmanager]
      obtain ⟨s', hstep', hmanned⟩ :=
        hexpand (h.step hstep) (hacc.step hstep) hworkers hqueue rfl
      refine ⟨[.sample .low, .expand true], s', by simp [Label.settles], ?_, hmanned⟩
      rw [Machine.runFrom, Machine.restrict_step.mpr ⟨trivial, hstep⟩, Option.bind_some,
        Machine.runFrom_singleton]
      exact hstep'
  | expanding load =>
      obtain ⟨s', hstep, hmanned⟩ := hexpand h hacc hworkers hqueue hmanager
      refine ⟨[.expand true], s', by simp [Label.settles], ?_, hmanned⟩
      rw [Machine.runFrom_singleton]
      exact hstep
  | shrinking i => exact absurd (by rw [hmanager]; rfl) hshrinks
  | erasing i => exact absurd (by rw [hmanager]; rfl) hshrinks
  | joining i => exact absurd (by rw [hmanager]; rfl) hshrinks

/-- No task starves: from every state in which the executor is not being destroyed all tasks that
were submitted can be run to their end, without a new task and without a lock that fails for no
reason; where a worker is missing the manager starts one for the tasks in the queue. -/
theorem can_run_all (hrun : machine.Runs ls s) :
    ∃ es t, (∀ l ∈ es, Label.settles l = true) ∧ machine.Meets Backlogged s es ∧
      machine.runFrom s es = some t ∧ AllRun s.submitted t := by
  have hstaffed := staffed_runs hrun
  have hacc := accounted_runs hrun
  have hreach : (machine.restrict Backlogged).CanReach (fun l => Label.settles l = true)
      (AllRun s.submitted) s := by
    by_cases hworkers : s.workers = []
    · by_cases hqueue : s.queue = []
      · refine .here ?_
        have htasks := hacc.tasks
        rw [hqueue, hworkers] at htasks
        exact htasks
      · obtain ⟨es, s', hes, hrun', hmanned⟩ := hstaffed.canHire hacc hworkers hqueue
        exact hmanned.canFinish.of_runFrom hes hrun'
    · exact Manned.canFinish ⟨hstaffed, hacc, rfl, hworkers⟩
  obtain ⟨es, t, hsettles, hrest, hall⟩ := hreach
  obtain ⟨hfrom, hmeets⟩ := Machine.restrict_runFrom.mp hrest
  exact ⟨es, t, hsettles, hmeets, hfrom, hall⟩

/-- Two workers, one of which the manager is about to erase; a task is in the queue. -/
def shrunk : List Label :=
  [.execute, .sample .low, .expand true, .work 0 false, .work 0 false, .work 0 false,
    .work 0 false, .execute, .sample .high, .expand true, .execute, .sample .low, .expand true,
    .shrink false, .shrink false, .stop]

theorem can_run_all_run :
    ∃ s : ElasticState, machine.Runs shrunk s ∧ s.queue = [1, 2] ∧ s.manager = .joining 1 ∧
      ∃ es t, (∀ l ∈ es, Label.settles l = true) ∧ machine.Meets Backlogged s es ∧
        machine.runFrom s es = some t ∧ AllRun 3 t := by
  have hrun : machine.Runs shrunk _ := rfl
  exact ⟨_, hrun, rfl, rfl, can_run_all hrun⟩

theorem keeps_a_worker_run :
    ∃ s t : ElasticState, machine.Runs shrunk s ∧
      machine.runFrom s [.work 1 false, .join] = some t ∧ t.workers.length = 1 ∧
      ∃ i w, t.workers[i]? = some w ∧ t.manager.target ≠ some i ∧ w.Able := by
  obtain ⟨s, t, hrun, hfrom, hworkers, hlength⟩ : ∃ s t : ElasticState, machine.Runs shrunk s ∧
      machine.runFrom s [.work 1 false, .join] = some t ∧ s.workers ≠ [] ∧
      t.workers.length = 1 := ⟨_, _, rfl, rfl, List.cons_ne_nil _ _, rfl⟩
  exact ⟨s, t, hrun, hfrom, hlength, keeps_a_worker hrun hfrom hworkers⟩

end ElasticState

end Npp.Task
