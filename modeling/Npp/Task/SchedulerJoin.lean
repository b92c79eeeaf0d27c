import Npp.Task.LooperJoin
import Npp.Task.Scheduler

/-!
# Joining the scheduler

The loop of the scheduler has the untimed wait of the looper and a timed one. Here `execute` is cut
in two between its test of the flag and its push, since `shutdown` stores the flag without the
lock; the rest of a step is that of the scheduler.
-/

namespace Npp.Task

open Npp.Foundation

def Worker.stepsLeft (queueEmpty : Bool) : Worker → Nat
  | .enter => if queueEmpty then 7 else 1
  | .waiting false => 6
  | .waiting true => 5
  | .timedWaiting _ _ false => 5
  | .timedWaiting _ _ true => 4
  | .calling _ => 4
  | .testActive => 3
  | .testEmpty => 2
  | .exited => 0

theorem Worker.stepsLeft_le (w : Worker) (queueEmpty : Bool) : w.stepsLeft queueEmpty ≤ 7 := by
  cases w with
  | enter => cases queueEmpty <;> simp [Worker.stepsLeft]
  | waiting notified => cases notified <;> simp [Worker.stepsLeft]
  | timedWaiting e until_ notified => cases notified <;> simp [Worker.stepsLeft]
  | _ => simp [Worker.stepsLeft]

namespace SchedulerState

variable (Q : PriorityQueue DelayedExecutable.scheduledTime)

/-- `execute` after its test of the flag. -/
def pushAndNotify (s : SchedulerState) (delay now₁ now₂ : Int) : SchedulerState :=
  let needNotify :=
    match s.queue.top? with
    | none => true
    | some top => decide (top.delay now₁ > delay)
  let executable := DelayedExecutable.create s.accepted.length delay now₂
  { s with
    queue := Q.push s.queue executable
    notifies := if needNotify then s.notifies + 1 else s.notifies
    accepted := s.accepted ++ [executable] }

theorem execute_eq_pushAndNotify {s : SchedulerState} (h : s.isActive = true)
    (delay now₁ now₂ : Int) :
    s.execute Q delay now₁ now₂ =
      s.pushAndNotify Q (if delay < 0 then 0 else delay) now₁ now₂ := by
  rw [execute, if_pos h]
  rfl

/-- The steps that begin by taking `queue_lock`; a wait ends by taking it again. -/
def Label.locks : Label → Bool
  | .clear => true
  | .enter _ => true
  | .wake _ _ => true
  | .wakeTimed _ _ => true
  | _ => false

end SchedulerState

/-- The scheduler with the delay of an `execute` that holds `queue_lock` and has found the flag
set. -/
structure SchedulerSystem where
  core : SchedulerState := {}
  executing : Option Int := none

namespace SchedulerSystem

inductive Label where
  | begin (delay : Int)
  | finish (now₁ now₂ : Int)
  | other (l : SchedulerState.Label)
deriving DecidableEq, Repr

variable (Q : PriorityQueue DelayedExecutable.scheduledTime)

def step (s : SchedulerSystem) : Label → Option SchedulerSystem
  | .begin delay =>
      if s.executing.isNone then
        some { s with
          executing := if s.core.isActive then some (if delay < 0 then 0 else delay) else none }
      else none
  | .finish now₁ now₂ =>
      match s.executing with
      | some delay => some ⟨s.core.pushAndNotify Q delay now₁ now₂, none⟩
      | none => none
  -- an `execute` comes in its two parts
  | .other (.execute _ _ _) => none
  | .other l =>
      if l.locks ∧ s.executing.isSome then none
      else (s.core.step Q l).map ({ s with core := · })

def machine : Machine SchedulerSystem Label where
  init := {}
  step := step Q

variable {Q} {s s' : SchedulerSystem} {l : Label} {ls : List Label}

/-- An `execute` that nobody interrupts is the scheduler's. -/
theorem begin_finish (hfree : s.executing = none) (hactive : s.core.isActive = true)
    (delay now₁ now₂ : Int) :
    (machine Q).runFrom s [.begin delay, .finish now₁ now₂] =
      some { s with core := s.core.execute Q delay now₁ now₂ } := by
  rw [SchedulerState.execute_eq_pushAndNotify Q hactive]
  simp [Machine.runFrom, machine, step, hfree, hactive]

/-! ## What a step does -/

inductive Transition (Q : PriorityQueue DelayedExecutable.scheduledTime) (s : SchedulerSystem) :
    Label → SchedulerSystem → Prop where
  | begin (delay : Int) (free : s.executing = none) :
      Transition Q s (.begin delay) { s with
        executing := if s.core.isActive then some (if delay < 0 then 0 else delay) else none }
  | finish (delay now₁ now₂ : Int) (executing : s.executing = some delay) :
      Transition Q s (.finish now₁ now₂) ⟨s.core.pushAndNotify Q delay now₁ now₂, none⟩
  | tick (elapsed : Nat) :
      Transition Q s (.other (.tick elapsed))
        { s with core := { s.core with steady := s.core.steady + elapsed } }
  | shutdown (waitForComplete : Bool) :
      Transition Q s (.other (.shutdown waitForComplete))
        { s with core := s.core.shutdown waitForComplete }
  | clear (free : s.executing = none) (clears : 0 < s.core.clears) :
      Transition Q s (.other .clear) { s with core := s.core.clear }
  | notify (notifies : 0 < s.core.notifies) :
      Transition Q s (.other .notify) { s with core := { s.core with
        worker := s.core.worker.notify, notifies := s.core.notifies - 1 } }
  | goOn (worker : s.core.worker = .testActive) (active : s.core.isActive = true) :
      Transition Q s (.other .testActive) { s with core := { s.core with worker := .enter } }
  | goLook (worker : s.core.worker = .testActive) (active : s.core.isActive = false) :
      Transition Q s (.other .testActive) { s with core := { s.core with worker := .testEmpty } }
  | exit (worker : s.core.worker = .testEmpty) (queue : s.core.queue.top? = none) :
      Transition Q s (.other .testEmpty) { s with core := { s.core with worker := .exited } }
  | remain (worker : s.core.worker = .testEmpty) (queue : s.core.queue.top? ≠ none) :
      Transition Q s (.other .testEmpty) { s with core := { s.core with worker := .enter } }
  | wait (now : Int) (worker : s.core.worker = .enter) (free : s.executing = none)
      (queue : s.core.queue.top? = none) :
      Transition Q s (.other (.enter now)) { s with core := { s.core with
        worker := .waiting false } }
  | examine (now : Int) (e : DelayedExecutable) (worker : s.core.worker = .enter)
      (free : s.executing = none) (queue : s.core.queue.top? = some e) :
      Transition Q s (.other (.enter now)) { s with core := s.core.examine Q e now }
  | wakeEmpty (notified spurious : Bool) (now : Int) (worker : s.core.worker = .waiting notified)
      (woken : (notified || spurious) = true) (free : s.executing = none)
      (queue : s.core.queue.top? = none) :
      Transition Q s (.other (.wake spurious now)) { s with core := { s.core with
        worker := .testActive } }
  | wakeExamine (notified spurious : Bool) (now : Int) (e : DelayedExecutable)
      (worker : s.core.worker = .waiting notified) (woken : (notified || spurious) = true)
      (free : s.executing = none) (queue : s.core.queue.top? = some e) :
      Transition Q s (.other (.wake spurious now)) { s with core := s.core.examine Q e now }
  | timeout (spurious : Bool) (e : DelayedExecutable) (until_ : Nat) (notified : Bool)
      (worker : s.core.worker = .timedWaiting e until_ notified) (free : s.executing = none)
      (time : TimedOut until_ s.core.steady) :
      Transition Q s (.other (.wakeTimed true spurious)) { s with core := s.core.popAndUnlock Q e }
  | rewind (spurious : Bool) (e : DelayedExecutable) (until_ : Nat) (notified : Bool)
      (worker : s.core.worker = .timedWaiting e until_ notified) (free : s.executing = none)
      (woken : (notified || spurious) = true) :
      Transition Q s (.other (.wakeTimed false spurious)) { s with core := { s.core with
        worker := .testActive } }
  | call (e : DelayedExecutable) (worker : s.core.worker = .calling e) :
      Transition Q s (.other .call) { s with core := { s.core with
        worker := .testActive, called := s.core.called ++ [e] } }

/-- What the lock means for a step of the scheduler. -/
theorem step_other {k : SchedulerState.Label}
    (hk : ∀ delay now₁ now₂, k ≠ .execute delay now₁ now₂) :
    s.step Q (.other k) = some s' ↔ (k.locks = true → s.executing = none) ∧
      ∃ core, s.core.step Q k = some core ∧ { s with core := core } = s' := by
  have hstep : s.step Q (.other k) = if k.locks ∧ s.executing.isSome then none
      else (s.core.step Q k).map ({ s with core := · }) := by
    cases k with
    | execute delay now₁ now₂ => exact absurd rfl (hk delay now₁ now₂)
    | _ => rfl
  rw [hstep]
  cases hlocks : k.locks <;> cases s.executing <;> simp

theorem transition_of_step (hstep : s.step Q l = some s') : Transition Q s l s' := by
  cases l with
  | begin delay =>
      simp only [step, Option.ite_none_right_eq_some, Option.some.injEq] at hstep
      obtain ⟨hfree, rfl⟩ := hstep
      exact .begin delay (Option.isNone_iff_eq_none.mp hfree)
  | finish now₁ now₂ =>
      simp only [step] at hstep
      split at hstep
      case h_1 delay hexecuting =>
        cases hstep
        exact .finish delay now₁ now₂ hexecuting
      case h_2 => cases hstep
  | other k =>
      by_cases hk : ∀ delay now₁ now₂, k ≠ .execute delay now₁ now₂
      case neg =>
        push Not at hk
        obtain ⟨delay, now₁, now₂, rfl⟩ := hk
        cases hstep
      obtain ⟨hfree, core, hcore, rfl⟩ := (step_other hk).mp hstep
      cases k with
      | tick elapsed =>
          cases hcore
          exact .tick elapsed
      | execute delay now₁ now₂ => exact absurd rfl (hk delay now₁ now₂)
      | shutdown waitForComplete =>
          cases hcore
          exact .shutdown waitForComplete
      | clear =>
          simp only [SchedulerState.step, Option.ite_none_right_eq_some, Option.some.injEq] at hcore
          obtain ⟨hclears, rfl⟩ := hcore
          exact .clear (hfree rfl) hclears
      | notify =>
          simp only [SchedulerState.step, Option.ite_none_right_eq_some, Option.some.injEq] at hcore
          obtain ⟨hnotifies, rfl⟩ := hcore
          exact .notify hnotifies
      | testActive =>
          simp only [SchedulerState.step, Option.ite_none_right_eq_some, Option.some.injEq] at hcore
          obtain ⟨hworker, rfl⟩ := hcore
          split
          case isTrue hactive => exact .goOn hworker hactive
          case isFalse hactive => exact .goLook hworker (Bool.eq_false_iff.mpr hactive)
      | testEmpty =>
          simp only [SchedulerState.step, Option.ite_none_right_eq_some, Option.some.injEq] at hcore
          obtain ⟨hworker, rfl⟩ := hcore
          split
          case isTrue hqueue => exact .exit hworker (Option.isNone_iff_eq_none.mp hqueue)
          case isFalse hqueue =>
            exact .remain hworker fun hnone => hqueue (Option.isNone_iff_eq_none.mpr hnone)
      | enter now =>
          simp only [SchedulerState.step, Option.ite_none_right_eq_some] at hcore
          obtain ⟨hworker, hcore⟩ := hcore
          split at hcore
          case h_1 hqueue =>
            cases hcore
            exact .wait now hworker (hfree rfl) hqueue
          case h_2 e hqueue =>
            cases hcore
            exact .examine now e hworker (hfree rfl) hqueue
      | wake spurious now =>
          simp only [SchedulerState.step] at hcore
          split at hcore
          case h_1 notified hworker =>
            rw [Option.ite_none_right_eq_some] at hcore
            obtain ⟨hwoken, hcore⟩ := hcore
            split at hcore
            case h_1 hqueue =>
              cases hcore
              exact .wakeEmpty notified spurious now hworker hwoken (hfree rfl) hqueue
            case h_2 e hqueue =>
              cases hcore
              exact .wakeExamine notified spurious now e hworker hwoken (hfree rfl) hqueue
          case h_2 => cases hcore
      | wakeTimed timeout spurious =>
          simp only [SchedulerState.step] at hcore
          split at hcore
          case h_1 e until_ notified hworker =>
            cases timeout with
            | true =>
                simp only [if_true, Option.ite_none_right_eq_some, Option.some.injEq] at hcore
                obtain ⟨htime, rfl⟩ := hcore
                exact .timeout spurious e until_ notified hworker (hfree rfl) htime
            | false =>
                simp only [Bool.false_eq_true, if_false, Option.ite_none_right_eq_some,
                  Option.some.injEq] at hcore
                obtain ⟨hwoken, rfl⟩ := hcore
                exact .rewind spurious e until_ notified hworker (hfree rfl) hwoken
          case h_2 => cases hcore
      | call =>
          simp only [SchedulerState.step] at hcore
          split at hcore
          case h_1 e hworker =>
            cases hcore
            exact .call e hworker
          case h_2 => cases hcore

theorem step_of_transition (h : Transition Q s l s') : s.step Q l = some s' := by
  cases h with
  | begin delay free => simp [step, free]
  | finish delay now₁ now₂ executing => simp [step, executing]
  | tick elapsed => rfl
  | shutdown waitForComplete => rfl
  | clear free clears => simp [step, SchedulerState.step, free, clears]
  | notify notifies =>
      simp [step, SchedulerState.step, notifies, SchedulerState.Label.locks]
  | goOn worker active =>
      simp [step, SchedulerState.step, worker, active, SchedulerState.Label.locks]
  | goLook worker active =>
      simp [step, SchedulerState.step, worker, active, SchedulerState.Label.locks]
  | exit worker queue =>
      simp [step, SchedulerState.step, worker, queue, SchedulerState.Label.locks]
  | remain worker queue =>
      simp [step, SchedulerState.step, worker, queue, SchedulerState.Label.locks]
  | wait now worker free queue => simp [step, SchedulerState.step, worker, free, queue]
  | examine now e worker free queue => simp [step, SchedulerState.step, worker, free, queue]
  | wakeEmpty notified spurious now worker woken free queue =>
      simp [step, SchedulerState.step, worker, free, queue, woken]
  | wakeExamine notified spurious now e worker woken free queue =>
      simp [step, SchedulerState.step, worker, free, queue, woken]
  | timeout spurious e until_ notified worker free time =>
      simp [step, SchedulerState.step, worker, free, time]
  | rewind spurious e until_ notified worker free woken =>
      simp [step, SchedulerState.step, worker, free, woken]
  | call e worker => simp [step, SchedulerState.step, worker, SchedulerState.Label.locks]

theorem step_iff : s.step Q l = some s' ↔ Transition Q s l s' :=
  ⟨transition_of_step, step_of_transition⟩

theorem examine_cases (c : SchedulerState) (e : DelayedExecutable) (now : Int) :
    (∃ until_, c.examine Q e now = { c with worker := .timedWaiting e until_ false }) ∨
      c.examine Q e now = c.popAndUnlock Q e := by
  unfold SchedulerState.examine
  split
  case isTrue => exact Or.inl ⟨_, rfl⟩
  case isFalse => exact Or.inr rfl

/-- After its look at the top the worker is neither in the untimed wait nor on its way there. -/
theorem examine_busy (c : SchedulerState) (e : DelayedExecutable) (now : Int) :
    (c.examine Q e now).worker ≠ .enter ∧ (c.examine Q e now).worker ≠ .waiting false := by
  rcases examine_cases (Q := Q) c e now with ⟨until_, h⟩ | h <;> rw [h] <;>
    exact ⟨(by rintro ⟨⟩), (by rintro ⟨⟩)⟩

/-! ## Lost wakeups -/

/-- The steps that come without a new call and without a spurious wakeup. -/
def Label.due : Label → Bool
  | .begin _ => false
  | .other (.shutdown _) => false
  | .other (.wake spurious _) => !spurious
  | .other (.wakeTimed timeout spurious) => timeout || !spurious
  | _ => true

/-- The flag is down, the queue is empty, and no call that has begun will notify. -/
structure Deserted (s : SchedulerSystem) : Prop where
  isActive : s.core.isActive = false
  queue : s.core.queue.top? = none
  executing : s.executing = none
  clears : s.core.clears = 0
  notifies : s.core.notifies = 0

/-- The worker is in the untimed wait, and nobody will notify it. -/
def Stranded (s : SchedulerSystem) : Prop := s.core.worker = .waiting false ∧ s.Deserted

/-- The worker is in the untimed wait or about to be, and nobody will notify it. -/
def Doomed (s : SchedulerSystem) : Prop :=
  (s.core.worker = .enter ∨ s.core.worker = .waiting false) ∧ s.Deserted

/-- What shutting down needs: the worker is not stranded, and it can leave its loop. -/
def Joinable (Q : PriorityQueue DelayedExecutable.scheduledTime) (s : SchedulerSystem) : Prop :=
  ¬ s.Stranded ∧ (s.core.isActive = false →
    (machine Q).CanReach (fun l => l.due = true) (fun t => t.core.worker = .exited) s)

/-- A notification that finds the worker between its loop test and its wait, with the flag down
and the queue empty, is not the last one to come. -/
def LastHeard (s : SchedulerSystem) (l : Label) : Prop :=
  l = .other .notify → s.core.worker = .enter → s.core.isActive = false →
    s.core.queue.top? = none → s.executing = none → s.core.clears = 0 → 1 < s.core.notifies

instance (s : SchedulerSystem) (l : Label) : Decidable (LastHeard s l) :=
  inferInstanceAs (Decidable (l = .other .notify → s.core.worker = .enter →
    s.core.isActive = false → s.core.queue.top? = none → s.executing = none →
    s.core.clears = 0 → 1 < s.core.notifies))

theorem Doomed.step (h : Doomed s) (hdue : l.due = true) (hstep : s.step Q l = some s') :
    Doomed s' := by
  obtain ⟨hworker, hdesert⟩ := h
  cases step_iff.mp hstep with
  | begin delay free => cases hdue
  | finish delay now₁ now₂ executing => cases hdesert.executing.symm.trans executing
  | tick elapsed =>
      exact ⟨hworker, hdesert.isActive, hdesert.queue, hdesert.executing, hdesert.clears,
        hdesert.notifies⟩
  | shutdown waitForComplete => cases hdue
  | clear free clears => exact absurd clears (by rw [hdesert.clears]; exact Nat.lt_irrefl 0)
  | notify notifies => exact absurd notifies (by rw [hdesert.notifies]; exact Nat.lt_irrefl 0)
  | goOn worker active => rcases hworker with hw | hw <;> cases hw.symm.trans worker
  | goLook worker active => rcases hworker with hw | hw <;> cases hw.symm.trans worker
  | exit worker queue => rcases hworker with hw | hw <;> cases hw.symm.trans worker
  | remain worker queue => rcases hworker with hw | hw <;> cases hw.symm.trans worker
  | wait now worker free queue =>
      exact ⟨Or.inr rfl, hdesert.isActive, queue, free, hdesert.clears, hdesert.notifies⟩
  | examine now e worker free queue => cases hdesert.queue.symm.trans queue
  | wakeEmpty notified spurious now worker woken free queue =>
      rcases hworker with hw | hw
      · cases hw.symm.trans worker
      · cases hw.symm.trans worker
        cases spurious <;> cases hdue
        cases woken
  | wakeExamine notified spurious now e worker woken free queue =>
      cases hdesert.queue.symm.trans queue
  | timeout spurious e until_ notified worker free time =>
      rcases hworker with hw | hw <;> cases hw.symm.trans worker
  | rewind spurious e until_ notified worker free woken =>
      rcases hworker with hw | hw <;> cases hw.symm.trans worker
  | call e worker => rcases hworker with hw | hw <;> cases hw.symm.trans worker

theorem Doomed.not_joinable (h : Doomed s) : ¬ Joinable Q s := by
  rintro ⟨-, hjoin⟩
  refine Machine.not_canReach (I := Doomed) ?_ ?_ h (hjoin h.2.isActive)
  · intro a l a' ha hdue hstep
    exact ha.step hdue hstep
  · rintro a ⟨hw | hw, -⟩ hexited <;> cases hw.symm.trans hexited

/-- One kind of step dooms the worker: a last notification that it does not hear. -/
theorem doomed_step (h : ¬ Doomed s) (hstep : s.step Q l = some s') :
    ¬ Doomed s' ↔ LastHeard s l := by
  constructor
  · rintro hnot rfl hworker hactive hqueue hexecuting hclears
    cases step_iff.mp hstep with
    | notify notifies =>
        by_contra hlast
        apply hnot
        refine ⟨Or.inl ?_, hactive, hqueue, hexecuting, hclears, ?_⟩
        · show s.core.worker.notify = .enter
          rw [hworker]
          rfl
        · show s.core.notifies - 1 = 0
          omega
  · rintro hheard ⟨hworker, hdesert⟩
    cases step_iff.mp hstep with
    | begin delay free =>
        exact h ⟨hworker, hdesert.isActive, hdesert.queue, free, hdesert.clears, hdesert.notifies⟩
    | finish delay now₁ now₂ executing =>
        exact Q.push_top?_ne_none _ _ hdesert.queue
    | tick elapsed =>
        exact h ⟨hworker, hdesert.isActive, hdesert.queue, hdesert.executing, hdesert.clears,
          hdesert.notifies⟩
    | shutdown waitForComplete =>
        cases waitForComplete with
        | true => exact absurd hdesert.notifies (Nat.succ_ne_zero _)
        | false => exact absurd hdesert.clears (Nat.succ_ne_zero _)
    | clear free clears => exact absurd hdesert.notifies (Nat.succ_ne_zero _)
    | notify notifies =>
        have hlast : s.core.notifies - 1 = 0 := hdesert.notifies
        have henter : s.core.worker = .enter := by
          cases hw : s.core.worker <;> simp [hw, Worker.notify] at hworker ⊢
        have := hheard rfl henter hdesert.isActive hdesert.queue hdesert.executing hdesert.clears
        omega
    | goOn worker active => cases active.symm.trans hdesert.isActive
    | goLook worker active => rcases hworker with hw | hw <;> cases hw
    | exit worker queue => rcases hworker with hw | hw <;> cases hw
    | remain worker queue => exact queue hdesert.queue
    | wait now worker free queue =>
        exact h ⟨Or.inl worker, hdesert.isActive, queue, free, hdesert.clears, hdesert.notifies⟩
    | examine now e worker free queue =>
        rcases hworker with hw | hw
        · exact (examine_busy s.core e now).1 hw
        · exact (examine_busy s.core e now).2 hw
    | wakeEmpty notified spurious now worker woken free queue =>
        rcases hworker with hw | hw <;> cases hw
    | wakeExamine notified spurious now e worker woken free queue =>
        rcases hworker with hw | hw
        · exact (examine_busy s.core e now).1 hw
        · exact (examine_busy s.core e now).2 hw
    | timeout spurious e until_ notified worker free time =>
        rcases hworker with hw | hw <;> cases hw
    | rewind spurious e until_ notified worker free woken =>
        rcases hworker with hw | hw <;> cases hw
    | call e worker => rcases hworker with hw | hw <;> cases hw

/-- A worker in the untimed wait with work to do is going to be notified, and so is one in the
timed wait without work. -/
structure Attended (s : SchedulerSystem) : Prop where
  waiting : s.core.worker = .waiting false → s.core.queue.top? ≠ none → 0 < s.core.notifies
  timed : ∀ e until_, s.core.worker = .timedWaiting e until_ false → s.core.queue.top? = none →
    0 < s.core.notifies

theorem Attended.of_busy (hwaiting : s.core.worker ≠ .waiting false)
    (htimed : ∀ e until_, s.core.worker ≠ .timedWaiting e until_ false) : Attended s :=
  ⟨fun hw => absurd hw hwaiting, fun e until_ hw => absurd hw (htimed e until_)⟩

theorem Attended.examined {c : SchedulerState} {e : DelayedExecutable}
    (hqueue : c.queue.top? = some e) (now : Int) (executing : Option Int) :
    Attended ⟨c.examine Q e now, executing⟩ := by
  rcases examine_cases (Q := Q) c e now with ⟨until_, h⟩ | h
  · rw [h]
    refine ⟨by rintro ⟨⟩, ?_⟩
    intro _ _ _ hnone
    cases hqueue.symm.trans hnone
  · rw [h]
    exact .of_busy (by rintro ⟨⟩) (by rintro _ _ ⟨⟩)

theorem pushAndNotify_notifies (c : SchedulerState) (delay now₁ now₂ : Int) :
    c.notifies ≤ (c.pushAndNotify Q delay now₁ now₂).notifies ∧
      (c.queue.top? = none → 0 < (c.pushAndNotify Q delay now₁ now₂).notifies) := by
  constructor
  · have hle : ∀ needNotify : Bool,
        c.notifies ≤ if needNotify then c.notifies + 1 else c.notifies := by
      intro needNotify
      cases needNotify with
      | true => exact Nat.le_succ _
      | false => exact Nat.le_refl _
    exact hle _
  · intro hqueue
    simp [SchedulerState.pushAndNotify, hqueue]

theorem Attended.step (h : Attended s) (hstep : s.step Q l = some s') : Attended s' := by
  cases step_iff.mp hstep with
  | begin delay free => exact ⟨h.waiting, h.timed⟩
  | finish delay now₁ now₂ executing =>
      obtain ⟨hle, hpos⟩ := pushAndNotify_notifies (Q := Q) s.core delay now₁ now₂
      constructor
      · intro hworker _
        by_cases hqueue : s.core.queue.top? = none
        · exact hpos hqueue
        · exact Nat.lt_of_lt_of_le (h.waiting hworker hqueue) hle
      · intro _ _ _ hnone
        exact absurd hnone (Q.push_top?_ne_none _ _)
  | tick elapsed => exact ⟨h.waiting, h.timed⟩
  | shutdown waitForComplete =>
      cases waitForComplete with
      | true => exact ⟨fun _ _ => Nat.succ_pos _, fun _ _ _ _ => Nat.succ_pos _⟩
      | false => exact ⟨h.waiting, h.timed⟩
  | clear free clears => exact ⟨fun _ _ => Nat.succ_pos _, fun _ _ _ _ => Nat.succ_pos _⟩
  | notify notifies =>
      constructor
      · intro hworker
        cases hw : s.core.worker <;> simp [hw, Worker.notify] at hworker
      · intro _ _ hworker
        cases hw : s.core.worker <;> simp [hw, Worker.notify] at hworker
  | wait now worker free queue =>
      refine ⟨fun _ hqueue => absurd queue hqueue, ?_⟩
      rintro _ _ ⟨⟩
  | goOn worker active => exact .of_busy (by rintro ⟨⟩) (by rintro _ _ ⟨⟩)
  | goLook worker active => exact .of_busy (by rintro ⟨⟩) (by rintro _ _ ⟨⟩)
  | exit worker queue => exact .of_busy (by rintro ⟨⟩) (by rintro _ _ ⟨⟩)
  | remain worker queue => exact .of_busy (by rintro ⟨⟩) (by rintro _ _ ⟨⟩)
  | examine now e worker free queue => exact .examined queue now _
  | wakeEmpty notified spurious now worker woken free queue =>
      exact .of_busy (by rintro ⟨⟩) (by rintro _ _ ⟨⟩)
  | wakeExamine notified spurious now e worker woken free queue => exact .examined queue now _
  | timeout spurious e until_ notified worker free time =>
      exact .of_busy (by rintro ⟨⟩) (by rintro _ _ ⟨⟩)
  | rewind spurious e until_ notified worker free woken =>
      exact .of_busy (by rintro ⟨⟩) (by rintro _ _ ⟨⟩)
  | call e worker => exact .of_busy (by rintro ⟨⟩) (by rintro _ _ ⟨⟩)

theorem attended_init : Attended (machine Q).init :=
  .of_busy (by rintro ⟨⟩) (by rintro _ _ ⟨⟩)

/-! ## The way to the exit -/

structure Roused (s : SchedulerSystem) : Prop where
  isActive : s.core.isActive = false
  waiting : s.core.worker = .waiting false → s.executing = none → s.core.clears = 0 →
    0 < s.core.notifies
  entering : s.core.worker = .enter → s.core.queue.top? = none → s.executing = none →
    s.core.clears = 0 → 0 < s.core.notifies
  attended : Attended s

theorem Roused.of_busy (hactive : s.core.isActive = false)
    (hwaiting : s.core.worker ≠ .waiting false) (henter : s.core.worker ≠ .enter)
    (htimed : ∀ e until_, s.core.worker ≠ .timedWaiting e until_ false) : Roused s :=
  ⟨hactive, fun hw => absurd hw hwaiting, fun hw => absurd hw henter,
    .of_busy hwaiting htimed⟩

theorem Roused.of_notifies (hactive : s.core.isActive = false) (h : 0 < s.core.notifies) :
    Roused s :=
  ⟨hactive, fun _ _ _ => h, fun _ _ _ _ => h, fun _ _ => h, fun _ _ _ _ => h⟩

theorem Roused.of_not_doomed (hactive : s.core.isActive = false) (hattended : Attended s)
    (h : ¬ Doomed s) : Roused s := by
  refine ⟨hactive, ?_, ?_, hattended⟩
  · intro hworker hexecuting hclears
    by_cases hqueue : s.core.queue.top? = none
    · apply Nat.pos_of_ne_zero
      intro hnotifies
      exact h ⟨Or.inr hworker, hactive, hqueue, hexecuting, hclears, hnotifies⟩
    · exact hattended.waiting hworker hqueue
  · intro hworker hqueue hexecuting hclears
    apply Nat.pos_of_ne_zero
    intro hnotifies
    exact h ⟨Or.inl hworker, hactive, hqueue, hexecuting, hclears, hnotifies⟩

def stepsLeft (s : SchedulerSystem) : Nat :=
  20 * s.executing.toList.length + 10 * s.core.queue.elems.length + s.core.clears +
    s.core.worker.stepsLeft s.core.queue.top?.isNone

def Advances (Q : PriorityQueue DelayedExecutable.scheduledTime) (s : SchedulerSystem) : Prop :=
  ∃ ls s', (∀ l ∈ ls, l.due = true) ∧ (machine Q).runFrom s ls = some s' ∧ Roused s' ∧
    s'.stepsLeft < s.stepsLeft

theorem Advances.of_transition (htransition : Transition Q s l s') (hdue : l.due = true)
    (hroused : Roused s') (hlt : s'.stepsLeft < s.stepsLeft) : Advances Q s := by
  refine ⟨[l], s', ?_, ?_, hroused, hlt⟩
  · intro x hx
    rw [List.mem_singleton.mp hx]
    exact hdue
  · rw [Machine.runFrom_singleton]
    exact step_iff.mpr htransition

/-- When the clock shows the scheduled time, the element is due and the worker takes it. -/
theorem examine_now {c : SchedulerState} {e : DelayedExecutable} :
    c.examine Q e e.scheduledTime = c.popAndUnlock Q e := by
  have hdelay : ¬ e.delay e.scheduledTime > 0 := by
    simp [DelayedExecutable.delay, longLong]
  rw [SchedulerState.examine, if_neg hdelay]

theorem Roused.popped (h : Roused s) (e : DelayedExecutable) :
    Roused { s with core := s.core.popAndUnlock Q e } :=
  .of_busy h.isActive (by rintro ⟨⟩) (by rintro ⟨⟩) (by rintro _ _ ⟨⟩)

/-- To pop an element is worth ten steps. -/
theorem popped_stepsLeft (e : DelayedExecutable) (hqueue : s.core.queue.top? ≠ none)
    (hworker : 0 < s.core.worker.stepsLeft false) :
    ({ s with core := s.core.popAndUnlock Q e } : SchedulerSystem).stepsLeft < s.stepsLeft := by
  have hlength := Q.pop_length hqueue
  have hsome : s.core.queue.top?.isNone = false := by
    rw [Option.isNone_eq_false_iff, Option.isSome_iff_ne_none]
    exact hqueue
  have hbefore : 1 ≤ s.core.worker.stepsLeft false := hworker
  simp only [stepsLeft, SchedulerState.popAndUnlock, Worker.stepsLeft, hsome]
  omega

/-- Time passes until the timed wait is over. -/
theorem Roused.timeout_advances (h : Roused s) (hexecuting : s.executing = none)
    {e : DelayedExecutable} {until_ : Nat} (hworker : s.core.worker = .timedWaiting e until_ false)
    (hqueue : s.core.queue.top? ≠ none) : Advances Q s := by
  let later : SchedulerSystem :=
    { s with core := { s.core with steady := s.core.steady + until_ } }
  have htick : (machine Q).runFrom s [.other (.tick until_)] = some later := rfl
  have hwaiting : later.core.worker = .timedWaiting e until_ false := hworker
  have hfree : later.executing = none := hexecuting
  have htime : TimedOut until_ later.core.steady := .of_le (Nat.le_add_left _ _)
  have htimeout : (machine Q).step later (.other (.wakeTimed true false)) =
      some { later with core := later.core.popAndUnlock Q e } :=
    step_iff.mpr (.timeout false e until_ false hwaiting hfree htime)
  have hlater : Roused later :=
    ⟨h.isActive, h.waiting, h.entering, h.attended.waiting, h.attended.timed⟩
  refine ⟨[.other (.tick until_)] ++ [.other (.wakeTimed true false)], _, ?_,
    Machine.runFrom_snoc.mpr ⟨later, htick, htimeout⟩, hlater.popped e, ?_⟩
  · simp [Label.due]
  · have hlt : ({ later with core := later.core.popAndUnlock Q e } : SchedulerSystem).stepsLeft <
        later.stepsLeft := by
      apply popped_stepsLeft e hqueue
      show 0 < s.core.worker.stepsLeft false
      rw [hworker]
      exact Nat.succ_pos _
    exact hlt

theorem Roused.worker_advances (h : Roused s) (hexecuting : s.executing = none)
    (hclears : s.core.clears = 0) (hexited : s.core.worker ≠ .exited) : Advances Q s := by
  cases hworker : s.core.worker with
  | testActive =>
      refine .of_transition (.goLook hworker h.isActive) rfl ?_ ?_
      · exact .of_busy h.isActive (by rintro ⟨⟩) (by rintro ⟨⟩) (by rintro _ _ ⟨⟩)
      · simp [stepsLeft, hworker, Worker.stepsLeft]
  | testEmpty =>
      by_cases hqueue : s.core.queue.top? = none
      · refine .of_transition (.exit hworker hqueue) rfl ?_ ?_
        · exact .of_busy h.isActive (by rintro ⟨⟩) (by rintro ⟨⟩) (by rintro _ _ ⟨⟩)
        · simp [stepsLeft, hworker, Worker.stepsLeft]
      · refine .of_transition (.remain hworker hqueue) rfl ?_ ?_
        · exact ⟨h.isActive, (by rintro ⟨⟩), fun _ hnone => absurd hnone hqueue,
            .of_busy (by rintro ⟨⟩) (by rintro _ _ ⟨⟩)⟩
        · have hsome : s.core.queue.top?.isNone = false := by
            rw [Option.isNone_eq_false_iff, Option.isSome_iff_ne_none]
            exact hqueue
          simp [stepsLeft, hworker, hsome, Worker.stepsLeft]
  | enter =>
      cases hqueue : s.core.queue.top? with
      | none =>
          refine .of_transition (.wait 0 hworker hexecuting hqueue) rfl ?_ ?_
          · exact .of_notifies h.isActive (h.entering hworker hqueue hexecuting hclears)
          · simp [stepsLeft, hworker, hqueue, Worker.stepsLeft]
      | some e =>
          refine .of_transition (.examine e.scheduledTime e hworker hexecuting hqueue) rfl ?_ ?_
          · rw [examine_now]
            exact h.popped e
          · rw [examine_now]
            apply popped_stepsLeft e
            · rw [hqueue]
              exact Option.some_ne_none e
            · rw [hworker]
              exact Nat.one_pos
  | waiting notified =>
      cases notified with
      | false =>
          refine .of_transition (.notify (h.waiting hworker hexecuting hclears)) rfl ?_ ?_
          · refine .of_busy h.isActive ?_ ?_ ?_ <;> simp [hworker, Worker.notify]
          · simp [stepsLeft, hworker, Worker.stepsLeft, Worker.notify]
      | true =>
          cases hqueue : s.core.queue.top? with
          | none =>
              refine .of_transition (.wakeEmpty true false 0 hworker rfl hexecuting hqueue)
                rfl ?_ ?_
              · exact .of_busy h.isActive (by rintro ⟨⟩) (by rintro ⟨⟩) (by rintro _ _ ⟨⟩)
              · simp [stepsLeft, hworker, Worker.stepsLeft]
          | some e =>
              refine .of_transition
                (.wakeExamine true false e.scheduledTime e hworker rfl hexecuting hqueue) rfl ?_ ?_
              · rw [examine_now]
                exact h.popped e
              · rw [examine_now]
                apply popped_stepsLeft e
                · rw [hqueue]
                  exact Option.some_ne_none e
                · rw [hworker]
                  exact Nat.succ_pos _
  | timedWaiting e until_ notified =>
      cases notified with
      | true =>
          refine .of_transition (.rewind false e until_ true hworker hexecuting rfl) rfl ?_ ?_
          · exact .of_busy h.isActive (by rintro ⟨⟩) (by rintro ⟨⟩) (by rintro _ _ ⟨⟩)
          · simp [stepsLeft, hworker, Worker.stepsLeft]
      | false =>
          rcases Nat.eq_zero_or_pos s.core.notifies with hnotifies | hnotifies
          · -- time passes until the wait is over
            have hqueue : s.core.queue.top? ≠ none := by
              intro hnone
              have hpos := h.attended.timed e until_ hworker hnone
              rw [hnotifies] at hpos
              exact Nat.lt_irrefl 0 hpos
            exact h.timeout_advances hexecuting hworker hqueue
          · refine .of_transition (.notify hnotifies) rfl ?_ ?_
            · refine .of_busy h.isActive ?_ ?_ ?_ <;> simp [hworker, Worker.notify]
            · simp [stepsLeft, hworker, Worker.stepsLeft, Worker.notify]
  | calling e =>
      refine .of_transition (.call e hworker) rfl ?_ ?_
      · exact .of_busy h.isActive (by rintro ⟨⟩) (by rintro ⟨⟩) (by rintro _ _ ⟨⟩)
      · simp [stepsLeft, hworker, Worker.stepsLeft]
  | exited => exact absurd hworker hexited

theorem Roused.finished (h : Roused s) {delay : Int} (hexecuting : s.executing = some delay)
    (now₁ now₂ : Int) : Roused ⟨s.core.pushAndNotify Q delay now₁ now₂, none⟩ := by
  have hattended : Attended ⟨s.core.pushAndNotify Q delay now₁ now₂, none⟩ :=
    h.attended.step (step_iff.mpr (.finish delay now₁ now₂ hexecuting))
  have hpushed := Q.push_top?_ne_none s.core.queue
    (DelayedExecutable.create s.core.accepted.length delay now₂)
  refine ⟨h.isActive, ?_, ?_, hattended⟩
  · intro hworker _ _
    exact hattended.waiting hworker hpushed
  · intro _ hnone
    exact absurd hnone hpushed

theorem Roused.advances (h : Roused s) (hexited : s.core.worker ≠ .exited) : Advances Q s := by
  cases hexecuting : s.executing with
  | some delay =>
      refine .of_transition (.finish delay 0 0 hexecuting) rfl ?_ ?_
      · exact h.finished hexecuting 0 0
      · have hle := Worker.stepsLeft_le s.core.worker
          (s.core.pushAndNotify Q delay 0 0).queue.top?.isNone
        have hlength : (s.core.pushAndNotify Q delay 0 0).queue.elems.length =
            s.core.queue.elems.length + 1 := (Q.push_perm _ _).length_eq
        have hworker : (s.core.pushAndNotify Q delay 0 0).worker = s.core.worker := rfl
        have hclears : (s.core.pushAndNotify Q delay 0 0).clears = s.core.clears := rfl
        simp only [stepsLeft, hexecuting, hlength, hworker, hclears, Option.toList_some,
          Option.toList_none, List.length_singleton, List.length_nil]
        omega
  | none =>
      rcases Nat.eq_zero_or_pos s.core.clears with hclears | hclears
      · exact h.worker_advances hexecuting hclears hexited
      · refine .of_transition (.clear hexecuting hclears) rfl ?_ ?_
        · exact .of_notifies h.isActive (Nat.succ_pos _)
        · have hle := Worker.stepsLeft_le s.core.worker true
          cases hqueue : s.core.queue.top? with
          | none =>
              have hnil : s.core.queue.elems = [] := List.head?_eq_none_iff.mp hqueue
              show 20 * s.executing.toList.length + 10 * 0 + (s.core.clears - 1) +
                s.core.worker.stepsLeft true < s.stepsLeft
              simp only [stepsLeft, hqueue, hnil, Option.isNone_none, List.length_nil]
              omega
          | some e =>
              have hlength := Q.pop_length (hqueue ▸ Option.some_ne_none e)
              show 20 * s.executing.toList.length + 10 * 0 + (s.core.clears - 1) +
                s.core.worker.stepsLeft true < s.stepsLeft
              simp only [stepsLeft]
              omega

theorem Roused.canExit (h : Roused s) :
    (machine Q).CanReach (fun l => l.due = true) (fun t => t.core.worker = .exited) s := by
  apply Machine.CanReach.of_measure (I := Roused) stepsLeft ?_ h
  intro a ha hexited
  exact ha.advances hexited

theorem joinable_iff (hattended : Attended s) : Joinable Q s ↔ ¬ Doomed s := by
  constructor
  · intro hjoin hdoom
    exact hdoom.not_joinable hjoin
  · intro hdoom
    constructor
    · rintro ⟨hworker, hdesert⟩
      exact hdoom ⟨Or.inr hworker, hdesert⟩
    · intro hactive
      exact (Roused.of_not_doomed hactive hattended hdoom).canExit

theorem joinable_runs (hrun : (machine Q).Runs ls s) :
    (machine Q).Meets LastHeard (machine Q).init ls ↔
      ∀ pre t, pre <+: ls → (machine Q).Runs pre t → Joinable Q t := by
  have hstart : ¬ Doomed (machine Q).init := by
    rintro ⟨hw | hw, -⟩ <;> cases hw
  apply hrun.meets_iff_of_invariant (I := fun s => ¬ Doomed s) attended_init hstart
  · intro s l s' h hstep
    exact h.step hstep
  · intro s l s' _ h hstep
    exact doomed_step h hstep
  · intro s h
    exact joinable_iff h

/-- A worker that is doomed by an unheard notification is stranded as soon as it goes on. -/
theorem stranded_of_breach (hrun : (machine Q).Runs ls s)
    (hbreach : ¬ (machine Q).Meets LastHeard (machine Q).init ls) :
    ∃ pre post t, ls = pre ++ .other .notify :: post ∧
      (machine Q).Runs (pre ++ [.other .notify, .other (.enter 0)]) t ∧ Stranded t := by
  obtain ⟨pre, l, post, a, a', rfl, ha, -, hc, hstep, -⟩ := hrun.exists_breach hbreach
  simp only [LastHeard, Classical.not_imp] at hc
  obtain ⟨rfl, hworker, hactive, hqueue, hexecuting, hclears, hlast⟩ := hc
  have ha' : (machine Q).Runs (pre ++ [.other .notify]) a' := Machine.runs_snoc.mpr ⟨a, ha, hstep⟩
  change a.step Q (.other .notify) = some a' at hstep
  cases step_iff.mp hstep with
  | notify notifies =>
      have henter : a.core.worker.notify = .enter := by
        rw [hworker]
        rfl
      have hwait := step_iff.mpr (.wait 0 henter hexecuting hqueue :
        Transition Q { a with core := { a.core with
          worker := a.core.worker.notify, notifies := a.core.notifies - 1 } } _ _)
      have hrun' : (machine Q).Runs (pre ++ [.other .notify] ++ [.other (.enter 0)]) _ :=
        Machine.runs_snoc.mpr ⟨_, ha', hwait⟩
      rw [List.append_assoc] at hrun'
      refine ⟨pre, post, _, rfl, hrun', rfl, hactive, hqueue, hexecuting, hclears, ?_⟩
      show a.core.notifies - 1 = 0
      omega

end SchedulerSystem

/-- **No wakeup is lost at shutdown**, for the looper and for the scheduler, exactly when every
notification that finds the worker between its loop test and its wait, with the flag down and the
queue empty, is followed by another one. Otherwise the worker may wait for ever. -/
theorem joinable_at_shutdown_iff (F : Type) (Q : PriorityQueue DelayedExecutable.scheduledTime) :
    (∀ ls s, (LooperState.machine F).Runs ls s →
      ((LooperState.machine F).Meets LooperState.LastHeard (LooperState.machine F).init ls ↔
        ∀ pre t, pre <+: ls → (LooperState.machine F).Runs pre t → t.Joinable) ∧
      (¬ (LooperState.machine F).Meets LooperState.LastHeard (LooperState.machine F).init ls →
        ∃ pre post t, ls = pre ++ .notify :: post ∧
          (LooperState.machine F).Runs (pre ++ [.notify, .enter]) t ∧ t.Stranded)) ∧
    (∀ ls s, (SchedulerSystem.machine Q).Runs ls s →
      ((SchedulerSystem.machine Q).Meets SchedulerSystem.LastHeard
          (SchedulerSystem.machine Q).init ls ↔
        ∀ pre t, pre <+: ls → (SchedulerSystem.machine Q).Runs pre t → t.Joinable Q) ∧
      (¬ (SchedulerSystem.machine Q).Meets SchedulerSystem.LastHeard
          (SchedulerSystem.machine Q).init ls →
        ∃ pre post t, ls = pre ++ .other .notify :: post ∧
          (SchedulerSystem.machine Q).Runs
            (pre ++ [.other .notify, .other (.enter 0)]) t ∧ t.Stranded)) := by
  constructor
  · intro ls s hrun
    exact ⟨LooperState.joinable_runs hrun, LooperState.stranded_of_breach hrun⟩
  · intro ls s hrun
    exact ⟨SchedulerSystem.joinable_runs hrun, SchedulerSystem.stranded_of_breach hrun⟩

/-- A shutdown while the looper calls a function and while the scheduler is in its timed wait. -/
theorem joinable_at_shutdown_iff_run :
    (∃ s : LooperState Nat,
      (LooperState.machine Nat).Runs [.execute 1, .push, .notify, .testActive, .enter,
        .shutdown false, .clear, .notify, .call, .testActive] s ∧ s.Joinable) ∧
    (∃ s : SchedulerSystem,
      (SchedulerSystem.machine (.linear DelayedExecutable.scheduledTime)).Runs
        [.begin 10, .finish 0 0, .other .testActive, .other (.enter 0), .begin 5,
          .other (.shutdown true), .finish 0 0, .other .notify] s ∧
      s.Joinable (.linear DelayedExecutable.scheduledTime)) := by
  constructor
  · have hrun : (LooperState.machine Nat).Runs [.execute 1, .push, .notify, .testActive, .enter,
        .shutdown false, .clear, .notify, .call, .testActive] _ := rfl
    exact ⟨_, hrun, ((joinable_at_shutdown_iff Nat (.linear _)).1 _ _ hrun).1.mp (by decide) _ _
      List.prefix_rfl hrun⟩
  · have hrun : (SchedulerSystem.machine (.linear DelayedExecutable.scheduledTime)).Runs
        [.begin 10, .finish 0 0, .other .testActive, .other (.enter 0), .begin 5,
          .other (.shutdown true), .finish 0 0, .other .notify] _ := rfl
    exact ⟨_, hrun, ((joinable_at_shutdown_iff Nat (.linear _)).2 _ _ hrun).1.mp (by decide) _ _
      List.prefix_rfl hrun⟩

/-- The worker finds the flag set, `shutdown(true)` stores it and notifies nobody, and the worker
waits on the empty queue: of the looper, and of the scheduler. -/
theorem not_joinable_at_shutdown :
    (∃ s : LooperState Nat,
      (LooperState.machine Nat).Runs [.testActive, .shutdown true, .notify, .enter] s ∧
      s.Stranded ∧ ¬ s.Joinable) ∧
    (∃ s : SchedulerSystem,
      (SchedulerSystem.machine (.linear DelayedExecutable.scheduledTime)).Runs
        [.other .testActive, .other (.shutdown true), .other .notify, .other (.enter 0)] s ∧
      s.Stranded ∧ ¬ s.Joinable (.linear DelayedExecutable.scheduledTime)) := by
  constructor
  · exact ⟨_, rfl, ⟨rfl, rfl, rfl, rfl, rfl, rfl⟩,
      LooperState.Doomed.not_joinable ⟨Or.inr rfl, rfl, rfl, rfl, rfl, rfl⟩⟩
  · exact ⟨_, rfl, ⟨rfl, rfl, rfl, rfl, rfl, rfl⟩,
      SchedulerSystem.Doomed.not_joinable ⟨Or.inr rfl, rfl, rfl, rfl, rfl, rfl⟩⟩

end Npp.Task
