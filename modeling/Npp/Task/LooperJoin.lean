import Npp.Task.Looper

/-!
# Joining the looper

`shutdown` stores the flag and notifies without the lock, and `run_loop` tests the flag before it
takes the lock and waits without a second look. A notification that comes in between is lost. The
join of the destructor needs the worker to leave its loop, by its own steps and by those of calls
that have begun; a spurious wakeup is nothing to count on.
-/

namespace Npp.Task

open Npp.Foundation

variable {F : Type}

def LooperWorker.stepsLeft (queueEmpty : Bool) : LooperWorker F → Nat
  | .enter => if queueEmpty then 7 else 1
  | .waiting false => 6
  | .waiting true => 5
  | .calling _ => 4
  | .testActive => 3
  | .testEmpty => 2
  | .exited => 0

namespace LooperState

variable {s s' : LooperState F} {l : Label F} {ls : List (Label F)}

/-- The steps that come without a new call and without a spurious wakeup. -/
def Label.due : Label F → Bool
  | .execute _ => false
  | .shutdown _ => false
  | .wake spurious => !spurious
  | _ => true

/-- The flag is down, the queue is empty, and no call that has begun will notify. -/
structure Deserted (s : LooperState F) : Prop where
  isActive : s.isActive = false
  queue : s.queue = []
  pushing : s.pushing = none
  clears : s.clears = 0
  notifies : s.notifies = 0

/-- The worker waits, and nobody will notify it. -/
def Stranded (s : LooperState F) : Prop := s.worker = .waiting false ∧ s.Deserted

/-- The worker waits or is about to, and nobody will notify it. -/
def Doomed (s : LooperState F) : Prop :=
  (s.worker = .enter ∨ s.worker = .waiting false) ∧ s.Deserted

/-- What shutting down needs: the worker is not stranded, and it can leave its loop. -/
def Joinable (s : LooperState F) : Prop :=
  ¬ s.Stranded ∧ (s.isActive = false →
    (machine F).CanReach (fun l => l.due = true) (fun t => t.worker = .exited) s)

/-- A notification that finds the worker between its loop test and its wait, with the flag down
and the queue empty, is not the last one to come. -/
def LastHeard (s : LooperState F) (l : Label F) : Prop :=
  l = .notify → s.worker = .enter → s.isActive = false → s.queue = [] → s.pushing = none →
    s.clears = 0 → 1 < s.notifies

instance [DecidableEq F] (s : LooperState F) (l : Label F) : Decidable (LastHeard s l) :=
  inferInstanceAs (Decidable (l = .notify → s.worker = .enter → s.isActive = false →
    s.queue = [] → s.pushing = none → s.clears = 0 → 1 < s.notifies))

theorem Doomed.step (h : Doomed s) (hdue : l.due = true) (hstep : s.step l = some s') :
    Doomed s' := by
  obtain ⟨hworker, hdesert⟩ := h
  cases step_iff.mp hstep with
  | execute func free => cases hdue
  | push func pushing => cases hdesert.pushing.symm.trans pushing
  | complete => cases hdue
  | abandon => cases hdue
  | clear free clears => exact absurd clears (by rw [hdesert.clears]; exact Nat.lt_irrefl 0)
  | notify notifies => exact absurd notifies (by rw [hdesert.notifies]; exact Nat.lt_irrefl 0)
  | goOn worker active => rcases hworker with hw | hw <;> cases hw.symm.trans worker
  | goLook worker active => rcases hworker with hw | hw <;> cases hw.symm.trans worker
  | exit worker queue => rcases hworker with hw | hw <;> cases hw.symm.trans worker
  | remain worker queue => rcases hworker with hw | hw <;> cases hw.symm.trans worker
  | wait worker free queue =>
      exact ⟨Or.inr rfl, hdesert.isActive, queue, free, hdesert.clears, hdesert.notifies⟩
  | pop func rest worker free queue => cases hdesert.queue.symm.trans queue
  | wakeEmpty notified spurious worker woken free queue =>
      rcases hworker with hw | hw
      · cases hw.symm.trans worker
      · cases hw.symm.trans worker
        cases spurious <;> cases hdue
        cases woken
  | wakePop notified spurious func rest worker woken free queue =>
      cases hdesert.queue.symm.trans queue
  | call func worker => rcases hworker with hw | hw <;> cases hw.symm.trans worker

theorem Doomed.not_joinable (h : Doomed s) : ¬ Joinable s := by
  rintro ⟨-, hjoin⟩
  refine Machine.not_canReach (I := Doomed) ?_ ?_ h (hjoin h.2.isActive)
  · intro a l a' ha hdue hstep
    exact ha.step hdue hstep
  · rintro a ⟨hw | hw, -⟩ hexited <;> cases hw.symm.trans hexited

/-- One kind of step dooms the worker: a last notification that it does not hear. -/
theorem doomed_step (h : ¬ Doomed s) (hstep : s.step l = some s') :
    ¬ Doomed s' ↔ LastHeard s l := by
  constructor
  · rintro hnot rfl hworker hactive hqueue hpushing hclears
    cases step_iff.mp hstep with
    | notify notifies =>
        by_contra hlast
        apply hnot
        refine ⟨Or.inl ?_, hactive, hqueue, hpushing, hclears, ?_⟩
        · show s.worker.notify = .enter
          rw [hworker]
          rfl
        · show s.notifies - 1 = 0
          omega
  · rintro hheard ⟨hworker, hdesert⟩
    cases step_iff.mp hstep with
    | execute func free =>
        exact h ⟨hworker, hdesert.isActive, hdesert.queue, free, hdesert.clears, hdesert.notifies⟩
    | push func pushing => exact absurd hdesert.notifies (Nat.succ_ne_zero _)
    | complete => exact absurd hdesert.notifies (Nat.succ_ne_zero _)
    | abandon => exact absurd hdesert.clears (Nat.succ_ne_zero _)
    | clear free clears => exact absurd hdesert.notifies (Nat.succ_ne_zero _)
    | notify notifies =>
        have hlast : s.notifies - 1 = 0 := hdesert.notifies
        have henter : s.worker = .enter := by
          cases hw : s.worker <;> simp [hw, LooperWorker.notify] at hworker ⊢
        have := hheard rfl henter hdesert.isActive hdesert.queue hdesert.pushing hdesert.clears
        omega
    | goOn worker active => cases active.symm.trans hdesert.isActive
    | goLook worker active => rcases hworker with hw | hw <;> cases hw
    | exit worker queue => rcases hworker with hw | hw <;> cases hw
    | remain worker queue => exact queue hdesert.queue
    | wait worker free queue =>
        exact h ⟨Or.inl worker, hdesert.isActive, queue, free, hdesert.clears, hdesert.notifies⟩
    | pop func rest worker free queue => rcases hworker with hw | hw <;> cases hw
    | wakeEmpty notified spurious worker woken free queue =>
        rcases hworker with hw | hw <;> cases hw
    | wakePop notified spurious func rest worker woken free queue =>
        rcases hworker with hw | hw <;> cases hw
    | call func worker => rcases hworker with hw | hw <;> cases hw

/-- A waiting worker with work to do is going to be notified. -/
def Attended (s : LooperState F) : Prop :=
  s.worker = .waiting false → s.queue ≠ [] → 0 < s.notifies

theorem Attended.step (h : Attended s) (hstep : s.step l = some s') : Attended s' := by
  intro hworker hqueue
  cases step_iff.mp hstep with
  | execute func free => exact h hworker hqueue
  | push func pushing => exact Nat.succ_pos _
  | complete => exact Nat.succ_pos _
  | abandon => exact h hworker hqueue
  | clear free clears => exact absurd rfl hqueue
  | notify notifies =>
      cases hw : s.worker <;> simp [hw, LooperWorker.notify] at hworker
  | wait worker free queue => exact absurd queue hqueue
  | goOn worker active => cases hworker
  | goLook worker active => cases hworker
  | exit worker queue => cases hworker
  | remain worker queue => cases hworker
  | pop func rest worker free queue => cases hworker
  | wakeEmpty notified spurious worker woken free queue => cases hworker
  | wakePop notified spurious func rest worker woken free queue => cases hworker
  | call func worker => cases hworker

structure Roused (s : LooperState F) : Prop where
  isActive : s.isActive = false
  waiting : s.worker = .waiting false → s.pushing = none → s.clears = 0 → 0 < s.notifies
  entering : s.worker = .enter → s.queue = [] → s.pushing = none → s.clears = 0 → 0 < s.notifies

theorem Roused.of_busy (hactive : s.isActive = false) (hwaiting : s.worker ≠ .waiting false)
    (henter : s.worker ≠ .enter) : Roused s :=
  ⟨hactive, fun hw => absurd hw hwaiting, fun hw => absurd hw henter⟩

theorem Roused.of_not_doomed (hactive : s.isActive = false) (hattended : Attended s)
    (h : ¬ Doomed s) : Roused s := by
  refine ⟨hactive, ?_, ?_⟩
  · intro hworker hpushing hclears
    by_cases hqueue : s.queue = []
    · apply Nat.pos_of_ne_zero
      intro hnotifies
      exact h ⟨Or.inr hworker, hactive, hqueue, hpushing, hclears, hnotifies⟩
    · exact hattended hworker hqueue
  · intro hworker hqueue hpushing hclears
    apply Nat.pos_of_ne_zero
    intro hnotifies
    exact h ⟨Or.inl hworker, hactive, hqueue, hpushing, hclears, hnotifies⟩

def stepsLeft (s : LooperState F) : Nat :=
  20 * s.pushing.toList.length + 10 * s.queue.length + s.clears +
    s.worker.stepsLeft s.queue.isEmpty

theorem stepsLeft_le (w : LooperWorker F) (queueEmpty : Bool) : w.stepsLeft queueEmpty ≤ 7 := by
  cases w with
  | enter => cases queueEmpty <;> simp [LooperWorker.stepsLeft]
  | waiting notified => cases notified <;> simp [LooperWorker.stepsLeft]
  | _ => simp [LooperWorker.stepsLeft]

/-- To pop a function is worth ten steps. -/
theorem popped_stepsLeft {func : F} {rest : List F} (hqueue : s.queue = func :: rest)
    (hworker : 0 < s.worker.stepsLeft false) :
    (s.popAndUnlock func rest).stepsLeft < s.stepsLeft := by
  have hbefore : 1 ≤ s.worker.stepsLeft false := hworker
  simp only [stepsLeft, popAndUnlock, hqueue, List.isEmpty_cons, List.length_cons,
    LooperWorker.stepsLeft]
  omega

/-- With the flag down there is always a step that brings the exit closer. First the case in which
no call is under way. -/
theorem Roused.worker_progress (h : Roused s) (hpushing : s.pushing = none)
    (hclears : s.clears = 0) (hexited : s.worker ≠ .exited) :
    ∃ l s', l.due = true ∧ Transition s l s' ∧ Roused s' ∧ s'.stepsLeft < s.stepsLeft := by
  cases hworker : s.worker with
  | testActive =>
      refine ⟨.testActive, _, rfl, .goLook hworker h.isActive, ?_, ?_⟩
      · exact .of_busy h.isActive (by rintro ⟨⟩) (by rintro ⟨⟩)
      · simp [stepsLeft, hworker, LooperWorker.stepsLeft]
  | testEmpty =>
      by_cases hqueue : s.queue = []
      · refine ⟨.testEmpty, _, rfl, .exit hworker hqueue, ?_, ?_⟩
        · exact .of_busy h.isActive (by rintro ⟨⟩) (by rintro ⟨⟩)
        · simp [stepsLeft, hworker, LooperWorker.stepsLeft]
      · refine ⟨.testEmpty, _, rfl, .remain hworker hqueue, ?_, ?_⟩
        · exact ⟨h.isActive, (fun hw => nomatch hw), fun _ hnil => absurd hnil hqueue⟩
        · simp [stepsLeft, hworker, hqueue, LooperWorker.stepsLeft]
  | enter =>
      cases hqueue : s.queue with
      | nil =>
          refine ⟨.enter, _, rfl, .wait hworker hpushing hqueue, ?_, ?_⟩
          · have hpos := h.entering hworker hqueue hpushing hclears
            exact ⟨h.isActive, fun _ _ _ => hpos, (fun hw => nomatch hw)⟩
          · simp [stepsLeft, hworker, hqueue, LooperWorker.stepsLeft]
      | cons func rest =>
          refine ⟨.enter, _, rfl, .pop func rest hworker hpushing hqueue, ?_, ?_⟩
          · exact .of_busy h.isActive (by rintro ⟨⟩) (by rintro ⟨⟩)
          · apply popped_stepsLeft hqueue
            rw [hworker]
            exact Nat.one_pos
  | waiting notified =>
      cases notified with
      | false =>
          have hpos := h.waiting hworker hpushing hclears
          refine ⟨.notify, _, rfl, .notify hpos, ?_, ?_⟩
          · refine .of_busy h.isActive ?_ ?_ <;> simp [hworker, LooperWorker.notify]
          · simp [stepsLeft, hworker, LooperWorker.stepsLeft, LooperWorker.notify]
      | true =>
          cases hqueue : s.queue with
          | nil =>
              refine ⟨.wake false, _, rfl, .wakeEmpty true false hworker rfl hpushing hqueue,
                ?_, ?_⟩
              · exact .of_busy h.isActive (by rintro ⟨⟩) (by rintro ⟨⟩)
              · simp [stepsLeft, hworker, LooperWorker.stepsLeft]
          | cons func rest =>
              refine ⟨.wake false, _, rfl,
                .wakePop true false func rest hworker rfl hpushing hqueue, ?_, ?_⟩
              · exact .of_busy h.isActive (by rintro ⟨⟩) (by rintro ⟨⟩)
              · apply popped_stepsLeft hqueue
                rw [hworker]
                exact Nat.succ_pos _
  | calling func =>
      refine ⟨.call, _, rfl, .call func hworker, ?_, ?_⟩
      · exact .of_busy h.isActive (by rintro ⟨⟩) (by rintro ⟨⟩)
      · simp [stepsLeft, hworker, LooperWorker.stepsLeft]
  | exited => exact absurd hworker hexited

theorem Roused.progress (h : Roused s) (hexited : s.worker ≠ .exited) :
    ∃ l s', l.due = true ∧ Transition s l s' ∧ Roused s' ∧ s'.stepsLeft < s.stepsLeft := by
  cases hpushing : s.pushing with
  | some func =>
      refine ⟨.push, _, rfl, .push func hpushing, ?_, ?_⟩
      · exact ⟨h.isActive, fun _ _ _ => Nat.succ_pos _, fun _ _ _ _ => Nat.succ_pos _⟩
      · have hle := stepsLeft_le s.worker (s.queue ++ [func]).isEmpty
        simp only [stepsLeft, hpushing, List.length_append, List.length_singleton,
          Option.toList_some, Option.toList_none, List.length_nil]
        omega
  | none =>
      rcases Nat.eq_zero_or_pos s.clears with hclears | hclears
      · exact h.worker_progress hpushing hclears hexited
      · refine ⟨.clear, _, rfl, .clear hpushing hclears, ?_, ?_⟩
        · exact ⟨h.isActive, fun _ _ _ => Nat.succ_pos _, fun _ _ _ _ => Nat.succ_pos _⟩
        · have hle := stepsLeft_le s.worker true
          cases hqueue : s.queue with
          | nil =>
              simp only [stepsLeft, hpushing, hqueue]
              omega
          | cons func rest =>
              simp only [stepsLeft, hpushing, hqueue, List.length_cons, List.length_nil,
                List.isEmpty_nil]
              omega

theorem Roused.canExit (h : Roused s) :
    (machine F).CanReach (fun l => l.due = true) (fun t => t.worker = .exited) s := by
  apply Machine.CanReach.of_measure (I := Roused) stepsLeft ?_ h
  intro a ha hexited
  obtain ⟨l, a', hdue, hstep, ha', hlt⟩ := ha.progress hexited
  refine ⟨[l], a', ?_, ?_, ha', hlt⟩
  · intro x hx
    rw [List.mem_singleton.mp hx]
    exact hdue
  · rw [Machine.runFrom_singleton]
    exact step_iff.mpr hstep

theorem joinable_iff (hattended : Attended s) : Joinable s ↔ ¬ Doomed s := by
  constructor
  · intro hjoin hdoom
    exact hdoom.not_joinable hjoin
  · intro hdoom
    constructor
    · rintro ⟨hworker, hdesert⟩
      exact hdoom ⟨Or.inr hworker, hdesert⟩
    · intro hactive
      exact (Roused.of_not_doomed hactive hattended hdoom).canExit

theorem attended_init : Attended (machine F).init := by
  rintro ⟨⟩

theorem joinable_runs (hrun : (machine F).Runs ls s) :
    (machine F).Meets LastHeard (machine F).init ls ↔
      ∀ pre t, pre <+: ls → (machine F).Runs pre t → Joinable t := by
  have hstart : ¬ Doomed (machine F).init := by
    rintro ⟨hw | hw, -⟩ <;> cases hw
  apply hrun.meets_iff_of_invariant (I := fun s => ¬ Doomed s) attended_init hstart
  · intro s l s' h hstep
    exact h.step hstep
  · intro s l s' _ h hstep
    exact doomed_step h hstep
  · intro s h
    exact joinable_iff h

/-- A worker that is doomed by an unheard notification is stranded as soon as it goes on. -/
theorem stranded_of_breach (hrun : (machine F).Runs ls s)
    (hbreach : ¬ (machine F).Meets LastHeard (machine F).init ls) :
    ∃ pre post t, ls = pre ++ .notify :: post ∧ (machine F).Runs (pre ++ [.notify, .enter]) t ∧
      Stranded t := by
  obtain ⟨pre, l, post, a, a', rfl, ha, -, hc, hstep, -⟩ := hrun.exists_breach hbreach
  simp only [LastHeard, Classical.not_imp] at hc
  obtain ⟨rfl, hworker, hactive, hqueue, hpushing, hclears, hlast⟩ := hc
  have ha' : (machine F).Runs (pre ++ [.notify]) a' := Machine.runs_snoc.mpr ⟨a, ha, hstep⟩
  change a.step .notify = some a' at hstep
  cases step_iff.mp hstep with
  | notify notifies =>
      have henter : a.worker.notify = .enter := by
        rw [hworker]
        rfl
      have hwait := step_iff.mpr (.wait henter hpushing hqueue :
        Transition { a with worker := a.worker.notify, notifies := a.notifies - 1 } .enter _)
      have hrun' : (machine F).Runs (pre ++ [.notify] ++ [.enter]) _ :=
        Machine.runs_snoc.mpr ⟨_, ha', hwait⟩
      rw [List.append_assoc] at hrun'
      refine ⟨pre, post, _, rfl, hrun', rfl, hactive, hqueue, hpushing, hclears, ?_⟩
      show a.notifies - 1 = 0
      omega

end LooperState

end Npp.Task
