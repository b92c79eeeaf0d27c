import Npp.Task.Staff

/-!
# The elastic executor takes up one more task

A worker is occupied for as long as its call lasts, and a call may wait for a task that is still in
the queue. So it matters that the next task is taken up without the end of any call: by a worker
that is not in one, or by one that the manager starts when all are.
-/

namespace Npp.Task

open Npp.Foundation

namespace WorkerThread

variable {w w' : WorkerThread} {queue queue' : List Nat} {spurious : Bool}

/-- The worker is about to pop, or has a task. -/
def takes (w : WorkerThread) : Bool :=
  match w.phase with
  | .popping | .popped _ | .calling _ => true
  | _ => false

/-- Once it is told to stop, the worker takes no further task. -/
def Leaves (w : WorkerThread) : Prop :=
  w.takes = false ∧ (w.phase = .locking → w.pauseLock ≠ none)

instance (w : WorkerThread) : Decidable w.Leaves := inferInstanceAs (Decidable (_ ∧ _))

def exitTurns (w : WorkerThread) : Nat :=
  match w.phase with
  | .locking => 4
  | .missed => 3
  | .sleeping | .releasing => 2
  | .testing => 1
  | _ => 0

def idleTurns (w : WorkerThread) : Nat :=
  match w.phase with
  | .missed => 5
  | .sleeping | .releasing => 4
  | .testing => 3
  | .locking => 2
  | .popping => 1
  | _ => 0

theorem step_takes (htakes : w.takes = true → w.pauseLock = some .worker)
    (h : w.step queue spurious = some (w', queue')) :
    w'.takes = true → w'.pauseLock = some .worker := by
  obtain ⟨running, lock, phase⟩ := w
  cases phase with
  | testing =>
      cases h
      cases running <;> rintro ⟨⟩
  | locking =>
      simp only [step] at h
      split at h
      case isTrue =>
        cases h
        exact fun _ => rfl
      case isFalse =>
        cases h
        rintro ⟨⟩
  | popping =>
      cases queue with
      | nil =>
          cases h
          rintro ⟨⟩
      | cons task rest =>
          cases h
          exact fun _ => htakes rfl
  | popped task =>
      cases h
      exact fun _ => htakes rfl
  | exited => cases h
  | _ =>
      cases h
      rintro ⟨⟩

theorem idle_of_takes (h : w.takes = false) : w.starting = none ∧ w.inCall = none := by
  obtain ⟨running, lock, phase⟩ := w
  cases phase with
  | popped task => cases h
  | calling task => cases h
  | _ => exact ⟨rfl, rfl⟩

/-- A worker that was told to stop comes closer to its exit and leaves the queue alone. -/
theorem Leaves.step (hw : w.Leaves) (hrunning : w.running = false) (hphase : w.phase ≠ .exited)
    (queue : List Nat) :
    ∃ w', w.step queue false = some (w', queue) ∧ w'.Leaves ∧ w'.exitTurns < w.exitTurns := by
  obtain ⟨running, lock, phase⟩ := w
  obtain rfl : running = false := hrunning
  obtain ⟨htakes, hlocking⟩ := hw
  cases phase with
  | locking =>
      obtain ⟨holder, rfl⟩ := Option.ne_none_iff_exists'.mp (hlocking rfl)
      exact ⟨_, rfl, ⟨rfl, by rintro ⟨⟩⟩, Nat.lt_succ_self _⟩
  | popping => cases htakes
  | popped task => cases htakes
  | calling task => cases htakes
  | exited => exact absurd rfl hphase
  | testing => exact ⟨_, rfl, ⟨rfl, by rintro ⟨⟩⟩, Nat.lt_succ_self _⟩
  | releasing => exact ⟨_, rfl, ⟨rfl, by rintro ⟨⟩⟩, Nat.lt_succ_self _⟩
  | missed => exact ⟨_, rfl, ⟨rfl, by rintro ⟨⟩⟩, Nat.lt_succ_self _⟩
  | sleeping => exact ⟨_, rfl, ⟨rfl, by rintro ⟨⟩⟩, Nat.lt_succ_self _⟩

/-- A worker that can work takes the first task, or comes closer to that. -/
theorem Able.take (hw : w.Able) (hidle : 0 < w.idleTurns) {task : Nat} {rest : List Nat} :
    w.step (task :: rest) false = some ({ w with phase := .popped task }, rest) ∨
      ∃ w', w.step (task :: rest) false = some (w', task :: rest) ∧ w'.idleTurns < w.idleTurns ∧
        0 < w'.idleTurns := by
  obtain ⟨running, lock, phase⟩ := w
  obtain rfl : running = true := hw.running
  cases phase with
  | testing => exact Or.inr ⟨_, rfl, Nat.lt_succ_self _, Nat.succ_pos _⟩
  | locking =>
      obtain rfl : lock = none := by
        rcases lock with - | - | -
        · rfl
        · exact absurd (hw.own rfl) (by rintro ⟨⟩)
        · exact absurd rfl hw.unpaused
      exact Or.inr ⟨_, rfl, Nat.lt_succ_self _, Nat.succ_pos _⟩
  | popping => exact Or.inl rfl
  | popped task => exact absurd hidle (by simp [idleTurns])
  | calling task => exact absurd hidle (by simp [idleTurns])
  | exited => exact absurd rfl hw.looping
  | releasing => exact Or.inr ⟨_, rfl, Nat.lt_succ_self _, Nat.succ_pos _⟩
  | missed => exact Or.inr ⟨_, rfl, Nat.lt_succ_self _, Nat.succ_pos _⟩
  | sleeping => exact Or.inr ⟨_, rfl, Nat.lt_succ_self _, Nat.succ_pos _⟩

/-- A step takes a task from the queue, or begins the call of one that was taken. -/
theorem step_starting (h : w.step queue spurious = some (w', queue')) :
    (queue' ++ w'.starting.toList ++ w.starting.toList).Perm (queue ++ w.starting.toList) ∧
      w'.inCall = w.starting := by
  obtain ⟨hperm, hinCall⟩ := step_perm h
  have hhand : ∀ w : WorkerThread, w.hand.toList = w.starting.toList ++ w.inCall.toList := by
    intro w
    obtain ⟨running, lock, phase⟩ := w
    cases phase <;> rfl
  refine ⟨?_, hinCall⟩
  apply List.perm_iff_count.mpr
  intro t
  have hcount := hperm.count_eq t
  rw [hhand, hhand, hinCall] at hcount
  simp only [List.count_append] at hcount ⊢
  omega

end WorkerThread

namespace ElasticState

variable {s s' : ElasticState} {l : Label} {ls : List Label}

/-! ## The locks -/

/-- Whoever takes a task has its lock, and the worker that the manager erases is there. -/
structure Secured (s : ElasticState) : Prop where
  locked : ∀ i w, s.workers[i]? = some w → s.manager.target ≠ some i → w.takes = true →
    w.pauseLock = some .worker
  there : ∀ i, s.manager.target = some i → i < s.workers.length
  stopped : ∀ i w, s.manager = .joining i → s.workers[i]? = some w → w.running = false

theorem secured_init : Secured machine.init :=
  ⟨by rintro _ _ ⟨⟩, by rintro _ ⟨⟩, by rintro _ _ ⟨⟩⟩

theorem Secured.step (h : Secured s) (hstep : s.step l = some s') : Secured s' := by
  cases steps_of_step hstep with
  | execute => exact ⟨h.locked, h.there, h.stopped⟩
  | work i spurious w w' queue worker step =>
      refine ⟨?_, ?_, ?_⟩
      · intro j v hv htarget htakes
        rcases getElem?_set_cases worker hv with ⟨rfl, rfl⟩ | ⟨-, hv⟩
        · exact WorkerThread.step_takes (h.locked j w worker htarget) step htakes
        · exact h.locked j v hv htarget htakes
      · intro j htarget
        rw [List.length_set]
        exact h.there j htarget
      · intro j v hmanager hv
        rcases getElem?_set_cases worker hv with ⟨rfl, rfl⟩ | ⟨-, hv⟩
        · exact (WorkerThread.step_running step).trans (h.stopped j w hmanager worker)
        · exact h.stopped j v hmanager hv
  | manage l manager target quiet two works =>
      refine ⟨fun i w hw _ => h.locked i w hw (by rw [target]; rintro ⟨⟩), ?_, ?_⟩
      · intro i htarget
        cases quiet.symm.trans htarget
      · rintro i w rfl hw
        cases quiet
  | hire manager target quiet two =>
      refine ⟨?_, ?_, ?_⟩
      · intro i w hw _ htakes
        rw [List.getElem?_append] at hw
        split at hw
        case isTrue => exact h.locked i w hw (by rw [target]; rintro ⟨⟩) htakes
        case isFalse =>
          obtain rfl := List.mem_singleton.mp (List.mem_of_getElem? hw)
          cases htakes
      · intro i htarget
        cases quiet.symm.trans htarget
      · rintro i w rfl hw
        cases quiet
  | pause i w target worker free shrinks =>
      refine ⟨?_, ?_, by rintro _ _ ⟨⟩⟩
      · intro j v hv htarget htakes
        rcases getElem?_set_cases worker hv with ⟨rfl, rfl⟩ | ⟨-, hv⟩
        · exact absurd rfl htarget
        · exact h.locked j v hv (by rw [target]; rintro ⟨⟩) htakes
      · rintro j ⟨⟩
        rw [List.length_set]
        exact (List.getElem?_eq_some_iff.mp worker).1
  | stop i w manager worker =>
      refine ⟨?_, ?_, ?_⟩
      · intro j v hv htarget htakes
        rcases getElem?_set_cases worker hv with ⟨rfl, rfl⟩ | ⟨hj, hv⟩
        · exact absurd rfl htarget
        · exact h.locked j v hv (by rw [manager]; exact fun heq => htarget heq) htakes
      · rintro j ⟨⟩
        rw [List.length_set]
        exact (List.getElem?_eq_some_iff.mp worker).1
      · rintro j v ⟨⟩ hv
        rcases getElem?_set_cases worker hv with ⟨-, rfl⟩ | ⟨hj, -⟩
        · rfl
        · exact absurd rfl hj
  | join i w manager worker exited =>
      refine ⟨?_, by rintro _ ⟨⟩, by rintro _ _ ⟨⟩⟩
      intro j v hv _ htakes
      rw [List.getElem?_eraseIdx] at hv
      split at hv
      case isTrue hlt =>
        exact h.locked j v hv (by rw [manager]; rintro ⟨⟩; omega) htakes
      case isFalse hge =>
        exact h.locked (j + 1) v hv (by rw [manager]; rintro ⟨⟩; omega) htakes

/-! ## Steps without a call -/

def waiting (s : ElasticState) : List Nat :=
  s.queue ++ s.workers.filterMap WorkerThread.starting

def inCalls (s : ElasticState) : List Nat := s.workers.filterMap WorkerThread.inCall

/-- The step submits no task, and neither begins nor ends a call. -/
def Quiet (s : ElasticState) : Label → Prop
  | .execute => False
  | .work i _ => ∀ w ∈ s.workers[i]?, w.starting = none ∧ w.inCall = none
  | _ => True

instance (s : ElasticState) : ∀ l, Decidable (Quiet s l)
  | .execute => .isFalse id
  | .work i _ => inferInstanceAs (Decidable (∀ w ∈ s.workers[i]?, _))
  | .sample _ | .expand _ | .shrink _ | .stop | .join => .isTrue trivial

theorem work_waiting {i : Nat} {spurious : Bool} {w w' : WorkerThread} {queue : List Nat}
    (hw : s.workers[i]? = some w) (hwork : w.step s.queue spurious = some (w', queue)) :
    (queue ++ (s.workers.set i w').filterMap WorkerThread.starting ++ w.starting.toList).Perm
        s.waiting ∧
      ((s.workers.set i w').filterMap WorkerThread.inCall ++ w.inCall.toList).Perm
        (s.inCalls ++ w.starting.toList) := by
  obtain ⟨hperm, hinCall⟩ := WorkerThread.step_starting hwork
  constructor
  · obtain ⟨others, hbefore, -, hafter⟩ := filterMap_set hw WorkerThread.starting
    apply List.perm_iff_count.mpr
    intro t
    have hmoved := hperm.count_eq t
    have hbefore := hbefore.count_eq t
    have hafter := (hafter w').count_eq t
    simp only [waiting, List.count_append] at hmoved hbefore hafter ⊢
    omega
  · obtain ⟨others, hbefore, -, hafter⟩ := filterMap_set hw WorkerThread.inCall
    apply List.perm_iff_count.mpr
    intro t
    have hbefore := hbefore.count_eq t
    have hafter := (hafter w').count_eq t
    rw [hinCall] at hafter
    simp only [inCalls, List.count_append] at hbefore hafter ⊢
    omega

/-- The tasks are where they were, but for their way from the queue to a worker. -/
structure Undisturbed (s s' : ElasticState) : Prop where
  waiting : s'.waiting.Perm s.waiting
  inCalls : s'.inCalls.Perm s.inCalls
  submitted : s'.submitted = s.submitted
  called : s'.called = s.called
  finished : s'.finished = s.finished

theorem Undisturbed.refl (s : ElasticState) : Undisturbed s s :=
  ⟨.refl _, .refl _, rfl, rfl, rfl⟩

theorem Undisturbed.trans {s₁ s₂ s₃ : ElasticState} (h : Undisturbed s₁ s₂)
    (h' : Undisturbed s₂ s₃) : Undisturbed s₁ s₃ :=
  ⟨h'.waiting.trans h.waiting, h'.inCalls.trans h.inCalls, h'.submitted.trans h.submitted,
    h'.called.trans h.called, h'.finished.trans h.finished⟩

/-- What the manager does to the workers takes them no task. -/
theorem Undisturbed.managed {workers : List WorkerThread} (manager : Manager)
    (hstarting : (workers.filterMap WorkerThread.starting).Perm
      (s.workers.filterMap WorkerThread.starting))
    (hinCall : (workers.filterMap WorkerThread.inCall).Perm
      (s.workers.filterMap WorkerThread.inCall)) :
    Undisturbed s { s with workers := workers, manager := manager } :=
  ⟨hstarting.append_left s.queue, hinCall, rfl, rfl, rfl⟩

theorem undisturbed_step (hquiet : Quiet s l) (hstep : s.step l = some s') :
    Undisturbed s s' := by
  cases steps_of_step hstep with
  | execute => exact hquiet.elim
  | work i spurious w w' queue worker step =>
      obtain ⟨hstarting, hinCall⟩ := hquiet w worker
      obtain ⟨hwaiting, hcalls⟩ := work_waiting worker step
      rw [hstarting, Option.toList_none, List.append_nil] at hwaiting hcalls
      rw [hinCall, Option.toList_none, List.append_nil] at hcalls
      refine ⟨hwaiting, hcalls, rfl, ?_, ?_⟩
      · rw [hstarting, Option.toList_none, List.append_nil]
      · rw [hinCall, Option.toList_none, List.append_nil]
  | manage l manager target quiet two works => exact .managed manager (.refl _) (.refl _)
  | hire manager target quiet two =>
      exact .managed manager (filterMap_append_idle _ rfl) (filterMap_append_idle _ rfl)
  | pause i w target worker free shrinks =>
      exact .managed _ (filterMap_set_self worker rfl) (filterMap_set_self worker rfl)
  | stop i w manager worker =>
      exact .managed _ (filterMap_set_self worker rfl) (filterMap_set_self worker rfl)
  | join i w manager worker exited =>
      refine .managed _ (filterMap_erase worker ?_) (filterMap_erase worker ?_)
      · simp [WorkerThread.starting, exited]
      · simp [WorkerThread.inCall, exited]

/-! ## The next task -/

/-- A state in which `task` is the next one, and the worker that is erased takes none. -/
structure Taking (task : Nat) (rest : List Nat) (s : ElasticState) : Prop where
  staffed : Staffed s
  secured : Secured s
  queue : s.queue = task :: rest
  leaves : ∀ i w, s.manager.target = some i → s.workers[i]? = some w → w.Leaves

/-- Someone has popped the task, and nobody is erased. -/
def Taken (task : Nat) (rest : List Nat) (s : ElasticState) : Prop :=
  s.manager.target = none ∧ s.queue = rest ∧ ∃ w ∈ s.workers, w.phase = .popped task

variable {task : Nat} {rest : List Nat}

abbrev quietMachine : Machine ElasticState Label := machine.restrict Quiet

theorem quiet_step (hquiet : Quiet s l) (hstep : s.step l = some s') :
    quietMachine.runFrom s [l] = some s' := by
  rw [Machine.runFrom_singleton]
  exact Machine.restrict_step.mpr ⟨hquiet, hstep⟩

/-- What is left of the erasure of a worker. -/
def leavingTurns (s : ElasticState) : Nat :=
  match s.manager with
  | .erasing i => (s.workers[i]?).elim 0 WorkerThread.exitTurns + 1
  | .joining i => (s.workers[i]?).elim 0 WorkerThread.exitTurns
  | _ => 0

theorem Taking.leave (h : Taking task rest s) (htarget : s.manager.target ≠ none) :
    ∃ es s', (∀ l ∈ es, Label.settles l = true) ∧ quietMachine.runFrom s es = some s' ∧
      Taking task rest s' ∧ (s'.manager.target ≠ none → s'.leavingTurns < s.leavingTurns) := by
  cases hmanager : s.manager with
  | erasing i =>
      have hlt : i < s.workers.length := h.secured.there i (by rw [hmanager]; rfl)
      have hw := List.getElem?_eq_getElem hlt
      have hstep : s.step .stop = some { s with
          workers := s.workers.set i s.workers[i].stop, manager := .joining i } := by
        simp only [ElasticState.step, hmanager, hw]
      refine ⟨[.stop], _, by simp [Label.settles], quiet_step trivial hstep,
        ⟨h.staffed.step hstep, h.secured.step hstep, h.queue, ?_⟩, fun _ => ?_⟩
      · rintro j v ⟨⟩ hv
        rcases getElem?_set_cases hw hv with ⟨-, rfl⟩ | ⟨hj, -⟩
        · have hleaves : s.workers[i].Leaves := h.leaves i _ (by rw [hmanager]; rfl) hw
          exact hleaves
        · exact absurd rfl hj
      · simp only [leavingTurns, hmanager, hw, List.getElem?_set_self hlt, Option.elim_some]
        exact Nat.lt_succ_self _
  | joining i =>
      have hlt : i < s.workers.length := h.secured.there i (by rw [hmanager]; rfl)
      have hw := List.getElem?_eq_getElem hlt
      have hleaves := h.leaves i _ (by rw [hmanager]; rfl) hw
      by_cases hexited : s.workers[i].phase = .exited
      · have hstep : s.step .join = some { s with
            workers := s.workers.eraseIdx i, manager := .sampling } := by
          simp only [ElasticState.step, hmanager, hw, hexited, if_true]
        exact ⟨[.join], _, by simp [Label.settles], quiet_step trivial hstep,
          ⟨h.staffed.step hstep, h.secured.step hstep, h.queue, by rintro _ _ ⟨⟩⟩,
          fun hnone => absurd rfl hnone⟩
      · obtain ⟨w', hwork, hleaves', hturns⟩ :=
          hleaves.step (h.secured.stopped i _ hmanager hw) hexited s.queue
        have hidle : Quiet s (.work i false) := by
          intro v hv
          obtain rfl := Option.some.inj (hw.symm.trans hv)
          exact WorkerThread.idle_of_takes hleaves.1
        have hstep : s.step (.work i false) = some { s with
            workers := s.workers.set i w'
            called := s.called ++ s.workers[i].starting.toList
            finished := s.finished ++ s.workers[i].inCall.toList } := by
          simp only [ElasticState.step, hw, hwork]
        refine ⟨[.work i false], _, by simp [Label.settles], quiet_step hidle hstep,
          ⟨h.staffed.step hstep, h.secured.step hstep, h.queue, ?_⟩, fun _ => ?_⟩
        · intro j v hj hv
          obtain rfl : i = j := by
            rw [show s.manager.target = some i by rw [hmanager]; rfl] at hj
            exact Option.some.inj hj
          rcases getElem?_set_cases hw hv with ⟨-, rfl⟩ | ⟨hj, -⟩
          · exact hleaves'
          · exact absurd rfl hj
        · simp only [leavingTurns, hmanager, hw, List.getElem?_set_self hlt, Option.elim_some]
          exact hturns
  | sampling => exact absurd (by rw [hmanager]; rfl) htarget
  | expanding load => exact absurd (by rw [hmanager]; rfl) htarget
  | shrinking i => exact absurd (by rw [hmanager]; rfl) htarget

theorem Taking.left (h : Taking task rest s) :
    quietMachine.CanReach (fun l => Label.settles l = true)
      (fun a => Taking task rest a ∧ a.manager.target = none) s := by
  refine Machine.CanReach.of_measure (I := Taking task rest)
    (fun a => if a.manager.target = none then 0 else a.leavingTurns + 1) (fun a ha hnot => ?_) h
  have htarget : a.manager.target ≠ none := fun hnone => hnot ⟨ha, hnone⟩
  obtain ⟨es, a', hes, hrun, ha', hlt⟩ := ha.leave htarget
  refine ⟨es, a', hes, hrun, ha', ?_⟩
  simp only [if_neg htarget]
  split
  case isTrue => exact Nat.succ_pos _
  case isFalse hstill => exact Nat.succ_lt_succ (hlt hstill)

/-- The steps of the manager until it starts a worker, when it finds all of them busy. -/
def hiringTurns (s : ElasticState) : Nat :=
  match s.manager with
  | .sampling => 1
  | .expanding load => if load = .high ∨ s.workers.isEmpty then 0 else 3 + s.workers.length
  | .shrinking i => 2 + (s.workers.length - i)
  | .erasing _ | .joining _ => 0

/-- The steps to the task: of the workers that are not busy, or of the manager. -/
def takingTurns (s : ElasticState) : Nat :=
  let idle := (s.workers.map WorkerThread.idleTurns).sum
  if idle = 0 then 4 + s.hiringTurns else idle

theorem idle_ne_zero {workers : List WorkerThread} {w : WorkerThread} (hw : w ∈ workers)
    (hidle : 0 < w.idleTurns) : (workers.map WorkerThread.idleTurns).sum ≠ 0 := by
  intro hzero
  have hall := List.sum_eq_zero_iff_forall_eq_nat.mp hzero
  exact absurd (hall _ (List.mem_map_of_mem hw)) (Nat.ne_of_gt hidle)

/-- A worker that is not busy goes on to the task. -/
theorem Taking.idle (h : Taking task rest s) (htarget : s.manager.target = none) {i : Nat}
    {w : WorkerThread} (hw : s.workers[i]? = some w) (hidle : 0 < w.idleTurns) :
    ∃ es s', (∀ l ∈ es, Label.settles l = true) ∧ quietMachine.runFrom s es = some s' ∧
      (Taken task rest s' ∨ (Taking task rest s' ∧ s'.manager.target = none) ∧
        s'.takingTurns < s.takingTurns) := by
  have hable := h.staffed.able i w hw (by rw [htarget]; rintro ⟨⟩)
  have hquiet : Quiet s (.work i false) := by
    intro v hv
    obtain rfl := Option.some.inj (hw.symm.trans hv)
    obtain ⟨running, lock, phase⟩ := w
    cases phase with
    | popped task => exact absurd hidle (by simp [WorkerThread.idleTurns])
    | calling task => exact absurd hidle (by simp [WorkerThread.idleTurns])
    | _ => exact ⟨rfl, rfl⟩
  have hstep : ∀ w' queue, w.step (task :: rest) false = some (w', queue) →
      s.step (.work i false) = some { s with
        queue := queue
        workers := s.workers.set i w'
        called := s.called ++ w.starting.toList
        finished := s.finished ++ w.inCall.toList } := by
    intro w' queue hwork
    rw [← h.queue] at hwork
    simp only [ElasticState.step, hw, hwork]
  rcases hable.take hidle with hwork | ⟨w', hwork, hlt, hpos⟩
  · refine ⟨[.work i false], _, by simp [Label.settles], quiet_step hquiet (hstep _ _ hwork),
      Or.inl ⟨htarget, rfl, { w with phase := .popped task }, ?_, rfl⟩⟩
    exact List.mem_set (List.getElem?_eq_some_iff.mp hw).1 _
  · have hstep' := hstep _ _ hwork
    refine ⟨[.work i false], _, by simp [Label.settles], quiet_step hquiet hstep', Or.inr
      ⟨⟨⟨h.staffed.step hstep', h.secured.step hstep', rfl, ?_⟩, htarget⟩, ?_⟩⟩
    · intro j v hj
      cases htarget.symm.trans hj
    · have hsum := Machine.sum_map_set WorkerThread.idleTurns hw w'
      have hset : w' ∈ s.workers.set i w' := List.mem_set (List.getElem?_eq_some_iff.mp hw).1 w'
      simp only [takingTurns]
      rw [if_neg (idle_ne_zero hset hpos), if_neg (idle_ne_zero (List.mem_of_getElem? hw) hidle)]
      omega

/-- A worker that is busy has its lock. -/
theorem Taking.busy (h : Taking task rest s) (htarget : s.manager.target = none)
    (hbusy : (s.workers.map WorkerThread.idleTurns).sum = 0) {i : Nat} {w : WorkerThread}
    (hw : s.workers[i]? = some w) : w.pauseLock = some .worker := by
  have hfree : s.manager.target ≠ some i := by rw [htarget]; rintro ⟨⟩
  have hable := h.staffed.able i w hw hfree
  have hidle := List.sum_eq_zero_iff_forall_eq_nat.mp hbusy _
    (List.mem_map_of_mem (List.mem_of_getElem? hw))
  apply h.secured.locked i w hw hfree
  obtain ⟨running, lock, phase⟩ := w
  cases phase with
  | popped task => rfl
  | calling task => rfl
  | exited => exact absurd rfl hable.looping
  | _ => cases hidle

/-- The manager finds everybody busy, by the load that it measures, and starts a worker. -/
theorem Taking.hire (h : Taking task rest s) (htarget : s.manager.target = none)
    (hbusy : (s.workers.map WorkerThread.idleTurns).sum = 0) :
    ∃ l s', Label.settles l = true ∧ Quiet s l ∧ s.step l = some s' ∧ s'.queue = s.queue ∧
      s'.manager.target = none ∧ s'.takingTurns < s.takingTurns := by
  have hbefore : s.takingTurns = 4 + s.hiringTurns := if_pos hbusy
  have hmanage : ∀ manager : Manager,
      hiringTurns { s with manager := manager } < s.hiringTurns →
      takingTurns { s with manager := manager } < s.takingTurns := by
    intro manager hlt
    rw [hbefore, takingTurns, if_pos hbusy]
    exact Nat.add_lt_add_left hlt 4
  have hhired : ∀ manager : Manager,
      takingTurns { s with workers := s.workers ++ [{}], manager := manager } < s.takingTurns := by
    intro manager
    have hsum : ((s.workers ++ [({} : WorkerThread)]).map WorkerThread.idleTurns).sum = 3 := by
      rw [List.map_append, List.sum_append, hbusy]
      rfl
    rw [hbefore, takingTurns, hsum]
    show 3 < _
    omega
  cases hmanager : s.manager with
  | sampling =>
      have hstep : s.step (.sample .high) = some { s with
          manager := .expanding (if s.workers.isEmpty then .low else .high) } := by
        simp only [ElasticState.step, hmanager]
      refine ⟨.sample .high, _, rfl, trivial, hstep, rfl, rfl, hmanage _ ?_⟩
      cases hempty : s.workers.isEmpty <;> simp [hiringTurns, hmanager, hempty]
  | expanding load =>
      by_cases hexpand : load = .high ∨ s.workers.isEmpty = true
      · have hstep : s.step (.expand true) = some { s with
            workers := s.workers ++ [{}]
            manager := if load = .low ∧ 1 < (s.workers ++ [({} : WorkerThread)]).length then
              .shrinking 0 else .sampling } := by
          simp only [ElasticState.step, hmanager, hexpand, and_self, if_true]
        refine ⟨.expand true, _, rfl, trivial, hstep, rfl, ?_, hhired _⟩
        simp only
        split <;> rfl
      · have hstep : s.step (.expand true) = some { s with
            manager :=
              if load = .low ∧ 1 < s.workers.length then .shrinking 0 else .sampling } := by
          simp only [ElasticState.step, hmanager, hexpand, false_and, if_false]
        have hturns : s.hiringTurns = 3 + s.workers.length := by
          simp only [hiringTurns, hmanager]
          exact if_neg hexpand
        refine ⟨.expand true, _, rfl, trivial, hstep, rfl, ?_, hmanage _ ?_⟩
        · simp only
          split <;> rfl
        · rw [hturns]
          split
          case isTrue => show 2 + (s.workers.length - 0) < _; omega
          case isFalse => show 1 < _; omega
  | shrinking i =>
      have hturns : s.hiringTurns = 2 + (s.workers.length - i) := by rw [hiringTurns, hmanager]
      cases hw : s.workers[i]? with
      | none =>
          have hstep : s.step (.shrink false) = some { s with manager := .sampling } := by
            simp only [ElasticState.step, hmanager, hw]
          refine ⟨.shrink false, _, rfl, trivial, hstep, rfl, rfl, hmanage _ ?_⟩
          rw [hturns]
          show 1 < _
          omega
      | some w =>
          have hpause : w.tryPause false = none := by
            rw [WorkerThread.tryPause, h.busy htarget hbusy hw]
            rfl
          have hstep : s.step (.shrink false) = some { s with manager := .shrinking (i + 1) } := by
            simp only [ElasticState.step, hmanager, hw, hpause]
          have hlt := (List.getElem?_eq_some_iff.mp hw).1
          refine ⟨.shrink false, _, rfl, trivial, hstep, rfl, rfl, hmanage _ ?_⟩
          rw [hturns]
          show 2 + (s.workers.length - (i + 1)) < _
          omega
  | erasing i => cases hmanager ▸ htarget
  | joining i => cases hmanager ▸ htarget

theorem Taking.canTake (h : Taking task rest s) :
    quietMachine.CanReach (fun l => Label.settles l = true) (Taken task rest) s := by
  refine h.left.trans fun a ha => ?_
  refine Machine.CanReach.of_progress (I := fun a => Taking task rest a ∧ a.manager.target = none)
    takingTurns ?_ ha
  rintro b ⟨hb, htarget⟩
  by_cases hbusy : (b.workers.map WorkerThread.idleTurns).sum = 0
  · obtain ⟨l, b', hsettles, hquiet, hstep, hqueue, htarget', hlt⟩ := hb.hire htarget hbusy
    refine ⟨[l], b', by simp [hsettles], quiet_step hquiet hstep, Or.inr ⟨⟨⟨?_, ?_, ?_, ?_⟩,
      htarget'⟩, hlt⟩⟩
    · exact hb.staffed.step hstep
    · exact hb.secured.step hstep
    · exact hqueue.trans hb.queue
    · intro i w hi
      cases htarget'.symm.trans hi
  · obtain ⟨n, hmem, hn⟩ : ∃ n ∈ b.workers.map WorkerThread.idleTurns, n ≠ 0 := by
      by_contra hall
      push Not at hall
      exact hbusy (List.sum_eq_zero_iff_forall_eq_nat.mpr hall)
    obtain ⟨w, hw, rfl⟩ := List.mem_map.mp hmem
    obtain ⟨i, hi⟩ := List.getElem?_of_mem hw
    exact hb.idle htarget hi (Nat.pos_of_ne_zero hn)

theorem secured_runs (hrun : machine.Runs ls s) : Secured s :=
  hrun.invariant (I := Secured) secured_init fun _ _ _ h hstep => h.step hstep

/-- The executor can always take up one more task: from every state in which a task is in the queue,
some worker pops the next one without the end of any call and without a lock that fails for no
reason, however many workers are occupied, unless the manager waits for a worker that can still
take a task. -/
theorem can_take_up (hrun : machine.Runs ls s) (hqueue : s.queue = task :: rest)
    (hleaves : ∀ i w, s.manager.target = some i → s.workers[i]? = some w → w.Leaves) :
    ∃ es t, (∀ l ∈ es, Label.settles l = true) ∧ machine.Meets Quiet s es ∧
      machine.runFrom s es = some t ∧ t.queue = rest ∧ (∃ w ∈ t.workers, w.phase = .popped task) ∧
      Undisturbed s t := by
  have htaking : Taking task rest s := ⟨staffed_runs hrun, secured_runs hrun, hqueue, hleaves⟩
  obtain ⟨es, t, hsettles, hrest, -, hqueue', hpopped⟩ := htaking.canTake
  obtain ⟨hfrom, hmeets⟩ := Machine.restrict_runFrom.mp hrest
  refine ⟨es, t, hsettles, hmeets, hfrom, hqueue', hpopped, ?_⟩
  refine Machine.runFrom_invariant (I := Undisturbed s) ?_ (.refl s) hrest
  intro a l a' ha hstep
  obtain ⟨hquiet, hstep⟩ := Machine.restrict_step.mp hstep
  exact ha.trans (undisturbed_step hquiet hstep)

/-- One worker has a task, the manager waits for the other one, and two tasks are in the queue. -/
theorem can_take_up_run :
    ∃ s : ElasticState, machine.Runs shrunk s ∧ s.queue = [1, 2] ∧ s.manager = .joining 1 ∧
      ∃ es t, (∀ l ∈ es, Label.settles l = true) ∧ machine.Meets Quiet s es ∧
        machine.runFrom s es = some t ∧ t.queue = [2] ∧ (∃ w ∈ t.workers, w.phase = .popped 1) ∧
        Undisturbed s t := by
  obtain ⟨s, hrun, hqueue, hmanager, hworker⟩ : ∃ s : ElasticState, machine.Runs shrunk s ∧
      s.queue = [1, 2] ∧ s.manager = .joining 1 ∧
      s.workers[1]? = some { running := false, pauseLock := some .manager } :=
    ⟨_, rfl, rfl, rfl, rfl⟩
  refine ⟨s, hrun, hqueue, hmanager, can_take_up hrun hqueue ?_⟩
  intro i w hi hw
  obtain rfl : 1 = i := by
    rw [hmanager] at hi
    exact Option.some.inj hi
  obtain rfl := Option.some.inj (hworker.symm.trans hw)
  decide

end ElasticState

end Npp.Task
