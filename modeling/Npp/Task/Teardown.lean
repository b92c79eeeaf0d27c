import Npp.Task.Elastic

/-!
# Destroying the elastic executor

`~ElasticExecutorImpl` stores `running = false` and is through; then its members are destroyed, and
only after that the destructor of the base class `Thread` joins the manager. The manager reads
`running` once in each round of its loop.
-/

namespace Npp.Task

open Npp.Foundation

/-- Where the manager is in its round. In `pushing` it has started a worker that is not in `workers`
yet, and in `joining` it is inside of `erase`. In `terminated` it has called `run` in `~Thread`,
where it is pure. -/
inductive ManagerStage where
  | starting
  | testing
  | sampling
  | expanding (load : Load)
  | pushing (load : Load) (w : WorkerThread)
  | trimming
  | shrinking (i : Nat)
  | erasing (i : Nat)
  | joining (i : Nat)
  | sleeping
  | ended
  | terminated
deriving DecidableEq, Repr

/-- The next step of the manager reads or changes `workers` or `taskQueue`. -/
def ManagerStage.accesses : ManagerStage → Bool
  | .sampling | .expanding _ | .pushing _ _ | .trimming => true
  | .shrinking _ | .erasing _ | .joining _ => true
  | .starting | .testing | .sleeping | .ended | .terminated => false

/-- Where the thread is that destroys the executor. In `clearing` and in `waiting` it is in the
destructor of `workers`, and in `base` it is in `~Thread`. -/
inductive Destructor where
  | alive
  | stopped
  | clearing
  | waiting
  | base
  | gone
deriving DecidableEq, Repr

def Destructor.begun : Destructor → Bool
  | .alive | .stopped => false
  | .clearing | .waiting | .base | .gone => true

/-- `late` is set when the manager uses a member whose destruction has begun; nothing is known of
the program then. -/
structure TeardownState where
  queue : List Nat := []
  workers : List WorkerThread := []
  running : Bool := true
  manager : ManagerStage := .starting
  destructor : Destructor := .alive
  submitted : Nat := 0
  late : Bool := false
deriving DecidableEq, Repr

namespace TeardownState

/-- What the manager measures and what its `try_pause` answers. -/
structure Choice where
  load : Load := .middle
  backlog : Bool := false
  spurious : Bool := false
deriving DecidableEq, Repr

inductive Label where
  | execute
  | work (i : Nat) (spurious : Bool)
  | workNew (spurious : Bool)
  | manage (c : Choice)
  | destruct
deriving DecidableEq, Repr

/-- The end of the round: `workers.size()` is read for a low load only. -/
def trim (load : Load) : ManagerStage := if load = .low then .trimming else .sleeping

def manage (s : TeardownState) (c : Choice) : Option TeardownState :=
  match s.manager with
  | .starting =>
      some { s with
        manager := if s.destructor = .base ∨ s.destructor = .gone then .terminated else .testing }
  | .testing => some { s with manager := if s.running then .sampling else .ended }
  | .sampling =>
      -- the average over no workers is 0
      some { s with manager := .expanding (if s.workers.isEmpty then .low else c.load) }
  | .expanding load =>
      some { s with
        manager :=
          if (load = .high ∨ s.workers.isEmpty) ∧ c.backlog then .pushing load {} else trim load }
  | .pushing load w => some { s with workers := s.workers ++ [w], manager := trim load }
  | .trimming =>
      some { s with manager := if 1 < s.workers.length then .shrinking 0 else .sleeping }
  | .shrinking i =>
      match s.workers[i]? with
      | none => some { s with manager := .sleeping }
      | some w =>
          match w.tryPause c.spurious with
          | some w' => some { s with workers := s.workers.set i w', manager := .erasing i }
          | none => some { s with manager := .shrinking (i + 1) }
  | .erasing i =>
      match s.workers[i]? with
      | some w => some { s with workers := s.workers.set i w.stop, manager := .joining i }
      | none => none
  | .joining i =>
      match s.workers[i]? with
      | some w =>
          if w.phase = .exited then
            some { s with workers := s.workers.eraseIdx i, manager := .sleeping }
          else none
      | none => none
  | .sleeping => some { s with manager := .testing }
  | .ended | .terminated => none

def destruct (s : TeardownState) : Option TeardownState :=
  match s.destructor with
  | .alive => some { s with running := false, destructor := .stopped }
  | .stopped => some { s with destructor := .clearing }
  | .clearing =>
      match s.workers with
      | w :: rest => some { s with workers := w.stop :: rest, destructor := .waiting }
      | [] => some { s with queue := [], destructor := .base }
  | .waiting =>
      match s.workers with
      | w :: rest =>
          if w.phase = .exited then some { s with workers := rest, destructor := .clearing }
          else none
      | [] => none
  | .base => if s.manager = .ended then some { s with destructor := .gone } else none
  | .gone => none

def act (s : TeardownState) : Label → Option TeardownState
  | .execute =>
      if s.destructor = .alive then
        some { s with queue := s.queue ++ [s.submitted], submitted := s.submitted + 1 }
      else none
  | .work i spurious =>
      match s.workers[i]? with
      | some w =>
          (w.step s.queue spurious).map fun r =>
            { s with queue := r.2, workers := s.workers.set i r.1 }
      | none => none
  | .workNew spurious =>
      match s.manager with
      | .pushing load w =>
          (w.step s.queue spurious).map fun r =>
            { s with queue := r.2, manager := .pushing load r.1 }
      | _ => none
  | .manage c =>
      (s.manage c).map fun s' =>
        if s.destructor.begun ∧ s.manager.accesses then { s with late := true } else s'
  | .destruct => s.destruct

def step (s : TeardownState) (l : Label) : Option TeardownState :=
  if s.late then none else s.act l

def machine : Machine TeardownState Label where
  init := {}
  step := step

/-- From now on the manager uses no member whose destruction has begun. -/
def NeverLate (s : TeardownState) : Prop := ∀ es t, machine.runFrom s es = some t → t.late = false

variable {s s' : TeardownState} {l : Label} {ls : List Label}

theorem step_eq_some (h : machine.step s l = some s') : s.late = false ∧ s.act l = some s' := by
  change (if s.late then none else s.act l) = some s' at h
  cases hlate : s.late with
  | true =>
      rw [hlate, if_pos rfl] at h
      cases h
  | false =>
      rw [hlate, if_neg Bool.false_ne_true] at h
      exact ⟨rfl, h⟩

theorem step_of_punctual (h : s.late = false) : machine.step s l = s.act l := by
  show (if s.late then none else s.act l) = s.act l
  rw [h, if_neg Bool.false_ne_true]

/-! ## The rounds of the manager -/

/-- What a step of the manager can do: it goes on, or it changes the workers. -/
inductive Round (s : TeardownState) : TeardownState → Prop where
  | goOn (manager : ManagerStage) (erasing : ∀ i, manager ≠ .erasing i)
      (joining : ∀ i, manager ≠ .joining i) : Round s { s with manager := manager }
  | push (load : Load) (w : WorkerThread) :
      Round s { s with workers := s.workers ++ [w], manager := trim load }
  | pause (i : Nat) (w w' : WorkerThread) (found : s.workers[i]? = some w) :
      Round s { s with workers := s.workers.set i w', manager := .erasing i }
  | stop (i : Nat) (w : WorkerThread) (found : s.workers[i]? = some w) :
      Round s { s with workers := s.workers.set i w.stop, manager := .joining i }
  | join (i : Nat) : Round s { s with workers := s.workers.eraseIdx i, manager := .sleeping }

theorem trim_ne (load : Load) :
    (∀ i, trim load ≠ .erasing i) ∧ ∀ i, trim load ≠ .joining i := by
  unfold trim
  split <;> exact ⟨nofun, nofun⟩

theorem round_of_manage {c : Choice} (h : s.manage c = some s') : Round s s' := by
  unfold manage at h
  split at h
  case h_1 =>
    cases h
    refine .goOn _ ?_ ?_ <;> (split <;> exact nofun)
  case h_2 =>
    cases h
    refine .goOn _ ?_ ?_ <;> (split <;> exact nofun)
  case h_3 =>
    cases h
    exact .goOn _ nofun nofun
  case h_4 load _ =>
    cases h
    split
    case isTrue => exact .goOn _ nofun nofun
    case isFalse => exact .goOn _ (trim_ne load).1 (trim_ne load).2
  case h_5 load w _ =>
    cases h
    exact .push load w
  case h_6 =>
    cases h
    refine .goOn _ ?_ ?_ <;> (split <;> exact nofun)
  case h_7 i _ =>
    split at h
    case h_1 =>
      cases h
      exact .goOn _ nofun nofun
    case h_2 w hw =>
      split at h
      case h_1 w' _ =>
        cases h
        exact .pause i w w' hw
      case h_2 =>
        cases h
        exact .goOn _ nofun nofun
  case h_8 i _ =>
    split at h
    case h_1 w hw =>
      cases h
      exact .stop i w hw
    case h_2 => cases h
  case h_9 i _ =>
    split at h
    case h_1 w hw =>
      rw [Option.ite_none_right_eq_some] at h
      obtain ⟨-, h⟩ := h
      cases h
      exact .join i
    case h_2 => cases h
  case h_10 =>
    cases h
    exact .goOn _ nofun nofun
  case h_11 => cases h
  case h_12 => cases h

/-! ## Until the members go -/

/-- The worker that the manager erases is there, and it is stopped before it is joined. -/
structure Aims (s : TeardownState) : Prop where
  erasing : ∀ i, s.manager = .erasing i → i < s.workers.length
  joining : ∀ i, s.manager = .joining i → ∃ w, s.workers[i]? = some w ∧ w.running = false

/-- The body of the destructor has stopped the manager before its members go. -/
structure Poised (s : TeardownState) : Prop where
  stopped : s.destructor ≠ .alive → s.running = false
  aims : s.destructor.begun = false → s.Aims

theorem Aims.of_ne (herasing : ∀ i, s.manager ≠ .erasing i)
    (hjoining : ∀ i, s.manager ≠ .joining i) : Aims s :=
  ⟨fun i hi => absurd hi (herasing i), fun i hi => absurd hi (hjoining i)⟩

theorem Aims.of_round (h : Round s s') : Aims s' := by
  cases h with
  | goOn manager herasing hjoining => exact .of_ne herasing hjoining
  | push load w => exact .of_ne (trim_ne load).1 (trim_ne load).2
  | pause i w w' found =>
      refine ⟨?_, nofun⟩
      rintro _ ⟨⟩
      rw [List.length_set]
      exact (List.getElem?_eq_some_iff.mp found).1
  | stop i w found =>
      refine ⟨nofun, ?_⟩
      rintro _ ⟨⟩
      have hi : i < s.workers.length := (List.getElem?_eq_some_iff.mp found).1
      exact ⟨w.stop, List.getElem?_set_self hi, rfl⟩
  | join i => exact .of_ne nofun nofun

theorem Round.frame (h : Round s s') :
    s'.running = s.running ∧ s'.destructor = s.destructor ∧ s'.late = s.late := by
  cases h <;> exact ⟨rfl, rfl, rfl⟩

/-- A worker does not touch its flag. -/
theorem running_of_step {w w' : WorkerThread} {queue queue' : List Nat} {spurious : Bool}
    (h : w.step queue spurious = some (w', queue')) : w'.running = w.running := by
  obtain ⟨running, lock, phase⟩ := w
  cases phase with
  | locking =>
      simp only [WorkerThread.step] at h
      split at h <;> (cases h; rfl)
  | popping => cases queue <;> (cases h; rfl)
  | exited => cases h
  | _ =>
      cases h
      rfl

/-- A worker in the list takes a step. -/
theorem Aims.work (h : Aims s) {i : Nat} {w w' : WorkerThread} {queue queue' : List Nat}
    {spurious : Bool} (hw : s.workers[i]? = some w)
    (hstep : w.step queue spurious = some (w', queue')) :
    Aims { s with queue := queue', workers := s.workers.set i w' } := by
  constructor
  · intro j hj
    rw [List.length_set]
    exact h.erasing j hj
  · intro j hj
    obtain ⟨v, hv, hstopped⟩ := h.joining j hj
    by_cases hij : i = j
    · subst hij
      obtain rfl : w = v := Option.some.inj (hw.symm.trans hv)
      have hi : i < s.workers.length := (List.getElem?_eq_some_iff.mp hw).1
      exact ⟨w', List.getElem?_set_self hi, (running_of_step hstep).trans hstopped⟩
    · exact ⟨v, (List.getElem?_set_ne hij).trans hv, hstopped⟩

theorem Poised.destruct (h : Poised s) (hstep : s.destruct = some s') : Poised s' := by
  unfold TeardownState.destruct at hstep
  split at hstep
  case h_1 halive =>
    cases hstep
    refine ⟨fun _ => rfl, fun _ => ?_⟩
    have haims := h.aims (by rw [halive]; rfl)
    exact ⟨haims.erasing, haims.joining⟩
  case h_2 hstopped =>
    cases hstep
    exact ⟨fun _ => h.stopped (by simp [hstopped]), nofun⟩
  case h_3 hclearing =>
    split at hstep <;>
      (cases hstep; exact ⟨fun _ => h.stopped (by simp [hclearing]), nofun⟩)
  case h_4 hwaiting =>
    split at hstep
    case h_1 =>
      rw [Option.ite_none_right_eq_some] at hstep
      obtain ⟨-, hstep⟩ := hstep
      cases hstep
      exact ⟨fun _ => h.stopped (by simp [hwaiting]), nofun⟩
    case h_2 => cases hstep
  case h_5 hbase =>
    rw [Option.ite_none_right_eq_some] at hstep
    obtain ⟨-, hstep⟩ := hstep
    cases hstep
    exact ⟨fun _ => h.stopped (by simp [hbase]), nofun⟩
  case h_6 => cases hstep

theorem Poised.act (h : Poised s) (hstep : s.act l = some s') : Poised s' := by
  cases l with
  | execute =>
      simp only [TeardownState.act, Option.ite_none_right_eq_some] at hstep
      obtain ⟨-, hstep⟩ := hstep
      cases hstep
      exact ⟨h.stopped, fun hb => ⟨(h.aims hb).erasing, (h.aims hb).joining⟩⟩
  | work i spurious =>
      simp only [TeardownState.act] at hstep
      split at hstep
      case h_1 w hw =>
        obtain ⟨⟨w', queue'⟩, hwork, rfl⟩ := Option.map_eq_some_iff.mp hstep
        exact ⟨h.stopped, fun hb => (h.aims hb).work hw hwork⟩
      case h_2 => cases hstep
  | workNew spurious =>
      simp only [TeardownState.act] at hstep
      split at hstep
      case h_1 load w hw =>
        obtain ⟨⟨w', queue'⟩, hwork, rfl⟩ := Option.map_eq_some_iff.mp hstep
        exact ⟨h.stopped, fun _ => .of_ne nofun nofun⟩
      case h_2 => cases hstep
  | manage c =>
      obtain ⟨t, ht, rfl⟩ := Option.map_eq_some_iff.mp hstep
      have hround := round_of_manage ht
      split
      case isTrue hlate =>
        refine ⟨h.stopped, fun hb => ?_⟩
        rw [hlate.1] at hb
        cases hb
      case isFalse =>
        obtain ⟨hrunning, hdestructor, -⟩ := hround.frame
        constructor
        · rw [hrunning, hdestructor]
          exact h.stopped
        · exact fun _ => .of_round hround
  | destruct => exact h.destruct hstep

theorem poised_run (hrun : machine.Runs ls s) : Poised s := by
  refine hrun.invariant (I := Poised) ?_ fun _ _ _ h hstep => h.act (step_eq_some hstep).2
  exact ⟨fun hne => absurd rfl hne, fun _ => .of_ne nofun nofun⟩

/-! ## A manager at rest -/

/-- The manager has read its last member: it is stopped and not in its round. -/
structure AtRest (s : TeardownState) : Prop where
  stopped : s.running = false
  rest : s.manager.accesses = false
  punctual : s.late = false

theorem AtRest.manage (h : AtRest s) {c : Choice} (hstep : s.manage c = some s') : AtRest s' := by
  obtain ⟨hstopped, hrest, hpunctual⟩ := h
  unfold TeardownState.manage at hstep
  split at hstep
  case h_1 =>
    cases hstep
    refine ⟨hstopped, ?_, hpunctual⟩
    dsimp only
    split <;> rfl
  case h_2 =>
    cases hstep
    refine ⟨hstopped, ?_, hpunctual⟩
    rw [hstopped]
    rfl
  case h_10 =>
    cases hstep
    exact ⟨hstopped, rfl, hpunctual⟩
  case h_11 => cases hstep
  case h_12 => cases hstep
  all_goals
    rename_i hm
    rw [hm] at hrest
    cases hrest

theorem AtRest.destruct (h : AtRest s) (hstep : s.destruct = some s') : AtRest s' := by
  obtain ⟨hstopped, hrest, hpunctual⟩ := h
  unfold TeardownState.destruct at hstep
  split at hstep
  case h_1 =>
    cases hstep
    exact ⟨rfl, hrest, hpunctual⟩
  case h_2 =>
    cases hstep
    exact ⟨hstopped, hrest, hpunctual⟩
  case h_3 => split at hstep <;> (cases hstep; exact ⟨hstopped, hrest, hpunctual⟩)
  case h_4 =>
    split at hstep
    case h_1 =>
      rw [Option.ite_none_right_eq_some] at hstep
      obtain ⟨-, hstep⟩ := hstep
      cases hstep
      exact ⟨hstopped, hrest, hpunctual⟩
    case h_2 => cases hstep
  case h_5 =>
    rw [Option.ite_none_right_eq_some] at hstep
    obtain ⟨-, hstep⟩ := hstep
    cases hstep
    exact ⟨hstopped, hrest, hpunctual⟩
  case h_6 => cases hstep

theorem AtRest.step (h : AtRest s) (hstep : machine.step s l = some s') : AtRest s' := by
  obtain ⟨-, hact⟩ := step_eq_some hstep
  cases l with
  | execute =>
      simp only [act, Option.ite_none_right_eq_some] at hact
      obtain ⟨-, hact⟩ := hact
      cases hact
      exact ⟨h.stopped, h.rest, h.punctual⟩
  | work i spurious =>
      simp only [act] at hact
      split at hact
      case h_1 =>
        obtain ⟨r, -, rfl⟩ := Option.map_eq_some_iff.mp hact
        exact ⟨h.stopped, h.rest, h.punctual⟩
      case h_2 => cases hact
  | workNew spurious =>
      simp only [act] at hact
      split at hact
      case h_1 hm =>
        have hrest := h.rest
        rw [hm] at hrest
        cases hrest
      case h_2 => cases hact
  | manage c =>
      obtain ⟨t, ht, rfl⟩ := Option.map_eq_some_iff.mp hact
      rw [if_neg (by simp [h.rest])]
      exact h.manage ht
  | destruct => exact h.destruct hact

theorem AtRest.neverLate (h : AtRest s) : NeverLate s := by
  intro es t hrun
  have hrest := Machine.runFrom_invariant (I := AtRest) (fun _ _ _ h hstep => h.step hstep) h hrun
  exact hrest.punctual

/-! ## A manager in its round -/

def stepsLeft (w : WorkerThread) : Nat :=
  match w.phase with
  | .exited => 0
  | .testing => 1
  | .sleeping | .releasing => 2
  | .missed | .calling _ => 3
  | .popped _ => 4
  | .popping => 5
  | .locking => 6

theorem stepsLeft_step {w : WorkerThread} (hstopped : w.running = false)
    (hphase : w.phase ≠ .exited) (queue : List Nat) :
    ∃ w' queue', w.step queue true = some (w', queue') ∧ stepsLeft w' < stepsLeft w := by
  obtain ⟨running, lock, phase⟩ := w
  obtain rfl : running = false := hstopped
  cases phase with
  | testing => exact ⟨_, _, rfl, by simp [stepsLeft]⟩
  | locking =>
      simp only [WorkerThread.step, Bool.not_true, Bool.and_false, Bool.false_eq_true, if_false]
      exact ⟨_, _, rfl, by simp [stepsLeft]⟩
  | popping => cases queue <;> exact ⟨_, _, rfl, by simp [stepsLeft]⟩
  | popped task => exact ⟨_, _, rfl, by simp [stepsLeft]⟩
  | calling task => exact ⟨_, _, rfl, by simp [stepsLeft]⟩
  | releasing => exact ⟨_, _, rfl, by simp [stepsLeft]⟩
  | missed => exact ⟨_, _, rfl, by simp [stepsLeft]⟩
  | sleeping => exact ⟨_, _, rfl, by simp [stepsLeft]⟩
  | exited => exact absurd rfl hphase

/-- The destruction of the members has begun, and the manager is in its round. -/
structure InRound (s : TeardownState) : Prop where
  begun : s.destructor.begun = true
  accesses : s.manager.accesses = true
  punctual : s.late = false
  aims : s.Aims

def CanBeLate (s : TeardownState) : Prop := machine.CanReach (fun _ => True) (·.late = true) s

theorem InRound.canBeLate_of_manage (h : InRound s) {c : Choice} (hstep : s.manage c = some s') :
    s.CanBeLate := by
  have hlate : machine.step s (.manage c) = some { s with late := true } := by
    rw [step_of_punctual h.punctual, act, hstep, Option.map_some, if_pos ⟨h.begun, h.accesses⟩]
  exact Machine.CanReach.of_step (P := fun _ => True) (Machine.CanReach.here rfl) trivial hlate

/-- The worker that the manager joins comes to its end. -/
theorem InRound.canBeLate_of_joining (h : InRound s) {i : Nat} (hm : s.manager = .joining i) :
    s.CanBeLate := by
  obtain ⟨es, t, hes, hrun, ⟨hround, hjoin⟩, w, hw, hexited⟩ :
      machine.CanReach (fun _ => True) (fun a => (InRound a ∧ a.manager = .joining i) ∧
        ∃ w, a.workers[i]? = some w ∧ w.phase = .exited) s := by
    refine Machine.CanReach.of_measure (I := fun a => InRound a ∧ a.manager = .joining i)
      (fun a => (a.workers[i]?.map stepsLeft).getD 0) ?_ ⟨h, hm⟩
    rintro a ⟨ha, hma⟩ hnot
    obtain ⟨w, hw, hstopped⟩ := ha.aims.joining i hma
    have hphase : w.phase ≠ .exited := fun hexited => hnot ⟨⟨ha, hma⟩, w, hw, hexited⟩
    obtain ⟨w', queue', hwork, hless⟩ := stepsLeft_step hstopped hphase a.queue
    have hi : i < a.workers.length := (List.getElem?_eq_some_iff.mp hw).1
    refine ⟨[.work i true], { a with queue := queue', workers := a.workers.set i w' },
      fun _ _ => trivial, ?_, ⟨⟨ha.begun, ha.accesses, ha.punctual, ha.aims.work hw hwork⟩, hma⟩,
      ?_⟩
    · rw [Machine.runFrom_singleton, step_of_punctual ha.punctual]
      simp only [act, hw, hwork, Option.map_some]
    · show ((a.workers.set i w')[i]?.map stepsLeft).getD 0 < (a.workers[i]?.map stepsLeft).getD 0
      rw [List.getElem?_set_self hi, hw]
      exact hless
  have hstep : t.manage {} =
      some { t with workers := t.workers.eraseIdx i, manager := .sleeping } := by
    simp only [TeardownState.manage, hjoin, hw, hexited, if_true]
  exact (hround.canBeLate_of_manage hstep).of_runFrom (fun _ _ => trivial) hrun

theorem InRound.canBeLate (h : InRound s) : s.CanBeLate := by
  suffices hmanage : (∃ i, s.manager = .joining i) ∨ ∃ c t, s.manage c = some t by
    rcases hmanage with ⟨i, hm⟩ | ⟨c, t, hstep⟩
    · exact h.canBeLate_of_joining hm
    · exact h.canBeLate_of_manage hstep
  have haccesses := h.accesses
  cases hm : s.manager with
  | joining i => exact Or.inl ⟨i, rfl⟩
  | sampling | expanding load | pushing load w | trimming =>
      refine Or.inr ⟨{}, ?_⟩
      simp only [TeardownState.manage, hm]
      exact ⟨_, rfl⟩
  | shrinking i =>
      refine Or.inr ⟨{ spurious := true }, ?_⟩
      simp only [TeardownState.manage, hm]
      cases hw : s.workers[i]? with
      | none => exact ⟨_, rfl⟩
      | some w =>
          have hfail : w.tryPause true = none := by simp [WorkerThread.tryPause]
          simp only [hfail]
          exact ⟨_, rfl⟩
  | erasing i =>
      have hi : i < s.workers.length := h.aims.erasing i hm
      refine Or.inr ⟨{}, ?_⟩
      simp only [TeardownState.manage, hm, List.getElem?_eq_getElem hi]
      exact ⟨_, rfl⟩
  | starting | testing | sleeping | ended | terminated =>
      rw [hm] at haccesses
      cases haccesses

/-- **The manager stops before its state goes away.** Where the destruction of the members begins,
the manager uses none of them from then on, whatever happens, just when it is at rest: before its
loop, asleep, at the test of `running`, or at its end. -/
theorem neverLate_iff (hrun : machine.Runs ls s) (hstopped : s.destructor = .stopped)
    (hstep : machine.step s .destruct = some s') :
    s'.NeverLate ↔ s.manager.accesses = false := by
  have hpoised := poised_run hrun
  obtain ⟨hpunctual, hact⟩ := step_eq_some hstep
  have hrunning : s.running = false := hpoised.stopped (by simp [hstopped])
  have haims : s.Aims := hpoised.aims (by simp [hstopped, Destructor.begun])
  simp only [act, TeardownState.destruct, hstopped, Option.some.injEq] at hact
  subst hact
  constructor
  · intro hnever
    by_contra haccesses
    have hround : InRound { s with destructor := .clearing } :=
      ⟨rfl, Bool.of_not_eq_false haccesses, hpunctual, ⟨haims.erasing, haims.joining⟩⟩
    obtain ⟨es, t, -, hlate, hend⟩ := hround.canBeLate
    rw [hnever es t hlate] at hend
    cases hend
  · intro hrest
    exact AtRest.neverLate ⟨hrunning, hrest, hpunctual⟩

/-- The manager starts two workers, of which one takes the task, and goes to sleep. -/
def twoWorkers : List Label :=
  [.execute, .manage {}, .manage {}, .manage {}, .manage { backlog := true }, .manage {},
    .manage {}, .manage {}, .manage {}, .manage { load := .high }, .manage { backlog := true },
    .manage {}, .work 0 false, .work 0 false, .work 0 false]

/-- The destructor comes while the manager sleeps. -/
theorem neverLate_iff_run :
    ∃ s s', machine.Runs (twoWorkers ++ [.destruct]) s ∧ machine.step s .destruct = some s' ∧
      s.manager = .sleeping ∧ s.workers.map (·.phase) = [.popped 0, .testing] ∧ s'.NeverLate := by
  have hrun : machine.Runs (twoWorkers ++ [.destruct]) _ := rfl
  exact ⟨_, _, hrun, rfl, rfl, rfl, (neverLate_iff hrun rfl rfl).mpr rfl⟩

/-- The destructor comes while the manager is about to push a new worker. -/
theorem late_push :
    ∃ s, machine.Runs [.execute, .manage {}, .manage {}, .manage {},
        .manage { backlog := true }, .destruct, .destruct, .manage {}] s ∧ s.late = true :=
  ⟨_, rfl, rfl⟩

end TeardownState

end Npp.Task
