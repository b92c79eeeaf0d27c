import Npp.Foundation.Machine

/-!
# The looper executor

One worker runs `run_loop`; any number of threads call `execute` and `shutdown`. Only `queue_lock`
keeps them apart: `execute` tests `is_active` and pushes in two steps with the lock between them,
`shutdown` stores the flag without the lock, and the two reads of the loop's condition take no lock
either. A worker that waits has given up the lock.
-/

namespace Npp.Task

open Npp.Foundation

variable {F : Type}

inductive LooperWorker (F : Type) where
  | testActive
  | testEmpty
  | enter
  | waiting (notified : Bool)
  | calling (func : F)
  | exited
deriving DecidableEq, Repr

namespace LooperWorker

/-- The effect of `notify_one` and of `notify_all`, as nobody else waits. -/
def notify : LooperWorker F → LooperWorker F
  | .waiting _ => .waiting true
  | w => w

def inHand : LooperWorker F → List F
  | .calling func => [func]
  | _ => []

@[simp] theorem notify_inHand (w : LooperWorker F) : w.notify.inHand = w.inHand := by
  cases w <;> rfl

theorem notify_testEmpty {w : LooperWorker F} : w.notify = .testEmpty ↔ w = .testEmpty := by
  cases w <;> simp [notify]

theorem notify_exited {w : LooperWorker F} : w.notify = .exited ↔ w = .exited := by
  cases w <;> simp [notify]

end LooperWorker

structure LooperState (F : Type) where
  queue : List F := []
  isActive : Bool := true
  worker : LooperWorker F := .testActive
  /-- The function of an `execute` that holds `queue_lock` and has found the flag set. -/
  pushing : Option F := none
  /-- The `shutdown(false)` calls that are still to clear the queue. -/
  clears : Nat := 0
  /-- The calls that are still to notify. -/
  notifies : Nat := 0
  pushed : List F := []
  called : List F := []
deriving Repr

namespace LooperState

inductive Label (F : Type) where
  | execute (func : F)
  | push
  | shutdown (waitForComplete : Bool)
  | clear
  | notify
  | testActive
  | testEmpty
  | enter
  | wake (spurious : Bool)
  | call
deriving DecidableEq, Repr

/-- `auto func = front(); pop(); lock.unlock();` -/
def popAndUnlock (s : LooperState F) (func : F) (rest : List F) : LooperState F :=
  { s with queue := rest, worker := .calling func }

def step (s : LooperState F) : Label F → Option (LooperState F)
  | .execute func =>
      if s.pushing.isNone then
        some { s with pushing := if s.isActive then some func else none }
      else none
  | .push =>
      match s.pushing with
      | some func =>
          some { s with
            queue := s.queue ++ [func]
            pushing := none
            notifies := s.notifies + 1
            pushed := s.pushed ++ [func] }
      | none => none
  | .shutdown waitForComplete =>
      if waitForComplete then some { s with isActive := false, notifies := s.notifies + 1 }
      else some { s with isActive := false, clears := s.clears + 1 }
  | .clear =>
      if s.pushing.isNone ∧ 0 < s.clears then
        some { s with queue := [], clears := s.clears - 1, notifies := s.notifies + 1 }
      else none
  | .notify =>
      if 0 < s.notifies then
        some { s with worker := s.worker.notify, notifies := s.notifies - 1 }
      else none
  | .testActive =>
      match s.worker with
      | .testActive => some { s with worker := if s.isActive then .enter else .testEmpty }
      | _ => none
  | .testEmpty =>
      match s.worker with
      | .testEmpty => some { s with worker := if s.queue.isEmpty then .exited else .enter }
      | _ => none
  | .enter =>
      match s.worker, s.pushing with
      | .enter, none =>
          match s.queue with
          | [] => some { s with worker := .waiting false }
          | func :: rest => some (s.popAndUnlock func rest)
      | _, _ => none
  | .wake spurious =>
      match s.worker, s.pushing with
      | .waiting notified, none =>
          if notified || spurious then
            match s.queue with
            | [] => some { s with worker := .testActive }
            | func :: rest => some (s.popAndUnlock func rest)
          else none
      | _, _ => none
  | .call =>
      match s.worker with
      | .calling func => some { s with worker := .testActive, called := s.called ++ [func] }
      | _ => none

def machine (F : Type) : Machine (LooperState F) (Label F) where
  init := {}
  step := step

variable {s s' : LooperState F} {l : Label F} {ls : List (Label F)}

/-! ## What a step does -/

inductive Transition (s : LooperState F) : Label F → LooperState F → Prop where
  | execute (func : F) (free : s.pushing = none) :
      Transition s (.execute func)
        { s with pushing := if s.isActive then some func else none }
  | push (func : F) (pushing : s.pushing = some func) :
      Transition s .push { s with
        queue := s.queue ++ [func]
        pushing := none
        notifies := s.notifies + 1
        pushed := s.pushed ++ [func] }
  | complete :
      Transition s (.shutdown true) { s with isActive := false, notifies := s.notifies + 1 }
  | abandon :
      Transition s (.shutdown false) { s with isActive := false, clears := s.clears + 1 }
  | clear (free : s.pushing = none) (clears : 0 < s.clears) :
      Transition s .clear
        { s with queue := [], clears := s.clears - 1, notifies := s.notifies + 1 }
  | notify (notifies : 0 < s.notifies) :
      Transition s .notify { s with worker := s.worker.notify, notifies := s.notifies - 1 }
  | goOn (worker : s.worker = .testActive) (active : s.isActive = true) :
      Transition s .testActive { s with worker := .enter }
  | goLook (worker : s.worker = .testActive) (active : s.isActive = false) :
      Transition s .testActive { s with worker := .testEmpty }
  | exit (worker : s.worker = .testEmpty) (queue : s.queue = []) :
      Transition s .testEmpty { s with worker := .exited }
  | remain (worker : s.worker = .testEmpty) (queue : s.queue ≠ []) :
      Transition s .testEmpty { s with worker := .enter }
  | wait (worker : s.worker = .enter) (free : s.pushing = none) (queue : s.queue = []) :
      Transition s .enter { s with worker := .waiting false }
  | pop (func : F) (rest : List F) (worker : s.worker = .enter) (free : s.pushing = none)
      (queue : s.queue = func :: rest) : Transition s .enter (s.popAndUnlock func rest)
  | wakeEmpty (notified spurious : Bool) (worker : s.worker = .waiting notified)
      (woken : (notified || spurious) = true) (free : s.pushing = none) (queue : s.queue = []) :
      Transition s (.wake spurious) { s with worker := .testActive }
  | wakePop (notified spurious : Bool) (func : F) (rest : List F)
      (worker : s.worker = .waiting notified) (woken : (notified || spurious) = true)
      (free : s.pushing = none) (queue : s.queue = func :: rest) :
      Transition s (.wake spurious) (s.popAndUnlock func rest)
  | call (func : F) (worker : s.worker = .calling func) :
      Transition s .call { s with worker := .testActive, called := s.called ++ [func] }

theorem transition_of_step (hstep : s.step l = some s') : Transition s l s' := by
  cases l with
  | execute func =>
      simp only [step, Option.ite_none_right_eq_some, Option.some.injEq] at hstep
      obtain ⟨hfree, rfl⟩ := hstep
      exact .execute func (Option.isNone_iff_eq_none.mp hfree)
  | push =>
      simp only [step] at hstep
      split at hstep
      case h_1 func hpushing =>
        cases hstep
        exact .push func hpushing
      case h_2 => cases hstep
  | shutdown waitForComplete =>
      cases waitForComplete with
      | true =>
          cases hstep
          exact .complete
      | false =>
          cases hstep
          exact .abandon
  | clear =>
      simp only [step, Option.ite_none_right_eq_some, Option.some.injEq] at hstep
      obtain ⟨⟨hfree, hclears⟩, rfl⟩ := hstep
      exact .clear (Option.isNone_iff_eq_none.mp hfree) hclears
  | notify =>
      simp only [step, Option.ite_none_right_eq_some, Option.some.injEq] at hstep
      obtain ⟨hnotifies, rfl⟩ := hstep
      exact .notify hnotifies
  | testActive =>
      simp only [step] at hstep
      split at hstep
      case h_1 hworker =>
        split at hstep
        case isTrue hactive =>
          cases hstep
          exact .goOn hworker hactive
        case isFalse hactive =>
          cases hstep
          exact .goLook hworker (Bool.eq_false_iff.mpr hactive)
      case h_2 => cases hstep
  | testEmpty =>
      simp only [step] at hstep
      split at hstep
      case h_1 hworker =>
        split at hstep
        case isTrue hqueue =>
          cases hstep
          exact .exit hworker (List.isEmpty_iff.mp hqueue)
        case isFalse hqueue =>
          cases hstep
          exact .remain hworker fun hnil => hqueue (List.isEmpty_iff.mpr hnil)
      case h_2 => cases hstep
  | enter =>
      simp only [step] at hstep
      split at hstep
      case h_1 hworker hfree =>
        split at hstep
        case h_1 hqueue =>
          cases hstep
          exact .wait hworker hfree hqueue
        case h_2 func rest hqueue =>
          cases hstep
          exact .pop func rest hworker hfree hqueue
      case h_2 => cases hstep
  | wake spurious =>
      simp only [step] at hstep
      split at hstep
      case h_1 notified hworker hfree =>
        rw [Option.ite_none_right_eq_some] at hstep
        obtain ⟨hwoken, hstep⟩ := hstep
        split at hstep
        case h_1 hqueue =>
          cases hstep
          exact .wakeEmpty notified spurious hworker hwoken hfree hqueue
        case h_2 func rest hqueue =>
          cases hstep
          exact .wakePop notified spurious func rest hworker hwoken hfree hqueue
      case h_2 => cases hstep
  | call =>
      simp only [step] at hstep
      split at hstep
      case h_1 func hworker =>
        cases hstep
        exact .call func hworker
      case h_2 => cases hstep

theorem step_of_transition (h : Transition s l s') : s.step l = some s' := by
  cases h with
  | execute func free => simp [step, free]
  | push func pushing => simp [step, pushing]
  | complete => rfl
  | abandon => rfl
  | clear free clears => simp [step, free, clears]
  | notify notifies => simp [step, notifies]
  | goOn worker active => simp [step, worker, active]
  | goLook worker active => simp [step, worker, active]
  | exit worker queue => simp [step, worker, queue]
  | remain worker queue => simp [step, worker, queue]
  | wait worker free queue => simp [step, worker, free, queue]
  | pop func rest worker free queue => simp [step, worker, free, queue]
  | wakeEmpty notified spurious worker woken free queue =>
      simp only [step, worker, free, queue, woken, if_true]
  | wakePop notified spurious func rest worker woken free queue =>
      simp only [step, worker, free, queue, woken, if_true]
  | call func worker => simp [step, worker]

theorem step_iff : s.step l = some s' ↔ Transition s l s' :=
  ⟨transition_of_step, step_of_transition⟩

/-! ## The account of the functions -/

/-- What every run keeps in which no `shutdown` clears the queue. -/
structure Draining (s : LooperState F) : Prop where
  history : s.called ++ s.worker.inHand ++ s.queue = s.pushed
  no_clear : s.clears = 0
  leaving : s.worker = .testEmpty → s.isActive = false

/-- A step of the worker that leaves the queue and the history as they are. -/
theorem Draining.moved (h : Draining s) {w : LooperWorker F} (hbefore : s.worker.inHand = [])
    (hafter : w.inHand = []) (leaving : w = .testEmpty → s.isActive = false) :
    Draining { s with worker := w } := by
  refine ⟨?_, h.no_clear, leaving⟩
  show s.called ++ w.inHand ++ s.queue = s.pushed
  rw [hafter, ← hbefore]
  exact h.history

theorem Draining.popped (h : Draining s) {func : F} {rest : List F}
    (hqueue : s.queue = func :: rest) (hand : s.worker.inHand = []) :
    Draining (s.popAndUnlock func rest) := by
  refine ⟨?_, h.no_clear, fun hw => nomatch hw⟩
  have hhistory := h.history
  rw [hand, hqueue, List.append_nil] at hhistory
  show s.called ++ [func] ++ rest = s.pushed
  rw [List.append_assoc, List.singleton_append]
  exact hhistory

theorem Draining.step (h : Draining s) (hwait : l ≠ .shutdown false)
    (hstep : s.step l = some s') : Draining s' := by
  cases step_iff.mp hstep with
  | execute func free => exact ⟨h.history, h.no_clear, h.leaving⟩
  | push func pushing =>
      refine ⟨?_, h.no_clear, h.leaving⟩
      show s.called ++ s.worker.inHand ++ (s.queue ++ [func]) = s.pushed ++ [func]
      rw [← List.append_assoc, h.history]
  | complete => exact ⟨h.history, h.no_clear, fun _ => rfl⟩
  | abandon => exact absurd rfl hwait
  | clear free clears =>
      rw [h.no_clear] at clears
      exact absurd clears (Nat.lt_irrefl 0)
  | notify notifies =>
      refine ⟨?_, h.no_clear, ?_⟩
      · show s.called ++ s.worker.notify.inHand ++ s.queue = s.pushed
        rw [LooperWorker.notify_inHand]
        exact h.history
      · intro hw
        exact h.leaving (LooperWorker.notify_testEmpty.mp hw)
  | goOn worker active => exact h.moved (by rw [worker]; rfl) rfl fun hw => nomatch hw
  | goLook worker active => exact h.moved (by rw [worker]; rfl) rfl fun _ => active
  | exit worker queue => exact h.moved (by rw [worker]; rfl) rfl fun hw => nomatch hw
  | remain worker queue => exact h.moved (by rw [worker]; rfl) rfl fun hw => nomatch hw
  | wait worker free queue => exact h.moved (by rw [worker]; rfl) rfl fun hw => nomatch hw
  | pop func rest worker free queue => exact h.popped queue (by rw [worker]; rfl)
  | wakeEmpty notified spurious worker woken free queue =>
      exact h.moved (by rw [worker]; rfl) rfl fun hw => nomatch hw
  | wakePop notified spurious func rest worker woken free queue =>
      exact h.popped queue (by rw [worker]; rfl)
  | call func worker =>
      refine ⟨?_, h.no_clear, fun hw => nomatch hw⟩
      have hhistory := h.history
      rw [worker] at hhistory
      show s.called ++ [func] ++ [] ++ s.queue = s.pushed
      rw [List.append_nil]
      exact hhistory

theorem draining_runs (hrun : (machine F).Runs ls s) (hwait : ∀ l ∈ ls, l ≠ .shutdown false) :
    Draining s := by
  refine hrun.guarded (I := Draining) (C := fun _ l => l ≠ .shutdown false) ?_ ?_ ?_
  · exact ⟨rfl, rfl, fun hw => nomatch hw⟩
  · intro a l a' h hl hstep
    exact h.step hl hstep
  · exact Machine.meets_of_forall hwait _

/-! ## The exit -/

structure Finished (s : LooperState F) : Prop where
  worker : s.worker = .exited
  isActive : s.isActive = false
  queue : s.queue = []
  pushing : s.pushing = none

/-- When `run_loop` finds the queue empty in its loop condition, no `execute` is between its test
of the flag and its push. -/
def ExitsSettled (s : LooperState F) (l : Label F) : Prop :=
  l = .testEmpty → s.queue = [] → s.pushing = none

instance [DecidableEq F] (s : LooperState F) (l : Label F) : Decidable (ExitsSettled s l) :=
  inferInstanceAs (Decidable (l = .testEmpty → s.queue = [] → s.pushing = none))

/-- The worker leaves its loop in one place. -/
theorem exits_step (hstep : s.step l = some s') (hbefore : s.worker ≠ .exited)
    (hafter : s'.worker = .exited) :
    l = .testEmpty ∧ s.worker = .testEmpty ∧ s.queue = [] ∧ s' = { s with worker := .exited } := by
  cases step_iff.mp hstep with
  | exit worker queue => exact ⟨rfl, worker, queue, rfl⟩
  | notify notifies => exact absurd (LooperWorker.notify_exited.mp hafter) hbefore
  | execute func free => exact absurd hafter hbefore
  | push func pushing => exact absurd hafter hbefore
  | complete => exact absurd hafter hbefore
  | abandon => exact absurd hafter hbefore
  | clear free clears => exact absurd hafter hbefore
  | goOn worker active => cases hafter
  | goLook worker active => cases hafter
  | remain worker queue => cases hafter
  | wait worker free queue => cases hafter
  | pop func rest worker free queue => cases hafter
  | wakeEmpty notified spurious worker woken free queue => cases hafter
  | wakePop notified spurious func rest worker woken free queue => cases hafter
  | call func worker => cases hafter

/-- After such an exit only `shutdown` calls and rejected `execute` calls can follow. -/
theorem Finished.step (h : Finished s) (hstep : s.step l = some s') :
    Finished s' ∧ s'.pushed = s.pushed := by
  have hworker := h.worker
  cases step_iff.mp hstep with
  | execute func free =>
      refine ⟨⟨hworker, h.isActive, h.queue, ?_⟩, rfl⟩
      show (if s.isActive then some func else none) = none
      rw [h.isActive]
      rfl
  | push func pushing =>
      rw [h.pushing] at pushing
      cases pushing
  | complete => exact ⟨⟨hworker, rfl, h.queue, h.pushing⟩, rfl⟩
  | abandon => exact ⟨⟨hworker, rfl, h.queue, h.pushing⟩, rfl⟩
  | clear free clears => exact ⟨⟨hworker, h.isActive, rfl, h.pushing⟩, rfl⟩
  | notify notifies =>
      exact ⟨⟨LooperWorker.notify_exited.mpr hworker, h.isActive, h.queue, h.pushing⟩, rfl⟩
  | goOn worker active => cases hworker.symm.trans worker
  | goLook worker active => cases hworker.symm.trans worker
  | exit worker queue => cases hworker.symm.trans worker
  | remain worker queue => cases hworker.symm.trans worker
  | wait worker free queue => cases hworker.symm.trans worker
  | pop func rest worker free queue => cases hworker.symm.trans worker
  | wakeEmpty notified spurious worker woken free queue => cases hworker.symm.trans worker
  | wakePop notified spurious func rest worker woken free queue =>
      cases hworker.symm.trans worker
  | call func worker => cases hworker.symm.trans worker

theorem finished_step (hdrain : Draining s) (h : s.worker = .exited → Finished s)
    (hsettled : ExitsSettled s l) (hstep : s.step l = some s') :
    s'.worker = .exited → Finished s' := by
  intro hafter
  by_cases hbefore : s.worker = .exited
  · exact ((h hbefore).step hstep).1
  · obtain ⟨rfl, hworker, hqueue, rfl⟩ := exits_step hstep hbefore hafter
    exact ⟨rfl, hdrain.leaving hworker, hqueue, hsettled rfl hqueue⟩

theorem finished_runs (hrun : (machine F).Runs ls s) (hwait : ∀ l ∈ ls, l ≠ .shutdown false)
    (hmeets : (machine F).Meets ExitsSettled (machine F).init ls) :
    s.worker = .exited → Finished s := by
  have hinv : Draining s ∧ (s.worker = .exited → Finished s) := by
    refine hrun.guarded (I := fun s => Draining s ∧ (s.worker = .exited → Finished s))
      (C := fun s l => l ≠ .shutdown false ∧ ExitsSettled s l) ?_ ?_ ?_
    · exact ⟨⟨rfl, rfl, fun hw => nomatch hw⟩, fun hw => nomatch hw⟩
    · rintro a l a' ⟨hdrain, hfinished⟩ ⟨hl, hsettled⟩ hstep
      exact ⟨hdrain.step hl hstep, finished_step hdrain hfinished hsettled hstep⟩
    · exact (Machine.meets_of_forall hwait _).and hmeets
  exact hinv.2

/-- Along the run, a looper that has left its loop has called what was pushed, in that order, and
nothing has been pushed since. -/
def DrainedAlong (ls : List (Label F)) (s : LooperState F) : Prop :=
  ∀ pre t, pre <+: ls → (machine F).Runs pre t → t.worker = .exited →
    t.called = t.pushed ∧ s.pushed = t.pushed

/-- What a looper has called and pushed when it left its loop settled is all there will be. -/
theorem drainedAlong_of_meets (hrun : (machine F).Runs ls s)
    (hwait : ∀ l ∈ ls, l ≠ .shutdown false)
    (hmeets : (machine F).Meets ExitsSettled (machine F).init ls) : DrainedAlong ls s := by
  rintro pre t ⟨post, rfl⟩ ht hexited
  have hpre : ∀ l ∈ pre, l ≠ .shutdown false := fun l hl =>
    hwait l (List.mem_append_left _ hl)
  have hdrain : Draining t := draining_runs ht hpre
  have hfinished : Finished t := finished_runs ht hpre hmeets.of_append hexited
  constructor
  · have hhistory := hdrain.history
    rw [hfinished.worker, hfinished.queue, List.append_nil] at hhistory
    exact (List.append_nil _).symm.trans hhistory
  · obtain ⟨t', ht', hrest⟩ := Machine.runs_append.mp hrun
    obtain rfl : t = t' := Option.some.inj (ht.symm.trans ht')
    have hkept : Finished s ∧ s.pushed = t.pushed := by
      refine Machine.runFrom_invariant (I := fun s => Finished s ∧ s.pushed = t.pushed)
        ?_ ⟨hfinished, rfl⟩ hrest
      rintro a l a' ⟨ha, hpushed⟩ hstep
      obtain ⟨ha', hpushed'⟩ := ha.step hstep
      exact ⟨ha', hpushed'.trans hpushed⟩
    exact hkept.2

/-- An `execute` that is half-finished at the exit still holds the lock, and pushes for nobody. -/
theorem not_drainedAlong_of_exit {pre : List (Label F)} {t t' : LooperState F}
    (ht : (machine F).Runs pre t) (hstep : t.step .testEmpty = some t') (hqueue : t.queue = [])
    (hpushing : t.pushing ≠ none) :
    ∃ u, (machine F).Runs (pre ++ [.testEmpty, .push]) u ∧
      ¬ DrainedAlong (pre ++ [.testEmpty, .push]) u := by
  obtain ⟨func, hfunc⟩ := Option.ne_none_iff_exists'.mp hpushing
  have ht' : (machine F).Runs (pre ++ [.testEmpty]) t' := Machine.runs_snoc.mpr ⟨t, ht, hstep⟩
  cases step_iff.mp hstep with
  | remain worker queue => exact absurd hqueue queue
  | exit worker queue =>
      have hpush : Transition { t with worker := .exited } .push _ := .push func hfunc
      have hu : (machine F).Runs (pre ++ [.testEmpty] ++ [.push]) _ :=
        Machine.runs_snoc.mpr ⟨_, ht', step_of_transition hpush⟩
      rw [List.append_assoc] at hu
      refine ⟨_, hu, ?_⟩
      intro hdrained
      have hpre : pre ++ [.testEmpty] <+: pre ++ [.testEmpty, .push] := ⟨[.push], by simp⟩
      have hsince := (hdrained _ _ hpre ht' rfl).2
      simp at hsince

/-- **The looper drains in order** in every run without a clearing `shutdown` in which no
`execute` is half-finished when the loop condition finds the queue empty. A run that breaks this
ends, when that `execute` pushes, with a function that is never called. -/
theorem drains_iff (hrun : (machine F).Runs ls s) (hwait : ∀ l ∈ ls, l ≠ .shutdown false) :
    ((machine F).Meets ExitsSettled (machine F).init ls → DrainedAlong ls s) ∧
    (¬ (machine F).Meets ExitsSettled (machine F).init ls →
      ∃ pre post t, ls = pre ++ .testEmpty :: post ∧
        (machine F).Runs (pre ++ [.testEmpty, .push]) t ∧
        ¬ DrainedAlong (pre ++ [.testEmpty, .push]) t) := by
  constructor
  · exact drainedAlong_of_meets hrun hwait
  · intro hbreach
    obtain ⟨pre, l, post, a, a', rfl, ha, -, hc, hstep, -⟩ := hrun.exists_breach hbreach
    simp only [ExitsSettled, Classical.not_imp] at hc
    obtain ⟨rfl, hqueue, hpushing⟩ := hc
    obtain ⟨t, ht, hnot⟩ := not_drainedAlong_of_exit ha hstep hqueue hpushing
    exact ⟨pre, post, t, rfl, ht, hnot⟩

/-- Two functions are pushed, one of them after the store of `shutdown(true)`, and both are called
in that order before the worker exits. -/
theorem drains_iff_run :
    ∃ s : LooperState Nat,
      (machine Nat).Runs [.execute 1, .push, .execute 2, .shutdown true, .push, .testActive,
        .testEmpty, .enter, .call, .testActive, .testEmpty, .enter, .call, .testActive, .testEmpty,
        .notify, .execute 3] s ∧
      (∀ pre t, pre <+: [.execute 1, .push, .execute 2, .shutdown true, .push, .testActive,
        .testEmpty, .enter, .call, .testActive, .testEmpty, .enter, .call, .testActive, .testEmpty,
        .notify, .execute 3] → (machine Nat).Runs pre t → t.worker = .exited →
        t.called = t.pushed ∧ s.pushed = t.pushed) ∧
      s.worker = .exited ∧ s.called = [1, 2] :=
  have hrun : (machine Nat).Runs [.execute 1, .push, .execute 2, .shutdown true, .push, .testActive,
      .testEmpty, .enter, .call, .testActive, .testEmpty, .enter, .call, .testActive, .testEmpty,
      .notify, .execute 3] _ := rfl
  ⟨_, hrun, (drains_iff hrun (by decide)).1 (by decide), rfl, rfl⟩

/-- `execute` finds the flag set, `shutdown(true)` stores it, the worker reads the flag and then
the still empty queue and exits, and `execute` pushes 7 for nobody. -/
theorem not_drains :
    ∃ s : LooperState Nat,
      (machine Nat).Runs [.execute 7, .shutdown true, .testActive, .testEmpty, .push] s ∧
      s.worker = .exited ∧ s.pushed = [7] ∧ s.called = [] ∧
      ¬ DrainedAlong [.execute 7, .shutdown true, .testActive, .testEmpty, .push] s := by
  refine ⟨_, rfl, rfl, rfl, rfl, ?_⟩
  intro hdrained
  exact absurd (hdrained _ _ List.prefix_rfl rfl rfl).1 (by decide)

end LooperState

end Npp.Task
