import Npp.Foundation.Machine
import Npp.Foundation.PriorityQueue
import Mathlib.Algebra.Group.Int.Defs
import Mathlib.Algebra.Group.Nat.Defs
import Mathlib.Data.List.Nodup

/-!
# The scheduler

One worker runs `run_loop`; any number of threads call `execute` and `shutdown`. A critical
section under `queue_lock` is one step, and so is each unlocked read of the loop's condition. A
wait gives up the lock: it ends in a later step, after any number of critical sections of other
threads. The clock readings of `delay()` and of the constructor are part of the labels, since the
system clock may be set at any time; `wait_for` uses the steady clock, and times out at once where
its end does not fit into nanoseconds.
-/

namespace Npp.Task

open Npp.Foundation

/-- The value of a `long long` computation. -/
def longLong (n : Int) : Int := n.bmod (2 ^ 64)

def IsLongLong (n : Int) : Prop := -2 ^ 63 ≤ n ∧ n < 2 ^ 63

instance (n : Int) : Decidable (IsLongLong n) := inferInstanceAs (Decidable (_ ∧ _))

theorem longLong_eq_iff {n : Int} : longLong n = n ↔ IsLongLong n := by
  unfold longLong IsLongLong
  constructor
  · intro h
    have hlow := Int.le_bmod (x := n) (m := 2 ^ 64) (by decide)
    have hhigh := Int.bmod_lt (x := n) (m := 2 ^ 64) (by decide)
    omega
  · rintro ⟨hlow, hhigh⟩
    exact Int.bmod_eq_of_le_mul_two (by omega) (by omega)

theorem longLong_le {n : Int} (h : 0 ≤ n) : longLong n ≤ n := by
  unfold longLong
  rw [Int.bmod_def]
  split <;> omega

/-- The end of a `wait_for` has passed. It is a time of the steady clock, which counts nanoseconds;
where it does not fit it wraps into the past. -/
def TimedOut (until_ steady : Nat) : Prop := longLong (until_ * 1000000) ≤ steady * 1000000

instance (until_ steady : Nat) : Decidable (TimedOut until_ steady) :=
  inferInstanceAs (Decidable (_ ≤ _))

theorem TimedOut.of_le {until_ steady : Nat} (h : until_ ≤ steady) : TimedOut until_ steady := by
  have hle := longLong_le (n := until_ * 1000000) (by omega)
  unfold TimedOut
  omega

theorem TimedOut.le {until_ steady : Nat} (h : TimedOut until_ steady)
    (hfits : until_ * 1000000 < 2 ^ 63) : until_ ≤ steady := by
  rw [TimedOut, longLong_eq_iff.mpr ⟨by omega, by omega⟩] at h
  omega

/-- A `DelayedExecutable`; `func` numbers the functions in the order of their acceptance. -/
structure DelayedExecutable where
  func : Nat
  scheduledTime : Int
deriving DecidableEq, Repr

namespace DelayedExecutable

def create (func : Nat) (delay now : Int) : DelayedExecutable := ⟨func, longLong (now + delay)⟩

def delay (e : DelayedExecutable) (now : Int) : Int := longLong (e.scheduledTime - now)

/-- `DelayedExecutableCompare` puts the earliest element on top. -/
abbrev Queue := Topped DelayedExecutable.scheduledTime

end DelayedExecutable

open DelayedExecutable (Queue)

/-- Where the worker is in `run_loop`. A waiting worker knows whether it was notified. -/
inductive Worker where
  | testActive
  | testEmpty
  | enter
  | waiting (notified : Bool)
  | timedWaiting (executable : DelayedExecutable) (until_ : Nat) (notified : Bool)
  | calling (executable : DelayedExecutable)
  | exited
deriving DecidableEq, Repr

namespace Worker

/-- The effect of `notify_one` and of `notify_all`, as nobody else waits. -/
def notify : Worker → Worker
  | .waiting _ => .waiting true
  | .timedWaiting e t _ => .timedWaiting e t true
  | w => w

def inHand : Worker → List DelayedExecutable
  | .calling e => [e]
  | _ => []

/-- The element that was copied before the timed wait. -/
def awaited : Worker → Option DelayedExecutable
  | .timedWaiting e _ _ => some e
  | _ => none

end Worker

structure SchedulerState where
  queue : Queue := Topped.empty
  isActive : Bool := true
  worker : Worker := .testActive
  /-- The steady clock, in milliseconds. -/
  steady : Nat := 0
  /-- The `shutdown(false)` calls that are still to clear the queue. -/
  clears : Nat := 0
  /-- The calls that are still to notify. -/
  notifies : Nat := 0
  accepted : List DelayedExecutable := []
  /-- For each `pop`, the element copied from the top before and the one that `pop` removed. -/
  iterations : List (DelayedExecutable × Option DelayedExecutable) := []
  called : List DelayedExecutable := []
  cleared : List DelayedExecutable := []

namespace SchedulerState

inductive Label where
  | tick (elapsed : Nat)
  | execute (delay now₁ now₂ : Int)
  | shutdown (waitForComplete : Bool)
  | clear
  | notify
  | testActive
  | testEmpty
  | enter (now : Int)
  | wake (spurious : Bool) (now : Int)
  | wakeTimed (timeout spurious : Bool)
  | call
deriving DecidableEq, Repr

variable (Q : PriorityQueue DelayedExecutable.scheduledTime)

/-- `execute`, with the times that `top().delay()` and the constructor read. -/
def execute (s : SchedulerState) (delay now₁ now₂ : Int) : SchedulerState :=
  let delay := if delay < 0 then 0 else delay
  if s.isActive then
    let needNotify :=
      match s.queue.top? with
      | none => true
      | some top => decide (top.delay now₁ > delay)
    let executable := DelayedExecutable.create s.accepted.length delay now₂
    { s with
      queue := Q.push s.queue executable
      notifies := if needNotify then s.notifies + 1 else s.notifies
      accepted := s.accepted ++ [executable] }
  else s

/-- `shutdown` up to its lock, or up to its notification when it does not clear the queue. -/
def shutdown (s : SchedulerState) (waitForComplete : Bool) : SchedulerState :=
  if waitForComplete then { s with isActive := false, notifies := s.notifies + 1 }
  else { s with isActive := false, clears := s.clears + 1 }

def clear (s : SchedulerState) : SchedulerState :=
  { s with
    queue := Topped.empty
    clears := s.clears - 1
    notifies := s.notifies + 1
    cleared := s.cleared ++ s.queue.elems }

/-- `executable_queue.pop(); lock.unlock();` with `e` as the copied element. -/
def popAndUnlock (s : SchedulerState) (e : DelayedExecutable) : SchedulerState :=
  { s with
    queue := Q.pop s.queue
    worker := .calling e
    iterations := s.iterations ++ [(e, s.queue.top?)] }

/-- The loop body from `top()` on; `now` is what `delay()` reads. -/
def examine (s : SchedulerState) (e : DelayedExecutable) (now : Int) : SchedulerState :=
  if e.delay now > 0 then
    { s with worker := .timedWaiting e (s.steady + (e.delay now).toNat) false }
  else s.popAndUnlock Q e

def step (s : SchedulerState) : Label → Option SchedulerState
  | .tick elapsed => some { s with steady := s.steady + elapsed }
  | .execute delay now₁ now₂ => some (s.execute Q delay now₁ now₂)
  | .shutdown waitForComplete => some (s.shutdown waitForComplete)
  | .clear => if s.clears > 0 then some s.clear else none
  | .notify =>
      if s.notifies > 0 then
        some { s with worker := s.worker.notify, notifies := s.notifies - 1 }
      else none
  | .testActive =>
      if s.worker = .testActive then
        some { s with worker := if s.isActive then .enter else .testEmpty }
      else none
  | .testEmpty =>
      if s.worker = .testEmpty then
        some { s with worker := if s.queue.top?.isNone then .exited else .enter }
      else none
  | .enter now =>
      if s.worker = .enter then
        match s.queue.top? with
        | none => some { s with worker := .waiting false }
        | some e => some (s.examine Q e now)
      else none
  | .wake spurious now =>
      match s.worker with
      | .waiting notified =>
          if notified || spurious then
            match s.queue.top? with
            | none => some { s with worker := .testActive }
            | some e => some (s.examine Q e now)
          else none
      | _ => none
  | .wakeTimed timeout spurious =>
      match s.worker with
      | .timedWaiting e until_ notified =>
          if timeout then
            -- `pop()` follows at once, without another look at the top
            if TimedOut until_ s.steady then some (s.popAndUnlock Q e) else none
          else if notified || spurious then some { s with worker := .testActive }
          else none
      | _ => none
  | .call =>
      match s.worker with
      | .calling e => some { s with worker := .testActive, called := s.called ++ [e] }
      | _ => none

def machine : Machine SchedulerState Label where
  init := {}
  step := step Q

/-! ## What a step does -/

inductive Effect (s : SchedulerState) (l : Label) (s' : SchedulerState) : Prop where
  | quiet (queue : s'.queue = s.queue) (hand : s'.worker.inHand = s.worker.inHand)
      (accepted : s'.accepted = s.accepted) (iterations : s'.iterations = s.iterations)
      (called : s'.called = s.called) (cleared : s'.cleared = s.cleared)
  | accept (e : DelayedExecutable) (func : e.func = s.accepted.length)
      (queue : s'.queue = Q.push s.queue e) (hand : s'.worker.inHand = s.worker.inHand)
      (accepted : s'.accepted = s.accepted ++ [e]) (iterations : s'.iterations = s.iterations)
      (called : s'.called = s.called) (cleared : s'.cleared = s.cleared)
  | clear (eq : s' = s.clear)
  | pop (e : DelayedExecutable) (hand : s.worker.inHand = []) (eq : s' = s.popAndUnlock Q e)
      (top : s.queue.top? = some e ∨
        ∃ t n sp, s.worker = .timedWaiting e t n ∧ l = .wakeTimed true sp)
  | call (e : DelayedExecutable) (hand : s.worker = .calling e)
      (eq : s' = { s with worker := .testActive, called := s.called ++ [e] })

variable {Q}

theorem Worker.notify_inHand (w : Worker) : w.notify.inHand = w.inHand := by
  cases w <;> rfl

/-- A step that changes at most the flag, the clock, the counters and an idle worker. -/
theorem Effect.idle {s s' : SchedulerState} {l : Label} (hs : s.worker.inHand = [])
    (hs' : s'.worker.inHand = []) (queue : s'.queue = s.queue)
    (accepted : s'.accepted = s.accepted) (iterations : s'.iterations = s.iterations)
    (called : s'.called = s.called) (cleared : s'.cleared = s.cleared) : Effect Q s l s' :=
  .quiet queue (hs'.trans hs.symm) accepted iterations called cleared

theorem examine_effect {s : SchedulerState} {l : Label} {e : DelayedExecutable} (now : Int)
    (hand : s.worker.inHand = []) (htop : s.queue.top? = some e) :
    Effect Q s l (s.examine Q e now) := by
  unfold examine
  split
  case isTrue => exact .idle hand rfl rfl rfl rfl rfl rfl
  case isFalse => exact .pop e hand rfl (Or.inl htop)

theorem execute_effect (s : SchedulerState) (l : Label) (delay now₁ now₂ : Int) :
    Effect Q s l (s.execute Q delay now₁ now₂) := by
  cases hactive : s.isActive with
  | true =>
      rw [execute, if_pos hactive]
      exact .accept _ rfl rfl rfl rfl rfl rfl rfl
  | false =>
      rw [execute, if_neg (by simp [hactive])]
      exact .quiet rfl rfl rfl rfl rfl rfl

theorem step_effect {s s' : SchedulerState} {l : Label} (h : s.step Q l = some s') :
    Effect Q s l s' := by
  cases l with
  | tick elapsed =>
      cases h
      exact .quiet rfl rfl rfl rfl rfl rfl
  | execute delay now₁ now₂ =>
      cases h
      exact execute_effect s _ delay now₁ now₂
  | shutdown waitForComplete =>
      cases h
      cases waitForComplete <;> exact .quiet rfl rfl rfl rfl rfl rfl
  | clear =>
      simp only [step, Option.ite_none_right_eq_some, Option.some.injEq] at h
      exact .clear h.2.symm
  | notify =>
      simp only [step, Option.ite_none_right_eq_some, Option.some.injEq] at h
      obtain ⟨-, rfl⟩ := h
      exact .quiet rfl (Worker.notify_inHand s.worker) rfl rfl rfl rfl
  | testActive =>
      simp only [step, Option.ite_none_right_eq_some, Option.some.injEq] at h
      obtain ⟨hworker, rfl⟩ := h
      refine .idle (by rw [hworker]; rfl) ?_ rfl rfl rfl rfl rfl
      cases s.isActive <;> rfl
  | testEmpty =>
      simp only [step, Option.ite_none_right_eq_some, Option.some.injEq] at h
      obtain ⟨hworker, rfl⟩ := h
      refine .idle (by rw [hworker]; rfl) ?_ rfl rfl rfl rfl rfl
      cases s.queue.top?.isNone <;> rfl
  | enter now =>
      simp only [step, Option.ite_none_right_eq_some] at h
      obtain ⟨hworker, h⟩ := h
      have hand : s.worker.inHand = [] := by rw [hworker]; rfl
      split at h
      case h_1 =>
        cases h
        exact .idle hand rfl rfl rfl rfl rfl rfl
      case h_2 e htop =>
        cases h
        exact examine_effect now hand htop
  | wake spurious now =>
      simp only [step] at h
      split at h
      case h_1 notified hworker =>
        have hand : s.worker.inHand = [] := by rw [hworker]; rfl
        rw [Option.ite_none_right_eq_some] at h
        obtain ⟨-, h⟩ := h
        split at h
        case h_1 =>
          cases h
          exact .idle hand rfl rfl rfl rfl rfl rfl
        case h_2 e htop =>
          cases h
          exact examine_effect now hand htop
      case h_2 => cases h
  | wakeTimed timeout spurious =>
      simp only [step] at h
      split at h
      case h_1 e t notified hworker =>
        have hand : s.worker.inHand = [] := by rw [hworker]; rfl
        cases timeout with
        | true =>
            simp only [if_true, Option.ite_none_right_eq_some, Option.some.injEq] at h
            exact .pop e hand h.2.symm (Or.inr ⟨t, notified, spurious, hworker, rfl⟩)
        | false =>
            simp only [Bool.false_eq_true, if_false, Option.ite_none_right_eq_some,
              Option.some.injEq] at h
            obtain ⟨-, rfl⟩ := h
            exact .idle hand rfl rfl rfl rfl rfl rfl
      case h_2 => cases h
  | call =>
      simp only [step] at h
      split at h
      case h_1 e hworker =>
        cases h
        exact .call e hworker rfl
      case h_2 => cases h

/-! ## The account of the functions -/

/-- What every run keeps: the accepted functions are numbered, and each call is an iteration's. -/
structure Numbered (s : SchedulerState) : Prop where
  numbers : s.accepted.map (·.func) = List.range s.accepted.length
  calls : s.called ++ s.worker.inHand = s.iterations.map Prod.fst

theorem numbered_step {s s' : SchedulerState} {l : Label} (h : Numbered s)
    (hstep : s.step Q l = some s') : Numbered s' := by
  cases step_effect hstep with
  | quiet queue hand accepted iterations called cleared =>
      exact ⟨by rw [accepted]; exact h.numbers, by rw [called, hand, iterations]; exact h.calls⟩
  | accept e func queue hand accepted iterations called cleared =>
      refine ⟨?_, by rw [called, hand, iterations]; exact h.calls⟩
      rw [accepted, List.map_append, h.numbers, List.length_append, List.map_singleton, func]
      exact List.range_succ.symm
  | clear eq => exact eq ▸ ⟨h.numbers, h.calls⟩
  | pop e hand eq top =>
      subst eq
      refine ⟨h.numbers, ?_⟩
      have hcalls := h.calls
      rw [hand, List.append_nil] at hcalls
      change s.called ++ [e] = (s.iterations ++ [(e, s.queue.top?)]).map Prod.fst
      rw [hcalls, List.map_append]
      rfl
  | call e hand eq =>
      subst eq
      refine ⟨h.numbers, ?_⟩
      have hcalls := h.calls
      rw [hand] at hcalls
      exact (List.append_nil _).trans hcalls

theorem numbered_runs {ls : List Label} {s : SchedulerState} (hrun : (machine Q).Runs ls s) :
    Numbered s :=
  hrun.invariant (I := Numbered) ⟨rfl, rfl⟩ fun _ _ _ h hstep => numbered_step h hstep

theorem Numbered.accepted_nodup {s : SchedulerState} (h : Numbered s) : s.accepted.Nodup := by
  refine List.Nodup.of_map (·.func) ?_
  rw [h.numbers]
  exact List.nodup_range

/-- Each call removed the element it calls. -/
def Exact (s : SchedulerState) : Prop := ∀ it ∈ s.iterations, it.2 = some it.1

/-- Every accepted function is queued, in hand, called or cleared. -/
def Accounted (s : SchedulerState) : Prop :=
  (s.queue.elems ++ s.worker.inHand ++ s.called ++ s.cleared).Perm s.accepted

def Label.timesOut : Label → Bool
  | .wakeTimed true _ => true
  | _ => false

/-- A timeout finds the copied element still on top when it has the lock again. -/
def TopUnmoved (s : SchedulerState) (l : Label) : Prop :=
  l.timesOut = true → ∀ e ∈ s.worker.awaited, s.queue.top? = some e

instance (s : SchedulerState) (l : Label) : Decidable (TopUnmoved s l) :=
  inferInstanceAs (Decidable (l.timesOut = true → ∀ e ∈ s.worker.awaited, s.queue.top? = some e))

theorem iterations_step {s s' : SchedulerState} {l : Label} (hstep : s.step Q l = some s') :
    s.iterations ⊆ s'.iterations := by
  cases step_effect hstep with
  | quiet _ _ _ iterations => exact iterations ▸ List.Subset.refl _
  | accept _ _ _ _ _ iterations => exact iterations ▸ List.Subset.refl _
  | clear eq => exact eq ▸ List.Subset.refl _
  | pop e _ eq => exact eq ▸ List.subset_append_left _ _
  | call e _ eq => exact eq ▸ List.Subset.refl _

/-- An exact step found its element on top. -/
theorem topUnmoved_of_exact {s s' : SchedulerState} {l : Label} (hexact : Exact s')
    (hstep : s.step Q l = some s') : TopUnmoved s l := by
  intro hl e he
  cases l with
  | wakeTimed timeout spurious =>
      obtain rfl : timeout = true := by cases timeout <;> simp_all [Label.timesOut]
      cases hworker : s.worker with
      | timedWaiting x t n =>
          obtain rfl : x = e := by simpa [Worker.awaited, hworker] using he
          simp only [step, hworker, if_true, Option.ite_none_right_eq_some,
            Option.some.injEq] at hstep
          obtain ⟨-, rfl⟩ := hstep
          exact hexact (x, s.queue.top?) (List.mem_append_right _ (List.mem_singleton_self _))
      | _ => simp [Worker.awaited, hworker] at he
  | _ => simp [Label.timesOut] at hl

/-- Under the condition `pop` removes what was copied. -/
theorem top_of_pop {s : SchedulerState} {l : Label} {e : DelayedExecutable}
    (htop : TopUnmoved s l) (h : s.queue.top? = some e ∨
      ∃ t n sp, s.worker = .timedWaiting e t n ∧ l = .wakeTimed true sp) :
    s.queue.top? = some e := by
  rcases h with h | ⟨t, n, sp, hworker, rfl⟩
  · exact h
  · exact htop rfl e (by rw [hworker]; rfl)

theorem exact_step {s s' : SchedulerState} {l : Label} (h : Exact s) (htop : TopUnmoved s l)
    (hstep : s.step Q l = some s') : Exact s' := by
  intro it hit
  cases step_effect hstep with
  | quiet _ _ _ iterations => exact h it (iterations ▸ hit)
  | accept _ _ _ _ _ iterations => exact h it (iterations ▸ hit)
  | clear eq =>
      subst eq
      exact h it hit
  | pop e hand eq top =>
      subst eq
      rcases List.mem_append.mp hit with hold | hnew
      · exact h it hold
      · obtain rfl := List.mem_singleton.mp hnew
        exact top_of_pop htop top
  | call e _ eq =>
      subst eq
      exact h it hit

theorem accounted_step {s s' : SchedulerState} {l : Label} (h : Accounted s)
    (htop : TopUnmoved s l) (hstep : s.step Q l = some s') : Accounted s' := by
  unfold Accounted at h ⊢
  cases step_effect hstep with
  | quiet queue hand accepted iterations called cleared =>
      rw [queue, hand, accepted, called, cleared]
      exact h
  | accept e func queue hand accepted iterations called cleared =>
      rw [hand, accepted, called, cleared, queue]
      have hpush := (((Q.push_perm s.queue e).append_right s.worker.inHand).append_right
        s.called).append_right s.cleared
      exact (hpush.trans (h.cons e)).trans (List.perm_append_singleton e s.accepted).symm
  | clear eq =>
      subst eq
      refine List.Perm.trans ?_ h
      change ([] ++ s.worker.inHand ++ s.called ++ (s.cleared ++ s.queue.elems)).Perm _
      rw [List.nil_append, ← List.append_assoc, List.append_assoc s.queue.elems,
        List.append_assoc s.queue.elems]
      exact List.perm_append_comm
  | pop e hand eq top =>
      subst eq
      refine List.Perm.trans ?_ h
      rw [hand, List.append_nil]
      refine (List.Perm.append_right _ ?_).append_right _
      exact (List.perm_append_singleton e _).trans (Q.pop_perm s.queue e (top_of_pop htop top))
  | call e hand eq =>
      subst eq
      refine List.Perm.trans ?_ h
      rw [hand]
      change (s.queue.elems ++ [] ++ (s.called ++ [e]) ++ s.cleared).Perm
        (s.queue.elems ++ [e] ++ s.called ++ s.cleared)
      rw [List.append_nil, List.append_assoc s.queue.elems [e]]
      exact ((List.perm_append_singleton e s.called).append_left _).append_right _

structure RunsExactly (s : SchedulerState) : Prop where
  calls : s.called ++ s.worker.inHand = s.iterations.map Prod.fst
  exact : Exact s
  never_empty : ∀ it ∈ s.iterations, it.2 ≠ none
  once : (s.called ++ s.worker.inHand).Nodup
  accounted : Accounted s
  cleared_uncalled : ∀ e ∈ s.cleared, e ∉ s.called ++ s.worker.inHand

theorem runsExactly_of_accounted {s : SchedulerState} (hnum : Numbered s) (hexact : Exact s)
    (hacc : Accounted s) : RunsExactly s := by
  have hnodup : (s.queue.elems ++ s.worker.inHand ++ s.called ++ s.cleared).Nodup :=
    hacc.nodup_iff.mpr hnum.accepted_nodup
  rw [List.append_assoc s.queue.elems] at hnodup
  refine ⟨hnum.calls, hexact, ?_, ?_, hacc, ?_⟩
  · intro it hit hnone
    simp [hexact it hit] at hnone
  · exact List.perm_append_comm.nodup_iff.mp hnodup.of_append_left.of_append_right
  · intro e he hmem
    have hcalled : e ∈ s.worker.inHand ++ s.called := List.perm_append_comm.mem_iff.mp hmem
    exact (List.nodup_append.mp hnodup).2.2 e (List.mem_append_right _ hcalled) e he rfl

/-- **The scheduler runs what it removes** as long as every timeout of the timed wait finds the
copied element still on top when it has the lock again, and only then. -/
theorem runsExactly_iff (Q : PriorityQueue DelayedExecutable.scheduledTime) {ls : List Label}
    {s : SchedulerState} (hrun : (machine Q).Runs ls s) :
    RunsExactly s ↔ (machine Q).Meets TopUnmoved (machine Q).init ls := by
  constructor
  · intro h
    refine Machine.Runs.induction
      (P := fun ls s => Exact s → (machine Q).Meets TopUnmoved (machine Q).init ls)
      (fun _ => trivial) ?_ hrun h.exact
    intro es a l a' hes ih hstep hexact
    -- no iteration is forgotten, so the state before was exact as well
    have hpre : Exact a := fun it hit => hexact it (iterations_step hstep hit)
    exact (Machine.meets_snoc hes).mpr ⟨ih hpre, topUnmoved_of_exact hexact hstep⟩
  · intro hmeets
    have hinit : Exact (machine Q).init ∧ Accounted (machine Q).init :=
      ⟨fun it hit => absurd hit List.not_mem_nil, List.Perm.refl []⟩
    have hinv : Exact s ∧ Accounted s := by
      refine hrun.guarded (I := fun s => Exact s ∧ Accounted s) hinit ?_ hmeets
      rintro a l a' ⟨hexact, hacc⟩ htop hstep
      exact ⟨exact_step hexact htop hstep, accounted_step hacc htop hstep⟩
    exact runsExactly_of_accounted (numbered_runs hrun) hinv.1 hinv.2

/-- A function with delay 10 times out alone, and one with delay 0 follows it. -/
theorem runsExactly_iff_run :
    ∃ s : SchedulerState,
      (machine (.linear DelayedExecutable.scheduledTime)).Runs
        [.execute 10 0 0, .notify, .testActive, .enter 0, .tick 10, .wakeTimed true false, .call,
          .execute 0 11 11, .testActive, .enter 12, .call] s ∧
      RunsExactly s ∧ s.called = [⟨0, 10⟩, ⟨1, 11⟩] :=
  have hrun : (machine (.linear DelayedExecutable.scheduledTime)).Runs
      [.execute 10 0 0, .notify, .testActive, .enter 0, .tick 10, .wakeTimed true false, .call,
        .execute 0 11 11, .testActive, .enter 12, .call] _ := rfl
  ⟨_, hrun, (runsExactly_iff _ hrun).mpr (by decide), rfl⟩

/-- While the worker waits for the function due at 10, one due at 9 is pushed. The wait times out
at 10 all the same: `pop` removes the new element, and the old one is called twice. -/
theorem not_runsExactly :
    ∃ s : SchedulerState,
      (machine (.linear DelayedExecutable.scheduledTime)).Runs
        [.execute 10 0 0, .testActive, .enter 0, .tick 9, .execute 0 9 9, .tick 1,
          .wakeTimed true false, .call, .testActive, .enter 10, .call] s ∧
      s.called = [⟨0, 10⟩, ⟨0, 10⟩] ∧ s.queue.elems = [] ∧ ¬ RunsExactly s :=
  ⟨_, rfl, rfl, rfl, fun h => absurd h.once (by decide)⟩

end SchedulerState

end Npp.Task
