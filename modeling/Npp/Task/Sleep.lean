import Mathlib.Algebra.Ring.Int.Defs
import Npp.Task.Deadlines

/-!
# Sleeping coroutines

`co_await` on a duration suspends the coroutine in a `SleepAwaiter`, which gives the one scheduler
a function that resumes it. The scheduler's thread calls the function; it hands the resumption to
the executor of the coroutine, and that runs it at some later time. `scheduled_time` is a time of
the system clock, which is `base` ahead of the steady clock, and never by more than `drift` beyond
that: the drift has what is lost to rounding and what the clock is set by.
-/

namespace Npp.Task

open Npp.Foundation

/-- A coroutine, with the durations that it has slept for and the one that it sleeps for now. -/
structure Sleeper where
  begun : Nat
  slept : List Int := []
  asleep : Option Int := none
deriving DecidableEq, Repr

namespace Sleeper

/-- What `execute` makes of a negative delay. -/
def total (c : Sleeper) : Int := (c.slept.map fun d => max 0 d).sum

end Sleeper

/-- The coroutines with their scheduler. `closures` says which coroutine a function of the
scheduler resumes, `executors` has the resumptions that the executors are still to run. -/
structure SleepState where
  core : SchedulerState := {}
  closures : List Nat := []
  sleepers : List Sleeper := []
  executors : List Nat := []
  /-- A coroutine was resumed that was not suspended. -/
  misfired : Bool := false

namespace SleepState

inductive Label where
  /-- The body of a coroutine begins. -/
  | start
  /-- `co_await` on a duration, up to the suspension. -/
  | sleep (i : Nat) (duration now₁ now₂ : Int)
  | scheduler (l : SchedulerState.Label)
  /-- The scheduler calls the function, which calls `resume()`. -/
  | call
  /-- An executor runs one of its resumptions. -/
  | resume (k : Nat)
deriving DecidableEq, Repr

variable (Q : PriorityQueue DelayedExecutable.scheduledTime)

def step (s : SleepState) : Label → Option SleepState
  | .start => some { s with sleepers := s.sleepers ++ [{ begun := s.core.steady }] }
  | .sleep i duration now₁ now₂ =>
      match s.sleepers[i]? with
      | some ⟨begun, slept, none⟩ =>
          some { s with
            core := s.core.execute Q duration now₁ now₂
            closures := if s.core.isActive then s.closures ++ [i] else s.closures
            sleepers := s.sleepers.set i ⟨begun, slept, some duration⟩ }
      | _ => none
  -- the steps above and below have these two
  | .scheduler (.execute _ _ _) => none
  | .scheduler .call => none
  | .scheduler l => (s.core.step Q l).map ({ s with core := · })
  | .call =>
      match s.core.worker with
      | .calling e =>
          (s.core.step Q .call).map ({ s with
            core := ·
            executors := s.executors ++ (s.closures[e.func]?).toList })
      | _ => none
  | .resume k =>
      match s.executors[k]? with
      | none => none
      | some i =>
          match s.sleepers[i]? with
          | some ⟨begun, slept, some duration⟩ =>
              some { s with
                executors := s.executors.eraseIdx k
                sleepers := s.sleepers.set i ⟨begun, slept ++ [duration], none⟩ }
          | _ => some { s with executors := s.executors.eraseIdx k, misfired := true }

def machine : Machine SleepState Label where
  init := {}
  step := step Q

/-- A coroutine has taken the time that it slept for, up to the drift of each sleep. -/
def Punctual (drift : Nat) (s : SleepState) : Prop :=
  ∀ c ∈ s.sleepers, c.begun + c.total ≤ s.core.steady + drift * c.slept.length

structure Shows (base : Int) (drift steady : Nat) (now : Int) : Prop where
  ahead : base + steady ≤ now
  close : now ≤ base + steady + drift
  nonneg : 0 ≤ now
  bounded : now < 2 ^ 63

/-- The step reads such times, and the sum with a delay fits into `scheduled_time` and, as a time
of the steady clock, into the nanoseconds of `wait_for`. -/
def Clocked (base : Int) (drift : Nat) (s : SleepState) : Label → Prop
  | .sleep _ duration _ now₂ =>
      Shows base drift s.core.steady now₂ ∧ now₂ + max 0 duration < 2 ^ 63 ∧
        (now₂ + max 0 duration - base) * 1000000 < 2 ^ 63
  | .scheduler (.enter now) | .scheduler (.wake _ now) => Shows base drift s.core.steady now
  | _ => True

/-- A timeout finds the copied element still on top when it has the lock again. -/
def TopUnmoved (s : SleepState) : Label → Prop
  | .scheduler l => s.core.TopUnmoved l
  | _ => True

instance (base : Int) (drift steady : Nat) (now : Int) :
    Decidable (Shows base drift steady now) :=
  decidable_of_iff (base + steady ≤ now ∧ now ≤ base + steady + drift ∧ 0 ≤ now ∧ now < 2 ^ 63)
    ⟨fun ⟨h₁, h₂, h₃, h₄⟩ => ⟨h₁, h₂, h₃, h₄⟩, fun h => ⟨h.ahead, h.close, h.nonneg, h.bounded⟩⟩

instance (base : Int) (drift : Nat) (s : SleepState) : ∀ l, Decidable (Clocked base drift s l)
  | .sleep _ duration _ now₂ =>
      inferInstanceAs (Decidable (Shows base drift s.core.steady now₂ ∧
        now₂ + max 0 duration < 2 ^ 63 ∧ (now₂ + max 0 duration - base) * 1000000 < 2 ^ 63))
  | .scheduler (.enter now) | .scheduler (.wake _ now) =>
      inferInstanceAs (Decidable (Shows base drift s.core.steady now))
  | .scheduler (.tick _) | .scheduler (.execute ..) | .scheduler (.shutdown _)
  | .scheduler .clear | .scheduler .notify | .scheduler .testActive | .scheduler .testEmpty
  | .scheduler (.wakeTimed ..) | .scheduler .call | .start | .call | .resume _ => .isTrue trivial

instance (s : SleepState) : ∀ l, Decidable (TopUnmoved s l)
  | .scheduler l => inferInstanceAs (Decidable (s.core.TopUnmoved l))
  | .start | .sleep .. | .call | .resume _ => .isTrue trivial

end SleepState

/-! ## The scheduler calls no function before its time -/

namespace SchedulerState

variable {Q : PriorityQueue DelayedExecutable.scheduledTime} {base : Int} {drift : Nat}
  {c c' : SchedulerState} {l : Label} {e : DelayedExecutable}

/-- The scheduled times are sums that fitted, and the worker waits long enough. -/
structure Due (base : Int) (drift : Nat) (c : SchedulerState) : Prop where
  fits : ∀ e ∈ c.queue.elems, (0 ≤ e.scheduledTime ∧ e.scheduledTime < 2 ^ 63) ∧
    (e.scheduledTime - base) * 1000000 < 2 ^ 63
  timed : ∀ e until_ notified, c.worker = .timedWaiting e until_ notified →
    e.scheduledTime ≤ base + until_ + drift ∧ until_ * 1000000 < 2 ^ 63
  calling : ∀ e, c.worker = .calling e → e.scheduledTime ≤ base + c.steady + drift

/-- What a step other than `execute` and `call` does to the functions that are still to be
called. -/
inductive Moves (Q : PriorityQueue DelayedExecutable.scheduledTime) (c c' : SchedulerState) :
    Prop where
  | quiet (queue : c'.queue = c.queue) (hand : c'.worker.inHand = c.worker.inHand)
      (accepted : c'.accepted = c.accepted) (steady : c.steady ≤ c'.steady)
  | clear (eq : c' = c.clear)
  | pop (e : DelayedExecutable) (hand : c.worker.inHand = []) (top : c.queue.top? = some e)
      (eq : c' = c.popAndUnlock Q e)

theorem examine_moves (now : Int) (hand : c.worker.inHand = []) (top : c.queue.top? = some e) :
    Moves Q c (c.examine Q e now) := by
  unfold examine
  split
  case isTrue => exact .quiet rfl hand.symm rfl (Nat.le_refl _)
  case isFalse => exact .pop e hand top rfl

theorem transition_of_step (hexecute : ∀ delay now₁ now₂, l ≠ .execute delay now₁ now₂)
    (h : c.step Q l = some c') :
    SchedulerSystem.Transition Q ⟨c, none⟩ (.other l) ⟨c', none⟩ := by
  apply SchedulerSystem.transition_of_step
  exact (SchedulerSystem.step_other hexecute).mpr ⟨fun _ => rfl, c', h, rfl⟩

theorem moves_of_step (hexecute : ∀ delay now₁ now₂, l ≠ .execute delay now₁ now₂)
    (hcall : l ≠ .call) (htop : TopUnmoved c l) (h : c.step Q l = some c') : Moves Q c c' := by
  cases transition_of_step hexecute h with
  | tick elapsed => exact .quiet rfl rfl rfl (Nat.le_add_right _ _)
  | shutdown waitForComplete => cases waitForComplete <;> exact .quiet rfl rfl rfl (Nat.le_refl _)
  | clear free clears => exact .clear rfl
  | notify notifies => exact .quiet rfl (Worker.notify_inHand _) rfl (Nat.le_refl _)
  | goOn worker active =>
      simp only at worker
      exact .quiet rfl (by rw [worker]; rfl) rfl (Nat.le_refl _)
  | goLook worker active =>
      simp only at worker
      exact .quiet rfl (by rw [worker]; rfl) rfl (Nat.le_refl _)
  | exit worker queue =>
      simp only at worker
      exact .quiet rfl (by rw [worker]; rfl) rfl (Nat.le_refl _)
  | remain worker queue =>
      simp only at worker
      exact .quiet rfl (by rw [worker]; rfl) rfl (Nat.le_refl _)
  | wait now worker free queue =>
      simp only at worker
      exact .quiet rfl (by rw [worker]; rfl) rfl (Nat.le_refl _)
  | examine now e worker free queue =>
      simp only at worker
      exact examine_moves now (by rw [worker]; rfl) queue
  | wakeEmpty notified spurious now worker woken free queue =>
      simp only at worker
      exact .quiet rfl (by rw [worker]; rfl) rfl (Nat.le_refl _)
  | wakeExamine notified spurious now e worker woken free queue =>
      simp only at worker
      exact examine_moves now (by rw [worker]; rfl) queue
  | timeout spurious e until_ notified worker free time =>
      simp only at worker
      exact .pop e (by rw [worker]; rfl) (htop rfl e (by rw [worker]; rfl)) rfl
  | rewind spurious e until_ notified worker free woken =>
      simp only at worker
      exact .quiet rfl (by rw [worker]; rfl) rfl (Nat.le_refl _)
  | call e worker => exact absurd rfl hcall

/-- A `long long` has the difference of two times. -/
theorem delay_eq {now : Int} (hnow : 0 ≤ now ∧ now < 2 ^ 63)
    (he : 0 ≤ e.scheduledTime ∧ e.scheduledTime < 2 ^ 63) :
    e.delay now = e.scheduledTime - now := by
  rw [DelayedExecutable.delay, longLong_eq_iff]
  constructor <;> omega

theorem Due.examine (h : Due base drift c) {now : Int}
    (hnow : SleepState.Shows base drift c.steady now) (htop : c.queue.top? = some e) :
    Due base drift (c.examine Q e now) := by
  obtain ⟨hfits, hnanos⟩ := h.fits e (Topped.mem_of_top? htop)
  have hdelay : e.delay now = e.scheduledTime - now := delay_eq ⟨hnow.nonneg, hnow.bounded⟩ hfits
  have hclose := hnow.close
  have hahead := hnow.ahead
  unfold SchedulerState.examine
  split
  case isTrue hpos =>
    refine ⟨h.fits, ?_, by rintro _ ⟨⟩⟩
    rintro e' until_ notified ⟨⟩
    push_cast
    omega
  case isFalse hpos =>
    refine ⟨?_, by rintro _ _ _ ⟨⟩, ?_⟩
    · intro e' he'
      exact h.fits e' (Q.mem_of_mem_pop (htop ▸ Option.some_ne_none e) he')
    · rintro e' ⟨⟩
      show e.scheduledTime ≤ base + c.steady + drift
      omega

/-- No function is called before its time, whatever is pushed in the meantime. -/
theorem due_step (h : Due base drift c)
    (hnow : ∀ now, l = .enter now ∨ (∃ spurious, l = .wake spurious now) →
      SleepState.Shows base drift c.steady now)
    (hexecute : ∀ delay now₁ now₂, l ≠ .execute delay now₁ now₂) (htop : TopUnmoved c l)
    (hstep : c.step Q l = some c') : Due base drift c' := by
  cases transition_of_step hexecute hstep with
  | tick elapsed =>
      refine ⟨h.fits, h.timed, ?_⟩
      intro e hworker
      have := h.calling e hworker
      show e.scheduledTime ≤ base + ((c.steady + elapsed : Nat) : Int) + drift
      omega
  | shutdown waitForComplete =>
      cases waitForComplete <;> exact ⟨h.fits, h.timed, h.calling⟩
  | clear free clears =>
      exact ⟨fun _ he => absurd he List.not_mem_nil, h.timed, h.calling⟩
  | notify notifies =>
      refine ⟨h.fits, ?_, ?_⟩
      · intro e until_ notified hworker
        obtain ⟨notified', hw⟩ := Worker.notify_timed hworker
        exact h.timed e until_ notified' hw
      · intro e hworker
        apply h.calling e
        change c.worker.notify = .calling e at hworker
        cases hw : c.worker <;> rw [hw] at hworker <;> cases hworker
        rfl
  | goOn worker active => exact ⟨h.fits, by rintro _ _ _ ⟨⟩, by rintro _ ⟨⟩⟩
  | goLook worker active => exact ⟨h.fits, by rintro _ _ _ ⟨⟩, by rintro _ ⟨⟩⟩
  | exit worker queue => exact ⟨h.fits, by rintro _ _ _ ⟨⟩, by rintro _ ⟨⟩⟩
  | remain worker queue => exact ⟨h.fits, by rintro _ _ _ ⟨⟩, by rintro _ ⟨⟩⟩
  | wait now worker free queue => exact ⟨h.fits, by rintro _ _ _ ⟨⟩, by rintro _ ⟨⟩⟩
  | examine now e worker free queue => exact h.examine (hnow now (Or.inl rfl)) queue
  | wakeEmpty notified spurious now worker woken free queue =>
      exact ⟨h.fits, by rintro _ _ _ ⟨⟩, by rintro _ ⟨⟩⟩
  | wakeExamine notified spurious now e worker woken free queue =>
      exact h.examine (hnow now (Or.inr ⟨spurious, rfl⟩)) queue
  | timeout spurious e until_ notified worker free time =>
      refine ⟨?_, by rintro _ _ _ ⟨⟩, ?_⟩
      · intro e' he'
        have hqueue := htop rfl e (by rw [show c.worker = _ from worker]; rfl)
        exact h.fits e' (Q.mem_of_mem_pop (hqueue ▸ Option.some_ne_none e) he')
      · rintro e' ⟨⟩
        obtain ⟨hsched, hnanos⟩ := h.timed e until_ notified worker
        have hpassed : until_ ≤ c.steady := TimedOut.le time hnanos
        show e.scheduledTime ≤ base + c.steady + drift
        omega
  | rewind spurious e until_ notified worker free woken =>
      exact ⟨h.fits, by rintro _ _ _ ⟨⟩, by rintro _ ⟨⟩⟩
  | call e worker => exact ⟨h.fits, by rintro _ _ _ ⟨⟩, by rintro _ ⟨⟩⟩

end SchedulerState

/-! ## The coroutines -/

namespace SleepState

variable {Q : PriorityQueue DelayedExecutable.scheduledTime} {base : Int} {drift : Nat}
  {s s' : SleepState} {l : Label}

def pending (s : SleepState) : List DelayedExecutable :=
  s.core.queue.elems ++ s.core.worker.inHand

/-- The coroutines that are still to be resumed, by the scheduler or by an executor. -/
def outstanding (s : SleepState) : List (Option Nat) :=
  s.pending.map (s.closures[·.func]?) ++ s.executors.map some

/-- The coroutine sleeps, and its time is up when `clock`, less the drift so far, has this value. -/
def Awaits (drift : Nat) (s : SleepState) (i : Nat) (clock : Int) : Prop :=
  ∃ c d, s.sleepers[i]? = some c ∧ c.asleep = some d ∧
    c.begun + c.total + max 0 d ≤ clock + drift * c.slept.length

/-- What the steps keep: everyone who sleeps is resumed by one function at most, and it has the
time in it. -/
structure Sound (base : Int) (drift : Nat) (s : SleepState) : Prop where
  closures : s.closures.length = s.core.accepted.length
  promised : ∀ e ∈ s.pending, ∃ i, s.closures[e.func]? = some i ∧
    s.Awaits drift i (e.scheduledTime - base)
  released : ∀ i ∈ s.executors, s.Awaits drift i (s.core.steady + drift)
  once : s.outstanding.Nodup
  punctual : s.Punctual drift
  due : s.core.Due base drift
  unharmed : s.misfired = false

theorem sound_init (base : Int) (drift : Nat) : Sound base drift (machine Q).init := by
  refine ⟨rfl, ?_, ?_, List.nodup_nil, ?_, ⟨?_, by rintro _ _ _ ⟨⟩, by rintro _ ⟨⟩⟩, rfl⟩
  · intro e he
    exact absurd he List.not_mem_nil
  · intro i hi
    exact absurd hi List.not_mem_nil
  · intro c hc
    exact absurd hc List.not_mem_nil
  · intro e he
    exact absurd he List.not_mem_nil

theorem Awaits.mono {i : Nat} {clock clock' : Int} (h : s.Awaits drift i clock)
    (hle : clock ≤ clock') (hsleepers : s'.sleepers[i]? = s.sleepers[i]?) :
    s'.Awaits drift i clock' := by
  obtain ⟨c, d, hc, hd, htime⟩ := h
  exact ⟨c, d, hsleepers.trans hc, hd, by omega⟩

theorem Awaits.asleep {i : Nat} {clock : Int} (h : s.Awaits drift i clock) {c : Sleeper}
    (hc : s.sleepers[i]? = some c) : c.asleep ≠ none := by
  obtain ⟨c', d, hc', hd, -⟩ := h
  obtain rfl : c = c' := Option.some.inj (hc.symm.trans hc')
  rw [hd]
  exact Option.some_ne_none d

theorem Awaits.lt {i : Nat} {clock : Int} (h : s.Awaits drift i clock) :
    i < s.sleepers.length := by
  obtain ⟨c, d, hc, -, -⟩ := h
  exact (List.getElem?_eq_some_iff.mp hc).1

/-- Whoever is still to be resumed sleeps. -/
theorem Sound.outstanding_asleep (h : Sound base drift s) {i : Nat}
    (hi : some i ∈ s.outstanding) : ∃ clock, s.Awaits drift i clock := by
  rcases List.mem_append.mp hi with hi | hi
  · obtain ⟨e, he, hfunc⟩ := List.mem_map.mp hi
    obtain ⟨j, hj, hawaits⟩ := h.promised e he
    obtain rfl : j = i := Option.some.inj (hj.symm.trans hfunc)
    exact ⟨_, hawaits⟩
  · obtain ⟨j, hj, hji⟩ := List.mem_map.mp hi
    obtain rfl : j = i := Option.some.inj hji
    exact ⟨_, h.released j hj⟩

theorem Sound.start (h : Sound base drift s) :
    Sound base drift { s with sleepers := s.sleepers ++ [{ begun := s.core.steady }] } := by
  have hsame : ∀ i clock, s.Awaits drift i clock →
      Awaits drift { s with sleepers := s.sleepers ++ [{ begun := s.core.steady }] } i clock :=
    fun i clock hi => hi.mono (Int.le_refl _) (List.getElem?_append_left hi.lt)
  refine ⟨h.closures, ?_, ?_, h.once, ?_, h.due, h.unharmed⟩
  · intro e he
    obtain ⟨i, hi, hawaits⟩ := h.promised e he
    exact ⟨i, hi, hsame i _ hawaits⟩
  · intro i hi
    exact hsame i _ (h.released i hi)
  · intro c hc
    rcases List.mem_append.mp hc with hc | hc
    · exact h.punctual c hc
    · obtain rfl := List.mem_singleton.mp hc
      simp [Sleeper.total]

theorem Awaits.set {i j : Nat} {clock clock' : Int} {c : Sleeper} (h : s.Awaits drift j clock)
    (hle : clock ≤ clock') (hne : j ≠ i) (hsleepers : s'.sleepers = s.sleepers.set i c) :
    s'.Awaits drift j clock' := by
  apply h.mono hle
  rw [hsleepers]
  exact List.getElem?_set_ne (Ne.symm hne)

theorem Awaits.ne_awake {i j : Nat} {clock : Int} (h : s.Awaits drift j clock) {c : Sleeper}
    (hc : s.sleepers[i]? = some c) (hawake : c.asleep = none) : j ≠ i := by
  rintro rfl
  exact h.asleep hc hawake

/-- What a sleep changes is the coroutine that begins it. -/
theorem Punctual.sleep (h : s.Punctual drift) {i : Nat} {c : Sleeper} {duration : Int}
    (hc : s.sleepers[i]? = some c) (hsteady : s'.core.steady = s.core.steady)
    (hsleepers : s'.sleepers = s.sleepers.set i ⟨c.begun, c.slept, some duration⟩) :
    s'.Punctual drift := by
  intro c' hc'
  rw [hsteady]
  rw [hsleepers] at hc'
  rcases List.mem_or_eq_of_mem_set hc' with hc' | rfl
  · exact h c' hc'
  · exact h c (List.mem_of_getElem? hc)

/-- The scheduler is shut down: nothing will resume the coroutine. -/
theorem Sound.sleepRefused (h : Sound base drift s) {i : Nat} {c : Sleeper} {duration : Int}
    (hc : s.sleepers[i]? = some c) (hawake : c.asleep = none) :
    Sound base drift { s with
      sleepers := s.sleepers.set i ⟨c.begun, c.slept, some duration⟩ } := by
  refine ⟨h.closures, ?_, ?_, h.once, h.punctual.sleep hc rfl rfl, h.due, h.unharmed⟩
  · intro e he
    obtain ⟨j, hj, hawaits⟩ := h.promised e he
    exact ⟨j, hj, hawaits.set (Int.le_refl _) (hawaits.ne_awake hc hawake) rfl⟩
  · intro j hj
    have hawaits := h.released j hj
    exact hawaits.set (Int.le_refl _) (hawaits.ne_awake hc hawake) rfl

/-- The scheduler accepts the function that resumes the coroutine. -/
theorem Sound.sleepAccepted (h : Sound base drift s) {i : Nat} {c : Sleeper}
    {duration now₁ now₂ : Int} (hc : s.sleepers[i]? = some c) (hawake : c.asleep = none)
    (hnow : Shows base drift s.core.steady now₂) (hfits : now₂ + max 0 duration < 2 ^ 63)
    (hnanos : (now₂ + max 0 duration - base) * 1000000 < 2 ^ 63) :
    Sound base drift { s with
      core := s.core.pushAndNotify Q (max 0 duration) now₁ now₂
      closures := s.closures ++ [i]
      sleepers := s.sleepers.set i ⟨c.begun, c.slept, some duration⟩ } := by
  have hahead := hnow.ahead
  have hnonneg := hnow.nonneg
  obtain ⟨x, hx⟩ : ∃ x, x = DelayedExecutable.create s.core.accepted.length (max 0 duration)
    now₂ := ⟨_, rfl⟩
  have htime : x.scheduledTime = now₂ + max 0 duration := by
    rw [hx, DelayedExecutable.create]
    exact longLong_eq_iff.mpr ⟨by omega, hfits⟩
  have hfunc : x.func = s.closures.length := by rw [hx, h.closures]; rfl
  have hpush : (s.core.pushAndNotify Q (max 0 duration) now₁ now₂).queue.elems.Perm
      (x :: s.core.queue.elems) := hx ▸ Q.push_perm s.core.queue _
  have hclosure : ∀ e ∈ s.pending, ∀ j, s.closures[e.func]? = some j →
      (s.closures ++ [i])[e.func]? = some j := by
    intro e _ j hj
    rw [List.getElem?_append_left (List.getElem?_eq_some_iff.mp hj).1]
    exact hj
  have hnew : (s.closures ++ [i])[x.func]? = some i := by
    rw [hfunc]
    exact List.getElem?_concat_length
  have hpending : pending { s with
      core := s.core.pushAndNotify Q (max 0 duration) now₁ now₂
      closures := s.closures ++ [i]
      sleepers := s.sleepers.set i ⟨c.begun, c.slept, some duration⟩ }
        |>.Perm (x :: s.pending) := hpush.append_right s.core.worker.inHand
  refine ⟨?_, ?_, ?_, ?_, h.punctual.sleep hc rfl rfl, ⟨?_, h.due.timed, h.due.calling⟩,
    h.unharmed⟩
  · simp [SchedulerState.pushAndNotify, h.closures]
  · intro e he
    rcases List.mem_cons.mp (hpending.mem_iff.mp he) with rfl | he
    · refine ⟨i, hnew, ⟨c.begun, c.slept, some duration⟩, duration, ?_, rfl, ?_⟩
      · exact List.getElem?_set_self (List.getElem?_eq_some_iff.mp hc).1
      · have hpunctual := h.punctual c (List.mem_of_getElem? hc)
        rw [htime]
        show (c.begun : Int) + c.total + max 0 duration ≤ _ + drift * (c.slept.length : Int)
        omega
    · obtain ⟨j, hj, hawaits⟩ := h.promised e he
      exact ⟨j, hclosure e he j hj,
        hawaits.set (Int.le_refl _) (hawaits.ne_awake hc hawake) rfl⟩
  · intro j hj
    have hawaits := h.released j hj
    exact hawaits.set (Int.le_refl _) (hawaits.ne_awake hc hawake) rfl
  · -- the coroutine was awake, so nothing else resumes it
    have hout : some i ∉ s.outstanding := by
      intro hi
      obtain ⟨clock, hawaits⟩ := h.outstanding_asleep hi
      exact hawaits.ne_awake hc hawake rfl
    have hold : s.pending.map ((s.closures ++ [i])[·.func]?) =
        s.pending.map (s.closures[·.func]?) := by
      apply List.map_congr_left
      intro e he
      obtain ⟨j, hj, -⟩ := h.promised e he
      rw [hj, hclosure e he j hj]
    have hperm := (hpending.map ((s.closures ++ [i])[·.func]?)).append_right
      (s.executors.map some)
    rw [List.map_cons, hnew, hold] at hperm
    exact hperm.nodup_iff.mpr (List.nodup_cons.mpr ⟨hout, h.once⟩)
  · intro e he
    rcases List.mem_cons.mp (hpush.mem_iff.mp he) with rfl | he
    · rw [htime]
      omega
    · exact h.due.fits e he

theorem Sound.sleep (h : Sound base drift s) {i : Nat} {c : Sleeper} {duration now₁ now₂ : Int}
    (hc : s.sleepers[i]? = some c) (hawake : c.asleep = none)
    (hnow : Shows base drift s.core.steady now₂) (hfits : now₂ + max 0 duration < 2 ^ 63)
    (hnanos : (now₂ + max 0 duration - base) * 1000000 < 2 ^ 63) :
    Sound base drift { s with
      core := s.core.execute Q duration now₁ now₂
      closures := if s.core.isActive then s.closures ++ [i] else s.closures
      sleepers := s.sleepers.set i ⟨c.begun, c.slept, some duration⟩ } := by
  cases hactive : s.core.isActive with
  | true =>
      have hdelay : (if duration < 0 then 0 else duration) = max 0 duration := by omega
      rw [SchedulerState.execute_eq_pushAndNotify Q hactive, hdelay]
      exact h.sleepAccepted hc hawake hnow hfits hnanos
  | false =>
      rw [SchedulerState.execute, if_neg (by simp [hactive])]
      exact h.sleepRefused hc hawake

theorem Sound.scheduler (h : Sound base drift s) {core : SchedulerState}
    (hmoves : SchedulerState.Moves Q s.core core) (hdue : core.Due base drift) :
    Sound base drift { s with core := core } := by
  have hkept : ∀ {core : SchedulerState}, core.Due base drift →
      core.accepted = s.core.accepted → s.core.steady ≤ core.steady →
      (core.queue.elems ++ core.worker.inHand).Subperm s.pending →
      Sound base drift { s with core := core } := by
    intro core hdue haccepted hsteady hpending
    refine ⟨?_, ?_, ?_, ?_, ?_, hdue, h.unharmed⟩
    · rw [haccepted]
      exact h.closures
    · intro e he
      obtain ⟨i, hi, hawaits⟩ := h.promised e (hpending.subset he)
      exact ⟨i, hi, hawaits.mono (Int.le_refl _) rfl⟩
    · intro i hi
      have hle : (s.core.steady : Int) ≤ core.steady := by exact_mod_cast hsteady
      exact (h.released i hi).mono (by show _ ≤ (core.steady : Int) + drift; omega) rfl
    · obtain ⟨kept, hperm, hsub⟩ := hpending
      have hnodup : (kept.map (s.closures[·.func]?) ++ s.executors.map some).Nodup :=
        ((hsub.map _).append_right _).nodup h.once
      exact ((hperm.map _).append_right _).nodup hnodup
    · intro c hc
      have hle : (s.core.steady : Int) ≤ core.steady := by exact_mod_cast hsteady
      have := h.punctual c hc
      show (c.begun : Int) + c.total ≤ core.steady + drift * (c.slept.length : Int)
      omega
  cases hmoves with
  | quiet queue hand accepted steady =>
      refine hkept hdue accepted steady ?_
      rw [queue, hand]
      exact List.Subperm.refl _
  | clear eq =>
      subst eq
      refine hkept hdue rfl (Nat.le_refl _) ?_
      exact (List.sublist_append_right _ _).subperm
  | pop e hand top eq =>
      subst eq
      refine hkept hdue rfl (Nat.le_refl _) ?_
      have hperm : ((Q.pop s.core.queue).elems ++ [e]).Perm s.pending := by
        rw [pending, hand, List.append_nil]
        exact (List.perm_append_singleton e _).trans (Q.pop_perm s.core.queue e top)
      exact hperm.subperm

theorem Sound.call (h : Sound base drift s) {e : DelayedExecutable}
    (hworker : s.core.worker = .calling e) :
    Sound base drift { s with
      core := { s.core with worker := .testActive, called := s.core.called ++ [e] }
      executors := s.executors ++ (s.closures[e.func]?).toList } := by
  have hpending : s.pending = s.core.queue.elems ++ [e] := by rw [pending, hworker]; rfl
  obtain ⟨i, hi, hawaits⟩ := h.promised e (by rw [hpending]; simp)
  have htime := h.due.calling e hworker
  rw [hi]
  refine ⟨h.closures, ?_, ?_, ?_, h.punctual, ⟨h.due.fits, by rintro _ _ _ ⟨⟩, by rintro _ ⟨⟩⟩,
    h.unharmed⟩
  · intro e' he'
    have hold : e' ∈ s.pending := by
      rw [hpending]
      exact List.mem_append_left _ (by simpa [pending, Worker.inHand] using he')
    obtain ⟨j, hj, hawaits⟩ := h.promised e' hold
    exact ⟨j, hj, hawaits.mono (Int.le_refl _) rfl⟩
  · intro j hj
    rcases List.mem_append.mp hj with hj | hj
    · exact (h.released j hj).mono (Int.le_refl _) rfl
    · obtain rfl : j = i := by simpa using hj
      exact hawaits.mono (by show _ ≤ (s.core.steady : Int) + drift; omega) rfl
  · refine List.Perm.nodup ?_ h.once
    rw [outstanding, hpending]
    simp only [outstanding, pending, Worker.inHand, List.append_nil, List.map_append,
      List.map_cons, List.map_nil, hi, Option.toList_some, List.append_assoc]
    exact List.Perm.append_left _ List.perm_append_comm

theorem Sound.resume (h : Sound base drift s) {i k : Nat} {c : Sleeper} {duration : Int}
    (hk : s.executors[k]? = some i) (hc : s.sleepers[i]? = some c)
    (hasleep : c.asleep = some duration) :
    Sound base drift { s with
      executors := s.executors.eraseIdx k
      sleepers := s.sleepers.set i ⟨c.begun, c.slept ++ [duration], none⟩ } := by
  obtain ⟨hlt, hget⟩ := List.getElem?_eq_some_iff.mp hk
  have hperm : (i :: s.executors.eraseIdx k).Perm s.executors := by
    rw [← hget]
    exact List.getElem_cons_eraseIdx_perm hlt
  have honce : (some i :: (s.pending.map (s.closures[·.func]?) ++
      (s.executors.eraseIdx k).map some)).Nodup := by
    refine List.Perm.nodup ?_ h.once
    exact (List.Perm.append_left _ (hperm.map some).symm).trans List.perm_middle
  obtain ⟨hout, hnodup⟩ := List.nodup_cons.mp honce
  refine ⟨h.closures, ?_, ?_, hnodup, ?_, h.due, h.unharmed⟩
  · intro e he
    obtain ⟨j, hj, hawaits⟩ := h.promised e he
    refine ⟨j, hj, hawaits.set (Int.le_refl _) ?_ rfl⟩
    rintro rfl
    exact hout (List.mem_append_left _ (List.mem_map.mpr ⟨e, he, hj⟩))
  · intro j hj
    refine (h.released j (hperm.subset (List.mem_cons_of_mem _ hj))).set (Int.le_refl _) ?_ rfl
    rintro rfl
    exact hout (List.mem_append_right _ (List.mem_map.mpr ⟨j, hj, rfl⟩))
  · intro c' hc'
    rcases List.mem_or_eq_of_mem_set hc' with hc' | rfl
    · exact h.punctual c' hc'
    · -- the time of this sleep is up
      obtain ⟨c', d, hc', hd, htime⟩ := h.released i (List.mem_of_getElem? hk)
      obtain rfl : c = c' := Option.some.inj (hc.symm.trans hc')
      obtain rfl : duration = d := Option.some.inj (hasleep.symm.trans hd)
      simp only [Sleeper.total, List.map_append, List.map_cons, List.map_nil, List.sum_append,
        List.sum_cons, List.sum_nil, List.length_append, List.length_cons, List.length_nil]
      rw [Sleeper.total] at htime
      push_cast
      rw [Int.mul_add, Int.mul_one]
      omega

theorem sound_step (h : Sound base drift s) (hclock : Clocked base drift s l)
    (htop : TopUnmoved s l) (hstep : s.step Q l = some s') : Sound base drift s' := by
  cases l with
  | start =>
      cases hstep
      exact h.start
  | sleep i duration now₁ now₂ =>
      simp only [step] at hstep
      split at hstep
      case h_1 begun slept hc =>
        cases hstep
        exact h.sleep hc rfl hclock.1 hclock.2.1 hclock.2.2
      case h_2 => cases hstep
  | scheduler k =>
      by_cases hexecute : ∀ delay now₁ now₂, k ≠ .execute delay now₁ now₂
      case neg =>
        push Not at hexecute
        obtain ⟨delay, now₁, now₂, rfl⟩ := hexecute
        cases hstep
      by_cases hcall : k = .call
      case pos =>
        subst hcall
        cases hstep
      have hmap : s.step Q (.scheduler k) = (s.core.step Q k).map ({ s with core := · }) := by
        cases k with
        | execute delay now₁ now₂ => exact absurd rfl (hexecute delay now₁ now₂)
        | call => exact absurd rfl hcall
        | _ => rfl
      rw [hmap] at hstep
      obtain ⟨core, hcore, rfl⟩ := Option.map_eq_some_iff.mp hstep
      refine h.scheduler (SchedulerState.moves_of_step hexecute hcall htop hcore) ?_
      refine SchedulerState.due_step h.due ?_ hexecute htop hcore
      rintro now (rfl | ⟨spurious, rfl⟩)
      · exact hclock
      · exact hclock
  | call =>
      simp only [step] at hstep
      split at hstep
      case h_1 e hworker =>
        simp only [SchedulerState.step, hworker, Option.map_some, Option.some.injEq] at hstep
        subst hstep
        exact h.call hworker
      case h_2 => cases hstep
  | resume k =>
      simp only [step] at hstep
      split at hstep
      case h_1 => cases hstep
      case h_2 i hk =>
        split at hstep
        case h_1 begun slept duration hc =>
          cases hstep
          exact h.resume hk hc rfl
        case h_2 hother =>
          obtain ⟨c, d, hc, hd, -⟩ := h.released i (List.mem_of_getElem? hk)
          obtain ⟨begun, slept, asleep⟩ := c
          subst hd
          exact absurd hc (hother begun slept d)

/-- No coroutine wakes early, however many sleep at once and whatever the executors do: after its
sleeps it has taken at least the sum of their durations, less one drift of the clock a sleep, and
it is resumed once for each of them. This holds as long as every timeout of the scheduler finds the
element on top that it waited for, and no sleep is so long that the end of the wait does not fit
into the nanoseconds of the steady clock. -/
theorem never_early (Q : PriorityQueue DelayedExecutable.scheduledTime) {base : Int} {drift : Nat}
    {ls : List Label} {s : SleepState} (hrun : (machine Q).Runs ls s)
    (hclock : (machine Q).Meets (Clocked base drift) (machine Q).init ls)
    (htop : (machine Q).Meets TopUnmoved (machine Q).init ls) :
    s.Punctual drift ∧ s.misfired = false := by
  have hsound : Sound base drift s := by
    refine hrun.guarded (I := Sound base drift) (sound_init base drift) ?_ (hclock.and htop)
    rintro a l a' ha ⟨hclock, htop⟩ hstep
    exact sound_step ha hclock htop hstep
  exact ⟨hsound.punctual, hsound.unharmed⟩

def twoSleepers : List Label :=
  [.start, .sleep 0 10 100 100, .scheduler .notify, .scheduler .testActive,
    .scheduler (.enter 101), .start, .sleep 1 30 101 101, .scheduler (.tick 9),
    .scheduler (.wakeTimed true false), .call, .resume 0, .sleep 0 (-5) 110 110,
    .scheduler .testActive, .scheduler (.enter 110), .call, .resume 0]

theorem never_early_run :
    ∃ s : SleepState, (machine (.linear DelayedExecutable.scheduledTime)).Runs twoSleepers s ∧
      s.sleepers = [⟨0, [10, -5], none⟩, ⟨0, [], some 30⟩] ∧
      s.Punctual 1 ∧ s.misfired = false := by
  obtain ⟨s, hrun, hsleepers⟩ : ∃ s : SleepState,
      (machine (.linear DelayedExecutable.scheduledTime)).Runs twoSleepers s ∧
      s.sleepers = [⟨0, [10, -5], none⟩, ⟨0, [], some 30⟩] := ⟨_, rfl, rfl⟩
  have hclock : (machine (.linear DelayedExecutable.scheduledTime)).Meets (Clocked 100 1)
      (machine (.linear DelayedExecutable.scheduledTime)).init twoSleepers := by decide
  exact ⟨s, hrun, hsleepers, never_early _ hrun hclock (by decide)⟩

/-- The timeout of the first sleep finds a function on top that was pushed meanwhile. The one for
the sleep of 10 ms stays in the queue and ends the next sleep as well, at once. -/
example : ∃ s : SleepState, (machine (.linear DelayedExecutable.scheduledTime)).Runs
    [.start, .start, .sleep 0 10 0 0, .scheduler .testActive, .scheduler (.enter 0),
      .scheduler (.tick 9), .sleep 1 0 9 9, .scheduler (.tick 1),
      .scheduler (.wakeTimed true false), .call, .resume 0, .sleep 0 500 10 10,
      .scheduler .testActive, .scheduler (.enter 10), .call, .resume 0] s ∧
    s.sleepers = [⟨0, [10, 500], none⟩, ⟨0, [], some 0⟩] ∧ s.core.steady = 10 :=
  ⟨_, rfl, rfl, rfl⟩

end SleepState

end Npp.Task
