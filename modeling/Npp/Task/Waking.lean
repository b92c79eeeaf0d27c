import Npp.Task.Sleep

/-!
# Every sleep can end

A worker that waits either waits for the element on top or was notified, or a call is still to
notify it; so it needs no wakeup without a reason. And as many functions and resumptions are on
their way as coroutines sleep. The first is lost where `push` moves a top that is as early as the
new element, which `std::priority_queue` does not do (`PriorityQueue.KeepsTop`).
-/

namespace Npp.Task

open Npp.Foundation

namespace SchedulerState

variable {Q : PriorityQueue DelayedExecutable.scheduledTime} {base : Int} {drift : Nat}
  {c c' : SchedulerState} {l : Label} {e : DelayedExecutable}

/-- The worker goes on by itself or was notified, or somebody is still to notify it. -/
structure Alert (base : Int) (c : SchedulerState) : Prop where
  isActive : c.isActive = true
  clears : c.clears = 0
  loops : c.worker ≠ .testEmpty ∧ c.worker ≠ .exited
  waiting : ∀ notified, c.worker = .waiting notified → c.queue.elems ≠ [] →
    notified = true ∨ 0 < c.notifies
  timed : ∀ e until_ notified, c.worker = .timedWaiting e until_ notified →
    base + until_ ≤ e.scheduledTime ∧
      (c.queue.top? = some e ∨ notified = true ∨ 0 < c.notifies)

theorem alert_init (base : Int) : Alert base {} :=
  ⟨rfl, rfl, ⟨by rintro ⟨⟩, by rintro ⟨⟩⟩, by rintro _ ⟨⟩, by rintro _ _ _ ⟨⟩⟩

/-- What a step of an active scheduler does, other than `execute` and `call`. -/
inductive Works (Q : PriorityQueue DelayedExecutable.scheduledTime) (c : SchedulerState) :
    Label → SchedulerState → Prop where
  | tick (elapsed : Nat) : Works Q c (.tick elapsed) { c with steady := c.steady + elapsed }
  | notify (notifies : 0 < c.notifies) :
      Works Q c .notify { c with worker := c.worker.notify, notifies := c.notifies - 1 }
  | turn (l : Label) (w : Worker) (hand : c.worker.inHand = [])
      (turns : w = .testActive ∨ w = .enter) : Works Q c l { c with worker := w }
  | wait (now : Int) (hand : c.worker.inHand = []) (queue : c.queue.top? = none) :
      Works Q c (.enter now) { c with worker := .waiting false }
  | examine (l : Label) (now : Int) (e : DelayedExecutable) (hand : c.worker.inHand = [])
      (label : l = .enter now ∨ ∃ spurious, l = .wake spurious now)
      (queue : c.queue.top? = some e) : Works Q c l (c.examine Q e now)
  | timeout (spurious : Bool) (e : DelayedExecutable) (hand : c.worker.inHand = [])
      (queue : c.queue.top? = some e) : Works Q c (.wakeTimed true spurious) (c.popAndUnlock Q e)

theorem Alert.works (h : Alert base c) (hexecute : ∀ delay now₁ now₂, l ≠ .execute delay now₁ now₂)
    (hshutdown : ∀ w, l ≠ .shutdown w) (hcall : l ≠ .call) (htop : TopUnmoved c l)
    (hstep : c.step Q l = some c') : Works Q c l c' := by
  cases transition_of_step hexecute hstep with
  | tick elapsed => exact .tick elapsed
  | shutdown waitForComplete => exact absurd rfl (hshutdown waitForComplete)
  | clear free clears =>
      have hclears : 0 < c.clears := clears
      exact absurd h.clears (Nat.ne_of_gt hclears)
  | notify notifies => exact .notify notifies
  | goOn worker active =>
      simp only at worker
      exact .turn _ _ (by rw [worker]; rfl) (Or.inr rfl)
  | goLook worker active => exact absurd h.isActive (by simp only at active; simp [active])
  | exit worker queue => exact absurd worker h.loops.1
  | remain worker queue => exact absurd worker h.loops.1
  | wait now worker free queue =>
      simp only at worker
      exact .wait now (by rw [worker]; rfl) queue
  | examine now e worker free queue =>
      simp only at worker
      exact .examine _ now e (by rw [worker]; rfl) (Or.inl rfl) queue
  | wakeEmpty notified spurious now worker woken free queue =>
      simp only at worker
      exact .turn _ _ (by rw [worker]; rfl) (Or.inl rfl)
  | wakeExamine notified spurious now e worker woken free queue =>
      simp only at worker
      exact .examine _ now e (by rw [worker]; rfl) (Or.inr ⟨spurious, rfl⟩) queue
  | timeout spurious e until_ notified worker free time =>
      simp only at worker
      exact .timeout spurious e (by rw [worker]; rfl) (htop rfl e (by rw [worker]; rfl))
  | rewind spurious e until_ notified worker free woken =>
      simp only at worker
      exact .turn _ _ (by rw [worker]; rfl) (Or.inl rfl)
  | call e worker => exact absurd rfl hcall

/-- A worker that does not wait needs no notification. -/
theorem Alert.busy (h : Alert base c) (hactive : c'.isActive = c.isActive)
    (hclears : c'.clears = c.clears)
    (hworker : c'.worker = .testActive ∨ c'.worker = .enter ∨ ∃ e, c'.worker = .calling e) :
    Alert base c' := by
  refine ⟨hactive.trans h.isActive, hclears.trans h.clears, ?_, ?_, ?_⟩
  · rcases hworker with hw | hw | ⟨e, hw⟩ <;> rw [hw] <;> exact ⟨by rintro ⟨⟩, by rintro ⟨⟩⟩
  · intro notified hw'
    rcases hworker with hw | hw | ⟨e, hw⟩ <;> rw [hw] at hw' <;> cases hw'
  · intro e' until_ notified hw'
    rcases hworker with hw | hw | ⟨e, hw⟩ <;> rw [hw] at hw' <;> cases hw'

/-- The worker begins to wait for the top, and not beyond its time. -/
theorem Alert.examine (h : Alert base c) (hdue : Due base drift c) {now : Int}
    (hnow : SleepState.Shows base drift c.steady now) (htop : c.queue.top? = some e) :
    Alert base (c.examine Q e now) := by
  have hdelay : e.delay now = e.scheduledTime - now :=
    delay_eq ⟨hnow.nonneg, hnow.bounded⟩ (hdue.fits e (Topped.mem_of_top? htop)).1
  have hahead := hnow.ahead
  unfold SchedulerState.examine
  split
  case isTrue hpos =>
    refine ⟨h.isActive, h.clears, ⟨by rintro ⟨⟩, by rintro ⟨⟩⟩, by rintro _ ⟨⟩, ?_⟩
    rintro e' until_ notified ⟨⟩
    refine ⟨?_, Or.inl htop⟩
    push_cast
    omega
  case isFalse => exact h.busy rfl rfl (Or.inr (Or.inr ⟨e, rfl⟩))

theorem Worker.notify_waiting {w : Worker} {notified : Bool} (h : w.notify = .waiting notified) :
    notified = true := by
  cases w <;> cases h
  rfl

theorem Worker.notify_timedWaiting {w : Worker} {until_ : Nat} {notified : Bool}
    (h : w.notify = .timedWaiting e until_ notified) : notified = true := by
  cases w <;> cases h
  rfl

theorem Alert.works_alert (h : Alert base c) (hdue : Due base drift c)
    (hnow : ∀ now, l = .enter now ∨ (∃ spurious, l = .wake spurious now) →
      SleepState.Shows base drift c.steady now)
    (hworks : Works Q c l c') : Alert base c' := by
  cases hworks with
  | tick elapsed => exact ⟨h.isActive, h.clears, h.loops, h.waiting, h.timed⟩
  | notify notifies =>
      refine ⟨h.isActive, h.clears, ?_, ?_, ?_⟩
      · have hloops := h.loops
        show c.worker.notify ≠ .testEmpty ∧ c.worker.notify ≠ .exited
        cases hworker : c.worker with
        | testEmpty => exact absurd hworker hloops.1
        | exited => exact absurd hworker hloops.2
        | _ => exact ⟨by rintro ⟨⟩, by rintro ⟨⟩⟩
      · intro notified hworker _
        exact Or.inl (Worker.notify_waiting hworker)
      · intro e until_ notified hworker
        obtain ⟨notified', hw⟩ := Worker.notify_timed hworker
        refine ⟨(h.timed e until_ notified' hw).1, ?_⟩
        exact Or.inr (Or.inl (Worker.notify_timedWaiting hworker))
  | turn l w hand turns =>
      refine h.busy rfl rfl ?_
      rcases turns with rfl | rfl
      · exact Or.inl rfl
      · exact Or.inr (Or.inl rfl)
  | wait now hand queue =>
      refine ⟨h.isActive, h.clears, ⟨by rintro ⟨⟩, by rintro ⟨⟩⟩, ?_, by rintro _ _ _ ⟨⟩⟩
      intro _ _ hqueue
      exact absurd (Topped.eq_nil_of_top? queue) hqueue
  | examine l now e hand label queue => exact h.examine hdue (hnow now label) queue
  | timeout spurious e hand queue => exact h.busy rfl rfl (Or.inr (Or.inr ⟨e, rfl⟩))

def uncalled (c : SchedulerState) : Nat := (c.queue.elems ++ c.worker.inHand).length

theorem uncalled_of_hand (hand : c.worker.inHand = []) : c.uncalled = c.queue.elems.length := by
  rw [uncalled, hand, List.append_nil]

theorem popAndUnlock_uncalled (hand : c.worker.inHand = []) (htop : c.queue.top? = some e) :
    (c.popAndUnlock Q e).uncalled = c.uncalled := by
  have hlength := Q.pop_length (htop ▸ Option.some_ne_none e : c.queue.top? ≠ none)
  rw [uncalled_of_hand hand, ← hlength]
  exact List.length_append

theorem examine_uncalled (now : Int) (hand : c.worker.inHand = [])
    (htop : c.queue.top? = some e) : (c.examine Q e now).uncalled = c.uncalled := by
  unfold SchedulerState.examine
  split
  case isTrue => exact (uncalled_of_hand rfl).trans (uncalled_of_hand hand).symm
  case isFalse => exact popAndUnlock_uncalled hand htop

theorem works_uncalled (hworks : Works Q c l c') : c'.uncalled = c.uncalled := by
  cases hworks with
  | tick elapsed => rfl
  | notify notifies => simp only [uncalled, Worker.notify_inHand]
  | turn l w hand turns =>
      have hand' : w.inHand = [] := by rcases turns with rfl | rfl <;> rfl
      exact (uncalled_of_hand hand').trans (uncalled_of_hand hand).symm
  | wait now hand queue => exact (uncalled_of_hand rfl).trans (uncalled_of_hand hand).symm
  | examine l now e hand label queue => exact examine_uncalled now hand queue
  | timeout spurious e hand queue => exact popAndUnlock_uncalled hand queue

/-- A function that is due before the awaited one comes with a notification, and any other one
leaves the awaited one on top. -/
theorem Alert.push (h : Alert base c) (hQ : Q.KeepsTop) (hdue : Due base drift c)
    {delay now₁ now₂ : Int} (hnow : SleepState.Shows base drift c.steady now₁) (hle : now₁ ≤ now₂)
    (hdelay : 0 ≤ delay) (hfits : now₂ + delay < 2 ^ 63) :
    Alert base (c.pushAndNotify Q delay now₁ now₂) := by
  obtain ⟨hmore, hempty⟩ :=
    SchedulerSystem.pushAndNotify_notifies (Q := Q) c delay now₁ now₂
  refine ⟨h.isActive, h.clears, h.loops, ?_, ?_⟩
  · intro notified hworker _
    cases htop : c.queue.top? with
    | none => exact Or.inr (hempty htop)
    | some top =>
        have hqueue : c.queue.elems ≠ [] := List.ne_nil_of_mem (Topped.mem_of_top? htop)
        exact (h.waiting notified hworker hqueue).imp_right fun hlt => Nat.lt_of_lt_of_le hlt hmore
  · intro e until_ notified hworker
    obtain ⟨huntil, htop | hnotified⟩ := h.timed e until_ notified hworker
    · refine ⟨huntil, ?_⟩
      have hnonneg := hnow.nonneg
      have htime : longLong (now₂ + delay) = now₂ + delay :=
        longLong_eq_iff.mpr ⟨by omega, hfits⟩
      by_cases hearlier : now₂ + delay < e.scheduledTime
      · have hneed : e.delay now₁ > delay := by
          rw [delay_eq ⟨hnonneg, hnow.bounded⟩ (hdue.fits e (Topped.mem_of_top? htop)).1]
          omega
        right; right
        simp [SchedulerState.pushAndNotify, htop, hneed]
      · left
        apply hQ _ _ _ htop
        show e.scheduledTime ≤ longLong (now₂ + delay)
        omega
    · exact ⟨huntil, Or.inr (hnotified.imp_right fun hlt => Nat.lt_of_lt_of_le hlt hmore)⟩

/-- Only `shutdown` ends the activity, and nothing brings it back. -/
theorem active_of_step (hexecute : ∀ delay now₁ now₂, l ≠ .execute delay now₁ now₂)
    (hstep : c.step Q l = some c') (hactive : c'.isActive = true) :
    c.isActive = true ∧ ∀ w, l ≠ .shutdown w := by
  have hexamined : ∀ e now, (c.examine Q e now).isActive = c.isActive := by
    intro e now
    rcases SchedulerSystem.examine_cases (Q := Q) c e now with ⟨until_, h⟩ | h <;> rw [h]
    rfl
  cases transition_of_step hexecute hstep with
  | shutdown waitForComplete => cases waitForComplete <;> cases hactive
  | examine now e worker free queue =>
      exact ⟨(hexamined e now).symm.trans hactive, by rintro _ ⟨⟩⟩
  | wakeExamine notified spurious now e worker woken free queue =>
      exact ⟨(hexamined e now).symm.trans hactive, by rintro _ ⟨⟩⟩
  | _ => exact ⟨hactive, by rintro _ ⟨⟩⟩

end SchedulerState

/-! ## The coroutines that are still to be resumed -/

namespace Sleeper

def sleeps (c : Sleeper) : Nat := if c.asleep.isSome then 1 else 0

def wake (c : Sleeper) : Sleeper := { c with slept := c.slept ++ c.asleep.toList, asleep := none }

theorem wake_eq_self {c : Sleeper} (h : c.sleeps = 0) : c.wake = c := by
  obtain ⟨begun, slept, asleep⟩ := c
  cases asleep with
  | none => simp [wake]
  | some d => cases h

end Sleeper

namespace SleepState

variable {Q : PriorityQueue DelayedExecutable.scheduledTime} {base : Int} {drift : Nat}
  {s s' : SleepState} {l : Label} {ls : List Label}

/-- The first reading in an `execute` is a time as well, and not after the second. -/
def ReadsTwice (base : Int) (drift : Nat) (s : SleepState) : Label → Prop
  | .sleep _ _ now₁ now₂ => Shows base drift s.core.steady now₁ ∧ now₁ ≤ now₂
  | _ => True

instance (base : Int) (drift : Nat) (s : SleepState) : ∀ l, Decidable (ReadsTwice base drift s l)
  | .sleep _ _ now₁ now₂ =>
      inferInstanceAs (Decidable (Shows base drift s.core.steady now₁ ∧ now₁ ≤ now₂))
  | .start | .scheduler _ | .call | .resume _ => .isTrue trivial

inductive Steps (Q : PriorityQueue DelayedExecutable.scheduledTime) (s : SleepState) :
    Label → SleepState → Prop where
  | start : Steps Q s .start { s with sleepers := s.sleepers ++ [{ begun := s.core.steady }] }
  | sleep (i : Nat) (c : Sleeper) (duration now₁ now₂ : Int) (sleeper : s.sleepers[i]? = some c)
      (awake : c.asleep = none) :
      Steps Q s (.sleep i duration now₁ now₂) { s with
        core := s.core.execute Q duration now₁ now₂
        closures := if s.core.isActive then s.closures ++ [i] else s.closures
        sleepers := s.sleepers.set i ⟨c.begun, c.slept, some duration⟩ }
  | scheduler (k : SchedulerState.Label) (core : SchedulerState)
      (hexecute : ∀ delay now₁ now₂, k ≠ .execute delay now₁ now₂) (hcall : k ≠ .call)
      (step : s.core.step Q k = some core) : Steps Q s (.scheduler k) { s with core := core }
  | call (e : DelayedExecutable) (worker : s.core.worker = .calling e) :
      Steps Q s .call { s with
        core := { s.core with worker := .testActive, called := s.core.called ++ [e] }
        executors := s.executors ++ (s.closures[e.func]?).toList }
  | resume (k i : Nat) (c : Sleeper) (duration : Int) (executor : s.executors[k]? = some i)
      (sleeper : s.sleepers[i]? = some c) (asleep : c.asleep = some duration) :
      Steps Q s (.resume k) { s with
        executors := s.executors.eraseIdx k
        sleepers := s.sleepers.set i ⟨c.begun, c.slept ++ [duration], none⟩ }

/-- Nobody is resumed who does not sleep. -/
theorem Sound.steps (h : Sound base drift s) (hstep : s.step Q l = some s') : Steps Q s l s' := by
  cases l with
  | start =>
      cases hstep
      exact .start
  | sleep i duration now₁ now₂ =>
      simp only [step] at hstep
      split at hstep
      case h_1 begun slept hc =>
        cases hstep
        exact .sleep i _ duration now₁ now₂ hc rfl
      case h_2 => cases hstep
  | scheduler k =>
      have hmap : (∀ delay now₁ now₂, k ≠ .execute delay now₁ now₂) → k ≠ .call →
          s.step Q (.scheduler k) = (s.core.step Q k).map ({ s with core := · }) := by
        intro hexecute hcall
        cases k with
        | execute delay now₁ now₂ => exact absurd rfl (hexecute delay now₁ now₂)
        | call => exact absurd rfl hcall
        | _ => rfl
      have hexecute : ∀ delay now₁ now₂, k ≠ .execute delay now₁ now₂ := by
        rintro _ _ _ rfl
        cases hstep
      have hcall : k ≠ .call := by
        rintro rfl
        cases hstep
      rw [hmap hexecute hcall] at hstep
      obtain ⟨core, hcore, rfl⟩ := Option.map_eq_some_iff.mp hstep
      exact .scheduler k core hexecute hcall hcore
  | call =>
      simp only [step] at hstep
      split at hstep
      case h_1 e hworker =>
        simp only [SchedulerState.step, hworker, Option.map_some, Option.some.injEq] at hstep
        subst hstep
        exact .call e hworker
      case h_2 => cases hstep
  | resume k =>
      simp only [step] at hstep
      split at hstep
      case h_1 => cases hstep
      case h_2 i hk =>
        split at hstep
        case h_1 begun slept duration hc =>
          cases hstep
          exact .resume k i _ duration hk hc rfl
        case h_2 hother =>
          obtain ⟨c, d, hc, hd, -⟩ := h.released i (List.mem_of_getElem? hk)
          obtain ⟨begun, slept, asleep⟩ := c
          subst hd
          exact absurd hc (hother begun slept d)

/-- As many functions and resumptions are on their way as coroutines sleep. -/
def Counted (s : SleepState) : Prop :=
  (s.sleepers.map Sleeper.sleeps).sum = s.core.uncalled + s.executors.length

/-- What a run keeps as long as there is no `shutdown`. -/
structure Watched (base : Int) (s : SleepState) : Prop where
  alert : s.core.Alert base
  counted : Counted s

theorem execute_isActive (c : SchedulerState) (duration now₁ now₂ : Int) :
    (c.execute Q duration now₁ now₂).isActive = c.isActive := by
  cases hactive : c.isActive with
  | true =>
      rw [SchedulerState.execute_eq_pushAndNotify Q hactive]
      exact hactive
  | false =>
      rw [SchedulerState.execute, if_neg (by simp [hactive])]
      exact hactive

theorem Watched.sleep (h : Watched base s) (hsound : Sound base drift s) (hQ : Q.KeepsTop) {i : Nat}
    {c : Sleeper} {duration now₁ now₂ : Int} (hc : s.sleepers[i]? = some c)
    (hawake : c.asleep = none) (hclock : Clocked base drift s (.sleep i duration now₁ now₂))
    (hreads : ReadsTwice base drift s (.sleep i duration now₁ now₂)) :
    Watched base { s with
      core := s.core.execute Q duration now₁ now₂
      closures := if s.core.isActive then s.closures ++ [i] else s.closures
      sleepers := s.sleepers.set i ⟨c.begun, c.slept, some duration⟩ } := by
  have hdelay : (if duration < 0 then 0 else duration) = max 0 duration := by omega
  rw [SchedulerState.execute_eq_pushAndNotify Q h.alert.isActive, hdelay]
  constructor
  · exact h.alert.push hQ hsound.due hreads.1 hreads.2 (Int.le_max_left _ _) hclock.2.1
  · have hset := Machine.sum_map_set Sleeper.sleeps hc ⟨c.begun, c.slept, some duration⟩
    have hbefore : c.sleeps = 0 := by rw [Sleeper.sleeps, hawake]; rfl
    have hafter : Sleeper.sleeps ⟨c.begun, c.slept, some duration⟩ = 1 := rfl
    have hqueue : (s.core.pushAndNotify Q (max 0 duration) now₁ now₂).uncalled =
        s.core.uncalled + 1 :=
      ((Q.push_perm s.core.queue _).append_right s.core.worker.inHand).length_eq
    have hcounted : (s.sleepers.map Sleeper.sleeps).sum = _ := h.counted
    show ((s.sleepers.set i _).map Sleeper.sleeps).sum =
      (s.core.pushAndNotify Q (max 0 duration) now₁ now₂).uncalled + s.executors.length
    omega

theorem Watched.call (h : Watched base s) (hsound : Sound base drift s) {e : DelayedExecutable}
    (hworker : s.core.worker = .calling e) :
    Watched base { s with
      core := { s.core with worker := .testActive, called := s.core.called ++ [e] }
      executors := s.executors ++ (s.closures[e.func]?).toList } := by
  constructor
  · exact h.alert.busy rfl rfl (Or.inl rfl)
  · have hmem : e ∈ s.pending := by
      rw [pending, hworker]
      exact List.mem_append_right _ List.mem_cons_self
    obtain ⟨i, hi, -⟩ := hsound.promised e hmem
    have hbefore : s.core.uncalled = s.core.queue.elems.length + 1 := by
      rw [SchedulerState.uncalled, hworker]
      exact List.length_append
    have hafter : SchedulerState.uncalled { s.core with
        worker := .testActive, called := s.core.called ++ [e] } = s.core.queue.elems.length :=
      SchedulerState.uncalled_of_hand rfl
    have hexecutors : (s.executors ++ (s.closures[e.func]?).toList).length =
        s.executors.length + 1 := by
      rw [hi]
      exact List.length_append
    calc (s.sleepers.map Sleeper.sleeps).sum
        = s.core.uncalled + s.executors.length := h.counted
      _ = s.core.queue.elems.length + (s.executors.length + 1) := by omega
      _ = _ := (congrArg₂ (· + ·) hafter hexecutors).symm

theorem Watched.resume (h : Watched base s) {i k : Nat} {c : Sleeper} {duration : Int}
    (hk : s.executors[k]? = some i) (hc : s.sleepers[i]? = some c)
    (hasleep : c.asleep = some duration) :
    Watched base { s with
      executors := s.executors.eraseIdx k
      sleepers := s.sleepers.set i ⟨c.begun, c.slept ++ [duration], none⟩ } := by
  constructor
  · exact h.alert
  · have hset := Machine.sum_map_set Sleeper.sleeps hc ⟨c.begun, c.slept ++ [duration], none⟩
    have hbefore : c.sleeps = 1 := by rw [Sleeper.sleeps, hasleep]; rfl
    have hafter : Sleeper.sleeps ⟨c.begun, c.slept ++ [duration], none⟩ = 0 := rfl
    have hlt := (List.getElem?_eq_some_iff.mp hk).1
    have hexecutors := List.length_eraseIdx_add_one hlt
    have hcounted : (s.sleepers.map Sleeper.sleeps).sum = _ := h.counted
    show ((s.sleepers.set i _).map Sleeper.sleeps).sum =
      s.core.uncalled + (s.executors.eraseIdx k).length
    omega

theorem Watched.step (h : Watched base s) (hsound : Sound base drift s) (hQ : Q.KeepsTop)
    (hclock : Clocked base drift s l) (hreads : ReadsTwice base drift s l) (htop : TopUnmoved s l)
    (hshutdown : ∀ w, l ≠ .scheduler (.shutdown w)) (hstep : s.step Q l = some s') :
    Watched base s' := by
  cases hsound.steps hstep with
  | start =>
      refine ⟨h.alert, ?_⟩
      have hcounted := h.counted
      unfold Counted at hcounted ⊢
      rw [List.map_append, List.sum_append, hcounted]
      rfl
  | sleep i c duration now₁ now₂ sleeper awake =>
      exact h.sleep hsound hQ sleeper awake hclock hreads
  | scheduler k core hexecute hcall step =>
      have hworks : SchedulerState.Works Q s.core k core :=
        h.alert.works hexecute (fun w hw => hshutdown w (hw ▸ rfl)) hcall htop step
      constructor
      · refine h.alert.works_alert hsound.due ?_ hworks
        rintro now (rfl | ⟨spurious, rfl⟩)
        · exact hclock
        · exact hclock
      · have hcounted := h.counted
        unfold Counted at hcounted ⊢
        rw [hcounted, ← SchedulerState.works_uncalled hworks]
  | call e worker => exact h.call hsound worker
  | resume k i c duration executor sleeper asleep => exact h.resume executor sleeper asleep

theorem active_of_step (hsound : Sound base drift s) (hstep : s.step Q l = some s')
    (hactive : s'.core.isActive = true) :
    s.core.isActive = true ∧ ∀ w, l ≠ .scheduler (.shutdown w) := by
  cases hsound.steps hstep with
  | start => exact ⟨hactive, by rintro _ ⟨⟩⟩
  | sleep i c duration now₁ now₂ sleeper awake =>
      exact ⟨(execute_isActive s.core duration now₁ now₂).symm.trans hactive, by rintro _ ⟨⟩⟩
  | scheduler k core hexecute hcall step =>
      obtain ⟨hbefore, hshutdown⟩ := SchedulerState.active_of_step hexecute step hactive
      exact ⟨hbefore, fun w hw => hshutdown w (Label.scheduler.inj hw)⟩
  | call e worker => exact ⟨hactive, by rintro _ ⟨⟩⟩
  | resume k i c duration executor sleeper asleep => exact ⟨hactive, by rintro _ ⟨⟩⟩

theorem watched_runs (hQ : Q.KeepsTop) (hrun : (machine Q).Runs ls s)
    (hclock : (machine Q).Meets (Clocked base drift) (machine Q).init ls)
    (hreads : (machine Q).Meets (ReadsTwice base drift) (machine Q).init ls)
    (htop : (machine Q).Meets TopUnmoved (machine Q).init ls) :
    Sound base drift s ∧ (s.core.isActive = true → Watched base s) := by
  refine hrun.guarded (I := fun s => Sound base drift s ∧ (s.core.isActive = true → Watched base s))
    ⟨sound_init base drift, fun _ => ⟨SchedulerState.alert_init base, rfl⟩⟩ ?_
    ((hclock.and hreads).and htop)
  rintro a l a' ⟨hsound, hwatched⟩ ⟨⟨hclock, hreads⟩, htop⟩ hstep
  refine ⟨sound_step hsound hclock htop hstep, fun hactive => ?_⟩
  obtain ⟨hbefore, hshutdown⟩ := active_of_step hsound hstep hactive
  exact (hwatched hbefore).step hsound hQ hclock hreads htop hshutdown hstep

/-! ## The way to the end of the sleeps -/

/-- The steps with which no coroutine begins anything and no wait ends for no reason. -/
def Label.wakes : Label → Bool
  | .scheduler (.tick _) | .scheduler .notify | .scheduler .testActive | .scheduler (.enter _)
  | .scheduler (.wake false _) | .scheduler (.wakeTimed _ false) | .call | .resume _ => true
  | _ => false

/-- The state of a run without `shutdown`, in which `system_clock` still shows a time. `woken` is
what the coroutines will be. -/
structure Waking (base : Int) (drift : Nat) (woken : List Sleeper) (s : SleepState) : Prop where
  sound : Sound base drift s
  watched : Watched base s
  shows : ∃ now, Shows base drift s.core.steady now
  woken : s.sleepers.map Sleeper.wake = woken

variable {woken : List Sleeper}

theorem Waking.step (h : Waking base drift woken s) (hQ : Q.KeepsTop) (hwakes : l.wakes = true)
    (hclock : Clocked base drift s l) (htop : TopUnmoved s l) (hstep : s.step Q l = some s')
    (hshows : ∃ now, Shows base drift s'.core.steady now) : Waking base drift woken s' := by
  have hsleep : ∀ i duration now₁ now₂, l ≠ .sleep i duration now₁ now₂ := by
    rintro _ _ _ _ rfl
    cases hwakes
  have hreads : ReadsTwice base drift s l := by
    cases l with
    | sleep i duration now₁ now₂ => exact absurd rfl (hsleep i duration now₁ now₂)
    | _ => trivial
  have hshutdown : ∀ w, l ≠ .scheduler (.shutdown w) := by
    rintro _ rfl
    cases hwakes
  refine ⟨sound_step h.sound hclock htop hstep,
    h.watched.step h.sound hQ hclock hreads htop hshutdown hstep, hshows, ?_⟩
  cases h.sound.steps hstep with
  | start => cases hwakes
  | sleep i c duration now₁ now₂ sleeper awake => exact absurd rfl (hsleep i duration now₁ now₂)
  | scheduler k core hexecute hcall step => exact h.woken
  | call e worker => exact h.woken
  | resume k i c duration executor sleeper asleep =>
      have hsame : Sleeper.wake ⟨c.begun, c.slept ++ [duration], none⟩ = c.wake := by
        simp [Sleeper.wake, asleep]
      obtain ⟨hlt, rfl⟩ := List.getElem?_eq_some_iff.mp sleeper
      rw [← h.woken, List.map_set, hsame, ← List.map_set, List.set_getElem_self]

/-- The turns of the worker up to its next look at the top, and to the call. -/
def workerTurns : Worker → Nat
  | .calling _ => 0
  | .timedWaiting _ _ false | .waiting false => 1
  | .enter => 2
  | .waiting true | .testActive => 3
  | .timedWaiting _ _ true => 4
  | .testEmpty | .exited => 0

/-- A notification costs a round of the worker, a call one as well. -/
def turnsLeft (s : SleepState) : Nat :=
  20 * s.core.uncalled + 10 * s.executors.length + 5 * s.core.notifies +
    workerTurns s.core.worker

theorem workerTurns_notify (w : Worker) : workerTurns w.notify ≤ workerTurns w + 3 := by
  cases w with
  | waiting notified => cases notified <;> simp [workerTurns, Worker.notify]
  | timedWaiting e until_ notified => cases notified <;> simp [workerTurns, Worker.notify]
  | _ => exact Nat.le_add_right _ _

theorem examine_turns (c : SchedulerState) (e : DelayedExecutable) (now : Int) :
    workerTurns (c.examine Q e now).worker ≤ 1 ∧
      (c.examine Q e now).notifies = c.notifies ∧ (c.examine Q e now).steady = c.steady := by
  rcases SchedulerSystem.examine_cases (Q := Q) c e now with ⟨until_, h⟩ | h <;> rw [h]
  · exact ⟨Nat.le_refl 1, rfl, rfl⟩
  · exact ⟨Nat.zero_le 1, rfl, rfl⟩

abbrev Regular (base : Int) (drift : Nat) (s : SleepState) (l : Label) : Prop :=
  Clocked base drift s l ∧ TopUnmoved s l

def Nearer (Q : PriorityQueue DelayedExecutable.scheduledTime) (base : Int) (drift : Nat)
    (woken : List Sleeper) (s : SleepState) : Prop :=
  ∃ es s', (∀ l ∈ es, Label.wakes l = true) ∧
    ((machine Q).restrict (Regular base drift)).runFrom s es = some s' ∧
    Waking base drift woken s' ∧ s'.turnsLeft < s.turnsLeft

theorem Nearer.of_step (h : Waking base drift woken s) (hQ : Q.KeepsTop) (hwakes : l.wakes = true)
    (hclock : Clocked base drift s l) (htop : TopUnmoved s l) (hstep : s.step Q l = some s')
    (hsteady : s'.core.steady = s.core.steady) (hlt : s'.turnsLeft < s.turnsLeft) :
    Nearer Q base drift woken s := by
  refine ⟨[l], s', ?_, ?_, h.step hQ hwakes hclock htop hstep (hsteady ▸ h.shows), hlt⟩
  · intro x hx
    rw [List.mem_singleton.mp hx]
    exact hwakes
  · rw [Machine.runFrom_singleton]
    exact Machine.restrict_step.mpr ⟨⟨hclock, htop⟩, hstep⟩

theorem Waking.resume_nearer (h : Waking base drift woken s) (hQ : Q.KeepsTop)
    (hexecutors : s.executors ≠ []) : Nearer Q base drift woken s := by
  obtain ⟨i, rest, hcons⟩ := List.exists_cons_of_ne_nil hexecutors
  have hi : s.executors[0]? = some i := by rw [hcons]; rfl
  obtain ⟨⟨begun, slept, asleep⟩, d, hc, rfl, -⟩ := h.sound.released i (List.mem_of_getElem? hi)
  have hstep : s.step Q (.resume 0) = some { s with
      executors := s.executors.eraseIdx 0
      sleepers := s.sleepers.set i ⟨begun, slept ++ [d], none⟩ } := by
    simp only [SleepState.step, hi, hc]
  refine Nearer.of_step (l := .resume 0) h hQ rfl trivial trivial hstep rfl ?_
  simp only [turnsLeft, hcons, List.eraseIdx_cons_zero, List.length_cons]
  omega

theorem Waking.notify_nearer (h : Waking base drift woken s) (hQ : Q.KeepsTop)
    (hnotifies : 0 < s.core.notifies) : Nearer Q base drift woken s := by
  have hstep : s.step Q (.scheduler .notify) = some { s with core := { s.core with
      worker := s.core.worker.notify, notifies := s.core.notifies - 1 } } := by
    simp only [SleepState.step, SchedulerState.step, if_pos hnotifies, Option.map_some]
  refine Nearer.of_step (l := .scheduler .notify) h hQ rfl trivial (by rintro ⟨⟩) hstep rfl ?_
  have hturns := workerTurns_notify s.core.worker
  simp only [turnsLeft, SchedulerState.uncalled, SchedulerState.Worker.notify_inHand]
  omega

/-- A worker at the top with the lock calls it or waits for its time. -/
theorem Waking.examine_nearer (h : Waking base drift woken s) (hQ : Q.KeepsTop)
    {k : SchedulerState.Label} {e : DelayedExecutable} (now : Int)
    (hwakes : Label.wakes (.scheduler k) = true)
    (hnow : Clocked base drift s (.scheduler k)) (htop : TopUnmoved s (.scheduler k))
    (hstep : s.step Q (.scheduler k) = some { s with core := s.core.examine Q e now })
    (hand : s.core.worker.inHand = []) (hqueue : s.core.queue.top? = some e)
    (hturns : 2 ≤ workerTurns s.core.worker) : Nearer Q base drift woken s := by
  obtain ⟨hle, hnotifies, hsteady⟩ := examine_turns (Q := Q) s.core e now
  refine Nearer.of_step h hQ hwakes hnow htop hstep hsteady ?_
  have huncalled := SchedulerState.examine_uncalled (Q := Q) now hand hqueue
  simp only [turnsLeft, huncalled, hnotifies]
  omega

/-- The worker waits for the top, and its time comes. -/
theorem Waking.timeout_nearer (h : Waking base drift woken s) (hQ : Q.KeepsTop)
    {e : DelayedExecutable} {until_ : Nat} {notified : Bool}
    (hworker : s.core.worker = .timedWaiting e until_ notified)
    (hqueue : s.core.queue.top? = some e) : Nearer Q base drift woken s := by
  obtain ⟨s₁, hs₁⟩ : ∃ s₁ : SleepState, s₁ = { s with core := { s.core with
    steady := s.core.steady + (until_ - s.core.steady) } } := ⟨_, rfl⟩
  have htick : s.step Q (.scheduler (.tick (until_ - s.core.steady))) = some s₁ := hs₁ ▸ rfl
  have hpop : s₁.step Q (.scheduler (.wakeTimed true false)) =
      some { s₁ with core := s₁.core.popAndUnlock Q e } := by
    have htime : TimedOut until_ (s.core.steady + (until_ - s.core.steady)) := .of_le (by omega)
    subst hs₁
    simp only [SleepState.step, SchedulerState.step, hworker, if_true, if_pos htime,
      Option.map_some]
  have htop : TopUnmoved s₁ (.scheduler (.wakeTimed true false)) := by
    subst hs₁
    intro _ e' he'
    rw [hworker] at he'
    obtain rfl := Option.some.inj he'
    exact hqueue
  have hshows : ∃ now, Shows base drift s₁.core.steady now := by
    obtain ⟨now, hnow⟩ := h.shows
    have hbound := (h.watched.alert.timed e until_ notified hworker).1
    have hfits := h.sound.due.fits e (Topped.mem_of_top? hqueue)
    have hahead := hnow.ahead
    have hclose := hnow.close
    have hnonneg := hnow.nonneg
    have hbounded := hnow.bounded
    refine ⟨max 0 (base + s₁.core.steady), ?_, ?_, ?_, ?_⟩ <;> rw [hs₁] <;> push_cast <;> omega
  have hclock : ∀ (s : SleepState) elapsed, Clocked base drift s (.scheduler (.tick elapsed)) :=
    fun _ _ => trivial
  have hclock' : ∀ s : SleepState, Clocked base drift s (.scheduler (.wakeTimed true false)) :=
    fun _ => trivial
  have hwaking₁ := h.step hQ rfl (hclock _ _) (by rintro ⟨⟩) htick hshows
  have hwaking₂ := hwaking₁.step hQ rfl (hclock' _) htop hpop hshows
  refine ⟨[.scheduler (.tick (until_ - s.core.steady)), .scheduler (.wakeTimed true false)], _, ?_,
    ?_, hwaking₂, ?_⟩
  · intro l hl
    simp only [List.mem_cons, List.not_mem_nil, or_false] at hl
    rcases hl with rfl | rfl <;> rfl
  · refine Machine.restrict_runFrom.mpr ⟨?_, ⟨trivial, by rintro ⟨⟩⟩, ?_⟩
    · simp only [Machine.runFrom, machine, htick, hpop, Option.bind_some]
    · intro s' hs'
      obtain rfl := Option.some.inj (htick.symm.trans hs')
      exact ⟨⟨trivial, htop⟩, fun _ _ => trivial⟩
  · have hand : s.core.worker.inHand = [] := by rw [hworker]; rfl
    have huncalled : (s₁.core.popAndUnlock Q e).uncalled = s.core.uncalled := by
      subst hs₁
      exact SchedulerState.popAndUnlock_uncalled hand hqueue
    have hbefore : 1 ≤ workerTurns s.core.worker := by
      rw [hworker]
      cases notified <;> simp [workerTurns]
    have hnotifies : s₁.core.notifies = s.core.notifies := by rw [hs₁]
    have hexecutors : s₁.executors = s.executors := by rw [hs₁]
    simp only [turnsLeft, huncalled, hexecutors]
    show _ + 5 * s₁.core.notifies + 0 < _
    omega

/-- The worker has a function in its hand or one in the queue to come to. -/
theorem Waking.worker_nearer (h : Waking base drift woken s) (hQ : Q.KeepsTop)
    (huncalled : 0 < s.core.uncalled) : Nearer Q base drift woken s := by
  have halert := h.watched.alert
  have hfinds : s.core.worker.inHand = [] → ∃ e, s.core.queue.top? = some e := by
    intro hand
    rw [SchedulerState.uncalled_of_hand hand] at huncalled
    cases htop : s.core.queue.top? with
    | none => rw [Topped.eq_nil_of_top? htop] at huncalled; cases huncalled
    | some e => exact ⟨e, rfl⟩
  cases hworker : s.core.worker with
  | testActive =>
      have hstep : s.step Q (.scheduler .testActive) =
          some { s with core := { s.core with worker := .enter } } := by
        simp only [SleepState.step, SchedulerState.step, hworker, halert.isActive, if_true,
          Option.map_some]
      refine Nearer.of_step (l := .scheduler .testActive) h hQ rfl trivial (by rintro ⟨⟩) hstep rfl
        ?_
      simp [turnsLeft, SchedulerState.uncalled, hworker, workerTurns, Worker.inHand]
  | testEmpty => exact absurd hworker halert.loops.1
  | exited => exact absurd hworker halert.loops.2
  | enter =>
      obtain ⟨e, htop⟩ := hfinds (by rw [hworker]; rfl)
      obtain ⟨now, hnow⟩ := h.shows
      refine h.examine_nearer (k := .enter now) hQ now rfl hnow (by rintro ⟨⟩) ?_
        (by rw [hworker]; rfl) htop (by rw [hworker]; decide)
      simp only [SleepState.step, SchedulerState.step, hworker, if_true, htop, Option.map_some]
  | waiting notified =>
      obtain ⟨e, htop⟩ := hfinds (by rw [hworker]; rfl)
      obtain ⟨now, hnow⟩ := h.shows
      cases notified with
      | false =>
          have hqueue : s.core.queue.elems ≠ [] := List.ne_nil_of_mem (Topped.mem_of_top? htop)
          have hnotifies := halert.waiting false hworker hqueue
          exact h.notify_nearer hQ (hnotifies.resolve_left Bool.false_ne_true)
      | true =>
          refine h.examine_nearer (k := .wake false now) hQ now rfl hnow (by rintro ⟨⟩) ?_
            (by rw [hworker]; rfl) htop (by rw [hworker]; decide)
          simp only [SleepState.step, SchedulerState.step, hworker, Bool.true_or, if_true, htop,
            Option.map_some]
  | timedWaiting e until_ notified =>
      cases notified with
      | true =>
          have hstep : s.step Q (.scheduler (.wakeTimed false false)) =
              some { s with core := { s.core with worker := .testActive } } := by
            simp only [SleepState.step, SchedulerState.step, hworker, Bool.false_eq_true, if_false,
              Bool.true_or, if_true, Option.map_some]
          refine Nearer.of_step (l := .scheduler (.wakeTimed false false)) h hQ rfl trivial
            (by rintro ⟨⟩) hstep rfl ?_
          simp [turnsLeft, SchedulerState.uncalled, hworker, workerTurns, Worker.inHand]
      | false =>
          rcases (halert.timed e until_ false hworker).2 with htop | hfalse | hnotifies
          · exact h.timeout_nearer hQ hworker htop
          · cases hfalse
          · exact h.notify_nearer hQ hnotifies
  | calling e =>
      have hstep : s.step Q .call = some { s with
          core := { s.core with worker := .testActive, called := s.core.called ++ [e] }
          executors := s.executors ++ (s.closures[e.func]?).toList } := by
        simp only [SleepState.step, SchedulerState.step, hworker, Option.map_some]
      refine Nearer.of_step (l := .call) h hQ rfl trivial trivial hstep rfl ?_
      have hle : (s.closures[e.func]?).toList.length ≤ 1 := Option.length_toList_le
      simp only [turnsLeft, SchedulerState.uncalled, hworker, workerTurns, Worker.inHand,
        List.length_append, List.length_cons, List.length_nil]
      omega

theorem Waking.nearer (h : Waking base drift woken s) (hQ : Q.KeepsTop)
    (hleft : s.sleepers ≠ woken) : Nearer Q base drift woken s := by
  by_cases hexecutors : s.executors = []
  · apply h.worker_nearer hQ
    rw [Nat.pos_iff_ne_zero]
    intro hnone
    -- nothing is on its way, so nobody sleeps
    have hsum : (s.sleepers.map Sleeper.sleeps).sum = 0 := by
      rw [h.watched.counted, hnone, hexecutors]
      rfl
    apply hleft
    rw [← h.woken]
    refine ((List.map_congr_left fun c hc => ?_).trans (List.map_id' s.sleepers)).symm
    have hall := List.sum_eq_zero_iff_forall_eq_nat.mp hsum
    exact Sleeper.wake_eq_self (hall _ (List.mem_map_of_mem hc))
  · exact h.resume_nearer hQ hexecutors

/-- Every sleep can end: from every state of a run without `shutdown`, and whatever it left the
scheduler and the executors with, the sleepers can all be woken, each of them once. No coroutine
has to begin anything for that, no wait to end for no reason, and the clocks go on as they did.
As in `never_early` the timeouts found their elements on top and the times fitted. -/
theorem can_wake_all (Q : PriorityQueue DelayedExecutable.scheduledTime) (hQ : Q.KeepsTop)
    {base now : Int} {drift : Nat} {ls : List Label} {s : SleepState}
    (hrun : (machine Q).Runs ls s)
    (hclock : (machine Q).Meets (Clocked base drift) (machine Q).init ls)
    (hreads : (machine Q).Meets (ReadsTwice base drift) (machine Q).init ls)
    (htop : (machine Q).Meets TopUnmoved (machine Q).init ls)
    (hactive : s.core.isActive = true) (hnow : Shows base drift s.core.steady now) :
    ∃ es t, (∀ l ∈ es, Label.wakes l = true) ∧ (machine Q).runFrom s es = some t ∧
      (machine Q).Meets (Clocked base drift) s es ∧ (machine Q).Meets TopUnmoved s es ∧
      t.sleepers = s.sleepers.map Sleeper.wake ∧ t.misfired = false := by
  obtain ⟨hsound, hwatched⟩ := watched_runs hQ hrun hclock hreads htop
  have hwaking : Waking base drift (s.sleepers.map Sleeper.wake) s :=
    ⟨hsound, hwatched hactive, ⟨now, hnow⟩, rfl⟩
  have hreach : ((machine Q).restrict (Regular base drift)).CanReach
      (fun l => Label.wakes l = true) (fun t => t.sleepers = s.sleepers.map Sleeper.wake ∧
        t.misfired = false) s := by
    refine Machine.CanReach.of_measure turnsLeft (fun a ha hleft => ?_) hwaking
    exact ha.nearer hQ fun hsame => hleft ⟨hsame, ha.sound.unharmed⟩
  obtain ⟨es, t, hwakes, hrest, hsleepers, hmisfired⟩ := hreach
  obtain ⟨hrest, hmeets⟩ := Machine.restrict_runFrom.mp hrest
  exact ⟨es, t, hwakes, hrest, hmeets.mono fun _ _ h => h.1, hmeets.mono fun _ _ h => h.2,
    hsleepers, hmisfired⟩

/-- The worker waits for the second coroutine, a notification for the third one is on its way, and
an executor has the first. -/
def threeAsleep : List Label :=
  [.start, .start, .start, .sleep 0 10 100 100, .scheduler .notify, .scheduler .testActive,
    .scheduler (.enter 101), .sleep 1 30 101 101, .scheduler (.tick 9),
    .scheduler (.wakeTimed true false), .call, .scheduler .testActive, .scheduler (.enter 110),
    .sleep 2 5 110 110]

theorem can_wake_all_run :
    ∃ s : SleepState, (machine (.linear DelayedExecutable.scheduledTime)).Runs threeAsleep s ∧
      s.executors = [0] ∧ s.core.worker = .timedWaiting ⟨1, 131⟩ 30 false ∧
      s.core.queue.top? = some ⟨2, 115⟩ ∧
      ∃ es t, (∀ l ∈ es, Label.wakes l = true) ∧
        (machine (.linear DelayedExecutable.scheduledTime)).runFrom s es = some t ∧
        t.sleepers = [⟨0, [10], none⟩, ⟨0, [30], none⟩, ⟨0, [5], none⟩] := by
  obtain ⟨s, hrun, hexecutors, hworker, htop, hactive, hsteady, hsleepers⟩ : ∃ s : SleepState,
      (machine (.linear DelayedExecutable.scheduledTime)).Runs threeAsleep s ∧
      s.executors = [0] ∧ s.core.worker = .timedWaiting ⟨1, 131⟩ 30 false ∧
      s.core.queue.top? = some ⟨2, 115⟩ ∧ s.core.isActive = true ∧ s.core.steady = 9 ∧
      s.sleepers.map Sleeper.wake = [⟨0, [10], none⟩, ⟨0, [30], none⟩, ⟨0, [5], none⟩] :=
    ⟨_, rfl, rfl, rfl, rfl, rfl, rfl, rfl⟩
  have hclock : (machine (.linear DelayedExecutable.scheduledTime)).Meets (Clocked 100 1)
      (machine (.linear DelayedExecutable.scheduledTime)).init threeAsleep := by decide
  have hnow : Shows 100 1 s.core.steady 109 := by
    rw [hsteady]
    decide
  obtain ⟨es, t, hwakes, hrest, -, -, hwoken, -⟩ := can_wake_all _
    (PriorityQueue.linear_keepsTop _) hrun hclock (by decide) (by decide) hactive hnow
  exact ⟨s, hrun, hexecutors, hworker, htop, es, t, hwakes, hrest, hwoken.trans hsleepers⟩

end SleepState

end Npp.Task
