import Npp.Task.SchedulerJoin

/-!
# Deadlines

What `execute` promises about time, before any `shutdown`: the order of `executable_queue` is that
of the true deadlines, which are sums without a bound, and a waiting worker is notified of an
element that is due before the one it waits for. `execute` reads the clock twice, for its test of
the top and for the new element.
-/

namespace Npp.Task

open Npp.Foundation
open DelayedExecutable (Queue)

namespace Worker

/-- Since it began to wait the worker was notified. -/
def notified : Worker → Bool
  | .waiting notified => notified
  | .timedWaiting _ _ notified => notified
  | _ => false

/-- The worker waits, and not for `e` or for something as early. -/
def Passes : Worker → DelayedExecutable → Prop
  | .waiting _, _ => True
  | .timedWaiting awaited _ _, e => e.scheduledTime < awaited.scheduledTime
  | _, _ => False

theorem notify_timed {w : Worker} {e : DelayedExecutable} {until_ : Nat} {notified : Bool}
    (h : w.notify = .timedWaiting e until_ notified) :
    ∃ notified', w = .timedWaiting e until_ notified' := by
  cases w with
  | timedWaiting e' until' notified' =>
      cases h
      exact ⟨_, rfl⟩
  | _ => cases h

end Worker

/-- A scheduler before any `shutdown`. `deadlines` has the true deadline of each accepted
function. -/
structure DeadlineState where
  sys : SchedulerSystem := {}
  deadlines : List Int := []

namespace DeadlineState

open SchedulerSystem (Label)

variable (Q : PriorityQueue DelayedExecutable.scheduledTime)

def step (s : DeadlineState) : Label → Option DeadlineState
  | .finish now₁ now₂ =>
      match s.sys.executing with
      | some delay =>
          (s.sys.step Q (.finish now₁ now₂)).map fun sys =>
            { sys := sys, deadlines := s.deadlines ++ [now₂ + delay] }
      | none => none
  | .other (.shutdown _) | .other .clear => none
  | l => (s.sys.step Q l).map ({ s with sys := · })

def machine : Machine DeadlineState Label where
  init := {}
  step := step Q

def readings : Label → List Int
  | .finish now₁ now₂ => [now₁, now₂]
  | .other (.enter now) | .other (.wake _ now) => [now]
  | _ => []

def queue (s : DeadlineState) : Queue := s.sys.core.queue

/-- The sum of the clock and the delay fits into `scheduled_time`. -/
def Fits (s : DeadlineState) : Label → Prop
  | .finish _ now₂ => ∀ delay ∈ s.sys.executing, IsLongLong (now₂ + delay)
  | _ => True

instance (s : DeadlineState) : ∀ l, Decidable (Fits s l)
  | .finish _ now₂ =>
      inferInstanceAs (Decidable (∀ delay ∈ s.sys.executing, IsLongLong (now₂ + delay)))
  | .begin _ | .other _ => .isTrue trivial

/-- The delay that a function is submitted with is a `long long`. -/
def Typed : Label → Prop
  | .begin delay => IsLongLong delay
  | _ => True

instance : ∀ l, Decidable (Typed l)
  | .begin delay => inferInstanceAs (Decidable (IsLongLong delay))
  | .finish _ _ | .other _ => .isTrue trivial

variable {Q} {s s' : DeadlineState} {l : Label} {ls : List Label}

/-! ## What a step does to the queue -/

/-- A function is accepted, or the scheduler goes on without a new one. -/
theorem step_cases (h : s.step Q l = some s') :
    (∃ delay now₁ now₂, l = .finish now₁ now₂ ∧ s.sys.executing = some delay ∧
      s' = { sys := ⟨s.sys.core.pushAndNotify Q delay now₁ now₂, none⟩
             deadlines := s.deadlines ++ [now₂ + delay] }) ∨
    ((∀ now₁ now₂, l ≠ .finish now₁ now₂) ∧ (∀ w, l ≠ .other (.shutdown w)) ∧
      l ≠ .other .clear ∧ s'.deadlines = s.deadlines ∧
      SchedulerSystem.Transition Q s.sys l s'.sys) := by
  unfold step at h
  split at h
  case h_1 now₁ now₂ =>
    split at h
    case h_1 delay hexecuting =>
      obtain ⟨sys, hsys, rfl⟩ := Option.map_eq_some_iff.mp h
      simp only [SchedulerSystem.step, hexecuting, Option.some.injEq] at hsys
      subst hsys
      exact Or.inl ⟨delay, now₁, now₂, rfl, hexecuting, rfl⟩
    case h_2 => cases h
  case h_2 => cases h
  case h_3 => cases h
  case h_4 hfinish hshutdown hclear =>
    obtain ⟨sys, hsys, rfl⟩ := Option.map_eq_some_iff.mp h
    exact Or.inr ⟨hfinish, hshutdown, hclear, rfl, SchedulerSystem.transition_of_step hsys⟩

/-- What the steps keep: the queue has accepted functions under their numbers, and a timed wait is
for an element that nobody else pops. -/
structure Sound (s : DeadlineState) : Prop where
  queued : ∀ e ∈ s.queue.elems, s.sys.core.accepted[e.func]? = some e
  waits : ∀ e until_ notified, s.sys.core.worker = .timedWaiting e until_ notified →
    s.queue.top? ≠ none

/-- A step that accepts nothing leaves the queue or pops from what it has seen. -/
def Popped (Q : PriorityQueue DelayedExecutable.scheduledTime) (c c' : SchedulerState) : Prop :=
  c'.accepted = c.accepted ∧
    ((c'.queue = c.queue ∧ ∀ e until_ notified, c'.worker = .timedWaiting e until_ notified →
        c.queue.top? ≠ none) ∨
      (c.queue.top? ≠ none ∧ c'.queue = Q.pop c.queue ∧ ∃ e, c'.worker = .calling e))

theorem popAndUnlock_popped {c : SchedulerState} (e : DelayedExecutable)
    (hqueue : c.queue.top? ≠ none) : Popped Q c (c.popAndUnlock Q e) :=
  ⟨rfl, Or.inr ⟨hqueue, rfl, e, rfl⟩⟩

theorem examine_popped {c : SchedulerState} {e : DelayedExecutable} (now : Int)
    (hqueue : c.queue.top? = some e) : Popped Q c (c.examine Q e now) := by
  have hsome : c.queue.top? ≠ none := hqueue ▸ Option.some_ne_none e
  rcases SchedulerSystem.examine_cases (Q := Q) c e now with ⟨until_, h⟩ | h
  · rw [h]
    exact ⟨rfl, Or.inl ⟨rfl, fun _ _ _ _ => hsome⟩⟩
  · rw [h]
    exact popAndUnlock_popped e hsome

theorem transition_popped {c c' : SchedulerSystem}
    (hwaits : ∀ e until_ notified, c.core.worker = .timedWaiting e until_ notified →
      c.core.queue.top? ≠ none)
    (hfinish : ∀ now₁ now₂, l ≠ .finish now₁ now₂) (hclear : l ≠ .other .clear)
    (h : SchedulerSystem.Transition Q c l c') : Popped Q c.core c'.core := by
  cases h with
  | begin delay free => exact ⟨rfl, Or.inl ⟨rfl, hwaits⟩⟩
  | finish delay now₁ now₂ executing => exact absurd rfl (hfinish now₁ now₂)
  | tick elapsed => exact ⟨rfl, Or.inl ⟨rfl, hwaits⟩⟩
  | shutdown waitForComplete =>
      cases waitForComplete <;> exact ⟨rfl, Or.inl ⟨rfl, hwaits⟩⟩
  | clear free clears => exact absurd rfl hclear
  | notify notifies =>
      refine ⟨rfl, Or.inl ⟨rfl, ?_⟩⟩
      intro e until_ notified hworker
      obtain ⟨notified', hw⟩ := Worker.notify_timed hworker
      exact hwaits e until_ notified' hw
  | goOn worker active => exact ⟨rfl, Or.inl ⟨rfl, by rintro _ _ _ ⟨⟩⟩⟩
  | goLook worker active => exact ⟨rfl, Or.inl ⟨rfl, by rintro _ _ _ ⟨⟩⟩⟩
  | exit worker queue => exact ⟨rfl, Or.inl ⟨rfl, by rintro _ _ _ ⟨⟩⟩⟩
  | remain worker queue => exact ⟨rfl, Or.inl ⟨rfl, by rintro _ _ _ ⟨⟩⟩⟩
  | wait now worker free queue => exact ⟨rfl, Or.inl ⟨rfl, by rintro _ _ _ ⟨⟩⟩⟩
  | examine now e worker free queue => exact examine_popped now queue
  | wakeEmpty notified spurious now worker woken free queue =>
      exact ⟨rfl, Or.inl ⟨rfl, by rintro _ _ _ ⟨⟩⟩⟩
  | wakeExamine notified spurious now e worker woken free queue => exact examine_popped now queue
  | timeout spurious e until_ notified worker free time =>
      exact popAndUnlock_popped e (hwaits e until_ notified worker)
  | rewind spurious e until_ notified worker free woken =>
      exact ⟨rfl, Or.inl ⟨rfl, by rintro _ _ _ ⟨⟩⟩⟩
  | call e worker => exact ⟨rfl, Or.inl ⟨rfl, by rintro _ _ _ ⟨⟩⟩⟩

/-- A function is accepted, or nothing comes into the queue. -/
theorem Sound.step_cases (hs : Sound s) (h : s.step Q l = some s') :
    (∃ delay now₁ now₂, l = .finish now₁ now₂ ∧ s.sys.executing = some delay ∧
      s' = { sys := ⟨s.sys.core.pushAndNotify Q delay now₁ now₂, none⟩
             deadlines := s.deadlines ++ [now₂ + delay] }) ∨
    ((∀ now₁ now₂, l ≠ .finish now₁ now₂) ∧ s'.deadlines = s.deadlines ∧
      Popped Q s.sys.core s'.sys.core ∧ SchedulerSystem.Transition Q s.sys l s'.sys) := by
  rcases DeadlineState.step_cases h with hfinish | ⟨hfinish, -, hclear, hdeadlines, htrans⟩
  · exact Or.inl hfinish
  · exact Or.inr ⟨hfinish, hdeadlines, transition_popped hs.waits hfinish hclear htrans, htrans⟩

theorem Popped.mem {c c' : SchedulerState} (h : Popped Q c c') {e : DelayedExecutable}
    (he : e ∈ c'.queue.elems) : e ∈ c.queue.elems := by
  rcases h.2 with ⟨hqueue, -⟩ | ⟨hsome, hqueue, -⟩
  · exact hqueue ▸ he
  · rw [hqueue] at he
    exact Q.mem_of_mem_pop hsome he

theorem sound_step (hs : Sound s) (h : s.step Q l = some s') : Sound s' := by
  rcases hs.step_cases h with ⟨delay, now₁, now₂, rfl, -, rfl⟩ | ⟨-, -, hpopped, -⟩
  · constructor
    · intro e he
      rcases Q.mem_push.mp he with rfl | he
      · exact List.getElem?_concat_length
      · have hold := hs.queued e he
        obtain ⟨hlt, -⟩ := List.getElem?_eq_some_iff.mp hold
        exact (List.getElem?_append_left hlt).trans hold
    · intro _ _ _ _
      exact Q.push_top?_ne_none _ _
  · constructor
    · intro e he
      rw [hpopped.1]
      exact hs.queued e (hpopped.mem he)
    · intro e until_ notified hworker
      rcases hpopped.2 with ⟨hqueue, hwaits⟩ | ⟨-, -, e', hcalling⟩
      · show s'.sys.core.queue.top? ≠ none
        rw [hqueue]
        exact hwaits e until_ notified hworker
      · cases hcalling.symm.trans hworker

theorem sound_init : Sound (machine Q).init :=
  ⟨fun _ he => absurd he List.not_mem_nil, by rintro _ _ _ ⟨⟩⟩

/-! ## The order of the true deadlines -/

def Exact (s : DeadlineState) : Prop :=
  s.sys.core.accepted.map (·.scheduledTime) = s.deadlines

/-- No function in the queue has an earlier true deadline than the one on top. -/
def Ordered (s : DeadlineState) : Prop :=
  ∀ top ∈ s.queue.top?, ∀ e ∈ s.queue.elems, ∃ d d', s.deadlines[top.func]? = some d ∧
    s.deadlines[e.func]? = some d' ∧ d ≤ d'

theorem Exact.deadline (hexact : Exact s) (hs : Sound s) {e : DelayedExecutable}
    (he : e ∈ s.queue.elems) : s.deadlines[e.func]? = some e.scheduledTime := by
  rw [← hexact, List.getElem?_map, hs.queued e he]
  rfl

theorem Exact.ordered (hexact : Exact s) (hs : Sound s) : Ordered s := by
  intro top htop e he
  have hmem : top ∈ s.queue.elems := Topped.mem_of_top? htop
  exact ⟨_, _, hexact.deadline hs hmem, hexact.deadline hs he, Topped.top?_le htop he⟩

/-- One addition keeps the times exact when its sum fits, and only then. -/
theorem exact_step_iff (hexact : Exact s) (hs : Sound s) (h : s.step Q l = some s') :
    Exact s' ↔ Fits s l := by
  rcases hs.step_cases h with ⟨delay, now₁, now₂, rfl, hexecuting, rfl⟩ |
    ⟨hfinish, hdeadlines, hpopped, -⟩
  · have hpush : Exact { sys := ⟨s.sys.core.pushAndNotify Q delay now₁ now₂, none⟩
                         deadlines := s.deadlines ++ [now₂ + delay] } ↔
        longLong (now₂ + delay) = now₂ + delay := by
      show (s.sys.core.accepted ++ [_]).map _ = _ ↔ _
      rw [List.map_append, hexact]
      simp [DelayedExecutable.create]
    rw [hpush, longLong_eq_iff]
    simp [Fits, hexecuting]
  · have hkeep : Exact s' := by
      unfold Exact
      rw [hpopped.1, hdeadlines]
      exact hexact
    have hfits : Fits s l := by
      cases l with
      | finish now₁ now₂ => exact absurd rfl (hfinish now₁ now₂)
      | begin delay => trivial
      | other k => trivial
    exact iff_of_true hkeep hfits

/-! ## Notifications -/

/-- An element that the waiting worker passes over comes with a notification, in the past or in an
`execute` in progress. -/
def Noticed (c : SchedulerState) : Prop :=
  ∀ e ∈ c.queue.elems, c.worker.Passes e → c.worker.notified = true ∨ 0 < c.notifies

theorem Noticed.of_passes {c : SchedulerState} (h : ∀ e ∈ c.queue.elems, ¬ c.worker.Passes e) :
    Noticed c :=
  fun e he hpasses => absurd hpasses (h e he)

theorem noticed_notify {c : SchedulerState} :
    Noticed { c with worker := c.worker.notify, notifies := c.notifies - 1 } := by
  intro e _ hpasses
  cases hworker : c.worker with
  | waiting notified => exact Or.inl (by simp [Worker.notified, Worker.notify])
  | timedWaiting awaited until_ notified => exact Or.inl (by simp [Worker.notified, Worker.notify])
  | _ =>
      simp only [hworker, Worker.notify] at hpasses
      exact hpasses.elim

theorem popAndUnlock_noticed (c : SchedulerState) (e : DelayedExecutable) :
    Noticed (c.popAndUnlock Q e) :=
  .of_passes fun _ _ hpasses => hpasses

/-- The worker begins to wait for the top, which nothing precedes. -/
theorem examine_noticed {c : SchedulerState} {top : DelayedExecutable} (now : Int)
    (htop : c.queue.top? = some top) : Noticed (c.examine Q top now) := by
  rcases SchedulerSystem.examine_cases (Q := Q) c top now with ⟨until_, h⟩ | h
  · rw [h]
    apply Noticed.of_passes
    intro e he hpasses
    exact absurd (Topped.top?_le htop he) (Int.not_le.mpr hpasses)
  · rw [h]
    exact popAndUnlock_noticed c top

theorem transition_noticed {c c' : SchedulerSystem} (hc : Noticed c.core)
    (hfinish : ∀ now₁ now₂, l ≠ .finish now₁ now₂) (hshutdown : ∀ w, l ≠ .other (.shutdown w))
    (h : SchedulerSystem.Transition Q c l c') : Noticed c'.core := by
  cases h with
  | begin delay free => exact hc
  | finish delay now₁ now₂ executing => exact absurd rfl (hfinish now₁ now₂)
  | tick elapsed => exact hc
  | shutdown waitForComplete => exact absurd rfl (hshutdown waitForComplete)
  | clear free clears => exact .of_passes fun _ he => absurd he List.not_mem_nil
  | notify notifies => exact noticed_notify
  | goOn worker active => exact .of_passes fun _ _ hpasses => hpasses
  | goLook worker active => exact .of_passes fun _ _ hpasses => hpasses
  | exit worker queue => exact .of_passes fun _ _ hpasses => hpasses
  | remain worker queue => exact .of_passes fun _ _ hpasses => hpasses
  | wait now worker free queue =>
      apply Noticed.of_passes
      intro e he
      rw [Topped.eq_nil_of_top? queue] at he
      exact absurd he List.not_mem_nil
  | examine now e worker free queue => exact examine_noticed now queue
  | wakeEmpty notified spurious now worker woken free queue =>
      exact .of_passes fun _ _ hpasses => hpasses
  | wakeExamine notified spurious now e worker woken free queue => exact examine_noticed now queue
  | timeout spurious e until_ notified worker free time => exact popAndUnlock_noticed c.core e
  | rewind spurious e until_ notified worker free woken =>
      exact .of_passes fun _ _ hpasses => hpasses
  | call e worker => exact .of_passes fun _ _ hpasses => hpasses

/-- What the past readings of the clock say about the delays. -/
structure Timely (past : List Int) (s : DeadlineState) : Prop where
  executing : ∀ delay ∈ s.sys.executing, 0 ≤ delay ∧ delay < 2 ^ 63
  queued : ∀ e ∈ s.queue.elems, ∃ now ∈ past, e.scheduledTime < now + 2 ^ 63

/-- A new element is due before the top, by more than it takes to read the clock twice. -/
theorem needNotify_of_earlier {past : List Int} {delay now₁ now₂ : Int} {top : DelayedExecutable}
    (hs : Timely past s) (hexecuting : s.sys.executing = some delay)
    (htop : s.queue.top? = some top) (hpast : ∀ now ∈ past, now ≤ now₁) (hclock : now₁ ≤ now₂)
    (hlt : now₂ + delay < top.scheduledTime) : top.delay now₁ > delay := by
  have hdelay := hs.executing delay hexecuting
  obtain ⟨now, hnow, hbound⟩ := hs.queued top (Topped.mem_of_top? htop)
  have hle : now ≤ now₁ := hpast now hnow
  have hfits : IsLongLong (top.scheduledTime - now₁) := ⟨by omega, by omega⟩
  show longLong (top.scheduledTime - now₁) > delay
  rw [longLong_eq_iff.mpr hfits]
  omega

theorem pushAndNotify_noticed {past : List Int} {delay now₁ now₂ : Int} (hs : Timely past s)
    (hnoticed : Noticed s.sys.core) (hexecuting : s.sys.executing = some delay)
    (hpast : ∀ now ∈ past, now ≤ now₁) (hclock : now₁ ≤ now₂)
    (hfits : IsLongLong (now₂ + delay)) :
    Noticed (s.sys.core.pushAndNotify Q delay now₁ now₂) := by
  intro e he hpasses
  have hmore := (SchedulerSystem.pushAndNotify_notifies (Q := Q) s.sys.core delay now₁ now₂).1
  have hold : ∀ e ∈ s.sys.core.queue.elems, s.sys.core.worker.Passes e →
      s.sys.core.worker.notified = true ∨
        0 < (s.sys.core.pushAndNotify Q delay now₁ now₂).notifies :=
    fun e he hpasses => (hnoticed e he hpasses).imp_right fun h => Nat.lt_of_lt_of_le h hmore
  rcases Q.mem_push.mp he with rfl | he
  · cases htop : s.sys.core.queue.top? with
    | none =>
        exact Or.inr ((SchedulerSystem.pushAndNotify_notifies _ _ _ _).2 htop)
    | some top =>
        by_cases hpassesTop : s.sys.core.worker.Passes top
        · exact hold top (Topped.mem_of_top? htop) hpassesTop
        · -- the worker waits for the top or for something earlier
          cases hworker : s.sys.core.worker with
          | timedWaiting awaited until_ notified =>
              have hlt : longLong (now₂ + delay) < awaited.scheduledTime := by
                change s.sys.core.worker.Passes _ at hpasses
                rw [hworker] at hpasses
                exact hpasses
              have hge : awaited.scheduledTime ≤ top.scheduledTime := by
                rw [hworker] at hpassesTop
                exact Int.not_lt.mp hpassesTop
              rw [longLong_eq_iff.mpr hfits] at hlt
              have hneed : top.delay now₁ > delay :=
                needNotify_of_earlier hs hexecuting htop hpast hclock (by omega)
              right
              simp [SchedulerState.pushAndNotify, htop, hneed]
          | waiting notified =>
              rw [hworker] at hpassesTop
              exact absurd trivial hpassesTop
          | _ =>
              change s.sys.core.worker.Passes _ at hpasses
              rw [hworker] at hpasses
              exact hpasses.elim
  · exact hold e he hpasses

theorem timely_begin {c c' : SchedulerSystem}
    (hc : ∀ delay ∈ c.executing, 0 ≤ delay ∧ delay < 2 ^ 63)
    (hfinish : ∀ now₁ now₂, l ≠ .finish now₁ now₂) (htyped : Typed l)
    (h : SchedulerSystem.Transition Q c l c') :
    ∀ delay ∈ c'.executing, 0 ≤ delay ∧ delay < 2 ^ 63 := by
  cases h with
  | begin delay free =>
      intro d hd
      obtain ⟨-, rfl⟩ : c.core.isActive = true ∧ (if delay < 0 then 0 else delay) = d := by
        simpa using hd
      split
      · exact ⟨Int.le_refl 0, by decide⟩
      · exact ⟨by omega, htyped.2⟩
  | finish delay now₁ now₂ executing => exact absurd rfl (hfinish now₁ now₂)
  | _ => exact hc

theorem timely_step {past : List Int} (hs : Sound s) (ht : Timely past s) (htyped : Typed l)
    (hfits : Fits s l) (h : s.step Q l = some s') : Timely (past ++ readings l) s' := by
  rcases hs.step_cases h with ⟨delay, now₁, now₂, rfl, hexecuting, rfl⟩ |
    ⟨hfinish, -, hpopped, htrans⟩
  · constructor
    · rintro _ ⟨⟩
    · intro e he
      rcases Q.mem_push.mp he with rfl | he
      · have hsum : longLong (now₂ + delay) = now₂ + delay :=
          longLong_eq_iff.mpr (hfits delay hexecuting)
        have hdelay := ht.executing delay hexecuting
        refine ⟨now₂, List.mem_append_right past (List.mem_cons_of_mem _ List.mem_cons_self), ?_⟩
        show longLong (now₂ + delay) < now₂ + 2 ^ 63
        omega
      · obtain ⟨now, hnow, hlt⟩ := ht.queued e he
        exact ⟨now, List.mem_append_left _ hnow, hlt⟩
  · constructor
    · exact timely_begin ht.executing hfinish htyped htrans
    · intro e he
      obtain ⟨now, hnow, hlt⟩ := ht.queued e (hpopped.mem he)
      exact ⟨now, List.mem_append_left _ hnow, hlt⟩

theorem noticed_step {past : List Int} (ht : Timely past s) (hnoticed : Noticed s.sys.core)
    (hclock : (past ++ readings l).Pairwise (· ≤ ·)) (hfits : Fits s l)
    (h : s.step Q l = some s') : Noticed s'.sys.core := by
  rcases DeadlineState.step_cases h with ⟨delay, now₁, now₂, rfl, hexecuting, rfl⟩ |
    ⟨hfinish, hshutdown, -, -, htrans⟩
  · obtain ⟨-, hnow, hpast⟩ := List.pairwise_append.mp hclock
    have hle : now₁ ≤ now₂ := List.rel_of_pairwise_cons hnow List.mem_cons_self
    have hbefore : ∀ now ∈ past, now ≤ now₁ := fun now hmem =>
      hpast now hmem now₁ List.mem_cons_self
    exact pushAndNotify_noticed ht hnoticed hexecuting hbefore hle (hfits delay hexecuting)
  · exact transition_noticed hnoticed hfinish hshutdown htrans

/-- What a run on a clock that does not go back keeps. -/
structure Kept (ls : List Label) (s : DeadlineState) : Prop where
  sound : Sound s
  timely : Timely (ls.flatMap readings) s
  noticed : Noticed s.sys.core

theorem kept_runs (hrun : (machine Q).Runs ls s) (hclock : (ls.flatMap readings).Pairwise (· ≤ ·))
    (htyped : ∀ l ∈ ls, Typed l) (hfits : (machine Q).Meets Fits (machine Q).init ls) :
    Kept ls s := by
  revert hclock htyped hfits
  refine hrun.induction (P := fun ls s => (ls.flatMap readings).Pairwise (· ≤ ·) →
    (∀ l ∈ ls, Typed l) → (machine Q).Meets Fits (machine Q).init ls → Kept ls s) ?_ ?_
  · intro _ _ _
    refine ⟨sound_init, ⟨?_, ?_⟩, ?_⟩
    · rintro _ ⟨⟩
    · exact fun _ he => absurd he List.not_mem_nil
    · exact .of_passes fun _ _ hpasses => hpasses
  · intro es a l a' ha ih hstep hclock htyped hfits
    rw [List.flatMap_append, List.flatMap_singleton] at hclock
    obtain ⟨hmeets, hfit⟩ := (Machine.meets_snoc ha).mp hfits
    have hkept := ih (List.pairwise_append.mp hclock).1
      (fun l hl => htyped l (List.mem_append_left _ hl)) hmeets
    have hlast : Typed l := htyped l (List.mem_append_right es List.mem_cons_self)
    refine ⟨sound_step hkept.sound hstep, ?_, noticed_step hkept.timely hkept.noticed hclock hfit
      hstep⟩
    rw [List.flatMap_append, List.flatMap_singleton]
    exact timely_step hkept.sound hkept.timely hlast hfit hstep

end DeadlineState

/-! ## The results -/

/-- **No earlier deadline is missed**: whenever the worker waits and the queue has an element that
is due before the one it waits for, or any element where it waits for none, then the worker was
notified since it began to wait, or an `execute` in progress is still to notify it. -/
theorem DeadlineState.noticed_of_nondecreasing (Q : PriorityQueue DelayedExecutable.scheduledTime)
    {ls : List SchedulerSystem.Label} {s : DeadlineState} (hrun : (machine Q).Runs ls s)
    (hclock : (ls.flatMap readings).Pairwise (· ≤ ·)) (htyped : ∀ l ∈ ls, Typed l)
    (hfits : (machine Q).Meets Fits (machine Q).init ls) : Noticed s.sys.core :=
  (kept_runs hrun hclock htyped hfits).noticed

/-- The worker waits for the tenth millisecond when a function comes that is due at the sixth. -/
theorem DeadlineState.noticed_of_nondecreasing_run :
    ∃ s : DeadlineState, (machine (.linear DelayedExecutable.scheduledTime)).Runs
      [.begin 10, .finish 0 0, .other .notify, .other .testActive, .other (.enter 0), .begin 5,
        .finish 1 1] s ∧
      s.sys.core.worker = .timedWaiting ⟨0, 10⟩ 10 false ∧
      s.sys.core.queue.top? = some ⟨1, 6⟩ ∧ Noticed s.sys.core := by
  have hrun : (machine (.linear DelayedExecutable.scheduledTime)).Runs
    [.begin 10, .finish 0 0, .other .notify, .other .testActive, .other (.enter 0), .begin 5,
      .finish 1 1] _ := rfl
  exact ⟨_, hrun, rfl, rfl, noticed_of_nondecreasing _ hrun (by decide) (by decide) (by decide)⟩

/-- **The order of the queue is that of the true deadlines**, and no addition wraps, exactly when
each clock reading and the delay that is added to it have a sum that fits. -/
theorem DeadlineState.fits_iff (Q : PriorityQueue DelayedExecutable.scheduledTime)
    {ls : List SchedulerSystem.Label} {s : DeadlineState} (hrun : (machine Q).Runs ls s) :
    (machine Q).Meets Fits (machine Q).init ls ↔
      ∀ pre t, pre <+: ls → (machine Q).Runs pre t → Exact t ∧ Ordered t := by
  apply hrun.meets_iff_of_invariant (I := Exact) sound_init rfl
  · exact fun _ _ _ hs hstep => sound_step hs hstep
  · exact fun _ _ _ hs hexact hstep => exact_step_iff hexact hs hstep
  · exact fun _ hs => ⟨fun h => h.1, fun hexact => ⟨hexact, hexact.ordered hs⟩⟩

/-- A function that is due after all others is behind them. -/
theorem DeadlineState.fits_iff_run :
    ∃ s : DeadlineState, (machine (.linear DelayedExecutable.scheduledTime)).Runs
      [.begin (2 ^ 62), .finish 1 1, .begin 5, .finish 2 2] s ∧ Exact s ∧ Ordered s := by
  have hrun : (machine (.linear DelayedExecutable.scheduledTime)).Runs
    [.begin (2 ^ 62), .finish 1 1, .begin 5, .finish 2 2] _ := rfl
  exact ⟨_, hrun, (fits_iff _ hrun).mp (by decide) _ _ List.prefix_rfl hrun⟩

/-- The longest delay wraps into the past: the sleeper is on top of a function that is due at the
sixth millisecond, and it is the sleeper that the worker waits for. -/
theorem DeadlineState.not_ordered :
    ∃ s : DeadlineState, (machine (.linear DelayedExecutable.scheduledTime)).Runs
      [.begin (2 ^ 63 - 1), .finish 1 1, .begin 5, .finish 1 1, .other .testActive,
        .other (.enter 1)] s ∧
      IsLongLong (2 ^ 63 - 1) ∧ s.deadlines = [2 ^ 63, 6] ∧
      s.queue.top? = some ⟨0, - 2 ^ 63⟩ ∧
      s.sys.core.worker = .timedWaiting ⟨0, - 2 ^ 63⟩ (2 ^ 63 - 1) false ∧
      ¬ Exact s ∧ ¬ Ordered s := by
  refine ⟨_, rfl, by decide, by decide, by decide, by decide, by unfold Exact; decide, ?_⟩
  intro hordered
  obtain ⟨d, d', hd, hd', hle⟩ := hordered ⟨0, - 2 ^ 63⟩ rfl ⟨1, 6⟩ (by decide)
  cases hd
  cases hd'
  exact absurd hle (by decide)

end Npp.Task
