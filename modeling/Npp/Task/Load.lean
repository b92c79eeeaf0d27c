import Npp.Foundation.Intervals
import Npp.Foundation.Machine
import Mathlib.Algebra.Order.Field.Rat

/-!
# The load of a worker

`run` and `get_occupied_rate` keep the time that a worker of the elastic executor was busy. The
sections under `checkpoint_lock` of `run` are one step each; `get_occupied_rate` is cut at its
reads of `running_task`, which the worker stores without the lock. A reading of the clock is part
of the label, and no reading is less than the one before.
-/

namespace Npp.Task

open Npp.Foundation

def occupiedRateSamplePeriod : UInt64 := 5000

inductive AccountPhase where
  | idle
  | checkpointed
  | running
  | cleared
deriving DecidableEq, Repr

/-- Where the manager is in `get_occupied_rate`; it holds `checkpoint_lock` unless it is outside. -/
inductive RatePhase where
  | outside
  | accumulating
  | measuring
deriving DecidableEq, Repr

/-- `clock` is the last reading. `past` and `window` have the intervals that were added to
`occupied_time`, before the last reset and since; `subtractions` has the operands of each unsigned
subtraction, and `rates` what each call has returned, as a quotient. -/
structure LoadState where
  worker : AccountPhase := .idle
  manager : RatePhase := .outside
  runningTask : Bool := false
  calRateStartTime : UInt64 := 0
  occupiedTime : UInt64 := 0
  lastCheckpointTime : UInt64 := 0
  clock : UInt64 := 0
  past : List (Nat × Nat) := []
  window : List (Nat × Nat) := []
  subtractions : List (UInt64 × UInt64) := []
  rates : List Rat := []

namespace LoadState

inductive Label where
  | checkpoint (now : UInt64)
  | setRunning
  | clearRunning
  | account (now : UInt64)
  | enter
  | accumulate (now : UInt64)
  | measure (now : UInt64)
deriving DecidableEq, Repr

/-- `last_checkpoint_time = now`. -/
def checkpoint (s : LoadState) (now : UInt64) : LoadState :=
  { s with lastCheckpointTime := now, clock := now }

/-- `occupied_time += now - last_checkpoint_time`. -/
def count (s : LoadState) (now : UInt64) : LoadState :=
  { s with
    occupiedTime := s.occupiedTime + (now - s.lastCheckpointTime)
    clock := now
    window := s.window ++ [(s.lastCheckpointTime.toNat, now.toNat)]
    subtractions := s.subtractions ++ [(now, s.lastCheckpointTime)] }

def rate (s : LoadState) (dur : UInt64) : Rat :=
  if dur = 0 then (if s.runningTask then 1 else 0)
  else s.occupiedTime.toNat / dur.toNat

def reset (s : LoadState) (now : UInt64) : LoadState :=
  { s with
    occupiedTime := 0
    calRateStartTime := now
    lastCheckpointTime := now
    past := s.past ++ s.window
    window := [] }

def measure (s : LoadState) (now : UInt64) : LoadState :=
  let dur := now - s.calRateStartTime
  let s' := { s with
    clock := now
    subtractions := s.subtractions ++ [(now, s.calRateStartTime)]
    rates := s.rates ++ [s.rate dur] }
  if now - s.calRateStartTime > occupiedRateSamplePeriod then s'.reset now else s'

def step (s : LoadState) : Label → Option LoadState
  | .checkpoint now =>
      if s.worker = .idle ∧ s.manager = .outside ∧ s.clock ≤ now then
        some { s.checkpoint now with worker := .checkpointed }
      else none
  | .setRunning =>
      if s.worker = .checkpointed then some { s with worker := .running, runningTask := true }
      else none
  | .clearRunning =>
      if s.worker = .running then some { s with worker := .cleared, runningTask := false }
      else none
  | .account now =>
      if s.worker = .cleared ∧ s.manager = .outside ∧ s.clock ≤ now then
        some { s.count now with worker := .idle }
      else none
  | .enter =>
      if s.manager = .outside then
        some { s with manager := if s.runningTask then .accumulating else .measuring }
      else none
  | .accumulate now =>
      if s.manager = .accumulating ∧ s.clock ≤ now then
        some { (s.count now).checkpoint now with manager := .measuring }
      else none
  | .measure now =>
      if s.manager = .measuring ∧ s.clock ≤ now then
        some { s.measure now with manager := .outside }
      else none

def machine : Machine LoadState Label where
  init := {}
  step := step

/-! ## What is counted -/

/-- Up to here the time has been looked at: busy time is still to be counted from the checkpoint
on. -/
def mark (s : LoadState) : Nat :=
  if s.worker = .idle then s.clock.toNat else s.lastCheckpointTime.toNat

/-- Who is busy when the flag is set or the manager has found it set. -/
structure Flagged (s : LoadState) : Prop where
  running : s.runningTask = true → s.worker = .running
  accumulating : s.manager = .accumulating → s.worker ≠ .idle

/-- `occupied_time` is the length of the intervals that were counted in this window, and these stand
in a row behind those of the windows before. -/
structure Metered (s : LoadState) : Prop where
  checkpoint : s.lastCheckpointTime ≤ s.clock
  past : Chain 0 s.past s.calRateStartTime.toNat
  window : Chain s.calRateStartTime.toNat s.window s.mark
  occupied : s.occupiedTime.toNat = totalLength s.window

/-- Nothing has wrapped, and each rate was one. -/
structure Bounded (s : LoadState) : Prop where
  subtractions : ∀ p ∈ s.subtractions, p.2 ≤ p.1
  rates : ∀ r ∈ s.rates, 0 ≤ r ∧ r ≤ 1

variable {s s' : LoadState} {l : Label} {ls : List Label} {now : UInt64}

theorem Metered.mark_le (h : Metered s) : s.mark ≤ s.clock.toNat := by
  unfold mark
  split
  · exact Nat.le_refl _
  · exact UInt64.le_iff_toNat_le.mp h.checkpoint

/-- No more time was counted than there was. -/
theorem Metered.occupied_le (h : Metered s) (hnow : s.clock ≤ now) :
    s.calRateStartTime.toNat + s.occupiedTime.toNat ≤ now.toNat := by
  have hlength := h.window.totalLength_le
  have hmark := h.mark_le
  have hle := UInt64.le_iff_toNat_le.mp hnow
  rw [h.occupied]
  omega

theorem Metered.start_le (h : Metered s) (hnow : s.clock ≤ now) : s.calRateStartTime ≤ now := by
  have hle := h.occupied_le hnow
  exact UInt64.le_iff_toNat_le.mpr (by omega)

theorem mark_busy (h : s.worker ≠ .idle) : s.mark = s.lastCheckpointTime.toNat := if_neg h

theorem mark_idle (h : s.worker = .idle) : s.mark = s.clock.toNat := if_pos h

/-! ## One addition and one measurement -/

theorem count_window (h : Metered s) (hbusy : s.worker ≠ .idle) (hnow : s.clock ≤ now) :
    Chain s.calRateStartTime.toNat (s.count now).window now.toNat := by
  have hwindow := h.window
  rw [mark_busy hbusy] at hwindow
  apply hwindow.snoc
  exact UInt64.le_iff_toNat_le.mp (UInt64.le_trans h.checkpoint hnow)

/-- The sum fits, as all of it has passed since the start of the window. -/
theorem count_occupied (h : Metered s) (hbusy : s.worker ≠ .idle) (hnow : s.clock ≤ now) :
    (s.count now).occupiedTime.toNat = totalLength (s.count now).window := by
  have hle : s.lastCheckpointTime ≤ now := UInt64.le_trans h.checkpoint hnow
  have hbound := (count_window h hbusy hnow).totalLength_le
  have hlength : totalLength (s.count now).window =
      totalLength s.window + (now.toNat - s.lastCheckpointTime.toNat) := totalLength_snoc _ _
  have hfits : now.toNat < 2 ^ 64 := now.toNat_lt
  show (s.occupiedTime + (now - s.lastCheckpointTime)).toNat = _
  rw [UInt64.toNat_add, UInt64.toNat_sub_of_le _ _ hle, h.occupied, ← hlength]
  exact Nat.mod_eq_of_lt (by omega)

theorem Bounded.count (hb : Bounded s) (h : Metered s) (hnow : s.clock ≤ now) :
    Bounded (s.count now) := by
  refine ⟨?_, hb.rates⟩
  intro p hp
  rcases List.mem_append.mp hp with hold | hnew
  · exact hb.subtractions p hold
  · rw [List.mem_singleton.mp hnew]
    exact UInt64.le_trans h.checkpoint hnow

/-- The rate that is returned is one. -/
theorem rate_le_one (h : Metered s) (hnow : s.clock ≤ now) :
    0 ≤ s.rate (now - s.calRateStartTime) ∧ s.rate (now - s.calRateStartTime) ≤ 1 := by
  unfold rate
  split
  case isTrue => split <;> decide
  case isFalse hdur =>
    have hle := h.occupied_le hnow
    have hsub := UInt64.toNat_sub_of_le _ _ (h.start_le hnow)
    have hoccupied : s.occupiedTime.toNat ≤ (now - s.calRateStartTime).toNat := by
      rw [hsub]
      omega
    constructor
    · exact div_nonneg (Nat.cast_nonneg _) (Nat.cast_nonneg _)
    · apply div_le_one_of_le₀ _ (Nat.cast_nonneg _)
      exact_mod_cast hoccupied

theorem Bounded.measure (hb : Bounded s) (h : Metered s) (hnow : s.clock ≤ now) :
    Bounded (s.measure now) := by
  have hkeep : ∀ p ∈ s.subtractions ++ [(now, s.calRateStartTime)], p.2 ≤ p.1 := by
    intro p hp
    rcases List.mem_append.mp hp with hold | hnew
    · exact hb.subtractions p hold
    · rw [List.mem_singleton.mp hnew]
      exact h.start_le hnow
  have hrates : ∀ r ∈ s.rates ++ [s.rate (now - s.calRateStartTime)], 0 ≤ r ∧ r ≤ 1 := by
    intro r hr
    rcases List.mem_append.mp hr with hold | hnew
    · exact hb.rates r hold
    · rw [List.mem_singleton.mp hnew]
      exact rate_le_one h hnow
  unfold LoadState.measure
  dsimp only
  split
  · exact ⟨hkeep, hrates⟩
  · exact ⟨hkeep, hrates⟩

/-- A reset puts the start of the window behind all that was counted. -/
theorem Metered.measure (h : Metered s) (hnow : s.clock ≤ now) : Metered (s.measure now) := by
  have hclock := UInt64.le_iff_toNat_le.mp hnow
  have hmark := h.mark_le
  unfold LoadState.measure
  dsimp only
  split
  case isTrue =>
    have hall : Chain 0 (s.past ++ s.window) now.toNat :=
      (h.past.append h.window).mono (by omega)
    have hnew : mark (LoadState.reset { s with
        clock := now
        subtractions := s.subtractions ++ [(now, s.calRateStartTime)]
        rates := s.rates ++ [s.rate (now - s.calRateStartTime)] } now) = now.toNat := by
      unfold mark
      split <;> rfl
    refine ⟨UInt64.le_refl now, hall, ?_, rfl⟩
    rw [hnew]
    exact Nat.le_refl _
  case isFalse =>
    refine ⟨UInt64.le_trans h.checkpoint hnow, h.past, h.window.mono ?_, h.occupied⟩
    unfold mark
    split
    · exact hclock
    · exact Nat.le_refl _

/-! ## Runs -/

theorem measure_frame (s : LoadState) (now : UInt64) :
    (s.measure now).worker = s.worker ∧ (s.measure now).runningTask = s.runningTask := by
  unfold measure
  dsimp only
  split <;> exact ⟨rfl, rfl⟩

theorem flagged_step (h : Flagged s) (hstep : s.step l = some s') : Flagged s' := by
  cases l with
  | checkpoint now =>
      simp only [step, Option.ite_none_right_eq_some, Option.some.injEq] at hstep
      obtain ⟨⟨hidle, -, -⟩, rfl⟩ := hstep
      refine ⟨fun hset => ?_, fun _ => by rintro ⟨⟩⟩
      cases hidle.symm.trans (h.running hset)
  | setRunning =>
      simp only [step, Option.ite_none_right_eq_some, Option.some.injEq] at hstep
      obtain ⟨-, rfl⟩ := hstep
      exact ⟨fun _ => rfl, fun _ => by rintro ⟨⟩⟩
  | clearRunning =>
      simp only [step, Option.ite_none_right_eq_some, Option.some.injEq] at hstep
      obtain ⟨-, rfl⟩ := hstep
      exact ⟨by rintro ⟨⟩, fun _ => by rintro ⟨⟩⟩
  | account now =>
      simp only [step, Option.ite_none_right_eq_some, Option.some.injEq] at hstep
      obtain ⟨⟨hcleared, houtside, -⟩, rfl⟩ := hstep
      constructor
      · intro hset
        cases hcleared.symm.trans (h.running hset)
      · intro haccumulating
        cases houtside.symm.trans haccumulating
  | enter =>
      simp only [step, Option.ite_none_right_eq_some, Option.some.injEq] at hstep
      obtain ⟨-, rfl⟩ := hstep
      refine ⟨h.running, fun haccumulating hidle => ?_⟩
      cases hset : s.runningTask with
      | true => cases (h.running hset).symm.trans hidle
      | false => simp [hset] at haccumulating
  | accumulate now =>
      simp only [step, Option.ite_none_right_eq_some, Option.some.injEq] at hstep
      obtain ⟨-, rfl⟩ := hstep
      exact ⟨h.running, by rintro ⟨⟩⟩
  | measure now =>
      simp only [step, Option.ite_none_right_eq_some, Option.some.injEq] at hstep
      obtain ⟨-, rfl⟩ := hstep
      obtain ⟨hworker, hflag⟩ := measure_frame s now
      refine ⟨fun hset => ?_, by rintro ⟨⟩⟩
      rw [hflag] at hset
      exact hworker.trans (h.running hset)

/-- The flag is set or cleared while the worker is busy. -/
theorem Metered.flag (h : Metered s) (hbusy : s.worker ≠ .idle) {worker : AccountPhase}
    (hstill : worker ≠ .idle) (running : Bool) :
    Metered { s with worker := worker, runningTask := running } := by
  have hwindow := h.window
  rw [mark_busy hbusy] at hwindow
  refine ⟨h.checkpoint, h.past, ?_, h.occupied⟩
  rw [mark_busy (s := { s with worker := worker, runningTask := running }) hstill]
  exact hwindow

theorem metered_step (hflag : Flagged s) (h : Metered s) (hstep : s.step l = some s') :
    Metered s' := by
  cases l with
  | checkpoint now =>
      simp only [step, Option.ite_none_right_eq_some, Option.some.injEq] at hstep
      obtain ⟨⟨hidle, -, hnow⟩, rfl⟩ := hstep
      refine ⟨UInt64.le_refl now, h.past, ?_, h.occupied⟩
      have hwindow := h.window
      rw [mark_idle hidle] at hwindow
      exact hwindow.mono (UInt64.le_iff_toNat_le.mp hnow)
  | setRunning =>
      simp only [step, Option.ite_none_right_eq_some, Option.some.injEq] at hstep
      obtain ⟨hworker, rfl⟩ := hstep
      exact h.flag (by rw [hworker]; rintro ⟨⟩) (by rintro ⟨⟩) _
  | clearRunning =>
      simp only [step, Option.ite_none_right_eq_some, Option.some.injEq] at hstep
      obtain ⟨hworker, rfl⟩ := hstep
      exact h.flag (by rw [hworker]; rintro ⟨⟩) (by rintro ⟨⟩) _
  | account now =>
      simp only [step, Option.ite_none_right_eq_some, Option.some.injEq] at hstep
      obtain ⟨⟨hcleared, -, hnow⟩, rfl⟩ := hstep
      have hbusy : s.worker ≠ .idle := by
        rw [hcleared]
        rintro ⟨⟩
      exact ⟨UInt64.le_trans h.checkpoint hnow, h.past, count_window h hbusy hnow,
        count_occupied h hbusy hnow⟩
  | enter =>
      simp only [step, Option.ite_none_right_eq_some, Option.some.injEq] at hstep
      obtain ⟨-, rfl⟩ := hstep
      exact ⟨h.checkpoint, h.past, h.window, h.occupied⟩
  | accumulate now =>
      simp only [step, Option.ite_none_right_eq_some, Option.some.injEq] at hstep
      obtain ⟨⟨haccumulating, hnow⟩, rfl⟩ := hstep
      have hbusy : s.worker ≠ .idle := hflag.accumulating haccumulating
      refine ⟨UInt64.le_refl now, h.past, ?_, count_occupied h hbusy hnow⟩
      rw [mark_busy (s := { (s.count now).checkpoint now with manager := .measuring }) hbusy]
      exact count_window h hbusy hnow
  | measure now =>
      simp only [step, Option.ite_none_right_eq_some, Option.some.injEq] at hstep
      obtain ⟨⟨-, hnow⟩, rfl⟩ := hstep
      have hmeasure := h.measure hnow
      exact ⟨hmeasure.checkpoint, hmeasure.past, hmeasure.window, hmeasure.occupied⟩

theorem bounded_step (hb : Bounded s) (h : Metered s) (hstep : s.step l = some s') :
    Bounded s' := by
  cases l with
  | account now =>
      simp only [step, Option.ite_none_right_eq_some, Option.some.injEq] at hstep
      obtain ⟨⟨-, -, hnow⟩, rfl⟩ := hstep
      have hcount := hb.count h hnow
      exact ⟨hcount.subtractions, hcount.rates⟩
  | accumulate now =>
      simp only [step, Option.ite_none_right_eq_some, Option.some.injEq] at hstep
      obtain ⟨⟨-, hnow⟩, rfl⟩ := hstep
      have hcount := hb.count h hnow
      exact ⟨hcount.subtractions, hcount.rates⟩
  | measure now =>
      simp only [step, Option.ite_none_right_eq_some, Option.some.injEq] at hstep
      obtain ⟨⟨-, hnow⟩, rfl⟩ := hstep
      have hmeasure := hb.measure h hnow
      exact ⟨hmeasure.subtractions, hmeasure.rates⟩
  | _ =>
      simp only [step, Option.ite_none_right_eq_some, Option.some.injEq] at hstep
      obtain ⟨-, rfl⟩ := hstep
      exact ⟨hb.subtractions, hb.rates⟩

structure Sound (s : LoadState) : Prop where
  flagged : Flagged s
  metered : Metered s
  bounded : Bounded s

theorem sound_runs (hrun : machine.Runs ls s) : Sound s := by
  apply hrun.invariant (I := Sound)
  · exact ⟨⟨by rintro ⟨⟩, by rintro ⟨⟩⟩,
      ⟨UInt64.le_refl 0, Nat.le_refl 0, Nat.le_refl 0, rfl⟩,
      ⟨fun _ hp => absurd hp List.not_mem_nil, fun _ hr => absurd hr List.not_mem_nil⟩⟩
  · intro s l s' h hstep
    exact ⟨flagged_step h.flagged hstep, metered_step h.flagged h.metered hstep,
      bounded_step h.bounded h.metered hstep⟩

/-- **The account of the busy time stays within its window.** From any state that is reached on a
clock that does not go back: what is counted is the length of intervals with no millisecond in
common, no more than has passed since the start of the window; no subtraction has wrapped, and every
rate was between zero and one. -/
theorem load_within_window (hrun : machine.Runs ls s) :
    (∀ now, s.clock ≤ now →
      s.calRateStartTime ≤ now ∧ s.occupiedTime ≤ now - s.calRateStartTime) ∧
    (∀ p ∈ s.subtractions, p.2 ≤ p.1) ∧
    s.occupiedTime.toNat = totalLength s.window ∧
    (∀ ms, (s.past ++ s.window).countP (Chain.covers ms) ≤ 1) ∧
    ∀ r ∈ s.rates, 0 ≤ r ∧ r ≤ 1 := by
  obtain ⟨-, hmetered, hbounded⟩ := sound_runs hrun
  refine ⟨?_, hbounded.subtractions, hmetered.occupied, ?_, hbounded.rates⟩
  · intro now hnow
    have hstart := hmetered.start_le hnow
    refine ⟨hstart, UInt64.le_iff_toNat_le.mpr ?_⟩
    have hle := hmetered.occupied_le hnow
    rw [UInt64.toNat_sub_of_le _ _ hstart]
    omega
  · exact (hmetered.past.append hmetered.window).countP_covers_le_one

/-- The manager looks in the middle of a task that began before the window, and once more later. -/
theorem load_within_window_run :
    ∃ s, machine.Runs [.checkpoint 8000, .setRunning, .enter, .accumulate 9000, .measure 9000,
        .enter, .accumulate 9500, .measure 10000, .clearRunning, .account 10200] s ∧
      s.past = [(8000, 9000)] ∧ s.window = [(9000, 9500), (9500, 10200)] ∧
      s.occupiedTime ≤ 11000 - s.calRateStartTime := by
  have hrun : machine.Runs [.checkpoint 8000, .setRunning, .enter, .accumulate 9000,
    .measure 9000, .enter, .accumulate 9500, .measure 10000, .clearRunning, .account 10200] _ := rfl
  exact ⟨_, hrun, by decide, by decide,
    ((load_within_window hrun).1 11000 (by decide)).2⟩

end LoadState

end Npp.Task
