import Npp.Task.ChannelSystem

/-!
# The shape of a channel

Nobody waits without a reason. A reader waits only while there is no value at all, a writer only
while the buffer is full, and the buffer is never longer than its capacity. `Shaped` is the
invariant of every operation, on an open channel and on a closed one.
-/

namespace Npp.Task

open Npp.Foundation

variable {V : Type}

namespace Channel

structure Shaped (ch : Channel V) : Prop where
  bounded : ch.buffer.length ≤ sizeT ch.bufferCapacity
  readers : ch.readerList ≠ [] → ch.buffer = [] ∧ ch.writerList = []
  writers : ch.writerList ≠ [] → ch.buffer.length = sizeT ch.bufferCapacity

theorem hasRoom_iff (ch : Channel V) :
    ch.hasRoom = true ↔ ch.buffer.length < sizeT ch.bufferCapacity :=
  decide_eq_true_iff

theorem hasRoom_eq_false (ch : Channel V) :
    ch.hasRoom = false ↔ sizeT ch.bufferCapacity ≤ ch.buffer.length := by
  rw [hasRoom, decide_eq_false_iff_not, Nat.not_lt]

variable {ch ch' : Channel V}

theorem PushWriter.capacity {w : WriterAwaiter V} {route : Route V}
    (h : PushWriter ch w ch' route) : ch'.bufferCapacity = ch.bufferCapacity := by
  cases h <;> rfl

theorem PushReader.capacity {r : ReaderAwaiter} {route : Route V}
    (h : PushReader ch r ch' route) : ch'.bufferCapacity = ch.bufferCapacity := by
  cases h <;> rfl

/-- A writer that is pushed meets a reader, a free place, or a full buffer. -/
theorem Shaped.pushWriter (h : Shaped ch) {w : WriterAwaiter V} {route : Route V}
    (hpush : PushWriter ch w ch' route) : Shaped ch' := by
  cases hpush with
  | direct hreaders =>
      have hempty := h.readers (by rw [hreaders]; exact List.cons_ne_nil _ _)
      exact ⟨h.bounded, fun _ => hempty, h.writers⟩
  | toBuffer hreaders hroom =>
      have hlt := (hasRoom_iff ch).mp hroom
      refine ⟨?_, ?_, ?_⟩
      · rw [List.length_append, List.length_singleton]
        exact hlt
      · intro hwait
        exact absurd hreaders hwait
      · -- a waiting writer would mean a full buffer
        intro hwait
        have hfull := h.writers hwait
        omega
  | suspended hreaders hfull =>
      have hle := (hasRoom_eq_false ch).mp hfull
      refine ⟨h.bounded, ?_, ?_⟩
      · intro hwait
        exact absurd hreaders hwait
      · intro _
        exact Nat.le_antisymm h.bounded hle

/-- A reader that is pushed meets a value, or nobody and nothing. -/
theorem Shaped.pushReader (h : Shaped ch) {r : ReaderAwaiter} {route : Route V}
    (hpush : PushReader ch r ch' route) : Shaped ch' := by
  cases hpush with
  | @refilled v rest w ws hbuffer hwriters =>
      have hfull := h.writers (by rw [hwriters]; exact List.cons_ne_nil _ _)
      have hlength : (rest ++ [w.value]).length = ch.buffer.length := by
        rw [hbuffer, List.length_append, List.length_singleton, List.length_cons]
      refine ⟨?_, ?_, ?_⟩
      · rw [hlength]
        exact h.bounded
      · intro hwait
        have hempty := (h.readers hwait).1
        rw [hbuffer] at hempty
        cases hempty
      · intro _
        rw [hlength]
        exact hfull
  | @fromBuffer v rest hbuffer hwriters =>
      have hbounded := h.bounded
      rw [hbuffer, List.length_cons] at hbounded
      refine ⟨Nat.le_of_succ_le hbounded, ?_, ?_⟩
      · intro hwait
        have hempty := (h.readers hwait).1
        rw [hbuffer] at hempty
        cases hempty
      · intro hwait
        exact absurd hwriters hwait
  | direct hbuffer hwriters =>
      have hfull := h.writers (by rw [hwriters]; exact List.cons_ne_nil _ _)
      refine ⟨h.bounded, ?_, ?_⟩
      · intro hwait
        have hnone := (h.readers hwait).2
        rw [hwriters] at hnone
        cases hnone
      · intro _
        exact hfull
  | suspended hbuffer hwriters =>
      refine ⟨h.bounded, ?_, ?_⟩
      · intro _
        exact ⟨hbuffer, hwriters⟩
      · intro hwait
        exact absurd hwriters hwait

theorem Shaped.removeWriter (h : Shaped ch) (id : Nat) : Shaped (ch.removeWriter id) := by
  refine ⟨h.bounded, ?_, ?_⟩
  · intro hwait
    obtain ⟨hbuffer, hwriters⟩ := h.readers hwait
    refine ⟨hbuffer, ?_⟩
    show ch.writerList.filter _ = []
    rw [hwriters, List.filter_nil]
  · intro hwait
    apply h.writers
    intro hnil
    apply hwait
    show ch.writerList.filter _ = []
    rw [hnil, List.filter_nil]

theorem Shaped.removeReader (h : Shaped ch) (id : Nat) : Shaped (ch.removeReader id) := by
  refine ⟨h.bounded, ?_, h.writers⟩
  intro hwait
  apply h.readers
  intro hnil
  apply hwait
  show ch.readerList.filter _ = []
  rw [hnil, List.filter_nil]

theorem Shaped.cleanUp (ch : Channel V) : Shaped ch.cleanUp.1 :=
  ⟨Nat.zero_le _, fun hwait => absurd rfl hwait, fun hwait => absurd rfl hwait⟩

end Channel

namespace ChannelState

def Compact (capacity : Int) (s : ChannelState V) : Prop :=
  s.channel.bufferCapacity = capacity ∧ s.channel.Shaped

variable {capacity : Int} {s s' : ChannelState V}

theorem Compact.write (h : Compact capacity s) (value : V) : Compact capacity (s.write value) := by
  rcases s.write_cases value with ⟨-, hwrite⟩ | ⟨-, ch, route, hpush, hwrite⟩
  · rw [hwrite]
    exact ⟨h.1, h.2.removeWriter _⟩
  · rw [hwrite]
    exact ⟨hpush.capacity.trans h.1, h.2.pushWriter hpush⟩

theorem Compact.read (h : Compact capacity s) (pValue : Bool) :
    Compact capacity (s.read pValue) := by
  rcases s.read_cases pValue with ⟨-, hread⟩ | ⟨-, ch, route, hpush, hread⟩
  · rw [hread]
    exact ⟨h.1, h.2.removeReader _⟩
  · rw [hread]
    exact ⟨hpush.capacity.trans h.1, h.2.pushReader hpush⟩

theorem Compact.flip (h : Compact capacity s) : Compact capacity s.flip := by
  unfold ChannelState.flip
  split
  case isTrue => exact ⟨h.1, h.2.bounded, h.2.readers, h.2.writers⟩
  case isFalse => exact h

/-- The destructor of a resumed awaiter at most removes it. -/
theorem Compact.destroyed (h : Compact capacity s) (m : Resumption V) :
    (m.destroyed s.channel).bufferCapacity = capacity ∧ (m.destroyed s.channel).Shaped := by
  cases m with
  | writer w =>
      simp only [Resumption.destroyed]
      split
      · exact h
      · exact ⟨h.1, h.2.removeWriter _⟩
  | reader r v =>
      simp only [Resumption.destroyed]
      split
      · exact h
      · exact ⟨h.1, h.2.removeReader _⟩
  | readerUnsafe r =>
      simp only [Resumption.destroyed]
      split
      · exact h
      · exact ⟨h.1, h.2.removeReader _⟩

theorem Compact.step {l : Label V} (h : Compact capacity s) (hstep : s.step l = some s') :
    Compact capacity s' := by
  cases l with
  | write value => exact Option.some.inj hstep ▸ h.write value
  | read pValue => exact Option.some.inj hstep ▸ h.read pValue
  | writeAcross value => exact (writeAcross_step hstep).2 ▸ (h.write value).flip
  | readAcross pValue => exact (readAcross_step hstep).2 ▸ (h.read pValue).flip
  | removeWriter id => exact Option.some.inj hstep ▸ ⟨h.1, h.2.removeWriter id⟩
  | removeReader id => exact Option.some.inj hstep ▸ ⟨h.1, h.2.removeReader id⟩
  | close => exact Option.some.inj hstep ▸ h.flip
  | cleanUp =>
      simp only [ChannelState.step, Option.ite_none_right_eq_some, Option.some.injEq] at hstep
      obtain ⟨-, rfl⟩ := hstep
      exact ⟨h.1, Channel.Shaped.cleanUp s.channel⟩
  | deliver i =>
      obtain ⟨m, -, rfl⟩ := deliver_step hstep
      exact h.destroyed m

theorem compact_runs {ls : List (Label V)} (hrun : (machine V capacity).Runs ls s) :
    Compact capacity s := by
  refine hrun.invariant (I := Compact capacity) ?_ fun _ _ _ h hstep => h.step hstep
  exact ⟨rfl, Nat.zero_le _, fun hwait => absurd rfl hwait, fun hwait => absurd rfl hwait⟩

/-- An `int` that is not negative is the same as a `size_t`. -/
theorem sizeT_eq {n : Int} (hnonneg : 0 ≤ n) (hint : n < 2 ^ 31) : (sizeT n : Int) = n := by
  rw [sizeT, Int.emod_eq_of_lt hnonneg (by omega), Int.toNat_of_nonneg hnonneg]

/-- **Nobody waits needlessly.** In every reachable state of a channel whose capacity is an `int`
that is not negative, the buffer is no longer than the capacity, readers wait only without a value
in the buffer or with a writer, and writers wait only while the buffer is full. -/
theorem nobody_waits_needlessly (hnonneg : 0 ≤ capacity) (hint : capacity < 2 ^ 31)
    {ls : List (Label V)} (hrun : (machine V capacity).Runs ls s) :
    (s.channel.buffer.length : Int) ≤ capacity ∧
    (s.channel.readerList ≠ [] → s.channel.buffer = [] ∧ s.channel.writerList = []) ∧
    (s.channel.writerList ≠ [] → (s.channel.buffer.length : Int) = capacity) ∧
    (s.channel.writerList ≠ [] → s.channel.hasRoom = false) := by
  obtain ⟨hcapacity, hshaped⟩ := compact_runs hrun
  have hsize : (sizeT s.channel.bufferCapacity : Int) = capacity := by
    rw [hcapacity, sizeT_eq hnonneg hint]
  have hbounded := hshaped.bounded
  refine ⟨?_, hshaped.readers, ?_, ?_⟩
  · omega
  · intro hwait
    have hfull := hshaped.writers hwait
    omega
  · intro hwait
    exact (Channel.hasRoom_eq_false _).mpr (Nat.le_of_eq (hshaped.writers hwait).symm)

/-- Capacity one: a writer waits behind the buffered 7, a reader makes room for it, and another
writer waits in its place until it is removed. -/
theorem nobody_waits_needlessly_run :
    ∃ s : ChannelState Nat,
      (machine Nat 1).Runs
        [.write 7, .write 8, .read false, .write 9, .removeWriter 3] s ∧
      (s.channel.buffer.length : Int) ≤ 1 ∧ s.channel.buffer = [8] :=
  have hrun : (machine Nat 1).Runs
      [.write 7, .write 8, .read false, .write 9, .removeWriter 3] _ := rfl
  ⟨_, hrun, (nobody_waits_needlessly (by decide) (by decide) hrun).1, rfl⟩

end ChannelState

end Npp.Task
