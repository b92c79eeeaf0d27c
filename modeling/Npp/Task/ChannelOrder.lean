import Npp.Task.ChannelFifo
import Npp.Task.ChannelClose

/-!
# Order and conservation across a close

The FIFO law of the open channel, carried over the whole life of a channel. A flip of the flag
changes no queue, so until `clean_up` the closed channel is still the exchange that it was; what
`clean_up` finds is dropped, and nothing is taken in after it. A channel whose awaiters are never
removed pairs the `k`-th read with the `k`-th write.
-/

namespace Npp.Task

open Npp.Foundation

variable {V : Type}

namespace ChannelState

variable {s s' : ChannelState V}

/-- What arrived and stayed, in order: assigned, waiting, or dropped by `clean_up`. -/
structure Conserves (s : ChannelState V) (lost : List V) (left : List Nat) : Prop where
  values : s.assigned.map Prod.snd ++ s.channel.buffer ++ s.channel.writerList.map (·.value) ++
    lost = (s.writes.filter (·.1 ∉ s.withdrawnWriters)).map Prod.snd
  readers : s.assigned.map Prod.fst ++ s.channel.readerList.map (·.id) ++ left =
    s.reads.filter (· ∉ s.withdrawnReaders)

theorem Implements.conserves {x : Exchange Nat V} (h : Implements s x) : Conserves s [] [] := by
  obtain ⟨pre, hoffers, hpre⟩ := h.offers
  constructor
  · have hvalues := congrArg (List.map Prod.snd) h.balanced.values
    rw [h.offered, h.revoked, hoffers] at hvalues
    rw [← hvalues, ← h.paired, ← hpre]
    simp [offerOf, Function.comp_def]
  · have htakers := h.balanced.takers
    rw [h.asked, h.departed, h.takers] at htakers
    rw [← htakers, ← h.paired]
    simp [Function.comp_def]

/-! ## The channel before its flag was flipped -/

/-- The state with the flag as it was, and no message on its way. -/
def reopened (s : ChannelState V) : ChannelState V :=
  { s with channel := { s.channel with isActive := true }, closing := false, messages := [] }

theorem Implements.quiet {x : Exchange Nat V} (h : Implements s x) :
    Implements { s with messages := [] } x :=
  ⟨h.balanced, h.isOpen, h.notClosing, fun _ hm => absurd hm List.not_mem_nil, h.takers, h.offers,
    h.full, h.offered, h.asked, h.revoked, h.departed, h.paired, h.offered_lt, h.asked_lt⟩

/-- An awaiter that is turned away uses up its number. -/
theorem Implements.skip {x : Exchange Nat V} (h : Implements s x) :
    Implements { s with next := s.next + 1 } x :=
  ⟨h.balanced, h.isOpen, h.notClosing, h.safe, h.takers, h.offers, h.full, h.offered, h.asked,
    h.revoked, h.departed, h.paired, fun i hi => Nat.lt_succ_of_lt (h.offered_lt i hi),
    fun t ht => Nat.lt_succ_of_lt (h.asked_lt t ht)⟩

theorem reopened_of_open (hopen : s.channel.isActive = true) :
    s.reopened = { s with closing := false, messages := [] } := by
  have hsame : { s.channel with isActive := true } = s.channel := by
    rw [← hopen]
  rw [reopened, hsame]

theorem reopened_flip (s : ChannelState V) : s.flip.reopened = s.reopened := by
  unfold flip
  split
  case isTrue => rfl
  case isFalse => rfl

theorem reopened_write (hopen : s.channel.isActive = true) (value : V) :
    (s.write value).reopened = { s.reopened.write value with messages := [] } := by
  have hactive : (s.write value).channel.isActive = true := by
    rcases s.write_cases value with ⟨hclosed, -⟩ | ⟨-, ch, route, hpush, hwrite⟩
    · cases hopen.symm.trans hclosed
    · rw [hwrite]
      exact hpush.isActive.trans hopen
  rw [reopened_of_open hactive, reopened_of_open hopen]
  simp only [write, Channel.tryPushWriter, Channel.checkClosed, hopen, if_true, Except.map, follow]

theorem reopened_read (hopen : s.channel.isActive = true) (pValue : Bool) :
    (s.read pValue).reopened = { s.reopened.read pValue with messages := [] } := by
  have hactive : (s.read pValue).channel.isActive = true := by
    rcases s.read_cases pValue with ⟨hclosed, -⟩ | ⟨-, ch, route, hpush, hread⟩
    · cases hopen.symm.trans hclosed
    · rw [hread]
      exact hpush.isActive.trans hopen
  rw [reopened_of_open hactive, reopened_of_open hopen]
  simp only [read, Channel.tryPushReader, Channel.checkClosed, hopen, if_true, Except.map, follow]

/-! ## The whole life of a channel -/

/-- The invariant: up to `clean_up` the exchange behind the channel is balanced, and after it
nothing changes any more. -/
structure Accounted (s : ChannelState V) : Prop where
  tidy : Tidy s
  before : s.cleaned = false → ∃ x, Implements s.reopened x
  after : s.cleaned = true → ∃ lost left, Conserves s lost left

theorem Accounted.conserves (h : Accounted s) :
    ∃ lost left, Conserves s lost left ∧ (s.cleaned = false → lost = [] ∧ left = []) := by
  cases hcleaned : s.cleaned with
  | false =>
      obtain ⟨x, hx⟩ := h.before hcleaned
      exact ⟨[], [], ⟨hx.conserves.values, hx.conserves.readers⟩, fun _ => ⟨rfl, rfl⟩⟩
  | true =>
      obtain ⟨lost, left, hlaw⟩ := h.after hcleaned
      exact ⟨lost, left, hlaw, fun hfalse => nomatch hfalse⟩

theorem Tidy.closed_of_cleaned (h : Tidy s) (hcleaned : s.cleaned = true) :
    s.channel.isActive = false :=
  (h.cleaned hcleaned).1

theorem write_cleaned (s : ChannelState V) (value : V) : (s.write value).cleaned = s.cleaned := by
  rcases s.write_cases value with ⟨-, hwrite⟩ | ⟨-, ch, route, -, hwrite⟩
  · rw [hwrite]
  · rw [hwrite]
    rfl

theorem read_cleaned (s : ChannelState V) (pValue : Bool) :
    (s.read pValue).cleaned = s.cleaned := by
  rcases s.read_cases pValue with ⟨-, hread⟩ | ⟨-, ch, route, -, hread⟩
  · rw [hread]
  · rw [hread]
    rfl

/-- A push on a closed channel. -/
theorem Accounted.reject (h : Accounted s) : Accounted { s with next := s.next + 1 } := by
  refine ⟨h.tidy.reject, ?_, ?_⟩
  · intro hcleaned
    obtain ⟨x, hx⟩ := h.before hcleaned
    exact ⟨x, hx.skip⟩
  · intro hcleaned
    obtain ⟨lost, left, hlaw⟩ := h.after hcleaned
    exact ⟨lost, left, hlaw.values, hlaw.readers⟩

theorem Accounted.write (h : Accounted s) (value : V) : Accounted (s.write value) := by
  rcases s.write_cases value with ⟨-, hwrite⟩ | ⟨hopen, -⟩
  · have hfresh := Channel.removeWriter_fresh h.tidy.next_notMem_waiting
    rw [hwrite, hfresh]
    exact h.reject
  · refine ⟨h.tidy.write value, ?_, ?_⟩
    · intro hcleaned
      obtain ⟨x, hx⟩ := h.before ((write_cleaned s value).symm.trans hcleaned)
      rw [reopened_write hopen]
      exact ⟨_, (write_implements hx value).quiet⟩
    · intro hcleaned
      have hclosed := h.tidy.closed_of_cleaned ((write_cleaned s value).symm.trans hcleaned)
      cases hopen.symm.trans hclosed

theorem Accounted.read (h : Accounted s) (pValue : Bool) : Accounted (s.read pValue) := by
  rcases s.read_cases pValue with ⟨-, hread⟩ | ⟨hopen, -⟩
  · have hfresh := Channel.removeReader_fresh h.tidy.next_notMem_waiting
    rw [hread, hfresh]
    exact h.reject
  · refine ⟨h.tidy.read pValue, ?_, ?_⟩
    · intro hcleaned
      obtain ⟨x, hx⟩ := h.before ((read_cleaned s pValue).symm.trans hcleaned)
      rw [reopened_read hopen]
      exact ⟨_, (read_implements hx pValue).quiet⟩
    · intro hcleaned
      have hclosed := h.tidy.closed_of_cleaned ((read_cleaned s pValue).symm.trans hcleaned)
      cases hopen.symm.trans hclosed

theorem Accounted.flip (h : Accounted s) : Accounted s.flip := by
  refine ⟨h.tidy.flip, ?_, ?_⟩
  · intro hcleaned
    rw [reopened_flip]
    apply h.before
    rcases s.flip_cases with hflip | ⟨-, hflip⟩ <;> rw [hflip] at hcleaned <;> exact hcleaned
  · intro hcleaned
    rcases s.flip_cases with hflip | ⟨hopen, hflip⟩
    · rw [hflip] at hcleaned ⊢
      exact h.after hcleaned
    · rw [hflip] at hcleaned
      cases hopen.symm.trans (h.tidy.closed_of_cleaned hcleaned)

theorem Accounted.withdrawWriter (h : Accounted s) (id : Nat) :
    Accounted (s.withdrawWriter id) := by
  refine ⟨h.tidy.withdrawWriter id, ?_, ?_⟩
  · intro hcleaned
    obtain ⟨x, hx⟩ := h.before hcleaned
    obtain ⟨-, y, -, hy⟩ := withdrawWriter_implements hx id
    exact ⟨y, hy⟩
  · intro hcleaned
    have hnone := (h.tidy.cleaned hcleaned).2.1
    have habsent : id ∉ s.channel.writerList.map (·.id) := by
      rw [(List.append_eq_nil_iff.mp hnone).1]
      exact List.not_mem_nil
    rw [withdrawWriter_absent habsent]
    exact h.after hcleaned

theorem Accounted.withdrawReader (h : Accounted s) (id : Nat) :
    Accounted (s.withdrawReader id) := by
  refine ⟨h.tidy.withdrawReader id, ?_, ?_⟩
  · intro hcleaned
    obtain ⟨x, hx⟩ := h.before hcleaned
    obtain ⟨-, y, -, hy⟩ := withdrawReader_implements hx id
    exact ⟨y, hy⟩
  · intro hcleaned
    have hnone := (h.tidy.cleaned hcleaned).2.1
    have habsent : id ∉ s.channel.readerList.map (·.id) := by
      rw [(List.append_eq_nil_iff.mp hnone).2]
      exact List.not_mem_nil
    rw [withdrawReader_absent habsent]
    exact h.after hcleaned

/-- `clean_up` assigns nothing. -/
theorem cleanUp_assigned (s : ChannelState V) : s.cleanUp.assigned = s.assigned := by
  apply assigned_unchanged
  simp [Channel.cleanUp, List.filterMap_append, Resumption.assignment]

/-- What `clean_up` finds is lost. -/
theorem Conserves.cleanUp {lost : List V} {left : List Nat} (h : Conserves s lost left) :
    Conserves s.cleanUp (s.channel.buffer ++ s.channel.writerList.map (·.value) ++ lost)
      (s.channel.readerList.map (·.id) ++ left) := by
  constructor
  · change s.cleanUp.assigned.map Prod.snd ++ [] ++ [] ++ _ = _
    rw [cleanUp_assigned]
    refine Eq.trans ?_ h.values
    simp
  · change s.cleanUp.assigned.map Prod.fst ++ [] ++ _ = _
    rw [cleanUp_assigned]
    refine Eq.trans ?_ h.readers
    simp

theorem Accounted.cleanUp (h : Accounted s) (hclosing : s.closing = true) :
    Accounted s.cleanUp := by
  obtain ⟨lost, left, hlaw, -⟩ := h.conserves
  exact ⟨h.tidy.cleanUp hclosing, (fun hcleaned => nomatch hcleaned),
    fun _ => ⟨_, _, hlaw.cleanUp⟩⟩

theorem Accounted.deliver (h : Accounted s) {i : Nat} {m : Resumption V}
    (hm : s.messages[i]? = some m) : Accounted (s.deliver i m) := by
  refine ⟨h.tidy.deliver hm, ?_, ?_⟩
  · intro hcleaned
    obtain ⟨x, hx⟩ := h.before hcleaned
    rw [h.tidy.deliver_eq hm]
    exact ⟨x, hx.balanced, rfl, rfl, hx.safe, hx.takers, hx.offers, hx.full, hx.offered, hx.asked,
      hx.revoked, hx.departed, hx.paired, hx.offered_lt, hx.asked_lt⟩
  · intro hcleaned
    obtain ⟨lost, left, hlaw⟩ := h.after hcleaned
    rw [h.tidy.deliver_eq hm]
    exact ⟨lost, left, hlaw.values, hlaw.readers⟩

theorem Accounted.step {l : Label V} (h : Accounted s) (hstep : s.step l = some s') :
    Accounted s' := by
  cases l with
  | write value => exact Option.some.inj hstep ▸ h.write value
  | read pValue => exact Option.some.inj hstep ▸ h.read pValue
  | writeAcross value => exact (writeAcross_step hstep).2 ▸ (h.write value).flip
  | readAcross pValue => exact (readAcross_step hstep).2 ▸ (h.read pValue).flip
  | removeWriter id => exact Option.some.inj hstep ▸ h.withdrawWriter id
  | removeReader id => exact Option.some.inj hstep ▸ h.withdrawReader id
  | close => exact Option.some.inj hstep ▸ h.flip
  | cleanUp =>
      simp only [ChannelState.step, Option.ite_none_right_eq_some, Option.some.injEq] at hstep
      exact hstep.2 ▸ h.cleanUp hstep.1
  | deliver i =>
      obtain ⟨m, hm, rfl⟩ := deliver_step hstep
      exact h.deliver hm

theorem accounted_runs {capacity : Int} {ls : List (Label V)}
    (hrun : (machine V capacity).Runs ls s) : Accounted s := by
  refine hrun.invariant ?_ fun _ _ _ h hstep => h.step hstep
  obtain ⟨x, hx⟩ := implements_of_open (rfl : (machine V capacity).Runs [] _)
    fun _ hl => absurd hl List.not_mem_nil
  exact ⟨tidy_init capacity, fun _ => ⟨x, hx.quiet⟩, fun hcleaned => nomatch hcleaned⟩

/-- A read that returns gives the value that its reader was assigned. -/
theorem Tidy.returned_assigned (h : Tidy s) {e : Resumption V × Ending V} (he : e ∈ s.ended)
    {v : V} {stored : Option V} (hread : e.2 = .read (.returned (v, stored))) :
    (e.1.id, v) ∈ s.assigned := by
  have hdispatched := h.mem_dispatched.mpr (Or.inr (List.mem_map_of_mem he))
  refine List.mem_filterMap.mpr ⟨e.1, hdispatched, ?_⟩
  rcases h.ended e he with ⟨-, hsuccess⟩ | ⟨-, hfailure⟩
  · rw [hread] at hsuccess
    cases hm : e.1 with
    | writer w =>
        rw [hm] at hsuccess
        cases hsuccess
    | reader r value =>
        rw [hm] at hsuccess
        cases hsuccess
        rfl
    | readerUnsafe r =>
        rw [hm] at hsuccess
        cases hsuccess
  · have hreturned := e.1.failure_isReturned
    rw [← hfailure, hread] at hreturned
    cases hreturned

/-- **Conservation.** In every run, whenever and however often the channel is closed: the values
assigned to readers, then the buffer, then the values of the waiting writers, then what `clean_up`
dropped are the values taken in, in order, less those of writers removed while they waited; the
readers served, then the waiting ones, then those that `clean_up` sent away are the readers taken
in, in order, less those removed while they waited. Nothing is dropped before `clean_up`, and a
read that returns gives the value that its reader was assigned. -/
theorem conserved (capacity : Int) {ls : List (Label V)}
    (hrun : (machine V capacity).Runs ls s) :
    ∃ lost left,
      s.assigned.map Prod.snd ++ s.channel.buffer ++ s.channel.writerList.map (·.value) ++ lost =
        (s.writes.filter (·.1 ∉ s.withdrawnWriters)).map Prod.snd ∧
      s.assigned.map Prod.fst ++ s.channel.readerList.map (·.id) ++ left =
        s.reads.filter (· ∉ s.withdrawnReaders) ∧
      (s.cleaned = false → lost = [] ∧ left = []) ∧
      ∀ e ∈ s.ended, ∀ v stored, e.2 = .read (.returned (v, stored)) →
        (e.1.id, v) ∈ s.assigned := by
  have h := accounted_runs hrun
  obtain ⟨lost, left, hlaw, hbefore⟩ := h.conserves
  exact ⟨lost, left, hlaw.values, hlaw.readers, hbefore,
    fun e he v stored hread => h.tidy.returned_assigned he hread⟩

/-- Capacity one: 7 is read, 8 is buffered and 9 waits when the flag flips inside the push of 9;
`clean_up` drops both. -/
theorem conserved_run :
    ∃ s : ChannelState Nat,
      (machine Nat 1).Runs
        [.write 7, .read false, .deliver 1, .write 8, .writeAcross 9, .write 10, .cleanUp] s ∧
      s.assigned = [(1, 7)] ∧ s.cleaned = true ∧
      ∃ lost left, s.assigned.map Prod.snd ++ s.channel.buffer ++
          s.channel.writerList.map (·.value) ++ lost =
        (s.writes.filter (·.1 ∉ s.withdrawnWriters)).map Prod.snd ∧
        s.assigned.map Prod.fst ++ s.channel.readerList.map (·.id) ++ left =
          s.reads.filter (· ∉ s.withdrawnReaders) := by
  have hrun : (machine Nat 1).Runs
      [.write 7, .read false, .deliver 1, .write 8, .writeAcross 9, .write 10, .cleanUp] _ := rfl
  obtain ⟨lost, left, hvalues, hreaders, -, -⟩ := conserved 1 hrun
  exact ⟨_, hrun, rfl, rfl, lost, left, hvalues, hreaders⟩

/-! ## A channel that is only read and written -/

/-- The invariant while nobody closes the channel or removes a waiting awaiter. -/
structure Conveys (s : ChannelState V) : Prop where
  fifo : ∃ x, Implements s x
  kept : s.withdrawn = []

/-- The `k`-th read has the value of the `k`-th write. -/
theorem Conveys.assigned (h : Conveys s) : s.assigned = s.reads.zip (s.writes.map Prod.snd) := by
  obtain ⟨x, hx⟩ := h.fifo
  obtain ⟨hwriters, hreaders⟩ := List.append_eq_nil_iff.mp h.kept
  have hpaired := hx.balanced.paired_eq_zip (hx.revoked.trans hwriters)
    (hx.departed.trans hreaders)
  rw [← hx.paired, hpaired, hx.asked, hx.offered, List.zip_map_right]
  rfl

theorem conveys_init (capacity : Int) : Conveys (machine V capacity).init := by
  obtain ⟨x, hx⟩ := implements_of_open (rfl : (machine V capacity).Runs [] _)
    fun _ hl => absurd hl List.not_mem_nil
  exact ⟨⟨x, hx⟩, rfl⟩

theorem Conveys.write (h : Conveys s) (value : V) : Conveys (s.write value) := by
  obtain ⟨x, hx⟩ := h.fifo
  exact ⟨⟨_, write_implements hx value⟩, (s.write_withdrawn value).trans h.kept⟩

theorem Conveys.read (h : Conveys s) (pValue : Bool) : Conveys (s.read pValue) := by
  obtain ⟨x, hx⟩ := h.fifo
  exact ⟨⟨_, read_implements hx pValue⟩, (s.read_withdrawn pValue).trans h.kept⟩

theorem Conveys.deliver (h : Conveys s) {i : Nat} {m : Resumption V}
    (hm : s.messages[i]? = some m) : Conveys (s.deliver i m) := by
  obtain ⟨x, hx⟩ := h.fifo
  exact ⟨⟨x, deliver_implements hx hm⟩, h.kept⟩

/-- What a write enters on an open channel. -/
theorem Conveys.write_writes (h : Conveys s) (value : V) :
    (s.write value).writes = s.writes ++ [(s.next, value)] := by
  obtain ⟨x, hx⟩ := h.fifo
  rcases s.write_cases value with ⟨hclosed, -⟩ | ⟨-, ch, route, -, hwrite⟩
  · cases hx.isOpen.symm.trans hclosed
  · rw [hwrite]

theorem read_writes (s : ChannelState V) (pValue : Bool) : (s.read pValue).writes = s.writes := by
  rcases s.read_cases pValue with ⟨-, hread⟩ | ⟨-, ch, route, -, hread⟩
  · rw [hread]
  · rw [hread]
    rfl

end ChannelState

end Npp.Task
