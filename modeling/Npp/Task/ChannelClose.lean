import Npp.Task.ChannelAccount

/-!
# Closing a channel

What `close` does to the awaiters. Nobody is stranded or resumed twice
(`resumed_exactly_once`). A reader and a writer that were matched directly may however end
differently: each decides in its own `before_resume`, and the flag may flip between the two.
`handoff_agrees_iff` says that nothing else can go wrong.
-/

namespace Npp.Task

open Npp.Foundation

variable {V : Type}

namespace ChannelState

/-- The removal of an awaiter that is destroyed while it waits. -/
def Label.removes : Label V → Bool
  | .removeWriter _ | .removeReader _ => true
  | _ => false

def Label.closes : Label V → Bool
  | .writeAcross _ | .readAcross _ | .close => true
  | _ => false

/-! ## Exactly one resumption -/

theorem flip_cases (s : ChannelState V) :
    s.flip = s ∨ (s.channel.isActive = true ∧
      s.flip = { s with channel := s.channel.deactivate, closing := true }) := by
  unfold flip
  split
  case isTrue hopen => exact Or.inr ⟨hopen, rfl⟩
  case isFalse => exact Or.inl rfl

theorem flip_withdrawn (s : ChannelState V) : s.flip.withdrawn = s.withdrawn := by
  rcases s.flip_cases with hflip | ⟨-, hflip⟩ <;> simp only [hflip, withdrawn]

theorem write_withdrawn (s : ChannelState V) (value : V) :
    (s.write value).withdrawn = s.withdrawn := by
  rcases s.write_cases value with ⟨-, hwrite⟩ | ⟨-, ch, route, -, hwrite⟩ <;> rw [hwrite] <;> rfl

theorem read_withdrawn (s : ChannelState V) (pValue : Bool) :
    (s.read pValue).withdrawn = s.withdrawn := by
  rcases s.read_cases pValue with ⟨-, hread⟩ | ⟨-, ch, route, -, hread⟩ <;> rw [hread] <;> rfl

/-- Only a removal withdraws an awaiter. -/
theorem withdrawn_step {s s' : ChannelState V} {l : Label V} (hl : l.removes = false)
    (hstep : s.step l = some s') : s'.withdrawn = s.withdrawn := by
  cases l with
  | write value => exact Option.some.inj hstep ▸ s.write_withdrawn value
  | read pValue => exact Option.some.inj hstep ▸ s.read_withdrawn pValue
  | writeAcross value =>
      rw [(writeAcross_step hstep).2, flip_withdrawn, write_withdrawn]
  | readAcross pValue =>
      rw [(readAcross_step hstep).2, flip_withdrawn, read_withdrawn]
  | removeWriter id => simp [Label.removes] at hl
  | removeReader id => simp [Label.removes] at hl
  | close => exact Option.some.inj hstep ▸ s.flip_withdrawn
  | cleanUp =>
      simp only [step, Option.ite_none_right_eq_some, Option.some.injEq] at hstep
      obtain ⟨-, rfl⟩ := hstep
      rfl
  | deliver i =>
      obtain ⟨m, -, rfl⟩ := deliver_step hstep
      rfl

theorem withdrawn_runs {capacity : Int} {ls : List (Label V)} {s : ChannelState V}
    (hrun : (machine V capacity).Runs ls s) (hkeep : ∀ l ∈ ls, l.removes = false) :
    s.withdrawn = [] :=
  hrun.guarded (I := fun s => s.withdrawn = []) (C := fun _ l => l.removes = false) rfl
    (fun _ _ _ h hl hstep => (withdrawn_step hl hstep).trans h) (Machine.meets_of_forall hkeep _)

/-- A pushed awaiter that was not withdrawn waits once and was never dispatched, or waits no
more and was dispatched once. -/
theorem Tidy.waits_or_dispatched {s : ChannelState V} (h : Tidy s) {id : Nat}
    (hpushed : id ∈ s.pushed) (hkept : id ∉ s.withdrawn) :
    (s.channel.waiting.count id = 1 ∧ (s.dispatched.map (·.id)).count id = 0) ∨
    (s.channel.waiting.count id = 0 ∧ (s.dispatched.map (·.id)).count id = 1) := by
  have hone : s.pushed.count id = 1 := List.count_eq_one_of_mem h.distinct hpushed
  have hnone : s.withdrawn.count id = 0 := List.count_eq_zero.mpr hkept
  have htotal := (List.perm_iff_count.mp h.accounted) id
  rw [List.count_append, List.count_append] at htotal
  omega

theorem Tidy.not_emptyResult {s : ChannelState V} (h : Tidy s) :
    ∀ e ∈ s.ended, e.2 ≠ .read .emptyResult := by
  intro e he heq
  rcases h.ended e he with ⟨hsafe, hend⟩ | ⟨-, hend⟩
  · cases hm : e.1 <;> simp_all [Resumption.success, Resumption.isUnsafe]
  · cases hm : e.1 <;> simp_all [Resumption.failure]

/-- **Exactly one resumption.** In every reachable state a pushed awaiter that was not withdrawn
waits once with no resumption, or waits nowhere with exactly one, and without removals nobody is
withdrawn. Every resumption is pending or has run. After `clean_up` the lists and the buffer stay
empty, whomever it resumes ends with `ChannelClosedException`, now or once its message runs, and
no reader ever reads an empty `_result`. -/
theorem resumed_exactly_once (capacity : Int) {ls : List (Label V)} {s : ChannelState V}
    (hrun : (machine V capacity).Runs ls s) :
    (∀ id ∈ s.pushed, id ∉ s.withdrawn →
      (s.channel.waiting.count id = 1 ∧ (s.dispatched.map (·.id)).count id = 0) ∨
      (s.channel.waiting.count id = 0 ∧ (s.dispatched.map (·.id)).count id = 1)) ∧
    ((∀ l ∈ ls, l.removes = false) → s.withdrawn = []) ∧
    (s.messages ++ s.ended.map Prod.fst).Perm s.dispatched ∧
    (s.cleaned = true →
      s.channel.readerList = [] ∧ s.channel.writerList = [] ∧ s.channel.buffer = []) ∧
    (∀ e ∈ s.ended, e.1.id ∈ s.cleanedUp → e.2 = e.1.failure) ∧
    (∀ m ∈ s.messages, m.id ∈ s.cleanedUp → m.ending s.channel = m.failure) ∧
    (∀ e ∈ s.ended, e.2 ≠ .read .emptyResult) := by
  have h := tidy_runs hrun
  refine ⟨fun id hpushed hkept => h.waits_or_dispatched hpushed hkept, withdrawn_runs hrun,
    h.pending, ?_, fun e he hid => (h.cleanedUp _ hid).2 e he rfl,
    fun m _ hid => Resumption.ending_closed (h.cleanedUp _ hid).1 m, h.not_emptyResult⟩
  intro hcleaned
  obtain ⟨-, hwaiting, hbuffer⟩ := h.cleaned hcleaned
  simp only [Channel.waiting, List.append_eq_nil_iff, List.map_eq_nil_iff] at hwaiting
  exact ⟨hwaiting.2, hwaiting.1, hbuffer⟩

/-- Two waiting readers, one of them served; the flag flips inside the next push, and `clean_up`
resumes the other reader, which fails. -/
theorem resumed_exactly_once_run :
    ∃ s : ChannelState Nat,
      (machine Nat 0).Runs
        [.read false, .read true, .write 7, .deliver 0, .writeAcross 8, .read false, .cleanUp,
          .deliver 0] s ∧
      (∀ id ∈ s.pushed, id ∉ s.withdrawn →
        (s.channel.waiting.count id = 1 ∧ (s.dispatched.map (·.id)).count id = 0) ∨
        (s.channel.waiting.count id = 0 ∧ (s.dispatched.map (·.id)).count id = 1)) ∧
      s.pushed = [2, 3, 0, 1] :=
  have hrun : (machine Nat 0).Runs
      [.read false, .read true, .write 7, .deliver 0, .writeAcross 8, .read false, .cleanUp,
        .deliver 0] _ := rfl
  ⟨_, hrun, (resumed_exactly_once 0 hrun).1, rfl⟩

/-! ## Agreement of a direct hand-over -/

def finished (s : ChannelState V) (id : Nat) : Prop := ∃ e ∈ s.ended, e.1.id = id

instance (s : ChannelState V) (id : Nat) : Decidable (s.finished id) :=
  inferInstanceAs (Decidable (∃ e ∈ s.ended, e.1.id = id))

def returned (s : ChannelState V) (id : Nat) : Prop :=
  ∃ e ∈ s.ended, e.1.id = id ∧ e.2.isReturned = true

def received (s : ChannelState V) (id : Nat) (value : V) : Prop :=
  ∃ e ∈ s.ended, e.1.id = id ∧ ∃ stored, e.2 = .read (.returned (value, stored))

def completed (s : ChannelState V) (id : Nat) : Prop :=
  ∃ e ∈ s.ended, e.1.id = id ∧ e.2 = .wrote (.returned ())

/-- Once both sides of a direct hand-over have ended, the reader got the value exactly when the
writer completed. -/
def HandoffAgrees (s : ChannelState V) : Prop :=
  ∀ p ∈ s.matched, s.finished p.1.id → s.finished p.2.id →
    (s.received p.1.id p.2.value ↔ s.completed p.2.id)

/-- A closing step finds no direct hand-over with one side ended and the other pending. -/
def ClosesBetween (s : ChannelState V) (l : Label V) : Prop :=
  l.closes = true → s.channel.isActive = true →
    ∀ p ∈ s.matched, (s.finished p.1.id ↔ s.finished p.2.id)

instance (s : ChannelState V) (l : Label V) : Decidable (s.ClosesBetween l) :=
  inferInstanceAs (Decidable (l.closes = true → s.channel.isActive = true →
    ∀ p ∈ s.matched, (s.finished p.1.id ↔ s.finished p.2.id)))

theorem returned.finished {s : ChannelState V} {id : Nat} (h : s.returned id) : s.finished id :=
  let ⟨e, he, hid, _⟩ := h
  ⟨e, he, hid⟩

/-- While the channel is open whatever has ended has returned. -/
theorem Tidy.returned_of_finished {s : ChannelState V} (h : Tidy s)
    (hopen : s.channel.isActive = true) {id : Nat} (hfin : s.finished id) : s.returned id := by
  obtain ⟨e, he, hid⟩ := hfin
  rcases h.ended e he with ⟨hsafe, hend⟩ | ⟨hclosed, -⟩
  · exact ⟨e, he, hid, hend ▸ Resumption.success_isReturned hsafe⟩
  · exact absurd hopen (by simp [hclosed])

/-- A resumption that returned has succeeded. -/
theorem Tidy.eq_success {s : ChannelState V} (h : Tidy s) {e : Resumption V × Ending V}
    (he : e ∈ s.ended) (hret : e.2.isReturned = true) : e.2 = e.1.success := by
  rcases h.ended e he with ⟨-, hend⟩ | ⟨-, hend⟩
  · exact hend
  · rw [hend, Resumption.failure_isReturned] at hret
    exact absurd hret Bool.false_ne_true

/-- What ended is the dispatched resumption of its awaiter. -/
theorem Tidy.ended_eq {s : ChannelState V} (h : Tidy s) {e : Resumption V × Ending V}
    {m : Resumption V} (he : e ∈ s.ended) (hm : m ∈ s.dispatched) (hid : e.1.id = m.id) :
    e.1 = m :=
  h.eq_of_id_eq (h.mem_dispatched.mpr (Or.inr (List.mem_map_of_mem he))) hm hid

/-- A matched reader received the writer's value exactly when its `co_await` returned. -/
theorem Tidy.received_iff {s : ChannelState V} (h : Tidy s)
    {p : ReaderAwaiter × WriterAwaiter V} (hp : p ∈ s.matched) :
    s.received p.1.id p.2.value ↔ s.returned p.1.id := by
  constructor
  · rintro ⟨e, he, hid, stored, hend⟩
    exact ⟨e, he, hid, by rw [hend]; rfl⟩
  · rintro ⟨e, he, hid, hret⟩
    have hm : e.1 = .reader p.1 p.2.value := h.ended_eq he (h.matched p hp).1 hid
    refine ⟨e, he, hid, if p.1.pValue then some p.2.value else none, ?_⟩
    rw [h.eq_success he hret, hm]
    rfl

theorem Tidy.completed_iff {s : ChannelState V} (h : Tidy s)
    {p : ReaderAwaiter × WriterAwaiter V} (hp : p ∈ s.matched) :
    s.completed p.2.id ↔ s.returned p.2.id := by
  constructor
  · rintro ⟨e, he, hid, hend⟩
    exact ⟨e, he, hid, by rw [hend]; rfl⟩
  · rintro ⟨e, he, hid, hret⟩
    have hm : e.1 = .writer p.2 := h.ended_eq he (h.matched p hp).2 hid
    refine ⟨e, he, hid, ?_⟩
    rw [h.eq_success he hret, hm]
    rfl

/-- In a tidy state agreement is about who returned. -/
theorem Tidy.handoffAgrees_iff {s : ChannelState V} (h : Tidy s) :
    s.HandoffAgrees ↔ ∀ p ∈ s.matched, s.finished p.1.id → s.finished p.2.id →
      (s.returned p.1.id ↔ s.returned p.2.id) := by
  unfold HandoffAgrees
  refine forall_congr' fun p => forall_congr' fun hp => ?_
  rw [h.received_iff hp, h.completed_iff hp]

/-! ### Before and after the flip -/

/-- After the flip the matched pairs are final, and nobody returns any more. -/
theorem closed_step {s s' : ChannelState V} {l : Label V} (h : Tidy s)
    (hclosed : s.channel.isActive = false) (hstep : s.step l = some s') :
    s'.channel.isActive = false ∧ s'.matched = s.matched ∧
      ∀ id, s'.returned id ↔ s.returned id := by
  have hwrite : ∀ value, s.write value =
      { s with channel := s.channel.removeWriter s.next, next := s.next + 1 } := fun value =>
    ((s.write_cases value).resolve_right (by simp [hclosed])).2
  have hread : ∀ pValue, s.read pValue =
      { s with channel := s.channel.removeReader s.next, next := s.next + 1 } := fun pValue =>
    ((s.read_cases pValue).resolve_right (by simp [hclosed])).2
  cases l with
  | write value =>
      rw [← Option.some.inj hstep, hwrite]
      exact ⟨hclosed, rfl, fun _ => Iff.rfl⟩
  | read pValue =>
      rw [← Option.some.inj hstep, hread]
      exact ⟨hclosed, rfl, fun _ => Iff.rfl⟩
  | writeAcross value => exact absurd (writeAcross_step hstep).1 (by simp [hclosed])
  | readAcross pValue => exact absurd (readAcross_step hstep).1 (by simp [hclosed])
  | removeWriter id =>
      rw [← Option.some.inj hstep]
      exact ⟨hclosed, rfl, fun _ => Iff.rfl⟩
  | removeReader id =>
      rw [← Option.some.inj hstep]
      exact ⟨hclosed, rfl, fun _ => Iff.rfl⟩
  | close =>
      have hsame : s.flip = s := s.flip_cases.resolve_right (by simp [hclosed])
      rw [← Option.some.inj hstep, hsame]
      exact ⟨hclosed, rfl, fun _ => Iff.rfl⟩
  | cleanUp =>
      simp only [step, Option.ite_none_right_eq_some, Option.some.injEq] at hstep
      obtain ⟨-, rfl⟩ := hstep
      exact ⟨hclosed, rfl, fun _ => Iff.rfl⟩
  | deliver i =>
      obtain ⟨m, hm, rfl⟩ := deliver_step hstep
      rw [h.deliver_eq hm]
      refine ⟨hclosed, rfl, fun id => ?_⟩
      constructor
      · rintro ⟨e, he, hid, hret⟩
        rcases List.mem_append.mp he with hold | hnew
        · exact ⟨e, hold, hid, hret⟩
        · obtain rfl := List.mem_singleton.mp hnew
          rw [Resumption.ending_closed hclosed, Resumption.failure_isReturned] at hret
          exact absurd hret Bool.false_ne_true
      · rintro ⟨e, he, hid, hret⟩
        exact ⟨e, List.mem_append_left _ he, hid, hret⟩

/-- The pairs that a push adds have not ended. -/
theorem Tidy.new_pair_unfinished {s : ChannelState V} (h : Tidy s) {route : Route V}
    (hnodup : ((s.dispatched ++ route.resumptions).map (·.id)).Nodup) :
    ∀ p ∈ s.matched ++ route.matched,
      p ∈ s.matched ∨ (¬ s.finished p.1.id ∧ ¬ s.finished p.2.id) := by
  intro p hp
  rcases List.mem_append.mp hp with hold | hnew
  · exact Or.inl hold
  have hfresh : ∀ m ∈ route.resumptions, ¬ s.finished m.id := by
    rintro m hm ⟨e, he, hid⟩
    have hold : e.1 ∈ s.dispatched := h.mem_dispatched.mpr (Or.inr (List.mem_map_of_mem he))
    rw [List.map_append, List.nodup_append] at hnodup
    exact hnodup.2.2 e.1.id (List.mem_map_of_mem hold) m.id (List.mem_map_of_mem hm) hid
  have hmem := route.matched_resumptions p hnew
  exact Or.inr ⟨hfresh _ hmem.1, hfresh _ hmem.2⟩

/-- The flip keeps everything but the flag. -/
theorem flip_open {s : ChannelState V} (hopen : s.channel.isActive = true) :
    s.flip = { s with channel := s.channel.deactivate, closing := true } := by
  rw [flip, if_pos hopen]

/-- A step that does not close the channel leaves it open. -/
theorem open_step {s s' : ChannelState V} {l : Label V} (h : Tidy s)
    (hopen : s.channel.isActive = true) (hl : l.closes = false) (hstep : s.step l = some s') :
    s'.channel.isActive = true := by
  cases l with
  | write value =>
      obtain ⟨-, ch, route, hpush, hwrite⟩ := (s.write_cases value).resolve_left (by simp [hopen])
      rw [← Option.some.inj hstep, hwrite]
      exact hpush.isActive.trans hopen
  | read pValue =>
      obtain ⟨-, ch, route, hpush, hread⟩ := (s.read_cases pValue).resolve_left (by simp [hopen])
      rw [← Option.some.inj hstep, hread]
      exact hpush.isActive.trans hopen
  | writeAcross value => simp [Label.closes] at hl
  | readAcross pValue => simp [Label.closes] at hl
  | removeWriter id => exact Option.some.inj hstep ▸ hopen
  | removeReader id => exact Option.some.inj hstep ▸ hopen
  | close => simp [Label.closes] at hl
  | cleanUp =>
      simp only [step, Option.ite_none_right_eq_some] at hstep
      exact absurd (h.closing hstep.1) (by simp [hopen])
  | deliver i =>
      obtain ⟨m, hm, rfl⟩ := deliver_step hstep
      rw [h.deliver_eq hm]
      exact hopen

/-- A step that closes an open channel ends nobody's `co_await`; a pair it adds has not ended. -/
theorem closing_step {s s' : ChannelState V} {l : Label V} (h : Tidy s)
    (hopen : s.channel.isActive = true) (hl : l.closes = true) (hstep : s.step l = some s') :
    s'.channel.isActive = false ∧ s'.ended = s.ended ∧ s.matched ⊆ s'.matched ∧
      ∀ p ∈ s'.matched, p ∈ s.matched ∨ (¬ s.finished p.1.id ∧ ¬ s.finished p.2.id) := by
  cases l with
  | writeAcross value =>
      obtain ⟨-, ch, route, hpush, hwrite⟩ := (s.write_cases value).resolve_left (by simp [hopen])
      -- the flip follows the push, whose pair is too new to have ended
      have hnodup := (hwrite ▸ h.write value).dispatched_nodup
      have hactive : (s.write value).channel.isActive = true := by
        rw [hwrite]
        exact hpush.isActive.trans hopen
      rw [(writeAcross_step hstep).2, flip_open hactive, hwrite]
      exact ⟨rfl, rfl, List.subset_append_left _ _, h.new_pair_unfinished hnodup⟩
  | readAcross pValue =>
      obtain ⟨-, ch, route, hpush, hread⟩ := (s.read_cases pValue).resolve_left (by simp [hopen])
      have hnodup := (hread ▸ h.read pValue).dispatched_nodup
      have hactive : (s.read pValue).channel.isActive = true := by
        rw [hread]
        exact hpush.isActive.trans hopen
      rw [(readAcross_step hstep).2, flip_open hactive, hread]
      exact ⟨rfl, rfl, List.subset_append_left _ _, h.new_pair_unfinished hnodup⟩
  | close =>
      rw [← Option.some.inj hstep, flip_open hopen]
      exact ⟨rfl, rfl, fun _ hp => hp, fun p hp => Or.inl hp⟩
  | write value => simp [Label.closes] at hl
  | read pValue => simp [Label.closes] at hl
  | removeWriter id => simp [Label.closes] at hl
  | removeReader id => simp [Label.closes] at hl
  | cleanUp => simp [Label.closes] at hl
  | deliver i => simp [Label.closes] at hl

theorem returned_congr {s s' : ChannelState V} (h : s'.ended = s.ended) (id : Nat) :
    s'.returned id ↔ s.returned id := by
  unfold returned
  rw [h]

/-- Once the channel is closed, both sides of a direct hand-over have returned or neither has. -/
def Uniform (s : ChannelState V) : Prop :=
  s.channel.isActive = false → ∀ p ∈ s.matched, (s.returned p.1.id ↔ s.returned p.2.id)

theorem uniform_step {s s' : ChannelState V} {l : Label V} (h : Tidy s) (hu : Uniform s)
    (hbetween : s.ClosesBetween l) (hstep : s.step l = some s') : Uniform s' := by
  intro hclosed' p hp
  cases hactive : s.channel.isActive with
  | false =>
      obtain ⟨-, hmatched, hreturned⟩ := closed_step h hactive hstep
      rw [hreturned, hreturned]
      exact hu hactive p (hmatched ▸ hp)
  | true =>
      -- this step flips the flag; what ended before it has returned
      have hl : l.closes = true := by
        by_contra hl
        rw [Bool.not_eq_true] at hl
        exact absurd (open_step h hactive hl hstep) (by simp [hclosed'])
      obtain ⟨-, hended, -, hpairs⟩ := closing_step h hactive hl hstep
      rw [returned_congr hended, returned_congr hended]
      have hfin : ∀ id, s.returned id ↔ s.finished id := fun id =>
        ⟨returned.finished, h.returned_of_finished hactive⟩
      rw [hfin, hfin]
      rcases hpairs p hp with hold | ⟨hreader, hwriter⟩
      · exact hbetween hl hactive p hold
      · exact iff_of_false hreader hwriter

theorem uniform_agrees {s : ChannelState V} (h : Tidy s) (hu : Uniform s) : s.HandoffAgrees := by
  rw [h.handoffAgrees_iff]
  intro p hp hreader hwriter
  cases hactive : s.channel.isActive with
  | false => exact hu hactive p hp
  | true =>
      exact iff_of_true (h.returned_of_finished hactive hreader)
        (h.returned_of_finished hactive hwriter)

/-- Some direct hand-over has one side returned, and the other one never will. -/
def Discord (s : ChannelState V) : Prop :=
  s.channel.isActive = false ∧ ∃ p ∈ s.matched, ¬ (s.returned p.1.id ↔ s.returned p.2.id)

theorem discord_of_breach {s s' : ChannelState V} {l : Label V} (h : Tidy s)
    (hbreach : ¬ s.ClosesBetween l) (hstep : s.step l = some s') : Discord s' := by
  unfold ClosesBetween at hbreach
  push Not at hbreach
  obtain ⟨hl, hactive, p, hp, hsplit⟩ := hbreach
  obtain ⟨hclosed, hended, hmatched, -⟩ := closing_step h hactive hl hstep
  refine ⟨hclosed, p, hmatched hp, ?_⟩
  have hfin : ∀ id, s.returned id ↔ s.finished id := fun id =>
    ⟨returned.finished, h.returned_of_finished hactive⟩
  rw [returned_congr hended, returned_congr hended, hfin, hfin]
  tauto

theorem discord_step {s s' : ChannelState V} {l : Label V} (h : Tidy s) (hd : Discord s)
    (hstep : s.step l = some s') : Discord s' := by
  obtain ⟨hclosed, p, hp, hsplit⟩ := hd
  obtain ⟨hclosed', hmatched, hreturned⟩ := closed_step h hclosed hstep
  refine ⟨hclosed', p, hmatched ▸ hp, ?_⟩
  rw [hreturned, hreturned]
  exact hsplit

/-- When no message is pending, every matched awaiter has ended. -/
theorem Tidy.matched_finished {s : ChannelState V} (h : Tidy s) (hidle : s.messages = [])
    {p : ReaderAwaiter × WriterAwaiter V} (hp : p ∈ s.matched) :
    s.finished p.1.id ∧ s.finished p.2.id := by
  have hfin : ∀ m ∈ s.dispatched, s.finished m.id := by
    intro m hm
    have hmem := (h.mem_dispatched.mp hm).resolve_left (by simp [hidle])
    obtain ⟨e, he, rfl⟩ := List.mem_map.mp hmem
    exact ⟨e, he, rfl⟩
  exact ⟨hfin _ (h.matched p hp).1, hfin _ (h.matched p hp).2⟩

theorem discord_disagrees {s : ChannelState V} (h : Tidy s) (hidle : s.messages = [])
    (hd : Discord s) : ¬ s.HandoffAgrees := by
  obtain ⟨-, p, hp, hsplit⟩ := hd
  rw [h.handoffAgrees_iff]
  intro hagrees
  obtain ⟨hreader, hwriter⟩ := h.matched_finished hidle hp
  exact hsplit (hagrees p hp hreader hwriter)

/-- **Agreement under close.** If no closing step of a run falls between the two endings of a
direct hand-over, the two sides agree in every state reached. When all messages have run they
agree only then. -/
theorem handoff_agrees_iff (capacity : Int) {ls : List (Label V)} {s : ChannelState V}
    (hrun : (machine V capacity).Runs ls s) :
    ((machine V capacity).Meets ClosesBetween (machine V capacity).init ls → s.HandoffAgrees) ∧
    (s.messages = [] →
      (s.HandoffAgrees ↔
        (machine V capacity).Meets ClosesBetween (machine V capacity).init ls)) := by
  have h := tidy_runs hrun
  have agrees : (machine V capacity).Meets ClosesBetween (machine V capacity).init ls →
      s.HandoffAgrees := by
    intro hmeets
    have hinv : Tidy s ∧ Uniform s := by
      refine hrun.guarded (I := fun s => Tidy s ∧ Uniform s)
        ⟨tidy_init capacity, fun hc => absurd hc (by simp [machine])⟩ ?_ hmeets
      rintro a l a' ⟨ha, hu⟩ hbetween hstep
      exact ⟨tidy_step ha hstep, uniform_step ha hu hbetween hstep⟩
    exact uniform_agrees h hinv.2
  refine ⟨agrees, fun hidle => ⟨fun hagrees => ?_, agrees⟩⟩
  -- a flip between two endings leaves a pair apart, and no later step brings it together
  by_contra hmeets
  obtain ⟨pre, l, post, a, a', rfl, hpre, -, hbreach, hstep, hpost⟩ := hrun.exists_breach hmeets
  have ha := tidy_runs hpre
  have hstart : Tidy a' ∧ Discord a' :=
    ⟨tidy_step ha hstep, discord_of_breach ha hbreach hstep⟩
  have hdiscord : Tidy s ∧ Discord s :=
    Machine.runFrom_invariant (I := fun s => Tidy s ∧ Discord s)
      (fun _ _ _ hs hstep => ⟨tidy_step hs.1 hstep, discord_step hs.1 hs.2 hstep⟩) hstart hpost
  exact discord_disagrees h hidle hdiscord.2 hagrees

/-- A hand-over that ends before the flag flips, and one that ends after it. -/
theorem handoff_agrees_iff_run :
    ∃ s : ChannelState Nat,
      (machine Nat 0).Runs
        [.read false, .write 7, .deliver 1, .deliver 0, .write 8, .readAcross true, .deliver 0,
          .deliver 0] s ∧
      s.HandoffAgrees ∧ s.messages = [] ∧ s.matched.length = 2 :=
  have hrun : (machine Nat 0).Runs
      [.read false, .write 7, .deliver 1, .deliver 0, .write 8, .readAcross true, .deliver 0,
        .deliver 0] _ := rfl
  ⟨_, hrun, (handoff_agrees_iff 0 hrun).1 (by decide), rfl, rfl⟩

/-- The reader of a direct hand-over returns 7, then the flag flips, and the writer of 7 ends with
`ChannelClosedException`. -/
theorem handoff_disagrees :
    ∃ s : ChannelState Nat,
      (machine Nat 0).Runs [.read false, .write 7, .deliver 0, .close, .deliver 0] s ∧
      ¬ s.HandoffAgrees := by
  refine ⟨_, rfl, ?_⟩
  intro hagrees
  have hboth := hagrees (⟨0, false⟩, ⟨1, 7⟩) (by decide) (by decide) (by decide)
  obtain ⟨e, he, hid, hend⟩ := hboth.mp ⟨_, List.mem_cons_self, rfl, none, rfl⟩
  revert e
  decide

end ChannelState

end Npp.Task
