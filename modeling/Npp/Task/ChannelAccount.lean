import Npp.Task.ChannelSystem
import Mathlib.Data.List.Nodup
import Mathlib.Data.List.Perm.Basic

/-!
# The account of the awaiters

Every awaiter that was pushed is in a wait list, has been dispatched, or was withdrawn while it
waited, and only one of the three. `Tidy` states this balance for every reachable state, together
with what the flag says about the resumptions: those without a result and those that failed exist
only once the channel is closed.
-/

namespace Npp.Task

open Npp.Foundation

variable {V : Type}

/-! ## The wait lists -/

namespace Channel

def waiting (ch : Channel V) : List Nat :=
  ch.writerList.map (·.id) ++ ch.readerList.map (·.id)

theorem PushWriter.waiting {ch ch' : Channel V} {w : WriterAwaiter V} {route : Route V}
    (h : PushWriter ch w ch' route) :
    (ch'.waiting ++ route.resumptions.map (·.id)).Perm (w.id :: ch.waiting) := by
  rw [List.perm_iff_count]
  intro a
  cases h with
  | direct hreaders =>
      simp only [Channel.waiting, Route.resumptions, Resumption.id, hreaders, List.map_cons,
        List.map_nil, List.count_append, List.count_cons, List.count_nil]
      omega
  | toBuffer hreaders hroom =>
      simp only [Channel.waiting, Route.resumptions, Resumption.id, List.map_cons, List.map_nil,
        List.count_append, List.count_cons, List.count_nil]
      omega
  | suspended hreaders hfull =>
      simp only [Channel.waiting, Route.resumptions, List.map_append, List.map_cons, List.map_nil,
        List.count_append, List.count_cons, List.count_nil]
      omega

theorem PushReader.waiting {ch ch' : Channel V} {r : ReaderAwaiter} {route : Route V}
    (h : PushReader ch r ch' route) :
    (ch'.waiting ++ route.resumptions.map (·.id)).Perm (r.id :: ch.waiting) := by
  rw [List.perm_iff_count]
  intro a
  cases h with
  | refilled hbuffer hwriters =>
      simp only [Channel.waiting, Route.resumptions, Resumption.id, hwriters, Option.map_some,
        Option.toList_some, List.map_append, List.map_cons, List.map_nil, List.count_append,
        List.count_cons, List.count_nil]
      omega
  | fromBuffer hbuffer hwriters =>
      simp only [Channel.waiting, Route.resumptions, Resumption.id, Option.map_none,
        Option.toList_none, List.nil_append, List.map_cons, List.map_nil, List.count_append,
        List.count_cons, List.count_nil]
      omega
  | direct hbuffer hwriters =>
      simp only [Channel.waiting, Route.resumptions, Resumption.id, hwriters, List.map_cons,
        List.map_nil, List.count_append, List.count_cons, List.count_nil]
      omega
  | suspended hbuffer hwriters =>
      simp only [Channel.waiting, Route.resumptions, List.map_append, List.map_cons, List.map_nil,
        List.count_append, List.count_cons, List.count_nil]
      omega

/-- `clean_up` resumes exactly the waiting awaiters. -/
theorem cleanUp_waiting (ch : Channel V) :
    ch.cleanUp.2.map (·.id) = ch.waiting ∧ ch.cleanUp.1.waiting = [] := by
  simp [cleanUp, waiting, Function.comp_def, Resumption.id]

theorem removeWriter_fresh {ch : Channel V} {id : Nat} (h : id ∉ ch.waiting) :
    ch.removeWriter id = ch :=
  removeWriter_absent fun hid => h (List.mem_append_left _ hid)

theorem removeReader_fresh {ch : Channel V} {id : Nat} (h : id ∉ ch.waiting) :
    ch.removeReader id = ch :=
  removeReader_absent fun hid => h (List.mem_append_right _ hid)

/-- Taking one key out of a list of distinct keys. -/
theorem perm_cons_filter_key {α : Type*} {key : α → Nat} {l : List α} {i : Nat}
    (hnodup : (l.map key).Nodup) (hi : i ∈ l.map key) :
    (i :: (l.filter (key · ≠ i)).map key).Perm (l.map key) := by
  have herase : (l.filter (key · ≠ i)).map key = (l.map key).erase i := by
    rw [hnodup.erase_eq_filter, List.filter_map]
    congr 1
    apply List.filter_congr
    intro a _
    by_cases hkey : key a = i <;> simp [hkey]
  rw [herase]
  exact (List.perm_cons_erase hi).symm

theorem removeWriter_waiting {ch : Channel V} {id : Nat} (hnodup : ch.waiting.Nodup)
    (hid : id ∈ ch.writerList.map (·.id)) :
    (id :: (ch.removeWriter id).waiting).Perm ch.waiting := by
  have hkey := perm_cons_filter_key (List.Nodup.of_append_left hnodup) hid
  exact hkey.append_right _

theorem removeReader_waiting {ch : Channel V} {id : Nat} (hnodup : ch.waiting.Nodup)
    (hid : id ∈ ch.readerList.map (·.id)) :
    (id :: (ch.removeReader id).waiting).Perm ch.waiting := by
  have hkey := perm_cons_filter_key (List.Nodup.of_append_right hnodup) hid
  exact List.perm_middle.symm.trans (hkey.append_left _)

end Channel

/-! ## How a resumption ends -/

namespace Resumption

/-- The ending while the channel is open. Without a result it would be undefined. -/
def success : Resumption V → Ending V
  | .writer _ => .wrote (.returned ())
  | .reader r v => .read (.returned (v, if r.pValue then some v else none))
  | .readerUnsafe _ => .read .emptyResult

def failure : Resumption V → Ending V
  | .writer _ => .wrote (.threw channelClosed)
  | .reader _ _ | .readerUnsafe _ => .read (.threw channelClosed)

theorem ending_closed {ch : Channel V} (hclosed : ch.isActive = false) (m : Resumption V) :
    m.ending ch = m.failure := by
  cases m <;>
    simp [ending, failure, WriterAwaiter.awaitResume, ReaderAwaiter.awaitResume,
      WriterAwaiter.beforeResume, ReaderAwaiter.beforeResume, Channel.checkClosed, hclosed,
      Outcome.bind]

theorem ending_open {ch : Channel V} (hopen : ch.isActive = true) {m : Resumption V}
    (hsafe : m.isUnsafe = false) : m.ending ch = m.success := by
  cases m with
  | writer w =>
      simp [ending, success, WriterAwaiter.awaitResume, WriterAwaiter.beforeResume,
        Channel.checkClosed, hopen, Outcome.bind, Outcome.ofResult]
  | reader r v =>
      cases hp : r.pValue <;>
        simp [ending, success, ReaderAwaiter.awaitResume, ReaderAwaiter.beforeResume,
          Channel.checkClosed, hopen, hp, Outcome.bind, Outcome.ofResult]
  | readerUnsafe r => simp [isUnsafe] at hsafe

theorem success_isReturned {m : Resumption V} (hsafe : m.isUnsafe = false) :
    m.success.isReturned = true := by
  cases m with
  | writer w => rfl
  | reader r v => rfl
  | readerUnsafe r => simp [isUnsafe] at hsafe

theorem failure_isReturned (m : Resumption V) : m.failure.isReturned = false := by
  cases m <;> rfl

/-- An awaiter that no longer waits leaves the channel as it is. -/
theorem destroyed_of_notMem {ch : Channel V} {m : Resumption V} (h : m.id ∉ ch.waiting) :
    m.destroyed ch = ch := by
  cases m with
  | writer w =>
      have hsame : ch.removeWriter w.id = ch := Channel.removeWriter_fresh h
      simp only [destroyed, hsame, ite_self]
  | reader r v =>
      have hsame : ch.removeReader r.id = ch := Channel.removeReader_fresh h
      simp only [destroyed, hsame, ite_self]
  | readerUnsafe r =>
      have hsame : ch.removeReader r.id = ch := Channel.removeReader_fresh h
      simp only [destroyed, hsame, ite_self]

end Resumption

theorem Route.matched_resumptions (route : Route V) :
    ∀ p ∈ route.matched,
      .reader p.1 p.2.value ∈ route.resumptions ∧ .writer p.2 ∈ route.resumptions := by
  cases route <;> simp [matched, resumptions]

namespace ChannelState

def pushed (s : ChannelState V) : List Nat := s.writes.map Prod.fst ++ s.reads

def withdrawn (s : ChannelState V) : List Nat := s.withdrawnWriters ++ s.withdrawnReaders

structure Tidy (s : ChannelState V) : Prop where
  accounted : (s.channel.waiting ++ s.dispatched.map (·.id) ++ s.withdrawn).Perm s.pushed
  distinct : s.pushed.Nodup
  fresh : ∀ id ∈ s.pushed, id < s.next
  pending : (s.messages ++ s.ended.map Prod.fst).Perm s.dispatched
  matched : ∀ p ∈ s.matched,
    .reader p.1 p.2.value ∈ s.dispatched ∧ .writer p.2 ∈ s.dispatched
  closing : s.closing = true → s.channel.isActive = false
  safe : s.channel.isActive = true → ∀ m ∈ s.dispatched, m.isUnsafe = false
  ended : ∀ e ∈ s.ended, (e.1.isUnsafe = false ∧ e.2 = e.1.success) ∨
    (s.channel.isActive = false ∧ e.2 = e.1.failure)
  cleaned : s.cleaned = true →
    s.channel.isActive = false ∧ s.channel.waiting = [] ∧ s.channel.buffer = []
  cleanedUp : ∀ id ∈ s.cleanedUp,
    s.channel.isActive = false ∧ ∀ e ∈ s.ended, e.1.id = id → e.2 = e.1.failure

namespace Tidy

variable {s : ChannelState V}

theorem unique (h : Tidy s) :
    (s.channel.waiting ++ s.dispatched.map (·.id) ++ s.withdrawn).Nodup :=
  h.accounted.nodup_iff.mpr h.distinct

theorem waiting_nodup (h : Tidy s) : s.channel.waiting.Nodup :=
  h.unique.of_append_left.of_append_left

theorem dispatched_nodup (h : Tidy s) : (s.dispatched.map (·.id)).Nodup :=
  h.unique.of_append_left.of_append_right

theorem waiting_not_dispatched (h : Tidy s) {id : Nat} (hid : id ∈ s.channel.waiting) :
    id ∉ s.dispatched.map (·.id) :=
  fun hmem => (List.nodup_append.mp h.unique.of_append_left).2.2 id hid id hmem rfl

theorem mem_dispatched (h : Tidy s) {m : Resumption V} :
    m ∈ s.dispatched ↔ m ∈ s.messages ∨ m ∈ s.ended.map Prod.fst := by
  rw [← h.pending.mem_iff, List.mem_append]

theorem next_notMem_pushed (h : Tidy s) : s.next ∉ s.pushed :=
  fun hmem => Nat.lt_irrefl _ (h.fresh _ hmem)

theorem next_notMem_waiting (h : Tidy s) : s.next ∉ s.channel.waiting := by
  intro hmem
  refine h.next_notMem_pushed (h.accounted.mem_iff.mp ?_)
  exact List.mem_append_left _ (List.mem_append_left _ hmem)

/-- Two resumptions of one awaiter are the same. -/
theorem eq_of_id_eq (h : Tidy s) {m m' : Resumption V} (hm : m ∈ s.dispatched)
    (hm' : m' ∈ s.dispatched) (hid : m.id = m'.id) : m = m' :=
  List.inj_on_of_nodup_map h.dispatched_nodup hm hm' hid

theorem pending_append (h : Tidy s) (new : List (Resumption V)) :
    (s.messages ++ new ++ s.ended.map Prod.fst).Perm (s.dispatched ++ new) := by
  have hswap : (s.messages ++ new ++ s.ended.map Prod.fst).Perm
      (s.messages ++ s.ended.map Prod.fst ++ new) := by
    rw [List.append_assoc, List.append_assoc]
    exact List.perm_append_comm.append_left _
  exact hswap.trans (h.pending.append_right new)

/-- A push of the next awaiter along `route`. -/
theorem follow (h : Tidy s) (hopen : s.channel.isActive = true) {ch : Channel V}
    {route : Route V} {writes : List (Nat × V)} {reads : List Nat}
    (hactive : ch.isActive = s.channel.isActive)
    (hwaiting : (ch.waiting ++ route.resumptions.map (·.id)).Perm (s.next :: s.channel.waiting))
    (hpushed : (writes.map Prod.fst ++ reads).Perm (s.next :: s.pushed)) :
    Tidy { s.follow ch route with writes := writes, reads := reads } where
  accounted := by
    refine List.Perm.trans ?_ hpushed.symm
    have haccounted := h.accounted
    rw [List.perm_iff_count] at haccounted hwaiting ⊢
    intro a
    have h₁ := haccounted a
    have h₂ := hwaiting a
    simp only [ChannelState.follow, withdrawn, List.map_append, List.count_append,
      List.count_cons] at h₁ h₂ ⊢
    omega
  distinct := by
    rw [pushed, hpushed.nodup_iff]
    exact List.nodup_cons.mpr ⟨h.next_notMem_pushed, h.distinct⟩
  fresh := by
    intro id hid
    rcases List.mem_cons.mp (hpushed.mem_iff.mp hid) with rfl | hold
    · exact Nat.lt_succ_self _
    · exact Nat.lt_succ_of_lt (h.fresh id hold)
  pending := h.pending_append route.resumptions
  matched := by
    intro p hp
    rcases List.mem_append.mp hp with hold | hnew
    · exact ⟨List.mem_append_left _ (h.matched p hold).1,
        List.mem_append_left _ (h.matched p hold).2⟩
    · exact ⟨List.mem_append_right _ (route.matched_resumptions p hnew).1,
        List.mem_append_right _ (route.matched_resumptions p hnew).2⟩
  closing := fun hc => hactive.trans (h.closing hc)
  safe := by
    intro _ m hm
    rcases List.mem_append.mp hm with hold | hnew
    · exact h.safe hopen m hold
    · exact route.resumptions_safe m hnew
  ended := fun e he => (h.ended e he).imp_right fun hf => ⟨hactive.trans hf.1, hf.2⟩
  cleaned := fun hc => absurd hopen (by simp [(h.cleaned hc).1])
  cleanedUp := fun id hid => absurd hopen (by simp [(h.cleanedUp id hid).1])

/-- A push that threw: the awaiter is destroyed and was in no list. -/
theorem reject (h : Tidy s) : Tidy { s with next := s.next + 1 } :=
  ⟨h.accounted, h.distinct, fun id hid => Nat.lt_succ_of_lt (h.fresh id hid), h.pending,
    h.matched, h.closing, h.safe, h.ended, h.cleaned, h.cleanedUp⟩

theorem write (h : Tidy s) (value : V) : Tidy (s.write value) := by
  rcases s.write_cases value with ⟨-, hwrite⟩ | ⟨hopen, ch, route, hpush, hwrite⟩
  · rw [hwrite, Channel.removeWriter_fresh h.next_notMem_waiting]
    exact h.reject
  · rw [hwrite]
    refine h.follow hopen hpush.isActive hpush.waiting ?_
    rw [List.map_append, List.append_assoc]
    exact List.perm_middle

theorem read (h : Tidy s) (pValue : Bool) : Tidy (s.read pValue) := by
  rcases s.read_cases pValue with ⟨-, hread⟩ | ⟨hopen, ch, route, hpush, hread⟩
  · rw [hread, Channel.removeReader_fresh h.next_notMem_waiting]
    exact h.reject
  · rw [hread]
    refine h.follow hopen hpush.isActive hpush.waiting ?_
    rw [← List.append_assoc]
    exact List.perm_append_singleton _ _

theorem flip (h : Tidy s) : Tidy s.flip := by
  unfold ChannelState.flip
  split
  case isTrue hopen =>
    exact ⟨h.accounted, h.distinct, h.fresh, h.pending, h.matched, fun _ => rfl,
      fun hactive => absurd hactive (by simp [Channel.deactivate]),
      fun e he => (h.ended e he).imp_right fun hf => ⟨rfl, hf.2⟩,
      fun hc => ⟨rfl, (h.cleaned hc).2⟩, fun id hid => ⟨rfl, (h.cleanedUp id hid).2⟩⟩
  case isFalse => exact h

/-- Taking a waiting awaiter out of its list. -/
theorem withdraw (h : Tidy s) {ch : Channel V} {id : Nat} {ws rs : List Nat}
    (hactive : ch.isActive = s.channel.isActive)
    (hwaiting : (id :: ch.waiting).Perm s.channel.waiting)
    (hwithdrawn : (ws ++ rs).Perm (id :: s.withdrawn)) :
    Tidy { s with channel := ch, withdrawnWriters := ws, withdrawnReaders := rs } where
  accounted := by
    refine List.Perm.trans ?_ h.accounted
    rw [List.perm_iff_count] at hwaiting hwithdrawn ⊢
    intro a
    have h₁ := hwaiting a
    have h₂ := hwithdrawn a
    simp only [withdrawn, List.count_append, List.count_cons] at h₁ h₂ ⊢
    omega
  distinct := h.distinct
  fresh := h.fresh
  pending := h.pending
  matched := h.matched
  closing := fun hc => hactive.trans (h.closing hc)
  safe := fun ho => h.safe (hactive.symm.trans ho)
  ended := fun e he => (h.ended e he).imp_right fun hf => ⟨hactive.trans hf.1, hf.2⟩
  cleaned := by
    intro hc
    have hmem : id ∈ s.channel.waiting := hwaiting.mem_iff.mp List.mem_cons_self
    rw [(h.cleaned hc).2.1] at hmem
    exact absurd hmem List.not_mem_nil
  cleanedUp := fun i hi => ⟨hactive.trans (h.cleanedUp i hi).1, (h.cleanedUp i hi).2⟩

theorem withdrawWriter (h : Tidy s) (id : Nat) : Tidy (s.withdrawWriter id) := by
  by_cases hid : id ∈ s.channel.writerList.map (·.id)
  · rw [ChannelState.withdrawWriter, if_pos hid]
    refine h.withdraw rfl (Channel.removeWriter_waiting h.waiting_nodup hid) ?_
    rw [List.append_assoc]
    exact List.perm_middle
  · exact (withdrawWriter_absent hid).symm ▸ h

theorem withdrawReader (h : Tidy s) (id : Nat) : Tidy (s.withdrawReader id) := by
  by_cases hid : id ∈ s.channel.readerList.map (·.id)
  · rw [ChannelState.withdrawReader, if_pos hid]
    refine h.withdraw rfl (Channel.removeReader_waiting h.waiting_nodup hid) ?_
    rw [← List.append_assoc]
    exact List.perm_append_singleton _ _
  · exact (withdrawReader_absent hid).symm ▸ h

theorem cleanUp (h : Tidy s) (hclosing : s.closing = true) : Tidy s.cleanUp where
  accounted := by
    have hids := s.channel.cleanUp_waiting
    refine List.Perm.trans ?_ h.accounted
    change (s.channel.cleanUp.1.waiting ++ (s.dispatched ++ s.channel.cleanUp.2).map (·.id) ++
      s.withdrawn).Perm _
    rw [hids.2, List.map_append, hids.1, List.nil_append]
    exact List.perm_append_comm.append_right _
  distinct := h.distinct
  fresh := h.fresh
  pending := h.pending_append s.channel.cleanUp.2
  matched := fun p hp =>
    ⟨List.mem_append_left _ (h.matched p hp).1, List.mem_append_left _ (h.matched p hp).2⟩
  closing := fun hc => by simp [ChannelState.cleanUp] at hc
  safe := fun ho => absurd (h.closing hclosing) (by
    have hactive : s.channel.isActive = true := ho
    simp [hactive])
  ended := h.ended
  cleaned := fun _ => ⟨h.closing hclosing, s.channel.cleanUp_waiting.2, rfl⟩
  cleanedUp := by
    intro id hid
    refine ⟨h.closing hclosing, ?_⟩
    rcases List.mem_append.mp hid with hold | hnew
    · exact (h.cleanedUp id hold).2
    · -- a waiting awaiter was never dispatched, so it has not ended
      rw [s.channel.cleanUp_waiting.1] at hnew
      intro e he heq
      have hmem := h.mem_dispatched.mpr (Or.inr (List.mem_map_of_mem he))
      exact absurd (heq ▸ List.mem_map_of_mem hmem) (h.waiting_not_dispatched hnew)

/-- A message that runs leaves the channel as it is. -/
theorem deliver_eq (h : Tidy s) {i : Nat} {m : Resumption V} (hm : s.messages[i]? = some m) :
    s.deliver i m = { s with
      messages := s.messages.eraseIdx i, ended := s.ended ++ [(m, m.ending s.channel)] } := by
  have hdispatched := h.mem_dispatched.mpr (Or.inl (List.mem_of_getElem? hm))
  have hgone : m.id ∉ s.channel.waiting := fun hid =>
    h.waiting_not_dispatched hid (List.mem_map_of_mem hdispatched)
  rw [ChannelState.deliver, Resumption.destroyed_of_notMem hgone]

theorem deliver (h : Tidy s) {i : Nat} {m : Resumption V} (hm : s.messages[i]? = some m) :
    Tidy (s.deliver i m) := by
  have hdispatched := h.mem_dispatched.mpr (Or.inl (List.mem_of_getElem? hm))
  rw [h.deliver_eq hm]
  refine ⟨h.accounted, h.distinct, h.fresh, ?_, h.matched, h.closing, h.safe, ?_, h.cleaned, ?_⟩
  · obtain ⟨hi, hget⟩ := List.getElem?_eq_some_iff.mp hm
    have hperm := List.getElem_cons_eraseIdx_perm hi
    rw [hget] at hperm
    refine List.Perm.trans ?_ ((hperm.append_right _).trans h.pending)
    rw [List.map_append, ← List.append_assoc]
    exact List.perm_append_singleton _ _
  · intro e he
    rcases List.mem_append.mp he with hold | hnew
    · exact h.ended e hold
    · obtain rfl := List.mem_singleton.mp hnew
      cases hactive : s.channel.isActive with
      | true =>
          have hsafe := h.safe hactive m hdispatched
          exact Or.inl ⟨hsafe, Resumption.ending_open hactive hsafe⟩
      | false => exact Or.inr ⟨rfl, Resumption.ending_closed hactive m⟩
  · intro id hid
    refine ⟨(h.cleanedUp id hid).1, ?_⟩
    intro e he heq
    rcases List.mem_append.mp he with hold | hnew
    · exact (h.cleanedUp id hid).2 e hold heq
    · obtain rfl := List.mem_singleton.mp hnew
      exact Resumption.ending_closed (h.cleanedUp id hid).1 m

end Tidy

theorem tidy_step {s s' : ChannelState V} {l : Label V} (h : Tidy s)
    (hstep : s.step l = some s') : Tidy s' := by
  cases l with
  | write value => exact Option.some.inj hstep ▸ h.write value
  | read pValue => exact Option.some.inj hstep ▸ h.read pValue
  | writeAcross value => exact (writeAcross_step hstep).2 ▸ (h.write value).flip
  | readAcross pValue => exact (readAcross_step hstep).2 ▸ (h.read pValue).flip
  | removeWriter id => exact Option.some.inj hstep ▸ h.withdrawWriter id
  | removeReader id => exact Option.some.inj hstep ▸ h.withdrawReader id
  | close => exact Option.some.inj hstep ▸ h.flip
  | cleanUp =>
      simp only [step, Option.ite_none_right_eq_some, Option.some.injEq] at hstep
      exact hstep.2 ▸ h.cleanUp hstep.1
  | deliver i =>
      obtain ⟨m, hm, rfl⟩ := deliver_step hstep
      exact h.deliver hm

theorem tidy_init (capacity : Int) : Tidy (machine V capacity).init := by
  constructor <;> simp [machine, Channel.waiting, pushed, withdrawn]

theorem tidy_runs {capacity : Int} {ls : List (Label V)} {s : ChannelState V}
    (hrun : (machine V capacity).Runs ls s) : Tidy s :=
  hrun.invariant (tidy_init capacity) fun _ _ _ h hstep => tidy_step h hstep

end ChannelState

end Npp.Task
