import Npp.Foundation.Exchange
import Npp.Task.ChannelSystem

/-!
# The channel is a lossless FIFO

Until it is closed, the channel implements an exchange of unbounded capacity: buffered values
and waiting writers together are the queue of offers, waiting readers are the takers. The
conservation law of the exchange is then the FIFO property of the channel.
-/

namespace Npp.Task

open Npp.Foundation

variable {V : Type}

namespace ChannelState

def Label.staysOpen : Label V → Bool
  | .close | .writeAcross _ | .readAcross _ => false
  | _ => true

def Label.written : Label V → Option V
  | .write value | .writeAcross value => some value
  | _ => none

def offerOf (w : WriterAwaiter V) : Nat × V := (w.id, w.value)

/-- The open channel `s` implements the exchange `x`. Buffered values have lost their writer's
identity; `pre` gives it back. -/
structure Implements (s : ChannelState V) (x : Exchange Nat V) : Prop where
  balanced : x.Balanced
  isOpen : s.channel.isActive = true
  notClosing : s.closing = false
  safe : ∀ m ∈ s.messages, m.isUnsafe = false
  takers : x.takers = s.channel.readerList.map (·.id)
  offers : ∃ pre, x.offers = pre ++ s.channel.writerList.map offerOf ∧
    pre.map Prod.snd = s.channel.buffer
  full : s.channel.writerList = [] ∨ s.channel.hasRoom = false
  offered : x.offered = s.writes
  asked : x.asked = s.reads
  revoked : x.revoked = s.withdrawnWriters
  departed : x.departed = s.withdrawnReaders
  paired : x.paired.map (fun p => (p.1, p.2.2)) = s.assigned
  offered_lt : ∀ i ∈ x.offered.map Prod.fst, i < s.next
  asked_lt : ∀ t ∈ x.asked, t < s.next

theorem Implements.fresh_offer {s : ChannelState V} {x : Exchange Nat V} (h : Implements s x) :
    s.next ∉ x.offered.map Prod.fst :=
  fun hmem => Nat.lt_irrefl _ (h.offered_lt _ hmem)

theorem Implements.fresh_ask {s : ChannelState V} {x : Exchange Nat V} (h : Implements s x) :
    s.next ∉ x.asked :=
  fun hmem => Nat.lt_irrefl _ (h.asked_lt _ hmem)

theorem assigned_append (s : ChannelState V) (rs : List (Resumption V)) :
    (s.dispatched ++ rs).filterMap (·.assignment) =
      s.assigned ++ rs.filterMap (·.assignment) := by
  rw [List.filterMap_append]
  rfl

theorem assigned_unchanged (s : ChannelState V) (rs : List (Resumption V))
    (h : rs.filterMap (·.assignment) = []) :
    (s.dispatched ++ rs).filterMap (·.assignment) = s.assigned := by
  rw [assigned_append, h, List.append_nil]

theorem safe_append {s : ChannelState V} (h : ∀ m ∈ s.messages, m.isUnsafe = false)
    (route : Route V) : ∀ m ∈ s.messages ++ route.resumptions, m.isUnsafe = false := by
  intro m hm
  rcases List.mem_append.mp hm with hm | hm
  · exact h m hm
  · exact route.resumptions_safe m hm

/-- A write is an arriving offer. -/
theorem write_implements {s : ChannelState V} {x : Exchange Nat V} (h : Implements s x)
    (value : V) : Implements (s.write value) (x.offer s.next value) := by
  have hbal := Exchange.offer_balanced h.balanced (v := value) h.fresh_offer
  rcases s.write_cases value with ⟨hclosed, -⟩ | ⟨-, ch, route, hpush, hwrite⟩
  · exact absurd h.isOpen (by simp [hclosed])
  have hoffered : ∀ xs : List (Nat × V), xs = x.offered →
      ∀ i ∈ (xs ++ [(s.next, value)]).map Prod.fst, i < s.next + 1 := by
    rintro _ rfl i hi
    rw [List.map_append, List.mem_append] at hi
    rcases hi with hi | hi
    · exact Nat.lt_succ_of_lt (h.offered_lt i hi)
    · obtain rfl : i = s.next := by simpa using hi
      exact Nat.lt_succ_self _
  have hasked : ∀ t ∈ x.asked, t < s.next + 1 :=
    fun t ht => Nat.lt_succ_of_lt (h.asked_lt t ht)
  obtain ⟨pre, hoffers, hpre⟩ := h.offers
  rw [hwrite]
  cases hpush with
  | @direct r rs hreaders =>
      have htakers : x.takers = r.id :: rs.map (·.id) := by rw [h.takers, hreaders]; rfl
      rw [Exchange.offer_taken htakers] at hbal ⊢
      exact ⟨hbal, h.isOpen, h.notClosing, safe_append h.safe _, rfl, ⟨pre, hoffers, hpre⟩, h.full,
        by simp [h.offered], h.asked, h.revoked, h.departed, by
          rw [List.map_append, h.paired]
          exact (assigned_append s (Route.direct r ⟨s.next, value⟩).resumptions).symm,
        hoffered _ rfl, hasked⟩
  | toBuffer hreaders hroom =>
      have htakers : x.takers = [] := by rw [h.takers, hreaders]; rfl
      -- with room in the buffer no writer waits, so the value is the last offer
      have hwriters : s.channel.writerList = [] := h.full.resolve_right (by simp [hroom])
      rw [Exchange.offer_queued htakers] at hbal ⊢
      refine ⟨hbal, h.isOpen, h.notClosing, safe_append h.safe _, h.takers,
        ⟨pre ++ [(s.next, value)], ?_, ?_⟩, Or.inl hwriters, by simp [h.offered], h.asked,
        h.revoked, h.departed, ?_, hoffered _ rfl, hasked⟩
      · change x.offers ++ [(s.next, value)] = _
        simp [hoffers, hwriters, follow]
      · simp [hpre, follow]
      · rw [h.paired]
        exact (assigned_unchanged s (Route.toBuffer ⟨s.next, value⟩).resumptions rfl).symm
  | suspended hreaders hfull =>
      have htakers : x.takers = [] := by rw [h.takers, hreaders]; rfl
      rw [Exchange.offer_queued htakers] at hbal ⊢
      refine ⟨hbal, h.isOpen, h.notClosing, safe_append h.safe _, h.takers, ⟨pre, ?_, hpre⟩,
        Or.inr hfull, by simp [h.offered], h.asked, h.revoked, h.departed, ?_,
        hoffered _ rfl, hasked⟩
      · change x.offers ++ [(s.next, value)] = _
        simp [hoffers, follow, offerOf]
      · rw [h.paired]
        exact (assigned_unchanged s (Route.suspended : Route V).resumptions rfl).symm

/-- A read is an arriving taker. -/
theorem read_implements {s : ChannelState V} {x : Exchange Nat V} (h : Implements s x)
    (pValue : Bool) : Implements (s.read pValue) (x.ask s.next) := by
  have hbal := Exchange.ask_balanced h.balanced h.fresh_ask
  rcases s.read_cases pValue with ⟨hclosed, -⟩ | ⟨-, ch, route, hpush, hread⟩
  · exact absurd h.isOpen (by simp [hclosed])
  have hasked : ∀ xs : List Nat, xs = x.asked → ∀ t ∈ xs ++ [s.next], t < s.next + 1 := by
    rintro _ rfl t ht
    rcases List.mem_append.mp ht with ht | ht
    · exact Nat.lt_succ_of_lt (h.asked_lt t ht)
    · exact List.mem_singleton.mp ht ▸ Nat.lt_succ_self _
  have hoffered : ∀ i ∈ x.offered.map Prod.fst, i < s.next + 1 :=
    fun i hi => Nat.lt_succ_of_lt (h.offered_lt i hi)
  obtain ⟨pre, hoffers, hpre⟩ := h.offers
  rw [hread]
  cases hpush with
  | @refilled v rest w ws hbuffer hwriters =>
      -- the oldest offer sits in the buffer, and the first waiting writer takes its place
      rw [hbuffer] at hpre
      obtain ⟨⟨i, v⟩, pre, rfl, rfl, hrest⟩ := List.map_eq_cons_iff.mp hpre
      have hserved : x.offers = (i, v) :: (pre ++ s.channel.writerList.map offerOf) := hoffers
      rw [Exchange.ask_served hserved] at hbal ⊢
      refine ⟨hbal, h.isOpen, h.notClosing, safe_append h.safe _, h.takers,
        ⟨pre ++ [offerOf w], ?_, ?_⟩, ?_, h.offered, by simp [h.asked], h.revoked, h.departed, ?_,
        hoffered, hasked _ rfl⟩
      · change pre ++ s.channel.writerList.map offerOf = (pre ++ [offerOf w]) ++ ws.map offerOf
        simp [hwriters]
      · change (pre ++ [offerOf w]).map Prod.snd = rest ++ [w.value]
        rw [List.map_append, hrest]
        rfl
      · have hfull := h.full.resolve_left (by simp [hwriters])
        refine Or.inr ?_
        simpa [Channel.hasRoom, follow, hbuffer] using hfull
      · rw [List.map_append, h.paired]
        exact (assigned_append s (Route.fromBuffer ⟨s.next, pValue⟩ v (some w)).resumptions).symm
  | @fromBuffer v rest hbuffer hwriters =>
      rw [hbuffer] at hpre
      obtain ⟨⟨i, v⟩, pre, rfl, rfl, hrest⟩ := List.map_eq_cons_iff.mp hpre
      have hserved : x.offers = (i, v) :: (pre ++ s.channel.writerList.map offerOf) := hoffers
      rw [Exchange.ask_served hserved] at hbal ⊢
      refine ⟨hbal, h.isOpen, h.notClosing, safe_append h.safe _, h.takers,
        ⟨pre, rfl, hrest⟩, Or.inl hwriters, h.offered, by simp [h.asked],
        h.revoked, h.departed, ?_, hoffered, hasked _ rfl⟩
      rw [List.map_append, h.paired]
      exact (assigned_append s (Route.fromBuffer ⟨s.next, pValue⟩ v none).resumptions).symm
  | @direct w ws hbuffer hwriters =>
      obtain rfl : pre = [] := by
        rw [hbuffer] at hpre
        exact List.map_eq_nil_iff.mp hpre
      -- an empty buffer makes the first waiting writer the oldest offer
      have hserved : x.offers = offerOf w :: ws.map offerOf := by
        rw [hoffers, hwriters]
        rfl
      rw [Exchange.ask_served hserved] at hbal ⊢
      refine ⟨hbal, h.isOpen, h.notClosing, safe_append h.safe _, h.takers, ⟨[], rfl, hpre⟩, ?_,
        h.offered, by simp [h.asked], h.revoked, h.departed, ?_, hoffered, hasked _ rfl⟩
      · exact Or.inr (h.full.resolve_left (by simp [hwriters]))
      · rw [List.map_append, h.paired]
        exact (assigned_append s (Route.direct ⟨s.next, pValue⟩ w).resumptions).symm
  | suspended hbuffer hwriters =>
      obtain rfl : pre = [] := by
        rw [hbuffer] at hpre
        exact List.map_eq_nil_iff.mp hpre
      have hqueued : x.offers = [] := by rw [hoffers, hwriters]; rfl
      rw [Exchange.ask_queued hqueued] at hbal ⊢
      refine ⟨hbal, h.isOpen, h.notClosing, safe_append h.safe _, ?_, ⟨[], hoffers, hpre⟩,
        Or.inl hwriters, h.offered, by simp [h.asked], h.revoked, h.departed, ?_, hoffered,
        hasked _ rfl⟩
      · change x.takers ++ [s.next] = _
        simp [h.takers, follow]
      · rw [h.paired]
        exact (assigned_unchanged s (Route.suspended : Route V).resumptions rfl).symm

/-- Removing a writer that still waits revokes its offer; removing any other changes nothing. -/
theorem withdrawWriter_implements {s : ChannelState V} {x : Exchange Nat V}
    (h : Implements s x) (id : Nat) :
    ∃ ls y, (Exchange.machine Nat V).runFrom x ls = some y ∧
      Implements (s.withdrawWriter id) y := by
  obtain ⟨pre, hoffers, hpre⟩ := h.offers
  have hroom : (s.channel.removeWriter id).hasRoom = s.channel.hasRoom := rfl
  by_cases hid : id ∈ s.channel.writerList.map (·.id)
  · have hqueued : id ∈ (s.channel.writerList.map offerOf).map Prod.fst := by
      simpa [offerOf] using hid
    have hmem : id ∈ x.offers.map Prod.fst := by
      rw [hoffers, List.map_append]
      exact List.mem_append_right _ hqueued
    -- the identities of the queued offers are distinct, so no buffered value is revoked
    have hdistinct :
        (pre.map Prod.fst ++ (s.channel.writerList.map offerOf).map Prod.fst).Nodup := by
      have := h.balanced.paired_offers_nodup
      rw [List.map_append] at this
      rw [← List.map_append, ← hoffers]
      exact this.of_append_right
    have hkeep : pre.filter (·.1 ≠ id) = pre := by
      rw [List.filter_eq_self]
      intro o ho
      have := (List.nodup_append.mp hdistinct).2.2 o.1 (List.mem_map_of_mem ho) id hqueued
      simpa using this
    have hstep : x.step (.revoke id) = some
        { x with offers := x.offers.filter (·.1 ≠ id), revoked := x.revoked ++ [id] } := by
      simp only [Exchange.step, if_pos hmem]
    refine ⟨[.revoke id], _, (Machine.runFrom_singleton x _).trans hstep, ?_⟩
    refine ⟨Exchange.step_balanced h.balanced hstep, h.isOpen, h.notClosing, h.safe, h.takers,
      ⟨pre, ?_, hpre⟩, ?_, h.offered, h.asked, ?_, h.departed, h.paired, h.offered_lt, h.asked_lt⟩
    · change x.offers.filter (·.1 ≠ id) = _
      rw [hoffers, List.filter_append, hkeep, List.filter_map]
      rfl
    · rcases h.full with hnil | hfull
      · exact Or.inl (by simp [withdrawWriter, Channel.removeWriter, hnil])
      · exact Or.inr (hroom.trans hfull)
    · change x.revoked ++ [id] = (s.withdrawWriter id).withdrawnWriters
      rw [withdrawWriter, if_pos hid, h.revoked]
  · exact ⟨[], x, rfl, (withdrawWriter_absent hid).symm ▸ h⟩

/-- Removing a reader that still waits lets a taker depart. -/
theorem withdrawReader_implements {s : ChannelState V} {x : Exchange Nat V}
    (h : Implements s x) (id : Nat) :
    ∃ ls y, (Exchange.machine Nat V).runFrom x ls = some y ∧
      Implements (s.withdrawReader id) y := by
  obtain ⟨pre, hoffers, hpre⟩ := h.offers
  by_cases hid : id ∈ s.channel.readerList.map (·.id)
  · have hmem : id ∈ x.takers := h.takers ▸ hid
    have hstep : x.step (.depart id) = some
        { x with takers := x.takers.filter (· ≠ id), departed := x.departed ++ [id] } := by
      simp only [Exchange.step, if_pos hmem]
    refine ⟨[.depart id], _, (Machine.runFrom_singleton x _).trans hstep, ?_⟩
    refine ⟨Exchange.step_balanced h.balanced hstep, h.isOpen, h.notClosing, h.safe, ?_,
      ⟨pre, hoffers, hpre⟩, h.full, h.offered, h.asked, h.revoked, ?_, h.paired, h.offered_lt,
      h.asked_lt⟩
    · change x.takers.filter (· ≠ id) = _
      rw [h.takers, List.filter_map]
      rfl
    · change x.departed ++ [id] = (s.withdrawReader id).withdrawnReaders
      rw [withdrawReader, if_pos hid, h.departed]
  · exact ⟨[], x, rfl, (withdrawReader_absent hid).symm ▸ h⟩

/-- Running a resumption is invisible to the exchange. -/
theorem deliver_implements {s : ChannelState V} {x : Exchange Nat V} (h : Implements s x)
    {i : Nat} {m : Resumption V} (hm : s.messages[i]? = some m) : Implements (s.deliver i m) x := by
  have hsame : m.destroyed s.channel = s.channel :=
    Resumption.destroyed_open h.isOpen (h.safe m (List.mem_of_getElem? hm))
  have hstate : s.deliver i m = { s with
      messages := s.messages.eraseIdx i, ended := s.ended ++ [(m, m.ending s.channel)] } := by
    rw [deliver, hsame]
  rw [hstate]
  exact ⟨h.balanced, h.isOpen, h.notClosing,
    fun a ha => h.safe a (List.mem_of_mem_eraseIdx ha), h.takers, h.offers, h.full, h.offered,
    h.asked, h.revoked, h.departed, h.paired, h.offered_lt, h.asked_lt⟩

/-- **Refinement.** While it is not closed, the channel of any capacity is simulated by the
exchange. -/
theorem exchange_simulates (V : Type) (capacity : Int) :
    Machine.Simulation (machine V capacity) (Exchange.machine Nat V)
      (fun _ l => l.staysOpen = true) Implements where
  init := ⟨⟨Or.inl rfl, by simp [Exchange.machine], by simp [Exchange.machine],
      by simp [Exchange.machine], by simp [Exchange.machine], by simp [Exchange.machine],
      by simp [Exchange.machine]⟩, rfl, rfl, by simp [machine], rfl, ⟨[], rfl, rfl⟩, Or.inl rfl,
    rfl, rfl, rfl, rfl, rfl, by simp [Exchange.machine], by simp [Exchange.machine]⟩
  step := by
    intro s l s' x h hl hstep
    cases l with
    | write value =>
        obtain rfl : s.write value = s' := Option.some.inj hstep
        refine ⟨[.offer s.next value], _, ?_, write_implements h value⟩
        rw [Machine.runFrom_singleton]
        simp only [Exchange.machine, Exchange.step, if_neg h.fresh_offer]
    | read pValue =>
        obtain rfl : s.read pValue = s' := Option.some.inj hstep
        refine ⟨[.ask s.next], _, ?_, read_implements h pValue⟩
        rw [Machine.runFrom_singleton]
        simp only [Exchange.machine, Exchange.step, if_neg h.fresh_ask]
    | removeWriter id =>
        obtain rfl : s.withdrawWriter id = s' := Option.some.inj hstep
        exact withdrawWriter_implements h id
    | removeReader id =>
        obtain rfl : s.withdrawReader id = s' := Option.some.inj hstep
        exact withdrawReader_implements h id
    | writeAcross value => exact absurd hl (by simp [Label.staysOpen])
    | readAcross pValue => exact absurd hl (by simp [Label.staysOpen])
    | close => exact absurd hl (by simp [Label.staysOpen])
    | cleanUp =>
        have : (machine V capacity).step s .cleanUp = none := by
          simp [machine, step, h.notClosing]
        simp [this] at hstep
    | deliver i =>
        obtain ⟨m, hm, rfl⟩ := deliver_step hstep
        exact ⟨[], x, rfl, deliver_implements h hm⟩

/-- Every run that does not close the channel implements some exchange. -/
theorem implements_of_open {capacity : Int} {ls : List (Label V)} {s : ChannelState V}
    (hrun : (machine V capacity).Runs ls s) (hopen : ∀ l ∈ ls, l.staysOpen = true) :
    ∃ x, Implements s x := by
  obtain ⟨_, x, -, h⟩ := (exchange_simulates V capacity).runs hrun
    (Machine.meets_of_forall hopen _)
  exact ⟨x, h⟩

/-- On an open channel every `try_push_writer` call is entered in `writes`, in call order. -/
theorem writes_eq_calls {capacity : Int} {ls : List (Label V)} {s : ChannelState V}
    (hrun : (machine V capacity).Runs ls s) (hopen : ∀ l ∈ ls, l.staysOpen = true) :
    s.writes.map Prod.snd = ls.filterMap (·.written) := by
  refine Machine.Runs.induction
    (P := fun ls s => (∀ l ∈ ls, l.staysOpen = true) →
      s.writes.map Prod.snd = ls.filterMap (·.written)) (fun _ => rfl) ?_ hrun hopen
  intro ls s l s' hrun ih hstep hopen
  have hpre : ∀ a ∈ ls, a.staysOpen = true := fun a ha => hopen a (List.mem_append_left _ ha)
  obtain ⟨x, hx⟩ := implements_of_open hrun hpre
  have hwrites := ih hpre
  rw [List.filterMap_append, ← hwrites]
  cases l with
  | write value =>
      obtain rfl : s.write value = s' := Option.some.inj hstep
      rcases s.write_cases value with ⟨hclosed, -⟩ | ⟨-, ch, route, -, hwrite⟩
      · exact absurd hx.isOpen (by simp [hclosed])
      · rw [hwrite, List.map_append]
        rfl
  | read pValue =>
      obtain rfl : s.read pValue = s' := Option.some.inj hstep
      rcases s.read_cases pValue with ⟨-, hread⟩ | ⟨-, ch, route, -, hread⟩ <;>
        simp [hread, follow, Label.written]
  | removeWriter id => cases hstep; simp [withdrawWriter, Label.written]
  | removeReader id => cases hstep; simp [withdrawReader, Label.written]
  | writeAcross value =>
      exact absurd (hopen (.writeAcross value) (by simp)) (by simp [Label.staysOpen])
  | readAcross pValue =>
      exact absurd (hopen (.readAcross pValue) (by simp)) (by simp [Label.staysOpen])
  | close => exact absurd (hopen .close (by simp)) (by simp [Label.staysOpen])
  | cleanUp => simp [machine, step, hx.notClosing] at hstep
  | deliver i =>
      obtain ⟨m, -, rfl⟩ := deliver_step hstep
      simp [deliver, Label.written]

/-- **Lossless FIFO.** In every run that does not close the channel, the values assigned to
readers, then the buffer, then the values of the waiting writers are the values pushed, in call
order, less those of writers removed while they waited; and the readers served, then the waiting
ones, are the readers pushed, in call order, less those removed while they waited. -/
theorem channel_lossless_fifo (capacity : Int) {ls : List (Label V)} {s : ChannelState V}
    (hrun : (machine V capacity).Runs ls s) (hopen : ∀ l ∈ ls, l.staysOpen = true) :
    s.writes.map Prod.snd = ls.filterMap (·.written) ∧
    s.assigned.map Prod.snd ++ s.channel.buffer ++ s.channel.writerList.map (·.value) =
      (s.writes.filter (·.1 ∉ s.withdrawnWriters)).map Prod.snd ∧
    s.assigned.map Prod.fst ++ s.channel.readerList.map (·.id) =
      s.reads.filter (· ∉ s.withdrawnReaders) := by
  obtain ⟨x, h⟩ := implements_of_open hrun hopen
  obtain ⟨pre, hoffers, hpre⟩ := h.offers
  refine ⟨writes_eq_calls hrun hopen, ?_, ?_⟩
  · have hvalues := congrArg (List.map Prod.snd) h.balanced.values
    rw [h.offered, h.revoked, hoffers] at hvalues
    rw [← hvalues, ← h.paired, ← hpre]
    simp [offerOf, Function.comp_def]
  · have htakers := h.balanced.takers
    rw [h.asked, h.departed, h.takers] at htakers
    rw [← htakers, ← h.paired]
    simp [Function.comp_def]

/-- Capacity one: 8 waits behind the buffered 7, its writer is removed, and 9 refills. -/
theorem channel_lossless_fifo_run :
    ∃ s : ChannelState Nat,
      (machine Nat 1).Runs
        [.write 7, .write 8, .removeWriter 1, .write 9, .read false, .read true, .read false] s ∧
      s.assigned.map Prod.snd ++ s.channel.buffer ++ s.channel.writerList.map (·.value) =
        (s.writes.filter (·.1 ∉ s.withdrawnWriters)).map Prod.snd ∧
      s.assigned = [(3, 7), (4, 9)] :=
  have hrun : (machine Nat 1).Runs
      [.write 7, .write 8, .removeWriter 1, .write 9, .read false, .read true, .read false] _ :=
    rfl
  ⟨_, hrun, (channel_lossless_fifo 1 hrun (by decide)).2.1, rfl⟩

end ChannelState

end Npp.Task
