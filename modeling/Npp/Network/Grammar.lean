import Npp.Network.Hostile

/-!
# What the receiver accepts

The whole frames that a stream consists of, read from its front. The streams that the receiver reads
to their end are exactly these, on any number of connections and in any order of events.
-/

namespace Npp.Network

open Npp.Foundation

/-- The stream is made of whole frames and brings the contents. -/
inductive Accepted : List UInt8 → List (List UInt8) → Prop where
  | nothing : Accepted [] []
  | message {head content rest : List UInt8} {cs : List (List UInt8)} (hhead : head.length = 8)
      (htype : (MessageHead.ofBytes head).type.val = 0) (hpos : 0 < content.length)
      (hsize : (MessageHead.ofBytes head).size.toNat = content.length) (h : Accepted rest cs) :
      Accepted (head ++ (content ++ (verifyBytes ++ rest))) (content :: cs)
  | rankReport {head rest : List UInt8} {cs : List (List UInt8)} (hhead : head.length = 8)
      (htype : (MessageHead.ofBytes head).type.val = 1) (h : Accepted rest cs) :
      Accepted (head ++ (verifyBytes ++ rest)) cs
  | unknown {head rest : List UInt8} {cs : List (List UInt8)} (hhead : head.length = 8)
      (hnormal : (MessageHead.ofBytes head).type.val ≠ 0)
      (hreport : (MessageHead.ofBytes head).type.val ≠ 1) (h : Accepted rest cs) :
      Accepted (head ++ rest) cs

variable {stream front rest : List UInt8} {cs ds : List (List UInt8)}

theorem Accepted.append (hfront : Accepted front cs) (hrest : Accepted rest ds) :
    Accepted (front ++ rest) (cs ++ ds) := by
  induction hfront with
  | nothing => exact hrest
  | message hhead htype hpos hsize _ ih =>
      simp only [List.append_assoc, List.cons_append]
      exact .message hhead htype hpos hsize ih
  | rankReport hhead htype _ ih =>
      simp only [List.append_assoc]
      exact .rankReport hhead htype ih
  | unknown hhead hnormal hreport _ ih =>
      simp only [List.append_assoc]
      exact .unknown hhead hnormal hreport ih

theorem Parsed.accepted (h : Parsed stream cs) : Accepted stream cs := by
  induction h with
  | start => exact .nothing
  | message _ hhead htype hpos hsize ih =>
      simpa using ih.append (.message hhead htype hpos hsize .nothing)
  | rankReport _ hhead htype ih => simpa using ih.append (.rankReport hhead htype .nothing)
  | unknown _ hhead hnormal hreport ih =>
      simpa using ih.append (.unknown hhead hnormal hreport .nothing)

theorem Accepted.nothing_of_nil (h : Accepted stream cs) (hnil : stream = []) : cs = [] := by
  cases h with
  | nothing => rfl
  | message hhead _ _ _ _ =>
      have hhead_nil := (List.append_eq_nil_iff.mp hnil).1
      exact absurd hhead_nil (List.ne_nil_of_length_eq_add_one hhead)
  | rankReport hhead _ _ =>
      have hhead_nil := (List.append_eq_nil_iff.mp hnil).1
      exact absurd hhead_nil (List.ne_nil_of_length_eq_add_one hhead)
  | unknown hhead _ _ _ =>
      have hhead_nil := (List.append_eq_nil_iff.mp hnil).1
      exact absurd hhead_nil (List.ne_nil_of_length_eq_add_one hhead)

/-! ## One event -/

/-- The frame in front is there to the end. -/
theorem Accepted.requested_le (h : Accepted stream cs) (hne : stream ≠ []) :
    requested stream ≤ stream.length := by
  cases h with
  | nothing => exact absurd rfl hne
  | @message head content rest cs hhead htype hpos hsize _ =>
      have hsome : (MessageHead.ofBytes head).size ≠ 0 := by
        intro hzero
        rw [hzero] at hsize
        exact absurd hsize (Nat.ne_of_lt hpos)
      have hcode := length_verifyBytes
      simp only [requested, frontHead_append hhead, htype, reduceIte, if_neg hsome, hsize,
        List.length_append, hhead, hcode]
      omega
  | @rankReport head rest cs hhead htype _ =>
      have hcode := length_verifyBytes
      simp only [requested, frontHead_append hhead, htype, Nat.one_ne_zero, reduceIte,
        List.length_append, hhead, hcode]
      omega
  | @unknown head rest cs hhead hnormal hreport _ =>
      simp only [requested, frontHead_append hhead, if_neg hnormal, if_neg hreport,
        List.length_append, hhead]
      omega

/-- The event takes the frame in front, and what is behind it is accepted too. -/
theorem Accepted.event (h : Accepted stream cs) (hne : stream ≠ []) {o : Oracle} (hfull : o.Full) :
    (handleEvent o stream).fate = .done ∧ ∃ ds, Accepted (handleEvent o stream).rest ds ∧
      cs = (handleEvent o stream).action.processed ++ ds := by
  cases h with
  | nothing => exact absurd rfl hne
  | @message head content rest ds hhead htype hpos hsize h =>
      rw [handleEvent_head hfull hhead, if_pos htype, readNormalMessage_body hfull hpos hsize,
        finishWith_full hfull]
      exact ⟨rfl, ds, h, rfl⟩
  | @rankReport head rest cs hhead htype h =>
      rw [handleEvent_head hfull hhead, if_neg (by rw [htype]; decide), if_pos htype,
        readRankReportMessage, finishWith_full hfull]
      exact ⟨rfl, cs, h, rfl⟩
  | @unknown head rest cs hhead hnormal hreport h =>
      rw [handleEvent_head hfull hhead, if_neg hnormal, if_neg hreport]
      exact ⟨rfl, cs, h, rfl⟩

theorem Takes.shorter {handled : Handled} (h : Takes stream handled) :
    handled.rest.length < stream.length := by
  cases h with
  | emptyMessage hhead htype hsize =>
      simp only [List.length_append]
      omega
  | message hhead htype hpos hsize hcode =>
      split
      all_goals
        simp only [List.length_append]
        omega
  | rankReport hhead htype hcode =>
      split
      all_goals
        simp only [List.length_append]
        omega
  | unknown hhead hnormal hreport =>
      simp only [List.length_append]
      omega

/-! ## Runs -/

namespace ServerState

variable {ι : Type} [DecidableEq ι] {streams : ι → List UInt8} {s s' : ServerState ι}
  {e : ι × Splits} {es : List (ι × Splits)} {cs : ι → List (List UInt8)}

/-- The server is alive, and what is left to read brings the contents that are missing. -/
def OnFrames (cs : ι → List (List UInt8)) (s : ServerState ι) : Prop :=
  s.fate = .done ∧ ∀ i, ∃ ds, Accepted (s.unread i) ds ∧ cs i = s.processed i ++ ds

theorem hostile_event (hstep : (hostile streams).step s e = some s') :
    e.2.oracle.Full ∧ s.unread e.1 ≠ [] ∧ s' = {
      unread := Function.update s.unread e.1 (handleEvent e.2.oracle (s.unread e.1)).rest
      processed := Function.update s.processed e.1
        (s.processed e.1 ++ (handleEvent e.2.oracle (s.unread e.1)).action.processed)
      fate := (handleEvent e.2.oracle (s.unread e.1)).fate } := by
  simp only [hostile, ServerState.step, Option.ite_none_right_eq_some, Option.some.injEq] at hstep
  obtain ⟨⟨hfull, -⟩, ⟨-, hne⟩, rfl⟩ := hstep
  exact ⟨hfull.oracle, hne, rfl⟩

theorem OnFrames.step (h : OnFrames cs s) (hstep : (hostile streams).step s e = some s') :
    OnFrames cs s' := by
  obtain ⟨hfull, hne, rfl⟩ := hostile_event hstep
  obtain ⟨ds, haccepted, hcs⟩ := h.2 e.1
  obtain ⟨hdone, ds', hrest, hds⟩ := haccepted.event hne hfull
  refine ⟨hdone, ?_⟩
  intro i
  by_cases hi : i = e.1
  · subst hi
    simp only [Function.update_self]
    exact ⟨ds', hrest, by rw [hcs, hds, List.append_assoc]⟩
  · simp only [Function.update_of_ne hi]
    exact h.2 i

/-- No event of the connection is possible. -/
def Quiet (streams : ι → List UInt8) (s : ServerState ι) (i : ι) : Prop :=
  ∀ sp, (hostile streams).step s (i, sp) = none

theorem OnFrames.quiet (h : OnFrames cs s) {i : ι} (hquiet : Quiet streams s i) :
    s.unread i = [] ∧ s.processed i = cs i := by
  obtain ⟨ds, haccepted, hcs⟩ := h.2 i
  have hunread : s.unread i = [] := by
    by_contra hne
    have hnone := hquiet wholeReads
    simp only [hostile] at hnone
    rw [if_pos ⟨wholeReads_full, haccepted.requested_le hne⟩, ServerState.step,
      if_pos ⟨h.1, hne⟩] at hnone
    cases hnone
  have hds := haccepted.nothing_of_nil hunread
  exact ⟨hunread, by rw [hcs, hds, List.append_nil]⟩

/-- Events of one connection can go on until none is possible. -/
theorem can_quiet (hrun : (hostile streams).Runs es s) (i : ι) :
    ∃ es' t, (hostile streams).Runs es' t ∧ Quiet streams t i := by
  have hreach : (hostile streams).CanReach (fun _ => True)
      (fun t => ∃ es', (hostile streams).Runs es' t ∧ Quiet streams t i) s := by
    refine Machine.CanReach.of_measure (I := fun t => ∃ es', (hostile streams).Runs es' t)
      (fun t => (t.unread i).length) ?_ ⟨es, hrun⟩
    rintro a ⟨es', ha⟩ hnot
    obtain ⟨sp, hsp⟩ : ∃ sp, (hostile streams).step a (i, sp) ≠ none := by
      by_contra hno
      exact hnot ⟨es', ha, fun sp => by_contra fun h => hno ⟨sp, h⟩⟩
    obtain ⟨a', hstep⟩ := Option.ne_none_iff_exists'.mp hsp
    obtain ⟨-, handled, htakes, hunread⟩ := hostile_step hstep
    refine ⟨[(i, sp)], a', fun _ _ => trivial, ?_, ⟨es' ++ [(i, sp)], ?_⟩, ?_⟩
    · rw [Machine.runFrom_singleton]
      exact hstep
    · exact Machine.runs_snoc.mpr ⟨a, ha, hstep⟩
    · rw [hunread]
      simp only [Function.update_self]
      exact htakes.shorter
  obtain ⟨-, t, -, -, hgoal⟩ := hreach
  obtain ⟨es', hrun', hquiet⟩ := hgoal
  exact ⟨es', t, hrun', hquiet⟩

/-- **The language of the receiver.** The streams of all connections are made of whole frames that
bring `cs` exactly when no order of events ends the server, and every connection on which no event
is possible any more has been read to its end and has brought its `cs`. -/
theorem language_iff :
    (∀ i, Parsed (streams i) (cs i)) ↔
      ∀ es s, (hostile streams).Runs es s → s.fate = .done ∧
        ∀ i, Quiet streams s i → s.unread i = [] ∧ s.processed i = cs i := by
  constructor
  · intro hparsed es s hrun
    have hinit : OnFrames cs (hostile streams).init :=
      ⟨rfl, fun i => ⟨cs i, (hparsed i).accepted, rfl⟩⟩
    have hframes : OnFrames cs s := hrun.invariant hinit fun _ _ _ h hstep => h.step hstep
    exact ⟨hframes.1, fun i hquiet => hframes.quiet hquiet⟩
  · intro hruns i
    have hstart : (hostile streams).Runs [] (hostile streams).init := rfl
    obtain ⟨es, t, hrun, hquiet⟩ := can_quiet hstart i
    obtain ⟨hdone, hread⟩ := hruns es t hrun
    obtain ⟨hunread, hprocessed⟩ := hread i hquiet
    obtain ⟨front, hfront, -, hstream⟩ := (checked_runs hrun).parsed i
    rw [hstream hdone, hunread, List.append_nil, ← hprocessed]
    exact hfront

end ServerState

end Npp.Network
