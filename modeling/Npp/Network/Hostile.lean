import Npp.Network.Segmentation

/-!
# Whatever a peer sends

Any bytes on any number of connections, and reads that give all they ask for. The receiver meets an
empty message and a wrong verify code with an assertion, so such a frame ends the server. What it
hands over has come in a message with the right code.
-/

namespace Npp.Network

open Npp.Foundation Npp.Basic

/-- What an event makes of the front of a stream when its reads give all they ask for. -/
inductive Takes : List UInt8 → Handled → Prop where
  | emptyMessage {head rest : List UInt8} (hhead : head.length = 8)
      (htype : (MessageHead.ofBytes head).type.val = 0)
      (hsize : (MessageHead.ofBytes head).size = 0) :
      Takes (head ++ rest) { rest := rest, fate := .aborted }
  | message {head content code rest : List UInt8} (hhead : head.length = 8)
      (htype : (MessageHead.ofBytes head).type.val = 0) (hpos : 0 < content.length)
      (hsize : (MessageHead.ofBytes head).size.toNat = content.length) (hcode : code.length = 4) :
      Takes (head ++ (content ++ (code ++ rest)))
        (if code = verifyBytes then { rest := rest, action := .process content }
        else { rest := rest, fate := .aborted })
  | rankReport {head code rest : List UInt8} (hhead : head.length = 8)
      (htype : (MessageHead.ofBytes head).type.val = 1) (hcode : code.length = 4) :
      Takes (head ++ (code ++ rest))
        (if code = verifyBytes then
          { rest := rest
            action := .insertRank (intOfUInt32 (MessageHead.ofBytes head).size)
              (MessageHead.ofBytes head).reserved }
        else { rest := rest, fate := .aborted })
  | unknown {head rest : List UInt8} (hhead : head.length = 8)
      (hnormal : (MessageHead.ofBytes head).type.val ≠ 0)
      (hreport : (MessageHead.ofBytes head).type.val ≠ 1) :
      Takes (head ++ rest) { rest := rest }

def frontHead (stream : List UInt8) : MessageHead := .ofBytes (stream.take 8)

/-- The bytes that the reads of the next event ask for. -/
def requested (stream : List UInt8) : Nat :=
  let head := frontHead stream
  if head.type.val = 0 then
    if head.size = 0 then 8 else 8 + head.size.toNat + 4
  else if head.type.val = 1 then 8 + 4
  else 8

/-- The next frame is not an empty message, and its verify code, if it has one, is right. -/
def Acceptable (stream : List UInt8) : Prop :=
  let head := frontHead stream
  (head.type.val = 0 →
    head.size ≠ 0 ∧ (stream.drop (8 + head.size.toNat)).take 4 = verifyBytes) ∧
  (head.type.val = 1 → (stream.drop 8).take 4 = verifyBytes)

instance (stream : List UInt8) : Decidable (Acceptable stream) :=
  inferInstanceAs (Decidable (_ ∧ _))

theorem eight_le_requested (stream : List UInt8) : 8 ≤ requested stream := by
  unfold requested
  dsimp only
  split
  · split <;> omega
  · split <;> omega

theorem frontHead_append {head : List UInt8} (hhead : head.length = 8) (rest : List UInt8) :
    frontHead (head ++ rest) = .ofBytes head := by
  rw [frontHead, List.take_left' hhead]

/-- **One event on any bytes.** -/
theorem handleEvent_takes {o : Oracle} (h : o.Full) {stream : List UInt8}
    (hsize : requested stream ≤ stream.length) : Takes stream (handleEvent o stream) := by
  obtain ⟨head, rest, hhead, rfl⟩ : ∃ head rest, head.length = 8 ∧ stream = head ++ rest := by
    refine ⟨stream.take 8, stream.drop 8, ?_, (List.take_append_drop 8 stream).symm⟩
    have hmin := Nat.le_trans (eight_le_requested stream) hsize
    rw [List.length_take]
    omega
  rw [requested, frontHead_append hhead, List.length_append, hhead] at hsize
  rw [handleEvent_head h hhead]
  split
  case isTrue htype =>
    rw [if_pos htype] at hsize
    by_cases hempty : (MessageHead.ofBytes head).size = 0
    · have halloc : Bytes.alloc (MessageHead.ofBytes head).size.toNat o.heap = none := by
        rw [hempty]
        rfl
      rw [readNormalMessage, halloc]
      exact .emptyMessage hhead htype hempty
    · rw [if_neg hempty] at hsize
      let n := (MessageHead.ofBytes head).size.toNat
      have hn : (MessageHead.ofBytes head).size.toNat = n := rfl
      have hpos : 0 < n := by
        apply Nat.pos_of_ne_zero
        intro hzero
        exact hempty (UInt32.toNat_inj.mp hzero)
      have hcontent : (rest.take n).length = n := by
        rw [List.length_take]
        omega
      have hcode : ((rest.drop n).take 4).length = 4 := by
        rw [List.length_take, List.length_drop]
        omega
      rw [← List.take_append_drop n rest, ← List.take_append_drop 4 (rest.drop n)]
      rw [readNormalMessage_body h (by rw [hcontent]; exact hpos) (hn.trans hcontent.symm),
        finishWith_code h hcode]
      exact .message hhead htype (by rw [hcontent]; exact hpos) (hn.trans hcontent.symm) hcode
  case isFalse hnormal =>
    rw [if_neg hnormal] at hsize
    split
    case isTrue htype =>
      rw [if_pos htype] at hsize
      have hcode : (rest.take 4).length = 4 := by
        rw [List.length_take]
        omega
      rw [← List.take_append_drop 4 rest, readRankReportMessage, finishWith_code h hcode]
      exact .rankReport hhead htype hcode
    case isFalse hreport => exact .unknown hhead hnormal hreport

/-- The server stays alive exactly behind an acceptable frame. -/
theorem Takes.done_iff {stream : List UInt8} {handled : Handled} (h : Takes stream handled) :
    handled.fate = .done ↔ Acceptable stream := by
  cases h with
  | emptyMessage hhead htype hsize =>
      simp only [Acceptable, frontHead_append hhead, htype, hsize]
      simp
  | @message head content code rest hhead htype hpos hsize hcode =>
      have hne : (MessageHead.ofBytes head).size ≠ 0 := by
        intro hzero
        rw [hzero] at hsize
        exact absurd hsize (Nat.ne_of_lt hpos)
      simp only [Acceptable, frontHead_append hhead, htype, hsize]
      rw [← List.drop_drop, List.drop_left' hhead, List.drop_left, List.take_left' hcode]
      split <;> simp [*]
  | rankReport hhead htype hcode =>
      simp only [Acceptable, frontHead_append hhead, htype, List.drop_left' hhead,
        List.take_left' hcode]
      split <;> simp [*]
  | unknown hhead hnormal hreport =>
      simp only [Acceptable, frontHead_append hhead]
      simp [hnormal, hreport]

/-! ## What may be handed over -/

/-- The messages with the right code among whole frames of any kind. -/
inductive Parsed : List UInt8 → List (List UInt8) → Prop where
  | start : Parsed [] []
  | message {front head content : List UInt8} {cs : List (List UInt8)} (h : Parsed front cs)
      (hhead : head.length = 8) (htype : (MessageHead.ofBytes head).type.val = 0)
      (hpos : 0 < content.length)
      (hsize : (MessageHead.ofBytes head).size.toNat = content.length) :
      Parsed (front ++ (head ++ (content ++ verifyBytes))) (cs ++ [content])
  | rankReport {front head : List UInt8} {cs : List (List UInt8)} (h : Parsed front cs)
      (hhead : head.length = 8) (htype : (MessageHead.ofBytes head).type.val = 1) :
      Parsed (front ++ (head ++ verifyBytes)) cs
  | unknown {front head : List UInt8} {cs : List (List UInt8)} (h : Parsed front cs)
      (hhead : head.length = 8) (hnormal : (MessageHead.ofBytes head).type.val ≠ 0)
      (hreport : (MessageHead.ofBytes head).type.val ≠ 1) : Parsed (front ++ head) cs

/-- An event that ends well has taken one frame; one that ends the server hands nothing over. -/
theorem Takes.parsed {stream front : List UInt8} {handled : Handled} {cs : List (List UInt8)}
    (h : Takes stream handled) (hfront : Parsed front cs) :
    (handled.fate = .done ∧ ∃ front', Parsed front' (cs ++ handled.action.processed) ∧
      front ++ stream = front' ++ handled.rest) ∨
    (handled.fate = .aborted ∧ handled.action.processed = []) := by
  cases h with
  | emptyMessage hhead htype hsize => exact Or.inr ⟨rfl, rfl⟩
  | message hhead htype hpos hsize hcode =>
      split
      case isTrue hright =>
        subst hright
        exact Or.inl ⟨rfl, _, hfront.message hhead htype hpos hsize, by
          simp only [List.append_assoc]⟩
      case isFalse => exact Or.inr ⟨rfl, rfl⟩
  | rankReport hhead htype hcode =>
      split
      case isTrue hright =>
        subst hright
        refine Or.inl ⟨rfl, _, (List.append_nil cs).symm ▸ hfront.rankReport hhead htype, ?_⟩
        simp only [List.append_assoc]
      case isFalse => exact Or.inr ⟨rfl, rfl⟩
  | unknown hhead hnormal hreport =>
      refine Or.inl ⟨rfl, _, (List.append_nil cs).symm ▸ hfront.unknown hhead hnormal hreport, ?_⟩
      rw [List.append_assoc]

namespace ServerState

variable {ι : Type} [DecidableEq ι]

/-- The server and its peers, which send `streams`. An event happens once its reads can give all
they ask for. -/
def hostile (streams : ι → List UInt8) : Machine (ServerState ι) (ι × Splits) where
  init := { unread := streams, processed := fun _ => [] }
  step s e :=
    if e.2.Full ∧ requested (s.unread e.1) ≤ (s.unread e.1).length then s.step e else none

variable {streams : ι → List UInt8} {s s' : ServerState ι} {e : ι × Splits}
  {es : List (ι × Splits)}

theorem hostile_step (hstep : (hostile streams).step s e = some s') :
    s.fate = .done ∧ ∃ handled, Takes (s.unread e.1) handled ∧ s' = {
      unread := Function.update s.unread e.1 handled.rest
      processed := Function.update s.processed e.1
        (s.processed e.1 ++ handled.action.processed)
      fate := handled.fate } := by
  simp only [hostile, ServerState.step, Option.ite_none_right_eq_some, Option.some.injEq] at hstep
  obtain ⟨⟨hfull, hsize⟩, ⟨hdone, -⟩, rfl⟩ := hstep
  exact ⟨hdone, _, handleEvent_takes hfull.oracle hsize, rfl⟩

/-- The invariant: what was handed over on a connection is what the whole frames at its front
bring, and only an assertion ends the server. -/
structure Checked (streams : ι → List UInt8) (s : ServerState ι) : Prop where
  fate : s.fate = .done ∨ s.fate = .aborted
  parsed : ∀ i, ∃ front, Parsed front (s.processed i) ∧ front <+: streams i ∧
    (s.fate = .done → streams i = front ++ s.unread i)

theorem Checked.step (h : Checked streams s) (hstep : (hostile streams).step s e = some s') :
    Checked streams s' := by
  obtain ⟨hdone, handled, htakes, rfl⟩ := hostile_step hstep
  obtain ⟨front, hfront, hprefix, hstream⟩ := h.parsed e.1
  rcases htakes.parsed hfront with ⟨hfate, front', hfront', hsplit⟩ | ⟨hfate, hnone⟩
  · refine ⟨Or.inl hfate, ?_⟩
    intro i
    by_cases hi : i = e.1
    · subst hi
      have hwhole : streams e.1 = front' ++ handled.rest := (hstream hdone).trans hsplit
      simp only [Function.update_self]
      exact ⟨front', hfront', ⟨_, hwhole.symm⟩, fun _ => hwhole⟩
    · obtain ⟨f, hf, hp, hs⟩ := h.parsed i
      simp only [Function.update_of_ne hi]
      exact ⟨f, hf, hp, fun _ => hs hdone⟩
  · refine ⟨Or.inr hfate, ?_⟩
    intro i
    by_cases hi : i = e.1
    · subst hi
      simp only [Function.update_self, hnone, List.append_nil, hfate]
      exact ⟨front, hfront, hprefix, fun hd => nomatch hd⟩
    · obtain ⟨f, hf, hp, hs⟩ := h.parsed i
      simp only [Function.update_of_ne hi]
      exact ⟨f, hf, hp, fun _ => hs hdone⟩

theorem checked_init : Checked streams (hostile streams).init :=
  ⟨Or.inl rfl, fun _ => ⟨[], .start, List.nil_prefix, fun _ => rfl⟩⟩

theorem checked_runs (hrun : (hostile streams).Runs es s) : Checked streams s :=
  hrun.invariant checked_init fun _ _ _ h hstep => h.step hstep

def NextAcceptable (s : ServerState ι) (e : ι × Splits) : Prop := Acceptable (s.unread e.1)

instance (s : ServerState ι) (e : ι × Splits) : Decidable (NextAcceptable s e) :=
  inferInstanceAs (Decidable (Acceptable _))

theorem hostile_step_done (hstep : (hostile streams).step s e = some s') :
    s'.fate = .done ↔ NextAcceptable s e := by
  obtain ⟨-, handled, htakes, rfl⟩ := hostile_step hstep
  exact htakes.done_iff

/-- **What a peer can do to the server.** It stays alive through a run exactly when no event finds
an empty message or a wrong verify code. Nothing but an assertion ends it, and a content is handed
over only from a message with the right code. -/
theorem hostile_iff (hrun : (hostile streams).Runs es s) :
    ((hostile streams).Meets NextAcceptable (hostile streams).init es ↔
      ∀ pre t, pre <+: es → (hostile streams).Runs pre t → t.fate = .done) ∧
    (s.fate = .done ∨ s.fate = .aborted) ∧
    ∀ i, ∃ front, front <+: streams i ∧ Parsed front (s.processed i) := by
  have hchecked : Checked streams s := checked_runs hrun
  refine ⟨?_, hchecked.fate, ?_⟩
  · refine hrun.meets_iff (I := fun s => s.fate = .done) rfl ?_
    intro s e s' _ hstep
    exact hostile_step_done hstep
  · intro i
    obtain ⟨front, hfront, hprefix, -⟩ := hchecked.parsed i
    exact ⟨front, hprefix, hfront⟩

/-- A head of an unknown type and then a message on one connection, a rank report on the other. -/
def twoPeers (first : Bool) : List UInt8 :=
  if first then [0, 2, 0, 0, 0, 0, 0, 0] ++ normalMessage [5, 6]
  else rankReportMessage 3 80

theorem hostile_iff_run :
    ∃ s, (hostile twoPeers).Runs
        [(true, wholeReads), (false, wholeReads), (true, wholeReads)] s ∧
      (∀ pre t, pre <+: [(true, wholeReads), (false, wholeReads), (true, wholeReads)] →
        (hostile twoPeers).Runs pre t → t.fate = .done) ∧
      s.processed true = [[5, 6]] := by
  have hrun : (hostile twoPeers).Runs
      [(true, wholeReads), (false, wholeReads), (true, wholeReads)] _ := rfl
  exact ⟨_, hrun, (hostile_iff hrun).1.mp (by decide), by decide⟩

/-- The head of an empty message ends the server, and so does a message of one byte whose verify
code is, as its head says, the exclusive or of the content. -/
theorem not_hostile :
    (∃ s, (hostile fun _ : Unit => MessageHead.bytes {}).Runs [((), wholeReads)] s ∧
      s.fate = .aborted) ∧
    (∃ s, (hostile fun _ : Unit =>
        MessageHead.bytes { verify := 1, size := 1 } ++ [7] ++ littleEndian 4 7).Runs
          [((), wholeReads)] s ∧ s.fate = .aborted) :=
  ⟨⟨_, rfl, by decide⟩, ⟨_, rfl, by decide⟩⟩

end ServerState

end Npp.Network
