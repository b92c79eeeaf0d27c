import Npp.Network.Hostile
import Npp.Network.Node

/-!
# Frames of a type the receiver does not know

Frames of every type that three bits can tell arrive on one connection, and the reads give all they
ask for. Of a frame whose type is neither 0 nor 1 the receiver reads the head and no more, so what
it reads next, if there is enough for a head, is the inside of that frame.
-/

namespace Npp.Network

open Npp.Foundation

/-- A frame with any head. A rank report has no content; any other type has as much as its head
announces. -/
structure WireFrame where
  head : MessageHead
  content : List UInt8
  announced : content.length = if head.type.val = 1 then 0 else head.size.toNat

namespace WireFrame

def bytes (f : WireFrame) : List UInt8 := f.head.bytes ++ (f.content ++ verifyBytes)

def message (f : WireFrame) : Option (List UInt8) :=
  if f.head.type.val = 0 then some f.content else none

def rank (f : WireFrame) : Option Int :=
  if f.head.type.val = 1 then some (intOfUInt32 f.head.size) else none

def known (f : WireFrame) : Bool := f.head.type.val = 0 || f.head.type.val = 1

theorem length_bytes (f : WireFrame) : f.bytes.length = 8 + f.content.length + 4 := by
  simp only [bytes, List.length_append, MessageHead.length_bytes, length_verifyBytes]
  omega

theorem frontHead_bytes (f : WireFrame) (rest : List UInt8) :
    frontHead (f.bytes ++ rest) = f.head := by
  rw [bytes, List.append_assoc, frontHead_append (MessageHead.length_bytes _),
    MessageHead.ofBytes_bytes]

end WireFrame

structure StreamState where
  unread : List UInt8
  processed : List (List UInt8) := []
  ranks : List Int := []
  fate : Fate := .done

namespace StreamState

variable {fs : List WireFrame} {s s' : StreamState} {sp : Splits}

def messages (fs : List WireFrame) : List (List UInt8) := fs.filterMap WireFrame.message

def reportedRanks (fs : List WireFrame) : List Int := fs.filterMap WireFrame.rank

def step (s : StreamState) (sp : Splits) : Option StreamState :=
  if s.fate = .done ∧ sp.Full ∧ requested s.unread ≤ s.unread.length then
    let handled := handleEvent sp.oracle s.unread
    some {
      unread := handled.rest
      processed := s.processed ++ handled.action.processed
      ranks := s.ranks ++ handled.action.ranks
      fate := handled.fate }
  else none

def machine (fs : List WireFrame) : Machine StreamState Splits where
  init := { unread := fs.flatMap WireFrame.bytes }
  step := step

/-- The receiver is alive, the next head it reads is the head of a frame, and it has handed over in
order what the frames bring, all of it once nothing can be read. -/
structure InStep (fs : List WireFrame) (s : StreamState) : Prop where
  alive : s.fate = .done
  boundary : 8 ≤ s.unread.length →
    ∃ before after, fs = before ++ after ∧ s.unread = after.flatMap WireFrame.bytes
  messages : s.processed <+: messages fs
  ranks : s.ranks <+: reportedRanks fs
  complete : (∀ sp, s.step sp = none) →
    s.processed = StreamState.messages fs ∧ s.ranks = reportedRanks fs

/-- The head that is read next is not that of an empty message, and if its type is unknown, then
fewer than eight bytes follow. -/
def Readable (s : StreamState) (_ : Splits) : Prop :=
  let head := frontHead s.unread
  (head.type.val = 0 → head.size ≠ 0) ∧
  (head.type.val ≠ 0 → head.type.val ≠ 1 → s.unread.length < 16)

instance (s : StreamState) (sp : Splits) : Decidable (s.Readable sp) :=
  inferInstanceAs (Decidable (_ ∧ _))

/-! ## One frame -/

/-- What an event makes of the frame at the front. -/
theorem handleEvent_wireFrame {o : Oracle} (h : o.Full) (f : WireFrame) (rest : List UInt8) :
    (f.head.type.val = 0 ∧ f.head.size = 0 ∧
      (handleEvent o (f.bytes ++ rest)).fate = .aborted) ∨
    (f.known = true ∧ (f.head.type.val = 0 → f.head.size ≠ 0) ∧
      ∃ action, handleEvent o (f.bytes ++ rest) = { rest := rest, action := action } ∧
        action.processed = f.message.toList ∧ action.ranks = f.rank.toList) ∨
    (f.head.type.val ≠ 0 ∧ f.head.type.val ≠ 1 ∧ handleEvent o (f.bytes ++ rest) =
      { rest := f.content ++ (verifyBytes ++ rest) }) := by
  have hannounced := f.announced
  rw [WireFrame.bytes, List.append_assoc, List.append_assoc,
    handleEvent_head h (MessageHead.length_bytes _), MessageHead.ofBytes_bytes]
  by_cases hnormal : f.head.type.val = 0
  · rw [if_pos hnormal]
    by_cases hempty : f.head.size = 0
    · exact Or.inl ⟨hnormal, hempty, readNormalMessage_empty hempty⟩
    · right; left
      rw [hnormal, if_neg Nat.zero_ne_one] at hannounced
      have hpos : 0 < f.content.length := by
        rw [hannounced]
        apply Nat.pos_of_ne_zero
        exact fun hzero => hempty (UInt32.toNat_inj.mp hzero)
      refine ⟨by simp [WireFrame.known, hnormal], fun _ => hempty, .process f.content, ?_, ?_, ?_⟩
      · rw [readNormalMessage_body h hpos hannounced.symm, finishWith_full h]
      · simp [Action.processed, WireFrame.message, hnormal]
      · simp [Action.ranks, WireFrame.rank, hnormal]
  · rw [if_neg hnormal]
    by_cases hreport : f.head.type.val = 1
    · right; left
      have hnil : f.content = [] := by
        rw [hreport, if_pos rfl] at hannounced
        exact List.length_eq_zero_iff.mp hannounced
      refine ⟨by simp [WireFrame.known, hreport], fun hz => absurd hz hnormal,
        .insertRank (intOfUInt32 f.head.size) f.head.reserved, ?_, ?_, ?_⟩
      · rw [if_pos hreport, hnil, List.nil_append, readRankReportMessage, finishWith_full h]
      · simp [Action.processed, WireFrame.message, hnormal]
      · simp [Action.ranks, WireFrame.rank, hreport]
    · rw [if_neg hreport]
      exact Or.inr (Or.inr ⟨hnormal, hreport, rfl⟩)

/-- The reads of an event ask for no more than the frame at the front. -/
theorem requested_wireFrame (f : WireFrame) (rest : List UInt8) :
    requested (f.bytes ++ rest) ≤ (f.bytes ++ rest).length := by
  have hannounced := f.announced
  simp only [requested, f.frontHead_bytes, List.length_append, f.length_bytes]
  split
  case isTrue hnormal =>
    rw [hnormal, if_neg Nat.zero_ne_one] at hannounced
    split <;> omega
  case isFalse => split <;> omega

/-! ## At a boundary, or behind the last frame -/

def Split (fs before after : List WireFrame) (s : StreamState) : Prop :=
  fs = before ++ after ∧ s.unread = after.flatMap WireFrame.bytes ∧
    s.processed = messages before ∧ s.ranks = reportedRanks before

/-- The receiver is at a boundary; or all frames are done, and what is left of the last one is not
enough for a head. -/
def OnTrack (fs : List WireFrame) (s : StreamState) : Prop :=
  s.fate = .done ∧ ((∃ before after, Split fs before after s) ∨
    (s.unread.length < 8 ∧ s.processed = messages fs ∧ s.ranks = reportedRanks fs))

theorem messages_snoc (fs : List WireFrame) (f : WireFrame) :
    messages (fs ++ [f]) = messages fs ++ f.message.toList := by
  rw [messages, List.filterMap_append]
  cases h : f.message <;> simp [messages, h]

theorem reportedRanks_snoc (fs : List WireFrame) (f : WireFrame) :
    reportedRanks (fs ++ [f]) = reportedRanks fs ++ f.rank.toList := by
  rw [reportedRanks, List.filterMap_append]
  cases h : f.rank <;> simp [reportedRanks, h]

theorem eight_le_of_step (h : s.step sp = some s') : 8 ≤ s.unread.length := by
  rw [step, Option.ite_none_right_eq_some] at h
  exact Nat.le_trans (eight_le_requested s.unread) h.1.2.2

/-- An event that happens finds a frame at the front. -/
theorem OnTrack.next_frame (h : OnTrack fs s) (hstep : s.step sp = some s') :
    ∃ before f after, Split fs before (f :: after) s := by
  have height := eight_le_of_step hstep
  obtain ⟨-, ⟨before, after, hsplit⟩ | ⟨hshort, -⟩⟩ := h
  · cases after with
    | nil =>
        rw [hsplit.2.1] at height
        exact absurd height (by decide)
    | cons f after => exact ⟨before, f, after, hsplit⟩
  · omega

theorem step_eq (h : s.step sp = some s') :
    sp.oracle.Full ∧ s' = {
      unread := (handleEvent sp.oracle s.unread).rest
      processed := s.processed ++ (handleEvent sp.oracle s.unread).action.processed
      ranks := s.ranks ++ (handleEvent sp.oracle s.unread).action.ranks
      fate := (handleEvent sp.oracle s.unread).fate } := by
  simp only [step, Option.ite_none_right_eq_some, Option.some.injEq] at h
  exact ⟨h.1.2.1.oracle, h.2.symm⟩

theorem OnTrack.step (h : OnTrack fs s) (hreadable : s.Readable sp)
    (hstep : s.step sp = some s') : OnTrack fs s' := by
  obtain ⟨before, f, after, rfl, hunread, hprocessed, hranks⟩ := h.next_frame hstep
  obtain ⟨hfull, rfl⟩ := step_eq hstep
  rw [List.flatMap_cons] at hunread
  simp only [Readable, hunread, f.frontHead_bytes] at hreadable
  rcases handleEvent_wireFrame hfull f (after.flatMap WireFrame.bytes) with
    ⟨hnormal, hempty, -⟩ | ⟨-, -, action, hevent, hmessage, hrank⟩ | ⟨hnormal, hreport, hevent⟩
  · exact absurd hempty (hreadable.1 hnormal)
  · simp only [hunread, hevent]
    refine ⟨rfl, Or.inl ⟨before ++ [f], after, by simp, rfl, ?_, ?_⟩⟩
    · rw [messages_snoc, hprocessed, hmessage]
    · rw [reportedRanks_snoc, hranks, hrank]
  · -- too little follows for another frame
    have hlength := hreadable.2 hnormal hreport
    have hnil : after = [] := by
      cases after with
      | nil => rfl
      | cons g after =>
          rw [List.flatMap_cons] at hlength
          simp only [List.length_append, f.length_bytes, g.length_bytes] at hlength
          omega
    subst hnil
    simp only [hunread, hevent]
    refine ⟨rfl, Or.inr ⟨?_, ?_, ?_⟩⟩
    · simp only [List.length_append, f.length_bytes, List.flatMap_nil, List.length_nil,
        length_verifyBytes] at hlength ⊢
      omega
    · rw [messages_snoc, hprocessed]
      simp [Action.processed, WireFrame.message, hnormal]
    · rw [reportedRanks_snoc, hranks]
      simp [Action.ranks, WireFrame.rank, hreport]

/-- An unreadable head ends the receiver, or has it read the inside of a frame next. -/
theorem OnTrack.step_unreadable (h : OnTrack fs s) (hunreadable : ¬ s.Readable sp)
    (hstep : s.step sp = some s') : ¬ InStep fs s' := by
  obtain ⟨before, f, after, hsplit, hunread, -, -⟩ := h.next_frame hstep
  obtain ⟨hfull, rfl⟩ := step_eq hstep
  rw [List.flatMap_cons] at hunread
  intro hin
  simp only [Readable, hunread, f.frontHead_bytes] at hunreadable
  rcases handleEvent_wireFrame hfull f (after.flatMap WireFrame.bytes) with
    ⟨-, -, haborted⟩ | ⟨hknown, hsize, -⟩ | ⟨hnormal, hreport, hevent⟩
  · have halive := hin.alive
    simp only [hunread, haborted] at halive
    cases halive
  · apply hunreadable
    refine ⟨hsize, fun hnormal hreport => ?_⟩
    simp [WireFrame.known, hnormal, hreport] at hknown
  · have hlength : 16 ≤ (f.bytes ++ after.flatMap WireFrame.bytes).length := by
      by_contra hshort
      exact hunreadable ⟨fun hz => absurd hz hnormal, fun _ _ => Nat.not_le.mp hshort⟩
    have hboundary := hin.boundary
    simp only [hunread, hevent] at hboundary
    simp only [List.length_append, f.length_bytes, length_verifyBytes] at hlength hboundary
    obtain ⟨b, rest, hrest, heq⟩ := hboundary (by omega)
    -- the place behind the head would be a boundary inside of `f`
    have hcut := flatMap_cut WireFrame.bytes hsplit ⟨b, hrest.symm⟩
    have hsame := congrArg List.length heq
    simp only [List.length_append, f.length_bytes, length_verifyBytes] at hcut hsame
    omega

/-- With a frame left to read there is an event. -/
theorem Split.unread_nil {before after : List WireFrame} (h : Split fs before after s)
    (halive : s.fate = .done) (hstop : ∀ sp, s.step sp = none) : after = [] := by
  cases after with
  | nil => rfl
  | cons f after =>
      have hready : s.fate = .done ∧ wholeReads.Full ∧
          requested s.unread ≤ s.unread.length := by
        refine ⟨halive, by decide, ?_⟩
        rw [h.2.1, List.flatMap_cons]
        exact requested_wireFrame f _
      have hnone := hstop wholeReads
      rw [StreamState.step, if_pos hready] at hnone
      cases hnone

theorem OnTrack.inStep (h : OnTrack fs s) : InStep fs s := by
  obtain ⟨halive, ⟨before, after, hsplit⟩ | ⟨hshort, hprocessed, hranks⟩⟩ := h
  · have hsplit' := hsplit
    obtain ⟨rfl, hunread, hprocessed, hranks⟩ := hsplit'
    refine ⟨halive, fun _ => ⟨before, after, rfl, hunread⟩, ?_, ?_, fun hstop => ?_⟩
    · rw [hprocessed]
      exact ⟨messages after, List.filterMap_append.symm⟩
    · rw [hranks]
      exact ⟨reportedRanks after, List.filterMap_append.symm⟩
    · have hnil := hsplit.unread_nil halive hstop
      rw [hnil, List.append_nil]
      exact ⟨hprocessed, hranks⟩
  · refine ⟨halive, fun height => absurd height (Nat.not_le.mpr hshort), ?_, ?_, fun _ => ?_⟩
    · exact hprocessed ▸ List.prefix_rfl
    · exact hranks ▸ List.prefix_rfl
    · exact ⟨hprocessed, hranks⟩

/-- **Frames of unknown types.** The receiver stays in step with the frames through a run exactly
when no event of it finds an empty message, or a frame of an unknown type with eight bytes or more
behind its head. -/
theorem inStep_iff {sps : List Splits} (hrun : (machine fs).Runs sps s) :
    (machine fs).Meets Readable (machine fs).init sps ↔
      ∀ pre t, pre <+: sps → (machine fs).Runs pre t → InStep fs t := by
  apply hrun.meets_iff_good (I := OnTrack fs)
  · exact ⟨rfl, Or.inl ⟨[], fs, rfl, rfl, rfl, rfl⟩⟩
  · exact fun _ _ _ h hreadable hstep => h.step hreadable hstep
  · exact fun _ _ _ h hunreadable hstep => h.step_unreadable hunreadable hstep
  · exact fun _ h => h.inStep

def threeEvents : List Splits :=
  [wholeReads, wholeReads, wholeReads]

/-- A rank report, a message, and a frame of type 2 with too little inside for a head. -/
theorem inStep_iff_run :
    ∃ fs s, (machine fs).Runs threeEvents s ∧ InStep fs s ∧ s.processed = [[5, 6]] ∧
      s.ranks = [3] ∧ fs.length = 3 := by
  let fs : List WireFrame := [⟨{ type := 1, size := 3 }, [], by decide⟩,
    ⟨{ size := 2 }, [5, 6], by decide⟩, ⟨{ type := 2, size := 1 }, [9], by decide⟩]
  have hend : ((machine fs).runFrom (machine fs).init threeEvents).map
      (fun s => (s.processed, s.ranks)) = some ([[5, 6]], [3]) := by decide +kernel
  have hmeets : (machine fs).Meets Readable (machine fs).init threeEvents := by decide +kernel
  obtain ⟨s, hrun, hs⟩ := Option.map_eq_some_iff.mp hend
  obtain ⟨hprocessed, hranks⟩ := Prod.mk.inj hs
  exact ⟨fs, s, hrun, (inStep_iff hrun).mp hmeets _ s List.prefix_rfl hrun, hprocessed, hranks,
    rfl⟩

/-- One frame of type 5, whose content looks like a message and a rank report. The sequence has
neither, but the receiver hands over the one and enters the other. -/
theorem not_inStep :
    ∃ fs s, (machine fs).Runs threeEvents s ∧ messages fs = [] ∧ reportedRanks fs = [] ∧
      s.processed = [[7]] ∧ s.ranks = [9] ∧ ¬ InStep fs s := by
  let fs : List WireFrame := [⟨{ type := 5, size := 25 },
    normalMessage [7] ++ rankReportMessage 9 80, by decide⟩]
  have hend : ((machine fs).runFrom (machine fs).init threeEvents).map
      (fun s => (s.processed, s.ranks)) = some ([[7]], [9]) := by decide +kernel
  obtain ⟨s, hrun, hs⟩ := Option.map_eq_some_iff.mp hend
  obtain ⟨hprocessed, hranks⟩ := Prod.mk.inj hs
  refine ⟨fs, s, hrun, rfl, rfl, hprocessed, hranks, fun h => ?_⟩
  have hprefix := h.messages
  rw [hprocessed] at hprefix
  exact absurd hprefix (by decide)

end StreamState

end Npp.Network
