import Npp.Foundation.Machine
import Npp.Network.Node

/-!
# Failed sends

One thread makes `sendMessage` calls to one rank, one after the other, and every `writev` ends as
it likes: with an error, short, or whole. A short write leaves a torn frame on a connection that
`socks` keeps. The receiver is the event handler on complete messages, with whole reads.
-/

namespace Npp.Network

open Npp.Foundation

/-! ## A receiver that reads frame by frame -/

def MessageHead.messageSize (head : MessageHead) : Nat :=
  if head.type.val = 0 then 8 + head.size.toNat + 4
  else if head.type.val = 1 then 12
  else 8

/-- The length of the message at the front of a stream, as its head tells. -/
def messageSize (stream : List UInt8) : Nat := (MessageHead.ofBytes (stream.take 8)).messageSize

/-- The contents handed to `processMessage`, one event for each message that is there. -/
def receive (o : Oracle) : (fuel : Nat) → List UInt8 → List (List UInt8)
  | 0, _ => []
  | fuel + 1, stream =>
      if stream.length < 8 ∨ stream.length < messageSize stream then []
      else
        let handled := handleEvent o stream
        handled.action.processed ++
          (if handled.fate = .done then receive o fuel handled.rest else [])

def delivered (o : Oracle) (stream : List UInt8) : List (List UInt8) :=
  receive o stream.length stream

/-- What a short write leaves of a frame. -/
def Torn (bytes : List UInt8) : Prop :=
  ∃ data, data.length < 2 ^ 32 ∧ bytes <+: normalMessage data ∧ bytes ≠ normalMessage data

def AtBoundary (bytes : List UInt8) : Prop := ∃ fs : List Frame, bytes = fs.flatMap Frame.bytes

theorem messageSize_of_take {stream : List UInt8} {head : MessageHead}
    (h : stream.take 8 = head.bytes) : messageSize stream = head.messageSize := by
  rw [messageSize, h, MessageHead.ofBytes_bytes]

theorem take_normalMessage (data rest : List UInt8) :
    (normalMessage data ++ rest).take 8 = (normalHead data.length).bytes := by
  rw [normalMessage, List.append_assoc, List.append_assoc]
  exact List.take_left' (MessageHead.length_bytes _)

theorem length_normalMessage (data : List UInt8) :
    (normalMessage data).length = 8 + data.length + 4 := by
  simp only [normalMessage, List.length_append, MessageHead.length_bytes, length_verifyBytes]

theorem normalHead_messageSize {n : Nat} (h : n < 2 ^ 32) :
    (normalHead n).messageSize = 8 + n + 4 := by
  have htype : (normalHead n).type.val = 0 := rfl
  rw [MessageHead.messageSize, if_pos htype, normalHead_size h]

/-- The head of a frame tells how long it is. -/
theorem Frame.messageSize_append (f : Frame) (rest : List UInt8) :
    messageSize (f.bytes ++ rest) = f.bytes.length := by
  cases f with
  | normal content =>
      have hlength := length_normalMessage content.bytes
      rw [Frame.bytes, messageSize_of_take (take_normalMessage content.bytes rest),
        normalHead_messageSize content.bounded, hlength]
  | rankReport rank port =>
      have htake : (rankReportMessage rank port ++ rest).take 8 =
          (rankReportHead rank port).bytes := by
        rw [rankReportMessage, List.append_assoc]
        exact List.take_left' (MessageHead.length_bytes _)
      have htype : (rankReportHead rank port).messageSize = 12 := rfl
      rw [Frame.bytes, messageSize_of_take htake, htype]
      simp [rankReportMessage]

theorem Frame.eight_le (f : Frame) : 8 ≤ f.bytes.length := by
  cases f <;> simp [bytes, normalMessage, rankReportMessage]

/-- A torn frame is shorter than its head says. -/
theorem Torn.incomplete {bytes : List UInt8} (h : Torn bytes) :
    bytes.length < 8 ∨ bytes.length < messageSize bytes := by
  obtain ⟨data, hdata, hpiece, hne⟩ := h
  by_cases hshort : bytes.length < 8
  · exact Or.inl hshort
  · right
    obtain ⟨left, hleft⟩ := hpiece
    have htake : bytes.take 8 = (normalHead data.length).bytes := by
      rw [← take_normalMessage data [], List.append_nil, ← hleft,
        List.take_append_of_le_length (by omega)]
    rw [messageSize_of_take htake, normalHead_messageSize hdata, ← length_normalMessage]
    have hpos : left ≠ [] := by
      rintro rfl
      exact hne (by rw [← hleft, List.append_nil])
    have := List.length_pos_of_ne_nil hpos
    rw [← hleft, List.length_append]
    omega

theorem Torn.nil : Torn [] := ⟨[], by decide, List.nil_prefix, by decide⟩

theorem Torn.receive {bytes : List UInt8} (h : Torn bytes) (o : Oracle) (fuel : Nat) :
    Npp.Network.receive o fuel bytes = [] := by
  cases fuel with
  | zero => rfl
  | succ fuel => rw [Npp.Network.receive, if_pos h.incomplete]

/-- The frames at the front of a stream are delivered, whatever follows. -/
theorem receive_frames {o : Oracle} (h : o.Full) (fs : List Frame) (tail : List UInt8)
    {fuel : Nat} (hfuel : (fs.flatMap Frame.bytes ++ tail).length ≤ fuel) :
    ∃ fuel', tail.length ≤ fuel' ∧
      receive o fuel (fs.flatMap Frame.bytes ++ tail) = contents fs ++ receive o fuel' tail := by
  induction fs generalizing fuel with
  | nil => exact ⟨fuel, hfuel, rfl⟩
  | cons f fs ih =>
      rw [List.flatMap_cons, List.append_assoc] at hfuel ⊢
      have height := f.eight_le
      rw [List.length_append] at hfuel
      obtain ⟨fuel, rfl⟩ : ∃ k, fuel = k + 1 := ⟨fuel - 1, by omega⟩
      have hcomplete : ¬ ((f.bytes ++ (fs.flatMap Frame.bytes ++ tail)).length < 8 ∨
          (f.bytes ++ (fs.flatMap Frame.bytes ++ tail)).length <
            messageSize (f.bytes ++ (fs.flatMap Frame.bytes ++ tail))) := by
        rw [f.messageSize_append, List.length_append]
        omega
      obtain ⟨fuel', hfuel', hreceive⟩ := ih (Nat.le_of_lt_succ (by omega) : _ ≤ fuel)
      refine ⟨fuel', hfuel', ?_⟩
      rw [receive, if_neg hcomplete, handleEvent_frame h]
      dsimp only
      rw [if_pos rfl, hreceive, f.action_processed, contents_cons, List.append_assoc]

theorem delivered_torn {o : Oracle} (h : o.Full) (fs : List Frame) {torn : List UInt8}
    (htorn : Torn torn) : delivered o (fs.flatMap Frame.bytes ++ torn) = contents fs := by
  obtain ⟨fuel, -, hreceive⟩ := receive_frames h fs torn (Nat.le_refl _)
  rw [delivered, hreceive, htorn.receive, List.append_nil]

theorem receive_processed {o : Oracle} {fuel : Nat} {stream content : List UInt8}
    (h : content ∈ receive o fuel stream) : 0 < content.length ∧ content.length < 2 ^ 32 := by
  induction fuel generalizing stream with
  | zero => cases h
  | succ fuel ih =>
      rw [receive] at h
      split at h
      case isTrue => cases h
      case isFalse =>
        rcases List.mem_append.mp h with h | h
        · exact handleEvent_processed h
        · split at h
          case isTrue => exact ih h
          case isFalse => cases h

/-- Behind a torn frame there is no boundary. -/
theorem Torn.not_atBoundary {torn : List UInt8} (h : Torn torn) (hne : torn ≠ [])
    (fs : List Frame) : ¬ AtBoundary (fs.flatMap Frame.bytes ++ torn) := by
  rintro ⟨gs, hgs⟩
  induction fs generalizing gs with
  | nil =>
      cases gs with
      | nil => exact hne hgs
      | cons g gs =>
          have hsize := g.messageSize_append (gs.flatMap Frame.bytes)
          have hlength := congrArg List.length hgs
          rw [List.flatMap_cons, List.flatMap_nil, List.nil_append] at hgs
          simp only [List.flatMap_nil, List.nil_append, List.flatMap_cons,
            List.length_append] at hlength
          rw [← hgs] at hsize
          have height := g.eight_le
          have hincomplete := h.incomplete
          omega
  | cons f fs ih =>
      rw [List.flatMap_cons, List.append_assoc] at hgs
      cases gs with
      | nil => exact f.bytes_ne_nil (List.append_eq_nil_iff.mp hgs).1
      | cons g gs =>
          rw [List.flatMap_cons] at hgs
          -- the stream has one first head, and it tells one length
          have hsize : f.bytes.length = g.bytes.length := by
            rw [← f.messageSize_append, hgs, g.messageSize_append]
          exact ih gs (List.append_inj hgs hsize).2

/-! ## A history of calls -/

/-- A call that has returned normally: its content, and the descriptor that its bytes went to with
what had been written there before. -/
structure Sent where
  content : List UInt8
  place : Option (Int × List UInt8)
deriving DecidableEq, Repr

/-- `torn` lists the descriptors on which a `writev` has stopped short after at least one byte. -/
structure SendState where
  node : Node
  call : Option Sender := none
  returned : List Sent := []
  torn : List Int := []

/-- A node that has sent nothing yet: its connections, if any, were accepted. -/
structure FreshNode where
  node : Node
  nothingSent : ∀ fd c, node.connection fd = some c → c.sent = []

def FreshNode.registered (myRank : Int) (listenPort : UInt16) (rank : Int) (ip : UInt32)
    (port : UInt16) : FreshNode where
  node := ({ myRank := myRank, listenPort := listenPort } : Node).registerTarget rank ip port
  nothingSent fd c hc := by
    rw [Node.connection_eq_of_fds (Node.registerTarget_fds rank ip port)] at hc
    cases hc

namespace Sender

def holds (x : Sender) : Option Int :=
  match x.phase with
  | .holding sock _ => some sock
  | _ => none

def place (x : Sender) (n : Node) : Option (Int × List UInt8) :=
  x.holds.bind fun sock => (n.connection sock).map fun c => (sock, c.sent)

/-- The descriptor that a `writev` leaves torn. -/
def tears (x : Sender) (o : WriteOutcome) : List Int :=
  match x.holds, o with
  | some sock, .wrote k => if 0 < k ∧ k < (normalMessage x.data).length then [sock] else []
  | _, _ => []

/-- A `writev` that takes at least one byte has no torn frame before it, its data has a length that
the head can tell, and is not empty if the message goes out whole. -/
def Fits (x : Sender) (torn : List Int) (k : Nat) : Prop :=
  ∀ sock ∈ x.holds, 0 < k → sock ∉ torn ∧ x.data.length < 2 ^ 32 ∧
    ((normalMessage x.data).length ≤ k → 0 < x.data.length)

instance (x : Sender) (torn : List Int) (k : Nat) : Decidable (x.Fits torn k) :=
  inferInstanceAs (Decidable (∀ sock ∈ x.holds, _))

def returns (x : Sender) (place : Option (Int × List UInt8)) : List Sent :=
  if x.phase = .returned then [⟨x.data, place⟩] else []

end Sender

namespace SendState

inductive Label where
  | sendMessage (data : List UInt8) (retry : Int)
  | getSendSocket (a : ConnectOutcome)
  | writev (o : WriteOutcome)
  | clearSendSocket
deriving DecidableEq, Repr

def advance (s : SendState) (r : Sender × Node) (place : Option (Int × List UInt8)) : SendState :=
  { s with node := r.2, call := some r.1, returned := s.returned ++ r.1.returns place }

def afterWrite (s : SendState) (x : Sender) (o : WriteOutcome) (r : Sender × Node) : SendState :=
  { s.advance r (x.place s.node) with torn := s.torn ++ x.tears o }

def step (rank : Int) (s : SendState) : Label → Option SendState
  | .sendMessage data retry =>
      match s.call with
      | none => some (s.advance (.call rank data retry, s.node) none)
      | some x =>
          match x.phase with
          | .returned | .threw _ => some (s.advance (.call rank data retry, s.node) none)
          | _ => none
  | .getSendSocket a =>
      s.call.bind fun x => (x.getSendSocket s.node a).map fun r => s.advance r none
  | .writev o =>
      s.call.bind fun x => (x.writev s.node o).map (s.afterWrite x o)
  | .clearSendSocket =>
      s.call.bind fun x => (x.clearSendSocket s.node).map fun r => s.advance r none

def machine (rank : Int) (start : FreshNode) : Machine SendState Label where
  init := { node := start.node }
  step := step rank

def sentOn (s : SendState) (fd : Int) : List (List UInt8) :=
  (s.returned.filter fun r => r.place.map Prod.fst = some fd).map Sent.content

/-- What was returned from starts at a frame boundary of an open connection, and a receiver gets
exactly what was returned from. -/
structure Delivers (s : SendState) : Prop where
  boundary : ∀ r ∈ s.returned, ∃ fd before, r.place = some (fd, before) ∧ AtBoundary before ∧
    (s.node.connection fd).isSome
  received : ∀ o : Oracle, o.Full → ∀ fd c, s.node.connection fd = some c →
    delivered o c.sent = s.sentOn fd

/-- A call is made with `retry >= 0`, and what a `writev` writes fits. -/
def KeepsFrames (s : SendState) : Label → Prop
  | .sendMessage _ retry => 0 ≤ retry
  | .writev (.wrote k) => ∀ x ∈ s.call, x.Fits s.torn k
  | _ => True

instance (s : SendState) : ∀ l, Decidable (KeepsFrames s l)
  | .sendMessage _ retry => inferInstanceAs (Decidable (0 ≤ retry))
  | .getSendSocket _ | .clearSendSocket | .writev (.error _) => .isTrue trivial
  | .writev (.wrote k) => inferInstanceAs (Decidable (∀ x ∈ s.call, x.Fits s.torn k))

/-- The invariant behind `Delivers`: the bytes of a connection are frames and at most one torn
frame. -/
structure Framed (s : SendState) : Prop where
  connections : ∀ fd c, s.node.connection fd = some c → ∃ fs torn,
    c.sent = fs.flatMap Frame.bytes ++ torn ∧ contents fs = s.sentOn fd ∧ Torn torn ∧
      (fd ∈ s.torn ↔ torn ≠ [])
  boundary : ∀ r ∈ s.returned, ∃ fd before, r.place = some (fd, before) ∧ AtBoundary before ∧
    (s.node.connection fd).isSome
  torn : ∀ fd ∈ s.torn, (s.node.connection fd).isSome

theorem sentOn_advance (s : SendState) (r : Sender × Node)
    (place : Option (Int × List UInt8)) (fd : Int) :
    (s.advance r place).sentOn fd = s.sentOn fd ++
      ((r.1.returns place).filter fun r => r.place.map Prod.fst = some fd).map Sent.content := by
  simp only [sentOn, advance, List.filter_append, List.map_append]

variable {s s' : SendState}

/-- What a receiver gets from frames and one torn frame. -/
theorem Framed.delivers (h : Framed s) : Delivers s := by
  refine ⟨h.boundary, ?_⟩
  intro o ho fd c hc
  obtain ⟨fs, torn, hsent, hcontents, htorn, -⟩ := h.connections fd c hc
  rw [hsent, delivered_torn ho fs htorn, hcontents]

theorem Framed.same (h : Framed s) (hconnection : s'.node.connection = s.node.connection)
    (hreturned : s'.returned = s.returned) (htorn : s'.torn = s.torn) : Framed s' := by
  have hsent : s'.sentOn = s.sentOn := by
    funext fd
    rw [sentOn, hreturned]
    rfl
  constructor
  · rw [hconnection, hsent, htorn]
    exact h.connections
  · rw [hconnection, hreturned]
    exact h.boundary
  · rw [hconnection, htorn]
    exact h.torn

/-- A step that opens one connection or writes to it. -/
theorem Framed.put (h : Framed s) {sock : Int} {c : Connection} (fs : List Frame)
    (torn : List UInt8)
    (hconnection : s'.node.connection = Function.update s.node.connection sock (some c))
    (hbytes : c.sent = fs.flatMap Frame.bytes ++ torn) (hcontents : contents fs = s'.sentOn sock)
    (htorn : Torn torn) (htorn_iff : sock ∈ s'.torn ↔ torn ≠ [])
    (hsent : ∀ fd, fd ≠ sock → s'.sentOn fd = s.sentOn fd)
    (hother : ∀ fd, fd ≠ sock → (fd ∈ s'.torn ↔ fd ∈ s.torn))
    (hreturned : ∀ r ∈ s'.returned, r ∈ s.returned ∨
      ∃ before, r.place = some (sock, before) ∧ AtBoundary before) : Framed s' := by
  have hopen : ∀ fd, (s.node.connection fd).isSome → (s'.node.connection fd).isSome := by
    intro fd hfd
    rw [hconnection]
    by_cases hsock : fd = sock
    · rw [hsock, Function.update_self]
      rfl
    · rw [Function.update_of_ne hsock]
      exact hfd
  have hself : (s'.node.connection sock).isSome := by
    rw [hconnection, Function.update_self]
    rfl
  constructor
  · intro fd c' hc'
    rw [hconnection] at hc'
    by_cases hsock : fd = sock
    · subst hsock
      rw [Function.update_self] at hc'
      obtain rfl := Option.some.inj hc'
      exact ⟨fs, torn, hbytes, hcontents, htorn, htorn_iff⟩
    · rw [Function.update_of_ne hsock] at hc'
      rw [hsent fd hsock, hother fd hsock]
      exact h.connections fd c' hc'
  · intro r hr
    rcases hreturned r hr with hr | ⟨before, hplace, hboundary⟩
    · obtain ⟨fd, before, hplace, hboundary, hfd⟩ := h.boundary r hr
      exact ⟨fd, before, hplace, hboundary, hopen fd hfd⟩
    · exact ⟨sock, before, hplace, hboundary, hself⟩
  · intro fd hfd
    by_cases hsock : fd = sock
    · subst hsock
      exact hself
    · exact hopen fd (h.torn fd ((hother fd hsock).mp hfd))

/-- Nothing was written to a descriptor without a connection. -/
theorem Framed.sentOn_free (h : Framed s) {fd : Int} (hfree : s.node.connection fd = none) :
    s.sentOn fd = [] := by
  have hnone : s.returned.filter (fun r => r.place.map Prod.fst = some fd) = [] := by
    apply List.filter_eq_nil_iff.mpr
    intro r hr hplace
    obtain ⟨fd', before, hr', -, hopen⟩ := h.boundary r hr
    rw [hr', decide_eq_true_eq] at hplace
    obtain rfl : fd' = fd := Option.some.inj hplace
    rw [hfree] at hopen
    cases hopen
  rw [sentOn, hnone, List.map_nil]

theorem Framed.not_torn (h : Framed s) {fd : Int} (hfree : s.node.connection fd = none) :
    fd ∉ s.torn := by
  intro hfd
  have hopen := h.torn fd hfd
  rw [hfree] at hopen
  cases hopen

/-! ### The steps -/

theorem returns_of_ne {x : Sender} (h : x.phase ≠ .returned)
    (place : Option (Int × List UInt8)) : x.returns place = [] := if_neg h

theorem returns_of_eq {x : Sender} (h : x.phase = .returned)
    (place : Option (Int × List UInt8)) : x.returns place = [⟨x.data, place⟩] := if_pos h

theorem retryOr_ne_returned (retry : Int) (what : String) :
    SendPhase.retryOr retry what ≠ .returned := by
  unfold SendPhase.retryOr SendPhase.enter
  by_cases hretry : retry - 1 < 0
  · rw [if_pos hretry]
    exact SendPhase.noConfusion
  · rw [if_neg hretry, if_pos (by omega)]
    exact SendPhase.noConfusion

theorem framed_init (rank : Int) (start : FreshNode) : Framed (machine rank start).init := by
  refine ⟨?_, ?_, ?_⟩
  · intro fd c hc
    exact ⟨[], [], start.nothingSent fd c hc, rfl, Torn.nil,
      iff_of_false List.not_mem_nil (not_not_intro rfl)⟩
  · intro r hr
    cases hr
  · intro fd hfd
    cases hfd

theorem framed_call (h : Framed s) (rank : Int) (data : List UInt8) {retry : Int}
    (hretry : 0 ≤ retry) : Framed (s.advance (.call rank data retry, s.node) none) := by
  have hphase : (Sender.call rank data retry).phase ≠ .returned := by
    show SendPhase.enter retry ≠ _
    rw [SendPhase.enter, if_pos hretry]
    exact SendPhase.noConfusion
  refine h.same rfl ?_ rfl
  rw [advance, returns_of_ne hphase, List.append_nil]

theorem framed_getSendSocket (h : Framed s) {x x' : Sender} {n' : Node} {a : ConnectOutcome}
    (hstep : x.getSendSocket s.node a = some (x', n')) :
    Framed (s.advance (x', n') none) := by
  obtain ⟨-, -, retry, sock, -, hget, hphase⟩ := Sender.getSendSocket_cases hstep
  have hreturned : (s.advance (x', n') none).returned = s.returned := by
    have hne : x'.phase ≠ .returned := by
      rcases hphase with ⟨-, what, hphase⟩ | ⟨-, hphase⟩
      · rw [hphase]
        exact retryOr_ne_returned _ _
      · rw [hphase]
        exact SendPhase.noConfusion
    rw [advance, returns_of_ne hne, List.append_nil]
  have hsent : ∀ fd, (s.advance (x', n') none).sentOn fd = s.sentOn fd := by
    intro fd
    rw [sentOn, hreturned]
    rfl
  rcases Node.getSendSocket_cases hget with ⟨-, -, rfl | ⟨fd, hfree, rfl⟩⟩ | ⟨-, -, rfl⟩ |
    ⟨-, hfree, target, localIp, -, rfl⟩
  · exact h.same rfl hreturned rfl
  · exact h.same (Node.connection_setUnconnected hfree) hreturned rfl
  · exact h.same rfl hreturned rfl
  · -- the rank report is the first frame of a new connection
    refine h.put [.rankReport s.node.myRank s.node.listenPort] []
      (Node.connection_connected _ _ _ _) ?_ ?_ Torn.nil ?_ ?_ ?_ ?_
    · simp [Node.opened, Frame.bytes]
    · rw [hsent, h.sentOn_free hfree.connection]
      rfl
    · exact iff_of_false (h.not_torn hfree.connection) (not_not_intro rfl)
    · intro fd _
      exact hsent fd
    · intro fd _
      exact Iff.rfl
    · intro r hr
      rw [hreturned] at hr
      exact Or.inl hr

theorem framed_clearSendSocket (h : Framed s) {x x' : Sender} {n' : Node}
    (hstep : x.clearSendSocket s.node = some (x', n')) : Framed (s.advance (x', n') none) := by
  obtain ⟨-, -, rfl, _, _, _, -, what, hphase⟩ := Sender.clearSendSocket_cases hstep
  have hne : x'.phase ≠ .returned := by
    rw [hphase]
    exact retryOr_ne_returned _ _
  refine h.same (Node.connection_eq_of_fds (Node.clearSendSocket_fds _)) ?_ rfl
  rw [advance, returns_of_ne hne, List.append_nil]

/-- What a `writev` of a message can be: an error, nothing, a part, or the whole. -/
theorem writev_outcomes {x x' : Sender} {n' : Node} {o : WriteOutcome}
    (hstep : x.writev s.node o = some (x', n')) :
    (n' = s.node ∧ (∃ errno, o = .error errno) ∧ x'.phase ≠ .returned ∧ x.tears o = []) ∨
    ∃ sock c k, o = .wrote k ∧ x.holds = some sock ∧ s.node.connection sock = some c ∧
      n'.connection = Function.update s.node.connection sock
        (some { c with sent := c.sent ++ (normalMessage x.data).take k }) ∧
      (k < (normalMessage x.data).length → x'.phase ≠ .returned ∧
        x.tears o = if 0 < k then [sock] else []) ∧
      ((normalMessage x.data).length ≤ k → x'.phase = .returned ∧ x'.data = x.data ∧
        x.tears o = [] ∧ x.place s.node = some (sock, c.sent)) := by
  obtain ⟨-, hdata, sock, retry, hphase, hwrite, hphase'⟩ := Sender.writev_cases hstep
  have hholds : x.holds = some sock := by rw [Sender.holds, hphase]
  obtain ⟨-, ⟨errno, rfl, rfl⟩ | ⟨k, c, rfl, hc, rfl⟩⟩ := Node.writev_cases hwrite
  · left
    have hret : WriteOutcome.ret (.error errno) (normalMessage x.data).length = -1 := rfl
    rw [hret] at hphase'
    refine ⟨rfl, ⟨errno, rfl⟩, ?_, ?_⟩
    · rcases hphase' with ⟨-, hp⟩ | ⟨hpos, -⟩ | ⟨hfull, -⟩
      · rw [hp]
        exact SendPhase.noConfusion
      · omega
      · omega
    · simp only [Sender.tears, hholds]
  · right
    refine ⟨sock, c, k, rfl, hholds, hc, Node.connection_setConnection _ _, ?_, ?_⟩
    · intro hshort
      have hret : WriteOutcome.ret (.wrote k) (normalMessage x.data).length = k := by
        show ((min k (normalMessage x.data).length : Nat) : Int) = k
        omega
      rw [hret] at hphase'
      refine ⟨?_, ?_⟩
      · rcases hphase' with ⟨-, hp⟩ | ⟨-, -, e, hp⟩ | ⟨hfull, -⟩
        · rw [hp]
          exact SendPhase.noConfusion
        · rw [hp]
          exact SendPhase.noConfusion
        · omega
      · simp only [Sender.tears, hholds, hshort, and_true]
    · intro hfull
      have hret : WriteOutcome.ret (.wrote k) (normalMessage x.data).length =
          (normalMessage x.data).length := by
        show ((min k (normalMessage x.data).length : Nat) : Int) = _
        omega
      rw [hret] at hphase'
      refine ⟨?_, hdata, ?_, ?_⟩
      · rcases hphase' with ⟨hneg, -⟩ | ⟨-, hshort, -⟩ | ⟨-, hp⟩
        · omega
        · omega
        · exact hp
      · simp only [Sender.tears, hholds]
        rw [if_neg (by omega)]
      · simp only [Sender.place, hholds, Option.bind_some, hc, Option.map_some]

/-- The message of a call goes out whole behind frames. -/
theorem Framed.wrote_whole (h : Framed s) {x : Sender} {r : Sender × Node} {o : WriteOutcome}
    {sock : Int} {c : Connection} {fs : List Frame} (hpos : 0 < x.data.length)
    (hlt : x.data.length < 2 ^ 32)
    (hconnection : r.2.connection = Function.update s.node.connection sock
      (some { c with sent := c.sent ++ normalMessage x.data }))
    (hsent : c.sent = fs.flatMap Frame.bytes) (hcontents : contents fs = s.sentOn sock)
    (hno : sock ∉ s.torn)
    (hreturns : r.1.returns (x.place s.node) = [⟨x.data, some (sock, c.sent)⟩])
    (htears : x.tears o = []) : Framed (s.afterWrite x o r) := by
  have hsentOn : ∀ fd, (s.afterWrite x o r).sentOn fd =
      s.sentOn fd ++ if fd = sock then [x.data] else [] := by
    intro fd
    rw [show (s.afterWrite x o r).sentOn fd = _ from sentOn_advance s r _ fd, hreturns]
    by_cases hfd : fd = sock
    · subst hfd
      simp
    · have hne : ¬ sock = fd := fun heq => hfd heq.symm
      simp [hfd, hne]
  have htorn : (s.afterWrite x o r).torn = s.torn := by
    rw [afterWrite, htears, List.append_nil]
  refine h.put (fs ++ [.normal ⟨x.data, hpos, hlt⟩]) [] hconnection ?_ ?_ Torn.nil ?_ ?_ ?_ ?_
  · simp [hsent, Frame.bytes]
  · rw [contents_append, contents_singleton, hcontents, hsentOn, if_pos rfl]
    rfl
  · rw [htorn]
    exact iff_of_false hno (not_not_intro rfl)
  · intro fd hfd
    rw [hsentOn, if_neg hfd, List.append_nil]
  · intro fd _
    rw [htorn]
  · intro e he
    rw [show (s.afterWrite x o r).returned = s.returned ++ _ from rfl, hreturns] at he
    rcases List.mem_append.mp he with he | he
    · exact Or.inl he
    · rw [List.mem_singleton.mp he]
      exact Or.inr ⟨c.sent, rfl, fs, hsent⟩

/-- The message of a call is cut off behind frames. -/
theorem Framed.wrote_part (h : Framed s) {x : Sender} {r : Sender × Node} {o : WriteOutcome}
    {sock : Int} {c : Connection} {fs : List Frame} {k : Nat} (hk : 0 < k)
    (hshort : k < (normalMessage x.data).length) (hlt : x.data.length < 2 ^ 32)
    (hconnection : r.2.connection = Function.update s.node.connection sock
      (some { c with sent := c.sent ++ (normalMessage x.data).take k }))
    (hsent : c.sent = fs.flatMap Frame.bytes) (hcontents : contents fs = s.sentOn sock)
    (hreturns : r.1.returns (x.place s.node) = []) (htears : x.tears o = [sock]) :
    Framed (s.afterWrite x o r) := by
  have hreturned : (s.afterWrite x o r).returned = s.returned := by
    rw [show (s.afterWrite x o r).returned = s.returned ++ _ from rfl, hreturns, List.append_nil]
  have hsentOn : ∀ fd, (s.afterWrite x o r).sentOn fd = s.sentOn fd := by
    intro fd
    rw [sentOn, hreturned]
    rfl
  have hmem : ∀ fd, fd ∈ (s.afterWrite x o r).torn ↔ fd ∈ s.torn ∨ fd = sock := by
    intro fd
    rw [afterWrite, htears, List.mem_append, List.mem_singleton]
  have hlength : ((normalMessage x.data).take k).length = k := by
    rw [List.length_take]
    omega
  refine h.put fs ((normalMessage x.data).take k) hconnection ?_ ?_ ?_ ?_ ?_ ?_ ?_
  · rw [hsent]
  · rw [hsentOn, hcontents]
  · refine ⟨x.data, hlt, List.take_prefix _ _, ?_⟩
    intro heq
    rw [heq] at hlength
    omega
  · rw [hmem]
    refine iff_of_true (Or.inr rfl) ?_
    intro hnil
    rw [hnil] at hlength
    exact absurd hlength (by simp; omega)
  · intro fd _
    exact hsentOn fd
  · intro fd hfd
    rw [hmem]
    exact or_iff_left hfd
  · intro e he
    rw [hreturned] at he
    exact Or.inl he

theorem framed_writev (h : Framed s) {x x' : Sender} {n' : Node} {o : WriteOutcome}
    (hx : s.call = some x) (hkeeps : KeepsFrames s (.writev o))
    (hstep : x.writev s.node o = some (x', n')) : Framed (s.afterWrite x o (x', n')) := by
  rcases writev_outcomes hstep with ⟨rfl, -, hne, htears⟩ |
    ⟨sock, c, k, rfl, hholds, hc, hconnection, hshort, hfull⟩
  · -- an error writes nothing
    refine h.same rfl ?_ ?_
    · rw [afterWrite, advance, returns_of_ne hne, List.append_nil]
    · rw [afterWrite, htears, List.append_nil]
  · obtain ⟨fs, torn, hsent, hcontents, htorn, htorn_iff⟩ := h.connections sock c hc
    by_cases hk : 0 < k
    · obtain ⟨hno, hlt, hpos⟩ := hkeeps x hx sock hholds hk
      obtain rfl : torn = [] := by
        by_contra hne
        exact hno (htorn_iff.mpr hne)
      rw [List.append_nil] at hsent
      by_cases hwhole : (normalMessage x.data).length ≤ k
      · obtain ⟨hreturned, hdata, htears, hplace⟩ := hfull hwhole
        rw [List.take_of_length_le hwhole] at hconnection
        refine h.wrote_whole (hpos hwhole) hlt hconnection hsent hcontents hno ?_ htears
        rw [returns_of_eq hreturned, hplace, hdata]
      · have hpart := Nat.lt_of_not_le hwhole
        obtain ⟨hne, htears⟩ := hshort hpart
        rw [if_pos hk] at htears
        exact h.wrote_part hk hpart hlt hconnection hsent hcontents (returns_of_ne hne _) htears
    · -- a `writev` that takes nothing
      obtain rfl : k = 0 := Nat.eq_zero_of_not_pos hk
      obtain ⟨hne, htears⟩ := hshort (by rw [length_normalMessage]; omega)
      rw [List.take_zero, List.append_nil] at hconnection
      refine h.same ?_ ?_ ?_
      · exact hconnection.trans (Function.update_eq_self_iff.mpr hc.symm)
      · rw [afterWrite, advance, returns_of_ne hne, List.append_nil]
      · rw [afterWrite, htears, if_neg hk, List.append_nil]

theorem sendMessage_step {rank : Int} {data : List UInt8} {retry : Int}
    (hstep : SendState.step rank s (.sendMessage data retry) = some s') :
    s' = s.advance (.call rank data retry, s.node) none :=
  Sender.eq_of_begins hstep

theorem Framed.step {rank : Int} {l : Label} (h : Framed s) (hkeeps : KeepsFrames s l)
    (hstep : SendState.step rank s l = some s') : Framed s' := by
  cases l with
  | sendMessage data retry =>
      rw [sendMessage_step hstep]
      exact framed_call h rank data hkeeps
  | getSendSocket a =>
      obtain ⟨x, -, hstep⟩ := Option.bind_eq_some_iff.mp hstep
      obtain ⟨r, hr, rfl⟩ := Option.map_eq_some_iff.mp hstep
      exact framed_getSendSocket h hr
  | writev o =>
      obtain ⟨x, hx, hstep⟩ := Option.bind_eq_some_iff.mp hstep
      obtain ⟨r, hr, rfl⟩ := Option.map_eq_some_iff.mp hstep
      exact framed_writev h hx hkeeps hr
  | clearSendSocket =>
      obtain ⟨x, -, hstep⟩ := Option.bind_eq_some_iff.mp hstep
      obtain ⟨r, hr, rfl⟩ := Option.map_eq_some_iff.mp hstep
      exact framed_clearSendSocket h hr

/-! ### Calls that return although they break the condition -/

/-- A call that never enters the loop has written nothing. -/
theorem call_undelivered (s : SendState) (rank : Int) (data : List UInt8) {retry : Int}
    (hneg : ¬ 0 ≤ retry) :
    ¬ Delivers (s.advance (.call rank data retry, s.node) none) := by
  intro hdelivers
  have hphase : (Sender.call rank data retry).phase = .returned := if_neg hneg
  have hmem : ⟨data, none⟩ ∈ (s.advance (.call rank data retry, s.node) none).returned := by
    show _ ∈ s.returned ++ _
    rw [returns_of_eq hphase]
    exact List.mem_append_right _ (List.mem_singleton.mpr rfl)
  obtain ⟨fd, before, hplace, -⟩ := hdelivers.boundary _ hmem
  cases hplace

/-- A message that went out whole and is delivered stands behind whole frames, and is one that a
head can tell. -/
theorem Framed.fits_of_delivers (h : Framed s) {x : Sender} {r : Sender × Node}
    {o : WriteOutcome} {sock : Int} {c : Connection} (hc : s.node.connection sock = some c)
    (hconnection : r.2.connection = Function.update s.node.connection sock
      (some { c with sent := c.sent ++ normalMessage x.data }))
    (hreturns : r.1.returns (x.place s.node) = [⟨x.data, some (sock, c.sent)⟩])
    (hdelivers : Delivers (s.afterWrite x o r)) :
    sock ∉ s.torn ∧ x.data.length < 2 ^ 32 ∧ 0 < x.data.length := by
  obtain ⟨fs, torn, hsent, hcontents, htorn, htorn_iff⟩ := h.connections sock c hc
  have hno : sock ∉ s.torn := by
    intro hmem
    have hlogged : ⟨x.data, some (sock, c.sent)⟩ ∈ (s.afterWrite x o r).returned := by
      show _ ∈ s.returned ++ r.1.returns (x.place s.node)
      rw [hreturns]
      exact List.mem_append_right _ (List.mem_singleton.mpr rfl)
    obtain ⟨fd, before, hplace, hboundary, -⟩ := hdelivers.boundary _ hlogged
    obtain ⟨-, rfl⟩ := Prod.mk.inj (Option.some.inj hplace)
    rw [hsent] at hboundary
    exact htorn.not_atBoundary (htorn_iff.mp hmem) fs hboundary
  have hgets : x.data ∈ delivered wholeReads.oracle (c.sent ++ normalMessage x.data) := by
    have hc' : (s.afterWrite x o r).node.connection sock =
        some { c with sent := c.sent ++ normalMessage x.data } := by
      show r.2.connection sock = _
      rw [hconnection, Function.update_self]
    rw [hdelivers.received wholeReads.oracle wholeReads_full.oracle sock _ hc',
      show (s.afterWrite x o r).sentOn sock = _ from sentOn_advance s r _ sock, hreturns]
    apply List.mem_append_right
    simp
  have hlength := receive_processed hgets
  exact ⟨hno, hlength.2, hlength.1⟩

/-- A call that returns normally although it breaks the condition is not delivered. -/
theorem Framed.breach {rank : Int} {l : Label} (h : Framed s) (hbreach : ¬ KeepsFrames s l)
    (hstep : SendState.step rank s l = some s') (hreturned : s'.returned ≠ s.returned) :
    ¬ Delivers s' := by
  cases l with
  | getSendSocket a => exact absurd trivial hbreach
  | clearSendSocket => exact absurd trivial hbreach
  | sendMessage data retry =>
      rw [sendMessage_step hstep]
      exact call_undelivered s rank data hbreach
  | writev o =>
      intro hdelivers
      apply hbreach
      obtain ⟨x, hx, hstep⟩ := Option.bind_eq_some_iff.mp hstep
      obtain ⟨⟨x', n'⟩, hr, rfl⟩ := Option.map_eq_some_iff.mp hstep
      rcases writev_outcomes hr with ⟨-, ⟨errno, rfl⟩, -⟩ |
        ⟨sock, c, k, rfl, hholds, hc, hconnection, hshort, hfull⟩
      · trivial
      · intro y hy fd hfd hk
        obtain rfl := Option.some.inj (hx.symm.trans hy)
        obtain rfl := Option.some.inj (hholds.symm.trans hfd)
        have hwhole : (normalMessage x.data).length ≤ k := by
          by_contra hpart
          apply hreturned
          show s.returned ++ x'.returns _ = _
          rw [returns_of_ne (hshort (Nat.lt_of_not_le hpart)).1, List.append_nil]
        obtain ⟨hphase, hdata, -, hplace⟩ := hfull hwhole
        rw [List.take_of_length_le hwhole] at hconnection
        have hreturns : x'.returns (x.place s.node) = [⟨x.data, some (sock, c.sent)⟩] := by
          rw [returns_of_eq hphase, hplace, hdata]
        obtain ⟨hno, hlt, hpos⟩ := h.fits_of_delivers hc hconnection hreturns hdelivers
        exact ⟨hno, hlt, fun _ => hpos⟩

/-- **Failed sends.** As long as every call is made with `retry >= 0` and every `writev` that takes
at least one byte fits behind whole frames, what returns normally starts at a frame boundary and is
exactly what a receiver gets, whatever has failed before. The first call that returns normally
without this is lost or off the boundary. -/
theorem failed_sends_iff {rank : Int} {start : FreshNode} {ls : List Label} {s : SendState}
    (hrun : (machine rank start).Runs ls s)
    (hkeeps : (machine rank start).Meets KeepsFrames (machine rank start).init ls) :
    Delivers s ∧ ∀ l s', s.step rank l = some s' → s'.returned ≠ s.returned →
      (Delivers s' ↔ KeepsFrames s l) := by
  have hframed : Framed s := by
    apply hrun.guarded (framed_init rank start) ?_ hkeeps
    intro s l s' h hl hstep
    exact h.step hl hstep
  refine ⟨hframed.delivers, ?_⟩
  intro l s' hstep hreturned
  constructor
  · intro hdelivers
    by_contra hbreach
    exact hframed.breach hbreach hstep hreturned hdelivers
  · intro hl
    exact (hframed.step hl hstep).delivers

/-- Two calls fail, one of them with a short write, and the third goes over a new connection. -/
theorem failed_sends_iff_run :
    ∃ ls s, (machine 1 (.registered 0 79 1 0 80)).Runs ls s ∧
      s.returned = [⟨[2], some (7, rankReportMessage 0 79)⟩] ∧ Delivers s := by
  let M := machine 1 (.registered 0 79 1 0 80)
  let ls : List Label :=
    [.sendMessage [1] 1, .getSendSocket (.connected 5 0 (.wrote 12)), .writev (.error 32),
      .clearSendSocket, .getSendSocket (.connected 6 0 (.wrote 12)), .writev (.wrote 3),
      .sendMessage [1] 0, .getSendSocket .noSocket, .writev (.error 32), .clearSendSocket,
      .sendMessage [2] 0, .getSendSocket (.connected 7 0 (.wrote 12)), .writev (.wrote 13)]
  have hend : (M.runFrom M.init ls).map (fun s => s.returned) =
      some [⟨[2], some (7, rankReportMessage 0 79)⟩] := by
    decide +kernel
  have hkeeps : M.Meets KeepsFrames M.init ls := by
    decide +kernel
  obtain ⟨s, hrun, hreturned⟩ := Option.map_eq_some_iff.mp hend
  exact ⟨ls, s, hrun, hreturned, (failed_sends_iff hrun hkeeps).1⟩

/-- The message after a short write is taken for the rest of the torn frame. -/
theorem torn_frame_breaks :
    ∃ ls s c before, (machine 1 (.registered 0 79 1 0 80)).Runs ls s ∧
      s.returned = [⟨[2], some (5, before)⟩] ∧ ¬ AtBoundary before ∧
      s.node.connection 5 = some c ∧ delivered wholeReads.oracle c.sent = [] := by
  let M := machine 1 (.registered 0 79 1 0 80)
  let ls : List Label :=
    [.sendMessage [1] 0, .getSendSocket (.connected 5 0 (.wrote 12)), .writev (.wrote 3),
      .sendMessage [2] 0, .getSendSocket .noSocket, .writev (.wrote 13)]
  let torn := (normalMessage [1]).take 3
  have hend : (M.runFrom M.init ls).map
      (fun s => (s.returned,
        (s.node.connection 5).map fun c => delivered wholeReads.oracle c.sent)) =
        some ([⟨[2], some (5, rankReportMessage 0 79 ++ torn)⟩], some []) := by
    decide +kernel
  have htorn : Torn torn := ⟨[1], by decide, List.take_prefix _ _, by decide⟩
  have hboundary : ¬ AtBoundary (rankReportMessage 0 79 ++ torn) :=
    htorn.not_atBoundary (by decide) [.rankReport 0 79]
  obtain ⟨s, hrun, hpair⟩ := Option.map_eq_some_iff.mp hend
  obtain ⟨hreturned, hdelivered⟩ := Prod.mk.inj hpair
  obtain ⟨c, hc, hnothing⟩ := Option.map_eq_some_iff.mp hdelivered
  exact ⟨ls, s, c, _, hrun, hreturned, hboundary, hc, hnothing⟩

end SendState

end Npp.Network
