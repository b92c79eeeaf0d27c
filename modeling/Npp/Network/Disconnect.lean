import Npp.Network.Registry

/-!
# A peer that goes away

The stream of a connection ends after any number of its bytes. A `read` gives all it asks for as
long as there is that much, then what is left, then nothing. Where the stream ends inside of a
frame, the code for that part of the frame decides what becomes of the server: the body loop closes
the connection, but a short head is taken for a whole one, and `readVerify` gives back what the
stack held.
-/

namespace Npp.Network

open Npp.Foundation Npp.Basic

/-- What lies in uninitialised memory. -/
structure Memory where
  heap : Nat → UInt8 := fun _ => 0
  stack : Nat → UInt8 := fun _ => 0

/-- A `read` before the end of a stream of which `left` is left, or at its end. -/
def eofCut (left : List UInt8) (n : Nat) : Cut :=
  if left = [] then .failed else .bytes n

/-- The reads of the body loop, which ask for `receive_buff_size` bytes at most. -/
def eofCuts (body : List UInt8) (i : Nat) : Cut :=
  eofCut (body.drop (receiveBuffSize * i)) receiveBuffSize

/-- The kernel's choices when nothing comes behind `stream`: each `read` finds what the ones before
it have left. -/
def eofOracle (stream : List UInt8) (m : Memory) : Oracle where
  head := eofCut stream 8
  body := eofCuts (stream.drop 8)
  verify :=
    let head := partialHead (stream.take 8)
    eofCut ((stream.drop 8).drop (if head.type.val = 0 then head.size.toNat else 0)) 4
  heap := m.heap
  stack := m.stack

theorem sysRead_eof {left : List UInt8} {n k : Nat} (hn : 0 < n) (hk : n ≤ k) :
    sysRead left n (eofCut left k) =
      if left = [] then .failed else .got (left.take n) (left.drop n) := by
  unfold eofCut
  split
  case isTrue => rfl
  case isFalse hne =>
    have hsize : min (max k 1) n = n := by omega
    simp only [sysRead, if_neg hne, hsize]

/-- The head that a stream shows. -/
theorem handleEvent_eof {stream : List UInt8} (m : Memory) (hne : stream ≠ []) :
    handleEvent (eofOracle stream m) stream =
      if (partialHead (stream.take 8)).type.val = 0 then
        readNormalMessage (eofOracle stream m) (partialHead (stream.take 8)) (stream.drop 8)
      else if (partialHead (stream.take 8)).type.val = 1 then
        readRankReportMessage (eofOracle stream m) (partialHead (stream.take 8)) (stream.drop 8)
      else { rest := stream.drop 8 } := by
  have hread : sysRead stream 8 (eofOracle stream m).head =
      .got (stream.take 8) (stream.drop 8) := by
    rw [eofOracle, sysRead_eof (by omega) (Nat.le_refl 8), if_neg hne]
  simp only [handleEvent, hread]

/-- Where the `i`-th `read` of a body starts, if the stream goes that far. -/
def bodyPlace (size i : Nat) : Nat := min (receiveBuffSize * i) size

theorem bodyPlace_succ {size i : Nat} (h : bodyPlace size i < size) :
    bodyPlace size (i + 1) =
      bodyPlace size i + min receiveBuffSize (size - bodyPlace size i) := by
  unfold bodyPlace receiveBuffSize at h ⊢
  omega

/-- A loop with nothing left to read has read the whole body. -/
theorem bodyLoop_whole (cuts : Nat → Cut) {body : List UInt8} {size : Nat} (fuel i : Nat)
    {data : Bytes}
    (hfilled : data.data.take (body.take (bodyPlace size i)).length = body.take (bodyPlace size i))
    (hsize : data.size = size) (hremain : size - (body.take (bodyPlace size i)).length = 0) :
    bodyLoop cuts fuel i data (body.take (bodyPlace size i)).length
        (size - (body.take (bodyPlace size i)).length) (body.drop (bodyPlace size i)) =
      if size ≤ body.length then .full ⟨body.take size⟩ (body.drop size) else .closed [] := by
  have hplace : bodyPlace size i ≤ size := Nat.min_le_right _ _
  have hlength : (body.take (bodyPlace size i)).length = min (bodyPlace size i) body.length :=
    List.length_take
  have hend : bodyPlace size i = size := by omega
  have hdata : data = ⟨body.take size⟩ := by
    rw [hend] at hfilled hlength hremain
    exact data_eq_filled hfilled (by omega)
  have hwhole : bodyLoop cuts fuel i data (body.take (bodyPlace size i)).length
      (size - (body.take (bodyPlace size i)).length) (body.drop (bodyPlace size i)) =
      .full data (body.drop (bodyPlace size i)) := by
    cases fuel with
    | zero => rw [bodyLoop, if_pos hremain]
    | succ fuel => rw [bodyLoop, if_pos hremain]
  have hle : size ≤ body.length := by omega
  rw [hwhole, hdata, hend, if_pos hle]

/-- The `i`-th `read` of the loop, with bytes left to read. -/
theorem sysRead_eofCuts {body : List UInt8} {size i : Nat}
    (hremain : size - (body.take (bodyPlace size i)).length ≠ 0) :
    sysRead (body.drop (bodyPlace size i))
        (min receiveBuffSize (size - (body.take (bodyPlace size i)).length)) (eofCuts body i) =
      if body.drop (bodyPlace size i) = [] then .failed
      else .got ((body.drop (bodyPlace size i)).take
          (min receiveBuffSize (size - (body.take (bodyPlace size i)).length)))
        ((body.drop (bodyPlace size i)).drop
          (min receiveBuffSize (size - (body.take (bodyPlace size i)).length))) := by
  -- behind the end of the stream it makes no difference where the `read` would start
  have hplace : body.drop (receiveBuffSize * i) = body.drop (bodyPlace size i) := by
    by_cases hi : receiveBuffSize * i ≤ size
    · rw [bodyPlace, Nat.min_eq_left hi]
    · have hend : bodyPlace size i = size := Nat.min_eq_right (Nat.le_of_not_le hi)
      rw [List.length_take] at hremain
      rw [List.drop_eq_nil_of_le (by omega), List.drop_eq_nil_of_le (by omega)]
  rw [eofCuts, hplace]
  apply sysRead_eof
  · unfold receiveBuffSize
    omega
  · exact Nat.min_le_left _ _

/-- The stream has ended with bytes left to read. -/
theorem bodyLoop_end {body : List UInt8} {size i : Nat} (fuel : Nat) (data : Bytes)
    (hremain : size - (body.take (bodyPlace size i)).length ≠ 0)
    (hend : body.drop (bodyPlace size i) = []) :
    bodyLoop (eofCuts body) (fuel + 1) i data (body.take (bodyPlace size i)).length
        (size - (body.take (bodyPlace size i)).length) (body.drop (bodyPlace size i)) =
      .closed [] := by
  have hread := sysRead_eofCuts hremain
  rw [if_pos hend] at hread
  rw [bodyLoop, if_neg hremain, hread, hend]

/-- The next piece goes behind what is there. -/
theorem bodyLoop_next {body : List UInt8} {size i : Nat} (hbound : size < 2 ^ 32) (fuel : Nat)
    {data : Bytes}
    (hfilled : data.data.take (body.take (bodyPlace size i)).length = body.take (bodyPlace size i))
    (hsize : data.size = size) (hremain : size - (body.take (bodyPlace size i)).length ≠ 0)
    (hmore : body.drop (bodyPlace size i) ≠ []) :
    ∃ data', data'.size = size ∧
      data'.data.take (body.take (bodyPlace size (i + 1))).length =
        body.take (bodyPlace size (i + 1)) ∧
      (body.take (bodyPlace size i)).length < (body.take (bodyPlace size (i + 1))).length ∧
      bodyLoop (eofCuts body) (fuel + 1) i data (body.take (bodyPlace size i)).length
          (size - (body.take (bodyPlace size i)).length) (body.drop (bodyPlace size i)) =
        bodyLoop (eofCuts body) fuel (i + 1) data' (body.take (bodyPlace size (i + 1))).length
          (size - (body.take (bodyPlace size (i + 1))).length)
          (body.drop (bodyPlace size (i + 1))) := by
  have hlt : bodyPlace size i < body.length := by
    by_contra hno
    exact hmore (List.drop_eq_nil_of_le (Nat.le_of_not_lt hno))
  have hlength : (body.take (bodyPlace size i)).length = bodyPlace size i :=
    List.length_take_of_le (Nat.le_of_lt hlt)
  have hnext : bodyPlace size (i + 1) =
      bodyPlace size i + min receiveBuffSize (size - bodyPlace size i) :=
    bodyPlace_succ (by omega)
  obtain ⟨piece, hpiece⟩ : ∃ piece, piece = (body.drop (bodyPlace size i)).take
      (min receiveBuffSize (size - bodyPlace size i)) := ⟨_, rfl⟩
  have hread : sysRead (body.drop (bodyPlace size i))
      (min receiveBuffSize (size - (body.take (bodyPlace size i)).length)) (eofCuts body i) =
      .got piece (body.drop (bodyPlace size (i + 1))) := by
    rw [sysRead_eofCuts hremain, if_neg hmore, hlength, List.drop_drop, ← hnext, ← hpiece]
  have hgrown : body.take (bodyPlace size (i + 1)) = body.take (bodyPlace size i) ++ piece := by
    rw [hnext, List.take_add, hpiece]
  have hpos : 0 < piece.length := by
    rw [hpiece, List.length_take, List.length_drop]
    unfold receiveBuffSize
    omega
  have hsum : (body.take (bodyPlace size (i + 1))).length =
      (body.take (bodyPlace size i)).length + piece.length := by
    rw [hgrown, List.length_append]
  have hroom : (body.take (bodyPlace size (i + 1))).length ≤ size :=
    Nat.le_trans (List.length_take_le _ _) (Nat.min_le_right _ _)
  obtain ⟨data', hset, hsize', hfilled'⟩ := Bytes.set_next piece hfilled (by omega)
  rw [← hgrown] at hfilled'
  refine ⟨data', hsize'.trans hsize, hfilled', by omega, ?_⟩
  rw [bodyLoop_piece fuel hremain hread hset, ← hsum, Nat.mod_eq_of_lt (by omega), Nat.sub_sub,
    ← hsum]

/-- The loop reads the body whole, or closes the connection where the stream ends. -/
theorem bodyLoop_eof (body : List UInt8) {size : Nat} (hbound : size < 2 ^ 32) (fuel i : Nat)
    (data : Bytes) (hfuel : size - (body.take (bodyPlace size i)).length ≤ fuel)
    (hfilled : data.data.take (body.take (bodyPlace size i)).length =
      body.take (bodyPlace size i))
    (hsize : data.size = size) :
    bodyLoop (eofCuts body) fuel i data (body.take (bodyPlace size i)).length
        (size - (body.take (bodyPlace size i)).length) (body.drop (bodyPlace size i)) =
      if size ≤ body.length then .full ⟨body.take size⟩ (body.drop size) else .closed [] := by
  induction fuel generalizing i data with
  | zero => exact bodyLoop_whole _ 0 i hfilled hsize (Nat.le_zero.mp hfuel)
  | succ fuel ih =>
      by_cases hremain : size - (body.take (bodyPlace size i)).length = 0
      · exact bodyLoop_whole _ (fuel + 1) i hfilled hsize hremain
      · by_cases hend : body.drop (bodyPlace size i) = []
        · have hshort : ¬ size ≤ body.length := by
            have hle := List.drop_eq_nil_iff.mp hend
            rw [List.take_of_length_le hle] at hremain
            omega
          rw [bodyLoop_end fuel data hremain hend, if_neg hshort]
        · obtain ⟨data', hsize', hfilled', hlt, hturn⟩ :=
            bodyLoop_next hbound fuel hfilled hsize hremain hend
          rw [hturn]
          exact ih (i + 1) data' (by omega) hfilled' hsize'

theorem readNormalMessage_eof {o : Oracle} {head : MessageHead} {left : List UInt8}
    (hbody : o.body = eofCuts left) (hsize : head.size ≠ 0) :
    readNormalMessage o head left =
      if head.size.toNat ≤ left.length then
        finishWith o (left.drop head.size.toNat) (.process (left.take head.size.toNat))
      else { rest := [], closed := true } := by
  have hpos : 0 < head.size.toNat := by
    apply Nat.pos_of_ne_zero
    intro hzero
    exact hsize (UInt32.toNat_inj.mp hzero)
  obtain ⟨data, halloc, hdata⟩ := Bytes.alloc_pos hpos o.heap
  have hstart : bodyPlace head.size.toNat 0 = 0 := by
    rw [bodyPlace, Nat.mul_zero, Nat.zero_min]
  have hloop := bodyLoop_eof left head.size.toNat_lt head.size.toNat 0 data
    (Nat.sub_le _ _) (by rw [hstart]; rfl) hdata
  rw [hstart, List.take_zero, List.drop_zero, List.length_nil, Nat.sub_zero, ← hbody] at hloop
  rw [readNormalMessage, halloc]
  dsimp only
  rw [hloop]
  by_cases hle : head.size.toNat ≤ left.length
  · rw [if_pos hle, if_pos hle]
  · rw [if_neg hle, if_neg hle]

/-! ## Where a frame may end -/

/-- The code survives the end of the stream behind the first `j` bytes of the frame: a normal
message of which the content has begun, or of which the head shows some of the size. -/
def Frame.Survivable : Frame → Nat → Prop
  | .normal content, j =>
      if j < 8 then content.bytes.length % 256 ^ (j - 4) ≠ 0 else j < 8 + content.bytes.length
  | .rankReport _ _, _ => False

instance (f : Frame) (j : Nat) : Decidable (f.Survivable j) := by
  unfold Frame.Survivable
  split <;> infer_instance

theorem handleEvent_gone (m : Memory) :
    handleEvent (eofOracle [] m) [] = { rest := [], closed := true } := rfl

/-- A verify code that was read whole. -/
theorem finishWith_eof {o : Oracle} {tail : List UInt8} (action : Action)
    (hverify : o.verify = eofCut (verifyBytes ++ tail) 4) :
    finishWith o (verifyBytes ++ tail) action = { rest := tail, action := action } := by
  have hne : verifyBytes ++ tail ≠ [] := fun hnil => nomatch (List.append_eq_nil_iff.mp hnil).1
  have hread : sysRead (verifyBytes ++ tail) 4 o.verify = .got verifyBytes tail := by
    rw [hverify, sysRead_eof (by omega) (Nat.le_refl 4), if_neg hne]
    rfl
  rw [finishWith_read action length_verifyBytes hread, if_pos rfl]

/-- A verify code that is cut off is not made up by a stack of zeros. -/
theorem finishWith_cut {o : Oracle} {j : Nat} (action : Action) (hj : j < 4)
    (hverify : o.verify = eofCut (verifyBytes.take j) 4) (hstack : o.stack = fun _ => 0) :
    (finishWith o (verifyBytes.take j) action).fate = .aborted := by
  obtain ⟨head, body, verify, heap, stack⟩ := o
  obtain rfl : verify = _ := hverify
  obtain rfl : stack = _ := hstack
  match j, hj with
  | 0, _ => rfl
  | 1, _ => rfl
  | 2, _ => rfl
  | 3, _ => rfl

section Head

variable {stream left : List UInt8} {head : MessageHead}

/-- A head that is taken for a message, and whatever there is behind it. -/
theorem handleEvent_eof_normal (hne : stream ≠ []) (hhead : partialHead (stream.take 8) = head)
    (hleft : stream.drop 8 = left) (htype : head.type.val = 0) (hsize : head.size ≠ 0)
    (m : Memory) :
    ∃ o : Oracle, o.stack = m.stack ∧ o.verify = eofCut (left.drop head.size.toNat) 4 ∧
      handleEvent (eofOracle stream m) stream =
        if head.size.toNat ≤ left.length then
          finishWith o (left.drop head.size.toNat) (.process (left.take head.size.toNat))
        else { rest := [], closed := true } := by
  refine ⟨eofOracle stream m, rfl, ?_, ?_⟩
  · simp only [eofOracle, hhead, hleft, htype, if_true]
  · have hbody : (eofOracle stream m).body = eofCuts left := by
      simp only [eofOracle, hleft]
    rw [handleEvent_eof m hne, hhead, hleft, if_pos htype, readNormalMessage_eof hbody hsize]

theorem handleEvent_eof_empty (hne : stream ≠ []) (hhead : partialHead (stream.take 8) = head)
    (htype : head.type.val = 0) (hsize : head.size = 0) (m : Memory) :
    (handleEvent (eofOracle stream m) stream).fate = .aborted := by
  rw [handleEvent_eof m hne, hhead, if_pos htype]
  exact readNormalMessage_empty hsize

/-- A head that is taken for a rank report, and whatever there is behind it. -/
theorem handleEvent_eof_report (hne : stream ≠ []) (hhead : partialHead (stream.take 8) = head)
    (hleft : stream.drop 8 = left) (htype : head.type.val = 1) (m : Memory) :
    ∃ o : Oracle, o.stack = m.stack ∧ o.verify = eofCut left 4 ∧
      handleEvent (eofOracle stream m) stream =
        finishWith o left (.insertRank (intOfUInt32 head.size) head.reserved) := by
  have hnormal : ¬ head.type.val = 0 := by
    rw [htype]
    decide
  refine ⟨eofOracle stream m, rfl, ?_, ?_⟩
  · simp only [eofOracle, hhead, if_neg hnormal, hleft, List.drop_zero]
  · rw [handleEvent_eof m hne, hhead, if_neg hnormal, if_pos htype, hleft, readRankReportMessage]

end Head

/-- A frame that is whole. -/
theorem handleEvent_eof_frame (f : Frame) (tail : List UInt8) (m : Memory) :
    handleEvent (eofOracle (f.bytes ++ tail) m) (f.bytes ++ tail) =
      { rest := tail, action := f.action } := by
  have hne : f.bytes ++ tail ≠ [] := List.append_ne_nil_of_left_ne_nil f.bytes_ne_nil _
  have hwhole : ∀ (head : MessageHead) (left : List UInt8),
      partialHead ((head.bytes ++ left).take 8) = head := by
    intro head left
    rw [List.take_left' (MessageHead.length_bytes _), partialHead_bytes]
  cases f with
  | normal content =>
      have hsplit : (Frame.normal content).bytes ++ tail =
          (normalHead content.bytes.length).bytes ++
            (content.bytes ++ (verifyBytes ++ tail)) := by
        rw [Frame.normal_bytes, List.append_assoc, List.append_assoc]
      have hsize := normalHead_size content.bounded
      have hnonzero := normalHead_size_ne_zero content.nonempty content.bounded
      have hle : content.bytes.length ≤ (content.bytes ++ (verifyBytes ++ tail)).length := by
        rw [List.length_append]
        exact Nat.le_add_right _ _
      rw [hsplit] at hne ⊢
      obtain ⟨o, -, hverify, hhandled⟩ := handleEvent_eof_normal hne (hwhole _ _)
        (List.drop_left' (MessageHead.length_bytes _)) rfl hnonzero m
      rw [hsize, List.drop_left] at hverify
      rw [hhandled, hsize, if_pos hle, List.drop_left, List.take_left, finishWith_eof _ hverify]
      rfl
  | rankReport rank port =>
      have hsplit : (Frame.rankReport rank port).bytes ++ tail =
          (rankReportHead rank port).bytes ++ (verifyBytes ++ tail) := by
        simp only [Frame.bytes, rankReportMessage, List.append_assoc]
      rw [hsplit] at hne ⊢
      obtain ⟨o, -, hverify, hhandled⟩ := handleEvent_eof_report hne (hwhole _ _)
        (List.drop_left' (MessageHead.length_bytes _)) rfl m
      rw [hhandled, finishWith_eof _ hverify]
      rfl

/-- What the reads of a head find in a frame that is cut off. -/
theorem take_head {head : List UInt8} (hhead : head.length = 8) (left : List UInt8) (j : Nat) :
    ((head ++ left).take j).take 8 = head.take j ∧
      ((head ++ left).take j).drop 8 = left.take (j - 8) := by
  constructor
  · rw [List.take_take, Nat.min_comm, ← List.take_take, List.take_left' hhead]
  · rw [List.drop_take, List.drop_left' hhead]

theorem take_ne_nil {f : Frame} {j : Nat} (hj : 0 < j) : f.bytes.take j ≠ [] := by
  intro hnil
  rcases List.take_eq_nil_iff.mp hnil with hzero | hempty
  · omega
  · exact f.bytes_ne_nil hempty

/-- The size that the head of a message shows when the stream ends behind `j` bytes. -/
theorem partialHead_cut (content : Content) (j : Nat) :
    (partialHead ((normalHead content.bytes.length).bytes.take j)).size.toNat =
      if j < 8 then content.bytes.length % 256 ^ (j - 4) else content.bytes.length := by
  rw [partialHead_size, normalHead_size content.bounded]
  split
  case isTrue hj => rw [Nat.min_eq_left (by omega)]
  case isFalse hj =>
    rw [Nat.min_eq_right (by omega)]
    exact Nat.mod_eq_of_lt content.bounded

/-- A frame that is cut off where its code survives. -/
theorem handleEvent_eof_survivable {f : Frame} {j : Nat} (hj : 0 < j) (h : f.Survivable j)
    (m : Memory) :
    handleEvent (eofOracle (f.bytes.take j) m) (f.bytes.take j) =
      { rest := [], closed := true } := by
  cases f with
  | rankReport rank port => exact h.elim
  | normal content =>
      have hne : (Frame.normal content).bytes.take j ≠ [] := take_ne_nil hj
      rw [Frame.normal_bytes] at hne ⊢
      have hlength := MessageHead.length_bytes (normalHead content.bytes.length)
      obtain ⟨hfront, hback⟩ := take_head hlength (content.bytes ++ verifyBytes) j
      have hsize := partialHead_cut content j
      have hmore : ((content.bytes ++ verifyBytes).take (j - 8)).length <
          (partialHead ((normalHead content.bytes.length).bytes.take j)).size.toNat := by
        have hleft : ((content.bytes ++ verifyBytes).take (j - 8)).length ≤ j - 8 := by
          rw [List.length_take]
          exact Nat.min_le_left _ _
        rw [hsize]
        simp only [Frame.Survivable] at h
        split at h
        case isTrue hhead =>
          rw [if_pos hhead]
          omega
        case isFalse hhead =>
          rw [if_neg hhead]
          omega
      have hnonzero :
          (partialHead ((normalHead content.bytes.length).bytes.take j)).size ≠ 0 := by
        intro hzero
        rw [hzero] at hmore
        exact absurd hmore (Nat.not_lt_zero _)
      obtain ⟨o, -, -, hhandled⟩ := handleEvent_eof_normal hne (congrArg partialHead hfront) hback
        (partialHead_normal content.bytes.length j) hnonzero m
      rw [hhandled, if_neg (Nat.not_le.mpr hmore)]

/-- A frame that is cut off anywhere else: with a stack of zeros an assertion fails. -/
theorem handleEvent_eof_fatal {f : Frame} {j : Nat} (hj : 0 < j) (hlt : j < f.bytes.length)
    (h : ¬ f.Survivable j) :
    (handleEvent (eofOracle (f.bytes.take j) {}) (f.bytes.take j)).fate = .aborted := by
  have hne : f.bytes.take j ≠ [] := take_ne_nil hj
  cases f with
  | normal content =>
      rw [Frame.normal_bytes] at hne hlt ⊢
      have hlength := MessageHead.length_bytes (normalHead content.bytes.length)
      obtain ⟨hfront, hback⟩ := take_head hlength (content.bytes ++ verifyBytes) j
      have hsize := partialHead_cut content j
      have htype := partialHead_normal content.bytes.length j
      have hpos := content.nonempty
      simp only [Frame.Survivable] at h
      split at h
      case isTrue hhead =>
        rw [if_pos hhead, not_not.mp h] at hsize
        exact handleEvent_eof_empty hne (congrArg partialHead hfront) htype
          (UInt32.toNat_inj.mp hsize) {}
      case isFalse hhead =>
        rw [if_neg hhead] at hsize
        have hnonzero :
            (partialHead ((normalHead content.bytes.length).bytes.take j)).size ≠ 0 := by
          intro hzero
          rw [hzero] at hsize
          exact absurd hsize (Nat.ne_of_lt hpos)
        simp only [List.length_append, MessageHead.length_bytes, length_verifyBytes] at hlt
        have hle : content.bytes.length ≤
            ((content.bytes ++ verifyBytes).take (j - 8)).length := by
          rw [List.length_take, List.length_append]
          omega
        have hcode : ((content.bytes ++ verifyBytes).take (j - 8)).drop content.bytes.length =
            verifyBytes.take (j - 8 - content.bytes.length) := by
          rw [List.drop_take, List.drop_left]
        obtain ⟨o, hstack, hverify, hhandled⟩ := handleEvent_eof_normal hne
          (congrArg partialHead hfront) hback htype hnonzero {}
        rw [hsize, hcode] at hverify
        rw [hhandled, hsize, if_pos hle, hcode]
        exact finishWith_cut _ (by omega) hverify hstack
  | rankReport rank port =>
      have hbytes : (Frame.rankReport rank port).bytes =
          (rankReportHead rank port).bytes ++ verifyBytes := rfl
      rw [hbytes] at hne hlt ⊢
      have hlength := MessageHead.length_bytes (rankReportHead rank port)
      obtain ⟨hfront, hback⟩ := take_head hlength verifyBytes j
      rw [List.length_append, MessageHead.length_bytes, length_verifyBytes] at hlt
      rcases partialHead_rankReport rank port hj with htype | ⟨htype, hsize⟩
      · obtain ⟨o, hstack, hverify, hhandled⟩ := handleEvent_eof_report hne
          (congrArg partialHead hfront) hback htype {}
        rw [hhandled]
        exact finishWith_cut _ (by omega) hverify hstack
      · exact handleEvent_eof_empty hne (congrArg partialHead hfront) htype hsize {}

/-! ## The stream of a peer -/

def wholeFrames : List Frame → Nat → List Frame
  | [], _ => []
  | f :: fs, k =>
      if f.bytes.length ≤ k then f :: wholeFrames fs (k - f.bytes.length) else []

/-- The stream ends between two frames, or inside of one where the code survives it. -/
def SurvivableCut : List Frame → Nat → Prop
  | [], _ => True
  | f :: fs, k =>
      if f.bytes.length ≤ k then SurvivableCut fs (k - f.bytes.length)
      else k = 0 ∨ f.Survivable k

instance SurvivableCut.decidable : ∀ fs k, Decidable (SurvivableCut fs k)
  | [], _ => .isTrue trivial
  | f :: fs, k =>
      have := SurvivableCut.decidable fs (k - f.bytes.length)
      inferInstanceAs (Decidable (if f.bytes.length ≤ k then
        SurvivableCut fs (k - f.bytes.length) else k = 0 ∨ f.Survivable k))

/-- One event on the first `k` bytes of a stream: it takes a frame that is whole, or it is the one
that finds the end. -/
theorem handleEvent_eof_stream (fs : List Frame) (k : Nat) (m : Memory) :
    (∃ f rest, fs = f :: rest ∧ f.bytes.length ≤ k ∧
      handleEvent (eofOracle ((fs.flatMap Frame.bytes).take k) m)
          ((fs.flatMap Frame.bytes).take k) =
        { rest := (rest.flatMap Frame.bytes).take (k - f.bytes.length), action := f.action }) ∨
    (wholeFrames fs k = [] ∧
      (SurvivableCut fs k → handleEvent (eofOracle ((fs.flatMap Frame.bytes).take k) m)
        ((fs.flatMap Frame.bytes).take k) = { rest := [], closed := true }) ∧
      (¬ SurvivableCut fs k → (handleEvent (eofOracle ((fs.flatMap Frame.bytes).take k) {})
        ((fs.flatMap Frame.bytes).take k)).fate = .aborted)) := by
  cases fs with
  | nil =>
      right
      rw [List.flatMap_nil, List.take_nil]
      exact ⟨rfl, fun _ => handleEvent_gone m, fun h => absurd trivial h⟩
  | cons f rest =>
      rw [List.flatMap_cons]
      by_cases hk : f.bytes.length ≤ k
      · left
        refine ⟨f, rest, rfl, hk, ?_⟩
        rw [List.take_append, List.take_of_length_le hk, handleEvent_eof_frame]
      · right
        rw [wholeFrames, SurvivableCut, if_neg hk, if_neg hk,
          List.take_append_of_le_length (Nat.le_of_not_le hk)]
        refine ⟨rfl, ?_, ?_⟩
        · rintro (rfl | hsurvivable)
          · exact handleEvent_gone m
          · by_cases hzero : k = 0
            · subst hzero
              exact handleEvent_gone m
            · exact handleEvent_eof_survivable (Nat.pos_of_ne_zero hzero) hsurvivable m
        · intro hfatal
          have hzero : k ≠ 0 := fun h => hfatal (Or.inl h)
          exact handleEvent_eof_fatal (Nat.pos_of_ne_zero hzero) (Nat.lt_of_not_le hk)
            fun h => hfatal (Or.inr h)

/-! ## The run to the end -/

/-- The entry that a rank report makes, unless there is one for the rank. -/
def Action.enter (fd : Int) (localIp : UInt32) (socks : Int → Option Target) :
    Action → Int → Option Target
  | .insertRank rank port =>
      match socks rank with
      | .some _ => socks
      | .none => Function.update socks rank
          (some { rank := rank, ip := localIp, port := port, sock := fd })
  | _ => socks

def registered (fd : Int) (localIp : UInt32) (socks : Int → Option Target) (fs : List Frame) :
    Int → Option Target :=
  fs.foldl (fun socks f => f.action.enter fd localIp socks) socks

theorem handle_socks (n : Node) (fd : Int) (c : Connection) (rest : List UInt8) (a : Action) :
    (n.handle fd c { rest := rest, action := a }).socks = a.enter fd c.localIp n.socks := by
  cases a with
  | none => rfl
  | process content => rfl
  | insertRank rank port =>
      cases hsocks : n.socks rank with
      | none =>
          simp only [Node.handle, Node.insert, Node.setFd_socks, Action.enter, hsocks]
          rfl
      | some target => simp only [Node.handle, Node.insert, Node.setFd_socks, Action.enter, hsocks]

theorem Action.enter_other {fd : Int} {localIp : UInt32} {socks : Int → Option Target}
    {a : Action} {rank : Int} (h : rank ∉ a.ranks) :
    a.enter fd localIp socks rank = socks rank := by
  cases a with
  | none => rfl
  | process content => rfl
  | insertRank reported port =>
      have hne : rank ≠ reported := fun heq => h (List.mem_singleton.mpr heq)
      cases hsocks : socks reported with
      | none =>
          simp only [enter, hsocks]
          exact Function.update_of_ne hne _ _
      | some target => simp only [enter, hsocks]

theorem registered_other {fd : Int} {localIp : UInt32} {socks : Int → Option Target}
    {fs : List Frame} {rank : Int} (h : rank ∉ fs.flatMap (·.action.ranks)) :
    registered fd localIp socks fs rank = socks rank := by
  induction fs generalizing socks with
  | nil => rfl
  | cons f fs ih =>
      rw [List.flatMap_cons, List.mem_append, not_or] at h
      show registered fd localIp (f.action.enter fd localIp socks) fs rank = _
      rw [ih h.2, Action.enter_other h.1]

/-- A node with an open connection, and what its peer sends before it goes away: the first `place`
bytes of the frames. -/
structure Departure where
  node : Node
  connfd : Int
  connection : Connection
  running : Bool
  frames : List Frame
  place : Nat

structure PeerState where
  node : Node
  running : Bool
  processed : List (List UInt8) := []
  /-- The calls of `closeSocket`. -/
  closed : List Int := []
  fate : Fate := .done

namespace Departure

/-- An event of the connection, which stays readable once the peer has gone. -/
def step (d : Departure) (s : PeerState) (m : Memory) : Option PeerState :=
  (s.node.connection d.connfd).bind fun c =>
    if s.fate = .done ∧ c.hungUp = true then
      let handled := handleEvent (eofOracle c.unread m) c.unread
      some { s with
        node := s.node.handle d.connfd c handled
        processed := s.processed ++ handled.action.processed
        closed := if handled.closed then s.closed ++ [d.connfd] else s.closed
        fate := handled.fate }
    else none

def machine (d : Departure) : Machine PeerState Memory where
  init :=
    { node := d.node.setFd d.connfd (some (.connection { d.connection with
        unread := (d.frames.flatMap Frame.bytes).take d.place, hungUp := true }))
      running := d.running }
  step := d.step

structure Survived (d : Departure) (s : PeerState) : Prop where
  processed : s.processed = contents (wholeFrames d.frames d.place)
  socks : s.node.socks = registered d.connfd d.connection.localIp d.node.socks
    (wholeFrames d.frames d.place)
  otherRanks : ∀ rank ∉ (wholeFrames d.frames d.place).flatMap (·.action.ranks),
    s.node.socks rank = d.node.socks rank
  closed : s.closed = [d.connfd]
  gone : s.node.fds d.connfd = none
  otherFds : ∀ fd, fd ≠ d.connfd → s.node.fds fd = d.node.fds fd
  running : s.running = d.running
  fate : s.fate = .done

/-- The frames in `before` have been taken; of the others in `after`, `k` bytes came. -/
structure Midway (d : Departure) (s : PeerState) (before after : List Frame) (k : Nat) :
    Prop where
  whole : wholeFrames d.frames d.place = before ++ wholeFrames after k
  survivable : SurvivableCut d.frames d.place ↔ SurvivableCut after k
  connection : ∃ c, s.node.connection d.connfd = some c ∧
    c.unread = (after.flatMap Frame.bytes).take k ∧ c.hungUp = true ∧
    c.localIp = d.connection.localIp
  processed : s.processed = contents before
  socks : s.node.socks = registered d.connfd d.connection.localIp d.node.socks before
  otherFds : ∀ fd, fd ≠ d.connfd → s.node.fds fd = d.node.fds fd
  closed : s.closed = []
  running : s.running = d.running
  fate : s.fate = .done

variable {d : Departure} {s s' : PeerState} {before after : List Frame} {k : Nat} {m : Memory}

theorem midway_init (d : Departure) : d.Midway d.machine.init [] d.frames d.place where
  whole := rfl
  survivable := Iff.rfl
  connection := by
    refine ⟨{ d.connection with
      unread := (d.frames.flatMap Frame.bytes).take d.place, hungUp := true }, ?_, rfl, rfl, rfl⟩
    show (d.node.setFd _ _).connection d.connfd = _
    rw [Node.connection_setConnection, Function.update_self]
  processed := rfl
  socks := rfl
  otherFds := fun _ hfd => Function.update_of_ne hfd _ _
  closed := rfl
  running := rfl
  fate := rfl

/-- What the next event does: it takes a frame that is whole, or it finds the end of the stream. -/
theorem Midway.next (h : d.Midway s before after k) (m : Memory) :
    ∃ s', d.step s m = some s' ∧
      ((∃ f rest, after = f :: rest ∧ d.Midway s' (before ++ [f]) rest (k - f.bytes.length)) ∨
      (wholeFrames after k = [] ∧ (SurvivableCut after k → d.Survived s') ∧
        (¬ SurvivableCut after k → m = {} → s'.fate = .aborted))) := by
  obtain ⟨c, hc, hunread, hhungUp, hip⟩ := h.connection
  have hstep : d.step s m = some { s with
      node := s.node.handle d.connfd c (handleEvent (eofOracle c.unread m) c.unread)
      processed := s.processed ++
        (handleEvent (eofOracle c.unread m) c.unread).action.processed
      closed := if (handleEvent (eofOracle c.unread m) c.unread).closed then
        s.closed ++ [d.connfd] else s.closed
      fate := (handleEvent (eofOracle c.unread m) c.unread).fate } := by
    rw [step, hc]
    exact if_pos ⟨h.fate, hhungUp⟩
  refine ⟨_, hstep, ?_⟩
  rcases handleEvent_eof_stream after k m with ⟨f, rest, rfl, hk, hhandled⟩ |
    ⟨hwhole, hsurvives, hfatal⟩
  · left
    rw [← hunread] at hhandled
    rw [hhandled]
    refine ⟨f, rest, rfl, ?_, ?_, ?_, ?_, ?_, ?_, h.closed, h.running, rfl⟩
    · rw [h.whole, wholeFrames, if_pos hk, List.append_assoc, List.singleton_append]
    · rw [h.survivable, SurvivableCut, if_pos hk]
    · let handled : Handled :=
        { rest := (rest.flatMap Frame.bytes).take (k - f.bytes.length), action := f.action }
      refine ⟨Node.afterEvent c handled, ?_, rfl, hhungUp, hip⟩
      rw [Node.connection_handle, Function.update_self]
      rfl
    · rw [contents_append, contents_singleton, ← Frame.action_processed, ← h.processed]
    · rw [handle_socks, hip, h.socks, registered, registered, List.foldl_append]
      rfl
    · intro fd hfd
      show (s.node.handle d.connfd c _).fds fd = _
      rw [Node.handle_fds, Function.update_of_ne hfd]
      exact h.otherFds fd hfd
  · right
    refine ⟨hwhole, ?_, ?_⟩
    case refine_2 =>
      rintro hcut rfl
      rw [← hunread] at hfatal
      exact hfatal hcut
    intro hsurvivable
    have hhandled := hsurvives hsurvivable
    have htaken : wholeFrames d.frames d.place = before := by
      rw [h.whole, hwhole, List.append_nil]
    rw [← hunread] at hhandled
    rw [hhandled]
    refine ⟨?_, ?_, ?_, ?_, ?_, ?_, h.running, rfl⟩
    · rw [htaken, ← h.processed]
      exact List.append_nil _
    · rw [htaken]
      exact h.socks
    · intro rank hrank
      rw [htaken] at hrank
      show s.node.socks rank = _
      rw [h.socks, registered_other hrank]
    · show s.closed ++ [d.connfd] = _
      rw [h.closed, List.nil_append]
    · simp only [Node.handle_fds, Function.update_self, if_true]
    · intro fd hfd
      simp only [Node.handle_fds, Function.update_of_ne hfd]
      exact h.otherFds fd hfd

/-- A connection that is closed has no further event. -/
theorem Survived.last (h : d.Survived s) (m : Memory) : d.step s m = none := by
  have hnone : s.node.connection d.connfd = none := by
    rw [Node.connection, h.gone]
    rfl
  rw [step, hnone]
  rfl

/-- Where the code survives the end of the stream, every run is on its way through the whole
frames, or is over and all is well. -/
theorem survivable_runs (hcut : SurvivableCut d.frames d.place) {ms : List Memory}
    (hrun : d.machine.Runs ms s) :
    (∃ before after k, ms.length = before.length ∧ d.Midway s before after k) ∨
      (ms.length ≤ (wholeFrames d.frames d.place).length + 1 ∧ d.Survived s) := by
  refine hrun.induction (P := fun ms s =>
    (∃ before after k, ms.length = before.length ∧ d.Midway s before after k) ∨
      (ms.length ≤ (wholeFrames d.frames d.place).length + 1 ∧ d.Survived s)) ?_ ?_
  · exact Or.inl ⟨[], d.frames, d.place, rfl, midway_init d⟩
  · rintro ms s m s' - (⟨before, after, k, hlength, hmidway⟩ | ⟨-, hsurvived⟩) hstep
    · obtain ⟨t, ht, hnext⟩ := hmidway.next m
      obtain rfl : t = s' := Option.some.inj (ht.symm.trans hstep)
      rcases hnext with ⟨f, rest, rfl, hmidway'⟩ | ⟨hwhole, hsurvives, -⟩
      · left
        refine ⟨_, _, _, ?_, hmidway'⟩
        rw [List.length_append, List.length_append, hlength]
        rfl
      · right
        refine ⟨?_, hsurvives (hmidway.survivable.mp hcut)⟩
        rw [hmidway.whole, hwhole, List.append_nil, List.length_append, hlength]
        exact Nat.le_refl _
    · cases (hsurvived.last m).symm.trans hstep

/-- Where it does not, there is a run into a failed assertion. -/
theorem Midway.abort (h : d.Midway s before after k) (hcut : ¬ SurvivableCut after k) :
    ∃ ms t, d.machine.runFrom s ms = some t ∧ t.fate = .aborted := by
  induction after generalizing s before k with
  | nil => exact absurd trivial hcut
  | cons f after ih =>
      obtain ⟨s', hstep, ⟨g, rest, hcons, hmidway⟩ | ⟨-, -, hfatal⟩⟩ := h.next {}
      · obtain ⟨rfl, rfl⟩ := List.cons.inj hcons
        have hrest : ¬ SurvivableCut after (k - f.bytes.length) := by
          rw [← hmidway.survivable, h.survivable]
          exact hcut
        obtain ⟨ms, t, hrun, ht⟩ := ih hmidway hrest
        refine ⟨{} :: ms, t, ?_, ht⟩
        rw [Machine.runFrom]
        exact Option.bind_eq_some_iff.mpr ⟨s', hstep, hrun⟩
      · refine ⟨[{}], s', ?_, hfatal hcut rfl⟩
        rw [Machine.runFrom_singleton]
        exact hstep

theorem step_aborted (h : s.fate = .aborted) (m : Memory) : d.step s m = none := by
  rw [step, Option.bind_eq_none_iff]
  intro c _
  apply if_neg
  rintro ⟨hdone, -⟩
  cases h.symm.trans hdone

/-- **A peer that goes away** at some byte of its stream. Whatever lies in uninitialised memory,
every run comes to an end, and the server has then outlived the connection, exactly when the stream
ends between two frames or inside of a normal message, behind a byte of its content or a byte of
its size that leaves a size to read. -/
theorem survived_iff (d : Departure) :
    (∀ ms s, d.machine.Runs ms s → ms.length ≤ (wholeFrames d.frames d.place).length + 1 ∧
      ((∀ m, d.machine.step s m = none) → d.Survived s)) ↔
    SurvivableCut d.frames d.place := by
  constructor
  · intro hall
    by_contra hcut
    obtain ⟨ms, t, hrun, haborted⟩ := (midway_init d).abort hcut
    have hsurvived := (hall ms t hrun).2 (step_aborted haborted)
    cases haborted.symm.trans hsurvived.fate
  · intro hcut ms s hrun
    rcases survivable_runs hcut hrun with ⟨before, after, k, hlength, hmidway⟩ |
      ⟨hlength, hsurvived⟩
    · constructor
      · rw [hmidway.whole, List.length_append, hlength]
        omega
      · intro hlast
        obtain ⟨s', hstep, -⟩ := hmidway.next {}
        cases (hlast {}).symm.trans hstep
    · exact ⟨hlength, fun _ => hsurvived⟩

/-- A message of two bytes on descriptor 5, of which the first `place` bytes come. -/
def twoByteMessage (place : Nat) : Departure where
  node := { myRank := 0, listenPort := 80 }
  connfd := 5
  connection := {}
  running := true
  frames := [.normal ⟨[7, 8], by decide, by decide⟩]
  place := place

example : ∀ place < 15, SurvivableCut (twoByteMessage place).frames place ↔
    place ∈ [0, 5, 6, 7, 8, 9, 14] := by decide

/-- Three bytes of the head end the server. So does the content without the verify code, or it is
handed over as if it had one, when the stack happens to hold the code. -/
theorem not_survived :
    (∃ s, (twoByteMessage 3).machine.Runs [{}] s ∧ s.fate = .aborted ∧
      ¬ (twoByteMessage 3).Survived s) ∧
    (∃ s, (twoByteMessage 10).machine.Runs [{}] s ∧ s.fate = .aborted ∧
      ¬ (twoByteMessage 10).Survived s) ∧
    (∃ s, (twoByteMessage 10).machine.Runs [{ stack := fun i => verifyBytes.getD i 0 }] s ∧
      s.processed = [[7, 8]] ∧ ¬ (twoByteMessage 10).Survived s) := by
  refine ⟨⟨_, rfl, rfl, ?_⟩, ⟨_, rfl, rfl, ?_⟩, ⟨_, rfl, rfl, ?_⟩⟩
  · exact fun hsurvived => absurd hsurvived.fate (by decide)
  · exact fun hsurvived => absurd hsurvived.fate (by decide)
  · exact fun hsurvived => absurd hsurvived.processed (by decide)

end Departure

end Npp.Network
