import Npp.Network.Message

/-!
# Reading one message

What the epoll loop does on a readable connection: one `read` for the head, then the reader of its
type. A connection is the list of the bytes not read yet. A `Cut` is the kernel's choice for one
`read`: how many bytes it gives, or that it fails. Uninitialised memory is an argument too.
-/

namespace Npp.Network

open Npp.Foundation Npp.Basic

/-- The kernel's choice for a `read`: at most `k` bytes and at least one, or a return value that
is not positive. -/
inductive Cut where
  | bytes (k : Nat)
  | failed
deriving DecidableEq, Repr

inductive ReadOutcome where
  | got (bytes rest : List UInt8)
  | failed
  | blocked
deriving DecidableEq, Repr

/-- `read(fd, buf, n)`; it blocks when no byte is left. -/
def sysRead (stream : List UInt8) (n : Nat) : Cut → ReadOutcome
  | .failed => .failed
  | .bytes k =>
      if stream = [] then .blocked
      else
        let size := min (max k 1) n
        .got (stream.take size) (stream.drop size)

/-- What an event depends on besides the bytes: the kernel's choices, the heap under a new buffer
and the stack under `verify_code`. -/
structure Oracle where
  head : Cut
  body : Nat → Cut
  verify : Cut
  heap : Nat → UInt8
  stack : Nat → UInt8

inductive Action where
  | none
  | process (content : List UInt8)
  | insertRank (rank : Int) (port : UInt16)
deriving DecidableEq, Repr

def Action.processed : Action → List (List UInt8)
  | .process content => [content]
  | _ => []

/-- How an event ended; `aborted` is a failed assertion. -/
inductive Fate where
  | done
  | blocked
  | aborted
  | threw (e : RangeException)
  | outOfFuel
deriving DecidableEq, Repr

/-- What an event leaves: the bytes not read, whether `closeSocket` was called, what was handed
on, and how it ended. -/
structure Handled where
  rest : List UInt8
  closed : Bool := false
  action : Action := .none
  fate : Fate := .done
deriving DecidableEq, Repr

inductive BodyResult where
  | full (data : Bytes) (rest : List UInt8)
  | closed (rest : List UInt8)
  | blocked (rest : List UInt8)
  | threw (e : RangeException) (rest : List UInt8)
  | outOfFuel
deriving DecidableEq, Repr

def receiveBuffSize : Nat := 4096

/-- The loop of `readNormalMessage`, from its `i`-th `read` on. -/
def bodyLoop (cuts : Nat → Cut) :
    (fuel i : Nat) → Bytes → (allReadSize remainSize : Nat) → List UInt8 → BodyResult
  | 0, _, data, _, remainSize, stream =>
      if remainSize = 0 then .full data stream else .outOfFuel
  | fuel + 1, i, data, allReadSize, remainSize, stream =>
      if remainSize = 0 then .full data stream
      else
        match sysRead stream (min receiveBuffSize remainSize) (cuts i) with
        | .blocked => .blocked stream
        | .failed => .closed stream
        | .got bytes rest =>
            match data.set bytes allReadSize with
            | .error e => .threw e rest
            | .ok data =>
                -- `all_read_size` is a `uint32_t`
                bodyLoop cuts fuel (i + 1) data ((allReadSize + bytes.length) % 2 ^ 32)
                  (remainSize - bytes.length) rest

inductive VerifyResult where
  | code (verifyCode : Nat) (rest : List UInt8) (closed : Bool)
  | blocked
deriving DecidableEq, Repr

/-- `readVerify`: the bytes that `read` did not overwrite keep what the stack held. -/
def readVerify (o : Oracle) (stream : List UInt8) : VerifyResult :=
  let stack := (List.range 4).map o.stack
  match sysRead stream 4 o.verify with
  | .blocked => .blocked
  -- the socket is closed, but the code is still returned and checked
  | .failed => .code (ofLittleEndian stack) stream true
  | .got bytes rest => .code (ofLittleEndian (bytes ++ stack.drop bytes.length)) rest false

/-- `readVerify`, the assertion on its result, and the action that follows. -/
def finishWith (o : Oracle) (stream : List UInt8) (action : Action) : Handled :=
  match readVerify o stream with
  | .blocked => { rest := stream, fate := .blocked }
  | .code verifyCode rest closed =>
      if verifyCode = fixVerifyCode then { rest := rest, closed := closed, action := action }
      else { rest := rest, closed := closed, fate := .aborted }

def readNormalMessage (o : Oracle) (head : MessageHead) (stream : List UInt8) : Handled :=
  match Bytes.alloc head.size.toNat o.heap with
  | none => { rest := stream, fate := .aborted }
  | some data =>
      match bodyLoop o.body head.size.toNat 0 data 0 head.size.toNat stream with
      | .full data rest => finishWith o rest (.process data.data)
      | .closed rest => { rest := rest, closed := true }
      | .blocked rest => { rest := rest, fate := .blocked }
      | .threw e rest => { rest := rest, fate := .threw e }
      | .outOfFuel => { rest := stream, fate := .outOfFuel }

def readRankReportMessage (o : Oracle) (head : MessageHead) (stream : List UInt8) : Handled :=
  finishWith o stream (.insertRank (intOfUInt32 head.size) head.reserved)

/-- The head that a short `read` leaves: `message_head{}` with its first bytes overwritten. -/
def partialHead (bytes : List UInt8) : MessageHead :=
  .ofBytes (bytes ++ List.replicate (8 - bytes.length) 0)

/-- One readable connection in `run`. -/
def handleEvent (o : Oracle) (stream : List UInt8) : Handled :=
  match sysRead stream 8 o.head with
  | .blocked => { rest := stream, fate := .blocked }
  | .failed => { rest := stream, closed := true }
  | .got bytes rest =>
      let head := partialHead bytes
      if head.type.val = 0 then readNormalMessage o head rest
      else if head.type.val = 1 then readRankReportMessage o head rest
      -- any other type is only logged, and what follows is taken for a head
      else { rest := rest }

/-! ## Whole frames -/

theorem sysRead_full {field rest : List UInt8} {n k : Nat} (hfield : field.length = n)
    (hn : 0 < n) (hk : n ≤ k) : sysRead (field ++ rest) n (.bytes k) = .got field rest := by
  have hne : field ++ rest ≠ [] := by
    apply List.append_ne_nil_of_left_ne_nil
    exact List.ne_nil_of_length_pos (by omega)
  have hsize : min (max k 1) n = n := by omega
  simp only [sysRead, if_neg hne, hsize]
  rw [List.take_left' hfield, List.drop_left' hfield]

/-- A `read` inside the body gives a non-empty piece of it. -/
theorem sysRead_body {body : List UInt8} (tail : List UInt8) (hbody : body ≠ []) (k : Nat) :
    ∃ piece, piece ≠ [] ∧ piece <+: body ∧
      sysRead (body ++ tail) (min receiveBuffSize body.length) (.bytes k) =
        .got piece (body.drop piece.length ++ tail) := by
  have hpos : 0 < body.length := List.length_pos_of_ne_nil hbody
  have hne : body ++ tail ≠ [] := by simp [hbody]
  let size := min (max k 1) (min receiveBuffSize body.length)
  have hsize : 0 < size ∧ size ≤ body.length := by
    simp only [size, receiveBuffSize]
    omega
  refine ⟨body.take size, ?_, List.take_prefix size body, ?_⟩
  · apply List.ne_nil_of_length_pos
    rw [List.length_take]
    omega
  · have hlength : (body.take size).length = size := by simp; omega
    simp only [sysRead, if_neg hne]
    rw [List.take_append_of_le_length hsize.2, List.drop_append_of_le_length hsize.2, hlength]

/-- A buffer that is filled to its end. -/
theorem data_eq_filled {data : Bytes} {filled : List UInt8}
    (hfilled : data.data.take filled.length = filled) (hsize : data.size = filled.length) :
    data = ⟨filled⟩ := by
  have hdata : data.data = filled := by
    rw [← hfilled, List.take_of_length_le]
    exact Nat.le_of_eq hsize
  rw [← hdata]

/-- The loop goes on behind a piece that fits into the buffer. -/
theorem bodyLoop_piece {cuts : Nat → Cut} {i : Nat} {data data' : Bytes}
    {allReadSize remainSize : Nat} {stream piece rest : List UInt8} (fuel : Nat)
    (hremain : remainSize ≠ 0)
    (hread : sysRead stream (min receiveBuffSize remainSize) (cuts i) = .got piece rest)
    (hset : data.set piece allReadSize = .ok data') :
    bodyLoop cuts (fuel + 1) i data allReadSize remainSize stream =
      bodyLoop cuts fuel (i + 1) data' ((allReadSize + piece.length) % 2 ^ 32)
        (remainSize - piece.length) rest := by
  rw [bodyLoop, if_neg hremain, hread]
  simp only [hset]

/-- The loop collects the body whatever the pieces are. -/
theorem bodyLoop_full {cuts : Nat → Cut} (hcuts : ∀ i, ∃ k, cuts i = .bytes k)
    (fuel i : Nat) (data : Bytes) (filled body tail : List UInt8) (hfuel : body.length ≤ fuel)
    (hfilled : data.data.take filled.length = filled)
    (hsize : data.size = filled.length + body.length) (hbound : data.size < 2 ^ 32) :
    bodyLoop cuts fuel i data filled.length body.length (body ++ tail) =
      .full ⟨filled ++ body⟩ tail := by
  induction fuel generalizing i data filled body with
  | zero =>
      obtain rfl : body = [] := List.length_eq_zero_iff.mp (Nat.le_zero.mp hfuel)
      simp only [bodyLoop, List.length_nil, if_true, List.nil_append, List.append_nil,
        data_eq_filled hfilled hsize]
  | succ fuel ih =>
      by_cases hbody : body = []
      · subst hbody
        simp only [bodyLoop, List.length_nil, if_true, List.nil_append, List.append_nil,
          data_eq_filled hfilled hsize]
      · -- one piece goes behind `filled`, and the loop goes on with the rest of the body
        obtain ⟨k, hk⟩ := hcuts i
        obtain ⟨piece, hpiece, ⟨left, rfl⟩, hread⟩ := sysRead_body tail hbody k
        have hremain : (piece ++ left).length ≠ 0 := by simpa using hbody
        rw [List.length_append] at hsize
        obtain ⟨data', hset, hsize', hfilled'⟩ := Bytes.set_next piece hfilled (by omega)
        have hpos : 0 < piece.length := List.length_pos_of_ne_nil hpiece
        have hwrap : (filled.length + piece.length) % 2 ^ 32 = (filled ++ piece).length := by
          rw [List.length_append, Nat.mod_eq_of_lt (by omega)]
        have hleft : (piece ++ left).length - piece.length = left.length := by simp
        rw [List.drop_left] at hread
        rw [bodyLoop_piece fuel hremain (hk ▸ hread) hset, hwrap, hleft]
        rw [ih (i + 1) data' (filled ++ piece) left (by simp at hfuel; omega) hfilled'
          (by rw [hsize', hsize, List.length_append]; omega) (by omega)]
        rw [List.append_assoc]

/-- A head that was read whole. -/
theorem partialHead_whole {bytes : List UInt8} (h : bytes.length = 8) :
    partialHead bytes = .ofBytes bytes := by
  rw [partialHead, h, Nat.sub_self, List.replicate_zero, List.append_nil]

theorem partialHead_bytes (head : MessageHead) : partialHead head.bytes = head := by
  rw [partialHead_whole (MessageHead.length_bytes head), MessageHead.ofBytes_bytes]

/-- The reads of an event give the whole head and the whole verify code, and none fails. -/
structure Oracle.Full (o : Oracle) : Prop where
  head : ∃ k, 8 ≤ k ∧ o.head = .bytes k
  body : ∀ i, ∃ k, o.body i = .bytes k
  verify : ∃ k, 4 ≤ k ∧ o.verify = .bytes k

/-- The kernel's choices for one event on a connection that neither ends nor fails. -/
structure Splits where
  head : Nat
  body : Nat → Nat
  verify : Nat
  heap : Nat → UInt8 := fun _ => 0
  stack : Nat → UInt8 := fun _ => 0

def Splits.oracle (sp : Splits) : Oracle where
  head := .bytes sp.head
  body i := .bytes (sp.body i)
  verify := .bytes sp.verify
  heap := sp.heap
  stack := sp.stack

def Splits.Full (sp : Splits) : Prop := 8 ≤ sp.head ∧ 4 ≤ sp.verify

instance (sp : Splits) : Decidable sp.Full :=
  inferInstanceAs (Decidable (8 ≤ sp.head ∧ 4 ≤ sp.verify))

theorem Splits.Full.oracle {sp : Splits} (h : sp.Full) : sp.oracle.Full :=
  ⟨⟨sp.head, h.1, rfl⟩, fun i => ⟨sp.body i, rfl⟩, ⟨sp.verify, h.2, rfl⟩⟩

def wholeReads : Splits := { head := 8, body := fun _ => receiveBuffSize, verify := 4 }

theorem wholeReads_full : wholeReads.Full := ⟨Nat.le_refl 8, Nat.le_refl 4⟩

def Frame.action : Frame → Action
  | .normal content => .process content.bytes
  | .rankReport rank port => .insertRank (intOfUInt32 (uint32OfInt rank)) (htons port)

/-- A rank report enters the rank it was sent with. -/
theorem Frame.action_rankReport {rank : Int} (hlow : -2 ^ 31 ≤ rank) (hhigh : rank < 2 ^ 31)
    (port : UInt16) : (Frame.rankReport rank port).action = .insertRank rank (htons port) := by
  rw [Frame.action, intOfUInt32_uint32OfInt hlow hhigh]

theorem Frame.action_processed (f : Frame) : f.action.processed = f.content.toList := by
  cases f <;> rfl

def contents (fs : List Frame) : List (List UInt8) := fs.filterMap Frame.content

theorem contents_append (fs gs : List Frame) :
    contents (fs ++ gs) = contents fs ++ contents gs :=
  List.filterMap_append

theorem contents_cons (f : Frame) (fs : List Frame) :
    contents (f :: fs) = f.content.toList ++ contents fs := by
  cases h : f.content <;> simp [contents, h]

theorem contents_singleton (f : Frame) : contents [f] = f.content.toList := by
  rw [contents_cons, contents, List.filterMap_nil, List.append_nil]

/-- A verify code that was read whole is right or ends the server. -/
theorem finishWith_read {o : Oracle} {stream code rest : List UInt8} (action : Action)
    (hcode : code.length = 4) (hread : sysRead stream 4 o.verify = .got code rest) :
    finishWith o stream action =
      if code = verifyBytes then { rest := rest, action := action }
      else { rest := rest, fate := .aborted } := by
  have hstack : ((List.range 4).map o.stack).drop code.length = [] := by
    apply List.drop_eq_nil_of_le
    rw [hcode, List.length_map, List.length_range]
  simp only [finishWith, readVerify, hread, hstack, List.append_nil,
    ofLittleEndian_eq_fixVerifyCode hcode]

theorem finishWith_code {o : Oracle} (h : o.Full) {code : List UInt8} (hcode : code.length = 4)
    (rest : List UInt8) (action : Action) :
    finishWith o (code ++ rest) action =
      if code = verifyBytes then { rest := rest, action := action }
      else { rest := rest, fate := .aborted } := by
  obtain ⟨k, hk, hverify⟩ := h.verify
  apply finishWith_read action hcode
  rw [hverify]
  exact sysRead_full hcode (by omega) hk

theorem finishWith_full {o : Oracle} (h : o.Full) (rest : List UInt8) (action : Action) :
    finishWith o (verifyBytes ++ rest) action = { rest := rest, action := action } := by
  rw [finishWith_code h length_verifyBytes, if_pos rfl]

/-- The size in the head is the size of the content. -/
theorem normalHead_size {n : Nat} (h : n < 2 ^ 32) : (normalHead n).size.toNat = n :=
  UInt32.toNat_ofNat_of_lt' h

theorem normalHead_size_ne_zero {n : Nat} (hpos : 0 < n) (hbound : n < 2 ^ 32) :
    (normalHead n).size ≠ 0 := by
  intro hzero
  have hsize := normalHead_size hbound
  rw [hzero] at hsize
  exact absurd hsize (Nat.ne_of_lt hpos)

/-- A message with any head of its size, and whatever follows its content. -/
theorem readNormalMessage_body {o : Oracle} (h : o.Full) {head : MessageHead}
    {content : List UInt8} (hpos : 0 < content.length) (hsize : head.size.toNat = content.length)
    (rest : List UInt8) :
    readNormalMessage o head (content ++ rest) = finishWith o rest (.process content) := by
  have hbound := head.size.toNat_lt
  obtain ⟨data, halloc, hdata⟩ := Bytes.alloc_pos hpos o.heap
  have hloop := bodyLoop_full h.body content.length 0 data [] content rest (Nat.le_refl _) rfl
    (by simpa using hdata) (by omega)
  simp only [List.length_nil, List.nil_append] at hloop
  simp only [readNormalMessage, hsize, halloc, hloop]

/-- Any eight bytes are a head. -/
theorem handleEvent_head {o : Oracle} (h : o.Full) {head : List UInt8} (hhead : head.length = 8)
    (rest : List UInt8) :
    handleEvent o (head ++ rest) =
      if (MessageHead.ofBytes head).type.val = 0 then
        readNormalMessage o (.ofBytes head) rest
      else if (MessageHead.ofBytes head).type.val = 1 then
        readRankReportMessage o (.ofBytes head) rest
      else { rest := rest } := by
  obtain ⟨k, hk, hcut⟩ := h.head
  have hread : sysRead (head ++ rest) 8 (.bytes k) = .got head rest :=
    sysRead_full hhead (by omega) hk
  simp only [handleEvent, hcut, hread, partialHead_whole hhead]

/-- **One frame.** Whatever the pieces of the body are, an event that reads the head and the verify
code whole consumes exactly one frame and does what the frame says. -/
theorem handleEvent_frame {o : Oracle} (h : o.Full) (f : Frame) (rest : List UInt8) :
    handleEvent o (f.bytes ++ rest) = { rest := rest, action := f.action } := by
  cases f with
  | normal content =>
      have htype : (normalHead content.bytes.length).type.val = 0 := rfl
      rw [Frame.normal_bytes, List.append_assoc, List.append_assoc,
        handleEvent_head h (MessageHead.length_bytes _), MessageHead.ofBytes_bytes, if_pos htype,
        readNormalMessage_body h content.nonempty (normalHead_size content.bounded),
        finishWith_full h]
      rfl
  | rankReport rank port =>
      have hnormal : ¬ (rankReportHead rank port).type.val = 0 := Nat.one_ne_zero
      have hreport : (rankReportHead rank port).type.val = 1 := rfl
      rw [Frame.bytes, rankReportMessage, List.append_assoc,
        handleEvent_head h (MessageHead.length_bytes _), MessageHead.ofBytes_bytes,
        if_neg hnormal, if_pos hreport, readRankReportMessage, finishWith_full h]
      rfl

/-! ## What any event consumes -/

def Cut.size (cut : Cut) (n : Nat) : Nat :=
  match cut with
  | .bytes k => min (max k 1) n
  | .failed => 0

theorem sysRead_got {stream bytes rest : List UInt8} {n : Nat} {cut : Cut} (hn : 0 < n)
    (h : sysRead stream n cut = .got bytes rest) :
    stream = bytes ++ rest ∧ bytes = stream.take (cut.size n) ∧ bytes ≠ [] := by
  cases cut with
  | failed => cases h
  | bytes k =>
      simp only [sysRead] at h
      split at h
      case isTrue => cases h
      case isFalse hne =>
        obtain ⟨rfl, rfl⟩ := ReadOutcome.got.inj h
        refine ⟨(List.take_append_drop _ _).symm, rfl, ?_⟩
        have hpos := List.length_pos_of_ne_nil hne
        apply List.ne_nil_of_length_pos
        rw [List.length_take]
        omega

/-- A `read` gives at most what was requested. -/
theorem length_sysRead_got {stream bytes rest : List UInt8} {n : Nat} {cut : Cut} (hn : 0 < n)
    (h : sysRead stream n cut = .got bytes rest) : bytes.length ≤ n := by
  obtain ⟨-, hbytes, -⟩ := sysRead_got hn h
  have hcut : cut.size n ≤ n := by
    unfold Cut.size
    split <;> omega
  rw [hbytes, List.length_take]
  exact Nat.le_trans (Nat.min_le_left _ _) hcut

/-- One turn of the loop with bytes left to read: it ends, but not full, or it goes on behind a
piece of the stream. -/
theorem bodyLoop_turn (cuts : Nat → Cut) (fuel i : Nat) (data : Bytes) (allReadSize : Nat)
    {remainSize : Nat} (stream : List UInt8) (hremain : remainSize ≠ 0) :
    (∃ rest, bodyLoop cuts (fuel + 1) i data allReadSize remainSize stream = .blocked rest) ∨
    bodyLoop cuts (fuel + 1) i data allReadSize remainSize stream = .closed stream ∨
    (∃ e rest, bodyLoop cuts (fuel + 1) i data allReadSize remainSize stream = .threw e rest) ∨
    ∃ bytes rest data', stream = bytes ++ rest ∧ 0 < bytes.length ∧
      bytes.length ≤ min receiveBuffSize remainSize ∧
      data.set bytes allReadSize = .ok data' ∧
      bodyLoop cuts (fuel + 1) i data allReadSize remainSize stream =
        bodyLoop cuts fuel (i + 1) data' ((allReadSize + bytes.length) % 2 ^ 32)
          (remainSize - bytes.length) rest := by
  rw [bodyLoop, if_neg hremain]
  cases hread : sysRead stream (min receiveBuffSize remainSize) (cuts i) with
  | blocked => exact Or.inl ⟨stream, rfl⟩
  | failed => exact Or.inr (Or.inl rfl)
  | got bytes rest =>
      have hn : 0 < min receiveBuffSize remainSize := by
        unfold receiveBuffSize
        omega
      obtain ⟨hstream, -, hne⟩ := sysRead_got hn hread
      have hlength := length_sysRead_got hn hread
      cases hset : data.set bytes allReadSize with
      | error e => exact Or.inr (Or.inr (Or.inl ⟨e, rest, by simp only [hset]⟩))
      | ok data' =>
          refine Or.inr (Or.inr (Or.inr ⟨bytes, rest, data', hstream,
            List.length_pos_of_ne_nil hne, hlength, hset, ?_⟩))
          simp only [hset]

/-- The loop takes at most the bytes that remained. -/
theorem bodyLoop_consumes {cuts : Nat → Cut} {fuel i : Nat} {data : Bytes}
    {allReadSize remainSize : Nat} {stream rest : List UInt8}
    (h : (∃ data', bodyLoop cuts fuel i data allReadSize remainSize stream = .full data' rest) ∨
      bodyLoop cuts fuel i data allReadSize remainSize stream = .closed rest) :
    stream.length ≤ rest.length + remainSize ∧ rest.length ≤ stream.length := by
  induction fuel generalizing i data allReadSize remainSize stream with
  | zero =>
      rw [bodyLoop] at h
      split at h
      case isTrue hzero =>
        rcases h with ⟨data', h⟩ | h <;> cases h
        omega
      case isFalse => rcases h with ⟨data', h⟩ | h <;> cases h
  | succ fuel ih =>
      by_cases hremain : remainSize = 0
      · rw [bodyLoop, if_pos hremain] at h
        rcases h with ⟨data', h⟩ | h <;> cases h
        omega
      · rcases bodyLoop_turn cuts fuel i data allReadSize stream hremain with
          ⟨_, hturn⟩ | hturn | ⟨_, _, hturn⟩ | ⟨bytes, rest', data', rfl, hpos, hle, -, hturn⟩ <;>
          rw [hturn] at h
        · rcases h with ⟨data', h⟩ | h <;> cases h
        · rcases h with ⟨data', h⟩ | h <;> cases h
          omega
        · rcases h with ⟨data', h⟩ | h <;> cases h
        · have hrest := ih h
          rw [List.length_append]
          omega

/-- The loop never runs out of fuel. -/
theorem bodyLoop_fuel {cuts : Nat → Cut} {fuel i : Nat} {data : Bytes}
    {allReadSize remainSize : Nat} {stream : List UInt8} (hfuel : remainSize ≤ fuel) :
    bodyLoop cuts fuel i data allReadSize remainSize stream ≠ .outOfFuel := by
  induction fuel generalizing i data allReadSize remainSize stream with
  | zero =>
      have hzero : remainSize = 0 := Nat.le_zero.mp hfuel
      rw [bodyLoop, if_pos hzero]
      exact BodyResult.noConfusion
  | succ fuel ih =>
      by_cases hremain : remainSize = 0
      · rw [bodyLoop, if_pos hremain]
        exact BodyResult.noConfusion
      · rcases bodyLoop_turn cuts fuel i data allReadSize stream hremain with
          ⟨_, hturn⟩ | hturn | ⟨_, _, hturn⟩ | ⟨bytes, rest, data', -, hpos, -, -, hturn⟩ <;>
          rw [hturn]
        · exact BodyResult.noConfusion
        · exact BodyResult.noConfusion
        · exact BodyResult.noConfusion
        · exact ih (by omega)

/-- The loop fills the buffer it was given. -/
theorem bodyLoop_size {cuts : Nat → Cut} {fuel i : Nat} {data data' : Bytes}
    {allReadSize remainSize : Nat} {stream rest : List UInt8} (hread : allReadSize < 2 ^ 32)
    (h : bodyLoop cuts fuel i data allReadSize remainSize stream = .full data' rest) :
    data'.size = data.size := by
  induction fuel generalizing i data allReadSize remainSize stream with
  | zero =>
      rw [bodyLoop] at h
      split at h
      case isTrue => rw [(BodyResult.full.inj h).1]
      case isFalse => cases h
  | succ fuel ih =>
      by_cases hremain : remainSize = 0
      · rw [bodyLoop, if_pos hremain] at h
        rw [(BodyResult.full.inj h).1]
      · rcases bodyLoop_turn cuts fuel i data allReadSize stream hremain with
          ⟨_, hturn⟩ | hturn | ⟨_, _, hturn⟩ | ⟨bytes, rest', data'', -, -, hle, hset, hturn⟩ <;>
          rw [hturn] at h
        · cases h
        · cases h
        · cases h
        · rw [ih (Nat.mod_lt _ (by decide)) h]
          have hbuff : bytes.length ≤ 4096 := Nat.le_trans hle (Nat.min_le_left _ _)
          exact Bytes.set_size hset (by omega)

theorem finishWith_fuel (o : Oracle) (stream : List UInt8) (action : Action) :
    (finishWith o stream action).fate ≠ .outOfFuel := by
  unfold finishWith
  split
  case h_1 => exact Fate.noConfusion
  case h_2 =>
    split <;> exact Fate.noConfusion

/-- Every event comes to an end. -/
theorem handleEvent_fuel (o : Oracle) (stream : List UInt8) :
    (handleEvent o stream).fate ≠ .outOfFuel := by
  unfold handleEvent
  split
  case h_1 => exact Fate.noConfusion
  case h_2 => exact Fate.noConfusion
  case h_3 bytes rest hread =>
    dsimp only
    split
    case isTrue =>
      unfold readNormalMessage
      split
      case h_1 => exact Fate.noConfusion
      case h_2 data halloc =>
        split
        case h_1 => exact finishWith_fuel _ _ _
        case h_2 => exact Fate.noConfusion
        case h_3 => exact Fate.noConfusion
        case h_4 => exact Fate.noConfusion
        case h_5 hloop => exact absurd hloop (bodyLoop_fuel (Nat.le_refl _))
    case isFalse =>
      split
      case isTrue => exact finishWith_fuel _ _ _
      case isFalse => exact Fate.noConfusion

theorem finishWith_processed {o : Oracle} {stream content : List UInt8} {action : Action}
    (h : content ∈ (finishWith o stream action).action.processed) : content ∈ action.processed := by
  unfold finishWith at h
  split at h
  case h_1 => cases h
  case h_2 =>
    split at h
    case isTrue => exact h
    case isFalse => cases h

theorem readNormalMessage_processed {o : Oracle} {head : MessageHead}
    {stream content : List UInt8}
    (h : content ∈ (readNormalMessage o head stream).action.processed) :
    0 < content.length ∧ content.length < 2 ^ 32 := by
  unfold readNormalMessage at h
  cases halloc : Bytes.alloc head.size.toNat o.heap with
  | none =>
      rw [halloc] at h
      cases h
  | some data =>
      rw [halloc] at h
      dsimp only at h
      cases hloop : bodyLoop o.body head.size.toNat 0 data 0 head.size.toNat stream with
      | full data' rest =>
          rw [hloop] at h
          obtain rfl := List.mem_singleton.mp (finishWith_processed h)
          have hsize : data'.size = head.size.toNat := by
            rw [bodyLoop_size (by decide) hloop, Bytes.alloc_size halloc]
          have hpos : 0 < head.size.toNat := by
            by_contra hzero
            rw [Bytes.alloc, if_neg hzero] at halloc
            cases halloc
          have hlt := head.size.toNat_lt
          change data'.data.length = head.size.toNat at hsize
          omega
      | closed rest =>
          rw [hloop] at h
          cases h
      | blocked rest =>
          rw [hloop] at h
          cases h
      | threw e rest =>
          rw [hloop] at h
          cases h
      | outOfFuel =>
          rw [hloop] at h
          cases h

/-- A content that is handed over is as long as a head can tell, and not empty. -/
theorem handleEvent_processed {o : Oracle} {stream content : List UInt8}
    (h : content ∈ (handleEvent o stream).action.processed) :
    0 < content.length ∧ content.length < 2 ^ 32 := by
  unfold handleEvent at h
  split at h
  case h_1 => cases h
  case h_2 => cases h
  case h_3 bytes rest hread =>
    dsimp only at h
    split at h
    case isTrue => exact readNormalMessage_processed h
    case isFalse =>
      split at h
      case isTrue => cases finishWith_processed h
      case isFalse => cases h

/-! ## Short reads -/

/-- A partial head shows the low bytes of the size that were read. -/
theorem partialHead_size (h : MessageHead) (m : Nat) :
    (partialHead (h.bytes.take m)).size.toNat = h.size.toNat % 256 ^ (min (m - 4) 4) := by
  have hlength : (h.bytes.take m).length = min m 8 := by simp
  have hdrop : h.bytes.drop 4 = littleEndian 4 h.size.toNat :=
    List.drop_left' (by simp)
  -- the field keeps a front of its bytes, and has zeros behind it
  have hfield : ∃ z, ((h.bytes.take m ++ List.replicate (8 - min m 8) 0).drop 4).take 4 =
      (littleEndian 4 h.size.toNat).take (m - 4) ++ List.replicate z 0 := by
    by_cases hm : m ≤ 4
    · refine ⟨4, ?_⟩
      rw [List.drop_append, List.drop_eq_nil_of_le (by rw [hlength]; omega), List.nil_append,
        List.drop_replicate, List.take_replicate, hlength, Nat.sub_eq_zero_of_le hm,
        List.take_zero, List.nil_append]
      congr 1
      omega
    · refine ⟨8 - min m 8, ?_⟩
      rw [List.drop_append_of_le_length (by rw [hlength]; omega), List.drop_take, hdrop,
        List.take_of_length_le]
      simp
      omega
  obtain ⟨z, hfield⟩ := hfield
  show (UInt32.ofNat (ofLittleEndian (((h.bytes.take m ++
    List.replicate (8 - (h.bytes.take m).length) 0).drop 4).take 4))).toNat = _
  rw [hlength, hfield, ofLittleEndian_append_zeros, take_littleEndian,
    ofLittleEndian_littleEndian_mod, UInt32.toNat_ofNat']
  have hle : h.size.toNat % 256 ^ (min (m - 4) 4) ≤ h.size.toNat := Nat.mod_le _ _
  have hlt := h.size.toNat_lt
  exact Nat.mod_eq_of_lt (Nat.lt_of_le_of_lt hle hlt)

/-- The zeroed tail of a partial head adds nothing to its size. -/
theorem partialHead_size_le (h : MessageHead) (m : Nat) :
    (partialHead (h.bytes.take m)).size.toNat ≤ h.size.toNat := by
  rw [partialHead_size]
  exact Nat.mod_le _ _

theorem normalHead_bytes (n : Nat) :
    (normalHead n).bytes = 0 :: 0 :: 0 :: 0 :: littleEndian 4 (UInt32.ofNat n).toNat := by
  have hcontrol : (normalHead n).control = 0 := rfl
  have hreserved : (normalHead n).reserved.toNat = 0 := rfl
  rw [MessageHead.bytes, hcontrol, hreserved]
  rfl

theorem rankReportHead_bytes (rank : Int) (port : UInt16) :
    (rankReportHead rank port).bytes = 0 :: 1 :: (littleEndian 2 (htons port).toNat ++
      littleEndian 4 (uint32OfInt rank).toNat) := by
  have hcontrol : (rankReportHead rank port).control = 256 := rfl
  rw [MessageHead.bytes, hcontrol]
  rfl

/-- Two bytes decide the type. -/
theorem partialHead_type (b₀ b₁ : UInt8) (bytes : List UInt8) :
    (partialHead (b₀ :: b₁ :: bytes)).type.val = ofLittleEndian [b₀, b₁] / 256 % 8 :=
  rfl

/-- A normal head is taken for one however short it is. -/
theorem partialHead_normal (n m : Nat) :
    (partialHead ((normalHead n).bytes.take m)).type.val = 0 := by
  rw [normalHead_bytes]
  match m with
  | 0 =>
      rw [List.take_zero]
      decide
  | 1 =>
      rw [List.take_succ_cons, List.take_zero]
      decide
  | m + 2 =>
      rw [List.take_succ_cons, List.take_succ_cons, partialHead_type]
      decide

/-- A rank report of which one byte was read looks like an empty normal message. -/
theorem partialHead_rankReport (rank : Int) (port : UInt16) {m : Nat} (hm : 0 < m) :
    ((partialHead ((rankReportHead rank port).bytes.take m)).type.val = 1) ∨
    ((partialHead ((rankReportHead rank port).bytes.take m)).type.val = 0 ∧
      (partialHead ((rankReportHead rank port).bytes.take m)).size = 0) := by
  rw [rankReportHead_bytes]
  match m with
  | 0 => omega
  | 1 =>
      right
      rw [List.take_succ_cons, List.take_zero]
      decide
  | m + 2 =>
      left
      rw [List.take_succ_cons, List.take_succ_cons, partialHead_type]
      decide

theorem finishWith_consumes {o : Oracle} {stream : List UInt8} {action : Action}
    (h : (finishWith o stream action).fate = .done) :
    stream.length ≤ (finishWith o stream action).rest.length + o.verify.size 4 ∧
      (finishWith o stream action).rest.length ≤ stream.length := by
  unfold finishWith at h ⊢
  cases hread : sysRead stream 4 o.verify with
  | blocked => simp [readVerify, hread] at h
  | failed =>
      simp only [readVerify, hread] at h ⊢
      split <;> exact ⟨Nat.le_add_right _ _, Nat.le_refl _⟩
  | got bytes rest =>
      obtain ⟨hstream, hbytes, -⟩ := sysRead_got (by omega) hread
      have hle : bytes.length ≤ o.verify.size 4 := by
        rw [hbytes, List.length_take]
        omega
      simp only [readVerify, hread] at h ⊢
      have hlength : stream.length = bytes.length + rest.length := by
        rw [hstream, List.length_append]
      split <;> (constructor <;> simp only <;> omega)

theorem readNormalMessage_consumes {o : Oracle} {head : MessageHead} {stream : List UInt8}
    (h : (readNormalMessage o head stream).fate = .done) :
    stream.length ≤
        (readNormalMessage o head stream).rest.length + head.size.toNat + o.verify.size 4 ∧
      (readNormalMessage o head stream).rest.length ≤ stream.length := by
  unfold readNormalMessage at h ⊢
  cases halloc : Bytes.alloc head.size.toNat o.heap with
  | none =>
      rw [halloc] at h
      cases h
  | some data =>
      rw [halloc] at h
      dsimp only at h ⊢
      cases hloop : bodyLoop o.body head.size.toNat 0 data 0 head.size.toNat stream with
      | full data' rest =>
          rw [hloop] at h
          have hbody := bodyLoop_consumes (Or.inl ⟨data', hloop⟩)
          have hverify := finishWith_consumes h
          dsimp only
          omega
      | closed rest =>
          have hbody := bodyLoop_consumes (Or.inr hloop)
          dsimp only
          omega
      | blocked rest =>
          rw [hloop] at h
          cases h
      | threw e rest =>
          rw [hloop] at h
          cases h
      | outOfFuel =>
          rw [hloop] at h
          cases h

/-- An empty normal message is never read: its buffer is refused. -/
theorem readNormalMessage_empty {o : Oracle} {head : MessageHead} {stream : List UInt8}
    (h : head.size = 0) : (readNormalMessage o head stream).fate = .aborted := by
  have halloc : Bytes.alloc head.size.toNat o.heap = none := by
    rw [h]
    rfl
  rw [readNormalMessage, halloc]

/-- The head that `m` bytes of a frame's head leave, and how much of the frame follows it. -/
theorem partialHead_frame (f : Frame) :
    ∃ head tail, f.bytes = head ++ tail ∧ head.length = 8 ∧
      ((∀ m, (partialHead (head.take m)).type.val = 0 ∧
          (partialHead (head.take m)).size.toNat + 4 ≤ tail.length) ∨
        (∀ m, 0 < m → 4 ≤ tail.length ∧ ((partialHead (head.take m)).type.val = 1 ∨
          (partialHead (head.take m)).type.val = 0 ∧ (partialHead (head.take m)).size = 0))) := by
  cases f with
  | normal content =>
      refine ⟨(normalHead content.bytes.length).bytes, content.bytes ++ verifyBytes, ?_, ?_, ?_⟩
      · simp [Frame.bytes, normalMessage]
      · exact MessageHead.length_bytes _
      · left
        intro m
        refine ⟨partialHead_normal _ m, ?_⟩
        have hsize := partialHead_size_le (normalHead content.bytes.length) m
        rw [normalHead_size content.bounded] at hsize
        rw [List.length_append, length_verifyBytes]
        omega
  | rankReport rank port =>
      refine ⟨(rankReportHead rank port).bytes, verifyBytes, rfl, ?_, ?_⟩
      · exact MessageHead.length_bytes _
      · right
        intro m hm
        exact ⟨Nat.le_of_eq length_verifyBytes.symm, partialHead_rankReport rank port hm⟩

/-- A head or a verify code that comes in pieces ends the event off the frame boundary, strictly
inside of the frame, or ends the server. -/
theorem handleEvent_short {o : Oracle} {k v : Nat} (hhead : o.head = .bytes k)
    (hverify : o.verify = .bytes v) (hshort : ¬ (8 ≤ k ∧ 4 ≤ v)) (f : Frame)
    (rest : List UInt8) (hdone : (handleEvent o (f.bytes ++ rest)).fate = .done) :
    rest.length < (handleEvent o (f.bytes ++ rest)).rest.length ∧
      (handleEvent o (f.bytes ++ rest)).rest.length < (f.bytes ++ rest).length := by
  obtain ⟨head, tail, hbytes, hlength, hframe⟩ := partialHead_frame f
  let m := min (max k 1) 8
  have hm : 0 < m ∧ m ≤ 8 := by
    show 0 < min (max k 1) 8 ∧ min (max k 1) 8 ≤ 8
    omega
  have hcut : o.verify.size 4 + m < 12 := by
    rw [hverify]
    show min (max v 1) 4 + min (max k 1) 8 < 12
    omega
  have hread : sysRead (f.bytes ++ rest) 8 (.bytes k) =
      .got (head.take m) (head.drop m ++ (tail ++ rest)) := by
    have hne : head ++ (tail ++ rest) ≠ [] := by
      apply List.append_ne_nil_of_left_ne_nil
      exact List.ne_nil_of_length_pos (by omega)
    rw [hbytes, List.append_assoc, sysRead, if_neg hne]
    show ReadOutcome.got (List.take m _) (List.drop m _) = _
    rw [List.take_append_of_le_length (by omega), List.drop_append_of_le_length (by omega)]
  rw [hbytes]
  rw [hbytes] at hread hdone
  simp only [List.length_append]
  have hstream : (head.drop m ++ (tail ++ rest)).length = 8 - m + tail.length + rest.length := by
    simp only [List.length_append, List.length_drop]
    omega
  unfold handleEvent at hdone ⊢
  simp only [hhead, hread] at hdone ⊢
  rcases hframe with hnormal | hreport
  · -- a normal head keeps its type and shows no more than its size
    obtain ⟨htype, hsize⟩ := hnormal m
    rw [if_pos htype] at hdone ⊢
    have hconsumes := readNormalMessage_consumes hdone
    omega
  · obtain ⟨htail, htype | ⟨htype, hsize⟩⟩ := hreport m hm.1
    · -- a rank report that keeps its type leaves a part of its verify code
      rw [if_neg (by rw [htype]; decide), if_pos htype] at hdone ⊢
      have hconsumes := finishWith_consumes hdone
      unfold readRankReportMessage
      omega
    · -- one byte of a rank report reads as an empty normal message
      rw [if_pos htype, readNormalMessage_empty hsize] at hdone
      cases hdone

end Npp.Network
