import Npp.Foundation.Machine
import Npp.Network.Receive

/-!
# The body of a message, one `read` after the other

`readNormalMessage` with its two counters as they are, numbers of 32 bits, and with each `read` as
a step: its label is what `read` returns. A step takes as many bytes from the stream as that is.
At the end, the runs are compared with the loop in `Receive`, whose counters are natural numbers.
-/

namespace Npp.Network

open Npp.Foundation Npp.Basic

/-- Where `readNormalMessage` is: in its loop, behind the `return` of a body that is not whole, at
its end, or out of it by an exception or a failed assertion. -/
inductive BodyStage where
  | reading
  | left
  | finished (fate : Fate)
  | threw (e : RangeException)
  | aborted
deriving DecidableEq, Repr

/-- The variables of `readNormalMessage`, the bytes not read yet, and what it has done: how often
it has closed the connection, and what it has given to `processMessage`. -/
structure Assembly where
  data : Bytes
  remainSize : UInt32
  allReadSize : UInt32 := 0
  stream : List UInt8
  stage : BodyStage := .reading
  closes : ℕ := 0
  processed : List (List UInt8) := []
deriving DecidableEq, Repr

inductive BodyEvent where
  | read (readSize : Int)
  | finish
deriving DecidableEq, Repr

namespace Assembly

def begin (o : Oracle) (head : MessageHead) (stream : List UInt8) : Assembly :=
  match Bytes.alloc head.size.toNat o.heap with
  | none => { data := ⟨[]⟩, remainSize := head.size, stream, stage := .aborted }
  | some data => { data, remainSize := head.size, stream }

def thisReadSize (s : Assembly) : UInt32 := min (UInt32.ofNat receiveBuffSize) s.remainSize

/-- What `read` may return: at most what was requested, and at most what there is. -/
def Allows (s : Assembly) (readSize : Int) : Prop :=
  readSize ≤ s.thisReadSize.toNat ∧ readSize ≤ s.stream.length

instance (s : Assembly) (readSize : Int) : Decidable (s.Allows readSize) :=
  inferInstanceAs (Decidable (_ ∧ _))

/-- One turn of the loop, with what `read` returns. -/
def read (s : Assembly) (readSize : Int) : Option Assembly :=
  if s.stage = .reading ∧ s.remainSize > 0 then
    if readSize ≤ 0 then some { s with stage := .left, closes := s.closes + 1 }
    else if s.Allows readSize then
      let size := readSize.toNat
      match s.data.set (s.stream.take size) s.allReadSize.toNat with
      | .error e => some { s with stream := s.stream.drop size, stage := .threw e }
      | .ok data =>
          some { s with
            data
            allReadSize := s.allReadSize + UInt32.ofNat size
            remainSize := s.remainSize - UInt32.ofNat size
            stream := s.stream.drop size }
    else none
  else none

def finish (o : Oracle) (s : Assembly) : Option Assembly :=
  if s.stage = .reading ∧ s.remainSize = 0 then
    let handled := finishWith o s.stream (.process s.data.data)
    some { s with
      stream := handled.rest
      stage := .finished handled.fate
      closes := s.closes + handled.closed.toNat
      processed := s.processed ++ handled.action.processed }
  else none

def step (o : Oracle) (s : Assembly) : BodyEvent → Option Assembly
  | .read readSize => s.read readSize
  | .finish => s.finish o

structure Assembles (head : MessageHead) (stream : List UInt8) (s : Assembly) : Prop where
  counters : s.allReadSize.toNat + s.remainSize.toNat = head.size.toNat
  request : s.allReadSize.toNat + s.thisReadSize.toNat ≤ head.size.toNat
  unharmed : s.stage ≠ .aborted ∧ ∀ e, s.stage ≠ .threw e
  consumed : s.stage = .reading ∨ s.stage = .left →
    s.allReadSize.toNat ≤ stream.length ∧ s.stream = stream.drop s.allReadSize.toNat
  whole : s.remainSize = 0 → s.data.data = stream.take head.size.toNat ∧
    (s.stage = .reading → head.size.toNat ≤ stream.length ∧ s.stream = stream.drop head.size.toNat)
  closed : s.stage = .left → s.closes = 1 ∧ s.processed = [] ∧ 0 < s.remainSize.toNat
  passed : ∀ content ∈ s.processed, content = stream.take head.size.toNat

end Assembly

/-- A normal message with this head, and what follows the head on its connection. -/
def assembly (o : Oracle) (head : MessageHead) (stream : List UInt8) :
    Machine Assembly BodyEvent :=
  { init := .begin o head stream, step := Assembly.step o }

variable {o : Oracle} {head : MessageHead} {stream : List UInt8} {s s' : Assembly}

/-! ## The counters -/

theorem toNat_thisReadSize (s : Assembly) :
    s.thisReadSize.toNat = min receiveBuffSize s.remainSize.toNat := by
  have hbuff : (UInt32.ofNat receiveBuffSize).toNat = receiveBuffSize := by decide
  have hle : UInt32.ofNat receiveBuffSize ≤ s.remainSize ↔
      receiveBuffSize ≤ s.remainSize.toNat := by
    rw [UInt32.le_iff_toNat_le, hbuff]
  show (if UInt32.ofNat receiveBuffSize ≤ s.remainSize then _ else _ : UInt32).toNat = _
  split
  case isTrue h => rw [hbuff, Nat.min_eq_left (hle.mp h)]
  case isFalse h =>
    have hlt := mt hle.mpr h
    rw [Nat.min_eq_right (by omega)]

/-- A piece that was read moves its length from one counter to the other. -/
theorem counters_read {allReadSize remainSize : UInt32} {size : ℕ} (hsize : size ≤ remainSize.toNat)
    (hsum : allReadSize.toNat + remainSize.toNat < 2 ^ 32) :
    (allReadSize + UInt32.ofNat size).toNat = allReadSize.toNat + size ∧
      (remainSize - UInt32.ofNat size).toNat = remainSize.toNat - size := by
  have hread : (UInt32.ofNat size).toNat = size :=
    UInt32.toNat_ofNat_of_lt' (show size < 2 ^ 32 by omega)
  constructor
  · rw [UInt32.toNat_add, hread, Nat.mod_eq_of_lt (by omega)]
  · rw [UInt32.toNat_sub_of_le _ _ (by rw [UInt32.le_iff_toNat_le, hread]; exact hsize), hread]

theorem begin_pos (hsize : 0 < head.size.toNat) (o : Oracle) (stream : List UInt8) :
    ∃ data : Bytes, data.size = head.size.toNat ∧
      Assembly.begin o head stream = { data, remainSize := head.size, stream } := by
  obtain ⟨data, halloc, hdata⟩ := Bytes.alloc_pos hsize o.heap
  refine ⟨data, hdata, ?_⟩
  unfold Assembly.begin
  rw [halloc]

/-! ## What a step keeps -/

/-- The loop: the front of the buffer is what was read, and nothing else has happened. -/
structure Filling (head : MessageHead) (stream : List UInt8) (s : Assembly) : Prop where
  size : s.data.size = head.size.toNat
  counters : s.allReadSize.toNat + s.remainSize.toNat = head.size.toNat
  available : s.allReadSize.toNat ≤ stream.length
  filled : s.data.data.take s.allReadSize.toNat = stream.take s.allReadSize.toNat
  rest : s.stream = stream.drop s.allReadSize.toNat
  closes : s.closes = 0
  processed : s.processed = []

/-- A `read` of the loop ends it and closes the connection, or goes on behind its piece. -/
theorem read_cases {readSize : Int} (h : Filling head stream s)
    (hread : s.read readSize = some s') :
    s.stage = .reading ∧ 0 < s.remainSize.toNat ∧
      ((readSize ≤ 0 ∧ s' = { s with stage := .left, closes := s.closes + 1 }) ∨
        0 < readSize ∧ Filling head stream s' ∧ s'.stage = .reading ∧
          s'.allReadSize.toNat = s.allReadSize.toNat + readSize.toNat) := by
  have hbound := head.size.toNat_lt
  unfold Assembly.read at hread
  obtain ⟨⟨hstage, hremain⟩, hread⟩ := Option.ite_none_right_eq_some.mp hread
  refine ⟨hstage, UInt32.lt_iff_toNat_lt.mp hremain, ?_⟩
  split at hread
  case isTrue hfail => exact Or.inl ⟨hfail, (Option.some.inj hread).symm⟩
  case isFalse hgot =>
    obtain ⟨⟨hrequest, havailable⟩, hread⟩ := Option.ite_none_right_eq_some.mp hread
    obtain ⟨size, rfl⟩ : ∃ size : ℕ, readSize = size := ⟨readSize.toNat, by omega⟩
    rw [toNat_thisReadSize] at hrequest
    have hcounters := h.counters
    have hpiece : size ≤ s.remainSize.toNat := by omega
    obtain ⟨hall, hleft⟩ := counters_read hpiece (by rwa [hcounters])
    have hlength : (s.stream.take size).length = size := by
      rw [List.length_take]
      omega
    have hfilled : (stream.take s.allReadSize.toNat).length = s.allReadSize.toNat := by
      rw [List.length_take]
      exact Nat.min_eq_left h.available
    obtain ⟨data, hset, hdata, hfront⟩ := Bytes.set_next (b := s.data)
      (s.stream.take size) (by rw [hfilled]; exact h.filled)
      (by rw [hfilled, hlength, h.size]; omega)
    rw [hfilled] at hset
    have hnext : stream.take s.allReadSize.toNat ++ s.stream.take size =
        stream.take (s.allReadSize.toNat + size) := by
      rw [h.rest, List.take_add]
    have hstream : s.stream.length = stream.length - s.allReadSize.toNat := by
      rw [h.rest, List.length_drop]
    simp only [Int.toNat_natCast, hset, Option.some.injEq] at hread
    subst hread
    refine Or.inr ⟨by omega, ?_, hstage, ?_⟩
    · constructor
      case size => exact hdata.trans h.size
      case counters =>
        show (s.allReadSize + _).toNat + (s.remainSize - _).toNat = _
        omega
      case available =>
        show (s.allReadSize + _).toNat ≤ _
        omega
      case filled =>
        show data.data.take (s.allReadSize + _).toNat = stream.take (s.allReadSize + _).toNat
        rw [hall, ← hnext]
        rw [List.length_append, hfilled, hlength] at hfront
        exact hfront
      case rest =>
        show s.stream.drop size = stream.drop (s.allReadSize + _).toNat
        rw [hall, h.rest, List.drop_drop]
      case closes => exact h.closes
      case processed => exact h.processed
    · rw [Int.toNat_natCast]
      exact hall

theorem filling_begin (o : Oracle) (stream : List UInt8) (hsize : 0 < head.size.toNat) :
    Filling head stream (.begin o head stream) ∧
      (Assembly.begin o head stream).stage = .reading := by
  obtain ⟨data, hdata, hbegin⟩ := begin_pos hsize o stream
  rw [hbegin]
  exact ⟨⟨hdata, Nat.zero_add _, Nat.zero_le _, rfl, rfl, rfl, rfl⟩, rfl⟩

/-- At the end of the loop the buffer is the body, and what is left is behind it. -/
theorem Filling.whole (h : Filling head stream s) (hremain : s.remainSize = 0) :
    s.data.data = stream.take head.size.toNat ∧ head.size.toNat ≤ stream.length ∧
      s.stream = stream.drop head.size.toNat := by
  have hall : s.allReadSize.toNat = head.size.toNat := by
    have hcounters := h.counters
    rw [hremain] at hcounters
    exact hcounters
  have hdata : s.data.data.take head.size.toNat = s.data.data := by
    rw [← h.size]
    exact List.take_length
  have hfilled := h.filled
  have havailable := h.available
  have hrest := h.rest
  rw [hall] at hfilled havailable hrest
  exact ⟨hdata.symm.trans hfilled, havailable, hrest⟩

inductive BodyKnown (head : MessageHead) (stream : List UInt8) (s : Assembly) : Prop where
  | reading (stage : s.stage = .reading) (filling : Filling head stream s)
  | left (stage : s.stage = .left) (filling : Filling head stream { s with closes := 0 })
      (closes : s.closes = 1) (remain : 0 < s.remainSize.toNat)
  | finished (fate : Fate) (stage : s.stage = .finished fate) (remain : s.remainSize = 0)
      (all : s.allReadSize.toNat = head.size.toNat)
      (data : s.data.data = stream.take head.size.toNat)
      (processed : ∀ content ∈ s.processed, content = s.data.data)

/-- Where there is a step, the loop is not over. -/
theorem reading_of_step {e : BodyEvent} (h : BodyKnown head stream s)
    (hstep : s.step o e = some s') : s.stage = .reading ∧ Filling head stream s := by
  have hreading : s.stage = .reading := by
    cases e with
    | read readSize => exact (Option.ite_none_right_eq_some.mp hstep).1.1
    | finish => exact (Option.ite_none_right_eq_some.mp hstep).1.1
  refine ⟨hreading, ?_⟩
  cases h with
  | reading _ filling => exact filling
  | left stage => cases hreading.symm.trans stage
  | finished _ stage => cases hreading.symm.trans stage

/-- A step fetches a byte, or it is the last one. -/
theorem known_step {e : BodyEvent} (h : BodyKnown head stream s)
    (hstep : s.step o e = some s') :
    BodyKnown head stream s' ∧
      ((s'.stage = .reading ∧ s.allReadSize.toNat < s'.allReadSize.toNat) ∨
        (s'.stage ≠ .reading ∧ s'.allReadSize = s.allReadSize)) := by
  obtain ⟨-, hfilling⟩ := reading_of_step h hstep
  cases e with
  | read readSize =>
      obtain ⟨-, hremain, ⟨-, rfl⟩ | ⟨hpos, hnext, hreading, hall⟩⟩ :=
        read_cases hfilling hstep
      · refine ⟨.left rfl ?_ ?_ hremain, Or.inr ⟨by rintro ⟨⟩, rfl⟩⟩
        · exact ⟨hfilling.size, hfilling.counters, hfilling.available, hfilling.filled,
            hfilling.rest, rfl, hfilling.processed⟩
        · show s.closes + 1 = 1
          rw [hfilling.closes]
      · exact ⟨.reading hreading hnext, Or.inl ⟨hreading, by omega⟩⟩
  | finish =>
      obtain ⟨⟨-, hremain⟩, hs'⟩ := Option.ite_none_right_eq_some.mp hstep
      obtain rfl := Option.some.inj hs'
      have hcounters := hfilling.counters
      rw [hremain] at hcounters
      refine ⟨.finished _ rfl hremain hcounters (hfilling.whole hremain).1 ?_,
        Or.inr ⟨by rintro ⟨⟩, rfl⟩⟩
      intro content hcontent
      change content ∈ s.processed ++ _ at hcontent
      rw [hfilling.processed, List.nil_append] at hcontent
      exact List.mem_singleton.mp (finishWith_processed hcontent)

theorem BodyKnown.unharmed (h : BodyKnown head stream s) :
    s.stage ≠ .aborted ∧ ∀ e, s.stage ≠ .threw e := by
  cases h with
  | reading stage | left stage =>
      rw [stage]
      exact ⟨by rintro ⟨⟩, by rintro e ⟨⟩⟩
  | finished fate stage =>
      rw [stage]
      exact ⟨by rintro ⟨⟩, by rintro e ⟨⟩⟩

theorem assembles_of_known (h : BodyKnown head stream s) : s.Assembles head stream := by
  have hrequest : s.thisReadSize.toNat ≤ s.remainSize.toNat := by
    rw [toNat_thisReadSize]
    exact Nat.min_le_right _ _
  have hunharmed := h.unharmed
  cases h with
  | reading stage filling =>
      have hcounters := filling.counters
      refine ⟨hcounters, by omega, hunharmed, fun _ => ⟨filling.available, filling.rest⟩,
        fun hremain => ⟨(filling.whole hremain).1, fun _ => (filling.whole hremain).2⟩, ?_, ?_⟩
      · rw [stage]
        rintro ⟨⟩
      · rw [filling.processed]
        rintro content ⟨⟩
  | left stage filling closes remain =>
      have hcounters : s.allReadSize.toNat + s.remainSize.toNat = _ := filling.counters
      have hprocessed : s.processed = [] := filling.processed
      refine ⟨hcounters, by omega, hunharmed, fun _ => ⟨filling.available, filling.rest⟩,
        fun hremain => ?_, fun _ => ⟨closes, hprocessed, remain⟩, ?_⟩
      · rw [hremain] at remain
        exact absurd remain (Nat.lt_irrefl 0)
      · rw [hprocessed]
        rintro content ⟨⟩
  | finished fate stage remain all data processed =>
      have hremain : s.remainSize.toNat = 0 := by rw [remain]; rfl
      refine ⟨by omega, by omega, hunharmed, ?_, fun _ => ⟨data, ?_⟩, ?_, ?_⟩
      · rw [stage]
        rintro (⟨⟨⟩⟩ | ⟨⟨⟩⟩)
      · rw [stage]
        rintro ⟨⟩
      · rw [stage]
        rintro ⟨⟩
      · exact fun content hcontent => (processed content hcontent).trans data

/-- Every read but the last one fetches a byte. -/
theorem known_runs (hsize : 0 < head.size.toNat) {es : List BodyEvent}
    (h : (assembly o head stream).Runs es s) :
    BodyKnown head stream s ∧
      es.length ≤ s.allReadSize.toNat + if s.stage = .reading then 0 else 1 := by
  refine h.induction (P := fun es s => BodyKnown head stream s ∧
    es.length ≤ s.allReadSize.toNat + if s.stage = .reading then 0 else 1) ?_ ?_
  · obtain ⟨hfilling, hstage⟩ := filling_begin o stream hsize
    exact ⟨.reading hstage hfilling, Nat.zero_le _⟩
  · rintro es s e s' - ⟨hknown, hlength⟩ hstep
    obtain ⟨hknown', hnext⟩ := known_step hknown hstep
    refine ⟨hknown', ?_⟩
    rw [List.length_append, List.length_singleton]
    rw [if_pos (reading_of_step hknown hstep).1] at hlength
    rcases hnext with ⟨hstage, hlt⟩ | ⟨hstage, hsame⟩
    · rw [if_pos hstage]
      omega
    · rw [if_neg hstage, hsame]
      omega

/-- Whatever a `read` may return, the loop can go on with it. -/
theorem exists_read (hstage : s.stage = .reading) (hremain : s.remainSize > 0) {readSize : Int}
    (hallows : s.Allows readSize) : ∃ s', s.read readSize = some s' := by
  unfold Assembly.read
  rw [if_pos ⟨hstage, hremain⟩]
  by_cases hfail : readSize ≤ 0
  · rw [if_pos hfail]
    exact ⟨_, rfl⟩
  · rw [if_neg hfail, if_pos hallows]
    dsimp only
    split
    · exact ⟨_, rfl⟩
    · exact ⟨_, rfl⟩

/-! ## The loop over natural numbers -/

/-- The step of a `read` that gives a piece, with what `set` makes of it. -/
theorem read_piece (h : Filling head stream s) (hstage : s.stage = .reading)
    {piece rest : List UInt8} (hstream : s.stream = piece ++ rest) (hpos : 0 < piece.length)
    (hle : piece.length ≤ min receiveBuffSize s.remainSize.toNat) :
    ∃ s', s.read piece.length = some s' ∧ Filling head stream s' ∧ s'.stage = .reading ∧
      s.data.set piece s.allReadSize.toNat = .ok s'.data ∧ s'.stream = rest ∧
      s'.allReadSize.toNat = s.allReadSize.toNat + piece.length ∧
      s'.remainSize.toNat = s.remainSize.toNat - piece.length := by
  have hremain : s.remainSize > 0 := UInt32.lt_iff_toNat_lt.mpr (show 0 < _ by omega)
  have hallows : s.Allows piece.length := by
    unfold Assembly.Allows
    rw [toNat_thisReadSize, hstream, List.length_append]
    omega
  obtain ⟨s', hread⟩ := exists_read hstage hremain hallows
  obtain ⟨-, -, ⟨hfail, -⟩ | ⟨-, hnext, hstage', hall⟩⟩ := read_cases h hread
  · omega
  rw [Int.toNat_natCast] at hall
  have hsum := h.counters
  have hsum' := hnext.counters
  refine ⟨s', hread, hnext, hstage', ?_, ?_, hall, by omega⟩
  · have hset := hread
    unfold Assembly.read at hset
    rw [if_pos ⟨hstage, hremain⟩, if_neg (by omega), if_pos hallows] at hset
    simp only [Int.toNat_natCast, hstream, List.take_left] at hset
    split at hset
    case h_1 e heq =>
      obtain rfl := Option.some.inj hset
      cases hstage'
    case h_2 data heq =>
      obtain rfl := Option.some.inj hset
      exact heq
  · rw [hnext.rest, hall, ← List.drop_drop, ← h.rest, hstream, List.drop_left]

def BodyResult.Shown (s : Assembly) : BodyResult → Prop
  | .full data rest => s.stage = .reading ∧ s.remainSize.toNat = 0 ∧ s.data = data ∧ s.stream = rest
  | .closed rest => s.stage = .left ∧ s.closes = 1 ∧ s.processed = [] ∧ s.stream = rest
  | .blocked rest => s.stage = .reading ∧ 0 < s.remainSize.toNat ∧ s.stream = rest
  | .threw _ _ | .outOfFuel => False

theorem exists_runs_bodyLoop (hstage : s.stage = .reading) (h : Filling head stream s) {fuel : ℕ}
    (hfuel : s.remainSize.toNat ≤ fuel) (i : ℕ) (init : List UInt8) :
    ∃ es s', (assembly o head init).runFrom s es = some s' ∧
      (s'.stage = .reading → Filling head stream s') ∧
      (bodyLoop o.body fuel i s.data s.allReadSize.toNat s.remainSize.toNat s.stream).Shown s' := by
  induction fuel generalizing s i with
  | zero =>
      have hzero : s.remainSize.toNat = 0 := Nat.le_zero.mp hfuel
      rw [bodyLoop, if_pos hzero]
      exact ⟨[], s, rfl, fun _ => h, hstage, hzero, rfl, rfl⟩
  | succ fuel ih =>
      by_cases hzero : s.remainSize.toNat = 0
      · rw [bodyLoop, if_pos hzero]
        exact ⟨[], s, rfl, fun _ => h, hstage, hzero, rfl, rfl⟩
      have hmin : 0 < min receiveBuffSize s.remainSize.toNat := by
        unfold receiveBuffSize
        omega
      cases hread : sysRead s.stream (min receiveBuffSize s.remainSize.toNat) (o.body i) with
      | blocked =>
          rw [bodyLoop, if_neg hzero, hread]
          exact ⟨[], s, rfl, fun _ => h, hstage, Nat.pos_of_ne_zero hzero, rfl⟩
      | failed =>
          rw [bodyLoop, if_neg hzero, hread]
          have hremain : s.remainSize > 0 := UInt32.lt_iff_toNat_lt.mpr (Nat.pos_of_ne_zero hzero)
          let t : Assembly := { s with stage := .left, closes := s.closes + 1 }
          have hstep : (assembly o head init).runFrom s [.read 0] = some t := by
            rw [Machine.runFrom_singleton]
            exact (if_pos ⟨hstage, hremain⟩).trans (if_pos (Int.le_refl 0))
          refine ⟨[.read 0], t, hstep, by rintro ⟨⟩, rfl, ?_, h.processed, rfl⟩
          show s.closes + 1 = 1
          rw [h.closes]
      | got piece rest =>
          obtain ⟨hstream, -, hne⟩ := sysRead_got hmin hread
          have hle := length_sysRead_got hmin hread
          have hpos := List.length_pos_of_ne_nil hne
          obtain ⟨t, hstep, hnext, ht, hset, hrest, hall, hleft⟩ :=
            read_piece h hstage hstream hpos hle
          obtain ⟨es, s', hrun, hreading, hshown⟩ := ih ht hnext (by omega) (i + 1)
          have hsum := h.counters
          have hbound := head.size.toNat_lt
          refine ⟨.read piece.length :: es, s', ?_, hreading, ?_⟩
          · rw [Machine.runFrom,
              show (assembly o head init).step s (.read piece.length) = some t from hstep]
            exact hrun
          · rw [bodyLoop_piece fuel hzero hread hset, Nat.mod_eq_of_lt (by omega), ← hall, ← hleft,
              ← hrest]
            exact hshown

/-- What an event of `Receive` tells about the message is what a run of the machine shows. -/
theorem exists_runs_readNormalMessage (o : Oracle) {head : MessageHead} (stream : List UInt8)
    (hsize : 0 < head.size.toNat) :
    ∃ es s, (assembly o head stream).Runs es s ∧
      s.stream = (readNormalMessage o head stream).rest ∧
      s.processed = (readNormalMessage o head stream).action.processed ∧
      s.closes = (readNormalMessage o head stream).closed.toNat := by
  obtain ⟨data, halloc, -⟩ := Bytes.alloc_pos hsize o.heap
  obtain ⟨hfilling, hstage⟩ := filling_begin o stream hsize
  have hbegin : Assembly.begin o head stream = { data, remainSize := head.size, stream } := by
    unfold Assembly.begin
    rw [halloc]
  obtain ⟨es, s, hrun, hreading, hshown⟩ :=
    exists_runs_bodyLoop (o := o) hstage hfilling (Nat.le_refl _) 0 stream
  rw [hbegin] at hshown
  change (bodyLoop o.body head.size.toNat 0 data 0 head.size.toNat stream).Shown s at hshown
  unfold readNormalMessage
  rw [halloc]
  dsimp only
  cases hloop : bodyLoop o.body head.size.toNat 0 data 0 head.size.toNat stream with
  | full data rest =>
      rw [hloop] at hshown
      obtain ⟨hstage', hzero, rfl, rfl⟩ := hshown
      have hremain : s.remainSize = 0 := UInt32.toNat_inj.mp hzero
      have hfinish : ∃ s', (assembly o head stream).step s .finish = some s' :=
        ⟨_, if_pos ⟨hstage', hremain⟩⟩
      obtain ⟨s', hstep⟩ := hfinish
      have hs' := (Option.ite_none_right_eq_some.mp hstep).2
      obtain rfl := Option.some.inj hs'
      refine ⟨es ++ [.finish], _, Machine.runs_snoc.mpr ⟨s, hrun, hstep⟩, rfl, ?_, ?_⟩
      · show s.processed ++ _ = _
        rw [(hreading hstage').processed, List.nil_append]
      · show s.closes + _ = _
        rw [(hreading hstage').closes, Nat.zero_add]
  | closed rest =>
      rw [hloop] at hshown
      obtain ⟨-, hcloses, hprocessed, hstream⟩ := hshown
      exact ⟨es, s, hrun, hstream, hprocessed, hcloses⟩
  | blocked rest =>
      rw [hloop] at hshown
      obtain ⟨hstage', -, hstream⟩ := hshown
      exact ⟨es, s, hrun, hstream, (hreading hstage').processed, (hreading hstage').closes⟩
  | threw e rest =>
      rw [hloop] at hshown
      exact hshown.elim
  | outOfFuel =>
      rw [hloop] at hshown
      exact hshown.elim

/-! ## Every run -/

theorem finishWith_action (o : Oracle) (stream content : List UInt8) :
    (finishWith o stream (.process content)).action.processed =
      if (finishWith o stream (.process content)).fate = .done then [content] else [] := by
  unfold finishWith
  split
  case h_1 => rfl
  case h_2 => split <;> rfl

/-- What is behind the loop goes by the verify code that follows the body. -/
theorem Filling.finish (h : Filling head stream s) (hstage : s.stage = .reading)
    (hremain : s.remainSize = 0) :
    ∃ s', s.finish o = some s' ∧
      s'.stage = .finished (finishWith o (stream.drop head.size.toNat)
        (.process (stream.take head.size.toNat))).fate ∧
      s'.closes = (finishWith o (stream.drop head.size.toNat)
        (.process (stream.take head.size.toNat))).closed.toNat ∧
      s'.processed = if s'.stage = .finished .done then [stream.take head.size.toNat] else [] := by
  obtain ⟨hdata, -, hrest⟩ := h.whole hremain
  refine ⟨_, if_pos ⟨hstage, hremain⟩, ?_, ?_, ?_⟩
  · rw [hdata, hrest]
  · show s.closes + _ = _
    rw [h.closes, Nat.zero_add, hdata, hrest]
  · show s.processed ++ _ = _
    rw [h.processed, List.nil_append, finishWith_action, hdata]
    simp only [BodyStage.finished.injEq]

/-- **The loop assembles the announced bytes**, whatever the `read`s return: in every state the
counters add up, no byte behind the body is requested, and the buffer is never overrun; a body that
is whole is the front of the stream. A run has one step for each byte at most, and a last one.
Until then the loop goes on with all that a `read` may return: a piece moves its length from one
counter to the other without a wraparound, and the first `read` that fails ends the function, with
the connection closed once and nothing given to anybody. Behind a whole body the function ends with
the verify code, and gives the front of the stream to `processMessage`, once, unless the code is
wrong or does not come. -/
theorem readNormalMessage_assembles (o : Oracle) (head : MessageHead) (stream : List UInt8)
    (hsize : 0 < head.size.toNat) {es : List BodyEvent} {s : Assembly}
    (h : (assembly o head stream).Runs es s) :
    s.Assembles head stream ∧ es.length ≤ head.size.toNat + 1 ∧
      (s.stage = .reading → s.remainSize > 0 → ∀ readSize, s.Allows readSize →
        ∃ s', (assembly o head stream).step s (.read readSize) = some s' ∧
          (0 < readSize → s'.stage = .reading ∧
            s'.allReadSize.toNat = s.allReadSize.toNat + readSize.toNat ∧
            s.remainSize.toNat = s'.remainSize.toNat + readSize.toNat) ∧
          (readSize ≤ 0 → s'.stage = .left ∧ s'.closes = 1 ∧ s'.processed = [])) ∧
      (s.stage = .reading → s.remainSize = 0 →
        ∃ s', (assembly o head stream).step s .finish = some s' ∧
          s'.stage = .finished (finishWith o (stream.drop head.size.toNat)
            (.process (stream.take head.size.toNat))).fate ∧
          s'.closes = (finishWith o (stream.drop head.size.toNat)
            (.process (stream.take head.size.toNat))).closed.toNat ∧
          s'.processed =
            if s'.stage = .finished .done then [stream.take head.size.toNat] else []) ∧
      (s.stage ≠ .reading → ∀ e, (assembly o head stream).step s e = none) := by
  obtain ⟨hknown, hlength⟩ := known_runs hsize h
  have hassembles := assembles_of_known hknown
  have hall := hassembles.counters
  refine ⟨hassembles, ?_, fun hstage hremain readSize hallows => ?_, fun hstage hremain => ?_,
    fun hover e => ?_⟩
  · split at hlength
    · omega
    · omega
  · obtain ⟨s', hread⟩ := exists_read hstage hremain hallows
    have hstep : s.step o (.read readSize) = some s' := hread
    obtain ⟨-, hfilling⟩ := reading_of_step hknown hstep
    refine ⟨s', hread, fun hpos => ?_, fun hfail => ?_⟩
    · obtain ⟨-, -, ⟨hfail, -⟩ | ⟨-, hnext, hreading, hmore⟩⟩ := read_cases hfilling hread
      · omega
      · have hall' := hnext.counters
        exact ⟨hreading, hmore, by omega⟩
    · obtain ⟨-, -, ⟨-, rfl⟩ | ⟨hpos, -⟩⟩ := read_cases hfilling hread
      · exact ⟨rfl, congrArg (· + 1) hfilling.closes, hfilling.processed⟩
      · omega
  · cases hknown with
    | reading _ filling => exact filling.finish hstage hremain
    | left stage => cases hstage.symm.trans stage
    | finished _ stage => cases hstage.symm.trans stage
  · cases e with
    | read readSize => exact if_neg fun hreading => hover hreading.1
    | finish => exact if_neg fun hreading => hover hreading.1

/-- Three bytes in two pieces with their verify code; and the same body with a `read` that fails. -/
theorem readNormalMessage_assembles_run :
    let o : Oracle := {
      head := .failed, body := fun _ => .failed, verify := .bytes 4, heap := fun _ => 0xFF
      stack := fun _ => 0 }
    let head : MessageHead := { size := 3 }
    let stream : List UInt8 := [1, 2, 3] ++ verifyBytes ++ [4]
    (∃ s s', (assembly o head stream).Runs [.read 2, .read 1] s ∧ s.Assembles head stream ∧
      (assembly o head stream).step s .finish = some s' ∧ s'.stage = .finished .done ∧
      s'.closes = 0 ∧ s'.processed = [[1, 2, 3]]) ∧
    ∃ s s', (assembly o head stream).Runs [.read 2] s ∧
      (assembly o head stream).step s (.read (-1)) = some s' ∧ s'.stage = .left ∧ s'.closes = 1 ∧
      s'.processed = [] := by
  intro o head stream
  constructor
  · let s : Assembly := {
      data := ⟨[1, 2, 3]⟩, remainSize := 0, allReadSize := 3, stream := verifyBytes ++ [4] }
    have hrun : (assembly o head stream).Runs [.read 2, .read 1] s := by
      show _ = _
      decide
    obtain ⟨hassembles, -, -, hfinish, -⟩ :=
      readNormalMessage_assembles o head stream (by decide) hrun
    obtain ⟨s', hstep, hend, hcloses, hprocessed⟩ := hfinish rfl rfl
    have hdone : s'.stage = .finished .done := hend.trans (by decide)
    refine ⟨s, s', hrun, hassembles, hstep, hdone, hcloses.trans (by decide), ?_⟩
    rw [hprocessed, if_pos hdone]
    decide
  · let s : Assembly := {
      data := ⟨[1, 2, 0xFF]⟩, remainSize := 1, allReadSize := 2, stream := 3 :: verifyBytes ++ [4] }
    have hrun : (assembly o head stream).Runs [.read 2] s := by
      show _ = _
      decide
    obtain ⟨-, -, hread, -⟩ := readNormalMessage_assembles o head stream (by decide) hrun
    obtain ⟨s', hstep, -, hfail⟩ := hread rfl (by decide) (-1) (by decide)
    exact ⟨s, s', hrun, hstep, hfail (by decide)⟩

end Npp.Network
