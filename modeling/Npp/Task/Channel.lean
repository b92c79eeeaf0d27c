import Npp.Task.Result
import Mathlib.Algebra.Group.Int.Defs
import Mathlib.Data.List.Basic
import Mathlib.Data.Int.Notation

/-!
# The channel and its awaiters

`Channel` holds a bounded buffer and two wait lists of awaiters. Each function below is one
critical section under `channel_lock`; the resumptions that the source issues after unlocking
are returned as data, in the order of the source.
-/

namespace Npp.Task

variable {V : Type}

def channelClosed : Exn := .std "Channel is closed."

structure WriterAwaiter (V : Type) where
  id : Nat
  value : V
deriving DecidableEq, Repr

/-- A `ReaderAwaiter`; `pValue` says whether `operator>>` gave it a destination. -/
structure ReaderAwaiter where
  id : Nat
  pValue : Bool := false
deriving DecidableEq, Repr

inductive Resumption (V : Type) where
  | writer (w : WriterAwaiter V)
  | reader (r : ReaderAwaiter) (value : V)
  | readerUnsafe (r : ReaderAwaiter)
deriving DecidableEq, Repr

def Resumption.id : Resumption V → Nat
  | .writer w => w.id
  | .reader r _ => r.id
  | .readerUnsafe r => r.id

def Resumption.assignment : Resumption V → Option (Nat × V)
  | .reader r v => some (r.id, v)
  | _ => none

/-- The ways a push ends. `direct` is the hand-over between a reader and a writer that never
touches the buffer. -/
inductive Route (V : Type) where
  | suspended
  | direct (r : ReaderAwaiter) (w : WriterAwaiter V)
  | toBuffer (w : WriterAwaiter V)
  | fromBuffer (r : ReaderAwaiter) (value : V) (refill : Option (WriterAwaiter V))
deriving DecidableEq, Repr

def Route.resumptions : Route V → List (Resumption V)
  | .suspended => []
  | .direct r w => [.reader r w.value, .writer w]
  | .toBuffer w => [.writer w]
  | .fromBuffer r v refill => (refill.map .writer).toList ++ [.reader r v]

def Route.matched : Route V → List (ReaderAwaiter × WriterAwaiter V)
  | .direct r w => [(r, w)]
  | _ => []

structure Channel (V : Type) where
  bufferCapacity : Int
  buffer : List V := []
  writerList : List (WriterAwaiter V) := []
  readerList : List ReaderAwaiter := []
  isActive : Bool := true
deriving DecidableEq, Repr

/-- The conversion from `int` to `size_t`. -/
def sizeT (n : Int) : Nat := (n % 2 ^ 64).toNat

namespace Channel

/-- `buffer.size() < buffer_capacity`, compared as `size_t`. -/
def hasRoom (ch : Channel V) : Bool := decide (ch.buffer.length < sizeT ch.bufferCapacity)

def checkClosed (ch : Channel V) : Except Exn Unit :=
  if ch.isActive then .ok () else .error channelClosed

/-- The store of the compare-and-exchange in `close`. -/
def deactivate (ch : Channel V) : Channel V := { ch with isActive := false }

/-- `try_push_reader` after its check: serve the reader from the buffer (a waiting writer
refills it), else from a waiting writer, else suspend it. -/
def admitReader (ch : Channel V) (r : ReaderAwaiter) : Channel V × Route V :=
  match ch.buffer, ch.writerList with
  | value :: rest, w :: ws =>
      ({ ch with buffer := rest ++ [w.value], writerList := ws }, .fromBuffer r value (some w))
  | value :: rest, [] => ({ ch with buffer := rest }, .fromBuffer r value none)
  | [], w :: ws => ({ ch with writerList := ws }, .direct r w)
  | [], [] => ({ ch with readerList := ch.readerList ++ [r] }, .suspended)

def tryPushReader (ch : Channel V) (r : ReaderAwaiter) : Except Exn (Channel V × Route V) :=
  ch.checkClosed.map fun _ => ch.admitReader r

/-- `try_push_writer` after its check: hand the value to a waiting reader, else buffer it, else
suspend the writer. -/
def admitWriter (ch : Channel V) (w : WriterAwaiter V) : Channel V × Route V :=
  match ch.readerList with
  | r :: rs => ({ ch with readerList := rs }, .direct r w)
  | [] =>
      if ch.hasRoom then
        ({ ch with buffer := ch.buffer ++ [w.value] }, .toBuffer w)
      else
        ({ ch with writerList := ch.writerList ++ [w] }, .suspended)

def tryPushWriter (ch : Channel V) (w : WriterAwaiter V) :
    Except Exn (Channel V × Route V) :=
  ch.checkClosed.map fun _ => ch.admitWriter w

def removeWriter (ch : Channel V) (id : Nat) : Channel V :=
  { ch with writerList := ch.writerList.filter (·.id ≠ id) }

def removeReader (ch : Channel V) (id : Nat) : Channel V :=
  { ch with readerList := ch.readerList.filter (·.id ≠ id) }

/-- `clean_up`: resume every waiting writer, then every waiting reader without a value. -/
def cleanUp (ch : Channel V) : Channel V × List (Resumption V) :=
  ({ ch with writerList := [], readerList := [], buffer := [] },
    ch.writerList.map .writer ++ ch.readerList.map .readerUnsafe)

theorem filter_key_absent {α : Type} {key : α → Nat} {l : List α} {i : Nat}
    (h : i ∉ l.map key) : l.filter (key · ≠ i) = l := by
  rw [List.filter_eq_self]
  intro a ha
  have hne : key a ≠ i := fun heq => h (heq ▸ List.mem_map_of_mem ha)
  simpa using hne

/-- Removing an awaiter that does not wait changes nothing. -/
theorem removeWriter_absent {ch : Channel V} {id : Nat}
    (h : id ∉ ch.writerList.map (·.id)) : ch.removeWriter id = ch := by
  rw [removeWriter, filter_key_absent h]

theorem removeReader_absent {ch : Channel V} {id : Nat}
    (h : id ∉ ch.readerList.map (·.id)) : ch.removeReader id = ch := by
  rw [removeReader, filter_key_absent h]

/-! ## What a push can do -/

inductive PushWriter (ch : Channel V) (w : WriterAwaiter V) : Channel V → Route V → Prop where
  | direct {r rs} (hreaders : ch.readerList = r :: rs) :
      PushWriter ch w { ch with readerList := rs } (.direct r w)
  | toBuffer (hreaders : ch.readerList = []) (hroom : ch.hasRoom = true) :
      PushWriter ch w { ch with buffer := ch.buffer ++ [w.value] } (.toBuffer w)
  | suspended (hreaders : ch.readerList = []) (hfull : ch.hasRoom = false) :
      PushWriter ch w { ch with writerList := ch.writerList ++ [w] } .suspended

inductive PushReader (ch : Channel V) (r : ReaderAwaiter) : Channel V → Route V → Prop where
  | refilled {v rest w ws} (hbuffer : ch.buffer = v :: rest) (hwriters : ch.writerList = w :: ws) :
      PushReader ch r { ch with buffer := rest ++ [w.value], writerList := ws }
        (.fromBuffer r v (some w))
  | fromBuffer {v rest} (hbuffer : ch.buffer = v :: rest) (hwriters : ch.writerList = []) :
      PushReader ch r { ch with buffer := rest } (.fromBuffer r v none)
  | direct {w ws} (hbuffer : ch.buffer = []) (hwriters : ch.writerList = w :: ws) :
      PushReader ch r { ch with writerList := ws } (.direct r w)
  | suspended (hbuffer : ch.buffer = []) (hwriters : ch.writerList = []) :
      PushReader ch r { ch with readerList := ch.readerList ++ [r] } .suspended

theorem admitWriter_spec (ch : Channel V) (w : WriterAwaiter V) :
    PushWriter ch w (ch.admitWriter w).1 (ch.admitWriter w).2 := by
  unfold admitWriter
  split
  case h_1 r rs hreaders => exact .direct hreaders
  case h_2 hreaders =>
    split
    case isTrue hroom => exact .toBuffer hreaders hroom
    case isFalse hroom => exact .suspended hreaders (by simpa using hroom)

theorem admitReader_spec (ch : Channel V) (r : ReaderAwaiter) :
    PushReader ch r (ch.admitReader r).1 (ch.admitReader r).2 := by
  unfold admitReader
  split
  case h_1 hbuffer hwriters => exact .refilled hbuffer hwriters
  case h_2 hbuffer hwriters => exact .fromBuffer hbuffer hwriters
  case h_3 hbuffer hwriters => exact .direct hbuffer hwriters
  case h_4 hbuffer hwriters => exact .suspended hbuffer hwriters

theorem PushWriter.isActive {ch ch' : Channel V} {w : WriterAwaiter V} {route : Route V}
    (h : PushWriter ch w ch' route) : ch'.isActive = ch.isActive := by
  cases h <;> rfl

theorem PushReader.isActive {ch ch' : Channel V} {r : ReaderAwaiter} {route : Route V}
    (h : PushReader ch r ch' route) : ch'.isActive = ch.isActive := by
  cases h <;> rfl

theorem admitWriter_isActive (ch : Channel V) (w : WriterAwaiter V) :
    (ch.admitWriter w).1.isActive = ch.isActive :=
  (ch.admitWriter_spec w).isActive

theorem admitReader_isActive (ch : Channel V) (r : ReaderAwaiter) :
    (ch.admitReader r).1.isActive = ch.isActive :=
  (ch.admitReader_spec r).isActive

/-- After its check a push does not read the flag, so a flip in between does not change it. -/
theorem admitWriter_deactivate (ch : Channel V) (w : WriterAwaiter V) :
    ch.deactivate.admitWriter w = ((ch.admitWriter w).1.deactivate, (ch.admitWriter w).2) := by
  have hroom : ch.deactivate.hasRoom = ch.hasRoom := rfl
  have hreaders : ch.deactivate.readerList = ch.readerList := rfl
  rw [admitWriter, admitWriter, hroom, hreaders]
  cases ch.readerList <;> cases ch.hasRoom <;> rfl

theorem admitReader_deactivate (ch : Channel V) (r : ReaderAwaiter) :
    ch.deactivate.admitReader r = ((ch.admitReader r).1.deactivate, (ch.admitReader r).2) := by
  unfold admitReader deactivate
  cases ch.buffer <;> cases ch.writerList <;> rfl

theorem tryPushWriter_cases (ch : Channel V) (w : WriterAwaiter V) :
    (ch.isActive = false ∧ ch.tryPushWriter w = .error channelClosed) ∨
    (ch.isActive = true ∧ ∃ ch' route, ch.tryPushWriter w = .ok (ch', route) ∧
      PushWriter ch w ch' route) := by
  cases h : ch.isActive with
  | false => exact Or.inl ⟨rfl, by simp [tryPushWriter, checkClosed, h, Except.map]⟩
  | true =>
      refine Or.inr ⟨rfl, _, _, ?_, ch.admitWriter_spec w⟩
      simp [tryPushWriter, checkClosed, h, Except.map]

theorem tryPushReader_cases (ch : Channel V) (r : ReaderAwaiter) :
    (ch.isActive = false ∧ ch.tryPushReader r = .error channelClosed) ∨
    (ch.isActive = true ∧ ∃ ch' route, ch.tryPushReader r = .ok (ch', route) ∧
      PushReader ch r ch' route) := by
  cases h : ch.isActive with
  | false => exact Or.inl ⟨rfl, by simp [tryPushReader, checkClosed, h, Except.map]⟩
  | true =>
      refine Or.inr ⟨rfl, _, _, ?_, ch.admitReader_spec r⟩
      simp [tryPushReader, checkClosed, h, Except.map]

end Channel

end Npp.Task
