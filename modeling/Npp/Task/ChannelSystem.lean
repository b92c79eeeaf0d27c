import Npp.Foundation.Machine
import Npp.Task.Channel

/-!
# A channel, its awaiters and their executors

The machine interleaves any number of readers and writers on one channel. A push, a removal,
the flag flip of `close` and its `clean_up` are one step each; the flip takes no lock, so it may
also fall inside a push, right after its check. A resumption is a message: the push that causes
it appends it to `messages`, and the executor runs any message at any later step. Running one is
`await_resume`, followed by the awaiter's destructor when it threw.

Awaiters are numbered in the order in which they are awaited. The state also keeps the history
that the results speak about.
-/

namespace Npp.Task

open Npp.Foundation

variable {V : Type}

/-- How an evaluation inside a coroutine ends. `emptyResult` is the access to an empty
`_result`, which is undefined. -/
inductive Outcome (T : Type) where
  | returned (value : T)
  | threw (e : Exn)
  | emptyResult
deriving DecidableEq, Repr

namespace Outcome

variable {S T : Type}

def bind : Outcome S → (S → Outcome T) → Outcome T
  | .returned s, f => f s
  | .threw e, _ => .threw e
  | .emptyResult, _ => .emptyResult

def isReturned : Outcome T → Bool
  | .returned _ => true
  | _ => false

def ofResult : Option (Result T) → Outcome T
  | none => .emptyResult
  | some r =>
      match r.getOrThrow with
      | .ok v => .returned v
      | .error e => .threw e

end Outcome

/-- `WriterAwaiter::before_resume`; it detaches the awaiter from the channel when it returns. -/
def WriterAwaiter.beforeResume (ch : Channel V) : Outcome Unit :=
  match ch.checkClosed with
  | .ok () => .returned ()
  | .error e => .threw e

/-- `ReaderAwaiter::before_resume`, with the value stored through `p_value`, if any. -/
def ReaderAwaiter.beforeResume (r : ReaderAwaiter) (ch : Channel V)
    (result : Option (Result V)) : Outcome (Option V) :=
  match ch.checkClosed with
  | .ok () =>
      if r.pValue then (Outcome.ofResult result).bind fun v => .returned (some v)
      else .returned none
  | .error e => .threw e

def WriterAwaiter.awaitResume (ch : Channel V) (result : Option (Result Unit)) : Outcome Unit :=
  (WriterAwaiter.beforeResume ch).bind fun _ => .ofResult result

/-- The value that `co_await` gives, with the one stored through `p_value`. -/
def ReaderAwaiter.awaitResume (r : ReaderAwaiter) (ch : Channel V)
    (result : Option (Result V)) : Outcome (V × Option V) :=
  (r.beforeResume ch result).bind fun stored =>
    (Outcome.ofResult result).bind fun v => .returned (v, stored)

inductive Ending (V : Type) where
  | wrote (o : Outcome Unit)
  | read (o : Outcome (V × Option V))
deriving DecidableEq, Repr

def Ending.isReturned : Ending V → Bool
  | .wrote o => o.isReturned
  | .read o => o.isReturned

/-- Run a resumption: set `_result` as `resume` or `resume_unsafe` does, then `await_resume`. -/
def Resumption.ending (ch : Channel V) : Resumption V → Ending V
  | .writer _ => .wrote (WriterAwaiter.awaitResume ch (some (.ofValue ())))
  | .reader r v => .read (r.awaitResume ch (some (.ofValue v)))
  | .readerUnsafe r => .read (r.awaitResume ch none)

/-- The channel after the awaiter is gone: `~WriterAwaiter` and `~ReaderAwaiter` remove it
unless `before_resume` has detached it. -/
def Resumption.destroyed (ch : Channel V) : Resumption V → Channel V
  | .writer w =>
      if (WriterAwaiter.beforeResume ch).isReturned then ch else ch.removeWriter w.id
  | .reader r v =>
      if (r.beforeResume ch (some (.ofValue v))).isReturned then ch else ch.removeReader r.id
  | .readerUnsafe r =>
      if (r.beforeResume ch none).isReturned then ch else ch.removeReader r.id

structure ChannelState (V : Type) where
  channel : Channel V
  /-- A `close()` has flipped the flag and its `clean_up` is still to come. -/
  closing : Bool := false
  next : Nat := 0
  messages : List (Resumption V) := []
  writes : List (Nat × V) := []
  reads : List Nat := []
  withdrawnWriters : List Nat := []
  withdrawnReaders : List Nat := []
  dispatched : List (Resumption V) := []
  matched : List (ReaderAwaiter × WriterAwaiter V) := []
  cleaned : Bool := false
  cleanedUp : List Nat := []
  ended : List (Resumption V × Ending V) := []
deriving Repr

namespace ChannelState

inductive Label (V : Type) where
  | write (value : V)
  | read (pValue : Bool)
  | writeAcross (value : V)
  | readAcross (pValue : Bool)
  | removeWriter (id : Nat)
  | removeReader (id : Nat)
  | close
  | cleanUp
  | deliver (i : Nat)
deriving DecidableEq, Repr

def follow (s : ChannelState V) (ch : Channel V) (route : Route V) : ChannelState V :=
  { s with
    channel := ch
    next := s.next + 1
    messages := s.messages ++ route.resumptions
    dispatched := s.dispatched ++ route.resumptions
    matched := s.matched ++ route.matched }

/-- `co_await channel.write(value)` up to the suspension. A push that throws destroys the
awaiter at once. -/
def write (s : ChannelState V) (value : V) : ChannelState V :=
  match s.channel.tryPushWriter ⟨s.next, value⟩ with
  | .ok (ch, route) => { s.follow ch route with writes := s.writes ++ [(s.next, value)] }
  | .error _ => { s with channel := s.channel.removeWriter s.next, next := s.next + 1 }

def read (s : ChannelState V) (pValue : Bool) : ChannelState V :=
  match s.channel.tryPushReader ⟨s.next, pValue⟩ with
  | .ok (ch, route) => { s.follow ch route with reads := s.reads ++ [s.next] }
  | .error _ => { s with channel := s.channel.removeReader s.next, next := s.next + 1 }

def withdrawWriter (s : ChannelState V) (id : Nat) : ChannelState V :=
  { s with
    channel := s.channel.removeWriter id
    withdrawnWriters :=
      if id ∈ s.channel.writerList.map (·.id) then s.withdrawnWriters ++ [id]
      else s.withdrawnWriters }

def withdrawReader (s : ChannelState V) (id : Nat) : ChannelState V :=
  { s with
    channel := s.channel.removeReader id
    withdrawnReaders :=
      if id ∈ s.channel.readerList.map (·.id) then s.withdrawnReaders ++ [id]
      else s.withdrawnReaders }

/-- The compare-and-exchange of `close`: only the first caller goes on to `clean_up`. -/
def flip (s : ChannelState V) : ChannelState V :=
  if s.channel.isActive then
    { s with channel := s.channel.deactivate, closing := true }
  else s

/-- A write that passed its check, a `close` that flips the flag, then the rest of the write. -/
def writeAcross (s : ChannelState V) (value : V) : ChannelState V :=
  let pushed := s.flip.channel.admitWriter ⟨s.next, value⟩
  { s.flip.follow pushed.1 pushed.2 with writes := s.writes ++ [(s.next, value)] }

def readAcross (s : ChannelState V) (pValue : Bool) : ChannelState V :=
  let pushed := s.flip.channel.admitReader ⟨s.next, pValue⟩
  { s.flip.follow pushed.1 pushed.2 with reads := s.reads ++ [s.next] }

def cleanUp (s : ChannelState V) : ChannelState V :=
  { s with
    channel := s.channel.cleanUp.1
    closing := false
    messages := s.messages ++ s.channel.cleanUp.2
    dispatched := s.dispatched ++ s.channel.cleanUp.2
    cleaned := true
    cleanedUp := s.cleanedUp ++ s.channel.cleanUp.2.map (·.id) }

/-- The executor runs message `m`, the `i`-th of the pending ones. -/
def deliver (s : ChannelState V) (i : Nat) (m : Resumption V) : ChannelState V :=
  { s with
    channel := m.destroyed s.channel
    messages := s.messages.eraseIdx i
    ended := s.ended ++ [(m, m.ending s.channel)] }

def step (s : ChannelState V) : Label V → Option (ChannelState V)
  | .write value => some (s.write value)
  | .read pValue => some (s.read pValue)
  | .writeAcross value => if s.channel.isActive then some (s.writeAcross value) else none
  | .readAcross pValue => if s.channel.isActive then some (s.readAcross pValue) else none
  | .removeWriter id => some (s.withdrawWriter id)
  | .removeReader id => some (s.withdrawReader id)
  | .close => some s.flip
  | .cleanUp => if s.closing then some s.cleanUp else none
  | .deliver i => s.messages[i]?.map (s.deliver i)

def machine (V : Type) (capacity : Int) : Machine (ChannelState V) (Label V) where
  init := { channel := { bufferCapacity := capacity } }
  step := step

/-- The values given to readers, in the order of the steps that assign them. -/
def assigned (s : ChannelState V) : List (Nat × V) :=
  s.dispatched.filterMap (·.assignment)

/-! ## What the steps do -/

theorem write_cases (s : ChannelState V) (value : V) :
    (s.channel.isActive = false ∧ s.write value =
      { s with channel := s.channel.removeWriter s.next, next := s.next + 1 }) ∨
    (s.channel.isActive = true ∧ ∃ ch route,
      Channel.PushWriter s.channel ⟨s.next, value⟩ ch route ∧
      s.write value = { s.follow ch route with writes := s.writes ++ [(s.next, value)] }) := by
  rcases s.channel.tryPushWriter_cases ⟨s.next, value⟩ with ⟨hclosed, hpush⟩ |
    ⟨hopen, ch, route, hpush, hspec⟩
  · exact Or.inl ⟨hclosed, by simp only [write, hpush]⟩
  · exact Or.inr ⟨hopen, ch, route, hspec, by simp only [write, hpush]⟩

theorem read_cases (s : ChannelState V) (pValue : Bool) :
    (s.channel.isActive = false ∧ s.read pValue =
      { s with channel := s.channel.removeReader s.next, next := s.next + 1 }) ∨
    (s.channel.isActive = true ∧ ∃ ch route,
      Channel.PushReader s.channel ⟨s.next, pValue⟩ ch route ∧
      s.read pValue = { s.follow ch route with reads := s.reads ++ [s.next] }) := by
  rcases s.channel.tryPushReader_cases ⟨s.next, pValue⟩ with ⟨hclosed, hpush⟩ |
    ⟨hopen, ch, route, hpush, hspec⟩
  · exact Or.inl ⟨hclosed, by simp only [read, hpush]⟩
  · exact Or.inr ⟨hopen, ch, route, hspec, by simp only [read, hpush]⟩

theorem withdrawWriter_absent {s : ChannelState V} {id : Nat}
    (h : id ∉ s.channel.writerList.map (·.id)) : s.withdrawWriter id = s := by
  rw [withdrawWriter, if_neg h, Channel.removeWriter_absent h]

theorem withdrawReader_absent {s : ChannelState V} {id : Nat}
    (h : id ∉ s.channel.readerList.map (·.id)) : s.withdrawReader id = s := by
  rw [withdrawReader, if_neg h, Channel.removeReader_absent h]

/-- A flip inside a push has the effect of one right after it. -/
theorem writeAcross_step {s s' : ChannelState V} {value : V}
    (h : s.step (.writeAcross value) = some s') :
    s.channel.isActive = true ∧ s' = (s.write value).flip := by
  simp only [step, Option.ite_none_right_eq_some, Option.some.injEq] at h
  obtain ⟨hopen, rfl⟩ := h
  refine ⟨hopen, ?_⟩
  have hactive := s.channel.admitWriter_isActive ⟨s.next, value⟩
  simp [writeAcross, write, flip, follow, Channel.tryPushWriter, Channel.checkClosed, hopen,
    hactive, Except.map, Channel.admitWriter_deactivate]

theorem readAcross_step {s s' : ChannelState V} {pValue : Bool}
    (h : s.step (.readAcross pValue) = some s') :
    s.channel.isActive = true ∧ s' = (s.read pValue).flip := by
  simp only [step, Option.ite_none_right_eq_some, Option.some.injEq] at h
  obtain ⟨hopen, rfl⟩ := h
  refine ⟨hopen, ?_⟩
  have hactive := s.channel.admitReader_isActive ⟨s.next, pValue⟩
  simp [readAcross, read, flip, follow, Channel.tryPushReader, Channel.checkClosed, hopen,
    hactive, Except.map, Channel.admitReader_deactivate]

theorem deliver_step {s s' : ChannelState V} {i : Nat} (h : s.step (.deliver i) = some s') :
    ∃ m, s.messages[i]? = some m ∧ s' = s.deliver i m := by
  simp only [step, Option.map_eq_some_iff] at h
  obtain ⟨m, hm, rfl⟩ := h
  exact ⟨m, hm, rfl⟩

end ChannelState

/-- `resume_unsafe` is the only resumption without a result. -/
def Resumption.isUnsafe : Resumption V → Bool
  | .readerUnsafe _ => true
  | _ => false

theorem Route.resumptions_safe (route : Route V) :
    ∀ m ∈ route.resumptions, m.isUnsafe = false := by
  cases route with
  | suspended => simp [resumptions]
  | direct r w => simp [resumptions, Resumption.isUnsafe]
  | toBuffer w => simp [resumptions, Resumption.isUnsafe]
  | fromBuffer r v refill => cases refill <;> simp [resumptions, Resumption.isUnsafe]

/-- While the channel is open, running a resumption with a result leaves it unchanged. -/
theorem Resumption.destroyed_open {ch : Channel V} {m : Resumption V}
    (hopen : ch.isActive = true) (hm : m.isUnsafe = false) : m.destroyed ch = ch := by
  cases m with
  | writer w =>
      simp [destroyed, WriterAwaiter.beforeResume, Channel.checkClosed, hopen, Outcome.isReturned]
  | reader r v =>
      cases hp : r.pValue <;>
        simp [destroyed, ReaderAwaiter.beforeResume, Channel.checkClosed, hopen, hp,
          Outcome.ofResult, Outcome.bind, Outcome.isReturned]
  | readerUnsafe r => simp [isUnsafe] at hm

end Npp.Task
