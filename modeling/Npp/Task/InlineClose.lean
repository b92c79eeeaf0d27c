import Npp.Task.ChannelAccount

/-!
# Closing a channel whose awaiters resume inline

`close()` on one thread, with `channel_lock` in the state. `clean_up` holds the lock while it
resumes the suspended awaiters. An executor that queues keeps the resumption for later; an inline
one runs it inside `clean_up`, together with everything the coroutine does then: `await_resume`,
the exception, and the destructor of the awaiter. The lock is not recursive, so a thread that locks
it while it holds it goes no further.
-/

namespace Npp.Task

variable {V : Type}

/-- What `dispatch` does with a resumption: `NoopExecutor` and no executor run it at once. -/
inductive Dispatch where
  | queued
  | inline_
deriving DecidableEq, Repr

/-- `channel_lock` is locked by the thread that holds it. -/
inductive Fault where
  | relocked
deriving DecidableEq, Repr

/-- `before_resume` returns, after which the awaiter no longer refers to its channel. -/
def Resumption.detached (ch : Channel V) : Resumption V → Bool
  | .writer _ => (WriterAwaiter.beforeResume ch).isReturned
  | .reader r v => (r.beforeResume ch (some (.ofValue v))).isReturned
  | .readerUnsafe r => (r.beforeResume ch none).isReturned

def Channel.resumeWriters (ch : Channel V) : List (Resumption V) := ch.writerList.map .writer

def Channel.resumeReaders (ch : Channel V) : List (Resumption V) := ch.readerList.map .readerUnsafe

def Channel.suspended (ch : Channel V) : List (Resumption V) :=
  ch.resumeWriters ++ ch.resumeReaders

structure CloseState (V : Type) where
  channel : Channel V
  locked : Bool := false
  /-- What the executors have queued. -/
  queued : List (Resumption V) := []
  /-- The awaiters that were resumed, and how their `co_await` ended. -/
  ended : List (Resumption V × Ending V) := []
deriving DecidableEq, Repr

namespace CloseState

def lock (s : CloseState V) : Except Fault (CloseState V) :=
  if s.locked then .error .relocked else .ok { s with locked := true }

def unlock (s : CloseState V) : CloseState V := { s with locked := false }

/-- The awaiter's destructor: `remove_writer` or `remove_reader`, unless it is detached. -/
def destroyAwaiter (s : CloseState V) (m : Resumption V) : Except Fault (CloseState V) :=
  if m.detached s.channel then .ok s
  else s.lock.map fun s => { s with channel := m.destroyed s.channel }.unlock

/-- `_handle.resume()`: the coroutine goes on with `await_resume`, and what it throws destroys the
awaiter on its way out. -/
def resumeHandle (s : CloseState V) (m : Resumption V) : Except Fault (CloseState V) :=
  { s with ended := s.ended ++ [(m, m.ending s.channel)] }.destroyAwaiter m

def dispatch (executor : Nat → Dispatch) (m : Resumption V) (s : CloseState V) :
    Except Fault (CloseState V) :=
  match executor m.id with
  | .queued => .ok { s with queued := s.queued ++ [m] }
  | .inline_ => s.resumeHandle m

def dispatchEach (executor : Nat → Dispatch) :
    List (Resumption V) → CloseState V → Except Fault (CloseState V)
  | [], s => .ok s
  | m :: ms, s => (s.dispatch executor m).bind (dispatchEach executor ms)

def cleanUp (executor : Nat → Dispatch) (s : CloseState V) : Except Fault (CloseState V) := do
  let s ← s.lock
  let s ← dispatchEach executor s.channel.resumeWriters s
  let s := { s with channel := { s.channel with writerList := [] } }
  let s ← dispatchEach executor s.channel.resumeReaders s
  return { s with channel := { s.channel with readerList := [], buffer := [] } }.unlock

def close (executor : Nat → Dispatch) (s : CloseState V) : Except Fault (CloseState V) :=
  if s.channel.isActive then { s with channel := s.channel.deactivate }.cleanUp executor
  else .ok s

/-- The executors run what they have queued, in the given order. -/
def runQueued (order : List (Resumption V)) (s : CloseState V) : Except Fault (CloseState V) :=
  dispatchEach (fun _ => .inline_) order { s with queued := [] }

end CloseState

/-- `close()` returns without the lock; whatever order the executors then take, every suspended
awaiter has received the exception exactly once, and nothing is left in the channel. -/
def ClosesCleanly (executor : Nat → Dispatch) (ch : Channel V) : Prop :=
  ∃ s, CloseState.close executor { channel := ch } = .ok s ∧ s.locked = false ∧
    ∀ order, order.Perm s.queued →
      ∃ t, s.runQueued order = .ok t ∧
        t.ended.Perm (ch.suspended.map fun m => (m, m.failure)) ∧
        t.channel.writerList = [] ∧ t.channel.readerList = [] ∧ t.channel.buffer = []

namespace CloseState

/-! ## One resumption -/

theorem detached_closed {ch : Channel V} (hclosed : ch.isActive = false) (m : Resumption V) :
    m.detached ch = false := by
  cases m <;>
    simp [Resumption.detached, WriterAwaiter.beforeResume, ReaderAwaiter.beforeResume,
      Channel.checkClosed, hclosed, Outcome.isReturned]

/-- Inside `clean_up` the destructor of an awaiter runs into the lock. -/
theorem resumeHandle_locked {s : CloseState V} (hlocked : s.locked = true)
    (hclosed : s.channel.isActive = false) (m : Resumption V) :
    s.resumeHandle m = .error .relocked := by
  simp [resumeHandle, destroyAwaiter, detached_closed hclosed, lock, hlocked, Except.map]

/-- After `clean_up` it finds nothing to remove. -/
theorem resumeHandle_unlocked {s : CloseState V} (hlocked : s.locked = false)
    (hclosed : s.channel.isActive = false) (hwaiting : s.channel.waiting = [])
    (m : Resumption V) :
    s.resumeHandle m = .ok { s with ended := s.ended ++ [(m, m.failure)] } := by
  have hdestroyed : m.destroyed s.channel = s.channel :=
    Resumption.destroyed_of_notMem (by simp [hwaiting])
  simp [resumeHandle, destroyAwaiter, detached_closed hclosed, lock, hlocked, Except.map,
    Resumption.ending_closed hclosed, hdestroyed, unlock]

/-! ## The loops -/

theorem dispatchEach_queued {executor : Nat → Dispatch} {ms : List (Resumption V)}
    (hall : ∀ m ∈ ms, executor m.id = .queued) (s : CloseState V) :
    dispatchEach executor ms s = .ok { s with queued := s.queued ++ ms } := by
  induction ms generalizing s with
  | nil => simp [dispatchEach]
  | cons m ms ih =>
      have hm : executor m.id = .queued := hall m List.mem_cons_self
      have hms : ∀ m' ∈ ms, executor m'.id = .queued := fun m' hm' =>
        hall m' (List.mem_cons_of_mem m hm')
      have hdispatch : s.dispatch executor m = .ok { s with queued := s.queued ++ [m] } := by
        simp only [dispatch, hm]
      rw [dispatchEach, hdispatch]
      show dispatchEach executor ms { s with queued := s.queued ++ [m] } = _
      rw [ih hms, List.append_assoc, List.singleton_append]

/-- The first awaiter that resumes inline ends the loop. -/
theorem dispatchEach_inline {executor : Nat → Dispatch} {ms : List (Resumption V)}
    (hinline : ∃ m ∈ ms, executor m.id = .inline_) {s : CloseState V}
    (hlocked : s.locked = true) (hclosed : s.channel.isActive = false) :
    dispatchEach executor ms s = .error .relocked := by
  induction ms generalizing s with
  | nil => simp at hinline
  | cons m ms ih =>
      rw [dispatchEach]
      cases hm : executor m.id with
      | inline_ =>
          have hdispatch : s.dispatch executor m = .error .relocked := by
            simp only [dispatch, hm, resumeHandle_locked hlocked hclosed]
          rw [hdispatch]
          rfl
      | queued =>
          have hdispatch : s.dispatch executor m = .ok { s with queued := s.queued ++ [m] } := by
            simp only [dispatch, hm]
          have hrest : ∃ m' ∈ ms, executor m'.id = .inline_ := by
            obtain ⟨m', hm', hinline'⟩ := hinline
            rcases List.mem_cons.mp hm' with rfl | hmem
            · rw [hm] at hinline'
              cases hinline'
            · exact ⟨m', hmem, hinline'⟩
          rw [hdispatch]
          exact ih hrest hlocked hclosed

/-- Once `close()` has returned, the resumptions run one after the other. -/
theorem dispatchEach_closed {ms : List (Resumption V)} {s : CloseState V}
    (hlocked : s.locked = false) (hclosed : s.channel.isActive = false)
    (hwaiting : s.channel.waiting = []) :
    dispatchEach (fun _ => .inline_) ms s =
      .ok { s with ended := s.ended ++ ms.map fun m => (m, m.failure) } := by
  induction ms generalizing s with
  | nil => simp [dispatchEach]
  | cons m ms ih =>
      have hdispatch : s.dispatch (fun _ => .inline_) m =
          .ok { s with ended := s.ended ++ [(m, m.failure)] } :=
        resumeHandle_unlocked hlocked hclosed hwaiting m
      rw [dispatchEach, hdispatch]
      refine (ih (s := { s with ended := s.ended ++ [(m, m.failure)] })
        hlocked hclosed hwaiting).trans ?_
      simp

/-! ## `close()` -/

/-- What `close()` does with an open channel. -/
theorem close_active {executor : Nat → Dispatch} {ch : Channel V} (hopen : ch.isActive = true) :
    close executor { channel := ch } =
      (dispatchEach executor ch.resumeWriters
        { channel := ch.deactivate, locked := true }).bind fun s => do
        let s := { s with channel := { s.channel with writerList := [] } }
        let s ← dispatchEach executor s.channel.resumeReaders s
        return { s with channel := { s.channel with readerList := [], buffer := [] } }.unlock := by
  rw [close, if_pos hopen]
  rfl

/-- With executors that queue, `close()` does what one critical section of `clean_up` does. -/
theorem close_queued {executor : Nat → Dispatch} {ch : Channel V} (hopen : ch.isActive = true)
    (hall : ∀ m ∈ ch.suspended, executor m.id = .queued) :
    close executor { channel := ch } =
      .ok { channel := ch.deactivate.cleanUp.1, queued := ch.deactivate.cleanUp.2 } := by
  have hwriters : ∀ m ∈ ch.resumeWriters, executor m.id = .queued := fun m hm =>
    hall m (List.mem_append_left _ hm)
  have hreaders : ∀ m ∈ ch.resumeReaders, executor m.id = .queued := fun m hm =>
    hall m (List.mem_append_right _ hm)
  rw [close_active hopen, dispatchEach_queued hwriters]
  show (dispatchEach executor ch.resumeReaders _).bind _ = _
  rw [dispatchEach_queued hreaders]
  simp [Except.bind, pure, Except.pure, unlock, Channel.cleanUp, Channel.deactivate,
    Channel.resumeWriters, Channel.resumeReaders]

/-- One awaiter that resumes inline is enough for `close()` never to return. -/
theorem close_inline {executor : Nat → Dispatch} {ch : Channel V} (hopen : ch.isActive = true)
    (hinline : ∃ m ∈ ch.suspended, executor m.id = .inline_) :
    close executor { channel := ch } = .error .relocked := by
  rw [close_active hopen]
  by_cases hwriters : ∃ m ∈ ch.resumeWriters, executor m.id = .inline_
  · rw [dispatchEach_inline hwriters rfl rfl]
    rfl
  · have hqueued : ∀ m ∈ ch.resumeWriters, executor m.id = .queued := by
      intro m hm
      cases hd : executor m.id with
      | queued => rfl
      | inline_ => exact absurd ⟨m, hm, hd⟩ hwriters
    have hreaders : ∃ m ∈ ch.resumeReaders, executor m.id = .inline_ := by
      obtain ⟨m, hm, hd⟩ := hinline
      rcases List.mem_append.mp hm with hw | hr
      · exact absurd ⟨m, hw, hd⟩ hwriters
      · exact ⟨m, hr, hd⟩
    rw [dispatchEach_queued hqueued]
    show (dispatchEach executor ch.resumeReaders _).bind _ = _
    rw [dispatchEach_inline hreaders rfl rfl]
    rfl

/-- **Closing with suspended awaiters.** `close()` serves every awaiter once and empties the channel
exactly when no suspended awaiter resumes inline. -/
theorem closesCleanly_iff (executor : Nat → Dispatch) {ch : Channel V}
    (hopen : ch.isActive = true) :
    ClosesCleanly executor ch ↔ ∀ m ∈ ch.suspended, executor m.id = .queued := by
  constructor
  · rintro ⟨s, hclose, -⟩ m hm
    cases hd : executor m.id with
    | queued => rfl
    | inline_ =>
        rw [close_inline hopen ⟨m, hm, hd⟩] at hclose
        cases hclose
  · intro hall
    refine ⟨_, close_queued hopen hall, rfl, fun order horder => ?_⟩
    have hrun : dispatchEach (fun _ => .inline_) order
        { channel := ch.deactivate.cleanUp.1 : CloseState V } = _ := dispatchEach_closed rfl rfl rfl
    exact ⟨_, hrun, horder.map _, rfl, rfl, rfl⟩

/-- The buffer has the first of three values, and the writers of the others wait; only the first
writer resumes inline. -/
theorem closesCleanly_iff_run :
    let executor : Nat → Dispatch := fun id => if id = 0 then .inline_ else .queued
    ∃ s : ChannelState Nat,
      (ChannelState.machine Nat 1).Runs [.write 4, .write 5, .deliver 0, .write 6] s ∧
      s.channel.suspended = [.writer ⟨1, 5⟩, .writer ⟨2, 6⟩] ∧
      ClosesCleanly executor s.channel := by
  intro executor
  have hrun : (ChannelState.machine Nat 1).Runs [.write 4, .write 5, .deliver 0, .write 6] _ := rfl
  refine ⟨_, hrun, rfl, (closesCleanly_iff executor rfl).mpr ?_⟩
  intro m hm
  rcases List.mem_pair.mp hm with rfl | rfl <;> rfl

/-- One reader waits, and its task runs on a `NoopExecutor`: `close()` locks twice. -/
theorem not_closesCleanly :
    close (fun _ => .inline_) { channel := { bufferCapacity := 0, readerList := [⟨0, false⟩] } :
      CloseState Nat } = .error .relocked ∧
    ¬ ClosesCleanly (fun _ => .inline_)
      { bufferCapacity := 0, readerList := [⟨0, false⟩] : Channel Nat } := by
  refine ⟨rfl, ?_⟩
  rintro ⟨s, hclose, -⟩
  cases hclose

end CloseState

end Npp.Task
