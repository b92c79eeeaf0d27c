import Npp.Foundation.Machine
import Npp.Task.ChannelAccount
import Npp.Task.ChannelShape
import Npp.Network.Receive

/-!
# Stopping the server

`run` hands every message over by `write_sync`, which waits until a reader has taken it, as
`messageChannel` has no buffer. `stopServer` waits for `run`. The channel is closed by its
destructor only, so a message without a reader keeps both of them waiting. A `getMessage` that has
been called is never dropped: `~Task` waits for its result.
-/

namespace Npp.Network

open Npp.Foundation Npp.Basic Npp.Task

def epollEventSize : Nat := 256

/-- Where `run` is, once it listens. `submitting` and `writing` are inside `write_sync`: the
coroutine that it waits for has not reached its `co_await`, or awaits there under an id. -/
inductive RunPhase where
  | testing
  | polling
  | handling (remaining : Nat)
  | submitting (remaining : Nat) (content : List UInt8)
  | writing (remaining : Nat) (id : Nat)
  | ended
deriving DecidableEq, Repr

def RunPhase.awaits : RunPhase → Option Nat
  | .writing _ id => some id
  | _ => none

/-- Where `stopServer` is: not called, before `get_result`, in it, and back from it. -/
inductive StopPhase where
  | idle
  | closing
  | waiting
  | returned
deriving DecidableEq, Repr

inductive Event where
  | accept (ok : Bool)
  | readable (o : Oracle) (stream : List UInt8)

def Event.processed : Event → List (List UInt8)
  | .accept _ => []
  | .readable o stream => (handleEvent o stream).action.processed

structure StopState where
  messageChannel : ChannelState (List UInt8) := { channel := { bufferCapacity := 0 } }
  /-- The `getMessage` calls that have not reached their `co_await`. -/
  pendingReads : Nat := 0
  phase : RunPhase := .testing
  running : Bool := true
  stop : StopPhase := .idle
deriving Repr

namespace StopState

inductive Label where
  | getMessage
  | read
  | deliver (i : Nat)
  | testRunning
  | epollWait (nfds : Option Nat)
  | event (e : Event)
  | endBatch
  | write
  | finishWrite
  | stopServer
  | wait
  | join

def step (s : StopState) : Label → Option StopState
  | .getMessage => some { s with pendingReads := s.pendingReads + 1 }
  | .read =>
      if 0 < s.pendingReads then
        some { s with
          messageChannel := s.messageChannel.read false
          pendingReads := s.pendingReads - 1 }
      else none
  | .deliver i =>
      (s.messageChannel.messages[i]?).map fun m =>
        { s with messageChannel := s.messageChannel.deliver i m }
  | .testRunning =>
      match s.phase with
      | .testing => some { s with phase := if s.running then .polling else .ended }
      | _ => none
  | .epollWait nfds =>
      match s.phase, nfds with
      | .polling, none => some { s with phase := .ended }
      | .polling, some n =>
          if n ≤ epollEventSize then some { s with phase := .handling n } else none
      | _, _ => none
  | .event e =>
      match s.phase, e with
      | .handling (n + 1), .accept ok =>
          -- `stopServer` sets `sockfd` to -1 before it waits
          if s.stop = .idle ∨ s.stop = .closing then
            some { s with phase := .handling n, running := s.running && ok }
          else none
      | .handling (n + 1), .readable o stream =>
          -- a `read` that waits has not returned yet, and a failed assertion ends the process
          if (handleEvent o stream).fate = .done then
            match (handleEvent o stream).action.processed with
            | content :: _ => some { s with phase := .submitting n content }
            | [] => some { s with phase := .handling n }
          else none
      | _, _ => none
  | .endBatch =>
      match s.phase with
      | .handling 0 => some { s with phase := .testing }
      | _ => none
  | .write =>
      match s.phase with
      | .submitting n content =>
          some { s with
            messageChannel := s.messageChannel.write content
            phase := .writing n s.messageChannel.next }
      | _ => none
  | .finishWrite =>
      match s.phase with
      | .writing n id =>
          if id ∈ s.messageChannel.ended.map (·.1.id) then some { s with phase := .handling n }
          else none
      | _ => none
  | .stopServer =>
      match s.stop with
      | .idle => some { s with running := false, stop := .closing }
      | _ => none
  | .wait =>
      match s.stop with
      | .closing => some { s with stop := .waiting }
      | _ => none
  | .join =>
      match s.stop, s.phase with
      | .waiting, .ended => some { s with stop := .returned }
      | _, _ => none

def machine : Machine StopState Label where
  init := {}
  step := step

variable {s s' : StopState} {l : Label} {ls : List Label}

/-! ## What a step does -/

inductive Transition (s : StopState) : Label → StopState → Prop where
  | getMessage : Transition s .getMessage { s with pendingReads := s.pendingReads + 1 }
  | read (pending : 0 < s.pendingReads) :
      Transition s .read { s with
        messageChannel := s.messageChannel.read false
        pendingReads := s.pendingReads - 1 }
  | deliver (i : Nat) (m : Resumption (List UInt8))
      (message : s.messageChannel.messages[i]? = some m) :
      Transition s (.deliver i) { s with messageChannel := s.messageChannel.deliver i m }
  | goOn (phase : s.phase = .testing) (running : s.running = true) :
      Transition s .testRunning { s with phase := .polling }
  | leave (phase : s.phase = .testing) (running : s.running = false) :
      Transition s .testRunning { s with phase := .ended }
  | pollError (phase : s.phase = .polling) :
      Transition s (.epollWait none) { s with phase := .ended }
  | poll (n : Nat) (phase : s.phase = .polling) (size : n ≤ epollEventSize) :
      Transition s (.epollWait (some n)) { s with phase := .handling n }
  | accept (n : Nat) (ok : Bool) (phase : s.phase = .handling (n + 1))
      (listening : s.stop = .idle ∨ s.stop = .closing) :
      Transition s (.event (.accept ok))
        { s with phase := .handling n, running := s.running && ok }
  | message (n : Nat) (o : Oracle) (stream content : List UInt8) (more : List (List UInt8))
      (phase : s.phase = .handling (n + 1)) (done : (handleEvent o stream).fate = .done)
      (processed : (handleEvent o stream).action.processed = content :: more) :
      Transition s (.event (.readable o stream)) { s with phase := .submitting n content }
  | noMessage (n : Nat) (o : Oracle) (stream : List UInt8)
      (phase : s.phase = .handling (n + 1)) (done : (handleEvent o stream).fate = .done)
      (processed : (handleEvent o stream).action.processed = []) :
      Transition s (.event (.readable o stream)) { s with phase := .handling n }
  | endBatch (phase : s.phase = .handling 0) :
      Transition s .endBatch { s with phase := .testing }
  | write (n : Nat) (content : List UInt8) (phase : s.phase = .submitting n content) :
      Transition s .write { s with
        messageChannel := s.messageChannel.write content
        phase := .writing n s.messageChannel.next }
  | finishWrite (n id : Nat) (phase : s.phase = .writing n id)
      (resumed : id ∈ s.messageChannel.ended.map (·.1.id)) :
      Transition s .finishWrite { s with phase := .handling n }
  | stopServer (stop : s.stop = .idle) :
      Transition s .stopServer { s with running := false, stop := .closing }
  | wait (stop : s.stop = .closing) : Transition s .wait { s with stop := .waiting }
  | join (stop : s.stop = .waiting) (phase : s.phase = .ended) :
      Transition s .join { s with stop := .returned }

theorem transition_of_step (hstep : s.step l = some s') : Transition s l s' := by
  cases l with
  | getMessage =>
      cases hstep
      exact .getMessage
  | read =>
      simp only [step, Option.ite_none_right_eq_some, Option.some.injEq] at hstep
      obtain ⟨hpending, rfl⟩ := hstep
      exact .read hpending
  | deliver i =>
      simp only [step, Option.map_eq_some_iff] at hstep
      obtain ⟨m, hm, rfl⟩ := hstep
      exact .deliver i m hm
  | testRunning =>
      simp only [step] at hstep
      split at hstep
      case h_1 hphase =>
        split at hstep
        case isTrue hrunning =>
          cases hstep
          exact .goOn hphase hrunning
        case isFalse hrunning =>
          cases hstep
          exact .leave hphase (Bool.eq_false_iff.mpr hrunning)
      case h_2 => cases hstep
  | epollWait nfds =>
      simp only [step] at hstep
      split at hstep
      case h_1 hphase =>
        cases hstep
        exact .pollError hphase
      case h_2 n hphase =>
        rw [Option.ite_none_right_eq_some] at hstep
        obtain ⟨hsize, hstep⟩ := hstep
        cases hstep
        exact .poll n hphase hsize
      case h_3 => cases hstep
  | event e =>
      simp only [step] at hstep
      split at hstep
      case h_1 n ok hphase =>
        rw [Option.ite_none_right_eq_some] at hstep
        obtain ⟨hlistening, hstep⟩ := hstep
        cases hstep
        exact .accept n ok hphase hlistening
      case h_2 n o stream hphase =>
        rw [Option.ite_none_right_eq_some] at hstep
        obtain ⟨hdone, hstep⟩ := hstep
        split at hstep
        case h_1 content more hprocessed =>
          cases hstep
          exact .message n o stream content more hphase hdone hprocessed
        case h_2 hprocessed =>
          cases hstep
          exact .noMessage n o stream hphase hdone hprocessed
      case h_3 => cases hstep
  | endBatch =>
      simp only [step] at hstep
      split at hstep
      case h_1 hphase =>
        cases hstep
        exact .endBatch hphase
      case h_2 => cases hstep
  | write =>
      simp only [step] at hstep
      split at hstep
      case h_1 n content hphase =>
        cases hstep
        exact .write n content hphase
      case h_2 => cases hstep
  | finishWrite =>
      simp only [step] at hstep
      split at hstep
      case h_1 n id hphase =>
        rw [Option.ite_none_right_eq_some] at hstep
        obtain ⟨hresumed, hstep⟩ := hstep
        cases hstep
        exact .finishWrite n id hphase hresumed
      case h_2 => cases hstep
  | stopServer =>
      simp only [step] at hstep
      split at hstep
      case h_1 hstop =>
        cases hstep
        exact .stopServer hstop
      case h_2 => cases hstep
  | wait =>
      simp only [step] at hstep
      split at hstep
      case h_1 hstop =>
        cases hstep
        exact .wait hstop
      case h_2 => cases hstep
  | join =>
      simp only [step] at hstep
      split at hstep
      case h_1 hstop hphase =>
        cases hstep
        exact .join hstop hphase
      case h_2 => cases hstep

theorem step_of_transition (h : Transition s l s') : s.step l = some s' := by
  cases h with
  | getMessage => rfl
  | read pending => simp [step, pending]
  | deliver i m message => simp [step, message]
  | goOn phase running => simp [step, phase, running]
  | leave phase running => simp [step, phase, running]
  | pollError phase => simp [step, phase]
  | poll n phase size => simp [step, phase, size]
  | accept n ok phase listening => simp [step, phase, listening]
  | message n o stream content more phase done processed => simp [step, phase, done, processed]
  | noMessage n o stream phase done processed => simp [step, phase, done, processed]
  | endBatch phase => simp [step, phase]
  | write n content phase => simp [step, phase]
  | finishWrite n id phase resumed => simp only [step, phase, if_pos resumed]
  | stopServer stop => simp [step, stop]
  | wait stop => simp [step, stop]
  | join stop phase => simp [step, stop, phase]

theorem step_iff : s.step l = some s' ↔ Transition s l s' :=
  ⟨transition_of_step, step_of_transition⟩

/-! ## The writer that `run` waits for -/

/-- The invariant: the channel is open, its only writer can be the one that `run` waits for, and
that one waits in it or has been resumed. -/
structure Linked (s : StopState) : Prop where
  tidy : s.messageChannel.Tidy
  compact : s.messageChannel.Compact 0
  isActive : s.messageChannel.channel.isActive = true
  sole : ∀ w ∈ s.messageChannel.channel.writerList, s.phase.awaits = some w.id
  answered : ∀ id, s.phase.awaits = some id →
    id ∈ s.messageChannel.channel.writerList.map (·.id) ∨
    id ∈ s.messageChannel.dispatched.map (·.id)
  stopped : s.stop ≠ .idle → s.running = false

/-- A buffer without places is empty. -/
theorem Linked.buffer (h : Linked s) : s.messageChannel.channel.buffer = [] := by
  have hbounded := h.compact.2.bounded
  rw [h.compact.1] at hbounded
  exact List.length_eq_zero_iff.mp (Nat.le_zero.mp hbounded)

theorem Linked.noRoom (h : Linked s) : s.messageChannel.channel.hasRoom = false := by
  apply (Channel.hasRoom_eq_false _).mpr
  rw [h.compact.1]
  exact Nat.zero_le _

/-- A step of `run` that does not wait before it, nor after it. -/
theorem Linked.moved (h : Linked s) {phase : RunPhase} {running : Bool} {stop : StopPhase}
    (hbefore : s.phase.awaits = none) (hafter : phase.awaits = none)
    (hstopped : stop ≠ .idle → running = false) :
    Linked { s with phase := phase, running := running, stop := stop } := by
  refine ⟨h.tidy, h.compact, h.isActive, ?_, ?_, hstopped⟩
  · intro w hw
    have hawaits := h.sole w hw
    rw [hbefore] at hawaits
    cases hawaits
  · intro id hid
    cases hafter.symm.trans hid

/-- While `run` awaits nothing, no writer is in the channel. -/
theorem Linked.writers_nil (h : Linked s) (hawaits : s.phase.awaits = none) :
    s.messageChannel.channel.writerList = [] := by
  apply List.eq_nil_iff_forall_not_mem.mpr
  intro w hw
  cases hawaits.symm.trans (h.sole w hw)

/-- The first writer in the channel is the one that `run` waits for. -/
theorem Linked.awaits_head (h : Linked s) {w : WriterAwaiter (List UInt8)}
    {ws : List (WriterAwaiter (List UInt8))}
    (hwriters : s.messageChannel.channel.writerList = w :: ws) : s.phase.awaits = some w.id := by
  apply h.sole
  rw [hwriters]
  exact List.mem_cons_self

/-- A reader takes the waiting writer, or waits. -/
theorem Linked.read_cases (h : Linked s) :
    (s.messageChannel.read false).channel.isActive = true ∧
    ((s.messageChannel.channel.writerList = [] ∧
        (s.messageChannel.read false).channel.writerList = [] ∧
        (s.messageChannel.read false).channel.readerList ≠ [] ∧
        (s.messageChannel.read false).dispatched = s.messageChannel.dispatched) ∨
      ∃ w ws r, s.messageChannel.channel.writerList = w :: ws ∧
        (s.messageChannel.read false).channel.writerList = ws ∧
        (s.messageChannel.read false).dispatched =
          s.messageChannel.dispatched ++ [.reader r w.value, .writer w]) := by
  rcases s.messageChannel.read_cases false with ⟨hclosed, -⟩ | ⟨-, ch, route, hpush, hread⟩
  · cases h.isActive.symm.trans hclosed
  · rw [hread]
    refine ⟨hpush.isActive.trans h.isActive, ?_⟩
    cases hpush with
    | refilled hbuffer hwriters => cases h.buffer.symm.trans hbuffer
    | fromBuffer hbuffer hwriters => cases h.buffer.symm.trans hbuffer
    | direct hbuffer hwriters =>
        right
        exact ⟨_, _, _, hwriters, rfl, rfl⟩
    | suspended hbuffer hwriters =>
        left
        refine ⟨hwriters, hwriters, ?_, List.append_nil _⟩
        exact List.append_ne_nil_of_right_ne_nil _ (List.cons_ne_nil _ _)

/-- A writer meets a waiting reader, or waits. -/
theorem Linked.write_cases (h : Linked s) (content : List UInt8) :
    (s.messageChannel.write content).channel.isActive = true ∧
    ((∃ r, s.messageChannel.channel.readerList ≠ [] ∧
        (s.messageChannel.write content).channel.writerList =
          s.messageChannel.channel.writerList ∧
        (s.messageChannel.write content).dispatched = s.messageChannel.dispatched ++
          [.reader r content, .writer ⟨s.messageChannel.next, content⟩]) ∨
      (s.messageChannel.channel.readerList = [] ∧
        (s.messageChannel.write content).channel.readerList = [] ∧
        (s.messageChannel.write content).channel.writerList =
          s.messageChannel.channel.writerList ++ [⟨s.messageChannel.next, content⟩])) := by
  rcases s.messageChannel.write_cases content with ⟨hclosed, -⟩ | ⟨-, ch, route, hpush, hwrite⟩
  · cases h.isActive.symm.trans hclosed
  · rw [hwrite]
    refine ⟨hpush.isActive.trans h.isActive, ?_⟩
    cases hpush with
    | direct hreaders =>
        left
        exact ⟨_, hreaders ▸ List.cons_ne_nil _ _, rfl, rfl⟩
    | toBuffer hreaders hroom => cases h.noRoom.symm.trans hroom
    | suspended hreaders hfull =>
        right
        exact ⟨hreaders, hreaders, rfl⟩

theorem Linked.read (h : Linked s) (pendingReads : Nat) :
    Linked { s with
      messageChannel := s.messageChannel.read false, pendingReads := pendingReads } := by
  obtain ⟨hactive, ⟨hwriters, hwriters', -, hdispatched⟩ |
    ⟨w, ws, r, hwriters, hwriters', hdispatched⟩⟩ := h.read_cases
  · refine ⟨h.tidy.read false, h.compact.read false, hactive, ?_, ?_, h.stopped⟩
    · rw [hwriters']
      exact fun w hw => absurd hw List.not_mem_nil
    · intro id hid
      have hanswered := h.answered id hid
      rw [hwriters] at hanswered
      rw [hwriters', hdispatched]
      exact hanswered
  · refine ⟨h.tidy.read false, h.compact.read false, hactive, ?_, ?_, h.stopped⟩
    · intro w' hw'
      rw [hwriters'] at hw'
      apply h.sole
      rw [hwriters]
      exact List.mem_cons_of_mem _ hw'
    · -- the reader takes exactly the writer that `run` waits for
      intro id hid
      right
      obtain rfl : w.id = id := Option.some.inj ((h.awaits_head hwriters).symm.trans hid)
      have hmem : Resumption.writer w ∈ (s.messageChannel.read false).dispatched := by
        rw [hdispatched]
        simp
      exact List.mem_map_of_mem hmem

theorem Linked.write (h : Linked s) {n : Nat} {content : List UInt8}
    (hphase : s.phase = .submitting n content) :
    Linked { s with
      messageChannel := s.messageChannel.write content
      phase := .writing n s.messageChannel.next } := by
  have hnil : s.messageChannel.channel.writerList = [] :=
    h.writers_nil (by rw [hphase]; rfl)
  obtain ⟨hactive, ⟨r, -, hwriters, hdispatched⟩ | ⟨-, -, hwriters⟩⟩ := h.write_cases content
  · refine ⟨h.tidy.write content, h.compact.write content, hactive, ?_, ?_, h.stopped⟩
    · rw [hwriters, hnil]
      exact fun w hw => absurd hw List.not_mem_nil
    · intro id hid
      obtain rfl := Option.some.inj hid
      right
      rw [hdispatched]
      simp [Resumption.id]
  · rw [hnil, List.nil_append] at hwriters
    refine ⟨h.tidy.write content, h.compact.write content, hactive, ?_, ?_, h.stopped⟩
    · intro w hw
      rw [hwriters] at hw
      rw [List.mem_singleton.mp hw]
      rfl
    · intro id hid
      obtain rfl := Option.some.inj hid
      left
      rw [hwriters]
      exact List.mem_singleton.mpr rfl

theorem Linked.deliver (h : Linked s) {i : Nat} {m : Resumption (List UInt8)}
    (hm : s.messageChannel.messages[i]? = some m) :
    Linked { s with messageChannel := s.messageChannel.deliver i m } := by
  have hdeliver := h.tidy.deliver_eq hm
  refine ⟨h.tidy.deliver hm, ?_, ?_, ?_, ?_, h.stopped⟩
  · rw [hdeliver]
    exact h.compact
  · rw [hdeliver]
    exact h.isActive
  · rw [hdeliver]
    exact h.sole
  · rw [hdeliver]
    exact h.answered

/-- A writer that has been resumed no longer waits. -/
theorem Linked.not_waiting (h : Linked s) {id : Nat}
    (hended : id ∈ s.messageChannel.ended.map (·.1.id)) :
    id ∉ s.messageChannel.channel.writerList.map (·.id) := by
  intro hwaits
  apply h.tidy.waiting_not_dispatched (List.mem_append_left _ hwaits)
  obtain ⟨e, he, rfl⟩ := List.mem_map.mp hended
  have hdispatched := h.tidy.mem_dispatched.mpr (Or.inr (List.mem_map_of_mem he))
  exact List.mem_map_of_mem hdispatched

theorem Linked.finishWrite (h : Linked s) {n id : Nat} (hphase : s.phase = .writing n id)
    (hended : id ∈ s.messageChannel.ended.map (·.1.id)) :
    Linked { s with phase := .handling n } := by
  refine ⟨h.tidy, h.compact, h.isActive, ?_, (fun _ hid' => nomatch hid'), h.stopped⟩
  intro w hw
  have hawaits := h.sole w hw
  rw [hphase] at hawaits
  obtain rfl := Option.some.inj hawaits
  exact absurd (List.mem_map_of_mem hw) (h.not_waiting hended)

theorem Linked.step (h : Linked s) (hstep : s.step l = some s') : Linked s' := by
  cases step_iff.mp hstep with
  | getMessage => exact ⟨h.tidy, h.compact, h.isActive, h.sole, h.answered, h.stopped⟩
  | read pending => exact h.read _
  | deliver i m message => exact h.deliver message
  | goOn phase running => exact h.moved (by rw [phase]; rfl) rfl h.stopped
  | leave phase running => exact h.moved (by rw [phase]; rfl) rfl h.stopped
  | pollError phase => exact h.moved (by rw [phase]; rfl) rfl h.stopped
  | poll n phase size => exact h.moved (by rw [phase]; rfl) rfl h.stopped
  | accept n ok phase listening =>
      apply h.moved (by rw [phase]; rfl) rfl
      intro hstop
      rw [h.stopped hstop]
      rfl
  | message n o stream content more phase done processed =>
      exact h.moved (by rw [phase]; rfl) rfl h.stopped
  | noMessage n o stream phase done processed =>
      exact h.moved (by rw [phase]; rfl) rfl h.stopped
  | endBatch phase => exact h.moved (by rw [phase]; rfl) rfl h.stopped
  | write n content phase => exact h.write phase
  | finishWrite n id phase resumed => exact h.finishWrite phase resumed
  | stopServer stop =>
      exact ⟨h.tidy, h.compact, h.isActive, h.sole, h.answered, fun _ => rfl⟩
  | wait stop =>
      have hrunning : s.running = false := by
        apply h.stopped
        rw [stop]
        exact StopPhase.noConfusion
      exact ⟨h.tidy, h.compact, h.isActive, h.sole, h.answered, fun _ => hrunning⟩
  | join stop phase =>
      have hrunning : s.running = false := by
        apply h.stopped
        rw [stop]
        exact StopPhase.noConfusion
      exact ⟨h.tidy, h.compact, h.isActive, h.sole, h.answered, fun _ => hrunning⟩

theorem linked_init : Linked machine.init where
  tidy := ChannelState.tidy_init 0
  compact := by
    have hrun : (ChannelState.machine (List UInt8) 0).Runs [] _ := rfl
    exact ChannelState.compact_runs hrun
  isActive := rfl
  sole := fun _ hw => nomatch hw
  answered := fun _ hid => nomatch hid
  stopped := fun hstop => absurd rfl hstop

theorem linked_runs (hrun : machine.Runs ls s) : Linked s :=
  hrun.invariant linked_init fun _ _ _ h hstep => h.step hstep

/-! ## A message that nobody takes -/

/-- `run` is in `write_sync` with a message that no reader has been given. -/
def Holding (s : StopState) : Prop :=
  match s.phase with
  | .submitting _ _ => True
  | .writing _ id => id ∈ s.messageChannel.channel.writerList.map (·.id)
  | _ => False

/-- A reader waits, or a `getMessage` is on its way to wait. -/
def HasReader (s : StopState) : Prop :=
  s.messageChannel.channel.readerList ≠ [] ∨ 0 < s.pendingReads

instance (s : StopState) : Decidable s.Holding := by
  unfold Holding
  split <;> infer_instance

instance (s : StopState) : Decidable s.HasReader :=
  inferInstanceAs (Decidable (_ ∨ _))

/-- `stopServer` waits for `run`, which waits for a reader, and there is none. -/
structure Stuck (s : StopState) : Prop where
  waiting : s.stop = .waiting
  holding : s.Holding
  noReader : ¬ s.HasReader

theorem Stuck.not_ended (h : Stuck s) : s.phase ≠ .ended := by
  intro hphase
  have hholding := h.holding
  rw [Holding, hphase] at hholding
  exact hholding

/-- Only a `getMessage` ends the wait. -/
theorem Stuck.step (h : Stuck s) (hlinked : Linked s) (hl : l ≠ .getMessage)
    (hstep : s.step l = some s') : Stuck s' := by
  obtain ⟨hwaiting, hholding, hno⟩ := h
  have hreaders : s.messageChannel.channel.readerList = [] := by
    by_contra hne
    exact hno (Or.inl hne)
  cases step_iff.mp hstep with
  | getMessage => exact absurd rfl hl
  | read pending => exact absurd (Or.inr pending) hno
  | deliver i m message =>
      have hdeliver := hlinked.tidy.deliver_eq message
      rw [hdeliver]
      exact ⟨hwaiting, hholding, hno⟩
  | write n content phase =>
      obtain ⟨-, ⟨r, hne, -⟩ | ⟨-, hreaders', hwriters⟩⟩ := hlinked.write_cases content
      · exact absurd hreaders hne
      · refine ⟨hwaiting, ?_, ?_⟩
        · show s.messageChannel.next ∈ List.map _ _
          rw [hwriters]
          simp
        · rintro (hreader | hpending)
          · exact hreader hreaders'
          · exact hno (Or.inr hpending)
  | finishWrite n id phase resumed =>
      rw [Holding, phase] at hholding
      exact absurd hholding (hlinked.not_waiting resumed)
  | goOn phase running =>
      rw [Holding, phase] at hholding
      exact hholding.elim
  | leave phase running =>
      rw [Holding, phase] at hholding
      exact hholding.elim
  | pollError phase =>
      rw [Holding, phase] at hholding
      exact hholding.elim
  | poll n phase size =>
      rw [Holding, phase] at hholding
      exact hholding.elim
  | accept n ok phase listening =>
      rw [Holding, phase] at hholding
      exact hholding.elim
  | message n o stream content more phase done processed =>
      rw [Holding, phase] at hholding
      exact hholding.elim
  | noMessage n o stream phase done processed =>
      rw [Holding, phase] at hholding
      exact hholding.elim
  | endBatch phase =>
      rw [Holding, phase] at hholding
      exact hholding.elim
  | stopServer stop => cases hwaiting.symm.trans stop
  | wait stop => cases hwaiting.symm.trans stop
  | join stop phase =>
      rw [Holding, phase] at hholding
      exact hholding.elim

/-! ## The way to the end -/

/-- `run` can come to its end, with no further call of `getMessage`. -/
def CanEnd (s : StopState) : Prop :=
  machine.CanReach (· ≠ .getMessage) (·.phase = .ended) s

theorem CanEnd.of_transition (h : CanEnd s') (htransition : Transition s l s')
    (hl : l ≠ .getMessage) : CanEnd s :=
  h.of_step hl (step_of_transition htransition)

/-- The rest of a batch: no connection has anything to read any more. -/
theorem canEnd_handling (hrunning : s.running = false) {n : Nat}
    (hphase : s.phase = .handling n) : CanEnd s := by
  induction n generalizing s with
  | zero =>
      have hend : CanEnd { s with phase := .ended } := .here rfl
      have htest : CanEnd { s with phase := .testing } :=
        hend.of_transition (.leave rfl hrunning) Label.noConfusion
      exact htest.of_transition (.endBatch hphase) Label.noConfusion
  | succ n ih =>
      have hnext : CanEnd { s with phase := .handling n } := ih hrunning rfl
      let o : Oracle := ⟨.failed, fun _ => .failed, .failed, fun _ => 0, fun _ => 0⟩
      exact hnext.of_transition (.noMessage n o [] hphase rfl rfl) Label.noConfusion

/-- A writer that a reader has taken is resumed by its executor. -/
theorem canEnd_dispatched (h : Linked s) (hrunning : s.running = false) {n id : Nat}
    (hphase : s.phase = .writing n id) (hid : id ∈ s.messageChannel.dispatched.map (·.id)) :
    CanEnd s := by
  have hfinish : ∀ t : StopState, t.running = false → t.phase = .writing n id →
      id ∈ t.messageChannel.ended.map (·.1.id) → CanEnd t := by
    intro t ht htphase hended
    have hhandling : CanEnd { t with phase := .handling n } := canEnd_handling ht rfl
    exact hhandling.of_transition (.finishWrite n id htphase hended) Label.noConfusion
  obtain ⟨m, hm, rfl⟩ := List.mem_map.mp hid
  rcases h.tidy.mem_dispatched.mp hm with hmessage | hended
  · obtain ⟨i, hi⟩ := List.mem_iff_getElem?.mp hmessage
    have hdelivered : CanEnd { s with messageChannel := s.messageChannel.deliver i m } := by
      apply hfinish { s with messageChannel := s.messageChannel.deliver i m } hrunning hphase
      show m.id ∈ List.map _ (_ ++ [_])
      simp
    exact hdelivered.of_transition (.deliver i m hi) Label.noConfusion
  · obtain ⟨e, he, rfl⟩ := List.mem_map.mp hended
    exact hfinish s hrunning hphase (List.mem_map_of_mem he)

theorem canEnd_writing (h : Linked s) (hrunning : s.running = false) {n id : Nat}
    (hphase : s.phase = .writing n id) (hreader : s.Holding → s.HasReader) : CanEnd s := by
  have hawaits : s.phase.awaits = some id := by rw [hphase]; rfl
  rcases h.answered id hawaits with hwaits | hdispatched
  · have hholding : s.Holding := by
      rw [Holding, hphase]
      exact hwaits
    have hne : s.messageChannel.channel.writerList ≠ [] := by
      intro hnil
      rw [hnil] at hwaits
      cases hwaits
    rcases hreader hholding with hreaders | hpending
    · exact absurd (h.compact.2.readers hreaders).2 hne
    · -- the `getMessage` that is on its way takes the writer
      have hread := h.read (s.pendingReads - 1)
      obtain ⟨-, ⟨hnil, -⟩ | ⟨w, ws, r, hwriters, -, hdispatched⟩⟩ := h.read_cases
      · exact absurd hnil hne
      · obtain rfl : w.id = id := Option.some.inj ((h.awaits_head hwriters).symm.trans hawaits)
        have hnext := canEnd_dispatched hread hrunning hphase (by
          show w.id ∈ List.map _ (s.messageChannel.read false).dispatched
          rw [hdispatched]
          simp [Resumption.id])
        exact hnext.of_transition (.read hpending) Label.noConfusion
  · exact canEnd_dispatched h hrunning hphase hdispatched

theorem canEnd_submitting (h : Linked s) (hrunning : s.running = false) {n : Nat}
    {content : List UInt8} (hphase : s.phase = .submitting n content) (hreader : s.HasReader) :
    CanEnd s := by
  have hnext : CanEnd { s with
      messageChannel := s.messageChannel.write content
      phase := .writing n s.messageChannel.next } := by
    apply canEnd_writing (h.write hphase) hrunning rfl
    intro hholding
    rcases hreader with hreaders | hpending
    · have hnil : s.messageChannel.channel.writerList = [] :=
        h.writers_nil (by rw [hphase]; rfl)
      obtain ⟨-, ⟨r, -, hwriters, -⟩ | ⟨hreaders', -⟩⟩ := h.write_cases content
      · change s.messageChannel.next ∈ List.map _ _ at hholding
        rw [hwriters, hnil] at hholding
        cases hholding
      · exact absurd hreaders' hreaders
    · exact Or.inr hpending
  exact hnext.of_transition (.write n content hphase) Label.noConfusion

/-- While `stopServer` waits, the only thing that keeps `run` from its end is a message without a
reader. -/
theorem canEnd_iff (h : Linked s) (hwaiting : s.stop = .waiting) : CanEnd s ↔ ¬ Stuck s := by
  have hrunning : s.running = false := by
    apply h.stopped
    rw [hwaiting]
    exact StopPhase.noConfusion
  constructor
  · intro hend hstuck
    refine Machine.not_canReach (I := fun s => Linked s ∧ Stuck s) ?_ ?_ ⟨h, hstuck⟩ hend
    · rintro a l a' ⟨ha, hstuck⟩ hl hstep
      exact ⟨ha.step hstep, hstuck.step ha hl hstep⟩
    · rintro a ⟨-, hstuck⟩
      exact hstuck.not_ended
  · intro hfree
    have hreader : s.Holding → s.HasReader := by
      intro hholding
      by_contra hno
      exact hfree ⟨hwaiting, hholding, hno⟩
    cases hphase : s.phase with
    | testing =>
        have hend : CanEnd { s with phase := .ended } := .here rfl
        exact hend.of_transition (.leave hphase hrunning) Label.noConfusion
    | polling =>
        -- `epoll_wait` runs into its timeout
        have hbatch : CanEnd { s with phase := .handling 0 } := canEnd_handling hrunning rfl
        exact hbatch.of_transition (.poll 0 hphase (Nat.zero_le _)) Label.noConfusion
    | handling n => exact canEnd_handling hrunning hphase
    | submitting n content =>
        apply canEnd_submitting h hrunning hphase
        apply hreader
        rw [Holding, hphase]
        trivial
    | writing n id => exact canEnd_writing h hrunning hphase hreader
    | ended => exact .here hphase

/-! ## When `stopServer` comes back -/

/-- Whoever calls `stopServer` has left no message behind: when it starts to wait, the message
that `run` holds has a reader, and so has each one that `run` receives after that. -/
def LeavesNone (s : StopState) : Label → Prop
  | .wait => s.Holding → s.HasReader
  | .event e => s.stop = .waiting → e.processed ≠ [] → s.HasReader
  | _ => True

instance (s : StopState) (l : Label) : Decidable (s.LeavesNone l) := by
  unfold LeavesNone
  split <;> infer_instance

/-- `stopServer` can come back once it waits. -/
def CanStop (s : StopState) : Prop := s.stop = .waiting → CanEnd s

theorem canStop_iff (h : Linked s) : CanStop s ↔ ¬ Stuck s := by
  constructor
  · intro hcan hstuck
    exact (canEnd_iff h hstuck.waiting).mp (hcan hstuck.waiting) hstuck
  · intro hfree hwaiting
    exact (canEnd_iff h hwaiting).mpr hfree

/-- A `getMessage` that reaches its `co_await` takes the message, or is a reader that waits. -/
theorem not_stuck_read (h : Linked s) :
    ¬ Stuck { s with
      messageChannel := s.messageChannel.read false, pendingReads := s.pendingReads - 1 } := by
  intro hstuck
  have hread := h.read (s.pendingReads - 1)
  obtain ⟨-, ⟨-, -, hreaders, -⟩ | ⟨w, ws, r, hwriters, -, hdispatched⟩⟩ := h.read_cases
  · exact hstuck.noReader (Or.inl hreaders)
  · have hawaits := h.awaits_head hwriters
    have hholding := hstuck.holding
    cases hphase : s.phase with
    | writing n id =>
        obtain rfl : id = w.id := by
          rw [hphase] at hawaits
          exact Option.some.inj hawaits
        simp only [Holding, hphase] at hholding
        apply hread.tidy.waiting_not_dispatched (List.mem_append_left _ hholding)
        show w.id ∈ List.map _ (s.messageChannel.read false).dispatched
        rw [hdispatched]
        simp [Resumption.id]
    | _ =>
        rw [hphase] at hawaits
        cases hawaits

theorem not_stuck_write (h : Linked s) (hfree : ¬ Stuck s) {n : Nat} {content : List UInt8}
    (hphase : s.phase = .submitting n content) :
    ¬ Stuck { s with
      messageChannel := s.messageChannel.write content
      phase := .writing n s.messageChannel.next } := by
  intro hstuck
  have hnil : s.messageChannel.channel.writerList = [] :=
    h.writers_nil (by rw [hphase]; rfl)
  obtain ⟨-, ⟨r, -, hwriters, -⟩ | ⟨hreaders, -, -⟩⟩ := h.write_cases content
  · have hholding := hstuck.holding
    change s.messageChannel.next ∈ List.map _ _ at hholding
    rw [hwriters, hnil] at hholding
    cases hholding
  · -- there was no reader before the write either
    apply hfree
    refine ⟨hstuck.waiting, ?_, ?_⟩
    · rw [Holding, hphase]
      trivial
    · rintro (hreader | hpending)
      · exact hreader hreaders
      · exact hstuck.noReader (Or.inr hpending)

/-- One step gets stuck exactly when it leaves a message behind. -/
theorem not_stuck_step (h : Linked s) (hfree : ¬ Stuck s) (hstep : s.step l = some s') :
    ¬ Stuck s' ↔ s.LeavesNone l := by
  cases step_iff.mp hstep with
  | getMessage =>
      exact iff_of_true (fun hstuck => hstuck.noReader (Or.inr (Nat.succ_pos _))) trivial
  | read pending => exact iff_of_true (not_stuck_read h) trivial
  | deliver i m message =>
      have hdeliver := h.tidy.deliver_eq message
      rw [hdeliver]
      exact iff_of_true (fun hstuck => hfree ⟨hstuck.waiting, hstuck.holding, hstuck.noReader⟩)
        trivial
  | goOn phase running => exact iff_of_true (fun hstuck => hstuck.holding) trivial
  | leave phase running => exact iff_of_true (fun hstuck => hstuck.holding) trivial
  | pollError phase => exact iff_of_true (fun hstuck => hstuck.holding) trivial
  | poll n phase size => exact iff_of_true (fun hstuck => hstuck.holding) trivial
  | accept n ok phase listening =>
      exact iff_of_true (fun hstuck => hstuck.holding) fun _ hprocessed => absurd rfl hprocessed
  | message n o stream content more phase done processed =>
      constructor
      · intro hfree' hwaiting _
        by_contra hno
        exact hfree' ⟨hwaiting, trivial, hno⟩
      · intro hreader hstuck
        apply hstuck.noReader
        apply hreader hstuck.waiting
        show (handleEvent o stream).action.processed ≠ []
        rw [processed]
        exact List.cons_ne_nil _ _
  | noMessage n o stream phase done processed =>
      exact iff_of_true (fun hstuck => hstuck.holding) fun _ hne => absurd processed hne
  | endBatch phase => exact iff_of_true (fun hstuck => hstuck.holding) trivial
  | write n content phase => exact iff_of_true (not_stuck_write h hfree phase) trivial
  | finishWrite n id phase resumed => exact iff_of_true (fun hstuck => hstuck.holding) trivial
  | stopServer stop => exact iff_of_true (fun hstuck => nomatch hstuck.waiting) trivial
  | wait stop =>
      constructor
      · intro hfree' hholding
        by_contra hno
        exact hfree' ⟨rfl, hholding, hno⟩
      · intro hreader hstuck
        exact hstuck.noReader (hreader hstuck.holding)
  | join stop phase => exact iff_of_true (fun hstuck => nomatch hstuck.waiting) trivial

/-- **The stop comes back.** In every state of a run in which `stopServer` waits, `run` can come
to its end without a further `getMessage`, exactly when the run leaves no message without a reader
to `stopServer`. -/
theorem canStop_runs_iff (hrun : machine.Runs ls s) :
    machine.Meets LeavesNone machine.init ls ↔
      ∀ pre t, pre <+: ls → machine.Runs pre t → CanStop t := by
  apply hrun.meets_iff_of_invariant (I := fun s => ¬ Stuck s) linked_init
    fun hstuck => hstuck.holding
  · intro s l s' h hstep
    exact h.step hstep
  · intro s l s' h hfree hstep
    exact not_stuck_step h hfree hstep
  · intro s h
    exact canStop_iff h

def oneByteMessage : List UInt8 := [0, 0, 0, 0, 1, 0, 0, 0, 7] ++ verifyBytes

/-- A reader waits for the message that has come before the stop, and `stopServer` comes back. -/
theorem canStop_runs_iff_run :
    ∃ s : StopState,
      machine.Runs [.getMessage, .testRunning, .epollWait (some 1),
        .event (.readable wholeReads.oracle oneByteMessage), .stopServer, .read, .wait, .write,
        .deliver 1, .finishWrite, .endBatch, .testRunning, .join] s ∧
      (∀ pre t, pre <+: [.getMessage, .testRunning, .epollWait (some 1),
        .event (.readable wholeReads.oracle oneByteMessage), .stopServer, .read, .wait, .write,
        .deliver 1, .finishWrite, .endBatch, .testRunning, .join] → machine.Runs pre t →
        CanStop t) ∧ s.stop = .returned :=
  have hrun : machine.Runs [.getMessage, .testRunning, .epollWait (some 1),
      .event (.readable wholeReads.oracle oneByteMessage), .stopServer, .read, .wait, .write,
      .deliver 1, .finishWrite, .endBatch, .testRunning, .join] _ := rfl
  ⟨_, hrun, (canStop_runs_iff hrun).mp (by decide), rfl⟩

/-- One message is received and not read before the stop: `run` waits for a reader for ever, and
`stopServer` for `run`. -/
theorem not_canStop :
    ∃ s : StopState,
      machine.Runs [.testRunning, .epollWait (some 1),
        .event (.readable wholeReads.oracle oneByteMessage), .write, .stopServer, .wait] s ∧
      s.stop = .waiting ∧ ¬ CanStop s := by
  have hrun : machine.Runs [.testRunning, .epollWait (some 1),
      .event (.readable wholeReads.oracle oneByteMessage), .write, .stopServer, .wait] _ := rfl
  refine ⟨_, hrun, rfl, ?_⟩
  intro hcan
  exact (canStop_iff (linked_runs hrun)).mp hcan ⟨rfl, by decide, by decide⟩

end StopState

end Npp.Network
