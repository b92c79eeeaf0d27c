import Npp.Task.ChannelOrder
import Npp.Network.Segmentation
import Npp.Network.Stop
import Mathlib.Algebra.Order.BigOperators.Group.Finset

/-!
# From the peers to `getMessage`

The server with all of its connections: peers write frames at any time, the epoll loop takes one
frame from one connection at a time and hands its content to `messageChannel` by `write_sync`, and
`getMessage` calls read the channel. `received` is the log of what `processMessage` was given, with
the connection it came from. The kernel gives the heads and the verify codes whole, and a connection
may fail or end only behind the last frame of its peer.
-/

namespace Npp.Network

open Npp.Foundation Npp.Basic Npp.Task

def RunPhase.submitted : RunPhase → List (List UInt8)
  | .submitting _ content => [content]
  | _ => []

structure DeliveryState (ι : Type) where
  server : StopState := {}
  sent : ι → List Frame := fun _ => []
  unread : ι → List UInt8 := fun _ => []
  closed : ι → Bool := fun _ => false
  received : List (ι × List UInt8) := []

namespace DeliveryState

variable {ι : Type} [DecidableEq ι]

/-- `server` is any step but a readable connection: those come with their connection. -/
inductive Label (ι : Type) where
  | send (i : ι) (f : Frame)
  | readable (i : ι) (o : Oracle)
  | server (l : StopState.Label)

def step (s : DeliveryState ι) : Label ι → Option (DeliveryState ι)
  | .send i f =>
      some { s with
        sent := Function.update s.sent i (s.sent i ++ [f])
        unread := Function.update s.unread i (s.unread i ++ f.bytes) }
  | .readable i o =>
      if s.closed i then none
      else
        (s.server.step (.event (.readable o (s.unread i)))).map fun server =>
          let handled := handleEvent o (s.unread i)
          { s with
            server := server
            unread := Function.update s.unread i handled.rest
            closed := Function.update s.closed i handled.closed
            received := s.received ++ handled.action.processed.map (i, ·) }
  | .server (.event (.readable _ _)) => none
  | .server l => (s.server.step l).map fun server => { s with server := server }

def machine (ι : Type) [DecidableEq ι] : Machine (DeliveryState ι) (Label ι) where
  init := {}
  step := step

def receivedFrom (s : DeliveryState ι) (i : ι) : List (List UInt8) :=
  (s.received.filter (·.1 = i)).map Prod.snd

/-- The head and the verify code of the next frame are read whole, or the connection has carried
all that its peer sent. -/
def Whole (s : DeliveryState ι) : Label ι → Prop
  | .readable i o => o.Full ∨ (o.head = .failed ∧ s.unread i = [])
  | _ => True

variable {s s' : DeliveryState ι} {l : Label ι} {ls : List (Label ι)}

end DeliveryState

/-! ## The server and its channel -/

namespace StopState

variable {s s' : StopState} {l : Label}

def Label.processed : Label → List (List UInt8)
  | .event e => e.processed
  | _ => []

/-- What `processMessage` has been given, up to the content that `write_sync` has not pushed. -/
def handed (s : StopState) : List (List UInt8) :=
  s.messageChannel.writes.map Prod.snd ++ s.phase.submitted

theorem conveys_step (h : s.messageChannel.Conveys) (hstep : s.step l = some s') :
    s'.messageChannel.Conveys := by
  cases step_iff.mp hstep with
  | read pending => exact h.read false
  | deliver i m message => exact h.deliver message
  | write n content phase => exact h.write content
  | _ => exact h

/-- An event has at most one content. -/
theorem Action.processed_cons {action : Action} {content : List UInt8} {more : List (List UInt8)}
    (h : action.processed = content :: more) : action.processed = [content] := by
  cases action with
  | none => cases h
  | process c =>
      cases h
      rfl
  | insertRank rank port => cases h

theorem handed_step (h : s.messageChannel.Conveys) (hstep : s.step l = some s') :
    s'.handed = s.handed ++ l.processed := by
  cases step_iff.mp hstep with
  | getMessage => exact (List.append_nil _).symm
  | read pending =>
      rw [handed, handed, ChannelState.read_writes]
      exact (List.append_nil _).symm
  | deliver i m message => exact (List.append_nil _).symm
  | goOn phase running => simp [handed, phase, RunPhase.submitted, Label.processed]
  | leave phase running => simp [handed, phase, RunPhase.submitted, Label.processed]
  | pollError phase => simp [handed, phase, RunPhase.submitted, Label.processed]
  | poll n phase size => simp [handed, phase, RunPhase.submitted, Label.processed]
  | accept n ok phase listening =>
      simp [handed, phase, RunPhase.submitted, Label.processed, Event.processed]
  | message n o stream content more phase done processed =>
      simp [handed, phase, RunPhase.submitted, Label.processed, Event.processed,
        Action.processed_cons processed]
  | noMessage n o stream phase done processed =>
      simp [handed, phase, RunPhase.submitted, Label.processed, Event.processed, processed]
  | endBatch phase => simp [handed, phase, RunPhase.submitted, Label.processed]
  | write n content phase =>
      simp [handed, phase, RunPhase.submitted, Label.processed, h.write_writes]
  | finishWrite n id phase resumed => simp [handed, phase, RunPhase.submitted, Label.processed]
  | stopServer stop => exact (List.append_nil _).symm
  | wait stop => exact (List.append_nil _).symm
  | join stop phase => exact (List.append_nil _).symm

/-- A readable connection is handled to its end. -/
theorem readable_done {o : Oracle} {stream : List UInt8}
    (hstep : s.step (.event (.readable o stream)) = some s') :
    (handleEvent o stream).fate = .done := by
  cases step_iff.mp hstep with
  | message n o stream content more phase done processed => exact done
  | noMessage n o stream phase done processed => exact done

/-! ## The way back to `epoll_wait` -/

/-- Steps in which nobody stops the server, no call of the kernel fails and nothing is read from a
connection. -/
def Label.drains : Label → Prop
  | .stopServer | .epollWait none | .event (.accept false) | .event (.readable _ _) => False
  | _ => True

def CanSettle (s : StopState) : Prop :=
  machine.CanReach Label.drains (fun t => t.phase = .testing ∧ t.running = true) s

theorem CanSettle.of_transition (h : CanSettle s') (htransition : Transition s l s')
    (hl : l.drains) : CanSettle s :=
  h.of_step hl (step_of_transition htransition)

/-- The rest of a batch can be connections to accept. -/
theorem canSettle_handling (hstop : s.stop = .idle) (hrunning : s.running = true) {n : Nat}
    (hphase : s.phase = .handling n) : CanSettle s := by
  induction n generalizing s with
  | zero =>
      have htest : CanSettle { s with phase := .testing } := .here ⟨rfl, hrunning⟩
      exact htest.of_transition (.endBatch hphase) trivial
  | succ n ih =>
      have hrunning' : (s.running && true) = true := by rw [hrunning, Bool.and_self]
      have hnext : CanSettle { s with phase := .handling n, running := s.running && true } :=
        ih hstop hrunning' rfl
      exact hnext.of_transition (.accept n true hphase (Or.inl hstop)) trivial

/-- A writer that a reader has taken is resumed by its executor. -/
theorem canSettle_dispatched (h : Linked s) (hstop : s.stop = .idle) (hrunning : s.running = true)
    {n id : Nat} (hphase : s.phase = .writing n id)
    (hid : id ∈ s.messageChannel.dispatched.map (·.id)) : CanSettle s := by
  have hfinish : ∀ t : StopState, t.stop = .idle → t.running = true → t.phase = .writing n id →
      id ∈ t.messageChannel.ended.map (·.1.id) → CanSettle t := by
    intro t hstop hrunning hphase hended
    have hhandling : CanSettle { t with phase := .handling n } :=
      canSettle_handling hstop hrunning rfl
    exact hhandling.of_transition (.finishWrite n id hphase hended) trivial
  obtain ⟨m, hm, rfl⟩ := List.mem_map.mp hid
  rcases h.tidy.mem_dispatched.mp hm with hmessage | hended
  · obtain ⟨i, hi⟩ := List.mem_iff_getElem?.mp hmessage
    have hdelivered : CanSettle { s with messageChannel := s.messageChannel.deliver i m } := by
      apply hfinish { s with messageChannel := s.messageChannel.deliver i m } hstop hrunning hphase
      show m.id ∈ List.map _ (_ ++ [_])
      simp
    exact hdelivered.of_transition (.deliver i m hi) trivial
  · obtain ⟨e, he, rfl⟩ := List.mem_map.mp hended
    exact hfinish s hstop hrunning hphase (List.mem_map_of_mem he)

/-- A message that waits for a reader is taken by the next `getMessage`. -/
theorem canSettle_writing (h : Linked s) (hstop : s.stop = .idle) (hrunning : s.running = true)
    {n id : Nat} (hphase : s.phase = .writing n id) : CanSettle s := by
  have hawaits : s.phase.awaits = some id := by rw [hphase]; rfl
  rcases h.answered id hawaits with hwaits | hdispatched
  · obtain ⟨-, ⟨hnil, -⟩ | ⟨w, ws, r, hwriters, -, hdispatched⟩⟩ := h.read_cases
    · rw [hnil] at hwaits
      cases hwaits
    · obtain rfl : w.id = id := Option.some.inj ((h.awaits_head hwriters).symm.trans hawaits)
      have htaken : CanSettle { s with
          messageChannel := s.messageChannel.read false
          pendingReads := s.pendingReads + 1 - 1 } := by
        refine canSettle_dispatched (h.read _) hstop hrunning hphase ?_
        show w.id ∈ List.map _ (s.messageChannel.read false).dispatched
        rw [hdispatched]
        simp [Resumption.id]
      have hcalled : CanSettle { s with pendingReads := s.pendingReads + 1 } :=
        htaken.of_transition (.read (Nat.succ_pos _)) trivial
      exact hcalled.of_transition .getMessage trivial
  · exact canSettle_dispatched h hstop hrunning hphase hdispatched

/-- With readers that keep calling `getMessage`, `run` never stays inside of `write_sync`. -/
theorem canSettle (h : Linked s) (hrunning : s.running = true) (hphase : s.phase ≠ .ended) :
    CanSettle s := by
  have hstop : s.stop = .idle := by
    by_contra hne
    cases hrunning.symm.trans (h.stopped hne)
  cases hcase : s.phase with
  | testing => exact .here ⟨hcase, hrunning⟩
  | polling =>
      have hbatch : CanSettle { s with phase := .handling 0 } :=
        canSettle_handling hstop hrunning rfl
      exact hbatch.of_transition (.poll 0 hcase (Nat.zero_le _)) trivial
  | handling n => exact canSettle_handling hstop hrunning hcase
  | submitting n content =>
      have hpushed : CanSettle { s with
          messageChannel := s.messageChannel.write content
          phase := .writing n s.messageChannel.next } :=
        canSettle_writing (h.write hcase) hstop hrunning rfl
      exact hpushed.of_transition (.write n content hcase) trivial
  | writing n id => exact canSettle_writing h hstop hrunning hcase
  | ended => exact absurd hcase hphase

end StopState

namespace DeliveryState

variable {ι : Type} [DecidableEq ι] {s s' : DeliveryState ι} {l : Label ι} {ls : List (Label ι)}

/-- A step of the server alone gives nothing to `processMessage`. -/
theorem server_step {l : StopState.Label} (hstep : s.step (.server l) = some s') :
    l.processed = [] ∧
      ∃ server, s.server.step l = some server ∧ s' = { s with server := server } := by
  cases l with
  | event e =>
      cases e with
      | accept ok =>
          obtain ⟨server, hserver, rfl⟩ := Option.map_eq_some_iff.mp hstep
          exact ⟨rfl, server, hserver, rfl⟩
      | readable o stream => cases hstep
  | _ =>
      simp only [step, Option.map_eq_some_iff] at hstep
      obtain ⟨server, hserver, rfl⟩ := hstep
      exact ⟨rfl, server, hserver, rfl⟩

def Label.FullReads : Label ι → Prop
  | .readable _ o => o.Full
  | _ => True

omit [DecidableEq ι] in
theorem Label.FullReads.whole (h : l.FullReads) : s.Whole l := by
  cases l with
  | send i f => trivial
  | readable i o => exact Or.inl h
  | server l => trivial

/-! ## Every frame is taken once -/

omit [DecidableEq ι] in
theorem handleEvent_failed {o : Oracle} (h : o.head = .failed) (stream : List UInt8) :
    handleEvent o stream = { rest := stream, closed := true } := by
  simp only [handleEvent, sysRead, h]

/-- Nothing has come, so `read` waits. -/
theorem handleEvent_nothing {o : Oracle} (h : o.Full) : (handleEvent o []).fate = .blocked := by
  obtain ⟨k, -, hhead⟩ := h.head
  simp [handleEvent, sysRead, hhead]

theorem receivedFrom_append (s : DeliveryState ι) (i j : ι) (new : List (List UInt8)) :
    ((s.received ++ new.map (i, ·)).filter (·.1 = j)).map Prod.snd =
      s.receivedFrom j ++ if i = j then new else [] := by
  rw [List.filter_append, List.map_append, receivedFrom, List.filter_map]
  by_cases hij : i = j
  · simp [hij, Function.comp_def]
  · simp [hij, Function.comp_def]

/-- The invariant: connections at frame boundaries, their contents in the log in order, and the log
in the channel in order. -/
structure Delivering (s : DeliveryState ι) : Prop where
  linked : s.server.Linked
  conveys : s.server.messageChannel.Conveys
  handed : s.received.map Prod.snd = s.server.handed
  aligned : ServerState.Aligned s.sent ⟨s.unread, s.receivedFrom, .done⟩

theorem delivering_init : Delivering (machine ι).init where
  linked := StopState.linked_init
  conveys := ChannelState.conveys_init 0
  handed := rfl
  aligned := ⟨rfl, fun _ => ⟨[], [], rfl, rfl, rfl⟩⟩

/-- A frame is sent: it is the last one on its connection. -/
theorem Delivering.send (h : Delivering s) (i : ι) (f : Frame) :
    Delivering { s with
      sent := Function.update s.sent i (s.sent i ++ [f])
      unread := Function.update s.unread i (s.unread i ++ f.bytes) } := by
  refine ⟨h.linked, h.conveys, h.handed, rfl, ?_⟩
  intro j
  obtain ⟨before, after, hsent, hprocessed, hunread⟩ := h.aligned.split j
  by_cases hij : j = i
  · subst hij
    refine ⟨before, after ++ [f], ?_, hprocessed, ?_⟩
    · simp only [Function.update_self, hsent, List.append_assoc]
    · change s.unread j = _ at hunread
      simp [hunread]
  · refine ⟨before, after, ?_, hprocessed, ?_⟩
    · exact (Function.update_of_ne hij _ _).trans hsent
    · exact (Function.update_of_ne hij _ _).trans hunread

/-- The next frame of a connection that has one. -/
theorem Delivering.next_frame (h : Delivering s) {i : ι} (hunread : s.unread i ≠ []) :
    ∃ before f after, s.sent i = before ++ f :: after ∧ s.receivedFrom i = contents before ∧
      s.unread i = f.bytes ++ after.flatMap Frame.bytes :=
  h.aligned.next_frame hunread

/-- An event on connection `i` that leaves it at a frame boundary. -/
theorem Delivering.readable (h : Delivering s) {i : ι} {o : Oracle} {server : StopState}
    {closed : ι → Bool} (hstep : s.server.step (.event (.readable o (s.unread i))) = some server)
    (hwhole : s.Whole (.readable i o)) :
    Delivering { s with
      server := server
      unread := Function.update s.unread i (handleEvent o (s.unread i)).rest
      closed := closed
      received := s.received ++ (handleEvent o (s.unread i)).action.processed.map (i, ·) } := by
  refine ⟨h.linked.step hstep, StopState.conveys_step h.conveys hstep, ?_, rfl, ?_⟩
  · rw [StopState.handed_step h.conveys hstep, ← h.handed, List.map_append, List.map_map]
    simp [Function.comp_def, StopState.Label.processed, Event.processed]
  · intro j
    obtain ⟨before, after, hsent, hprocessed, hunread⟩ := h.aligned.split j
    have hfrom := s.receivedFrom_append i j (handleEvent o (s.unread i)).action.processed
    by_cases hij : i = j
    · subst hij
      rcases hwhole with hfull | ⟨hfailed, hempty⟩
      · by_cases hne : s.unread i = []
        · have hdone := StopState.readable_done hstep
          rw [hne, handleEvent_nothing hfull] at hdone
          cases hdone
        · obtain ⟨before, f, after, hsent, hprocessed, hunread⟩ := h.next_frame hne
          have hframe := handleEvent_frame hfull f (after.flatMap Frame.bytes)
          rw [← hunread] at hframe
          refine ⟨before ++ [f], after, by simp [hsent], ?_, ?_⟩
          · refine hfrom.trans ?_
            rw [if_pos rfl, hprocessed, hframe, contents_append, contents_singleton,
              Frame.action_processed]
          · simp only [Function.update_self, hframe]
      · -- the connection is closed behind its last frame
        refine ⟨before, after, hsent, ?_, ?_⟩
        · refine hfrom.trans ?_
          rw [handleEvent_failed hfailed]
          simpa [Action.processed] using hprocessed
        · rw [handleEvent_failed hfailed]
          simpa using hunread
    · refine ⟨before, after, hsent, ?_, ?_⟩
      · refine hfrom.trans ?_
        rw [if_neg hij, List.append_nil]
        exact hprocessed
      · exact (Function.update_of_ne (Ne.symm hij) _ _).trans hunread

theorem Delivering.step (h : Delivering s) (hwhole : s.Whole l) (hstep : s.step l = some s') :
    Delivering s' := by
  cases l with
  | send i f => exact Option.some.inj hstep ▸ h.send i f
  | readable i o =>
      simp only [DeliveryState.step, Option.ite_none_left_eq_some, Option.map_eq_some_iff] at hstep
      obtain ⟨-, server, hserver, rfl⟩ := hstep
      exact h.readable hserver hwhole
  | server l =>
      obtain ⟨hplain, server, hserver, rfl⟩ := server_step hstep
      have hhanded := StopState.handed_step h.conveys hserver
      rw [hplain, List.append_nil] at hhanded
      exact ⟨h.linked.step hserver, StopState.conveys_step h.conveys hserver,
        h.handed.trans hhanded.symm, h.aligned⟩

theorem delivering_runs (hrun : (machine ι).Runs ls s)
    (hwhole : (machine ι).Meets Whole (machine ι).init ls) : Delivering s :=
  hrun.guarded delivering_init (fun _ _ _ h hl hstep => h.step hl hstep) hwhole

/-! ## What the readers are given -/

/-- What has been pushed into the channel is the log, or the log without its last entry. -/
theorem Delivering.written_prefix (h : Delivering s) :
    s.server.messageChannel.writes.map Prod.snd <+: s.received.map Prod.snd := by
  rw [h.handed]
  exact List.prefix_append _ _

/-- A call that comes back has the message at its position. -/
theorem Delivering.read_position (h : Delivering s)
    {e : Resumption (List UInt8) × Ending (List UInt8)}
    (he : e ∈ s.server.messageChannel.ended) {v : List UInt8} {stored : Option (List UInt8)}
    (hread : e.2 = .read (.returned (v, stored))) :
    ∃ (k : Nat) (i : ι),
      s.server.messageChannel.reads[k]? = some e.1.id ∧ s.received[k]? = some (i, v) := by
  have hassigned := h.linked.tidy.returned_assigned he hread
  rw [h.conveys.assigned] at hassigned
  obtain ⟨k, hk⟩ := List.mem_iff_getElem?.mp hassigned
  obtain ⟨hreads, hwrites⟩ := List.getElem?_zip_eq_some.mp hk
  have hreceived : (s.received.map Prod.snd)[k]? = some v := by
    obtain ⟨rest, hrest⟩ := h.written_prefix
    rw [← hrest, List.getElem?_append_left (List.getElem?_eq_some_iff.mp hwrites).1]
    exact hwrites
  rw [List.getElem?_map, Option.map_eq_some_iff] at hreceived
  obtain ⟨⟨i, content⟩, hentry, rfl⟩ := hreceived
  exact ⟨k, i, hreads, hentry⟩

/-- A connection with nothing left to read. -/
theorem Delivering.complete (h : Delivering s) {i : ι} (hunread : s.unread i = []) :
    s.receivedFrom i = contents (s.sent i) := by
  obtain ⟨before, after, hsent, hprocessed, hrest⟩ := h.aligned.split i
  cases after with
  | nil =>
      rw [hsent, List.append_nil]
      exact hprocessed
  | cons f after =>
      have hnil := List.append_eq_nil_iff.mp (hrest.symm.trans hunread)
      exact absurd hnil.1 f.bytes_ne_nil

/-- **Delivery.** However the frames, the readiness events, the `getMessage` calls and the steps of
the server interleave: what has come over a connection is a prefix of what its peer sent, and all of
it when nothing is left to read; everything received is handed to the channel in the order in which
it came; and the `k`-th `getMessage` to reach its `co_await` gets exactly the `k`-th message, and
returns it. -/
theorem delivered (hrun : (machine ι).Runs ls s)
    (hwhole : (machine ι).Meets Whole (machine ι).init ls) :
    (∀ i, s.receivedFrom i <+: contents (s.sent i) ∧
      (s.unread i = [] → s.receivedFrom i = contents (s.sent i))) ∧
    s.received.map Prod.snd = s.server.handed ∧
    s.server.messageChannel.assigned = s.server.messageChannel.reads.zip
      (s.server.messageChannel.writes.map Prod.snd) ∧
    s.server.messageChannel.reads.Nodup ∧
    ∀ e ∈ s.server.messageChannel.ended, e.2.isReturned = true ∧
      ∀ v stored, e.2 = .read (.returned (v, stored)) →
        ∃ (k : Nat) (i : ι),
          s.server.messageChannel.reads[k]? = some e.1.id ∧ s.received[k]? = some (i, v) := by
  have h := delivering_runs hrun hwhole
  refine ⟨fun i => ⟨h.aligned.in_order i, h.complete⟩, h.handed, h.conveys.assigned,
    h.linked.tidy.distinct.of_append_right, ?_⟩
  intro e he
  refine ⟨?_, fun v stored hread => h.read_position he hread⟩
  rcases h.linked.tidy.ended e he with ⟨hsafe, hsuccess⟩ | ⟨hclosed, -⟩
  · rw [hsuccess]
    exact Resumption.success_isReturned hsafe
  · cases h.linked.isActive.symm.trans hclosed

/-- Two peers, two calls: the message of the second peer comes first, and goes to the first
call. -/
def twoPeers : List (Label Bool) :=
  [.send true (.normal ⟨[7], by decide, by decide⟩), .send false (.rankReport 3 80),
    .send false (.normal ⟨[8, 9], by decide, by decide⟩), .server .getMessage, .server .getMessage,
    .server .read, .server .testRunning, .server (.epollWait (some 3)),
    .readable false wholeReads.oracle, .readable false wholeReads.oracle, .server .write,
    .server (.deliver 1), .server .finishWrite, .readable true wholeReads.oracle,
    .server .write, .server .read, .server (.deliver 0)]

theorem twoPeers_whole : (machine Bool).Meets Whole (machine Bool).init twoPeers := by
  have hfull : ∀ l ∈ twoPeers, l.FullReads := by
    simp [twoPeers, Label.FullReads, wholeReads_full.oracle]
  exact (Machine.meets_of_forall hfull _).mono fun _ _ hl => hl.whole

theorem delivered_run :
    ∃ s : DeliveryState Bool, (machine Bool).Runs twoPeers s ∧
      s.received = [(false, [8, 9]), (true, [7])] ∧
      s.server.messageChannel.assigned = s.server.messageChannel.reads.zip
        (s.server.messageChannel.writes.map Prod.snd) := by
  have hend : ((machine Bool).runFrom (machine Bool).init twoPeers).map (fun s => s.received) =
      some [(false, [8, 9]), (true, [7])] := by
    decide +kernel
  obtain ⟨s, hrun, hreceived⟩ := Option.map_eq_some_iff.mp hend
  exact ⟨s, hrun, hreceived, (delivered hrun twoPeers_whole).2.2.1⟩

/-! ## Nothing that was sent is stuck -/

/-- Between two messages every message received has its reader. -/
theorem Delivering.settled (h : Delivering s) (hphase : s.server.phase = .testing) :
    s.server.messageChannel.assigned.map Prod.snd = s.received.map Prod.snd := by
  obtain ⟨x, hx⟩ := h.conveys.fifo
  have hvalues := hx.conserves.values
  have hwriters := h.linked.writers_nil (by rw [hphase]; rfl)
  obtain ⟨hkept, -⟩ := List.append_eq_nil_iff.mp h.conveys.kept
  rw [h.linked.buffer, hwriters, hkept] at hvalues
  rw [h.handed, StopState.handed, hphase]
  simpa [RunPhase.submitted] using hvalues

/-- Steps in which nothing is sent, nobody stops the server, no call of the kernel fails and every
read is whole. -/
def Label.drains : Label ι → Prop
  | .send _ _ => False
  | .readable _ o => o.Full
  | .server l => l.drains

theorem step_server {l : StopState.Label} (hl : l.drains) {server : StopState}
    (hstep : s.server.step l = some server) :
    s.step (.server l) = some { s with server := server } := by
  cases l with
  | event e =>
      cases e with
      | accept ok => simp only [step, hstep, Option.map_some]
      | readable o stream => exact hl.elim
  | _ => simp only [step, hstep, Option.map_some]

/-- Steps of the server alone. -/
theorem Delivering.runFrom_server (h : Delivering s) {ls : List StopState.Label}
    (hls : ∀ l ∈ ls, l.drains) {server : StopState}
    (hrun : StopState.machine.runFrom s.server ls = some server) :
    (machine ι).runFrom s (ls.map .server) = some { s with server := server } ∧
      Delivering { s with server := server } := by
  induction ls generalizing s with
  | nil =>
      obtain rfl := Option.some.inj hrun
      exact ⟨rfl, h⟩
  | cons l ls ih =>
      obtain ⟨mid, hmid, hrest⟩ := Option.bind_eq_some_iff.mp hrun
      have hstep := step_server (s := s) (hls l List.mem_cons_self) hmid
      have hnext : Delivering { s with server := mid } := h.step (l := .server l) trivial hstep
      obtain ⟨hruns, hend⟩ := ih hnext (fun l hl => hls l (List.mem_cons_of_mem _ hl)) hrest
      refine ⟨?_, hend⟩
      rw [List.map_cons, Machine.runFrom]
      exact Option.bind_eq_some_iff.mpr ⟨_, hstep, hruns⟩

/-- The next frame of a connection that is ready. -/
theorem Delivering.take (h : Delivering s) {n : Nat} (hphase : s.server.phase = .handling (n + 1))
    {i : ι} (hclosed : s.closed i = false) (hunread : s.unread i ≠ []) :
    ∃ t, s.step (.readable i wholeReads.oracle) = some t ∧ Delivering t ∧
      t.server.running = s.server.running ∧ t.server.phase ≠ .ended ∧ t.sent = s.sent ∧
      t.closed = s.closed ∧ (t.unread i).length < (s.unread i).length ∧
      ∀ j, j ≠ i → t.unread j = s.unread j := by
  obtain ⟨before, f, after, -, -, hbytes⟩ := h.next_frame hunread
  have hframe := handleEvent_frame wholeReads_full.oracle f (after.flatMap Frame.bytes)
  rw [← hbytes] at hframe
  have hserver : ∃ server,
      s.server.step (.event (.readable wholeReads.oracle (s.unread i))) = some server ∧
      server.running = s.server.running ∧ server.phase ≠ .ended := by
    cases hcontent : f.content with
    | none =>
        refine ⟨_, StopState.step_of_transition (.noMessage n _ _ hphase ?_ ?_), rfl,
          RunPhase.noConfusion⟩
        · rw [hframe]
        · rw [hframe, Frame.action_processed, hcontent, Option.toList_none]
    | some content =>
        refine ⟨_, StopState.step_of_transition (.message n _ _ content [] hphase ?_ ?_), rfl,
          RunPhase.noConfusion⟩
        · rw [hframe]
        · rw [hframe, Frame.action_processed, hcontent, Option.toList_some]
  obtain ⟨server, hstep, hrunning, hphase'⟩ := hserver
  have hread : s.step (.readable i wholeReads.oracle) = some { s with
      server := server
      unread := Function.update s.unread i (handleEvent wholeReads.oracle (s.unread i)).rest
      closed := Function.update s.closed i (handleEvent wholeReads.oracle (s.unread i)).closed
      received := s.received ++
        (handleEvent wholeReads.oracle (s.unread i)).action.processed.map (i, ·) } := by
    simp only [DeliveryState.step, hclosed, Bool.false_eq_true, if_false, hstep, Option.map_some]
  refine ⟨_, hread, h.step (l := .readable i _) (Or.inl wholeReads_full.oracle) hread, hrunning,
    hphase',
    rfl, ?_, ?_, ?_⟩
  · rw [hframe, ← hclosed]
    exact Function.update_eq_self i s.closed
  · simp only [Function.update_self, hframe]
    rw [hbytes, List.length_append]
    have hpos := List.length_pos_of_ne_nil f.bytes_ne_nil
    omega
  · intro j hj
    exact Function.update_of_ne hj _ _

/-- A state on the way from `s₀`, with bytes left on connections of `S` only. -/
structure Draining (s₀ : DeliveryState ι) (S : Finset ι) (s : DeliveryState ι) : Prop where
  delivering : Delivering s
  running : s.server.running = true
  phase : s.server.phase ≠ .ended
  sent : s.sent = s₀.sent
  closed : s.closed = s₀.closed
  outside : ∀ i, i ∉ S → s.unread i = []

/-- `run` comes back to the head of its loop, and nothing is read on the way. -/
theorem Draining.settle {s₀ : DeliveryState ι} {S : Finset ι} (h : Draining s₀ S s) :
    ∃ es t, (∀ e ∈ es, e.drains) ∧ (machine ι).runFrom s es = some t ∧ Draining s₀ S t ∧
      t.server.phase = .testing ∧ t.unread = s.unread := by
  obtain ⟨ls, server, hls, hrun, hphase, hrunning⟩ :=
    StopState.canSettle h.delivering.linked h.running h.phase
  obtain ⟨hruns, hdelivering⟩ := h.delivering.runFrom_server hls hrun
  have hnot : server.phase ≠ .ended := by
    rw [hphase]
    exact RunPhase.noConfusion
  refine ⟨_, _, ?_, hruns, ⟨hdelivering, hrunning, hnot, h.sent, h.closed, h.outside⟩, hphase, rfl⟩
  intro e he
  obtain ⟨l, hl, rfl⟩ := List.mem_map.mp he
  exact hls l hl

/-- At the head of the loop one connection can be ready. -/
theorem Draining.poll {s₀ : DeliveryState ι} {S : Finset ι} (h : Draining s₀ S s)
    (hphase : s.server.phase = .testing) :
    ∃ t, (machine ι).runFrom s [.server .testRunning, .server (.epollWait (some 1))] = some t ∧
      Draining s₀ S t ∧ t.server.phase = .handling 1 ∧ t.unread = s.unread := by
  have hready : StopState.machine.runFrom s.server [.testRunning, .epollWait (some 1)] =
      some { s.server with phase := .handling 1 } := by
    simp [StopState.machine, Machine.runFrom, StopState.step, hphase, h.running, epollEventSize]
  obtain ⟨hpoll, hpolled⟩ := h.delivering.runFrom_server (by simp [StopState.Label.drains]) hready
  exact ⟨_, hpoll, ⟨hpolled, h.running, RunPhase.noConfusion, h.sent, h.closed, h.outside⟩, rfl,
    rfl⟩

/-- As long as an open connection has bytes left, some of them can be read. -/
theorem Draining.progress {s₀ : DeliveryState ι} {S : Finset ι} (h : Draining s₀ S s) {i : ι}
    (hclosed : s.closed i = false) (hunread : s.unread i ≠ []) :
    ∃ es t, (∀ e ∈ es, e.drains) ∧ (machine ι).runFrom s es = some t ∧ Draining s₀ S t ∧
      ∑ j ∈ S, (t.unread j).length < ∑ j ∈ S, (s.unread j).length := by
  obtain ⟨es, a, hes, hsettle, ha, hphase, haunread⟩ := h.settle
  obtain ⟨b, hpoll, hb, hready, hbunread⟩ := ha.poll hphase
  have hclosed' : b.closed i = false := by rw [hb.closed, ← h.closed, hclosed]
  have hsame : b.unread = s.unread := hbunread.trans haunread
  have hunread' : b.unread i ≠ [] := by rwa [hsame]
  obtain ⟨t, hread, ht, hrunning, hnot, hsent, hopen, hless, hrest⟩ :=
    hb.delivering.take hready hclosed' hunread'
  refine ⟨es ++ ([.server .testRunning, .server (.epollWait (some 1))] ++
    [.readable i wholeReads.oracle]), t, ?_, ?_, ?_, ?_⟩
  · intro e he
    rcases List.mem_append.mp he with he | he
    · exact hes e he
    · simp only [List.cons_append, List.nil_append, List.mem_cons, List.not_mem_nil, or_false] at he
      rcases he with rfl | rfl | rfl
      · trivial
      · trivial
      · exact wholeReads_full.oracle
  · rw [Machine.runFrom_append, hsettle, Option.bind_some, Machine.runFrom_append, hpoll,
      Option.bind_some, Machine.runFrom_singleton]
    exact hread
  · refine ⟨ht, hrunning.trans hb.running, hnot, hsent.trans hb.sent, hopen.trans hb.closed, ?_⟩
    intro j hj
    have hji : j ≠ i := by
      rintro rfl
      exact hunread' (hb.outside j hj)
    rw [hrest j hji]
    exact hb.outside j hj
  · have hi : i ∈ S := by
      by_contra hi
      exact hunread (h.outside i hi)
    rw [← hsame]
    apply Finset.sum_lt_sum
    · intro j _
      by_cases hji : j = i
      · subst hji
        exact Nat.le_of_lt hless
      · rw [hrest j hji]
    · exact ⟨i, hi, hless⟩

end DeliveryState

end Npp.Network
