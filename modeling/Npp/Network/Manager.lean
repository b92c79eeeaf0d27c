import Npp.Foundation.FileTable
import Npp.Network.Stop

/-!
# The descriptors of a manager

The three sides of a `NetworkManager` that open and close descriptors: the coroutine `run`, any
number of `getSendSocket` calls, and the thread that calls `startServer` and then `stopServer`. Each
call of the kernel is a step of its own, and so are the test, the `close` and the reset of
`stopServer`. What the kernel answers is part of the label, and a new descriptor has any number that
is free.

A descriptor that somebody has got is a `Handle`: its number, and the serial number of the file that
it was got for. The program knows the numbers only.
-/

namespace Npp.Network

open Npp.Foundation

structure Handle where
  fd : Int
  serial : Nat
deriving DecidableEq, Repr

/-- Who will close a file or hand it on. The files of `loop` are in the epoll set. -/
inductive Holder (θ : Type) where
  | sockfd
  | epollFd
  | accepted
  | call (t : θ)
  | loop
  | nobody
deriving DecidableEq, Repr

/-- Where `run` is. `failed` is behind a `co_return`, and `ended` is behind the last line. -/
inductive RunStage where
  | idle
  | bound
  | testing
  | polling
  | handling
  | accepted (conn : Handle)
  | closed (conn : Handle)
  | leaving
  | left
  | failed
  | ended
deriving DecidableEq, Repr

inductive CallStage where
  | idle
  | connecting (rank : Int) (sock : Handle)
  | waiting (rank : Int) (sock : Handle)
  | reporting (rank : Int) (sock : Handle)
  | adding (rank : Int) (sock : Handle)
deriving DecidableEq, Repr

def CallStage.sock : CallStage → Option Handle
  | .idle => none
  | .connecting _ sock | .waiting _ sock | .reporting _ sock | .adding _ sock => some sock

inductive MainStage where
  | starting
  | serving
  | testSockfd
  | closeSockfd
  | resetSockfd
  | testEpollFd
  | closeEpollFd
  | resetEpollFd
  | joining
  | returned
deriving DecidableEq, Repr

/-- `listening` and `epoll` are what `run` got from `socket` and `epoll_create`. `closes` has, for
each `close` of a descriptor that was got, the file it was got for, and the file that was closed. -/
structure ManagerState (θ : Type) where
  table : FileTable Int (Holder θ) := .empty
  sockfd : Int := -1
  epollFd : Int := -1
  running : Bool := false
  listening : Option Handle := none
  epoll : Option Handle := none
  run : RunStage := .idle
  events : List Handle := []
  calls : θ → CallStage := fun _ => .idle
  socks : Int → Option Int := fun _ => none
  locked : Int → Bool := fun _ => false
  main : MainStage := .starting
  closes : List (Nat × Option Nat) := []

namespace ManagerState

inductive Label (θ : Type) where
  | listen (o : Option (Int × Bool))
  | createEpoll (o : Option (Int × Bool))
  | testRunning
  | epollWait (events : Option (List Handle))
  | accept (connfd : Option Int)
  | addAccepted (ok : Bool)
  | handle (report : Option Int)
  | closeSocket
  | deleteSocket (report : Option Int)
  | endBatch
  | endRun
  | socket (t : θ) (rank : Int) (sock : Option Int)
  | connect (t : θ) (ok : Bool)
  | waitRunning (t : θ)
  | sendRankReport (t : θ) (ok : Bool)
  | addSendSocket (t : θ) (ok : Bool)
  | registerTarget (rank : Int)
  | clearSendSocket (rank : Int)
  | stopServer

variable {θ : Type} [DecidableEq θ]

def Free (s : ManagerState θ) (fd : Int) : Prop := 0 ≤ fd ∧ (s.table.files fd).isNone

instance (s : ManagerState θ) (fd : Int) : Decidable (s.Free fd) :=
  inferInstanceAs (Decidable (0 ≤ fd ∧ (s.table.files fd).isNone))

/-- `epoll_fd` still names what `epoll_create` has made. -/
def EpollOpen (s : ManagerState θ) : Prop :=
  s.epoll.isSome ∧ s.table.serial s.epollFd = s.epoll.map Handle.serial

instance (s : ManagerState θ) : Decidable s.EpollOpen :=
  inferInstanceAs (Decidable (_ ∧ _))

def Polled (s : ManagerState θ) (h : Handle) : Prop :=
  (s.table.files h.fd).any fun f => f.serial = h.serial ∧ f.polled

instance (s : ManagerState θ) (h : Handle) : Decidable (s.Polled h) :=
  inferInstanceAs (Decidable (_ = true))

/-- `close(fd)`, by somebody who means the file with this serial number. -/
def close (s : ManagerState θ) (fd : Int) (serial : Nat) : ManagerState θ :=
  { s with table := s.table.close fd, closes := s.closes ++ [(serial, s.table.serial fd)] }

/-- `close` of a member, which is -1 where it has no descriptor. -/
def closeMember (s : ManagerState θ) (fd : Int) (got : Option Handle) : ManagerState θ :=
  match got with
  | none => s
  | some h => if fd = -1 then s else s.close fd h.serial

def insert (s : ManagerState θ) (report : Option Int) (connfd : Int) : ManagerState θ :=
  match report with
  | none => s
  | some rank =>
      match s.socks rank with
      | some _ => s
      | none => { s with socks := Function.update s.socks rank (some connfd) }

/-- `socket`, `bind` and `listen` of `run`. -/
def listen (s : ManagerState θ) (o : Option (Int × Bool)) : Option (ManagerState θ) :=
  match s.run, o with
  | .idle, none => some { s with run := .failed }
  | .idle, some (fd, ok) =>
      if s.Free fd then
        some { s with
          table := s.table.openAt fd .sockfd
          sockfd := fd
          listening := some ⟨fd, s.table.opened⟩
          run := if ok then .bound else .failed }
      else none
  | _, _ => none

/-- `epoll_create`, the `epoll_ctl` for `sockfd`, and `running.store(true)`, for which
`startServer` waits. -/
def createEpoll (s : ManagerState θ) (o : Option (Int × Bool)) : Option (ManagerState θ) :=
  match s.run, o with
  | .bound, none => some { s with run := .failed }
  | .bound, some (fd, ok) =>
      if s.Free fd then
        let s := { s with
          table := s.table.openAt fd .epollFd
          epollFd := fd
          epoll := some ⟨fd, s.table.opened⟩ }
        if ok then
          some { s with
            table := s.table.add s.sockfd .sockfd
            running := true
            run := .testing
            main := .serving }
        else some { s with run := .failed }
      else none
  | _, _ => none

/-- `epoll_wait` with its answer. A wait that is going on outlives the `close` of `epoll_fd`. -/
def epollWait (s : ManagerState θ) (events : Option (List Handle)) : Option (ManagerState θ) :=
  match s.run, events with
  | .polling, none => some { s with run := .failed }
  | .polling, some events =>
      if events.length ≤ epollEventSize ∧ (events.map Handle.fd).Nodup ∧
          ∀ h ∈ events, s.Polled h then
        some { s with events := events, run := .handling }
      else none
  | _, _ => none

def accept (s : ManagerState θ) (connfd : Option Int) : Option (ManagerState θ) :=
  match s.run, s.events with
  | .handling, h :: events =>
      if h.fd = s.sockfd then
        match connfd with
        | none => some { s with events := events, running := false }
        | some fd =>
            if s.Free fd ∧ s.listening.isSome ∧
                s.table.serial s.sockfd = s.listening.map Handle.serial then
              some { s with
                events := events
                table := s.table.openAt fd .accepted
                run := .accepted ⟨fd, s.table.opened⟩ }
            else none
      else none
  | _, _ => none

/-- `epoll_ctl(epoll_fd, EPOLL_CTL_ADD, fd)`. A connection that is not added stays open. -/
def epollAdd (s : ManagerState θ) (fd : Int) (ok : Bool) : Option (ManagerState θ) :=
  if ok then
    if s.EpollOpen then some { s with table := s.table.add fd .loop } else none
  else some { s with table := s.table.pass fd .nobody }

def addAccepted (s : ManagerState θ) (ok : Bool) : Option (ManagerState θ) :=
  match s.run with
  | .accepted conn => (s.epollAdd conn.fd ok).map fun s => { s with run := .handling }
  | _ => none

/-- An event on another descriptor whose reads succeed. -/
def handle (s : ManagerState θ) (report : Option Int) : Option (ManagerState θ) :=
  match s.run, s.events with
  | .handling, h :: events =>
      if h.fd ≠ s.sockfd ∧ (s.table.files h.fd).isSome then
        some (insert { s with events := events } report h.fd)
      else none
  | _, _ => none

/-- An event on another descriptor with a `read` that fails: the `close` of `closeSocket`. -/
def closeSocket (s : ManagerState θ) : Option (ManagerState θ) :=
  match s.run, s.events with
  | .handling, h :: events =>
      if h.fd ≠ s.sockfd then
        some { s.close h.fd h.serial with events := events, run := .closed h }
      else none
  | _, _ => none

/-- The `EPOLL_CTL_DEL` of `closeSocket`, and the rest of the event. -/
def deleteSocket (s : ManagerState θ) (report : Option Int) : Option (ManagerState θ) :=
  match s.run with
  | .closed conn =>
      some (insert { s with
        table := if s.EpollOpen then s.table.del conn.fd else s.table
        run := .handling } report conn.fd)
  | _ => none

/-- The last two lines of `run`. -/
def endRun (s : ManagerState θ) : Option (ManagerState θ) :=
  match s.run with
  | .leaving => some { s.closeMember s.epollFd s.epoll with run := .left }
  | .left => some { s.closeMember s.sockfd s.listening with run := .ended }
  | _ => none

def setCall (s : ManagerState θ) (t : θ) (c : CallStage) : ManagerState θ :=
  { s with calls := Function.update s.calls t c }

def setLock (s : ManagerState θ) (rank : Int) (b : Bool) : ManagerState θ :=
  { s with locked := Function.update s.locked rank b }

def endCall (s : ManagerState θ) (t : θ) (rank : Int) : ManagerState θ :=
  (s.setCall t .idle).setLock rank false

def socket (s : ManagerState θ) (t : θ) (rank : Int) (sock : Option Int) :
    Option (ManagerState θ) :=
  match s.calls t, s.socks rank with
  | .idle, some old =>
      if old > 0 ∨ s.locked rank then none
      else
        match sock with
        | none => some s
        | some fd =>
            if s.Free fd then
              some (({ s with table := s.table.openAt fd (.call t) }.setCall t
                (.connecting rank ⟨fd, s.table.opened⟩)).setLock rank true)
            else none
  | _, _ => none

/-- A socket whose `connect` fails is not closed. -/
def connect (s : ManagerState θ) (t : θ) (ok : Bool) : Option (ManagerState θ) :=
  match s.calls t with
  | .connecting rank sock =>
      if ok then some (s.setCall t (.waiting rank sock))
      else some ({ s with table := s.table.pass sock.fd .nobody }.endCall t rank)
  | _ => none

def waitRunning (s : ManagerState θ) (t : θ) : Option (ManagerState θ) :=
  match s.calls t with
  | .waiting rank sock => if s.running then some (s.setCall t (.reporting rank sock)) else none
  | _ => none

def sendRankReport (s : ManagerState θ) (t : θ) (ok : Bool) : Option (ManagerState θ) :=
  match s.calls t with
  | .reporting rank sock =>
      if ok then
        some ({ s with socks := Function.update s.socks rank (some sock.fd) }.setCall t
          (.adding rank sock))
      else some ((s.close sock.fd sock.serial).endCall t rank)
  | _ => none

def addSendSocket (s : ManagerState θ) (t : θ) (ok : Bool) : Option (ManagerState θ) :=
  match s.calls t with
  | .adding rank sock => (s.epollAdd sock.fd ok).map fun s => s.endCall t rank
  | _ => none

def stopServer (s : ManagerState θ) : Option (ManagerState θ) :=
  match s.main with
  | .serving => some { s with running := false, main := .testSockfd }
  | .testSockfd => some { s with main := if s.sockfd > 0 then .closeSockfd else .testEpollFd }
  | .closeSockfd => some { s.closeMember s.sockfd s.listening with main := .resetSockfd }
  | .resetSockfd => some { s with sockfd := -1, main := .testEpollFd }
  | .testEpollFd => some { s with main := if s.epollFd > 0 then .closeEpollFd else .joining }
  | .closeEpollFd => some { s.closeMember s.epollFd s.epoll with main := .resetEpollFd }
  | .resetEpollFd => some { s with epollFd := -1, main := .joining }
  | .joining =>
      match s.run with
      | .failed | .ended => some { s with main := .returned }
      | _ => none
  | _ => none

def step (s : ManagerState θ) : Label θ → Option (ManagerState θ)
  | .listen o => s.listen o
  | .createEpoll o => s.createEpoll o
  | .testRunning =>
      match s.run with
      | .testing => some { s with run := if s.running then .polling else .leaving }
      | _ => none
  | .epollWait events => s.epollWait events
  | .accept connfd => s.accept connfd
  | .addAccepted ok => s.addAccepted ok
  | .handle report => s.handle report
  | .closeSocket => s.closeSocket
  | .deleteSocket report => s.deleteSocket report
  | .endBatch =>
      match s.run, s.events with
      | .handling, [] => some { s with run := .testing }
      | _, _ => none
  | .endRun => s.endRun
  | .socket t rank sock => s.socket t rank sock
  | .connect t ok => s.connect t ok
  | .waitRunning t => s.waitRunning t
  | .sendRankReport t ok => s.sendRankReport t ok
  | .addSendSocket t ok => s.addSendSocket t ok
  | .registerTarget rank =>
      if s.locked rank then none
      else some { s with socks := Function.update s.socks rank (some (-1)) }
  | .clearSendSocket rank =>
      if s.locked rank then none
      else some { s with socks := Function.update s.socks rank ((s.socks rank).map fun _ => -1) }
  | .stopServer => s.stopServer

def machine (θ : Type) [DecidableEq θ] : Machine (ManagerState θ) (Label θ) where
  init := {}
  step := step

variable {s s' : ManagerState θ} {l : Label θ}

/-! ## What a step does -/

/-- The steps with their guards, where the branch that is taken is known. What the entries of
`socks` hold, and which are locked, is left open. -/
inductive Transition (s : ManagerState θ) : Label θ → ManagerState θ → Prop where
  | listenFails (run : s.run = .idle) : Transition s (.listen none) { s with run := .failed }
  | listen (fd : Int) (ok : Bool) (run : s.run = .idle) (free : s.Free fd) :
      Transition s (.listen (some (fd, ok))) { s with
        table := s.table.openAt fd .sockfd
        sockfd := fd
        listening := some ⟨fd, s.table.opened⟩
        run := if ok then .bound else .failed }
  | createEpollFails (run : s.run = .bound) :
      Transition s (.createEpoll none) { s with run := .failed }
  | createEpoll (fd : Int) (run : s.run = .bound) (free : s.Free fd) :
      Transition s (.createEpoll (some (fd, true))) { s with
        table := (s.table.openAt fd .epollFd).add s.sockfd .sockfd
        epollFd := fd
        epoll := some ⟨fd, s.table.opened⟩
        running := true
        run := .testing
        main := .serving }
  | addSockfdFails (fd : Int) (run : s.run = .bound) (free : s.Free fd) :
      Transition s (.createEpoll (some (fd, false))) { s with
        table := s.table.openAt fd .epollFd
        epollFd := fd
        epoll := some ⟨fd, s.table.opened⟩
        run := .failed }
  | testRunning (run : s.run = .testing) :
      Transition s .testRunning { s with run := if s.running then .polling else .leaving }
  | epollWaitFails (run : s.run = .polling) :
      Transition s (.epollWait none) { s with run := .failed }
  | epollWait (events : List Handle) (run : s.run = .polling) (nodup : (events.map Handle.fd).Nodup)
      (polled : ∀ h ∈ events, s.Polled h) :
      Transition s (.epollWait (some events)) { s with events := events, run := .handling }
  | acceptFails (h : Handle) (events : List Handle) (run : s.run = .handling)
      (event : s.events = h :: events) :
      Transition s (.accept none) { s with events := events, running := false }
  | accept (h : Handle) (events : List Handle) (fd : Int) (run : s.run = .handling)
      (event : s.events = h :: events) (free : s.Free fd) :
      Transition s (.accept (some fd)) { s with
        events := events
        table := s.table.openAt fd .accepted
        run := .accepted ⟨fd, s.table.opened⟩ }
  | addAccepted (conn : Handle) (run : s.run = .accepted conn) :
      Transition s (.addAccepted true) { s with
        table := s.table.add conn.fd .loop
        run := .handling }
  | addAcceptedFails (conn : Handle) (run : s.run = .accepted conn) :
      Transition s (.addAccepted false) { s with
        table := s.table.pass conn.fd .nobody
        run := .handling }
  | handle (report : Option Int) (h : Handle) (events : List Handle) (socks : Int → Option Int)
      (event : s.events = h :: events) :
      Transition s (.handle report) { s with events := events, socks := socks }
  | closeSocket (h : Handle) (events : List Handle) (run : s.run = .handling)
      (event : s.events = h :: events) (other : h.fd ≠ s.sockfd) :
      Transition s .closeSocket
        { s.close h.fd h.serial with events := events, run := .closed h }
  | deleteSocket (report : Option Int) (conn : Handle) (socks : Int → Option Int)
      (run : s.run = .closed conn) :
      Transition s (.deleteSocket report) { s with
        table := if s.EpollOpen then s.table.del conn.fd else s.table
        run := .handling
        socks := socks }
  | endBatch (run : s.run = .handling) (event : s.events = []) :
      Transition s .endBatch { s with run := .testing }
  | closeEpoll (run : s.run = .leaving) :
      Transition s .endRun { s.closeMember s.epollFd s.epoll with run := .left }
  | closeListening (run : s.run = .left) :
      Transition s .endRun { s.closeMember s.sockfd s.listening with run := .ended }
  | socket (t : θ) (rank fd : Int) (call : s.calls t = .idle) (free : s.Free fd)
      (locked : Int → Bool) :
      Transition s (.socket t rank (some fd)) { s with
        table := s.table.openAt fd (.call t)
        calls := Function.update s.calls t (.connecting rank ⟨fd, s.table.opened⟩)
        locked := locked }
  | connect (t : θ) (rank : Int) (sock : Handle) (call : s.calls t = .connecting rank sock) :
      Transition s (.connect t true)
        { s with calls := Function.update s.calls t (.waiting rank sock) }
  | connectFails (t : θ) (rank : Int) (sock : Handle) (locked : Int → Bool)
      (call : s.calls t = .connecting rank sock) :
      Transition s (.connect t false) { s with
        table := s.table.pass sock.fd .nobody
        calls := Function.update s.calls t .idle
        locked := locked }
  | waitRunning (t : θ) (rank : Int) (sock : Handle) (call : s.calls t = .waiting rank sock) :
      Transition s (.waitRunning t)
        { s with calls := Function.update s.calls t (.reporting rank sock) }
  | sendRankReport (t : θ) (rank : Int) (sock : Handle) (socks : Int → Option Int)
      (call : s.calls t = .reporting rank sock) :
      Transition s (.sendRankReport t true) { s with
        socks := socks
        calls := Function.update s.calls t (.adding rank sock) }
  | sendRankReportFails (t : θ) (rank : Int) (sock : Handle) (locked : Int → Bool)
      (call : s.calls t = .reporting rank sock) :
      Transition s (.sendRankReport t false) { s.close sock.fd sock.serial with
        calls := Function.update s.calls t .idle
        locked := locked }
  | addSendSocket (t : θ) (rank : Int) (sock : Handle) (locked : Int → Bool)
      (call : s.calls t = .adding rank sock) :
      Transition s (.addSendSocket t true) { s with
        table := s.table.add sock.fd .loop
        calls := Function.update s.calls t .idle
        locked := locked }
  | addSendSocketFails (t : θ) (rank : Int) (sock : Handle) (locked : Int → Bool)
      (call : s.calls t = .adding rank sock) :
      Transition s (.addSendSocket t false) { s with
        table := s.table.pass sock.fd .nobody
        calls := Function.update s.calls t .idle
        locked := locked }
  | noSocket (t : θ) (rank : Int) : Transition s (.socket t rank none) s
  | registerTarget (rank : Int) (socks : Int → Option Int) :
      Transition s (.registerTarget rank) { s with socks := socks }
  | clearSendSocket (rank : Int) (socks : Int → Option Int) :
      Transition s (.clearSendSocket rank) { s with socks := socks }
  | stopServer (main : s.main = .serving) :
      Transition s .stopServer { s with running := false, main := .testSockfd }
  | testSockfd (main : s.main = .testSockfd) :
      Transition s .stopServer
        { s with main := if s.sockfd > 0 then .closeSockfd else .testEpollFd }
  | closeSockfd (main : s.main = .closeSockfd) :
      Transition s .stopServer
        { s.closeMember s.sockfd s.listening with main := .resetSockfd }
  | resetSockfd (main : s.main = .resetSockfd) :
      Transition s .stopServer { s with sockfd := -1, main := .testEpollFd }
  | testEpollFd (main : s.main = .testEpollFd) :
      Transition s .stopServer
        { s with main := if s.epollFd > 0 then .closeEpollFd else .joining }
  | closeEpollFd (main : s.main = .closeEpollFd) :
      Transition s .stopServer
        { s.closeMember s.epollFd s.epoll with main := .resetEpollFd }
  | resetEpollFd (main : s.main = .resetEpollFd) :
      Transition s .stopServer { s with epollFd := -1, main := .joining }
  | join (main : s.main = .joining) (run : s.run = .failed ∨ s.run = .ended) :
      Transition s .stopServer { s with main := .returned }

omit [DecidableEq θ] in
theorem insert_eq (s : ManagerState θ) (report : Option Int) (connfd : Int) :
    ∃ socks, s.insert report connfd = { s with socks := socks } := by
  unfold insert
  split
  · exact ⟨s.socks, rfl⟩
  · split
    · exact ⟨s.socks, rfl⟩
    · exact ⟨_, rfl⟩

omit [DecidableEq θ] in
theorem epollAdd_cases {fd : Int} {ok : Bool} (h : s.epollAdd fd ok = some s') :
    (ok = true ∧ s' = { s with table := s.table.add fd .loop }) ∨
    (ok = false ∧ s' = { s with table := s.table.pass fd .nobody }) := by
  cases ok with
  | true =>
      simp only [epollAdd, if_true, Option.ite_none_right_eq_some, Option.some.injEq] at h
      exact Or.inl ⟨rfl, h.2.symm⟩
  | false => exact Or.inr ⟨rfl, (Option.some.inj h).symm⟩

/-! ### The steps of `run` -/

theorem transition_listen {o : Option (Int × Bool)} (h : s.listen o = some s') :
    Transition s (.listen o) s' := by
  unfold listen at h
  split at h
  case h_1 hrun =>
    cases h
    exact .listenFails hrun
  case h_2 fd ok hrun =>
    rw [Option.ite_none_right_eq_some] at h
    obtain ⟨hfree, h⟩ := h
    cases h
    exact .listen fd ok hrun hfree
  case h_3 => cases h

theorem transition_createEpoll {o : Option (Int × Bool)} (h : s.createEpoll o = some s') :
    Transition s (.createEpoll o) s' := by
  unfold createEpoll at h
  split at h
  case h_1 hrun =>
    cases h
    exact .createEpollFails hrun
  case h_2 fd ok hrun =>
    rw [Option.ite_none_right_eq_some] at h
    obtain ⟨hfree, h⟩ := h
    cases ok with
    | true =>
        cases h
        exact .createEpoll fd hrun hfree
    | false =>
        cases h
        exact .addSockfdFails fd hrun hfree
  case h_3 => cases h

theorem transition_epollWait {events : Option (List Handle)} (h : s.epollWait events = some s') :
    Transition s (.epollWait events) s' := by
  unfold epollWait at h
  split at h
  case h_1 hrun =>
    cases h
    exact .epollWaitFails hrun
  case h_2 events hrun =>
    rw [Option.ite_none_right_eq_some] at h
    obtain ⟨⟨-, hnodup, hpolled⟩, h⟩ := h
    cases h
    exact .epollWait events hrun hnodup hpolled
  case h_3 => cases h

theorem transition_accept {connfd : Option Int} (h : s.accept connfd = some s') :
    Transition s (.accept connfd) s' := by
  unfold accept at h
  split at h
  case h_1 event events hrun hevent =>
    rw [Option.ite_none_right_eq_some] at h
    obtain ⟨-, h⟩ := h
    split at h
    case h_1 =>
      cases h
      exact .acceptFails event events hrun hevent
    case h_2 fd =>
      rw [Option.ite_none_right_eq_some] at h
      obtain ⟨⟨hfree, -⟩, h⟩ := h
      cases h
      exact .accept event events fd hrun hevent hfree
  case h_2 => cases h

theorem transition_addAccepted {ok : Bool} (h : s.addAccepted ok = some s') :
    Transition s (.addAccepted ok) s' := by
  unfold addAccepted at h
  split at h
  case h_1 conn hrun =>
    obtain ⟨a, ha, rfl⟩ := Option.map_eq_some_iff.mp h
    rcases epollAdd_cases ha with ⟨rfl, rfl⟩ | ⟨rfl, rfl⟩
    · exact .addAccepted conn hrun
    · exact .addAcceptedFails conn hrun
  case h_2 => cases h

theorem transition_handle {report : Option Int} (h : s.handle report = some s') :
    Transition s (.handle report) s' := by
  unfold handle at h
  split at h
  case h_1 event events _ hevent =>
    rw [Option.ite_none_right_eq_some] at h
    obtain ⟨-, h⟩ := h
    obtain ⟨socks, hsocks⟩ := insert_eq { s with events := events } report event.fd
    rw [hsocks] at h
    cases h
    exact .handle report event events socks hevent
  case h_2 => cases h

theorem transition_closeSocket (h : s.closeSocket = some s') : Transition s .closeSocket s' := by
  unfold closeSocket at h
  split at h
  case h_1 event events hrun hevent =>
    rw [Option.ite_none_right_eq_some] at h
    obtain ⟨hother, h⟩ := h
    cases h
    exact .closeSocket event events hrun hevent hother
  case h_2 => cases h

theorem transition_deleteSocket {report : Option Int} (h : s.deleteSocket report = some s') :
    Transition s (.deleteSocket report) s' := by
  unfold deleteSocket at h
  split at h
  case h_1 conn hrun =>
    obtain ⟨socks, hsocks⟩ := insert_eq { s with
      table := if s.EpollOpen then s.table.del conn.fd else s.table
      run := .handling } report conn.fd
    rw [hsocks] at h
    cases h
    exact .deleteSocket report conn socks hrun
  case h_2 => cases h

theorem transition_endRun (h : s.endRun = some s') : Transition s .endRun s' := by
  unfold endRun at h
  split at h
  case h_1 hrun =>
    cases h
    exact .closeEpoll hrun
  case h_2 hrun =>
    cases h
    exact .closeListening hrun
  case h_3 => cases h

/-! ### The steps of a call -/

variable {t : θ}

theorem transition_socket {rank : Int} {sock : Option Int} (h : s.socket t rank sock = some s') :
    Transition s (.socket t rank sock) s' := by
  unfold socket at h
  split at h
  case h_1 hcall _ =>
    rw [Option.ite_none_left_eq_some] at h
    obtain ⟨-, h⟩ := h
    split at h
    case h_1 =>
      cases h
      exact .noSocket t rank
    case h_2 fd =>
      rw [Option.ite_none_right_eq_some] at h
      obtain ⟨hfree, h⟩ := h
      cases h
      exact .socket t rank fd hcall hfree _
  case h_2 => cases h

theorem transition_connect {ok : Bool} (h : s.connect t ok = some s') :
    Transition s (.connect t ok) s' := by
  unfold connect at h
  split at h
  case h_1 rank sock hcall =>
    cases ok with
    | true =>
        cases h
        exact .connect t rank sock hcall
    | false =>
        cases h
        exact .connectFails t rank sock _ hcall
  case h_2 => cases h

theorem transition_waitRunning (h : s.waitRunning t = some s') :
    Transition s (.waitRunning t) s' := by
  unfold waitRunning at h
  split at h
  case h_1 rank sock hcall =>
    rw [Option.ite_none_right_eq_some] at h
    obtain ⟨-, h⟩ := h
    cases h
    exact .waitRunning t rank sock hcall
  case h_2 => cases h

theorem transition_sendRankReport {ok : Bool} (h : s.sendRankReport t ok = some s') :
    Transition s (.sendRankReport t ok) s' := by
  unfold sendRankReport at h
  split at h
  case h_1 rank sock hcall =>
    cases ok with
    | true =>
        cases h
        exact .sendRankReport t rank sock _ hcall
    | false =>
        cases h
        exact .sendRankReportFails t rank sock _ hcall
  case h_2 => cases h

theorem transition_addSendSocket {ok : Bool} (h : s.addSendSocket t ok = some s') :
    Transition s (.addSendSocket t ok) s' := by
  unfold addSendSocket at h
  split at h
  case h_1 rank sock hcall =>
    obtain ⟨a, ha, rfl⟩ := Option.map_eq_some_iff.mp h
    rcases epollAdd_cases ha with ⟨rfl, rfl⟩ | ⟨rfl, rfl⟩
    · exact .addSendSocket t rank sock _ hcall
    · exact .addSendSocketFails t rank sock _ hcall
  case h_2 => cases h

/-! ### The steps of `stopServer` -/

theorem transition_stopServer (h : s.stopServer = some s') : Transition s .stopServer s' := by
  unfold stopServer at h
  split at h
  case h_1 hmain =>
    cases h
    exact .stopServer hmain
  case h_2 hmain =>
    cases h
    exact .testSockfd hmain
  case h_3 hmain =>
    cases h
    exact .closeSockfd hmain
  case h_4 hmain =>
    cases h
    exact .resetSockfd hmain
  case h_5 hmain =>
    cases h
    exact .testEpollFd hmain
  case h_6 hmain =>
    cases h
    exact .closeEpollFd hmain
  case h_7 hmain =>
    cases h
    exact .resetEpollFd hmain
  case h_8 hmain =>
    split at h
    case h_1 hrun =>
      cases h
      exact .join hmain (Or.inl hrun)
    case h_2 hrun =>
      cases h
      exact .join hmain (Or.inr hrun)
    case h_3 => cases h
  case h_9 => cases h

theorem transition_of_step (hstep : s.step l = some s') : Transition s l s' := by
  cases l with
  | listen o => exact transition_listen hstep
  | createEpoll o => exact transition_createEpoll hstep
  | testRunning =>
      simp only [step] at hstep
      split at hstep
      case h_1 hrun =>
        cases hstep
        exact .testRunning hrun
      case h_2 => cases hstep
  | epollWait events => exact transition_epollWait hstep
  | accept connfd => exact transition_accept hstep
  | addAccepted ok => exact transition_addAccepted hstep
  | handle report => exact transition_handle hstep
  | closeSocket => exact transition_closeSocket hstep
  | deleteSocket report => exact transition_deleteSocket hstep
  | endBatch =>
      simp only [step] at hstep
      split at hstep
      case h_1 hrun hevent =>
        cases hstep
        exact .endBatch hrun hevent
      case h_2 => cases hstep
  | endRun => exact transition_endRun hstep
  | socket t rank sock => exact transition_socket hstep
  | connect t ok => exact transition_connect hstep
  | waitRunning t => exact transition_waitRunning hstep
  | sendRankReport t ok => exact transition_sendRankReport hstep
  | addSendSocket t ok => exact transition_addSendSocket hstep
  | registerTarget rank =>
      simp only [step, Option.ite_none_left_eq_some, Option.some.injEq] at hstep
      obtain ⟨-, rfl⟩ := hstep
      exact .registerTarget rank _
  | clearSendSocket rank =>
      simp only [step, Option.ite_none_left_eq_some, Option.some.injEq] at hstep
      obtain ⟨-, rfl⟩ := hstep
      exact .clearSendSocket rank _
  | stopServer => exact transition_stopServer hstep

end ManagerState

end Npp.Network
