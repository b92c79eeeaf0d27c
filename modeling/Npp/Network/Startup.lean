import Npp.Foundation.Machine

/-!
# `startServer` and the setup of `run`

`startServer` dispatches the coroutine `run` and waits until `running` is not `false`. `run` stores
`true` behind its last setup call; a call that fails makes it return at once. What the kernel
answers to the setup calls is a parameter of the machine, and what the loop gets to see later is
in the labels. Every access to `running` is a step of its own.
-/

namespace Npp.Network.Startup

open Npp.Foundation

/-- What the kernel answers to `socket`, `bind`, `epoll_create`, `epoll_ctl` and `getsockname`. -/
structure Setup where
  socket : Option ℕ
  bind : Bool
  epollCreate : Option ℕ
  epollCtl : Bool
  getsockname : Option UInt16
deriving DecidableEq, Repr

def Setup.Succeeds (k : Setup) : Prop :=
  k.socket.isSome = true ∧ k.bind = true ∧ k.epollCreate.isSome = true ∧ k.epollCtl = true

instance (k : Setup) : Decidable k.Succeeds :=
  inferInstanceAs (Decidable (_ ∧ _ ∧ _ ∧ _))

/-- What `run` does next; it has `left` behind a `co_return` and behind its last line. -/
inductive SetupStage where
  | notCalled
  | opening
  | binding
  | creating
  | adding
  | naming
  | storing
  | notifying
  | testing
  | polling
  | handling (events : ℕ)
  | closingEpoll
  | closingSock
  | left
deriving DecidableEq, Repr

inductive StarterStage where
  | assigning
  | dispatching
  | waiting
  | blocked
  | returned
deriving DecidableEq, Repr

/-- `opened` are the descriptors that the setup has got and nobody has closed, and `stored` says
that `run` has stored `true`. -/
structure StartState where
  listenPort : UInt16 := 0
  running : Bool := false
  sockfd : Int := -1
  epollFd : Int := -1
  opened : List Int := []
  stored : Bool := false
  run : SetupStage := .notCalled
  starter : StarterStage := .assigning
deriving DecidableEq, Repr

inductive StartEvent where
  | startServer
  | run
  | epollWait (nfds : Option ℕ)
  | accept (ok : Bool)
  | message
deriving DecidableEq, Repr

namespace StartState

def stepStarter (port : UInt16) (s : StartState) : Option StartState :=
  match s.starter with
  | .assigning => some { s with listenPort := port, starter := .dispatching }
  | .dispatching => some { s with run := .opening, starter := .waiting }
  | .waiting => some { s with starter := if s.running then .returned else .blocked }
  | .blocked | .returned => none

/-- The next statement of `run` outside of its loop's body, and the test of the loop. -/
def stepRun (k : Setup) (s : StartState) : Option StartState :=
  match s.run with
  | .opening =>
      match k.socket with
      | none => some { s with sockfd := -1, run := .left }
      | some fd => some { s with sockfd := fd, opened := (fd : Int) :: s.opened, run := .binding }
  -- what `listen` returns is not looked at
  | .binding => some { s with run := if k.bind then .creating else .left }
  | .creating =>
      match k.epollCreate with
      | none => some { s with epollFd := -1, run := .left }
      | some fd => some { s with epollFd := fd, opened := (fd : Int) :: s.opened, run := .adding }
  | .adding => some { s with run := if k.epollCtl then .naming else .left }
  | .naming => some { s with listenPort := k.getsockname.getD s.listenPort, run := .storing }
  | .storing => some { s with running := true, stored := true, run := .notifying }
  | .notifying =>
      some { s with
        starter := if s.starter = .blocked then .waiting else s.starter, run := .testing }
  | .testing => some { s with run := if s.running then .polling else .closingEpoll }
  | .closingEpoll => some { s with opened := s.opened.erase s.epollFd, run := .closingSock }
  | .closingSock => some { s with opened := s.opened.erase s.sockfd, run := .left }
  | .notCalled | .polling | .handling _ | .left => none

/-- What is behind one event of the loop. -/
def afterEvent (events : ℕ) : SetupStage := if events = 0 then .testing else .handling events

def epollWait (s : StartState) (nfds : Option ℕ) : Option StartState :=
  match s.run with
  | .polling =>
      match nfds with
      | none => some { s with run := .left }
      | some nfds => some { s with run := afterEvent nfds }
  | _ => none

/-- An event of `sockfd`: where `accept` fails, `running` becomes `false`. -/
def accept (s : StartState) (ok : Bool) : Option StartState :=
  match s.run with
  | .handling (events + 1) =>
      some { s with running := ok && s.running, run := afterEvent events }
  | _ => none

def message (s : StartState) : Option StartState :=
  match s.run with
  | .handling (events + 1) => some { s with run := afterEvent events }
  | _ => none

def step (k : Setup) (port : UInt16) (s : StartState) : StartEvent → Option StartState
  | .startServer => s.stepStarter port
  | .run => s.stepRun k
  | .epollWait nfds => s.epollWait nfds
  | .accept ok => s.accept ok
  | .message => s.message

/-- `run` has left and never stored `true`. -/
def Failed (s : StartState) : Prop := s.run = .left ∧ s.stored = false

/-- Where `run` has failed, `startServer` does not wait for it and no descriptor is left open. -/
structure NoHang (s : StartState) : Prop where
  released : s.Failed → s.starter ≠ .blocked
  closed : s.Failed → s.opened = []

end StartState

def machine (k : Setup) (port : UInt16) : Machine StartState StartEvent :=
  { init := {}, step := StartState.step k port }

variable {k : Setup} {port : UInt16} {s s' : StartState}

/-! ## A setup that succeeds -/

def SetupStage.isBehindStore : SetupStage → Bool
  | .notifying | .testing | .polling | .handling _ | .closingEpoll | .closingSock | .left => true
  | _ => false

/-- The stages behind the `store` are reached through it alone. -/
theorem stored_stepRun (hk : k.Succeeds) (h : s.run.isBehindStore = true → s.stored = true)
    (hstep : s.stepRun k = some s') : s'.run.isBehindStore = true → s'.stored = true := by
  obtain ⟨hsocket, hbind, hcreate, hctl⟩ := hk
  obtain ⟨fd, hfd⟩ := Option.isSome_iff_exists.mp hsocket
  obtain ⟨epollFd, hepoll⟩ := Option.isSome_iff_exists.mp hcreate
  unfold StartState.stepRun at hstep
  cases hrun : s.run with
  | opening => rw [hrun, hfd] at hstep; cases hstep; rintro ⟨⟩
  | binding => rw [hrun, hbind] at hstep; cases hstep; rintro ⟨⟩
  | creating => rw [hrun, hepoll] at hstep; cases hstep; rintro ⟨⟩
  | adding => rw [hrun, hctl] at hstep; cases hstep; rintro ⟨⟩
  | naming => rw [hrun] at hstep; cases hstep; rintro ⟨⟩
  | storing => rw [hrun] at hstep; cases hstep; exact fun _ => rfl
  | notifying | testing | closingEpoll | closingSock =>
      rw [hrun] at hstep h
      cases hstep
      exact fun _ => h rfl
  | notCalled | polling | handling | left => rw [hrun] at hstep; cases hstep

theorem stored_step {e : StartEvent} (hk : k.Succeeds)
    (h : s.run.isBehindStore = true → s.stored = true) (hstep : s.step k port e = some s') :
    s'.run.isBehindStore = true → s'.stored = true := by
  cases e with
  | startServer =>
      change s.stepStarter port = some s' at hstep
      unfold StartState.stepStarter at hstep
      cases hstarter : s.starter with
      | assigning | waiting => rw [hstarter] at hstep; cases hstep; exact h
      | dispatching => rw [hstarter] at hstep; cases hstep; rintro ⟨⟩
      | blocked | returned => rw [hstarter] at hstep; cases hstep
  | run => exact stored_stepRun hk h hstep
  | epollWait nfds =>
      change s.epollWait nfds = some s' at hstep
      unfold StartState.epollWait at hstep
      split at hstep
      case h_1 hrun =>
        rw [hrun] at h
        cases nfds with
        | none => cases hstep; exact fun _ => h rfl
        | some nfds => cases hstep; exact fun _ => h rfl
      case h_2 => cases hstep
  | accept ok =>
      change s.accept ok = some s' at hstep
      unfold StartState.accept at hstep
      split at hstep
      case h_1 hrun => rw [hrun] at h; cases hstep; exact fun _ => h rfl
      case h_2 => cases hstep
  | message =>
      change s.message = some s' at hstep
      unfold StartState.message at hstep
      split at hstep
      case h_1 hrun => rw [hrun] at h; cases hstep; exact fun _ => h rfl
      case h_2 => cases hstep

theorem not_failed (hk : k.Succeeds) {es : List StartEvent} (h : (machine k port).Runs es s) :
    ¬ s.Failed := by
  have hstored := h.invariant (I := fun s => s.run.isBehindStore = true → s.stored = true)
    (by rintro ⟨⟩) fun _ _ _ => stored_step hk
  rintro ⟨hleft, hnever⟩
  rw [hstored (by rw [hleft]; rfl)] at hnever
  cases hnever

/-! ## A setup that fails -/

namespace Setup

/-- The calls in front of the one that fails. -/
def depth (k : Setup) : ℕ :=
  if k.socket.isNone then 0
  else if k.bind = false then 1
  else if k.epollCreate.isNone then 2
  else 3

/-- The descriptors that the calls in front of the one that fails have made. -/
def got (k : Setup) : List Int :=
  match k.socket with
  | none => []
  | some fd =>
      match k.epollCreate with
      | none => [(fd : Int)]
      | some epollFd => if k.bind then [(epollFd : Int), (fd : Int)] else [(fd : Int)]

end Setup

/-- `startServer` waits before `run` has begun. -/
def blockedRun (k : Setup) : List StartEvent :=
  List.replicate 3 .startServer ++ List.replicate (k.depth + 1) .run

/-- The call that fails ends `run`, with all that was got before it. -/
theorem exists_blocked (hk : ¬ k.Succeeds) (port : UInt16) :
    ∃ s, (machine k port).Runs (blockedRun k) s ∧ s.Failed ∧ s.starter = .blocked ∧
      s.opened = k.got := by
  obtain ⟨socket, bind, epollCreate, epollCtl, getsockname⟩ := k
  cases socket with
  | none => exact ⟨_, rfl, ⟨rfl, rfl⟩, rfl, rfl⟩
  | some fd =>
      cases bind with
      | false =>
          refine ⟨_, rfl, ⟨rfl, rfl⟩, rfl, ?_⟩
          cases epollCreate with
          | none => rfl
          | some epollFd => rfl
      | true =>
          cases epollCreate with
          | none => exact ⟨_, rfl, ⟨rfl, rfl⟩, rfl, rfl⟩
          | some epollFd =>
              cases epollCtl with
              | false => exact ⟨_, rfl, ⟨rfl, rfl⟩, rfl, rfl⟩
              | true => exact absurd ⟨rfl, rfl, rfl, rfl⟩ hk

/-- Nobody moves any more. -/
theorem step_of_blocked (hrun : s.run = .left) (hstarter : s.starter = .blocked) (e : StartEvent) :
    s.step k port e = none := by
  cases e with
  | startServer =>
      show s.stepStarter port = none
      rw [StartState.stepStarter, hstarter]
  | run =>
      show s.stepRun k = none
      rw [StartState.stepRun, hrun]
  | epollWait nfds =>
      show s.epollWait nfds = none
      unfold StartState.epollWait
      rw [hrun]
  | accept ok =>
      show s.accept ok = none
      unfold StartState.accept
      rw [hrun]
  | message =>
      show s.message = none
      unfold StartState.message
      rw [hrun]

theorem not_canReach_returned (hrun : s.run = .left) (hstarter : s.starter = .blocked) :
    ¬ (machine k port).CanReach (fun _ => True) (fun s => s.starter = .returned) s := by
  apply Machine.not_canReach (I := fun s => s.run = .left ∧ s.starter = .blocked)
  · rintro a e a' ⟨ha, hb⟩ - hstep
    rw [show (machine k port).step a e = none from step_of_blocked ha hb e] at hstep
    cases hstep
  · rintro a ⟨-, hb⟩ hreturned
    cases hb.symm.trans hreturned
  · exact ⟨hrun, hstarter⟩

/-- **`startServer` does not wait for a server that failed** exactly when no setup call fails: one
failure, whichever it is, may leave it blocked for good. -/
theorem noHang_iff (k : Setup) (port : UInt16) :
    (∀ es s, (machine k port).Runs es s → s.NoHang) ↔ k.Succeeds := by
  constructor
  · intro hall
    by_contra hk
    obtain ⟨s, hrun, hfailed, hblocked, -⟩ := exists_blocked hk port
    exact (hall _ s hrun).released hfailed hblocked
  · intro hk es s hrun
    exact ⟨fun hfailed => absurd hfailed (not_failed hk hrun),
      fun hfailed => absurd hfailed (not_failed hk hrun)⟩

/-- The port is in use: `startServer` never returns, and the socket stays open. -/
theorem startServer_hangs :
    let k : Setup := {
      socket := some 3, bind := false, epollCreate := some 4, epollCtl := true
      getsockname := some 8080 }
    ∃ s, (machine k 8080).Runs (blockedRun k) s ∧ s.opened = [3] ∧ ¬ s.NoHang ∧
      ¬ (machine k 8080).CanReach (fun _ => True) (fun s => s.starter = .returned) s := by
  intro k
  obtain ⟨s, hrun, hfailed, hblocked, hopened⟩ := exists_blocked (k := k) (by decide) 8080
  exact ⟨s, hrun, hopened, fun h => h.released hfailed hblocked,
    not_canReach_returned hfailed.1 hblocked⟩

end Npp.Network.Startup
