import Npp.Network.Receive
import Mathlib.Logic.Function.Basic

/-!
# The descriptors and the registry of a node

The descriptor table of the process and `socks`, with what each function of `NetworkManager` does
to them. The kernel's answers are arguments: the number that `socket` or `accept` takes, which may
be any free one, and what `connect` and `writev` return. `getSendSocket` keeps its entry of `socks`
locked from its first line to its last, so it is one step. A call of `sendMessage` is a `Sender`,
taken apart where it holds no lock.
-/

namespace Npp.Network

open Npp.Foundation

/-- A TCP connection: the rank that `getSendSocket` opened it to, the ranks reported on it, its
own address, what was written to it, and what its peer wrote. -/
structure Connection where
  openedTo : Option Int := none
  reported : List Int := []
  localIp : UInt32 := 0
  sent : List UInt8 := []
  unread : List UInt8 := []
  hungUp : Bool := false
deriving DecidableEq, Repr

inductive Descriptor where
  | unconnected
  | connection (c : Connection)
deriving DecidableEq, Repr

def Descriptor.toConnection : Descriptor → Option Connection
  | .unconnected => none
  | .connection c => some c

structure Target where
  rank : Int := -1
  ip : UInt32 := 0
  port : UInt16 := 0
  sock : Int := -1
deriving DecidableEq, Repr

structure Node where
  myRank : Int
  listenPort : UInt16
  fds : Int → Option Descriptor := fun _ => none
  socks : Int → Option Target := fun _ => none

/-- What `writev` does: it fails, or it takes the first `k` bytes, or all when there are fewer. -/
inductive WriteOutcome where
  | error (errno : Int)
  | wrote (k : Nat)
deriving DecidableEq, Repr

namespace WriteOutcome

def ret (o : WriteOutcome) (allSize : Nat) : Int :=
  match o with
  | .error _ => -1
  | .wrote k => (min k allSize : Nat)

def errno : WriteOutcome → Int
  | .error errno => errno
  | .wrote _ => 0

def written (o : WriteOutcome) (message : List UInt8) : List UInt8 :=
  match o with
  | .error _ => []
  | .wrote k => message.take k

end WriteOutcome

/-- What `socket`, `connect` and the `writev` of the rank report answer. -/
inductive ConnectOutcome where
  | noSocket
  | refused (fd : Int)
  | connected (fd : Int) (localIp : UInt32) (report : WriteOutcome)
deriving DecidableEq, Repr

def htonl (ip : UInt32) : UInt32 :=
  UInt32.ofNat (ip.toNat % 256 * 2 ^ 24 + ip.toNat / 256 % 256 * 2 ^ 16 +
    ip.toNat / 2 ^ 16 % 256 * 256 + ip.toNat / 2 ^ 24)

def Action.ranks : Action → List Int
  | .insertRank rank _ => [rank]
  | _ => []

namespace Node

def setFd (n : Node) (fd : Int) (d : Option Descriptor) : Node :=
  { n with fds := Function.update n.fds fd d }

def setTarget (n : Node) (rank : Int) (target : Target) : Node :=
  { n with socks := Function.update n.socks rank (some target) }

/-- A number that the kernel may give out. -/
def Free (n : Node) (fd : Int) : Prop := 0 ≤ fd ∧ (n.fds fd).isNone

instance (n : Node) (fd : Int) : Decidable (n.Free fd) :=
  inferInstanceAs (Decidable (0 ≤ fd ∧ (n.fds fd).isNone))

def connection (n : Node) (fd : Int) : Option Connection :=
  (n.fds fd).bind Descriptor.toConnection

def registerTarget (n : Node) (rank : Int) (ip : UInt32) (port : UInt16) : Node :=
  match n.socks rank with
  | some target => n.setTarget rank { target with ip := htonl ip, port := htons port, sock := -1 }
  | none => n.setTarget rank { rank := rank, ip := htonl ip, port := htons port }

def clearSendSocket (n : Node) (rank : Int) : Node :=
  match n.socks rank with
  | none => n
  | some target => n.setTarget rank { target with sock := -1 }

/-- `socks.insert`, which leaves an entry that is there. -/
def insert (n : Node) (rank : Int) (target : Target) : Node :=
  match n.socks rank with
  | some _ => n
  | none => n.setTarget rank target

/-- `writev(sock, …)`; it cannot succeed without a connection. -/
def writev (n : Node) (sock : Int) (message : List UInt8) (o : WriteOutcome) :
    Option (Int × Node) :=
  match o, n.connection sock with
  | .error _, _ => some (o.ret message.length, n)
  | .wrote _, some c =>
      some (o.ret message.length,
        n.setFd sock (some (.connection { c with sent := c.sent ++ o.written message })))
  | .wrote _, none => none

def sendRankReportMessage (n : Node) (c : Connection) (o : WriteOutcome) : Bool × Connection :=
  let message := rankReportMessage n.myRank n.listenPort
  let ret := o.ret message.length
  let c := { c with sent := c.sent ++ o.written message }
  if ret < 0 then (false, c)
  else if ret < message.length then (false, c)
  else (true, c)

/-- `getSendSocket`; `none` when the number is not free. -/
def getSendSocket (n : Node) (rank : Int) (a : ConnectOutcome) : Option (Int × Node) :=
  match n.socks rank with
  | none => some (-1, n)
  | some target =>
      if target.sock > 0 then some (target.sock, n)
      else
        match a with
        | .noSocket => some (-1, n)
        | .refused fd =>
            -- the socket is not closed
            if n.Free fd then some (-1, n.setFd fd (some .unconnected)) else none
        | .connected fd localIp report =>
            if n.Free fd then
              let c : Connection := { openedTo := some rank, localIp := localIp }
              match n.sendRankReportMessage c report with
              -- the socket is closed, and its number is free again
              | (false, _) => some (-1, n)
              | (true, c) =>
                  some (fd, (n.setFd fd (some (.connection c))).setTarget rank
                    { target with sock := fd })
            else none

def accept (n : Node) (connfd : Int) (localIp : UInt32) : Node :=
  n.setFd connfd (some (.connection { localIp := localIp }))

/-- What the event handler does to the tables. `getsockname` fails on a closed descriptor. -/
def handle (n : Node) (connfd : Int) (c : Connection) (handled : Handled) : Node :=
  let c := { c with unread := handled.rest, reported := c.reported ++ handled.action.ranks }
  let n := n.setFd connfd (if handled.closed then none else some (.connection c))
  match handled.action with
  | .insertRank rank port =>
      n.insert rank
        { rank := rank
          ip := if handled.closed then 0 else c.localIp
          port := port
          sock := connfd }
  | _ => n

end Node

/-! ## `sendMessage` -/

structure SendError where
  what : String
deriving DecidableEq, Repr

inductive SendPhase where
  | looping (retry : Int)
  | holding (sock retry : Int)
  | clearing (sock retry errno : Int)
  | returned
  | threw (e : SendError)
deriving DecidableEq, Repr

namespace SendPhase

/-- The test of the `while`. -/
def enter (retry : Int) : SendPhase := if retry ≥ 0 then .looping retry else .returned

/-- `retry--`, and the throw when none is left. -/
def retryOr (retry : Int) (what : String) : SendPhase :=
  if retry - 1 < 0 then .threw ⟨what⟩ else enter (retry - 1)

end SendPhase

structure Sender where
  rank : Int
  data : List UInt8
  phase : SendPhase
deriving DecidableEq, Repr

namespace Sender

def call (rank : Int) (data : List UInt8) (retry : Int) : Sender := ⟨rank, data, .enter retry⟩

def getSendSocket (x : Sender) (n : Node) (a : ConnectOutcome) : Option (Sender × Node) :=
  match x.phase with
  | .looping retry =>
      match n.getSendSocket x.rank a with
      | none => none
      | some (sock, n) =>
          let rank := x.rank
          if sock < 0 then
            some ({ x with phase := .retryOr retry s!"cannot get socket to {rank}" }, n)
          else some ({ x with phase := .holding sock retry }, n)
  | _ => none

def writev (x : Sender) (n : Node) (o : WriteOutcome) : Option (Sender × Node) :=
  match x.phase with
  | .holding sock retry =>
      let allSize := (normalMessage x.data).length
      match n.writev sock (normalMessage x.data) o with
      | none => none
      | some (ret, n) =>
          if ret < 0 then some ({ x with phase := .clearing sock retry o.errno }, n)
          else if ret < allSize then
            some ({ x with phase := .threw ⟨s!"send to {ret} not complete, {ret}<{allSize}"⟩ }, n)
          else some ({ x with phase := .returned }, n)
  | _ => none

def clearSendSocket (x : Sender) (n : Node) : Option (Sender × Node) :=
  match x.phase with
  | .clearing sock retry errno =>
      let rank := x.rank
      some ({ x with
        phase := .retryOr retry s!"send msg to {rank} err, fd: {sock}, errno: {errno}" },
        n.clearSendSocket rank)
  | _ => none

end Sender

/-! ## What each function can do -/

namespace WriteOutcome

theorem ret_full {o : WriteOutcome} {message : List UInt8}
    (h : ¬ o.ret message.length < message.length) :
    o.written message = message ∧ ∃ k, o = .wrote k ∧ message.length ≤ k := by
  cases o with
  | error errno =>
      exfalso
      apply h
      show (-1 : Int) < _
      omega
  | wrote k =>
      have hk : message.length ≤ k := by
        change ¬ ((min k message.length : Nat) : Int) < message.length at h
        omega
      exact ⟨List.take_of_length_le hk, k, rfl, hk⟩

end WriteOutcome

namespace Node

variable {n n' : Node}

@[simp] theorem setTarget_fds (rank : Int) (target : Target) :
    (n.setTarget rank target).fds = n.fds := rfl

@[simp] theorem setFd_socks (fd : Int) (d : Option Descriptor) :
    (n.setFd fd d).socks = n.socks := rfl

theorem registerTarget_fds (rank : Int) (ip : UInt32) (port : UInt16) :
    (n.registerTarget rank ip port).fds = n.fds := by
  unfold registerTarget
  split <;> rfl

theorem clearSendSocket_fds (rank : Int) : (n.clearSendSocket rank).fds = n.fds := by
  unfold clearSendSocket
  split <;> rfl

theorem connection_eq_some {fd : Int} {c : Connection} :
    n.connection fd = some c ↔ n.fds fd = some (.connection c) := by
  rw [Node.connection, Option.bind_eq_some_iff]
  constructor
  · rintro ⟨d, hd, hc⟩
    cases d with
    | unconnected => cases hc
    | connection c' => rw [hd, Option.some.inj hc]
  · intro h
    exact ⟨_, h, rfl⟩

theorem Free.connection {fd : Int} (h : n.Free fd) : n.connection fd = none := by
  rw [Node.connection, Option.isNone_iff_eq_none.mp h.2]
  rfl

theorem connection_eq_of_fds (h : n'.fds = n.fds) : n'.connection = n.connection := by
  funext fd
  rw [Node.connection, Node.connection, h]

theorem connection_setFd (fd : Int) (d : Option Descriptor) :
    (n.setFd fd d).connection =
      Function.update n.connection fd (d.bind Descriptor.toConnection) := by
  funext j
  show (Function.update n.fds fd d j).bind Descriptor.toConnection = _
  by_cases hj : j = fd
  · subst hj
    rw [Function.update_self, Function.update_self]
  · rw [Function.update_of_ne hj, Function.update_of_ne hj]
    rfl

theorem connection_setConnection (fd : Int) (c : Connection) :
    (n.setFd fd (some (.connection c))).connection = Function.update n.connection fd (some c) :=
  connection_setFd fd _

/-- A socket that is not connected changes nothing. -/
theorem connection_setUnconnected {fd : Int} (hfree : n.Free fd) :
    (n.setFd fd (some .unconnected)).connection = n.connection := by
  rw [connection_setFd]
  exact Function.update_eq_self_iff.mpr hfree.connection.symm

/-- The tables after a new connection. -/
theorem connection_connected (fd : Int) (c : Connection) (rank : Int) (target : Target) :
    ((n.setFd fd (some (.connection c))).setTarget rank target).connection =
      Function.update n.connection fd (some c) :=
  (connection_eq_of_fds (setTarget_fds rank target)).trans (connection_setConnection fd c)

/-- The rank report went out whole. -/
def Reported (n : Node) (report : WriteOutcome) : Prop :=
  ¬ report.ret (rankReportMessage n.myRank n.listenPort).length <
    (rankReportMessage n.myRank n.listenPort).length

instance (n : Node) (report : WriteOutcome) : Decidable (n.Reported report) :=
  inferInstanceAs (Decidable (¬ _ < _))

def opened (n : Node) (rank : Int) (localIp : UInt32) : Connection where
  openedTo := some rank
  localIp := localIp
  sent := rankReportMessage n.myRank n.listenPort

/-- `getSendSocket` asks for a new connection and gets it. -/
def Opens (n : Node) (rank : Int) (a : ConnectOutcome) (fd : Int) : Prop :=
  ∃ target localIp report, a = .connected fd localIp report ∧ n.socks rank = some target ∧
    ¬ 0 < target.sock ∧ n.Reported report

theorem Opens.unique {rank fd fd' : Int} {a : ConnectOutcome} (h : n.Opens rank a fd)
    (h' : n.Opens rank a fd') : fd = fd' := by
  obtain ⟨_, _, _, rfl, -⟩ := h
  obtain ⟨_, _, _, ha, -⟩ := h'
  exact (ConnectOutcome.connected.inj ha).1

theorem sendRankReportMessage_reported {o : WriteOutcome} (h : n.Reported o) (c : Connection) :
    n.sendRankReportMessage c o =
      (true, { c with sent := c.sent ++ rankReportMessage n.myRank n.listenPort }) := by
  obtain ⟨hwritten, -⟩ := WriteOutcome.ret_full h
  unfold Reported at h
  unfold sendRankReportMessage
  dsimp only
  rw [if_neg (by omega), if_neg h, hwritten]

theorem sendRankReportMessage_unreported {o : WriteOutcome} (h : ¬ n.Reported o)
    (c : Connection) : (n.sendRankReportMessage c o).1 = false := by
  have hshort := not_not.mp h
  unfold sendRankReportMessage
  dsimp only
  rw [if_pos hshort]
  split <;> rfl

/-- A socket that is connected is kept if the rank report goes out, and closed otherwise. -/
theorem connected_cases {rank sock fd : Int} {localIp : UInt32} {report : WriteOutcome}
    {target : Target}
    (h : (match n.sendRankReportMessage { openedTo := some rank, localIp := localIp } report with
      | (false, _) => some (-1, n)
      | (true, c) => some (fd, (n.setFd fd (some (.connection c))).setTarget rank
          { target with sock := fd })) = some (sock, n')) :
    (sock = fd ∧ n' = (n.setFd fd (some (.connection (n.opened rank localIp)))).setTarget rank
        { target with sock := fd } ∧ n.Reported report) ∨
    (sock = -1 ∧ n' = n ∧ ¬ n.Reported report) := by
  by_cases hreport : n.Reported report
  · rw [sendRankReportMessage_reported hreport] at h
    simp only [Option.some.injEq, Prod.mk.injEq] at h
    obtain ⟨rfl, rfl⟩ := h
    refine Or.inl ⟨rfl, ?_, hreport⟩
    rw [opened, List.nil_append]
  · have hfailed := sendRankReportMessage_unreported hreport
      { openedTo := some rank, localIp := localIp }
    split at h
    case h_1 =>
      simp only [Option.some.injEq, Prod.mk.injEq] at h
      obtain ⟨rfl, rfl⟩ := h
      exact Or.inr ⟨rfl, rfl, hreport⟩
    case h_2 c hsent =>
      rw [hsent] at hfailed
      cases hfailed

/-- The three ways through `getSendSocket`. -/
theorem getSendSocket_cases {rank sock : Int} {a : ConnectOutcome}
    (h : n.getSendSocket rank a = some (sock, n')) :
    (sock = -1 ∧ (∀ fd, ¬ n.Opens rank a fd) ∧
      (n' = n ∨ ∃ fd, n.Free fd ∧ n' = n.setFd fd (some .unconnected))) ∨
    ((∀ fd, ¬ n.Opens rank a fd) ∧
      (∃ target, n.socks rank = some target ∧ 0 < target.sock ∧ sock = target.sock) ∧ n' = n) ∨
    (n.Opens rank a sock ∧ n.Free sock ∧ ∃ target localIp, n.socks rank = some target ∧
      n' = (n.setFd sock (some (.connection (n.opened rank localIp)))).setTarget rank
        { target with sock := sock }) := by
  unfold getSendSocket at h
  cases htarget : n.socks rank with
  | none =>
      rw [htarget] at h
      obtain ⟨rfl, rfl⟩ := Prod.mk.inj (Option.some.inj h)
      refine Or.inl ⟨rfl, ?_, Or.inl rfl⟩
      rintro fd ⟨target, _, _, -, hsome, -⟩
      rw [htarget] at hsome
      cases hsome
  | some target =>
      rw [htarget] at h
      dsimp only at h
      by_cases hsock : target.sock > 0
      · rw [if_pos hsock] at h
        obtain ⟨rfl, rfl⟩ := Prod.mk.inj (Option.some.inj h)
        refine Or.inr (Or.inl ⟨?_, ⟨target, rfl, hsock, rfl⟩, rfl⟩)
        rintro fd ⟨target', _, _, -, hsome, hno, -⟩
        rw [htarget] at hsome
        obtain rfl := Option.some.inj hsome
        exact hno hsock
      · rw [if_neg hsock] at h
        cases a with
        | noSocket =>
            obtain ⟨rfl, rfl⟩ := Prod.mk.inj (Option.some.inj h)
            refine Or.inl ⟨rfl, ?_, Or.inl rfl⟩
            rintro fd ⟨_, _, _, ha, -⟩
            cases ha
        | refused fd =>
            dsimp only at h
            split at h
            case isFalse => cases h
            case isTrue hfree =>
              obtain ⟨rfl, rfl⟩ := Prod.mk.inj (Option.some.inj h)
              refine Or.inl ⟨rfl, ?_, Or.inr ⟨fd, hfree, rfl⟩⟩
              rintro fd' ⟨_, _, _, ha, -⟩
              cases ha
        | connected fd localIp report =>
            dsimp only at h
            split at h
            case isFalse => cases h
            case isTrue hfree =>
              rcases connected_cases h with ⟨rfl, rfl, hreport⟩ | ⟨rfl, rfl, hreport⟩
              · exact Or.inr (Or.inr ⟨⟨target, localIp, report, rfl, htarget, hsock, hreport⟩,
                  hfree, target, localIp, rfl, rfl⟩)
              · refine Or.inl ⟨rfl, ?_, Or.inl rfl⟩
                rintro fd' ⟨_, _, report', ha, -, -, hreport'⟩
                obtain ⟨-, -, rfl⟩ := ConnectOutcome.connected.inj ha
                exact hreport hreport'

/-- The two ways through `writev`. -/
theorem writev_cases {sock ret : Int} {message : List UInt8} {o : WriteOutcome}
    (h : n.writev sock message o = some (ret, n')) :
    ret = o.ret message.length ∧
    ((∃ errno, o = .error errno ∧ n' = n) ∨
      ∃ k c, o = .wrote k ∧ n.connection sock = some c ∧
        n' = n.setFd sock (some (.connection { c with sent := c.sent ++ message.take k }))) := by
  unfold writev at h
  split at h
  case h_1 errno =>
    obtain ⟨rfl, rfl⟩ := Prod.mk.inj (Option.some.inj h)
    exact ⟨rfl, Or.inl ⟨errno, rfl, rfl⟩⟩
  case h_2 k c hc =>
    obtain ⟨rfl, rfl⟩ := Prod.mk.inj (Option.some.inj h)
    exact ⟨rfl, Or.inr ⟨k, c, rfl, hc, rfl⟩⟩
  case h_3 => cases h

end Node

namespace Sender

variable {x x' : Sender} {n n' : Node}

/-- A call begins where none is under way, and nowhere else. -/
theorem eq_of_begins {α : Type} {call : Option Sender} {a b : α}
    (h : (match call with
      | none => some a
      | some x =>
          match x.phase with
          | .returned | .threw _ => some a
          | _ => none) = some b) : b = a := by
  split at h
  case h_1 => exact (Option.some.inj h).symm
  case h_2 =>
    split at h
    case h_1 | h_2 => exact (Option.some.inj h).symm
    case h_3 => cases h

theorem enter_ne_holding (retry sock r : Int) : SendPhase.enter retry ≠ .holding sock r := by
  unfold SendPhase.enter
  split <;> exact SendPhase.noConfusion

theorem retryOr_ne_holding (retry sock r : Int) (what : String) :
    SendPhase.retryOr retry what ≠ .holding sock r := by
  unfold SendPhase.retryOr
  split
  · exact SendPhase.noConfusion
  · exact enter_ne_holding _ _ _

theorem getSendSocket_cases {a : ConnectOutcome} (h : x.getSendSocket n a = some (x', n')) :
    x'.rank = x.rank ∧ x'.data = x.data ∧ ∃ retry sock, x.phase = .looping retry ∧
      n.getSendSocket x.rank a = some (sock, n') ∧
      ((sock < 0 ∧ ∃ what, x'.phase = .retryOr retry what) ∨
        (¬ sock < 0 ∧ x'.phase = .holding sock retry)) := by
  unfold getSendSocket at h
  split at h
  case h_2 => cases h
  case h_1 retry hphase =>
    cases hget : n.getSendSocket x.rank a with
    | none =>
        rw [hget] at h
        cases h
    | some r =>
        obtain ⟨sock, m⟩ := r
        rw [hget] at h
        dsimp only at h
        by_cases hneg : sock < 0
        · rw [if_pos hneg] at h
          obtain ⟨rfl, rfl⟩ := Prod.mk.inj (Option.some.inj h)
          exact ⟨rfl, rfl, retry, sock, hphase, rfl, Or.inl ⟨hneg, _, rfl⟩⟩
        · rw [if_neg hneg] at h
          obtain ⟨rfl, rfl⟩ := Prod.mk.inj (Option.some.inj h)
          exact ⟨rfl, rfl, retry, sock, hphase, rfl, Or.inr ⟨hneg, rfl⟩⟩

theorem writev_cases {o : WriteOutcome} (h : x.writev n o = some (x', n')) :
    x'.rank = x.rank ∧ x'.data = x.data ∧ ∃ sock retry, x.phase = .holding sock retry ∧
      n.writev sock (normalMessage x.data) o =
        some (o.ret (normalMessage x.data).length, n') ∧
      ((o.ret (normalMessage x.data).length < 0 ∧ x'.phase = .clearing sock retry o.errno) ∨
        (0 ≤ o.ret (normalMessage x.data).length ∧
          o.ret (normalMessage x.data).length < (normalMessage x.data).length ∧
          ∃ e, x'.phase = .threw e) ∨
        (¬ o.ret (normalMessage x.data).length < (normalMessage x.data).length ∧
          x'.phase = .returned)) := by
  unfold writev at h
  split at h
  case h_2 => cases h
  case h_1 sock retry hphase =>
    cases hwrite : n.writev sock (normalMessage x.data) o with
    | none =>
        rw [hwrite] at h
        cases h
    | some r =>
        obtain ⟨ret, m⟩ := r
        obtain ⟨rfl, -⟩ := Node.writev_cases hwrite
        rw [hwrite] at h
        dsimp only at h
        by_cases hneg : o.ret (normalMessage x.data).length < 0
        · rw [if_pos hneg] at h
          obtain ⟨rfl, rfl⟩ := Prod.mk.inj (Option.some.inj h)
          exact ⟨rfl, rfl, sock, retry, hphase, hwrite, Or.inl ⟨hneg, rfl⟩⟩
        · rw [if_neg hneg] at h
          by_cases hshort :
              o.ret (normalMessage x.data).length < (normalMessage x.data).length
          · rw [if_pos hshort] at h
            obtain ⟨rfl, rfl⟩ := Prod.mk.inj (Option.some.inj h)
            exact ⟨rfl, rfl, sock, retry, hphase, hwrite,
              Or.inr (Or.inl ⟨Int.not_lt.mp hneg, hshort, _, rfl⟩)⟩
          · rw [if_neg hshort] at h
            obtain ⟨rfl, rfl⟩ := Prod.mk.inj (Option.some.inj h)
            exact ⟨rfl, rfl, sock, retry, hphase, hwrite, Or.inr (Or.inr ⟨hshort, rfl⟩)⟩

theorem clearSendSocket_cases (h : x.clearSendSocket n = some (x', n')) :
    x'.rank = x.rank ∧ x'.data = x.data ∧ n' = n.clearSendSocket x.rank ∧
      ∃ sock retry errno, x.phase = .clearing sock retry errno ∧
        ∃ what, x'.phase = .retryOr retry what := by
  unfold clearSendSocket at h
  split at h
  case h_2 => cases h
  case h_1 sock retry errno hphase =>
    obtain ⟨rfl, rfl⟩ := Prod.mk.inj (Option.some.inj h)
    exact ⟨rfl, rfl, rfl, sock, retry, errno, hphase, _, rfl⟩

end Sender

end Npp.Network
