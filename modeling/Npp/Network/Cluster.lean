import Npp.Foundation.Duplex
import Npp.Network.RankReport
import Npp.Network.Send
import Mathlib.Data.List.Nodup

/-!
# Nodes that send to each other

Any number of nodes, each with its descriptors, its registry, its threads in `sendMessage` and its
epoll thread, joined by the connections that `getSendSocket` opens and `accept` completes. A
connection is used in both directions: its opener writes to it, and the node that accepted it writes
to it once the opener's rank report has entered it. Bytes that are written at one end come to the
other, where they wait to be read.
-/

namespace Npp.Network

open Npp.Foundation

/-- The nodes, and who listens at an address in network byte order. -/
structure Cluster (ι : Type) where
  rank : ι → Int
  isInt : ∀ i, -2 ^ 31 ≤ rank i ∧ rank i < 2 ^ 31
  port : ι → UInt16
  listens : UInt32 × UInt16 → Option ι

/-- An end of a connection is a node and a descriptor. `backlog` has the connections that wait for
`accept`, `sentTo` the contents that were written with the ranks they were for, and `processed` what
`processMessage` was given. -/
structure ClusterState (ι θ : Type) where
  services : ι → ServiceState θ
  peer : ι × Int → Option (ι × Int) := fun _ => none
  backlog : List ((ι × Int) × ι) := []
  sentTo : ι × Int → List (Int × List UInt8) := fun _ => []
  processed : ι × Int → List (List UInt8) := fun _ => []

def Node.opens (n : Node) (rank : Int) : ConnectOutcome → Option Int
  | .connected fd _ report =>
      (n.socks rank).bind fun target =>
        if 0 < target.sock then none else if n.Reported report then some fd else none
  | _ => none

namespace ClusterState

variable {ι θ : Type} [DecidableEq ι] [DecidableEq θ]

inductive Label (ι θ : Type) where
  | registerTarget (i : ι) (rank : Int) (ip : UInt32) (port : UInt16)
  | sendMessage (i : ι) (t : θ) (rank : Int) (data : List UInt8) (retry : Int)
  | getSendSocket (i : ι) (t : θ) (a : ConnectOutcome)
  | writev (i : ι) (t : θ) (o : WriteOutcome)
  | clearSendSocket (i : ι) (t : θ)
  | accept (i : ι) (b : Nat) (connfd : Int) (localIp : UInt32)
  | readable (i : ι) (fd : Int) (o : Oracle)

def conn (s : ClusterState ι θ) (e : ι × Int) : Option Connection :=
  (s.services e.1).node.connection e.2

def setService (s : ClusterState ι θ) (i : ι) (v : ServiceState θ) : ClusterState ι θ :=
  { s with services := Function.update s.services i v }

def own (s : ClusterState ι θ) (i : ι) (l : ServiceState.Label θ) : Option (ClusterState ι θ) :=
  ((s.services i).step l).map (s.setService i)

/-- Bytes that were written at `e` come to the other end. -/
def carry (s : ClusterState ι θ) (e : ι × Int) (bytes : List UInt8) :
    Option (ClusterState ι θ) :=
  match s.peer e with
  | none => some s
  | some e' => s.own e'.1 (.peerSends e'.2 bytes)

/-- A frame that was written whole. -/
def record (s : ClusterState ι θ) (e : ι × Int) (x : Sender) (o : WriteOutcome) :
    ClusterState ι θ :=
  if o.written (normalMessage x.data) = normalMessage x.data then
    { s with sentTo := Function.update s.sentTo e (s.sentTo e ++ [(x.rank, x.data)]) }
  else s

def join (s : ClusterState ι θ) (b : Nat) (e e' : ι × Int) : ClusterState ι θ :=
  { s with
    peer := Function.update (Function.update s.peer e (some e')) e' (some e)
    backlog := s.backlog.eraseIdx b }

def step (C : Cluster ι) (s : ClusterState ι θ) : Label ι θ → Option (ClusterState ι θ)
  | .registerTarget i rank ip port => s.own i (.registerTarget rank ip port)
  | .sendMessage i t rank data retry => s.own i (.sendMessage t rank data retry)
  | .getSendSocket i t a =>
      ((s.services i).senders t).bind fun x =>
      (s.own i (.getSendSocket t a)).bind fun s' =>
        match (s.services i).node.opens x.rank a with
        | none => some s'
        | some fd =>
            -- `connect` succeeds where somebody listens, and `accept` does not get a connection
            -- that was closed at once
            (((s.services i).node.connectAddress x.rank).bind C.listens).map fun j =>
              { s' with backlog := s'.backlog ++ [((i, fd), j)] }
  | .writev i t o =>
      ((s.services i).senders t).bind fun x =>
      x.holds.bind fun sock =>
      (s.own i (.writev t o)).bind fun s' =>
        (s'.record (i, sock) x o).carry (i, sock) (o.written (normalMessage x.data))
  | .clearSendSocket i t => s.own i (.clearSendSocket t)
  | .accept i b connfd localIp =>
      (s.backlog[b]?).bind fun p =>
        if p.2 = i then
          (s.own i (.accept connfd localIp)).bind fun s' =>
            (s'.join b p.1 (i, connfd)).carry p.1 (((s.conn p.1).map (·.sent)).getD [])
        else none
  | .readable i fd o =>
      (s.conn (i, fd)).bind fun c =>
      (s.own i (.readable fd o)).map fun s' =>
        let processed := s'.processed (i, fd) ++ (handleEvent o c.unread).action.processed
        { s' with processed := Function.update s'.processed (i, fd) processed }

def machine (C : Cluster ι) (θ : Type) [DecidableEq θ] :
    Machine (ClusterState ι θ) (Label ι θ) where
  init := { services := fun i => { node := { myRank := C.rank i, listenPort := C.port i } } }
  step := step C

/-- Messages can be told by their heads, and heads and verify codes are read whole. -/
def Label.Whole : Label ι θ → Prop
  | .sendMessage _ _ _ data _ => 0 < data.length ∧ data.length < 2 ^ 32
  | .readable _ _ o => o.Full
  | _ => True

/-- Whoever listens at the address of a target has its rank, and a `writev` takes a message whole or
not at all. -/
def Addressed (C : Cluster ι) (s : ClusterState ι θ) : Label ι θ → Prop
  | .getSendSocket i t a =>
      ∀ x ∈ (s.services i).senders t, ∀ _fd ∈ (s.services i).node.opens x.rank a,
        ∀ j ∈ ((s.services i).node.connectAddress x.rank).bind C.listens, C.rank j = x.rank
  | .writev i t (.wrote k) =>
      ∀ x ∈ (s.services i).senders t, (normalMessage x.data).length ≤ k
  | _ => True

instance (C : Cluster ι) (s : ClusterState ι θ) : ∀ l, Decidable (Addressed C s l)
  | .getSendSocket i t _ => inferInstanceAs (Decidable (∀ x ∈ (s.services i).senders t, _))
  | .writev i t (.wrote _) => inferInstanceAs (Decidable (∀ x ∈ (s.services i).senders t, _))
  | .writev _ _ (.error _) | .registerTarget .. | .sendMessage .. | .clearSendSocket ..
  | .accept .. | .readable .. => .isTrue trivial

def Orderly (C : Cluster ι) (s : ClusterState ι θ) (l : Label ι θ) : Prop :=
  l.Whole ∧ Addressed C s l

end ClusterState

/-! ## What a step of one node does -/

theorem Node.opens_eq_some {n : Node} {rank fd : Int} {a : ConnectOutcome} :
    n.opens rank a = some fd ↔ n.Opens rank a fd := by
  cases a with
  | noSocket =>
      constructor
      · rintro ⟨⟩
      · rintro ⟨_, _, _, ⟨⟩, -⟩
  | refused fd' =>
      constructor
      · rintro ⟨⟩
      · rintro ⟨_, _, _, ⟨⟩, -⟩
  | connected fd' localIp report =>
      simp only [opens, Option.bind_eq_some_iff, Option.ite_none_left_eq_some,
        Option.ite_none_right_eq_some, Option.some.injEq]
      constructor
      · rintro ⟨target, htarget, hsock, hreport, rfl⟩
        exact ⟨target, localIp, report, rfl, htarget, hsock, hreport⟩
      · rintro ⟨target, _, _, ha, htarget, hsock, hreport⟩
        obtain ⟨rfl, rfl, rfl⟩ := ConnectOutcome.connected.inj ha
        exact ⟨target, htarget, hsock, hreport, rfl⟩

namespace ServiceState

variable {θ : Type} [DecidableEq θ] {v v' : ServiceState θ}

/-- An entry of `socks` or a call of `sendMessage` takes the descriptor for one of the rank. -/
def Points (v : ServiceState θ) (rank fd : Int) : Prop :=
  v.node.name rank = some fd ∨ v.Holds rank fd

structure Stays (v v' : ServiceState θ) : Prop where
  connection : v'.node.connection = v.node.connection
  points : ∀ rank fd, v'.Points rank fd → v.Points rank fd

/-- The connection of `fd` becomes `c`, and only the ranks `who` get to it. -/
structure Changes (v v' : ServiceState θ) (fd : Int) (c : Connection) (who : Int → Prop) :
    Prop where
  connection : v'.node.connection = Function.update v.node.connection fd (some c)
  points : ∀ rank j, v'.Points rank j → v.Points rank j ∨ (j = fd ∧ who rank)

theorem stays_registerTarget {rank : Int} {ip : UInt32} {port : UInt16}
    (h : v.step (.registerTarget rank ip port) = some v') : Stays v v' := by
  cases transition_of_step h
  refine ⟨Node.connection_eq_of_fds (Node.registerTarget_fds _ ip port), ?_⟩
  rintro r fd (hname | hheld)
  · exact Or.inl (Node.name_registerTarget hname)
  · exact Or.inr hheld

theorem stays_sendMessage {t : θ} {rank : Int} {data : List UInt8} {retry : Int}
    (h : v.step (.sendMessage t rank data retry) = some v') : Stays v v' := by
  cases transition_of_step h
  refine ⟨rfl, ?_⟩
  rintro r fd (hname | hheld)
  · exact Or.inl hname
  · rcases holds_setSender hheld with hheld | ⟨-, retry', hphase⟩
    · exact Or.inr hheld
    · exact absurd hphase (Sender.enter_ne_holding _ _ _)

theorem stays_clearSendSocket {t : θ} (h : v.step (.clearSendSocket t) = some v') :
    Stays v v' := by
  cases transition_of_step h with
  | clearSendSocket _ x x' n' _ hr =>
      obtain ⟨-, -, rfl, _, _, _, -, what, hphase⟩ := Sender.clearSendSocket_cases hr
      refine ⟨Node.connection_eq_of_fds (Node.clearSendSocket_fds _), ?_⟩
      rintro r fd (hname | hheld)
      · exact Or.inl (Node.name_clearSendSocket hname)
      · rcases holds_setSender hheld with hheld | ⟨-, retry', hholding⟩
        · exact Or.inr hheld
        · rw [hphase] at hholding
          exact absurd hholding (Sender.retryOr_ne_holding _ _ _ _)

/-- `getSendSocket` opens a connection, or changes none. -/
theorem getSendSocket_effect {t : θ} {x : Sender} {a : ConnectOutcome} (hx : v.senders t = some x)
    (h : v.step (.getSendSocket t a) = some v') :
    (v.node.opens x.rank a = none ∧ Stays v v') ∨
    ∃ fd localIp, v.node.opens x.rank a = some fd ∧ v.node.connection fd = none ∧
      Changes v v' fd (v.node.opened x.rank localIp) (· = x.rank) := by
  cases transition_of_step h with
  | getSendSocket _ _ y x' n' hy hr =>
      obtain rfl := Option.some.inj (hx.symm.trans hy)
      obtain ⟨hrank, -, retry, sock, -, hget, hphase'⟩ := Sender.getSendSocket_cases hr
      have hheld : ∀ k j, (v.setSender t (x', n')).Holds k j →
          v.Holds k j ∨ (j = sock ∧ k = x.rank ∧ ¬ sock < 0) :=
        fun k j => holds_getSendSocket hrank hphase'
      have hnone : (∀ fd, ¬ v.node.Opens x.rank a fd) → v.node.opens x.rank a = none := by
        intro hno
        cases hopens : v.node.opens x.rank a with
        | none => rfl
        | some fd => exact absurd (Node.opens_eq_some.mp hopens) (hno fd)
      rcases Node.getSendSocket_cases hget with ⟨rfl, hno, hnode⟩ |
        ⟨hno, ⟨target, htarget, hpos, rfl⟩, rfl⟩ |
        ⟨hopens, hfree, target, localIp, -, rfl⟩
      · -- no socket: at most a descriptor without a connection is left over
        have hsame : n'.connection = v.node.connection ∧ n'.socks = v.node.socks := by
          rcases hnode with rfl | ⟨fd, hfree, rfl⟩
          · exact ⟨rfl, rfl⟩
          · exact ⟨Node.connection_setUnconnected hfree, rfl⟩
        refine Or.inl ⟨hnone hno, hsame.1, ?_⟩
        rintro r fd (hname | hheld')
        · left
          change n'.name r = some fd at hname
          rw [Node.name, hsame.2] at hname
          exact hname
        · rcases hheld r fd hheld' with hheld' | ⟨-, -, hneg⟩
          · exact Or.inr hheld'
          · exact absurd (by decide) hneg
      · -- the socket of the entry
        refine Or.inl ⟨hnone hno, rfl, ?_⟩
        rintro r fd (hname | hheld')
        · exact Or.inl hname
        · rcases hheld r fd hheld' with hheld' | ⟨rfl, rfl, -⟩
          · exact Or.inr hheld'
          · exact Or.inl (Node.name_eq_some.mpr ⟨target, htarget, rfl, hpos⟩)
      · refine Or.inr ⟨sock, localIp, Node.opens_eq_some.mpr hopens, hfree.connection,
          Node.connection_connected _ _ _ _, ?_⟩
        rintro r fd (hname | hheld')
        · rcases Node.name_setTarget hname with hname | ⟨rfl, rfl, -⟩
          · exact Or.inl (Or.inl hname)
          · exact Or.inr ⟨rfl, rfl⟩
        · rcases hheld r fd hheld' with hheld' | ⟨rfl, rfl, -⟩
          · exact Or.inl (Or.inr hheld')
          · exact Or.inr ⟨rfl, rfl⟩

/-- `writev` fails, or adds to the connection that the call holds. -/
theorem writev_effect {t : θ} {x : Sender} {sock : Int} {o : WriteOutcome}
    (hx : v.senders t = some x) (hholds : x.holds = some sock)
    (h : v.step (.writev t o) = some v') :
    v.Holds x.rank sock ∧
    ((o.written (normalMessage x.data) = [] ∧ Stays v v') ∨
      ∃ k c, o = .wrote k ∧ v.node.connection sock = some c ∧
        Changes v v' sock { c with sent := c.sent ++ (normalMessage x.data).take k }
          (fun _ => False)) := by
  cases transition_of_step h with
  | writev _ _ y x' n' hy hr =>
      obtain rfl := Option.some.inj (hx.symm.trans hy)
      obtain ⟨-, -, sock', retry, hphase, hwrite, hphase'⟩ := Sender.writev_cases hr
      obtain rfl : sock' = sock := by
        rw [Sender.holds, hphase] at hholds
        exact Option.some.inj hholds
      refine ⟨⟨t, x, retry, hx, rfl, hphase⟩, ?_⟩
      have hheld : ∀ k j, ServiceState.Holds { v.setSender t (x', n') with
          written := v.written ++ destination v.node x o } k j → v.Holds k j := by
        intro k j hk
        rcases holds_setSender (s := v) hk with hk | ⟨-, r, hholding⟩
        · exact hk
        · exfalso
          change x'.phase = _ at hholding
          rcases hphase' with ⟨-, hp⟩ | ⟨-, -, e, hp⟩ | ⟨-, hp⟩
          · rw [hp] at hholding
            cases hholding
          · rw [hp] at hholding
            cases hholding
          · rw [hp] at hholding
            cases hholding
      obtain ⟨-, ⟨errno, rfl, rfl⟩ | ⟨k, c, rfl, hc, rfl⟩⟩ := Node.writev_cases hwrite
      · refine Or.inl ⟨rfl, rfl, ?_⟩
        rintro r fd (hname | hheld')
        · exact Or.inl hname
        · exact Or.inr (hheld r fd hheld')
      · refine Or.inr ⟨k, c, rfl, hc, Node.connection_setConnection _ _, ?_⟩
        rintro r fd (hname | hheld')
        · exact Or.inl (Or.inl hname)
        · exact Or.inl (Or.inr (hheld r fd hheld'))

theorem accept_effect {connfd : Int} {localIp : UInt32}
    (h : v.step (.accept connfd localIp) = some v') :
    v.node.connection connfd = none ∧
      Changes v v' connfd { localIp := localIp } (fun _ => False) := by
  cases transition_of_step h with
  | accept _ _ hfree =>
      refine ⟨hfree.connection, Node.connection_setConnection _ _, ?_⟩
      rintro r fd (hname | hheld)
      · exact Or.inl (Or.inl hname)
      · exact Or.inl (Or.inr hheld)

theorem peerSends_effect {fd : Int} {bytes : List UInt8}
    (h : v.step (.peerSends fd bytes) = some v') :
    ∃ c, v.node.connection fd = some c ∧
      Changes v v' fd { c with unread := c.unread ++ bytes } (fun _ => False) := by
  cases transition_of_step h with
  | peerSends _ _ c hc =>
      refine ⟨c, hc, Node.connection_setConnection _ _, ?_⟩
      rintro r j (hname | hheld)
      · exact Or.inl (Or.inl hname)
      · exact Or.inl (Or.inr hheld)

/-- An event on an open connection that has a frame in front. -/
theorem readable_effect {fd : Int} {o : Oracle} {c : Connection} {rest : List UInt8}
    {action : Action} (hc : v.node.connection fd = some c)
    (hevent : handleEvent o c.unread = { rest := rest, action := action })
    (h : v.step (.readable fd o) = some v') :
    Changes v v' fd { c with unread := rest, reported := c.reported ++ action.ranks }
      (· ∈ action.ranks) := by
  cases transition_of_step h with
  | readable _ _ c' hc' =>
      obtain rfl := Option.some.inj (hc.symm.trans hc')
      rw [hevent]
      refine ⟨Node.connection_handle, ?_⟩
      rintro r j (hname | hheld)
      · rcases Node.name_handle.mp hname with hname | ⟨hrank, -, hj, -⟩
        · exact Or.inl (Or.inl hname)
        · exact Or.inr ⟨hj, hrank⟩
      · exact Or.inl (Or.inr hheld)

/-- An event takes place only where something can be read. -/
theorem readable_unread {fd : Int} {o : Oracle} {c : Connection} (hfull : o.Full)
    (hc : v.node.connection fd = some c) (h : v.step (.readable fd o) = some v') :
    c.unread ≠ [] := by
  cases transition_of_step h with
  | readable _ _ c' hc' _ hreturned =>
      obtain rfl := Option.some.inj (hc.symm.trans hc')
      intro hnil
      obtain ⟨k, -, hhead⟩ := hfull.head
      simp [handleEvent, sysRead, hhead, hnil] at hreturned

theorem myRank_getSendSocket {n n' : Node} {rank sock : Int} {a : ConnectOutcome}
    (h : n.getSendSocket rank a = some (sock, n')) : n'.myRank = n.myRank := by
  rcases Node.getSendSocket_cases h with ⟨-, -, rfl | ⟨fd, -, rfl⟩⟩ | ⟨-, -, rfl⟩ |
    ⟨-, -, target, localIp, -, rfl⟩ <;> rfl

theorem myRank_insert (n : Node) (rank : Int) (target : Target) :
    (n.insert rank target).myRank = n.myRank := by
  unfold Node.insert
  split <;> rfl

theorem myRank_handle (n : Node) (fd : Int) (c : Connection) (handled : Handled) :
    (n.handle fd c handled).myRank = n.myRank := by
  obtain ⟨rest, closed, action, fate⟩ := handled
  cases action with
  | none => rfl
  | process content => rfl
  | insertRank rank port => exact myRank_insert _ _ _

/-- A node keeps its rank. -/
theorem myRank_step {l : Label θ} (h : v.step l = some v') : v'.node.myRank = v.node.myRank := by
  cases transition_of_step h with
  | registerTarget rank ip port =>
      show (v.node.registerTarget rank ip port).myRank = _
      unfold Node.registerTarget
      split <;> rfl
  | sendMessage => rfl
  | getSendSocket t a x x' n' call got =>
      obtain ⟨-, -, retry, sock, -, hget, -⟩ := Sender.getSendSocket_cases got
      exact myRank_getSendSocket hget
  | writev t o x x' n' call wrote =>
      obtain ⟨-, -, sock, retry, -, hwrite, -⟩ := Sender.writev_cases wrote
      obtain ⟨-, ⟨errno, -, rfl⟩ | ⟨k, c, -, -, rfl⟩⟩ := Node.writev_cases hwrite <;> rfl
  | clearSendSocket t x x' n' call cleared =>
      obtain ⟨-, -, rfl, -⟩ := Sender.clearSendSocket_cases cleared
      show (v.node.clearSendSocket x.rank).myRank = _
      unfold Node.clearSendSocket
      split <;> rfl
  | accept | peerSends | peerDisconnects => rfl
  | readable => exact myRank_handle _ _ _ _

/-- What the calls were given, after a step of one of them. -/
theorem data_setSender {P : List UInt8 → Prop} (h : ∀ t x, v.senders t = some x → P x.data)
    {t : θ} {r : Sender × Node} (hr : P r.1.data) :
    ∀ t' x, (v.setSender t r).senders t' = some x → P x.data := by
  intro t' x hx
  rcases FileTable.update_eq_some.mp hx with ⟨-, hnew⟩ | ⟨-, hold⟩
  · obtain rfl := Option.some.inj hnew
    exact hr
  · exact h t' x hold

/-- The data of a call are those that `sendMessage` was given. -/
theorem data_step {P : List UInt8 → Prop} {l : Label θ}
    (h : ∀ t x, v.senders t = some x → P x.data)
    (hl : ∀ t rank data retry, l = .sendMessage t rank data retry → P data)
    (hstep : v.step l = some v') : ∀ t x, v'.senders t = some x → P x.data := by
  cases transition_of_step hstep with
  | sendMessage t rank data retry => exact data_setSender h (hl t rank data retry rfl)
  | getSendSocket t a x x' n' call got =>
      obtain ⟨-, hdata, -⟩ := Sender.getSendSocket_cases got
      exact data_setSender h (hdata ▸ h t x call)
  | writev t o x x' n' call wrote =>
      obtain ⟨-, hdata, -⟩ := Sender.writev_cases wrote
      exact data_setSender h (r := (x', n')) (hdata ▸ h t x call)
  | clearSendSocket t x x' n' call cleared =>
      obtain ⟨-, hdata, -⟩ := Sender.clearSendSocket_cases cleared
      exact data_setSender h (hdata ▸ h t x call)
  | registerTarget | accept | peerSends | peerDisconnects | readable => exact h

end ServiceState

/-! ## The wires -/

namespace ClusterState

variable {ι θ : Type} [DecidableEq ι] [DecidableEq θ] {C : Cluster ι} {s s' : ClusterState ι θ}
  {wrote taken : ι × Int → List Frame}

omit [DecidableEq θ] in
theorem conn_stays {i : ι} {v : ServiceState θ}
    (h : v.node.connection = (s.services i).node.connection) :
    (s.setService i v).conn = s.conn := by
  funext e
  show (Function.update s.services i v e.1).node.connection e.2 = _
  by_cases he : e.1 = i
  · rw [he, Function.update_self, h, conn, he]
  · rw [Function.update_of_ne he]
    rfl

omit [DecidableEq θ] in
theorem conn_changes {i : ι} {v : ServiceState θ} {fd : Int} {c : Option Connection}
    (h : v.node.connection = Function.update (s.services i).node.connection fd c) :
    (s.setService i v).conn = Function.update s.conn (i, fd) c := by
  funext e
  obtain ⟨j, k⟩ := e
  show (Function.update s.services i v j).node.connection k = _
  by_cases hj : j = i
  · subst hj
    rw [Function.update_self, h]
    by_cases hk : k = fd
    · subst hk
      rw [Function.update_self, Function.update_self]
    · have hne : (j, k) ≠ (j, fd) := fun heq => hk (Prod.mk.inj heq).2
      rw [Function.update_of_ne hk, Function.update_of_ne hne]
      rfl
  · have hne : (j, k) ≠ (i, fd) := fun heq => hj (Prod.mk.inj heq).1
    rw [Function.update_of_ne hj, Function.update_of_ne hne]
    rfl

def sentAt (conn : ι × Int → Option Connection) (e : ι × Int) : List UInt8 :=
  ((conn e).map (·.sent)).getD []

def unreadAt (conn : ι × Int → Option Connection) (e : ι × Int) : List UInt8 :=
  ((conn e).map (·.unread)).getD []

omit [DecidableEq ι] in
theorem sentAt_some {conn : ι × Int → Option Connection} {e : ι × Int} {c : Connection}
    (h : conn e = some c) : sentAt conn e = c.sent := by
  rw [sentAt, h]
  rfl

omit [DecidableEq ι] in
theorem unreadAt_some {conn : ι × Int → Option Connection} {e : ι × Int} {c : Connection}
    (h : conn e = some c) : unreadAt conn e = c.unread := by
  rw [unreadAt, h]
  rfl

theorem sentAt_update (conn : ι × Int → Option Connection) (e : ι × Int) (c : Connection) :
    sentAt (Function.update conn e (some c)) = Function.update (sentAt conn) e c.sent := by
  funext j
  by_cases hj : j = e
  · subst hj
    simp only [sentAt, Function.update_self, Option.map_some, Option.getD_some]
  · simp only [sentAt, Function.update_of_ne hj]

theorem unreadAt_update (conn : ι × Int → Option Connection) (e : ι × Int) (c : Connection) :
    unreadAt (Function.update conn e (some c)) = Function.update (unreadAt conn) e c.unread := by
  funext j
  by_cases hj : j = e
  · subst hj
    simp only [unreadAt, Function.update_self, Option.map_some, Option.getD_some]
  · simp only [unreadAt, Function.update_of_ne hj]

/-- An update opens its end and closes none. -/
theorem update_ne_none {conn : ι × Int → Option Connection} {e j : ι × Int}
    {c : Connection} (h : conn j ≠ none ∨ j = e) : Function.update conn e (some c) j ≠ none := by
  by_cases hj : j = e
  · subst hj
    rw [Function.update_self]
    exact Option.some_ne_none _
  · rw [Function.update_of_ne hj]
    exact h.resolve_right hj

def duplex (s : ClusterState ι θ) : Duplex (ι × Int) UInt8 :=
  ⟨s.peer, sentAt s.conn, unreadAt s.conn⟩

/-- The end belongs to a connection to the rank, accepted or not. -/
def Leads (C : Cluster ι) (s : ClusterState ι θ) (e : ι × Int) (rank : Int) : Prop :=
  (∃ e', s.peer e = some e' ∧ C.rank e'.1 = rank) ∨ ∃ j, (e, j) ∈ s.backlog ∧ C.rank j = rank

/-- The invariant: every connection carries frames in both directions, and whatever a node takes for
a connection to a rank is one. -/
structure Routed (C : Cluster ι) (s : ClusterState ι θ) (wrote taken : ι × Int → List Frame) :
    Prop where
  framed : s.duplex.Framed Frame.bytes wrote taken
  processed : ∀ e, s.processed e = contents (taken e)
  sentTo : ∀ e, contents (wrote e) = (s.sentTo e).map Prod.snd
  reports : ∀ e rank port, .rankReport rank port ∈ wrote e → rank = C.rank e.1
  linked : ∀ e e', s.peer e = some e' → s.conn e ≠ none
  waiting : ∀ p ∈ s.backlog, s.conn p.1 ≠ none ∧ s.peer p.1 = none
  once : (s.backlog.map Prod.fst).Nodup
  aimed : ∀ i rank fd, (s.services i).Points rank fd → s.Leads C (i, fd) rank
  meant : ∀ e m, m ∈ s.sentTo e → s.Leads C e m.1
  myRank : ∀ i, (s.services i).node.myRank = C.rank i
  data : ∀ i t x, (s.services i).senders t = some x → 0 < x.data.length ∧ x.data.length < 2 ^ 32

/-- What one node does to its own rank and calls. -/
theorem Routed.local (h : Routed C s wrote taken) {i : ι} {l : ServiceState.Label θ}
    {v : ServiceState θ} (hl : ∀ t rank data retry, l = .sendMessage t rank data retry →
      0 < data.length ∧ data.length < 2 ^ 32)
    (hstep : (s.services i).step l = some v) :
    (∀ j, ((s.setService i v).services j).node.myRank = C.rank j) ∧
    ∀ j t x, ((s.setService i v).services j).senders t = some x →
      0 < x.data.length ∧ x.data.length < 2 ^ 32 := by
  constructor
  · intro j
    show (Function.update s.services i v j).node.myRank = _
    by_cases hj : j = i
    · subst hj
      rw [Function.update_self, ServiceState.myRank_step hstep, h.myRank]
    · rw [Function.update_of_ne hj, h.myRank]
  · intro j t x hx
    change (Function.update s.services i v j).senders t = some x at hx
    by_cases hj : j = i
    · subst hj
      rw [Function.update_self] at hx
      exact ServiceState.data_step (P := fun data => 0 < data.length ∧ data.length < 2 ^ 32)
        (h.data j) hl hstep t x hx
    · rw [Function.update_of_ne hj] at hx
      exact h.data j t x hx

omit [DecidableEq θ] in
/-- Who gets to which descriptor after a step of one node. -/
theorem points_setService {i : ι} {v : ServiceState θ} {fd : Int} {who : Int → Prop}
    (hpoints : ∀ rank j, v.Points rank j → (s.services i).Points rank j ∨ (j = fd ∧ who rank))
    {j : ι} {rank k : Int} (h : ((s.setService i v).services j).Points rank k) :
    (s.services j).Points rank k ∨ ((j, k) = (i, fd) ∧ who rank) := by
  change (Function.update s.services i v j).Points rank k at h
  by_cases hj : j = i
  · subst hj
    rw [Function.update_self] at h
    rcases hpoints rank k h with hold | ⟨rfl, hwho⟩
    · exact Or.inl hold
    · exact Or.inr ⟨rfl, hwho⟩
  · rw [Function.update_of_ne hj] at h
    exact Or.inl h

/-- A step that changes no connection. -/
theorem Routed.stays (h : Routed C s wrote taken) {i : ι} {l : ServiceState.Label θ}
    {v : ServiceState θ} (hl : ∀ t rank data retry, l = .sendMessage t rank data retry →
      0 < data.length ∧ data.length < 2 ^ 32)
    (hstep : (s.services i).step l = some v) (hstays : (s.services i).Stays v) :
    Routed C (s.setService i v) wrote taken := by
  have hconn := conn_stays (s := s) hstays.connection
  obtain ⟨hranks, hdata⟩ := h.local hl hstep
  have hduplex : (s.setService i v).duplex = s.duplex := by
    rw [duplex, hconn]
    rfl
  refine ⟨?_, h.processed, h.sentTo, h.reports, ?_, ?_, h.once, ?_, h.meant, hranks, hdata⟩
  · rw [hduplex]
    exact h.framed
  · rw [hconn]
    exact h.linked
  · rw [hconn]
    exact h.waiting
  · intro j rank fd hpoints
    have hsame : ∀ r k, v.Points r k → (s.services i).Points r k ∨ k = 0 ∧ False :=
      fun r k hk => Or.inl (hstays.points r k hk)
    rcases points_setService hsame hpoints with hold | ⟨-, hno⟩
    · exact h.aimed j rank fd hold
    · exact hno.elim

/-! ## What each step keeps -/

omit [DecidableEq ι] [DecidableEq θ] in
/-- A connection that has not been opened carries nothing. -/
theorem Routed.unopened (h : Routed C s wrote taken) {e : ι × Int} (he : s.conn e = none) :
    s.peer e = none ∧ wrote e = [] ∧ s.sentTo e = [] := by
  have hsent : s.duplex.sent e = [] := by
    show sentAt s.conn e = []
    rw [sentAt, he]
    rfl
  have hwrote := h.framed.wrote_nil Frame.bytes_ne_nil hsent
  refine ⟨?_, hwrote, ?_⟩
  · cases hpeer : s.peer e with
    | none => rfl
    | some e' => exact absurd he (h.linked e e' hpeer)
  · have hcontents := h.sentTo e
    rw [hwrote] at hcontents
    exact List.map_eq_nil_iff.mp hcontents.symm

omit [DecidableEq ι] [DecidableEq θ] in
/-- What leads to a rank still does when `backlog` grows. -/
theorem Leads.queued {e : ι × Int} {rank : Int} (h : s.Leads C e rank) (p : (ι × Int) × ι) :
    Leads C { s with backlog := s.backlog ++ [p] } e rank := by
  rcases h with hpeer | ⟨j, hj, hrank⟩
  · exact Or.inl hpeer
  · exact Or.inr ⟨j, List.mem_append_left _ hj, hrank⟩

/-- A connection is opened, and its rank report goes out. -/
theorem Routed.opened (h : Routed C s wrote taken) {i j : ι} {t : θ} {x : Sender}
    {a : ConnectOutcome} {v : ServiceState θ} {fd : Int} {localIp : UInt32}
    (hstep : (s.services i).step (.getSendSocket t a) = some v)
    (hnone : (s.services i).node.connection fd = none)
    (hchanges : (s.services i).Changes v fd ((s.services i).node.opened x.rank localIp)
      (· = x.rank)) (hrank : C.rank j = x.rank) :
    Routed C { s.setService i v with backlog := (s.setService i v).backlog ++ [((i, fd), j)] }
      (Function.update wrote (i, fd) (wrote (i, fd) ++
        [.rankReport (s.services i).node.myRank (s.services i).node.listenPort])) taken := by
  have hconn := conn_changes (s := s) hchanges.connection
  obtain ⟨hranks, hdata⟩ := h.local (by rintro _ _ _ _ ⟨⟩) hstep
  obtain ⟨hpeer, hwrote, hsentTo⟩ := h.unopened (e := (i, fd)) hnone
  have hnotin : ∀ p ∈ s.backlog, p.1 ≠ (i, fd) := by
    rintro p hp heq
    exact (h.waiting p hp).1 (heq ▸ hnone)
  have hopened : ∀ e, s.conn e ≠ none → (s.setService i v).conn e ≠ none := by
    intro e he
    rw [hconn]
    exact update_ne_none (Or.inl he)
  refine ⟨?framed, h.processed, ?sentTo, ?reports, ?linked, ?waiting, ?once, ?aimed, ?meant, hranks,
    hdata⟩
  case framed =>
    refine h.framed.write _ rfl ?_ ?_
    · show sentAt (s.setService i v).conn = _
      have hempty : sentAt s.conn (i, fd) = [] := by
        rw [sentAt, show s.conn (i, fd) = none from hnone]
        rfl
      rw [hconn, sentAt_update]
      show _ = Function.update (sentAt s.conn) (i, fd) (sentAt s.conn (i, fd) ++ _)
      rw [hempty, List.nil_append]
      rfl
    · intro k
      show unreadAt (s.setService i v).conn k =
        unreadAt s.conn k ++ if s.peer (i, fd) = some k then _ else []
      rw [hpeer, if_neg (by simp), List.append_nil, hconn, unreadAt_update]
      by_cases hk : k = (i, fd)
      · subst hk
        rw [Function.update_self, unreadAt, show s.conn (i, fd) = none from hnone]
        rfl
      · rw [Function.update_of_ne hk]
  case sentTo =>
    intro e
    by_cases he : e = (i, fd)
    · subst he
      rw [Function.update_self, hwrote]
      show contents [_] = (s.sentTo (i, fd)).map Prod.snd
      rw [hsentTo]
      rfl
    · rw [Function.update_of_ne he]
      exact h.sentTo e
  case reports =>
    intro e rank port hmem
    by_cases he : e = (i, fd)
    · subst he
      rw [Function.update_self, hwrote, List.nil_append, List.mem_singleton] at hmem
      obtain ⟨rfl, -⟩ := Frame.rankReport.inj hmem
      exact h.myRank i
    · rw [Function.update_of_ne he] at hmem
      exact h.reports e rank port hmem
  case linked =>
    intro e e' he
    exact hopened e (h.linked e e' he)
  case waiting =>
    intro p hp
    rcases List.mem_append.mp hp with hp | hp
    · exact ⟨hopened p.1 (h.waiting p hp).1, (h.waiting p hp).2⟩
    · obtain rfl := List.mem_singleton.mp hp
      refine ⟨?_, hpeer⟩
      show (s.setService i v).conn (i, fd) ≠ none
      rw [hconn, Function.update_self]
      exact Option.some_ne_none _
  case once =>
    rw [List.map_append, List.nodup_append]
    refine ⟨h.once, List.nodup_singleton _, ?_⟩
    intro e he e' he' heq
    obtain ⟨p, hp, rfl⟩ := List.mem_map.mp he
    obtain rfl := List.mem_singleton.mp he'
    exact hnotin p hp heq
  case aimed =>
    intro k rank m hpoints
    rcases points_setService hchanges.points hpoints with hold | ⟨heq, rfl⟩
    · exact (h.aimed k rank m hold).queued _
    · exact Or.inr ⟨j, List.mem_append_right _ (heq ▸ List.mem_singleton_self _), hrank⟩
  case meant =>
    intro e m hm
    exact (h.meant e m hm).queued _

/-- `bytes` have come to the other end of `e`, and nothing else has changed. -/
structure Carried (s s' : ClusterState ι θ) (e : ι × Int) (bytes : List UInt8) : Prop where
  peer : s'.peer = s.peer
  backlog : s'.backlog = s.backlog
  sentTo : s'.sentTo = s.sentTo
  processed : s'.processed = s.processed
  sent : sentAt s'.conn = sentAt s.conn
  unread : ∀ j, unreadAt s'.conn j = unreadAt s.conn j ++ if s.peer e = some j then bytes else []
  opened : ∀ j, s.conn j ≠ none → s'.conn j ≠ none
  points : ∀ i rank fd, (s'.services i).Points rank fd → (s.services i).Points rank fd
  myRank : ∀ i, (s'.services i).node.myRank = (s.services i).node.myRank
  senders : ∀ i, (s'.services i).senders = (s.services i).senders

theorem senders_peerSends {v v' : ServiceState θ} {fd : Int} {bytes : List UInt8}
    (h : v.step (.peerSends fd bytes) = some v') : v'.senders = v.senders := by
  cases ServiceState.transition_of_step h
  rfl

theorem carried_of_carry {e : ι × Int} {bytes : List UInt8} (h : s.carry e bytes = some s') :
    Carried s s' e bytes := by
  unfold carry at h
  split at h
  case h_1 hnone =>
    obtain rfl := Option.some.inj h
    refine ⟨rfl, rfl, rfl, rfl, rfl, ?_, fun _ hj => hj, fun _ _ _ hp => hp, fun _ => rfl,
      fun _ => rfl⟩
    intro j
    rw [hnone, if_neg (by simp), List.append_nil]
  case h_2 e' hsome =>
    obtain ⟨v, hstep, rfl⟩ := Option.map_eq_some_iff.mp h
    obtain ⟨c, hc, hchanges⟩ := ServiceState.peerSends_effect hstep
    change s.conn e' = some c at hc
    have hconn : (s.setService e'.1 v).conn =
        Function.update s.conn e' (some { c with unread := c.unread ++ bytes }) :=
      conn_changes hchanges.connection
    refine ⟨rfl, rfl, rfl, rfl, ?sent, ?unread, ?opened, ?points, ?myRank, ?senders⟩
    case sent =>
      rw [hconn, sentAt_update]
      exact Function.update_eq_self_iff.mpr (sentAt_some hc).symm
    case unread =>
      intro j
      rw [hconn, unreadAt_update, hsome]
      by_cases hj : j = e'
      · subst hj
        rw [Function.update_self, if_pos rfl, unreadAt_some hc]
      · rw [Function.update_of_ne hj, if_neg (fun heq => hj (Option.some.inj heq).symm),
          List.append_nil]
    case opened =>
      intro j hj
      rw [hconn]
      exact update_ne_none (Or.inl hj)
    case points =>
      intro i rank fd hpoints
      rcases points_setService hchanges.points hpoints with hold | ⟨-, hno⟩
      · exact hold
      · exact hno.elim
    case myRank =>
      intro i
      show (Function.update s.services e'.1 v i).node.myRank = _
      by_cases hi : i = e'.1
      · subst hi
        rw [Function.update_self, ServiceState.myRank_step hstep]
      · rw [Function.update_of_ne hi]
    case senders =>
      intro i
      show (Function.update s.services e'.1 v i).senders = _
      by_cases hi : i = e'.1
      · subst hi
        rw [Function.update_self, senders_peerSends hstep]
      · rw [Function.update_of_ne hi]

/-- A whole frame is written and carried to the other end. -/
theorem Routed.write (h : Routed C s wrote taken) {i : ι} {t : θ} {x : Sender} {o : WriteOutcome}
    {v : ServiceState θ} {sock : Int} {c : Connection} (content : Content)
    (hcontent : content.bytes = x.data) (hstep : (s.services i).step (.writev t o) = some v)
    (hheld : (s.services i).Holds x.rank sock) (hc : (s.services i).node.connection sock = some c)
    (hchanges : (s.services i).Changes v sock { c with sent := c.sent ++ normalMessage x.data }
      (fun _ => False))
    (hcarried : Carried { s.setService i v with
      sentTo := Function.update s.sentTo (i, sock) (s.sentTo (i, sock) ++ [(x.rank, x.data)]) }
      s' (i, sock) (normalMessage x.data)) :
    Routed C s' (Function.update wrote (i, sock) (wrote (i, sock) ++ [.normal content])) taken := by
  have hconn := conn_changes (s := s) hchanges.connection
  change s.conn (i, sock) = some c at hc
  obtain ⟨hranks, hdata⟩ := h.local (by rintro _ _ _ _ ⟨⟩) hstep
  have hleads : ∀ e rank, s.Leads C e rank → s'.Leads C e rank := by
    intro e rank hleads
    unfold Leads at hleads ⊢
    rw [hcarried.peer, hcarried.backlog]
    exact hleads
  have hopened : ∀ e, s.conn e ≠ none → s'.conn e ≠ none := by
    intro e he
    apply hcarried.opened
    show (s.setService i v).conn e ≠ none
    rw [hconn]
    exact update_ne_none (Or.inl he)
  refine ⟨?framed, ?processed, ?sentTo, ?reports, ?linked, ?waiting, ?once, ?aimed, ?meant, ?myRank,
    ?data⟩
  case framed =>
    refine h.framed.write (.normal content) hcarried.peer ?_ ?_
    · show sentAt s'.conn = Function.update (sentAt s.conn) (i, sock) _
      rw [hcarried.sent]
      show sentAt (s.setService i v).conn = _
      rw [hconn, sentAt_update, ← sentAt_some hc, ← hcontent]
      rfl
    · intro j
      show unreadAt s'.conn j = unreadAt s.conn j ++ _
      rw [hcarried.unread]
      show unreadAt (s.setService i v).conn j ++ _ = _
      rw [hconn, unreadAt_update, Function.update_eq_self_iff.mpr (unreadAt_some hc).symm,
        ← hcontent]
      rfl
  case processed =>
    rw [hcarried.processed]
    exact h.processed
  case sentTo =>
    intro e
    rw [hcarried.sentTo]
    show _ = (Function.update s.sentTo (i, sock) _ e).map Prod.snd
    by_cases he : e = (i, sock)
    · subst he
      rw [Function.update_self, Function.update_self, contents_append, h.sentTo, List.map_append,
        contents_singleton, Frame.content, Option.toList_some, hcontent]
      rfl
    · rw [Function.update_of_ne he, Function.update_of_ne he]
      exact h.sentTo e
  case reports =>
    intro e rank port hmem
    by_cases he : e = (i, sock)
    · subst he
      rw [Function.update_self] at hmem
      rcases List.mem_append.mp hmem with hmem | hmem
      · exact h.reports _ rank port hmem
      · cases List.mem_singleton.mp hmem
    · rw [Function.update_of_ne he] at hmem
      exact h.reports e rank port hmem
  case linked =>
    intro e e' he
    rw [hcarried.peer] at he
    exact hopened e (h.linked e e' he)
  case waiting =>
    intro p hp
    rw [hcarried.backlog] at hp
    rw [hcarried.peer]
    exact ⟨hopened p.1 (h.waiting p hp).1, (h.waiting p hp).2⟩
  case once =>
    rw [hcarried.backlog]
    exact h.once
  case aimed =>
    intro k rank fd hpoints
    apply hleads
    rcases points_setService hchanges.points (hcarried.points k rank fd hpoints) with
      hold | ⟨-, hno⟩
    · exact h.aimed k rank fd hold
    · exact hno.elim
  case meant =>
    intro e m hm
    apply hleads
    rw [hcarried.sentTo] at hm
    change m ∈ Function.update s.sentTo (i, sock) _ e at hm
    by_cases he : e = (i, sock)
    · subst he
      rw [Function.update_self] at hm
      rcases List.mem_append.mp hm with hm | hm
      · exact h.meant _ m hm
      · obtain rfl := List.mem_singleton.mp hm
        exact h.aimed i x.rank sock (Or.inr hheld)
    · rw [Function.update_of_ne he] at hm
      exact h.meant e m hm
  case myRank =>
    intro j
    rw [hcarried.myRank]
    exact hranks j
  case data =>
    intro j t' y hy
    rw [hcarried.senders] at hy
    exact hdata j t' y hy

/-- A connection that waits is accepted: its other end gets what was written so far. -/
theorem Routed.accept (h : Routed C s wrote taken) {i : ι} {b : Nat} {e : ι × Int} {connfd : Int}
    {localIp : UInt32} {v : ServiceState θ} (hb : s.backlog[b]? = some (e, i))
    (hstep : (s.services i).step (.accept connfd localIp) = some v)
    (hnone : (s.services i).node.connection connfd = none)
    (hchanges : (s.services i).Changes v connfd { localIp := localIp } (fun _ => False))
    (hcarried : Carried ((s.setService i v).join b e (i, connfd)) s' e (sentAt s.conn e)) :
    Routed C s' wrote taken := by
  have hconn := conn_changes (s := s) hchanges.connection
  change s.conn (i, connfd) = none at hnone
  obtain ⟨hranks, hdata⟩ := h.local (by rintro _ _ _ _ ⟨⟩) hstep
  obtain ⟨hopen, hpeer⟩ := h.waiting _ (List.mem_of_getElem? hb)
  obtain ⟨hpeer', hwrote', -⟩ := h.unopened hnone
  have hne : (i, connfd) ≠ e := by
    rintro rfl
    exact hopen hnone
  have hjoin : s'.peer = Function.update (Function.update s.peer e (some (i, connfd))) (i, connfd)
      (some e) := hcarried.peer
  have hleft : s'.peer e = some (i, connfd) := by
    rw [hjoin, Function.update_of_ne (Ne.symm hne), Function.update_self]
  have hothers : ∀ j, j ≠ e → j ≠ (i, connfd) → s'.peer j = s.peer j := by
    intro j hj hj'
    rw [hjoin, Function.update_of_ne hj', Function.update_of_ne hj]
  have hopened : ∀ j, s.conn j ≠ none ∨ j = (i, connfd) → s'.conn j ≠ none := by
    intro j hj
    apply hcarried.opened
    show (s.setService i v).conn j ≠ none
    rw [hconn]
    exact update_ne_none hj
  have hleads : ∀ j rank, s.Leads C j rank → s'.Leads C j rank := by
    rintro j rank (⟨j', hj, hrank⟩ | ⟨k, hmem, hrank⟩)
    · left
      refine ⟨j', ?_, hrank⟩
      rw [hothers j, hj]
      · rintro rfl
        cases hpeer.symm.trans hj
      · rintro rfl
        cases hpeer'.symm.trans hj
    · obtain ⟨m, hm⟩ := List.mem_iff_getElem?.mp hmem
      by_cases hmb : m = b
      · -- the entry that is accepted
        subst hmb
        obtain ⟨rfl, rfl⟩ := Prod.mk.inj (Option.some.inj (hb.symm.trans hm))
        exact Or.inl ⟨_, hleft, hrank⟩
      · right
        refine ⟨k, ?_, hrank⟩
        rw [hcarried.backlog]
        exact List.mem_eraseIdx_iff_getElem?.mpr ⟨m, hmb, hm⟩
  refine ⟨?framed, ?processed, ?sentTo, h.reports, ?linked, ?waiting, ?once, ?aimed, ?meant,
    ?myRank, ?data⟩
  case framed =>
    refine h.framed.join hne hpeer hpeer' hwrote' hjoin ?_ ?_
    · show sentAt s'.conn = sentAt s.conn
      rw [hcarried.sent]
      show sentAt (s.setService i v).conn = _
      rw [hconn, sentAt_update]
      apply Function.update_eq_self_iff.mpr
      rw [sentAt, hnone]
      rfl
    · funext j
      show unreadAt s'.conn j = Function.update (unreadAt s.conn) (i, connfd) (sentAt s.conn e) j
      rw [hcarried.unread, ← hcarried.peer, hleft]
      show unreadAt (s.setService i v).conn j ++ _ = _
      rw [hconn, unreadAt_update]
      by_cases hj : j = (i, connfd)
      · subst hj
        rw [Function.update_self, Function.update_self, if_pos rfl]
        rfl
      · rw [Function.update_of_ne hj, Function.update_of_ne hj,
          if_neg (fun heq => hj (Option.some.inj heq).symm), List.append_nil]
  case processed =>
    rw [hcarried.processed]
    exact h.processed
  case sentTo =>
    rw [hcarried.sentTo]
    exact h.sentTo
  case linked =>
    intro j j' hj
    apply hopened
    by_cases hje : j = e
    · subst hje
      exact Or.inl hopen
    · by_cases hj' : j = (i, connfd)
      · exact Or.inr hj'
      · rw [hothers j hje hj'] at hj
        exact Or.inl (h.linked j j' hj)
  case waiting =>
    intro p hp
    rw [hcarried.backlog] at hp
    obtain ⟨m, hmb, hm⟩ := List.mem_eraseIdx_iff_getElem?.mp hp
    change s.backlog[m]? = some p at hm
    obtain ⟨hpopen, hppeer⟩ := h.waiting p (List.mem_of_getElem? hm)
    refine ⟨hopened p.1 (Or.inl hpopen), ?_⟩
    rw [hothers p.1, hppeer]
    · -- no end waits twice
      intro heq
      apply hmb
      have hlt : m < (s.backlog.map Prod.fst).length := by
        rw [List.length_map]
        exact (List.getElem?_eq_some_iff.mp hm).1
      apply (List.getElem?_inj hlt h.once).mp
      rw [List.getElem?_map, List.getElem?_map, hm, hb, Option.map_some, Option.map_some, heq]
    · intro heq
      exact hpopen (heq ▸ hnone)
  case once =>
    rw [hcarried.backlog]
    exact h.once.sublist (List.Sublist.map _ (List.eraseIdx_sublist _ _))
  case aimed =>
    intro k rank fd hpoints
    apply hleads
    rcases points_setService hchanges.points (hcarried.points k rank fd hpoints) with
      hold | ⟨-, hno⟩
    · exact h.aimed k rank fd hold
    · exact hno.elim
  case meant =>
    intro j m hm
    rw [hcarried.sentTo] at hm
    exact hleads j m.1 (h.meant j m hm)
  case myRank =>
    intro j
    rw [hcarried.myRank]
    exact hranks j
  case data =>
    intro j t' y hy
    rw [hcarried.senders] at hy
    exact hdata j t' y hy

/-- The frame in front is read. -/
theorem Routed.readable (h : Routed C s wrote taken) {i : ι} {fd : Int} {o : Oracle}
    (hfull : o.Full) {c : Connection} (hc : s.conn (i, fd) = some c) {v : ServiceState θ}
    (hstep : (s.services i).step (.readable fd o) = some v) :
    ∃ f, Routed C { s.setService i v with
        processed := Function.update s.processed (i, fd)
          (s.processed (i, fd) ++ (handleEvent o c.unread).action.processed) } wrote
      (Function.update taken (i, fd) (taken (i, fd) ++ [f])) := by
  have hne : s.duplex.unread (i, fd) ≠ [] := by
    show unreadAt s.conn (i, fd) ≠ []
    rw [unreadAt_some hc]
    exact ServiceState.readable_unread hfull hc hstep
  obtain ⟨e', f, after, hpeer, hwrote, hunread⟩ := h.framed.front hne
  change unreadAt s.conn (i, fd) = _ at hunread
  rw [unreadAt_some hc] at hunread
  have hevent := handleEvent_frame hfull f (after.flatMap Frame.bytes)
  rw [← hunread] at hevent
  have hchanges := ServiceState.readable_effect hc hevent hstep
  have hconn := conn_changes (s := s) hchanges.connection
  obtain ⟨hranks, hdata⟩ := h.local (by rintro _ _ _ _ ⟨⟩) hstep
  have hopened : ∀ e, s.conn e ≠ none → (s.setService i v).conn e ≠ none := by
    intro e he
    rw [hconn]
    exact update_ne_none (Or.inl he)
  refine ⟨f, ?framed, ?processed, h.sentTo, h.reports, ?linked, ?waiting, h.once, ?aimed, h.meant,
    hranks, hdata⟩
  case framed =>
    refine h.framed.take hpeer hwrote rfl ?_ ?_
    · show sentAt (s.setService i v).conn = sentAt s.conn
      rw [hconn, sentAt_update]
      exact Function.update_eq_self_iff.mpr (sentAt_some hc).symm
    · show unreadAt (s.setService i v).conn = _
      rw [hconn, unreadAt_update]
      rfl
  case processed =>
    intro e
    rw [hevent]
    by_cases he : e = (i, fd)
    · subst he
      simp only [Function.update_self, h.processed, contents_append, contents_singleton,
        Frame.action_processed]
    · simp only [Function.update_of_ne he, h.processed]
  case linked =>
    intro e e'' he
    exact hopened e (h.linked e e'' he)
  case waiting =>
    intro p hp
    exact ⟨hopened p.1 (h.waiting p hp).1, (h.waiting p hp).2⟩
  case aimed =>
    intro k rank m hpoints
    rcases points_setService hchanges.points hpoints with hold | ⟨heq, hrank⟩
    · exact h.aimed k rank m hold
    · -- the rank that was reported is that of the other end
      left
      refine ⟨e', heq ▸ hpeer, ?_⟩
      cases f with
      | normal content => cases hrank
      | rankReport reported port =>
          have hmem : Frame.rankReport reported port ∈ wrote e' := by
            rw [hwrote]
            simp
          obtain rfl := h.reports e' reported port hmem
          rw [Frame.action_rankReport (C.isInt e'.1).1 (C.isInt e'.1).2] at hrank
          exact (List.mem_singleton.mp hrank).symm

/-- Nothing was written, so nothing comes to the other end. -/
theorem Routed.carry_nothing (h : Routed C s wrote taken) {e : ι × Int}
    (hcarry : s.carry e [] = some s') : Routed C s' wrote taken := by
  unfold carry at hcarry
  split at hcarry
  case h_1 => exact Option.some.inj hcarry ▸ h
  case h_2 e' =>
    obtain ⟨v, hstep, rfl⟩ := Option.map_eq_some_iff.mp hcarry
    obtain ⟨c, hc, hchanges⟩ := ServiceState.peerSends_effect hstep
    refine h.stays (by rintro _ _ _ _ ⟨⟩) hstep ⟨?_, ?_⟩
    · rw [hchanges.connection, List.append_nil]
      exact Function.update_eq_self_iff.mpr hc.symm
    · intro rank fd hpoints
      rcases hchanges.points rank fd hpoints with hold | ⟨-, hno⟩
      · exact hold
      · exact hno.elim

/-- A `writev` of a call, with what comes to the other end. -/
theorem Routed.writev (h : Routed C s wrote taken) {i : ι} {t : θ} {x : Sender} {sock : Int}
    {o : WriteOutcome} (hx : (s.services i).senders t = some x) (hholds : x.holds = some sock)
    (hwhole : ∀ k, o = .wrote k → (normalMessage x.data).length ≤ k) {v : ServiceState θ}
    (hstep : (s.services i).step (.writev t o) = some v)
    (hcarry : ((s.setService i v).record (i, sock) x o).carry (i, sock)
      (o.written (normalMessage x.data)) = some s') :
    ∃ wrote', Routed C s' wrote' taken := by
  obtain ⟨hheld, ⟨hnothing, hstays⟩ | ⟨k, c, rfl, hc, hchanges⟩⟩ :=
    ServiceState.writev_effect hx hholds hstep
  · have hne : normalMessage x.data ≠ [] := by
      intro hnil
      have hlength := congrArg List.length hnil
      simp [normalMessage] at hlength
    rw [record, hnothing, if_neg (Ne.symm hne)] at hcarry
    exact ⟨wrote, (h.stays (by rintro _ _ _ _ ⟨⟩) hstep hstays).carry_nothing hcarry⟩
  · have htake := List.take_of_length_le (hwhole k rfl)
    have hwritten : (WriteOutcome.wrote k).written (normalMessage x.data) =
        normalMessage x.data := htake
    rw [record, hwritten, if_pos rfl] at hcarry
    rw [htake] at hchanges
    obtain ⟨hpos, hbound⟩ := h.data i t x hx
    exact ⟨_, h.write ⟨x.data, hpos, hbound⟩ rfl hstep hheld hc hchanges
      (carried_of_carry hcarry)⟩

def IsRouted (C : Cluster ι) (s : ClusterState ι θ) : Prop :=
  ∃ wrote taken, Routed C s wrote taken

theorem isRouted_own {i : ι} {l : ServiceState.Label θ} (h : IsRouted C s)
    (hl : ∀ t rank data retry, l = .sendMessage t rank data retry →
      0 < data.length ∧ data.length < 2 ^ 32)
    (hstays : ∀ v, (s.services i).step l = some v → (s.services i).Stays v)
    (hstep : s.own i l = some s') : IsRouted C s' := by
  obtain ⟨wrote, taken, h⟩ := h
  obtain ⟨v, hv, rfl⟩ := Option.map_eq_some_iff.mp hstep
  exact ⟨wrote, taken, h.stays hl hv (hstays v hv)⟩

theorem IsRouted.step (h : IsRouted C s) {l : Label ι θ} (horderly : Orderly C s l)
    (hstep : s.step C l = some s') : IsRouted C s' := by
  cases l with
  | registerTarget i rank ip port =>
      exact isRouted_own h (by rintro _ _ _ _ ⟨⟩)
        (fun _ hv => ServiceState.stays_registerTarget hv) hstep
  | sendMessage i t rank data retry =>
      refine isRouted_own h ?_ (fun _ hv => ServiceState.stays_sendMessage hv) hstep
      rintro _ _ _ _ ⟨⟩
      exact horderly.1
  | clearSendSocket i t =>
      exact isRouted_own h (by rintro _ _ _ _ ⟨⟩)
        (fun _ hv => ServiceState.stays_clearSendSocket hv) hstep
  | getSendSocket i t a =>
      obtain ⟨wrote, taken, h⟩ := h
      obtain ⟨x, hx, hstep⟩ := Option.bind_eq_some_iff.mp hstep
      obtain ⟨_, hown, hstep⟩ := Option.bind_eq_some_iff.mp hstep
      obtain ⟨v, hv, rfl⟩ := Option.map_eq_some_iff.mp hown
      rcases ServiceState.getSendSocket_effect hx hv with ⟨hnone, hstays⟩ |
        ⟨fd, localIp, hopens, hfree, hchanges⟩
      · rw [hnone] at hstep
        obtain rfl := Option.some.inj hstep
        exact ⟨wrote, taken, h.stays (by rintro _ _ _ _ ⟨⟩) hv hstays⟩
      · rw [hopens] at hstep
        obtain ⟨j, hj, rfl⟩ := Option.map_eq_some_iff.mp hstep
        exact ⟨_, _, h.opened hv hfree hchanges (horderly.2 x hx fd hopens j hj)⟩
  | writev i t o =>
      obtain ⟨wrote, taken, h⟩ := h
      obtain ⟨x, hx, hstep⟩ := Option.bind_eq_some_iff.mp hstep
      obtain ⟨sock, hholds, hstep⟩ := Option.bind_eq_some_iff.mp hstep
      obtain ⟨_, hown, hcarry⟩ := Option.bind_eq_some_iff.mp hstep
      obtain ⟨v, hv, rfl⟩ := Option.map_eq_some_iff.mp hown
      have hwhole : ∀ k, o = .wrote k → (normalMessage x.data).length ≤ k := by
        rintro k rfl
        exact horderly.2 x hx
      obtain ⟨wrote', h'⟩ := h.writev hx hholds hwhole hv hcarry
      exact ⟨wrote', taken, h'⟩
  | accept i b connfd localIp =>
      obtain ⟨wrote, taken, h⟩ := h
      obtain ⟨⟨e, j⟩, hb, hstep⟩ := Option.bind_eq_some_iff.mp hstep
      rw [Option.ite_none_right_eq_some] at hstep
      obtain ⟨rfl, hstep⟩ := hstep
      obtain ⟨_, hown, hcarry⟩ := Option.bind_eq_some_iff.mp hstep
      obtain ⟨v, hv, rfl⟩ := Option.map_eq_some_iff.mp hown
      obtain ⟨hnone, hchanges⟩ := ServiceState.accept_effect hv
      exact ⟨wrote, taken, h.accept hb hv hnone hchanges (carried_of_carry hcarry)⟩
  | readable i fd o =>
      obtain ⟨wrote, taken, h⟩ := h
      obtain ⟨c, hc, hstep⟩ := Option.bind_eq_some_iff.mp hstep
      obtain ⟨_, hown, rfl⟩ := Option.map_eq_some_iff.mp hstep
      obtain ⟨v, hv, rfl⟩ := Option.map_eq_some_iff.mp hown
      obtain ⟨f, h'⟩ := h.readable horderly.1 hc hv
      exact ⟨_, _, h'⟩

theorem isRouted_init (C : Cluster ι) : IsRouted C (machine C θ).init := by
  refine ⟨fun _ => [], fun _ => [], ?_⟩
  refine ⟨Duplex.framed_empty (fun _ => rfl) (fun _ => rfl) (fun _ => rfl), fun _ => rfl,
    fun _ => rfl, ?_, ?_, ?_, List.nodup_nil, ?_, ?_, fun _ => rfl, ?_⟩
  · rintro e rank port hmem
    cases hmem
  · rintro e e' ⟨⟩
  · rintro p hp
    cases hp
  · rintro i rank fd (hname | ⟨t, x, retry, hx, -⟩)
    · cases hname
    · cases hx
  · rintro e m hm
    cases hm
  · rintro i t x ⟨⟩

theorem isRouted_runs {ls : List (Label ι θ)} (hrun : (machine C θ).Runs ls s)
    (horderly : (machine C θ).Meets (Orderly C) (machine C θ).init ls) : IsRouted C s :=
  hrun.guarded (isRouted_init C) (fun _ _ _ h hl hstep => h.step hl hstep) horderly

/-- **Messages reach their rank.** In every orderly run of any number of nodes: what a node has
processed on a connection is, in order and without loss, repetition or invention, what the calls of
`sendMessage` at the other end have written to it, and every one of these calls was for the rank of
the node. Once nothing is left to read, it is all of it. -/
theorem reaches_rank {ls : List (Label ι θ)} (hrun : (machine C θ).Runs ls s)
    (horderly : (machine C θ).Meets (Orderly C) (machine C θ).init ls) (e : ι × Int) :
    (s.peer e = none → s.processed e = []) ∧
    ∀ e', s.peer e = some e' →
      s.processed e <+: (s.sentTo e').map Prod.snd ∧
      (∀ m ∈ s.sentTo e', m.1 = C.rank e.1) ∧
      (∀ c, s.conn e = some c → c.unread = [] → s.processed e = (s.sentTo e').map Prod.snd) := by
  obtain ⟨wrote, taken, h⟩ := isRouted_runs hrun horderly
  constructor
  · intro hpeer
    rw [h.processed, (h.framed.apart e hpeer).1]
    rfl
  · intro e' hpeer
    rw [h.processed, ← h.sentTo]
    refine ⟨(h.framed.in_order hpeer).filterMap _, ?_, ?_⟩
    · intro m hm
      have hback := h.framed.symm e e' hpeer
      rcases h.meant e' m hm with ⟨e'', hpeer', hrank⟩ | ⟨j, hwaits, -⟩
      · obtain rfl := Option.some.inj (hback.symm.trans hpeer')
        exact hrank.symm
      · cases (h.waiting _ hwaits).2.symm.trans hback
    · intro c hc hunread
      have hnothing : s.duplex.unread e = [] := (unreadAt_some hc).trans hunread
      rw [h.framed.complete Frame.bytes_ne_nil hpeer hnothing]

def twoNodes : Cluster Bool where
  rank i := if i then 2 else 1
  isInt i := by cases i <;> decide
  port i := if i then 9002 else 9001
  listens address := if address = (htonl 0x7F000001, htons 9002) then some true else none

def callAndAnswer : List (Label Bool Unit) :=
  [.registerTarget false 2 0x7F000001 9002, .sendMessage false () 2 [7] 0,
    .getSendSocket false () (.connected 5 (htonl 0x7F000001) (.wrote 12)),
    .writev false () (.wrote 13), .accept true 0 6 (htonl 0x7F000001),
    .readable true 6 wholeReads.oracle, .readable true 6 wholeReads.oracle,
    .sendMessage true () 1 [8, 9] 0, .getSendSocket true () .noSocket, .writev true () (.wrote 14),
    .readable false 5 wholeReads.oracle]

theorem reaches_rank_run :
    ∃ s : ClusterState Bool Unit, (machine twoNodes Unit).Runs callAndAnswer s ∧
      s.processed (true, 6) = [[7]] ∧ s.processed (false, 5) = [[8, 9]] ∧
      s.peer (true, 6) = some (false, 5) ∧ ∀ m ∈ s.sentTo (false, 5), m.1 = 2 := by
  have hend : ((machine twoNodes Unit).runFrom (machine twoNodes Unit).init callAndAnswer).map
      (fun s => (s.processed (true, 6), s.processed (false, 5), s.peer (true, 6))) =
      some ([[7]], [[8, 9]], some (false, 5)) := by
    decide +kernel
  obtain ⟨s, hrun, hs⟩ := Option.map_eq_some_iff.mp hend
  obtain ⟨hcalled, hanswered, hpeer⟩ : s.processed (true, 6) = [[7]] ∧
      s.processed (false, 5) = [[8, 9]] ∧ s.peer (true, 6) = some (false, 5) := by
    simpa using hs
  have hwhole : ∀ l ∈ callAndAnswer, l.Whole := by
    simp [callAndAnswer, Label.Whole, wholeReads_full.oracle]
  have haddressed : (machine twoNodes Unit).Meets (Addressed twoNodes) (machine twoNodes Unit).init
      callAndAnswer := by decide +kernel
  have horderly := (Machine.meets_of_forall hwhole _).and haddressed
  exact ⟨s, hrun, hcalled, hanswered, hpeer,
    ((reaches_rank hrun horderly (true, 6)).2 (false, 5) hpeer).2.1⟩

end ClusterState

end Npp.Network
