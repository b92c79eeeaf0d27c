import Npp.Network.Registry

/-!
# What a rank report is good for

A peer reports its rank and its listening port on a connection that it opened, so that the receiver
can send on that connection, or open another one to the peer once the first is given up. The
receiver's entry is compared here with what either purpose needs: the address that the peer listens
at, and a socket that is open.
-/

namespace Npp.Network

open Npp.Foundation

/-- A rank report with any head of its type. -/
theorem handleEvent_rankReport {o : Oracle} (h : o.Full) {head : MessageHead}
    (htype : head.type.val = 1) (rest : List UInt8) :
    handleEvent o (head.bytes ++ (verifyBytes ++ rest)) =
      { rest := rest, action := .insertRank (intOfUInt32 head.size) head.reserved } := by
  have hnormal : ¬ head.type.val = 0 := by
    rw [htype]
    exact Nat.one_ne_zero
  rw [handleEvent_head h (MessageHead.length_bytes head), MessageHead.ofBytes_bytes,
    if_neg hnormal, if_pos htype, readRankReportMessage, finishWith_full h]

namespace Node

def receive (n : Node) (connfd : Int) (c : Connection) (o : Oracle) : Node :=
  n.handle connfd c (handleEvent o c.unread)

/-- The address that `getSendSocket` gives to `connect`, in network byte order. -/
def connectAddress (n : Node) (rank : Int) : Option (UInt32 × UInt16) :=
  (n.socks rank).bind fun target =>
    if target.sock > 0 then none else some (target.ip, target.port)

theorem connectAddress_none {n : Node} {rank : Int} (h : n.socks rank = none) :
    n.connectAddress rank = none := by
  unfold connectAddress
  rw [h]
  rfl

theorem connectAddress_some {n : Node} {rank : Int} {target : Target}
    (h : n.socks rank = some target) :
    n.connectAddress rank = if 0 < target.sock then none else some (target.ip, target.port) := by
  unfold connectAddress
  rw [h]
  rfl

theorem handle_socks_none {n : Node} {connfd rank : Int} {c : Connection} {rest : List UInt8}
    {port : UInt16} (h : n.socks rank = none) :
    (n.handle connfd c { rest := rest, action := .insertRank rank port }).socks rank =
      some { rank := rank, ip := c.localIp, port := port, sock := connfd } := by
  simp [handle, insert, setTarget, h]

/-- `insert` leaves an entry that is there. -/
theorem handle_socks_some {n : Node} {connfd rank : Int} {c : Connection} {rest : List UInt8}
    {port : UInt16} {target : Target} (h : n.socks rank = some target) :
    (n.handle connfd c { rest := rest, action := .insertRank rank port }).socks rank =
      some target := by
  simp [handle, insert, h]

theorem clearSendSocket_connectAddress {n : Node} {rank : Int} {target : Target}
    (h : n.socks rank = some target) :
    (n.clearSendSocket rank).connectAddress rank = some (target.ip, target.port) := by
  simp [clearSendSocket, h, connectAddress, setTarget]

/-! ## Connecting to the peer again -/

/-- The entry leads to where the peer, which has the address `peerIp` on the connection, listens. -/
structure RoundTrips (n : Node) (connfd : Int) (c : Connection) (o : Oracle) (peerIp : UInt32)
    (rank : Int) (port : UInt16) : Prop where
  entry : (n.receive connfd c o).socks rank =
    some { rank := rank, ip := peerIp, port := htons port, sock := connfd }
  reconnects : ((n.receive connfd c o).clearSendSocket rank).connectAddress rank =
    some (peerIp, htons port)

/-- **A rank report across the wire.** The entry has the rank and the port that were sent, and its
address is the peer's exactly when both ends of the connection have the same one: the receiver
enters its own. -/
theorem roundTrips_iff {n : Node} {c : Connection} {o : Oracle} (hfull : o.Full) (connfd : Int)
    (peerIp : UInt32) {rank : Int} (hlow : -2 ^ 31 ≤ rank) (hhigh : rank < 2 ^ 31) (port : UInt16)
    {rest : List UInt8} (hunread : c.unread = rankReportMessage rank port ++ rest)
    (habsent : n.socks rank = none) :
    n.RoundTrips connfd c o peerIp rank port ↔ c.localIp = peerIp := by
  have hevent : handleEvent o c.unread =
      { rest := rest, action := .insertRank rank (htons port) } := by
    have htype : (rankReportHead rank port).type.val = 1 := rfl
    rw [hunread, rankReportMessage, List.append_assoc, handleEvent_rankReport hfull htype]
    show ({ rest := rest, action := .insertRank (intOfUInt32 (uint32OfInt rank)) _ } : Handled) = _
    rw [intOfUInt32_uint32OfInt hlow hhigh]
    rfl
  have hentry : (n.receive connfd c o).socks rank =
      some { rank := rank, ip := c.localIp, port := htons port, sock := connfd } := by
    rw [receive, hevent]
    exact handle_socks_none habsent
  constructor
  · rintro ⟨hsocks, -⟩
    rw [hentry] at hsocks
    exact congrArg Target.ip (Option.some.inj hsocks)
  · rintro rfl
    exact ⟨hentry, clearSendSocket_connectAddress hentry⟩

/-- Two processes on one host. -/
theorem roundTrips_iff_run :
    let o : Oracle := ⟨.bytes 8, fun _ => .bytes 1, .bytes 4, fun _ => 0, fun _ => 0⟩
    let c : Connection := { localIp := htonl 0x7F000001, unread := rankReportMessage 3 8000 }
    RoundTrips { myRank := 1, listenPort := 9000 } 5 c o (htonl 0x7F000001) 3 8000 := by
  intro o c
  have hfull : o.Full := ⟨⟨8, Nat.le_refl 8, rfl⟩, fun _ => ⟨1, rfl⟩, ⟨4, Nat.le_refl 4, rfl⟩⟩
  exact (roundTrips_iff hfull 5 _ (by decide) (by decide) 8000
    (List.append_nil _).symm rfl).mpr rfl

/-- The process 3 at 192.168.0.1 reports itself to 192.168.0.2, and is looked for there. -/
theorem not_roundTrips :
    let o : Oracle := ⟨.bytes 8, fun _ => .bytes 1, .bytes 4, fun _ => 0, fun _ => 0⟩
    let c : Connection := { localIp := htonl 0xC0A80002, unread := rankReportMessage 3 8000 }
    let n : Node := { myRank := 1, listenPort := 9000 }
    ((n.receive 5 c o).clearSendSocket 3).connectAddress 3 =
      some (htonl 0xC0A80002, htons 8000) ∧
    ¬ n.RoundTrips 5 c o (htonl 0xC0A80001) 3 8000 := by
  intro o c n
  have hconnects : ((n.receive 5 c o).clearSendSocket 3).connectAddress 3 =
      some (htonl 0xC0A80002, htons 8000) := by decide +kernel
  refine ⟨hconnects, fun h => ?_⟩
  have hpeer := h.reconnects
  rw [hconnects] at hpeer
  exact absurd hpeer (by decide)

/-! ## Sending on the connection of the report -/

/-- `getSendSocket` gives an open connection of the rank without opening one. -/
def Reuses (n : Node) (rank : Int) : Prop :=
  ∃ sock c, 0 ≤ sock ∧ n.connection sock = some c ∧ c.BelongsTo rank ∧
    ∀ a, n.getSendSocket rank a = some (sock, n)

/-- What `socks` must hold for the rank when its report comes on `connfd`: nothing, or already an
open connection of the rank. The number 0 is never reused. -/
def Reusable (n : Node) (connfd rank : Int) : Prop :=
  match n.socks rank with
  | none => 0 < connfd
  | some target => 0 < target.sock ∧ (target.sock = connfd ∨
      ∃ c, n.connection target.sock = some c ∧ c.BelongsTo rank)

theorem getSendSocket_pos {n : Node} {rank : Int} {target : Target}
    (h : n.socks rank = some target) (hpos : 0 < target.sock) (a : ConnectOutcome) :
    n.getSendSocket rank a = some (target.sock, n) := by
  simp only [getSendSocket, h, if_pos hpos]

/-- An entry is reused exactly when its socket is an open connection of the rank. -/
theorem reuses_iff_of_entry {n : Node} {rank : Int} {target : Target}
    (h : n.socks rank = some target) :
    n.Reuses rank ↔
      0 < target.sock ∧ ∃ c, n.connection target.sock = some c ∧ c.BelongsTo rank := by
  constructor
  · rintro ⟨sock, c, hsock, hc, hbelongs, hall⟩
    by_cases hpos : 0 < target.sock
    · have hget := hall .noSocket
      rw [getSendSocket_pos h hpos] at hget
      obtain ⟨heq, -⟩ := Prod.mk.inj (Option.some.inj hget)
      exact ⟨hpos, c, heq ▸ hc, hbelongs⟩
    · -- it asks for a new socket, and gets none
      have hget := hall .noSocket
      simp only [getSendSocket, h, if_neg hpos] at hget
      obtain ⟨heq, -⟩ := Prod.mk.inj (Option.some.inj hget)
      omega
  · rintro ⟨hpos, c, hc, hbelongs⟩
    exact ⟨target.sock, c, Int.le_of_lt hpos, hc, hbelongs, getSendSocket_pos h hpos⟩

/-- **Reuse after a rank report.** The connection of the report is reused exactly when the rank had
no entry, or one whose socket already led to it: the report changes no entry. -/
theorem reuses_iff {n : Node} {c : Connection} {o : Oracle} (hfull : o.Full) (connfd : Int)
    {head : MessageHead} (htype : head.type.val = 1) {rest : List UInt8}
    (hunread : c.unread = head.bytes ++ (verifyBytes ++ rest)) :
    (n.receive connfd c o).Reuses (intOfUInt32 head.size) ↔
      n.Reusable connfd (intOfUInt32 head.size) := by
  let rank := intOfUInt32 head.size
  have hevent : handleEvent o c.unread =
      { rest := rest, action := .insertRank rank head.reserved } := by
    rw [hunread, handleEvent_rankReport hfull htype]
  have hreceive : n.receive connfd c o =
      n.handle connfd c { rest := rest, action := .insertRank rank head.reserved } := by
    rw [receive, hevent]
  have hconnection : (n.receive connfd c o).connection = Function.update n.connection connfd
      (some (afterEvent c { rest := rest, action := .insertRank rank head.reserved })) := by
    rw [hreceive, connection_handle]
    rfl
  have hbelongs : (afterEvent c
      { rest := rest, action := .insertRank rank head.reserved }).BelongsTo rank :=
    Or.inr (List.mem_append_right _ (List.mem_singleton.mpr rfl))
  show (n.receive connfd c o).Reuses rank ↔ n.Reusable connfd rank
  cases htarget : n.socks rank with
  | none =>
      have hentry : (n.receive connfd c o).socks rank = some
          { rank := rank, ip := c.localIp, port := head.reserved, sock := connfd } := by
        rw [hreceive]
        exact handle_socks_none htarget
      rw [reuses_iff_of_entry hentry, hconnection]
      simp only [Reusable, htarget, Function.update_self]
      constructor
      · exact fun h => h.1
      · exact fun h => ⟨h, _, rfl, hbelongs⟩
  | some target =>
      have hentry : (n.receive connfd c o).socks rank = some target := by
        rw [hreceive]
        exact handle_socks_some htarget
      rw [reuses_iff_of_entry hentry, hconnection]
      simp only [Reusable, htarget]
      apply and_congr_right
      intro _
      by_cases hsock : target.sock = connfd
      · rw [hsock, Function.update_self]
        exact iff_of_true ⟨_, rfl, hbelongs⟩ (Or.inl rfl)
      · rw [Function.update_of_ne hsock]
        constructor
        · exact Or.inr
        · rintro (h | h)
          · exact absurd h hsock
          · exact h

/-- A rank that is not registered. -/
theorem reuses_iff_run :
    let o : Oracle := ⟨.bytes 8, fun _ => .bytes 1, .bytes 4, fun _ => 0, fun _ => 0⟩
    let c : Connection := { unread := rankReportMessage 3 8000 }
    let n : Node := { myRank := 1, listenPort := 9000 }
    (n.receive 5 c o).Reuses 3 := by
  intro o c n
  have hfull : o.Full := ⟨⟨8, Nat.le_refl 8, rfl⟩, fun _ => ⟨1, rfl⟩, ⟨4, Nat.le_refl 4, rfl⟩⟩
  have htype : (rankReportHead 3 8000).type.val = 1 := rfl
  have hunread : c.unread = (rankReportHead 3 8000).bytes ++ (verifyBytes ++ []) := by
    rw [List.append_nil]
    rfl
  have hrank : intOfUInt32 (rankReportHead 3 8000).size = 3 := by decide
  have hreusable : n.Reusable 5 3 := by
    show (0 : Int) < 5
    decide
  exact hrank ▸ (reuses_iff hfull 5 htype hunread).mpr (hrank.symm ▸ hreusable)

/-- A rank that was registered, as it has to be before anything is sent to it: its entry keeps the
socket -1 whatever is reported. -/
theorem not_reuses :
    let o : Oracle := ⟨.bytes 8, fun _ => .bytes 1, .bytes 4, fun _ => 0, fun _ => 0⟩
    let c : Connection := { unread := rankReportMessage 3 8000 }
    let n : Node := ({ myRank := 1, listenPort := 9000 } : Node).registerTarget 3 0x7F000001 8000
    ¬ (n.receive 5 c o).Reuses 3 := by
  rintro o c n ⟨sock, c', hsock, -, -, hall⟩
  have hnone : ((n.receive 5 c o).getSendSocket 3 .noSocket).map Prod.fst = some (-1) := by
    decide +kernel
  rw [hall, Option.map_some] at hnone
  obtain rfl := Option.some.inj hnone
  exact absurd hsock (by decide)

end Node

end Npp.Network
