import Npp.Network.RankReport

/-!
# What a failed connection leaves behind

`getSendSocket` gives up at several places, each after it has built another part of its connection.
Its answer is compared here with the descriptors that are open and with the registry.
-/

namespace Npp.Network

open Npp.Foundation

namespace ConnectOutcome

/-- There was a socket, and `connect` has failed. -/
def isRefused : ConnectOutcome → Bool
  | .refused _ => true
  | _ => false

end ConnectOutcome

/-- The tables of a node and what its `epoll_fd` listens to. -/
structure Client where
  node : Node
  epoll : Int → Bool := fun _ => false

namespace Client

/-- `getSendSocket` to its end, where `ctl` is what `epoll_ctl` returns; its failure is logged
only. -/
def getSendSocket (s : Client) (rank : Int) (a : ConnectOutcome) (ctl : Int) :
    Option (Int × Client) :=
  match s.node.getSendSocket rank a with
  | none => none
  | some (sock, node) =>
      let added := (s.node.connectAddress rank).isSome && 0 ≤ sock && 0 ≤ ctl
      some (sock,
        { node := node, epoll := if added then Function.update s.epoll sock true else s.epoll })

def SameTables (s s' : Client) : Prop :=
  (∀ fd, (s'.node.fds fd).isSome = (s.node.fds fd).isSome) ∧ s'.node.socks = s.node.socks

/-- What an answer promises: without a socket nothing has changed, and a socket is open, entered
for the rank, and begins with a whole rank report when it is new. -/
structure Atomic (s : Client) (rank sock : Int) (s' : Client) : Prop where
  failed : sock = -1 → s.SameTables s'
  isOpen : sock ≠ -1 → (s'.node.fds sock).isSome
  entered : sock ≠ -1 → ∃ target, s'.node.socks rank = some target ∧ target.sock = sock
  reported : sock ≠ -1 → s.node.fds sock = none →
    ∃ c, s'.node.connection sock = some c ∧
      rankReportMessage s.node.myRank s.node.listenPort <+: c.sent

/-- A call that connects does not fail in `connect`, and one that finds a socket finds an open
one. -/
def Keeps (s : Client) (rank : Int) (a : ConnectOutcome) : Prop :=
  ((s.node.connectAddress rank).isSome → a.isRefused = false) ∧
    (s.node.connectAddress rank = none →
      ∀ target ∈ s.node.socks rank, (s.node.fds target.sock).isSome)

instance (s : Client) (rank : Int) (a : ConnectOutcome) : Decidable (s.Keeps rank a) :=
  inferInstanceAs (Decidable (_ ∧ (_ → ∀ target ∈ s.node.socks rank, _)))

variable {s s' : Client} {rank sock ctl : Int} {a : ConnectOutcome}

theorem SameTables.refl (s : Client) : s.SameTables s := ⟨fun _ => rfl, rfl⟩

/-- An answer without a socket, from the tables as they were. -/
theorem atomic_of_failed (h : s.SameTables s') : Atomic s rank (-1) s' :=
  ⟨fun _ => h, fun hne => absurd rfl hne, fun hne => absurd rfl hne, fun hne => absurd rfl hne⟩

/-- A socket that was not connected is still open. -/
theorem not_sameTables {fd : Int} (hfree : s.node.Free fd)
    (hnode : s'.node = s.node.setFd fd (some .unconnected)) : ¬ s.SameTables s' := by
  rintro ⟨hfds, -⟩
  have hfd := hfds fd
  rw [hnode] at hfd
  change (Function.update s.node.fds fd _ fd).isSome = _ at hfd
  rw [Function.update_self, Option.isNone_iff_eq_none.mp hfree.2] at hfd
  cases hfd

/-- The call finds a socket. -/
theorem atomic_found_iff {target : Target} (htarget : s.node.socks rank = some target)
    (hpos : 0 < target.sock) (hnode : s'.node = s.node) :
    Atomic s rank target.sock s' ↔ (s.node.fds target.sock).isSome := by
  have hne : target.sock ≠ -1 := by omega
  constructor
  · intro h
    have hopen := h.isOpen hne
    rwa [hnode] at hopen
  · intro hopen
    refine ⟨fun heq => absurd heq hne, fun _ => hnode ▸ hopen, fun _ => ?_, fun _ hclosed => ?_⟩
    · exact ⟨target, hnode ▸ htarget, rfl⟩
    · rw [hclosed] at hopen
      cases hopen

/-- The call gets a new connection. -/
theorem atomic_connected {fd : Int} {localIp : UInt32} {target : Target} (hfree : s.node.Free fd)
    (hnode : s'.node = (s.node.setFd fd
      (some (.connection (s.node.opened rank localIp)))).setTarget rank
        { target with sock := fd }) : Atomic s rank fd s' := by
  have hne : fd ≠ -1 := by
    have hnonneg := hfree.1
    omega
  refine ⟨fun heq => absurd heq hne, fun _ => ?_, fun _ => ?_, fun _ _ => ?_⟩
  · rw [hnode]
    show (Function.update s.node.fds fd _ fd).isSome
    rw [Function.update_self]
    rfl
  · rw [hnode]
    exact ⟨_, Function.update_self _ _ _, rfl⟩
  · rw [hnode]
    refine ⟨s.node.opened rank localIp, ?_, List.prefix_rfl⟩
    rw [Node.connection_connected, Function.update_self]

theorem getSendSocket_eq (h : s.getSendSocket rank a ctl = some (sock, s')) :
    s.node.getSendSocket rank a = some (sock, s'.node) := by
  unfold getSendSocket at h
  split at h
  case h_1 => cases h
  case h_2 sock node hget =>
    cases h
    exact hget

/-- A call that has an address to connect to. -/
theorem atomic_connecting_iff {target : Target} (htarget : s.node.socks rank = some target)
    (hneg : ¬ 0 < target.sock) (h : s.node.getSendSocket rank a = some (sock, s'.node)) :
    Atomic s rank sock s' ↔ a.isRefused = false := by
  simp only [Node.getSendSocket, htarget, if_neg hneg] at h
  cases a with
  | noSocket =>
      obtain ⟨rfl, hnode⟩ := Prod.mk.inj (Option.some.inj h)
      refine iff_of_true (atomic_of_failed ?_) rfl
      rw [SameTables, ← hnode]
      exact ⟨fun _ => rfl, rfl⟩
  | refused fd =>
      simp only [Option.ite_none_right_eq_some] at h
      obtain ⟨hfree, h⟩ := h
      obtain ⟨rfl, hnode⟩ := Prod.mk.inj (Option.some.inj h)
      refine iff_of_false (fun hatomic => ?_) (by rintro ⟨⟩)
      exact not_sameTables hfree hnode.symm (hatomic.failed rfl)
  | connected fd localIp report =>
      simp only [Option.ite_none_right_eq_some] at h
      obtain ⟨hfree, h⟩ := h
      refine iff_of_true ?_ rfl
      rcases Node.connected_cases h with ⟨rfl, hnode, -⟩ | ⟨rfl, hnode, -⟩
      · exact atomic_connected hfree hnode
      · apply atomic_of_failed
        rw [SameTables, hnode]
        exact ⟨fun _ => rfl, rfl⟩

/-- One call keeps its promise exactly when it meets no failing `connect` and no closed socket. -/
theorem atomic_iff (h : s.getSendSocket rank a ctl = some (sock, s')) :
    Atomic s rank sock s' ↔ s.Keeps rank a := by
  have hget := getSendSocket_eq h
  unfold Keeps
  cases htarget : s.node.socks rank with
  | none =>
      simp only [Node.getSendSocket, htarget] at hget
      obtain ⟨rfl, hnode⟩ := Prod.mk.inj (Option.some.inj hget)
      rw [Node.connectAddress_none htarget]
      refine iff_of_true (atomic_of_failed ?_) ⟨by rintro ⟨⟩, fun _ => by rintro _ ⟨⟩⟩
      rw [SameTables, ← hnode]
      exact ⟨fun _ => rfl, rfl⟩
  | some target =>
      have haddress := Node.connectAddress_some htarget
      by_cases hpos : 0 < target.sock
      · rw [haddress, if_pos hpos]
        rw [Node.getSendSocket_pos htarget hpos] at hget
        obtain ⟨rfl, hnode⟩ := Prod.mk.inj (Option.some.inj hget)
        rw [atomic_found_iff htarget hpos hnode.symm]
        simp
      · rw [haddress, if_neg hpos, atomic_connecting_iff htarget hpos hget]
        simp

/-! ## Attempts in a row -/

structure Call where
  rank : Int
  outcome : ConnectOutcome
  ctl : Int
deriving DecidableEq, Repr

def attempt (s : Client) (x : Call) : Option Client :=
  match s.getSendSocket x.rank x.outcome x.ctl with
  | none => none
  | some (sock, s') => if sock < 0 then some s' else none

def machine (s : Client) : Machine Client Call where
  init := s
  step := attempt

theorem SameTables.symm (h : s.SameTables s') : s'.SameTables s :=
  ⟨fun fd => (h.1 fd).symm, h.2.symm⟩

theorem SameTables.trans {u : Client} (h : s.SameTables s') (h' : s'.SameTables u) :
    s.SameTables u :=
  ⟨fun fd => (h'.1 fd).trans (h.1 fd), h'.2.trans h.2⟩

theorem eq_neg_one (h : s.getSendSocket rank a ctl = some (sock, s')) (hneg : sock < 0) :
    sock = -1 := by
  rcases Node.getSendSocket_cases (getSendSocket_eq h) with
    ⟨hsock, -, -⟩ | ⟨-, ⟨target, -, hpos, rfl⟩, -⟩ | ⟨-, hfree, -⟩
  · exact hsock
  · omega
  · have hnonneg := hfree.1
    omega

/-- An attempt without a socket leaves the tables exactly when it keeps its promise. -/
theorem attempt_iff {x : Call} (h : s.attempt x = some s') :
    s.SameTables s' ↔ s.Keeps x.rank x.outcome := by
  unfold attempt at h
  split at h
  case h_1 => cases h
  case h_2 sock s'' hget =>
    rw [Option.ite_none_right_eq_some] at h
    obtain ⟨hneg, h⟩ := h
    cases h
    obtain rfl := eq_neg_one hget hneg
    rw [← atomic_iff hget]
    exact ⟨atomic_of_failed, fun hatomic => hatomic.failed rfl⟩

/-- **`getSendSocket` is atomic**, each call exactly when `connect` does not fail on its socket and
a socket that is entered is open; and attempts in a row that get no socket leave no descriptor
behind, however many they are, exactly when this holds of each. -/
theorem getSendSocket_atomic_iff (s : Client) :
    (∀ (rank : Int) (a : ConnectOutcome) (ctl sock : Int) (s' : Client),
      s.getSendSocket rank a ctl = some (sock, s') →
        (Atomic s rank sock s' ↔ s.Keeps rank a)) ∧
    (∀ (xs : List Call) (s' : Client), (machine s).Runs xs s' →
      ((machine s).Meets (fun t x => t.Keeps x.rank x.outcome) s xs ↔
        ∀ pre t, pre <+: xs → (machine s).Runs pre t → s.SameTables t)) := by
  constructor
  · intro rank a ctl sock s' h
    exact atomic_iff h
  · intro xs s' hrun
    apply hrun.meets_iff (I := s.SameTables) (SameTables.refl s)
    intro t x t' hsame hstep
    rw [← attempt_iff hstep]
    constructor
    · intro hsame'
      exact hsame.symm.trans hsame'
    · intro hstay
      exact hsame.trans hstay

/-- A connection, and two attempts that get no socket and leave nothing. -/
theorem getSendSocket_atomic_iff_run :
    let n : Node := ({ myRank := 1, listenPort := 9000 } : Node).registerTarget 3 0x7F000001 8000
    let s : Client := { node := n }
    (∃ s', s.getSendSocket 3 (.connected 5 0 (.wrote 12)) (-1) = some (5, s') ∧
      Atomic s 3 5 s') ∧
    ∃ s', (machine s).Runs [⟨3, .noSocket, 0⟩, ⟨3, .connected 5 0 (.wrote 7), 0⟩] s' ∧
      s.SameTables s' := by
  intro n s
  obtain ⟨hcall, hattempts⟩ := getSendSocket_atomic_iff s
  have hget : s.getSendSocket 3 (.connected 5 0 (.wrote 12)) (-1) = some (5, _) := rfl
  have hrun : (machine s).Runs [⟨3, .noSocket, 0⟩, ⟨3, .connected 5 0 (.wrote 7), 0⟩] _ := rfl
  exact ⟨⟨_, hget, (hcall 3 _ _ _ _ hget).mpr (by decide)⟩, _, hrun,
    (hattempts _ _ hrun).mp (by decide) _ _ List.prefix_rfl hrun⟩

/-- The peer refuses two connections, and two descriptors are left open. -/
theorem not_atomic :
    let n : Node := ({ myRank := 1, listenPort := 9000 } : Node).registerTarget 3 0x7F000001 8000
    let s : Client := { node := n }
    ∃ s' t, s.getSendSocket 3 (.refused 5) 0 = some (-1, s') ∧ ¬ Atomic s 3 (-1) s' ∧
      (machine s).Runs [⟨3, .refused 5, 0⟩, ⟨3, .refused 6, 0⟩] t ∧
      (t.node.fds 5).isSome ∧ (t.node.fds 6).isSome := by
  refine ⟨_, _, rfl, fun h => ?_, rfl, by decide, by decide⟩
  have hfd := (h.failed rfl).1 5
  exact absurd hfd (by decide)

end Client

end Npp.Network
