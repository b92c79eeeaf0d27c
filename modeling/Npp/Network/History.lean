import Npp.Network.RankReport

/-!
# The registry and its history

What `getSendSocket` answers, compared with what was done to the registry before: registrations,
clearings, rank reports and connections. A call takes its element with an accessor, copies the
address and is in `connect` while it holds the element; so it is cut in two here, and any number of
calls may wait for the element meanwhile.
-/

namespace Npp.Network

open Npp.Foundation

inductive RegistryEvent where
  | registered (rank : Int) (ip : UInt32) (port : UInt16)
  | cleared (rank : Int)
  | reported (rank : Int) (ip : UInt32) (port : UInt16) (connfd : Int)
  | connected (rank : Int) (sock : Int)
deriving DecidableEq, Repr

namespace RegistryEvent

def rank : RegistryEvent → Int
  | .registered rank _ _ | .cleared rank | .reported rank _ _ _ | .connected rank _ => rank

/-- The address that is registered for `r`, in network byte order. -/
def registers (r : Int) : RegistryEvent → Option (UInt32 × UInt16)
  | .registered rank ip port => if rank = r then some (htonl ip, htons port) else none
  | _ => none

/-- The address that is reported for `r`; it comes in network byte order. -/
def reports (r : Int) : RegistryEvent → Option (UInt32 × UInt16)
  | .reported rank ip port _ => if rank = r then some (ip, port) else none
  | _ => none

def resets (r : Int) : RegistryEvent → Bool
  | .registered rank _ _ | .cleared rank => rank = r
  | _ => false

end RegistryEvent

/-! ## What a history says -/

/-- The address of the last registration, or of the first report; the last event is in front. -/
def address (r : Int) (h : List RegistryEvent) : Option (UInt32 × UInt16) :=
  (h.findSome? (RegistryEvent.registers r)).or (h.reverse.findSome? (RegistryEvent.reports r))

/-- The descriptor of the last connection, or of the report that has introduced the rank, unless the
socket was given up since. -/
def descriptor (r : Int) : List RegistryEvent → Option Int
  | [] => none
  | .registered rank _ _ :: older | .cleared rank :: older =>
      if rank = r then none else descriptor r older
  | .connected rank sock :: older => if rank = r then some sock else descriptor r older
  | .reported rank _ _ connfd :: older =>
      if rank = r ∧ address r older = none then some connfd else descriptor r older

/-- Between two connections of a rank its socket was given up. -/
def OncePerReset (r : Int) (h : List RegistryEvent) : Prop :=
  ∀ newer mid older sock sock',
    h = newer ++ .connected r sock' :: (mid ++ .connected r sock :: older) →
      ∃ e ∈ mid, e.resets r = true

/-! ## One more event -/

variable {r : Int} {h : List RegistryEvent} {e : RegistryEvent}

theorem address_cons : address r (e :: h) =
    ((e.registers r).or (h.findSome? (RegistryEvent.registers r))).or
      ((h.reverse.findSome? (RegistryEvent.reports r)).or (e.reports r)) := by
  unfold address
  rw [List.reverse_cons, List.findSome?_append, List.findSome?_cons, List.findSome?_singleton]
  cases e.registers r <;> rfl

/-- An event that brings no address leaves the one there is. -/
theorem address_silent (hregisters : e.registers r = none) (hreports : e.reports r = none) :
    address r (e :: h) = address r h := by
  rw [address_cons, hregisters, hreports, Option.none_or, Option.or_none]
  rfl

theorem address_registered (ip : UInt32) (port : UInt16) :
    address r (.registered r ip port :: h) = some (htonl ip, htons port) := by
  rw [address_cons]
  simp [RegistryEvent.registers]

/-- A report is for a rank that has no address yet. -/
theorem address_reported (ip : UInt32) (port : UInt16) (connfd : Int) :
    address r (.reported r ip port connfd :: h) = some ((address r h).getD (ip, port)) := by
  rw [address_cons]
  unfold address
  cases h.findSome? (RegistryEvent.registers r) <;>
    cases h.reverse.findSome? (RegistryEvent.reports r) <;>
    simp [RegistryEvent.registers, RegistryEvent.reports]

theorem address_eq_none_iff :
    address r h = none ↔ ∀ e ∈ h, e.registers r = none ∧ e.reports r = none := by
  unfold address
  rw [Option.or_eq_none_iff, List.findSome?_eq_none_iff, List.findSome?_eq_none_iff]
  constructor
  · rintro ⟨hregisters, hreports⟩ e he
    exact ⟨hregisters e he, hreports e (List.mem_reverse.mpr he)⟩
  · intro hall
    exact ⟨fun e he => (hall e he).1, fun e he => (hall e (List.mem_reverse.mp he)).2⟩

/-- An event of another rank. -/
theorem other_rank (hne : e.rank ≠ r) :
    address r (e :: h) = address r h ∧ descriptor r (e :: h) = descriptor r h := by
  cases e with
  | registered rank ip port =>
      exact ⟨address_silent (if_neg hne) rfl, if_neg hne⟩
  | cleared rank => exact ⟨address_silent rfl rfl, if_neg hne⟩
  | reported rank ip port connfd =>
      exact ⟨address_silent rfl (if_neg hne), if_neg fun heq => hne heq.1⟩
  | connected rank sock => exact ⟨address_silent rfl rfl, if_neg hne⟩

def Records (r : Int) (h : List RegistryEvent) : Option Target → Prop
  | none => address r h = none ∧ descriptor r h = none
  | some target => address r h = some (target.ip, target.port) ∧
      descriptor r h = if 0 ≤ target.sock then some target.sock else none

theorem Records.other {o : Option Target} (ho : Records r h o) (hne : e.rank ≠ r) :
    Records r (e :: h) o := by
  obtain ⟨haddress, hdescriptor⟩ := other_rank (h := h) hne
  cases o with
  | none => exact ⟨haddress.trans ho.1, hdescriptor.trans ho.2⟩
  | some target => exact ⟨haddress.trans ho.1, hdescriptor.trans ho.2⟩

theorem records_registered (target : Target) (ip : UInt32) (port : UInt16) :
    Records r (.registered r ip port :: h)
      (some { target with ip := htonl ip, port := htons port, sock := -1 }) :=
  ⟨address_registered ip port, if_pos rfl⟩

theorem Records.cleared {target : Target} (ho : Records r h (some target)) :
    Records r (.cleared r :: h) (some { target with sock := -1 }) :=
  ⟨(address_silent rfl rfl).trans ho.1, if_pos rfl⟩

theorem Records.cleared_none (ho : Records r h none) : Records r (.cleared r :: h) none :=
  ⟨(address_silent rfl rfl).trans ho.1, if_pos rfl⟩

theorem Records.connected {target : Target} {sock : Int} (ho : Records r h (some target))
    (hsock : 0 ≤ sock) : Records r (.connected r sock :: h) (some { target with sock := sock }) :=
  ⟨(address_silent rfl rfl).trans ho.1, (if_pos rfl).trans (if_pos hsock).symm⟩

/-- The report that introduces the rank. -/
theorem Records.reported_none {ip : UInt32} {port : UInt16} {connfd : Int}
    (ho : Records r h none) (hconnfd : 0 ≤ connfd) :
    Records r (.reported r ip port connfd :: h)
      (some { rank := r, ip := ip, port := port, sock := connfd }) := by
  constructor
  · rw [address_reported, ho.1]
    rfl
  · exact (if_pos ⟨rfl, ho.1⟩).trans (if_pos hconnfd).symm

theorem Records.reported_some {ip : UInt32} {port : UInt16} {connfd : Int} {target : Target}
    (ho : Records r h (some target)) :
    Records r (.reported r ip port connfd :: h) (some target) := by
  obtain ⟨haddress, hdescriptor⟩ := ho
  constructor
  · rw [address_reported, haddress]
    rfl
  · have hknown : ¬ (r = r ∧ address r h = none) := by
      rintro ⟨-, hnone⟩
      cases haddress.symm.trans hnone
    exact (if_neg hknown).trans hdescriptor

/-- One entry is written, by the event of its rank. -/
theorem records_update {socks : Int → Option Target} (hall : ∀ r, Records r h (socks r))
    {o : Option Target} (hnew : Records e.rank (e :: h) o) :
    ∀ r, Records r (e :: h) (Function.update socks e.rank o r) := by
  intro r
  by_cases hr : e.rank = r
  · subst hr
    rw [Function.update_self]
    exact hnew
  · rw [Function.update_of_ne (Ne.symm hr)]
    exact (hall r).other hr

/-- No entry is written. -/
theorem records_same {socks : Int → Option Target} (hall : ∀ r, Records r h (socks r))
    (hsame : Records e.rank (e :: h) (socks e.rank)) : ∀ r, Records r (e :: h) (socks r) := by
  have hupdate := records_update hall hsame
  rwa [Function.update_eq_self] at hupdate

/-- Unless its socket is given up, a rank that was connected has a descriptor. -/
theorem descriptor_of_connected {sock : Int} {mid older : List RegistryEvent}
    (hmid : ∀ e ∈ mid, e.resets r = false) :
    descriptor r (mid ++ .connected r sock :: older) ≠ none := by
  induction mid with
  | nil =>
      show (if r = r then some sock else _) ≠ none
      rw [if_pos rfl]
      exact Option.some_ne_none sock
  | cons e mid ih =>
      obtain ⟨he, hmid⟩ := List.forall_mem_cons.mp hmid
      have hrest := ih hmid
      cases e with
      | registered rank ip port =>
          have hne : ¬ rank = r := of_decide_eq_false he
          rw [List.cons_append, descriptor, if_neg hne]
          exact hrest
      | cleared rank =>
          have hne : ¬ rank = r := of_decide_eq_false he
          rw [List.cons_append, descriptor, if_neg hne]
          exact hrest
      | reported rank ip port connfd =>
          rw [List.cons_append, descriptor]
          split
          · exact Option.some_ne_none connfd
          · exact hrest
      | connected rank sock' =>
          rw [List.cons_append, descriptor]
          split
          · exact Option.some_ne_none sock'
          · exact hrest

/-- The history begins with another event. -/
theorem OncePerReset.cons (ho : OncePerReset r h) (hne : ∀ sock, e ≠ .connected r sock) :
    OncePerReset r (e :: h) := by
  intro newer mid older sock sock' heq
  cases newer with
  | nil => exact absurd (List.cons.inj heq).1 (hne sock')
  | cons x newer => exact ho newer mid older sock sock' (List.cons.inj heq).2

/-- A connection is opened when there is none. -/
theorem OncePerReset.connected (ho : OncePerReset r h) (hnone : descriptor r h = none)
    (sock : Int) : OncePerReset r (.connected r sock :: h) := by
  intro newer mid older first second heq
  cases newer with
  | nil =>
      obtain ⟨-, rfl⟩ := List.cons.inj heq
      by_contra hmid
      push Not at hmid
      have hkept : ∀ e ∈ mid, e.resets r = false := fun e he =>
        Bool.eq_false_iff.mpr (hmid e he)
      exact descriptor_of_connected hkept hnone
  | cons x newer => exact ho newer mid older first second (List.cons.inj heq).2

/-! ## The registry with its calls -/

/-- `connecting` has the address that a call copied before `connect`; the call holds the element
of the rank until it returns. `answers` has what the calls have returned. -/
structure HistoryState where
  node : Node
  connecting : Int → Option (UInt32 × UInt16) := fun _ => none
  answers : List (Int × Int) := []
  history : List RegistryEvent := []

namespace HistoryState

inductive Label where
  | registerTarget (rank : Int) (ip : UInt32) (port : UInt16)
  | clearSendSocket (rank : Int)
  | rankReport (rank : Int) (ip : UInt32) (port : UInt16) (connfd : Int)
  | close (fd : Int)
  | find (rank : Int)
  | connect (rank : Int) (a : ConnectOutcome)
deriving DecidableEq, Repr

def step (s : HistoryState) : Label → Option HistoryState
  | .registerTarget rank ip port =>
      if s.connecting rank = none then
        some { s with
          node := s.node.registerTarget rank ip port
          history := .registered rank ip port :: s.history }
      else none
  | .clearSendSocket rank =>
      if s.connecting rank = none then
        some { s with
          node := s.node.clearSendSocket rank
          history := .cleared rank :: s.history }
      else none
  -- `insert` without an accessor does not wait for the element
  | .rankReport rank ip port connfd =>
      if 0 ≤ connfd then
        some { s with
          node := s.node.insert rank { rank := rank, ip := ip, port := port, sock := connfd }
          history := .reported rank ip port connfd :: s.history }
      else none
  | .close fd => some { s with node := s.node.setFd fd none }
  | .find rank =>
      if s.connecting rank = none then
        match s.node.connectAddress rank with
        | none =>
            let sock := ((s.node.socks rank).map (·.sock)).getD (-1)
            some { s with answers := s.answers ++ [(rank, sock)] }
        | some address =>
            some { s with connecting := Function.update s.connecting rank (some address) }
      else none
  | .connect rank a =>
      if s.connecting rank = none then none
      else
        match s.node.getSendSocket rank a with
        | none => none
        | some (sock, node) =>
            some
              { node := node
                connecting := Function.update s.connecting rank none
                answers := s.answers ++ [(rank, sock)]
                history := if sock < 0 then s.history else .connected rank sock :: s.history }

def machine (n : Node) : Machine HistoryState Label where
  init := { node := { n with socks := fun _ => none } }
  step := step

variable {s s' : HistoryState} {l : Label}

/-- A call that takes the element of the rank returns `sock` at once. -/
def Answers (s : HistoryState) (r sock : Int) : Prop :=
  ∀ s', s.step (.find r) = some s' → s' = { s with answers := s.answers ++ [(r, sock)] }

/-- A call that takes the element of the rank goes on to connect to the address. -/
def Connects (s : HistoryState) (r : Int) (addr : UInt32 × UInt16) : Prop :=
  ∀ s', s.step (.find r) = some s' →
    s' = { s with connecting := Function.update s.connecting r (some addr) }

structure FollowsHistory (s : HistoryState) : Prop where
  never : ∀ r, (∀ e ∈ s.history, e.registers r = none ∧ e.reports r = none) →
    s.Answers r (-1)
  connected : ∀ r sock, descriptor r s.history = some sock → s.Answers r sock
  otherwise : ∀ r addr, descriptor r s.history = none → address r s.history = some addr →
    s.Connects r addr
  connecting : ∀ r addr, s.connecting r = some addr →
    descriptor r s.history = none ∧ address r s.history = some addr
  once : ∀ r, OncePerReset r s.history

/-- Nothing is entered under the descriptor 0. -/
def NotZero (s : HistoryState) : Label → Prop
  | .rankReport rank _ _ connfd => s.node.socks rank = none → connfd ≠ 0
  | .connect _ (.connected fd _ report) => s.node.Reported report → fd ≠ 0
  | _ => True

instance (s : HistoryState) : ∀ l, Decidable (s.NotZero l)
  | .rankReport rank _ _ connfd =>
      inferInstanceAs (Decidable (s.node.socks rank = none → connfd ≠ 0))
  | .connect _ (.connected fd _ report) =>
      inferInstanceAs (Decidable (s.node.Reported report → fd ≠ 0))
  | .connect _ .noSocket | .connect _ (.refused _) | .registerTarget _ _ _ | .clearSendSocket _
  | .close _ | .find _ => .isTrue trivial

/-! ## The entries -/

structure Recorded (s : HistoryState) : Prop where
  entries : ∀ r, Records r s.history (s.node.socks r)
  connecting : ∀ r addr, s.connecting r = some addr → s.node.connectAddress r = some addr

theorem connectAddress_congr {n n' : Node} (h : n'.socks r = n.socks r) :
    n'.connectAddress r = n.connectAddress r := by
  unfold Node.connectAddress
  rw [h]

theorem connectAddress_eq_some {n : Node} {addr : UInt32 × UInt16} :
    n.connectAddress r = some addr ↔ ∃ target, n.socks r = some target ∧ ¬ 0 < target.sock ∧
      addr = (target.ip, target.port) := by
  unfold Node.connectAddress
  rw [Option.bind_eq_some_iff]
  constructor
  · rintro ⟨target, htarget, h⟩
    split at h
    case isTrue => cases h
    case isFalse hsock => exact ⟨target, htarget, hsock, (Option.some.inj h).symm⟩
  · rintro ⟨target, htarget, hsock, rfl⟩
    exact ⟨target, htarget, if_neg hsock⟩

/-- An element that nobody holds is written. -/
theorem Recorded.setTarget (hs : Recorded s) {rank : Int} (hfree : s.connecting rank = none)
    (target : Target) :
    ∀ r addr, s.connecting r = some addr →
      (s.node.setTarget rank target).connectAddress r = some addr := by
  intro r addr hr
  have hne : r ≠ rank := by
    rintro rfl
    cases hfree.symm.trans hr
  have hsocks : (s.node.setTarget rank target).socks r = s.node.socks r :=
    Function.update_of_ne hne _ _
  rw [connectAddress_congr hsocks]
  exact hs.connecting r addr hr

theorem Recorded.registerTarget (hs : Recorded s) {rank : Int} {ip : UInt32} {port : UInt16}
    (hfree : s.connecting rank = none) :
    Recorded { s with
      node := s.node.registerTarget rank ip port
      history := .registered rank ip port :: s.history } := by
  have hsocks : ∃ target : Target, (s.node.registerTarget rank ip port) =
      s.node.setTarget rank
        { target with ip := htonl ip, port := htons port, sock := -1 } := by
    unfold Node.registerTarget
    split
    case h_1 target _ => exact ⟨target, rfl⟩
    case h_2 => exact ⟨{ rank := rank }, rfl⟩
  obtain ⟨target, htarget⟩ := hsocks
  rw [htarget]
  constructor
  · exact records_update (e := .registered rank ip port) hs.entries (records_registered _ _ _)
  · exact hs.setTarget hfree _

theorem Recorded.clearSendSocket (hs : Recorded s) {rank : Int}
    (hfree : s.connecting rank = none) :
    Recorded { s with
      node := s.node.clearSendSocket rank
      history := .cleared rank :: s.history } := by
  have hentry := hs.entries rank
  unfold Node.clearSendSocket
  split
  case h_1 hnone =>
    rw [hnone] at hentry
    refine ⟨records_same (e := .cleared rank) hs.entries ?_, hs.connecting⟩
    show Records rank _ (s.node.socks rank)
    rw [hnone]
    exact hentry.cleared_none
  case h_2 target htarget =>
    rw [htarget] at hentry
    constructor
    · exact records_update (e := .cleared rank) hs.entries hentry.cleared
    · exact hs.setTarget hfree _

theorem Recorded.rankReport (hs : Recorded s) {rank connfd : Int} {ip : UInt32} {port : UInt16}
    (hconnfd : 0 ≤ connfd) :
    Recorded { s with
      node := s.node.insert rank { rank := rank, ip := ip, port := port, sock := connfd }
      history := .reported rank ip port connfd :: s.history } := by
  have hentry := hs.entries rank
  unfold Node.insert
  split
  case h_1 target htarget =>
    rw [htarget] at hentry
    refine ⟨records_same (e := .reported rank ip port connfd) hs.entries ?_, hs.connecting⟩
    show Records rank _ (s.node.socks rank)
    rw [htarget]
    exact hentry.reported_some
  case h_2 hnone =>
    rw [hnone] at hentry
    have hfree : s.connecting rank = none := by
      by_contra hheld
      obtain ⟨addr, haddr⟩ := Option.ne_none_iff_exists'.mp hheld
      obtain ⟨target, htarget, -⟩ := connectAddress_eq_some.mp (hs.connecting rank addr haddr)
      cases hnone.symm.trans htarget
    constructor
    · exact records_update (e := .reported rank ip port connfd) hs.entries
        (hentry.reported_none hconnfd)
    · exact hs.setTarget hfree _

/-- A call that has the element asks the kernel, and gets a connection or gives up. -/
theorem Recorded.connect_cases (hs : Recorded s) {rank : Int} {a : ConnectOutcome}
    (hstep : s.step (.connect rank a) = some s') :
    ∃ target, s.node.socks rank = some target ∧ ¬ 0 < target.sock ∧
      s'.connecting = Function.update s.connecting rank none ∧
      (((∀ fd, ¬ s.node.Opens rank a fd) ∧ s'.node.socks = s.node.socks ∧
          s'.history = s.history) ∨
        ∃ sock, s.node.Opens rank a sock ∧ 0 ≤ sock ∧
          s'.node.socks =
            Function.update s.node.socks rank (some { target with sock := sock }) ∧
          s'.history = .connected rank sock :: s.history) := by
  simp only [step] at hstep
  split at hstep
  case isTrue => cases hstep
  case isFalse hheld =>
    obtain ⟨addr, haddr⟩ := Option.ne_none_iff_exists'.mp hheld
    obtain ⟨target, htarget, hsock, -⟩ := connectAddress_eq_some.mp (hs.connecting rank addr haddr)
    cases hget : s.node.getSendSocket rank a with
    | none =>
        rw [hget] at hstep
        cases hstep
    | some answer =>
        obtain ⟨sock, node⟩ := answer
        rw [hget] at hstep
        cases hstep
        refine ⟨target, htarget, hsock, rfl, ?_⟩
        rcases Node.getSendSocket_cases hget with ⟨rfl, hno, hnode⟩ |
          ⟨hno, ⟨target', htarget', hpos, -⟩, -⟩ | ⟨hopens, hfree, target', localIp, htarget', rfl⟩
        · refine Or.inl ⟨hno, ?_, rfl⟩
          rcases hnode with rfl | ⟨fd, -, rfl⟩ <;> rfl
        · obtain rfl := Option.some.inj (htarget.symm.trans htarget')
          exact absurd hpos hsock
        · obtain rfl := Option.some.inj (htarget.symm.trans htarget')
          exact Or.inr ⟨sock, hopens, hfree.1, rfl, if_neg (Int.not_lt.mpr hfree.1)⟩

theorem Recorded.connect (hs : Recorded s) {rank : Int} {a : ConnectOutcome}
    (hstep : s.step (.connect rank a) = some s') : Recorded s' := by
  obtain ⟨target, htarget, -, hconnecting, hcases⟩ := hs.connect_cases hstep
  have hother : (∀ r, r ≠ rank → s'.node.socks r = s.node.socks r) →
      ∀ r addr, s'.connecting r = some addr → s'.node.connectAddress r = some addr := by
    intro hsocks r addr hr
    rw [hconnecting] at hr
    rcases FileTable.update_eq_some.mp hr with ⟨-, hnone⟩ | ⟨hrank, hold⟩
    · cases hnone
    · rw [connectAddress_congr (hsocks r hrank)]
      exact hs.connecting r addr hold
  rcases hcases with ⟨-, hsocks, hhistory⟩ | ⟨sock, -, hsock, hsocks, hhistory⟩
  · refine ⟨?_, hother fun r _ => congrFun hsocks r⟩
    rw [hsocks, hhistory]
    exact hs.entries
  · refine ⟨?_, hother fun r hr => ?_⟩
    · have hentry := hs.entries rank
      rw [htarget] at hentry
      rw [hsocks, hhistory]
      exact records_update (e := .connected rank sock) hs.entries (hentry.connected hsock)
    · rw [hsocks, Function.update_of_ne hr]

theorem Recorded.find (hs : Recorded s) {rank : Int} (hstep : s.step (.find rank) = some s') :
    Recorded s' := by
  simp only [step, Option.ite_none_right_eq_some] at hstep
  obtain ⟨-, hstep⟩ := hstep
  split at hstep
  case h_1 =>
    cases hstep
    exact ⟨hs.entries, hs.connecting⟩
  case h_2 addr haddr =>
    cases hstep
    refine ⟨hs.entries, ?_⟩
    intro r addr' hr
    rcases FileTable.update_eq_some.mp hr with ⟨rfl, hnew⟩ | ⟨-, hold⟩
    · exact haddr.trans hnew
    · exact hs.connecting r addr' hold

theorem Recorded.step (hs : Recorded s) (hstep : s.step l = some s') : Recorded s' := by
  cases l with
  | registerTarget rank ip port =>
      simp only [HistoryState.step, Option.ite_none_right_eq_some, Option.some.injEq] at hstep
      obtain ⟨hfree, rfl⟩ := hstep
      exact hs.registerTarget hfree
  | clearSendSocket rank =>
      simp only [HistoryState.step, Option.ite_none_right_eq_some, Option.some.injEq] at hstep
      obtain ⟨hfree, rfl⟩ := hstep
      exact hs.clearSendSocket hfree
  | rankReport rank ip port connfd =>
      simp only [HistoryState.step, Option.ite_none_right_eq_some, Option.some.injEq] at hstep
      obtain ⟨hconnfd, rfl⟩ := hstep
      exact hs.rankReport hconnfd
  | close fd =>
      cases hstep
      exact ⟨hs.entries, hs.connecting⟩
  | find rank => exact hs.find hstep
  | connect rank a => exact hs.connect hstep

theorem recorded_init (n : Node) : Recorded (machine n).init :=
  ⟨fun _ => ⟨rfl, rfl⟩, by rintro _ _ ⟨⟩⟩

/-! ## Sockets that are looked at again -/

/-- No entry has the socket 0, which would be taken for none, and nothing was opened twice. -/
structure Looked (s : HistoryState) : Prop where
  sock : ∀ r target, s.node.socks r = some target → target.sock ≠ 0
  once : ∀ r, OncePerReset r s.history

theorem Looked.setTarget (hl : Looked s) {rank : Int} {target : Target} (hsock : target.sock ≠ 0) :
    ∀ r target', (s.node.setTarget rank target).socks r = some target' → target'.sock ≠ 0 := by
  intro r target' hr
  rcases FileTable.update_eq_some.mp hr with ⟨-, hnew⟩ | ⟨-, hold⟩
  · obtain rfl := Option.some.inj hnew
    exact hsock
  · exact hl.sock r target' hold

theorem Looked.registerTarget (hl : Looked s) (rank : Int) (ip : UInt32) (port : UInt16) :
    ∀ r target, (s.node.registerTarget rank ip port).socks r = some target →
      target.sock ≠ 0 := by
  have hunset : (-1 : Int) ≠ 0 := by decide
  unfold Node.registerTarget
  split
  · exact hl.setTarget hunset
  · exact hl.setTarget hunset

theorem Looked.clearSendSocket (hl : Looked s) (rank : Int) :
    ∀ r target, (s.node.clearSendSocket rank).socks r = some target → target.sock ≠ 0 := by
  have hunset : (-1 : Int) ≠ 0 := by decide
  unfold Node.clearSendSocket
  split
  · exact hl.sock
  · exact hl.setTarget hunset

theorem looked_rankReport_iff (hl : Looked s) {rank connfd : Int} {ip : UInt32} {port : UInt16}
    (hstep : s.step (.rankReport rank ip port connfd) = some s') :
    Looked s' ↔ NotZero s (.rankReport rank ip port connfd) := by
  simp only [step, Option.ite_none_right_eq_some, Option.some.injEq] at hstep
  obtain ⟨-, rfl⟩ := hstep
  have honce : ∀ r, OncePerReset r (.reported rank ip port connfd :: s.history) :=
    fun r => (hl.once r).cons fun _ => by rintro ⟨⟩
  show _ ↔ (s.node.socks rank = none → connfd ≠ 0)
  unfold Node.insert
  split
  case h_1 target htarget =>
    refine iff_of_true ⟨hl.sock, honce⟩ fun hnone => ?_
    cases hnone.symm.trans htarget
  case h_2 hnone =>
    constructor
    · intro hl' _
      exact hl'.sock rank _ (Function.update_self _ _ _)
    · intro hsock
      exact ⟨hl.setTarget (hsock hnone), honce⟩

theorem looked_connect_iff (hs : Recorded s) (hl : Looked s) {rank : Int} {a : ConnectOutcome}
    (hstep : s.step (.connect rank a) = some s') :
    Looked s' ↔ NotZero s (.connect rank a) := by
  obtain ⟨target, htarget, hneg, -, hcases⟩ := hs.connect_cases hstep
  rcases hcases with ⟨hno, hsocks, hhistory⟩ | ⟨sock, hopens, hsock, hsocks, hhistory⟩
  · have hkeep : Looked s' := by
      constructor
      · rw [hsocks]
        exact hl.sock
      · rw [hhistory]
        exact hl.once
    refine iff_of_true hkeep ?_
    cases a with
    | connected fd localIp report =>
        intro hreported
        exact absurd ⟨target, localIp, report, rfl, htarget, hneg, hreported⟩ (hno fd)
    | _ => trivial
  · obtain ⟨target', localIp, report, rfl, htarget', -, hreported⟩ := hopens
    obtain rfl := Option.some.inj (htarget.symm.trans htarget')
    have hentry : s'.node.socks rank = some { target with sock := sock } := by
      rw [hsocks, Function.update_self]
    -- the socket was given up, as it is not 0
    have hunset : descriptor rank s.history = none := by
      have hrecord := hs.entries rank
      rw [htarget] at hrecord
      have hne := hl.sock rank target htarget
      exact hrecord.2.trans (if_neg (by omega))
    constructor
    · intro hl' _
      exact hl'.sock rank _ hentry
    · intro hne
      constructor
      · rw [hsocks]
        exact hl.setTarget (hne hreported)
      · intro r
        rw [hhistory]
        by_cases hr : rank = r
        · subst hr
          exact (hl.once rank).connected hunset sock
        · exact (hl.once r).cons fun _ heq => hr (RegistryEvent.connected.inj heq).1

theorem looked_step_iff (hs : Recorded s) (hl : Looked s) (hstep : s.step l = some s') :
    Looked s' ↔ NotZero s l := by
  cases l with
  | registerTarget rank ip port =>
      simp only [step, Option.ite_none_right_eq_some, Option.some.injEq] at hstep
      obtain ⟨-, rfl⟩ := hstep
      exact iff_of_true ⟨hl.registerTarget rank ip port,
        fun r => (hl.once r).cons fun _ => by rintro ⟨⟩⟩ trivial
  | clearSendSocket rank =>
      simp only [step, Option.ite_none_right_eq_some, Option.some.injEq] at hstep
      obtain ⟨-, rfl⟩ := hstep
      exact iff_of_true ⟨hl.clearSendSocket rank,
        fun r => (hl.once r).cons fun _ => by rintro ⟨⟩⟩ trivial
  | rankReport rank ip port connfd => exact looked_rankReport_iff hl hstep
  | close fd =>
      cases hstep
      exact iff_of_true ⟨hl.sock, hl.once⟩ trivial
  | find rank =>
      simp only [step, Option.ite_none_right_eq_some] at hstep
      obtain ⟨-, hstep⟩ := hstep
      split at hstep
      · cases hstep
        exact iff_of_true ⟨hl.sock, hl.once⟩ trivial
      · cases hstep
        exact iff_of_true ⟨hl.sock, hl.once⟩ trivial
  | connect rank a => exact looked_connect_iff hs hl hstep

/-! ## What the calls answer -/

theorem answers_of_connectAddress (h : s.node.connectAddress r = none) :
    s.Answers r (((s.node.socks r).map (·.sock)).getD (-1)) := by
  intro s' hstep
  simp only [step, Option.ite_none_right_eq_some] at hstep
  obtain ⟨-, hstep⟩ := hstep
  rw [h] at hstep
  exact (Option.some.inj hstep).symm

theorem connects_of_connectAddress {addr : UInt32 × UInt16}
    (h : s.node.connectAddress r = some addr) : s.Connects r addr := by
  intro s' hstep
  simp only [step, Option.ite_none_right_eq_some] at hstep
  obtain ⟨-, hstep⟩ := hstep
  rw [h] at hstep
  exact (Option.some.inj hstep).symm

/-- What a call finds out about a rank that has an entry. -/
theorem Recorded.connectAddress_eq (hs : Recorded s) {target : Target}
    (htarget : s.node.socks r = some target) (hne : target.sock ≠ 0) :
    (0 < target.sock ∧ descriptor r s.history = some target.sock ∧
        s.node.connectAddress r = none) ∨
      (¬ 0 < target.sock ∧ descriptor r s.history = none ∧
        s.node.connectAddress r = address r s.history) := by
  have hentry := hs.entries r
  rw [htarget] at hentry
  obtain ⟨haddress, hdescriptor⟩ := hentry
  by_cases hpos : 0 < target.sock
  · refine Or.inl ⟨hpos, hdescriptor.trans (if_pos (Int.le_of_lt hpos)), ?_⟩
    rw [Node.connectAddress_some htarget, if_pos hpos]
  · refine Or.inr ⟨hpos, hdescriptor.trans (if_neg (by omega)), ?_⟩
    rw [haddress]
    exact connectAddress_eq_some.mpr ⟨target, htarget, hpos, rfl⟩

theorem Looked.followsHistory (hl : Looked s) (hs : Recorded s) : FollowsHistory s := by
  constructor
  case never =>
    intro r hnever
    have hnone := address_eq_none_iff.mpr hnever
    have hentry := hs.entries r
    cases htarget : s.node.socks r with
    | none =>
        have hanswers := answers_of_connectAddress (Node.connectAddress_none htarget)
        rw [htarget] at hanswers
        exact hanswers
    | some target =>
        rw [htarget] at hentry
        cases hnone.symm.trans hentry.1
  case connected =>
    intro r sock hsock
    have hentry := hs.entries r
    cases htarget : s.node.socks r with
    | none =>
        rw [htarget] at hentry
        cases hsock.symm.trans hentry.2
    | some target =>
        rcases hs.connectAddress_eq htarget (hl.sock r target htarget) with
          ⟨-, hdescriptor, haddress⟩ | ⟨-, hdescriptor, -⟩
        · obtain rfl := Option.some.inj (hsock.symm.trans hdescriptor)
          have hanswers := answers_of_connectAddress haddress
          rw [htarget] at hanswers
          exact hanswers
        · cases hsock.symm.trans hdescriptor
  case otherwise =>
    intro r addr hnone haddr
    have hentry := hs.entries r
    cases htarget : s.node.socks r with
    | none =>
        rw [htarget] at hentry
        cases haddr.symm.trans hentry.1
    | some target =>
        rcases hs.connectAddress_eq htarget (hl.sock r target htarget) with
          ⟨-, hdescriptor, -⟩ | ⟨-, -, haddress⟩
        · cases hnone.symm.trans hdescriptor
        · exact connects_of_connectAddress (haddress.trans haddr)
  case connecting =>
    intro r addr hr
    have hconnect := hs.connecting r addr hr
    obtain ⟨target, htarget, hneg, -⟩ := connectAddress_eq_some.mp hconnect
    rcases hs.connectAddress_eq htarget (hl.sock r target htarget) with
      ⟨hpos, -, -⟩ | ⟨-, hdescriptor, haddress⟩
    · exact absurd hpos hneg
    · exact ⟨hdescriptor, haddress.symm.trans hconnect⟩
  case once => exact hl.once

theorem FollowsHistory.looked (hf : FollowsHistory s) (hs : Recorded s) : Looked s := by
  refine ⟨?_, hf.once⟩
  intro r target htarget hzero
  have hentry := hs.entries r
  rw [htarget] at hentry
  have hdescriptor : descriptor r s.history = some 0 := by
    rw [hentry.2, hzero]
    rfl
  cases hconnecting : s.connecting r with
  | some addr =>
      cases hdescriptor.symm.trans (hf.connecting r addr hconnecting).1
  | none =>
      -- a call would connect, where the history has the descriptor 0
      have haddr : s.node.connectAddress r = some (target.ip, target.port) :=
        connectAddress_eq_some.mpr ⟨target, htarget, by omega, rfl⟩
      have hstep : s.step (.find r) = some { s with
          connecting := Function.update s.connecting r (some (target.ip, target.port)) } := by
        simp only [step, if_pos hconnecting, haddr]
      have hanswers := hf.connected r 0 hdescriptor _ hstep
      have hsame := congrFun (congrArg HistoryState.connecting hanswers) r
      change Function.update s.connecting r _ r = s.connecting r at hsame
      rw [Function.update_self, hconnecting] at hsame
      cases hsame

/-- A call that nobody interrupts is `getSendSocket`. -/
theorem find_connect {n : Node} (hfree : s.connecting r = none) {addr : UInt32 × UInt16}
    (haddr : s.node.connectAddress r = some addr) (a : ConnectOutcome) :
    (machine n).runFrom s [.find r, .connect r a] = (s.node.getSendSocket r a).map fun x =>
      { s with
        node := x.2
        answers := s.answers ++ [(r, x.1)]
        history := if x.1 < 0 then s.history else .connected r x.1 :: s.history } := by
  let held := Function.update s.connecting r (some addr)
  have hfind : s.step (.find r) = some { s with connecting := held } := by
    simp only [step, if_pos hfree, haddr]
    rfl
  have hheld : ¬ held r = none := by
    show ¬ Function.update s.connecting r (some addr) r = none
    rw [Function.update_self]
    exact Option.some_ne_none addr
  have hreleased : Function.update held r none = s.connecting := by
    show Function.update (Function.update s.connecting r (some addr)) r none = s.connecting
    rw [Function.update_idem, ← hfree, Function.update_eq_self]
  show (s.step (.find r)).bind (Machine.runFrom (machine n) · [.connect r a]) = _
  rw [hfind, Option.bind_some, Machine.runFrom_singleton]
  show ({ s with connecting := held } : HistoryState).step (.connect r a) = _
  simp only [step, if_neg hheld, hreleased]
  cases s.node.getSendSocket r a <;> rfl

/-- **The registry follows its history**, whatever the calls that connect meanwhile, exactly when
no connection and no report that introduces a rank comes on the descriptor 0. -/
theorem followsHistory_iff (n : Node) {ls : List Label} (hrun : (machine n).Runs ls s) :
    (machine n).Meets NotZero (machine n).init ls ↔
      ∀ pre t, pre <+: ls → (machine n).Runs pre t → FollowsHistory t := by
  apply hrun.meets_iff_of_invariant (I := Looked) (recorded_init n)
  · exact ⟨by rintro _ _ ⟨⟩, fun _ newer _ _ _ _ heq => by cases newer <;> cases heq⟩
  · exact fun _ _ _ hs hstep => hs.step hstep
  · exact fun _ _ _ hs hl hstep => looked_step_iff hs hl hstep
  · exact fun _ hs => ⟨fun hf => hf.looked hs, fun hl => hl.followsHistory hs⟩

/-- A rank reports itself, its socket is cleared, a connection to it fails, it is registered at
another address, and then a connection is made to that. -/
theorem followsHistory_iff_run :
    let n : Node := { myRank := 1, listenPort := 9000 }
    ∃ s, (machine n).Runs
      [.rankReport 3 (htonl 0x7F000001) (htons 8000) 5, .find 3, .clearSendSocket 3, .find 3,
        .connect 3 (.refused 6), .registerTarget 3 0x7F000002 8001, .find 3,
        .rankReport 3 0 0 7, .connect 3 (.connected 8 0 (.wrote 12)), .find 3] s ∧
      s.answers = [(3, 5), (3, -1), (3, 8), (3, 8)] ∧
      address 3 s.history = some (htonl 0x7F000002, htons 8001) ∧
      descriptor 3 s.history = some 8 ∧ FollowsHistory s := by
  intro n
  have hrun : (machine n).Runs
    [.rankReport 3 (htonl 0x7F000001) (htons 8000) 5, .find 3, .clearSendSocket 3, .find 3,
      .connect 3 (.refused 6), .registerTarget 3 0x7F000002 8001, .find 3,
      .rankReport 3 0 0 7, .connect 3 (.connected 8 0 (.wrote 12)), .find 3] _ := rfl
  exact ⟨_, hrun, by decide, by decide, by decide,
    (followsHistory_iff n hrun).mp (by decide +kernel) _ _ List.prefix_rfl hrun⟩

/-- The connection with the descriptor 0 is opened again. -/
theorem not_followsHistory :
    let n : Node := { myRank := 1, listenPort := 9000 }
    ∃ s, (machine n).Runs
      [.registerTarget 3 0x7F000001 8000, .find 3, .connect 3 (.connected 0 0 (.wrote 12)),
        .find 3, .connect 3 (.connected 4 0 (.wrote 12))] s ∧
      s.answers = [(3, 0), (3, 4)] ∧
      s.history = [.connected 3 4, .connected 3 0, .registered 3 0x7F000001 8000] ∧
      ¬ FollowsHistory s := by
  refine ⟨_, rfl, by decide, by decide, fun hf => ?_⟩
  obtain ⟨e, he, -⟩ := hf.once 3 [] [] [.registered 3 0x7F000001 8000] 0 4 (by decide)
  exact absurd he List.not_mem_nil

end HistoryState

end Npp.Network
