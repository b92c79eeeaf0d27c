import Npp.Foundation.FileTable
import Npp.Foundation.HandleTable
import Npp.Foundation.Machine
import Npp.Network.Node

/-!
# Names for descriptors that are used again

The epoll thread, any number of threads that register targets and send messages, and peers that
write and hang up, in any order. An event of the epoll loop is one step: it takes effect where its
last `read` returns, and only that thread reads. An entry of `socks` with a socket must lead to a
connection of its rank, and so must the socket that a `sendMessage` still holds.
-/

namespace Npp.Network

open Npp.Foundation

def Connection.BelongsTo (c : Connection) (rank : Int) : Prop :=
  c.openedTo = some rank ∨ rank ∈ c.reported

instance (c : Connection) (rank : Int) : Decidable (c.BelongsTo rank) :=
  inferInstanceAs (Decidable (_ ∨ _))

/-- `server` is how the last event ended; after a failed assertion the process is gone. `written`
has the rank of each frame that went out, and the connection it went to. -/
structure ServiceState (θ : Type) where
  node : Node
  senders : θ → Option Sender := fun _ => none
  server : Fate := .done
  written : List (Int × Connection) := []

namespace ServiceState

inductive Label (θ : Type) where
  | registerTarget (rank : Int) (ip : UInt32) (port : UInt16)
  | sendMessage (t : θ) (rank : Int) (data : List UInt8) (retry : Int)
  | getSendSocket (t : θ) (a : ConnectOutcome)
  | writev (t : θ) (o : WriteOutcome)
  | clearSendSocket (t : θ)
  | accept (connfd : Int) (localIp : UInt32)
  | peerSends (fd : Int) (bytes : List UInt8)
  | peerDisconnects (fd : Int)
  | readable (connfd : Int) (o : Oracle)

variable {θ : Type} [DecidableEq θ]

def destination (n : Node) (x : Sender) (o : WriteOutcome) : List (Int × Connection) :=
  match x.phase, o with
  | .holding sock _, .wrote _ => ((n.connection sock).map fun c => (x.rank, c)).toList
  | _, _ => []

def setSender (s : ServiceState θ) (t : θ) (r : Sender × Node) : ServiceState θ :=
  { s with node := r.2, senders := Function.update s.senders t (some r.1) }

def act (s : ServiceState θ) : Label θ → Option (ServiceState θ)
  | .registerTarget rank ip port => some { s with node := s.node.registerTarget rank ip port }
  | .sendMessage t rank data retry =>
      match s.senders t with
      | none => some (s.setSender t (.call rank data retry, s.node))
      | some x =>
          match x.phase with
          | .returned | .threw _ => some (s.setSender t (.call rank data retry, s.node))
          | _ => none
  | .getSendSocket t a =>
      (s.senders t).bind fun x => (x.getSendSocket s.node a).map (s.setSender t)
  | .writev t o =>
      (s.senders t).bind fun x => (x.writev s.node o).map fun r =>
        { s.setSender t r with written := s.written ++ destination s.node x o }
  | .clearSendSocket t =>
      (s.senders t).bind fun x => (x.clearSendSocket s.node).map (s.setSender t)
  | .accept connfd localIp =>
      if s.server = .done ∧ s.node.Free connfd then
        some { s with node := s.node.accept connfd localIp }
      else none
  | .peerSends fd bytes =>
      (s.node.connection fd).bind fun c =>
        if c.hungUp then none
        else
          some { s with
            node := s.node.setFd fd (some (.connection { c with unread := c.unread ++ bytes })) }
  | .peerDisconnects fd =>
      (s.node.connection fd).map fun c =>
        { s with node := s.node.setFd fd (some (.connection { c with hungUp := true })) }
  | .readable connfd o =>
      (s.node.connection connfd).bind fun c =>
        if s.server = .done ∧ (c.unread ≠ [] ∨ c.hungUp = true) then
          let handled := handleEvent o c.unread
          -- a `read` that waits has not returned yet
          if handled.fate = .blocked then none
          else some { s with node := s.node.handle connfd c handled, server := handled.fate }
        else none

def step (s : ServiceState θ) (l : Label θ) : Option (ServiceState θ) :=
  if s.server = .aborted then none else s.act l

def machine (θ : Type) [DecidableEq θ] (myRank : Int) (listenPort : UInt16) :
    Machine (ServiceState θ) (Label θ) where
  init := { node := { myRank := myRank, listenPort := listenPort } }
  step := step

/-- No rank leads to a connection of another. -/
structure Named (s : ServiceState θ) : Prop where
  entries : ∀ rank target, s.node.socks rank = some target → 0 < target.sock →
    ∃ c, s.node.fds target.sock = some (.connection c) ∧ c.BelongsTo rank
  sends : ∀ t x sock retry c, s.senders t = some x → x.phase = .holding sock retry →
    s.node.fds sock = some (.connection c) → c.BelongsTo x.rank
  written : ∀ rank c, (rank, c) ∈ s.written → c.BelongsTo rank

/-- An event closes no descriptor that an entry names, nor one that it enters itself, and no number
is used again while a call of `sendMessage` holds it for another rank. -/
def KeepsNames (s : ServiceState θ) : Label θ → Prop
  | .getSendSocket t a =>
      ∀ x fd, s.senders t = some x → s.node.Opens x.rank a fd →
        ∀ t' y retry, s.senders t' = some y → y.phase = .holding fd retry → y.rank = x.rank
  | .accept connfd _ => ∀ t x retry, s.senders t = some x → x.phase ≠ .holding connfd retry
  | .readable connfd o =>
      ∀ c, s.node.connection connfd = some c → (handleEvent o c.unread).closed = true →
        0 < connfd →
        (∀ rank target, s.node.socks rank = some target → target.sock ≠ connfd) ∧
        ∀ rank ∈ (handleEvent o c.unread).action.ranks, s.node.socks rank ≠ none
  | _ => True

end ServiceState

/-! ## The tables as names for handles -/

namespace Node

def name (n : Node) (rank : Int) : Option Int :=
  (n.socks rank).bind fun target => if 0 < target.sock then some target.sock else none

variable {n : Node} {rank fd : Int}

theorem name_eq_some :
    n.name rank = some fd ↔ ∃ target, n.socks rank = some target ∧ target.sock = fd ∧ 0 < fd := by
  simp only [name, Option.bind_eq_some_iff, Option.ite_none_right_eq_some, Option.some.injEq]
  constructor
  · rintro ⟨target, htarget, hpos, rfl⟩
    exact ⟨target, htarget, rfl, hpos⟩
  · rintro ⟨target, htarget, rfl, hpos⟩
    exact ⟨target, htarget, hpos, rfl⟩

theorem name_setTarget {target : Target} {k j : Int}
    (h : (n.setTarget rank target).name k = some j) :
    n.name k = some j ∨ (k = rank ∧ j = target.sock ∧ 0 < j) := by
  obtain ⟨entry, hentry, hsock, hpos⟩ := name_eq_some.mp h
  rcases FileTable.update_eq_some.mp hentry with ⟨hk, hnew⟩ | ⟨-, hold⟩
  · obtain rfl := Option.some.inj hnew
    exact Or.inr ⟨hk, hsock.symm, hpos⟩
  · exact Or.inl (name_eq_some.mpr ⟨entry, hold, hsock, hpos⟩)

/-- An entry without a socket names nothing. -/
theorem name_setTarget_unset {target : Target} {k j : Int} (hsock : target.sock = -1)
    (h : (n.setTarget rank target).name k = some j) : n.name k = some j := by
  rcases name_setTarget h with h | ⟨-, hj, hpos⟩
  · exact h
  · omega

theorem name_registerTarget {ip : UInt32} {port : UInt16} {k j : Int}
    (h : (n.registerTarget rank ip port).name k = some j) : n.name k = some j := by
  unfold registerTarget at h
  split at h <;> exact name_setTarget_unset rfl h

theorem name_clearSendSocket {k j : Int} (h : (n.clearSendSocket rank).name k = some j) :
    n.name k = some j := by
  unfold clearSendSocket at h
  split at h
  · exact h
  · exact name_setTarget_unset rfl h

/-! ### An event -/

variable {c : Connection} {handled : Handled}

def afterEvent (c : Connection) (handled : Handled) : Connection :=
  { c with unread := handled.rest, reported := c.reported ++ handled.action.ranks }

theorem handle_fds : (n.handle fd c handled).fds = Function.update n.fds fd
    (if handled.closed then none else some (.connection (afterEvent c handled))) := by
  obtain ⟨rest, closed, action, fate⟩ := handled
  cases action with
  | none => rfl
  | process content => rfl
  | insertRank rank port =>
      unfold handle insert
      dsimp only
      split <;> rfl

theorem connection_handle : (n.handle fd c handled).connection =
    Function.update n.connection fd
      (if handled.closed then none else some (afterEvent c handled)) := by
  have hfds : (n.handle fd c handled).fds = (n.setFd fd (if handled.closed then none else
      some (.connection (afterEvent c handled)))).fds := handle_fds
  rw [connection_eq_of_fds hfds, connection_setFd]
  split <;> rfl

theorem name_handle {k j : Int} : (n.handle fd c handled).name k = some j ↔
    n.name k = some j ∨
      (k ∈ handled.action.ranks ∧ n.socks k = none ∧ j = fd ∧ 0 < fd) := by
  obtain ⟨rest, closed, action, fate⟩ := handled
  cases action with
  | none => simp [handle, Action.ranks, name]
  | process content => simp [handle, Action.ranks, name]
  | insertRank rank port =>
      simp only [handle, Action.ranks, List.mem_singleton]
      unfold insert
      rw [setFd_socks]
      split
      case h_1 target htarget =>
        constructor
        · intro h
          exact Or.inl h
        · rintro (h | ⟨rfl, hnone, -⟩)
          · exact h
          · rw [htarget] at hnone
            cases hnone
      case h_2 hnone =>
        constructor
        · intro h
          rcases name_setTarget h with h | ⟨rfl, hj, hpos⟩
          · exact Or.inl h
          · have hfd : j = fd := hj
            exact Or.inr ⟨rfl, hnone, hfd, hfd ▸ hpos⟩
        · rintro (h | ⟨rfl, -, rfl, hpos⟩)
          · obtain ⟨target, htarget, hsock, hpos⟩ := name_eq_some.mp h
            have hk : k ≠ rank := by
              rintro rfl
              rw [hnone] at htarget
              cases htarget
            apply name_eq_some.mpr
            refine ⟨target, ?_, hsock, hpos⟩
            show Function.update n.socks rank _ k = some target
            rw [Function.update_of_ne hk, htarget]
          · apply name_eq_some.mpr
            exact ⟨_, Function.update_self _ _ _, rfl, hpos⟩

end Node

namespace ServiceState

variable {θ : Type} {s s' : ServiceState θ}

def Holds (s : ServiceState θ) (rank fd : Int) : Prop :=
  ∃ t x retry, s.senders t = some x ∧ x.rank = rank ∧ x.phase = .holding fd retry

def handles (s : ServiceState θ) : HandleTable Int Int Connection where
  table := s.node.connection
  name := s.node.name
  held := s.Holds

/-- The invariant is that of the table of handles. -/
theorem named_iff : Named s ↔ s.handles.Sound Connection.BelongsTo ∧
    ∀ rank c, (rank, c) ∈ s.written → c.BelongsTo rank := by
  constructor
  · intro h
    refine ⟨⟨?_, ?_⟩, h.written⟩
    · intro rank fd hname
      obtain ⟨target, htarget, rfl, hpos⟩ := Node.name_eq_some.mp hname
      obtain ⟨c, hc, hrank⟩ := h.entries rank target htarget hpos
      exact ⟨c, Node.connection_eq_some.mpr hc, hrank⟩
    · rintro rank fd c ⟨t, x, retry, hx, rfl, hphase⟩ hc
      exact h.sends t x fd retry c hx hphase (Node.connection_eq_some.mp hc)
  · rintro ⟨h, hwritten⟩
    refine ⟨?_, ?_, hwritten⟩
    · intro rank target htarget hpos
      obtain ⟨c, hc, hrank⟩ := h.named rank target.sock
        (Node.name_eq_some.mpr ⟨target, htarget, rfl, hpos⟩)
      exact ⟨c, Node.connection_eq_some.mp hc, hrank⟩
    · intro t x sock retry c hx hphase hc
      exact h.held x.rank sock c ⟨t, x, retry, hx, rfl, hphase⟩ (Node.connection_eq_some.mpr hc)

/-! ## What each step does to the names -/

/-- A step that opens and closes nothing, and holds only what it looked up. -/
theorem Named.lookup (h : Named s) (htable : s'.node.connection = s.node.connection)
    (hname : ∀ k j, s'.node.name k = some j → s.node.name k = some j)
    (hheld : ∀ k j, s'.Holds k j → s.Holds k j ∨ s.node.name k = some j)
    (hwritten : s'.written = s.written) : Named s' := by
  obtain ⟨hsound, hold⟩ := named_iff.mp h
  apply named_iff.mpr
  refine ⟨hsound.lookup htable hname hheld, ?_⟩
  rw [hwritten]
  exact hold

/-- A step that only adds to a connection. -/
theorem Named.grow (h : Named s) {fd : Int} {c c' : Connection}
    (hc : s.node.connection fd = some c) (hgrow : ∀ rank, c.BelongsTo rank → c'.BelongsTo rank)
    (htable : s'.node.connection = Function.update s.node.connection fd (some c'))
    (hname : ∀ k j, s'.node.name k = some j →
      s.node.name k = some j ∨ (j = fd ∧ c'.BelongsTo k))
    (hheld : ∀ k j, s'.Holds k j → s.Holds k j)
    (hwritten : ∀ rank c, (rank, c) ∈ s'.written →
      (rank, c) ∈ s.written ∨ c.BelongsTo rank) : Named s' := by
  obtain ⟨hsound, hold⟩ := named_iff.mp h
  apply named_iff.mpr
  refine ⟨hsound.replace hc hgrow htable hname hheld, ?_⟩
  intro rank c hmem
  rcases hwritten rank c hmem with hmem | hrank
  · exact hold rank c hmem
  · exact hrank

/-- A step that opens a connection. -/
theorem Named.open_iff (h : Named s) {fd : Int} {c : Connection}
    (hfree : s.node.connection fd = none)
    (htable : s'.node.connection = Function.update s.node.connection fd (some c))
    (hname : ∀ k j, s'.node.name k = some j →
      s.node.name k = some j ∨ (j = fd ∧ c.BelongsTo k))
    (hheld : ∀ k j, s'.Holds k j → s.Holds k j ∨ (j = fd ∧ c.BelongsTo k))
    (hkeep : ∀ k j, s.Holds k j → s'.Holds k j) (hwritten : s'.written = s.written) :
    Named s' ↔ ∀ k, s.Holds k fd → c.BelongsTo k := by
  obtain ⟨hsound, hold⟩ := named_iff.mp h
  rw [named_iff, hwritten, and_iff_left hold]
  exact HandleTable.sound_open_iff hsound hfree htable hname hheld hkeep

/-- A step that closes a connection. -/
theorem Named.close_iff (h : Named s) {fd : Int}
    (htable : s'.node.connection = Function.update s.node.connection fd none)
    (hname : ∀ k j, s'.node.name k = some j → s.node.name k = some j ∨ j = fd)
    (hheld : ∀ k j, s'.Holds k j → s.Holds k j) (hwritten : s'.written = s.written) :
    Named s' ↔ ∀ k, s'.node.name k ≠ some fd := by
  obtain ⟨hsound, hold⟩ := named_iff.mp h
  rw [named_iff, hwritten, and_iff_left hold]
  exact HandleTable.sound_close_iff hsound htable hname hheld

theorem named_registerTarget (h : Named s) (rank : Int) (ip : UInt32) (port : UInt16) :
    Named { s with node := s.node.registerTarget rank ip port } := by
  apply h.lookup
  · exact Node.connection_eq_of_fds (Node.registerTarget_fds _ ip port)
  · intro k j
    exact Node.name_registerTarget
  · intro k j hk
    exact Or.inl hk
  · rfl

theorem named_accept_iff (h : Named s) {connfd : Int} (localIp : UInt32)
    (hfree : s.node.Free connfd) :
    Named { s with node := s.node.accept connfd localIp } ↔
      KeepsNames s (.accept connfd localIp) := by
  have hnobody : ∀ rank, ¬ ({ localIp := localIp } : Connection).BelongsTo rank := by
    intro rank
    simp [Connection.BelongsTo]
  have hiff : Named { s with node := s.node.accept connfd localIp } ↔
      ∀ k, s.Holds k connfd → ({ localIp := localIp } : Connection).BelongsTo k := by
    refine h.open_iff hfree.connection ?_ ?_ ?_ ?_ rfl
    · exact Node.connection_setConnection _ _
    · intro k j hk
      exact Or.inl hk
    · intro k j hk
      exact Or.inl hk
    · intro k j hk
      exact hk
  rw [hiff]
  constructor
  · intro hall t x retry hx hphase
    exact hnobody x.rank (hall x.rank ⟨t, x, retry, hx, rfl, hphase⟩)
  · rintro hkeeps k ⟨t, x, retry, hx, rfl, hphase⟩
    exact absurd hphase (hkeeps t x retry hx)

/-- What a peer does to its connection. -/
theorem named_peer (h : Named s) {fd : Int} {c c' : Connection}
    (hc : s.node.connection fd = some c)
    (hsame : ∀ rank, c.BelongsTo rank → c'.BelongsTo rank) :
    Named { s with node := s.node.setFd fd (some (.connection c')) } := by
  refine h.grow hc hsame (Node.connection_setConnection fd c') ?_ ?_ ?_
  · intro k j hk
    exact Or.inl hk
  · intro k j hk
    exact hk
  · intro rank c hmem
    exact Or.inl hmem

theorem named_readable_iff (h : Named s) {connfd : Int} {c : Connection} {o : Oracle}
    (hc : s.node.connection connfd = some c) :
    Named { s with
      node := s.node.handle connfd c (handleEvent o c.unread)
      server := (handleEvent o c.unread).fate } ↔ KeepsNames s (.readable connfd o) := by
  generalize hhandled : handleEvent o c.unread = handled
  have htable : (s.node.handle connfd c handled).connection = _ := Node.connection_handle
  cases hclosed : handled.closed with
  | true =>
      -- no name may lead to the closed descriptor, an old one or one that this event enters
      rw [hclosed, if_pos rfl] at htable
      have hiff : Named { s with
          node := s.node.handle connfd c handled, server := handled.fate } ↔
          ∀ k, (s.node.handle connfd c handled).name k ≠ some connfd := by
        refine h.close_iff htable ?_ ?_ rfl
        · intro k j hk
          rcases Node.name_handle.mp hk with hk | ⟨-, -, hj, -⟩
          · exact Or.inl hk
          · exact Or.inr hj
        · intro k j hk
          exact hk
      rw [hiff]
      constructor
      · intro hunnamed c' hc' hclosed' hpos
        obtain rfl := Option.some.inj (hc.symm.trans hc')
        rw [hhandled]
        constructor
        · intro rank target htarget hsock
          exact hunnamed rank (Node.name_handle.mpr
            (Or.inl (Node.name_eq_some.mpr ⟨target, htarget, hsock, hpos⟩)))
        · intro rank hrank hnone
          exact hunnamed rank (Node.name_handle.mpr (Or.inr ⟨hrank, hnone, rfl, hpos⟩))
      · intro hkeeps k hk
        rcases Node.name_handle.mp hk with hk | ⟨hrank, hnone, -, hpos⟩
        · obtain ⟨target, htarget, hsock, hpos⟩ := Node.name_eq_some.mp hk
          have hno := hkeeps c hc (by rw [hhandled, hclosed]) hpos
          exact hno.1 k target htarget hsock
        · have hno := hkeeps c hc (by rw [hhandled, hclosed]) hpos
          rw [hhandled] at hno
          exact hno.2 k hrank hnone
  | false =>
      rw [hclosed, if_neg Bool.false_ne_true] at htable
      have hkeeps : KeepsNames s (.readable connfd o) := by
        intro c' hc' hclosed'
        obtain rfl := Option.some.inj (hc.symm.trans hc')
        rw [hhandled, hclosed] at hclosed'
        cases hclosed'
      refine iff_of_true ?_ hkeeps
      refine h.grow hc ?_ htable ?_ ?_ ?_
      · rintro rank (hopened | hreported)
        · exact Or.inl hopened
        · exact Or.inr (List.mem_append_left _ hreported)
      · intro k j hk
        rcases Node.name_handle.mp hk with hk | ⟨hrank, -, hj, -⟩
        · exact Or.inl hk
        · exact Or.inr ⟨hj, Or.inr (List.mem_append_right _ hrank)⟩
      · intro k j hk
        exact hk
      · intro rank c hmem
        exact Or.inl hmem

variable [DecidableEq θ]

/-- Who holds what after a step of one sender. -/
theorem holds_setSender {t : θ} {r : Sender × Node} {rank fd : Int}
    (h : (s.setSender t r).Holds rank fd) :
    s.Holds rank fd ∨ (r.1.rank = rank ∧ ∃ retry, r.1.phase = .holding fd retry) := by
  obtain ⟨t', x, retry, hx, hrank, hphase⟩ := h
  rcases FileTable.update_eq_some.mp hx with ⟨-, hnew⟩ | ⟨-, hold⟩
  · obtain rfl := Option.some.inj hnew
    exact Or.inr ⟨hrank, retry, hphase⟩
  · exact Or.inl ⟨t', x, retry, hold, hrank, hphase⟩

/-- The others hold what they held. -/
theorem Holds.setSender {t : θ} {r : Sender × Node} {rank fd : Int} (h : s.Holds rank fd)
    (ht : ∀ x retry, s.senders t = some x → x.phase ≠ .holding fd retry) :
    (s.setSender t r).Holds rank fd := by
  obtain ⟨t', x, retry, hx, hrank, hphase⟩ := h
  refine ⟨t', x, retry, ?_, hrank, hphase⟩
  have hne : t' ≠ t := by
    rintro rfl
    exact ht x retry hx hphase
  show Function.update s.senders t (some r.1) t' = some x
  rw [Function.update_of_ne hne, hx]

theorem named_call (h : Named s) (t : θ) (rank : Int) (data : List UInt8) (retry : Int) :
    Named (s.setSender t (.call rank data retry, s.node)) := by
  refine h.lookup rfl (fun _ _ hk => hk) ?_ rfl
  intro k j hk
  rcases holds_setSender hk with hk | ⟨-, r, hphase⟩
  · exact Or.inl hk
  · exact absurd hphase (Sender.enter_ne_holding _ _ _)

theorem named_clearSendSocket (h : Named s) (t : θ) {x x' : Sender} {n' : Node}
    (hstep : x.clearSendSocket s.node = some (x', n')) : Named (s.setSender t (x', n')) := by
  obtain ⟨-, -, rfl, _, _, _, -, what, hphase⟩ := Sender.clearSendSocket_cases hstep
  apply h.lookup
  · exact Node.connection_eq_of_fds (Node.clearSendSocket_fds _)
  · intro k j
    exact Node.name_clearSendSocket
  · intro k j hk
    rcases holds_setSender hk with hk | ⟨-, r, hholding⟩
    · exact Or.inl hk
    · rw [hphase] at hholding
      exact absurd hholding (Sender.retryOr_ne_holding _ _ _ _)
  · rfl

theorem named_writev (h : Named s) {t : θ} {x x' : Sender} {n' : Node} {o : WriteOutcome}
    (hx : s.senders t = some x) (hstep : x.writev s.node o = some (x', n')) :
    Named { s.setSender t (x', n') with written := s.written ++ destination s.node x o } := by
  obtain ⟨-, -, sock, retry, hphase, hwrite, hphase'⟩ := Sender.writev_cases hstep
  have hheld : ∀ k j, (s.setSender t (x', n')).Holds k j → s.Holds k j := by
    intro k j hk
    rcases holds_setSender hk with hk | ⟨-, r, hholding⟩
    · exact hk
    · exfalso
      rcases hphase' with ⟨-, hp⟩ | ⟨-, -, e, hp⟩ | ⟨-, hp⟩ <;>
        (change x'.phase = _ at hholding; rw [hp] at hholding; cases hholding)
  obtain ⟨-, ⟨errno, rfl, rfl⟩ | ⟨k, c, rfl, hc, rfl⟩⟩ := Node.writev_cases hwrite
  · -- a failed `writev` writes nothing
    refine h.lookup rfl (fun _ _ hk => hk) (fun k j hk => Or.inl (hheld k j hk)) ?_
    simp [destination, hphase]
  · refine h.grow hc ?_ (Node.connection_setConnection _ _) ?_ hheld ?_
    · intro rank hrank
      exact hrank
    · intro k j hk
      exact Or.inl hk
    · intro rank c' hmem
      rcases List.mem_append.mp hmem with hmem | hmem
      · exact Or.inl hmem
      · right
        simp only [destination, hphase, hc, Option.map_some, Option.toList_some,
          List.mem_singleton, Prod.mk.injEq] at hmem
        obtain ⟨rfl, rfl⟩ := hmem
        exact h.sends t x sock retry _ hx hphase (Node.connection_eq_some.mp hc)

/-- Who holds what after `getSendSocket`. -/
theorem holds_getSendSocket {t : θ} {x x' : Sender} {n' : Node} {sock retry : Int}
    (hrank : x'.rank = x.rank)
    (hphase : (sock < 0 ∧ ∃ what, x'.phase = .retryOr retry what) ∨
      (¬ sock < 0 ∧ x'.phase = .holding sock retry)) {k j : Int}
    (hk : (s.setSender t (x', n')).Holds k j) :
    s.Holds k j ∨ (j = sock ∧ k = x.rank ∧ ¬ sock < 0) := by
  rcases holds_setSender hk with hk | ⟨hr, r, hholding⟩
  · exact Or.inl hk
  · change x'.phase = _ at hholding
    rcases hphase with ⟨-, what, hp⟩ | ⟨hneg, hp⟩
    · rw [hp] at hholding
      exact absurd hholding (Sender.retryOr_ne_holding _ _ _ _)
    · rw [hp] at hholding
      obtain ⟨rfl, -⟩ := SendPhase.holding.inj hholding
      exact Or.inr ⟨rfl, hr.symm.trans hrank, hneg⟩

omit [DecidableEq θ] in
theorem keepsNames_of_not_opens {t : θ} {x : Sender} {a : ConnectOutcome}
    (hx : s.senders t = some x) (hno : ∀ fd, ¬ s.node.Opens x.rank a fd) :
    KeepsNames s (.getSendSocket t a) := by
  intro y fd hy hopens
  obtain rfl := Option.some.inj (hx.symm.trans hy)
  exact absurd hopens (hno fd)

/-- A new connection is kept apart as long as nobody holds its number for another rank. -/
theorem named_opened_iff (h : Named s) {t : θ} {x x' : Sender} {a : ConnectOutcome}
    {sock : Int} {localIp : UInt32} {target : Target} (hx : s.senders t = some x)
    (hloops : ∀ r fd, x.phase ≠ .holding fd r) (hopens : s.node.Opens x.rank a sock)
    (hfree : s.node.Free sock) {n' : Node}
    (hnode : n' = (s.node.setFd sock
      (some (.connection (s.node.opened x.rank localIp)))).setTarget x.rank
        { target with sock := sock })
    (hheld : ∀ k j, (s.setSender t (x', n')).Holds k j →
      s.Holds k j ∨ (j = sock ∧ k = x.rank ∧ ¬ sock < 0)) :
    Named (s.setSender t (x', n')) ↔ KeepsNames s (.getSendSocket t a) := by
  have hbelongs : ∀ rank, (s.node.opened x.rank localIp).BelongsTo rank ↔ rank = x.rank := by
    intro rank
    simp [Connection.BelongsTo, Node.opened, eq_comm]
  subst hnode
  refine Iff.trans (h.open_iff (c := s.node.opened x.rank localIp) hfree.connection
    ?_ ?_ ?_ ?_ rfl) ?_
  · exact Node.connection_connected _ _ _ _
  · intro k j hk
    rcases Node.name_setTarget hk with hk | ⟨rfl, rfl, -⟩
    · exact Or.inl hk
    · exact Or.inr ⟨rfl, (hbelongs _).mpr rfl⟩
  · intro k j hk
    rcases hheld k j hk with hk | ⟨rfl, rfl, -⟩
    · exact Or.inl hk
    · exact Or.inr ⟨rfl, (hbelongs _).mpr rfl⟩
  · intro k j hk
    apply hk.setSender
    intro y r hy
    obtain rfl := Option.some.inj (hx.symm.trans hy)
    exact hloops r j
  · constructor
    · intro hall y fd hy hopens' t' z r hz hholding
      obtain rfl := Option.some.inj (hx.symm.trans hy)
      obtain rfl : sock = fd := hopens.unique hopens'
      exact (hbelongs _).mp (hall z.rank ⟨t', z, r, hz, rfl, hholding⟩)
    · rintro hkeeps k ⟨t', z, r, hz, rfl, hholding⟩
      exact (hbelongs _).mpr (hkeeps x sock hx hopens t' z r hz hholding)

theorem named_getSendSocket_iff (h : Named s) {t : θ} {x x' : Sender} {n' : Node}
    {a : ConnectOutcome} (hx : s.senders t = some x)
    (hstep : x.getSendSocket s.node a = some (x', n')) :
    Named (s.setSender t (x', n')) ↔ KeepsNames s (.getSendSocket t a) := by
  obtain ⟨hrank, -, retry, sock, hphase, hget, hphase'⟩ := Sender.getSendSocket_cases hstep
  have hheld : ∀ k j, (s.setSender t (x', n')).Holds k j →
      s.Holds k j ∨ (j = sock ∧ k = x.rank ∧ ¬ sock < 0) :=
    fun k j => holds_getSendSocket hrank hphase'
  rcases Node.getSendSocket_cases hget with ⟨rfl, hno, hnode⟩ |
    ⟨hno, ⟨target, htarget, hpos, rfl⟩, rfl⟩ |
    ⟨hopens, hfree, target, localIp, -, hnode⟩
  · -- no socket: at most a descriptor without a connection is left over
    refine iff_of_true ?_ (keepsNames_of_not_opens hx hno)
    have hheld' : ∀ k j, (s.setSender t (x', n')).Holds k j →
        s.Holds k j ∨ s.node.name k = some j := by
      intro k j hk
      rcases hheld k j hk with hk | ⟨-, -, hneg⟩
      · exact Or.inl hk
      · exact absurd (by decide) hneg
    rcases hnode with rfl | ⟨fd, hfree, rfl⟩
    · exact h.lookup rfl (fun _ _ hk => hk) hheld' rfl
    · exact h.lookup (Node.connection_setUnconnected hfree) (fun _ _ hk => hk) hheld' rfl
  · -- the socket of the entry
    refine iff_of_true ?_ (keepsNames_of_not_opens hx hno)
    refine h.lookup rfl (fun _ _ hk => hk) ?_ rfl
    intro k j hk
    rcases hheld k j hk with hk | ⟨rfl, rfl, -⟩
    · exact Or.inl hk
    · exact Or.inr (Node.name_eq_some.mpr ⟨target, htarget, rfl, hpos⟩)
  · refine named_opened_iff h hx ?_ hopens hfree hnode hheld
    intro r fd
    rw [hphase]
    exact SendPhase.noConfusion

inductive Transition (s : ServiceState θ) : Label θ → ServiceState θ → Prop where
  | registerTarget (rank : Int) (ip : UInt32) (port : UInt16) :
      Transition s (.registerTarget rank ip port)
        { s with node := s.node.registerTarget rank ip port }
  | sendMessage (t : θ) (rank : Int) (data : List UInt8) (retry : Int) :
      Transition s (.sendMessage t rank data retry)
        (s.setSender t (.call rank data retry, s.node))
  | getSendSocket (t : θ) (a : ConnectOutcome) (x x' : Sender) (n' : Node)
      (call : s.senders t = some x) (got : x.getSendSocket s.node a = some (x', n')) :
      Transition s (.getSendSocket t a) (s.setSender t (x', n'))
  | writev (t : θ) (o : WriteOutcome) (x x' : Sender) (n' : Node) (call : s.senders t = some x)
      (wrote : x.writev s.node o = some (x', n')) :
      Transition s (.writev t o)
        { s.setSender t (x', n') with written := s.written ++ destination s.node x o }
  | clearSendSocket (t : θ) (x x' : Sender) (n' : Node) (call : s.senders t = some x)
      (cleared : x.clearSendSocket s.node = some (x', n')) :
      Transition s (.clearSendSocket t) (s.setSender t (x', n'))
  | accept (connfd : Int) (localIp : UInt32) (free : s.node.Free connfd) :
      Transition s (.accept connfd localIp) { s with node := s.node.accept connfd localIp }
  | peerSends (fd : Int) (bytes : List UInt8) (c : Connection)
      (conn : s.node.connection fd = some c) :
      Transition s (.peerSends fd bytes) { s with
        node := s.node.setFd fd (some (.connection { c with unread := c.unread ++ bytes })) }
  | peerDisconnects (fd : Int) (c : Connection) (conn : s.node.connection fd = some c) :
      Transition s (.peerDisconnects fd) { s with
        node := s.node.setFd fd (some (.connection { c with hungUp := true })) }
  | readable (connfd : Int) (o : Oracle) (c : Connection)
      (conn : s.node.connection connfd = some c) (event : c.unread ≠ [] ∨ c.hungUp = true)
      (returned : (handleEvent o c.unread).fate ≠ .blocked) :
      Transition s (.readable connfd o) { s with
        node := s.node.handle connfd c (handleEvent o c.unread)
        server := (handleEvent o c.unread).fate }

theorem transition_of_step {l : Label θ} (hstep : s.step l = some s') : Transition s l s' := by
  obtain ⟨-, hstep⟩ := Option.ite_none_left_eq_some.mp hstep
  cases l with
  | registerTarget rank ip port =>
      obtain rfl := Option.some.inj hstep
      exact .registerTarget rank ip port
  | sendMessage t rank data retry =>
      obtain rfl := Sender.eq_of_begins hstep
      exact .sendMessage t rank data retry
  | getSendSocket t a =>
      obtain ⟨x, hx, hstep⟩ := Option.bind_eq_some_iff.mp hstep
      obtain ⟨⟨x', n'⟩, hr, rfl⟩ := Option.map_eq_some_iff.mp hstep
      exact .getSendSocket t a x x' n' hx hr
  | writev t o =>
      obtain ⟨x, hx, hstep⟩ := Option.bind_eq_some_iff.mp hstep
      obtain ⟨⟨x', n'⟩, hr, rfl⟩ := Option.map_eq_some_iff.mp hstep
      exact .writev t o x x' n' hx hr
  | clearSendSocket t =>
      obtain ⟨x, hx, hstep⟩ := Option.bind_eq_some_iff.mp hstep
      obtain ⟨⟨x', n'⟩, hr, rfl⟩ := Option.map_eq_some_iff.mp hstep
      exact .clearSendSocket t x x' n' hx hr
  | accept connfd localIp =>
      obtain ⟨⟨-, hfree⟩, hstep⟩ := Option.ite_none_right_eq_some.mp hstep
      obtain rfl := Option.some.inj hstep
      exact .accept connfd localIp hfree
  | peerSends fd bytes =>
      obtain ⟨c, hc, hstep⟩ := Option.bind_eq_some_iff.mp hstep
      obtain ⟨-, hstep⟩ := Option.ite_none_left_eq_some.mp hstep
      obtain rfl := Option.some.inj hstep
      exact .peerSends fd bytes c hc
  | peerDisconnects fd =>
      obtain ⟨c, hc, rfl⟩ := Option.map_eq_some_iff.mp hstep
      exact .peerDisconnects fd c hc
  | readable connfd o =>
      obtain ⟨c, hc, hstep⟩ := Option.bind_eq_some_iff.mp hstep
      obtain ⟨⟨-, hevent⟩, hstep⟩ := Option.ite_none_right_eq_some.mp hstep
      obtain ⟨hreturned, hstep⟩ := Option.ite_none_left_eq_some.mp hstep
      obtain rfl := Option.some.inj hstep
      exact .readable connfd o c hc hevent hreturned

theorem Named.step_iff (h : Named s) {l : Label θ} (hstep : s.step l = some s') :
    Named s' ↔ KeepsNames s l := by
  cases transition_of_step hstep with
  | registerTarget rank ip port =>
      exact iff_of_true (named_registerTarget h rank ip port) trivial
  | sendMessage t rank data retry => exact iff_of_true (named_call h t rank data retry) trivial
  | getSendSocket t a x x' n' call got => exact named_getSendSocket_iff h call got
  | writev t o x x' n' call wrote => exact iff_of_true (named_writev h call wrote) trivial
  | clearSendSocket t x x' n' call cleared =>
      exact iff_of_true (named_clearSendSocket h t cleared) trivial
  | accept connfd localIp free => exact named_accept_iff h localIp free
  | peerSends fd bytes c conn | peerDisconnects fd c conn =>
      exact iff_of_true (named_peer h conn fun _ hrank => hrank) trivial
  | readable connfd o c conn => exact named_readable_iff h conn

theorem named_init (myRank : Int) (listenPort : UInt16) :
    Named (machine θ myRank listenPort).init := by
  apply named_iff.mpr
  refine ⟨HandleTable.sound_empty (fun _ => rfl) ?_, ?_⟩
  · rintro rank fd ⟨t, x, retry, hx, -⟩
    cases hx
  · intro rank c hmem
    cases hmem

/-- **No misdelivery.** No entry of `socks` and no call in flight leads to a descriptor of another
rank, and no frame goes to another rank's connection, exactly as long as events close only
descriptors that no entry names, and numbers that a call still holds are not used again. -/
theorem no_misdelivery_iff {myRank : Int} {listenPort : UInt16} {ls : List (Label θ)}
    {s : ServiceState θ} (hrun : (machine θ myRank listenPort).Runs ls s) :
    (machine θ myRank listenPort).Meets KeepsNames (machine θ myRank listenPort).init ls ↔
      ∀ pre t, pre <+: ls → (machine θ myRank listenPort).Runs pre t → Named t :=
  hrun.meets_iff (named_init myRank listenPort) fun _ _ _ h hstep => h.step_iff hstep

/-- A peer connects and reports its rank while two calls open their connections, and hangs up. -/
def twoSenders : List (Label Bool) :=
  [.accept 7 0, .registerTarget 1 0 80, .registerTarget 2 0 81, .sendMessage true 1 [7] 0,
    .getSendSocket true (.connected 5 0 (.wrote 12)), .peerSends 7 (rankReportMessage 3 82),
    .readable 7 wholeReads.oracle, .sendMessage false 2 [8] 0,
    .getSendSocket false (.connected 6 0 (.wrote 12)), .writev false (.wrote 13),
    .peerDisconnects 7, .writev true (.wrote 13)]

theorem twoSenders_keepsNames :
    (machine Bool 0 79).Meets KeepsNames (machine Bool 0 79).init twoSenders := by
  refine ⟨?_, fun s₁ h₁ => ⟨trivial, fun s₂ h₂ => ⟨trivial, fun s₃ h₃ => ⟨trivial, fun s₄ h₄ =>
    ⟨?_, fun s₅ h₅ => ⟨trivial, fun s₆ h₆ => ⟨?_, fun s₇ h₇ => ⟨trivial, fun s₈ h₈ =>
    ⟨?_, fun _ _ => ⟨trivial, fun _ _ => ⟨trivial, fun _ _ => ⟨trivial, fun _ _ =>
    trivial⟩⟩⟩⟩⟩⟩⟩⟩⟩⟩⟩⟩
  · rintro t x retry ⟨⟩
  all_goals
    obtain rfl := Option.some.inj h₁
    obtain rfl := Option.some.inj h₂
    obtain rfl := Option.some.inj h₃
    obtain rfl := Option.some.inj h₄
  · intro x fd hx hopens t y retry hy hphase
    cases t with
    | true =>
        obtain rfl := Option.some.inj hy
        cases hphase
    | false => cases hy
  all_goals
    obtain rfl := Option.some.inj h₅
    obtain rfl := Option.some.inj h₆
  · intro c hc hclosed
    obtain rfl := Option.some.inj hc
    cases hclosed
  · obtain rfl := Option.some.inj h₇
    obtain rfl := Option.some.inj h₈
    intro x fd hx hopens t y retry hy hphase
    obtain ⟨_, _, _, hconnected, -⟩ := hopens
    cases hconnected
    cases t with
    | true =>
        obtain rfl := Option.some.inj hy
        cases hphase
    | false =>
        obtain rfl := Option.some.inj hy
        cases hphase

theorem no_misdelivery_iff_run :
    ∃ s, (machine Bool 0 79).Runs twoSenders s ∧ s.node.name 3 = some 7 ∧
      s.written.map Prod.fst = [2, 1] ∧ Named s := by
  have hend : ((machine Bool 0 79).runFrom (machine Bool 0 79).init twoSenders).map
      (fun s => (s.node.name 3, s.written.map Prod.fst)) = some (some 7, [2, 1]) := by
    decide +kernel
  obtain ⟨s, hrun, hs⟩ := Option.map_eq_some_iff.mp hend
  obtain ⟨hname, hwritten⟩ := Prod.mk.inj hs
  exact ⟨s, hrun, hname, hwritten,
    (no_misdelivery_iff hrun).mp twoSenders_keepsNames _ _ (List.prefix_refl _) hrun⟩

/-- The peer of rank 1 hangs up, its descriptor is closed and given to the connection of rank 2, and
the next message to rank 1 goes there. -/
theorem misdelivery :
    ∃ ls s, (machine Unit 0 79).Runs ls s ∧
      ∃ c, (1, c) ∈ s.written ∧ ¬ c.BelongsTo 1 ∧ c.BelongsTo 2 := by
  let reads (head : Cut) : Oracle :=
    { head := head, body := fun _ => .bytes 1, verify := .bytes 4,
      heap := fun _ => 0, stack := fun _ => 0 }
  let ls : List (Label Unit) :=
    [.registerTarget 1 0 80, .sendMessage () 1 [7] 0,
      .getSendSocket () (.connected 5 0 (.wrote 12)), .writev () (.wrote 13),
      .peerDisconnects 5, .readable 5 (reads .failed),
      .accept 5 0, .peerSends 5 (rankReportMessage 2 81), .readable 5 (reads (.bytes 8)),
      .sendMessage () 1 [8] 0, .getSendSocket () .noSocket, .writev () (.wrote 13)]
  have hend : ((machine Unit 0 79).runFrom (machine Unit 0 79).init ls).map
      (fun s => s.written.getLast?) = some (some (1, { reported := [2] })) := by
    decide +kernel
  obtain ⟨s, hrun, hlast⟩ := Option.map_eq_some_iff.mp hend
  refine ⟨ls, s, hrun, _, List.mem_of_getLast? hlast, ?_, ?_⟩
  · decide
  · decide

end ServiceState

end Npp.Network
