import Npp.Network.Registry

/-!
# Clears that come late

Any number of calls of `sendMessage` to one rank, in any order, and the epoll loop that closes
connections under them. A call whose `writev` has failed clears the entry of its rank, whatever the
entry has by then. A connection is usable while it is open and no `writev` has failed on it.
-/

namespace Npp.Network

open Npp.Foundation

/-- `failed` has the connections on which a `writev` has failed. `clears` has, for each call of
`clearSendSocket`, the descriptor that failed and the one that the entry had. -/
structure ResendState (θ : Type) where
  node : Node
  senders : θ → Option Sender := fun _ => none
  failed : Int → Bool := fun _ => false
  clears : List (Int × Option Int) := []

namespace ResendState

inductive Label (θ : Type) where
  | sendMessage (t : θ) (data : List UInt8) (retry : Int)
  | getSendSocket (t : θ) (a : ConnectOutcome)
  | writev (t : θ) (o : WriteOutcome)
  | clearSendSocket (t : θ)
  | closeSocket (connfd : Int)

def failure (x : Sender) (o : WriteOutcome) : Option Int :=
  match x.phase, o with
  | .holding sock _, .error _ => some sock
  | _, _ => none

def blamed (x : Sender) : Option Int :=
  match x.phase with
  | .clearing sock _ _ => some sock
  | _ => none

section Steps

variable {θ : Type} [DecidableEq θ]

def setSender (s : ResendState θ) (t : θ) (r : Sender × Node) : ResendState θ :=
  { s with node := r.2, senders := Function.update s.senders t (some r.1) }

def step (rank : Int) (s : ResendState θ) : Label θ → Option (ResendState θ)
  | .sendMessage t data retry =>
      match s.senders t with
      | none => some (s.setSender t (.call rank data retry, s.node))
      | some x =>
          match x.phase with
          | .returned | .threw _ => some (s.setSender t (.call rank data retry, s.node))
          | _ => none
  | .getSendSocket t a =>
      (s.senders t).bind fun x => (x.getSendSocket s.node a).map fun r =>
        -- a new connection has not failed yet
        { s.setSender t r with failed := fun fd => (s.node.connection fd).isSome && s.failed fd }
  | .writev t o =>
      (s.senders t).bind fun x => (x.writev s.node o).map fun r =>
        { s.setSender t r with failed := fun fd => s.failed fd || failure x o = some fd }
  | .clearSendSocket t =>
      (s.senders t).bind fun x => (x.clearSendSocket s.node).map fun r =>
        { s.setSender t r with
          clears := s.clears ++ ((blamed x).map (·, s.node.name rank)).toList }
  | .closeSocket connfd =>
      (s.node.connection connfd).map fun _ => { s with node := s.node.setFd connfd none }

def machine (θ : Type) [DecidableEq θ] (myRank : Int) (listenPort : UInt16) (rank : Int)
    (ip : UInt32) (port : UInt16) : Machine (ResendState θ) (Label θ) where
  init :=
    { node := ({ myRank := myRank, listenPort := listenPort } : Node).registerTarget rank ip port }
  step := step rank

end Steps

variable {θ : Type} {s s' : ResendState θ} {rank : Int}

/-- Every connection here was opened to the rank. -/
def Usable (s : ResendState θ) (fd : Int) : Prop :=
  (s.node.connection fd).isSome ∧ s.failed fd = false

instance (s : ResendState θ) (fd : Int) : Decidable (s.Usable fd) :=
  inferInstanceAs (Decidable (_ ∧ _))

/-- No clear has hit another descriptor than the one that failed, and a usable connection is the
one in the entry. -/
structure Kept (rank : Int) (s : ResendState θ) : Prop where
  clears : ∀ sock found, (sock, found) ∈ s.clears → found = none ∨ found = some sock
  registered : ∀ fd, s.Usable fd → s.node.name rank = some fd
  single : ∀ fd fd', s.Usable fd → s.Usable fd' → fd = fd'

/-- A clear finds nothing in the entry, or the descriptor that failed without a usable connection
behind it; and the kernel does not give out number 0, which the entry cannot keep. -/
def ClearsOwn (rank : Int) (s : ResendState θ) : Label θ → Prop
  | .getSendSocket t a => ∀ x, s.senders t = some x → ¬ s.node.Opens x.rank a 0
  | .clearSendSocket t => ∀ x sock, s.senders t = some x → blamed x = some sock →
      s.node.name rank = none ∨ (s.node.name rank = some sock ∧ ¬ s.Usable sock)
  | _ => True

end ResendState

/-! ## The entry of the rank -/

namespace Node

variable {n : Node} {rank : Int}

theorem name_setTarget_self (target : Target) :
    (n.setTarget rank target).name rank = if 0 < target.sock then some target.sock else none := by
  show (Function.update n.socks rank (some target) rank).bind _ = _
  rw [Function.update_self]
  rfl

theorem name_clearSendSocket_self : (n.clearSendSocket rank).name rank = none := by
  unfold clearSendSocket
  split
  case h_1 hnone => rw [name, hnone, Option.bind_none]
  case h_2 target _ =>
    rw [name_setTarget_self]
    exact if_neg (show ¬ (0 : Int) < -1 by decide)

/-- A connection is opened where the entry has no socket. -/
theorem Opens.name_eq_none {a : ConnectOutcome} {fd : Int} (h : n.Opens rank a fd) :
    n.name rank = none := by
  obtain ⟨target, _, _, -, htarget, hunset, -⟩ := h
  rw [name, htarget, Option.bind_some, if_neg hunset]

/-- `writev` opens and closes nothing. -/
theorem isSome_connection_writev {n' : Node} {sock ret : Int} {message : List UInt8}
    {o : WriteOutcome} (h : n.writev sock message o = some (ret, n')) (fd : Int) :
    (n'.connection fd).isSome = (n.connection fd).isSome := by
  obtain ⟨-, ⟨errno, -, rfl⟩ | ⟨k, c, -, hc, rfl⟩⟩ := writev_cases h
  · rfl
  · rw [connection_setConnection]
    by_cases hfd : fd = sock
    · subst hfd
      rw [Function.update_self, hc]
      rfl
    · rw [Function.update_of_ne hfd]

end Node

namespace ResendState

variable {θ : Type} {s s' : ResendState θ} {rank : Int}

/-! ## What each step does to the usable connections -/

/-- Two usable connections would be in one entry. -/
theorem Kept.of_registered
    (clears : ∀ sock found, (sock, found) ∈ s.clears → found = none ∨ found = some sock)
    (registered : ∀ fd, s.Usable fd → s.node.name rank = some fd) : Kept rank s := by
  refine ⟨clears, registered, ?_⟩
  intro fd fd' hfd hfd'
  exact Option.some.inj ((registered fd hfd).symm.trans (registered fd' hfd'))

/-- A step that leaves the entry alone, and makes no connection usable. -/
theorem Kept.mono (h : Kept rank s) (hname : s'.node.name rank = s.node.name rank)
    (husable : ∀ fd, s'.Usable fd → s.Usable fd) (hclears : s'.clears = s.clears) :
    Kept rank s' := by
  apply Kept.of_registered
  · rw [hclears]
    exact h.clears
  · intro fd hfd
    rw [hname]
    exact h.registered fd (husable fd hfd)

/-- A step that opens a connection where the entry has none. -/
theorem Kept.open_iff (h : Kept rank s) {fd : Int} (hnone : s.node.name rank = none)
    (hname : s'.node.name rank = if 0 < fd then some fd else none) (hnew : s'.Usable fd)
    (husable : ∀ j, s'.Usable j → j = fd ∨ s.Usable j) (hclears : s'.clears = s.clears) :
    Kept rank s' ↔ 0 < fd := by
  constructor
  · intro h'
    have hentry := h'.registered fd hnew
    rw [hname] at hentry
    by_contra hpos
    rw [if_neg hpos] at hentry
    cases hentry
  · intro hpos
    apply Kept.of_registered
    · rw [hclears]
      exact h.clears
    · intro j hj
      rcases husable j hj with rfl | hold
      · rw [hname, if_pos hpos]
      · -- before the step no connection was usable
        have hentry := h.registered j hold
        rw [hnone] at hentry
        cases hentry

/-- A step that clears the entry. -/
theorem Kept.clear_iff (h : Kept rank s) {sock : Int} (hname : s'.node.name rank = none)
    (husable : ∀ fd, s'.Usable fd ↔ s.Usable fd)
    (hclears : s'.clears = s.clears ++ [(sock, s.node.name rank)]) :
    Kept rank s' ↔
      s.node.name rank = none ∨ (s.node.name rank = some sock ∧ ¬ s.Usable sock) := by
  constructor
  · intro h'
    have hfound := h'.clears sock (s.node.name rank) (by rw [hclears]; simp)
    rcases hfound with hnone | hsome
    · exact Or.inl hnone
    · refine Or.inr ⟨hsome, fun hsock => ?_⟩
      have hentry := h'.registered sock ((husable sock).mpr hsock)
      rw [hname] at hentry
      cases hentry
  · intro hown
    have hno : ∀ fd, ¬ s.Usable fd := by
      intro fd hfd
      have hentry := h.registered fd hfd
      rcases hown with hnone | ⟨hsome, hsock⟩
      · rw [hnone] at hentry
        cases hentry
      · obtain rfl := Option.some.inj (hsome.symm.trans hentry)
        exact hsock hfd
    apply Kept.of_registered
    · intro j found hmem
      rw [hclears, List.mem_append, List.mem_singleton] at hmem
      rcases hmem with hold | hnew
      · exact h.clears j found hold
      · obtain ⟨rfl, rfl⟩ := Prod.mk.inj hnew
        exact hown.imp_right And.left
    · intro fd hfd
      exact absurd ((husable fd).mp hfd) (hno fd)

def Ranked (rank : Int) (s : ResendState θ) : Prop :=
  ∀ t x, s.senders t = some x → x.rank = rank

variable [DecidableEq θ]

theorem Ranked.update (h : Ranked rank s) {t : θ} {x : Sender} (hx : x.rank = rank)
    (hsenders : s'.senders = Function.update s.senders t (some x)) : Ranked rank s' := by
  intro t' y hy
  rw [hsenders] at hy
  rcases FileTable.update_eq_some.mp hy with ⟨-, hnew⟩ | ⟨-, hold⟩
  · rw [← Option.some.inj hnew, hx]
  · exact h t' y hold

theorem sendMessage_step {t : θ} {data : List UInt8} {retry : Int}
    (hstep : s.step rank (.sendMessage t data retry) = some s') :
    s' = s.setSender t (.call rank data retry, s.node) :=
  Sender.eq_of_begins hstep

theorem kept_writev (h : Kept rank s) {t : θ} {x x' : Sender} {n' : Node} {o : WriteOutcome}
    (hstep : x.writev s.node o = some (x', n')) :
    Kept rank { s.setSender t (x', n') with
      failed := fun fd => s.failed fd || failure x o = some fd } := by
  obtain ⟨-, -, sock, retry, -, hwrite, -⟩ := Sender.writev_cases hstep
  apply h.mono
  · obtain ⟨-, ⟨errno, -, rfl⟩ | ⟨k, c, -, -, rfl⟩⟩ := Node.writev_cases hwrite
    · rfl
    · rfl
  · rintro fd ⟨hopen, hfailed⟩
    refine ⟨?_, (Bool.or_eq_false_iff.mp hfailed).1⟩
    rw [← Node.isSome_connection_writev hwrite fd]
    exact hopen
  · rfl

/-- A connection that a sender opens has the entry, unless its number is 0. -/
theorem kept_opened_iff (h : Kept rank s) {t : θ} {x' : Sender} {n' : Node} {a : ConnectOutcome}
    {sock : Int} {c : Connection} {target : Target} (hopens : s.node.Opens rank a sock)
    (hfree : s.node.Free sock)
    (hnode : n' = (s.node.setFd sock (some (.connection c))).setTarget rank
      { target with sock := sock }) :
    Kept rank { s.setSender t (x', n') with
      failed := fun fd => (s.node.connection fd).isSome && s.failed fd } ↔ 0 < sock := by
  have htable : n'.connection = Function.update s.node.connection sock (some c) := by
    rw [hnode, Node.connection_connected]
  have hname : n'.name rank = if 0 < sock then some sock else none := by
    rw [hnode, Node.name_setTarget_self]
  refine h.open_iff hopens.name_eq_none hname ⟨?_, ?_⟩ ?_ rfl
  · show (n'.connection sock).isSome
    rw [htable, Function.update_self]
    rfl
  · show ((s.node.connection sock).isSome && s.failed sock) = false
    rw [hfree.connection]
    rfl
  · rintro j ⟨hopen, hfailed⟩
    change (n'.connection j).isSome at hopen
    rw [htable] at hopen
    by_cases hj : j = sock
    · exact Or.inl hj
    · rw [Function.update_of_ne hj] at hopen
      simp only [hopen, Bool.true_and] at hfailed
      exact Or.inr ⟨hopen, hfailed⟩

theorem kept_getSendSocket_iff (h : Kept rank s) (hranked : Ranked rank s) {t : θ}
    {x x' : Sender} {n' : Node} {a : ConnectOutcome} (hx : s.senders t = some x)
    (hstep : x.getSendSocket s.node a = some (x', n')) :
    Kept rank { s.setSender t (x', n') with
        failed := fun fd => (s.node.connection fd).isSome && s.failed fd } ↔
      ClearsOwn rank s (.getSendSocket t a) := by
  obtain ⟨-, -, retry, sock, -, hget, -⟩ := Sender.getSendSocket_cases hstep
  obtain rfl := hranked t x hx
  have hsame : n'.connection = s.node.connection → n'.name x.rank = s.node.name x.rank →
      Kept x.rank { s.setSender t (x', n') with
        failed := fun fd => (s.node.connection fd).isSome && s.failed fd } := by
    intro hconnection hname
    refine h.mono hname ?_ rfl
    rintro fd ⟨hopen, hfailed⟩
    change (n'.connection fd).isSome at hopen
    rw [hconnection] at hopen
    simp only [hopen, Bool.true_and] at hfailed
    exact ⟨hopen, hfailed⟩
  have hnot : (∀ fd, ¬ s.node.Opens x.rank a fd) →
      ClearsOwn x.rank s (.getSendSocket t a) := by
    intro hno y hy
    obtain rfl := Option.some.inj (hx.symm.trans hy)
    exact hno 0
  rcases Node.getSendSocket_cases hget with ⟨-, hno, rfl | ⟨fd, hfree, rfl⟩⟩ |
    ⟨hno, -, rfl⟩ | ⟨hopens, hfree, target, localIp, -, rfl⟩
  · exact iff_of_true (hsame rfl rfl) (hnot hno)
  · exact iff_of_true (hsame (Node.connection_setUnconnected hfree) rfl) (hnot hno)
  · exact iff_of_true (hsame rfl rfl) (hnot hno)
  · refine (kept_opened_iff h hopens hfree rfl).trans ?_
    constructor
    · intro hpos y hy hzero
      obtain rfl := Option.some.inj (hx.symm.trans hy)
      have heq := hopens.unique hzero
      omega
    · intro hown
      have hne : sock ≠ 0 := by
        rintro rfl
        exact hown x hx hopens
      have hnonneg := hfree.1
      omega

theorem kept_clearSendSocket_iff (h : Kept rank s) (hranked : Ranked rank s) {t : θ}
    {x x' : Sender} {n' : Node} (hx : s.senders t = some x)
    (hstep : x.clearSendSocket s.node = some (x', n')) :
    Kept rank { s.setSender t (x', n') with
        clears := s.clears ++ ((blamed x).map (·, s.node.name rank)).toList } ↔
      ClearsOwn rank s (.clearSendSocket t) := by
  obtain ⟨-, -, rfl, sock, retry, errno, hphase, -⟩ := Sender.clearSendSocket_cases hstep
  obtain rfl := hranked t x hx
  have hblamed : blamed x = some sock := by rw [blamed, hphase]
  have hclears : s.clears ++ ((blamed x).map (·, s.node.name x.rank)).toList =
      s.clears ++ [(sock, s.node.name x.rank)] := by
    rw [hblamed]
    rfl
  refine (h.clear_iff Node.name_clearSendSocket_self ?_ hclears).trans ?_
  · intro fd
    show ((s.node.clearSendSocket x.rank).connection fd).isSome ∧ _ ↔ _
    rw [Node.connection_eq_of_fds (Node.clearSendSocket_fds _)]
    rfl
  · constructor
    · intro hown y j hy hj
      obtain rfl := Option.some.inj (hx.symm.trans hy)
      obtain rfl := Option.some.inj (hblamed.symm.trans hj)
      exact hown
    · intro hown
      exact hown x sock hx hblamed

theorem Ranked.step (h : Ranked rank s) {l : Label θ} (hstep : s.step rank l = some s') :
    Ranked rank s' := by
  cases l with
  | sendMessage t data retry =>
      rw [sendMessage_step hstep]
      exact h.update rfl rfl
  | getSendSocket t a =>
      obtain ⟨x, hx, hstep⟩ := Option.bind_eq_some_iff.mp hstep
      obtain ⟨r, hr, rfl⟩ := Option.map_eq_some_iff.mp hstep
      have hrank := (Sender.getSendSocket_cases hr).1
      exact h.update (hrank.trans (h t x hx)) rfl
  | writev t o =>
      obtain ⟨x, hx, hstep⟩ := Option.bind_eq_some_iff.mp hstep
      obtain ⟨r, hr, rfl⟩ := Option.map_eq_some_iff.mp hstep
      have hrank := (Sender.writev_cases hr).1
      exact h.update (hrank.trans (h t x hx)) rfl
  | clearSendSocket t =>
      obtain ⟨x, hx, hstep⟩ := Option.bind_eq_some_iff.mp hstep
      obtain ⟨r, hr, rfl⟩ := Option.map_eq_some_iff.mp hstep
      have hrank := (Sender.clearSendSocket_cases hr).1
      exact h.update (hrank.trans (h t x hx)) rfl
  | closeSocket connfd =>
      obtain ⟨c, -, rfl⟩ := Option.map_eq_some_iff.mp hstep
      exact h

theorem Kept.step_iff (h : Kept rank s) (hranked : Ranked rank s) {l : Label θ}
    (hstep : s.step rank l = some s') : Kept rank s' ↔ ClearsOwn rank s l := by
  cases l with
  | sendMessage t data retry =>
      rw [sendMessage_step hstep]
      exact iff_of_true (h.mono rfl (fun _ hfd => hfd) rfl) trivial
  | getSendSocket t a =>
      obtain ⟨x, hx, hstep⟩ := Option.bind_eq_some_iff.mp hstep
      obtain ⟨r, hr, rfl⟩ := Option.map_eq_some_iff.mp hstep
      exact kept_getSendSocket_iff h hranked hx hr
  | writev t o =>
      obtain ⟨x, hx, hstep⟩ := Option.bind_eq_some_iff.mp hstep
      obtain ⟨r, hr, rfl⟩ := Option.map_eq_some_iff.mp hstep
      exact iff_of_true (kept_writev h hr) trivial
  | clearSendSocket t =>
      obtain ⟨x, hx, hstep⟩ := Option.bind_eq_some_iff.mp hstep
      obtain ⟨r, hr, rfl⟩ := Option.map_eq_some_iff.mp hstep
      exact kept_clearSendSocket_iff h hranked hx hr
  | closeSocket connfd =>
      obtain ⟨c, hc, rfl⟩ := Option.map_eq_some_iff.mp hstep
      refine iff_of_true (h.mono rfl ?_ rfl) trivial
      rintro fd ⟨hopen, hfailed⟩
      change ((s.node.setFd connfd none).connection fd).isSome at hopen
      rw [Node.connection_setFd] at hopen
      by_cases hfd : fd = connfd
      · subst hfd
        rw [Function.update_self] at hopen
        cases hopen
      · rw [Function.update_of_ne hfd] at hopen
        exact ⟨hopen, hfailed⟩

variable {myRank : Int} {listenPort : UInt16} {ip : UInt32} {port : UInt16}

theorem kept_init : Kept rank (machine θ myRank listenPort rank ip port).init := by
  apply Kept.of_registered
  · intro sock found hmem
    cases hmem
  · rintro fd ⟨hopen, -⟩
    have hempty : (machine θ myRank listenPort rank ip port).init.node.connection = _ :=
      Node.connection_eq_of_fds (Node.registerTarget_fds rank ip port)
    rw [hempty] at hopen
    cases hopen

/-- **Failed sends keep healthy connections.** No clear hits a newer connection, and a usable one
stays in the entry, so that there is one at most, exactly as long as every clear still finds the
descriptor that failed, or nothing, and number 0 is not given out. -/
theorem kept_iff {ls : List (Label θ)}
    (hrun : (machine θ myRank listenPort rank ip port).Runs ls s) :
    (machine θ myRank listenPort rank ip port).Meets (ClearsOwn rank)
        (machine θ myRank listenPort rank ip port).init ls ↔
      ∀ pre t, pre <+: ls → (machine θ myRank listenPort rank ip port).Runs pre t →
        Kept rank t := by
  apply hrun.meets_iff_of_invariant (J := Ranked rank)
  · intro t x hx
    cases hx
  · exact kept_init
  · exact fun _ _ _ h hstep => h.step hstep
  · exact fun _ _ _ hranked h hstep => h.step_iff hranked hstep
  · exact fun _ _ => Iff.rfl

/-- A call fails on its connection, clears the entry and sends over a new one. -/
theorem kept_iff_run :
    ∃ s, (machine Unit 0 79 1 0 80).Runs
      [.sendMessage () [7] 1, .getSendSocket () (.connected 5 0 (.wrote 12)),
        .writev () (.error 104), .clearSendSocket (),
        .getSendSocket () (.connected 6 0 (.wrote 12)), .writev () (.wrote 13)] s ∧
      Kept 1 s ∧ s.Usable 6 ∧ ¬ s.Usable 5 := by
  have hrun : (machine Unit 0 79 1 0 80).Runs
      [.sendMessage () [7] 1, .getSendSocket () (.connected 5 0 (.wrote 12)),
        .writev () (.error 104), .clearSendSocket (),
        .getSendSocket () (.connected 6 0 (.wrote 12)), .writev () (.wrote 13)] _ := rfl
  refine ⟨_, hrun, (kept_iff hrun).mp ?_ _ _ (List.prefix_refl _) hrun, by decide, by decide⟩
  refine ⟨trivial, fun s₁ h₁ => ⟨?_, fun s₂ h₂ => ⟨trivial, fun s₃ h₃ => ⟨?_, fun s₄ h₄ =>
    ⟨?_, fun _ _ => ⟨trivial, fun _ _ => trivial⟩⟩⟩⟩⟩⟩
  · rintro x - ⟨_, _, _, ha, -⟩
    cases ha
  · obtain rfl := Option.some.inj h₁
    obtain rfl := Option.some.inj h₂
    obtain rfl := Option.some.inj h₃
    intro x sock hx hsock
    obtain rfl := Option.some.inj hx
    obtain rfl := Option.some.inj hsock
    exact Or.inr (by decide)
  · rintro x - ⟨_, _, _, ha, -⟩
    cases ha

/-- Two calls fail on descriptor 5. The first clears the entry and opens 6, and then the second
clears 6 out of the entry and opens 7. -/
theorem not_kept :
    ∃ ls s, (machine Bool 0 79 1 0 80).Runs ls s ∧ (5, some 6) ∈ s.clears ∧
      s.Usable 6 ∧ s.Usable 7 ∧ s.node.name 1 = some 7 ∧ ¬ Kept 1 s := by
  let ls : List (Label Bool) :=
    [.sendMessage true [7] 1, .sendMessage false [8] 1,
      .getSendSocket true (.connected 5 0 (.wrote 12)), .getSendSocket false .noSocket,
      .writev true (.error 104), .writev false (.error 104),
      .clearSendSocket true, .getSendSocket true (.connected 6 0 (.wrote 12)),
      .clearSendSocket false, .getSendSocket false (.connected 7 0 (.wrote 12))]
  have hend : ((machine Bool 0 79 1 0 80).runFrom (machine Bool 0 79 1 0 80).init ls).map
      (fun s => (s.clears, decide (s.Usable 6), decide (s.Usable 7), s.node.name 1)) =
        some ([(5, some 5), (5, some 6)], true, true, some 7) := by
    decide +kernel
  obtain ⟨s, hrun, hs⟩ := Option.map_eq_some_iff.mp hend
  simp only [Prod.mk.injEq, decide_eq_true_eq] at hs
  obtain ⟨hclears, hsix, hseven, hname⟩ := hs
  refine ⟨ls, s, hrun, by simp [hclears], hsix, hseven, hname, fun h => ?_⟩
  have heq := h.single 6 7 hsix hseven
  omega

end ResendState

end Npp.Network
