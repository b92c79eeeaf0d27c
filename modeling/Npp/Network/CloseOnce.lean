import Npp.Network.Holders

/-!
# Each descriptor is closed once

`stopServer` closes and resets the two members of the listening socket and the epoll instance, and
the last two lines of `run` close them as well. Of the connections each is closed by whoever has it:
a `getSendSocket` whose rank report fails, or an event of the loop.
-/

namespace Npp.Network

open Npp.Foundation

namespace ManagerState

variable {θ : Type} {s s' : ManagerState θ}

def closed (s : ManagerState θ) : List Nat := s.closes.map Prod.fst

/-- Every descriptor that was got has been passed to `close` once. -/
def ClosedOnce (s : ManagerState θ) : Prop := ∀ i < s.table.opened, s.closed.count i = 1

/-- A member that nobody has to close any more has been closed. -/
structure Billed (s : ManagerState θ) : Prop where
  sockfd : ∀ k, s.listening = some k → s.Owes k .sockfd ∨ k.serial ∈ s.closed
  epollFd : ∀ k, s.epoll = some k → s.Owes k .epollFd ∨ k.serial ∈ s.closed

/-! ## What every step does to the log -/

theorem closed_mono (h : s.closes <+: s'.closes) : s.closed <+: s'.closed := h.map Prod.fst

theorem closes_le_closeMember (fd : Int) (got : Option Handle) :
    s.closes <+: (s.closeMember fd got).closes := by
  rcases closeMember_eq s fd got with heq | ⟨k, -, -, heq⟩
  · exact heq.symm ▸ List.prefix_rfl
  · exact heq.symm ▸ List.prefix_append _ _

theorem closeMember_closed {fd : Int} {k : Handle} (hfd : fd ≠ -1) :
    (s.closeMember fd (some k)).closed = s.closed ++ [k.serial] := by
  rw [closeMember, if_neg hfd, closed, close, List.map_append]
  rfl

/-- A `close` that is meant for the member is in the log. -/
theorem mem_closeMember_closed {fd : Int} {got : Option Handle} (hfd : fd ≠ -1) {k : Handle}
    (hgot : got = some k) : k.serial ∈ (s.closeMember fd got).closed := by
  rw [hgot, closeMember_closed hfd]
  exact List.mem_append_right _ (List.mem_singleton_self _)

theorem Owes.closed_sockfd {k : Handle} (hk : s.Owes k .sockfd) :
    k.serial ∈ (s.closeMember s.sockfd s.listening).closed :=
  mem_closeMember_closed hk.2.2.1 hk.1

theorem Owes.closed_epollFd {k : Handle} (hk : s.Owes k .epollFd) :
    k.serial ∈ (s.closeMember s.epollFd s.epoll).closed :=
  mem_closeMember_closed hk.2.2.1 hk.1

theorem closeMember_opened (fd : Int) (got : Option Handle) :
    (s.closeMember fd got).table.opened = s.table.opened := by
  rcases closeMember_eq s fd got with heq | ⟨k, -, -, heq⟩
  · rw [heq]
  · rw [heq]
    rfl

variable [DecidableEq θ] {l : Label θ}

theorem log_step (hstep : s.step l = some s') :
    s.closes <+: s'.closes ∧ s.table.opened ≤ s'.table.opened := by
  cases transition_of_step hstep with
  | listen fd ok run free | createEpoll fd run free | addSockfdFails fd run free
  | accept k events fd run event free | socket t rank fd call free locked =>
      exact ⟨List.prefix_rfl, Nat.le_succ _⟩
  | closeSocket k events run event other | sendRankReportFails t rank sock locked call =>
      exact ⟨List.prefix_append _ _, Nat.le_refl _⟩
  | closeEpoll run | closeListening run | closeSockfd main | closeEpollFd main =>
      exact ⟨closes_le_closeMember _ _, Nat.le_of_eq (closeMember_opened _ _).symm⟩
  | deleteSocket report conn socks run => split <;> exact ⟨List.prefix_rfl, Nat.le_refl _⟩
  | _ => exact ⟨List.prefix_rfl, Nat.le_refl _⟩

/-! ## The members are closed -/

omit [DecidableEq θ] in
theorem Billed.mono (h : Billed s) (hlistening : s'.listening = s.listening)
    (hepoll : s'.epoll = s.epoll) (hcloses : s.closes <+: s'.closes)
    (hsockfd : ∀ k, s.Owes k .sockfd → s'.Owes k .sockfd ∨ k.serial ∈ s'.closed)
    (hepollFd : ∀ k, s.Owes k .epollFd → s'.Owes k .epollFd ∨ k.serial ∈ s'.closed) :
    Billed s' := by
  have hlogged : ∀ i, i ∈ s.closed → i ∈ s'.closed := fun i hi =>
    (closed_mono hcloses).subset hi
  constructor
  · intro k hk
    rw [hlistening] at hk
    rcases h.sockfd k hk with howes | hclosed
    · exact hsockfd k howes
    · exact Or.inr (hlogged _ hclosed)
  · intro k hk
    rw [hepoll] at hk
    rcases h.epollFd k hk with howes | hclosed
    · exact hepollFd k howes
    · exact Or.inr (hlogged _ hclosed)

omit [DecidableEq θ] in
theorem Billed.goOn (h : Billed s) (hmembers : s'.members = s.members)
    (hcloses : s.closes <+: s'.closes)
    (hrun : s'.run = s.run ∨ (s'.run ≠ .left ∧ s'.run ≠ .ended)) : Billed s' := by
  simp only [members, Prod.mk.injEq] at hmembers
  obtain ⟨hsockfd, hepollFd, hlistening, hepoll, hmain⟩ := hmembers
  apply h.mono hlistening hepoll hcloses
  · rintro k ⟨hgot, hstage, hset, hend⟩
    refine Or.inl ⟨hlistening.trans hgot, hmain ▸ hstage, hsockfd ▸ hset, ?_⟩
    rcases hrun with hsame | hgoing
    · rw [hsame]
      exact hend
    · exact hgoing.2
  · rintro k ⟨hgot, hstage, hset, hend⟩
    refine Or.inl ⟨hepoll.trans hgot, hmain ▸ hstage, hepollFd ▸ hset, ?_⟩
    rcases hrun with hsame | hgoing
    · rw [hsame]
      exact hend
    · exact hgoing

omit [DecidableEq θ] in
/-- A step of `stopServer` that closes nothing. -/
theorem Billed.stop (h : Billed s) {main : MainStage} {sockfd epollFd : Int} {running : Bool}
    (hsockfd : main ≠ .resetSockfd ∧ (s.main ≠ .resetSockfd → sockfd = s.sockfd))
    (hepollFd : main ≠ .resetEpollFd ∧ (s.main ≠ .resetEpollFd → epollFd = s.epollFd)) :
    Billed { s with main := main, sockfd := sockfd, epollFd := epollFd, running := running } := by
  refine h.mono rfl rfl List.prefix_rfl ?_ ?_
  · rintro k ⟨hgot, hstage, hset, hend⟩
    refine Or.inl ⟨hgot, hsockfd.1, ?_, hend⟩
    rw [← hsockfd.2 hstage] at hset
    exact hset
  · rintro k ⟨hgot, hstage, hset, hend⟩
    refine Or.inl ⟨hgot, hepollFd.1, ?_, hend⟩
    rw [← hepollFd.2 hstage] at hset
    exact hset

omit [DecidableEq θ] in
theorem Billed.closeEpoll (h : Billed s) :
    Billed { s.closeMember s.epollFd s.epoll with run := .left } := by
  have hprefix := closes_le_closeMember (s := s) s.epollFd s.epoll
  have hlogged := fun k => Owes.closed_epollFd (s := s) (k := k)
  obtain ⟨table, closes, heq⟩ := closeMember_frame s s.epollFd s.epoll
  rw [heq] at hprefix hlogged ⊢
  refine h.mono rfl rfl hprefix ?_ fun k hk => Or.inr (hlogged k hk)
  rintro k ⟨hgot, hstage, hset, -⟩
  exact Or.inl ⟨hgot, hstage, hset, nofun⟩

omit [DecidableEq θ] in
theorem Billed.closeListening (h : Billed s) (hrun : s.run = .left) :
    Billed { s.closeMember s.sockfd s.listening with run := .ended } := by
  have hprefix := closes_le_closeMember (s := s) s.sockfd s.listening
  have hlogged := fun k => Owes.closed_sockfd (s := s) (k := k)
  obtain ⟨table, closes, heq⟩ := closeMember_frame s s.sockfd s.listening
  rw [heq] at hprefix hlogged ⊢
  refine h.mono rfl rfl hprefix (fun k hk => Or.inr (hlogged k hk)) ?_
  rintro k ⟨-, -, -, hleft, -⟩
  exact absurd hrun hleft

omit [DecidableEq θ] in
theorem Billed.closeSockfd (h : Billed s) :
    Billed { s.closeMember s.sockfd s.listening with main := .resetSockfd } := by
  have hprefix := closes_le_closeMember (s := s) s.sockfd s.listening
  have hlogged := fun k => Owes.closed_sockfd (s := s) (k := k)
  obtain ⟨table, closes, heq⟩ := closeMember_frame s s.sockfd s.listening
  rw [heq] at hprefix hlogged ⊢
  refine h.mono rfl rfl hprefix (fun k hk => Or.inr (hlogged k hk)) ?_
  rintro k ⟨hgot, -, hset, hend⟩
  exact Or.inl ⟨hgot, nofun, hset, hend⟩

omit [DecidableEq θ] in
theorem Billed.closeEpollFd (h : Billed s) :
    Billed { s.closeMember s.epollFd s.epoll with main := .resetEpollFd } := by
  have hprefix := closes_le_closeMember (s := s) s.epollFd s.epoll
  have hlogged := fun k => Owes.closed_epollFd (s := s) (k := k)
  obtain ⟨table, closes, heq⟩ := closeMember_frame s s.epollFd s.epoll
  rw [heq] at hprefix hlogged ⊢
  refine h.mono rfl rfl hprefix ?_ fun k hk => Or.inr (hlogged k hk)
  rintro k ⟨hgot, -, hset, hend⟩
  exact Or.inl ⟨hgot, nofun, hset, hend⟩

theorem Billed.step (h : Billed s) (hstaged : Staged s) (hstep : s.step l = some s') :
    Billed s' := by
  cases transition_of_step hstep with
  | listen fd ok run free =>
      have hfd : fd ≠ -1 := free.ne_neg_one
      constructor
      · intro k hk
        refine Or.inl ⟨hk, ?_, hfd, ?_⟩
        · rw [hstaged.starting (Or.inl run)]
          exact nofun
        · cases ok <;> exact nofun
      · intro k hk
        rcases h.epollFd k hk with ⟨hgot, hstage, hset, -⟩ | hclosed
        · refine Or.inl ⟨hgot, hstage, hset, ?_⟩
          cases ok <;> exact ⟨nofun, nofun⟩
        · exact Or.inr hclosed
  | createEpoll fd run free =>
      have hfd : fd ≠ -1 := free.ne_neg_one
      constructor
      · intro k hk
        rcases h.sockfd k hk with ⟨hgot, -, hset, -⟩ | hclosed
        · exact Or.inl ⟨hgot, nofun, hset, nofun⟩
        · exact Or.inr hclosed
      · intro k hk
        exact Or.inl ⟨hk, nofun, hfd, nofun, nofun⟩
  | addSockfdFails fd run free =>
      have hfd : fd ≠ -1 := free.ne_neg_one
      constructor
      · intro k hk
        rcases h.sockfd k hk with ⟨hgot, hstage, hset, -⟩ | hclosed
        · exact Or.inl ⟨hgot, hstage, hset, nofun⟩
        · exact Or.inr hclosed
      · intro k hk
        refine Or.inl ⟨hk, ?_, hfd, nofun, nofun⟩
        rw [hstaged.starting (Or.inr run)]
        exact nofun
  | closeEpoll run => exact h.closeEpoll
  | closeListening run => exact h.closeListening run
  | stopServer main => exact h.stop ⟨nofun, fun _ => rfl⟩ ⟨nofun, fun _ => rfl⟩
  | testSockfd main =>
      refine h.stop ⟨?_, fun _ => rfl⟩ ⟨?_, fun _ => rfl⟩ <;> (split <;> exact nofun)
  | closeSockfd main => exact h.closeSockfd
  | resetSockfd main =>
      refine h.stop ⟨nofun, fun hstage => absurd main hstage⟩ ⟨nofun, fun _ => rfl⟩
  | testEpollFd main =>
      refine h.stop ⟨?_, fun _ => rfl⟩ ⟨?_, fun _ => rfl⟩ <;> (split <;> exact nofun)
  | closeEpollFd main => exact h.closeEpollFd
  | resetEpollFd main =>
      refine h.stop ⟨nofun, fun _ => rfl⟩ ⟨nofun, fun hstage => absurd main hstage⟩
  | join main run => exact h.stop ⟨nofun, fun _ => rfl⟩ ⟨nofun, fun _ => rfl⟩
  | closeSocket k events run event other =>
      exact h.goOn rfl (List.prefix_append _ _) (Or.inr ⟨nofun, nofun⟩)
  | sendRankReportFails t rank sock locked call =>
      exact h.goOn rfl (List.prefix_append _ _) (Or.inl rfl)
  | testRunning run =>
      refine h.goOn rfl List.prefix_rfl (Or.inr ?_)
      cases s.running <;> exact ⟨nofun, nofun⟩
  | listenFails run | createEpollFails run | epollWaitFails run | addAccepted conn run
  | addAcceptedFails conn run | deleteSocket report conn socks run =>
      exact h.goOn rfl List.prefix_rfl (Or.inr ⟨nofun, nofun⟩)
  | epollWait events run nodup polled | endBatch run event | accept k events fd run event free =>
      exact h.goOn rfl List.prefix_rfl (Or.inr ⟨nofun, nofun⟩)
  | _ => exact h.goOn rfl List.prefix_rfl (Or.inl rfl)

/-! ## A second `close` -/

omit [DecidableEq θ] in
/-- A `close` of what is in the log already. -/
theorem two_le_count {i : Nat} (hlogged : i ∈ s.closed) (hagain : s'.closed = s.closed ++ [i]) :
    2 ≤ s'.closed.count i := by
  have hone : 0 < s.closed.count i := List.count_pos_iff.mpr hlogged
  rw [hagain, List.count_append, List.count_singleton_self]
  omega

omit [DecidableEq θ] in
theorem two_le_count_closeMember {fd : Int} {got : Option Handle} {x : Holder θ} (hfd : fd ≠ -1)
    (hset : got ≠ none) (hbilled : ∀ k, got = some k → s.Owes k x ∨ k.serial ∈ s.closed)
    (hnot : ∀ k, ¬ s.Owes k x) (hcloses : s'.closes = (s.closeMember fd got).closes) :
    ∃ i ∈ s.closed, 2 ≤ s'.closed.count i := by
  obtain ⟨k, rfl⟩ := Option.ne_none_iff_exists'.mp hset
  rcases hbilled k rfl with howes | hlogged
  · exact absurd howes (hnot k)
  · refine ⟨k.serial, hlogged, two_le_count hlogged ?_⟩
    rw [closed, hcloses]
    exact closeMember_closed hfd

omit [DecidableEq θ] in
theorem clean_stopServer (hsockfd : s.main ≠ .closeSockfd) (hepollFd : s.main ≠ .closeEpollFd) :
    Clean s .stopServer :=
  ⟨fun hmain => absurd hmain hsockfd, fun hmain => absurd hmain hepollFd⟩

/-- A step that is not clean closes a member for the second time. -/
theorem twice_of_not_clean (hbilled : Billed s) (hstaged : Staged s) (hnot : ¬ Clean s l)
    (hstep : s.step l = some s') : ∃ i ∈ s.closed, 2 ≤ s'.closed.count i := by
  cases transition_of_step hstep with
  | closeSocket k events run event other =>
      -- the event is on the listening socket, and `stopServer` has reset `sockfd`
      have hgot : s.listening = some k := by
        by_contra hne
        apply hnot
        intro k' events' hevent
        obtain ⟨rfl, rfl⟩ := List.cons.inj (event.symm.trans hevent)
        exact hne
      have hreset : s.sockfd = -1 := by
        rcases hstaged.sockfd k hgot with hreset | hfd
        · exact hreset
        · exact absurd hfd.symm other
      rcases hbilled.sockfd k hgot with howes | hlogged
      · exact absurd hreset howes.2.2.1
      · refine ⟨k.serial, hlogged, two_le_count hlogged ?_⟩
        rw [closed, closed]
        exact List.map_append
  | closeEpoll run =>
      have hmain : s.main = .resetEpollFd := by
        by_contra hne
        refine hnot ⟨fun _ => hne, fun hleft => ?_⟩
        cases run.symm.trans hleft
      have hpos := hstaged.closesEpollFd (Or.inr hmain)
      have hset : s.epollFd ≠ -1 := by omega
      exact two_le_count_closeMember hset (hstaged.gotEpollFd hset) hbilled.epollFd
        (fun k howes => howes.2.1 hmain) rfl
  | closeListening run =>
      have hmain : s.main = .resetSockfd := by
        by_contra hne
        refine hnot ⟨fun hleaving => ?_, fun _ => hne⟩
        cases run.symm.trans hleaving
      have hpos := hstaged.closesSockfd (Or.inr hmain)
      have hset : s.sockfd ≠ -1 := by omega
      exact two_le_count_closeMember hset (hstaged.gotSockfd hset) hbilled.sockfd
        (fun k howes => howes.2.1 hmain) rfl
  | closeSockfd main =>
      have hrun : s.run = .ended := by
        by_contra hne
        refine hnot ⟨fun _ => hne, fun hmain => ?_⟩
        cases main.symm.trans hmain
      have hpos := hstaged.closesSockfd (Or.inl main)
      have hset : s.sockfd ≠ -1 := by omega
      exact two_le_count_closeMember hset (hstaged.gotSockfd hset) hbilled.sockfd
        (fun k howes => howes.2.2.2 hrun) rfl
  | closeEpollFd main =>
      have hrun : ¬ (s.run ≠ .left ∧ s.run ≠ .ended) := by
        intro hgoing
        refine hnot ⟨fun hmain => ?_, fun _ => hgoing⟩
        cases main.symm.trans hmain
      have hpos := hstaged.closesEpollFd (Or.inl main)
      have hset : s.epollFd ≠ -1 := by omega
      exact two_le_count_closeMember hset (hstaged.gotEpollFd hset) hbilled.epollFd
        (fun k howes => hrun howes.2.2.2) rfl
  | stopServer main | testSockfd main | resetSockfd main | testEpollFd main
  | resetEpollFd main | join main run =>
      exact absurd (clean_stopServer (by simp [main]) (by simp [main])) hnot
  | _ => exact absurd trivial hnot

/-! ## Whole runs -/

/-- What the log has once too often, it has for good. -/
theorem runFrom_twice {i : Nat} {es : List (Label θ)} (hrun : (machine θ).runFrom s es = some s')
    (hi : i < s.table.opened) (htwice : 2 ≤ s.closed.count i) :
    i < s'.table.opened ∧ 2 ≤ s'.closed.count i := by
  refine Machine.runFrom_invariant (I := fun a => i < a.table.opened ∧ 2 ≤ a.closed.count i) ?_
    ⟨hi, htwice⟩ hrun
  rintro a e a' ⟨hlt, htwo⟩ hstep
  obtain ⟨hcloses, hopened⟩ := log_step hstep
  exact ⟨Nat.lt_of_lt_of_le hlt hopened,
    Nat.le_trans htwo ((closed_mono hcloses).sublist.count_le i)⟩

omit [DecidableEq θ] in
theorem Effect.accounts (h : Effect s s') (ha : s.table.Accounts s.closed) :
    s'.table.Accounts s'.closed := by
  cases h with
  | same opened serial closes =>
      have hlog : s'.closed = s.closed := congrArg (List.map Prod.fst) closes
      rw [hlog]
      exact ha.congr opened serial
  | opened fd x free opened serial closes =>
      have hlog : s'.closed = s.closed := congrArg (List.map Prod.fst) closes
      rw [hlog]
      exact (ha.openAt free).congr opened serial
  | closed fd i own table closes =>
      have hlog : s'.closed = s.closed ++ [i] :=
        (congrArg (List.map Prod.fst) closes).trans List.map_append
      rw [table, hlog]
      exact ha.close own

structure Tidy (s : ManagerState θ) : Prop where
  staged : Staged s
  held : Held s
  billed : Billed s
  accounts : s.table.Accounts s.closed

theorem tidy_init : Tidy (machine θ).init where
  staged := staged_init
  held := held_init
  billed := ⟨fun _ hk => (nomatch hk), fun _ hk => (nomatch hk)⟩
  accounts := FileTable.accounts_empty

theorem Tidy.step (h : Tidy s) (hclean : Clean s l) (hstep : s.step l = some s') : Tidy s' where
  staged := h.staged.step hstep
  held := h.held.step h.staged hclean hstep
  billed := h.billed.step h.staged hstep
  accounts := (h.held.effect h.staged hclean hstep).accounts h.accounts

theorem tidy_run {ls : List (Label θ)} (hrun : (machine θ).Runs ls s)
    (hmeets : (machine θ).Meets Clean (machine θ).init ls) : Tidy s :=
  hrun.guarded tidy_init (fun _ _ _ h hclean hstep => h.step hclean hstep) hmeets

/-! ## When `stopServer` returns -/

def PastSockfd (s : ManagerState θ) : Prop :=
  s.main = .testEpollFd ∨ s.main = .closeEpollFd ∨ s.main = .resetEpollFd ∨ s.main = .joining ∨
    s.main = .returned

def PastEpollFd (s : ManagerState θ) : Prop := s.main = .joining ∨ s.main = .returned

/-- What `stopServer` leaves in the members, which are tested against 0. -/
structure Passed (s : ManagerState θ) : Prop where
  lowSockfd : -1 ≤ s.sockfd
  lowEpollFd : -1 ≤ s.epollFd
  sockfd : s.PastSockfd → s.sockfd ≤ 0
  epollFd : s.PastEpollFd → s.epollFd ≤ 0
  returned : s.main = .returned → s.run = .failed ∨ s.run = .ended

omit [DecidableEq θ] in
theorem Passed.goOn (h : Passed s) (hmembers : s'.members = s.members)
    (hrun : s'.run = s.run ∨ (s.run ≠ .failed ∧ s.run ≠ .ended)) : Passed s' := by
  simp only [members, Prod.mk.injEq] at hmembers
  obtain ⟨hsockfd, hepollFd, -, -, hmain⟩ := hmembers
  constructor
  · rw [hsockfd]
    exact h.lowSockfd
  · rw [hepollFd]
    exact h.lowEpollFd
  · rw [PastSockfd, hmain, hsockfd]
    exact h.sockfd
  · rw [PastEpollFd, hmain, hepollFd]
    exact h.epollFd
  · intro hreturned
    rw [hmain] at hreturned
    have hstopped := h.returned hreturned
    rcases hrun with hsame | hgoing
    · rw [hsame]
      exact hstopped
    · exact absurd hstopped (not_or.mpr hgoing)

theorem Passed.step (h : Passed s) (hstaged : Staged s) (hstep : s.step l = some s') :
    Passed s' := by
  cases transition_of_step hstep with
  | listen fd ok run free =>
      have hmain : s.main = .starting := hstaged.starting (Or.inl run)
      have hfd : -1 ≤ fd := Int.le_trans (by decide) free.1
      refine ⟨hfd, h.lowEpollFd, ?_, h.epollFd, ?_⟩
      · simp [PastSockfd, hmain]
      · simp [hmain]
  | createEpoll fd run free =>
      have hfd : -1 ≤ fd := Int.le_trans (by decide) free.1
      exact ⟨h.lowSockfd, hfd, by simp [PastSockfd], by simp [PastEpollFd], nofun⟩
  | addSockfdFails fd run free =>
      have hmain : s.main = .starting := hstaged.starting (Or.inr run)
      have hfd : -1 ≤ fd := Int.le_trans (by decide) free.1
      refine ⟨h.lowSockfd, hfd, h.sockfd, ?_, fun _ => Or.inl rfl⟩
      simp [PastEpollFd, hmain]
  | closeEpoll run =>
      obtain ⟨table, closes, heq⟩ := closeMember_frame s s.epollFd s.epoll
      rw [heq]
      exact h.goOn rfl (Or.inr (by simp [run]))
  | closeListening run =>
      obtain ⟨table, closes, heq⟩ := closeMember_frame s s.sockfd s.listening
      rw [heq]
      exact h.goOn rfl (Or.inr (by simp [run]))
  | stopServer main =>
      exact ⟨h.lowSockfd, h.lowEpollFd, by simp [PastSockfd], by simp [PastEpollFd], nofun⟩
  | testSockfd main =>
      refine ⟨h.lowSockfd, h.lowEpollFd, ?_, ?_, ?_⟩
      · intro hpast
        by_contra hpos
        simp [PastSockfd, Int.not_le.mp hpos] at hpast
      · intro hpast
        by_cases hpos : 0 < s.sockfd <;> simp [PastEpollFd, hpos] at hpast
      · dsimp only
        split <;> exact nofun
  | closeSockfd main =>
      obtain ⟨table, closes, heq⟩ := closeMember_frame s s.sockfd s.listening
      rw [heq]
      exact ⟨h.lowSockfd, h.lowEpollFd, by simp [PastSockfd], by simp [PastEpollFd], nofun⟩
  | resetSockfd main =>
      have hreset : (-1 : Int) ≤ 0 := by decide
      exact ⟨Int.le_refl _, h.lowEpollFd, fun _ => hreset, by simp [PastEpollFd], nofun⟩
  | testEpollFd main =>
      have hsockfd := h.sockfd (Or.inl main)
      refine ⟨h.lowSockfd, h.lowEpollFd, fun _ => hsockfd, ?_, ?_⟩
      · intro hpast
        by_contra hpos
        simp [PastEpollFd, Int.not_le.mp hpos] at hpast
      · dsimp only
        split <;> exact nofun
  | closeEpollFd main =>
      have hsockfd := h.sockfd (by simp [PastSockfd, main])
      obtain ⟨table, closes, heq⟩ := closeMember_frame s s.epollFd s.epoll
      rw [heq]
      exact ⟨h.lowSockfd, h.lowEpollFd, fun _ => hsockfd, by simp [PastEpollFd], nofun⟩
  | resetEpollFd main =>
      have hsockfd := h.sockfd (by simp [PastSockfd, main])
      have hreset : (-1 : Int) ≤ 0 := by decide
      exact ⟨h.lowSockfd, Int.le_refl _, fun _ => hsockfd, fun _ => hreset, nofun⟩
  | join main run =>
      have hsockfd := h.sockfd (by simp [PastSockfd, main])
      have hepollFd := h.epollFd (Or.inl main)
      exact ⟨h.lowSockfd, h.lowEpollFd, fun _ => hsockfd, fun _ => hepollFd, fun _ => run⟩
  | listenFails run | createEpollFails run | testRunning run | epollWaitFails run
  | addAccepted conn run | addAcceptedFails conn run | deleteSocket report conn socks run =>
      exact h.goOn rfl (Or.inr (by simp [run]))
  | epollWait events run nodup polled | endBatch run event | accept k events fd run event free
  | closeSocket k events run event other =>
      exact h.goOn rfl (Or.inr (by simp [run]))
  | _ => exact h.goOn rfl (Or.inl rfl)

theorem passed_run {ls : List (Label θ)} (hrun : (machine θ).Runs ls s) : Passed s := by
  have hinit : Staged (machine θ).init ∧ Passed (machine θ).init := by
    refine ⟨staged_init, Int.le_refl _, Int.le_refl _, ?_, ?_, nofun⟩
    · rintro (h | h | h | h | h) <;> cases h
    · rintro (h | h) <;> cases h
  have hinv := Machine.runFrom_invariant (I := fun a => Staged a ∧ Passed a) ?_ hinit hrun
  · exact hinv.2
  · rintro a e a' ⟨hstaged, hpassed⟩ hstep
    exact ⟨hstaged.step hstep, hpassed.step hstaged hstep⟩

def NoConnection (s : ManagerState θ) : Prop :=
  ∀ fd f, s.table.files fd = some f →
    s.listening = some ⟨fd, f.serial⟩ ∨ s.epoll = some ⟨fd, f.serial⟩

/-- `stopServer` does not close a member with the number 0, and `run` closes none where it fails. -/
def ZeroLeft (s : ManagerState θ) : Prop := s.run = .failed ∧ (s.sockfd = 0 ∨ s.epollFd = 0)

omit [DecidableEq θ] in
/-- The listening socket and the epoll instance are closed. -/
theorem Tidy.closed_members (h : Tidy s) (hpassed : Passed s) (hmain : s.main = .returned)
    (hzero : ¬ ZeroLeft s) {k : Handle} (hk : s.listening = some k ∨ s.epoll = some k) :
    k.serial ∈ s.closed := by
  have hfailed : s.run ≠ .ended → s.run = .failed := (hpassed.returned hmain).resolve_right
  rcases hk with hk | hk
  · rcases h.billed.sockfd k hk with ⟨-, -, hset, hend⟩ | hlogged
    · have hlow := hpassed.lowSockfd
      have hhigh := hpassed.sockfd (by simp [PastSockfd, hmain])
      exact absurd ⟨hfailed hend, Or.inl (by omega)⟩ hzero
    · exact hlogged
  · rcases h.billed.epollFd k hk with ⟨-, -, hset, -, hend⟩ | hlogged
    · have hlow := hpassed.lowEpollFd
      have hhigh := hpassed.epollFd (Or.inr hmain)
      exact absurd ⟨hfailed hend, Or.inr (by omega)⟩ hzero
    · exact hlogged

omit [DecidableEq θ] in
theorem Tidy.closedOnce_iff_nothing_left (h : Tidy s) (hpassed : Passed s)
    (hmain : s.main = .returned) : ClosedOnce s ↔ NoConnection s ∧ ¬ ZeroLeft s := by
  constructor
  · intro honce
    have hnone := h.accounts.closed_once_iff.mp honce
    refine ⟨fun fd f hf => ?_, ?_⟩
    · rw [hnone fd] at hf
      cases hf
    · rintro ⟨hrun, hzero⟩
      have howed : ∃ k x, s.Owes k x := by
        rcases hzero with hzero | hzero
        · have hset : s.sockfd ≠ -1 := by omega
          obtain ⟨k, hk⟩ := Option.ne_none_iff_exists'.mp (h.staged.gotSockfd hset)
          exact ⟨k, .sockfd, hk, by simp [hmain], hset, by simp [hrun]⟩
        · have hset : s.epollFd ≠ -1 := by omega
          obtain ⟨k, hk⟩ := Option.ne_none_iff_exists'.mp (h.staged.gotEpollFd hset)
          exact ⟨k, .epollFd, hk, by simp [hmain], hset, by simp [hrun]⟩
      obtain ⟨k, x, hk⟩ := howed
      obtain ⟨f, hf, -⟩ := h.held.owes k x hk
      rw [hnone k.fd] at hf
      cases hf
  · rintro ⟨hconn, hzero⟩
    apply h.accounts.closed_once_iff.mpr
    intro fd
    by_contra hne
    obtain ⟨f, hf⟩ := Option.ne_none_iff_exists'.mp hne
    have hlogged := h.closed_members hpassed hmain hzero (hconn fd f hf)
    have hcount := h.accounts.isOpen fd f.serial (FileTable.serial_eq_some.mpr ⟨f, hf, rfl⟩)
    exact absurd hlogged (List.count_eq_zero.mp hcount)

/-! ## The connections and the steps that close them -/

/-- The file that an `accept` or a `socket` gives. -/
def obtained (s : ManagerState θ) : Label θ → Option Nat
  | .accept (some _) | .socket _ _ (some _) => some s.table.opened
  | _ => none

/-- The file that is closed after a failed `read` of its event or after a failed rank report. -/
def released (s : ManagerState θ) : Label θ → Option Nat
  | .closeSocket => s.events.head?.map Handle.serial
  | .sendRankReport t false =>
      match s.calls t with
      | .reporting _ sock => some sock.serial
      | _ => none
  | _ => none

def Member (s : ManagerState θ) (i : Nat) : Prop :=
  ∃ k, (s.listening = some k ∨ s.epoll = some k) ∧ k.serial = i

/-- No step closes what somebody else has to close, and no failing `epoll_wait` leaves a member with
the number 0, which `stopServer` does not close. -/
def Careful (s : ManagerState θ) : Label θ → Prop
  | .epollWait none => s.sockfd ≠ 0 ∧ s.epollFd ≠ 0
  | l => Clean s l

instance (s : ManagerState θ) : ∀ l, Decidable (Careful s l)
  | .epollWait none => inferInstanceAs (Decidable (_ ∧ _))
  | .closeSocket => decidable_of_iff (∀ k ∈ s.events.head?, s.listening ≠ some k) (by
      show _ ↔ ∀ k events, s.events = k :: events → s.listening ≠ some k
      cases s.events <;> simp)
  | .endRun | .stopServer => inferInstanceAs (Decidable (_ ∧ _))
  | .listen _ | .createEpoll _ | .testRunning | .epollWait (some _) | .accept _ | .addAccepted _
  | .handle _ | .deleteSocket _ | .endBatch | .socket .. | .connect .. | .waitRunning _
  | .sendRankReport .. | .addSendSocket .. | .registerTarget _ | .clearSendSocket _ =>
      .isTrue trivial

omit [DecidableEq θ] in
theorem Careful.clean (h : Careful s l) : Clean s l := by
  unfold Careful at h
  split at h
  · trivial
  · exact h

omit [DecidableEq θ] in
theorem Clean.careful (h : Clean s l) (hnot : ¬ Careful s l) :
    l = .epollWait none ∧ (s.sockfd = 0 ∨ s.epollFd = 0) := by
  unfold Careful at hnot
  split at hnot
  · exact ⟨rfl, by omega⟩
  · exact absurd h hnot

omit [DecidableEq θ] in
theorem closeMember_member {fd : Int} {got : Option Handle}
    (hgot : ∀ k, got = some k → s.listening = some k ∨ s.epoll = some k) :
    (s.closeMember fd got).closed = s.closed ∨
      ∃ i, (s.closeMember fd got).closed = s.closed ++ [i] ∧ s.Member i := by
  rcases closeMember_eq s fd got with heq | ⟨k, rfl, hfd, -⟩
  · exact Or.inl (congrArg closed heq)
  · exact Or.inr ⟨k.serial, closeMember_closed hfd, k, hgot k rfl, rfl⟩

/-- What a step closes is a member or is released. -/
theorem closed_step (hstep : s.step l = some s') :
    s'.closed = s.closed ∨
      ∃ i, s'.closed = s.closed ++ [i] ∧ (released s l = some i ∨ s.Member i) := by
  have hmember : ∀ {fd got}, (∀ k, got = some k → s.listening = some k ∨ s.epoll = some k) →
      (s.closeMember fd got).closed = s.closed ∨ ∃ i, (s.closeMember fd got).closed =
        s.closed ++ [i] ∧ (released s l = some i ∨ s.Member i) := by
    intro fd got hgot
    rcases closeMember_member hgot with hsame | ⟨i, hmore, hi⟩
    · exact Or.inl hsame
    · exact Or.inr ⟨i, hmore, Or.inr hi⟩
  cases transition_of_step hstep with
  | closeSocket k events run event other =>
      refine Or.inr ⟨k.serial, List.map_append, Or.inl ?_⟩
      rw [released, event]
      rfl
  | sendRankReportFails t rank sock locked call =>
      refine Or.inr ⟨sock.serial, List.map_append, Or.inl ?_⟩
      rw [released, call]
  | closeEpoll run | closeEpollFd main => exact hmember fun _ => Or.inr
  | closeListening run | closeSockfd main => exact hmember fun _ => Or.inl
  | _ => exact Or.inl rfl

omit [DecidableEq θ] in
theorem mem_closed_close (s : ManagerState θ) (fd : Int) (i : Nat) :
    i ∈ (s.close fd i).closed := by
  rw [closed, close, List.map_append]
  exact List.mem_append_right _ List.mem_cons_self

theorem released_closed {i : Nat} (hreleased : released s l = some i)
    (hstep : s.step l = some s') : i ∈ s'.closed := by
  cases transition_of_step hstep with
  | closeSocket k events run event other =>
      rw [released, event] at hreleased
      obtain rfl := Option.some.inj hreleased
      exact mem_closed_close s k.fd k.serial
  | sendRankReportFails t rank sock locked call =>
      rw [released, call] at hreleased
      obtain rfl := Option.some.inj hreleased
      exact mem_closed_close s sock.fd sock.serial
  | _ => cases hreleased

/-- What a step opens is for a member or is obtained. -/
theorem opened_step (hstep : s.step l = some s') :
    s'.table.opened = s.table.opened ∧ obtained s l = none ∨
      s'.table.opened = s.table.opened + 1 ∧ s'.closed = s.closed ∧
        (obtained s l = some s.table.opened ∧ s'.listening = s.listening ∧ s'.epoll = s.epoll ∨
          obtained s l = none ∧ s'.Member s.table.opened) := by
  cases transition_of_step hstep with
  | listen fd ok run free =>
      exact Or.inr ⟨rfl, rfl, Or.inr ⟨rfl, _, Or.inl rfl, rfl⟩⟩
  | createEpoll fd run free =>
      exact Or.inr ⟨rfl, rfl, Or.inr ⟨rfl, _, Or.inr rfl, rfl⟩⟩
  | addSockfdFails fd run free =>
      exact Or.inr ⟨rfl, rfl, Or.inr ⟨rfl, _, Or.inr rfl, rfl⟩⟩
  | accept k events fd run event free => exact Or.inr ⟨rfl, rfl, Or.inl ⟨rfl, rfl, rfl⟩⟩
  | socket t rank fd call free locked => exact Or.inr ⟨rfl, rfl, Or.inl ⟨rfl, rfl, rfl⟩⟩
  | closeEpoll run | closeListening run | closeSockfd main | closeEpollFd main =>
      exact Or.inl ⟨closeMember_opened _ _, rfl⟩
  | deleteSocket report conn socks run => split <;> exact Or.inl ⟨rfl, rfl⟩
  | _ => exact Or.inl ⟨rfl, rfl⟩

/-- Members are got once. -/
theorem member_step (hstaged : Staged s) {i : Nat} (hmember : s.Member i)
    (hstep : s.step l = some s') : s'.Member i := by
  obtain ⟨k, hk, hi⟩ := hmember
  suffices hkept : s'.listening = some k ∨ s'.epoll = some k from ⟨k, hkept, hi⟩
  cases transition_of_step hstep with
  | listen fd ok run free =>
      rw [hstaged.idle run] at hk
      exact Or.inr (hk.resolve_left (by rintro ⟨⟩))
  | createEpoll fd run free =>
      rw [hstaged.unset (Or.inr run)] at hk
      exact Or.inl (hk.resolve_right (by rintro ⟨⟩))
  | addSockfdFails fd run free =>
      rw [hstaged.unset (Or.inr run)] at hk
      exact Or.inl (hk.resolve_right (by rintro ⟨⟩))
  | closeEpoll run | closeEpollFd main =>
      obtain ⟨table, closes, heq⟩ := closeMember_frame s s.epollFd s.epoll
      rw [heq]
      exact hk
  | closeListening run | closeSockfd main =>
      obtain ⟨table, closes, heq⟩ := closeMember_frame s s.sockfd s.listening
      rw [heq]
      exact hk
  | _ => exact hk

omit [DecidableEq θ] in
theorem Tidy.member_lt (h : Tidy s) {k : Handle} (hk : s.listening = some k ∨ s.epoll = some k) :
    k.serial < s.table.opened := by
  have hcases : (∃ x, s.Owes k x) ∨ k.serial ∈ s.closed := by
    rcases hk with hk | hk
    · exact (h.billed.sockfd k hk).imp_left fun howes => ⟨_, howes⟩
    · exact (h.billed.epollFd k hk).imp_left fun howes => ⟨_, howes⟩
  rcases hcases with ⟨x, howes⟩ | hclosed
  · exact FileTable.serial_lt_opened (h.held.owes k x howes).serial
  · exact h.accounts.given _ hclosed

omit [DecidableEq θ] in
/-- A member that is open is open under its own number. -/
theorem Tidy.at_member (h : Tidy s) {fd : Int} {i : Nat} (hmember : s.Member i)
    (hserial : s.table.serial fd = some i) :
    s.listening = some ⟨fd, i⟩ ∨ s.epoll = some ⟨fd, i⟩ := by
  obtain ⟨k, hk, rfl⟩ := hmember
  have hopen : k.serial ∉ s.closed := List.count_eq_zero.mp (h.accounts.isOpen fd k.serial hserial)
  have howner : ∀ {x}, s.Owes k x ∨ k.serial ∈ s.closed → k = ⟨fd, k.serial⟩ := by
    intro x howes
    have hhas := h.held.owes k x (howes.resolve_right hopen)
    rw [FileTable.serial_unique hserial hhas.serial]
  rcases hk with hk | hk
  · exact Or.inl (howner (h.billed.sockfd k hk) ▸ hk)
  · exact Or.inr (howner (h.billed.epollFd k hk) ▸ hk)

def Foreign (i : Nat) (s : ManagerState θ) : Prop := i < s.table.opened ∧ ¬ s.Member i

theorem foreign_step {i : Nat} (h : Foreign i s) (hstep : s.step l = some s') : Foreign i s' := by
  refine ⟨Nat.lt_of_lt_of_le h.1 (log_step hstep).2, ?_⟩
  rintro ⟨k, hk, hi⟩
  have hnew : ∀ fd, k = ⟨fd, s.table.opened⟩ → False := by
    rintro fd rfl
    exact absurd hi (Nat.ne_of_gt h.1)
  have hold : ¬ (s.listening = some k ∨ s.epoll = some k) := fun hk => h.2 ⟨k, hk, hi⟩
  cases transition_of_step hstep with
  | listen fd ok run free =>
      rcases hk with hk | hk
      · exact hnew fd (Option.some.inj hk).symm
      · exact hold (Or.inr hk)
  | createEpoll fd run free | addSockfdFails fd run free =>
      rcases hk with hk | hk
      · exact hold (Or.inl hk)
      · exact hnew fd (Option.some.inj hk).symm
  | closeEpoll run | closeEpollFd main =>
      obtain ⟨table, closes, heq⟩ := closeMember_frame s s.epollFd s.epoll
      rw [heq] at hk
      exact hold hk
  | closeListening run | closeSockfd main =>
      obtain ⟨table, closes, heq⟩ := closeMember_frame s s.sockfd s.listening
      rw [heq] at hk
      exact hold hk
  | _ => exact hold hk

/-- A `run` that has failed keeps the member with the number 0. -/
theorem ZeroLeft.step (h : ZeroLeft s) (hstaged : Staged s) (hstep : s.step l = some s') :
    ZeroLeft s' := by
  obtain ⟨hfailed, hzero⟩ := h
  have hrun : ∀ {stage}, s.run = stage → stage ≠ .failed → False :=
    fun heq hne => hne (heq.symm.trans hfailed)
  cases transition_of_step hstep with
  | listenFails run | listen fd ok run free | createEpollFails run | createEpoll fd run free
  | addSockfdFails fd run free | testRunning run | epollWaitFails run
  | epollWait events run nodup polled | acceptFails k events run event
  | accept k events fd run event free | addAccepted conn run | addAcceptedFails conn run
  | closeSocket k events run event other | deleteSocket report conn socks run
  | endBatch run event | closeEpoll run | closeListening run =>
      exact (hrun run (by rintro ⟨⟩)).elim
  | resetSockfd main =>
      have hpos := hstaged.closesSockfd (Or.inr main)
      exact ⟨hfailed, Or.inr (hzero.resolve_left (by omega))⟩
  | resetEpollFd main =>
      have hpos := hstaged.closesEpollFd (Or.inr main)
      exact ⟨hfailed, Or.inl (hzero.resolve_right (by omega))⟩
  | closeSockfd main =>
      obtain ⟨table, closes, heq⟩ := closeMember_frame s s.sockfd s.listening
      rw [heq]
      exact ⟨hfailed, hzero⟩
  | closeEpollFd main =>
      obtain ⟨table, closes, heq⟩ := closeMember_frame s s.epollFd s.epoll
      rw [heq]
      exact ⟨hfailed, hzero⟩
  | _ => exact ⟨hfailed, hzero⟩

/-- No member with the number 0 is left once `startServer` is back. -/
def NoneLeft (s : ManagerState θ) : Prop := s.main ≠ .starting → ¬ ZeroLeft s

theorem NoneLeft.step (h : NoneLeft s) (hstaged : Staged s) (hcareful : Careful s l)
    (hstep : s.step l = some s') : NoneLeft s' := by
  have hkeep : s'.main = s.main → s'.sockfd = s.sockfd → s'.epollFd = s.epollFd →
      s'.run = s.run → NoneLeft s' := by
    intro hmain hsockfd hepollFd hrun hstarted
    rw [ZeroLeft, hrun, hsockfd, hepollFd]
    exact h (hmain ▸ hstarted)
  have hgoing : s'.run ≠ .failed → NoneLeft s' := fun hne _ hzero => hne hzero.1
  cases transition_of_step hstep with
  | listenFails run | listen fd ok run free =>
      exact fun hstarted => absurd (hstaged.starting (Or.inl run)) hstarted
  | createEpollFails run | addSockfdFails fd run free =>
      exact fun hstarted => absurd (hstaged.starting (Or.inr run)) hstarted
  | epollWaitFails run =>
      obtain ⟨hsockfd, hepollFd⟩ : s.sockfd ≠ 0 ∧ s.epollFd ≠ 0 := hcareful
      exact fun _ hzero => hzero.2.elim hsockfd hepollFd
  | testRunning run =>
      apply hgoing
      dsimp only
      split <;> rintro ⟨⟩
  | createEpoll fd run free | epollWait events run nodup polled
  | accept k events fd run event free | addAccepted conn run | addAcceptedFails conn run
  | closeSocket k events run event other | deleteSocket report conn socks run
  | endBatch run event | closeEpoll run | closeListening run =>
      exact hgoing (by rintro ⟨⟩)
  | stopServer main | testSockfd main | testEpollFd main | join main run =>
      exact fun _ => h (by simp [main])
  | closeSockfd main =>
      obtain ⟨table, closes, heq⟩ := closeMember_frame s s.sockfd s.listening
      rw [heq]
      exact fun _ => h (by simp [main])
  | closeEpollFd main =>
      obtain ⟨table, closes, heq⟩ := closeMember_frame s s.epollFd s.epoll
      rw [heq]
      exact fun _ => h (by simp [main])
  | resetSockfd main =>
      rintro - ⟨hfailed, hzero | hzero⟩
      · cases hzero
      · exact h (by simp [main]) ⟨hfailed, Or.inr hzero⟩
  | resetEpollFd main =>
      rintro - ⟨hfailed, hzero | hzero⟩
      · exact h (by simp [main]) ⟨hfailed, Or.inl hzero⟩
      · cases hzero
  | _ => exact hkeep rfl rfl rfl rfl

/-! ## Whole runs -/

theorem mem_closed_step {i : Nat} (hi : i ∈ s.closed) (hstep : s.step l = some s') :
    i ∈ s'.closed :=
  (closed_mono (log_step hstep).1).subset hi

/-- What is closed in the end, and was opened for a connection, is released on the way. -/
theorem answered_of_closedOnce {ls : List (Label θ)} {t : ManagerState θ} (htidy : Tidy s)
    (hmeets : (machine θ).Meets Clean s ls) (hrun : (machine θ).runFrom s ls = some t)
    (honce : ClosedOnce t) : (machine θ).Answered obtained released s ls := by
  induction ls generalizing s with
  | nil => trivial
  | cons l ls ih =>
      intro mid hmid
      obtain ⟨mid', hmid', hrest⟩ := Option.bind_eq_some_iff.mp hrun
      obtain rfl := Option.some.inj (hmid'.symm.trans hmid)
      have htidy' : Tidy mid' := htidy.step hmeets.1 hmid
      refine ⟨fun i hi => ?_, ih htidy' (hmeets.2 mid' hmid) hrest⟩
      rcases opened_step hmid with ⟨-, hnone⟩ | ⟨hopened, hclosed, ⟨hgot, hmembers⟩ | ⟨hnone, -⟩⟩
      · cases hnone.symm.trans hi
      · obtain rfl := Option.some.inj (hgot.symm.trans hi)
        have hforeign : Foreign s.table.opened mid' := by
          refine ⟨by omega, ?_⟩
          rintro ⟨k, hk, hserial⟩
          rw [hmembers.1, hmembers.2] at hk
          exact Nat.ne_of_lt (htidy.member_lt hk) hserial
        have hnot : s.table.opened ∉ mid'.closed := by
          rw [hclosed]
          exact fun hmem => Nat.lt_irrefl _ (htidy.accounts.given _ hmem)
        have hlt : s.table.opened < t.table.opened :=
          (Machine.runFrom_invariant (fun _ _ _ => foreign_step) hforeign hrest).1
        have hlast : s.table.opened ∈ t.closed :=
          List.count_pos_iff.mp (Nat.lt_of_lt_of_eq Nat.one_pos (honce _ hlt).symm)
        refine Machine.Occurs.of_change (I := Foreign s.table.opened)
          (P := fun a => s.table.opened ∈ a.closed) (fun _ _ _ => foreign_step) ?_ hforeign hnot
          hrest hlast
        intro a x a' ha hno hstep hyes
        rcases closed_step hstep with hsame | ⟨j, hmore, hj⟩
        · rw [hsame] at hyes
          exact absurd hyes hno
        · rw [hmore] at hyes
          obtain rfl := List.mem_singleton.mp ((List.mem_append.mp hyes).resolve_left hno)
          exact hj.resolve_right ha.2
      · cases hnone.symm.trans hi

/-- Where all connections are released, everything but the members is closed in the end. -/
theorem closed_of_answered {ls : List (Label θ)} {t : ManagerState θ} (hstaged : Staged s)
    (hanswered : (machine θ).Answered obtained released s ls)
    (hrun : (machine θ).runFrom s ls = some t)
    (hsofar : ∀ i < s.table.opened, s.Member i ∨ i ∈ t.closed) :
    ∀ i < t.table.opened, t.Member i ∨ i ∈ t.closed := by
  induction ls generalizing s with
  | nil =>
      obtain rfl := Option.some.inj hrun
      exact hsofar
  | cons l ls ih =>
      obtain ⟨mid, hmid, hrest⟩ := Option.bind_eq_some_iff.mp hrun
      obtain ⟨hreleased, hanswered'⟩ := hanswered mid hmid
      refine ih (hstaged.step hmid) hanswered' hrest fun i hi => ?_
      have hold : i < s.table.opened → mid.Member i ∨ i ∈ t.closed := fun hlt =>
        (hsofar i hlt).imp_left fun hmember => member_step hstaged hmember hmid
      rcases opened_step hmid with ⟨hopened, -⟩ | ⟨hopened, -, hnew⟩
      · exact hold (by omega)
      · rcases Nat.lt_or_eq_of_le (Nat.lt_succ_iff.mp (hopened ▸ hi)) with hlt | rfl
        · exact hold hlt
        · rcases hnew with ⟨hgot, -⟩ | ⟨-, hmember⟩
          · refine Or.inr ((hreleased _ hgot).holds (P := fun a => s.table.opened ∈ a.closed) ?_ ?_
              hrest)
            · exact fun _ _ _ => released_closed
            · exact fun _ _ _ => mem_closed_step
          · exact Or.inl hmember

/-- **Each descriptor is closed once.** When `stopServer` has returned, everything that was got has
been closed once exactly when `run` and `stopServer` have kept out of each other's way, neither
closed a member that the other had closed, no event took the listening socket for a connection, no
`epoll_wait` failed with a member that has the number 0, and every socket that `accept` or
`getSendSocket` got was closed at a later step by an event of its own or after a failed report. -/
theorem closedOnce_iff {ls : List (Label θ)} (hrun : (machine θ).Runs ls s)
    (hmain : s.main = .returned) :
    ClosedOnce s ↔ (machine θ).Meets Careful (machine θ).init ls ∧
      (machine θ).Answered obtained released (machine θ).init ls := by
  have hpassed := passed_run hrun
  constructor
  · intro honce
    have hmeets : (machine θ).Meets Clean (machine θ).init ls := by
      -- a member that is closed twice stays in the log twice
      by_contra hbreach
      obtain ⟨pre, e, post, a, a', -, ha, hmeets, hnot, hstep, hrest⟩ := hrun.exists_breach hbreach
      have htidy := tidy_run ha hmeets
      obtain ⟨i, hlogged, htwice⟩ := twice_of_not_clean htidy.billed htidy.staged hnot hstep
      have hlt : i < a'.table.opened :=
        Nat.lt_of_lt_of_le (htidy.accounts.given i hlogged) (log_step hstep).2
      obtain ⟨hlt', htwice'⟩ := runFrom_twice hrest hlt htwice
      have hone := honce i hlt'
      omega
    have htidy := tidy_run hrun hmeets
    refine ⟨?_, answered_of_closedOnce tidy_init hmeets hrun honce⟩
    by_contra hbreach
    obtain ⟨pre, e, post, a, a', rfl, ha, -, hnot, hstep, hrest⟩ := hrun.exists_breach hbreach
    have hstaged : Staged a := (tidy_run ha hmeets.of_append).staged
    -- the step is clean, so it is an `epoll_wait` that leaves a member
    have hclean : Clean a e := ((Machine.meets_snoc ha).mp (by
      rw [List.append_cons] at hmeets
      exact hmeets.of_append)).2
    obtain ⟨rfl, hzero⟩ := hclean.careful hnot
    have hwait : a.step (.epollWait none) = some a' := hstep
    have hleft : ZeroLeft a' := by
      cases transition_of_step hwait with
      | epollWaitFails run => exact ⟨rfl, hzero⟩
    have hkept : Staged s ∧ ZeroLeft s := by
      refine Machine.runFrom_invariant (I := fun b => Staged b ∧ ZeroLeft b) ?_
        ⟨hstaged.step hwait, hleft⟩ hrest
      rintro b x b' ⟨hb, hzero⟩ hx
      exact ⟨hb.step hx, hzero.step hb hx⟩
    exact ((htidy.closedOnce_iff_nothing_left hpassed hmain).mp honce).2 hkept.2
  · rintro ⟨hmeets, hanswered⟩
    have hclean : (machine θ).Meets Clean (machine θ).init ls := hmeets.mono fun _ _ h => h.clean
    have htidy := tidy_run hrun hclean
    apply (htidy.closedOnce_iff_nothing_left hpassed hmain).mpr
    constructor
    · intro fd f hf
      have hserial : s.table.serial fd = some f.serial := FileTable.serial_eq_some.mpr ⟨f, hf, rfl⟩
      have hopen : f.serial ∉ s.closed :=
        List.count_eq_zero.mp (htidy.accounts.isOpen fd f.serial hserial)
      have hsettled := closed_of_answered staged_init hanswered hrun
        (fun i hi => absurd hi (Nat.not_lt_zero i)) f.serial (FileTable.serial_lt_opened hserial)
      exact htidy.at_member (hsettled.resolve_right hopen) hserial
    · have hnone : Staged s ∧ NoneLeft s := by
        refine hrun.guarded (I := fun a => Staged a ∧ NoneLeft a)
          ⟨staged_init, fun hstarted => absurd rfl hstarted⟩ ?_ hmeets
        rintro a l a' ⟨ha, hleft⟩ hl hstep
        exact ⟨ha.step hstep, hleft.step ha hl hstep⟩
      exact hnone.2 (by simp [hmain])

/-- `run` is in `epoll_wait` with the connection 5 when `stopServer` is called. -/
def serveOne : List (Label Unit) :=
  [.registerTarget 1, .listen (some (3, true)), .createEpoll (some (4, true)), .testRunning,
    .epollWait (some [⟨3, 0⟩]), .accept (some 5), .addAccepted true, .endBatch, .testRunning]

/-- A sender closes its socket 6. `stopServer` has closed and reset both members when the wait of
`run` returns; an event closes the connection, and `run` reaches its end. -/
def stopLast : List (Label Unit) :=
  serveOne ++ [.socket () 1 (some 6), .connect () true, .waitRunning (), .sendRankReport () false,
    .stopServer, .stopServer, .stopServer, .stopServer, .stopServer, .stopServer, .stopServer,
    .epollWait (some [⟨5, 2⟩]), .closeSocket, .deleteSocket none, .endBatch, .testRunning, .endRun,
    .endRun, .stopServer]

theorem closedOnce_iff_run :
    ∃ s, (machine Unit).Runs stopLast s ∧ s.table.opened = 4 ∧ ClosedOnce s := by
  have hrun : (machine Unit).Runs stopLast _ := rfl
  have hcareful : (machine Unit).Meets Careful (machine Unit).init stopLast := by decide +kernel
  have hanswered : (machine Unit).Answered obtained released (machine Unit).init stopLast := by
    decide +kernel
  exact ⟨_, hrun, rfl, (closedOnce_iff hrun rfl).mpr ⟨hcareful, hanswered⟩⟩

/-- `run` reaches its end between the first line of `stopServer` and the test of `sockfd`: the
listening socket and the epoll instance are closed twice, and the connection 5 stays open. -/
theorem not_closedOnce :
    ∃ ls s, (machine Unit).Runs ls s ∧ s.main = .returned ∧ s.closed.count 0 = 2 ∧
      s.closed.count 1 = 2 ∧ s.closed.count 2 = 0 ∧ s.table.Has 5 2 .loop ∧ ¬ ClosedOnce s := by
  let ls : List (Label Unit) :=
    serveOne ++ [.epollWait (some []), .stopServer, .endBatch, .testRunning, .endRun, .endRun,
      .stopServer, .stopServer, .stopServer, .stopServer, .stopServer, .stopServer, .stopServer]
  have hend : ((machine Unit).runFrom (machine Unit).init ls).map
      (fun s => (s.closed, s.table.opened)) = some ([1, 0, 0, 1], 3) := by
    decide +kernel
  have hlast : ((machine Unit).runFrom (machine Unit).init ls).map
      (fun s => (s.main, s.table.files 5)) =
        some (.returned, some { serial := 2, holder := .loop, polled := true }) := by
    decide +kernel
  obtain ⟨s, hrun, hs⟩ := Option.map_eq_some_iff.mp hend
  obtain ⟨hclosed, hopened⟩ := Prod.mk.inj hs
  rw [hrun] at hlast
  obtain ⟨hmain, hfile⟩ := Prod.mk.inj (Option.some.inj hlast)
  have hcount : ∀ i, s.closed.count i = [1, 0, 0, 1].count i := fun i => by rw [hclosed]
  refine ⟨ls, s, hrun, hmain, hcount 0, hcount 1, hcount 2, ⟨_, hfile, rfl, rfl⟩, fun h => ?_⟩
  have hone := h 0 (by omega)
  rw [hcount 0] at hone
  cases hone

end ManagerState

end Npp.Network
