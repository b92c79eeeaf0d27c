import Npp.Network.Manager

/-!
# Who closes what

What each part of a manager has to close or hand on, and that the descriptor still names the file it
was got for. This holds through every step that closes nothing of somebody else (`Clean`), and then
each `close` hits the file it is meant for.
-/

namespace Npp.Network

open Npp.Foundation

namespace ManagerState

variable {θ : Type} {s s' : ManagerState θ}

theorem Free.files_eq_none {fd : Int} (h : s.Free fd) : s.table.files fd = none :=
  Option.isNone_iff_eq_none.mp h.2

/-- What the kernel gives out is not the mark of a member without a descriptor. -/
theorem Free.ne_neg_one {fd : Int} (h : s.Free fd) : fd ≠ -1 := by
  have hnonneg := h.1
  omega

theorem closeMember_eq (s : ManagerState θ) (fd : Int) (got : Option Handle) :
    s.closeMember fd got = s ∨
      ∃ h, got = some h ∧ fd ≠ -1 ∧ s.closeMember fd got = s.close fd h.serial := by
  cases got with
  | none => exact Or.inl rfl
  | some h =>
      by_cases hfd : fd = -1
      · exact Or.inl (if_pos hfd)
      · exact Or.inr ⟨h, rfl, hfd, if_neg hfd⟩

theorem closeMember_frame (s : ManagerState θ) (fd : Int) (got : Option Handle) :
    ∃ table closes, s.closeMember fd got = { s with table := table, closes := closes } := by
  rcases closeMember_eq s fd got with heq | ⟨h, -, -, heq⟩
  · exact ⟨s.table, s.closes, heq⟩
  · exact ⟨_, _, heq⟩

/-! ## The members -/

/-- What the members hold in each stage of `run` and of `stopServer`. -/
structure Staged (s : ManagerState θ) : Prop where
  idle : s.run = .idle → s.listening = none
  unset : s.run = .idle ∨ s.run = .bound → s.epoll = none
  starting : s.run = .idle ∨ s.run = .bound → s.main = .starting
  bound : s.run = .bound → ∃ h, s.listening = some h ∧ s.sockfd = h.fd ∧ s.sockfd ≠ -1
  sockfd : ∀ h, s.listening = some h → s.sockfd = -1 ∨ s.sockfd = h.fd
  epollFd : ∀ h, s.epoll = some h → s.epollFd = -1 ∨ s.epollFd = h.fd
  gotSockfd : s.sockfd ≠ -1 → s.listening ≠ none
  gotEpollFd : s.epollFd ≠ -1 → s.epoll ≠ none
  serving : s.main = .starting ∨ s.main = .serving → ∀ h, s.listening = some h → s.sockfd = h.fd
  closesSockfd : s.main = .closeSockfd ∨ s.main = .resetSockfd → 0 < s.sockfd
  closesEpollFd : s.main = .closeEpollFd ∨ s.main = .resetEpollFd → 0 < s.epollFd

def members (s : ManagerState θ) : Int × Int × Option Handle × Option Handle × MainStage :=
  (s.sockfd, s.epollFd, s.listening, s.epoll, s.main)

/-- A step of `run` behind its start, or of a call. -/
theorem Staged.goOn (h : Staged s) (hmembers : s'.members = s.members)
    (hrun : s'.run = s.run ∨ (s'.run ≠ .idle ∧ s'.run ≠ .bound)) : Staged s' := by
  simp only [members, Prod.mk.injEq] at hmembers
  obtain ⟨hsockfd, hepollFd, hlistening, hepoll, hmain⟩ := hmembers
  have hstage : ∀ r, r = .idle ∨ r = .bound → s'.run = r → s.run = r := by
    rintro r hr rfl
    rcases hrun with hsame | ⟨hidle, hbound⟩
    · exact hsame.symm
    · rcases hr with hr | hr
      · exact absurd hr hidle
      · exact absurd hr hbound
  constructor
  · rw [hlistening]
    exact fun hr => h.idle (hstage _ (Or.inl rfl) hr)
  · rw [hepoll]
    exact fun hr => h.unset (hr.imp (hstage _ (Or.inl rfl)) (hstage _ (Or.inr rfl)))
  · rw [hmain]
    exact fun hr => h.starting (hr.imp (hstage _ (Or.inl rfl)) (hstage _ (Or.inr rfl)))
  · rw [hlistening, hsockfd]
    exact fun hr => h.bound (hstage _ (Or.inr rfl) hr)
  · rw [hlistening, hsockfd]
    exact h.sockfd
  · rw [hepoll, hepollFd]
    exact h.epollFd
  · rw [hlistening, hsockfd]
    exact h.gotSockfd
  · rw [hepoll, hepollFd]
    exact h.gotEpollFd
  · rw [hmain, hlistening, hsockfd]
    exact h.serving
  · rw [hmain, hsockfd]
    exact h.closesSockfd
  · rw [hmain, hepollFd]
    exact h.closesEpollFd

/-- A step of `stopServer` once `startServer` is back. -/
theorem Staged.stop (h : Staged s) (hmain : s.main ≠ .starting) (hrun : s'.run = s.run)
    (hlistening : s'.listening = s.listening) (hepoll : s'.epoll = s.epoll)
    (hsockfd : s'.sockfd = -1 ∨ s'.sockfd = s.sockfd)
    (hepollFd : s'.epollFd = -1 ∨ s'.epollFd = s.epollFd)
    (hlater : s'.main ≠ .starting ∧ s'.main ≠ .serving)
    (hclosesSockfd : s'.main = .closeSockfd ∨ s'.main = .resetSockfd → 0 < s'.sockfd)
    (hclosesEpollFd : s'.main = .closeEpollFd ∨ s'.main = .resetEpollFd → 0 < s'.epollFd) :
    Staged s' := by
  have hstarted : ¬ (s.run = .idle ∨ s.run = .bound) := fun hr => hmain (h.starting hr)
  constructor
  · rw [hrun, hlistening]
    exact h.idle
  · rw [hrun]
    exact fun hr => absurd hr hstarted
  · rw [hrun]
    exact fun hr => absurd hr hstarted
  · rw [hrun]
    exact fun hr => absurd (Or.inr hr) hstarted
  · intro k hk
    rw [hlistening] at hk
    rcases hsockfd with hreset | hsame
    · exact Or.inl hreset
    · rw [hsame]
      exact h.sockfd k hk
  · intro k hk
    rw [hepoll] at hk
    rcases hepollFd with hreset | hsame
    · exact Or.inl hreset
    · rw [hsame]
      exact h.epollFd k hk
  · intro hset
    rw [hlistening]
    rcases hsockfd with hreset | hsame
    · exact absurd hreset hset
    · exact h.gotSockfd (hsame ▸ hset)
  · intro hset
    rw [hepoll]
    rcases hepollFd with hreset | hsame
    · exact absurd hreset hset
    · exact h.gotEpollFd (hsame ▸ hset)
  · exact fun hserving => absurd hserving (not_or.mpr hlater)
  · exact hclosesSockfd
  · exact hclosesEpollFd

theorem Staged.step [DecidableEq θ] {l : Label θ} (h : Staged s) (hstep : s.step l = some s') :
    Staged s' := by
  cases transition_of_step hstep with
  | listenFails run => exact h.goOn rfl (Or.inr ⟨nofun, nofun⟩)
  | listen fd ok run free =>
      have hmain : s.main = .starting := h.starting (Or.inl run)
      have hfd : fd ≠ -1 := free.ne_neg_one
      constructor
      · cases ok <;> exact nofun
      · exact fun _ => h.unset (Or.inl run)
      · exact fun _ => hmain
      · exact fun _ => ⟨_, rfl, rfl, hfd⟩
      · rintro k hk
        exact Or.inr (congrArg Handle.fd (Option.some.inj hk))
      · exact h.epollFd
      · exact fun _ => nofun
      · exact h.gotEpollFd
      · rintro - k hk
        exact congrArg Handle.fd (Option.some.inj hk)
      · rintro (hclose | hclose) <;> (rw [hmain] at hclose; cases hclose)
      · exact h.closesEpollFd
  | createEpollFails run => exact h.goOn rfl (Or.inr ⟨nofun, nofun⟩)
  | createEpoll fd run free =>
      have hmain : s.main = .starting := h.starting (Or.inr run)
      constructor
      · exact nofun
      · exact nofun
      · exact nofun
      · exact nofun
      · exact h.sockfd
      · rintro k hk
        exact Or.inr (congrArg Handle.fd (Option.some.inj hk))
      · exact h.gotSockfd
      · exact fun _ => nofun
      · exact fun _ => h.serving (Or.inl hmain)
      · exact nofun
      · exact nofun
  | addSockfdFails fd run free =>
      have hmain : s.main = .starting := h.starting (Or.inr run)
      constructor
      · exact nofun
      · exact nofun
      · exact nofun
      · exact nofun
      · exact h.sockfd
      · rintro k hk
        exact Or.inr (congrArg Handle.fd (Option.some.inj hk))
      · exact h.gotSockfd
      · exact fun _ => nofun
      · exact h.serving
      · exact h.closesSockfd
      · rintro (hclose | hclose) <;> (rw [hmain] at hclose; cases hclose)
  | testRunning run =>
      refine h.goOn rfl (Or.inr ?_)
      cases s.running <;> exact ⟨nofun, nofun⟩
  | epollWaitFails run => exact h.goOn rfl (Or.inr ⟨nofun, nofun⟩)
  | epollWait events run nodup polled => exact h.goOn rfl (Or.inr ⟨nofun, nofun⟩)
  | acceptFails k events run event => exact h.goOn rfl (Or.inl rfl)
  | accept k events fd run event free => exact h.goOn rfl (Or.inr ⟨nofun, nofun⟩)
  | addAccepted conn run => exact h.goOn rfl (Or.inr ⟨nofun, nofun⟩)
  | addAcceptedFails conn run => exact h.goOn rfl (Or.inr ⟨nofun, nofun⟩)
  | handle report k events socks event => exact h.goOn rfl (Or.inl rfl)
  | closeSocket k events run event other => exact h.goOn rfl (Or.inr ⟨nofun, nofun⟩)
  | deleteSocket report conn socks run => exact h.goOn rfl (Or.inr ⟨nofun, nofun⟩)
  | endBatch run event => exact h.goOn rfl (Or.inr ⟨nofun, nofun⟩)
  | closeEpoll run =>
      rcases closeMember_eq s s.epollFd s.epoll with heq | ⟨k, -, -, heq⟩ <;>
        (rw [heq]; exact h.goOn rfl (Or.inr ⟨nofun, nofun⟩))
  | closeListening run =>
      rcases closeMember_eq s s.sockfd s.listening with heq | ⟨k, -, -, heq⟩ <;>
        (rw [heq]; exact h.goOn rfl (Or.inr ⟨nofun, nofun⟩))
  | socket t rank fd call free locked => exact h.goOn rfl (Or.inl rfl)
  | connect t rank sock call => exact h.goOn rfl (Or.inl rfl)
  | waitRunning t rank sock call => exact h.goOn rfl (Or.inl rfl)
  | connectFails t rank sock locked call => exact h.goOn rfl (Or.inl rfl)
  | sendRankReport t rank sock socks call => exact h.goOn rfl (Or.inl rfl)
  | sendRankReportFails t rank sock locked call => exact h.goOn rfl (Or.inl rfl)
  | addSendSocket t rank sock locked call => exact h.goOn rfl (Or.inl rfl)
  | addSendSocketFails t rank sock locked call => exact h.goOn rfl (Or.inl rfl)
  | noSocket t rank => exact h
  | registerTarget rank socks => exact h.goOn rfl (Or.inl rfl)
  | clearSendSocket rank socks => exact h.goOn rfl (Or.inl rfl)
  | stopServer main =>
      exact h.stop (by simp [main]) rfl rfl rfl (Or.inr rfl) (Or.inr rfl) ⟨nofun, nofun⟩ nofun nofun
  | testSockfd main =>
      refine h.stop (by simp [main]) rfl rfl rfl (Or.inr rfl) (Or.inr rfl) ?_ ?_ ?_
      · dsimp only
        split <;> exact ⟨nofun, nofun⟩
      · dsimp only
        split
        case isTrue hpos => exact fun _ => hpos
        case isFalse => exact nofun
      · dsimp only
        split <;> exact nofun
  | closeSockfd main =>
      have hpos := h.closesSockfd (Or.inl main)
      rcases closeMember_eq s s.sockfd s.listening with heq | ⟨k, -, -, heq⟩ <;>
        (rw [heq]; exact h.stop (by simp [main]) rfl rfl rfl (Or.inr rfl) (Or.inr rfl)
          ⟨nofun, nofun⟩ (fun _ => hpos) nofun)
  | resetSockfd main =>
      exact h.stop (by simp [main]) rfl rfl rfl (Or.inl rfl) (Or.inr rfl) ⟨nofun, nofun⟩ nofun nofun
  | testEpollFd main =>
      refine h.stop (by simp [main]) rfl rfl rfl (Or.inr rfl) (Or.inr rfl) ?_ ?_ ?_
      · dsimp only
        split <;> exact ⟨nofun, nofun⟩
      · dsimp only
        split <;> exact nofun
      · dsimp only
        split
        case isTrue hpos => exact fun _ => hpos
        case isFalse => exact nofun
  | closeEpollFd main =>
      have hpos := h.closesEpollFd (Or.inl main)
      rcases closeMember_eq s s.epollFd s.epoll with heq | ⟨k, -, -, heq⟩ <;>
        (rw [heq]; exact h.stop (by simp [main]) rfl rfl rfl (Or.inr rfl) (Or.inr rfl)
          ⟨nofun, nofun⟩ nofun (fun _ => hpos))
  | resetEpollFd main =>
      exact h.stop (by simp [main]) rfl rfl rfl (Or.inr rfl) (Or.inl rfl) ⟨nofun, nofun⟩ nofun nofun
  | join main run =>
      exact h.stop (by simp [main]) rfl rfl rfl (Or.inr rfl) (Or.inr rfl) ⟨nofun, nofun⟩ nofun nofun

theorem staged_init [DecidableEq θ] : Staged (machine θ).init := by
  constructor
  · exact fun _ => rfl
  · exact fun _ => rfl
  · exact fun _ => rfl
  · exact nofun
  · exact nofun
  · exact nofun
  · exact fun hset => absurd rfl hset
  · exact fun hset => absurd rfl hset
  · exact fun _ _ hk => nomatch hk
  · rintro (hmain | hmain) <;> cases hmain
  · rintro (hmain | hmain) <;> cases hmain

/-! ## The holders -/

/-- What the holder has to close or hand on. An event on the listening socket is not for `close`. -/
def Owes (s : ManagerState θ) (k : Handle) : Holder θ → Prop
  | .sockfd => s.listening = some k ∧ s.main ≠ .resetSockfd ∧ s.sockfd ≠ -1 ∧ s.run ≠ .ended
  | .epollFd => s.epoll = some k ∧ s.main ≠ .resetEpollFd ∧ s.epollFd ≠ -1 ∧
      s.run ≠ .left ∧ s.run ≠ .ended
  | .accepted => s.run = .accepted k
  | .call t => (s.calls t).sock = some k
  | .loop => k ∈ s.events ∧ s.listening ≠ some k
  | .nobody => False

/-- What somebody has to close is open, and the epoll set has connections and `sockfd` only. -/
structure Held (s : ManagerState θ) : Prop where
  owes : ∀ k x, s.Owes k x → s.table.Has k.fd k.serial x
  polled : ∀ fd f, s.table.files fd = some f → f.polled = true →
    f.holder = .loop ∨ f.holder = .sockfd
  server : ∀ fd f, s.table.files fd = some f → f.holder = .sockfd →
    s.listening = some ⟨fd, f.serial⟩
  events : (s.events.map Handle.fd).Nodup

/-- No step closes what somebody else has to close. -/
def Clean (s : ManagerState θ) : Label θ → Prop
  | .closeSocket => ∀ k events, s.events = k :: events → s.listening ≠ some k
  | .endRun => (s.run = .leaving → s.main ≠ .resetEpollFd) ∧
      (s.run = .left → s.main ≠ .resetSockfd)
  | .stopServer => (s.main = .closeSockfd → s.run ≠ .ended) ∧
      (s.main = .closeEpollFd → s.run ≠ .left ∧ s.run ≠ .ended)
  | _ => True

/-- A step that leaves the table alone. -/
theorem Held.keep (h : Held s) (htable : s'.table = s.table)
    (hlistening : s'.listening = s.listening) (hevents : s'.events.Sublist s.events)
    (howes : ∀ k x, s'.Owes k x → s.Owes k x) : Held s' := by
  constructor
  · intro k x hk
    rw [htable]
    exact h.owes k x (howes k x hk)
  · rw [htable]
    exact h.polled
  · rw [htable, hlistening]
    exact h.server
  · exact h.events.sublist (hevents.map Handle.fd)

/-- A step that gives somebody a new descriptor. -/
theorem Held.opened (h : Held s) {fd : Int} {x : Holder θ} (hfree : s.Free fd)
    (htable : s'.table = s.table.openAt fd x) (hx : x ≠ .sockfd)
    (hlistening : s'.listening = s.listening) (hevents : s'.events.Sublist s.events)
    (howes : ∀ k y, s'.Owes k y → s.Owes k y ∨ (k = ⟨fd, s.table.opened⟩ ∧ y = x)) : Held s' := by
  have hnone : s.table.files fd = none := hfree.files_eq_none
  constructor
  · intro k y hk
    rw [htable]
    rcases howes k y hk with hold | ⟨rfl, rfl⟩
    · exact (h.owes k y hold).openAt hnone
    · exact FileTable.has_openAt
  · intro j f hf hpolled
    rw [htable] at hf
    rcases FileTable.update_eq_some.mp hf with ⟨-, hnew⟩ | ⟨-, hold⟩
    · obtain rfl := Option.some.inj hnew
      cases hpolled
    · exact h.polled j f hold hpolled
  · intro j f hf hserver
    rw [htable] at hf
    rw [hlistening]
    rcases FileTable.update_eq_some.mp hf with ⟨-, hnew⟩ | ⟨-, hold⟩
    · obtain rfl := Option.some.inj hnew
      exact absurd hserver hx
    · exact h.server j f hold hserver
  · exact h.events.sublist (hevents.map Handle.fd)

/-- A step in which the holder `x` of a file gives it away. -/
theorem Held.released (h : Held s) {k : Handle} {x : Holder θ}
    (hhas : s.table.Has k.fd k.serial x)
    (hkeep : ∀ (j : Handle) y, j.fd ≠ k.fd → s.table.Has j.fd j.serial y →
      s'.table.Has j.fd j.serial y)
    (hpolled : ∀ fd f, s'.table.files fd = some f → f.polled = true →
      f.holder = .loop ∨ f.holder = .sockfd)
    (hserver : ∀ fd f, s'.table.files fd = some f → f.holder = .sockfd →
      s.table.files fd = some f)
    (hlistening : s'.listening = s.listening) (hevents : s'.events.Sublist s.events)
    (howes : ∀ j y, s'.Owes j y → s.Owes j y ∧ (y = x → j.fd ≠ k.fd)) : Held s' := by
  refine ⟨?_, hpolled, ?_, h.events.sublist (hevents.map Handle.fd)⟩
  · intro j y hj
    obtain ⟨hold, hother⟩ := howes j y hj
    apply hkeep j y ?_ (h.owes j y hold)
    intro hfd
    -- the file under one number has one holder
    have hj' := h.owes j y hold
    rw [hfd] at hj'
    exact hother (hj'.holder_eq hhas) hfd
  · intro fd f hf hs
    rw [hlistening]
    exact h.server fd f (hserver fd f hf hs) hs

theorem Held.closed (h : Held s) {k : Handle} {x : Holder θ}
    (hhas : s.table.Has k.fd k.serial x) (htable : s'.table = s.table.close k.fd)
    (hlistening : s'.listening = s.listening) (hevents : s'.events.Sublist s.events)
    (howes : ∀ j y, s'.Owes j y → s.Owes j y ∧ (y = x → j.fd ≠ k.fd)) : Held s' := by
  have hfiles : ∀ fd f, s'.table.files fd = some f → s.table.files fd = some f := by
    intro fd f hf
    rw [htable] at hf
    rcases FileTable.update_eq_some.mp hf with ⟨-, hnone⟩ | ⟨-, hold⟩
    · cases hnone
    · exact hold
  refine h.released hhas ?_ ?_ (fun fd f hf _ => hfiles fd f hf) hlistening hevents howes
  · intro j y hj hold
    rw [htable]
    exact hold.close hj
  · exact fun fd f hf => h.polled fd f (hfiles fd f hf)

/-- An `epoll_ctl` that fails leaves the file to nobody, and one that succeeds to the loop. -/
theorem Held.passed (h : Held s) {k : Handle} {x y : Holder θ} {polled : Bool → Bool}
    (hhas : s.table.Has k.fd k.serial x) (hx : x ≠ .loop ∧ x ≠ .sockfd) (hy : y ≠ .sockfd)
    (hmark : ∀ b, polled b = true → b = true ∨ y = .loop)
    (htable : s'.table = s.table.remark k.fd (fun _ => y) polled)
    (hlistening : s'.listening = s.listening) (hevents : s'.events.Sublist s.events)
    (howes : ∀ j z, s'.Owes j z → s.Owes j z ∧ (z = x → j.fd ≠ k.fd)) : Held s' := by
  have hfiles : ∀ fd f, s'.table.files fd = some f →
      (∃ g, s.table.files k.fd = some g ∧ g.holder = x ∧
        f = { g with holder := y, polled := polled g.polled }) ∨
      s.table.files fd = some f := by
    intro fd f hf
    rw [htable] at hf
    rcases FileTable.update_eq_some.mp hf with ⟨-, hmap⟩ | ⟨-, hold⟩
    · obtain ⟨g, hg, rfl⟩ := Option.map_eq_some_iff.mp hmap
      have hholder : g.holder = x :=
        FileTable.Has.holder_eq (⟨g, hg, rfl, rfl⟩ : s.table.Has k.fd g.serial g.holder) hhas
      exact Or.inl ⟨g, hg, hholder, rfl⟩
    · exact Or.inr hold
  refine h.released hhas ?_ ?_ ?_ hlistening hevents howes
  · intro j z hj hold
    rw [htable]
    exact hold.remark hj
  · intro fd f hf hpolled
    rcases hfiles fd f hf with ⟨g, hg, hholder, rfl⟩ | hold
    · rcases hmark g.polled hpolled with hbefore | hloop
      · -- a file in the epoll set is not on its way there
        rcases h.polled k.fd g hg hbefore with hwas | hwas
        · exact absurd (hholder.symm.trans hwas) hx.1
        · exact absurd (hholder.symm.trans hwas) hx.2
      · exact Or.inl hloop
    · exact h.polled fd f hold hpolled
  · intro fd f hf hs
    rcases hfiles fd f hf with ⟨g, -, -, rfl⟩ | hold
    · exact absurd hs hy
    · exact hold

/-! ## What each step leaves to whom -/

/-- A step that leaves the members alone changes what `run` is adding, or what the calls have. -/
theorem owes_cases (s : ManagerState θ) {k : Handle} {x : Holder θ} (hk : s'.Owes k x)
    (hmembers : s'.members = s.members) (hevents : s'.events.Sublist s.events)
    (hrun : s'.run = s.run ∨ s'.run = .ended ∨ (s.run ≠ .left ∧ s.run ≠ .ended)) :
    s.Owes k x ∨ (x = .accepted ∧ s'.run = .accepted k) ∨
      ∃ t, x = .call t ∧ (s'.calls t).sock = some k := by
  simp only [members, Prod.mk.injEq] at hmembers
  obtain ⟨hsockfd, hepollFd, hlistening, hepoll, hmain⟩ := hmembers
  cases x with
  | sockfd =>
      obtain ⟨hgot, hstage, hset, hend⟩ := hk
      rw [hlistening] at hgot
      rw [hmain] at hstage
      rw [hsockfd] at hset
      refine Or.inl ⟨hgot, hstage, hset, ?_⟩
      rcases hrun with hsame | hended | ⟨-, hgoing⟩
      · rw [← hsame]
        exact hend
      · exact absurd hended hend
      · exact hgoing
  | epollFd =>
      obtain ⟨hgot, hstage, hset, hleft, hend⟩ := hk
      rw [hepoll] at hgot
      rw [hmain] at hstage
      rw [hepollFd] at hset
      refine Or.inl ⟨hgot, hstage, hset, ?_⟩
      rcases hrun with hsame | hended | hgoing
      · rw [← hsame]
        exact ⟨hleft, hend⟩
      · exact absurd hended hend
      · exact hgoing
  | accepted => exact Or.inr (Or.inl ⟨rfl, hk⟩)
  | call t => exact Or.inr (Or.inr ⟨t, rfl, hk⟩)
  | loop =>
      obtain ⟨hmem, hother⟩ := hk
      rw [hlistening] at hother
      exact Or.inl ⟨hevents.subset hmem, hother⟩
  | nobody => exact absurd hk id

theorem owes_goOn {k : Handle} {x : Holder θ} (hk : s'.Owes k x)
    (hmembers : s'.members = s.members) (hevents : s'.events.Sublist s.events)
    (hcalls : s'.calls = s.calls)
    (hrun : s'.run = s.run ∨ s'.run = .ended ∨ (s.run ≠ .left ∧ s.run ≠ .ended))
    (haccepted : ∀ k, s'.run = .accepted k → s.run = .accepted k) : s.Owes k x := by
  rcases owes_cases s hk hmembers hevents hrun with hold | ⟨rfl, hconn⟩ | ⟨t, rfl, hsock⟩
  · exact hold
  · exact haccepted k hconn
  · rw [hcalls] at hsock
    exact hsock

/-- A step of one call. -/
theorem owes_call [DecidableEq θ] (s : ManagerState θ) {k : Handle} {x : Holder θ}
    (hk : s'.Owes k x) (hmembers : s'.members = s.members) (hevents : s'.events = s.events)
    (hrun : s'.run = s.run) {t : θ} {c : CallStage}
    (hcalls : s'.calls = Function.update s.calls t c) :
    (s.Owes k x ∧ x ≠ .call t) ∨ (x = .call t ∧ c.sock = some k) := by
  have hsublist : s'.events.Sublist s.events := by rw [hevents]
  rcases owes_cases s hk hmembers hsublist (Or.inl hrun) with
    hold | ⟨rfl, hconn⟩ | ⟨t', rfl, hsock⟩
  · by_cases hx : x = .call t
    · subst hx
      change (s'.calls t).sock = some k at hk
      rw [hcalls, Function.update_self] at hk
      exact Or.inr ⟨rfl, hk⟩
    · exact Or.inl ⟨hold, hx⟩
  · rw [hrun] at hconn
    exact Or.inl ⟨hconn, nofun⟩
  · rw [hcalls] at hsock
    by_cases ht : t' = t
    · subst ht
      rw [Function.update_self] at hsock
      exact Or.inr ⟨rfl, hsock⟩
    · rw [Function.update_of_ne ht] at hsock
      refine Or.inl ⟨hsock, fun heq => ht ?_⟩
      cases heq
      rfl

/-- A call that is over has nothing. -/
theorem owes_endCall [DecidableEq θ] (hmembers : s'.members = s.members)
    (hevents : s'.events = s.events) (hrun : s'.run = s.run) {t : θ}
    (hcalls : s'.calls = Function.update s.calls t .idle)
    {k : Handle} (j : Handle) (y : Holder θ) (hj : s'.Owes j y) :
    s.Owes j y ∧ (y = .call t → j.fd ≠ k.fd) := by
  rcases owes_call s hj hmembers hevents hrun hcalls with ⟨hold, hother⟩ | ⟨-, hsock⟩
  · exact ⟨hold, fun heq => absurd heq hother⟩
  · cases hsock

/-! ## The steps of `run` -/

theorem Held.has_sockfd (h : Held s) (hstaged : Staged s) (hmain : s.main ≠ .resetSockfd)
    (hrun : s.run ≠ .ended) (hset : s.sockfd ≠ -1) {k : Handle} (hgot : s.listening = some k) :
    k.fd = s.sockfd ∧ s.table.Has k.fd k.serial .sockfd := by
  refine ⟨?_, h.owes k .sockfd ⟨hgot, hmain, hset, hrun⟩⟩
  rcases hstaged.sockfd k hgot with hreset | hfd
  · exact absurd hreset hset
  · exact hfd.symm

theorem Held.has_epollFd (h : Held s) (hstaged : Staged s) (hmain : s.main ≠ .resetEpollFd)
    (hrun : s.run ≠ .left ∧ s.run ≠ .ended) (hset : s.epollFd ≠ -1) {k : Handle}
    (hgot : s.epoll = some k) : k.fd = s.epollFd ∧ s.table.Has k.fd k.serial .epollFd := by
  refine ⟨?_, h.owes k .epollFd ⟨hgot, hmain, hset, hrun⟩⟩
  rcases hstaged.epollFd k hgot with hreset | hfd
  · exact absurd hreset hset
  · exact hfd.symm

theorem Held.listen (h : Held s) (hstaged : Staged s) (hrun : s.run = .idle) {fd : Int}
    (hfree : s.Free fd) (hrun' : s'.run ≠ .left ∧ s'.run ≠ .ended ∧ ∀ k, s'.run ≠ .accepted k)
    (hsame : s' = { s with
      table := s.table.openAt fd .sockfd
      sockfd := fd
      listening := some ⟨fd, s.table.opened⟩
      run := s'.run }) : Held s' := by
  have hfresh : s.listening = none := hstaged.idle hrun
  have hnone : s.table.files fd = none := hfree.files_eq_none
  have hbefore : ∀ j f, s.table.files j = some f → f.holder ≠ .sockfd := by
    intro j f hf hs
    have hgot := h.server j f hf hs
    rw [hfresh] at hgot
    cases hgot
  rw [hsame]
  constructor
  · intro k x hk
    cases x with
    | sockfd =>
        obtain rfl := Option.some.inj hk.1
        exact FileTable.has_openAt
    | epollFd =>
        obtain ⟨hgot, hmain, hset, -⟩ := hk
        refine (h.owes k .epollFd ⟨hgot, hmain, hset, ?_⟩).openAt hnone
        rw [hrun]
        exact ⟨nofun, nofun⟩
    | accepted => exact absurd hk (hrun'.2.2 k)
    | call t => exact (h.owes k (.call t) hk).openAt hnone
    | loop =>
        refine (h.owes k .loop ⟨hk.1, ?_⟩).openAt hnone
        rw [hfresh]
        exact nofun
    | nobody => exact absurd hk id
  · intro j f hf hpolled
    rcases FileTable.update_eq_some.mp hf with ⟨-, hnew⟩ | ⟨-, hold⟩
    · obtain rfl := Option.some.inj hnew
      cases hpolled
    · exact h.polled j f hold hpolled
  · intro j f hf hs
    rcases FileTable.update_eq_some.mp hf with ⟨rfl, hnew⟩ | ⟨-, hold⟩
    · obtain rfl := Option.some.inj hnew
      rfl
    · exact absurd hs (hbefore j f hold)
  · exact h.events

theorem Held.createEpoll (h : Held s) (hrun : s.run = .bound) {fd : Int} (hfree : s.Free fd) :
    Held { s with
      table := s.table.openAt fd .epollFd
      epollFd := fd
      epoll := some ⟨fd, s.table.opened⟩
      run := .failed } := by
  refine h.opened hfree rfl nofun rfl (List.Sublist.refl _) ?_
  intro k x hk
  cases x with
  | sockfd =>
      obtain ⟨hgot, hmain, hset, -⟩ := hk
      refine Or.inl ⟨hgot, hmain, hset, ?_⟩
      rw [hrun]
      exact nofun
  | epollFd => exact Or.inr ⟨(Option.some.inj hk.1).symm, rfl⟩
  | accepted => cases hk
  | call t => exact Or.inl hk
  | loop => exact Or.inl hk
  | nobody => exact absurd hk id

/-- The listening socket goes to the epoll set. -/
theorem Held.addSockfd (h : Held s) {k : Handle} (hhas : s.table.Has k.fd k.serial .sockfd)
    (htable : s'.table = s.table.add k.fd .sockfd) (hlistening : s'.listening = s.listening)
    (hevents : s'.events = s.events) (howes : ∀ j y, s'.Owes j y → s.Owes j y) : Held s' := by
  constructor
  · intro j y hj
    rw [htable]
    have hold := h.owes j y (howes j y hj)
    by_cases hfd : j.fd = k.fd
    · rw [hfd] at hold ⊢
      obtain rfl := hold.holder_eq hhas
      exact hold.remark_self
    · exact hold.remark hfd
  · intro fd f hf hpolled
    rw [htable] at hf
    rcases FileTable.update_eq_some.mp hf with ⟨-, hmap⟩ | ⟨-, hold⟩
    · obtain ⟨g, -, rfl⟩ := Option.map_eq_some_iff.mp hmap
      exact Or.inr rfl
    · exact h.polled fd f hold hpolled
  · intro fd f hf hs
    rw [htable] at hf
    rw [hlistening]
    rcases FileTable.update_eq_some.mp hf with ⟨rfl, hmap⟩ | ⟨-, hold⟩
    · obtain ⟨g, hg, rfl⟩ := Option.map_eq_some_iff.mp hmap
      have hholder : g.holder = .sockfd :=
        FileTable.Has.holder_eq (⟨g, hg, rfl, rfl⟩ : s.table.Has k.fd g.serial g.holder) hhas
      exact h.server k.fd g hg hholder
    · exact h.server fd f hold hs
  · rw [hevents]
    exact h.events

/-- What `run` has set up when `startServer` returns. -/
theorem Held.startServer (h : Held s) (hstaged : Staged s) (hrun : s.run = .bound) {fd : Int}
    (hfree : s.Free fd) :
    Held { s with
      table := (s.table.openAt fd .epollFd).add s.sockfd .sockfd
      epollFd := fd
      epoll := some ⟨fd, s.table.opened⟩
      running := true
      run := .testing
      main := .serving } := by
  have hcreated := h.createEpoll hrun hfree
  obtain ⟨k, hgot, hfd, hset⟩ := hstaged.bound hrun
  have hmain : s.main ≠ .resetSockfd ∧ s.main ≠ .resetEpollFd := by
    rw [hstaged.starting (Or.inr hrun)]
    exact ⟨nofun, nofun⟩
  have hhas := hcreated.owes k .sockfd ⟨hgot, hmain.1, hset, nofun⟩
  rw [hfd]
  refine hcreated.addSockfd hhas rfl rfl rfl ?_
  intro j y hj
  cases y with
  | sockfd => exact ⟨hj.1, hmain.1, hset, nofun⟩
  | epollFd => exact ⟨hj.1, hmain.2, hj.2.2.1, nofun, nofun⟩
  | accepted => cases hj
  | call t => exact hj
  | loop => exact hj
  | nobody => exact hj

/-- The events are connections of the loop, or the listening socket. -/
theorem Held.epollWait (h : Held s) (hrun : s.run = .polling) {events : List Handle}
    (hnodup : (events.map Handle.fd).Nodup) (hpolled : ∀ k ∈ events, s.Polled k) :
    Held { s with events := events, run := .handling } := by
  refine ⟨?_, h.polled, h.server, hnodup⟩
  intro k x hk
  cases x with
  | sockfd =>
      obtain ⟨hgot, hmain, hset, -⟩ := hk
      apply h.owes k .sockfd
      refine ⟨hgot, hmain, hset, ?_⟩
      rw [hrun]
      exact nofun
  | epollFd =>
      obtain ⟨hgot, hmain, hset, -⟩ := hk
      apply h.owes k .epollFd
      refine ⟨hgot, hmain, hset, ?_⟩
      rw [hrun]
      exact ⟨nofun, nofun⟩
  | accepted => cases hk
  | call t => exact h.owes k (.call t) hk
  | loop =>
      obtain ⟨hmem, hother⟩ := hk
      obtain ⟨f, hf, hmark⟩ := (Option.any_eq_true _ _).mp (hpolled k hmem)
      simp only [decide_eq_true_eq] at hmark
      rcases h.polled k.fd f hf hmark.2 with hloop | hserver
      · exact ⟨f, hf, hmark.1, hloop⟩
      · have hgot := h.server k.fd f hf hserver
        rw [hmark.1] at hgot
        exact absurd hgot hother
  | nobody => exact absurd hk id

/-- A connection that an event closes. -/
theorem Held.closeSocket (h : Held s) (hrun : s.run = .handling) {k : Handle}
    {events : List Handle} (hevent : s.events = k :: events) (hother : s.listening ≠ some k) :
    s.table.Has k.fd k.serial .loop ∧
      Held { s.close k.fd k.serial with events := events, run := .closed k } := by
  have hhas : s.table.Has k.fd k.serial .loop := by
    apply h.owes k .loop
    rw [Owes, hevent]
    exact ⟨List.mem_cons_self, hother⟩
  have htail : events.Sublist s.events := hevent ▸ List.sublist_cons_self k events
  refine ⟨hhas, h.closed hhas rfl rfl htail ?_⟩
  intro j y hj
  constructor
  · refine owes_goOn hj rfl htail rfl (Or.inr (Or.inr ?_)) ?_
    · rw [hrun]
      exact ⟨nofun, nofun⟩
    · rintro _ ⟨⟩
  · rintro rfl hfd
    have hnodup := h.events
    rw [hevent, List.map_cons, List.nodup_cons] at hnodup
    exact hnodup.1 (hfd ▸ List.mem_map_of_mem hj.1)

theorem Held.deleteSocket (h : Held s) {k : Handle} {socks : Int → Option Int}
    (hrun : s.run = .closed k) :
    Held { s with
      table := s.table.del k.fd
      run := .handling
      socks := socks } := by
  have hfiles : ∀ fd f, (s.table.del k.fd).files fd = some f →
      (f.polled = false ∧ ∃ g, s.table.files fd = some g ∧ g.serial = f.serial ∧
        g.holder = f.holder) ∨ s.table.files fd = some f := by
    intro fd f hf
    rcases FileTable.update_eq_some.mp hf with ⟨rfl, hmap⟩ | ⟨-, hold⟩
    · obtain ⟨g, hg, rfl⟩ := Option.map_eq_some_iff.mp hmap
      exact Or.inl ⟨rfl, g, hg, rfl, rfl⟩
    · exact Or.inr hold
  constructor
  · intro j y hj
    apply FileTable.Has.del
    apply h.owes j y
    refine owes_goOn hj rfl (List.Sublist.refl _) rfl (Or.inr (Or.inr ?_)) ?_
    · rw [hrun]
      exact ⟨nofun, nofun⟩
    · rintro _ ⟨⟩
  · intro fd f hf hpolled
    rcases hfiles fd f hf with ⟨hnot, -⟩ | hold
    · rw [hnot] at hpolled
      cases hpolled
    · exact h.polled fd f hold hpolled
  · intro fd f hf hs
    rcases hfiles fd f hf with ⟨-, g, hg, hserial, hholder⟩ | hold
    · have hgot := h.server fd g hg (hholder.trans hs)
      rw [hserial] at hgot
      exact hgot
    · exact h.server fd f hold hs
  · exact h.events

/-- A member that still has its descriptor. -/
theorem Held.closeMember (h : Held s) {fd : Int} {got : Option Handle} {x : Holder θ}
    (hhas : ∀ k, got = some k → fd ≠ -1 → k.fd = fd ∧ s.table.Has k.fd k.serial x)
    (htable : s'.table = (s.closeMember fd got).table) (hlistening : s'.listening = s.listening)
    (hevents : s'.events = s.events) (howes : ∀ j y, s'.Owes j y → s.Owes j y ∧ y ≠ x) :
    Held s' := by
  have hsublist : s'.events.Sublist s.events := by rw [hevents]
  rcases closeMember_eq s fd got with heq | ⟨k, hgot, hset, heq⟩
  · rw [heq] at htable
    exact h.keep htable hlistening hsublist fun j y hj => (howes j y hj).1
  · obtain ⟨rfl, hk⟩ := hhas k hgot hset
    rw [heq] at htable
    refine h.closed hk htable hlistening hsublist ?_
    intro j y hj
    obtain ⟨hold, hother⟩ := howes j y hj
    exact ⟨hold, fun heq => absurd heq hother⟩

/-- `stopServer` resets a member later, and `run` goes on. -/
theorem owes_stop {k : Handle} {x : Holder θ} (hk : s'.Owes k x)
    (hlistening : s'.listening = s.listening) (hepoll : s'.epoll = s.epoll)
    (hrun : s'.run = s.run) (hcalls : s'.calls = s.calls) (hevents : s'.events = s.events)
    (hsockfd : s'.main ≠ .resetSockfd → s'.sockfd ≠ -1 →
      s.main ≠ .resetSockfd ∧ s'.sockfd = s.sockfd)
    (hepollFd : s'.main ≠ .resetEpollFd → s'.epollFd ≠ -1 →
      s.main ≠ .resetEpollFd ∧ s'.epollFd = s.epollFd) : s.Owes k x := by
  cases x with
  | sockfd =>
      obtain ⟨hgot, hmain, hset, hend⟩ := hk
      obtain ⟨hmain', hsame⟩ := hsockfd hmain hset
      rw [hlistening] at hgot
      rw [hsame] at hset
      rw [hrun] at hend
      exact ⟨hgot, hmain', hset, hend⟩
  | epollFd =>
      obtain ⟨hgot, hmain, hset, hend⟩ := hk
      obtain ⟨hmain', hsame⟩ := hepollFd hmain hset
      rw [hepoll] at hgot
      rw [hsame] at hset
      rw [hrun] at hend
      exact ⟨hgot, hmain', hset, hend⟩
  | accepted => exact hrun.symm.trans hk
  | call t =>
      change (s'.calls t).sock = some k at hk
      rw [hcalls] at hk
      exact hk
  | loop =>
      obtain ⟨hmem, hother⟩ := hk
      rw [hevents] at hmem
      rw [hlistening] at hother
      exact ⟨hmem, hother⟩
  | nobody => exact hk

/-! ## Every step -/

/-- The last two lines of `run`, each with a member that `stopServer` has not closed. -/
theorem Held.closeEpoll (h : Held s) (hstaged : Staged s) (hrun : s.run = .leaving)
    (hmain : s.main ≠ .resetEpollFd) :
    Held { s.closeMember s.epollFd s.epoll with run := .left } := by
  obtain ⟨table, closes, heq⟩ := closeMember_frame s s.epollFd s.epoll
  have hrun' : s.run ≠ .left ∧ s.run ≠ .ended := by
    rw [hrun]
    exact ⟨nofun, nofun⟩
  refine h.closeMember (fun k hgot hset => h.has_epollFd hstaged hmain hrun' hset hgot) ?_ ?_ ?_ ?_
  · rfl
  · rw [heq]
  · rw [heq]
  · rw [heq]
    intro j y hj
    constructor
    · refine owes_goOn hj rfl (List.Sublist.refl _) rfl (Or.inr (Or.inr hrun')) ?_
      rintro _ ⟨⟩
    · rintro rfl
      exact hj.2.2.2.1 rfl

theorem Held.closeListening (h : Held s) (hstaged : Staged s) (hrun : s.run = .left)
    (hmain : s.main ≠ .resetSockfd) :
    Held { s.closeMember s.sockfd s.listening with run := .ended } := by
  obtain ⟨table, closes, heq⟩ := closeMember_frame s s.sockfd s.listening
  have hrun' : s.run ≠ .ended := by
    rw [hrun]
    exact nofun
  refine h.closeMember (fun k hgot hset => h.has_sockfd hstaged hmain hrun' hset hgot) ?_ ?_ ?_ ?_
  · rfl
  · rw [heq]
  · rw [heq]
  · rw [heq]
    intro j y hj
    constructor
    · refine owes_goOn hj rfl (List.Sublist.refl _) rfl (Or.inr (Or.inl rfl)) ?_
      rintro _ ⟨⟩
    · rintro rfl
      exact hj.2.2.2 rfl

/-- The two `close` of `stopServer`, each with a member that `run` has not closed. -/
theorem Held.closeSockfd (h : Held s) (hstaged : Staged s) (hmain : s.main = .closeSockfd)
    (hrun : s.run ≠ .ended) :
    Held { s.closeMember s.sockfd s.listening with main := .resetSockfd } := by
  obtain ⟨table, closes, heq⟩ := closeMember_frame s s.sockfd s.listening
  have hmain' : s.main ≠ .resetSockfd ∧ s.main ≠ .resetEpollFd := by
    rw [hmain]
    exact ⟨nofun, nofun⟩
  refine h.closeMember (fun k hgot hset => h.has_sockfd hstaged hmain'.1 hrun hset hgot)
    ?_ ?_ ?_ ?_
  · rfl
  · rw [heq]
  · rw [heq]
  · rw [heq]
    intro j y hj
    constructor
    · exact owes_stop hj rfl rfl rfl rfl rfl (fun _ _ => ⟨hmain'.1, rfl⟩)
        fun _ _ => ⟨hmain'.2, rfl⟩
    · rintro rfl
      exact hj.2.1 rfl

theorem Held.closeEpollFd (h : Held s) (hstaged : Staged s) (hmain : s.main = .closeEpollFd)
    (hrun : s.run ≠ .left ∧ s.run ≠ .ended) :
    Held { s.closeMember s.epollFd s.epoll with main := .resetEpollFd } := by
  obtain ⟨table, closes, heq⟩ := closeMember_frame s s.epollFd s.epoll
  have hmain' : s.main ≠ .resetSockfd ∧ s.main ≠ .resetEpollFd := by
    rw [hmain]
    exact ⟨nofun, nofun⟩
  refine h.closeMember (fun k hgot hset => h.has_epollFd hstaged hmain'.2 hrun hset hgot)
    ?_ ?_ ?_ ?_
  · rfl
  · rw [heq]
  · rw [heq]
  · rw [heq]
    intro j y hj
    constructor
    · exact owes_stop hj rfl rfl rfl rfl rfl (fun _ _ => ⟨hmain'.1, rfl⟩)
        fun _ _ => ⟨hmain'.2, rfl⟩
    · rintro rfl
      exact hj.2.1 rfl

/-- A step of `run` that leaves the table and the members alone. -/
theorem Held.goOn (h : Held s) (htable : s'.table = s.table) (hmembers : s'.members = s.members)
    (hevents : s'.events.Sublist s.events) (hcalls : s'.calls = s.calls)
    (hrun : s'.run = s.run ∨ (s.run ≠ .left ∧ s.run ≠ .ended ∧ ∀ k, s'.run ≠ .accepted k)) :
    Held s' := by
  have hlistening : s'.listening = s.listening := by
    simp only [members, Prod.mk.injEq] at hmembers
    exact hmembers.2.2.1
  refine h.keep htable hlistening hevents fun k x hk => ?_
  rcases hrun with hsame | ⟨hleft, hended, hno⟩
  · exact owes_goOn hk hmembers hevents hcalls (Or.inl hsame) fun k hk => hsame.symm.trans hk
  · exact owes_goOn hk hmembers hevents hcalls (Or.inr (Or.inr ⟨hleft, hended⟩))
      fun k hk => absurd hk (hno k)

/-- A step of `run` in its loop, or to a `co_return`. -/
theorem Held.move (h : Held s) (r : RunStage) (hrun : s.run ≠ .left ∧ s.run ≠ .ended)
    (hr : ∀ k, r ≠ .accepted k) (socks : Int → Option Int) :
    Held { s with run := r, socks := socks } :=
  h.goOn rfl rfl (List.Sublist.refl _) rfl (Or.inr ⟨hrun.1, hrun.2, hr⟩)

/-- A step of `stopServer` that closes nothing. -/
theorem Held.stop (h : Held s) {main : MainStage} {sockfd epollFd : Int} {running : Bool}
    (hsockfd : main ≠ .resetSockfd → sockfd ≠ -1 → s.main ≠ .resetSockfd ∧ sockfd = s.sockfd)
    (hepollFd : main ≠ .resetEpollFd → epollFd ≠ -1 →
      s.main ≠ .resetEpollFd ∧ epollFd = s.epollFd) :
    Held { s with main := main, sockfd := sockfd, epollFd := epollFd, running := running } := by
  refine h.keep rfl rfl (List.Sublist.refl _) fun k x hk => ?_
  exact owes_stop hk rfl rfl rfl rfl rfl hsockfd hepollFd

theorem Held.accept (h : Held s) (hrun : s.run = .handling) {k : Handle} {events : List Handle}
    (hevent : s.events = k :: events) {fd : Int} (hfree : s.Free fd) :
    Held { s with
      events := events
      table := s.table.openAt fd .accepted
      run := .accepted ⟨fd, s.table.opened⟩ } := by
  have htail : events.Sublist s.events := hevent ▸ List.sublist_cons_self k events
  refine h.opened hfree rfl nofun rfl htail fun j y hj => ?_
  have hrun' : s.run ≠ .left ∧ s.run ≠ .ended := by
    rw [hrun]
    exact ⟨nofun, nofun⟩
  rcases owes_cases s hj rfl htail (Or.inr (Or.inr hrun')) with
    hold | ⟨rfl, hconn⟩ | ⟨t, rfl, hsock⟩
  · exact Or.inl hold
  · exact Or.inr ⟨(RunStage.accepted.inj hconn).symm, rfl⟩
  · exact Or.inl hsock

/-- What `run` has accepted goes to the loop, or to nobody. -/
theorem Held.addAccepted (h : Held s) {k : Handle} (hrun : s.run = .accepted k) {y : Holder θ}
    {polled : Bool → Bool} (hy : y ≠ .sockfd)
    (hmark : ∀ b, polled b = true → b = true ∨ y = .loop) :
    Held { s with table := s.table.remark k.fd (fun _ => y) polled, run := .handling } := by
  refine h.passed (h.owes k .accepted hrun) ⟨nofun, nofun⟩ hy hmark rfl rfl (List.Sublist.refl _) ?_
  intro j z hj
  have hrun' : s.run ≠ .left ∧ s.run ≠ .ended := by
    rw [hrun]
    exact ⟨nofun, nofun⟩
  constructor
  · refine owes_goOn hj rfl (List.Sublist.refl _) rfl (Or.inr (Or.inr hrun')) ?_
    rintro _ ⟨⟩
  · rintro rfl
    cases hj

section Step

variable [DecidableEq θ] {l : Label θ}

/-- A call that gives its socket away, and is over. -/
theorem Held.endCall (h : Held s) {t : θ} {k : Handle} {y : Holder θ} {polled : Bool → Bool}
    (hcall : (s.calls t).sock = some k) (hy : y ≠ .sockfd)
    (hmark : ∀ b, polled b = true → b = true ∨ y = .loop)
    (htable : s'.table = s.table.remark k.fd (fun _ => y) polled)
    (hmembers : s'.members = s.members) (hevents : s'.events = s.events) (hrun : s'.run = s.run)
    (hcalls : s'.calls = Function.update s.calls t .idle) : Held s' := by
  have hlistening : s'.listening = s.listening := by
    simp only [members, Prod.mk.injEq] at hmembers
    exact hmembers.2.2.1
  refine h.passed (h.owes k (.call t) hcall) ⟨nofun, nofun⟩ hy hmark htable hlistening ?_
    (owes_endCall hmembers hevents hrun hcalls)
  rw [hevents]

theorem Held.socket (h : Held s) (t : θ) (rank : Int) {fd : Int} (hfree : s.Free fd)
    (locked : Int → Bool) :
    Held { s with
      table := s.table.openAt fd (.call t)
      calls := Function.update s.calls t (.connecting rank ⟨fd, s.table.opened⟩)
      locked := locked } := by
  refine h.opened hfree rfl nofun rfl (List.Sublist.refl _) fun j y hj => ?_
  rcases owes_call s hj rfl rfl rfl rfl with ⟨hold, -⟩ | ⟨rfl, hsock⟩
  · exact Or.inl hold
  · exact Or.inr ⟨(Option.some.inj hsock).symm, rfl⟩

/-- A call goes on with its socket. -/
theorem Held.call (h : Held s) {t : θ} {c : CallStage} (hsock : c.sock = (s.calls t).sock)
    (socks : Int → Option Int) :
    Held { s with socks := socks, calls := Function.update s.calls t c } := by
  refine h.keep rfl rfl (List.Sublist.refl _) fun k x hk => ?_
  rcases owes_call s hk rfl rfl rfl rfl with ⟨hold, -⟩ | ⟨rfl, hc⟩
  · exact hold
  · rw [hsock] at hc
    exact hc

theorem Held.sendRankReportFails (h : Held s) {t : θ} {k : Handle}
    (hcall : (s.calls t).sock = some k) (locked : Int → Bool) :
    Held { s.close k.fd k.serial with
      calls := Function.update s.calls t .idle
      locked := locked } := by
  refine h.closed (h.owes k (.call t) hcall) rfl rfl (List.Sublist.refl _) ?_
  refine owes_endCall ?_ ?_ ?_ ?_
  · rfl
  · rfl
  · rfl
  · rfl

/-- Every step that closes nothing of somebody else keeps the holders. -/
theorem Held.step (h : Held s) (hstaged : Staged s) (hclean : Clean s l)
    (hstep : s.step l = some s') : Held s' := by
  cases transition_of_step hstep with
  | listenFails run => exact h.move .failed (by simp [run]) (fun _ => nofun) s.socks
  | listen fd ok run free =>
      refine h.listen hstaged run free ?_ rfl
      cases ok <;> exact ⟨nofun, nofun, nofun⟩
  | createEpollFails run => exact h.move .failed (by simp [run]) (fun _ => nofun) s.socks
  | createEpoll fd run free => exact h.startServer hstaged run free
  | addSockfdFails fd run free => exact h.createEpoll run free
  | testRunning run =>
      refine h.move (if s.running then .polling else .leaving) (by simp [run]) (fun _ => ?_) s.socks
      cases s.running <;> exact nofun
  | epollWaitFails run => exact h.move .failed (by simp [run]) (fun _ => nofun) s.socks
  | epollWait events run nodup polled => exact h.epollWait run nodup polled
  | acceptFails k events run event =>
      exact h.goOn rfl rfl (event ▸ List.sublist_cons_self k events) rfl (Or.inl rfl)
  | accept k events fd run event free => exact h.accept run event free
  | addAccepted conn run => exact h.addAccepted run nofun fun _ _ => Or.inr rfl
  | addAcceptedFails conn run => exact h.addAccepted run nofun fun _ hb => Or.inl hb
  | handle report k events socks event =>
      exact h.goOn rfl rfl (event ▸ List.sublist_cons_self k events) rfl (Or.inl rfl)
  | closeSocket k events run event other =>
      exact (h.closeSocket run event (hclean k events event)).2
  | deleteSocket report conn socks run =>
      split
      case isTrue => exact h.deleteSocket run
      case isFalse => exact h.move .handling (by simp [run]) (fun _ => nofun) socks
  | endBatch run event => exact h.move .testing (by simp [run]) (fun _ => nofun) s.socks
  | closeEpoll run => exact h.closeEpoll hstaged run (hclean.1 run)
  | closeListening run => exact h.closeListening hstaged run (hclean.2 run)
  | socket t rank fd call free locked => exact h.socket t rank free locked
  | connect t rank sock call => exact h.call (by rw [call]; rfl) s.socks
  | waitRunning t rank sock call => exact h.call (by rw [call]; rfl) s.socks
  | connectFails t rank sock locked call =>
      refine h.endCall (t := t) (y := .nobody) (by rw [call]; rfl) nofun ?_ rfl rfl rfl rfl rfl
      exact fun _ hb => Or.inl hb
  | sendRankReport t rank sock socks call => exact h.call (by rw [call]; rfl) socks
  | sendRankReportFails t rank sock locked call =>
      exact h.sendRankReportFails (by rw [call]; rfl) locked
  | addSendSocket t rank sock locked call =>
      have htable : s.table.add sock.fd .loop =
          s.table.remark sock.fd (fun _ => .loop) (fun _ => true) := rfl
      refine h.endCall (t := t) (y := .loop) (by rw [call]; rfl) nofun ?_ htable rfl rfl rfl rfl
      exact fun _ _ => Or.inr rfl
  | addSendSocketFails t rank sock locked call =>
      refine h.endCall (t := t) (y := .nobody) (by rw [call]; rfl) nofun ?_ rfl rfl rfl rfl rfl
      exact fun _ hb => Or.inl hb
  | noSocket t rank => exact h
  | registerTarget rank socks => exact h.goOn rfl rfl (List.Sublist.refl _) rfl (Or.inl rfl)
  | clearSendSocket rank socks => exact h.goOn rfl rfl (List.Sublist.refl _) rfl (Or.inl rfl)
  | stopServer main => exact h.stop (by simp [main]) (by simp [main])
  | testSockfd main => exact h.stop (by simp [main]) (by simp [main])
  | closeSockfd main => exact h.closeSockfd hstaged main (hclean.1 main)
  | resetSockfd main => exact h.stop (by simp) (by simp [main])
  | testEpollFd main => exact h.stop (by simp [main]) (by simp [main])
  | closeEpollFd main => exact h.closeEpollFd hstaged main (hclean.2 main)
  | resetEpollFd main => exact h.stop (by simp [main]) (by simp)
  | join main run => exact h.stop (by simp [main]) (by simp [main])

theorem held_init : Held (machine θ).init := by
  constructor
  · intro k x hk
    cases x with
    | sockfd => cases hk.1
    | epollFd => cases hk.1
    | accepted => cases hk
    | call t => cases hk
    | loop => cases hk.1
    | nobody => exact absurd hk id
  · exact fun _ _ hf => nomatch hf
  · exact fun _ _ hf => nomatch hf
  · exact List.nodup_nil

/-! ## What a step opens and closes -/

/-- A step opens or closes at most one file, and it closes the file that it is meant for. -/
inductive Effect (s s' : ManagerState θ) : Prop where
  | same (opened : s'.table.opened = s.table.opened) (serial : s'.table.serial = s.table.serial)
      (closes : s'.closes = s.closes)
  | opened (fd : Int) (x : Holder θ) (free : s.table.files fd = none)
      (opened : s'.table.opened = (s.table.openAt fd x).opened)
      (serial : s'.table.serial = (s.table.openAt fd x).serial) (closes : s'.closes = s.closes)
  | closed (fd : Int) (i : Nat) (own : s.table.serial fd = some i)
      (table : s'.table = s.table.close fd) (closes : s'.closes = s.closes ++ [(i, some i)])

omit [DecidableEq θ] in
theorem effect_closeMember {fd : Int} {got : Option Handle} {x : Holder θ}
    (hhas : ∀ k, got = some k → fd ≠ -1 → k.fd = fd ∧ s.table.Has k.fd k.serial x)
    (htable : s'.table = (s.closeMember fd got).table)
    (hcloses : s'.closes = (s.closeMember fd got).closes) : Effect s s' := by
  rcases closeMember_eq s fd got with heq | ⟨k, hgot, hset, heq⟩
  · rw [heq] at htable hcloses
    exact .same (by rw [htable]) (by rw [htable]) hcloses
  · obtain ⟨rfl, hk⟩ := hhas k hgot hset
    have hown := hk.serial
    rw [heq] at htable hcloses
    refine .closed k.fd k.serial hown htable ?_
    rw [hcloses, ← hown]
    rfl

theorem Held.effect (h : Held s) (hstaged : Staged s) (hclean : Clean s l)
    (hstep : s.step l = some s') : Effect s s' := by
  cases transition_of_step hstep with
  | listen fd ok run free => exact .opened fd .sockfd free.files_eq_none rfl rfl rfl
  | createEpoll fd run free =>
      exact .opened fd .epollFd free.files_eq_none rfl FileTable.serial_add rfl
  | addSockfdFails fd run free => exact .opened fd .epollFd free.files_eq_none rfl rfl rfl
  | accept k events fd run event free => exact .opened fd .accepted free.files_eq_none rfl rfl rfl
  | socket t rank fd call free locked => exact .opened fd (.call t) free.files_eq_none rfl rfl rfl
  | addAccepted conn run => exact .same rfl FileTable.serial_add rfl
  | addAcceptedFails conn run => exact .same rfl FileTable.serial_pass rfl
  | addSendSocket t rank sock locked call => exact .same rfl FileTable.serial_add rfl
  | addSendSocketFails t rank sock locked call => exact .same rfl FileTable.serial_pass rfl
  | connectFails t rank sock locked call => exact .same rfl FileTable.serial_pass rfl
  | deleteSocket report conn socks run =>
      split
      case isTrue => exact .same rfl FileTable.serial_del rfl
      case isFalse => exact .same rfl rfl rfl
  | closeSocket k events run event other =>
      have hown := (h.closeSocket run event (hclean k events event)).1.serial
      refine .closed k.fd k.serial hown rfl ?_
      rw [← hown]
      rfl
  | sendRankReportFails t rank sock locked call =>
      have hsock : (s.calls t).sock = some sock := by
        rw [call]
        rfl
      have hown := (h.owes sock (.call t) hsock).serial
      refine .closed sock.fd sock.serial hown rfl ?_
      rw [← hown]
      rfl
  | closeEpoll run =>
      refine effect_closeMember (fun k hgot hset =>
        h.has_epollFd hstaged (hclean.1 run) ?_ hset hgot) rfl rfl
      rw [run]
      exact ⟨nofun, nofun⟩
  | closeListening run =>
      refine effect_closeMember (fun k hgot hset =>
        h.has_sockfd hstaged (hclean.2 run) ?_ hset hgot) rfl rfl
      rw [run]
      exact nofun
  | closeSockfd main =>
      refine effect_closeMember (fun k hgot hset =>
        h.has_sockfd hstaged ?_ (hclean.1 main) hset hgot) rfl rfl
      rw [main]
      exact nofun
  | closeEpollFd main =>
      refine effect_closeMember (fun k hgot hset =>
        h.has_epollFd hstaged ?_ (hclean.2 main) hset hgot) rfl rfl
      rw [main]
      exact nofun
  | _ => exact .same rfl rfl rfl

end Step

end ManagerState

end Npp.Network
