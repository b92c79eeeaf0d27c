import Npp.Network.Holders

/-!
# Open connections in the epoll set

`closeSocket` closes a connection first and then takes its number out of the epoll set. In between
the number is free, and a `getSendSocket` may get it for a new connection and add that one.
-/

namespace Npp.Network

open Npp.Foundation

namespace ManagerState

variable {θ : Type} {s s' : ManagerState θ} {l : Label θ}

def Serving (s : ManagerState θ) : Prop := s.main = .starting ∨ s.main = .serving

instance (s : ManagerState θ) : Decidable s.Serving := inferInstanceAs (Decidable (_ ∨ _))

/-- Until the end of `run` closes it, the epoll set has every connection that was added to it and is
open, and every `close` has closed what it was meant for, or nothing. -/
structure Registered (s : ManagerState θ) : Prop where
  polled : s.run ≠ .left → s.run ≠ .ended → s.table.Watched .loop
  own : ∀ i hit, (i, some hit) ∈ s.closes → hit = i

/-- The number that a step takes out of the epoll set. -/
def deleted (s : ManagerState θ) : Label θ → Option Int
  | .deleteSocket _ =>
      match s.run with
      | .closed conn => if s.EpollOpen then some conn.fd else none
      | _ => none
  | _ => none

/-- That number does not name a connection that was added. -/
def DeletesNone (s : ManagerState θ) (l : Label θ) : Prop :=
  ∀ fd ∈ s.deleted l, ∀ f ∈ s.table.files fd, f.holder ≠ .loop

instance [DecidableEq θ] (s : ManagerState θ) (l : Label θ) : Decidable (s.DeletesNone l) :=
  inferInstanceAs (Decidable (∀ fd ∈ s.deleted l, ∀ f ∈ s.table.files fd, f.holder ≠ .loop))

theorem deletesNone_of_deleted (h : s.deleted l = none) : s.DeletesNone l := by
  intro fd hfd
  rw [h] at hfd
  cases hfd

/-! ## What a step does to the epoll set -/

theorem watched_closeMember {fd : Int} {got : Option Handle} (hw : s.table.Watched .loop) :
    (s.closeMember fd got).table.Watched .loop := by
  rcases closeMember_eq s fd got with heq | ⟨k, -, -, heq⟩
  · rw [heq]
    exact hw
  · rw [heq]
    exact hw.close

theorem watched_deleteSocket_iff (hw : s.table.Watched .loop) {conn : Handle} {report : Option Int}
    (hrun : s.run = .closed conn) :
    (if s.EpollOpen then s.table.del conn.fd else s.table).Watched .loop ↔
      s.DeletesNone (.deleteSocket report) := by
  simp only [DeletesNone, deleted, hrun]
  split
  case isTrue =>
    rw [FileTable.watched_del_iff hw]
    constructor
    · intro hother fd hfd
      obtain rfl := Option.some.inj hfd
      exact hother
    · intro hnone
      exact hnone conn.fd rfl
  case isFalse => exact iff_of_true hw fun fd hfd => nomatch hfd

variable [DecidableEq θ]

theorem watched_step_iff (hw : s.table.Watched .loop) (hstep : s.step l = some s') :
    s'.table.Watched .loop ↔ DeletesNone s l := by
  cases transition_of_step hstep with
  | deleteSocket report conn socks run => exact watched_deleteSocket_iff hw run
  | createEpoll fd run free =>
      have hopened : (s.table.openAt fd .epollFd).Watched .loop := hw.openAt nofun
      exact iff_of_true hopened.add (deletesNone_of_deleted rfl)
  | listen fd ok run free | addSockfdFails fd run free | accept k events fd run event free
  | socket t rank fd call free locked =>
      exact iff_of_true (hw.openAt nofun) (deletesNone_of_deleted rfl)
  | addAccepted conn run | addSendSocket t rank sock locked call =>
      exact iff_of_true hw.add (deletesNone_of_deleted rfl)
  | addAcceptedFails conn run | addSendSocketFails t rank sock locked call
  | connectFails t rank sock locked call =>
      exact iff_of_true (hw.pass nofun) (deletesNone_of_deleted rfl)
  | closeSocket k events run event other | sendRankReportFails t rank sock locked call =>
      exact iff_of_true hw.close (deletesNone_of_deleted rfl)
  | closeEpoll run | closeListening run | closeSockfd main | closeEpollFd main =>
      exact iff_of_true (watched_closeMember hw) (deletesNone_of_deleted rfl)
  | _ => exact iff_of_true hw (deletesNone_of_deleted rfl)

/-! ## Before `stopServer` -/

theorem Serving.of_step (h : Serving s') (hstaged : Staged s) (hstep : s.step l = some s') :
    Serving s := by
  cases transition_of_step hstep with
  | createEpoll fd run free => exact Or.inl (hstaged.starting (Or.inr run))
  | closeEpoll run =>
      obtain ⟨table, closes, heq⟩ := closeMember_frame s s.epollFd s.epoll
      rw [heq] at h
      exact h
  | closeListening run =>
      obtain ⟨table, closes, heq⟩ := closeMember_frame s s.sockfd s.listening
      rw [heq] at h
      exact h
  | stopServer main => exact Or.inr main
  | testSockfd main => rcases h with h | h <;> (dsimp only at h; split at h <;> cases h)
  | testEpollFd main => rcases h with h | h <;> (dsimp only at h; split at h <;> cases h)
  | closeSockfd main | resetSockfd main | closeEpollFd main | resetEpollFd main | join main run =>
      rcases h with h | h <;> cases h
  | _ => exact h

/-- Until `stopServer` is called, each member has its descriptor. -/
theorem Serving.clean (h : Serving s) (hstaged : Staged s) (hstep : s.step l = some s') :
    Clean s l := by
  have hmain : ∀ m, m ≠ .starting → m ≠ .serving → s.main ≠ m := by
    rintro m hstarting hserving rfl
    rcases h with hm | hm
    · exact hstarting hm
    · exact hserving hm
  cases transition_of_step hstep with
  | closeSocket k events run event other =>
      intro k' events' hevent hgot
      obtain ⟨rfl, rfl⟩ := List.cons.inj (event.symm.trans hevent)
      exact other (hstaged.serving h k hgot).symm
  | closeEpoll run => exact ⟨fun _ => hmain _ nofun nofun, fun _ => hmain _ nofun nofun⟩
  | closeListening run => exact ⟨fun _ => hmain _ nofun nofun, fun _ => hmain _ nofun nofun⟩
  | stopServer main | testSockfd main | closeSockfd main | resetSockfd main | testEpollFd main
  | closeEpollFd main | resetEpollFd main | join main run =>
      exact ⟨fun hm => absurd hm (hmain _ nofun nofun), fun hm => absurd hm (hmain _ nofun nofun)⟩
  | _ => trivial

omit [DecidableEq θ] in
theorem Effect.own (h : Effect s s') (hown : ∀ i hit, (i, some hit) ∈ s.closes → hit = i) :
    ∀ i hit, (i, some hit) ∈ s'.closes → hit = i := by
  cases h with
  | same opened serial closes =>
      rw [closes]
      exact hown
  | opened fd x free opened serial closes =>
      rw [closes]
      exact hown
  | closed fd j own table closes =>
      intro i hit hmem
      rw [closes, List.mem_append, List.mem_singleton] at hmem
      rcases hmem with hold | hnew
      · exact hown i hit hold
      · simp only [Prod.mk.injEq, Option.some.injEq] at hnew
        exact hnew.2.trans hnew.1.symm

/-- **Open connections stay in the epoll set.** Until `stopServer` is called or `run` ends, the
epoll set has every open connection that was added to it, and each `close` hits its own file,
exactly as long as no `EPOLL_CTL_DEL` finds that its number has been given to another connection and
added. -/
theorem registered_iff {ls : List (Label θ)} (hrun : (machine θ).Runs ls s) :
    (machine θ).Meets (fun a e => Serving a → DeletesNone a e) (machine θ).init ls ↔
      ∀ pre t, pre <+: ls → (machine θ).Runs pre t → Serving t → Registered t := by
  apply hrun.meets_iff_good
    (I := fun a => Staged a ∧ (Serving a → Held a ∧ a.table.Watched .loop ∧
      ∀ i hit, (i, some hit) ∈ a.closes → hit = i))
  · refine ⟨staged_init, fun _ => ⟨held_init, ?_, ?_⟩⟩
    · exact FileTable.watched_empty
    · exact fun _ _ hmem => nomatch hmem
  · rintro a e a' ⟨hstaged, hgood⟩ hnone hstep
    refine ⟨hstaged.step hstep, fun hserving' => ?_⟩
    have hserving := hserving'.of_step hstaged hstep
    obtain ⟨hheld, hpolled, hown⟩ := hgood hserving
    have hclean := hserving.clean hstaged hstep
    refine ⟨hheld.step hstaged hclean hstep, ?_, ?_⟩
    · exact (watched_step_iff hpolled hstep).mpr (hnone hserving)
    · exact (hheld.effect hstaged hclean hstep).own hown
  · rintro a e a' ⟨hstaged, hgood⟩ hbreach hstep hall
    obtain ⟨hserving, hnot⟩ := Classical.not_imp.mp hbreach
    have hdeletes : Serving a' ∧ a'.run = .handling := by
      cases transition_of_step hstep with
      | deleteSocket report conn socks run => exact ⟨hserving, rfl⟩
      | _ => exact absurd (deletesNone_of_deleted rfl) hnot
    obtain ⟨hserving', hrun'⟩ := hdeletes
    have hpolled' := (hall hserving').polled (by simp [hrun']) (by simp [hrun'])
    exact hnot ((watched_step_iff (hgood hserving).2.1 hstep).mp hpolled')
  · intro a ha hserving
    obtain ⟨-, hpolled, hown⟩ := ha.2 hserving
    exact ⟨fun _ _ => hpolled, hown⟩

def closeFive : List (Label Unit) :=
  [.registerTarget 1, .listen (some (3, true)), .createEpoll (some (4, true)), .testRunning,
    .epollWait (some [⟨3, 0⟩]), .accept (some 5), .addAccepted true, .endBatch, .testRunning,
    .epollWait (some [⟨5, 2⟩]), .closeSocket]

/-- A sender gets the number between the two lines of `closeSocket`, and adds it behind them. -/
theorem registered_iff_run :
    ∃ s, (machine Unit).Runs (closeFive ++ [.socket () 1 (some 5), .deleteSocket none,
        .connect () true, .waitRunning (), .sendRankReport () true, .addSendSocket () true]) s ∧
      Registered s ∧ s.Polled ⟨5, 3⟩ := by
  have hrun : (machine Unit).Runs (closeFive ++ [.socket () 1 (some 5), .deleteSocket none,
      .connect () true, .waitRunning (), .sendRankReport () true, .addSendSocket () true]) _ := rfl
  refine ⟨_, hrun, (registered_iff hrun).mp ?_ _ _ List.prefix_rfl hrun (Or.inr rfl), ?_⟩
  · decide +kernel
  · decide +kernel

/-- An accepted connection 5 is closed, a sender gets the number for a new connection and adds it,
and then `closeSocket` takes 5 out of the epoll set. -/
theorem not_registered :
    ∃ ls s, (machine Unit).Runs ls s ∧ Serving s ∧ s.table.Has 5 3 .loop ∧
      ¬ s.Polled ⟨5, 3⟩ ∧ ¬ Registered s := by
  let ls : List (Label Unit) :=
    -- between the two lines of `closeSocket` the number is free
    closeFive ++ [.socket () 1 (some 5), .connect () true, .waitRunning (), .sendRankReport () true,
      .addSendSocket () true, .deleteSocket none]
  have hend : ((machine Unit).runFrom (machine Unit).init ls).map
      (fun s => ((s.main, s.run), s.table.files 5)) =
        some ((.serving, .handling), some { serial := 3, holder := .loop, polled := false }) := by
    decide +kernel
  obtain ⟨s, hrun, hs⟩ := Option.map_eq_some_iff.mp hend
  obtain ⟨hstages, hfile⟩ := Prod.mk.inj hs
  obtain ⟨hmain, hstage⟩ := Prod.mk.inj hstages
  refine ⟨ls, s, hrun, Or.inr hmain, ⟨_, hfile, rfl, rfl⟩, ?_, fun h => ?_⟩
  · rw [Polled, hfile]
    decide
  · have hpolled := h.polled (by simp [hstage]) (by simp [hstage]) 5 _ hfile rfl
    cases hpolled

end ManagerState

end Npp.Network
