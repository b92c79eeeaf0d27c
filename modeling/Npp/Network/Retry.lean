import Npp.Foundation.Machine
import Npp.Network.Node

/-!
# The attempts of a send

One call of `sendMessage` with its attempts in order. The kernel answers what it likes at each call,
and between two of them the other threads leave any tables behind. An attempt is over when it got no
socket, or with its `writev`.
-/

namespace Npp.Network

open Npp.Foundation

/-- How an attempt went: it got no socket, or its `writev` answered. -/
inductive Attempt where
  | noSocket
  | wrote (o : WriteOutcome)
deriving DecidableEq, Repr

namespace Attempt

def ret (data : List UInt8) : Attempt → Option Int
  | .noSocket => none
  | .wrote o => some (o.ret (normalMessage data).length)

def written (data : List UInt8) : Attempt → List UInt8
  | .noSocket => []
  | .wrote o => o.written (normalMessage data)

def Failed (data : List UInt8) (a : Attempt) : Prop := ∀ ret ∈ a.ret data, ret < 0

def Short (data : List UInt8) (a : Attempt) : Prop :=
  ∃ ret ∈ a.ret data, 0 ≤ ret ∧ ret < (normalMessage data).length

def Completed (data : List UInt8) (a : Attempt) : Prop :=
  ∃ ret ∈ a.ret data, (normalMessage data).length ≤ ret

end Attempt

structure RetryState where
  sender : Sender
  node : Node
  attempts : List Attempt := []

namespace RetryState

inductive Label where
  | getSendSocket (a : ConnectOutcome)
  | writev (o : WriteOutcome)
  | clearSendSocket
  | others (node : Node)

def Label.own : Label → Bool
  | .others _ => false
  | _ => true

def step (s : RetryState) : Label → Option RetryState
  | .getSendSocket a =>
      (s.sender.getSendSocket s.node a).map fun x =>
        { sender := x.1
          node := x.2
          attempts :=
            match x.1.phase with
            | .holding _ _ => s.attempts
            | _ => s.attempts ++ [.noSocket] }
  | .writev o =>
      (s.sender.writev s.node o).map fun x =>
        { sender := x.1, node := x.2, attempts := s.attempts ++ [.wrote o] }
  | .clearSendSocket =>
      (s.sender.clearSendSocket s.node).map fun x => { s with sender := x.1, node := x.2 }
  | .others node => some { s with node := node }

def machine (n : Node) (rank : Int) (data : List UInt8) (retry : Int) :
    Machine RetryState Label where
  init := { sender := .call rank data retry, node := n }
  step := step

def Ended (s : RetryState) : Prop :=
  s.sender.phase = .returned ∨ ∃ e, s.sender.phase = .threw e

def LastIs (P : Attempt → Prop) (data : List UInt8) (attempts : List Attempt) : Prop :=
  ∃ failed a, attempts = failed ++ [a] ∧ P a ∧ ∀ b ∈ failed, b.Failed data

/-- What the attempts have come to when the call is in this phase. -/
def PhaseOf (data : List UInt8) (retry : Int) (attempts : List Attempt) : SendPhase → Prop
  | .looping left | .holding _ left =>
      0 ≤ left ∧ attempts.length + left = retry ∧ ∀ a ∈ attempts, a.Failed data
  | .clearing _ left _ =>
      0 ≤ left ∧ attempts.length + left = retry + 1 ∧ (∀ a ∈ attempts, a.Failed data) ∧
        0 < attempts.length
  | .returned => LastIs (Attempt.Completed data) data attempts ∧ attempts.length ≤ retry + 1
  | .threw _ =>
      (attempts.length = retry + 1 ∧ ∀ a ∈ attempts, a.Failed data) ∨
        (LastIs (Attempt.Short data) data attempts ∧ attempts.length ≤ retry + 1)

def stepsTaken (attempts : Nat) : SendPhase → Nat
  | .holding _ _ => 3 * attempts + 1
  | .clearing _ _ _ => 3 * attempts - 1
  | _ => 3 * attempts

structure Sound (rank : Int) (data : List UInt8) (retry : Int) (ls : List Label)
    (s : RetryState) : Prop where
  arguments : s.sender.rank = rank ∧ s.sender.data = data
  phase : PhaseOf data retry s.attempts s.sender.phase
  steps : ls.countP Label.own ≤ stepsTaken s.attempts.length s.sender.phase

variable {n : Node} {rank : Int} {data : List UInt8} {retry : Int} {s s' : RetryState}
  {l : Label} {ls : List Label}

/-! ## Attempts -/

theorem failed_noSocket : Attempt.Failed data .noSocket := by rintro _ ⟨⟩

theorem failed_wrote {o : WriteOutcome} (h : o.ret (normalMessage data).length < 0) :
    Attempt.Failed data (.wrote o) := by
  rintro ret hret
  rw [← Option.some.inj hret]
  exact h

/-- A `writev` that fails has written nothing. -/
theorem written_of_failed {a : Attempt} (h : a.Failed data) : a.written data = [] := by
  cases a with
  | noSocket => rfl
  | wrote o =>
      cases o with
      | error errno => rfl
      | wrote k =>
          have hneg : ((min k (normalMessage data).length : Nat) : Int) < 0 := h _ rfl
          omega

/-- A `writev` that completes has written one frame. -/
theorem written_of_completed {a : Attempt} (h : a.Completed data) :
    a.written data = normalMessage data := by
  obtain ⟨ret, hret, hle⟩ := h
  cases a with
  | noSocket => cases hret
  | wrote o =>
      rw [← Option.some.inj hret] at hle
      exact (WriteOutcome.ret_full (Int.not_lt.mpr hle)).1

/-- An attempt is one of three things. -/
theorem not_failed_of_completed {a : Attempt} (h : a.Completed data) : ¬ a.Failed data := by
  intro hfailed
  obtain ⟨ret, hret, hle⟩ := h
  have hneg := hfailed ret hret
  omega

theorem not_completed_of_short {a : Attempt} (h : a.Short data) : ¬ a.Completed data := by
  rintro ⟨ret, hret, hle⟩
  obtain ⟨ret', hret', -, hlt⟩ := h
  obtain rfl := Option.some.inj (hret.symm.trans hret')
  omega

theorem failed_snoc {attempts : List Attempt} {a : Attempt} (h : ∀ b ∈ attempts, b.Failed data)
    (ha : a.Failed data) : ∀ b ∈ attempts ++ [a], b.Failed data := by
  intro b hb
  rcases List.mem_append.mp hb with hb | hb
  · exact h b hb
  · rw [List.mem_singleton.mp hb]
    exact ha

/-- `retry--` and the test for another attempt. -/
theorem retryOr_cases {left : Int} (h : 0 ≤ left) (what : String) :
    (left = 0 ∧ SendPhase.retryOr left what = .threw ⟨what⟩) ∨
      (0 < left ∧ SendPhase.retryOr left what = .looping (left - 1)) := by
  unfold SendPhase.retryOr SendPhase.enter
  by_cases hzero : left = 0
  · exact Or.inl ⟨hzero, if_pos (by omega)⟩
  · refine Or.inr ⟨by omega, ?_⟩
    rw [if_neg (by omega), if_pos (by omega)]

/-! ## Runs -/

theorem countP_snoc (ls : List Label) (l : Label) :
    (ls ++ [l]).countP Label.own = ls.countP Label.own + if l.own then 1 else 0 := by
  rw [List.countP_append, List.countP_singleton]

/-- After a step of the call the bound is further on. -/
theorem Sound.next (h : Sound rank data retry ls s)
    (harguments : s'.sender.rank = s.sender.rank ∧ s'.sender.data = s.sender.data)
    (hphase : PhaseOf data retry s'.attempts s'.sender.phase)
    (hsteps : stepsTaken s.attempts.length s.sender.phase <
      stepsTaken s'.attempts.length s'.sender.phase) (l : Label) :
    Sound rank data retry (ls ++ [l]) s' := by
  obtain ⟨hrank, hdata⟩ := h.arguments
  refine ⟨⟨harguments.1.trans hrank, harguments.2.trans hdata⟩, hphase, ?_⟩
  have hsofar := h.steps
  rw [countP_snoc]
  split <;> omega

theorem Sound.getSendSocket (h : Sound rank data retry ls s) {a : ConnectOutcome}
    (hstep : s.step (.getSendSocket a) = some s') :
    Sound rank data retry (ls ++ [.getSendSocket a]) s' := by
  obtain ⟨⟨x, node⟩, hx, rfl⟩ := Option.map_eq_some_iff.mp hstep
  obtain ⟨hrank, hdata, left, sock, hphase, -, hcases⟩ := Sender.getSendSocket_cases hx
  have hsofar := h.phase
  rw [hphase] at hsofar
  obtain ⟨hleft, hlength, hfailed⟩ := hsofar
  have hmore : (s.attempts ++ [Attempt.noSocket]).length = s.attempts.length + 1 :=
    List.length_append
  have hsnoc := failed_snoc hfailed failed_noSocket
  rcases hcases with ⟨-, what, hnext⟩ | ⟨-, hnext⟩
  · rcases retryOr_cases hleft what with ⟨hzero, hthrow⟩ | ⟨hpos, hagain⟩
    · rw [hthrow] at hnext
      refine h.next ⟨hrank, hdata⟩ ?_ ?_ _ <;> simp only [hnext, hphase]
      · exact Or.inl ⟨by omega, hsnoc⟩
      · simp only [stepsTaken]
        omega
    · rw [hagain] at hnext
      refine h.next ⟨hrank, hdata⟩ ?_ ?_ _ <;> simp only [hnext, hphase]
      · exact ⟨by omega, by omega, hsnoc⟩
      · simp only [stepsTaken]
        omega
  · refine h.next ⟨hrank, hdata⟩ ?_ ?_ _ <;> simp only [hnext, hphase]
    · exact ⟨hleft, hlength, hfailed⟩
    · exact Nat.lt_succ_self _

theorem Sound.writev (h : Sound rank data retry ls s) {o : WriteOutcome}
    (hstep : s.step (.writev o) = some s') : Sound rank data retry (ls ++ [.writev o]) s' := by
  obtain ⟨⟨x, node⟩, hx, rfl⟩ := Option.map_eq_some_iff.mp hstep
  obtain ⟨hrank, hdata, sock, left, hphase, -, hcases⟩ := Sender.writev_cases hx
  have hsofar := h.phase
  rw [hphase] at hsofar
  obtain ⟨hleft, hlength, hfailed⟩ := hsofar
  rw [h.arguments.2] at hcases
  have hmore : (s.attempts ++ [Attempt.wrote o]).length = s.attempts.length + 1 :=
    List.length_append
  rcases hcases with ⟨hneg, hnext⟩ | ⟨hnonneg, hshort, e, hnext⟩ | ⟨hfull, hnext⟩
  · refine h.next ⟨hrank, hdata⟩ ?_ ?_ _ <;> simp only [hnext, hphase]
    · exact ⟨hleft, by omega, failed_snoc hfailed (failed_wrote hneg), by omega⟩
    · simp only [stepsTaken]
      omega
  · refine h.next ⟨hrank, hdata⟩ ?_ ?_ _ <;> simp only [hnext, hphase]
    · exact Or.inr ⟨⟨_, _, rfl, ⟨_, rfl, hnonneg, hshort⟩, hfailed⟩, by omega⟩
    · simp only [stepsTaken]
      omega
  · refine h.next ⟨hrank, hdata⟩ ?_ ?_ _ <;> simp only [hnext, hphase]
    · exact ⟨⟨_, _, rfl, ⟨_, rfl, Int.not_lt.mp hfull⟩, hfailed⟩, by omega⟩
    · simp only [stepsTaken]
      omega

theorem Sound.clearSendSocket (h : Sound rank data retry ls s)
    (hstep : s.step .clearSendSocket = some s') :
    Sound rank data retry (ls ++ [.clearSendSocket]) s' := by
  obtain ⟨⟨x, node⟩, hx, rfl⟩ := Option.map_eq_some_iff.mp hstep
  obtain ⟨hrank, hdata, -, sock, left, errno, hphase, what, hnext⟩ :=
    Sender.clearSendSocket_cases hx
  have hsofar := h.phase
  rw [hphase] at hsofar
  obtain ⟨hleft, hlength, hfailed, hpos⟩ := hsofar
  rcases retryOr_cases hleft what with ⟨hzero, hthrow⟩ | ⟨hmore, hagain⟩
  · rw [hthrow] at hnext
    refine h.next ⟨hrank, hdata⟩ ?_ ?_ _ <;> simp only [hnext, hphase]
    · exact Or.inl ⟨by omega, hfailed⟩
    · simp only [stepsTaken]
      omega
  · rw [hagain] at hnext
    refine h.next ⟨hrank, hdata⟩ ?_ ?_ _ <;> simp only [hnext, hphase]
    · exact ⟨by omega, by omega, hfailed⟩
    · simp only [stepsTaken]
      omega

theorem Sound.step (h : Sound rank data retry ls s) (hstep : s.step l = some s') :
    Sound rank data retry (ls ++ [l]) s' := by
  cases l with
  | getSendSocket a => exact h.getSendSocket hstep
  | writev o => exact h.writev hstep
  | clearSendSocket => exact h.clearSendSocket hstep
  | others node =>
      cases hstep
      refine ⟨h.arguments, h.phase, ?_⟩
      rw [countP_snoc]
      exact h.steps

theorem sound_runs (hretry : 0 ≤ retry) (hrun : (machine n rank data retry).Runs ls s) :
    Sound rank data retry ls s := by
  apply hrun.induction (P := Sound rank data retry)
  · have hphase : SendPhase.enter retry = .looping retry := if_pos hretry
    refine ⟨⟨rfl, rfl⟩, ?_, Nat.zero_le _⟩
    show PhaseOf data retry [] (SendPhase.enter retry)
    rw [hphase]
    exact ⟨hretry, Int.zero_add retry, fun _ ha => absurd ha List.not_mem_nil⟩
  · exact fun _ _ _ _ _ h hstep => h.step hstep

/-! ## What the phases say -/

theorem not_completed_of_failed {attempts : List Attempt} (h : ∀ a ∈ attempts, a.Failed data) :
    ¬ ∃ a ∈ attempts, a.Completed data := by
  rintro ⟨a, ha, hcompleted⟩
  exact not_failed_of_completed hcompleted (h a ha)

theorem LastIs.completed (h : LastIs (Attempt.Completed data) data s.attempts) :
    ∃ a ∈ s.attempts, a.Completed data := by
  obtain ⟨failed, a, heq, ha, -⟩ := h
  exact ⟨a, heq ▸ List.mem_append_right failed List.mem_cons_self, ha⟩

theorem LastIs.not_completed (h : LastIs (Attempt.Short data) data s.attempts) :
    ¬ ∃ a ∈ s.attempts, a.Completed data := by
  obtain ⟨failed, a, heq, ha, hfailed⟩ := h
  rintro ⟨b, hb, hcompleted⟩
  rw [heq] at hb
  rcases List.mem_append.mp hb with hb | hb
  · exact not_failed_of_completed hcompleted (hfailed b hb)
  · rw [List.mem_singleton.mp hb] at hcompleted
    exact not_completed_of_short ha hcompleted

theorem Sound.attempts_le (h : Sound rank data retry ls s) : s.attempts.length ≤ retry + 1 := by
  have hphase := h.phase
  cases hp : s.sender.phase <;> rw [hp] at hphase
  case looping left =>
    obtain ⟨hleft, hlength, -⟩ := hphase
    omega
  case holding sock left =>
    obtain ⟨hleft, hlength, -⟩ := hphase
    omega
  case clearing sock left errno =>
    obtain ⟨hleft, hlength, -⟩ := hphase
    omega
  case returned => exact hphase.2
  case threw e =>
    rcases hphase with ⟨hlength, -⟩ | ⟨-, hle⟩
    · exact Int.le_of_eq hlength
    · exact hle

theorem Sound.steps_le (h : Sound rank data retry ls s) :
    ls.countP Label.own ≤ 3 * (retry + 1) := by
  have hphase := h.phase
  have hsteps := h.steps
  have hle := h.attempts_le
  cases hp : s.sender.phase <;> rw [hp] at hphase hsteps <;> simp only [stepsTaken] at hsteps
  case holding sock left =>
    obtain ⟨hleft, hlength, -⟩ := hphase
    omega
  all_goals omega

theorem Sound.returned_iff (h : Sound rank data retry ls s) :
    s.sender.phase = .returned ↔ ∃ a ∈ s.attempts, a.Completed data := by
  have hphase := h.phase
  cases hp : s.sender.phase <;> rw [hp] at hphase
  case looping left => exact iff_of_false (by rintro ⟨⟩) (not_completed_of_failed hphase.2.2)
  case holding sock left => exact iff_of_false (by rintro ⟨⟩) (not_completed_of_failed hphase.2.2)
  case clearing sock left errno =>
    exact iff_of_false (by rintro ⟨⟩) (not_completed_of_failed hphase.2.2.1)
  case returned => exact iff_of_true rfl hphase.1.completed
  case threw e =>
    refine iff_of_false (by rintro ⟨⟩) ?_
    rcases hphase with ⟨-, hfailed⟩ | ⟨hshort, -⟩
    · exact not_completed_of_failed hfailed
    · exact hshort.not_completed

/-- Until it has come to its end the call has a next step. -/
theorem exists_step (h : ¬ s.Ended) : ∃ l s', l.own = true ∧ s.step l = some s' := by
  cases hp : s.sender.phase with
  | looping left =>
      have hanswer : ∃ r, s.sender.getSendSocket s.node .noSocket = some r := by
        have hnode : ∃ r, s.node.getSendSocket s.sender.rank .noSocket = some r := by
          unfold Node.getSendSocket
          cases s.node.socks s.sender.rank with
          | none => exact ⟨_, rfl⟩
          | some target =>
              dsimp only
              split
              · exact ⟨_, rfl⟩
              · exact ⟨_, rfl⟩
        obtain ⟨⟨sock, node⟩, hnode⟩ := hnode
        simp only [Sender.getSendSocket, hp, hnode]
        split
        · exact ⟨_, rfl⟩
        · exact ⟨_, rfl⟩
      obtain ⟨r, hr⟩ := hanswer
      exact ⟨.getSendSocket .noSocket, _, rfl, Option.map_eq_some_iff.mpr ⟨r, hr, rfl⟩⟩
  | holding sock left =>
      have hanswer : ∃ r, s.sender.writev s.node (.error 0) = some r := by
        simp only [Sender.writev, hp, Node.writev]
        exact ⟨_, rfl⟩
      obtain ⟨r, hr⟩ := hanswer
      exact ⟨.writev (.error 0), _, rfl, Option.map_eq_some_iff.mpr ⟨r, hr, rfl⟩⟩
  | clearing sock left errno =>
      have hanswer : ∃ r, s.sender.clearSendSocket s.node = some r := by
        simp only [Sender.clearSendSocket, hp]
        exact ⟨_, rfl⟩
      obtain ⟨r, hr⟩ := hanswer
      exact ⟨.clearSendSocket, _, rfl, Option.map_eq_some_iff.mpr ⟨r, hr, rfl⟩⟩
  | returned => exact absurd (Or.inl hp) h
  | threw e => exact absurd (Or.inr ⟨e, hp⟩) h

/-- A `writev` puts what its attempt has written behind what the socket of the attempt has carried,
and `getSendSocket` sends the rank report of a socket that is new. Nothing else is written. -/
def WritesOnly (data : List UInt8) (s s' : RetryState) : Label → Prop
  | .writev o => ∃ sock left, s.sender.phase = .holding sock left ∧
      s'.attempts = s.attempts ++ [.wrote o] ∧
      s'.node.connection = Function.update s.node.connection sock
        ((s.node.connection sock).map fun c =>
          { c with sent := c.sent ++ Attempt.written data (.wrote o) })
  | .getSendSocket _ => ∀ fd, s'.node.connection fd = s.node.connection fd ∨
      s.node.connection fd = none ∧ ∃ c, s'.node.connection fd = some c ∧
        c.sent = rankReportMessage s.node.myRank s.node.listenPort
  | .clearSendSocket => s'.node.connection = s.node.connection
  | .others _ => True

theorem Sound.writesOnly (h : Sound rank data retry ls s) (hstep : s.step l = some s') :
    WritesOnly data s s' l := by
  cases l with
  | getSendSocket a =>
      obtain ⟨⟨x, node⟩, hx, rfl⟩ := Option.map_eq_some_iff.mp hstep
      obtain ⟨-, -, left, sock, -, hget, -⟩ := Sender.getSendSocket_cases hx
      intro fd
      rcases Node.getSendSocket_cases hget with ⟨-, -, rfl | ⟨fd', hfree, rfl⟩⟩ |
        ⟨-, -, rfl⟩ | ⟨-, hfree, target, localIp, -, rfl⟩
      · exact Or.inl rfl
      · exact Or.inl (congrFun (Node.connection_setUnconnected hfree) fd)
      · exact Or.inl rfl
      · rw [Node.connection_connected]
        by_cases hfd : fd = sock
        · subst hfd
          rw [Function.update_self]
          exact Or.inr ⟨hfree.connection, _, rfl, rfl⟩
        · rw [Function.update_of_ne hfd]
          exact Or.inl rfl
  | writev o =>
      obtain ⟨⟨x, node⟩, hx, rfl⟩ := Option.map_eq_some_iff.mp hstep
      obtain ⟨-, -, sock, left, hphase, hwrite, -⟩ := Sender.writev_cases hx
      rw [h.arguments.2] at hwrite
      refine ⟨sock, left, hphase, rfl, ?_⟩
      rcases (Node.writev_cases hwrite).2 with ⟨errno, rfl, rfl⟩ | ⟨k, c, rfl, hc, rfl⟩
      · have hsame : (s.node.connection sock).map (fun c =>
            { c with sent := c.sent ++ Attempt.written data (.wrote (.error errno)) }) =
            s.node.connection sock := by
          cases s.node.connection sock with
          | none => rfl
          | some c =>
              rw [Option.map_some, show Attempt.written data (.wrote (.error errno)) = [] from rfl,
                List.append_nil]
        rw [hsame, Function.update_eq_self]
      · rw [Node.connection_setConnection, hc, Option.map_some]
        rfl
  | clearSendSocket =>
      obtain ⟨⟨x, node⟩, hx, rfl⟩ := Option.map_eq_some_iff.mp hstep
      obtain ⟨-, -, rfl, -⟩ := Sender.clearSendSocket_cases hx
      exact Node.connection_eq_of_fds (Node.clearSendSocket_fds s.sender.rank)
  | others node => trivial

theorem clearSendSocket_sock {n : Node} {target : Target}
    (h : (n.clearSendSocket rank).socks rank = some target) : target.sock = -1 := by
  unfold Node.clearSendSocket at h
  split at h
  case h_1 hnone => cases hnone.symm.trans h
  case h_2 target' _ =>
    change Function.update n.socks rank _ rank = some target at h
    rw [Function.update_self] at h
    rw [← Option.some.inj h]

/-- A call that throws after a `writev` that failed has just cleared the socket. -/
theorem Sound.cleared (h : Sound rank data retry ls s) (hstep : s.step l = some s')
    (hgoing : ¬ s.Ended) {e : SendError} (hthrew : s'.sender.phase = .threw e)
    {failed : List Attempt} {o : WriteOutcome} (hlast : s'.attempts = failed ++ [.wrote o])
    (hfailed : Attempt.Failed data (.wrote o)) :
    ∀ target, s'.node.socks rank = some target → target.sock = -1 := by
  cases l with
  | getSendSocket a =>
      obtain ⟨⟨x, node⟩, hx, rfl⟩ := Option.map_eq_some_iff.mp hstep
      change x.phase = .threw e at hthrew
      simp only [hthrew] at hlast
      cases List.append_inj_right' hlast rfl
  | writev o' =>
      obtain ⟨⟨x, node⟩, hx, rfl⟩ := Option.map_eq_some_iff.mp hstep
      obtain ⟨-, -, sock, left, -, -, hcases⟩ := Sender.writev_cases hx
      obtain ⟨heq, -⟩ := List.cons.inj (List.append_inj_right' hlast rfl)
      obtain rfl := Attempt.wrote.inj heq
      have hneg := hfailed _ rfl
      rw [h.arguments.2] at hcases
      rcases hcases with ⟨-, hnext⟩ | ⟨hnonneg, -, -⟩ | ⟨-, hnext⟩
      · cases hnext.symm.trans hthrew
      · omega
      · cases hnext.symm.trans hthrew
  | clearSendSocket =>
      obtain ⟨⟨x, node⟩, hx, rfl⟩ := Option.map_eq_some_iff.mp hstep
      obtain ⟨-, -, rfl, -⟩ := Sender.clearSendSocket_cases hx
      rw [h.arguments.1]
      exact fun target htarget => clearSendSocket_sock htarget
  | others node =>
      cases hstep
      exact absurd (Or.inr ⟨e, hthrew⟩) hgoing

/-- **The attempts of a send.** Whatever the kernel answers and the other threads do, the call makes
at most one attempt more than its retries and is never stuck before its end. It returns exactly when
an attempt has completed, which is then the only one that has written anything, a whole frame; it
throws when all the attempts have failed or at the first short one; and the socket of the rank is
cleared when it throws because of a failed `writev`. What an attempt has written is what its socket
has carried, and the call writes nothing else but rank reports of new sockets. -/
theorem retries_soundly (n : Node) (rank : Int) (data : List UInt8) {retry : Int}
    (hretry : 0 ≤ retry) {ls : List Label} {s : RetryState}
    (hrun : (machine n rank data retry).Runs ls s) :
    (s.attempts.length ≤ retry + 1 ∧ ls.countP Label.own ≤ 3 * (retry + 1) ∧
      (¬ s.Ended → ∃ l s', l.own = true ∧ s.step l = some s')) ∧
    (s.sender.phase = .returned ↔ ∃ a ∈ s.attempts, a.Completed data) ∧
    (s.sender.phase = .returned → ∃ failed a, s.attempts = failed ++ [a] ∧
      a.written data = normalMessage data ∧ ∀ b ∈ failed, b.written data = []) ∧
    (∀ e, s.sender.phase = .threw e →
      (s.attempts.length = retry + 1 ∧ ∀ a ∈ s.attempts, a.Failed data) ∨
        LastIs (Attempt.Short data) data s.attempts) ∧
    (∀ l s' e failed o, s.step l = some s' → ¬ s.Ended → s'.sender.phase = .threw e →
      s'.attempts = failed ++ [.wrote o] → Attempt.Failed data (.wrote o) →
        ∀ target, s'.node.socks rank = some target → target.sock = -1) ∧
    (∀ l s', s.step l = some s' → WritesOnly data s s' l) := by
  have h := sound_runs hretry hrun
  refine ⟨⟨h.attempts_le, h.steps_le, exists_step⟩, h.returned_iff, ?_, ?_, ?_,
    fun l s' => h.writesOnly⟩
  · intro hreturned
    have hphase := h.phase
    rw [hreturned] at hphase
    obtain ⟨⟨failed, a, heq, ha, hfailed⟩, -⟩ := hphase
    exact ⟨failed, a, heq, written_of_completed ha, fun b hb => written_of_failed (hfailed b hb)⟩
  · intro e hthrew
    have hphase := h.phase
    rw [hthrew] at hphase
    exact hphase.imp_right And.left
  · intro l s' e failed o hstep hgoing hthrew hlast hfailed
    exact h.cleared hstep hgoing hthrew hlast hfailed

/-- The first attempt fails in `writev`, the second gets no socket, and the third has one. -/
def untilThird : List Label :=
  [.getSendSocket (.connected 5 0 (.wrote 12)), .writev (.error 104), .clearSendSocket,
    .getSendSocket .noSocket, .getSendSocket (.connected 6 0 (.wrote 12))]

/-- The third attempt completes. -/
theorem retries_soundly_run :
    let n : Node := ({ myRank := 1, listenPort := 9000 } : Node).registerTarget 3 0x7F000001 8000
    ∃ before s, (machine n 3 [7] 2).Runs untilThird before ∧
      (machine n 3 [7] 2).Runs (untilThird ++ [.writev (.wrote 13)]) s ∧
      s.sender.phase = .returned ∧
      (∃ failed a, s.attempts = failed ++ [a] ∧ a.written [7] = normalMessage [7] ∧
        ∀ b ∈ failed, b.written [7] = []) ∧
      WritesOnly [7] before s (.writev (.wrote 13)) ∧
      (s.node.connection 6).map (·.sent) =
        some (rankReportMessage 1 9000 ++ normalMessage [7]) := by
  intro n
  have hend : ((machine n 3 [7] 2).runFrom (machine n 3 [7] 2).init
      (untilThird ++ [.writev (.wrote 13)])).map
        (fun s => (s.sender.phase, (s.node.connection 6).map (·.sent))) =
      some (.returned, some (rankReportMessage 1 9000 ++ normalMessage [7])) := by
    decide +kernel
  obtain ⟨s, hrun, hs⟩ := Option.map_eq_some_iff.mp hend
  obtain ⟨hreturned, hsent⟩ := Prod.mk.inj hs
  obtain ⟨before, hbefore, hstep⟩ := Machine.runs_snoc.mp hrun
  have hbefore' := retries_soundly n 3 [7] (by decide) hbefore
  have hrun' := retries_soundly n 3 [7] (by decide) hrun
  exact ⟨before, s, hbefore, hrun, hreturned, hrun'.2.2.1 hreturned,
    hbefore'.2.2.2.2.2 _ _ hstep, hsent⟩

end RetryState

end Npp.Network
