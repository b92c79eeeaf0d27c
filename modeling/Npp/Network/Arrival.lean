import Npp.Network.Cluster

/-!
# Whatever was sent can arrive

A message that `sendMessage` has written may still wait for the other node to accept the connection
or to read it. The epoll threads alone bring it there: `accept` for a connection in the backlog, and
one `read` event after the other. A node that is to accept needs a free descriptor.
-/

namespace Npp.Network

open Npp.Foundation

namespace ServiceState

variable {θ : Type} [DecidableEq θ] {v v' : ServiceState θ}

/-- Only an event can end the epoll thread. -/
theorem server_step {l : Label θ} (hl : ∀ fd o, l ≠ .readable fd o) (h : v.step l = some v') :
    v'.server = v.server := by
  cases transition_of_step h with
  | readable fd o => exact absurd rfl (hl fd o)
  | _ => rfl

/-- A frame in front can be read, and the epoll thread goes on. -/
theorem exists_readable {fd : Int} {o : Oracle} (hfull : o.Full) (hserver : v.server = .done)
    {c : Connection} (hc : v.node.connection fd = some c) (f : Frame) {rest : List UInt8}
    (hunread : c.unread = f.bytes ++ rest) :
    ∃ v', v.step (.readable fd o) = some v' ∧ v'.server = .done := by
  have hne : c.unread ≠ [] := by
    rw [hunread]
    exact List.append_ne_nil_of_left_ne_nil f.bytes_ne_nil _
  have hevent := handleEvent_frame hfull f rest
  rw [← hunread] at hevent
  refine ⟨{ v with
    node := v.node.handle fd c { rest := rest, action := f.action }, server := .done }, ?_, rfl⟩
  simp [step, act, hserver, hc, hne, hevent]

end ServiceState

namespace ClusterState

variable {ι θ : Type} [DecidableEq ι] [DecidableEq θ] {C : Cluster ι} {s s' : ClusterState ι θ}
  {wrote taken : ι × Int → List Frame}

def Serving (s : ClusterState ι θ) : Prop := ∀ i, (s.services i).server = .done

/-- What was sent at the end is processed at the other one, by a node of the rank it was for. -/
def Arrived (C : Cluster ι) (sent : List (Int × List UInt8)) (e : ι × Int)
    (t : ClusterState ι θ) : Prop :=
  ∃ e', t.peer e = some e' ∧ t.processed e' = sent.map Prod.snd ∧ ∀ m ∈ sent, m.1 = C.rank e'.1

/-! ## The epoll threads go on -/

omit [DecidableEq θ] in
theorem Serving.setService (h : s.Serving) {i : ι} {v : ServiceState θ} (hv : v.server = .done) :
    (s.setService i v).Serving := by
  intro j
  show (Function.update s.services i v j).server = .done
  by_cases hj : j = i
  · subst hj
    rwa [Function.update_self]
  · rw [Function.update_of_ne hj]
    exact h j

theorem Serving.own (h : s.Serving) {i : ι} {l : ServiceState.Label θ}
    (hl : ∀ fd o, l ≠ .readable fd o) (hstep : s.own i l = some s') : s'.Serving := by
  obtain ⟨v, hv, rfl⟩ := Option.map_eq_some_iff.mp hstep
  exact h.setService ((ServiceState.server_step hl hv).trans (h i))

theorem Serving.carry (h : s.Serving) {e : ι × Int} {bytes : List UInt8}
    (hcarry : s.carry e bytes = some s') : s'.Serving := by
  unfold ClusterState.carry at hcarry
  split at hcarry
  case h_1 => exact Option.some.inj hcarry ▸ h
  case h_2 => exact h.own (by rintro _ _ ⟨⟩) hcarry

omit [DecidableEq θ] in
theorem Serving.record (h : s.Serving) (e : ι × Int) (x : Sender) (o : WriteOutcome) :
    (s.record e x o).Serving := by
  unfold ClusterState.record
  split
  · exact h
  · exact h

omit [DecidableEq ι] [DecidableEq θ] in
/-- An event at a routed connection finds a frame. -/
theorem Routed.exists_frame (h : Routed C s wrote taken) {e : ι × Int} {c : Connection}
    (hc : s.conn e = some c) (hunread : c.unread ≠ []) :
    ∃ (f : Frame) (after : List Frame), c.unread = f.bytes ++ after.flatMap Frame.bytes := by
  have hne : s.duplex.unread e ≠ [] := by
    show unreadAt s.conn e ≠ []
    rwa [unreadAt_some hc]
  obtain ⟨-, f, after, -, -, hfront⟩ := h.framed.front hne
  exact ⟨f, after, (unreadAt_some hc).symm.trans hfront⟩

theorem Serving.step (h : s.Serving) (hrouted : IsRouted C s) {l : Label ι θ} (hl : l.Whole)
    (hstep : s.step C l = some s') : s'.Serving := by
  cases l with
  | registerTarget i rank ip port => exact h.own (by rintro _ _ ⟨⟩) hstep
  | sendMessage i t rank data retry => exact h.own (by rintro _ _ ⟨⟩) hstep
  | clearSendSocket i t => exact h.own (by rintro _ _ ⟨⟩) hstep
  | getSendSocket i t a =>
      obtain ⟨x, -, hstep⟩ := Option.bind_eq_some_iff.mp hstep
      obtain ⟨mid, hown, hstep⟩ := Option.bind_eq_some_iff.mp hstep
      have hmid : mid.Serving := h.own (by rintro _ _ ⟨⟩) hown
      split at hstep
      case h_1 => exact Option.some.inj hstep ▸ hmid
      case h_2 =>
        obtain ⟨j, -, rfl⟩ := Option.map_eq_some_iff.mp hstep
        exact hmid
  | writev i t o =>
      obtain ⟨x, -, hstep⟩ := Option.bind_eq_some_iff.mp hstep
      obtain ⟨sock, -, hstep⟩ := Option.bind_eq_some_iff.mp hstep
      obtain ⟨mid, hown, hcarry⟩ := Option.bind_eq_some_iff.mp hstep
      have hmid : mid.Serving := h.own (by rintro _ _ ⟨⟩) hown
      exact (hmid.record _ x o).carry hcarry
  | accept i b connfd localIp =>
      obtain ⟨p, -, hstep⟩ := Option.bind_eq_some_iff.mp hstep
      obtain ⟨-, hstep⟩ := Option.ite_none_right_eq_some.mp hstep
      obtain ⟨mid, hown, hcarry⟩ := Option.bind_eq_some_iff.mp hstep
      have hmid : mid.Serving := h.own (by rintro _ _ ⟨⟩) hown
      have hjoined : (mid.join b p.1 (i, connfd)).Serving := hmid
      exact hjoined.carry hcarry
  | readable i fd o =>
      obtain ⟨wrote, taken, hrouted⟩ := hrouted
      obtain ⟨c, hc, hstep⟩ := Option.bind_eq_some_iff.mp hstep
      obtain ⟨_, hown, rfl⟩ := Option.map_eq_some_iff.mp hstep
      obtain ⟨v, hv, rfl⟩ := Option.map_eq_some_iff.mp hown
      obtain ⟨f, after, hunread⟩ :=
        hrouted.exists_frame hc (ServiceState.readable_unread hl hc hv)
      obtain ⟨v', hv', hserver⟩ := ServiceState.exists_readable hl (h i) hc f hunread
      obtain rfl := Option.some.inj (hv.symm.trans hv')
      exact h.setService hserver

structure Coming (C : Cluster ι) (sent : List (Int × List UInt8)) (e e' : ι × Int)
    (t : ClusterState ι θ) : Prop where
  routed : IsRouted C t
  serving : t.Serving
  joined : t.peer e = some e'
  sentTo : t.sentTo e = sent

omit [DecidableEq ι] [DecidableEq θ] in
/-- Behind the last frame everything has arrived. -/
theorem Coming.arrived {sent : List (Int × List UInt8)} {e e' : ι × Int} {t : ClusterState ι θ}
    (h : Coming C sent e e' t) (hunread : unreadAt t.conn e' = []) : Arrived C sent e t := by
  obtain ⟨wrote, taken, hrouted⟩ := h.routed
  have hback := hrouted.framed.symm e e' h.joined
  refine ⟨e', h.joined, ?_, ?_⟩
  · rw [hrouted.processed, hrouted.framed.complete Frame.bytes_ne_nil hback hunread,
      hrouted.sentTo, h.sentTo]
  · intro m hm
    rcases hrouted.meant e m (h.sentTo ▸ hm) with ⟨e'', hpeer, hrank⟩ | ⟨j, hwaits, -⟩
    · obtain rfl := Option.some.inj (h.joined.symm.trans hpeer)
      exact hrank.symm
    · cases (hrouted.waiting _ hwaits).2.symm.trans h.joined

/-- One event takes a frame from what is left. -/
theorem Coming.read {sent : List (Int × List UInt8)} {e e' : ι × Int} {t : ClusterState ι θ}
    (h : Coming C sent e e' t) (hunread : unreadAt t.conn e' ≠ []) :
    ∃ t', t.step C (.readable e'.1 e'.2 wholeReads.oracle) = some t' ∧
      Coming C sent e e' t' ∧ (unreadAt t'.conn e').length < (unreadAt t.conn e').length := by
  obtain ⟨wrote, taken, hrouted⟩ := h.routed
  obtain ⟨c, hc⟩ : ∃ c, t.conn e' = some c := by
    cases hconn : t.conn e' with
    | none =>
        rw [unreadAt, hconn] at hunread
        exact absurd rfl hunread
    | some c => exact ⟨c, rfl⟩
  rw [unreadAt_some hc] at hunread ⊢
  obtain ⟨f, after, hfront⟩ := hrouted.exists_frame hc hunread
  obtain ⟨v, hv, hserver⟩ :=
    ServiceState.exists_readable wholeReads_full.oracle (h.serving e'.1) hc f hfront
  have hevent := handleEvent_frame wholeReads_full.oracle f (after.flatMap Frame.bytes)
  rw [← hfront] at hevent
  have hchanges := ServiceState.readable_effect hc hevent hv
  have hown : t.own e'.1 (.readable e'.2 wholeReads.oracle) = some (t.setService e'.1 v) := by
    rw [own, hv]
    rfl
  obtain ⟨t', ht'⟩ : ∃ t', t' = { t.setService e'.1 v with
      processed := Function.update t.processed e' (t.processed e' ++
        (handleEvent wholeReads.oracle c.unread).action.processed) } := ⟨_, rfl⟩
  have hstep : t.step C (.readable e'.1 e'.2 wholeReads.oracle) = some t' := by
    rw [ht', ClusterState.step, show t.conn (e'.1, e'.2) = some c from hc, Option.bind_some, hown]
    rfl
  refine ⟨t', hstep, ⟨⟨?_, ?_, ?_, ?_⟩, ?_⟩⟩
  · exact h.routed.step (l := .readable e'.1 e'.2 wholeReads.oracle)
      ⟨wholeReads_full.oracle, trivial⟩ hstep
  · rw [ht']
    exact h.serving.setService hserver
  · rw [ht']
    exact h.joined
  · rw [ht']
    exact h.sentTo
  · have hconn : t'.conn = Function.update t.conn e' (some { c with
        unread := after.flatMap Frame.bytes
        reported := c.reported ++ f.action.ranks }) := by
      rw [ht']
      exact conn_changes hchanges.connection
    have hpos := List.length_pos_of_ne_nil f.bytes_ne_nil
    rw [hconn, unreadAt_update, Function.update_self, hfront, List.length_append]
    exact Nat.lt_add_of_pos_left hpos

end ClusterState

end Npp.Network
