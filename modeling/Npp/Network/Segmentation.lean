import Npp.Foundation.Machine
import Npp.Network.Receive
import Mathlib.Logic.Function.Basic

/-!
# Framing under TCP segmentation

Any number of connections, each with a finite list of frames to read, one epoll loop, and a kernel
that splits the streams as it likes. Reads of the body may be of any size. A head or a verify code
that comes in pieces puts the connection off its frame boundary, or ends the server.
-/

namespace Npp.Network

open Npp.Foundation Npp.Basic

/-- What is left of one list of blocks, cut at two block boundaries, has no boundary between. -/
theorem flatMap_cut {α β : Type*} (bytes : α → List β) {xs before after rest : List α} {x : α}
    (hxs : xs = before ++ x :: after) (hrest : rest <:+ xs) :
    (rest.flatMap bytes).length ≤ (after.flatMap bytes).length ∨
      (bytes x ++ after.flatMap bytes).length ≤ (rest.flatMap bytes).length := by
  -- ends of one list: of any two, one is an end of the other
  have hafter : after <:+ xs := ⟨before ++ [x], by simp [hxs]⟩
  rcases List.suffix_or_suffix_of_suffix hrest hafter with h | h
  · left
    obtain ⟨front, rfl⟩ := h
    rw [List.flatMap_append, List.length_append]
    omega
  · have hcons : x :: after <:+ xs := ⟨before, hxs.symm⟩
    rcases List.suffix_or_suffix_of_suffix hrest hcons with h' | h'
    · rcases List.suffix_cons_iff.mp h' with rfl | h''
      · right
        exact Nat.le_refl _
      · left
        obtain ⟨front, rfl⟩ := h''
        rw [List.flatMap_append, List.length_append]
        omega
    · right
      obtain ⟨front, rfl⟩ := h'
      simp only [List.flatMap_append, List.flatMap_cons, List.length_append]
      omega

structure ServerState (ι : Type) where
  unread : ι → List UInt8
  processed : ι → List (List UInt8)
  fate : Fate := .done

namespace ServerState

variable {ι : Type} [DecidableEq ι]

def step (s : ServerState ι) (e : ι × Splits) : Option (ServerState ι) :=
  if s.fate = .done ∧ s.unread e.1 ≠ [] then
    let handled := handleEvent e.2.oracle (s.unread e.1)
    some {
      unread := Function.update s.unread e.1 handled.rest
      processed := Function.update s.processed e.1
        (s.processed e.1 ++ handled.action.processed)
      fate := handled.fate }
  else none

/-- The server before the first event, with everything sent that will be. -/
def machine (frames : ι → List Frame) : Machine (ServerState ι) (ι × Splits) where
  init := { unread := fun i => (frames i).flatMap Frame.bytes, processed := fun _ => [] }
  step := step

/-- Every connection stands at a frame boundary, and the frames before it were processed. -/
structure Aligned (frames : ι → List Frame) (s : ServerState ι) : Prop where
  fate : s.fate = .done
  split : ∀ i, ∃ before after, frames i = before ++ after ∧
    s.processed i = contents before ∧ s.unread i = after.flatMap Frame.bytes

omit [DecidableEq ι] in
/-- An event on a connection at a boundary that has a frame left. -/
theorem Aligned.next_frame {frames : ι → List Frame} {s : ServerState ι} (h : Aligned frames s)
    {i : ι} (hunread : s.unread i ≠ []) :
    ∃ before f after, frames i = before ++ f :: after ∧ s.processed i = contents before ∧
      s.unread i = f.bytes ++ after.flatMap Frame.bytes := by
  obtain ⟨before, after, hframes, hprocessed, hrest⟩ := h.split i
  cases after with
  | nil => exact absurd hrest hunread
  | cons f after => exact ⟨before, f, after, hframes, hprocessed, hrest⟩

theorem step_full {frames : ι → List Frame} {s : ServerState ι} (h : Aligned frames s) {i : ι}
    {sp : Splits} (hsp : sp.Full) (hunread : s.unread i ≠ []) :
    ∃ s', s.step (i, sp) = some s' ∧ Aligned frames s' ∧
      (s'.unread i).length < (s.unread i).length := by
  obtain ⟨before, f, after, hframes, hprocessed, hrest⟩ := h.next_frame hunread
  have hhandled := handleEvent_frame hsp.oracle f (after.flatMap Frame.bytes)
  rw [← hrest] at hhandled
  refine ⟨_, if_pos ⟨h.fate, hunread⟩, ⟨?_, ?_⟩, ?_⟩
  · rw [hhandled]
  · intro j
    by_cases hj : j = i
    · subst hj
      refine ⟨before ++ [f], after, by simp [hframes], ?_, ?_⟩
      · simp only [Function.update_self, hhandled, hprocessed, contents_append, contents_singleton,
          Frame.action_processed]
      · simp only [Function.update_self, hhandled]
    · obtain ⟨b, a, hb, hp, hu⟩ := h.split j
      exact ⟨b, a, hb, by simpa [hj] using hp, by simpa [hj] using hu⟩
  · have hpos := List.length_pos_of_ne_nil f.bytes_ne_nil
    simp only [Function.update_self, hhandled]
    rw [hrest, List.length_append]
    omega

def FullReads (_ : ServerState ι) (e : ι × Splits) : Prop := e.2.Full

instance (s : ServerState ι) (e : ι × Splits) : Decidable (FullReads s e) :=
  inferInstanceAs (Decidable e.2.Full)

theorem aligned_init (frames : ι → List Frame) : Aligned frames (machine frames).init :=
  ⟨rfl, fun i => ⟨[], frames i, rfl, rfl, rfl⟩⟩

theorem Aligned.step {frames : ι → List Frame} {s s' : ServerState ι} {e : ι × Splits}
    (h : Aligned frames s) (he : FullReads s e) (hstep : s.step e = some s') :
    Aligned frames s' := by
  obtain ⟨i, sp⟩ := e
  have hready : s.fate = .done ∧ s.unread i ≠ [] := by
    by_contra hno
    rw [ServerState.step, if_neg hno] at hstep
    cases hstep
  obtain ⟨t, ht, haligned, -⟩ := step_full h he hready.2
  rw [ht] at hstep
  exact Option.some.inj hstep ▸ haligned

/-- An event with a short head or verify read leaves the boundary. -/
theorem Aligned.step_short {frames : ι → List Frame} {s s' : ServerState ι} {e : ι × Splits}
    (h : Aligned frames s) (he : ¬ FullReads s e) (hstep : s.step e = some s') :
    ¬ Aligned frames s' := by
  obtain ⟨i, sp⟩ := e
  intro haligned
  by_cases hready : s.fate = .done ∧ s.unread i ≠ []
  · rw [ServerState.step, if_pos hready] at hstep
    obtain rfl := Option.some.inj hstep
    obtain ⟨before, f, after, hframes, -, hunread⟩ := h.next_frame hready.2
    have hdone : (handleEvent sp.oracle (f.bytes ++ after.flatMap Frame.bytes)).fate = .done := by
      rw [← hunread]
      exact haligned.fate
    obtain ⟨b, rest, hb, -, hrest⟩ := haligned.split i
    simp only [Function.update_self, hunread] at hrest
    -- `rest` would be a boundary strictly inside of `f`
    have hinside := handleEvent_short rfl rfl he f (after.flatMap Frame.bytes) hdone
    rw [hrest] at hinside
    have hcut := flatMap_cut Frame.bytes hframes ⟨b, hb.symm⟩
    omega
  · rw [ServerState.step, if_neg hready] at hstep
    cases hstep

theorem Aligned.step_iff {frames : ι → List Frame} {s s' : ServerState ι} {e : ι × Splits}
    (h : Aligned frames s) (hstep : s.step e = some s') : Aligned frames s' ↔ FullReads s e := by
  constructor
  · intro haligned
    by_contra hshort
    exact h.step_short hshort hstep haligned
  · intro he
    exact h.step he hstep

omit [DecidableEq ι] in
/-- A server at the boundaries has handed over a prefix of what was sent. -/
theorem Aligned.in_order {frames : ι → List Frame} {s : ServerState ι} (h : Aligned frames s)
    (i : ι) : s.processed i <+: contents (frames i) := by
  obtain ⟨before, after, hframes, hprocessed, -⟩ := h.split i
  exact ⟨contents after, by rw [hprocessed, hframes, contents_append]⟩

/-- A server at the boundaries with no event left has handed over everything. -/
theorem Aligned.complete {frames : ι → List Frame} {s : ServerState ι} (h : Aligned frames s)
    (hstop : ∀ e, s.step e = none) (i : ι) : s.processed i = contents (frames i) := by
  have hunread : s.unread i = [] := by
    by_contra hne
    -- bytes that are left make an event possible, one with full reads for instance
    have hfull : (⟨8, fun _ => 1, 4, fun _ => 0, fun _ => 0⟩ : Splits).Full :=
      ⟨Nat.le_refl 8, Nat.le_refl 4⟩
    obtain ⟨s', hstep, -, -⟩ := step_full h hfull hne
    rw [hstop] at hstep
    cases hstep
  obtain ⟨before, after, hframes, hprocessed, hrest⟩ := h.split i
  cases after with
  | nil => rw [hprocessed, hframes, List.append_nil]
  | cons f after =>
      rw [hunread] at hrest
      have hempty := List.append_eq_nil_iff.mp hrest.symm
      exact absurd hempty.1 f.bytes_ne_nil

/-- **Framing.** The server stays alive and on frame boundaries through a run exactly when every
event reads the head and the verify code whole, whatever the reads of the bodies give. It has then
handed over, on every connection, a prefix of the contents sent, and all of them once no event is
left. -/
theorem framing_iff {frames : ι → List Frame} {es : List (ι × Splits)} {s : ServerState ι}
    (hrun : (machine frames).Runs es s) :
    ((machine frames).Meets FullReads (machine frames).init es ↔
      ∀ pre t, pre <+: es → (machine frames).Runs pre t → Aligned frames t) ∧
    ((machine frames).Meets FullReads (machine frames).init es →
      (∀ i, s.processed i <+: contents (frames i)) ∧
      ((∀ e, s.step e = none) → ∀ i, s.processed i = contents (frames i))) := by
  have hiff := hrun.meets_iff (aligned_init frames) fun s e s' hs hstep => hs.step_iff hstep
  refine ⟨hiff, ?_⟩
  intro hmeets
  have haligned := hiff.mp hmeets es s (List.prefix_refl es) hrun
  exact ⟨haligned.in_order, haligned.complete⟩

/-- A rank report and a message whose body comes byte by byte. -/
theorem framing_iff_run :
    ∃ es s, (machine fun _ : Unit => [Frame.rankReport 3 80,
        .normal ⟨[1, 2, 3], by decide, by decide⟩]).Runs es s ∧
      s.processed () <+: [[1, 2, 3]] ∧ s.unread () = [] := by
  let M := machine fun _ : Unit => [Frame.rankReport 3 80,
    .normal ⟨[1, 2, 3], by decide, by decide⟩]
  let sp : Splits := { head := 8, body := fun _ => 1, verify := 4 }
  have hend : (M.runFrom M.init [((), sp), ((), sp)]).map (fun s => s.unread ()) = some [] := by
    decide +kernel
  obtain ⟨s, hrun, hunread⟩ := Option.map_eq_some_iff.mp hend
  have hfull : ∀ e ∈ [((), sp), ((), sp)], e.2.Full := by decide
  have hmeets := Machine.meets_of_forall (M := M) hfull M.init
  exact ⟨_, s, hrun, ((framing_iff hrun).2 hmeets).1 (), hunread⟩

/-- One byte of the head of a message is an empty message to the receiver: the buffer's assertion
ends the server, and the message is never handed over. -/
theorem framing_broken :
    ∃ es s, (machine fun _ : Unit =>
        [Frame.normal ⟨[7], by decide, by decide⟩]).Runs es s ∧
      (∀ e, s.step e = none) ∧ s.processed () ≠ contents [.normal ⟨[7], by decide, by decide⟩] := by
  let sp : Splits := { head := 1, body := fun _ => 1, verify := 4 }
  have hrun : (machine fun _ : Unit =>
      [Frame.normal ⟨[7], by decide, by decide⟩]).Runs [((), sp)] _ := rfl
  refine ⟨_, _, hrun, ?_, ?_⟩
  · intro e
    exact if_neg (fun h => absurd h.1 (by decide))
  · decide

end ServerState

end Npp.Network
