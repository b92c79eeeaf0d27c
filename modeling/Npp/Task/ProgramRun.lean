import Npp.Task.ProgramStep
import Mathlib.Data.List.Nodup
import Mathlib.Data.Nat.Find

/-!
# Programs of coroutines run as written

With a thread for each of them, the coroutines give what their bodies read as in every order of
steps, they always come to an end, and no coroutine outlives the one that started it, as long as
whatever is started returns a value.
-/

namespace Npp.Task

open Npp.Foundation

variable {V : Type}

namespace ProgramState

open Coroutine

variable {program : Program V} {s s' : ProgramState V} {t : Nat} {k k' : Coroutine V}

/-! ## Who holds whom -/

/-- The invariant: every coroutine keeps to its body, and the coroutines that are not destroyed are
held by the ones that started them. -/
structure Linked (program : Program V) (s : ProgramState V) : Prop where
  faithful : ∀ (t : Nat) k, s.tasks[t]? = some k → k.Faithful
  child : ∀ (t : Nat) k, s.tasks[t]? = some k → ∀ h ∈ k.handles, t < h.id ∧
    ∃ c, s.tasks[h.id]? = some c ∧ c.program = h.program ∧ c.parent = some t ∧
      c.isDestroyed = false
  once : ∀ (t : Nat) k, s.tasks[t]? = some k → (k.handles.map TaskHandle.id).Nodup
  held : ∀ (i : Nat) c, s.tasks[i]? = some c → c.isDestroyed = false → ∀ t, c.parent = some t →
    ∃ k, s.tasks[t]? = some k ∧ i ∈ k.handles.map TaskHandle.id
  root : ∃ k, s.tasks[0]? = some k ∧ k.program = program ∧ k.parent = none ∧ k.isDestroyed = false
  started : ∀ (i : Nat) c, s.tasks[i]? = some c → i ≠ 0 → c.parent ≠ none
  waiting : ∀ (t : Nat) k, s.tasks[t]? = some k →
    ∀ h ∈ k.registeredFor, ∀ c, s.tasks[h.id]? = some c → c.notified = false

structure Follows (k k' : Coroutine V) : Prop where
  program : k'.program = k.program
  parent : k'.parent = k.parent
  handles : k'.handles.Perm k.handles
  destroyed : k'.isDestroyed = k.isDestroyed

theorem Follows.refl (k : Coroutine V) : Follows k k := ⟨rfl, rfl, .refl _, rfl⟩

/-- Coroutines that go on hold what they held. -/
theorem Linked.follows (h : Linked program s) (hlength : s'.tasks.length = s.tasks.length)
    (hfollows : ∀ (i : Nat) k k', s.tasks[i]? = some k → s'.tasks[i]? = some k' → Follows k k')
    (hfaithful : ∀ (i : Nat) k', s'.tasks[i]? = some k' → k'.Faithful)
    (hwaiting : ∀ (i : Nat) k', s'.tasks[i]? = some k' → ∀ h ∈ k'.registeredFor,
      ∀ c, s'.tasks[h.id]? = some c → c.notified = false) :
    Linked program s' := by
  have hbefore : ∀ (i : Nat) k', s'.tasks[i]? = some k' →
      ∃ k, s.tasks[i]? = some k ∧ Follows k k' := by
    intro i k' hk'
    have hi : i < s.tasks.length := hlength ▸ (List.getElem?_eq_some_iff.mp hk').1
    exact ⟨_, List.getElem?_eq_getElem hi, hfollows i _ k' (List.getElem?_eq_getElem hi) hk'⟩
  have hafter : ∀ (i : Nat) k, s.tasks[i]? = some k →
      ∃ k', s'.tasks[i]? = some k' ∧ Follows k k' := by
    intro i k hk
    have hi : i < s'.tasks.length := hlength ▸ (List.getElem?_eq_some_iff.mp hk).1
    exact ⟨_, List.getElem?_eq_getElem hi, hfollows i k _ hk (List.getElem?_eq_getElem hi)⟩
  refine ⟨hfaithful, ?_, ?_, ?_, ?_, ?_, hwaiting⟩
  · intro i k' hk' x hx
    obtain ⟨k, hk, hf⟩ := hbefore i k' hk'
    obtain ⟨hlt, c, hc, hprogram, hparent, hlive⟩ := h.child i k hk x (hf.handles.mem_iff.mp hx)
    obtain ⟨c', hc', hfc⟩ := hafter _ c hc
    exact ⟨hlt, c', hc', hfc.program.trans hprogram, hfc.parent.trans hparent,
      hfc.destroyed.trans hlive⟩
  · intro i k' hk'
    obtain ⟨k, hk, hf⟩ := hbefore i k' hk'
    exact (hf.handles.map _).nodup_iff.mpr (h.once i k hk)
  · intro i c' hc' hlive t hparent
    obtain ⟨c, hc, hfc⟩ := hbefore i c' hc'
    obtain ⟨k, hk, hmem⟩ := h.held i c hc (hfc.destroyed.symm.trans hlive) t
      (hfc.parent.symm.trans hparent)
    obtain ⟨k', hk', hf⟩ := hafter t k hk
    exact ⟨k', hk', (hf.handles.map _).mem_iff.mpr hmem⟩
  · obtain ⟨k, hk, hprogram, hparent, hlive⟩ := h.root
    obtain ⟨k', hk', hf⟩ := hafter 0 k hk
    exact ⟨k', hk', hf.program.trans hprogram, hf.parent.trans hparent,
      hf.destroyed.trans hlive⟩
  · intro i c' hc' hi
    obtain ⟨c, hc, hfc⟩ := hbefore i c' hc'
    rw [hfc.parent]
    exact h.started i c hc hi

theorem getElem?_set {i : Nat} (hk : s.tasks[t]? = some k) (k' : Coroutine V) :
    (s.set t k').tasks[i]? = if i = t then some k' else s.tasks[i]? := by
  show (s.tasks.set t k')[i]? = _
  by_cases hi : i = t
  · subst hi
    rw [if_pos rfl, List.getElem?_set_self (List.getElem?_eq_some_iff.mp hk).1]
  · rw [if_neg hi, List.getElem?_set_ne (Ne.symm hi)]

/-- After a coroutine was started. -/
theorem getElem?_start {i : Nat} (hk : s.tasks[t]? = some k) (k' c : Coroutine V) :
    (s.tasks.set t k' ++ [c])[i]? =
      if i = t then some k' else if i = s.tasks.length then some c else s.tasks[i]? := by
  have hlt := (List.getElem?_eq_some_iff.mp hk).1
  have hlength : (s.tasks.set t k').length = s.tasks.length := List.length_set ..
  rcases Nat.lt_trichotomy i s.tasks.length with hi | hi | hi
  · rw [List.getElem?_append_left (by omega), if_neg (Nat.ne_of_lt hi)]
    exact getElem?_set hk k'
  · rw [if_neg (by omega), if_pos hi, hi, ← hlength]
    exact List.getElem?_concat_length
  · have hout : (s.tasks.set t k' ++ [c]).length ≤ i := by
      rw [List.length_append, hlength, List.length_singleton]
      exact hi
    rw [if_neg (by omega), if_neg (by omega), List.getElem?_eq_none hout,
      List.getElem?_eq_none (Nat.le_of_lt hi)]

/-- After one coroutine has destroyed another one. -/
theorem getElem?_destroy {i j : Nat} {c : Coroutine V} (hk : s.tasks[t]? = some k)
    (hc : s.tasks[j]? = some c) (hne : t ≠ j) (k' d : Coroutine V) :
    ((s.set j d).set t k').tasks[i]? =
      if i = t then some k' else if i = j then some d else s.tasks[i]? := by
  have hk' : (s.set j d).tasks[t]? = some k := by
    rw [getElem?_set hc, if_neg hne]
    exact hk
  rw [getElem?_set hk', getElem?_set hc]

theorem eq_some_of_changed {α : Type*} {i j : Nat} {a b x : α} {old : Option α}
    (h : (if i = t then some a else if i = j then some b else old) = some x) :
    (i = t ∧ x = a) ∨ (i = j ∧ x = b) ∨ (i ≠ t ∧ i ≠ j ∧ old = some x) := by
  split at h
  case isTrue hi => exact Or.inl ⟨hi, (Option.some.inj h).symm⟩
  case isFalse hi =>
    split at h
    case isTrue hj => exact Or.inr (Or.inl ⟨hj, (Option.some.inj h).symm⟩)
    case isFalse hj => exact Or.inr (Or.inr ⟨hi, hj, h⟩)

/-- One coroutine goes on. -/
theorem Linked.set (h : Linked program s) (hk : s.tasks[t]? = some k) (hfollows : Follows k k')
    (hfaithful : k'.Faithful) (hnotified : k'.notified = true → k.notified = true)
    (hwaiting : ∀ x ∈ k'.registeredFor, ∀ c, s.tasks[x.id]? = some c → c.notified = false) :
    Linked program (s.set t k') := by
  refine h.follows (List.length_set ..) ?_ ?_ ?_
  · intro i a a' ha ha'
    rw [getElem?_set hk] at ha'
    split at ha'
    case isTrue hi =>
      subst hi
      obtain rfl := Option.some.inj (hk.symm.trans ha)
      exact Option.some.inj ha' ▸ hfollows
    case isFalse =>
      obtain rfl := Option.some.inj (ha.symm.trans ha')
      exact .refl a
  · intro i a' ha'
    rw [getElem?_set hk] at ha'
    split at ha'
    case isTrue => exact Option.some.inj ha' ▸ hfaithful
    case isFalse => exact h.faithful i a' ha'
  · -- a callback waits for `t` only while `t` has not called it
    have hold : ∀ x : TaskHandle V, (∀ c, s.tasks[x.id]? = some c → c.notified = false) →
        ∀ c, (s.set t k').tasks[x.id]? = some c → c.notified = false := by
      intro x hx c hc
      rw [getElem?_set hk] at hc
      split at hc
      case isTrue hid =>
        obtain rfl := Option.some.inj hc
        rw [← Bool.not_eq_true]
        intro hcalled
        rw [hx k (hid ▸ hk)] at hnotified
        cases hnotified hcalled
      case isFalse => exact hx c hc
    intro i a' ha' x hx
    rw [getElem?_set hk] at ha'
    split at ha'
    case isTrue =>
      obtain rfl := Option.some.inj ha'
      exact hold x (hwaiting x hx)
    case isFalse => exact hold x (h.waiting i a' ha' x hx)

/-! ## Callbacks, starts and destructions -/

theorem follows_of_callsBack (h : CallsBack t k k') : Follows k k' := by
  cases h with
  | handsOver => exact ⟨rfl, rfl, .refl _, rfl⟩
  | stays => exact .refl _

theorem notified_of_callsBack (h : CallsBack t k k') : k'.notified = k.notified := by
  cases h with
  | handsOver => rfl
  | stays => rfl

/-- Nobody waits for a coroutine that has called its callbacks. -/
theorem registeredFor_of_callsBack (h : CallsBack t k k') {x : TaskHandle V}
    (hx : x ∈ k'.registeredFor) : x ∈ k.registeredFor ∧ x.id ≠ t := by
  cases h with
  | handsOver => cases hx
  | stays _ other => exact ⟨hx, other x hx⟩

theorem Linked.notify {parent : Option Nat} {result : Option (Result V)}
    {locals : List (Option (TaskHandle V))} {p : Program V} (h : Linked program s)
    (hk : s.tasks[t]? = some ⟨p, parent, .publishing false, result, locals⟩) :
    Linked program { s with tasks :=
      (s.set t ⟨p, parent, .publishing true, result, locals⟩).tasks.map (callBack t) } := by
  let k' : Coroutine V := ⟨p, parent, .publishing true, result, locals⟩
  have hread : ∀ (i : Nat) c, ((s.set t k').tasks.map (callBack t))[i]? = some c →
      ∃ a, (if i = t then some k' else s.tasks[i]?) = some a ∧ c = a.callBack t := by
    intro i c hc
    rw [List.getElem?_map, getElem?_set hk] at hc
    obtain ⟨a, ha, rfl⟩ := Option.map_eq_some_iff.mp hc
    exact ⟨a, ha, rfl⟩
  refine h.follows ?_ ?_ ?_ ?_
  · show ((s.tasks.set t k').map (callBack t)).length = _
    rw [List.length_map, List.length_set]
  · intro i a a' ha ha'
    obtain ⟨b, hb, rfl⟩ := hread i a' ha'
    split at hb
    case isTrue hi =>
      subst hi
      obtain rfl := Option.some.inj (hk.symm.trans ha)
      obtain rfl := Option.some.inj hb
      exact ⟨rfl, rfl, .refl _, rfl⟩
    case isFalse =>
      obtain rfl := Option.some.inj (ha.symm.trans hb)
      exact follows_of_callsBack (callsBack t a)
  · intro i a' ha'
    obtain ⟨b, hb, rfl⟩ := hread i a' ha'
    split at hb
    case isTrue =>
      obtain rfl := Option.some.inj hb
      exact (callsBack t _).faithful (h.faithful t _ hk).notify
    case isFalse => exact (callsBack t b).faithful (h.faithful i b hb)
  · intro i a' ha' x hx c hc
    obtain ⟨b, hb, rfl⟩ := hread i a' ha'
    obtain ⟨d, hd, rfl⟩ := hread x.id c hc
    obtain ⟨hx, hid⟩ := registeredFor_of_callsBack (callsBack t _) hx
    rw [notified_of_callsBack (callsBack t _)]
    rw [if_neg hid] at hd
    split at hb
    case isTrue =>
      obtain rfl := Option.some.inj hb
      cases hx
    case isFalse => exact h.waiting i b hb x hx d hd

theorem Linked.start {parent : Option Nat} {result : Option (Result V)}
    {locals : List (Option (TaskHandle V))} {p inner rest : Program V} (h : Linked program s)
    (hk : s.tasks[t]? = some ⟨p, parent, .ready (.start inner rest), result, locals⟩) :
    Linked program (s.go t ⟨p, parent, .ready (.start inner rest), result, locals⟩
      (.start inner rest)) := by
  let child : TaskHandle V := ⟨s.tasks.length, inner⟩
  let k' : Coroutine V := ⟨p, parent, .ready rest, result, some child :: locals⟩
  let c' : Coroutine V := { program := inner, parent := some t, activity := .ready inner }
  have hlt : t < s.tasks.length := (List.getElem?_eq_some_iff.mp hk).1
  have hafter := fun i => getElem?_start (i := i) hk k' c'
  have hself : (s.tasks.set t k' ++ [c'])[t]? = some k' := by rw [hafter, if_pos rfl]
  have hnew : (s.tasks.set t k' ++ [c'])[s.tasks.length]? = some c' := by
    rw [hafter, if_neg (Nat.ne_of_gt hlt), if_pos rfl]
  have hother : ∀ i, i ≠ t → i ≠ s.tasks.length →
      (s.tasks.set t k' ++ [c'])[i]? = s.tasks[i]? := by
    intro i hi hn
    rw [hafter, if_neg hi, if_neg hn]
  have hread : ∀ (i : Nat) a, (s.tasks.set t k' ++ [c'])[i]? = some a →
      (i = t ∧ a = k') ∨ (i = s.tasks.length ∧ a = c') ∨
        (i ≠ t ∧ i ≠ s.tasks.length ∧ s.tasks[i]? = some a) := by
    intro i a ha
    rw [hafter] at ha
    exact eq_some_of_changed ha
  have hkeep : ∀ (i : Nat) c, s.tasks[i]? = some c →
      ∃ d, (s.tasks.set t k' ++ [c'])[i]? = some d ∧ d.program = c.program ∧
        d.parent = c.parent ∧ d.isDestroyed = c.isDestroyed ∧ d.notified = c.notified := by
    intro i c hc
    by_cases hi : i = t
    · subst hi
      obtain rfl := Option.some.inj (hk.symm.trans hc)
      exact ⟨k', hself, rfl, rfl, rfl, rfl⟩
    · have hin := (List.getElem?_eq_some_iff.mp hc).1
      exact ⟨c, (hother i hi (by omega)).trans hc, rfl, rfl, rfl, rfl⟩
  have hids : ∀ (i : Nat) a, s.tasks[i]? = some a → ∀ x ∈ a.handles,
      x.id < s.tasks.length := by
    intro i a ha x hx
    obtain ⟨-, c, hc, -⟩ := h.child i a ha x hx
    exact (List.getElem?_eq_some_iff.mp hc).1
  have hhandles : k'.handles = child :: handles ⟨p, parent, .ready (.start inner rest), result,
      locals⟩ := rfl
  refine ⟨?faithful, ?child, ?once, ?held, ?root, ?started, ?waiting⟩
  case faithful =>
    intro i a ha
    rcases hread i a ha with ⟨rfl, rfl⟩ | ⟨rfl, rfl⟩ | ⟨-, -, ha⟩
    · exact (h.faithful i _ hk).start _
    · exact ⟨rfl, (and_iff_left fun x hx => nomatch hx).symm, by rintro r ⟨⟩, rfl,
        by rintro x ⟨⟩, by rintro x ⟨⟩, by rintro ⟨⟩⟩
    · exact h.faithful i a ha
  case child =>
    intro i a ha x hx
    have hold : ∀ b, s.tasks[i]? = some b → x ∈ b.handles → i < x.id ∧
        ∃ c, (s.tasks.set t k' ++ [c'])[x.id]? = some c ∧ c.program = x.program ∧
          c.parent = some i ∧ c.isDestroyed = false := by
      intro b hb hx
      obtain ⟨hlt, c, hc, hprogram, hparent, hlive⟩ := h.child i b hb x hx
      obtain ⟨d, hd, hdprogram, hdparent, hdlive, -⟩ := hkeep _ c hc
      exact ⟨hlt, d, hd, hdprogram.trans hprogram, hdparent.trans hparent, hdlive.trans hlive⟩
    rcases hread i a ha with ⟨rfl, rfl⟩ | ⟨rfl, rfl⟩ | ⟨-, -, ha⟩
    · rw [hhandles] at hx
      rcases List.mem_cons.mp hx with rfl | hx
      · exact ⟨hlt, c', hnew, rfl, rfl, rfl⟩
      · exact hold _ hk hx
    · cases hx
    · exact hold a ha hx
  case once =>
    intro i a ha
    rcases hread i a ha with ⟨rfl, rfl⟩ | ⟨rfl, rfl⟩ | ⟨-, -, ha⟩
    · rw [hhandles, List.map_cons, List.nodup_cons]
      refine ⟨?_, h.once i _ hk⟩
      intro hmem
      obtain ⟨x, hx, hid⟩ := List.mem_map.mp hmem
      have hbound := hids i _ hk x hx
      rw [hid] at hbound
      exact Nat.lt_irrefl _ hbound
    · exact List.nodup_nil
    · exact h.once i a ha
  case held =>
    intro i c hc hlive q hparent
    have hold : ∀ b, s.tasks[i]? = some b → b.isDestroyed = false → b.parent = some q →
        ∃ a, (s.tasks.set t k' ++ [c'])[q]? = some a ∧ i ∈ a.handles.map TaskHandle.id := by
      intro b hb hlive hparent
      obtain ⟨a, ha, hmem⟩ := h.held i b hb hlive q hparent
      by_cases hq : q = t
      · subst hq
        obtain rfl := Option.some.inj (hk.symm.trans ha)
        refine ⟨k', hself, ?_⟩
        rw [hhandles]
        exact List.mem_cons_of_mem _ hmem
      · have hin := (List.getElem?_eq_some_iff.mp ha).1
        exact ⟨a, (hother q hq (by omega)).trans ha, hmem⟩
    rcases hread i c hc with ⟨rfl, rfl⟩ | ⟨rfl, rfl⟩ | ⟨-, -, hc⟩
    · exact hold _ hk rfl hparent
    · obtain rfl := Option.some.inj hparent
      exact ⟨k', hself, List.mem_cons_self⟩
    · exact hold c hc hlive hparent
  case root =>
    obtain ⟨a, ha, hprogram, hparent, hlive⟩ := h.root
    obtain ⟨d, hd, hdprogram, hdparent, hdlive, -⟩ := hkeep 0 a ha
    exact ⟨d, hd, hdprogram.trans hprogram, hdparent.trans hparent, hdlive.trans hlive⟩
  case started =>
    intro i c hc hi
    rcases hread i c hc with ⟨rfl, rfl⟩ | ⟨rfl, rfl⟩ | ⟨-, -, hc⟩
    · have hparent := h.started i _ hk hi
      exact hparent
    · rintro ⟨⟩
    · exact h.started i c hc hi
  case waiting =>
    intro i a ha x hx c hc
    rcases hread i a ha with ⟨rfl, rfl⟩ | ⟨rfl, rfl⟩ | ⟨-, -, ha⟩
    · cases hx
    · cases hx
    · rcases hread x.id c hc with ⟨hid, rfl⟩ | ⟨-, rfl⟩ | ⟨-, -, hc⟩
      · rfl
      · rfl
      · exact h.waiting i a ha x hx c hc

/-- The coroutine of a `Task` in somebody's hand. -/
theorem Linked.of_handle (h : Linked program s) (hk : s.tasks[t]? = some k) {child : TaskHandle V}
    (hmem : child ∈ k.handles) {c : Coroutine V} (hc : s.tasks[child.id]? = some c) :
    t < child.id ∧ c.program = child.program ∧ c.parent = some t ∧ c.isDestroyed = false := by
  obtain ⟨hlt, d, hd, hrest⟩ := h.child t k hk child hmem
  obtain rfl := Option.some.inj (hc.symm.trans hd)
  exact ⟨hlt, hrest⟩

theorem Linked.destroy (h : Linked program s) (hk : s.tasks[t]? = some k)
    (hlive : k.isDestroyed = false) {child : TaskHandle V}
    (hperm : k.handles.Perm (child :: k'.handles))
    (hprogram : k'.program = k.program) (hparent : k'.parent = k.parent)
    (hlive' : k'.isDestroyed = false) {c : Coroutine V} (hc : s.tasks[child.id]? = some c)
    (hover : c.isSuspended = true) (hfaithful : k'.Faithful) (hnotified : k'.notified = k.notified)
    (hregistered : k'.registeredFor = none) :
    Linked program ((s.set child.id { c with activity := .destroyed }).set t k') := by
  have hchild : child ∈ k.handles := hperm.mem_iff.mpr List.mem_cons_self
  obtain ⟨hlt, -, hcparent, -⟩ := h.of_handle hk hchild hc
  have hne : t ≠ child.id := Nat.ne_of_lt hlt
  have hcover : c.isOver = true := by rw [isOver, hover, Bool.true_or]
  have hcfaithful := h.faithful _ c hc
  obtain ⟨d, hd⟩ : ∃ d : Coroutine V, d = { c with activity := .destroyed } := ⟨_, rfl⟩
  have hdfaithful : d.Faithful := by
    obtain ⟨p, parent, activity, result, locals⟩ := c
    unfold isSuspended at hover
    split at hover
    case h_1 hactivity =>
      change activity = _ at hactivity
      subst hactivity
      exact hd ▸ hcfaithful.destroy
    case h_2 => cases hover
  have hdover : d.isOver = true := by
    rw [hd]
    rfl
  have hcempty := hcfaithful.handles_of_over hcover
  have hdempty := hdfaithful.handles_of_over hdover
  rw [← hd]
  have hafter := fun i => getElem?_destroy (i := i) hk hc hne k' d
  have hself : ((s.set child.id d).set t k').tasks[t]? = some k' := by rw [hafter, if_pos rfl]
  have hother : ∀ i, i ≠ t → i ≠ child.id →
      ((s.set child.id d).set t k').tasks[i]? = s.tasks[i]? := by
    intro i hi hid
    rw [hafter, if_neg hi, if_neg hid]
  have hread : ∀ (i : Nat) a, ((s.set child.id d).set t k').tasks[i]? = some a →
      (i = t ∧ a = k') ∨ (i = child.id ∧ a = d) ∨
        (i ≠ t ∧ i ≠ child.id ∧ s.tasks[i]? = some a) := by
    intro i a ha
    rw [hafter] at ha
    exact eq_some_of_changed ha
  have honly : ∀ (i : Nat) a, s.tasks[i]? = some a → ∀ x ∈ a.handles, x.id = child.id → i = t := by
    intro i a ha x hx hid
    obtain ⟨-, -, hxparent, -⟩ := h.of_handle ha hx (hid ▸ hc)
    exact (Option.some.inj (hcparent.symm.trans hxparent)).symm
  have honce : child.id ∉ k'.handles.map TaskHandle.id := by
    have hnodup := (hperm.map TaskHandle.id).nodup_iff.mp (h.once t k hk)
    exact (List.nodup_cons.mp hnodup).1
  have hheld : ∀ x ∈ k'.handles, x ∈ k.handles :=
    fun x hx => hperm.mem_iff.mpr (List.mem_cons_of_mem _ hx)
  have hkeep : ∀ (i : Nat) a, s.tasks[i]? = some a → ∀ x ∈ a.handles, x.id ≠ child.id →
      i < x.id ∧ ∃ b, ((s.set child.id d).set t k').tasks[x.id]? = some b ∧
        b.program = x.program ∧ b.parent = some i ∧ b.isDestroyed = false := by
    intro i a ha x hx hid
    obtain ⟨hxlt, b, hb, hbprogram, hbparent, hblive⟩ := h.child i a ha x hx
    by_cases ht : x.id = t
    · obtain rfl := Option.some.inj (hk.symm.trans (ht ▸ hb))
      rw [ht, hself]
      exact ⟨ht ▸ hxlt, k', rfl, hprogram.trans hbprogram, hparent.trans hbparent, hlive'⟩
    · rw [hother _ ht hid]
      exact ⟨hxlt, b, hb, hbprogram, hbparent, hblive⟩
  refine ⟨?faithful, ?child, ?once, ?held, ?root, ?started, ?waiting⟩
  case faithful =>
    intro i a ha
    rcases hread i a ha with ⟨-, rfl⟩ | ⟨-, rfl⟩ | ⟨-, -, ha⟩
    · exact hfaithful
    · exact hdfaithful
    · exact h.faithful i a ha
  case child =>
    intro i a ha x hx
    rcases hread i a ha with ⟨rfl, rfl⟩ | ⟨-, rfl⟩ | ⟨hi, -, ha⟩
    · refine hkeep i k hk x (hheld x hx) ?_
      intro hid
      exact honce (hid ▸ List.mem_map_of_mem hx)
    · rw [hdempty] at hx
      cases hx
    · exact hkeep i a ha x hx fun hid => hi (honly i a ha x hx hid)
  case once =>
    intro i a ha
    rcases hread i a ha with ⟨rfl, rfl⟩ | ⟨-, rfl⟩ | ⟨-, -, ha⟩
    · exact (List.nodup_cons.mp ((hperm.map TaskHandle.id).nodup_iff.mp (h.once i k hk))).2
    · rw [hdempty]
      exact List.nodup_nil
    · exact h.once i a ha
  case held =>
    intro i b hb hblive q hq
    have hold : ∀ a, s.tasks[i]? = some a → i ≠ child.id → a.isDestroyed = false →
        a.parent = some q → ∃ a', ((s.set child.id d).set t k').tasks[q]? = some a' ∧
          i ∈ a'.handles.map TaskHandle.id := by
      intro a ha hi halive haparent
      obtain ⟨e, he, hmem⟩ := h.held i a ha halive q haparent
      by_cases hqt : q = t
      · subst hqt
        obtain rfl := Option.some.inj (hk.symm.trans he)
        refine ⟨k', hself, ?_⟩
        rcases List.mem_cons.mp ((hperm.map TaskHandle.id).mem_iff.mp hmem) with heq | hmem
        · exact absurd heq hi
        · exact hmem
      · by_cases hqc : q = child.id
        · subst hqc
          obtain rfl := Option.some.inj (hc.symm.trans he)
          rw [hcempty] at hmem
          cases hmem
        · exact ⟨e, (hother q hqt hqc).trans he, hmem⟩
    rcases hread i b hb with ⟨rfl, rfl⟩ | ⟨-, rfl⟩ | ⟨-, hi, hb⟩
    · exact hold k hk hne hlive (hparent.symm.trans hq)
    · rw [hd] at hblive
      cases hblive
    · exact hold b hb hi hblive hq
  case root =>
    obtain ⟨a, ha, haprogram, haparent, halive⟩ := h.root
    by_cases ht : 0 = t
    · subst ht
      obtain rfl := Option.some.inj (hk.symm.trans ha)
      exact ⟨k', hself, hprogram.trans haprogram, hparent.trans haparent, hlive'⟩
    · have hid : 0 ≠ child.id := Nat.ne_of_lt (Nat.zero_lt_of_lt hlt)
      exact ⟨a, (hother 0 ht hid).trans ha, haprogram, haparent, halive⟩
  case started =>
    intro i b hb hi
    rcases hread i b hb with ⟨rfl, rfl⟩ | ⟨rfl, rfl⟩ | ⟨-, -, hb⟩
    · rw [hparent]
      exact h.started i k hk hi
    · rw [hd]
      show c.parent ≠ none
      rw [hcparent]
      exact Option.some_ne_none t
    · exact h.started i b hb hi
  case waiting =>
    intro i a ha x hx b hb
    rcases hread i a ha with ⟨-, rfl⟩ | ⟨-, rfl⟩ | ⟨-, -, hbefore⟩
    · rw [hregistered] at hx
      cases hx
    · rw [hd] at hx
      cases hx
    · rcases hread x.id b hb with ⟨hid, rfl⟩ | ⟨hid, rfl⟩ | ⟨-, -, hb⟩
      · rw [hnotified]
        exact h.waiting i a hbefore x hx k (hid ▸ hk)
      · -- a callback on a coroutine at its end has been called
        have hnot := h.waiting i a hbefore x hx c (hid ▸ hc)
        rw [notified_of_suspended hover] at hnot
        cases hnot
      · exact h.waiting i a hbefore x hx b hb

/-! ## A calm program -/

/-- Where the whole program is calm, every coroutine that is not destroyed is, and its starter can
use it. -/
theorem Linked.calm (h : Linked program s) (hcalm : program.Calm []) {i : Nat} {c : Coroutine V}
    (hc : s.tasks[i]? = some c) (hlive : c.isDestroyed = false) :
    c.program.Calm [] ∧ (i ≠ 0 → c.program.Good) := by
  induction i using Nat.strongRecOn generalizing c with
  | _ i ih =>
      by_cases hi : i = 0
      · subst hi
        obtain ⟨a, ha, haprogram, -⟩ := h.root
        obtain rfl := Option.some.inj (hc.symm.trans ha)
        rw [haprogram]
        exact ⟨hcalm, fun hne => absurd rfl hne⟩
      · obtain ⟨q, hq⟩ := Option.ne_none_iff_exists'.mp (h.started i c hc hi)
        obtain ⟨a, ha, hmem⟩ := h.held i c hc hlive q hq
        obtain ⟨x, hx, rfl⟩ := List.mem_map.mp hmem
        obtain ⟨hlt, hprogram, -⟩ := h.of_handle ha hx hc
        have halive : a.isDestroyed = false := by
          rw [← Bool.not_eq_true]
          intro hdestroyed
          have hover : a.isOver = true := by rw [isOver, hdestroyed, Bool.or_true]
          rw [(h.faithful q a ha).handles_of_over hover] at hx
          cases hx
        have hgood := ((h.faithful q a ha).calm.mp (ih q hlt ha halive).1).2 x hx
        rw [hprogram]
        exact ⟨hgood.1, fun _ => hgood⟩

/-- The `Task`s that a calm program holds give values. -/
theorem Linked.calm_handle (h : Linked program s) (hcalm : program.Calm [])
    (hk : s.tasks[t]? = some k) {child : TaskHandle V} (hmem : child ∈ k.handles) :
    ∃ v, child.program.eval [] = .normal v := by
  obtain ⟨hlt, c, hc, hprogram, -, hlive⟩ := h.child t k hk child hmem
  have hgood := (h.calm hcalm hc hlive).2 (Nat.ne_of_gt (Nat.zero_lt_of_lt hlt))
  rw [hprogram] at hgood
  exact hgood.2

/-- What `get_result` gives. -/
theorem Linked.result (h : Linked program s) (hk : s.tasks[t]? = some k) {child : TaskHandle V}
    (hmem : child ∈ k.handles) {c : Coroutine V} (hc : s.tasks[child.id]? = some c)
    {r : Result V} (hr : c.resultFree = some r) : r.getResult = child.program.eval [] := by
  obtain ⟨-, hprogram, -⟩ := h.of_handle hk hmem hc
  rw [← hprogram]
  refine (h.faithful _ c hc).result r ?_
  rw [resultFree] at hr
  split at hr
  · cases hr
  · exact hr

/-- A coroutine at its end that its holder can destroy. -/
theorem Linked.good (h : Linked program s) (hk : s.tasks[t]? = some k) {child : TaskHandle V}
    (hdropped : k.dropped = some child) {c : Coroutine V} (hc : s.tasks[child.id]? = some c)
    (hover : c.isSuspended = true) : child.program.Good := by
  have hmem : child ∈ k.handles := by
    rw [handles, inHand_of_dropped hdropped]
    exact List.mem_cons_self
  obtain ⟨-, hprogram, -⟩ := h.of_handle hk hmem hc
  have hcalm := (h.faithful _ c hc).calm_of_over (by rw [isOver, hover, Bool.true_or])
  rw [hprogram] at hcalm
  exact ⟨hcalm, (h.faithful t k hk).dropped child hdropped⟩

/-! ## What a step does -/

inductive Effect (program : Program V) (s : ProgramState V) (t : Nat) (k : Coroutine V) :
    ProgramState V → Prop where
  | goesOn {k' : Coroutine V} (hfollows : Follows k k') (hfaithful : k'.Faithful)
      (hnotified : k'.notified = true → k.notified = true)
      (hwaiting : ∀ x ∈ k'.registeredFor, ∀ c, s.tasks[x.id]? = some c → c.notified = false)
      (hleft : k'.left < k.left) : Effect program s t k (s.set t k')
  | notifies {p : Program V} {parent : Option Nat} {result : Option (Result V)}
      {locals : List (Option (TaskHandle V))}
      (hk : k = ⟨p, parent, .publishing false, result, locals⟩) :
      Effect program s t k { s with tasks :=
        (s.set t ⟨p, parent, .publishing true, result, locals⟩).tasks.map (callBack t) }
  | starts {p inner rest : Program V} {parent : Option Nat} {result : Option (Result V)}
      {locals : List (Option (TaskHandle V))}
      (hk : k = ⟨p, parent, .ready (.start inner rest), result, locals⟩) :
      Effect program s t k (s.go t k (.start inner rest))
  | destroys {k' c : Coroutine V} {child : TaskHandle V} (hlive : k.isDestroyed = false)
      (hperm : k.handles.Perm (child :: k'.handles)) (hprogram : k'.program = k.program)
      (hparent : k'.parent = k.parent) (hlive' : k'.isDestroyed = false)
      (hc : s.tasks[child.id]? = some c) (hover : c.isSuspended = true)
      (hfaithful : k'.Faithful) (hnotified : k'.notified = k.notified)
      (hregistered : k'.registeredFor = none) (hleft : k'.left < k.left) :
      Effect program s t k ((s.set child.id { c with activity := .destroyed }).set t k')
  | ends {fate : ProgramFate} (hfate : fate ≠ .running) (hnot : ¬ program.Calm []) :
      Effect program s t k { s with fate := fate }

/-- `~Task` ends a program only when it is not calm. -/
theorem effect_destroyTask (h : Linked program s) (hk : s.tasks[t]? = some k)
    {child : TaskHandle V} (hmem : child ∈ k.handles) {c : Coroutine V}
    (hc : s.tasks[child.id]? = some c) {r : Result V} (hr : c.resultFree = some r)
    (hfollows : Follows k k') (hnotified : k'.notified = true → k.notified = true)
    (hregistered : k'.registeredFor = none) (hleft : k'.left < k.left)
    (hfaithful : (∃ v, child.program.eval [] = .normal v) → k'.Faithful) :
    Effect program s t k (s.destroyTask t r k') := by
  have hresult := h.result hk hmem hc hr
  rw [ProgramState.destroyTask]
  rcases r.destroyTask_cases with ⟨hdestroy, v, hv⟩ | ⟨hdestroy, e, he⟩
  · rw [hdestroy]
    refine .goesOn hfollows (hfaithful ⟨v, hresult.symm.trans hv⟩) hnotified ?_ hleft
    rw [hregistered]
    rintro x ⟨⟩
  · rw [hdestroy]
    refine .ends (by rintro ⟨⟩) ?_
    intro hcalm
    obtain ⟨v, hv⟩ := h.calm_handle hcalm hk hmem
    rw [hresult, hv] at he
    cases he

theorem effect_go (h : Linked program s) (hk : s.tasks[t]? = some k) {p : Program V}
    (hactivity : k.activity = .ready p) : Effect program s t k (s.go t k p) := by
  obtain ⟨q, parent, activity, result, locals⟩ := k
  change activity = _ at hactivity
  subst hactivity
  have hfaithful := h.faithful t _ hk
  cases p with
  | coReturn v =>
      refine .goesOn ⟨rfl, rfl, .refl _, rfl⟩ hfaithful.coReturn (by rintro ⟨⟩) (by rintro x ⟨⟩) ?_
      show 3 + 2 * locals.length < 4 + 2 * locals.length
      omega
  | throws e =>
      refine .goesOn ⟨rfl, rfl, .refl _, rfl⟩ hfaithful.throws (by rintro ⟨⟩) (by rintro x ⟨⟩) ?_
      show 4 + 0 + 2 * locals.length < 5 + 2 * locals.length
      omega
  | start inner rest => exact .starts rfl
  | coAwait i onValue onThrow =>
      rw [go]
      split
      case h_1 child hi =>
        change locals[i]? = some (some child) at hi
        refine .goesOn ⟨rfl, rfl, filterMap_set_none hi, rfl⟩ (hfaithful.coAwait hi)
          (by rintro ⟨⟩) (by rintro x ⟨⟩) ?_
        have hread : (locals.map (Option.map fun c => c.program.eval []))[i]? =
            some (some (child.program.eval [])) := by
          rw [List.getElem?_map, hi]
          rfl
        have hcost := @Program.cost_coAwait V _ _ i onValue onThrow hread
        show 4 + Program.costAfter _ _ _ ((locals.set i none).map _) +
          2 * (locals.set i none).length < Program.cost _ (locals.map _) + 2 * locals.length
        rw [List.map_set, List.length_set, ← hcost]
        show 4 + Program.costAfter _ _ _ ((locals.map _).set i none) + _ < _
        omega
      case h_2 hno =>
        refine .ends (by rintro ⟨⟩) ?_
        intro hcalm
        have hbody := (hfaithful.calm.mp (h.calm hcalm hk rfl).1).1
        obtain ⟨v, hv⟩ := Program.Calm.coAwait hbody
        change (locals.map _)[i]? = _ at hv
        rw [List.getElem?_map] at hv
        obtain ⟨l, hl, hlv⟩ := Option.map_eq_some_iff.mp hv
        obtain ⟨child, rfl, -⟩ := Option.map_eq_some_iff.mp hlv
        exact hno child hl

theorem effect_act [Inhabited V] (h : Linked program s) (hk : s.tasks[t]? = some k) {m : Move}
    (horderly : Orderly s (t, m)) (hact : s.act t k m = some s') : Effect program s t k s' := by
  have hfaithful := h.faithful t k hk
  obtain ⟨p, parent, activity, result, locals⟩ := k
  cases m with
  | go =>
      dsimp only [act] at hact
      split at hact
      case h_1 q =>
        obtain rfl := Option.some.inj hact
        exact effect_go h hk rfl
      case h_2 => cases hact
  | afterSuspend =>
      dsimp only [act] at hact
      split at hact
      case h_1 child onValue onThrow =>
        obtain ⟨c, hc, hact⟩ := Option.bind_eq_some_iff.mp hact
        obtain ⟨hfree, hact⟩ := Option.ite_none_left_eq_some.mp hact
        obtain rfl := Option.some.inj hact
        refine .goesOn ⟨rfl, rfl, .refl _, rfl⟩ (hfaithful.phase _) (by rintro ⟨⟩) ?_ ?_
        · -- the callback is registered only while there is no result
          intro x hx c' hc'
          cases hresult : c.result.isSome with
          | true =>
              rw [hresult] at hx
              cases hx
          | false =>
              rw [hresult] at hx
              obtain rfl := Option.some.inj hx
              obtain rfl := Option.some.inj (hc.symm.trans hc')
              have hpublished := (h.faithful _ c hc).published
              rw [hresult] at hpublished
              rw [← Bool.not_eq_true]
              intro hcalled
              rw [published_of_notified hcalled] at hpublished
              cases hpublished
        · have hphase : (if c.result.isSome then AwaitPhase.dispatched else .registered) ≠
              .leaving := by
            split
            · decide
            · decide
          show (if _ = AwaitPhase.leaving then 4 else 3) +
            Program.costAfter _ _ _ (locals.map _) + 2 * locals.length <
              4 + Program.costAfter _ _ _ (locals.map _) + 2 * locals.length
          rw [if_neg hphase]
          omega
      case h_2 => cases hact
  | notify =>
      dsimp only [act] at hact
      split at hact
      case h_1 =>
        obtain rfl := Option.some.inj hact
        exact .notifies rfl
      case h_2 => cases hact
  | release =>
      dsimp only [act] at hact
      split at hact
      case h_1 =>
        obtain rfl := Option.some.inj hact
        refine .goesOn ⟨rfl, rfl, .refl _, rfl⟩ hfaithful.release (fun _ => rfl)
          (by rintro x ⟨⟩) ?_
        show 1 + 0 + 2 * locals.length < 2 + 2 * locals.length
        omega
      case h_2 => cases hact
  | resume =>
      dsimp only [act] at hact
      split at hact
      case h_1 child onValue onThrow =>
        obtain ⟨c, hc, hact⟩ := Option.bind_eq_some_iff.mp hact
        obtain ⟨r, hr, rfl⟩ := Option.map_eq_some_iff.mp hact
        have hresult := h.result hk (List.mem_cons_self) hc hr
        rw [Result.awaitResume_eq]
        refine .goesOn ⟨rfl, rfl, .refl _, rfl⟩ (hfaithful.resume hresult) (by rintro ⟨⟩)
          (by rintro x ⟨⟩) ?_
        show 2 + Program.costAfter _ _ _ (locals.map _) + 2 * locals.length <
          3 + Program.costAfter _ _ _ (locals.map _) + 2 * locals.length
        omega
      case h_2 => cases hact
  | drop =>
      dsimp only [act] at hact
      split at hact
      case h_1 child value onValue onThrow =>
        obtain ⟨c, hc, hact⟩ := Option.bind_eq_some_iff.mp hact
        obtain ⟨r, hr, rfl⟩ := Option.map_eq_some_iff.mp hact
        refine effect_destroyTask h hk List.mem_cons_self hc hr ⟨rfl, rfl, .refl _, rfl⟩
          (by rintro ⟨⟩) rfl ?_ hfaithful.dropAwaiter
        show 1 + Program.costAfter _ _ _ (locals.map _) + 2 * locals.length <
          2 + Program.costAfter _ _ _ (locals.map _) + 2 * locals.length
        omega
      case h_2 inFlight ls =>
        obtain rfl := Option.some.inj hact
        refine .goesOn ⟨rfl, rfl, .refl _, rfl⟩ hfaithful.closeMoved ?_ (by rintro x ⟨⟩) ?_
        · cases inFlight <;> exact id
        · show _ + 0 + 2 * ls.length < _ + 0 + 2 * (ls.length + 1)
          omega
      case h_3 inFlight child ls =>
        obtain ⟨c, hc, hact⟩ := Option.bind_eq_some_iff.mp hact
        obtain ⟨r, hr, rfl⟩ := Option.map_eq_some_iff.mp hact
        refine effect_destroyTask h hk List.mem_cons_self hc hr ⟨rfl, rfl, .refl _, rfl⟩ ?_ rfl ?_
          hfaithful.dropLocal
        · cases inFlight <;> exact id
        · show _ + 1 + 2 * ls.length < _ + 0 + 2 * (ls.length + 1)
          omega
      case h_4 => cases hact
  | destroy =>
      dsimp only [act] at hact
      split at hact
      case h_1 child v onValue onThrow =>
        obtain ⟨c, hc, rfl⟩ := Option.map_eq_some_iff.mp hact
        have hover : c.isSuspended = true := horderly _ hk child rfl c hc
        have hgood := h.good hk rfl hc hover
        rw [if_pos hover]
        refine .destroys rfl (.refl _) rfl rfl rfl hc hover (hfaithful.resumed hgood) rfl rfl ?_
        have hgiven : Flow.normal v = child.program.eval [] := hfaithful.given _ rfl
        show (onValue v).cost (locals.map _) + 2 * locals.length <
          1 + Program.costAfter (child.program.eval []) _ _ (locals.map _) + 2 * locals.length
        rw [← hgiven]
        show _ < 1 + (onValue v).cost (locals.map _) + 2 * locals.length
        omega
      case h_2 child e onValue onThrow =>
        exact hfaithful.not_thrown.elim
      case h_3 inFlight child =>
        obtain ⟨c, hc, rfl⟩ := Option.map_eq_some_iff.mp hact
        have hdropped : Coroutine.dropped ⟨p, parent, .closing inFlight (some child), result,
            locals⟩ = some child := rfl
        have hover : c.isSuspended = true := horderly _ hk child hdropped c hc
        have hgood := h.good hk hdropped hc hover
        rw [if_pos hover]
        refine .destroys rfl (.refl _) rfl rfl rfl hc hover (hfaithful.closed hgood) ?_ rfl ?_
        · cases inFlight <;> rfl
        · show _ + 0 + 2 * locals.length < _ + 1 + 2 * locals.length
          omega
      case h_4 => cases hact
  | publish =>
      dsimp only [act] at hact
      split at hact
      case h_1 e =>
        obtain rfl := Option.some.inj hact
        refine .goesOn ⟨rfl, rfl, .refl _, rfl⟩ hfaithful.publish (by rintro ⟨⟩)
          (by rintro x ⟨⟩) ?_
        show 3 + 0 < 4 + 0 + 0
        decide
      case h_2 => cases hact
  | finalSuspend =>
      dsimp only [act] at hact
      split at hact
      case h_1 =>
        obtain rfl := Option.some.inj hact
        refine .goesOn ⟨rfl, rfl, .refl _, rfl⟩ hfaithful.finalSuspend (fun _ => rfl)
          (by rintro x ⟨⟩) ?_
        show 0 < 1 + 0 + 0
        decide
      case h_2 => cases hact
  | spuriousWake => exact horderly.elim

/-! ## Runs -/

def budget (s : ProgramState V) : Nat :=
  (s.tasks.map Coroutine.left).sum + if s.fate = .running then 1 else 0

theorem Effect.linked (heffect : Effect program s t k s') (h : Linked program s)
    (hk : s.tasks[t]? = some k) : Linked program s' := by
  cases heffect with
  | goesOn hfollows hfaithful hnotified hwaiting _ =>
      exact h.set hk hfollows hfaithful hnotified hwaiting
  | notifies heq =>
      subst heq
      exact h.notify hk
  | starts heq =>
      subst heq
      exact h.start hk
  | destroys hlive hperm hprogram hparent hlive' hc hover hfaithful hnotified hregistered _ =>
      exact h.destroy hk hlive hperm hprogram hparent hlive' hc hover hfaithful hnotified
        hregistered
  | ends _ _ =>
      exact ⟨h.faithful, h.child, h.once, h.held, h.root, h.started, h.waiting⟩

theorem Effect.calm (heffect : Effect program s t k s') (hcalm : program.Calm []) :
    s'.fate = s.fate := by
  cases heffect with
  | goesOn _ _ _ _ _ => rfl
  | notifies _ => rfl
  | starts _ => rfl
  | destroys _ _ _ _ _ _ _ _ _ _ _ => rfl
  | ends _ hnot => exact absurd hcalm hnot

theorem Effect.budget (heffect : Effect program s t k s') (hk : s.tasks[t]? = some k)
    (hrunning : s.fate = .running) : s'.budget < s.budget := by
  unfold ProgramState.budget
  cases heffect with
  | @goesOn k' _ _ _ _ hleft =>
      have hsum := Machine.sum_map_set Coroutine.left hk k'
      show ((s.tasks.set t k').map Coroutine.left).sum + (if s.fate = .running then 1 else 0) < _
      omega
  | @notifies p parent result locals heq =>
      subst heq
      have hsum := Machine.sum_map_set Coroutine.left hk
        ⟨p, parent, .publishing true, result, locals⟩
      have hcalled : ∀ tasks : List (Coroutine V),
          (tasks.map (callBack t)).map Coroutine.left = tasks.map Coroutine.left := by
        intro tasks
        rw [List.map_map]
        exact List.map_congr_left fun a _ => (callsBack t a).left
      show (((s.tasks.set t _).map (callBack t)).map Coroutine.left).sum +
        (if s.fate = .running then 1 else 0) < _
      rw [hcalled]
      change _ + (3 + 2 * locals.length) = _ + (2 + 2 * locals.length) at hsum
      omega
  | @starts p inner rest parent result locals heq =>
      subst heq
      let k' : Coroutine V :=
        ⟨p, parent, .ready rest, result, some ⟨s.tasks.length, inner⟩ :: locals⟩
      have hsum := Machine.sum_map_set Coroutine.left hk k'
      show ((s.tasks.set t k' ++ [_]).map Coroutine.left).sum +
        (if s.fate = .running then 1 else 0) < _
      rw [List.map_append, List.sum_append, List.map_singleton, List.sum_singleton]
      show _ + (inner.cost [] + 2 * 0) + _ < _
      change _ + (3 + inner.cost [] + rest.cost (some (inner.eval []) :: locals.map _) +
        2 * locals.length) = _ + (rest.cost (some (inner.eval []) :: locals.map _) +
        2 * (locals.length + 1)) at hsum
      omega
  | @destroys k' c child _ _ _ _ _ hc hover _ _ _ hleft =>
      have hcleft : c.left = 0 := left_of_over (by rw [isOver, hover, Bool.true_or])
      have hchild := Machine.sum_map_set Coroutine.left hc { c with activity := .destroyed }
      by_cases ht : t = child.id
      · subst ht
        obtain rfl := Option.some.inj (hk.symm.trans hc)
        rw [hcleft] at hleft
        exact absurd hleft (Nat.not_lt_zero _)
      · have hk₁ : (s.tasks.set child.id { c with activity := .destroyed })[t]? = some k := by
          rw [List.getElem?_set_ne (Ne.symm ht)]
          exact hk
        have hsum := Machine.sum_map_set Coroutine.left hk₁ k'
        show (((s.tasks.set child.id _).set t k').map Coroutine.left).sum +
          (if s.fate = .running then 1 else 0) < _
        change _ + c.left = _ + 0 at hchild
        omega
  | @ends fate hfate _ =>
      show (s.tasks.map Coroutine.left).sum + (if fate = .running then 1 else 0) < _
      rw [if_neg hfate, if_pos hrunning]
      omega

variable [Inhabited V]

theorem step_effect (h : Linked program s) {l : Nat × Move} (horderly : Orderly s l)
    (hstep : s.step l = some s') :
    s.fate = .running ∧ ∃ k, s.tasks[l.1]? = some k ∧ Effect program s l.1 k s' := by
  unfold step at hstep
  obtain ⟨hrunning, hstep⟩ := Option.ite_none_right_eq_some.mp hstep
  obtain ⟨k, hk, hact⟩ := Option.bind_eq_some_iff.mp hstep
  exact ⟨hrunning, k, hk, effect_act h hk horderly hact⟩

omit [Inhabited V] in
theorem linked_init (program : Program V) :
    Linked program { tasks := [{ program := program, activity := .ready program }] } := by
  have hread : ∀ (i : Nat) (k : Coroutine V),
      [({ program := program, activity := .ready program } : Coroutine V)][i]? = some k →
        i = 0 ∧ k = { program := program, activity := .ready program } := by
    intro i k hk
    cases i with
    | zero => exact ⟨rfl, (Option.some.inj hk).symm⟩
    | succ i => cases hk
  refine ⟨?_, ?_, ?_, ?_, ⟨_, rfl, rfl, rfl, rfl⟩, ?_, ?_⟩
  · intro t k hk
    obtain ⟨-, rfl⟩ := hread t k hk
    exact ⟨rfl, (and_iff_left fun x hx => nomatch hx).symm, by rintro r ⟨⟩, rfl, by rintro x ⟨⟩,
      by rintro x ⟨⟩, by rintro ⟨⟩⟩
  · intro t k hk x hx
    obtain ⟨-, rfl⟩ := hread t k hk
    cases hx
  · intro t k hk
    obtain ⟨-, rfl⟩ := hread t k hk
    exact List.nodup_nil
  · intro i c hc _ t hparent
    obtain ⟨-, rfl⟩ := hread i c hc
    cases hparent
  · intro i c hc hi
    exact absurd (hread i c hc).1 hi
  · intro t k hk x hx
    obtain ⟨-, rfl⟩ := hread t k hk
    cases hx

/-! ## To the end -/

omit [Inhabited V] in
/-- No coroutine outlives the one that started it. -/
theorem Linked.none_outlives (h : Linked program s) (hfinished : s.Finished) {i : Nat}
    {c : Coroutine V} (hc : s.tasks[i]? = some c) (hi : i ≠ 0) : c.isDestroyed = true := by
  obtain ⟨-, a, ha, hsuspended⟩ := hfinished
  induction i using Nat.strongRecOn generalizing c with
  | _ i ih =>
      by_contra hlive
      rw [Bool.not_eq_true] at hlive
      obtain ⟨q, hq⟩ := Option.ne_none_iff_exists'.mp (h.started i c hc hi)
      obtain ⟨b, hb, hmem⟩ := h.held i c hc hlive q hq
      obtain ⟨x, hx, rfl⟩ := List.mem_map.mp hmem
      obtain ⟨hlt, -⟩ := h.of_handle hb hx hc
      have hover : b.isOver = true := by
        by_cases hq0 : q = 0
        · subst hq0
          obtain rfl := Option.some.inj (ha.symm.trans hb)
          rw [isOver, hsuspended, Bool.true_or]
        · rw [isOver, ih q hlt hb hq0, Bool.or_true]
      rw [(h.faithful q b hb).handles_of_over hover] at hx
      cases hx

omit [Inhabited V] in
/-- The youngest coroutine that is not at its end. -/
theorem Linked.exists_youngest (h : Linked program s) (hrunning : s.fate = .running)
    (hnot : ¬ s.Finished) : ∃ (t : Nat) (k : Coroutine V), s.tasks[t]? = some k ∧
      k.isOver = false ∧ ∀ (i : Nat) c, t < i → s.tasks[i]? = some c → c.isOver = true := by
  classical
  let P : Nat → Prop := fun i => ∃ k, s.tasks[i]? = some k ∧ k.isOver = false
  have hroot : P 0 := by
    obtain ⟨a, ha, -, -, hlive⟩ := h.root
    refine ⟨a, ha, ?_⟩
    rw [isOver, hlive, Bool.or_false, ← Bool.not_eq_true]
    exact fun hsuspended => hnot ⟨hrunning, a, ha, hsuspended⟩
  obtain ⟨k, hk, hover⟩ := Nat.findGreatest_spec (P := P) (Nat.zero_le s.tasks.length) hroot
  refine ⟨_, k, hk, hover, ?_⟩
  intro i c hi hc
  by_contra hnotover
  rw [Bool.not_eq_true] at hnotover
  have hle : i ≤ s.tasks.length := Nat.le_of_lt (List.getElem?_eq_some_iff.mp hc).1
  exact Nat.findGreatest_is_greatest hi hle ⟨c, hc, hnotover⟩

/-- The youngest coroutine that is not at its end can always go on: all that it could wait for are
at theirs. -/
theorem Linked.progress (h : Linked program s) (hrunning : s.fate = .running)
    (hnot : ¬ s.Finished) : ∃ l s', s.step l = some s' ∧ Orderly s l := by
  obtain ⟨t, k, hk, hover, hyoungest⟩ := h.exists_youngest hrunning hnot
  have hfaithful := h.faithful t k hk
  have hstep : ∀ m, (s.act t k m).isSome = true → Orderly s (t, m) →
      ∃ l s', s.step l = some s' ∧ Orderly s l := by
    intro m hact horderly
    obtain ⟨s', hs'⟩ := Option.isSome_iff_exists.mp hact
    refine ⟨(t, m), s', ?_, horderly⟩
    rw [step, if_pos hrunning, hk]
    exact hs'
  have hchild : ∀ child ∈ k.handles, ∃ c, s.tasks[child.id]? = some c ∧ c.isSuspended = true ∧
      c.locked = false ∧ c.result.isSome = true ∧ ∃ r, c.resultFree = some r := by
    intro child hmem
    obtain ⟨hlt, c, hc, -, -, hlive⟩ := h.child t k hk child hmem
    have hsuspended := hyoungest child.id c hlt hc
    rw [isOver, hlive, Bool.or_false] at hsuspended
    exact ⟨c, hc, hsuspended, (h.faithful _ c hc).free_of_suspended hsuspended⟩
  have hdestroy : ∀ child ∈ k.dropped, Orderly s (t, .destroy) := by
    rintro child hdropped a ha child' hdropped' c hc
    obtain rfl := Option.some.inj (hk.symm.trans ha)
    have hmem : child' ∈ k.handles := by
      rw [handles, inHand_of_dropped hdropped']
      exact List.mem_cons_self
    obtain ⟨c', hc', hsuspended, -⟩ := hchild child' hmem
    obtain rfl := Option.some.inj (hc.symm.trans hc')
    exact hsuspended
  have hwaiting := h.waiting t k hk
  obtain ⟨p, parent, activity, result, locals⟩ := k
  cases activity with
  | ready q => exact hstep .go rfl trivial
  | awaiting phase child onValue onThrow =>
      obtain ⟨c, hc, hsuspended, hlocked, -, r, hr⟩ := hchild child List.mem_cons_self
      cases phase with
      | leaving =>
          exact hstep .afterSuspend (by simp [act, hc, hlocked]) trivial
      | registered =>
          have hnotified := hwaiting child rfl c hc
          rw [notified_of_suspended hsuspended] at hnotified
          cases hnotified
      | dispatched =>
          exact hstep .resume (by simp [act, hc, hr]) trivial
  | ending child x dropped onValue onThrow =>
      obtain ⟨c, hc, hsuspended, hlocked, -, r, hr⟩ := hchild child List.mem_cons_self
      cases dropped with
      | false =>
          exact hstep .drop (by simp [act, hc, hr]) trivial
      | true =>
          obtain ⟨v, hv⟩ := hfaithful.dropped child rfl
          obtain rfl : x = .normal v := (hfaithful.given _ rfl).trans hv
          exact hstep .destroy (by simp [act, destroyChild, hc]) (hdestroy child rfl)
  | closing inFlight dropped =>
      cases dropped with
      | some child =>
          obtain ⟨c, hc, -⟩ := hchild child List.mem_cons_self
          exact hstep .destroy (by simp [act, destroyChild, hc]) (hdestroy child rfl)
      | none =>
          cases locals with
          | nil =>
              cases inFlight with
              | none => exact hstep .finalSuspend rfl trivial
              | some e => exact hstep .publish rfl trivial
          | cons l locals =>
              cases l with
              | none => exact hstep .drop rfl trivial
              | some child =>
                  obtain ⟨c, hc, -, -, -, r, hr⟩ := hchild child List.mem_cons_self
                  exact hstep .drop (by simp [act, hc, hr]) trivial
  | publishing notified =>
      cases notified with
      | false => exact hstep .notify rfl trivial
      | true => exact hstep .release rfl trivial
  | suspended => cases hover
  | destroyed => cases hover

omit [Inhabited V] in
/-- A program that is finished has the result that it reads as, and nothing is left of it. -/
theorem Linked.finished (h : Linked program s) (hfinished : s.Finished) :
    program.Calm [] ∧
      (∃ k r, s.tasks[0]? = some k ∧ k.result = some r ∧ r.getResult = program.eval []) ∧
      ∀ (i : Nat) c, s.tasks[i]? = some c → i ≠ 0 → c.isDestroyed = true := by
  obtain ⟨-, k, hk, hsuspended⟩ := id hfinished
  obtain ⟨a, ha, haprogram, -⟩ := h.root
  obtain rfl := Option.some.inj (hk.symm.trans ha)
  have hfaithful := h.faithful 0 k hk
  obtain ⟨-, hsome, -⟩ := hfaithful.free_of_suspended hsuspended
  obtain ⟨r, hr⟩ := Option.isSome_iff_exists.mp hsome
  refine ⟨?_, ⟨k, r, hk, hr, ?_⟩, fun i c hc hi => h.none_outlives hfinished hc hi⟩
  · rw [← haprogram]
    exact hfaithful.calm_of_over (by rw [isOver, hsuspended, Bool.true_or])
  · rw [← haprogram]
    exact hfaithful.result r hr

/-- **Programs of coroutines run as written.** In every order of steps in which a coroutine is
destroyed only at its final suspension point and no wait ends without cause: a calm program is never
ended, no run is longer than its cost, a run that is neither ended nor finished can go on, and one
that is finished has a calm program, the result that the body reads as, and no coroutine left. -/
theorem runs_as_written {ls : List (Nat × Move)} (hrun : (machine program).Runs ls s)
    (horderly : (machine program).Meets Orderly (machine program).init ls) :
    (program.Calm [] → s.fate = .running) ∧
    ls.length ≤ program.cost [] + 1 ∧
    (s.fate = .running → ¬ s.Finished → ∃ l s', s.step l = some s' ∧ Orderly s l) ∧
    (s.Finished → program.Calm [] ∧
      (∃ k r, s.tasks[0]? = some k ∧ k.result = some r ∧ r.getResult = program.eval []) ∧
      ∀ (i : Nat) c, s.tasks[i]? = some c → i ≠ 0 → c.isDestroyed = true) := by
  have hlinked : Linked program s := by
    refine hrun.guarded (linked_init program) ?_ horderly
    intro a l a' ha hl hstep
    obtain ⟨-, k, hk, heffect⟩ := step_effect ha hl hstep
    exact heffect.linked ha hk
  refine ⟨?_, ?_, ?_, ?_⟩
  · intro hcalm
    refine (hrun.guarded (I := fun a => Linked program a ∧ a.fate = .running)
      ⟨linked_init program, rfl⟩ ?_ horderly).2
    rintro a l a' ⟨ha, hrunning⟩ hl hstep
    obtain ⟨-, k, hk, heffect⟩ := step_effect ha hl hstep
    exact ⟨heffect.linked ha hk, (heffect.calm hcalm).trans hrunning⟩
  · have hlength := hrun.guarded_length (I := Linked program) budget (linked_init program) (by
      intro a l a' ha hl hstep
      obtain ⟨hrunning, k, hk, heffect⟩ := step_effect ha hl hstep
      exact ⟨heffect.linked ha hk, heffect.budget hk hrunning⟩) horderly
    have hinit : (machine program).init.budget = program.cost [] + 1 := rfl
    omega
  · exact fun hrunning hnot => hlinked.progress hrunning hnot
  · exact fun hfinished => hlinked.finished hfinished

/-- Two coroutines are started and awaited in the order of their start; the second is done first. -/
def sumOfTwo : Program Nat :=
  .start (.coReturn 3) (.start (.coReturn 4)
    (.coAwait 1 (fun a => .coAwait 0 (fun b => .coReturn (a + b)) .throws) .throws))

def secondFirst : List (Nat × Move) :=
  [(0, .go), (0, .go), (2, .go), (1, .go), (0, .go), (1, .notify), (1, .release),
    (0, .afterSuspend), (2, .notify), (1, .finalSuspend), (0, .resume), (0, .drop), (0, .destroy),
    (2, .release), (0, .go), (0, .afterSuspend), (2, .finalSuspend), (0, .resume), (0, .drop),
    (0, .destroy), (0, .go), (0, .notify), (0, .release), (0, .drop), (0, .drop),
    (0, .finalSuspend)]

theorem runs_as_written_run :
    ∃ s : ProgramState Nat, (machine sumOfTwo).Runs secondFirst s ∧ s.Finished ∧
      ∃ k r, s.tasks[0]? = some k ∧ k.result = some r ∧ r.getResult = .normal 7 := by
  have hend : ((machine sumOfTwo).runFrom (machine sumOfTwo).init secondFirst).map
      (fun s => (s.fate, (s.tasks[0]?).map Coroutine.isSuspended)) =
      some (.running, some true) := by
    decide +kernel
  obtain ⟨s, hrun, hs⟩ := Option.map_eq_some_iff.mp hend
  obtain ⟨hrunning, k, hk, hsuspended⟩ : s.fate = .running ∧
      ∃ k, s.tasks[0]? = some k ∧ k.isSuspended = true := by
    simpa using hs
  have horderly : (machine sumOfTwo).Meets Orderly (machine sumOfTwo).init secondFirst := by
    decide +kernel
  have hfinished : s.Finished := ⟨hrunning, k, hk, hsuspended⟩
  obtain ⟨-, hresult, -⟩ := (runs_as_written hrun horderly).2.2.2 hfinished
  exact ⟨s, hrun, hfinished, hresult⟩

end ProgramState

end Npp.Task
