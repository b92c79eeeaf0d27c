import Npp.Foundation.Machine
import Npp.Task.Result
import Mathlib.Logic.Function.Basic

/-!
# Who owns a coroutine handle

The special member functions of `Task` over any number of `Task` objects. An object owns at most
one coroutine; a moved-from or default-constructed one owns none. `~Task` waits for the coroutine
it owns and destroys the frame; move assignment takes the handle of its source and does nothing
about the one it replaces.
-/

namespace Npp.Task

open Npp.Foundation

variable {T : Type}

/-- A coroutine that was created: its result, and how often it was waited for and destroyed. -/
structure Frame (T : Type) where
  result : Option (Result T) := none
  waited : Nat := 0
  destroyed : Nat := 0
deriving DecidableEq, Repr

/-- What ends the program: an exception leaves `~Task`, or `completion.wait` ends without a result
and the empty `result` is used. -/
inductive Abort where
  | terminated
  | undefined
deriving DecidableEq, Repr

structure HandlesState (T : Type) where
  frames : List (Frame T) := []
  /-- The `handle` of every `Task` object there is; a handle is the place of its frame. -/
  objects : Nat → Option (Option Nat) := fun _ => none
  aborted : Option Abort := none

namespace HandlesState

inductive Label (T : Type) where
  | default (x : Nat)
  | create (x : Nat)
  | moveConstruct (x y : Nat)
  | moveAssign (x y : Nat)
  | destroy (x : Nat)
  | finish (c : Nat) (result : Result T)
deriving Repr

def set (s : HandlesState T) (x : Nat) (object : Option (Option Nat)) : HandlesState T :=
  { s with objects := Function.update s.objects x object }

/-- `std::exchange(task.handle, {})` into the object `x`. -/
def exchange (s : HandlesState T) (x y : Nat) (handle : Option Nat) : HandlesState T :=
  (s.set y (some none)).set x (some handle)

def release (s : HandlesState T) (x c : Nat) : Option (HandlesState T) :=
  match s.frames[c]? with
  | none => none
  | some frame =>
      match frame.result with
      | none => some { s with aborted := some .undefined }
      | some result =>
          let waited := { frame with waited := frame.waited + 1 }
          match result.getOrThrow with
          | .error _ =>
              some { s with frames := s.frames.set c waited, aborted := some .terminated }
          | .ok _ =>
              some ({ s with
                frames := s.frames.set c { waited with destroyed := frame.destroyed + 1 }
                }.set x none)

def step (s : HandlesState T) (l : Label T) : Option (HandlesState T) :=
  if s.aborted.isSome then none else
  match l with
  | .default x => if s.objects x = none then some (s.set x (some none)) else none
  | .create x =>
      if s.objects x = none then
        some ({ s with frames := s.frames ++ [({} : Frame T)] }.set x (some (some s.frames.length)))
      else none
  | .moveConstruct x y =>
      match s.objects x, s.objects y with
      | none, some handle => some (s.exchange x y handle)
      | _, _ => none
  | .moveAssign x y =>
      match s.objects x, s.objects y with
      | some _, some handle => some (s.exchange x y handle)
      | _, _ => none
  | .destroy x =>
      match s.objects x with
      | none => none
      | some none => some (s.set x none)
      | some (some c) => s.release x c
  | .finish c result =>
      match s.frames[c]? with
      | some frame =>
          if frame.result.isNone then
            some { s with frames := s.frames.set c { frame with result := some result } }
          else none
      | none => none

def machine (T : Type) : Machine (HandlesState T) (Label T) where
  init := {}
  step := step

def owns (s : HandlesState T) (x : Nat) : Option Nat := (s.objects x).join

/-- Every coroutine has one owner until it is waited for and destroyed, once, and nothing ends the
program. -/
structure Linear (s : HandlesState T) : Prop where
  unique : ∀ x y c, s.owns x = some c → s.owns y = some c → x = y
  held : ∀ c frame, s.frames[c]? = some frame → frame.destroyed = 0 → ∃ x, s.owns x = some c
  ended : (∀ x, s.objects x = none) →
    ∀ frame ∈ s.frames, frame.waited = 1 ∧ frame.destroyed = 1
  proceeds : s.aborted = none

/-- A move assignment does not replace the handle of a coroutine, itself apart, and `~Task` finds
a value. -/
def Keeps (s : HandlesState T) : Label T → Prop
  | .moveAssign x y => x = y ∨ s.owns x = none
  | .destroy x => ∀ c ∈ s.owns x, ∀ frame ∈ s.frames[c]?,
      ∃ r ∈ frame.result, r.exceptionPtr = none
  | _ => True

instance (s : HandlesState T) (l : Label T) : Decidable (s.Keeps l) :=
  match l with
  | .moveAssign x y => inferInstanceAs (Decidable (x = y ∨ s.owns x = none))
  | .destroy x => inferInstanceAs (Decidable (∀ c ∈ s.owns x, ∀ frame ∈ s.frames[c]?,
      ∃ r ∈ frame.result, r.exceptionPtr = none))
  | .default _ => .isTrue trivial
  | .create _ => .isTrue trivial
  | .moveConstruct _ _ => .isTrue trivial
  | .finish _ _ => .isTrue trivial

/-! ## Who owns what after a step -/

theorem owns_set (s : HandlesState T) (x z : Nat) (object : Option (Option Nat)) :
    (s.set x object).owns z = if z = x then object.join else s.owns z := by
  simp only [owns, set, Function.update_apply]
  split <;> rfl

@[simp] theorem frames_set (s : HandlesState T) (x : Nat) (object : Option (Option Nat)) :
    (s.set x object).frames = s.frames := rfl

theorem owns_exchange {s : HandlesState T} {x y z c : Nat} {handle : Option Nat} :
    (s.exchange x y handle).owns z = some c ↔
      (z = x ∧ handle = some c) ∨ (z ≠ x ∧ z ≠ y ∧ s.owns z = some c) := by
  rw [exchange, owns_set, owns_set]
  by_cases hx : z = x
  · simp [hx]
  · by_cases hy : z = y <;> simp [hx, hy]

/-- What the steps keep, whatever they replace: nothing has two owners, what is owned is alive, and
what was waited for was destroyed. -/
structure Owned (s : HandlesState T) : Prop where
  unique : ∀ x y c, s.owns x = some c → s.owns y = some c → x = y
  live : ∀ x c, s.owns x = some c →
    ∃ frame, s.frames[c]? = some frame ∧ frame.waited = 0 ∧ frame.destroyed = 0
  once : ∀ frame ∈ s.frames, (frame.waited = 0 ∧ frame.destroyed = 0) ∨
    (frame.waited = 1 ∧ frame.destroyed = 1)

inductive Effect (s : HandlesState T) (l : Label T) (s' : HandlesState T) : Prop where
  | default (x : Nat) (hl : l = .default x) (hx : s.objects x = none)
      (eq : s' = s.set x (some none))
  | create (x : Nat) (hl : l = .create x) (hx : s.objects x = none)
      (eq : s' = { s with frames := s.frames ++ [({} : Frame T)] }.set x
        (some (some s.frames.length)))
  | construct (x y : Nat) (handle : Option Nat) (hl : l = .moveConstruct x y)
      (hx : s.objects x = none) (hy : s.objects y = some handle)
      (eq : s' = s.exchange x y handle)
  | assign (x y : Nat) (handle : Option Nat) (hl : l = .moveAssign x y)
      (hy : s.objects y = some handle) (eq : s' = s.exchange x y handle)
  | drop (x : Nat) (hl : l = .destroy x) (hx : s.objects x = some none)
      (eq : s' = s.set x none)
  | release (x c : Nat) (frame : Frame T) (result : Result T) (hl : l = .destroy x)
      (hx : s.objects x = some (some c)) (hc : s.frames[c]? = some frame)
      (hresult : frame.result = some result) (hvalue : result.exceptionPtr = none)
      (eq : s' = { s with frames := s.frames.set c { frame with
        waited := frame.waited + 1, destroyed := frame.destroyed + 1 } }.set x none)
  | abort (x c : Nat) (frame : Frame T) (hl : l = .destroy x)
      (hx : s.objects x = some (some c)) (hc : s.frames[c]? = some frame)
      (hvalue : ¬ ∃ r ∈ frame.result, r.exceptionPtr = none)
      (haborted : s'.aborted.isSome = true) (hobjects : s'.objects = s.objects)
      (hframes : ∀ d, c ≠ d → s'.frames[d]? = s.frames[d]?)
  | finish (c : Nat) (frame : Frame T) (result : Result T) (hl : l = .finish c result)
      (hc : s.frames[c]? = some frame)
      (eq : s' = { s with frames := s.frames.set c { frame with result := some result } })

theorem release_effect {s s' : HandlesState T} {x c : Nat} (hx : s.objects x = some (some c))
    (h : s.release x c = some s') : Effect s (.destroy x) s' := by
  unfold release at h
  split at h
  case h_1 => cases h
  case h_2 frame hc =>
    split at h
    case h_1 hresult =>
      obtain rfl := Option.some.inj h
      exact .abort x c frame rfl hx hc (by simp [hresult]) rfl rfl fun _ _ => rfl
    case h_2 result hresult =>
      simp only [Result.getOrThrow] at h
      split at h
      case h_1 hthrow =>
        obtain rfl := Option.some.inj h
        refine .abort x c frame rfl hx hc ?_ rfl rfl fun d hd => List.getElem?_set_ne hd
        rintro ⟨r, hr, hvalue⟩
        obtain rfl := Option.some.inj (hresult.symm.trans hr)
        simp [hvalue] at hthrow
      case h_2 hok =>
        obtain rfl := Option.some.inj h
        have hvalue : result.exceptionPtr = none := by
          cases he : result.exceptionPtr with
          | none => rfl
          | some e => simp [he] at hok
        exact .release x c frame result rfl hx hc hresult hvalue rfl

theorem step_effect {s s' : HandlesState T} {l : Label T} (h : s.step l = some s') :
    s.aborted = none ∧ Effect s l s' := by
  unfold step at h
  split at h
  case isTrue => cases h
  case isFalse haborted =>
    refine ⟨Option.not_isSome_iff_eq_none.mp haborted, ?_⟩
    cases l with
    | default x =>
        simp only [Option.ite_none_right_eq_some, Option.some.injEq] at h
        exact .default x rfl h.1 h.2.symm
    | create x =>
        simp only [Option.ite_none_right_eq_some, Option.some.injEq] at h
        exact .create x rfl h.1 h.2.symm
    | moveConstruct x y =>
        simp only at h
        split at h
        case h_1 handle hx hy => exact .construct x y handle rfl hx hy (Option.some.inj h).symm
        case h_2 => cases h
    | moveAssign x y =>
        simp only at h
        split at h
        case h_1 _ handle hx hy => exact .assign x y handle rfl hy (Option.some.inj h).symm
        case h_2 => cases h
    | destroy x =>
        simp only at h
        split at h
        case h_1 => cases h
        case h_2 hx => exact .drop x rfl hx (Option.some.inj h).symm
        case h_3 c hx => exact release_effect hx h
    | finish c result =>
        simp only at h
        split at h
        case h_1 frame hc =>
          rw [Option.ite_none_right_eq_some] at h
          exact .finish c frame result rfl hc (Option.some.inj h.2).symm
        case h_2 => cases h

/-! ## What the steps keep -/

theorem owns_set_of_none {s : HandlesState T} {x : Nat} {object : Option (Option Nat)}
    (hx : s.owns x = none) (hobject : object.join = none) : (s.set x object).owns = s.owns := by
  funext z
  rw [owns_set]
  split
  case isTrue heq => rw [hobject, heq, hx]
  case isFalse => rfl

namespace Owned

theorem of_eq {s s' : HandlesState T} (h : Owned s) (howns : s'.owns = s.owns)
    (hframes : s'.frames = s.frames) : Owned s' where
  unique x y c hx hy := h.unique x y c (howns ▸ hx) (howns ▸ hy)
  live x c hx := hframes ▸ h.live x c (howns ▸ hx)
  once frame hframe := h.once frame (hframes ▸ hframe)

theorem create {s : HandlesState T} (h : Owned s) (x : Nat) :
    Owned ({ s with frames := s.frames ++ [({} : Frame T)] }.set x
      (some (some s.frames.length))) := by
  have hfresh : ∀ z c, s.owns z = some c → c < s.frames.length := by
    intro z c hz
    obtain ⟨frame, hframe, -⟩ := h.live z c hz
    exact (List.getElem?_eq_some_iff.mp hframe).1
  have howner : ∀ z c, ({ s with frames := s.frames ++ [({} : Frame T)] }.set x
      (some (some s.frames.length))).owns z = some c →
      (z = x ∧ c = s.frames.length) ∨ (z ≠ x ∧ s.owns z = some c) := by
    intro z c hz
    rw [owns_set] at hz
    split at hz
    case isTrue heq => exact Or.inl ⟨heq, (Option.some.inj hz).symm⟩
    case isFalse hne => exact Or.inr ⟨hne, hz⟩
  refine ⟨?_, ?_, ?_⟩
  · intro z z' c hz hz'
    rcases howner z c hz with ⟨rfl, rfl⟩ | ⟨-, hold⟩ <;>
      rcases howner z' _ hz' with ⟨rfl, hc⟩ | ⟨-, hold'⟩
    · rfl
    · exact absurd (hfresh z' _ hold') (Nat.lt_irrefl _)
    · exact absurd (hc ▸ hfresh z _ hold) (Nat.lt_irrefl _)
    · exact h.unique z z' c hold hold'
  · intro z c hz
    rcases howner z c hz with ⟨rfl, rfl⟩ | ⟨-, hz⟩
    · exact ⟨{}, List.getElem?_concat_length, rfl, rfl⟩
    · obtain ⟨frame, hframe, hlive⟩ := h.live z c hz
      exact ⟨frame, (List.getElem?_append_left (hfresh z c hz)).trans hframe, hlive⟩
  · intro frame hframe
    rcases List.mem_append.mp hframe with hold | hnew
    · exact h.once frame hold
    · rw [List.mem_singleton.mp hnew]
      exact Or.inl ⟨rfl, rfl⟩

theorem exchange {s : HandlesState T} (h : Owned s) {x y : Nat} {handle : Option Nat}
    (hy : s.objects y = some handle) : Owned (s.exchange x y handle) := by
  have hsource : ∀ c, handle = some c → s.owns y = some c := by
    rintro c rfl
    simp [owns, hy]
  refine ⟨?_, ?_, h.once⟩
  · intro z z' c hz hz'
    rcases owns_exchange.mp hz with ⟨rfl, hc⟩ | ⟨-, hne, hold⟩ <;>
      rcases owns_exchange.mp hz' with ⟨rfl, hc'⟩ | ⟨-, hne', hold'⟩
    · rfl
    · exact absurd (h.unique z' y c hold' (hsource c hc)) hne'
    · exact absurd (h.unique z y c hold (hsource c hc')) hne
    · exact h.unique z z' c hold hold'
  · intro z c hz
    rcases owns_exchange.mp hz with ⟨-, hc⟩ | ⟨-, -, hz⟩
    · exact h.live y c (hsource c hc)
    · exact h.live z c hz

theorem release {s : HandlesState T} (h : Owned s) {x c : Nat} {frame : Frame T}
    (hx : s.objects x = some (some c)) (hc : s.frames[c]? = some frame) :
    Owned ({ s with frames := s.frames.set c { frame with
      waited := frame.waited + 1, destroyed := frame.destroyed + 1 } }.set x none) := by
  have hxc : s.owns x = some c := by simp [owns, hx]
  have howner : ∀ z d, ({ s with frames := s.frames.set c { frame with
      waited := frame.waited + 1, destroyed := frame.destroyed + 1 } }.set x none).owns z = some d →
      z ≠ x ∧ s.owns z = some d := by
    intro z d hz
    rw [owns_set] at hz
    split at hz
    case isTrue => cases hz
    case isFalse hne => exact ⟨hne, hz⟩
  refine ⟨?_, ?_, ?_⟩
  · intro z z' d hz hz'
    exact h.unique z z' d (howner z d hz).2 (howner z' d hz').2
  · intro z d hz
    obtain ⟨hne, hz⟩ := howner z d hz
    obtain ⟨frame', hframe', hlive⟩ := h.live z d hz
    have hcd : c ≠ d := by
      rintro rfl
      exact hne (h.unique z x c hz hxc)
    exact ⟨frame', (List.getElem?_set_ne hcd).trans hframe', hlive⟩
  · intro frame' hframe'
    rcases List.mem_or_eq_of_mem_set hframe' with hold | rfl
    · exact h.once frame' hold
    · obtain ⟨frame', hframe', hwaited, hdestroyed⟩ := h.live x c hxc
      obtain rfl := Option.some.inj (hc.symm.trans hframe')
      exact Or.inr ⟨by rw [hwaited], by rw [hdestroyed]⟩

theorem finish {s : HandlesState T} (h : Owned s) {c : Nat} {frame : Frame T}
    (hc : s.frames[c]? = some frame) (result : Result T) :
    Owned { s with frames := s.frames.set c { frame with result := some result } } where
  unique := h.unique
  live z d hz := by
    obtain ⟨frame', hframe', hlive⟩ := h.live z d hz
    by_cases hcd : c = d
    · subst hcd
      obtain rfl := Option.some.inj (hc.symm.trans hframe')
      have hlt : c < s.frames.length := (List.getElem?_eq_some_iff.mp hc).1
      exact ⟨{ frame with result := some result }, List.getElem?_set_self hlt, hlive⟩
    · exact ⟨frame', (List.getElem?_set_ne hcd).trans hframe', hlive⟩
  once frame' hframe' := by
    rcases List.mem_or_eq_of_mem_set hframe' with hold | rfl
    · exact h.once frame' hold
    · exact h.once frame (List.mem_of_getElem? hc)

end Owned

theorem owned_effect {s s' : HandlesState T} {l : Label T} (h : Owned s) (he : Effect s l s')
    (hgoes : s'.aborted = none) : Owned s' := by
  cases he with
  | default x hl hx eq =>
      subst eq
      exact h.of_eq (owns_set_of_none (by simp [owns, hx]) rfl) rfl
  | create x hl hx eq => exact eq ▸ h.create x
  | construct x y handle hl hx hy eq => exact eq ▸ h.exchange hy
  | assign x y handle hl hy eq => exact eq ▸ h.exchange hy
  | drop x hl hx eq =>
      subst eq
      exact h.of_eq (owns_set_of_none (by simp [owns, hx]) rfl) rfl
  | release x c frame result hl hx hc hresult hvalue eq => exact eq ▸ h.release hx hc
  | abort x c frame hl hx hc hvalue haborted hobjects hframes => simp [hgoes] at haborted
  | finish c frame result hl hc eq => exact eq ▸ h.finish hc result

/-! ## What a step can lose -/

def Held (s : HandlesState T) : Prop :=
  ∀ c frame, s.frames[c]? = some frame → frame.destroyed = 0 → ∃ x, s.owns x = some c

/-- A coroutine that nobody will ever wait for. -/
def Lost (c : Nat) (s : HandlesState T) : Prop :=
  (∃ frame, s.frames[c]? = some frame ∧ frame.destroyed = 0) ∧ ∀ x, s.owns x ≠ some c

/-- Taking another handle loses the coroutine that the object owned. -/
theorem lost_exchange {s : HandlesState T} (h : Owned s) {x y c : Nat} {handle : Option Nat}
    (hy : s.objects y = some handle) (hne : x ≠ y) (hx : s.owns x = some c) :
    Lost c (s.exchange x y handle) := by
  obtain ⟨frame, hframe, -, hdestroyed⟩ := h.live x c hx
  refine ⟨⟨frame, hframe, hdestroyed⟩, fun z hz => ?_⟩
  rcases owns_exchange.mp hz with ⟨-, hc⟩ | ⟨hzx, -, hold⟩
  · have hyc : s.owns y = some c := by simp [owns, hy, hc]
    exact hne (h.unique x y c hx hyc)
  · exact hzx (h.unique z x c hold hx)

theorem Held.exchange {s : HandlesState T} (h : Held s) {x y : Nat} {handle : Option Nat}
    (hy : s.objects y = some handle) (hkeeps : x = y ∨ s.owns x = none) :
    Held (s.exchange x y handle) := by
  intro c frame hframe hdestroyed
  obtain ⟨z, hz⟩ := h c frame hframe hdestroyed
  have hyc : z = y → handle = some c := by
    rintro rfl
    simpa [owns, hy] using hz
  by_cases hzy : z = y
  · exact ⟨x, owns_exchange.mpr (Or.inl ⟨rfl, hyc hzy⟩)⟩
  · have hzx : z ≠ x := by
      rintro rfl
      rcases hkeeps with heq | hnone
      · exact hzy heq
      · simp [hnone] at hz
    exact ⟨z, owns_exchange.mpr (Or.inr ⟨hzx, hzy, hz⟩)⟩

theorem Held.of_eq {s s' : HandlesState T} (h : Held s) (howns : s'.owns = s.owns)
    (hframes : s'.frames = s.frames) : Held s' := by
  intro c frame hframe hdestroyed
  rw [howns]
  exact h c frame (hframes ▸ hframe) hdestroyed

theorem Held.create {s : HandlesState T} (h : Held s) {x : Nat} (hx : s.objects x = none) :
    Held ({ s with frames := s.frames ++ [({} : Frame T)] }.set x
      (some (some s.frames.length))) := by
  intro c frame hframe hdestroyed
  by_cases hlt : c < s.frames.length
  · obtain ⟨z, hz⟩ :=
      h c frame ((List.getElem?_append_left hlt).symm.trans hframe) hdestroyed
    have hne : z ≠ x := by
      rintro rfl
      simp [owns, hx] at hz
    exact ⟨z, by rw [owns_set, if_neg hne]; exact hz⟩
  · have hlen : c < (s.frames ++ [({} : Frame T)]).length :=
      (List.getElem?_eq_some_iff.mp hframe).1
    rw [List.length_append, List.length_singleton] at hlen
    have heq : c = s.frames.length := Nat.le_antisymm (Nat.lt_succ_iff.mp hlen) (Nat.not_lt.mp hlt)
    exact ⟨x, by rw [owns_set, if_pos rfl, heq]; rfl⟩

theorem Held.release {s : HandlesState T} (h : Held s) {x c : Nat} {frame : Frame T}
    (hx : s.objects x = some (some c)) :
    Held ({ s with frames := s.frames.set c { frame with
      waited := frame.waited + 1, destroyed := frame.destroyed + 1 } }.set x none) := by
  intro d frame' hframe' hdestroyed
  rw [frames_set] at hframe'
  have hcd : c ≠ d := by
    rintro rfl
    obtain ⟨hlt, hget⟩ := List.getElem?_eq_some_iff.mp hframe'
    rw [List.getElem_set_self] at hget
    rw [← hget] at hdestroyed
    exact Nat.succ_ne_zero _ hdestroyed
  obtain ⟨z, hz⟩ := h d frame' ((List.getElem?_set_ne hcd).symm.trans hframe') hdestroyed
  have hne : z ≠ x := by
    rintro rfl
    have hxc : s.owns z = some c := by simp [owns, hx]
    exact hcd (Option.some.inj (hxc.symm.trans hz))
  exact ⟨z, by rw [owns_set, if_neg hne]; exact hz⟩

theorem Held.finish {s : HandlesState T} (h : Held s) {c : Nat} {frame : Frame T}
    (hc : s.frames[c]? = some frame) (result : Result T) :
    Held { s with frames := s.frames.set c { frame with result := some result } } := by
  intro d frame' hframe' hdestroyed
  by_cases hcd : c = d
  · subst hcd
    obtain ⟨hlt, hget⟩ := List.getElem?_eq_some_iff.mp hframe'
    rw [List.getElem_set_self] at hget
    exact h c frame hc (by rw [← hget] at hdestroyed; exact hdestroyed)
  · exact h d frame' ((List.getElem?_set_ne hcd).symm.trans hframe') hdestroyed

/-- One step keeps every coroutine held exactly when it meets the condition. -/
theorem held_effect {s s' : HandlesState T} {l : Label T} (h : Owned s) (hheld : Held s)
    (haborted : s.aborted = none) (he : Effect s l s') :
    (s'.aborted = none ∧ Held s') ↔ s.Keeps l := by
  cases he with
  | default x hl hx eq =>
      subst hl eq
      refine iff_of_true ⟨haborted, ?_⟩ trivial
      exact hheld.of_eq (owns_set_of_none (by simp [owns, hx]) rfl) rfl
  | create x hl hx eq =>
      subst hl eq
      exact iff_of_true ⟨haborted, hheld.create hx⟩ trivial
  | construct x y handle hl hx hy eq =>
      subst hl eq
      exact iff_of_true ⟨haborted, hheld.exchange hy (Or.inr (by simp [owns, hx]))⟩ trivial
  | assign x y handle hl hy eq =>
      subst hl eq
      constructor
      · rintro ⟨-, hheld'⟩
        by_contra hbreak
        obtain ⟨hne, howns⟩ := not_or.mp hbreak
        obtain ⟨c, hx⟩ := Option.ne_none_iff_exists'.mp howns
        obtain ⟨⟨frame, hframe, hdestroyed⟩, hnobody⟩ := lost_exchange h hy hne hx
        obtain ⟨z, hz⟩ := hheld' c frame hframe hdestroyed
        exact hnobody z hz
      · intro hkeeps
        exact ⟨haborted, hheld.exchange hy hkeeps⟩
  | drop x hl hx eq =>
      subst hl eq
      refine iff_of_true ⟨haborted, ?_⟩ ?_
      · exact hheld.of_eq (owns_set_of_none (by simp [owns, hx]) rfl) rfl
      · intro c hc
        simp [owns, hx] at hc
  | release x c frame result hl hx hc hresult hvalue eq =>
      subst hl eq
      refine iff_of_true ⟨haborted, hheld.release hx⟩ ?_
      intro c' hc' frame' hframe'
      have hxc : s.owns x = some c := by simp [owns, hx]
      obtain rfl := Option.some.inj (hxc.symm.trans hc')
      obtain rfl := Option.some.inj (hc.symm.trans hframe')
      exact ⟨result, hresult, hvalue⟩
  | abort x c frame hl hx hc hvalue habort hobjects hframes =>
      subst hl
      refine iff_of_false ?_ ?_
      · rintro ⟨hnone, -⟩
        simp [hnone] at habort
      · intro hkeeps
        exact hvalue (hkeeps c (by simp [owns, hx]) frame hc)
  | finish c frame result hl hc eq =>
      subst hl eq
      exact iff_of_true ⟨haborted, hheld.finish hc result⟩ trivial

theorem Lost.exchange {s : HandlesState T} {c x y : Nat} {handle : Option Nat} (h : Lost c s)
    (hy : s.objects y = some handle) : Lost c (s.exchange x y handle) := by
  refine ⟨h.1, fun z hz => ?_⟩
  rcases owns_exchange.mp hz with ⟨-, hc⟩ | ⟨-, -, hold⟩
  · exact h.2 y (by simp [owns, hy, hc])
  · exact h.2 z hold

/-- A lost coroutine stays lost. -/
theorem lost_step {s s' : HandlesState T} {l : Label T} {c : Nat} (hlost : Lost c s)
    (hstep : s.step l = some s') : Lost c s' := by
  obtain ⟨⟨frame, hframe, hdestroyed⟩, hnobody⟩ := id hlost
  have hlt : c < s.frames.length := (List.getElem?_eq_some_iff.mp hframe).1
  cases (step_effect hstep).2 with
  | default x hl hx eq =>
      subst eq
      refine ⟨⟨frame, hframe, hdestroyed⟩, fun z => ?_⟩
      rw [owns_set_of_none (by simp [owns, hx]) rfl]
      exact hnobody z
  | create x hl hx eq =>
      subst eq
      refine ⟨⟨frame, (List.getElem?_append_left hlt).trans hframe, hdestroyed⟩, fun z => ?_⟩
      rw [owns_set]
      split
      · exact fun hz => absurd (Option.some.inj hz) (Nat.ne_of_gt hlt)
      · exact hnobody z
  | construct x y handle hl hx hy eq => exact eq ▸ hlost.exchange hy
  | assign x y handle hl hy eq => exact eq ▸ hlost.exchange hy
  | drop x hl hx eq =>
      subst eq
      refine ⟨⟨frame, hframe, hdestroyed⟩, fun z => ?_⟩
      rw [owns_set_of_none (by simp [owns, hx]) rfl]
      exact hnobody z
  | release x d frame' result hl hx hd hresult hvalue eq =>
      subst eq
      have hne : d ≠ c := by
        rintro rfl
        exact hnobody x (by simp [owns, hx])
      refine ⟨⟨frame, (List.getElem?_set_ne hne).trans hframe, hdestroyed⟩, fun z => ?_⟩
      rw [owns_set]
      split
      · exact Option.some_ne_none c ∘ Eq.symm
      · exact hnobody z
  | abort x d frame' hl hx hd hvalue habort hobjects hframes =>
      have hne : d ≠ c := by
        rintro rfl
        exact hnobody x (by simp [owns, hx])
      refine ⟨⟨frame, (hframes c hne).trans hframe, hdestroyed⟩, fun z hz => ?_⟩
      exact hnobody z (by simpa only [owns, hobjects] using hz)
  | finish d frame' result hl hd eq =>
      subst eq
      refine ⟨?_, hnobody⟩
      by_cases hdc : d = c
      · subst hdc
        obtain rfl := Option.some.inj (hd.symm.trans hframe)
        exact ⟨{ frame' with result := some result }, List.getElem?_set_self hlt, hdestroyed⟩
      · exact ⟨frame, (List.getElem?_set_ne hdc).trans hframe, hdestroyed⟩

/-! ## Whole runs -/

theorem owned_init : Owned (machine T).init where
  unique x y c hx _ := by simp [machine, owns] at hx
  live x c hx := by simp [machine, owns] at hx
  once frame hframe := by simp [machine] at hframe

theorem Owned.linear {s : HandlesState T} (h : Owned s) (hheld : Held s)
    (haborted : s.aborted = none) : Linear s where
  unique := h.unique
  held := hheld
  ended hnone frame hframe := by
    rcases h.once frame hframe with ⟨-, hdestroyed⟩ | hended
    · obtain ⟨c, hc⟩ := List.mem_iff_getElem?.mp hframe
      obtain ⟨x, hx⟩ := hheld c frame hc hdestroyed
      simp [owns, hnone x] at hx
    · exact hended
  proceeds := haborted

theorem owned_step {s s' : HandlesState T} {l : Label T} (h : s.aborted = none → Owned s)
    (hstep : s.step l = some s') (hgoes : s'.aborted = none) : Owned s' := by
  obtain ⟨haborted, he⟩ := step_effect hstep
  exact owned_effect (h haborted) he hgoes

theorem linear_along_iff {ls : List (Label T)} {s : HandlesState T}
    (hrun : (machine T).Runs ls s) :
    (machine T).Meets Keeps (machine T).init ls ↔
      ∀ pre t, pre <+: ls → (machine T).Runs pre t → t.Linear := by
  apply hrun.meets_iff_of_invariant (J := fun a => a.aborted = none → Owned a)
    (I := fun a => a.aborted = none ∧ Held a)
  · exact fun _ => owned_init
  · exact ⟨rfl, fun c frame hframe _ => by simp [machine] at hframe⟩
  · exact fun a l a' ha hstep => owned_step ha hstep
  · rintro a l a' ha ⟨haborted, hheld⟩ hstep
    exact held_effect (ha haborted) hheld haborted (step_effect hstep).2
  · intro a ha
    constructor
    · exact fun hlinear => ⟨hlinear.proceeds, hlinear.held⟩
    · exact fun h => (ha h.1).linear h.2 h.1

/-- A run that ends the program goes no further. -/
theorem runFrom_aborted {s t : HandlesState T} {ls : List (Label T)}
    (haborted : s.aborted.isSome = true) (hrun : (machine T).runFrom s ls = some t) : t = s := by
  cases ls with
  | nil => exact (Option.some.inj hrun).symm
  | cons l ls =>
      have hstep : (machine T).step s l = none := by simp [machine, step, haborted]
      simp [Machine.runFrom, hstep] at hrun

/-- A run at whose end all objects are gone and all coroutines are destroyed has lost none. -/
theorem meets_of_all_destroyed {ls : List (Label T)} {s : HandlesState T}
    (hrun : (machine T).Runs ls s) (hnone : ∀ x, s.objects x = none)
    (hall : ∀ frame ∈ s.frames, frame.waited = 1 ∧ frame.destroyed = 1) :
    (machine T).Meets Keeps (machine T).init ls := by
  by_contra hbreach
  obtain ⟨pre, l, post, a, a', rfl, hpre, hmeets, hbreak, hstep, hpost⟩ :=
    hrun.exists_breach hbreach
  have hlinear : a.Linear := (linear_along_iff hpre).mp hmeets pre a List.prefix_rfl hpre
  have howned : Owned a :=
    hpre.invariant (I := fun a => a.aborted = none → Owned a) (fun _ => owned_init)
      (fun _ _ _ ha hstep => owned_step ha hstep) hlinear.proceeds
  have hbad : ¬ (a'.aborted = none ∧ Held a') := fun h =>
    hbreak ((held_effect howned hlinear.held hlinear.proceeds (step_effect hstep).2).mp h)
  by_cases haborted : a'.aborted = none
  · -- a coroutine was lost, and it still is at the end
    have hheld : ¬ Held a' := fun h => hbad ⟨haborted, h⟩
    unfold Held at hheld
    push Not at hheld
    obtain ⟨c, frame, hframe, hdestroyed, hnobody⟩ := hheld
    have hlost : Lost c s :=
      Machine.runFrom_invariant (I := Lost c) (fun _ _ _ h hstep => lost_step h hstep)
        ⟨⟨frame, hframe, hdestroyed⟩, hnobody⟩ hpost
    obtain ⟨⟨frame', hframe', hzero⟩, -⟩ := hlost
    have hone := (hall frame' (List.mem_of_getElem? hframe')).2
    rw [hzero] at hone
    cases hone
  · -- the program ended inside a destructor, so its object is still there
    have hs : s = a' := runFrom_aborted (Option.isSome_iff_ne_none.mpr haborted) hpost
    cases (step_effect hstep).2 with
    | abort x c frame hl hx hc hvalue habort hobjects hframes =>
        have hobject := hnone x
        rw [hs, hobjects, hx] at hobject
        cases hobject
    | default x hl hx eq => exact haborted (eq ▸ hlinear.proceeds)
    | create x hl hx eq => exact haborted (eq ▸ hlinear.proceeds)
    | construct x y handle hl hx hy eq => exact haborted (eq ▸ hlinear.proceeds)
    | assign x y handle hl hy eq => exact haborted (eq ▸ hlinear.proceeds)
    | drop x hl hx eq => exact haborted (eq ▸ hlinear.proceeds)
    | release x c frame result hl hx hc hresult hvalue eq =>
        exact haborted (eq ▸ hlinear.proceeds)
    | finish c frame result hl hc eq => exact haborted (eq ▸ hlinear.proceeds)

/-- **Linear handles.** No state of a run loses a coroutine, gives it two owners or ends the
program exactly when no move assignment of the run replaces the handle of another coroutine and
every `~Task` finds a value. At the end of a run that destroys all `Task` objects, every coroutine
was waited for and destroyed exactly once under the same condition only. -/
theorem linear_iff {ls : List (Label T)} {s : HandlesState T} (hrun : (machine T).Runs ls s) :
    ((machine T).Meets Keeps (machine T).init ls ↔
      ∀ pre t, pre <+: ls → (machine T).Runs pre t → t.Linear) ∧
    ((∀ x, s.objects x = none) →
      ((machine T).Meets Keeps (machine T).init ls ↔
        ∀ frame ∈ s.frames, frame.waited = 1 ∧ frame.destroyed = 1)) := by
  refine ⟨linear_along_iff hrun, fun hnone => ⟨fun hmeets => ?_, fun hall => ?_⟩⟩
  · exact ((linear_along_iff hrun).mp hmeets ls s List.prefix_rfl hrun).ended hnone
  · exact meets_of_all_destroyed hrun hnone hall

/-- `networkTask = std::move(run())`: the temporary `y` is destroyed with the full expression. -/
def startServer (networkTask y : Nat) : List (Label T) :=
  [.create y, .moveAssign networkTask y, .destroy y]

/-- The server is started, ends, and the manager is destroyed. -/
theorem linear_iff_run :
    ∃ s : HandlesState Unit,
      (machine Unit).Runs
        ([.default 0] ++ startServer 0 1 ++ [.finish 0 (.ofValue ()), .destroy 0]) s ∧
      s.Linear ∧ (∀ x, s.objects x = none) ∧
      ∀ frame ∈ s.frames, frame.waited = 1 ∧ frame.destroyed = 1 := by
  obtain ⟨s, hrun, hnone⟩ : ∃ s : HandlesState Unit, (machine Unit).Runs
      ([.default 0] ++ startServer 0 1 ++ [.finish 0 (.ofValue ()), .destroy 0]) s ∧
      ∀ x, s.objects x = none := by
    refine ⟨_, rfl, ?_⟩
    rintro (_ | _ | x) <;> rfl
  have hmeets : (machine Unit).Meets Keeps (machine Unit).init
      ([.default 0] ++ startServer 0 1 ++ [.finish 0 (.ofValue ()), .destroy 0]) := by decide
  exact ⟨s, hrun, (linear_iff hrun).1.mp hmeets _ s List.prefix_rfl hrun, hnone,
    ((linear_iff hrun).2 hnone).mp hmeets⟩

/-- The server is started again after it was stopped: `networkTask` still owned the coroutine of
the first start, which is never destroyed. -/
theorem not_linear :
    ∃ s : HandlesState Unit,
      (machine Unit).Runs
        ([.default 0] ++ startServer 0 1 ++ [.finish 0 (.ofValue ())] ++ startServer 0 1 ++
          [.finish 1 (.ofValue ()), .destroy 0]) s ∧
      (∀ x, s.objects x = none) ∧
      s.frames.map (fun frame => (frame.waited, frame.destroyed)) = [(0, 0), (1, 1)] ∧
      ¬ ∀ frame ∈ s.frames, frame.waited = 1 ∧ frame.destroyed = 1 := by
  refine ⟨_, rfl, ?_, rfl, by decide⟩
  rintro (_ | _ | x) <;> rfl

end HandlesState

end Npp.Task
