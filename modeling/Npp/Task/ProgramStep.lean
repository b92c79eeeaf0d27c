import Npp.Task.Program

/-!
# A coroutine keeps to its body

What a coroutine will come to, read off from what it does next and what it still holds, is at every
moment what its body reads as. Each step of it keeps that.
-/

namespace Npp.Task

open Npp.Foundation

variable {V : Type}

/-! ## Behind a `co_await` -/

namespace Program

variable {env : List (Option (Flow Exn V))} {x : Flow Exn V} {i : Nat}
  {onValue : V → Program V} {onThrow : Exn → Program V}

def evalAfter (x : Flow Exn V) (onValue : V → Program V) (onThrow : Exn → Program V)
    (env : List (Option (Flow Exn V))) : Flow Exn V :=
  match x with
  | .normal v => (onValue v).eval env
  | .throws e => (onThrow e).eval env
  | .terminated => .terminated

def CalmAfter (x : Flow Exn V) (onValue : V → Program V) (env : List (Option (Flow Exn V))) :
    Prop :=
  match x with
  | .normal v => (onValue v).Calm env
  | _ => False

def costAfter (x : Flow Exn V) (onValue : V → Program V) (onThrow : Exn → Program V)
    (env : List (Option (Flow Exn V))) : Nat :=
  match x with
  | .normal v => (onValue v).cost env
  | .throws e => (onThrow e).cost env
  | .terminated => 0

theorem eval_coAwait (hi : env[i]? = some (some x)) :
    (coAwait i onValue onThrow).eval env = evalAfter x onValue onThrow (env.set i none) := by
  rw [eval, hi]
  cases x <;> rfl

theorem calm_coAwait (hi : env[i]? = some (some x)) :
    (coAwait i onValue onThrow).Calm env ↔ CalmAfter x onValue (env.set i none) := by
  rw [Calm, hi]
  cases x <;> rfl

theorem cost_coAwait (hi : env[i]? = some (some x)) :
    5 + costAfter x onValue onThrow (env.set i none) = (coAwait i onValue onThrow).cost env := by
  rw [cost, hi]
  cases x <;> rfl

/-- A calm body awaits a variable that has a value. -/
theorem Calm.coAwait (h : (coAwait i onValue onThrow).Calm env) :
    ∃ v, env[i]? = some (some (.normal v)) := by
  rw [Calm] at h
  split at h
  case h_1 v hv => exact ⟨v, hv⟩
  case h_2 => exact h.elim

end Program

namespace Result

theorem awaitResume_eq (r : Result V) : r.awaitResume = r.getResult := by
  rw [awaitResume, beforeResume, getResult]
  cases r.getOrThrow <;> rfl

/-- `~Task` ends the program exactly where `get_result` throws. -/
theorem destroyTask_cases (r : Result V) :
    (r.destroyTask = .normal () ∧ ∃ v, r.getResult = .normal v) ∨
      (r.destroyTask = .terminated ∧ ∃ e, r.getResult = .throws e) := by
  rw [destroyTask]
  rcases hr : r.getOrThrow with e | v
  · have hget : r.getResult = .throws e := by rw [getResult, hr, Flow.ofExcept]
    exact Or.inr ⟨by rw [hget]; rfl, e, hget⟩
  · have hget : r.getResult = .normal v := by rw [getResult, hr, Flow.ofExcept]
    exact Or.inl ⟨by rw [hget]; rfl, v, hget⟩

end Result

/-! ## One coroutine -/

namespace Coroutine

variable {k : Coroutine V}

def env (k : Coroutine V) : List (Option (Flow Exn V)) :=
  k.locals.map (Option.map fun child => child.program.eval [])

def inHand (k : Coroutine V) : Option (TaskHandle V) :=
  match k.activity with
  | .awaiting _ child _ _ => some child
  | .ending child _ _ _ _ => some child
  | .closing _ child => child
  | _ => none

/-- All coroutines that the coroutine has started and not destroyed. -/
def handles (k : Coroutine V) : List (TaskHandle V) := k.inHand.toList ++ k.locals.filterMap id

/-- What the body will come to. -/
def outlook (k : Coroutine V) : Flow Exn V :=
  match k.activity with
  | .ready program => program.eval k.env
  | .awaiting _ child onValue onThrow =>
      Program.evalAfter (child.program.eval []) onValue onThrow k.env
  | .ending child _ _ onValue onThrow =>
      Program.evalAfter (child.program.eval []) onValue onThrow k.env
  | .closing (some e) _ => .throws e
  | _ => k.program.eval []

def Remains (k : Coroutine V) : Prop :=
  match k.activity with
  | .ready program => program.Calm k.env
  | .awaiting _ child onValue _ => Program.CalmAfter (child.program.eval []) onValue k.env
  | .ending child _ _ onValue _ => Program.CalmAfter (child.program.eval []) onValue k.env
  | _ => True

def left (k : Coroutine V) : Nat :=
  match k.activity with
  | .ready program => program.cost k.env + 2 * k.locals.length
  | .awaiting phase child onValue onThrow =>
      (if phase = .leaving then 4 else 3) +
        Program.costAfter (child.program.eval []) onValue onThrow k.env + 2 * k.locals.length
  | .ending child _ dropped onValue onThrow =>
      (if dropped then 1 else 2) +
        Program.costAfter (child.program.eval []) onValue onThrow k.env + 2 * k.locals.length
  | .closing inFlight dropped =>
      (if inFlight.isSome then 4 else 1) + (if dropped.isSome then 1 else 0) + 2 * k.locals.length
  | .publishing notified => (if notified then 2 else 3) + 2 * k.locals.length
  | _ => 0

def published (k : Coroutine V) : Bool :=
  match k.activity with
  | .publishing _ => true
  | .closing none _ => true
  | .suspended => true
  | .destroyed => true
  | _ => false

def notified (k : Coroutine V) : Bool :=
  match k.activity with
  | .publishing called => called
  | .closing none _ => true
  | .suspended => true
  | .destroyed => true
  | _ => false

/-- The coroutine that a registered callback waits for. -/
def registeredFor (k : Coroutine V) : Option (TaskHandle V) :=
  match k.activity with
  | .awaiting .registered child _ _ => some child
  | _ => none

def given (k : Coroutine V) : Option (TaskHandle V × Flow Exn V) :=
  match k.activity with
  | .ending child x _ _ _ => some (child, x)
  | _ => none

def isOver (k : Coroutine V) : Bool := k.isSuspended || k.isDestroyed

structure Faithful (k : Coroutine V) : Prop where
  value : k.program.eval [] = k.outlook
  calm : k.program.Calm [] ↔ k.Remains ∧ ∀ h ∈ k.handles, h.program.Good
  result : ∀ r, k.result = some r → r.getResult = k.program.eval []
  published : k.result.isSome = k.published
  given : ∀ p ∈ k.given, p.2 = p.1.program.eval []
  dropped : ∀ h ∈ k.dropped, ∃ v, h.program.eval [] = .normal v
  atEnd : k.isOver = true → k.locals = []

theorem Faithful.handles_of_over (h : k.Faithful) (hover : k.isOver = true) : k.handles = [] := by
  have hlocals := h.atEnd hover
  have hhand : k.inHand = none := by
    unfold isOver isSuspended isDestroyed at hover
    unfold inHand
    cases hactivity : k.activity <;> simp_all
  rw [handles, hlocals, hhand]
  rfl

/-- At its end the coroutine has returned a value that nobody disturbs, exactly when it is calm. -/
theorem Faithful.calm_of_over (h : k.Faithful) (hover : k.isOver = true) : k.program.Calm [] := by
  refine h.calm.mpr ⟨?_, ?_⟩
  · unfold isOver isSuspended isDestroyed at hover
    unfold Remains
    cases hactivity : k.activity <;> simp_all
  · rw [h.handles_of_over hover]
    intro x hx
    cases hx

/-- The callbacks are called behind the result. -/
theorem published_of_notified (h : k.notified = true) : k.published = true := by
  unfold notified at h
  unfold published
  split at h
  case h_5 => cases h
  all_goals rfl

theorem notified_of_suspended (h : k.isSuspended = true) : k.notified = true := by
  unfold isSuspended at h
  unfold notified
  cases hactivity : k.activity <;> simp_all

/-- The result of a coroutine at its final suspension point is free to read. -/
theorem Faithful.free_of_suspended (h : k.Faithful) (hsuspended : k.isSuspended = true) :
    k.locked = false ∧ k.result.isSome = true ∧ ∃ r, k.resultFree = some r := by
  have hpublished : k.published = true := published_of_notified (notified_of_suspended hsuspended)
  have hlocked : k.locked = false := by
    unfold isSuspended at hsuspended
    unfold locked
    cases hactivity : k.activity <;> simp_all
  have hsome := h.published.trans hpublished
  obtain ⟨r, hr⟩ := Option.isSome_iff_exists.mp hsome
  refine ⟨hlocked, hsome, r, ?_⟩
  rw [resultFree, hlocked]
  exact hr

theorem left_of_over (h : k.isOver = true) : k.left = 0 := by
  unfold isOver isSuspended isDestroyed at h
  unfold left
  cases hactivity : k.activity <;> simp_all

/-- The `Task` whose destructor goes on is in hand. -/
theorem inHand_of_dropped {child : TaskHandle V} (h : k.dropped = some child) :
    k.inHand = some child := by
  unfold dropped at h
  unfold inHand
  split at h
  case h_1 heq =>
    rw [heq]
    exact h
  case h_2 heq =>
    rw [heq]
    exact h
  case h_3 => cases h

/-! ## One step of it -/

theorem filterMap_set_none {locals : List (Option (TaskHandle V))} {i : Nat}
    {child : TaskHandle V} (hi : locals[i]? = some (some child)) :
    (child :: (locals.set i none).filterMap id).Perm (locals.filterMap id) := by
  induction locals generalizing i with
  | nil => cases hi
  | cons l locals ih =>
      cases i with
      | zero =>
          obtain rfl := Option.some.inj hi
          exact .refl _
      | succ i =>
          cases l with
          | none => exact ih hi
          | some other => exact (List.Perm.swap other child _).trans ((ih hi).cons other)

section Steps

variable {program : Program V} {parent : Option Nat} {result : Option (Result V)}
  {locals : List (Option (TaskHandle V))} {child : TaskHandle V} {onValue : V → Program V}
  {onThrow : Exn → Program V} {inFlight : Option Exn} {e : Exn} {v : V} {x : Flow Exn V}

theorem Faithful.coReturn
    (h : Faithful ⟨program, parent, .ready (.coReturn v), result, locals⟩) :
    Faithful ⟨program, parent, .publishing false, some (.ofValue v), locals⟩ where
  value := rfl
  calm := h.calm
  result := by
    rintro r ⟨⟩
    exact h.value.symm
  published := rfl
  given := by rintro p ⟨⟩
  dropped := by rintro p ⟨⟩
  atEnd := by rintro ⟨⟩

theorem Faithful.throws (h : Faithful ⟨program, parent, .ready (.throws e), result, locals⟩) :
    Faithful ⟨program, parent, .closing (some e) none, result, locals⟩ where
  value := h.value
  calm := h.calm
  result := h.result
  published := h.published
  given := by rintro p ⟨⟩
  dropped := by rintro p ⟨⟩
  atEnd := by rintro ⟨⟩

theorem Faithful.start {inner rest : Program V} (n : Nat)
    (h : Faithful ⟨program, parent, .ready (.start inner rest), result, locals⟩) :
    Faithful ⟨program, parent, .ready rest, result, some ⟨n, inner⟩ :: locals⟩ where
  value := h.value
  calm := by
    have hcalm : program.Calm [] ↔ (inner.Good ∧ rest.Calm _) ∧
        ∀ h ∈ locals.filterMap id, h.program.Good := h.calm
    have hhandles : handles ⟨program, parent, .ready rest, result, some ⟨n, inner⟩ :: locals⟩ =
        ⟨n, inner⟩ :: locals.filterMap id := rfl
    rw [hcalm, hhandles, List.forall_mem_cons, and_comm (a := inner.Good), and_assoc]
    exact Iff.rfl
  result := h.result
  published := h.published
  given := by rintro p ⟨⟩
  dropped := by rintro p ⟨⟩
  atEnd := by rintro ⟨⟩

theorem Faithful.coAwait {i : Nat} (hi : locals[i]? = some (some child))
    (h : Faithful ⟨program, parent, .ready (.coAwait i onValue onThrow), result, locals⟩) :
    Faithful ⟨program, parent, .awaiting .leaving child onValue onThrow, result,
      locals.set i none⟩ := by
  let k : Coroutine V := ⟨program, parent, .ready (.coAwait i onValue onThrow), result, locals⟩
  let k' : Coroutine V :=
    ⟨program, parent, .awaiting .leaving child onValue onThrow, result, locals.set i none⟩
  have henv : k'.env = k.env.set i none := List.map_set
  have hread : k.env[i]? = some (some (child.program.eval [])) := by
    show (locals.map _)[i]? = _
    rw [List.getElem?_map, hi]
    rfl
  have hvalue : k.outlook = k'.outlook := by
    show _ = Program.evalAfter _ _ _ k'.env
    rw [henv]
    exact Program.eval_coAwait hread
  have hremains : k.Remains ↔ k'.Remains := by
    show _ ↔ Program.CalmAfter _ _ k'.env
    rw [henv]
    exact Program.calm_coAwait hread
  have hhandles : k'.handles.Perm k.handles := filterMap_set_none hi
  refine ⟨h.value.trans hvalue, ?_, h.result, h.published, by rintro p ⟨⟩, by rintro p ⟨⟩,
    by rintro ⟨⟩⟩
  have hcalm : program.Calm [] ↔ k.Remains ∧ ∀ h ∈ k.handles, h.program.Good := h.calm
  rw [hcalm, hremains]
  exact and_congr_right fun _ => forall_congr' fun x => imp_congr_left hhandles.mem_iff.symm

theorem Faithful.phase {phase : AwaitPhase} (phase' : AwaitPhase)
    (h : Faithful ⟨program, parent, .awaiting phase child onValue onThrow, result, locals⟩) :
    Faithful ⟨program, parent, .awaiting phase' child onValue onThrow, result, locals⟩ where
  value := h.value
  calm := h.calm
  result := h.result
  published := h.published
  given := by rintro p ⟨⟩
  dropped := by rintro p ⟨⟩
  atEnd := by rintro ⟨⟩

theorem Faithful.resume {phase : AwaitPhase} (hx : x = child.program.eval [])
    (h : Faithful ⟨program, parent, .awaiting phase child onValue onThrow, result, locals⟩) :
    Faithful ⟨program, parent, .ending child x false onValue onThrow, result, locals⟩ where
  value := h.value
  calm := h.calm
  result := h.result
  published := h.published
  given := by
    rintro p ⟨⟩
    exact hx
  dropped := by rintro p ⟨⟩
  atEnd := by rintro ⟨⟩

theorem Faithful.dropAwaiter (hchild : ∃ v, child.program.eval [] = .normal v)
    (h : Faithful ⟨program, parent, .ending child x false onValue onThrow, result, locals⟩) :
    Faithful ⟨program, parent, .ending child x true onValue onThrow, result, locals⟩ where
  value := h.value
  calm := h.calm
  result := h.result
  published := h.published
  given := h.given
  dropped := by
    rintro p ⟨⟩
    exact hchild
  atEnd := by rintro ⟨⟩

/-- A `Task` that is good is not missed. -/
theorem good_tail {P : Prop} {handles : List (TaskHandle V)} {remains : Prop}
    (hgood : child.program.Good)
    (h : P ↔ remains ∧ ∀ c ∈ child :: handles, c.program.Good) :
    P ↔ remains ∧ ∀ c ∈ handles, c.program.Good := by
  rw [h, List.forall_mem_cons, and_iff_right hgood]

theorem Faithful.resumed (hgood : child.program.Good)
    (h : Faithful ⟨program, parent, .ending child (.normal v) true onValue onThrow, result,
      locals⟩) :
    Faithful ⟨program, parent, .ready (onValue v), result, locals⟩ := by
  have hgiven : Flow.normal v = child.program.eval [] := h.given _ rfl
  have hvalue : program.eval [] = Program.evalAfter (child.program.eval []) _ _ _ := h.value
  have hcalm : program.Calm [] ↔ Program.CalmAfter (child.program.eval []) _ _ ∧
      ∀ c ∈ child :: locals.filterMap id, c.program.Good := h.calm
  rw [← hgiven] at hvalue hcalm
  exact ⟨hvalue, good_tail hgood hcalm, h.result, h.published, by rintro p ⟨⟩, by rintro p ⟨⟩,
    by rintro ⟨⟩⟩

/-- `~Task` has ended the program before. -/
theorem Faithful.not_thrown
    (h : Faithful ⟨program, parent, .ending child (.throws e) true onValue onThrow, result,
      locals⟩) : False := by
  have hgiven : Flow.throws e = child.program.eval [] := h.given _ rfl
  obtain ⟨v, hv⟩ := h.dropped child rfl
  rw [hv] at hgiven
  cases hgiven

theorem Faithful.closeMoved
    (h : Faithful ⟨program, parent, .closing inFlight none, result, none :: locals⟩) :
    Faithful ⟨program, parent, .closing inFlight none, result, locals⟩ := by
  cases inFlight with
  | none =>
      exact ⟨h.value, h.calm, h.result, h.published, by rintro p ⟨⟩, by rintro p ⟨⟩, by rintro ⟨⟩⟩
  | some e =>
      exact ⟨h.value, h.calm, h.result, h.published, by rintro p ⟨⟩, by rintro p ⟨⟩, by rintro ⟨⟩⟩

theorem Faithful.dropLocal (hchild : ∃ v, child.program.eval [] = .normal v)
    (h : Faithful ⟨program, parent, .closing inFlight none, result, some child :: locals⟩) :
    Faithful ⟨program, parent, .closing inFlight (some child), result, locals⟩ := by
  have hdropped : ∀ c ∈ some child, ∃ v, c.program.eval [] = .normal v := by
    rintro c ⟨⟩
    exact hchild
  cases inFlight with
  | none =>
      exact ⟨h.value, h.calm, h.result, h.published, by rintro p ⟨⟩, hdropped, by rintro ⟨⟩⟩
  | some e =>
      exact ⟨h.value, h.calm, h.result, h.published, by rintro p ⟨⟩, hdropped, by rintro ⟨⟩⟩

theorem Faithful.closed (hgood : child.program.Good)
    (h : Faithful ⟨program, parent, .closing inFlight (some child), result, locals⟩) :
    Faithful ⟨program, parent, .closing inFlight none, result, locals⟩ := by
  have hcalm : program.Calm [] ↔ True ∧ ∀ c ∈ locals.filterMap id, c.program.Good :=
    good_tail hgood h.calm
  cases inFlight with
  | none =>
      exact ⟨h.value, hcalm, h.result, h.published, by rintro p ⟨⟩, by rintro p ⟨⟩, by rintro ⟨⟩⟩
  | some e =>
      exact ⟨h.value, hcalm, h.result, h.published, by rintro p ⟨⟩, by rintro p ⟨⟩, by rintro ⟨⟩⟩

theorem Faithful.publish [Inhabited V]
    (h : Faithful ⟨program, parent, .closing (some e) none, result, []⟩) :
    Faithful ⟨program, parent, .publishing false, some (.ofException e), []⟩ where
  value := rfl
  calm := h.calm
  result := by
    rintro r ⟨⟩
    exact h.value.symm
  published := rfl
  given := by rintro p ⟨⟩
  dropped := by rintro p ⟨⟩
  atEnd := by rintro ⟨⟩

theorem Faithful.notify
    (h : Faithful ⟨program, parent, .publishing false, result, locals⟩) :
    Faithful ⟨program, parent, .publishing true, result, locals⟩ :=
  ⟨h.value, h.calm, h.result, h.published, by rintro p ⟨⟩, by rintro p ⟨⟩, by rintro ⟨⟩⟩

theorem Faithful.release
    (h : Faithful ⟨program, parent, .publishing true, result, locals⟩) :
    Faithful ⟨program, parent, .closing none none, result, locals⟩ :=
  ⟨h.value, h.calm, h.result, h.published, by rintro p ⟨⟩, by rintro p ⟨⟩, by rintro ⟨⟩⟩

theorem Faithful.finalSuspend
    (h : Faithful ⟨program, parent, .closing none none, result, []⟩) :
    Faithful ⟨program, parent, .suspended, result, []⟩ :=
  ⟨h.value, h.calm, h.result, h.published, by rintro p ⟨⟩, by rintro p ⟨⟩, fun _ => rfl⟩

theorem Faithful.destroy
    (h : Faithful ⟨program, parent, .suspended, result, locals⟩) :
    Faithful ⟨program, parent, .destroyed, result, locals⟩ :=
  ⟨h.value, h.calm, h.result, h.published, by rintro p ⟨⟩, by rintro p ⟨⟩, fun _ => h.atEnd rfl⟩

end Steps

/-- A callback of `t` hands over the coroutine that waits for `t`, and no other. -/
inductive CallsBack (t : Nat) : Coroutine V → Coroutine V → Prop where
  | handsOver (k : Coroutine V) (child : TaskHandle V) (onValue : V → Program V)
      (onThrow : Exn → Program V) (waits : child.id = t) :
      CallsBack t { k with activity := .awaiting .registered child onValue onThrow }
        { k with activity := .awaiting .dispatched child onValue onThrow }
  | stays (k : Coroutine V) (other : ∀ x ∈ k.registeredFor, x.id ≠ t) : CallsBack t k k

theorem callsBack (t : Nat) (k : Coroutine V) : CallsBack t k (k.callBack t) := by
  obtain ⟨program, parent, activity, result, locals⟩ := k
  let k : Coroutine V := ⟨program, parent, activity, result, locals⟩
  unfold Coroutine.callBack
  split
  case h_1 child onValue onThrow hactivity =>
    change activity = _ at hactivity
    subst hactivity
    split
    case isTrue hid => exact .handsOver k child onValue onThrow hid
    case isFalse hid =>
      refine .stays _ ?_
      rintro x ⟨⟩
      exact hid
  case h_2 hno =>
    refine .stays _ fun x hx => ?_
    unfold registeredFor at hx
    split at hx
    case h_1 child onValue onThrow hactivity => exact absurd hactivity (hno child onValue onThrow)
    case h_2 => cases hx

theorem CallsBack.faithful {t : Nat} {k' : Coroutine V} (h : CallsBack t k k')
    (hk : k.Faithful) : k'.Faithful := by
  cases h with
  | handsOver => exact hk.phase .dispatched
  | stays => exact hk

theorem CallsBack.left {t : Nat} {k' : Coroutine V} (h : CallsBack t k k') : k'.left = k.left := by
  cases h with
  | handsOver => rfl
  | stays => rfl

end Coroutine

end Npp.Task
