import Npp.Task.AwaitChain
import Npp.Task.WriteOnce

/-!
# Callbacks that use their own task

The function of a callback is a program of calls on the task it is registered on: it reads the
result, registers further callbacks, or resumes the parent that awaits the task, on the same
thread. `completion_lock` is not recursive, so a thread that locks it while it holds it is stuck.
The completing thread calls the callbacks inside its critical section; `on_completed` of a
completed task has released the lock when it calls its own.
-/

namespace Npp.Task

open Npp.Foundation

variable {T : Type}

/-- The function of a callback. `resumeParent` is the `finally` function of `TaskAwaiter`, with an
executor that runs inline. -/
inductive Body where
  | done
  | getResult (rest : Body)
  | register (hook : Hook) (func rest : Body)
  | resumeParent
deriving DecidableEq, Repr

inductive CallEnding where
  | returned
  | threw (e : Exn)
  | terminated
  | stuck
deriving DecidableEq, Repr

/-- What is seen of a run: the result, what each `get_result` of a callback gave, and the functions
called, by the number of their registration. -/
structure Trace (T : Type) where
  result : Option (Result T) := none
  reads : List (Except Exn T) := []
  registered : Nat := 0
  invocations : List (Nat × Call T) := []
deriving DecidableEq, Repr

namespace Trace

def read (t : Trace T) (r : Result T) : Trace T := { t with reads := t.reads ++ [r.getOrThrow] }

def register (t : Trace T) : Trace T := { t with registered := t.registered + 1 }

end Trace

/-- The wrapper of registration `id` around a function that is run by `func`. -/
def Hook.deliver (hook : Hook) (func : Trace T → Trace T × CallEnding) (id : Nat) (r : Result T)
    (t : Trace T) : Trace T × CallEnding :=
  match hook.wrapper r with
  | .error e => (t, .threw e)
  | .ok none => (t, .returned)
  | .ok (some call) =>
      match func { t with invocations := t.invocations ++ [(id, call)] } with
      | (t', .threw e) => (t', if hook.swallows e then .returned else .threw e)
      | (t', ending) => (t', ending)

/-- The end of the `co_await` in a parent that is resumed on this thread; what the parent does not
catch ends up in its own promise. -/
def parentEnding (r : Result T) : CallEnding :=
  match r.coAwait with
  | .terminated => .terminated
  | _ => .returned

/-- The function runs on a thread that holds `completion_lock` or does not, after the result `r` was
set. -/
def Body.run (held : Bool) (r : Result T) : Body → Trace T → Trace T × CallEnding
  | .done, t => (t, .returned)
  | .getResult rest, t =>
      if held then (t, .stuck)
      else
        match r.getOrThrow with
        | .ok _ => rest.run held r (t.read r)
        | .error e => (t.read r, .threw e)
  | .register hook func rest, t =>
      if held then (t, .stuck)
      else
        match hook.deliver (func.run held r) t.registered r t.register with
        | (t', .returned) => rest.run held r t'
        | (t', ending) => (t', ending)
  | .resumeParent, t =>
      if held then (t, .stuck)
      -- `before_resume`, and `~Task` at the end of the full expression
      else ((t.read r).read r, parentEnding r)

/-- `return_value` or `unhandled_exception` with the one callback in the list, under the lock. -/
def publishTo (hook : Hook) (func : Body) (r : Result T) (t : Trace T) : Trace T × CallEnding :=
  hook.deliver (func.run true r) 0 r { t with result := some r }

variable [Inhabited T]

def early (hook : Hook) (func : Body) (outcome : Except Exn T) : Trace T × CallEnding :=
  let t : Trace T := { registered := 1 }
  match outcome with
  | .ok v =>
      match publishTo hook func (.ofValue v) t with
      -- the implicit handler of the body
      | (t', .threw e) => publishTo hook func (.ofException e) t'
      | (t', ending) => (t', ending)
  | .error e => publishTo hook func (.ofException e) t

def late (hook : Hook) (func : Body) (outcome : Except Exn T) : Trace T × CallEnding :=
  let r := outcomeResult outcome
  hook.deliver (func.run false r) 0 r { result := some r, registered := 1 }

def Agree (hook : Hook) (func : Body) (outcome : Except Exn T) : Prop :=
  (early hook func outcome).2 ≠ .stuck ∧ (late hook func outcome).2 ≠ .stuck ∧
  (early hook func outcome).1.result = (late hook func outcome).1.result ∧
  (early hook func outcome).1.reads = (late hook func outcome).1.reads ∧
  (early hook func outcome).1.invocations.Perm (late hook func outcome).1.invocations

/-- The wrapper calls its function for this outcome. -/
def Hook.Triggered (hook : Hook) (outcome : Except Exn T) : Prop :=
  ∃ call, hook.wrapper (outcomeResult outcome) = .ok (some call)

/-! ## With the lock -/

omit [Inhabited T] in
/-- Every call on the task begins with its lock. -/
theorem run_held {func : Body} (h : func ≠ .done) (r : Result T) (t : Trace T) :
    func.run true r t = (t, .stuck) := by
  cases func with
  | done => exact absurd rfl h
  | getResult rest => rfl
  | register hook func rest => rfl
  | resumeParent => rfl

theorem publishTo_stuck {hook : Hook} {func : Body} {outcome : Except Exn T}
    (htriggered : hook.Triggered outcome) (h : func ≠ .done) (t : Trace T) :
    (publishTo hook func (outcomeResult outcome) t).2 = .stuck := by
  obtain ⟨call, hcall⟩ := htriggered
  simp only [publishTo, Hook.deliver, hcall, run_held h]

theorem early_ok (hook : Hook) (func : Body) (v : T) :
    early hook func (.ok v) =
      match publishTo hook func (.ofValue v) { registered := 1 } with
      | (t, .threw e) => publishTo hook func (.ofException e) t
      | (t, ending) => (t, ending) := rfl

theorem early_stuck {hook : Hook} {func : Body} {outcome : Except Exn T}
    (htriggered : hook.Triggered outcome) (h : func ≠ .done) :
    (early hook func outcome).2 = .stuck := by
  cases outcome with
  | ok v =>
      have hstuck : (publishTo hook func (.ofValue v) { registered := 1 }).2 = .stuck :=
        publishTo_stuck htriggered h { registered := 1 }
      rw [early_ok]
      split
      case h_1 t' e hpass =>
        rw [hpass] at hstuck
        cases hstuck
      case h_2 t' ending _ hpass =>
        rw [hpass] at hstuck
        exact hstuck
  | error e => exact publishTo_stuck htriggered h { registered := 1 }

/-! ## Without the lock -/

omit [Inhabited T] in
theorem deliver_not_stuck (hook : Hook) {func : Trace T → Trace T × CallEnding}
    (hfunc : ∀ t, (func t).2 ≠ .stuck) (id : Nat) (r : Result T) (t : Trace T) :
    (hook.deliver func id r t).2 ≠ .stuck := by
  unfold Hook.deliver
  split
  case h_1 => rintro ⟨⟩
  case h_2 => rintro ⟨⟩
  case h_3 call _ =>
    have hcalled := hfunc { t with invocations := t.invocations ++ [(id, call)] }
    split
    case h_1 t' e _ =>
      cases hook.swallows e <;> rintro ⟨⟩
    case h_2 t' ending _ hrun =>
      rw [hrun] at hcalled
      exact hcalled

omit [Inhabited T] in
/-- A thread that does not hold the lock is never stuck, however deep the callbacks are nested. -/
theorem run_free (func : Body) (r : Result T) (t : Trace T) :
    (func.run false r t).2 ≠ .stuck := by
  induction func generalizing t with
  | done => rintro ⟨⟩
  | getResult rest ih =>
      simp only [Body.run, Bool.false_eq_true, if_false]
      split
      case h_1 => exact ih _
      case h_2 => rintro ⟨⟩
  | register hook func rest ihfunc ihrest =>
      simp only [Body.run, Bool.false_eq_true, if_false]
      have hdeliver := deliver_not_stuck hook ihfunc t.registered r t.register
      split
      case h_1 => exact ihrest _
      case h_2 t' ending _ hrun =>
        rw [hrun] at hdeliver
        exact hdeliver
  | resumeParent =>
      simp only [Body.run, Bool.false_eq_true, if_false, parentEnding]
      split
      case h_1 => rintro ⟨⟩
      case h_2 => rintro ⟨⟩

theorem late_not_stuck (hook : Hook) (func : Body) (outcome : Except Exn T) :
    (late hook func outcome).2 ≠ .stuck :=
  deliver_not_stuck hook (fun t => run_free func _ t) 0 _ _

/-! ## The two runs -/

omit [Inhabited T] in
/-- What is not called, or does nothing, does not need to know whether the lock is held. -/
theorem deliver_idle {hook : Hook} {func : Body} {r : Result T}
    (h : ∀ call, hook.wrapper r = .ok (some call) → func = .done) (held : Bool) (id : Nat)
    (t : Trace T) :
    hook.deliver (func.run held r) id r t = hook.deliver (func.run false r) id r t := by
  unfold Hook.deliver
  split
  case h_1 => rfl
  case h_2 => rfl
  case h_3 call hcall =>
    rw [h call hcall]
    rfl

/-- A wrapper does not rethrow a value, and an empty function throws nothing. -/
theorem late_ok_returned {hook : Hook} {func : Body} {v : T}
    (h : hook.Triggered (.ok v : Except Exn T) → func = .done) :
    (late hook func (.ok v)).2 = .returned := by
  cases hook with
  | then_ =>
      obtain rfl := h ⟨.then_ v, rfl⟩
      rfl
  | catching => rfl
  | finally_ =>
      obtain rfl := h ⟨.finally_, rfl⟩
      rfl

theorem early_eq_late {hook : Hook} {func : Body} {outcome : Except Exn T}
    (h : hook.Triggered outcome → func = .done) :
    early hook func outcome = late hook func outcome := by
  have hpublish : publishTo hook func (outcomeResult outcome) { registered := 1 } =
      late hook func outcome :=
    deliver_idle (fun call hcall => h ⟨call, hcall⟩) true 0 _
  cases outcome with
  | ok v =>
      rw [early_ok]
      change publishTo hook func (.ofValue v) { registered := 1 } = _ at hpublish
      rw [hpublish]
      split
      case h_1 t e hlate =>
        have hreturned := late_ok_returned h
        rw [hlate] at hreturned
        cases hreturned
      case h_2 t ending _ hlate => exact hlate.symm
  | error e => exact hpublish

theorem agree_of_idle {hook : Hook} {func : Body} {outcome : Except Exn T}
    (h : hook.Triggered outcome → func = .done) : Agree hook func outcome := by
  have hnot := late_not_stuck hook func outcome
  rw [Agree, early_eq_late h]
  exact ⟨hnot, hnot, rfl, rfl, List.Perm.refl _⟩

/-- **Early and late registration agree** exactly when the wrapper does not call its function for
the outcome, or the function does nothing. Otherwise the early run is stuck; the late one never
is. -/
theorem agree_iff (hook : Hook) (func : Body) (outcome : Except Exn T) :
    (Agree hook func outcome ↔ (hook.Triggered outcome → func = .done)) ∧
    (late hook func outcome).2 ≠ .stuck ∧
    (hook.Triggered outcome → func ≠ .done → (early hook func outcome).2 = .stuck) := by
  refine ⟨⟨?_, agree_of_idle⟩, late_not_stuck hook func outcome, early_stuck⟩
  intro hagree htriggered
  by_contra hbusy
  exact hagree.1 (early_stuck htriggered hbusy)

/-- A `finally` function that reads the result of its task, which returns 7, and the parent that
awaits it with an inline executor. -/
theorem not_agree :
    (early .finally_ (.getResult .done) (.ok 7 : Except Exn Nat)).2 = .stuck ∧
    (late .finally_ (.getResult .done) (.ok 7 : Except Exn Nat)).2 = .returned ∧
    (late .finally_ (.getResult .done) (.ok 7 : Except Exn Nat)).1.reads = [.ok 7] ∧
    (early .finally_ .resumeParent (.ok 7 : Except Exn Nat)).2 = .stuck ∧
    ¬ Agree .finally_ (.getResult .done) (.ok 7 : Except Exn Nat) :=
  ⟨rfl, rfl, rfl, rfl, fun h => h.1 rfl⟩

end Npp.Task
