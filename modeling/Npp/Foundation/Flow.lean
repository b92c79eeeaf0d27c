import Mathlib.Logic.Basic

/-!
# Control flow with destructors

How an evaluation ends in a language whose destructors run when an exception passes their scope:
with a value, with an exception in flight, or with the program terminated. `within` is the rule
for one object: its destructor runs on both ways out, and a destructor that throws while an
exception is in flight terminates the program.
-/

namespace Npp.Foundation

inductive Flow (ε α : Type*) where
  | normal (a : α)
  | throws (e : ε)
  | terminated
deriving DecidableEq, Repr

namespace Flow

variable {ε α β : Type*}

def bind : Flow ε α → (α → Flow ε β) → Flow ε β
  | .normal a, f => f a
  | .throws e, _ => .throws e
  | .terminated, _ => .terminated

def ofExcept : Except ε α → Flow ε α
  | .ok a => .normal a
  | .error e => .throws e

/-- A function that may not throw. -/
def noexcept : Flow ε α → Flow ε α
  | .throws _ => .terminated
  | x => x

/-- `body`, in the scope of an object with the given destructor. -/
def within (body : Flow ε α) (destructor : Flow ε Unit) : Flow ε α :=
  match body, destructor with
  | .terminated, _ => .terminated
  | _, .terminated => .terminated
  | .normal a, .normal () => .normal a
  | .normal _, .throws e => .throws e
  | .throws e, .normal () => .throws e
  | .throws _, .throws _ => .terminated

/-- `try body catch`, for the exceptions that the clause catches. -/
def tryCatch (body : Flow ε α) (catches : ε → Bool) (handler : ε → Flow ε α) : Flow ε α :=
  match body with
  | .throws e => if catches e then handler e else .throws e
  | x => x

@[simp] theorem bind_normal (a : α) (f : α → Flow ε β) : (Flow.normal a).bind f = f a := rfl

@[simp] theorem bind_throws (e : ε) (f : α → Flow ε β) : (Flow.throws e).bind f = .throws e := rfl

@[simp] theorem bind_terminated (f : α → Flow ε β) :
    (Flow.terminated : Flow ε α).bind f = .terminated := rfl

@[simp] theorem noexcept_normal (a : α) : (Flow.normal a : Flow ε α).noexcept = .normal a := rfl

@[simp] theorem noexcept_throws (e : ε) : (Flow.throws e : Flow ε α).noexcept = .terminated := rfl

@[simp] theorem within_normal (body : Flow ε α) : body.within (.normal ()) = body := by
  cases body <;> rfl

@[simp] theorem within_terminated (body : Flow ε α) : body.within .terminated = .terminated := by
  cases body <;> rfl

@[simp] theorem tryCatch_normal (a : α) (catches : ε → Bool) (handler : ε → Flow ε α) :
    (Flow.normal a).tryCatch catches handler = .normal a := rfl

@[simp] theorem tryCatch_terminated (catches : ε → Bool) (handler : ε → Flow ε α) :
    (Flow.terminated : Flow ε α).tryCatch catches handler = .terminated := rfl

theorem tryCatch_caught {e : ε} {catches : ε → Bool} (h : catches e = true)
    (handler : ε → Flow ε α) : (Flow.throws e).tryCatch catches handler = handler e := by
  simp [tryCatch, h]

end Flow

end Npp.Foundation
