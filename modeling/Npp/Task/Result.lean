import Mathlib.Logic.Basic

/-!
# Results and exceptions

`Result<T>` keeps either a value or an exception pointer, and `get_or_throw` gives the one back
or throws the other.
-/

namespace Npp.Task

/-- A thrown object. `catch (std::exception &)` sees the first kind only. -/
inductive Exn where
  | std (what : String)
  | foreign (tag : Nat)
deriving DecidableEq, Repr

def Exn.isStd : Exn → Bool
  | .std _ => true
  | .foreign _ => false

structure Result (T : Type) where
  value : T
  exceptionPtr : Option Exn
deriving DecidableEq, Repr

namespace Result

variable {T : Type}

def ofValue (v : T) : Result T := ⟨v, none⟩

/-- `Result(std::exception_ptr &&)`; the value stays value-initialised. -/
def ofException [Inhabited T] (e : Exn) : Result T := ⟨default, some e⟩

def getOrThrow (r : Result T) : Except Exn T :=
  match r.exceptionPtr with
  | some e => .error e
  | none => .ok r.value

@[simp] theorem getOrThrow_ofValue (v : T) : (ofValue v).getOrThrow = .ok v := rfl

@[simp] theorem getOrThrow_ofException [Inhabited T] (e : Exn) :
    (ofException e : Result T).getOrThrow = .error e := rfl

end Result

end Npp.Task
