import Npp.Foundation.Flow
import Npp.Task.Result
import Mathlib.Data.List.Basic

/-!
# Exceptions through a chain of awaited tasks

`T1` awaits the temporary task of `T2`, and so on to `Tn`. A task runs its body and its promise
keeps a `Result`; the parent's `await_resume` takes the result out again with `get_result`. The
awaiter owns the child's `Task`, so `~Task` runs at the end of the `co_await`, whichever way that
is left, and `~Task` calls `get_result` once more.
-/

namespace Npp.Task

open Npp.Foundation

variable {V : Type}

namespace Result

/-- `get_result` on a task that has completed. -/
def getResult (r : Result V) : Flow Exn V := .ofExcept r.getOrThrow

/-- `~Task` of a task that has completed; a destructor may not throw. -/
def destroyTask (r : Result V) : Flow Exn Unit :=
  Flow.noexcept (r.getResult.bind fun _ => .normal ())

def beforeResume (r : Result V) : Flow Exn (Result V) :=
  r.getResult.bind fun v => .normal (.ofValue v)

def awaitResume (r : Result V) : Flow Exn V :=
  r.beforeResume.bind fun result => .ofExcept result.getOrThrow

/-- `co_await` of a temporary task that ends with `r`: the awaiter lives to the end of the full
expression. -/
def coAwait (r : Result V) : Flow Exn V := r.awaitResume.within r.destroyTask

end Result

/-- What the promise keeps of its body: `return_value` or `unhandled_exception`. -/
def promise [Inhabited V] : Flow Exn V → Option (Result V)
  | .normal v => some (.ofValue v)
  | .throws e => some (.ofException e)
  | .terminated => none

/-- A task that awaits the next one. `handler`, if any, surrounds the `co_await` and gives the
value the body goes on with; `resume` is the rest of the body. -/
structure Level (V : Type) where
  handler : Option (Exn → V)
  resume : V → V

namespace Level

def awaitInner (level : Level V) (inner : Result V) : Flow Exn V :=
  match level.handler with
  | none => inner.coAwait
  | some handler => inner.coAwait.tryCatch Exn.isStd fun e => .normal (handler e)

def handles (level : Level V) (inner : Result V) : Option Exn :=
  match level.handler, inner.coAwait with
  | some _, .throws e => if e.isStd then some e else none
  | _, _ => none

def body (level : Level V) (inner : Result V) : Flow Exn V :=
  (level.awaitInner inner).bind fun v => .normal (level.resume v)

end Level

/-- How a task ended, `none` being the end of the program, and which handlers ran, with the index
of their task. -/
structure Ended (V : Type) where
  result : Option (Result V)
  handled : List (Nat × Exn) := []

variable [Inhabited V]

/-- Run the chain from task `i` on: `levels` are the awaiting tasks, `last` is what `Tn` does. -/
def runChain (i : Nat) : List (Level V) → Except Exn V → Ended V
  | [], last => { result := promise (.ofExcept last) }
  | level :: levels, last =>
      let inner := runChain (i + 1) levels last
      match inner.result with
      | some r =>
          { result := promise (level.body r)
            handled := inner.handled ++ ((level.handles r).map fun e => (i, e)).toList }
      | none => inner

/-- Where the caller of `get_result` keeps the `Task` of `T1`. -/
inductive Scope where
  | insideTry
  | outsideTry
deriving DecidableEq, Repr

inductive Received (V : Type) where
  | value (v : V)
  | caught (e : Exn)
deriving DecidableEq, Repr

def callGetResult (scope : Scope) (r : Result V) : Flow Exn (Received V) :=
  let call : Flow Exn (Received V) := r.getResult.bind fun v => .normal (.value v)
  let block := match scope with
    | .insideTry => call.within r.destroyTask
    | .outsideTry => call
  block.tryCatch Exn.isStd fun e => .normal (.caught e)

def leaveScope (scope : Scope) (r : Result V) : Flow Exn Unit :=
  match scope with
  | .insideTry => .normal ()
  | .outsideTry => r.destroyTask

/-- A whole run: what the caller's try block ends with, and the end of the scope around it. -/
structure ChainRun (V : Type) where
  received : Flow Exn (Received V)
  afterwards : Flow Exn Unit
  handled : List (Nat × Exn)

def runCaller (levels : List (Level V)) (last : Except Exn V) (scope : Scope) : ChainRun V :=
  let chain := runChain 1 levels last
  match chain.result with
  | some r => ⟨callGetResult scope r, leaveScope scope r, chain.handled⟩
  | none => ⟨.terminated, .terminated, chain.handled⟩

/-- What the tasks around a task that returned `v` make of it. -/
def resumeAll (levels : List (Level V)) (v : V) : V := levels.foldr (fun l v => l.resume v) v

/-- The handler of the innermost catching task runs with `e` and everybody goes on normally, or
the caller catches `e`; and the program is not terminated. -/
structure Propagates (levels : List (Level V)) (e : Exn) (run : ChainRun V) : Prop where
  caught : ∀ j level handler, levels[j]? = some level → level.handler = some handler →
    (∀ l ∈ levels.drop (j + 1), l.handler = none) →
    run.handled = [(j + 1, e)] ∧
      run.received = .normal (.value (resumeAll (levels.take (j + 1)) (handler e)))
  uncaught : (∀ l ∈ levels, l.handler = none) →
    run.handled = [] ∧ run.received = .normal (.caught e)
  alive : run.received ≠ .terminated

/-! ## Values and exceptions -/

namespace Result

omit [Inhabited V] in
@[simp] theorem getResult_ofValue (v : V) : (ofValue v).getResult = .normal v := by
  rw [getResult, getOrThrow_ofValue, Flow.ofExcept]

@[simp] theorem getResult_ofException (e : Exn) :
    (ofException e : Result V).getResult = .throws e := by
  rw [getResult, getOrThrow_ofException, Flow.ofExcept]

omit [Inhabited V] in
theorem destroyTask_ofValue (v : V) : (ofValue v).destroyTask = .normal () := by
  rw [destroyTask, getResult_ofValue, Flow.bind_normal, Flow.noexcept_normal]

/-- `~Task` of a task that threw ends the program, wherever it runs. -/
theorem destroyTask_ofException (e : Exn) :
    (ofException e : Result V).destroyTask = .terminated := by
  rw [destroyTask, getResult_ofException, Flow.bind_throws, Flow.noexcept_throws]

omit [Inhabited V] in
theorem coAwait_ofValue (v : V) : (ofValue v).coAwait = .normal v := by
  rw [coAwait, destroyTask_ofValue, Flow.within_normal, awaitResume, beforeResume,
    getResult_ofValue, Flow.bind_normal, Flow.bind_normal, getOrThrow_ofValue, Flow.ofExcept]

/-- While the exception of the child is in flight, `~Task` throws it once more. -/
theorem coAwait_ofException (e : Exn) : (ofException e : Result V).coAwait = .terminated := by
  rw [coAwait, destroyTask_ofException, Flow.within_terminated]

end Result

/-- No handler helps: the program ends before the exception reaches it. -/
theorem Level.body_ofException (level : Level V) (e : Exn) :
    level.body (.ofException e) = .terminated ∧ level.handles (.ofException e) = none := by
  have hinner : level.awaitInner (.ofException e) = .terminated := by
    unfold awaitInner
    cases level.handler with
    | none => exact Result.coAwait_ofException e
    | some handler =>
        dsimp only
        rw [Result.coAwait_ofException, Flow.tryCatch_terminated]
  constructor
  · rw [body, hinner, Flow.bind_terminated]
  · unfold handles
    rw [Result.coAwait_ofException]
    cases level.handler <;> rfl

/-- A program that has ended runs no task further out. -/
theorem runChain_dead {i : Nat} {level : Level V} {levels : List (Level V)} {last : Except Exn V}
    (h : (runChain (i + 1) levels last).result = none) :
    runChain i (level :: levels) last = runChain (i + 1) levels last := by
  simp only [runChain, h]

/-- An exception ends the program at the first `co_await` on its way. -/
theorem runChain_exception (i : Nat) (level : Level V) (levels : List (Level V)) (e : Exn) :
    (runChain i (level :: levels) (.error e)).result = none ∧
      (runChain i (level :: levels) (.error e)).handled = [] := by
  induction levels generalizing i level with
  | nil =>
      obtain ⟨hbody, hhandles⟩ := level.body_ofException e
      have hlast : (runChain (i + 1) ([] : List (Level V)) (.error e)).result =
        some (.ofException e) := rfl
      unfold runChain
      simp only [hlast, hbody, hhandles]
      exact ⟨rfl, rfl⟩
  | cons level' levels ih =>
      obtain ⟨hresult, hhandled⟩ := ih (i + 1) level'
      rw [runChain_dead hresult]
      exact ⟨hresult, hhandled⟩

theorem runCaller_chain (level : Level V) (levels : List (Level V)) (e : Exn) (scope : Scope) :
    runCaller (level :: levels) (.error e) scope = ⟨.terminated, .terminated, []⟩ := by
  obtain ⟨hresult, hhandled⟩ := runChain_exception 1 level levels e
  simp only [runCaller, hresult, hhandled]

/-! ## The caller of a task that threw -/

theorem callGetResult_insideTry (e : Exn) :
    callGetResult .insideTry (.ofException e : Result V) = .terminated := by
  simp only [callGetResult]
  rw [Result.destroyTask_ofException, Flow.within_terminated, Flow.tryCatch_terminated]

theorem callGetResult_outsideTry (what : String) :
    callGetResult .outsideTry (.ofException (.std what) : Result V) =
      .normal (.caught (.std what)) := by
  simp only [callGetResult]
  rw [Result.getResult_ofException, Flow.bind_throws]
  exact Flow.tryCatch_caught rfl _

theorem runCaller_nil (e : Exn) (scope : Scope) :
    runCaller ([] : List (Level V)) (.error e) scope =
      ⟨callGetResult scope (.ofException e : Result V),
        leaveScope scope (.ofException e : Result V), []⟩ := rfl

/-- Without a `co_await` it is left to where the caller keeps the task. -/
theorem propagates_nil_iff (what : String) (scope : Scope) :
    Propagates ([] : List (Level V)) (.std what) (runCaller [] (.error (.std what)) scope) ↔
      scope = .outsideTry := by
  rw [runCaller_nil]
  cases scope with
  | insideTry =>
      refine iff_of_false ?_ Scope.noConfusion
      intro h
      exact h.alive (callGetResult_insideTry (.std what))
  | outsideTry =>
      refine iff_of_true ⟨?_, ?_, ?_⟩ rfl
      · intro j level handler hj
        cases hj
      · intro _
        exact ⟨rfl, callGetResult_outsideTry what⟩
      · intro hdead
        cases (callGetResult_outsideTry what).symm.trans hdead

/-- **Exceptions through `co_await`.** A `std::exception` propagates exactly when there is no
`co_await` on its way and the caller keeps the task outside of its try block; and even then `~Task`
ends the program when that scope is left. With a `co_await` the program always ends. -/
theorem propagates_iff (levels : List (Level V)) (what : String) (scope : Scope) :
    (Propagates levels (.std what) (runCaller levels (.error (.std what)) scope) ↔
      levels = [] ∧ scope = .outsideTry) ∧
    (runCaller levels (.error (.std what)) .outsideTry).afterwards = .terminated ∧
    (levels ≠ [] →
      (runCaller levels (.error (.std what)) scope).received = .terminated) := by
  cases levels with
  | nil =>
      refine ⟨?_, ?_, ?_⟩
      · rw [propagates_nil_iff, and_iff_right rfl]
      · show (Result.ofException (.std what) : Result V).destroyTask = .terminated
        exact Result.destroyTask_ofException _
      · intro hne
        exact absurd rfl hne
  | cons level levels =>
      rw [runCaller_chain, runCaller_chain]
      refine ⟨?_, rfl, fun _ => rfl⟩
      constructor
      · intro h
        exact absurd rfl h.alive
      · rintro ⟨hnil, -⟩
        cases hnil

/-- `T1` awaits `T2` inside a try block, and `T2` throws. -/
theorem not_propagates :
    ¬ Propagates [{ handler := some fun _ => 0, resume := id }] (.std "boom")
      (runCaller [{ handler := some fun _ => (0 : Nat), resume := id }] (.error (.std "boom"))
        .outsideTry) :=
  fun h => absurd rfl h.alive

end Npp.Task
