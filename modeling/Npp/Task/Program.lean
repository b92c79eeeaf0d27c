import Npp.Foundation.Machine
import Npp.Task.AwaitChain

/-!
# Programs of coroutines

A coroutine starts others by calling them, keeps their `Task`s in local variables, moves them into a
`co_await` in any order, and returns or throws. The executor starts and resumes each of them on a
thread of its own, as `NewThreadExecutor` does, so all of them go on at once. A `Task` that is not
awaited is destroyed at the end of its scope, where `~Task` waits for the coroutine. That holds up
the thread of the waiting coroutine and no other; the one thread of a `LooperExecutor` it would hold
up for good.
-/

namespace Npp.Task

open Npp.Foundation

variable {V : Type}

/-- The body of a coroutine. `start` keeps the `Task` of the coroutine it calls in a new variable.
`coAwait i` moves the `i`-th variable, counted from the newest, into the awaiter and goes on with
one of two rests; without a handler around the `co_await` the second of them throws on. -/
inductive Program (V : Type) where
  | coReturn (v : V)
  | throws (e : Exn)
  | start (inner rest : Program V)
  | coAwait (i : Nat) (onValue : V → Program V) (onThrow : Exn → Program V)

namespace Program

/-- What the body reads as: a started coroutine has its outcome at once, and a `co_await` gives it.
`env` has the outcomes of the variables, `none` for one that was moved from. -/
def eval : Program V → List (Option (Flow Exn V)) → Flow Exn V
  | .coReturn v, _ => .normal v
  | .throws e, _ => .throws e
  | .start inner rest, env => rest.eval (some (inner.eval []) :: env)
  | .coAwait i onValue onThrow, env =>
      match env[i]? with
      | some (some (.normal v)) => (onValue v).eval (env.set i none)
      | some (some (.throws e)) => (onThrow e).eval (env.set i none)
      | _ => .terminated

/-- Whatever is started returns a value, and no variable is awaited twice. -/
def Calm : Program V → List (Option (Flow Exn V)) → Prop
  | .coReturn _, _ => True
  | .throws _, _ => True
  | .start inner rest, env =>
      (inner.Calm [] ∧ ∃ v, inner.eval [] = .normal v) ∧ rest.Calm (some (inner.eval []) :: env)
  | .coAwait i onValue _, env =>
      match env[i]? with
      | some (some (.normal v)) => (onValue v).Calm (env.set i none)
      | _ => False

/-- A bound on the steps of the body and of all that it starts. -/
def cost : Program V → List (Option (Flow Exn V)) → Nat
  | .coReturn _, _ => 4
  | .throws _, _ => 5
  | .start inner rest, env => 3 + inner.cost [] + rest.cost (some (inner.eval []) :: env)
  | .coAwait i onValue onThrow, env =>
      match env[i]? with
      | some (some (.normal v)) => 5 + (onValue v).cost (env.set i none)
      | some (some (.throws e)) => 5 + (onThrow e).cost (env.set i none)
      | _ => 5

def Good (p : Program V) : Prop := p.Calm [] ∧ ∃ v, p.eval [] = .normal v

end Program

/-- A `Task`: its coroutine, by number, and what that runs. -/
structure TaskHandle (V : Type) where
  id : Nat
  program : Program V

/-- How far a `co_await` is: `after_suspend` is still to come, its callback is registered, or its
resumption was handed to the executor. -/
inductive AwaitPhase where
  | leaving
  | registered
  | dispatched
deriving DecidableEq, Repr

inductive Activity (V : Type) where
  | ready (program : Program V)
  | awaiting (phase : AwaitPhase) (child : TaskHandle V) (onValue : V → Program V)
      (onThrow : Exn → Program V)
  /-- `await_resume` is over, and the awaiter with its `Task` is destroyed; with `dropped`, its
  `get_result` has returned. -/
  | ending (child : TaskHandle V) (value : Flow Exn V) (dropped : Bool) (onValue : V → Program V)
      (onThrow : Exn → Program V)
  /-- The variables are destroyed: behind `return_value` or `unhandled_exception`, or in front of
  the latter while the exception is in flight. -/
  | closing (inFlight : Option Exn) (dropped : Option (TaskHandle V))
  /-- The critical section of `return_value` or `unhandled_exception`. -/
  | publishing (notified : Bool)
  | suspended
  | destroyed

/-- A coroutine with its promise and its variables, the newest in front. -/
structure Coroutine (V : Type) where
  program : Program V
  parent : Option Nat := none
  activity : Activity V
  result : Option (Result V) := none
  locals : List (Option (TaskHandle V)) := []

namespace Coroutine

def locked (k : Coroutine V) : Bool :=
  match k.activity with
  | .publishing _ => true
  | _ => false

def isSuspended (k : Coroutine V) : Bool :=
  match k.activity with
  | .suspended => true
  | _ => false

def isDestroyed (k : Coroutine V) : Bool :=
  match k.activity with
  | .destroyed => true
  | _ => false

def resultFree (k : Coroutine V) : Option (Result V) := if k.locked then none else k.result

/-- The `Task` whose destructor has its result and destroys the coroutine next. -/
def dropped (k : Coroutine V) : Option (TaskHandle V) :=
  match k.activity with
  | .ending child _ true _ _ => some child
  | .closing _ child => child
  | _ => none

/-- A callback that waits for coroutine `t` hands the resumption to the executor. -/
def callBack (t : Nat) (k : Coroutine V) : Coroutine V :=
  match k.activity with
  | .awaiting .registered child onValue onThrow =>
      if child.id = t then { k with activity := .awaiting .dispatched child onValue onThrow } else k
  | _ => k

end Coroutine

inductive ProgramFate where
  | running
  | terminated
  | undefined
deriving DecidableEq, Repr

/-- All coroutines that were ever started, in the order of their start, each on its own thread. -/
structure ProgramState (V : Type) where
  tasks : List (Coroutine V)
  fate : ProgramFate := .running

namespace ProgramState

inductive Move where
  | go
  | afterSuspend
  | notify
  | release
  | resume
  | drop
  | destroy
  | publish
  | finalSuspend
  | spuriousWake
deriving DecidableEq, Repr

def set (s : ProgramState V) (t : Nat) (k : Coroutine V) : ProgramState V :=
  { s with tasks := s.tasks.set t k }

/-- The body up to its next `co_await`, one statement at a time. -/
def go (s : ProgramState V) (t : Nat) (k : Coroutine V) : Program V → ProgramState V
  | .coReturn v => s.set t { k with result := some (.ofValue v), activity := .publishing false }
  | .throws e => s.set t { k with activity := .closing (some e) none }
  | .start inner rest =>
      let child : Coroutine V := { program := inner, parent := some t, activity := .ready inner }
      let k' := { k with
        activity := .ready rest
        locals := some ⟨s.tasks.length, inner⟩ :: k.locals }
      { s with tasks := s.tasks.set t k' ++ [child] }
  | .coAwait i onValue onThrow =>
      match k.locals[i]? with
      | some (some child) =>
          s.set t { k with
            activity := .awaiting .leaving child onValue onThrow
            locals := k.locals.set i none }
      -- a `Task` that was moved from has no promise
      | _ => { s with fate := .undefined }

/-- `~Task` of a coroutine with this result: the program ends, or the coroutine becomes `k`. -/
def destroyTask (s : ProgramState V) (t : Nat) (r : Result V) (k : Coroutine V) : ProgramState V :=
  match r.destroyTask with
  | .normal () => s.set t k
  | _ => { s with fate := .terminated }

/-- `handle.destroy()`, after which the coroutine `t` becomes `k`. -/
def destroyChild (s : ProgramState V) (child : TaskHandle V) (t : Nat) (k : Coroutine V) :
    Option (ProgramState V) :=
  (s.tasks[child.id]?).map fun c =>
    if c.isSuspended then (s.set child.id { c with activity := .destroyed }).set t k
    else { s with fate := .undefined }

def act [Inhabited V] (s : ProgramState V) (t : Nat) (k : Coroutine V) :
    Move → Option (ProgramState V)
  | .go =>
      match k.activity with
      | .ready program => some (s.go t k program)
      | _ => none
  | .afterSuspend =>
      match k.activity with
      | .awaiting .leaving child onValue onThrow =>
          (s.tasks[child.id]?).bind fun c =>
            if c.locked then none
            else
              let phase := if c.result.isSome then AwaitPhase.dispatched else .registered
              some (s.set t { k with activity := .awaiting phase child onValue onThrow })
      | _ => none
  | .notify =>
      match k.activity with
      | .publishing false =>
          let s' := s.set t { k with activity := .publishing true }
          some { s' with tasks := s'.tasks.map (Coroutine.callBack t) }
      | _ => none
  | .release =>
      match k.activity with
      | .publishing true => some (s.set t { k with activity := .closing none none })
      | _ => none
  | .resume =>
      match k.activity with
      | .awaiting .dispatched child onValue onThrow =>
          (s.tasks[child.id]?).bind fun c =>
          c.resultFree.map fun r =>
            s.set t { k with activity := .ending child r.awaitResume false onValue onThrow }
      | _ => none
  | .drop =>
      match k.activity, k.locals with
      | .ending child value false onValue onThrow, _ =>
          (s.tasks[child.id]?).bind fun c =>
          c.resultFree.map fun r =>
            s.destroyTask t r { k with activity := .ending child value true onValue onThrow }
      | .closing _ none, none :: locals => some (s.set t { k with locals := locals })
      | .closing inFlight none, some child :: locals =>
          (s.tasks[child.id]?).bind fun c =>
          c.resultFree.map fun r =>
            s.destroyTask t r { k with
              activity := .closing inFlight (some child)
              locals := locals }
      | _, _ => none
  | .destroy =>
      match k.activity with
      | .ending child (.normal v) true onValue _ =>
          s.destroyChild child t { k with activity := .ready (onValue v) }
      | .ending child (.throws e) true _ onThrow =>
          s.destroyChild child t { k with activity := .ready (onThrow e) }
      | .closing inFlight (some child) =>
          s.destroyChild child t { k with activity := .closing inFlight none }
      | _ => none
  | .publish =>
      match k.activity, k.locals with
      | .closing (some e) none, [] =>
          some (s.set t { k with result := some (.ofException e), activity := .publishing false })
      | _, _ => none
  | .finalSuspend =>
      match k.activity, k.locals with
      | .closing none none, [] => some (s.set t { k with activity := .suspended })
      | _, _ => none
  | .spuriousWake =>
      match k.activity, k.locals with
      | .closing _ none, some child :: _ =>
          (s.tasks[child.id]?).bind fun c =>
            -- the wait of `get_result` has no predicate
            if c.result.isSome then none else some { s with fate := .undefined }
      | _, _ => none

def step [Inhabited V] (s : ProgramState V) (l : Nat × Move) : Option (ProgramState V) :=
  if s.fate = .running then (s.tasks[l.1]?).bind fun k => s.act l.1 k l.2 else none

/-- A coroutine whose caller keeps its `Task`. -/
def machine [Inhabited V] (program : Program V) : Machine (ProgramState V) (Nat × Move) where
  init := { tasks := [{ program := program, activity := .ready program }] }
  step := step

/-- A coroutine is destroyed only at its final suspension point, and no wait ends without cause. -/
def Orderly (s : ProgramState V) (l : Nat × Move) : Prop :=
  match l.2 with
  | .destroy => ∀ k ∈ s.tasks[l.1]?, ∀ child ∈ k.dropped, ∀ c ∈ s.tasks[child.id]?,
      c.isSuspended = true
  | .spuriousWake => False
  | _ => True

instance (s : ProgramState V) : ∀ l, Decidable (Orderly s l)
  | (t, .destroy) => inferInstanceAs (Decidable (∀ k ∈ s.tasks[t]?, _))
  | (_, .spuriousWake) => .isFalse id
  | (_, .go) | (_, .afterSuspend) | (_, .notify) | (_, .release) | (_, .resume) | (_, .drop)
  | (_, .publish) | (_, .finalSuspend) => .isTrue trivial

def Finished (s : ProgramState V) : Prop :=
  s.fate = .running ∧ ∃ k, s.tasks[0]? = some k ∧ k.isSuspended = true

end ProgramState

end Npp.Task
