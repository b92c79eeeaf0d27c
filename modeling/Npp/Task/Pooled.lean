import Npp.Task.ProgramRun
import Npp.Task.TakeUp

/-!
# Programs on the shared elastic executor

All coroutines of a program have the one `SharedElasticExecutor`. What `DispatchAwaiter` and
`Awaiter::dispatch` hand to it starts or resumes a coroutine on the thread of a worker, and occupies
the worker until the coroutine is suspended. A `~Task` that waits for its coroutine waits on that
thread.
-/

namespace Npp.Task

open Npp.Foundation

variable {V : Type}

namespace Coroutine

/-- The coroutine goes on once the executor calls what it was handed. -/
def onHold (k : Coroutine V) : Bool :=
  match k.activity with
  | .ready _ => true
  | .awaiting .dispatched _ _ _ => true
  | _ => false

end Coroutine

/-- A program with its executor. `jobs` has the coroutine that each task of the executor starts or
resumes, and `threads` has, for each coroutine, the task in whose call it goes on. -/
structure PooledState (V : Type) where
  program : ProgramState V
  executor : ElasticState
  jobs : List Nat
  threads : List (Option Nat)
  /-- A coroutine was resumed that was not suspended. -/
  misfired : Bool := false

namespace PooledState

open ProgramState (Move)

inductive Label where
  | move (t : Nat) (m : Move)
  | executor (l : ElasticState.Label)
deriving DecidableEq, Repr

def hand (s : PooledState V) (t : Nat) : PooledState V :=
  { s with
    executor := { s.executor with
      queue := s.executor.queue ++ [s.executor.submitted]
      submitted := s.executor.submitted + 1 }
    jobs := s.jobs ++ [t] }

def handed (p p' : ProgramState V) (t : Nat) : Move → List Nat
  -- `initial_suspend` of a coroutine that was started
  | .go => List.range' p.tasks.length (p'.tasks.length - p.tasks.length)
  -- `on_completed` has found the result
  | .afterSuspend => if (p'.tasks[t]?).map Coroutine.onHold = some true then [t] else []
  -- `notify_callbacks`
  | .notify => (List.range p.tasks.length).filter fun u =>
      ((p.tasks[u]?).bind Coroutine.registeredFor).map TaskHandle.id = some t
  | _ => []

/-- The coroutine is suspended, and the call returns to the worker. -/
def suspends : Move → Bool
  | .afterSuspend | .finalSuspend => true
  | _ => false

def afterMove (s : PooledState V) (t : Nat) (m : Move) (p' : ProgramState V) : PooledState V :=
  (handed s.program p' t m).foldl hand { s with
    program := p'
    threads := (if suspends m then s.threads.set t none else s.threads) ++
      List.replicate (p'.tasks.length - s.program.tasks.length) none }

def beginCall (s : PooledState V) (job : Nat) : PooledState V :=
  match s.jobs[job]? with
  | none => s
  | some t =>
      { s with
        threads := s.threads.set t (some job)
        misfired := s.misfired ||
          !(s.threads[t]? == some none &&
            (s.program.tasks[t]?).map Coroutine.onHold == some true) }

def step [Inhabited V] (s : PooledState V) (l : Label) : Option (PooledState V) :=
  -- the executor ends with the program
  if s.program.fate = .running then
    match l with
    | .move t m =>
        match s.threads[t]? with
        | some (some _) => (s.program.step (t, m)).map (s.afterMove t m)
        | _ => none
    | .executor .execute => none
    | .executor (.work i spurious) =>
        match s.executor.workers[i]? with
        | none => none
        | some w =>
            -- a call lasts until its coroutine is suspended
            if ∃ job ∈ w.inCall, some job ∈ s.threads then none
            else
              (s.executor.step (.work i spurious)).map fun e =>
                w.starting.elim { s with executor := e } ({ s with executor := e }).beginCall
    | .executor l => (s.executor.step l).map ({ s with executor := · })
  else none

/-- A coroutine is called from outside of the executor. -/
def machine [Inhabited V] (program : Program V) : Machine (PooledState V) Label where
  init := {
    program := { tasks := [{ program := program, activity := .ready program }] }
    executor := { queue := [0], submitted := 1 }
    jobs := [0]
    threads := [none] }
  step := step

/-- A coroutine is destroyed only at its final suspension point, and no wait ends without cause. -/
def Orderly (s : PooledState V) : Label → Prop
  | .move t m => ProgramState.Orderly s.program (t, m)
  | .executor _ => True

instance (s : PooledState V) : ∀ l, Decidable (Orderly s l)
  | .move t m => inferInstanceAs (Decidable (ProgramState.Orderly s.program (t, m)))
  | .executor _ => .isTrue trivial

end PooledState

end Npp.Task
