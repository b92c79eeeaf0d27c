import Npp.Foundation.Machine

/-!
# A `Thread` that is started more than once

`Thread::start` looks at `finished`, makes a `jthread` around the body and swaps it into the field
`thread`; the old one goes out of scope and is joined there, with the new one under way. The flags
are written by the threads alone, so what a second `start` finds depends on how far the first one
has come. What the owner of the object calls is a list; the machine takes its calls one after the
other, and the threads move whenever they can.
-/

namespace Npp.Basic.Thread

open Npp.Foundation

inductive Request where
  | start
  | join
deriving DecidableEq, Repr

/-- How far a thread has come in the function that `start` gave it: what it did last. -/
inductive BodyPhase where
  | created
  | cleared
  | marked
  | inRun
  | returned
  | unmarked
  | ended
deriving DecidableEq, Repr

namespace BodyPhase

def hasReturned : BodyPhase → Bool
  | .returned | .unmarked | .ended => true
  | _ => false

end BodyPhase

/-- Where the owner is: between two calls, in `start` with a `newThread` that is not swapped in,
in the destructor of the old one, or in `join`. -/
inductive Owner where
  | idle
  | swapping (newThread : ℕ)
  | destroying (oldThread : ℕ)
  | joining (i : ℕ)
deriving DecidableEq, Repr

/-- The fields of the object, the threads it has made in their order, and the calls to come. The
field `thread` holds one of the threads by its number. -/
structure ThreadState where
  thread : Option ℕ := none
  running : Bool := false
  finished : Bool := false
  bodies : List BodyPhase := []
  owner : Owner := .idle
  script : List Request := []
  thrown : ℕ := 0
deriving DecidableEq, Repr

inductive ThreadEvent where
  | call
  | swap
  | joined
  | advance (i : ℕ)
deriving DecidableEq, Repr

namespace ThreadState

def isRunning (s : ThreadState) : Bool := s.running

def isFinished (s : ThreadState) : Bool := s.finished

/-- `start()`, up to its swap. -/
def start (s : ThreadState) : ThreadState :=
  -- `RuntimeException("thread is already running")`
  if s.finished then { s with thrown := s.thrown + 1 }
  -- what a thread may do behind the test, it may as well do before the new one has moved
  else { s with bodies := s.bodies ++ [.created], owner := .swapping s.bodies.length }

/-- `join()`, up to the wait. -/
def join (s : ThreadState) : ThreadState :=
  match s.thread with
  | none => s
  | some i => { s with owner := .joining i }

def call (s : ThreadState) : Option ThreadState :=
  match s.owner, s.script with
  | .idle, .start :: script => some { s with script }.start
  | .idle, .join :: script => some { s with script }.join
  | _, _ => none

/-- `std::swap(thread, newThread)`, and the end of `newThread`. -/
def swap (s : ThreadState) : Option ThreadState :=
  match s.owner with
  | .swapping newThread =>
      match s.thread with
      | none => some { s with thread := some newThread, owner := .idle }
      | some oldThread =>
          some { s with thread := some newThread, owner := .destroying oldThread }
  | _ => none

def joined (s : ThreadState) : Option ThreadState :=
  match s.owner with
  | .destroying i =>
      if s.bodies[i]? = some .ended then some { s with owner := .idle } else none
  | .joining i =>
      if s.bodies[i]? = some .ended then some { s with thread := none, owner := .idle } else none
  | _ => none

/-- The next statement of a thread; the one behind `marked` is the call of `run()`. -/
def advance (s : ThreadState) (i : ℕ) : Option ThreadState :=
  match s.bodies[i]? with
  | some .created => some { s with bodies := s.bodies.set i .cleared, finished := false }
  | some .cleared => some { s with bodies := s.bodies.set i .marked, running := true }
  | some .marked => some { s with bodies := s.bodies.set i .inRun }
  | some .inRun => some { s with bodies := s.bodies.set i .returned }
  | some .returned => some { s with bodies := s.bodies.set i .unmarked, running := false }
  | some .unmarked => some { s with bodies := s.bodies.set i .ended, finished := true }
  | some .ended | none => none

def step (s : ThreadState) : ThreadEvent → Option ThreadState
  | .call => s.call
  | .swap => s.swap
  | .joined => s.joined
  | .advance i => s.advance i

/-- No body is run beside another one; a `start` throws, and changes nothing else, exactly when an
earlier invocation is not over, and otherwise makes a thread; and the flags are not both set. -/
structure OneAtATime (s : ThreadState) : Prop where
  one : s.bodies.count .inRun ≤ 1
  throws_iff : ∀ script, s.owner = .idle → s.script = .start :: script →
    (s.call = some { s with script, thrown := s.thrown + 1 } ↔
      ∃ body ∈ s.bodies, body.hasReturned = false)
  starts : ∀ script, s.owner = .idle → s.script = .start :: script →
    (∀ body ∈ s.bodies, body.hasReturned = true) →
    s.call = some { s with
      script, bodies := s.bodies ++ [.created], owner := .swapping s.bodies.length }
  flags : ¬ (s.isRunning = true ∧ s.isFinished = true)

end ThreadState

/-- A new object whose owner will make the calls of `script`. -/
def machine (script : List Request) : Machine ThreadState ThreadEvent :=
  { init := { script }, step := ThreadState.step }

variable {s s' : ThreadState} {script : List Request}

/-! ## What a step does -/

theorem call_cases (h : s.call = some s') :
    s.owner = .idle ∧
      ((∃ script, s.script = .start :: script ∧ s' = { s with script }.start) ∨
        ∃ script, s.script = .join :: script ∧ s' = { s with script }.join) := by
  unfold ThreadState.call at h
  split at h
  case h_1 script howner hscript =>
    exact ⟨howner, Or.inl ⟨script, hscript, (Option.some.inj h).symm⟩⟩
  case h_2 script howner hscript =>
    exact ⟨howner, Or.inr ⟨script, hscript, (Option.some.inj h).symm⟩⟩
  case h_3 => cases h

theorem call_start (howner : s.owner = .idle) (hscript : s.script = .start :: script) :
    s.call = some { s with script }.start := by
  obtain ⟨thread, running, finished, bodies, owner, calls, thrown⟩ := s
  cases howner
  cases hscript
  rfl

theorem call_join (howner : s.owner = .idle) (hscript : s.script = .join :: script) :
    s.call = some { s with script }.join := by
  obtain ⟨thread, running, finished, bodies, owner, calls, thrown⟩ := s
  cases howner
  cases hscript
  rfl

theorem join_cases (s : ThreadState) :
    (s.thread = none ∧ s.join = s) ∨
      ∃ i, s.thread = some i ∧ s.join = { s with owner := .joining i } := by
  unfold ThreadState.join
  cases hthread : s.thread with
  | none => exact Or.inl ⟨rfl, rfl⟩
  | some i => exact Or.inr ⟨i, rfl, rfl⟩

theorem swap_cases (h : s.swap = some s') :
    ∃ newThread, s.owner = .swapping newThread ∧
      ((s.thread = none ∧ s' = { s with thread := some newThread, owner := .idle }) ∨
        ∃ oldThread, s.thread = some oldThread ∧
          s' = { s with thread := some newThread, owner := .destroying oldThread }) := by
  unfold ThreadState.swap at h
  split at h
  case h_2 => cases h
  case h_1 newThread howner =>
    refine ⟨newThread, howner, ?_⟩
    split at h
    case h_1 hthread => exact Or.inl ⟨hthread, (Option.some.inj h).symm⟩
    case h_2 oldThread hthread =>
      exact Or.inr ⟨oldThread, hthread, (Option.some.inj h).symm⟩

theorem joined_cases (h : s.joined = some s') :
    ∃ i, s.bodies[i]? = some .ended ∧
      ((s.owner = .destroying i ∧ s' = { s with owner := .idle }) ∨
        (s.owner = .joining i ∧ s' = { s with thread := none, owner := .idle })) := by
  unfold ThreadState.joined at h
  split at h
  case h_1 i howner =>
    obtain ⟨hended, hs'⟩ := Option.ite_none_right_eq_some.mp h
    exact ⟨i, hended, Or.inl ⟨howner, (Option.some.inj hs').symm⟩⟩
  case h_2 i howner =>
    obtain ⟨hended, hs'⟩ := Option.ite_none_right_eq_some.mp h
    exact ⟨i, hended, Or.inr ⟨howner, (Option.some.inj hs').symm⟩⟩
  case h_3 => cases h

namespace BodyPhase

def next : BodyPhase → BodyPhase
  | .created => .cleared
  | .cleared => .marked
  | .marked => .inRun
  | .inRun => .returned
  | .returned => .unmarked
  | .unmarked | .ended => .ended

/-- What `running` is where a thread is the first one and alone. -/
def marksRunning : BodyPhase → Bool
  | .marked | .inRun | .returned => true
  | _ => false

def marksFinished (body : BodyPhase) : Bool := body = .ended

end BodyPhase

/-- A thread does its next statement, and its flags are what it has made of them. -/
theorem advance_cases {i : ℕ} (h : s.advance i = some s') :
    ∃ body running finished, s.bodies[i]? = some body ∧ body ≠ .ended ∧
      s' = { s with bodies := s.bodies.set i body.next, running, finished } ∧
      (s.running = body.marksRunning → running = body.next.marksRunning) ∧
      (s.finished = body.marksFinished → finished = body.next.marksFinished) := by
  unfold ThreadState.advance at h
  cases hbody : s.bodies[i]? with
  | none => rw [hbody] at h; cases h
  | some body =>
      rw [hbody] at h
      cases body with
      | ended => cases h
      | created =>
          exact ⟨_, _, _, rfl, by decide, (Option.some.inj h).symm, id, fun _ => rfl⟩
      | cleared =>
          exact ⟨_, _, _, rfl, by decide, (Option.some.inj h).symm, fun _ => rfl, id⟩
      | marked => exact ⟨_, _, _, rfl, by decide, (Option.some.inj h).symm, id, id⟩
      | inRun => exact ⟨_, _, _, rfl, by decide, (Option.some.inj h).symm, id, id⟩
      | returned =>
          exact ⟨_, _, _, rfl, by decide, (Option.some.inj h).symm, fun _ => rfl, id⟩
      | unmarked =>
          exact ⟨_, _, _, rfl, by decide, (Option.some.inj h).symm, id, fun _ => rfl⟩

/-! ## One `start` -/

/-- No thread was made, and there is one `start` to come at most; or one was made, and there is
none to come. -/
inductive Once (s : ThreadState) : Prop where
  | before (bodies : s.bodies = []) (running : s.running = false) (finished : s.finished = false)
      (starts : s.script.count .start ≤ 1)
  | behind (body : BodyPhase) (bodies : s.bodies = [body])
      (running : s.running = body.marksRunning) (finished : s.finished = body.marksFinished)
      (starts : .start ∉ s.script)

theorem once_call (h : Once s) (hcall : s.call = some s') : Once s' := by
  obtain ⟨-, ⟨script, hscript, rfl⟩ | ⟨script, hscript, rfl⟩⟩ := call_cases hcall
  · cases h with
    | behind body bodies running finished starts =>
        rw [hscript] at starts
        exact absurd List.mem_cons_self starts
    | before bodies running finished starts =>
        have hnone : .start ∉ script := by
          rw [hscript, List.count_cons_self] at starts
          exact List.count_eq_zero.mp (by omega)
        rw [ThreadState.start, if_neg (by rw [finished]; exact Bool.false_ne_true)]
        refine .behind .created ?_ running finished hnone
        show s.bodies ++ _ = _
        rw [bodies, List.nil_append]
  · have hjoin : Once { s with script } := by
      cases h with
      | before bodies running finished starts =>
          refine .before bodies running finished ?_
          rwa [hscript, List.count_cons_of_ne (by decide)] at starts
      | behind body bodies running finished starts =>
          refine .behind body bodies running finished fun hmem => starts ?_
          rw [hscript]
          exact List.mem_cons_of_mem _ hmem
    rcases join_cases { s with script } with ⟨-, hs'⟩ | ⟨i, -, hs'⟩
    · rwa [hs']
    · rw [hs']
      cases hjoin with
      | before bodies running finished starts => exact .before bodies running finished starts
      | behind body bodies running finished starts =>
          exact .behind body bodies running finished starts

/-- The owner's other steps touch neither the threads nor the flags. -/
theorem Once.of_eq (h : Once s) (hbodies : s'.bodies = s.bodies) (hrunning : s'.running = s.running)
    (hfinished : s'.finished = s.finished) (hscript : s'.script = s.script) : Once s' := by
  cases h with
  | before bodies running finished starts =>
      exact .before (hbodies.trans bodies) (hrunning.trans running) (hfinished.trans finished)
        (by rwa [hscript])
  | behind body bodies running finished starts =>
      exact .behind body (hbodies.trans bodies) (hrunning.trans running)
        (hfinished.trans finished) (by rwa [hscript])

theorem once_advance {i : ℕ} (h : Once s) (hadvance : s.advance i = some s') : Once s' := by
  obtain ⟨body, running, finished, hbody, -, rfl, hrunning, hfinished⟩ := advance_cases hadvance
  cases h with
  | before bodies =>
      rw [bodies] at hbody
      cases hbody
  | behind only bodies running' finished' starts =>
      rw [bodies] at hbody
      obtain ⟨rfl, rfl⟩ : i = 0 ∧ only = body := by
        cases i with
        | zero => exact ⟨rfl, Option.some.inj hbody⟩
        | succ i => cases hbody
      refine .behind only.next ?_ (hrunning running') (hfinished finished') starts
      show s.bodies.set 0 _ = _
      rw [bodies]
      rfl

theorem once_step {e : ThreadEvent} (h : Once s) (hstep : s.step e = some s') : Once s' := by
  cases e with
  | call => exact once_call h hstep
  | swap =>
      obtain ⟨newThread, -, ⟨-, rfl⟩ | ⟨oldThread, -, rfl⟩⟩ := swap_cases hstep
      · exact h.of_eq rfl rfl rfl rfl
      · exact h.of_eq rfl rfl rfl rfl
  | joined =>
      obtain ⟨i, -, ⟨-, rfl⟩ | ⟨-, rfl⟩⟩ := joined_cases hstep
      · exact h.of_eq rfl rfl rfl rfl
      · exact h.of_eq rfl rfl rfl rfl
  | advance i => exact once_advance h hstep

theorem oneAtATime_of_once (h : Once s) : s.OneAtATime := by
  cases h with
  | before bodies running finished starts =>
      have hcall : ∀ script, s.owner = .idle → s.script = .start :: script →
          s.call = some { s with
            script, bodies := s.bodies ++ [.created], owner := .swapping s.bodies.length } := by
        intro script howner hscript
        rw [call_start howner hscript, ThreadState.start,
          if_neg (by rw [finished]; exact Bool.false_ne_true)]
      refine ⟨?_, ?_, fun script howner hscript _ => hcall script howner hscript, ?_⟩
      · rw [bodies]
        exact Nat.zero_le _
      · intro script howner hscript
        rw [hcall script howner hscript, bodies]
        refine iff_of_false (fun heq => ?_) ?_
        · have hthrown := congrArg ThreadState.thrown (Option.some.inj heq)
          exact absurd hthrown (Nat.ne_of_lt (Nat.lt_succ_self _))
        · rintro ⟨body, ⟨⟩, -⟩
      · rintro ⟨hrunning, -⟩
        exact absurd (running.symm.trans hrunning) Bool.false_ne_true
  | behind body bodies running finished starts =>
      have hscript : ∀ script, s.script ≠ .start :: script := by
        intro script hscript
        rw [hscript] at starts
        exact starts List.mem_cons_self
      refine ⟨?_, fun script _ h => absurd h (hscript script),
        fun script _ h => absurd h (hscript script), ?_⟩
      · rw [bodies]
        exact List.count_le_length
      · rintro ⟨hrunning, hfinished⟩
        have hmarks := running.symm.trans hrunning
        obtain rfl : body = .ended := of_decide_eq_true (finished.symm.trans hfinished)
        cases hmarks

/-! ## Two `start`s -/

/-- The calls in front of the first `start`. -/
theorem exists_start (h : 0 < script.count .start) :
    ∃ joins rest, script = joins ++ .start :: rest ∧ .start ∉ joins ∧
      script.count .start = rest.count .start + 1 := by
  obtain ⟨joins, rest, rfl, hjoins⟩ := List.eq_append_cons_of_mem (List.count_pos_iff.mp h)
  refine ⟨joins, rest, rfl, hjoins, ?_⟩
  rw [List.count_append, List.count_eq_zero.mpr hjoins, List.count_cons_self, Nat.zero_add]

/-- Calls of `join` on a thread that has ended, or on none, come back and change only `thread`. -/
theorem runFrom_joins (script : List Request) {joins rest : List Request} (hjoins : .start ∉ joins)
    (howner : s.owner = .idle) (hscript : s.script = joins ++ rest)
    (hended : ∀ i, s.thread = some i → s.bodies[i]? = some .ended) :
    ∃ es thread, (machine script).runFrom s es = some { s with script := rest, thread } ∧
      ∀ i, thread = some i → s.thread = some i := by
  induction joins generalizing s with
  | nil =>
      obtain rfl : s.script = rest := hscript
      exact ⟨[], s.thread, rfl, fun _ => id⟩
  | cons r joins ih =>
      have htail : .start ∉ joins := fun hmem => hjoins (List.mem_cons_of_mem r hmem)
      obtain rfl : r = .join := by
        cases r with
        | start => exact absurd List.mem_cons_self hjoins
        | join => rfl
      let t : ThreadState := { s with script := joins ++ rest }
      have hcall : (machine script).step s .call = some t.join := call_join howner hscript
      rcases join_cases t with ⟨hthread, hjoin⟩ | ⟨i, hthread, hjoin⟩
      · obtain ⟨es, thread, hrun, hsame⟩ := ih (s := t) htail howner rfl hended
        refine ⟨.call :: es, thread, ?_, hsame⟩
        rw [Machine.runFrom, hcall, hjoin]
        exact hrun
      · obtain ⟨es, thread, hrun, hsame⟩ :=
          ih (s := { t with thread := none }) htail howner rfl (by rintro i ⟨⟩)
        have hjoined : (machine script).step { t with owner := .joining i } .joined =
            some { t with thread := none } := by
          show (if s.bodies[i]? = some .ended then _ else none) = _
          rw [if_pos (hended i hthread), ← howner]
        refine ⟨.call :: .joined :: es, thread, ?_, fun j hj => absurd (hsame j hj) (by rintro ⟨⟩)⟩
        rw [Machine.runFrom, hcall, hjoin, Option.bind_some, Machine.runFrom, hjoined]
        exact hrun

/-- The first thread may end before the second `start`, which then throws all the same. -/
theorem exists_not_oneAtATime (h : 1 < script.count .start) :
    ∃ es s, (machine script).Runs es s ∧ ¬ s.OneAtATime := by
  obtain ⟨joins, behind, hscript, hjoins, hcount⟩ := exists_start (Nat.lt_of_succ_lt h)
  have hbehind : 0 < behind.count .start := by omega
  obtain ⟨joins', rest, rfl, hjoins', -⟩ := exists_start hbehind
  obtain ⟨es, thread, hfirst, hsame⟩ := runFrom_joins (s := (machine script).init)
    script hjoins rfl hscript (by rintro i ⟨⟩)
  obtain rfl : thread = none := Option.eq_none_iff_forall_ne_some.mpr fun i hi => by
    cases hsame i hi
  let whole : List ThreadEvent := .call :: .swap :: List.replicate 6 (.advance 0)
  let t : ThreadState := {
    thread := some 0, finished := true, bodies := [.ended], script := joins' ++ .start :: rest }
  have hwhole : (machine script).runFrom
      { (machine script).init with script := .start :: (joins' ++ .start :: rest) } whole =
      some t := rfl
  obtain ⟨es', thread', hsecond, -⟩ := runFrom_joins (s := t) script hjoins' rfl rfl
    (by rintro i ⟨⟩; rfl)
  refine ⟨(es ++ whole) ++ es', _, Machine.runs_append.mpr ⟨t, ?_, hsecond⟩, fun hgood => ?_⟩
  · exact Machine.runs_append.mpr ⟨_, hfirst, hwhole⟩
  · have hthrows := (hgood.throws_iff rest rfl rfl).mp rfl
    obtain ⟨body, hbody, hreturned⟩ := hthrows
    obtain rfl := List.mem_singleton.mp hbody
    cases hreturned

/-- **One body at a time** in every interleaving, exactly when `start` is called once at most. -/
theorem oneAtATime_iff (script : List Request) :
    (∀ es s, (machine script).Runs es s → s.OneAtATime) ↔ script.count .start ≤ 1 := by
  constructor
  · intro hall
    by_contra hcount
    obtain ⟨es, s, hrun, hnot⟩ := exists_not_oneAtATime (Nat.lt_of_not_le hcount)
    exact hnot (hall es s hrun)
  · intro hcount es s hrun
    exact oneAtATime_of_once (hrun.invariant (.before rfl rfl rfl hcount) fun _ _ _ => once_step)

/-- Two `start`s: the second one comes while the first body is run, and then there are two; or
between its end and `finished`, and then both flags are set; or behind its end, and throws. -/
theorem two_starts :
    let M := machine [.start, .start]
    (∃ es s, M.Runs es s ∧ s.bodies.count .inRun = 2 ∧ ¬ s.OneAtATime) ∧
    (∃ es s, M.Runs es s ∧ s.isRunning = true ∧ s.isFinished = true ∧ ¬ s.OneAtATime) ∧
    ∃ es s s', M.Runs es s ∧ s.bodies = [.ended] ∧ M.step s .call = some s' ∧ s'.thrown = 1 ∧
      ¬ s.OneAtATime := by
  intro M
  refine ⟨⟨[.call, .swap, .advance 0, .advance 0, .advance 0, .call, .swap, .advance 1, .advance 1,
      .advance 1], _, rfl, rfl, fun h => ?_⟩,
    ⟨[.call, .swap, .advance 0, .advance 0, .advance 0, .advance 0, .advance 0, .call, .swap,
      .advance 1, .advance 1, .advance 0], _, rfl, rfl, rfl, fun h => ?_⟩,
    ⟨[.call, .swap, .advance 0, .advance 0, .advance 0, .advance 0, .advance 0, .advance 0], _, _,
      rfl, rfl, rfl, rfl, fun h => ?_⟩⟩
  · exact absurd h.one (by decide)
  · exact h.flags ⟨rfl, rfl⟩
  · obtain ⟨body, hbody, hreturned⟩ := (h.throws_iff [] rfl rfl).mp rfl
    obtain rfl := List.mem_singleton.mp hbody
    cases hreturned

end Npp.Basic.Thread
