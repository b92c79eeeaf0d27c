import Npp.Foundation.Machine
import Npp.Task.Result
import Mathlib.Data.List.Nodup
import Mathlib.Data.List.Perm.Basic

/-!
# Completion callbacks

The promise of one task with its `completion_callbacks`. The completing coroutine holds
`completion_lock` from publishing the result to clearing the list and calls the wrappers in
between, one step each. `on_completed` is one step under the lock: it appends the wrapper, or it
copies the result, and then the registrant calls the wrapper without the lock in a later step.
-/

namespace Npp.Task

open Npp.Foundation

variable {T : Type}

inductive Hook where
  | then_
  | catching
  | finally_
deriving DecidableEq, Repr

inductive Call (T : Type) where
  | then_ (value : T)
  | catching (e : Exn)
  | finally_
deriving DecidableEq, Repr

/-- The wrapper: the call it makes, or the exception that leaves it. -/
def Hook.wrapper (hook : Hook) (result : Result T) : Except Exn (Option (Call T)) :=
  match hook with
  | .then_ =>
      match result.getOrThrow with
      | .ok value => .ok (some (.then_ value))
      | .error e => if e.isStd then .ok none else .error e
  | .catching =>
      match result.getOrThrow with
      | .ok _ => .ok none
      | .error e => if e.isStd then .ok (some (.catching e)) else .error e
  | .finally_ => .ok (some .finally_)

/-- Only the wrapper of `then` has the call of the function inside its `try`. -/
def Hook.swallows : Hook → Exn → Bool
  | .then_, e => e.isStd
  | .catching, _ => false
  | .finally_, _ => false

/-- How the task completes: `return_value` and `return_void`, or `unhandled_exception` with a
`std::exception`. -/
inductive Completion (T : Type) where
  | value (v : T)
  | exception (what : String)
deriving DecidableEq, Repr

variable [Inhabited T]

def Completion.result : Completion T → Result T
  | .value v => .ofValue v
  | .exception what => .ofException (.std what)

def Hook.expected : Hook → Completion T → Option (Call T)
  | .then_, .value v => some (.then_ v)
  | .then_, .exception _ => none
  | .catching, .value _ => none
  | .catching, .exception what => some (.catching (.std what))
  | .finally_, _ => some .finally_

theorem Hook.wrapper_result (hook : Hook) (c : Completion T) :
    hook.wrapper c.result = .ok (hook.expected c) := by
  cases hook <;> cases c <;> rfl

structure Registration where
  id : Nat
  hook : Hook
deriving DecidableEq, Repr

structure Invocation (T : Type) where
  registration : Registration
  result : Result T
  call : Option (Call T)
deriving DecidableEq, Repr

/-- Where the coroutine is; `notifying` holds the lock and has `rest` still to call. -/
inductive Phase where
  | running
  | notifying (rest : List Registration)
  | finished
deriving DecidableEq, Repr

structure PromiseState (T : Type) where
  result : Option (Result T) := none
  completionCallbacks : List Registration := []
  phase : Phase := .running
  /-- Registrants that have copied the result and released the lock. -/
  late : List (Registration × Result T) := []
  completion : Option (Completion T) := none
  registered : List Registration := []
  early : List Registration := []
  invocations : List (Invocation T) := []
deriving Repr

namespace PromiseState

inductive Label (T : Type) where
  | onCompleted (hook : Hook)
  | complete (c : Completion T)
  | callNext
  | finish
  | callLate (i : Nat)
deriving DecidableEq, Repr

/-- `on_completed` up to the release of the lock. -/
def onCompleted (s : PromiseState T) (hook : Hook) : PromiseState T :=
  let r : Registration := ⟨s.registered.length, hook⟩
  match s.result with
  | some value =>
      { s with late := s.late ++ [(r, value)], registered := s.registered ++ [r] }
  | none =>
      { s with
        completionCallbacks := s.completionCallbacks ++ [r]
        registered := s.registered ++ [r]
        early := s.early ++ [r] }

def invoke (s : PromiseState T) (r : Registration) (result : Result T) :
    Option (PromiseState T) :=
  match r.hook.wrapper result with
  | .ok call => some { s with invocations := s.invocations ++ [⟨r, result, call⟩] }
  | .error _ => none

def step (s : PromiseState T) : Label T → Option (PromiseState T)
  | .onCompleted hook =>
      match s.phase with
      -- the coroutine holds `completion_lock`
      | .notifying _ => none
      | _ => some (s.onCompleted hook)
  | .complete c =>
      if s.phase = .running then
        some { s with
          result := some c.result
          completion := some c
          phase := .notifying s.completionCallbacks }
      else none
  | .callNext =>
      match s.phase, s.result with
      | .notifying (r :: rest), some value => { s with phase := .notifying rest }.invoke r value
      | _, _ => none
  | .finish =>
      if s.phase = .notifying [] then
        some { s with completionCallbacks := [], phase := .finished }
      else none
  | .callLate i =>
      match s.late[i]? with
      | some (r, value) => { s with late := s.late.eraseIdx i }.invoke r value
      | none => none

def machine (T : Type) [Inhabited T] : Machine (PromiseState T) (Label T) where
  init := {}
  step := step

def remaining (s : PromiseState T) : List Registration :=
  match s.phase with
  | .running => s.completionCallbacks
  | .notifying rest => rest
  | .finished => []

/-! ## The invariant -/

/-- What holds between the result, the lists and the history in every reachable state. -/
structure Sound (s : PromiseState T) : Prop where
  ids : s.registered.map (·.id) = List.range s.registered.length
  result : s.result = s.completion.map (·.result)
  running : s.phase = .running ↔ s.completion = none
  late : ∀ p ∈ s.late, s.result = some p.2 ∧ p.1 ∉ s.early
  unfinished : s.phase ≠ .finished → s.late = []
  accounted : (s.invocations.map (·.registration) ++ s.late.map Prod.fst ++ s.remaining).Perm
    s.registered
  early : ∃ ran lateRan, s.invocations.map (·.registration) = ran ++ lateRan ∧
    ran ++ s.remaining = s.early ∧ (∀ r ∈ lateRan, r ∉ s.early) ∧
    (s.phase ≠ .finished → lateRan = [])
  early_sub : s.early ⊆ s.registered
  invoked : ∀ v ∈ s.invocations, ∃ c, s.completion = some c ∧ v.result = c.result ∧
    v.call = v.registration.hook.expected c
  callbacks : s.phase = .finished → s.completionCallbacks = []

theorem invoke_eq (s : PromiseState T) (r : Registration) (c : Completion T) :
    s.invoke r c.result =
      some { s with invocations := s.invocations ++ [⟨r, c.result, r.hook.expected c⟩] } := by
  simp only [invoke, Hook.wrapper_result]

namespace Sound

variable {s : PromiseState T}

theorem new_notMem (h : Sound s) (hook : Hook) :
    (⟨s.registered.length, hook⟩ : Registration) ∉ s.registered := by
  intro hmem
  have hid : s.registered.length ∈ s.registered.map (·.id) :=
    List.mem_map_of_mem (f := Registration.id) hmem
  rw [h.ids, List.mem_range] at hid
  exact Nat.lt_irrefl _ hid

theorem ids_append (h : Sound s) (hook : Hook) :
    (s.registered ++ [(⟨s.registered.length, hook⟩ : Registration)]).map (·.id) =
      List.range (s.registered ++ [(⟨s.registered.length, hook⟩ : Registration)]).length := by
  rw [List.map_append, h.ids, List.length_append]
  exact List.range_succ.symm

theorem registered_nodup (h : Sound s) : s.registered.Nodup := by
  refine List.Nodup.of_map (·.id) ?_
  rw [h.ids]
  exact List.nodup_range

/-- Once the result is set, `completion` says what it is. -/
theorem completion_of_result (h : Sound s) {value : Result T} (hvalue : s.result = some value) :
    ∃ c, s.completion = some c ∧ value = c.result := by
  rw [h.result, Option.map_eq_some_iff] at hvalue
  obtain ⟨c, hc, rfl⟩ := hvalue
  exact ⟨c, hc, rfl⟩

/-- A registration before completion joins the list. -/
theorem registerEarly (h : Sound s) (hook : Hook) (hnone : s.result = none) :
    Sound (s.onCompleted hook) := by
  have hcompletion : s.completion = none := by simpa [hnone] using h.result.symm
  have hphase := h.running.mpr hcompletion
  have hlate := h.unfinished (by rw [hphase]; exact Phase.noConfusion)
  obtain ⟨ran, lateRan, hran, hearly, -, hlateRan⟩ := h.early
  have hlateRan := hlateRan (by rw [hphase]; exact Phase.noConfusion)
  have hremaining : s.remaining = s.completionCallbacks := by simp only [remaining, hphase]
  simp only [onCompleted, hnone]
  refine ⟨h.ids_append hook, by simp [hcompletion], h.running, by simp [hlate],
    fun _ => hlate, ?_, ⟨ran, [], by simpa [hlateRan] using hran, ?_, by simp, fun _ => rfl⟩, ?_,
    h.invoked, fun hf => absurd (hphase.symm.trans hf) Phase.noConfusion⟩
  · have hacc := h.accounted
    rw [hremaining] at hacc
    simp only [remaining, hphase]
    rw [← List.append_assoc]
    exact hacc.append_right _
  · simp only [remaining, hphase]
    rw [← List.append_assoc, ← hremaining, hearly]
  · intro r hr
    rcases List.mem_append.mp hr with hold | hnew
    · exact List.mem_append_left _ (h.early_sub hold)
    · exact List.mem_append_right _ hnew

/-- A registration after completion copies the result. -/
theorem registerLate (h : Sound s) (hook : Hook) {value : Result T}
    (hvalue : s.result = some value) (hphase : s.phase = .finished) :
    Sound (s.onCompleted hook) := by
  have hfresh := h.new_notMem hook
  simp only [onCompleted, hvalue]
  refine ⟨h.ids_append hook, hvalue ▸ h.result, h.running, ?_, fun hn => absurd hphase hn, ?_,
    h.early, fun r hr => List.mem_append_left _ (h.early_sub hr), h.invoked, h.callbacks⟩
  · intro p hp
    rcases List.mem_append.mp hp with hold | hnew
    · exact hvalue ▸ h.late p hold
    · obtain rfl := List.mem_singleton.mp hnew
      exact ⟨rfl, fun hmem => hfresh (h.early_sub hmem)⟩
  · have hacc := h.accounted
    have hremaining : s.remaining = [] := by simp only [remaining, hphase]
    rw [hremaining, List.append_nil] at hacc
    simp only [remaining, hphase]
    rw [List.append_nil, List.map_append, ← List.append_assoc]
    exact hacc.append_right _

theorem onCompleted (h : Sound s) (hook : Hook) (hfree : ∀ rest, s.phase ≠ .notifying rest) :
    Sound (s.onCompleted hook) := by
  cases hresult : s.result with
  | none => exact h.registerEarly hook hresult
  | some value =>
      obtain ⟨c, hc, -⟩ := h.completion_of_result hresult
      refine h.registerLate hook hresult ?_
      cases hphase : s.phase with
      | running => exact absurd (h.running.mp hphase) (by simp [hc])
      | notifying rest => exact absurd hphase (hfree rest)
      | finished => rfl

/-- The one completion publishes the result and starts the loop over the list. -/
theorem complete (h : Sound s) (c : Completion T) (hphase : s.phase = .running) :
    Sound { s with
      result := some c.result, completion := some c,
      phase := .notifying s.completionCallbacks } := by
  have hunfinished : s.phase ≠ .finished := by rw [hphase]; exact Phase.noConfusion
  have hlate := h.unfinished hunfinished
  have hnone := h.running.mp hphase
  have hremaining : s.remaining = s.completionCallbacks := by simp only [remaining, hphase]
  obtain ⟨ran, lateRan, hran, hearly, hnotEarly, hlateRan⟩ := h.early
  refine ⟨h.ids, rfl, by simp, by simp [hlate], fun _ => hlate, ?_,
    ⟨ran, lateRan, hran, ?_, hnotEarly, fun _ => hlateRan hunfinished⟩, h.early_sub, ?_, by simp⟩
  · have hacc := h.accounted
    rw [hremaining] at hacc
    exact hacc
  · rw [hremaining] at hearly
    exact hearly
  · intro v hv
    obtain ⟨c', hc', -⟩ := h.invoked v hv
    exact absurd hnone (by simp [hc'])

/-- The loop calls the next wrapper of the list. -/
theorem callNext (h : Sound s) {r : Registration} {rest : List Registration} {c : Completion T}
    (hphase : s.phase = .notifying (r :: rest)) (hc : s.completion = some c) :
    Sound { s with
      phase := .notifying rest
      invocations := s.invocations ++ [⟨r, c.result, r.hook.expected c⟩] } := by
  have hunfinished : s.phase ≠ .finished := by rw [hphase]; exact Phase.noConfusion
  have hlate := h.unfinished hunfinished
  have hremaining : s.remaining = r :: rest := by simp only [remaining, hphase]
  obtain ⟨ran, lateRan, hran, hearly, -, hlateRan⟩ := h.early
  have hlateRan := hlateRan hunfinished
  rw [hremaining] at hearly
  refine ⟨h.ids, h.result, by simp [hc], h.late, fun _ => hlate, ?_,
    ⟨ran ++ [r], [], ?_, ?_, by simp, fun _ => rfl⟩, h.early_sub, ?_, by simp⟩
  · have hacc := h.accounted
    rw [hremaining, hlate] at hacc
    simpa [remaining, hlate] using hacc
  · simp [hran, hlateRan]
  · simpa [remaining] using hearly
  · intro v hv
    rcases List.mem_append.mp hv with hold | hnew
    · exact h.invoked v hold
    · obtain rfl := List.mem_singleton.mp hnew
      exact ⟨c, hc, rfl, rfl⟩

/-- `completion_callbacks.clear()` and the release of the lock. -/
theorem finish (h : Sound s) (hphase : s.phase = .notifying []) :
    Sound { s with completionCallbacks := [], phase := .finished } := by
  have hremaining : s.remaining = [] := by simp only [remaining, hphase]
  obtain ⟨ran, lateRan, hran, hearly, hnotEarly, -⟩ := h.early
  have hcompleted : s.completion ≠ none := fun hnone =>
    absurd (hphase.symm.trans (h.running.mpr hnone)) Phase.noConfusion
  refine ⟨h.ids, h.result, by simp [hcompleted], h.late, by simp, ?_,
    ⟨ran, lateRan, hran, ?_, hnotEarly, by simp⟩, h.early_sub, h.invoked, fun _ => rfl⟩
  · have hacc := h.accounted
    rw [hremaining] at hacc
    exact hacc
  · rw [hremaining] at hearly
    exact hearly

/-- A late registrant calls its wrapper. -/
theorem callLate (h : Sound s) {i : Nat} {r : Registration} {c : Completion T}
    (hi : s.late[i]? = some (r, c.result)) (hc : s.completion = some c) :
    Sound { s with
      late := s.late.eraseIdx i
      invocations := s.invocations ++ [⟨r, c.result, r.hook.expected c⟩] } := by
  have hmem := List.mem_of_getElem? hi
  have hphase : s.phase = .finished := by
    by_contra hunfinished
    rw [h.unfinished hunfinished] at hmem
    exact List.not_mem_nil hmem
  obtain ⟨ran, lateRan, hran, hearly, hnotEarly, -⟩ := h.early
  refine ⟨h.ids, h.result, h.running, fun p hp => h.late p (List.mem_of_mem_eraseIdx hp),
    fun hn => absurd hphase hn, ?_, ⟨ran, lateRan ++ [r], ?_, hearly, ?_,
    fun hn => absurd hphase hn⟩, h.early_sub, ?_, h.callbacks⟩
  · obtain ⟨hlt, hget⟩ := List.getElem?_eq_some_iff.mp hi
    have hperm := (List.getElem_cons_eraseIdx_perm hlt).map Prod.fst
    rw [hget] at hperm
    refine List.Perm.trans (List.Perm.append_right _ ?_) h.accounted
    rw [List.map_append, List.append_assoc]
    exact hperm.append_left _
  · simp [hran]
  · intro x hx
    rcases List.mem_append.mp hx with hold | hnew
    · exact hnotEarly x hold
    · obtain rfl := List.mem_singleton.mp hnew
      exact (h.late _ hmem).2
  · intro v hv
    rcases List.mem_append.mp hv with hold | hnew
    · exact h.invoked v hold
    · obtain rfl := List.mem_singleton.mp hnew
      exact ⟨c, hc, rfl, rfl⟩

end Sound

theorem sound_step {s s' : PromiseState T} {l : Label T} (h : Sound s)
    (hstep : s.step l = some s') : Sound s' := by
  cases l with
  | onCompleted hook =>
      simp only [step] at hstep
      split at hstep
      case h_1 => cases hstep
      case h_2 hfree =>
        cases hstep
        exact h.onCompleted hook fun rest hphase => hfree rest hphase
  | complete c =>
      simp only [step, Option.ite_none_right_eq_some, Option.some.injEq] at hstep
      obtain ⟨hphase, rfl⟩ := hstep
      exact h.complete c hphase
  | callNext =>
      simp only [step] at hstep
      split at hstep
      case h_1 r rest value hphase hvalue =>
        obtain ⟨c, hc, rfl⟩ := h.completion_of_result hvalue
        rw [invoke_eq, Option.some.injEq] at hstep
        exact hstep ▸ h.callNext hphase hc
      case h_2 => cases hstep
  | finish =>
      simp only [step, Option.ite_none_right_eq_some, Option.some.injEq] at hstep
      obtain ⟨hphase, rfl⟩ := hstep
      exact h.finish hphase
  | callLate i =>
      simp only [step] at hstep
      split at hstep
      case h_1 r value hi =>
        obtain ⟨c, hc, rfl⟩ := h.completion_of_result (h.late _ (List.mem_of_getElem? hi)).1
        rw [invoke_eq, Option.some.injEq] at hstep
        exact hstep ▸ h.callLate hi hc
      case h_2 => cases hstep

theorem sound_runs {ls : List (Label T)} {s : PromiseState T}
    (hrun : (machine T).Runs ls s) : Sound s := by
  refine hrun.invariant (I := Sound) ?_ fun _ _ _ h hstep => sound_step h hstep
  exact ⟨rfl, rfl, by simp [machine], by simp [machine], fun _ => rfl, List.Perm.refl [],
    ⟨[], [], rfl, rfl, by simp, fun _ => rfl⟩, List.Subset.refl _, by simp [machine],
    fun _ => rfl⟩

/-! ## Exactly once, on the right branch -/

def Quiescent (s : PromiseState T) : Prop := s.phase = .finished ∧ s.late = []

/-- The steps of the completing coroutine and of late registrants that only call and clear. -/
def Label.calls : Label T → Bool
  | .callNext | .finish | .callLate _ => true
  | _ => false

/-- The calls that are still to be made, and the clearing of the list. -/
def work (s : PromiseState T) : Nat :=
  s.remaining.length + s.late.length + if s.phase = .finished then 0 else 1

theorem work_step {s s' : PromiseState T} {l : Label T} (h : Sound s) (hl : l.calls = true)
    (hstep : s.step l = some s') : s'.work < s.work := by
  cases l with
  | callNext =>
      simp only [step] at hstep
      split at hstep
      case h_1 r rest value hphase hvalue =>
        obtain ⟨c, hc, rfl⟩ := h.completion_of_result hvalue
        rw [invoke_eq, Option.some.injEq] at hstep
        rw [← hstep]
        simp [work, remaining, hphase]
      case h_2 => cases hstep
  | finish =>
      simp only [step, Option.ite_none_right_eq_some, Option.some.injEq] at hstep
      obtain ⟨hphase, rfl⟩ := hstep
      simp [work, remaining, hphase]
  | callLate i =>
      simp only [step] at hstep
      split at hstep
      case h_1 r value hi =>
        obtain ⟨c, hc, rfl⟩ := h.completion_of_result (h.late _ (List.mem_of_getElem? hi)).1
        obtain ⟨hlt, -⟩ := List.getElem?_eq_some_iff.mp hi
        rw [invoke_eq, Option.some.injEq] at hstep
        rw [← hstep]
        simp only [work, remaining, List.length_eraseIdx_of_lt hlt]
        omega
      case h_2 => cases hstep
  | onCompleted hook => simp [Label.calls] at hl
  | complete c => simp [Label.calls] at hl

theorem callNext_step {s : PromiseState T} {r : Registration} {rest : List Registration}
    {c : Completion T} (hphase : s.phase = .notifying (r :: rest))
    (hresult : s.result = some c.result) :
    s.step .callNext = some { s with
      phase := .notifying rest
      invocations := s.invocations ++ [⟨r, c.result, r.hook.expected c⟩] } := by
  simp only [step, hphase, hresult]
  exact invoke_eq _ r c

theorem callLate_step {s : PromiseState T} {i : Nat} {r : Registration} {c : Completion T}
    (hi : s.late[i]? = some (r, c.result)) :
    s.step (.callLate i) = some { s with
      late := s.late.eraseIdx i
      invocations := s.invocations ++ [⟨r, c.result, r.hook.expected c⟩] } := by
  simp only [step, hi]
  exact invoke_eq _ r c

/-- After completion some wrapper can be called, or the list cleared, until nothing is left. -/
theorem exists_call {s : PromiseState T} (h : Sound s) (hcompleted : s.completion ≠ none)
    (hbusy : ¬ s.Quiescent) : ∃ l s', l.calls = true ∧ s.step l = some s' := by
  obtain ⟨c, hc⟩ := Option.ne_none_iff_exists'.mp hcompleted
  have hresult : s.result = some c.result := by rw [h.result, hc]; rfl
  cases hphase : s.phase with
  | running => exact absurd (h.running.mp hphase) hcompleted
  | notifying rest =>
      cases rest with
      | nil => exact ⟨.finish, _, rfl, if_pos hphase⟩
      | cons r rest => exact ⟨.callNext, _, rfl, callNext_step hphase hresult⟩
  | finished =>
      cases hlate : s.late with
      | nil => exact absurd ⟨hphase, hlate⟩ hbusy
      | cons p rest =>
          obtain ⟨r, value⟩ := p
          have hvalue := (h.late (r, value) (by simp [hlate])).1
          obtain rfl : value = c.result := Option.some.inj (hvalue.symm.trans hresult)
          exact ⟨.callLate 0, _, rfl, callLate_step (by rw [hlate]; rfl)⟩

theorem Sound.early_order {s : PromiseState T} (h : Sound s) :
    (s.invocations.map (·.registration)).filter (· ∈ s.early) ++ s.remaining = s.early := by
  obtain ⟨ran, lateRan, hran, hearly, hnotEarly, -⟩ := h.early
  have hkeep : ran.filter (· ∈ s.early) = ran := by
    rw [List.filter_eq_self]
    intro r hr
    simpa using hearly ▸ List.mem_append_left _ hr
  have hdrop : lateRan.filter (· ∈ s.early) = [] := by
    rw [List.filter_eq_nil_iff]
    intro r hr
    simpa using hnotEarly r hr
  rw [hran, List.filter_append, hkeep, hdrop, List.append_nil, hearly]

/-- **Callbacks fire exactly once.** In every reachable state the wrappers called, the late ones
about to be called and the early ones left are the registered ones, each once; a wrapper was
called on the final result and made the call it is for; the early ones are called in registration
order; after the completion's critical section the list is empty. Every further call makes the
work left smaller, one is possible until nothing is left, and then each wrapper was called. -/
theorem callbacks_fire_once {ls : List (Label T)} {s : PromiseState T}
    (hrun : (machine T).Runs ls s) :
    s.registered.Nodup ∧
    (s.invocations.map (·.registration) ++ s.late.map Prod.fst ++ s.remaining).Perm
      s.registered ∧
    (∀ v ∈ s.invocations, ∃ c, s.completion = some c ∧ s.result = some c.result ∧
      v.result = c.result ∧ v.call = v.registration.hook.expected c) ∧
    (s.invocations.map (·.registration)).filter (· ∈ s.early) ++ s.remaining = s.early ∧
    (s.phase = .finished → s.completionCallbacks = []) ∧
    (s.Quiescent → (s.invocations.map (·.registration)).Perm s.registered) ∧
    (∀ l s', l.calls = true → s.step l = some s' → s'.work < s.work) ∧
    (s.completion ≠ none → ¬ s.Quiescent → ∃ l s', l.calls = true ∧ s.step l = some s') := by
  have h := sound_runs hrun
  refine ⟨h.registered_nodup, h.accounted, ?_, h.early_order, h.callbacks, ?_,
    fun l s' hl hstep => work_step h hl hstep, exists_call h⟩
  · intro v hv
    obtain ⟨c, hc, hresult, hcall⟩ := h.invoked v hv
    exact ⟨c, hc, by rw [h.result, hc]; rfl, hresult, hcall⟩
  · rintro ⟨hphase, hlate⟩
    have hacc := h.accounted
    have hremaining : s.remaining = [] := by simp only [remaining, hphase]
    simpa [hremaining, hlate] using hacc

/-- Two early wrappers and two late ones on a task that throws. -/
theorem callbacks_fire_once_run :
    ∃ s : PromiseState Nat,
      (machine Nat).Runs
        [.onCompleted .then_, .onCompleted .catching, .complete (.exception "boom"), .callNext,
          .callNext, .finish, .onCompleted .finally_, .onCompleted .catching, .callLate 1,
          .callLate 0] s ∧
      (s.invocations.map (·.registration)).Perm s.registered ∧
      s.invocations.map (·.call) =
        [none, some (.catching (.std "boom")), some (.catching (.std "boom")), some .finally_] :=
  have hrun : (machine Nat).Runs
      [.onCompleted .then_, .onCompleted .catching, .complete (.exception "boom"), .callNext,
        .callNext, .finish, .onCompleted .finally_, .onCompleted .catching, .callLate 1,
        .callLate 0] _ := rfl
  ⟨_, hrun, (callbacks_fire_once hrun).2.2.2.2.2.1 ⟨rfl, rfl⟩, rfl⟩

end PromiseState

end Npp.Task
