import Npp.Foundation.Machine
import Npp.Task.Result
import Mathlib.Logic.Function.Basic

/-!
# Waiting for a result

Any number of `get_result` calls on one task, and its completion, which keeps `completion_lock` from
the assignment of `result` to the end of the callbacks. A call that finds no result waits once, and
does not look again when the wait is over.
-/

namespace Npp.Task

open Npp.Foundation

/-- How far `return_value`, `return_void` or `unhandled_exception` has come. -/
inductive ResultStage (T : Type) where
  | pending
  | published (result : Result T)
  | notified (result : Result T)
  | done (result : Result T)
deriving DecidableEq, Repr

namespace ResultStage

variable {T : Type}

def result : ResultStage T → Option (Result T)
  | .pending => none
  | .published r | .notified r | .done r => some r

def locks : ResultStage T → Bool
  | .published _ | .notified _ => true
  | .pending | .done _ => false

end ResultStage

/-- Where a call of `get_result` is. A wait that is over has still to lock `completion_lock`. -/
inductive WaitPhase where
  | idle
  | waiting
  | woken (notified : Bool)
deriving DecidableEq, Repr

def WaitPhase.notify : WaitPhase → WaitPhase
  | .waiting => .woken true
  | w => w

/-- `outcomes` has what each call has returned or thrown, and `none` for a call that has read an
empty `result`. -/
structure ResultState (θ T : Type) where
  completion : ResultStage T := .pending
  calls : θ → WaitPhase := fun _ => .idle
  outcomes : List (Option (Except Exn T)) := []

namespace ResultState

inductive Label (θ T : Type) where
  | getResult (t : θ)
  | wake (t : θ)
  | relock (t : θ)
  | complete (r : Result T)
  | notifyAll
  | unlock

section Steps

variable {θ T : Type} [DecidableEq θ]

def setCall (s : ResultState θ T) (t : θ) (w : WaitPhase) : ResultState θ T :=
  { s with calls := Function.update s.calls t w }

def read (s : ResultState θ T) : ResultState θ T :=
  { s with outcomes := s.outcomes ++ [s.completion.result.map Result.getOrThrow] }

def step (s : ResultState θ T) : Label θ T → Option (ResultState θ T)
  | .getResult t =>
      if s.calls t = .idle ∧ s.completion.locks = false then
        some (if s.completion.result.isSome then s.read else s.setCall t .waiting)
      else none
  -- a wait may end for no reason
  | .wake t => if s.calls t = .waiting then some (s.setCall t (.woken false)) else none
  | .relock t =>
      match s.calls t with
      | .woken _ => if s.completion.locks then none else some (s.setCall t .idle).read
      | _ => none
  | .complete r =>
      match s.completion with
      | .pending => some { s with completion := .published r }
      | _ => none
  | .notifyAll =>
      match s.completion with
      | .published r =>
          some { s with completion := .notified r, calls := fun t => (s.calls t).notify }
      | _ => none
  | .unlock =>
      match s.completion with
      | .notified r => some { s with completion := .done r }
      | _ => none

def machine (θ T : Type) [DecidableEq θ] : Machine (ResultState θ T) (Label θ T) where
  init := {}
  step := step

end Steps

variable {θ T : Type} {s s' : ResultState θ T} {l : Label θ T}

/-- Every call that is through has read the result of the completion. -/
def ReadsResult (s : ResultState θ T) : Prop :=
  ∀ o ∈ s.outcomes, ∃ r, s.completion.result = some r ∧ o = some r.getOrThrow

/-- A call whose wait has ended for no reason gets the lock when there is a result. -/
def WakesLate (s : ResultState θ T) : Label θ T → Prop
  | .relock t => s.calls t = .woken false → s.completion.result.isSome
  | _ => True

instance (s : ResultState θ T) : ∀ l, Decidable (WakesLate s l)
  | .relock t => inferInstanceAs (Decidable (s.calls t = .woken false → _))
  | .getResult _ | .wake _ | .complete _ | .notifyAll | .unlock => .isTrue trivial

def Notified (s : ResultState θ T) : Prop :=
  ∀ t, s.calls t = .woken true → s.completion.result.isSome

theorem readsResult_read (h : s.ReadsResult) :
    s.read.ReadsResult ↔ s.completion.result.isSome := by
  constructor
  · intro h'
    obtain ⟨r, hr, -⟩ := h' _ (List.mem_append_right _ (List.mem_singleton_self _))
    have hres : s.completion.result = some r := hr
    rw [hres]
    rfl
  · intro hsome o ho
    obtain ⟨r, hr⟩ := Option.isSome_iff_exists.mp hsome
    rcases List.mem_append.mp ho with hold | hnew
    · exact h o hold
    · refine ⟨r, hr, ?_⟩
      rw [List.mem_singleton.mp hnew, hr, Option.map_some]

/-- Only the result and the outcomes count. -/
theorem ReadsResult.congr (h : s.ReadsResult)
    (hresult : s'.completion.result = s.completion.result) (houtcomes : s'.outcomes = s.outcomes) :
    s'.ReadsResult := by
  intro o ho
  rw [houtcomes] at ho
  rw [hresult]
  exact h o ho

/-- Without a result no call is through. -/
theorem ReadsResult.outcomes_eq_nil (h : s.ReadsResult) (hnone : s.completion.result = none) :
    s.outcomes = [] := by
  apply List.eq_nil_iff_forall_not_mem.mpr
  intro o ho
  obtain ⟨r, hr, -⟩ := h o ho
  rw [hnone] at hr
  cases hr

variable [DecidableEq θ]

theorem Notified.setCall (h : s.Notified) {t : θ} {w : WaitPhase} (hw : w ≠ .woken true) :
    (s.setCall t w).Notified := by
  intro j hj
  change Function.update s.calls t w j = _ at hj
  by_cases hjt : j = t
  · subst hjt
    rw [Function.update_self] at hj
    exact absurd hj hw
  · rw [Function.update_of_ne hjt] at hj
    exact h j hj

theorem Notified.step (h : s.Notified) (hstep : s.step l = some s') : s'.Notified := by
  cases l with
  | getResult t =>
      simp only [ResultState.step, Option.ite_none_right_eq_some, Option.some.injEq] at hstep
      obtain ⟨-, rfl⟩ := hstep
      split
      · exact h
      · exact h.setCall nofun
  | wake t =>
      simp only [ResultState.step, Option.ite_none_right_eq_some, Option.some.injEq] at hstep
      obtain ⟨-, rfl⟩ := hstep
      exact h.setCall nofun
  | relock t =>
      simp only [ResultState.step] at hstep
      split at hstep
      case h_1 =>
        rw [Option.ite_none_left_eq_some] at hstep
        obtain ⟨-, hstep⟩ := hstep
        cases hstep
        exact h.setCall (t := t) (w := .idle) nofun
      case h_2 => cases hstep
  | complete r =>
      simp only [ResultState.step] at hstep
      split at hstep
      case h_1 =>
        cases hstep
        exact fun _ _ => rfl
      case h_2 => cases hstep
  | notifyAll =>
      simp only [ResultState.step] at hstep
      split at hstep
      case h_1 =>
        cases hstep
        exact fun _ _ => rfl
      case h_2 => cases hstep
  | unlock =>
      simp only [ResultState.step] at hstep
      split at hstep
      case h_1 =>
        cases hstep
        exact fun _ _ => rfl
      case h_2 => cases hstep

/-- A step that changes no result keeps the property when it reads one, or nothing. -/
theorem readsResult_step_iff (hnotified : s.Notified) (h : s.ReadsResult)
    (hstep : s.step l = some s') : s'.ReadsResult ↔ s.WakesLate l := by
  cases l with
  | getResult t =>
      simp only [step, Option.ite_none_right_eq_some, Option.some.injEq] at hstep
      obtain ⟨-, rfl⟩ := hstep
      apply iff_of_true _ trivial
      split
      case isTrue hsome => exact (readsResult_read h).mpr hsome
      case isFalse => exact h
  | wake t =>
      simp only [step, Option.ite_none_right_eq_some, Option.some.injEq] at hstep
      obtain ⟨-, rfl⟩ := hstep
      exact iff_of_true h trivial
  | relock t =>
      simp only [step] at hstep
      split at hstep
      case h_1 notified hcall =>
        rw [Option.ite_none_left_eq_some] at hstep
        obtain ⟨-, hstep⟩ := hstep
        cases hstep
        have hidle : (s.setCall t .idle).ReadsResult := h
        rw [readsResult_read hidle, WakesLate, hcall]
        cases notified with
        | true => exact iff_of_true (hnotified t hcall) nofun
        | false => exact ⟨fun hsome _ => hsome, fun hlate => hlate rfl⟩
      case h_2 => cases hstep
  | complete r =>
      simp only [step] at hstep
      split at hstep
      case h_1 hpending =>
        cases hstep
        have hnil := h.outcomes_eq_nil (by rw [hpending]; rfl)
        apply iff_of_true _ trivial
        intro o ho
        rw [hnil] at ho
        cases ho
      case h_2 => cases hstep
  | notifyAll =>
      simp only [step] at hstep
      split at hstep
      case h_1 r hpublished =>
        cases hstep
        exact iff_of_true (h.congr (by rw [hpublished]; rfl) rfl) trivial
      case h_2 => cases hstep
  | unlock =>
      simp only [step] at hstep
      split at hstep
      case h_1 r hdone =>
        cases hstep
        exact iff_of_true (h.congr (by rw [hdone]; rfl) rfl) trivial
      case h_2 => cases hstep

/-- **`get_result` reads no missing result.** Every call that is through has returned or thrown what
the task has completed with, as long as no wait that has ended for no reason gets the lock back
before the task has completed. -/
theorem readsResult_iff {ls : List (Label θ T)} (hrun : (machine θ T).Runs ls s) :
    (machine θ T).Meets WakesLate (machine θ T).init ls ↔
      ∀ pre t, pre <+: ls → (machine θ T).Runs pre t → ReadsResult t := by
  apply hrun.meets_iff_of_invariant (I := ReadsResult) (J := Notified)
  · exact fun _ ht => nomatch ht
  · exact fun _ ho => nomatch ho
  · exact fun _ _ _ h hstep => h.step hstep
  · exact fun _ _ _ hnotified h hstep => readsResult_step_iff hnotified h hstep
  · exact fun _ _ => Iff.rfl

/-- Two calls wait, one of them wakes too soon and gets the lock in time, behind the completion. -/
theorem readsResult_iff_run :
    ∃ s, (machine Bool Nat).Runs [.getResult true, .getResult false, .wake true,
        .complete (.ofValue 7), .notifyAll, .unlock, .relock true, .relock false] s ∧
      s.outcomes = [some (.ok 7), some (.ok 7)] ∧ ReadsResult s := by
  have hrun : (machine Bool Nat).Runs [.getResult true, .getResult false, .wake true,
      .complete (.ofValue 7), .notifyAll, .unlock, .relock true, .relock false] _ := rfl
  refine ⟨_, hrun, rfl, (readsResult_iff hrun).mp ?_ _ _ List.prefix_rfl hrun⟩
  decide +kernel

/-- A wait ends for no reason before the task has completed. -/
theorem not_readsResult :
    ∃ s, (machine Unit Nat).Runs [.getResult (), .wake (), .relock ()] s ∧ ¬ ReadsResult s := by
  refine ⟨_, rfl, fun h => ?_⟩
  obtain ⟨r, hr, -⟩ := h none (List.mem_singleton_self _)
  cases hr

end ResultState

end Npp.Task
