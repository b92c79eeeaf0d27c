import Npp.Foundation.Machine
import Npp.Task.Result
import Mathlib.Data.List.Infix

/-!
# The keeper of detached tasks

`detach` hands a task to the `TaskKeeper`, whose `keep_me` first sweeps its list with `check` and
then appends a pack; `~TaskKeeper` waits for the task of every pack and deletes it. The keeper's
thread takes one step for every pack it looks at, and the kept tasks finish between any two of
its steps.
-/

namespace Npp.Task

open Npp.Foundation

variable {T : Type}

/-- The promise of a kept task. In `publishing` its coroutine is inside `return_value` or
`unhandled_exception`, which hold `completion_lock` from the assignment of `result` until
`completion_callbacks` is cleared. -/
inductive KeptPromise (T : Type) where
  | running (callbacks : Nat)
  | publishing (result : Result T) (callbacks : Nat)
  | published (result : Result T)
deriving DecidableEq, Repr

namespace KeptPromise

def result : KeptPromise T → Option (Result T)
  | .running _ => none
  | .publishing r _ => some r
  | .published r => some r

def callbacks : KeptPromise T → Nat
  | .running n => n
  | .publishing _ n => n
  | .published _ => 0

def entirelyFinish (p : KeptPromise T) : Bool := p.result.isSome && p.callbacks == 0

theorem entirelyFinish_published (r : Result T) : (published r).entirelyFinish = true := rfl

end KeptPromise

/-- A task that was kept, and the state of its promise at every execution of `delete`. -/
structure KeptTask (T : Type) where
  promise : KeptPromise T
  deletions : List (KeptPromise T) := []
deriving Repr

/-- The member of a `Pack` that calls `get_result`; `del` does so in `~Task`. -/
inductive PackCall where
  | wait
  | del
deriving DecidableEq, Repr

/-- Where the keeper's thread is. `checking b it` is the sweep of the `keep_me` that will append
`b`, with the iterator at place `it`; the next four are about the pack at place `it` in
`~TaskKeeper`. In `undefined` the thread has used an invalid iterator or an empty `result`. -/
inductive KeeperPhase where
  | idle
  | checking (b it : Nat)
  | locking (it : Nat) (call : PackCall)
  | blocked (it : Nat) (call : PackCall)
  | destroying (it : Nat)
  | done
  | terminated
  | undefined
deriving DecidableEq, Repr

/-- What follows a `get_result` that found `result`. An exception leaves `~TaskKeeper`, or `~Task`
for `del`, and neither may throw. -/
def PackCall.returns (call : PackCall) (it : Nat) (result : Result T) : KeeperPhase :=
  match result.getOrThrow, call with
  | .error _, _ => .terminated
  | .ok _, .wait => .locking it .del
  | .ok _, .del => .destroying it

def KeeperPhase.place : KeeperPhase → Nat
  | .checking _ it => it
  | .locking it _ => it
  | .blocked it _ => it
  | .destroying it => it
  | _ => 0

structure KeeperState (T : Type) where
  /-- Every task given to `keep_me`, in order. -/
  kept : List (KeptTask T) := []
  /-- The list `tasks`: a pack is the number of its task in `kept`. -/
  tasks : List Nat := []
  phase : KeeperPhase := .idle
deriving Repr

namespace KeeperState

inductive Label (T : Type) where
  | keepMe (promise : KeptPromise T)
  | destruct
  | advance
  | wake
  | publish (i : Nat) (result : Result T)
  | notified (i : Nat)
deriving Repr

/-- A step of the keeper's thread inside `keep_me` or `~TaskKeeper`. -/
def Label.isKeeper : Label T → Bool
  | .advance => true
  | .wake => true
  | _ => false

def promiseOf (s : KeeperState T) (i : Nat) : Option (KeptPromise T) :=
  s.kept[i]?.map (·.promise)

def promiseAt (s : KeeperState T) (it : Nat) : Option (KeptPromise T) :=
  s.tasks[it]?.bind s.promiseOf

def setPromise (s : KeeperState T) (i : Nat) (p : KeptPromise T) : KeeperState T :=
  { s with kept := s.kept.modify i fun k => { k with promise := p } }

def delete (s : KeeperState T) (i : Nat) : KeeperState T :=
  { s with kept := s.kept.modify i fun k => { k with deletions := k.deletions ++ [k.promise] } }

def advance (s : KeeperState T) : Option (KeeperState T) :=
  match s.phase with
  | .checking b it =>
      match s.promiseAt it with
      | none => some { s with tasks := s.tasks ++ [b], phase := .idle }
      | some p =>
          if p.entirelyFinish then
            -- the loop goes on with the iterator that `erase` has invalidated
            some { s with tasks := s.tasks.eraseIdx it, phase := .undefined }
          else some { s with phase := .checking b (it + 1) }
  | .locking it call =>
      match s.promiseAt it with
      | none => some { s with phase := .done }
      | some (.running _) => some { s with phase := .blocked it call }
      -- the coroutine holds `completion_lock`
      | some (.publishing _ _) => none
      | some (.published r) => some { s with phase := call.returns it r }
  | .destroying it =>
      s.tasks[it]?.map fun i => { s.delete i with phase := .locking (it + 1) .wait }
  | _ => none

/-- `completion.wait` returns; it has no predicate, so it may end without a result. -/
def wake (s : KeeperState T) : Option (KeeperState T) :=
  match s.phase with
  | .blocked it call =>
      match s.promiseAt it with
      | some (.running _) => some { s with phase := .undefined }
      | some (.published r) => some { s with phase := call.returns it r }
      | _ => none
  | _ => none

def step (s : KeeperState T) : Label T → Option (KeeperState T)
  | .keepMe p =>
      if s.phase = .idle then
        some { s with kept := s.kept ++ [{ promise := p }], phase := .checking s.kept.length 0 }
      else none
  | .destruct => if s.phase = .idle then some { s with phase := .locking 0 .wait } else none
  | .advance => s.advance
  | .wake => s.wake
  | .publish i r =>
      match s.promiseOf i with
      | some (.running n) => some (s.setPromise i (.publishing r n))
      | _ => none
  | .notified i =>
      match s.promiseOf i with
      | some (.publishing r _) => some (s.setPromise i (.published r))
      | _ => none

def machine (T : Type) : Machine (KeeperState T) (Label T) where
  init := {}
  step := step

/-- Every kept task is deleted exactly once, not before it has finished, and until then its pack is
in the list; and nothing stops the keeper. -/
structure ReleasedOnce (s : KeeperState T) : Prop where
  once : ∀ k ∈ s.kept, k.deletions.length ≤ 1
  finished : ∀ k ∈ s.kept, ∀ p ∈ k.deletions, p.entirelyFinish = true
  held : ∀ i k, s.kept[i]? = some k → k.deletions = [] →
    i ∈ s.tasks ∨ ∃ it, s.phase = .checking i it
  all : s.phase = .done → ∀ k ∈ s.kept, k.deletions.length = 1
  proceeds : s.phase ≠ .terminated ∧ s.phase ≠ .undefined

/-- What the keeper's thread may find at the pack it looks at: an unfinished task in the sweep, no
exception in `get_result`, and a result when the wait ends. -/
def accepts : KeeperPhase → KeptPromise T → Bool
  | .checking _ _, p => !p.entirelyFinish
  | .locking _ _, p => p.result.all (·.exceptionPtr.isNone)
  | .blocked _ _, p => p.result.any (·.exceptionPtr.isNone)
  | _, _ => true

/-- A step of the keeper's thread finds nothing else. -/
def Harmless (s : KeeperState T) (l : Label T) : Prop :=
  l.isKeeper = true → ∀ p ∈ s.promiseAt s.phase.place, accepts s.phase p = true

instance (s : KeeperState T) (l : Label T) : Decidable (s.Harmless l) :=
  inferInstanceAs (Decidable (l.isKeeper = true → ∀ p ∈ s.promiseAt s.phase.place, _))

/-! ## What is kept and what is deleted -/

def appending : KeeperPhase → List Nat
  | .checking b _ => [b]
  | _ => []

def released (s : KeeperState T) : Nat :=
  match s.phase with
  | .locking it _ => it
  | .blocked it _ => it
  | .destroying it => it
  | .done => s.tasks.length
  | _ => 0

def Stopped (s : KeeperState T) : Prop := s.phase = .terminated ∨ s.phase = .undefined

/-- The list holds every kept task in order, and those before `released` are deleted. -/
structure Accounted (s : KeeperState T) : Prop where
  packs : s.tasks ++ appending s.phase = List.range s.kept.length
  deleted : ∀ i k, s.kept[i]? = some k → i < s.released →
    ∃ r, k.deletions = [.published r]
  undeleted : ∀ i k, s.kept[i]? = some k → s.released ≤ i → k.deletions = []
  bound : s.released ≤ s.tasks.length
  blocked : ∀ it call, s.phase = .blocked it call → it < s.tasks.length
  ready : ∀ it, s.phase = .destroying it → ∃ r, s.promiseAt it = some (.published r)

theorem kept_setPromise {s : KeeperState T} {i j : Nat} {p : KeptPromise T} {k : KeptTask T}
    (h : (s.setPromise i p).kept[j]? = some k) :
    ∃ k', s.kept[j]? = some k' ∧ k.deletions = k'.deletions := by
  simp only [setPromise, List.getElem?_modify, Option.map_eq_map, Option.map_eq_some_iff] at h
  obtain ⟨k', hk', rfl⟩ := h
  refine ⟨k', hk', ?_⟩
  split <;> rfl

theorem promiseOf_setPromise_ne {s : KeeperState T} {i j : Nat} {p : KeptPromise T} (h : i ≠ j) :
    (s.setPromise i p).promiseOf j = s.promiseOf j := by
  simp [promiseOf, setPromise, h]

theorem kept_delete {s : KeeperState T} {i j : Nat} {k : KeptTask T}
    (h : (s.delete i).kept[j]? = some k) :
    ∃ k', s.kept[j]? = some k' ∧
      k.deletions = if i = j then k'.deletions ++ [k'.promise] else k'.deletions := by
  simp only [delete, List.getElem?_modify, Option.map_eq_map, Option.map_eq_some_iff] at h
  obtain ⟨k', hk', rfl⟩ := h
  refine ⟨k', hk', ?_⟩
  split <;> rfl

@[simp] theorem length_setPromise (s : KeeperState T) (i : Nat) (p : KeptPromise T) :
    (s.setPromise i p).kept.length = s.kept.length := by
  simp [setPromise]

@[simp] theorem length_delete (s : KeeperState T) (i : Nat) :
    (s.delete i).kept.length = s.kept.length := by
  simp [delete]

namespace Accounted

theorem tasks_eq {s : KeeperState T} (h : Accounted s) : s.tasks = List.range s.tasks.length := by
  have hprefix : s.tasks <+: List.range s.kept.length := ⟨_, h.packs⟩
  have hlen : s.tasks.length ≤ s.kept.length := by
    simpa using hprefix.length_le
  have htake := List.prefix_iff_eq_take.mp hprefix
  rwa [List.take_range, Nat.min_eq_left hlen] at htake

theorem getElem?_tasks {s : KeeperState T} (h : Accounted s) {it : Nat}
    (hit : it < s.tasks.length) : s.tasks[it]? = some it := by
  rw [h.tasks_eq]
  simp [hit]

theorem promiseAt_eq {s : KeeperState T} (h : Accounted s) {it : Nat}
    (hit : it < s.tasks.length) : s.promiseAt it = s.promiseOf it := by
  simp [promiseAt, h.getElem?_tasks hit]

theorem length_tasks_le {s : KeeperState T} (h : Accounted s) :
    s.tasks.length ≤ s.kept.length := by
  have hprefix : s.tasks <+: List.range s.kept.length := ⟨_, h.packs⟩
  simpa using hprefix.length_le

/-- Every pack refers to a kept task. -/
theorem promiseAt_eq_none {s : KeeperState T} (h : Accounted s) {it : Nat} :
    s.promiseAt it = none ↔ s.tasks.length ≤ it := by
  by_cases hit : it < s.tasks.length
  · have hkept : it < s.kept.length := Nat.lt_of_lt_of_le hit h.length_tasks_le
    simp [h.promiseAt_eq hit, promiseOf, hkept, hit]
  · simp [promiseAt, Nat.not_lt.mp hit]

/-- The thread moves on without touching the lists. -/
theorem of_phase {s : KeeperState T} (h : Accounted s) {phase : KeeperPhase}
    (happending : appending phase = appending s.phase)
    (hreleased : released { s with phase := phase } = s.released)
    (hblocked : ∀ it call, phase = .blocked it call → it < s.tasks.length)
    (hready : ∀ it, phase = .destroying it → ∃ r, s.promiseAt it = some (.published r)) :
    Accounted { s with phase := phase } where
  packs := by
    show s.tasks ++ appending phase = _
    rw [happending]
    exact h.packs
  deleted i k hk hi := h.deleted i k hk (hreleased ▸ hi)
  undeleted i k hk hi := h.undeleted i k hk (hreleased ▸ hi)
  bound := hreleased ▸ h.bound
  blocked := hblocked
  ready := hready

/-- A task that has not been released moves on. -/
theorem setPromise {s : KeeperState T} (h : Accounted s) {i : Nat} {p : KeptPromise T}
    (hp : ∀ r, s.promiseOf i ≠ some (.published r)) : Accounted (s.setPromise i p) where
  packs := by
    rw [length_setPromise]
    exact h.packs
  deleted j k hk hj := by
    obtain ⟨k', hk', hdel⟩ := kept_setPromise hk
    rw [hdel]
    exact h.deleted j k' hk' hj
  undeleted j k hk hj := by
    obtain ⟨k', hk', hdel⟩ := kept_setPromise hk
    rw [hdel]
    exact h.undeleted j k' hk' hj
  bound := h.bound
  blocked := h.blocked
  ready it hphase := by
    obtain ⟨r, hr⟩ := h.ready it hphase
    have hit : it < s.tasks.length := by
      by_contra hlt
      rw [h.promiseAt_eq_none.mpr (Nat.not_lt.mp hlt)] at hr
      cases hr
    rw [h.promiseAt_eq hit] at hr
    have hne : i ≠ it := fun heq => hp r (heq ▸ hr)
    refine ⟨r, ?_⟩
    show (s.tasks[it]?.bind (s.setPromise i p).promiseOf) = _
    rw [h.getElem?_tasks hit, Option.bind_some, promiseOf_setPromise_ne hne, hr]

theorem setPromise_of_ne {s : KeeperState T} (h : Accounted s) {i : Nat} {p q : KeptPromise T}
    (hq : s.promiseOf i = some q) (hne : ∀ r, q ≠ .published r) : Accounted (s.setPromise i p) := by
  apply h.setPromise
  intro r hr
  rw [hq] at hr
  exact hne r (Option.some.inj hr)

/-- `keep_me` begins. -/
theorem keepMe {s : KeeperState T} (h : Accounted s) (hphase : s.phase = .idle)
    (p : KeptPromise T) :
    Accounted { s with
      kept := s.kept ++ [{ promise := p }], phase := .checking s.kept.length 0 } where
  packs := by
    have hpacks := h.packs
    rw [hphase] at hpacks
    simp only [appending, List.append_nil] at hpacks
    simp [appending, List.range_succ, hpacks]
  deleted i k hk hi := absurd hi (Nat.not_lt_zero i)
  undeleted i k hk _ := by
    have hzero : s.released = 0 := by simp only [released, hphase]
    rw [List.getElem?_append] at hk
    split at hk
    · exact h.undeleted i k hk (hzero ▸ Nat.zero_le i)
    · rw [List.getElem?_singleton, Option.ite_none_right_eq_some, Option.some.injEq] at hk
      rw [← hk.2]
  bound := Nat.zero_le _
  blocked _ _ hblocked := KeeperPhase.noConfusion hblocked
  ready _ hready := KeeperPhase.noConfusion hready

/-- `keep_me` ends. -/
theorem pushBack {s : KeeperState T} (h : Accounted s) {b it : Nat}
    (hphase : s.phase = .checking b it) :
    Accounted { s with tasks := s.tasks ++ [b], phase := .idle } where
  packs := by
    have hpacks := h.packs
    rw [hphase] at hpacks
    simpa [appending] using hpacks
  deleted i k _ hi := absurd hi (Nat.not_lt_zero i)
  undeleted i k hk _ := by
    have hzero : s.released = 0 := by simp only [released, hphase]
    exact h.undeleted i k hk (hzero ▸ Nat.zero_le i)
  bound := Nat.zero_le _
  blocked _ _ hblocked := KeeperPhase.noConfusion hblocked
  ready _ hready := KeeperPhase.noConfusion hready

theorem lt_of_promiseAt {s : KeeperState T} (h : Accounted s) {it : Nat} {p : KeptPromise T}
    (hp : s.promiseAt it = some p) : it < s.tasks.length := by
  by_contra hlt
  rw [h.promiseAt_eq_none.mpr (Nat.not_lt.mp hlt)] at hp
  cases hp

/-- The pack at the iterator is released. -/
theorem destroy {s : KeeperState T} (h : Accounted s) {it : Nat}
    (hphase : s.phase = .destroying it) :
    Accounted { s.delete it with phase := .locking (it + 1) .wait } := by
  obtain ⟨r, hr⟩ := h.ready it hphase
  have hit : it < s.tasks.length := h.lt_of_promiseAt hr
  have hreleased : s.released = it := by simp only [released, hphase]
  rw [h.promiseAt_eq hit] at hr
  refine ⟨?_, ?_, ?_, hit, fun _ _ h => KeeperPhase.noConfusion h,
    fun _ h => KeeperPhase.noConfusion h⟩
  · show s.tasks ++ [] = List.range (s.delete it).kept.length
    have hpacks := h.packs
    rw [hphase] at hpacks
    rw [length_delete]
    exact hpacks
  · intro i k hk hi
    obtain ⟨k', hk', hdel⟩ := kept_delete hk
    rw [hdel]
    split
    case isTrue heq =>
      subst heq
      have hpromise : k'.promise = .published r := by
        simpa [promiseOf, hk'] using hr
      refine ⟨r, ?_⟩
      rw [h.undeleted it k' hk' (Nat.le_of_eq hreleased), hpromise, List.nil_append]
    case isFalse hne =>
      have hlt : i < it := Nat.lt_of_le_of_ne (Nat.lt_succ_iff.mp hi) (Ne.symm hne)
      exact h.deleted i k' hk' (hreleased.symm ▸ hlt)
  · intro i k hk hi
    have hlt : it < i := hi
    obtain ⟨k', hk', hdel⟩ := kept_delete hk
    rw [hdel, if_neg (Nat.ne_of_lt hlt)]
    exact h.undeleted i k' hk' (hreleased.symm ▸ Nat.le_of_lt hlt)

end Accounted

/-! ## What a step does -/

theorem returns_value {call : PackCall} {it : Nat} {r : Result T} (h : r.exceptionPtr = none) :
    call.returns it r = match call with
      | .wait => .locking it .del
      | .del => .destroying it := by
  cases call <;> simp [PackCall.returns, Result.getOrThrow, h]

theorem returns_exception {call : PackCall} {it : Nat} {r : Result T}
    (h : r.exceptionPtr ≠ none) : call.returns it r = .terminated := by
  obtain ⟨e, he⟩ := Option.ne_none_iff_exists'.mp h
  cases call <;> simp [PackCall.returns, Result.getOrThrow, he]

/-- A step of the keeper goes on, or it stops the keeper because the condition is broken. -/
def Outcome (s : KeeperState T) (l : Label T) (s' : KeeperState T) : Prop :=
  (s.Harmless l ∧ ¬ s'.Stopped ∧ s'.Accounted) ∨ (¬ s.Harmless l ∧ s'.Stopped)

theorem harmless_iff {s : KeeperState T} {l : Label T} {p : KeptPromise T}
    (hl : l.isKeeper = true) (hp : s.promiseAt s.phase.place = some p) :
    s.Harmless l ↔ accepts s.phase p = true := by
  simp [Harmless, hl, hp]

theorem harmless_of_none {s : KeeperState T} {l : Label T}
    (hp : s.promiseAt s.phase.place = none) : s.Harmless l := by
  simp [Harmless, hp]

/-- `get_result` returns. -/
theorem returns_outcome {s : KeeperState T} (h : Accounted s) {l : Label T}
    (hl : l.isKeeper = true) {it : Nat} {call : PackCall} {r : Result T}
    (hphase : s.phase = .locking it call ∨ s.phase = .blocked it call)
    (hp : s.promiseAt it = some (.published r)) :
    Outcome s l { s with phase := call.returns it r } := by
  have hplace : s.phase.place = it := by rcases hphase with h | h <;> rw [h] <;> rfl
  have haccepts : accepts s.phase (.published r) = r.exceptionPtr.isNone := by
    rcases hphase with h | h <;> rw [h] <;> rfl
  have happending : appending s.phase = [] := by rcases hphase with h | h <;> rw [h] <;> rfl
  have hreleased : s.released = it := by rcases hphase with h | h <;> simp only [released, h]
  have hiff : s.Harmless l ↔ r.exceptionPtr = none := by
    rw [harmless_iff hl (hplace ▸ hp), haccepts, Option.isNone_iff_eq_none]
  by_cases hr : r.exceptionPtr = none
  · refine Or.inl ⟨hiff.mpr hr, ?_⟩
    rw [returns_value hr]
    cases call with
    | wait =>
        refine ⟨by simp [Stopped], h.of_phase happending.symm hreleased.symm ?_ ?_⟩
        · exact fun _ _ h => KeeperPhase.noConfusion h
        · exact fun _ h => KeeperPhase.noConfusion h
    | del =>
        refine ⟨by simp [Stopped], h.of_phase happending.symm hreleased.symm ?_ ?_⟩
        · exact fun _ _ h => KeeperPhase.noConfusion h
        · intro it' hit'
          obtain rfl := KeeperPhase.destroying.inj hit'
          exact ⟨r, hp⟩
  · refine Or.inr ⟨fun hc => hr (hiff.mp hc), Or.inl ?_⟩
    exact returns_exception hr

theorem advance_outcome {s s' : KeeperState T} (h : Accounted s) (hstep : s.advance = some s') :
    Outcome s .advance s' := by
  unfold advance at hstep
  split at hstep
  case h_1 b it hphase =>
    have hplace : s.phase.place = it := by rw [hphase]; rfl
    split at hstep
    case h_1 hp =>
      obtain rfl := Option.some.inj hstep
      refine Or.inl ⟨harmless_of_none (hplace ▸ hp), by simp [Stopped], h.pushBack hphase⟩
    case h_2 p hp =>
      have hiff : s.Harmless .advance ↔ p.entirelyFinish = false := by
        rw [harmless_iff rfl (hplace ▸ hp), hphase]
        simp [accepts]
      split at hstep
      case isTrue hfinish =>
        obtain rfl := Option.some.inj hstep
        refine Or.inr ⟨fun hc => ?_, Or.inr rfl⟩
        rw [hiff.mp hc] at hfinish
        cases hfinish
      case isFalse hfinish =>
        obtain rfl := Option.some.inj hstep
        refine Or.inl ⟨hiff.mpr (Bool.not_eq_true _ ▸ hfinish), by simp [Stopped], ?_⟩
        refine h.of_phase (by rw [hphase]; rfl) ?_ ?_ ?_
        · simp only [released, hphase]
        · exact fun _ _ h => KeeperPhase.noConfusion h
        · exact fun _ h => KeeperPhase.noConfusion h
  case h_2 it call hphase =>
    have hplace : s.phase.place = it := by rw [hphase]; rfl
    have hreleased : s.released = it := by simp only [released, hphase]
    have happending : appending s.phase = [] := by rw [hphase]; rfl
    split at hstep
    case h_1 hp =>
      obtain rfl := Option.some.inj hstep
      have hlen : s.tasks.length = it :=
        Nat.le_antisymm (h.promiseAt_eq_none.mp hp) (hreleased ▸ h.bound)
      refine Or.inl ⟨harmless_of_none (hplace ▸ hp), by simp [Stopped], ?_⟩
      refine h.of_phase happending.symm (hlen.trans hreleased.symm) ?_ ?_
      · exact fun _ _ h => KeeperPhase.noConfusion h
      · exact fun _ h => KeeperPhase.noConfusion h
    case h_2 n hp =>
      obtain rfl := Option.some.inj hstep
      refine Or.inl ⟨?_, by simp [Stopped], ?_⟩
      · rw [harmless_iff rfl (hplace ▸ hp), hphase]
        rfl
      · refine h.of_phase happending.symm hreleased.symm ?_ ?_
        · intro it' call' hblocked
          obtain ⟨rfl, -⟩ := KeeperPhase.blocked.inj hblocked
          exact h.lt_of_promiseAt hp
        · exact fun _ h => KeeperPhase.noConfusion h
    case h_3 => cases hstep
    case h_4 r hp =>
      obtain rfl := Option.some.inj hstep
      exact returns_outcome h rfl (Or.inl hphase) hp
  case h_3 it hphase =>
    obtain ⟨r, hr⟩ := h.ready it hphase
    rw [h.getElem?_tasks (h.lt_of_promiseAt hr), Option.map_some] at hstep
    obtain rfl := Option.some.inj hstep
    refine Or.inl ⟨?_, by simp [Stopped], h.destroy hphase⟩
    intro _ p _
    rw [hphase]
    rfl
  case h_4 => cases hstep

theorem wake_outcome {s s' : KeeperState T} (h : Accounted s) (hstep : s.wake = some s') :
    Outcome s .wake s' := by
  unfold wake at hstep
  split at hstep
  case h_1 it call hphase =>
    have hplace : s.phase.place = it := by rw [hphase]; rfl
    split at hstep
    case h_1 n hp =>
      obtain rfl := Option.some.inj hstep
      refine Or.inr ⟨?_, Or.inr rfl⟩
      rw [harmless_iff rfl (hplace ▸ hp), hphase]
      exact Bool.false_ne_true
    case h_2 r hp =>
      obtain rfl := Option.some.inj hstep
      exact returns_outcome h rfl (Or.inr hphase) hp
    case h_3 => cases hstep
  case h_2 => cases hstep

/-- One step from a state with its packs accounted for. -/
theorem step_outcome {s s' : KeeperState T} {l : Label T} (h : Accounted s)
    (hstopped : ¬ s.Stopped) (hstep : s.step l = some s') : Outcome s l s' := by
  cases l with
  | keepMe p =>
      simp only [step, Option.ite_none_right_eq_some, Option.some.injEq] at hstep
      obtain ⟨hphase, rfl⟩ := hstep
      refine Or.inl ⟨fun hl => Bool.noConfusion hl, by simp [Stopped], h.keepMe hphase p⟩
  | destruct =>
      simp only [step, Option.ite_none_right_eq_some, Option.some.injEq] at hstep
      obtain ⟨hphase, rfl⟩ := hstep
      refine Or.inl ⟨fun hl => Bool.noConfusion hl, by simp [Stopped], ?_⟩
      refine h.of_phase (by rw [hphase]; rfl) ?_ ?_ ?_
      · simp only [released, hphase]
      · exact fun _ _ h => KeeperPhase.noConfusion h
      · exact fun _ h => KeeperPhase.noConfusion h
  | advance => exact advance_outcome h hstep
  | wake => exact wake_outcome h hstep
  | publish i r =>
      simp only [step] at hstep
      split at hstep
      case h_1 n hp =>
        obtain rfl := Option.some.inj hstep
        refine Or.inl ⟨fun hl => Bool.noConfusion hl, hstopped, h.setPromise_of_ne hp ?_⟩
        rintro r' ⟨⟩
      case h_2 => cases hstep
  | notified i =>
      simp only [step] at hstep
      split at hstep
      case h_1 r n hp =>
        obtain rfl := Option.some.inj hstep
        refine Or.inl ⟨fun hl => Bool.noConfusion hl, hstopped, h.setPromise_of_ne hp ?_⟩
        rintro r' ⟨⟩
      case h_2 => cases hstep

/-- A stopped keeper stays where it is. -/
theorem stopped_step {s s' : KeeperState T} {l : Label T} (h : s.Stopped)
    (hstep : s.step l = some s') : s'.Stopped := by
  have hidle : s.phase ≠ .idle := by
    rcases h with h | h <;> rw [h] <;> exact KeeperPhase.noConfusion
  cases l with
  | keepMe p => simp [step, hidle] at hstep
  | destruct => simp [step, hidle] at hstep
  | advance => rcases h with h | h <;> simp [step, advance, h] at hstep
  | wake => rcases h with h | h <;> simp [step, wake, h] at hstep
  | publish i r =>
      simp only [step] at hstep
      split at hstep
      case h_1 => exact Option.some.inj hstep ▸ h
      case h_2 => cases hstep
  | notified i =>
      simp only [step] at hstep
      split at hstep
      case h_1 => exact Option.some.inj hstep ▸ h
      case h_2 => cases hstep

theorem accounted_init : Accounted (machine T).init where
  packs := rfl
  deleted i k hk _ := by simp [machine] at hk
  undeleted i k hk _ := by simp [machine] at hk
  bound := Nat.zero_le _
  blocked _ _ h := KeeperPhase.noConfusion h
  ready _ h := KeeperPhase.noConfusion h

theorem Accounted.releasedOnce {s : KeeperState T} (h : Accounted s) (hstopped : ¬ s.Stopped) :
    s.ReleasedOnce := by
  have hdeletions : ∀ k ∈ s.kept, k.deletions = [] ∨ ∃ r, k.deletions = [.published r] := by
    intro k hk
    obtain ⟨i, hi⟩ := List.mem_iff_getElem?.mp hk
    rcases Nat.lt_or_ge i s.released with hlt | hge
    · exact Or.inr (h.deleted i k hi hlt)
    · exact Or.inl (h.undeleted i k hi hge)
  refine ⟨?_, ?_, ?_, ?_, not_or.mp hstopped⟩
  · intro k hk
    rcases hdeletions k hk with hd | ⟨r, hd⟩ <;> simp [hd]
  · intro k hk p hp
    rcases hdeletions k hk with hd | ⟨r, hd⟩
    · simp [hd] at hp
    · rw [hd, List.mem_singleton] at hp
      rw [hp, KeptPromise.entirelyFinish_published]
  · intro i k hi _
    have hlt : i < s.kept.length := (List.getElem?_eq_some_iff.mp hi).1
    have hmem : i ∈ s.tasks ++ appending s.phase := by
      rw [h.packs]
      exact List.mem_range.mpr hlt
    rcases List.mem_append.mp hmem with hin | hin
    · exact Or.inl hin
    · unfold appending at hin
      split at hin
      case h_1 b it hphase =>
        rw [List.mem_singleton] at hin
        exact Or.inr ⟨it, hin ▸ hphase⟩
      case h_2 => simp at hin
  · intro hdone k hk
    obtain ⟨i, hi⟩ := List.mem_iff_getElem?.mp hk
    have hlen : s.tasks.length = s.kept.length := by
      have hpacks := congrArg List.length h.packs
      simpa [hdone, appending] using hpacks
    have hreleased : s.released = s.kept.length := by
      simp only [released, hdone, hlen]
    have hlt : i < s.kept.length := (List.getElem?_eq_some_iff.mp hi).1
    obtain ⟨r, hr⟩ := h.deleted i k hi (hreleased ▸ hlt)
    rw [hr, List.length_singleton]

/-! ## The destructor comes to its end -/

def destructing : KeeperPhase → Bool
  | .locking _ _ => true
  | .blocked _ _ => true
  | .destroying _ => true
  | _ => false

def left (s : KeeperState T) : Nat :=
  match s.phase with
  | .locking it .wait => 3 * (s.tasks.length - it) + 3
  | .blocked it .wait => 3 * (s.tasks.length - it) + 3
  | .locking it .del => 3 * (s.tasks.length - it) + 2
  | .blocked it .del => 3 * (s.tasks.length - it) + 2
  | .destroying it => 3 * (s.tasks.length - it) + 1
  | _ => 0

def AllReturned (s : KeeperState T) : Prop :=
  ∀ k ∈ s.kept, ∃ r, k.promise = .published r ∧ r.exceptionPtr = none

theorem AllReturned.promiseAt {s : KeeperState T} (hall : s.AllReturned) (h : Accounted s)
    {it : Nat} (hit : it < s.tasks.length) :
    ∃ r, s.promiseAt it = some (.published r) ∧ r.exceptionPtr = none := by
  have hkept : it < s.kept.length := Nat.lt_of_lt_of_le hit h.length_tasks_le
  obtain ⟨r, hr, hvalue⟩ := hall _ (List.getElem_mem hkept)
  refine ⟨r, ?_, hvalue⟩
  rw [h.promiseAt_eq hit]
  simp [promiseOf, hkept, hr]

theorem AllReturned.delete {s : KeeperState T} (hall : s.AllReturned) (i : Nat) :
    (s.delete i).AllReturned := by
  intro k hk
  obtain ⟨j, hj⟩ := List.mem_iff_getElem?.mp hk
  simp only [KeeperState.delete, List.getElem?_modify, Option.map_eq_map,
    Option.map_eq_some_iff] at hj
  obtain ⟨k', hk', rfl⟩ := hj
  have hpromise : ∃ r, k'.promise = .published r ∧ r.exceptionPtr = none :=
    hall k' (List.mem_of_getElem? hk')
  split <;> exact hpromise

/-- A step that the condition allows leaves a keeper that still goes on. -/
theorem Outcome.goesOn {s s' : KeeperState T} {l : Label T} (h : Outcome s l s')
    (hphase : destructing s'.phase = true ∨ s'.phase = .done) : Accounted s' := by
  rcases h with ⟨-, -, h⟩ | ⟨-, hterminated | hundefined⟩
  · exact h
  · rw [hterminated] at hphase
    rcases hphase with h | h <;> cases h
  · rw [hundefined] at hphase
    rcases hphase with h | h <;> cases h

theorem destructor_progress {s : KeeperState T} (h : Accounted s) (hall : s.AllReturned)
    (hphase : destructing s.phase = true) :
    ∃ l s', l.isKeeper = true ∧ s.step l = some s' ∧ s'.AllReturned ∧
      (destructing s'.phase = true ∨ s'.phase = .done) ∧ s'.left < s.left := by
  match hp : s.phase with
  | .locking it call =>
      by_cases hit : it < s.tasks.length
      · obtain ⟨r, hr, hvalue⟩ := hall.promiseAt h hit
        refine ⟨.advance, { s with phase := call.returns it r }, rfl, ?_, hall, ?_, ?_⟩
        · simp only [step, advance, hp, hr]
        · rw [returns_value hvalue]
          cases call <;> exact Or.inl rfl
        · rw [returns_value hvalue]
          cases call <;> simp [left, hp]
      · have hnone := h.promiseAt_eq_none.mpr (Nat.not_lt.mp hit)
        refine ⟨.advance, { s with phase := .done }, rfl, ?_, hall, Or.inr rfl, ?_⟩
        · simp only [step, advance, hp, hnone]
        · cases call <;> simp [left, hp]
  | .blocked it call =>
      obtain ⟨r, hr, hvalue⟩ := hall.promiseAt h (h.blocked it call hp)
      refine ⟨.wake, { s with phase := call.returns it r }, rfl, ?_, hall, ?_, ?_⟩
      · simp only [step, wake, hp, hr]
      · rw [returns_value hvalue]
        cases call <;> exact Or.inl rfl
      · rw [returns_value hvalue]
        cases call <;> simp [left, hp]
  | .destroying it =>
      obtain ⟨r, hr⟩ := h.ready it hp
      have hit : it < s.tasks.length := h.lt_of_promiseAt hr
      refine ⟨.advance, { s.delete it with phase := .locking (it + 1) .wait }, rfl, ?_,
        hall.delete it, Or.inl rfl, ?_⟩
      · simp only [step, advance, hp, h.getElem?_tasks hit, Option.map_some]
      · have hlen : (s.delete it).tasks = s.tasks := rfl
        simp only [left, hp, hlen]
        omega
  | .idle => simp [hp, destructing] at hphase
  | .checking _ _ => simp [hp, destructing] at hphase
  | .done => simp [hp, destructing] at hphase
  | .terminated => simp [hp, destructing] at hphase
  | .undefined => simp [hp, destructing] at hphase

/-- Once every task has returned a value, `~TaskKeeper` comes to its end by its own steps. -/
theorem destructor_completes {s : KeeperState T} (h : Accounted s) (hall : s.AllReturned)
    (hphase : destructing s.phase = true) :
    (machine T).CanReach (fun l => l.isKeeper = true)
      (fun t => t.phase = .done ∧ t.ReleasedOnce) s := by
  apply Machine.CanReach.of_measure
    (I := fun t => Accounted t ∧ t.AllReturned ∧
      (destructing t.phase = true ∨ t.phase = .done))
    left _ ⟨h, hall, Or.inl hphase⟩
  rintro a ⟨ha, haall, haphase⟩ hgoal
  have hnotStopped : ¬ a.Stopped := by
    rintro (hstop | hstop) <;> rw [hstop] at haphase <;> rcases haphase with h | h <;> cases h
  have hdestructing : destructing a.phase = true := by
    rcases haphase with hd | hdone
    · exact hd
    · exact absurd ⟨hdone, ha.releasedOnce hnotStopped⟩ hgoal
  obtain ⟨l, a', hl, hstep, hall', hphase', hlt⟩ := destructor_progress ha haall hdestructing
  refine ⟨[l], a', ?_, ?_, ⟨?_, hall', hphase'⟩, hlt⟩
  · intro x hx
    rw [List.mem_singleton.mp hx]
    exact hl
  · rw [Machine.runFrom_singleton]
    exact hstep
  · exact (step_outcome ha hnotStopped hstep).goesOn hphase'

/-- **Released exactly once.** A run of the keeper releases every task once, after it has finished,
and loses none exactly when its steps are harmless; and then `~TaskKeeper` comes to its end once
the tasks it waits for have returned. -/
theorem released_once_iff {ls : List (Label T)} {s : KeeperState T}
    (hrun : (machine T).Runs ls s) :
    ((machine T).Meets Harmless (machine T).init ls ↔
      ∀ pre t, pre <+: ls → (machine T).Runs pre t → t.ReleasedOnce) ∧
    ((machine T).Meets Harmless (machine T).init ls → s.AllReturned →
      destructing s.phase = true →
      (machine T).CanReach (fun l => l.isKeeper = true)
        (fun t => t.phase = .done ∧ t.ReleasedOnce) s) := by
  have hkeep : ∀ a l a', (¬ a.Stopped → Accounted a) → (machine T).step a l = some a' →
      ¬ a'.Stopped → Accounted a' := by
    intro a l a' ha hstep hgoes
    have hstopped : ¬ a.Stopped := fun h => hgoes (stopped_step h hstep)
    rcases step_outcome (ha hstopped) hstopped hstep with ⟨-, -, h⟩ | ⟨-, h⟩
    · exact h
    · exact absurd h hgoes
  have hinit : ¬ (machine T).init.Stopped := by simp [Stopped, machine]
  have hstep : ∀ a l a', (¬ a.Stopped → Accounted a) → ¬ a.Stopped →
      (machine T).step a l = some a' → (¬ a'.Stopped ↔ a.Harmless l) := by
    intro a l a' ha hstopped hstep
    rcases step_outcome (ha hstopped) hstopped hstep with ⟨hc, h, -⟩ | ⟨hc, h⟩
    · exact iff_of_true h hc
    · exact iff_of_false (not_not.mpr h) hc
  constructor
  · apply hrun.meets_iff_of_invariant (fun _ => accounted_init) hinit hkeep hstep
    intro a ha
    exact ⟨fun hg => not_or.mpr hg.proceeds, fun h => (ha h).releasedOnce h⟩
  · intro hmeets hall hphase
    have hstopped : ¬ s.Stopped := by
      rintro (h | h) <;> rw [h] at hphase <;> cases hphase
    have hacc : ¬ s.Stopped → Accounted s :=
      hrun.invariant (I := fun a => ¬ a.Stopped → Accounted a) (fun _ => accounted_init) hkeep
    exact destructor_completes (hacc hstopped) hall hphase

/-- Two tasks are detached, and the second is done first; the destructor waits for the first. -/
def twoDetached : List (Label Nat) :=
  [.keepMe (.running 1), .advance, .keepMe (.running 0), .advance, .advance,
    .publish 1 (.ofValue 8), .destruct, .advance, .notified 1, .publish 0 (.ofValue 7), .notified 0]

theorem released_once_iff_run :
    ∃ s : KeeperState Nat, (machine Nat).Runs twoDetached s ∧ s.tasks = [0, 1] ∧
      s.ReleasedOnce ∧ s.phase = .blocked 0 .wait ∧
      (machine Nat).CanReach (fun l => l.isKeeper = true)
        (fun t => t.phase = .done ∧ t.ReleasedOnce) s := by
  have hrun : (machine Nat).Runs twoDetached _ := rfl
  have hmeets : (machine Nat).Meets Harmless (machine Nat).init twoDetached := by decide
  refine ⟨_, hrun, rfl, (released_once_iff hrun).1.mp hmeets _ _ List.prefix_rfl hrun, rfl,
    (released_once_iff hrun).2 hmeets (fun k hk => ?_) rfl⟩
  rcases List.mem_pair.mp hk with rfl | rfl
  · exact ⟨.ofValue 7, rfl, rfl⟩
  · exact ⟨.ofValue 8, rfl, rfl⟩

/-- The first of two detached tasks has finished when the second one is detached: its pack is
gone, nothing was deleted, and the sweep goes on with the erased iterator. -/
theorem not_released_once :
    ∃ s : KeeperState Nat,
      (machine Nat).Runs [.keepMe (.running 0), .advance, .publish 0 (.ofValue 7), .notified 0,
        .keepMe (.running 0), .advance] s ∧
      s.tasks = [] ∧ s.kept.map (·.deletions.length) = [0, 0] ∧ s.phase = .undefined ∧
      ¬ s.ReleasedOnce :=
  ⟨_, rfl, rfl, rfl, rfl, fun h => (h.held 0 _ rfl rfl).elim
    (fun hmem => absurd hmem List.not_mem_nil) fun ⟨_, hphase⟩ => KeeperPhase.noConfusion hphase⟩

end KeeperState

end Npp.Task
