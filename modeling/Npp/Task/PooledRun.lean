import Npp.Task.Pooled

/-!
# A program on the elastic executor can always finish

A coroutine that is neither suspended for good nor waiting for another one is on the thread of a
worker, or the executor has one task that starts or resumes it. So the coroutine that the program
needs next comes to a thread, by a worker that is started for it if all others are occupied, and the
program goes on. What the coroutines do is theirs alone and does not depend on the threads.
-/

namespace Npp.Task

open Npp.Foundation

variable {V : Type} {t : Nat}

namespace Coroutine

variable {k : Coroutine V}

theorem registeredFor_of_onHold (h : k.onHold = true) : k.registeredFor = none := by
  obtain ⟨p, parent, activity, result, locals⟩ := k
  cases activity with
  | awaiting phase child onValue onThrow =>
      cases phase with
      | registered => cases h
      | _ => rfl
  | _ => rfl

end Coroutine

open ProgramState (Move)

/-! ## What a move hands over -/

namespace ProgramState

variable {s s' : ProgramState V} {k : Coroutine V} {m : Move}

/-- What a move does to the coroutine that makes it, and to others. -/
inductive Turn (s : ProgramState V) (t : Nat) (k : Coroutine V) : Move → ProgramState V → Prop where
  | ends (m : Move) (fate : ProgramFate) (busy : k.registeredFor = none)
      (suspends : PooledState.suspends m = false) (notify : m ≠ .notify) :
      Turn s t k m { s with fate := fate }
  | goesOn (m : Move) (k' : Coroutine V) (busy : k'.registeredFor = none)
      (suspends : PooledState.suspends m = false) (notify : m ≠ .notify) : Turn s t k m (s.set t k')
  | starts (k' : Coroutine V) (inner : Program V) (busy : k'.registeredFor = none) :
      Turn s t k .go { s with
        tasks := s.tasks.set t k' ++
          [{ program := inner, parent := some t, activity := .ready inner }] }
  | awaits (k' : Coroutine V) (waits : k'.onHold = false → k'.registeredFor ≠ none) :
      Turn s t k .afterSuspend (s.set t k')
  | notifies (k' : Coroutine V) (own : k.registeredFor = none) (busy : k'.registeredFor = none) :
      Turn s t k .notify { s with tasks := (s.set t k').tasks.map (Coroutine.callBack t) }
  | destroys (c k' : Coroutine V) (child : Nat) (coroutine : s.tasks[child]? = some c)
      (isOver : c.isSuspended = true) (busy : k'.registeredFor = none) :
      Turn s t k .destroy ((s.set child { c with activity := .destroyed }).set t k')
  | finishes (k' : Coroutine V) (isOver : k'.isOver = true) (hold : k'.onHold = false) :
      Turn s t k .finalSuspend (s.set t k')

theorem turn_destroyTask {r : Result V} {k' : Coroutine V} (hk : k.registeredFor = none)
    (hk' : k'.registeredFor = none) : Turn s t k .drop (s.destroyTask t r k') := by
  rw [destroyTask]
  split
  · exact .goesOn .drop k' hk' rfl (by rintro ⟨⟩)
  · exact .ends .drop _ hk rfl (by rintro ⟨⟩)

theorem turn_destroyChild {c k' : Coroutine V} {child : Nat} (hk' : k'.registeredFor = none)
    (hc : s.tasks[child]? = some c) (hover : c.isSuspended = true) :
    Turn s t k .destroy (if c.isSuspended then
      (s.set child { c with activity := .destroyed }).set t k' else
      { s with fate := .undefined }) := by
  rw [if_pos hover]
  exact .destroys c k' child hc hover hk'

theorem turn_of_act [Inhabited V] (hk : s.tasks[t]? = some k) (horderly : Orderly s (t, m))
    (hact : s.act t k m = some s') : Turn s t k m s' := by
  obtain ⟨p, parent, activity, result, locals⟩ := k
  cases m with
  | go =>
      dsimp only [act] at hact
      split at hact
      case h_1 q =>
        obtain rfl := Option.some.inj hact
        cases q with
        | coReturn v => exact .goesOn .go _ rfl rfl (by rintro ⟨⟩)
        | throws e => exact .goesOn .go _ rfl rfl (by rintro ⟨⟩)
        | start inner rest => exact .starts _ inner rfl
        | coAwait i onValue onThrow =>
            rw [go]
            split
            · exact .goesOn .go _ rfl rfl (by rintro ⟨⟩)
            · exact .ends .go _ rfl rfl (by rintro ⟨⟩)
      case h_2 => cases hact
  | afterSuspend =>
      dsimp only [act] at hact
      split at hact
      case h_1 child onValue onThrow =>
        obtain ⟨c, hc, hact⟩ := Option.bind_eq_some_iff.mp hact
        obtain ⟨hfree, hact⟩ := Option.ite_none_left_eq_some.mp hact
        obtain rfl := Option.some.inj hact
        refine .awaits _ ?_
        cases c.result.isSome with
        | true => rintro ⟨⟩
        | false => exact fun _ => Option.some_ne_none child
      case h_2 => cases hact
  | notify =>
      dsimp only [act] at hact
      split at hact
      case h_1 =>
        obtain rfl := Option.some.inj hact
        exact .notifies _ rfl rfl
      case h_2 => cases hact
  | release =>
      dsimp only [act] at hact
      split at hact
      case h_1 =>
        obtain rfl := Option.some.inj hact
        exact .goesOn .release _ rfl rfl (by rintro ⟨⟩)
      case h_2 => cases hact
  | resume =>
      dsimp only [act] at hact
      split at hact
      case h_1 child onValue onThrow =>
        obtain ⟨c, hc, hact⟩ := Option.bind_eq_some_iff.mp hact
        obtain ⟨r, hr, rfl⟩ := Option.map_eq_some_iff.mp hact
        exact .goesOn .resume _ rfl rfl (by rintro ⟨⟩)
      case h_2 => cases hact
  | drop =>
      dsimp only [act] at hact
      split at hact
      case h_1 child value onValue onThrow =>
        obtain ⟨c, hc, hact⟩ := Option.bind_eq_some_iff.mp hact
        obtain ⟨r, hr, rfl⟩ := Option.map_eq_some_iff.mp hact
        exact turn_destroyTask rfl rfl
      case h_2 inFlight ls =>
        obtain rfl := Option.some.inj hact
        exact .goesOn .drop _ rfl rfl (by rintro ⟨⟩)
      case h_3 inFlight child ls =>
        obtain ⟨c, hc, hact⟩ := Option.bind_eq_some_iff.mp hact
        obtain ⟨r, hr, rfl⟩ := Option.map_eq_some_iff.mp hact
        exact turn_destroyTask rfl rfl
      case h_4 => cases hact
  | destroy =>
      dsimp only [act] at hact
      split at hact
      case h_1 child v onValue onThrow =>
        obtain ⟨c, hc, rfl⟩ := Option.map_eq_some_iff.mp hact
        exact turn_destroyChild rfl hc (horderly _ hk child rfl c hc)
      case h_2 child e onValue onThrow =>
        obtain ⟨c, hc, rfl⟩ := Option.map_eq_some_iff.mp hact
        exact turn_destroyChild rfl hc (horderly _ hk child rfl c hc)
      case h_3 inFlight child =>
        obtain ⟨c, hc, rfl⟩ := Option.map_eq_some_iff.mp hact
        exact turn_destroyChild rfl hc (horderly _ hk child rfl c hc)
      case h_4 => cases hact
  | publish =>
      dsimp only [act] at hact
      split at hact
      case h_1 e =>
        obtain rfl := Option.some.inj hact
        exact .goesOn .publish _ rfl rfl (by rintro ⟨⟩)
      case h_2 => cases hact
  | finalSuspend =>
      dsimp only [act] at hact
      split at hact
      case h_1 =>
        obtain rfl := Option.some.inj hact
        exact .finishes _ rfl rfl
      case h_2 => cases hact
  | spuriousWake => exact horderly.elim

theorem act_of_step [Inhabited V] (hk : s.tasks[t]? = some k) (hstep : s.step (t, m) = some s') :
    s.act t k m = some s' := by
  obtain ⟨-, hstep⟩ := Option.ite_none_right_eq_some.mp hstep
  obtain ⟨a, ha, hact⟩ := Option.bind_eq_some_iff.mp hstep
  obtain rfl := Option.some.inj (hk.symm.trans ha)
  exact hact

/-- A coroutine that is over or waits for another one makes no move. -/
theorem busy_of_act [Inhabited V] (hact : s.act t k m = some s') :
    k.isOver = false ∧ k.registeredFor = none := by
  obtain ⟨p, parent, activity, result, locals⟩ := k
  cases activity with
  | suspended => cases m <;> cases hact
  | destroyed => cases m <;> cases hact
  | awaiting phase child onValue onThrow =>
      cases phase with
      | registered => cases m <;> cases hact
      | _ => exact ⟨rfl, rfl⟩
  | _ => exact ⟨rfl, rfl⟩

/-- What a move changes of who can go on, and whom it hands to the executor. -/
structure Shifts (s s' : ProgramState V) (t : Nat) (m : Move) : Prop where
  length : s.tasks.length ≤ s'.tasks.length
  others : ∀ (u : Nat) k, s.tasks[u]? = some k → u ≠ t → ∃ k', s'.tasks[u]? = some k' ∧
    (u ∉ PooledState.handed s s' t m ∧ k'.onHold = k.onHold ∧ k'.isOver = k.isOver ∧
        k'.registeredFor = k.registeredFor ∨
      u ∈ PooledState.handed s s' t m ∧ k.registeredFor ≠ none ∧ k'.onHold = true)
  own : ∃ k', s'.tasks[t]? = some k' ∧
    (PooledState.suspends m = false → t ∉ PooledState.handed s s' t m ∧ k'.registeredFor = none) ∧
    (PooledState.suspends m = true → t ∈ PooledState.handed s s' t m ∧ k'.onHold = true ∨
      t ∉ PooledState.handed s s' t m ∧ (k'.isOver = true ∨ k'.registeredFor ≠ none))
  fresh : ∀ u, s.tasks.length ≤ u → u < s'.tasks.length → u ∈ PooledState.handed s s' t m ∧
    ∃ k', s'.tasks[u]? = some k' ∧ k'.onHold = true
  bound : ∀ u ∈ PooledState.handed s s' t m, u < s'.tasks.length
  once : (PooledState.handed s s' t m).Nodup

/-- Whoever is there after a move has made it, was started by it, or was there before. -/
theorem Shifts.place (h : Shifts s s' t m) {u : Nat} {a : Coroutine V}
    (ha : s'.tasks[u]? = some a) :
    u = t ∨
      (s.tasks.length ≤ u ∧ u < s'.tasks.length ∧ u ∈ PooledState.handed s s' t m ∧
        a.onHold = true) ∨
      u ≠ t ∧ ∃ k, s.tasks[u]? = some k ∧
        (u ∉ PooledState.handed s s' t m ∧ a.onHold = k.onHold ∧ a.isOver = k.isOver ∧
            a.registeredFor = k.registeredFor ∨
          u ∈ PooledState.handed s s' t m ∧ k.registeredFor ≠ none ∧ a.onHold = true) := by
  have hu := (List.getElem?_eq_some_iff.mp ha).1
  by_cases hut : u = t
  · exact Or.inl hut
  by_cases hnew : s.tasks.length ≤ u
  · obtain ⟨hin, b, hb, hhold⟩ := h.fresh u hnew hu
    obtain rfl := Option.some.inj (ha.symm.trans hb)
    exact Or.inr (Or.inl ⟨hnew, hu, hin, hhold⟩)
  · have hk := List.getElem?_eq_getElem (Nat.lt_of_not_le hnew)
    obtain ⟨b, hb, hcases⟩ := h.others u _ hk hut
    obtain rfl := Option.some.inj (ha.symm.trans hb)
    exact Or.inr (Or.inr ⟨hut, _, hk, hcases⟩)

theorem handed_eq_nil {p p' : ProgramState V} (hsuspends : PooledState.suspends m = false)
    (hnotify : m ≠ .notify) (hlength : p'.tasks.length = p.tasks.length) :
    PooledState.handed p p' t m = [] := by
  cases m with
  | go => rw [PooledState.handed, hlength, Nat.sub_self, List.range'_zero]
  | afterSuspend => cases hsuspends
  | notify => exact absurd rfl hnotify
  | _ => rfl

/-- A move after which the coroutine goes on, and which hands nobody over. -/
theorem Shifts.goesOn (hlength : s'.tasks.length = s.tasks.length)
    (hsuspends : PooledState.suspends m = false) (hnotify : m ≠ .notify)
    (hothers : ∀ (u : Nat) k, s.tasks[u]? = some k → u ≠ t → ∃ k', s'.tasks[u]? = some k' ∧
      k'.onHold = k.onHold ∧ k'.isOver = k.isOver ∧ k'.registeredFor = k.registeredFor)
    (hown : ∃ k', s'.tasks[t]? = some k' ∧ k'.registeredFor = none) : Shifts s s' t m := by
  have hnil : PooledState.handed s s' t m = [] := handed_eq_nil hsuspends hnotify hlength
  refine ⟨Nat.le_of_eq hlength.symm, ?_, ?_, ?_, ?_, ?_⟩
  · intro u k hu hne
    obtain ⟨k', hk', hsame⟩ := hothers u k hu hne
    exact ⟨k', hk', Or.inl ⟨hnil ▸ List.not_mem_nil, hsame⟩⟩
  · obtain ⟨k', hk', hbusy⟩ := hown
    refine ⟨k', hk', fun _ => ⟨hnil ▸ List.not_mem_nil, hbusy⟩, fun h => ?_⟩
    cases hsuspends.symm.trans h
  · intro u hle hlt
    omega
  · intro u hu
    rw [hnil] at hu
    cases hu
  · rw [hnil]
    exact List.nodup_nil

theorem set_own (hk : s.tasks[t]? = some k) (k' : Coroutine V) :
    (s.set t k').tasks[t]? = some k' :=
  List.getElem?_set_self (List.getElem?_eq_some_iff.mp hk).1

theorem set_other {u : Nat} (hne : u ≠ t) (k' : Coroutine V) :
    (s.set t k').tasks[u]? = s.tasks[u]? :=
  List.getElem?_set_ne (Ne.symm hne)

/-- The coroutine is suspended, with somebody to resume it or for good. -/
theorem Shifts.suspends (hk : s.tasks[t]? = some k) {k' : Coroutine V}
    (hsuspends : PooledState.suspends m = true)
    (hhanded : PooledState.handed s (s.set t k') t m = if k'.onHold then [t] else [])
    (hwaits : k'.onHold = false → k'.isOver = true ∨ k'.registeredFor ≠ none) :
    Shifts s (s.set t k') t m := by
  have hlength : (s.set t k').tasks.length = s.tasks.length := List.length_set
  have hmem : ∀ u ∈ PooledState.handed s (s.set t k') t m, u = t := by
    intro u hu
    rw [hhanded] at hu
    split at hu
    · exact List.mem_singleton.mp hu
    · cases hu
  refine ⟨Nat.le_of_eq hlength.symm, ?_, ⟨k', set_own hk k', ?_, fun _ => ?_⟩, ?_, ?_, ?_⟩
  · intro u a hu hne
    exact ⟨a, (set_other hne k').trans hu, Or.inl ⟨fun h => hne (hmem u h), rfl, rfl, rfl⟩⟩
  · intro hgoes
    cases hsuspends.symm.trans hgoes
  · cases hhold : k'.onHold with
    | true =>
        rw [hhanded, if_pos hhold]
        exact Or.inl ⟨List.mem_cons_self, rfl⟩
    | false =>
        rw [hhanded, if_neg (by simp [hhold])]
        exact Or.inr ⟨List.not_mem_nil, hwaits hhold⟩
  · intro u hle hlt
    omega
  · intro u hu
    obtain rfl := hmem u hu
    rw [hlength]
    exact (List.getElem?_eq_some_iff.mp hk).1
  · rw [hhanded]
    split
    · exact List.nodup_singleton t
    · exact List.nodup_nil

theorem Shifts.notifies (hk : s.tasks[t]? = some k) {k' : Coroutine V}
    (hown : k.registeredFor = none) (hbusy : k'.registeredFor = none) :
    Shifts s { s with tasks := (s.set t k').tasks.map (Coroutine.callBack t) } t .notify := by
  have hlength : ((s.set t k').tasks.map (Coroutine.callBack t)).length = s.tasks.length := by
    rw [List.length_map]
    exact List.length_set
  have hmem : ∀ {u : Nat} {a : Coroutine V}, s.tasks[u]? = some a →
      (u ∈ PooledState.handed s { s with tasks := (s.set t k').tasks.map (Coroutine.callBack t) } t
          .notify ↔ a.registeredFor.map TaskHandle.id = some t) := by
    intro u a hu
    simp only [PooledState.handed, List.mem_filter, List.mem_range, hu, Option.bind_some,
      decide_eq_true_eq, and_iff_right (List.getElem?_eq_some_iff.mp hu).1]
  refine ⟨Nat.le_of_eq hlength.symm, ?_, ⟨k', ?_, fun _ => ⟨?_, hbusy⟩, by rintro ⟨⟩⟩, ?_, ?_, ?_⟩
  · intro u a hu hne
    refine ⟨a.callBack t, ?_, ?_⟩
    · rw [List.getElem?_map, set_other hne, hu]
      rfl
    · have hcalls := Coroutine.callsBack t a
      generalize a.callBack t = a' at hcalls ⊢
      cases hcalls with
      | handsOver a child _ _ waits =>
          exact Or.inr ⟨(hmem hu).mpr (congrArg some waits), Option.some_ne_none child, rfl⟩
      | stays _ other =>
          refine Or.inl ⟨fun h => ?_, rfl, rfl, rfl⟩
          obtain ⟨x, hx, hid⟩ := Option.map_eq_some_iff.mp ((hmem hu).mp h)
          exact other x hx hid
  · rw [List.getElem?_map, set_own hk]
    show some (k'.callBack t) = some k'
    have hcalls := Coroutine.callsBack t k'
    generalize k'.callBack t = a at hcalls ⊢
    cases hcalls with
    | handsOver => cases hbusy
    | stays => rfl
  · intro h
    have hregistered := (hmem hk).mp h
    rw [hown] at hregistered
    cases hregistered
  · intro u hle hlt
    rw [hlength] at hlt
    omega
  · intro u hu
    rw [hlength]
    exact List.mem_range.mp (List.mem_filter.mp hu).1
  · exact List.nodup_range.filter _

theorem Shifts.starts (hk : s.tasks[t]? = some k) {k' : Coroutine V}
    (hbusy : k'.registeredFor = none) {child : Coroutine V} (hchild : child.onHold = true) :
    Shifts s { s with tasks := s.tasks.set t k' ++ [child] } t .go := by
  have hlt := (List.getElem?_eq_some_iff.mp hk).1
  have hlength : (s.tasks.set t k' ++ [child]).length = s.tasks.length + 1 := by
    rw [List.length_append, List.length_set]
    rfl
  have hhanded : PooledState.handed s { s with tasks := s.tasks.set t k' ++ [child] } t .go =
      [s.tasks.length] := by
    rw [PooledState.handed, hlength, Nat.add_sub_cancel_left]
    rfl
  have hafter := fun u => getElem?_start (i := u) hk k' child
  refine ⟨by rw [hlength]; exact Nat.le_succ _, ?_, ⟨k', ?_, fun _ => ⟨?_, hbusy⟩, by rintro ⟨⟩⟩,
    ?_, ?_, ?_⟩
  · intro u a hu hne
    have hult := (List.getElem?_eq_some_iff.mp hu).1
    refine ⟨a, ?_, Or.inl ⟨?_, rfl, rfl, rfl⟩⟩
    · rw [hafter, if_neg hne, if_neg (Nat.ne_of_lt hult)]
      exact hu
    · rw [hhanded, List.mem_singleton]
      omega
  · rw [hafter, if_pos rfl]
  · rw [hhanded, List.mem_singleton]
    omega
  · intro u hle hult
    rw [hlength] at hult
    obtain rfl : u = s.tasks.length := by omega
    refine ⟨hhanded ▸ List.mem_cons_self, child, ?_, hchild⟩
    rw [hafter, if_neg (Nat.ne_of_gt hlt), if_pos rfl]
  · intro u hu
    rw [hhanded, List.mem_singleton] at hu
    rw [hlength, hu]
    exact Nat.lt_succ_self _
  · rw [hhanded]
    exact List.nodup_singleton _

theorem Turn.shifts (h : Turn s t k m s') (hk : s.tasks[t]? = some k) : Shifts s s' t m := by
  cases h with
  | ends _ fate busy suspends notify =>
      exact .goesOn rfl suspends notify (fun u a hu _ => ⟨a, hu, rfl, rfl, rfl⟩) ⟨k, hk, busy⟩
  | goesOn _ k' busy suspends notify =>
      exact .goesOn List.length_set suspends notify
        (fun u a hu hne => ⟨a, (set_other hne k').trans hu, rfl, rfl, rfl⟩)
        ⟨k', set_own hk k', busy⟩
  | starts k' inner busy => exact .starts hk busy rfl
  | awaits k' waits =>
      refine .suspends hk rfl ?_ fun hhold => Or.inr (waits hhold)
      rw [PooledState.handed, set_own hk]
      simp
  | notifies k' own busy => exact .notifies hk own busy
  | destroys c k' child coroutine hover busy =>
      refine .goesOn (List.length_set.trans List.length_set) rfl (by rintro ⟨⟩) ?_ ⟨k', ?_, busy⟩
      · intro u a hu hne
        by_cases hchild : u = child
        · subst hchild
          obtain rfl := Option.some.inj (coroutine.symm.trans hu)
          refine ⟨{ c with activity := .destroyed }, ?_, ?_⟩
          · rw [set_other hne]
            exact set_own coroutine _
          · obtain ⟨p, parent, activity, result, locals⟩ := c
            cases activity with
            | suspended => exact ⟨rfl, rfl, rfl⟩
            | _ => cases hover
        · exact ⟨a, (set_other hne k').trans ((set_other hchild _).trans hu), rfl, rfl, rfl⟩
      · apply List.getElem?_set_self
        rw [show (s.set child _).tasks.length = s.tasks.length from List.length_set]
        exact (List.getElem?_eq_some_iff.mp hk).1
  | finishes k' hover hold =>
      exact .suspends hk rfl (by rw [hold]; rfl) fun _ => Or.inl hover

end ProgramState

/-! ## Coroutines, threads and tasks -/

namespace PooledState

variable {s s' : PooledState V} {l : Label} {e : ElasticState} {m : Move}

/-- What ties the coroutines to the threads and to the tasks of the executor: whoever can go on is
on a thread, or the executor has one task for it. -/
structure Tied (s : PooledState V) : Prop where
  jobs : s.jobs.length = s.executor.submitted
  threads : s.threads.length = s.program.tasks.length
  onThread : ∀ (t : Nat) job, s.threads[t]? = some (some job) → job ∈ s.executor.inCalls
  parked : ∀ (t : Nat) k, s.program.tasks[t]? = some k → k.registeredFor ≠ none →
    s.threads[t]? = some none
  ready : ∀ job ∈ s.executor.waiting, ∃ (t : Nat) (k : Coroutine V), s.jobs[job]? = some t ∧
    s.program.tasks[t]? = some k ∧ s.threads[t]? = some none ∧ k.onHold = true
  once : (s.executor.waiting.map (s.jobs[·]?)).Nodup
  outstanding : ∀ (t : Nat) k, s.program.tasks[t]? = some k → s.threads[t]? = some none →
    k.isOver = true ∨ k.registeredFor ≠ none ∨ ∃ job ∈ s.executor.waiting, s.jobs[job]? = some t
  unharmed : s.misfired = false

/-- Steps of the executor that begin no call, and end none that a coroutine is in. -/
theorem Tied.rested (h : Tied s) (hwaiting : e.waiting.Perm s.executor.waiting)
    (hsubmitted : e.submitted = s.executor.submitted)
    (honThread : ∀ (t : Nat) job, s.threads[t]? = some (some job) → job ∈ e.inCalls) :
    Tied { s with executor := e } := by
  refine ⟨h.jobs.trans hsubmitted.symm, h.threads, honThread, h.parked, ?_, ?_, ?_, h.unharmed⟩
  · intro job hjob
    exact h.ready job (hwaiting.mem_iff.mp hjob)
  · exact (hwaiting.map _).nodup_iff.mpr h.once
  · intro t k hk hthread
    refine (h.outstanding t k hk hthread).imp_right (Or.imp_right ?_)
    rintro ⟨job, hjob, hfor⟩
    exact ⟨job, hwaiting.mem_iff.mpr hjob, hfor⟩

/-- A worker begins a call: the coroutine was suspended and is now on its thread. -/
theorem Tied.begins (h : Tied s) {job : Nat}
    (hwaiting : (e.waiting ++ [job]).Perm s.executor.waiting)
    (hcalls : e.inCalls.Perm (s.executor.inCalls ++ [job]))
    (hsubmitted : e.submitted = s.executor.submitted) :
    Tied (beginCall { s with executor := e } job) := by
  have hmem : job ∈ s.executor.waiting := hwaiting.subset (by simp)
  obtain ⟨t, k, hjob, hk, hthread, hhold⟩ := h.ready job hmem
  have hfired : (s.misfired || !(s.threads[t]? == some none &&
      (s.program.tasks[t]?).map Coroutine.onHold == some true)) = false := by
    simp [h.unharmed, hthread, hk, hhold]
  have hbegin : beginCall { s with executor := e } job = { s with
      executor := e
      threads := s.threads.set t (some job)
      misfired := s.misfired || !(s.threads[t]? == some none &&
        (s.program.tasks[t]?).map Coroutine.onHold == some true) } := by
    simp only [beginCall, hjob]
  rw [hbegin]
  have hlt : t < s.threads.length := (List.getElem?_eq_some_iff.mp hthread).1
  have hother : ∀ {u : Nat}, u ≠ t → (s.threads.set t (some job))[u]? = s.threads[u]? :=
    fun hne => List.getElem?_set_ne (Ne.symm hne)
  have honce : ((e.waiting ++ [job]).map (s.jobs[·]?)).Nodup :=
    (hwaiting.map _).nodup_iff.mpr h.once
  rw [List.map_append, List.map_singleton, hjob] at honce
  have hnot : some t ∉ e.waiting.map (s.jobs[·]?) := fun hin =>
    (List.nodup_append.mp honce).2.2 _ hin _ List.mem_cons_self rfl
  have hrest : ∀ job' ∈ e.waiting, job' ∈ s.executor.waiting := fun job' hjob' =>
    hwaiting.subset (List.mem_append_left _ hjob')
  refine ⟨h.jobs.trans hsubmitted.symm, List.length_set.trans h.threads, ?_, ?_, ?_, ?_, ?_, hfired⟩
  · intro u job' hu
    by_cases hut : u = t
    · subst hut
      rw [List.getElem?_set_self hlt] at hu
      obtain rfl := Option.some.inj (Option.some.inj hu)
      exact hcalls.mem_iff.mpr (by simp)
    · rw [hother hut] at hu
      exact hcalls.mem_iff.mpr (List.mem_append_left _ (h.onThread u job' hu))
  · intro u a hu hregistered
    have hut : u ≠ t := by
      rintro rfl
      obtain rfl := Option.some.inj (hk.symm.trans hu)
      exact hregistered (Coroutine.registeredFor_of_onHold hhold)
    exact (hother hut).trans (h.parked u a hu hregistered)
  · intro job' hjob'
    obtain ⟨u, a, hfor, hu, huthread, huhold⟩ := h.ready job' (hrest job' hjob')
    have hut : u ≠ t := by
      rintro rfl
      exact hnot (List.mem_map.mpr ⟨job', hjob', hfor⟩)
    exact ⟨u, a, hfor, hu, (hother hut).trans huthread, huhold⟩
  · exact (List.nodup_append.mp honce).1
  · intro u a hu huthread
    have hut : u ≠ t := by
      rintro rfl
      rw [List.getElem?_set_self hlt] at huthread
      cases huthread
    rw [hother hut] at huthread
    refine (h.outstanding u a hu huthread).imp_right (Or.imp_right ?_)
    rintro ⟨job', hjob', hfor⟩
    refine ⟨job', ?_, hfor⟩
    rcases List.mem_append.mp (hwaiting.mem_iff.mpr hjob') with hin | hin
    · exact hin
    · obtain rfl := List.mem_singleton.mp hin
      exact absurd (Option.some.inj (hfor.symm.trans hjob)) hut

/-- What the executor has after some coroutines were handed to it. -/
theorem foldl_hand (us : List Nat) (s : PooledState V) :
    us.foldl hand s = { s with
      executor := { s.executor with
        queue := s.executor.queue ++ List.range' s.executor.submitted us.length
        submitted := s.executor.submitted + us.length }
      jobs := s.jobs ++ us } := by
  induction us generalizing s with
  | nil => simp
  | cons u us ih =>
      rw [List.foldl_cons, ih]
      simp only [hand, List.append_assoc, List.length_cons, List.range'_succ,
        List.cons_append, List.nil_append, Nat.add_assoc, Nat.add_comm 1]

theorem afterMove_eq (s : PooledState V) (t : Nat) (m : Move) (p' : ProgramState V) :
    s.afterMove t m p' = {
      program := p'
      executor := { s.executor with
        queue := s.executor.queue ++
          List.range' s.executor.submitted (handed s.program p' t m).length
        submitted := s.executor.submitted + (handed s.program p' t m).length }
      jobs := s.jobs ++ handed s.program p' t m
      threads := (if suspends m then s.threads.set t none else s.threads) ++
        List.replicate (p'.tasks.length - s.program.tasks.length) none
      misfired := s.misfired } := by
  rw [afterMove, foldl_hand]

theorem map_getElem?_append (xs ys : List Nat) :
    (List.range' xs.length ys.length).map ((xs ++ ys)[·]?) = ys.map some := by
  apply List.ext_getElem
  · simp
  · intro i hi hi'
    have hlt : i < ys.length := by simpa using hi'
    simp [List.getElem?_append_right, List.getElem?_eq_getElem hlt]

/-- The threads after a move. -/
theorem moved_threads (hthreads : s.threads.length = s.program.tasks.length) {p' : ProgramState V}
    (hlength : s.program.tasks.length ≤ p'.tasks.length) :
    (s.afterMove t m p').threads.length = p'.tasks.length ∧
    (∀ (u : Nat), u ≠ t → u < s.program.tasks.length →
      (s.afterMove t m p').threads[u]? = s.threads[u]?) ∧
    (t < s.program.tasks.length →
      (s.afterMove t m p').threads[t]? = if suspends m then some none else s.threads[t]?) ∧
    ∀ (u : Nat), s.program.tasks.length ≤ u → u < p'.tasks.length →
      (s.afterMove t m p').threads[u]? = some none := by
  have hbefore : (if suspends m then s.threads.set t none else s.threads).length =
      s.program.tasks.length := by
    split
    · exact List.length_set.trans hthreads
    · exact hthreads
  rw [afterMove_eq]
  refine ⟨?_, ?_, ?_, ?_⟩
  · rw [List.length_append, hbefore, List.length_replicate]
    exact Nat.add_sub_cancel' hlength
  · intro u hut hu
    rw [List.getElem?_append_left (hbefore ▸ hu)]
    split
    · exact List.getElem?_set_ne (Ne.symm hut)
    · rfl
  · intro ht
    rw [List.getElem?_append_left (hbefore ▸ ht)]
    split
    · exact List.getElem?_set_self (hthreads ▸ ht)
    · rfl
  · intro u hle hu
    rw [List.getElem?_append_right (hbefore ▸ hle), hbefore, List.getElem?_replicate,
      if_pos (by omega)]

/-! ### The tasks of the executor after a move -/

theorem program_afterMove (p' : ProgramState V) : (s.afterMove t m p').program = p' := by
  rw [afterMove_eq]

theorem jobs_afterMove (p' : ProgramState V) :
    (s.afterMove t m p').jobs = s.jobs ++ handed s.program p' t m := by
  rw [afterMove_eq]

theorem inCalls_afterMove (p' : ProgramState V) :
    (s.afterMove t m p').executor.inCalls = s.executor.inCalls := by
  rw [afterMove_eq]
  rfl

theorem waiting_afterMove (p' : ProgramState V) :
    (s.afterMove t m p').executor.waiting.Perm (s.executor.waiting ++
      List.range' s.executor.submitted (handed s.program p' t m).length) := by
  rw [afterMove_eq]
  simp only [ElasticState.waiting, List.append_assoc]
  exact List.Perm.append_left _ List.perm_append_comm

theorem Tied.oldJob (h : Tied s) (p' : ProgramState V) {old : Nat}
    (hold : old ∈ s.executor.waiting) : (s.afterMove t m p').jobs[old]? = s.jobs[old]? := by
  obtain ⟨u, -, hfor, -⟩ := h.ready old hold
  rw [jobs_afterMove, List.getElem?_append_left (List.getElem?_eq_some_iff.mp hfor).1]

theorem Tied.newJobs (h : Tied s) (p' : ProgramState V) :
    (List.range' s.executor.submitted (handed s.program p' t m).length).map
      ((s.afterMove t m p').jobs[·]?) = (handed s.program p' t m).map some := by
  rw [jobs_afterMove, ← h.jobs]
  exact map_getElem?_append _ _

theorem Tied.exists_newJob (h : Tied s) {p' : ProgramState V} {u : Nat}
    (hu : u ∈ handed s.program p' t m) : ∃ job ∈ (s.afterMove t m p').executor.waiting,
      (s.afterMove t m p').jobs[job]? = some u := by
  have hmem : some u ∈ (handed s.program p' t m).map some := List.mem_map_of_mem hu
  rw [← h.newJobs] at hmem
  obtain ⟨job, hjob, hfor⟩ := List.mem_map.mp hmem
  exact ⟨job, (waiting_afterMove p').mem_iff.mpr (List.mem_append_right _ hjob), hfor⟩

/-- Who is handed over is suspended, and the executor had nothing for it before. -/
theorem Tied.handed (h : Tied s) {job : Nat} (hthread : s.threads[t]? = some (some job))
    {p' : ProgramState V} (hshifts : ProgramState.Shifts s.program p' t m) {u : Nat}
    (hu : u ∈ handed s.program p' t m) :
    ∃ k : Coroutine V, p'.tasks[u]? = some k ∧ k.onHold = true ∧
      (s.afterMove t m p').threads[u]? = some none ∧
      ∀ old ∈ s.executor.waiting, s.jobs[old]? ≠ some u := by
  obtain ⟨-, hothers, hown, hfresh⟩ := moved_threads (t := t) (m := m) h.threads hshifts.length
  have ha := List.getElem?_eq_getElem (hshifts.bound u hu)
  rcases hshifts.place ha with rfl | ⟨hnew, hult, -, hhold⟩ | ⟨hut, k, hk, ⟨hnot, -⟩ | hcases⟩
  · have ht : u < s.program.tasks.length :=
      h.threads ▸ (List.getElem?_eq_some_iff.mp hthread).1
    obtain ⟨k', hk', hgoes, hsuspends⟩ := hshifts.own
    cases hm : suspends m with
    | false => exact absurd hu (hgoes hm).1
    | true =>
        have hhold : k'.onHold = true := by
          rcases hsuspends hm with ⟨-, hhold⟩ | ⟨hnot, -⟩
          · exact hhold
          · exact absurd hu hnot
        refine ⟨k', hk', hhold, by rw [hown ht, if_pos hm], ?_⟩
        intro old hin hfor
        obtain ⟨v, -, hfor', -, hvthread, -⟩ := h.ready old hin
        obtain rfl := Option.some.inj (hfor.symm.trans hfor')
        cases hthread.symm.trans hvthread
  · refine ⟨_, ha, hhold, hfresh u hnew hult, ?_⟩
    intro old hin hfor
    obtain ⟨v, a, hfor', ha, -, -⟩ := h.ready old hin
    obtain rfl := Option.some.inj (hfor.symm.trans hfor')
    exact absurd (List.getElem?_eq_some_iff.mp ha).1 (Nat.not_lt.mpr hnew)
  · exact absurd hu hnot
  · obtain ⟨-, hregistered, hhold⟩ := hcases
    have hlt := (List.getElem?_eq_some_iff.mp hk).1
    refine ⟨_, ha, hhold, (hothers u hut hlt).trans (h.parked u k hk hregistered), ?_⟩
    intro old hin hfor
    obtain ⟨v, b, hfor', hb, -, hbhold⟩ := h.ready old hin
    obtain rfl := Option.some.inj (hfor.symm.trans hfor')
    obtain rfl := Option.some.inj (hk.symm.trans hb)
    exact hregistered (Coroutine.registeredFor_of_onHold hbhold)

/-- A coroutine on a thread goes on. -/
theorem Tied.moved (h : Tied s) {job : Nat} (hthread : s.threads[t]? = some (some job))
    {p' : ProgramState V} (hshifts : ProgramState.Shifts s.program p' t m) :
    Tied (s.afterMove t m p') := by
  have ht : t < s.program.tasks.length :=
    h.threads ▸ (List.getElem?_eq_some_iff.mp hthread).1
  obtain ⟨hlength, hothers, hown, hfresh⟩ :=
    moved_threads (t := t) (m := m) h.threads hshifts.length
  obtain ⟨k', hk', hgoes, hsuspends⟩ := hshifts.own
  have hwaiting := waiting_afterMove (s := s) (t := t) (m := m) p'
  have hlt : ∀ {u : Nat} {k : Coroutine V}, s.program.tasks[u]? = some k →
      u < s.program.tasks.length := fun hk => (List.getElem?_eq_some_iff.mp hk).1
  constructor
  case jobs =>
    rw [afterMove_eq]
    simp only [List.length_append, h.jobs]
  case threads => exact hlength.trans (by rw [program_afterMove])
  case onThread =>
    intro u job' hu
    rw [inCalls_afterMove]
    have ha := List.getElem?_eq_getElem (hlength ▸ (List.getElem?_eq_some_iff.mp hu).1)
    rcases hshifts.place ha with rfl | ⟨hnew, hult, -⟩ | ⟨hut, k, hk, -⟩
    · rw [hown ht] at hu
      split at hu
      · cases hu
      · exact h.onThread u job' hu
    · rw [hfresh u hnew hult] at hu
      cases hu
    · rw [hothers u hut (hlt hk)] at hu
      exact h.onThread u job' hu
  case parked =>
    intro u a ha hregistered
    rw [program_afterMove] at ha
    rcases hshifts.place ha with rfl | ⟨hnew, hult, -⟩ | ⟨hut, k, hk, hsame | ⟨-, -, hhold⟩⟩
    · obtain rfl := Option.some.inj (hk'.symm.trans ha)
      cases hm : suspends m with
      | true => rw [hown ht, if_pos hm]
      | false => exact absurd (hgoes hm).2 hregistered
    · exact hfresh u hnew hult
    · rw [hothers u hut (hlt hk)]
      exact h.parked u k hk (hsame.2.2.2 ▸ hregistered)
    · exact absurd (Coroutine.registeredFor_of_onHold hhold) hregistered
  case ready =>
    intro job' hjob'
    rw [program_afterMove]
    rcases List.mem_append.mp (hwaiting.mem_iff.mp hjob') with hin | hin
    · obtain ⟨u, k, hfor, hk, huthread, hhold⟩ := h.ready job' hin
      have hut : u ≠ t := by
        rintro rfl
        cases hthread.symm.trans huthread
      obtain ⟨b, hb, hsame | ⟨-, hregistered, -⟩⟩ := hshifts.others u k hk hut
      · exact ⟨u, b, (h.oldJob p' hin).trans hfor, hb, (hothers u hut (hlt hk)).trans huthread,
          hsame.2.1.trans hhold⟩
      · exact absurd (Coroutine.registeredFor_of_onHold hhold) hregistered
    · have hmem : (s.afterMove t m p').jobs[job']? ∈
          (PooledState.handed s.program p' t m).map some :=
        h.newJobs p' ▸ List.mem_map_of_mem hin
      obtain ⟨u, hu, hfor⟩ := List.mem_map.mp hmem
      obtain ⟨k, hk, hhold, huthread, -⟩ := h.handed hthread hshifts hu
      exact ⟨u, k, hfor.symm, hk, huthread, hhold⟩
  case once =>
    apply (hwaiting.map _).nodup_iff.mpr
    rw [List.map_append, h.newJobs, List.map_congr_left fun old hin => h.oldJob p' hin]
    refine List.nodup_append.mpr
      ⟨h.once, List.Nodup.map (fun _ _ => Option.some.inj) hshifts.once, ?_⟩
    rintro x hx y hy rfl
    obtain ⟨old, hin, hfor⟩ := List.mem_map.mp hx
    obtain ⟨u, hu, rfl⟩ := List.mem_map.mp hy
    obtain ⟨-, -, -, -, hnone⟩ := h.handed hthread hshifts hu
    exact hnone old hin hfor
  case outstanding =>
    intro u a ha huthread
    rw [program_afterMove] at ha
    rcases hshifts.place ha with rfl | ⟨-, -, hin, -⟩ | ⟨hut, k, hk, hsame | ⟨hin, -⟩⟩
    · obtain rfl := Option.some.inj (hk'.symm.trans ha)
      cases hm : suspends m with
      | true =>
          rcases hsuspends hm with ⟨hin, -⟩ | ⟨-, hover⟩
          · exact Or.inr (Or.inr (h.exists_newJob hin))
          · exact hover.imp_right Or.inl
      | false =>
          rw [hown ht, hm, if_neg Bool.false_ne_true, hthread] at huthread
          cases huthread
    · exact Or.inr (Or.inr (h.exists_newJob hin))
    · rw [hothers u hut (hlt hk)] at huthread
      rw [hsame.2.2.1, hsame.2.2.2]
      refine (h.outstanding u k hk huthread).imp_right (Or.imp_right ?_)
      rintro ⟨job', hjob', hfor⟩
      exact ⟨job', hwaiting.mem_iff.mpr (List.mem_append_left _ hjob'),
        (h.oldJob p' hjob').trans hfor⟩
    · exact Or.inr (Or.inr (h.exists_newJob hin))
  case unharmed =>
    rw [afterMove_eq]
    exact h.unharmed

/-! ## Runs -/

variable [Inhabited V] {program : Program V}

structure Whole (program : Program V) (s : PooledState V) : Prop where
  linked : ProgramState.Linked program s.program
  staffed : ElasticState.Staffed s.executor
  secured : ElasticState.Secured s.executor
  tied : Tied s

omit [Inhabited V] in
theorem whole_init (program : Program V) : Whole program {
    program := { tasks := [{ program := program, activity := .ready program }] }
    executor := { queue := [0], submitted := 1 }
    jobs := [0]
    threads := [none] } := by
  refine ⟨ProgramState.linked_init program, ⟨by rintro ⟨⟩, by rintro _ _ ⟨⟩⟩,
    ⟨by rintro _ _ ⟨⟩, by rintro _ ⟨⟩, by rintro _ _ ⟨⟩⟩, rfl, rfl, ?_, ?_, ?_, ?_, ?_, rfl⟩
  · intro u job hu
    cases u <;> cases hu
  · intro u k hu hregistered
    cases u with
    | zero => rfl
    | succ u => cases hu
  · intro job hjob
    obtain rfl := List.mem_singleton.mp hjob
    exact ⟨0, _, rfl, rfl, rfl, rfl⟩
  · exact List.nodup_singleton _
  · intro u k hu _
    cases u with
    | zero => exact Or.inr (Or.inr ⟨0, List.mem_cons_self, rfl⟩)
    | succ u => cases hu

inductive Steps (s : PooledState V) : Label → PooledState V → Prop where
  | move (t : Nat) (m : Move) (job : Nat) (p' : ProgramState V)
      (thread : s.threads[t]? = some (some job)) (step : s.program.step (t, m) = some p') :
      Steps s (.move t m) (s.afterMove t m p')
  | call (i : Nat) (spurious : Bool) (w : WorkerThread) (job : Nat) (e : ElasticState)
      (worker : s.executor.workers[i]? = some w) (starting : w.starting = some job)
      (step : s.executor.step (.work i spurious) = some e) :
      Steps s (.executor (.work i spurious)) (beginCall { s with executor := e } job)
  | work (i : Nat) (spurious : Bool) (w : WorkerThread) (e : ElasticState)
      (worker : s.executor.workers[i]? = some w) (starting : w.starting = none)
      (returns : ∀ job ∈ w.inCall, some job ∉ s.threads)
      (step : s.executor.step (.work i spurious) = some e) :
      Steps s (.executor (.work i spurious)) { s with executor := e }
  | manage (l : ElasticState.Label) (e : ElasticState) (quiet : ElasticState.Quiet s.executor l)
      (step : s.executor.step l = some e) : Steps s (.executor l) { s with executor := e }

theorem steps_of_step (hstep : s.step l = some s') :
    s.program.fate = .running ∧ Steps s l s' := by
  unfold PooledState.step at hstep
  obtain ⟨hrunning, hstep⟩ := Option.ite_none_right_eq_some.mp hstep
  refine ⟨hrunning, ?_⟩
  have hmanage : ∀ k : ElasticState.Label, ElasticState.Quiet s.executor k →
      (s.executor.step k).map ({ s with executor := · }) = some s' → Steps s (.executor k) s' := by
    intro k hquiet hstep
    obtain ⟨e, he, rfl⟩ := Option.map_eq_some_iff.mp hstep
    exact .manage k e hquiet he
  cases l with
  | move t m =>
      dsimp only at hstep
      split at hstep
      case h_1 job hthread =>
        obtain ⟨p', hp', rfl⟩ := Option.map_eq_some_iff.mp hstep
        exact .move t m job p' hthread hp'
      case h_2 => cases hstep
  | executor k =>
      cases k with
      | execute => cases hstep
      | work i spurious =>
          dsimp only at hstep
          split at hstep
          case h_1 => cases hstep
          case h_2 w hw =>
            obtain ⟨hreturns, hstep⟩ := Option.ite_none_left_eq_some.mp hstep
            obtain ⟨e, he, rfl⟩ := Option.map_eq_some_iff.mp hstep
            cases hstarting : w.starting with
            | none => exact .work i spurious w e hw hstarting (fun job hjob hin =>
                hreturns ⟨job, hjob, hin⟩) he
            | some job => exact .call i spurious w job e hw hstarting he
      | sample load => exact hmanage _ trivial hstep
      | expand backlog => exact hmanage _ trivial hstep
      | shrink spurious => exact hmanage _ trivial hstep
      | stop => exact hmanage _ trivial hstep
      | join => exact hmanage _ trivial hstep

/-- What a step of a worker does to the tasks. -/
theorem work_step {i : Nat} {spurious : Bool} {w : WorkerThread} {c e : ElasticState}
    (hw : c.workers[i]? = some w) (hstep : c.step (.work i spurious) = some e) :
    (e.waiting ++ w.starting.toList).Perm c.waiting ∧
      (e.inCalls ++ w.inCall.toList).Perm (c.inCalls ++ w.starting.toList) ∧
      e.submitted = c.submitted := by
  cases ElasticState.steps_of_step hstep with
  | work _ _ v v' queue worker step =>
      obtain rfl := Option.some.inj (hw.symm.trans worker)
      obtain ⟨hwaiting, hcalls⟩ := ElasticState.work_waiting worker step
      exact ⟨hwaiting, hcalls, rfl⟩
  | manage _ manager target quiet two works => exact absurd rfl (works i spurious)

omit [Inhabited V] in
theorem beginCall_executor (s : PooledState V) (job : Nat) :
    (s.beginCall job).executor = s.executor := by
  unfold beginCall
  split <;> rfl

omit [Inhabited V] in
theorem beginCall_program (s : PooledState V) (job : Nat) :
    (s.beginCall job).program = s.program := by
  unfold beginCall
  split <;> rfl

theorem Whole.step (h : Whole program s) (horderly : Orderly s l) (hstep : s.step l = some s') :
    Whole program s' := by
  cases (steps_of_step hstep).2 with
  | move t m job p' thread step =>
      obtain ⟨-, k, hk, heffect⟩ := ProgramState.step_effect h.linked horderly step
      have hact := ProgramState.act_of_step hk step
      have hshifts := (ProgramState.turn_of_act hk horderly hact).shifts hk
      refine ⟨?_, ?_, ?_, h.tied.moved thread hshifts⟩
      · rw [afterMove_eq]
        exact heffect.linked h.linked hk
      · rw [afterMove_eq]
        exact ⟨h.staffed.two, h.staffed.able⟩
      · rw [afterMove_eq]
        exact ⟨h.secured.locked, h.secured.there, h.secured.stopped⟩
  | call i spurious w job e worker starting step =>
      obtain ⟨hwaiting, hcalls, hsubmitted⟩ := work_step worker step
      have hinCall : w.inCall = none := by
        obtain ⟨running, lock, phase⟩ := w
        cases phase with
        | popped task => rfl
        | _ => cases starting
      rw [starting] at hwaiting hcalls
      rw [hinCall, Option.toList_none, List.append_nil] at hcalls
      refine ⟨?_, ?_, ?_, h.tied.begins hwaiting hcalls hsubmitted⟩
      · rw [beginCall_program]
        exact h.linked
      · rw [beginCall_executor]
        exact h.staffed.step step
      · rw [beginCall_executor]
        exact h.secured.step step
  | work i spurious w e worker starting returns step =>
      obtain ⟨hwaiting, hcalls, hsubmitted⟩ := work_step worker step
      rw [starting, Option.toList_none, List.append_nil] at hwaiting hcalls
      refine ⟨h.linked, h.staffed.step step, h.secured.step step,
        h.tied.rested hwaiting hsubmitted fun t job ht => ?_⟩
      rcases List.mem_append.mp (hcalls.mem_iff.mpr (h.tied.onThread t job ht)) with hin | hin
      · exact hin
      · -- the call of a coroutine that goes on does not return
        exact absurd (List.mem_of_getElem? ht) (returns job (Option.mem_toList.mp hin))
  | manage k e quiet step =>
      have hsame := ElasticState.undisturbed_step quiet step
      refine ⟨h.linked, h.staffed.step step, h.secured.step step,
        h.tied.rested hsame.waiting hsame.submitted fun t job ht => ?_⟩
      exact hsame.inCalls.mem_iff.mpr (h.tied.onThread t job ht)

theorem whole_runs {ls : List Label} (hrun : (machine program).Runs ls s)
    (horderly : (machine program).Meets Orderly (machine program).init ls) : Whole program s :=
  hrun.guarded (whole_init program) (fun _ _ _ h hl hstep => h.step hl hstep) horderly

theorem whole_restricted {ls : List Label} (h : Whole program s)
    (hrun : ((machine program).restrict Orderly).runFrom s ls = some s') : Whole program s' := by
  refine Machine.runFrom_invariant (I := Whole program) ?_ h hrun
  intro a l a' ha hstep
  obtain ⟨hl, hstep⟩ := Machine.restrict_step.mp hstep
  exact ha.step hl hstep

/-! ## The way to the end of the program -/

/-- The steps that come without a lock that fails for no reason. -/
def Label.settles : Label → Bool
  | .move _ _ => true
  | .executor l => l.settles

/-- The manager erases nobody who can still take a task. -/
def Spares (c : ElasticState) : Prop :=
  ∀ i w, c.manager.target = some i → c.workers[i]? = some w → w.Leaves

structure Going (program : Program V) (s : PooledState V) : Prop where
  whole : Whole program s
  running : s.program.fate = .running
  spares : Spares s.executor

theorem quiet_step {k : ElasticState.Label} (hrunning : s.program.fate = .running)
    (hquiet : ElasticState.Quiet s.executor k) (hstep : s.executor.step k = some e) :
    s.step (.executor k) = some { s with executor := e } := by
  unfold PooledState.step
  rw [if_pos hrunning]
  cases k with
  | execute => exact hquiet.elim
  | work i spurious =>
      cases hw : s.executor.workers[i]? with
      | none =>
          simp only [ElasticState.step, hw] at hstep
          cases hstep
      | some w =>
          obtain ⟨hstarting, hinCall⟩ := hquiet w hw
          have hfree : ¬ ∃ job ∈ w.inCall, some job ∈ s.threads := by
            rw [hinCall]
            rintro ⟨job, ⟨⟩, -⟩
          simp only [hw, if_neg hfree, hstep, hstarting, Option.map_some, Option.elim_none]
  | _ =>
      simp only
      rw [hstep]
      rfl

/-- What the executor does without a call it does beside the program. -/
theorem quiet_runFrom {ks : List ElasticState.Label} (hrunning : s.program.fate = .running)
    (hrun : ElasticState.quietMachine.runFrom s.executor ks = some e) :
    ((machine program).restrict Orderly).runFrom s (ks.map .executor) =
      some { s with executor := e } := by
  induction ks generalizing s with
  | nil =>
      obtain rfl := Option.some.inj hrun
      rfl
  | cons k ks ih =>
      obtain ⟨mid, hmid, hrest⟩ := Option.bind_eq_some_iff.mp hrun
      obtain ⟨hquiet, hmid⟩ := Machine.restrict_step.mp hmid
      have horderly : Orderly s (.executor k) := trivial
      have hstep : ((machine program).restrict Orderly).step s (.executor k) =
          some { s with executor := mid } :=
        Machine.restrict_step.mpr ⟨horderly, quiet_step hrunning hquiet hmid⟩
      rw [List.map_cons, Machine.runFrom, hstep]
      exact ih (s := { s with executor := mid }) hrunning hrest

/-- A worker with a task begins the call. -/
theorem Going.call (h : Going program s) {i job : Nat} {w : WorkerThread}
    (hw : s.executor.workers[i]? = some w) (hstarting : w.starting = some job) :
    ∃ l s', Label.settles l = true ∧ ((machine program).restrict Orderly).step s l = some s' ∧
      Going program s' ∧ s'.program = s.program ∧
      s'.executor.waiting.length < s.executor.waiting.length := by
  obtain ⟨running, lock, phase⟩ := w
  cases phase with
  | popped task =>
      obtain rfl := Option.some.inj hstarting
      obtain ⟨e, he⟩ : ∃ e, e = { s.executor with
          queue := s.executor.queue
          workers := s.executor.workers.set i ⟨running, lock, .calling task⟩
          called := s.executor.called ++ [task]
          finished := s.executor.finished ++ [] } := ⟨_, rfl⟩
      have hexecutor : s.executor.step (.work i false) = some e := by
        simp only [ElasticState.step, hw, WorkerThread.step, he]
        rfl
      have hstep : s.step (.executor (.work i false)) =
          some (beginCall { s with executor := e } task) := by
        have hfree : ¬ ∃ job ∈ WorkerThread.inCall ⟨running, lock, .popped task⟩,
            some job ∈ s.threads := by
          rintro ⟨job, ⟨⟩, -⟩
        unfold PooledState.step
        rw [if_pos h.running]
        simp only [hw, if_neg hfree, hexecutor, Option.map_some, hstarting, Option.elim_some]
      obtain ⟨hwaiting, -, -⟩ := work_step hw hexecutor
      have hprogram : (beginCall { s with executor := e } task).program = s.program :=
        beginCall_program _ task
      have horderly : Orderly s (.executor (.work i false)) := trivial
      refine ⟨.executor (.work i false), _, rfl,
        Machine.restrict_step.mpr ⟨horderly, hstep⟩,
        ⟨h.whole.step horderly hstep, by rw [hprogram]; exact h.running, ?_⟩, hprogram, ?_⟩
      · rw [beginCall_executor]
        intro j v hj hv
        simp only [he] at hj hv
        rcases ElasticState.getElem?_set_cases hw hv with ⟨rfl, -⟩ | ⟨-, hv⟩
        · cases (h.spares j _ hj hw).1
        · exact h.spares j v hj hv
      · rw [beginCall_executor]
        have hlength := hwaiting.length_eq
        rw [List.length_append] at hlength
        change _ + 1 = _ at hlength
        show e.waiting.length < _
        omega
  | _ => cases hstarting

/-- Some worker comes to have a task, if there is one. -/
theorem Going.takeUp (h : Going program s) (hwaiting : s.executor.waiting ≠ []) :
    ∃ es s', (∀ l ∈ es, Label.settles l = true) ∧
      ((machine program).restrict Orderly).runFrom s es = some s' ∧ Going program s' ∧
      s'.program = s.program ∧ s'.executor.waiting.length = s.executor.waiting.length ∧
      ∃ (i : Nat) (w : WorkerThread) (job : Nat), s'.executor.workers[i]? = some w ∧
        w.starting = some job := by
  by_cases hnone : s.executor.workers.filterMap WorkerThread.starting = []
  · obtain ⟨task, rest, hqueue⟩ : ∃ task rest, s.executor.queue = task :: rest := by
      rw [ElasticState.waiting, hnone, List.append_nil] at hwaiting
      exact List.exists_cons_of_ne_nil hwaiting
    have htaking : ElasticState.Taking task rest s.executor :=
      ⟨h.whole.staffed, h.whole.secured, hqueue, h.spares⟩
    obtain ⟨ks, e, hks, hrun, htarget, -, w, hw, hphase⟩ := htaking.canTake
    have hrun' : ((machine program).restrict Orderly).runFrom s (ks.map .executor) =
        some { s with executor := e } := quiet_runFrom h.running hrun
    have hsame : ElasticState.Undisturbed s.executor e := by
      refine Machine.runFrom_invariant (I := ElasticState.Undisturbed s.executor) ?_ (.refl _) hrun
      intro a k a' ha hstep
      obtain ⟨hquiet, hstep⟩ := Machine.restrict_step.mp hstep
      exact ha.trans (ElasticState.undisturbed_step hquiet hstep)
    obtain ⟨i, hi⟩ := List.getElem?_of_mem hw
    refine ⟨ks.map .executor, _, ?_, hrun', ⟨whole_restricted h.whole hrun', h.running, ?_⟩, rfl,
      hsame.waiting.length_eq, i, w, task, hi, ?_⟩
    · intro l hl
      obtain ⟨k, hk, rfl⟩ := List.mem_map.mp hl
      exact hks k hk
    · intro j v hj
      cases htarget.symm.trans hj
    · rw [WorkerThread.starting, hphase]
  · obtain ⟨job, hjob⟩ := List.exists_mem_of_ne_nil _ hnone
    obtain ⟨w, hw, hstarting⟩ := List.mem_filterMap.mp hjob
    obtain ⟨i, hi⟩ := List.getElem?_of_mem hw
    exact ⟨[], s, fun _ hl => absurd hl List.not_mem_nil, rfl, h, rfl, rfl, i, w, job, hi,
      hstarting⟩

/-- A coroutine that can go on comes to a thread. -/
theorem Going.canThread (h : Going program s) {k : Coroutine V}
    (hk : s.program.tasks[t]? = some k) (hover : k.isOver = false)
    (hbusy : k.registeredFor = none) :
    ((machine program).restrict Orderly).CanReach (fun l => Label.settles l = true)
      (fun a => Going program a ∧ a.program = s.program ∧
        ∃ job, a.threads[t]? = some (some job)) s := by
  refine Machine.CanReach.of_progress (I := fun a => Going program a ∧ a.program = s.program)
    (fun a => a.executor.waiting.length) ?_ ⟨h, rfl⟩
  rintro a ⟨ha, hprogram⟩
  have hka : a.program.tasks[t]? = some k := hprogram ▸ hk
  have hlt : t < a.threads.length := by
    rw [ha.whole.tied.threads]
    exact (List.getElem?_eq_some_iff.mp hka).1
  cases hthread : a.threads[t] with
  | some job =>
      have hget : a.threads[t]? = some (some job) := by rw [List.getElem?_eq_getElem hlt, hthread]
      exact ⟨[], a, fun _ hl => absurd hl List.not_mem_nil, rfl, Or.inl ⟨ha, hprogram, job, hget⟩⟩
  | none =>
      have hget : a.threads[t]? = some none := by rw [List.getElem?_eq_getElem hlt, hthread]
      have hwaiting : a.executor.waiting ≠ [] := by
        rcases ha.whole.tied.outstanding t k hka hget with hended | hregistered | ⟨job, hjob, -⟩
        · cases hover.symm.trans hended
        · exact absurd hbusy hregistered
        · exact List.ne_nil_of_mem hjob
      obtain ⟨es, b, hes, hrun, hb, hsame, hlength, i, w, job, hi, hstarting⟩ := ha.takeUp hwaiting
      obtain ⟨l, c, hl, hstep, hc, hsame', hlt'⟩ := hb.call hi hstarting
      refine ⟨es ++ [l], c, ?_, Machine.runFrom_snoc.mpr ⟨b, hrun, hstep⟩, Or.inr
        ⟨⟨hc, hsame'.trans (hsame.trans hprogram)⟩, by omega⟩⟩
      intro x hx
      rcases List.mem_append.mp hx with hx | hx
      · exact hes x hx
      · exact List.mem_singleton.mp hx ▸ hl

/-- The program goes on, by the threads that it needs for that. -/
theorem Going.progress (h : Going program s) (hcalm : program.Calm [])
    (hnot : ¬ s.program.Finished) :
    ∃ es s', (∀ l ∈ es, Label.settles l = true) ∧
      ((machine program).restrict Orderly).runFrom s es = some s' ∧ Going program s' ∧
      s'.program.budget < s.program.budget := by
  obtain ⟨⟨t, m⟩, p', hp', horderly⟩ := h.whole.linked.progress h.running hnot
  obtain ⟨-, k, hk, heffect⟩ := ProgramState.step_effect h.whole.linked horderly hp'
  obtain ⟨hover, hbusy⟩ := ProgramState.busy_of_act (ProgramState.act_of_step hk hp')
  obtain ⟨es, a, hes, hrun, ha, hprogram, job, hthread⟩ := h.canThread hk hover hbusy
  have hstep : a.step (.move t m) = some (a.afterMove t m p') := by
    unfold PooledState.step
    rw [if_pos ha.running]
    simp only [hthread, hprogram, hp', Option.map_some]
  have horderly' : Orderly a (.move t m) := by
    rw [Orderly, hprogram]
    exact horderly
  have hstep' : ((machine program).restrict Orderly).step a (.move t m) =
      some (a.afterMove t m p') :=
    Machine.restrict_step.mpr ⟨horderly', hstep⟩
  have hnext : (a.afterMove t m p').program = p' := by rw [afterMove_eq]
  refine ⟨es ++ [.move t m], a.afterMove t m p', ?_,
    Machine.runFrom_snoc.mpr ⟨a, hrun, hstep'⟩,
    ⟨ha.whole.step horderly' hstep, ?_, ?_⟩, ?_⟩
  · intro x hx
    rcases List.mem_append.mp hx with hx | hx
    · exact hes x hx
    · exact List.mem_singleton.mp hx ▸ rfl
  · rw [hnext]
    exact (heffect.calm hcalm).trans h.running
  · rw [afterMove_eq]
    exact ha.spares
  · rw [hnext]
    exact heffect.budget hk h.running

/-- A calm program is not ended on the way. -/
theorem running_runs {ls : List Label} (hcalm : program.Calm [])
    (hrun : (machine program).Runs ls s)
    (horderly : (machine program).Meets Orderly (machine program).init ls) :
    s.program.fate = .running := by
  have hkept := hrun.guarded (I := fun a => Whole program a ∧ a.program.fate = .running)
    ⟨whole_init program, rfl⟩ ?_ horderly
  · exact hkept.2
  · rintro a l a' ⟨ha, hrunning⟩ hl hstep
    refine ⟨ha.step hl hstep, ?_⟩
    cases (steps_of_step hstep).2 with
    | move t m job p' thread step =>
        obtain ⟨-, k, hk, heffect⟩ := ProgramState.step_effect ha.linked hl step
        rw [afterMove_eq]
        exact (heffect.calm hcalm).trans hrunning
    | call i spurious w job e worker starting step =>
        rw [beginCall_program]
        exact hrunning
    | work i spurious w e worker starting returns step => exact hrunning
    | manage k e quiet step => exact hrunning

/-- **A program on the elastic executor can always finish**, although a `~Task` that waits for its
coroutine occupies a worker: from every state of a run of a calm program there are steps to its end,
with the result that it reads as and no coroutine left, unless the manager waits for a worker that
can still take a task. And no coroutine is ever resumed that is not suspended. -/
theorem can_finish {ls : List Label} (hcalm : program.Calm [])
    (hrun : (machine program).Runs ls s)
    (horderly : (machine program).Meets Orderly (machine program).init ls)
    (hspares : Spares s.executor) :
    s.misfired = false ∧ ∃ es s', (∀ l ∈ es, Label.settles l = true) ∧
      (machine program).Meets Orderly s es ∧ (machine program).runFrom s es = some s' ∧
      s'.program.Finished ∧
      (∃ k r, s'.program.tasks[0]? = some k ∧ k.result = some r ∧
        r.getResult = program.eval []) ∧
      ∀ (i : Nat) c, s'.program.tasks[i]? = some c → i ≠ 0 → c.isDestroyed = true := by
  have hwhole := whole_runs hrun horderly
  refine ⟨hwhole.tied.unharmed, ?_⟩
  have hgoing : Going program s := ⟨hwhole, running_runs hcalm hrun horderly, hspares⟩
  have hreach : ((machine program).restrict Orderly).CanReach (fun l => Label.settles l = true)
      (fun a => Whole program a ∧ a.program.Finished) s := by
    refine Machine.CanReach.of_measure (I := Going program) (fun a => a.program.budget) ?_ hgoing
    exact fun a ha hnot => ha.progress hcalm fun hfinished => hnot ⟨ha.whole, hfinished⟩
  obtain ⟨es, s', hes, hrest, hwhole', hfinished⟩ := hreach
  obtain ⟨hfrom, hmeets⟩ := Machine.restrict_runFrom.mp hrest
  exact ⟨es, s', hes, hmeets, hfrom, hfinished, (hwhole'.linked.finished hfinished).2⟩

/-- The started coroutine is not awaited. -/
def startOnly : Program Nat := .start (.coReturn 3) (.coReturn 4)

/-- The one worker comes to the end of the first body, whose `~Task` has to wait. -/
def untilDestroyed : List Label :=
  [.executor (.sample .low), .executor (.expand true),
    .executor (.work 0 false), .executor (.work 0 false), .executor (.work 0 false),
    .executor (.work 0 false), .move 0 .go, .move 0 .go, .move 0 .notify, .move 0 .release]

theorem can_finish_run :
    ∃ s : PooledState Nat, (machine startOnly).Runs untilDestroyed s ∧ s.executor.queue = [1] ∧
      s.executor.workers = [{ pauseLock := some .worker, phase := .calling 0 }] ∧
      s.program.step (0, .drop) = none ∧
      ∃ es s', (machine startOnly).runFrom s es = some s' ∧ s'.program.Finished ∧
        ∃ k r, s'.program.tasks[0]? = some k ∧ k.result = some r ∧ r.getResult = .normal 4 := by
  obtain ⟨s, hrun, hmanager, hqueue, hworkers, hdrop⟩ : ∃ s : PooledState Nat,
      (machine startOnly).Runs untilDestroyed s ∧ s.executor.manager = .sampling ∧
      s.executor.queue = [1] ∧
      s.executor.workers = [{ pauseLock := some .worker, phase := .calling 0 }] ∧
      s.program.step (0, .drop) = none :=
    ⟨_, rfl, rfl, rfl, rfl, rfl⟩
  have hspares : Spares s.executor := by
    intro i w hi hw
    rw [hmanager] at hi
    cases hi
  have hcalm : startOnly.Calm [] := ⟨⟨trivial, 3, rfl⟩, trivial⟩
  have horderly : (machine startOnly).Meets Orderly (machine startOnly).init untilDestroyed := by
    decide +kernel
  obtain ⟨-, es, s', -, -, hfrom, hfinished, hresult, -⟩ := can_finish hcalm hrun horderly hspares
  exact ⟨s, hrun, hqueue, hworkers, hdrop, es, s', hfrom, hfinished, hresult⟩

end PooledState

end Npp.Task
