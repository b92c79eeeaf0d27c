import Npp.Task.Callbacks

/-!
# Completion with callbacks that throw

A coroutine body ends with a value or with an exception, and the promise publishes it and calls the
registered callbacks. An exception that leaves `return_value` is caught by the handler which the
compiler puts around the body, and that handler calls `unhandled_exception`; one that leaves
`unhandled_exception` leaves the coroutine. `return_void` is `return_value` of the one value.
-/

namespace Npp.Task

variable {T : Type}

/-- A registered function: what its `n`th call throws, counted from 0. -/
structure Callback (T : Type) where
  hook : Hook
  func : Nat → Call T → Option Exn

/-- The promise while it completes: every value that `result` was given, and the callbacks whose
function was called, by their place in the list. -/
structure Publication (T : Type) where
  results : List (Result T) := []
  invoked : List Nat := []
  cleared : Bool := false
deriving Repr

namespace Publication

def call (s : Publication T) (cb : Callback T) (i : Nat) (value : Result T) :
    Publication T × Option Exn :=
  match cb.hook.wrapper value with
  | .error e => (s, some e)
  | .ok none => (s, none)
  | .ok (some c) =>
      let s' := { s with invoked := s.invoked ++ [i] }
      match cb.func (s.invoked.count i) c with
      | none => (s', none)
      | some e => (s', if cb.hook.swallows e then none else some e)

/-- `notify_callbacks` on the rest of the list. -/
def notifyCallbacks (s : Publication T) (value : Result T) :
    List (Callback T × Nat) → Publication T × Option Exn
  | [] => ({ s with cleared := true }, none)
  | (cb, i) :: rest =>
      match s.call cb i value with
      | (s', some e) => (s', some e)
      | (s', none) => s'.notifyCallbacks value rest

/-- `result` is assigned and the callbacks are called. -/
def publish (s : Publication T) (callbacks : List (Callback T)) (value : Result T) :
    Publication T × Option Exn :=
  { s with results := s.results ++ [value] }.notifyCallbacks value callbacks.zipIdx

def returnValue (s : Publication T) (callbacks : List (Callback T)) (v : T) :
    Publication T × Option Exn :=
  s.publish callbacks (.ofValue v)

def unhandledException [Inhabited T] (s : Publication T) (callbacks : List (Callback T)) (e : Exn) :
    Publication T × Option Exn :=
  s.publish callbacks (.ofException e)

end Publication

/-- On its first call for the value `v` the function lets no exception out of its wrapper. -/
def Callback.contained (cb : Callback T) (v : T) : Prop :=
  match cb.hook with
  | .then_ => ∀ e, cb.func 0 (.then_ v) = some e → e.isStd = true
  | .catching => True
  | .finally_ => cb.func 0 .finally_ = none

namespace Publication

/-! ## One pass over the list -/

theorem call_invoked (s : Publication T) (cb : Callback T) (i : Nat) (value : Result T) :
    (s.call cb i value).1.results = s.results ∧
      ((s.call cb i value).1.invoked = s.invoked ∨
        (s.call cb i value).1.invoked = s.invoked ++ [i]) := by
  unfold call
  split
  case h_1 => exact ⟨rfl, Or.inl rfl⟩
  case h_2 => exact ⟨rfl, Or.inl rfl⟩
  case h_3 c _ =>
    simp only
    split
    case h_1 => exact ⟨rfl, Or.inr rfl⟩
    case h_2 => exact ⟨rfl, Or.inr rfl⟩

/-- A pass keeps the result and calls some of the functions in order. -/
theorem notifyCallbacks_invoked (s : Publication T) (value : Result T)
    (list : List (Callback T × Nat)) :
    (s.notifyCallbacks value list).1.results = s.results ∧
      ∃ called, called.Sublist (list.map Prod.snd) ∧
        (s.notifyCallbacks value list).1.invoked = s.invoked ++ called := by
  induction list generalizing s with
  | nil => exact ⟨rfl, [], List.Sublist.refl _, (List.append_nil _).symm⟩
  | cons head rest ih =>
      obtain ⟨cb, i⟩ := head
      obtain ⟨hresults, hinvoked⟩ := s.call_invoked cb i value
      have hcalled : ∃ one, one.Sublist [i] ∧
          (s.call cb i value).1.invoked = s.invoked ++ one := by
        rcases hinvoked with h | h
        · exact ⟨[], List.nil_sublist _, h.trans (List.append_nil _).symm⟩
        · exact ⟨[i], List.Sublist.refl _, h⟩
      obtain ⟨one, hone, honeInvoked⟩ := hcalled
      rw [notifyCallbacks]
      split
      case h_1 s' e hcall =>
        rw [hcall] at hresults honeInvoked
        exact ⟨hresults, one, hone.trans (by simp), honeInvoked⟩
      case h_2 s' hcall =>
        rw [hcall] at hresults honeInvoked
        obtain ⟨hrest, called, hsub, hcalled⟩ := ih s'
        refine ⟨hrest.trans hresults, one ++ called, hone.append hsub, ?_⟩
        rw [hcalled, honeInvoked, List.append_assoc]

theorem publish_results (s : Publication T) (callbacks : List (Callback T)) (value : Result T) :
    (s.publish callbacks value).1.results = s.results ++ [value] :=
  (notifyCallbacks_invoked _ value callbacks.zipIdx).1

theorem places_nodup (callbacks : List (Callback T)) :
    (callbacks.zipIdx.map Prod.snd).Nodup := by
  rw [List.zipIdx_map_snd]
  exact List.nodup_range'

/-- The first pass calls no function twice. -/
theorem publish_nodup (callbacks : List (Callback T)) (value : Result T) :
    (publish {} callbacks value).1.invoked.Nodup := by
  obtain ⟨-, called, hsub, hinvoked⟩ :=
    notifyCallbacks_invoked ({ results := [value] } : Publication T) value callbacks.zipIdx
  have heq : (publish {} callbacks value).1.invoked = [] ++ called := hinvoked
  rw [heq, List.nil_append]
  exact hsub.nodup (places_nodup callbacks)

/-- A pass with a value lets no exception out exactly when no function does. -/
theorem call_contained (s : Publication T) (cb : Callback T) {i : Nat} (v : T)
    (hfirst : i ∉ s.invoked) : (s.call cb i (.ofValue v)).2 = none ↔ cb.contained v := by
  obtain ⟨hook, func⟩ := cb
  have hcount : s.invoked.count i = 0 := List.count_eq_zero.mpr hfirst
  cases hook with
  | then_ =>
      simp only [call, Hook.wrapper, Result.getOrThrow_ofValue, hcount, Callback.contained]
      cases hfunc : func 0 (.then_ v) with
      | none => simp
      | some e => cases hstd : e.isStd <;> simp [Hook.swallows, hstd]
  | catching => simp [call, Hook.wrapper, Callback.contained]
  | finally_ =>
      simp only [call, Hook.wrapper, hcount, Callback.contained]
      cases hfunc : func 0 .finally_ with
      | none => simp
      | some e => simp [Hook.swallows]

theorem notifyCallbacks_contained (s : Publication T) (v : T) {list : List (Callback T × Nat)}
    (hnodup : (s.invoked ++ list.map Prod.snd).Nodup) :
    (s.notifyCallbacks (.ofValue v) list).2 = none ↔ ∀ p ∈ list, p.1.contained v := by
  induction list generalizing s with
  | nil => exact ⟨fun _ _ hp => (List.not_mem_nil hp).elim, fun _ => rfl⟩
  | cons head rest ih =>
      obtain ⟨cb, i⟩ := head
      have hfirst : i ∉ s.invoked := by
        intro hmem
        exact (List.nodup_append.mp hnodup).2.2 i hmem i (by simp) rfl
      have hhead := s.call_contained cb v hfirst
      obtain ⟨-, hinvoked⟩ := s.call_invoked cb i (.ofValue v)
      rw [notifyCallbacks, List.forall_mem_cons]
      split
      case h_1 s' e hcall =>
        rw [hcall] at hhead
        exact iff_of_false (by rintro ⟨⟩) fun h => absurd (hhead.mpr h.1) (by rintro ⟨⟩)
      case h_2 s' hcall =>
        rw [hcall] at hhead hinvoked
        have hrest : (s'.invoked ++ rest.map Prod.snd).Nodup := by
          rcases hinvoked with h | h <;> rw [h]
          · refine hnodup.sublist (List.Sublist.append_left ?_ _)
            exact List.sublist_cons_self _ _
          · rw [List.append_assoc]
            exact hnodup
        rw [ih s' hrest]
        exact ⟨fun h => ⟨hhead.mp rfl, h⟩, And.right⟩

end Publication

variable [Inhabited T]

/-- The end of a body that produced `outcome`, and the exception that leaves the coroutine. -/
def complete (callbacks : List (Callback T)) (outcome : Except Exn T) :
    Publication T × Option Exn :=
  match outcome with
  | .ok v =>
      match Publication.returnValue {} callbacks v with
      | (s, none) => (s, none)
      -- the list is as it was, since `clear` comes after the calls
      | (s, some e) => s.unhandledException callbacks e
  | .error e => Publication.unhandledException {} callbacks e

def outcomeResult : Except Exn T → Result T
  | .ok v => .ofValue v
  | .error e => .ofException e

/-- What `get_result` returns or throws after completion is the outcome, the result was set once,
and no function was called twice. -/
def WriteOnce (callbacks : List (Callback T)) (outcome : Except Exn T) : Prop :=
  (complete callbacks outcome).1.results.getLast?.map Result.getOrThrow = some outcome ∧
  (complete callbacks outcome).1.results = [outcomeResult outcome] ∧
  (complete callbacks outcome).1.invoked.Nodup

/-- A completion with an exception makes one pass, whatever its callbacks throw. -/
theorem writeOnce_error (callbacks : List (Callback T)) (e : Exn) :
    WriteOnce callbacks (.error e) := by
  have hresults : (complete callbacks (.error e)).1.results = [outcomeResult (.error e)] :=
    Publication.publish_results {} callbacks _
  refine ⟨?_, hresults, Publication.publish_nodup callbacks _⟩
  rw [hresults]
  rfl

/-- The value stands as long as the pass with it throws nothing. -/
theorem writeOnce_ok_iff (callbacks : List (Callback T)) (v : T) :
    WriteOnce callbacks (.ok v) ↔
      (Publication.returnValue {} callbacks v).2 = none := by
  have hresults : (Publication.returnValue {} callbacks v).1.results = [.ofValue v] :=
    Publication.publish_results {} callbacks _
  cases hpass : Publication.returnValue {} callbacks v with
  | mk s thrown =>
      rw [hpass] at hresults
      cases thrown with
      | none =>
          have hcomplete : complete callbacks (.ok v) = (s, none) := by
            rw [complete, hpass]
          refine iff_of_true ⟨?_, ?_, ?_⟩ rfl
          · rw [hcomplete, hresults]
            rfl
          · rw [hcomplete]
            exact hresults
          · have hnodup := Publication.publish_nodup callbacks (.ofValue v)
            rw [hcomplete]
            have heq : (Publication.publish {} callbacks (.ofValue v)).1 = s :=
              congrArg Prod.fst hpass
            exact heq ▸ hnodup
      | some e =>
          have hsecond : (complete callbacks (.ok v)).1.results = [.ofValue v, .ofException e] := by
            rw [complete, hpass]
            refine (Publication.publish_results s callbacks _).trans ?_
            rw [hresults]
            rfl
          refine iff_of_false ?_ (by rintro ⟨⟩)
          rintro ⟨-, hone, -⟩
          rw [hsecond] at hone
          cases hone

/-- **The result is written once** exactly when the outcome is an exception, or no callback lets an
exception out when it is called for the value. -/
theorem writeOnce_iff (callbacks : List (Callback T)) (outcome : Except Exn T) :
    WriteOnce callbacks outcome ↔ ∀ v, outcome = .ok v → ∀ cb ∈ callbacks, cb.contained v := by
  cases outcome with
  | error e => exact iff_of_true (writeOnce_error callbacks e) fun v hv => nomatch hv
  | ok v =>
      have hpass := Publication.notifyCallbacks_contained
        ({ results := [.ofValue v] } : Publication T) v (Publication.places_nodup callbacks)
      rw [writeOnce_ok_iff]
      refine hpass.trans ?_
      have hplaces : callbacks = callbacks.zipIdx.map Prod.fst :=
        (List.zipIdx_map_fst 0 callbacks).symm
      constructor
      · rintro h w ⟨⟩ cb hcb
        rw [hplaces] at hcb
        obtain ⟨p, hp, rfl⟩ := List.mem_map.mp hcb
        exact h p hp
      · intro h p hp
        apply h v rfl
        rw [hplaces]
        exact List.mem_map_of_mem hp

/-- A task returns 7, and its `finally` function throws on its first call: the implicit handler
publishes that exception and calls the function again. -/
theorem not_writeOnce :
    (complete [⟨.finally_, fun n _ => if n = 0 then some (.std "boom") else none⟩]
      (.ok 7 : Except Exn Nat)).1.results = [.ofValue 7, .ofException (.std "boom")] ∧
    (complete [⟨.finally_, fun n _ => if n = 0 then some (.std "boom") else none⟩]
      (.ok 7 : Except Exn Nat)).1.invoked = [0, 0] ∧
    ¬ WriteOnce [⟨.finally_, fun n _ => if n = 0 then some (.std "boom") else none⟩]
      (.ok 7 : Except Exn Nat) := by
  refine ⟨rfl, rfl, ?_⟩
  rintro ⟨-, hone, -⟩
  exact absurd hone (by decide)

end Npp.Task
