import Mathlib.Data.List.Basic
import Mathlib.Logic.Function.Basic

/-!
# Duplex streams that carry blocks

Endpoints that are joined in pairs, each with the bytes written at it and the bytes that have come
to it and are not read. `Framed` says that both directions of every pair carry whole blocks: what
was taken at one end is a prefix of what was written at the other, and the rest is unread. An
endpoint may write before it is joined, and its bytes wait for the other end.
-/

namespace Npp.Foundation

universe u v w

structure Duplex (ε : Type u) (β : Type v) where
  peer : ε → Option ε
  sent : ε → List β
  unread : ε → List β

namespace Duplex

variable {ε : Type u} {β : Type v} {φ : Type w} {bytes : φ → List β} {wrote taken : ε → List φ}
  {D D' : Duplex ε β}

/-- Blocks `wrote` were written at each end, and blocks `taken` were read. -/
structure Framed (bytes : φ → List β) (wrote taken : ε → List φ) (D : Duplex ε β) : Prop where
  symm : ∀ e e', D.peer e = some e' → D.peer e' = some e
  irrefl : ∀ e, D.peer e ≠ some e
  sent : ∀ e, D.sent e = (wrote e).flatMap bytes
  joined : ∀ e e', D.peer e = some e' →
    ∃ after, wrote e' = taken e ++ after ∧ D.unread e = after.flatMap bytes
  apart : ∀ e, D.peer e = none → taken e = [] ∧ D.unread e = []

theorem framed_empty (hpeer : ∀ e, D.peer e = none) (hsent : ∀ e, D.sent e = [])
    (hunread : ∀ e, D.unread e = []) : Framed bytes (fun _ => []) (fun _ => []) D where
  symm e e' he := by
    rw [hpeer e] at he
    cases he
  irrefl e he := by
    rw [hpeer e] at he
    cases he
  sent := hsent
  joined e e' he := by
    rw [hpeer e] at he
    cases he
  apart e _ := ⟨rfl, hunread e⟩

theorem Framed.ne (h : Framed bytes wrote taken D) {e e' : ε} (he : D.peer e = some e') :
    e' ≠ e := by
  rintro rfl
  exact h.irrefl e' he

/-- What was taken at one end is a prefix of what was written at the other. -/
theorem Framed.in_order (h : Framed bytes wrote taken D) {e e' : ε} (he : D.peer e = some e') :
    taken e <+: wrote e' := by
  obtain ⟨after, hwrote, -⟩ := h.joined e e' he
  exact ⟨after, hwrote.symm⟩

/-- Once nothing is left to read, all of it was taken. -/
theorem Framed.complete (h : Framed bytes wrote taken D) (hbytes : ∀ f, bytes f ≠ []) {e e' : ε}
    (he : D.peer e = some e') (hunread : D.unread e = []) : taken e = wrote e' := by
  obtain ⟨after, hwrote, hrest⟩ := h.joined e e' he
  cases after with
  | nil => rw [hwrote, List.append_nil]
  | cons f after =>
      rw [hunread, List.flatMap_cons] at hrest
      exact absurd (List.append_eq_nil_iff.mp hrest.symm).1 (hbytes f)

/-- An endpoint without bytes has no block. -/
theorem Framed.wrote_nil (h : Framed bytes wrote taken D) (hbytes : ∀ f, bytes f ≠ []) {e : ε}
    (hsent : D.sent e = []) : wrote e = [] := by
  have hnil := (h.sent e).symm.trans hsent
  cases hwrote : wrote e with
  | nil => rfl
  | cons f fs =>
      rw [hwrote, List.flatMap_cons] at hnil
      exact absurd (List.append_eq_nil_iff.mp hnil).1 (hbytes f)

/-- An endpoint with something to read has a block in front. -/
theorem Framed.front (h : Framed bytes wrote taken D) {e : ε} (hne : D.unread e ≠ []) :
    ∃ e' f after, D.peer e = some e' ∧ wrote e' = taken e ++ f :: after ∧
      D.unread e = bytes f ++ after.flatMap bytes := by
  cases hpeer : D.peer e with
  | none => exact absurd (h.apart e hpeer).2 hne
  | some e' =>
      obtain ⟨after, hwrote, hrest⟩ := h.joined e e' hpeer
      cases after with
      | nil => exact absurd hrest hne
      | cons f after => exact ⟨e', f, after, rfl, hwrote, hrest⟩

variable [DecidableEq ε]

/-- A block is written at `e`, and comes to the other end if there is one. -/
theorem Framed.write (h : Framed bytes wrote taken D) {e : ε} (f : φ) (hpeer : D'.peer = D.peer)
    (hsent : D'.sent = Function.update D.sent e (D.sent e ++ bytes f))
    (hunread : ∀ j, D'.unread j = D.unread j ++ if D.peer e = some j then bytes f else []) :
    Framed bytes (Function.update wrote e (wrote e ++ [f])) taken D' where
  symm := by
    rw [hpeer]
    exact h.symm
  irrefl := by
    rw [hpeer]
    exact h.irrefl
  sent j := by
    rw [hsent]
    by_cases hj : j = e
    · subst hj
      simp only [Function.update_self, h.sent j, List.flatMap_append, List.flatMap_singleton]
    · rw [Function.update_of_ne hj, Function.update_of_ne hj, h.sent j]
  joined j k hj := by
    rw [hpeer] at hj
    obtain ⟨after, hwrote, hrest⟩ := h.joined j k hj
    rw [hunread j]
    by_cases hk : k = e
    · -- `j` is the other end of `e`
      subst hk
      refine ⟨after ++ [f], ?_, ?_⟩
      · rw [Function.update_self, hwrote, List.append_assoc]
      · rw [if_pos (h.symm j k hj), hrest, List.flatMap_append, List.flatMap_singleton]
    · refine ⟨after, ?_, ?_⟩
      · rw [Function.update_of_ne hk, hwrote]
      · have hother : ¬ D.peer e = some j := by
          intro he
          exact hk (Option.some.inj (hj.symm.trans (h.symm e j he)))
        rw [if_neg hother, List.append_nil, hrest]
  apart j hj := by
    rw [hpeer] at hj
    obtain ⟨htaken, hrest⟩ := h.apart j hj
    refine ⟨htaken, ?_⟩
    have hother : ¬ D.peer e = some j := by
      intro he
      cases hj.symm.trans (h.symm e j he)
    rw [hunread j, if_neg hother, List.append_nil, hrest]

/-- Two endpoints are joined, and `e'`, which has written nothing, gets what `e` has written. -/
theorem Framed.join (h : Framed bytes wrote taken D) {e e' : ε} (hne : e' ≠ e)
    (he : D.peer e = none) (he' : D.peer e' = none) (hwrote : wrote e' = [])
    (hpeer : D'.peer = Function.update (Function.update D.peer e (some e')) e' (some e))
    (hsent : D'.sent = D.sent) (hunread : D'.unread = Function.update D.unread e' (D.sent e)) :
    Framed bytes wrote taken D' := by
  have hleft : D'.peer e = some e' := by
    rw [hpeer, Function.update_of_ne (Ne.symm hne), Function.update_self]
  have hright : D'.peer e' = some e := by
    rw [hpeer, Function.update_self]
  have hothers : ∀ j, j ≠ e → j ≠ e' → D'.peer j = D.peer j := by
    intro j hj hj'
    rw [hpeer, Function.update_of_ne hj', Function.update_of_ne hj]
  have hapart : ∀ j k, D.peer j = some k → k ≠ e ∧ k ≠ e' := by
    intro j k hjk
    have hkj := h.symm j k hjk
    constructor
    · rintro rfl
      cases he.symm.trans hkj
    · rintro rfl
      cases he'.symm.trans hkj
  refine ⟨?symm, ?irrefl, ?sent, ?joined, ?apart⟩
  case symm =>
    intro j k hjk
    by_cases hj : j = e
    · subst hj
      obtain rfl := Option.some.inj (hleft.symm.trans hjk)
      exact hright
    · by_cases hj' : j = e'
      · subst hj'
        obtain rfl := Option.some.inj (hright.symm.trans hjk)
        exact hleft
      · rw [hothers j hj hj'] at hjk
        obtain ⟨hk, hk'⟩ := hapart j k hjk
        rw [hothers k hk hk']
        exact h.symm j k hjk
  case irrefl =>
    intro j hjj
    by_cases hj : j = e
    · subst hj
      exact hne (Option.some.inj (hleft.symm.trans hjj))
    · by_cases hj' : j = e'
      · subst hj'
        exact hne (Option.some.inj (hright.symm.trans hjj)).symm
      · rw [hothers j hj hj'] at hjj
        exact h.irrefl j hjj
  case sent =>
    rw [hsent]
    exact h.sent
  case joined =>
    intro j k hjk
    by_cases hj : j = e
    · subst hj
      obtain rfl := Option.some.inj (hleft.symm.trans hjk)
      obtain ⟨htaken, hrest⟩ := h.apart j he
      refine ⟨[], ?_, ?_⟩
      · rw [hwrote, htaken, List.append_nil]
      · rw [hunread, Function.update_of_ne (Ne.symm hne), hrest, List.flatMap_nil]
    · by_cases hj' : j = e'
      · subst hj'
        obtain rfl := Option.some.inj (hright.symm.trans hjk)
        obtain ⟨htaken, -⟩ := h.apart j he'
        refine ⟨wrote e, ?_, ?_⟩
        · rw [htaken, List.nil_append]
        · rw [hunread, Function.update_self, h.sent e]
      · rw [hothers j hj hj'] at hjk
        obtain ⟨after, hsplit, hrest⟩ := h.joined j k hjk
        refine ⟨after, hsplit, ?_⟩
        rw [hunread, Function.update_of_ne hj', hrest]
  case apart =>
    intro j hj
    have hje : j ≠ e := by
      rintro rfl
      cases hleft.symm.trans hj
    have hje' : j ≠ e' := by
      rintro rfl
      cases hright.symm.trans hj
    rw [hothers j hje hje'] at hj
    rw [hunread, Function.update_of_ne hje']
    exact h.apart j hj

/-- The block in front is taken. -/
theorem Framed.take (h : Framed bytes wrote taken D) {e e' : ε} {f : φ} {after : List φ}
    (he : D.peer e = some e') (hwrote : wrote e' = taken e ++ f :: after)
    (hpeer : D'.peer = D.peer) (hsent : D'.sent = D.sent)
    (hunread : D'.unread = Function.update D.unread e (after.flatMap bytes)) :
    Framed bytes wrote (Function.update taken e (taken e ++ [f])) D' where
  symm := by
    rw [hpeer]
    exact h.symm
  irrefl := by
    rw [hpeer]
    exact h.irrefl
  sent := by
    rw [hsent]
    exact h.sent
  joined j k hj := by
    rw [hpeer] at hj
    rw [hunread]
    by_cases hje : j = e
    · subst hje
      obtain rfl := Option.some.inj (he.symm.trans hj)
      refine ⟨after, ?_, ?_⟩
      · rw [Function.update_self, hwrote, List.append_assoc, List.singleton_append]
      · rw [Function.update_self]
    · rw [Function.update_of_ne hje, Function.update_of_ne hje]
      exact h.joined j k hj
  apart j hj := by
    rw [hpeer] at hj
    have hje : j ≠ e := by
      rintro rfl
      cases he.symm.trans hj
    rw [hunread, Function.update_of_ne hje, Function.update_of_ne hje]
    exact h.apart j hj

end Duplex

end Npp.Foundation
