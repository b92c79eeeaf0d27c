import Mathlib.Logic.Function.Basic

/-!
# Handles that are used again

A table gives objects under handles, and a handle is free again once its object is closed. Names
for handles are kept in another place, and a handle that was looked up under a name stays in
somebody's hands for a while. `Sound` says that neither leads to an object of somebody else. The
rules say what each change of the table asks for, as equivalences where the change can break it.
-/

namespace Npp.Foundation

structure HandleTable (κ η ω : Type*) where
  table : η → Option ω
  name : κ → Option η
  /-- The handle is in use by somebody who looked it up under the name. -/
  held : κ → η → Prop

namespace HandleTable

variable {κ η ω : Type*} {owns : ω → κ → Prop} {T T' : HandleTable κ η ω} {h : η} {o : ω}

/-- Every name leads to an object that it owns, and so does every handle in use, unless its object
is closed. -/
structure Sound (owns : ω → κ → Prop) (T : HandleTable κ η ω) : Prop where
  named : ∀ k h, T.name k = some h → ∃ o, T.table h = some o ∧ owns o k
  held : ∀ k h o, T.held k h → T.table h = some o → owns o k

theorem sound_empty (hname : ∀ k, T.name k = none) (hheld : ∀ k h, ¬ T.held k h) :
    Sound owns T := by
  constructor
  · intro k h hk
    rw [hname] at hk
    cases hk
  · intro k h o hk
    exact absurd hk (hheld k h)

/-- Forgetting names is safe, and so is looking handles up and giving them back. -/
theorem Sound.lookup (hs : Sound owns T) (htable : T'.table = T.table)
    (hname : ∀ k j, T'.name k = some j → T.name k = some j)
    (hheld : ∀ k j, T'.held k j → T.held k j ∨ T.name k = some j) : Sound owns T' := by
  constructor
  · intro k j hk
    rw [htable]
    exact hs.named k j (hname k j hk)
  · intro k j o hk ho
    rw [htable] at ho
    rcases hheld k j hk with hold | hnamed
    · exact hs.held k j o hold ho
    · obtain ⟨o', ho', howns⟩ := hs.named k j hnamed
      obtain rfl : o' = o := Option.some.inj (ho'.symm.trans ho)
      exact howns

variable [DecidableEq η]

/-- An object may be replaced by one that at least the same names own. -/
theorem Sound.replace (hs : Sound owns T) {o' : ω} (hold : T.table h = some o)
    (hgrow : ∀ k, owns o k → owns o' k)
    (htable : T'.table = Function.update T.table h (some o'))
    (hname : ∀ k j, T'.name k = some j → T.name k = some j ∨ (j = h ∧ owns o' k))
    (hheld : ∀ k j, T'.held k j → T.held k j) : Sound owns T' := by
  constructor
  · intro k j hk
    rw [htable]
    by_cases hj : j = h
    · subst hj
      refine ⟨o', Function.update_self _ _ _, ?_⟩
      rcases hname k j hk with hk | ⟨-, howns⟩
      · obtain ⟨p, hp, howns⟩ := hs.named k j hk
        obtain rfl : o = p := Option.some.inj (hold.symm.trans hp)
        exact hgrow k howns
      · exact howns
    · rw [Function.update_of_ne hj]
      rcases hname k j hk with hk | ⟨hk, -⟩
      · exact hs.named k j hk
      · exact absurd hk hj
  · intro k j p hk hp
    rw [htable] at hp
    by_cases hj : j = h
    · subst hj
      rw [Function.update_self] at hp
      obtain rfl := Option.some.inj hp
      exact hgrow k (hs.held k j o (hheld k j hk) hold)
    · rw [Function.update_of_ne hj] at hp
      exact hs.held k j p (hheld k j hk) hp

/-- A free handle may be given to an object exactly when everybody who still holds the handle owns
the new object. -/
theorem sound_open_iff (hs : Sound owns T) (hfree : T.table h = none)
    (htable : T'.table = Function.update T.table h (some o))
    (hname : ∀ k j, T'.name k = some j → T.name k = some j ∨ (j = h ∧ owns o k))
    (hheld : ∀ k j, T'.held k j → T.held k j ∨ (j = h ∧ owns o k))
    (hkeep : ∀ k j, T.held k j → T'.held k j) :
    Sound owns T' ↔ ∀ k, T.held k h → owns o k := by
  constructor
  · intro hs' k hk
    apply hs'.held k h o (hkeep k h hk)
    rw [htable, Function.update_self]
  · intro hholders
    constructor
    · intro k j hk
      rw [htable]
      rcases hname k j hk with hk | ⟨rfl, howns⟩
      · obtain ⟨p, hp, howns⟩ := hs.named k j hk
        have hj : j ≠ h := by
          rintro rfl
          rw [hfree] at hp
          cases hp
        exact ⟨p, by rw [Function.update_of_ne hj, hp], howns⟩
      · exact ⟨o, Function.update_self _ _ _, howns⟩
    · intro k j p hk hp
      rw [htable] at hp
      by_cases hj : j = h
      · subst hj
        rw [Function.update_self] at hp
        obtain rfl := Option.some.inj hp
        rcases hheld k j hk with hk | ⟨-, howns⟩
        · exact hholders k hk
        · exact howns
      · rw [Function.update_of_ne hj] at hp
        rcases hheld k j hk with hk | ⟨hk, -⟩
        · exact hs.held k j p hk hp
        · exact absurd hk hj

/-- A handle may be closed exactly when no name is left for it. -/
theorem sound_close_iff (hs : Sound owns T)
    (htable : T'.table = Function.update T.table h none)
    (hname : ∀ k j, T'.name k = some j → T.name k = some j ∨ j = h)
    (hheld : ∀ k j, T'.held k j → T.held k j) :
    Sound owns T' ↔ ∀ k, T'.name k ≠ some h := by
  constructor
  · intro hs' k hk
    obtain ⟨o, ho, -⟩ := hs'.named k h hk
    rw [htable, Function.update_self] at ho
    cases ho
  · intro hunnamed
    constructor
    · intro k j hk
      have hj : j ≠ h := by
        rintro rfl
        exact hunnamed k hk
      rw [htable, Function.update_of_ne hj]
      rcases hname k j hk with hk | hk
      · exact hs.named k j hk
      · exact absurd hk hj
    · intro k j o hk ho
      have hj : j ≠ h := by
        rintro rfl
        rw [htable, Function.update_self] at ho
        cases ho
      rw [htable, Function.update_of_ne hj] at ho
      exact hs.held k j o (hheld k j hk) ho

end HandleTable

end Npp.Foundation
