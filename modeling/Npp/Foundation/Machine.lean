import Mathlib.Data.List.Induction
import Mathlib.Data.List.Perm.Basic
import Mathlib.Algebra.Ring.Nat

/-!
# Labelled machines and their finite runs

A machine has one initial state and a partial step function. Whatever the environment decides
(which thread moves next, what a call returns) is part of the label, so a run is a list of
labels and can be evaluated. `Runs` quantifies over every interleaving by quantifying over
every list of labels.

Four rules carry the whole-run results: `Runs.invariant` (what every step preserves),
`Runs.guarded` (what every step meeting a condition preserves), `Runs.meets_iff_good` with its two
special cases (a condition that is exactly what the steps need) and `Simulation.runs` (what an
abstract machine knows about a concrete one). `CanReach` is about the runs that may follow.
-/

namespace Npp.Foundation

/-- A deterministic step function over labelled events. -/
structure Machine (σ ε : Type*) where
  init : σ
  step : σ → ε → Option σ

namespace Machine

variable {σ ε τ δ : Type*} {M : Machine σ ε}

/-- Take the labelled steps one after the other; `none` once a step is not possible. -/
def runFrom (M : Machine σ ε) : σ → List ε → Option σ
  | s, [] => some s
  | s, e :: es => (M.step s e).bind (M.runFrom · es)

/-- The labels `es` lead from the initial state to `s`. -/
def Runs (M : Machine σ ε) (es : List ε) (s : σ) : Prop :=
  M.runFrom M.init es = some s

@[simp] theorem runFrom_singleton (s : σ) (e : ε) : M.runFrom s [e] = M.step s e := by
  simp [runFrom]

theorem runFrom_append (s : σ) (xs ys : List ε) :
    M.runFrom s (xs ++ ys) = (M.runFrom s xs).bind (M.runFrom · ys) := by
  induction xs generalizing s with
  | nil => rfl
  | cons e xs ih =>
      simp only [List.cons_append, runFrom]
      cases hstep : M.step s e with
      | none => rfl
      | some s' => simpa using ih s'

theorem runFrom_snoc {s t : σ} {es : List ε} {e : ε} :
    M.runFrom s (es ++ [e]) = some t ↔
      ∃ mid, M.runFrom s es = some mid ∧ M.step mid e = some t := by
  simp [runFrom_append, Option.bind_eq_some_iff, runFrom]

theorem runs_snoc {es : List ε} {e : ε} {t : σ} :
    M.Runs (es ++ [e]) t ↔ ∃ s, M.Runs es s ∧ M.step s e = some t :=
  runFrom_snoc

theorem runs_append {xs ys : List ε} {t : σ} :
    M.Runs (xs ++ ys) t ↔ ∃ s, M.Runs xs s ∧ M.runFrom s ys = some t := by
  simp [Runs, runFrom_append, Option.bind_eq_some_iff]

/-- Induction over a run from its end. -/
theorem Runs.induction {P : List ε → σ → Prop} (init : P [] M.init)
    (step : ∀ es s e s', M.Runs es s → P es s → M.step s e = some s' → P (es ++ [e]) s')
    {es : List ε} {s : σ} (h : M.Runs es s) : P es s := by
  induction es using List.reverseRecOn generalizing s with
  | nil => exact Option.some.inj h ▸ init
  | append_singleton es e ih =>
      obtain ⟨mid, hmid, hstep⟩ := runs_snoc.mp h
      exact step es mid e s hmid (ih hmid) hstep

/-- What the initial state satisfies and every step preserves holds along every run from a
state that satisfies it. -/
theorem runFrom_invariant {I : σ → Prop}
    (step : ∀ s e s', I s → M.step s e = some s' → I s')
    {s t : σ} {es : List ε} (hs : I s) (h : M.runFrom s es = some t) : I t := by
  induction es generalizing s with
  | nil => simpa [runFrom] using Option.some.inj h ▸ hs
  | cons e es ih =>
      obtain ⟨mid, hmid, hrest⟩ := Option.bind_eq_some_iff.mp h
      exact ih (step s e mid hs hmid) hrest

theorem Runs.invariant {I : σ → Prop} (init : I M.init)
    (step : ∀ s e s', I s → M.step s e = some s' → I s')
    {es : List ε} {s : σ} (h : M.Runs es s) : I s :=
  runFrom_invariant step init h

/-- Every step of the run meets `C`, a condition on the state before the step and its label. -/
def Meets (M : Machine σ ε) (C : σ → ε → Prop) : σ → List ε → Prop
  | _, [] => True
  | s, e :: es => C s e ∧ ∀ s', M.step s e = some s' → M.Meets C s' es

instance Meets.decidable (C : σ → ε → Prop) [∀ s e, Decidable (C s e)] :
    ∀ s es, Decidable (M.Meets C s es)
  | _, [] => .isTrue trivial
  | s, e :: es =>
      match h : M.step s e with
      | none => decidable_of_iff (C s e) (by simp [Meets, h])
      | some s' =>
          have := Meets.decidable C s' es
          decidable_of_iff (C s e ∧ M.Meets C s' es) (by simp [Meets, h])

theorem meets_snoc {C : σ → ε → Prop} {s t : σ} {es : List ε} {e : ε}
    (h : M.runFrom s es = some t) :
    M.Meets C s (es ++ [e]) ↔ M.Meets C s es ∧ C t e := by
  induction es generalizing s with
  | nil =>
      obtain rfl : s = t := Option.some.inj h
      simp [Meets]
  | cons x es ih =>
      obtain ⟨mid, hmid, hrest⟩ := Option.bind_eq_some_iff.mp h
      simp only [List.cons_append, Meets, hmid, Option.some.injEq, forall_eq', ih hrest]
      tauto

theorem Meets.of_append {C : σ → ε → Prop} {s : σ} {xs ys : List ε}
    (h : M.Meets C s (xs ++ ys)) : M.Meets C s xs := by
  induction xs generalizing s with
  | nil => trivial
  | cons e xs ih => exact ⟨h.1, fun s' hs' => ih (h.2 s' hs')⟩

theorem Meets.and {C D : σ → ε → Prop} {s : σ} {es : List ε} (hC : M.Meets C s es)
    (hD : M.Meets D s es) : M.Meets (fun s e => C s e ∧ D s e) s es := by
  induction es generalizing s with
  | nil => trivial
  | cons e es ih => exact ⟨⟨hC.1, hD.1⟩, fun s' hs' => ih (hC.2 s' hs') (hD.2 s' hs')⟩

theorem Meets.mono {C D : σ → ε → Prop} {s : σ} {es : List ε} (h : M.Meets C s es)
    (hCD : ∀ s e, C s e → D s e) : M.Meets D s es := by
  induction es generalizing s with
  | nil => trivial
  | cons e es ih => exact ⟨hCD s e h.1, fun s' hs' => ih (h.2 s' hs')⟩

/-- A condition on labels alone is met exactly when every label satisfies it. -/
theorem meets_of_forall {P : ε → Prop} {es : List ε} (h : ∀ e ∈ es, P e) (s : σ) :
    M.Meets (fun _ e => P e) s es := by
  induction es generalizing s with
  | nil => trivial
  | cons e es ih =>
      exact ⟨h e List.mem_cons_self, fun s' _ =>
        ih (fun x hx => h x (List.mem_cons_of_mem _ hx)) s'⟩

/-- What every step meeting `C` preserves holds at the end of every run whose steps meet `C`. -/
theorem Runs.guarded {I : σ → Prop} {C : σ → ε → Prop} (init : I M.init)
    (step : ∀ s e s', I s → C s e → M.step s e = some s' → I s')
    {es : List ε} {s : σ} (h : M.Runs es s) (hC : M.Meets C M.init es) : I s := by
  -- from the front, so that what is left of the run still meets `C`
  suffices go : ∀ (es : List ε) (a : σ), I a → M.runFrom a es = some s →
      M.Meets C a es → I s from go es M.init init h hC
  intro es
  induction es with
  | nil => intro a ha hrun _; exact Option.some.inj hrun ▸ ha
  | cons e es ih =>
      intro a ha hrun hmeets
      obtain ⟨mid, hmid, hrest⟩ := Option.bind_eq_some_iff.mp hrun
      exact ih mid (step a e mid ha hmeets.1 hmid) hrest (hmeets.2 mid hmid)

/-- A run whose steps meet `C` and lead further down is no longer than the way. -/
theorem Runs.guarded_length {I : σ → Prop} {C : σ → ε → Prop} (measure : σ → ℕ) (init : I M.init)
    (step : ∀ s e s', I s → C s e → M.step s e = some s' → I s' ∧ measure s' < measure s)
    {es : List ε} {s : σ} (h : M.Runs es s) (hC : M.Meets C M.init es) :
    es.length + measure s ≤ measure M.init := by
  induction es using List.reverseRecOn generalizing s with
  | nil =>
      obtain rfl : M.init = s := Option.some.inj h
      exact Nat.le_of_eq (Nat.zero_add _)
  | append_singleton es e ih =>
      obtain ⟨mid, hmid, hstep⟩ := runs_snoc.mp h
      obtain ⟨hmeets, hc⟩ := (meets_snoc hmid).mp hC
      have hinv : I mid :=
        hmid.guarded init (fun a x a' ha hx hax => (step a x a' ha hx hax).1) hmeets
      have hlt := (step mid e s hinv hc hstep).2
      have hle := ih hmid hmeets
      rw [List.length_append, List.length_singleton]
      omega

/-- A run that does not meet `C` has a first step that breaks it. -/
theorem Runs.exists_breach {C : σ → ε → Prop} {es : List ε} {t : σ}
    (h : M.Runs es t) (hC : ¬ M.Meets C M.init es) :
    ∃ pre e post s s', es = pre ++ e :: post ∧ M.Runs pre s ∧ M.Meets C M.init pre ∧
      ¬ C s e ∧ M.step s e = some s' ∧ M.runFrom s' post = some t := by
  induction es using List.reverseRecOn generalizing t with
  | nil => exact absurd trivial hC
  | append_singleton es e ih =>
      obtain ⟨s, hs, hstep⟩ := runs_snoc.mp h
      by_cases hpre : M.Meets C M.init es
      · have hbreak : ¬ C s e := fun hc => hC ((meets_snoc hs).mpr ⟨hpre, hc⟩)
        exact ⟨es, e, [], s, t, rfl, hs, hpre, hbreak, hstep, rfl⟩
      · obtain ⟨pre, x, post, a, a', rfl, ha, hmeets, hx, hax, hrest⟩ := ih hs hpre
        refine ⟨pre, x, post ++ [e], a, a', by simp, ha, hmeets, hx, hax, ?_⟩
        exact runFrom_snoc.mpr ⟨s, hrest, hstep⟩

/-- Where steps that meet `C` keep `I` and a step that does not leaves `G`, a run stays in `G`
exactly when all its steps meet `C`. -/
theorem Runs.meets_iff_good {I G : σ → Prop} {C : σ → ε → Prop} (init : I M.init)
    (keep : ∀ s e s', I s → C s e → M.step s e = some s' → I s')
    (breach : ∀ s e s', I s → ¬ C s e → M.step s e = some s' → ¬ G s')
    (good : ∀ s, I s → G s) {es : List ε} {s : σ} (h : M.Runs es s) :
    M.Meets C M.init es ↔ ∀ pre t, pre <+: es → M.Runs pre t → G t := by
  constructor
  · rintro hmeets pre t ⟨post, rfl⟩ ht
    exact good t (ht.guarded init keep hmeets.of_append)
  · intro hall
    -- the first step that breaks `C` leaves `G`
    by_contra hbreach
    obtain ⟨pre, e, post, t, t', rfl, ht, hmeets, hc, hstep, -⟩ := h.exists_breach hbreach
    have hI : I t := ht.guarded init keep hmeets
    have hnext : M.Runs (pre ++ [e]) t' := runs_snoc.mpr ⟨t, ht, hstep⟩
    apply breach t e t' hI hc hstep
    exact hall (pre ++ [e]) t' ⟨post, by simp⟩ hnext

/-- Where one step keeps `I` exactly when it meets `C`, a run stays in `I` exactly when all its
steps meet `C`. -/
theorem Runs.meets_iff {I : σ → Prop} {C : σ → ε → Prop} (init : I M.init)
    (step : ∀ s e s', I s → M.step s e = some s' → (I s' ↔ C s e))
    {es : List ε} {s : σ} (h : M.Runs es s) :
    M.Meets C M.init es ↔ ∀ pre t, pre <+: es → M.Runs pre t → I t := by
  apply h.meets_iff_good init
  · intro s e s' hs hc hstep
    exact (step s e s' hs hstep).mpr hc
  · intro s e s' hs hc hstep hI
    exact hc ((step s e s' hs hstep).mp hI)
  · exact fun _ hs => hs

/-- The same for a property `G` that comes down to `I` wherever the invariant `J` holds. -/
theorem Runs.meets_iff_of_invariant {I J G : σ → Prop} {C : σ → ε → Prop} (initJ : J M.init)
    (initI : I M.init) (keep : ∀ s e s', J s → M.step s e = some s' → J s')
    (step : ∀ s e s', J s → I s → M.step s e = some s' → (I s' ↔ C s e))
    (goal : ∀ s, J s → (G s ↔ I s)) {es : List ε} {s : σ} (h : M.Runs es s) :
    M.Meets C M.init es ↔ ∀ pre t, pre <+: es → M.Runs pre t → G t := by
  apply h.meets_iff_good (I := fun s => J s ∧ I s) ⟨initJ, initI⟩
  · rintro s e s' ⟨hJ, hI⟩ hc hstep
    exact ⟨keep s e s' hJ hstep, (step s e s' hJ hI hstep).mpr hc⟩
  · rintro s e s' ⟨hJ, hI⟩ hc hstep hG
    have hI' : I s' := (goal s' (keep s e s' hJ hstep)).mp hG
    exact hc ((step s e s' hJ hI hstep).mp hI')
  · rintro s ⟨hJ, hI⟩
    exact (goal s hJ).mpr hI

/-! ## What later steps do -/

def Occurs (M : Machine σ ε) (C : σ → ε → Prop) : σ → List ε → Prop
  | _, [] => False
  | s, e :: es => C s e ∨ ∃ s', M.step s e = some s' ∧ M.Occurs C s' es

instance Occurs.decidable (C : σ → ε → Prop) [∀ s e, Decidable (C s e)] :
    ∀ s es, Decidable (M.Occurs C s es)
  | _, [] => .isFalse id
  | s, e :: es =>
      match h : M.step s e with
      | none => decidable_of_iff (C s e) (by simp [Occurs, h])
      | some s' =>
          have := Occurs.decidable C s' es
          decidable_of_iff (C s e ∨ M.Occurs C s' es) (by simp [Occurs, h])

/-- What one step opens a later one closes. -/
def Answered {ι : Type*} (M : Machine σ ε) (opens closes : σ → ε → Option ι) : σ → List ε → Prop
  | _, [] => True
  | s, e :: es => ∀ s', M.step s e = some s' →
      (∀ i ∈ opens s e, M.Occurs (fun a x => closes a x = some i) s' es) ∧
        M.Answered opens closes s' es

instance Answered.decidable {ι : Type*} [DecidableEq ι] (opens closes : σ → ε → Option ι) :
    ∀ s es, Decidable (M.Answered opens closes s es)
  | _, [] => .isTrue trivial
  | s, e :: es =>
      match h : M.step s e with
      | none => .isTrue fun s' hs' => by rw [h] at hs'; cases hs'
      | some s' =>
          have := Answered.decidable opens closes s' es
          decidable_of_iff ((∀ i ∈ opens s e, M.Occurs (fun a x => closes a x = some i) s' es) ∧
            M.Answered opens closes s' es) (by simp [Answered, h])

section Occurs

variable {C : σ → ε → Prop} {P : σ → Prop} {s t : σ} {es : List ε}

/-- What is not so at first and is so in the end was made so by a step. -/
theorem Occurs.of_change {I : σ → Prop} (keep : ∀ s e s', I s → M.step s e = some s' → I s')
    (change : ∀ s e s', I s → ¬ P s → M.step s e = some s' → P s' → C s e)
    (hs : I s) (hnot : ¬ P s) (hrun : M.runFrom s es = some t) (ht : P t) : M.Occurs C s es := by
  induction es generalizing s with
  | nil => exact absurd (Option.some.inj hrun ▸ ht) hnot
  | cons e es ih =>
      obtain ⟨mid, hmid, hrest⟩ := Option.bind_eq_some_iff.mp hrun
      by_cases hP : P mid
      · exact Or.inl (change s e mid hs hnot hmid hP)
      · exact Or.inr ⟨mid, hmid, ih (keep s e mid hs hmid) hP hrest⟩

/-- What such a step makes so, and no step undoes, is so in the end. -/
theorem Occurs.holds (h : M.Occurs C s es) (made : ∀ s e s', C s e → M.step s e = some s' → P s')
    (keep : ∀ s e s', P s → M.step s e = some s' → P s') (hrun : M.runFrom s es = some t) :
    P t := by
  induction es generalizing s with
  | nil => exact h.elim
  | cons e es ih =>
      obtain ⟨mid, hmid, hrest⟩ := Option.bind_eq_some_iff.mp hrun
      rcases h with hC | ⟨s', hs', hlater⟩
      · exact runFrom_invariant keep (made s e mid hC hmid) hrest
      · obtain rfl := Option.some.inj (hs'.symm.trans hmid)
        exact ih hlater hrest

end Occurs

/-! ## What can still be reached -/

/-- The machine that takes only the steps that meet `C`. -/
def restrict (M : Machine σ ε) (C : σ → ε → Prop) [∀ s e, Decidable (C s e)] : Machine σ ε where
  init := M.init
  step s e := if C s e then M.step s e else none

section Restrict

variable {C : σ → ε → Prop} [∀ s e, Decidable (C s e)] {s t : σ} {e : ε} {es : List ε}

theorem restrict_step : (M.restrict C).step s e = some t ↔ C s e ∧ M.step s e = some t :=
  Option.ite_none_right_eq_some

theorem restrict_runFrom :
    (M.restrict C).runFrom s es = some t ↔ M.runFrom s es = some t ∧ M.Meets C s es := by
  induction es generalizing s with
  | nil => exact (and_iff_left trivial).symm
  | cons e es ih =>
      simp only [runFrom, Meets, Option.bind_eq_some_iff, restrict_step]
      constructor
      · rintro ⟨mid, ⟨hC, hmid⟩, hrest⟩
        obtain ⟨hrun, hmeets⟩ := ih.mp hrest
        refine ⟨⟨mid, hmid, hrun⟩, hC, fun s' hs' => ?_⟩
        exact Option.some.inj (hmid.symm.trans hs') ▸ hmeets
      · rintro ⟨⟨mid, hmid, hrun⟩, hC, hmeets⟩
        exact ⟨mid, ⟨hC, hmid⟩, ih.mpr ⟨hrun, hmeets mid hmid⟩⟩

end Restrict

/-- Steps with labels in `P` can lead to the goal. -/
def CanReach (M : Machine σ ε) (P : ε → Prop) (goal : σ → Prop) (s : σ) : Prop :=
  ∃ es t, (∀ e ∈ es, P e) ∧ M.runFrom s es = some t ∧ goal t

section CanReach

variable {P : ε → Prop} {goal : σ → Prop} {s s' : σ}

theorem CanReach.here (h : goal s) : M.CanReach P goal s :=
  ⟨[], s, fun _ he => absurd he List.not_mem_nil, rfl, h⟩

theorem CanReach.of_step {e : ε} (h : M.CanReach P goal s') (he : P e)
    (hstep : M.step s e = some s') : M.CanReach P goal s := by
  obtain ⟨es, t, hes, hrun, hgoal⟩ := h
  refine ⟨e :: es, t, ?_, ?_, hgoal⟩
  · intro x hx
    rcases List.mem_cons.mp hx with rfl | hx
    · exact he
    · exact hes x hx
  · rw [runFrom, hstep]
    exact hrun

theorem CanReach.of_runFrom {es : List ε} (h : M.CanReach P goal s') (hes : ∀ e ∈ es, P e)
    (hrun : M.runFrom s es = some s') : M.CanReach P goal s := by
  obtain ⟨ds, t, hds, hrest, hgoal⟩ := h
  refine ⟨es ++ ds, t, ?_, ?_, hgoal⟩
  · intro x hx
    rcases List.mem_append.mp hx with hx | hx
    · exact hes x hx
    · exact hds x hx
  · rw [runFrom_append, hrun]
    exact hrest

theorem CanReach.trans {between : σ → Prop} (h : M.CanReach P between s)
    (hnext : ∀ a, between a → M.CanReach P goal a) : M.CanReach P goal s := by
  obtain ⟨es, t, hes, hrun, ht⟩ := h
  exact (hnext t ht).of_runFrom hes hrun

/-- Where allowed steps always lead to the goal or further down, they lead to the goal. -/
theorem CanReach.of_progress {I : σ → Prop} (measure : σ → ℕ)
    (progress : ∀ a, I a → ∃ es a', (∀ e ∈ es, P e) ∧ M.runFrom a es = some a' ∧
      (goal a' ∨ I a' ∧ measure a' < measure a)) (hs : I s) : M.CanReach P goal s := by
  induction hm : measure s using Nat.strongRecOn generalizing s with
  | _ m ih =>
      obtain ⟨es, s', hes, hrun, hgoal | ⟨hs', hlt⟩⟩ := progress s hs
      · exact (CanReach.here hgoal).of_runFrom hes hrun
      · exact (ih _ (hm ▸ hlt) hs' rfl).of_runFrom hes hrun

theorem CanReach.of_measure {I : σ → Prop} (measure : σ → ℕ)
    (progress : ∀ a, I a → ¬ goal a → ∃ es a', (∀ e ∈ es, P e) ∧ M.runFrom a es = some a' ∧
      I a' ∧ measure a' < measure a) (hs : I s) : M.CanReach P goal s := by
  refine CanReach.of_progress measure (fun a ha => ?_) hs
  by_cases hgoal : goal a
  · exact ⟨[], a, fun _ he => absurd he List.not_mem_nil, rfl, Or.inl hgoal⟩
  · obtain ⟨es, a', hes, hrun, ha', hlt⟩ := progress a ha hgoal
    exact ⟨es, a', hes, hrun, Or.inr ⟨ha', hlt⟩⟩

/-- What the allowed steps keep is kept by all runs that take no other ones. -/
theorem runFrom_kept {I : σ → Prop} (keep : ∀ a e a', I a → P e → M.step a e = some a' → I a')
    {es : List ε} (hs : I s) (hes : ∀ e ∈ es, P e) (h : M.runFrom s es = some s') : I s' := by
  induction es generalizing s with
  | nil => exact Option.some.inj h ▸ hs
  | cons e es ih =>
      obtain ⟨mid, hmid, hrest⟩ := Option.bind_eq_some_iff.mp h
      have hkept : I mid := keep s e mid hs (hes e List.mem_cons_self) hmid
      exact ih hkept (fun x hx => hes x (List.mem_cons_of_mem _ hx)) hrest

theorem not_canReach {I : σ → Prop} (keep : ∀ a e a', I a → P e → M.step a e = some a' → I a')
    (out : ∀ a, I a → ¬ goal a) (hs : I s) : ¬ M.CanReach P goal s := by
  rintro ⟨es, t, hes, hrun, hgoal⟩
  exact out t (runFrom_kept keep hs hes hrun) hgoal

end CanReach

/-- A measure that is summed over many parts, of which one changes. -/
theorem sum_map_set {α : Type*} (f : α → ℕ) {xs : List α} {i : ℕ} {x : α} (hx : xs[i]? = some x)
    (y : α) : ((xs.set i y).map f).sum + f x = (xs.map f).sum + f y := by
  obtain ⟨hi, rfl⟩ := List.getElem?_eq_some_iff.mp hx
  have hbefore := ((List.getElem_cons_eraseIdx_perm hi).map f).sum_nat
  have hafter := ((List.set_perm_cons_eraseIdx hi y).map f).sum_nat
  simp only [List.map_cons, List.sum_cons] at hbefore hafter
  omega

/-! ## Simulation -/

/-- `N` simulates `M` along `R`: a step of `M` that meets `C` is matched by finitely many
steps of `N`, possibly none. -/
structure Simulation (M : Machine σ ε) (N : Machine τ δ) (C : σ → ε → Prop)
    (R : σ → τ → Prop) where
  init : R M.init N.init
  step : ∀ s e s' t, R s t → C s e → M.step s e = some s' →
    ∃ ds t', N.runFrom t ds = some t' ∧ R s' t'

/-- Every guarded run of the simulated machine has a matching run of the simulating one. -/
theorem Simulation.runs {N : Machine τ δ} {C : σ → ε → Prop} {R : σ → τ → Prop}
    (sim : Simulation M N C R) {es : List ε} {s : σ}
    (h : M.Runs es s) (hC : M.Meets C M.init es) : ∃ ds t, N.Runs ds t ∧ R s t := by
  refine Runs.guarded (I := fun s => ∃ ds t, N.Runs ds t ∧ R s t)
    ⟨[], N.init, rfl, sim.init⟩ ?_ h hC
  rintro a e a' ⟨ds, t, hrun, hrel⟩ hc hstep
  obtain ⟨ds', t', hds, hrel'⟩ := sim.step a e a' t hrel hc hstep
  exact ⟨ds ++ ds', t', runs_append.mpr ⟨t, hrun, hds⟩, hrel'⟩

end Machine

end Npp.Foundation
