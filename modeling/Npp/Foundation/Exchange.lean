import Npp.Foundation.Machine
import Mathlib.Data.List.Nodup

/-!
# An exchange: offers and takers in order of arrival

The purpose of a bounded channel without its bound. Offers carry a value and queue up, takers
queue up, and the oldest offer meets the oldest taker as soon as both exist. An offer or a taker
may leave while it is still queued.

The state keeps a ledger of everything that arrived, left or was paired. `Balanced` is the
conservation law that every step keeps: what was paired, followed by what is still queued, is what
arrived, in the order of arrival, less what left.
-/

namespace Npp.Foundation

variable {ι V : Type*}

structure Exchange (ι V : Type*) where
  offers : List (ι × V) := []
  takers : List ι := []
  offered : List (ι × V) := []
  asked : List ι := []
  revoked : List ι := []
  departed : List ι := []
  paired : List (ι × ι × V) := []

namespace Exchange

inductive Label (ι V : Type*) where
  | offer (i : ι) (v : V)
  | ask (t : ι)
  | revoke (i : ι)
  | depart (t : ι)

/-- An arriving offer goes to the oldest taker, or queues. -/
def offer (x : Exchange ι V) (i : ι) (v : V) : Exchange ι V :=
  match x.takers with
  | [] => { x with offers := x.offers ++ [(i, v)], offered := x.offered ++ [(i, v)] }
  | t :: ts =>
      { x with takers := ts, offered := x.offered ++ [(i, v)], paired := x.paired ++ [(t, i, v)] }

/-- An arriving taker takes the oldest offer, or queues. -/
def ask (x : Exchange ι V) (t : ι) : Exchange ι V :=
  match x.offers with
  | [] => { x with takers := x.takers ++ [t], asked := x.asked ++ [t] }
  | o :: os => { x with offers := os, asked := x.asked ++ [t], paired := x.paired ++ [(t, o)] }

theorem offer_queued {x : Exchange ι V} {i : ι} {v : V} (h : x.takers = []) :
    x.offer i v =
      { x with offers := x.offers ++ [(i, v)], offered := x.offered ++ [(i, v)] } := by
  simp only [offer, h]

theorem offer_taken {x : Exchange ι V} {i t : ι} {v : V} {ts : List ι} (h : x.takers = t :: ts) :
    x.offer i v = { x with
      takers := ts, offered := x.offered ++ [(i, v)], paired := x.paired ++ [(t, i, v)] } := by
  simp only [offer, h]

theorem ask_queued {x : Exchange ι V} {t : ι} (h : x.offers = []) :
    x.ask t = { x with takers := x.takers ++ [t], asked := x.asked ++ [t] } := by
  simp only [ask, h]

theorem ask_served {x : Exchange ι V} {t : ι} {o : ι × V} {os : List (ι × V)}
    (h : x.offers = o :: os) :
    x.ask t = { x with
      offers := os, asked := x.asked ++ [t], paired := x.paired ++ [(t, o)] } := by
  simp only [ask, h]

/-- A key new to the ledger keeps its keys distinct. -/
theorem nodup_arrival {arrived : List ι} {i : ι} (h : arrived.Nodup) (hi : i ∉ arrived) :
    (arrived ++ [i]).Nodup := by
  rw [List.nodup_append]
  refine ⟨h, List.nodup_singleton i, ?_⟩
  intro a ha b hb hab
  rw [List.mem_singleton] at hb
  exact hi (hb ▸ hab ▸ ha)

variable [DecidableEq ι]

def step (x : Exchange ι V) : Label ι V → Option (Exchange ι V)
  | .offer i v => if i ∈ x.offered.map Prod.fst then none else some (x.offer i v)
  | .ask t => if t ∈ x.asked then none else some (x.ask t)
  | .revoke i =>
      if i ∈ x.offers.map Prod.fst then
        some { x with offers := x.offers.filter (·.1 ≠ i), revoked := x.revoked ++ [i] }
      else none
  | .depart t =>
      if t ∈ x.takers then
        some { x with takers := x.takers.filter (· ≠ t), departed := x.departed ++ [t] }
      else none

def machine (ι V : Type*) [DecidableEq ι] : Machine (Exchange ι V) (Label ι V) where
  init := {}
  step := step

/-- What holds between the queues and the ledger in every reachable exchange. -/
structure Balanced (x : Exchange ι V) : Prop where
  one_side : x.offers = [] ∨ x.takers = []
  offered_nodup : (x.offered.map Prod.fst).Nodup
  asked_nodup : x.asked.Nodup
  revoked_offered : ∀ i ∈ x.revoked, i ∈ x.offered.map Prod.fst
  departed_asked : ∀ t ∈ x.departed, t ∈ x.asked
  values : x.paired.map Prod.snd ++ x.offers = x.offered.filter (·.1 ∉ x.revoked)
  takers : x.paired.map Prod.fst ++ x.takers = x.asked.filter (· ∉ x.departed)

theorem Balanced.paired_offers_nodup {x : Exchange ι V} (h : x.Balanced) :
    ((x.paired.map Prod.snd ++ x.offers).map Prod.fst).Nodup := by
  rw [h.values]
  exact h.offered_nodup.sublist (List.Sublist.map _ List.filter_sublist)

theorem Balanced.paired_takers_nodup {x : Exchange ι V} (h : x.Balanced) :
    (x.paired.map Prod.fst ++ x.takers).Nodup := by
  rw [h.takers]
  exact h.asked_nodup.sublist List.filter_sublist

/-- Where nothing leaves before it is paired, the `k`-th taker has the `k`-th offer. -/
theorem Balanced.paired_eq_zip {x : Exchange ι V} (h : x.Balanced) (hrevoked : x.revoked = [])
    (hdeparted : x.departed = []) : x.paired = x.asked.zip x.offered := by
  have hoffered : x.offered = x.paired.map Prod.snd ++ x.offers := by
    rw [h.values, hrevoked]
    simp
  have hasked : x.asked = x.paired.map Prod.fst ++ x.takers := by
    rw [h.takers, hdeparted]
    simp
  have hrest : x.takers.zip x.offers = [] := by
    rcases h.one_side with hnone | hnone <;> simp [hnone]
  rw [hasked, hoffered, List.zip_append (by simp), hrest, List.append_nil]
  exact List.zip_of_prod rfl rfl

/-- An arrival that is new to the ledger extends the arrivals that stayed. -/
theorem filter_arrival {α : Type*} (key : α → ι) {arrived : List α} {left : List ι} {a : α}
    (hleft : ∀ i ∈ left, i ∈ arrived.map key) (ha : key a ∉ arrived.map key) :
    (arrived ++ [a]).filter (key · ∉ left) = arrived.filter (key · ∉ left) ++ [a] := by
  have hstay : key a ∉ left := fun hmem => ha (hleft _ hmem)
  simp [List.filter_append, hstay]

/-- A departure removes its one arrival, which is not among those already paired. -/
theorem filter_departure {α : Type*} (key : α → ι) {arrived paired queued : List α}
    {left : List ι} {i : ι}
    (hsplit : paired ++ queued = arrived.filter (key · ∉ left))
    (hnodup : ((paired ++ queued).map key).Nodup) (hi : i ∈ queued.map key) :
    paired ++ queued.filter (key · ≠ i) = arrived.filter (key · ∉ left ++ [i]) := by
  have hpaired : paired.filter (key · ≠ i) = paired := by
    rw [List.filter_eq_self]
    intro a ha
    rw [List.map_append, List.nodup_append] at hnodup
    simpa using hnodup.2.2 (key a) (List.mem_map_of_mem ha) i hi
  calc paired ++ queued.filter (key · ≠ i)
      = (paired ++ queued).filter (key · ≠ i) := by rw [List.filter_append, hpaired]
    _ = arrived.filter (key · ∉ left ++ [i]) := by
        rw [hsplit, List.filter_filter]
        apply List.filter_congr
        intro a _
        simp only [List.mem_append, List.mem_singleton, not_or]
        by_cases h₁ : key a = i <;> by_cases h₂ : key a ∈ left <;> simp [h₁, h₂]

theorem offer_balanced {x : Exchange ι V} (h : x.Balanced) {i : ι} {v : V}
    (hi : i ∉ x.offered.map Prod.fst) : (x.offer i v).Balanced := by
  have hnodup : ((x.offered ++ [(i, v)]).map Prod.fst).Nodup := by
    simpa using nodup_arrival h.offered_nodup hi
  have hrevoked : ∀ j ∈ x.revoked, j ∈ (x.offered ++ [(i, v)]).map Prod.fst := by
    intro j hj
    rw [List.map_append]
    exact List.mem_append_left _ (h.revoked_offered j hj)
  have hvalues := filter_arrival Prod.fst (a := (i, v)) h.revoked_offered hi
  cases htakers : x.takers with
  | nil =>
      rw [offer_queued htakers]
      refine ⟨Or.inr htakers, hnodup, h.asked_nodup, hrevoked, h.departed_asked, ?_, h.takers⟩
      change x.paired.map Prod.snd ++ (x.offers ++ [(i, v)]) = _
      rw [hvalues, ← h.values, List.append_assoc]
  | cons t ts =>
      have hoffers : x.offers = [] := h.one_side.resolve_right (by simp [htakers])
      have hval := h.values
      have htake := h.takers
      rw [hoffers, List.append_nil] at hval
      rw [htakers] at htake
      rw [offer_taken htakers]
      refine ⟨Or.inl hoffers, hnodup, h.asked_nodup, hrevoked, h.departed_asked, ?_, ?_⟩
      · change (x.paired ++ [(t, i, v)]).map Prod.snd ++ x.offers = _
        rw [hvalues, ← hval, hoffers]
        simp
      · change (x.paired ++ [(t, i, v)]).map Prod.fst ++ ts = _
        rw [← htake]
        simp

theorem ask_balanced {x : Exchange ι V} (h : x.Balanced) {t : ι} (ht : t ∉ x.asked) :
    (x.ask t).Balanced := by
  have hnodup : (x.asked ++ [t]).Nodup := nodup_arrival h.asked_nodup ht
  have hdeparted : ∀ j ∈ x.departed, j ∈ x.asked ++ [t] :=
    fun j hj => List.mem_append_left _ (h.departed_asked j hj)
  have hasked : (x.asked ++ [t]).filter (· ∉ x.departed) =
      x.asked.filter (· ∉ x.departed) ++ [t] :=
    filter_arrival id (by simpa using h.departed_asked) (by simpa using ht)
  cases hoffers : x.offers with
  | nil =>
      rw [ask_queued hoffers]
      refine ⟨Or.inl hoffers, h.offered_nodup, hnodup, h.revoked_offered, hdeparted, h.values, ?_⟩
      change x.paired.map Prod.fst ++ (x.takers ++ [t]) = _
      rw [hasked, ← h.takers, List.append_assoc]
  | cons o os =>
      have hnone : x.takers = [] := h.one_side.resolve_left (by simp [hoffers])
      have hval := h.values
      have htake := h.takers
      rw [hoffers] at hval
      rw [hnone, List.append_nil] at htake
      rw [ask_served hoffers]
      refine ⟨Or.inr hnone, h.offered_nodup, hnodup, h.revoked_offered, hdeparted, ?_, ?_⟩
      · change (x.paired ++ [(t, o)]).map Prod.snd ++ os = _
        rw [← hval]
        simp
      · change (x.paired ++ [(t, o)]).map Prod.fst ++ x.takers = _
        rw [hasked, ← htake, hnone]
        simp

theorem step_balanced {x y : Exchange ι V} {l : Label ι V} (h : x.Balanced)
    (hstep : x.step l = some y) : y.Balanced := by
  cases l with
  | offer i v =>
      by_cases hi : i ∈ x.offered.map Prod.fst
      · simp only [step, if_pos hi, reduceCtorEq] at hstep
      · simp only [step, if_neg hi, Option.some.injEq] at hstep
        exact hstep ▸ offer_balanced h hi
  | ask t =>
      by_cases ht : t ∈ x.asked
      · simp [step, ht] at hstep
      · simp only [step, if_neg ht, Option.some.injEq] at hstep
        exact hstep ▸ ask_balanced h ht
  | revoke i =>
      by_cases hi : i ∈ x.offers.map Prod.fst
      · simp only [step, if_pos hi, Option.some.injEq] at hstep
        subst hstep
        have hmem : i ∈ x.offered.map Prod.fst := by
          have hsub : x.offers ⊆ x.offered := by
            intro o ho
            have : o ∈ x.offered.filter (·.1 ∉ x.revoked) := by
              rw [← h.values]; exact List.mem_append_right _ ho
            exact List.mem_of_mem_filter this
          exact List.map_subset Prod.fst hsub hi
        refine ⟨?_, h.offered_nodup, h.asked_nodup, ?_, h.departed_asked, ?_, h.takers⟩
        · exact h.one_side.imp (fun ho => by simp [ho]) id
        · intro j hj
          rcases List.mem_append.mp hj with hj | hj
          · exact h.revoked_offered j hj
          · exact List.mem_singleton.mp hj ▸ hmem
        · exact filter_departure Prod.fst h.values h.paired_offers_nodup hi
      · simp only [step, if_neg hi, reduceCtorEq] at hstep
  | depart t =>
      by_cases ht : t ∈ x.takers
      · simp only [step, if_pos ht, Option.some.injEq] at hstep
        subst hstep
        have hmem : t ∈ x.asked := by
          have : t ∈ x.asked.filter (· ∉ x.departed) := by
            rw [← h.takers]; exact List.mem_append_right _ ht
          exact List.mem_of_mem_filter this
        refine ⟨?_, h.offered_nodup, h.asked_nodup, h.revoked_offered, ?_, h.values, ?_⟩
        · exact h.one_side.imp id (fun hs => by simp [hs])
        · intro j hj
          rcases List.mem_append.mp hj with hj | hj
          · exact h.departed_asked j hj
          · exact List.mem_singleton.mp hj ▸ hmem
        · exact filter_departure id h.takers (by simpa using h.paired_takers_nodup)
            (by simpa using ht)
      · simp [step, ht] at hstep

end Exchange

end Npp.Foundation
