import Mathlib.Data.List.Basic
import Mathlib.Order.Lattice

/-!
# Chains of intervals

Half-open intervals in a row, each from where the one before has ended or from later on. No point is
in two intervals of a chain, and the lengths add up to no more than the chain spans.
-/

namespace Npp.Foundation

/-- The intervals stand in a row between `lo` and `hi`. -/
def Chain {α : Type*} [LE α] : α → List (α × α) → α → Prop
  | lo, [], hi => lo ≤ hi
  | lo, i :: is, hi => lo ≤ i.1 ∧ i.1 ≤ i.2 ∧ Chain i.2 is hi

namespace Chain

section Preorder

variable {α : Type*} [Preorder α] {lo mid hi : α} {is js : List (α × α)}

theorem append (his : Chain lo is mid) (hjs : Chain mid js hi) : Chain lo (is ++ js) hi := by
  induction is generalizing lo with
  | nil =>
      cases js with
      | nil => exact le_trans his hjs
      | cons j js => exact ⟨le_trans his hjs.1, hjs.2⟩
  | cons i is ih => exact ⟨his.1, his.2.1, ih his.2.2⟩

theorem mono (h : Chain lo is mid) (hle : mid ≤ hi) : Chain lo is hi := by
  have hnil : Chain mid ([] : List (α × α)) hi := hle
  have happend := h.append hnil
  rwa [List.append_nil] at happend

theorem snoc (h : Chain lo is mid) (hle : mid ≤ hi) : Chain lo (is ++ [(mid, hi)]) hi :=
  h.append ⟨le_refl mid, hle, le_refl hi⟩

end Preorder

variable {α : Type*} [LinearOrder α] {lo hi x : α} {is : List (α × α)}

def covers (x : α) (i : α × α) : Bool := decide (i.1 ≤ x) && decide (x < i.2)

theorem not_covers_of_lt (h : Chain lo is hi) (hx : x < lo) : is.countP (covers x) = 0 := by
  induction is generalizing lo with
  | nil => rfl
  | cons i is ih =>
      obtain ⟨hlo, hle, hrest⟩ := h
      have hbefore : x < i.1 := lt_of_lt_of_le hx hlo
      have hfirst : covers x i = false := by simp [covers, hbefore]
      rw [List.countP_cons_of_neg (by rw [hfirst]; exact Bool.false_ne_true)]
      exact ih hrest (lt_of_lt_of_le hbefore hle)

/-- No point is in two of the intervals. -/
theorem countP_covers_le_one (h : Chain lo is hi) (x : α) : is.countP (covers x) ≤ 1 := by
  induction is generalizing lo with
  | nil => exact Nat.zero_le 1
  | cons i is ih =>
      rw [List.countP_cons]
      rcases lt_or_ge x i.2 with hlt | hge
      · rw [not_covers_of_lt h.2.2 hlt]
        split <;> decide
      · have hfirst : covers x i = false := by simp [covers, hge]
        rw [hfirst]
        exact ih h.2.2

end Chain

def totalLength : List (ℕ × ℕ) → ℕ
  | [] => 0
  | i :: is => (i.2 - i.1) + totalLength is

theorem totalLength_snoc (is : List (ℕ × ℕ)) (i : ℕ × ℕ) :
    totalLength (is ++ [i]) = totalLength is + (i.2 - i.1) := by
  induction is with
  | nil => exact Nat.add_comm _ _
  | cons j is ih =>
      show (j.2 - j.1) + totalLength (is ++ [i]) = _
      rw [ih, ← Nat.add_assoc]
      rfl

theorem Chain.totalLength_le {lo hi : ℕ} {is : List (ℕ × ℕ)} (h : Chain lo is hi) :
    lo + totalLength is ≤ hi := by
  induction is generalizing lo with
  | nil => exact h
  | cons i is ih =>
      obtain ⟨hlo, hle, hrest⟩ := h
      have hbound := ih hrest
      show lo + ((i.2 - i.1) + totalLength is) ≤ hi
      omega

end Npp.Foundation
