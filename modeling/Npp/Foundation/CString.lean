import Mathlib.Data.List.Basic
import Mathlib.Data.List.TakeWhile

/-!
# Strings that end with a terminator

A pointer into a memory stands for the cells from there to the first terminator. A string is cut
into pieces in place, by a terminator over each character that separates them; a scan of it keeps
the place behind the last character of a kind.
-/

namespace Npp.Foundation

namespace CString

variable {β : Type*} {nul c : β} {xs ys pre post : List β} {cut : β → Bool} {i : Nat}
  {p : Option Nat}

/-- Terminators over the characters that separate. -/
def blank (nul : β) (cut : β → Bool) (xs : List β) : List β :=
  xs.map fun c => if cut c then nul else c

theorem length_blank (xs : List β) : (blank nul cut xs).length = xs.length := List.length_map _

theorem takeWhile_piece (hxs : ∀ x ∈ xs, cut x = false) (hc : cut c = true) :
    (xs ++ c :: ys).takeWhile (fun c => !cut c) = xs := by
  have hall : ∀ x ∈ xs, (!cut x) = true := fun x hmem => by rw [hxs x hmem, Bool.not_false]
  rw [List.takeWhile_append_of_pos hall, List.takeWhile_cons_of_neg (by simp [hc]),
    List.append_nil]

/-- What stands before a separator is a piece when it has none of its own, and only then. -/
theorem takeWhile_piece_iff (hc : cut c = true) :
    (xs ++ c :: ys).takeWhile (fun c => !cut c) = xs ↔ ∀ x ∈ xs, cut x = false := by
  constructor
  · intro h x hx
    rw [← h] at hx
    have hkept := List.mem_takeWhile_imp hx
    rwa [Bool.not_eq_true'] at hkept
  · exact fun hxs => takeWhile_piece hxs hc

variable [DecidableEq β]

/-- The string at `p`, where there is a terminator. -/
def cString (nul : β) (mem : List β) (p : Nat) : Option (List β) :=
  if nul ∈ mem.drop p then some ((mem.drop p).takeWhile fun c => !decide (c = nul)) else none

/-- The place behind the last `c` of a string that begins at `i`; without one, it is `p`. -/
def behind (c : β) : Nat → List β → Option Nat → Option Nat
  | _, [], p => p
  | i, x :: xs, p => behind c (i + 1) xs (if x = c then some (i + 1) else p)

/-! ## Pieces -/

theorem takeWhile_blank (hnul : nul ∉ xs) :
    (blank nul cut xs ++ nul :: post).takeWhile (fun c => !decide (c = nul)) =
      xs.takeWhile fun c => !cut c := by
  induction xs with
  | nil => exact List.takeWhile_cons_of_neg (by simp)
  | cons x xs ih =>
      have hx : x ≠ nul := fun h => hnul (h ▸ List.mem_cons_self)
      have hrest := ih fun h => hnul (List.mem_cons_of_mem _ h)
      show ((if cut x then nul else x) :: (blank nul cut xs ++ nul :: post)).takeWhile _ = _
      cases hcut : cut x with
      | true =>
          rw [if_pos rfl, List.takeWhile_cons_of_neg (by simp),
            List.takeWhile_cons_of_neg (by simp [hcut])]
      | false =>
          rw [if_neg Bool.false_ne_true, List.takeWhile_cons_of_pos (by simp [hx]),
            List.takeWhile_cons_of_pos (by simp [hcut]), hrest]

/-- From a place in a string that was cut, the text up to the next separator. -/
theorem cString_blank {k : Nat} (hnul : nul ∉ xs) (hk : k ≤ xs.length) :
    cString nul (blank nul cut xs ++ nul :: post) k =
      some ((xs.drop k).takeWhile fun c => !cut c) := by
  have hdrop : (blank nul cut xs ++ nul :: post).drop k =
      blank nul cut (xs.drop k) ++ nul :: post := by
    rw [List.drop_append_of_le_length (by rwa [length_blank])]
    exact congrArg (· ++ _) List.map_drop.symm
  have hrest : nul ∉ xs.drop k := fun h => hnul (List.mem_of_mem_drop h)
  rw [cString, hdrop, if_pos (List.mem_append_right _ List.mem_cons_self), takeWhile_blank hrest]

/-! ## Places -/

theorem behind_append (xs ys : List β) :
    behind c i (xs ++ ys) p = behind c (i + xs.length) ys (behind c i xs p) := by
  induction xs generalizing i p with
  | nil => rfl
  | cons x xs ih =>
      rw [List.cons_append, behind, ih, behind, List.length_cons, Nat.add_right_comm, Nat.add_assoc]

theorem behind_of_not_mem (h : c ∉ xs) : behind c i xs p = p := by
  induction xs generalizing i with
  | nil => rfl
  | cons x xs ih =>
      have hx : x ≠ c := fun heq => h (heq ▸ List.mem_cons_self)
      rw [behind, if_neg hx]
      exact ih fun hmem => h (List.mem_cons_of_mem _ hmem)

/-- The last one of its kind. -/
theorem behind_last (h : c ∉ ys) :
    behind c i (xs ++ c :: ys) p = some (i + xs.length + 1) := by
  rw [behind_append, behind, if_pos rfl, behind_of_not_mem h]

theorem behind_le {k : Nat} (hp : ∀ k, p = some k → k ≤ i) (h : behind c i xs p = some k) :
    k ≤ i + xs.length := by
  induction xs generalizing i p with
  | nil => exact hp k h
  | cons x xs ih =>
      rw [List.length_cons, Nat.add_comm xs.length, ← Nat.add_assoc]
      refine ih ?_ h
      intro j hj
      split at hj
      · exact Nat.le_of_eq (Option.some.inj hj).symm
      · exact Nat.le_succ_of_le (hp j hj)

/-- There is a place where there was one before, or a character of the kind. -/
theorem behind_isSome_iff : (behind c i xs p).isSome ↔ p.isSome ∨ c ∈ xs := by
  induction xs generalizing i p with
  | nil => simp [behind]
  | cons x xs ih =>
      rw [behind, ih, List.mem_cons]
      by_cases hx : x = c
      · simp [hx]
      · simp [if_neg hx, Ne.symm hx]

end CString

end Npp.Foundation
