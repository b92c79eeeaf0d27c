import Mathlib.Data.BitVec
import Mathlib.Data.List.Basic

/-!
# Address spaces

Cells under the addresses of a machine word. A list of cells is read or written from an address on;
behind the last address comes the first.
-/

namespace Npp.Foundation

/-- What the cells of an address space of `w` bits hold. -/
structure AddressSpace (w : Nat) (β : Type*) where
  cell : BitVec w → β

namespace AddressSpace

variable {w : Nat} {β : Type*} {m : AddressSpace w β} {p s a : BitVec w} {xs ys : List β}

/-- The address `i` cells behind `p`. -/
def offset (p : BitVec w) (i : Nat) : BitVec w := p + BitVec.ofNat w i

def read (m : AddressSpace w β) (p : BitVec w) (n : Nat) : List β :=
  (List.range n).map fun i => m.cell (offset p i)

def write (m : AddressSpace w β) (p : BitVec w) (xs : List β) : AddressSpace w β where
  cell a := (xs[(a - p).toNat]?).getD (m.cell a)

/-! ## Distances -/

theorem offset_zero (p : BitVec w) : offset p 0 = p := by simp [offset]

theorem offset_toNat (p s : BitVec w) : offset p s.toNat = p + s := by
  unfold offset
  rw [BitVec.ofNat_toNat, BitVec.setWidth_eq]

theorem offset_sub (p : BitVec w) {i : Nat} (hi : i < 2 ^ w) : (offset p i - p).toNat = i := by
  unfold offset
  rw [BitVec.add_comm, BitVec.add_sub_cancel, BitVec.toNat_ofNat]
  exact Nat.mod_eq_of_lt hi

/-- Seen from another address, a cell is ahead of it or comes around from behind. -/
theorem offset_sub_offset (p : BitVec w) {i j : Nat} (hi : i < 2 ^ w) (hj : j < 2 ^ w) :
    (offset p i - offset p j).toNat = if j ≤ i then i - j else 2 ^ w + i - j := by
  have hsub : offset p i - offset p j = BitVec.ofNat w i - BitVec.ofNat w j :=
    add_sub_add_left_eq_sub _ _ p
  rw [hsub, BitVec.toNat_sub, BitVec.toNat_ofNat, BitVec.toNat_ofNat, Nat.mod_eq_of_lt hi,
    Nat.mod_eq_of_lt hj]
  split
  · rw [show 2 ^ w - j + i = (i - j) + 2 ^ w by omega, Nat.add_mod_right]
    exact Nat.mod_eq_of_lt (by omega)
  · rw [Nat.mod_eq_of_lt (by omega)]
    omega

theorem exists_offset (p a : BitVec w) : ∃ i < 2 ^ w, a = offset p i := by
  refine ⟨(a - p).toNat, (a - p).isLt, ?_⟩
  rw [offset_toNat, BitVec.add_comm, BitVec.sub_add_cancel]

/-! ## Cells -/

@[ext] theorem ext {m m' : AddressSpace w β} (h : ∀ a, m.cell a = m'.cell a) : m = m' := by
  cases m
  cases m'
  congr
  funext a
  exact h a

theorem cell_write_offset {i : Nat} (hi : i < 2 ^ w) :
    (m.write p xs).cell (offset p i) = (xs[i]?).getD (m.cell (offset p i)) := by
  show (xs[(offset p i - p).toNat]?).getD _ = _
  rw [offset_sub p hi]

/-- A write further on, of cells that do not come around. -/
theorem cell_write_further {i j : Nat} (hi : i < 2 ^ w) (hfit : j + xs.length ≤ 2 ^ w) :
    (m.write (offset p j) xs).cell (offset p i) =
      if j ≤ i then (xs[i - j]?).getD (m.cell (offset p i)) else m.cell (offset p i) := by
  by_cases hj : j < 2 ^ w
  · show (xs[(offset p i - offset p j).toNat]?).getD _ = _
    rw [offset_sub_offset p hi hj]
    split
    · rfl
    · rw [List.getElem?_eq_none (by omega)]
      rfl
  · -- then there is nothing to write
    have hnil : xs = [] := List.eq_nil_of_length_eq_zero (by omega)
    subst hnil
    rw [if_neg (by omega)]
    rfl

theorem length_read (m : AddressSpace w β) (p : BitVec w) (n : Nat) : (m.read p n).length = n := by
  simp [read]

theorem getElem?_read {i n : Nat} :
    (m.read p n)[i]? = if i < n then some (m.cell (offset p i)) else none := by
  unfold read
  rw [List.getElem?_map]
  by_cases hi : i < n
  · rw [List.getElem?_range hi, if_pos hi]
    rfl
  · rw [List.getElem?_eq_none (by simpa using hi), if_neg hi]
    rfl

/-! ## Reads after writes -/

theorem write_nil (m : AddressSpace w β) (p : BitVec w) : m.write p [] = m := by
  ext a
  rfl

/-- Two writes in a row are one. -/
theorem write_append (hfit : xs.length + ys.length ≤ 2 ^ w) :
    (m.write p xs).write (offset p xs.length) ys = m.write p (xs ++ ys) := by
  ext a
  obtain ⟨i, hi, rfl⟩ := exists_offset p a
  rw [cell_write_further hi hfit, cell_write_offset hi, cell_write_offset hi]
  split
  case isTrue hle =>
    rw [List.getElem?_append_right hle, List.getElem?_eq_none (l := xs) hle]
    rfl
  case isFalse hlt =>
    rw [List.getElem?_append_left (Nat.lt_of_not_le hlt)]

/-- What a range holds after a write into it. -/
theorem read_write {j n : Nat} (hfit : j + xs.length ≤ n) (hn : n ≤ 2 ^ w) :
    (m.write (offset p j) xs).read p n =
      (m.read p n).take j ++ xs ++ (m.read p n).drop (j + xs.length) := by
  apply List.ext_getElem?
  intro i
  have htake : ((m.read p n).take j).length = j := by
    rw [List.length_take, length_read]
    omega
  rw [getElem?_read, List.append_assoc]
  by_cases hi : i < n
  · rw [if_pos hi, cell_write_further (by omega) (by omega)]
    rcases Nat.lt_or_ge i j with hlt | hge
    · rw [if_neg (by omega), List.getElem?_append_left (by omega), List.getElem?_take_of_lt hlt,
        getElem?_read, if_pos hi]
    · rw [if_pos hge, List.getElem?_append_right (by omega), htake]
      rcases Nat.lt_or_ge (i - j) xs.length with hin | hout
      · rw [List.getElem?_append_left hin, List.getElem?_eq_getElem hin]
        rfl
      · rw [List.getElem?_append_right hout, List.getElem?_eq_none hout, List.getElem?_drop,
          getElem?_read, if_pos (by omega), Option.getD_none]
        congr 3
        omega
  · rw [if_neg hi]
    symm
    apply List.getElem?_eq_none
    simp only [List.length_append, htake, List.length_drop, length_read]
    omega

end AddressSpace

end Npp.Foundation
