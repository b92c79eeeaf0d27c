import Npp.Basic.Bytes
import Npp.Foundation.AddressSpace

/-!
# The range check of `Bytes::set`

A `Bytes` as it lies in memory: `_size` and the pointer `_data`. `set` adds `start` and `size` as
numbers of `size_t`, and what it copies goes to `_data + start`, wherever that is.
-/

namespace Npp.Basic

open Npp.Foundation

structure Buffer where
  size : BitVec 64
  data : BitVec 64
deriving DecidableEq, Repr

/-- The bytes that a caller of `set` has; their number is a `size_t`. -/
structure Source where
  bytes : List UInt8
  bounded : bytes.length < 2 ^ 64

namespace Source

def size (source : Source) : BitVec 64 := BitVec.ofNat 64 source.bytes.length

end Source

namespace Buffer

/-- `set(size, data, start)`, where `data` points to the bytes of `source`. -/
def set (b : Buffer) (m : AddressSpace 64 UInt8) (source : Source) (start : BitVec 64) :
    Except RangeException Unit × AddressSpace 64 UInt8 :=
  let size := source.size
  if start + size > b.size then
    (.error ⟨s!"{start.toNat} + {size.toNat} > {b.size.toNat}"⟩, m)
  else (.ok (), m.write (b.data + start) source.bytes)

/-- Calls of `set` for one range behind the other, until one throws. -/
def setAll (b : Buffer) : AddressSpace 64 UInt8 → List Source → BitVec 64 →
    Except RangeException Unit × AddressSpace 64 UInt8
  | m, [], _ => (.ok (), m)
  | m, source :: sources, start =>
      match b.set m source start with
      | (.error e, m) => (.error e, m)
      | (.ok _, m) => b.setAll m sources (start + source.size)

def content (b : Buffer) (m : AddressSpace 64 UInt8) : Bytes := ⟨m.read b.data b.size.toNat⟩

def Throws (b : Buffer) (m : AddressSpace 64 UInt8) (source : Source) (start : BitVec 64) : Prop :=
  ∃ e, (b.set m source start).1 = .error e

/-- The bytes at the positions from `start` on are those of the source, all of these positions are
in the buffer, and no other byte has changed. -/
structure Replaced (b : Buffer) (m : AddressSpace 64 UInt8) (source : Source) (start : BitVec 64)
    (m' : AddressSpace 64 UInt8) : Prop where
  fits : start.toNat + source.bytes.length ≤ b.size.toNat
  written : ∀ i < source.bytes.length,
    some (m'.cell (AddressSpace.offset b.data (start.toNat + i))) = source.bytes[i]?
  kept : ∀ a, (∀ i < source.bytes.length, a ≠ AddressSpace.offset b.data (start.toNat + i)) →
    m'.cell a = m.cell a

structure BoundsSafe (b : Buffer) (m : AddressSpace 64 UInt8) (source : Source)
    (start : BitVec 64) : Prop where
  throws_iff : b.Throws m source start ↔ b.size.toNat < start.toNat + source.bytes.length
  unchanged : b.Throws m source start → (b.set m source start).2 = m
  replaced : ¬ b.Throws m source start → b.Replaced m source start (b.set m source start).2

/-- The sum wraps around, and comes back into the buffer. -/
def WrapsInside (b : Buffer) (source : Source) (start : BitVec 64) : Prop :=
  2 ^ 64 ≤ start.toNat + source.bytes.length ∧
    start.toNat + source.bytes.length - 2 ^ 64 ≤ b.size.toNat

instance (b : Buffer) (source : Source) (start : BitVec 64) :
    Decidable (b.WrapsInside source start) :=
  inferInstanceAs (Decidable (_ ∧ _))

variable {b : Buffer} {m : AddressSpace 64 UInt8} {source : Source} {sources : List Source}
  {start : BitVec 64}

/-! ## The sum -/

theorem toNat_size (source : Source) : source.size.toNat = source.bytes.length :=
  (BitVec.toNat_ofNat _ _).trans (Nat.mod_eq_of_lt source.bounded)

theorem toNat_sum (source : Source) (start : BitVec 64) :
    (start + source.size).toNat = (start.toNat + source.bytes.length) % 2 ^ 64 := by
  rw [BitVec.toNat_add, toNat_size]

/-- The check compares what is left of the sum. -/
theorem throws_iff_mod :
    b.Throws m source start ↔
      b.size.toNat < (start.toNat + source.bytes.length) % 2 ^ 64 := by
  have hcheck : start + source.size > b.size ↔
      b.size.toNat < (start.toNat + source.bytes.length) % 2 ^ 64 := by
    rw [← toNat_sum]
    exact BitVec.lt_def
  rw [← hcheck]
  unfold Throws set
  by_cases h : start + source.size > b.size
  · simp [h]
  · simp [h]

theorem set_of_throws (h : b.Throws m source start) :
    b.set m source start =
      (.error ⟨s!"{start.toNat} + {source.size.toNat} > {b.size.toNat}"⟩, m) := by
  have hcheck : start + source.size > b.size := by
    by_contra hnot
    obtain ⟨e, he⟩ := h
    rw [set, if_neg hnot] at he
    cases he
  rw [set, if_pos hcheck]

theorem set_of_not_throws (h : ¬ b.Throws m source start) :
    b.set m source start = (.ok (), m.write (b.data + start) source.bytes) := by
  have hcheck : ¬ start + source.size > b.size := by
    intro hcheck
    exact h ⟨_, by rw [set, if_pos hcheck]⟩
  rw [set, if_neg hcheck]

theorem throws_iff_of_lt (hsum : start.toNat + source.bytes.length < 2 ^ 64) :
    b.Throws m source start ↔ b.size.toNat < start.toNat + source.bytes.length := by
  rw [throws_iff_mod, Nat.mod_eq_of_lt hsum]

/-- A sum that wraps around does so once. -/
theorem throws_iff_of_ge (hsum : 2 ^ 64 ≤ start.toNat + source.bytes.length) :
    b.Throws m source start ↔ b.size.toNat < start.toNat + source.bytes.length - 2 ^ 64 := by
  have hstart := start.isLt
  have hsource := source.bounded
  rw [throws_iff_mod, Nat.mod_eq_sub_mod hsum, Nat.mod_eq_of_lt (by omega)]

/-- A range that is in the buffer is written. -/
theorem not_throws_of_fits (hfit : start.toNat + source.bytes.length ≤ b.size.toNat) :
    ¬ b.Throws m source start := by
  have hsize := b.size.isLt
  rw [throws_iff_of_lt (by omega)]
  exact Nat.not_lt.mpr hfit

theorem replaced_of_fits (hfit : start.toNat + source.bytes.length ≤ b.size.toNat) :
    b.Replaced m source start (m.write (b.data + start) source.bytes) := by
  have hsize := b.size.isLt
  rw [← AddressSpace.offset_toNat]
  refine ⟨hfit, ?_, ?_⟩
  · intro i hi
    rw [AddressSpace.cell_write_further (by omega) (by omega), if_pos (Nat.le_add_right _ _),
      Nat.add_sub_cancel_left, List.getElem?_eq_getElem hi]
    rfl
  · intro a ha
    obtain ⟨j, hj, rfl⟩ := AddressSpace.exists_offset b.data a
    rw [AddressSpace.cell_write_further hj (by omega)]
    split
    case isFalse => rfl
    case isTrue hle =>
      rw [List.getElem?_eq_none, Option.getD_none]
      by_contra hlt
      have hne := ha (j - start.toNat) (by omega)
      rw [Nat.add_sub_cancel' hle] at hne
      exact hne rfl

/-- One call keeps its promise as long as its sum does not come around into the buffer. -/
theorem boundsSafe_iff : b.BoundsSafe m source start ↔ ¬ b.WrapsInside source start := by
  have hsize := b.size.isLt
  constructor
  · rintro h ⟨hwrap, hinside⟩
    have hthrows := h.throws_iff.mpr (by omega)
    rw [throws_iff_of_ge hwrap] at hthrows
    omega
  · intro hnot
    have hthrows : b.Throws m source start ↔
        b.size.toNat < start.toNat + source.bytes.length := by
      rcases Nat.lt_or_ge (start.toNat + source.bytes.length) (2 ^ 64) with hlt | hge
      · exact throws_iff_of_lt hlt
      · rw [throws_iff_of_ge hge]
        have hout : ¬ start.toNat + source.bytes.length - 2 ^ 64 ≤ b.size.toNat := fun hin =>
          hnot ⟨hge, hin⟩
        omega
    refine ⟨hthrows, fun h => by rw [set_of_throws h], fun h => ?_⟩
    rw [set_of_not_throws h]
    apply replaced_of_fits
    rw [hthrows] at h
    omega

/-! ## Ranges in a row -/

/-- The ranges behind the cells that are written already. -/
theorem setAll_eq (filled : List UInt8)
    (hfit : filled.length + (sources.flatMap Source.bytes).length ≤ b.size.toNat) :
    b.setAll (m.write b.data filled) sources (BitVec.ofNat 64 filled.length) =
      (.ok (), m.write b.data (filled ++ sources.flatMap Source.bytes)) := by
  have hsize := b.size.isLt
  induction sources generalizing filled with
  | nil => rw [setAll, List.flatMap_nil, List.append_nil]
  | cons source sources ih =>
      rw [List.flatMap_cons, List.length_append] at hfit
      have hstart : (BitVec.ofNat 64 filled.length).toNat = filled.length :=
        (BitVec.toNat_ofNat _ _).trans (Nat.mod_eq_of_lt (by omega))
      have hnot : ¬ b.Throws (m.write b.data filled) source (BitVec.ofNat 64 filled.length) :=
        not_throws_of_fits (by omega)
      have hwrite : (m.write b.data filled).write (b.data + BitVec.ofNat 64 filled.length)
          source.bytes = m.write b.data (filled ++ source.bytes) :=
        AddressSpace.write_append (by omega)
      have hnext : BitVec.ofNat 64 filled.length + source.size =
          BitVec.ofNat 64 (filled ++ source.bytes).length := by
        rw [List.length_append, BitVec.ofNat_add]
        rfl
      rw [setAll, set_of_not_throws hnot]
      dsimp only
      rw [hwrite, hnext, ih _ (by rw [List.length_append]; omega), List.flatMap_cons,
        List.append_assoc]

/-- From the first position on, ranges that fit become the concatenation of their sources. -/
theorem setAll_zero (hfit : (sources.flatMap Source.bytes).length ≤ b.size.toNat) :
    b.setAll m sources 0 = (.ok (), m.write b.data (sources.flatMap Source.bytes)) := by
  have hall := setAll_eq (m := m) [] (by rwa [List.length_nil, Nat.zero_add])
  rwa [AddressSpace.write_nil] at hall

theorem content_write {xs : List UInt8} (hfit : xs.length ≤ b.size.toNat) :
    (b.content (m.write b.data xs)).data = xs ++ (b.content m).data.drop xs.length := by
  have hread := AddressSpace.read_write (m := m) (p := b.data) (j := 0)
    (show 0 + xs.length ≤ b.size.toNat by rwa [Nat.zero_add]) (Nat.le_of_lt b.size.isLt)
  rw [AddressSpace.offset_zero] at hread
  show (m.write b.data xs).read b.data b.size.toNat = _
  rw [hread, List.take_zero, List.nil_append, Nat.zero_add]
  rfl

/-- **`set` stays in the buffer**: one call throws or replaces its range exactly when its sum does
not come around into the buffer; and ranges in a row, from 0 on and within the buffer, become the
concatenation of what was copied, with nothing else changed. -/
theorem set_boundsSafe_iff (b : Buffer) (m : AddressSpace 64 UInt8) :
    (∀ (source : Source) (start : BitVec 64),
      b.BoundsSafe m source start ↔ ¬ b.WrapsInside source start) ∧
    ∀ sources : List Source, (sources.flatMap Source.bytes).length ≤ b.size.toNat →
      b.setAll m sources 0 = (.ok (), m.write b.data (sources.flatMap Source.bytes)) ∧
      (b.content (b.setAll m sources 0).2).data =
        sources.flatMap Source.bytes ++
          (b.content m).data.drop (sources.flatMap Source.bytes).length := by
  refine ⟨fun _ _ => boundsSafe_iff, fun sources hfit => ⟨setAll_zero hfit, ?_⟩⟩
  rw [setAll_zero hfit]
  exact content_write hfit

/-- Two pieces fill a buffer up to its last byte. -/
theorem set_boundsSafe_iff_run :
    let b : Buffer := { size := 4, data := 4096 }
    let m : AddressSpace 64 UInt8 := ⟨fun _ => 0⟩
    let sources : List Source := [⟨[1, 2], by decide⟩, ⟨[3], by decide⟩]
    (b.content (b.setAll m sources 0).2).data = [1, 2, 3, 0] ∧
      b.BoundsSafe m ⟨[5], by decide⟩ 4 := by
  intro b m sources
  obtain ⟨hcall, hall⟩ := set_boundsSafe_iff b m
  exact ⟨(hall sources (by decide)).2, (hcall _ _).mpr (by decide)⟩

/-- Four bytes go in front of the buffer. -/
theorem set_before_buffer :
    let b : Buffer := { size := 8, data := 4096 }
    let m : AddressSpace 64 UInt8 := ⟨fun _ => 0⟩
    let source : Source := ⟨[1, 2, 3, 4], by decide⟩
    let start : BitVec 64 := BitVec.ofNat 64 (2 ^ 64 - 4)
    b.set m source start = (.ok (), m.write 4092 [1, 2, 3, 4]) ∧ ¬ b.BoundsSafe m source start := by
  intro b m source start
  have hwraps : b.WrapsInside source start := by decide
  have hnot : ¬ b.Throws m source start := by
    rw [throws_iff_mod]
    decide
  have hfront : b.data + start = 4092 := by decide
  rw [set_of_not_throws hnot, hfront]
  exact ⟨rfl, fun h => boundsSafe_iff.mp h hwraps⟩

end Buffer

end Npp.Basic
