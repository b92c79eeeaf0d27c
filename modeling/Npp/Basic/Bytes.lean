import Mathlib.Algebra.Group.Nat.Defs
import Mathlib.Data.List.Basic

/-!
# Byte buffers

`Bytes` owns an allocated array. A new buffer holds whatever the heap held before.
-/

namespace Npp.Basic

structure RangeException where
  what : String
deriving DecidableEq, Repr

structure Bytes where
  data : List UInt8
deriving DecidableEq, Repr

namespace Bytes

def size (b : Bytes) : Nat := b.data.length

/-- `Bytes(size_t size)`, with the bytes found on the heap; `none` is the failed assertion. -/
def alloc (size : Nat) (heap : Nat → UInt8) : Option Bytes :=
  if size > 0 then some ⟨(List.range size).map heap⟩ else none

/-- `set(source.length, source, start)`; the sum is one of `size_t`. Where it wraps around, what is
copied does not go into the buffer: that is `Buffer.set`. -/
def set (b : Bytes) (source : List UInt8) (start : Nat) : Except RangeException Bytes :=
  let size := source.length
  let total := b.size
  if (start + size) % 2 ^ 64 > total then
    .error ⟨s!"{start} + {size} > {total}"⟩
  else
    .ok ⟨b.data.take start ++ source ++ b.data.drop (start + size)⟩

theorem alloc_size {size : Nat} {heap : Nat → UInt8} {b : Bytes} (h : alloc size heap = some b) :
    b.size = size := by
  simp only [alloc, Option.ite_none_right_eq_some, Option.some.injEq] at h
  obtain ⟨-, rfl⟩ := h
  simp [Bytes.size]

theorem alloc_pos {size : Nat} (h : 0 < size) (heap : Nat → UInt8) :
    ∃ b, alloc size heap = some b ∧ b.size = size := by
  have halloc : alloc size heap = some ⟨(List.range size).map heap⟩ := if_pos h
  exact ⟨_, halloc, alloc_size halloc⟩

/-- `set` keeps the size, as long as the sum does not wrap around. -/
theorem set_size {b b' : Bytes} {source : List UInt8} {start : Nat}
    (h : b.set source start = .ok b') (hwrap : start + source.length < 2 ^ 64) :
    b'.size = b.size := by
  unfold set at h
  dsimp only at h
  rw [Nat.mod_eq_of_lt hwrap] at h
  split at h
  case isTrue => cases h
  case isFalse hfit =>
    obtain rfl := Except.ok.inj h
    unfold size at hfit ⊢
    simp
    omega

/-- Writing the next piece of a buffer whose first bytes are already there. -/
theorem set_next {b : Bytes} {filled : List UInt8} (source : List UInt8)
    (hfilled : b.data.take filled.length = filled)
    (hfit : filled.length + source.length ≤ b.size) :
    ∃ b', b.set source filled.length = .ok b' ∧ b'.size = b.size ∧
      b'.data.take (filled ++ source).length = filled ++ source := by
  have hbound : ¬ (filled.length + source.length) % 2 ^ 64 > b.size := by
    have := Nat.mod_le (filled.length + source.length) (2 ^ 64)
    omega
  refine ⟨⟨filled ++ source ++ b.data.drop (filled.length + source.length)⟩, ?_, ?_, ?_⟩
  · rw [set, if_neg hbound, hfilled]
  · unfold size at hfit ⊢
    simp
    omega
  · exact List.take_left

end Bytes

end Npp.Basic
