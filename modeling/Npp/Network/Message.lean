import Npp.Basic.Bytes
import Npp.Foundation.LittleEndian
import Mathlib.Algebra.Group.Int.Defs

/-!
# Message heads and frames

The packed `MessageHead` is eight bytes: two of control bits, two of `reserved`, four of `size`.
A frame is a head, the content, and the fixed verify code.
-/

namespace Npp.Network

open Npp.Foundation

def fixVerifyCode : Nat := 0xDEADFACE

structure MessageHead where
  compress : Fin 2 := 0
  verify : Fin 2 := 0
  res1 : Fin 64 := 0
  type : Fin 8 := 0
  res2 : Fin 32 := 0
  reserved : UInt16 := 0
  size : UInt32 := 0
deriving DecidableEq, Repr

namespace MessageHead

/-- The bit fields of the first two bytes, lowest first. -/
def control (h : MessageHead) : Nat :=
  h.compress + 2 * h.verify + 4 * h.res1 + 256 * h.type + 2048 * h.res2

def bytes (h : MessageHead) : List UInt8 :=
  littleEndian 2 h.control ++ littleEndian 2 h.reserved.toNat ++ littleEndian 4 h.size.toNat

/-- The struct over eight bytes. -/
def ofBytes (bs : List UInt8) : MessageHead :=
  let control := ofLittleEndian (bs.take 2)
  { compress := Fin.ofNat 2 control
    verify := Fin.ofNat 2 (control / 2)
    res1 := Fin.ofNat 64 (control / 4)
    type := Fin.ofNat 8 (control / 256)
    res2 := Fin.ofNat 32 (control / 2048)
    reserved := UInt16.ofNat (ofLittleEndian ((bs.drop 2).take 2))
    size := UInt32.ofNat (ofLittleEndian ((bs.drop 4).take 4)) }

@[simp] theorem length_bytes (h : MessageHead) : h.bytes.length = 8 := by
  simp [bytes]

theorem control_lt (h : MessageHead) : h.control < 256 ^ 2 := by
  have := h.compress.isLt
  have := h.verify.isLt
  have := h.res1.isLt
  have := h.type.isLt
  have := h.res2.isLt
  unfold control
  omega

/-- A head survives the wire. -/
theorem ofBytes_bytes (h : MessageHead) : ofBytes h.bytes = h := by
  have hcontrol : ofLittleEndian (h.bytes.take 2) = h.control := by
    rw [bytes, List.append_assoc, List.take_left' (length_littleEndian 2 _)]
    exact ofLittleEndian_littleEndian h.control_lt
  have hreserved : ofLittleEndian ((h.bytes.drop 2).take 2) = h.reserved.toNat := by
    rw [bytes, List.append_assoc, List.drop_left' (length_littleEndian 2 _),
      List.take_left' (length_littleEndian 2 _)]
    exact ofLittleEndian_littleEndian h.reserved.toNat_lt
  have hsize : ofLittleEndian ((h.bytes.drop 4).take 4) = h.size.toNat := by
    have hfour : (littleEndian 2 h.control ++ littleEndian 2 h.reserved.toNat).length = 4 := by
      simp
    rw [bytes, List.drop_left' hfour, List.take_of_length_le (by simp)]
    exact ofLittleEndian_littleEndian h.size.toNat_lt
  obtain ⟨compress, verify, res1, type, res2, reserved, size⟩ := h
  simp only [ofBytes, hcontrol, hreserved, hsize, control]
  have := compress.isLt
  have := verify.isLt
  have := res1.isLt
  have := type.isLt
  have := res2.isLt
  simp only [mk.injEq, UInt16.ofNat_toNat, UInt32.ofNat_toNat, and_true]
  refine ⟨?_, ?_, ?_, ?_, ?_⟩ <;> (apply Fin.ext; simp only [Fin.ofNat]; omega)

end MessageHead

/-! ## Frames -/

def htons (port : UInt16) : UInt16 := UInt16.ofNat (port.toNat % 256 * 256 + port.toNat / 256)

def uint32OfInt (n : Int) : UInt32 := UInt32.ofNat (n % 2 ^ 32).toNat

def intOfUInt32 (n : UInt32) : Int := (n.toNat : Int).bmod (2 ^ 32)

theorem toNat_uint32OfInt (n : Int) : ((uint32OfInt n).toNat : Int) = n % 2 ^ 32 := by
  have hnonneg : 0 ≤ n % 2 ^ 32 := Int.emod_nonneg n (by omega)
  have hlt : n % 2 ^ 32 < 2 ^ 32 := Int.emod_lt_of_pos n (by omega)
  rw [uint32OfInt, UInt32.toNat_ofNat', Nat.mod_eq_of_lt (by omega), Int.toNat_of_nonneg hnonneg]

/-- A rank survives the wire. -/
theorem intOfUInt32_uint32OfInt {n : Int} (hlow : -2 ^ 31 ≤ n) (hhigh : n < 2 ^ 31) :
    intOfUInt32 (uint32OfInt n) = n :=
  calc intOfUInt32 (uint32OfInt n) = (n % (2 ^ 32 : Nat)).bmod (2 ^ 32) :=
        congrArg (fun m : Int => m.bmod (2 ^ 32)) (toNat_uint32OfInt n)
    _ = n.bmod (2 ^ 32) := Int.emod_bmod n _
    _ = n := Int.bmod_eq_of_le_mul_two (by omega) (by omega)

def verifyBytes : List UInt8 := littleEndian 4 fixVerifyCode

@[simp] theorem length_verifyBytes : verifyBytes.length = 4 := rfl

/-- Only the bytes of the fixed code have its value. -/
theorem ofLittleEndian_eq_fixVerifyCode {code : List UInt8} (hcode : code.length = 4) :
    ofLittleEndian code = fixVerifyCode ↔ code = verifyBytes := by
  constructor
  · intro hvalue
    have hstored := littleEndian_ofLittleEndian code
    rw [hcode, hvalue] at hstored
    exact hstored.symm
  · rintro rfl
    exact ofLittleEndian_littleEndian (by decide)

/-- The head that `sendMessage` writes before `size` bytes of data. -/
def normalHead (size : Nat) : MessageHead := { size := UInt32.ofNat size }

def normalMessage (data : List UInt8) : List UInt8 :=
  (normalHead data.length).bytes ++ data ++ verifyBytes

def rankReportHead (myRank : Int) (listenPort : UInt16) : MessageHead :=
  { type := 1, size := uint32OfInt myRank, reserved := htons listenPort }

def rankReportMessage (myRank : Int) (listenPort : UInt16) : List UInt8 :=
  (rankReportHead myRank listenPort).bytes ++ verifyBytes

/-- A content whose length the head can tell, and that `Bytes` can hold. -/
structure Content where
  bytes : List UInt8
  nonempty : 0 < bytes.length
  bounded : bytes.length < 2 ^ 32

inductive Frame where
  | normal (content : Content)
  | rankReport (rank : Int) (port : UInt16)

def Frame.bytes : Frame → List UInt8
  | .normal content => normalMessage content.bytes
  | .rankReport rank port => rankReportMessage rank port

/-- What follows the head of a normal message. -/
theorem Frame.normal_bytes (content : Content) :
    (Frame.normal content).bytes =
      (normalHead content.bytes.length).bytes ++ (content.bytes ++ verifyBytes) := by
  rw [bytes, normalMessage, List.append_assoc]

theorem Frame.bytes_ne_nil (f : Frame) : f.bytes ≠ [] := by
  intro h
  have hlength := congrArg List.length h
  cases f <;> simp [bytes, normalMessage, rankReportMessage] at hlength

def Frame.content : Frame → Option (List UInt8)
  | .normal content => some content.bytes
  | .rankReport _ _ => none

end Npp.Network
