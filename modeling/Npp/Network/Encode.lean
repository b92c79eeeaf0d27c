import Npp.Network.Node

/-!
# Contents of every size

`sendMessage` frames whatever it is given: the size goes into a field of 32 bits, and nothing is
refused. The receiver takes the size from that field, and its buffer cannot be empty.
-/

namespace Npp.Network

open Npp.Foundation Npp.Basic

/-- A `sendMessage` with a socket and a `writev` that takes all it is given: it throws, or the
receiver makes of the written bytes exactly the content, and of what follows them nothing. -/
def Agrees (data : List UInt8) : Prop :=
  ∀ (n : Node) (c : Connection) (rank sock retry : Int) (k : Nat),
    n.connection sock = some c → (normalMessage data).length ≤ k →
    ∃ x n', Sender.writev ⟨rank, data, .holding sock retry⟩ n (.wrote k) = some (x, n') ∧
      ((∃ e, x.phase = .threw e) ∨
        (x.phase = .returned ∧ ∃ written,
          n'.connection sock = some { c with sent := c.sent ++ written } ∧
          ∀ o : Oracle, o.Full → ∀ rest,
            handleEvent o (written ++ rest) = { rest := rest, action := .process data }))

/-! ## The sender -/

/-- A content of any size is written and returned from. -/
theorem Sender.writev_whole {n : Node} {c : Connection} {sock : Int}
    (hc : n.connection sock = some c) (rank retry : Int) {data : List UInt8} {k : Nat}
    (hk : (normalMessage data).length ≤ k) :
    Sender.writev ⟨rank, data, .holding sock retry⟩ n (.wrote k) =
      some (⟨rank, data, .returned⟩,
        n.setFd sock (some (.connection { c with sent := c.sent ++ normalMessage data }))) := by
  have hret : WriteOutcome.ret (.wrote k) (normalMessage data).length =
      (normalMessage data).length := by
    show ((min k (normalMessage data).length : Nat) : Int) = _
    rw [Nat.min_eq_right hk]
  have hwritten : WriteOutcome.written (.wrote k) (normalMessage data) = normalMessage data :=
    List.take_of_length_le hk
  have hnonneg : ¬ ((normalMessage data).length : Int) < 0 := Int.not_lt.mpr (Int.natCast_nonneg _)
  simp only [Sender.writev, Node.writev, hc, hret, hwritten, if_neg hnonneg,
    if_neg (Int.lt_irrefl _)]

/-! ## The receiver -/

/-- The size that the head of a content tells. -/
def headSize (data : List UInt8) : Nat := data.length % 2 ^ 32

theorem normalHead_size_mod (data : List UInt8) :
    (normalHead data.length).size.toNat = headSize data :=
  UInt32.toNat_ofNat'

/-- What the receiver makes of a content whose size is a multiple of 2^32, and of 0 above all. -/
theorem handleEvent_headSize_zero {o : Oracle} (h : o.Full) {data : List UInt8}
    (hzero : headSize data = 0) (rest : List UInt8) :
    handleEvent o (normalMessage data ++ rest) =
      { rest := data ++ (verifyBytes ++ rest), fate := .aborted } := by
  have htype : (normalHead data.length).type.val = 0 := rfl
  have halloc : Bytes.alloc (normalHead data.length).size.toNat o.heap = none := by
    rw [normalHead_size_mod, hzero]
    rfl
  rw [normalMessage, List.append_assoc, List.append_assoc,
    handleEvent_head h (MessageHead.length_bytes _), MessageHead.ofBytes_bytes, if_pos htype,
    readNormalMessage, halloc]

/-- Where sender and receiver agree, the receiver makes the content of the frame. -/
theorem Agrees.decodes {data : List UInt8} (h : Agrees data) {o : Oracle} (hfull : o.Full)
    (rest : List UInt8) :
    handleEvent o (normalMessage data ++ rest) = { rest := rest, action := .process data } := by
  let c : Connection := {}
  let n : Node := ({ myRank := 0, listenPort := 0 } : Node).setFd 3 (some (.connection c))
  have hc : n.connection 3 = some c := by
    rw [Node.connection_setConnection, Function.update_self]
  obtain ⟨x, n', hwrite, hend⟩ := h n c 0 3 0 _ hc (Nat.le_refl _)
  rw [Sender.writev_whole hc 0 0 (Nat.le_refl _)] at hwrite
  obtain ⟨rfl, rfl⟩ := Prod.mk.inj (Option.some.inj hwrite)
  rcases hend with ⟨e, hthrew⟩ | ⟨-, written, hsent, hdecodes⟩
  · cases hthrew
  · rw [Node.connection_setConnection, Function.update_self] at hsent
    have happended : c.sent ++ normalMessage data = c.sent ++ written :=
      congrArg Connection.sent (Option.some.inj hsent)
    rw [List.append_cancel_left happended]
    exact hdecodes o hfull rest

/-- Reads that give all of the head and of the verify code. -/
theorem exists_full : ∃ o : Oracle, o.Full := by
  refine ⟨⟨.bytes 8, fun _ => .bytes 1, .bytes 4, fun _ => 0, fun _ => 0⟩, ?_, ?_, ?_⟩
  · exact ⟨8, Nat.le_refl 8, rfl⟩
  · exact fun _ => ⟨1, rfl⟩
  · exact ⟨4, Nat.le_refl 4, rfl⟩

/-- **Encoding and decoding.** Sender and receiver agree on a content exactly when it is not empty
and its size fits the field of the head. -/
theorem agrees_iff (data : List UInt8) :
    Agrees data ↔ 0 < data.length ∧ data.length < 2 ^ 32 := by
  constructor
  · intro hagrees
    obtain ⟨o, hfull⟩ := exists_full
    have hmem : data ∈ (handleEvent o (normalMessage data ++ [])).action.processed := by
      rw [hagrees.decodes hfull]
      exact List.mem_singleton.mpr rfl
    exact handleEvent_processed hmem
  · rintro ⟨hpos, hbound⟩ n c rank sock retry k hc hk
    refine ⟨_, _, Sender.writev_whole hc rank retry hk, Or.inr ⟨rfl, normalMessage data, ?_, ?_⟩⟩
    · rw [Node.connection_setConnection, Function.update_self]
    · intro o hfull rest
      exact handleEvent_frame hfull (.normal ⟨data, hpos, hbound⟩) rest

/-- An empty content is sent, and ends the receiver. -/
theorem not_agrees : ¬ Agrees [] := by
  intro hagrees
  obtain ⟨o, hfull⟩ := exists_full
  have hevent := hagrees.decodes hfull []
  rw [handleEvent_headSize_zero hfull rfl] at hevent
  exact absurd (congrArg Handled.fate hevent) (by decide)

end Npp.Network
