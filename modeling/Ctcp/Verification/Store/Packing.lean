import Ctcp.Model.Server
import Ctcp.Verification.Stream
import Mathlib.Data.List.GetD
import Mathlib.Tactic.Common

/-! # Rows that `readBlock` packs -/

namespace Ctcp

/-- The largest number of useful bytes in a row. -/
def rowCapacity : ℕ := payloadSize - 2

theorem rowCapacity_eq : rowCapacity = 1443 := rfl

/-- In spite of the missing parentheses the macro yields the minimum. -/
theorem toNat_bytesRead (n : UInt32) : (bytesRead n).toNat = min rowCapacity n.toNat := by
  have hcap : UInt64.ofNat (payloadSize - 2) = 1443 := rfl
  have hcast : n.toUInt16.toUInt64.toUInt16 = n.toUInt16 := UInt16.toUInt16_toUInt64 _
  simp only [bytesRead, hcap]
  by_cases h : (1443 : UInt64) < n.toUInt64
  · have hlt : 1443 < n.toNat := by simpa [UInt64.lt_iff_toNat_lt] using h
    rw [if_pos h, UInt64.and_neg_one, UInt64.toUInt16_xor, hcast, UInt64.toUInt16_xor,
      UInt32.toUInt16_toUInt64, UInt16.xor_comm, UInt16.xor_assoc, UInt16.xor_self,
      UInt16.xor_zero, rowCapacity_eq]
    exact (min_eq_left hlt.le).symm
  · have hle : n.toNat ≤ 1443 := by simpa [UInt64.lt_iff_toNat_lt] using h
    rw [if_neg h, UInt64.and_zero, UInt64.xor_zero, hcast, UInt32.toNat_toUInt16, rowCapacity_eq,
      min_eq_right hle]
    exact Nat.mod_eq_of_lt (by omega)

/-- A row as it stands in a block: the length, the data, and zeros. -/
structure Payload.Packs (pl : Payload) (bytes : List UInt8) : Prop where
  length_le : bytes.length ≤ rowCapacity
  payloadLen_eq : pl.payloadLen = bytes.length
  byte_eq : ∀ i : Fin payloadSize, 2 ≤ (i : ℕ) → pl i = bytes.getD (i - 2) 0

namespace Payload.Packs

variable {pl : Payload} {bytes : List UInt8}

theorem framed (h : pl.Packs bytes) : pl.Framed := by
  have hle := h.length_le
  rw [rowCapacity_eq] at hle
  rw [Framed, h.payloadLen_eq, payloadSize_eq]
  omega

/-- Stripping a row gives the data back. -/
theorem bytes_eq (h : pl.Packs bytes) : pl.bytes = bytes := by
  have hle := h.length_le
  rw [rowCapacity_eq] at hle
  refine List.ext_getElem (by rw [Payload.bytes, length_data, h.payloadLen_eq]) fun i hi hi' => ?_
  have hlt : 2 + i < payloadSize := by rw [payloadSize_eq]; omega
  simp only [Payload.bytes, data, List.getElem_map, List.getElem_range, byteD, hlt, dif_pos]
  rw [h.byte_eq ⟨2 + i, hlt⟩ (Nat.le_add_right 2 i), Nat.add_sub_cancel_left,
    List.getD_eq_getElem _ _ hi']

end Payload.Packs

theorem packs_packRow {bytes : List UInt8} (h : bytes.length ≤ rowCapacity) :
    (packRow bytes).Packs bytes where
  length_le := h
  payloadLen_eq := by
    rw [rowCapacity_eq] at h
    have hhigh : (UInt8.ofNat (bytes.length / 256)).toNat = bytes.length / 256 := by
      rw [UInt8.toNat_ofNat']
      exact Nat.mod_eq_of_lt (by omega)
    have hlow : (UInt8.ofNat (bytes.length % 256)).toNat = bytes.length % 256 := by
      rw [UInt8.toNat_ofNat']
      exact Nat.mod_eq_of_lt (Nat.mod_lt _ (by decide))
    simp only [Payload.payloadLen, packRow, if_true, Nat.one_ne_zero, if_false, hhigh, hlow]
    exact Nat.div_add_mod _ _
  byte_eq i hi := by
    have h₀ : (i : ℕ) ≠ 0 := by omega
    have h₁ : (i : ℕ) ≠ 1 := by omega
    simp only [packRow, if_neg h₀, if_neg h₁]

/-- What `readBlock` adds to a block: rows that pack the bytes it takes, until the
bytes or the block are used up. -/
structure ReadSpec (rows : List Payload) (buf : List UInt8)
    (read : List Payload × List UInt8) (added : List Payload) : Prop where
  rows_eq : read.1 = rows ++ added
  packs : ∀ pl ∈ added, ∃ bytes, bytes ≠ [] ∧ pl.Packs bytes
  bytes_eq : added.flatMap Payload.bytes ++ read.2 = buf
  length_le : rows.length + added.length ≤ blockSize
  done : read.2 = [] ∨ rows.length + added.length = blockSize

/-- Every row takes some of the bytes. -/
theorem ReadSpec.length_lt {rows : List Payload} {buf : List UInt8}
    {read : List Payload × List UInt8} {added : List Payload} (h : ReadSpec rows buf read added)
    (hne : added ≠ []) : read.2.length < buf.length := by
  obtain ⟨pl, tl, rfl⟩ := List.exists_cons_of_ne_nil hne
  obtain ⟨bytes, hb, hpl⟩ := h.packs pl List.mem_cons_self
  have hsum := congrArg List.length h.bytes_eq
  rw [List.flatMap_cons, hpl.bytes_eq, List.length_append, List.length_append] at hsum
  have hpos := List.length_pos_of_ne_nil hb
  omega

theorem readRows_spec {fuel : ℕ} {rows : List Payload} {buf : List UInt8}
    (hrows : rows.length ≤ blockSize) (hfuel : blockSize ≤ rows.length + fuel)
    (hbuf : buf.length < 2 ^ 32) :
    ∃ added, ReadSpec rows buf (readRows fuel rows buf) added := by
  induction fuel generalizing rows buf with
  | zero =>
      exact ⟨[], by simp [readRows], by simp, rfl, by simpa using hrows,
        .inr (le_antisymm (by simpa using hrows) (by simpa using hfuel))⟩
  | succ fuel ih =>
      by_cases hgo : rows.length < blockSize ∧ buf ≠ []
      · let n := (bytesRead (UInt32.ofNat buf.length)).toNat
        have hn : n = min rowCapacity buf.length := by
          change (bytesRead (UInt32.ofNat buf.length)).toNat = _
          rw [toNat_bytesRead, UInt32.toNat_ofNat', Nat.mod_eq_of_lt hbuf]
        have hpos := List.length_pos_of_ne_nil hgo.2
        have hcap := rowCapacity_eq
        have hlen : (buf.take n).length = n := by rw [List.length_take]; omega
        have hpacks : (packRow (buf.take n)).Packs (buf.take n) := packs_packRow (by omega)
        obtain ⟨added, h⟩ := @ih (rows ++ [packRow (buf.take n)]) (buf.drop n)
          (by rw [List.length_append, List.length_singleton]; omega)
          (by rw [List.length_append, List.length_singleton]; omega)
          (by rw [List.length_drop]; omega)
        have hrows := h.length_le
        have hdone := h.done
        rw [List.length_append, List.length_singleton, Nat.add_assoc] at hrows hdone
        rw [readRows, if_pos hgo]
        refine ⟨packRow (buf.take n) :: added, ?_, ?_, ?_, ?_, ?_⟩
        · rw [h.rows_eq, List.append_assoc, List.singleton_append]
        · refine List.forall_mem_cons.mpr ⟨⟨_, ?_, hpacks⟩, h.packs⟩
          exact List.ne_nil_of_length_pos (by omega)
        · rw [List.flatMap_cons, List.append_assoc, h.bytes_eq, hpacks.bytes_eq,
            List.take_append_drop]
        · rw [List.length_cons, Nat.add_comm added.length]
          exact hrows
        · rw [List.length_cons, Nat.add_comm added.length]
          exact hdone
      · rw [readRows, if_neg hgo]
        refine ⟨[], by simp, by simp, rfl, by simpa using hrows, ?_⟩
        by_cases hnil : buf = []
        · exact .inl hnil
        · exact .inr (le_antisymm (by simpa using hrows) (by
            simpa using Nat.not_lt.mp fun hlt => hgo ⟨hlt, hnil⟩))

theorem readBlock_spec {rows : List Payload} {buf : List UInt8}
    (hrows : rows.length ≤ blockSize) (hbuf : buf.length < 2 ^ 32) :
    ∃ added, ReadSpec rows buf (readBlock rows buf) added :=
  readRows_spec hrows (Nat.le_add_left _ _) hbuf

/-- One byte makes one row. -/
theorem readBlock_oneByte {rows : List Payload} (hrows : rows.length < blockSize) (v : UInt8) :
    readBlock rows [v] = (rows ++ [packRow [v]], []) := by
  have hbytes : (bytesRead (UInt32.ofNat 1)).toNat = 1 := rfl
  rw [readBlock, show blockSize = 30 + 1 + 1 from rfl, readRows,
    if_pos ⟨hrows, List.cons_ne_nil v []⟩]
  simp only [List.length_singleton, hbytes, List.take_succ_cons, List.take_zero, List.drop_one,
    List.tail_cons]
  rw [readRows, if_neg fun hgo => hgo.2 rfl]

end Ctcp
