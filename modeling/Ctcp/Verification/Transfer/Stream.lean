import Ctcp.Verification.Transfer.System

/-! # The bytes of a transfer

The application reads a prefix of what `send_ctcp` has accepted. -/

namespace Ctcp

open Function Program

variable {p : ℕ → ℕ → Payload} {filled : Filled}

/-- The rows of a block from row 0 on are those that the block was filled with. -/
theorem Extends.rowBytes_eq (h : Extends p filled) {b n : ℕ} (hn : n ≤ (filled b).length) :
    rowBytes (p b) 0 n = ((filled b).take n).flatMap Payload.bytes := by
  induction n with
  | zero => rfl
  | succ n ih =>
      rw [rowBytes_add, ih (Nat.le_of_succ_le hn), Nat.zero_add, rowBytes_succ, h b n hn,
        List.getD_eq_getElem _ _ hn, List.take_add_one, List.getElem?_eq_getElem hn,
        List.flatMap_append]
      simp [rowBytes]

/-- The first `n` rows of a block follow those of the blocks before it. -/
theorem sourceBytes_first (p : ℕ → ℕ → Payload) {b n : ℕ} (hb : 1 ≤ b) (hn : n ≤ blockSize) :
    sourceBytes p (blockSize * (b - 1) + n) =
      sourceBytes p (blockSize * (b - 1)) ++ rowBytes (p b) 0 n :=
  sourceBytes_add p hb ((Nat.zero_add n).le.trans hn)

/-- Blocks that are full contribute all their rows. -/
theorem Extends.sourceBytes_full (h : Extends p filled) {k : ℕ}
    (hfull : ∀ b, 1 ≤ b → b ≤ k → (filled b).length = blockSize) :
    sourceBytes p (blockSize * k) = storedBytes filled k := by
  induction k with
  | zero => rfl
  | succ k ih =>
      have hlast := hfull (k + 1) (Nat.succ_pos k) le_rfl
      have hadd := sourceBytes_first p (b := k + 1) (Nat.succ_pos k) (le_refl blockSize)
      rw [Nat.add_sub_cancel] at hadd
      rw [Nat.mul_succ, hadd, ih fun b hb hle => hfull b hb (Nat.le_succ_of_le hle),
        h.rowBytes_eq hlast.ge, ← hlast, List.take_length, storedBytes, storedBytes,
        List.range'_1_concat, List.flatMap_append, List.flatMap_singleton, Nat.add_comm 1 k]

theorem storedBytes_isPrefix {n k : ℕ} (hle : n ≤ k) :
    storedBytes filled n <+: storedBytes filled k := by
  obtain ⟨d, rfl⟩ := Nat.exists_eq_add_of_le hle
  rw [storedBytes, storedBytes, ← List.range'_append_1, List.flatMap_append]
  exact List.prefix_append _ _

/-- Rows of full blocks, and of one block as far as it is filled, are in the store. -/
theorem Extends.sourceBytes_isPrefix (h : Extends p filled) {sk : Server}
    (hstore : StoreInv sk filled) {b n : ℕ} (hb : 1 ≤ b)
    (hfull : ∀ b', 1 ≤ b' → b' < b → (filled b').length = blockSize)
    (hn : n ≤ (filled b).length) :
    sourceBytes p (blockSize * (b - 1) + n) <+: storedBytes filled sk.maxblockno := by
  rw [sourceBytes_first p hb (hn.trans (hstore.length_le b)),
    h.sourceBytes_full fun b' hb' hle => hfull b' hb' (by omega), h.rowBytes_eq hn]
  by_cases hmax : b ≤ sk.maxblockno
  · -- the rows of block `b` follow those of the blocks before it
    have hlast : storedBytes filled b =
        storedBytes filled (b - 1) ++ (filled b).flatMap Payload.bytes := by
      obtain ⟨k, rfl⟩ := Nat.exists_eq_add_one_of_ne_zero (Nat.ne_zero_of_lt hb)
      rw [Nat.add_sub_cancel, storedBytes, storedBytes, List.range'_1_concat, List.flatMap_append,
        List.flatMap_singleton, Nat.add_comm 1 k]
    refine List.IsPrefix.trans ?_ (storedBytes_isPrefix hmax)
    rw [hlast, List.prefix_append_right_inj]
    conv_rhs => rw [← List.take_append_drop n (filled b), List.flatMap_append]
    exact List.prefix_append _ _
  · -- nothing is filled ahead of `maxblockno`
    have hnone := hstore.ahead b (Nat.not_le.mp hmax)
    have hprev : b - 1 ≤ sk.maxblockno := by
      by_contra hlt
      have hlen := hfull (b - 1) (by omega) (by omega)
      rw [hstore.ahead (b - 1) (Nat.not_le.mp hlt)] at hlen
      exact absurd hlen (by decide)
    rw [hnone, List.take_nil, List.flatMap_nil, List.append_nil]
    exact storedBytes_isPrefix hprev

end Ctcp
