import Ctcp.Verification.Store.Packing

/-! # The ring of blocks as a store of all rows ever filled -/

namespace Ctcp

open Function

/-- The rows ever put into each block. -/
abbrev Filled := ℕ → List Payload

/-- The ring holds the rows of the window, and nothing is filled ahead of `maxblockno`. -/
structure StoreInv (sk : Server) (filled : Filled) : Prop where
  curr_pos : 1 ≤ sk.currBlock
  curr_le : sk.currBlock ≤ sk.maxblockno
  max_le : sk.maxblockno ≤ sk.currBlock + numBlocks
  held : ∀ b, sk.currBlock ≤ b → b < sk.currBlock + numBlocks → sk.block b = filled b
  full : ∀ b, sk.currBlock ≤ b → b < sk.maxblockno → (filled b).length = blockSize
  length_le : ∀ b, (filled b).length ≤ blockSize
  ahead : ∀ b, sk.maxblockno < b → filled b = []
  beyond : ∀ b, sk.currBlock + numBlocks ≤ b → filled b = []
  zero : filled 0 = []
  packs : ∀ b, ∀ pl ∈ filled b, ∃ bytes, bytes ≠ [] ∧ pl.Packs bytes

theorem storeInv_create (slrScaling : ℚ) (paths : ℕ → SubstreamPath) (n : ℕ) :
    StoreInv (createSrvctcpSock noRows slrScaling paths n) fun _ => [] where
  curr_pos := le_rfl
  curr_le := le_rfl
  max_le := Nat.le_add_right _ _
  held _ _ _ := rfl
  full _ hb hb' := absurd hb' (Nat.not_lt.mpr hb)
  length_le _ := Nat.zero_le _
  ahead _ _ := rfl
  beyond _ _ := rfl
  zero := rfl
  packs _ _ h := (List.not_mem_nil h).elim

namespace StoreInv

variable {sk : Server} {filled : Filled} (h : StoreInv sk filled)
include h

theorem length_block_le (b : ℕ) : (sk.block b).length ≤ blockSize := by
  obtain ⟨b', hs, hb, hb'⟩ := exists_slot_eq sk.currBlock b
  rw [Server.block, ← hs, ← Server.block, h.held b' hb hb']
  exact h.length_le b'

/-- `maxblockno` reaches the end of the ring only when the whole ring is full. -/
theorem full_of_max_eq (hmax : sk.maxblockno = sk.currBlock + numBlocks) :
    (sk.block sk.maxblockno).length = blockSize := by
  have hslot : sk.block sk.maxblockno = sk.block sk.currBlock := by
    rw [Server.block, Server.block, hmax, slot_add_numBlocks]
  have hlt : sk.currBlock < sk.currBlock + numBlocks := Nat.lt_add_of_pos_right (by decide)
  rw [hslot, h.held _ le_rfl hlt]
  exact h.full _ le_rfl (hmax ▸ hlt)

/-- A slot that takes new rows holds no other block that is still needed. -/
theorem slot_ne_of_open (hopen : (sk.block sk.maxblockno).length < blockSize) {b : ℕ}
    (hb : sk.currBlock ≤ b) (hb' : b < sk.maxblockno) : slot b ≠ slot sk.maxblockno := by
  have hne : sk.maxblockno ≠ sk.currBlock + numBlocks := fun he =>
    hopen.ne (h.full_of_max_eq he)
  have hmax := h.max_le
  intro hs
  exact hb'.ne (slot_inj hs hb (by omega) h.curr_le (by omega))

end StoreInv

/-! ## One round of `send_ctcp` -/

/-- The server after `readBlock` has put rows into block `maxblockno`. -/
def placeRows (sk : Server) (added : List Payload) : Server :=
  { sk with
    blocks := update sk.blocks (slot sk.maxblockno) (sk.block sk.maxblockno ++ added)
    dofRemain := update sk.dofRemain (slot sk.maxblockno)
      (sk.dofRemain (slot sk.maxblockno) + added.length)
    jobs := sk.jobs ++ [⟨sk.maxblockno, (sk.block sk.maxblockno).length, added.length, 0⟩]
    dofReqLatest :=
      if sk.maxblockno = sk.currBlock then sk.dofReqLatest + added.length else sk.dofReqLatest }

theorem block_placeRows (sk : Server) (added : List Payload) :
    (placeRows sk added).block sk.maxblockno = sk.block sk.maxblockno ++ added :=
  update_self _ _ _

/-- A round with one byte puts one row into a block that is not full. -/
theorem sendCtcpRound_oneByte {sk : Server} (hroom : (sk.block sk.maxblockno).length < blockSize)
    (v : UInt8) : sendCtcpRound sk [v] = (placeRows sk [packRow [v]], [], .goOn) := by
  have hdiff : ((sk.block sk.maxblockno).length + 1 - (sk.block sk.maxblockno).length : ℤ) = 1 := by
    omega
  rw [sendCtcpRound, placeRows]
  simp [readBlock_oneByte hroom, hdiff]

/-- What a round does: it fills the last block, moves on to the next one, or waits. -/
inductive RoundSpec (sk : Server) (rest : List UInt8) : Server × List UInt8 × SendStatus → Prop
  | placed (added : List Payload) (rest' : List UInt8) (hne : added ≠ [])
      (hmax : sk.maxblockno < sk.currBlock + numBlocks)
      (hlen : (sk.block sk.maxblockno).length + added.length ≤ blockSize)
      (hpacks : ∀ pl ∈ added, ∃ bytes, bytes ≠ [] ∧ pl.Packs bytes)
      (hbytes : added.flatMap Payload.bytes ++ rest' = rest) :
      RoundSpec sk rest (placeRows sk added, rest', .goOn)
  | moved (hfull : (sk.block sk.maxblockno).length = blockSize)
      (hmax : sk.maxblockno < sk.currBlock + numBlocks) :
      RoundSpec sk rest ({ sk with maxblockno := sk.maxblockno + 1 }, rest, .goOn)
  | waits (hmax : sk.maxblockno = sk.currBlock + numBlocks) : RoundSpec sk rest (sk, rest, .waits)

variable {sk : Server} {filled : Filled}

theorem sendCtcpRound_spec (h : StoreInv sk filled) {rest : List UInt8} (hne : rest ≠ [])
    (hlen : rest.length < 2 ^ 32) : RoundSpec sk rest (sendCtcpRound sk rest) := by
  obtain ⟨added, hread⟩ := readBlock_spec (h.length_block_le sk.maxblockno) hlen
  have hmax := h.max_le
  have hsum := congrArg List.length hread.bytes_eq
  rw [List.length_append] at hsum
  by_cases hnil : added = []
  · have hrest : ¬(readBlock (sk.block sk.maxblockno) rest).2.length < rest.length := by
      rw [hnil] at hsum
      simp only [List.flatMap_nil, List.length_nil] at hsum
      omega
    have hfull : (sk.block sk.maxblockno).length = blockSize := by
      have hdone := hread.done.resolve_left fun he => by
        rw [he] at hrest
        exact hrest (List.length_pos_of_ne_nil hne)
      rwa [hnil, List.length_nil, Nat.add_zero] at hdone
    by_cases hroom : sk.maxblockno < sk.currBlock + numBlocks
    · rw [sendCtcpRound, if_neg hrest, if_pos hroom]
      exact .moved hfull hroom
    · rw [sendCtcpRound, if_neg hrest, if_neg hroom]
      exact .waits (by omega)
  · have hpos := List.length_pos_of_ne_nil hnil
    have hroom : sk.maxblockno < sk.currBlock + numBlocks := by
      have hlast := h.full_of_max_eq
      have hle := hread.length_le
      omega
    have heq : sendCtcpRound sk rest =
        (placeRows sk added, (readBlock (sk.block sk.maxblockno) rest).2, .goOn) := by
      rw [sendCtcpRound, if_pos (hread.length_lt hnil)]
      have hdiff : ((sk.block sk.maxblockno ++ added).length : ℤ) -
          (sk.block sk.maxblockno).length = added.length := by
        rw [List.length_append]
        omega
      simp only [hread.rows_eq, hdiff, placeRows]
    rw [heq]
    exact .placed added _ hnil hroom hread.length_le hread.packs hread.bytes_eq

/-- The record with more rows in block `b`. -/
def addRows (filled : Filled) (b : ℕ) (added : List Payload) : Filled :=
  update filled b (filled b ++ added)

theorem StoreInv.placeRows (h : StoreInv sk filled) {added : List Payload}
    (hmax : sk.maxblockno < sk.currBlock + numBlocks)
    (hlen : (sk.block sk.maxblockno).length + added.length ≤ blockSize)
    (hpacks : ∀ pl ∈ added, ∃ bytes, bytes ≠ [] ∧ pl.Packs bytes) :
    StoreInv (placeRows sk added) (addRows filled sk.maxblockno added) where
  curr_pos := h.curr_pos
  curr_le := h.curr_le
  max_le := h.max_le
  held b hb hb' := by
    by_cases he : b = sk.maxblockno
    · rw [he, addRows, update_self, ← h.held _ h.curr_le hmax]
      exact update_self _ _ _
    · have hs : slot b ≠ slot sk.maxblockno := fun hs => he (slot_inj hs hb hb' h.curr_le hmax)
      rw [addRows, update_of_ne he, ← h.held b hb hb']
      exact update_of_ne hs _ _
  full b hb hb' := by
    change b < sk.maxblockno at hb'
    rw [addRows, update_of_ne hb'.ne]
    exact h.full b hb hb'
  length_le b := by
    by_cases he : b = sk.maxblockno
    · rw [he, addRows, update_self, List.length_append, ← h.held _ h.curr_le hmax]
      exact hlen
    · rw [addRows, update_of_ne he]
      exact h.length_le b
  ahead b hb := by
    change sk.maxblockno < b at hb
    rw [addRows, update_of_ne hb.ne']
    exact h.ahead b hb
  beyond b hb := by
    rw [addRows, update_of_ne (hmax.trans_le hb).ne']
    exact h.beyond b hb
  zero := by
    have hpos := h.curr_pos.trans h.curr_le
    rw [addRows, update_of_ne (by omega)]
    exact h.zero
  packs b pl hpl := by
    by_cases he : b = sk.maxblockno
    · rw [he, addRows, update_self, List.mem_append] at hpl
      exact hpl.elim (h.packs _ pl) (hpacks pl)
    · rw [addRows, update_of_ne he] at hpl
      exact h.packs b pl hpl

theorem StoreInv.moveOn (h : StoreInv sk filled)
    (hfull : (sk.block sk.maxblockno).length = blockSize)
    (hmax : sk.maxblockno < sk.currBlock + numBlocks) :
    StoreInv { sk with maxblockno := sk.maxblockno + 1 } filled :=
  { h with
    curr_le := h.curr_le.trans (Nat.le_succ _)
    max_le := hmax
    full := fun b hb hb' => by
      rcases Nat.lt_succ_iff_lt_or_eq.mp hb' with hlt | rfl
      · exact h.full b hb hlt
      · rw [← h.held _ hb hmax, hfull]
    ahead := fun b hb => h.ahead b (Nat.lt_of_succ_lt hb) }

/-! ## Acknowledgements -/

theorem StoreInv.freeCurrBlock (h : StoreInv sk filled) : StoreInv (freeCurrBlock sk) filled where
  curr_pos := Nat.le_add_left _ _
  curr_le := le_max_left _ _
  max_le := by
    have hmax := h.max_le
    change max (sk.currBlock + 1) sk.maxblockno ≤ sk.currBlock + 1 + numBlocks
    omega
  held b hb hb' := by
    change sk.currBlock + 1 ≤ b at hb
    change b < sk.currBlock + 1 + numBlocks at hb'
    by_cases hlast : b = sk.currBlock + numBlocks
    · rw [h.beyond b hlast.ge, hlast, Server.block, slot_add_numBlocks]
      exact update_self _ _ _
    · have hs : slot b ≠ slot sk.currBlock := fun hs =>
        absurd (slot_inj hs (by omega) (by omega) le_rfl (Nat.lt_add_of_pos_right (by decide)))
          (by omega)
      rw [← h.held b (by omega) (by omega)]
      exact update_of_ne hs _ _
  full b hb hb' := by
    change sk.currBlock + 1 ≤ b at hb
    change b < max (sk.currBlock + 1) sk.maxblockno at hb'
    exact h.full b (by omega) (by omega)
  length_le := h.length_le
  ahead b hb := h.ahead b ((le_max_right _ _).trans_lt hb)
  beyond b hb := h.beyond b (by change sk.currBlock + 1 + numBlocks ≤ b at hb; omega)
  zero := h.zero
  packs := h.packs

theorem StoreInv.freeBlocks (h : StoreInv sk filled) (n : ℕ) :
    StoreInv (freeBlocks n sk) filled := by
  induction n generalizing sk with
  | zero => exact h
  | succ n ih => exact ih h.freeCurrBlock

theorem StoreInv.handleAckBlocks (h : StoreInv sk filled) (ack : AckPckt) :
    StoreInv (handleAckBlocks sk ack) filled :=
  { h.freeBlocks (ack.blockno - sk.currBlock) with }

end Ctcp
