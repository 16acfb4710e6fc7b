import Ctcp.Verification.Store.Invariant

/-! # The count `dof_req_latest` of what the current block still needs -/

namespace Ctcp

open Function

variable {sk : Server} {filled : Filled}

/-! ## Filling -/

/-- The rows that a round of `send_ctcp` puts into block `maxblockno`. -/
def roundRows (sk : Server) (rest : List UInt8) : List Payload :=
  ((sendCtcpRound sk rest).1.block sk.maxblockno).drop (sk.block sk.maxblockno).length

/-- A round in terms of the rows it adds: these raise `dof_req_latest` exactly when
they belong to the current block. -/
structure FillSpec (sk : Server) (filled : Filled) (sk' : Server) (filled' : Filled) : Prop where
  store : StoreInv sk' filled'
  curr_eq : sk'.currBlock = sk.currBlock
  length_le : ∀ b, (filled b).length ≤ (filled' b).length
  req_eq : sk'.dofReqLatest - (filled' sk.currBlock).length =
    sk.dofReqLatest - (filled sk.currBlock).length

theorem length_addRows_le (filled : Filled) (b : ℕ) (added : List Payload) (b' : ℕ) :
    (filled b').length ≤ (addRows filled b added b').length := by
  by_cases he : b' = b
  · simp [he, addRows]
  · simp [he, addRows]

theorem StoreInv.fill (h : StoreInv sk filled) {rest : List UInt8} (hne : rest ≠ [])
    (hlen : rest.length < 2 ^ 32) :
    FillSpec sk filled (sendCtcpRound sk rest).1
      (addRows filled sk.maxblockno (roundRows sk rest)) := by
  have hspec := sendCtcpRound_spec h hne hlen
  rw [roundRows]
  generalize sendCtcpRound sk rest = r at hspec
  cases hspec with
  | placed added rest' hne hmax hlen hpacks hbytes =>
      have hadded : ((Ctcp.placeRows sk added).block sk.maxblockno).drop
          (sk.block sk.maxblockno).length = added := by
        rw [block_placeRows, List.drop_left]
      simp only [hadded]
      refine ⟨h.placeRows hmax hlen hpacks, rfl, length_addRows_le _ _ _, ?_⟩
      by_cases he : sk.maxblockno = sk.currBlock
      · simp only [Ctcp.placeRows, he, if_true, addRows, update_self, List.length_append]
        omega
      · simp [Ctcp.placeRows, he, addRows, update_of_ne (Ne.symm he)]
  | moved hfull hmax =>
      have hadded : (({ sk with maxblockno := sk.maxblockno + 1 } : Server).block
          sk.maxblockno).drop (sk.block sk.maxblockno).length = [] := List.drop_length
      have hsame : addRows filled sk.maxblockno [] = filled := by simp [addRows]
      simp only [hadded, hsame]
      exact ⟨h.moveOn hfull hmax, rfl, fun _ => le_rfl, rfl⟩
  | waits hmax =>
      have hsame : addRows filled sk.maxblockno [] = filled := by simp [addRows]
      simp only [List.drop_length, hsame]
      exact ⟨h, rfl, fun _ => le_rfl, rfl⟩

theorem StoreInv.length_curr (h : StoreInv sk filled) :
    (sk.block sk.currBlock).length = (filled sk.currBlock).length := by
  rw [h.held _ le_rfl (Nat.lt_add_of_pos_right (by decide))]

/-! ## Freeing -/

@[simp] theorem freeBlocks_currBlock (n : ℕ) (sk : Server) :
    (freeBlocks n sk).currBlock = sk.currBlock + n := by
  induction n generalizing sk with
  | zero => rfl
  | succ n ih =>
      rw [freeBlocks, ih]
      simp only [freeCurrBlock]
      omega

theorem freeBlocks_maxblockno (n : ℕ) {sk : Server} (h : sk.currBlock ≤ sk.maxblockno) :
    (freeBlocks n sk).maxblockno = max (sk.currBlock + n) sk.maxblockno := by
  induction n generalizing sk with
  | zero => exact (max_eq_right h).symm
  | succ n ih =>
      rw [freeBlocks, ih (le_max_left _ _)]
      simp only [freeCurrBlock]
      omega

@[simp] theorem freeBlocks_dofReqLatest (n : ℕ) (sk : Server) :
    (freeBlocks n sk).dofReqLatest = sk.dofReqLatest := by
  induction n generalizing sk with
  | zero => rfl
  | succ n ih => rw [freeBlocks, ih]; rfl

@[simp] theorem handleAckBlocks_currBlock (sk : Server) (ack : AckPckt) :
    (handleAckBlocks sk ack).currBlock = max sk.currBlock ack.blockno := by
  change (freeBlocks _ sk).currBlock = _
  rw [freeBlocks_currBlock]
  omega

/-! ## The new count -/

/-- What `handle_ack` needs to know of the count before it: small enough that the
conversions between `int` and `uint32_t` change nothing. -/
structure ReqInv (sk : Server) : Prop where
  nonneg : 0 ≤ sk.dofReqLatest
  le_add : sk.dofReqLatest ≤ blockSize + (sk.block sk.currBlock).length

/-- The first acknowledgement for a block sets the count. -/
theorem ackDofReq_advanced {ack : AckPckt}
    (hlen : (sk.block sk.currBlock).length ≤ blockSize)
    (hdof : ack.dofRec.toNat ≤ (sk.block sk.currBlock).length) :
    ackDofReq sk true ack = (sk.block sk.currBlock).length - ack.dofRec.toNat := by
  simp only [blockSize] at hlen
  simp only [ackDofReq, int32, uint32, if_true]
  omega

/-- Any other one lowers it, unless it would claim more rows than there are: the
difference then wraps around to a large number. -/
theorem ackDofReq_same {ack : AckPckt} (hreq : 0 ≤ sk.dofReqLatest)
    (hreq' : sk.dofReqLatest ≤ 2 * blockSize)
    (hlen : (sk.block sk.currBlock).length ≤ blockSize) :
    ackDofReq sk false ack =
      if ack.dofRec.toNat ≤ (sk.block sk.currBlock).length then
        min sk.dofReqLatest ((sk.block sk.currBlock).length - ack.dofRec.toNat)
      else sk.dofReqLatest := by
  have hdof : ack.dofRec.toNat < 256 := ack.dofRec.toNat_lt
  simp only [blockSize] at hlen hreq'
  simp only [ackDofReq, int32, uint32, Bool.false_eq_true, if_false]
  by_cases hle : ack.dofRec.toNat ≤ (sk.block sk.currBlock).length
  · rw [if_pos hle]
    omega
  · rw [if_neg hle]
    omega

/-- The count after an acknowledgement, in terms of the rows ever filled. -/
def nextReq (sk : Server) (filled : Filled) (ack : AckPckt) : ℤ :=
  if sk.currBlock < ack.blockno then (filled ack.blockno).length - ack.dofRec.toNat
  else if ack.dofRec.toNat ≤ (filled sk.currBlock).length then
    min sk.dofReqLatest ((filled sk.currBlock).length - ack.dofRec.toNat)
  else sk.dofReqLatest

theorem StoreInv.ackDofReq_eq (h : StoreInv sk filled) (hreq : ReqInv sk) {ack : AckPckt}
    (hdof : sk.currBlock < ack.blockno →
      ack.dofRec.toNat ≤ (filled ack.blockno).length) :
    ackDofReq (Ctcp.freeBlocks (ack.blockno - sk.currBlock) sk) (sk.currBlock < ack.blockno) ack =
      nextReq sk filled ack := by
  have hfreed := h.freeBlocks (ack.blockno - sk.currBlock)
  have hcurr := freeBlocks_currBlock (ack.blockno - sk.currBlock) sk
  have hlen := hfreed.length_block_le (Ctcp.freeBlocks (ack.blockno - sk.currBlock) sk).currBlock
  have hheld := hfreed.length_curr
  by_cases hadv : sk.currBlock < ack.blockno
  · have hnew : (Ctcp.freeBlocks (ack.blockno - sk.currBlock) sk).currBlock = ack.blockno := by
      omega
    rw [hnew] at hheld hlen
    rw [nextReq, if_pos hadv, decide_eq_true hadv, ackDofReq_advanced, hnew, hheld]
    · rwa [hnew]
    · rw [hnew, hheld]
      exact hdof hadv
  · have hzero : ack.blockno - sk.currBlock = 0 := by omega
    have hle := hreq.le_add
    have hcap := h.length_block_le sk.currBlock
    rw [hzero, nextReq, if_neg hadv, decide_eq_false hadv, Ctcp.freeBlocks,
      ackDofReq_same hreq.nonneg (by omega) hcap, h.length_curr]

theorem nextReq_nonneg (hreq : ReqInv sk) {ack : AckPckt}
    (hdof : sk.currBlock < ack.blockno →
      ack.dofRec.toNat ≤ (filled ack.blockno).length) : 0 ≤ nextReq sk filled ack := by
  have hnonneg := hreq.nonneg
  unfold nextReq
  split_ifs with hadv hle
  · have := hdof hadv
    omega
  · omega
  · exact hnonneg

/-- The count is never negative before `handle_ack` would correct it. -/
theorem StoreInv.handleAckBlocks_dofReqLatest (h : StoreInv sk filled) (hreq : ReqInv sk)
    {ack : AckPckt}
    (hdof : sk.currBlock < ack.blockno →
      ack.dofRec.toNat ≤ (filled ack.blockno).length) :
    (Ctcp.handleAckBlocks sk ack).dofReqLatest = nextReq sk filled ack := by
  change max 0 (ackDofReq (Ctcp.freeBlocks (ack.blockno - sk.currBlock) sk) _ ack) = _
  rw [h.ackDofReq_eq hreq hdof]
  have hnonneg := nextReq_nonneg hreq hdof
  omega

/-! ## The range of the count over one step -/

theorem reqInv_create (slrScaling : ℚ) (paths : ℕ → SubstreamPath) (n : ℕ) :
    ReqInv (createSrvctcpSock noRows slrScaling paths n) where
  nonneg := show (0 : ℤ) ≤ blockSize by decide
  le_add := show (blockSize : ℤ) ≤ blockSize + 0 by decide

/-- The count and the length of the current block grow by the same number of rows. -/
theorem FillSpec.curr (hstore : StoreInv sk filled) {sk' : Server} {filled' : Filled}
    (hfill : FillSpec sk filled sk' filled') :
    (sk.block sk.currBlock).length ≤ (sk'.block sk'.currBlock).length ∧
      sk'.dofReqLatest - (sk'.block sk'.currBlock).length =
        sk.dofReqLatest - (sk.block sk.currBlock).length := by
  have hcurr := hfill.store.length_curr
  rw [hfill.curr_eq] at hcurr
  rw [hfill.curr_eq, hcurr, hstore.length_curr]
  exact ⟨hfill.length_le sk.currBlock, hfill.req_eq⟩

theorem ReqInv.fill (h : ReqInv sk) (hstore : StoreInv sk filled) {sk' : Server}
    {filled' : Filled} (hfill : FillSpec sk filled sk' filled') : ReqInv sk' := by
  obtain ⟨hlen, hreq⟩ := hfill.curr hstore
  have hnonneg := h.nonneg
  have hle := h.le_add
  constructor
  · omega
  · omega

theorem reqInv_startWorker (sk : Server) : ReqInv (startWorker sk) where
  nonneg := Int.natCast_nonneg _
  le_add := Int.le_add_of_nonneg_left (Int.natCast_nonneg _)

theorem ReqInv.handleAckBlocks (h : ReqInv sk) (hstore : StoreInv sk filled) {ack : AckPckt}
    (hdof : sk.currBlock < ack.blockno →
      ack.dofRec.toNat ≤ (filled ack.blockno).length) : ReqInv (handleAckBlocks sk ack) := by
  have hreq := hstore.handleAckBlocks_dofReqLatest h hdof
  have hcurr := (hstore.handleAckBlocks ack).length_curr
  have hle := h.le_add
  rw [hstore.length_curr] at hle
  constructor
  · rw [hreq]
    exact nextReq_nonneg h hdof
  · rw [hreq, hcurr, handleAckBlocks_currBlock, nextReq]
    split_ifs with hadv hrows
    · rw [max_eq_right hadv.le]
      omega
    · rw [max_eq_left (Nat.not_lt.mp hadv)]
      omega
    · rwa [max_eq_left (Nat.not_lt.mp hadv)]

end Ctcp
