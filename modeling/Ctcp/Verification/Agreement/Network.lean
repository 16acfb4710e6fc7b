import Ctcp.Library.Execution
import Ctcp.Verification.Decoder.Ack
import Ctcp.Verification.Decoder.Runs
import Ctcp.Verification.Store.Demand

/-! # Both parties and the packets between them -/

namespace Ctcp

open Function Program

/-! ## The system -/

/-- Where `handle_connection` stands: between two packets, or in the part of `bldack` that
follows its acknowledgement. -/
inductive HandlerPhase where
  | idle
  /-- Before the call of `partial_write`. -/
  | writing
  /-- At the head of the loop that decodes. -/
  | decoding

/-- Both parties, all rows ever filled, the rows that the client has decoded block after
block, and the packets ever sent. A packet of the sets may arrive at any time, any number
of times, or never. -/
structure Network where
  sk : Server
  filled : Filled
  client : Client
  phase : HandlerPhase
  decoded : ℕ → ℕ → Option Payload
  data : Set DataPckt
  acks : Set AckPckt

/-- The source rows that the slot of block `b` holds now. -/
def Server.sourceRows (sk : Server) (b r : ℕ) : Payload := (sk.block b).getD r fun _ => 0

inductive NetEvent where
  | fill (rest : List UInt8)
  | startWorker
  | transmit (msg : DataPckt)
  | arrive (rm : Residue) (msg : DataPckt)
  | write
  | decode
  | leave
  | ack (a : AckPckt)

/-- The steps of both parties. The server may send anything, and the replies of `usr_cache`
are arbitrary. `bldack` sends its acknowledgement when the packet is absorbed, before it
hands over or decodes anything. A handler that faults has no step. -/
inductive NetStep : Network → NetEvent → Network → Prop where
  | fill {s : Network} {rest : List UInt8} (hne : rest ≠ []) (hlen : rest.length < 2 ^ 32) :
      NetStep s (.fill rest)
        { s with
          sk := (sendCtcpRound s.sk rest).1
          filled := addRows s.filled s.sk.maxblockno (roundRows s.sk rest) }
  | startWorker {s : Network} : NetStep s .startWorker { s with sk := startWorker s.sk }
  | transmit {s : Network} {msg : DataPckt} :
      NetStep s (.transmit msg) { s with data := insert msg s.data }
  | arrive {s : Network} {rm : Residue} {msg : DataPckt} {mid : Client} (hidle : s.phase = .idle)
      (hmsg : msg ∈ s.data)
      (hmid : absorbPacket rm (unmarshallData s.client msg) msg = some mid) :
      NetStep s (.arrive rm msg)
        { s with
          client := mid
          phase := .writing
          acks := insert (buildAck mid msg.seqno) s.acks }
  | write {s : Network} {rm : Residue} {t : List (FifoCall × ℕ)} {blk : CodedBlock}
      (hphase : s.phase = .writing)
      (hopen : (s.client.block s.client.currBlock).dofs < (s.client.block s.client.currBlock).len)
      (hrun : (partialWrite rm (s.client.block s.client.currBlock)).Runs (fun _ _ => True) t
        (some blk)) :
      NetStep s .write
        { s with client := s.client.setBlock s.client.currBlock blk, phase := .decoding }
  | full {s : Network} (hphase : s.phase = .writing)
      (hfull : ¬(s.client.block s.client.currBlock).dofs <
        (s.client.block s.client.currBlock).len) :
      NetStep s .write { s with phase := .decoding }
  | decode {s : Network} {rm : Residue} {t : List (FifoCall × ℕ)} {blk : CodedBlock}
      (hphase : s.phase = .decoding)
      (hfull : (s.client.block s.client.currBlock).dofs = (s.client.block s.client.currBlock).len)
      (hunwrap : unwrap (s.client.block s.client.currBlock) = some blk)
      (hrun : (writeAndFreeBlock rm blk).Runs (fun _ _ => True) t (some ())) :
      NetStep s .decode
        { s with
          client := nextBlock s.client blk
          decoded := update s.decoded s.client.currBlock blk.content }
  | leave {s : Network} (hphase : s.phase = .decoding)
      (hopen : (s.client.block s.client.currBlock).dofs ≠
        (s.client.block s.client.currBlock).len) :
      NetStep s .leave { s with phase := .idle }
  | ack {s : Network} {a : AckPckt} (ha : a ∈ s.acks) :
      NetStep s (.ack a) { s with sk := handleAckBlocks s.sk a }

def network (memory : BlockMemory) : System Network NetEvent where
  init s := ∃ scaling paths n raw,
    s = ⟨createSrvctcpSock memory scaling paths n, fun _ => [], createClictcpSock raw, .idle,
      fun _ _ => none, ∅, ∅⟩
  step := NetStep

/-- A truthful packet of a block of the window, over rows that the block holds. -/
structure Sendable (sk : Server) (msg : DataPckt) : Prop where
  curr_le : sk.currBlock ≤ msg.blockno
  le_max : msg.blockno ≤ sk.maxblockno
  lt_add : msg.blockno < sk.currBlock + numBlocks
  rows_le : msg.startPacket.toNat + msg.numPackets.toNat ≤ (sk.block msg.blockno).length
  truthful : Truthful (sk.sourceRows msg.blockno) msg

/-- The server sends nothing else. -/
def SendsTruly (s : Network) : NetEvent → Prop
  | .transmit msg => Sendable s.sk msg
  | _ => True

/-! ## The invariant -/

/-- The client has no more of any block than was filled, and everything of the blocks that
the server has freed or that an acknowledgement says are done. -/
structure NetInv (s : Network) : Prop where
  store : StoreInv s.sk s.filled
  req : ReqInv s.sk
  shape : ClientShape s.client
  freed : ∀ b < s.sk.currBlock, s.client.dofsOf b = blockSize
  index_le : ∀ b, s.client.InWindow b →
    (s.client.block b).maxPacketIndex ≤ (s.filled b).length
  dofs_le : ∀ b, 1 ≤ b → s.client.dofsOf b ≤ (s.filled b).length
  data_lt : ∀ msg ∈ s.data, msg.blockno < s.sk.currBlock + numBlocks
  data_le : ∀ msg ∈ s.data,
    msg.startPacket.toNat + msg.numPackets.toNat ≤ (s.filled msg.blockno).length
  ack_full : ∀ a ∈ s.acks, ∀ b < a.blockno, s.client.dofsOf b = blockSize
  ack_dofs : ∀ a ∈ s.acks, a.dofRec.toNat ≤ s.client.dofsOf a.blockno
  settled : s.phase = .idle → (s.client.block s.client.currBlock).dofs < blockSize

variable {s : Network}

theorem netInv_create (slrScaling : ℚ) (paths : ℕ → SubstreamPath) (n : ℕ)
    (raw : ℕ → CodedBlock) :
    NetInv ⟨createSrvctcpSock noRows slrScaling paths n, fun _ => [], createClictcpSock raw, .idle,
      fun _ _ => none, ∅, ∅⟩ where
  store := storeInv_create slrScaling paths n
  req := reqInv_create slrScaling paths n
  shape := clientShape_create raw
  freed b hb := if_pos hb
  index_le _ _ := le_rfl
  dofs_le b hb := by
    have hpos : ¬b < (createClictcpSock raw).currBlock := Nat.not_lt.mpr hb
    rw [Client.dofsOf, if_neg hpos]
    split <;> exact le_rfl
  data_lt _ h := h.elim
  data_le _ h := h.elim
  ack_full _ h := h.elim
  ack_dofs _ h := h.elim
  settled _ := show 0 < blockSize by decide

/-- Between two packets the server is not ahead of the client. -/
theorem NetInv.curr_le (h : NetInv s) (hidle : s.phase = .idle) :
    s.sk.currBlock ≤ s.client.currBlock := by
  by_contra hlt
  have hfull := h.freed s.client.currBlock (Nat.not_le.mp hlt)
  rw [s.client.inWindow_currBlock.dofsOf_eq] at hfull
  exact (h.settled hidle).ne hfull

/-- An acknowledgement in flight never claims rows that the server has not filled. -/
theorem NetInv.ack_filled (h : NetInv s) {a : AckPckt} (ha : a ∈ s.acks)
    (hadv : s.sk.currBlock < a.blockno) : a.dofRec.toNat ≤ (s.filled a.blockno).length :=
  (h.ack_dofs a ha).trans (h.dofs_le _ (Nat.one_le_of_lt hadv))

/-! ## One step -/

theorem NetInv.fill (h : NetInv s) {rest : List UInt8} (hne : rest ≠ [])
    (hlen : rest.length < 2 ^ 32) :
    NetInv { s with
      sk := (sendCtcpRound s.sk rest).1
      filled := addRows s.filled s.sk.maxblockno (roundRows s.sk rest) } := by
  have hfill := h.store.fill hne hlen
  have hlonger := hfill.length_le
  have hcurr := hfill.curr_eq
  exact
    { store := hfill.store
      req := h.req.fill h.store hfill
      shape := h.shape
      freed := fun b hb => h.freed b (hcurr ▸ hb)
      index_le := fun b hb => (h.index_le b hb).trans (hlonger b)
      dofs_le := fun b hb => (h.dofs_le b hb).trans (hlonger b)
      data_lt := fun msg hmsg => hcurr ▸ h.data_lt msg hmsg
      data_le := fun msg hmsg => (h.data_le msg hmsg).trans (hlonger _)
      ack_full := h.ack_full
      ack_dofs := h.ack_dofs
      settled := h.settled }

theorem NetInv.transmit (h : NetInv s) {msg : DataPckt} (hmsg : Sendable s.sk msg) :
    NetInv { s with data := insert msg s.data } :=
  { h with
    data_lt := by
      rintro m (rfl | hm)
      · exact hmsg.lt_add
      · exact h.data_lt m hm
    data_le := by
      rintro m (rfl | hm)
      · rw [← h.store.held _ hmsg.curr_le hmsg.lt_add]
        exact hmsg.rows_le
      · exact h.data_le m hm }

theorem NetInv.inBlock (h : NetInv s) {msg : DataPckt} (hmsg : msg ∈ s.data) : InBlock msg :=
  (h.data_le msg hmsg).trans (h.store.length_le _)

/-- A packet in flight is absorbed as `AbsorbSpec` says. -/
theorem NetInv.absorbed (h : NetInv s) {rm : Residue} {msg : DataPckt} {mid : Client}
    (hmsg : msg ∈ s.data) (hmid : absorbPacket rm (unmarshallData s.client msg) msg = some mid) :
    AbsorbSpec rm msg s.client mid := by
  obtain ⟨mid', heq, habs⟩ := absorbPacket_spec rm h.shape fun _ => h.inBlock hmsg
  rwa [Option.some.inj (hmid.symm.trans heq)]

/-- The client after a packet: it has no less than before, and no more than was filled. -/
theorem NetInv.arrive (h : NetInv s) {rm : Residue} {msg : DataPckt} {mid : Client}
    (hidle : s.phase = .idle) (hmsg : msg ∈ s.data)
    (hmid : absorbPacket rm (unmarshallData s.client msg) msg = some mid) :
    NetInv { s with
      client := mid
      phase := .writing
      acks := insert (buildAck mid msg.seqno) s.acks } := by
  have hin := h.inBlock hmsg
  have habs := h.absorbed hmsg hmid
  obtain ⟨hfull, hdofs⟩ := buildAck_dofsOf habs.shape msg.seqno
  have hmore := habs.dofsOf_le h.shape hin
  have hle : ∀ b, mid.dofsOf b ≤ blockSize := by
    intro b
    rw [Client.dofsOf]
    split
    · exact le_rfl
    · split
      · exact (habs.shape.block b).dofs_le
      · exact Nat.zero_le _
  have hahead : msg.blockno < s.client.currBlock + numBlocks :=
    (h.data_lt msg hmsg).trans_le (Nat.add_le_add_right (h.curr_le hidle) _)
  have hindex : ∀ b, mid.InWindow b → (mid.block b).maxPacketIndex ≤ (s.filled b).length := by
    intro b hb
    apply habs.index_le h.shape hin hahead (h.data_le msg hmsg) h.index_le
    exact habs.inWindow_iff.mp hb
  exact
    { h with
      shape := habs.shape
      freed := fun b hb => le_antisymm (hle b) ((h.freed b hb).ge.trans (hmore b))
      index_le := hindex
      dofs_le := by
        intro b hb
        by_cases hwin : mid.InWindow b
        · rw [hwin.dofsOf_eq]
          exact (habs.shape.block b).dofs_le_index.trans (hindex b hwin)
        · refine le_trans (le_of_eq ?_) (h.dofs_le b hb)
          rw [Client.InWindow, not_and_or, not_le, not_lt] at hwin
          simp only [Client.dofsOf, habs.curr_eq] at hwin ⊢
          by_cases hold : b < s.client.currBlock
          · rw [if_pos hold, if_pos hold]
          · rw [if_neg hold, if_neg hold, if_neg (by omega), if_neg (by omega)]
      ack_full := by
        rintro a (rfl | ha) b hb
        · exact hfull b hb
        · exact le_antisymm (hle b) ((h.ack_full a ha b hb).ge.trans (hmore b))
      ack_dofs := by
        rintro a (rfl | ha)
        · exact hdofs
        · exact (h.ack_dofs a ha).trans (hmore _)
      settled := fun hp => HandlerPhase.noConfusion hp }

/-- A client that has the same of every block as before. -/
theorem NetInv.move (h : NetInv s) {csk : Client} {phase : HandlerPhase}
    {decoded : ℕ → ℕ → Option Payload} (hshape : ClientShape csk)
    (hdofs : csk.dofsOf = s.client.dofsOf)
    (hindex : ∀ b, csk.InWindow b → (csk.block b).maxPacketIndex ≤ (s.filled b).length)
    (hrest : phase = .idle → (csk.block csk.currBlock).dofs < blockSize) :
    NetInv { s with client := csk, phase := phase, decoded := decoded } :=
  { h with
    shape := hshape
    freed := fun b hb => (congrFun hdofs b).trans (h.freed b hb)
    index_le := hindex
    dofs_le := fun b hb => (congrFun hdofs b).le.trans (h.dofs_le b hb)
    ack_full := fun a ha b hb => (congrFun hdofs b).trans (h.ack_full a ha b hb)
    ack_dofs := fun a ha => (h.ack_dofs a ha).trans (congrFun hdofs _).ge
    settled := hrest }

theorem NetInv.deliver (h : NetInv s) {allow : FifoCall → ℕ → Prop} {t : List (FifoCall × ℕ)}
    {csk : Client} (hdel : DeliverSpec allow s.client t csk) (phase : HandlerPhase) :
    NetInv { s with client := csk, phase := phase } :=
  h.move hdel.shape hdel.dofsOf_eq (fun _ hb => hdel.index_le h.index_le hb) fun _ => hdel.rest

/-- The whole handler in one step. -/
theorem NetInv.handled (h : NetInv s) (hidle : s.phase = .idle) {rm : Residue} {msg : DataPckt}
    (hmsg : msg ∈ s.data) {t : List (FifoCall × ℕ)} {csk : Client} {a : AckPckt}
    (hrun : (handleData rm s.client msg).Runs (fun _ _ => True) t (some (csk, a))) :
    NetInv { s with client := csk, acks := insert a s.acks } := by
  obtain ⟨mid, hmid, habs⟩ := absorbPacket_spec rm h.shape fun _ => h.inBlock hmsg
  have hspec : (handleData rm s.client msg).Ensures (fun _ _ => True) fun t res =>
      ∃ csk', DeliverSpec (fun _ _ => True) mid t csk' ∧
        res = some (csk', buildAck mid msg.seqno) := by
    simp only [handleData, bldack, hmid]
    refine Ensures.bind (deliver_spec habs.shape) ?_
    rintro t _ ⟨csk', rfl, hdel⟩
    exact ⟨csk', by simpa using hdel, rfl⟩
  obtain ⟨csk', hdel, heq⟩ := ensures_iff.mp hspec t _ hrun
  obtain ⟨rfl, rfl⟩ := Prod.mk.injEq .. ▸ Option.some.inj heq
  have hdone := (h.arrive hidle hmsg hmid).deliver hdel .idle
  rw [← hidle] at hdone
  exact hdone

/-- A full block is decoded, and the client has it as before. -/
theorem dofsOf_nextBlock {csk : Client} (hfull : (csk.block csk.currBlock).dofs = blockSize)
    (blk : CodedBlock) : (nextBlock csk blk).dofsOf = csk.dofsOf := by
  funext b
  by_cases hin : (nextBlock csk blk).InWindow b
  · rw [hin.dofsOf_eq]
    rcases nextBlock_window hin with ⟨hin', -, heq⟩ | ⟨rfl, heq⟩
    · rw [heq, hin'.dofsOf_eq]
    · have hge : ¬csk.currBlock + numBlocks < csk.currBlock :=
        Nat.not_lt.mpr (Nat.le_add_right _ _)
      rw [heq, Client.dofsOf, if_neg hge, if_neg (lt_irrefl _)]
      rfl
  · have hcurr : (nextBlock csk blk).currBlock = csk.currBlock + 1 := rfl
    rw [Client.InWindow, not_and_or, not_le, not_lt] at hin
    rw [Client.dofsOf, Client.dofsOf]
    rcases hin with hlt | hge
    · rw [if_pos hlt]
      by_cases hold : b < csk.currBlock
      · rw [if_pos hold]
      · obtain rfl : b = csk.currBlock := by omega
        rw [if_neg hold, if_pos (Nat.lt_add_of_pos_right (by decide)), hfull]
    · rw [if_neg (by omega), if_neg (by omega), if_neg (by omega), if_neg (by omega)]

theorem NetInv.decode (h : NetInv s)
    (hfull : (s.client.block s.client.currBlock).dofs = (s.client.block s.client.currBlock).len)
    (hphase : s.phase = .decoding) (blk : CodedBlock) (decoded : ℕ → ℕ → Option Payload) :
    NetInv { s with client := nextBlock s.client blk, decoded := decoded } := by
  rw [(h.shape.block _).len_eq] at hfull
  refine h.move (h.shape.nextBlock blk) (dofsOf_nextBlock hfull blk) (fun b hb => ?_) fun hp => ?_
  · rcases nextBlock_window hb with ⟨hin, -, heq⟩ | ⟨-, heq⟩
    · rw [heq]
      exact h.index_le b hin
    · rw [heq]
      exact Nat.zero_le _
  · rw [hphase] at hp
    cases hp

theorem NetInv.ack (h : NetInv s) {a : AckPckt} (ha : a ∈ s.acks) :
    NetInv { s with sk := handleAckBlocks s.sk a } :=
  { h with
    store := h.store.handleAckBlocks a
    req := h.req.handleAckBlocks h.store fun hadv => h.ack_filled ha hadv
    freed := by
      intro b hb
      rw [handleAckBlocks_currBlock, lt_max_iff] at hb
      exact hb.elim (h.freed b) (h.ack_full a ha b)
    data_lt := by
      intro msg hmsg
      rw [handleAckBlocks_currBlock]
      exact (h.data_lt msg hmsg).trans_le (Nat.add_le_add_right (le_max_left _ _) _) }

theorem NetInv.startWorker (h : NetInv s) : NetInv { s with sk := startWorker s.sk } :=
  { h with
    store := { h.store with }
    req := reqInv_startWorker s.sk }

theorem NetInv.step {s' : Network} {e : NetEvent} (h : NetInv s) (hsends : SendsTruly s e)
    (hstep : NetStep s e s') : NetInv s' := by
  cases hstep with
  | fill hne hlen => exact h.fill hne hlen
  | startWorker => exact h.startWorker
  | transmit => exact h.transmit hsends
  | arrive hidle hmsg hmid => exact h.arrive hidle hmsg hmid
  | write hphase hopen hrun =>
      have hblk := h.shape.block s.client.currBlock
      rw [hblk.len_eq] at hopen
      obtain ⟨blk, heq, hspec⟩ := ensures_iff.mp (partialWrite_spec hblk hopen) _ _ hrun
      obtain rfl := Option.some.inj heq
      exact h.deliver (hspec.deliverSpec h.shape hopen) .decoding
  | full hphase hfull => exact { h with settled := fun hp => HandlerPhase.noConfusion hp }
  | decode hphase hfull hunwrap hrun => exact h.decode hfull hphase _ _
  | leave hphase hopen =>
      have hblk := h.shape.block s.client.currBlock
      rw [hblk.len_eq] at hopen
      exact { h with settled := fun _ => lt_of_le_of_ne hblk.dofs_le hopen }
  | ack ha => exact h.ack ha

theorem network_inv {s : Network} (h : ((network noRows).guard SendsTruly).Reachable s) :
    NetInv s := by
  apply h.invariant
  · rintro s ⟨scaling, paths, n, raw, rfl⟩
    exact netInv_create scaling paths n raw
  · exact fun _ _ _ hinv hstep => hinv.step hstep.1 hstep.2

/-! ## Scripted runs -/

/-- Both parties with the acknowledgements sent so far, in a run where every data
packet arrives at once. -/
structure Parties where
  sk : Server
  client : Client
  sent : List AckPckt

inductive ScriptStep where
  /-- A call of `send_ctcp` with one byte. -/
  | fill (byte : UInt8)
  /-- An uncoded packet. -/
  | deliver (blockno row : ℕ)
  | ack (a : AckPckt)

/-- The uncoded packet of a row. -/
def normalPacket (sk : Server) (blockno row : ℕ) : DataPckt where
  flag := .normal
  seqno := 0
  blockno := blockno
  startPacket := UInt8.ofNat row
  numPackets := 1
  packetCoeff := 1
  payload := sk.sourceRows blockno row

/-- An acknowledgement for the current block or a later one, or one that counts more rows
than the current block has. -/
def Prompt (sk : Server) (a : AckPckt) : Prop :=
  sk.currBlock ≤ a.blockno ∨ (sk.block sk.currBlock).length < a.dofRec.toNat

instance (sk : Server) (a : AckPckt) : Decidable (Prompt sk a) :=
  inferInstanceAs (Decidable (_ ∨ _))

/-- One step of a script; `late` says whether any acknowledgement may come. -/
def play (late : Bool) (p : Parties) : ScriptStep → Option Parties
  | .fill byte => some { p with sk := (sendCtcpRound p.sk [byte]).1 }
  | .deliver blockno row =>
    if p.sk.currBlock ≤ blockno ∧ blockno ≤ p.sk.maxblockno ∧
        blockno < p.sk.currBlock + numBlocks ∧ row < blockSize ∧
        row < (p.sk.block blockno).length then
      ((handleData ShortAfterLong.blank p.client
        (normalPacket p.sk blockno row)).runWith drainReply).2.map fun c =>
          ⟨p.sk, c.1, c.2 :: p.sent⟩
    else none
  | .ack a =>
    if a ∈ p.sent ∧ (late ∨ Prompt p.sk a) then some { p with sk := handleAckBlocks p.sk a }
    else none

/-- A connection over one path, before anything happens. -/
def opening : Parties where
  sk := createSrvctcpSock noRows 1 (fun _ => ⟨fun _ => 0, fun _ => 0, 1, 1, 8, 0⟩) 1
  client := createClictcpSock fun _ => ShortAfterLong.memory
  sent := []

/-- The network shows what a script computes. -/
structure Shows (s : Network) (p : Parties) : Prop where
  sk_eq : s.sk = p.sk
  client_eq : s.client = p.client
  idle : s.phase = .idle
  sent : ∀ a ∈ p.sent, a ∈ s.acks

theorem sendable_normalPacket {sk : Server} {blockno row : ℕ}
    (h : sk.currBlock ≤ blockno ∧ blockno ≤ sk.maxblockno ∧
      blockno < sk.currBlock + numBlocks ∧ row < blockSize ∧ row < (sk.block blockno).length) :
    Sendable sk (normalPacket sk blockno row) := by
  obtain ⟨hcurr, hmax, hlt, hrow, hlen⟩ := h
  have hnat : (UInt8.ofNat row).toNat = row := by
    rw [UInt8.toNat_ofNat']
    exact Nat.mod_eq_of_lt (hrow.trans (by decide))
  refine ⟨hcurr, hmax, hlt, ?_, ?_⟩
  · change (UInt8.ofNat row).toNat + 1 ≤ _
    rw [hnat]
    exact hlen
  · apply Truthful.normal
    · rfl
    · exact hnat.trans_lt hrow
    · rfl
    · change sk.sourceRows blockno row = sk.sourceRows blockno (UInt8.ofNat row).toNat
      rw [hnat]

/-- What the steps of a script meet: packets are truthful and over one row. -/
def Scripted (late : Bool) (s : Network) : NetEvent → Prop
  | .transmit msg => Sendable s.sk msg
  | .arrive _ msg => msg.numPackets.toNat ≤ 1
  | .ack a => late ∨ Prompt s.sk a
  | _ => True

theorem Scripted.sendsTruly {late : Bool} {s : Network} {e : NetEvent} (h : Scripted late s e) :
    SendsTruly s e := by
  cases e with
  | transmit msg => exact h
  | _ => trivial

section

variable {memory : BlockMemory} {late : Bool} {C : Network → NetEvent → Prop}

/-- The rounds of the decode loop, one after the other. -/
theorem reachable_decodeBlocks {rm : Residue} {fuel : ℕ} {s : Network}
    (h : ((network memory).guard C).Reachable s) (hC : ∀ s, C s NetEvent.decode)
    (hphase : s.phase = .decoding) {t : List (FifoCall × ℕ)} {csk : Client}
    (hrun : (decodeBlocks rm fuel s.client).Runs (fun _ _ => True) t (some csk)) :
    ∃ decoded,
      ((network memory).guard C).Reachable { s with client := csk, decoded := decoded } := by
  induction fuel generalizing s t with
  | zero =>
      cases hrun
      exact ⟨s.decoded, h⟩
  | succ fuel ih =>
      rw [decodeBlocks] at hrun
      split at hrun
      case isTrue hfull =>
        split at hrun
        case h_1 => cases hrun
        case h_2 blk hunwrap =>
          obtain ⟨t₁, written, t₂, hwrite, hrest, -⟩ := hrun.of_bind
          cases written with
          | none => cases hrest
          | some u =>
              have hdone := NetStep.decode hphase hfull hunwrap hwrite
              have hstep := h.step (e := NetEvent.decode) ⟨hC s, hdone⟩
              obtain ⟨decoded, hs⟩ := ih hstep hphase hrest
              exact ⟨decoded, hs⟩
      case isFalse =>
        cases hrun
        exact ⟨s.decoded, h⟩

/-- A handler that runs to its end. -/
theorem reachable_handled {s : Network} (h : ((network noRows).guard C).Reachable s)
    (hsends : ∀ s e, C s e → SendsTruly s e) (hC : ∀ s e, Scripted late s e → C s e)
    (hidle : s.phase = .idle) {rm : Residue} {msg : DataPckt} (hmsg : msg ∈ s.data)
    (hone : msg.numPackets.toNat ≤ 1) {t : List (FifoCall × ℕ)} {csk : Client} {a : AckPckt}
    (hrun : (handleData rm s.client msg).Runs (fun _ _ => True) t (some (csk, a))) :
    ∃ decoded, ((network noRows).guard C).Reachable
      { s with client := csk, acks := insert a s.acks, decoded := decoded } := by
  have hinv := network_inv (h.guard_mono hsends)
  have hdone := hinv.handled hidle hmsg hrun
  obtain ⟨mid, hmid, habs⟩ := absorbPacket_spec rm hinv.shape fun _ => hinv.inBlock hmsg
  have hmoved := h.step (e := NetEvent.arrive rm msg) ⟨hC _ _ hone, .arrive hidle hmsg hmid⟩
  -- the loop ends with a block that is not full
  have hleave : ∀ decoded, ((network noRows).guard C).Reachable
      { s with client := csk, phase := .decoding, acks := insert a s.acks, decoded := decoded } →
      ((network noRows).guard C).Reachable
        { s with client := csk, acks := insert a s.acks, decoded := decoded } := by
    intro decoded hs
    have hopen : (csk.block csk.currBlock).dofs ≠ (csk.block csk.currBlock).len := by
      rw [(hdone.shape.block _).len_eq]
      exact (hdone.settled hidle).ne
    have hend := hs.step (e := NetEvent.leave) ⟨hC _ _ trivial, .leave rfl hopen⟩
    rw [← hidle] at hend
    exact hend
  simp only [handleData, bldack, hmid, Program.map, deliver] at hrun
  obtain ⟨t₁, res, t₂, hdeliver, hres, -⟩ := hrun.of_bind
  cases res with
  | none => cases hres
  | some csk' =>
      cases hres
      split at hdeliver
      case isTrue hopen =>
        obtain ⟨t₃, blk, t₄, hwrite, hrest, -⟩ := hdeliver.of_bind
        cases blk with
        | none => cases hrest
        | some blk =>
            have hwritten := hmoved.step (e := NetEvent.write)
              ⟨hC _ _ trivial, .write rfl hopen hwrite⟩
            obtain ⟨decoded, hs⟩ :=
              reachable_decodeBlocks hwritten (fun s => hC s _ trivial) rfl hrest
            exact ⟨decoded, hleave decoded hs⟩
      case isFalse hfull =>
        have hwritten := hmoved.step (e := NetEvent.write) ⟨hC _ _ trivial, .full rfl hfull⟩
        obtain ⟨decoded, hs⟩ :=
          reachable_decodeBlocks hwritten (fun s => hC s _ trivial) rfl hdeliver
        exact ⟨decoded, hleave decoded hs⟩

theorem reachable_play {s : Network} {p p' : Parties} {e : ScriptStep}
    (hsends : ∀ s e, C s e → SendsTruly s e) (hC : ∀ s e, Scripted late s e → C s e)
    (h : ((network noRows).guard C).Reachable s) (hp : Shows s p)
    (hplay : play late p e = some p') :
    ∃ s', ((network noRows).guard C).Reachable s' ∧ Shows s' p' := by
  obtain ⟨sk, client, sent⟩ := p
  obtain ⟨rfl, rfl, hidle, hsent⟩ := hp
  cases e with
  | fill byte =>
      obtain rfl := Option.some.inj hplay
      exact ⟨_, h.step (e := NetEvent.fill [byte])
        ⟨hC _ _ trivial, .fill (List.cons_ne_nil byte []) (by simp)⟩, rfl, rfl, hidle, hsent⟩
  | deliver blockno row =>
      rw [play] at hplay
      split at hplay
      case isTrue hsend =>
        have hrun : (handleData ShortAfterLong.blank s.client
            (normalPacket s.sk blockno row)).Runs (fun _ _ => True) _ _ :=
          runs_runWith drainReply fun _ => trivial
        obtain ⟨⟨csk, a⟩, heq, rfl⟩ := Option.map_eq_some_iff.mp hplay
        rw [heq] at hrun
        have hsent' := h.step (e := NetEvent.transmit _)
          ⟨hC _ _ (sendable_normalPacket hsend), .transmit⟩
        obtain ⟨decoded, hdone⟩ :=
          reachable_handled hsent' hsends hC hidle (Set.mem_insert _ _) le_rfl hrun
        refine ⟨_, hdone, rfl, rfl, hidle, ?_⟩
        intro a' ha'
        cases ha' with
        | head => exact Set.mem_insert _ _
        | tail _ ha' => exact Set.mem_insert_of_mem _ (hsent a' ha')
      case isFalse => simp at hplay
  | ack a =>
      rw [play] at hplay
      split at hplay
      case isTrue ha =>
        obtain rfl := Option.some.inj hplay
        exact ⟨_, h.step (e := NetEvent.ack a) ⟨hC _ _ ha.2, .ack (hsent a ha.1)⟩, rfl, rfl, hidle,
          hsent⟩
      case isFalse => simp at hplay

/-- What a script computes is shown by a reachable state. -/
theorem reachable_script {p : Parties} {es : List ScriptStep}
    (hsends : ∀ s e, C s e → SendsTruly s e) (hC : ∀ s e, Scripted late s e → C s e)
    (hplay : es.foldlM (play late) opening = some p) :
    ∃ s, ((network noRows).guard C).Reachable s ∧ Shows s p := by
  have hinit : ((network noRows).guard C).Reachable
      ⟨opening.sk, fun _ => [], opening.client, .idle, fun _ _ => none, ∅, ∅⟩ :=
    .init ⟨_, _, _, _, rfl⟩
  have hshows : Shows
      ⟨opening.sk, fun _ => [], opening.client, .idle, fun _ _ => none, ∅, ∅⟩ opening :=
    ⟨rfl, rfl, rfl, fun _ ha => (List.not_mem_nil ha).elim⟩
  exact System.Reachable.replay (fun _ _ _ _ => reachable_play hsends hC) hinit hshows hplay

end

end Ctcp
