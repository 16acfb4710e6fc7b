import Ctcp.Model.CodedBlock

/-! # The client's packet handler, from `clictcp.c` -/

namespace Ctcp

open Function

/-- The decoding state of a `clictcp_sock`. -/
structure Client where
  blocks : ℕ → CodedBlock
  currBlock : ℕ

/-- The block structure that block number `b` uses. -/
def Client.block (csk : Client) (b : ℕ) : CodedBlock := csk.blocks (slot b)

def Client.setBlock (csk : Client) (b : ℕ) (blk : CodedBlock) : Client :=
  { csk with blocks := update csk.blocks (slot b) blk }

/-- `create_clictcp_sock`, on the memory that `malloc` returned. -/
def createClictcpSock (raw : ℕ → CodedBlock) : Client where
  blocks k := initCodedBlock (raw k)
  currBlock := 1

/-- The largest row index a packet mentions is recorded before it is decoded. -/
def unmarshallData (csk : Client) (msg : DataPckt) : Client :=
  if csk.currBlock ≤ msg.blockno then
    csk.setBlock msg.blockno
      { csk.block msg.blockno with
        maxPacketIndex := max (msg.startPacket.toNat + msg.numPackets.toNat)
          (csk.block msg.blockno).maxPacketIndex }
  else csk

/-- The first part of `bldack`: the packet goes to its block, unless it is old,
too far ahead, or the block is already full. -/
def absorbPacket (rm : Residue) (csk : Client) (msg : DataPckt) : Option Client :=
  if msg.blockno < csk.currBlock then some csk
  else if csk.currBlock + numBlocks ≤ msg.blockno then some csk
  else if (csk.block msg.blockno).dofs < (csk.block msg.blockno).len then
    (insertPacket rm (csk.block msg.blockno) msg).map fun blk => csk.setBlock msg.blockno blk
  else some csk

/-- The skip-ahead loop over the blocks that are complete but not yet decoded. -/
def skipAhead (csk : Client) : ℕ → ℕ → ℕ → ℕ × ℕ
  | 0, blockno, dofRec => (blockno, dofRec)
  | fuel + 1, blockno, dofRec =>
    if dofRec = (csk.block blockno).len ∧ blockno < csk.currBlock + numBlocks then
      skipAhead csk fuel (blockno + 1) (csk.block (blockno + 1)).dofs
    else (blockno, dofRec)

/-- The acknowledgement `bldack` builds for the packet with number `seqno`. -/
def buildAck (csk : Client) (seqno : ℕ) : AckPckt :=
  let next := skipAhead csk numBlocks csk.currBlock (csk.block csk.currBlock).dofs
  { ackno := seqno + 1
    blockno := next.1
    dofRec := if csk.currBlock + numBlocks ≤ next.1 then 0 else UInt8.ofNat next.2 }

/-- The decode loop of `bldack`. Every round empties one slot of the ring, so
`numBlocks` rounds are enough. -/
def decodeBlocks (rm : Residue) : ℕ → Client → FifoProgram (Option Client)
  | 0, csk => .done (some csk)
  | fuel + 1, csk =>
    if (csk.block csk.currBlock).dofs = (csk.block csk.currBlock).len then
      match unwrap (csk.block csk.currBlock) with
      | none => .done none
      | some blk =>
        (writeAndFreeBlock rm blk).bind fun written =>
          match written with
          | none => .done none
          | some () =>
            decodeBlocks rm fuel
              { csk.setBlock csk.currBlock (initCodedBlock blk) with
                currBlock := csk.currBlock + 1 }
    else .done (some csk)

/-- The last part of `bldack`: hand over what can be handed over. -/
def deliver (rm : Residue) (csk : Client) : FifoProgram (Option Client) :=
  if (csk.block csk.currBlock).dofs < (csk.block csk.currBlock).len then
    (partialWrite rm (csk.block csk.currBlock)).bind fun blk =>
      match blk with
      | none => .done none
      | some blk => decodeBlocks rm numBlocks (csk.setBlock csk.currBlock blk)
  else decodeBlocks rm numBlocks csk

/-- `bldack`: the state it leaves and the acknowledgement it sends. -/
def bldack (rm : Residue) (csk : Client) (msg : DataPckt) :
    FifoProgram (Option (Client × AckPckt)) :=
  match absorbPacket rm csk msg with
  | none => .done none
  | some csk => (deliver rm csk).map fun csk' => csk'.map fun c => (c, buildAck csk msg.seqno)

/-- A data packet as `handle_connection` handles it. -/
def handleData (rm : Residue) (csk : Client) (msg : DataPckt) :
    FifoProgram (Option (Client × AckPckt)) :=
  bldack rm (unmarshallData csk msg) msg

end Ctcp
