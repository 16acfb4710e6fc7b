import Ctcp.Model.FiniteField
import Ctcp.Model.Packet
import Ctcp.Model.Random

/-! # Coded packets, from `coding_job` of `srvctcp.c` -/

namespace Ctcp

/-- Where `coding_job` stands within a coded packet. -/
inductive CodingPhase where
  /-- About to choose `packet_coeff` and to seed the generator with it. -/
  | seeding
  /-- Seeded; these coefficients have been drawn. -/
  | drawing (packetCoeff : UInt8) (coeff : List UInt8)

/-- A running `coding_job`: its block, with `block_len` rows, the coded packets
still to make, and those made. -/
structure Coder where
  blockno : ℕ
  rows : List Payload
  remaining : ℕ
  phase : CodingPhase
  pushed : List DataPckt

/-- The loop that adds the rows up, each times its coefficient. -/
def codedPayload (rows : List Payload) (coeff : List UInt8) : Payload := fun j =>
  (coeff.zip rows).foldl
    (fun payload cr =>
      if cr.1 = 0 then payload else payload ^^^ fastFFmult (cr.2 j) (xFFlog cr.1)) 0

/-- The packet as it is pushed; `seqno` is set when it is sent. -/
def codedPacket (c : Coder) (packetCoeff : UInt8) (coeff : List UInt8) : DataPckt where
  flag := .coded
  seqno := 0
  blockno := c.blockno
  startPacket := 0
  numPackets := UInt8.ofNat c.rows.length
  packetCoeff := packetCoeff
  payload := codedPayload c.rows coeff

/-- `packet_coeff` is chosen, and the generator is seeded. -/
def Coder.seed (c : Coder) (packetCoeff : UInt8) : Coder :=
  { c with phase := .drawing packetCoeff [] }

/-- One coefficient is drawn from the generator. -/
def Coder.draw (c : Coder) (packetCoeff : UInt8) (coeff : List UInt8) (g : FastRand) : Coder :=
  { c with phase := .drawing packetCoeff (coeff ++ [(drawCoeff g).1]) }

/-- All coefficients are drawn: the packet is pushed, unless they are all zero. -/
def Coder.finish (c : Coder) (packetCoeff : UInt8) (coeff : List UInt8) : Coder :=
  if coeff.all (· == 0) then { c with phase := .seeding }
  else
    { c with
      remaining := c.remaining - 1
      phase := .seeding
      pushed := c.pushed ++ [codedPacket c packetCoeff coeff] }

end Ctcp
