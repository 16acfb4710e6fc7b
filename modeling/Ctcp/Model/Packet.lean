import Ctcp.Model.Params

/-! # Packets of `util.h` -/

namespace Ctcp

/-- `flag_t`. -/
inductive Flag where
  | normal | syn | synAck | fin | finAck | coded
  deriving DecidableEq, Repr

/-- The bytes of one row of a block. -/
abbrev Payload := Fin payloadSize → UInt8

namespace Payload

/-- Byte `i` of the payload; what lies behind its end is `stray`. -/
def byteD (pl : Payload) (stray : ℕ → UInt8) (i : ℕ) : UInt8 :=
  if h : i < payloadSize then pl ⟨i, h⟩ else stray (i - payloadSize)

/-- The length of the useful data: the first two bytes in network order. -/
def payloadLen (pl : Payload) : ℕ :=
  256 * (pl ⟨0, by decide⟩).toNat + (pl ⟨1, by decide⟩).toNat

/-- The `payloadLen` bytes that follow the length field in memory. -/
def data (pl : Payload) (stray : ℕ → UInt8) : List UInt8 :=
  (List.range pl.payloadLen).map fun i => pl.byteD stray (2 + i)

@[simp] theorem length_data (pl : Payload) (stray : ℕ → UInt8) :
    (pl.data stray).length = pl.payloadLen := by simp [data]

/-- The useful data lies inside the payload. -/
def Framed (pl : Payload) : Prop := 2 + pl.payloadLen ≤ payloadSize

instance (pl : Payload) : Decidable pl.Framed := inferInstanceAs (Decidable (_ ≤ _))

/-- Framed data does not depend on what lies behind the payload. -/
theorem Framed.data_eq {pl : Payload} (h : pl.Framed) (stray stray' : ℕ → UInt8) :
    pl.data stray = pl.data stray' := by
  apply List.map_congr_left
  intro i hi
  have hlt : 2 + i < payloadSize :=
    Nat.lt_of_lt_of_le (Nat.add_lt_add_left (List.mem_range.mp hi) 2) h
  simp only [byteD, hlt, dif_pos]

end Payload

/-- `Data_Pckt` without its time stamp. -/
structure DataPckt where
  flag : Flag
  seqno : ℕ
  blockno : ℕ
  startPacket : UInt8
  numPackets : UInt8
  packetCoeff : UInt8
  payload : Payload

/-- `Ack_Pckt` without its time stamp; its flag is `NORMAL`. -/
structure AckPckt where
  ackno : ℕ
  blockno : ℕ
  dofRec : UInt8
  deriving DecidableEq, Repr

end Ctcp
