import Ctcp.Model.Congestion

/-! # The loss estimators of a path, from `srvctcp.c`

Arithmetic is exact. The macros have no parentheses; where they are used they expand to the
values below all the same. -/

namespace Ctcp

/-- `slr_mem` -/
def slrMem : ℚ := 1 / 128

/-- `slr_longmem` -/
def slrLongmem : ℚ := 1 / (blockSize * 10 : ℕ)

/-- `SLR_LONG_INIT` -/
def slrLongInit : ℚ := 5 / 100

structure LossRates where
  slr : ℚ
  slrLong : ℚ
  slrLongstd : ℚ
  deriving DecidableEq

/-- `losses` of `handle_ack`. -/
def CongPath.losses (p : CongPath) (ackno : UInt32) : Int32 := (ackno - (p.sndUna + 1)).toInt32

namespace LossRates

/-- `init_stream` -/
def initStream : LossRates := ⟨0, slrLongInit, 0⟩

/-- A good acknowledgement. -/
def update (r : LossRates) (losses : ℤ) : LossRates :=
  let lossTmp := (1 - slrMem) ^ losses
  let slr := lossTmp * (1 - slrMem) * r.slr + (1 - lossTmp)
  let lossTmp := (1 - slrLongmem) ^ losses
  let slrLong := lossTmp * (1 - slrLongmem) * r.slrLong + (1 - lossTmp)
  { slr := slr
    slrLong := slrLong
    slrLongstd :=
      (1 - slrLongmem) * r.slrLongstd + slrLongmem * (|slr - slrLong| - r.slrLongstd) }

/-- `handle_ack` on path `p`. -/
def handleAck (p : CongPath) (ackno blockno currBlock : UInt32) (r : LossRates) : LossRates :=
  if p.BadAck ackno blockno currBlock then r
  else if ackno ≤ p.sndUna then r
  else r.update (p.losses ackno).toInt

/-- `timeout` on path `p`. -/
def timeout (p : CongPath) (maxidle : ℤ) (r : LossRates) : LossRates :=
  if maxidle < p.idle then r else { r with slr := r.slrLong }

end LossRates

end Ctcp
