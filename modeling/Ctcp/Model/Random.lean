import Ctcp.Model.Params

/-! # The coefficient generator of `util.c` -/

namespace Ctcp

/-- The three words of generator state, global variables of the source. -/
structure FastRand where
  x : UInt32
  y : UInt32
  z : UInt32
  deriving DecidableEq, Repr

/-- The macro `rotl`, on 32-bit words. -/
def rotl (r n : UInt32) : UInt32 := (r <<< n) ||| (r >>> (32 - n))

def seedfastrand (seed : UInt32) : FastRand where
  x := (seed >>> 16) + 4125832013
  y := (seed &&& 0xffff) + 814584116
  z := 542

/-- One draw, with the state it leaves behind. -/
def fastrand (s : FastRand) : UInt32 × FastRand :=
  let x := rotl (s.x * 255519323) 13
  let y := rotl (s.y * 3166389663) 17
  let z := rotl (s.z - rotl s.z 11) 27
  (x ^^^ y ^^^ z, ⟨x, y, z⟩)

/-- A draw reduced to a coefficient, `(uint8_t) (fastrand()%GF)`. -/
def drawCoeff (s : FastRand) : UInt8 × FastRand :=
  (((fastrand s).1 % UInt32.ofNat gf).toUInt8, (fastrand s).2)

/-- `n` successive coefficients from state `s`. -/
def drawCoeffs (s : FastRand) : ℕ → List UInt8
  | 0 => []
  | n + 1 => (drawCoeff s).1 :: drawCoeffs (drawCoeff s).2 n

/-- The seed both sides use for a packet of block `blockno`. -/
def coeffSeed (packetCoeff : UInt8) (blockno : ℕ) : UInt32 :=
  UInt32.ofNat (packetCoeff.toNat + blockno)

/-- The coefficients of a coded packet: `n` draws right after seeding. -/
def packetCoeffs (packetCoeff : UInt8) (blockno n : ℕ) : List UInt8 :=
  drawCoeffs (seedfastrand (coeffSeed packetCoeff blockno)) n

@[simp] theorem length_drawCoeffs (s : FastRand) (n : ℕ) : (drawCoeffs s n).length = n := by
  induction n generalizing s with
  | zero => rfl
  | succ n ih => simp [drawCoeffs, ih]

@[simp] theorem length_packetCoeffs (c : UInt8) (b n : ℕ) : (packetCoeffs c b n).length = n :=
  length_drawCoeffs _ n

end Ctcp
