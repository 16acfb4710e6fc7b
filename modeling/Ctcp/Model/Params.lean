import Mathlib.Data.Nat.Notation
import Mathlib.Tactic.Common

/-! # Compile-time constants of `util.h` -/

namespace Ctcp

/-- Field size of the code; the source also offers 2. -/
def gf : ℕ := 256

/-- Maximum number of packets in a block. -/
def blockSize : ℕ := 32

/-- Number of slots of the ring of blocks, on both sides. -/
def numBlocks : ℕ := 100

def maxCwnd : ℕ := 1000

def maxCodingWnd : ℕ := 32

def mss : ℕ := 1500

def ipudpHeaderSize : ℕ := 32

/-- Payload bytes of a `Data_Pckt`: what is left of the MSS after the IP and UDP
headers and the fields before `payload`. -/
def payloadSize : ℕ := mss - ipudpHeaderSize - (8 + 4 + 4 + 4 + 1 + 1 + 1)

theorem payloadSize_eq : payloadSize = 1445 := rfl

/-- The ring slot that block number `b` uses. -/
def slot (b : ℕ) : ℕ := b % numBlocks

/-- Two blocks of one window share a slot only if they are the same. -/
theorem slot_inj {c b b' : ℕ} (h : slot b = slot b') (hb : c ≤ b) (hb' : b < c + numBlocks)
    (hc : c ≤ b') (hc' : b' < c + numBlocks) : b = b' := by
  simp only [slot, numBlocks] at *
  omega

@[simp] theorem slot_add_numBlocks (b : ℕ) : slot (b + numBlocks) = slot b :=
  Nat.add_mod_right _ _

/-- Every slot belongs to some block of the window. -/
theorem exists_slot_eq (c b : ℕ) : ∃ b', slot b' = slot b ∧ c ≤ b' ∧ b' < c + numBlocks := by
  refine ⟨c + (b + numBlocks * c - c) % numBlocks, ?_, Nat.le_add_right _ _,
    Nat.add_lt_add_left (Nat.mod_lt _ (by decide)) _⟩
  simp only [slot, numBlocks]
  omega

end Ctcp
