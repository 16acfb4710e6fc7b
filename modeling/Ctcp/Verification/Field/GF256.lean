import Ctcp.Library.LogField
import Ctcp.Model.FiniteField
import Mathlib.Algebra.Ring.Nat
import Mathlib.Data.List.GetD

/-! # The tables implement the field with 256 elements -/

namespace Ctcp

/-- A byte read as a field element. -/
@[ext] structure GF256 where
  byte : UInt8
  deriving DecidableEq

namespace GF256

/-! ## Addition -/

instance : Zero GF256 := ⟨⟨0⟩⟩
instance : Add GF256 := ⟨fun x y => ⟨x.byte ^^^ y.byte⟩⟩
instance : Neg GF256 := ⟨id⟩

@[simp] theorem byte_zero : (0 : GF256).byte = 0 := rfl
@[simp] theorem byte_add (x y : GF256) : (x + y).byte = x.byte ^^^ y.byte := rfl

instance : AddCommGroup GF256 where
  add_assoc x y z := by ext1; simp [UInt8.xor_assoc]
  zero_add x := by ext1; simp
  add_zero x := by ext1; simp
  add_comm x y := by ext1; simp [UInt8.xor_comm]
  neg_add_cancel x := by
    change x + x = 0
    ext1
    simp
  nsmul := nsmulRec
  zsmul := zsmulRec

/-! ## Multiplication by the generator -/

/-- Doubling modulo the field polynomial. -/
def xtime (x : UInt8) : UInt8 :=
  ⟨(x.toBitVec <<< 1) ^^^ (if x.toBitVec.msb then 0x1b else 0)⟩

theorem xtime_xor (x y : UInt8) : xtime (x ^^^ y) = xtime x ^^^ xtime y := by
  have hcancel : ∀ a b c : BitVec 8, a ^^^ c ^^^ (b ^^^ c) = a ^^^ b := by
    intro a b c
    rw [BitVec.xor_comm b, BitVec.xor_assoc, ← BitVec.xor_assoc c, BitVec.xor_self,
      BitVec.zero_xor]
  apply UInt8.toBitVec_inj.mp
  simp only [xtime, UInt8.toBitVec_xor, BitVec.shiftLeft_xor_distrib, BitVec.msb_xor]
  cases x.toBitVec.msb <;> cases y.toBitVec.msb
  · simp
  · simp [BitVec.xor_assoc]
  · simp only [Bool.bne_false, if_true, Bool.false_eq_true, if_false]
    ac_rfl
  · simpa using (hcancel _ _ 0x1b).symm

/-- The generator is 3, so multiplying by it adds a doubling to the argument. -/
def genMul (x : UInt8) : UInt8 := xtime x ^^^ x

theorem genMul_xor (x y : UInt8) : genMul (x ^^^ y) = genMul x ^^^ genMul y := by
  simp only [genMul, xtime_xor]
  ac_rfl

/-! ## Facts read off the tables

Each check compares whole lists, so that the tables are traversed once. Where the entries
of one table are positions in another, this is read as a number in base 256. -/

/-- The bytes of a table as the digits of a number. -/
def packed (table : List UInt8) : ℕ := table.foldr (fun b n => b.toNat + 256 * n) 0

/-- Digit `i` of the number. -/
def digit (table : List UInt8) (i : ℕ) : ℕ := packed table / 256 ^ i % 256

theorem digit_eq (table : List UInt8) (i : ℕ) : digit table i = (table.getD i 0).toNat := by
  induction table generalizing i with
  | nil => simp [digit, packed]
  | cons b table ih =>
      have hb := b.toNat_lt
      cases i with
      | zero =>
          change (b.toNat + 256 * packed table) / 1 % 256 = b.toNat
          omega
      | succ i =>
          have hrest : packed (b :: table) / 256 = packed table := by
            change (b.toNat + 256 * packed table) / 256 = _
            omega
          rw [digit, Nat.pow_succ', ← Nat.div_div_eq_div_mul, hrest]
          exact ih i

structure TablesChecked : Prop where
  length_ffAntilog : ffAntilog.length = 511
  length_ffLog : ffLog.length = 256
  length_invVec : invVec.length = 256
  /-- The second half repeats the first. -/
  ffAntilog_drop : ffAntilog.drop 255 = ffAntilog.take 256
  ffAntilog_tail : ffAntilog.tail = ffAntilog.dropLast.map genMul
  zero_notMem_ffAntilog : 0 ∉ ffAntilog
  ffLog_lt : ∀ l ∈ ffLog, l.toNat < 255
  ffLog_map_ffAntilog :
    (ffLog.tail.map fun l => digit ffAntilog l.toNat) = (List.range 255).map fun n => n + 1
  invVec_map_ffLog : (invVec.tail.map fun x => digit ffLog x.toNat % 255) =
    ffLog.tail.map fun l => (255 - l.toNat) % 255
  zero_notMem_invVec_tail : 0 ∉ invVec.tail

theorem tablesChecked : TablesChecked := by
  constructor <;> decide +kernel

theorem ffAntilog_getD_succ {n : ℕ} (h : n < 510) :
    ffAntilog.getD (n + 1) 0 = genMul (ffAntilog.getD n 0) := by
  have hl := tablesChecked.length_ffAntilog
  have ht : ffAntilog.tail[n]? = (ffAntilog.dropLast.map genMul)[n]? := by
    rw [tablesChecked.ffAntilog_tail]
  rw [List.getElem?_tail, List.getElem?_map, List.getElem?_dropLast, if_pos (by omega)] at ht
  rw [List.getD_eq_getElem?_getD, List.getD_eq_getElem?_getD, ht,
    List.getElem?_eq_getElem (by omega : n < ffAntilog.length)]
  rfl

theorem ffAntilog_getD_add {n : ℕ} (h : n < 256) :
    ffAntilog.getD (n + 255) 0 = ffAntilog.getD n 0 := by
  have ht : (ffAntilog.drop 255)[n]? = (ffAntilog.take 256)[n]? := by
    rw [tablesChecked.ffAntilog_drop]
  rw [List.getElem?_drop, List.getElem?_take, if_pos h, Nat.add_comm] at ht
  rw [List.getD_eq_getElem?_getD, List.getD_eq_getElem?_getD, ht]

theorem xFFlog_lt (x : UInt8) : (xFFlog x).toNat < 255 := by
  have hx : x.toNat < ffLog.length := by
    rw [tablesChecked.length_ffLog]
    exact UInt8.toNat_lt x
  rw [xFFlog, List.getD_eq_getElem _ _ hx]
  exact tablesChecked.ffLog_lt _ (List.getElem_mem hx)

/-- The position of a nonzero byte in the tables, past the entry of zero. -/
theorem exists_toNat_succ {x : UInt8} (h : x ≠ 0) : ∃ n < 255, x.toNat = n + 1 := by
  have hlt := UInt8.toNat_lt x
  have hne : x.toNat ≠ 0 := fun h0 => h (UInt8.toNat_inj.mp (by simpa using h0))
  exact ⟨x.toNat - 1, by omega, by omega⟩

theorem ffAntilog_xFFlog {x : UInt8} (h : x ≠ 0) : ffAntilog.getD (xFFlog x).toNat 0 = x := by
  obtain ⟨n, hn, hx⟩ := exists_toNat_succ h
  have hl : n + 1 < ffLog.length := by rw [tablesChecked.length_ffLog]; omega
  have ht := congrArg (fun l => l[n]?) tablesChecked.ffLog_map_ffAntilog
  simp only [List.getElem?_map, List.getElem?_tail, List.getElem?_range hn,
    List.getElem?_eq_getElem hl, Option.map_some, Option.some.injEq, digit_eq] at ht
  apply UInt8.toNat_inj.mp
  rw [xFFlog, hx, List.getD_eq_getElem _ _ hl, ht]

/-! ## The field -/

/-- Powers of the generator, continued past the end of `ffAntilog`. -/
def exp (n : ℕ) : GF256 := ⟨ffAntilog.getD (n % 255) 0⟩

theorem exp_eq_ffAntilog {n : ℕ} (h : n < 510) : exp n = ⟨ffAntilog.getD n 0⟩ := by
  by_cases hn : n < 255
  · rw [exp, Nat.mod_eq_of_lt hn]
  · obtain ⟨m, rfl⟩ : ∃ m, n = m + 255 := ⟨n - 255, by omega⟩
    rw [exp, Nat.add_mod_right, Nat.mod_eq_of_lt (by omega), ffAntilog_getD_add (by omega)]

theorem exp_succ (n : ℕ) : exp (n + 1) = ⟨genMul (exp n).byte⟩ := by
  have hn : n % 255 < 255 := Nat.mod_lt _ (by decide)
  have hs : exp (n + 1) = exp (n % 255 + 1) := by
    simp only [exp, Nat.mod_add_mod]
  rw [hs, exp_eq_ffAntilog (by omega), ffAntilog_getD_succ (by omega)]
  rfl

theorem exp_ne_zero (n : ℕ) : exp n ≠ 0 := by
  have hn : n % 255 < ffAntilog.length := by
    rw [tablesChecked.length_ffAntilog]
    exact (Nat.mod_lt n (by decide)).trans (by decide)
  intro h
  have hz : ffAntilog.getD (n % 255) 0 = 0 := congrArg GF256.byte h
  rw [List.getD_eq_getElem _ _ hn] at hz
  exact tablesChecked.zero_notMem_ffAntilog (hz ▸ List.getElem_mem hn)

theorem exp_xFFlog {x : GF256} (h : x ≠ 0) : exp (xFFlog x.byte).toNat = x := by
  have hx : x.byte ≠ 0 := fun h0 => h (GF256.ext h0)
  rw [exp_eq_ffAntilog ((xFFlog_lt _).trans (by decide)), ffAntilog_xFFlog hx]

/-- The logarithm tables of the source as a presentation of the field. -/
def logTable : LogTable GF256 where
  gen :=
    { toFun := fun x => ⟨genMul x.byte⟩
      map_zero' := by decide
      map_add' := fun x y => by ext1; exact genMul_xor _ _ }
  exp := exp
  log x := (xFFlog x.byte).toNat
  order := 255
  exp_succ := exp_succ
  exp_add_order n := by simp only [exp, Nat.add_mod_right]
  exp_ne_zero := exp_ne_zero
  exp_log _ h := exp_xFFlog h
  order_pos := by decide

instance : Field GF256 := logTable.field

/-! ## The source's products -/

theorem mul_def (x y : GF256) : x * y = logTable.mul x y := rfl

theorem byte_eq_zero {x : GF256} : x.byte = 0 ↔ x = 0 :=
  ⟨fun h => GF256.ext h, fun h => by rw [h]; rfl⟩

/-- `FFmult` is the field product. -/
theorem ffMult_eq (x y : UInt8) : ffMult x y = ((⟨x⟩ : GF256) * ⟨y⟩).byte := by
  have h : exp ((xFFlog x).toNat + (xFFlog y).toNat) =
      ⟨ffAntilog.getD ((xFFlog x).toNat + (xFFlog y).toNat) 0⟩ := by
    have hx := xFFlog_lt x
    have hy := xFFlog_lt y
    exact exp_eq_ffAntilog (by omega)
  by_cases hz : x = 0 ∨ y = 0
  · have hm : (⟨x⟩ : GF256) * ⟨y⟩ = 0 := by
      rcases hz with rfl | rfl
      · exact zero_mul _
      · exact mul_zero _
    rw [ffMult, if_pos hz, hm]
    rfl
  · have hg : ¬((⟨x⟩ : GF256) = 0 ∨ (⟨y⟩ : GF256) = 0) := by
      simpa only [← byte_eq_zero] using hz
    rw [ffMult, if_neg hz, mul_def, LogTable.mul, if_neg hg]
    exact (congrArg GF256.byte h).symm

/-- `fastFFmult` agrees with `FFmult` on the logarithm of a nonzero factor. -/
theorem fastFFmult_eq_ffMult (x : UInt8) {y : UInt8} (h : y ≠ 0) :
    fastFFmult x (xFFlog y) = ffMult x y := by
  simp only [fastFFmult, ffMult, h, or_false]

theorem fastFFmult_eq (x : UInt8) {y : UInt8} (h : y ≠ 0) :
    fastFFmult x (xFFlog y) = ((⟨x⟩ : GF256) * ⟨y⟩).byte := by
  rw [fastFFmult_eq_ffMult x h, ffMult_eq]

theorem inverse_ne_zero {x : UInt8} (h : x ≠ 0) : inverse x ≠ 0 := by
  obtain ⟨n, hn, hx⟩ := exists_toNat_succ h
  have hl : n + 1 < invVec.length := by rw [tablesChecked.length_invVec]; omega
  have hmem : invVec[n + 1] ∈ invVec.tail := by
    rw [List.mem_iff_getElem?]
    exact ⟨n, by rw [List.getElem?_tail, List.getElem?_eq_getElem hl]⟩
  rw [inverse, hx, List.getD_eq_getElem _ _ hl]
  exact fun h0 => tablesChecked.zero_notMem_invVec_tail (h0 ▸ hmem)

theorem xFFlog_inverse {x : UInt8} (h : x ≠ 0) :
    (xFFlog (inverse x)).toNat % 255 = (255 - (xFFlog x).toNat) % 255 := by
  obtain ⟨n, hn, hx⟩ := exists_toNat_succ h
  have hl : n + 1 < ffLog.length := by rw [tablesChecked.length_ffLog]; omega
  have hi : n + 1 < invVec.length := by rw [tablesChecked.length_invVec]; omega
  have ht := congrArg (fun l => l[n]?) tablesChecked.invVec_map_ffLog
  simp only [List.getElem?_map, List.getElem?_tail, List.getElem?_eq_getElem hl,
    List.getElem?_eq_getElem hi, Option.map_some, Option.some.injEq, digit_eq] at ht
  rw [inverse, hx, List.getD_eq_getElem _ _ hi, xFFlog, ht, xFFlog, hx,
    List.getD_eq_getElem _ _ hl]

/-- `inv_vec` holds the field inverses. -/
theorem inverse_eq {x : UInt8} (h : x ≠ 0) : (⟨inverse x⟩ : GF256) = (⟨x⟩ : GF256)⁻¹ := by
  have hx : (⟨x⟩ : GF256) ≠ 0 := fun h0 => h (byte_eq_zero.mpr h0)
  have hi : (⟨inverse x⟩ : GF256) ≠ 0 := fun h0 => inverse_ne_zero h (byte_eq_zero.mpr h0)
  refine (inv_eq_of_mul_eq_one_right ?_).symm
  change logTable.mul _ _ = exp 0
  rw [LogTable.mul, if_neg (not_or.mpr ⟨hx, hi⟩)]
  change exp ((xFFlog x).toNat + (xFFlog (inverse x)).toNat) = exp 0
  have hsum : ((xFFlog x).toNat + (xFFlog (inverse x)).toNat) % 255 = 0 := by
    have hlog := xFFlog_inverse h
    have hlt := xFFlog_lt x
    omega
  rw [exp, hsum]
  rfl

end GF256

end Ctcp
