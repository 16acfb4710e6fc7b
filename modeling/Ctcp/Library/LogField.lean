import Mathlib.Algebra.Field.Basic
import Mathlib.Algebra.Group.Hom.Defs
import Mathlib.Logic.Function.Iterate
import Mathlib.Tactic.Common

/-! # Fields presented by logarithm tables

A finite field is often stored as an additive group together with the powers of
one generator. The multiplication `exp (log x + log y)` is a field product as
soon as one multiplication by the generator is additive. -/

namespace Ctcp

open Function

/-- Powers and logarithms of a generator of the multiplicative group. Only
multiplication by the generator itself is assumed to be additive. -/
structure LogTable (F : Type*) [AddCommGroup F] where
  gen : F →+ F
  exp : ℕ → F
  log : F → ℕ
  order : ℕ
  exp_succ : ∀ n, exp (n + 1) = gen (exp n)
  exp_add_order : ∀ n, exp (n + order) = exp n
  exp_ne_zero : ∀ n, exp n ≠ 0
  exp_log : ∀ x, x ≠ 0 → exp (log x) = x
  order_pos : 0 < order

namespace LogTable

variable {F : Type*} [AddCommGroup F] (T : LogTable F)

/-! ## Powers of the generator -/

theorem exp_add (m n : ℕ) : T.exp (m + n) = (⇑T.gen)^[n] (T.exp m) := by
  induction n with
  | zero => rfl
  | succ n ih => rw [← Nat.add_assoc, T.exp_succ, ih, iterate_succ_apply']

/-- Exponents of equal powers may be exchanged under a common shift. -/
theorem exp_congr {m n : ℕ} (h : T.exp m = T.exp n) (k : ℕ) :
    T.exp (m + k) = T.exp (n + k) := by
  rw [T.exp_add, T.exp_add, h]

theorem exp_add_mul_order (n k : ℕ) : T.exp (n + T.order * k) = T.exp n := by
  induction k with
  | zero => simp
  | succ k ih => rw [Nat.mul_succ, ← Nat.add_assoc, T.exp_add_order, ih]

theorem iterate_gen_zero (n : ℕ) : (⇑T.gen)^[n] 0 = 0 := by
  induction n with
  | zero => rfl
  | succ n ih => rw [iterate_succ_apply', ih, map_zero]

theorem iterate_gen_add (n : ℕ) (x y : F) :
    (⇑T.gen)^[n] (x + y) = (⇑T.gen)^[n] x + (⇑T.gen)^[n] y := by
  induction n with
  | zero => rfl
  | succ n ih => simp only [iterate_succ_apply', ih, map_add]

/-! ## The product -/

variable [DecidableEq F]

/-- The product read off the tables; zero has no logarithm. -/
def mul (x y : F) : F :=
  if x = 0 ∨ y = 0 then 0 else T.exp (T.log x + T.log y)

/-- The inverse of a power is the complementary power. -/
def inv (x : F) : F :=
  if x = 0 then 0 else T.exp ((T.order - 1) * T.log x)

theorem mul_exp_exp (m n : ℕ) : T.mul (T.exp m) (T.exp n) = T.exp (m + n) := by
  have hm := T.exp_log _ (T.exp_ne_zero m)
  have hn := T.exp_log _ (T.exp_ne_zero n)
  simp only [mul, T.exp_ne_zero, or_self, if_false]
  rw [T.exp_congr hm, Nat.add_comm m, T.exp_congr hn, Nat.add_comm n]

@[simp] theorem mul_zero' (x : F) : T.mul x 0 = 0 := by simp [mul]

@[simp] theorem zero_mul' (x : F) : T.mul 0 x = 0 := by simp [mul]

omit [DecidableEq F] in
theorem exists_exp {x : F} (h : x ≠ 0) : ∃ n, T.exp n = x := ⟨_, T.exp_log x h⟩

theorem mul_comm' (x y : F) : T.mul x y = T.mul y x := by
  simp only [mul, or_comm, Nat.add_comm]

/-- Multiplying by a power of the generator is repeated multiplication by it. -/
theorem exp_mul (n : ℕ) (y : F) : T.mul (T.exp n) y = (⇑T.gen)^[n] y := by
  by_cases hy : y = 0
  · rw [hy, mul_zero', iterate_gen_zero]
  · obtain ⟨m, rfl⟩ := T.exists_exp hy
    rw [mul_exp_exp, Nat.add_comm, exp_add]

theorem one_mul' (x : F) : T.mul (T.exp 0) x = x := T.exp_mul 0 x

theorem mul_add' (x y z : F) : T.mul x (y + z) = T.mul x y + T.mul x z := by
  by_cases hx : x = 0
  · simp [hx]
  · obtain ⟨n, rfl⟩ := T.exists_exp hx
    simp only [exp_mul, iterate_gen_add]

theorem mul_assoc' (x y z : F) : T.mul (T.mul x y) z = T.mul x (T.mul y z) := by
  by_cases hx : x = 0
  · simp [hx]
  by_cases hy : y = 0
  · simp [hy]
  obtain ⟨m, rfl⟩ := T.exists_exp hx
  obtain ⟨n, rfl⟩ := T.exists_exp hy
  rw [mul_exp_exp, exp_mul, exp_mul, exp_mul, iterate_add_apply]

theorem mul_inv' {x : F} (hx : x ≠ 0) : T.mul x (T.inv x) = T.exp 0 := by
  obtain ⟨n, hn⟩ := T.exists_exp hx
  have hpos := T.order_pos
  have hmul : T.log x + (T.order - 1) * T.log x = 0 + T.order * T.log x := by
    obtain ⟨k, hk⟩ : ∃ k, T.order = k + 1 := ⟨T.order - 1, by omega⟩
    rw [hk, Nat.add_sub_cancel, Nat.zero_add, Nat.succ_mul, Nat.add_comm]
  calc
    T.mul x (T.inv x) = T.mul (T.exp (T.log x)) (T.exp ((T.order - 1) * T.log x)) := by
      rw [T.exp_log x hx, inv, if_neg hx]
    _ = T.exp (0 + T.order * T.log x) := by rw [mul_exp_exp, hmul]
    _ = T.exp 0 := T.exp_add_mul_order 0 _

/-- The field carried by a logarithm table. -/
@[reducible] def field : Field F where
  __ := ‹AddCommGroup F›
  mul := T.mul
  one := T.exp 0
  inv := T.inv
  left_distrib := T.mul_add'
  right_distrib x y z := by
    change T.mul (x + y) z = T.mul x z + T.mul y z
    rw [T.mul_comm', T.mul_add', T.mul_comm' z, T.mul_comm' z]
  zero_mul := T.zero_mul'
  mul_zero := T.mul_zero'
  mul_assoc := T.mul_assoc'
  one_mul := T.one_mul'
  mul_one x := (T.mul_comm' x _).trans (T.one_mul' x)
  mul_comm := T.mul_comm'
  exists_pair_ne := ⟨0, T.exp 0, (T.exp_ne_zero 0).symm⟩
  mul_inv_cancel _ h := T.mul_inv' h
  inv_zero := by
    change T.inv 0 = 0
    simp [inv]
  nnqsmul := _
  nnqsmul_def _ _ := rfl
  qsmul := _
  qsmul_def _ _ := rfl

end LogTable

end Ctcp
