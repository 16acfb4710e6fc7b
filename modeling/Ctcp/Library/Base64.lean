import Mathlib.Data.List.GetD
import Mathlib.Data.List.Nodup
import Mathlib.Data.UInt

/-! # Groups of three bytes as four digits of 6 bits

The encoding over any alphabet of 64 symbols and a sign that fills up the last group. -/

namespace Ctcp

/-- The symbols for the digits, and the sign that stands for none. -/
structure Alphabet (α : Type*) where
  symbols : List α
  pad : α
  length_eq : symbols.length = 64
  nodup : symbols.Nodup
  pad_not_mem : pad ∉ symbols

namespace Alphabet

variable {α : Type*} (A : Alphabet α)

def digit (n : ℕ) : α := A.symbols.getD n A.pad

def value [DecidableEq α] (x : α) : Option ℕ :=
  if x ∈ A.symbols then some (A.symbols.idxOf x) else none

variable {A}

theorem digit_mem {n : ℕ} (hn : n < 64) : A.digit n ∈ A.symbols := by
  have hlt : n < A.symbols.length := A.length_eq.symm ▸ hn
  rw [digit, List.getD_eq_getElem _ _ hlt]
  exact List.getElem_mem hlt

theorem value_digit [DecidableEq α] {n : ℕ} (hn : n < 64) : A.value (A.digit n) = some n := by
  have hlt : n < A.symbols.length := A.length_eq.symm ▸ hn
  rw [value, if_pos (digit_mem hn), digit, List.getD_eq_getElem _ _ hlt,
    A.nodup.idxOf_getElem]

theorem digit_ne_pad {n : ℕ} (hn : n < 64) : A.digit n ≠ A.pad :=
  fun h => A.pad_not_mem (h ▸ digit_mem hn)

variable (A)

/-- The digits of the first two bytes of a group, and of the last two. -/
def encode : List UInt8 → List α
  | [] => []
  | [a] => [A.digit (a.toNat / 4), A.digit (a.toNat % 4 * 16), A.pad, A.pad]
  | [a, b] =>
    [A.digit (a.toNat / 4), A.digit (a.toNat % 4 * 16 + b.toNat / 16),
      A.digit (b.toNat % 16 * 4), A.pad]
  | a :: b :: c :: rest =>
    A.digit (a.toNat / 4) :: A.digit (a.toNat % 4 * 16 + b.toNat / 16) ::
      A.digit (b.toNat % 16 * 4 + c.toNat / 64) :: A.digit (c.toNat % 64) :: encode rest

/-- Four symbols at a time; only the last group may be filled up. -/
def decode [DecidableEq α] : List α → Option (List UInt8)
  | [] => some []
  | w :: x :: y :: z :: rest => do
    let n ← A.value w
    let m ← A.value x
    let a := UInt8.ofNat (n * 4 + m / 16)
    if y = A.pad ∧ z = A.pad ∧ rest = [] then return [a]
    let p ← A.value y
    let b := UInt8.ofNat (m % 16 * 16 + p / 4)
    if z = A.pad ∧ rest = [] then return [a, b]
    let q ← A.value z
    let bytes ← decode rest
    return a :: b :: UInt8.ofNat (p % 4 * 64 + q) :: bytes
  | _ => none

variable {A}

theorem ofNat_eq {n : ℕ} {a : UInt8} (h : n = a.toNat) : UInt8.ofNat n = a := by
  rw [h, UInt8.ofNat_toNat]

theorem encode_length (bytes : List UInt8) :
    (A.encode bytes).length = (bytes.length + 2) / 3 * 4 := by
  induction bytes using encode.induct with
  | case1 => rfl
  | case2 a => simp [encode]
  | case3 a b => simp [encode]
  | case4 a b c rest ih =>
      rw [encode]
      simp only [List.length_cons, ih]
      omega

/-- What is encoded can be read again. -/
theorem decode_encode [DecidableEq α] (bytes : List UInt8) :
    A.decode (A.encode bytes) = some bytes := by
  induction bytes using encode.induct with
  | case1 => rfl
  | case2 a =>
      have ha := a.toNat_lt
      rw [encode, decode, value_digit (by omega), value_digit (by omega)]
      simp only [Option.bind_eq_bind, Option.bind_some, and_self, if_true]
      rw [ofNat_eq (a := a) (by omega)]
      rfl
  | case3 a b =>
      have ha := a.toNat_lt
      have hb := b.toNat_lt
      have hp : A.digit (b.toNat % 16 * 4) ≠ A.pad := digit_ne_pad (by omega)
      rw [encode, decode, value_digit (by omega), value_digit (by omega), value_digit (by omega)]
      simp only [Option.bind_eq_bind, Option.bind_some, hp, false_and, if_false, and_self, if_true]
      rw [ofNat_eq (a := a) (by omega), ofNat_eq (a := b) (by omega)]
      rfl
  | case4 a b c rest ih =>
      have ha := a.toNat_lt
      have hb := b.toNat_lt
      have hc := c.toNat_lt
      have hq : A.digit (c.toNat % 64) ≠ A.pad := digit_ne_pad (by omega)
      rw [encode, decode, value_digit (by omega), value_digit (by omega), value_digit (by omega),
        value_digit (by omega), ih]
      simp only [Option.bind_eq_bind, Option.bind_some, hq, false_and, and_false, if_false]
      rw [ofNat_eq (a := a) (by omega), ofNat_eq (a := b) (by omega), ofNat_eq (a := c) (by omega)]
      rfl

end Alphabet

end Ctcp
