import Ctcp.Library.Base64
import Ctcp.Model.Base64

/-! # `proxy_encode_base64` is the encoding over its table

The elements of a buffer of `char` have a sign, so that a byte from 128 on leads outside of the
table. -/

namespace Ctcp

/-- The table with `=`. -/
def b64Alphabet : Alphabet UInt8 := ⟨b64, 61, by decide, by decide, by decide⟩

theorem b64At_natCast {n : ℕ} (hn : n < 64) : b64At n = some (b64Alphabet.digit n) := by
  have hlt : n < b64.length := hn
  rw [b64At, if_pos (Int.natCast_nonneg n), Int.toNat_natCast, List.getElem?_eq_getElem hlt,
    Alphabet.digit]
  exact congrArg some (List.getD_eq_getElem _ _ hlt).symm

/-- A byte from 128 on is negative as a `char`. -/
theorem msb_eq_false_iff {b : UInt8} : b.toBitVec.msb = false ↔ b < 128 := by
  have hiff : b < 128 ↔ b.toNat < 128 := UInt8.lt_iff_toNat_lt
  rw [BitVec.msb_eq_decide, UInt8.toNat_toBitVec, decide_eq_false_iff_not, hiff]
  omega

theorem b64At_of_msb {z : Int8} (h : z.toBitVec.msb = true) : b64At z.toInt = none := by
  rw [BitVec.msb_eq_toInt, decide_eq_true_iff] at h
  have hneg : z.toInt < 0 := h
  exact if_neg (by omega)

theorem b64At_of_eq {z : Int8} {x : UInt8} (h : z.toBitVec = x.toBitVec) (hx : x.toNat < 64) :
    b64At z.toInt = some (b64Alphabet.digit x.toNat) := by
  rw [Int8.toInt, h, BitVec.toInt_eq_toNat_of_lt (by rw [UInt8.toNat_toBitVec]; omega)]
  exact b64At_natCast hx

/-- The index from the low bits of one element and the high bits of the next, whose sign it
has. -/
theorem b64At_or {z : Int8} {x b s : UInt8} {k : ℕ}
    (h : z.toBitVec = x.toBitVec ||| b.toBitVec.sshiftRight k)
    (hs : (b >>> s).toBitVec = b.toBitVec >>> k) (hlt : (x ||| (b >>> s)).toNat < 64) :
    b64At z.toInt = if b < 128 then some (b64Alphabet.digit (x ||| (b >>> s)).toNat) else none := by
  split
  next hb =>
    refine b64At_of_eq ?_ hlt
    rw [h, BitVec.sshiftRight_eq_of_msb_false (msb_eq_false_iff.mpr hb), ← hs]
    rfl
  next hb =>
    refine b64At_of_msb ?_
    rw [h, BitVec.msb_or, BitVec.msb_sshiftRight,
      Bool.eq_true_of_not_eq_false (mt msb_eq_false_iff.mp hb), Bool.or_true]

/-- Two parts of a byte side by side. -/
theorem or_eq_add {a b k : ℕ} (hb : b < 2 ^ k) : (a <<< k) ||| b = a * 2 ^ k + b := by
  rw [← Nat.shiftLeft_add_eq_or_of_lt hb, Nat.shiftLeft_eq]

/-- The digits of a group as the code computes them. -/
theorem b64_digits (a b : UInt8) :
    (((a &&& 3) <<< 4) ||| (b >>> 4)).toNat = a.toNat % 4 * 16 + b.toNat / 16 ∧
      (((a &&& 15) <<< 2) ||| (b >>> 6)).toNat = a.toNat % 16 * 4 + b.toNat / 64 ∧
        (a &&& 63).toNat = a.toNat % 64 := by
  have hb := b.toNat_lt
  have hand (k : ℕ) : a.toNat &&& (2 ^ k - 1) = a.toNat % 2 ^ k :=
    Nat.and_two_pow_sub_one_eq_mod _ _
  have h2 : a.toNat &&& 3 = a.toNat % 4 := hand 2
  have h4 : a.toNat &&& 15 = a.toNat % 16 := hand 4
  have h6 : a.toNat &&& 63 = a.toNat % 64 := hand 6
  refine ⟨?_, ?_, ?_⟩
  · have hwrap : (a.toNat % 4) <<< 4 % 256 = (a.toNat % 4) <<< 4 := by
      rw [Nat.shiftLeft_eq]
      omega
    have hlow : b.toNat / 16 < 2 ^ 4 := by omega
    simp only [UInt8.toNat_or, UInt8.toNat_shiftLeft, UInt8.toNat_and, UInt8.toNat_shiftRight]
    simp [h2, hwrap, or_eq_add hlow, Nat.shiftRight_eq_div_pow]
  · have hwrap : (a.toNat % 16) <<< 2 % 256 = (a.toNat % 16) <<< 2 := by
      rw [Nat.shiftLeft_eq]
      omega
    have hlow : b.toNat / 64 < 2 ^ 2 := by omega
    simp only [UInt8.toNat_or, UInt8.toNat_shiftLeft, UInt8.toNat_and, UInt8.toNat_shiftRight]
    simp [h4, hwrap, or_eq_add hlow, Nat.shiftRight_eq_div_pow]
  · simp [UInt8.toNat_and, h6]

/-- A group is encoded when its bytes are below 128. -/
theorem b64Quad_eq {a b c : UInt8} {quad : List UInt8} :
    b64Quad a.toInt8 b.toInt8 c.toInt8 = some quad ↔ (a < 128 ∧ b < 128 ∧ c < 128) ∧
      quad = [b64Alphabet.digit (a.toNat / 4), b64Alphabet.digit (a.toNat % 4 * 16 + b.toNat / 16),
        b64Alphabet.digit (b.toNat % 16 * 4 + c.toNat / 64), b64Alphabet.digit (c.toNat % 64)] := by
  have ha := a.toNat_lt
  have hb := b.toNat_lt
  have hc := c.toNat_lt
  have hfirst : ((0 : UInt8) ||| (a >>> 2)).toNat = a.toNat / 4 := by
    simp [Nat.shiftRight_eq_div_pow]
  rw [b64Quad, b64At_or (x := 0) (b := a) (s := 2) (k := 2) (BitVec.zero_or).symm rfl (by omega),
    b64At_or (x := (a &&& 3) <<< 4) (b := b) (s := 4) (k := 4) rfl rfl
      (by rw [(b64_digits a b).1]; omega),
    b64At_or (x := (b &&& 15) <<< 2) (b := c) (s := 6) (k := 6) rfl rfl
      (by rw [(b64_digits b c).2.1]; omega),
    b64At_of_eq (z := c.toInt8 &&& 63) (x := c &&& 63) rfl (by rw [(b64_digits c c).2.2]; omega),
    hfirst, (b64_digits a b).1, (b64_digits b c).2.1, (b64_digits c c).2.2]
  by_cases ha' : a < 128 <;> by_cases hb' : b < 128 <;> by_cases hc' : c < 128 <;>
    simp [ha', hb', hc', eq_comm]

/-! ## The whole string -/

/-- The signs at the end, which are set after the loop. -/
def setPads (n : ℕ) (dest : List UInt8) : List UInt8 :=
  let i := (n + 2) / 3 * 3
  let dest := if n + 1 ≤ i then dest.set (dest.length - 1) 61 else dest
  if n + 2 ≤ i then dest.set (dest.length - 2) 61 else dest

theorem proxyEncodeBase64_eq (src : List UInt8) :
    proxyEncodeBase64 src = (b64Loop src).map (setPads src.length) := by
  rw [proxyEncodeBase64]
  cases b64Loop src with
  | none => rfl
  | some dest => rfl

theorem b64Loop_cons (a b c : UInt8) (rest : List UInt8) :
    b64Loop (a :: b :: c :: rest) =
      (b64Quad a.toInt8 b.toInt8 c.toInt8).bind fun quad => (b64Loop rest).map (quad ++ ·) := by
  rw [b64Loop]
  cases b64Quad a.toInt8 b.toInt8 c.toInt8 with
  | none => rfl
  | some quad => cases b64Loop rest <;> rfl

theorem b64Quad_length {a b c : UInt8} {quad : List UInt8}
    (h : b64Quad a.toInt8 b.toInt8 c.toInt8 = some quad) :
    quad.length = 4 := by
  rw [(b64Quad_eq.mp h).2]
  rfl

theorem b64Loop_length {src dest : List UInt8} (h : b64Loop src = some dest) :
    dest.length = (src.length + 2) / 3 * 4 := by
  induction src using b64Loop.induct generalizing dest with
  | case1 =>
      cases h
      rfl
  | case2 a => simpa using b64Quad_length h
  | case3 a b => simpa using b64Quad_length h
  | case4 a b c rest ih =>
      rw [b64Loop_cons] at h
      obtain ⟨quad, hquad, h⟩ := Option.bind_eq_some_iff.mp h
      obtain ⟨tail, htail, rfl⟩ := Option.map_eq_some_iff.mp h
      rw [List.length_append, b64Quad_length hquad, ih htail]
      simp only [List.length_cons]
      omega

/-- A group in front leaves the signs where they are. -/
theorem setPads_append {n : ℕ} {quad dest : List UInt8} (hquad : quad.length = 4)
    (hdest : dest.length = (n + 2) / 3 * 4) :
    setPads (n + 3) (quad ++ dest) = quad ++ setPads n dest := by
  have hi : (n + 3 + 2) / 3 * 3 = (n + 2) / 3 * 3 + 3 := by omega
  have hone : n + 3 + 1 ≤ (n + 2) / 3 * 3 + 3 ↔ n + 1 ≤ (n + 2) / 3 * 3 := by omega
  have htwo : n + 3 + 2 ≤ (n + 2) / 3 * 3 + 3 ↔ n + 2 ≤ (n + 2) / 3 * 3 := by omega
  have hset (d : List UInt8) (k : ℕ) (hle : k ≤ d.length) :
      (quad ++ d).set ((quad ++ d).length - k) 61 = quad ++ d.set (d.length - k) 61 := by
    rw [List.set_append_right _ _ (by rw [List.length_append]; omega), List.length_append]
    congr 2
    omega
  simp only [setPads, hi, hone, htwo]
  by_cases h1 : n + 1 ≤ (n + 2) / 3 * 3
  · rw [if_pos h1, if_pos h1, hset dest 1 (by omega)]
    split
    · exact hset _ 2 (by rw [List.length_set]; omega)
    · rfl
  · rw [if_neg h1, if_neg h1, if_neg (by omega), if_neg (by omega)]

theorem proxyEncodeBase64_cons (a b c : UInt8) (rest : List UInt8) :
    proxyEncodeBase64 (a :: b :: c :: rest) =
      (b64Quad a.toInt8 b.toInt8 c.toInt8).bind
        fun quad => (proxyEncodeBase64 rest).map (quad ++ ·) := by
  rw [proxyEncodeBase64_eq, b64Loop_cons, proxyEncodeBase64_eq]
  cases hquad : b64Quad a.toInt8 b.toInt8 c.toInt8 with
  | none => rfl
  | some quad =>
      cases hrest : b64Loop rest with
      | none => rfl
      | some dest =>
          exact congrArg some (setPads_append (b64Quad_length hquad) (b64Loop_length hrest))

/-- The groups that are filled up with zeros. -/
theorem setPads_last (a b : UInt8) :
    setPads 1 [b64Alphabet.digit (a.toNat / 4), b64Alphabet.digit (a.toNat % 4 * 16 + 0 / 16),
      b64Alphabet.digit (0 % 16 * 4 + 0 / 64), b64Alphabet.digit (0 % 64)] =
        b64Alphabet.encode [a] ∧
      setPads 2 [b64Alphabet.digit (a.toNat / 4),
        b64Alphabet.digit (a.toNat % 4 * 16 + b.toNat / 16),
        b64Alphabet.digit (b.toNat % 16 * 4 + 0 / 64), b64Alphabet.digit (0 % 64)] =
        b64Alphabet.encode [a, b] := by
  rw [Alphabet.encode, Alphabet.encode]
  exact ⟨rfl, rfl⟩

/-- `proxy_encode_base64` returns a text if and only if all bytes are below 128; it is the
encoding over the table, from which the bytes can be read again. -/
theorem proxyEncodeBase64_spec (src dest : List UInt8) :
    (proxyEncodeBase64 src = some dest ↔
      (∀ b ∈ src, b < 128) ∧ dest = b64Alphabet.encode src) ∧
      b64Alphabet.decode (b64Alphabet.encode src) = some src ∧
        (b64Alphabet.encode src).length = (src.length + 2) / 3 * 4 := by
  refine ⟨?_, Alphabet.decode_encode src, Alphabet.encode_length src⟩
  induction src using b64Loop.induct generalizing dest with
  | case1 => simp [proxyEncodeBase64_eq, b64Loop, setPads, Alphabet.encode, eq_comm]
  | case2 a =>
      have hzero : (0 : UInt8) < 128 := by decide
      rw [proxyEncodeBase64_eq, b64Loop, Option.map_eq_some_iff]
      constructor
      · rintro ⟨quad, hquad, rfl⟩
        obtain ⟨⟨ha, -, -⟩, rfl⟩ := b64Quad_eq.mp hquad
        exact ⟨by simpa using ha, (setPads_last a 0).1⟩
      · rintro ⟨hall, rfl⟩
        exact ⟨_, b64Quad_eq.mpr ⟨⟨hall a (by simp), hzero, hzero⟩, rfl⟩, (setPads_last a 0).1⟩
  | case3 a b =>
      have hzero : (0 : UInt8) < 128 := by decide
      rw [proxyEncodeBase64_eq, b64Loop, Option.map_eq_some_iff]
      constructor
      · rintro ⟨quad, hquad, rfl⟩
        obtain ⟨⟨ha, hb, -⟩, rfl⟩ := b64Quad_eq.mp hquad
        exact ⟨by simp [ha, hb], (setPads_last a b).2⟩
      · rintro ⟨hall, rfl⟩
        exact ⟨_, b64Quad_eq.mpr ⟨⟨hall a (by simp), hall b (by simp), hzero⟩, rfl⟩,
          (setPads_last a b).2⟩
  | case4 a b c rest ih =>
      rw [proxyEncodeBase64_cons, Option.bind_eq_some_iff]
      constructor
      · rintro ⟨quad, hquad, hdest⟩
        obtain ⟨tail, htail, rfl⟩ := Option.map_eq_some_iff.mp hdest
        obtain ⟨⟨ha, hb, hc⟩, rfl⟩ := b64Quad_eq.mp hquad
        obtain ⟨hall, rfl⟩ := (ih tail).mp htail
        exact ⟨by simpa [ha, hb, hc] using hall, rfl⟩
      · rintro ⟨hall, rfl⟩
        refine ⟨_, b64Quad_eq.mpr ⟨⟨hall a (by simp), hall b (by simp), hall c (by simp)⟩, rfl⟩, ?_⟩
        rw [(ih _).mpr ⟨fun x hx => hall x (by simp [hx]), rfl⟩]
        rfl

end Ctcp
