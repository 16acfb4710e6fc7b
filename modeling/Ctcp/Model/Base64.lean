import Ctcp.Library.Text
import Ctcp.Model.Negotiate

/-! # `proxy_encode_base64` of `up_proxy.c` -/

namespace Ctcp

/-- The table `b64`. -/
def b64 : List UInt8 :=
  (List.range 26).map (fun i => 65 + i.toUInt8) ++ (List.range 26).map (fun i => 97 + i.toUInt8) ++
    (List.range 10).map (fun i => 48 + i.toUInt8) ++ [43, 47]

/-- `b64[n]`, which is outside of the table for a negative index. -/
def b64At (n : ℤ) : Option UInt8 := if 0 ≤ n then b64[n.toNat]? else none

/-- The four characters for three elements of a buffer of `char`, which has a sign. -/
def b64Quad (src b1 b2 : Int8) : Option (List UInt8) := do
  let c1 ← b64At (src >>> 2).toInt
  let c2 ← b64At (((src &&& 3) <<< 4) ||| (b1 >>> 4)).toInt
  let c3 ← b64At (((b1 &&& 15) <<< 2) ||| (b2 >>> 6)).toInt
  let c4 ← b64At (b2 &&& 63).toInt
  return [c1, c2, c3, c4]

/-- The loop, three bytes at a time, with zeros after the end of the string. -/
def b64Loop : List UInt8 → Option (List UInt8)
  | [] => some []
  | [src] => b64Quad src.toInt8 0 0
  | [src, b1] => b64Quad src.toInt8 b1.toInt8 0
  | src :: b1 :: b2 :: rest => do
    let quad ← b64Quad src.toInt8 b1.toInt8 b2.toInt8
    let dest ← b64Loop rest
    return quad ++ dest

/-- `proxy_encode_base64`: after the loop `i` is the first multiple of 3 from `src_len` on. -/
def proxyEncodeBase64 (src : List UInt8) : Option (List UInt8) := do
  let dest ← b64Loop src
  let i := (src.length + 2) / 3 * 3
  let dest := if src.length + 1 ≤ i then dest.set (dest.length - 1) 61 else dest
  return if src.length + 2 ≤ i then dest.set (dest.length - 2) 61 else dest

end Ctcp
