import Ctcp.Model.Negotiate
import Mathlib.Data.List.Infix

/-! # Requests on the wire

What a client sends to `negotiate`, written so that no request is the start of another. -/

namespace Ctcp

inductive SocksAddr where
  | ip4 (ip : List UInt8)
  | domain (name : List UInt8)
  deriving DecidableEq

namespace SocksAddr

/-- The address with its type in front, and a length before a name. -/
def bytes : SocksAddr → List UInt8
  | ip4 ip => atypIp4 :: ip
  | domain name => atypDomain :: name.length.toUInt8 :: name

/-- A length is below 128, since `char` has a sign. -/
def Valid : SocksAddr → Prop
  | ip4 ip => ip.length = 4
  | domain name => name.length < 128

/-- The name that an upstream proxy is given. -/
def text : SocksAddr → List UInt8
  | ip4 ip => dotted ip
  | domain name => cString name

end SocksAddr

/-- The methods that the client proposes, and its request. -/
structure SocksRequest where
  methods : List UInt8
  ver : UInt8
  cmd : UInt8
  rsv : UInt8
  addr : SocksAddr
  port : List UInt8
  deriving DecidableEq

def helloBytes (methods : List UInt8) : List UInt8 :=
  socksVer :: methods.length.toUInt8 :: methods

namespace SocksRequest

/-- The request up to the address. -/
def head (w : SocksRequest) : List UInt8 :=
  helloBytes w.methods ++ w.ver :: w.cmd :: w.rsv :: w.addr.bytes

def bytes (w : SocksRequest) : List UInt8 := w.head ++ w.port

structure Valid (w : SocksRequest) : Prop where
  methods : w.methods.length < 128
  addr : w.addr.Valid
  port : w.port.length = 2

variable {w w' : SocksRequest}

theorem head_isPrefix (w : SocksRequest) : w.head <+: w.bytes := List.prefix_append _ _

end SocksRequest

/-! ## No request is the start of another -/

theorem toUInt8_inj {n m : ℕ} (hn : n < 128) (hm : m < 128) (h : n.toUInt8 = m.toUInt8) :
    n = m := by
  have hnat := congrArg UInt8.toNat h
  simp only [Nat.toUInt8_eq, UInt8.toNat_ofNat'] at hnat
  omega

/-- A counted list at the head of a string is determined by it. -/
theorem counted_inj {as bs rest rest' : List UInt8} (ha : as.length < 128) (hb : bs.length < 128)
    (h : as.length.toUInt8 :: (as ++ rest) = bs.length.toUInt8 :: (bs ++ rest')) :
    as = bs ∧ rest = rest' := by
  obtain ⟨hlen, hrest⟩ := List.cons.inj h
  exact List.append_inj hrest (toUInt8_inj ha hb hlen)

theorem SocksAddr.bytes_inj {a a' : SocksAddr} {rest rest' : List UInt8} (ha : a.Valid)
    (ha' : a'.Valid) (h : a.bytes ++ rest = a'.bytes ++ rest') : a = a' ∧ rest = rest' := by
  cases a with
  | ip4 ip =>
      cases a' with
      | ip4 ip' =>
          obtain ⟨-, h⟩ := List.cons.inj h
          obtain ⟨rfl, hrest⟩ := List.append_inj h (ha.trans ha'.symm)
          exact ⟨rfl, hrest⟩
      | domain name => exact absurd (List.cons.inj h).1 (by decide)
  | domain name =>
      cases a' with
      | ip4 ip => exact absurd (List.cons.inj h).1 (by decide)
      | domain name' =>
          obtain ⟨rfl, hrest⟩ := counted_inj ha ha' (List.cons.inj h).2
          exact ⟨rfl, hrest⟩

/-- Two requests that are both being sent agree up to the address. -/
theorem SocksRequest.head_inj {w w' : SocksRequest} {rest rest' : List UInt8} (hw : w.Valid)
    (hw' : w'.Valid) (h : w.head ++ rest = w'.head ++ rest') :
    w.methods = w'.methods ∧ w.ver = w'.ver ∧ w.cmd = w'.cmd ∧ w.rsv = w'.rsv ∧
      w.addr = w'.addr ∧ rest = rest' := by
  rw [head, head, List.append_assoc, List.append_assoc] at h
  obtain ⟨hmethods, hreq⟩ := counted_inj hw.methods hw'.methods (List.cons.inj h).2
  obtain ⟨hver, hreq⟩ := List.cons.inj hreq
  obtain ⟨hcmd, hreq⟩ := List.cons.inj hreq
  obtain ⟨hrsv, hreq⟩ := List.cons.inj hreq
  obtain ⟨haddr, hrest⟩ := SocksAddr.bytes_inj hw.addr hw'.addr hreq
  exact ⟨hmethods, hver, hcmd, hrsv, haddr, hrest⟩

theorem SocksRequest.bytes_inj {w w' : SocksRequest} {rest rest' : List UInt8} (hw : w.Valid)
    (hw' : w'.Valid) (h : w.bytes ++ rest = w'.bytes ++ rest') : w = w' ∧ rest = rest' := by
  rw [bytes, bytes, List.append_assoc, List.append_assoc] at h
  obtain ⟨hmethods, hver, hcmd, hrsv, haddr, hport⟩ := head_inj hw hw' h
  obtain ⟨hport, hrest⟩ := List.append_inj hport (hw.port.trans hw'.port.symm)
  cases w
  cases w'
  exact ⟨by simp_all, hrest⟩

/-- At most one request can be heard. -/
theorem SocksRequest.unique {w w' : SocksRequest} {heard : List UInt8} (hw : w.Valid)
    (hw' : w'.Valid) (h : w.bytes <+: heard) (h' : w'.bytes <+: heard) : w = w' := by
  obtain ⟨rest, rfl⟩ := h
  obtain ⟨rest', h'⟩ := h'
  exact (bytes_inj hw hw' h'.symm).1

end Ctcp
