import Ctcp.Library.Execution
import Ctcp.Verification.Store.Invariant

/-! # The block store over all runs of `send_ctcp` and `handle_ack` -/

namespace Ctcp

open Function

/-! ## The system -/

/-- A call of `send_ctcp` in progress: its buffer, the bytes left, and whether it
sits in the timed wait. -/
structure SendCall where
  buf : List UInt8
  rest : List UInt8
  waiting : Bool

/-- The bytes of the buffer that the call has taken so far. -/
def SendCall.taken (c : SendCall) : List UInt8 := c.buf.take (c.buf.length - c.rest.length)

/-- The server with all rows ever filled, the call in progress, and the bytes that
earlier calls accepted: the first `k` bytes of each buffer, where `k` was returned. -/
structure Sender where
  sk : Server
  filled : Filled
  call : Option SendCall
  accepted : List UInt8

/-- The bytes accepted so far, those of the call in progress included. -/
def Sender.acceptedSoFar (s : Sender) : List UInt8 :=
  s.accepted ++ (s.call.map SendCall.taken).getD []

/-- Steps of the two threads. A round of `send_ctcp` and a section of `handle_ack`
are each one step; a call waits until it times out or is woken. -/
inductive SenderEvent where
  | call (buf : List UInt8)
  | round
  | wake
  | timeOut
  | startWorker
  | ack (a : AckPckt)

/-- The steps of the server. -/
inductive SenderStep : Sender → SenderEvent → Sender → Prop where
  | call {s : Sender} {buf : List UInt8} (hidle : s.call = none) (hne : buf ≠ [])
      (hlen : buf.length < 2 ^ 32) :
      SenderStep s (.call buf) { s with call := some ⟨buf, buf, false⟩ }
  | round {s : Sender} {c : SendCall} (hcall : s.call = some c) (hgo : c.waiting = false)
      (hleft : c.rest ≠ []) :
      SenderStep s .round
        { s with
          sk := (sendCtcpRound s.sk c.rest).1
          filled := addRows s.filled s.sk.maxblockno
            (((sendCtcpRound s.sk c.rest).1.block s.sk.maxblockno).drop
              (s.sk.block s.sk.maxblockno).length)
          call := some ⟨c.buf, (sendCtcpRound s.sk c.rest).2.1,
            (sendCtcpRound s.sk c.rest).2.2 = .waits⟩ }
  | returns {s : Sender} {c : SendCall} (hcall : s.call = some c) (hgo : c.waiting = false)
      (hdone : c.rest = []) :
      SenderStep s .round { s with call := none, accepted := s.accepted ++ c.taken }
  | wake {s : Sender} {c : SendCall} (hcall : s.call = some c) (hwait : c.waiting = true) :
      SenderStep s .wake { s with call := some { c with waiting := false } }
  | timeOut {s : Sender} {c : SendCall} (hcall : s.call = some c) (hwait : c.waiting = true) :
      SenderStep s .timeOut { s with call := none, accepted := s.accepted ++ c.taken }
  | startWorker {s : Sender} : SenderStep s .startWorker { s with sk := startWorker s.sk }
  | ack {s : Sender} {a : AckPckt} :
      SenderStep s (.ack a) { s with sk := handleAckBlocks s.sk a }

def sender (memory : BlockMemory) : System Sender SenderEvent where
  init s := ∃ scaling paths n,
    s = ⟨createSrvctcpSock memory scaling paths n, fun _ => [], none, []⟩
  step := SenderStep

/-! ## The stream -/

/-- The useful bytes of all blocks ever filled, in block and row order. -/
def storedBytes (filled : Filled) (n : ℕ) : List UInt8 :=
  (List.range' 1 n).flatMap fun b => (filled b).flatMap Payload.bytes

/-- Blocks that are still empty add nothing. -/
theorem storedBytes_add {filled : Filled} {n : ℕ} (hempty : ∀ b, n < b → filled b = []) (k : ℕ) :
    storedBytes filled (n + k) = storedBytes filled n := by
  induction k with
  | zero => rfl
  | succ k ih =>
      rw [← Nat.add_assoc, storedBytes, List.range'_1_concat, List.flatMap_append, ← storedBytes,
        ih, List.flatMap_singleton, hempty _ (by omega), List.flatMap_nil, List.append_nil]

theorem storedBytes_addRows {filled : Filled} {n : ℕ} (hn : 1 ≤ n) (added : List Payload) :
    storedBytes (addRows filled n added) n =
      storedBytes filled n ++ added.flatMap Payload.bytes := by
  obtain ⟨k, rfl⟩ : ∃ k, n = k + 1 := ⟨n - 1, by omega⟩
  have hlow : (List.range' 1 k).flatMap
      (fun b => (addRows filled (k + 1) added b).flatMap Payload.bytes) = storedBytes filled k := by
    refine List.flatMap_congr fun b hb => ?_
    have hlt : b ≠ k + 1 := by have := List.mem_range'_1.mp hb; omega
    rw [addRows, update_of_ne hlt]
  have hlast : storedBytes filled (k + 1) =
      storedBytes filled k ++ (filled (k + 1)).flatMap Payload.bytes := by
    rw [storedBytes, List.range'_1_concat, List.flatMap_append, List.flatMap_singleton,
      Nat.add_comm 1 k]
    rfl
  rw [hlast, storedBytes, List.range'_1_concat, List.flatMap_append, hlow,
    List.flatMap_singleton, Nat.add_comm 1 k, addRows, update_self, List.flatMap_append,
    List.append_assoc]

theorem addRows_nil (filled : Filled) (b : ℕ) : addRows filled b [] = filled := by
  rw [addRows, List.append_nil, update_eq_self]

/-! ## The invariant -/

/-- The store is intact and holds exactly the accepted bytes. -/
structure SenderInv (s : Sender) : Prop where
  store : StoreInv s.sk s.filled
  call_lt : ∀ c ∈ s.call, c.buf.length < 2 ^ 32 ∧ c.rest.length ≤ c.buf.length ∧
    c.rest = c.buf.drop (c.buf.length - c.rest.length)
  bytes_eq : storedBytes s.filled s.sk.maxblockno = s.acceptedSoFar

theorem storedBytes_freeBlocks {sk : Server} {filled : Filled} (h : StoreInv sk filled) (n : ℕ) :
    storedBytes filled (freeBlocks n sk).maxblockno = storedBytes filled sk.maxblockno := by
  induction n generalizing sk with
  | zero => rfl
  | succ n ih =>
      rw [freeBlocks, ih h.freeCurrBlock]
      obtain ⟨k, hk⟩ := Nat.exists_eq_add_of_le (le_max_right (sk.currBlock + 1) sk.maxblockno)
      change storedBytes filled (max (sk.currBlock + 1) sk.maxblockno) = _
      rw [hk, storedBytes_add h.ahead]

/-- Taking `bytes` from the front of what is left extends what was taken by them. -/
theorem SendCall.taken_append {c : SendCall} {bytes rest : List UInt8} {w : Bool}
    (hrest : c.rest = c.buf.drop (c.buf.length - c.rest.length)) (hsplit : bytes ++ rest = c.rest) :
    (SendCall.mk c.buf rest w).taken = c.taken ++ bytes ∧ rest.length ≤ c.buf.length ∧
      rest = c.buf.drop (c.buf.length - rest.length) := by
  have hbuf : c.buf = c.taken ++ (bytes ++ rest) := by
    rw [hsplit]
    conv_lhs => rw [← List.take_append_drop (c.buf.length - c.rest.length) c.buf, ← hrest]
    rfl
  have hlen : c.buf.length = c.taken.length + (bytes.length + rest.length) := by
    rw [← List.length_append, ← List.length_append, ← hbuf]
  have hsub : c.buf.length - rest.length = (c.taken ++ bytes).length := by
    rw [List.length_append]
    omega
  have hbuf' : c.buf = (c.taken ++ bytes) ++ rest := by rw [List.append_assoc]; exact hbuf
  refine ⟨?_, by omega, ?_⟩
  · change c.buf.take (c.buf.length - rest.length) = _
    rw [hsub]
    conv_lhs => rw [hbuf']
    exact List.take_left' rfl
  · rw [hsub]
    conv_rhs => rw [hbuf']
    exact (List.drop_left' rfl).symm

theorem SenderInv.step {s s' : Sender} {e : SenderEvent} (h : SenderInv s)
    (hstep : SenderStep s e s') : SenderInv s' := by
  cases hstep with
  | call hidle hne hlen =>
      refine ⟨h.store, fun c hc => ?_, ?_⟩
      · obtain rfl := Option.some.inj hc
        exact ⟨hlen, le_rfl, by simp⟩
      · rw [h.bytes_eq, Sender.acceptedSoFar, hidle]
        simp [Sender.acceptedSoFar, SendCall.taken]
  | @round c hcall hgo hleft =>
      obtain ⟨hlt, hle, hdrop⟩ := h.call_lt c hcall
      have hbytes := h.bytes_eq
      rw [Sender.acceptedSoFar, hcall, Option.map_some, Option.getD_some] at hbytes
      have hspec := sendCtcpRound_spec h.store hleft (hle.trans_lt hlt)
      generalize sendCtcpRound s.sk c.rest = r at hspec
      cases hspec with
      | placed added rest' hne hmax hlen hpacks hsplit =>
          rw [block_placeRows, List.drop_left]
          obtain ⟨htaken, hle', hdrop'⟩ := SendCall.taken_append (w := false) hdrop hsplit
          refine ⟨h.store.placeRows hmax hlen hpacks, fun c' hc' => ?_, ?_⟩
          · obtain rfl := Option.some.inj hc'
            exact ⟨hlt, hle', hdrop'⟩
          · change storedBytes (addRows s.filled s.sk.maxblockno added) s.sk.maxblockno =
              s.accepted ++ (SendCall.mk c.buf rest' false).taken
            rw [storedBytes_addRows (h.store.curr_pos.trans h.store.curr_le), hbytes, htaken,
              List.append_assoc]
      | moved hfull hmax =>
          change SenderInv ⟨{ s.sk with maxblockno := s.sk.maxblockno + 1 },
            addRows s.filled s.sk.maxblockno ((s.sk.block s.sk.maxblockno).drop _), _, _⟩
          rw [List.drop_length, addRows_nil]
          refine ⟨h.store.moveOn hfull hmax, fun c' hc' => ?_, ?_⟩
          · obtain rfl := Option.some.inj hc'
            exact ⟨hlt, hle, hdrop⟩
          · exact (storedBytes_add h.store.ahead 1).trans hbytes
      | waits hmax =>
          rw [List.drop_length, addRows_nil]
          refine ⟨h.store, fun c' hc' => ?_, hbytes⟩
          obtain rfl := Option.some.inj hc'
          exact ⟨hlt, hle, hdrop⟩
  | returns hcall hgo hdone =>
      refine ⟨h.store, fun _ hc => by simp at hc, ?_⟩
      rw [h.bytes_eq, Sender.acceptedSoFar, hcall]
      simp [Sender.acceptedSoFar]
  | @wake c hcall hwait =>
      refine ⟨h.store, fun c' hc => ?_, ?_⟩
      · obtain rfl := Option.some.inj hc
        exact h.call_lt c hcall
      · rw [h.bytes_eq, Sender.acceptedSoFar, hcall]
        rfl
  | timeOut hcall hwait =>
      refine ⟨h.store, fun _ hc => by simp at hc, ?_⟩
      rw [h.bytes_eq, Sender.acceptedSoFar, hcall]
      simp [Sender.acceptedSoFar]
  | startWorker => exact ⟨{ h.store with }, h.call_lt, h.bytes_eq⟩
  | @ack a =>
      exact ⟨h.store.handleAckBlocks a, h.call_lt,
        (storedBytes_freeBlocks h.store _).trans h.bytes_eq⟩

theorem sender_inv {s : Sender} (h : (sender noRows).Reachable s) : SenderInv s := by
  refine h.invariant ?_ fun _ _ _ => SenderInv.step
  rintro s ⟨scaling, paths, n, rfl⟩
  exact ⟨storeInv_create scaling paths n, fun _ hc => by simp at hc, rfl⟩

/-! ## A queue of bytes -/

/-- The store is a queue of the accepted bytes: the ring holds the blocks of the
window, `readBlock` only ever writes to a slot that no other needed block holds,
and the rows of all blocks, stripped, are what the calls accepted. -/
structure FaithfulStore (s : Sender) : Prop where
  curr_le : s.sk.currBlock ≤ s.sk.maxblockno
  max_le : s.sk.maxblockno ≤ s.sk.currBlock + numBlocks
  held : ∀ b, s.sk.currBlock ≤ b → b < s.sk.maxblockno →
    s.sk.block b = s.filled b ∧ (s.sk.block b).length = blockSize
  slot_ne : ∀ rest,
    readBlock (s.sk.block s.sk.maxblockno) rest ≠ (s.sk.block s.sk.maxblockno, rest) →
      ∀ b, s.sk.currBlock ≤ b → b < s.sk.maxblockno → slot b ≠ slot s.sk.maxblockno
  filled_le : ∀ b, s.filled b ≠ [] → 1 ≤ b ∧ b ≤ s.sk.maxblockno
  packs : ∀ b, ∀ pl ∈ s.filled b, pl.Packs pl.bytes
  bytes_eq : storedBytes s.filled s.sk.maxblockno = s.acceptedSoFar

/-- The store is faithful in every run on memory that shows no rows. -/
theorem sender_store {memory : BlockMemory} (hmem : memory.Clear) {s : Sender}
    (h : (sender memory).Reachable s) : FaithfulStore s := by
  obtain rfl := hmem.eq_noRows
  have hinv := sender_inv h
  have hstore := hinv.store
  refine ⟨hstore.curr_le, hstore.max_le, fun b hb hb' => ?_, fun rest hread b hb hb' => ?_,
    fun b hb => ⟨?_, ?_⟩, fun b pl hpl => ?_, hinv.bytes_eq⟩
  · have hheld := hstore.held b hb (hb'.trans_le hstore.max_le)
    exact ⟨hheld, hheld ▸ hstore.full b hb hb'⟩
  · refine hstore.slot_ne_of_open (lt_of_le_of_ne (hstore.length_block_le _) fun hfull => ?_) hb hb'
    refine hread ?_
    rw [readBlock, show blockSize = 31 + 1 from rfl, readRows, if_neg]
    rw [hfull]
    exact fun hn => hn.1.false
  · exact Nat.one_le_iff_ne_zero.mpr fun hz => hb (hz ▸ hstore.zero)
  · exact Nat.not_lt.mp fun hlt => hb (hstore.ahead b hlt)
  · obtain ⟨bytes, -, hpacks⟩ := hstore.packs b pl hpl
    rwa [hpacks.bytes_eq]

/-! ## Short runs -/

section

variable {memory : BlockMemory} {s : Sender}

/-- A call of one byte that finds room, from its start to its return. -/
theorem reachable_sendByte (h : (sender memory).Reachable s) (hidle : s.call = none) (byte : UInt8)
    (hplaced : (sendCtcpRound s.sk [byte]).2 = ([], .goOn)) :
    ∃ s', (sender memory).Reachable s' ∧ s'.call = none ∧
      s'.sk = (sendCtcpRound s.sk [byte]).1 ∧ s'.accepted = s.accepted ++ [byte] := by
  have hcall := h.step (.call hidle (List.cons_ne_nil byte []) (by simp))
  have hround := hcall.step (.round rfl rfl (List.cons_ne_nil byte []))
  rw [hplaced] at hround
  exact ⟨_, hround.step (.returns rfl rfl rfl), rfl, rfl, rfl⟩

end

/-- Two calls of one byte with an acknowledgement between them. -/
theorem sender_store_twoBytes : ∃ s : Sender, s.accepted = [7, 8] ∧ s.call = none ∧
    FaithfulStore s := by
  let sk : Server := createSrvctcpSock noRows 1 (fun _ => ⟨fun _ => 0, fun _ => 0, 1, 1, 8, 0⟩) 1
  have hinit : (sender noRows).Reachable ⟨sk, fun _ => [], none, []⟩ := .init ⟨_, _, _, rfl⟩
  obtain ⟨s₁, h₁, hidle₁, hsk₁, haccepted₁⟩ := reachable_sendByte hinit rfl 7 (by decide +kernel)
  have hack := h₁.step (.ack (a := ⟨1, 1, 0⟩))
  obtain ⟨s₂, h₂, hidle₂, -, haccepted₂⟩ := reachable_sendByte hack hidle₁ 8
    (by simp only [hsk₁]; decide +kernel)
  refine ⟨s₂, ?_, hidle₂, sender_store (fun _ => rfl) h₂⟩
  rw [haccepted₂]
  exact congrArg (· ++ [8]) haccepted₁

/-! ## A block that is full from the start -/

/-- Memory in which block 1 has the length 40. -/
def longBlock : BlockMemory := fun k => if k = 1 then List.replicate 40 fun _ => 0 else []

/-- `send_ctcp` takes block 1 for full and goes on with block 2. -/
theorem not_sender_store_of_longBlock :
    ¬∀ memory s, (sender memory).Reachable s → FaithfulStore s := by
  intro hall
  let sk : Server := createSrvctcpSock longBlock 1 (fun _ => ⟨fun _ => 0, fun _ => 0, 1, 1, 8, 0⟩) 1
  have hinit : (sender longBlock).Reachable ⟨sk, fun _ => [], none, []⟩ := .init ⟨_, _, _, rfl⟩
  have hcall := hinit.step (.call rfl (List.cons_ne_nil 7 []) (by decide))
  have hround := hcall.step (.round rfl rfl (List.cons_ne_nil 7 []))
  have hlen := ((hall _ _ hround).held 1 (by decide +kernel) (by decide +kernel)).2
  exact absurd hlen (by decide +kernel)

end Ctcp
