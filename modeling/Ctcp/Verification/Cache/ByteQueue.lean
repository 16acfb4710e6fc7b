import Ctcp.Verification.Cache.Fifo

/-! # `fifo_t` is a bounded queue of bytes -/

namespace Ctcp

open Fifo

variable {Q Q' : Fifo} {op : ChannelOp UInt8} {reply : ChannelReply UInt8} {maxSize : ℕ}
  {ops : List (ChannelOp UInt8)} {replies : List (ChannelReply UInt8)}

/-! ## The size of a copy -/

/-- On unsigned words the macro is the minimum. -/
theorem toNat_minMacro (x y : UInt64) : (minMacro x y).toNat = min x.toNat y.toNat := by
  unfold minMacro
  by_cases hlt : x < y
  · rw [if_pos hlt, UInt64.and_neg_one, UInt64.xor_comm, UInt64.xor_assoc, UInt64.xor_self,
      UInt64.xor_zero, min_eq_left (UInt64.lt_iff_toNat_lt.mp hlt).le]
  · rw [if_neg hlt, UInt64.and_zero, UInt64.xor_zero,
      min_eq_right (Nat.le_of_not_lt fun h => hlt (UInt64.lt_iff_toNat_lt.mpr h))]

theorem minMacro_ofNat {n room : ℕ} (hn : n < 2 ^ 64) (hroom : room < 2 ^ 31) :
    (minMacro (UInt64.ofNat n) (UInt64.ofNat room)).toNat = min n room := by
  rw [toNat_minMacro, UInt64.toNat_ofNat', UInt64.toNat_ofNat', Nat.mod_eq_of_lt hn,
    Nat.mod_eq_of_lt (by omega)]

/-- The room is an `int` and the length a `size_t`; the macro gives `push_size`. -/
theorem fifoPush_eq_minMacro {buf : List UInt8} {r : ℕ} (h : Q.Inv) (hbuf : buf.length < 2 ^ 64)
    (hmax : Q.maxSize < 2 ^ 31) (hpush : fifoPush Q buf = some (r, Q')) :
    r = (minMacro (UInt64.ofNat buf.length) (UInt64.ofNat (Q.maxSize - Q.size))).toNat := by
  rw [minMacro_ofNat hbuf (by omega), (fifoPush_spec h hpush).size_eq]

theorem fifoPop_eq_minMacro {n : ℕ} {bytes : List UInt8} (h : Q.Inv) (hn : n < 2 ^ 64)
    (hmax : Q.maxSize < 2 ^ 31) (hpop : fifoPop Q n = some (bytes, Q')) :
    bytes.length = (minMacro (UInt64.ofNat n) (UInt64.ofNat Q.size)).toNat := by
  have hsize := h.size_le
  rw [minMacro_ofNat hn (by omega), (fifoPop_spec h hpop).bytes_eq, List.length_take,
    Fifo.length_contents]

/-! ## Completed calls -/

/-- The bytes of a buffer, and whether it is released. -/
def Fifo.channel (Q : Fifo) : Channel UInt8 := ⟨Q.released, Q.contents⟩

/-- What holds of a buffer that was made for `maxSize` bytes. -/
def Fifo.Sound (maxSize : ℕ) (Q : Fifo) : Prop := Q.Inv ∧ Q.maxSize = maxSize

theorem fifo_push {buf : List UInt8} : fifo Q (.push buf) = some (reply, Q') ↔
    ∃ n, fifoPush Q buf = some (n, Q') ∧ reply = .pushed n := by
  simp [fifo, eq_comm]

theorem fifo_pop {n : ℕ} : fifo Q (.pop n) = some (reply, Q') ↔
    ∃ bytes, fifoPop Q n = some (bytes, Q') ∧ reply = .popped bytes := by
  simp [fifo, eq_comm]

theorem maxSize_fifoPop {n : ℕ} {bytes : List UInt8} (h : fifoPop Q n = some (bytes, Q')) :
    Q'.maxSize = Q.maxSize := by
  simp only [fifoPop, Option.ite_none_left_eq_some, Option.some.injEq, Prod.mk.injEq] at h
  obtain ⟨-, -, rfl⟩ := h
  rfl

theorem Fifo.Sound.call (h : Q.Sound maxSize) (hcall : fifo Q op = some (reply, Q')) :
    Q'.Sound maxSize := by
  cases op with
  | push buf =>
      obtain ⟨n, hpush, -⟩ := fifo_push.mp hcall
      have hspec := fifoPush_spec h.1 hpush
      exact ⟨hspec.inv, hspec.maxSize_eq.trans h.2⟩
  | pop n =>
      obtain ⟨bytes, hpop, -⟩ := fifo_pop.mp hcall
      exact ⟨(fifoPop_spec h.1 hpop).inv, (maxSize_fifoPop hpop).trans h.2⟩
  | close =>
      obtain ⟨-, rfl⟩ := Prod.mk.inj (Option.some.inj hcall)
      exact ⟨⟨h.1.pos, h.1.head_lt, h.1.size_le, h.1.tail_eq⟩, h.2⟩

theorem fifoPush_eq_none {buf : List UInt8} :
    fifoPush Q buf = none ↔ Q.size = Q.maxSize ∧ Q.released = false := by
  simp [fifoPush]

theorem fifoPop_eq_none {n : ℕ} : fifoPop Q n = none ↔ Q.size = 0 ∧ Q.released = false := by
  simp [fifoPop]

/-- A completed call does to the bytes what the call of a bounded channel does. -/
theorem fifo_eq_boundedChannel (h : Q.Inv) (op : ChannelOp UInt8) :
    (fifo Q op).map (Prod.map id Fifo.channel) = boundedChannel Q.maxSize Q.channel op := by
  cases op with
  | push buf =>
      cases hpush : fifoPush Q buf with
      | none =>
          have hwait := fifoPush_eq_none.mp hpush
          simp [fifo, boundedChannel, Fifo.channel, hpush, hwait]
      | some pushed =>
          have hspec := fifoPush_spec h hpush
          have hgo : ¬(Q.size = Q.maxSize ∧ Q.released = false) := by
            intro hwait
            rw [fifoPush_eq_none.mpr hwait] at hpush
            simp at hpush
          simp [fifo, boundedChannel, Fifo.channel, hpush, hgo, hspec.size_eq, hspec.contents_eq,
            hspec.released_eq]
  | pop n =>
      cases hpop : fifoPop Q n with
      | none =>
          have hwait := fifoPop_eq_none.mp hpop
          simp [fifo, boundedChannel, Fifo.channel, hpop, hwait]
      | some popped =>
          have hspec := fifoPop_spec h hpop
          have hgo : ¬(Q.size = 0 ∧ Q.released = false) := by
            intro hwait
            rw [fifoPop_eq_none.mpr hwait] at hpop
            simp at hpop
          simp [fifo, boundedChannel, Fifo.channel, hpop, hgo, hspec.bytes_eq, hspec.contents_eq,
            hspec.released_eq]
  | close => rfl

/-! ## Runs -/

theorem sound_fifoInit (h : 0 < maxSize) : (fifoInit maxSize).Sound maxSize :=
  ⟨fifoInv_fifoInit h, rfl⟩

theorem Fifo.Sound.run (h : Q.Sound maxSize) (hrun : fifo.run Q ops = some (replies, Q')) :
    Q'.Sound maxSize :=
  Object.run_invariant (fun _ _ _ _ hs hcall => hs.call hcall) h hrun

theorem fifo_run_eq_boundedChannel (h : Q.Sound maxSize) (ops : List (ChannelOp UInt8)) :
    (fifo.run Q ops).map (Prod.map id Fifo.channel) =
      (boundedChannel maxSize).run Q.channel ops := by
  apply Object.run_refines (fun _ _ _ _ hs hcall => Fifo.Sound.call hs hcall) ?_ h
  rintro s op ⟨hs, rfl⟩
  exact fifo_eq_boundedChannel hs op

/-- What is true of a buffer after a run of completed calls. -/
structure FifoRefines (maxSize : ℕ) (ops : List (ChannelOp UInt8))
    (replies : List (ChannelReply UInt8)) (Q : Fifo) : Prop where
  head_lt : Q.head < maxSize
  tail_lt : Q.tail < maxSize
  size_le : Q.size ≤ maxSize
  tail_eq : Q.tail = (Q.head + Q.size) % maxSize
  /-- The bytes popped and those still there are the accepted ones, in this order. -/
  conserves : replies.flatMap ChannelReply.elements ++
    ringContents Q.q maxSize Q.head Q.size = (ops.zip replies).flatMap accepted
  /-- A call of `fifo_release` releases it, and nothing else. -/
  released_iff : Q.released = true ↔ .close ∈ ops
  push_size : ∀ buf r Q', fifoPush Q buf = some (r, Q') → r = min buf.length (maxSize - Q.size)
  pop_size : ∀ n bytes Q', fifoPop Q n = some (bytes, Q') → bytes.length = min n Q.size
  /-- A push waits only while the buffer is full, and then it returns 0 once released. -/
  push_wait : ∀ buf, Q.size ≠ maxSize ∧ (fifoPush Q buf).isSome ∨
    Q.size = maxSize ∧ (fifoPush Q buf).map Prod.fst = if Q.released then some 0 else none
  pop_wait : ∀ n, Q.size ≠ 0 ∧ (fifoPop Q n).isSome ∨
    Q.size = 0 ∧ (fifoPop Q n).map Prod.fst = if Q.released then some [] else none

theorem fifoPush_wait (Q : Fifo) (buf : List UInt8) :
    Q.size ≠ Q.maxSize ∧ (fifoPush Q buf).isSome ∨
      Q.size = Q.maxSize ∧ (fifoPush Q buf).map Prod.fst = if Q.released then some 0 else none := by
  by_cases hfull : Q.size = Q.maxSize
  · right
    cases hreleased : Q.released with
    | false => simp [fifoPush, hfull, hreleased]
    | true => simp [fifoPush, hfull, hreleased]
  · exact .inl ⟨hfull, by simp [fifoPush, hfull]⟩

theorem fifoPop_wait (Q : Fifo) (n : ℕ) :
    Q.size ≠ 0 ∧ (fifoPop Q n).isSome ∨
      Q.size = 0 ∧ (fifoPop Q n).map Prod.fst = if Q.released then some [] else none := by
  by_cases hempty : Q.size = 0
  · right
    cases hreleased : Q.released with
    | false => simp [fifoPop, hempty, hreleased]
    | true => simp [fifoPop, hempty, hreleased, copyOut]
  · exact .inl ⟨hempty, by simp [fifoPop, hempty]⟩

/-- A `fifo_t` is a bounded queue of bytes, over every interleaving of completed calls,
before and after it is released. -/
theorem fifo_refines_channel (h : 1 ≤ maxSize) (ops : List (ChannelOp UInt8)) :
    (fifo.run (fifoInit maxSize) ops).map (Prod.map id Fifo.channel) =
        (boundedChannel maxSize).run ⟨false, []⟩ ops ∧
      ∀ replies Q, fifo.run (fifoInit maxSize) ops = some (replies, Q) →
        FifoRefines maxSize ops replies Q := by
  have hstart := sound_fifoInit h
  have hspec := fifo_run_eq_boundedChannel hstart ops
  refine ⟨hspec, ?_⟩
  intro replies Q hrun
  obtain ⟨hinv, rfl⟩ := hstart.run hrun
  rw [hrun] at hspec
  constructor
  case head_lt => exact hinv.head_lt
  case tail_lt =>
    rw [hinv.tail_eq]
    exact Nat.mod_lt _ hinv.pos
  case size_le => exact hinv.size_le
  case tail_eq => exact hinv.tail_eq
  case conserves => exact (boundedChannel_run_conserves hspec.symm).symm
  case released_iff => simpa [Fifo.channel, fifoInit] using boundedChannel_run_closed hspec.symm
  case push_size => exact fun buf r Q' hpush => (fifoPush_spec hinv hpush).size_eq
  case pop_size =>
    intro n bytes Q' hpop
    rw [(fifoPop_spec hinv hpop).bytes_eq, List.length_take, Fifo.length_contents]
  case push_wait => exact fifoPush_wait Q
  case pop_wait => exact fifoPop_wait Q

theorem fifo_refines_channel_two :
    (fifo.run (fifoInit 2) [.push [1, 2, 3], .pop 1, .push [4], .close, .push [5]]).map
        (Prod.map id Fifo.channel) =
      some ([.pushed 2, .popped [1], .pushed 1, .closed, .pushed 0], ⟨true, [2, 4]⟩) :=
  (fifo_refines_channel (by decide) _).1

end Ctcp
