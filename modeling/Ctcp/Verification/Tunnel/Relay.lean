import Ctcp.Library.Execution
import Ctcp.Model.Relay

/-! # `handle_traffic` loses and repeats nothing -/

namespace Ctcp

open Function

/-! ## The system -/

/-- The loop with all bytes read from each socket, and all bytes passed on to each. -/
structure Relay where
  traffic : Traffic
  got : Side → List UInt8
  put : Side → List UInt8

inductive RelayEvent where
  | poll (p : TrafficPoll)
  | read (bytes : Option (List UInt8))
  | write (n : Option ℕ)
  | send (n : Option ℕ)

/-- The loop against all results that the calls can have. -/
inductive RelayStep (ctcp : Bool) (bufSize : ℕ) : Relay → RelayEvent → Relay → Prop where
  | poll {r : Relay} {p : TrafficPoll} (hphase : r.traffic.phase = .polling) :
      RelayStep ctcp bufSize r (.poll p) { r with traffic := r.traffic.poll ctcp p }
  | read {r : Relay} {side : Side} {bytes : List UInt8} (hphase : r.traffic.phase = .reading)
      (hown : r.traffic.bown = some side) (hlen : bytes.length ≤ bufSize) :
      RelayStep ctcp bufSize r (.read (some bytes))
        { r with
          traffic := r.traffic.read (some bytes)
          got := update r.got side (r.got side ++ bytes) }
  | readFails {r : Relay} (hphase : r.traffic.phase = .reading) :
      RelayStep ctcp bufSize r (.read none) { r with traffic := r.traffic.read none }
  | write {r : Relay} {side : Side} {n : ℕ} (hphase : r.traffic.phase = .writing)
      (hown : r.traffic.bown = some side) (hn : n ≤ r.traffic.pending.length) :
      RelayStep ctcp bufSize r (.write (some n))
        { r with
          traffic := r.traffic.write (some n)
          put := update r.put side.other (r.put side.other ++ r.traffic.pending.take n) }
  | writeFails {r : Relay} (hphase : r.traffic.phase = .writing) :
      RelayStep ctcp bufSize r (.write none) { r with traffic := r.traffic.write none }
  | send {r : Relay} {side : Side} {n : ℕ} (hphase : r.traffic.phase = .sending)
      (hown : r.traffic.bown = some side) (hn : n ≤ r.traffic.pending.length) :
      RelayStep ctcp bufSize r (.send (some n))
        { r with
          traffic := r.traffic.sendCtcp (some n)
          put := update r.put side.other (r.put side.other ++ r.traffic.pending.take n) }
  | sendFails {r : Relay} (hphase : r.traffic.phase = .sending) :
      RelayStep ctcp bufSize r (.send none) { r with traffic := r.traffic.sendCtcp none }

def relay (ctcp : Bool) (bufSize : ℕ) : System Relay RelayEvent where
  init r := r = ⟨.start, fun _ => [], fun _ => []⟩
  step := RelayStep ctcp bufSize

/-! ## The invariant -/

/-- The bytes of a socket that are in the buffer. -/
def Traffic.held (t : Traffic) (side : Side) : List UInt8 :=
  if t.bown = some side then t.pending else []

/-- The indices are in range, and a socket is chosen before it is used. -/
structure TrafficInv (ctcp : Bool) (bufSize : ℕ) (t : Traffic) : Prop where
  bptr_le : t.bptr ≤ t.buf.length
  buf_le : t.buf.length ≤ bufSize
  owned : t.bown = none → t.buf = [] ∧ t.phase ≠ .reading ∧ t.phase ≠ .writing ∧ t.phase ≠ .sending
  empty : t.phase = .reading → t.buf = [] ∧ t.bptr = 0
  left : t.phase = .writing ∨ t.phase = .sending → t.bptr < t.buf.length
  ctcp_target : t.phase = .sending → ctcp = true ∧ t.bown = some .target
  tcp_client : t.phase = .writing → ctcp = true → t.bown = some .client

variable {ctcp : Bool} {bufSize : ℕ} {t : Traffic}

theorem trafficInv_start : TrafficInv ctcp bufSize .start := by
  constructor <;> simp [Traffic.start]

/-- The loop has returned; the buffer is as it was. -/
theorem TrafficInv.returned (h : TrafficInv ctcp bufSize t) (res : TrafficRes) :
    TrafficInv ctcp bufSize { t with phase := .returned res } := by
  refine ⟨h.bptr_le, h.buf_le, fun hn => ?_, ?_, ?_, ?_, ?_⟩
  · exact ⟨(h.owned hn).1, by simp⟩
  all_goals simp

theorem TrafficInv.poll (h : TrafficInv ctcp bufSize t) (p : TrafficPoll) :
    TrafficInv ctcp bufSize (t.poll ctcp p) ∧ ∀ side, (t.poll ctcp p).held side = t.held side := by
  cases p with
  | failed => exact ⟨h.returned _, fun _ => rfl⟩
  | timeout => exact ⟨h.returned _, fun _ => rfl⟩
  | ready client target =>
      rw [Traffic.poll]
      split
      · exact ⟨h.returned _, fun _ => rfl⟩
      split
      · exact ⟨h.returned _, fun _ => rfl⟩
      split
      case isTrue hleft =>
        refine ⟨⟨h.bptr_le, h.buf_le, fun hn => ?_, ?_, fun _ => hleft, ?_, ?_⟩, fun _ => rfl⟩
        · -- without an owner the buffer is empty
          change t.bown = none at hn
          simp [(h.owned hn).1] at hleft
        all_goals cases hown : t.bown with
          | none => simp [(h.owned hown).1] at hleft
          | some side => cases side <;> cases ctcp <;> simp
      case isFalse hdone =>
        have hnil : t.pending = [] := List.drop_eq_nil_of_le (Nat.not_lt.mp hdone)
        refine ⟨⟨Nat.le_refl _, Nat.zero_le _, by simp, fun _ => ⟨rfl, rfl⟩, by simp, by simp,
          by simp⟩, fun side => ?_⟩
        simp [Traffic.held, Traffic.pending] at hnil ⊢
        exact fun _ => hnil

/-- What is read is held for the other socket. -/
theorem TrafficInv.read (h : TrafficInv ctcp bufSize t) (hphase : t.phase = .reading) {side : Side}
    (hown : t.bown = some side) {bytes : List UInt8} (hlen : bytes.length ≤ bufSize) :
    TrafficInv ctcp bufSize (t.read (some bytes)) ∧
      ∀ s, (t.read (some bytes)).held s = t.held s ++ if s = side then bytes else [] := by
  obtain ⟨hbuf, hbptr⟩ := h.empty hphase
  cases bytes with
  | nil => exact ⟨h.returned _, fun s => by rw [ite_self, List.append_nil]; rfl⟩
  | cons c bytes =>
      refine ⟨⟨?_, hlen, fun hn => ?_, ?_, ?_, ?_, ?_⟩, fun s => ?_⟩
      · rw [Traffic.read, hbptr]
        exact Nat.zero_le _
      · change t.bown = none at hn
        rw [hown] at hn
        cases hn
      · simp [Traffic.read]
      · simp [Traffic.read]
      · simp [Traffic.read]
      · simp [Traffic.read]
      · by_cases hs : s = side
        · simp [Traffic.held, Traffic.pending, Traffic.read, hown, hs, hbuf, hbptr]
        · have hne : side ≠ s := fun he => hs he.symm
          simp [Traffic.held, Traffic.read, hown, hs, hne]

/-- `n` bytes are passed on, and the loop goes on somewhere. -/
theorem TrafficInv.advance (h : TrafficInv ctcp bufSize t) {side : Side}
    (hown : t.bown = some side) {n : ℕ} (hn : n ≤ t.pending.length) {phase : TrafficPhase}
    (hphase : phase = .polling ∨ phase = t.phase ∧ phase = .sending ∧ t.bptr + n < t.buf.length) :
    TrafficInv ctcp bufSize { t with bptr := t.bptr + n, phase := phase } ∧
      ∀ s, t.held s = (if s = side then t.pending.take n else []) ++
        ({ t with bptr := t.bptr + n, phase := phase } : Traffic).held s := by
  have hle := h.bptr_le
  rw [Traffic.pending, List.length_drop] at hn
  refine ⟨⟨by change t.bptr + n ≤ t.buf.length; omega, h.buf_le, fun hnone => ?_, ?_, ?_, ?_, ?_⟩,
    fun s => ?_⟩
  · change t.bown = none at hnone
    rw [hown] at hnone
    cases hnone
  · rcases hphase with rfl | ⟨-, rfl, -⟩ <;> simp
  · rcases hphase with rfl | ⟨-, rfl, hlt⟩
    · simp
    · exact fun _ => hlt
  · rcases hphase with rfl | ⟨hsame, rfl, -⟩
    · simp
    · exact fun _ => h.ctcp_target hsame.symm
  · rcases hphase with rfl | ⟨-, rfl, -⟩ <;> simp
  · by_cases hs : s = side
    · subst hs
      simp [Traffic.held, Traffic.pending, hown, ← List.drop_drop]
    · have hne : side ≠ s := fun he => hs he.symm
      simp [Traffic.held, hown, hs, hne]

theorem TrafficInv.write (h : TrafficInv ctcp bufSize t) {side : Side} (hown : t.bown = some side)
    {n : ℕ} (hn : n ≤ t.pending.length) :
    TrafficInv ctcp bufSize (t.write (some n)) ∧
      ∀ s, t.held s = (if s = side then t.pending.take n else []) ++ (t.write (some n)).held s :=
  h.advance hown hn (.inl rfl)

theorem TrafficInv.sendCtcp (h : TrafficInv ctcp bufSize t) (hphase : t.phase = .sending)
    {side : Side} (hown : t.bown = some side) {n : ℕ} (hn : n ≤ t.pending.length) :
    TrafficInv ctcp bufSize (t.sendCtcp (some n)) ∧
      ∀ s, t.held s =
        (if s = side then t.pending.take n else []) ++ (t.sendCtcp (some n)).held s := by
  apply h.advance hown hn
  by_cases hlt : t.bptr + n < t.buf.length
  · exact .inr ⟨by rw [if_pos hlt, hphase], if_pos hlt, hlt⟩
  · exact .inl (if_neg hlt)

/-! ## Runs -/

/-- What was read from a socket has been passed on to the other, but for what is held. -/
structure RelayInv (ctcp : Bool) (bufSize : ℕ) (r : Relay) : Prop where
  traffic : TrafficInv ctcp bufSize r.traffic
  flow : ∀ side, r.got side = r.put side.other ++ r.traffic.held side

variable {r r' : Relay}

theorem Side.other_inj {s s' : Side} : s.other = s'.other ↔ s = s' := by
  cases s <;> cases s' <;> simp [Side.other]

/-- Bytes passed on are taken from those held. -/
theorem RelayInv.pass (h : RelayInv ctcp bufSize r) {side : Side} {t : Traffic} {n : ℕ}
    (ht : TrafficInv ctcp bufSize t)
    (hheld : ∀ s, r.traffic.held s =
      (if s = side then r.traffic.pending.take n else []) ++ t.held s) :
    RelayInv ctcp bufSize
      { r with
        traffic := t
        put := update r.put side.other (r.put side.other ++ r.traffic.pending.take n) } := by
  refine ⟨ht, fun s => ?_⟩
  rw [h.flow s, hheld s]
  by_cases hs : s = side
  · subst hs
    simp
  · have hne : s.other ≠ side.other := fun he => hs (Side.other_inj.mp he)
    simp [hs, update_of_ne hne]

theorem RelayInv.step {e : RelayEvent} (h : RelayInv ctcp bufSize r)
    (hstep : RelayStep ctcp bufSize r e r') : RelayInv ctcp bufSize r' := by
  cases hstep with
  | @poll p hphase =>
      obtain ⟨ht, hheld⟩ := h.traffic.poll p
      exact ⟨ht, fun side => (h.flow side).trans (by rw [hheld])⟩
  | @read side bytes hphase hown hlen =>
      obtain ⟨ht, hheld⟩ := h.traffic.read hphase hown hlen
      refine ⟨ht, fun s => ?_⟩
      change update r.got side _ s = r.put s.other ++ (r.traffic.read (some bytes)).held s
      rw [hheld s]
      by_cases hs : s = side
      · subst hs
        simp [h.flow s]
      · simp [hs, h.flow s]
  | readFails hphase => exact ⟨h.traffic.returned _, h.flow⟩
  | write hphase hown hn =>
      obtain ⟨ht, hheld⟩ := h.traffic.write hown hn
      exact h.pass ht hheld
  | writeFails hphase => exact ⟨h.traffic.returned _, h.flow⟩
  | send hphase hown hn =>
      obtain ⟨ht, hheld⟩ := h.traffic.sendCtcp hphase hown hn
      exact h.pass ht hheld
  | sendFails hphase => exact ⟨h.traffic.returned _, h.flow⟩

theorem relayInv_of_reachable (h : (relay ctcp bufSize).Reachable r) : RelayInv ctcp bufSize r := by
  apply h.invariant
  · rintro r rfl
    exact ⟨trafficInv_start, fun side => by cases side <;> rfl⟩
  · exact fun s e s' => RelayInv.step

/-- The loop passes on what it reads in order and without gaps, holds no more than its
buffer, and bytes of one socket only. When it reads it holds nothing, and it never uses
an element of `pfd` before a socket is chosen. -/
theorem relay_flow_of_reachable (h : (relay ctcp bufSize).Reachable r) :
    (∀ side, r.got side = r.put side.other ++ r.traffic.held side ∧
      (r.traffic.held side).length ≤ bufSize) ∧
    (∃ side, r.traffic.held side = []) ∧
    (r.traffic.phase = .reading → ∀ side, r.got side = r.put side.other) ∧
    (r.traffic.bown = none → r.traffic.phase ≠ .reading ∧ r.traffic.phase ≠ .writing ∧
      r.traffic.phase ≠ .sending) := by
  have hinv := relayInv_of_reachable h
  have ht := hinv.traffic
  refine ⟨fun side => ⟨hinv.flow side, ?_⟩, ?_, fun hphase side => ?_,
    fun hnone => (ht.owned hnone).2⟩
  · rw [Traffic.held]
    split
    · rw [Traffic.pending, List.length_drop]
      exact Nat.le_trans (Nat.sub_le _ _) ht.buf_le
    · exact Nat.zero_le _
  · cases hown : r.traffic.bown with
    | none => exact ⟨.client, by simp [Traffic.held, hown]⟩
    | some side => exact ⟨side.other, by cases side <;> simp [Traffic.held, hown, Side.other]⟩
  · obtain ⟨hbuf, -⟩ := ht.empty hphase
    rw [hinv.flow side, Traffic.held, Traffic.pending, hbuf, List.drop_nil, ite_self,
      List.append_nil]

/-- A byte from the client reaches the target. -/
theorem relay_flow_oneByte : ∃ r : Relay, r.put .target = [7] ∧ ∀ side,
    r.got side = r.put side.other ++ r.traffic.held side ∧ (r.traffic.held side).length ≤ 1 := by
  have hstart : (relay true 1).Reachable ⟨.start, fun _ => [], fun _ => []⟩ := .init rfl
  have hpoll := hstart.step (.poll (p := .ready ⟨true, false, false⟩ ⟨false, false, false⟩) rfl)
  have hread := hpoll.step (e := RelayEvent.read (some [7])) (.read rfl rfl (by decide))
  have hagain := hread.step (.poll (p := .ready ⟨false, false, false⟩ ⟨false, false, false⟩) rfl)
  have hwrite := hagain.step (.write (n := 1) rfl rfl (by decide))
  exact ⟨_, rfl, (relay_flow_of_reachable hwrite).1⟩

end Ctcp
