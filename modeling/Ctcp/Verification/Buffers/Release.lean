import Ctcp.Verification.Buffers.Steps

/-! # Releasing a block gives its buffers back once -/

namespace Ctcp

open Function

variable {s s' : Buffers} {e : BufferEvent} {a : Skb}

/-! ## Runs -/

theorem BufferStep.inv (hstep : BufferStep s e s') (h : BuffersInv s) (hguard : FreesOnce s e) :
    BuffersInv s' := by
  cases hstep with
  | fill hlock => exact h.fill hlock
  | move => exact ⟨h.placed, h.marked, h.queues, h.uncoded, h.visits, h.sending, h.hand, h.locked,
      h.emptied⟩
  | start hnone _ hlock =>
      refine h.setCoder (fun d hd => ?_) (by rw [hnone]; rfl)
      obtain rfl := Option.some.inj hd
      exact hlock
  | pushRow hcoder _ hskb hroom =>
      have hlock := h.locked _ _ hcoder
      have hpushed := h.queueRow hlock (List.mem_of_getElem? hskb) hroom
      refine hpushed.setCoder (fun d hd => ?_) (by rw [hcoder]; rfl)
      obtain rfl := Option.some.inj hd
      exact hlock
  | alloc hcoder _ _ hhand => exact h.alloc hcoder hhand (h.newBuffer hguard)
  | push hcoder hhand hroom => exact h.push hcoder hhand hroom
  | finish hcoder _ _ hhand => exact h.setCoder (by simp) (by rw [hcoder]; exact hhand.symm)
  | pop hphase hsize => exact h.pop hphase hsize
  | sent hphase => exact h.sent hphase
  | ack hphase => exact h.quiet (Or.inl hphase) (Or.inr rfl)
  | release hphase hfree => exact h.release hphase hfree hguard
  | freeRow hphase => exact h.freeRow hphase
  | rowsFreed hphase => exact h.rowsFreed hphase
  | freeQueued hphase => exact h.freeQueued hphase
  | released hphase => exact h.released hphase
  | ackEnd hphase => exact h.quiet (Or.inr hphase) (Or.inl rfl)
  | borrow => exact h.borrow (h.newBuffer hguard)
  | giveBack hskb => exact h.giveBack hskb

theorem buffersInv_of_reachable {memory : ℕ → List Skb} (hmem : ∀ k, memory k = [])
    (h : ((buffers memory).guard FreesOnce).Reachable s) : BuffersInv s := by
  obtain rfl : memory = fun _ => [] := funext hmem
  apply h.invariant
  · rintro s rfl
    constructor
    case placed =>
      apply Placed.empty
      · intro p
        cases p <;> rfl
      · exact fun a ha => absurd ha (Nat.not_lt_zero a)
    case marked => exact fun a => by simp [noBuffers]
    case queues => exact fun k => ⟨inv_qInit (by decide), rfl⟩
    case uncoded => exact fun k _ a ha => absurd ha List.not_mem_nil
    case visits => exact fun a ha => absurd ha List.not_mem_nil
    case sending => exact fun a hp => by contradiction
    case hand => exact fun w c a hc => by contradiction
    case locked => exact fun w c hc => by contradiction
    case emptied => exact fun left hp => by contradiction
  · rintro s e s' h ⟨hguard, hstep⟩
    exact hstep.inv h hguard

/-- Each buffer is given back once, and before anybody gets it again. -/
theorem buffersOwned_of_reachable {memory : ℕ → List Skb} (hmem : ∀ k, memory k = [])
    (h : ((buffers memory).guard FreesOnce).Reachable s) : BuffersOwned s :=
  (buffersInv_of_reachable hmem h).owned

/-! ## An allocation during a release -/

/-- Runs that meet a condition, from empty blocks. -/
abbrev fromEmpty (C : Buffers → BufferEvent → Prop) : System Buffers BufferEvent :=
  (buffers fun _ => []).guard C

section

variable {C : Buffers → BufferEvent → Prop}

theorem System.Reachable.bufferStep (h : (fromEmpty C).Reachable s) (hstep : BufferStep s e s')
    (hC : C s e) : (fromEmpty C).Reachable s' := .step h ⟨hC, hstep⟩

/-- `n` rows are in block 1, and nothing else has been done. -/
def filling (n : ℕ) : Buffers :=
  { noBuffers with
    pool := ⟨[], fun a => decide (a < n), n⟩
    blocks := update (fun _ => []) 1 (List.range n) }

theorem filling_reachable
    (hC : ∀ s e, s.pool.first = [] → (∀ a, s.coded a = false) → C s e) {n : ℕ}
    (hn : n ≤ blockSize) : (fromEmpty C).Reachable (filling n) := by
  induction n with
  | zero =>
      apply System.Reachable.init
      change filling 0 = { noBuffers with blocks := fun _ => [] }
      simp [filling, noBuffers]
  | succ n ih =>
      have hroom : ((filling n).blocks (slot (filling n).maxblockno)).length < blockSize := by
        change (List.range n).length < blockSize
        rw [List.length_range]
        omega
      have hfill := (ih (by omega)).bufferStep (.fill (Or.inl rfl)
        (by simp [Buffers.Codes, filling, noBuffers]) hroom) (hC _ _ rfl fun _ => rfl)
      have hused : (fun a => decide (a < n + 1)) = update (fun a => decide (a < n)) n true := by
        funext a
        by_cases he : a = n
        · rw [he, update_self]
          exact decide_eq_true (Nat.lt_succ_self n)
        · rw [update_of_ne he]
          exact decide_eq_decide.mpr
            ⟨fun h => lt_of_le_of_ne (Nat.le_of_lt_succ h) he, Nat.lt_succ_of_lt⟩
      have hrows : update (fun _ => []) 1 (List.range (n + 1)) =
          update (update (fun _ => []) 1 (List.range n)) 1 (List.range n ++ [n]) := by
        rw [update_idem, List.range_succ]
      rw [filling, hused, hrows]
      exact hfill

theorem not_codes {coders : Fin threads → Option BufferJob} {x : Option BufferJob} {k : ℕ}
    (hcoders : s.coders = update coders 0 x) (hnone : ∀ w, w ≠ 0 → coders w = none)
    (hx : ∀ c, x = some c → c.k ≠ k) : ¬s.Codes k := by
  rintro ⟨w, c, hc, hk⟩
  rw [hcoders] at hc
  rcases party_cases hc with ⟨-, hc⟩ | ⟨hw, hc⟩
  · exact hx c hc hk
  · rw [hnone w hw] at hc
    contradiction

/-- Block 1 is full and its row 0 is queued. Block 2 has a row, and a worker is about to
code a packet from it. Then block 1 is acknowledged. -/
theorem exists_acknowledged
    (hC : ∀ s e, s.pool.first = [] → (∀ a, s.coded a = false) → C s e) :
    ∃ s, (fromEmpty C).Reachable s ∧
      s.phase = .freeingRows (List.range blockSize) ∧ s.pool.first = [] ∧ s.pool.used 0 = true ∧
      s.toVisit = [0] ∧ s.coders 0 = some ⟨2, [], 1, none⟩ := by
  have huncoded : ∀ a, update (fun _ : Skb => false) 0 false a = false := by simp
  have hnone : ∀ k, ¬(filling blockSize).Codes k := by simp [Buffers.Codes, filling, noBuffers]
  have hlen : ((filling blockSize).blocks 1).length = blockSize := List.length_range
  have hstart := (filling_reachable hC le_rfl).bufferStep (@BufferStep.start _ 0 ⟨1, 0, 1, 0⟩ rfl
    (hnone _) (by simp [Buffers.released, filling, noBuffers])
    (List.ne_nil_of_length_pos (hlen.ge.trans_lt' (by decide)))) (hC _ _ rfl fun _ => rfl)
  have hpush := hstart.bufferStep (@BufferStep.pushRow _ 0 _ 0 [] 0 rfl rfl rfl (by decide))
    (hC _ _ rfl fun _ => rfl)
  have hfinish := hpush.bufferStep (@BufferStep.finish _ 0 _ rfl rfl rfl rfl)
    (hC _ _ rfl huncoded)
  have hwait : ∀ w : Fin threads, w ≠ 0 → ∀ c c' : Option BufferJob,
      update (update (fun _ => none) 0 c) 0 c' w = none := by
    intro w hw c c'
    rw [update_of_ne hw, update_of_ne hw]
  have hmove := hfinish.bufferStep (.move (Or.inl rfl)
    (not_codes rfl (fun w hw => hwait w hw _ _) (by simp)) hlen (by decide)) (hC _ _ rfl huncoded)
  have hfill := hmove.bufferStep (.fill (Or.inl rfl)
    (not_codes rfl (fun w hw => hwait w hw _ _) (by simp)) (by decide)) (hC _ _ rfl huncoded)
  have hcode := hfill.bufferStep (@BufferStep.start _ 0 ⟨2, 0, 1, maxCodingWnd⟩ rfl
    (not_codes rfl (fun w hw => hwait w hw _ _) (by simp))
    (by simp [Buffers.released, filling, noBuffers]) (by decide)) (hC _ _ rfl huncoded)
  have hack := hcode.bufferStep (.ack rfl) (hC _ _ rfl huncoded)
  have hrelease := hack.bufferStep (.release rfl (not_codes rfl
    (fun w hw => (update_of_ne hw _ _).trans (hwait w hw _ _)) (by rintro c ⟨⟩; decide)))
    (hC _ _ rfl huncoded)
  refine ⟨_, hrelease, rfl, rfl, rfl, rfl, rfl⟩

end

/-- While block 1 is released, a worker gets a new buffer for the packet that it codes. -/
theorem buffersOwned_duringRelease : ∃ s : Buffers,
    s.phase = .freeingRows (List.range blockSize) ∧ (∃ c a, s.coders 0 = some c ∧ c.hand = some a) ∧
      BuffersOwned s := by
  obtain ⟨s, h, hphase, hfirst, -, -, hcoder⟩ :=
    exists_acknowledged (C := FreesOnce) fun s e hfirst huncoded => by
      cases e with
      | release => exact fun a _ hcoded => absurd hcoded (by simp [huncoded a])
      | other => trivial
      | _ => exact fun a ha => by simp [hfirst] at ha
  have halloc := h.bufferStep (@BufferStep.alloc _ 0 _ 0 hcoder rfl rfl rfl)
    (show FreesOnce s (.alloc 0) from fun a ha => by simp [hfirst] at ha)
  have howned := buffersOwned_of_reachable (fun _ => rfl) halloc
  refine ⟨_, ?_, ?_, howned⟩
  · exact hphase
  · exact ⟨⟨2, [], 1, some (allocSkb s.pool).1⟩, _, rfl, rfl⟩

/-! ## A buffer that is handed out during a release -/

/-- The rows that are left are freed. -/
theorem exists_rowsFreed {left : List Skb} (h : (fromEmpty fun _ _ => True).Reachable s)
    (hphase : s.phase = .freeingRows left) (ha : a ∉ left) (hused : s.pool.used a = true) :
    ∃ pool, (fromEmpty fun _ _ => True).Reachable
        { s with pool := pool, phase := .freeingRows [] } ∧
      pool.used a = true := by
  induction left generalizing s with
  | nil =>
      refine ⟨s.pool, ?_, hused⟩
      rw [← hphase]
      exact h
  | cons b left ih =>
      rw [List.mem_cons, not_or] at ha
      have hfree := h.bufferStep (.freeRow hphase) trivial
      have hkept : (freeSkb s.pool b).used a = true := by
        rw [freeSkb]
        split
        · exact hused
        · exact (update_of_ne ha.1 _ _).trans hused
      have hrest := ih hfree rfl ha.2 hkept
      exact hrest

/-- The buffer of row 0 is freed with its block, handed out to the worker, and then put on
the free list by `q_free`, while the worker codes a packet in it. -/
theorem not_buffersOwned_of_handedOut :
    ∃ s, (buffers fun _ => []).Reachable s ∧ ¬BuffersOwned s := by
  obtain ⟨s, h, hphase, hfirst, hused, hvisit, hcoder⟩ :=
    exists_acknowledged (C := fun _ _ => True) fun _ _ _ _ => trivial
  have hrange : List.range blockSize = 0 :: List.range' 1 31 := rfl
  rw [hrange] at hphase
  have hfree := h.bufferStep (.freeRow hphase) trivial
  have hpool : freeSkb s.pool 0 = ⟨[0], update s.pool.used 0 false, s.pool.num⟩ := by
    simp [freeSkb, hused, hfirst]
  have halloc := hfree.bufferStep (@BufferStep.alloc _ 0 _ 0 hcoder rfl rfl rfl) trivial
  dsimp only at halloc
  rw [hpool, allocSkb_cons rfl] at halloc
  obtain ⟨pool, hrows, hpool'⟩ := exists_rowsFreed halloc rfl (a := 0) (by simp) (by simp)
  have hqueue := hrows.bufferStep (.rowsFreed rfl) trivial
  have hentries : qFreed (s.codedQ (slot s.currBlock)) = [0] := by
    simpa [Buffers.toVisit, hphase] using hvisit
  dsimp only at hqueue
  rw [hentries] at hqueue
  have hdone := hqueue.bufferStep (.freeQueued rfl) trivial
  refine ⟨_, hdone.of_guard, fun howned => howned.unused 0 ?_ (.hand 0 _ rfl rfl)⟩
  simp [freeSkb, hpool']

end Ctcp
