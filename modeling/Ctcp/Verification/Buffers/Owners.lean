import Ctcp.Library.Placement
import Ctcp.Verification.Buffers.System

/-! # Every buffer has one owner -/

namespace Ctcp

open Function

variable {s s' : Buffers} {e : BufferEvent} {a : Skb}

/-! ## One owner for each buffer -/

/-- The rows that the release in progress still has to hand to `free_skb`. -/
def Buffers.rowsToFree (s : Buffers) : List Skb :=
  match s.phase with
  | .freeingRows left => left
  | _ => []

/-- The same for the entries of `coded_q`. -/
def Buffers.toVisit (s : Buffers) : List Skb :=
  match s.phase with
  | .freeingRows _ => qFreed (s.codedQ (slot s.currBlock))
  | .freeingQueue left => left
  | _ => []

/-- Somebody uses the buffer: a thread, or a block or queue that is not being released. -/
inductive Buffers.Uses (s : Buffers) (a : Skb) : Prop
  | own (h : a ∈ s.own)
  | sending (h : s.phase = .sending a)
  | hand (w : Fin threads) (c : BufferJob) (hc : s.coders w = some c) (h : c.hand = some a)
  | block (k : ℕ) (hk : s.released ≠ some k) (h : a ∈ s.blocks k)
  | queue (k : ℕ) (hk : s.released ≠ some k) (h : a ∈ (s.codedQ k).contents)

/-- No buffer on the free list is in use, or comes there while it is. None is lost. -/
structure BuffersOwned (s : Buffers) : Prop where
  nodup : s.pool.first.Nodup
  unused : ∀ a ∈ s.pool.first, ¬s.Uses a
  frees : ∀ a ∈ s.rowsToFree ++ s.toVisit, s.pool.used a = true → ¬s.Uses a
  kept : ∀ a < s.pool.num, a ∈ s.pool.first ∨ s.Uses a ∨ a ∈ s.rowsToFree ++ s.toVisit

/-- The next buffer from the free list is not one that the release in progress will hand
to `free_skb` again. When a release starts, `q_free` will not pass over a coded packet. -/
def FreesOnce (s : Buffers) : BufferEvent → Prop
  | .fill | .alloc _ | .borrow => ∀ a, s.pool.first.head? = some a → a ∉ s.toVisit
  | .release =>
    ∀ a ∈ (s.codedQ (slot s.currBlock)).contents, s.coded a = true →
      a ∈ qFreed (s.codedQ (slot s.currBlock))
  | .other => True

/-! ## Owners -/

inductive Place where
  | pool
  | own
  | server
  | hand (w : Fin threads)
  | rows (k : ℕ)
  | queue (k : ℕ)

/-- The rows of a slot that are not freed yet. -/
def Buffers.rowsLeft (s : Buffers) (k : ℕ) : List Skb :=
  if s.released = some k then s.rowsToFree else s.blocks k

/-- The entries of a queue, without those that a release has dealt with. -/
def Buffers.queueLeft (s : Buffers) (k : ℕ) : List Skb :=
  if s.released = some k then s.toVisit else (s.codedQ k).contents

/-- A packet with a row belongs to the row. -/
def Buffers.bag (s : Buffers) : Place → Multiset Skb
  | .pool => s.pool.first
  | .own => s.own
  | .server =>
    match s.phase with
    | .sending a => if s.coded a then {a} else 0
    | _ => 0
  | .hand w => ((s.coders w).bind BufferJob.hand).toList
  | .rows k => s.rowsLeft k
  | .queue k => (s.queueLeft k).filter (s.coded ·)

/-- A buffer is used when it is allocated and not on the free list. -/
def SkbPool.Marked (pool : SkbPool) : Prop :=
  ∀ a, pool.used a = true ↔ a < pool.num ∧ a ∉ pool.first

structure BuffersInv (s : Buffers) : Prop where
  placed : Placed s.bag {a | a < s.pool.num}
  marked : s.pool.Marked
  queues : ∀ k, (s.codedQ k).Inv ∧ (s.codedQ k).maxSize = 2 * blockSize
  /-- An uncoded packet in a queue is a row of the block. -/
  uncoded : ∀ k, s.released ≠ some k → ∀ a ∈ (s.codedQ k).contents, s.coded a = false →
    a ∈ s.blocks k
  /-- In a release the row is freed first. -/
  visits : ∀ a ∈ s.toVisit, s.coded a = false → a ∈ s.rowsToFree ∨ a ∈ s.pool.first
  sending : ∀ a, s.phase = .sending a → s.coded a = false → ∃ k, a ∈ s.blocks k
  hand : ∀ w c a, s.coders w = some c → c.hand = some a → s.coded a = true
  locked : ∀ w c, s.coders w = some c → s.released ≠ some c.k
  emptied : ∀ left, s.phase = .freeingQueue left → s.blocks (slot s.currBlock) = []

namespace BuffersInv

/-- What is in use has a place, which is not the free list and not in the slot that is
released. -/
theorem place (h : BuffersInv s) (ha : s.Uses a) : ∃ p, a ∈ s.bag p ∧ p ≠ .pool ∧
    ∀ k, s.released = some k → p ≠ .rows k ∧ p ≠ .queue k := by
  have hrows : ∀ k, s.released ≠ some k → a ∈ s.blocks k → ∃ p, a ∈ s.bag p ∧ p ≠ .pool ∧
      ∀ k, s.released = some k → p ≠ .rows k ∧ p ≠ .queue k := by
    intro k hk hmem
    refine ⟨.rows k, ?_, by simp, ?_⟩
    · rw [Buffers.bag, Buffers.rowsLeft, if_neg hk]
      exact hmem
    · intro k' hk'
      refine ⟨?_, by simp⟩
      rintro ⟨⟩
      exact hk hk'
  cases ha with
  | own hmem => exact ⟨.own, hmem, by simp, by simp⟩
  | sending hphase =>
      have hnone : ∀ k, s.released ≠ some k := by simp [Buffers.released, hphase]
      cases hcoded : s.coded a with
      | true => exact ⟨.server, by simp [Buffers.bag, hphase, hcoded], by simp, by simp⟩
      | false =>
          obtain ⟨k, hk⟩ := h.sending a hphase hcoded
          exact hrows k (hnone k) hk
  | hand w c hc hhand => exact ⟨.hand w, by simp [Buffers.bag, hc, hhand], by simp, by simp⟩
  | block k hk hmem => exact hrows k hk hmem
  | queue k hk hmem =>
      cases hcoded : s.coded a with
      | true =>
          refine ⟨.queue k, ?_, by simp, ?_⟩
          · rw [Buffers.bag, Buffers.queueLeft, if_neg hk]
            exact List.mem_filter.mpr ⟨hmem, hcoded⟩
          · intro k' hk'
            refine ⟨by simp, ?_⟩
            rintro ⟨⟩
            exact hk hk'
      | false => exact hrows k hk (h.uncoded k hk a hmem hcoded)

theorem rowsToFree_place (ha : a ∈ s.rowsToFree) :
    ∃ k, s.released = some k ∧ a ∈ s.bag (.rows k) := by
  rw [Buffers.rowsToFree] at ha
  split at ha
  · next left hphase =>
    have hreleased : s.released = some (slot s.currBlock) := by simp [Buffers.released, hphase]
    refine ⟨_, hreleased, ?_⟩
    rw [Buffers.bag, Buffers.rowsLeft, if_pos hreleased, Buffers.rowsToFree, hphase]
    exact ha
  · exact absurd ha List.not_mem_nil

theorem released_of_mem_toVisit (ha : a ∈ s.toVisit) : ∃ k, s.released = some k := by
  rw [Buffers.toVisit] at ha
  split at ha
  · next hphase => exact ⟨_, by simp only [Buffers.released, hphase]; rfl⟩
  · next hphase => exact ⟨_, by simp only [Buffers.released, hphase]; rfl⟩
  · exact absurd ha List.not_mem_nil

theorem toVisit_place (ha : a ∈ s.toVisit) (hcoded : s.coded a = true) :
    ∃ k, s.released = some k ∧ a ∈ s.bag (.queue k) := by
  obtain ⟨k, hk⟩ := released_of_mem_toVisit ha
  refine ⟨k, hk, ?_⟩
  rw [Buffers.bag, Buffers.queueLeft, if_pos hk]
  exact List.mem_filter.mpr ⟨ha, hcoded⟩

theorem owned (h : BuffersInv s) : BuffersOwned s := by
  constructor
  case nodup => exact Multiset.coe_nodup.mp (h.placed.nodup .pool)
  case unused =>
    intro a ha huses
    obtain ⟨p, hp, hne, -⟩ := h.place huses
    exact hne (h.placed.unique hp ha)
  case frees =>
    intro a ha hused huses
    obtain ⟨p, hp, -, hnot⟩ := h.place huses
    have hrows : a ∉ s.rowsToFree := by
      intro hmem
      obtain ⟨k, hk, hbag⟩ := rowsToFree_place hmem
      exact (hnot k hk).1 (h.placed.unique hp hbag)
    rcases List.mem_append.mp ha with hmem | hmem
    · exact hrows hmem
    · cases hcoded : s.coded a with
      | true =>
          obtain ⟨k, hk, hbag⟩ := toVisit_place hmem hcoded
          exact (hnot k hk).2 (h.placed.unique hp hbag)
      | false =>
          exact (h.visits a hmem hcoded).elim hrows ((h.marked a).mp hused).2
  case kept =>
    intro a ha
    obtain ⟨p, hp⟩ := (h.placed.mem_iff a).mp ha
    cases p with
    | pool => exact Or.inl hp
    | own => exact Or.inr (Or.inl (.own hp))
    | server =>
        rw [Buffers.bag] at hp
        split at hp
        · next hphase =>
          split_ifs at hp
          · obtain rfl := Multiset.mem_singleton.mp hp
            exact Or.inr (Or.inl (.sending hphase))
          · exact absurd hp (Multiset.notMem_zero a)
        · exact absurd hp (Multiset.notMem_zero a)
    | hand w =>
        obtain ⟨c, hc, hhand⟩ := Option.bind_eq_some_iff.mp (Option.mem_toList.mp hp)
        exact Or.inr (Or.inl (.hand w c hc hhand))
    | rows k =>
        rw [Buffers.bag, Buffers.rowsLeft] at hp
        split_ifs at hp with hk
        · exact Or.inr (Or.inr (List.mem_append_left _ hp))
        · exact Or.inr (Or.inl (.block k hk hp))
    | queue k =>
        rw [Buffers.bag, Buffers.queueLeft] at hp
        have hmem := (List.mem_filter.mp hp).1
        split_ifs at hmem with hk
        · exact Or.inr (Or.inr (List.mem_append_right _ hmem))
        · exact Or.inr (Or.inl (.queue k hk hmem))

end BuffersInv

/-! ## The free list -/

variable {pool : SkbPool} {bag bag' : Place → Multiset Skb} {q : Place}

theorem allocSkb_nil (h : pool.first = []) :
    allocSkb pool = (pool.num, ⟨[], update pool.used pool.num true, pool.num + 1⟩) := by
  rw [allocSkb, h]

theorem allocSkb_cons {first : List Skb} (h : pool.first = a :: first) :
    allocSkb pool = (a, ⟨first, update pool.used a true, pool.num⟩) := by
  rw [allocSkb, h]

/-- What `alloc_skb` does with the places. -/
theorem Placed.alloc (h : Placed bag {a | a < pool.num}) (hpool : bag .pool = pool.first)
    (hpool' : bag' .pool = (allocSkb pool).2.first) (hq : q ≠ .pool)
    (hnew : bag' q = (allocSkb pool).1 ::ₘ bag q)
    (hrest : ∀ r, r ≠ .pool → r ≠ q → bag' r = bag r) :
    Placed bag' {a | a < (allocSkb pool).2.num} := by
  cases hfirst : pool.first with
  | nil =>
      rw [allocSkb_nil hfirst] at *
      have hset : {a | a < pool.num + 1} = Insert.insert pool.num {a | a < pool.num} := by
        ext a
        simp only [Set.mem_ofPred_eq, Set.mem_insert_iff]
        omega
      rw [hset]
      apply h.insert (q := q) (by simp) hnew
      intro r hr
      by_cases he : r = .pool
      · rw [he, hpool', hpool, hfirst]
      · exact hrest r he hr
  | cons a first =>
      rw [allocSkb_cons hfirst] at *
      apply h.move (p := .pool) (q := q) (a := a) hq.symm _ hnew hrest
      rw [hpool, hpool', hfirst]
      rfl

/-- What `free_skb` does with them. -/
theorem Placed.free {S : Set Skb} (h : Placed bag S) (hpool : bag .pool = pool.first)
    (hpool' : bag' .pool = (freeSkb pool a).first) (hused : pool.used a = true) (hq : q ≠ .pool)
    (hold : bag q = a ::ₘ bag' q) (hrest : ∀ r, r ≠ .pool → r ≠ q → bag' r = bag r) :
    Placed bag' S := by
  apply h.move (p := q) (q := .pool) hq hold _ fun r hr hr' => hrest r hr' hr
  rw [hpool', hpool, freeSkb, if_neg (by simp [hused])]
  rfl

@[simp] theorem num_freeSkb (pool : SkbPool) (a : Skb) : (freeSkb pool a).num = pool.num := by
  rw [freeSkb]
  split <;> rfl

theorem SkbPool.Marked.alloc (h : pool.Marked) (hnodup : pool.first.Nodup)
    (hlt : ∀ a ∈ pool.first, a < pool.num) : (allocSkb pool).2.Marked := by
  intro b
  have hb := h b
  cases hfirst : pool.first with
  | nil =>
      rw [allocSkb_nil hfirst]
      dsimp only
      rw [hfirst] at hb
      by_cases he : b = pool.num
      · simp [he]
      · rw [update_of_ne he, hb]
        simp only [List.not_mem_nil, not_false_eq_true, and_true]
        exact ⟨Nat.lt_succ_of_lt, fun hle => lt_of_le_of_ne (Nat.le_of_lt_succ hle) he⟩
  | cons a first =>
      rw [allocSkb_cons hfirst]
      dsimp only
      rw [hfirst] at hb hnodup hlt
      rw [List.nodup_cons] at hnodup
      by_cases he : b = a
      · subst he
        simp [hnodup.1, hlt]
      · rw [update_of_ne he, hb, List.mem_cons, or_iff_right he]

theorem SkbPool.Marked.free (h : pool.Marked) : (freeSkb pool a).Marked := by
  intro b
  rw [freeSkb]
  split
  · exact h b
  · by_cases he : b = a
    · simp [he]
    · simp [he, h b]

end Ctcp
