import Ctcp.Library.Execution
import Ctcp.Model.Coding
import Ctcp.Verification.Decoder.Soundness

/-! # The workers' shared generator -/

namespace Ctcp

open Function

/-! ## One packet alone -/

/-- The state of the generator after `n` draws. -/
def afterDraws (g : FastRand) : ℕ → FastRand
  | 0 => g
  | n + 1 => (drawCoeff (afterDraws g n)).2

theorem afterDraws_drawCoeff (g : FastRand) (n : ℕ) :
    afterDraws (drawCoeff g).2 n = afterDraws g (n + 1) := by
  induction n with
  | zero => rfl
  | succ n ih => rw [afterDraws, ih]; rfl

/-- One more coefficient comes from the state that the others left. -/
theorem drawCoeffs_succ (g : FastRand) (n : ℕ) :
    drawCoeffs g (n + 1) = drawCoeffs g n ++ [(drawCoeff (afterDraws g n)).1] := by
  induction n generalizing g with
  | zero => rfl
  | succ n ih =>
      rw [drawCoeffs, ih, afterDraws_drawCoeff]
      rfl

/-- The source row at `r`, from the contents that a job reads. -/
def Coder.sourceRow (c : Coder) (r : ℕ) : Payload := c.rows.getD r fun _ => 0

theorem mk_foldl_codedPayload (coeff : List UInt8) (rows : List Payload)
    (hlen : coeff.length = rows.length) (acc : UInt8) (j : Fin payloadSize) :
    (⟨(coeff.zip rows).foldl (fun payload cr =>
      if cr.1 = 0 then payload else payload ^^^ fastFFmult (cr.2 j) (xFFlog cr.1)) acc⟩ : GF256) =
      ⟨acc⟩ + ∑ k ∈ Finset.range rows.length,
        (⟨coeff.getD k 0⟩ : GF256) * ⟨rows.getD k (fun _ => 0) j⟩ := by
  induction rows generalizing coeff acc with
  | nil => simp
  | cons row rows ih =>
      cases coeff with
      | nil => simp at hlen
      | cons c coeff =>
          have hlen' : coeff.length = rows.length := by simpa using hlen
          rw [List.zip_cons_cons, List.foldl_cons, ih coeff hlen', List.length_cons,
            Finset.sum_range_succ']
          simp only [List.getD_cons_succ, List.getD_cons_zero]
          by_cases hc : c = 0
          · rw [if_pos hc, hc, GF256.mk_zero, zero_mul, add_zero]
          · have hadd : (⟨acc ^^^ fastFFmult (row j) (xFFlog c)⟩ : GF256) =
                ⟨acc⟩ + ⟨c⟩ * ⟨row j⟩ := by
              rw [← GF256.mk_fastFFmult _ hc]
              rfl
            rw [if_neg hc, hadd]
            ring

/-- The payload is the combination that the coefficients name. -/
theorem mk_codedPayload {coeff : List UInt8} {rows : List Payload}
    (hlen : coeff.length = rows.length) (j : Fin payloadSize) :
    (⟨codedPayload rows coeff j⟩ : GF256) = ∑ k ∈ Finset.range rows.length,
      (⟨coeff.getD k 0⟩ : GF256) * ⟨rows.getD k (fun _ => 0) j⟩ := by
  rw [codedPayload, mk_foldl_codedPayload coeff rows hlen, GF256.mk_zero, zero_add]

/-! ## The system -/

/-- The generator, and the jobs that run on the workers. -/
structure Workers where
  gen : FastRand
  coder : ℕ → Coder

inductive WorkerEvent where
  | seed (k : ℕ) (packetCoeff : UInt8)
  | draw (k : ℕ)
  | finish (k : ℕ)

/-- Each call of `seedfastrand` and of `fastrand` is a step of its own. -/
inductive WorkerStep : Workers → WorkerEvent → Workers → Prop where
  | seed {w : Workers} {k : ℕ} {packetCoeff : UInt8} (hphase : (w.coder k).phase = .seeding)
      (hleft : 0 < (w.coder k).remaining) :
      WorkerStep w (.seed k packetCoeff)
        { gen := seedfastrand (coeffSeed packetCoeff (w.coder k).blockno)
          coder := update w.coder k ((w.coder k).seed packetCoeff) }
  | draw {w : Workers} {k : ℕ} {packetCoeff : UInt8} {coeff : List UInt8}
      (hphase : (w.coder k).phase = .drawing packetCoeff coeff)
      (hlen : coeff.length < (w.coder k).rows.length) :
      WorkerStep w (.draw k)
        { gen := (drawCoeff w.gen).2
          coder := update w.coder k ((w.coder k).draw packetCoeff coeff w.gen) }
  | finish {w : Workers} {k : ℕ} {packetCoeff : UInt8} {coeff : List UInt8}
      (hphase : (w.coder k).phase = .drawing packetCoeff coeff)
      (hlen : coeff.length = (w.coder k).rows.length) :
      WorkerStep w (.finish k)
        { w with coder := update w.coder k ((w.coder k).finish packetCoeff coeff) }

/-- Jobs for different blocks, each with at least one row and nothing made yet. -/
structure Workers.Fresh (w : Workers) : Prop where
  blockno_inj : ∀ j k, (w.coder j).blockno = (w.coder k).blockno → j = k
  seeding : ∀ k, (w.coder k).phase = .seeding
  rows_pos : ∀ k, 0 < (w.coder k).rows.length
  rows_le : ∀ k, (w.coder k).rows.length ≤ blockSize
  pushed : ∀ k, (w.coder k).pushed = []

def workers : System Workers WorkerEvent where
  init := Workers.Fresh
  step := WorkerStep

/-! ## The condition -/

/-- Job `k` has seeded the generator and still has coefficients to draw. -/
def Workers.MidPacket (w : Workers) (k : ℕ) : Prop :=
  ∃ packetCoeff coeff, (w.coder k).phase = .drawing packetCoeff coeff ∧
    coeff.length < (w.coder k).rows.length

/-- No job changes the generator while another one is within a packet. -/
def Undisturbed (w : Workers) : WorkerEvent → Prop
  | .seed k packetCoeff => ∀ j, j ≠ k → w.MidPacket j →
      seedfastrand (coeffSeed packetCoeff (w.coder k).blockno) = w.gen
  | .draw k => ∀ j, j ≠ k → w.MidPacket j → (drawCoeff w.gen).2 = w.gen
  | .finish _ => True

/-- Every packet made is the one that the client will reconstruct. -/
def SameCoefficients (w : Workers) : Prop :=
  ∀ k, ∀ msg ∈ (w.coder k).pushed, Truthful (w.coder k).sourceRow msg

/-! ## The invariant -/

/-- What holds of a job between its steps; `gen` is the generator. -/
structure CoderInv (gen : FastRand) (c : Coder) : Prop where
  rows_pos : 0 < c.rows.length
  rows_le : c.rows.length ≤ blockSize
  drawn : ∀ packetCoeff coeff, c.phase = .drawing packetCoeff coeff →
    coeff.length ≤ c.rows.length ∧ coeff = packetCoeffs packetCoeff c.blockno coeff.length
  state : ∀ packetCoeff coeff, c.phase = .drawing packetCoeff coeff →
    coeff.length < c.rows.length →
    gen = afterDraws (seedfastrand (coeffSeed packetCoeff c.blockno)) coeff.length
  truthful : ∀ msg ∈ c.pushed, Truthful c.sourceRow msg

variable {gen : FastRand} {c : Coder}

theorem CoderInv.seed (h : CoderInv gen c) {packetCoeff : UInt8} {gen' : FastRand}
    (hgen : gen' = seedfastrand (coeffSeed packetCoeff c.blockno)) :
    CoderInv gen' (c.seed packetCoeff) where
  rows_pos := h.rows_pos
  rows_le := h.rows_le
  drawn _ _ hphase := by
    obtain ⟨rfl, rfl⟩ := CodingPhase.drawing.inj hphase
    simp [packetCoeffs, drawCoeffs]
  state _ _ hphase _ := by
    obtain ⟨rfl, rfl⟩ := CodingPhase.drawing.inj hphase
    exact hgen
  truthful := h.truthful

theorem CoderInv.draw (h : CoderInv gen c) {packetCoeff : UInt8} {coeff : List UInt8}
    (hphase : c.phase = .drawing packetCoeff coeff) (hlen : coeff.length < c.rows.length) :
    CoderInv (drawCoeff gen).2 (c.draw packetCoeff coeff gen) where
  rows_pos := h.rows_pos
  rows_le := h.rows_le
  drawn _ _ hphase' := by
    obtain ⟨rfl, rfl⟩ := CodingPhase.drawing.inj hphase'
    have hcoeff := (h.drawn _ _ hphase).2
    have hstate := h.state _ _ hphase hlen
    constructor
    · rw [List.length_append, List.length_singleton]
      exact hlen
    · rw [List.length_append, List.length_singleton, packetCoeffs, drawCoeffs_succ, ← packetCoeffs,
        hstate]
      exact congrArg (· ++ _) hcoeff
  state _ _ hphase' _ := by
    obtain ⟨rfl, rfl⟩ := CodingPhase.drawing.inj hphase'
    rw [List.length_append, List.length_singleton, h.state _ _ hphase hlen]
    rfl
  truthful := h.truthful

/-- A packet with the client's own coefficients is truthful. -/
theorem truthful_codedPacket (hpos : 0 < c.rows.length) (hle : c.rows.length ≤ blockSize)
    (packetCoeff : UInt8) :
    Truthful c.sourceRow (codedPacket c packetCoeff
      (packetCoeffs packetCoeff c.blockno c.rows.length)) := by
  have hnum : (UInt8.ofNat c.rows.length).toNat = c.rows.length := by
    rw [UInt8.toNat_ofNat']
    exact Nat.mod_eq_of_lt (hle.trans_lt (by decide))
  apply Truthful.coded
  · rfl
  · rfl
  · exact hnum.symm ▸ hpos
  · exact hnum.le.trans hle
  · intro i
    change (⟨codedPayload c.rows _ i⟩ : GF256) =
      ∑ k ∈ Finset.range (UInt8.ofNat c.rows.length).toNat,
        (⟨(packetCoeffs packetCoeff c.blockno (UInt8.ofNat c.rows.length).toNat).getD k 0⟩ :
          GF256) * ⟨c.sourceRow k i⟩
    rw [hnum, mk_codedPayload (length_packetCoeffs _ _ _)]
    rfl

theorem CoderInv.finish (h : CoderInv gen c) {packetCoeff : UInt8} {coeff : List UInt8}
    (hphase : c.phase = .drawing packetCoeff coeff) (hlen : coeff.length = c.rows.length) :
    CoderInv gen (c.finish packetCoeff coeff) := by
  have hcoeff := (h.drawn _ _ hphase).2
  rw [hlen] at hcoeff
  unfold Coder.finish
  split
  · exact ⟨h.rows_pos, h.rows_le, fun _ _ hc => by simp at hc, fun _ _ hc => by simp at hc,
      h.truthful⟩
  · refine ⟨h.rows_pos, h.rows_le, fun _ _ hc => by simp at hc, fun _ _ hc => by simp at hc, ?_⟩
    intro msg hmsg
    rcases List.mem_append.mp hmsg with hmsg | hmsg
    · exact h.truthful msg hmsg
    · obtain rfl := List.mem_singleton.mp hmsg
      rw [hcoeff]
      exact truthful_codedPacket h.rows_pos h.rows_le packetCoeff

/-- Another job's call that leaves the generator alone, or finds this one between
packets, keeps its invariant. -/
theorem CoderInv.other (h : CoderInv gen c) {gen' : FastRand}
    (hmid : (∃ packetCoeff coeff, c.phase = .drawing packetCoeff coeff ∧
      coeff.length < c.rows.length) → gen' = gen) : CoderInv gen' c :=
  { h with
    state := fun packetCoeff coeff hphase hlen =>
      (hmid ⟨packetCoeff, coeff, hphase, hlen⟩).trans (h.state _ _ hphase hlen) }

variable {w w' : Workers}

/-- A step of job `k` that keeps its own invariant keeps those of all jobs. -/
theorem coderInv_update (h : ∀ j, CoderInv w.gen (w.coder j)) {k : ℕ} {gen' : FastRand}
    {c' : Coder} (hk : CoderInv gen' c')
    (hmid : ∀ j, j ≠ k → w.MidPacket j → gen' = w.gen) (j : ℕ) :
    CoderInv gen' (update w.coder k c' j) := by
  by_cases hj : j = k
  · rw [hj, update_self]
    exact hk
  · rw [update_of_ne hj]
    exact (h j).other (hmid j hj)

theorem coderInv_step {e : WorkerEvent} (h : ∀ j, CoderInv w.gen (w.coder j))
    (hstep : WorkerStep w e w') (hfree : Undisturbed w e) :
    ∀ j, CoderInv w'.gen (w'.coder j) := by
  cases hstep with
  | @seed k packetCoeff hphase hleft =>
      apply coderInv_update h ((h k).seed rfl)
      exact hfree
  | @draw k packetCoeff coeff hphase hlen =>
      apply coderInv_update h ((h k).draw hphase hlen)
      exact hfree
  | @finish k packetCoeff coeff hphase hlen =>
      apply coderInv_update h ((h k).finish hphase hlen)
      exact fun _ _ _ => rfl

theorem coderInv_of_reachable (h : (workers.guard Undisturbed).Reachable w) :
    ∀ k, CoderInv w.gen (w.coder k) := by
  apply h.invariant (I := fun w => ∀ k, CoderInv w.gen (w.coder k))
  · intro w hw k
    have hidle : ∀ packetCoeff coeff, (w.coder k).phase ≠ .drawing packetCoeff coeff :=
      fun _ _ hphase => by simp [hw.seeding k] at hphase
    refine ⟨hw.rows_pos k, hw.rows_le k, fun _ _ hc => (hidle _ _ hc).elim,
      fun _ _ hc => (hidle _ _ hc).elim, fun msg hmsg => ?_⟩
    simp [hw.pushed k] at hmsg
  · exact fun w e w' hinv hstep => coderInv_step hinv hstep.2 hstep.1

/-- Sender and receiver agree on all coefficients, as long as no job disturbs the
generator while another is within a packet. -/
theorem sameCoefficients_of_reachable (h : (workers.guard Undisturbed).Reachable w) :
    SameCoefficients w :=
  fun k => (coderInv_of_reachable h k).truthful

/-! ## Two jobs at once -/

namespace SharedGenerator

/-- A job for one coded packet of block `k + 1`, whose only row is all ones. -/
def job (k : ℕ) : Coder := ⟨k + 1, [fun _ => 1], 1, .seeding, []⟩

def start : Workers := ⟨⟨0, 0, 0⟩, job⟩

theorem fresh_start : start.Fresh where
  blockno_inj _ _ h := Nat.succ.inj h
  seeding _ := rfl
  rows_pos _ := Nat.one_pos
  rows_le _ := show 1 ≤ blockSize by decide
  pushed _ := rfl

theorem not_midPacket {w : Workers} {k : ℕ} (h : (w.coder k).phase = .seeding) :
    ¬w.MidPacket k := by
  rintro ⟨_, _, hphase, -⟩
  simp [h] at hphase

/-- Job `k` has drawn its coefficient from `g`. -/
def drawn (k : ℕ) (g : FastRand) : Coder := ((job k).seed 0).draw 0 [] g

/-- Job `k` has pushed its packet. -/
def finished (k : ℕ) (g : FastRand) : Coder := (drawn k g).finish 0 [(drawCoeff g).1]

theorem finished_phase (k : ℕ) (g : FastRand) : (finished k g).phase = .seeding := by
  rw [finished, Coder.finish]
  split <;> rfl

theorem finished_pushed {k : ℕ} {g : FastRand} (h : (drawCoeff g).1 ≠ 0) :
    (finished k g).rows = (job k).rows ∧
      (finished k g).pushed = [codedPacket (job k) 0 [(drawCoeff g).1]] := by
  simp [finished, drawn, job, Coder.seed, Coder.draw, Coder.finish, codedPacket, h]

section

variable {C : Workers → WorkerEvent → Prop} {w : Workers} {k : ℕ}

/-- Only the job that makes a step can get into a packet. -/
theorem midPacket_of_update {g : FastRand} {c : Coder} {j : ℕ}
    (h : Workers.MidPacket ⟨g, update w.coder k c⟩ j) (hj : j ≠ k) : w.MidPacket j := by
  obtain ⟨packetCoeff, coeff, hphase, hlen⟩ := h
  simp only [update_of_ne hj] at hphase hlen
  exact ⟨packetCoeff, coeff, hphase, hlen⟩

theorem not_midPacket_drawn {g : FastRand} (h : w.coder k = drawn k g) : ¬w.MidPacket k := by
  rintro ⟨packetCoeff, coeff, hphase, hlen⟩
  rw [h] at hphase hlen
  cases hphase
  exact Nat.lt_irrefl _ hlen

theorem reachable_seed (h : (workers.guard C).Reachable w) (hjob : w.coder k = job k)
    (hC : C w (.seed k 0)) : (workers.guard C).Reachable
      ⟨seedfastrand (coeffSeed 0 (k + 1)), update w.coder k ((job k).seed 0)⟩ := by
  have hstep : WorkerStep w (.seed k 0) _ :=
    .seed (by rw [hjob]; rfl) (by rw [hjob]; exact Nat.one_pos)
  rw [hjob] at hstep
  exact h.step ⟨hC, hstep⟩

theorem reachable_draw (h : (workers.guard C).Reachable w) (hjob : w.coder k = (job k).seed 0)
    (hC : C w (.draw k)) : (workers.guard C).Reachable
      ⟨(drawCoeff w.gen).2, update w.coder k (drawn k w.gen)⟩ := by
  have hphase : (w.coder k).phase = .drawing 0 [] := by rw [hjob]; rfl
  have hstep : WorkerStep w (.draw k) _ := .draw hphase (by rw [hjob]; exact Nat.one_pos)
  rw [hjob] at hstep
  exact h.step ⟨hC, hstep⟩

theorem reachable_finish {g : FastRand} (h : (workers.guard C).Reachable w)
    (hjob : w.coder k = drawn k g) (hC : C w (.finish k)) :
    (workers.guard C).Reachable ⟨w.gen, update w.coder k (finished k g)⟩ := by
  have hphase : (w.coder k).phase = .drawing 0 [(drawCoeff g).1] := by rw [hjob]; rfl
  have hstep : WorkerStep w (.finish k) _ := .finish hphase (by rw [hjob]; rfl)
  rw [hjob] at hstep
  exact h.step ⟨hC, hstep⟩

end

end SharedGenerator

open SharedGenerator

/-- Job 1 seeds when job 0 has drawn its coefficient, but not yet pushed its packet. -/
theorem sameCoefficients_twoJobs : ∃ w : Workers,
    (w.coder 0).pushed ≠ [] ∧ (w.coder 1).pushed ≠ [] ∧ SameCoefficients w := by
  have hstart (j : ℕ) : ¬start.MidPacket j := not_midPacket rfl
  have hseed₀ := reachable_seed (k := 0) (.init (S := workers.guard Undisturbed) fresh_start) rfl
    fun j _ hmid => (hstart j hmid).elim
  have hne₀ : (drawCoeff (seedfastrand (coeffSeed 0 (0 + 1)))).1 ≠ 0 := by decide +kernel
  have hne₁ : (drawCoeff (seedfastrand (coeffSeed 0 (1 + 1)))).1 ≠ 0 := by decide +kernel
  generalize seedfastrand (coeffSeed 0 (0 + 1)) = g₀ at hseed₀ hne₀
  have hdraw₀ := reachable_draw (k := 0) hseed₀ rfl fun j hj hmid =>
    (hstart j (midPacket_of_update hmid hj)).elim
  have hquiet (j : ℕ) :
      ¬Workers.MidPacket ⟨(drawCoeff g₀).2, update (update start.coder 0 ((job 0).seed 0)) 0
        (drawn 0 g₀)⟩ j := by
    by_cases hj : j = 0
    · subst hj
      exact not_midPacket_drawn (k := 0) (g := g₀) rfl
    · intro hmid
      have hseeded : Workers.MidPacket ⟨g₀, update start.coder 0 ((job 0).seed 0)⟩ j :=
        midPacket_of_update hmid hj
      exact hstart j (midPacket_of_update hseeded hj)
  have hseed₁ := reachable_seed (k := 1) hdraw₀ rfl fun j _ hmid => (hquiet j hmid).elim
  generalize seedfastrand (coeffSeed 0 (1 + 1)) = g₁ at hseed₁ hne₁
  have hdone₀ := reachable_finish (k := 0) (g := g₀) hseed₁ rfl trivial
  have hdraw₁ := reachable_draw (k := 1) hdone₀ rfl fun j hj hmid => by
    by_cases hj₀ : j = 0
    · subst hj₀
      exact (not_midPacket (finished_phase 0 g₀) hmid).elim
    · have hseeded : Workers.MidPacket ⟨g₁, update (update (update start.coder 0
          ((job 0).seed 0)) 0 (drawn 0 g₀)) 1 ((job 1).seed 0)⟩ j :=
        midPacket_of_update hmid hj₀
      exact (hquiet j (midPacket_of_update hseeded hj)).elim
  have hdone₁ := reachable_finish (k := 1) hdraw₁ rfl trivial
  refine ⟨_, ?_, ?_, sameCoefficients_of_reachable hdone₁⟩
  · exact (finished_pushed hne₀).2 ▸ List.cons_ne_nil _ _
  · exact (finished_pushed hne₁).2 ▸ List.cons_ne_nil _ _

/-- Another job seeds between the two calls of a job: the packet is made with a
coefficient that the client will not find. -/
theorem not_sameCoefficients_of_crossed :
    ¬∀ w, workers.Reachable w → SameCoefficients w := by
  intro hall
  have hinit : (workers.guard fun _ _ => True).Reachable start := .init fresh_start
  have hseed := reachable_seed (k := 0) hinit rfl trivial
  have hcross := reachable_seed (k := 1) hseed rfl trivial
  have hcoeff : (drawCoeff (seedfastrand (coeffSeed 0 (1 + 1)))).1 = 171 := by decide +kernel
  generalize seedfastrand (coeffSeed 0 (1 + 1)) = g at hcross hcoeff
  have hdraw := reachable_draw (k := 0) hcross rfl trivial
  have hdone := reachable_finish (k := 0) (g := g) hdraw rfl trivial
  obtain ⟨hrows, hpushed⟩ := finished_pushed (k := 0) (g := g) (by rw [hcoeff]; decide)
  rw [hcoeff] at hpushed
  obtain ⟨w, hw, hcoder⟩ : ∃ w, workers.Reachable w ∧ w.coder 0 = finished 0 g :=
    ⟨_, hdone.of_guard, rfl⟩
  have htruth := hall w hw 0 (codedPacket (job 0) 0 [171]) (by
    rw [hcoder, hpushed]
    exact List.mem_singleton_self _)
  cases htruth with
  | normal hflag => cases hflag
  | coded _ _ _ _ hpayload =>
      have hclient : packetCoeffs 0 1 1 = [32] := by decide +kernel
      have hbyte := hpayload ⟨0, by decide⟩
      change (⟨171⟩ : GF256) = ∑ k ∈ Finset.range 1,
        (⟨(packetCoeffs 0 1 1).getD k 0⟩ : GF256) *
          ⟨(w.coder 0).rows.getD k (fun _ => 0) _⟩ at hbyte
      rw [hclient, Finset.sum_range_one, hcoder, hrows] at hbyte
      exact absurd (congrArg GF256.byte hbyte) (by decide +kernel)

end Ctcp
