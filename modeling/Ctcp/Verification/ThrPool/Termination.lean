import Ctcp.Verification.ThrPool.Drain

/-! # The pool terminates

Every step brings the jobs further, or puts a thread to sleep that cannot do anything
before another job moves. Only spurious wakeups undo the latter. -/

namespace Ctcp

open Function ThrPool

variable {n m : ℕ} {s s' : ThrPool n m} {e : ThrPoolEvent n m} {t : PoolThread n m}

/-! ## What is left to do -/

/-- The steps that a worker still takes with the job in its hand. -/
def DoWorker.rest : DoWorker → ℕ
  | .running _ => 2
  | .freeing _ => 1
  | _ => 0

theorem DoWorker.rest_taking : DoWorker.taking.rest = 0 := rfl

theorem DoWorker.rest_exited : DoWorker.exited.rest = 0 := rfl

theorem DoWorker.rest_running (k : ℕ) : (DoWorker.running k).rest = 2 := rfl

theorem DoWorker.rest_freeing (k : ℕ) : (DoWorker.freeing k).rest = 1 := rfl

/-- The steps of `thrpool_kill`, with those of the jobs that it adds. -/
def ThrpoolKill.rest (n : ℕ) : ThrpoolKill → ℕ
  | .before => 5 * n + 3
  | .adding left => 4 * left + n + 2
  | .joining i => n - i + 1
  | .returned => 0

namespace ThrPool

/-- The steps of all jobs that are still to be added, taken, executed or freed. -/
def rest (s : ThrPool n m) : ℕ :=
  4 * ∑ i, (s.callers i).length + 3 * s.jobQ.length + ∑ w, (s.workers w).rest + s.kill.rest n

open Classical in
/-- The threads that are awake, but can do nothing but go to sleep. -/
noncomputable def restless (s : ThrPool n m) : Finset (PoolThread n m) :=
  Finset.univ.filter fun t =>
    t ∉ s.asleep ∧ (s.Pushes t ∧ s.jobQ.length = 2 * n ∨ s.Pops t ∧ s.jobQ = [])

noncomputable def rank (s : ThrPool n m) : ℕ :=
  s.rest * (Fintype.card (PoolThread n m) + 1) + s.restless.card

end ThrPool

theorem ThrPool.mem_restless : t ∈ s.restless ↔
    t ∉ s.asleep ∧ (s.Pushes t ∧ s.jobQ.length = 2 * n ∨ s.Pops t ∧ s.jobQ = []) := by
  classical
  simp [restless]

theorem sum_update {ι α : Type*} [Fintype ι] [DecidableEq ι] (f : α → ℕ) (g : ι → α) (i : ι)
    (a : α) : ∑ j, f (update g i a j) + f (g i) = ∑ j, f (g j) + f a := by
  have hg := Finset.add_sum_erase Finset.univ (fun j => f (g j)) (Finset.mem_univ i)
  have hu := Finset.add_sum_erase Finset.univ (fun j => f (update g i a j)) (Finset.mem_univ i)
  have hrest : ∑ j ∈ Finset.univ.erase i, f (update g i a j) =
      ∑ j ∈ Finset.univ.erase i, f (g j) :=
    Finset.sum_congr rfl fun j hj => by rw [update_of_ne (Finset.ne_of_mem_erase hj)]
  simp only [update_self] at hu
  omega

theorem ThrPool.card_restless_le (s : ThrPool n m) :
    s.restless.card ≤ Fintype.card (PoolThread n m) := Finset.card_le_univ _

/-- A step that brings a job further outweighs what it may do to the restless threads. -/
theorem ThrPool.rank_of_rest (h : s'.rest + 1 ≤ s.rest) : s'.rank + 1 ≤ s.rank := by
  have hcard := s'.card_restless_le
  have hmul := Nat.mul_le_mul_right (Fintype.card (PoolThread n m) + 1) h
  rw [Nat.add_mul, Nat.one_mul] at hmul
  unfold rank
  omega

theorem ThrPool.rank_of_restless (hrest : s'.rest = s.rest)
    (h : s'.restless.card + 1 ≤ s.restless.card) : s'.rank + 1 ≤ s.rank := by
  unfold rank
  rw [hrest]
  omega

/-- A worker moves, and takes a job from the queue or does something with the one in its
hand. -/
theorem ThrPool.rank_of_worker {w : Fin n} {d : DoWorker} (hcallers : s'.callers = s.callers)
    (hkill : s'.kill = s.kill) (hworkers : s'.workers = update s.workers w d)
    (h : 3 * s'.jobQ.length + d.rest + 1 ≤ 3 * s.jobQ.length + (s.workers w).rest) :
    s'.rank + 1 ≤ s.rank := by
  apply rank_of_rest
  have hsum := sum_update DoWorker.rest s.workers w d
  rw [rest, rest, hcallers, hkill, hworkers]
  omega

/-- A restless thread goes to sleep; those that it wakes are not restless. -/
theorem ThrPool.restless_sleep {asleep : Finset (PoolThread n m)} (ht : t ∈ s.restless)
    (hwoken : ∀ t' ∈ s.asleep, t' ∉ asleep →
      ¬(s.Pushes t' ∧ s.jobQ.length = 2 * n ∨ s.Pops t' ∧ s.jobQ = [])) :
    ThrPool.restless { s with asleep := insert t asleep } ⊂ s.restless := by
  rw [Finset.ssubset_iff_of_subset]
  · refine ⟨t, ht, fun hin => ?_⟩
    exact (mem_restless.mp hin).1 (Finset.mem_insert_self t asleep)
  · intro t' ht'
    obtain ⟨hawake, hwants⟩ := mem_restless.mp ht'
    refine mem_restless.mpr ⟨fun hin => ?_, hwants⟩
    exact hwoken t' hin (fun hmem => hawake (Finset.mem_insert_of_mem hmem)) hwants

theorem jobQueue_add_length {q q' : List Job} {p : Priority} {j : Job} {answer : Option Job}
    (h : jobQueue n q (addJob p j) = some (answer, q')) : q'.length = q.length + 1 := by
  cases p with
  | low =>
      obtain ⟨-, -, rfl⟩ := jobQueue_low.mp h
      simp
  | high =>
      obtain ⟨-, -, rfl⟩ := jobQueue_high.mp h
      simp

/-- Only threads of the kind that is signalled are woken. -/
theorem Signals.waits_of_woken {waits : PoolThread n m → Prop}
    {asleep asleep' : Finset (PoolThread n m)} (h : Signals waits asleep asleep')
    (hin : t ∈ asleep) (hout : t ∉ asleep') : waits t := by
  by_contra hnot
  exact hout (h.others t hin hnot)

theorem ThrPoolStep.rank_go (hstep : ThrPoolStep s (.go t) s') (hn : 1 ≤ n) :
    s'.rank + 1 ≤ s.rank := by
  cases hstep with
  | @add i p calls q asleep hcall hawake hq hsignal =>
      apply rank_of_rest
      have hlength := jobQueue_add_length hq
      have hsum := sum_update List.length s.callers i calls
      rw [hcall, List.length_cons] at hsum
      simp only [rest]
      omega
  | @take w k q asleep hat hawake hq hsignal =>
      refine rank_of_worker (by rfl) (by rfl) (by rfl) ?_
      rw [hat, jobQueue_pop.mp hq, List.length_cons, DoWorker.rest_taking, DoWorker.rest_running]
      dsimp only
      omega
  | @die w q asleep hat hawake hq hsignal =>
      refine rank_of_worker (by rfl) (by rfl) (by rfl) ?_
      rw [hat, jobQueue_pop.mp hq, List.length_cons, DoWorker.rest_taking, DoWorker.rest_exited]
      dsimp only
      omega
  | @run w k hat =>
      refine rank_of_worker (by rfl) (by rfl) (by rfl) ?_
      rw [hat, DoWorker.rest_running, DoWorker.rest_freeing]
  | @free w k hat =>
      refine rank_of_worker (by rfl) (by rfl) (by rfl) ?_
      rw [hat, DoWorker.rest_freeing, DoWorker.rest_taking]
  | kill hat hcallers =>
      apply rank_of_rest
      simp only [rest, hat, ThrpoolKill.rest]
      omega
  | addNull hat hawake hq hsignal =>
      obtain ⟨-, -, rfl⟩ := jobQueue_low.mp hq
      apply rank_of_rest
      simp only [rest, hat, ThrpoolKill.rest, List.length_append, List.length_singleton]
      omega
  | allAdded hat =>
      apply rank_of_rest
      simp only [rest, hat, ThrpoolKill.rest]
      omega
  | @join w hat hexited =>
      apply rank_of_rest
      have hlt := w.isLt
      simp only [rest, hat, ThrpoolKill.rest]
      omega
  | allJoined hat =>
      apply rank_of_rest
      simp only [rest, hat, ThrpoolKill.rest]
      omega
  | waitPush hpush hawake hfull hsignal =>
      refine rank_of_restless (by rfl) (Finset.card_lt_card (restless_sleep ?_ ?_))
      · exact mem_restless.mpr ⟨hawake, .inl ⟨hpush, hfull⟩⟩
      · intro t' hin hout
        have hpops := hsignal.waits_of_woken hin hout
        rintro (⟨hpushes, -⟩ | ⟨-, hempty⟩)
        · exact not_pops_of_pushes hpushes hpops
        · rw [hempty, List.length_nil] at hfull
          omega
  | waitPop hpop hawake hempty hsignal =>
      refine rank_of_restless (by rfl) (Finset.card_lt_card (restless_sleep ?_ ?_))
      · exact mem_restless.mpr ⟨hawake, .inr ⟨hpop, hempty⟩⟩
      · intro t' hin hout
        have hpushes := hsignal.waits_of_woken hin hout
        rintro (⟨-, hfull⟩ | ⟨hpops, -⟩)
        · rw [hempty, List.length_nil] at hfull
          omega
        · exact not_pops_of_pushes hpushes hpops

theorem ThrPoolStep.rank_spurious (hstep : ThrPoolStep s (.spurious t) s') :
    s'.rank ≤ s.rank + 1 := by
  cases hstep with
  | spurious hasleep =>
      have hsub : ThrPool.restless { s with asleep := s.asleep.erase t } ⊆ insert t s.restless := by
        intro t' ht'
        obtain ⟨hawake, hwants⟩ := mem_restless.mp ht'
        by_cases he : t' = t
        · exact Finset.mem_insert.mpr (.inl he)
        · refine Finset.mem_insert_of_mem (mem_restless.mpr ⟨?_, hwants⟩)
          exact fun hin => hawake (Finset.mem_erase.mpr ⟨he, hin⟩)
      have hcard := (Finset.card_le_card hsub).trans (Finset.card_insert_le _ _)
      change s.rest * _ + _ ≤ s.rest * _ + s.restless.card + 1
      omega

def ThrPoolEvent.isSpurious : ThrPoolEvent n m → Bool
  | .spurious _ => true
  | .go _ => false

/-- A run from `s` is longer than the spurious wakeups in it explain by at most the rank. -/
theorem thrPool_steps_length_le (hn : 1 ≤ n) {es : List (ThrPoolEvent n m)}
    (h : (thrPool n m).Reachable s) (hs : (thrPool n m).Steps s es s') :
    es.length ≤ s.rank + 2 * es.countP ThrPoolEvent.isSpurious := by
  have hrank : ∀ (s : ThrPool n m) e s', (thrPool n m).Reachable s → ThrPoolStep s e s' →
      if e.isSpurious then s'.rank ≤ s.rank + 1 else s'.rank + 1 ≤ s.rank := by
    intro s e s' _ hstep
    cases e with
    | go t => exact hstep.rank_go hn
    | spurious t => exact hstep.rank_spurious
  have hlength := System.Steps.length_le hrank h hs
  omega

end Ctcp
