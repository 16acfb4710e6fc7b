import Ctcp.Verification.ThrPool.Termination

/-! # Every job once, in order, and then the end -/

namespace Ctcp

open Function ThrPool

variable {n m : ℕ} {s s' : ThrPool n m}

/-! ## What was taken -/

namespace ThrPoolInv

/-- The jobs without a function are taken after all real jobs. -/
theorem taken_split (h : ThrPoolInv s) : ∃ (ks : List ℕ) (i : ℕ), s.taken.map Prod.snd =
    ks.map Job.real ++ List.replicate i .null ∧
      (0 < i → ks.Perm (List.range s.added.length)) ∧
      ∃ rest, ks.filter s.IsLow ++ rest = (List.range s.added.length).filter s.IsLow := by
  obtain ⟨ks, hks, hperm, hfilter⟩ := h.order.split
  rcases List.append_eq_append_iff.mp hks with ⟨l, htaken, hrest⟩ | ⟨l, htaken, hrest⟩
  · obtain ⟨ks₁, ks₂, rfl, hks₁, -⟩ := List.map_eq_append_iff.mp htaken
    refine ⟨ks₁, 0, by simp [hks₁], fun hpos => absurd hpos (Nat.lt_irrefl 0), ?_⟩
    exact ⟨_, by rw [← hfilter, List.filter_append]⟩
  · obtain ⟨-, hl, -⟩ := List.append_eq_replicate_iff.mp hrest.symm
    refine ⟨ks, l.length, ?_, fun _ => hperm, [], ?_⟩
    · rw [htaken, ← hl]
    · rw [hfilter, List.append_nil]

/-- A job that was waiting is taken after the job with high priority that overtook it. -/
theorem overtaken (h : ThrPoolInv s) {k : ℕ} {a : AddedJob} (ha : s.added[k]? = some a)
    (hhigh : a.priority = .high) {j : Job} (hj : j ∈ a.waiting)
    (htaken : j ∈ s.taken.map Prod.snd) : [.real k, j].Sublist (s.taken.map Prod.snd) := by
  obtain ⟨k', rfl⟩ := h.order.waiting a (List.mem_of_getElem? ha) j hj
  have hcount := h.order.count_real k'
  have hpos := List.count_pos_iff.mpr htaken
  have hnot : .real k' ∉ s.jobQ := by
    intro hq
    have hqueue := List.count_pos_iff.mpr hq
    rw [line, List.count_append] at hcount
    split at hcount <;> omega
  obtain ⟨l₁, l₂, heq, h₁, h₂⟩ := List.sublist_append_iff.mp (h.order.overtakes k a ha hhigh _ hj)
  have hl₂ : .real k' ∉ l₂ := fun hmem => hnot (h₂.subset hmem)
  cases l₂ with
  | nil =>
      rw [List.append_nil] at heq
      rwa [heq]
  | cons b l =>
      have hlast : (l₁ ++ b :: l).getLast (by simp) = .real k' := by
        simp only [← heq, List.getLast_cons_cons, List.getLast_singleton]
      rw [List.getLast_append_of_ne_nil _ (List.cons_ne_nil b l)] at hlast
      exact absurd (hlast ▸ List.getLast_mem (List.cons_ne_nil b l)) hl₂

theorem empty_of_exited (h : ThrPoolInv s) (hn : 1 ≤ n) (hexited : ∀ w, s.workers w = .exited) :
    s.jobQ = [] := by
  have hnulls := h.nulls_of_exited hexited
  have htaken := h.count_taken
  have hline := h.count_line
  simp only [hexited, Finset.filter_true, Finset.card_univ, Fintype.card_fin] at htaken
  rw [line, List.count_append] at hline
  obtain ⟨ks, hks, -, -⟩ := h.order.split
  by_contra hne
  have hlast : s.jobQ.getLast hne = .null := by
    have hlast' : s.line.getLast (by simp [line, hne]) = .null := by
      have hne' : List.replicate s.nulls Job.null ≠ [] := by
        rw [hnulls]
        simp
        omega
      simp only [hks, List.getLast_append_of_ne_nil _ hne', List.getLast_replicate]
    simpa only [line, List.getLast_append_of_ne_nil _ hne] using hlast'
  have hpos : 0 < s.jobQ.count .null :=
    List.count_pos_iff.mpr (hlast ▸ List.getLast_mem hne)
  omega

end ThrPoolInv

/-! ## Every state of every run -/

/-- What is true of a pool at any time, and when `thrpool_kill` has returned. -/
structure RunsEveryJob (s : ThrPool n m) : Prop where
  /-- A job is executed at most once, and freed at most once after it. -/
  once : ∀ k, about k s.log = [] ∨ about k s.log = [.run k] ∨ about k s.log = [.run k, .free k]
  /-- Only jobs that were added are worked on. -/
  added : ∀ k, about k s.log ≠ [] → k < s.added.length
  high : ∀ k a, s.added[k]? = some a → a.priority = .high → ∀ j ∈ a.waiting,
    j ∈ s.taken.map Prod.snd → [.real k, j].Sublist (s.taken.map Prod.snd)
  /-- The low jobs are taken in the order in which they were added, and the jobs without
  a function after all others. -/
  order : ∃ (ks : List ℕ) (i : ℕ),
    s.taken.map Prod.snd = ks.map Job.real ++ List.replicate i .null ∧
      (0 < i → ks.Perm (List.range s.added.length)) ∧
      ∃ rest, ks.filter s.IsLow ++ rest = (List.range s.added.length).filter s.IsLow
  exits : ∀ w, s.taken.count (w, .null) = if s.workers w = .exited then 1 else 0
  /-- `thrpool_kill` returns when every call of `addJob` is made, every job is finished,
  every worker has ended and the queue is empty. -/
  drained : s.kill = .returned → (∀ i, s.callers i = []) ∧ s.jobQ = [] ∧
    (∀ w, s.workers w = .exited) ∧ ∀ k < s.added.length, about k s.log = [.run k, .free k]
  /-- Until then some thread can go on. -/
  progress : s.kill ≠ .returned → ∃ t s', ThrPoolStep s (.go t) s'
  /-- The run cannot go on for ever, but for spurious wakeups. -/
  ends : ∃ bound, ∀ es s', (thrPool n m).Steps s es s' →
    es.length ≤ bound + 2 * es.countP ThrPoolEvent.isSpurious

theorem ThrPoolInv.drained (h : ThrPoolInv s) (hn : 1 ≤ n) (hkill : s.kill = .returned) :
    (∀ i, s.callers i = []) ∧ s.jobQ = [] ∧ (∀ w, s.workers w = .exited) ∧
      ∀ k < s.added.length, about k s.log = [.run k, .free k] := by
  have hexited := h.join.returned hkill
  have hempty := h.empty_of_exited hn hexited
  refine ⟨h.order.ending (by simp [hkill]), hempty, hexited, fun k hk => ?_⟩
  have hcount := h.order.count_real k
  rw [if_pos hk, line, hempty, List.append_nil] at hcount
  have hmem : .real k ∈ s.taken.map Prod.snd := List.count_pos_iff.mp (by omega)
  obtain ⟨⟨w, j⟩, htaken, rfl⟩ := List.mem_map.mp hmem
  exact h.work.done w k htaken (by simp [hexited, DoWorker.Busy])

/-- Whatever the threads do, every job is executed and freed once, in the order that the
priorities give, and `thrpool_kill` drains the pool. -/
theorem thrPool_runsEveryJob (hn : 1 ≤ n) (h : (thrPool n m).Reachable s) : RunsEveryJob s := by
  have hinv := thrPoolInv_of_reachable h
  constructor
  case once => exact hinv.work.about_eq
  case added =>
    intro k hk
    have htaken : ∃ w, (w, .real k) ∈ s.taken := by
      by_contra hnone
      exact hk (hinv.work.untaken k fun w hw => hnone ⟨w, hw⟩)
    obtain ⟨w, hw⟩ := htaken
    exact hinv.order.lt_of_taken hw
  case high => exact fun k a ha hhigh j hj htaken => hinv.overtaken ha hhigh hj htaken
  case order => exact hinv.taken_split
  case exits => exact hinv.work.exited
  case drained => exact hinv.drained hn
  case progress => exact hinv.exists_step hn
  case ends => exact ⟨s.rank, fun es s' hs => thrPool_steps_length_le hn h hs⟩

theorem signals_empty (waits : PoolThread n m → Prop) : Signals waits ∅ ∅ :=
  ⟨le_rfl, fun _ hmem _ => hmem, fun ⟨_, hmem, _⟩ => absurd hmem (Finset.notMem_empty _)⟩

theorem signalsBoth_empty (hasleep : s.asleep = ∅) : s.SignalsBoth ∅ :=
  ⟨∅, hasleep.symm ▸ signals_empty _, signals_empty _⟩

/-- The only thread that sleeps is woken by a signal that it waits for. -/
theorem signals_single {waits : PoolThread n m → Prop} {t : PoolThread n m} (hwaits : waits t) :
    Signals waits (insert t ∅) ∅ := by
  have hmem : t ∈ (insert t ∅ : Finset (PoolThread n m)) := Finset.mem_insert_self _ _
  refine ⟨Finset.empty_subset _, fun t' ht' hnot => ?_, fun _ => ⟨t, hmem, hwaits, by simp⟩⟩
  obtain rfl : t' = t := by simpa using ht'
  exact absurd hwaits hnot

/-- Worker 0 waits for the first job. The second one has high priority and is taken first;
the third one is added last, and `thrpool_kill` is called while it is still waiting. -/
theorem thrPool_runsEveryJob_threeJobs : ∃ s : ThrPool 2 1, s.kill = .returned ∧
    s.taken.map Prod.snd = [.real 1, .real 0, .real 2, .null, .null] ∧
    about 1 s.log = [.run 1, .free 1] ∧ RunsEveryJob s := by
  have hinit : (thrPool 2 1).Reachable (thrpoolInit fun _ => [.low, .high, .low]) := .init ⟨_, rfl⟩
  have hasleep := hinit.step (.waitPop (t := .worker 0) rfl (by decide) rfl (signals_empty _))
  have hwoken := hasleep.step (.add (i := 0) rfl (by decide) rfl
    ⟨∅, signals_single rfl, signals_empty _⟩)
  have hadded := hwoken.step (.add (i := 0) rfl (by decide) rfl (signalsBoth_empty rfl))
  have htaken := (hadded.step (.take (w := 1) rfl (by decide) rfl (signalsBoth_empty rfl))).step
    (.take (w := 0) rfl (by decide) rfl (signalsBoth_empty rfl))
  have hran := (((htaken.step (.run (w := 1) rfl)).step (.run (w := 0) rfl)).step
    (.free (w := 0) rfl)).step (.free (w := 1) rfl)
  have hlast := hran.step (.add (i := 0) rfl (by decide) rfl (signalsBoth_empty rfl))
  have hkill := (hlast.step (.kill rfl fun i => by rw [Subsingleton.elim i 0]; rfl)).step
    (.addNull rfl (by decide) rfl (signalsBoth_empty rfl))
  have hdrain := ((hkill.step (.take (w := 0) rfl (by decide) rfl (signalsBoth_empty rfl))).step
    (.die (w := 1) rfl (by decide) rfl (signalsBoth_empty rfl))).step (.run (w := 0) rfl)
  have hnulls := ((hdrain.step (.free (w := 0) rfl)).step
    (.addNull rfl (by decide) rfl (signalsBoth_empty rfl))).step (.allAdded rfl)
  have hjoined := ((hnulls.step (.die (w := 0) rfl (by decide) rfl (signalsBoth_empty rfl))).step
    (.join (w := 0) rfl rfl)).step (.join (w := 1) rfl rfl)
  exact ⟨_, rfl, rfl, rfl, thrPool_runsEveryJob (by decide) (hjoined.step (.allJoined rfl))⟩

end Ctcp
