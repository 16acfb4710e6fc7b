import Ctcp.Verification.ThrPool.Progress

/-! # `thrpool_kill` drains the pool -/

namespace Ctcp

open Function ThrPool

variable {n m : ℕ} {s s' : ThrPool n m} {e : ThrPoolEvent n m} {t : PoolThread n m} {w : Fin n}

/-! ## Joined workers -/

theorem ThrPoolStep.exited (hstep : ThrPoolStep s e s') (h : s.workers w = .exited) :
    s'.workers w = .exited := by
  have hkeep : ∀ (w' : Fin n) (d : DoWorker), s.workers w' ≠ .exited →
      update s.workers w' d w = .exited := by
    intro w' d hne
    rw [update_of_ne, h]
    rintro rfl
    exact hne h
  cases hstep with
  | take hat hawake hq hsignal => exact hkeep _ _ (by simp [hat])
  | die hat hawake hq hsignal => exact hkeep _ _ (by simp [hat])
  | run hat => exact hkeep _ _ (by simp [hat])
  | free hat => exact hkeep _ _ (by simp [hat])
  | add hcall hawake hq hsignal => exact h
  | kill hat hcallers => exact h
  | addNull hat hawake hq hsignal => exact h
  | allAdded hat => exact h
  | join hat hexited => exact h
  | allJoined hat => exact h
  | waitPush hpush hawake hfull hsignal => exact h
  | waitPop hpop hawake hempty hsignal => exact h
  | spurious hasleep => exact h

structure ThrPool.JoinInv (s : ThrPool n m) : Prop where
  joining : ∀ i, s.kill = .joining i → i ≤ n ∧ ∀ w : Fin n, w < i → s.workers w = .exited
  returned : s.kill = .returned → ∀ w, s.workers w = .exited

theorem joinInv_init (callers : Fin m → List Priority) :
    (thrpoolInit callers : ThrPool n m).JoinInv := by
  constructor <;> simp [thrpoolInit]

theorem ThrPool.JoinInv.frame (h : s.JoinInv) (hstep : ThrPoolStep s e s')
    (hkill : s'.kill = s.kill) : s'.JoinInv := by
  constructor
  case joining =>
    intro i hi
    obtain ⟨hle, hexited⟩ := h.joining i (hkill ▸ hi)
    exact ⟨hle, fun w hw => hstep.exited (hexited w hw)⟩
  case returned => exact fun hr w => hstep.exited (h.returned (hkill ▸ hr) w)

theorem ThrPoolStep.joinInv (hstep : ThrPoolStep s e s') (h : s.JoinInv) : s'.JoinInv := by
  have hframe := h.frame hstep
  cases hstep with
  | kill hat hcallers => constructor <;> simp
  | addNull hat hawake hq hsignal => constructor <;> simp
  | allAdded hat =>
      constructor
      case joining =>
        intro i hi
        obtain rfl : 0 = i := by simpa using hi
        exact ⟨Nat.zero_le n, fun w hw => absurd hw (Nat.not_lt_zero _)⟩
      case returned => simp
  | @join w hat hexited =>
      obtain ⟨hle, hbefore⟩ := h.joining w hat
      constructor
      case joining =>
        intro i hi
        obtain rfl : (w : ℕ) + 1 = i := by simpa using hi
        refine ⟨w.isLt, fun w' hw' => ?_⟩
        rcases Nat.lt_or_eq_of_le (Nat.le_of_lt_succ hw') with hlt | heq
        · exact hbefore w' hlt
        · rwa [Fin.ext heq]
      case returned => simp
  | allJoined hat =>
      constructor
      case joining => simp
      case returned => exact fun _ w => (h.joining n hat).2 w w.isLt
  | add hcall hawake hq hsignal => exact hframe rfl
  | take hat hawake hq hsignal => exact hframe rfl
  | die hat hawake hq hsignal => exact hframe rfl
  | run hat => exact hframe rfl
  | free hat => exact hframe rfl
  | waitPush hpush hawake hfull hsignal => exact hframe rfl
  | waitPop hpop hawake hempty hsignal => exact hframe rfl
  | spurious hasleep => exact hframe rfl

/-! ## All invariants -/

structure ThrPoolInv (s : ThrPool n m) : Prop where
  order : s.OrderInv
  work : WorkInv s.workers s.taken s.log
  sleep : s.SleepInv
  join : s.JoinInv

theorem thrPoolInv_of_reachable (h : (thrPool n m).Reachable s) : ThrPoolInv s := by
  apply h.invariant
  · rintro s ⟨callers, rfl⟩
    exact ⟨orderInv_init callers, workInv_init, sleepInv_init callers, joinInv_init callers⟩
  · intro s e s' hs hstep
    exact ⟨hstep.orderInv hs.order, hstep.workInv hs.order hs.work, hstep.sleepInv hs.sleep,
      hstep.joinInv hs.join⟩

/-! ## Jobs without a function -/

theorem count_snd (taken : List (Fin n × Job)) (j : Job) :
    (taken.map Prod.snd).count j = ∑ w, taken.count (w, j) := by
  induction taken with
  | nil => simp
  | cons a taken ih =>
      obtain ⟨w, j'⟩ := a
      by_cases hj : j' = j
      · subst hj
        simp [List.count_cons, ih, Finset.sum_add_distrib]
      · simp [ih, hj]

namespace ThrPoolInv

/-- As many workers have ended as jobs without a function were taken. -/
theorem count_taken (h : ThrPoolInv s) :
    (s.taken.map Prod.snd).count .null = (Finset.univ.filter (s.workers · = .exited)).card := by
  rw [count_snd, Finset.card_filter]
  exact Finset.sum_congr rfl fun w _ => h.work.exited w

theorem count_line (h : ThrPoolInv s) : s.line.count .null = s.nulls := by
  obtain ⟨ks, hks, -, -⟩ := h.order.split
  rw [hks, List.count_append, List.count_replicate_self, Nat.add_eq_right]
  apply List.count_eq_zero_of_not_mem
  simp

theorem nulls_le (s : ThrPool n m) : s.nulls ≤ n := by
  unfold nulls
  cases hkill : s.kill with
  | before => simp
  | adding left => simp
  | joining i => simp
  | returned => simp

/-- When all workers have ended, nothing is left to be added. -/
theorem nulls_of_exited (h : ThrPoolInv s) (hexited : ∀ w, s.workers w = .exited) :
    s.nulls = n := by
  have htaken := h.count_taken
  have hline := h.count_line
  have hle := nulls_le s
  simp only [hexited, Finset.filter_true, Finset.card_univ, Fintype.card_fin] at htaken
  rw [line, List.count_append] at hline
  omega

/-- A worker that has not ended will find a job. -/
theorem jobQ_ne_nil (h : ThrPoolInv s) (hnulls : s.nulls = n) (hw : s.workers w ≠ .exited) :
    s.jobQ ≠ [] := by
  intro hempty
  have htaken := h.count_taken
  have hline := h.count_line
  have hlt : (Finset.univ.filter (s.workers · = .exited)).card < n := by
    have hcard : (Finset.univ.filter (s.workers · = .exited)).card <
        (Finset.univ : Finset (Fin n)).card :=
      Finset.card_lt_card (Finset.filter_ssubset.mpr ⟨w, Finset.mem_univ w, hw⟩)
    rwa [Finset.card_univ, Fintype.card_fin] at hcard
  rw [line, hempty, List.append_nil] at hline
  omega

end ThrPoolInv

/-! ## Some thread can go on -/

/-- A signal may wake all that wait. -/
theorem exists_signals (waits : PoolThread n m → Prop) (asleep : Finset (PoolThread n m)) :
    ∃ asleep', Signals waits asleep asleep' := by
  classical
  refine ⟨asleep.filter (¬waits ·), Finset.filter_subset _ _, ?_, ?_⟩
  · exact fun t ht hnot => Finset.mem_filter.mpr ⟨ht, hnot⟩
  · rintro ⟨t, ht, hwaits⟩
    exact ⟨t, ht, hwaits, fun hin => (Finset.mem_filter.mp hin).2 hwaits⟩

theorem exists_signalsBoth (s : ThrPool n m) : ∃ asleep, s.SignalsBoth asleep := by
  obtain ⟨asleep₁, hpop⟩ := exists_signals s.Pops s.asleep
  obtain ⟨asleep', hpush⟩ := exists_signals s.Pushes asleep₁
  exact ⟨asleep', asleep₁, hpop, hpush⟩

/-- A thread that is awake in a push completes it or goes to sleep. -/
theorem ThrPool.exists_step_push (hlength : s.jobQ.length ≤ 2 * n) (hpush : s.Pushes t)
    (hawake : t ∉ s.asleep) : ∃ s', ThrPoolStep s (.go t) s' := by
  obtain ⟨asleep, hsignal⟩ := exists_signalsBoth s
  rcases Nat.lt_or_eq_of_le hlength with hroom | hfull
  · cases t with
    | worker w => exact hpush.elim
    | caller i =>
        obtain ⟨p, rest, hcall⟩ := List.exists_cons_of_ne_nil hpush
        cases p with
        | low => exact ⟨_, .add hcall hawake (jobQueue_low.mpr ⟨hroom, rfl, rfl⟩) hsignal⟩
        | high => exact ⟨_, .add hcall hawake (jobQueue_high.mpr ⟨hroom, rfl, rfl⟩) hsignal⟩
    | killer =>
        obtain ⟨left, hat⟩ := hpush
        exact ⟨_, .addNull hat hawake (jobQueue_low.mpr ⟨hroom, rfl, rfl⟩) hsignal⟩
  · obtain ⟨asleep', hpop⟩ := exists_signals s.Pops s.asleep
    exact ⟨_, .waitPush hpush hawake hfull hpop⟩

theorem ThrPool.exists_step_pop (hpop : s.Pops t) (hawake : t ∉ s.asleep) :
    ∃ s', ThrPoolStep s (.go t) s' := by
  obtain ⟨asleep, hsignal⟩ := exists_signalsBoth s
  cases hq : s.jobQ with
  | nil =>
      obtain ⟨asleep', hpush⟩ := exists_signals s.Pushes s.asleep
      exact ⟨_, .waitPop hpop hawake hq hpush⟩
  | cons j q =>
      cases t with
      | worker w =>
          cases j with
          | real k => exact ⟨_, .take hpop hawake (jobQueue_pop.mpr hq) hsignal⟩
          | null => exact ⟨_, .die hpop hawake (jobQueue_pop.mpr hq) hsignal⟩
      | caller i => exact hpop.elim
      | killer => exact hpop.elim

/-- Until `thrpool_kill` has returned, some thread can take a step without a spurious wakeup. -/
theorem ThrPoolInv.exists_step (h : ThrPoolInv s) (hn : 1 ≤ n) (hkill : s.kill ≠ .returned) :
    ∃ t s', ThrPoolStep s (.go t) s' := by
  by_contra hstuck
  have hpushes : ∀ t, s.Pushes t → t ∈ s.asleep := by
    intro t ht
    by_contra hawake
    exact hstuck ⟨t, exists_step_push h.order.length_le ht hawake⟩
  have hpops : ∀ t, s.Pops t → t ∈ s.asleep := by
    intro t ht
    by_contra hawake
    exact hstuck ⟨t, exists_step_pop ht hawake⟩
  have hworkers : ∀ w, s.workers w = .taking ∨ s.workers w = .exited := by
    intro w
    cases hat : s.workers w with
    | taking => exact .inl rfl
    | exited => exact .inr rfl
    | running k => exact absurd ⟨_, _, .run hat⟩ hstuck
    | freeing k => exact absurd ⟨_, _, .free hat⟩ hstuck
  -- a worker that sleeps in `takeJob` sleeps on an empty queue
  have hempty : ∀ w, s.workers w ≠ .exited → s.jobQ = [] := by
    intro w hw
    by_contra hne
    have htaking : s.Pops (.worker w) := (hworkers w).resolve_right hw
    obtain ⟨t, ht, hawake⟩ := h.sleep.pop hne ⟨_, hpops _ htaking, htaking⟩
    exact hawake (hpops t ht)
  by_cases hadds : ∃ t, s.Pushes t
  · obtain ⟨t, ht⟩ := hadds
    have hfull : 2 * n ≤ s.jobQ.length := by
      by_contra hroom
      obtain ⟨t₁, ht₁, hawake⟩ := h.sleep.push (by omega) ⟨t, hpushes t ht, ht⟩
      exact hawake (hpushes t₁ ht₁)
    have hexited : ∀ w, s.workers w = .exited := by
      intro w
      by_contra hw
      rw [hempty w hw, List.length_nil] at hfull
      omega
    have hnulls := h.nulls_of_exited hexited
    cases t with
    | worker w => exact ht
    | caller i =>
        have hbefore : s.kill = .before := by
          by_contra hne
          exact ht (h.order.ending hne i)
        simp only [nulls, hbefore] at hnulls
        omega
    | killer =>
        obtain ⟨left, hat⟩ := ht
        have hle := h.order.adding_le _ hat
        simp only [nulls, hat] at hnulls
        omega
  · have hcallers : ∀ i, s.callers i = [] := by
      intro i
      by_contra hne
      exact hadds ⟨.caller i, hne⟩
    cases hat : s.kill with
    | before => exact hstuck ⟨_, _, .kill hat hcallers⟩
    | adding left =>
        cases left with
        | zero => exact hstuck ⟨_, _, .allAdded hat⟩
        | succ left => exact hadds ⟨.killer, left, hat⟩
    | joining i =>
        obtain ⟨hle, -⟩ := h.join.joining i hat
        rcases Nat.lt_or_eq_of_le hle with hlt | rfl
        · have hne : s.workers ⟨i, hlt⟩ ≠ .exited := by
            intro hexited
            exact hstuck ⟨_, _, @ThrPoolStep.join _ _ s ⟨i, hlt⟩ hat hexited⟩
          exact h.jobQ_ne_nil (by simp [nulls, hat]) hne (hempty _ hne)
        · exact hstuck ⟨_, _, .allJoined hat⟩
    | returned => exact hkill hat

end Ctcp
