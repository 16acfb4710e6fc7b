import Ctcp.Verification.ThrPool.Order

/-! # Every job is executed and freed once -/

namespace Ctcp

open Function ThrPool

variable {n m : ℕ} {s s' : ThrPool n m} {e : ThrPoolEvent n m} {k : ℕ} {w w' : Fin n}

/-! ## Jobs of the line -/

/-- A real job is in the line once if it was added, and else not at all. -/
theorem ThrPool.OrderInv.count_real (h : s.OrderInv) (k : ℕ) :
    s.line.count (.real k) = if k < s.added.length then 1 else 0 := by
  obtain ⟨ks, hks, hperm, -⟩ := h.split
  have hinj : Function.Injective Job.real := fun _ _ heq => Job.real.inj heq
  have hnull : (List.replicate s.nulls Job.null).count (.real k) = 0 := by
    simp [List.count_replicate]
  rw [hks, List.count_append, List.count_map_of_injective _ _ hinj, hnull, Nat.add_zero,
    hperm.count_eq]
  split
  case isTrue hlt => exact List.count_eq_one_of_mem List.nodup_range (List.mem_range.mpr hlt)
  case isFalse hge => exact List.count_eq_zero_of_not_mem fun hmem => hge (List.mem_range.mp hmem)

/-- A job at the head of the queue was not taken before. -/
theorem ThrPool.OrderInv.not_taken {q : List Job} (h : s.OrderInv) (hq : s.jobQ = .real k :: q)
    (w : Fin n) : (w, .real k) ∉ s.taken := by
  intro hmem
  have hcount := h.count_real k
  have htaken : 0 < (s.taken.map Prod.snd).count (.real k) :=
    List.count_pos_iff.mpr (List.mem_map_of_mem hmem)
  rw [line, List.count_append, hq, List.count_cons_self] at hcount
  split at hcount <;> omega

theorem ThrPool.OrderInv.lt_of_taken (h : s.OrderInv) (hmem : (w, .real k) ∈ s.taken) :
    k < s.added.length := by
  have hcount := h.count_real k
  have hline : .real k ∈ s.line := List.mem_append_left _ (List.mem_map_of_mem hmem)
  have hpos := List.count_pos_iff.mpr hline
  split at hcount
  case isTrue hlt => exact hlt
  case isFalse => omega

/-! ## What the workers do -/

/-- What was done with job `k`. -/
def about (k : ℕ) (log : List JobEvent) : List JobEvent := log.filter fun e => e.job = k

@[simp] theorem about_nil (k : ℕ) : about k [] = [] := rfl

theorem about_concat (k : ℕ) (log : List JobEvent) (e : JobEvent) :
    about k (log ++ [e]) = if e.job = k then about k log ++ [e] else about k log := by
  by_cases he : e.job = k
  · simp [about, he]
  · simp [about, he]

/-- The worker has job `k` in hand. -/
def DoWorker.Busy (k : ℕ) : DoWorker → Prop
  | .running k' | .freeing k' => k' = k
  | _ => False

theorem DoWorker.Busy.unique {d : DoWorker} {k' : ℕ} (h : d.Busy k) (h' : d.Busy k') : k = k' := by
  cases d with
  | running k₁ => exact h.symm.trans h'
  | freeing k₁ => exact h.symm.trans h'
  | taking => exact h.elim
  | exited => exact h.elim

structure WorkInv (workers : Fin n → DoWorker) (taken : List (Fin n × Job))
    (log : List JobEvent) : Prop where
  busy : ∀ w k, (workers w).Busy k → (w, .real k) ∈ taken
  owner : ∀ w w' k, (w, .real k) ∈ taken → (w', .real k) ∈ taken → w = w'
  running : ∀ w k, workers w = .running k → about k log = []
  freeing : ∀ w k, workers w = .freeing k → about k log = [.run k]
  done : ∀ w k, (w, .real k) ∈ taken → ¬(workers w).Busy k → about k log = [.run k, .free k]
  untaken : ∀ k, (∀ w, (w, .real k) ∉ taken) → about k log = []
  /-- A worker ends with the one job without a function that it takes. -/
  exited : ∀ w, taken.count (w, .null) = if workers w = .exited then 1 else 0

variable {workers : Fin n → DoWorker} {taken : List (Fin n × Job)} {log : List JobEvent}
  {event : JobEvent}

theorem workInv_init : WorkInv (fun _ : Fin n => .taking) [] [] := by
  constructor <;> simp [DoWorker.Busy]

/-- Worker `w` takes a job that nobody has taken. -/
theorem WorkInv.take (h : WorkInv workers taken log) (hat : workers w = .taking)
    (hnew : ∀ w, (w, .real k) ∉ taken) :
    WorkInv (update workers w (.running k)) (taken ++ [(w, .real k)]) log := by
  have hold : ∀ w' k', (w', .real k') ∈ taken → k' ≠ k :=
    fun w' k' hmem he => hnew w' (he ▸ hmem)
  have hmem : ∀ w' k', (w', .real k') ∈ taken ++ [(w, .real k)] ↔
      (w', .real k') ∈ taken ∨ w' = w ∧ k' = k := by simp
  constructor
  case busy =>
    intro w' k' hbusy
    rw [hmem]
    by_cases he : w' = w
    · subst he
      rw [update_self] at hbusy
      exact .inr ⟨rfl, hbusy.symm⟩
    · rw [update_of_ne he] at hbusy
      exact .inl (h.busy w' k' hbusy)
  case owner =>
    intro w₁ w₂ k' h₁ h₂
    rcases (hmem w₁ k').mp h₁ with hold₁ | ⟨hw₁, hk₁⟩
    · rcases (hmem w₂ k').mp h₂ with hold₂ | ⟨-, hk₂⟩
      · exact h.owner w₁ w₂ k' hold₁ hold₂
      · exact absurd hk₂ (hold w₁ k' hold₁)
    · rcases (hmem w₂ k').mp h₂ with hold₂ | ⟨hw₂, -⟩
      · exact absurd hk₁ (hold w₂ k' hold₂)
      · rw [hw₁, hw₂]
  case running =>
    intro w' k' hrun
    rcases party_cases hrun with ⟨-, heq⟩ | ⟨-, hrun⟩
    · obtain rfl := DoWorker.running.inj heq
      exact h.untaken _ hnew
    · exact h.running w' k' hrun
  case freeing =>
    intro w' k' hfree
    rcases party_cases hfree with ⟨-, heq⟩ | ⟨-, hfree⟩
    · cases heq
    · exact h.freeing w' k' hfree
  case done =>
    intro w' k' htaken hbusy
    rcases (hmem w' k').mp htaken with htaken | ⟨rfl, rfl⟩
    · apply h.done w' k' htaken
      by_cases he : w' = w
      · subst he
        simp [hat, DoWorker.Busy]
      · rwa [update_of_ne he] at hbusy
    · simp [DoWorker.Busy] at hbusy
  case untaken =>
    intro k' hnone
    exact h.untaken k' fun w' hw' => hnone w' ((hmem w' k').mpr (.inl hw'))
  case exited =>
    intro w'
    rw [List.count_append, h.exited w']
    by_cases he : w' = w
    · subst he
      simp [hat]
    · simp [update_of_ne he]

/-- Worker `w` takes a job without a function, and ends. -/
theorem WorkInv.die (h : WorkInv workers taken log) (hat : workers w = .taking) :
    WorkInv (update workers w .exited) (taken ++ [(w, .null)]) log := by
  have hmem : ∀ w' k', (w', .real k') ∈ taken ++ [(w, .null)] ↔ (w', .real k') ∈ taken := by simp
  have hbusy : ∀ w' k', (update workers w .exited w').Busy k' ↔ (workers w').Busy k' := by
    intro w' k'
    by_cases he : w' = w
    · subst he
      simp [hat, DoWorker.Busy]
    · rw [update_of_ne he]
  have hother : ∀ w' (d : DoWorker), d ≠ .exited → update workers w .exited w' = d →
      workers w' = d := by
    intro w' d hd heq
    rcases party_cases heq with ⟨-, hexited⟩ | ⟨-, hold⟩
    · exact absurd hexited.symm hd
    · exact hold
  constructor
  case busy => exact fun w' k' hb => (hmem w' k').mpr (h.busy w' k' ((hbusy w' k').mp hb))
  case owner =>
    intro w₁ w₂ k' h₁ h₂
    exact h.owner w₁ w₂ k' ((hmem w₁ k').mp h₁) ((hmem w₂ k').mp h₂)
  case running => exact fun w' k' hrun => h.running w' k' (hother w' _ (by simp) hrun)
  case freeing => exact fun w' k' hfree => h.freeing w' k' (hother w' _ (by simp) hfree)
  case done =>
    intro w' k' htaken hnot
    exact h.done w' k' ((hmem w' k').mp htaken) (by rwa [← hbusy])
  case untaken => exact fun k' hnone => h.untaken k' fun w' hw' => hnone w' ((hmem w' k').mpr hw')
  case exited =>
    intro w'
    rw [List.count_append, h.exited w']
    by_cases he : w' = w
    · subst he
      simp [hat]
    · have hne : ¬w = w' := fun heq => he heq.symm
      simp [update_of_ne he, hne]

/-- Worker `w` does the next thing with job `k`. -/
theorem WorkInv.go (h : WorkInv workers taken log) {d : DoWorker} (hbusy : (workers w).Busy k)
    (hevent : event.job = k) (hd : d ≠ .exited) (hrun : ∀ k', d ≠ .running k')
    (hfree : ∀ k', d = .freeing k' → k' = k ∧ about k log ++ [event] = [.run k])
    (hdone : ¬d.Busy k → about k log ++ [event] = [.run k, .free k]) :
    WorkInv (update workers w d) taken (log ++ [event]) := by
  have htaken := h.busy w k hbusy
  have hother : ∀ w' k', w' ≠ w → (workers w').Busy k' → k' ≠ k := by
    rintro w' k' he hb rfl
    exact he (h.owner w' w k' (h.busy w' k' hb) htaken)
  have habout : ∀ k', k' ≠ k → about k' (log ++ [event]) = about k' log := by
    intro k' hk'
    rw [about_concat, if_neg (fun he => hk' (he.symm.trans hevent))]
  have hself : about k (log ++ [event]) = about k log ++ [event] := by
    rw [about_concat, if_pos hevent]
  have hsub : ∀ w' k', (update workers w d w').Busy k' → (workers w').Busy k' := by
    intro w' k' hb
    by_cases he : w' = w
    · subst he
      rw [update_self] at hb
      cases d with
      | running k₁ => exact absurd rfl (hrun k₁)
      | freeing k₁ =>
          obtain rfl : k₁ = k' := hb
          rw [(hfree k₁ rfl).1]
          exact hbusy
      | taking => exact hb.elim
      | exited => exact hb.elim
    · rwa [update_of_ne he] at hb
  constructor
  case busy => exact fun w' k' hb => h.busy w' k' (hsub w' k' hb)
  case owner => exact h.owner
  case running =>
    intro w' k' hat
    rcases party_cases hat with ⟨-, hat⟩ | ⟨he, hat⟩
    · exact absurd hat (hrun k')
    · have hk' : k' ≠ k := hother w' k' he (by simp [hat, DoWorker.Busy])
      rw [habout k' hk', h.running w' k' hat]
  case freeing =>
    intro w' k' hat
    rcases party_cases hat with ⟨-, hat⟩ | ⟨he, hat⟩
    · obtain ⟨rfl, hlog⟩ := hfree k' hat
      rw [hself, hlog]
    · have hk' : k' ≠ k := hother w' k' he (by simp [hat, DoWorker.Busy])
      rw [habout k' hk', h.freeing w' k' hat]
  case done =>
    intro w' k' hmem hnot
    by_cases hk' : k' = k
    · subst hk'
      obtain rfl := h.owner w' w k' hmem htaken
      rw [update_self] at hnot
      rw [hself, hdone hnot]
    · rw [habout k' hk']
      apply h.done w' k' hmem
      intro hb
      by_cases he : w' = w
      · subst he
        exact hk' (hbusy.unique hb).symm
      · rw [update_of_ne he] at hnot
        exact hnot hb
  case untaken =>
    intro k' hnone
    have hk' : k' ≠ k := by
      rintro rfl
      exact hnone w htaken
    rw [habout k' hk', h.untaken k' hnone]
  case exited =>
    intro w'
    rw [h.exited w']
    by_cases he : w' = w
    · subst he
      have hne : workers w' ≠ .exited := by
        intro hx
        simp [hx, DoWorker.Busy] at hbusy
      simp [hne, hd]
    · rw [update_of_ne he]

theorem ThrPoolStep.workInv (hstep : ThrPoolStep s e s') (horder : s.OrderInv)
    (h : WorkInv s.workers s.taken s.log) : WorkInv s'.workers s'.taken s'.log := by
  cases hstep with
  | take hat hawake hq hsignal => exact h.take hat (horder.not_taken (jobQueue_pop.mp hq))
  | die hat hawake hq hsignal => exact h.die hat
  | @run w k hat =>
      have hlog := h.running w k hat
      apply h.go (k := k) (by simp [hat, DoWorker.Busy]) rfl (by simp) (by simp)
      · intro k' hk'
        exact ⟨(DoWorker.freeing.inj hk').symm, by rw [hlog, List.nil_append]⟩
      · exact fun hnot => absurd rfl hnot
  | @free w k hat =>
      have hlog := h.freeing w k hat
      apply h.go (k := k) (by simp [hat, DoWorker.Busy]) rfl (by simp) (by simp)
      · intro k' hk'
        cases hk'
      · intro _
        rw [hlog, List.singleton_append]
  | add hcall hawake hq hsignal => exact h
  | kill hat hcallers => exact h
  | addNull hat hawake hq hsignal => exact h
  | allAdded hat => exact h
  | join hat hexited => exact h
  | allJoined hat => exact h
  | waitPush hpush hawake hfull hsignal => exact h
  | waitPop hpop hawake hempty hsignal => exact h
  | spurious hasleep => exact h

/-- At any time job `k` was executed and freed at most once, in this order. -/
theorem WorkInv.about_eq (h : WorkInv workers taken log) (k : ℕ) :
    about k log = [] ∨ about k log = [.run k] ∨ about k log = [.run k, .free k] := by
  by_cases htaken : ∃ w, (w, .real k) ∈ taken
  · obtain ⟨w, hw⟩ := htaken
    by_cases hbusy : (workers w).Busy k
    · cases hat : workers w with
      | running k₁ =>
          obtain rfl : k₁ = k := by simpa [hat, DoWorker.Busy] using hbusy
          exact .inl (h.running w _ hat)
      | freeing k₁ =>
          obtain rfl : k₁ = k := by simpa [hat, DoWorker.Busy] using hbusy
          exact .inr (.inl (h.freeing w _ hat))
      | taking => simp [hat, DoWorker.Busy] at hbusy
      | exited => simp [hat, DoWorker.Busy] at hbusy
    · exact .inr (.inr (h.done w k hw hbusy))
  · exact .inl (h.untaken k fun w hw => htaken ⟨w, hw⟩)

end Ctcp
