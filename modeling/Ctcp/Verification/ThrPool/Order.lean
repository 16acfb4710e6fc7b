import Ctcp.Model.ThrPool
import Mathlib.Data.List.Perm.Basic
import Mathlib.Data.List.Range

/-! # The order in which jobs are taken -/

namespace Ctcp

open Function

variable {n m : ℕ} {s s' : ThrPool n m} {e : ThrPoolEvent n m}

namespace ThrPool

/-- The jobs that were taken, and then those that are going to be taken next. -/
def line (s : ThrPool n m) : List Job := s.taken.map Prod.snd ++ s.jobQ

/-- How many jobs without a function were added. -/
def nulls (s : ThrPool n m) : ℕ :=
  match s.kill with
  | .before => 0
  | .adding left => n - left
  | .joining _ | .returned => n

/-- Job `k` was added with low priority. -/
def IsLow (s : ThrPool n m) (k : ℕ) : Prop := (s.added[k]?.map AddedJob.priority) = some .low

instance (s : ThrPool n m) : DecidablePred s.IsLow := fun _ =>
  inferInstanceAs (Decidable (_ = _))

structure OrderInv (s : ThrPool n m) : Prop where
  /-- The real jobs come first, each of them once. -/
  split : ∃ ks : List ℕ, s.line = ks.map Job.real ++ List.replicate s.nulls .null ∧
    ks.Perm (List.range s.added.length) ∧
    ks.filter s.IsLow = (List.range s.added.length).filter s.IsLow
  overtakes : ∀ k a, s.added[k]? = some a → a.priority = .high → ∀ j ∈ a.waiting,
    [.real k, j].Sublist s.line
  waiting : ∀ a ∈ s.added, ∀ j ∈ a.waiting, ∃ k, j = .real k
  ending : s.kill ≠ .before → ∀ i, s.callers i = []
  adding_le : ∀ left, s.kill = .adding left → left ≤ n
  length_le : s.jobQ.length ≤ 2 * n

end ThrPool

open ThrPool

/-! ## Calls on the queue -/

variable {q q' : List Job} {j : Job} {p : Priority} {answer : Option Job}

theorem jobQueue_pop : jobQueue n q .pop = some (some j, q') ↔ q = j :: q' := by
  cases q with
  | nil => simp [jobQueue, boundedDeque]
  | cons a rest => simp [jobQueue, boundedDeque]

theorem jobQueue_low : jobQueue n q (addJob .low j) = some (answer, q') ↔
    q.length < 2 * n ∧ answer = none ∧ q' = q ++ [j] := by
  simp [jobQueue, boundedDeque, addJob, eq_comm]

theorem jobQueue_high : jobQueue n q (addJob .high j) = some (answer, q') ↔
    q.length < 2 * n ∧ answer = none ∧ q' = j :: q := by
  simp [jobQueue, boundedDeque, addJob, eq_comm]

/-! ## Steps -/

theorem orderInv_init (callers : Fin m → List Priority) :
    (thrpoolInit callers : ThrPool n m).OrderInv := by
  constructor
  case split => exact ⟨[], rfl, .refl _, rfl⟩
  case overtakes => simp [thrpoolInit]
  case waiting => simp [thrpoolInit]
  case ending => simp [thrpoolInit]
  case adding_le => simp [thrpoolInit]
  case length_le => simp [thrpoolInit]

/-- A step that changes neither the line nor what was added. -/
theorem ThrPool.OrderInv.frame (h : s.OrderInv) (hline : s'.line = s.line)
    (hnulls : s'.nulls = s.nulls) (hadded : s'.added = s.added)
    (hending : s'.kill ≠ .before → ∀ i, s'.callers i = [])
    (hadding : ∀ left, s'.kill = .adding left → left ≤ n)
    (hlength : s'.jobQ.length ≤ 2 * n) : s'.OrderInv := by
  have hlow : ∀ k, s'.IsLow k ↔ s.IsLow k := by
    intro k
    rw [IsLow, IsLow, hadded]
  constructor
  case split =>
    obtain ⟨ks, hks, hperm, hfilter⟩ := h.split
    refine ⟨ks, by rw [hline, hnulls, hks], by rwa [hadded], ?_⟩
    simpa only [hlow, hadded] using hfilter
  case overtakes =>
    rw [hadded, hline]
    exact h.overtakes
  case waiting =>
    rw [hadded]
    exact h.waiting
  case ending => exact hending
  case adding_le => exact hadding
  case length_le => exact hlength

/-- The job at the head of the queue is taken. -/
theorem ThrPool.line_take {w : Fin n} (hq : s.jobQ = j :: q) :
    (s.taken ++ [(w, j)]).map Prod.snd ++ q = s.line := by
  simp [line, hq]

theorem ThrPool.isLow_of_lt {k : ℕ} {a : AddedJob} (hk : k < s.added.length)
    (hadded : s'.added = s.added ++ [a]) : s'.IsLow k ↔ s.IsLow k := by
  rw [IsLow, IsLow, hadded, List.getElem?_append_left hk]

theorem ThrPool.isLow_last {a : AddedJob} (hadded : s'.added = s.added ++ [a]) :
    s'.IsLow s.added.length ↔ a.priority = .low := by
  rw [IsLow, hadded, List.getElem?_concat_length]
  simp

/-- The filter of the low jobs does not see that the number of jobs has grown. -/
theorem ThrPool.filter_isLow {a : AddedJob} {ks : List ℕ}
    (hks : ∀ k ∈ ks, k < s.added.length) (hadded : s'.added = s.added ++ [a]) :
    ks.filter s'.IsLow = ks.filter s.IsLow := by
  apply List.filter_congr
  intro k hk
  simp only [isLow_of_lt (hks k hk) hadded]

/-- A new job is put into the line: at its end, or in front of those that were waiting. -/
theorem ThrPool.OrderInv.insert {a : AddedJob} {l₁ l₂ : List Job} (h : s.OrderInv)
    (hkill : s.kill = .before) (hkill' : s'.kill = .before) (hadded : s'.added = s.added ++ [a])
    (hline : s.line = l₁ ++ l₂) (hline' : s'.line = l₁ ++ .real s.added.length :: l₂)
    (hlast : a.priority = .low → l₂ = []) (hfirst : a.priority = .high → l₂ = a.waiting)
    (hwaiting : ∀ j ∈ a.waiting, j ∈ s.line) (hlength : s'.jobQ.length ≤ 2 * n) :
    s'.OrderInv := by
  obtain ⟨ks, hks, hperm, hfilter⟩ := h.split
  have hnulls : s.nulls = 0 := by rw [nulls, hkill]
  have hnulls' : s'.nulls = 0 := by rw [nulls, hkill']
  rw [hnulls, List.replicate_zero, List.append_nil] at hks
  have hreal : ∀ j ∈ s.line, ∃ k, j = .real k := by
    intro j hj
    rw [hks] at hj
    obtain ⟨k, -, rfl⟩ := List.mem_map.mp hj
    exact ⟨k, rfl⟩
  rw [hline] at hks
  obtain ⟨ks₁, ks₂, rfl, rfl, rfl⟩ := List.map_eq_append_iff.mp hks.symm
  have hlen : s'.added.length = s.added.length + 1 := by simp [hadded]
  have hlow := isLow_last hadded
  constructor
  case split =>
    refine ⟨ks₁ ++ s.added.length :: ks₂, ?_, ?_, ?_⟩
    · simp [hline', hnulls']
    · rw [hlen, List.range_succ]
      exact (List.perm_middle.trans (hperm.cons _)).trans (List.perm_append_singleton _ _).symm
    · have hlt : ∀ k ∈ ks₁ ++ ks₂, k < s.added.length :=
        fun k hk => List.mem_range.mp (hperm.mem_iff.mp hk)
      have hold := filter_isLow hlt hadded
      have hrange := filter_isLow (fun k hk => List.mem_range.mp hk) hadded
      rw [hfilter, ← hrange, List.filter_append] at hold
      rw [hlen, List.range_succ, List.filter_append, List.filter_append, ← hold]
      cases hp : a.priority with
      | low =>
          have hnil : ks₂ = [] := List.map_eq_nil_iff.mp (hlast hp)
          simp [hnil]
      | high =>
          have hnot : ¬s'.IsLow s.added.length := by simp [hlow, hp]
          simp [hnot]
  case overtakes =>
    intro k b hb hhigh j hj
    rw [hadded] at hb
    rw [hline']
    rcases Nat.lt_or_ge k s.added.length with hk | hk
    · rw [List.getElem?_append_left hk] at hb
      have hsub := h.overtakes k b hb hhigh j hj
      rw [hline] at hsub
      exact hsub.trans ((List.sublist_cons_self _ _).append_left _)
    · obtain ⟨hlast, hget⟩ := List.getElem?_eq_some_iff.mp hb
      have hk' : k = s.added.length := by
        simp only [List.length_append, List.length_singleton] at hlast
        omega
      subst hk'
      rw [List.getElem_concat_length rfl] at hget
      subst hget
      rw [hfirst hhigh]
      exact ((List.singleton_sublist.mpr hj).cons_cons _).trans (List.sublist_append_right _ _)
  case waiting =>
    intro b hb j hj
    rw [hadded] at hb
    rcases List.mem_append.mp hb with hb | hb
    · exact h.waiting b hb j hj
    · obtain rfl := List.mem_singleton.mp hb
      exact hreal j (hwaiting j hj)
  case ending => exact fun hne => absurd hkill' hne
  case adding_le => simp [hkill']
  case length_le => exact hlength

theorem ThrPoolStep.orderInv (hstep : ThrPoolStep s e s') (h : s.OrderInv) : s'.OrderInv := by
  cases hstep with
  | @add i p rest q asleep hcall hawake hq hsignal =>
      have hkill : s.kill = .before := by
        by_contra hne
        simp [h.ending hne i] at hcall
      cases p with
      | low =>
          obtain ⟨hroom, -, rfl⟩ := jobQueue_low.mp hq
          refine h.insert hkill (by exact hkill) rfl (List.append_nil _).symm ?_ (fun _ => rfl)
            (by simp) (fun j hj => List.mem_append_right _ hj) ?_
          · simp [line]
          · simp only [List.length_append, List.length_singleton]
            omega
      | high =>
          obtain ⟨hroom, -, rfl⟩ := jobQueue_high.mp hq
          exact h.insert hkill (by exact hkill) rfl rfl rfl (by simp) (fun _ => rfl)
            (fun j hj => List.mem_append_right _ hj) hroom
  | take hat hawake hq hsignal =>
      have hpop := jobQueue_pop.mp hq
      have hlength := h.length_le
      rw [hpop, List.length_cons] at hlength
      exact h.frame (line_take hpop) rfl rfl h.ending h.adding_le (by dsimp only; omega)
  | die hat hawake hq hsignal =>
      have hpop := jobQueue_pop.mp hq
      have hlength := h.length_le
      rw [hpop, List.length_cons] at hlength
      exact h.frame (line_take hpop) rfl rfl h.ending h.adding_le (by dsimp only; omega)
  | run hat => exact h.frame rfl rfl rfl h.ending h.adding_le h.length_le
  | free hat => exact h.frame rfl rfl rfl h.ending h.adding_le h.length_le
  | kill hat hcallers =>
      refine h.frame rfl ?_ rfl (fun _ => hcallers) ?_ h.length_le
      · simp [nulls, hat]
      · simp
  | @addNull left q asleep hat hawake hq hsignal =>
      obtain ⟨hroom, -, rfl⟩ := jobQueue_low.mp hq
      have hle := h.adding_le _ hat
      obtain ⟨ks, hks, hperm, hfilter⟩ := h.split
      constructor
      case split =>
        refine ⟨ks, ?_, hperm, hfilter⟩
        have hnulls : n - left = s.nulls + 1 := by
          simp only [nulls, hat]
          omega
        change s.taken.map Prod.snd ++ (s.jobQ ++ [.null]) = ks.map Job.real ++
          List.replicate (n - left) .null
        rw [hnulls, List.replicate_succ', ← List.append_assoc, ← List.append_assoc, ← hks, line]
      case overtakes =>
        intro k a ha hhigh j hj
        refine (h.overtakes k a ha hhigh j hj).trans ?_
        exact (List.sublist_append_left _ _).append_left _
      case waiting => exact h.waiting
      case ending => exact fun _ => h.ending (by simp [hat])
      case adding_le =>
        intro left' hleft
        obtain rfl : left = left' := by simpa using hleft
        omega
      case length_le =>
        simp only [List.length_append, List.length_singleton]
        omega
  | allAdded hat =>
      refine h.frame rfl ?_ rfl (fun _ => h.ending (by simp [hat])) (by simp) h.length_le
      simp [nulls, hat]
  | join hat hexited =>
      refine h.frame rfl ?_ rfl (fun _ => h.ending (by simp [hat])) (by simp) h.length_le
      simp [nulls, hat]
  | allJoined hat =>
      refine h.frame rfl ?_ rfl (fun _ => h.ending (by simp [hat])) (by simp) h.length_le
      simp [nulls, hat]
  | waitPush hpush hawake hfull hsignal =>
      exact h.frame rfl rfl rfl h.ending h.adding_le h.length_le
  | waitPop hpop hawake hempty hsignal =>
      exact h.frame rfl rfl rfl h.ending h.adding_le h.length_le
  | spurious hasleep => exact h.frame rfl rfl rfl h.ending h.adding_le h.length_le

end Ctcp
