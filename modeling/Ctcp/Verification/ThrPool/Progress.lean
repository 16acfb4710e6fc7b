import Ctcp.Verification.ThrPool.Jobs
import Mathlib.Algebra.BigOperators.Fin
import Mathlib.Data.Fintype.BigOperators

/-! # The pool never gets stuck

No wakeup is lost: as long as a thread could push or pop, one that wants to is awake. -/

namespace Ctcp

open Function ThrPool

variable {n m : ℕ} {s s' : ThrPool n m} {e : ThrPoolEvent n m} {t : PoolThread n m}
  {asleep : Finset (PoolThread n m)}

/-! ## Who sleeps -/

structure ThrPool.SleepInv (s : ThrPool n m) : Prop where
  waits : ∀ t ∈ s.asleep, s.Pushes t ∨ s.Pops t
  push : s.jobQ.length < 2 * n → (∃ t ∈ s.asleep, s.Pushes t) → ∃ t, s.Pushes t ∧ t ∉ s.asleep
  pop : s.jobQ ≠ [] → (∃ t ∈ s.asleep, s.Pops t) → ∃ t, s.Pops t ∧ t ∉ s.asleep

theorem sleepInv_init (callers : Fin m → List Priority) :
    (thrpoolInit callers : ThrPool n m).SleepInv := by
  constructor <;> simp [thrpoolInit]

theorem ThrPool.not_pops_of_pushes (h : s.Pushes t) : ¬s.Pops t := by
  cases t with
  | worker w => exact h.elim
  | caller i => exact id
  | killer => exact id

/-- After a push or a pop of thread `t`, whatever the queue is like, a thread is awake
for each kind of call that some thread sleeps in. -/
theorem ThrPool.SleepInv.signal (h : s.SleepInv) (hawake : t ∉ s.asleep)
    (hsignal : s.SignalsBoth s'.asleep) (hpushes : ∀ t' ≠ t, s'.Pushes t' ↔ s.Pushes t')
    (hpops : ∀ t' ≠ t, s'.Pops t' ↔ s.Pops t') : s'.SleepInv := by
  obtain ⟨asleep₁, hpop, hpush⟩ := hsignal
  have hsub : ∀ t' ∈ s'.asleep, t' ∈ s.asleep := fun t' ht' => hpop.subset (hpush.subset ht')
  have hne : ∀ t' ∈ s.asleep, t' ≠ t := fun t' ht' he => hawake (he ▸ ht')
  constructor
  case waits =>
    intro t' ht'
    have hold := hsub t' ht'
    rw [hpushes t' (hne t' hold), hpops t' (hne t' hold)]
    exact h.waits t' hold
  case push =>
    rintro - ⟨t', ht', hwants⟩
    have hold := hsub t' ht'
    obtain ⟨t₁, ht₁, hwants₁, hwoken⟩ := hpush.wakes
      ⟨t', hpush.subset ht', (hpushes t' (hne t' hold)).mp hwants⟩
    exact ⟨t₁, (hpushes t₁ (hne t₁ (hpop.subset ht₁))).mpr hwants₁, hwoken⟩
  case pop =>
    rintro - ⟨t', ht', hwants⟩
    have hold := hsub t' ht'
    obtain ⟨t₁, ht₁, hwants₁, hwoken⟩ := hpop.wakes
      ⟨t', hold, (hpops t' (hne t' hold)).mp hwants⟩
    exact ⟨t₁, (hpops t₁ (hne t₁ ht₁)).mpr hwants₁, fun hin => hwoken (hpush.subset hin)⟩

/-- A step of a thread that is in no call on the queue. -/
theorem ThrPool.SleepInv.quiet (h : s.SleepInv) (hasleep : s'.asleep = s.asleep)
    (hq : s'.jobQ = s.jobQ) (hout : ¬s.Pushes t ∧ ¬s.Pops t)
    (hpushes : ∀ t' ≠ t, s'.Pushes t' ↔ s.Pushes t')
    (hpops : ∀ t' ≠ t, s'.Pops t' ↔ s.Pops t') : s'.SleepInv := by
  have hawake : t ∉ s.asleep := fun hin => (h.waits t hin).elim hout.1 hout.2
  have hne : ∀ t' ∈ s.asleep, t' ≠ t := fun t' ht' he => hawake (he ▸ ht')
  constructor
  case waits =>
    intro t' ht'
    rw [hasleep] at ht'
    rw [hpushes t' (hne t' ht'), hpops t' (hne t' ht')]
    exact h.waits t' ht'
  case push =>
    rw [hasleep, hq]
    rintro hroom ⟨t', ht', hwants⟩
    obtain ⟨t₁, hwants₁, hin⟩ := h.push hroom ⟨t', ht', (hpushes t' (hne t' ht')).mp hwants⟩
    have hne₁ : t₁ ≠ t := fun he => hout.1 (he ▸ hwants₁)
    exact ⟨t₁, (hpushes t₁ hne₁).mpr hwants₁, hin⟩
  case pop =>
    rw [hasleep, hq]
    rintro hfull ⟨t', ht', hwants⟩
    obtain ⟨t₁, hwants₁, hin⟩ := h.pop hfull ⟨t', ht', (hpops t' (hne t' ht')).mp hwants⟩
    have hne₁ : t₁ ≠ t := fun he => hout.2 (he ▸ hwants₁)
    exact ⟨t₁, (hpops t₁ hne₁).mpr hwants₁, hin⟩

theorem ThrPool.SleepInv.waitPush (h : s.SleepInv) (hpush : s.Pushes t) (hawake : t ∉ s.asleep)
    (hfull : s.jobQ.length = 2 * n) (hsignal : Signals s.Pops s.asleep asleep) :
    ThrPool.SleepInv { s with asleep := insert t asleep } := by
  constructor
  case waits =>
    intro t' ht'
    rcases Finset.mem_insert.mp ht' with rfl | ht'
    · exact .inl hpush
    · exact h.waits t' (hsignal.subset ht')
  case push => exact fun hroom => absurd hfull (Nat.ne_of_lt hroom)
  case pop =>
    rintro - ⟨t', ht', hwants⟩
    have hin : t' ∈ asleep :=
      (Finset.mem_insert.mp ht').resolve_left fun he => not_pops_of_pushes hpush (he ▸ hwants)
    obtain ⟨t₁, ht₁, hwants₁, hwoken⟩ := hsignal.wakes ⟨t', hsignal.subset hin, hwants⟩
    refine ⟨t₁, hwants₁, fun hmem => ?_⟩
    rcases Finset.mem_insert.mp hmem with rfl | hmem
    · exact hawake ht₁
    · exact hwoken hmem

theorem ThrPool.SleepInv.waitPop (h : s.SleepInv) (hpop : s.Pops t) (hawake : t ∉ s.asleep)
    (hempty : s.jobQ = []) (hsignal : Signals s.Pushes s.asleep asleep) :
    ThrPool.SleepInv { s with asleep := insert t asleep } := by
  constructor
  case waits =>
    intro t' ht'
    rcases Finset.mem_insert.mp ht' with rfl | ht'
    · exact .inr hpop
    · exact h.waits t' (hsignal.subset ht')
  case push =>
    rintro - ⟨t', ht', hwants⟩
    have hin : t' ∈ asleep :=
      (Finset.mem_insert.mp ht').resolve_left fun he => not_pops_of_pushes (he ▸ hwants) hpop
    obtain ⟨t₁, ht₁, hwants₁, hwoken⟩ := hsignal.wakes ⟨t', hsignal.subset hin, hwants⟩
    refine ⟨t₁, hwants₁, fun hmem => ?_⟩
    rcases Finset.mem_insert.mp hmem with rfl | hmem
    · exact hawake ht₁
    · exact hwoken hmem
  case pop => exact fun hfull => absurd hempty hfull

/-! ## Which threads are in a call -/

variable {w : Fin n} {i : Fin m}

theorem ThrPool.pushes_update (t' : PoolThread n m) (hne : t' ≠ .caller i) (rest : List Priority) :
    ThrPool.Pushes { s with callers := update s.callers i rest } t' ↔ s.Pushes t' := by
  cases t' with
  | worker w => rfl
  | caller i' =>
      have hi : i' ≠ i := fun he => hne (he ▸ rfl)
      simp [Pushes, update_of_ne hi]
  | killer => rfl

theorem ThrPool.pops_update (t' : PoolThread n m) (hne : t' ≠ .worker w) (d : DoWorker) :
    ThrPool.Pops { s with workers := update s.workers w d } t' ↔ s.Pops t' := by
  cases t' with
  | worker w' =>
      have hw : w' ≠ w := fun he => hne (he ▸ rfl)
      simp [Pops, update_of_ne hw]
  | caller i => rfl
  | killer => rfl

theorem ThrPool.pushes_kill (t' : PoolThread n m) (hne : t' ≠ .killer) (kill : ThrpoolKill) :
    ThrPool.Pushes { s with kill := kill } t' ↔ s.Pushes t' := by
  cases t' with
  | worker w => rfl
  | caller i => rfl
  | killer => exact absurd rfl hne

theorem ThrPoolStep.sleepInv (hstep : ThrPoolStep s e s') (h : s.SleepInv) : s'.SleepInv := by
  cases hstep with
  | add hcall hawake hq hsignal =>
      exact h.signal hawake hsignal (fun t' ht' => pushes_update t' ht' _) fun _ _ => Iff.rfl
  | take hat hawake hq hsignal =>
      exact h.signal hawake hsignal (fun _ _ => Iff.rfl) fun t' ht' => pops_update t' ht' _
  | die hat hawake hq hsignal =>
      exact h.signal hawake hsignal (fun _ _ => Iff.rfl) fun t' ht' => pops_update t' ht' _
  | @run w k hat =>
      exact h.quiet (t := .worker w) rfl rfl ⟨id, by simp [Pops, hat]⟩ (fun _ _ => Iff.rfl)
        fun t' ht' => pops_update t' ht' _
  | @free w k hat =>
      exact h.quiet (t := .worker w) rfl rfl ⟨id, by simp [Pops, hat]⟩ (fun _ _ => Iff.rfl)
        fun t' ht' => pops_update t' ht' _
  | kill hat hcallers =>
      exact h.quiet (t := .killer) rfl rfl ⟨by simp [Pushes, hat], id⟩
        (fun t' ht' => pushes_kill t' ht' _) fun _ _ => Iff.rfl
  | addNull hat hawake hq hsignal =>
      exact h.signal hawake hsignal (fun t' ht' => pushes_kill t' ht' _) fun _ _ => Iff.rfl
  | allAdded hat =>
      exact h.quiet (t := .killer) rfl rfl ⟨by simp [Pushes, hat], id⟩
        (fun t' ht' => pushes_kill t' ht' _) fun _ _ => Iff.rfl
  | join hat hexited =>
      exact h.quiet (t := .killer) rfl rfl ⟨by simp [Pushes, hat], id⟩
        (fun t' ht' => pushes_kill t' ht' _) fun _ _ => Iff.rfl
  | allJoined hat =>
      exact h.quiet (t := .killer) rfl rfl ⟨by simp [Pushes, hat], id⟩
        (fun t' ht' => pushes_kill t' ht' _) fun _ _ => Iff.rfl
  | waitPush hpush hawake hfull hsignal => exact h.waitPush hpush hawake hfull hsignal
  | waitPop hpop hawake hempty hsignal => exact h.waitPop hpop hawake hempty hsignal
  | spurious hasleep =>
      constructor
      case waits => exact fun t' ht' => h.waits t' (Finset.mem_of_mem_erase ht')
      case push =>
        rintro hroom ⟨t', ht', hwants⟩
        obtain ⟨t₁, hwants₁, hin⟩ := h.push hroom ⟨t', Finset.mem_of_mem_erase ht', hwants⟩
        exact ⟨t₁, hwants₁, fun hmem => hin (Finset.mem_of_mem_erase hmem)⟩
      case pop =>
        rintro hfull ⟨t', ht', hwants⟩
        obtain ⟨t₁, hwants₁, hin⟩ := h.pop hfull ⟨t', Finset.mem_of_mem_erase ht', hwants⟩
        exact ⟨t₁, hwants₁, fun hmem => hin (Finset.mem_of_mem_erase hmem)⟩

end Ctcp
