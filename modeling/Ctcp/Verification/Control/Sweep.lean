import Ctcp.Model.Sweep
import Mathlib.Data.List.Nodup
import Mathlib.Data.Rat.Cast.Order

/-! # Which paths the server's sweep reaches

The stops of the sweep form a walk round the circle of paths, whose steps get longer by one
place each time. What the sweep does is right as long as the walk is. -/

namespace Ctcp

/-- A walk round the circle `l` with as many stops as entries remain. It starts at place `q`,
and stop `i + 1` lies `i + 1` places after stop `i`. An entry that is dead leaves the circle,
and the way to the next stop then begins one place earlier. -/
def tour {α : Type*} (dead : α → Bool) : ℕ → ℕ → ℕ → List α → List α
  | 0, _, _, _ => []
  | rounds + 1, i, q, l =>
    if i < l.length then
      match l[q % l.length]? with
      | none => []
      | some a =>
        if dead a then a :: tour dead rounds (i + 1) (q % l.length + i) (l.eraseIdx (q % l.length))
        else a :: tour dead rounds (i + 1) (q % l.length + i + 1) l
    else []

section Tour

variable {α : Type*} {dead : α → Bool} {rounds i q : ℕ} {l : List α} {a : α}

theorem tour_done (hi : l.length ≤ i) : tour dead rounds i q l = [] := by
  cases rounds with
  | zero => rfl
  | succ rounds => rw [tour, if_neg (Nat.not_lt.mpr hi)]

theorem tour_succ (hi : i < l.length) (ha : l[q % l.length]? = some a) :
    tour dead (rounds + 1) i q l = a :: if dead a then
        tour dead rounds (i + 1) (q % l.length + i) (l.eraseIdx (q % l.length))
      else tour dead rounds (i + 1) (q % l.length + i + 1) l := by
  simp only [tour, if_pos hi, ha]
  split <;> rfl

end Tour

/-- The path is overdue even with twice its timer. -/
def TimedPath.OverdueTwice (rcvt : ℚ) (p : TimedPath) : Prop :=
  2 * p.rto < rcvt - p.lastAckTime

instance (rcvt : ℚ) (p : TimedPath) : Decidable (p.OverdueTwice rcvt) :=
  inferInstanceAs (Decidable (_ < _))

namespace SrvPaths

/-- The path is overdue and has been idle for too long. -/
def dead (rcvt : ℚ) (sk : SrvPaths) (a : ℕ) : Bool :=
  (sk.path a).Overdue rcvt && sk.maxidle < (sk.path a).idle

/-- The stops of a sweep in which no path times out twice. -/
def stops (rcvt : ℚ) (sk : SrvPaths) (pathIndex : ℤ) : List ℕ :=
  tour (sk.dead rcvt) sk.numActive 0 pathIndex.toNat sk.activePaths

end SrvPaths

/-- The sweep reads `active_paths` inside its entries only, it calls `timeout` once for each
path that is overdue, and it removes those that are dead. -/
def SweepCorrect (rcvt : ℚ) (sk : SrvPaths) (pathIndex : ℤ) : Prop :=
  ∃ s, sweep rcvt sk pathIndex = some s ∧
    (∀ a, s.timedOut.count a =
      if a ∈ sk.activePaths ∧ (sk.path a).Overdue rcvt then 1 else 0) ∧
    s.sk.activePaths = sk.activePaths.filter fun a => !sk.dead rcvt a

/-! ## One round -/

section Round

variable {rcvt : ℚ} {sk : SrvPaths} {visited : List ℕ} {i q a : ℕ} {s : Sweep}

/-- The sweep after stops at `visited`, none of which was a second timeout. -/
structure SweepInv (rcvt : ℚ) (sk : SrvPaths) (visited : List ℕ) (i q : ℕ) (s : Sweep) :
    Prop where
  position : (s.pathIndex + i).tmod s.sk.numActive = (q % s.sk.numActive : ℕ)
  active : s.sk.activePaths =
    sk.activePaths.filter fun a => !(sk.dead rcvt a && decide (a ∈ visited))
  maxidle : s.sk.maxidle = sk.maxidle
  path : ∀ a, s.sk.path a =
    if a ∈ visited ∧ (sk.path a).Overdue rcvt ∧ sk.dead rcvt a = false then
      { sk.path a with idle := (sk.path a).idle + 1, rto := 2 * (sk.path a).rto }
    else sk.path a
  timedOut : ∀ a, s.timedOut.count a =
    if a ∈ visited ∧ (sk.path a).Overdue rcvt then 1 else 0
  visited : ∀ a ∈ visited, a ∈ sk.activePaths

theorem sweepRound_eq (hi : i < s.sk.numActive)
    (hposition : (s.pathIndex + i).tmod s.sk.numActive = (q % s.sk.numActive : ℕ))
    (ha : s.sk.activePaths[q % s.sk.numActive]? = some a) :
    sweepRound rcvt s i = some (if (s.sk.path a).Overdue rcvt then
      if s.sk.maxidle < (s.sk.path a).idle then
        { sk := s.sk.removePath (q % s.sk.numActive)
          pathIndex := (q % s.sk.numActive : ℕ) - 1
          timedOut := s.timedOut ++ [a] }
      else
        { sk := (timeout s.sk a).2
          pathIndex := (q % s.sk.numActive : ℕ)
          timedOut := s.timedOut ++ [a] }
      else { s with pathIndex := (q % s.sk.numActive : ℕ) }) := by
  have hentry : s.sk.entry (q % s.sk.numActive : ℕ) = some a := by
    rw [SrvPaths.entry, if_pos (Int.natCast_nonneg _), Int.toNat_natCast, ha]
  simp only [sweepRound, if_pos hi, hposition, hentry, Option.map_some, Int.toNat_natCast]
  congr 1
  split
  · simp only [timeout]
    split <;> rfl
  · rfl

namespace SweepInv

/-- A path that is still there was not dead when it was visited. -/
theorem mem_of_getElem? (h : SweepInv rcvt sk visited i q s) {k : ℕ}
    (ha : s.sk.activePaths[k]? = some a) :
    a ∈ sk.activePaths ∧ (sk.dead rcvt a = true → a ∉ visited) := by
  have hmem := List.mem_of_getElem? ha
  rw [h.active, List.mem_filter] at hmem
  exact ⟨hmem.1, fun hdead hvisited => by simp [hdead, hvisited] at hmem⟩

theorem path_of_notMem (h : SweepInv rcvt sk visited i q s) (ha : a ∉ visited) :
    s.sk.path a = sk.path a := by
  rw [h.path, if_neg fun hvisited => ha hvisited.1]

theorem overdue_iff (h : SweepInv rcvt sk visited i q s) (ha : a ∈ visited)
    (hover : (sk.path a).Overdue rcvt) (hdead : sk.dead rcvt a = false) :
    (s.sk.path a).Overdue rcvt ↔ (sk.path a).OverdueTwice rcvt := by
  rw [h.path, if_pos ⟨ha, hover, hdead⟩]
  rfl

theorem visited_append (h : SweepInv rcvt sk visited i q s) (ha : a ∈ sk.activePaths) :
    ∀ b ∈ visited ++ [a], b ∈ sk.activePaths := by
  intro b hb
  rcases List.mem_append.mp hb with hb | hb
  · exact h.visited b hb
  · rwa [List.mem_singleton.mp hb]

/-- The next stop is a path that is not overdue, or not any more. -/
theorem pass (h : SweepInv rcvt sk visited i q s) {k : ℕ} (ha : s.sk.activePaths[k]? = some a)
    (hover : ¬(s.sk.path a).Overdue rcvt) :
    SweepInv rcvt sk (visited ++ [a]) (i + 1) (k + i + 1) { s with pathIndex := k } := by
  obtain ⟨hmem, hdead⟩ := h.mem_of_getElem? ha
  have hnew : a ∈ visited ∨ ¬(sk.path a).Overdue rcvt := by
    refine or_iff_not_imp_left.mpr fun hnot => ?_
    rwa [← h.path_of_notMem hnot]
  have hiff (b : ℕ) : b ∈ visited ++ [a] ∧ (sk.path b).Overdue rcvt ↔
      b ∈ visited ∧ (sk.path b).Overdue rcvt := by
    rw [List.mem_append, List.mem_singleton]
    constructor
    · rintro ⟨hb | rfl, hlate⟩
      · exact ⟨hb, hlate⟩
      · exact ⟨hnew.resolve_right (not_not_intro hlate), hlate⟩
    · exact fun hb => ⟨.inl hb.1, hb.2⟩
  constructor
  · rfl
  · rw [h.active]
    refine List.filter_congr fun b _ => ?_
    have hb := hiff b
    by_cases hover : (sk.path b).Overdue rcvt
    · rw [and_iff_left hover, and_iff_left hover] at hb
      simp only [hb]
    · simp [SrvPaths.dead, hover]
  · exact h.maxidle
  · intro b
    have hb := hiff b
    simp only [← and_assoc, hb]
    rw [h.path]
    simp only [and_assoc]
  · intro b
    simp only [hiff b]
    exact h.timedOut b
  · exact h.visited_append hmem

theorem count_timedOut (h : SweepInv rcvt sk visited i q s) (ha : a ∉ visited)
    (hover : (sk.path a).Overdue rcvt) (b : ℕ) : (s.timedOut ++ [a]).count b =
      if b ∈ visited ++ [a] ∧ (sk.path b).Overdue rcvt then 1 else 0 := by
  rw [List.count_append, h.timedOut, List.count_singleton]
  by_cases hb : b = a
  · subst hb
    simp [ha, hover]
  · have hne : ¬a = b := fun hab => hb hab.symm
    simp [hb, hne]

/-- The next stop is a path that times out. -/
theorem timeout (h : SweepInv rcvt sk visited i q s) {k : ℕ}
    (ha : s.sk.activePaths[k]? = some a) (hnew : a ∉ visited)
    (hover : (sk.path a).Overdue rcvt) (halive : sk.dead rcvt a = false) :
    SweepInv rcvt sk (visited ++ [a]) (i + 1) (k + i + 1)
      { sk := (Ctcp.timeout s.sk a).2, pathIndex := k, timedOut := s.timedOut ++ [a] } := by
  have hidle : ¬s.sk.maxidle < (s.sk.path a).idle := by
    rw [h.maxidle, h.path_of_notMem hnew]
    simpa [SrvPaths.dead, hover] using halive
  simp only [Ctcp.timeout, if_neg hidle]
  constructor
  · rfl
  · rw [h.active]
    refine List.filter_congr fun b _ => ?_
    by_cases hb : b = a
    · subst hb
      simp [halive]
    · simp [hb]
  · exact h.maxidle
  · intro b
    by_cases hb : b = a
    · subst hb
      simp [h.path_of_notMem hnew, hover, halive]
    · simp [h.path, hb]
  · exact h.count_timedOut hnew hover
  · exact h.visited_append (h.mem_of_getElem? ha).1

/-- The next stop is a path that is dead. -/
theorem remove (h : SweepInv rcvt sk visited i q s) {k : ℕ}
    (ha : s.sk.activePaths[k]? = some a) (hdead : sk.dead rcvt a = true) :
    SweepInv rcvt sk (visited ++ [a]) (i + 1) (k + i)
      { sk := s.sk.removePath k, pathIndex := k - 1, timedOut := s.timedOut ++ [a] } := by
  obtain ⟨hmem, hnew⟩ := h.mem_of_getElem? ha
  have hover : (sk.path a).Overdue rcvt := by
    simp only [SrvPaths.dead, Bool.and_eq_true, decide_eq_true_eq] at hdead
    exact hdead.1
  constructor
  · have hsum : (k : ℤ) - 1 + (i + 1 : ℕ) = (k + i : ℕ) := by omega
    exact congrArg (Int.tmod · _) hsum
  · obtain ⟨hk, hget⟩ := List.getElem?_eq_some_iff.mp ha
    have herase : s.sk.activePaths.eraseIdx k = s.sk.activePaths.filter (· != a) := by
      rw [← s.sk.nodup.erase_eq_filter, ← hget, s.sk.nodup.erase_getElem]
    refine herase.trans ?_
    rw [h.active, List.filter_filter]
    refine List.filter_congr fun b _ => ?_
    by_cases hb : b = a
    · subst hb
      simp [hdead]
    · simp [hb]
  · exact h.maxidle
  · intro b
    by_cases hb : b = a
    · subst hb
      simp [SrvPaths.removePath, h.path_of_notMem (hnew hdead), hdead]
    · simp [SrvPaths.removePath, h.path, hb]
  · exact h.count_timedOut (hnew hdead) hover
  · exact h.visited_append hmem

end SweepInv

end Round

/-! ## The whole sweep -/

/-- `timeout` was called twice for one path. -/
def Sweep.Twice (s : Sweep) : Prop := ∃ a, 2 ≤ s.timedOut.count a

theorem sweepRound_twice {rcvt : ℚ} {i : ℕ} {s s' : Sweep} (h : sweepRound rcvt s i = some s')
    (htwice : s.Twice) : s'.Twice := by
  obtain ⟨b, hb⟩ := htwice
  refine ⟨b, hb.trans ?_⟩
  rw [sweepRound] at h
  split at h
  · obtain ⟨a, -, rfl⟩ := Option.map_eq_some_iff.mp h
    simp only
    split_ifs
    · exact (List.sublist_append_left _ _).count_le b
    · exact (List.sublist_append_left _ _).count_le b
    · exact le_rfl
  · rw [Option.some.inj h]

theorem sweep_twice {rcvt : ℚ} {is : List ℕ} {s s' : Sweep}
    (h : is.foldlM (sweepRound rcvt) s = some s') (htwice : s.Twice) : s'.Twice := by
  induction is generalizing s with
  | nil => rwa [← Option.some.inj h]
  | cons i is ih =>
      obtain ⟨s₁, h₁, hrest⟩ := Option.bind_eq_some_iff.mp (by simpa using h)
      exact ih hrest (sweepRound_twice h₁ htwice)

/-- No path that is overdue with twice its timer is visited twice. -/
def OnceEach (rcvt : ℚ) (sk : SrvPaths) (visited : List ℕ) : Prop :=
  ∀ a ∈ sk.activePaths, (sk.path a).Overdue rcvt → (sk.path a).OverdueTwice rcvt →
    visited.count a ≤ 1

theorem OnceEach.append {rcvt : ℚ} {sk : SrvPaths} {visited : List ℕ} {a : ℕ}
    (h : OnceEach rcvt sk visited)
    (ha : a ∈ visited → (sk.path a).Overdue rcvt → ¬(sk.path a).OverdueTwice rcvt) :
    OnceEach rcvt sk (visited ++ [a]) := by
  intro b hb hover htwice
  rw [List.count_append, List.count_singleton]
  by_cases hab : a = b
  · subst hab
    rw [List.count_eq_zero_of_not_mem fun hmem => ha hmem hover htwice]
    simp
  · simpa [hab] using h b hb hover htwice

@[simp] theorem timeout_activePaths (sk : SrvPaths) (a : ℕ) :
    (timeout sk a).2.activePaths = sk.activePaths := by
  rw [timeout]
  split <;> rfl

/-- Once `i` has reached the number of paths, nothing happens any more. -/
theorem sweep_done {rcvt : ℚ} {i : ℕ} {s : Sweep} (rounds : ℕ) (hi : s.sk.numActive ≤ i) :
    (List.range' i rounds).foldlM (sweepRound rcvt) s = some s := by
  induction rounds generalizing i with
  | zero => rfl
  | succ rounds ih =>
      have hround : sweepRound rcvt s i = some s := if_neg (Nat.not_lt.mpr hi)
      rw [List.range'_succ, List.foldlM_cons, hround]
      exact ih (Nat.le_succ_of_le hi)

theorem SrvPaths.dead_iff {rcvt : ℚ} {sk : SrvPaths} {a : ℕ} : sk.dead rcvt a = true ↔
    (sk.path a).Overdue rcvt ∧ sk.maxidle < (sk.path a).idle := by
  simp [dead]

/-- One round makes the next stop of the walk, or calls `timeout` again for its path. -/
theorem SweepInv.round {rcvt : ℚ} {sk : SrvPaths} {visited : List ℕ} {i q a : ℕ} {s : Sweep}
    (h : SweepInv rcvt sk visited i q s) (hi : i < s.sk.numActive)
    (ha : s.sk.activePaths[q % s.sk.numActive]? = some a) :
    (∃ s₁ q₁, sweepRound rcvt s i = some s₁ ∧ SweepInv rcvt sk (visited ++ [a]) (i + 1) q₁ s₁ ∧
      s₁.sk.numActive ≤ s.sk.numActive ∧
      (∀ rounds, tour (sk.dead rcvt) (rounds + 1) i q s.sk.activePaths =
        a :: tour (sk.dead rcvt) rounds (i + 1) q₁ s₁.sk.activePaths) ∧
      (a ∈ visited → (sk.path a).Overdue rcvt → ¬(sk.path a).OverdueTwice rcvt)) ∨
    ((∀ s₁, sweepRound rcvt s i = some s₁ → s₁.Twice) ∧ a ∈ visited ∧
      (sk.path a).Overdue rcvt ∧ (sk.path a).OverdueTwice rcvt) := by
  obtain ⟨hmem, hnew⟩ := h.mem_of_getElem? ha
  rw [sweepRound_eq hi h.position ha]
  by_cases hnow : (s.sk.path a).Overdue rcvt
  · rw [if_pos hnow]
    by_cases hvisited : a ∈ visited
    · have halive : sk.dead rcvt a = false :=
        Bool.eq_false_iff.mpr fun hdead => hnew hdead hvisited
      have hover : (sk.path a).Overdue rcvt := by
        by_contra hover
        have hpath := h.path a
        rw [if_neg fun hlate => hover hlate.2.1] at hpath
        exact hover (hpath ▸ hnow)
      refine .inr ⟨fun s₁ hs₁ => ⟨a, ?_⟩, hvisited, hover,
        (h.overdue_iff hvisited hover halive).mp hnow⟩
      have hcount : (s.timedOut ++ [a]).count a = 2 := by
        rw [List.count_append, h.timedOut, if_pos ⟨hvisited, hover⟩, List.count_singleton_self]
      cases Option.some.inj hs₁
      split_ifs
      · exact hcount.ge
      · exact hcount.ge
    · refine .inl ?_
      have hover := hnow
      rw [h.path_of_notMem hvisited] at hover ⊢
      rw [h.maxidle]
      by_cases hidle : sk.maxidle < (sk.path a).idle
      · have hdead := SrvPaths.dead_iff.mpr ⟨hover, hidle⟩
        rw [if_pos hidle]
        refine ⟨_, _, rfl, h.remove ha hdead, List.length_eraseIdx_le _ _, fun rounds => ?_,
          fun hmem => absurd hmem hvisited⟩
        rw [tour_succ hi ha, if_pos hdead]
        rfl
      · have halive : sk.dead rcvt a = false :=
          Bool.eq_false_iff.mpr fun hdead => hidle (SrvPaths.dead_iff.mp hdead).2
        rw [if_neg hidle]
        refine ⟨_, _, rfl, h.timeout ha hvisited hover halive, ?_, fun rounds => ?_,
          fun hmem => absurd hmem hvisited⟩
        · simp [SrvPaths.numActive]
        · rw [tour_succ hi ha, if_neg (by rw [halive]; exact Bool.false_ne_true),
            timeout_activePaths]
          rfl
  · have halive : sk.dead rcvt a = false := by
      refine Bool.eq_false_iff.mpr fun hdead => hnow ?_
      rw [h.path_of_notMem (hnew hdead)]
      exact (SrvPaths.dead_iff.mp hdead).1
    rw [if_neg hnow]
    refine .inl ⟨_, _, rfl, h.pass ha hnow, le_rfl, fun rounds => ?_, fun hvisited hover => ?_⟩
    · rw [tour_succ hi ha, if_neg (by rw [halive]; exact Bool.false_ne_true)]
      rfl
    · exact mt (h.overdue_iff hvisited hover halive).mpr hnow

/-- The sweep follows its walk to the end, unless a path times out twice. -/
theorem SweepInv.run {rcvt : ℚ} {sk : SrvPaths} {visited : List ℕ} {i q : ℕ} {s : Sweep}
    (h : SweepInv rcvt sk visited i q s) (rounds : ℕ) (honce : OnceEach rcvt sk visited)
    (hrounds : s.sk.numActive ≤ i + rounds) :
    (∃ s' i' q', (List.range' i rounds).foldlM (sweepRound rcvt) s = some s' ∧
      OnceEach rcvt sk (visited ++ tour (sk.dead rcvt) rounds i q s.sk.activePaths) ∧
      SweepInv rcvt sk (visited ++ tour (sk.dead rcvt) rounds i q s.sk.activePaths) i' q' s') ∨
    ((∀ s', (List.range' i rounds).foldlM (sweepRound rcvt) s = some s' → s'.Twice) ∧
      ¬OnceEach rcvt sk (visited ++ tour (sk.dead rcvt) rounds i q s.sk.activePaths)) := by
  induction rounds generalizing visited i q s with
  | zero => exact .inl ⟨s, i, q, rfl, by simpa [tour] using honce, by simpa [tour] using h⟩
  | succ rounds ih =>
      rcases Nat.lt_or_ge i s.sk.numActive with hi | hi
      · obtain ⟨a, ha⟩ : ∃ a, s.sk.activePaths[q % s.sk.numActive]? = some a :=
          ⟨_, List.getElem?_eq_getElem (Nat.mod_lt q (Nat.zero_lt_of_lt hi))⟩
        rw [List.range'_succ, List.foldlM_cons]
        rcases h.round hi ha with ⟨s₁, q₁, hround, hinv, hle, htour, hlate⟩ | ⟨htwice, hbad⟩
        · rw [hround, htour, ← List.singleton_append, ← List.append_assoc]
          exact ih hinv (honce.append hlate) (by omega)
        · obtain ⟨hvisited, hover, hlate⟩ := hbad
          refine .inr ⟨fun s' hrun => ?_, fun hall => ?_⟩
          · obtain ⟨s₁, hround, hrest⟩ := Option.bind_eq_some_iff.mp hrun
            exact sweep_twice hrest (htwice s₁ hround)
          · have hcount := hall a (h.visited a hvisited) hover hlate
            have hbefore := List.count_pos_iff.mpr hvisited
            rw [List.count_append] at hcount
            have hagain : 0 < (tour (sk.dead rcvt) (rounds + 1) i q s.sk.activePaths).count a := by
              rw [tour_succ hi ha]
              exact List.count_pos_iff.mpr List.mem_cons_self
            omega
      · rw [tour_done hi, List.append_nil]
        exact .inl ⟨s, i, q, sweep_done _ hi, honce, h⟩

/-! ## Where the sweep starts

This is the `path_index` that the last lookup, or the last sweep, has left. -/

section Start

variable {rcvt : ℚ} {sk : SrvPaths} {pathIndex : ℤ}

theorem sweepInv_start (hstart : 0 ≤ pathIndex ∨ (sk.numActive : ℤ) ∣ pathIndex) :
    SweepInv rcvt sk [] 0 pathIndex.toNat
      { sk := sk, pathIndex := pathIndex, timedOut := [] } := by
  constructor
  · rw [Int.ofNat_tmod]
    change (pathIndex + 0).tmod sk.numActive = _
    rw [Int.add_zero]
    rcases lt_or_ge pathIndex 0 with hneg | hnonneg
    · rw [Int.toNat_of_nonpos hneg.le, Int.tmod_eq_zero_of_dvd (hstart.resolve_left hneg.not_ge)]
      rfl
    · rw [Int.toNat_of_nonneg hnonneg]
  · simp
  · rfl
  · simp
  · simp
  · simp

/-- From -1 the first read is that of `active_paths[-1]`, unless there is one path only. -/
theorem sweep_eq_none (hne : sk.activePaths ≠ [])
    (hstart : ¬(0 ≤ pathIndex ∨ (sk.numActive : ℤ) ∣ pathIndex)) :
    sweep rcvt sk pathIndex = none := by
  have hneg : pathIndex.tmod sk.numActive < 0 := by
    obtain ⟨hneg, hdvd⟩ := not_or.mp hstart
    obtain ⟨m, rfl⟩ : ∃ m : ℕ, pathIndex = -m := ⟨pathIndex.natAbs, by omega⟩
    rw [Int.dvd_neg, Int.dvd_iff_tmod_eq_zero] at hdvd
    have hmod := Int.tmod_nonneg (sk.numActive : ℤ) (Int.natCast_nonneg m)
    rw [Int.neg_tmod]
    omega
  have hpos : 0 < sk.numActive := List.length_pos_of_ne_nil hne
  obtain ⟨n, hn⟩ := Nat.exists_eq_succ_of_ne_zero hpos.ne'
  have hround : sweepRound rcvt { sk := sk, pathIndex := pathIndex, timedOut := [] } 0 = none := by
    simp only [sweepRound, if_pos hpos, SrvPaths.entry, Int.natCast_zero, Int.add_zero,
      if_neg (Int.not_le.mpr hneg), Option.map_none]
  rw [sweep, hn, List.range_succ_eq_map, List.foldlM_cons, hround]
  rfl

theorem sweepCorrect_of_inv {i q : ℕ} {visited : List ℕ} {s : Sweep}
    (h : SweepInv rcvt sk visited i q s)
    (hall : ∀ a ∈ sk.activePaths, (sk.path a).Overdue rcvt → a ∈ visited) :
    (∀ a, s.timedOut.count a =
      if a ∈ sk.activePaths ∧ (sk.path a).Overdue rcvt then 1 else 0) ∧
    s.sk.activePaths = sk.activePaths.filter fun a => !sk.dead rcvt a := by
  constructor
  · intro a
    rw [h.timedOut]
    refine if_congr (and_congr_left fun hover => ?_) rfl rfl
    exact ⟨h.visited a, fun hmem => hall a hmem hover⟩
  · rw [h.active]
    refine List.filter_congr fun a ha => ?_
    cases hdead : sk.dead rcvt a with
    | false => rfl
    | true => simp [hall a ha (SrvPaths.dead_iff.mp hdead).1]

/-- The sweep is right exactly when it starts inside `active_paths`, its walk comes to every
path that is overdue, and it comes only once to those that are overdue with twice their
timer. -/
theorem sweepCorrect_iff (hne : sk.activePaths ≠ []) : SweepCorrect rcvt sk pathIndex ↔
    (0 ≤ pathIndex ∨ (sk.numActive : ℤ) ∣ pathIndex) ∧
    ∀ a ∈ sk.activePaths, (sk.path a).Overdue rcvt →
      a ∈ sk.stops rcvt pathIndex ∧
        ((sk.path a).OverdueTwice rcvt → (sk.stops rcvt pathIndex).count a ≤ 1) := by
  by_cases hstart : 0 ≤ pathIndex ∨ (sk.numActive : ℤ) ∣ pathIndex
  · rw [and_iff_right hstart, SweepCorrect, sweep, List.range_eq_range']
    have hbegin : SweepInv rcvt sk [] 0 pathIndex.toNat ⟨sk, pathIndex, []⟩ :=
      sweepInv_start hstart
    rcases hbegin.run sk.numActive (by simp [OnceEach]) (Nat.le_add_left _ _) with
      ⟨s, i, q, hrun, honce, hinv⟩ | ⟨htwice, hbad⟩
    · rw [hrun]
      constructor
      · rintro ⟨_, ⟨⟩, hcount, -⟩ a ha hover
        refine ⟨?_, honce a ha hover⟩
        have hone := hcount a
        rw [if_pos ⟨ha, hover⟩, hinv.timedOut] at hone
        by_contra hnot
        rw [if_neg fun hvisited => hnot hvisited.1] at hone
        exact Nat.zero_ne_one hone
      · exact fun hall => ⟨s, rfl, sweepCorrect_of_inv hinv fun a ha hover => (hall a ha hover).1⟩
    · constructor
      · rintro ⟨s, hrun, hcount, -⟩
        obtain ⟨a, ha⟩ := htwice s hrun
        have hle := hcount a
        split at hle <;> omega
      · exact fun hall => absurd (fun a ha hover => (hall a ha hover).2) hbad
  · rw [SweepCorrect, sweep_eq_none hne hstart]
    simp [hstart]

end Start

/-! ## Two and three paths -/

/-- A server whose paths heard of their client at time 0; path 0 may have been idle. -/
def serverWith (activePaths : List ℕ) (hnodup : activePaths.Nodup) (idle : ℕ) : SrvPaths where
  activePaths := activePaths
  nodup := hnodup
  path a :=
    { cliAddr := a
      pathstate := .established
      lastAckTime := 0
      rto := 3
      idle := if a = 0 then idle else 0 }
  maxidle := 10
  status := .active
  error := .none

theorem sweepCorrect_two : SweepCorrect 7 (serverWith [0, 1] (by decide) 11) 1 :=
  (sweepCorrect_iff (by decide)).mpr (by decide +kernel)

/-- With three paths one of them is left out. A sweep that removes path 0 at its last stop
leaves `path_index` at -1, and the next sweep then reads `active_paths[-1]`. -/
theorem not_sweepCorrect :
    ¬SweepCorrect 4 (serverWith [0, 1, 2] (by decide) 0) 0 ∧
    ∃ s, sweep 4 (serverWith [0, 1, 2] (by decide) 11) 2 = some s ∧ s.pathIndex = -1 ∧
      s.sk.activePaths = [1, 2] ∧ ¬SweepCorrect 8 s.sk s.pathIndex := by
  constructor
  · rintro ⟨s, hs, hcount, -⟩
    have htimedOut : (sweep 4 (serverWith [0, 1, 2] (by decide) 0) 0).map Sweep.timedOut =
        some [0, 1] := by decide +kernel
    rw [hs] at htimedOut
    have hzero := hcount 2
    rw [Option.some.inj htimedOut] at hzero
    exact absurd hzero (by decide +kernel)
  · have hsweep : (sweep 4 (serverWith [0, 1, 2] (by decide) 11) 2).map
        (fun s => (s.pathIndex, s.sk.activePaths)) = some (-1, [1, 2]) := by decide +kernel
    obtain ⟨s, hs, hpair⟩ := Option.map_eq_some_iff.mp hsweep
    obtain ⟨hindex, hactive⟩ := Prod.mk.inj hpair
    refine ⟨s, hs, hindex, hactive, ?_⟩
    have hnum : s.sk.numActive = 2 := congrArg List.length hactive
    rintro ⟨s', hs', -⟩
    rw [sweep_eq_none (by simp [hactive]) (by rw [hindex, hnum]; decide)] at hs'
    cases hs'

end Ctcp
