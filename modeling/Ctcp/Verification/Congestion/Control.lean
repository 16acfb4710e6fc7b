import Ctcp.Library.Execution
import Ctcp.Model.Congestion

/-! # What congestion control changes -/

namespace Ctcp

open Function

namespace CongPath

variable {cc : CongControl} {fl : Floats} {p q r : CongPath}

/-! ## What is left as it is -/

/-- Between `p` and `q` nothing is sent or acknowledged, and no RTT is measured; a round
may end. -/
structure SameFlight (p q : CongPath) : Prop where
  onFly : q.onFly = p.onFly
  sndNxt : q.sndNxt = p.sndNxt
  sndUna : q.sndUna = p.sndUna
  srtt : q.srtt = p.srtt
  basertt : q.basertt = p.basertt
  minrtt : q.minrtt = p.minrtt ∨ q.minrtt = unknownRtt

theorem SameFlight.refl (p : CongPath) : SameFlight p p := ⟨rfl, rfl, rfl, rfl, rfl, .inl rfl⟩

theorem SameFlight.trans (h : SameFlight p q) (h' : SameFlight q r) : SameFlight p r where
  onFly := h'.onFly.trans h.onFly
  sndNxt := h'.sndNxt.trans h.sndNxt
  sndUna := h'.sndUna.trans h.sndUna
  srtt := h'.srtt.trans h.srtt
  basertt := h'.basertt.trans h.basertt
  minrtt := h'.minrtt.elim (fun heq => heq ▸ h.minrtt) .inr

theorem constrainCwnd_same (p : CongPath) : SameFlight p p.constrainCwnd := by
  simp only [constrainCwnd]
  split_ifs <;> exact ⟨rfl, rfl, rfl, rfl, rfl, .inl rfl⟩

theorem decreaseCwnd_same (fl : Floats) (p : CongPath) : SameFlight p (p.decreaseCwnd fl) := by
  rw [decreaseCwnd]
  split <;> exact ⟨rfl, rfl, rfl, rfl, rfl, .inl rfl⟩

theorem exitSlowStart_same (p : CongPath) (target : UInt32) :
    SameFlight p (p.exitSlowStart target) := by
  simp only [exitSlowStart]
  split_ifs <;> exact ⟨rfl, rfl, rfl, rfl, rfl, .inl rfl⟩

theorem raiseSsthresh_same (fl : Floats) (p : CongPath) : SameFlight p (p.raiseSsthresh fl) := by
  rw [raiseSsthresh]
  split <;> exact ⟨rfl, rfl, rfl, rfl, rfl, .inl rfl⟩

theorem aimdMove_same (e : QueueEstimate) (p : CongPath) : SameFlight p (p.aimdMove e).1 := by
  rw [aimdMove]
  split_ifs
  · exact exitSlowStart_same _ _
  all_goals exact ⟨rfl, rfl, rfl, rfl, rfl, .inl rfl⟩

theorem backOff_same (fl : Floats) (p : CongPath) : SameFlight p (p.backOff fl) := by
  rw [backOff]
  split
  · exact decreaseCwnd_same fl p
  · exact .refl p

theorem aimdUpdate_same (fl : Floats) (e : QueueEstimate) (p : CongPath) :
    SameFlight p (p.aimdUpdate fl e).1 :=
  (aimdMove_same e p).trans
    ((backOff_same fl _).trans ((constrainCwnd_same _).trans (raiseSsthresh_same fl _)))

theorem vegasMove_same (e : QueueEstimate) (p : CongPath) : SameFlight p (p.vegasMove e).1 := by
  simp only [vegasMove]
  split_ifs
  · exact exitSlowStart_same _ _
  all_goals exact ⟨rfl, rfl, rfl, rfl, rfl, .inl rfl⟩

theorem updateCwnd_same (cc : CongControl) (fl : Floats) (p : CongPath) :
    SameFlight p (p.updateCwnd cc fl).1 := by
  cases cc with
  | aimd => exact aimdUpdate_same fl _ p
  | vegas =>
      simp only [updateCwnd, vegasUpdate]
      split
      · exact ⟨rfl, rfl, rfl, rfl, rfl, .inl rfl⟩
      · exact (vegasMove_same _ p).trans
          ((constrainCwnd_same _).trans (raiseSsthresh_same fl _))
  | unknown => exact .refl p

theorem advanceCwnd_same (cc : CongControl) (fl : Floats) (p : CongPath) :
    SameFlight p (p.advanceCwnd cc fl).1 := by
  simp only [advanceCwnd]
  split_ifs
  · have hupdate := updateCwnd_same cc fl
      { p with begSndNxt := p.sndUna + p.sndCwnd, begSndUna := p.sndUna }
    refine SameFlight.trans ?_ (constrainCwnd_same _)
    exact ⟨hupdate.onFly, hupdate.sndNxt, hupdate.sndUna, hupdate.srtt, hupdate.basertt, .inr rfl⟩
  · refine SameFlight.trans ?_ (constrainCwnd_same _)
    exact ⟨rfl, rfl, rfl, rfl, rfl, .inl rfl⟩
  · exact constrainCwnd_same p

theorem acknowledge_sndUna (p : CongPath) (ackno : UInt32) :
    (p.acknowledge ackno).sndUna = if ackno ≤ p.sndUna then p.sndUna else ackno := by
  by_cases hlate : ackno ≤ p.sndUna
  · simp only [acknowledge, if_pos hlate]
  · simp only [acknowledge, if_neg hlate]

/-- An acknowledgement moves `snd_una` only. -/
theorem acknowledge_same (p : CongPath) (ackno : UInt32) :
    SameFlight p { p.acknowledge ackno with sndUna := p.sndUna } := by
  by_cases hlate : ackno ≤ p.sndUna
  · simp only [acknowledge, if_pos hlate]
    exact ⟨rfl, rfl, rfl, rfl, rfl, .inl rfl⟩
  · simp only [acknowledge, if_neg hlate]
    exact ⟨rfl, rfl, rfl, rfl, rfl, .inl rfl⟩

/-! ## The window -/

/-- The window is within its bounds. -/
def CwndOk (p : CongPath) : Prop := 2 ≤ p.sndCwnd ∧ p.sndCwnd ≤ maxWindow

theorem sndCwnd_constrainCwnd (p : CongPath) : p.constrainCwnd.sndCwnd =
    if maxWindow < p.sndCwnd then maxWindow else if p.sndCwnd < 2 then 2 else p.sndCwnd := by
  by_cases hmax : maxWindow < p.sndCwnd
  · simp only [constrainCwnd, if_pos hmax]
    exact congrArg sndCwnd (if_neg (by decide : ¬maxWindow < 2))
  · simp only [constrainCwnd, if_neg hmax]
    split <;> rfl

theorem constrainCwnd_ok (p : CongPath) : p.constrainCwnd.CwndOk := by
  rw [CwndOk, sndCwnd_constrainCwnd]
  split_ifs with hmax htwo
  · exact ⟨by decide, UInt32.le_refl _⟩
  · exact ⟨UInt32.le_refl _, by decide⟩
  · exact ⟨UInt32.not_lt.mp htwo, UInt32.not_lt.mp hmax⟩

/-- Whatever an update makes of the window, it is constrained at the end. -/
theorem advanceCwnd_ok (cc : CongControl) (fl : Floats) (p : CongPath) :
    (p.advanceCwnd cc fl).1.CwndOk := by
  simp only [advanceCwnd]
  split_ifs <;> exact constrainCwnd_ok _

theorem handleAck_ok (h : p.CwndOk) (ackno blockno currBlock : UInt32) (rtt : ℚ) :
    (p.handleAck cc fl ackno blockno currBlock rtt).path.CwndOk := by
  simp only [handleAck]
  split_ifs
  · exact h
  · exact h
  · exact advanceCwnd_ok cc fl _

theorem initsegs_ok : 2 ≤ initsegs ∧ initsegs ≤ maxWindow := by decide

theorem timeout_ok (h : p.CwndOk) (maxidle : ℤ) : (p.timeout fl maxidle).2.CwndOk := by
  rw [timeout]
  split
  · exact h
  · dsimp only
    split
    · exact initsegs_ok
    · exact h

end CongPath

end Ctcp
