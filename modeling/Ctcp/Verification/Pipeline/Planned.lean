import Ctcp.Verification.Pipeline.Call

/-! # What a call of `send_segs` sends -/

namespace Ctcp

open Function

/-! ## The plan of a call -/

/-- The slot whose mutex `send_segs` locks next. -/
def Phase.locks (sk : Server) : Phase → Option ℕ
  | .looping l => if l.GoesOn sk ∧ l.blockno ≠ sk.currBlock then some (slot l.blockno) else none
  | .needing l _ | .popped l _ _ => some (slot l.blockno)
  | _ => none

/-- The job waits in `q_push_back`, with the mutex of its block locked. -/
def Task.Clogged (cap : ℕ) (sk : Server) (t : Task) : Prop :=
  ∃ msg left, t.stage = .pushing (msg :: left) ∧ cap ≤ (sk.codedQ t.slot).length

/-- The call goes on by itself, or the job that holds the mutex does. -/
def SegsCall.GoesOn (cap : ℕ) (c : SegsCall) : Prop :=
  (∃ e c', e.ofSegs = true ∧ SegsCallStep cap c e c') ∨
    ∃ t ∈ c.s.tasks, t.Holds ∧ c.s.phase.locks c.s.sk = some t.slot ∧ ¬t.Clogged cap c.s.sk

section Call

variable {cap pin : ℕ} {fresh : ℕ → ℕ → Bool} {s₀ : Pipeline} {c c' : SegsCall} {b : ℕ} {w : ℤ}

/-! ## The window -/

/-- A block after another one is visited when the other one left some of the window. -/
theorem InTurn.sent_lt {v : Visit} {vs : List Visit} (h : InTurn b w (v :: vs)) :
    ∀ u ∈ vs, (u.sent : ℤ) < u.win := by
  induction vs generalizing v with
  | nil => exact fun u hu => (List.not_mem_nil hu).elim
  | cons u us ih =>
      obtain ⟨-, hwin, hpos, hrest⟩ := h
      refine List.forall_mem_cons.mpr ⟨?_, ih hrest⟩
      have hbefore := hrest.2.1
      rw [sentBy_cons] at hwin
      omega

/-- Where the window is not used up the request is met. -/
theorem InTurn.inOrder {visits : List Visit} (h : InTurn b w visits)
    (hplan : ∀ v ∈ visits, Plans v.win v.p v.own v.request v.sent) :
    visits.Pairwise fun later earlier =>
      0 < later.sent → (earlier.request : ℚ) ≤ earlier.sent * (1 - earlier.p) + earlier.own := by
  induction visits with
  | nil => exact .nil
  | cons v vs ih =>
      obtain ⟨-, hrest⟩ := List.forall_mem_cons.mp hplan
      refine List.pairwise_cons.mpr ⟨fun u hu _ => ?_, ih h.2.2.2 hrest⟩
      exact (hrest u hu).reached.resolve_left (h.sent_lt u hu).ne

end Call

end Ctcp
