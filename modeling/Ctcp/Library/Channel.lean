import Ctcp.Library.Object
import Mathlib.Data.Nat.Notation

/-! # Bounded channels

A channel holds a bounded number of elements, oldest first. Once it is closed no call
waits any more. -/

namespace Ctcp

variable {α : Type*}

structure Channel (α : Type*) where
  closed : Bool
  held : List α

inductive ChannelOp (α : Type*) where
  | push (as : List α)
  | pop (n : ℕ)
  | close

inductive ChannelReply (α : Type*) where
  /-- So many elements were accepted. -/
  | pushed (n : ℕ)
  | popped (as : List α)
  | closed

/-- A push accepts what there is room for, a pop returns at most `n` elements. They wait
while the channel is open and they cannot do anything. -/
def boundedChannel (cap : ℕ) : Object (Channel α) (ChannelOp α) (ChannelReply α) := fun s op =>
  match op with
  | .push as =>
    if s.held.length = cap ∧ s.closed = false then none
    else
      let n := min as.length (cap - s.held.length)
      some (.pushed n, { s with held := s.held ++ as.take n })
  | .pop n =>
    if s.held.length = 0 ∧ s.closed = false then none
    else some (.popped (s.held.take n), { s with held := s.held.drop n })
  | .close => some (.closed, { s with closed := true })

/-- The elements of a call that were accepted. -/
def accepted : ChannelOp α × ChannelReply α → List α
  | (.push as, .pushed n) => as.take n
  | _ => []

/-- The elements that a reply hands out. -/
def ChannelReply.elements : ChannelReply α → List α
  | .popped as => as
  | _ => []

variable {cap : ℕ} {s s' : Channel α} {op : ChannelOp α} {reply : ChannelReply α}
  {ops : List (ChannelOp α)} {replies : List (ChannelReply α)}

theorem boundedChannel_conserves (h : boundedChannel cap s op = some (reply, s')) :
    s.held ++ accepted (op, reply) = reply.elements ++ s'.held := by
  cases op with
  | push as =>
      simp only [boundedChannel, Option.ite_none_left_eq_some, Option.some.injEq,
        Prod.mk.injEq] at h
      obtain ⟨-, rfl, rfl⟩ := h
      simp [accepted, ChannelReply.elements]
  | pop n =>
      simp only [boundedChannel, Option.ite_none_left_eq_some, Option.some.injEq,
        Prod.mk.injEq] at h
      obtain ⟨-, rfl, rfl⟩ := h
      simp [accepted, ChannelReply.elements]
  | close =>
      simp only [boundedChannel, Option.some.injEq, Prod.mk.injEq] at h
      obtain ⟨rfl, rfl⟩ := h
      simp [accepted, ChannelReply.elements]

theorem boundedChannel_closed (h : boundedChannel cap s op = some (reply, s')) :
    s'.closed = true ↔ s.closed = true ∨ op = .close := by
  cases op with
  | push as =>
      simp only [boundedChannel, Option.ite_none_left_eq_some, Option.some.injEq,
        Prod.mk.injEq] at h
      obtain ⟨-, -, rfl⟩ := h
      simp
  | pop n =>
      simp only [boundedChannel, Option.ite_none_left_eq_some, Option.some.injEq,
        Prod.mk.injEq] at h
      obtain ⟨-, -, rfl⟩ := h
      simp
  | close =>
      simp only [boundedChannel, Option.some.injEq, Prod.mk.injEq] at h
      obtain ⟨-, rfl⟩ := h
      simp

/-- What was held and accepted is, in this order, what was handed out and is held. -/
theorem boundedChannel_run_conserves
    (h : (boundedChannel cap).run s ops = some (replies, s')) :
    s.held ++ (ops.zip replies).flatMap accepted =
      replies.flatMap ChannelReply.elements ++ s'.held := by
  induction ops generalizing s replies with
  | nil =>
      obtain ⟨rfl, rfl⟩ := Prod.mk.inj (Option.some.inj h)
      simp
  | cons op ops ih =>
      obtain ⟨reply, s₁, replies₁, hfirst, hrest, rfl⟩ := Object.run_cons h
      have hcall := boundedChannel_conserves hfirst
      have htail := ih hrest
      calc
        s.held ++ ((op :: ops).zip (reply :: replies₁)).flatMap accepted
            = (s.held ++ accepted (op, reply)) ++ (ops.zip replies₁).flatMap accepted := by
          rw [List.zip_cons_cons, List.flatMap_cons, List.append_assoc]
        _ = reply.elements ++ (s₁.held ++ (ops.zip replies₁).flatMap accepted) := by
          rw [hcall, List.append_assoc]
        _ = (reply :: replies₁).flatMap ChannelReply.elements ++ s'.held := by
          rw [htail, List.flatMap_cons, List.append_assoc]

theorem boundedChannel_run_closed (h : (boundedChannel cap).run s ops = some (replies, s')) :
    s'.closed = true ↔ s.closed = true ∨ .close ∈ ops := by
  induction ops generalizing s replies with
  | nil =>
      obtain ⟨-, rfl⟩ := Prod.mk.inj (Option.some.inj h)
      simp
  | cons op ops ih =>
      obtain ⟨reply, s₁, replies₁, hfirst, hrest, -⟩ := Object.run_cons h
      have hop : op = .close ↔ .close = op := eq_comm
      rw [ih hrest, boundedChannel_closed hfirst, List.mem_cons, or_assoc, hop]

end Ctcp
