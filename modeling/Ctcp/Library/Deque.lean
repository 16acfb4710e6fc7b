import Ctcp.Library.Object
import Mathlib.Data.Multiset.AddSub

/-! # Bounded double-ended queues -/

namespace Ctcp

variable {α : Type*}

/-- The calls of a double-ended queue. -/
inductive DequeOp (α : Type*) where
  | pushBack (a : α)
  | pushFront (a : α)
  | pop
  deriving DecidableEq

/-- At most `cap` elements. A push has to wait for room, and a pop for an element. -/
def boundedDeque (cap : ℕ) : Object (List α) (DequeOp α) (Option α) := fun as op =>
  match op with
  | .pushBack a => if as.length < cap then some (none, as ++ [a]) else none
  | .pushFront a => if as.length < cap then some (none, a :: as) else none
  | .pop =>
    match as with
    | [] => none
    | a :: rest => some (some a, rest)

/-- The elements that a call puts in. -/
def DequeOp.pushed : DequeOp α → Multiset α
  | .pushBack a | .pushFront a => {a}
  | .pop => 0

/-- The element that an answer hands out. -/
def poppedOf (answer : Option α) : Multiset α := (answer.toList : Multiset α)

variable {cap : ℕ} {as as' : List α} {op : DequeOp α} {answer : Option α}

/-- No call loses an element, or hands one out that stays. -/
theorem boundedDeque_conserves (hcall : boundedDeque cap as op = some (answer, as')) :
    (as : Multiset α) + op.pushed = poppedOf answer + as' := by
  cases op with
  | pushBack a =>
      simp only [boundedDeque, Option.ite_none_right_eq_some, Option.some.injEq,
        Prod.mk.injEq] at hcall
      obtain ⟨-, rfl, rfl⟩ := hcall
      simp [DequeOp.pushed, poppedOf, ← Multiset.coe_add]
  | pushFront a =>
      simp only [boundedDeque, Option.ite_none_right_eq_some, Option.some.injEq,
        Prod.mk.injEq] at hcall
      obtain ⟨-, rfl, rfl⟩ := hcall
      simp [DequeOp.pushed, poppedOf, ← Multiset.cons_coe, ← Multiset.singleton_add,
        Multiset.add_comm]
  | pop =>
      cases as with
      | nil => simp [boundedDeque] at hcall
      | cons a rest =>
          simp only [boundedDeque, Option.some.injEq, Prod.mk.injEq] at hcall
          obtain ⟨rfl, rfl⟩ := hcall
          simp [DequeOp.pushed, poppedOf, ← Multiset.cons_coe, ← Multiset.singleton_add]

/-- Over any sequence of calls, what was put in is what was handed out and what is left. -/
theorem boundedDeque_run_conserves {ops : List (DequeOp α)} {answers : List (Option α)}
    (h : (boundedDeque cap).run as ops = some (answers, as')) :
    (as : Multiset α) + (ops.map DequeOp.pushed).sum = (answers.map poppedOf).sum + as' := by
  induction ops generalizing as answers with
  | nil =>
      obtain ⟨rfl, rfl⟩ := Prod.mk.inj (Option.some.inj h)
      simp
  | cons op ops ih =>
      obtain ⟨answer, as₁, answers₁, hfirst, hrest, rfl⟩ := Object.run_cons h
      have hcall := boundedDeque_conserves hfirst
      have htail := ih hrest
      calc
        (as : Multiset α) + ((op :: ops).map DequeOp.pushed).sum
            = (as : Multiset α) + op.pushed + (ops.map DequeOp.pushed).sum := by
          rw [List.map_cons, List.sum_cons, Multiset.add_assoc]
        _ = poppedOf answer + (as₁ + (ops.map DequeOp.pushed).sum) := by
          rw [hcall, Multiset.add_assoc]
        _ = ((answer :: answers₁).map poppedOf).sum + as' := by
          rw [htail, List.map_cons, List.sum_cons, Multiset.add_assoc]

end Ctcp
