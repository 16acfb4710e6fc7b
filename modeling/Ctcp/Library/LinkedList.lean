import Mathlib.Data.List.Nodup
import Mathlib.Logic.Function.Basic
import Mathlib.Logic.Relation
import Mathlib.Tactic.Common

/-! # Linked lists in memory

A link is the address of a cell, or `none` for a null pointer. -/

namespace Ctcp

open Function

variable {α : Type*} {next next' : α → Option α} {head : Option α} {a b : α} {l l' : List α}

/-- The cells from `head` on are those of the list, and then there is a null pointer. -/
inductive ListFrom (next : α → Option α) : Option α → List α → Prop where
  | nil : ListFrom next none []
  | cons {a : α} {l : List α} (h : ListFrom next (next a) l) : ListFrom next (some a) (a :: l)

namespace ListFrom

theorem head_eq (h : ListFrom next head l) : head = l.head? := by
  cases h with
  | nil => rfl
  | cons h => rfl

/-- Memory determines the list. -/
theorem unique (h : ListFrom next head l) (h' : ListFrom next head l') : l = l' := by
  induction h generalizing l' with
  | nil =>
      cases h'
      rfl
  | cons h ih =>
      cases h' with
      | cons h' => rw [ih h']

/-- Each cell is the beginning of a part of the list. -/
theorem exists_from_mem (h : ListFrom next head l) (ha : a ∈ l) :
    ∃ rest, (a :: rest) <:+ l ∧ ListFrom next (next a) rest := by
  induction h with
  | nil => exact (List.not_mem_nil ha).elim
  | @cons b l h ih =>
      rcases List.mem_cons.mp ha with rfl | htail
      · exact ⟨l, List.suffix_rfl, h⟩
      · obtain ⟨rest, hsuffix, hrest⟩ := ih htail
        exact ⟨rest, hsuffix.trans (List.suffix_cons b l), hrest⟩

/-- No cell is met again. -/
theorem nodup (h : ListFrom next head l) : l.Nodup := by
  induction h with
  | nil => exact List.nodup_nil
  | @cons a l h ih =>
      refine List.nodup_cons.mpr ⟨fun ha => ?_, ih⟩
      obtain ⟨rest, hsuffix, hrest⟩ := h.exists_from_mem ha
      obtain rfl := h.unique hrest
      have hlength := hsuffix.length_le
      rw [List.length_cons] at hlength
      omega

/-- What is reached from a cell comes after it. -/
theorem reached (h : ListFrom next (some a) (a :: l))
    (hreach : Relation.TransGen (fun x y => next x = some y) a b) : b ∈ l := by
  have hafter : ∃ rest, (b :: rest) <:+ l ∧ ListFrom next (next b) rest := by
    induction hreach with
    | single hb =>
        cases h with
        | cons h =>
            rw [hb] at h
            cases h with
            | cons h => exact ⟨_, List.suffix_rfl, h⟩
    | @tail x y _ hy ih =>
        obtain ⟨rest, hsuffix, hrest⟩ := ih
        rw [hy] at hrest
        cases hrest with
        | cons hrest => exact ⟨_, (List.suffix_cons _ _).trans hsuffix, hrest⟩
  obtain ⟨rest, hsuffix, -⟩ := hafter
  exact hsuffix.subset List.mem_cons_self

theorem acyclic (h : ListFrom next head l) (ha : a ∈ l) :
    ¬Relation.TransGen (fun x y => next x = some y) a a := by
  intro hcycle
  obtain ⟨rest, -, hrest⟩ := h.exists_from_mem ha
  have hself : ListFrom next (some a) (a :: rest) := .cons hrest
  exact (List.nodup_cons.mp hself.nodup).1 (hself.reached hcycle)

/-- A list is left as it is when its links are. -/
theorem congr (h : ListFrom next head l) (hsame : ∀ a ∈ l, next' a = next a) :
    ListFrom next' head l := by
  induction h with
  | nil => exact .nil
  | @cons a l h ih =>
      refine .cons ?_
      rw [hsame a List.mem_cons_self]
      exact ih fun b hb => hsame b (List.mem_cons_of_mem a hb)

/-- A new cell in front. -/
theorem push (h : ListFrom next head l) (ha : a ∉ l) (hlink : next' a = head)
    (hsame : ∀ b, b ≠ a → next' b = next b) : ListFrom next' (some a) (a :: l) := by
  refine .cons ?_
  rw [hlink]
  exact h.congr fun b hb => hsame b (ne_of_mem_of_not_mem hb ha)

/-- The first cell is taken off; its link may change then. -/
theorem pop (h : ListFrom next (some a) l) (hsame : ∀ b, b ≠ a → next' b = next b) :
    ∃ rest, l = a :: rest ∧ ListFrom next' (next a) rest := by
  have hnodup := h.nodup
  cases h with
  | @cons a rest h =>
      refine ⟨rest, rfl, h.congr fun b hb => hsame b ?_⟩
      exact ne_of_mem_of_not_mem hb (List.nodup_cons.mp hnodup).1

end ListFrom

end Ctcp
