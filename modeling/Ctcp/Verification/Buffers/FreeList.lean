import Ctcp.Library.Execution
import Ctcp.Library.LinkedList
import Ctcp.Model.SkbMemory
import Ctcp.Verification.Buffers.Owners
import Mathlib.Data.Set.Basic

/-! # The free list in memory

`alloc_skb` and `free_skb` keep a linked list of the buffers that nobody uses. -/

namespace Ctcp

open Function

variable {α β : Type*} [DecidableEq α] {a b : α}

/-- The links between buffers. -/
def SkbMemory.next (s : SkbMemory α β) (a : α) : Option α := (s.cell a).next

/-! ## Runs -/

/-- The memory, and the buffers that `alloc_skb` has returned so far. -/
structure SkbRun (α β : Type*) where
  mem : SkbMemory α β
  obtained : Set α

inductive SkbEvent (α β : Type*) where
  | alloc (malloc : Option (α × SkbCell α β))
  | free (a : α)
  | write (a : α) (msgbuf : β)

/-- `malloc` does not return memory that it has returned before. -/
def SkbRun.Fresh (s : SkbRun α β) (malloc : Option (α × SkbCell α β)) : Prop :=
  ∀ a cell, malloc = some (a, cell) → a ∉ s.obtained

/-- Buffers that were obtained are freed, once or several times, and written to. -/
inductive SkbStep : SkbRun α β → SkbEvent α β → SkbRun α β → Prop where
  | alloc {s : SkbRun α β} {malloc : Option (α × SkbCell α β)} (hfresh : s.Fresh malloc) :
      SkbStep s (.alloc malloc)
        { mem := (s.mem.allocSkb malloc).2
          obtained := {a | a ∈ s.obtained ∨ (s.mem.allocSkb malloc).1 = some a} }
  | free {s : SkbRun α β} {a : α} (ha : a ∈ s.obtained) :
      SkbStep s (.free a) { s with mem := s.mem.freeSkb a }
  | write {s : SkbRun α β} {a : α} {msgbuf : β} (ha : a ∈ s.obtained) :
      SkbStep s (.write a msgbuf) { s with mem := s.mem.write a msgbuf }

/-- The program starts without buffers; what is in memory then is open. -/
def skbRuns (α β : Type*) [DecidableEq α] : System (SkbRun α β) (SkbEvent α β) where
  init s := s.mem.first = none ∧ s.mem.num = 0 ∧ s.obtained = ∅
  step := SkbStep

theorem System.Reachable.skbStep {s s' : SkbRun α β} {e : SkbEvent α β}
    (h : (skbRuns α β).Reachable s) (hstep : SkbStep s e s') : (skbRuns α β).Reachable s' :=
  .step h hstep

/-! ## A sound free list -/

/-- The free list is `l`. -/
structure FreeList (mem : SkbMemory α β) (obtained : Set α) (l : List α) : Prop where
  links : ListFrom mem.next mem.first l
  mem_iff : ∀ a, a ∈ l ↔ a ∈ obtained ∧ (mem.cell a).used = false

/-- `alloc_skb` has returned `a` and left the memory as `mem`. -/
structure Allocated (s : SkbRun α β) (a : α) (mem : SkbMemory α β) : Prop where
  unused : a ∈ s.obtained → (s.mem.cell a).used = false
  used : (mem.cell a).used = true
  others : ∀ b, b ≠ a → mem.cell b = s.mem.cell b
  off : ∀ l, ListFrom s.mem.next s.mem.first l →
    ListFrom mem.next mem.first (l.erase a) ∧ a ∉ l.erase a

/-- The free list is sound: without cycles and duplicates, and each call does what it should. -/
structure SoundFreeList (s : SkbRun α β) : Prop where
  exists_list : ∃ l, FreeList s.mem s.obtained l ∧ l.Nodup ∧
    ∀ a ∈ l, ¬Relation.TransGen (fun x y => s.mem.next x = some y) a a
  free_again : ∀ a, (s.mem.cell a).used = false → s.mem.freeSkb a = s.mem
  alloc : ∀ malloc, s.Fresh malloc → ∀ a mem, s.mem.allocSkb malloc = (some a, mem) →
    Allocated s a mem
  /-- Without memory nothing happens but that `num` is counted up. -/
  alloc_null : ∀ malloc mem, s.mem.allocSkb malloc = (none, mem) →
    mem.first = s.mem.first ∧ mem.cell = s.mem.cell

/-! ## The calls -/

namespace SkbMemory

variable {s : SkbMemory α β} {malloc : Option (α × SkbCell α β)}

/-- The first buffer of the free list is taken off. -/
def recycled (s : SkbMemory α β) (a : α) : SkbMemory α β :=
  { s with
    first := s.next a
    cell := update s.cell a { s.cell a with next := none, used := true } }

/-- A buffer is new. -/
def grown (s : SkbMemory α β) (a : α) (cell : SkbCell α β) : SkbMemory α β :=
  { s with
    num := s.num + 1
    cell := update s.cell a { cell with next := none, used := true } }

/-- What `alloc_skb` does. -/
inductive AllocCase (s : SkbMemory α β) (malloc : Option (α × SkbCell α β)) :
    Option α × SkbMemory α β → Prop where
  | recycle {a : α} (hfirst : s.first = some a) : AllocCase s malloc (some a, s.recycled a)
  | grow {a : α} {cell : SkbCell α β} (hfirst : s.first = none)
      (hmalloc : malloc = some (a, cell)) : AllocCase s malloc (some a, s.grown a cell)
  | null (hfirst : s.first = none) (hmalloc : malloc = none) :
      AllocCase s malloc (none, { s with num := s.num + 1 })

theorem allocCase (s : SkbMemory α β) (malloc : Option (α × SkbCell α β)) :
    AllocCase s malloc (s.allocSkb malloc) := by
  cases hfirst : s.first with
  | some a =>
      have heq : s.allocSkb malloc = (some a, s.recycled a) := by
        simp only [allocSkb, hfirst, setNext, setUsed, update_self, update_idem]
        rfl
      exact heq ▸ .recycle hfirst
  | none =>
      cases malloc with
      | some fresh =>
          have heq : s.allocSkb (some fresh) = (some fresh.1, s.grown fresh.1 fresh.2) := by
            simp only [allocSkb, hfirst, setNext, setUsed, update_self, update_idem, grown]
          exact heq ▸ .grow hfirst rfl
      | none =>
          have heq : s.allocSkb none = (none, { s with num := s.num + 1 }) := by
            simp only [allocSkb, hfirst]
          exact heq ▸ .null hfirst rfl

theorem freeSkb_free (h : (s.cell a).used = false) : s.freeSkb a = s := if_pos h

/-- Both branches do the same. -/
theorem freeSkb_used (h : (s.cell a).used = true) : s.freeSkb a =
    { s with
      first := some a
      cell := update s.cell a { s.cell a with next := s.first, used := false } } := by
  rw [freeSkb, if_neg (by simp [h])]
  cases hfirst : s.first with
  | none => simp only [setNext, setUsed, update_self, update_idem]
  | some first => simp only [setNext, setUsed, update_self, update_idem]

end SkbMemory

/-! ## The invariant -/

variable {mem : SkbMemory α β} {obtained obtained' : Set α} {l : List α}

theorem links_recycled (h : ListFrom mem.next mem.first l) (hfirst : mem.first = some a) :
    ∃ rest, l = a :: rest ∧ ListFrom (mem.recycled a).next (mem.recycled a).first rest := by
  have hlinks : ListFrom mem.next (some a) l := hfirst ▸ h
  exact hlinks.pop fun b hb => congrArg SkbCell.next (update_of_ne hb _ _)

theorem links_grown (h : ListFrom mem.next mem.first l) (hfirst : mem.first = none) (a : α)
    (cell : SkbCell α β) :
    l = [] ∧ ListFrom (mem.grown a cell).next (mem.grown a cell).first [] := by
  have hlinks : ListFrom mem.next none l := hfirst ▸ h
  have hnone : (mem.grown a cell).first = none := hfirst
  exact ⟨hlinks.unique .nil, hnone ▸ .nil⟩

theorem links_freed (h : ListFrom mem.next mem.first l) (hused : (mem.cell a).used = true)
    (hnot : a ∉ l) : ListFrom (mem.freeSkb a).next (mem.freeSkb a).first (a :: l) := by
  rw [SkbMemory.freeSkb_used hused]
  apply h.push hnot
  · exact congrArg SkbCell.next (update_self a _ mem.cell)
  · exact fun b hb => congrArg SkbCell.next (update_of_ne hb _ _)

theorem used_freed (hused : (mem.cell a).used = true) (b : α) :
    ((mem.freeSkb a).cell b).used = if b = a then false else (mem.cell b).used := by
  rw [SkbMemory.freeSkb_used hused]
  by_cases hb : b = a
  · subst hb
    simp
  · simp [hb]

theorem FreeList.recycle (h : FreeList mem obtained l) (hfirst : mem.first = some a)
    (hsame : ∀ b, b ∈ obtained' ↔ b ∈ obtained ∨ b = a) :
    a ∈ l ∧ FreeList (mem.recycled a) obtained' (l.erase a) := by
  obtain ⟨rest, rfl, hrest⟩ := links_recycled h.links hfirst
  have hnot : a ∉ rest := (List.nodup_cons.mp h.links.nodup).1
  rw [List.erase_cons_head]
  refine ⟨List.mem_cons_self, hrest, fun b => ?_⟩
  by_cases hb : b = a
  · subst hb
    simp [hnot, SkbMemory.recycled]
  · have hmem := h.mem_iff b
    rw [List.mem_cons, or_iff_right hb] at hmem
    have hcell : (mem.recycled a).cell b = mem.cell b := update_of_ne hb _ _
    rw [hmem, hsame, or_iff_left hb, hcell]

theorem FreeList.grow {cell : SkbCell α β} (h : FreeList mem obtained l)
    (hfirst : mem.first = none) (hsame : ∀ b, b ∈ obtained' ↔ b ∈ obtained ∨ b = a) :
    l = [] ∧ FreeList (mem.grown a cell) obtained' [] := by
  obtain ⟨rfl, hlinks⟩ := links_grown h.links hfirst a cell
  refine ⟨rfl, hlinks, fun b => ?_⟩
  by_cases hb : b = a
  · subst hb
    simp [SkbMemory.grown]
  · have hcell : (mem.grown a cell).cell b = mem.cell b := update_of_ne hb _ _
    rw [h.mem_iff b, hsame, or_iff_left hb, hcell]

theorem FreeList.free (h : FreeList mem obtained l) (ha : a ∈ obtained) :
    FreeList (mem.freeSkb a) obtained (if (mem.cell a).used = false then l else a :: l) := by
  split
  case isTrue hfree =>
    rw [SkbMemory.freeSkb_free hfree]
    exact h
  case isFalse hused =>
    have hnot : a ∉ l := fun hmem => hused ((h.mem_iff a).mp hmem).2
    rw [Bool.not_eq_false] at hused
    refine ⟨links_freed h.links hused hnot, fun b => ?_⟩
    rw [used_freed hused]
    by_cases hb : b = a
    · subst hb
      simp [ha]
    · have hmem := h.mem_iff b
      simp [hmem, hb]

theorem FreeList.write (h : FreeList mem obtained l) (a : α) (msgbuf : β) :
    FreeList (mem.write a msgbuf) obtained l := by
  have hcell : ∀ b, (mem.write a msgbuf).next b = mem.next b ∧
      ((mem.write a msgbuf).cell b).used = (mem.cell b).used := by
    intro b
    by_cases hb : b = a
    · subst hb
      simp [SkbMemory.next, SkbMemory.write]
    · simp [SkbMemory.next, SkbMemory.write, hb]
  refine ⟨h.links.congr fun b _ => (hcell b).1, fun b => ?_⟩
  rw [h.mem_iff, (hcell b).2]

variable {s s' : SkbRun α β}

theorem FreeList.step {e : SkbEvent α β} (h : FreeList s.mem s.obtained l)
    (hstep : SkbStep s e s') : ∃ l', FreeList s'.mem s'.obtained l' := by
  cases hstep with
  | @alloc malloc hfresh =>
      have hcase := s.mem.allocCase malloc
      generalize s.mem.allocSkb malloc = r at hcase ⊢
      cases hcase with
      | recycle hfirst => exact ⟨_, (h.recycle hfirst (by simp [eq_comm])).2⟩
      | grow hfirst hmalloc => exact ⟨_, (h.grow hfirst (by simp [eq_comm])).2⟩
      | null hfirst hmalloc => exact ⟨l, h.links, fun b => by simpa using h.mem_iff b⟩
  | free ha => exact ⟨_, h.free ha⟩
  | write ha => exact ⟨l, h.write _ _⟩

theorem freeList_of_reachable (h : (skbRuns α β).Reachable s) :
    ∃ l, FreeList s.mem s.obtained l := by
  refine h.invariant (I := fun s => ∃ l, FreeList s.mem s.obtained l) ?_ ?_
  · rintro s ⟨hfirst, -, hobtained⟩
    refine ⟨[], hfirst ▸ .nil, fun b => ?_⟩
    simp [hobtained]
  · rintro s e s' ⟨l, hl⟩ hstep
    exact hl.step hstep

/-! ## The calls on a sound list -/

theorem FreeList.allocated (h : FreeList s.mem s.obtained l)
    {malloc : Option (α × SkbCell α β)} (hfresh : s.Fresh malloc)
    (hcall : s.mem.allocSkb malloc = (some a, mem)) : Allocated s a mem := by
  have hcase := s.mem.allocCase malloc
  have hsame : ∀ b, b ∈ {b | b ∈ s.obtained ∨ b = a} ↔ b ∈ s.obtained ∨ b = a :=
    fun _ => Iff.rfl
  rw [hcall] at hcase
  cases hcase with
  | recycle hfirst =>
      obtain ⟨hmem, hlist⟩ := h.recycle hfirst hsame
      refine ⟨fun _ => ((h.mem_iff a).mp hmem).2, ?_, fun b hb => update_of_ne hb _ _, ?_⟩
      · exact congrArg SkbCell.used (update_self a _ s.mem.cell)
      · intro l' hl'
        obtain rfl := hl'.unique h.links
        exact ⟨hlist.links, fun hin => (List.Nodup.mem_erase_iff hl'.nodup).mp hin |>.1 rfl⟩
  | grow hfirst hmalloc =>
      obtain ⟨rfl, hlist⟩ := h.grow hfirst hsame
      refine ⟨fun hold => absurd hold (hfresh _ _ hmalloc), ?_,
        fun b hb => update_of_ne hb _ _, ?_⟩
      · exact congrArg SkbCell.used (update_self a _ s.mem.cell)
      · intro l' hl'
        obtain rfl := hl'.unique h.links
        exact ⟨hlist.links, List.not_mem_nil⟩

/-- The buffers that are not in use are linked soundly, whatever was allocated and freed. -/
theorem soundFreeList_of_reachable (h : (skbRuns α β).Reachable s) : SoundFreeList s := by
  obtain ⟨l, hl⟩ := freeList_of_reachable h
  constructor
  case exists_list => exact ⟨l, hl, hl.links.nodup, fun a ha => hl.links.acyclic ha⟩
  case free_again => exact fun a ha => SkbMemory.freeSkb_free ha
  case alloc => exact fun malloc hfresh a mem hcall => hl.allocated hfresh hcall
  case alloc_null =>
    intro malloc mem hcall
    have hcase := s.mem.allocCase malloc
    rw [hcall] at hcase
    cases hcase with
    | null hfirst hmalloc => exact ⟨rfl, rfl⟩

/-- A buffer that is freed twice is on the list once, and can be obtained again. -/
theorem soundFreeList_freedTwice : ∃ s : SkbRun ℕ Unit, s.mem.num = 1 ∧
    (s.mem.allocSkb none).1 = some 0 ∧ SoundFreeList s := by
  have hinit : (skbRuns ℕ Unit).Reachable ⟨⟨none, 0, fun _ => ⟨(), none, false⟩⟩, ∅⟩ :=
    .init ⟨rfl, rfl, rfl⟩
  have halloc := hinit.skbStep (e := .alloc (some (0, ⟨(), some 7, false⟩)))
    (.alloc (by simp [SkbRun.Fresh]))
  have hfree := halloc.skbStep (.free (a := 0) (.inr rfl))
  have hagain := hfree.skbStep (.free (a := 0) (.inr rfl))
  exact ⟨_, rfl, rfl, soundFreeList_of_reachable hagain⟩

/-! ## The pool of the other modules -/

/-- The memory holds the pool, with numbers for addresses. -/
structure HoldsPool (mem : SkbMemory ℕ β) (pool : SkbPool) : Prop where
  links : ListFrom mem.next mem.first pool.first
  used : ∀ a < pool.num, (mem.cell a).used = pool.used a
  num : mem.num = pool.num

variable {pool : SkbPool} {mem : SkbMemory ℕ β} {skb : Skb}

/-- When `malloc` counts up, `alloc_skb` is `allocSkb`. -/
theorem HoldsPool.alloc (h : HoldsPool mem pool) (cell : SkbCell ℕ β) :
    (mem.allocSkb (some (pool.num, cell))).1 = some (allocSkb pool).1 ∧
      HoldsPool (mem.allocSkb (some (pool.num, cell))).2 (allocSkb pool).2 := by
  have hcase := mem.allocCase (some (pool.num, cell))
  generalize mem.allocSkb (some (pool.num, cell)) = r at hcase ⊢
  cases hcase with
  | @recycle a hfirst =>
      obtain ⟨rest, hpool, hrest⟩ := links_recycled h.links hfirst
      rw [allocSkb_cons hpool]
      refine ⟨rfl, hrest, fun b hb => ?_, h.num⟩
      by_cases hba : b = a
      · subst hba
        simp [SkbMemory.recycled]
      · simp [SkbMemory.recycled, hba, h.used b hb]
  | @grow a c hfirst hmalloc =>
      obtain ⟨rfl, rfl⟩ := Prod.mk.inj (Option.some.inj hmalloc)
      obtain ⟨hempty, hlinks⟩ := links_grown h.links hfirst pool.num cell
      rw [allocSkb_nil hempty]
      refine ⟨rfl, hlinks, fun b hb => ?_, congrArg (· + 1) h.num⟩
      by_cases hba : b = pool.num
      · subst hba
        simp [SkbMemory.grown]
      · have hlt : b < pool.num := lt_of_le_of_ne (Nat.le_of_lt_succ hb) hba
        simp [SkbMemory.grown, hba, h.used b hlt]
  | null hfirst hmalloc => cases hmalloc

/-- `free_skb` is `freeSkb`. -/
theorem HoldsPool.free (h : HoldsPool mem pool) (hmarked : pool.Marked) (hskb : skb < pool.num) :
    HoldsPool (mem.freeSkb skb) (freeSkb pool skb) := by
  have hused := h.used skb hskb
  rw [freeSkb, ← hused]
  split
  case isTrue hfree =>
    rw [SkbMemory.freeSkb_free hfree]
    exact h
  case isFalse hnot =>
    have htrue : (mem.cell skb).used = true := by simpa using hnot
    have hout : skb ∉ pool.first := ((hmarked skb).mp (hused ▸ htrue)).2
    have hnum : (mem.freeSkb skb).num = pool.num := by
      rw [SkbMemory.freeSkb_used htrue]
      exact h.num
    refine ⟨links_freed h.links htrue hout, fun b hb => ?_, hnum⟩
    rw [used_freed htrue]
    by_cases hb' : b = skb
    · subst hb'
      simp
    · simp [hb', h.used b hb]

end Ctcp
