import Mathlib.Data.List.TakeWhile
import Mathlib.Tactic.Common

/-! # Reading a text file

Its lines, `fgets`, and the words that the conversion `%s` finds. -/

namespace Ctcp

/-- `'\n'` -/
def newline : UInt8 := 10

/-- `isspace` in the C locale. -/
def isSpace (c : UInt8) : Bool := c = 32 || (9 ≤ c && c ≤ 13)

/-- The bytes of a string literal. -/
def ascii (s : String) : List UInt8 := s.toList.map fun c => c.toNat.toUInt8

/-! ## Lines -/

/-- The lines of a file without the `newline` at their end, which the last one need not have. -/
def lines : List UInt8 → List (List UInt8)
  | [] => []
  | c :: s =>
    if c = newline then [] :: lines s
    else
      match lines s with
      | [] => [[c]]
      | l :: ls => (c :: l) :: ls

/-- `fgets` with room for `n` bytes and the terminator: the line and what follows it. -/
def fgets : ℕ → List UInt8 → List UInt8 × List UInt8
  | 0, s => ([], s)
  | _ + 1, [] => ([], [])
  | n + 1, c :: s =>
    if c = newline then ([c], s) else (c :: (fgets n s).1, (fgets n s).2)

/-- `while (fgets(line, size, fp) != NULL)`, in at most so many rounds. -/
def foldFgets {σ : Type*} (size : ℕ) (body : σ → List UInt8 → Option σ) :
    ℕ → σ → List UInt8 → Option σ
  | 0, _, _ => none
  | _ + 1, s, [] => some s
  | fuel + 1, s, c :: file =>
    (body s (fgets (size - 1) (c :: file)).1).bind fun s' =>
      foldFgets size body fuel s' (fgets (size - 1) (c :: file)).2

theorem lines_eq_nil_iff {s : List UInt8} : lines s = [] ↔ s = [] := by
  cases s with
  | nil => exact iff_of_true rfl rfl
  | cons c s =>
      simp only [lines, reduceCtorEq, iff_false]
      split
      · exact List.cons_ne_nil _ _
      · split <;> exact List.cons_ne_nil _ _

theorem fgets_append (n : ℕ) (s : List UInt8) : (fgets n s).1 ++ (fgets n s).2 = s := by
  induction s generalizing n with
  | nil => cases n <;> rfl
  | cons c s ih =>
      cases n with
      | zero => rfl
      | succ n =>
          rw [fgets]
          split
          · rfl
          · exact congrArg (c :: ·) (ih n)

/-- The first line, with its end, unless the buffer is too short for it. -/
theorem fgets_of_lines_eq {n : ℕ} {s l : List UInt8} {ls : List (List UInt8)}
    (h : lines s = l :: ls) (hshort : l.length < n) :
    lines (fgets n s).2 = ls ∧ ((fgets n s).1 = l ++ [newline] ∨ (fgets n s).1 = l) := by
  induction s generalizing n l with
  | nil => cases h
  | cons c s ih =>
      obtain ⟨n, rfl⟩ := Nat.exists_eq_add_one_of_ne_zero (Nat.ne_zero_of_lt hshort)
      rw [lines] at h
      rw [fgets]
      split at h
      next hend =>
        cases h
        rw [if_pos hend]
        exact ⟨rfl, .inl (congrArg (· :: []) hend)⟩
      next hend =>
        rw [if_neg hend]
        split at h
        next hlast =>
          -- the file ends here, without a `newline`
          cases h
          rw [lines_eq_nil_iff.mp hlast]
          cases n with
          | zero => exact absurd hshort (lt_irrefl 1)
          | succ n => exact ⟨rfl, .inr rfl⟩
        next l' ls' hrest =>
          cases h
          obtain ⟨hls, hl⟩ := ih hrest (Nat.lt_of_succ_lt_succ hshort)
          refine ⟨hls, hl.imp ?_ ?_⟩
          · exact fun h => congrArg (c :: ·) h
          · exact fun h => congrArg (c :: ·) h

theorem fgets_ne_nil (n : ℕ) (c : UInt8) (s : List UInt8) : (fgets (n + 1) (c :: s)).1 ≠ [] := by
  rw [fgets]
  split <;> exact List.cons_ne_nil _ _

/-- The rule for a loop over lines that fit into the buffer, when the body does not look at
the end of a line. -/
theorem foldFgets_eq_foldlM {σ : Type*} {size fuel : ℕ} {body : σ → List UInt8 → Option σ}
    (hbody : ∀ s l, body s (l ++ [newline]) = body s l) {file : List UInt8}
    (hshort : ∀ l ∈ lines file, l.length < size - 1) (hfuel : file.length < fuel) (s : σ) :
    foldFgets size body fuel s file = (lines file).foldlM body s := by
  induction fuel generalizing file s with
  | zero => exact absurd hfuel (Nat.not_lt_zero _)
  | succ fuel ih =>
      cases file with
      | nil => rfl
      | cons c file =>
          cases hlines : lines (c :: file) with
          | nil => cases lines_eq_nil_iff.mp hlines
          | cons l ls =>
              rw [hlines] at hshort
              have hroom := hshort l List.mem_cons_self
              obtain ⟨hrest, hline⟩ := fgets_of_lines_eq hlines hroom
              have hne : (fgets (size - 1) (c :: file)).1 ≠ [] := by
                obtain ⟨n, hn⟩ := Nat.exists_eq_add_one_of_ne_zero (Nat.ne_zero_of_lt hroom)
                rw [hn]
                exact fgets_ne_nil n c file
              have hlength : (fgets (size - 1) (c :: file)).2.length < fuel := by
                have happend := congrArg List.length (fgets_append (size - 1) (c :: file))
                have hpos := List.length_pos_iff.mpr hne
                rw [List.length_append] at happend
                omega
              have hword : body s (fgets (size - 1) (c :: file)).1 = body s l := by
                rcases hline with h | h <;> rw [h]
                exact hbody s l
              rw [foldFgets, hword, List.foldlM_cons]
              refine congrArg (body s l).bind (funext fun s' => ?_)
              rw [ih (hrest ▸ fun l' hl' => hshort l' (List.mem_cons_of_mem _ hl')) hlength, hrest]

/-- Two loops keep in step, where the state of the second is what is seen of the first. -/
theorem foldlM_bind_of_step {σ τ α : Type*} {f : σ → α → Option σ} {g : τ → α → Option τ}
    {view : σ → Option τ} (hstep : ∀ s a, (f s a).bind view = (view s).bind (g · a)) (as : List α)
    (s : σ) : (as.foldlM f s).bind view = (view s).bind fun t => as.foldlM g t := by
  induction as generalizing s with
  | nil => exact (Option.bind_fun_some (view s)).symm
  | cons a as ih =>
      calc ((a :: as).foldlM f s).bind view
          = (f s a).bind fun s' => (as.foldlM f s').bind view := Option.bind_assoc ..
        _ = ((f s a).bind view).bind fun t => as.foldlM g t := by
          simp only [ih, Option.bind_assoc]
        _ = (view s).bind fun t => (a :: as).foldlM g t := by
          rw [hstep, Option.bind_assoc]
          rfl

/-! ## Words -/

/-- What stands between white space. -/
def words (s : List UInt8) : List (List UInt8) := (s.splitOnP isSpace).filter (· ≠ [])

/-- What a run of `%s` finds in a buffer, up to its terminator. -/
def scanWords (line : List UInt8) : List (List UInt8) := words (line.takeWhile (· ≠ 0))

theorem words_append_newline (s : List UInt8) : words (s ++ [newline]) = words s := by
  rw [words, List.splitOnP_append_cons _ _ rfl, List.filter_append]
  simp [words]

/-- The end of a line is white space. -/
theorem scanWords_append_newline (l : List UInt8) : scanWords (l ++ [newline]) = scanWords l := by
  rw [scanWords, List.takeWhile_append]
  split
  next hall =>
    rw [List.takeWhile_cons_of_pos (by decide), List.takeWhile_nil, words_append_newline, scanWords,
      (List.takeWhile_prefix _).eq_of_length hall]
  next => rfl

end Ctcp
