import Ctcp.Model.Lease

/-! # What a lease file gives

A line is a statement. A stanza is a `lease` line with the lines up to the next one. -/

namespace Ctcp

inductive LeaseStmt where
  | lease
  | field (f : LeaseField) (w : List UInt8)
  | other
  deriving DecidableEq

/-- The statement that a line makes with these words, unless it has too few of them. -/
def leaseStmt : List (List UInt8) → Option LeaseStmt
  | [] => none
  | type :: vals =>
    if type.head? = some 35 then some .other
    else if type = ascii "lease" then some .lease
    else if type = ascii "fixed-address" then vals[0]?.map (.field .address)
    else if type = ascii "interface" then vals[0]?.map (.field .interface)
    else if type = ascii "option" then
      vals[0]?.bind fun name =>
        if name = ascii "subnet-mask" then vals[1]?.map (.field .netmask)
        else if name = ascii "routers" then vals[1]?.map (.field .gateway)
        else some .other
    else some .other

def quote : UInt8 := 34

def semicolon : UInt8 := 59

def comma : UInt8 := 44

/-- The value that a word gives for a field. The name of an interface is quoted; any other
value ends with its statement, or at the comma where a list goes on. -/
def Gives : LeaseField → List UInt8 → List UInt8 → Prop
  | .interface, w, v => w = quote :: (v ++ [quote, semicolon]) ∧ quote ∉ v
  | _, w, v => (w = v ++ [semicolon] ∨ w = v ++ [comma]) ∧ semicolon ∉ v ∧ comma ∉ v

/-- A word for a field, and how many `lease` lines stand before it. -/
structure GivenField where
  stanza : ℕ
  field : LeaseField
  word : List UInt8
  deriving DecidableEq

/-- The fields that are given after `n` lines with `lease`. -/
def givenFrom (n : ℕ) : List LeaseStmt → List GivenField
  | [] => []
  | .lease :: stmts => givenFrom (n + 1) stmts
  | .field f w :: stmts => { stanza := n, field := f, word := w } :: givenFrom n stmts
  | .other :: stmts => givenFrom n stmts

/-- The word for a field in the stanza after `k` others; the last one, if there are more. -/
def lastWord (given : List GivenField) (k : ℕ) (f : LeaseField) : Option (List UInt8) :=
  (given.filter fun g => g.stanza = k + 1 ∧ g.field = f).getLast?.map GivenField.word

/-! ## Execution -/

/-- What `readLease` cuts out of a word. -/
def clip : LeaseField → List UInt8 → List UInt8
  | .interface, w => strndup (w.drop 1) (strlen w - 3)
  | _, w => strndup w (strlen w - 1)

namespace LeaseTable

def exec (t : LeaseTable) : LeaseStmt → Option LeaseTable
  | .lease => t.next
  | .field f w => t.store f (clip f w)
  | .other => some t

end LeaseTable

/-- The field stands in a stanza for which `leases` has an element. -/
def GivenField.InTable (g : GivenField) : Prop := 1 ≤ g.stanza ∧ g.stanza ≤ maxSubstreams

instance (g : GivenField) : Decidable g.InTable :=
  inferInstanceAs (Decidable (1 ≤ g.stanza ∧ g.stanza ≤ maxSubstreams))

/-- The table with one more field. -/
def putField (leases : ℕ → DhcpLease) (g : GivenField) : ℕ → DhcpLease :=
  Function.update leases (g.stanza - 1)
    (Function.update (leases (g.stanza - 1)) g.field (some (clip g.field g.word)))

variable {leases : ℕ → DhcpLease} {stmts : List LeaseStmt} {n : ℕ}

theorem toNat_strlen_sub {s : List UInt8} {c : UInt64} (hc : c.toNat ≤ s.length)
    (hshort : s.length < 64) : (strlen s - c).toNat = s.length - c.toNat := by
  have hlength : (strlen s).toNat = s.length := by
    rw [strlen, Nat.toUInt64_eq, UInt64.toNat_ofNat']
    omega
  rw [UInt64.toNat_sub_of_le _ _ (by rwa [UInt64.le_iff_toNat_le, hlength]), hlength]

theorem strndup_append {v : List UInt8} {n : UInt64} (hn : n.toNat = v.length) (s : List UInt8) :
    strndup (v ++ s) n = v := by
  rw [strndup, hn, List.take_left' rfl]

theorem clip_of_gives {f : LeaseField} {w v : List UInt8} (h : Gives f w v)
    (hshort : w.length < 64) : clip f w = v := by
  have hvalue (c : UInt8) (hw : w = v ++ [c]) : strndup w (strlen w - 1) = v := by
    have hlength : w.length = v.length + 1 := by simp [hw]
    have hn : (strlen w - 1).toNat = v.length :=
      (toNat_strlen_sub (by simp [hlength]) hshort).trans (by simp [hlength])
    conv_lhs => rw [hw]
    exact strndup_append (hw ▸ hn) [c]
  cases f with
  | interface =>
      obtain ⟨rfl, -⟩ := h
      refine strndup_append ((toNat_strlen_sub ?_ hshort).trans ?_) [quote, semicolon]
      · simp
      · simp
  | address => exact h.1.elim (hvalue _) (hvalue _)
  | gateway => exact h.1.elim (hvalue _) (hvalue _)
  | netmask => exact h.1.elim (hvalue _) (hvalue _)

theorem next_eq (hn : n ≤ intMax) :
    LeaseTable.next ⟨n - 1, leases⟩ = some ⟨(n + 1 : ℕ) - 1, leases⟩ := by
  rw [LeaseTable.next, if_pos (by dsimp only; omega)]
  simp

theorem next_eq_none (hn : intMax < n) : LeaseTable.next ⟨n - 1, leases⟩ = none :=
  if_neg (by dsimp only; omega)

theorem store_eq {g : GivenField} (hg : g.InTable) :
    LeaseTable.store ⟨g.stanza - 1, leases⟩ g.field (clip g.field g.word) =
      some ⟨g.stanza - 1, putField leases g⟩ := by
  obtain ⟨hlow, hhigh⟩ := hg
  have hindex : ((g.stanza : ℤ) - 1).toNat = g.stanza - 1 := by omega
  rw [LeaseTable.store, if_pos (by dsimp only; omega)]
  simp only [hindex, putField]

theorem store_eq_none {g : GivenField} (hg : ¬g.InTable) (s : List UInt8) :
    LeaseTable.store ⟨g.stanza - 1, leases⟩ g.field s = none :=
  if_neg fun h => hg ⟨by dsimp only at h; omega, by dsimp only at h; omega⟩

/-- A run succeeds as long as its fields stand in the first stanzas, and then stores them in
their order. -/
theorem foldlM_exec_eq_some_iff (hn : n ≤ intMax + 1) {t : LeaseTable} :
    stmts.foldlM LeaseTable.exec ⟨n - 1, leases⟩ = some t ↔
      (∀ g ∈ givenFrom n stmts, g.InTable) ∧ (n + stmts.count .lease : ℕ) ≤ intMax + 1 ∧
        t = ⟨(n + stmts.count .lease : ℕ) - 1, (givenFrom n stmts).foldl putField leases⟩ := by
  induction stmts generalizing n leases with
  | nil =>
      rw [List.foldlM_nil, givenFrom, List.count_nil, Nat.add_zero, and_iff_right hn,
        and_iff_right fun _ h => absurd h List.not_mem_nil, Option.pure_def, Option.some.injEq,
        List.foldl_nil]
      exact eq_comm
  | cons s stmts ih =>
      cases s with
      | lease =>
          rw [List.foldlM_cons, LeaseTable.exec, givenFrom, List.count_cons_self]
          by_cases hlt : (n : ℤ) ≤ intMax
          · have hle : ((n + 1 : ℕ) : ℤ) ≤ intMax + 1 := by omega
            rw [next_eq hlt, Option.bind_eq_bind, Option.bind_some, ih hle, Nat.add_right_comm]
            rfl
          · rw [next_eq_none (Int.not_le.mp hlt)]
            simp only [Option.bind_eq_bind, Option.bind_none, reduceCtorEq, false_iff]
            intro h
            omega
      | field f w =>
          rw [List.foldlM_cons, LeaseTable.exec, givenFrom, List.count_cons_of_ne (by simp),
            List.forall_mem_cons]
          by_cases hg : GivenField.InTable ⟨n, f, w⟩
          · rw [show _ = _ from store_eq hg, Option.bind_eq_bind, Option.bind_some, ih hn,
              and_iff_right hg, List.foldl_cons]
          · rw [show _ = _ from store_eq_none hg (clip f w)]
            simp [hg]
      | other =>
          rw [List.foldlM_cons, LeaseTable.exec, givenFrom, List.count_cons_of_ne (by simp),
            Option.bind_eq_bind, Option.bind_some, ih hn]

/-! ## The fields of the table -/

theorem putField_apply {g : GivenField} (hg : g.InTable) (k : ℕ) (f : LeaseField) :
    putField leases g k f =
      if g.stanza = k + 1 ∧ g.field = f then some (clip f g.word) else leases k f := by
  have hk : k = g.stanza - 1 ↔ g.stanza = k + 1 := by
    have hlow := hg.1
    omega
  by_cases hstanza : g.stanza = k + 1
  · obtain rfl := hk.mpr hstanza
    rw [putField, Function.update_self]
    by_cases hfield : g.field = f
    · subst hfield
      rw [Function.update_self, if_pos ⟨hstanza, rfl⟩]
    · rw [Function.update_of_ne (Ne.symm hfield), if_neg fun h => hfield h.2]
  · rw [putField, Function.update_of_ne (mt hk.mp hstanza), if_neg fun h => hstanza h.1]

theorem lastWord_cons (g : GivenField) (given : List GivenField) (k : ℕ) (f : LeaseField) :
    lastWord (g :: given) k f =
      (lastWord given k f).or (if g.stanza = k + 1 ∧ g.field = f then some g.word else none) := by
  rw [lastWord, List.filter_cons]
  by_cases hg : g.stanza = k + 1 ∧ g.field = f
  · simp only [hg, and_self, decide_true, ↓reduceIte, List.getLast?_cons, Option.map_some, lastWord]
    cases (given.filter fun g => g.stanza = k + 1 ∧ g.field = f).getLast? <;> rfl
  · simp [hg, lastWord]

/-- The last word that is given wins. -/
theorem foldl_putField {given : List GivenField} (h : ∀ g ∈ given, g.InTable) (k : ℕ)
    (f : LeaseField) :
    given.foldl putField leases k f = ((lastWord given k f).map (clip f)).or (leases k f) := by
  induction given generalizing leases with
  | nil => rfl
  | cons g given ih =>
      obtain ⟨hg, hgiven⟩ := List.forall_mem_cons.mp h
      rw [List.foldl_cons, ih hgiven, putField_apply hg, lastWord_cons]
      cases lastWord given k f with
      | some w => rfl
      | none => by_cases hlast : g.stanza = k + 1 ∧ g.field = f <;> simp [hlast]

/-- The table that a file with these statements leaves. -/
def tableOf (stmts : List LeaseStmt) : LeaseTable where
  substreams := (stmts.count .lease : ℕ) - 1
  leases := (givenFrom 0 stmts).foldl putField fun _ _ => none

theorem tableOf_substreams : (tableOf stmts).substreams = (stmts.count .lease : ℕ) - 1 := rfl

theorem tableOf_leases (h : ∀ g ∈ givenFrom 0 stmts, g.InTable) (k : ℕ) (f : LeaseField) :
    (tableOf stmts).leases k f = (lastWord (givenFrom 0 stmts) k f).map (clip f) :=
  (foldl_putField h k f).trans Option.or_none

/-- `readLease` can execute its statements as long as the fields stand in the first stanzas. -/
theorem exec_eq_some_iff {t : LeaseTable} :
    stmts.foldlM LeaseTable.exec LeaseReader.start.table = some t ↔
      (∀ g ∈ givenFrom 0 stmts, g.InTable) ∧ (stmts.count .lease : ℕ) ≤ intMax + 1 ∧
        t = tableOf stmts := by
  have hstart : LeaseReader.start.table = ⟨(0 : ℕ) - 1, fun _ _ => none⟩ := rfl
  rw [hstart, foldlM_exec_eq_some_iff (by decide), Nat.zero_add]
  rfl

end Ctcp
