import Ctcp.Verification.Lease.Statements

/-! # `readLease` and the statements of its file

While every line has the words that its statement needs, a line has the effect of its
statement; from the first other line on, `readLease` works with words of earlier lines. -/

namespace Ctcp

/-- The words of a line that `sscanf` reads fit into the buffers. -/
def LineFits (l : List UInt8) : Prop := ∀ w ∈ (scanWords l).take 3, w.length < 64

instance (l : List UInt8) : Decidable (LineFits l) :=
  inferInstanceAs (Decidable (∀ w ∈ (scanWords l).take 3, w.length < 64))

/-- The buffer after a conversion for which there is room. -/
def ScanBuffer.put (buf : ScanBuffer) : Option (List UInt8) → ScanBuffer
  | none => { buf with fresh := false }
  | some w => { word := some w, fresh := true }

/-- The effect of a line that is a statement. -/
def execLine (t : LeaseTable) (l : List UInt8) : Option LeaseTable :=
  if LineFits l then (leaseStmt (scanWords l)).bind t.exec else none

namespace LeaseReader

/-- The table, if no word that was left over has been used. -/
def clean (r : LeaseReader) : Option LeaseTable := if r.leftover then none else some r.table

variable {r : LeaseReader} {buf : ScanBuffer} {l : List UInt8}

@[simp] theorem clean_of_leftover (h : r.leftover = true) : r.clean = none := if_pos h

@[simp] theorem clean_of_not_leftover (h : r.leftover = false) : r.clean = some r.table :=
  if_neg (by simp [h])

theorem clean_eq_some_iff {t : LeaseTable} :
    r.clean = some t ↔ r.leftover = false ∧ r.table = t := by
  cases h : r.leftover <;> simp [h]

/-! ## Steps of the body -/

theorem lineFits_iff :
    LineFits l ↔
      (∀ w ∈ (scanWords l)[0]?, w.length < 64) ∧ (∀ w ∈ (scanWords l)[1]?, w.length < 64) ∧
        ∀ w ∈ (scanWords l)[2]?, w.length < 64 := by
  rw [LineFits]
  match scanWords l with
  | [] => simp
  | [u] => simp
  | [u, v] => simp
  | u :: v :: w :: rest => simp

theorem scan_eq (o : Option (List UInt8)) :
    buf.scan o = if ∀ w ∈ o, w.length < 64 then some (buf.put o) else none := by
  cases o <;> simp [ScanBuffer.scan, ScanBuffer.put]

theorem sscanf_eq (r : LeaseReader) (l : List UInt8) :
    r.sscanf l =
      if LineFits l then
        some
          { r with
            type := r.type.put (scanWords l)[0]?
            val1 := r.val1.put (scanWords l)[1]?
            val2 := r.val2.put (scanWords l)[2]? }
      else none := by
  rw [sscanf, scan_eq, scan_eq, scan_eq]
  by_cases hfits : LineFits l
  · obtain ⟨h0, h1, h2⟩ := lineFits_iff.mp hfits
    rw [if_pos hfits, if_pos h0, if_pos h1, if_pos h2]
    rfl
  · rw [if_neg hfits]
    split
    next h0 =>
      split
      next h1 =>
        split
        next h2 => exact absurd (lineFits_iff.mpr ⟨h0, h1, h2⟩) hfits
        next => rfl
      next => rfl
    next => rfl

theorem next_clean : r.next.bind clean = r.clean.bind LeaseTable.next := by
  cases hr : r.leftover <;> cases ht : r.table.next <;> simp [next, hr, ht]

theorem store_clean (f : LeaseField) (s : List UInt8) :
    (r.store f s).bind clean = r.clean.bind fun t => t.store f s := by
  cases hr : r.leftover <;> cases ht : r.table.store f s <;> simp [store, hr, ht]

variable {k : List UInt8 × LeaseReader → Option LeaseReader}

/-- A word that was left over is used, or has been. -/
theorem use_bind_of_leftover (h : (r.leftover || !buf.fresh) = true)
    (hk : ∀ w r', r'.leftover = true → (k (w, r')).bind clean = none) :
    ((r.use buf).bind k).bind clean = none := by
  cases hword : buf.word with
  | none => simp [use, hword]
  | some w =>
      simp only [use, hword, Option.bind_eq_bind, Option.bind_some, Option.pure_def]
      exact hk w _ h

theorem use_bind_clean (hk : ∀ w r', r'.leftover = true → (k (w, r')).bind clean = none)
    (o : Option (List UInt8)) :
    ((r.use (buf.put o)).bind k).bind clean =
      r.clean.bind fun _ => o.bind fun w => (k (w, r)).bind clean := by
  cases o with
  | none =>
      rw [use_bind_of_leftover (by simp [ScanBuffer.put]) hk]
      cases r.clean <;> rfl
  | some w =>
      cases hr : r.leftover with
      | false =>
          simp only [use, ScanBuffer.put, Option.bind_eq_bind, Option.bind_some, Option.pure_def,
            Bool.not_true, Bool.or_false, clean_of_not_leftover hr]
      | true => rw [use_bind_of_leftover (by simp [hr]) hk, clean_of_leftover hr, Option.bind_none]

theorem store_of_leftover (h : r.leftover = true) (f : LeaseField) (s : List UInt8) :
    (r.store f s).bind clean = none := by
  rw [store_clean, clean_of_leftover h, Option.bind_none]

theorem clean_bind_of_eq {x : Option LeaseTable} {g : LeaseTable → Option LeaseTable}
    (h : x = r.clean.bind g) : (r.clean.bind fun _ => x) = r.clean.bind g := by
  rw [h]
  cases r.clean <;> rfl

/-- A word is read, cut and stored. -/
theorem use_store_clean (f : LeaseField) (o : Option (List UInt8)) :
    ((r.use (buf.put o)).bind fun x => x.2.store f (clip f x.1)).bind clean =
      r.clean.bind fun t => (o.map (LeaseStmt.field f)).bind t.exec := by
  rw [use_bind_clean fun w r' h => store_of_leftover h f (clip f w)]
  cases o with
  | none => rfl
  | some w => exact clean_bind_of_eq (store_clean f (clip f w))

theorem option_of_leftover (h : r.leftover = true) (val1 : List UInt8) :
    (r.option val1).bind clean = none := by
  have hused : (r.leftover || !r.val2.fresh) = true := by simp [h]
  rw [option]
  split
  next => exact use_bind_of_leftover hused fun w r' h => store_of_leftover h .netmask _
  split
  next => exact use_bind_of_leftover hused fun w r' h => store_of_leftover h .gateway _
  next => exact clean_of_leftover h

theorem dispatch_of_leftover (h : r.leftover = true) (type : List UInt8) :
    (r.dispatch type).bind clean = none := by
  have hused : (r.leftover || !r.val1.fresh) = true := by simp [h]
  rw [dispatch]
  split
  next => exact clean_of_leftover h
  split
  next => rw [next_clean, clean_of_leftover h, Option.bind_none]
  split
  next => exact use_bind_of_leftover hused fun w r' h => store_of_leftover h .address _
  split
  next => exact use_bind_of_leftover hused fun w r' h => store_of_leftover h .interface _
  split
  next => exact use_bind_of_leftover hused fun w r' h => option_of_leftover h w
  next => exact clean_of_leftover h

/-- The words of the line are those of its statement. -/
theorem dispatch_clean {vals : List (List UInt8)} {val1 val2 : ScanBuffer}
    (h1 : r.val1 = val1.put vals[0]?) (h2 : r.val2 = val2.put vals[1]?) (type : List UInt8) :
    (r.dispatch type).bind clean =
      r.clean.bind fun t => (leaseStmt (type :: vals)).bind t.exec := by
  have hother : r.clean = r.clean.bind some := (Option.bind_fun_some r.clean).symm
  rw [dispatch, leaseStmt, h1]
  split
  next => exact hother
  split
  next => exact next_clean
  split
  next => exact use_store_clean .address vals[0]?
  split
  next => exact use_store_clean .interface vals[0]?
  split
  next =>
    rw [Option.bind_eq_bind, use_bind_clean fun w r' h => option_of_leftover h w]
    cases vals[0]? with
    | none => rfl
    | some name =>
        refine clean_bind_of_eq ?_
        simp only [option, h2, Option.bind_some]
        split
        next => exact use_store_clean .netmask vals[1]?
        split
        next => exact use_store_clean .gateway vals[1]?
        next => exact hother
  next => exact hother

/-- One round of the loop. -/
theorem body_clean (r : LeaseReader) (l : List UInt8) :
    (r.body l).bind clean = r.clean.bind (execLine · l) := by
  rw [body, sscanf_eq]
  simp only [execLine]
  split
  next =>
    rw [Option.bind_eq_bind, Option.bind_some, Option.bind_eq_bind,
      use_bind_clean fun w r' h => dispatch_of_leftover h w]
    cases scanWords l with
    | nil => rfl
    | cons type vals => exact clean_bind_of_eq (dispatch_clean rfl rfl type)
  next => cases r.clean <;> rfl

theorem body_append_newline (r : LeaseReader) (l : List UInt8) :
    r.body (l ++ [newline]) = r.body l := by
  rw [body, body, sscanf, sscanf, scanWords_append_newline]

end LeaseReader

/-! ## Runs of the loop -/

/-- The lines of the file that are statements. -/
def statements (fp : List UInt8) : List LeaseStmt :=
  (lines fp).filterMap fun l => leaseStmt (scanWords l)

theorem foldlM_execLine_eq_some_iff {ls : List (List UInt8)} {t t' : LeaseTable} :
    ls.foldlM execLine t = some t' ↔
      (∀ l ∈ ls, LineFits l ∧ (leaseStmt (scanWords l)).isSome) ∧
        (ls.filterMap fun l => leaseStmt (scanWords l)).foldlM LeaseTable.exec t = some t' := by
  induction ls generalizing t with
  | nil => simp
  | cons l ls ih =>
      rw [List.foldlM_cons, List.forall_mem_cons, List.filterMap_cons, execLine]
      by_cases hfits : LineFits l
      · rw [if_pos hfits]
        cases leaseStmt (scanWords l) with
        | none => simp
        | some s =>
            simp only [Option.bind_eq_bind, Option.bind_some, List.foldlM_cons, Option.isSome_some,
              and_true]
            cases t.exec s with
            | none => simp
            | some t₁ => simp only [Option.bind_some, ih, hfits, true_and]
      · simp [hfits]

/-- A whole run without a word that was left over is the run of the statements. -/
theorem foldFgets_clean {fp : List UInt8} (hshort : ∀ l ∈ lines fp, l.length < 127) :
    (foldFgets 128 LeaseReader.body (fp.length + 1) .start fp).bind LeaseReader.clean =
      (lines fp).foldlM execLine LeaseReader.start.table := by
  rw [foldFgets_eq_foldlM LeaseReader.body_append_newline hshort (Nat.lt_succ_self _),
    foldlM_bind_of_step LeaseReader.body_clean]
  rfl

/-- The runs that do not use a word that was left over. -/
theorem foldFgets_eq_some_iff {fp : List UInt8} (hshort : ∀ l ∈ lines fp, l.length < 127)
    {t : LeaseTable} :
    (∃ r, foldFgets 128 LeaseReader.body (fp.length + 1) .start fp = some r ∧
        r.leftover = false ∧ r.table = t) ↔
      (∀ l ∈ lines fp, LineFits l ∧ (leaseStmt (scanWords l)).isSome) ∧
        (∀ g ∈ givenFrom 0 (statements fp), g.InTable) ∧
          ((statements fp).count .lease : ℕ) ≤ intMax + 1 ∧ t = tableOf (statements fp) := by
  simp only [← LeaseReader.clean_eq_some_iff, ← Option.bind_eq_some_iff]
  rw [foldFgets_clean hshort, foldlM_execLine_eq_some_iff, ← statements, exec_eq_some_iff]

theorem readLease_eq_some_iff {fp : List UInt8} {n : ℤ} {r : LeaseReader} :
    readLease (some fp) = some (n, r) ↔
      foldFgets 128 LeaseReader.body (fp.length + 1) .start fp = some r ∧
        r.table.substreams < intMax ∧ n = r.table.substreams + 1 := by
  rw [readLease]
  cases foldFgets 128 LeaseReader.body (fp.length + 1) .start fp with
  | none => simp
  | some r' =>
      simp only [Option.bind_eq_bind, Option.bind_some, Option.some.injEq]
      split
      next hlt =>
        simp only [Option.pure_def, Option.some.injEq, Prod.mk.injEq]
        constructor
        · rintro ⟨rfl, rfl⟩
          exact ⟨rfl, hlt, rfl⟩
        · rintro ⟨rfl, -, rfl⟩
          exact ⟨rfl, rfl⟩
      next hlt =>
        simp only [reduceCtorEq, false_iff]
        rintro ⟨rfl, h, -⟩
        exact hlt h

/-! ## Reading a lease file right -/

/-- `readLease` returns the number of `lease` lines and has stored what the stanzas give. -/
def ReadsLeases (fp : List UInt8) : Prop :=
  ∃ r : LeaseReader,
    readLease (some fp) = some (((statements fp).count .lease : ℤ), r) ∧ r.leftover = false ∧
      ∀ k f, Option.Rel (Gives f) (lastWord (givenFrom 0 (statements fp)) k f) (r.table.leases k f)

/-- Every line has the words that its statement needs, short enough for the buffers; the fields
are given in the first stanzas, and their values are terminated. -/
structure LeaseFileOk (fp : List UInt8) : Prop where
  readable : ∀ l ∈ lines fp, LineFits l ∧ (leaseStmt (scanWords l)).isSome
  inTable : ∀ g ∈ givenFrom 0 (statements fp), g.InTable
  count_le : (statements fp).count .lease ≤ intMax
  terminated : ∀ k f w, lastWord (givenFrom 0 (statements fp)) k f = some w → ∃ v, Gives f w v

theorem mem_of_leaseStmt {ws : List (List UInt8)} {f : LeaseField} {w : List UInt8}
    (h : leaseStmt ws = some (.field f w)) : w ∈ ws.take 3 := by
  have hval {f' : LeaseField} {i : ℕ} (hi : i < 3) (h : ws[i]?.map (LeaseStmt.field f') =
      some (.field f w)) : w ∈ ws.take 3 := by
    obtain ⟨v, hv, heq⟩ := Option.map_eq_some_iff.mp h
    cases heq
    exact List.mem_of_getElem? ((List.getElem?_take_of_lt hi).trans hv)
  cases ws with
  | nil => cases h
  | cons type vals =>
      rw [leaseStmt] at h
      split at h
      next => cases h
      split at h
      next => cases h
      split at h
      next => exact hval (by decide : 1 < 3) h
      split at h
      next => exact hval (by decide : 1 < 3) h
      split at h
      next =>
        obtain ⟨name, -, h⟩ := Option.bind_eq_some_iff.mp h
        split at h
        next => exact hval (by decide : 2 < 3) h
        split at h
        next => exact hval (by decide : 2 < 3) h
        next => cases h
      next => cases h

theorem mem_of_givenFrom {stmts : List LeaseStmt} {n : ℕ} {g : GivenField}
    (h : g ∈ givenFrom n stmts) : .field g.field g.word ∈ stmts := by
  induction stmts generalizing n with
  | nil => cases h
  | cons s stmts ih =>
      cases s with
      | lease => exact .tail _ (ih h)
      | field f w =>
          rcases List.mem_cons.mp h with rfl | h
          · exact .head _
          · exact .tail _ (ih h)
      | other => exact .tail _ (ih h)

theorem mem_of_lastWord {given : List GivenField} {k : ℕ} {f : LeaseField} {w : List UInt8}
    (h : lastWord given k f = some w) : ∃ g ∈ given, g.field = f ∧ g.word = w := by
  obtain ⟨g, hlast, rfl⟩ := Option.map_eq_some_iff.mp h
  obtain ⟨hg, hwhere⟩ := List.mem_filter.mp (List.mem_of_getLast? hlast)
  exact ⟨g, hg, (of_decide_eq_true hwhere).2, rfl⟩

theorem length_lt_of_lastWord {fp : List UInt8} (hfits : ∀ l ∈ lines fp, LineFits l) {k : ℕ}
    {f : LeaseField} {w : List UInt8} (h : lastWord (givenFrom 0 (statements fp)) k f = some w) :
    w.length < 64 := by
  obtain ⟨g, hg, rfl, rfl⟩ := mem_of_lastWord h
  obtain ⟨l, hl, hstmt⟩ := List.mem_filterMap.mp (mem_of_givenFrom hg)
  exact hfits l hl _ (mem_of_leaseStmt hstmt)

theorem readsLeases_iff (fp : List UInt8) (hshort : ∀ l ∈ lines fp, l.length < 127) :
    ReadsLeases fp ↔ LeaseFileOk fp := by
  constructor
  · rintro ⟨r, hread, hleft, hstored⟩
    obtain ⟨hrun, hmax, hcount⟩ := readLease_eq_some_iff.mp hread
    obtain ⟨hreadable, htable, -, heq⟩ := (foldFgets_eq_some_iff hshort).mp ⟨r, hrun, hleft, rfl⟩
    refine ⟨hreadable, htable, by omega, fun k f w hw => ?_⟩
    have hrel := hstored k f
    rw [heq, tableOf_leases htable, hw] at hrel
    exact ⟨clip f w, Option.rel_some_some.mp hrel⟩
  · intro h
    have hcount := h.count_le
    obtain ⟨r, hrun, hleft, heq⟩ :=
      (foldFgets_eq_some_iff hshort).mpr ⟨h.readable, h.inTable, by omega, rfl⟩
    refine ⟨r, readLease_eq_some_iff.mpr ⟨hrun, ?_, ?_⟩, hleft, fun k f => ?_⟩
    · rw [heq, tableOf_substreams]
      omega
    · rw [heq, tableOf_substreams, Int.sub_add_cancel]
    · rw [heq, tableOf_leases h.inTable]
      cases hw : lastWord (givenFrom 0 (statements fp)) k f with
      | none => exact .none
      | some w =>
          obtain ⟨v, hv⟩ := h.terminated k f w hw
          have hlength := length_lt_of_lastWord (fun l hl => (h.readable l hl).1) hw
          refine Option.rel_some_some.mpr ?_
          rwa [clip_of_gives hv hlength]

/-- Two stanzas; the second has two routers. -/
def twoStanzas : List UInt8 :=
  ascii "lease \x7b\n interface \"eth0\";\n fixed-address 10.0.0.2;\n\x7d\n" ++
    ascii "lease \x7b\n option routers 10.1.0.1, 10.1.0.9;\n\x7d\n"

theorem readsLeases_twoStanzas : ReadsLeases twoStanzas := by
  have hgiven : givenFrom 0 (statements twoStanzas) =
      [⟨1, .interface, ascii "\"eth0\";"⟩, ⟨1, .address, ascii "10.0.0.2;"⟩,
        ⟨2, .gateway, ascii "10.1.0.1,"⟩] := by decide
  refine (readsLeases_iff twoStanzas (by decide)).mpr ⟨by decide, ?_, by decide, ?_⟩
  · rw [hgiven]
    decide
  · intro k f w hw
    obtain ⟨g, hg, rfl, rfl⟩ := mem_of_lastWord (hgiven ▸ hw)
    simp only [List.mem_cons, List.not_mem_nil, or_false] at hg
    rcases hg with rfl | rfl | rfl
    · exact ⟨ascii "eth0", rfl, by decide⟩
    · exact ⟨ascii "10.0.0.2", .inl rfl, by decide⟩
    · exact ⟨ascii "10.1.0.1", .inr rfl, by decide⟩

/-- The blank line makes a second lease of the first one. -/
def blankLine : List UInt8 := ascii "lease \x7b\n\n interface \"eth0\";\n\x7d\n"

theorem not_readsLeases_blankLine :
    (∀ l ∈ lines blankLine, l.length < 127) ∧ ¬ReadsLeases blankLine := by
  refine ⟨by decide, ?_⟩
  rintro ⟨r, hread, -⟩
  have hresult : (readLease (some blankLine)).map Prod.fst = some 2 := by decide
  have hcount : (statements blankLine).count .lease = 1 := by decide
  rw [hread, hcount] at hresult
  cases hresult

end Ctcp
