import Ctcp.Model.Negotiate

/-! # `readnb` and `writenb` read and write all, or fail -/

namespace Ctcp

open Program

abbrev SocksTalk := Talk UInt8 Question Told

variable {I : SocksTalk → Prop} {t : SocksTalk}

/-- A `char` has a sign. -/
theorem charVal_eq (b : UInt8) :
    charVal b = if b.toNat < 128 then (b.toNat : ℤ) else b.toNat - 256 := by
  have hval : charVal b = b.toBitVec.toInt := rfl
  have hnat : b.toBitVec.toNat = b.toNat := rfl
  rw [hval, BitVec.toInt_eq_toNat_cond, hnat]
  split <;> split <;> omega

/-! ## `readnb` -/

section

variable {post : SocksTalk → Except Stop (List UInt8) → Prop}

theorem keeps_readLoop (hhear : ∀ t bs, I t → I (t.hear bs)) {got : List UInt8} {left : ℕ}
    (hI : I t)
    (hok : ∀ bs : List UInt8, bs.length = left → 0 < left → post (t.hear bs) (.ok (got ++ bs)))
    (herror : ∀ bs : List UInt8, bs.length ≤ left →
      post (t.hear bs) (.error (.err .errRead))) :
    (readLoop got left).Keeps Answers I post t := by
  induction left using Nat.strongRecOn generalizing t got with
  | ind left ih =>
      rw [readLoop]
      refine keeps_read (fun bs hbs => ⟨hhear t bs hI, ?_⟩) ⟨hI, ?_⟩
      · cases bs with
        | nil => exact herror [] (Nat.zero_le _)
        | cons b bs =>
            have hlen : bs.length + 1 ≤ left := hbs
            change Program.Keeps Answers I post _ (if _ then _ else _)
            split
            case isTrue hlt =>
              apply ih _ (by omega) (hhear t _ hI)
              · intro bs' hbs' _
                rw [Talk.hear_hear, List.append_assoc]
                exact hok _ (by simp [hbs']; omega) (by omega)
              · intro bs' hbs'
                rw [Talk.hear_hear]
                exact herror _ (by simp; omega)
            case isFalse hge =>
              exact hok _ (by simp; omega) (by omega)
      · have herr := herror [] (Nat.zero_le _)
        rwa [Talk.hear_nil] at herr

/-- A count that is not positive never succeeds. -/
theorem keeps_readnb (hhear : ∀ t bs, I t → I (t.hear bs)) {room : ℕ} {cnt : ℤ} (hI : I t)
    (hok : ∀ bs : List UInt8, (bs.length : ℤ) = cnt → 0 < cnt → post (t.hear bs) (.ok bs))
    (herror : ∀ bs : List UInt8, post (t.hear bs) (.error (.err .errRead)))
    (hroom : cnt ≤ room) : (readnb room cnt).Keeps Answers I post t := by
  rw [readnb]
  split
  case isTrue =>
    have herr := herror []
    rwa [Talk.hear_nil] at herr
  case isFalse hpos =>
    rw [if_neg (Int.not_lt.mpr hroom)]
    apply keeps_readLoop hhear hI
    · intro bs hbs hpos
      exact hok bs (by omega) (by omega)
    · exact fun bs _ => herror bs

end

/-- A constant count that fits. -/
theorem keeps_readnb_andThen {α : Type} {post : SocksTalk → Except Stop α → Prop}
    (hhear : ∀ t bs, I t → I (t.hear bs)) {room n : ℕ} {f : List UInt8 → SocksProgram α}
    (hI : I t) (hn : n ≤ room)
    (herror : ∀ bs : List UInt8, post (t.hear bs) (.error (.err .errRead)))
    (hok : ∀ bs : List UInt8, bs.length = n → I (t.hear bs) →
      (f bs).Keeps Answers I post (t.hear bs)) :
    ((readnb room n).andThen f).Keeps Answers I post t := by
  have hread : (readnb room n).Keeps Answers I
      (fun t' r => match r with
        | .ok bs => bs.length = n ∧ t' = t.hear bs
        | .error stop => post t' (.error stop)) t := by
    apply keeps_readnb hhear hI
    · exact fun bs hbs _ => ⟨by omega, rfl⟩
    · exact herror
    · exact_mod_cast hn
  refine hread.andThen hI ?_ ?_
  · rintro t' bs hI' ⟨hbs, rfl⟩
    exact hok bs hbs hI'
  · exact fun t' stop h => h

/-- A count from a byte: one that succeeds is the length of what is read. -/
theorem keeps_readnb_char_andThen {α : Type} {post : SocksTalk → Except Stop α → Prop}
    (hhear : ∀ t bs, I t → I (t.hear bs)) {room : ℕ} {c : UInt8} {f : List UInt8 → SocksProgram α}
    (hI : I t) (hroom : 127 ≤ room)
    (herror : ∀ bs : List UInt8, post (t.hear bs) (.error (.err .errRead)))
    (hok : ∀ bs : List UInt8, 0 < bs.length → bs.length < 128 → c = bs.length.toUInt8 →
      I (t.hear bs) → (f bs).Keeps Answers I post (t.hear bs)) :
    ((readnb room (charVal c)).andThen f).Keeps Answers I post t := by
  have hval := charVal_eq c
  have hlt := c.toNat_lt
  have hread : (readnb room (charVal c)).Keeps Answers I
      (fun t' r => match r with
        | .ok bs => 0 < bs.length ∧ bs.length < 128 ∧ c = bs.length.toUInt8 ∧ t' = t.hear bs
        | .error stop => post t' (.error stop)) t := by
    apply keeps_readnb hhear hI
    · intro bs hbs hpos
      split at hval
      · have hlen : bs.length = c.toNat := by omega
        refine ⟨by omega, by omega, ?_, rfl⟩
        rw [hlen, Nat.toUInt8_eq, UInt8.ofNat_toNat]
      · omega
    · exact herror
    · split at hval <;> omega
  refine hread.andThen hI ?_ ?_
  · rintro t' bs hI' ⟨hpos, hsmall, hc, rfl⟩
    exact hok bs hpos hsmall hc hI'
  · exact fun t' stop h => h

/-! ## `writenb` -/

theorem keeps_writenb {post : SocksTalk → Except Stop Unit → Prop}
    (hfails : ∀ t, I t → I t.fails) {bytes : List UInt8} (hI : I t)
    (hsay : t.broken = false → ∀ n, I (t.say (bytes.take n)))
    (hok : t.broken = false → post (t.say bytes) (.ok ()))
    (herror : ∀ n, (0 < n → t.broken = false) →
      post (t.say (bytes.take n)).fails (.error (.err .errWrite))) :
    (writenb bytes).Keeps Answers I post t := by
  induction hlen : bytes.length using Nat.strongRecOn generalizing t bytes with
  | ind len ih =>
      rw [writenb]
      refine keeps_write (fun n hopen hpos hn => ⟨hsay hopen n, ?_⟩) ⟨hfails t hI, ?_⟩
      · change Program.Keeps Answers I post _ (if _ then _ else _)
        rw [if_neg (Nat.ne_of_gt hpos)]
        split
        case isTrue hlt =>
          have hsplit (m : ℕ) : bytes.take n ++ (bytes.drop n).take m = bytes.take (n + m) :=
            List.take_add.symm
          refine ih (bytes.drop n).length (by simp; omega) (hsay hopen n) (fun _ m => ?_)
            (fun _ => ?_) (fun m hm => ?_) rfl
          · rw [Talk.say_say, hsplit]
            exact hsay hopen _
          · rw [Talk.say_say, List.take_append_drop]
            exact hok hopen
          · rw [Talk.say_say, hsplit]
            exact herror _ fun _ => hopen
        case isFalse hge =>
          have hall : bytes.take n = bytes := List.take_of_length_le (Nat.not_lt.mp hge)
          rw [hall]
          exact hok hopen
      · have herr := herror 0 (fun h => absurd h (Nat.lt_irrefl 0))
        rw [List.take_zero, Talk.say_nil] at herr
        exact herr

end Ctcp
