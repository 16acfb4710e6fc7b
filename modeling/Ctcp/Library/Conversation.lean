import Ctcp.Library.Execution
import Ctcp.Library.Program

/-! # Programs that talk over a stream

A party reads from one stream, writes to another and asks its surroundings. What it has
heard, said and been told is all that its peer can know of it, so what one party keeps is
shown for the party alone and then used for two of them that are connected. -/

namespace Ctcp

/-- Calls on a stream of `β`, and questions from `Q`. -/
inductive StreamCall (β Q : Type) where
  | read (n : ℕ)
  | write (bs : List β)
  | ask (q : Q)

/-- `got []` is the end of the stream. -/
inductive StreamReply (β A : Type) where
  | got (bs : List β)
  | wrote (n : ℕ)
  | answer (a : A)
  | failed

/-- What a party has heard and said, whether a write has failed, and what it was told. -/
structure Talk (β Q A : Type) where
  heard : List β
  said : List β
  broken : Bool
  told : List (Q × A)

variable {β Q A : Type} {α γ : Type*}

namespace Talk

def start : Talk β Q A := ⟨[], [], false, []⟩

def hear (t : Talk β Q A) (bs : List β) : Talk β Q A := { t with heard := t.heard ++ bs }

def say (t : Talk β Q A) (bs : List β) : Talk β Q A := { t with said := t.said ++ bs }

def fails (t : Talk β Q A) : Talk β Q A := { t with broken := true }

def tell (t : Talk β Q A) (q : Q) (a : A) : Talk β Q A := { t with told := t.told ++ [(q, a)] }

variable (t : Talk β Q A)

@[simp] theorem hear_heard (bs : List β) : (t.hear bs).heard = t.heard ++ bs := rfl

@[simp] theorem hear_said (bs : List β) : (t.hear bs).said = t.said := rfl

@[simp] theorem hear_broken (bs : List β) : (t.hear bs).broken = t.broken := rfl

@[simp] theorem hear_told (bs : List β) : (t.hear bs).told = t.told := rfl

@[simp] theorem say_heard (bs : List β) : (t.say bs).heard = t.heard := rfl

@[simp] theorem say_said (bs : List β) : (t.say bs).said = t.said ++ bs := rfl

@[simp] theorem say_broken (bs : List β) : (t.say bs).broken = t.broken := rfl

@[simp] theorem say_told (bs : List β) : (t.say bs).told = t.told := rfl

@[simp] theorem fails_heard : t.fails.heard = t.heard := rfl

@[simp] theorem fails_said : t.fails.said = t.said := rfl

@[simp] theorem fails_broken : t.fails.broken = true := rfl

@[simp] theorem fails_told : t.fails.told = t.told := rfl

@[simp] theorem tell_heard (q : Q) (a : A) : (t.tell q a).heard = t.heard := rfl

@[simp] theorem tell_said (q : Q) (a : A) : (t.tell q a).said = t.said := rfl

@[simp] theorem tell_broken (q : Q) (a : A) : (t.tell q a).broken = t.broken := rfl

@[simp] theorem tell_told (q : Q) (a : A) : (t.tell q a).told = t.told ++ [(q, a)] := rfl

@[simp] theorem hear_nil : t.hear [] = t := by simp [hear]

@[simp] theorem say_nil : t.say [] = t := by simp [say]

@[simp] theorem hear_hear (bs bs' : List β) : (t.hear bs).hear bs' = t.hear (bs ++ bs') := by
  simp [hear]

@[simp] theorem say_say (bs bs' : List β) : (t.say bs).say bs' = t.say (bs ++ bs') := by
  simp [say]

end Talk

/-- The effect of a call. After a write that fails no other succeeds. -/
inductive TalkStep (allow : Q → A → Prop) :
    Talk β Q A → StreamCall β Q → StreamReply β A → Talk β Q A → Prop where
  | got {t : Talk β Q A} {n : ℕ} {bs : List β} (hn : bs.length ≤ n) :
      TalkStep allow t (.read n) (.got bs) (t.hear bs)
  | readFails {t : Talk β Q A} {n : ℕ} : TalkStep allow t (.read n) .failed t
  | wrote {t : Talk β Q A} {n : ℕ} {bs : List β} (hopen : t.broken = false) (hpos : 0 < n)
      (hn : n ≤ bs.length) :
      TalkStep allow t (.write bs) (.wrote n) (t.say (bs.take n))
  | writeFails {t : Talk β Q A} {bs : List β} :
      TalkStep allow t (.write bs) .failed t.fails
  | told {t : Talk β Q A} {q : Q} {a : A} (h : allow q a) :
      TalkStep allow t (.ask q) (.answer a) (t.tell q a)

/-- The effect of a call, computed. -/
def Talk.next (allow : Q → A → Prop) [∀ q a, Decidable (allow q a)] (t : Talk β Q A) :
    StreamCall β Q → StreamReply β A → Option (Talk β Q A)
  | .read n, .got bs => if bs.length ≤ n then some (t.hear bs) else none
  | .read _, .failed => some t
  | .write bs, .wrote n =>
    if t.broken = false ∧ 0 < n ∧ n ≤ bs.length then some (t.say (bs.take n)) else none
  | .write _, .failed => some t.fails
  | .ask q, .answer a => if allow q a then some (t.tell q a) else none
  | _, _ => none

theorem Talk.next_spec {allow : Q → A → Prop} [∀ q a, Decidable (allow q a)] {t t' : Talk β Q A}
    {c : StreamCall β Q} {r : StreamReply β A} (h : t.next allow c r = some t') :
    TalkStep allow t c r t' := by
  cases c <;> cases r <;> simp only [next, reduceCtorEq, Option.ite_none_right_eq_some,
    Option.some.injEq] at h
  case read.got => exact h.2 ▸ .got h.1
  case read.failed => exact h ▸ .readFails
  case write.wrote => exact h.2 ▸ .wrote h.1.1 h.1.2.1 h.1.2.2
  case write.failed => exact h ▸ .writeFails
  case ask.answer => exact h.2 ▸ .told h.1

/-! ## What a program keeps -/

abbrev StreamProgram (β Q A : Type) := Program (StreamCall β Q) (StreamReply β A)

variable {allow : Q → A → Prop} {I : Talk β Q A → Prop} {post : Talk β Q A → α → Prop}
  {t : Talk β Q A}

/-- After each call `I` holds, and at the end `post`. -/
def Program.Keeps (allow : Q → A → Prop) (I : Talk β Q A → Prop) (post : Talk β Q A → α → Prop) :
    Talk β Q A → StreamProgram β Q A α → Prop
  | t, .done a => post t a
  | t, .call c k => ∀ r t', TalkStep allow t c r t' → I t' ∧ (k r).Keeps allow I post t'

theorem Program.Keeps.mono {post' : Talk β Q A → α → Prop} {p : StreamProgram β Q A α}
    (h : p.Keeps allow I post t) (hpost : ∀ t a, post t a → post' t a) :
    p.Keeps allow I post' t := by
  induction p generalizing t with
  | done a => exact hpost t a h
  | call c k ih =>
      intro r t' hstep
      obtain ⟨hI, hk⟩ := h r t' hstep
      exact ⟨hI, ih r hk⟩

theorem Program.keeps_bind {post : Talk β Q A → γ → Prop} {p : StreamProgram β Q A α}
    {f : α → StreamProgram β Q A γ} :
    (p.bind f).Keeps allow I post t ↔
      p.Keeps allow I (fun t' a => (f a).Keeps allow I post t') t := by
  induction p generalizing t with
  | done a => rfl
  | call c k ih =>
      constructor
      · intro h r t' hstep
        exact ⟨(h r t' hstep).1, ih r |>.mp (h r t' hstep).2⟩
      · intro h r t' hstep
        exact ⟨(h r t' hstep).1, ih r |>.mpr (h r t' hstep).2⟩

/-- What is kept throughout is kept at the end. -/
theorem Program.Keeps.inv {p : StreamProgram β Q A α} (hI : I t) (h : p.Keeps allow I post t) :
    p.Keeps allow I (fun t a => I t ∧ post t a) t := by
  induction p generalizing t with
  | done a => exact ⟨hI, h⟩
  | call c k ih =>
      intro r t' hstep
      obtain ⟨hI', hk⟩ := h r t' hstep
      exact ⟨hI', ih r hI' hk⟩

/-- The rule for sequencing. -/
theorem Program.Keeps.bind {mid : Talk β Q A → α → Prop} {post : Talk β Q A → γ → Prop}
    {p : StreamProgram β Q A α} {f : α → StreamProgram β Q A γ} (hI : I t)
    (hp : p.Keeps allow I mid t) (hf : ∀ t a, I t → mid t a → (f a).Keeps allow I post t) :
    (p.bind f).Keeps allow I post t :=
  keeps_bind.mpr ((hp.inv hI).mono fun t a h => hf t a h.1 h.2)

/-- Go on with the result, unless it is an error. -/
def Program.andThen {C S ε : Type} (p : Program C S (Except ε α))
    (f : α → Program C S (Except ε γ)) : Program C S (Except ε γ) :=
  p.bind fun
    | .ok a => f a
    | .error e => .done (.error e)

theorem Program.Keeps.andThen {ε : Type} {mid : Talk β Q A → Except ε α → Prop}
    {post : Talk β Q A → Except ε γ → Prop} {p : StreamProgram β Q A (Except ε α)}
    {f : α → StreamProgram β Q A (Except ε γ)} (hI : I t) (hp : p.Keeps allow I mid t)
    (hok : ∀ t a, I t → mid t (.ok a) → (f a).Keeps allow I post t)
    (herror : ∀ t e, mid t (.error e) → post t (.error e)) :
    (p.andThen f).Keeps allow I post t := by
  refine hp.bind hI fun t r hI hr => ?_
  cases r with
  | ok a => exact hok t a hI hr
  | error e => exact herror t e hr

theorem Program.keeps_ask {q : Q} {k : StreamReply β A → StreamProgram β Q A α}
    (h : ∀ a, allow q a →
      I (t.tell q a) ∧ (k (.answer a)).Keeps allow I post (t.tell q a)) :
    Program.Keeps allow I post t (.call (.ask q) k) := by
  intro r t' hstep
  cases hstep with
  | told ha => exact h _ ha

theorem Program.keeps_read {n : ℕ} {k : StreamReply β A → StreamProgram β Q A α}
    (hgot : ∀ bs : List β, bs.length ≤ n →
      I (t.hear bs) ∧ (k (.got bs)).Keeps allow I post (t.hear bs))
    (hfailed : I t ∧ (k .failed).Keeps allow I post t) :
    Program.Keeps allow I post t (.call (.read n) k) := by
  intro r t' hstep
  cases hstep with
  | got hn => exact hgot _ hn
  | readFails => exact hfailed

theorem Program.keeps_write {bs : List β} {k : StreamReply β A → StreamProgram β Q A α}
    (hwrote : ∀ n, t.broken = false → 0 < n → n ≤ bs.length →
      I (t.say (bs.take n)) ∧ (k (.wrote n)).Keeps allow I post (t.say (bs.take n)))
    (hfailed : I t.fails ∧ (k .failed).Keeps allow I post t.fails) :
    Program.Keeps allow I post t (.call (.write bs) k) := by
  intro r t' hstep
  cases hstep with
  | wrote hopen hpos hn => exact hwrote _ hopen hpos hn
  | writeFails => exact hfailed

/-! ## Parties -/

/-- A program that may be run again, depending on what it has returned. -/
structure Role (β Q A : Type) (α : Type*) where
  allow : Q → A → Prop
  start : StreamProgram β Q A α
  again : α → Option (StreamProgram β Q A α)

/-- A party in the middle of its part. -/
structure Speaker (β Q A : Type) (α : Type*) where
  talk : Talk β Q A
  prog : StreamProgram β Q A α

inductive Role.Step (R : Role β Q A α) : Speaker β Q A α → Speaker β Q A α → Prop where
  | call {s : Speaker β Q A α} {c : StreamCall β Q} {k : StreamReply β A → StreamProgram β Q A α}
      {r : StreamReply β A} {t : Talk β Q A} (hprog : s.prog = .call c k)
      (h : TalkStep R.allow s.talk c r t) : R.Step s ⟨t, k r⟩
  | again {s : Speaker β Q A α} {a : α} {p : StreamProgram β Q A α} (hprog : s.prog = .done a)
      (h : R.again a = some p) : R.Step s ⟨s.talk, p⟩

def Role.begin (R : Role β Q A α) : Speaker β Q A α := ⟨.start, R.start⟩

/-- What a party keeps, whatever it hears and is told. -/
structure Role.Keeps (R : Role β Q A α) (I : Talk β Q A → Prop) (post : Talk β Q A → α → Prop) :
    Prop where
  init : I .start
  start : R.start.Keeps R.allow I post .start
  again : ∀ t a p, I t → post t a → R.again a = some p → p.Keeps R.allow I post t

structure Speaker.Sound (R : Role β Q A α) (I : Talk β Q A → Prop) (post : Talk β Q A → α → Prop)
    (s : Speaker β Q A α) : Prop where
  talk : I s.talk
  prog : s.prog.Keeps R.allow I post s.talk

variable {R : Role β Q A α} {s s' : Speaker β Q A α}

theorem Role.Keeps.begin (h : R.Keeps I post) : R.begin.Sound R I post := ⟨h.init, h.start⟩

theorem Role.Keeps.step (h : R.Keeps I post) (hs : s.Sound R I post) (hstep : R.Step s s') :
    s'.Sound R I post := by
  cases hstep with
  | call hprog htalk =>
      have hkeeps := hs.prog
      rw [hprog] at hkeeps
      obtain ⟨hI, hk⟩ := hkeeps _ _ htalk
      exact ⟨hI, hk⟩
  | again hprog hagain =>
      have hpost := hs.prog
      rw [hprog] at hpost
      exact ⟨hs.talk, h.again _ _ _ hs.talk hpost hagain⟩

theorem Speaker.Sound.returned (hs : s.Sound R I post) {a : α} (hprog : s.prog = .done a) :
    post s.talk a := by
  have hpost := hs.prog
  rwa [hprog] at hpost

theorem TalkStep.said_isPrefix {c : StreamCall β Q} {r : StreamReply β A} {t' : Talk β Q A}
    (h : TalkStep allow t c r t') : t.said <+: t'.said := by
  cases h with
  | wrote => exact List.prefix_append _ _
  | _ => exact List.prefix_rfl

theorem TalkStep.told_subset {c : StreamCall β Q} {r : StreamReply β A} {t' : Talk β Q A}
    (h : TalkStep allow t c r t') : t.told ⊆ t'.told := by
  cases h with
  | told => exact List.subset_append_left _ _
  | _ => exact List.Subset.refl _

/-- What a party is told answers what it asks. -/
theorem TalkStep.mem_told {c : StreamCall β Q} {r : StreamReply β A} {t' : Talk β Q A}
    (h : TalkStep allow t c r t') {q : Q} {a : A} (hqa : (q, a) ∈ t'.told) :
    (q, a) ∈ t.told ∨ c = .ask q := by
  cases h with
  | told =>
      rcases List.mem_append.mp hqa with hqa | hqa
      · exact .inl hqa
      · cases List.mem_singleton.mp hqa
        exact .inr rfl
  | _ => exact .inl hqa

theorem Role.Step.told_subset (h : R.Step s s') : s.talk.told ⊆ s'.talk.told := by
  cases h with
  | call _ htalk => exact htalk.told_subset
  | again => exact List.Subset.refl _

theorem Role.Step.said_isPrefix (h : R.Step s s') : s.talk.said <+: s'.talk.said := by
  cases h with
  | call _ htalk => exact htalk.said_isPrefix
  | again => exact List.prefix_rfl

/-- A party whose peer may say anything. -/
def Role.alone (R : Role β Q A α) : System (Speaker β Q A α) Unit where
  init s := s = R.begin
  step s _ s' := R.Step s s'

theorem Role.Keeps.sound (h : R.Keeps I post) (hs : R.alone.Reachable s) : s.Sound R I post := by
  apply hs.invariant
  · rintro s rfl
    exact h.begin
  · exact fun s _ s' => h.step

/-! ## Two parties that are connected -/

variable {Q' A' : Type} {α' : Type*}

/-- Each of the two hears what the other has said, in order and in pieces of any size. -/
structure Duplex (β Q A : Type) (α : Type*) (Q' A' : Type) (α' : Type*) where
  left : Speaker β Q A α
  right : Speaker β Q' A' α'

inductive DuplexStep (R : Role β Q A α) (R' : Role β Q' A' α') :
    Duplex β Q A α Q' A' α' → Unit → Duplex β Q A α Q' A' α' → Prop where
  | left {d : Duplex β Q A α Q' A' α'} {s : Speaker β Q A α} (h : R.Step d.left s)
      (hears : s.talk.heard <+: d.right.talk.said) : DuplexStep R R' d () { d with left := s }
  | right {d : Duplex β Q A α Q' A' α'} {s : Speaker β Q' A' α'} (h : R'.Step d.right s)
      (hears : s.talk.heard <+: d.left.talk.said) : DuplexStep R R' d () { d with right := s }

def duplex (R : Role β Q A α) (R' : Role β Q' A' α') : System (Duplex β Q A α Q' A' α') Unit where
  init d := d = ⟨R.begin, R'.begin⟩
  step := DuplexStep R R'

/-- A step of one party: the reply to its call, or nothing when its program is run again. -/
inductive DuplexMove (β A A' : Type) where
  | left (r : Option (StreamReply β A))
  | right (r : Option (StreamReply β A'))

/-- A step, computed. -/
def Role.next (R : Role β Q A α) [∀ q a, Decidable (R.allow q a)] (s : Speaker β Q A α) :
    Option (StreamReply β A) → Option (Speaker β Q A α)
  | some r =>
    match s.prog with
    | .call c k => (s.talk.next R.allow c r).map fun t => ⟨t, k r⟩
    | .done _ => none
  | none =>
    match s.prog with
    | .call _ _ => none
    | .done a => (R.again a).map fun p => ⟨s.talk, p⟩

theorem Role.next_spec [∀ q a, Decidable (R.allow q a)] {r : Option (StreamReply β A)}
    (h : R.next s r = some s') : R.Step s s' := by
  cases r with
  | some r =>
      simp only [next] at h
      split at h
      next c k hprog =>
        obtain ⟨t, ht, rfl⟩ := Option.map_eq_some_iff.mp h
        exact .call hprog (Talk.next_spec ht)
      next => cases h
  | none =>
      simp only [next] at h
      split at h
      next => cases h
      next a hprog =>
        obtain ⟨p, hp, rfl⟩ := Option.map_eq_some_iff.mp h
        exact .again hprog hp

def Duplex.next [DecidableEq β] (R : Role β Q A α) (R' : Role β Q' A' α')
    [∀ q a, Decidable (R.allow q a)] [∀ q a, Decidable (R'.allow q a)]
    (d : Duplex β Q A α Q' A' α') : DuplexMove β A A' → Option (Duplex β Q A α Q' A' α')
  | .left r =>
    (R.next d.left r).bind fun s =>
      if s.talk.heard.isPrefixOf d.right.talk.said then some { d with left := s } else none
  | .right r =>
    (R'.next d.right r).bind fun s =>
      if s.talk.heard.isPrefixOf d.left.talk.said then some { d with right := s } else none

theorem Duplex.next_spec [DecidableEq β] {R : Role β Q A α} {R' : Role β Q' A' α'}
    [∀ q a, Decidable (R.allow q a)] [∀ q a, Decidable (R'.allow q a)]
    {d d' : Duplex β Q A α Q' A' α'} {m : DuplexMove β A A'} (h : d.next R R' m = some d') :
    DuplexStep R R' d () d' := by
  cases m with
  | left r =>
      obtain ⟨s, hs, h⟩ := Option.bind_eq_some_iff.mp h
      rw [Option.ite_none_right_eq_some, Option.some.injEq] at h
      exact h.2 ▸ .left (Role.next_spec hs) (List.isPrefixOf_iff_prefix.mp h.1)
  | right r =>
      obtain ⟨s, hs, h⟩ := Option.bind_eq_some_iff.mp h
      rw [Option.ite_none_right_eq_some, Option.some.injEq] at h
      exact h.2 ▸ .right (Role.next_spec hs) (List.isPrefixOf_iff_prefix.mp h.1)

theorem DuplexStep.told_subset {d d' : Duplex β Q A α Q' A' α'} {e : Unit}
    {R : Role β Q A α} {R' : Role β Q' A' α'} (h : DuplexStep R R' d e d') :
    d.right.talk.told ⊆ d'.right.talk.told := by
  cases h with
  | left => exact List.Subset.refl _
  | right h => exact h.told_subset

/-- A conversation that is played move by move. -/
theorem duplex_play [DecidableEq β] {R : Role β Q A α} {R' : Role β Q' A' α'}
    [∀ q a, Decidable (R.allow q a)] [∀ q a, Decidable (R'.allow q a)]
    {d d' : Duplex β Q A α Q' A' α'} {ms : List (DuplexMove β A A')}
    (hd : (duplex R R').Reachable d) (h : ms.foldlM (Duplex.next R R') d = some d') :
    (duplex R R').Reachable d' := by
  obtain ⟨d₁, hd₁, rfl⟩ := System.Reachable.replay (R := fun s p => s = p)
    (fun s p m p' hs hp hm => by subst hp; exact ⟨p', hs.step (Duplex.next_spec hm), rfl⟩) hd rfl h
  exact hd₁

/-- A party that is played against fixed replies. -/
theorem Role.alone_play [∀ q a, Decidable (R.allow q a)] {rs : List (Option (StreamReply β A))}
    (hs : R.alone.Reachable s) (h : rs.foldlM R.next s = some s') : R.alone.Reachable s' := by
  obtain ⟨s₁, hs₁, rfl⟩ := System.Reachable.replay (R := fun s p => s = p)
    (fun s p r p' hs hp hr => by
      subst hp
      exact ⟨p', System.Reachable.step (e := ()) hs (Role.next_spec hr), rfl⟩) hs rfl h
  exact hs₁

variable {R' : Role β Q' A' α'} {I' : Talk β Q' A' → Prop} {post' : Talk β Q' A' → α' → Prop}
  {d : Duplex β Q A α Q' A' α'}

/-- Both parties keep what they keep alone, and hear nothing but what the other has said. -/
structure Duplex.Sound (R : Role β Q A α) (I : Talk β Q A → Prop) (post : Talk β Q A → α → Prop)
    (R' : Role β Q' A' α') (I' : Talk β Q' A' → Prop) (post' : Talk β Q' A' → α' → Prop)
    (d : Duplex β Q A α Q' A' α') : Prop where
  left : d.left.Sound R I post
  right : d.right.Sound R' I' post'
  left_hears : d.left.talk.heard <+: d.right.talk.said
  right_hears : d.right.talk.heard <+: d.left.talk.said

/-- The rule for a conversation. -/
theorem duplex_sound (h : R.Keeps I post) (h' : R'.Keeps I' post')
    (hd : (duplex R R').Reachable d) : d.Sound R I post R' I' post' := by
  apply hd.invariant
  · rintro d rfl
    exact ⟨h.begin, h'.begin, List.prefix_rfl, List.prefix_rfl⟩
  · intro d e d' hd hstep
    cases hstep with
    | left hs hears =>
        exact ⟨h.step hd.left hs, hd.right, hears, hd.right_hears.trans hs.said_isPrefix⟩
    | right hs hears =>
        exact ⟨hd.left, h'.step hd.right hs, hd.left_hears.trans hs.said_isPrefix, hears⟩

end Ctcp
