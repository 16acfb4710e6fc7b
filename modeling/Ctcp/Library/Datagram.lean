import Ctcp.Library.Execution
import Mathlib.Data.List.Basic

/-! # Two parties and a network of datagrams

A step of a party may read packets, and sends some. The network may lose, repeat and reorder
packets: what was sent once may arrive at any time, any number of times, or never. So a party
can be studied alone, and all that the network adds is that what it has read was sent. -/

namespace Ctcp

/-- A party that reads packets of `ι` and sends packets of `ο`. -/
structure Party (σ ε ι ο : Type*) where
  init : σ → Prop
  step : σ → ε → Option (σ × List ο)
  reads : σ → ε → Option ι

/-- The state of a party, and all that it has read and sent. -/
structure Posted (σ ι ο : Type*) where
  state : σ
  heard : List ι
  sent : List ο

namespace Party

variable {σ ε τ δ ι ο : Type*}

/-- A party to which anything may arrive. -/
def alone (p : Party σ ε ι ο) : System (Posted σ ι ο) ε where
  init s := p.init s.state ∧ s.heard = [] ∧ s.sent = []
  step s e s' := ∃ r, p.step s.state e = some r ∧
    s' = ⟨r.1, s.heard ++ (p.reads s.state e).toList, s.sent ++ r.2⟩

/-- Both parties; each reads only what the other one has sent. -/
def link (p : Party σ ε ι ο) (q : Party τ δ ο ι) :
    System (Posted σ ι ο × Posted τ ο ι) (ε ⊕ δ) where
  init s := p.alone.init s.1 ∧ q.alone.init s.2
  step s e s' := match e with
    | .inl e => p.alone.step s.1 e s'.1 ∧ (∀ m ∈ p.reads s.1.state e, m ∈ s.2.sent) ∧ s'.2 = s.2
    | .inr e => q.alone.step s.2 e s'.2 ∧ (∀ m ∈ q.reads s.2.state e, m ∈ s.1.sent) ∧ s'.1 = s.1

variable {p : Party σ ε ι ο} {q : Party τ δ ο ι}

/-- The rule for invariants of a party. -/
theorem invariant {I : σ → List ι → List ο → Prop} (hinit : ∀ s, p.init s → I s [] [])
    (hstep : ∀ s heard sent e s' out, I s heard sent → p.step s e = some (s', out) →
      I s' (heard ++ (p.reads s e).toList) (sent ++ out))
    {s : Posted σ ι ο} (h : p.alone.Reachable s) : I s.state s.heard s.sent := by
  refine h.invariant (I := fun s => I s.state s.heard s.sent) ?_ ?_
  · rintro ⟨s, heard, sent⟩ ⟨hs, rfl, rfl⟩
    exact hinit s hs
  · rintro s e s' hI ⟨r, hr, rfl⟩
    exact hstep _ _ _ e r.1 r.2 hI hr

theorem alone_of_link {s : Posted σ ι ο × Posted τ ο ι} (h : (link p q).Reachable s) :
    p.alone.Reachable s.1 ∧ q.alone.Reachable s.2 := by
  induction h with
  | init h => exact ⟨.init h.1, .init h.2⟩
  | @step s s' e _ h ih =>
      cases e with
      | inl e => exact ⟨ih.1.step h.1, h.2.2 ▸ ih.2⟩
      | inr e => exact ⟨h.2.2 ▸ ih.1, ih.2.step h.1⟩

/-- What a party has sent stays sent. -/
theorem sent_subset {s s' : Posted σ ι ο} {e : ε} (h : p.alone.step s e s') :
    s.sent ⊆ s'.sent := by
  obtain ⟨r, -, rfl⟩ := h
  exact List.subset_append_left _ _

theorem heard_subset {s s' : Posted σ ι ο} {e : ε} {l : List ι} (h : p.alone.step s e s')
    (hs : s.heard ⊆ l) (hreads : ∀ m ∈ p.reads s.state e, m ∈ l) : s'.heard ⊆ l := by
  obtain ⟨r, -, rfl⟩ := h
  exact List.append_subset.mpr ⟨hs, fun m hm => hreads m (Option.mem_toList.mp hm)⟩

/-- What a party has read was sent by the other one. -/
theorem heard_of_link {s : Posted σ ι ο × Posted τ ο ι} (h : (link p q).Reachable s) :
    s.1.heard ⊆ s.2.sent ∧ s.2.heard ⊆ s.1.sent := by
  induction h with
  | init h =>
      obtain ⟨⟨-, hl, -⟩, -, hr, -⟩ := h
      rw [hl, hr]
      exact ⟨List.nil_subset _, List.nil_subset _⟩
  | @step s s' e _ h ih =>
      cases e with
      | inl e =>
          obtain ⟨hstep, hreads, heq⟩ := h
          rw [heq]
          exact ⟨heard_subset hstep ih.1 hreads, List.Subset.trans ih.2 (sent_subset hstep)⟩
      | inr e =>
          obtain ⟨hstep, hreads, heq⟩ := h
          rw [heq]
          exact ⟨List.Subset.trans ih.1 (sent_subset hstep), heard_subset hstep ih.2 hreads⟩

/-- What each party keeps alone, both keep together. -/
theorem link_invariant {I : σ → List ι → List ο → Prop} {J : τ → List ο → List ι → Prop}
    (hI : ∀ s, p.alone.Reachable s → I s.state s.heard s.sent)
    (hJ : ∀ s, q.alone.Reachable s → J s.state s.heard s.sent)
    {s : Posted σ ι ο × Posted τ ο ι} (h : (link p q).Reachable s) :
    I s.1.state s.1.heard s.1.sent ∧ J s.2.state s.2.heard s.2.sent :=
  ⟨hI _ (alone_of_link h).1, hJ _ (alone_of_link h).2⟩

/-- A kind of packet that a party sends only after one of that kind, or a cause, has come from
the other one has a cause on either side. -/
theorem link_cause {A B : ο → Prop} {A' B' : ι → Prop}
    (hp : ∀ s, p.alone.Reachable s → (∃ m ∈ s.sent, A m) → ∃ m ∈ s.heard, A' m ∨ B' m)
    (hq : ∀ s, q.alone.Reachable s → (∃ m ∈ s.sent, A' m) → ∃ m ∈ s.heard, A m ∨ B m)
    {s : Posted σ ι ο × Posted τ ο ι} (h : (link p q).Reachable s)
    (hs : (∃ m ∈ s.1.sent, A m) ∨ ∃ m ∈ s.2.sent, A' m) :
    (∃ m ∈ s.1.sent, B m) ∨ ∃ m ∈ s.2.sent, B' m := by
  induction h with
  | init h =>
      obtain ⟨⟨-, -, hl⟩, -, -, hr⟩ := h
      rw [hl, hr] at hs
      simp at hs
  | @step s s' e hreach h ih =>
      obtain ⟨hleft, hright⟩ := alone_of_link (hreach.step h)
      obtain ⟨hheard, hheard'⟩ := heard_of_link (hreach.step h)
      -- The packets that the other party has sent are those of the state before.
      cases e with
      | inl e =>
          obtain ⟨hstep, -, heq⟩ := h
          have hmono : (∃ m ∈ s.1.sent, B m) ∨ (∃ m ∈ s.2.sent, B' m) →
              (∃ m ∈ s'.1.sent, B m) ∨ ∃ m ∈ s'.2.sent, B' m := by
            rw [heq]
            exact Or.imp_left fun ⟨m, hm, hB⟩ => ⟨m, sent_subset hstep hm, hB⟩
          rcases hs with hs | hs
          · obtain ⟨m, hm, hA | hB⟩ := hp _ hleft hs
            · exact hmono (ih (.inr ⟨m, heq ▸ hheard hm, hA⟩))
            · exact .inr ⟨m, hheard hm, hB⟩
          · exact hmono (ih (.inr (heq ▸ hs)))
      | inr e =>
          obtain ⟨hstep, -, heq⟩ := h
          have hmono : (∃ m ∈ s.1.sent, B m) ∨ (∃ m ∈ s.2.sent, B' m) →
              (∃ m ∈ s'.1.sent, B m) ∨ ∃ m ∈ s'.2.sent, B' m := by
            rw [heq]
            exact Or.imp_right fun ⟨m, hm, hB⟩ => ⟨m, sent_subset hstep hm, hB⟩
          rcases hs with hs | hs
          · exact hmono (ih (.inl (heq ▸ hs)))
          · obtain ⟨m, hm, hA | hB⟩ := hq _ hright hs
            · exact hmono (ih (.inl ⟨m, heq ▸ hheard' hm, hA⟩))
            · exact .inl ⟨m, hheard' hm, hB⟩

/-! ## Computed runs -/

/-- One step of a party alone, computed. -/
def next (p : Party σ ε ι ο) (s : Posted σ ι ο) (e : ε) : Option (Posted σ ι ο) :=
  (p.step s.state e).map fun r => ⟨r.1, s.heard ++ (p.reads s.state e).toList, s.sent ++ r.2⟩

theorem next_spec {s s' : Posted σ ι ο} {e : ε} (h : p.next s e = some s') :
    p.alone.step s e s' := by
  obtain ⟨r, hr, heq⟩ := Option.map_eq_some_iff.mp h
  exact ⟨r, hr, heq.symm⟩

/-- One step of both parties, computed. -/
def linkNext [DecidableEq ι] [DecidableEq ο] (p : Party σ ε ι ο) (q : Party τ δ ο ι)
    (s : Posted σ ι ο × Posted τ ο ι) : ε ⊕ δ → Option (Posted σ ι ο × Posted τ ο ι)
  | .inl e =>
    if ∀ m ∈ p.reads s.1.state e, m ∈ s.2.sent then (p.next s.1 e).map (·, s.2) else none
  | .inr e =>
    if ∀ m ∈ q.reads s.2.state e, m ∈ s.1.sent then (q.next s.2 e).map (s.1, ·) else none

theorem linkNext_spec [DecidableEq ι] [DecidableEq ο] {s s' : Posted σ ι ο × Posted τ ο ι}
    {e : ε ⊕ δ} (h : linkNext p q s e = some s') : (link p q).step s e s' := by
  cases e with
  | inl e =>
      rw [linkNext, Option.ite_none_right_eq_some] at h
      obtain ⟨t, ht, rfl⟩ := Option.map_eq_some_iff.mp h.2
      exact ⟨next_spec ht, h.1, rfl⟩
  | inr e =>
      rw [linkNext, Option.ite_none_right_eq_some] at h
      obtain ⟨t, ht, rfl⟩ := Option.map_eq_some_iff.mp h.2
      exact ⟨next_spec ht, h.1, rfl⟩

/-- Two parties that are played against each other. -/
theorem link_play [DecidableEq ι] [DecidableEq ο] {s s' : Posted σ ι ο × Posted τ ο ι}
    {es : List (ε ⊕ δ)} (hs : (link p q).Reachable s)
    (h : es.foldlM (linkNext p q) s = some s') : (link p q).Reachable s' := by
  obtain ⟨s₁, hs₁, rfl⟩ := System.Reachable.replay (R := fun s p => s = p)
    (fun s t e t' hs ht he => by subst ht; exact ⟨t', hs.step (linkNext_spec he), rfl⟩) hs rfl h
  exact hs₁

end Party

end Ctcp
