import Ctcp.Verification.Buffers.Owners

/-! # Steps keep every buffer at its place -/

namespace Ctcp

open Function

variable {s s' : Buffers} {e : BufferEvent} {a : Skb} {k : ℕ}

theorem bag_rows (h : s.released ≠ some k) : s.bag (.rows k) = s.blocks k := by
  rw [Buffers.bag, Buffers.rowsLeft, if_neg h]

theorem bag_queue (h : s.released ≠ some k) :
    s.bag (.queue k) = (s.codedQ k).contents.filter (s.coded ·) := by
  rw [Buffers.bag, Buffers.queueLeft, if_neg h]

theorem bag_rows_released (h : s.released = some k) : s.bag (.rows k) = s.rowsToFree := by
  rw [Buffers.bag, Buffers.rowsLeft, if_pos h]

theorem bag_queue_released (h : s.released = some k) :
    s.bag (.queue k) = s.toVisit.filter (s.coded ·) := by
  rw [Buffers.bag, Buffers.queueLeft, if_pos h]

theorem not_released {k₀ : ℕ} (h : s.released = some k₀) (hk : k ≠ k₀) : s.released ≠ some k := by
  rw [h]
  exact fun he => hk (Option.some.inj he).symm

/-- Appending to a list adds to the multiset. -/
theorem coe_append_singleton {α : Type*} (l : List α) (a : α) :
    ((l ++ [a] : List α) : Multiset α) = a ::ₘ (l : Multiset α) := by
  rw [Multiset.cons_coe]
  exact Multiset.coe_eq_coe.mpr (List.perm_append_singleton a l)

theorem Buffers.Unlocked.released (h : s.Unlocked) : s.released = none := by
  rcases h with hphase | ⟨skb, hphase⟩ <;> simp [Buffers.released, hphase]

theorem Buffers.Unlocked.toVisit (h : s.Unlocked) : s.toVisit = [] := by
  rcases h with hphase | ⟨skb, hphase⟩ <;> simp [Buffers.toVisit, hphase]

/-- What a buffer that is handed out was not. -/
structure NewBuffer (s : Buffers) (a : Skb) : Prop where
  away : ∀ p, p ≠ .pool → a ∉ s.bag p
  visit : a ∉ s.toVisit
  queue : ∀ k, s.released ≠ some k → a ∉ (s.codedQ k).contents

namespace BuffersInv

theorem contents_place (h : BuffersInv s) (hk : s.released ≠ some k)
    (ha : a ∈ (s.codedQ k).contents) : ∃ p, a ∈ s.bag p ∧ p ≠ .pool := by
  obtain ⟨p, hp, hne, -⟩ := h.place (.queue k hk ha)
  exact ⟨p, hp, hne⟩

theorem newBuffer (h : BuffersInv s)
    (hhead : ∀ a, s.pool.first.head? = some a → a ∉ s.toVisit) :
    NewBuffer s (allocSkb s.pool).1 := by
  have haway : ∀ p, p ≠ .pool → (allocSkb s.pool).1 ∉ s.bag p := by
    intro p hp hmem
    cases hfirst : s.pool.first with
    | nil =>
        rw [allocSkb_nil hfirst] at hmem
        exact lt_irrefl s.pool.num (h.placed.mem hmem)
    | cons a first =>
        rw [allocSkb_cons hfirst] at hmem
        have hpool : a ∈ s.bag .pool := by simp [Buffers.bag, hfirst]
        exact hp (h.placed.unique hmem hpool)
  constructor
  case away => exact haway
  case visit =>
    intro hmem
    cases hfirst : s.pool.first with
    | nil =>
        cases hcoded : s.coded (allocSkb s.pool).1 with
        | true =>
            obtain ⟨k, -, hbag⟩ := toVisit_place hmem hcoded
            exact haway (.queue k) (by simp) hbag
        | false =>
            rcases h.visits _ hmem hcoded with hrow | hfree
            · obtain ⟨k, -, hbag⟩ := rowsToFree_place hrow
              exact haway (.rows k) (by simp) hbag
            · rw [hfirst] at hfree
              exact absurd hfree List.not_mem_nil
    | cons a first =>
        rw [allocSkb_cons hfirst] at hmem
        exact hhead a (by rw [hfirst]; rfl) hmem
  case queue =>
    intro k hk hmem
    obtain ⟨p, hp, hne⟩ := h.contents_place hk hmem
    exact haway p hne hp

theorem mem_first_alloc {pool : SkbPool} {b : Skb} (hb : b ∈ pool.first)
    (hne : b ≠ (allocSkb pool).1) : b ∈ (allocSkb pool).2.first := by
  cases hfirst : pool.first with
  | nil =>
      rw [hfirst] at hb
      exact absurd hb List.not_mem_nil
  | cons a first =>
      rw [allocSkb_cons hfirst] at *
      rw [hfirst, List.mem_cons] at hb
      exact hb.resolve_left hne

theorem marked_alloc (h : BuffersInv s) : (allocSkb s.pool).2.Marked :=
  h.marked.alloc (Multiset.coe_nodup.mp (h.placed.nodup .pool))
    fun a ha => h.placed.mem (show a ∈ s.bag .pool from ha)

theorem visits_alloc (h : BuffersInv s) (hnew : NewBuffer s (allocSkb s.pool).1) {b : Skb}
    (hb : b ∈ s.toVisit) (hcoded : s.coded b = false) :
    b ∈ s.rowsToFree ∨ b ∈ (allocSkb s.pool).2.first :=
  (h.visits b hb hcoded).imp_right fun hfirst =>
    mem_first_alloc hfirst fun he => hnew.visit (he ▸ hb)

theorem fill (h : BuffersInv s) (hlock : s.Unlocked) :
    BuffersInv
      { s with
        pool := (allocSkb s.pool).2
        blocks := update s.blocks (slot s.maxblockno)
          (s.blocks (slot s.maxblockno) ++ [(allocSkb s.pool).1]) } := by
  have hreleased : ∀ k, s.released ≠ some k := by simp [hlock.released]
  have hvisit := hlock.toVisit
  have hnew := h.newBuffer (by simp [hvisit])
  have hsub : ∀ k b, b ∈ s.blocks k → b ∈ update s.blocks (slot s.maxblockno)
      (s.blocks (slot s.maxblockno) ++ [(allocSkb s.pool).1]) k := by
    intro k b hb
    by_cases hk : k = slot s.maxblockno
    · subst hk
      simp [hb]
    · rwa [update_of_ne hk]
  constructor
  case placed =>
    apply h.placed.alloc (q := .rows (slot s.maxblockno)) rfl rfl (by simp)
    · rw [bag_rows (hreleased _), ← coe_append_singleton]
      refine (bag_rows (by exact hreleased _)).trans ?_
      exact congrArg _ (update_self ..)
    · intro r hpool hne
      cases r with
      | rows k =>
          rw [bag_rows (hreleased _)]
          refine (bag_rows (by exact hreleased k)).trans ?_
          exact congrArg _ (update_of_ne (fun hk => hne (by rw [hk])) _ _)
      | _ => first | rfl | contradiction
  case marked => exact h.marked_alloc
  case queues => exact h.queues
  case uncoded => exact fun k hk b hb hcoded => hsub k b (h.uncoded k hk b hb hcoded)
  case visits => exact fun b hb hcoded => h.visits_alloc hnew hb hcoded
  case sending =>
    intro b hphase hcoded
    obtain ⟨k, hk⟩ := h.sending b hphase hcoded
    exact ⟨k, hsub k b hk⟩
  case hand => exact h.hand
  case locked => exact h.locked
  case emptied =>
    intro left hphase
    rcases hlock with hp | ⟨skb, hp⟩ <;> exact absurd (hphase.symm.trans hp) (by simp)

/-- What the other workers have locked stays locked. -/
theorem locked_update (h : BuffersInv s) {w : Fin threads} {x : Option BufferJob}
    (hx : ∀ d, x = some d → s.released ≠ some d.k) {w' : Fin threads} {d : BufferJob}
    (hd : update s.coders w x w' = some d) : s.released ≠ some d.k := by
  rcases party_cases hd with ⟨-, hx'⟩ | ⟨-, hd⟩
  · exact hx d hx'
  · exact h.locked w' d hd

/-- A worker that goes on has its block locked as before. -/
theorem locked_goesOn (h : BuffersInv s) {w : Fin threads} {c c' : BufferJob}
    (hcoder : s.coders w = some c) (hk : c'.k = c.k) {w' : Fin threads} {d : BufferJob}
    (hd : update s.coders w (some c') w' = some d) : s.released ≠ some d.k := by
  refine h.locked_update (fun d hd => ?_) hd
  obtain rfl := Option.some.inj hd
  rw [hk]
  exact h.locked w c hcoder

/-- A worker starts, goes on or is done, with the same buffer in hand. -/
theorem setCoder (h : BuffersInv s) {w : Fin threads} {x : Option BufferJob}
    (hlock : ∀ d, x = some d → s.released ≠ some d.k)
    (hhand : x.bind BufferJob.hand = (s.coders w).bind BufferJob.hand) :
    BuffersInv { s with coders := update s.coders w x } := by
  constructor
  case placed =>
    apply h.placed.congr
    intro p
    cases p with
    | hand w' =>
        by_cases hw : w' = w
        · subst hw
          simp [Buffers.bag, hhand]
        · simp [Buffers.bag, update_of_ne hw]
    | _ => rfl
  case marked => exact h.marked
  case queues => exact h.queues
  case uncoded => exact h.uncoded
  case visits => exact h.visits
  case sending => exact h.sending
  case hand =>
    intro w' d b hd hb
    rcases party_cases hd with ⟨rfl, hx⟩ | ⟨-, hd⟩
    · rw [hx, Option.bind_some, hb] at hhand
      obtain ⟨c, hc, hcb⟩ := Option.bind_eq_some_iff.mp hhand.symm
      exact h.hand w' c b hc hcb
    · exact h.hand w' d b hd hb
  case locked => exact fun _ _ hd => h.locked_update hlock hd
  case emptied => exact h.emptied

theorem hand_place {w : Fin threads} {c : BufferJob} (hc : s.coders w = some c)
    (hhand : c.hand = some a) : a ∈ s.bag (.hand w) := by
  simp [Buffers.bag, hc, hhand]

theorem sending_place (hphase : s.phase = .sending a) (hcoded : s.coded a = true) :
    a ∈ s.bag .server := by
  simp [Buffers.bag, hphase, hcoded]

theorem queueLeft_place (ha : a ∈ s.queueLeft k) (hcoded : s.coded a = true) :
    a ∈ s.bag (.queue k) := List.mem_filter.mpr ⟨ha, hcoded⟩

/-- The flag of a packet that is sent decides whether the server thread owns it. -/
theorem bag_server_congr {s' : Buffers} (hphase : s'.phase = s.phase)
    (hcoded : ∀ b, s.phase = .sending b → s'.coded b = s.coded b) :
    s'.bag .server = s.bag .server := by
  simp only [Buffers.bag, hphase]
  split
  · next b hb => rw [hcoded b hb]
  · rfl

theorem bag_queue_congr {s' : Buffers} (hleft : s'.queueLeft k = s.queueLeft k)
    (hcoded : ∀ b ∈ s.queueLeft k, s'.coded b = s.coded b) :
    s'.bag (.queue k) = s.bag (.queue k) := by
  simp only [Buffers.bag, hleft]
  exact congrArg _ (List.filter_congr hcoded)

/-- A push to a queue that is not being released leaves the entries to visit. -/
theorem toVisit_update {codedQ : ℕ → QBuffer} (coded : Skb → Bool) (hk : s.released ≠ some k)
    (hother : ∀ k', k' ≠ k → codedQ k' = s.codedQ k') :
    ({ s with coded := coded, codedQ := codedQ } : Buffers).toVisit = s.toVisit := by
  rw [Buffers.toVisit, Buffers.toVisit]
  cases hphase : s.phase with
  | freeingRows left =>
      have hne : slot s.currBlock ≠ k := by
        rintro rfl
        simp [Buffers.released, hphase] at hk
      simp [hother _ hne]
  | _ => rfl

/-- The source tests the constant, the model of the queue its own size. -/
theorem room (h : BuffersInv s) (hroom : (s.codedQ k).size < 2 * blockSize) :
    (s.codedQ k).size < (s.codedQ k).maxSize := by
  rw [(h.queues k).2]
  exact hroom

/-- A push adds one entry to one queue. -/
theorem mem_contents_push {codedQ : ℕ → QBuffer} {skb b : Skb} {k' : ℕ} (hinv : (codedQ k).Inv)
    (hroom : (codedQ k).size < (codedQ k).maxSize) :
    b ∈ (update codedQ k (qPushBack (codedQ k) skb) k').contents ↔
      b ∈ (codedQ k').contents ∨ k' = k ∧ b = skb := by
  by_cases he : k' = k
  · subst he
    simp [contents_qPushBack hinv hroom]
  · simp [he]

/-- A push keeps the queues in order. -/
theorem queues_push {codedQ : ℕ → QBuffer} {skb : Skb}
    (h : ∀ k, (codedQ k).Inv ∧ (codedQ k).maxSize = 2 * blockSize)
    (hroom : (codedQ k).size < (codedQ k).maxSize) (k' : ℕ) :
    (update codedQ k (qPushBack (codedQ k) skb) k').Inv ∧
      (update codedQ k (qPushBack (codedQ k) skb) k').maxSize = 2 * blockSize := by
  by_cases he : k' = k
  · subst he
    rw [update_self]
    exact ⟨(h k').1.qPushBack hroom, (h k').2⟩
  · rw [update_of_ne he]
    exact h k'

/-- A row is pushed, and becomes an uncoded packet. -/
theorem queueRow (h : BuffersInv s) {skb : Skb} (hk : s.released ≠ some k)
    (hskb : skb ∈ s.blocks k) (hroom : (s.codedQ k).size < 2 * blockSize) :
    BuffersInv
      { s with
        coded := update s.coded skb false
        codedQ := update s.codedQ k (qPushBack (s.codedQ k) skb) } := by
  have hrow : skb ∈ s.bag (.rows k) := by
    rw [bag_rows hk]
    exact hskb
  have haway : ∀ p, p ≠ .rows k → skb ∉ s.bag p := fun p hp hmem =>
    hp (h.placed.unique hmem hrow)
  have hroom' := h.room hroom
  have hvisit := toVisit_update (update s.coded skb false) hk fun k' hk' =>
    update_of_ne hk' (qPushBack (s.codedQ k) skb) s.codedQ
  -- Only the row's own flag changes, and it was not set at another place.
  have hkeep : ∀ b p, (s.coded b = true → b ∈ s.bag p) → p ≠ .rows k →
      update s.coded skb false b = s.coded b := by
    intro b p hb hp
    by_cases he : b = skb
    · subst he
      rw [update_self]
      cases hcoded : s.coded b with
      | false => rfl
      | true => exact absurd (hb hcoded) (haway p hp)
    · exact update_of_ne he _ _
  have hqueue : ∀ k', ∀ b ∈ s.queueLeft k', update s.coded skb false b = s.coded b :=
    fun k' b hb => hkeep b (.queue k') (queueLeft_place hb) (by simp)
  have hleft : ∀ k', s.released ≠ some k' → s.queueLeft k' = (s.codedQ k').contents :=
    fun k' hk' => if_neg hk'
  constructor
  case placed =>
    apply h.placed.congr
    intro p
    cases p with
    | server =>
        exact bag_server_congr (by rfl) fun b hphase =>
          hkeep b .server (sending_place hphase) (by simp)
    | queue k' =>
        by_cases he : k' = k
        · subst he
          rw [bag_queue hk]
          refine (bag_queue (by exact hk)).trans ?_
          simp only [update_self, contents_qPushBack (h.queues k').1 hroom', List.filter_append]
          rw [List.filter_congr fun b hb => hqueue k' b (by rwa [hleft k' hk])]
          simp
        · refine bag_queue_congr ?_ (hqueue k')
          simp only [Buffers.queueLeft, hvisit, update_of_ne he]
          rfl
    | _ => rfl
  case marked => exact h.marked
  case queues => exact queues_push h.queues hroom'
  case uncoded =>
    intro k' hk' b hb hcoded
    rcases (mem_contents_push (h.queues k).1 hroom').mp hb with hb | ⟨rfl, rfl⟩
    · apply h.uncoded k' hk' b hb
      rwa [← hqueue k' b (by rwa [hleft k' hk'])]
    · exact hskb
  case visits =>
    rw [hvisit]
    intro b hb hcoded
    apply h.visits b hb
    obtain ⟨k', hk'⟩ := released_of_mem_toVisit hb
    rwa [← hqueue k' b (by rwa [Buffers.queueLeft, if_pos hk'])]
  case sending =>
    intro b hphase hcoded
    by_cases he : b = skb
    · exact ⟨k, he ▸ hskb⟩
    · exact h.sending b hphase (by simpa [update_of_ne he] using hcoded)
  case hand =>
    intro w c b hc hb
    have hne : b ≠ skb := by
      rintro rfl
      exact haway (.hand w) (by simp) (hand_place hc hb)
    exact (update_of_ne hne _ _).trans (h.hand w c b hc hb)
  case locked => exact h.locked
  case emptied => exact h.emptied

/-- A worker gets a buffer for the next coded packet. -/
theorem alloc (h : BuffersInv s) {w : Fin threads} {c : BufferJob} (hcoder : s.coders w = some c)
    (hhand : c.hand = none) (hnew : NewBuffer s (allocSkb s.pool).1) :
    BuffersInv
      { s with
        pool := (allocSkb s.pool).2
        coded := update s.coded (allocSkb s.pool).1 true
        coders := update s.coders w (some { c with hand := some (allocSkb s.pool).1 }) } := by
  have hkeep : ∀ b p, (s.coded b = true → b ∈ s.bag p) → p ≠ .pool →
      (s.coded b = false → b ≠ (allocSkb s.pool).1) →
      update s.coded (allocSkb s.pool).1 true b = s.coded b := by
    intro b p hb hp hne
    apply update_of_ne
    rintro rfl
    cases hcoded : s.coded (allocSkb s.pool).1 with
    | false => exact hne hcoded rfl
    | true => exact hnew.away p hp (hb hcoded)
  have hfalse : ∀ b, update s.coded (allocSkb s.pool).1 true b = false →
      s.coded b = false ∧ b ≠ (allocSkb s.pool).1 := by
    intro b hb
    by_cases he : b = (allocSkb s.pool).1
    · subst he
      simp at hb
    · exact ⟨by rwa [update_of_ne he] at hb, he⟩
  constructor
  case placed =>
    apply h.placed.alloc (q := .hand w) rfl rfl (by simp)
    · simp [Buffers.bag, hcoder, hhand]
    · intro p hpool hne
      cases p with
      | server =>
          refine bag_server_congr (by rfl) fun b hphase =>
            hkeep b .server (sending_place hphase) (by simp) ?_
          rintro hcoded rfl
          obtain ⟨p, hp, hpool, -⟩ := h.place (.sending hphase)
          exact hnew.away p hpool hp
      | hand w' =>
          have hw : w' ≠ w := fun hw => hne (by rw [hw])
          simp [Buffers.bag, update_of_ne hw]
      | queue k =>
          refine bag_queue_congr (by rfl) fun b hb =>
            hkeep b (.queue k) (queueLeft_place hb) (by simp) ?_
          rintro - rfl
          rw [Buffers.queueLeft] at hb
          split_ifs at hb with hk
          · exact hnew.visit hb
          · exact hnew.queue k hk hb
      | _ => first | rfl | contradiction
  case marked => exact h.marked_alloc
  case queues => exact h.queues
  case uncoded => exact fun k hk b hb hcoded => h.uncoded k hk b hb (hfalse b hcoded).1
  case visits => exact fun b hb hcoded => h.visits_alloc hnew hb (hfalse b hcoded).1
  case sending => exact fun b hphase hcoded => h.sending b hphase (hfalse b hcoded).1
  case hand =>
    intro w' c' b hc hb
    by_contra hcoded
    obtain ⟨hold, hne⟩ := hfalse b (by simpa using hcoded)
    rcases party_cases hc with ⟨rfl, hx⟩ | ⟨-, hc⟩
    · obtain rfl := Option.some.inj hx
      exact hne (Option.some.inj hb).symm
    · rw [h.hand w' c' b hc hb] at hold
      contradiction
  case locked => exact fun _ _ hd => h.locked_goesOn hcoder (by rfl) hd
  case emptied => exact h.emptied

/-- The coded packet is pushed. -/
theorem push (h : BuffersInv s) {w : Fin threads} {c : BufferJob} {skb n : ℕ}
    (hcoder : s.coders w = some c) (hhand : c.hand = some skb)
    (hroom : (s.codedQ c.k).size < 2 * blockSize) :
    BuffersInv
      { s with
        codedQ := update s.codedQ c.k (qPushBack (s.codedQ c.k) skb)
        coders := update s.coders w (some { c with coded := n, hand := none }) } := by
  have hk := h.locked w c hcoder
  have hcoded := h.hand w c skb hcoder hhand
  have hroom' := h.room hroom
  have hvisit := toVisit_update s.coded hk fun k' hk' =>
    update_of_ne hk' (qPushBack (s.codedQ c.k) skb) s.codedQ
  constructor
  case placed =>
    apply h.placed.move (p := .hand w) (q := .queue c.k) (a := skb) (by simp)
    · simp [Buffers.bag, hcoder, hhand]
    · rw [bag_queue hk]
      refine (bag_queue (by exact hk)).trans ?_
      simp only [update_self, contents_qPushBack (h.queues c.k).1 hroom', List.filter_append]
      rw [← coe_append_singleton]
      simp [hcoded]
    · intro p hne hne'
      cases p with
      | hand w' =>
          have hw : w' ≠ w := fun hw => hne (by rw [hw])
          simp [Buffers.bag, update_of_ne hw]
      | queue k' =>
          have he : k' ≠ c.k := fun he => hne' (by rw [he])
          refine bag_queue_congr ?_ fun _ _ => rfl
          rw [Buffers.queueLeft, Buffers.queueLeft]
          simp only [update_of_ne he]
          exact congrArg (fun l => if s.released = some k' then l else _) hvisit
      | _ => rfl
  case marked => exact h.marked
  case queues => exact queues_push h.queues hroom'
  case uncoded =>
    intro k' hk' b hb hb'
    rcases (mem_contents_push (h.queues c.k).1 hroom').mp hb with hb | ⟨rfl, rfl⟩
    · exact h.uncoded k' hk' b hb hb'
    · rw [show s.coded b = true from hcoded] at hb'
      contradiction
  case visits => exact fun b hb => h.visits b (hvisit ▸ hb)
  case sending => exact h.sending
  case hand =>
    intro w' c' b hc hb
    rcases party_cases hc with ⟨rfl, hx⟩ | ⟨-, hc⟩
    · obtain rfl := Option.some.inj hx
      contradiction
    · exact h.hand w' c' b hc hb
  case locked => exact fun _ _ hd => h.locked_goesOn hcoder (by rfl) hd
  case emptied => exact h.emptied

/-- A buffer that somebody owns is freed. -/
theorem free_used (h : BuffersInv s) {p : Place} (hp : p ≠ .pool) (ha : a ∈ s.bag p) :
    s.pool.used a = true :=
  (h.marked a).mpr ⟨h.placed.mem ha, fun hfirst => hp (h.placed.unique ha (q := .pool) hfirst)⟩

theorem mem_first_free {pool : SkbPool} {b : Skb} (hb : b ∈ pool.first) :
    b ∈ (freeSkb pool a).first := by
  rw [freeSkb]
  split
  · exact hb
  · exact List.mem_cons_of_mem a hb

theorem pop (h : BuffersInv s) (hphase : s.phase = .idle) (hsize : 0 < (s.codedQ k).size) :
    BuffersInv
      { s with
        codedQ := update s.codedQ k (qPop (s.codedQ k)).2
        phase := .sending (qPop (s.codedQ k)).1 } := by
  have hnone : ∀ k', s.released ≠ some k' := by simp [Buffers.released, hphase]
  have hcontents := contents_qPop hsize
  have hsub : ∀ k' b, b ∈ (update s.codedQ k (qPop (s.codedQ k)).2 k').contents →
      b ∈ (s.codedQ k').contents := by
    intro k' b hb
    by_cases he : k' = k
    · subst he
      rw [update_self] at hb
      rw [hcontents]
      exact List.mem_cons_of_mem _ hb
    · rwa [update_of_ne he] at hb
  have hfirst : (qPop (s.codedQ k)).1 ∈ (s.codedQ k).contents := by
    rw [hcontents]
    exact List.mem_cons_self
  constructor
  case placed =>
    let s' : Buffers :=
      { s with
        codedQ := update s.codedQ k (qPop (s.codedQ k)).2
        phase := .sending (qPop (s.codedQ k)).1 }
    have hnone' : ∀ k', s'.released ≠ some k' := by simp [s', Buffers.released]
    change Placed s'.bag _
    have hrows : ∀ k', s'.bag (.rows k') = s.bag (.rows k') := by
      intro k'
      rw [bag_rows (hnone k'), bag_rows (hnone' k')]
    have hqueue : ∀ k', s.bag (.queue k') =
        if k' = k ∧ s.coded (qPop (s.codedQ k)).1 = true then
          (qPop (s.codedQ k)).1 ::ₘ s'.bag (.queue k') else s'.bag (.queue k') := by
      intro k'
      have hq : s'.codedQ = update s.codedQ k (qPop (s.codedQ k)).2 := rfl
      have hc : s'.coded = s.coded := rfl
      rw [bag_queue (hnone k'), bag_queue (hnone' k'), hq, hc]
      by_cases he : k' = k
      · subst he
        rw [update_self, hcontents, List.filter_cons]
        split_ifs with hcoded <;> simp_all
      · rw [if_neg fun h => he h.1, update_of_ne he]
    by_cases hcoded : s.coded (qPop (s.codedQ k)).1 = true
    · apply h.placed.move (p := .queue k) (q := .server) (a := (qPop (s.codedQ k)).1) (by simp)
      · rw [hqueue k, if_pos ⟨rfl, hcoded⟩]
      · simp [s', Buffers.bag, hphase, hcoded]
      · intro p hne hne'
        cases p with
        | rows k' => exact hrows k'
        | queue k' =>
            rw [hqueue k', if_neg fun hk => hne (by rw [hk.1])]
        | server => contradiction
        | _ => rfl
    · apply h.placed.congr
      intro p
      cases p with
      | rows k' => exact hrows k'
      | queue k' => rw [hqueue k', if_neg fun hk => hcoded hk.2]
      | server => simp [s', Buffers.bag, hphase, hcoded]
      | _ => rfl
  case marked => exact h.marked
  case queues =>
    intro k'
    by_cases he : k' = k
    · subst he
      simp only [update_self]
      exact ⟨(h.queues k').1.qPop hsize, (h.queues k').2⟩
    · simp only [update_of_ne he]
      exact h.queues k'
  case uncoded => exact fun k' _ b hb => h.uncoded k' (hnone k') b (hsub k' b hb)
  case visits => exact fun b hb => absurd hb List.not_mem_nil
  case sending =>
    intro b hb hcoded
    obtain rfl := BufferPhase.sending.inj hb
    exact ⟨k, h.uncoded k (hnone k) _ hfirst hcoded⟩
  case hand => exact h.hand
  case locked => exact fun _ _ _ => by simp [Buffers.released]
  case emptied => exact fun _ hp => by contradiction

/-- A coded packet is freed when it is sent; a row is kept. -/
theorem sent (h : BuffersInv s) {skb : Skb} (hphase : s.phase = .sending skb) :
    BuffersInv
      { s with
        pool := if s.coded skb then freeSkb s.pool skb else s.pool
        phase := .idle } := by
  have hnone : ∀ k, s.released ≠ some k := by simp [Buffers.released, hphase]
  let s' : Buffers :=
    { s with
      pool := if s.coded skb then freeSkb s.pool skb else s.pool
      phase := .idle }
  change BuffersInv s'
  have hnone' : ∀ k, s'.released ≠ some k := by simp [s', Buffers.released]
  have hrest : ∀ p, p ≠ .pool → p ≠ .server → s'.bag p = s.bag p := by
    intro p hpool hserver
    cases p with
    | rows k => rw [bag_rows (hnone k), bag_rows (hnone' k)]
    | queue k => rw [bag_queue (hnone k), bag_queue (hnone' k)]
    | _ => first | rfl | contradiction
  have hserver' : s'.bag .server = 0 := rfl
  constructor
  case placed =>
    by_cases hcoded : s.coded skb = true
    · have hat : skb ∈ s.bag .server := sending_place hphase hcoded
      have hnum : s'.pool.num = s.pool.num := by simp [s', hcoded]
      rw [hnum]
      apply h.placed.free (q := .server) rfl (by simp [s', Buffers.bag, hcoded])
        (h.free_used (by simp) hat) (by simp) _ hrest
      rw [hserver']
      simp [Buffers.bag, hphase, hcoded]
    · have hpool : s'.pool = s.pool := if_neg hcoded
      rw [hpool]
      apply h.placed.congr
      intro p
      by_cases hp : p = .pool
      · rw [hp, Buffers.bag, Buffers.bag, hpool]
      · by_cases hs : p = .server
        · rw [hs, hserver']
          simp [Buffers.bag, hphase, hcoded]
        · exact hrest p hp hs
  case marked =>
    change (if s.coded skb then freeSkb s.pool skb else s.pool).Marked
    split
    · exact h.marked.free
    · exact h.marked
  case queues => exact h.queues
  case uncoded => exact fun k _ b hb => h.uncoded k (hnone k) b hb
  case visits => exact fun b hb => absurd hb List.not_mem_nil
  case sending => exact fun _ hp => by contradiction
  case hand => exact h.hand
  case locked => exact fun _ _ _ => hnone' _
  case emptied => exact fun _ hp => by contradiction

/-- A release starts: what was in the block and its queue is to be freed. -/
theorem release (h : BuffersInv s) (hphase : s.phase = .acking)
    (hfree : ¬s.Codes (slot s.currBlock))
    (hkept : ∀ a ∈ (s.codedQ (slot s.currBlock)).contents, s.coded a = true →
      a ∈ qFreed (s.codedQ (slot s.currBlock))) :
    BuffersInv { s with phase := .freeingRows (s.blocks (slot s.currBlock)) } := by
  have hnone : ∀ k, s.released ≠ some k := by simp [Buffers.released, hphase]
  have hother : ∀ k, slot s.currBlock ≠ k →
      { s with phase := .freeingRows (s.blocks (slot s.currBlock)) }.released ≠ some k :=
    fun k hk he => hk (Option.some.inj he)
  have hqueue : ((qFreed (s.codedQ (slot s.currBlock))).filter (s.coded ·) : Multiset Skb) =
      ((s.codedQ (slot s.currBlock)).contents.filter (s.coded ·) : List Skb) := by
    have hinv := (h.queues (slot s.currBlock)).1
    rcases Nat.lt_or_ge ((s.codedQ (slot s.currBlock)).tail + (s.codedQ (slot s.currBlock)).size)
      (s.codedQ (slot s.currBlock)).maxSize with hlt | hge
    · rw [qFreed_eq_reverse hinv hlt, List.filter_reverse]
      exact Multiset.coe_eq_coe.mpr (List.reverse_perm _)
    · rw [qFreed_eq_nil hinv hge] at hkept ⊢
      have hnil : (s.codedQ (slot s.currBlock)).contents.filter (s.coded ·) = [] := by
        rw [List.filter_eq_nil_iff]
        exact fun a ha hcoded => List.not_mem_nil (hkept a ha hcoded)
      rw [hnil]
      rfl
  constructor
  case placed =>
    apply h.placed.congr
    intro p
    cases p with
    | server => simp [Buffers.bag, hphase]
    | rows k =>
        rw [bag_rows (hnone k)]
        by_cases he : slot s.currBlock = k
        · subst he
          exact bag_rows_released rfl
        · exact bag_rows (hother k he)
    | queue k =>
        rw [bag_queue (hnone k)]
        by_cases he : slot s.currBlock = k
        · subst he
          exact (bag_queue_released rfl).trans hqueue
        · exact bag_queue (hother k he)
    | _ => rfl
  case marked => exact h.marked
  case queues => exact h.queues
  case uncoded => exact fun k _ => h.uncoded k (hnone k)
  case visits =>
    intro b hb hcoded
    left
    exact h.uncoded _ (hnone _) b (mem_contents_of_mem_qFreed (h.queues _).1 hb) hcoded
  case sending => exact fun _ hp => by contradiction
  case hand => exact h.hand
  case locked =>
    intro w c hc he
    exact hfree ⟨w, c, hc, (Option.some.inj he).symm⟩
  case emptied => exact fun _ hp => by contradiction

theorem freeRow (h : BuffersInv s) {skb : Skb} {left : List Skb}
    (hphase : s.phase = .freeingRows (skb :: left)) :
    BuffersInv { s with pool := freeSkb s.pool skb, phase := .freeingRows left } := by
  have hreleased : s.released = some (slot s.currBlock) := by simp [Buffers.released, hphase]
  have hrows : s.rowsToFree = skb :: left := by simp [Buffers.rowsToFree, hphase]
  have hvisit : s.toVisit = qFreed (s.codedQ (slot s.currBlock)) := by
    simp [Buffers.toVisit, hphase]
  let s' : Buffers := { s with pool := freeSkb s.pool skb, phase := .freeingRows left }
  change BuffersInv s'
  have hreleased' : s'.released = some (slot s.currBlock) := rfl
  have hrows' : s'.rowsToFree = left := rfl
  have hvisit' : s'.toVisit = s.toVisit := hvisit.symm
  have hat : skb ∈ s.bag (.rows (slot s.currBlock)) := by
    rw [bag_rows_released hreleased, hrows]
    exact List.mem_cons_self
  have hused := h.free_used (by simp) hat
  constructor
  case placed =>
    rw [show s'.pool.num = s.pool.num from num_freeSkb _ _]
    apply h.placed.free (q := .rows (slot s.currBlock)) rfl rfl hused (by simp)
    · rw [bag_rows_released hreleased, bag_rows_released hreleased', hrows, hrows']
      rfl
    · intro p hpool hne
      cases p with
      | server => simp [s', Buffers.bag, hphase]
      | rows k =>
          have he : k ≠ slot s.currBlock := fun he => hne (by rw [he])
          rw [bag_rows (not_released hreleased he), bag_rows (not_released hreleased' he)]
      | queue k =>
          refine bag_queue_congr ?_ fun _ _ => rfl
          rw [Buffers.queueLeft, Buffers.queueLeft, hreleased', hreleased, hvisit']
      | _ => first | rfl | contradiction
  case marked => exact h.marked.free
  case queues => exact h.queues
  case uncoded =>
    rw [hreleased', ← hreleased]
    exact h.uncoded
  case visits =>
    rw [hvisit', hrows']
    intro b hb hcoded
    have hfirst : skb ∈ s'.pool.first := by simp [s', freeSkb, hused]
    rcases h.visits b hb hcoded with hrow | hfree
    · rw [hrows, List.mem_cons] at hrow
      rcases hrow with rfl | hleft
      · exact Or.inr hfirst
      · exact Or.inl hleft
    · exact Or.inr (mem_first_free hfree)
  case sending => exact fun _ hp => by contradiction
  case hand => exact h.hand
  case locked =>
    rw [hreleased', ← hreleased]
    exact h.locked
  case emptied => exact fun _ hp => by contradiction

theorem rowsFreed (h : BuffersInv s) (hphase : s.phase = .freeingRows []) :
    BuffersInv
      { s with
        blocks := update s.blocks (slot s.currBlock) []
        phase := .freeingQueue (qFreed (s.codedQ (slot s.currBlock))) } := by
  have hreleased : s.released = some (slot s.currBlock) := by simp [Buffers.released, hphase]
  have hrows : s.rowsToFree = [] := by simp [Buffers.rowsToFree, hphase]
  have hvisit : s.toVisit = qFreed (s.codedQ (slot s.currBlock)) := by
    simp [Buffers.toVisit, hphase]
  let s' : Buffers :=
    { s with
      blocks := update s.blocks (slot s.currBlock) []
      phase := .freeingQueue (qFreed (s.codedQ (slot s.currBlock))) }
  change BuffersInv s'
  have hreleased' : s'.released = some (slot s.currBlock) := rfl
  have hvisit' : s'.toVisit = s.toVisit := hvisit.symm
  have hblocks : ∀ k, k ≠ slot s.currBlock → s'.blocks k = s.blocks k :=
    fun k hk => update_of_ne hk _ _
  constructor
  case placed =>
    apply h.placed.congr
    intro p
    cases p with
    | server => simp [s', Buffers.bag, hphase]
    | rows k =>
        by_cases he : k = slot s.currBlock
        · subst he
          rw [bag_rows_released hreleased, bag_rows_released hreleased', hrows]
          rfl
        · rw [bag_rows (not_released hreleased he), bag_rows (not_released hreleased' he),
            hblocks k he]
    | queue k =>
        refine bag_queue_congr ?_ fun _ _ => rfl
        rw [Buffers.queueLeft, Buffers.queueLeft, hreleased', hreleased, hvisit']
    | _ => rfl
  case marked => exact h.marked
  case queues => exact h.queues
  case uncoded =>
    rw [hreleased', ← hreleased]
    intro k hk b hb hcoded
    rw [hblocks k fun he => hk (by rw [he, hreleased])]
    exact h.uncoded k hk b hb hcoded
  case visits =>
    rw [hvisit']
    intro b hb hcoded
    right
    exact (h.visits b hb hcoded).resolve_left (by simp [hrows])
  case sending => exact fun _ hp => by contradiction
  case hand => exact h.hand
  case locked =>
    rw [hreleased', ← hreleased]
    exact h.locked
  case emptied => exact fun _ _ => update_self ..

/-- A coded packet is freed. The buffer of a row is free already, and nothing happens. -/
theorem freeQueued (h : BuffersInv s) {skb : Skb} {left : List Skb}
    (hphase : s.phase = .freeingQueue (skb :: left)) :
    BuffersInv { s with pool := freeSkb s.pool skb, phase := .freeingQueue left } := by
  have hreleased : s.released = some (slot s.currBlock) := by simp [Buffers.released, hphase]
  have hrows : s.rowsToFree = [] := by simp [Buffers.rowsToFree, hphase]
  have hvisit : s.toVisit = skb :: left := by simp [Buffers.toVisit, hphase]
  let s' : Buffers := { s with pool := freeSkb s.pool skb, phase := .freeingQueue left }
  change BuffersInv s'
  have hreleased' : s'.released = some (slot s.currBlock) := rfl
  have hrest : ∀ p, p ≠ .pool → p ≠ .queue (slot s.currBlock) → s'.bag p = s.bag p := by
    intro p hpool hne
    cases p with
    | server => simp [s', Buffers.bag, hphase]
    | rows k =>
        rw [Buffers.bag, Buffers.bag, Buffers.rowsLeft, Buffers.rowsLeft, hreleased', hreleased,
          hrows]
        rfl
    | queue k =>
        have he : k ≠ slot s.currBlock := fun he => hne (by rw [he])
        rw [bag_queue (not_released hreleased he), bag_queue (not_released hreleased' he)]
    | _ => first | rfl | contradiction
  have hqueue : s.bag (.queue (slot s.currBlock)) = if s.coded skb = true then
      skb ::ₘ s'.bag (.queue (slot s.currBlock)) else s'.bag (.queue (slot s.currBlock)) := by
    have hcoded' : s'.coded = s.coded := rfl
    have hvisit' : s'.toVisit = left := rfl
    rw [bag_queue_released hreleased, bag_queue_released hreleased', hvisit, hvisit', hcoded',
      List.filter_cons]
    split <;> rfl
  constructor
  case placed =>
    rw [show s'.pool.num = s.pool.num from num_freeSkb _ _]
    by_cases hcoded : s.coded skb = true
    · have hat : skb ∈ s.bag (.queue (slot s.currBlock)) := by
        rw [hqueue, if_pos hcoded]
        exact Multiset.mem_cons_self _ _
      apply h.placed.free (q := .queue (slot s.currBlock)) rfl rfl
        (h.free_used (by simp) hat) (by simp) _ hrest
      rw [hqueue, if_pos hcoded]
    · have hfree : skb ∈ s.pool.first := by
        refine (h.visits skb ?_ (by simpa using hcoded)).resolve_left (by simp [hrows])
        rw [hvisit]
        exact List.mem_cons_self
      have hunused : s.pool.used skb = false := by
        by_contra hused
        exact ((h.marked skb).mp (by simpa using hused)).2 hfree
      have hpool : s'.pool = s.pool := if_pos hunused
      apply h.placed.congr
      intro p
      by_cases hp : p = .pool
      · rw [hp, Buffers.bag, Buffers.bag, hpool]
      · by_cases hq : p = .queue (slot s.currBlock)
        · rw [hq, hqueue, if_neg hcoded]
        · exact hrest p hp hq
  case marked => exact h.marked.free
  case queues => exact h.queues
  case uncoded =>
    rw [hreleased', ← hreleased]
    exact h.uncoded
  case visits =>
    intro b hb hcoded
    right
    have hmem : b ∈ s.toVisit := by
      rw [hvisit]
      exact List.mem_cons_of_mem skb hb
    exact mem_first_free ((h.visits b hmem hcoded).resolve_left (by simp [hrows]))
  case sending => exact fun _ hp => by contradiction
  case hand => exact h.hand
  case locked =>
    rw [hreleased', ← hreleased]
    exact h.locked
  case emptied => exact fun _ _ => h.emptied _ hphase

/-- The slot has nothing any more. -/
theorem released (h : BuffersInv s) (hphase : s.phase = .freeingQueue []) {c m : ℕ} :
    BuffersInv
      { s with
        codedQ := update s.codedQ (slot s.currBlock) (qReset (s.codedQ (slot s.currBlock)))
        currBlock := c
        maxblockno := m
        phase := .acking } := by
  have hreleased : s.released = some (slot s.currBlock) := by simp [Buffers.released, hphase]
  have hrows : s.rowsToFree = [] := by simp [Buffers.rowsToFree, hphase]
  have hvisit : s.toVisit = [] := by simp [Buffers.toVisit, hphase]
  let s' : Buffers :=
    { s with
      codedQ := update s.codedQ (slot s.currBlock) (qReset (s.codedQ (slot s.currBlock)))
      currBlock := c
      maxblockno := m
      phase := .acking }
  change BuffersInv s'
  have hnone' : ∀ k, s'.released ≠ some k := by simp [s', Buffers.released]
  have hq : s'.codedQ = update s.codedQ (slot s.currBlock)
    (qReset (s.codedQ (slot s.currBlock))) := rfl
  constructor
  case placed =>
    apply h.placed.congr
    intro p
    cases p with
    | server => simp [s', Buffers.bag, hphase]
    | rows k =>
        rw [bag_rows (hnone' k)]
        by_cases he : k = slot s.currBlock
        · subst he
          rw [bag_rows_released hreleased, hrows]
          exact congrArg _ (h.emptied _ hphase)
        · rw [bag_rows (not_released hreleased he)]
    | queue k =>
        rw [bag_queue (hnone' k), hq]
        by_cases he : k = slot s.currBlock
        · subst he
          rw [bag_queue_released hreleased, hvisit, update_self, contents_qReset]
        · rw [bag_queue (not_released hreleased he), update_of_ne he]
    | _ => rfl
  case marked => exact h.marked
  case queues =>
    intro k
    rw [hq]
    by_cases he : k = slot s.currBlock
    · subst he
      rw [update_self]
      exact ⟨(h.queues _).1.qReset, (h.queues _).2⟩
    · rw [update_of_ne he]
      exact h.queues k
  case uncoded =>
    intro k _ b hb
    rw [hq] at hb
    by_cases he : k = slot s.currBlock
    · subst he
      rw [update_self, contents_qReset] at hb
      exact absurd hb List.not_mem_nil
    · rw [update_of_ne he] at hb
      exact h.uncoded k (not_released hreleased he) b hb
  case visits => exact fun b hb => absurd hb List.not_mem_nil
  case sending => exact fun _ hp => by contradiction
  case hand => exact h.hand
  case locked => exact fun _ _ _ => hnone' _
  case emptied => exact fun _ hp => by contradiction

/-- The server thread enters or leaves `handle_ack`. -/
theorem quiet (h : BuffersInv s) (hphase : s.phase = .idle ∨ s.phase = .acking)
    {phase : BufferPhase} (hphase' : phase = .idle ∨ phase = .acking) :
    BuffersInv { s with phase := phase } := by
  have hnone : ∀ k, s.released ≠ some k := by
    rcases hphase with hp | hp <;> simp [Buffers.released, hp]
  have hnone' : ∀ k, ({ s with phase := phase } : Buffers).released ≠ some k := by
    rcases hphase' with rfl | rfl <;> simp [Buffers.released]
  constructor
  case placed =>
    apply h.placed.congr
    intro p
    cases p with
    | server =>
        rcases hphase with hp | hp <;> rcases hphase' with rfl | rfl <;> simp [Buffers.bag, hp]
    | rows k => rw [bag_rows (hnone k), bag_rows (hnone' k)]
    | queue k => rw [bag_queue (hnone k), bag_queue (hnone' k)]
    | _ => rfl
  case marked => exact h.marked
  case queues => exact h.queues
  case uncoded => exact fun k _ => h.uncoded k (hnone k)
  case visits =>
    intro b hb
    obtain ⟨k, hk⟩ := released_of_mem_toVisit hb
    exact absurd hk (hnone' k)
  case sending =>
    rintro b rfl
    rcases hphase' with hp | hp <;> contradiction
  case hand => exact h.hand
  case locked => exact fun _ _ _ => hnone' _
  case emptied =>
    rintro left rfl
    rcases hphase' with hp | hp <;> contradiction

theorem borrow (h : BuffersInv s) (hnew : NewBuffer s (allocSkb s.pool).1) :
    BuffersInv { s with pool := (allocSkb s.pool).2, own := (allocSkb s.pool).1 :: s.own } := by
  constructor
  case placed =>
    apply h.placed.alloc (q := .own) rfl rfl (by simp) rfl
    intro p hpool hne
    cases p with
    | _ => first | rfl | contradiction
  case marked => exact h.marked_alloc
  case queues => exact h.queues
  case uncoded => exact h.uncoded
  case visits => exact fun b hb hcoded => h.visits_alloc hnew hb hcoded
  case sending => exact h.sending
  case hand => exact h.hand
  case locked => exact h.locked
  case emptied => exact h.emptied

theorem giveBack (h : BuffersInv s) {skb : Skb} (hskb : skb ∈ s.own) :
    BuffersInv { s with pool := freeSkb s.pool skb, own := s.own.erase skb } := by
  have hat : skb ∈ s.bag .own := hskb
  constructor
  case placed =>
    rw [num_freeSkb]
    apply h.placed.free (q := .own) rfl rfl (h.free_used (by simp) hat) (by simp)
    · exact Multiset.coe_eq_coe.mpr (List.perm_cons_erase hskb)
    · intro p hpool hne
      cases p with
      | _ => first | rfl | contradiction
  case marked => exact h.marked.free
  case queues => exact h.queues
  case uncoded => exact h.uncoded
  case visits =>
    exact fun b hb hcoded => (h.visits b hb hcoded).imp_right fun hfree => mem_first_free hfree
  case sending => exact h.sending
  case hand => exact h.hand
  case locked => exact h.locked
  case emptied => exact h.emptied

end BuffersInv

end Ctcp
