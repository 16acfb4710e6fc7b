import Ctcp.Verification.Pipeline.Invariant
import Ctcp.Verification.Pipeline.Late

/-! # Packets of the block that they name -/

namespace Ctcp

open Function

/-! ## Packets and rows -/

/-- A packet of block `b`: one of its rows, or a combination of its first rows. -/
structure PacketOf (rows : List Payload) (b : ℕ) (msg : DataPckt) : Prop where
  blockno_eq : msg.blockno = b
  made : (∃ row < rows.length, msg = rowPacket rows b row) ∨
    ∃ n ≤ rows.length, CodedFrom (rows.take n) b msg

/-- New rows come behind the old ones. -/
theorem PacketOf.append {rows : List Payload} {b : ℕ} {msg : DataPckt}
    (h : PacketOf rows b msg) (added : List Payload) : PacketOf (rows ++ added) b msg := by
  refine ⟨h.blockno_eq, ?_⟩
  rcases h.made with ⟨row, hrow, hmsg⟩ | ⟨n, hn, hcoded⟩
  · left
    refine ⟨row, ?_, ?_⟩
    · rw [List.length_append]
      omega
    · rw [hmsg, rowPacket, rowPacket, List.getD_append _ _ _ _ hrow]
  · right
    refine ⟨n, ?_, ?_⟩
    · rw [List.length_append]
      omega
    · rwa [List.take_append_of_le_length hn]

theorem JobPackets.packetOf {rows : List Payload} {job : CodingJob} {msgs : List DataPckt}
    (h : JobPackets rows job msgs) {msg : DataPckt} (hmsg : msg ∈ msgs) :
    PacketOf rows job.blockno msg := by
  obtain ⟨coded, rfl, -, hcoded⟩ := h.split
  rcases List.mem_append.mp hmsg with hrow | hcode
  · unfold uncodedPackets at hrow
    split_ifs at hrow
    · obtain ⟨row, hin, rfl⟩ := List.mem_map.mp hrow
      obtain ⟨hge, hlt⟩ := List.mem_range'_1.mp hin
      have hmin : min (job.start + job.dofRequest) rows.length ≤ (rows.length : ℤ) :=
        min_le_right _ _
      exact ⟨rfl, .inl ⟨row, by omega, rfl⟩⟩
    · exact (List.not_mem_nil hrow).elim
  · have hfrom := hcoded msg hcode
    refine ⟨hfrom.blockno_eq, .inr ⟨rows.length, le_rfl, ?_⟩⟩
    rwa [List.take_length]

/-! ## The invariant -/

/-- The ring holds the blocks of the window. -/
def Slots.Holds (x : Slots) : Prop :=
  ∀ b, x.currBlock ≤ b → b < x.currBlock + numBlocks → x.blocks (slot b) = x.filled b

/-- Jobs are added for blocks of the window, and rows come in when no job is late. -/
def KeepsWindow (x : Slots) (e : SlotEvent) : Prop :=
  RefillsOnTime x e ∧ ∀ b need, e = .assign b need → b < x.currBlock + numBlocks

structure OwnInv (x : Slots) : Prop where
  window : ∀ t ∈ x.tasks, t.fresh → t.job.blockno < x.currBlock + numBlocks
  left : ∀ t ∈ x.tasks, ∀ left, t.stage = .pushing left →
    ∀ msg ∈ left, PacketOf (x.filled t.job.blockno) t.job.blockno msg
  queue : ∀ b, x.currBlock ≤ b → b < x.currBlock + numBlocks →
    ∀ msg ∈ x.queue (slot b), PacketOf (x.filled b) b msg
  pushed : ∀ msg ∈ x.pushed, PacketOf (x.filled msg.blockno) msg.blockno msg

variable {cap : ℕ} {x x' : Slots}

theorem PacketOf.addRows {filled : Filled} {b b' : ℕ} {added : List Payload} {msg : DataPckt}
    (h : PacketOf (filled b') b' msg) : PacketOf (addRows filled b added b') b' msg := by
  by_cases hb : b' = b
  · subst hb
    rw [Ctcp.addRows, update_self]
    exact h.append added
  · rw [Ctcp.addRows, update_of_ne hb]
    exact h

theorem OwnInv.fill (h : OwnInv x) {b : ℕ} {added : List Payload}
    (hlt : b < x.currBlock + numBlocks) : OwnInv (x.fill b added) := by
  constructor
  case window =>
    intro t ht hfresh
    rcases List.mem_append.mp ht with hold | hnew
    · exact h.window t hold hfresh
    · obtain rfl := List.mem_singleton.mp hnew
      exact hlt
  case left =>
    intro t ht left hstage msg hmsg
    rcases List.mem_append.mp ht with hold | hnew
    · exact (h.left t hold left hstage msg hmsg).addRows
    · obtain rfl := List.mem_singleton.mp hnew
      simp at hstage
  case queue => exact fun b' hb hb' msg hmsg => (h.queue b' hb hb' msg hmsg).addRows
  case pushed => exact fun msg hmsg => (h.pushed msg hmsg).addRows

theorem OwnInv.assign (h : OwnInv x) {b : ℕ} (need : ℕ) (hlt : b < x.currBlock + numBlocks) :
    OwnInv (x.assign b need) := by
  constructor
  case window =>
    intro t ht hfresh
    rcases List.mem_append.mp ht with hold | hnew
    · exact h.window t hold hfresh
    · obtain rfl := List.mem_singleton.mp hnew
      exact hlt
  case left =>
    intro t ht left hstage
    rcases List.mem_append.mp ht with hold | hnew
    · exact h.left t hold left hstage
    · obtain rfl := List.mem_singleton.mp hnew
      simp at hstage
  case queue => exact h.queue
  case pushed => exact h.pushed

theorem OwnInv.pop (h : OwnInv x) {b : ℕ} {msg : DataPckt} {q : List DataPckt}
    (hq : x.queue (slot b) = msg :: q) (hand : ℕ → ℤ) :
    OwnInv { x with queue := update x.queue (slot b) q, inHand := hand } := by
  refine ⟨h.window, h.left, fun b' hb hb' m hm => ?_, h.pushed⟩
  apply h.queue b' hb hb'
  by_cases hs : slot b' = slot b
  · rw [hs, hq]
    simp only [hs, update_self] at hm
    exact List.mem_cons_of_mem _ hm
  · simpa [update_of_ne hs] using hm

theorem OwnInv.free (h : OwnInv x) : OwnInv x.free := by
  constructor
  case window =>
    intro t' ht' hfresh
    obtain ⟨t, ht, rfl⟩ := List.mem_map.mp ht'
    have hlt := h.window t ht ((Task.fresh_age _ _).mp hfresh).1
    rw [Task.job_age]
    change _ < x.currBlock + 1 + numBlocks
    omega
  case left =>
    intro t' ht' left hstage
    obtain ⟨t, ht, rfl⟩ := List.mem_map.mp ht'
    rw [Task.stage_age] at hstage
    rw [Task.job_age]
    exact h.left t ht left hstage
  case queue =>
    intro b hb hb' msg hmsg
    change x.currBlock + 1 ≤ b at hb
    change b < x.currBlock + 1 + numBlocks at hb'
    by_cases hlast : b = x.currBlock + numBlocks
    · subst hlast
      simp [Slots.free] at hmsg
    · have hs : slot b ≠ slot x.currBlock := fun hs =>
        absurd (slot_inj hs (by omega) (by omega) le_rfl (Nat.lt_add_of_pos_right (by decide)))
          (by omega)
      have hsame : x.free.queue (slot b) = x.queue (slot b) := update_of_ne hs _ _
      rw [hsame] at hmsg
      exact h.queue b (by omega) (by omega) msg hmsg
  case pushed => exact h.pushed

/-- One job is replaced or removed, and its packets stay those of its block. -/
theorem OwnInv.replace (h : OwnInv x) (new : List Task) {pre post : List Task} {t : Task}
    (htasks : x.tasks = pre ++ t :: post)
    (hsame : ∀ t' ∈ new, t'.job = t.job ∧ t'.fresh = t.fresh)
    (hleft : ∀ t' ∈ new, ∀ left, t'.stage = .pushing left →
      ∀ msg ∈ left, PacketOf (x.filled t.job.blockno) t.job.blockno msg) :
    OwnInv { x with tasks := pre ++ new ++ post } := by
  have hmem : ∀ t' ∈ pre ++ new ++ post, t' ∈ x.tasks ∨ t' ∈ new :=
    fun _ => mem_replace htasks
  constructor
  case window =>
    intro t' ht' hfresh
    rcases hmem t' ht' with hold | hin
    · exact h.window t' hold hfresh
    · obtain ⟨hjob, hf⟩ := hsame t' hin
      rw [hjob]
      exact h.window t (by simp [htasks]) (hf ▸ hfresh)
  case left =>
    intro t' ht' left hstage msg hmsg
    rcases hmem t' ht' with hold | hin
    · exact h.left t' hold left hstage msg hmsg
    · rw [(hsame t' hin).1]
      exact hleft t' hin left hstage msg hmsg
  case queue => exact h.queue
  case pushed => exact h.pushed

/-- A packet of block `b` comes to the queue of block `b`. -/
theorem OwnInv.push (h : OwnInv x) (hinv : SlotsInv x) {t : Task} (ht : t ∈ x.tasks)
    (hfresh : t.fresh) {msg : DataPckt}
    (hmsg : PacketOf (x.filled t.job.blockno) t.job.blockno msg) :
    OwnInv
      { x with
        queue := update x.queue t.slot (x.queue t.slot ++ [msg])
        pushed := x.pushed ++ [msg] } := by
  constructor
  case window => exact h.window
  case left => exact h.left
  case queue =>
    intro b hb hb' m hm
    by_cases hs : slot b = t.slot
    · obtain rfl : b = t.job.blockno :=
        slot_inj hs hb hb' (hinv.fresh t ht hfresh).current (h.window t ht hfresh)
      simp only [hs, update_self] at hm
      rcases List.mem_append.mp hm with hold | hnew
      · exact h.queue _ hb hb' m (by rwa [hs])
      · exact List.mem_singleton.mp hnew ▸ hmsg
    · simp only [update_of_ne hs] at hm
      exact h.queue b hb hb' m hm
  case pushed =>
    intro m hm
    rcases List.mem_append.mp hm with hold | hnew
    · exact h.pushed m hold
    · obtain rfl := List.mem_singleton.mp hnew
      rwa [hmsg.blockno_eq]

theorem OwnInv.work (h : OwnInv x) (hinv : SlotsInv x) (hont : OnTime x) (hheld : x.Holds)
    (hstep : WorkStep cap x x') : OwnInv x' := by
  cases hstep with
  | skip htasks _ _ | giveUp htasks _ _ | finish htasks _ =>
      simpa using h.replace [] htasks (by simp) (by simp)
  | @check pre post t htasks _ _ =>
      simpa using h.replace [{ t with stage := .checked }] htasks (by simp) (by simp)
  | @run pre post t msgs htasks hstage hrows hmsgs =>
      have hmem : t ∈ x.tasks := by simp [htasks]
      have hfresh := hont.fresh_of_run hmem hstage hrows
      have hfilled : x.blocks t.slot = x.filled t.job.blockno :=
        hheld _ (hinv.fresh t hmem hfresh).current (h.window t hmem hfresh)
      rw [hfilled] at hmsgs
      have hstill := h.replace [{ t with stage := .pushing msgs }] htasks (by simp)
        (fun t' ht' left hleft msg hmsg => by
          obtain rfl := List.mem_singleton.mp ht'
          obtain rfl := Stage.pushing.inj hleft
          exact hmsgs.packetOf hmsg)
      simpa using hstill
  | @push pre post t msg left htasks hstage _ =>
      have hmem : t ∈ x.tasks := by simp [htasks]
      have hfresh := hont.holds_fresh t hmem ⟨_, hstage⟩
      have hown := h.left t hmem _ hstage
      have hpush := h.push hinv hmem hfresh (hown msg List.mem_cons_self)
      have hstill := hpush.replace [{ t with stage := .pushing left }] htasks (by simp)
        (fun t' ht' left' hleft m hm => by
          obtain rfl := List.mem_singleton.mp ht'
          obtain rfl := Stage.pushing.inj hleft
          exact hown m (List.mem_cons_of_mem _ hm))
      simpa using hstill

theorem OwnInv.step {e : SlotEvent} (h : OwnInv x) (hinv : SlotsInv x) (hont : OnTime x)
    (hheld : x.Holds) (hkeep : KeepsWindow x e) (hstep : SlotStep cap x e x') : OwnInv x' := by
  cases hstep with
  | stay => exact h
  | fill _ _ hlt => exact h.fill hlt
  | @assign b need _ _ _ => exact h.assign need (hkeep.2 b need rfl)
  | pop hq _ => exact h.pop hq _
  | decrement _ _ => exact ⟨h.window, h.left, h.queue, h.pushed⟩
  | free _ _ => exact h.free
  | work hw => exact h.work hinv hont hheld hw

end Ctcp
