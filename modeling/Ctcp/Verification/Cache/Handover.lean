import Ctcp.Verification.Cache.EndOfStream
import Ctcp.Verification.Decoder.Bounds

/-! # One block, from its first packet to its last row -/

namespace Ctcp

open Function Program

/-! ## Calls on the buffer -/

/-- The next call of a program, as `usr_cache` answers it; a push into a full buffer waits. -/
def callStep {α : Type} (Q : Fifo) : FifoProgram α → Option (Fifo × FifoProgram α)
  | .done _ => none
  | .call .getspace k => some (Q, k (fifoGetspace Q))
  | .call (.push bytes) k => (fifoPush Q bytes).map fun pushed => (pushed.2, k pushed.1)

/-- A call leaves what is still ensured of the bytes handed over in all. -/
theorem callStep_ensures {α : Type} {Q Q' : Fifo} {prog prog' : FifoProgram α} {read : List UInt8}
    (post : List UInt8 → α → Prop) (hQ : Q.Inv) (hreleased : Q.released = false)
    (hprog : prog.Ensures Drained fun t a => post (read ++ Q.contents ++ pushedBytes t) a)
    (h : callStep Q prog = some (Q', prog')) :
    Q'.Inv ∧ Q'.released = false ∧
      prog'.Ensures Drained fun t a => post (read ++ Q'.contents ++ pushedBytes t) a := by
  cases prog with
  | done a => cases h
  | call c k =>
      cases c with
      | getspace =>
          cases h
          exact ⟨hQ, hreleased, (hprog (fifoGetspace Q) trivial).mono fun t a h => by simpa using h⟩
      | push bytes =>
          obtain ⟨⟨n, Q₁⟩, hpush, heq⟩ := Option.map_eq_some_iff.mp h
          cases heq
          have hspec := fifoPush_spec hQ hpush
          refine ⟨hspec.inv, hspec.released_eq.trans hreleased, ?_⟩
          refine (hprog n (drained_of_pushedSpec hspec hreleased)).mono fun t a h => ?_
          simpa [hspec.contents_eq] using h

/-! ## The system -/

/-- Rows that lead with one, hold the combinations of source rows that their coefficients
say, and name no row that no packet has mentioned. -/
structure RowsListed (p : ℕ → Payload) (blk : CodedBlock) : Prop where
  lead : ∀ r < blockSize, blk.Occupied r → blk.rows r 0 = 1
  support : ∀ r < blockSize, blk.Occupied r → ∀ k < blk.rowLen r, blk.rows r k ≠ 0 →
    r + k < blk.maxPacketIndex
  content_eq : ∀ r < blockSize, blk.Occupied r → ∃ content, blk.content r = some content ∧
    content.toVec = ∑ k ∈ Finset.range (blk.rowLen r), (⟨blk.rows r k⟩ : GF256) • (p (r + k)).toVec
  dofs_eq : blk.dofs = blk.occupied.card

/-- The rows and the index of the last packet also stay inside the block. -/
structure RowsHold (p : ℕ → Payload) (blk : CodedBlock) : Prop extends RowsListed p blk where
  rowLen_pos : ∀ r < blockSize, blk.Occupied r → 0 < blk.rowLen r
  rowLen_le : ∀ r < blockSize, blk.Occupied r → r + blk.rowLen r ≤ blockSize
  index_le : blk.maxPacketIndex ≤ blockSize

/-- Empty rows are filled or `max_packet_index` is raised; the stored rows stay, and all
rows satisfy `hold`. -/
structure Insertion (hold : CodedBlock → Prop) (blk blk' : CodedBlock) : Prop where
  len_eq : blk'.len = blk.len
  pushed_eq : blk'.dofsPushed = blk.dofsPushed
  kept : ∀ r < blockSize, blk.Occupied r →
    blk'.rows r = blk.rows r ∧ blk'.rowLen r = blk.rowLen r
  hold : hold blk'

/-- The handler between two calls on the block, in `partial_write`, in the two calls that
end the block, or behind them. -/
inductive BlockWorker where
  | idle (blk : CodedBlock)
  | pushing (prog : FifoProgram (Option CodedBlock))
  | writing (prog : FifoProgram (Option Unit))
  | written

/-- The handler, `usr_cache`, and the bytes that the application has read. -/
structure BlockSession where
  usrCache : Fifo
  worker : BlockWorker
  read : List UInt8

/-- `unwrap` and `writeAndFreeBlock`, as the decode loop calls them. -/
def writeBlock (rm : Residue) (blk : CodedBlock) : FifoProgram (Option Unit) :=
  match unwrap blk with
  | none => .done none
  | some blk => writeAndFreeBlock rm blk

inductive BlockEvent where
  | insert
  | push (rm : Residue)
  | write (rm : Residue)
  | call
  | finish
  | read (count : ℕ)

/-- The application reads between any two calls of the handler on `usr_cache`. -/
inductive BlockStep (hold : CodedBlock → Prop) :
    BlockSession → BlockEvent → BlockSession → Prop where
  | insert {s : BlockSession} {blk blk' : CodedBlock} (hidle : s.worker = .idle blk)
      (h : Insertion hold blk blk') : BlockStep hold s .insert { s with worker := .idle blk' }
  | push {s : BlockSession} {blk : CodedBlock} (rm : Residue) (hidle : s.worker = .idle blk)
      (hopen : blk.dofs < blk.len) :
      BlockStep hold s (.push rm) { s with worker := .pushing (partialWrite rm blk) }
  | pushCall {s : BlockSession} {Q : Fifo} {prog prog' : FifoProgram (Option CodedBlock)}
      (hpushing : s.worker = .pushing prog) (h : callStep s.usrCache prog = some (Q, prog')) :
      BlockStep hold s .call { s with usrCache := Q, worker := .pushing prog' }
  | pushed {s : BlockSession} {blk : CodedBlock}
      (hpushing : s.worker = .pushing (.done (some blk))) :
      BlockStep hold s .finish { s with worker := .idle blk }
  | write {s : BlockSession} {blk : CodedBlock} (rm : Residue) (hidle : s.worker = .idle blk)
      (hfull : blk.dofs = blk.len) :
      BlockStep hold s (.write rm) { s with worker := .writing (writeBlock rm blk) }
  | writeCall {s : BlockSession} {Q : Fifo} {prog prog' : FifoProgram (Option Unit)}
      (hwriting : s.worker = .writing prog) (h : callStep s.usrCache prog = some (Q, prog')) :
      BlockStep hold s .call { s with usrCache := Q, worker := .writing prog' }
  | wrote {s : BlockSession} (hwriting : s.worker = .writing (.done (some ()))) :
      BlockStep hold s .finish { s with worker := .written }
  | read {s : BlockSession} {Q : Fifo} {count : ℕ} {bytes : List UInt8}
      (h : fifoPop s.usrCache count = some (bytes, Q)) :
      BlockStep hold s (.read count) { s with usrCache := Q, read := s.read ++ bytes }

def blockSession (hold : CodedBlock → Prop) : System BlockSession BlockEvent where
  init s := ∃ raw maxSize, 0 < maxSize ∧ s = ⟨fifoInit maxSize, .idle (initCodedBlock raw), []⟩
  step := BlockStep hold

/-- All bytes appended to `usr_cache`: those read and those still there. -/
def BlockSession.handed (s : BlockSession) : List UInt8 := s.read ++ s.usrCache.contents

/-- The bytes appended are the payloads of the source rows, in order: of as many rows as
`dofs_pushed` says between two calls, and of all rows at the end. No call faults. -/
structure HandsOver (p : ℕ → Payload) (s : BlockSession) : Prop where
  inOrder : s.handed <+: rowBytes p 0 blockSize
  idle : ∀ blk, s.worker = .idle blk → blk.dofsPushed ≤ blockSize ∧
    s.handed = rowBytes p 0 blk.dofsPushed ∧ ∀ r < blk.dofsPushed, blk.content r = some (p r)
  written : s.worker = .written → s.handed = rowBytes p 0 blockSize
  noFault : s.worker ≠ .pushing (.done none) ∧ s.worker ≠ .writing (.done none)

/-! ## The invariant -/

variable {p : ℕ → Payload} {s s' : BlockSession} {blk blk' : CodedBlock} {rm : Residue}

/-- What the handler has handed over, and what it will have when it returns. -/
def BlockWorker.Sound (p : ℕ → Payload) (handed : List UInt8) : BlockWorker → Prop
  | .idle blk => BlockSound p blk ∧ handed = rowBytes p 0 blk.dofsPushed
  | .pushing prog => prog.Ensures Drained fun t res => ∃ blk, res = some blk ∧
      BlockSound p blk ∧ handed ++ pushedBytes t = rowBytes p 0 blk.dofsPushed
  | .writing prog => prog.Ensures Drained fun t res =>
      res = some () ∧ handed ++ pushedBytes t = rowBytes p 0 blockSize
  | .written => handed = rowBytes p 0 blockSize

structure BlockSessionInv (p : ℕ → Payload) (s : BlockSession) : Prop where
  cache : s.usrCache.Inv
  active : s.usrCache.released = false
  sound : s.worker.Sound p s.handed

/-- A row that has gone out stays decoded when other rows are stored. -/
theorem Insertion.sound (hp : BlockSound p blk) (h : Insertion (RowsHold p) blk blk') :
    BlockSound p blk' := by
  have hshape : BlockShape blk' :=
    { len_eq := h.len_eq.trans hp.len_eq
      lead := h.hold.lead
      rowLen_pos := h.hold.rowLen_pos
      rowLen_le := h.hold.rowLen_le
      support := h.hold.support
      held := fun r hr hocc => by
        obtain ⟨content, hcontent, -⟩ := h.hold.content_eq r hr hocc
        exact Option.isSome_iff_exists.mpr ⟨content, hcontent⟩
      dofs_eq := h.hold.dofs_eq
      index_le := h.hold.index_le
      pushed_le := h.pushed_eq ▸ hp.pushed_le
      pushed := fun r hr => by
        rw [h.pushed_eq] at hr
        obtain ⟨hocc, hzero⟩ := hp.pushed r hr
        obtain ⟨hrows, hlen⟩ := h.kept r (hr.trans_le hp.pushed_le) hocc
        rw [CodedBlock.Decoded, CodedBlock.Occupied, hrows, hlen]
        exact ⟨hocc, hzero⟩ }
  refine ⟨hshape, fun r hr hocc content hcontent => ?_⟩
  obtain ⟨content', hcontent', heq⟩ := h.hold.content_eq r hr hocc
  obtain rfl : content' = content := Option.some.inj (hcontent'.symm.trans hcontent)
  rw [heq, hshape.combine_rowVec hr hocc]

theorem partialWrite_hands (hframed : ∀ r < blockSize, (p r).Framed) (hp : BlockSound p blk)
    (hopen : blk.dofs < blk.len) :
    (partialWrite rm blk).Ensures Drained fun t res => ∃ blk', res = some blk' ∧
      BlockSound p blk' ∧
      rowBytes p 0 blk.dofsPushed ++ pushedBytes t = rowBytes p 0 blk'.dofsPushed := by
  rw [hp.len_eq] at hopen
  refine (partialWrite_spec hp.toBlockShape hopen).mono ?_
  rintro t res ⟨blk', rfl, hspec⟩
  refine ⟨blk', rfl, hspec.kept.sound p hp, ?_⟩
  have hout := hspec.out.resolve_left not_refused_drained p hp hframed
  have hadd := rowBytes_add p 0 blk.dofsPushed (blk'.dofsPushed - blk.dofsPushed)
  rw [Nat.add_sub_cancel' hspec.pushed_le, Nat.zero_add] at hadd
  rw [hout, hadd]

theorem writeBlock_hands (hframed : ∀ r < blockSize, (p r).Framed) (hp : BlockSound p blk)
    (hfull : blk.dofs = blk.len) :
    (writeBlock rm blk).Ensures Drained fun t res => res = some () ∧
      rowBytes p 0 blk.dofsPushed ++ pushedBytes t = rowBytes p 0 blockSize := by
  rw [hp.len_eq] at hfull
  have hindex := hp.dofs_eq_index_of_full hfull
  obtain ⟨blk₁, heq, hun⟩ := unwrap_spec hp.toBlockShape hindex
  have hdec : ∀ r < blockSize, blk₁.Decoded r :=
    fun r hr => hun.decoded r (Nat.zero_le _) (by omega)
  simp only [writeBlock, heq]
  refine (writeAndFreeBlock_spec hun.shape hdec).mono ?_
  rintro t res ⟨rfl, hout⟩
  have hbytes := hout.resolve_left not_refused_drained p (hun.sound p hp) hframed
  have hadd := rowBytes_add p 0 blk.dofsPushed (blockSize - blk.dofsPushed)
  rw [Nat.add_sub_cancel' hp.pushed_le, Nat.zero_add] at hadd
  exact ⟨rfl, by rw [hbytes, hun.pushed_eq, hadd]⟩

/-! ## The handler inserts -/

theorem BlockSound.rowsHold (h : BlockSound p blk) : RowsHold p blk :=
  { h with
    content_eq := fun r hr hocc => by
      obtain ⟨content, hcontent⟩ := Option.isSome_iff_exists.mp (h.held r hr hocc)
      exact ⟨content, hcontent,
        (h.content_eq r hr hocc content hcontent).trans (h.combine_rowVec hr hocc p)⟩ }

/-- A packet only fills an empty row. -/
theorem insertPacket_kept (hshape : BlockShape blk) {msg : DataPckt} (hrec : Recorded blk msg)
    (heq : insertPacket rm blk msg = some blk') {r : ℕ} (hocc : blk.Occupied r) :
    blk'.rows r = blk.rows r ∧ blk'.rowLen r = blk.rowLen r := by
  obtain ⟨_, start, coeff, pl, -, -, -, ⟨-, h⟩ | ⟨-, hfree, h⟩⟩ :=
    insertPacket_cases hshape hrec rm (I := fun _ _ _ _ => True)
      (fun _ _ _ _ _ _ _ _ _ _ => trivial) trivial
  · obtain rfl : blk = blk' := Option.some.inj (h.symm.trans heq)
    exact ⟨rfl, rfl⟩
  · obtain rfl := Option.some.inj (h.symm.trans heq)
    have hne : r ≠ start := fun he => hfree (he ▸ hocc)
    exact ⟨insertRow_rows_of_ne hne, insertRow_rowLen_of_ne hne⟩

/-- `unmarshallData` and the elimination loop insert a packet that is the combination
its header announces, if it is over one row or fits the rows it meets. -/
theorem insertion_of_packet (hp : BlockSound p blk) {msg : DataPckt} (hmsg : InBlock msg)
    (rm : Residue) (hpayload : msg.payload.toVec = combine p (msg.vector rm))
    (hfit : msg.numPackets.toNat ≤ 1 ∨ Fits rm blk msg) :
    ∃ blk', insertPacket rm (recordIndex blk msg) msg = some blk' ∧
      Insertion (RowsHold p) blk blk' := by
  have hrec := hp.recordIndex hmsg
  obtain ⟨blk', heq, hsound⟩ := insertPacket_sound hrec recorded_recordIndex rm hpayload
    (hfit.imp id fits_recordIndex.mpr)
  obtain ⟨blk₁, heq₁, hspec⟩ := insertPacket_spec hrec.toBlockShape recorded_recordIndex rm
  obtain rfl : blk₁ = blk' := Option.some.inj (heq₁.symm.trans heq)
  refine ⟨blk₁, heq, hsound.len_eq.trans hp.len_eq.symm, hspec.pushed_eq, fun r _ hocc => ?_,
    hsound.rowsHold⟩
  exact insertPacket_kept hrec.toBlockShape recorded_recordIndex heq hocc

/-! ## Runs -/

theorem BlockSessionInv.step (hframed : ∀ r < blockSize, (p r).Framed)
    (h : BlockSessionInv p s) {e : BlockEvent} (hstep : BlockStep (RowsHold p) s e s') :
    BlockSessionInv p s' := by
  have hsound := h.sound
  cases hstep with
  | insert hidle hins =>
      rw [hidle] at hsound
      refine ⟨h.cache, h.active, hins.sound hsound.1, ?_⟩
      rw [hins.pushed_eq]
      exact hsound.2
  | push rm hidle hopen =>
      rw [hidle] at hsound
      refine ⟨h.cache, h.active, ?_⟩
      refine (partialWrite_hands hframed hsound.1 hopen).mono fun t res hres => ?_
      rw [← hsound.2] at hres
      exact hres
  | pushCall hpushing hcall =>
      rw [hpushing] at hsound
      obtain ⟨hcache, hactive, hrest⟩ := callStep_ensures
        (fun bytes res => ∃ blk, res = some blk ∧ BlockSound p blk ∧
          bytes = rowBytes p 0 blk.dofsPushed) h.cache h.active hsound hcall
      exact ⟨hcache, hactive, hrest⟩
  | pushed hpushing =>
      rw [hpushing] at hsound
      obtain ⟨blk, hblk, hp, hbytes⟩ := hsound
      cases hblk
      rw [pushedBytes_nil, List.append_nil] at hbytes
      exact ⟨h.cache, h.active, hp, hbytes⟩
  | write rm hidle hfull =>
      rw [hidle] at hsound
      refine ⟨h.cache, h.active, ?_⟩
      refine (writeBlock_hands hframed hsound.1 hfull).mono fun t res hres => ?_
      rw [← hsound.2] at hres
      exact hres
  | writeCall hwriting hcall =>
      rw [hwriting] at hsound
      obtain ⟨hcache, hactive, hrest⟩ := callStep_ensures
        (fun bytes res => res = some () ∧ bytes = rowBytes p 0 blockSize) h.cache h.active
        hsound hcall
      exact ⟨hcache, hactive, hrest⟩
  | wrote hwriting =>
      rw [hwriting] at hsound
      have hbytes := hsound.2
      rw [pushedBytes_nil, List.append_nil] at hbytes
      exact ⟨h.cache, h.active, hbytes⟩
  | @read Q count bytes hpop =>
      have hspec := fifoPop_spec h.cache hpop
      have hhanded : s.read ++ bytes ++ Q.contents = s.handed := by
        rw [BlockSession.handed, hspec.bytes_eq, hspec.contents_eq, List.append_assoc,
          List.take_append_drop]
      refine ⟨hspec.inv, hspec.released_eq.trans h.active, ?_⟩
      change s.worker.Sound p (s.read ++ bytes ++ Q.contents)
      rwa [hhanded]

theorem blockSession_inv (hframed : ∀ r < blockSize, (p r).Framed)
    (h : (blockSession (RowsHold p)).Reachable s) : BlockSessionInv p s := by
  refine h.invariant ?_ fun s e s' hs hstep => hs.step hframed hstep
  rintro s ⟨raw, maxSize, hpos, rfl⟩
  exact ⟨fifoInv_fifoInit hpos, rfl, blockSound_init p raw, rfl⟩

theorem rowBytes_prefix_of_le (p : ℕ → Payload) {n : ℕ} (hn : n ≤ blockSize) :
    rowBytes p 0 n <+: rowBytes p 0 blockSize := by
  refine ⟨rowBytes p (0 + n) (blockSize - n), ?_⟩
  rw [← rowBytes_add, Nat.add_sub_cancel' hn]

/-- Whatever the handler is doing, some way for it to go on ends with rows of the block. -/
theorem BlockWorker.Sound.inOrder {handed : List UInt8} {worker : BlockWorker}
    (h : worker.Sound p handed) : handed <+: rowBytes p 0 blockSize := by
  cases worker with
  | idle blk => exact h.2 ▸ rowBytes_prefix_of_le p h.1.pushed_le
  | pushing prog =>
      obtain ⟨blk, -, hp, hbytes⟩ :=
        ensures_iff.mp h _ _ (runs_runWith drainReply drained_drainReply)
      exact List.IsPrefix.trans ⟨_, hbytes⟩ (rowBytes_prefix_of_le p hp.pushed_le)
  | writing prog =>
      obtain ⟨-, hbytes⟩ := ensures_iff.mp h _ _ (runs_runWith drainReply drained_drainReply)
      exact ⟨_, hbytes⟩
  | written => exact (show handed = _ from h) ▸ List.prefix_rfl

theorem handsOver_of_reachable (hframed : ∀ r < blockSize, (p r).Framed)
    (h : (blockSession (RowsHold p)).Reachable s) : HandsOver p s := by
  have hsound := (blockSession_inv hframed h).sound
  constructor
  case inOrder => exact hsound.inOrder
  case idle =>
    intro blk hidle
    rw [hidle] at hsound
    refine ⟨hsound.1.pushed_le, hsound.2, fun r hr => ?_⟩
    exact hsound.1.content_of_decoded (hsound.1.pushed r hr) (hr.trans_le hsound.1.pushed_le)
  case written =>
    intro hwritten
    rw [hwritten] at hsound
    exact hsound
  case noFault =>
    constructor
    · intro hfault
      rw [hfault] at hsound
      obtain ⟨blk, hblk, -⟩ := hsound
      cases hblk
    · intro hfault
      rw [hfault] at hsound
      cases hsound.1

/-- The answers of `usr_cache` to a program that never has to wait, and what it returns. -/
def runCalls {α : Type} : ℕ → Fifo → FifoProgram α → Option (Fifo × α)
  | _, Q, .done a => some (Q, a)
  | 0, _, .call _ _ => none
  | fuel + 1, Q, .call c k => (callStep Q (.call c k)).bind fun next => runCalls fuel next.1 next.2

/-- The handler makes its calls one after the other. -/
theorem reachable_runCalls {α : Type} {hold : CodedBlock → Prop}
    {worker : FifoProgram α → BlockWorker}
    (hcall : ∀ (s : BlockSession) Q prog prog', s.worker = worker prog →
      callStep s.usrCache prog = some (Q, prog') →
      BlockStep hold s .call { s with usrCache := Q, worker := worker prog' })
    {fuel : ℕ} {Q Q' : Fifo} {prog : FifoProgram α} {a : α} {read : List UInt8}
    (hs : (blockSession hold).Reachable ⟨Q, worker prog, read⟩)
    (hrun : runCalls fuel Q prog = some (Q', a)) :
    (blockSession hold).Reachable ⟨Q', worker (.done a), read⟩ := by
  induction fuel generalizing Q prog with
  | zero =>
      cases prog with
      | done b => cases hrun; exact hs
      | call c k => cases hrun
  | succ fuel ih =>
      cases prog with
      | done b => cases hrun; exact hs
      | call c k =>
          obtain ⟨next, hnext, hrest⟩ := Option.bind_eq_some_iff.mp hrun
          exact ih (hs.step (hcall _ _ _ _ rfl hnext)) hrest

namespace ThirtyTwoRows

/-- Row `r` carries one byte, its own number. -/
def source (r : ℕ) : Payload := fun i => if i.val = 1 then 1 else if i.val = 2 then .ofNat r else 0

/-- Row 0 by itself; `pushed` rows have gone out. -/
def firstRow (pushed : ℕ) : CodedBlock where
  dofs := 1
  len := blockSize
  rows r k := if r = 0 then if k = 0 then 1 else 0 else emptyRow
  rowLen r := if r = 0 then 1 else 0
  content r := if r = 0 then some (source 0) else none
  dofsPushed := pushed
  maxPacketIndex := 1

/-- All rows, with the sum of the rows 1 and 2 in the place of row 1. -/
def allRows : CodedBlock where
  dofs := blockSize
  len := blockSize
  rows r k := if k = 0 then 1 else if r = 1 ∧ k = 1 then 1 else 0
  rowLen r := if r = 1 then 2 else 1
  content r := some fun i => if r = 1 then source 1 i ^^^ source 2 i else source r i
  dofsPushed := 1
  maxPacketIndex := blockSize

theorem occupied_firstRow {pushed r : ℕ} : (firstRow pushed).Occupied r ↔ r = 0 := by
  by_cases hr : r = 0 <;> simp [CodedBlock.Occupied, firstRow, hr, emptyRow]

theorem insertion_firstRow (raw : CodedBlock) :
    Insertion (RowsHold source) (initCodedBlock raw) (firstRow 0) := by
  refine ⟨rfl, rfl, fun r hr hocc => (not_occupied_init _ hr hocc).elim, ?_⟩
  constructor
  constructor
  case lead =>
    intro r _ hocc
    obtain rfl := occupied_firstRow.mp hocc
    rfl
  case support =>
    intro r _ hocc k hk _
    obtain rfl := occupied_firstRow.mp hocc
    exact (Nat.zero_add k).trans_lt hk
  case content_eq =>
    intro r _ hocc
    obtain rfl := occupied_firstRow.mp hocc
    refine ⟨_, rfl, ?_⟩
    simp [firstRow, GF256.mk_one]
  case dofs_eq => decide +kernel
  case rowLen_pos =>
    intro r _ hocc
    obtain rfl := occupied_firstRow.mp hocc
    exact Nat.one_pos
  case rowLen_le =>
    intro r _ hocc
    obtain rfl := occupied_firstRow.mp hocc
    decide
  case index_le => decide

theorem insertion_allRows : Insertion (RowsHold source) (firstRow 1) allRows := by
  refine ⟨rfl, rfl, fun r _ hocc => ?_, ?_⟩
  · obtain rfl := occupied_firstRow.mp hocc
    exact ⟨funext fun k => by simp [firstRow, allRows], rfl⟩
  constructor
  constructor
  case lead => exact fun r _ _ => rfl
  case support =>
    intro r hr _ k hk _
    have h32 : blockSize = 32 := rfl
    change k < if r = 1 then 2 else 1 at hk
    change r + k < blockSize
    split at hk <;> omega
  case content_eq =>
    intro r _ _
    refine ⟨_, rfl, ?_⟩
    by_cases hr : r = 1
    · subst hr
      funext i
      simp [allRows, Finset.sum_range_succ, GF256.mk_one, Payload.toVec]
      rfl
    · simp [allRows, hr, GF256.mk_one]
  case dofs_eq => decide +kernel
  case rowLen_pos => exact fun r _ _ => by simp only [allRows]; split <;> decide
  case rowLen_le =>
    intro r hr _
    have h32 : blockSize = 32 := rfl
    simp only [allRows]
    split <;> omega
  case index_le => exact le_rfl

end ThirtyTwoRows

open ThirtyTwoRows in
/-- Row 0 comes in, goes out and is read; then all rows are there, one of them coded, and
`unwrap` and `writeAndFreeBlock` push the others. -/
theorem handsOver_thirtyTwoRows : ∃ s, s.worker = .written ∧ s.read = [0] ∧
    s.usrCache.size = 31 ∧ HandsOver source s := by
  have hframed : ∀ r < blockSize, (source r).Framed := by decide +kernel
  have hrun : ((runCalls 2 (fifoInit 64) (partialWrite ShortAfterLong.blank (firstRow 0))).bind
      fun pushed => (fifoPop pushed.1 1).bind fun popped =>
        (runCalls 31 popped.2 (writeBlock ShortAfterLong.blank allRows)).map fun wrote =>
          (popped.1, wrote.1.size, wrote.2)) = some ([0], 31, some ()) := by
    decide +kernel
  obtain ⟨⟨Q, res⟩, hpush, hrun⟩ := Option.bind_eq_some_iff.mp hrun
  obtain ⟨⟨bytes, Q'⟩, hpop, hrun⟩ := Option.bind_eq_some_iff.mp hrun
  obtain ⟨⟨Q'', res'⟩, hwrite, heq⟩ := Option.map_eq_some_iff.mp hrun
  simp only [Prod.mk.injEq] at heq
  obtain ⟨rfl, hsize, rfl⟩ := heq
  have hfirst : (runCalls 2 (fifoInit 64) (partialWrite ShortAfterLong.blank (firstRow 0))).map
      Prod.snd = some (some (firstRow 1)) := rfl
  rw [hpush, Option.map_some, Option.some.injEq] at hfirst
  obtain rfl : res = some (firstRow 1) := hfirst
  have hinit : (blockSession (RowsHold source)).Reachable
      ⟨fifoInit 64, .idle (initCodedBlock ShortAfterLong.memory), []⟩ :=
    .init ⟨_, 64, by decide, rfl⟩
  have hpushing := (hinit.step (.insert rfl (insertion_firstRow _))).step
    (.push ShortAfterLong.blank rfl (by decide))
  have hpushed := (reachable_runCalls (fun _ _ _ _ => .pushCall) hpushing hpush).step (.pushed rfl)
  have hwriting := ((hpushed.step (.read hpop)).step (.insert rfl insertion_allRows)).step
    (.write ShortAfterLong.blank rfl rfl)
  have hwrote := (reachable_runCalls (fun _ _ _ _ => .writeCall) hwriting hwrite).step (.wrote rfl)
  exact ⟨_, rfl, rfl, hsize, handsOver_of_reachable hframed hwrote⟩

/-! ## A packet index beyond the block -/

/-- All rows are source rows, but a packet has named row 39. -/
def indexForty : CodedBlock where
  dofs := blockSize
  len := blockSize
  rows _ k := if k = 0 then 1 else 0
  rowLen _ := 1
  content _ := some fun _ => 0
  dofsPushed := 0
  maxPacketIndex := 40

/-- `unwrap` starts at row 38 and leaves the arrays. -/
theorem not_handsOver_of_indexForty : ¬∀ p s, (∀ r < blockSize, (p r).Framed) →
    (blockSession (RowsListed p)).Reachable s → HandsOver p s := by
  intro hall
  have hlisted : RowsListed (fun _ _ => 0) indexForty := by
    constructor
    case lead => exact fun _ _ _ => rfl
    case support =>
      intro r hr _ k hk _
      have h32 : blockSize = 32 := rfl
      change k < 1 at hk
      change r + k < 40
      omega
    case content_eq =>
      intro r _ _
      refine ⟨_, rfl, ?_⟩
      simp [indexForty, GF256.mk_one]
    case dofs_eq => decide +kernel
  have hinit : (blockSession (RowsListed fun _ _ => 0)).Reachable
      ⟨fifoInit 64, .idle (initCodedBlock ShortAfterLong.memory), []⟩ :=
    .init ⟨_, 64, by decide, rfl⟩
  have hins :
      Insertion (RowsListed fun _ _ => 0) (initCodedBlock ShortAfterLong.memory) indexForty :=
    ⟨rfl, rfl, fun r hr hocc => (not_occupied_init _ hr hocc).elim, hlisted⟩
  have hwriting := (hinit.step (.insert rfl hins)).step (.write ShortAfterLong.blank rfl rfl)
  exact (hall _ _ (fun _ _ => framed_zero) hwriting).noFault.2 rfl

end Ctcp
