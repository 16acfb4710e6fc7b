import Ctcp.Verification.Decoder.Counts
import Ctcp.Verification.Decoder.Runs

/-! # The decoder stays inside its arrays -/

namespace Ctcp

open Function Program

variable {allow : FifoCall → ℕ → Prop} {rm : Residue} {t t' : List (FifoCall × ℕ)}

/-! ## Reads of payloads -/

/-- Every push of a trace reads from inside a row, behind the two bytes of its length. -/
def ReadsInside (t : List (FifoCall × ℕ)) : Prop :=
  ∀ bytes n, (FifoCall.push bytes, n) ∈ t → 2 + bytes.length ≤ payloadSize

theorem readsInside_nil : ReadsInside [] := fun _ _ h => (List.not_mem_nil h).elim

theorem ReadsInside.append (h : ReadsInside t) (h' : ReadsInside t') : ReadsInside (t ++ t') :=
  fun bytes n hmem => (List.mem_append.mp hmem).elim (h bytes n) (h' bytes n)

theorem ReadsInside.push (h : ReadsInside t) {bytes : List UInt8}
    (hlen : 2 + bytes.length ≤ payloadSize) (n : ℕ) : ReadsInside ((.push bytes, n) :: t) := by
  intro bytes' n' hmem
  cases hmem with
  | head => exact hlen
  | tail _ hmem => exact h _ _ hmem

theorem ReadsInside.getspace (h : ReadsInside t) (n : ℕ) : ReadsInside ((.getspace, n) :: t) := by
  intro bytes' n' hmem
  cases hmem with
  | tail _ hmem => exact h _ _ hmem

theorem pushBytes_reads {fuel : ℕ} {bytes : List UInt8}
    (hlen : 2 + bytes.length ≤ payloadSize) :
    (pushBytes fuel bytes).Ensures allow fun t _ => ReadsInside t := by
  induction fuel generalizing bytes with
  | zero => exact readsInside_nil
  | succ fuel ih =>
      rw [pushBytes]
      split
      · exact readsInside_nil
      · intro n _
        beta_reduce
        split
        · exact readsInside_nil.push hlen n
        · refine (ih ?_).mono fun t _ h => h.push hlen n
          rw [List.length_drop]
          omega

variable {blk : CodedBlock} {p : ℕ → Payload}

/-- A decoded row of framed source rows announces no more than it has. -/
theorem row_reads (hp : BlockSound p blk) (hframed : ∀ r < blockSize, (p r).Framed) {r : ℕ}
    (hr : r < blockSize) (hdec : blk.Decoded r) {content : Payload}
    (hcontent : blk.content r = some content) (stray : ℕ → UInt8) :
    (pushBytes content.payloadLen (content.data stray)).Ensures allow fun t _ => ReadsInside t := by
  have heq : content = p r :=
    Option.some.inj (hcontent.symm.trans (hp.content_of_decoded hdec hr))
  refine pushBytes_reads ?_
  rw [Payload.length_data, heq]
  exact hframed r hr

theorem pushDecoded_reads (hp : BlockSound p blk) (hframed : ∀ r < blockSize, (p r).Framed)
    (fuel start : ℕ) : (pushDecoded rm blk fuel start).Ensures allow fun t _ => ReadsInside t := by
  induction fuel generalizing start with
  | zero => exact readsInside_nil
  | succ fuel ih =>
      rw [pushDecoded]
      split
      · exact readsInside_nil
      · next hlt =>
          split
          · next hdec =>
              cases hcontent : blk.content start with
              | none => exact readsInside_nil
              | some content =>
                  intro space _
                  beta_reduce
                  split
                  · refine Ensures.bind (row_reads hp hframed (Nat.not_le.mp hlt) hdec hcontent _)
                      fun t ok ht => ?_
                    cases ok with
                    | true => exact (ih (start + 1)).mono fun t' _ h => (ht.append h).getspace space
                    | false => exact (ht.append readsInside_nil).getspace space
                  · exact readsInside_nil.getspace space
          · exact readsInside_nil

theorem partialWrite_reads (hp : BlockSound p blk) (hframed : ∀ r < blockSize, (p r).Framed) :
    (partialWrite rm blk).Ensures allow fun t _ => ReadsInside t := by
  by_cases hfull : blk.dofs = blk.maxPacketIndex
  · obtain ⟨blk₁, heq, hun⟩ := unwrap_spec hp.toBlockShape hfull
    simp only [partialWrite, if_pos hfull, heq]
    exact pushDecoded_reads (hun.sound p hp) hframed _ _
  · simp only [partialWrite, if_neg hfull]
    exact pushDecoded_reads hp hframed _ _

theorem writeRows_reads (hp : BlockSound p blk) (hframed : ∀ r < blockSize, (p r).Framed)
    {n i : ℕ} (hn : i + n ≤ blockSize) (hdec : ∀ r < blockSize, blk.Decoded r) :
    (writeRows rm blk n i).Ensures allow fun t _ => ReadsInside t := by
  induction n generalizing i with
  | zero => exact readsInside_nil
  | succ n ih =>
      have hlt : i < blockSize := by omega
      rw [writeRows]
      cases hcontent : blk.content i with
      | none => exact readsInside_nil
      | some content =>
          refine Ensures.bind (row_reads hp hframed hlt (hdec i hlt) hcontent _) fun t ok ht => ?_
          cases ok with
          | true => exact (ih (by omega)).mono fun t' _ h => ht.append h
          | false => exact ht.append readsInside_nil

/-! ## Delivery -/

variable {csk : Client} {p : ℕ → ℕ → Payload}

theorem decodeBlocks_reads (h : ClientShape csk) (hp : ClientSound p csk)
    (hframed : ∀ b, ∀ r < blockSize, (p b r).Framed) (fuel : ℕ) :
    (decodeBlocks rm fuel csk).Ensures allow fun t _ => ReadsInside t := by
  induction fuel generalizing csk with
  | zero => exact readsInside_nil
  | succ fuel ih =>
      have hblk := hp _ csk.inWindow_currBlock
      rw [decodeBlocks]
      split
      · next hfull =>
          rw [hblk.len_eq] at hfull
          obtain ⟨blk, heq, hun⟩ := unwrap_spec hblk.toBlockShape
            (hblk.dofs_eq_index_of_full hfull)
          have hdec : ∀ r < blockSize, blk.Decoded r := by
            intro r hr
            have hindex := hblk.dofs_eq_index_of_full hfull
            exact hun.decoded r (Nat.zero_le _) (by omega)
          have hle := hun.shape.pushed_le
          simp only [heq]
          rw [writeAndFreeBlock, hun.shape.len_eq]
          refine Ensures.bind (writeRows_reads (hun.sound _ hblk) (hframed _) (by omega) hdec) ?_
          intro t written ht
          cases written with
          | none => exact ht.append readsInside_nil
          | some _ =>
              exact (ih (h.nextBlock blk) (hp.nextBlock blk)).mono fun t' _ h => ht.append h
      · exact readsInside_nil

theorem deliver_reads (h : ClientShape csk) (hp : ClientSound p csk)
    (hframed : ∀ b, ∀ r < blockSize, (p b r).Framed) :
    (deliver rm csk).Ensures allow fun t _ => ReadsInside t := by
  by_cases hopen : (csk.block csk.currBlock).dofs < (csk.block csk.currBlock).len
  · exact deliver_of_open hopen (partialWrite_reads (hp _ csk.inWindow_currBlock) (hframed _))
  · rw [deliver, if_neg hopen]
    exact decodeBlocks_reads h hp hframed _

/-! ## Any packets in any order -/

/-- The client, and all its calls on `usr_cache` with their answers. -/
structure Handled where
  client : Client
  calls : List (FifoCall × ℕ)

/-- The client fed with any packets, whatever `usr_cache` answers; `none` is a memory fault. -/
def handler : System (Option Handled) Arrival where
  init s := ∃ raw, s = some ⟨createClictcpSock raw, []⟩
  step s e s' := ∃ r t res, s = some r ∧
    (handleData e.rm r.client e.msg).Runs (fun _ _ => True) t res ∧
    s' = res.map fun c => ⟨c.1, r.calls ++ t⟩

/-- No access outside an array so far, and none prepared: the stored row lengths fit the
matrix and the coefficients of a packet. -/
def InBounds (s : Option Handled) : Prop :=
  ∃ r, s = some r ∧ ReadsInside r.calls ∧ ∀ k, ∀ row < blockSize,
    (r.client.blocks k).Occupied row → row + (r.client.blocks k).rowLen row ≤ blockSize

/-- Framed source rows of which the equations of a block and a packet are true. -/
structure Explains (rm : Residue) (blk : CodedBlock) (msg : DataPckt) (q : ℕ → Payload) :
    Prop where
  framed : ∀ r < blockSize, (q r).Framed
  rows : ∀ r < blockSize, blk.Occupied r → blk.RowTrue q r
  payload : msg.payload.toVec = combine q (msg.vector rm)

/-- The header of a packet that is not old names rows inside the block. One that is
absorbed meets no stored row that reaches further than itself, and does not contradict
what is stored for its block or the framing of the source rows. -/
def Explicable (s : Option Handled) (e : Arrival) : Prop :=
  ∀ r ∈ s, (r.client.currBlock ≤ e.msg.blockno → InBlock e.msg) ∧
    (r.client.Absorbs e.msg →
      (2 ≤ e.msg.numPackets.toNat → Fits e.rm (r.client.block e.msg.blockno) e.msg) ∧
        ∃ q, Explains e.rm (r.client.block e.msg.blockno) e.msg q)

/-- What holds of the client after any number of such packets. -/
structure HandledInv (r : Handled) : Prop where
  shape : ClientShape r.client
  explained : ∃ p, ClientSound p r.client ∧ ∀ b, ∀ row < blockSize, (p b row).Framed
  reads : ReadsInside r.calls

theorem framed_zero : Payload.Framed fun _ => 0 := by decide

theorem handledInv_create (raw : ℕ → CodedBlock) : HandledInv ⟨createClictcpSock raw, []⟩ where
  shape := clientShape_create raw
  explained := ⟨fun _ _ _ => 0, clientSound_create _ raw, fun _ _ _ => framed_zero⟩
  reads := readsInside_nil

/-- A block all of whose equations are true is sound. -/
theorem BlockShape.sound_of_rowTrue {blk : CodedBlock} (h : BlockShape blk) {q : ℕ → Payload}
    (hq : ∀ r < blockSize, blk.Occupied r → blk.RowTrue q r) : BlockSound q blk where
  toBlockShape := h
  content_eq r hr hocc content hcontent := by
    obtain ⟨-, -, content', hcontent', heq⟩ := hq r hr hocc
    obtain rfl : content' = content := Option.some.inj (hcontent'.symm.trans hcontent)
    rw [h.combine_rowVec hr hocc]
    funext i
    rw [Finset.sum_apply]
    exact heq i

/-- The rows that explain a packet and its block can replace those that explained the
block before it. -/
theorem HandledInv.explain {r : Handled} (h : HandledInv r) {e : Arrival}
    (hq : r.client.Absorbs e.msg → ∃ q, Explains e.rm (r.client.block e.msg.blockno) e.msg q) :
    ∃ p, ClientSound p r.client ∧ (∀ b, ∀ row < blockSize, (p b row).Framed) ∧
      (r.client.Absorbs e.msg →
        e.msg.payload.toVec = combine (p e.msg.blockno) (e.msg.vector e.rm)) := by
  obtain ⟨p, hp, hframed⟩ := h.explained
  by_cases habs : r.client.Absorbs e.msg
  · obtain ⟨q, hq⟩ := hq habs
    refine ⟨update p e.msg.blockno q, fun b hb => ?_, fun b => ?_, fun _ => ?_⟩
    · by_cases he : b = e.msg.blockno
      · rw [he, update_self]
        exact (h.shape.block _).sound_of_rowTrue hq.rows
      · rw [update_of_ne he]
        exact hp b hb
    · by_cases he : b = e.msg.blockno
      · rw [he, update_self]
        exact hq.framed
      · rw [update_of_ne he]
        exact hframed b
    · rw [update_self]
      exact hq.payload
  · exact ⟨p, hp, hframed, fun h => (habs h).elim⟩

theorem HandledInv.step {r : Handled} (h : HandledInv r) {e : Arrival}
    (hcond : Explicable (some r) e) :
    (handleData e.rm r.client e.msg).Ensures (fun _ _ => True) fun t res =>
      ∃ c, res = some c ∧ HandledInv ⟨c.1, r.calls ++ t⟩ := by
  obtain ⟨hmsg, habsorbs⟩ := hcond r rfl
  obtain ⟨p, hp, hframed, hpayload⟩ := h.explain fun habs => (habsorbs habs).2
  obtain ⟨mid, heq, habs⟩ := absorbPacket_spec e.rm h.shape hmsg
  have hsound : ClientSound p mid :=
    habs.sound hp hmsg hpayload fun habs => (habsorbs habs).1
  simp only [handleData, bldack, heq]
  refine Ensures.bind ((deliver_spec habs.shape).and (deliver_reads habs.shape hsound hframed)) ?_
  rintro t _ ⟨⟨csk', rfl, hdel⟩, hreads⟩
  refine ⟨(csk', buildAck mid e.msg.seqno), rfl, ?_⟩
  exact ⟨hdel.shape, ⟨p, hdel.sound hsound, hframed⟩,
    h.reads.append (hreads.append readsInside_nil)⟩

theorem handled_inv {s : Option Handled} (h : (handler.guard Explicable).Reachable s) :
    ∃ r, s = some r ∧ HandledInv r := by
  refine h.invariant (I := fun s => ∃ r, s = some r ∧ HandledInv r) ?_ ?_
  · rintro s ⟨raw, rfl⟩
    exact ⟨_, rfl, handledInv_create raw⟩
  · rintro s e s' ⟨r, rfl, hr⟩ ⟨hcond, r', t, res, hr', hrun, rfl⟩
    obtain rfl : r = r' := Option.some.inj hr'
    obtain ⟨c, rfl, hc⟩ := ensures_iff.mp (hr.step hcond) t res hrun
    exact ⟨_, rfl, hc⟩

theorem inBounds_of_reachable {s : Option Handled} (h : (handler.guard Explicable).Reachable s) :
    InBounds s := by
  obtain ⟨r, rfl, hr⟩ := handled_inv h
  exact ⟨r, rfl, hr.reads, fun k row hrow hocc => (hr.shape.shape k).rowLen_le row hrow hocc⟩

namespace LongHeader

open ShortAfterLong

def start : Handled := ⟨createClictcpSock fun _ => memory, []⟩

/-- One packet handled against a buffer that always has room. -/
def handle (r : Handled) (e : Arrival) : Option Handled :=
  let run := (handleData e.rm r.client e.msg).runWith drainReply
  run.2.map fun c => ⟨c.1, r.calls ++ run.1⟩

theorem handler_step_handle (r : Handled) (e : Arrival) :
    handler.step (some r) e (handle r e) :=
  ⟨r, _, _, rfl, runs_runWith drainReply fun _ => trivial, rfl⟩

end LongHeader

/-! ### A block from coded packets -/

/-- A truthful packet that fits meets the condition. -/
theorem ReceiverSound.explicable {p : ℕ → ℕ → Payload} {r : Receiver} (h : ReceiverSound p r)
    (hframed : AllFramed p) {e : Arrival} (htruth : Truthful (p e.msg.blockno) e.msg)
    (hkeep : KeepsCoefficients (some r) e) (calls : List (FifoCall × ℕ)) :
    Explicable (some ⟨r.client, calls⟩) e := by
  intro r' hr'
  obtain rfl : (⟨r.client, calls⟩ : Handled) = r' := Option.some.inj hr'
  refine ⟨fun _ => htruth.inBlock, fun habs => ⟨hkeep r rfl habs, p e.msg.blockno, ?_⟩⟩
  constructor
  case framed => exact fun row _ => hframed _ row
  case rows => exact fun row hrow hocc => (h.sound _ habs.1).rowTrue hrow hocc
  case payload => exact htruth.payload_eq e.rm

/-- A run of the decoder over framed rows is one of the handler. -/
theorem reachable_handler {p : ℕ → ℕ → Payload} (hframed : AllFramed p) {s : Option Receiver}
    (h : ((decoder p).guard KeepsCoefficients).Reachable s) :
    ∃ r calls, s = some r ∧ ReceiverSound p r ∧
      (handler.guard Explicable).Reachable (some ⟨r.client, calls⟩) := by
  refine h.invariant (I := fun s => ∃ r calls, s = some r ∧ ReceiverSound p r ∧
    (handler.guard Explicable).Reachable (some ⟨r.client, calls⟩)) ?_ ?_
  · rintro s ⟨raw, rfl⟩
    exact ⟨_, [], rfl, receiverSound_create p raw, .init ⟨raw, rfl⟩⟩
  · rintro s e s' ⟨r, calls, rfl, hr, hreach⟩ ⟨hkeep, r', t, res, hr', htruth, hrun, rfl⟩
    obtain rfl : r = r' := Option.some.inj hr'
    obtain ⟨c, rfl, hc⟩ := ensures_iff.mp (hr.step htruth hkeep) t res hrun
    exact ⟨_, calls ++ t, rfl, hc, hreach.step ⟨hr.explicable hframed htruth hkeep calls, _, t, _,
      rfl, hrun.mono fun _ _ _ => trivial, rfl⟩⟩

namespace CodedRows

open ShortAfterLong

/-- Row `r` of block 1. -/
def uncoded (r : ℕ) : Arrival where
  rm := blank
  msg := ⟨.normal, r, 1, r.toUInt8, 1, 0, rows 1 r⟩

/-- The last row, two packets over the first two rows, then the rows between. -/
def run : Option Receiver :=
  (receive start (uncoded 31)).bind fun r =>
    (receive r (coded 1 0 2 0)).bind fun r =>
      (receive r (coded 2 1 2 0)).bind fun r =>
        (List.range 29).foldlM (fun r k => receive r (uncoded (k + 2))) r

theorem run_currBlock : (run.map fun r => r.client.currBlock) = some 2 := by decide +kernel

theorem allFramed_rows : AllFramed rows := by
  intro b r
  by_cases hr : r = 2
  · subst hr
    exact (by decide +kernel : (rows 0 2).Framed)
  · have hzero : rows b r = fun _ => 0 := funext fun _ => if_neg hr
    exact hzero ▸ framed_zero

theorem truthful_uncoded {r : ℕ} (hr : r < blockSize) : Truthful (rows 1) (uncoded r).msg := by
  have hstart : (uncoded r).msg.startPacket.toNat = r := by
    change r.toUInt8.toNat = r
    simp only [blockSize] at hr
    rw [Nat.toUInt8_eq, UInt8.toNat_ofNat', Nat.mod_eq_of_lt (by omega)]
  refine .normal rfl ?_ rfl (congrArg (rows 1) hstart.symm)
  rwa [hstart]

theorem reachable_uncoded {r r' : Receiver} {k : ℕ} (hk : k < blockSize)
    (h : ((decoder rows).guard KeepsCoefficients).Reachable (some r))
    (hreceive : receive r (uncoded k) = some r') :
    ((decoder rows).guard KeepsCoefficients).Reachable (some r') :=
  have hone : ¬2 ≤ (uncoded k).msg.numPackets.toNat := Nat.not_le.mpr (Nat.lt_succ_self 1)
  h.step ⟨fun _ _ _ hnum => absurd hnum hone,
    decoder_step_receive (truthful_uncoded hk) hreceive⟩

theorem reachable_between {ks : List ℕ} {r r' : Receiver} (hks : ∀ k ∈ ks, k + 2 < blockSize)
    (h : ((decoder rows).guard KeepsCoefficients).Reachable (some r))
    (hplay : ks.foldlM (fun r k => receive r (uncoded (k + 2))) r = some r') :
    ((decoder rows).guard KeepsCoefficients).Reachable (some r') := by
  induction ks generalizing r with
  | nil =>
      cases hplay
      exact h
  | cons k ks ih =>
      obtain ⟨r₁, h₁, hrest⟩ := Option.bind_eq_some_iff.mp hplay
      exact ih (fun k hk => hks k (List.mem_cons_of_mem _ hk))
        (reachable_uncoded (hks k List.mem_cons_self) h h₁) hrest

theorem truthful_zero {seqno : ℕ} {packetCoeff : UInt8} :
    Truthful (rows 1) (coded seqno packetCoeff 2 0).msg := by
  refine .coded rfl rfl (show 1 ≤ 2 by decide) (show 2 ≤ blockSize by decide) fun i => ?_
  refine (Finset.sum_eq_zero fun k hk => ?_).symm
  have hzero : rows 1 k i = 0 := if_neg (Nat.ne_of_lt (Finset.mem_range.mp hk))
  rw [hzero, GF256.mk_zero, mul_zero]

/-- Both coded packets fit what is stored. -/
theorem fits_coded : ((receive start (uncoded 31)).bind fun r =>
    (receive r (coded 1 0 2 0)).map fun r' =>
      (decide (Fits blank (r.client.block 1) (coded 1 0 2 0).msg),
        decide (Fits blank (r'.client.block 1) (coded 2 1 2 0).msg))) = some (true, true) := by
  decide +kernel

theorem reachable_run {r : Receiver} (h : run = some r) :
    ((decoder rows).guard KeepsCoefficients).Reachable (some r) := by
  obtain ⟨r₁, h₁, h⟩ := Option.bind_eq_some_iff.mp h
  obtain ⟨r₂, h₂, h⟩ := Option.bind_eq_some_iff.mp h
  obtain ⟨r₃, h₃, h⟩ := Option.bind_eq_some_iff.mp h
  have hfits := fits_coded
  simp only [h₁, h₂, Option.bind_some, Option.map_some, Option.some.injEq, Prod.mk.injEq,
    decide_eq_true_eq] at hfits
  have hkeep {r : Receiver} {e : Arrival} (hfit : Fits e.rm (r.client.block e.msg.blockno) e.msg) :
      KeepsCoefficients (some r) e := by
    intro r' hr' _ _
    obtain rfl : r = r' := Option.some.inj hr'
    exact hfit
  have hfirst := reachable_uncoded (k := 31) (by decide) (.init ⟨_, rfl⟩) h₁
  have hsecond := hfirst.step ⟨hkeep hfits.1, decoder_step_receive truthful_zero h₂⟩
  have hthird := hsecond.step ⟨hkeep hfits.2, decoder_step_receive truthful_zero h₃⟩
  refine reachable_between (fun k hk => ?_) hthird h
  have hlt := List.mem_range.mp hk
  simp only [blockSize]
  omega

end CodedRows

/-- The client delivers a block of which it has received two rows in coded packets. -/
theorem inBounds_codedRows : ∃ r : Handled, r.client.currBlock = 2 ∧ InBounds (some r) := by
  obtain ⟨r, hr, hcurr⟩ := Option.map_eq_some_iff.mp CodedRows.run_currBlock
  obtain ⟨r', calls, hr', -, hreach⟩ :=
    reachable_handler CodedRows.allFramed_rows (CodedRows.reachable_run hr)
  obtain rfl : r = r' := Option.some.inj hr'
  exact ⟨_, hcurr, inBounds_of_reachable hreach⟩

/-- A header with 33 packets makes the client write behind `coeff`. -/
theorem not_inBounds_of_longHeader : ¬∀ s, handler.Reachable s → InBounds s := by
  intro hall
  let long : Arrival := ShortAfterLong.coded 1 0 33 0
  have hfault : LongHeader.handle LongHeader.start long = none := by decide +kernel
  have hstep := LongHeader.handler_step_handle LongHeader.start long
  rw [hfault] at hstep
  obtain ⟨r, hr, -⟩ := hall none (.step (.init ⟨_, rfl⟩) hstep)
  cases hr

end Ctcp
