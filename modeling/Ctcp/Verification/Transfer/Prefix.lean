import Ctcp.Verification.Transfer.Stream

/-! # What the application reads was sent -/

namespace Ctcp

open Function Program

/-! ## The client between two packets -/

/-- Both parties agree, and the client has handed over source rows in order, whatever is
filled in later. -/
structure Settled (snd : Sender) (data : Set DataPckt) (acks : Set AckPckt) (csk : Client)
    (handed : List UInt8) : Prop where
  net : NetInv ⟨snd.sk, snd.filled, csk, .idle, fun _ _ => none, data, acks⟩
  sound : ∀ p, Extends p snd.filled → ReceiverSound p ⟨csk, handed⟩

theorem BlockShape.dofsPushed_le_index {blk : CodedBlock} (h : BlockShape blk) :
    blk.dofsPushed ≤ blk.maxPacketIndex := by
  cases hn : blk.dofsPushed with
  | zero => exact Nat.zero_le _
  | succ n =>
      have hrow : n < blockSize := by have hle := h.pushed_le; omega
      have hocc := (h.pushed n (hn ▸ Nat.lt_succ_self n)).1
      have hlead : blk.rows n 0 ≠ 0 := by
        rw [h.lead n hrow hocc]
        decide
      exact h.support n hrow hocc 0 (h.rowLen_pos n hrow hocc) hlead

theorem StoreInv.allFramed {sk : Server} {filled : Filled} (h : StoreInv sk filled) :
    AllFramed (filledRows filled) := by
  intro b r
  by_cases hr : r < (filled b).length
  · rw [filledRows, List.getD_eq_getElem _ _ hr]
    obtain ⟨bytes, -, hpacks⟩ := h.packs b _ (List.getElem_mem hr)
    exact hpacks.framed
  · rw [filledRows, List.getD_eq_default _ _ (Nat.not_lt.mp hr)]
    decide

variable {s : Transfer} {snd snd' : Sender} {data : Set DataPckt} {acks : Set AckPckt}
  {csk : Client} {handed : List UInt8}

/-- The client has decoded whole blocks only if they were filled. -/
theorem NetInv.full_of_lt {n : Network} (h : NetInv n) {b : ℕ} (hb : 1 ≤ b)
    (hlt : b < n.client.currBlock) : (n.filled b).length = blockSize := by
  have hdofs := h.dofs_le b hb
  rw [Client.dofsOf, if_pos hlt] at hdofs
  exact le_antisymm (h.store.length_le b) hdofs

theorem Settled.handed_isPrefix (h : Settled snd data acks csk handed) :
    handed <+: storedBytes snd.filled snd.sk.maxblockno := by
  have hp := extends_filledRows snd.filled
  have hstore : StoreInv snd.sk snd.filled := h.net.store
  have hpushed := (h.sound _ hp).pushed hstore.allFramed
  change handed = sourceBytes _ csk.rowsPushed at hpushed
  rw [hpushed, Client.rowsPushed]
  apply hp.sourceBytes_isPrefix hstore (h.net.shape.curr_pos)
  · exact fun b hb hlt => h.net.full_of_lt hb hlt
  · exact (h.net.shape.block _).dofsPushed_le_index.trans
      (h.net.index_le _ (Client.inWindow_currBlock csk))

/-- The handler, when it is done, leaves both parties in agreement. -/
structure TransferInv (s : Transfer) : Prop where
  sender : SenderInv s.sender
  cache : s.session.usrCache.Inv
  active : s.session.status = .active → s.session.usrCache.released = false
  busy : ∀ prog, s.session.handler = .running prog → s.session.status = .active
  truthful : ∀ msg ∈ s.data, ∀ p, Extends p s.sender.filled → Truthful (p msg.blockno) msg
  settles : s.session.handler.Settles (Settled s.sender s.data s.acks) s.session.handed

theorem Settled.send {e : SenderEvent} (h : Settled snd data acks csk handed)
    (hsender : SenderInv snd) (hstep : SenderStep snd e snd') (hack : ∀ a, e = .ack a → a ∈ acks) :
    Settled snd' data acks csk handed := by
  have hnet := h.net
  cases hstep with
  | call _ _ _ => exact ⟨hnet, h.sound⟩
  | @round c hcall hgo hleft =>
      obtain ⟨hlt, hle, -⟩ := hsender.call_lt c hcall
      exact ⟨hnet.fill hleft (hle.trans_lt hlt), fun p hp => h.sound p hp.of_addRows⟩
  | returns _ _ _ => exact ⟨hnet, h.sound⟩
  | wake _ _ => exact ⟨hnet, h.sound⟩
  | timeOut _ _ => exact ⟨hnet, h.sound⟩
  | startWorker => exact ⟨hnet.startWorker, h.sound⟩
  | @ack a => exact ⟨hnet.ack (hack a rfl), h.sound⟩

theorem extends_of_send {e : SenderEvent} (hstep : SenderStep snd e snd') {p : ℕ → ℕ → Payload}
    (hp : Extends p snd'.filled) : Extends p snd.filled := by
  cases hstep with
  | round _ _ _ => exact hp.of_addRows
  | call _ _ _ => exact hp
  | returns _ _ _ => exact hp
  | wake _ _ => exact hp
  | timeOut _ _ => exact hp
  | startWorker => exact hp
  | ack => exact hp

/-- The acknowledgement that the handler returns is the one it sends on the way. -/
theorem handleData_of_absorb {allow : FifoCall → ℕ → Prop} {rm : Residue} {msg : DataPckt}
    {csk mid : Client} (h : ClientShape csk) (hmsg : csk.currBlock ≤ msg.blockno → InBlock msg)
    (hmid : absorbPacket rm (unmarshallData csk msg) msg = some mid) :
    (handleData rm csk msg).Ensures allow fun _ res =>
      ∃ csk', res = some (csk', buildAck mid msg.seqno) := by
  obtain ⟨mid', heq, habs⟩ := absorbPacket_spec rm h hmsg
  obtain rfl := Option.some.inj (heq.symm.trans hmid)
  simp only [handleData, bldack, hmid]
  refine Ensures.bind (deliver_spec habs.shape) ?_
  rintro t _ ⟨csk', rfl, -⟩
  exact ⟨csk', rfl⟩

theorem TransferInv.arrive (h : TransferInv s) {e : Arrival} {csk mid : Client}
    (hactive : s.session.status = .active) (hidle : s.session.handler = .idle csk)
    (hmsg : e.msg ∈ s.data)
    (hmid : absorbPacket e.rm (unmarshallData csk e.msg) e.msg = some mid)
    (hkeep : KeepsRows s (.arrive e)) :
    TransferInv
      { s with
        session := { s.session with handler := .running (handleData e.rm csk e.msg) }
        acks := insert (buildAck mid e.msg.seqno) s.acks } := by
  have hset := h.settles
  rw [hidle] at hset
  refine ⟨h.sender, h.cache, h.active, fun _ _ => hactive, h.truthful, ?_⟩
  refine ensures_iff.mpr fun t res hrun => ?_
  have hin : InBlock e.msg := (hset.net.data_le _ hmsg).trans (hset.net.store.length_le _)
  obtain ⟨csk', rfl⟩ :=
    ensures_iff.mp (handleData_of_absorb hset.net.shape (fun _ => hin) hmid) t res hrun
  refine ⟨_, rfl, hset.net.handled rfl hmsg (hrun.mono fun _ _ _ => trivial), fun p hp => ?_⟩
  -- the packet is truthful for `p`, so the handler hands over rows of `p`
  have hkept : KeepsCoefficients (some ⟨csk, s.session.handed⟩) e := by
    intro r hr
    obtain rfl := Option.some.inj hr
    exact hkeep csk hidle
  have hstep := (hset.sound p hp).step (h.truthful _ hmsg p hp) hkept
  obtain ⟨c, hc, hsound⟩ := ensures_iff.mp hstep t _ hrun
  obtain rfl := Option.some.inj hc
  exact hsound

theorem TransferInv.step {e : TransferEvent} {s' : Transfer} (h : TransferInv s)
    (hkeep : KeepsRows s e) (hstep : TransferStep s e s') : TransferInv s' := by
  cases hstep with
  | @send e snd hsend hack =>
      refine ⟨h.sender.step hsend, h.cache, h.active, h.busy, fun msg hmsg p hp => ?_, ?_⟩
      · exact h.truthful msg hmsg p (extends_of_send hsend hp)
      · exact h.settles.mono fun csk bytes hset => hset.send h.sender hsend hack
  | @packet msg =>
      have hmsg : Sendable s.sender.sk msg := hkeep
      refine ⟨h.sender, h.cache, h.active, h.busy, ?_, ?_⟩
      · rintro m (rfl | hm) p hp
        · exact hmsg.truthful_of_extends h.sender.store hp
        · exact h.truthful m hm p hp
      · exact h.settles.mono fun csk bytes hset => ⟨hset.net.transmit hmsg, hset.sound⟩
  | arrive hactive hidle hmsg hmid => exact h.arrive hactive hidle hmsg hmid hkeep
  | handle hrun =>
      obtain ⟨prog, hprog⟩ := running_of_handlerStep hrun
      have hactive := h.busy prog hprog
      obtain ⟨hset, hcache, hreleased, hstatus⟩ := h.settles.handle h.cache (h.active hactive) hrun
      exact ⟨h.sender, hcache, fun _ => hreleased, fun _ _ => hstatus.trans hactive, h.truthful,
        hset⟩
  | @enter count houtside hcount =>
      unfold readCtcp
      split <;> exact ⟨h.sender, h.cache, h.active, h.busy, h.truthful, h.settles⟩
  | pop hpopping hpop =>
      obtain ⟨hhanded, hcache, hreleased, hstatus, hhandler⟩ := handed_readCtcpPop h.cache hpop
      refine ⟨h.sender, hcache, fun ha => ?_, fun prog hp => ?_, h.truthful, ?_⟩
      · exact hreleased.trans (h.active (hstatus.symm.trans ha))
      · exact hstatus.trans (h.busy prog (hhandler.symm.trans hp))
      · have hset := h.settles
        rw [← hhanded, ← hhandler] at hset
        exact hset
  | close hactive hidle =>
      refine ⟨h.sender, h.cache, fun ha => by simp [finClose] at ha, fun prog hp => ?_, h.truthful,
        h.settles⟩
      simp [finClose, hidle] at hp
  | release hclosed =>
      refine ⟨h.sender, { h.cache with }, fun ha => ?_, h.busy, h.truthful, h.settles⟩
      change s.session.status = .active at ha
      simp [hclosed] at ha

theorem transferInv_of_reachable {memory : BlockMemory} (hmem : memory.Clear)
    (h : ((transfer memory).guard KeepsRows).Reachable s) : TransferInv s := by
  rw [hmem.eq_noRows] at h
  apply h.invariant
  · rintro ⟨snd, session, data, acks⟩ ⟨raw, ⟨scaling, paths, n, rfl⟩, rfl, rfl, rfl⟩
    refine ⟨sender_inv (.init ⟨scaling, paths, n, rfl⟩), fifoInv_fifoInit (by decide), fun _ => rfl,
      fun prog hp => by simp [openSession] at hp, fun _ hmsg => hmsg.elim, ?_⟩
    exact ⟨netInv_create scaling paths n raw, fun p _ => receiverSound_create p raw⟩
  · exact fun s e s' hinv hstep => hinv.step hstep.1 hstep.2

theorem TransferInv.handed_isPrefix (h : TransferInv s) :
    s.session.handed <+: s.sender.acceptedSoFar := by
  obtain ⟨csk, bytes, hset, hprefix⟩ := h.settles.exists_prefix
  exact hprefix.trans (hset.handed_isPrefix.trans (h.sender.bytes_eq ▸ List.prefix_rfl))

/-! ## One byte from end to end -/

namespace OneByte

open EarlyClose

/-- A call of `send_ctcp` with one byte, from start to return. -/
theorem sent : ∃ s, ((transfer noRows).guard KeepsRows).Reachable s ∧ s.session = openSession
    (fun _ => ShortAfterLong.memory) ∧ s.sender.accepted = [7] ∧
    s.sender.sk.currBlock = 1 ∧ s.sender.sk.maxblockno = 1 ∧
    s.sender.sk.block 1 = [packRow [7]] ∧ s.data = ∅ := by
  have hpath : SubstreamPath := ⟨fun _ => 0, fun _ => 0, 1, 1, 8, 0⟩
  have hstart : ((transfer noRows).guard KeepsRows).Reachable
      ⟨⟨createSrvctcpSock noRows 1 (fun _ => hpath) 1, fun _ => [], none, []⟩,
        openSession fun _ => ShortAfterLong.memory, ∅, ∅⟩ :=
    .init ⟨_, ⟨_, _, _, rfl⟩, rfl, rfl, rfl⟩
  have hcall := hstart.step (e := TransferEvent.send _)
    ⟨trivial, .send (.call rfl (List.cons_ne_nil 7 []) (by decide)) fun a ha => by cases ha⟩
  have hround := hcall.step (e := TransferEvent.send _)
    ⟨trivial, .send (.round rfl rfl (List.cons_ne_nil 7 [])) fun a ha => by cases ha⟩
  have hreturn := hround.step (e := TransferEvent.send _)
    ⟨trivial, .send (.returns rfl rfl rfl) fun a ha => by cases ha⟩
  exact ⟨_, hreturn, rfl, rfl, rfl, rfl, rfl, rfl⟩

/-- The row that the byte is in arrives, and the application reads it. -/
theorem received : ∃ s, ((transfer noRows).guard KeepsRows).Reachable s ∧ s.session.read = [7] ∧
    s.sender.accepted = [7] := by
  obtain ⟨s, hs, hsession, haccepted, hcurr, hmax, hblock, -⟩ := sent
  have hmsg : Sendable s.sender.sk arrival.msg := by
    refine ⟨hcurr.le, hmax.ge, by rw [hcurr]; decide, ?_, .normal rfl (by decide) rfl ?_⟩
    · exact hblock ▸ le_rfl
    · change stream.rows 1 0 = s.sender.sk.sourceRows 1 0
      rw [Server.sourceRows, hblock]
      rfl
  have hpacket := hs.step (e := TransferEvent.packet arrival.msg) ⟨hmsg, .packet⟩
  obtain ⟨c₄, hdrained, hview⟩ := Option.map_eq_some_iff.mp view_drained
  obtain ⟨c₃, hhandled, hpop⟩ := Option.bind_eq_some_iff.mp hdrained
  obtain ⟨c₂, h₂, h₃⟩ := Option.bind_eq_some_iff.mp hhandled
  obtain ⟨c₁, h₁, h₂⟩ := Option.bind_eq_some_iff.mp h₂
  obtain ⟨mid, hmid, -⟩ := absorbPacket_spec arrival.rm
    (clientShape_create fun _ => ShortAfterLong.memory) fun _ => inStream_arrival.truthful.inBlock
  have harrive := hpacket.step (e := TransferEvent.arrive arrival)
    ⟨fun _ _ _ hnum => absurd hnum (by decide), .arrive (by rw [hsession]; rfl)
      (by rw [hsession]; rfl) (Set.mem_insert _ _) hmid⟩
  rw [hsession] at harrive
  have hspace := harrive.step (e := TransferEvent.handle) ⟨trivial, .handle h₁⟩
  have hpush := hspace.step (e := TransferEvent.handle) ⟨trivial, .handle h₂⟩
  have hdone := hpush.step (e := TransferEvent.handle) ⟨trivial, .handle h₃⟩
  obtain ⟨c₃', hhandled', hview'⟩ := Option.map_eq_some_iff.mp view_handled
  obtain rfl : c₃ = c₃' := Option.some.inj (hhandled.symm.trans hhandled')
  simp only [view, View.mk.injEq] at hview hview'
  obtain ⟨-, -, -, -, -, hread⟩ := hview
  obtain ⟨hactive, -, -, -, hreader, -⟩ := hview'
  have henter := hdone.step (e := TransferEvent.enter 1) ⟨trivial, .enter hreader le_rfl⟩
  have hpopped := henter.step (e := TransferEvent.pop)
    ⟨trivial, .pop (by rw [readCtcp, if_pos hactive]) hpop⟩
  exact ⟨_, hpopped, hread, haccepted⟩

end OneByte

/-! ## The results -/

/-- The bytes read are a prefix of the bytes accepted, at every moment of every run in which the
packets made are truthful ones of the window, and those absorbed fit. -/
theorem read_prefix_of_reachable {memory : BlockMemory} (hmem : memory.Clear)
    (h : ((transfer memory).guard KeepsRows).Reachable s) :
    s.session.read ++ s.session.usrCache.contents <+: s.sender.acceptedSoFar :=
  (transferInv_of_reachable hmem h).handed_isPrefix

theorem read_prefix_oneByte : ∃ s : Transfer, s.session.read = [7] ∧ s.sender.accepted = [7] ∧
    s.session.read ++ s.session.usrCache.contents <+: s.sender.acceptedSoFar := by
  obtain ⟨s, hs, hread, haccepted⟩ := OneByte.received
  exact ⟨s, hread, haccepted, read_prefix_of_reachable (fun _ => rfl) hs⟩

end Ctcp
