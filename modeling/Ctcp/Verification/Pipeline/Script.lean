import Ctcp.Verification.Pipeline.System

/-! # Scripted runs of the server -/

namespace Ctcp

open Function

/-! ## What a script can check -/

instance (phase : Phase) : Decidable phase.Unlocked :=
  match phase with
  | .booting | .idle | .looping _ | .needing _ _ | .popping _ _ | .popped _ _ _ => .isTrue trivial
  | .acking _ _ _ => .isFalse id

instance (t : Task) : Decidable t.Holds :=
  match h : t.stage with
  | .pending | .checked => .isFalse (Task.not_holds (by simp [h]))
  | .pushing left => .isTrue ⟨left, h⟩

instance (s : Pipeline) (k : ℕ) : Decidable (s.SlotFree k) :=
  inferInstanceAs (Decidable (∀ t ∈ s.tasks, _))

/-- A coded packet in which all rows have the coefficient 1. -/
def sumPacket (rows : List Payload) (blockno : ℕ) : DataPckt where
  flag := .coded
  seqno := 0
  blockno := blockno
  startPacket := 0
  numPackets := UInt8.ofNat rows.length
  packetCoeff := 0
  payload := codedPayload rows (List.replicate rows.length 1)

/-- Packets that a job may push. -/
def somePackets (rows : List Payload) (job : CodingJob) : List DataPckt :=
  uncodedPackets rows job ++ List.replicate (codedCount rows job) (sumPacket rows job.blockno)

/-- Every job can be run, whatever rows its slot has. -/
theorem jobPackets_somePackets {rows : List Payload} (hlen : rows.length ≤ blockSize)
    (job : CodingJob) : JobPackets rows job (somePackets rows job) := by
  have hnum : (UInt8.ofNat rows.length).toNat = rows.length := by
    simp only [blockSize] at hlen
    rw [UInt8.toNat_ofNat']
    exact Nat.mod_eq_of_lt (by omega)
  refine ⟨_, rfl, List.length_replicate, fun msg hmsg => ?_⟩
  obtain rfl := List.eq_of_mem_replicate hmsg
  exact ⟨rfl, rfl, rfl, hnum, _, List.length_replicate, rfl⟩

/-! ## Scripts -/

/-- One step of a script. The server thread serves path 0, and the workers go on with the
first job. -/
inductive PipelineAct where
  | fill (byte : UInt8)
  | start
  | segs
  | examine
  | assign
  | pop
  | decrement
  | ack (a : AckPckt)
  | free
  | ackEnd (slr : ℚ) (cwnd : ℕ)
  | check
  | run
  | push
  | finish

def PipelineAct.event : PipelineAct → PipelineEvent
  | .fill byte => .fill [byte]
  | .start => .start
  | .segs => .segs 0
  | .examine => .examine
  | .assign => .assign
  | .pop => .pop
  | .decrement => .decrement
  | .ack a => .ack 0 a
  | .free => .free
  | .ackEnd _ _ => .ackEnd
  | .check | .run | .push | .finish => .work

/-- The step of the server thread, if it can be taken where the thread stands. -/
def Pipeline.actServer (s : Pipeline) : PipelineAct → Phase → Option Pipeline
  | .start, .booting => some { s with sk := startWorker s.sk, phase := .idle }
  | .segs, .idle =>
    if 0 < s.sk.numActive then
      some { s with phase := .looping (segsStart s.sk 0 fun _ _ => true) }
    else none
  | .examine, .looping l =>
    if l.GoesOn s.sk ∧ l.blockno = s.sk.currBlock ∧ l.win ≤ (2 * blockSize : ℕ) then
      some { s with phase := .needing { l with currOnFly := nextOnFly s.sk l } (dofNeeded s.sk l) }
    else none
  | .assign, .needing l need =>
    if s.SlotFree (slot l.blockno) then
      some (s.commit (assignJob s.sk l.blockno need)
        (nextPacket (assignJob s.sk l.blockno need) l need))
    else none
  | .pop, .popping l currWin =>
    match s.sk.codedQ (slot l.blockno) with
    | [] => none
    | msg :: q => some
      { s with
        sk := sendOne { s.sk with codedQ := update s.sk.codedQ (slot l.blockno) q } l.blockno l.pin
        phase := .popped { l with win := l.win - 1 } (currWin - 1) msg }
  | .decrement, .popped l currWin _ =>
    if s.SlotFree (slot l.blockno) then
      some
        { s with
          sk := countSent s.sk l.blockno l.pin
          phase := nextPacket (countSent s.sk l.blockno l.pin) l currWin }
    else none
  | .ack a, .idle =>
    if 0 < s.sk.numActive then some { s with phase := .acking 0 a s.sk.currBlock } else none
  | .free, .acking _ a _ =>
    if s.sk.currBlock < a.blockno ∧ s.SlotFree (slot s.sk.currBlock) then
      some
        { s with
          sk := freeCurrBlock s.sk
          tasks := s.tasks.map (Task.age (slot s.sk.currBlock)) }
    else none
  | .ackEnd slr cwnd, .acking pin a start =>
    if a.blockno ≤ s.sk.currBlock ∧ s.SlotFree (slot s.sk.currBlock) ∧ (0 ≤ slr ∧ slr ≤ 1) ∧
        cwnd ≤ maxCwnd then
      some
        { s with
          sk := { s.sk.setPath pin (ackPath (s.sk.activePaths pin) a.ackno slr cwnd) with
            dofReqLatest := max 0 (ackDofReq s.sk (start < s.sk.currBlock) a) }
          phase := .idle }
    else none
  | _, _ => none

/-- The step of a worker with the first job. -/
def Pipeline.actWorker (cap : ℕ) (s : Pipeline) : PipelineAct → List Task → Option Pipeline
  | .check, ⟨job, .pending, fresh⟩ :: ts =>
    if s.phase.Unlocked ∧ s.sk.currBlock ≤ job.blockno then
      some { s with tasks := ⟨job, .checked, fresh⟩ :: ts }
    else none
  | .run, ⟨job, .checked, fresh⟩ :: ts =>
    let rows := blockLenRows (s.sk.block job.blockno)
    if s.SlotFree (slot job.blockno) ∧ rows.length ≤ blockSize then
      if rows = [] then some { s with tasks := ts }
      else some { s with tasks := ⟨job, .pushing (somePackets rows job), fresh⟩ :: ts }
    else none
  | .push, ⟨job, .pushing (msg :: left), fresh⟩ :: ts =>
    if (s.sk.codedQ (slot job.blockno)).length < cap then
      some
        { s with
          sk := { s.sk with
            codedQ :=
              update s.sk.codedQ (slot job.blockno) (s.sk.codedQ (slot job.blockno) ++ [msg]) }
          tasks := ⟨job, .pushing left, fresh⟩ :: ts
          pushed := s.pushed ++ [msg] }
    else none
  | .finish, ⟨_, .pushing [], _⟩ :: ts => some { s with tasks := ts }
  | _, _ => none

/-- One step of a script. Rows come into a slot when all its jobs are fresh, and a queue
has room for them; `send_segs` looks at the current block only, with a small window. -/
def Pipeline.act (cap : ℕ) (s : Pipeline) : PipelineAct → Option Pipeline
  | .fill byte =>
    if s.phase.Unlocked ∧ s.SlotFree (slot s.sk.maxblockno) ∧
        (∀ t ∈ s.tasks, t.slot = slot s.sk.maxblockno → t.fresh) ∧
        s.sk.dofRemain (slot s.sk.maxblockno) + (roundRows s.sk [byte]).length ≤
          (2 * blockSize : ℕ) then
      some (s.fill [byte])
    else none
  | .check => s.actWorker cap .check s.tasks
  | .run => s.actWorker cap .run s.tasks
  | .push => s.actWorker cap .push s.tasks
  | .finish => s.actWorker cap .finish s.tasks
  | a => s.actServer a s.phase

/-- What the steps of a script meet. -/
def Tame (s : Pipeline) : PipelineEvent → Prop
  | .fill rest =>
    (∀ t ∈ s.tasks, t.slot = slot s.sk.maxblockno → t.fresh) ∧
      s.sk.dofRemain (slot s.sk.maxblockno) + (roundRows s.sk rest).length ≤ (2 * blockSize : ℕ)
  | .examine =>
    ∀ l, s.phase = .looping l → l.blockno = s.sk.currBlock ∧ l.win ≤ (2 * blockSize : ℕ)
  | _ => True

variable {cap : ℕ} {s s' : Pipeline} {a : PipelineAct}

theorem actServer_step (h : s.actServer a s.phase = some s') :
    Tame s a.event ∧ PipelineStep cap s a.event s' := by
  generalize hphase : s.phase = phase at h
  unfold Pipeline.actServer at h
  split at h
  case h_1 => exact ⟨trivial, Option.some.inj h ▸ .start hphase⟩
  case h_2 =>
    split at h
    case isTrue hpos => exact ⟨trivial, Option.some.inj h ▸ .segs hphase hpos⟩
    case isFalse => cases h
  case h_3 l =>
    split at h
    case isTrue hgo =>
      obtain ⟨hgo, hcurr, hwin⟩ := hgo
      refine ⟨fun l' hl => ?_, Option.some.inj h ▸ .examine hphase hgo (.inl hcurr)⟩
      obtain rfl := Phase.looping.inj (hphase.symm.trans hl)
      exact ⟨hcurr, hwin⟩
    case isFalse => cases h
  case h_4 =>
    split at h
    case isTrue hfree => exact ⟨trivial, Option.some.inj h ▸ .assign hphase hfree⟩
    case isFalse => cases h
  case h_5 =>
    split at h
    case h_1 => cases h
    case h_2 msg q hq => exact ⟨trivial, Option.some.inj h ▸ .pop hphase hq⟩
  case h_6 =>
    split at h
    case isTrue hfree => exact ⟨trivial, Option.some.inj h ▸ .decrement hphase hfree⟩
    case isFalse => cases h
  case h_7 =>
    split at h
    case isTrue hpos => exact ⟨trivial, Option.some.inj h ▸ .ack hphase hpos⟩
    case isFalse => cases h
  case h_8 =>
    split at h
    case isTrue hmore => exact ⟨trivial, Option.some.inj h ▸ .free hphase hmore.1 hmore.2⟩
    case isFalse => cases h
  case h_9 =>
    split at h
    case isTrue hend =>
      obtain ⟨hdone, hfree, hslr, hcwnd⟩ := hend
      exact ⟨trivial, Option.some.inj h ▸ .ackEnd hphase hdone hfree hslr hcwnd⟩
    case isFalse => cases h
  case h_10 => cases h

theorem actWorker_step (h : s.actWorker cap a s.tasks = some s') :
    PipelineStep cap s .work s' := by
  generalize htasks : s.tasks = tasks at h
  unfold Pipeline.actWorker at h
  split at h
  case h_1 job fresh ts =>
    split at h
    case isTrue hcheck =>
      exact Option.some.inj h ▸ @PipelineStep.check cap s [] ts _ htasks rfl hcheck.1 hcheck.2
    case isFalse => cases h
  case h_2 job fresh ts =>
    simp only at h
    split at h
    case isTrue hrun =>
      obtain ⟨hfree, hlen⟩ := hrun
      split at h
      case isTrue hempty =>
        exact Option.some.inj h ▸ @PipelineStep.giveUp cap s [] ts _ htasks rfl hfree hempty
      case isFalse hrows =>
        exact Option.some.inj h ▸ @PipelineStep.run cap s [] ts _ _ htasks rfl hfree hrows
          (jobPackets_somePackets hlen job)
    case isFalse => cases h
  case h_3 job msg left fresh ts =>
    split at h
    case isTrue hroom =>
      exact Option.some.inj h ▸ @PipelineStep.push cap s [] ts _ msg left htasks rfl hroom
    case isFalse => cases h
  case h_4 ts => exact Option.some.inj h ▸ @PipelineStep.finish cap s [] ts _ htasks rfl
  case h_5 => cases h

theorem act_step (h : s.act cap a = some s') :
    Tame s a.event ∧ PipelineStep cap s a.event s' := by
  cases a with
  | fill byte =>
      rw [Pipeline.act] at h
      split at h
      case isTrue hfill =>
        obtain ⟨hlock, hfree, hfresh, hroom⟩ := hfill
        exact ⟨⟨hfresh, hroom⟩, Option.some.inj h ▸
          .fill (List.cons_ne_nil byte []) (by simp) hlock hfree⟩
      case isFalse => cases h
  | check | run | push | finish => exact ⟨trivial, actWorker_step h⟩
  | start | segs | examine | assign | pop | decrement | ack | free | ackEnd =>
      exact actServer_step h

/-- Scripts are runs under every condition that their steps meet. -/
theorem reachable_acts {memory : BlockMemory} {C : Pipeline → PipelineEvent → Prop}
    (hC : ∀ s e, Tame s e → C s e) (h : ((pipeline cap memory).guard C).Reachable s)
    {acts : List PipelineAct} (hacts : acts.foldlM (Pipeline.act cap) s = some s') :
    ((pipeline cap memory).guard C).Reachable s' := by
  obtain ⟨s₁, hs₁, rfl⟩ := System.Reachable.replay (R := fun s p => s = p)
    (fun s p a p' hs hp hact => by
      subst hp
      obtain ⟨htame, hstep⟩ := act_step hact
      exact ⟨p', hs.guardStep hstep (hC _ _ htame), rfl⟩) h rfl hacts
  exact hs₁

/-! ## One byte -/

/-- The server before anything happens, with one path. -/
theorem reachable_onePath {C : Pipeline → PipelineEvent → Prop} :
    ((pipeline cap noRows).guard C).Reachable onePath := .init ⟨1, 1, by decide, by decide, rfl⟩

/-- The row of one byte is queued uncoded. An acknowledgement leaves a loss rate of 1/2, so
`send_segs` asks for a second packet: a coded one is queued too, and the first one is sent. -/
def oneByteSent : List PipelineAct :=
  [.fill 7, .start, .ack ⟨1, 1, 0⟩, .ackEnd (1 / 2) initsegs, .segs, .examine, .assign, .check,
    .run, .push, .finish, .check, .run, .push, .pop]

/-- The packet that the server thread has in its hand, with its block and what is left to
send of it. -/
def Phase.packetInHand : Phase → Option (ℕ × ℕ × DataPckt)
  | .popped l currWin msg => some (l.blockno, currWin, msg)
  | _ => none

theorem phase_of_packetInHand {phase : Phase} {b currWin : ℕ} {msg : DataPckt}
    (h : phase.packetInHand = some (b, currWin, msg)) :
    ∃ l, phase = .popped l currWin msg ∧ l.blockno = b := by
  cases phase with
  | popped l currWin' msg' =>
      simp only [Phase.packetInHand, Option.some.injEq, Prod.mk.injEq] at h
      obtain ⟨hb, rfl, rfl⟩ := h
      exact ⟨l, rfl, hb⟩
  | _ => cases h

/-- In hand is the uncoded packet; the coded job still has the mutex of its block. -/
theorem exists_oneByteSent {C : Pipeline → PipelineEvent → Prop} (hC : ∀ s e, Tame s e → C s e) :
    ∃ s l msg, ((pipeline (2 * blockSize) noRows).guard C).Reachable s ∧
      s.phase = .popped l 1 msg ∧ l.blockno = 1 ∧ msg.flag = .normal ∧
      (s.sk.codedQ 1).map DataPckt.flag = [.coded] ∧ ∃ t ∈ s.tasks, t.Holds := by
  have hview : (oneByteSent.foldlM (Pipeline.act (2 * blockSize)) onePath).map (fun s =>
      (s.phase.packetInHand.map fun c => (c.1, c.2.1, c.2.2.flag),
        (s.sk.codedQ 1).map DataPckt.flag, decide (∃ t ∈ s.tasks, t.Holds))) =
      some (some (1, 1, .normal), [.coded], true) := by decide +kernel
  obtain ⟨s, hacts, hview⟩ := Option.map_eq_some_iff.mp hview
  simp only [Prod.mk.injEq, decide_eq_true_eq] at hview
  obtain ⟨hhand, hqueue, hholds⟩ := hview
  obtain ⟨⟨b, currWin, msg⟩, hhand, heq⟩ := Option.map_eq_some_iff.mp hhand
  obtain ⟨rfl, rfl, hflag⟩ := by simpa only [Prod.mk.injEq] using heq
  obtain ⟨l, hphase, hb⟩ := phase_of_packetInHand hhand
  exact ⟨s, l, msg, reachable_acts hC reachable_onePath hacts, hphase, hb, hflag, hqueue, hholds⟩

end Ctcp
