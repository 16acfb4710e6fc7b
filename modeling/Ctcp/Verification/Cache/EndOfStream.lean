import Ctcp.Model.Session
import Ctcp.Verification.Cache.Fifo
import Ctcp.Verification.Decoder.Runs
import Ctcp.Verification.Store.Packing

/-! # The end of the stream -/

namespace Ctcp

open Function Program

/-! ## The rows of a stream -/

/-- The bytes that the server has accepted, cut into the chunks that its rows hold. -/
structure RowStream where
  chunks : List (List UInt8)
  length_le : ∀ chunk ∈ chunks, chunk.length ≤ rowCapacity

namespace RowStream

variable (S : RowStream)

def bytes : List UInt8 := S.chunks.flatten

/-- The number of rows that the server ever held. -/
def total : ℕ := S.chunks.length

/-- Row `r` of block `b`; behind the last chunk there are only rows without data. -/
def rows (b r : ℕ) : Payload := packRow (S.chunks.getD (blockSize * (b - 1) + r) [])

theorem packs_rows (b r : ℕ) :
    (S.rows b r).Packs (S.chunks.getD (blockSize * (b - 1) + r) []) := by
  apply packs_packRow
  by_cases hlt : blockSize * (b - 1) + r < S.chunks.length
  · rw [List.getD_eq_getElem _ _ hlt]
    exact S.length_le _ (List.getElem_mem hlt)
  · rw [List.getD_eq_default _ _ (Nat.not_lt.mp hlt)]
    exact Nat.zero_le _

theorem allFramed : AllFramed S.rows := fun b r => (S.packs_rows b r).framed

theorem flatMap_range_getD (l : List (List UInt8)) :
    (List.range l.length).flatMap (fun i => l.getD i []) = l.flatten := by
  induction l with
  | nil => rfl
  | cons c l ih =>
      rw [List.length_cons, List.range_succ_eq_map, List.flatMap_cons, List.flatMap_map,
        List.flatten_cons, ← ih]
      rfl

/-- All rows together hold the whole stream. -/
theorem sourceBytes_total : sourceBytes S.rows S.total = S.bytes := by
  rw [sourceBytes, bytes, ← flatMap_range_getD]
  apply List.flatMap_congr
  intro i _
  rw [(S.packs_rows _ _).bytes_eq, Nat.add_sub_cancel, Nat.div_add_mod]

end RowStream

/-! ## The system -/

inductive SessionEvent where
  | arrive (e : Arrival)
  | handle
  | enter (count : ℕ)
  | pop
  | close
  | release

/-- The packet is truthful, and its rows are rows of the stream. -/
structure InStream (S : RowStream) (msg : DataPckt) : Prop where
  truthful : Truthful (S.rows msg.blockno) msg
  rows_le : blockSize * (msg.blockno - 1) + msg.startPacket.toNat + msg.numPackets.toNat ≤ S.total

/-- The client has acknowledged every row that the server ever held. -/
def Session.AckedAll (S : RowStream) (s : Session) : Prop :=
  S.total = 0 ∨ ∃ a ∈ s.acks, blockSize * (a.blockno - 1) + a.dofRec.toNat = S.total

/-- The steps of both threads, in any order. The server closes only after everything
is acknowledged, and its packet is handled between two others. -/
inductive SessionStep (S : RowStream) : Session → SessionEvent → Session → Prop where
  | arrive {s : Session} {e : Arrival} {csk : Client} (hactive : s.status = .active)
      (hidle : s.handler = .idle csk) (hmsg : InStream S e.msg) :
      SessionStep S s (.arrive e) { s with handler := .running (handleData e.rm csk e.msg) }
  | handle {s s' : Session} (h : handlerStep s = some s') : SessionStep S s .handle s'
  | enter {s : Session} {count : ℕ} (houtside : s.reader = .outside) (hcount : 1 ≤ count) :
      SessionStep S s (.enter count) (readCtcp s count)
  | pop {s s' : Session} {count : ℕ} (hpopping : s.reader = .popping count)
      (h : readCtcpPop s count = some s') : SessionStep S s .pop s'
  | close {s : Session} {csk : Client} (hactive : s.status = .active)
      (hidle : s.handler = .idle csk) (hacked : s.AckedAll S) :
      SessionStep S s .close (finClose s)
  | release {s : Session} (hclosed : s.status = .closed) : SessionStep S s .release (finRelease s)

def session (S : RowStream) : System Session SessionEvent where
  init s := ∃ raw, s = openSession raw
  step := SessionStep S

/-- All bytes of the stream have been read when the application gets its first -1. -/
def ReadsAll (S : RowStream) (s : Session) : Prop := s.reader = .failed → s.read = S.bytes

/-! ## The condition -/

/-- A reader that finds the status `CLOSED`, or the buffer released, misses nothing. -/
def Session.ReaderDone (s : Session) : Prop :=
  match s.reader with
  | .outside => s.usrCache.size = 0
  | .popping count => s.usrCache.size ≤ count
  | .failed => s.usrCache.size = 0

/-- Packets keep the coefficients of stored rows, and the status becomes `CLOSED` only
when all rows are in the buffer or read, and the buffer is empty or about to be
emptied by a call past its test of the status. -/
def ClosesDrained (S : RowStream) (s : Session) : SessionEvent → Prop
  | .arrive e => ∀ csk, s.handler = .idle csk → csk.Absorbs e.msg → 2 ≤ e.msg.numPackets.toNat →
      Fits e.rm (csk.block e.msg.blockno) e.msg
  | .close => (∀ csk, s.handler = .idle csk → csk.rowsPushed = S.total) ∧ s.ReaderDone
  | _ => True

/-! ## The invariant -/

/-- The bytes handed over so far: those read and those in the buffer. -/
def Session.handed (s : Session) : List UInt8 := s.read ++ s.usrCache.contents

/-- The handler hands over the source rows in order, whatever the buffer replies. -/
def Handler.Sound (p : ℕ → ℕ → Payload) (handed : List UInt8) : Handler → Prop
  | .idle csk => ReceiverSound p ⟨csk, handed⟩
  | .running prog => prog.Ensures Drained fun t res =>
      ∃ c, res = some c ∧ ReceiverSound p ⟨c.1, handed ++ pushedBytes t⟩

structure SessionInv (S : RowStream) (s : Session) : Prop where
  cache : s.usrCache.Inv
  count_pos : ∀ count, s.reader = .popping count → 1 ≤ count
  active : s.status = .active → s.usrCache.released = false ∧ s.reader ≠ .failed ∧
    s.handler.Sound S.rows s.handed
  closed : s.status = .closed → (∃ csk, s.handler = .idle csk) ∧ s.handed = S.bytes ∧
    s.ReaderDone

variable {S : RowStream} {s s' : Session}

theorem SessionInv.not_closed (h : SessionInv S s) {prog : FifoProgram (Option (Client × AckPckt))}
    (hrun : s.handler = .running prog) : s.status = .active := by
  cases hs : s.status with
  | active => rfl
  | closed =>
      obtain ⟨⟨csk, hidle⟩, -⟩ := h.closed hs
      rw [hrun] at hidle
      cases hidle

/-- The push of the handler, as the buffer answers it. -/
theorem drained_of_pushedSpec {Q Q' : Fifo} {bytes : List UInt8} {n : ℕ}
    (h : PushedSpec Q bytes n Q') (hreleased : Q.released = false) :
    Drained (.push bytes) n := by
  have hroom : Q.size < Q.maxSize := h.room.resolve_right (by simp [hreleased])
  have hsize := h.size_eq
  constructor
  · intro hne
    have hpos := List.length_pos_of_ne_nil hne
    omega
  · omega

theorem SessionInv.handle (h : SessionInv S s) (hstep : handlerStep s = some s') :
    SessionInv S s' := by
  unfold handlerStep at hstep
  split at hstep
  case h_1 => cases hstep
  case h_2 => cases hstep
  case h_3 csk ack hrun =>
    obtain rfl := Option.some.inj hstep
    have hactive := h.not_closed hrun
    obtain ⟨hreleased, hreader, hsound⟩ := h.active hactive
    rw [hrun] at hsound
    obtain ⟨c, hc, hsound⟩ := hsound
    obtain rfl := Option.some.inj hc
    refine ⟨h.cache, h.count_pos, fun _ => ⟨hreleased, hreader, ?_⟩, fun hc => ?_⟩
    · simpa [Handler.Sound, Session.handed] using hsound
    · simp [hactive] at hc
  case h_4 k hrun =>
    obtain rfl := Option.some.inj hstep
    have hactive := h.not_closed hrun
    obtain ⟨hreleased, hreader, hsound⟩ := h.active hactive
    rw [hrun] at hsound
    refine ⟨h.cache, h.count_pos, fun _ => ⟨hreleased, hreader, ?_⟩, fun hc => ?_⟩
    · have hreply := hsound (fifoGetspace s.usrCache) trivial
      refine hreply.mono fun t res hres => ?_
      simpa [Session.handed] using hres
    · simp [hactive] at hc
  case h_5 bytes k hrun =>
    obtain ⟨⟨n, Q'⟩, hpush, rfl⟩ := Option.map_eq_some_iff.mp hstep
    have hactive := h.not_closed hrun
    obtain ⟨hreleased, hreader, hsound⟩ := h.active hactive
    rw [hrun] at hsound
    have hspec := fifoPush_spec h.cache hpush
    refine ⟨hspec.inv, h.count_pos, fun _ => ⟨hspec.released_eq.trans hreleased, hreader, ?_⟩,
      fun hc => ?_⟩
    · have hreply := hsound n (drained_of_pushedSpec hspec hreleased)
      refine hreply.mono fun t res hres => ?_
      simpa [Session.handed, hspec.contents_eq] using hres
    · simp [hactive] at hc

theorem SessionInv.enter (h : SessionInv S s) {count : ℕ} (houtside : s.reader = .outside)
    (hcount : 1 ≤ count) : SessionInv S (readCtcp s count) := by
  unfold readCtcp
  split
  case isTrue hactive =>
    obtain ⟨hreleased, -, hsound⟩ := h.active hactive
    refine ⟨h.cache, fun n hn => ?_, fun _ => ⟨hreleased, by simp, hsound⟩, fun hc => ?_⟩
    · obtain rfl : count = n := by simpa using hn
      exact hcount
    · simp [hactive] at hc
  case isFalse hclosed =>
    refine ⟨h.cache, fun n hn => by simp at hn, fun hactive => (hclosed hactive).elim, fun hc => ?_⟩
    obtain ⟨hidle, hhanded, hdone⟩ := h.closed hc
    rw [Session.ReaderDone, houtside] at hdone
    exact ⟨hidle, hhanded, hdone⟩

theorem SessionInv.pop (h : SessionInv S s) {count : ℕ} (hpopping : s.reader = .popping count)
    (hread : readCtcpPop s count = some s') : SessionInv S s' := by
  obtain ⟨⟨bytes, Q'⟩, hpop, rfl⟩ := Option.map_eq_some_iff.mp hread
  have hspec := fifoPop_spec h.cache hpop
  have hbytes : bytes ++ Q'.contents = s.usrCache.contents := by
    rw [hspec.bytes_eq, hspec.contents_eq, List.take_append_drop]
  have hcount := h.count_pos count hpopping
  by_cases hnil : bytes = []
  · -- nothing was there, so the buffer has been released
    have hsize : s.usrCache.size = 0 := by
      have hlen := congrArg List.length hspec.bytes_eq
      rw [hnil, List.length_take, Fifo.length_contents, List.length_nil] at hlen
      omega
    have hreleased := hspec.ready.resolve_left (not_not_intro hsize)
    have hsame : Q'.contents = s.usrCache.contents := by rw [← hbytes, hnil, List.nil_append]
    simp only [hnil, if_true]
    refine ⟨hspec.inv, fun n hn => by simp at hn, fun hactive => ?_, fun hclosed => ?_⟩
    · rw [(h.active hactive).1] at hreleased
      cases hreleased
    · obtain ⟨hidle, hhanded, -⟩ := h.closed hclosed
      refine ⟨hidle, ?_, ?_⟩
      · rw [← hhanded, Session.handed, Session.handed, hsame]
      · change Q'.size = 0
        rw [← Fifo.length_contents, hsame, Fifo.length_contents, hsize]
  · have hhanded : (s.read ++ bytes) ++ Q'.contents = s.handed := by
      rw [List.append_assoc, hbytes, Session.handed]
    simp only [if_neg hnil]
    refine ⟨hspec.inv, fun n hn => by simp at hn, fun hactive => ?_, fun hclosed => ?_⟩
    · obtain ⟨hreleased, -, hsound⟩ := h.active hactive
      refine ⟨hspec.released_eq.trans hreleased, by simp, ?_⟩
      change s.handler.Sound S.rows ((s.read ++ bytes) ++ Q'.contents)
      rwa [hhanded]
    · obtain ⟨hidle, hall, hdone⟩ := h.closed hclosed
      refine ⟨hidle, hhanded.trans hall, ?_⟩
      rw [Session.ReaderDone, hpopping] at hdone
      change Q'.size = 0
      rw [← Fifo.length_contents, hspec.contents_eq, List.length_drop, Fifo.length_contents]
      exact Nat.sub_eq_zero_of_le hdone

theorem SessionInv.close (h : SessionInv S s) {csk : Client} (hactive : s.status = .active)
    (hidle : s.handler = .idle csk) (hdrained : ClosesDrained S s .close) :
    SessionInv S (finClose s) := by
  obtain ⟨hrows, hdone⟩ := hdrained
  obtain ⟨-, -, hsound⟩ := h.active hactive
  rw [hidle] at hsound
  refine ⟨h.cache, h.count_pos, fun hc => by simp [finClose] at hc, fun _ => ⟨⟨csk, hidle⟩, ?_,
    hdone⟩⟩
  have hpushed := hsound.pushed S.allFramed
  rw [hrows csk hidle, S.sourceBytes_total] at hpushed
  exact hpushed

theorem SessionInv.step {e : SessionEvent} (h : SessionInv S s) (hstep : SessionStep S s e s')
    (hdrained : ClosesDrained S s e) : SessionInv S s' := by
  cases hstep with
  | arrive hactive hidle hmsg =>
      obtain ⟨hreleased, hreader, hsound⟩ := h.active hactive
      rw [hidle] at hsound
      refine ⟨h.cache, h.count_pos, fun _ => ⟨hreleased, hreader, ?_⟩, fun hc => ?_⟩
      · apply hsound.step hmsg.truthful
        intro r hr
        obtain rfl := Option.some.inj hr
        exact hdrained _ hidle
      · simp [hactive] at hc
  | handle hrun => exact h.handle hrun
  | enter houtside hcount => exact h.enter houtside hcount
  | pop hpopping hpop => exact h.pop hpopping hpop
  | close hactive hidle hacked => exact h.close hactive hidle hdrained
  | release hclosed =>
      refine ⟨{ h.cache with }, h.count_pos, fun hactive => ?_, h.closed⟩
      change s.status = .active at hactive
      simp [hclosed] at hactive

theorem sessionInv_of_reachable (h : ((session S).guard (ClosesDrained S)).Reachable s) :
    SessionInv S s := by
  apply h.invariant
  · rintro s ⟨raw, rfl⟩
    refine ⟨fifoInv_fifoInit (by decide), fun n hn => by simp [openSession] at hn,
      fun _ => ⟨rfl, by simp [openSession], ?_⟩, fun hc => by simp [openSession] at hc⟩
    exact receiverSound_create S.rows raw
  · exact fun s e s' hinv hstep => hinv.step hstep.2 hstep.1

/-- No byte is lost, as long as the connection closes drained. -/
theorem readsAll_of_reachable (h : ((session S).guard (ClosesDrained S)).Reachable s) :
    ReadsAll S s := by
  have hinv := sessionInv_of_reachable h
  intro hfailed
  cases hstatus : s.status with
  | active => exact ((hinv.active hstatus).2.1 hfailed).elim
  | closed =>
      obtain ⟨-, hhanded, hdone⟩ := hinv.closed hstatus
      rw [Session.ReaderDone, hfailed] at hdone
      have hempty : s.usrCache.contents = [] :=
        List.length_eq_zero_iff.mp ((Fifo.length_contents _).trans hdone)
      rw [← hhanded, Session.handed, hempty, List.append_nil]

/-! ## Closing before the application has read -/

namespace EarlyClose

/-- A stream of one byte. -/
def stream : RowStream := ⟨[[7]], by decide⟩

def arrival : Arrival := ⟨ShortAfterLong.blank, ⟨.normal, 0, 1, 0, 1, 0, stream.rows 1 0⟩⟩

def start : Session := openSession fun _ => ShortAfterLong.memory

/-- The only packet is handled: it asks for space, pushes the byte and returns. -/
def handled : Option Session :=
  ((handlerStep { start with
    handler := .running (handleData arrival.rm (createClictcpSock fun _ => ShortAfterLong.memory)
      arrival.msg) }).bind handlerStep).bind handlerStep

/-- Then the application reads it. -/
def drained : Option Session := handled.bind fun s => readCtcpPop (readCtcp s 1) 1

/-- The parts of a state that the runs below depend on. -/
structure View where
  status : SockStatus
  rowsPushed : Option ℕ
  acks : List AckPckt
  size : ℕ
  reader : Reader
  read : List UInt8
  deriving DecidableEq

def Handler.rowsPushed : Handler → Option ℕ
  | .idle csk => some csk.rowsPushed
  | .running _ => none

def view (s : Session) : View :=
  ⟨s.status, Handler.rowsPushed s.handler, s.acks, s.usrCache.size, s.reader, s.read⟩

theorem view_handled :
    handled.map view = some ⟨.active, some 1, [⟨1, 1, 1⟩], 1, .outside, []⟩ := by
  decide +kernel

theorem view_drained :
    drained.map view = some ⟨.active, some 1, [⟨1, 1, 1⟩], 0, .outside, [7]⟩ := by
  decide +kernel

theorem inStream_arrival : InStream stream arrival.msg where
  truthful := .normal rfl (by decide) rfl rfl
  rows_le := by decide

theorem reachable_handled {s : Session} (h : handled = some s) :
    ((session stream).guard (ClosesDrained stream)).Reachable s := by
  obtain ⟨s₂, h₂, h₃⟩ := Option.bind_eq_some_iff.mp h
  obtain ⟨s₁, h₁, h₂⟩ := Option.bind_eq_some_iff.mp h₂
  have hinit : ((session stream).guard (ClosesDrained stream)).Reachable start := .init ⟨_, rfl⟩
  have harrive := hinit.step (e := SessionEvent.arrive arrival)
    ⟨fun _ _ _ hnum => absurd hnum (by decide), .arrive rfl rfl inStream_arrival⟩
  have hspace := harrive.step (e := SessionEvent.handle) ⟨trivial, .handle h₁⟩
  have hpush := hspace.step (e := SessionEvent.handle) ⟨trivial, .handle h₂⟩
  exact hpush.step (e := SessionEvent.handle) ⟨trivial, .handle h₃⟩

/-- A handler that shows a number of rows is idle with that number. -/
theorem idle_of_rowsPushed {h : Handler} {n : ℕ} (hrows : Handler.rowsPushed h = some n) :
    ∃ csk, h = .idle csk ∧ csk.rowsPushed = n := by
  cases h with
  | idle csk => exact ⟨csk, rfl, Option.some.inj hrows⟩
  | running prog => cases hrows

end EarlyClose

open EarlyClose

/-- The application reads the byte before the connection closes. -/
theorem readsAll_drained : ∃ s : Session, s.reader = .failed ∧ ReadsAll stream s := by
  obtain ⟨s, hdrained, hview⟩ := Option.map_eq_some_iff.mp view_drained
  obtain ⟨s₁, hhandled, hpop⟩ := Option.bind_eq_some_iff.mp hdrained
  obtain ⟨s₁', hhandled', hview'⟩ := Option.map_eq_some_iff.mp view_handled
  obtain rfl : s₁ = s₁' := Option.some.inj (hhandled.symm.trans hhandled')
  simp only [view, View.mk.injEq] at hview hview'
  obtain ⟨hactive, hrows, hacks, hsize, hreader, -⟩ := hview
  obtain ⟨hactive', -, -, -, hreader', -⟩ := hview'
  obtain ⟨csk, hidle, hpushed⟩ := idle_of_rowsPushed hrows
  have henter := (reachable_handled hhandled).step (e := SessionEvent.enter 1)
    ⟨trivial, .enter hreader' le_rfl⟩
  have hread := henter.step (e := SessionEvent.pop)
    ⟨trivial, .pop (by rw [readCtcp, if_pos hactive']) hpop⟩
  have hclose := hread.step (e := SessionEvent.close)
    ⟨⟨fun c hc => ?_, ?_⟩, .close hactive hidle (.inr ⟨_, hacks ▸ List.mem_singleton.mpr rfl, rfl⟩)⟩
  · have hfail := hclose.step (e := SessionEvent.enter 1) ⟨trivial, .enter hreader le_rfl⟩
    exact ⟨_, rfl, readsAll_of_reachable hfail⟩
  · rw [hidle] at hc
    cases hc
    exact hpushed
  · rw [Session.ReaderDone, hreader]
    exact hsize

/-- The connection closes while the byte is in the buffer: it is never read. -/
theorem not_readsAll_of_earlyClose :
    ¬∀ S s, (session S).Reachable s → ReadsAll S s := by
  intro hall
  obtain ⟨s, hhandled, hview⟩ := Option.map_eq_some_iff.mp view_handled
  simp only [view, View.mk.injEq] at hview
  obtain ⟨hactive, hrows, hacks, -, hreader, hread⟩ := hview
  obtain ⟨csk, hidle, -⟩ := idle_of_rowsPushed hrows
  have hclose := (reachable_handled hhandled).of_guard.step (e := SessionEvent.close)
    (.close hactive hidle (.inr ⟨_, hacks ▸ List.mem_singleton.mpr rfl, rfl⟩))
  have hfail := hclose.step (e := SessionEvent.enter 1) (.enter hreader le_rfl)
  have hbytes := hall stream _ hfail rfl
  change s.read = [7] at hbytes
  rw [hread] at hbytes
  cases hbytes

end Ctcp
