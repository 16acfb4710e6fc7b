import Ctcp.Verification.Receive.Arrays
import Mathlib.Data.List.Rotate

/-! # The invariant of the client's receive loop

The loop over the ready sockets goes around the substreams once when everything that `poll`
reports is an input. The failure of the first socket takes the index below 0, and a path that
is given up by its timer can leave the index behind, or make the loop pass over the next
path. -/

namespace Ctcp

open Function

/-! ## Records of one path -/

namespace CliPaths

variable {csk : CliPaths} {k : ℕ}

theorem record_received (now : ℚ) :
    (csk.received k now).record = update csk.record k ((csk.record k).received now) := by
  funext j
  by_cases hj : j = k
  · subst hj
    simp [record, received, PathRecord.received]
  · simp [record, received, update_of_ne hj]

theorem record_setPath (p : CliPath) :
    (csk.setPath k p).record = update csk.record k { csk.record k with pathstate := p } := by
  funext j
  by_cases hj : j = k
  · subst hj
    simp [record, setPath]
  · simp [record, setPath, update_of_ne hj]

theorem record_idled : (csk.idled k).record = update csk.record k (csk.record k).idled := by
  funext j
  by_cases hj : j = k
  · subst hj
    simp [record, idled, PathRecord.idled]
  · simp [record, idled, update_of_ne hj]

end CliPaths

namespace HandleConn

/-- The timer of path `k` gives it up. -/
def GivesUp (s : HandleConn) (k : ℕ) (now : ℚ) : Prop :=
  s.csk.idleTime k < now - s.csk.lastrcvt k ∧ idleMaxCount ≤ s.csk.idleCount k + 1 ∧
    s.csk.pathstate k ≠ .established ∧ s.csk.pathstate k ≠ .synAckRecv

/-- The index at which the loop over the ready sockets goes on. -/
def IndexOk (s : HandleConn) : Prop :=
  0 ≤ s.currSubstream ∧ s.currSubstream < s.csk.substreams

/-- The order in which the loop over the ready sockets looks at the substreams, from `b` on. -/
def order (n b : ℕ) : List ℕ := (List.range n).rotate b

/-- The loop is at index `c`. It goes around once: `ready` counts the inputs that are still
ahead, and those behind have been read. -/
def Around (s : HandleConn) (c : ℕ) : Prop :=
  ∃ b, c = (s.passes + b) % s.csk.substreams ∧
    s.ready = ((order s.csk.substreams b).drop s.passes).countP (s.revents · = .input) ∧
    s.reads = ((order s.csk.substreams b).take s.passes).filter (s.revents · = .input)

/-- What holds in each phase. -/
def PhaseInv (s : HandleConn) : HandlePhase → Prop
  | .polling => s.Arrays ∧ s.IndexOk ∧ s.examined = s.started
  | .receiving => s.Arrays ∧ s.IndexOk ∧ s.examined = s.started ∧ 0 < s.ready ∧
      s.Around s.currSubstream.toNat
  | .timing k => s.Arrays ∧ (s.csk.substreams = 0 ∨ s.IndexOk) ∧
      ∃ i : ℕ, k = i ∧ s.examined ++ s.csk.sockets.drop i = s.started
  | .done => s.examined = s.started

structure Inv (s : HandleConn) : Prop where
  inRange : s.inRange = true
  started : s.started.Nodup
  reads : s.reads.Nodup
  phase : s.PhaseInv s.phase

variable {s t : HandleConn} {c n b p : ℕ}

/-! ## Once around -/

theorem nodup_order (n b : ℕ) : (order n b).Nodup := List.nodup_rotate.mpr List.nodup_range

theorem length_order (n b : ℕ) : (order n b).length = n := by
  rw [order, List.length_rotate, List.length_range]

theorem order_drop (hp : p < n) (b : ℕ) :
    (order n b).drop p = (p + b) % n :: (order n b).drop (p + 1) := by
  have hlen : p < (order n b).length := (length_order n b).symm ▸ hp
  rw [List.drop_eq_getElem_cons hlen]
  simp only [order, List.getElem_rotate, List.length_range, List.getElem_range]

theorem order_take (hp : p < n) (b : ℕ) :
    (order n b).take (p + 1) = (order n b).take p ++ [(p + b) % n] := by
  have hlen : p < (order n b).length := (length_order n b).symm ▸ hp
  rw [List.take_add_one, List.getElem?_eq_getElem hlen, Option.toList_some]
  simp only [order, List.getElem_rotate, List.length_range, List.getElem_range]

/-- While inputs are ahead, not all substreams have been looked at. -/
theorem Around.passes_lt (h : s.Around c) (hready : 0 < s.ready) :
    s.passes < s.csk.substreams := by
  obtain ⟨b, -, hahead, -⟩ := h
  by_contra hge
  rw [List.drop_eq_nil_of_le ((length_order _ _).trans_le (Nat.not_lt.mp hge))] at hahead
  exact absurd hahead hready.ne'

theorem Around.reads_nodup (h : s.Around c) : s.reads.Nodup := by
  obtain ⟨b, -, -, hreads⟩ := h
  exact hreads ▸ ((nodup_order _ _).sublist (List.take_sublist _ _)).filter _

/-- One substream further. -/
theorem Around.next (h : s.Around c) (hready : 0 < s.ready)
    (hn : t.csk.substreams = s.csk.substreams) (hrevents : t.revents = s.revents)
    (hpasses : t.passes = s.passes + 1)
    (hahead : t.ready = if s.revents c = .input then s.ready - 1 else s.ready)
    (hreads : t.reads = if s.revents c = .input then s.reads ++ [c] else s.reads) :
    t.Around (if c + 1 = s.csk.substreams then 0 else c + 1) := by
  have hlt := h.passes_lt hready
  obtain ⟨b, hc, hready', hreads'⟩ := h
  rw [order_drop hlt, List.countP_cons, ← hc] at hready'
  refine ⟨b, ?_, ?_, ?_⟩
  · have hmod := Nat.mod_lt (s.passes + b) (Nat.zero_lt_of_lt hlt)
    rw [hn, hpasses, Nat.add_right_comm, ← Nat.mod_add_mod, ← hc]
    split
    next hlast => rw [hlast, Nat.mod_self]
    next hmid => rw [Nat.mod_eq_of_lt (by omega)]
  · rw [hn, hrevents, hpasses, hahead, hready']
    by_cases hinput : s.revents c = .input <;> simp [hinput]
  · rw [hn, hrevents, hpasses, hreads, order_take hlt, List.filter_append, ← hc, ← hreads']
    by_cases hinput : s.revents c = .input <;> simp [hinput]

/-! ## The end of a loop -/

theorem inv_roundEnd (hrange : s.inRange = true) (hstarted : s.started.Nodup)
    (hreads : s.reads.Nodup) (harrays : s.Arrays) (hindex : s.csk.substreams = 0 ∨ s.IndexOk)
    (hexamined : s.examined = s.started) : s.roundEnd.Inv := by
  refine ⟨hrange, hstarted, hreads, ?_⟩
  by_cases hzero : s.csk.substreams = 0
  · simpa [roundEnd, hzero, PhaseInv] using hexamined
  · cases hstatus : s.csk.status with
    | active =>
        simp only [roundEnd, if_neg hzero, hstatus, if_true, PhaseInv]
        exact ⟨harrays.congr rfl rfl rfl rfl rfl, hindex.resolve_left hzero, hexamined⟩
    | closed => simpa [roundEnd, hzero, hstatus, PhaseInv] using hexamined

theorem inv_afterPackets (hrange : s.inRange = true) (hstarted : s.started.Nodup)
    (hreads : s.reads.Nodup) (harrays : s.Arrays) (hindex : s.csk.substreams = 0 ∨ s.IndexOk)
    (hexamined : s.examined = s.started) : s.afterPackets.Inv := by
  rw [afterPackets]
  split
  · exact inv_roundEnd hrange hstarted hreads harrays hindex hexamined
  · exact ⟨hrange, harrays.nodup, hreads, harrays.congr rfl rfl rfl rfl rfl, hindex, 0, rfl, rfl⟩

/-! ## Polls -/

theorem inv_pollStep (h : s.Inv) (hphase : s.phase = .polling) {result : PollReturn}
    (hinput : ∀ revents, result = .events revents →
      ∀ k < s.csk.substreams, revents k ≠ .none → revents k = .input) :
    (pollStep s result).Inv := by
  obtain ⟨harrays, hindex, hexamined⟩ : s.PhaseInv .polling := hphase ▸ h.phase
  cases result with
  | failed eintr =>
      rw [pollStep]
      split
      · exact ⟨h.inRange, h.started, h.reads, hexamined⟩
      · exact inv_afterPackets h.inRange h.started h.reads harrays (.inr hindex) hexamined
  | events revents =>
      simp only [pollStep]
      split
      · exact inv_afterPackets h.inRange h.started h.reads (harrays.congr rfl rfl rfl rfl rfl)
          (.inr hindex) hexamined
      next hready =>
        refine ⟨h.inRange, h.started, List.nodup_nil, harrays.congr rfl rfl rfl rfl rfl, hindex,
          hexamined, Nat.pos_of_ne_zero hready, s.currSubstream.toNat, ?_, ?_, rfl⟩
        · have hlt : s.currSubstream.toNat < s.csk.substreams := by
            have := hindex.1
            have := hindex.2
            omega
          exact ((congrArg (· % _) (Nat.zero_add _)).trans (Nat.mod_eq_of_lt hlt)).symm
        · rw [List.drop_zero, order, ((List.range _).rotate_perm _).countP_eq]
          refine List.countP_congr fun k hk => ?_
          have hiff := hinput revents rfl k (List.mem_range.mp hk)
          cases hevent : revents k <;> simp_all

/-! ## Packets -/

theorem arrays_handlePacket (harrays : s.Arrays) {k : ℕ} (hk : k < s.csk.substreams) (flag : Flag)
    (now : ℚ) (sent : Bool) : (handlePacket s k flag now sent).Arrays := by
  simp only [handlePacket]
  split
  · have hmem {j : ℕ} (hj : j < s.csk.substreams) : s.csk.sockfd j ∈ s.csk.sockets :=
      List.mem_map_of_mem (List.mem_range.mpr hj)
    constructor
    · exact harrays.readFd
    · intro j hj
      change j < s.csk.substreams at hj
      change (if s.csk.sockfd j ∈ s.csk.sockets then _ else _) = _
      rw [if_pos (hmem hj)]
      by_cases hjk : j = k
      · subst hjk
        simp [harrays.paths j hj, CliPaths.record, PathRecord.received, CliPaths.received,
          CliPaths.setPaths, CliPaths.setPath, hj]
      · have hne : s.csk.sockfd j ≠ s.csk.sockfd k := fun heq =>
          hjk (harrays.sockfd_inj hj hk heq)
        simp [harrays.paths j hj, CliPaths.record, CliPaths.received, CliPaths.setPaths,
          CliPaths.setPath, hj, hne, update_of_ne hjk]
    · exact harrays.nodup
  · refine harrays.modify hk
      (f := fun p => { p.received now with pathstate := packetState p.pathstate flag sent })
      rfl rfl ?_ rfl rfl
    change ((s.csk.received k now).setPath k _).record = _
    rw [CliPaths.record_setPath, CliPaths.record_received, update_self, update_idem]
    rfl

/-- The handling of a packet leaves the loop's own variables alone. -/
theorem handlePacket_frame (s : HandleConn) (k : ℕ) (flag : Flag) (now : ℚ) (sent : Bool) :
    ∃ csk paths, handlePacket s k flag now sent = { s with csk := csk, paths := paths } ∧
      csk.substreams = s.csk.substreams := by
  simp only [handlePacket]
  split
  · exact ⟨_, _, rfl, rfl⟩
  · exact ⟨_, _, rfl, rfl⟩

/-! ## The next socket -/

theorem inv_nextSocket {c : ℕ} (hrange : s.inRange = true) (hstarted : s.started.Nodup)
    (hreads : s.reads.Nodup) (harrays : s.Arrays) (hcurr : s.currSubstream = c)
    (hc : c < s.csk.substreams) (hexamined : s.examined = s.started)
    (hphase : s.phase = .receiving)
    (haround : s.Around (if c + 1 = s.csk.substreams then 0 else c + 1)) : (nextSocket s).Inv := by
  have hnext : (if s.currSubstream + 1 = s.csk.substreams then 0 else s.currSubstream + 1) =
      ((if c + 1 = s.csk.substreams then 0 else c + 1 : ℕ) : ℤ) := by
    rw [hcurr]
    split_ifs <;> omega
  have hlt : (if c + 1 = s.csk.substreams then 0 else c + 1) < s.csk.substreams := by
    split <;> omega
  have hindex : ({ s with
      currSubstream := ((if c + 1 = s.csk.substreams then 0 else c + 1 : ℕ) : ℤ) }
      : HandleConn).IndexOk := ⟨Int.natCast_nonneg _, Int.ofNat_lt.mpr hlt⟩
  simp only [nextSocket, hnext]
  split
  next hready =>
    refine ⟨hrange, hstarted, hreads, ?_⟩
    rw [hphase]
    exact ⟨harrays.congr rfl rfl rfl rfl rfl, hindex, hexamined, hready, haround⟩
  · exact inv_afterPackets hrange hstarted hreads (harrays.congr rfl rfl rfl rfl rfl) (.inr hindex)
      hexamined

theorem use_inRange {k : ℕ} (hrange : s.inRange = true) (hk : k < s.csk.substreams) :
    (s.use k).inRange = true := by
  simp [use, hrange, hk]

/-- A socket that fails takes its path with it, and the index goes back by one. -/
theorem inv_handleFailure {c : ℕ} (hrange : s.inRange = true) (hstarted : s.started.Nodup)
    (hreads : s.reads.Nodup) (harrays : s.Arrays) (hcurr : s.currSubstream = c)
    (hc : c < s.csk.substreams) (hexamined : s.examined = s.started)
    (hfirst : c ≠ 0 ∨ s.csk.substreams = 1) :
    (handleFailure s c).afterPackets.Inv := by
  have hdrop : ((s.updatePath (s.csk.sockfd c)
      fun p => { p with pathstate := .closing }).dropSubstream c).Arrays :=
    harrays.drop hc rfl rfl (fun _ _ => rfl) rfl fun fd hne => update_of_ne hne _ _
  refine inv_afterPackets hrange hstarted hreads (hdrop.congr rfl rfl rfl rfl rfl) ?_ hexamined
  have hsubstreams : (handleFailure s c).csk.substreams = s.csk.substreams - 1 :=
    dropSubstream_substreams
  have hindex : (handleFailure s c).currSubstream = c - 1 := congrArg (· - 1) hcurr
  simp only [IndexOk, hsubstreams, hindex]
  omega

/-- One pass at index `c`, when the next one is around at the next index. -/
theorem inv_receiveBody {c : ℕ} (hrange : s.inRange = true) (hstarted : s.started.Nodup)
    (hreads : s.reads.Nodup) (harrays : s.Arrays) (hcurr : s.currSubstream = c)
    (hc : c < s.csk.substreams) (hexamined : s.examined = s.started)
    (hphase : s.phase = .receiving)
    (hnext : ∀ t : HandleConn, t.csk.substreams = s.csk.substreams → t.revents = s.revents →
      t.passes = s.passes → t.reads = s.reads →
      (t.ready = if s.revents c = .input then s.ready - 1 else s.ready) →
      t.Around (if c + 1 = s.csk.substreams then 0 else c + 1))
    {r : RecvMsg} {s' : HandleConn} (hstep : receiveBody s r = some s')
    (hfirst : r = .failed → s.revents c = .input → c ≠ 0 ∨ s.csk.substreams = 1) : s'.Inv := by
  simp only [receiveBody, hcurr, Int.toNat_natCast] at hstep
  split at hstep
  next hrevents =>
    rw [if_pos hrevents] at hnext
    cases r with
    | failed =>
        cases hstep
        exact inv_handleFailure hrange hstarted hreads harrays hcurr hc hexamined
          (hfirst rfl hrevents)
    | empty =>
        cases hstep
        exact inv_afterPackets hrange hstarted hreads harrays
          (.inr ⟨hcurr ▸ Int.natCast_nonneg c, hcurr ▸ Int.ofNat_lt.mpr hc⟩) hexamined
    | packet flag now sent n rounds =>
        dsimp only at hstep
        split at hstep
        · obtain ⟨csk, -, rfl⟩ := Option.map_eq_some_iff.mp hstep
          exact ⟨hrange, hstarted, hreads, hexamined⟩
        · cases hstep
          have hpacket := arrays_handlePacket harrays hc flag now sent
          obtain ⟨csk, paths, hframe, hsubstreams⟩ := handlePacket_frame s c flag now sent
          rw [hframe] at hpacket ⊢
          have haround := hnext { s with csk := csk, paths := paths, ready := s.ready - 1 }
            hsubstreams rfl rfl rfl rfl
          rw [← hsubstreams] at haround hc
          exact inv_nextSocket hrange hstarted hreads (hpacket.congr rfl rfl rfl rfl rfl) hcurr hc
            hexamined hphase haround
  next hrevents =>
    cases hstep
    rw [if_neg hrevents] at hnext
    exact inv_nextSocket hrange hstarted hreads harrays hcurr hc hexamined hphase
      (hnext s rfl rfl rfl rfl rfl)

theorem inv_receiveStep (h : s.Inv) (hphase : s.phase = .receiving) {r : RecvMsg} {s' : HandleConn}
    (hstep : receiveStep s r = some s')
    (hfirst : r = .failed → s.revents s.currSubstream.toNat = .input →
      s.currSubstream ≠ 0 ∨ s.csk.substreams = 1) : s'.Inv := by
  obtain ⟨harrays, ⟨hnonneg, hlt⟩, hexamined, hready, haround⟩ : s.PhaseInv .receiving :=
    hphase ▸ h.phase
  obtain ⟨c, hcurr⟩ := Int.eq_ofNat_of_zero_le hnonneg
  have hc : c < s.csk.substreams := by omega
  rw [hcurr, Int.toNat_natCast] at hfirst haround
  simp only [receiveStep, hcurr, Int.toNat_natCast] at hstep
  have hnext : ∀ t : HandleConn, t.csk.substreams = s.csk.substreams → t.revents = s.revents →
      t.passes = s.passes + 1 →
      (t.reads = if s.revents c = .input then s.reads ++ [c] else s.reads) →
      (t.ready = if s.revents c = .input then s.ready - 1 else s.ready) →
      t.Around (if c + 1 = s.csk.substreams then 0 else c + 1) :=
    fun t hn hrevents hpasses hreads hahead => haround.next hready hn hrevents hpasses hahead hreads
  have hread := (hnext { s with
    passes := s.passes + 1
    reads := if s.revents c = .input then s.reads ++ [c] else s.reads
    ready := if s.revents c = .input then s.ready - 1 else s.ready }
    rfl rfl rfl rfl rfl).reads_nodup
  refine inv_receiveBody (s := { s.use c with
      passes := s.passes + 1
      reads := if s.revents c = .input then s.reads ++ [c] else s.reads })
    ?_ h.started hread ?_ hcurr hc hexamined hphase hnext hstep fun hr hrevents => ?_
  · exact use_inRange h.inRange hc
  · exact harrays.congr rfl rfl rfl rfl rfl
  · have := hfirst hr hrevents
    change _ ∨ s.csk.substreams = 1
    omega

/-! ## Timers -/

/-- What the loop over the timers keeps from one path to the next. -/
structure Timing (s : HandleConn) (i : ℕ) : Prop where
  inRange : s.inRange = true
  started : s.started.Nodup
  reads : s.reads.Nodup
  arrays : s.Arrays
  index : s.csk.substreams = 0 ∨ s.IndexOk
  phase : s.phase = .timing i
  examined : s.examined ++ s.csk.sockets.drop i = s.started

theorem Timing.inv {i : ℕ} (h : s.Timing i) : s.Inv := by
  refine ⟨h.inRange, h.started, h.reads, ?_⟩
  rw [h.phase]
  exact ⟨h.arrays, h.index, i, rfl, h.examined⟩

/-- The timer loop gives up the last path; `t` is `s` with the timer of that path doubled. -/
theorem timing_drop {t : HandleConn} {i : ℕ} (h : s.Timing (i + 1))
    (hend : i + 1 = s.csk.substreams) (hcurr : s.currSubstream ≠ i ∨ s.csk.substreams = 1) {now : ℚ}
    (ht : t = { s.use i with
      csk := s.csk.idled i
      paths := update s.paths (s.csk.sockfd i) ((s.paths (s.csk.sockfd i)).expire now) }) :
    (t.dropSubstream i).Timing (i + 1) := by
  have hi : i < s.csk.substreams := by omega
  have hrange : t.inRange = true := ht ▸ use_inRange h.inRange hi
  have hlen : i + 1 = s.csk.sockets.length := by simpa [CliPaths.sockets] using hend
  have hsockets : (t.dropSubstream i).csk.sockets = s.csk.sockets.eraseIdx i := by
    subst ht
    exact dropSubstream_sockets hi
  have hsubstreams : (t.dropSubstream i).csk.substreams = s.csk.substreams - 1 := by
    subst ht
    exact dropSubstream_substreams
  have hexamined := h.examined
  rw [List.drop_eq_nil_of_le hlen.ge] at hexamined
  refine ⟨hrange, ?_, ?_, ?_, ?_, ?_, ?_⟩
  · subst ht
    exact h.started
  · subst ht
    exact h.reads
  · subst ht
    refine h.arrays.drop hi rfl rfl (fun j hj => ?_) rfl fun fd hfd => update_of_ne hfd _ _
    change (s.csk.idled i).record j = _
    rw [CliPaths.record_idled, update_of_ne hj]
  · have hindex := h.index
    have hsame : (t.dropSubstream i).currSubstream = s.currSubstream := ht ▸ rfl
    simp only [IndexOk, hsubstreams, hsame] at hindex ⊢
    omega
  · subst ht
    exact h.phase
  · rw [hsockets, List.drop_eq_nil_of_le]
    · subst ht
      exact hexamined
    · rw [List.length_eraseIdx]
      split <;> omega

/-- The check of a path whose timer was doubled: `t` is `s` with that done. -/
theorem timing_checkIdle {t : HandleConn} {i : ℕ} (h : s.Timing (i + 1))
    (hi : i < s.csk.substreams) {now : ℚ} (hlate : s.csk.idleTime i < now - s.csk.lastrcvt i)
    (hstate : s.csk.pathstate i ≠ .established)
    (hlast : s.GivesUp i now → i + 1 = s.csk.substreams ∧
      (s.currSubstream ≠ i ∨ s.csk.substreams = 1))
    (ht : t = { s.use i with
      csk := s.csk.idled i
      paths := update s.paths (s.csk.sockfd i) ((s.paths (s.csk.sockfd i)).expire now) }) :
    (checkIdle t i).Timing (i + 1) := by
  have hrange : t.inRange = true := ht ▸ use_inRange h.inRange hi
  have hexpire : (s.csk.record i).expire now = { (s.csk.record i).idled with
      pathstate := timerState (s.csk.pathstate i) (s.csk.idleCount i + 1) } :=
    if_pos ⟨hlate, hstate⟩
  have hcount : t.csk.idleCount i = s.csk.idleCount i + 1 := ht ▸ update_self _ _ _
  have hpath : t.csk.pathstate i = s.csk.pathstate i := ht ▸ rfl
  rw [checkIdle, hcount, hpath]
  by_cases hmax : idleMaxCount ≤ s.csk.idleCount i + 1
  · rw [if_pos hmax]
    by_cases hsyn : s.csk.pathstate i = .synAckRecv
    · rw [if_pos (.inl hsyn)]
      subst ht
      refine ⟨hrange, h.started, h.reads, ?_, h.index, h.phase, h.examined⟩
      refine h.arrays.modify hi (f := fun p => p.expire now) rfl rfl ?_ rfl rfl
      change ((s.csk.idled i).setPath i .finSent).record = _
      rw [CliPaths.record_setPath, CliPaths.record_idled, update_self, update_idem, hexpire,
        timerState, if_pos hmax, if_pos (.inl hsyn)]
    · rw [if_neg (not_or.mpr ⟨hsyn, hstate⟩)]
      obtain ⟨hend, hcurr⟩ := hlast ⟨hlate, hmax, hstate, hsyn⟩
      exact timing_drop h hend hcurr ht
  · rw [if_neg hmax]
    subst ht
    refine ⟨hrange, h.started, h.reads, ?_, h.index, h.phase, h.examined⟩
    refine h.arrays.modify hi (f := fun p => p.expire now) rfl rfl ?_ rfl rfl
    change (s.csk.idled i).record = _
    rw [CliPaths.record_idled, hexpire, timerState, if_neg hmax]
    rfl

theorem inv_timerStep (h : s.Inv) {k : ℤ} (hphase : s.phase = .timing k) (now : ℚ)
    (hlast : ∀ i : ℕ, k = i → i < s.csk.substreams → s.GivesUp i now →
      i + 1 = s.csk.substreams ∧ (s.currSubstream ≠ i ∨ s.csk.substreams = 1))
    (hstates : ∀ i : ℕ, k = i → i < s.csk.substreams →
      s.csk.idleTime i < now - s.csk.lastrcvt i → s.csk.pathstate i ≠ .finAckRecv) :
    (timerStep s k now).Inv := by
  obtain ⟨harrays, hindex, i, rfl, hexamined⟩ : s.PhaseInv (.timing k) := hphase ▸ h.phase
  rw [timerStep]
  split
  next hlt =>
    have hi : i < s.csk.substreams := Int.ofNat_lt.mp hlt
    have hnext : HandleConn.Timing { s.use i with
        examined := s.examined ++ [s.csk.sockfd i], phase := .timing (i + 1 : ℕ) } (i + 1) := by
      refine ⟨use_inRange h.inRange hi, h.started, h.reads, harrays.congr rfl rfl rfl rfl rfl,
        hindex, rfl, ?_⟩
      change s.examined ++ [s.csk.sockfd i] ++ s.csk.sockets.drop (i + 1) = s.started
      rw [← hexamined, List.append_assoc]
      congr 1
      have hlen : i < s.csk.sockets.length := by simpa [CliPaths.sockets] using hi
      rw [List.drop_eq_getElem_cons hlen]
      simp [CliPaths.sockets]
    simp only [Int.toNat_natCast]
    split
    next hlate =>
      split
      · exact hnext.inv
      next hstate => exact absurd hstate (hstates i rfl hi hlate)
      next hestablished _ =>
        exact (timing_checkIdle hnext hi hlate hestablished
          (fun hgives => hlast i rfl hi hgives) rfl).inv
    · exact hnext.inv
  next hge =>
    have hend : s.csk.sockets.length ≤ i := by simpa [CliPaths.sockets] using hge
    rw [List.drop_eq_nil_of_le hend, List.append_nil] at hexamined
    exact inv_roundEnd h.inRange h.started h.reads harrays hindex hexamined

end HandleConn

end Ctcp
