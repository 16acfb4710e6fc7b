import Ctcp.Model.Worker
import Mathlib.Data.List.Nodup

/-! # What the server keeps during a connection

Most steps leave the table of paths alone but for times and states; a path is added for a SYN
from a new address, and established by a NORMAL. -/

namespace Ctcp

open Function

/-! ## The table of paths -/

/-- No path is new or newly established, and the connection is not opened again. -/
structure SrvPaths.Kept (sk sk' : SrvPaths) : Prop where
  paths : sk'.activePaths.Sublist sk.activePaths
  addr : ∀ a, (sk'.path a).cliAddr = (sk.path a).cliAddr
  established : ∀ a, (sk'.path a).pathstate = .established →
    (sk.path a).pathstate = .established
  status : sk'.status = .active → sk.status = .active

namespace SrvPaths

variable {sk sk' sk'' : SrvPaths} {a : ℕ} {p : TimedPath}

theorem Kept.refl (sk : SrvPaths) : sk.Kept sk := ⟨.refl _, fun _ => rfl, fun _ => id, id⟩

theorem Kept.trans (h : sk.Kept sk') (h' : sk'.Kept sk'') : sk.Kept sk'' where
  paths := h'.paths.trans h.paths
  addr a := (h'.addr a).trans (h.addr a)
  established a := h.established a ∘ h'.established a
  status := h.status ∘ h'.status

theorem Kept.addresses (h : sk.Kept sk') : sk'.addresses.Sublist sk.addresses := by
  simp only [SrvPaths.addresses, h.addr]
  exact h.paths.map _

theorem kept_setPaths (which : ℕ → Bool) {state : SrvPath} (hstate : state ≠ .established) :
    sk.Kept (sk.setPaths which state) where
  paths := .refl _
  addr a := by
    simp only [setPaths]
    split <;> rfl
  established a h := by
    simp only [setPaths] at h
    split at h
    · exact absurd h hstate
    · exact h
  status := id

theorem kept_updatePath (haddr : p.cliAddr = (sk.path a).cliAddr)
    (hstate : p.pathstate = .established → (sk.path a).pathstate = .established) :
    sk.Kept (sk.updatePath a p) where
  paths := .refl _
  addr b := by
    simp only [updatePath, update_apply]
    split
    next heq => rw [haddr, heq]
    · rfl
  established b h := by
    simp only [updatePath, update_apply] at h
    split at h
    next heq => exact heq ▸ hstate h
    · exact h
  status := id

theorem kept_setPath (i : ℕ) {state : SrvPath} (hstate : state ≠ .established) :
    sk.Kept (sk.setPath i state) :=
  kept_updatePath rfl fun h => absurd h hstate

theorem kept_startFinAck (i : ℕ) : sk.Kept (startFinAck sk i).sk := by
  have hkept : sk.Kept (sk.setPath i .finRecv) := kept_setPath i (by decide)
  exact { hkept with
    status := fun h => absurd h (show SrvStatus.skClosing ≠ .active by decide) }

theorem Kept.withStatus (h : sk.Kept sk') {status : SrvStatus} {error : CtcpErr}
    (hstatus : status ≠ .active) : sk.Kept { sk' with status := status, error := error } :=
  { h with status := fun hs => absurd hs hstatus }

theorem kept_closed (sk : SrvPaths) (error : CtcpErr) :
    sk.Kept { sk.setPaths (fun _ => true) .closing with status := .closed, error := error } :=
  (kept_setPaths _ (show SrvPath.closing ≠ .established by decide)).withStatus
    (show SrvStatus.closed ≠ .active by decide)

theorem Kept.withError (h : sk.Kept sk') {error : CtcpErr} :
    sk.Kept { sk' with error := error } := { h with }

/-! ## Looking up a path -/

theorem lookupPath_some {addr : ℕ} (h : sk.activePaths[lookupPath sk addr]? = some a) :
    a ∈ sk.activePaths ∧ (sk.path a).cliAddr = addr := by
  obtain ⟨hlt, rfl⟩ := List.getElem?_eq_some_iff.mp h
  exact ⟨List.getElem_mem hlt, beq_iff_eq.mp (List.findIdx_getElem (w := hlt))⟩

theorem lookupPath_none {addr : ℕ} (h : sk.activePaths[lookupPath sk addr]? = none) :
    addr ∉ sk.addresses := by
  have hlen : sk.activePaths.length ≤ lookupPath sk addr := by simpa using h
  simp only [SrvPaths.addresses, List.mem_map, not_exists, not_and]
  intro a ha haddr
  have hlt : lookupPath sk addr < sk.activePaths.length :=
    List.findIdx_lt_length_of_exists ⟨a, ha, by simpa using haddr⟩
  omega

theorem mem_addresses (ha : a ∈ sk.activePaths) : (sk.path a).cliAddr ∈ sk.addresses :=
  List.mem_map_of_mem ha

theorem mem_mailAll {m : Mail} {flag : Flag} (h : m ∈ sk.mailAll flag) :
    m.1 ∈ sk.addresses ∧ m.2 = flag := by
  obtain ⟨x, hx, rfl⟩ := List.mem_map.mp h
  exact ⟨hx, rfl⟩

theorem addPath_addresses (ha : a ∉ sk.activePaths) :
    (sk.addPath a ha p).addresses = sk.addresses ++ [p.cliAddr] := by
  simp only [SrvPaths.addresses, addPath, List.map_append, List.map_cons, List.map_nil,
    update_self]
  congr 1
  refine List.map_congr_left fun b hb => ?_
  have hne : b ≠ a := fun h => ha (h ▸ hb)
  rw [update_of_ne hne]

end SrvPaths

/-! ## The sweep -/

/-- What a part of the sweep leaves, and what it sends. -/
structure SweepKeeps (sk : SrvPaths) (s : Sweep × List Mail) : Prop where
  kept : sk.Kept s.1.sk
  status : s.1.sk.status = sk.status
  mail : ∀ m ∈ s.2, m.1 ∈ sk.addresses ∧ m.2 = .synAck

section Sweep

variable {sk : SrvPaths} {rcvt : ℚ} {s s' : Sweep} {i : ℕ}

theorem kept_timeout (a : ℕ) :
    sk.Kept (timeout sk a).2 ∧ (timeout sk a).2.status = sk.status := by
  simp only [timeout]
  split
  · exact ⟨.refl _, rfl⟩
  · exact ⟨SrvPaths.kept_updatePath rfl id, rfl⟩

theorem sweepRound_keeps (h : sweepRound rcvt s i = some s') :
    s.sk.Kept s'.sk ∧ s'.sk.status = s.sk.status := by
  simp only [sweepRound] at h
  split at h
  · obtain ⟨a, -, rfl⟩ := Option.map_eq_some_iff.mp h
    obtain ⟨hkept, hstatus⟩ : s.sk.Kept (timeout s.sk a).2 ∧
        (timeout s.sk a).2.status = s.sk.status := kept_timeout a
    split
    · split
      · exact ⟨hkept, hstatus⟩
      · exact ⟨{ hkept with paths := (List.eraseIdx_sublist _ _).trans hkept.paths }, hstatus⟩
    · exact ⟨.refl _, rfl⟩
  · cases h
    exact ⟨.refl _, rfl⟩

theorem sweepMail_mem {m : Mail} (h : m ∈ sweepMail rcvt s i) :
    m.1 ∈ s.sk.addresses ∧ m.2 = .synAck := by
  simp only [sweepMail] at h
  split at h
  · split at h
    · cases h
    next a ha =>
      split at h
      · obtain rfl := List.mem_singleton.mp h
        refine ⟨SrvPaths.mem_addresses ?_, rfl⟩
        rw [SrvPaths.entry] at ha
        split at ha
        · exact List.mem_of_getElem? ha
        · cases ha
      · cases h
  · cases h

theorem sweepSend_keeps {l : List ℕ} {s s' : Sweep × List Mail} (hs : SweepKeeps sk s)
    (h : l.foldlM (sweepSend rcvt) s = some s') : SweepKeeps sk s' := by
  induction l generalizing s with
  | nil =>
      obtain rfl : s = s' := by simpa using h
      exact hs
  | cons i l ih =>
      obtain ⟨s₁, h₁, hrest⟩ := Option.bind_eq_some_iff.mp (by simpa using h)
      refine ih ?_ hrest
      obtain ⟨t, ht, rfl⟩ := Option.map_eq_some_iff.mp h₁
      obtain ⟨hkept, hstatus⟩ := sweepRound_keeps ht
      refine ⟨hs.kept.trans hkept, hstatus.trans hs.status, fun m hm => ?_⟩
      rcases List.mem_append.mp hm with hm | hm
      · exact hs.mail m hm
      · obtain ⟨haddr, hflag⟩ := sweepMail_mem hm
        exact ⟨hs.kept.addresses.subset haddr, hflag⟩

/-- The states of the loop are those of the loop without packets. -/
theorem sweepSend_fst (sk : SrvPaths) (pathIndex : ℤ) :
    ((List.range sk.numActive).foldlM (sweepSend rcvt)
        ({ sk := sk, pathIndex := pathIndex, timedOut := [] }, [])).map Prod.fst =
      sweep rcvt sk pathIndex := by
  have hfold (l : List ℕ) (s : Sweep × List Mail) :
      (l.foldlM (sweepSend rcvt) s).map Prod.fst = l.foldlM (sweepRound rcvt) s.1 := by
    induction l generalizing s with
    | nil => rfl
    | cons i l ih =>
        rw [List.foldlM_cons, List.foldlM_cons, sweepSend]
        cases sweepRound rcvt s.1 i with
        | none => rfl
        | some t => exact ih _
  exact hfold _ _

end Sweep

/-! ## The invariants -/

/-- The paths have distinct addresses, each with a SYN read and a SYN_ACK sent, and one that is
established was acknowledged. -/
structure TableInv (sk : SrvPaths) (heard sent : List Mail) : Prop where
  distinct : sk.addresses.Nodup
  bounded : sk.numActive ≤ maxConnect
  syn : ∀ x ∈ sk.addresses, (x, .syn) ∈ heard ∧ (x, .synAck) ∈ sent
  established : ∀ a ∈ sk.activePaths, (sk.path a).pathstate = .established →
    ((sk.path a).cliAddr, .normal) ∈ heard
  mail : ∀ m ∈ sent, (m.1, .syn) ∈ heard ∧ (m.1, .synAck) ∈ sent

/-- A FIN or a FIN_ACK of the client was read. -/
def FinHeard (heard : List Mail) : Prop := ∃ x, (x, .fin) ∈ heard ∨ (x, .finAck) ∈ heard

/-- Who has ended the connection, and what was sent for it. -/
structure EndInv (w : Worker) (heard sent : List Mail) : Prop where
  listening : w.worker = .listening → w.sk.activePaths = [] ∧ w.sk.status = .active
  active : w.sk.status ≠ .active →
    w.closer ≠ .absent ∨ FinHeard heard ∨ w.sk.activePaths = [] ∧ w.worker = .ended
  finAcking : ∀ tries flag b, w.worker = .finAcking tries flag b →
    w.sk.status ≠ .active ∧ FinHeard heard
  finning : w.closer = .joining ∨ (∃ tries success b, w.closer = .finning tries success b) →
    w.sk.status ≠ .active
  success : (∃ tries b, w.closer = .finning tries true b) ∨ w.closer = .returned true →
    FinHeard heard
  fin : ∀ x, (x, .fin) ∈ sent → w.closer ≠ .absent ∧ w.sk.status ≠ .active
  finAck : ∀ x, (x, .finAck) ∈ sent → w.sk.status ≠ .active ∧ FinHeard heard

section Table

variable {sk sk' : SrvPaths} {heard heard' sent out : List Mail}

theorem FinHeard.mono (h : FinHeard heard) (hsub : heard ⊆ heard') : FinHeard heard' := by
  obtain ⟨x, hx⟩ := h
  exact ⟨x, hx.imp (hsub ·) (hsub ·)⟩

/-- A step that adds no path, and sends to the paths there are. -/
theorem TableInv.kept (h : TableInv sk heard sent) (hk : sk.Kept sk') (hsub : heard ⊆ heard')
    (hout : ∀ m ∈ out, m.1 ∈ sk.addresses) : TableInv sk' heard' (sent ++ out) where
  distinct := h.distinct.sublist hk.addresses
  bounded := hk.paths.length_le.trans h.bounded
  syn x hx := by
    obtain ⟨hsyn, hack⟩ := h.syn x (hk.addresses.subset hx)
    exact ⟨hsub hsyn, List.mem_append_left _ hack⟩
  established a ha hstate := by
    rw [hk.addr]
    exact hsub (h.established a (hk.paths.subset ha) (hk.established a hstate))
  mail m hm := by
    rcases List.mem_append.mp hm with hm | hm
    · exact ⟨hsub (h.mail m hm).1, List.mem_append_left _ (h.mail m hm).2⟩
    · obtain ⟨hsyn, hack⟩ := h.syn _ (hout m hm)
      exact ⟨hsub hsyn, List.mem_append_left _ hack⟩

theorem TableInv.still (h : TableInv sk heard sent) (hk : sk.Kept sk') (hsub : heard ⊆ heard') :
    TableInv sk' heard' sent := by
  have hnone : ∀ m ∈ ([] : List Mail), m.1 ∈ sk.addresses := by simp
  simpa using h.kept hk hsub hnone

/-- A SYN from a new address adds a path, and a SYN_ACK is sent to it. -/
theorem TableInv.addPath (h : TableInv sk heard sent) {a addr : ℕ} {state : SrvPath} {now : ℚ}
    (ha : a ∉ sk.activePaths) (hnew : addr ∉ sk.addresses) (hlt : sk.numActive < maxConnect)
    (hstate : state ≠ .established) :
    TableInv (sk.addPath a ha (initPath addr state now)) (heard ++ [(addr, .syn)])
      (sent ++ [(addr, .synAck)]) := by
  have hsub : heard ⊆ heard ++ [(addr, Flag.syn)] := List.subset_append_left _ _
  have hself : (addr, Flag.syn) ∈ heard ++ [(addr, Flag.syn)] ∧
      (addr, Flag.synAck) ∈ sent ++ [(addr, Flag.synAck)] := by simp
  refine ⟨?_, ?_, fun x hx => ?_, fun b hb hb' => ?_, fun m hm => ?_⟩
  · rw [SrvPaths.addPath_addresses, ← List.concat_eq_append]
    exact h.distinct.concat hnew
  · rw [SrvPaths.numActive, SrvPaths.addPath, List.length_append]
    exact hlt
  · rw [SrvPaths.addPath_addresses] at hx
    rcases List.mem_append.mp hx with hx | hx
    · exact ⟨hsub (h.syn x hx).1, List.mem_append_left _ (h.syn x hx).2⟩
    · obtain rfl := List.mem_singleton.mp hx
      exact hself
  · simp only [SrvPaths.addPath, update_apply] at hb' ⊢
    split at hb'
    · exact absurd hb' hstate
    next hne =>
      rw [if_neg hne]
      have hmem : b ∈ sk.activePaths :=
        (List.mem_append.mp hb).resolve_right fun heq => hne (List.mem_singleton.mp heq)
      exact hsub (h.established b hmem hb')
  · rcases List.mem_append.mp hm with hm | hm
    · exact ⟨hsub (h.mail m hm).1, List.mem_append_left _ (h.mail m hm).2⟩
    · obtain rfl := List.mem_singleton.mp hm
      exact hself

/-- A NORMAL establishes its path. -/
theorem TableInv.establish (h : TableInv sk heard sent) {a : ℕ} {p : TimedPath}
    (haddr : p.cliAddr = (sk.path a).cliAddr)
    (hsub : heard ⊆ heard') (hnormal : (p.cliAddr, .normal) ∈ heard') :
    TableInv (sk.updatePath a p) heard' sent := by
  have hsame : (sk.updatePath a p).addresses = sk.addresses := by
    refine List.map_congr_left fun b _ => ?_
    simp only [SrvPaths.updatePath, update_apply]
    split
    next heq => rw [haddr, heq]
    · rfl
  refine ⟨hsame ▸ h.distinct, h.bounded, fun x hx => ?_, fun b hb hstate => ?_, fun m hm => ?_⟩
  · exact ⟨hsub (h.syn x (hsame ▸ hx)).1, (h.syn x (hsame ▸ hx)).2⟩
  · simp only [SrvPaths.updatePath, update_apply] at hstate ⊢
    split
    · exact hnormal
    next hne =>
      rw [if_neg hne] at hstate
      exact hsub (h.established b hb hstate)
  · exact ⟨hsub (h.mail m hm).1, (h.mail m hm).2⟩

end Table

/-! ## Rounds of `server_worker` -/

/-- A round of `server_worker` that is no FIN. It ends the connection only when no path is
left. -/
structure QuietRound (w w' : Worker) : Prop where
  closer : w'.closer = w.closer
  worker : w'.worker = .working ∨ w'.worker = .ended
  status : w'.sk.status = .active → w.sk.status = .active
  active : w'.sk.status ≠ .active →
    w.sk.status ≠ .active ∨ w'.sk.activePaths = [] ∧ w'.worker = .ended

section Round

variable {w w' : Worker} {heard heard' sent out out' : List Mail} {rcvt : ℚ}

theorem quietRound_loopTest (w : Worker) : QuietRound w w.loopTest := by
  refine ⟨rfl, ?_, id, .inl⟩
  simp only [Worker.loopTest]
  split
  · exact .inr rfl
  · exact .inl rfl

theorem quietRound_roundEnd (w : Worker) : QuietRound w w.roundEnd ∧ w.sk.Kept w.roundEnd.sk := by
  rw [Worker.roundEnd]
  split
  next hnone =>
    refine ⟨⟨rfl, .inr rfl, fun h => ?_, fun _ => .inr ⟨List.eq_nil_of_length_eq_zero hnone, rfl⟩⟩,
      (SrvPaths.Kept.refl _).withStatus (by decide)⟩
    exact absurd h (by decide : SrvStatus.closed ≠ .active)
  · exact ⟨quietRound_loopTest w, .refl _⟩

/-- The second half of a round. -/
theorem sweepPaths_spec (h : sweepPaths rcvt w out = some (w', out')) :
    QuietRound w w' ∧ w.sk.Kept w'.sk ∧
      ∀ m ∈ out', m ∈ out ∨ m.1 ∈ w.sk.addresses ∧ m.2 = .synAck := by
  rw [sweepPaths] at h
  split at h
  · cases h
    exact ⟨(quietRound_roundEnd w).1, (quietRound_roundEnd w).2, fun m hm => .inl hm⟩
  · obtain ⟨s, hs, heq⟩ := Option.map_eq_some_iff.mp h
    cases heq
    have hkeeps : SweepKeeps w.sk s := sweepSend_keeps ⟨.refl _, rfl, by simp⟩ hs
    obtain ⟨hquiet, hkept⟩ :=
      quietRound_roundEnd { w with sk := s.1.sk, pathIndex := s.1.pathIndex }
    refine ⟨⟨hquiet.closer, hquiet.worker, fun hst => ?_, fun hst => ?_⟩,
      hkeeps.kept.trans hkept, fun m hm => ?_⟩
    · exact hkeeps.status ▸ hquiet.status hst
    · exact (hquiet.active hst).imp_left fun hne => hkeeps.status ▸ hne
    · exact (List.mem_append.mp hm).imp_right (hkeeps.mail m)

theorem sweepPaths_out : sweepPaths rcvt w out =
    (sweepPaths rcvt w []).map fun r => (r.1, out ++ r.2) := by
  rw [sweepPaths, sweepPaths]
  split
  · simp
  · rw [Option.map_map]
    rfl

/-! ## The end of a connection -/

theorem EndInv.mono (h : EndInv w heard sent) (hsub : heard ⊆ heard') : EndInv w heard' sent where
  listening := h.listening
  active hst := (h.active hst).imp_right (Or.imp_left fun hf => hf.mono hsub)
  finAcking tries flag b hw := ⟨(h.finAcking tries flag b hw).1,
    (h.finAcking tries flag b hw).2.mono hsub⟩
  finning := h.finning
  success hs := (h.success hs).mono hsub
  fin := h.fin
  finAck x hx := ⟨(h.finAck x hx).1, (h.finAck x hx).2.mono hsub⟩

theorem EndInv.send (h : EndInv w heard sent)
    (hfin : ∀ m ∈ out, m.2 = .fin → w.closer ≠ .absent ∧ w.sk.status ≠ .active)
    (hfinAck : ∀ m ∈ out, m.2 = .finAck → w.sk.status ≠ .active ∧ FinHeard heard) :
    EndInv w heard (sent ++ out) :=
  { h with
    fin := fun x hx => (List.mem_append.mp hx).elim (h.fin x) fun hx => hfin _ hx rfl
    finAck := fun x hx => (List.mem_append.mp hx).elim (h.finAck x) fun hx => hfinAck _ hx rfl }

/-- A round that sends neither FIN nor FIN_ACK. -/
theorem EndInv.quiet (h : EndInv w heard sent) (hworking : w.worker = .working)
    (hq : QuietRound w w') (hsub : heard ⊆ heard')
    (hout : ∀ m ∈ out, m.2 ≠ .fin ∧ m.2 ≠ .finAck) : EndInv w' heard' (sent ++ out) := by
  have hphase (hne : w'.worker ≠ .working) : w'.worker = .ended := hq.worker.resolve_left hne
  have hw' : EndInv w' heard' sent :=
    { listening := fun hw => by
        rcases hq.worker with hw' | hw' <;> rw [hw'] at hw <;> cases hw
      active := fun hst => by
        rcases hq.active hst with hne | hnone
        · rcases h.active hne with hc | hf | ⟨-, hended⟩
          · exact .inl (hq.closer ▸ hc)
          · exact .inr (.inl (hf.mono hsub))
          · rw [hworking] at hended
            cases hended
        · exact .inr (.inr hnone)
      finAcking := fun tries flag b hw => by
        rcases hq.worker with hw' | hw' <;> rw [hw'] at hw <;> cases hw
      finning := fun hc hst => h.finning (hq.closer ▸ hc) (hq.status hst)
      success := fun hs => (h.success (hq.closer ▸ hs)).mono hsub
      fin := fun x hx =>
        ⟨hq.closer ▸ (h.fin x hx).1, fun hst => (h.fin x hx).2 (hq.status hst)⟩
      finAck := fun x hx =>
        ⟨fun hst => (h.finAck x hx).1 (hq.status hst), (h.finAck x hx).2.mono hsub⟩ }
  exact hw'.send (fun m hm hf => absurd hf (hout m hm).1) fun m hm hf => absurd hf (hout m hm).2

/-- `server_worker` is closing, since it has read a FIN or a FIN_ACK. -/
theorem EndInv.closing (h : EndInv w heard sent) (hcloser : w'.closer = w.closer)
    (hworker : w'.worker ≠ .listening) (hne : w'.sk.status ≠ .active) (hsub : heard ⊆ heard')
    (hheard : FinHeard heard') : EndInv w' heard' sent where
  listening hw := absurd hw hworker
  active _ := .inr (.inl hheard)
  finAcking _ _ _ _ := ⟨hne, hheard⟩
  finning _ := hne
  success hs := (h.success (hcloser ▸ hs)).mono hsub
  fin x hx := ⟨hcloser ▸ (h.fin x hx).1, hne⟩
  finAck _ _ := ⟨hne, hheard⟩

/-- `close_srvctcp` goes on. It closes the connection first, unless nothing is to be done. -/
theorem EndInv.closer (h : EndInv w heard sent) (hworker : w'.worker = w.worker)
    (hcloser : w'.closer ≠ .absent)
    (hclosed : w'.sk.status ≠ .active ∧ w.worker ≠ .listening ∨
      w'.sk = w.sk ∧ ∃ b, w'.closer = .returned b)
    (hsub : heard ⊆ heard')
    (hsuccess : (∃ tries b, w'.closer = .finning tries true b) ∨ w'.closer = .returned true →
      FinHeard heard') : EndInv w' heard' sent := by
  have hstays (hne : w.sk.status ≠ .active) : w'.sk.status ≠ .active := by
    rcases hclosed with ⟨hne', -⟩ | ⟨hsk, -⟩
    · exact hne'
    · rwa [hsk]
  refine ⟨fun hw => ?_, fun _ => .inl hcloser, fun tries flag b hw => ?_, fun hc => ?_, hsuccess,
    fun x hx => ⟨hcloser, hstays (h.fin x hx).2⟩,
    fun x hx => ⟨hstays (h.finAck x hx).1, (h.finAck x hx).2.mono hsub⟩⟩
  · rcases hclosed with ⟨-, hne⟩ | ⟨hsk, -⟩
    · exact absurd (hworker ▸ hw) hne
    · exact hsk ▸ h.listening (hworker ▸ hw)
  · obtain ⟨hne, hheard⟩ := h.finAcking tries flag b (hworker ▸ hw)
    exact ⟨hstays hne, hheard.mono hsub⟩
  · rcases hclosed with ⟨hne, -⟩ | ⟨-, b, hb⟩
    · exact hne
    · rw [hb] at hc
      rcases hc with hc | ⟨_, _, _, hc⟩ <;> cases hc

end Round

/-! ## Steps of both threads -/

/-- What the server keeps. -/
structure WorkerInv (w : Worker) (heard sent : List Mail) : Prop where
  table : TableInv w.sk heard sent
  ends : EndInv w heard sent

section Steps

variable {w w' : Worker} {heard heard' sent out : List Mail}

theorem workerInv_open (maxidle : ℕ) : WorkerInv (openSrvctcp maxidle) [] [] where
  table := ⟨List.nodup_nil, Nat.zero_le _, by simp [openSrvctcp, SrvPaths.addresses],
    by simp [openSrvctcp], by simp⟩
  ends := by
    constructor <;> simp [openSrvctcp]

theorem WorkerInv.listen (h : WorkerInv w heard sent) {addr memory : ℕ} {flag : Flag} {ok : Bool}
    (hphase : w.worker = .listening)
    (hstep : listenSrvctcp w addr flag memory ok = some (w', out)) :
    WorkerInv w' (heard ++ [(addr, flag)]) (sent ++ out) := by
  obtain ⟨hempty, hactive⟩ := h.ends.listening hphase
  have hends := h.ends.mono (List.subset_append_left heard [(addr, flag)])
  simp only [listenSrvctcp] at hstep
  split at hstep
  next hflag =>
    subst hflag
    split at hstep
    next hmem =>
      cases hstep
      have hnew : addr ∉ w.sk.addresses := by simp [SrvPaths.addresses, hempty]
      have hlt : w.sk.numActive < maxConnect := by
        rw [SrvPaths.numActive, hempty]
        decide
      refine ⟨h.table.addPath hmem hnew hlt (by cases ok <;> decide), ?_⟩
      refine EndInv.send (w := { w with sk := w.sk.addPath memory hmem _, worker := _ })
        ⟨fun hw => (by cases hw), fun hst => absurd hactive hst, fun _ _ _ hw => (by cases hw),
          hends.finning, hends.success, hends.fin, hends.finAck⟩ ?_ ?_
      all_goals simp
    · cases hstep
  · cases hstep
    rw [List.append_nil]
    have htable := h.table.still (.refl _) (List.subset_append_left heard [(addr, flag)])
    exact ⟨htable, fun hw => (by cases hw), fun hst => absurd hactive hst,
      fun _ _ _ hw => (by cases hw), hends.finning, hends.success, hends.fin, hends.finAck⟩

/-- A packet from a known path changes its table entry, or establishes it. -/
theorem TableInv.known {sk : SrvPaths} (h : TableInv sk heard sent) {a : ℕ}
    (ha : a ∈ sk.activePaths) (flag : Flag) (o : PacketContext) :
    TableInv (knownPath sk a flag o).1 (heard ++ [((sk.path a).cliAddr, flag)])
        (sent ++ (knownPath sk a flag o).2) ∧
      (knownPath sk a flag o).1.status = sk.status ∧
        ∀ m ∈ (knownPath sk a flag o).2, m.2 = .synAck := by
  have hsub := List.subset_append_left heard [((sk.path a).cliAddr, flag)]
  simp only [knownPath]
  split
  · rw [List.append_nil]
    exact ⟨h.establish rfl hsub (by simp), rfl, by simp⟩
  · exact ⟨h.kept (SrvPaths.kept_updatePath rfl id) hsub (by simp), rfl, by simp⟩
  · refine ⟨h.kept (SrvPaths.kept_updatePath rfl id) hsub ?_, rfl, by simp⟩
    intro m hm
    obtain rfl := List.mem_singleton.mp hm
    exact SrvPaths.mem_addresses ha
  · exact ⟨h.kept (SrvPaths.kept_updatePath rfl id) hsub (by simp), rfl, by simp⟩

theorem WorkerInv.send (h : WorkerInv w heard sent) (hmail : ∀ m ∈ out, m.1 ∈ w.sk.addresses)
    (hfin : ∀ m ∈ out, m.2 = .fin → w.closer ≠ .absent ∧ w.sk.status ≠ .active)
    (hfinAck : ∀ m ∈ out, m.2 = .finAck → w.sk.status ≠ .active ∧ FinHeard heard) :
    WorkerInv w heard (sent ++ out) :=
  ⟨h.table.kept (.refl _) (List.Subset.refl _) hmail, h.ends.send hfin hfinAck⟩

theorem WorkerInv.closing (h : WorkerInv w heard sent) (hkept : w.sk.Kept w'.sk)
    (hcloser : w'.closer = w.closer) (hworker : w'.worker ≠ .listening)
    (hne : w'.sk.status ≠ .active) (hsub : heard ⊆ heard') (hheard : FinHeard heard') :
    WorkerInv w' heard' sent :=
  ⟨h.table.still hkept hsub, h.ends.closing hcloser hworker hne hsub hheard⟩

theorem WorkerInv.hear (h : WorkerInv w heard sent)
    (hsub : heard ⊆ heard') : WorkerInv w heard' sent := by
  exact ⟨h.table.still (.refl _) hsub, h.ends.mono hsub⟩

theorem WorkerInv.atIndex (h : WorkerInv w heard sent) (k : ℤ) :
    WorkerInv { w with pathIndex := k } heard sent := ⟨h.table, { h.ends with }⟩

theorem WorkerInv.sweep (h : WorkerInv w heard sent) {rcvt : ℚ} (hphase : w.worker = .working)
    (hstep : sweepPaths rcvt w [] = some (w', out)) : WorkerInv w' heard (sent ++ out) := by
  obtain ⟨hquiet, hkept, hmail⟩ := sweepPaths_spec hstep
  have hmail' (m : Mail) (hm : m ∈ out) := (hmail m hm).resolve_left (by simp)
  refine ⟨h.table.kept hkept (List.Subset.refl _) fun m hm => (hmail' m hm).1,
    h.ends.quiet hphase hquiet (List.Subset.refl _) fun m hm => ?_⟩
  rw [(hmail' m hm).2]
  decide

theorem WorkerInv.packet (h : WorkerInv w heard sent) {addr : ℕ} {flag : Flag} {o : PacketContext}
    (hphase : w.worker = .working) (hstep : receivePacket w addr flag o = some (w', out)) :
    WorkerInv w' (heard ++ [(addr, flag)]) (sent ++ out) := by
  have hsub := List.subset_append_left heard [(addr, flag)]
  simp only [receivePacket] at hstep
  split at hstep
  next a ha =>
    obtain ⟨hmem, haddr⟩ := SrvPaths.lookupPath_some ha
    split at hstep
    next hfin =>
      -- A FIN: the path goes to `FIN_RECV`, and the loop for FIN_ACK begins.
      obtain ⟨rfl, -⟩ := hfin
      cases hstep
      have hheard : FinHeard (heard ++ [(addr, Flag.fin)]) := ⟨addr, by simp⟩
      have hkept := (SrvPaths.kept_updatePath (a := a)
        (p := { w.sk.path a with lastAckTime := o.rcvt }) rfl id).trans
          (SrvPaths.kept_startFinAck (lookupPath w.sk addr))
      refine ⟨h.table.kept hkept hsub (by simp), ?_⟩
      rw [List.append_nil]
      exact h.ends.closing rfl (fun hw => (by cases hw))
        (show SrvStatus.skClosing ≠ .active by decide) hsub hheard
    · obtain ⟨htable, hstatus, hflag⟩ := h.table.known hmem flag o
      rw [haddr] at htable
      rw [sweepPaths_out] at hstep
      obtain ⟨r, hr, heq⟩ := Option.map_eq_some_iff.mp hstep
      cases heq
      have hknown : WorkerInv { w with
          pathIndex := lookupPath w.sk addr, sk := (knownPath w.sk a flag o).1 }
          (heard ++ [(addr, flag)]) (sent ++ (knownPath w.sk a flag o).2) := by
        refine ⟨htable, h.ends.quiet hphase ⟨rfl, .inl hphase, fun hst => hstatus ▸ hst,
          fun hst => .inl (hstatus ▸ hst)⟩ hsub fun m hm => ?_⟩
        rw [hflag m hm]
        decide
      have hswept := hknown.sweep hphase hr
      rwa [List.append_assoc] at hswept
  next hnone =>
    have hnew := SrvPaths.lookupPath_none hnone
    split at hstep
    next hsyn =>
      obtain ⟨rfl, hlt⟩ := hsyn
      split at hstep
      next hmem =>
        cases hstep
        have hquiet := quietRound_loopTest { w with
          sk := w.sk.addPath o.memory hmem (initPath addr .synAckSent o.now) }
        refine ⟨h.table.addPath hmem hnew hlt (by decide), ?_⟩
        exact h.ends.quiet hphase ⟨hquiet.closer, hquiet.worker, hquiet.status, hquiet.active⟩ hsub
          (by simp)
      · cases hstep
    · exact ((h.hear hsub).atIndex (lookupPath w.sk addr)).sweep hphase hstep

/-! ## The loops that repeat a control packet -/

theorem finAckSend_kept (s : FinAckLoop) :
    s.sk.Kept (finAckSend s).sk ∧ (finAckSend s).sk.status = s.sk.status := by
  simp only [finAckSend]
  split
  · exact ⟨SrvPaths.kept_setPaths _ (by decide), rfl⟩
  · exact ⟨.refl _, rfl⟩

theorem finAckRead_kept (s : FinAckLoop) (read : TimedRead) : s.sk.Kept (finAckRead s read).sk := by
  have hsame : s.sk.Kept { s.sk with error := .closeErr } := (SrvPaths.Kept.refl _).withError
  cases read with
  | failed => exact .refl _
  | timedOut => exact hsame
  | ready received =>
      cases received with
      | failed => exact hsame
      | empty => exact hsame
      | packet flag =>
          cases flag with
          | finAck => exact SrvPaths.kept_closed _ _
          | _ => exact .refl _

theorem WorkerInv.finAckSend (h : WorkerInv w heard sent) {tries : ℕ} {flag : Flag}
    (hphase : w.worker = .finAcking tries flag false) :
    WorkerInv { w with
        sk := (Ctcp.finAckSend ⟨w.sk, tries, flag⟩).sk, worker := .finAcking tries flag true }
      heard (sent ++ if flag = .fin then w.sk.mailAll .finAck else []) := by
  obtain ⟨hne, hheard⟩ := h.ends.finAcking _ _ _ hphase
  obtain ⟨hkept, hstatus⟩ := finAckSend_kept ⟨w.sk, tries, flag⟩
  have hsent : WorkerInv w heard (sent ++ if flag = .fin then w.sk.mailAll .finAck else []) := by
    split
    · refine h.send (fun m hm => (SrvPaths.mem_mailAll hm).1) (fun m hm hf => ?_)
        fun _ _ _ => ⟨hne, hheard⟩
      rw [(SrvPaths.mem_mailAll hm).2] at hf
      cases hf
    · rwa [List.append_nil]
  exact hsent.closing hkept rfl (fun hw => (by cases hw)) (fun hst => hne (hstatus ▸ hst))
    (List.Subset.refl _) hheard

theorem WorkerInv.finAckRead (h : WorkerInv w heard sent) {tries : ℕ} {flag : Flag}
    (hphase : w.worker = .finAcking tries flag true) (read : TimedRead)
    (hsub : heard ⊆ heard') :
    WorkerInv (finAckTest w (Ctcp.finAckRead ⟨w.sk, tries, flag⟩ read)) heard' sent := by
  obtain ⟨hne, hheard⟩ := h.ends.finAcking _ _ _ hphase
  have hkept := finAckRead_kept ⟨w.sk, tries, flag⟩ read
  rw [finAckTest]
  split
  · exact h.closing hkept rfl (fun hw => (by cases hw)) (fun hst => hne (hkept.status hst)) hsub
      (hheard.mono hsub)
  · exact h.closing (hkept.trans (SrvPaths.kept_closed _ _)) rfl (fun hw => (by cases hw))
      (show SrvStatus.closed ≠ .active by decide) hsub (hheard.mono hsub)

/-! ## `close_srvctcp` -/

/-- A thread that has closed the connection finds it open no more, and no SYN outstanding. -/
theorem EndInv.not_listening (h : EndInv w heard sent) (hne : w.sk.status ≠ .active) :
    w.worker ≠ .listening := fun hw => hne (h.listening hw).2

theorem WorkerInv.close (h : WorkerInv w heard sent) (hpaths : w.sk.numActive ≠ 0) :
    WorkerInv { w with sk := { w.sk with status := .closed }, closer := .joining } heard sent := by
  have hne : SrvStatus.closed ≠ .active := by decide
  have hlistening : w.worker ≠ .listening := fun hw => by
    rw [SrvPaths.numActive, (h.ends.listening hw).1] at hpaths
    exact hpaths rfl
  have hkept : w.sk.Kept { w.sk with status := .closed } := (SrvPaths.Kept.refl _).withStatus hne
  refine ⟨h.table.still hkept (List.Subset.refl _), h.ends.closer rfl (fun hc => by cases hc)
    (.inl ⟨hne, hlistening⟩) (List.Subset.refl _) fun hs => ?_⟩
  rcases hs with ⟨_, _, hs⟩ | hs <;> cases hs

theorem WorkerInv.joined (h : WorkerInv w heard sent) (hphase : w.closer = .joining)
    (hstep : joinWorker w = some w') : WorkerInv w' heard sent := by
  have hne := h.ends.finning (.inl hphase)
  rw [joinWorker] at hstep
  split at hstep
  · cases hstep
  · split at hstep
    all_goals
      cases hstep
      refine ⟨h.table, h.ends.closer rfl (fun hc => by cases hc)
        (.inl ⟨hne, h.ends.not_listening hne⟩) (List.Subset.refl _) fun hs => ?_⟩
      rcases hs with ⟨_, _, hs⟩ | hs <;> cases hs

theorem WorkerInv.closeSend (h : WorkerInv w heard sent) {tries : ℕ} {success : Bool}
    (hphase : w.closer = .finning tries success false) :
    WorkerInv { w with
        sk := (closeSrvSend ⟨w.sk, tries, success⟩).sk, closer := .finning tries success true }
      heard (sent ++ w.sk.mailAll .fin) := by
  have hne := h.ends.finning (.inr ⟨_, _, _, hphase⟩)
  have hsent : WorkerInv w heard (sent ++ w.sk.mailAll .fin) := by
    refine h.send (fun m hm => (SrvPaths.mem_mailAll hm).1)
      (fun _ _ _ => ⟨hphase ▸ CloserPhase.noConfusion, hne⟩) fun m hm hf => ?_
    rw [(SrvPaths.mem_mailAll hm).2] at hf
    cases hf
  have hkept : w.sk.Kept (w.sk.setPaths (fun _ => true) .finSent) :=
    SrvPaths.kept_setPaths _ (by decide)
  refine ⟨hsent.table.still hkept (List.Subset.refl _), hsent.ends.closer rfl
    (fun hc => by cases hc) (.inl ⟨hne, h.ends.not_listening hne⟩) (List.Subset.refl _)
    fun hs => h.ends.success (.inl ?_)⟩
  rcases hs with ⟨_, _, hs⟩ | hs
  · cases hs
    exact ⟨_, _, hphase⟩
  · cases hs

/-- Only a FIN or a FIN_ACK makes the loop of `close_srvctcp` succeed. -/
theorem closeSrvRead_spec (s : CloseSrv) (sent : ℕ → Bool) (read : TimedRead) (addr : ℕ) :
    s.sk.Kept (closeSrvRead s sent read).sk ∧ (closeSrvRead s sent read).sk.status = s.sk.status ∧
      ((closeSrvRead s sent read).success = true →
        s.success = true ∨ FinHeard (read.mail addr).toList) := by
  have hsame (e : CtcpErr) : s.sk.Kept { s.sk with error := e } :=
    (SrvPaths.Kept.refl _).withError
  have hclosing : s.sk.Kept (s.sk.setPaths (fun _ => true) .closing) :=
    SrvPaths.kept_setPaths _ (by decide)
  have hacked : s.sk.Kept (s.sk.setPaths sent .finAckSent) := SrvPaths.kept_setPaths _ (by decide)
  have hfin (flag : Flag) (hflag : flag = .fin ∨ flag = .finAck) :
      FinHeard (TimedRead.mail addr (.ready (.packet flag))).toList := by
    refine ⟨addr, ?_⟩
    rcases hflag with rfl | rfl <;> simp [TimedRead.mail]
  cases read with
  | failed => exact ⟨hsame _, rfl, .inl⟩
  | timedOut => exact ⟨hsame _, rfl, .inl⟩
  | ready received =>
      cases received with
      | failed => exact ⟨hsame _, rfl, .inl⟩
      | empty => exact ⟨hsame _, rfl, .inl⟩
      | packet flag =>
          cases flag with
          | fin =>
              simp only [closeSrvRead]
              split
              · exact ⟨hacked.withError, rfl, .inl⟩
              · split
                · exact ⟨hclosing.withError, rfl, fun _ => .inr (hfin _ (.inl rfl))⟩
                · exact ⟨hsame _, rfl, .inl⟩
          | finAck => exact ⟨hclosing.withError, rfl, fun _ => .inr (hfin _ (.inr rfl))⟩
          | _ => exact ⟨hsame _, rfl, .inl⟩

theorem closeSrvMail_mem {sk : SrvPaths} {read : TimedRead} {m : Mail}
    (h : m ∈ closeSrvMail sk read) (addr : ℕ) :
    m.1 ∈ sk.addresses ∧ m.2 = .finAck ∧ FinHeard (read.mail addr).toList := by
  simp only [closeSrvMail] at h
  split at h
  · split at h
    · exact ⟨(SrvPaths.mem_mailAll h).1, (SrvPaths.mem_mailAll h).2, addr, by simp [TimedRead.mail]⟩
    · cases h
  · split at h
    · exact ⟨(SrvPaths.mem_mailAll h).1, (SrvPaths.mem_mailAll h).2, addr, by simp [TimedRead.mail]⟩
    · cases h
  · cases h

theorem WorkerInv.closeRead (h : WorkerInv w heard sent) {tries : ℕ} {success : Bool}
    (hphase : w.closer = .finning tries success true) (addr : ℕ) (read : TimedRead)
    (ok : ℕ → Bool) :
    WorkerInv (closeSrvTest w (closeSrvRead ⟨w.sk, tries, success⟩ ok read))
      (heard ++ (read.mail addr).toList) (sent ++ closeSrvMail w.sk read) := by
  have hsub := List.subset_append_left heard (read.mail addr).toList
  have hright := List.subset_append_right heard (read.mail addr).toList
  have hne := h.ends.finning (.inr ⟨_, _, _, hphase⟩)
  have hsent : WorkerInv w (heard ++ (read.mail addr).toList)
      (sent ++ closeSrvMail w.sk read) := by
    refine (h.hear hsub).send (fun m hm => (closeSrvMail_mem hm addr).1) (fun m hm hf => ?_)
      fun m hm _ => ⟨hne, (closeSrvMail_mem hm addr).2.2.mono hright⟩
    rw [(closeSrvMail_mem hm addr).2.1] at hf
    cases hf
  obtain ⟨hkept, hstatus, hsuccess⟩ := closeSrvRead_spec ⟨w.sk, tries, success⟩ ok read addr
  have hheard (hs : (closeSrvRead ⟨w.sk, tries, success⟩ ok read).success = true) :
      FinHeard (heard ++ (read.mail addr).toList) := by
    rcases hsuccess hs with hs | hf
    · obtain rfl : success = true := hs
      exact (h.ends.success (.inl ⟨_, _, hphase⟩)).mono hsub
    · exact hf.mono hright
  refine ⟨hsent.table.still hkept (List.Subset.refl _), hsent.ends.closer rfl ?_
    (.inl ⟨hstatus ▸ hne, h.ends.not_listening hne⟩) (List.Subset.refl _) fun hs => ?_⟩
  · simp only [closeSrvTest]
    split <;> exact fun hc => by cases hc
  · simp only [closeSrvTest] at hs
    split at hs
    · rcases hs with ⟨_, _, hs⟩ | hs
      · exact hheard (CloserPhase.finning.inj hs).2.1
      · cases hs
    · rcases hs with ⟨_, _, hs⟩ | hs
      · cases hs
      · exact hheard (CloserPhase.returned.inj hs)

/-! ## One step -/

theorem of_ite_some {α : Type*} {c : Prop} [Decidable c] {x : Option α} {a : α}
    (h : (if c then x else none) = some a) : c ∧ x = some a := by
  split at h
  next hc => exact ⟨hc, h⟩
  · cases h

theorem WorkerInv.step (h : WorkerInv w heard sent) {e : ServerEvent}
    (hstep : workerStep w e = some (w', out)) :
    WorkerInv w' (heard ++ e.reads.toList) (sent ++ out) := by
  cases e with
  | listen mail memory ok =>
      obtain ⟨hphase, hstep⟩ := of_ite_some hstep
      exact h.listen hphase hstep
  | packet mail o =>
      obtain ⟨hphase, hstep⟩ := of_ite_some hstep
      exact h.packet hphase hstep
  | noPacket =>
      obtain ⟨hphase, hstep⟩ := of_ite_some hstep
      cases hstep
      have hkept : w.sk.Kept w.loopTest.sk := .refl _
      exact ⟨h.table.kept hkept (List.subset_append_left _ _) (by simp),
        h.ends.quiet hphase (quietRound_loopTest w) (List.subset_append_left _ _) (by simp)⟩
  | timer rcvt =>
      obtain ⟨hphase, hstep⟩ := of_ite_some hstep
      simp only [ServerEvent.reads, Option.toList_none, List.append_nil]
      exact h.sweep hphase hstep
  | segs k coded =>
      obtain ⟨⟨hphase, -⟩, hstep⟩ := of_ite_some hstep
      obtain ⟨a, ha, heq⟩ := Option.map_eq_some_iff.mp hstep
      cases heq
      simp only [ServerEvent.reads, Option.toList_none, List.append_nil]
      have hmem := List.mem_of_getElem? ha
      refine h.send (fun m hm => ?_) (fun m hm hf => ?_) fun m hm hf => ?_
      all_goals obtain rfl := List.mem_singleton.mp hm
      · exact SrvPaths.mem_addresses hmem
      · cases coded <;> cases hf
      · cases coded <;> cases hf
  | finAckSend =>
      simp only [workerStep] at hstep
      split at hstep
      next hphase =>
        cases hstep
        simp only [ServerEvent.reads, Option.toList_none, List.append_nil]
        exact h.finAckSend hphase
      · cases hstep
  | finAckRead addr read =>
      simp only [workerStep] at hstep
      split at hstep
      next hphase =>
        cases hstep
        rw [List.append_nil]
        exact h.finAckRead hphase read (List.subset_append_left _ _)
      · cases hstep
  | close =>
      simp only [ServerEvent.reads, Option.toList_none, List.append_nil]
      obtain ⟨hphase, hstep⟩ := of_ite_some hstep
      split at hstep
      · cases hstep
        rw [List.append_nil]
        refine ⟨h.table, h.ends.closer rfl (fun hc => by cases hc) (.inr ⟨rfl, _, rfl⟩)
          (List.Subset.refl _) fun hs => ?_⟩
        rcases hs with ⟨_, _, hs⟩ | hs <;> cases hs
      next hpaths =>
        cases hstep
        rw [List.append_nil]
        exact h.close hpaths
  | joined =>
      obtain ⟨hphase, hstep⟩ := of_ite_some hstep
      obtain ⟨w₁, hw₁, heq⟩ := Option.map_eq_some_iff.mp hstep
      cases heq
      simp only [ServerEvent.reads, Option.toList_none, List.append_nil]
      exact h.joined hphase hw₁
  | closeSend =>
      simp only [workerStep] at hstep
      split at hstep
      next hphase =>
        cases hstep
        simp only [ServerEvent.reads, Option.toList_none, List.append_nil]
        exact h.closeSend hphase
      · cases hstep
  | closeRead addr read ok =>
      simp only [workerStep] at hstep
      split at hstep
      next hphase =>
        cases hstep
        exact h.closeRead hphase addr read ok
      · cases hstep

theorem workerInv_of_reachable {s : Posted Worker Mail Mail}
    (h : serverParty.alone.Reachable s) : WorkerInv s.state s.heard s.sent := by
  refine Party.invariant ?_ (fun _ _ _ e _ _ hI hstep => hI.step hstep) h
  rintro _ ⟨maxidle, rfl⟩
  exact workerInv_open maxidle

end Steps

end Ctcp
