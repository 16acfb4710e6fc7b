import Ctcp.Verification.Connection.Caller

/-! # The client and the server of a connection agree

Both ends run over a network that loses, repeats and reorders packets. What one end has
done is read off what the other one has sent. -/

namespace Ctcp

variable {c : Posted Caller Mail Mail} {w : Posted Worker Mail Mail} {memory : ℕ → CliPath}

/-! ## The handshake -/

/-- The paths of the server have distinct addresses, each of which has sent a SYN. A path is
answered with a SYN_ACK before anything else; it counts as established at the client once the
server has answered, and at the server once the client has acknowledged the answer. -/
structure HandshakeOk (c : Posted Caller Mail Mail) (w : Posted Worker Mail Mail) : Prop where
  distinct : w.state.sk.addresses.Nodup
  bounded : w.state.sk.numActive ≤ maxConnect
  syn : ∀ x ∈ w.state.sk.addresses, (x, .syn) ∈ c.sent
  answered : ∀ x f, (x, f) ∈ w.sent → (x, .synAck) ∈ w.sent ∧ (x, .syn) ∈ c.sent
  acknowledged : ∀ x, (x, .normal) ∈ c.sent → (x, .synAck) ∈ w.sent
  client : ∀ k < c.state.phase.csk.substreams, (c.state.phase.csk.pathstate k).Open →
    (c.state.phase.csk.sockfd k, .synAck) ∈ w.sent
  server : ∀ a ∈ w.state.sk.activePaths, (w.state.sk.path a).pathstate = .established →
    ((w.state.sk.path a).cliAddr, .normal) ∈ c.sent

/-- Whenever either end takes a path for established, its three packets were sent in order, if
no state in the memory of the client's socket looks like it. -/
theorem handshakeOk_of_reachable (hmem : ∀ k, (memory k).Plain)
    (h : (connection memory).Reachable (c, w)) : HandshakeOk c w := by
  obtain ⟨hcaller, hworker⟩ := Party.link_invariant (fun _ => callerInv_of_reachable hmem)
    (fun _ => workerInv_of_reachable) h
  obtain ⟨hdown, hup⟩ := Party.heard_of_link h
  have hanswered (x : ℕ) (f : Flag) (hx : (x, f) ∈ w.sent) :
      (x, .synAck) ∈ w.sent ∧ (x, .syn) ∈ c.sent :=
    ⟨(hworker.table.mail _ hx).2, hup (hworker.table.mail _ hx).1⟩
  refine ⟨hworker.table.distinct, hworker.table.bounded, fun x hx => ?_, hanswered,
    fun x hx => ?_, fun k hk hopen => ?_, fun a ha hstate => ?_⟩
  · exact hup (hworker.table.syn x hx).1
  · obtain ⟨f, hf⟩ := hcaller.normal x hx
    exact (hanswered x f (hdown hf)).1
  · obtain ⟨f, hf⟩ := hcaller.reached k hk hopen
    exact (hanswered _ f (hdown hf)).1
  · exact hup (hworker.table.established a ha hstate)

namespace OneSubstream

def csk : CliPaths :=
  ⟨1, fun _ => 7, fun _ => .synSent, fun _ => 0, fun _ => initIdleTime, fun _ => 0, .active, .none⟩

def start : Posted Caller Mail Mail × Posted Worker Mail Mail :=
  (⟨⟨.connecting (startSyn csk) false, none⟩, [], []⟩, ⟨openSrvctcp 10, [], []⟩)

/-- The state of the substream is SYN_SENT in memory. -/
def states : ℕ → CliPath := fun _ => .synSent

theorem plain_states (k : ℕ) : (states k).Plain := .inl rfl

theorem reachable_start : (connection states).Reachable start :=
  .init ⟨⟨⟨csk, by decide, by decide, rfl, rfl, rfl, rfl⟩, rfl, rfl⟩, ⟨10, rfl⟩, rfl, rfl⟩

/-- The client reads a packet in a loop around `poll_flag`. -/
def gets (flag : Flag) : CallerEvent ⊕ ServerEvent :=
  .inl (.poll (.ready (fun _ => true) (.packet flag)) (fun _ => true) 0)

/-- SYN, SYN_ACK and NORMAL. -/
def handshake : List (CallerEvent ⊕ ServerEvent) :=
  [.inl (.resend (fun _ => true) 0), .inr (.listen (7, .syn) 1 true), gets .synAck,
    .inr (.packet (7, .normal) ⟨0, 2, 0, 1, false⟩)]

/-- The client closes the connection. -/
def teardown : List (CallerEvent ⊕ ServerEvent) :=
  [.inl .close, .inl (.handle (.poll (.failed true))), .inl .joined,
    .inl (.resend (fun _ => true) 0), .inr (.packet (7, .fin) ⟨0, 2, 0, 1, false⟩),
    .inr .finAckSend, gets .finAck, .inr (.finAckRead 7 (.ready (.packet .finAck)))]

def next : Posted Caller Mail Mail × Posted Worker Mail Mail → CallerEvent ⊕ ServerEvent →
    Option (Posted Caller Mail Mail × Posted Worker Mail Mail) :=
  Party.linkNext (clientParty states) serverParty

/-- The states of the first substream and of the server's paths. -/
def view (s : Posted Caller Mail Mail × Posted Worker Mail Mail) : CliPath × List SrvPath :=
  (s.1.state.phase.csk.pathstate 0,
    s.2.state.sk.activePaths.map fun a => (s.2.state.sk.path a).pathstate)

/-- How `close_clictcp` has ended, and the status of the server. -/
def outcome (s : Posted Caller Mail Mail × Posted Worker Mail Mail) :
    Option CtcpErr × Option SockStatus × SrvStatus :=
  (match s.1.state.phase with
    | .closed csk => some csk.error
    | _ => none,
   s.1.state.found, s.2.state.sk.status)

end OneSubstream

theorem handshakeOk_oneSubstream : ∃ c w, HandshakeOk c w ∧
    OneSubstream.view (c, w) = (.established, [.established]) := by
  have hplay : (OneSubstream.handshake.foldlM OneSubstream.next OneSubstream.start).map
      OneSubstream.view = some (.established, [.established]) := by
    decide +kernel
  obtain ⟨s, hs, hview⟩ := Option.map_eq_some_iff.mp hplay
  exact ⟨s.1, s.2, handshakeOk_of_reachable OneSubstream.plain_states
    (Party.link_play OneSubstream.reachable_start hs), hview⟩

/-! ## The end -/

/-- When one end takes the connection for over, the other end has closed it too, or the first
one has lost its paths or was closed by its user. -/
structure TeardownOk (c : Posted Caller Mail Mail) (w : Posted Worker Mail Mail) : Prop where
  /-- `handle_connection` ends the connection, or is about to. -/
  client : c.state.phase.Over → c.state.found ≠ none ∨ c.state.phase.csk.substreams = 0 ∨
    w.state.sk.status ≠ .active
  server : w.state.sk.status ≠ .active → w.state.closer ≠ .absent ∨
    (∃ x, (x, .fin) ∈ c.sent) ∨ w.state.sk.activePaths = []
  /-- `close_clictcp` reports no error. -/
  clientDone : ∀ csk, c.state.phase = .closed csk → c.state.found = some .active →
    csk.error ≠ .closeErr → w.state.sk.status ≠ .active
  /-- `close_srvctcp` has succeeded. -/
  serverDone : w.state.closer = .returned true →
    (∃ x, (x, .fin) ∈ c.sent) ∨ c.state.phase.Over

theorem exists_flag {l : List Mail} {f : Flag} : (∃ m ∈ l, m.2 = f) ↔ ∃ x, (x, f) ∈ l :=
  ⟨fun ⟨⟨x, _⟩, hm, hf⟩ => ⟨x, hf ▸ hm⟩, fun ⟨x, hx⟩ => ⟨(x, f), hx, rfl⟩⟩

theorem FinHeard.exists_mem {heard : List Mail} (h : FinHeard heard) :
    ∃ m ∈ heard, m.2 = .finAck ∨ m.2 = .fin := by
  obtain ⟨x, hx | hx⟩ := h
  · exact ⟨_, hx, .inr rfl⟩
  · exact ⟨_, hx, .inl rfl⟩

/-- A FIN_ACK does not come from nothing: some end has sent a FIN. -/
theorem fin_of_finAck (hmem : ∀ k, (memory k).Plain) (h : (connection memory).Reachable (c, w))
    (hs : (∃ x, (x, .finAck) ∈ c.sent) ∨ ∃ x, (x, .finAck) ∈ w.sent) :
    (∃ x, (x, .fin) ∈ c.sent) ∨ ∃ x, (x, .fin) ∈ w.sent := by
  simp only [← exists_flag] at hs ⊢
  refine Party.link_cause (fun s hs hA => ?_) (fun s hs hA => ?_) h hs
  · obtain ⟨x, hx⟩ := exists_flag.mp hA
    exact ((callerInv_of_reachable hmem hs).finAck x hx).1.exists_mem
  · obtain ⟨x, hx⟩ := exists_flag.mp hA
    exact ((workerInv_of_reachable hs).ends.finAck x hx).2.exists_mem

/-- Neither end takes the connection for over by mistake, if no state in the memory of the
client's socket is one that a FIN or an answer of the server leads to. -/
theorem teardownOk_of_reachable (hmem : ∀ k, (memory k).Plain)
    (h : (connection memory).Reachable (c, w)) : TeardownOk c w := by
  obtain ⟨hcaller, hworker⟩ := Party.link_invariant (fun _ => callerInv_of_reachable hmem)
    (fun _ => workerInv_of_reachable) h
  obtain ⟨hdown, hup⟩ := Party.heard_of_link h
  have hclosed (hf : FinHeard c.heard) : w.state.sk.status ≠ .active := by
    obtain ⟨x, hx | hx⟩ := hf
    · exact (hworker.ends.fin x (hdown hx)).2
    · exact (hworker.ends.finAck x (hdown hx)).1
  have hcause (hf : FinHeard w.heard) : w.state.closer ≠ .absent ∨ ∃ x, (x, .fin) ∈ c.sent := by
    obtain ⟨x, hx | hx⟩ := hf
    · exact .inr ⟨x, hup hx⟩
    · rcases fin_of_finAck hmem h (.inl ⟨x, hup hx⟩) with hfin | ⟨y, hy⟩
      · exact .inr hfin
      · exact .inl (hworker.ends.fin y hy).1
  refine ⟨fun hover => ?_, fun hne => ?_, fun csk hphase hfound herror => ?_, fun hdone => ?_⟩
  · by_cases hc : c.state.phase.csk.status = .closed
    · exact (hcaller.closed hc).imp_right (Or.imp_right hclosed)
    · -- The only phase that is over with an open socket is the answer to a FIN.
      have hphase := hcaller.phase
      rw [CallerPhaseInv] at hphase
      cases hp : c.state.phase with
      | finning l b =>
          rw [hp] at hphase
          exact .inr (.inr (hclosed hphase))
      | connecting | handling | ended | closing | closed =>
          rw [hp] at hover hc
          exact absurd hover hc
  · rcases hworker.ends.active hne with hcloser | hf | ⟨hnone, -⟩
    · exact .inl hcloser
    · exact (hcause hf).imp_right .inl
    · exact .inr (.inr hnone)
  · have hphase' := hcaller.phase
    rw [CallerPhaseInv, hphase] at hphase'
    obtain ⟨x, hx⟩ := (hphase' hfound).resolve_left herror
    exact hclosed ⟨x, .inr hx⟩
  · obtain ⟨x, hx | hx⟩ := hworker.ends.success (.inr hdone)
    · exact .inl ⟨x, hup hx⟩
    · exact .inr (hcaller.finAck x (hup hx)).2

theorem teardownOk_oneSubstream : ∃ c w, TeardownOk c w ∧
    OneSubstream.outcome (c, w) = (some .none, some .active, .closed) := by
  have hplay : ((OneSubstream.handshake ++ OneSubstream.teardown).foldlM OneSubstream.next
      OneSubstream.start).map OneSubstream.outcome = some (some .none, some .active, .closed) := by
    decide +kernel
  obtain ⟨s, hs, hview⟩ := Option.map_eq_some_iff.mp hplay
  exact ⟨s.1, s.2, teardownOk_of_reachable OneSubstream.plain_states
    (Party.link_play OneSubstream.reachable_start hs), hview⟩

end Ctcp
