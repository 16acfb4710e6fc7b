import Ctcp.Model.ProxyRemote
import Mathlib.Algebra.Order.Group.Nat

/-! # Every session has a port of its own

This holds as long as `ctcp_port` moves on between two sessions that live together. -/

namespace Ctcp

theorem System.Reachable.proxyStep {maxConCnt : ℤ} {s s' : ProxyRemote} {e : ProxyEvent}
    (h : (proxyRemote maxConCnt).Reachable s) (hstep : ProxyStep maxConCnt s e s') :
    (proxyRemote maxConCnt).Reachable s' := .step h hstep

/-! ## A port for each session -/

/-- The field for the port in the reply of `negotiate`, and in what `proxy_poll_connect`
copies, is the decimal string of the port. -/
def FieldOk (port : ℕ) : Prop :=
  ∀ buf, buf.length = 256 → ∀ pcon errno,
    (selectMethod buf port).length = 7 ∧
      ((selectMethod buf port).drop 2).take 5 = decimal port ++ [0] ∧
        (pollConnect pcon (selectMethod buf port) errno).1 = 0 ∧
          (pollConnect pcon (selectMethod buf port) errno).2.srvctcpPort = decimal port ++ [0]

/-- Each session that is alive has a port of its own, and tells it to its client. -/
structure PortsOk (s : ProxyRemote) : Prop where
  distinct : s.sessions.Pairwise fun c c' => c.ctcpPort ≠ c'.ctcpPort
  inRange : ∀ c ∈ s.sessions, startPort ≤ c.ctcpPort ∧ c.ctcpPort ≤ maxPort
  field : ∀ c ∈ s.sessions, FieldOk c.ctcpPort

/-- At a fork there is a port left, and the session before has ended, unless `ctcp_port` was
counted up since it was started. -/
def ForkInTurn (s : ProxyRemote) : ProxyEvent → Prop
  | .fork =>
    s.ctcpPort ≤ maxPort ∧ (s.moved = true ∨ ∀ c ∈ s.sessions, c.number + 1 ≠ s.forks)
  | .other => True

theorem System.Reachable.turnStep {maxConCnt : ℤ} {s s' : ProxyRemote} {e : ProxyEvent}
    (h : ((proxyRemote maxConCnt).guard ForkInTurn).Reachable s)
    (hstep : ProxyStep maxConCnt s e s') (hturn : ForkInTurn s e) :
    ((proxyRemote maxConCnt).guard ForkInTurn).Reachable s' := .step h ⟨hturn, hstep⟩

/-! ## The field -/

theorem length_decimal {port : ℕ} (hlow : 1000 ≤ port) (hhigh : port < 10000) :
    (decimal port).length = 4 := by
  have hle : (Nat.toDigits 10 port).length ≤ 4 :=
    (Nat.length_toDigits_le_iff (by decide) (by decide)).mpr hhigh
  have hgt : ¬(Nat.toDigits 10 port).length ≤ 3 := fun hle =>
    absurd ((Nat.length_toDigits_le_iff (by decide) (by decide)).mp hle) (Nat.not_lt.mpr hlow)
  rw [decimal, List.length_map]
  omega

/-- A string of four characters fills the field. -/
theorem selectMethod_eq {buf : List UInt8} {port : ℕ} (hbuf : buf.length = 256)
    (hlength : (decimal port).length = 4) :
    selectMethod buf port = socksVer :: socksMethod :: (decimal port ++ [0]) := by
  obtain ⟨a, b, rest, rfl⟩ : ∃ a b rest, buf = a :: b :: rest := by
    match buf, hbuf with
    | a :: b :: rest, _ => exact ⟨a, b, rest, rfl⟩
  have hfield : (decimal port ++ [0]).length = 5 := by simp [hlength]
  simp only [selectMethod, writeAt, List.length_singleton, List.take_zero, List.nil_append,
    List.cons_append, List.drop_succ_cons, List.drop_zero, List.take_succ_cons, Nat.zero_add,
    Nat.reduceAdd]
  rw [List.take_left' hfield]

theorem fieldOk {port : ℕ} (hlow : startPort ≤ port) (hhigh : port ≤ maxPort) : FieldOk port := by
  intro buf hbuf pcon errno
  have hlength : (decimal port).length = 4 := by
    simp only [startPort, maxPort] at hlow hhigh
    exact length_decimal (by omega) (by omega)
  have hfield : (decimal port ++ [0]).length = 5 := by simp [hlength]
  have htake : (decimal port ++ [0]).take 5 = decimal port ++ [0] :=
    List.take_of_length_le hfield.le
  rw [selectMethod_eq hbuf hlength]
  refine ⟨by simp [hlength], htake, ?_, ?_⟩
  · simp [pollConnect, hlength, socksVer, socksMethod]
  · simp [pollConnect, hlength, socksVer, socksMethod, htake]

/-! ## The invariant -/

/-- Where the counter stands in relation to the ports in use. -/
structure PortsInv (s : ProxyRemote) : Prop where
  start_le : startPort ≤ s.ctcpPort
  number_lt : ∀ c ∈ s.sessions, c.number < s.forks
  bounds : ∀ c ∈ s.sessions, startPort ≤ c.ctcpPort ∧ c.ctcpPort ≤ s.ctcpPort ∧ c.ctcpPort ≤ maxPort
  distinct : s.sessions.Pairwise fun c c' => c.ctcpPort ≠ c'.ctcpPort
  /-- Only the last session can have the port that the next one gets. -/
  last : ∀ c ∈ s.sessions, c.ctcpPort = s.ctcpPort → c.number + 1 = s.forks
  moved : s.moved = true → ∀ c ∈ s.sessions, c.ctcpPort ≠ s.ctcpPort
  stuck : s.moved = false → ∀ c ∈ s.sessions, c.number + 1 = s.forks → c.ctcpPort = s.ctcpPort

variable {maxConCnt : ℤ} {s s' : ProxyRemote} {e : ProxyEvent}

theorem PortsInv.portsOk (h : PortsInv s) : PortsOk s where
  distinct := h.distinct
  inRange c hc := ⟨(h.bounds c hc).1, (h.bounds c hc).2.2⟩
  field c hc := fieldOk (h.bounds c hc).1 (h.bounds c hc).2.2

theorem portsInv_start : PortsInv .start where
  start_le := le_rfl
  number_lt _ hc := (List.not_mem_nil hc).elim
  bounds _ hc := (List.not_mem_nil hc).elim
  distinct := .nil
  last _ hc := (List.not_mem_nil hc).elim
  moved _ _ hc := (List.not_mem_nil hc).elim
  stuck _ _ hc := (List.not_mem_nil hc).elim

theorem PortsInv.fork (h : PortsInv s) (hturn : ForkInTurn s .fork) :
    PortsInv
      { s with
        loop := .counting
        sessions := ⟨s.forks, s.ctcpPort⟩ :: s.sessions
        forks := s.forks + 1
        moved := false } := by
  obtain ⟨hmax, hfree⟩ := hturn
  have hunused : ∀ c ∈ s.sessions, c.ctcpPort ≠ s.ctcpPort := by
    intro c hc heq
    rcases hfree with hmoved | hended
    · exact h.moved hmoved c hc heq
    · exact hended c hc (h.last c hc heq)
  constructor
  case start_le => exact h.start_le
  case number_lt =>
    refine List.forall_mem_cons.mpr ⟨Nat.lt_succ_self _, fun c hc => ?_⟩
    exact (h.number_lt c hc).trans (Nat.lt_succ_self _)
  case bounds => exact List.forall_mem_cons.mpr ⟨⟨h.start_le, le_rfl, hmax⟩, h.bounds⟩
  case distinct =>
    exact List.pairwise_cons.mpr ⟨fun c hc => (hunused c hc).symm, h.distinct⟩
  case last =>
    exact List.forall_mem_cons.mpr ⟨fun _ => rfl, fun c hc heq => absurd heq (hunused c hc)⟩
  case moved => exact fun hmoved => absurd hmoved Bool.false_ne_true
  case stuck =>
    refine fun _ => List.forall_mem_cons.mpr ⟨fun _ => rfl, fun c hc hlast => ?_⟩
    have hlt := h.number_lt c hc
    dsimp only at hlast
    omega

/-- The counter moves on from all ports in use. -/
theorem PortsInv.count (h : PortsInv s) (n : ℤ) :
    PortsInv
      { s with
        loop := .testing, conCnt := n + 1, ctcpPort := s.ctcpPort + 1, moved := true } := by
  have hne : ∀ c ∈ s.sessions, c.ctcpPort ≠ s.ctcpPort + 1 := by
    intro c hc heq
    have hle := (h.bounds c hc).2.1
    omega
  constructor
  case start_le => exact h.start_le.trans (Nat.le_succ _)
  case number_lt => exact h.number_lt
  case bounds =>
    intro c hc
    obtain ⟨hlow, hle, hhigh⟩ := h.bounds c hc
    exact ⟨hlow, hle.trans (Nat.le_succ _), hhigh⟩
  case distinct => exact h.distinct
  case last => exact fun c hc heq => absurd heq (hne c hc)
  case moved => exact fun _ => hne
  case stuck => exact fun hstuck => absurd hstuck.symm Bool.false_ne_true

theorem PortsInv.exit (h : PortsInv s) (c : ProxySession) :
    PortsInv { s with sessions := s.sessions.erase c, exited := s.exited + 1 } where
  start_le := h.start_le
  number_lt d hd := h.number_lt d (List.mem_of_mem_erase hd)
  bounds d hd := h.bounds d (List.mem_of_mem_erase hd)
  distinct := h.distinct.sublist List.erase_sublist
  last d hd := h.last d (List.mem_of_mem_erase hd)
  moved hmoved d hd := h.moved hmoved d (List.mem_of_mem_erase hd)
  stuck hstuck d hd := h.stuck hstuck d (List.mem_of_mem_erase hd)

theorem PortsInv.step (h : PortsInv s) (hturn : ForkInTurn s e)
    (hstep : ProxyStep maxConCnt s e s') : PortsInv s' := by
  cases hstep with
  | fork hloop => exact h.fork hturn
  | count hloop hroom => exact h.count _
  | exit hc => exact h.exit _
  | full hloop hfull => exact h
  | test hloop hroom => exact { h with }
  | refuse hloop => exact { h with }
  | read hloop => exact { h with }
  | countLast hloop hlast => exact { h with }
  | wait hexited => exact { h with }

theorem portsInv_of_reachable (hreach : ((proxyRemote maxConCnt).guard ForkInTurn).Reachable s) :
    PortsInv s := by
  refine hreach.invariant ?_ ?_
  · rintro s rfl
    exact portsInv_start
  · rintro s e s' hinv ⟨hturn, hstep⟩
    exact hinv.step hturn hstep

/-! ## When the ports are in order -/

/-- A fork out of turn gives a port that is not there, or that of the session before. -/
theorem PortsInv.forkInTurn (h : PortsInv s) (hstep : ProxyStep maxConCnt s e s')
    (hok : PortsOk s') : ForkInTurn s e := by
  cases hstep with
  | fork hloop =>
      refine ⟨(hok.inRange _ List.mem_cons_self).2, ?_⟩
      rw [or_iff_not_imp_left, Bool.not_eq_true]
      intro hstuck c hc hlast
      exact (List.pairwise_cons.mp hok.distinct).1 c hc (h.stuck hstuck c hc hlast).symm
  | _ => trivial

/-- In runs where each fork is in turn the ports are in order; a fork that is not breaks
this order. -/
theorem portsOk_iff (hreach : ((proxyRemote maxConCnt).guard ForkInTurn).Reachable s) :
    PortsOk s ∧ ∀ e s', ProxyStep maxConCnt s e s' → (PortsOk s' ↔ ForkInTurn s e) := by
  have hinv := portsInv_of_reachable hreach
  refine ⟨hinv.portsOk, fun e s' hstep => ⟨hinv.forkInTurn hstep, fun hturn => ?_⟩⟩
  exact (hinv.step hturn hstep).portsOk

/-- Two sessions under a load limit of three. -/
def twoSessions : ProxyRemote where
  conCnt := 1
  ctcpPort := 8002
  loop := .counting
  sessions := [⟨1, 8002⟩, ⟨0, 8001⟩]
  exited := 0
  forks := 2
  moved := false

theorem portsOk_twoSessions : PortsOk twoSessions ∧ ∀ e s', ProxyStep 3 twoSessions e s' →
    (PortsOk s' ↔ ForkInTurn twoSessions e) := by
  have hinit : ((proxyRemote 3).guard ForkInTurn).Reachable .start := .init rfl
  have htest := hinit.turnStep (.test rfl (by decide)) trivial
  have hfork := htest.turnStep (.fork rfl) ⟨by decide, .inl rfl⟩
  have hread := hfork.turnStep (.read rfl) trivial
  have hcount := hread.turnStep (.count rfl (by decide)) trivial
  have hagain := hcount.turnStep (.test rfl (by decide)) trivial
  have hsecond : ((proxyRemote 3).guard ForkInTurn).Reachable twoSessions :=
    hagain.turnStep (.fork rfl) ⟨by decide, .inl rfl⟩
  exact portsOk_iff hsecond

/-- With a load limit of two, the third session gets the port of the second one when the
first one has ended. -/
theorem not_portsOk : ¬∀ (maxConCnt : ℤ) (s : ProxyRemote), 1 ≤ maxConCnt →
    (proxyRemote maxConCnt).Reachable s → PortsOk s := by
  intro hall
  have hinit : (proxyRemote 2).Reachable .start := .init rfl
  have hfirst := ((hinit.proxyStep (.test rfl (by decide))).proxyStep (.fork rfl)).proxyStep
    (.read rfl)
  have hcount := hfirst.proxyStep (.count rfl (by decide))
  have hsecond := ((hcount.proxyStep (.test rfl (by decide))).proxyStep (.fork rfl)).proxyStep
    (.read rfl)
  have hlast := hsecond.proxyStep (.countLast rfl (by decide))
  have hexit := hlast.proxyStep (.exit (c := ⟨0, 8001⟩) (by decide))
  have hwait := hexit.proxyStep (.wait (by decide))
  have hthird := (hwait.proxyStep (.test rfl (by decide))).proxyStep (.fork rfl)
  have hdistinct := (hall 2 _ (by decide) hthird).distinct
  exact (List.pairwise_cons.mp hdistinct).1 ⟨1, 8002⟩ (by decide) rfl

end Ctcp
