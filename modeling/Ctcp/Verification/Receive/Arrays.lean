import Ctcp.Model.Receive
import Mathlib.Data.List.Nodup

/-! # The client's arrays, path by path

At every index the arrays show one path: the socket that is polled is the socket that is
read, and the other entries are the record that belongs to this socket. -/

namespace Ctcp

open Function

namespace HandleConn

/-- The arrays agree with the records of the paths. -/
structure Arrays (s : HandleConn) : Prop where
  readFd : ∀ k < s.csk.substreams, s.readFd k = s.csk.sockfd k
  paths : ∀ k < s.csk.substreams, s.paths (s.csk.sockfd k) = s.csk.record k
  nodup : s.csk.sockets.Nodup

variable {s t : HandleConn} {k : ℕ}

theorem Arrays.sockfd_inj (h : s.Arrays) {j : ℕ} (hj : j < s.csk.substreams)
    (hk : k < s.csk.substreams) (heq : s.csk.sockfd j = s.csk.sockfd k) : j = k :=
  List.inj_on_of_nodup_map h.nodup (List.mem_range.mpr hj) (List.mem_range.mpr hk) heq

theorem sockets_congr {csk csk' : CliPaths} (hn : csk'.substreams = csk.substreams)
    (hfd : csk'.sockfd = csk.sockfd) : csk'.sockets = csk.sockets := by
  rw [CliPaths.sockets, CliPaths.sockets, hn, hfd]

/-- What the arrays do not show may change. -/
theorem Arrays.congr (h : s.Arrays) (hn : t.csk.substreams = s.csk.substreams)
    (hfd : t.csk.sockfd = s.csk.sockfd) (hrecord : t.csk.record = s.csk.record)
    (hread : t.readFd = s.readFd) (hpaths : t.paths = s.paths) : t.Arrays := by
  constructor
  · rw [hn, hread, hfd]
    exact h.readFd
  · rw [hn, hpaths, hfd, hrecord]
    exact h.paths
  · rw [sockets_congr hn hfd]
    exact h.nodup

/-- The entries of one path change as its record does. -/
theorem Arrays.modify (h : s.Arrays) (hk : k < s.csk.substreams) {f : PathRecord → PathRecord}
    (hn : t.csk.substreams = s.csk.substreams) (hfd : t.csk.sockfd = s.csk.sockfd)
    (hrecord : t.csk.record = update s.csk.record k (f (s.csk.record k)))
    (hread : t.readFd = s.readFd)
    (hpaths : t.paths = update s.paths (s.csk.sockfd k) (f (s.paths (s.csk.sockfd k)))) :
    t.Arrays := by
  constructor
  · rw [hn, hread, hfd]
    exact h.readFd
  · intro j hj
    rw [hn] at hj
    rw [hpaths, hfd, hrecord]
    by_cases hjk : j = k
    · subst hjk
      rw [update_self, update_self, h.paths j hj]
    · have hne : s.csk.sockfd j ≠ s.csk.sockfd k := fun heq => hjk (h.sockfd_inj hj hk heq)
      rw [update_of_ne hne, update_of_ne hjk, h.paths j hj]
  · rw [sockets_congr hn hfd]
    exact h.nodup

/-! ## A path that is given up -/

theorem dropSubstream_substreams :
    (t.dropSubstream k).csk.substreams = t.csk.substreams - 1 := by
  simp [dropSubstream]

/-- The paths behind the one that goes move down as a whole. -/
theorem dropSubstream_entry {j : ℕ} (hj : j < t.csk.substreams - 1) :
    (t.dropSubstream k).csk.sockfd j = t.csk.sockfd (if k ≤ j then j + 1 else j) ∧
    (t.dropSubstream k).csk.record j = t.csk.record (if k ≤ j then j + 1 else j) ∧
    (t.dropSubstream k).readFd j = t.readFd (if k ≤ j then j + 1 else j) := by
  have hlt : j < t.csk.substreams := by omega
  have hne : j ≠ t.csk.substreams - 1 := by omega
  have hi : (if k ≤ j then j + 1 else j) ≠ k := by split <;> omega
  have hclosing : ¬(t.csk.setPath k .closing).pathstate k ≠ .closing :=
    not_not_intro (CliPaths.setPath_pathstate t.csk k .closing)
  refine ⟨?_, ?_, ?_⟩
  · simp only [dropSubstream, removeSubstream, if_neg hclosing]
    exact shiftDown_of_lt _ hlt
  · simp only [dropSubstream, removeSubstream, if_neg hclosing, CliPaths.record,
      CliPaths.setPath_substreams, shiftDown_of_lt _ hlt]
    simp only [CliPaths.setPath, update_of_ne hi]
  · simp only [dropSubstream, update_of_ne hne]
    exact shiftDown_of_lt _ hj

theorem dropSubstream_sockets (hk : k < t.csk.substreams) :
    (t.dropSubstream k).csk.sockets = t.csk.sockets.eraseIdx k := by
  apply List.ext_getElem
  · simp only [CliPaths.sockets, dropSubstream_substreams, List.length_map, List.length_range]
    rw [List.length_eraseIdx_of_lt (by simpa using hk)]
    simp
  · intro j hj hj'
    simp only [CliPaths.sockets, dropSubstream_substreams, List.length_map,
      List.length_range] at hj
    simp only [CliPaths.sockets, List.getElem_map, List.getElem_range, List.getElem_eraseIdx,
      (dropSubstream_entry hj).1]
    by_cases hkj : k ≤ j
    · rw [if_pos hkj, dif_neg (by omega)]
    · rw [if_neg hkj, dif_pos (by omega)]

/-- What becomes of the path that goes does not matter. -/
theorem Arrays.drop (h : s.Arrays) (hk : k < s.csk.substreams)
    (hn : t.csk.substreams = s.csk.substreams) (hfd : t.csk.sockfd = s.csk.sockfd)
    (hrecord : ∀ j, j ≠ k → t.csk.record j = s.csk.record j) (hread : t.readFd = s.readFd)
    (hpaths : ∀ fd, fd ≠ s.csk.sockfd k → t.paths fd = s.paths fd) :
    (t.dropSubstream k).Arrays := by
  have hentry {j : ℕ} (hj : j < (t.dropSubstream k).csk.substreams) :
      ∃ i < s.csk.substreams, i ≠ k ∧ (t.dropSubstream k).csk.sockfd j = s.csk.sockfd i ∧
        (t.dropSubstream k).csk.record j = s.csk.record i ∧
        (t.dropSubstream k).readFd j = s.readFd i := by
    rw [dropSubstream_substreams] at hj
    obtain ⟨hfd', hrecord', hread'⟩ := dropSubstream_entry (k := k) hj
    have hi : (if k ≤ j then j + 1 else j) ≠ k := by split <;> omega
    refine ⟨if k ≤ j then j + 1 else j, by split <;> omega, hi, ?_, ?_, ?_⟩
    · rw [hfd', hfd]
    · rw [hrecord', hrecord _ hi]
    · rw [hread', hread]
  constructor
  · intro j hj
    obtain ⟨i, hi, -, hfd', -, hread'⟩ := hentry hj
    rw [hread', hfd', h.readFd i hi]
  · intro j hj
    obtain ⟨i, hi, hik, hfd', hrecord', -⟩ := hentry hj
    have hne : s.csk.sockfd i ≠ s.csk.sockfd k := fun heq => hik (h.sockfd_inj hi hk heq)
    change t.paths _ = _
    rw [hfd', hrecord', hpaths _ hne, h.paths i hi]
  · rw [dropSubstream_sockets (hn ▸ hk), sockets_congr hn hfd]
    exact h.nodup.eraseIdx k

end HandleConn

end Ctcp
