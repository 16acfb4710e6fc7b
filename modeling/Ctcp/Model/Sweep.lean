import Ctcp.Model.Paths

/-! # The timers of the server's paths, from `srvctcp.c` -/

namespace Ctcp

/-- The loop of `server_worker` that looks up the path of an acknowledgement; its result
is `num_active` when there is none. -/
def lookupPath (sk : SrvPaths) (cliAddr : ℕ) : ℕ :=
  sk.activePaths.findIdx fun a => (sk.path a).cliAddr == cliAddr

/-- `removePath`; the paths behind the dead one move down. -/
def SrvPaths.removePath (sk : SrvPaths) (deadIndex : ℕ) : SrvPaths :=
  { sk with
    activePaths := sk.activePaths.eraseIdx deadIndex
    nodup := sk.nodup.eraseIdx deadIndex }

/-- `timeout` returns false when the path is dead. -/
def timeout (sk : SrvPaths) (a : ℕ) : Bool × SrvPaths :=
  if sk.maxidle < (sk.path a).idle then (false, sk)
  else
    let p := { sk.path a with idle := (sk.path a).idle + 1, rto := 2 * (sk.path a).rto }
    (true, { sk with path := Function.update sk.path a p })

/-- The entry `active_paths[k]`, if there is one. -/
def SrvPaths.entry (sk : SrvPaths) (k : ℤ) : Option ℕ :=
  if 0 ≤ k then sk.activePaths[k.toNat]? else none

/-- The state of the loop over the paths: `path_index`, and the paths for which `timeout`
was called so far. -/
structure Sweep where
  sk : SrvPaths
  pathIndex : ℤ
  timedOut : List ℕ

/-- The time since the last acknowledgement is more than the timer of the path allows. -/
def TimedPath.Overdue (rcvt : ℚ) (p : TimedPath) : Prop := p.rto < rcvt - p.lastAckTime

instance (rcvt : ℚ) (p : TimedPath) : Decidable (p.Overdue rcvt) :=
  inferInstanceAs (Decidable (_ < _))

/-- One round; `none` when `active_paths` is read outside its entries. What is sent on a
path that is still alive does not matter here. -/
def sweepRound (rcvt : ℚ) (s : Sweep) (i : ℕ) : Option Sweep :=
  if i < s.sk.numActive then
    let k := (s.pathIndex + i).tmod s.sk.numActive
    (s.sk.entry k).map fun a =>
      if (s.sk.path a).Overdue rcvt then
        let result := timeout s.sk a
        if result.1 then { sk := result.2, pathIndex := k, timedOut := s.timedOut ++ [a] }
        else
          { sk := result.2.removePath k.toNat
            pathIndex := k - 1
            timedOut := s.timedOut ++ [a] }
      else { s with pathIndex := k }
  else some s

/-- The loop of `server_worker` over all paths. There are never more paths than at first,
and once `i` has reached their number the rest of the rounds does nothing. -/
def sweep (rcvt : ℚ) (sk : SrvPaths) (pathIndex : ℤ) : Option Sweep :=
  (List.range sk.numActive).foldlM (sweepRound rcvt)
    { sk := sk, pathIndex := pathIndex, timedOut := [] }

end Ctcp
