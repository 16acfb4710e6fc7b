import Ctcp.Model.Session
import Mathlib.Data.Rat.Defs

/-! # The paths of a connection, from `clictcp.h` and `srvctcp.h` -/

namespace Ctcp

/-- `clipath_t` -/
inductive CliPath where
  | synSent | synAckRecv | established | finSent | finAckRecv | finRecv | finAckSent | closing
  deriving DecidableEq, Repr

/-- `srvpath_t` -/
inductive SrvPath where
  | synRecv | synAckSent | established | finSent | finAckRecv | finRecv | finAckSent | closing
  deriving DecidableEq, Repr

/-- `status_t` of the server. -/
inductive SrvStatus where
  | active | closed | skClosing
  deriving DecidableEq, Repr

/-- `ctcp_err_t`; the third value is `SRVHUP` on the client and `CLIHUP` on the server. -/
inductive CtcpErr where
  | none | closeErr | hup
  deriving DecidableEq, Repr

/-- Entry `pin` goes, and the entries behind it, up to `stop`, move down by one. -/
def shiftDown {α : Type*} (f : ℕ → α) (pin stop i : ℕ) : α :=
  if pin ≤ i ∧ i < stop then f (i + 1) else f i

theorem shiftDown_of_lt {α : Type*} (f : ℕ → α) {pin stop i : ℕ} (hi : i < stop) :
    shiftDown f pin stop i = f (if pin ≤ i then i + 1 else i) := by
  simp only [shiftDown, hi, and_true]
  split <;> rfl

/-! ## Client -/

/-- What a `clictcp_sock` knows about its substreams. The arrays are indexed by substream. -/
structure CliPaths where
  substreams : ℕ
  sockfd : ℕ → ℕ
  pathstate : ℕ → CliPath
  lastrcvt : ℕ → ℚ
  idleTime : ℕ → ℚ
  idleCount : ℕ → ℕ
  status : SockStatus
  error : CtcpErr

namespace CliPaths

def setPath (csk : CliPaths) (k : ℕ) (p : CliPath) : CliPaths :=
  { csk with pathstate := Function.update csk.pathstate k p }

/-- Set the state of all substreams in use that `which` selects. -/
def setPaths (csk : CliPaths) (which : ℕ → Bool) (p : CliPath) : CliPaths :=
  { csk with pathstate := fun k => if k < csk.substreams ∧ which k then p else csk.pathstate k }

@[simp] theorem setPath_substreams (csk : CliPaths) (k : ℕ) (p : CliPath) :
    (csk.setPath k p).substreams = csk.substreams := rfl

@[simp] theorem setPath_pathstate (csk : CliPaths) (k : ℕ) (p : CliPath) :
    (csk.setPath k p).pathstate k = p := by simp [setPath]

end CliPaths

/-- `remove_substream`; only a path in the state `CLOSING` goes. -/
def removeSubstream (csk : CliPaths) (pin : ℕ) : CliPaths :=
  if csk.pathstate pin ≠ .closing then csk
  else
    { csk with
      sockfd := shiftDown csk.sockfd pin csk.substreams
      pathstate := shiftDown csk.pathstate pin csk.substreams
      lastrcvt := shiftDown csk.lastrcvt pin csk.substreams
      idleTime := shiftDown csk.idleTime pin csk.substreams
      idleCount := shiftDown csk.idleCount pin csk.substreams
      substreams := csk.substreams - 1 }

@[simp] theorem removeSubstream_setPath_substreams (csk : CliPaths) (pin : ℕ) :
    (removeSubstream (csk.setPath pin .closing) pin).substreams = csk.substreams - 1 := by
  simp [removeSubstream]

/-! ## Server -/

/-- The part of a `Substream_Path` that the state of the connection and the timers use. -/
structure TimedPath where
  cliAddr : ℕ
  pathstate : SrvPath
  lastAckTime : ℚ
  rto : ℚ
  /-- Successive timeouts. -/
  idle : ℕ

/-- What a `srvctcp_sock` knows about its paths. The entries of `active_paths` in use are
distinct pointers, and `path` is what they point to. -/
structure SrvPaths where
  activePaths : List ℕ
  nodup : activePaths.Nodup
  path : ℕ → TimedPath
  maxidle : ℕ
  status : SrvStatus
  error : CtcpErr

namespace SrvPaths

def numActive (sk : SrvPaths) : ℕ := sk.activePaths.length

def pathstate (sk : SrvPaths) (i : ℕ) : SrvPath := (sk.path (sk.activePaths.getD i 0)).pathstate

def setPath (sk : SrvPaths) (i : ℕ) (p : SrvPath) : SrvPaths :=
  let a := sk.activePaths.getD i 0
  { sk with path := Function.update sk.path a { sk.path a with pathstate := p } }

/-- Set the state of all active paths that `which` selects. -/
def setPaths (sk : SrvPaths) (which : ℕ → Bool) (p : SrvPath) : SrvPaths :=
  { sk with path := fun a =>
      if a ∈ sk.activePaths ∧ which (sk.activePaths.idxOf a) then
        { sk.path a with pathstate := p }
      else sk.path a }

@[simp] theorem setPaths_status (sk : SrvPaths) (which : ℕ → Bool) (p : SrvPath) :
    (sk.setPaths which p).status = sk.status := rfl

theorem setPaths_pathstate {sk : SrvPaths} {i : ℕ} (p : SrvPath) (hi : i < sk.numActive) :
    (sk.setPaths (fun _ => true) p).pathstate i = p := by
  have hmem : sk.activePaths.getD i 0 ∈ sk.activePaths := by
    rw [List.getD_eq_getElem?_getD, List.getElem?_eq_getElem hi]
    exact List.getElem_mem hi
  simp only [pathstate, setPaths, hmem, and_true, if_true]

end SrvPaths

end Ctcp
