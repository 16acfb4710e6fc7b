import Ctcp.Library.Deque
import Ctcp.Library.Execution
import Mathlib.Data.Fintype.Sum
import Mathlib.Logic.Function.Basic
import Mathlib.Tactic.DeriveFintype

/-! # The thread pool, from `thr_pool.c`

A call on `job_q` is one step under its mutex: it completes and signals both condition
variables, or signals one of them and waits on the other. -/

namespace Ctcp

open Function

/-- `priority_t` -/
inductive Priority where
  | low
  | high
  deriving DecidableEq

/-- A `job_t`. Jobs with a function are known by their number in the order in which
`job_q` gets them. -/
inductive Job where
  | real (k : ℕ)
  /-- The function is `NULL`. -/
  | null
  deriving DecidableEq

/-- What a worker does with a job. -/
inductive JobEvent where
  /-- Call its function. -/
  | run (k : ℕ)
  /-- Call its `free_handler`. -/
  | free (k : ℕ)
  deriving DecidableEq

def JobEvent.job : JobEvent → ℕ
  | .run k | .free k => k

/-- Where `do_worker` stands. -/
inductive DoWorker where
  /-- In `takeJob`. -/
  | taking
  | running (k : ℕ)
  /-- The function has returned. -/
  | freeing (k : ℕ)
  | exited
  deriving DecidableEq

/-- Where `thrpool_kill` stands. -/
inductive ThrpoolKill where
  | before
  /-- So many jobs without a function are still to be added. -/
  | adding (left : ℕ)
  /-- At `pthread_join` of worker `i`. -/
  | joining (i : ℕ)
  | returned
  deriving DecidableEq

inductive PoolThread (n m : ℕ) where
  | worker (w : Fin n)
  | caller (i : Fin m)
  | killer
  deriving DecidableEq, Fintype

/-- The call of `addJob`: with which priority, and what was waiting in `job_q`. -/
structure AddedJob where
  priority : Priority
  waiting : List Job

/-- A pool of `n` workers with `m` threads that call `addJob`. The threads in `asleep`
are in `pthread_cond_wait`. What was added, taken and done is recorded. -/
structure ThrPool (n m : ℕ) where
  jobQ : List Job
  workers : Fin n → DoWorker
  /-- The priorities of the calls that a thread still has to make. -/
  callers : Fin m → List Priority
  kill : ThrpoolKill
  asleep : Finset (PoolThread n m)
  added : List AddedJob
  taken : List (Fin n × Job)
  log : List JobEvent

variable {n m : ℕ}

/-- `thrpool_init`, before any call of `addJob`. -/
def thrpoolInit (callers : Fin m → List Priority) : ThrPool n m where
  jobQ := []
  workers _ := .taking
  callers := callers
  kill := .before
  asleep := ∅
  added := []
  taken := []
  log := []

/-- The calls on `job_q`, which `thrpool_init` makes for `2*sz` entries. -/
def jobQueue (n : ℕ) : Object (List Job) (DequeOp Job) (Option Job) := boundedDeque (2 * n)

/-- `addJob` -/
def addJob (p : Priority) (j : Job) : DequeOp Job :=
  match p with
  | .high => .pushFront j
  | .low => .pushBack j

/-! ## Condition variables -/

namespace ThrPool

/-- The thread is in a push to `job_q`. -/
def Pushes (s : ThrPool n m) : PoolThread n m → Prop
  | .worker _ => False
  | .caller i => s.callers i ≠ []
  | .killer => ∃ left, s.kill = .adding (left + 1)

/-- The thread is in a pop from `job_q`. -/
def Pops (s : ThrPool n m) : PoolThread n m → Prop
  | .worker w => s.workers w = .taking
  | _ => False

end ThrPool

/-- `pthread_cond_signal`: some of the threads that wait there go on, at least one if
there is one. -/
structure Signals (waits : PoolThread n m → Prop) (asleep asleep' : Finset (PoolThread n m)) :
    Prop where
  subset : asleep' ⊆ asleep
  others : ∀ t ∈ asleep, ¬waits t → t ∈ asleep'
  wakes : (∃ t ∈ asleep, waits t) → ∃ t ∈ asleep, waits t ∧ t ∉ asleep'

/-- The signals at the end of a push or a pop. -/
def ThrPool.SignalsBoth (s : ThrPool n m) (asleep' : Finset (PoolThread n m)) : Prop :=
  ∃ asleep₁, Signals s.Pops s.asleep asleep₁ ∧ Signals s.Pushes asleep₁ asleep'

/-! ## Steps -/

inductive ThrPoolEvent (n m : ℕ) where
  | go (t : PoolThread n m)
  /-- `pthread_cond_wait` returns without a signal. -/
  | spurious (t : PoolThread n m)
  deriving DecidableEq

inductive ThrPoolStep : ThrPool n m → ThrPoolEvent n m → ThrPool n m → Prop where
  | add {s : ThrPool n m} {i : Fin m} {p : Priority} {rest : List Priority} {q : List Job}
      {asleep : Finset (PoolThread n m)} (hcall : s.callers i = p :: rest)
      (hawake : .caller i ∉ s.asleep)
      (hq : jobQueue n s.jobQ (addJob p (.real s.added.length)) = some (none, q))
      (hsignal : s.SignalsBoth asleep) :
      ThrPoolStep s (.go (.caller i))
        { s with
          jobQ := q
          callers := update s.callers i rest
          asleep := asleep
          added := s.added ++ [⟨p, s.jobQ⟩] }
  | take {s : ThrPool n m} {w : Fin n} {k : ℕ} {q : List Job}
      {asleep : Finset (PoolThread n m)} (hat : s.workers w = .taking)
      (hawake : .worker w ∉ s.asleep) (hq : jobQueue n s.jobQ .pop = some (some (.real k), q))
      (hsignal : s.SignalsBoth asleep) :
      ThrPoolStep s (.go (.worker w))
        { s with
          jobQ := q
          workers := update s.workers w (.running k)
          asleep := asleep
          taken := s.taken ++ [(w, .real k)] }
  /-- The function is `NULL`: the worker ends. -/
  | die {s : ThrPool n m} {w : Fin n} {q : List Job} {asleep : Finset (PoolThread n m)}
      (hat : s.workers w = .taking) (hawake : .worker w ∉ s.asleep)
      (hq : jobQueue n s.jobQ .pop = some (some .null, q)) (hsignal : s.SignalsBoth asleep) :
      ThrPoolStep s (.go (.worker w))
        { s with
          jobQ := q
          workers := update s.workers w .exited
          asleep := asleep
          taken := s.taken ++ [(w, .null)] }
  | run {s : ThrPool n m} {w : Fin n} {k : ℕ} (hat : s.workers w = .running k) :
      ThrPoolStep s (.go (.worker w))
        { s with workers := update s.workers w (.freeing k), log := s.log ++ [.run k] }
  | free {s : ThrPool n m} {w : Fin n} {k : ℕ} (hat : s.workers w = .freeing k) :
      ThrPoolStep s (.go (.worker w))
        { s with workers := update s.workers w .taking, log := s.log ++ [.free k] }
  /-- No `addJob` is called any more. -/
  | kill {s : ThrPool n m} (hat : s.kill = .before) (hcallers : ∀ i, s.callers i = []) :
      ThrPoolStep s (.go .killer) { s with kill := .adding n }
  | addNull {s : ThrPool n m} {left : ℕ} {q : List Job} {asleep : Finset (PoolThread n m)}
      (hat : s.kill = .adding (left + 1)) (hawake : .killer ∉ s.asleep)
      (hq : jobQueue n s.jobQ (addJob .low .null) = some (none, q))
      (hsignal : s.SignalsBoth asleep) :
      ThrPoolStep s (.go .killer) { s with jobQ := q, kill := .adding left, asleep := asleep }
  | allAdded {s : ThrPool n m} (hat : s.kill = .adding 0) :
      ThrPoolStep s (.go .killer) { s with kill := .joining 0 }
  | join {s : ThrPool n m} {w : Fin n} (hat : s.kill = .joining w)
      (hexited : s.workers w = .exited) :
      ThrPoolStep s (.go .killer) { s with kill := .joining (w + 1) }
  | allJoined {s : ThrPool n m} (hat : s.kill = .joining n) :
      ThrPoolStep s (.go .killer) { s with kill := .returned }
  | waitPush {s : ThrPool n m} {t : PoolThread n m} {asleep : Finset (PoolThread n m)}
      (hpush : s.Pushes t) (hawake : t ∉ s.asleep) (hfull : s.jobQ.length = 2 * n)
      (hsignal : Signals s.Pops s.asleep asleep) :
      ThrPoolStep s (.go t) { s with asleep := insert t asleep }
  | waitPop {s : ThrPool n m} {t : PoolThread n m} {asleep : Finset (PoolThread n m)}
      (hpop : s.Pops t) (hawake : t ∉ s.asleep) (hempty : s.jobQ = [])
      (hsignal : Signals s.Pushes s.asleep asleep) :
      ThrPoolStep s (.go t) { s with asleep := insert t asleep }
  | spurious {s : ThrPool n m} {t : PoolThread n m} (hasleep : t ∈ s.asleep) :
      ThrPoolStep s (.spurious t) { s with asleep := s.asleep.erase t }

/-- The pool under any sequences of calls, and then one of `thrpool_kill`. -/
def thrPool (n m : ℕ) : System (ThrPool n m) (ThrPoolEvent n m) where
  init s := ∃ callers, s = thrpoolInit callers
  step := ThrPoolStep

end Ctcp
