import ProcmailRs.Delivery.Failure
import ProcmailRs.Lib.Interleaving

/-!
# Local lock files

A local lock is the kernel's lock on an open file (`flock`), or a file that only one process can create
(`dotlock`). An acquisition that finds the lock taken sleeps and tries again until its timeout has
passed. A dotlock whose file is older than the timeout is taken for a leftover, and the file is removed.

An acquisition stands between two calls of the system, in a phase: `Next` is the call that it makes and
what it does with the answer.
-/

namespace ProcmailRs

namespace LocalLock

/-- `Instant` and `Duration` count nanoseconds. -/
def nanosPerSecond : Nat := 1000000000

/-- How many nanoseconds a sleep may last before the signals are looked at. -/
def signalPollInterval : Nat := 10000000

/-- A larger file is not taken for a lock. -/
def maxStaleDotlockSize : Nat := 1024

/-- The error numbers that the source tells apart. -/
inductive ErrnoCode
  | Exist
  | Intr
  | Again
  | Other
  deriving DecidableEq, Repr

/-- `Errno`, with the error that `io_error` makes of it. -/
structure Errno where
  code : ErrnoCode
  ioError : IoError
  deriving DecidableEq, Repr

/-- How long to wait for a lock, and how often to try, in nanoseconds. -/
structure Policy where
  timeout : Nat
  retry : Nat
  deriving DecidableEq, Repr

/-- The calls of every acquisition, and those of one kind of lock. -/
inductive Call (κ : Type)
  | CheckIo
  | Instant
  | Sleep (duration : Nat)
  | Lock (call : κ)

variable {κ : Type} {α : κ → Type} {ρ ρ' : Type}

/-- What a call is answered with. -/
abbrev Call.Answer (α : κ → Type) : Call κ → Type
  | .CheckIo => Except IoError Unit
  | .Instant => Nat
  | .Sleep _ => Unit
  | .Lock call => α call

/-- The call that an acquisition makes in its phase, with the phase behind the answer; one that has ended
makes none. -/
inductive Next (κ : Type) (α : κ → Type) (ρ : Type)
  | ask (call : Call κ) (resume : call.Answer α → ρ)
  | ended

/-- The phases of a part as phases of the whole. -/
def Next.map (f : ρ → ρ') : Next κ α ρ → Next κ α ρ'
  | .ask call resume => .ask call fun answer => f (resume answer)
  | .ended => .ended

/-! ### Waiting -/

/-- Where `wait_for_retry` stands. -/
inductive Wait
  | Measuring
  | Scheduling (delay : Nat)
  | Polling (retryAt : Nat)
  | Waking (retryAt : Nat)
  | Sleeping (retryAt interval : Nat)
  deriving DecidableEq, Repr

/-- Where the wait between two tries has come to. -/
inductive WaitStep
  | Going (wait : Wait)
  | Retry
  | TimedOut
  | Failed (error : IoError)
  deriving DecidableEq, Repr

/-- The pause before the next attempt, unless the timeout has passed. -/
def retryDelay (policy : Policy) (elapsed : Nat) : Option Nat :=
  if policy.timeout < elapsed then none
  else if policy.timeout - elapsed = 0 then none
  else some (min policy.retry (policy.timeout - elapsed))

/-- `Instant::checked_add`: the seconds of an instant are an `i64`. -/
def instantAdd (now delay : Nat) : Option Nat :=
  if (now + delay) / nanosPerSecond < 2 ^ 63 then some (now + delay) else none

/-- `retry_at.checked_duration_since(now)`. -/
def untilRetry (retryAt now : Nat) : Option Nat :=
  if retryAt < now then none else some (retryAt - now)

/-- The end of the wait cannot be computed. -/
def deadlineOverflow : IoError := ⟨.Other 0, false, "lock retry deadline overflows"⟩

/-- `wait_for_retry`: the wait between two tries, in sleeps that look at the signals. -/
def waitForRetry (policy : Policy) (started : Nat) : Wait → Next κ α WaitStep
  | .Measuring => .ask .Instant fun now =>
    match retryDelay policy (now - started) with
    | none => .TimedOut
    | some delay => .Going (.Scheduling delay)
  | .Scheduling delay => .ask .Instant fun now =>
    match instantAdd now delay with
    | none => .Failed deadlineOverflow
    | some retryAt => .Going (.Polling retryAt)
  | .Polling retryAt => .ask .CheckIo fun
    | .error error => .Failed error
    | .ok () => .Going (.Waking retryAt)
  | .Waking retryAt => .ask .Instant fun now =>
    match untilRetry retryAt now with
    | none => .Retry
    | some rest => .Going (.Sleeping retryAt (min signalPollInterval rest))
  | .Sleeping retryAt interval => .ask (.Sleep interval) fun () => .Going (.Polling retryAt)

/-! ### Locks of the kernel -/

/-- Where the acquisition of a lock on a file has come to. -/
inductive FlockPhase
  | Starting
  | Checking (started : Nat)
  | Trying (started : Nat)
  | Waiting (started : Nat) (wait : Wait)
  | Locked
  | TimedOut (started : Nat)
  | Failed (error : IoError)
  deriving DecidableEq, Repr

namespace FlockPhase

/-- The phase behind a step of the wait. -/
def afterWait (started : Nat) : WaitStep → FlockPhase
  | .Going wait => .Waiting started wait
  | .Retry => .Checking started
  | .TimedOut => .TimedOut started
  | .Failed error => .Failed error

end FlockPhase

/-- `acquire_flock_fd_with`: `tryLock` is the call that takes the lock or fails. An interrupted attempt
is made again at once. -/
def acquireFlockFd (tryLock : κ) (result : α tryLock → Except Errno Unit) (policy : Policy) :
    FlockPhase → Next κ α FlockPhase
  | .Starting => .ask .Instant fun now => .Checking now
  | .Checking started => .ask .CheckIo fun
    | .error error => .Failed error
    | .ok () => .Trying started
  | .Trying started => .ask (.Lock tryLock) fun answer =>
    match result answer with
    | .ok () => .Locked
    | .error errno =>
      match errno.code with
      | .Intr => .Checking started
      | .Again => .Waiting started .Measuring
      | .Exist | .Other => .Failed errno.ioError
  | .Waiting started wait => (waitForRetry policy started wait).map (.afterWait started)
  | .Locked | .TimedOut _ | .Failed _ => .ended

/-! ### Lock files -/

/-- What `statat` says of a lock file; times are in seconds since the epoch. -/
structure FileStat where
  directory : Bool
  size : Int
  modified : Int
  deriving DecidableEq, Repr

/-- `RemoveStale` and `Return` both are `unlinkat`. -/
inductive DotlockCall
  | Create
  | Stat
  | SystemTime
  | RemoveStale
  | Return
  deriving DecidableEq, Repr

/-- What a call about a lock file is answered with. -/
abbrev DotlockCall.Answer : DotlockCall → Type
  | .Create => Except Errno Unit
  | .Stat => Except Errno FileStat
  | .SystemTime => Option Nat
  | .RemoveStale => Except Errno Unit
  | .Return => Except Errno Unit

/-- Where the acquisition of a lock file has come to. -/
inductive DotlockPhase
  | Starting
  | Checking (started : Nat)
  | Opening (started : Nat)
  | Inspecting (started : Nat)
  | Dating (started : Nat) (modified : Int)
  | Removing (started : Nat)
  | Waiting (started : Nat) (wait : Wait)
  | Holding
  | Dropped
  | TimedOut (started : Nat)
  | Failed (error : IoError)
  | Killed
  deriving DecidableEq, Repr

namespace DotlockPhase

/-- The phase behind a step of the wait. -/
def afterWait (started : Nat) : WaitStep → DotlockPhase
  | .Going wait => .Waiting started wait
  | .Retry => .Checking started
  | .TimedOut => .TimedOut started
  | .Failed error => .Failed error

end DotlockPhase

/-- Directories and large files are never taken for a leftover. -/
def maybeStale (stat : FileStat) : Bool :=
  !(stat.directory || stat.size < 0 || maxStaleDotlockSize < stat.size.toNat)

/-- The lock file is older than the policy waits. -/
def isStale (policy : Policy) (modified : Int) (now : Nat) : Bool :=
  policy.timeout / nanosPerSecond < now - modified.toNat

/-- The clock shows a time before the epoch. -/
def beforeEpoch : IoError := ⟨.Other 0, false, "system time precedes the Unix epoch"⟩

/-- `acquire_dotlock`, with `stale_dotlock` in the phases `Inspecting` and `Dating`, and the drop of a
lock that is held. -/
def acquireDotlock (policy : Policy) :
    DotlockPhase → Next DotlockCall DotlockCall.Answer DotlockPhase
  | .Starting => .ask .Instant fun now => .Checking now
  | .Checking started => .ask .CheckIo fun
    | .error error => .Failed error
    | .ok () => .Opening started
  | .Opening started => .ask (.Lock .Create) fun
    | .ok () => .Holding
    | .error errno =>
      if errno.code = .Exist then
        if policy.timeout = 0 then .Waiting started .Measuring else .Inspecting started
      else .Failed errno.ioError
  | .Inspecting started => .ask (.Lock .Stat) fun
    | .error errno => .Failed errno.ioError
    | .ok stat => if maybeStale stat then .Dating started stat.modified else .Waiting started .Measuring
  | .Dating started modified => .ask (.Lock .SystemTime) fun
    | none => .Failed beforeEpoch
    | some now => if isStale policy modified now then .Removing started else .Waiting started .Measuring
  -- The entry may be another one by now: `unlinkat` goes by the name.
  | .Removing started => .ask (.Lock .RemoveStale) fun
    | .error errno => .Failed errno.ioError
    | .ok () => .Checking started
  | .Waiting started wait => (waitForRetry policy started wait).map (.afterWait started)
  | .Holding => .ask (.Lock .Return) fun _ => .Dropped
  | .Dropped | .TimedOut _ | .Failed _ | .Killed => .ended

/-- The directory with the lock file and the clocks. `removed` counts the files that were removed as
leftovers, `forsaken` the locks whose file did not go with their holder. -/
structure Directory where
  entry : Option FileStat
  monotonic : Nat
  systemTime : Option Nat
  removed : Nat
  forsaken : Nat
  deriving DecidableEq, Repr

namespace Directory

/-- The lock file is gone. -/
def withoutEntry (directory : Directory) : Directory := { directory with entry := none }

/-- The lock file is removed as a stale one. -/
def removeStale (directory : Directory) : Directory :=
  { directory with entry := none, removed := directory.removed + 1 }

/-- A holder ends, and its file stays behind. -/
def forsake (directory : Directory) : Directory :=
  { directory with forsaken := directory.forsaken + 1 }

/-- The only call that creates the file fails if there is one, with `EEXIST` for no other reason; a
directory is not unlinked. Beyond that any call may fail. -/
def Answers (directory : Directory) :
    (call : Call DotlockCall) → call.Answer DotlockCall.Answer → Directory → Prop
  | .CheckIo, _, after => after = directory
  | .Instant, now, after => now = directory.monotonic ∧ after = directory
  | .Sleep _, _, after => after = directory
  | .Lock .Create, .ok (), after => directory.entry = none ∧
    ∃ stat : FileStat, stat.directory = false ∧ after = { directory with entry := some stat }
  | .Lock .Create, .error errno, after =>
    (errno.code = .Exist → directory.entry.isSome) ∧ after = directory
  | .Lock .Stat, .ok stat, after => directory.entry = some stat ∧ after = directory
  | .Lock .Stat, .error _, after => after = directory
  | .Lock .SystemTime, now, after => now = directory.systemTime ∧ after = directory
  | .Lock .RemoveStale, .ok (), after =>
    (∃ stat, directory.entry = some stat ∧ stat.directory = false) ∧ after = directory.removeStale
  | .Lock .RemoveStale, .error _, after => after = directory
  | .Lock .Return, .ok (), after =>
    (∃ stat, directory.entry = some stat ∧ stat.directory = false) ∧ after = directory.withoutEntry
  | .Lock .Return, .error _, after => after = directory.forsake

/-- Time passes, and the file may be written to or touched. The clock of the system may be set. -/
structure Passes (before after : Directory) : Prop where
  monotonic : before.monotonic ≤ after.monotonic
  entry : after.entry.isSome = before.entry.isSome
  removed : after.removed = before.removed
  forsaken : after.forsaken = before.forsaken

end Directory

/-- An acquisition makes its next call, or its process is killed. -/
inductive Acts (policy : Policy) :
    Directory → DotlockPhase → Directory → DotlockPhase → Prop
  | call {directory after : Directory} {phase : DotlockPhase} {call : Call DotlockCall}
    {resume : call.Answer DotlockCall.Answer → DotlockPhase} {answer : call.Answer DotlockCall.Answer}
    (hnext : acquireDotlock policy phase = .ask call resume)
    (hanswer : directory.Answers call answer after) : Acts policy directory phase after (resume answer)
  | killed {directory : Directory} {phase : DotlockPhase} :
    Acts policy directory phase (if phase = .Holding then directory.forsake else directory) .Killed

variable {ι : Type}

/-- Any number of acquisitions of one lock file, by whatever processes. -/
def system (policies : ι → Policy) : Interleaving.System ι Directory DotlockPhase where
  act i := Acts (policies i)
  surroundings := Directory.Passes

/-- Acquisitions of one lock file. -/
abbrev Acquisitions (ι : Type) := Interleaving.Configuration ι Directory DotlockPhase

/-- Nothing has been asked for yet. A file that is there already has no holder. -/
structure Fresh (c : Acquisitions ι) : Prop where
  starting : ∀ i, c.own i = .Starting
  removed : c.shared.removed = 0
  forsaken : c.shared.forsaken = c.shared.entry.toList.length

/-- An acquisition that compares the age it has read with the clock does not find the file stale. -/
def Prompt (policy : Policy) (directory : Directory) (phase phase' : DotlockPhase) : Prop :=
  ∀ started modified now, phase = .Dating started modified → phase' ≠ .Killed →
    directory.systemTime = some now → isStale policy modified now = false

/-- The acquisitions that compare the ages of the files with the clock in time. -/
def promptSystem (policies : ι → Policy) : Interleaving.System ι Directory DotlockPhase where
  act i directory phase after phase' :=
    Acts (policies i) directory phase after phase' ∧ Prompt (policies i) directory phase phase'
  surroundings := Directory.Passes

end LocalLock

end ProcmailRs
