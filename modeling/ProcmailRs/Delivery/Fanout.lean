import ProcmailRs.Delivery.Failure
import ProcmailRs.Lib.Outcome
import ProcmailRs.Message

/-!
# Fan-out to several destinations

A message is written to a list of sinks that keep it private. When it has been accepted as a whole the
sinks are committed one after another; before that any failure aborts them all. Sinks for destinations
that are known only later are filled from the accepted message.

What a call of a sink does is up to an environment with a state of its own. The log says which sink was
written, committed, aborted or dropped.
-/

namespace ProcmailRs

open Outcome

/-- How many sinks a fanout may have. -/
def maxPendingSinks : Nat := 256

/-- Sinks are numbered in the order in which they are opened. -/
abbrev SinkId := Nat

/-- Why a sink was not committed, and whether its delivery is there all the same. -/
structure SinkCommitError where
  source : IoError
  published : Option PublishedDelivery
  operation : DeliveryOperation
  deriving DecidableEq, Repr

namespace SinkCommitError

/-- The error as the failure of a delivery. -/
def failure (error : SinkCommitError) : DeliveryFailure :=
  DeliveryFailure.fromIo error.operation error.source error.published.isSome

/-- Whether the delivery may be tried again. -/
def failureClass (error : SinkCommitError) : DeliveryFailureClass := error.failure.failureClass

end SinkCommitError

/-- What happens to a sink. -/
inductive SinkEvent
  | Wrote (sink : SinkId) (bytes : Bytes)
  | WriteFailed (sink : SinkId)
  | StagingFailed
  | Committed (sink : SinkId) (result : Except SinkCommitError PublishedDelivery)
  | Aborted (sink : SinkId)
  | Dropped (sink : SinkId)

/-- An error of `write_all`, which tries an interrupted write again. -/
abbrev WriteAllError := { error : IoError // error.kind ≠ .Interrupted }

/-- What the calls of sinks and of the staging file do. A write that fails has taken so many bytes. -/
structure SinkFaults (ω : Type) where
  write : SinkId → Bytes → ω → Option (WriteAllError × Nat) × ω
  commit : SinkId → ω → Except SinkCommitError PublishedDelivery × ω
  abort : SinkId → ω → Option IoError × ω
  stage : Bytes → ω → Option WriteAllError × ω

/-- The world outside, the number of sinks that have been opened, and what has happened to them. -/
structure FanoutState (ω : Type) where
  world : ω
  opened : Nat
  log : List SinkEvent

/-- A part of a fanout. -/
abbrev Fan (ω ε α : Type) := EStateM ε (FanoutState ω) α

/-- A fan-out holds no more sinks than the limit allows. -/
structure PendingFanout where
  sinks : List SinkId
  bounded : sinks.length ≤ maxPendingSinks

/-- The sinks that have all taken the message. -/
structure ValidatedFanout where
  sinks : List SinkId
  bounded : sinks.length ≤ maxPendingSinks

/-- `TooManySinks`. -/
structure FanoutLimitError where
  count : Nat
  limit : Nat
  deriving DecidableEq, Repr

/-- Why the message did not reach every sink. -/
structure StreamDeliveryError where
  source : MessageReadError
  abortFailures : Nat
  deliveryFailure : Option (Nat × DeliveryFailure)
  stagingFailure : Option DeliveryFailure
  deriving DecidableEq, Repr

/-- Why sinks could not be added. -/
structure AppendError where
  source : IoError
  abortFailures : Nat
  deliveryFailure : Option (Nat × DeliveryFailure)
  deriving DecidableEq, Repr

/-- What was published. -/
structure CommitReport where
  published : List PublishedDelivery
  deriving DecidableEq, Repr

/-- The sink that was not committed, what was published before it, and how many of the others could not
be aborted. -/
structure CommitError where
  source : SinkCommitError
  published : List PublishedDelivery
  abortFailures : Nat
  failedIndex : Nat
  deriving DecidableEq, Repr

variable {ω : Type}

/-- Adds what has happened. -/
def logged {ε : Type} (events : List SinkEvent) : Fan ω ε Unit :=
  modify fun state => { state with log := state.log ++ events }

/-- The next sinks, as many as asked for. -/
def openSinks {ε : Type} (count : Nat) : Fan ω ε (List SinkId) := do
  let opened := (← get).opened
  modify fun state => { state with opened := opened + count }
  return List.range' opened count

/-- A write that has failed at the sink of this index. -/
structure SinkWriteError where
  index : Nat
  error : IoError
  deriving DecidableEq, Repr

/-- `write_failure`. -/
def SinkWriteError.deliveryFailure (failed : SinkWriteError) : Nat × DeliveryFailure :=
  (failed.index, DeliveryFailure.fromIo .Write failed.error false)

/-- A failure while a message is read and written at the same time. -/
inductive StreamFailure
  | Read (error : MessageReadError)
  | Sink (failed : SinkWriteError)
  | Staging (error : IoError)

namespace StreamFailure

/-- The error of the reader under which the failure is reported. -/
def source : StreamFailure → MessageReadError
  | Read error => error
  | Sink failed => .Io failed.error.message
  | Staging error => .Io error.message

/-- The failure of the sink, if it was one. -/
def deliveryFailure : StreamFailure → Option (Nat × DeliveryFailure)
  | Sink failed => some failed.deliveryFailure
  | _ => none

/-- The failure of the staging file, if it was that. -/
def stagingFailure : StreamFailure → Option DeliveryFailure
  | Staging error => some (DeliveryFailure.fromIo .Write error false)
  | _ => none

end StreamFailure

section Calls

variable (faults : SinkFaults ω)

/-- `write_all` on one sink. -/
def writeSink (sink : SinkId) (bytes : Bytes) : Fan ω IoError Unit := fun state =>
  match faults.write sink bytes state.world with
  | (none, world) => .ok () { state with world := world, log := state.log ++ [.Wrote sink bytes] }
  | (some (error, written), world) =>
    .error error.1
      { state with
        world := world
        log := state.log ++ [.Wrote sink (bytes.take written), .WriteFailed sink] }

/-- One sink is committed. -/
def commitSink (sink : SinkId) : Fan ω SinkCommitError PublishedDelivery := fun state =>
  let (result, world) := faults.commit sink state.world
  let state := { state with world := world, log := state.log ++ [.Committed sink result] }
  match result with
  | .ok delivery => .ok delivery state
  | .error error => .error error state

/-- Whether aborting the sink has failed. -/
def abortSink {ε : Type} (sink : SinkId) : Fan ω ε Bool := fun state =>
  let (error, world) := faults.abort sink state.world
  .ok error.isSome { state with world := world, log := state.log ++ [.Aborted sink] }

/-- Bytes are written to the staging file. -/
def stageBytes (bytes : Bytes) : Fan ω IoError Unit := fun state =>
  match faults.stage bytes state.world with
  | (none, world) => .ok () { state with world := world }
  | (some error, world) =>
    .error error.1 { state with world := world, log := state.log ++ [.StagingFailed] }

/-- Aborts the sinks one after another; the failures are counted. -/
def abortSinks {ε : Type} : List SinkId → Fan ω ε Nat
  | [] => return 0
  | sink :: rest => do
    let failed ← abortSink faults sink
    return (← abortSinks rest) + failed.toNat

/-- `abort_all`: the last sink is aborted first. -/
def abortAll {ε : Type} (sinks : List SinkId) : Fan ω ε Nat := abortSinks faults sinks.reverse

/-! ### Pending sinks -/

namespace PendingFanout

/-- Sinks beyond the limit are dropped. -/
def new (sinks : List SinkId) : Fan ω FanoutLimitError PendingFanout :=
  if h : sinks.length ≤ maxPendingSinks then pure ⟨sinks, h⟩
  else do
    logged (sinks.map .Dropped)
    throw ⟨sinks.length, maxPendingSinks⟩

/-- The bytes go to every sink in turn, up to the first that fails. -/
def writeSinks (bytes : Bytes) : Nat → List SinkId → Fan ω SinkWriteError Unit
  | _, [] => return ()
  | index, sink :: rest => do
    match ← attempt (writeSink faults sink bytes) with
    | .error error => throw ⟨index, error⟩
    | .ok () => writeSinks bytes (index + 1) rest

/-- `write_all` on the fan-out. `write` takes everything at once, and it is not called for nothing. -/
def writeAll (fanout : PendingFanout) (bytes : Bytes) : Fan ω SinkWriteError Unit :=
  if bytes.isEmpty then pure () else writeSinks faults bytes 0 fanout.sinks

/-- The fan-out as the writer of a stream. -/
def write (fanout : PendingFanout) (bytes : Bytes) : Fan ω StreamFailure Unit := do
  match ← attempt (fanout.writeAll faults bytes) with
  | .error failed => throw (.Sink failed)
  | .ok () => return ()

/-- `TeeWriter`: the sinks first, then the staging file. -/
def tee (fanout : PendingFanout) (bytes : Bytes) : Fan ω StreamFailure Unit :=
  if bytes.isEmpty then pure ()
  else do
    fanout.write faults bytes
    match ← attempt (stageBytes faults bytes) with
    | .error error => throw (.Staging error)
    | .ok () => return ()

end PendingFanout

end Calls

/-! ### Reading -/

section Reading

variable (write : Bytes → Fan ω StreamFailure Unit)

/-- The sizes of the message with the next piece of its body, within the limits. -/
def nextSizes (limits : MessageLimits) (bodySize totalSize taken : Nat) :
    Except MessageReadError (Nat × Nat) := do
  let nextBodySize ← MessageReadError.addChecked bodySize taken limits.bodySize .Body
  let nextTotalSize ← MessageReadError.addChecked totalSize taken limits.messageSize .Message
  checkSize nextBodySize limits.bodySize .Body
  checkSize nextTotalSize limits.messageSize .Message
  return (nextBodySize, nextTotalSize)

/-- `read_body` with a stream. The writer keeps what it has done when the message is refused. -/
def readBodyInto (limits : MessageLimits) (retain : Bool) (bodySize : Nat) (raw : Bytes)
    (total : Nat) : Reader → Fan ω StreamFailure (Bytes × Nat)
  | .eof => return (raw, total)
  | .failed error => throw (.Read (.Io error))
  | .chunk byte rest next =>
    let available := byte :: rest
    match nextSizes limits bodySize total available.length with
    | .error error => throw (.Read error)
    | .ok (nextBodySize, nextTotalSize) => do
      write available
      readBodyInto limits retain nextBodySize (if retain then raw ++ available else raw)
        nextTotalSize next

/-- The header and then the body are written as they are read. -/
def MessageHead.streamInto (head : MessageHead) (reader : Reader) :
    Fan ω StreamFailure StreamedMessage := do
  let (raw, matching, limits) := head.intoSerializedParts
  write raw
  let (_, total) ← readBodyInto write limits false 0 [] raw.length reader
  return ⟨raw, matching, total⟩

/-- The header and then the body are written as they are read, and the body is kept. -/
def MessageHead.readBodyInto (head : MessageHead) (reader : Reader) :
    Fan ω StreamFailure Message := do
  let (raw, matching, limits) := head.intoSerializedParts
  write raw
  let (bytes, _) ← ProcmailRs.readBodyInto write limits true 0 raw raw.length reader
  return ⟨raw, bytes.drop raw.length, matching⟩

end Reading

/-! ### The stages of a fan-out -/

section Stages

variable (faults : SinkFaults ω)

namespace PendingFanout

/-- The sinks are validated when the message has been read; otherwise they are aborted. -/
def validate {α : Type} (fanout : PendingFanout) (reading : Fan ω StreamFailure α) :
    Fan ω StreamDeliveryError (ValidatedFanout × α) := do
  match ← attempt reading with
  | .ok message => return (⟨fanout.sinks, fanout.bounded⟩, message)
  | .error failure =>
    let abortFailures ← abortAll faults fanout.sinks
    throw ⟨failure.source, abortFailures, failure.deliveryFailure, failure.stagingFailure⟩

/-- The message is written to every sink and not kept. -/
def stream (fanout : PendingFanout) (head : MessageHead) (reader : Reader) :
    Fan ω StreamDeliveryError (ValidatedFanout × StreamedMessage) :=
  fanout.validate faults (head.streamInto (fanout.write faults) reader)

/-- The message is written to every sink and kept. -/
def buffer (fanout : PendingFanout) (head : MessageHead) (reader : Reader) :
    Fan ω StreamDeliveryError (ValidatedFanout × Message) :=
  fanout.validate faults (head.readBodyInto (fanout.write faults) reader)

/-- The message is written to every sink and to the staging file. -/
def stage (fanout : PendingFanout) (head : MessageHead) (reader : Reader) :
    Fan ω StreamDeliveryError (ValidatedFanout × StreamedMessage) :=
  fanout.validate faults (head.streamInto (fanout.tee faults) reader)

end PendingFanout

namespace ValidatedFanout

/-- The error of a fan-out with too many sinks. -/
def tooManySinks (count : Nat) : IoError :=
  ⟨.InvalidInput, false,
    s!"delivery fan-out has {count} sinks, limit is {maxPendingSinks}"⟩

/-- More sinks take the message; if one of them fails, all sinks are aborted. -/
def appendBytes (validated : ValidatedFanout) (pending : PendingFanout) (message : Bytes) :
    Fan ω AppendError ValidatedFanout :=
  if h : (validated.sinks ++ pending.sinks).length ≤ maxPendingSinks then do
    match ← attempt (pending.writeAll faults message) with
    | .ok () => return ⟨validated.sinks ++ pending.sinks, h⟩
    | .error failed =>
      let pendingFailures ← abortAll faults pending.sinks
      let failures ← abortAll faults validated.sinks
      throw ⟨failed.error, pendingFailures + failures, some failed.deliveryFailure⟩
  else do
    let pendingFailures ← abortAll faults pending.sinks
    let failures ← abortAll faults validated.sinks
    throw ⟨tooManySinks (validated.sinks ++ pending.sinks).length, pendingFailures + failures, none⟩

/-- The loop of `commit`: the sinks are committed in turn, and behind one that fails the others are
aborted. -/
def commitSinks (published : List PublishedDelivery) :
    List SinkId → Fan ω CommitError CommitReport
  | [] => return ⟨published⟩
  | sink :: remaining => do
    match ← attempt (commitSink faults sink) with
    | .ok delivery => commitSinks (published ++ [delivery]) remaining
    | .error source =>
      let abortFailures ← abortSinks faults remaining
      throw ⟨source, published ++ source.published.toList, abortFailures, published.length⟩

/-- The sinks are committed in order. -/
def commit (validated : ValidatedFanout) : Fan ω CommitError CommitReport :=
  commitSinks faults [] validated.sinks

/-- `Drop`. -/
def drop {ε : Type} (validated : ValidatedFanout) : Fan ω ε Unit := do
  let _ ← abortAll faults validated.sinks

end ValidatedFanout

/-! ### A whole use -/

/-- The three ways to read a message. -/
inductive Intake
  | Stream
  | Buffer
  | Stage
  deriving DecidableEq, Repr

/-- How a fan-out is used: the number of sinks it starts with, how the message is taken in, the numbers of
sinks that are appended later, and whether it is committed in the end. -/
structure FanoutUse where
  first : Nat
  intake : Intake
  appended : List Nat
  commits : Bool
  deriving DecidableEq, Repr

/-- How a fanout ends. -/
inductive FanoutOutcome
  | Refused (error : FanoutLimitError)
  | StreamFailed (error : StreamDeliveryError)
  | AppendFailed (error : AppendError)
  | Dropped
  | Committed (report : CommitReport)
  | CommitFailed (error : CommitError)

/-- The message is read in one of the three ways. -/
def takeIn (pending : PendingFanout) (intake : Intake) (head : MessageHead) (reader : Reader) :
    Fan ω StreamDeliveryError ValidatedFanout :=
  match intake with
  | .Stream => do return (← pending.stream faults head reader).1
  | .Buffer => do return (← pending.buffer faults head reader).1
  | .Stage => do return (← pending.stage faults head reader).1

/-- Sinks that are opened later. When they cannot be added the caller gives up the fan-out as well. -/
def appendSinks (validated : ValidatedFanout) (message : Bytes) (count : Nat) :
    Fan ω FanoutOutcome ValidatedFanout := do
  match ← attempt (openSinks count >>= PendingFanout.new) with
  | .error error =>
    validated.drop faults
    throw (.Refused error)
  | .ok pending =>
    match ← attempt (validated.appendBytes faults pending message) with
    | .error error => throw (.AppendFailed error)
    | .ok validated => return validated

/-- Sinks are added in several rounds. -/
def appendAll (message : Bytes) : ValidatedFanout → List Nat → Fan ω FanoutOutcome ValidatedFanout
  | validated, [] => return validated
  | validated, count :: rest => do
    let validated ← appendSinks faults validated message count
    appendAll message validated rest

/-- The sinks are committed, or dropped. -/
def settle (validated : ValidatedFanout) (commits : Bool) : Fan ω FanoutOutcome FanoutOutcome :=
  if commits then do
    match ← attempt (validated.commit faults) with
    | .ok report => return .Committed report
    | .error error => throw (.CommitFailed error)
  else do
    validated.drop faults
    return .Dropped

/-- One use of a fan-out for the message of a head and a reader. -/
def useFanout (use : FanoutUse) (head : MessageHead) (reader : Reader) :
    Fan ω FanoutOutcome FanoutOutcome := do
  match ← attempt (openSinks use.first >>= PendingFanout.new) with
  | .error error => throw (.Refused error)
  | .ok pending =>
    match ← attempt (takeIn faults pending use.intake head reader) with
    | .error error => throw (.StreamFailed error)
    | .ok validated =>
      let validated ← appendAll faults (head.asBytes ++ reader.content) validated use.appended
      settle faults validated use.commits

end Stages

end ProcmailRs
