import ProcmailRs.Delivery.Failure
import ProcmailRs.Delivery.Mbox
import ProcmailRs.Lib.Outcome

/-!
# Appending to a locked mailbox

`LockedMbox::append` writes one record at the end of the file. Until the lock is given up every failure
cuts the file back to its old length; an error says whether the record is visible, and whether cutting
the file back has failed.

Every operation of the system may fail whenever it is called: whether it does is up to an environment
with a state of its own.
-/

namespace ProcmailRs

namespace Mbox

open Outcome

/-- An open file: its contents and the offset at which it is written. -/
structure OpenFile where
  contents : Bytes
  offset : Nat
  deriving DecidableEq, Repr

namespace OpenFile

/-- The offset at the end of the file. -/
def seekEnd (file : OpenFile) : OpenFile := { file with offset := file.contents.length }

/-- Bytes written over what is there; a gap before the offset is filled with zeros. -/
def write (file : OpenFile) (bytes : Bytes) : OpenFile :=
  { contents := file.contents.take file.offset ++
      List.replicate (file.offset - file.contents.length) 0 ++ bytes ++
      file.contents.drop (file.offset + bytes.length)
    offset := file.offset + bytes.length }

/-- `ftruncate`: a file that is shorter is extended with zeros. -/
def truncate (file : OpenFile) (length : Nat) : OpenFile :=
  { file with
    contents := file.contents.take length ++ List.replicate (length - file.contents.length) 0 }

end OpenFile

/-- What `sync` is called on. -/
inductive SyncTarget
  | File
  | Parent
  deriving DecidableEq, Repr

/-- Which calls fail, with what error. A write that fails has written so many bytes. -/
structure MboxFaults (ω : Type) where
  seek : ω → Option IoError × ω
  write : ω → Option (IoError × Nat) × ω
  sync : SyncTarget → ω → Option IoError × ω
  truncate : ω → Option IoError × ω
  unlock : ω → Option IoError × ω

/-- Why an append has failed, whether the file could be cut back, and whether the record is there all the
same. -/
structure MboxAppendError where
  source : IoError
  rollback : Option IoError
  published : Bool
  operation : DeliveryOperation
  deriving DecidableEq, Repr

namespace MboxAppendError

/-- The record is not there. -/
def beforePublication (source : IoError) (rollback : Option IoError)
    (operation : DeliveryOperation) : MboxAppendError :=
  ⟨source, rollback, false, operation⟩

/-- The record is there, but the lock was not given back. -/
def afterPublication (source : IoError) : MboxAppendError := ⟨source, none, true, .Unlock⟩

/-- Whether the delivery may be tried again. -/
def failureClass (error : MboxAppendError) : DeliveryFailureClass :=
  if error.rollback.isSome then .Internal else DeliveryFailureClass.fromIoError error.source

/-- The file could not be cut back. -/
def rollbackFailed (error : MboxAppendError) : Bool := error.rollback.isSome

/-- The error as the failure of a delivery. -/
def failure (error : MboxAppendError) : DeliveryFailure :=
  { DeliveryFailure.fromIo error.operation error.source error.published with failureClass := error.failureClass }

end MboxAppendError

variable {ω : Type}

/-- An operation on the open file. -/
abbrev FileOperation (ω ε α : Type) := EStateM ε (OpenFile × ω) α

/-- A call that changes the file, unless it fails. -/
def call (fault : ω → Option IoError × ω) (change : OpenFile → OpenFile) :
    FileOperation ω IoError Unit := fun (file, world) =>
  match fault world with
  | (none, world) => .ok () (change file, world)
  | (some error, world) => .error error (file, world)

section Operations

variable (faults : MboxFaults ω)

/-- The length of the file, at whose end the offset is now. -/
def seekEnd : FileOperation ω IoError Nat := do
  call faults.seek OpenFile.seekEnd
  return (← get).1.contents.length

/-- Bytes are written at the offset; a write that fails may have written some of them. -/
def writeBytes (bytes : Bytes) : FileOperation ω IoError Unit := fun (file, world) =>
  match faults.write world with
  | (none, world) => .ok () (file.write bytes, world)
  | (some (error, written), world) => .error error (file.write (bytes.take written), world)

/-- The file or its directory is synced. -/
def sync (target : SyncTarget) : FileOperation ω IoError Unit := call (faults.sync target) id

/-- The file is cut back. -/
def truncate (length : Nat) : FileOperation ω IoError Unit :=
  call faults.truncate fun file => file.truncate length

/-- The lock is given back. -/
def unlock : FileOperation ω IoError Unit := call faults.unlock id

/-- `rollback_with`: the file is cut back to its length before. -/
def rollbackWith (originalLen : Nat) (durability : Durability) : FileOperation ω IoError Unit := do
  truncate faults originalLen
  let _ ← seekEnd faults
  if durability ≠ .None then sync faults .File

/-- The record is taken back, and the error says whether that has failed. -/
def failBeforePublication (originalLen : Nat) (durability : Durability) (source : IoError)
    (operation : DeliveryOperation) : FileOperation ω MboxAppendError PublishedDelivery := do
  let rollback ← attempt (rollbackWith faults originalLen durability)
  let _ ← attempt (unlock faults)
  throw (.beforePublication source
    (match rollback with
      | .ok () => none
      | .error error => some error) operation)

/-- The record is written and, as far as the durability asks for it, on the disk. -/
def writeDurably (durability : Durability) (write : FileOperation ω IoError Unit) :
    FileOperation ω (IoError × DeliveryOperation) Unit := do
  match ← attempt write with
  | .error error => throw (error, .Write)
  | .ok () =>
    match durability with
    | .None => return ()
    | .File | .Full =>
      match ← attempt (sync faults .File) with
      | .error error => throw (error, .SyncFile)
      | .ok () => return ()

/-- The directory is synced if the durability asks for it. -/
def syncParent (durability : Durability) : FileOperation ω IoError Unit :=
  if durability = .Full then sync faults .Parent else pure ()

/-- The lock is given up; from here on the record is visible. -/
def publish (path : Bytes) : FileOperation ω MboxAppendError PublishedDelivery := do
  match ← attempt (unlock faults) with
  | .error error => throw (.afterPublication error)
  | .ok () => return ⟨path⟩

/-- `append_with_operations`. -/
def appendWithOperations (path : Bytes) (durability : Durability)
    (write : FileOperation ω IoError Unit) : FileOperation ω MboxAppendError PublishedDelivery := do
  match ← attempt (seekEnd faults) with
  | .error error => throw (.beforePublication error none .Write)
  | .ok originalLen =>
    match ← attempt (writeDurably faults durability write) with
    | .error (source, operation) =>
      failBeforePublication faults originalLen durability source operation
    | .ok () =>
      match ← attempt (syncParent faults durability) with
      | .error source => failBeforePublication faults originalLen durability source .SyncDirectory
      | .ok () => publish faults path

/-- `append`: the record of a message, under a postmark that may not be available. -/
def append (path : Bytes) (durability : Durability) (postmark : Except IoError Postmark)
    (message : MessageBytes) (ending : OutputEnding) :
    FileOperation ω MboxAppendError PublishedDelivery :=
  appendWithOperations faults path durability
    (match postmark with
    | .ok postmark => writeBytes faults (writeRecord postmark message ending)
    | .error error => throw error)

end Operations

end Mbox

end ProcmailRs
