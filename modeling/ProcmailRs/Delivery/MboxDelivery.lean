import ProcmailRs.Delivery.LocalLock
import ProcmailRs.Delivery.MboxAppend

/-!
# Deliveries to one mailbox

Every delivery opens the mailbox, waits for the kernel's lock on the file and appends its record, one
call of the system after the other. The deliveries share the contents of the file; each has an offset of
its own. A delivery that is killed gives its lock up, and nobody cuts the file back.
-/

namespace ProcmailRs

namespace Mbox

open LocalLock

/-- What `MboxFile::lock` and `LockedMbox::append` are given. -/
structure MailboxDelivery where
  policy : Policy
  path : Bytes
  message : MessageBytes
  ending : OutputEnding
  durability : Durability

/-- `Postmark` is `Postmark::generated(SystemTime::now())`; `Close` drops the file. -/
inductive MboxCall
  | TryLock
  | Seek
  | Postmark
  | Write (bytes : Bytes)
  | SyncFile
  | SyncParent
  | Truncate (length : Nat)
  | Unlock
  | Close

/-- What a call is answered with. -/
abbrev MboxCall.Answer : MboxCall → Type
  | .TryLock => Except Errno Unit
  | .Seek => Except IoError Nat
  | .Postmark => Except IoError Mbox.Postmark
  | .Write _ => Except IoError Nat
  | .SyncFile => Except IoError Unit
  | .SyncParent => Except IoError Unit
  | .Truncate _ => Except IoError Unit
  | .Unlock => Except IoError Unit
  | .Close => Unit

/-- Where a delivery has come to. -/
inductive MboxPhase
  | Locking (phase : FlockPhase)
  | Seeking
  | Stamping (originalLen : Nat)
  | Writing (originalLen : Nat) (rest : Bytes)
  | SyncingFile (originalLen : Nat)
  | SyncingParent (originalLen : Nat)
  | Truncating (originalLen : Nat) (source : IoError) (operation : DeliveryOperation)
  | Reseeking (source : IoError) (operation : DeliveryOperation)
  | Resyncing (source : IoError) (operation : DeliveryOperation)
  | Unlocking (error : MboxAppendError)
  | Publishing
  | Closing (result : Except MboxAppendError PublishedDelivery)
  | Ended (result : Except MboxAppendError PublishedDelivery)
  | NotLocked
  | Killed

namespace MboxPhase

/-- The lock is taken, or will not be. -/
def afterLocking : FlockPhase → MboxPhase
  | .Locked => .Seeking
  | .TimedOut _ | .Failed _ => .NotLocked
  | phase => .Locking phase

end MboxPhase

namespace MailboxDelivery

variable (delivery : MailboxDelivery)

/-- The record of the message. -/
def record (postmark : Postmark) : Bytes := writeRecord postmark delivery.message delivery.ending

/-- The record is written; as far as the durability asks for it, the file is synced. -/
def written (originalLen : Nat) : MboxPhase :=
  match delivery.durability with
  | .None => .Publishing
  | .File | .Full => .SyncingFile originalLen

/-- The rest of the record is written, or nothing is left. -/
def writing (originalLen : Nat) (rest : Bytes) : MboxPhase :=
  if rest.isEmpty then delivery.written originalLen else .Writing originalLen rest

/-- The file is synced; the directory is next if the durability asks for it. -/
def synced (originalLen : Nat) : MboxPhase :=
  if delivery.durability = .Full then .SyncingParent originalLen else .Publishing

/-- The file is cut back; it is synced again if the durability asks for it. -/
def reseeked (source : IoError) (operation : DeliveryOperation) : MboxPhase :=
  if delivery.durability ≠ .None then .Resyncing source operation
  else .Unlocking (.beforePublication source none operation)

end MailboxDelivery

/-- What `write_all` makes of a write that has written nothing. -/
def writeZero : IoError := ⟨.WriteZero, false, "failed to write whole buffer"⟩

/-- `MboxFile::lock` and `append_with_operations`. A record is written in as many pieces as the system
likes; the pieces of `write_record` are cuts among others. -/
def deliver (delivery : MailboxDelivery) : MboxPhase → Next MboxCall MboxCall.Answer MboxPhase
  | .Locking phase => (acquireFlockFd .TryLock id delivery.policy phase).map .afterLocking
  | .Seeking => .ask (.Lock .Seek) fun
    | .error error => .Closing (.error (.beforePublication error none .Write))
    | .ok originalLen => .Stamping originalLen
  | .Stamping originalLen => .ask (.Lock .Postmark) fun
    | .error error => .Truncating originalLen error .Write
    | .ok postmark => delivery.writing originalLen (delivery.record postmark)
  | .Writing originalLen rest => .ask (.Lock (.Write rest)) fun
    | .error error =>
      if error.kind = .Interrupted then .Writing originalLen rest
      else .Truncating originalLen error .Write
    | .ok written =>
      if written = 0 then .Truncating originalLen writeZero .Write
      else delivery.writing originalLen (rest.drop written)
  | .SyncingFile originalLen => .ask (.Lock .SyncFile) fun
    | .error error => .Truncating originalLen error .SyncFile
    | .ok () => delivery.synced originalLen
  | .SyncingParent originalLen => .ask (.Lock .SyncParent) fun
    | .error error => .Truncating originalLen error .SyncDirectory
    | .ok () => .Publishing
  | .Truncating originalLen source operation => .ask (.Lock (.Truncate originalLen)) fun
    | .error error => .Unlocking (.beforePublication source (some error) operation)
    | .ok () => .Reseeking source operation
  | .Reseeking source operation => .ask (.Lock .Seek) fun
    | .error error => .Unlocking (.beforePublication source (some error) operation)
    | .ok _ => delivery.reseeked source operation
  | .Resyncing source operation => .ask (.Lock .SyncFile) fun
    | .error error => .Unlocking (.beforePublication source (some error) operation)
    | .ok () => .Unlocking (.beforePublication source none operation)
  | .Unlocking error => .ask (.Lock .Unlock) fun _ => .Closing (.error error)
  | .Publishing => .ask (.Lock .Unlock) fun
    | .error error => .Closing (.error (.afterPublication error))
    | .ok () => .Closing (.ok ⟨delivery.path⟩)
  | .Closing result => .ask (.Lock .Close) fun () => .Ended result
  | .Ended _ | .NotLocked | .Killed => .ended

/-- The file, and the delivery that has the lock. `settled` are the deliveries that have given it up, in
that order, each with what stood behind the end of the file as it had found it. -/
structure Mailbox (ι : Type) where
  original : Bytes
  contents : Bytes
  owner : Option ι
  settled : List (ι × Bytes)
  monotonic : Nat

namespace Mailbox

variable {ι : Type}

/-- The contents as far as no delivery is at work on them. -/
def settledContents (mailbox : Mailbox ι) : Bytes :=
  mailbox.original ++ (mailbox.settled.map Prod.snd).flatten

/-- Other contents. -/
def withContents (mailbox : Mailbox ι) (contents : Bytes) : Mailbox ι :=
  { mailbox with contents := contents }

/-- The delivery that holds the lock. -/
def lockedBy (mailbox : Mailbox ι) (i : ι) : Mailbox ι := { mailbox with owner := some i }

variable [DecidableEq ι]

/-- The lock is given up, by its owner alone. -/
def release (mailbox : Mailbox ι) (i : ι) : Mailbox ι :=
  if mailbox.owner = some i then
    { mailbox with
      owner := none
      settled := mailbox.settled ++ [(i, mailbox.contents.drop mailbox.settledContents.length)] }
  else mailbox

/-- What the system does for the delivery `i`, whose file is at the offset `offset`. Only one has the lock;
any call but `Close` may fail. -/
def Answers (i : ι) (mailbox : Mailbox ι) (offset : Nat) :
    (call : Call MboxCall) → call.Answer MboxCall.Answer → Mailbox ι → Nat → Prop
  | .CheckIo, _, after, offset' => after = mailbox ∧ offset' = offset
  | .Instant, now, after, offset' => now = mailbox.monotonic ∧ after = mailbox ∧ offset' = offset
  | .Sleep _, _, after, offset' => after = mailbox ∧ offset' = offset
  | .Lock .TryLock, .ok (), after, offset' =>
    mailbox.owner = none ∧ after = mailbox.lockedBy i ∧ offset' = offset
  | .Lock .TryLock, .error _, after, offset' => after = mailbox ∧ offset' = offset
  | .Lock .Seek, .ok length, after, offset' =>
    length = mailbox.contents.length ∧ after = mailbox ∧ offset' = mailbox.contents.length
  | .Lock .Seek, .error _, after, offset' => after = mailbox ∧ offset' = offset
  | .Lock .Postmark, _, after, offset' => after = mailbox ∧ offset' = offset
  | .Lock (.Write bytes), .ok written, after, offset' =>
    written ≤ bytes.length ∧
      after = mailbox.withContents
        (OpenFile.write ⟨mailbox.contents, offset⟩ (bytes.take written)).contents ∧
      offset' = offset + written
  | .Lock (.Write _), .error _, after, offset' => after = mailbox ∧ offset' = offset
  | .Lock .SyncFile, _, after, offset' => after = mailbox ∧ offset' = offset
  | .Lock .SyncParent, _, after, offset' => after = mailbox ∧ offset' = offset
  | .Lock (.Truncate length), .ok (), after, offset' =>
    after = mailbox.withContents (OpenFile.truncate ⟨mailbox.contents, offset⟩ length).contents ∧
      offset' = offset
  | .Lock (.Truncate _), .error _, after, offset' => after = mailbox ∧ offset' = offset
  | .Lock .Unlock, .ok (), after, offset' => after = mailbox.release i ∧ offset' = offset
  | .Lock .Unlock, .error _, after, offset' => after = mailbox ∧ offset' = offset
  | .Lock .Close, _, after, offset' => after = mailbox.release i ∧ offset' = offset

/-- Time passes. -/
def Passes (before after : Mailbox ι) : Prop :=
  before.monotonic ≤ after.monotonic ∧ after = { before with monotonic := after.monotonic }

end Mailbox

/-- Where a delivery stands, and at which offset its file is. -/
structure Writer where
  phase : MboxPhase
  offset : Nat

section System

variable {ι : Type} [DecidableEq ι]

/-- A delivery makes its next call, or it is killed before that. -/
inductive Delivers (delivery : MailboxDelivery) (i : ι) :
    Mailbox ι → Writer → Mailbox ι → Writer → Prop
  | call {mailbox after : Mailbox ι} {writer : Writer} {offset : Nat} {call : Call MboxCall}
    {resume : call.Answer MboxCall.Answer → MboxPhase} {answer : call.Answer MboxCall.Answer}
    (hnext : deliver delivery writer.phase = .ask call resume)
    (hanswer : mailbox.Answers i writer.offset call answer after offset) :
    Delivers delivery i mailbox writer after ⟨resume answer, offset⟩
  | killed {mailbox : Mailbox ι} {writer : Writer} {call : Call MboxCall}
    {resume : call.Answer MboxCall.Answer → MboxPhase}
    (hnext : deliver delivery writer.phase = .ask call resume) :
    Delivers delivery i mailbox writer (mailbox.release i) ⟨.Killed, writer.offset⟩

/-- Any number of deliveries to one mailbox. -/
def deliverySystem (deliveries : ι → MailboxDelivery) : Interleaving.System ι (Mailbox ι) Writer where
  act i := Delivers (deliveries i) i
  surroundings := Mailbox.Passes

end System

/-- Deliveries to one mailbox. -/
abbrev Deliveries (ι : Type) := Interleaving.Configuration ι (Mailbox ι) Writer

/-- Nobody has begun, and the file is as it was found. -/
structure Undelivered {ι : Type} (c : Deliveries ι) : Prop where
  waiting : ∀ i, (c.own i).phase = .Locking .Starting
  contents : c.shared.contents = c.shared.original
  owner : c.shared.owner = none
  settled : c.shared.settled = []

end Mbox

end ProcmailRs
