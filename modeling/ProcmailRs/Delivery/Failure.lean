import ProcmailRs.Bytes

/-!
# Delivery failures

What a failed delivery reports: the operation that failed, how the error of the operating system is
classified, and whether the message is visible all the same.
-/

namespace ProcmailRs

/-- The kinds of `io::ErrorKind` that the source names; `Other` numbers the other ones. -/
inductive IoErrorKind
  | AlreadyExists
  | BrokenPipe
  | Interrupted
  | OutOfMemory
  | ResourceBusy
  | StorageFull
  | TimedOut
  | WouldBlock
  | WriteZero
  | InvalidData
  | InvalidInput
  | IsADirectory
  | NotADirectory
  | NotFound
  | PermissionDenied
  | ReadOnlyFilesystem
  | Unsupported
  | Other (code : Nat)
  deriving DecidableEq, Repr

/-- `io::Error`. `descriptorsExhausted` stands for the raw error `EMFILE`. -/
structure IoError where
  kind : IoErrorKind
  descriptorsExhausted : Bool
  message : String
  deriving DecidableEq, Repr

/-- Whether a delivery may be tried again. -/
inductive DeliveryFailureClass
  | Retryable
  | Permanent
  | Internal
  deriving DecidableEq, Repr

namespace DeliveryFailureClass

/-- The class of a kind of error. -/
def fromIoKind : IoErrorKind → DeliveryFailureClass
  | .AlreadyExists | .BrokenPipe | .Interrupted | .OutOfMemory | .ResourceBusy | .StorageFull
  | .TimedOut | .WouldBlock | .WriteZero => .Retryable
  | .InvalidData | .InvalidInput | .IsADirectory | .NotADirectory | .NotFound | .PermissionDenied
  | .ReadOnlyFilesystem | .Unsupported => .Permanent
  | .Other _ => .Internal

/-- The class of an error. -/
def fromIoError (error : IoError) : DeliveryFailureClass :=
  if error.descriptorsExhausted then .Retryable else fromIoKind error.kind

end DeliveryFailureClass

/-- What was being done when a delivery failed. -/
inductive DeliveryOperation
  | Open
  | Lock
  | Write
  | Publish
  | SyncFile
  | SyncDirectory
  | Unlock
  deriving DecidableEq, Repr

namespace DeliveryOperation

/-- The operation in a sentence. -/
def description : DeliveryOperation → Bytes
  | .Open => strBytes "opening destination"
  | .Lock => strBytes "acquiring lock"
  | .Write => strBytes "writing message"
  | .Publish => strBytes "publishing message"
  | .SyncFile => strBytes "syncing file"
  | .SyncDirectory => strBytes "syncing directory"
  | .Unlock => strBytes "releasing lock"

/-- The word of the operation. -/
def name : DeliveryOperation → Bytes
  | .Open => strBytes "open"
  | .Lock => strBytes "lock"
  | .Write => strBytes "write"
  | .Publish => strBytes "publish"
  | .SyncFile => strBytes "sync-file"
  | .SyncDirectory => strBytes "sync-directory"
  | .Unlock => strBytes "unlock"

end DeliveryOperation

/-- A failure as the trace tells of it. -/
structure DeliveryFailure where
  failureClass : DeliveryFailureClass
  operation : DeliveryOperation
  kind : IoErrorKind
  published : Bool
  deriving DecidableEq, Repr

/-- The failure that an error makes. -/
def DeliveryFailure.fromIo (operation : DeliveryOperation) (error : IoError) (published : Bool) :
    DeliveryFailure :=
  ⟨DeliveryFailureClass.fromIoError error, operation, error.kind, published⟩

/-- The path of a message that is visible now. -/
structure PublishedDelivery where
  lastFolder : Bytes
  deriving DecidableEq, Repr

/-- What is synced before a delivery is reported. -/
inductive Durability
  | None
  | File
  | Full
  deriving DecidableEq, Repr

end ProcmailRs
