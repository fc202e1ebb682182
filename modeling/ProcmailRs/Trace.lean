import ProcmailRs.Delivery.Failure
import ProcmailRs.Environment
import ProcmailRs.Eval.Tree
import ProcmailRs.HeaderEdit

/-!
# Trace events

The decisions of a run as data, for every sink and format. A value is cut to a bounded prefix when the
event is made, a file name when the event is recorded.
-/

namespace ProcmailRs

open Config

/-- How long a rendered event may be. -/
def maxTraceEventSize : Nat := 1024

/-- How many events a trace may have. -/
def maxTraceEvents : Nat := 16 * 1024

/-- How long a trace may be. -/
def maxTraceBytes : Nat := 1024 * 1024

/-- How much of a value is recorded. -/
def maxTraceValueSize : Nat := 256

/-! ### Positions -/

/-- A line of an rc file, with the name of the file where it is known. -/
structure SourceLocation where
  line : Nat
  file : Option Bytes
  truncated : Bool
  deriving DecidableEq, Repr

namespace SourceLocation

/-- A line of a file that is not known. -/
def unknown (line : Nat) : SourceLocation := ⟨line, none, false⟩

/-- Another line of the same file. -/
def atLine (location : SourceLocation) (line : Nat) : SourceLocation := { location with line }

/-- The last end of a character that is not behind `length`. -/
def charBoundary (file : Bytes) : Nat → Nat
  | 0 => 0
  | length + 1 => if (file[length + 1]?).all isCharStart then length + 1 else charBoundary file length

/-- The location as it is recorded: the name of the file only if values are, and only if it is short. -/
def forTrace (location : SourceLocation) (values : Bool) : SourceLocation :=
  match location.file with
  | none => unknown location.line
  | some file =>
    if !values then unknown location.line
    else if file.length ≤ maxTraceValueSize then location
    else
      let length := charBoundary file (min file.length maxTraceValueSize)
      ⟨location.line, some (file.take length), location.truncated || decide (length < file.length)⟩

end SourceLocation

/-! ### Values and names -/

/-- A value, cut to what is recorded. -/
structure TraceValue where
  bytes : Bytes
  truncated : Bool
  deriving DecidableEq, Repr

/-- The value, cut to what is recorded. -/
def TraceValue.new (value : Bytes) : TraceValue :=
  let length := min value.length maxTraceValueSize
  ⟨value.take length, value.length > length⟩

/-- A name, of a variable or of a header field. -/
structure TraceName where
  text : Bytes
  deriving DecidableEq, Repr

/-- The name of a variable, if it is one. -/
def TraceName.new (name : Bytes) : Option TraceName :=
  if name.length > maxAssignmentNameLen then none
  else
    match name with
    | [] => none
    | first :: rest =>
      if (first == 95 || isAsciiAlphabetic first) &&
          rest.all fun byte => byte == 95 || isAsciiAlphabetic byte || isAsciiDigit byte then
        some ⟨name⟩
      else none

/-! ### Events -/

/-- The statements that load a file. -/
inductive RcFileStatement
  | Include
  | Switch
  deriving DecidableEq, Repr

/-- What has become of a file. -/
inductive RcFileStage
  | Loaded
  | Empty
  | Failed
  deriving DecidableEq, Repr

/-- The operations on a header. -/
inductive HeaderOperationKind
  | Remove
  | Set
  | Add
  | Prepend
  | Rename
  | Extract
  | Keywords
  | Priority
  | Status
  deriving DecidableEq, Repr

/-- Where the value of a variable comes from. -/
inductive VariableSource
  | RcFile
  | CommandLine
  | Environment
  | System
  | Runtime
  deriving DecidableEq, Repr

/-- The kinds of conditions. -/
inductive ConditionKind
  | ShellExpanded
  | HeaderRegex
  | BodyRegex
  | MessageRegex
  | VariableRegex
  | Address
  | Identifier
  | Keyword
  | Multipart
  | Program
  | SmallerThan
  | LargerThan
  deriving DecidableEq, Repr

/-- What was decided about a recipe. -/
inductive RecipeDecision
  | Selected
  | Deferred
  | Skipped
  deriving DecidableEq, Repr

/-- Whether it makes sense to try again. -/
inductive FailureClass
  | InputLimit
  | Transient
  | Permanent
  | Internal
  deriving DecidableEq, Repr

/-- What has become of a delivery. -/
inductive DeliveryStage
  | Preparing
  | DryRun
  | Published
  | Failed (failureClass : FailureClass)
  | Failure (failure : DeliveryFailure)
  deriving DecidableEq, Repr

/-- What has become of a command. -/
inductive ExternalCommandStage
  | Starting
  | Succeeded
  | Failed (failureClass : FailureClass)
  deriving DecidableEq, Repr

/-- What the trace tells about a run. -/
inductive TraceEvent
  | RcFile (line : Nat) (statement : RcFileStatement) (stage : RcFileStage) (target : Option TraceValue)
  | SessionStarted (pid : Nat) (timestamp : Bytes)
  | VariableAssigned (line : Option Nat) (name : TraceName) (source : VariableSource) (value : Option TraceValue)
  | VariableUnset (line : Option Nat) (name : TraceName) (source : VariableSource)
  | LastFolderUpdated
  | ConditionEvaluated (recipeLine conditionLine conditionIndex : Nat) (kind : ConditionKind)
      (negated matched : Bool) (expression : Option TraceValue)
  | RecipeEvaluated (line : Nat) (decision : RecipeDecision)
  | Delivery (recipeLine : Nat) (destination : DestinationKind) (stage : DeliveryStage) (path : Option TraceValue)
  | ExternalCommand (recipeLine : Nat) (stage : ExternalCommandStage)
  | ExternalCommandExecuting (line : Nat) (command : Option TraceValue)
  | ExternalFilterReplaced (recipeLine bytes : Nat)
  | HeaderOperation (line : Nat) (kind : HeaderOperationKind) (name : TraceName) (argument : Option TraceName)
      (extractionMode : Option HeaderExtractionMode)
  | Log (line : Nat) (value : TraceValue)
  | DeliveryAbstract (recipeLine : Nat) (destination : DestinationKind) (path : Option TraceValue)
  deriving DecidableEq

namespace TraceEvent

/-- The event is a line of the log. -/
def isLog : TraceEvent → Bool
  | .Log _ _ => true
  | _ => false

/-- The line that the event is about. -/
def sourceLine : TraceEvent → Option Nat
  | .VariableAssigned line _ _ _ | .VariableUnset line _ _ => line
  | .ConditionEvaluated _ conditionLine _ _ _ _ _ => some conditionLine
  | .RecipeEvaluated line _ | .ExternalCommandExecuting line _ | .HeaderOperation line _ _ _ _ | .Log line _
  | .RcFile line _ _ _ => some line
  | .Delivery recipeLine _ _ _ | .ExternalCommand recipeLine _ | .ExternalFilterReplaced recipeLine _
  | .DeliveryAbstract recipeLine _ _ => some recipeLine
  | .SessionStarted _ _ | .LastFolderUpdated => none

end TraceEvent

/-- An event with its place. -/
structure TraceRecord where
  event : TraceEvent
  location : SourceLocation
  deriving DecidableEq

/-- `TraceRecord::from`. -/
def TraceRecord.fromEvent (event : TraceEvent) : TraceRecord := ⟨event, .unknown (event.sourceLine.getD 0)⟩

/-- How a trace is written. -/
inductive TraceFormat
  | Text
  | Json
  deriving DecidableEq, Repr

/-- Whether values and file names are recorded. -/
inductive TraceDetail
  | Metadata
  | Values
  deriving DecidableEq, Repr

/-- Values are recorded. -/
def TraceDetail.includesVariableValues (detail : TraceDetail) : Bool := detail == .Values

/-- `TraceEvent::at`. -/
def TraceEvent.at (event : TraceEvent) (location : SourceLocation) (detail : TraceDetail) : TraceRecord :=
  ⟨event, (location.atLine (event.sourceLine.getD location.line)).forTrace detail.includesVariableValues⟩

/-- Which deliveries the log tells of. -/
inductive LogAbstractMode
  | No
  | Yes
  | All
  deriving DecidableEq, Repr

end ProcmailRs
