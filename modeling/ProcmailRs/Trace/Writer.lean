import ProcmailRs.Trace.Render

/-!
# The trace writer

Records go to the output while the number of events and their total size stay within the limits. What
stops the trace once stops it for good.
-/

namespace ProcmailRs

/-- Why nothing more is recorded. -/
inductive TraceStopReason
  | EventSizeLimit
  | EventLimit
  | ByteLimit
  | Io (kind : IoErrorKind)
  deriving DecidableEq, Repr

/-- A writer of events, with what it has written. -/
structure BoundedTraceWriter (W : Type) where
  writer : W
  events : Nat
  bytes : Nat
  stopped : Option TraceStopReason
  detail : TraceDetail
  format : TraceFormat
  verbose : Bool
  abstractMode : LogAbstractMode
  lastPublished : Option TraceRecord

/-- What a run asks of the writer. -/
inductive TraceCall
  | Record (record : TraceRecord)
  | RecordAt (location : SourceLocation) (event : TraceEvent)
  | SetVerbose (enabled : Bool)
  | SetLogAbstract (mode : LogAbstractMode)
  | Finish

namespace BoundedTraceWriter

variable {W : Type}

/-- `BoundedTraceWriter::runtime_formatted`. -/
def runtimeFormatted (writer : W) (detail : TraceDetail) (format : TraceFormat) (verbose : Bool)
    (abstractMode : LogAbstractMode) : BoundedTraceWriter W :=
  ⟨writer, 0, 0, none, detail, format, verbose, abstractMode, none⟩

/-- Nothing more is recorded. -/
def stop (trace : BoundedTraceWriter W) (reason : TraceStopReason) : BoundedTraceWriter W :=
  { trace with stopped := some reason }

-- `writeAll` is the output's `Write::write_all`
variable (errorText : IoErrorKind → Bytes) (writeAll : W → Bytes → W × Except IoErrorKind Unit)

/-- An event within the bounds, or the trace stops. -/
def writeEvent (trace : BoundedTraceWriter W) (record : TraceRecord) : BoundedTraceWriter W :=
  if trace.stopped.isSome then trace
  else if !trace.format.includes record.event then trace
  else if trace.events ≥ maxTraceEvents then trace.stop .EventLimit
  else
    match renderRecord errorText record trace.format with
    | none => trace.stop .EventSizeLimit
    | some rendered =>
      match checkedAdd trace.bytes rendered.bytes.length with
      | none => trace.stop .ByteLimit
      | some total =>
        if total > maxTraceBytes then trace.stop .ByteLimit
        else
          match writeAll trace.writer rendered.bytes with
          | (writer, .error kind) => { trace with writer, stopped := some (.Io kind) }
          | (writer, .ok ()) => { trace with writer, events := trace.events + 1, bytes := total }

/-- The abstract of a published delivery, written at once or kept for the end. -/
def recordAbstract (trace : BoundedTraceWriter W) (record : TraceRecord) : BoundedTraceWriter W :=
  match record.event with
  | .Delivery recipeLine destination .Published path =>
    let abstractRecord : TraceRecord := ⟨.DeliveryAbstract recipeLine destination path, record.location⟩
    match trace.abstractMode with
    | .No => trace
    | .Yes => { trace with lastPublished := some abstractRecord }
    | .All => trace.writeEvent errorText writeAll abstractRecord
  | _ => trace

/-- `record`: an event that is wanted is written. -/
def record (trace : BoundedTraceWriter W) (record : TraceRecord) : BoundedTraceWriter W :=
  let record := { record with location := record.location.forTrace trace.detail.includesVariableValues }
  let trace := trace.recordAbstract errorText writeAll record
  if !trace.verbose && !record.event.isLog then trace
  else trace.writeEvent errorText writeAll record

/-- `TraceSink::record_at`. -/
def recordAt (trace : BoundedTraceWriter W) (location : SourceLocation) (event : TraceEvent) :
    BoundedTraceWriter W :=
  trace.record errorText writeAll (event.at location trace.detail)

/-- `VERBOSE` is set. -/
def setVerbose (trace : BoundedTraceWriter W) (enabled : Bool) : BoundedTraceWriter W :=
  { trace with verbose := enabled }

/-- `LOGABSTRACT` is set. -/
def setLogAbstract (trace : BoundedTraceWriter W) (mode : LogAbstractMode) : BoundedTraceWriter W :=
  { trace with abstractMode := mode, lastPublished := none }

/-- The run ends: the last delivery is told of where only that is wanted. -/
def finish (trace : BoundedTraceWriter W) : BoundedTraceWriter W :=
  if trace.abstractMode ≠ .Yes then trace
  else
    match trace.lastPublished with
    | none => trace
    | some record => writeEvent errorText writeAll { trace with lastPublished := none } record

/-- One call of the program. -/
def call (trace : BoundedTraceWriter W) : TraceCall → BoundedTraceWriter W
  | .Record record => trace.record errorText writeAll record
  | .RecordAt location event => trace.recordAt errorText writeAll location event
  | .SetVerbose enabled => trace.setVerbose enabled
  | .SetLogAbstract mode => trace.setLogAbstract mode
  | .Finish => trace.finish errorText writeAll

/-- A run of calls. -/
def run (trace : BoundedTraceWriter W) (calls : List TraceCall) : BoundedTraceWriter W :=
  calls.foldl (call errorText writeAll) trace

end BoundedTraceWriter

end ProcmailRs
