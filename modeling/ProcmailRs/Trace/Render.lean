import ProcmailRs.Config.Ordered
import ProcmailRs.Trace

/-!
# Trace records

A record is rendered as a whole into a bounded text, in either format: the event, the position in the rc
file, and the end of the line. Where it does not fit, nothing is left of it.
-/

namespace ProcmailRs

open Config

/-! ### The output -/

/-- A text that is written within a limit. -/
structure BoundedText where
  bytes : Bytes
  limit : Nat
  fits : bytes.length ≤ limit

namespace BoundedText

/-- Nothing is written yet. -/
def new (limit : Nat) : BoundedText := ⟨[], limit, Nat.zero_le limit⟩

/-- `fmt::Write::write_str`, which fails where the text would outgrow its limit. -/
def write (output : BoundedText) (value : Bytes) : Option BoundedText :=
  if h : (output.bytes ++ value).length ≤ output.limit then some ⟨output.bytes ++ value, output.limit, h⟩ else none

/-- The text without its last byte, if this is the expected one. -/
def pop (output : BoundedText) (byte : UInt8) : Option BoundedText :=
  if output.bytes.getLast? = some byte then
    some ⟨output.bytes.dropLast, output.limit, Nat.le_trans (by simp) output.fits⟩
  else none

/-- `write` for a part that may be missing. -/
def writeOption {α : Type} (output : BoundedText) (write : BoundedText → α → Option BoundedText) :
    Option α → Option BoundedText
  | none => some output
  | some part => write output part

end BoundedText

/-! ### Names -/

/-- The word of the statement. -/
def RcFileStatement.name : RcFileStatement → Bytes
  | .Include => strBytes "INCLUDERC"
  | .Switch => strBytes "SWITCHRC"

/-- The word of the stage. -/
def RcFileStage.name : RcFileStage → Bytes
  | .Loaded => strBytes "loaded"
  | .Empty => strBytes "empty"
  | .Failed => strBytes "failed"

/-- The word of the mode. -/
def headerExtractionModeName : HeaderExtractionMode → Bytes
  | .Raw => strBytes "raw"
  | .Unfolded => strBytes "unfolded"
  | .Decoded => strBytes "decoded"

/-- The word of the class. -/
def failureClassName : FailureClass → Bytes
  | .InputLimit => strBytes "input-limit"
  | .Transient => strBytes "transient"
  | .Permanent => strBytes "permanent"
  | .Internal => strBytes "internal"

/-- The word of the class. -/
def deliveryFailureClassName : DeliveryFailureClass → Bytes
  | .Retryable => strBytes "transient"
  | .Permanent => strBytes "permanent"
  | .Internal => strBytes "internal"

/-- The word of the operation. -/
def headerOperationKindName : HeaderOperationKind → Bytes
  | .Remove => strBytes "remove"
  | .Set => strBytes "set"
  | .Add => strBytes "add"
  | .Prepend => strBytes "prepend"
  | .Rename => strBytes "rename"
  | .Extract => strBytes "extract"
  | .Keywords => strBytes "keywords"
  | .Priority => strBytes "priority"
  | .Status => strBytes "status"

/-- The word of the kind. -/
def conditionKindName : ConditionKind → Bytes
  | .ShellExpanded => strBytes "shell-expanded"
  | .HeaderRegex => strBytes "header-regex"
  | .BodyRegex => strBytes "body-regex"
  | .MessageRegex => strBytes "message-regex"
  | .VariableRegex => strBytes "variable-regex"
  | .Address => strBytes "address"
  | .Identifier => strBytes "identifier"
  | .Keyword => strBytes "keyword"
  | .Multipart => strBytes "multipart"
  | .Program => strBytes "program"
  | .SmallerThan => strBytes "smaller-than"
  | .LargerThan => strBytes "larger-than"

/-- The word of the source. -/
def variableSourceName : VariableSource → Bytes
  | .RcFile => strBytes "rc-file"
  | .CommandLine => strBytes "command-line"
  | .Environment => strBytes "environment"
  | .System => strBytes "system"
  | .Runtime => strBytes "runtime"

/-- The word of the decision. -/
def recipeDecisionName : RecipeDecision → Bytes
  | .Selected => strBytes "selected"
  | .Deferred => strBytes "deferred"
  | .Skipped => strBytes "skipped"

/-- The word of the kind. -/
def destinationKindName : DestinationKind → Bytes
  | .Maildir => strBytes "maildir"
  | .Mbox => strBytes "mbox"
  | .File => strBytes "file"
  | .Discard => strBytes "discard"

/-- The operation in a sentence. -/
def humanHeaderOperation : HeaderOperationKind → Bytes
  | .Remove => strBytes "Removing"
  | .Set => strBytes "Setting"
  | .Add => strBytes "Adding"
  | .Prepend => strBytes "Prepending"
  | .Rename => strBytes "Renaming"
  | .Extract => strBytes "Extracting"
  | .Keywords => strBytes "Updating keywords"
  | .Priority => strBytes "Updating priority"
  | .Status => strBytes "Updating status"

/-- The kind in a sentence. -/
def humanConditionKind : ConditionKind → Bytes
  | .ShellExpanded => strBytes "expanded condition"
  | .HeaderRegex => strBytes "header regular expression"
  | .BodyRegex => strBytes "body regular expression"
  | .MessageRegex => strBytes "message regular expression"
  | .VariableRegex => strBytes "variable regular expression"
  | .Address => strBytes "address regular expression"
  | .Identifier => strBytes "identifier regular expression"
  | .Keyword => strBytes "keyword regular expression"
  | .Multipart => strBytes "multipart part regular expression"
  | .Program => strBytes "external program"
  | .SmallerThan => strBytes "message size is smaller than"
  | .LargerThan => strBytes "message size is larger than"

/-- The kind in a sentence. -/
def humanDestinationKind : DestinationKind → Bytes
  | .Maildir => strBytes "Maildir"
  | .Mbox => strBytes "mbox"
  | .File => strBytes "file"
  | .Discard => strBytes "/dev/null"

/-- `true` or `false`. -/
def truthText (value : Bool) : Bytes := if value then strBytes "true" else strBytes "false"

/-! ### Escapes -/

/-- A byte that a line shows as it is. -/
def isPrintableAscii (byte : UInt8) : Bool := 32 ≤ byte && byte ≤ 126

/-- One byte of `EscapedBytes`. -/
def escapedByte (byte : UInt8) : Bytes :=
  if byte = 10 then strBytes "\\n"
  else if byte = 13 then strBytes "\\r"
  else if byte = 9 then strBytes "\\t"
  else if byte = 92 then strBytes "\\\\"
  else if byte = 39 then strBytes "\\'"
  else if byte = 34 then strBytes "\\\""
  else if isPrintableAscii byte then [byte]
  else strBytes "\\x" ++ hexByte byte

/-- The bytes, with everything escaped that is not printable. -/
def writeEscaped (output : BoundedText) (bytes : Bytes) : Option BoundedText :=
  bytes.foldlM (fun output byte => output.write (escapedByte byte)) output

/-- One byte of `render_json_string`. -/
def jsonByte (byte : UInt8) : Bytes :=
  if byte = 34 then strBytes "\\\""
  else if byte = 92 then strBytes "\\\\"
  else if byte = 10 then strBytes "\\n"
  else if byte = 13 then strBytes "\\r"
  else if byte = 9 then strBytes "\\t"
  else if isPrintableAscii byte then [byte]
  else strBytes "\\u00" ++ hexByte byte

/-- A string of JSON. -/
def renderJsonString (output : BoundedText) (value : Bytes) : Option BoundedText := do
  let output ← output.write (strBytes "\"")
  let output ← value.foldlM (fun output byte => output.write (jsonByte byte)) output
  output.write (strBytes "\"")

/-- A value under the name of its field, and whether it is cut. -/
def renderJsonValue (name : Bytes) (output : BoundedText) (value : TraceValue) : Option BoundedText := do
  let output ← output.write (strBytes ",\"" ++ name ++ strBytes "\":")
  let output ← renderJsonString output value.bytes
  output.write (strBytes ",\"" ++ name ++ strBytes "_truncated\":" ++ truthText value.truncated)

/-! ### Events -/

section

-- the `Display` text of an `io::ErrorKind`
variable (errorText : IoErrorKind → Bytes)

/-- The stage with its failure. -/
def renderDeliveryStage (output : BoundedText) : DeliveryStage → Option BoundedText
  | .Preparing => output.write (strBytes "preparing")
  | .DryRun => output.write (strBytes "dry-run")
  | .Published => output.write (strBytes "published")
  | .Failure failure =>
    output.write (strBytes "failed failure_class=" ++ deliveryFailureClassName failure.failureClass ++
      strBytes " reason=" ++ errorText failure.kind ++ strBytes " operation=" ++ failure.operation.name ++
      strBytes " published=" ++ truthText failure.published)
  | .Failed failureClass => output.write (strBytes "failed failure_class=" ++ failureClassName failureClass)

/-- The stage with its failure. -/
def renderExternalStage (output : BoundedText) : ExternalCommandStage → Option BoundedText
  | .Starting => output.write (strBytes "starting")
  | .Succeeded => output.write (strBytes "succeeded")
  | .Failed failureClass => output.write (strBytes "failed failure_class=" ++ failureClassName failureClass)

/-- The members of an event, without the brace that ends it. -/
def renderJsonEvent (output : BoundedText) : TraceEvent → Option BoundedText
  | .RcFile line statement stage target => do
    let output ← output.write (strBytes "\x7b\"event\":\"rc-file\",\"line\":" ++ decimal line ++
      strBytes ",\"statement\":\"" ++ statement.name ++ strBytes "\",\"stage\":\"" ++ stage.name ++ strBytes "\"")
    let output ← output.writeOption (renderJsonValue (strBytes "target")) target
    output.write (strBytes "\x7d")
  | .SessionStarted pid timestamp => do
    let output ← output.write (strBytes "\x7b\"event\":\"session-start\",\"pid\":" ++ decimal pid ++
      strBytes ",\"timestamp\":")
    let output ← renderJsonString output timestamp
    output.write (strBytes "\x7d")
  | .VariableAssigned line name source value => do
    let output ← output.write (strBytes "\x7b\"event\":\"variable-assigned\",\"line\":" ++
      decimal (line.getD 0) ++ strBytes ",\"name\":")
    let output ← renderJsonString output name.text
    let output ← output.write (strBytes ",\"source\":\"" ++ variableSourceName source ++ strBytes "\"")
    let output ← output.writeOption (renderJsonValue (strBytes "value")) value
    output.write (strBytes "\x7d")
  | .VariableUnset line name source => do
    let output ← output.write (strBytes "\x7b\"event\":\"variable-unset\",\"line\":" ++
      decimal (line.getD 0) ++ strBytes ",\"name\":")
    let output ← renderJsonString output name.text
    output.write (strBytes ",\"source\":\"" ++ variableSourceName source ++ strBytes "\"\x7d")
  | .LastFolderUpdated => output.write (strBytes "\x7b\"event\":\"last-folder-updated\"\x7d")
  | .ConditionEvaluated recipeLine conditionLine conditionIndex kind negated wasMatched expression => do
    let output ← output.write (strBytes "\x7b\"event\":\"condition\",\"recipe_line\":" ++ decimal recipeLine ++
      strBytes ",\"condition_line\":" ++ decimal conditionLine ++ strBytes ",\"condition_index\":" ++
      decimal conditionIndex ++ strBytes ",\"kind\":\"" ++ conditionKindName kind ++ strBytes "\",\"negated\":" ++
      truthText negated ++ strBytes ",\"matched\":" ++ truthText wasMatched)
    let output ← output.writeOption (renderJsonValue (strBytes "expression")) expression
    output.write (strBytes "\x7d")
  | .RecipeEvaluated line decision =>
    output.write (strBytes "\x7b\"event\":\"recipe\",\"line\":" ++ decimal line ++
      strBytes ",\"decision\":\"" ++ recipeDecisionName decision ++ strBytes "\"\x7d")
  | .Delivery recipeLine destination stage path => do
    let output ← output.write (strBytes "\x7b\"event\":\"delivery\",\"recipe_line\":" ++ decimal recipeLine ++
      strBytes ",\"destination\":\"" ++ destinationKindName destination ++ strBytes "\",\"stage\":\"")
    let output ←
      match stage with
      | .Failure failure =>
        output.write (strBytes "failed\",\"failure_class\":\"" ++ deliveryFailureClassName failure.failureClass ++
          strBytes "\",\"reason\":\"" ++ errorText failure.kind ++ strBytes "\",\"operation\":\"" ++
          failure.operation.name ++ strBytes "\",\"published\":" ++ truthText failure.published)
      | stage => do
        let output ← renderDeliveryStage errorText output stage
        output.write (strBytes "\"")
    let output ← output.writeOption (renderJsonValue (strBytes "path")) path
    output.write (strBytes "\x7d")
  | .ExternalCommand recipeLine stage => do
    let output ← output.write (strBytes "\x7b\"event\":\"external-command\",\"recipe_line\":" ++
      decimal recipeLine ++ strBytes ",\"stage\":\"")
    let output ← renderExternalStage output stage
    output.write (strBytes "\"\x7d")
  | .ExternalCommandExecuting line command => do
    let output ← output.write (strBytes "\x7b\"event\":\"external-command-executing\",\"line\":" ++ decimal line)
    let output ← output.writeOption (renderJsonValue (strBytes "command")) command
    output.write (strBytes "\x7d")
  | .ExternalFilterReplaced recipeLine bytes =>
    output.write (strBytes "\x7b\"event\":\"external-filter-replaced\",\"recipe_line\":" ++ decimal recipeLine ++
      strBytes ",\"bytes\":" ++ decimal bytes ++ strBytes "\x7d")
  | .HeaderOperation line kind name argument extractionMode => do
    let output ← output.write (strBytes "\x7b\"event\":\"header-operation\",\"line\":" ++ decimal line ++
      strBytes ",\"operation\":\"" ++ headerOperationKindName kind ++ strBytes "\",\"name\":")
    let output ← renderJsonString output name.text
    let output ← output.writeOption (fun output (argument : TraceName) => do
      let output ← output.write (strBytes ",\"argument\":")
      renderJsonString output argument.text) argument
    let output ← output.writeOption (fun output mode =>
      output.write (strBytes ",\"extraction_mode\":\"" ++ headerExtractionModeName mode ++ strBytes "\"")) extractionMode
    output.write (strBytes "\x7d")
  | .Log line value => do
    let output ← output.write (strBytes "\x7b\"event\":\"log\",\"line\":" ++ decimal line)
    let output ← renderJsonValue (strBytes "value") output value
    output.write (strBytes "\x7d")
  | .DeliveryAbstract recipeLine destination path => do
    let output ← output.write (strBytes "\x7b\"event\":\"delivery-abstract\",\"recipe_line\":" ++
      decimal recipeLine ++ strBytes ",\"destination\":\"" ++ destinationKindName destination ++ strBytes "\"")
    let output ← output.writeOption (renderJsonValue (strBytes "path")) path
    output.write (strBytes "\x7d")

/-- Bytes in quotation marks, behind a blank. -/
def renderHumanPath (output : BoundedText) (path : TraceValue) : Option BoundedText := do
  let output ← output.write (strBytes " \"")
  let output ← writeEscaped output path.bytes
  output.write (strBytes "\"")

/-- The line of an event. -/
def renderHumanEvent (output : BoundedText) : TraceEvent → Option BoundedText
  | .RcFile line statement stage target => do
    let output ← output.write (strBytes "procmail-rs: " ++ statement.name ++ strBytes " at line " ++ decimal line ++
      strBytes ": " ++ stage.name)
    output.writeOption (fun output (target : TraceValue) => do
      let output ← renderHumanPath output target
      output.write (if target.truncated then strBytes " [truncated]" else [])) target
  | .SessionStarted pid timestamp =>
    output.write (strBytes "procmail-rs: [" ++ decimal pid ++ strBytes "] " ++ timestamp)
  | .VariableAssigned line name _ value => do
    let output ←
      match line with
      | some line =>
        output.write (strBytes "procmail-rs: Assigning at line " ++ decimal line ++ strBytes " \"" ++ name.text)
      | none => output.write (strBytes "procmail-rs: Assigning \"" ++ name.text)
    match value with
    | some value => do
      let output ← output.write (strBytes "=")
      let output ← writeEscaped output value.bytes
      output.write (strBytes "\"" ++ if value.truncated then strBytes " (truncated)" else [])
    | none => output.write (strBytes "\" (value hidden)")
  | .VariableUnset line name _ =>
    match line with
    | some line =>
      output.write (strBytes "procmail-rs: Unsetting at line " ++ decimal line ++ strBytes " \"" ++ name.text ++
        strBytes "\"")
    | none => output.write (strBytes "procmail-rs: Unsetting \"" ++ name.text ++ strBytes "\"")
  | .LastFolderUpdated => output.write (strBytes "procmail-rs: Updated LASTFOLDER")
  | .ConditionEvaluated recipeLine conditionLine conditionIndex kind negated wasMatched expression => do
    let output ← output.write (strBytes "procmail-rs: " ++ (if wasMatched then strBytes "Match" else strBytes "No match") ++
      strBytes " on line " ++ decimal conditionLine)
    match expression with
    | some expression => do
      let output ← output.write (strBytes " on \"")
      let output ← writeEscaped output expression.bytes
      output.write (strBytes "\"")
    | none =>
      output.write (strBytes " (condition " ++ decimal (conditionIndex + 1) ++ strBytes " of recipe at line " ++
        decimal recipeLine ++ strBytes ": " ++ humanConditionKind kind ++
        (if negated then strBytes ", negated" else []) ++ strBytes ")")
  | .RecipeEvaluated line decision =>
    output.write (strBytes "procmail-rs: Recipe at line " ++ decimal line ++ strBytes ": " ++
      match decision with
      | .Selected => strBytes "selected"
      | .Deferred => strBytes "waiting for more message data"
      | .Skipped => strBytes "skipped")
  | .Delivery recipeLine destination stage path =>
    match stage with
    | .DryRun => do
      let output ← output.write (strBytes "procmail-rs: Would deliver to " ++ humanDestinationKind destination)
      let output ← output.writeOption renderHumanPath path
      output.write (strBytes " (recipe at line " ++ decimal recipeLine ++ strBytes ")")
    | .Preparing =>
      output.write (strBytes "procmail-rs: Recipe at line " ++ decimal recipeLine ++ strBytes ": preparing " ++
        humanDestinationKind destination ++ strBytes " delivery")
    | .Published => do
      let output ← output.write (strBytes "procmail-rs: Delivered to " ++ humanDestinationKind destination)
      let output ← output.writeOption renderHumanPath path
      output.write (strBytes " (recipe at line " ++ decimal recipeLine ++ strBytes ")")
    | .Failure failure => do
      let output ← output.write (strBytes "procmail-rs: Recipe at line " ++ decimal recipeLine ++ strBytes ": " ++
        humanDestinationKind destination ++ strBytes " delivery failed while " ++ failure.operation.description)
      let output ← output.writeOption (fun output (path : TraceValue) => do
        let output ← output.write (strBytes " for \"")
        let output ← writeEscaped output path.bytes
        output.write (strBytes "\"")) path
      let output ← output.write (strBytes ": " ++ errorText failure.kind ++ strBytes " (" ++
        deliveryFailureClassName failure.failureClass)
      let output ← output.write (if failure.published then strBytes "; message already published" else [])
      output.write (strBytes ")")
    | .Failed failureClass =>
      output.write (strBytes "procmail-rs: Recipe at line " ++ decimal recipeLine ++ strBytes ": " ++
        humanDestinationKind destination ++ strBytes " delivery failed (" ++ failureClassName failureClass ++
        strBytes ")")
  | .ExternalCommand recipeLine stage =>
    output.write (strBytes "procmail-rs: Recipe at line " ++ decimal recipeLine ++ strBytes ": external command " ++
      match stage with
      | .Starting => strBytes "started"
      | .Succeeded => strBytes "succeeded"
      | .Failed _ => strBytes "failed")
  | .ExternalCommandExecuting line command => do
    let output ← output.write (strBytes "procmail-rs: Executing at line " ++ decimal line)
    match command with
    | some command => renderHumanPath output command
    | none => output.write (strBytes " external command")
  | .ExternalFilterReplaced recipeLine bytes =>
    output.write (strBytes "procmail-rs: Filter at line " ++ decimal recipeLine ++ strBytes " replaced message: " ++
      decimal bytes ++ strBytes " bytes")
  | .HeaderOperation line kind name argument extractionMode => do
    let output ← output.write (strBytes "procmail-rs: " ++ humanHeaderOperation kind ++ strBytes " header \"" ++
      name.text ++ strBytes "\"")
    let output ← output.writeOption (fun output (argument : TraceName) =>
      match kind with
      | .Rename => output.write (strBytes " to \"" ++ argument.text ++ strBytes "\"")
      | .Extract => output.write (strBytes " into \"" ++ argument.text ++ strBytes "\"")
      | .Keywords | .Priority | .Status => output.write (strBytes " (" ++ argument.text ++ strBytes ")")
      | _ => some output) argument
    let output ← output.writeOption (fun output mode =>
      output.write (strBytes " (" ++ headerExtractionModeName mode ++ strBytes ")")) extractionMode
    output.write (strBytes " at line " ++ decimal line)
  | .Log _ value => do
    let output ← if isText value.bytes then output.write value.bytes else none
    output.write (if value.truncated then strBytes "...[truncated]" else [])
  | .DeliveryAbstract recipeLine destination path => do
    let output ← output.write (strBytes "procmail-rs: Abstract: delivered to " ++ humanDestinationKind destination)
    let output ← output.writeOption renderHumanPath path
    output.write (strBytes " (recipe at line " ++ decimal recipeLine ++ strBytes ")")

/-! ### Records -/

/-- The position, in a JSON record as further fields of its object. -/
def renderSourceLocation (output : BoundedText) (format : TraceFormat) (location : SourceLocation)
    (event : TraceEvent) : Option BoundedText :=
  match location.file with
  | none => some output
  | some file =>
    match format with
    | .Json => do
      let output ← output.pop 125
      let output ← output.write (strBytes ",\"rc_file\":")
      let output ← renderJsonString output file
      let output ← output.write (if location.truncated then strBytes ",\"rc_file_truncated\":true" else [])
      output.write (strBytes "\x7d")
    | .Text =>
      if event.isLog then some output
      else do
        let output ← output.write (strBytes " [rc \"")
        let output ← writeEscaped output file
        let output ← output.write (strBytes "\"")
        let output ← output.write (if location.truncated then strBytes " [truncated]" else [])
        output.write (strBytes ":" ++ decimal location.line ++ strBytes "]")

/-- The event with its place, within the limit of an event. -/
def renderRecord (record : TraceRecord) (format : TraceFormat) : Option BoundedText := do
  let output := BoundedText.new maxTraceEventSize
  let output ←
    match format with
    | .Json => renderJsonEvent errorText output record.event
    | .Text => renderHumanEvent errorText output record.event
  let output ← renderSourceLocation output format record.location record.event
  if format == .Json || !record.event.isLog then output.write (strBytes "\n") else some output

end

/-- `TraceFormat::includes`. -/
def TraceFormat.includes : TraceFormat → TraceEvent → Bool
  | .Text, .RecipeEvaluated _ _ | .Text, .LastFolderUpdated => false
  | _, _ => true

end ProcmailRs
