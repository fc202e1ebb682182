import ProcmailRs.Proofs.TraceJsonProofs

/-!
# Trace records as text

A text record is a sequence of fixed texts, numbers and escaped bytes. How long it is, and with that
whether it fits, follows from the parts.
-/

namespace ProcmailRs

open Config BoundedText

/-- A part of a line of the log. -/
inductive TextPart
  | Fixed (text : Bytes)
  | Number (value : Nat)
  | Escaped (bytes : Bytes)

namespace TextPart

/-- How the part is written. -/
def text : TextPart → Bytes
  | .Fixed text => text
  | .Number value => decimal value
  | .Escaped bytes => bytes.flatMap escapedByte

/-- How many bytes a byte takes where it is escaped. -/
def escapedCost (byte : UInt8) : Nat :=
  if byte = 10 ∨ byte = 13 ∨ byte = 9 ∨ byte = 92 ∨ byte = 39 ∨ byte = 34 then 2
  else if isPrintableAscii byte then 1
  else 4

/-- How many bytes a part takes. -/
def cost : TextPart → Nat
  | .Fixed text => text.length
  | .Number value => (Nat.toDigits 10 value).length
  | .Escaped bytes => (bytes.map escapedCost).sum

theorem length_escapedByte (byte : UInt8) : (escapedByte byte).length = escapedCost byte := by
  unfold escapedByte escapedCost
  split_ifs <;> first | rfl | simp_all

@[simp] theorem text_fixed (text : Bytes) : (TextPart.Fixed text).text = text := rfl

@[simp] theorem text_number (value : Nat) : (TextPart.Number value).text = decimal value := rfl

@[simp] theorem text_escaped (bytes : Bytes) : (TextPart.Escaped bytes).text = bytes.flatMap escapedByte := rfl

theorem length_text (part : TextPart) : part.text.length = part.cost := by
  cases part with
  | Fixed text => rfl
  | Number value => rw [text, decimal_eq_number]; exact List.length_map _
  | Escaped bytes => simp [text, cost, List.length_flatMap, length_escapedByte]

end TextPart

open TextPart

/-- The text of the parts. -/
def partsText (parts : List TextPart) : Bytes := parts.flatMap TextPart.text

/-- How many bytes the parts take. -/
def partsCost (parts : List TextPart) : Nat := (parts.map TextPart.cost).sum

@[simp] theorem partsText_nil : partsText [] = [] := rfl

@[simp] theorem partsText_cons (part : TextPart) (parts : List TextPart) :
    partsText (part :: parts) = part.text ++ partsText parts := rfl

@[simp] theorem partsText_append (first second : List TextPart) :
    partsText (first ++ second) = partsText first ++ partsText second := List.flatMap_append

theorem length_partsText (parts : List TextPart) : (partsText parts).length = partsCost parts := by
  simp [partsText, partsCost, List.length_flatMap, length_text]

/-! ### What a record says -/

/-- A path in quotation marks, behind the given text. -/
def pathParts (lead : String) : Option TraceValue → List TextPart
  | none => []
  | some path => [.Fixed (strBytes lead), .Escaped path.bytes, .Fixed (strBytes "\"")]

section

variable (errorText : IoErrorKind → Bytes)

/-- The line of a delivery. -/
def deliveryParts (recipeLine : Nat) (destination : DestinationKind) (path : Option TraceValue) :
    DeliveryStage → List TextPart
  | .DryRun =>
    [.Fixed (strBytes "procmail-rs: Would deliver to "), .Fixed (humanDestinationKind destination)] ++
      pathParts " \"" path ++ [.Fixed (strBytes " (recipe at line "), .Number recipeLine, .Fixed (strBytes ")")]
  | .Preparing =>
    [.Fixed (strBytes "procmail-rs: Recipe at line "), .Number recipeLine, .Fixed (strBytes ": preparing "),
      .Fixed (humanDestinationKind destination), .Fixed (strBytes " delivery")]
  | .Published =>
    [.Fixed (strBytes "procmail-rs: Delivered to "), .Fixed (humanDestinationKind destination)] ++
      pathParts " \"" path ++ [.Fixed (strBytes " (recipe at line "), .Number recipeLine, .Fixed (strBytes ")")]
  | .Failure failure =>
    [.Fixed (strBytes "procmail-rs: Recipe at line "), .Number recipeLine, .Fixed (strBytes ": "),
      .Fixed (humanDestinationKind destination), .Fixed (strBytes " delivery failed while "),
      .Fixed failure.operation.description] ++ pathParts " for \"" path ++
      [.Fixed (strBytes ": "), .Fixed (errorText failure.kind), .Fixed (strBytes " ("),
        .Fixed (deliveryFailureClassName failure.failureClass),
        .Fixed (if failure.published then strBytes "; message already published" else []), .Fixed (strBytes ")")]
  | .Failed failureClass =>
    [.Fixed (strBytes "procmail-rs: Recipe at line "), .Number recipeLine, .Fixed (strBytes ": "),
      .Fixed (humanDestinationKind destination), .Fixed (strBytes " delivery failed ("),
      .Fixed (failureClassName failureClass), .Fixed (strBytes ")")]

/-- What is said of the argument of a header operation. -/
def argumentParts (kind : HeaderOperationKind) (argument : TraceName) : List TextPart :=
  match kind with
  | .Rename => [.Fixed (strBytes " to \""), .Fixed argument.text, .Fixed (strBytes "\"")]
  | .Extract => [.Fixed (strBytes " into \""), .Fixed argument.text, .Fixed (strBytes "\"")]
  | .Keywords | .Priority | .Status => [.Fixed (strBytes " ("), .Fixed argument.text, .Fixed (strBytes ")")]
  | _ => []

/-- The parts of an event. -/
def humanParts : TraceEvent → List TextPart
  | .RcFile line statement stage target =>
    [.Fixed (strBytes "procmail-rs: "), .Fixed statement.name, .Fixed (strBytes " at line "), .Number line,
      .Fixed (strBytes ": "), .Fixed stage.name] ++ pathParts " \"" target ++
      [.Fixed (if target.any TraceValue.truncated then strBytes " [truncated]" else [])]
  | .SessionStarted pid timestamp =>
    [.Fixed (strBytes "procmail-rs: ["), .Number pid, .Fixed (strBytes "] "), .Fixed timestamp]
  | .VariableAssigned line name _ value =>
    (match line with
      | some line => [.Fixed (strBytes "procmail-rs: Assigning at line "), .Number line, .Fixed (strBytes " \"")]
      | none => [.Fixed (strBytes "procmail-rs: Assigning \"")]) ++ [.Fixed name.text] ++
      match value with
      | some value =>
        [.Fixed (strBytes "="), .Escaped value.bytes, .Fixed (strBytes "\""),
          .Fixed (if value.truncated then strBytes " (truncated)" else [])]
      | none => [.Fixed (strBytes "\" (value hidden)")]
  | .VariableUnset line name _ =>
    (match line with
      | some line => [.Fixed (strBytes "procmail-rs: Unsetting at line "), .Number line, .Fixed (strBytes " \"")]
      | none => [.Fixed (strBytes "procmail-rs: Unsetting \"")]) ++ [.Fixed name.text, .Fixed (strBytes "\"")]
  | .LastFolderUpdated => [.Fixed (strBytes "procmail-rs: Updated LASTFOLDER")]
  | .ConditionEvaluated recipeLine conditionLine conditionIndex kind negated wasMatched expression =>
    [.Fixed (strBytes "procmail-rs: "), .Fixed (if wasMatched then strBytes "Match" else strBytes "No match"),
      .Fixed (strBytes " on line "), .Number conditionLine] ++
      match expression with
      | some expression => [.Fixed (strBytes " on \""), .Escaped expression.bytes, .Fixed (strBytes "\"")]
      | none =>
        [.Fixed (strBytes " (condition "), .Number (conditionIndex + 1), .Fixed (strBytes " of recipe at line "),
          .Number recipeLine, .Fixed (strBytes ": "), .Fixed (humanConditionKind kind),
          .Fixed (if negated then strBytes ", negated" else []), .Fixed (strBytes ")")]
  | .RecipeEvaluated line decision =>
    [.Fixed (strBytes "procmail-rs: Recipe at line "), .Number line, .Fixed (strBytes ": "),
      .Fixed (match decision with
        | .Selected => strBytes "selected"
        | .Deferred => strBytes "waiting for more message data"
        | .Skipped => strBytes "skipped")]
  | .Delivery recipeLine destination stage path => deliveryParts errorText recipeLine destination path stage
  | .ExternalCommand recipeLine stage =>
    [.Fixed (strBytes "procmail-rs: Recipe at line "), .Number recipeLine, .Fixed (strBytes ": external command "),
      .Fixed (match stage with
        | .Starting => strBytes "started"
        | .Succeeded => strBytes "succeeded"
        | .Failed _ => strBytes "failed")]
  | .ExternalCommandExecuting line command =>
    [.Fixed (strBytes "procmail-rs: Executing at line "), .Number line] ++
      match command with
      | some command => pathParts " \"" (some command)
      | none => [.Fixed (strBytes " external command")]
  | .ExternalFilterReplaced recipeLine bytes =>
    [.Fixed (strBytes "procmail-rs: Filter at line "), .Number recipeLine, .Fixed (strBytes " replaced message: "),
      .Number bytes, .Fixed (strBytes " bytes")]
  | .HeaderOperation line kind name argument extractionMode =>
    [.Fixed (strBytes "procmail-rs: "), .Fixed (humanHeaderOperation kind), .Fixed (strBytes " header \""),
      .Fixed name.text, .Fixed (strBytes "\"")] ++
      ((argument.map (argumentParts kind)).getD [] ++
        ((extractionMode.map fun mode => [TextPart.Fixed (strBytes " ("), .Fixed (headerExtractionModeName mode),
          .Fixed (strBytes ")")]).getD [] ++ [.Fixed (strBytes " at line "), .Number line]))
  | .Log _ value => [.Fixed value.bytes, .Fixed (if value.truncated then strBytes "...[truncated]" else [])]
  | .DeliveryAbstract recipeLine destination path =>
    [.Fixed (strBytes "procmail-rs: Abstract: delivered to "), .Fixed (humanDestinationKind destination)] ++
      pathParts " \"" path ++ [.Fixed (strBytes " (recipe at line "), .Number recipeLine, .Fixed (strBytes ")")]

/-- The position and the end of the line, which a logged text has not. -/
def locationParts (location : SourceLocation) (event : TraceEvent) : List TextPart :=
  if event.isLog then []
  else
    (match location.file with
      | none => []
      | some file =>
        [.Fixed (strBytes " [rc \""), .Escaped file, .Fixed (strBytes "\""),
          .Fixed (if location.truncated then strBytes " [truncated]" else []), .Fixed (strBytes ":"),
          .Number location.line, .Fixed (strBytes "]")]) ++ [.Fixed (strBytes "\n")]

/-- The line of a record. -/
def recordParts (record : TraceRecord) : List TextPart :=
  humanParts errorText record.event ++ locationParts record.location record.event

end

/-- A logged value must be text for the text format. -/
def loggable : TraceEvent → Bool
  | .Log _ value => isText value.bytes
  | _ => true

/-! ### Writing -/

theorem writeEscaped_eq (output : BoundedText) (bytes : Bytes) :
    writeEscaped output bytes = output.write (bytes.flatMap escapedByte) := foldlM_write output escapedByte bytes

theorem renderHumanPath_eq (output : BoundedText) (path : TraceValue) :
    renderHumanPath output path = output.write (partsText (pathParts " \"" (some path))) := by
  simp [renderHumanPath, writeEscaped_eq, write_bind_write, pathParts]

theorem writeOption_renderHumanPath (output : BoundedText) (path : Option TraceValue) :
    output.writeOption renderHumanPath path = output.write (partsText (pathParts " \"" path)) := by
  cases path with
  | none => exact (write_nil output).symm
  | some path => exact renderHumanPath_eq output path

variable {errorText : IoErrorKind → Bytes}

theorem renderHumanDelivery_eq (output : BoundedText) (recipeLine : Nat) (destination : DestinationKind)
    (stage : DeliveryStage) (path : Option TraceValue) :
    renderHumanEvent errorText output (.Delivery recipeLine destination stage path) =
      output.write (partsText (deliveryParts errorText recipeLine destination path stage)) := by
  cases stage with
  | DryRun =>
    simp [renderHumanEvent, deliveryParts, writeOption_renderHumanPath, write_bind_write]
  | Preparing => simp [renderHumanEvent, deliveryParts]
  | Published =>
    simp [renderHumanEvent, deliveryParts, writeOption_renderHumanPath, write_bind_write]
  | Failed failureClass => simp [renderHumanEvent, deliveryParts]
  | Failure failure =>
    cases path with
    | none => simp [renderHumanEvent, deliveryParts, writeOption, pathParts, write_bind_write]
    | some path =>
      simp [renderHumanEvent, deliveryParts, writeOption, pathParts, writeEscaped_eq, write_bind_write]

theorem renderHumanHeaderOperation_eq (output : BoundedText) (line : Nat) (kind : HeaderOperationKind)
    (name : TraceName) (argument : Option TraceName) (extractionMode : Option HeaderExtractionMode) :
    renderHumanEvent errorText output (.HeaderOperation line kind name argument extractionMode) =
      output.write (partsText (humanParts errorText (.HeaderOperation line kind name argument extractionMode))) := by
  cases argument with
  | none => cases extractionMode <;> simp [renderHumanEvent, humanParts, writeOption, write_bind_write]
  | some argument =>
    cases kind <;> cases extractionMode <;>
      simp [renderHumanEvent, humanParts, argumentParts, writeOption, write_bind_write]

/-- An event is the text of its parts, or it does not fit; a logged value must be text besides. -/
theorem renderHumanEvent_eq (output : BoundedText) (event : TraceEvent) :
    renderHumanEvent errorText output event =
      if loggable event then output.write (partsText (humanParts errorText event)) else none := by
  cases event with
  | RcFile line statement stage target =>
    cases target with
    | none => simp [loggable, renderHumanEvent, humanParts, writeOption, pathParts]
    | some target =>
      simp [loggable, renderHumanEvent, humanParts, writeOption, pathParts, renderHumanPath_eq, write_bind_write]
  | SessionStarted pid timestamp => simp [loggable, renderHumanEvent, humanParts]
  | VariableAssigned line name source value =>
    cases line <;> cases value <;>
      simp [loggable, renderHumanEvent, humanParts, writeEscaped_eq, write_bind_write]
  | VariableUnset line name source => cases line <;> simp [loggable, renderHumanEvent, humanParts]
  | LastFolderUpdated => simp [loggable, renderHumanEvent, humanParts]
  | ConditionEvaluated recipeLine conditionLine conditionIndex kind negated wasMatched expression =>
    cases expression <;> simp [loggable, renderHumanEvent, humanParts, writeEscaped_eq, write_bind_write]
  | RecipeEvaluated line decision => cases decision <;> simp [loggable, renderHumanEvent, humanParts]
  | Delivery recipeLine destination stage path => exact renderHumanDelivery_eq output recipeLine destination stage path
  | ExternalCommand recipeLine stage => cases stage <;> simp [loggable, renderHumanEvent, humanParts]
  | ExternalCommandExecuting line command =>
    cases command <;> simp [loggable, renderHumanEvent, humanParts, renderHumanPath_eq, write_bind_write]
  | ExternalFilterReplaced recipeLine bytes => simp [loggable, renderHumanEvent, humanParts]
  | HeaderOperation line kind name argument extractionMode =>
    exact renderHumanHeaderOperation_eq output line kind name argument extractionMode
  | Log line value =>
    by_cases htext : isText value.bytes = true
    · simp [loggable, renderHumanEvent, humanParts, htext, write_bind_write]
    · simp [loggable, renderHumanEvent, htext]
  | DeliveryAbstract recipeLine destination path =>
    simp [loggable, renderHumanEvent, humanParts, writeOption_renderHumanPath, write_bind_write]

theorem renderRecord_text (record : TraceRecord) :
    renderRecord errorText record .Text =
      if loggable record.event then
        (BoundedText.new maxTraceEventSize).write (partsText (recordParts errorText record))
      else none := by
  have hend : (TraceFormat.Text == TraceFormat.Json || !record.event.isLog) = !record.event.isLog := rfl
  by_cases hloggable : loggable record.event = true
  · simp only [renderRecord, Option.bind_eq_bind, renderHumanEvent_eq, hloggable, if_true, hend]
    rw [recordParts, partsText_append, ← write_bind_write]
    congr 1
    funext output
    cases hlog : record.event.isLog with
    | true => cases hfile : record.location.file <;> simp [renderSourceLocation, locationParts, hlog, hfile]
    | false =>
      cases hfile : record.location.file with
      | none => simp [renderSourceLocation, locationParts, hlog, hfile]
      | some file =>
        simp [renderSourceLocation, locationParts, hlog, hfile, writeEscaped_eq, write_bind_write]
  · simp [renderRecord, renderHumanEvent_eq, hloggable]

end ProcmailRs
