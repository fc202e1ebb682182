import ProcmailRs.Lib.Json
import ProcmailRs.Proofs.DecimalProofs
import ProcmailRs.Trace.Writer

/-!
# JSON trace records

A JSON record is one object on one line, and its members are what the event says, byte by byte: whatever
a name, a value or a path holds, the record is read back as it was meant.
-/

namespace ProcmailRs

open Config Json

/-! ### What a record says -/

/-- A member with a text. -/
def textMember (name : String) (text : Bytes) : Member := (strBytes name, .Text text)

/-- A member with a number. -/
def numberMember (name : String) (value : Nat) : Member := (strBytes name, .Number value)

/-- A member with a truth value. -/
def truthMember (name : String) (value : Bool) : Member := (strBytes name, .Truth value)

/-- A value that may be missing, and whether it is cut. -/
def valueMembers (name : Bytes) : Option TraceValue → List Member
  | none => []
  | some value => [(name, .Text value.bytes), (name ++ strBytes "_truncated", .Truth value.truncated)]

section

variable (errorText : IoErrorKind → Bytes)

/-- The stage of a delivery, with what is known of a failure. -/
def stageMembers : DeliveryStage → List Member
  | .Preparing => [textMember "stage" (strBytes "preparing")]
  | .DryRun => [textMember "stage" (strBytes "dry-run")]
  | .Published => [textMember "stage" (strBytes "published")]
  | .Failed failureClass =>
    [textMember "stage" (strBytes "failed failure_class=" ++ failureClassName failureClass)]
  | .Failure failure =>
    [textMember "stage" (strBytes "failed"),
      textMember "failure_class" (deliveryFailureClassName failure.failureClass),
      textMember "reason" (errorText failure.kind), textMember "operation" failure.operation.name,
      truthMember "published" failure.published]

/-- The text of a stage. -/
def externalStageText : ExternalCommandStage → Bytes
  | .Starting => strBytes "starting"
  | .Succeeded => strBytes "succeeded"
  | .Failed failureClass => strBytes "failed failure_class=" ++ failureClassName failureClass

/-- The members of an event. -/
def jsonMembers : TraceEvent → List Member
  | .RcFile line statement stage target =>
    [textMember "event" (strBytes "rc-file"), numberMember "line" line, textMember "statement" statement.name,
      textMember "stage" stage.name] ++ valueMembers (strBytes "target") target
  | .SessionStarted pid timestamp =>
    [textMember "event" (strBytes "session-start"), numberMember "pid" pid, textMember "timestamp" timestamp]
  | .VariableAssigned line name source value =>
    [textMember "event" (strBytes "variable-assigned"), numberMember "line" (line.getD 0),
      textMember "name" name.text, textMember "source" (variableSourceName source)] ++
      valueMembers (strBytes "value") value
  | .VariableUnset line name source =>
    [textMember "event" (strBytes "variable-unset"), numberMember "line" (line.getD 0),
      textMember "name" name.text, textMember "source" (variableSourceName source)]
  | .LastFolderUpdated => [textMember "event" (strBytes "last-folder-updated")]
  | .ConditionEvaluated recipeLine conditionLine conditionIndex kind negated wasMatched expression =>
    [textMember "event" (strBytes "condition"), numberMember "recipe_line" recipeLine,
      numberMember "condition_line" conditionLine, numberMember "condition_index" conditionIndex,
      textMember "kind" (conditionKindName kind), truthMember "negated" negated,
      truthMember "matched" wasMatched] ++ valueMembers (strBytes "expression") expression
  | .RecipeEvaluated line decision =>
    [textMember "event" (strBytes "recipe"), numberMember "line" line,
      textMember "decision" (recipeDecisionName decision)]
  | .Delivery recipeLine destination stage path =>
    [textMember "event" (strBytes "delivery"), numberMember "recipe_line" recipeLine,
      textMember "destination" (destinationKindName destination)] ++ stageMembers errorText stage ++
      valueMembers (strBytes "path") path
  | .ExternalCommand recipeLine stage =>
    [textMember "event" (strBytes "external-command"), numberMember "recipe_line" recipeLine,
      textMember "stage" (externalStageText stage)]
  | .ExternalCommandExecuting line command =>
    [textMember "event" (strBytes "external-command-executing"), numberMember "line" line] ++
      valueMembers (strBytes "command") command
  | .ExternalFilterReplaced recipeLine bytes =>
    [textMember "event" (strBytes "external-filter-replaced"), numberMember "recipe_line" recipeLine,
      numberMember "bytes" bytes]
  | .HeaderOperation line kind name argument extractionMode =>
    [textMember "event" (strBytes "header-operation"), numberMember "line" line,
      textMember "operation" (headerOperationKindName kind), textMember "name" name.text] ++
      (argument.map fun argument => textMember "argument" argument.text).toList ++
      (extractionMode.map fun mode => textMember "extraction_mode" (headerExtractionModeName mode)).toList
  | .Log line value =>
    [textMember "event" (strBytes "log"), numberMember "line" line] ++ valueMembers (strBytes "value") (some value)
  | .DeliveryAbstract recipeLine destination path =>
    [textMember "event" (strBytes "delivery-abstract"), numberMember "recipe_line" recipeLine,
      textMember "destination" (destinationKindName destination)] ++ valueMembers (strBytes "path") path

/-- The file of a position. -/
def locationMembers (location : SourceLocation) : List Member :=
  match location.file with
  | none => []
  | some file =>
    textMember "rc_file" file :: if location.truncated then [truthMember "rc_file_truncated" true] else []

/-- The members of a record. -/
def recordMembers (record : TraceRecord) : List Member :=
  jsonMembers errorText record.event ++ locationMembers record.location

end

/-! ### Writing -/

namespace BoundedText

variable (output : BoundedText)

theorem write_of_fits {value : Bytes} (h : (output.bytes ++ value).length ≤ output.limit) :
    output.write value = some ⟨output.bytes ++ value, output.limit, h⟩ := dif_pos h

theorem write_of_not_fits {value : Bytes} (h : ¬(output.bytes ++ value).length ≤ output.limit) :
    output.write value = none := dif_neg h

@[simp] theorem write_nil : output.write [] = some output := by
  simp [write, output.fits]

/-- Two writes are one of both texts: a text that does not fit cannot be made to fit by writing more. -/
theorem write_bind_write (first second : Bytes) :
    ((output.write first).bind fun output => output.write second) = output.write (first ++ second) := by
  by_cases hfirst : (output.bytes ++ first).length ≤ output.limit
  · rw [write_of_fits _ hfirst, Option.bind_some]
    simp only [write, List.append_assoc]
  · have hboth : ¬(output.bytes ++ (first ++ second)).length ≤ output.limit := by
      simp only [List.length_append] at hfirst ⊢
      omega
    rw [write_of_not_fits _ hfirst, write_of_not_fits _ hboth, Option.bind_none]

/-- A text whose last byte is replaced by more than it was fits only if it fitted before. -/
theorem write_pop_write (body tail : Bytes) (byte : UInt8) (htail : tail ≠ []) :
    ((output.write (body ++ [byte])).bind fun output =>
      (output.pop byte).bind fun output => output.write tail) = output.write (body ++ tail) := by
  have htail : 0 < tail.length := List.length_pos_of_ne_nil htail
  by_cases hbody : (output.bytes ++ (body ++ [byte])).length ≤ output.limit
  · have hshort : (output.bytes ++ body).length ≤ output.limit := by
      simp only [List.length_append, List.length_singleton] at hbody ⊢
      omega
    have hpop : (⟨output.bytes ++ (body ++ [byte]), output.limit, hbody⟩ : BoundedText).pop byte =
        some ⟨output.bytes ++ body, output.limit, hshort⟩ := by
      simp [pop, ← List.append_assoc]
    rw [write_of_fits _ hbody, Option.bind_some, hpop, ← write_bind_write, write_of_fits _ hshort]
  · have hlong : ¬(output.bytes ++ (body ++ tail)).length ≤ output.limit := by
      simp only [List.length_append, List.length_singleton] at hbody ⊢
      omega
    rw [write_of_not_fits _ hbody, write_of_not_fits _ hlong, Option.bind_none]

theorem foldlM_write (text : UInt8 → Bytes) (bytes : Bytes) :
    bytes.foldlM (fun output byte => output.write (text byte)) output = output.write (bytes.flatMap text) := by
  induction bytes generalizing output with
  | nil => simp
  | cons byte bytes ih =>
    rw [List.foldlM_cons, List.flatMap_cons, ← write_bind_write]
    exact congrArg _ (funext fun output => ih output)

end BoundedText

open BoundedText

theorem jsonByte_eq (byte : UInt8) : jsonByte byte = escaped byte := by
  have hprintable : isPrintableAscii byte = isPrintable byte := rfl
  unfold jsonByte escaped
  rw [hprintable]
  split_ifs <;> rfl

theorem decimal_eq_number (value : Nat) : decimal value = number value := by
  rw [decimal_eq, number, utf8]
  have hdigits : ∀ c ∈ Nat.toDigits 10 value, c.isDigit = true := fun c hc => isDigit_of_mem hc
  generalize Nat.toDigits 10 value = digits at hdigits
  induction digits with
  | nil => rfl
  | cons c digits ih =>
    rw [List.flatMap_cons, (utf8EncodeChar_digit (hdigits c List.mem_cons_self)).1,
      ih fun d hd => hdigits d (List.mem_cons_of_mem _ hd)]
    rfl

theorem truthText_eq (value : Bool) : truthText value = truth value := by
  cases value <;> rfl

theorem renderJsonString_eq (output : BoundedText) (value : Bytes) :
    renderJsonString output value = output.write (quoted value) := by
  have hbytes : (fun (output : BoundedText) byte => output.write (jsonByte byte)) =
      fun output byte => output.write (escaped byte) := by
    funext output byte
    rw [jsonByte_eq]
  simp only [renderJsonString, Option.bind_eq_bind, hbytes, foldlM_write, write_bind_write]
  rfl

/-! ### Plain texts -/

/-- The text needs no escapes. -/
def Plain (text : Bytes) : Prop := text.flatMap escaped = text

instance (text : Bytes) : Decidable (Plain text) := inferInstanceAs (Decidable (_ = _))

theorem Plain.quoted {text : Bytes} (h : Plain text) : quoted text = 34 :: (text ++ [34]) := by
  rw [Json.quoted, h]

theorem Plain.append {first second : Bytes} (hfirst : Plain first) (hsecond : Plain second) :
    Plain (first ++ second) := by
  rw [Plain, List.flatMap_append, hfirst, hsecond]

theorem plain_of_forall {text : Bytes} (h : ∀ byte ∈ text, isPrintable byte = true ∧ byte ≠ 34 ∧ byte ≠ 92) :
    Plain text := by
  induction text with
  | nil => rfl
  | cons byte text ih =>
    obtain ⟨hprintable, hmark, hslash⟩ := h byte List.mem_cons_self
    have hbyte : escaped byte = [byte] := by
      have hcontrol : byte ≠ 10 ∧ byte ≠ 13 ∧ byte ≠ 9 := by
        refine ⟨?_, ?_, ?_⟩ <;> rintro rfl <;> cases hprintable
      simp [escaped, hmark, hslash, hcontrol, hprintable]
    rw [Plain, List.flatMap_cons, hbyte, ih fun other hother => h other (List.mem_cons_of_mem _ hother)]
    rfl

theorem plain_statement (statement : RcFileStatement) : Plain statement.name := by
  cases statement <;> decide

theorem plain_rcFileStage (stage : RcFileStage) : Plain stage.name := by
  cases stage <;> decide

theorem plain_variableSource (source : VariableSource) : Plain (variableSourceName source) := by
  cases source <;> decide

theorem plain_conditionKind (kind : ConditionKind) : Plain (conditionKindName kind) := by
  cases kind <;> decide

theorem plain_recipeDecision (decision : RecipeDecision) : Plain (recipeDecisionName decision) := by
  cases decision <;> decide

theorem plain_destinationKind (kind : DestinationKind) : Plain (destinationKindName kind) := by
  cases kind <;> decide

theorem plain_deliveryOperation (operation : DeliveryOperation) : Plain operation.name := by
  cases operation <;> decide

theorem plain_failureClass (failureClass : FailureClass) : Plain (failureClassName failureClass) := by
  cases failureClass <;> decide

theorem plain_deliveryFailureClass (failureClass : DeliveryFailureClass) :
    Plain (deliveryFailureClassName failureClass) := by
  cases failureClass <;> decide

theorem plain_headerOperationKind (kind : HeaderOperationKind) : Plain (headerOperationKindName kind) := by
  cases kind <;> decide

theorem plain_headerExtractionMode (mode : HeaderExtractionMode) : Plain (headerExtractionModeName mode) := by
  cases mode <;> decide

theorem plain_externalStage (stage : ExternalCommandStage) : Plain (externalStageText stage) := by
  cases stage with
  | Starting => decide
  | Succeeded => decide
  | Failed failureClass => exact Plain.append (by decide) (plain_failureClass failureClass)

/-! ### Events -/

theorem renderJsonValue_eq {name : Bytes} (hname : Plain name) (output : BoundedText) (value : TraceValue) :
    renderJsonValue name output value = output.write (furtherMembers (valueMembers name (some value))) := by
  have htruncated : Plain (name ++ strBytes "_truncated") := hname.append (by decide)
  simp only [renderJsonValue, Option.bind_eq_bind, renderJsonString_eq, write_bind_write, truthText_eq]
  congr 1
  simp only [furtherMembers, valueMembers, List.flatMap_cons, List.flatMap_nil, member, hname.quoted, htruncated.quoted,
    Scalar.text, List.append_assoc, List.cons_append, List.append_nil]
  rfl

theorem writeOption_renderJsonValue {name : Bytes} (hname : Plain name) (output : BoundedText)
    (value : Option TraceValue) :
    output.writeOption (renderJsonValue name) value = output.write (furtherMembers (valueMembers name value)) := by
  cases value with
  | none => exact (write_nil output).symm
  | some value => exact renderJsonValue_eq hname output value

section

variable {errorText : IoErrorKind → Bytes} (herror : ∀ kind, Plain (errorText kind))

theorem furtherMembers_append (first second : List Member) :
    furtherMembers (first ++ second) = furtherMembers first ++ furtherMembers second := List.flatMap_append

theorem furtherMembers_cons (m : Member) (members : List Member) :
    furtherMembers (m :: members) = 44 :: (member m ++ furtherMembers members) := rfl

theorem furtherMembers_nil : furtherMembers [] = [] := rfl

theorem member_text (name : String) (text : Bytes) :
    member (textMember name text) = quoted (strBytes name) ++ 58 :: quoted text := rfl

theorem member_plain (name : String) {text : Bytes} (h : Plain text) :
    member (textMember name text) = quoted (strBytes name) ++ 58 :: 34 :: (text ++ [34]) := by
  rw [member_text, h.quoted]

theorem member_number (name : String) (value : Nat) :
    member (numberMember name value) = quoted (strBytes name) ++ 58 :: decimal value := by
  rw [decimal_eq_number]
  rfl

theorem member_truth (name : String) (value : Bool) :
    member (truthMember name value) = quoted (strBytes name) ++ 58 :: truthText value := by
  rw [truthText_eq]
  rfl

/-- What stands before the value of a further member. -/
def keyText (key : String) : Bytes := 44 :: (quoted (strBytes key) ++ [58])

/-- The start of an object up to the value of its second member. -/
def openingText (event key : String) : Bytes :=
  123 :: (quoted (strBytes "event") ++ 58 :: (quoted (strBytes event) ++ keyText key))

theorem renderExternalStage_eq (output : BoundedText) (stage : ExternalCommandStage) :
    renderExternalStage output stage = output.write (externalStageText stage) := by
  cases stage <;> rfl

/-- What only a few events have is a member of its own, or nothing. -/
theorem writeOption_argument (output : BoundedText) (argument : Option TraceName) :
    (output.writeOption (fun output (argument : TraceName) =>
      output.write (strBytes ",\"argument\":" ++ quoted argument.text)) argument) =
      output.write (furtherMembers (argument.map fun argument => textMember "argument" argument.text).toList) := by
  cases argument with
  | none => exact (write_nil output).symm
  | some argument =>
    rw [writeOption, Option.map_some, Option.toList_some, furtherMembers_cons, member_text]
    congr 1
    simp only [furtherMembers, List.flatMap_nil, List.append_nil]
    rfl

theorem writeOption_mode (output : BoundedText) (mode : Option HeaderExtractionMode) :
    (output.writeOption (fun output mode =>
      output.write (strBytes ",\"extraction_mode\":\"" ++ (headerExtractionModeName mode ++ strBytes "\""))) mode) =
      output.write (furtherMembers
        (mode.map fun mode => textMember "extraction_mode" (headerExtractionModeName mode)).toList) := by
  cases mode with
  | none => exact (write_nil output).symm
  | some mode =>
    rw [writeOption, Option.map_some, Option.toList_some, furtherMembers_cons,
      member_plain _ (plain_headerExtractionMode mode)]
    congr 1
    simp only [furtherMembers, List.flatMap_nil, List.append_nil]
    rfl

include herror in
theorem renderJsonDelivery_eq (output : BoundedText) (recipeLine : Nat) (destination : DestinationKind)
    (stage : DeliveryStage) (path : Option TraceValue) :
    renderJsonEvent errorText output (.Delivery recipeLine destination stage path) =
      output.write (object (jsonMembers errorText (.Delivery recipeLine destination stage path))) := by
  have hpath : Plain (strBytes "path") := by decide
  have hopen : strBytes "\x7b\"event\":\"delivery\",\"recipe_line\":" = openingText "delivery" "recipe_line" := by decide +kernel
  have hdestination : strBytes ",\"destination\":\"" = keyText "destination" ++ [34] := by decide +kernel
  have hnext : strBytes "\",\"stage\":\"" = 34 :: (keyText "stage" ++ [34]) := by decide +kernel
  have hmark : strBytes "\"" = [34] := rfl
  have hclose : strBytes "\x7d" = [125] := rfl
  have hstage (text : Bytes) (htext : Plain text) :
      strBytes "\x7b\"event\":\"delivery\",\"recipe_line\":" ++ (decimal recipeLine ++
        (strBytes ",\"destination\":\"" ++ (destinationKindName destination ++
          (strBytes "\",\"stage\":\"" ++ (text ++ (strBytes "\"" ++
            (furtherMembers (valueMembers (strBytes "path") path) ++ strBytes "\x7d"))))))) =
        object ([textMember "event" (strBytes "delivery"), numberMember "recipe_line" recipeLine,
          textMember "destination" (destinationKindName destination)] ++ [textMember "stage" text] ++
          valueMembers (strBytes "path") path) := by
    simp only [object, List.cons_append, List.nil_append, furtherMembers_cons, member_number,
      member_plain _ (plain_destinationKind destination), member_plain _ htext, member_text, List.append_assoc, hopen,
      hdestination, hnext, hmark, hclose, openingText, keyText]
  cases stage with
  | Failure failure =>
    have hfailed : strBytes "failed\",\"failure_class\":\"" =
      strBytes "failed" ++ 34 :: (keyText "failure_class" ++ [34]) := by decide +kernel
    have hreason : strBytes "\",\"reason\":\"" = 34 :: (keyText "reason" ++ [34]) := by decide +kernel
    have hoperation : strBytes "\",\"operation\":\"" = 34 :: (keyText "operation" ++ [34]) := by decide +kernel
    have hpublished : strBytes "\",\"published\":" = 34 :: keyText "published" := by decide +kernel
    have hstaged : Plain (strBytes "failed") := by decide
    simp only [renderJsonEvent, Option.bind_eq_bind, writeOption_renderJsonValue hpath, write_bind_write, jsonMembers,
      stageMembers, object, List.cons_append, List.nil_append, furtherMembers_cons, member_number, member_truth,
      member_plain _ (plain_destinationKind destination), member_plain _ (herror failure.kind),
      member_plain _ (plain_deliveryOperation failure.operation), member_plain "stage" hstaged,
      member_plain _ (plain_deliveryFailureClass failure.failureClass), member_text, List.append_assoc, hopen,
      hdestination, hnext, hfailed, hreason, hoperation, hpublished, hclose, openingText, keyText]
  | Preparing | DryRun | Published =>
    simp only [renderJsonEvent, renderDeliveryStage, Option.bind_eq_bind, writeOption_renderJsonValue hpath,
      write_bind_write, jsonMembers, stageMembers, List.append_assoc]
    exact congrArg output.write (hstage _ (by decide))
  | Failed failureClass =>
    have htext := Plain.append (by decide : Plain (strBytes "failed failure_class=")) (plain_failureClass failureClass)
    simp only [renderJsonEvent, renderDeliveryStage, Option.bind_eq_bind, writeOption_renderJsonValue hpath,
      write_bind_write, jsonMembers, stageMembers, List.append_assoc]
    simpa only [List.append_assoc] using congrArg output.write (hstage _ htext)

include herror in
theorem renderJsonEvent_eq (output : BoundedText) (event : TraceEvent) :
    renderJsonEvent errorText output event = output.write (object (jsonMembers errorText event)) := by
  have hmark : strBytes "\"" = [34] := rfl
  have hclose : strBytes "\x7d" = [125] := rfl
  have hend : strBytes "\"\x7d" = [34, 125] := rfl
  have hname : strBytes ",\"name\":" = keyText "name" := by decide +kernel
  cases event with
  | RcFile line statement stage target =>
    have htarget : Plain (strBytes "target") := by decide
    have hopen : strBytes "\x7b\"event\":\"rc-file\",\"line\":" = openingText "rc-file" "line" := by decide +kernel
    have hstatement : strBytes ",\"statement\":\"" = keyText "statement" ++ [34] := by decide +kernel
    have hstage : strBytes "\",\"stage\":\"" = 34 :: (keyText "stage" ++ [34]) := by decide +kernel
    simp only [renderJsonEvent, Option.bind_eq_bind, writeOption_renderJsonValue htarget, write_bind_write, jsonMembers,
      object, List.cons_append, List.nil_append, furtherMembers_cons, member_number, member_plain _ (plain_statement statement),
      member_plain _ (plain_rcFileStage stage), member_text, List.append_assoc, hopen, hstatement, hstage, hmark, hclose,
      openingText, keyText]
  | SessionStarted pid timestamp =>
    have hopen : strBytes "\x7b\"event\":\"session-start\",\"pid\":" = openingText "session-start" "pid" := by decide +kernel
    have htimestamp : strBytes ",\"timestamp\":" = keyText "timestamp" := by decide +kernel
    simp only [renderJsonEvent, Option.bind_eq_bind, renderJsonString_eq, write_bind_write, jsonMembers, object,
      furtherMembers_cons, furtherMembers_nil, member_number, member_text, List.append_assoc, List.cons_append,
      List.nil_append, hopen, htimestamp, hclose, openingText, keyText]
  | VariableAssigned line name source value =>
    have hvalue : Plain (strBytes "value") := by decide
    have hopen : strBytes "\x7b\"event\":\"variable-assigned\",\"line\":" = openingText "variable-assigned" "line" := by decide +kernel
    have hsource : strBytes ",\"source\":\"" = keyText "source" ++ [34] := by decide +kernel
    simp only [renderJsonEvent, Option.bind_eq_bind, renderJsonString_eq, writeOption_renderJsonValue hvalue,
      write_bind_write, jsonMembers, object, List.cons_append, List.nil_append, furtherMembers_cons, member_number,
      member_plain _ (plain_variableSource source), member_text, List.append_assoc, hopen, hname, hsource, hmark, hclose,
      openingText, keyText]
  | VariableUnset line name source =>
    have hopen : strBytes "\x7b\"event\":\"variable-unset\",\"line\":" = openingText "variable-unset" "line" := by decide +kernel
    have hsource : strBytes ",\"source\":\"" = keyText "source" ++ [34] := by decide +kernel
    simp only [renderJsonEvent, Option.bind_eq_bind, renderJsonString_eq, write_bind_write, jsonMembers, object,
      furtherMembers_cons, furtherMembers_nil, member_number, member_plain _ (plain_variableSource source), member_text,
      List.append_assoc, List.cons_append, List.nil_append, hopen, hname, hsource, hend, openingText, keyText]
  | LastFolderUpdated => rfl
  | ConditionEvaluated recipeLine conditionLine conditionIndex kind negated wasMatched expression =>
    have hexpression : Plain (strBytes "expression") := by decide
    have hopen : strBytes "\x7b\"event\":\"condition\",\"recipe_line\":" = openingText "condition" "recipe_line" := by decide +kernel
    have hline : strBytes ",\"condition_line\":" = keyText "condition_line" := by decide +kernel
    have hindex : strBytes ",\"condition_index\":" = keyText "condition_index" := by decide +kernel
    have hkind : strBytes ",\"kind\":\"" = keyText "kind" ++ [34] := by decide +kernel
    have hnegated : strBytes "\",\"negated\":" = 34 :: keyText "negated" := by decide +kernel
    have hmatched : strBytes ",\"matched\":" = keyText "matched" := by decide +kernel
    simp only [renderJsonEvent, Option.bind_eq_bind, writeOption_renderJsonValue hexpression, write_bind_write,
      jsonMembers, object, List.cons_append, List.nil_append, furtherMembers_cons, member_number, member_truth,
      member_plain _ (plain_conditionKind kind), member_text, List.append_assoc, hopen, hline, hindex, hkind, hnegated,
      hmatched, hclose, openingText, keyText]
  | RecipeEvaluated line decision =>
    have hopen : strBytes "\x7b\"event\":\"recipe\",\"line\":" = openingText "recipe" "line" := by decide +kernel
    have hdecision : strBytes ",\"decision\":\"" = keyText "decision" ++ [34] := by decide +kernel
    simp only [renderJsonEvent, jsonMembers, object, furtherMembers_cons, furtherMembers_nil, member_number,
      member_plain _ (plain_recipeDecision decision), member_text, List.append_assoc, List.cons_append, List.nil_append,
      hopen, hdecision, hend, openingText, keyText]
  | Delivery recipeLine destination stage path => exact renderJsonDelivery_eq herror output recipeLine destination stage path
  | ExternalCommand recipeLine stage =>
    have hopen : strBytes "\x7b\"event\":\"external-command\",\"recipe_line\":" =
      openingText "external-command" "recipe_line" := by decide +kernel
    have hstage : strBytes ",\"stage\":\"" = keyText "stage" ++ [34] := by decide +kernel
    simp only [renderJsonEvent, Option.bind_eq_bind, renderExternalStage_eq, write_bind_write, jsonMembers, object,
      furtherMembers_cons, furtherMembers_nil, member_number, member_plain _ (plain_externalStage stage), member_text,
      List.append_assoc, List.cons_append, List.nil_append, hopen, hstage, hend, openingText, keyText]
  | ExternalCommandExecuting line command =>
    have hcommand : Plain (strBytes "command") := by decide
    have hopen : strBytes "\x7b\"event\":\"external-command-executing\",\"line\":" =
      openingText "external-command-executing" "line" := by decide +kernel
    simp only [renderJsonEvent, Option.bind_eq_bind, writeOption_renderJsonValue hcommand, write_bind_write,
      jsonMembers, object, List.cons_append, List.nil_append, furtherMembers_cons, member_number, member_text,
      List.append_assoc, hopen, hclose, openingText, keyText]
  | ExternalFilterReplaced recipeLine bytes =>
    have hopen : strBytes "\x7b\"event\":\"external-filter-replaced\",\"recipe_line\":" =
      openingText "external-filter-replaced" "recipe_line" := by decide +kernel
    have hbytes : strBytes ",\"bytes\":" = keyText "bytes" := by decide +kernel
    simp only [renderJsonEvent, jsonMembers, object, furtherMembers_cons, furtherMembers_nil, member_number, member_text,
      List.append_assoc, List.cons_append, List.nil_append, hopen, hbytes, hclose, openingText, keyText]
  | HeaderOperation line kind name argument extractionMode =>
    have hopen : strBytes "\x7b\"event\":\"header-operation\",\"line\":" = openingText "header-operation" "line" := by decide +kernel
    have hoperation : strBytes ",\"operation\":\"" = keyText "operation" ++ [34] := by decide +kernel
    have hoperand : strBytes "\",\"name\":" = 34 :: keyText "name" := by decide +kernel
    simp only [renderJsonEvent, Option.bind_eq_bind, renderJsonString_eq, writeOption_argument, writeOption_mode,
      write_bind_write, jsonMembers, object, List.cons_append, List.nil_append, furtherMembers_append,
      furtherMembers_cons, member_number, member_plain _ (plain_headerOperationKind kind), member_text, List.append_assoc,
      hopen, hoperation, hoperand, hclose, openingText, keyText]
  | Log line value =>
    have hvalue : Plain (strBytes "value") := by decide
    have hopen : strBytes "\x7b\"event\":\"log\",\"line\":" = openingText "log" "line" := by decide +kernel
    simp only [renderJsonEvent, Option.bind_eq_bind, renderJsonValue_eq hvalue, write_bind_write, jsonMembers, object,
      List.cons_append, List.nil_append, furtherMembers_cons, member_number, member_text, List.append_assoc, hopen, hclose,
      openingText, keyText]
  | DeliveryAbstract recipeLine destination path =>
    have hpath : Plain (strBytes "path") := by decide
    have hopen : strBytes "\x7b\"event\":\"delivery-abstract\",\"recipe_line\":" =
      openingText "delivery-abstract" "recipe_line" := by decide +kernel
    have hdestination : strBytes ",\"destination\":\"" = keyText "destination" ++ [34] := by decide +kernel
    simp only [renderJsonEvent, Option.bind_eq_bind, writeOption_renderJsonValue hpath, write_bind_write, jsonMembers,
      object, List.cons_append, List.nil_append, furtherMembers_cons, member_number,
      member_plain _ (plain_destinationKind destination), member_text, List.append_assoc, hopen, hdestination, hmark,
      hclose, openingText, keyText]

/-! ### Records -/

theorem jsonMembers_ne_nil (event : TraceEvent) : jsonMembers errorText event ≠ [] := by
  cases event <;> simp [jsonMembers]

/-- The position is written as further members. -/
theorem renderSourceLocation_json {file : Bytes} (output : BoundedText) (location : SourceLocation)
    (event : TraceEvent) (hfile : location.file = some file) :
    renderSourceLocation output .Json location event =
      (output.pop 125).bind fun output => output.write (furtherMembers (locationMembers location) ++ [125]) := by
  have hmembers : furtherMembers (locationMembers location) ++ [125] =
      strBytes ",\"rc_file\":" ++ (quoted file ++
        ((if location.truncated then strBytes ",\"rc_file_truncated\":true" else []) ++ strBytes "\x7d")) := by
    rw [locationMembers, hfile]
    simp only [furtherMembers_cons, member_text, List.append_assoc, List.cons_append]
    cases location.truncated <;> rfl
  rw [renderSourceLocation, hfile, hmembers]
  simp only [Option.bind_eq_bind, renderJsonString_eq, write_bind_write]

include herror in
/-- A record is the object of its members and the end of the line, or it does not fit. -/
theorem renderRecord_json (record : TraceRecord) :
    renderRecord errorText record .Json =
      (BoundedText.new maxTraceEventSize).write (object (recordMembers errorText record) ++ strBytes "\n") := by
  have hne : jsonMembers errorText record.event ≠ [] := jsonMembers_ne_nil record.event
  obtain ⟨first, others, hmembers⟩ := List.exists_cons_of_ne_nil hne
  have hobject (further : List Member) : object (first :: others ++ further) =
      123 :: (member first ++ furtherMembers others) ++ (furtherMembers further ++ [125]) := by
    simp [object, furtherMembers_append]
  have hend : (TraceFormat.Json == TraceFormat.Json || !record.event.isLog) = true := rfl
  simp only [renderRecord, Option.bind_eq_bind, renderJsonEvent_eq herror, hend, if_true]
  rw [recordMembers, hmembers]
  cases hfile : record.location.file with
  | none =>
    have hlocation (output : BoundedText) :
        renderSourceLocation output .Json record.location record.event = some output := by
      rw [renderSourceLocation, hfile]
    simp only [hlocation, Option.bind_some, write_bind_write, locationMembers, hfile, List.append_nil]
  | some file =>
    have hopen : object (first :: others) = 123 :: (member first ++ furtherMembers others) ++ [125] := by
      simp [object]
    simp only [renderSourceLocation_json _ _ _ hfile, hobject, Option.bind_assoc, write_bind_write]
    rw [hopen, write_pop_write _ _ _ _ (by simp), ← List.append_assoc]

end

/-- Whatever a record is about, its text is one line of printable ASCII, and an object that is read back as the
record's members: the bytes of every name, value and path are the ones that the record was given. -/
theorem json_records_read_back {errorText : IoErrorKind → Bytes}
    (herror : ∀ kind, ∀ byte ∈ errorText kind, isPrintable byte = true ∧ byte ≠ 34 ∧ byte ≠ 92) (record : TraceRecord) :
    ∃ line, renderRecord errorText record .Json = (BoundedText.new maxTraceEventSize).write (line ++ [LF]) ∧
      (∀ byte ∈ line, isPrintable byte = true) ∧ readObject line = some (recordMembers errorText record) :=
  ⟨object (recordMembers errorText record), renderRecord_json (fun kind => plain_of_forall (herror kind)) record,
    isPrintable_object _, readObject_object _⟩

/-- The texts of two kinds, and one for all others. -/
def shortErrorText : IoErrorKind → Bytes
  | .NotFound => strBytes "entity not found"
  | .PermissionDenied => strBytes "permission denied"
  | _ => strBytes "other error"

theorem shortErrorText_plain (kind : IoErrorKind) :
    ∀ byte ∈ shortErrorText kind, isPrintable byte = true ∧ byte ≠ 34 ∧ byte ≠ 92 := by
  cases kind <;> simp only [shortErrorText] <;> decide +kernel

/-- A failed delivery to a path with a quotation mark, a line feed and a byte that is no text. -/
def failedRecord : TraceRecord :=
  ⟨.Delivery 3 .Maildir (.Failure ⟨.Permanent, .Open, .NotFound, false⟩) (some (.new [34, 10, 255])),
    ⟨3, some (strBytes "a\"b"), false⟩⟩

theorem json_records_read_back_failed :
    ∃ line, renderRecord shortErrorText failedRecord .Json = (BoundedText.new maxTraceEventSize).write (line ++ [LF]) ∧
      (∀ byte ∈ line, isPrintable byte = true) ∧
      readObject line = some (recordMembers shortErrorText failedRecord) :=
  json_records_read_back shortErrorText_plain failedRecord

end ProcmailRs
