import ProcmailRs.HeaderEdit.Storage
import ProcmailRs.StructuredHeader

/-!
# Header editing

A `headers` action is a list of operations that run in source order on one edited header. Every
operation is followed by a check of the aggregate size, and the whole action by a validation of the
bytes it would deliver; a failure at any point discards the edited header, so the version before the
action stays as it was.
-/

namespace ProcmailRs

/-- How long the value of a variable may be. -/
def maxAssignmentValueLen : Nat := 64 * 1024

/-- The text of a header operation, after expansion. -/
structure HeaderValue where
  source : String
  deriving DecidableEq, Repr

/-- How the value of a field is read. -/
inductive HeaderExtractionMode
  | Raw
  | Unfolded
  | Decoded
  deriving DecidableEq, Repr

/-- What becomes of the keywords of a message. -/
inductive HeaderKeywordsMode
  | Add (value : HeaderValue)
  | Remove (value : HeaderValue)
  | Set (value : HeaderValue)
  | Clear
  deriving DecidableEq, Repr

/-- What becomes of the priority of a message. -/
inductive HeaderPriorityMode
  | High
  | Normal
  | Low
  | Clear
  deriving DecidableEq, Repr

/-- What becomes of the status of a message. -/
inductive HeaderStatusMode
  | Add (value : HeaderValue)
  | Remove (value : HeaderValue)
  | Set (value : HeaderValue)
  | Clear
  deriving DecidableEq, Repr

/-- An operation on the header, with the line it stands in. -/
inductive HeaderOperation
  | Remove (line : Nat) (name : HeaderName)
  | Set (line : Nat) (name : HeaderName) (value : HeaderValue)
  | Add (line : Nat) (name : HeaderName) (value : HeaderValue)
  | Prepend (line : Nat) (name : HeaderName) (value : HeaderValue)
  | Rename (line : Nat) (source : HeaderName) (target : HeaderName)
  | Extract (line : Nat) (name : HeaderName) (target : String) (mode : HeaderExtractionMode)
  | Keywords (line : Nat) (mode : HeaderKeywordsMode)
  | Priority (line : Nat) (mode : HeaderPriorityMode)
  | Status (line : Nat) (mode : HeaderStatusMode)
  deriving DecidableEq

/-- The operations of an action, in their order. -/
structure HeaderAction where
  operations : List HeaderOperation
  deriving DecidableEq

namespace HeaderPriorityMode

/-- The field of the importance. -/
def importance : HeaderName := ⟨"Importance", by decide⟩

/-- The field of the priority. -/
def priority : HeaderName := ⟨"Priority", by decide⟩

/-- The field of the numbered priority. -/
def xPriority : HeaderName := ⟨"X-Priority", by decide⟩

/-- The fields that stand for a priority; none are left when it is cleared. -/
def fields : HeaderPriorityMode → Option (List (HeaderName × String))
  | .High => some [(importance, "high"), (priority, "urgent"), (xPriority, "1")]
  | .Normal => some [(importance, "normal"), (priority, "normal"), (xPriority, "3")]
  | .Low => some [(importance, "low"), (priority, "non-urgent"), (xPriority, "5")]
  | .Clear => none

end HeaderPriorityMode

namespace MessageStatus

/-- The flags of both. -/
def add (status other : MessageStatus) : MessageStatus :=
  ⟨status.read || other.read, status.flagged || other.flagged, status.replied || other.replied⟩

/-- The flags without those of the other. -/
def remove (status other : MessageStatus) : MessageStatus :=
  ⟨if other.read then false else status.read, if other.flagged then false else status.flagged,
    if other.replied then false else status.replied⟩

/-- The `Status` field, if there is one. -/
def statusHeaderValue (status : MessageStatus) : Option String :=
  if status.read then some "RO" else Option.none

/-- The `X-Status` field, if there is one. -/
def xStatusHeaderValue (status : MessageStatus) : Option String :=
  match status.replied, status.flagged with
  | true, true => some "AF"
  | true, false => some "A"
  | false, true => some "F"
  | false, false => Option.none

/-- The field of the read flag. -/
def statusName : HeaderName := ⟨"Status", by decide⟩

/-- The field of the other flags. -/
def xStatusName : HeaderName := ⟨"X-Status", by decide⟩

end MessageStatus

/-- Why a configured status is rejected. -/
inductive ConfiguredStatusError
  | Empty
  | InvalidFlag
  deriving DecidableEq, Repr

/-- The words of the error. -/
def ConfiguredStatusError.reason : ConfiguredStatusError → String
  | .Empty => "must contain at least one status flag"
  | .InvalidFlag => "must contain only 'read', 'flagged', or 'replied'"

/-- One flag of a configured status. -/
def setStatusFlag (status : MessageStatus) (token : String) :
    Except ConfiguredStatusError MessageStatus :=
  if token = "read" then .ok { status with read := true }
  else if token = "flagged" then .ok { status with flagged := true }
  else if token = "replied" then .ok { status with replied := true }
  else .error .InvalidFlag

/-- The flags that a configured status names, at least one of them. -/
def parseConfiguredStatus (value : String) : Except ConfiguredStatusError MessageStatus := do
  let tokens := (value.toList.splitOnP fun c => c == ' ' || c == '\t' || c == ',').filter
    fun token => !token.isEmpty
  let status ← tokens.foldlM (fun status token => setStatusFlag status (String.ofList token))
    MessageStatus.none
  if tokens.isEmpty then .error .Empty else .ok status

/-! ### Field texts -/

/-- A generated field, with the errors of the editor. -/
def makeField (name : HeaderName) (value : String) (lineEnding : LineEnding) :
    Except HeaderEditError Bytes :=
  match serializeGeneratedHeader name.text value lineEnding with
  | .ok field => .ok field
  | .error .InvalidValue => .error .InvalidGeneratedValue
  | .error .LineTooLong => .error (.GeneratedLineTooLong rfc5322HeaderLineLimit)
  | .error .SizeOverflow => .error .SizeOverflow

/-- The field under its new name; everything from the colon on is kept. -/
def renameField (field : Field) (name : HeaderName) : Except HeaderEditError Bytes := do
  let suffix := (field.name.map fun old => field.bytes.drop old.length).getD []
  let _ ← addSize name.bytes.length suffix.length
  .ok (appendCanonicalHeaderName name.text ++ suffix)

/-- The lines of a folded value, each without its delimiter and leading whitespace, joined with one
space. -/
def unfoldValueLines (output : Bytes) (first : Bool) :
    List Bytes → Except HeaderEditError Bytes
  | [] => .ok output
  | line :: rest =>
    let content := (stripLineEnding line).dropWhile isBlank
    match tryExtend output maxAssignmentValueLen (if first then [] else [SP]) with
    | none => .error (.ExtractedValueTooLong maxAssignmentValueLen)
    | some output =>
      match tryExtend output maxAssignmentValueLen content with
      | none => .error (.ExtractedValueTooLong maxAssignmentValueLen)
      | some output => unfoldValueLines output false rest

/-- The value of a field on one line. -/
def unfoldValue (value : Bytes) : Except HeaderEditError Bytes :=
  unfoldValueLines [] true (lines value)

/-- The value of a field as the mode asks for it, within the limit of a variable. -/
def extractValue (field : Field) (mode : HeaderExtractionMode) : Except HeaderEditError Bytes :=
  let value := field.value.getD []
  match mode with
  | .Raw =>
    let value := stripLineEnding value
    if value.length > maxAssignmentValueLen then
      .error (.ExtractedValueTooLong maxAssignmentValueLen)
    else .ok value
  | .Unfolded => unfoldValue value
  | .Decoded => do
    let unfolded ← unfoldValue value
    match decodeRfc2047 unfolded maxAssignmentValueLen with
    | .error e => .error (.Decode e)
    | .ok decoded => .ok decoded

/-- The status of an operation, with the errors of the editor. -/
def parseStatus (value : HeaderValue) : Except HeaderEditError MessageStatus :=
  match parseConfiguredStatus value.source with
  | .ok status => .ok status
  | .error error => .error (.InvalidStatusValue error.reason)

/-- The keywords of an operation, with the errors of the editor. -/
def parseKeywords (value : HeaderValue) : Except HeaderEditError (List String) :=
  match parseConfiguredKeywords value.source with
  | .ok keywords => .ok keywords
  | .error (.TooMany limit) => .error (.KeywordLimitExceeded limit)
  | .error error => .error (.InvalidKeywordValue error.reason)

/-- The keywords of a message, with the errors of the editor. -/
def presentKeywords (fields : List Field) : Except HeaderEditError (List String) :=
  match collectKeywords fields KeywordField.all with
  | .ok keywords => .ok keywords
  | .error _ => .error (.KeywordLimitExceeded maxStructuredHeaderValues)

/-- The keywords a `keywords` operation leaves, given the fields before it. -/
def keywordsAfter (mode : HeaderKeywordsMode) (fields : List Field) :
    Except HeaderEditError (List String) :=
  match mode with
  | .Add value => do
    let configured ← parseKeywords value
    let present ← presentKeywords fields
    let keywords := configured.foldl
      (fun keywords item => if keywords.contains item then keywords else keywords ++ [item]) present
    if keywords.length > maxStructuredHeaderValues then
      .error (.KeywordLimitExceeded maxStructuredHeaderValues)
    else .ok keywords
  | .Remove value => do
    let configured ← parseKeywords value
    let present ← presentKeywords fields
    .ok (present.filter fun existing => !configured.contains existing)
  | .Set value => parseKeywords value
  | .Clear => .ok []

/-- The status a `status` operation leaves. -/
def statusAfter (mode : HeaderStatusMode) (status : MessageStatus) :
    Except HeaderEditError MessageStatus :=
  match mode with
  | .Add value => do
    let other ← parseStatus value
    .ok (status.add other)
  | .Remove value => do
    let other ← parseStatus value
    .ok (status.remove other)
  | .Set value => parseStatus value
  | .Clear => .ok MessageStatus.none

/-! ### Operations on the edited header -/

namespace EditedHeader

/-- One field of this name has the value; the others of the name are removed. -/
def setField (header : EditedHeader) (name : HeaderName) (value : String)
    (lineEnding : LineEnding) : Except HeaderEditError EditedHeader := do
  let replacement ← makeField name value lineEnding
  let entries := header.storage.store.entries
  let first := entries.findIdx? (HeaderStore.entryMatches name.bytes)
  let unchanged := (entries.filter (HeaderStore.entryMatches name.bytes)).map Field.bytes
    == [replacement]
  if unchanged then .ok header
  else
    let header := header.storeMut
    let position := first.getD header.storage.store.fields.length
    let header := header.withStore (header.storage.store.removeMatching name.bytes)
    header.insert position replacement

/-- Sets the fields one after the other. -/
def setFields (header : EditedHeader) (fields : List (HeaderName × String))
    (lineEnding : LineEnding) : Except HeaderEditError EditedHeader :=
  fields.foldlM (fun header field => header.setField field.1 field.2 lineEnding) header

/-- Removes the fields one after the other. -/
def removeFields (header : EditedHeader) (names : List HeaderName) : EditedHeader :=
  names.foldl (fun header name => header.removeMatching name.bytes) header

/-- The keyword fields are written again, or removed when no keyword is left. -/
def applyKeywords (header : EditedHeader) (mode : HeaderKeywordsMode) (lineEnding : LineEnding) :
    Except HeaderEditError EditedHeader := do
  let keywords ← keywordsAfter mode header.storage.store.entries
  if keywords.isEmpty then .ok (header.removeFields (KeywordField.all.map KeywordField.name))
  else
    header.setFields (KeywordField.all.map fun field => (field.name, joinKeywords keywords))
      lineEnding

/-- The priority fields are written or removed. -/
def applyPriority (header : EditedHeader) (mode : HeaderPriorityMode) (lineEnding : LineEnding) :
    Except HeaderEditError EditedHeader :=
  match mode.fields with
  | some fields => header.setFields fields lineEnding
  | none =>
    .ok (header.removeFields
      [HeaderPriorityMode.importance, HeaderPriorityMode.priority, HeaderPriorityMode.xPriority])

/-- Sets a field to its value, or removes it when it has none. -/
def setOrRemove (header : EditedHeader) (name : HeaderName) (value : Option String)
    (lineEnding : LineEnding) : Except HeaderEditError EditedHeader :=
  match value with
  | some value => header.setField name value lineEnding
  | none => .ok (header.removeMatching name.bytes)

/-- The status fields are written again, and the message has the status. -/
def applyStatus (header : EditedHeader) (mode : HeaderStatusMode) (lineEnding : LineEnding) :
    Except HeaderEditError EditedHeader := do
  let status ← statusAfter mode header.status
  let header ← header.setOrRemove MessageStatus.statusName status.statusHeaderValue lineEnding
  let header ← header.setOrRemove MessageStatus.xStatusName status.xStatusHeaderValue lineEnding
  .ok (header.setStatus status)

/-- Another text in the place of the field at `index`. -/
def replaceAt (header : EditedHeader) (index : Nat) (field : Field) (replacement : Bytes) :
    Except HeaderEditError EditedHeader :=
  if field.bytes ≠ replacement then
    let header := header.storeMut
    let header := header.withStore (header.storage.store.remove index)
    header.insert index replacement
  else .ok header

/-- One step of a rename: the field at `index`, when it carries the name. -/
def renameAt (source target : HeaderName) (header : EditedHeader) (index : Nat) :
    Except HeaderEditError EditedHeader :=
  match header.storage.store.entries[index]? with
  | none => .ok header
  | some field =>
    if HeaderStore.entryMatches source.bytes field then do
      let replacement ← renameField field target
      header.replaceAt index field replacement
    else .ok header

end EditedHeader

/-- The value that an operation gives to a variable. -/
structure HeaderExtraction where
  line : Nat
  target : String
  value : Bytes
  deriving DecidableEq, Repr

/-- The header after an action, and the values it has extracted. -/
structure AppliedHeaderAction where
  header : EditedHeader
  extractions : List HeaderExtraction
  deriving DecidableEq, Repr

/-- The first field of a name, taken apart; an absent field gives an empty value. -/
def extractFirst (fields : List Field) (name : HeaderName) (mode : HeaderExtractionMode) :
    Except HeaderEditError Bytes :=
  match fields.find? (HeaderStore.entryMatches name.bytes) with
  | none => .ok []
  | some field => extractValue field mode

/-- One operation, without the size check behind it. -/
def applyOperation (lineEnding : LineEnding) (state : AppliedHeaderAction)
    (operation : HeaderOperation) : Except HeaderEditError AppliedHeaderAction :=
  let header := state.header
  let edited (result : Except HeaderEditError EditedHeader) :
      Except HeaderEditError AppliedHeaderAction :=
    result.map fun header => { state with header := header }
  match operation with
  | .Remove _ name => edited (.ok (header.removeMatching name.bytes))
  | .Set _ name value => edited (header.setField name value.source lineEnding)
  | .Add _ name value => edited do
    let field ← makeField name value.source lineEnding
    header.insert header.storage.store.fields.length field
  | .Prepend _ name value => edited do
    let field ← makeField name value.source lineEnding
    header.insert 0 field
  | .Rename _ source target =>
    edited ((List.range header.storage.store.fields.length).foldlM
      (EditedHeader.renameAt source target) header)
  | .Extract line name target mode => do
    let value ← extractFirst header.storage.store.entries name mode
    .ok { state with extractions := state.extractions ++ [⟨line, target, value⟩] }
  | .Keywords _ mode => edited (header.applyKeywords mode lineEnding)
  | .Priority _ mode => edited (header.applyPriority mode lineEnding)
  | .Status _ mode => edited (header.applyStatus mode lineEnding)

/-- One operation and the check of the size it leaves. -/
def applyChecked (lineEnding : LineEnding) (bodyLen : Nat) (limits : MessageLimits)
    (state : AppliedHeaderAction) (operation : HeaderOperation) :
    Except HeaderEditError AppliedHeaderAction := do
  let state ← applyOperation lineEnding state operation
  validateAggregateSize state.header.texts state.header.storage.separator lineEnding bodyLen limits
  .ok state

/-- `apply_header_action`: the operations in order, each checked, and then the header is finished. -/
def applyHeaderAction (source : HeaderView) (bodyLen : Nat) (action : HeaderAction)
    (limits : MessageLimits) : Except HeaderEditError AppliedHeaderAction := do
  let header ← EditedHeader.new source limits
  let lineEnding := header.storage.lineEnding
  let state ← action.operations.foldlM (applyChecked lineEnding bodyLen limits) ⟨header, []⟩
  let header ← state.header.finish bodyLen
  .ok { state with header := header }

/-- Whether the action has to be installed. An edited header that shares the storage of its source is
unchanged. -/
def AppliedHeaderAction.changedFrom (applied : AppliedHeaderAction) (source : HeaderView) : Bool :=
  match source with
  | .Indexed _ => applied.header.unique
  | .Raw bytes =>
    !applied.header.status.isEmpty || applied.header.parts.flatten != bytes

end ProcmailRs
