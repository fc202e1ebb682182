import ProcmailRs.HeaderEdit

/-!
# Header editing on a plain list of fields

The reference for header editing: the documented operations on the list of the field texts of a
header, without an arena. A header is split into fields, the operations run on the list, and the
fields are joined again in front of the original separator.

`allow` is asked before the fields may take a number of bytes, and `join` is the delimiter put behind
an unterminated field; both are parameters, so that the same reference also describes the limits of
the implementation and other ways of joining.
-/

namespace ProcmailRs.FieldList

/-- The field carries the name, up to ASCII case. -/
def named (name : HeaderName) (text : Bytes) : Bool :=
  HeaderStore.entryMatches name.bytes (fieldFromBytes text)

/-- The size of the fields together. -/
def size (fields : List Bytes) : Nat := (fields.map List.length).sum

/-- The fields without those of a name. -/
def remove (name : HeaderName) (fields : List Bytes) : List Bytes :=
  fields.filter fun text => !named name text

/-- The first field of the name is replaced in place and later ones are deleted; when there is none,
the replacement is appended. -/
def replace (name : HeaderName) (replacement : Bytes) : List Bytes → List Bytes
  | [] => [replacement]
  | text :: rest =>
    if named name text then replacement :: remove name rest
    else text :: replace name replacement rest

/-- The fields without those of these names. -/
def removeAll (names : List HeaderName) (fields : List Bytes) : List Bytes :=
  names.foldl (fun fields name => remove name fields) fields

/-- The fields and the marks of a message while an action runs, and what it has extracted. -/
structure State where
  fields : List Bytes
  status : MessageStatus
  extractions : List HeaderExtraction

section Operations

variable (allow : Nat → Except HeaderEditError Unit) (lineEnding : LineEnding)

/-- The list of fields, when it is allowed to take its size. -/
def grown (fields : List Bytes) : Except HeaderEditError (List Bytes) := do
  allow (size fields)
  .ok fields

/-- One field of this name has the value; the others of the name are removed. -/
def set (name : HeaderName) (value : String) (fields : List Bytes) :
    Except HeaderEditError (List Bytes) := do
  let replacement ← makeField name value lineEnding
  grown allow (replace name replacement fields)

/-- Several fields are set one after another. -/
def setAll (values : List (HeaderName × String)) (fields : List Bytes) :
    Except HeaderEditError (List Bytes) :=
  values.foldlM (fun fields value => set allow lineEnding value.1 value.2 fields) fields

/-- The field has the value, or is removed. -/
def setOrRemove (name : HeaderName) (value : Option String) (fields : List Bytes) :
    Except HeaderEditError (List Bytes) :=
  match value with
  | some value => set allow lineEnding name value fields
  | none => .ok (remove name fields)

/-- Every field of the name gets the new name, one after the other; `done` are the fields already
passed. -/
def rename (source target : HeaderName) (done : List Bytes) :
    List Bytes → Except HeaderEditError (List Bytes)
  | [] => .ok done
  | text :: rest =>
    if named source text then do
      let renamed ← renameField (fieldFromBytes text) target
      let _ ← grown allow (done ++ renamed :: rest)
      rename source target (done ++ [renamed]) rest
    else rename source target (done ++ [text]) rest

/-- The keyword fields are written again, or removed when no keyword is left. -/
def keywords (mode : HeaderKeywordsMode) (fields : List Bytes) :
    Except HeaderEditError (List Bytes) := do
  let keywords ← keywordsAfter mode (fields.map fieldFromBytes)
  if keywords.isEmpty then .ok (removeAll (KeywordField.all.map KeywordField.name) fields)
  else
    setAll allow lineEnding
      (KeywordField.all.map fun field => (field.name, joinKeywords keywords)) fields

/-- The priority fields are written or removed. -/
def priority (mode : HeaderPriorityMode) (fields : List Bytes) :
    Except HeaderEditError (List Bytes) :=
  match mode.fields with
  | some values => setAll allow lineEnding values fields
  | none =>
    .ok (removeAll
      [HeaderPriorityMode.importance, HeaderPriorityMode.priority, HeaderPriorityMode.xPriority]
      fields)

/-- The status fields are written again, and the message has the status. -/
def status (mode : HeaderStatusMode) (state : State) : Except HeaderEditError State := do
  let status ← statusAfter mode state.status
  let fields ← setOrRemove allow lineEnding MessageStatus.statusName status.statusHeaderValue
    state.fields
  let fields ← setOrRemove allow lineEnding MessageStatus.xStatusName status.xStatusHeaderValue
    fields
  .ok { state with fields := fields, status := status }

/-- One documented operation. -/
def run (state : State) (operation : HeaderOperation) : Except HeaderEditError State :=
  let edited (result : Except HeaderEditError (List Bytes)) : Except HeaderEditError State :=
    result.map fun fields => { state with fields := fields }
  match operation with
  | .Remove _ name => edited (.ok (remove name state.fields))
  | .Set _ name value => edited (set allow lineEnding name value.source state.fields)
  | .Add _ name value => edited do
    let field ← makeField name value.source lineEnding
    grown allow (state.fields ++ [field])
  | .Prepend _ name value => edited do
    let field ← makeField name value.source lineEnding
    grown allow (field :: state.fields)
  | .Rename _ source target => edited (rename allow source target [] state.fields)
  | .Extract line name target mode => do
    let value ← extractFirst (state.fields.map fieldFromBytes) name mode
    .ok { state with extractions := state.extractions ++ [⟨line, target, value⟩] }
  | .Keywords _ mode => edited (keywords allow lineEnding mode state.fields)
  | .Priority _ mode => edited (priority allow lineEnding mode state.fields)
  | .Status _ mode => status allow lineEnding mode state

end Operations

/-- The fields of a header as one text: every unterminated field that has a successor is completed
with the delimiter `join` chooses for it. -/
def joinFields (join : Bytes → LineEnding) : List Bytes → Bytes
  | [] => []
  | [text] => text
  | text :: next :: rest =>
    text ++ ((if endsWith text [LF] then [] else (join text).bytes) ++
      joinFields join (next :: rest))

/-- Everything is allowed. -/
def unlimited (_ : Nat) : Except HeaderEditError Unit := .ok ()

/-- The delimiter that completes an unterminated field: the preferred one, except that a field that
ends in CR gets a whole CRLF of its own. -/
def completion (preferred : LineEnding) (text : Bytes) : LineEnding :=
  if endsWith text [CR] then .CrLf else preferred

/-- The fields and the extractions after the operations of an action. -/
def editFields (header : Bytes) (action : HeaderAction) : Except HeaderEditError State :=
  let (fields, _, lineEnding) := splitFields header
  action.operations.foldlM (run unlimited lineEnding)
    ⟨fields.map Field.bytes, MessageStatus.none, []⟩

/-- The reference editing of a header: the serialized result and the extractions. -/
def edit (join : LineEnding → Bytes → LineEnding) (header : Bytes) (action : HeaderAction) :
    Except HeaderEditError (Bytes × List HeaderExtraction) := do
  let (_, separator, lineEnding) := splitFields header
  let state ← editFields header action
  .ok (joinFields (join lineEnding) state.fields ++ separator, state.extractions)

/-- The names an operation is about. -/
def touched : HeaderOperation → List HeaderName
  | .Remove _ name => [name]
  | .Set _ name _ => [name]
  | .Add _ name _ => [name]
  | .Prepend _ name _ => [name]
  | .Rename _ source target => [source, target]
  | .Extract _ _ _ _ => []
  | .Keywords _ _ => KeywordField.all.map KeywordField.name
  | .Priority _ _ =>
    [HeaderPriorityMode.importance, HeaderPriorityMode.priority, HeaderPriorityMode.xPriority]
  | .Status _ _ => [MessageStatus.statusName, MessageStatus.xStatusName]

/-- The fields that none of the operations is about. -/
def untouched (operations : List HeaderOperation) (fields : List Bytes) : List Bytes :=
  fields.filter fun text => !((operations.flatMap touched).any fun name => named name text)

end ProcmailRs.FieldList
