import ProcmailRs.Config.Syntax

/-!
# The text of an rc file

An rc file is read line by line. Here is what is read off the text of a line without looking at the
budget: assignments, recipe headers, commands that go on over several lines, and destinations.
-/

namespace ProcmailRs.Config

/-! ### Text -/

/-- The text of a file. -/
abbrev Text := List Char

/-- `char::is_whitespace`. -/
def isWhitespace (c : Char) : Bool :=
  (9 ≤ c.toNat && c.toNat ≤ 13) || (0x2000 ≤ c.toNat && c.toNat ≤ 0x200A) ||
    [0x20, 0x85, 0xA0, 0x1680, 0x2028, 0x2029, 0x202F, 0x205F, 0x3000].contains c.toNat

/-- `str::trim_start`. -/
def trimStart (text : Text) : Text := text.dropWhile isWhitespace

/-- `str::trim_end`. -/
def trimEnd (text : Text) : Text := (text.reverse.dropWhile isWhitespace).reverse

/-- `str::trim`. -/
def trim (text : Text) : Text := trimEnd (trimStart text)

/-- `str::len`. -/
def textLen (text : Text) : Nat := (text.map Char.utf8Size).sum

/-- What follows the mark that a text starts with. -/
def stripStart : Text → Text → Option Text
  | [], text => some text
  | _ :: _, [] => none
  | m :: mark, c :: text => if m = c then stripStart mark text else none

/-- `str::split_once` at a mark that is not empty. -/
def splitOnce (mark : Text) : Text → Option (Text × Text)
  | [] => none
  | c :: text =>
    match stripStart mark (c :: text) with
    | some rest => some ([], rest)
    | none => (splitOnce mark text).map fun parts => (c :: parts.1, parts.2)

/-- `str::starts_with` with a character. -/
def startsWith (text : Text) (c : Char) : Bool := text.head? == some c

/-- A line without a statement. -/
def isBlankOrComment (text : Text) : Bool := text.isEmpty || startsWith text '#'

/-- Leading exclamation marks, with the white space around them: whether their number is odd, and what
follows. -/
def stripNegations : Text → Bool × Text
  | [] => (false, [])
  | c :: text =>
    if c = '!' then (!(stripNegations text).1, (stripNegations text).2)
    else if isWhitespace c then stripNegations text
    else (false, c :: text)

/-- The name of a variable. -/
def isNameText : Text → Bool
  | [] => false
  | c :: rest => (c == '_' || c.isAlpha) && rest.all fun c => c == '_' || c.isAlphanum

/-- A line and its number. Lines are counted from 1. -/
structure RcLine where
  number : Nat
  text : Text
  deriving DecidableEq, Repr

/-- `str::lines`: a line feed ends a line, and a carriage return before it belongs to it. -/
def withoutEnding (line : Text) : Text :=
  if line.getLast? = some '\n' then
    if line.dropLast.getLast? = some '\r' then line.dropLast.dropLast else line.dropLast
  else line

/-- The lines of a file, numbered from one. -/
def rcLines (input : Text) : List RcLine :=
  (Lines.splitInclusive (· == '\n') input).zipIdx.map fun line =>
    ⟨line.2 + 1, withoutEnding line.1⟩

/-! ### Errors -/

/-- Why a file is rejected, with the line; a resource limit is not an error of the file's author. -/
structure ParseError where
  line : Nat
  message : String
  resourceLimit : Bool
  deriving DecidableEq, Repr

/-- An error in the text. -/
def ParseError.new (line : Nat) (message : String) : ParseError := ⟨line, message, false⟩

/-- A resource limit. -/
def ParseError.limit (line : Nat) (message : String) : ParseError := ⟨line, message, true⟩

/-- What a piece of a line is refused for. -/
structure WordError where
  message : String
  resourceLimit : Bool
  deriving DecidableEq, Repr

/-- The error of a word in this line. -/
def WordError.at (error : WordError) (line : Nat) : ParseError :=
  ⟨line, error.message, error.resourceLimit⟩

/-- What the pieces of a line mean. None of these looks at the budget. `R` is what a regular expression
is compiled to, together with what it is matched against. -/
structure RcWords (R H : Type) where
  /-- The value of an assignment, and its expression. -/
  assignmentWord : Text → Except WordError (Bytes × ShellExpression)
  /-- The expression of a destination, if it has commands or assignments. -/
  commandExpression : Text → Except WordError (Option ShellExpression)
  /-- The target and the regular expression of a condition, case sensitive or not. -/
  conditionRegex : Text → Bool → Except WordError R
  /-- The regular expression of a check of a multipart condition. -/
  multipartRegex : Text → Bool → Except WordError R
  headerOperation : Text → Except WordError H

/-- A piece of the line with this number. -/
def wordAt {α : Type} (line : Nat) (word : Except WordError α) : Except ParseError α :=
  word.mapError fun error => error.at line

/-! ### Limits on text -/

/-- How long the name of a variable may be. -/
def maxAssignmentNameLen : Nat := 128

/-- How long a command may be. -/
def maxPipeCommandLen : Nat := 64 * 1024

/-- How many operations a header action may have. -/
def maxHeaderOperationsPerAction : Nat := 256

/-- A line within the limit of `LINEBUF`. -/
def checkLinebuf (line : RcLine) (limit : Nat) : Except ParseError Unit :=
  if textLen line.text > limit then
    .error (.limit line.number s!"rc line exceeds the active LINEBUF limit of {limit} bytes")
  else .ok ()

/-- A path within its limit. -/
def checkPathLength (path : Text) (line : Nat) (description : String) : Except ParseError Unit :=
  if textLen path > maxPathExpressionLen then
    .error (.new line (description ++ " exceeds the hard limit of 4096 bytes"))
  else .ok ()

/-! ### Assignments -/

/-- `assignment_target` of a name in an rc file. -/
def VariablePolicy.assignmentTarget : VariablePolicy → Option AssignmentTarget
  | .RcOnly target | .RcOrCommandLine target => some target
  | .RuntimeOnly | .ReadOnly | .Unsupported => none

/-- The value is a limit of the parser itself. -/
def controlsRcParsing : AssignmentTarget → Bool
  | .RcLimit | .LineBuf => true
  | _ => false

/-- A value that is too long is called a path. -/
def usesPathErrorLabel : AssignmentTarget → Bool
  | .Maildir | .LogFile => true
  | _ => false

/-- The target of a name that stands on the left of an assignment; `refusal` says what cannot be done
with a name that has none. -/
def targetOf (name : Text) (line : Nat) (refusal : String) : Except ParseError AssignmentTarget :=
  let name := String.ofList name
  if variablePolicy name = .Unsupported then
    .error (.new line ("procmail variable " ++ name ++ " is not supported"))
  else
    match (variablePolicy name).assignmentTarget with
    | some target => .ok target
    | none => .error (.new line ("variable " ++ name ++ refusal))

/-- The name of an assignment is too long. -/
def nameTooLong (line : Nat) : ParseError :=
  .new line "assignment name exceeds the hard limit of 128 bytes"

section Words

variable {R H : Type} (words : RcWords R H)

/-- The assignment of a value to a name that is one. -/
def assignmentOf (name value : Text) (line : Nat) : Except ParseError Assignment := do
  let word ← wordAt line (words.assignmentWord (trimStart value))
  if word.1.length > maxAssignmentValueLen then
    .error (.new line "assignment value exceeds the hard limit of 65536 bytes")
  else do
    let target ← targetOf name line " cannot be assigned in an rc file"
    let value :=
      if controlsRcParsing target then (literalText word.2).getD word.1 else word.1
    if value.length > target.valueLimit then
      let kind := if usesPathErrorLabel target then " path" else " value"
      .error (.new line
        (String.ofList name ++ kind ++ s!" exceeds the hard limit of {target.valueLimit} bytes"))
    else .ok ⟨line, String.ofList name, value, target, some word.2⟩

/-- `parse_assignment`: a line that is none gives nothing. -/
def parseAssignment (text : Text) (line : Nat) : Except ParseError (Option Assignment) :=
  let parts :=
    match splitOnce ['='] text with
    | some parts => some parts
    | none => if text = "HOST".toList then some (text, []) else none
  match parts with
  | none => .ok none
  | some (name, value) =>
    if textLen (trim name) > maxAssignmentNameLen then .error (nameTooLong line)
    else if !isNameText (trim name) then .ok none
    else some <$> assignmentOf words (trim name) value line

end Words

/-- `parse_unset`: a name alone, with a comment at most. -/
def parseUnset (text : Text) (line : Nat) : Except ParseError (Option Unset) :=
  let name := text.takeWhile fun c => !isWhitespace c
  let remainder := trimStart (text.drop name.length)
  if text = "HOST".toList ∨ text.contains '=' then .ok none
  else if !isBlankOrComment remainder then .ok none
  else if textLen name > maxAssignmentNameLen then .error (nameTooLong line)
  else if !isNameText name then .ok none
  else do
    let target ← targetOf name line " cannot be unset in an rc file"
    return some ⟨line, String.ofList name, target⟩

/-- `parse_capture_action_prefix`: the name that takes the output of the command. -/
def parseCaptureAction (action : Text) (line : Nat) :
    Except ParseError (Option (String × AssignmentTarget)) :=
  match splitOnce ['=', '|'] action with
  | none => .ok none
  | some (name, _) =>
    if !isNameText (trim name) then .ok none
    else if textLen (trim name) > maxAssignmentNameLen then .error (nameTooLong line)
    else do
      let target ← targetOf (trim name) line " cannot be assigned"
      return some (String.ofList (trim name), target)

/-! ### Recipe headers -/

/-- The flags that are supported. -/
def recipeFlags : Text := "HBDcAaEehbfwWir".toList

/-- What the flags of a recipe ask for. -/
def flagOptions (flags : Text) : RecipeOptions where
  conditionInput :=
    if flags.contains 'B' then (if flags.contains 'H' then .Message else .Body) else .Headers
  caseMode := if flags.contains 'D' then .Sensitive else .Insensitive
  control :=
    if flags.contains 'A' then .AfterChainMatch
    else if flags.contains 'a' then .AfterPreviousSuccess
    else if flags.contains 'E' then .Else
    else if flags.contains 'e' then .AfterPreviousError
    else .Independent
  actionInput :=
    if flags.contains 'h' then (if flags.contains 'b' then .Message else .Headers)
    else if flags.contains 'b' then .Body
    else .Message
  actionMode := if flags.contains 'f' then .Filter else .Deliver
  continuation := if flags.contains 'c' then .Continue else .Stop
  childStatus :=
    if flags.contains 'w' then .Wait else if flags.contains 'W' then .WaitQuietly else .Ignore
  writeErrors := if flags.contains 'i' then .Ignore else .Fail
  outputEnding := if flags.contains 'r' then .Preserve else .Normalize

/-- The flags of a recipe: letters that are supported, and one of `A`, `a`, `E` and `e` at most. -/
def validateFlags (flags : Text) (line : Nat) : Except ParseError Unit :=
  if !flags.all Char.isAlpha then .error (.new line "invalid recipe flags")
  else
    match flags.find? fun flag => !recipeFlags.contains flag with
    | some flag => .error (.new line s!"recipe flag '{flag}' is not supported yet")
    | none =>
      match "AaEe".toList.filter fun flag => flags.contains flag with
      | first :: second :: _ =>
        .error (.new line s!"recipe control flags '{first}' and '{second}' cannot be combined")
      | _ =>
        if flags.contains 'w' && flags.contains 'W' then
          .error (.new line "recipe flags 'w' and 'W' cannot be combined")
        else .ok ()

/-- What the line of a recipe says. -/
structure RecipeHeader where
  options : RecipeOptions
  lock : Option Text
  flags : Text
  deriving DecidableEq, Repr

/-- `parse_recipe_header`: the flags, and behind a colon the lock file. -/
def parseRecipeHeader (rest : Text) (line : Nat) : Except ParseError RecipeHeader :=
  let rest := trim (rest.takeWhile fun c => c != '#')
  match splitOnce [':'] rest with
  | some (flags, lock) => do
    checkPathLength (trim lock) line "lockfile path"
    validateFlags (trim flags) line
    return ⟨flagOptions (trim flags), some (trim lock), trim flags⟩
  | none => do
    validateFlags rest line
    return ⟨flagOptions rest, none, rest⟩

/-! ### Continued lines -/

/-- The condition with one more physical line, and whether it goes on behind a backslash. -/
def conditionLine (linebuf start : Nat) (condition : Text) (line : RcLine) (physical : Text) :
    Except ParseError (Text × Bool) := do
  checkLinebuf line linebuf
  let continued := physical.getLast? == some '\\'
  let fragment := if continued then physical.dropLast else physical
  if textLen condition + textLen fragment > linebuf then
    .error (.limit start
      s!"continued recipe condition exceeds the active LINEBUF limit of {linebuf} bytes")
  else .ok (condition ++ fragment, continued)

/-- `condition` is what has been read, `physical` what is left of `line`. -/
def continueCondition (linebuf start : Nat) (preserve : Bool) (condition : Text) (line : RcLine)
    (physical : Text) : List RcLine → Except ParseError (Text × List RcLine)
  | [] => do
    let read ← conditionLine linebuf start condition line physical
    if read.2 then .error (.new start "recipe condition continuation is incomplete")
    else .ok (read.1, [])
  | next :: rest => do
    let read ← conditionLine linebuf start condition line physical
    if read.2 then
      continueCondition linebuf start preserve read.1 next
        (if preserve then next.text else trimStart next.text) rest
    else .ok (read.1, next :: rest)

/-- A condition that is expanded before it is read. -/
def conditionIsShellExpanded (text : Text) : Bool := startsWith (stripNegations text).2 '$'

/-- `parse_condition_continuation`: the text behind the asterisk, with the lines that continue it. -/
def parseConditionContinuation (line : RcLine) (rest : List RcLine) (linebuf : Nat) :
    Except ParseError (Text × List RcLine) :=
  match stripStart ['*'] (trimStart line.text) with
  | none => .error (.new line.number "recipe condition does not begin with '*'")
  | some first =>
    continueCondition linebuf line.number (conditionIsShellExpanded first) [] line first rest

/-- The command with one more physical line, and whether it goes on. -/
def commandLine (linebuf start : Nat) (description : String) (command : Text) (line : RcLine)
    (physical : Text) : Except ParseError (Text × Bool) := do
  checkLinebuf line linebuf
  let continued := physical.getLast? == some '\\'
  let size := textLen command + (textLen physical + if continued then 1 else 0)
  if size > linebuf then
    .error (.limit start s!"expanded rc line exceeds the active LINEBUF limit of {linebuf} bytes")
  else if size > maxPipeCommandLen then
    .error (.limit start (description ++ " exceeds the hard limit of 65536 bytes"))
  else .ok (command ++ physical, continued)

/-- A command that can be run. -/
def validateCommand (start : Nat) (description : String) (command : Text) : Except ParseError Unit :=
  if command.isEmpty then .error (.new start (description ++ " is empty"))
  else if command.contains '\x00' then .error (.new start "pipe command contains NUL")
  else .ok ()

/-- `parse_command_continuation`: backslashes and line feeds stay in the command. -/
def continueCommand (linebuf start : Nat) (description : String) (command : Text) (line : RcLine)
    (physical : Text) : List RcLine → Except ParseError (Text × List RcLine)
  | [] => do
    let read ← commandLine linebuf start description command line physical
    if read.2 then .error (.new start (description ++ " continuation is incomplete"))
    else do
      validateCommand start description read.1
      return (read.1, [])
  | next :: rest => do
    let read ← commandLine linebuf start description command line physical
    if read.2 then
      continueCommand linebuf start description (read.1 ++ ['\n']) next next.text rest
    else do
      validateCommand start description read.1
      return (read.1, next :: rest)

/-- `parse_pipe_command`: a pipe may have no command. -/
def parsePipeCommand (line : RcLine) (rest : List RcLine) (linebuf : Nat) :
    Except ParseError (Text × List RcLine) :=
  let physical := trimStart ((trimStart line.text).drop 1)
  if physical.isEmpty then .ok ([], rest)
  else continueCommand linebuf line.number "pipe command" [] line physical rest

section Words

variable {R H : Type} (words : RcWords R H)

/-- `parse_header_action`: one operation a line, up to the closing brace. -/
def parseHeaderAction (linebuf opening : Nat) (operations : List H) :
    List RcLine → Except ParseError (List H × List RcLine)
  | [] => .error (.new opening "headers action has no closing '\x7d'")
  | line :: rest => do
    checkLinebuf line linebuf
    let text := trim line.text
    if isBlankOrComment text then parseHeaderAction linebuf opening operations rest
    else if text = ['}'] then .ok (operations, rest)
    else if operations.length = maxHeaderOperationsPerAction then
      .error (.limit line.number "header operation count exceeds the hard limit of 256")
    else do
      let operation ← wordAt line.number (words.headerOperation text)
      parseHeaderAction linebuf opening (operations ++ [operation]) rest

/-! ### Destinations -/

/-- `u8::is_ascii_whitespace`. -/
def isAsciiSpace (c : Char) : Bool :=
  c == ' ' || c == '\t' || c == '\n' || c == '\r' || c == '\x0c'

/-- `destination_has_literal_whitespace`: white space outside of a command, not behind a backslash. -/
def hasLiteralWhitespace (inCommand escaped : Bool) : Text → Bool
  | [] => false
  | c :: rest =>
    if escaped then hasLiteralWhitespace inCommand false rest
    else if c == '\\' then hasLiteralWhitespace inCommand true rest
    else if c.toNat = 96 then hasLiteralWhitespace (!inCommand) false rest
    else if !inCommand && isAsciiSpace c then true
    else hasLiteralWhitespace inCommand false rest

/-- The mark of a mailbox file. -/
def mboxMark : Text := "mbox:".toList

/-- The mark of a Maildir. -/
def maildirMark : Text := "maildir:".toList

/-- A destination without a mark names one file only. -/
def validateDestinationSyntax (action : Text) (line : Nat) : Except ParseError Unit :=
  if (stripStart mboxMark action).isNone && (stripStart maildirMark action).isNone &&
      hasLiteralWhitespace false false action then
    .error (.new line "multiple unmarked mailbox destinations are not supported")
  else .ok ()

/-- `destination_path_expression` of a path that is not empty. -/
def destinationPathExpression (path : Text) (line : Nat) (typed : Bool) :
    Except ParseError PathExpression :=
  if (trim path).isEmpty then .error (.new line "destination path is empty")
  else do
    checkPathLength (trim path) line "destination path"
    let expansion ← wordAt line (words.commandExpression (trim path))
    return {
      source := utf8 (trim path)
      base := none
      line := line
      runtimeDependent := expansion.isSome
      runtimeBase := false
      typedDestination := typed
      expansion := expansion }

/-- The destination that an action line names. -/
def parseDelivery (action : Text) (line : Nat) : Except ParseError (RecipeAction H) :=
  match stripStart mboxMark action with
  | some path => .Deliver .Mbox <$> destinationPathExpression words path line true
  | none =>
    match stripStart maildirMark action with
    | some path => .Deliver .Maildir <$> destinationPathExpression words path line true
    | none =>
      if action.getLast? = some '/' then
        .Deliver .Maildir <$> destinationPathExpression words action line false
      else .Deliver .File <$> destinationPathExpression words action line false

end Words

/-! ### Conditions -/

/-- The number of a scoring condition. -/
def isScoringNumber (text : Text) : Bool :=
  let digits :=
    match text with
    | '+' :: rest | '-' :: rest => rest
    | _ => text
  digits.all (fun c => c.isDigit || c == '.') && digits.count '.' ≤ 1 && digits.any Char.isDigit

/-- `has_scoring_prefix`: a weight and an exponent. -/
def hasScoringMark (text : Text) : Bool :=
  match splitOnce ['^'] text with
  | none => false
  | some (weight, rest) =>
    isScoringNumber (trimEnd weight) &&
      isScoringNumber ((rest.dropWhile isAsciiSpace).takeWhile fun c => !isAsciiSpace c)

/-- The word in front of the checks of a multipart condition. -/
def multipartMark : Text := "multipart".toList

/-- `is_multipart_block_start`: whether the block is negated. -/
def isMultipartBlockStart (text : Text) : Option Bool :=
  match stripStart ['*'] (trimStart text) with
  | none => none
  | some rest =>
    match stripStart multipartMark (trim (stripNegations rest).2) with
    | none => none
    | some afterMark =>
      if !(afterMark.head?.any isWhitespace) && !startsWith afterMark '{' then none
      else
        match stripStart ['{'] (trimStart afterMark) with
        | none => none
        | some afterBrace =>
          if isBlankOrComment (trim afterBrace) then some (stripNegations rest).1 else none

/-- The field that a check names, under one of its names. -/
def multipartField (name : Text) : Option MultipartField :=
  let name := String.ofList (name.map Char.toLower)
  if ["%mimetype", "mimetype", "%mime-type", "mime-type", "%content-type", "content-type"].contains
      name then some .MimeType
  else if ["%disposition", "disposition", "%content-disposition", "content-disposition"].contains
      name then some .Disposition
  else if ["%filename", "filename", "%name", "name"].contains name then some .Filename
  else none

/-- The name that messages use for the field. -/
def MultipartField.name : MultipartField → String
  | .MimeType => "%mimetype"
  | .Disposition => "%disposition"
  | .Filename => "%filename"

/-- `parse_size`. -/
def parseSize (text : Text) (line : Nat) : Except ParseError Nat :=
  match parseUsize (utf8 (trim text)) with
  | some size => .ok size
  | none => .error (.new line "size condition requires a non-negative integer")

/-- A condition that runs a command, within its limits. -/
def validateProgramCondition (command : Text) (line : Nat) : Except ParseError Unit :=
  if command.isEmpty then .error (.new line "program condition command is empty")
  else if textLen command > maxPipeCommandLen then
    .error (.limit line "program condition command exceeds the hard limit of 65536 bytes")
  else if command.contains '\x00' then
    .error (.new line "program condition command contains NUL")
  else .ok ()

end ProcmailRs.Config
