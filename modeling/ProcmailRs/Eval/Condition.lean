import ProcmailRs.Eval.Message
import ProcmailRs.Mime
import ProcmailRs.Runtime

/-!
# Conditions

A condition is a compiled regular expression with the area it matches, or a size bound. Matching may
set `MATCH` and the numbered match variables. The regular expressions, the parsers behind the
structured conditions and the MIME walk are functions of the bytes they read: a compiled regex gives
the ranges of its groups, and a structured condition enumerates the elements of the header fields in
the order they are visited.
-/

namespace ProcmailRs

/-- How long the match values may be together. -/
def maxMatchBytes : Nat := maxAssignmentValueLen

/-- How often a condition may be expanded, and how deep an expression may be nested. -/
def maxExpansionDepth : Nat := 32

/-- Why an expression has no value, with the line it stands in. -/
structure ExpansionError where
  line : Nat
  message : String
  deriving DecidableEq, Repr

/-- Why an evaluation ends without a result. -/
inductive EvalError
  | VariableValueTooLarge (name : String) (size : Nat)
  | MatchValueIsNotUtf8
  | DestinationCommandOutputIsNotUtf8 (line : Nat)
  | RuntimeCondition (line : Nat) (message : String)
  | StructuredHeader (line : Nat) (error : StructuredHeaderError)
  | MatchValuesTooLarge (size : Nat)
  | Expansion (error : ExpansionError)
  | RuntimeRcLoaderUnavailable (line : Nat) (statement : String)
  | RuntimeSettingUnavailable (line : Nat) (name : String)
  | LocalLockExecutorUnavailable (line : Nat)
  | BackgroundCopyUnavailable (line : Nat) (reason : String)
  | RuntimeRc (message : String)
  | ExternalActionUnsupported (line : Nat)
  | HeaderActionUnsupported (line : Nat)
  | HeaderEdit (line : Nat) (error : HeaderEditError)
  | ExternalConditionUnsupported (line : Nat)
  | InvalidExternalActionResult (line : Nat) (reason : String)
  | BodyWasNotBuffered
  deriving DecidableEq, Repr

/-- Evaluation that reads and changes the variables. What has been changed stays changed when it
fails. -/
abbrev Eval (α : Type) := EStateM EvalError RuntimeVariables α

/-- An `Except` computation as part of another one that may fail in more ways. -/
def liftExcept {ε ε' σ α : Type} (wrap : ε → ε') : Except ε α → EStateM ε' σ α
  | .ok value => pure value
  | .error error => throw (wrap error)

/-! ### Regular expressions -/

/-- `regex::bytes::Captures`: where each group matched; group 0 is the whole match. -/
abbrev Captures := Nat → Option (Nat × Nat)

/-- A compiled regular expression: the captures of its first match. -/
structure Regex where
  captures : Bytes → Option Captures

/-- The regular expression matches. -/
def Regex.isMatch (regex : Regex) (input : Bytes) : Bool := (regex.captures input).isSome

/-- `input.get(start..stop)`. -/
def subslice (input : Bytes) (start stop : Nat) : Option Bytes :=
  if start ≤ stop ∧ stop ≤ input.length then some ((input.take stop).drop start) else none

/-- The value of a match variable must be UTF-8. -/
def matchValue (bytes : Bytes) : Except EvalError Bytes :=
  if (utf8Chars? bytes).isSome then .ok bytes else .error .MatchValueIsNotUtf8

/-- The text of a group. A group that has taken no part has the empty text. -/
def captureValue (captures : Captures) (input : Bytes) (index : Nat) : Except EvalError Bytes :=
  matchValue (((captures index).bind fun (start, stop) => subslice input start stop).getD [])

/-- The end of the last `\/` marker that the match went through. -/
def selectedMatchStart (captures : Captures) (indexes : List Nat) : Option Nat :=
  (indexes.filterMap fun index => (captures index).map Prod.snd).max?

/-- The capturing groups of a regex: those of the `\/` markers and the numbered ones. -/
structure Capturing where
  matchCaptures : List Nat
  captureIndexes : List Nat
  deriving DecidableEq, Repr

/-- The condition sets no match variables. -/
def Capturing.isEmpty (capturing : Capturing) : Bool :=
  capturing.matchCaptures.isEmpty && capturing.captureIndexes.isEmpty

/-- Values that are about to become match variables. -/
abbrev MatchValues := List (String × Bytes)

/-- The summed length, `none` beyond `usize::MAX`. -/
def matchValuesSize (values : MatchValues) : Option Nat :=
  values.foldlM (fun total value => checkedAdd total value.2.length) 0

/-- `MATCH` itself stays as it is when the match did not go through a marker. -/
def RuntimeVariables.setMatchValues (runtime : RuntimeVariables) (values : MatchValues) :
    RuntimeVariables :=
  values.foldl (fun runtime (name, value) => runtime.setMatchValue name value) runtime

/-- The match values within their bound. -/
def checkMatchValues (values : MatchValues) : Except EvalError Unit :=
  match matchValuesSize values with
  | none => .error (.MatchValuesTooLarge usizeMax)
  | some size => if size > maxMatchBytes then .error (.MatchValuesTooLarge size) else .ok ()

/-- The numbered values of a match, counted from `number`. -/
def numberedValues (captures : Captures) (input : Bytes) (number : Nat) :
    List Nat → Except EvalError MatchValues
  | [] => .ok []
  | index :: rest => do
    let value ← captureValue captures input index
    let rest ← numberedValues captures input (number + 1) rest
    .ok (("MATCH" ++ toString number, value) :: rest)

/-- The value of `MATCH`: what follows the marker up to the end of the match. -/
def markedValue (line : Nat) (captures : Captures) (input : Bytes) (indexes : List Nat) :
    Except EvalError MatchValues :=
  match selectedMatchStart captures indexes with
  | none => .ok []
  | some start =>
    match captures 0 with
    | none =>
      .error (.RuntimeCondition line "compiled regular expression omitted its complete match")
    | some (_, stop) =>
      match subslice input start stop with
      | none =>
        .error
          (.RuntimeCondition line "compiled regular expression returned an invalid MATCH range")
      | some bytes => (matchValue bytes).map fun value => [("MATCH", value)]

/-! ### Conditions -/

/-- What a check of a multipart condition looks at. -/
inductive MultipartField
  | MimeType
  | Disposition
  | Filename
  deriving DecidableEq, Repr

/-- The field of a part, if it has one. -/
def MimePart.field (part : MimePart) : MultipartField → Option Bytes
  | .MimeType => part.mimetype
  | .Disposition => part.disposition
  | .Filename => part.filename

/-- A check of a multipart condition: the field and what it has to match. -/
structure CompiledMultipartCheck where
  field : MultipartField
  regex : Regex
  capturing : Capturing

/-- The elements of the header fields that a structured condition tests, up to an error that ends the
visit. -/
abbrev Elements := List Field → List (Except StructuredHeaderError Bytes)

/-- The kinds of conditions other than those that are still to be expanded. -/
inductive CompiledConditionKind
  | HeaderRegex (regex : Regex)
  | BodyRegex (regex : Regex)
  | MessageRegex (regex : Regex)
  | VariableRegex (name : String) (regex : Regex)
  | AddressRegex (addresses : Elements) (regex : Regex)
  | IdentifierRegex (identifiers : Elements) (regex : Regex)
  | KeywordRegex (keywords : Elements) (regex : Regex)
  | Multipart (parts : List Field → Bytes → List (Except StructuredHeaderError MimePart))
      (checks : List CompiledMultipartCheck)
  | Program (command : Bytes) (input : ConditionInput)
  | SmallerThan (size : Nat)
  | LargerThan (size : Nat)

/-- A condition that is fixed, with the captures it sets as match variables. -/
structure ResolvedCondition where
  line : Nat
  negated : Bool
  kind : CompiledConditionKind
  capturing : Capturing

/-- A shell expression as the evaluator runs it: it reads the variables, may run commands whose
output is used further on, and ends with its bytes and the assignments it makes. -/
inductive ShellProgram
  | done (bytes : Bytes) (assignments : List (String × Bytes))
  | fail (error : EvalError)
  | command (command : Bytes) (remaining : Nat) (next : Bytes → RuntimeVariables → ShellProgram)

/-- A shell expression, given the limit on its value. -/
abbrev ShellExpression := Nat → RuntimeVariables → ShellProgram

mutual

/-- A condition whose text is expanded first: by the variables alone (`expand`) or with commands
(`expression`). The expanded text is parsed as a condition again. -/
structure ShellExpandedCondition where
  expand : RuntimeVariables → Except EvalError Bytes
  expression : ShellExpression
  reparse : Bytes → Except EvalError ReparsedCondition

/-- What an expanded text is read as: a condition that is expanded again, or one that is fixed. -/
inductive ReparsedCondition
  | Expanded (negated : Bool) (condition : ShellExpandedCondition)
  | Compiled (condition : ResolvedCondition)

end

/-- A condition of a recipe. -/
inductive CompiledCondition
  | ShellExpanded (line : Nat) (negated : Bool) (condition : ShellExpandedCondition)
  | Resolved (condition : ResolvedCondition)

/-- What the header says of a condition. -/
inductive PartialMatch
  | True
  | False
  | Deferred
  deriving DecidableEq, Repr

/-- The header has decided. -/
def PartialMatch.fromBool (matched : Bool) : PartialMatch := if matched then True else False

namespace ResolvedCondition

/-- A negated condition matches where its test does not. -/
def applyNegation (condition : ResolvedCondition) (matched : Bool) : Bool :=
  matched ^^ condition.negated

/-- The regex on a text, with the match variables it sets. A test that fails clears them, and so does a
negated one. -/
def regexMatches (condition : ResolvedCondition) (regex : Regex) (input : Bytes) : Eval Bool := do
  if condition.capturing.isEmpty then return regex.isMatch input
  match regex.captures input with
  | none =>
    modify RuntimeVariables.clearMatchValues
    return false
  | some captures =>
    if condition.negated then
      modify RuntimeVariables.clearMatchValues
      return true
    modify RuntimeVariables.clearNumberedMatchValues
    let marked ← liftExcept id
      (markedValue condition.line captures input condition.capturing.matchCaptures)
    let numbered ← liftExcept id
      (numberedValues captures input 1 condition.capturing.captureIndexes)
    liftExcept id (checkMatchValues (marked ++ numbered))
    modify fun runtime => runtime.setMatchValues (marked ++ numbered)
    return true

/-- The elements are tested in order until one matches. -/
def anyElement (condition : ResolvedCondition) (regex : Regex) :
    List (Except StructuredHeaderError Bytes) → Eval Bool
  | [] => return false
  | .error error :: _ => throw (.StructuredHeader condition.line error)
  | .ok element :: rest => do
    if ← condition.regexMatches regex element then return true
    condition.anyElement regex rest

/-- `matches_addresses`, `matches_identifier` and `matches_keywords`. -/
def matchesElements (condition : ResolvedCondition) (elements : Elements) (regex : Regex)
    (header : HeaderView) : Eval Bool := do
  let matched ← condition.anyElement regex (elements header.fields)
  if !matched && !condition.capturing.isEmpty then modify RuntimeVariables.clearMatchValues
  return matched

/-- Every check finds its field in the part. -/
def checksMatch (checks : List CompiledMultipartCheck) (part : MimePart) : Bool :=
  checks.all fun check => (part.field check.field).any check.regex.isMatch

/-- The value of `MATCH` in a field of a part. -/
def markedPartValue (captures : Captures) (input : Bytes) (indexes : List Nat) :
    Except EvalError MatchValues :=
  match (selectedMatchStart captures indexes).bind fun start =>
      (captures 0).bind fun (_, stop) => subslice input start stop with
  | none => .ok []
  | some bytes => (matchValue bytes).map fun value => [("MATCH", value)]

/-- The match values of a part; the numbers run on through the checks. -/
def partValues (part : MimePart) (number : Nat) :
    List CompiledMultipartCheck → Except EvalError MatchValues
  | [] => .ok []
  | check :: rest =>
    match (part.field check.field).bind fun input => (check.regex.captures input).map (input, ·) with
    | none => partValues part number rest
    | some (input, captures) =>
      if check.capturing.isEmpty then partValues part number rest
      else do
        let marked ← markedPartValue captures input check.capturing.matchCaptures
        let numbered ← numberedValues captures input number check.capturing.captureIndexes
        let rest ← partValues part (number + check.capturing.captureIndexes.length) rest
        .ok (marked ++ numbered ++ rest)

/-- The first part that every check accepts, with its match values when they are wanted. -/
def firstPart (line : Nat) (checks : List CompiledMultipartCheck) (wanted : Bool) :
    List (Except StructuredHeaderError MimePart) → Except EvalError (Option (Option MatchValues))
  | [] => .ok none
  | .error error :: _ => .error (.StructuredHeader line error)
  | .ok part :: rest =>
    if checksMatch checks part then
      if wanted then (partValues part 1 checks).map fun values => some (some values)
      else .ok (some none)
    else firstPart line checks wanted rest

/-- Some part has everything that is checked. The match variables are cleared if there is none. -/
def matchesMultipart (condition : ResolvedCondition) (checks : List CompiledMultipartCheck)
    (parts : List (Except StructuredHeaderError MimePart)) : Eval Bool := do
  let hasCaptures := !condition.negated && checks.any fun check => !check.capturing.isEmpty
  match ← liftExcept id (firstPart condition.line checks hasCaptures parts) with
  | none =>
    modify RuntimeVariables.clearMatchValues
    return false
  | some values =>
    if condition.negated then modify RuntimeVariables.clearMatchValues
    else
      match values with
      | none => pure ()
      | some values =>
        liftExcept id (checkMatchValues values)
        modify fun runtime => runtime.clearNumberedMatchValues.setMatchValues values
    return true

/-- The regex on the value of a variable; a variable that is not set counts as empty. -/
def variableMatches (condition : ResolvedCondition) (name : String) (regex : Regex) : Eval Bool := do
  let runtime ← get
  let value := (runtime.get name).getD []
  if value.length > maxAssignmentValueLen then throw (.VariableValueTooLarge name value.length)
  condition.regexMatches regex value

/-- The condition as far as the header decides it. -/
def matchesHeaders (condition : ResolvedCondition) (head : MessageHead) : Eval PartialMatch :=
  let decided (matched : Eval Bool) : Eval PartialMatch := do
    return PartialMatch.fromBool (condition.applyNegation (← matched))
  match condition.kind with
  | .HeaderRegex regex => decided (condition.regexMatches regex head.matching)
  | .AddressRegex elements regex | .IdentifierRegex elements regex | .KeywordRegex elements regex =>
    decided (condition.matchesElements elements regex head.headerView)
  | .BodyRegex _ | .MessageRegex _ | .Multipart _ _ | .Program _ _ => return .Deferred
  | .VariableRegex name regex => decided (condition.variableMatches name regex)
  | .SmallerThan size => if head.len ≥ size then decided (return false) else return .Deferred
  | .LargerThan size => if head.len > size then decided (return true) else return .Deferred

/-- What the condition says of the complete message, before it is negated. -/
def matchesKind (condition : ResolvedCondition) (message : CompleteMessage) : Eval Bool :=
  match condition.kind with
  | .HeaderRegex regex => condition.regexMatches regex (message.matchingInput .Headers)
  | .AddressRegex elements regex | .IdentifierRegex elements regex | .KeywordRegex elements regex =>
    condition.matchesElements elements regex message.headerView
  | .BodyRegex regex => condition.regexMatches regex (message.matchingInput .Body)
  | .MessageRegex regex => condition.regexMatches regex (message.matchingInput .Message)
  | .VariableRegex name regex => condition.variableMatches name regex
  | .Multipart parts checks =>
    condition.matchesMultipart checks
      (parts message.headerView.fields (message.matchingInput .Body))
  | .Program _ _ => throw (.ExternalConditionUnsupported condition.line)
  | .SmallerThan size => pure (message.len < size)
  | .LargerThan size => pure (message.len > size)

/-- What the condition says of the complete message. -/
def matchesComplete (condition : ResolvedCondition) (message : CompleteMessage) : Eval Bool := do
  return condition.applyNegation (← condition.matchesKind message)

/-- The command of the condition with its input, if it runs one. -/
def program (condition : ResolvedCondition) : Option (Bytes × ConditionInput) :=
  match condition.kind with
  | .Program command input => some (command, input)
  | _ => none

end ResolvedCondition

/-- `resolve_shell_expansion_with`: the text is expanded and parsed again until it is no longer
marked for expansion. Repeated passes are bounded. -/
def resolveShellExpansionWith {m : Type → Type} [Monad m]
    (expand : ShellExpandedCondition → m Bytes)
    (lift : ∀ {α : Type}, Except EvalError α → m α) (line : Nat) :
    Nat → Bool → ShellExpandedCondition → m ResolvedCondition
  | 0, _, _ =>
    lift (.error (.RuntimeCondition line "condition expansion exceeds the hard depth limit of 32"))
  | passes + 1, negated, condition => do
    let expanded ← expand condition
    match ← lift (condition.reparse expanded) with
    | .Expanded again condition =>
      resolveShellExpansionWith expand lift line passes (negated ^^ again) condition
    | .Compiled compiled => return { compiled with negated := negated ^^ compiled.negated }

namespace CompiledCondition

/-- The condition as far as the header decides it. One that is expanded first is deferred. -/
def matchesHeaders (condition : CompiledCondition) (head : MessageHead) : Eval PartialMatch :=
  match condition with
  | .ShellExpanded .. => return .Deferred
  | .Resolved condition => condition.matchesHeaders head

/-- What the condition says of the complete message, expanded without commands. -/
def matchesComplete (condition : CompiledCondition) (message : CompleteMessage) : Eval Bool :=
  match condition with
  | .Resolved condition => condition.matchesComplete message
  | .ShellExpanded line negated condition => do
    let resolved ← resolveShellExpansionWith
      (fun condition => do liftExcept id (condition.expand (← get))) (liftExcept id) line
      (maxExpansionDepth + 1) negated condition
    resolved.matchesComplete message

end CompiledCondition

end ProcmailRs
