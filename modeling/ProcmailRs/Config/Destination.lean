import ProcmailRs.Config.ExpressionParser

/-!
# Paths and destinations

The path of a destination, a lockfile or an rc file is the value of an expression, taken below a base
directory when it is relative. A destination is resolved when a message is delivered to it. Before
that it may be bound: the ordinary variables in it get the values of the moment, while those that are
known only after earlier deliveries stay.
-/

namespace ProcmailRs.Config

/-! ### Values of expressions -/

/-- The expression is nested too deep. -/
def depthError (line : Nat) : ExpansionError :=
  ⟨line, "variable expansion exceeds the hard depth limit of 32"⟩

/-- The value is too long. -/
def lengthErrorAt (line limit : Nat) : ExpansionError :=
  ⟨line, "expanded value exceeds the hard limit of " ++ toString limit ++ " bytes"⟩

/-- A pattern would take too many steps. -/
def patternErrorAt (line : Nat) : ShellPattern.PatternError → ExpansionError
  | .TooComplex attempted =>
    ⟨line, "shell pattern requires " ++ toString attempted ++
      " steps, exceeding the hard limit of 16777216"⟩

/-- `RuntimeStringEvaluation`: the variables are texts; there are no commands. -/
def runtimeStringEvaluation (line : Nat) (lookup : Lookup) :
    EvaluationContext (Except ExpansionError) ExpansionError where
  depthMode := .SyntaxNesting
  variableValue name := .ok ((lookup name).map fun bytes => ⟨bytes, 0⟩)
  command _ _ := .error ⟨line, "expression cannot be evaluated here"⟩
  regexQuoted _ _ := .error ⟨line, "expression cannot be evaluated here"⟩
  missingVariable name := ⟨line, "runtime variable " ++ name ++ " is not set"⟩
  requiredParameter name := ⟨line, "parameter " ++ name ++ " is unset or empty"⟩
  patternError := patternErrorAt line
  depthExceeded := depthError line
  lengthError _ _ := lengthErrorAt line

/-- The value of an evaluation that must be text and may not assign. -/
def evaluatedText (line : Nat) (evaluated : Evaluation) : Parsed Bytes :=
  if !evaluated.assignments.isEmpty then
    .error ⟨line, "parameter assignment requires ordered evaluation"⟩
  else if (utf8Chars? evaluated.bytes).isNone then
    .error ⟨line, "expanded value is not valid UTF-8"⟩
  else .ok evaluated.bytes

/-- The value of an expression without commands, as text. -/
def evaluateExpression (expression : ShellExpression) (line limit : Nat) (lookup : Lookup) :
    Parsed Bytes := do
  evaluatedText line (← evaluate (runtimeStringEvaluation line lookup) expression limit)

/-- The value of `LINEBUF`, or its default. -/
def activeLinebuf (lookup : Lookup) : Nat :=
  ((lookup "LINEBUF").bind parseUsize).getD defaultLinebuf

/-- A value that is too long for `LINEBUF` only is reported as such. -/
def relabelLinebufError (error : ExpansionError) (linebuf hardLimit : Nat) : ExpansionError :=
  if linebuf < hardLimit ∧ error.message = (lengthErrorAt error.line linebuf).message then
    { error with
      message := "expanded value exceeds the active LINEBUF limit of " ++ toString linebuf ++
        " bytes" }
  else error

/-- The value of an expression within its own limit and that of `LINEBUF`. -/
def evaluateWithLinebuf (expression : ShellExpression) (line hardLimit : Nat) (lookup : Lookup) :
    Parsed Bytes :=
  let linebuf := activeLinebuf lookup
  (evaluateExpression expression line (min linebuf hardLimit) lookup).mapError
    fun error => relabelLinebufError error linebuf hardLimit

/-! ### Paths -/

/-- What a path is for. -/
inductive PathPurpose
  | Maildir
  | Mbox
  | File
  | Discard
  | Lockfile
  | Logfile
  | RcFile
  deriving DecidableEq, Repr

/-- What a path is for, how errors call it, and the directory it is relative to. -/
structure PathResolver where
  purpose : PathPurpose
  description : String
  line : Nat
  base : Option Bytes
  typedDestination : Bool

/-- `/`. -/
def SLASH : UInt8 := 47

/-- `u8::is_ascii_whitespace`. -/
def isAsciiWhitespace (b : UInt8) : Bool := b == 9 || b == 10 || b == 12 || b == 13 || b == 32

/-- The join is bounded before it is made. -/
def resolveRelativePath (path : Bytes) (base : Option Bytes) (line : Nat) : Parsed Bytes :=
  match base.filter fun base => !base.isEmpty with
  | none => .ok path
  | some base =>
    if path.isEmpty || path.head? == some SLASH then .ok path
    else
      let joined := base ++ (if base.getLast? == some SLASH then [] else [SLASH]) ++ path
      if joined.length > maxPathExpressionLen then .error (lengthErrorAt line maxPathExpressionLen)
      else .ok joined

/-- What a component of a path may not be. -/
def componentProblem (component : Bytes) : Option String :=
  if component = [] then some "contains an empty component"
  else if component = strBytes "." then some "must not contain '.'"
  else if component = strBytes ".." then some "must not contain '..'"
  else none

/-- A single leading root and the trailing marker of a Maildir are no components. -/
def pathComponents (path : Bytes) (allowsTrailingSlash : Bool) : Bytes :=
  let components := if path.head? = some SLASH then path.tail else path
  if allowsTrailingSlash && components.getLast? == some SLASH then components.dropLast
  else components

/-- What is wrong with a path. -/
def pathProblem (path : Bytes) (allowsTrailingSlash : Bool) : Option String :=
  let components := pathComponents path allowsTrailingSlash
  if path.isEmpty then some "is empty"
  else if path.contains 0 then some "contains NUL"
  else if path.getLast? == some SLASH && !allowsTrailingSlash then some "must not end with '/'"
  else if components.isEmpty then some "does not name a filesystem entry"
  else (components.splitOn SLASH).findSome? componentProblem

/-- A path that can be opened. -/
def validateFilesystemPath (path : Bytes) (line : Nat) (description : String)
    (allowsTrailingSlash : Bool) : Parsed Unit :=
  match pathProblem path allowsTrailingSlash with
  | some problem => .error ⟨line, description ++ " path " ++ problem⟩
  | none => .ok ()

namespace PathResolver

/-- An empty path is no error. -/
def allowsEmpty (resolver : PathResolver) : Bool :=
  resolver.purpose == .Lockfile || resolver.purpose == .Logfile || resolver.purpose == .RcFile

/-- The path is that of a destination. -/
def isDestination (resolver : PathResolver) : Bool :=
  resolver.purpose == .Maildir || resolver.purpose == .Mbox || resolver.purpose == .File ||
    resolver.purpose == .Discard

/-- The path under which messages are discarded. -/
def devNull : Bytes := strBytes "/dev/null"

/-- The checks behind the join. -/
def checkPath (resolver : PathResolver) (path : Bytes) : Parsed Bytes := do
  validateFilesystemPath path resolver.line resolver.description (resolver.purpose == .Maildir)
  if resolver.purpose = .Discard ∧ path ≠ devNull then
    .error ⟨resolver.line, "discard destination must resolve exactly to /dev/null"⟩
  else return path

/-- The path that a text names. -/
def resolve (resolver : PathResolver) (source : Bytes) : Parsed Bytes :=
  if source.isEmpty && resolver.allowsEmpty then .ok []
  else if resolver.isDestination && !resolver.typedDestination && source.any isAsciiWhitespace then
    .error ⟨resolver.line, "multiple unmarked mailbox destinations are not supported"⟩
  else do
    let path ← resolveRelativePath source resolver.base resolver.line
    resolver.checkPath path

/-- The path that an expression names. -/
def evaluate (resolver : PathResolver) (expression : ShellExpression) (lookup : Lookup) :
    Parsed Bytes := do
  let source ← evaluateWithLinebuf expression resolver.line maxPathExpressionLen lookup
  resolver.resolve source

end PathResolver

/-- A path as it stands in an rc file. `base` is the directory known when the file was prepared;
`runtimeBase` says that the directory of the moment takes its place. -/
structure PathExpression where
  source : Bytes
  base : Option Bytes
  line : Nat
  runtimeDependent : Bool
  runtimeBase : Bool
  typedDestination : Bool
  expansion : Option ShellExpression

/-- The expression that the path was parsed to; a path without one is parsed now. -/
def PathExpression.compiled (expression : PathExpression) : Parsed ShellExpression :=
  match expression.expansion with
  | some compiled => .ok compiled
  | none => parseExpression expression.source expression.line

/-- The directory that a relative path is taken below. -/
def PathExpression.directory (expression : PathExpression) (maildir : Option Bytes) :
    Option Bytes :=
  ((if expression.runtimeBase then maildir else none).orElse fun _ => expression.base)

/-- The path of a lockfile. -/
def PathExpression.resolveWith (expression : PathExpression) (lookup : Lookup) : Parsed Bytes := do
  let compiled ← expression.compiled
  PathResolver.evaluate
    ⟨.Lockfile, "lockfile", expression.line, expression.directory (lookup "MAILDIR"), true⟩
    compiled lookup

/-! ### Binding -/

/-- Adds a part; literal texts that meet become one. -/
def pushPart (parts : ShellExpression) : ShellPart → ShellExpression
  | .Literal text => pushLiteralPart parts text
  | part => parts ++ [part]

mutual

/-- What a part becomes with the values of the moment. -/
def bindPart (line : Nat) (lookup : Lookup) : ShellPart → Nat → Parsed ShellExpression
  | .Literal text, _ => .ok [.Literal text]
  | .Variable name operation word, nesting => do
    if operation.isValueTransform then
      let value ← evaluateWithLinebuf [.Variable name operation word] line maxAssignmentValueLen
        lookup
      return [.Literal value]
    else if variablePolicy name = .RuntimeOnly then
      -- The word of an error stays as it is.
      if operation.hasWord then
        checkExpansionDepth (nesting + 1) line
        let word ← bindParts line lookup word (nesting + 1) []
        return [.Variable name operation word]
      else return [.Variable name operation word]
    else
      let value := lookup name
      if operation.selectsWord value.isSome (value.any List.isEmpty) then
        checkExpansionDepth (nesting + 1) line
        bindParts line lookup word (nesting + 1) []
      else if operation.usesValueWhenWordIsNotSelected then
        match value with
        | some value => return [.Literal value]
        | none =>
          if operation = .ErrorIfUnsetOrEmpty then
            .error ⟨line, "parameter " ++ name ++ " is unset or empty"⟩
          else .error ⟨line, "variable " ++ name ++ " is not set"⟩
      else return []
  | .RegexQuotedVariable _, _ | .Command _, _ =>
    .error ⟨line, "expression cannot be statically bound"⟩
  | .PatternQuote expression, nesting => do
    checkExpansionDepth (nesting + 1) line
    let bound ← bindParts line lookup expression (nesting + 1) []
    return [.PatternQuote bound]

/-- The parts behind those that are bound already. Literal parts in a row become one. -/
def bindParts (line : Nat) (lookup : Lookup) : ShellExpression → Nat → ShellExpression →
    Parsed ShellExpression
  | [], _, parts => .ok parts
  | part :: rest, nesting, parts => do
    let bound ← bindPart line lookup part nesting
    bindParts line lookup rest nesting (bound.foldl pushPart parts)

end

/-- Binds the ordinary variables without flattening the expression: a value produced by an earlier
delivery still chooses its branch later. -/
def bindStaticExpression (expression : ShellExpression) (line : Nat) (lookup : Lookup)
    (nesting : Nat) : Parsed ShellExpression := do
  checkExpansionDepth nesting line
  bindParts line lookup expression nesting []

mutual

/-- `has_runtime_part` of an expression of which nothing is known. -/
def ShellPart.hasRuntime : ShellPart → Bool
  | .Literal _ => false
  | .Variable name operation word =>
    let runtime := variablePolicy name == .RuntimeOnly
    let wordMayRun := if runtime then operation.hasWord else operation.evaluatesWord false false
    runtime || operation == .AssignIfUnsetOrEmpty || (wordMayRun && expressionHasRuntime word)
  | .RegexQuotedVariable _ | .Command _ => true
  | .PatternQuote expression => expressionHasRuntime expression

/-- The expression reads variables that change while messages are delivered. -/
def expressionHasRuntime : ShellExpression → Bool
  | [] => false
  | part :: parts => part.hasRuntime || expressionHasRuntime parts

end

/-! ### Destinations -/

/-- A destination with its kind. -/
structure Destination where
  kind : DestinationKind
  expression : PathExpression

namespace Destination

/-- What its path is for. -/
def purpose (destination : Destination) : PathPurpose :=
  match destination.kind with
  | .Maildir => .Maildir
  | .Mbox => .Mbox
  | .File => .File
  | .Discard => .Discard

/-- How errors call the destination. -/
def description (destination : Destination) : String :=
  match destination.kind with
  | .Maildir => "Maildir destination"
  | .Mbox => "mbox destination"
  | .File => "file destination"
  | .Discard => "discard destination"

/-- A resolved file is a mailbox, or the null device. -/
def rebuild (destination : Destination) (expression : PathExpression) (classifyFile : Bool) :
    Destination :=
  match destination.kind with
  | .File =>
    if classifyFile then
      if expression.source = PathResolver.devNull then ⟨.Discard, expression⟩
      else ⟨.Mbox, expression⟩
    else ⟨.File, expression⟩
  | kind => ⟨kind, expression⟩

/-- The expression of a destination that has been resolved: its text, and nothing that is still open. -/
def resolvedExpression (destination : Destination) (source : Bytes) : PathExpression :=
  { source := source
    base := none
    line := destination.expression.line
    runtimeDependent := false
    runtimeBase := false
    typedDestination := destination.expression.typedDestination
    expansion := none }

/-- How its path is resolved. -/
def resolver (destination : Destination) (base : Option Bytes) : PathResolver :=
  ⟨destination.purpose, destination.description, destination.expression.line, base,
    destination.expression.typedDestination⟩

/-- The expression that is evaluated while commands can be run and variables assigned. -/
def commandExpression (destination : Destination) : Option ShellExpression :=
  destination.expression.expansion.filter requiresOrderedEvaluation

/-- The path of a destination that has been resolved. -/
def path (destination : Destination) : Bytes := destination.expression.source

/-- `resolve_ordered_output`: the destination that the output of its command names. -/
def resolveOrderedOutput (destination : Destination) (source : Bytes)
    (runtimeMaildir : Option Bytes) : Parsed Destination := do
  if destination.commandExpression.isNone then
    .error ⟨destination.expression.line, "destination has no ordered expression"⟩
  else
    let base := if destination.expression.runtimeBase then runtimeMaildir
      else destination.expression.base
    let path ← (destination.resolver base).resolve source
    return destination.rebuild (destination.resolvedExpression path) true

/-- `bind_with`: the variables that are fixed take their values, the others stay open. -/
def bindWith (destination : Destination) (lookup : Lookup) : Parsed Destination := do
  let expression := destination.expression
  if destination.commandExpression.isSome then
    .error ⟨expression.line, "destination ordered expression has not executed"⟩
  else
    let compiled ← expression.compiled
    let expansion ← bindStaticExpression compiled expression.line lookup 0
    return destination.rebuild
      { expression with
        runtimeDependent := expressionHasRuntime expansion
        expansion := some expansion } false

/-- `resolve_with`: the destination that the expression names now. -/
def resolveWith (destination : Destination) (lookup : Lookup) : Parsed Destination := do
  let expression := destination.expression
  if expression.expansion.any hasCommands then
    .error ⟨expression.line, "destination command substitution has not executed"⟩
  else
    let compiled ← expression.compiled
    let path ← (destination.resolver (expression.directory (lookup "MAILDIR"))).evaluate compiled
      lookup
    return destination.rebuild (destination.resolvedExpression path) true

/-- Which destination it is can change while messages are delivered. -/
def needsRuntimeVariables (destination : Destination) : Bool :=
  destination.expression.runtimeDependent || destination.expression.runtimeBase

end Destination

end ProcmailRs.Config
