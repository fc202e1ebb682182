import ProcmailRs.Config.Value
import ProcmailRs.Eval.Ordered

/-!
# Destinations of ordered execution

While a message is delivered, an expression may run commands and assign variables. A destination with
such an expression is evaluated before it is handed to the host; any other is bound. The host resolves
what it is given.
-/

namespace ProcmailRs.Config

open OrderedTreeExecution

/-- A character that a pattern gives a meaning. -/
def isRegexMeta (c : Char) : Bool :=
  ['\\', '.', '+', '*', '?', '(', ')', '|', '[', ']', '\x7b', '\x7d', '^', '$'].contains c

/-- Two lower case hexadecimal digits. -/
def hexByte (b : UInt8) : Bytes :=
  let digit (n : Nat) : UInt8 := if n < 10 then UInt8.ofNat (48 + n) else UInt8.ofNat (87 + n)
  [digit (b.toNat / 16), digit (b.toNat % 16)]

/-- `push_regex_escaped`: a regex that matches the value. -/
def regexEscaped (value : Bytes) : Bytes :=
  strBytes "(?:)" ++
    match utf8Chars? value with
    | some cs => cs.flatMap fun c => (if isRegexMeta c then [92] else []) ++ utf8 [c]
    | none => strBytes "(?-u:" ++ value.flatMap (fun b => strBytes "\\x" ++ hexByte b) ++ strBytes ")"

variable {σ E : Type} (host : OrderedExecutionHost σ E)

/-- An expansion that failed ends the evaluation. -/
def expansionError (line : Nat) (message : String) : OrderedExecutionError E :=
  .Evaluation (.Expansion ⟨line, message⟩)

/-- `OrderedExpressionEvaluation`: values are bytes, and commands read the message. -/
def orderedExpressionEvaluation (line : Nat) (valueName : String) (message : Bytes) :
    EvaluationContext (Exec σ E) (OrderedExecutionError E) where
  depthMode := .None
  variableValue name := do
    return ((← get).runtime.getBytes name).map fun bytes => ⟨bytes, 0⟩
  command command remaining := do
    match ← callHost (.Capture command message .Preserve remaining)
        (host.capture command message .Preserve none remaining) with
    | .error error => throw (.Delivery error.error)
    | .ok output =>
      liftExcept .Evaluation (validateCapturedValue output remaining valueName .StripAll)
  regexQuoted name remaining := do
    match (← get).runtime.getBytes name with
    | none => throw (expansionError line ("variable " ++ name ++ " is not defined"))
    | some source =>
      let escaped := regexEscaped source
      if escaped.length > remaining then
        throw (.Evaluation (.Expansion (lengthErrorAt line remaining)))
      else return escaped
  missingVariable name := expansionError line ("variable " ++ name ++ " is not defined")
  requiredParameter name := expansionError line ("parameter " ++ name ++ " is unset or empty")
  patternError error := .Evaluation (.Expansion (patternErrorAt line error))
  depthExceeded := .Evaluation (.Expansion (depthError line))
  lengthError attempted current _ :=
    .Evaluation (.VariableValueTooLarge valueName (max attempted current))

/-- The value of an expression, once its assignments have been made. -/
def evaluateShellExpression (expression : ShellExpression) (line : Nat) (valueName : String)
    (message : Bytes) (limit : Nat) : Exec σ E Bytes := do
  let evaluated ← Config.evaluate (orderedExpressionEvaluation host line valueName message)
    expression limit
  modify fun context =>
    { context with
      runtime := evaluated.assignments.foldl
        (fun runtime (name, value) => runtime.setBytes name value) context.runtime }
  return evaluated.bytes

namespace Destination

variable (destination : Destination) (message : Bytes)

/-- The text of the path of a destination that is evaluated in order. -/
def orderedText (expression : ShellExpression) : Exec σ E Bytes := do
  let limit ← liftExcept .Evaluation
    (activeCommandValueLimit (← get).runtime .User destination.expression.line)
  let source ← evaluateShellExpression host expression destination.expression.line "destination"
    message (min limit maxPathExpressionLen)
  if isText source then return source
  else throw (.Evaluation (.DestinationCommandOutputIsNotUtf8 destination.expression.line))

/-- The destination that a delivery hands to the host. -/
def execute : Exec σ E Destination := do
  match destination.commandExpression with
  | some expression =>
    let source ← destination.orderedText host message expression
    liftExcept (fun error => .Evaluation (.Expansion error))
      (destination.resolveOrderedOutput source (RuntimeSettings.maildir (← get).runtime))
  | none =>
    liftExcept (fun error => .Evaluation (.Expansion error))
      (destination.bindWith (← get).runtime.get)

/-- `resolve_destination`: the host resolves the destination before it opens it. A destination that
cannot be resolved is a permanent error of the delivery. -/
def openDestination (permanentDestination : ExpansionError → E) : Exec σ E Destination := do
  liftExcept (fun error => .Delivery (permanentDestination error))
    (destination.resolveWith (← get).runtime.get)

/-- The destination that a delivery opens in the end. -/
def deliver (permanentDestination : ExpansionError → E) : Exec σ E Destination := do
  let bound ← destination.execute host message
  bound.openDestination permanentDestination

/-! ### What a delivery should open -/

/-- The expression is evaluated once and its value resolved once. -/
def interpret : Exec σ E Destination := do
  match destination.commandExpression with
  | some expression =>
    let source ← destination.orderedText host message expression
    liftExcept (fun error => .Evaluation (.Expansion error))
      (destination.resolveOrderedOutput source (RuntimeSettings.maildir (← get).runtime))
  | none =>
    liftExcept (fun error => .Evaluation (.Expansion error))
      (destination.resolveWith (← get).runtime.get)

end Destination

/-- The backend and the path of the destination that an execution ends with. -/
def opened (execution : Exec σ E Destination) (context : OrderedTreeExecution σ E) :
    Option (DestinationKind × Bytes) :=
  match execution context with
  | .ok destination _ => some (destination.kind, destination.path)
  | .error _ _ => none

end ProcmailRs.Config
