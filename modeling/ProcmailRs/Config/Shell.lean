import ProcmailRs.Config.ShellPattern
import ProcmailRs.Config.Variables

/-!
# Shell expressions

A shell expression is a list of parts: literal text, parameters with their operations, commands, and
the quoted parts of a pattern. Evaluation goes through the parts from left to right and builds a value
of bounded length; what a variable or a command stands for, and how errors are reported, is left to
the context.
-/

namespace ProcmailRs.Config

open ShellPattern

/-- Whether letters become capital or small ones. -/
inductive CaseDirection
  | Upper
  | Lower
  deriving DecidableEq, Repr

/-- What is done with the value of a parameter. Most operations have a word, see
`ShellPart.Variable`. -/
inductive ParameterOperation
  | Value
  | DefaultIfUnset
  | DefaultIfUnsetOrEmpty
  | AlternateIfSet
  | AlternateIfSetAndNotEmpty
  | AssignIfUnsetOrEmpty
  | ErrorIfUnsetOrEmpty
  | Length
  | RemovePrefix (longest : Bool)
  | RemoveSuffix (longest : Bool)
  | ChangeCase (direction : CaseDirection) (all : Bool)
  deriving DecidableEq, Repr

/-- The parts of an expression. The word of `Value` and `Length`, which have none, is empty. -/
inductive ShellPart
  | Literal (text : Bytes)
  | Variable (name : String) (operation : ParameterOperation) (word : List ShellPart)
  | RegexQuotedVariable (name : String)
  | Command (command : Bytes)
  | PatternQuote (expression : List ShellPart)
  deriving Repr

/-- The parts of an expression. -/
abbrev ShellExpression := List ShellPart

namespace ParameterOperation

/-- Whether `word()` gives the word of the operation. The word of an error is not looked at. -/
def hasWord : ParameterOperation → Bool
  | .Value | .Length | .ErrorIfUnsetOrEmpty => false
  | _ => true

/-- `selected_word`: the word stands for the parameter. -/
def selectsWord (operation : ParameterOperation) (isSet isEmpty : Bool) : Bool :=
  match operation with
  | .DefaultIfUnset => !isSet
  | .DefaultIfUnsetOrEmpty => !isSet || isEmpty
  | .AlternateIfSet => isSet
  | .AlternateIfSetAndNotEmpty => isSet && !isEmpty
  | .AssignIfUnsetOrEmpty => !isSet || isEmpty
  | _ => false

/-- The operation is an error if the parameter is not set. -/
def requiresValue : ParameterOperation → Bool
  | .Value | .Length | .RemovePrefix _ | .RemoveSuffix _ | .ChangeCase .. => true
  | _ => false

/-- The operation changes the value of the parameter. -/
def isValueTransform : ParameterOperation → Bool
  | .Length | .RemovePrefix _ | .RemoveSuffix _ | .ChangeCase .. => true
  | _ => false

/-- The word of the operation is evaluated. -/
def evaluatesWord (operation : ParameterOperation) (isSet isEmpty : Bool) : Bool :=
  match operation with
  | .RemovePrefix _ | .RemoveSuffix _ | .ChangeCase .. => isSet
  | _ => operation.selectsWord isSet isEmpty

/-- The value of the parameter is inserted where the word is not. The value that `:=` leaves alone is
not. -/
def usesValueWhenWordIsNotSelected : ParameterOperation → Bool
  | .Value | .DefaultIfUnset | .DefaultIfUnsetOrEmpty | .ErrorIfUnsetOrEmpty | .Length
  | .RemovePrefix _ | .RemoveSuffix _ | .ChangeCase .. => true
  | _ => false

end ParameterOperation

mutual

/-- Some command stands in the part. -/
def ShellPart.hasCommands : ShellPart → Bool
  | .Command _ => true
  | .PatternQuote expression => hasCommands expression
  | .Variable _ operation word => operation.hasWord && hasCommands word
  | .Literal _ | .RegexQuotedVariable _ => false

/-- Some command stands in the expression. -/
def hasCommands : ShellExpression → Bool
  | [] => false
  | part :: parts => part.hasCommands || hasCommands parts

end

mutual

/-- Some assignment stands in the part. -/
def ShellPart.hasAssignments : ShellPart → Bool
  | .Variable _ operation word =>
    operation == .AssignIfUnsetOrEmpty || (operation.hasWord && hasAssignments word)
  | .PatternQuote expression => hasAssignments expression
  | .Literal _ | .RegexQuotedVariable _ | .Command _ => false

/-- Some assignment stands in the expression. -/
def hasAssignments : ShellExpression → Bool
  | [] => false
  | part :: parts => part.hasAssignments || hasAssignments parts

end

/-- The expression does more than read variables. -/
def requiresOrderedEvaluation (expression : ShellExpression) : Bool :=
  hasCommands expression || hasAssignments expression

/-- The text of an expression that is nothing but text. -/
def literalText : ShellExpression → Option Bytes
  | [] => some []
  | .Literal text :: parts => (literalText parts).map (text ++ ·)
  | _ :: _ => none

/-! ### Evaluation -/

/-- What the depth of an evaluation counts. -/
inductive EvaluationDepth
  | None
  | ExpansionChain
  | SyntaxNesting
  deriving DecidableEq, Repr

/-- A value with the depth it was found at. -/
structure VariableValue where
  bytes : Bytes
  depth : Nat
  deriving DecidableEq, Repr

/-- The value so far, its depth, and the assignments made on the way. -/
structure Evaluation where
  bytes : Bytes
  depth : Nat
  assignments : List (String × Bytes)
  deriving DecidableEq, Repr

/-- What evaluation asks of its surroundings: values, commands, and errors of type `ε`. -/
structure EvaluationContext (m : Type → Type) (ε : Type) where
  depthMode : EvaluationDepth
  variableValue : String → m (Option VariableValue)
  command : Bytes → Nat → m Bytes
  regexQuoted : String → Nat → m Bytes
  missingVariable : String → ε
  requiredParameter : String → ε
  patternError : PatternError → ε
  depthExceeded : ε
  /-- The error for a value of the length attempted, behind the current one, above the limit. -/
  lengthError : Nat → Nat → Nat → ε

/-- The value that an earlier part has assigned. -/
def assignedValue (assignments : List (String × Bytes)) (name : String) : Option VariableValue :=
  (assignments.reverse.lookup name).map fun bytes => ⟨bytes, 0⟩

/-- Replaces the first assignment to the name, or adds one. -/
def recordAssignment (name : String) (value : Bytes) :
    List (String × Bytes) → List (String × Bytes)
  | [] => [(name, value)]
  | (assigned, old) :: rest =>
    if assigned = name then (assigned, value) :: rest
    else (assigned, old) :: recordAssignment name value rest

/-- The bytes that mean something in a pattern get a backslash. -/
def quotePatternBytes (bytes : Bytes) : Bytes :=
  bytes.flatMap fun byte =>
    if byte == 42 || byte == 63 || byte == 91 || byte == 92 then [92, byte] else [byte]

/-- `u8::to_ascii_uppercase`. -/
def toAsciiUppercase (b : UInt8) : UInt8 := if 97 ≤ b && b ≤ 122 then b - 32 else b

/-- The bytes that match the pattern change their case: all of them, or the first byte only. -/
def changeCase (value pattern : Bytes) (direction : CaseDirection) (all : Bool) :
    Except PatternError Bytes :=
  transformMatchingBytes value pattern all fun byte =>
    match direction with
    | .Upper => toAsciiUppercase byte
    | .Lower => toAsciiLowercase byte

/-- The value that a transform makes of a value and its pattern. -/
def transformValue (operation : ParameterOperation) (value pattern : Bytes) :
    Except PatternError Bytes :=
  let selection (longest : Bool) : Selection := if longest then .Longest else .Shortest
  match operation with
  | .Length => .ok (decimal value.length)
  | .RemovePrefix longest => remove value pattern .Prefix (selection longest)
  | .RemoveSuffix longest => remove value pattern .Suffix (selection longest)
  | .ChangeCase direction all => changeCase value pattern direction all
  | _ => .ok value

section Evaluate

variable {m : Type → Type} {ε : Type} [Monad m] [MonadExceptOf ε m]
  (context : EvaluationContext m ε)

/-- Adds to the output within the limit. -/
def append (limit : Nat) (value : Bytes) (output : Evaluation) : m Evaluation :=
  if output.bytes.length + value.length > limit then
    throw (context.lengthError (output.bytes.length + value.length) output.bytes.length limit)
  else pure { output with bytes := output.bytes ++ value }

/-- The depth of a value that has been selected. -/
def selectedDepth (valueDepth nesting : Nat) (usedWord emptyValue : Bool) : m Nat :=
  let depth := match context.depthMode with
    | .None => 0
    | .ExpansionChain => valueDepth + 1
    | .SyntaxNesting =>
      if usedWord then valueDepth else if emptyValue then nesting else nesting + 1
  if depth > maxExpansionDepth then throw context.depthExceeded else pure depth

/-- The depth that an expression starts with. -/
def initialDepth (nesting : Nat) : Nat :=
  match context.depthMode with
  | .SyntaxNesting => nesting
  | .None | .ExpansionChain => 0

/-- The check that every expression and every word starts with. -/
def withinDepth (nesting : Nat) (evaluation : m Evaluation) : m Evaluation :=
  if nesting > maxExpansionDepth then throw context.depthExceeded else evaluation

/-- The value of the quoted part of a pattern; its bytes are added one by one. -/
def appendQuoted (limit : Nat) (value output : Evaluation) : m Evaluation :=
  let quoted := quotePatternBytes value.bytes
  let remaining := limit - output.bytes.length
  if quoted.length > remaining then
    throw (context.lengthError (remaining + 1) remaining remaining)
  else append context limit quoted
    { output with depth := max output.depth value.depth, assignments := value.assignments }

/-- The pattern of a transform; the length of a value needs none. -/
def evaluatePattern (operation : ParameterOperation) (evaluateWord : Evaluation → m Evaluation)
    (output : Evaluation) : m Evaluation :=
  if operation.hasWord then evaluateWord output else pure ⟨[], 0, output.assignments⟩

/-- A parameter whose value is transformed, `evaluateWord` being the evaluation of its pattern. -/
def evaluateTransform (limit : Nat) (name : String) (operation : ParameterOperation)
    (found : Option VariableValue) (evaluateWord : Evaluation → m Evaluation)
    (output : Evaluation) : m Evaluation := do
  match found with
  | none => throw (context.missingVariable name)
  | some value =>
    let pattern ← evaluatePattern operation evaluateWord output
    match transformValue operation value.bytes pattern.bytes with
    | .error error => throw (context.patternError error)
    | .ok selected =>
      append context limit selected
        { output with
          depth := max (max output.depth value.depth) pattern.depth
          assignments := pattern.assignments }

/-- A parameter whose value or word is inserted. -/
def evaluateSelected (limit nesting : Nat) (name : String) (operation : ParameterOperation)
    (found : Option VariableValue) (evaluateWord : Evaluation → m Evaluation)
    (output : Evaluation) : m Evaluation := do
  let isSet := found.isSome
  let isEmpty := found.any fun value => value.bytes.isEmpty
  if operation = .ErrorIfUnsetOrEmpty ∧ (!isSet || isEmpty) then
    throw (context.requiredParameter name)
  else if operation.selectsWord isSet isEmpty then
    let selected ← evaluateWord output
    let assignments := if operation = .AssignIfUnsetOrEmpty then
      recordAssignment name selected.bytes selected.assignments else selected.assignments
    let depth ← selectedDepth context selected.depth nesting true false
    append context limit selected.bytes
      { output with depth := max output.depth depth, assignments := assignments }
  else if operation.usesValueWhenWordIsNotSelected then
    match found with
    | none => throw (context.missingVariable name)
    | some value =>
      let depth ← selectedDepth context value.depth nesting false value.bytes.isEmpty
      append context limit value.bytes { output with depth := max output.depth depth }
  else
    let depth ← selectedDepth context 0 nesting false true
    pure { output with depth := max output.depth depth }

mutual

/-- Evaluates a part behind the output. -/
def evaluatePart : ShellPart → Nat → Nat → Evaluation → m Evaluation
  | .Literal text, limit, _, output => append context limit text output
  | .Variable name operation word, limit, nesting, output => do
    let found ← match assignedValue output.assignments name with
      | some value => pure (some value)
      | none => context.variableValue name
    let evaluateWord (output : Evaluation) : m Evaluation :=
      withinDepth context (nesting + 1)
        (evaluateParts word (limit - output.bytes.length) (nesting + 1)
          ⟨[], initialDepth context (nesting + 1), output.assignments⟩)
    if operation.isValueTransform then
      evaluateTransform context limit name operation found evaluateWord output
    else evaluateSelected context limit nesting name operation found evaluateWord output
  | .Command command, limit, _, output => do
    let value ← context.command command (limit - output.bytes.length)
    append context limit value output
  | .RegexQuotedVariable name, limit, _, output => do
    let value ← context.regexQuoted name (limit - output.bytes.length)
    append context limit value output
  | .PatternQuote expression, limit, nesting, output => do
    let value ← withinDepth context nesting
      (evaluateParts expression (limit - output.bytes.length) nesting
        ⟨[], initialDepth context nesting, output.assignments⟩)
    appendQuoted context limit value output

/-- Evaluates the parts one after another. -/
def evaluateParts : ShellExpression → Nat → Nat → Evaluation → m Evaluation
  | [], _, _, output => pure output
  | part :: parts, limit, nesting, output => do
    evaluateParts parts limit nesting (← evaluatePart part limit nesting output)

end

/-- Evaluates an expression at a nesting, behind these assignments. -/
def evaluateAt (expression : ShellExpression) (limit nesting : Nat)
    (assignments : List (String × Bytes)) : m Evaluation :=
  withinDepth context nesting
    (evaluateParts context expression limit nesting
      ⟨[], initialDepth context nesting, assignments⟩)

/-- Evaluates an expression. -/
def evaluate (expression : ShellExpression) (limit : Nat) : m Evaluation :=
  evaluateAt context expression limit 0 []

end Evaluate

end ProcmailRs.Config
