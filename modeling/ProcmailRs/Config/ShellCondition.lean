import ProcmailRs.Config.ExpressionParser
import ProcmailRs.Config.Ordered
import ProcmailRs.Config.RcParser

/-!
# Conditions that are expanded

The text behind the dollar sign of a condition is an expression whose value is a condition again, and
that condition may be one that is expanded. A condition that reads nothing but what is known when the
rc file is prepared is expanded then, the others when they are tested; both ways go on until a
condition of another kind is there, and give up after a number of rounds.
-/

namespace ProcmailRs.Config

/-! ### The expression of a condition -/

/-- `ExpressionSyntax::escapes` of conditions. -/
def conditionEscapes (byte : UInt8) : Bool := byte == 36 || byte == 96 || byte == 34 || byte == 92

/-- A command behind its backquote. -/
def parseConditionCommand (line : Nat) (rest : Bytes) : Parsed (ShellPart × Bytes) :=
  match commandText rest with
  | none => .error ⟨line, "unterminated backquoted command in shell-expanded condition"⟩
  | some (text, rest) => .ok (.Command text, rest)

section Parameters

variable (line : Nat) (parseWord : Bool → Bytes → Parsed (ShellExpression × Bytes))

/-- What a backslash behind the dollar sign may not be followed by. -/
def regexEscapeProblem (first : UInt8) : Option String :=
  if first == 123 then some "regex-escaped condition variables use $\\NAME syntax"
  else if isAsciiDigit first then some "regex-escaped positional parameters are not supported"
  else if first == 35 then some "regex-escaped argument count is not supported"
  else if first == 36 || first == 63 || first == 95 || first == 45 then
    some "regex-escaped special parameters are not supported"
  else none

/-- The parameter behind a dollar sign and, for a regex-quoted one, a backslash. A dollar sign that
starts no parameter stands for itself, and the backslash behind it is gone. -/
def parseConditionParameter (patternWord regexEscape : Bool) (rest : Bytes) :
    Parsed (Option (String × ParameterOperation × ShellExpression) × Bytes) :=
  match rest with
  | [] =>
    if regexEscape then .error ⟨line, "regex-escaped condition variable is missing its name"⟩
    else .ok (none, [])
  | first :: tail =>
    match if regexEscape then regexEscapeProblem first else none with
    | some problem => .error ⟨line, problem⟩
    | none =>
      if first == 123 then do
        let (parameter, rest) ← parseBracedVariable line parseWord patternWord tail
        return (some parameter, rest)
      else if isAsciiDigit first then do
        let (name, rest) ← parsePositionalParameter line rest
        return (some (name, .Value, []), rest)
      else if first == 35 || first == 36 || first == 63 || first == 95 || first == 45 then
        .ok (some (nameText [first], .Value, []), tail)
      else if isNameStart first then
        let (name, rest) := parseName rest
        .ok (some (nameText name, .Value, []), rest)
      else if first == 61 || first == 64 || first == 42 then
        .error ⟨line, "unsupported special parameter in shell-expanded condition"⟩
      else .ok (none, rest)

/-- A reference behind its `$`; with a backslash its value is taken literally by the regular expression.
A lone `$` is none. -/
def parseConditionVariable (patternWord : Bool) (rest : Bytes) :
    Parsed (Option ShellPart × Bytes) := do
  let (regexEscape, rest) := match rest with
    | 92 :: tail => (true, tail)
    | _ => (false, rest)
  match ← parseConditionParameter line parseWord patternWord regexEscape rest with
  | (none, rest) => return (none, rest)
  | (some (name, operation, word), rest) =>
    if !isPositionalParameterName name && variablePolicy name = .Unsupported then
      .error ⟨line, "procmail variable " ++ name ++ " is not supported"⟩
    else if regexEscape then return (some (.RegexQuotedVariable name), rest)
    else return (some (.Variable name operation word), rest)

end Parameters

open WordSyntax

/-- `parse_until` behind its depth check. Quotes have no meaning in a condition. -/
def parseConditionLoop : Nat → WordSyntax → WordState → Bytes → Parsed (ShellExpression × Bytes)
  | _, syntax_, state, [] => syntax_.finish state []
  | 0, syntax_, state, rest => syntax_.finish state rest
  | fuel + 1, syntax_, state, byte :: rest =>
    if syntax_.stopAtBrace && byte == 125 then syntax_.finish state (byte :: rest)
    else if byte == 92 then
      match rest with
      | next :: tail =>
        if conditionEscapes next then
          parseConditionLoop fuel syntax_ (pushCharacter state next syntax_.patternWord) tail
        else parseConditionLoop fuel syntax_ (pushCharacter state 92 false) (next :: tail)
      | [] => parseConditionLoop fuel syntax_ (pushCharacter state 92 false) []
    else if byte == 96 then do
      let (part, rest) ← parseConditionCommand syntax_.line rest
      parseConditionLoop fuel syntax_ (syntax_.pushPart state part) rest
    else if byte == 36 then do
      let parseWord (patternWord : Bool) (rest : Bytes) : Parsed (ShellExpression × Bytes) := do
        checkExpansionDepth (syntax_.nesting + 1) syntax_.line
        parseConditionLoop fuel
          { syntax_ with
            nesting := syntax_.nesting + 1
            stopAtBrace := true
            patternWord := patternWord }
          ⟨[], [], .Unquoted⟩ rest
      match ← parseConditionVariable syntax_.line parseWord syntax_.patternWord rest with
      | (some part, rest) => parseConditionLoop fuel syntax_ (syntax_.pushPart state part) rest
      | (none, rest) => parseConditionLoop fuel syntax_ (pushCharacter state 36 false) rest
    else parseConditionLoop fuel syntax_ (pushCharacter state byte false) rest

/-- `parse_shell_condition_expression`. -/
def parseShellConditionExpression (source : Bytes) (line : Nat) : Parsed ShellExpression := do
  let (expression, _) ← parseConditionLoop source.length
    ⟨line, true, 0, false, .Unquoted, false⟩ ⟨[], [], .Unquoted⟩ source
  return expression

/-- The expression assigns nothing. -/
def rejectParameterAssignments (expression : ShellExpression) (line : Nat) (context : String) :
    Parsed Unit :=
  if hasAssignments expression then
    .error ⟨line, "parameter assignment is not supported in " ++ context⟩
  else .ok ()

/-! ### What is known when a condition is prepared -/

section Analysis

variable (known : Lookup) (dynamic : String → Bool)

/-- The variable will have a value when the condition is tested. -/
def availableAtRuntime (name : String) : Bool :=
  (known name).isSome || dynamic name || variablePolicy name = .RuntimeOnly

/-- The word of the operation may be evaluated. -/
def wordMayRun (name : String) (operation : ParameterOperation) : Bool :=
  match known name with
  | some value => operation.evaluatesWord true value.isEmpty
  | none =>
    if availableAtRuntime known dynamic name then operation.hasWord
    else operation.evaluatesWord false false

mutual

/-- `missing_shell_condition` of one part. -/
def ShellPart.missingShellCondition : ShellPart → Option String
  | .Literal _ | .Command _ => none
  | .Variable name operation word =>
    if !availableAtRuntime known dynamic name && operation.requiresValue then some name
    else if wordMayRun known dynamic name operation then missingShellCondition word
    else none
  | .RegexQuotedVariable name => if availableAtRuntime known dynamic name then none else some name
  | .PatternQuote expression => missingShellCondition expression

/-- The first name that has no value and needs one. -/
def missingShellCondition : ShellExpression → Option String
  | [] => none
  | part :: parts => part.missingShellCondition.or (missingShellCondition parts)

end

mutual

/-- `shell_condition_static` of one part. -/
def ShellPart.shellConditionStatic : ShellPart → Bool
  | .Literal _ => true
  | .Command _ => false
  | .Variable name operation word =>
    if dynamic name || variablePolicy name = .RuntimeOnly then false
    else if wordMayRun known dynamic name operation then shellConditionStatic word
    else availableAtRuntime known dynamic name || !operation.requiresValue
  | .RegexQuotedVariable name =>
    (known name).isSome && !dynamic name && variablePolicy name ≠ .RuntimeOnly
  | .PatternQuote expression => shellConditionStatic expression

/-- Nothing but known values decides what the expression stands for. -/
def shellConditionStatic : ShellExpression → Bool
  | [] => true
  | part :: parts => part.shellConditionStatic && shellConditionStatic parts

end

/-- Every variable that may be read is defined. -/
def validateShellConditionReferences (expression : ShellExpression) (line : Nat) : Parsed Unit :=
  match missingShellCondition known dynamic expression with
  | some name => .error ⟨line, "variable " ++ name ++ " is not defined"⟩
  | none => .ok ()

end Analysis

/-! ### The value of a condition -/

/-- A value that stands for itself in a regular expression, within the limit. -/
def pushRegexEscaped (value : Bytes) (limit line : Nat) : Parsed Bytes :=
  if (regexEscaped value).length > limit then .error (lengthErrorAt line limit)
  else .ok (regexEscaped value)

/-- `ShellConditionEvaluation`. -/
def shellConditionEvaluation (line : Nat) (runtime : RuntimeVariables) :
    EvaluationContext (Except ExpansionError) ExpansionError where
  depthMode := .None
  variableValue name := .ok ((runtime.getBytes name).map fun bytes => ⟨bytes, 0⟩)
  command _ _ := .error ⟨line, "command substitution requires ordered evaluation"⟩
  regexQuoted name limit :=
    match runtime.getBytes name with
    | none => .error ⟨line, "variable " ++ name ++ " is not defined"⟩
    | some value => pushRegexEscaped value limit line
  missingVariable name := ⟨line, "variable " ++ name ++ " is not defined"⟩
  requiredParameter name := ⟨line, "parameter " ++ name ++ " is unset or empty"⟩
  patternError := patternErrorAt line
  depthExceeded := depthError line
  lengthError _ _ := lengthErrorAt line

/-- The text of an evaluation that may not assign. -/
def conditionText (line : Nat) (evaluated : Evaluation) : Parsed Text :=
  if !evaluated.assignments.isEmpty then
    .error ⟨line, "parameter assignment requires ordered evaluation"⟩
  else
    match utf8Chars? evaluated.bytes with
    | none => .error ⟨line, "shell-expanded condition contains non-UTF-8 variable data"⟩
    | some text => .ok text

/-- What is wrong with the line buffer. -/
def linebufProblem (runtime : RuntimeVariables) : String :=
  match (runtime.get "LINEBUF").bind parseUsize with
  | none => "LINEBUF must be an unsigned decimal integer"
  | some _ => "LINEBUF must be from 128 through 1048576 bytes"

/-- The value of an expression within the line buffer. -/
def evaluateCondition (expression : ShellExpression) (line : Nat) (runtime : RuntimeVariables) :
    Parsed Evaluation := do
  let linebuf ← (RuntimeSettings.linebuf runtime).mapError fun _ => ⟨line, linebufProblem runtime⟩
  (evaluate (shellConditionEvaluation line runtime) expression linebuf).mapError
    fun error => relabelLinebufError error linebuf usizeMax

/-- The text of a condition, expanded with the variables of the run. -/
def expandExpression (expression : ShellExpression) (line : Nat) (runtime : RuntimeVariables) :
    Parsed Text := do
  conditionText line (← evaluateCondition expression line runtime)

/-- `expand_shell_condition`. An expression that has been parsed before is that of the source. -/
def expandShellCondition (source : Bytes) (line : Nat) (runtime : RuntimeVariables) :
    Parsed Text := do
  expandExpression (← parseShellConditionExpression source line) line runtime

/-! ### Rounds of expansion -/

section Rounds

variable {R H : Type} (words : RcWords R H)

/-- The expanded text read as a condition. -/
def parseReparsedCondition (input : Text) (line : Nat) (caseSensitive : Bool) :
    Except ParseError (Condition R) :=
  match parseCondition words input line caseSensitive 0 ⟨.default, []⟩ with
  | .ok parsed _ => .ok parsed.1
  | .error e _ => .error e

section Prepare

variable (known : Lookup) (dynamic : String → Bool) (runtime : RuntimeVariables)
  (caseSensitive : Bool)

/-- The passes of `prepare_shell_conditions`: a condition that is not static stays for later. -/
def prepareRounds : Nat → Condition R → Parsed (Condition R)
  | rounds, condition =>
    match condition.kind with
    | .ShellExpanded source => do
      let expression ← parseShellConditionExpression source condition.line
      rejectParameterAssignments expression condition.line "shell-expanded condition"
      validateShellConditionReferences known dynamic expression condition.line
      if !shellConditionStatic known dynamic expression then return condition
      else
        match rounds with
        | 0 => .error ⟨condition.line, "condition expansion exceeds the hard depth limit of 32"⟩
        | rounds + 1 => do
          let expanded ← expandExpression expression condition.line runtime
          let parsed ← (parseReparsedCondition words (trimStart expanded) condition.line
            caseSensitive).mapError fun error => ⟨error.line, error.message⟩
          prepareRounds rounds
            { condition with negated := condition.negated != parsed.negated, kind := parsed.kind }
    | _ => .ok condition

end Prepare

/-- The variables that conditions are prepared with. -/
def preparationRuntime (processId : Bytes) (known : Lookup) : RuntimeVariables :=
  { RuntimeVariables.default processId with
    values := fun name =>
      match known name with
      | some text => some (.Text text)
      | none => (RuntimeVariables.default processId).values name }

/-- The conditions of a recipe, expanded as far as they can be before the run. -/
def prepareShellConditions (processId : Bytes) (known : Lookup) (dynamic : String → Bool)
    (caseSensitive : Bool) (conditions : List (Condition R)) : Parsed (List (Condition R)) :=
  conditions.mapM
    (prepareRounds words known dynamic (preparationRuntime processId known) caseSensitive
      maxExpansionDepth)

section Resolve

variable {X : Type} (expand : Bytes → Nat → Except X Text) (mapError : EvalError → X) (line : Nat)
  (caseSensitive : Bool)

/-- The passes of `resolve_shell_expansion_with`. -/
def resolveRounds : Nat → Bytes → Bool → Except X (Condition R)
  | 0, _, _ =>
    .error (mapError
      (.RuntimeCondition line "condition expansion exceeds the hard depth limit of 32"))
  | rounds + 1, source, negated => do
    let expanded ← expand source line
    let parsed ← (parseReparsedCondition words (trimStart expanded) line caseSensitive).mapError
      fun error => mapError (.RuntimeCondition error.line error.message)
    match parsed.kind with
    | .ShellExpanded next => resolveRounds rounds next (negated != parsed.negated)
    | _ => return { parsed with negated := negated != parsed.negated }

end Resolve

/-- A condition of another kind has nothing to resolve. -/
def resolveShellExpansionWith {X : Type} (expand : Bytes → Nat → Except X Text)
    (mapError : EvalError → X) (caseSensitive : Bool) (condition : Condition R) :
    Except X (Option (Condition R)) :=
  match condition.kind with
  | .ShellExpanded source => do
    return some (← resolveRounds words expand mapError condition.line caseSensitive
      (maxExpansionDepth + 1) source condition.negated)
  | _ => return none

/-- The condition as it is tested, expanded with the variables of the run. -/
def resolveShellExpansion (runtime : RuntimeVariables) (caseSensitive : Bool)
    (condition : Condition R) : Except EvalError (Option (Condition R)) :=
  resolveShellExpansionWith words
    (fun source line => (expandShellCondition source line runtime).mapError .Expansion) id
    caseSensitive condition

end Rounds

end ProcmailRs.Config
