import ProcmailRs.Config.RcText

/-!
# The rc parser

The parser goes through the lines of a file and charges the budget for every item before the item is
built. Assignments to limits take effect from the next line on. The parser also keeps a log of what it
decides; nothing is read back from it.
-/

namespace ProcmailRs.Config

/-! ### The state of the parser -/

/-- What the parser decides about the budget. -/
inductive ParserEvent
  /-- An item is checked against its limit. -/
  | Item (kind : RcLimitVariable) (accepted : Bool)
  /-- A shell-expanded condition takes the place of a regular expression. -/
  | Reserved
  /-- A block has ended. -/
  | EndOfBlock
  | Limit (kind : RcLimitVariable) (value : Nat)
  | Linebuf (value : Nat)
  deriving DecidableEq, Repr

/-- What is left of the budget, and what has been parsed. -/
structure ParserState where
  budget : ParseBudget
  log : List ParserEvent
  deriving DecidableEq, Repr

/-- A part of the parser. -/
abbrev Parser (α : Type) := EStateM ParseError ParserState α

namespace Parser

/-- Adds an event to the log. -/
def record (event : ParserEvent) : Parser Unit :=
  modify fun state => { state with log := state.log ++ [event] }

/-- Changes the budget. -/
def changeBudget (change : ParseBudget → ParseBudget) : Parser Unit :=
  modify fun state => { state with budget := change state.budget }

/-- The result of a text that is read without the state. -/
def reading {α : Type} (result : Except ParseError α) : Parser α := liftExcept id result

/-- The limit of `LINEBUF` at this line. -/
def currentLinebuf : Parser Nat := do
  return (← get).budget.limits.linebuf

end Parser

open ProcmailRs.Config.Parser

/-! ### The budget -/

/-- Whether an assignment is a statement or names the variable of a capture. -/
inductive AssignmentUse
  | Statement
  | CaptureAction
  deriving DecidableEq, Repr

/-- The line is not too long. -/
def checkLine (line : RcLine) : Parser Unit := do
  reading (checkLinebuf line (← currentLinebuf))

/-- `count` items of the kind are there already. -/
def checkLimit (kind : RcLimitVariable) (count limit : Nat) (refusal : ParseError) : Parser Unit := do
  record (.Item kind (count < limit))
  if count < limit then return () else throw refusal

/-- One more item of this kind is within its limit. -/
def checkCountLimit (kind : RcLimitVariable) (count limit line : Nat) (name : String) : Parser Unit :=
  checkLimit kind count limit
    (.limit line ("rc " ++ name ++ s!" count exceeds the active limit of {limit}"))

/-- One more statement is within the limit. -/
def checkStatement (line : Nat) : Parser Unit := do
  let budget := (← get).budget
  checkCountLimit .Statements budget.counts.statements budget.limits.statements line "statement"

/-- Counts a recipe within the limit. -/
def chargeRecipe (line : Nat) : Parser Unit := do
  let budget := (← get).budget
  checkCountLimit .Recipes budget.counts.recipes budget.limits.recipes line "recipe"
  changeBudget fun budget => { budget with counts := budget.counts.add ⟨0, 1, 1, 0, 0⟩ }

/-- Counts an assignment within the limit; only a statement counts as one. -/
def chargeAssignment (line : Nat) (usage : AssignmentUse) : Parser Unit := do
  let budget := (← get).budget
  checkCountLimit .Assignments budget.counts.assignments budget.limits.assignments line "assignment"
  changeBudget fun budget =>
    { budget with
      counts := budget.counts.add ⟨1, if usage = .Statement then 1 else 0, 0, 0, 0⟩ }

/-- A condition of a recipe that has `recipeCount` conditions already. -/
def checkCondition (recipeCount line : Nat) : Parser Unit := do
  let budget := (← get).budget
  checkLimit .ConditionsPerRecipe recipeCount budget.limits.conditionsPerRecipe
    (.limit line
      s!"recipe condition count exceeds the active limit of {budget.limits.conditionsPerRecipe}")
  checkCountLimit .Conditions (budget.counts.conditions + recipeCount) budget.limits.conditions line
    "condition"

/-- One more regular expression is within the limit. -/
def checkRegex (recipeCount line : Nat) : Parser Unit := do
  let budget := (← get).budget
  checkCountLimit .Regexes (budget.counts.regexes + recipeCount) budget.limits.regexes line "regex"

/-- Counts the conditions and regular expressions of a recipe. -/
def recordRecipeContents (conditions regexes : Nat) : Parser Unit :=
  changeBudget fun budget =>
    { budget with counts := budget.counts.add ⟨0, 0, 0, conditions, regexes⟩ }

/-- The depth of the block that is entered. -/
def checkNesting (depth line : Nat) : Parser Nat := do
  let limit := (← get).budget.limits.nestingDepth
  checkLimit .NestingDepth depth limit
    (.limit line s!"recipe nesting depth {depth + 1} exceeds the active limit of {limit}")
  return depth + 1

/-- The kind of limit that a name sets. -/
def rcLimitKind (name : String) : Option RcLimitVariable := runtimeLimits.lookup name

/-- A limit is set. -/
def setLimit (kind : RcLimitVariable) (value : Nat) : Parser Unit := do
  record (.Limit kind value)
  changeBudget fun budget => budget.replaceLimits (budget.limits.replace kind value)

/-- The limit of `LINEBUF` is set. -/
def setLinebuf (value : Nat) : Parser Unit := do
  record (.Linebuf value)
  changeBudget fun budget => budget.replaceLimits { budget.limits with linebuf := value }

/-- The assignment of a limit takes effect. -/
def applyRcLimit (assignment : Assignment) : Parser Unit :=
  match rcLimitKind assignment.name with
  | none => return ()
  | some kind =>
    match parseUsize assignment.value with
    | none =>
      throw (.new assignment.line (assignment.name ++ " must be an unsigned decimal integer"))
    | some value =>
      if value > RcLimits.hardLimit kind then
        throw (.limit assignment.line
          (assignment.name ++ s!" exceeds the hard limit of {RcLimits.hardLimit kind}"))
      else setLimit kind value

/-- The assignment of `LINEBUF` takes effect. -/
def applyLinebuf (assignment : Assignment) : Parser Unit :=
  if assignment.target = .LineBuf then
    match parseUsize assignment.value with
    | none => throw (.new assignment.line "LINEBUF must be an unsigned decimal integer")
    | some value =>
      if minLinebuf ≤ value ∧ value ≤ maxLinebuf then setLinebuf value
      else throw (.limit assignment.line "LINEBUF must be from 128 through 1048576 bytes")
  else return ()

/-- An assignment takes effect on the parser. -/
def applyAssignment (assignment : Assignment) : Parser Unit := do
  applyRcLimit assignment
  applyLinebuf assignment

/-- A limit that is unset has its default again. -/
def applyUnset (unset : Unset) : Parser Unit :=
  match rcLimitKind unset.name with
  | some kind => setLimit kind (RcLimits.default.get kind)
  | none => if unset.target = .LineBuf then setLinebuf defaultLinebuf else return ()

section Parser

variable {R H : Type} (words : RcWords R H)

/-! ### Conditions -/

/-- `parse_multipart_check`, in a recipe that has `regexes` regular expressions already. -/
def parseMultipartCheck (input : Text) (line : Nat) (caseSensitive : Bool) (regexes : Nat) :
    Parser (MultipartField × R) :=
  match splitOnce ['?', '?'] input with
  | none => throw (.new line "multipart condition requires <selector> ?? <regex>")
  | some (fieldText, pattern) =>
    let name :=
      match stripStart multipartMark (trim fieldText) with
      | some rest => if rest.head?.any isWhitespace then trimStart rest else trim fieldText
      | none => trim fieldText
    match multipartField name with
    | none =>
      throw (.new line
        ("multipart condition does not support selector '" ++ String.ofList name ++ "'"))
    | some field => do
      checkRegex regexes line
      let regex ← reading (wordAt line (words.multipartRegex (trimStart pattern) caseSensitive))
      return (field, regex)

/-- What stands behind the word of a multipart condition on one line. -/
def singleLineCheck (rest : Text) (line : Nat) : Except ParseError Text :=
  match stripStart ['{'] rest with
  | none => .ok rest
  | some afterBrace =>
    if (trim afterBrace).getLast? = some '}' then
      if (trim (trim afterBrace).dropLast).isEmpty then
        .error (.new line "multipart condition block cannot be empty")
      else .ok (trim (trim afterBrace).dropLast)
    else .error (.new line "multipart condition block has no closing '\x7d'")

/-- `parse_single_line_multipart`: a condition that is none gives nothing. -/
def parseSingleLineMultipart (input : Text) (line : Nat) (caseSensitive : Bool) (regexes : Nat) :
    Parser (Option (ConditionKind R)) :=
  match stripStart multipartMark input with
  | none => return none
  | some rest =>
    if !(rest.head?.any isWhitespace) && !startsWith rest '{' then return none
    else if (trimStart rest).isEmpty || (stripStart ['?', '?'] (trimStart rest)).isSome then
      return none
    else do
      let text ← reading (singleLineCheck (trimStart rest) line)
      let check ← parseMultipartCheck words text line caseSensitive regexes
      return some (.Multipart [check])

/-- The conditions that compile a regular expression and the others, and whether it is one. A
shell-expanded condition becomes one when its text is known. -/
def parseConditionKind (input : Text) (line : Nat) (caseSensitive : Bool) (regexes : Nat) :
    Parser (ConditionKind R × Bool) :=
  match input with
  | '$' :: source => do
    record .Reserved
    return (.ShellExpanded (utf8 source), true)
  | '<' :: value => do
    return (.SmallerThan (← reading (parseSize value line)), false)
  | '>' :: value => do
    return (.LargerThan (← reading (parseSize value line)), false)
  | '?' :: command => do
    reading (validateProgramCondition (trimStart command) line)
    return (.Program (utf8 (trimStart command)), false)
  | _ => do
    checkRegex regexes line
    let regex ← reading (wordAt line (words.conditionRegex input caseSensitive))
    return (.Regex regex, true)

/-- `parse_condition`: the condition, and whether it counts as a regular expression. -/
def parseCondition (input : Text) (line : Nat) (caseSensitive : Bool) (regexes : Nat) :
    Parser (Condition R × Bool) := do
  let negated := (stripNegations (trim input)).1
  let input := (stripNegations (trim input)).2
  if input.isEmpty then throw (.new line "condition is empty")
  else if hasScoringMark input then
    throw (.new line "weighted recipe conditions are not supported")
  else do
    match ← parseSingleLineMultipart words input line caseSensitive regexes with
    | some kind => return (⟨line, negated, kind⟩, true)
    | none => do
      let parsed ← parseConditionKind words input line caseSensitive regexes
      return (⟨line, negated, parsed.1⟩, parsed.2)

/-- A condition, the number of regular expressions of the recipe so far, and the lines behind it. -/
structure ParsedCondition (R : Type) where
  condition : Condition R
  regexes : Nat
  rest : List RcLine

/-- `parse_multipart_block`: one check a line, up to the closing brace. -/
def parseMultipartBlock (opening : Nat) (negated caseSensitive : Bool)
    (checks : List (MultipartField × R)) (regexes : Nat) : List RcLine → Parser (ParsedCondition R)
  | [] => throw (.new opening "multipart condition block has no closing '\x7d'")
  | line :: rest => do
    checkLine line
    let text := trim line.text
    if isBlankOrComment text then
      parseMultipartBlock opening negated caseSensitive checks regexes rest
    else if text = ['}'] then
      if checks.isEmpty then throw (.new opening "multipart condition block cannot be empty")
      else return ⟨⟨opening, negated, .Multipart checks⟩, regexes, rest⟩
    else do
      let check ← parseMultipartCheck words text line.number caseSensitive regexes
      if checks.any fun other => other.1 = check.1 then
        throw (.new line.number
          ("multipart condition repeats selector '" ++ check.1.name ++ "'"))
      else
        parseMultipartBlock opening negated caseSensitive (checks ++ [check]) (regexes + 1) rest

/-- The condition that starts on a line, with the lines it takes. -/
def parseConditionLine (caseSensitive : Bool) (regexes : Nat) (line : RcLine) (rest : List RcLine) :
    Parser (ParsedCondition R) :=
  match isMultipartBlockStart (trim line.text) with
  | some negated => parseMultipartBlock words line.number negated caseSensitive [] regexes rest
  | none => do
    let source ← reading (parseConditionContinuation line rest (← currentLinebuf))
    let parsed ← parseCondition words source.1 line.number caseSensitive regexes
    return ⟨parsed.1, regexes + if parsed.2 then 1 else 0, source.2⟩

/-- The conditions of a recipe, and the lines behind them. -/
structure ParsedConditions (R : Type) where
  conditions : List (Condition R)
  regexes : Nat
  rest : List RcLine

/-- No error of the parser has this number: lines are counted from 1. The bound on the steps is never
reached, because every step takes a line. -/
def outOfLines : ParseError := ⟨0, "", false⟩

/-- The conditions of a recipe, up to the line of its action. -/
def parseConditions (caseSensitive : Bool) :
    Nat → List (Condition R) → Nat → List RcLine → Parser (ParsedConditions R)
  | _, conditions, regexes, [] => return ⟨conditions, regexes, []⟩
  | 0, _, _, _ :: _ => throw outOfLines
  | fuel + 1, conditions, regexes, line :: rest => do
    checkLine line
    let text := trim line.text
    if isBlankOrComment text then parseConditions caseSensitive fuel conditions regexes rest
    else if startsWith text '*' then do
      checkCondition conditions.length line.number
      let parsed ← parseConditionLine words caseSensitive regexes line rest
      parseConditions caseSensitive fuel (conditions ++ [parsed.condition]) parsed.regexes parsed.rest
    else return ⟨conditions, regexes, line :: rest⟩

/-! ### Recipes -/

/-- The words in front of the operations of a header action. -/
def headersMark : Text := "headers ".toList ++ ['{']

/-- `validate_header_action_recipe`. -/
def validateHeaderActionRecipe (header : RecipeHeader) (line : Nat) : Except ParseError Unit :=
  if header.lock.isSome then .error (.new line "headers actions do not support local lockfiles")
  else
    match header.flags.find? fun flag => "hbfwWir".toList.contains flag with
    | some flag => .error (.new line s!"recipe flag '{flag}' is not supported for headers actions")
    | none => .ok ()

/-- The flags that an action allows. -/
def validateAction (action : Text) (captures programCondition : Bool) (header : RecipeHeader)
    (start line : Nat) : Except ParseError RecipeOptions := do
  let isCommand := startsWith action '|' || captures
  let isHeaders := action == headersMark
  let isBlock := action == ['{']
  if !isCommand && !isHeaders && !isBlock then validateDestinationSyntax action line
  if isHeaders then validateHeaderActionRecipe header start
  let options :=
    if isHeaders then { header.options with continuation := .Continue } else header.options
  if !isCommand && !isHeaders && !isBlock && options.writeErrors == .Ignore then
    .error (.new start
      "recipe flag 'i' is not supported for filesystem delivery because it may publish an incomplete message")
  else if !isCommand && !isHeaders && (options.actionInput != .Message ||
      options.actionMode != .Deliver || (!programCondition && !isBlock &&
        (options.childStatus != .Ignore || options.writeErrors != .Fail))) then
    .error (.new start
      "flags h, b, and f require a pipe action; flags w and W require a pipe action or program condition")
  else .ok options

/-- An action that no recipe can have. -/
def refuseAction (action : Text) (start line : Nat) : Except ParseError Unit :=
  if startsWith action '!' then .error (.new line "forward actions are not supported")
  else if action = ['}'] then
    .error (.new line "closing recipe block has no matching opening block")
  else if startsWith action ':' then .error (.new start "recipe has no action")
  else if action.isEmpty then .error (.new line "recipe action is empty")
  else .ok ()

/-- The condition may run a command. -/
def isProgramCondition (condition : Condition R) : Bool :=
  match condition.kind with
  | .Program _ | .ShellExpanded _ => true
  | _ => false

/-- The parser of a block at some depth, and of the lines behind it. -/
abbrev BlockParser (R H : Type) := Nat → List RcLine → Parser (List (Statement R H) × List RcLine)

/-- A block of statements, which goes one level deeper. -/
def parseBlockAction (parseBlock : BlockParser R H) (depth : Nat) (head : RecipeHead R)
    (rest : List RcLine) : Parser (Statement R H × List RcLine) := do
  let nextDepth ← checkNesting depth head.actionLine
  if head.lock = some [] then
    throw (.new head.line "an implicit local lockfile cannot be derived for a recipe block")
  else do
    let block ← parseBlock nextDepth rest
    record .EndOfBlock
    return (.Block head block.1, block.2)

/-- The command behind the name of a capture action. -/
def captureCommand (line : RcLine) (rest : List RcLine) (linebuf : Nat) :
    Except ParseError (Text × List RcLine) :=
  match splitOnce ['=', '|'] (trim line.text) with
  | none => .error (.new line.number "capture action is malformed")
  | some (_, command) =>
    continueCommand linebuf line.number "capture action command" [] line (trimStart command) rest

/-- The action of a recipe. -/
def parseAction (parseBlock : BlockParser R H) (depth : Nat)
    (capture : Option (String × AssignmentTarget)) (head : RecipeHead R) (line : RcLine)
    (rest : List RcLine) : Parser (Statement R H × List RcLine) := do
  let action := trim line.text
  match capture with
  | some (name, target) => do
    chargeAssignment line.number .CaptureAction
    let command ← reading (captureCommand line rest (← currentLinebuf))
    return (.Recipe head (.Capture line.number name target (utf8 command.1)), command.2)
  | none =>
    if startsWith action '|' then do
      let command ← reading (parsePipeCommand line rest (← currentLinebuf))
      if command.1.isEmpty && head.options.actionMode == .Filter then
        throw (.new line.number "recipe flag 'f' requires a pipe command")
      else return (.Recipe head (.Pipe (utf8 command.1)), command.2)
    else if action = headersMark then do
      let operations ← reading
        (parseHeaderAction words (← currentLinebuf) line.number [] rest)
      return (.Recipe head (.Headers operations.1), operations.2)
    else if action = ['{'] then parseBlockAction parseBlock depth head rest
    else if startsWith action '{' then
      throw (.new line.number "opening recipe block must be a standalone '\x7b' action")
    else do
      let delivery ← reading (parseDelivery words action line.number)
      return (.Recipe head delivery, rest)

/-- `parse_recipe`, from the line behind its header on. -/
def parseRecipe (parseBlock : BlockParser R H) (depth : Nat) (start : RcLine) (rest : List RcLine) :
    Parser (Statement R H × List RcLine) :=
  match stripStart [':', '0'] (trim start.text) with
  | none => throw (.new start.number "only ':0' recipes are supported")
  | some text => do
    let header ← reading (parseRecipeHeader text start.number)
    let parsed ← parseConditions words (header.options.caseMode == .Sensitive) rest.length [] 0 rest
    match parsed.rest with
    | [] => throw (.new start.number "recipe has no action")
    | line :: rest => do
      checkLine line
      -- A block must not hide the conditions of its own recipe from the limits.
      recordRecipeContents parsed.conditions.length parsed.regexes
      reading (refuseAction (trim line.text) start.number line.number)
      let capture ← reading (parseCaptureAction (trim line.text) line.number)
      let options ← reading (validateAction (trim line.text) capture.isSome
        (parsed.conditions.any isProgramCondition) header start.number line.number)
      parseAction words parseBlock depth capture
        ⟨start.number, line.number, options, header.lock.map utf8, parsed.conditions⟩ line rest

/-! ### Statements -/

/-- An assignment, counted and in effect. Inside a block the parser itself is left alone. -/
def parseAssignmentStatement (depth : Nat) (assignment : Assignment) : Parser (Statement R H) := do
  chargeAssignment assignment.line .Statement
  if depth ≠ 0 ∧ controlsRcParsing assignment.target then
    throw (.new assignment.line
      ("variable " ++ assignment.name ++ " cannot be assigned inside a recipe block"))
  else if assignment.name = "INCLUDERC" then
    return .Include ⟨assignment.line, assignment.value, assignment.expansion⟩
  else if assignment.name = "SWITCHRC" then
    return .Switch ⟨assignment.line, assignment.value, assignment.expansion⟩
  else
    match assignment.expansion.filter requiresOrderedEvaluation with
    | some expression =>
      if controlsRcParsing assignment.target then
        throw (.new assignment.line ("variable " ++ assignment.name ++
          " cannot be set from command output because it controls rc parsing"))
      else
        return .CommandAssignment
          ⟨assignment.line, assignment.name, assignment.value, assignment.target, expression⟩
    | none => do
      applyAssignment assignment
      return .Assignment assignment

/-- The removal of a variable, counted and in effect. -/
def parseUnsetStatement (depth : Nat) (unset : Unset) : Parser (Statement R H) := do
  chargeAssignment unset.line .Statement
  if depth ≠ 0 ∧ controlsRcParsing unset.target then
    throw (.new unset.line ("variable " ++ unset.name ++ " cannot be unset inside a recipe block"))
  else do
    applyUnset unset
    return .Unset unset

/-- A statement that is no recipe. -/
def parseSimpleStatement (depth : Nat) (line : RcLine) : Parser (Statement R H) := do
  match ← reading (parseAssignment words (trimStart line.text) line.number) with
  | some assignment => parseAssignmentStatement depth assignment
  | none =>
    match ← reading (parseUnset (trim line.text) line.number) with
    | some unset => parseUnsetStatement depth unset
    | none =>
      throw (.new line.number "expected an assignment or a recipe beginning with ':0'")

/-- `parse_statements` of a file with `total` lines: the statements up to the end of the block, and
the lines behind it. -/
def parseStatements (total : Nat) : Nat → BlockParser R H
  | _, depth, [] =>
    if depth > 0 then throw (.new (max total 1) "recipe block has no closing brace")
    else return ([], [])
  | 0, _, _ :: _ => throw outOfLines
  | fuel + 1, depth, line :: rest => do
    checkLine line
    let text := trim line.text
    if isBlankOrComment text then parseStatements total fuel depth rest
    else if text = ['}'] then
      if depth = 0 then
        throw (.new line.number "closing recipe block has no matching opening block")
      else return ([], rest)
    else do
      checkStatement line.number
      if startsWith text ':' then do
        chargeRecipe line.number
        let recipe ← parseRecipe words (parseStatements total fuel) depth line rest
        let others ← parseStatements total fuel depth recipe.2
        return (recipe.1 :: others.1, others.2)
      else do
        let statement ← parseSimpleStatement words depth line
        let others ← parseStatements total fuel depth rest
        return (statement :: others.1, others.2)

/-! ### Files -/

/-- A file that has been parsed. -/
structure ParsedConfig (R H : Type) where
  statements : List (Statement R H)
  parseCounts : RcParseCounts
  initialLinebuf : Nat

/-- `parse_with_state`. -/
def parseWithState (input : Text) : Parser (ParsedConfig R H) := do
  if textLen input > maxRcSize then
    throw (.limit 1 "rc file exceeds the hard limit of 1048576 bytes")
  else do
    let initial := (← get).budget
    let lines := rcLines input
    let parsed ← parseStatements words lines.length lines.length 0 lines
    return ⟨parsed.1, (← get).budget.counts.subtract initial.counts, initial.limits.linebuf⟩

end Parser

end ProcmailRs.Config
