import ProcmailRs.Eval.Condition

/-!
# Compiled rc files

An rc file is compiled to a sequence of recipes, each with the statements before it, and the
statements after the last recipe. Blocks are nested sequences. What a sequence needs of the message,
and whether it can be planned before the message is complete, is read off the tree.

Expressions are the functions of the variables they stand for.
-/

namespace ProcmailRs

/-! ### Recipe options -/

/-- Whether the regexes of a recipe tell capital letters from small ones: the `D` flag. -/
inductive CaseMode
  | Insensitive
  | Sensitive
  deriving DecidableEq, Repr

/-- What a recipe waits for: nothing, or the result that its `A`, `a`, `E` or `e` flag names. -/
inductive ControlFlow
  | Independent
  | AfterChainMatch
  | AfterPreviousSuccess
  | Else
  | AfterPreviousError
  deriving DecidableEq, Repr

/-- Whether the action takes the message or rewrites it: the `f` flag. -/
inductive ActionMode
  | Deliver
  | Filter
  deriving DecidableEq, Repr

/-- Whether the message itself goes on behind the recipe: the `c` flag. -/
inductive ContinuationMode
  | Stop
  | Continue
  | BranchBlock
  deriving DecidableEq, Repr

/-- Whether the exit status of a command counts: the `w` and `W` flags. -/
inductive ChildStatusMode
  | Ignore
  | Wait
  | WaitQuietly
  deriving DecidableEq, Repr

/-- Whether a command that does not read its input has failed: the `i` flag. -/
inductive WriteErrorMode
  | Fail
  | Ignore
  deriving DecidableEq, Repr

/-- The flags of a recipe, read. -/
structure RecipeOptions where
  conditionInput : ConditionInput
  caseMode : CaseMode
  control : ControlFlow
  actionInput : ActionInput
  actionMode : ActionMode
  continuation : ContinuationMode
  childStatus : ChildStatusMode
  writeErrors : WriteErrorMode
  outputEnding : OutputEnding
  deriving DecidableEq, Repr

/-! ### Statements -/

/-- What an assignment changes besides the variable itself. -/
inductive AssignmentTarget
  | Maildir
  | LogFile
  | Log
  | LogDetail
  | LogAbstract
  | Verbose
  | Durability
  | LockMethod
  | LockFile
  | LockExt
  | LockSleep
  | LockTimeout
  | LineBuf
  | ProcessTimeout
  | Umask
  | Trap
  | Shell
  | ShellFlags
  | Path
  | ExitCode
  | Host
  | Shift
  | MessageLimit
  | RcLimit
  | User
  deriving DecidableEq, Repr

/-- How long a value may be that is assigned to the target. -/
def AssignmentTarget.valueLimit : AssignmentTarget → Nat
  | .Maildir | .LogFile | .LockFile | .LockExt => maxPathExpressionLen
  | .Shell | .ShellFlags | .Path => maxShellSettingLen
  | _ => maxAssignmentValueLen

/-- An assignment; `isEmpty` says that its source text is empty. -/
structure CompiledAssignment where
  line : Nat
  name : String
  target : AssignmentTarget
  isEmpty : Bool
  resolveWith : Lookup → Except ExpansionError Bytes

/-- The removal of a variable. -/
structure CompiledUnset where
  name : String
  target : AssignmentTarget
  deriving DecidableEq, Repr

/-- An assignment whose value needs the output of a command. -/
structure CompiledCommandAssignment where
  line : Nat
  name : String
  target : AssignmentTarget
  expression : ShellExpression

/-- The path of an rc file to be included or switched to. The statement remembers the files it has
loaded; `memory` is the number of that memory. -/
structure RcFileExpression where
  line : Nat
  memory : Nat
  resolveWith : Lookup → Except ExpansionError Bytes

/-- A statement between two recipes. -/
inductive CompiledStatement
  | Assignment (assignment : CompiledAssignment)
  | Unset (unset : CompiledUnset)
  | CommandAssignment (assignment : CompiledCommandAssignment)
  | Host (assignment : CompiledAssignment)
  | Include (expression : RcFileExpression)
  | Switch (expression : RcFileExpression)

/-! ### Actions and recipes -/

/-- What kind of file a message is delivered to. -/
inductive DestinationKind
  | Maildir
  | Mbox
  | File
  | Discard
  deriving DecidableEq, Repr

/-- A destination after its expression has been bound or resolved. -/
structure BoundDestination where
  kind : DestinationKind
  path : Bytes
  deriving DecidableEq, Repr

/-- A destination that is not fixed yet: it is bound with the variables, or resolved from what its
command expression has given. -/
structure Destination where
  kind : DestinationKind
  line : Nat
  needsRuntimeVariables : Bool
  commandExpression : Option ShellExpression
  bindWith : Lookup → Except ExpansionError BoundDestination
  resolveOrderedOutput : Bytes → Option Bytes → Except ExpansionError BoundDestination

/-- Messages are appended to the file one after another. -/
def Destination.requiresOrderedDelivery (destination : Destination) : Bool :=
  destination.kind == .Mbox || destination.kind == .File

/-- A variable that takes the output of a command. -/
structure CaptureAction where
  line : Nat
  name : String
  target : AssignmentTarget
  command : Bytes
  deriving DecidableEq, Repr

mutual

/-- The action of a recipe. -/
inductive CompiledAction
  | Deliver (destination : Destination) (continuation : ContinuationMode)
      (outputEnding : OutputEnding)
  | Pipe (command : Bytes) (options : RecipeOptions)
  | Capture (action : CaptureAction) (options : RecipeOptions)
  | Block (children : CompiledSequence)
  | Headers (resolveWith : Lookup → Except ExpansionError HeaderAction)

/-- A recipe, with the statements in front of it. -/
structure CompiledNode where
  line : Nat
  precedingStatements : List CompiledStatement
  lock : Option (Lookup → Except ExpansionError Bytes)
  control : ControlFlow
  continuation : ContinuationMode
  childStatus : ChildStatusMode
  conditions : List CompiledCondition
  action : CompiledAction

/-- The recipes of a file or of a block, with the statements behind the last of them. -/
structure CompiledSequence where
  recipes : List CompiledNode
  trailingStatements : List CompiledStatement

end

/-! ### What a plan needs -/

/-- How much of the message an evaluation has to see. -/
structure InputRequirements where
  needsHeaders : Bool
  needsBodyContents : Bool
  needsEndOfMessage : Bool
  deriving DecidableEq, Repr

namespace InputRequirements

/-- Nothing of the message is needed. -/
def none : InputRequirements := ⟨false, false, false⟩

/-- The header is enough. -/
def headers : InputRequirements := ⟨true, false, false⟩

/-- The message must have been read to its end. -/
def endOfMessage : InputRequirements := ⟨false, false, true⟩

/-- The whole message is needed. -/
def complete : InputRequirements := ⟨true, true, true⟩

/-- What two parts of a plan need together. -/
def union (a b : InputRequirements) : InputRequirements :=
  ⟨a.needsHeaders || b.needsHeaders, a.needsBodyContents || b.needsBodyContents,
    a.needsEndOfMessage || b.needsEndOfMessage⟩

end InputRequirements

/-- What is known about a plan before it runs. -/
structure PlanProperties where
  requirements : InputRequirements
  requiresOrderedDelivery : Bool
  requiresPreemptiveOrderedDelivery : Bool
  needsFullMatching : Bool
  hasExternalCommands : Bool
  deriving DecidableEq, Repr

namespace PlanProperties

/-- The properties of a plan without statements and recipes. -/
def default : PlanProperties := ⟨InputRequirements.none, false, false, false, false⟩

/-- The properties of two parts of a plan together. -/
def union (a b : PlanProperties) : PlanProperties :=
  ⟨a.requirements.union b.requirements,
    a.requiresOrderedDelivery || b.requiresOrderedDelivery,
    a.requiresPreemptiveOrderedDelivery || b.requiresPreemptiveOrderedDelivery,
    a.needsFullMatching || b.needsFullMatching,
    a.hasExternalCommands || b.hasExternalCommands⟩

/-- The properties of a list of parts. -/
def unions (parts : List PlanProperties) : PlanProperties := parts.foldl union default

/-- Execution in order before anything has run. -/
def preemptive (properties : PlanProperties) (ordered : Bool) : PlanProperties :=
  { properties with
    requiresOrderedDelivery := properties.requiresOrderedDelivery || ordered
    requiresPreemptiveOrderedDelivery :=
      properties.requiresPreemptiveOrderedDelivery || ordered }

end PlanProperties

/-- The properties of a statement. -/
def CompiledStatement.properties : CompiledStatement → PlanProperties
  | .CommandAssignment _ => ⟨.complete, true, true, false, true⟩
  | .Assignment assignment =>
    let ordered := assignment.target == .LockFile ||
      assignment.target == .Trap && !assignment.isEmpty
    ⟨.none, ordered, ordered, false, assignment.target == .Trap⟩
  | .Unset unset =>
    let ordered := unset.target == .LockFile
    ⟨.none, ordered, ordered, false, false⟩
  -- A file loaded while the message is evaluated may match the whole message.
  | .Include _ | .Switch _ => { PlanProperties.default with needsFullMatching := true }
  | .Host _ => PlanProperties.default

/-- The properties of a list of statements. -/
def statementsProperties (statements : List CompiledStatement) : PlanProperties :=
  .unions (statements.map CompiledStatement.properties)

/-- The properties of a condition that is fixed. -/
def ResolvedCondition.properties (condition : ResolvedCondition) : PlanProperties :=
  match condition.kind with
  | .HeaderRegex _ | .AddressRegex .. | .IdentifierRegex .. | .KeywordRegex .. =>
    ⟨.headers, false, false, false, false⟩
  | .BodyRegex _ | .Multipart .. => ⟨.complete, false, false, false, false⟩
  | .MessageRegex _ => ⟨.complete, false, false, true, false⟩
  | .VariableRegex .. => PlanProperties.default
  | .Program _ input =>
    let requirements := if input = .Headers then ⟨true, false, true⟩ else .complete
    ⟨requirements, true, true, false, true⟩
  | .SmallerThan _ | .LargerThan _ => ⟨.endOfMessage, false, false, false, false⟩

/-- The properties of a condition. What an expanded condition will ask for is not known. -/
def CompiledCondition.properties : CompiledCondition → PlanProperties
  | .ShellExpanded .. => ⟨.complete, true, true, true, true⟩
  | .Resolved condition => condition.properties

/-- The result of the action is known as soon as the header has been read. -/
def CompiledAction.headerActionResultIsKnown : CompiledAction → Bool
  | .Capture _ options => options.actionInput == .Headers
  | .Headers _ => true
  | _ => false

/-- The recipe runs depending on how the action before it ended. -/
def ControlFlow.readsResult (control : ControlFlow) : Bool :=
  control == .AfterPreviousSuccess || control == .AfterPreviousError

/-- Two recipes in a row of which the second depends on a result that the header cannot give. -/
def unknownResultRead : List CompiledNode → Bool
  | first :: second :: rest =>
    (second.control.readsResult && !first.action.headerActionResultIsKnown) ||
      unknownResultRead (second :: rest)
  | _ => false

mutual

/-- The properties of an action. -/
def CompiledAction.properties : CompiledAction → PlanProperties
  | .Pipe command _ => ⟨.complete, true, true, false, !command.isEmpty⟩
  | .Capture _ options =>
    -- A capture observes only the area that its flags select.
    if options.actionInput = .Headers then ⟨.headers, true, false, false, true⟩
    else ⟨.complete, true, true, false, true⟩
  | .Deliver destination _ _ =>
    let command := destination.commandExpression.isSome
    let ordered := destination.needsRuntimeVariables || destination.requiresOrderedDelivery
    ⟨if command then .complete else .none, ordered, ordered, false, command⟩
  | .Block children => children.properties
  | .Headers _ => ⟨.headers, true, false, false, false⟩

/-- The properties of a recipe, with the statements in front of it. -/
def CompiledNode.properties : CompiledNode → PlanProperties
  | ⟨_, statements, lock, _, continuation, _, conditions, action⟩ =>
    -- A copied block has two continuations, the header planner follows one.
    let copied := match action with
      | .Block _ => continuation == .Continue
      | _ => false
    ((conditions.foldl (fun properties condition => properties.union condition.properties)
          (action.properties.preemptive copied)).union
        (statementsProperties statements)).preemptive lock.isSome

/-- The union over the recipes of a sequence. -/
def recipesProperties : List CompiledNode → PlanProperties
  | [] => PlanProperties.default
  | recipe :: rest => recipe.properties.union (recipesProperties rest)

/-- The properties of a sequence. -/
def CompiledSequence.properties : CompiledSequence → PlanProperties
  | ⟨recipes, statements⟩ =>
    let properties := (recipesProperties recipes).union (statementsProperties statements)
    { properties with
      requiresOrderedDelivery := properties.requiresOrderedDelivery ||
        (recipes.drop 1).any fun recipe => recipe.control.readsResult
      -- Header edits can run while only the header is there.
      requiresPreemptiveOrderedDelivery := properties.requiresPreemptiveOrderedDelivery ||
        unknownResultRead recipes }

end

/-- What the sequence needs when only these recipes of it are left. -/
def requirementsFrom (recipes : List CompiledNode) (statements : List CompiledStatement) :
    InputRequirements :=
  let requirements := (recipesProperties recipes).requirements.union
    (statementsProperties statements).requirements
  if recipes.any fun recipe => recipe.properties.requiresOrderedDelivery then
    requirements.union .endOfMessage
  else requirements

/-- The recipe behind this one runs when its action fails. -/
def hasErrorHandler : List CompiledNode → Bool
  | next :: _ => next.control == .AfterPreviousError
  | [] => false

/-! ### The state of a sequence -/

/-- What has become of an action. -/
inductive ActionExecution
  | NotAttempted
  | Succeeded
  | Failed
  deriving DecidableEq, Repr

/-- What has become of a recipe. `elseHandled` says that its chain of `E` recipes has been handled. -/
structure RecipeExecution where
  conditionsMatched : Bool
  elseHandled : Bool
  action : ActionExecution
  deriving DecidableEq, Repr

/-- What the next recipe of a sequence can ask about those before it. -/
structure SequenceState where
  previous : Option RecipeExecution
  chainBaseMatched : Option Bool
  deriving DecidableEq, Repr

namespace SequenceState

/-- Before the first recipe. -/
def default : SequenceState := ⟨none, none⟩

/-- The state behind a recipe. -/
def record (state : SequenceState) (control : ControlFlow) (conditionsMatched : Bool)
    (action : ActionExecution) (elseHandled : Bool) : SequenceState :=
  { previous := some ⟨conditionsMatched, elseHandled, action⟩
    chainBaseMatched :=
      if control = .AfterChainMatch ∨ control = .AfterPreviousSuccess then state.chainBaseMatched
      else some conditionsMatched }

end SequenceState

/-- Where a sequence goes on. -/
inductive SequenceControl
  | Continue
  | Stop
  | EndRcFile
  | SequenceComplete
  deriving DecidableEq, Repr

namespace CompiledNode

/-- Whether a recipe is tried at all when the recipes are executed in order. -/
def executionGate (recipe : CompiledNode) (state : SequenceState) : Bool :=
  match recipe.control with
  | .Independent => true
  | .AfterChainMatch => state.chainBaseMatched.getD false
  | .AfterPreviousSuccess =>
    state.previous.any fun result => result.conditionsMatched && result.action == .Succeeded
  | .Else => state.previous.all fun result => !result.elseHandled
  | .AfterPreviousError => state.previous.any fun result => result.action == .Failed

/-- Whether a recipe is tried at all while deliveries are planned. A recipe for a failed action asks for
matched conditions too. -/
def planningGate (recipe : CompiledNode) (state : SequenceState) : Bool :=
  match recipe.control with
  | .Independent => true
  | .AfterChainMatch => state.chainBaseMatched.getD false
  | .AfterPreviousSuccess =>
    state.previous.any fun result => result.conditionsMatched && result.action == .Succeeded
  | .AfterPreviousError =>
    state.previous.any fun result => result.conditionsMatched && result.action == .Failed
  | .Else => state.previous.all fun result => !result.elseHandled

/-- Whether the chain of `E` recipes is handled with this recipe. -/
def elseHandled (recipe : CompiledNode) (state : SequenceState) (conditionsMatched : Bool) : Bool :=
  if recipe.control = .Else then
    (state.previous.any fun result => result.elseHandled) || conditionsMatched
  else conditionsMatched

/-- The name of the lock file of a recipe, if it asks for one. -/
def resolveLock (recipe : CompiledNode) (runtime : RuntimeVariables) :
    Except ExpansionError (Option Bytes) :=
  match recipe.lock with
  | none => .ok none
  | some expression => (expression runtime.get).map some

/-- The action of the recipe is a block. -/
def isBlock (recipe : CompiledNode) : Bool :=
  match recipe.action with
  | .Block _ => true
  | _ => false

/-- A copy of the message goes through the block, and the parent waits for it. -/
def isWaitedCopyBlock (recipe : CompiledNode) : Bool :=
  recipe.isBlock && recipe.continuation == .Continue &&
    (recipe.childStatus != .Ignore || recipe.lock.isSome)

/-- A copy of the message goes through the block, and the parent runs on beside it. -/
def isUnwaitedCopyBlock (recipe : CompiledNode) : Bool :=
  recipe.isBlock && recipe.continuation == .Continue && recipe.childStatus == .Ignore &&
    recipe.lock.isNone

end CompiledNode

end ProcmailRs
