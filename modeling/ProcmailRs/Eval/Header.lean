import ProcmailRs.Eval.Ordered

/-!
# Planning deliveries

Recipes are first evaluated on the header alone. As long as that decides them, deliveries are planned
and the header may be edited; a recipe that needs the body defers the rest until the message is
complete. The place is remembered as a path of frames through the blocks of the root sequence, so that
the evaluation can be resumed there. A loaded file has no place in that path: the plan is then made
again from the start.

The journal of header planning says what has been evaluated, and on which header; no operation reads
it.
-/

namespace ProcmailRs

/-! ### Plans -/

/-- Whether the message itself goes on behind a delivery. -/
inductive DeliveryContinuation
  | Stop
  | Continue
  deriving DecidableEq, Repr

/-- A delivery that has been decided, with everything that was fixed for it. -/
structure PlannedDelivery where
  destination : BoundDestination
  continuation : DeliveryContinuation
  outputEnding : OutputEnding
  lock : Option Bytes
  umask : Nat
  status : MessageStatus
  deriving DecidableEq, Repr

/-- The deliveries so far, and whether the message itself has been taken care of. -/
structure FanoutPlanState where
  deliveries : List PlannedDelivery
  originalDelivered : Bool
  deriving DecidableEq, Repr

/-- Nothing has been decided. -/
def FanoutPlanState.default : FanoutPlanState := ⟨[], false⟩

/-- What has been decided: the deliveries, and whether the message itself has been taken care of. -/
abbrev DeliveryPlan := FanoutPlanState

/-- A recipe at which planning has stopped, or whose block it is in. -/
structure ContinuationFrame where
  recipeIndex : Nat
  state : PlanningState
  conditionResults : List (Option Bool)
  assignmentsApplied : Bool
  deriving DecidableEq, Repr

/-- What is kept of a plan that waits for the message. -/
structure Continuation where
  frames : List ContinuationFrame
  execution : FanoutPlanState
  runtime : RuntimeVariables
  requirements : InputRequirements
  restart : Bool

/-- What the header has decided. -/
inductive HeaderEvaluation
  | Decided (plan : DeliveryPlan)
  | NeedsMessage (continuation : Continuation)

/-- The delivery of a recipe: its destination, lock and permissions are fixed now. -/
def planDelivery (recipe : CompiledNode) (destination : Destination)
    (continuation : ContinuationMode) (outputEnding : OutputEnding) (status : MessageStatus)
    (runtime : RuntimeVariables) : Except EvalError PlannedDelivery := do
  let destination ← (destination.bindWith runtime.get).mapError .Expansion
  let lock ← (recipe.resolveLock runtime).mapError .Expansion
  let umask ← (RuntimeSettings.umask runtime).mapError (.RuntimeSettingUnavailable recipe.line)
  return ⟨destination, if continuation = .Continue then .Continue else .Stop, outputEnding, lock,
    umask, status⟩

/-- The plan with one more delivery. -/
def FanoutPlanState.push (execution : FanoutPlanState) (delivery : PlannedDelivery) :
    FanoutPlanState :=
  { deliveries := execution.deliveries ++ [delivery]
    originalDelivered := execution.originalDelivered || delivery.continuation == .Stop }

/-- A copy goes on, and so does a delivery whose failure the next recipe would handle. -/
def planControl (continuation : ContinuationMode) (hasErrorHandler : Bool) : SequenceControl :=
  if continuation = .Continue ∨ hasErrorHandler = true then .Continue else .Stop

/-! ### The complete message -/

/-- The state of planning for the complete message. -/
structure CompletePlanContext where
  message : CompleteMessage
  runtime : RuntimeVariables
  execution : FanoutPlanState
  rc : RuntimeRcState
  depth : Nat

/-- A part of planning for the complete message. -/
abbrev CompletePlan (α : Type) := EStateM EvalError CompletePlanContext α

namespace CompletePlanContext

/-- An evaluation that reads and changes the variables only. -/
def evaluate {α : Type} (evaluation : Eval α) : CompletePlan α := fun context =>
  match evaluation context.runtime with
  | .ok value runtime => .ok value { context with runtime := runtime }
  | .error error runtime => .error error { context with runtime := runtime }

/-- The file that a statement asks for. -/
def loadFile {L : Type} [RcSource L] (loader : L) (expression : RcFileExpression)
    (statement : RuntimeRcStatement) :
    CompletePlan LoadedRuntimeRc := fun context =>
  match RcSource.load loader expression statement context.runtime context.depth context.rc with
  | .ok loaded rc => .ok loaded { context with rc := rc }
  | .error error rc => .error error { context with rc := rc }

/-- A loaded file one level deeper; the caller's level and file come back when it ends. -/
def executeRuntimeRc {α : Type} (path : Bytes) (child : CompletePlan α) : CompletePlan α :=
  fun context =>
  let leave (after : CompletePlanContext) : CompletePlanContext :=
    { after with
      depth := context.depth
      runtime := { after.runtime with currentRcFile := context.runtime.currentRcFile } }
  match child { context with
      depth := context.depth + 1
      runtime := { context.runtime with currentRcFile := some path } } with
  | .ok value after => .ok value (leave after)
  | .error error after => .error error (leave after)

end CompletePlanContext

/-- The conditions are tested in order until one fails. -/
def matchesComplete (message : CompleteMessage) : List CompiledCondition → Eval Bool
  | [] => return true
  | condition :: rest => do
    if ← condition.matchesComplete message then matchesComplete message rest else return false

/-- The conditions that were not decided before are tested in order. -/
def matchesResumed (message : CompleteMessage) :
    List (Option Bool) → List CompiledCondition → Eval Bool
  | _, [] => return true
  | some matched :: results, _ :: rest =>
    if matched then matchesResumed message results rest else return false
  | results, condition :: rest => do
    if ← condition.matchesComplete message then matchesResumed message (results.drop 1) rest
    else return false

section Complete

open CompletePlanContext

-- The loader, and the planning of a sequence it has loaded.
variable {L : Type} [RcSource L] (loader : L) (child : CompiledSequence → CompletePlan SequenceControl)

/-- A statement between recipes. -/
def planStatementComplete : CompiledStatement → CompletePlan SequenceControl
  | .CommandAssignment assignment => throw (.ExternalActionUnsupported assignment.line)
  | .Assignment assignment => do
    evaluate (executeAssignment assignment)
    return .Continue
  | .Unset unset => do
    evaluate (executeUnset unset)
    return .Continue
  | .Host assignment => do
    if ← evaluate (executeHostAssignment assignment) then return .Continue
    modify fun context =>
      { context with execution := { context.execution with originalDelivered := true } }
    return .EndRcFile
  | .Include expression => do
    match ← loadFile loader expression .Include with
    | .Sequence path sequence =>
      let control ← executeRuntimeRc path (child sequence)
      return if control = .Stop then .Stop else .Continue
    | _ => return .Continue
  | .Switch expression => do
    match ← loadFile loader expression .Switch with
    | .Empty => return .EndRcFile
    | .Failed => return .Continue
    | .Sequence path sequence =>
      let control ← executeRuntimeRc path (child sequence)
      return if control = .Stop then .Stop else .EndRcFile

/-- The statements in order, until one of them ends the sequence. -/
def planStatementsComplete : List CompiledStatement → CompletePlan SequenceControl
  | [] => return .Continue
  | statement :: rest => do
    let control ← planStatementComplete loader child statement
    if control = .Continue then planStatementsComplete rest else return control

/-- The conditions of a recipe that its gate lets through. -/
def testComplete (gate : Bool) (conditions : List CompiledCondition) : CompletePlan Bool :=
  if gate then fun context => evaluate (matchesComplete context.message conditions) context
  else pure false

/-- A delivery is added to the plan. -/
def planDeliver (recipe : CompiledNode) (destination : Destination)
    (continuation : ContinuationMode) (outputEnding : OutputEnding) (hasErrorHandler : Bool) :
    CompletePlan SequenceControl := do
  let context ← get
  let delivery ← liftExcept id
    (planDelivery recipe destination continuation outputEnding context.message.status
      context.runtime)
  modify fun context => { context with execution := context.execution.push delivery }
  return planControl continuation hasErrorHandler

/-- The block of a recipe whose lock, if it has one, nobody can take. -/
def planBlock (recipe : CompiledNode) (children : CompletePlan SequenceControl) :
    CompletePlan SequenceControl :=
  if recipe.lock.isSome then throw (.LocalLockExecutorUnavailable recipe.line) else children

/-- The outcome of a planned action: it counts as done. -/
def plannedExecution (conditionsMatched : Bool) : ActionExecution :=
  if conditionsMatched then .Succeeded else .NotAttempted

/-- The action of a recipe whose conditions have matched or not. -/
def planSelected (conditionsMatched : Bool) (action : CompletePlan SequenceControl) :
    CompletePlan SequenceControl :=
  if conditionsMatched then action else pure .Continue

mutual

/-- The action of a recipe. Commands and edits cannot be planned. -/
def planAction (recipe : CompiledNode) (hasErrorHandler : Bool) :
    CompiledAction → CompletePlan SequenceControl
  | .Pipe _ _ | .Capture _ _ => throw (.ExternalActionUnsupported recipe.line)
  | .Deliver destination continuation outputEnding =>
    planDeliver recipe destination continuation outputEnding hasErrorHandler
  | .Block children => planBlock recipe (planComplete children)
  | .Headers _ => throw (.HeaderActionUnsupported recipe.line)

/-- The action of a recipe that has been selected. -/
def planNode (hasErrorHandler : Bool) : CompiledNode → CompletePlan SequenceControl
  | ⟨line, statements, lock, control, continuation, childStatus, conditions, action⟩ =>
    planAction ⟨line, statements, lock, control, continuation, childStatus, conditions, action⟩
      hasErrorHandler action

/-- `plan_complete_from`: the recipes from here on, then the trailing statements. -/
def planCompleteFrom (trailing : List CompiledStatement) (state : SequenceState) :
    List CompiledNode → CompletePlan SequenceControl
  | [] => planStatementsComplete loader child trailing
  | recipe :: rest => do
    let control ← planStatementsComplete loader child recipe.precedingStatements
    if control ≠ .Continue then return control
    let conditionsMatched ← testComplete (recipe.planningGate state) recipe.conditions
    let elseHandled := recipe.elseHandled state conditionsMatched
    let control ← planSelected conditionsMatched (planNode (hasErrorHandler rest) recipe)
    if control ≠ .Continue then return control
    planCompleteFrom trailing
      (state.record recipe.control conditionsMatched (plannedExecution conditionsMatched)
        elseHandled) rest

/-- `plan_complete`: a sequence from its first recipe on. -/
def planComplete : CompiledSequence → CompletePlan SequenceControl
  | ⟨recipes, trailing⟩ => planCompleteFrom trailing SequenceState.default recipes

end

/-- The statements of a recipe that is resumed before they have run. -/
def resumeStatements (frame : ContinuationFrame) (statements : List CompiledStatement) :
    CompletePlan SequenceControl :=
  if frame.assignmentsApplied then return .Continue else evaluate (executeStatements statements)

/-- The deepest recipe of the path: what the header left open of its conditions, then its action. -/
def resumeRecipe (frame : ContinuationFrame) (recipe : CompiledNode) (rest : List CompiledNode) :
    CompletePlan (Bool × SequenceControl) := do
  let conditionsMatched ←
    (if recipe.planningGate frame.state.toSequenceState then
      fun context =>
        evaluate (matchesResumed context.message frame.conditionResults recipe.conditions) context
    else pure false)
  let control ← planSelected conditionsMatched (planNode loader child (hasErrorHandler rest) recipe)
  return (conditionsMatched, control)

/-- Resumes the deepest recipe of the path and goes on through the sequences around it. -/
def resumeFromFrames : List ContinuationFrame → CompiledSequence → CompletePlan SequenceControl
  | [], _ => throw .BodyWasNotBuffered
  | frame :: frames, sequence =>
    match sequence.recipes.drop frame.recipeIndex with
    | [] => throw .BodyWasNotBuffered
    | recipe :: rest => do
      let control ← resumeStatements frame recipe.precedingStatements
      if control ≠ .Continue then return control
      let (conditionsMatched, control) ←
        (match frames, recipe.action with
        | [], _ => resumeRecipe loader child frame recipe rest
        | _ :: _, .Block children => do
          let control ← resumeFromFrames frames children
          return (true, control)
        | _ :: _, _ => throw .BodyWasNotBuffered)
      if control ≠ .Continue then return control
      planCompleteFrom loader child sequence.trailingStatements
        (frame.state.record recipe conditionsMatched
          (plannedExecution conditionsMatched)).toSequenceState rest

end Complete

/-- `plan_complete` with so many levels of loaded files below it. -/
def planCompleteSequence {L : Type} [RcSource L] (loader : L) :
    Nat → CompiledSequence → CompletePlan SequenceControl
  | 0, _ => throw noLevelLeft
  | levels + 1, sequence => planComplete loader (planCompleteSequence loader levels) sequence

/-! ### The header -/

/-- Where planning on the header goes on. -/
inductive HeaderControl
  | Continue
  | Stop
  | EndRcFile
  | Deferred
  deriving DecidableEq, Repr

/-- The control of a part that the header has decided. -/
def HeaderControl.from : SequenceControl → HeaderControl
  | .Continue => .Continue
  | .Stop => .Stop
  | .EndRcFile => .EndRcFile
  | .SequenceComplete => .Deferred

/-- What header planning does. -/
inductive HeaderEvent
  | Statement (statement : CompiledStatement)
  /-- A statement has asked for its file. -/
  | Load (expression : RcFileExpression) (statement : RuntimeRcStatement)
  /-- The conditions of a recipe that were tested, deferred ones among them; the last has failed if the
  test has. -/
  | Test (head : MessageHead) (conditions : List CompiledCondition) (failed : Bool)
  | Edit (resolveWith : Lookup → Except ExpansionError HeaderAction) (edited : MessageHead)
  | Deliver (destination : Destination) (head : MessageHead)

/-- A file was asked for. -/
def HeaderEvent.isLoad : HeaderEvent → Bool
  | .Load _ _ => true
  | _ => false

/-- The state of header planning; `captureState` is that of the executor of header captures. -/
structure HeaderPlanContext (κ E : Type) where
  head : MessageHead
  runtime : RuntimeVariables
  frames : List ContinuationFrame
  requirements : InputRequirements
  restart : Bool
  pendingError : Option E
  execution : FanoutPlanState
  rc : RuntimeRcState
  depth : Nat
  captureState : κ
  journal : List HeaderEvent

/-- A part of planning on the header. -/
abbrev HeaderPlan (κ E α : Type) :=
  EStateM (OrderedExecutionError E) (HeaderPlanContext κ E) α

/-- The command, the header bytes, and the limit of the value. -/
abbrev HeaderCaptureExecutor (κ E : Type) :=
  Bytes → Bytes → OutputEnding → Option RecipeOptions → Nat →
    HostOperation κ (DeliveryAttemptError E) Bytes

variable {κ E : Type}

namespace HeaderPlanContext

/-- Adds an event to the journal. -/
def record (event : HeaderEvent) : HeaderPlan κ E Unit :=
  modify fun context => { context with journal := context.journal ++ [event] }

/-- An evaluation that reads and changes the variables only. -/
def evaluate {α : Type} (evaluation : Eval α) : HeaderPlan κ E α := fun context =>
  match evaluation context.runtime with
  | .ok value runtime => .ok value { context with runtime := runtime }
  | .error error runtime => .error (.Evaluation error) { context with runtime := runtime }

/-- The file that a statement asks for; the journal says so. -/
def loadFile {L : Type} [RcSource L] (loader : L) (expression : RcFileExpression)
    (statement : RuntimeRcStatement) :
    HeaderPlan κ E LoadedRuntimeRc := fun context =>
  let asked (rc : RuntimeRcState) : HeaderPlanContext κ E :=
    { context with rc := rc, journal := context.journal ++ [.Load expression statement] }
  match RcSource.load loader expression statement context.runtime context.depth context.rc with
  | .ok loaded rc => .ok loaded (asked rc)
  | .error error rc => .error (.Evaluation error) (asked rc)

/-- A loaded file one level deeper; the caller's level and file come back when it ends. -/
def executeRuntimeRc {α : Type} (path : Bytes) (child : HeaderPlan κ E α) : HeaderPlan κ E α :=
  fun context =>
  let leave (after : HeaderPlanContext κ E) : HeaderPlanContext κ E :=
    { after with
      depth := context.depth
      runtime := { after.runtime with currentRcFile := context.runtime.currentRcFile } }
  match child { context with
      depth := context.depth + 1
      runtime := { context.runtime with currentRcFile := some path } } with
  | .ok value after => .ok value (leave after)
  | .error error after => .error error (leave after)

/-- The rest is deferred, and the plan is made again from the start. -/
def deferRestart (requirements : InputRequirements) : HeaderPlan κ E HeaderControl := do
  modify fun context =>
    { context with frames := [], restart := true, requirements := requirements }
  return .Deferred

/-- The rest is deferred at this place. -/
def deferAt (frame : ContinuationFrame) (requirements : InputRequirements) :
    HeaderPlan κ E HeaderControl := do
  modify fun context =>
    { context with frames := context.frames ++ [frame], requirements := requirements }
  return .Deferred

/-- The frame of a block is kept when the block is deferred. -/
def withFrame (frame : ContinuationFrame) (body : HeaderPlan κ E HeaderControl) :
    HeaderPlan κ E HeaderControl := do
  modify fun context => { context with frames := context.frames ++ [frame] }
  let control ← body
  if control ≠ .Deferred then
    modify fun context => { context with frames := context.frames.dropLast }
  return control

end HeaderPlanContext

/-- Every condition that the header decides, also behind one that is deferred; the first that fails
ends the test. -/
def matchesHeaders (head : MessageHead) :
    List CompiledCondition → Eval (PartialMatch × List (Option Bool))
  | [] => return (.True, [])
  | condition :: rest => do
    match ← condition.matchesHeaders head with
    | .False => return (.False, [some false])
    | .Deferred => do
      let (matched, results) ← matchesHeaders head rest
      return (if matched = .False then .False else .Deferred, none :: results)
    | .True => do
      let (matched, results) ← matchesHeaders head rest
      return (matched, some true :: results)

/-- The action needs more than the header. -/
def CompiledAction.deliveryDefersHeader : CompiledAction → Bool
  | .Pipe _ _ => true
  | .Capture _ options => options.actionInput != .Headers
  | .Deliver destination _ _ =>
    destination.needsRuntimeVariables || destination.requiresOrderedDelivery
  | .Block _ | .Headers _ => false

section Header

open HeaderPlanContext

-- The loader, and the planning of a sequence it has loaded.
variable {L : Type} [RcSource L] (loader : L)
variable (child : CompiledSequence → InputRequirements → HeaderPlan κ E HeaderControl)
variable (capture : HeaderCaptureExecutor κ E)

/-- A loaded file under the statement that has loaded it. `following` is what is needed behind it. -/
def planLoaded (path : Bytes) (sequence : CompiledSequence) (following : InputRequirements) :
    HeaderPlan κ E HeaderControl :=
  if sequence.properties.requiresPreemptiveOrderedDelivery then
    deferRestart ((sequence.properties.requirements.union following).union .endOfMessage)
  else do
    let control ← executeRuntimeRc path (child sequence following)
    if control = .Deferred then
      let context ← get
      deferRestart ((context.requirements.union sequence.properties.requirements).union following)
    else return control

/-- A statement between recipes. `following` is what is needed behind it. -/
def planStatementHeaders (following : InputRequirements) :
    CompiledStatement → HeaderPlan κ E HeaderControl
  | .CommandAssignment assignment =>
    throw (.Evaluation (.ExternalActionUnsupported assignment.line))
  | .Assignment assignment => do
    evaluate (executeAssignment assignment)
    return .Continue
  | .Unset unset => do
    evaluate (executeUnset unset)
    return .Continue
  | .Host assignment => do
    if ← evaluate (executeHostAssignment assignment) then return .Continue
    modify fun context =>
      { context with execution := { context.execution with originalDelivered := true } }
    return .EndRcFile
  | .Include expression => do
    match ← loadFile loader expression .Include with
    | .Sequence path sequence =>
      let control ← planLoaded child path sequence following
      return if control = .Deferred ∨ control = .Stop then control else .Continue
    | _ => return .Continue
  -- Nothing behind a successful switch is reached.
  | .Switch expression => do
    match ← loadFile loader expression .Switch with
    | .Empty => return .EndRcFile
    | .Failed => return .Continue
    | .Sequence path sequence =>
      let control ← planLoaded child path sequence .none
      return if control = .Deferred ∨ control = .Stop then control else .EndRcFile

/-- The statements in order, until one of them defers the rest or ends the sequence. -/
def planStatementsHeaders (following : InputRequirements) :
    List CompiledStatement → HeaderPlan κ E HeaderControl
  | [] => return .Continue
  | statement :: rest => do
    record (.Statement statement)
    let control ← planStatementHeaders loader child following statement
    if control = .Continue then planStatementsHeaders following rest else return control

/-- The conditions of a recipe that its gate lets through, as far as the header decides them. -/
def testHeaders (gate : Bool) (conditions : List CompiledCondition) :
    HeaderPlan κ E (PartialMatch × List (Option Bool)) :=
  if gate then do
    let context ← get
    let (matched, results) ← evaluate (matchesHeaders context.head conditions)
    record (.Test context.head (conditions.take results.length) (matched == .False))
    return (matched, results)
  else return (.False, [])

/-- The command runs on the header, and its output becomes the value of a variable. -/
def planHeaderCapture (action : CaptureAction) (options : RecipeOptions) :
    HeaderPlan κ E (ActionExecution × HeaderControl) := do
  let context ← get
  let limit ← liftExcept .Evaluation
    (activeCommandValueLimit context.runtime action.target action.line)
  let captured : Except (DeliveryAttemptError E) Bytes ← fun context =>
    match capture action.command context.head.asBytes options.outputEnding (some options) limit
        (context.runtime, context.captureState) with
    | .ok output (runtime, state) =>
      .ok (.ok output) { context with runtime := runtime, captureState := state }
    | .error error (runtime, state) =>
      .ok (.error error) { context with runtime := runtime, captureState := state }
  match captured with
  | .ok output =>
    let value ← liftExcept .Evaluation (validateCapturedValue output limit action.name .StripOne)
    modify fun context =>
      { context with runtime := context.runtime.setBytes action.name value, pendingError := none }
    return (.Succeeded, .Continue)
  | .error (.Recoverable error) =>
    modify fun context => { context with pendingError := some error }
    return (.Failed, .Continue)
  | .error (.Fatal error) => throw (.Delivery error)

/-- The header is edited in place; the body is not there yet. -/
def planHeaderEdit (line : Nat) (resolveWith : Lookup → Except ExpansionError HeaderAction) :
    HeaderPlan κ E (ActionExecution × HeaderControl) := do
  let context ← get
  let action ← liftExcept (fun error => .Evaluation (.Expansion error))
    (resolveWith context.runtime.get)
  let applied ← liftExcept (fun error => .Evaluation (.HeaderEdit line error))
    (applyHeaderAction context.head.headerView 0 action context.head.limits)
  modify fun context =>
    { context with
      head := context.head.replaceEditedHeader applied.header
      runtime := context.runtime.applyHeaderExtractions applied.extractions }
  record (.Edit resolveWith (context.head.replaceEditedHeader applied.header))
  return (.Succeeded, .Continue)

/-- A delivery is added to the plan. -/
def planHeaderDeliver (recipe : CompiledNode) (destination : Destination)
    (continuation : ContinuationMode) (outputEnding : OutputEnding) (hasErrorHandler : Bool) :
    HeaderPlan κ E (ActionExecution × HeaderControl) := do
  let context ← get
  let delivery ← liftExcept .Evaluation
    (planDelivery recipe destination continuation outputEnding context.head.status context.runtime)
  record (.Deliver destination context.head)
  modify fun context => { context with execution := context.execution.push delivery }
  return (.Succeeded, .from (planControl continuation hasErrorHandler))

/-- The action of a recipe whose conditions have matched or not. -/
def planHeaderSelected (conditionsMatched : Bool)
    (action : HeaderPlan κ E (ActionExecution × HeaderControl)) :
    HeaderPlan κ E (ActionExecution × HeaderControl) :=
  if conditionsMatched then action else return (.NotAttempted, .Continue)

/-- An action that has succeeded clears the error of one before it. -/
def clearPendingError (action : ActionExecution) : HeaderPlan κ E Unit :=
  modify fun context =>
    if action = .Succeeded then { context with pendingError := none } else context

mutual

/-- The action of a recipe at `frame`; `following` is what is needed behind it. -/
def planHeadersAction (recipe : CompiledNode) (frame : ContinuationFrame)
    (following : InputRequirements) (hasErrorHandler : Bool) :
    CompiledAction → HeaderPlan κ E (ActionExecution × HeaderControl)
  | .Pipe _ _ => throw (.Evaluation (.ExternalActionUnsupported recipe.line))
  | .Capture action options => planHeaderCapture capture action options
  | .Headers resolveWith => planHeaderEdit recipe.line resolveWith
  | .Deliver destination continuation outputEnding =>
    planHeaderDeliver recipe destination continuation outputEnding hasErrorHandler
  | .Block children => do
    let control ← withFrame frame (planHeaders following children)
    return (.Succeeded, control)

/-- The action of a recipe that has been selected, at `frame`. -/
def planHeadersNode (frame : ContinuationFrame) (following : InputRequirements)
    (hasErrorHandler : Bool) : CompiledNode → HeaderPlan κ E (ActionExecution × HeaderControl)
  | ⟨line, statements, lock, control, continuation, childStatus, conditions, action⟩ =>
    planHeadersAction
      ⟨line, statements, lock, control, continuation, childStatus, conditions, action⟩
      frame following hasErrorHandler action

/-- The recipes from position `index` on, then the trailing statements. -/
def planHeadersFrom (trailing : List CompiledStatement) (following : InputRequirements)
    (state : PlanningState) (index : Nat) : List CompiledNode → HeaderPlan κ E HeaderControl
  | [] => planStatementsHeaders loader child following trailing
  | recipe :: rest => do
    let needed := (requirementsFrom (recipe :: rest) trailing).union following
    let control ← planStatementsHeaders loader child needed recipe.precedingStatements
    if control ≠ .Continue then return control
    let (matched, results) ← testHeaders (recipe.planningGate state.toSequenceState) recipe.conditions
    let conditionsMatched := matched == .True
    if matched = .Deferred ∨
        (conditionsMatched && recipe.action.deliveryDefersHeader) = true then
      deferAt ⟨index, state, results, true⟩ needed
    else
      let (action, control) ← planHeaderSelected conditionsMatched
        (planHeadersNode ⟨index, state, [], true⟩
          ((requirementsFrom rest trailing).union following) (hasErrorHandler rest) recipe)
      if control = .Deferred then return .Deferred
      clearPendingError action
      if control ≠ .Continue then return control
      planHeadersFrom trailing following (state.record recipe conditionsMatched action) (index + 1)
        rest

/-- `plan_headers`: a sequence from its first recipe on. -/
def planHeaders (following : InputRequirements) : CompiledSequence → HeaderPlan κ E HeaderControl
  | ⟨recipes, trailing⟩ => planHeadersFrom trailing following PlanningState.default 0 recipes

end

end Header

/-- `plan_headers` with so many levels of loaded files below it. -/
def planHeadersSequence {L : Type} [RcSource L] (loader : L) (capture : HeaderCaptureExecutor κ E) :
    Nat → CompiledSequence → InputRequirements → HeaderPlan κ E HeaderControl
  | 0, _, _ => throw (.Evaluation noLevelLeft)
  | levels + 1, sequence, following =>
    planHeaders loader (planHeadersSequence loader capture levels) capture following sequence

namespace ExecutionPlan

/-- How much of the message the plan needs, with the files that have been loaded. -/
def requirements {L : Type} (plan : ExecutionPlan L) (rc : RuntimeRcState) : InputRequirements :=
  let dynamic := if rc.dynamicBodyContents then ⟨false, true, true⟩ else .none
  let preemptive := if plan.root.properties.requiresPreemptiveOrderedDelivery then .endOfMessage
    else .none
  (plan.root.properties.requirements.union dynamic).union preemptive

/-- The context in which the header is planned. -/
def startHeaders (head : MessageHead) (runtime : RuntimeVariables) (captureState : κ)
    (rc : RuntimeRcState) : HeaderPlanContext κ E :=
  { head := head
    runtime := runtime
    frames := []
    requirements := .none
    restart := false
    pendingError := none
    execution := .default
    rc := rc
    depth := 0
    captureState := captureState
    journal := [] }

/-- What the planning of the root sequence means for the message. `runtime` is that before it. -/
def headerEvaluation (runtime : RuntimeVariables) (control : HeaderControl)
    (context : HeaderPlanContext κ E) : Except (OrderedExecutionError E) HeaderEvaluation :=
  match control with
  | .Deferred =>
    .ok (.NeedsMessage
      { frames := context.frames
        execution := if context.restart then .default else context.execution
        runtime := if context.restart then runtime else context.runtime
        requirements := context.requirements
        restart := context.restart })
  | _ =>
    match context.pendingError with
    | some error => .error (.Delivery error)
    | none => .ok (.Decided context.execution)

/-- `evaluate_headers_editing_with_capture_trace`, with the context it leaves: the header may have been
edited, the variables set and files loaded. -/
def evaluateHeaders {L : Type} [RcSource L] (plan : ExecutionPlan L)
    (capture : HeaderCaptureExecutor κ E) (head : MessageHead) (runtime : RuntimeVariables) (captureState : κ) (rc : RuntimeRcState) :
    Except (OrderedExecutionError E) HeaderEvaluation × HeaderPlanContext κ E :=
  let start : HeaderPlanContext κ E := startHeaders head runtime captureState rc
  if plan.root.properties.requiresPreemptiveOrderedDelivery then
    (.ok (.NeedsMessage
      { frames := [⟨0, PlanningState.default, [], false⟩]
        execution := .default
        runtime := runtime
        requirements := plan.requirements rc
        restart := false }), start)
  else
    match planHeadersSequence plan.loader capture (maxRcIncludeDepth + 1) plan.root .none start with
    | .ok control context => (headerEvaluation runtime control context, context)
    | .error error context => (.error error, context)

/-- The context in which a plan for the complete message is made or resumed. -/
def startComplete (message : CompleteMessage) (runtime : RuntimeVariables)
    (execution : FanoutPlanState) (rc : RuntimeRcState) : CompletePlanContext :=
  ⟨message, runtime, execution, rc, 0⟩

/-- Plans for the complete message from the start. -/
def planMessage {L : Type} [RcSource L] (plan : ExecutionPlan L) (message : CompleteMessage)
    (runtime : RuntimeVariables) (rc : RuntimeRcState) : EStateM.Result EvalError CompletePlanContext SequenceControl :=
  planCompleteSequence plan.loader (maxRcIncludeDepth + 1) plan.root
    (startComplete message runtime .default rc)

/-- `resume_with_trace`: the plan is the execution state of the context that is left. -/
def resume {L : Type} [RcSource L] (plan : ExecutionPlan L) (continuation : Continuation)
    (input : MappedMessageInput) (rc : RuntimeRcState) :
    Except EvalError (EStateM.Result EvalError CompletePlanContext SequenceControl) :=
  match input.completeMessage (plan.needsFullMatching rc) with
  | none => .error .BodyWasNotBuffered
  | some message =>
    if continuation.frames.isEmpty && !continuation.restart then .error .BodyWasNotBuffered
    else if continuation.restart then
      .ok (planCompleteSequence plan.loader (maxRcIncludeDepth + 1) plan.root
        (startComplete message continuation.runtime continuation.execution rc.resetTransitions))
    else
      .ok (resumeFromFrames plan.loader
        (planCompleteSequence plan.loader maxRcIncludeDepth) continuation.frames plan.root
        (startComplete message continuation.runtime continuation.execution rc))

end ExecutionPlan

end ProcmailRs
