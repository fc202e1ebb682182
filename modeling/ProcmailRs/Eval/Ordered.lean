import ProcmailRs.Eval.Assignment
import ProcmailRs.Eval.Chain
import ProcmailRs.Eval.RuntimeRc

/-!
# Ordered execution

With the complete message at hand the recipes are executed one after another; deliveries, commands and
locks are operations of a host. A copied block is executed in a branch of its own, which then runs the
rest of the sequence: the parent waits for the branch of a waited block, and runs beside the branch of
an unwaited one. The two share nothing but the counters of the plan, so the branch is run first here.

The journal says what an execution did, path by path; no operation reads it.
-/

namespace ProcmailRs

/-- How many branches may run beside their parents for one message. -/
def maxBackgroundCopyBranches : Nat := 128

/-- An error of the host: the next recipe may handle it, or it ends the execution. -/
inductive DeliveryAttemptError (E : Type)
  | Recoverable (error : E)
  | Fatal (error : E)
  deriving DecidableEq, Repr

/-- The error, however grave it is. -/
def DeliveryAttemptError.error {E : Type} : DeliveryAttemptError E → E
  | .Recoverable error => error
  | .Fatal error => error

/-- What ends an execution: an error of the evaluation, or one of the host. -/
inductive OrderedExecutionError (E : Type)
  | Evaluation (error : EvalError)
  | Delivery (error : E)
  deriving DecidableEq, Repr

/-- How many deliveries were made, and whether one of them was of the message itself. -/
structure DeliveryOutcome where
  published : Nat
  originalDelivered : Bool
  deriving DecidableEq, Repr

/-- The completed outcome, or the error the execution failed with. -/
abbrev CompletionState (E : Type) := Except (OrderedExecutionError E) DeliveryOutcome

/-- What a pipe reads: the area selected by its flags, and the header and the body apart. -/
structure ExternalActionInput where
  selected : Bytes
  header : Bytes
  body : Bytes
  deriving DecidableEq, Repr

/-! ### The journal -/

/-- A call of the host. A delivery is logged with the continuation of its recipe, which the host is not
told. -/
inductive HostCall
  | Deliver (destination : BoundDestination) (message : Bytes) (status : MessageStatus)
      (outputEnding : OutputEnding) (lock : Option Bytes) (continuation : ContinuationMode)
  | ExternalAction (command : Bytes) (options : RecipeOptions) (lock : Option Bytes)
      (input : ExternalActionInput)
  | Capture (command : Bytes) (input : Bytes) (outputEnding : OutputEnding) (limit : Nat)
  | ExternalCondition (command : Bytes) (input : Bytes)
  | ReplaceGlobalLock (path : Bytes)
  | AcquireLocalLock (path : Bytes)
  deriving DecidableEq, Repr

namespace HostCall

/-- A delivery to a destination. -/
def isDelivery : HostCall → Bool
  | .Deliver .. => true
  | _ => false

/-- A delivery of the message itself: to a destination without a copy, or to a pipe that is neither a
copy nor a filter. -/
def isFinal : HostCall → Bool
  | .Deliver _ _ _ _ _ continuation => continuation == .Stop
  | .ExternalAction _ options _ _ => options.actionMode != .Filter && options.continuation == .Stop
  | _ => false

end HostCall

/-- What happens on a path. -/
inductive Event
  /-- A statement is executed. -/
  | Statement
  /-- A recipe was reached behind `passed`; its conditions were tested when it was `attempted`. -/
  | Recipe (control : ControlFlow) (passed : List Passed) (attempted : Bool)
  /-- The host was called and has answered, with an error unless it `succeeded`; `detached` is that of
  the journal. -/
  | Host (call : HostCall) (succeeded : Bool) (detached : Bool)
  deriving DecidableEq, Repr

namespace Event

/-- The host has accepted a delivery. -/
def isDelivery : Event → Bool
  | .Host call true _ => call.isDelivery
  | _ => false

/-- The host has carried out a delivery of the message itself. -/
def isFinal : Event → Bool
  | .Host call true _ => call.isFinal
  | _ => false

/-- The path was the parent of an unwaited branch started there. -/
def isDetached : Event → Bool
  | .Host _ _ detached => detached
  | _ => false

@[simp] theorem isDelivery_host (call : HostCall) (succeeded detached : Bool) :
    (Host call succeeded detached).isDelivery = (succeeded && call.isDelivery) := by
  cases succeeded with
  | true => rfl
  | false => rfl

@[simp] theorem isFinal_host (call : HostCall) (succeeded detached : Bool) :
    (Host call succeeded detached).isFinal = (succeeded && call.isFinal) := by
  cases succeeded with
  | true => rfl
  | false => rfl

end Event

/-- The main path and every branch have a number. `nested` is set inside a block or a loaded file of
the current path, `detached` while the path is the parent of an unwaited branch started there. -/
structure Journal where
  path : Nat
  paths : Nat
  nested : Bool
  detached : Bool
  log : List (Nat × Event)
  deriving DecidableEq, Repr

namespace Journal

/-- The main path, on which nothing has happened. -/
def new : Journal := ⟨0, 1, false, false, []⟩

/-- One more event on the path. -/
def record (journal : Journal) (event : Event) : Journal :=
  { journal with log := journal.log ++ [(journal.path, event)] }

/-- The journal of a branch that starts here. -/
def branch (journal : Journal) : Journal :=
  { journal with path := journal.paths, paths := journal.paths + 1, nested := false,
                 detached := false }

/-- The journal of the path `journal` after something else has been executed. -/
def resume (journal after : Journal) : Journal :=
  { journal with paths := after.paths, log := after.log }

end Journal

/-! ### The execution -/

/-- The context of an execution. `currentMessage` is the edited message, if there is one, and
`published` the number of deliveries. -/
structure OrderedTreeExecution (σ E : Type) where
  message : CompleteMessage
  currentMessage : CurrentMessage
  runtime : RuntimeVariables
  host : σ
  published : Nat
  originalDelivered : Bool
  pendingError : Option E
  rc : RuntimeRcState
  depth : Nat
  limits : MessageLimits
  copyBudget : Nat
  journal : Journal

/-- An operation of the host. It may change the variables and its own state. -/
abbrev HostOperation (σ ε α : Type) := EStateM ε (RuntimeVariables × σ) α

/-- What carries out the deliveries, the commands and the locks. -/
structure OrderedExecutionHost (σ E : Type) where
  deliver : BoundDestination → Bytes → MessageStatus → OutputEnding → Option Bytes →
    HostOperation σ (DeliveryAttemptError E) Unit
  externalAction : Bytes → RecipeOptions → Option Bytes → ExternalActionInput →
    HostOperation σ (DeliveryAttemptError E) (Option Message)
  capture : Bytes → Bytes → OutputEnding → Option RecipeOptions → Nat →
    HostOperation σ (DeliveryAttemptError E) Bytes
  externalCondition : Bytes → Bytes → HostOperation σ (DeliveryAttemptError E) Bool
  replaceGlobalLock : Bytes → HostOperation σ E Unit
  acquireLocalLock : Bytes → HostOperation σ (DeliveryAttemptError E) Unit
  enterCopyBranch : σ → σ
  leaveCopyBranch : σ → σ
  /-- The host of a branch, and the host itself after it has been forked. -/
  forkCopyBranch : σ → Option (σ × σ)
  finishBackground : σ → Except E Unit × σ
  complete : Bytes → CompletionState E → RuntimeVariables × σ → RuntimeVariables × σ

/-- A step of an execution on its context. -/
abbrev Exec (σ E α : Type) := EStateM (OrderedExecutionError E) (OrderedTreeExecution σ E) α

/-- How an action ended, and what comes behind it. -/
abbrev OrderedActionResult := ActionExecution × SequenceControl

variable {σ E : Type}

namespace OrderedTreeExecution

/-- The message as it has been edited so far. -/
def view (context : OrderedTreeExecution σ E) : CompleteMessage :=
  context.currentMessage.view context.message

/-- Logs an event on the current path. -/
def record (event : Event) : Exec σ E Unit :=
  modify fun context => { context with journal := context.journal.record event }

/-- Evaluation on the variables of the execution. -/
def evaluate {α : Type} (evaluation : Eval α) : Exec σ E α := fun context =>
  match evaluation context.runtime with
  | .ok value runtime => .ok value { context with runtime := runtime }
  | .error error runtime => .error (.Evaluation error) { context with runtime := runtime }

/-- The context once the host has answered. -/
def answered (context : OrderedTreeExecution σ E) (call : HostCall) (succeeded : Bool)
    (runtime : RuntimeVariables) (host : σ) : OrderedTreeExecution σ E :=
  { context with
    runtime := runtime
    host := host
    journal := context.journal.record (.Host call succeeded context.journal.detached) }

/-- Calls the host, which is the only way to reach it; its error is left to the caller. -/
def callHost {ε α : Type} (call : HostCall) (operation : HostOperation σ ε α) :
    Exec σ E (Except ε α) := fun context =>
  match operation (context.runtime, context.host) with
  | .ok value (runtime, host) => .ok (.ok value) (context.answered call true runtime host)
  | .error error (runtime, host) => .ok (.error error) (context.answered call false runtime host)

/-- The action is done: an earlier error is forgotten. -/
def actionSucceeded (control : SequenceControl) : Exec σ E OrderedActionResult := do
  modify fun context => { context with pendingError := none }
  return (.Succeeded, control)

/-- The action has failed, and the execution goes on with the error pending. -/
def actionFailed (error : E) : Exec σ E OrderedActionResult := do
  modify fun context => { context with pendingError := some error }
  return (.Failed, .Continue)

/-- A recoverable error fails the action, a fatal one the execution. -/
def actionError : DeliveryAttemptError E → Exec σ E OrderedActionResult
  | .Recoverable error => actionFailed error
  | .Fatal error => throw (.Delivery error)

/-- One more delivery has been accepted. -/
def countDelivery : Exec σ E Unit :=
  modify fun context => { context with published := context.published + 1 }

/-- A delivery of the message itself: it ends the path. -/
def finalDelivery : Exec σ E OrderedActionResult := do
  modify fun context => { context with originalDelivered := true }
  actionSucceeded .Stop

/-- Runs `body` between a change of the context and one that undoes it, also when `body` fails. -/
def within {α : Type} (enter : OrderedTreeExecution σ E → OrderedTreeExecution σ E)
    (leave : OrderedTreeExecution σ E → OrderedTreeExecution σ E → OrderedTreeExecution σ E)
    (body : Exec σ E α) : Exec σ E α := fun context =>
  match body (enter context) with
  | .ok value after => .ok value (leave context after)
  | .error error after => .error error (leave context after)

/-- The journal inside a block or a loaded file. -/
def nested {α : Type} (body : Exec σ E α) : Exec σ E α :=
  within (fun context => { context with journal := { context.journal with nested := true } })
    (fun caller after => { after with journal := caller.journal.resume after.journal }) body

/-- Loads the file of a statement. -/
def loadFile {L : Type} [RcSource L] (loader : L) (expression : RcFileExpression)
    (statement : RuntimeRcStatement) :
    Exec σ E LoadedRuntimeRc := fun context =>
  match RcSource.load loader expression statement context.runtime context.depth context.rc with
  | .ok loaded rc => .ok loaded { context with rc := rc }
  | .error error rc => .error (.Evaluation error) { context with rc := rc }

/-- A loaded file is executed one level deeper; the caller's level and file come back when it ends. -/
def executeRuntimeRc (path : Bytes) (child : Exec σ E OrderedActionResult) :
    Exec σ E OrderedActionResult :=
  within
    (fun context =>
      { context with
        depth := context.depth + 1
        runtime := { context.runtime with currentRcFile := some path } })
    (fun caller after =>
      { after with
        depth := caller.depth
        runtime := { after.runtime with currentRcFile := caller.runtime.currentRcFile } })
    (nested child)

end OrderedTreeExecution

open OrderedTreeExecution

/-! ### Commands -/

/-- What is cut off the end of the output of a command. -/
inductive CapturedNewlineRule
  | StripOne
  | StripAll
  deriving DecidableEq, Repr

/-- The output of a command as a value within its limit. -/
def validateCapturedValue (output : Bytes) (limit : Nat) (variableName : String)
    (rule : CapturedNewlineRule) : Except EvalError Bytes :=
  if output.length > limit then .error (.VariableValueTooLarge variableName output.length)
  else
    match rule with
    | .StripOne => .ok (if endsWith output [LF] then output.dropLast else output)
    | .StripAll => .ok (output.reverse.dropWhile isLF).reverse

/-- The limit of a value that a command gives: that of `LINEBUF` or that of its variable. -/
def activeCommandValueLimit (runtime : RuntimeVariables) (target : AssignmentTarget) (line : Nat) :
    Except EvalError Nat :=
  match RuntimeSettings.linebuf runtime with
  | .ok linebuf => .ok (min linebuf target.valueLimit)
  | .error name => .error (.RuntimeSettingUnavailable line name)

variable (host : OrderedExecutionHost σ E)

/-- Runs a shell expression; its commands read the message. -/
def runShellProgram (valueName : String) (message : Bytes) : ShellProgram → Exec σ E Bytes
  | .done bytes assignments => do
    modify fun context =>
      { context with
        runtime := assignments.foldl (fun runtime (name, value) => runtime.setBytes name value)
          context.runtime }
    return bytes
  | .fail error => throw (.Evaluation error)
  | .command command remaining next => do
    match ← callHost (.Capture command message .Preserve remaining)
        (host.capture command message .Preserve none remaining) with
    | .error error => throw (.Delivery error.error)
    | .ok output =>
      let value ← liftExcept .Evaluation
        (validateCapturedValue output remaining valueName .StripAll)
      runShellProgram valueName message (next value (← get).runtime)

/-- The value of an expression, once its assignments have been made. -/
def evaluateShellExpression (expression : ShellExpression) (valueName : String) (message : Bytes)
    (limit : Nat) : Exec σ E Bytes := do
  runShellProgram host valueName message (expression limit (← get).runtime)

/-! ### Conditions -/

/-- A condition as it is tested: one with a `$` is expanded and parsed again. -/
def resolveCondition : CompiledCondition → Exec σ E ResolvedCondition
  | .Resolved condition => return condition
  | .ShellExpanded line negated condition =>
    resolveShellExpansionWith
      (fun condition => do
        let context ← get
        let limit ← liftExcept (fun name => .Evaluation (.RuntimeSettingUnavailable line name))
          (RuntimeSettings.linebuf context.runtime)
        let message := (FinalMessage.new context.view).bytes.bytes
        let bytes ← evaluateShellExpression host condition.expression "shell-expanded condition"
          message limit
        if (utf8Chars? bytes).isSome then return bytes
        throw (.Evaluation
          (.RuntimeCondition line "shell-expanded condition contains non-UTF-8 data")))
      (liftExcept .Evaluation) line (maxExpansionDepth + 1) negated condition

/-- Tests one condition; a command is run by the host. -/
def matchesOrderedCondition (condition : CompiledCondition) : Exec σ E Bool := do
  -- The message is taken before the condition is expanded.
  let message := (← get).view
  let condition ← resolveCondition host condition
  match condition.program with
  | some (command, input) =>
    let bytes := (message.programInput input).bytes
    match ← callHost (.ExternalCondition command bytes) (host.externalCondition command bytes) with
    | .ok matched => return condition.applyNegation matched
    | .error error => throw (.Delivery error.error)
  | none => evaluate (condition.matchesComplete message)

/-- The conditions are tested in order until one fails. -/
def matchesOrdered : List CompiledCondition → Exec σ E Bool
  | [] => return true
  | condition :: rest => do
    if ← matchesOrderedCondition host condition then matchesOrdered rest else return false

/-! ### Statements -/

/-- An assignment whose value is the output of commands. -/
def executeCommandAssignment (assignment : CompiledCommandAssignment) : Exec σ E Unit := do
  let context ← get
  let limit ← liftExcept .Evaluation
    (activeCommandValueLimit context.runtime assignment.target assignment.line)
  let value ← evaluateShellExpression host assignment.expression assignment.name
    (FinalMessage.new context.view).bytes.bytes limit
  evaluate (ResolvedAssignment.apply ⟨assignment.name, assignment.target, value, assignment.line⟩)

/-- Gives up the lock of `LOCKFILE` and takes the one under `path`, if there is a path. -/
def replaceGlobalLock (path : Bytes) : Exec σ E Unit := do
  match ← callHost (.ReplaceGlobalLock path) (host.replaceGlobalLock path) with
  | .ok () => return ()
  | .error error => throw (.Delivery error)

section Sequences

-- The loader, and the execution of a sequence it has loaded.
variable {L : Type} [RcSource L] (loader : L) (child : CompiledSequence → Exec σ E OrderedActionResult)

/-- One statement. `Continue` goes on with the next one. -/
def executeStatementOrdered : CompiledStatement → Exec σ E SequenceControl
  | .CommandAssignment assignment => do
    executeCommandAssignment host assignment
    return .Continue
  | .Assignment assignment => do
    evaluate (executeAssignment assignment)
    if assignment.target = .LockFile then
      replaceGlobalLock host (((← get).runtime.get "LOCKFILE").getD [])
    return .Continue
  | .Unset unset => do
    evaluate (executeUnset unset)
    if unset.target = .LockFile then replaceGlobalLock host []
    return .Continue
  | .Host assignment => do
    if ← evaluate (executeHostAssignment assignment) then return .Continue
    modify fun context => { context with originalDelivered := true, pendingError := none }
    return .EndRcFile
  | .Include expression => do
    match ← loadFile loader expression .Include with
    | .Sequence path sequence =>
      let (_, control) ← executeRuntimeRc path (child sequence)
      return if control = .Stop then .Stop else .Continue
    | _ => return .Continue
  | .Switch expression => do
    match ← loadFile loader expression .Switch with
    | .Empty => return .EndRcFile
    | .Failed => return .Continue
    | .Sequence path sequence =>
      let (_, control) ← executeRuntimeRc path (child sequence)
      return if control = .Stop then .Stop else .EndRcFile

/-- The statements in order, until one of them ends the sequence. -/
def executeStatementsOrdered : List CompiledStatement → Exec σ E SequenceControl
  | [] => return .Continue
  | statement :: rest => do
    record .Statement
    let control ← executeStatementOrdered host loader child statement
    if control = .Continue then executeStatementsOrdered rest else return control

/-! ### Actions -/

/-- A command whose output becomes the value of a variable. -/
def executeCapture (action : CaptureAction) (options : RecipeOptions) :
    Exec σ E OrderedActionResult := do
  let context ← get
  let input := (context.view.actionInput options.actionInput).bytes
  let limit ← liftExcept .Evaluation
    (activeCommandValueLimit context.runtime action.target action.line)
  match ← callHost (.Capture action.command input options.outputEnding limit)
      (host.capture action.command input options.outputEnding (some options) limit) with
  | .ok output =>
    let value ← liftExcept .Evaluation (validateCapturedValue output limit action.name .StripOne)
    modify fun context => { context with runtime := context.runtime.setBytes action.name value }
    actionSucceeded .Continue
  | .error error => actionError error

/-- The header of the current message is edited. -/
def executeHeaders (line : Nat) (resolveWith : Lookup → Except ExpansionError HeaderAction) :
    Exec σ E OrderedActionResult := do
  let context ← get
  let action ← liftExcept (fun error => .Evaluation (.Expansion error))
    (resolveWith context.runtime.get)
  let (current, extractions) ← liftExcept (fun error => .Evaluation (.HeaderEdit line error))
    (context.currentMessage.editHeader context.message context.limits action)
  modify fun context =>
    { context with
      currentMessage := current
      runtime := context.runtime.applyHeaderExtractions extractions }
  actionSucceeded .Continue

/-- A command that reads the message. The output of a filter replaces the area it was given. -/
def executePipe (recipe : CompiledNode) (command : Bytes) (options : RecipeOptions) :
    Exec σ E OrderedActionResult := do
  let context ← get
  let message := context.view
  let input : ExternalActionInput :=
    ⟨(message.actionInput options.actionInput).bytes, message.rawHeader, message.body⟩
  let lock ← liftExcept (fun error => .Evaluation (.Expansion error))
    (recipe.resolveLock context.runtime)
  match ← callHost (.ExternalAction command options lock input)
      (host.externalAction command options lock input) with
  | .error error => actionError error
  | .ok replacement =>
    if options.actionMode = .Filter then
      match replacement with
      | none =>
        throw (.Evaluation (.InvalidExternalActionResult recipe.line
          "filter completed without a replacement message"))
      | some message =>
        modify fun context =>
          { context with
            currentMessage := context.currentMessage.replace message options.actionInput }
        actionSucceeded .Continue
    else if replacement.isSome then
      throw (.Evaluation (.InvalidExternalActionResult recipe.line
        "non-filter pipe returned a replacement message"))
    else if options.continuation = .Stop then finalDelivery
    else actionSucceeded .Continue

/-- The destination of a delivery. A command in it is run first. -/
def resolveDestination (destination : Destination) (message : Bytes) :
    Exec σ E BoundDestination := do
  match destination.commandExpression with
  | some expression =>
    let limit ← liftExcept .Evaluation
      (activeCommandValueLimit (← get).runtime .User destination.line)
    let source ← evaluateShellExpression host expression "destination" message
      (min limit maxPathExpressionLen)
    if (utf8Chars? source).isNone then
      throw (.Evaluation (.DestinationCommandOutputIsNotUtf8 destination.line))
    liftExcept (fun error => .Evaluation (.Expansion error))
      (destination.resolveOrderedOutput source (RuntimeSettings.maildir (← get).runtime))
  | none =>
    liftExcept (fun error => .Evaluation (.Expansion error))
      (destination.bindWith (← get).runtime.get)

/-- Hands the message to the host for a delivery. -/
def deliverMessage (destination : BoundDestination) (message : Bytes) (status : MessageStatus)
    (outputEnding : OutputEnding) (lock : Option Bytes) (continuation : ContinuationMode) :
    Exec σ E (Except (DeliveryAttemptError E) Unit) := do
  let result ← callHost (.Deliver destination message status outputEnding lock continuation)
    (host.deliver destination message status outputEnding lock)
  if result.isOk then countDelivery
  return result

/-- A delivery to a destination. -/
def executeDeliver (recipe : CompiledNode) (destination : Destination)
    (continuation : ContinuationMode) (outputEnding : OutputEnding) :
    Exec σ E OrderedActionResult := do
  let message := FinalMessage.new (← get).view
  let destination ← resolveDestination host destination message.bytes.bytes
  let lock ← liftExcept (fun error => .Evaluation (.Expansion error))
    (recipe.resolveLock (← get).runtime)
  match ← deliverMessage host destination message.bytes.bytes message.status outputEnding lock
      continuation with
  | .error error => actionError error
  | .ok () => if continuation = .Stop then finalDelivery else actionSucceeded .Continue

/-- The lock of a block, if it has one. -/
def acquireBlockLock (lock : Option Bytes) : Exec σ E (Except (DeliveryAttemptError E) Unit) :=
  match lock with
  | none => pure (.ok ())
  | some path => callHost (.AcquireLocalLock path) (host.acquireLocalLock path)

/-- A block under its lock. The end of its sequence goes on behind the block. -/
def executeBlock (recipe : CompiledNode) (children : Exec σ E OrderedActionResult) :
    Exec σ E OrderedActionResult := do
  modify fun context => { context with pendingError := none }
  let lock ← liftExcept (fun error => .Evaluation (.Expansion error))
    (recipe.resolveLock (← get).runtime)
  match ← acquireBlockLock host lock with
  | .error error => actionError error
  | .ok () =>
    let (action, control) ← nested children
    return (action, if control = .SequenceComplete then .Continue else control)

/-! ### Copied blocks -/

/-- The branch of a copied block: the block, then the rest of the sequence. -/
def copyBranch (block : Exec σ E OrderedActionResult)
    (rest : ActionExecution → Exec σ E OrderedActionResult) : Exec σ E OrderedActionResult := do
  let (action, control) ← block
  if control = .Continue then rest action else return (action, control)

/-- The branch has its own message, variables and errors; what it delivers counts for both. The parent
goes on with the error of the branch as the result of the block. -/
def executeWaitedCopyBlock (branch : Exec σ E OrderedActionResult) :
    Exec σ E OrderedActionResult := fun parent =>
  let resume (after : OrderedTreeExecution σ E) : OrderedTreeExecution σ E :=
    { after with
      currentMessage := parent.currentMessage
      runtime := parent.runtime
      host := host.leaveCopyBranch after.host
      originalDelivered := parent.originalDelivered
      pendingError := parent.pendingError
      depth := parent.depth
      journal := parent.journal.resume after.journal }
  let start : OrderedTreeExecution σ E :=
    { parent with
      host := host.enterCopyBranch parent.host
      pendingError := none
      journal := parent.journal.branch }
  match branch start with
  | .error error after => .error error (resume after)
  | .ok _ after =>
    match after.pendingError with
    | some error => actionFailed error (resume after)
    | none => actionSucceeded .Continue (resume after)

/-- The context of a branch that runs beside its parent. -/
def startBranch (parent : OrderedTreeExecution σ E) (branchHost : σ) : OrderedTreeExecution σ E :=
  { parent with
    host := branchHost
    published := 0
    originalDelivered := false
    pendingError := none
    copyBudget := parent.copyBudget + 1
    journal := parent.journal.branch }

/-- The parent beside a branch that has come this far. -/
def besideBranch (parent after : OrderedTreeExecution σ E) (parentHost : σ) :
    OrderedTreeExecution σ E :=
  { parent with
    host := parentHost
    rc := after.rc
    copyBudget := after.copyBudget
    journal :=
      { parent.journal.resume after.journal with
        detached := parent.journal.detached || parent.journal.nested } }

/-- The result of the parent once the branch has been joined. Only the supervision of the branch and its
evaluation errors change it; a sequence that went well is complete. -/
def joinBranch (line published : Nat) (branch : Except (OrderedExecutionError E) Unit)
    (supervision : Except E Unit) (parent : Except (OrderedExecutionError E) OrderedActionResult)
    (after : OrderedTreeExecution σ E) :
    EStateM.Result (OrderedExecutionError E) (OrderedTreeExecution σ E) OrderedActionResult :=
  match checkedAdd after.published published with
  | none =>
    .error (.Evaluation (.BackgroundCopyUnavailable line "published destination count overflows"))
      after
  | some total =>
    let after := { after with published := total }
    match supervision, branch, parent with
    | .error error, _, _ => .error (.Delivery error) after
    | .ok (), .error (.Evaluation error), _ => .error (.Evaluation error) after
    | .ok (), _, .error error => .error error after
    | .ok (), _, .ok (action, _) => .ok (action, .SequenceComplete) after

/-- The parent beside a branch, and then joined with it. -/
def runBesideBranch (line : Nat) (branch : Except (OrderedExecutionError E) Unit)
    (ended : OrderedTreeExecution σ E) (parentHost : σ) (parent : Exec σ E OrderedActionResult) :
    Exec σ E OrderedActionResult := fun context =>
  let resume (after : OrderedTreeExecution σ E) : OrderedTreeExecution σ E :=
    { after with journal := context.journal.resume after.journal }
  let join := joinBranch line ended.published branch (host.finishBackground ended.host).1
  match parent (besideBranch context ended parentHost) with
  | .ok result after => join (.ok result) (resume after)
  | .error error after => join (.error error) (resume after)

/-- Starts a branch within the budget of the message and runs the parent beside it. -/
def executeUnwaitedCopyBlock (line : Nat) (branch parent : Exec σ E OrderedActionResult) :
    Exec σ E OrderedActionResult := fun context =>
  if context.copyBudget ≥ maxBackgroundCopyBranches then
    .error (.Evaluation (.BackgroundCopyUnavailable line
      "the limit of 128 branches per message was reached")) context
  else
    match host.forkCopyBranch context.host with
    | none =>
      .error (.Evaluation (.BackgroundCopyUnavailable line
        "the execution host cannot create an isolated branch"))
        { context with copyBudget := context.copyBudget + 1 }
    | some (branchHost, parentHost) =>
      match branch (startBranch context branchHost) with
      | .ok _ ended => runBesideBranch host line (.ok ()) ended parentHost parent context
      | .error error ended => runBesideBranch host line (.error error) ended parentHost parent context

/-! ### Sequences -/

/-- The conditions of a recipe that its gate lets through. -/
def testConditions (gate : Bool) (conditions : List CompiledCondition) : Exec σ E Bool :=
  if gate then matchesOrdered host conditions else pure false

/-- The action of a recipe whose conditions have matched or not: alone, or as a copied block with what
follows in its branch and in the parent beside it. -/
def selectAction (recipe : CompiledNode) (conditionsMatched : Bool)
    (action branch parent : Exec σ E OrderedActionResult) : Exec σ E OrderedActionResult :=
  if conditionsMatched then
    if recipe.isWaitedCopyBlock then executeWaitedCopyBlock host branch
    else if recipe.isUnwaitedCopyBlock then
      executeUnwaitedCopyBlock host recipe.line branch parent
    else action
  else pure (.NotAttempted, .Continue)

/-- The result of a sequence follows the last action that ran. -/
def sequenceAction (before action : ActionExecution) : ActionExecution :=
  if action = .NotAttempted then before else action

mutual

/-- The action of a recipe whose conditions have matched. -/
def executeOrderedAction (recipe : CompiledNode) : CompiledAction → Exec σ E OrderedActionResult
  | .Capture action options => executeCapture host action options
  | .Headers resolveWith => executeHeaders recipe.line resolveWith
  | .Pipe command options => executePipe host recipe command options
  | .Deliver destination continuation outputEnding =>
    executeDeliver host recipe destination continuation outputEnding
  | .Block children => executeBlock host recipe (executeSequence children)

/-- `execute_ordered_action` of the recipe itself. -/
def executeNode : CompiledNode → Exec σ E OrderedActionResult
  | ⟨line, statements, lock, control, continuation, childStatus, conditions, action⟩ =>
    executeOrderedAction
      ⟨line, statements, lock, control, continuation, childStatus, conditions, action⟩ action

/-- `execute_ordered_from`: the recipes from here on, then the trailing statements. `before` is the
result of the recipes already executed. -/
def executeOrderedFrom (trailing : List CompiledStatement) (state : ChainState)
    (before : ActionExecution) : List CompiledNode → Exec σ E OrderedActionResult
  | [] => do
    let control ← executeStatementsOrdered host loader child trailing
    return (before, control)
  | recipe :: rest => do
    let control ← executeStatementsOrdered host loader child recipe.precedingStatements
    if control ≠ .Continue then return (before, control)
    let gate := recipe.executionGate state.toSequenceState
    record (.Recipe recipe.control state.passed gate)
    let conditionsMatched ← testConditions host gate recipe.conditions
    let (action, control) ← selectAction host recipe conditionsMatched (executeNode recipe)
      (copyBranch (executeNode recipe) fun action =>
        executeOrderedFrom trailing (state.copy recipe action) .Succeeded rest)
      (executeOrderedFrom trailing (state.copy recipe .Succeeded) .Succeeded rest)
    let before := sequenceAction before action
    if control ≠ .Continue then return (before, control)
    executeOrderedFrom trailing (state.record recipe conditionsMatched action) before rest

/-- The recipes of a sequence from the first one on. -/
def executeSequence : CompiledSequence → Exec σ E OrderedActionResult
  | ⟨recipes, trailing⟩ =>
    executeOrderedFrom trailing ChainState.default .Succeeded recipes

end

end Sequences

/-- `execute_ordered` on a sequence, with so many levels of loaded files below it. The loader refuses a
file at a depth for which there is no level. -/
def executeSequenceOrdered {L : Type} [RcSource L] (loader : L) :
    Nat → CompiledSequence → Exec σ E OrderedActionResult
  | 0, _ => throw (.Evaluation noLevelLeft)
  | levels + 1, sequence =>
    executeSequence host loader (executeSequenceOrdered loader levels) sequence

/-! ### The plan -/

/-- A compiled root file with the limits of the messages and the loader of further files. -/
structure ExecutionPlan (L : Type := RcLoader) where
  root : CompiledSequence
  limits : MessageLimits
  loader : L

namespace ExecutionPlan

/-- The recipes must be executed one after another on the complete message. -/
def requiresOrderedDelivery {L : Type} (plan : ExecutionPlan L) (rc : RuntimeRcState) : Bool :=
  plan.root.properties.requiresOrderedDelivery || rc.dynamicOrderedDelivery

/-- Some condition may match the whole message. -/
def needsFullMatching {L : Type} (plan : ExecutionPlan L) (rc : RuntimeRcState) : Bool :=
  plan.root.properties.needsFullMatching || rc.dynamicFullMatching

/-- Some command may be run. -/
def hasExternalCommands {L : Type} (plan : ExecutionPlan L) : Bool :=
  plan.root.properties.hasExternalCommands

/-- The context in which the root sequence is started. -/
def startOrdered {L : Type} (plan : ExecutionPlan L) (message : CompleteMessage)
    (runtime : RuntimeVariables) (hostState : σ) (rc : RuntimeRcState) : OrderedTreeExecution σ E :=
  { message := message
    currentMessage := ⟨none⟩
    runtime := runtime
    host := hostState
    published := 0
    originalDelivered := false
    pendingError := none
    rc := rc
    depth := 0
    limits := plan.limits
    copyBudget := 0
    journal := Journal.new }

/-- How an execution of the root sequence ended, once the background commands have been joined. -/
def orderedResult (execution : Except (OrderedExecutionError E) Unit) (background : Except E Unit)
    (context : OrderedTreeExecution σ E) : CompletionState E :=
  match execution, background with
  | _, .error error => .error (.Delivery error)
  | .error error, .ok () => .error error
  | .ok (), .ok () =>
    match context.pendingError with
    | some error => .error (.Delivery error)
    | none => .ok ⟨context.published, context.originalDelivered⟩

/-- Joins the background commands and reports the result with the final message. -/
def finishOrdered (execution : Except (OrderedExecutionError E) Unit)
    (context : OrderedTreeExecution σ E) : CompletionState E × OrderedTreeExecution σ E :=
  let (background, joined) := host.finishBackground context.host
  let result := orderedResult execution background context
  let (runtime, hostState) :=
    host.complete (FinalMessage.new context.view).bytes.bytes result (context.runtime, joined)
  (result, { context with runtime := runtime, host := hostState })

/-- `execute_ordered`: the result, with the context that the execution leaves. -/
def executeOrdered {L : Type} [RcSource L] (plan : ExecutionPlan L) (input : MappedMessageInput)
    (runtime : RuntimeVariables) (hostState : σ) (rc : RuntimeRcState) :
    Except EvalError (CompletionState E × OrderedTreeExecution σ E) :=
  match input.completeMessage (plan.needsFullMatching rc) with
  | none => .error .BodyWasNotBuffered
  | some message =>
    match executeSequenceOrdered host plan.loader (maxRcIncludeDepth + 1) plan.root
        (plan.startOrdered message runtime hostState rc) with
    | .ok _ context => .ok (finishOrdered host (.ok ()) context)
    | .error error context => .ok (finishOrdered host (.error error) context)

/-- What a run of the plan logs. -/
def orderedLog {L : Type} [RcSource L] (plan : ExecutionPlan L) (input : MappedMessageInput)
    (runtime : RuntimeVariables) (hostState : σ) (rc : RuntimeRcState) : List (Nat × Event) :=
  match plan.executeOrdered host input runtime hostState rc with
  | .ok (_, context) => context.journal.log
  | .error _ => []

end ExecutionPlan

end ProcmailRs
