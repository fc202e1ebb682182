import ProcmailRs.Eval.Ordered
import ProcmailRs.Lib.Outcome

/-!
# What the operations of an execution log

The operations below the recipes log nothing but their calls of the host. So a relation between
contexts is kept by all of them as soon as it tolerates such a call, the loading of a file, and every
change of the variables and of the message.
-/

namespace ProcmailRs

open Outcome OrderedTreeExecution

variable {σ E : Type}

/-- The calls of the host that the parts below the deliveries make, with the operations that answer
them. -/
inductive IsOperation (host : OrderedExecutionHost σ E) :
    {ε α : Type} → HostCall → HostOperation σ ε α → Prop
  | capture (command input : Bytes) (outputEnding : OutputEnding) (options : Option RecipeOptions)
      (limit : Nat) :
      IsOperation host (.Capture command input outputEnding limit)
        (host.capture command input outputEnding options limit)
  | externalCondition (command input : Bytes) :
      IsOperation host (.ExternalCondition command input) (host.externalCondition command input)
  | replaceGlobalLock (path : Bytes) :
      IsOperation host (.ReplaceGlobalLock path) (host.replaceGlobalLock path)
  | acquireLocalLock (path : Bytes) :
      IsOperation host (.AcquireLocalLock path) (host.acquireLocalLock path)

namespace IsOperation

variable {host : OrderedExecutionHost σ E} {ε α : Type} {call : HostCall}
variable {operation : HostOperation σ ε α}

theorem not_isDelivery (h : IsOperation host call operation) : call.isDelivery = false := by
  cases h with
  | capture => rfl
  | externalCondition => rfl
  | replaceGlobalLock => rfl
  | acquireLocalLock => rfl

theorem not_isFinal (h : IsOperation host call operation) : call.isFinal = false := by
  cases h with
  | capture => rfl
  | externalCondition => rfl
  | replaceGlobalLock => rfl
  | acquireLocalLock => rfl

end IsOperation

/-- A call of the host ends in the state its operation ends in, and is logged with the answer. -/
theorem ends_callHost {ε α : Type} (call : HostCall) (operation : HostOperation σ ε α)
    (c : OrderedTreeExecution σ E) :
    Ends (callHost call operation) c
      (fun result c' => c' = c.answered call result.isOk
        (finalState (operation (c.runtime, c.host))).1
        (finalState (operation (c.runtime, c.host))).2)
      (fun _ _ => False) := by
  unfold Ends callHost
  rcases hop : operation (c.runtime, c.host) with ⟨value, runtime, hostState⟩ |
    ⟨error, runtime, hostState⟩
  · rfl
  · rfl

section Answered

variable {R : OrderedTreeExecution σ E → OrderedTreeExecution σ E → Prop}

theorem keeps_callHost {ε α : Type} {call : HostCall}
    (h : ∀ c succeeded runtime host, R c (c.answered call succeeded runtime host))
    (operation : HostOperation σ ε α) :
    Keeps R (callHost call operation : Exec σ E (Except ε α)) := by
  intro c
  refine (ends_callHost call operation c).mono ?_ fun _ _ h => h.elim
  rintro result c' rfl
  exact h _ _ _ _

theorem keeps_deliverMessage (hR : Composable R)
    (h : ∀ c call succeeded runtime host, R c (c.answered call succeeded runtime host))
    (hcount : ∀ c published, R c { c with published := published })
    (host : OrderedExecutionHost σ E) (destination : BoundDestination) (message : Bytes)
    (status : MessageStatus) (outputEnding : OutputEnding) (lock : Option Bytes)
    (continuation : ContinuationMode) :
    Keeps R
      (deliverMessage host destination message status outputEnding lock continuation) := by
  refine .bind hR (keeps_callHost (fun c => h c _) _) fun result => ?_
  exact .ite (.bind hR (keeps_modify fun c => hcount c _) fun _ => .pure hR _) (.pure hR _)

end Answered

/-- Only the variables, the message and the result of the actions have changed. -/
structure Silent (c c' : OrderedTreeExecution σ E) : Prop where
  journal : c'.journal = c.journal
  host : c'.host = c.host
  published : c'.published = c.published
  rc : c'.rc = c.rc
  depth : c'.depth = c.depth

/-- A relation between the contexts before and after that holds of every silent change, of a call of
the host and of the loading of a file. -/
structure Tolerant {L : Type} [RcSource L] (host : OrderedExecutionHost σ E) (loader : L)
    (R : OrderedTreeExecution σ E → OrderedTreeExecution σ E → Prop) : Prop
    extends Composable R where
  silent : ∀ {c c'}, Silent c c' → R c c'
  callHost : ∀ {ε α : Type} {call : HostCall} {operation : HostOperation σ ε α},
    IsOperation host call operation → Keeps R (callHost call operation : Exec σ E (Except ε α))
  loadFile : ∀ (expression : RcFileExpression) (statement : RuntimeRcStatement),
    Keeps R (loadFile loader expression statement : Exec σ E LoadedRuntimeRc)

namespace Tolerant

variable {R : OrderedTreeExecution σ E → OrderedTreeExecution σ E → Prop}

/-- A relation that says something about the journal only. -/
theorem of_journal {L : Type} [RcSource L] {host : OrderedExecutionHost σ E} {loader : L}
    (hR : Composable R)
    (hsilent : ∀ {c c'}, c'.journal = c.journal → R c c')
    (hcall : ∀ c (call : HostCall) succeeded, call.isFinal = false →
      R c { c with journal := c.journal.record (.Host call succeeded c.journal.detached) }) :
    Tolerant host loader R where
  toComposable := hR
  silent h := hsilent h.journal
  callHost := by
    intro ε α call operation hoperation c
    refine (ends_callHost call operation c).mono ?_ fun _ _ h => h.elim
    rintro result c' rfl
    exact hR.trans (hcall c call result.isOk hoperation.not_isFinal) (hsilent rfl)
  loadFile := by
    intro expression statement c
    unfold Ends OrderedTreeExecution.loadFile
    cases RcSource.load loader expression statement c.runtime c.depth c.rc with
    | ok loaded rc => exact hsilent rfl
    | error error rc => exact hsilent rfl

variable {L : Type} [RcSource L] {host : OrderedExecutionHost σ E} {loader : L}
variable (hR : Tolerant host loader R)

include hR

theorem composable : Composable R := hR.toComposable

theorem modify {g : OrderedTreeExecution σ E → OrderedTreeExecution σ E}
    (h : ∀ c, Silent c (g c)) : Keeps R (modify g : Exec σ E PUnit) :=
  keeps_modify fun c => hR.silent (h c)

theorem liftExcept {ε α : Type} (wrap : ε → OrderedExecutionError E) (x : Except ε α) :
    Keeps R (liftExcept wrap x : Exec σ E α) := by
  cases x with
  | ok value => exact .pure hR.composable value
  | error error => exact .throw hR.composable _

theorem evaluate {α : Type} (evaluation : Eval α) : Keeps R (evaluate evaluation : Exec σ E α) := by
  intro c
  unfold Ends OrderedTreeExecution.evaluate
  cases evaluation c.runtime with
  | ok value runtime => exact hR.silent ⟨rfl, rfl, rfl, rfl, rfl⟩
  | error error runtime => exact hR.silent ⟨rfl, rfl, rfl, rfl, rfl⟩

theorem actionSucceeded (control : SequenceControl) :
    Keeps R (actionSucceeded control : Exec σ E OrderedActionResult) :=
  .bind hR.composable (hR.modify fun _ => ⟨rfl, rfl, rfl, rfl, rfl⟩) fun _ => .pure hR.composable _

theorem actionFailed (error : E) : Keeps R (actionFailed error : Exec σ E OrderedActionResult) :=
  .bind hR.composable (hR.modify fun _ => ⟨rfl, rfl, rfl, rfl, rfl⟩) fun _ => .pure hR.composable _

theorem actionError (error : DeliveryAttemptError E) :
    Keeps R (actionError error : Exec σ E OrderedActionResult) := by
  cases error with
  | Recoverable error => exact hR.actionFailed error
  | Fatal error => exact .throw hR.composable _

/-! ### Commands and conditions -/

theorem runShellProgram (valueName : String) (message : Bytes) (program : ShellProgram) :
    Keeps R (runShellProgram host valueName message program) := by
  induction program with
  | done bytes assignments =>
    exact .bind hR.composable (hR.modify fun _ => ⟨rfl, rfl, rfl, rfl, rfl⟩) fun _ => .pure hR.composable _
  | fail error => exact .throw hR.composable _
  | command command remaining next ih =>
    unfold ProcmailRs.runShellProgram
    refine .bind hR.composable (hR.callHost (.capture ..)) fun result => ?_
    cases result with
    | error error => exact .throw hR.composable _
    | ok output =>
      refine .bind hR.composable (hR.liftExcept _ _) fun value => ?_
      exact .bind hR.composable (.get hR.composable) fun context => ih value context.runtime

theorem evaluateShellExpression (expression : ShellExpression) (valueName : String)
    (message : Bytes) (limit : Nat) :
    Keeps R (evaluateShellExpression host expression valueName message limit) :=
  .bind hR.composable (.get hR.composable) fun _ => hR.runShellProgram _ _ _

theorem resolveShellExpansionWith {expand : ShellExpandedCondition → Exec σ E Bytes}
    (hexpand : ∀ condition, Keeps R (expand condition)) (line : Nat) :
    ∀ (passes : Nat) (negated : Bool) (condition : ShellExpandedCondition),
      Keeps R (resolveShellExpansionWith expand (ProcmailRs.liftExcept .Evaluation) line passes
        negated condition)
  | 0, _, _ => by
    unfold ProcmailRs.resolveShellExpansionWith
    exact hR.liftExcept _ _
  | passes + 1, negated, condition => by
    unfold ProcmailRs.resolveShellExpansionWith
    refine .bind hR.composable (hexpand condition) fun expanded => ?_
    refine .bind hR.composable (hR.liftExcept _ _) fun reparsed => ?_
    cases reparsed with
    | Expanded again condition => exact resolveShellExpansionWith hexpand line passes _ condition
    | Compiled compiled => exact .pure hR.composable _

theorem resolveCondition (condition : CompiledCondition) :
    Keeps R (resolveCondition host condition) := by
  cases condition with
  | Resolved condition => exact .pure hR.composable _
  | ShellExpanded line negated condition =>
    refine hR.resolveShellExpansionWith (fun condition => ?_) line _ negated condition
    refine .bind hR.composable (.get hR.composable) fun context => ?_
    refine .bind hR.composable (hR.liftExcept _ _) fun limit => ?_
    refine .bind hR.composable (hR.evaluateShellExpression _ _ _ _) fun bytes => ?_
    exact .ite (.pure hR.composable _) (.throw hR.composable _)

theorem matchesOrderedCondition (condition : CompiledCondition) :
    Keeps R (matchesOrderedCondition host condition) := by
  refine .bind hR.composable (.get hR.composable) fun context => ?_
  refine .bind hR.composable (hR.resolveCondition condition) fun condition => ?_
  cases condition.program with
  | none => exact hR.evaluate _
  | some program =>
    refine .bind hR.composable (hR.callHost (.externalCondition ..)) fun result => ?_
    cases result with
    | ok matched => exact .pure hR.composable _
    | error error => exact .throw hR.composable _

theorem matchesOrdered (conditions : List CompiledCondition) :
    Keeps R (matchesOrdered host conditions) := by
  induction conditions with
  | nil => exact .pure hR.composable _
  | cons condition rest ih =>
    refine .bind hR.composable (hR.matchesOrderedCondition condition) fun matched => ?_
    exact .ite ih (.pure hR.composable _)

/-! ### Statements without files -/

theorem executeCommandAssignment (assignment : CompiledCommandAssignment) :
    Keeps R (executeCommandAssignment host assignment) := by
  refine .bind hR.composable (.get hR.composable) fun context => ?_
  refine .bind hR.composable (hR.liftExcept _ _) fun limit => ?_
  refine .bind hR.composable (hR.evaluateShellExpression _ _ _ _) fun value => ?_
  exact hR.evaluate _

theorem replaceGlobalLock (path : Bytes) : Keeps R (replaceGlobalLock host path) := by
  refine .bind hR.composable (hR.callHost (.replaceGlobalLock ..)) fun result => ?_
  cases result with
  | ok value => exact .pure hR.composable _
  | error error => exact .throw hR.composable _

/-- The statements that load no file. -/
theorem executeStatementOrdered {child : CompiledSequence → Exec σ E OrderedActionResult}
    {statement : CompiledStatement}
    (hinclude : ∀ expression, statement ≠ .Include expression)
    (hswitch : ∀ expression, statement ≠ .Switch expression) :
    Keeps R (executeStatementOrdered host loader child statement) := by
  cases statement with
  | CommandAssignment assignment =>
    exact .bind hR.composable (hR.executeCommandAssignment assignment) fun _ =>
      .pure hR.composable _
  | Assignment assignment =>
    refine .bind hR.composable (hR.evaluate _) fun _ => ?_
    refine .ite ?_ (.pure hR.composable _)
    refine .bind hR.composable (.get hR.composable) fun _ => ?_
    exact .bind hR.composable (hR.replaceGlobalLock _) fun _ => .pure hR.composable _
  | Unset unset =>
    refine .bind hR.composable (hR.evaluate _) fun _ => ?_
    refine .ite ?_ (.pure hR.composable _)
    exact .bind hR.composable (hR.replaceGlobalLock _) fun _ => .pure hR.composable _
  | Host assignment =>
    refine .bind hR.composable (hR.evaluate _) fun matched => ?_
    refine .ite (.pure hR.composable _) ?_
    exact .bind hR.composable (hR.modify fun _ => ⟨rfl, rfl, rfl, rfl, rfl⟩) fun _ => .pure hR.composable _
  | Include expression => exact absurd rfl (hinclude expression)
  | Switch expression => exact absurd rfl (hswitch expression)

theorem acquireBlockLock (lock : Option Bytes) : Keeps R (acquireBlockLock host lock) := by
  cases lock with
  | none => exact .pure hR.composable _
  | some path => exact hR.callHost (.acquireLocalLock ..)

/-! ### Actions that end nothing -/

theorem executeCapture (action : CaptureAction) (options : RecipeOptions) :
    Keeps R (executeCapture host action options) := by
  refine .bind hR.composable (.get hR.composable) fun context => ?_
  refine .bind hR.composable (hR.liftExcept _ _) fun limit => ?_
  refine .bind hR.composable (hR.callHost (.capture ..)) fun result => ?_
  cases result with
  | error error => exact hR.actionError error
  | ok output =>
    refine .bind hR.composable (hR.liftExcept _ _) fun value => ?_
    exact .bind hR.composable (hR.modify fun _ => ⟨rfl, rfl, rfl, rfl, rfl⟩) fun _ => hR.actionSucceeded _

theorem executeHeaders (line : Nat) (resolveWith : Lookup → Except ExpansionError HeaderAction) :
    Keeps R (executeHeaders line resolveWith : Exec σ E OrderedActionResult) := by
  refine .bind hR.composable (.get hR.composable) fun context => ?_
  refine .bind hR.composable (hR.liftExcept _ _) fun action => ?_
  refine .bind hR.composable (hR.liftExcept _ _) fun applied => ?_
  exact .bind hR.composable (hR.modify fun _ => ⟨rfl, rfl, rfl, rfl, rfl⟩) fun _ => hR.actionSucceeded _

theorem resolveDestination (destination : Destination) (message : Bytes) :
    Keeps R (resolveDestination host destination message) := by
  unfold ProcmailRs.resolveDestination
  cases destination.commandExpression with
  | none =>
    exact .bind hR.composable (.get hR.composable) fun context => hR.liftExcept _ _
  | some expression =>
    refine .bind hR.composable (.get hR.composable) fun context => ?_
    refine .bind hR.composable (hR.liftExcept _ _) fun limit => ?_
    refine .bind hR.composable (hR.evaluateShellExpression _ _ _ _) fun source => ?_
    refine .ite (.bind hR.composable (.throw hR.composable _) fun _ => ?_) ?_
    · exact .bind hR.composable (.get hR.composable) fun context => hR.liftExcept _ _
    · exact .bind hR.composable (.get hR.composable) fun context => hR.liftExcept _ _

end Tolerant

/-- Joining the branch logs nothing, and a parent that went well is complete. -/
theorem joinBranch_cases (line published : Nat) (branch : Except (OrderedExecutionError E) Unit)
    (supervision : Except E Unit) (parent : Except (OrderedExecutionError E) OrderedActionResult)
    (after : OrderedTreeExecution σ E) :
    (∃ error after', joinBranch line published branch supervision parent after =
      .error error after' ∧ after'.journal = after.journal) ∨
    ∃ action control after', parent = .ok (action, control) ∧
      joinBranch line published branch supervision parent after =
        .ok (action, .SequenceComplete) after' ∧ after'.journal = after.journal := by
  unfold joinBranch
  cases checkedAdd after.published published with
  | none => exact .inl ⟨_, _, rfl, rfl⟩
  | some total =>
    rcases supervision with error | ⟨⟩
    · exact .inl ⟨_, _, rfl, rfl⟩
    · rcases branch with (error | error) | ⟨⟩
      · exact .inl ⟨_, _, rfl, rfl⟩
      · rcases parent with error | ⟨action, control⟩
        · exact .inl ⟨_, _, rfl, rfl⟩
        · exact .inr ⟨_, _, _, rfl, rfl, rfl⟩
      · rcases parent with error | ⟨action, control⟩
        · exact .inl ⟨_, _, rfl, rfl⟩
        · exact .inr ⟨_, _, _, rfl, rfl, rfl⟩

/-- The log of a whole run is that of the root sequence. -/
theorem orderedLog_cases {L : Type} [RcSource L] (plan : ExecutionPlan L) (host : OrderedExecutionHost σ E)
    (input : MappedMessageInput) (runtime : RuntimeVariables) (hostState : σ)
    (rc : RuntimeRcState) :
    plan.orderedLog host input runtime hostState rc = [] ∨
    ∃ message, Ends (executeSequenceOrdered host plan.loader (maxRcIncludeDepth + 1) plan.root)
      (plan.startOrdered message runtime hostState rc)
      (fun _ after => plan.orderedLog host input runtime hostState rc = after.journal.log)
      (fun _ after => plan.orderedLog host input runtime hostState rc = after.journal.log) := by
  unfold ExecutionPlan.orderedLog ExecutionPlan.executeOrdered
  cases input.completeMessage (plan.needsFullMatching rc) with
  | none => exact .inl rfl
  | some message =>
    refine .inr ⟨message, ?_⟩
    unfold Ends
    cases hrun : executeSequenceOrdered host plan.loader (maxRcIncludeDepth + 1) plan.root
        (plan.startOrdered message runtime hostState rc) with
    | ok a after =>
      simp only [hrun]
      rfl
    | error e after =>
      simp only [hrun]
      rfl

/-! ### A host that accepts everything -/

/-- Every delivery and every command succeeds, and nothing else changes. -/
def acceptingHost : OrderedExecutionHost Unit Unit where
  deliver _ _ _ _ _ := pure ()
  externalAction _ _ _ _ := pure none
  capture _ _ _ _ _ := pure []
  externalCondition _ _ := pure true
  replaceGlobalLock _ := pure ()
  acquireLocalLock _ := pure ()
  enterCopyBranch := id
  leaveCopyBranch := id
  forkCopyBranch _ := some ((), ())
  finishBackground _ := (.ok (), ())
  complete _ _ := id

/-- A Maildir with a fixed path. -/
def maildir (path : String) : Destination where
  kind := .Maildir
  line := 1
  needsRuntimeVariables := false
  commandExpression := none
  bindWith _ := .ok ⟨.Maildir, strBytes path⟩
  resolveOrderedOutput _ _ := .ok ⟨.Maildir, strBytes path⟩

/-- A recipe without conditions. -/
def plainRecipe (control : ControlFlow) (continuation : ContinuationMode) (action : CompiledAction) :
    CompiledNode :=
  ⟨1, [], none, control, continuation, .Ignore, [], action⟩

/-- A plan that fits every small message and loads no files. -/
def smallPlan (recipes : List CompiledNode) : ExecutionPlan :=
  ⟨⟨recipes, []⟩, ⟨1000, 1000, 1000, 1000, 1000⟩, none⟩

end ProcmailRs
