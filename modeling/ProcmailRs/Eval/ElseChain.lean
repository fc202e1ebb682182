import ProcmailRs.Eval.Header

/-!
# Sequences by the chain

The sequences once more, as they should treat an `E` recipe: whether it is attempted is read off the
recipes that the path has left behind, and one that is not attempted is left behind at once, without a
test or an action. Everything else is that of the executor and of the two planners.
-/

namespace ProcmailRs

/-- Whether a recipe is attempted in order. An `E` recipe waits for a chain that has not been handled;
where a copied block has been dropped from the chain, it does not wait. -/
def CompiledNode.attempted (recipe : CompiledNode) (state : ChainState) : Bool :=
  if recipe.control = .Else then !handled state.passed || dropped state.passed
  else recipe.executionGate state.toSequenceState

/-- Whether a recipe is attempted while deliveries are planned. -/
def CompiledNode.attemptedPlanning (recipe : CompiledNode) (state : PlanningState) : Bool :=
  if recipe.control = .Else then !handled state.passed
  else recipe.planningGate state.toSequenceState

/-! ### Execution in order -/

section Ordered

open OrderedTreeExecution

variable {σ E L : Type} [RcSource L] (host : OrderedExecutionHost σ E) (loader : L)
variable (child : CompiledSequence → Exec σ E OrderedActionResult)

/-- The recipes from here on by the chain, then the trailing statements. -/
def executeByChain (trailing : List CompiledStatement) (state : ChainState)
    (before : ActionExecution) : List CompiledNode → Exec σ E OrderedActionResult
  | [] => do
    let control ← executeStatementsOrdered host loader child trailing
    return (before, control)
  | recipe :: rest => do
    let control ← executeStatementsOrdered host loader child recipe.precedingStatements
    if control ≠ .Continue then return (before, control)
    record (.Recipe recipe.control state.passed (recipe.attempted state))
    if recipe.attempted state then
      let conditionsMatched ← matchesOrdered host recipe.conditions
      let node := executeNode host loader child recipe
      let (action, control) ← selectAction host recipe conditionsMatched node
        (copyBranch node fun action =>
          executeByChain trailing (state.copy recipe action) .Succeeded rest)
        (executeByChain trailing (state.copy recipe .Succeeded) .Succeeded rest)
      let before := sequenceAction before action
      if control ≠ .Continue then return (before, control)
      executeByChain trailing (state.record recipe conditionsMatched action) before rest
    else
      executeByChain trailing (state.record recipe false .NotAttempted) before rest

/-- A sequence by the chain. -/
def executeSequenceByChain (sequence : CompiledSequence) : Exec σ E OrderedActionResult :=
  executeByChain host loader child sequence.trailingStatements .default .Succeeded sequence.recipes

end Ordered

/-! ### Planning for the complete message -/

section Complete

open CompletePlanContext

variable {L : Type} [RcSource L] (loader : L) (child : CompiledSequence → CompletePlan SequenceControl)

/-- The recipes from here on by the chain, then the trailing statements. -/
def planByChain (trailing : List CompiledStatement) (state : PlanningState) :
    List CompiledNode → CompletePlan SequenceControl
  | [] => planStatementsComplete loader child trailing
  | recipe :: rest => do
    let control ← planStatementsComplete loader child recipe.precedingStatements
    if control ≠ .Continue then return control
    if recipe.attemptedPlanning state then
      let conditionsMatched ← fun context =>
        evaluate (matchesComplete context.message recipe.conditions) context
      let control ← planSelected conditionsMatched
        (planNode loader child (hasErrorHandler rest) recipe)
      if control ≠ .Continue then return control
      planByChain trailing
        (state.record recipe conditionsMatched (plannedExecution conditionsMatched)) rest
    else planByChain trailing (state.record recipe false .NotAttempted) rest

/-- A sequence by the chain. -/
def planSequenceByChain (sequence : CompiledSequence) : CompletePlan SequenceControl :=
  planByChain loader child sequence.trailingStatements .default sequence.recipes

/-- The deepest recipe of a path of frames by the chain. -/
def resumeRecipeByChain (frame : ContinuationFrame) (recipe : CompiledNode)
    (rest : List CompiledNode) : CompletePlan (Bool × SequenceControl) :=
  if recipe.attemptedPlanning frame.state then do
    let conditionsMatched ← fun context =>
      evaluate (matchesResumed context.message frame.conditionResults recipe.conditions) context
    let control ← planSelected conditionsMatched
      (planNode loader child (hasErrorHandler rest) recipe)
    return (conditionsMatched, control)
  else return (false, .Continue)

/-- A path of frames by the chain. -/
def resumeByChain : List ContinuationFrame → CompiledSequence → CompletePlan SequenceControl
  | [], _ => throw .BodyWasNotBuffered
  | frame :: frames, sequence =>
    match sequence.recipes.drop frame.recipeIndex with
    | [] => throw .BodyWasNotBuffered
    | recipe :: rest => do
      let control ← resumeStatements frame recipe.precedingStatements
      if control ≠ .Continue then return control
      let (conditionsMatched, control) ←
        (match frames, recipe.action with
        | [], _ => resumeRecipeByChain loader child frame recipe rest
        | _ :: _, .Block children => do
          let control ← resumeByChain frames children
          return (true, control)
        | _ :: _, _ => throw .BodyWasNotBuffered)
      if control ≠ .Continue then return control
      planByChain loader child sequence.trailingStatements
        (frame.state.record recipe conditionsMatched (plannedExecution conditionsMatched)) rest

end Complete

/-! ### Planning on the header -/

section Header

open HeaderPlanContext

variable {κ E L : Type} [RcSource L] (loader : L)
variable (child : CompiledSequence → InputRequirements → HeaderPlan κ E HeaderControl)
variable (capture : HeaderCaptureExecutor κ E)

/-- The recipes from position `index` on by the chain, then the trailing statements. -/
def planHeadersByChain (trailing : List CompiledStatement) (following : InputRequirements)
    (state : PlanningState) (index : Nat) : List CompiledNode → HeaderPlan κ E HeaderControl
  | [] => planStatementsHeaders loader child following trailing
  | recipe :: rest => do
    let needed := (requirementsFrom (recipe :: rest) trailing).union following
    let control ← planStatementsHeaders loader child needed recipe.precedingStatements
    if control ≠ .Continue then return control
    if recipe.attemptedPlanning state then
      let (matched, results) ← testHeaders true recipe.conditions
      let conditionsMatched := matched == .True
      if matched = .Deferred ∨
          (conditionsMatched && recipe.action.deliveryDefersHeader) = true then
        deferAt ⟨index, state, results, true⟩ needed
      else
        let (action, control) ← planHeaderSelected conditionsMatched
          (planHeadersNode loader child capture ⟨index, state, [], true⟩
            ((requirementsFrom rest trailing).union following) (hasErrorHandler rest) recipe)
        if control = .Deferred then return .Deferred
        clearPendingError action
        if control ≠ .Continue then return control
        planHeadersByChain trailing following (state.record recipe conditionsMatched action)
          (index + 1) rest
    else
      planHeadersByChain trailing following (state.record recipe false .NotAttempted) (index + 1) rest

/-- A sequence by the chain. -/
def planHeadersSequenceByChain (following : InputRequirements) (sequence : CompiledSequence) :
    HeaderPlan κ E HeaderControl :=
  planHeadersByChain loader child capture sequence.trailingStatements following .default 0
    sequence.recipes

end Header

end ProcmailRs
