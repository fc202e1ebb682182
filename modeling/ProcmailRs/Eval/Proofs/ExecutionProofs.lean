import ProcmailRs.Eval.Proofs.JournalProofs

/-!
# What the execution of recipes keeps

A relation between contexts that is kept by the parts below the recipes, by a delivery and a pipe, by
what is logged of a recipe, and around blocks, loaded files and branches, is kept by the execution as a
whole: by every sequence, however it ends.
-/

namespace ProcmailRs

open Outcome OrderedTreeExecution

variable {σ E : Type}

/-! ### Relations that are kept -/

/-- The context in which the branch of a waited block starts. -/
def waitedBranch (host : OrderedExecutionHost σ E) (parent : OrderedTreeExecution σ E) :
    OrderedTreeExecution σ E :=
  { parent with
    host := host.enterCopyBranch parent.host
    pendingError := none
    journal := parent.journal.branch }

/-- The context of the parent once the branch has ended in `after`. -/
def afterWaited (host : OrderedExecutionHost σ E) (parent after : OrderedTreeExecution σ E) :
    OrderedTreeExecution σ E :=
  { after with
    currentMessage := parent.currentMessage
    runtime := parent.runtime
    host := host.leaveCopyBranch after.host
    originalDelivered := parent.originalDelivered
    pendingError := parent.pendingError
    depth := parent.depth
    journal := parent.journal.resume after.journal }

/-- The context of the parent with so many deliveries, its journal back where it was. -/
def joined (parent after : OrderedTreeExecution σ E) (published : Nat) : OrderedTreeExecution σ E :=
  { after with journal := parent.journal.resume after.journal, published := published }

/-- A relation that is kept by the execution of every sequence. -/
structure Persistent {L : Type} [RcSource L] (host : OrderedExecutionHost σ E) (loader : L)
    (R : OrderedTreeExecution σ E → OrderedTreeExecution σ E → Prop) : Prop
    extends Tolerant host loader R where
  statement : ∀ c, R c { c with journal := c.journal.record .Statement }
  recipe : ∀ c (recipe : CompiledNode) (state : ChainState),
    R c { c with
      journal := c.journal.record
        (.Recipe recipe.control state.passed (recipe.executionGate state.toSequenceState)) }
  deliver : ∀ destination message status outputEnding lock continuation,
    Keeps R (deliverMessage host destination message status outputEnding lock continuation)
  externalAction : ∀ command options lock input,
    Keeps R (OrderedTreeExecution.callHost (.ExternalAction command options lock input)
      (host.externalAction command options lock input) : Exec σ E _)
  nested : ∀ {c c'}, R { c with journal := { c.journal with nested := true } } c' →
    R c { c' with journal := c.journal.resume c'.journal }
  file : ∀ {c c'} path,
    R { c with
        depth := c.depth + 1
        runtime := { c.runtime with currentRcFile := some path } } c' →
    R c { c' with
      depth := c.depth
      runtime := { c'.runtime with currentRcFile := c.runtime.currentRcFile } }
  waited : ∀ {c c'}, R (waitedBranch host c) c' → R c (afterWaited host c c')
  unwaited : ∀ {c ended after branchHost parentHost},
    host.forkCopyBranch c.host = some (branchHost, parentHost) →
    R (startBranch c branchHost) ended → R (besideBranch c ended parentHost) after →
    ∀ published, checkedAdd after.published ended.published = some published ∨
      checkedAdd after.published ended.published = none ∧ published = after.published →
    R c (joined c after published)

/-! ### Around other runs -/

section Around

variable {R : OrderedTreeExecution σ E → OrderedTreeExecution σ E → Prop}

theorem keeps_within {α : Type} {body : Exec σ E α} (h : Keeps R body)
    {enter : OrderedTreeExecution σ E → OrderedTreeExecution σ E}
    {leave : OrderedTreeExecution σ E → OrderedTreeExecution σ E → OrderedTreeExecution σ E}
    (hleave : ∀ {c c'}, R (enter c) c' → R c (leave c c')) :
    Keeps R (within enter leave body) := by
  intro c
  have hbody := h (enter c)
  unfold Ends at hbody ⊢
  unfold within
  split at hbody
  · rename_i heq
    simp only [heq]
    exact hleave hbody
  · rename_i heq
    simp only [heq]
    exact hleave hbody

/-- Joining a branch changes the number of deliveries at most. -/
theorem ends_joinBranch {c after : OrderedTreeExecution σ E} {published : Nat} (line : Nat)
    (branch : Except (OrderedExecutionError E) Unit) (supervision : Except E Unit)
    (parent : Except (OrderedExecutionError E) OrderedActionResult)
    (h : ∀ total, checkedAdd after.published published = some total ∨
      checkedAdd after.published published = none ∧ total = after.published →
      R c (joined c after total)) :
    Ends (joinBranch line published branch supervision parent)
      { after with journal := c.journal.resume after.journal } (fun _ c' => R c c')
      (fun _ c' => R c c') := by
  unfold Ends joinBranch
  cases hadd : checkedAdd after.published published with
  | none =>
    exact h after.published (.inr ⟨hadd, rfl⟩)
  | some total =>
    have htotal := h total (.inl hadd)
    rcases supervision with error | ⟨⟩
    · exact htotal
    · rcases branch with (error | error) | ⟨⟩
      · exact htotal
      · rcases parent with error | ⟨action, control⟩
        · exact htotal
        · exact htotal
      · rcases parent with error | ⟨action, control⟩
        · exact htotal
        · exact htotal

end Around

namespace Persistent

variable {L : Type} [RcSource L] {host : OrderedExecutionHost σ E} {loader : L}
variable {R : OrderedTreeExecution σ E → OrderedTreeExecution σ E → Prop}
variable (hR : Persistent host loader R)

include hR

theorem keeps_nested {α : Type} {body : Exec σ E α} (h : Keeps R body) :
    Keeps R (OrderedTreeExecution.nested body) := by
  unfold OrderedTreeExecution.nested
  exact ProcmailRs.keeps_within h hR.nested

theorem executeRuntimeRc {path : Bytes} {child : Exec σ E OrderedActionResult}
    (h : Keeps R child) : Keeps R (executeRuntimeRc path child) := by
  unfold OrderedTreeExecution.executeRuntimeRc
  exact ProcmailRs.keeps_within (hR.keeps_nested h) (hR.file path)

theorem finalDelivery : Keeps R (finalDelivery : Exec σ E OrderedActionResult) := by
  refine .bind hR.composable (hR.modify fun _ => ⟨rfl, rfl, rfl, rfl, rfl⟩) fun _ => ?_
  exact hR.actionSucceeded _

/-! ### Statements and actions -/

theorem executeStatement {child : CompiledSequence → Exec σ E OrderedActionResult}
    (hchild : ∀ sequence, Keeps R (child sequence)) (statement : CompiledStatement) :
    Keeps R (ProcmailRs.executeStatementOrdered host loader child statement) := by
  cases statement with
  | Include expression =>
    refine .bind hR.composable (hR.loadFile expression _) fun loaded => ?_
    cases loaded with
    | Empty => exact .pure hR.composable _
    | Failed => exact .pure hR.composable _
    | Sequence path sequence =>
      exact .bind hR.composable (hR.executeRuntimeRc (hchild sequence)) fun _ =>
        .pure hR.composable _
  | Switch expression =>
    refine .bind hR.composable (hR.loadFile expression _) fun loaded => ?_
    cases loaded with
    | Empty => exact .pure hR.composable _
    | Failed => exact .pure hR.composable _
    | Sequence path sequence =>
      exact .bind hR.composable (hR.executeRuntimeRc (hchild sequence)) fun _ =>
        .pure hR.composable _
  | _ => exact hR.executeStatementOrdered (by simp) (by simp)

theorem executeStatementsOrdered {child : CompiledSequence → Exec σ E OrderedActionResult}
    (hchild : ∀ sequence, Keeps R (child sequence)) (statements : List CompiledStatement) :
    Keeps R (executeStatementsOrdered host loader child statements) := by
  induction statements with
  | nil => exact .pure hR.composable _
  | cons statement rest ih =>
    refine .bind hR.composable (keeps_modify hR.statement) fun _ => ?_
    refine .bind hR.composable (hR.executeStatement hchild statement) fun control => ?_
    exact .ite ih (.pure hR.composable _)

theorem executePipe (recipe : CompiledNode) (command : Bytes) (options : RecipeOptions) :
    Keeps R (executePipe host recipe command options) := by
  refine .bind hR.composable (.get hR.composable) fun context => ?_
  refine .bind hR.composable (hR.liftExcept _ _) fun lock => ?_
  refine .bind hR.composable (hR.externalAction _ _ _ _) fun result => ?_
  cases result with
  | error error => exact hR.actionError error
  | ok replacement =>
    refine .ite ?_ (.ite (.throw hR.composable _) (.ite hR.finalDelivery ?_))
    · cases replacement with
      | none => exact .throw hR.composable _
      | some message =>
        exact .bind hR.composable (hR.modify fun _ => ⟨rfl, rfl, rfl, rfl, rfl⟩) fun _ =>
          hR.actionSucceeded _
    · exact hR.actionSucceeded _

theorem executeDeliver (recipe : CompiledNode) (destination : Destination)
    (continuation : ContinuationMode) (outputEnding : OutputEnding) :
    Keeps R (executeDeliver host recipe destination continuation outputEnding) := by
  refine .bind hR.composable (.get hR.composable) fun context => ?_
  refine .bind hR.composable (hR.resolveDestination _ _) fun destination => ?_
  refine .bind hR.composable (.get hR.composable) fun context => ?_
  refine .bind hR.composable (hR.liftExcept _ _) fun lock => ?_
  refine .bind hR.composable (hR.deliver _ _ _ _ _ _) fun result => ?_
  cases result with
  | error error => exact hR.actionError error
  | ok value => exact .ite hR.finalDelivery (hR.actionSucceeded _)

theorem executeBlock (recipe : CompiledNode) {children : Exec σ E OrderedActionResult}
    (h : Keeps R children) : Keeps R (executeBlock host recipe children) := by
  refine .bind hR.composable (hR.modify fun _ => ⟨rfl, rfl, rfl, rfl, rfl⟩) fun _ => ?_
  refine .bind hR.composable (.get hR.composable) fun context => ?_
  refine .bind hR.composable (hR.liftExcept _ _) fun lock => ?_
  refine .bind hR.composable (hR.acquireBlockLock lock) fun locked => ?_
  cases locked with
  | error error => exact hR.actionError error
  | ok value => exact .bind hR.composable (hR.keeps_nested h) fun _ => .pure hR.composable _

/-! ### Branches -/

theorem copyBranch {block : Exec σ E OrderedActionResult}
    {rest : ActionExecution → Exec σ E OrderedActionResult} (hblock : Keeps R block)
    (hrest : ∀ action, Keeps R (rest action)) : Keeps R (copyBranch block rest) := by
  refine .bind hR.composable hblock ?_
  rintro ⟨action, control⟩
  exact .ite (hrest action) (.pure hR.composable _)

theorem executeWaitedCopyBlock {branch : Exec σ E OrderedActionResult} (h : Keeps R branch) :
    Keeps R (executeWaitedCopyBlock host branch) := by
  intro c
  have hbranch := h (waitedBranch host c)
  unfold Ends at hbranch ⊢
  unfold ProcmailRs.executeWaitedCopyBlock
  cases hrun : branch (waitedBranch host c) with
  | ok value after =>
    rw [hrun] at hbranch
    simp only [waitedBranch] at hrun
    simp only [hrun]
    have hwaited := hR.waited hbranch
    cases after.pendingError with
    | none => exact hR.trans hwaited (hR.silent ⟨rfl, rfl, rfl, rfl, rfl⟩)
    | some error => exact hR.trans hwaited (hR.silent ⟨rfl, rfl, rfl, rfl, rfl⟩)
  | error error after =>
    rw [hrun] at hbranch
    simp only [waitedBranch] at hrun
    simp only [hrun]
    exact hR.waited hbranch

theorem runBesideBranch {line : Nat} {branch : Except (OrderedExecutionError E) Unit}
    {parent : Exec σ E OrderedActionResult} (h : Keeps R parent)
    {c ended : OrderedTreeExecution σ E} {branchHost parentHost : σ}
    (hfork : host.forkCopyBranch c.host = some (branchHost, parentHost))
    (hended : R (startBranch c branchHost) ended) :
    Ends (runBesideBranch host line branch ended parentHost parent) c (fun _ c' => R c c')
      (fun _ c' => R c c') := by
  have hparent := h (besideBranch c ended parentHost)
  unfold Ends at hparent ⊢
  unfold ProcmailRs.runBesideBranch
  cases hrun : parent (besideBranch c ended parentHost) with
  | ok result after =>
    rw [hrun] at hparent
    exact ends_joinBranch _ _ _ _ (hR.unwaited hfork hended hparent)
  | error error after =>
    rw [hrun] at hparent
    exact ends_joinBranch _ _ _ _ (hR.unwaited hfork hended hparent)

theorem executeUnwaitedCopyBlock {line : Nat} {branch parent : Exec σ E OrderedActionResult}
    (hbranch : Keeps R branch) (hparent : Keeps R parent) :
    Keeps R (executeUnwaitedCopyBlock host line branch parent) := by
  intro c
  dsimp only [ProcmailRs.executeUnwaitedCopyBlock, Ends]
  split_ifs with hbudget
  · exact hR.refl c
  · cases hfork : host.forkCopyBranch c.host with
    | none => exact hR.silent ⟨rfl, rfl, rfl, rfl, rfl⟩
    | some hosts =>
      have hrun := hbranch (startBranch c hosts.1)
      unfold Ends at hrun
      split at hrun
      · rename_i heq
        simp only [heq]
        exact hR.runBesideBranch hparent hfork hrun
      · rename_i heq
        simp only [heq]
        exact hR.runBesideBranch hparent hfork hrun

theorem selectAction {recipe : CompiledNode} {conditionsMatched : Bool}
    {action branch parent : Exec σ E OrderedActionResult} (haction : Keeps R action)
    (hbranch : Keeps R branch) (hparent : Keeps R parent) :
    Keeps R (selectAction host recipe conditionsMatched action branch parent) :=
  .ite (.ite (hR.executeWaitedCopyBlock hbranch)
    (.ite (hR.executeUnwaitedCopyBlock hbranch hparent) haction))
    (.pure hR.composable _)

/-! ### Sequences -/

section Sequences

variable {child : CompiledSequence → Exec σ E OrderedActionResult}
variable (hchild : ∀ sequence, Keeps R (child sequence))

include hchild

omit hR hchild

mutual

theorem executeOrderedAction (hR : Persistent host loader R)
    (hchild : ∀ sequence, Keeps R (child sequence)) (recipe : CompiledNode) :
    ∀ action : CompiledAction, Keeps R (executeOrderedAction host loader child recipe action)
  | .Capture action options => by
    unfold ProcmailRs.executeOrderedAction
    exact hR.executeCapture action options
  | .Headers resolveWith => by
    unfold ProcmailRs.executeOrderedAction
    exact hR.executeHeaders recipe.line resolveWith
  | .Pipe command options => by
    unfold ProcmailRs.executeOrderedAction
    exact hR.executePipe recipe command options
  | .Deliver destination continuation outputEnding => by
    unfold ProcmailRs.executeOrderedAction
    exact hR.executeDeliver recipe destination continuation outputEnding
  | .Block children => by
    unfold ProcmailRs.executeOrderedAction
    exact hR.executeBlock recipe (executeSequence hR hchild children)

theorem executeNode (hR : Persistent host loader R)
    (hchild : ∀ sequence, Keeps R (child sequence)) :
    ∀ recipe : CompiledNode, Keeps R (executeNode host loader child recipe)
  | ⟨_, _, _, _, _, _, _, action⟩ => by
    unfold ProcmailRs.executeNode
    exact executeOrderedAction hR hchild _ action

theorem executeOrderedFrom (hR : Persistent host loader R)
    (hchild : ∀ sequence, Keeps R (child sequence)) (trailing : List CompiledStatement) :
    ∀ (recipes : List CompiledNode) (state : ChainState) (before : ActionExecution),
      Keeps R (executeOrderedFrom host loader child trailing state before recipes)
  | [], state, before => by
    unfold ProcmailRs.executeOrderedFrom
    exact .bind hR.composable (hR.executeStatementsOrdered hchild _) fun _ => .pure hR.composable _
  | recipe :: rest, state, before => by
    unfold ProcmailRs.executeOrderedFrom
    refine .bind hR.composable (hR.executeStatementsOrdered hchild _) fun control => ?_
    refine .ite (.pure hR.composable _) ?_
    refine .bind hR.composable (keeps_modify fun c => hR.recipe c recipe state) fun _ => ?_
    refine .bind hR.composable (.ite (hR.matchesOrdered _) (.pure hR.composable _)) fun matched => ?_
    refine .bind hR.composable (hR.selectAction (executeNode hR hchild recipe)
      (hR.copyBranch (executeNode hR hchild recipe) fun action =>
        executeOrderedFrom hR hchild trailing rest _ _)
      (executeOrderedFrom hR hchild trailing rest _ _)) ?_
    rintro ⟨action, control⟩
    exact .ite (.pure hR.composable _) (executeOrderedFrom hR hchild trailing rest _ _)

theorem executeSequence (hR : Persistent host loader R)
    (hchild : ∀ sequence, Keeps R (child sequence)) : ∀ sequence : CompiledSequence,
    Keeps R (executeSequence host loader child sequence)
  | ⟨recipes, trailing⟩ => by
    unfold ProcmailRs.executeSequence
    exact executeOrderedFrom hR hchild trailing recipes _ _

end

end Sequences

theorem executeSequenceOrdered : ∀ (levels : Nat) (sequence : CompiledSequence),
    Keeps R (executeSequenceOrdered host loader levels sequence)
  | 0, _ => .throw hR.composable _
  | levels + 1, sequence => hR.executeSequence (executeSequenceOrdered levels) sequence

end Persistent

end ProcmailRs
