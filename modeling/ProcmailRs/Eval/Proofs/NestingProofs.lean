import ProcmailRs.Eval.Header
import ProcmailRs.Eval.Proofs.ExecutionProofs

/-!
# How deep files are nested

A sequence at depth `d` runs the files it loads at depth `d + 1`, and comes back to depth `d`. A file is
loaded down to a fixed depth only, so as many levels as there are depths left are enough: what a level
further down would do is never asked for.
-/

namespace ProcmailRs

open Outcome

variable {L : Type} [RcSource L]

/-- There are levels for a sequence at depth `d` and for all files below it. -/
def EnoughLevels (levels d : Nat) : Prop := d ≤ maxRcIncludeDepth ∧ maxRcIncludeDepth < levels + d

theorem EnoughLevels.succ {levels d : Nat} (h : EnoughLevels levels d) :
    ∃ below, levels = below + 1 ∧ (d + 1 ≤ maxRcIncludeDepth → EnoughLevels below (d + 1)) := by
  obtain ⟨hd, hlevels⟩ := h
  refine ⟨levels - 1, by omega, fun h => ⟨h, by omega⟩⟩

/-! ### Execution in order -/

/-- Where a file may still be loaded, both ways to execute what was loaded agree. -/
def LoadedAgree {ε γ α : Type} (P : γ → Prop) (d : Nat)
    (child child' : CompiledSequence → EStateM ε γ α) : Prop :=
  d + 1 ≤ maxRcIncludeDepth → ∀ sequence, Agrees P (child sequence) (child' sequence)

/-- The same for the plan over the header, which is given what follows the file. -/
def LoadedHeadersAgree {ε γ α : Type} (P : γ → Prop) (d : Nat)
    (child child' : CompiledSequence → InputRequirements → EStateM ε γ α) : Prop :=
  d + 1 ≤ maxRcIncludeDepth → ∀ sequence following,
    Agrees P (child sequence following) (child' sequence following)

section Ordered

open OrderedTreeExecution

variable {σ E : Type}

/-- The depth is the same, and the transitions in between have been counted. -/
structure Progress (c c' : OrderedTreeExecution σ E) : Prop where
  depth : c'.depth = c.depth
  mono : c.rc.transitions ≤ c'.rc.transitions
  bounded : c'.rc.transitions ≤ max c.rc.transitions maxRcTransitions

theorem Progress.of_eq {c c' : OrderedTreeExecution σ E} (hdepth : c'.depth = c.depth)
    (hrc : c'.rc = c.rc) : Progress c c' :=
  ⟨hdepth, by rw [hrc], by rw [hrc]; exact le_max_left _ _⟩

theorem composable_progress : Composable (Progress : OrderedTreeExecution σ E → _ → Prop) where
  refl c := .of_eq rfl rfl
  trans h h' := by
    refine ⟨h'.depth.trans h.depth, h.mono.trans h'.mono, h'.bounded.trans ?_⟩
    exact max_le h.bounded (le_max_right _ _)

theorem keeps_progress_loadFile (loader : L) (expression : RcFileExpression)
    (statement : RuntimeRcStatement) :
    Keeps Progress (loadFile loader expression statement : Exec σ E LoadedRuntimeRc) := by
  intro c
  have hcounts := RcSource.counts loader expression statement c.runtime c.depth c.rc
  have hcounted {rc : RuntimeRcState} (h : Counted c.rc rc) : Progress c { c with rc := rc } :=
    ⟨rfl, by rw [h.counted]; exact Nat.le_succ _, h.bounded.trans (le_max_right _ _)⟩
  unfold Ends at hcounts ⊢
  unfold loadFile
  cases hload : RcSource.load loader expression statement c.runtime c.depth c.rc with
  | ok loaded rc =>
    rw [hload] at hcounts
    exact hcounted hcounts
  | error error rc =>
    rw [hload] at hcounts
    rcases hcounts with hcounts | ⟨rfl, -⟩
    · exact hcounted hcounts
    · exact .of_eq rfl rfl

theorem tolerant_progress (host : OrderedExecutionHost σ E) (loader : L) :
    Tolerant host loader Progress where
  toComposable := composable_progress
  silent h := .of_eq h.depth h.rc
  callHost _ := keeps_callHost (fun _ _ _ _ => .of_eq rfl rfl) _
  loadFile := keeps_progress_loadFile loader

theorem persistent_progress (host : OrderedExecutionHost σ E) (loader : L) :
    Persistent host loader Progress where
  toTolerant := tolerant_progress host loader
  statement _ := .of_eq rfl rfl
  recipe _ _ _ := .of_eq rfl rfl
  deliver := keeps_deliverMessage composable_progress (fun _ _ _ _ _ => .of_eq rfl rfl)
    (fun _ _ => .of_eq rfl rfl) host
  externalAction _ _ _ _ := keeps_callHost (fun _ _ _ _ => .of_eq rfl rfl) _
  nested h := ⟨h.depth, h.mono, h.bounded⟩
  file _ h := ⟨rfl, h.mono, h.bounded⟩
  waited h := ⟨rfl, h.mono, h.bounded⟩
  unwaited := by
    intro c ended after branchHost parentHost _ hended hafter published _
    refine ⟨hafter.depth, hended.mono.trans hafter.mono, hafter.bounded.trans ?_⟩
    exact max_le hended.bounded (le_max_right _ _)

/-- The contexts of the sequences at one depth. -/
def AtDepth (d : Nat) (c : OrderedTreeExecution σ E) : Prop := c.depth = d

variable (host : OrderedExecutionHost σ E) (loader : L) {d : Nat}

theorem agrees_of_progress {α : Type} {m : Exec σ E α} (h : Keeps Progress m) :
    Agrees (AtDepth d) m m :=
  .of_keeps h fun hprogress hdepth => hprogress.depth.trans hdepth

theorem agrees_within {α : Type} {body body' : Exec σ E α}
    {P P' : OrderedTreeExecution σ E → Prop}
    {enter : OrderedTreeExecution σ E → OrderedTreeExecution σ E}
    {leave : OrderedTreeExecution σ E → OrderedTreeExecution σ E → OrderedTreeExecution σ E}
    (h : Agrees P' body body') (henter : ∀ c, P c → P' (enter c))
    (hleave : ∀ c c', P c → P' c' → P (leave c c')) :
    Agrees P (within enter leave body) (within enter leave body') := by
  intro c hc
  obtain ⟨heq, hends⟩ := h (enter c) (henter c hc)
  unfold Ends at hends ⊢
  unfold within
  rw [heq]
  cases hrun : body (enter c) with
  | ok value after =>
    rw [hrun] at hends
    exact ⟨rfl, hleave c after hc hends⟩
  | error error after =>
    rw [hrun] at hends
    exact ⟨rfl, hleave c after hc hends⟩

theorem agrees_nested {α : Type} {body body' : Exec σ E α} (h : Agrees (AtDepth d) body body') :
    Agrees (AtDepth d) (nested body) (nested body') :=
  agrees_within h (fun _ hc => hc) fun _ _ _ hc' => hc'

theorem OrderedTreeExecution.agrees_executeRuntimeRc {path : Bytes}
    {body body' : Exec σ E OrderedActionResult}
    (h : Agrees (AtDepth (d + 1)) body body') :
    Agrees (AtDepth d) (executeRuntimeRc path body) (executeRuntimeRc path body') :=
  agrees_within (agrees_nested h) (fun _ hc => congrArg (· + 1) hc) fun _ _ hc _ => hc

/-- What follows a file that has been loaded runs at a depth that is allowed. -/
theorem OrderedTreeExecution.agrees_loadFile_bind {α : Type} (expression : RcFileExpression)
    (statement : RuntimeRcStatement) {f f' : LoadedRuntimeRc → Exec σ E α}
    (hempty : Agrees (AtDepth d) (f .Empty) (f' .Empty))
    (hfailed : Agrees (AtDepth d) (f .Failed) (f' .Failed))
    (hsequence : d + 1 ≤ maxRcIncludeDepth → ∀ path sequence,
      Agrees (AtDepth d) (f (.Sequence path sequence)) (f' (.Sequence path sequence))) :
    Agrees (AtDepth d) (loadFile loader expression statement >>= f)
      (loadFile loader expression statement >>= f') := by
  have hload := @agrees_of_progress σ E d _ _ (keeps_progress_loadFile loader expression statement)
  refine hload.bind_of fun c found c' hc hrun => ?_
  have hc' : AtDepth d c' := by
    have hends := (hload c hc).2
    rw [Ends, hrun] at hends
    exact hends
  cases found with
  | Empty => exact hempty c' hc'
  | Failed => exact hfailed c' hc'
  | Sequence path sequence =>
    refine hsequence ?_ path sequence c' hc'
    unfold loadFile at hrun
    cases hsource : RcSource.load loader expression statement c.runtime c.depth c.rc with
    | error error rc =>
      rw [hsource] at hrun
      cases hrun
    | ok found rc =>
      rw [hsource] at hrun
      cases hrun
      have hshallow := RcSource.shallow hsource
      rw [hc] at hshallow
      exact hshallow

theorem agrees_executeBlock (recipe : CompiledNode) {body body' : Exec σ E OrderedActionResult}
    (h : Agrees (AtDepth d) body body') :
    Agrees (AtDepth d) (executeBlock host recipe body) (executeBlock host recipe body') := by
  have hR := persistent_progress host (none : RcLoader)
  refine .bind (agrees_of_progress (hR.modify fun _ => ⟨rfl, rfl, rfl, rfl, rfl⟩)) fun _ => ?_
  refine .bind (agrees_of_progress (.get hR.composable)) fun context => ?_
  refine .bind (agrees_of_progress (hR.liftExcept _ _)) fun lock => ?_
  refine .bind (agrees_of_progress (hR.acquireBlockLock lock)) fun locked => ?_
  cases locked with
  | error error => exact agrees_of_progress (hR.actionError error)
  | ok value => exact .bind (agrees_nested h) fun _ => .pure _

theorem agrees_copyBranch {block block' : Exec σ E OrderedActionResult}
    {rest rest' : ActionExecution → Exec σ E OrderedActionResult}
    (hblock : Agrees (AtDepth d) block block')
    (hrest : ∀ action, Agrees (AtDepth d) (rest action) (rest' action)) :
    Agrees (AtDepth d) (copyBranch block rest) (copyBranch block' rest') := by
  refine .bind hblock ?_
  rintro ⟨action, control⟩
  exact .ite (hrest action) (.pure _)

theorem agrees_executeWaitedCopyBlock {branch branch' : Exec σ E OrderedActionResult}
    (h : Agrees (AtDepth d) branch branch') :
    Agrees (AtDepth d) (executeWaitedCopyBlock host branch)
      (executeWaitedCopyBlock host branch') := by
  intro c hc
  have heq := (h (waitedBranch host c) hc).1
  unfold Ends executeWaitedCopyBlock
  -- The depth of the parent comes back, however the branch ends.
  cases hrun : branch (waitedBranch host c) with
  | error error after =>
    rw [hrun] at heq
    simp only [waitedBranch] at hrun heq
    simp only [hrun, heq]
    exact ⟨trivial, hc⟩
  | ok value after =>
    rw [hrun] at heq
    simp only [waitedBranch] at hrun heq
    simp only [hrun, heq]
    cases after.pendingError with
    | none => exact ⟨trivial, hc⟩
    | some error => exact ⟨trivial, hc⟩

theorem agrees_runBesideBranch {line : Nat} {branch : Except (OrderedExecutionError E) Unit}
    {ended : OrderedTreeExecution σ E} {parentHost : σ} {parent parent' : Exec σ E OrderedActionResult}
    (h : Agrees (AtDepth d) parent parent') :
    Agrees (AtDepth d) (runBesideBranch host line branch ended parentHost parent)
      (runBesideBranch host line branch ended parentHost parent') := by
  intro c hc
  obtain ⟨heq, hends⟩ := h (besideBranch c ended parentHost) hc
  unfold Ends at hends
  have hjoin {after : OrderedTreeExecution σ E} (hafter : AtDepth d after)
      (result : Except (OrderedExecutionError E) OrderedActionResult) :
      Ends (joinBranch line ended.published branch (host.finishBackground ended.host).1 result)
        { after with journal := c.journal.resume after.journal } (fun _ c' => AtDepth d c')
        (fun _ c' => AtDepth d c') :=
    @ends_joinBranch σ E (fun _ c' => AtDepth d c') c after ended.published line branch _ result
      fun _ _ => hafter
  unfold Ends at hjoin ⊢
  unfold runBesideBranch
  simp only [heq]
  refine ⟨trivial, ?_⟩
  cases hrun : parent (besideBranch c ended parentHost) with
  | ok result after =>
    rw [hrun] at hends
    exact hjoin hends (.ok result)
  | error error after =>
    rw [hrun] at hends
    exact hjoin hends (.error error)

theorem agrees_executeUnwaitedCopyBlock {line : Nat}
    {branch branch' parent parent' : Exec σ E OrderedActionResult}
    (hbranch : Agrees (AtDepth d) branch branch') (hparent : Agrees (AtDepth d) parent parent') :
    Agrees (AtDepth d) (executeUnwaitedCopyBlock host line branch parent)
      (executeUnwaitedCopyBlock host line branch' parent') := by
  intro c hc
  unfold Ends executeUnwaitedCopyBlock
  split_ifs
  · exact ⟨rfl, hc⟩
  · cases hfork : host.forkCopyBranch c.host with
    | none => exact ⟨rfl, hc⟩
    | some hosts =>
      have heq := (hbranch (startBranch c hosts.1) hc).1
      simp only [heq]
      cases branch (startBranch c hosts.1) with
      | ok value ended => exact agrees_runBesideBranch host hparent c hc
      | error error ended => exact agrees_runBesideBranch host hparent c hc

theorem agrees_selectAction {recipe : CompiledNode} {conditionsMatched : Bool}
    {action action' branch branch' parent parent' : Exec σ E OrderedActionResult}
    (haction : Agrees (AtDepth d) action action') (hbranch : Agrees (AtDepth d) branch branch')
    (hparent : Agrees (AtDepth d) parent parent') :
    Agrees (AtDepth d) (selectAction host recipe conditionsMatched action branch parent)
      (selectAction host recipe conditionsMatched action' branch' parent') :=
  .ite (.ite (agrees_executeWaitedCopyBlock host hbranch)
    (.ite (agrees_executeUnwaitedCopyBlock host hbranch hparent) haction)) (.pure _)

section Sequences

variable {child child' : CompiledSequence → Exec σ E OrderedActionResult}
variable (hchild : LoadedAgree (AtDepth (d + 1)) d child child')

include hchild

theorem agrees_executeStatementOrdered (statement : CompiledStatement) :
    Agrees (AtDepth d) (executeStatementOrdered host loader child statement)
      (executeStatementOrdered host loader child' statement) := by
  have hR := persistent_progress host loader
  cases statement with
  | Include expression =>
    refine agrees_loadFile_bind loader expression .Include (.pure _) (.pure _) ?_
    intro hdepth path sequence
    exact .bind (agrees_executeRuntimeRc (hchild hdepth sequence)) fun _ => .pure _
  | Switch expression =>
    refine agrees_loadFile_bind loader expression .Switch (.pure _) (.pure _) ?_
    intro hdepth path sequence
    exact .bind (agrees_executeRuntimeRc (hchild hdepth sequence)) fun _ => .pure _
  | Assignment assignment =>
    exact agrees_of_progress (hR.executeStatementOrdered (by simp) (by simp))
  | Unset unset => exact agrees_of_progress (hR.executeStatementOrdered (by simp) (by simp))
  | CommandAssignment assignment =>
    exact agrees_of_progress (hR.executeStatementOrdered (by simp) (by simp))
  | Host assignment => exact agrees_of_progress (hR.executeStatementOrdered (by simp) (by simp))

theorem agrees_executeStatementsOrdered (statements : List CompiledStatement) :
    Agrees (AtDepth d) (executeStatementsOrdered host loader child statements)
      (executeStatementsOrdered host loader child' statements) := by
  induction statements with
  | nil => exact .pure _
  | cons statement rest ih =>
    refine .bind (agrees_of_progress (keeps_modify fun _ => .of_eq rfl rfl)) fun _ => ?_
    refine .bind (agrees_executeStatementOrdered host loader hchild statement) fun control => ?_
    exact .ite ih (.pure _)

omit hchild

mutual

theorem agrees_executeOrderedAction (hchild : LoadedAgree (AtDepth (d + 1)) d child child')
    (recipe : CompiledNode) : ∀ action : CompiledAction,
    Agrees (AtDepth d) (executeOrderedAction host loader child recipe action)
      (executeOrderedAction host loader child' recipe action)
  | .Capture action options => by
    unfold executeOrderedAction
    exact agrees_of_progress ((persistent_progress host loader).executeCapture action options)
  | .Headers resolveWith => by
    unfold executeOrderedAction
    exact agrees_of_progress ((persistent_progress host loader).executeHeaders recipe.line resolveWith)
  | .Pipe command options => by
    unfold executeOrderedAction
    exact agrees_of_progress ((persistent_progress host loader).executePipe recipe command options)
  | .Deliver destination continuation outputEnding => by
    unfold executeOrderedAction
    exact agrees_of_progress ((persistent_progress host loader).executeDeliver recipe destination
      continuation outputEnding)
  | .Block children => by
    unfold executeOrderedAction
    exact agrees_executeBlock host recipe (agrees_executeSequence hchild children)

theorem agrees_executeNode (hchild : LoadedAgree (AtDepth (d + 1)) d child child') :
    ∀ recipe : CompiledNode,
      Agrees (AtDepth d) (executeNode host loader child recipe) (executeNode host loader child' recipe)
  | ⟨_, _, _, _, _, _, _, action⟩ => by
    unfold executeNode
    exact agrees_executeOrderedAction hchild _ action

theorem agrees_executeOrderedFrom (hchild : LoadedAgree (AtDepth (d + 1)) d child child')
    (trailing : List CompiledStatement) :
    ∀ (recipes : List CompiledNode) (state : ChainState) (before : ActionExecution),
      Agrees (AtDepth d)
        (executeOrderedFrom host loader child trailing state before recipes)
        (executeOrderedFrom host loader child' trailing state before recipes)
  | [], state, before => by
    unfold executeOrderedFrom
    exact .bind (agrees_executeStatementsOrdered host loader hchild _) fun _ => .pure _
  | recipe :: rest, state, before => by
    have hR := persistent_progress host loader
    unfold executeOrderedFrom
    refine .bind (agrees_executeStatementsOrdered host loader hchild _) fun control => ?_
    refine .ite (.pure _) ?_
    refine .bind (agrees_of_progress (keeps_modify fun _ => .of_eq rfl rfl)) fun _ => ?_
    refine .bind (agrees_of_progress (.ite (hR.matchesOrdered _) (.pure hR.composable _)))
      fun matched => ?_
    refine .bind (agrees_selectAction host (agrees_executeNode hchild recipe)
      (agrees_copyBranch (agrees_executeNode hchild recipe) fun action =>
        agrees_executeOrderedFrom hchild trailing rest _ _)
      (agrees_executeOrderedFrom hchild trailing rest _ _)) ?_
    rintro ⟨action, control⟩
    exact .ite (.pure _) (agrees_executeOrderedFrom hchild trailing rest _ _)

theorem agrees_executeSequence (hchild : LoadedAgree (AtDepth (d + 1)) d child child') :
    ∀ sequence : CompiledSequence,
      Agrees (AtDepth d) (executeSequence host loader child sequence)
        (executeSequence host loader child' sequence)
  | ⟨recipes, trailing⟩ => by
    unfold executeSequence
    exact agrees_executeOrderedFrom hchild trailing recipes _ _

end

end Sequences

/-- More levels than enough make no difference. -/
theorem agrees_executeSequenceOrdered {levels levels' : Nat} (h : EnoughLevels levels d)
    (h' : EnoughLevels levels' d) (sequence : CompiledSequence) :
    Agrees (AtDepth d) (executeSequenceOrdered host loader levels sequence)
      (executeSequenceOrdered host loader levels' sequence) := by
  induction levels generalizing levels' d sequence with
  | zero =>
    obtain ⟨below, hbelow, -⟩ := h.succ
    cases hbelow
  | succ levels ih =>
    obtain ⟨_, ⟨⟩, hlevels⟩ := h.succ
    obtain ⟨levels', rfl, hlevels'⟩ := h'.succ
    exact agrees_executeSequence host loader
      (fun hdepth sequence => ih (hlevels hdepth) (hlevels' hdepth) sequence) sequence

end Ordered

/-! ### Planning for the complete message -/

/-- At depth `d`, with the transitions since there were `t` of them counted. -/
structure Placed (d t depth : Nat) (rc : RuntimeRcState) : Prop where
  depth : depth = d
  mono : t ≤ rc.transitions
  bounded : rc.transitions ≤ max t maxRcTransitions

theorem Placed.counted {d t depth : Nat} {rc rc' : RuntimeRcState} (h : Placed d t depth rc)
    (hcounted : Counted rc rc') : Placed d t depth rc' :=
  ⟨h.depth, h.mono.trans (by rw [hcounted.counted]; exact Nat.le_succ _),
    hcounted.bounded.trans (le_max_right _ _)⟩

/-- The place of the caller, once a file that it has loaded has ended. -/
theorem Placed.leave {d t depth : Nat} {rc : RuntimeRcState} (h : Placed (d + 1) t depth rc)
    (caller : Nat) (hcaller : caller = d) : Placed d t caller rc :=
  ⟨hcaller, h.mono, h.bounded⟩

theorem Placed.enter {d t depth : Nat} {rc : RuntimeRcState} (h : Placed d t depth rc) :
    Placed (d + 1) t (depth + 1) rc :=
  ⟨congrArg (· + 1) h.depth, h.mono, h.bounded⟩

section Complete

open CompletePlanContext

/-- The contexts of the sequences at depth `d`. -/
def CompletePlanContext.At (d t : Nat) (c : CompletePlanContext) : Prop := Placed d t c.depth c.rc

/-- Neither the depth nor the count of the transitions changes. -/
def CompletePlanContext.Stays (c c' : CompletePlanContext) : Prop :=
  c'.depth = c.depth ∧ c'.rc = c.rc

namespace CompletePlanContext

theorem composable_stays : Composable Stays where
  refl _ := ⟨rfl, rfl⟩
  trans h h' := ⟨h'.1.trans h.1, h'.2.trans h.2⟩

variable {d t : Nat}

theorem agrees_of_stays {α : Type} {m : CompletePlan α} (h : Keeps Stays m) :
    Agrees (At d t) m m :=
  .of_keeps h fun hstays hat => by
    unfold At at *
    rw [hstays.1, hstays.2]
    exact hat

theorem stays_evaluate {α : Type} (evaluation : Eval α) :
    Keeps Stays (evaluate evaluation) := by
  intro c
  unfold Ends evaluate
  cases evaluation c.runtime with
  | ok value runtime => exact ⟨rfl, rfl⟩
  | error error runtime => exact ⟨rfl, rfl⟩

theorem stays_liftExcept {ε α : Type} (wrap : ε → EvalError) (x : Except ε α) :
    Keeps Stays (liftExcept wrap x : CompletePlan α) := by
  cases x with
  | ok value => exact .pure composable_stays _
  | error error => exact .throw composable_stays _

theorem agrees_executeRuntimeRc {α : Type} {path : Bytes} {body body' : CompletePlan α}
    (h : Agrees (At (d + 1) t) body body') :
    Agrees (At d t) (executeRuntimeRc path body) (executeRuntimeRc path body') := by
  intro c hc
  obtain ⟨heq, hends⟩ := h
    { c with depth := c.depth + 1, runtime := { c.runtime with currentRcFile := some path } }
    hc.enter
  unfold Ends at hends ⊢
  unfold executeRuntimeRc
  simp only [heq]
  refine ⟨trivial, ?_⟩
  cases hrun : body
      { c with depth := c.depth + 1, runtime := { c.runtime with currentRcFile := some path } } with
  | ok value after =>
    rw [hrun] at hends
    exact hends.leave c.depth hc.depth
  | error error after =>
    rw [hrun] at hends
    exact hends.leave c.depth hc.depth

variable (loader : L)

theorem agrees_loadFile (expression : RcFileExpression) (statement : RuntimeRcStatement) :
    Agrees (At d t) (loadFile loader expression statement)
      (loadFile loader expression statement) := by
  intro c hc
  have hcounts := RcSource.counts loader expression statement c.runtime c.depth c.rc
  refine ⟨rfl, ?_⟩
  unfold Ends at hcounts ⊢
  unfold loadFile
  cases hload : RcSource.load loader expression statement c.runtime c.depth c.rc with
  | ok loaded rc =>
    rw [hload] at hcounts
    exact hc.counted hcounts
  | error error rc =>
    rw [hload] at hcounts
    rcases hcounts with hcounts | ⟨rfl, -⟩
    · exact hc.counted hcounts
    · exact hc

theorem agrees_loadFile_bind {α : Type} (expression : RcFileExpression)
    (statement : RuntimeRcStatement) {f f' : LoadedRuntimeRc → CompletePlan α}
    (hempty : Agrees (At d t) (f .Empty) (f' .Empty))
    (hfailed : Agrees (At d t) (f .Failed) (f' .Failed))
    (hsequence : d + 1 ≤ maxRcIncludeDepth → ∀ path sequence,
      Agrees (At d t) (f (.Sequence path sequence)) (f' (.Sequence path sequence))) :
    Agrees (At d t) (loadFile loader expression statement >>= f)
      (loadFile loader expression statement >>= f') := by
  have hload := @agrees_loadFile L _ d t loader expression statement
  refine hload.bind_of fun c found c' hc hrun => ?_
  have hc' : At d t c' := by
    have hends := (hload c hc).2
    rw [Ends, hrun] at hends
    exact hends
  cases found with
  | Empty => exact hempty c' hc'
  | Failed => exact hfailed c' hc'
  | Sequence path sequence =>
    refine hsequence ?_ path sequence c' hc'
    unfold loadFile at hrun
    cases hsource : RcSource.load loader expression statement c.runtime c.depth c.rc with
    | error error rc =>
      rw [hsource] at hrun
      cases hrun
    | ok found rc =>
      rw [hsource] at hrun
      cases hrun
      have hshallow := RcSource.shallow hsource
      rw [hc.depth] at hshallow
      exact hshallow

end CompletePlanContext

variable {d t : Nat} (loader : L) {child child' : CompiledSequence → CompletePlan SequenceControl}
variable (hchild : LoadedAgree (At (d + 1) t) d child child')

include hchild

theorem agrees_planStatementComplete (statement : CompiledStatement) :
    Agrees (At d t) (planStatementComplete loader child statement)
      (planStatementComplete loader child' statement) := by
  have hR := composable_stays
  cases statement with
  | CommandAssignment assignment => exact .throw _
  | Assignment assignment =>
    exact .bind (agrees_of_stays (stays_evaluate _)) fun _ => .pure _
  | Unset unset => exact .bind (agrees_of_stays (stays_evaluate _)) fun _ => .pure _
  | Host assignment =>
    refine .bind (agrees_of_stays (stays_evaluate _)) fun resolved => .ite (.pure _) ?_
    exact .bind (agrees_of_stays (keeps_modify fun _ => ⟨rfl, rfl⟩)) fun _ => .pure _
  | Include expression =>
    refine agrees_loadFile_bind loader expression .Include (.pure _) (.pure _) ?_
    intro hdepth path sequence
    exact .bind (agrees_executeRuntimeRc (hchild hdepth sequence)) fun _ => .pure _
  | Switch expression =>
    refine agrees_loadFile_bind loader expression .Switch (.pure _) (.pure _) ?_
    intro hdepth path sequence
    exact .bind (agrees_executeRuntimeRc (hchild hdepth sequence)) fun _ => .pure _

theorem agrees_planStatementsComplete (statements : List CompiledStatement) :
    Agrees (At d t) (planStatementsComplete loader child statements)
      (planStatementsComplete loader child' statements) := by
  induction statements with
  | nil => exact .pure _
  | cons statement rest ih =>
    refine .bind (agrees_planStatementComplete loader hchild statement) fun control => ?_
    exact .ite ih (.pure _)

omit hchild in
theorem stays_testComplete (gate : Bool) (conditions : List CompiledCondition) :
    Keeps Stays (testComplete gate conditions) := by
  refine .ite ?_ (.pure composable_stays _)
  exact @Keeps.read _ _ _ Stays (fun c => evaluate (matchesComplete c.message conditions))
    fun c => stays_evaluate _

omit hchild in
theorem stays_planDeliver (recipe : CompiledNode) (destination : Destination)
    (continuation : ContinuationMode) (outputEnding : OutputEnding) (hasErrorHandler : Bool) :
    Keeps Stays (planDeliver recipe destination continuation outputEnding hasErrorHandler) := by
  have hR := composable_stays
  refine .bind hR (.get hR) fun context => ?_
  refine .bind hR (stays_liftExcept _ _) fun delivery => ?_
  exact .bind hR (keeps_modify fun _ => ⟨rfl, rfl⟩) fun _ => .pure hR _

omit hchild

mutual

theorem agrees_planAction (hchild : LoadedAgree (At (d + 1) t) d child child')
    (recipe : CompiledNode) (hasErrorHandler : Bool) :
    ∀ action : CompiledAction,
      Agrees (At d t) (planAction loader child recipe hasErrorHandler action)
        (planAction loader child' recipe hasErrorHandler action)
  | .Pipe _ _ => by
    unfold planAction
    exact .throw _
  | .Capture _ _ => by
    unfold planAction
    exact .throw _
  | .Headers _ => by
    unfold planAction
    exact .throw _
  | .Deliver destination continuation outputEnding => by
    unfold planAction
    exact agrees_of_stays (stays_planDeliver _ _ _ _ _)
  | .Block children => by
    unfold planAction
    exact .ite (.throw _) (agrees_planComplete hchild children)

theorem agrees_planNode (hchild : LoadedAgree (At (d + 1) t) d child child')
    (hasErrorHandler : Bool) : ∀ recipe : CompiledNode,
    Agrees (At d t) (planNode loader child hasErrorHandler recipe)
      (planNode loader child' hasErrorHandler recipe)
  | ⟨_, _, _, _, _, _, _, action⟩ => by
    unfold planNode
    exact agrees_planAction hchild _ hasErrorHandler action

theorem agrees_planCompleteFrom (hchild : LoadedAgree (At (d + 1) t) d child child')
    (trailing : List CompiledStatement) :
    ∀ (recipes : List CompiledNode) (state : SequenceState),
      Agrees (At d t) (planCompleteFrom loader child trailing state recipes)
        (planCompleteFrom loader child' trailing state recipes)
  | [], state => by
    unfold planCompleteFrom
    exact agrees_planStatementsComplete loader hchild trailing
  | recipe :: rest, state => by
    unfold planCompleteFrom
    refine .bind (agrees_planStatementsComplete loader hchild _) fun control => ?_
    refine .ite (.pure _) ?_
    refine .bind (agrees_of_stays (stays_testComplete _ _)) fun matched => ?_
    refine .bind (.ite (agrees_planNode hchild (hasErrorHandler rest) recipe) (.pure _)) fun control => ?_
    exact .ite (.pure _) (agrees_planCompleteFrom hchild trailing rest _)

theorem agrees_planComplete (hchild : LoadedAgree (At (d + 1) t) d child child') :
    ∀ sequence : CompiledSequence,
      Agrees (At d t) (planComplete loader child sequence) (planComplete loader child' sequence)
  | ⟨recipes, trailing⟩ => by
    unfold planComplete
    exact agrees_planCompleteFrom hchild trailing recipes _

end

include hchild

theorem agrees_resumeRecipe (frame : ContinuationFrame) (recipe : CompiledNode)
    (rest : List CompiledNode) :
    Agrees (At d t) (resumeRecipe loader child frame recipe rest)
      (resumeRecipe loader child' frame recipe rest) := by
  refine .bind (agrees_of_stays (.ite ?_ (.pure composable_stays _))) fun matched => ?_
  · exact @Keeps.read _ _ _ Stays
      (fun c => evaluate (matchesResumed c.message frame.conditionResults recipe.conditions))
      fun c => stays_evaluate _
  · exact .bind (.ite (agrees_planNode loader hchild _ recipe) (.pure _)) fun _ => .pure _

theorem agrees_resumeFromFrames (frames : List ContinuationFrame) (sequence : CompiledSequence) :
    Agrees (At d t) (resumeFromFrames loader child frames sequence)
      (resumeFromFrames loader child' frames sequence) := by
  induction frames generalizing sequence with
  | nil => exact .throw _
  | cons frame frames ih =>
    unfold resumeFromFrames
    cases sequence.recipes.drop frame.recipeIndex with
    | nil => exact .throw _
    | cons recipe rest =>
      refine .bind (agrees_of_stays (.ite (.pure composable_stays _) (stays_evaluate _)))
        fun control => ?_
      refine .ite (.pure _) (.bind ?_ ?_)
      · cases frames with
        | nil => exact agrees_resumeRecipe loader hchild frame recipe rest
        | cons next frames =>
          cases recipe.action with
          | Block children => exact .bind (ih children) fun _ => .pure _
          | Deliver destination continuation outputEnding => exact .throw _
          | Pipe command options => exact .throw _
          | Capture action options => exact .throw _
          | Headers resolveWith => exact .throw _
      · rintro ⟨matched, control⟩
        exact .ite (.pure _) (agrees_planCompleteFrom loader hchild _ rest _)

omit hchild in
/-- More levels than enough make no difference. -/
theorem agrees_planCompleteSequence {levels levels' : Nat} (h : EnoughLevels levels d)
    (h' : EnoughLevels levels' d) (sequence : CompiledSequence) :
    Agrees (At d t) (planCompleteSequence loader levels sequence)
      (planCompleteSequence loader levels' sequence) := by
  induction levels generalizing levels' d sequence with
  | zero =>
    obtain ⟨below, hbelow, -⟩ := h.succ
    cases hbelow
  | succ levels ih =>
    obtain ⟨_, ⟨⟩, hlevels⟩ := h.succ
    obtain ⟨levels', rfl, hlevels'⟩ := h'.succ
    exact agrees_planComplete loader
      (fun hdepth sequence => ih (hlevels hdepth) (hlevels' hdepth) sequence) sequence

end Complete

/-! ### Planning for the header -/

section Header

open HeaderPlanContext

variable {κ E : Type}

/-- The contexts of the sequences at depth `d`. -/
def HeaderPlanContext.At (d t : Nat) (c : HeaderPlanContext κ E) : Prop := Placed d t c.depth c.rc

/-- Neither the depth nor the count of the transitions changes. -/
def HeaderPlanContext.Stays (c c' : HeaderPlanContext κ E) : Prop :=
  c'.depth = c.depth ∧ c'.rc = c.rc

namespace HeaderPlanContext

theorem composable_stays : Composable (Stays : HeaderPlanContext κ E → _ → Prop) where
  refl _ := ⟨rfl, rfl⟩
  trans h h' := ⟨h'.1.trans h.1, h'.2.trans h.2⟩

variable {d t : Nat}

theorem agrees_of_stays {α : Type} {m : HeaderPlan κ E α} (h : Keeps Stays m) :
    Agrees (At d t) m m :=
  .of_keeps h fun hstays hat => by
    unfold At at *
    rw [hstays.1, hstays.2]
    exact hat

theorem stays_evaluate {α : Type} (evaluation : Eval α) :
    Keeps Stays (evaluate evaluation : HeaderPlan κ E α) := by
  intro c
  unfold Ends evaluate
  cases evaluation c.runtime with
  | ok value runtime => exact ⟨rfl, rfl⟩
  | error error runtime => exact ⟨rfl, rfl⟩

theorem stays_liftExcept {ε α : Type} (wrap : ε → OrderedExecutionError E) (x : Except ε α) :
    Keeps Stays (liftExcept wrap x : HeaderPlan κ E α) := by
  cases x with
  | ok value => exact .pure composable_stays _
  | error error => exact .throw composable_stays _

theorem stays_record (event : HeaderEvent) :
    Keeps Stays (record event : HeaderPlan κ E Unit) :=
  keeps_modify fun _ => ⟨rfl, rfl⟩

theorem stays_deferRestart (requirements : InputRequirements) :
    Keeps Stays (deferRestart requirements : HeaderPlan κ E HeaderControl) :=
  .bind composable_stays (keeps_modify fun _ => ⟨rfl, rfl⟩) fun _ => .pure composable_stays _

theorem stays_deferAt (frame : ContinuationFrame) (requirements : InputRequirements) :
    Keeps Stays (deferAt frame requirements : HeaderPlan κ E HeaderControl) :=
  .bind composable_stays (keeps_modify fun _ => ⟨rfl, rfl⟩) fun _ => .pure composable_stays _

theorem agrees_withFrame (frame : ContinuationFrame) {body body' : HeaderPlan κ E HeaderControl}
    (h : Agrees (At d t) body body') :
    Agrees (At d t) (withFrame frame body) (withFrame frame body') := by
  refine .bind (agrees_of_stays (keeps_modify fun _ => ⟨rfl, rfl⟩)) fun _ => ?_
  refine .bind h fun control => .ite ?_ (.pure _)
  exact .bind (agrees_of_stays (keeps_modify fun _ => ⟨rfl, rfl⟩)) fun _ => .pure _

theorem agrees_executeRuntimeRc {α : Type} {path : Bytes} {body body' : HeaderPlan κ E α}
    (h : Agrees (At (d + 1) t) body body') :
    Agrees (At d t) (executeRuntimeRc path body) (executeRuntimeRc path body') := by
  intro c hc
  obtain ⟨heq, hends⟩ := h
    { c with depth := c.depth + 1, runtime := { c.runtime with currentRcFile := some path } }
    hc.enter
  unfold Ends at hends ⊢
  unfold executeRuntimeRc
  simp only [heq]
  refine ⟨trivial, ?_⟩
  cases hrun : body
      { c with depth := c.depth + 1, runtime := { c.runtime with currentRcFile := some path } } with
  | ok value after =>
    rw [hrun] at hends
    exact hends.leave c.depth hc.depth
  | error error after =>
    rw [hrun] at hends
    exact hends.leave c.depth hc.depth

variable (loader : L)

theorem agrees_loadFile (expression : RcFileExpression) (statement : RuntimeRcStatement) :
    Agrees (At d t) (loadFile loader expression statement : HeaderPlan κ E LoadedRuntimeRc)
      (loadFile loader expression statement) := by
  intro c hc
  have hcounts := RcSource.counts loader expression statement c.runtime c.depth c.rc
  refine ⟨rfl, ?_⟩
  unfold Ends at hcounts ⊢
  unfold loadFile
  cases hload : RcSource.load loader expression statement c.runtime c.depth c.rc with
  | ok loaded rc =>
    rw [hload] at hcounts
    exact hc.counted hcounts
  | error error rc =>
    rw [hload] at hcounts
    rcases hcounts with hcounts | ⟨rfl, -⟩
    · exact hc.counted hcounts
    · exact hc

theorem agrees_loadFile_bind {α : Type} (expression : RcFileExpression)
    (statement : RuntimeRcStatement) {f f' : LoadedRuntimeRc → HeaderPlan κ E α}
    (hempty : Agrees (At d t) (f .Empty) (f' .Empty))
    (hfailed : Agrees (At d t) (f .Failed) (f' .Failed))
    (hsequence : d + 1 ≤ maxRcIncludeDepth → ∀ path sequence,
      Agrees (At d t) (f (.Sequence path sequence)) (f' (.Sequence path sequence))) :
    Agrees (At d t) (loadFile loader expression statement >>= f)
      (loadFile loader expression statement >>= f') := by
  have hload := @agrees_loadFile L _ κ E d t loader expression statement
  refine hload.bind_of fun c found c' hc hrun => ?_
  have hc' : At d t c' := by
    have hends := (hload c hc).2
    rw [Ends, hrun] at hends
    exact hends
  cases found with
  | Empty => exact hempty c' hc'
  | Failed => exact hfailed c' hc'
  | Sequence path sequence =>
    refine hsequence ?_ path sequence c' hc'
    unfold loadFile at hrun
    cases hsource : RcSource.load loader expression statement c.runtime c.depth c.rc with
    | error error rc =>
      rw [hsource] at hrun
      cases hrun
    | ok found rc =>
      rw [hsource] at hrun
      cases hrun
      have hshallow := RcSource.shallow hsource
      rw [hc.depth] at hshallow
      exact hshallow

end HeaderPlanContext

section Leaves

theorem stays_testHeaders (gate : Bool) (conditions : List CompiledCondition) :
    Keeps Stays (testHeaders gate conditions :
      HeaderPlan κ E (PartialMatch × List (Option Bool))) := by
  have hR := @composable_stays κ E
  refine .ite (.bind hR (.get hR) fun context => .bind hR (stays_evaluate _) ?_) (.pure hR _)
  rintro ⟨matched, results⟩
  exact .bind hR (stays_record _) fun _ => .pure hR _

theorem stays_planHeaderCapture (capture : HeaderCaptureExecutor κ E) (action : CaptureAction)
    (options : RecipeOptions) : Keeps Stays (planHeaderCapture capture action options) := by
  have hR := @composable_stays κ E
  refine .bind hR (.get hR) fun context => .bind hR (stays_liftExcept _ _) fun limit => ?_
  refine .bind hR ?_ fun captured => ?_
  · intro c
    unfold Ends
    dsimp only
    rcases capture action.command c.head.asBytes options.outputEnding (some options) limit
        (c.runtime, c.captureState) with ⟨output, runtime, state⟩ | ⟨error, runtime, state⟩
    · exact ⟨rfl, rfl⟩
    · exact ⟨rfl, rfl⟩
  · rcases captured with (error | error) | output
    · exact .bind hR (keeps_modify fun _ => ⟨rfl, rfl⟩) fun _ => .pure hR _
    · exact .throw hR _
    · refine .bind hR (stays_liftExcept _ _) fun value => ?_
      exact .bind hR (keeps_modify fun _ => ⟨rfl, rfl⟩) fun _ => .pure hR _

theorem stays_planHeaderEdit (line : Nat)
    (resolveWith : Lookup → Except ExpansionError HeaderAction) :
    Keeps Stays (planHeaderEdit line resolveWith :
      HeaderPlan κ E (ActionExecution × HeaderControl)) := by
  have hR := @composable_stays κ E
  refine .bind hR (.get hR) fun context => .bind hR (stays_liftExcept _ _) fun action => ?_
  refine .bind hR (stays_liftExcept _ _) fun applied => ?_
  refine .bind hR (keeps_modify fun _ => ⟨rfl, rfl⟩) fun _ => ?_
  exact .bind hR (stays_record _) fun _ => .pure hR _

theorem stays_planHeaderDeliver (recipe : CompiledNode) (destination : Destination)
    (continuation : ContinuationMode) (outputEnding : OutputEnding) (hasErrorHandler : Bool) :
    Keeps Stays (planHeaderDeliver recipe destination continuation outputEnding hasErrorHandler :
      HeaderPlan κ E (ActionExecution × HeaderControl)) := by
  have hR := @composable_stays κ E
  refine .bind hR (.get hR) fun context => .bind hR (stays_liftExcept _ _) fun delivery => ?_
  refine .bind hR (stays_record _) fun _ => ?_
  exact .bind hR (keeps_modify fun _ => ⟨rfl, rfl⟩) fun _ => .pure hR _

theorem stays_clearPendingError (action : ActionExecution) :
    Keeps Stays (clearPendingError action : HeaderPlan κ E Unit) := by
  refine keeps_modify fun c => ?_
  split_ifs
  · exact ⟨rfl, rfl⟩
  · exact ⟨rfl, rfl⟩

end Leaves

variable {d t : Nat} (loader : L) (capture : HeaderCaptureExecutor κ E)
variable {child child' : CompiledSequence → InputRequirements → HeaderPlan κ E HeaderControl}
variable (hchild : LoadedHeadersAgree (At (d + 1) t) d child child')

include hchild

theorem agrees_planLoaded (hdepth : d + 1 ≤ maxRcIncludeDepth) (path : Bytes)
    (sequence : CompiledSequence) (following : InputRequirements) :
    Agrees (At d t) (planLoaded child path sequence following)
      (planLoaded child' path sequence following) := by
  refine .ite (agrees_of_stays (stays_deferRestart _)) ?_
  refine .bind (agrees_executeRuntimeRc (hchild hdepth sequence following)) fun control => ?_
  refine .ite ?_ (.pure _)
  refine .bind (agrees_of_stays (.get composable_stays)) fun context => ?_
  exact agrees_of_stays (stays_deferRestart _)

theorem agrees_planStatementHeaders (following : InputRequirements) (statement : CompiledStatement) :
    Agrees (At d t) (planStatementHeaders loader child following statement)
      (planStatementHeaders loader child' following statement) := by
  cases statement with
  | CommandAssignment assignment => exact .throw _
  | Assignment assignment =>
    exact .bind (agrees_of_stays (stays_evaluate _)) fun _ => .pure _
  | Unset unset => exact .bind (agrees_of_stays (stays_evaluate _)) fun _ => .pure _
  | Host assignment =>
    refine .bind (agrees_of_stays (stays_evaluate _)) fun resolved => .ite (.pure _) ?_
    exact .bind (agrees_of_stays (keeps_modify fun _ => ⟨rfl, rfl⟩)) fun _ => .pure _
  | Include expression =>
    refine agrees_loadFile_bind loader expression .Include (.pure _) (.pure _) ?_
    intro hdepth path sequence
    exact .bind (agrees_planLoaded hchild hdepth path sequence following) fun _ => .pure _
  | Switch expression =>
    refine agrees_loadFile_bind loader expression .Switch (.pure _) (.pure _) ?_
    intro hdepth path sequence
    exact .bind (agrees_planLoaded hchild hdepth path sequence _) fun _ => .pure _

theorem agrees_planStatementsHeaders (following : InputRequirements)
    (statements : List CompiledStatement) :
    Agrees (At d t) (planStatementsHeaders loader child following statements)
      (planStatementsHeaders loader child' following statements) := by
  induction statements with
  | nil => exact .pure _
  | cons statement rest ih =>
    refine .bind (agrees_of_stays (stays_record _)) fun _ => ?_
    refine .bind (agrees_planStatementHeaders loader hchild following statement) fun control => ?_
    exact .ite ih (.pure _)

omit hchild

mutual

theorem agrees_planHeadersAction (hchild : LoadedHeadersAgree (At (d + 1) t) d child child')
    (recipe : CompiledNode) (frame : ContinuationFrame)
    (following : InputRequirements) (hasErrorHandler : Bool) : ∀ action : CompiledAction,
      Agrees (At d t)
        (planHeadersAction loader child capture recipe frame following hasErrorHandler action)
        (planHeadersAction loader child' capture recipe frame following hasErrorHandler action)
  | .Pipe _ _ => by
    unfold planHeadersAction
    exact .throw _
  | .Capture action options => by
    unfold planHeadersAction
    exact agrees_of_stays (stays_planHeaderCapture capture action options)
  | .Headers resolveWith => by
    unfold planHeadersAction
    exact agrees_of_stays (stays_planHeaderEdit _ _)
  | .Deliver destination continuation outputEnding => by
    unfold planHeadersAction
    exact agrees_of_stays (stays_planHeaderDeliver _ _ _ _ _)
  | .Block children => by
    unfold planHeadersAction
    exact .bind (agrees_withFrame frame (agrees_planHeaders hchild following children)) fun _ => .pure _

theorem agrees_planHeadersNode (hchild : LoadedHeadersAgree (At (d + 1) t) d child child')
    (frame : ContinuationFrame) (following : InputRequirements)
    (hasErrorHandler : Bool) : ∀ recipe : CompiledNode,
      Agrees (At d t) (planHeadersNode loader child capture frame following hasErrorHandler recipe)
        (planHeadersNode loader child' capture frame following hasErrorHandler recipe)
  | ⟨_, _, _, _, _, _, _, action⟩ => by
    unfold planHeadersNode
    exact agrees_planHeadersAction hchild _ frame following hasErrorHandler action

theorem agrees_planHeadersFrom (hchild : LoadedHeadersAgree (At (d + 1) t) d child child')
    (trailing : List CompiledStatement) (following : InputRequirements) :
    ∀ (recipes : List CompiledNode) (state : PlanningState) (index : Nat),
      Agrees (At d t) (planHeadersFrom loader child capture trailing following state index recipes)
        (planHeadersFrom loader child' capture trailing following state index recipes)
  | [], state, index => by
    unfold planHeadersFrom
    exact agrees_planStatementsHeaders loader hchild following trailing
  | recipe :: rest, state, index => by
    unfold planHeadersFrom
    refine .bind (agrees_planStatementsHeaders loader hchild _ _) fun control => ?_
    refine .ite (.pure _) (.bind (agrees_of_stays (stays_testHeaders _ _)) ?_)
    rintro ⟨matched, results⟩
    refine .ite (agrees_of_stays (stays_deferAt _ _)) ?_
    refine .bind (.ite (agrees_planHeadersNode hchild _ _ (hasErrorHandler rest) recipe) (.pure _)) ?_
    rintro ⟨action, control⟩
    refine .ite (.pure _) (.bind (agrees_of_stays (stays_clearPendingError _)) fun _ => ?_)
    exact .ite (.pure _) (agrees_planHeadersFrom hchild trailing following rest _ _)

theorem agrees_planHeaders (hchild : LoadedHeadersAgree (At (d + 1) t) d child child')
    (following : InputRequirements) : ∀ sequence : CompiledSequence,
    Agrees (At d t) (planHeaders loader child capture following sequence)
      (planHeaders loader child' capture following sequence)
  | ⟨recipes, trailing⟩ => by
    unfold planHeaders
    exact agrees_planHeadersFrom hchild trailing following recipes _ _

end

omit hchild in
/-- More levels than enough make no difference. -/
theorem agrees_planHeadersSequence {levels levels' : Nat} (h : EnoughLevels levels d)
    (h' : EnoughLevels levels' d) (sequence : CompiledSequence) (following : InputRequirements) :
    Agrees (At d t) (planHeadersSequence loader capture levels sequence following)
      (planHeadersSequence loader capture levels' sequence following) := by
  induction levels generalizing levels' d sequence following with
  | zero =>
    obtain ⟨below, hbelow, -⟩ := h.succ
    cases hbelow
  | succ levels ih =>
    obtain ⟨_, ⟨⟩, hlevels⟩ := h.succ
    obtain ⟨levels', rfl, hlevels'⟩ := h'.succ
    exact agrees_planHeaders loader capture
      (fun hdepth sequence following => ih (hlevels hdepth) (hlevels' hdepth) sequence following)
      following sequence

end Header

end ProcmailRs
