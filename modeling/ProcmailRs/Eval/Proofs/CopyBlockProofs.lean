import ProcmailRs.Delivery.OrderedHost
import ProcmailRs.Eval.Proofs.ExecutionProofs

/-!
# Waited copy blocks

The branch of a waited copy block runs on the context of its parent, which is put back together when the
branch ends. What the parent saved needs nothing of the branch. The locks that the host has put aside do:
the branch must leave them as they were. The published deliveries are counted through.
-/

namespace ProcmailRs

open Outcome OrderedTreeExecution

variable {κ Lock E : Type}

/-- How many deliveries the host has accepted. -/
def deliveries (log : List (Nat × Event)) : Nat := log.countP fun event => event.2.isDelivery

theorem deliveries_append (log log' : List (Nat × Event)) :
    deliveries (log ++ log') = deliveries log + deliveries log' := List.countP_append

/-! ### The locks -/

/-- An operation that leaves the locks put aside alone. -/
def KeepsSuspended {ε α : Type} (operation : HostOperation (OrderedDeliveryHost κ Lock) ε α) : Prop :=
  Keeps (fun before after => after.2.suspendedGlobalLocks = before.2.suspendedGlobalLocks) operation

theorem composable_suspended : Composable
    (fun before after : RuntimeVariables × OrderedDeliveryHost κ Lock =>
      after.2.suspendedGlobalLocks = before.2.suspendedGlobalLocks) :=
  ⟨fun _ => rfl, fun h h' => h'.trans h⟩

theorem keepsSuspended_serve {ε α : Type} (operation : HostOperation κ ε α) :
    KeepsSuspended (OrderedDeliveryHost.serve operation :
      HostOperation (OrderedDeliveryHost κ Lock) ε α) := by
  rintro ⟨runtime, host⟩
  unfold Ends OrderedDeliveryHost.serve
  rcases hop : operation (runtime, host.services) with ⟨value, runtime', services⟩ |
    ⟨error, runtime', services⟩
  · simp only [hop]
  · simp only [hop]

theorem suspended_dropGlobalLock (services : HostServices κ Lock E)
    (host : OrderedDeliveryHost κ Lock) :
    (host.dropGlobalLock services).suspendedGlobalLocks = host.suspendedGlobalLocks := by
  unfold OrderedDeliveryHost.dropGlobalLock
  split
  · rfl
  · rfl

theorem keepsSuspended_acquireGlobalLock (services : HostServices κ Lock E) (path : Bytes) :
    KeepsSuspended (OrderedDeliveryHost.acquireGlobalLock services path) := by
  intro state
  have hserve := @keepsSuspended_serve κ Lock _ _ (services.acquireConfiguredLock path) state
  unfold Ends at hserve ⊢
  unfold OrderedDeliveryHost.acquireGlobalLock
  split at hserve
  · rename_i heq
    simp only [heq]
    exact hserve
  · rename_i heq
    simp only [heq]
    exact hserve

theorem keepsSuspended_replaceGlobalLock (services : HostServices κ Lock E) (path : Bytes) :
    KeepsSuspended (OrderedDeliveryHost.replaceGlobalLock services path) := by
  refine .bind composable_suspended (keepsSuspended_serve _) fun _ => ?_
  refine .bind composable_suspended (keeps_modify fun state => ?_) fun _ => ?_
  · exact suspended_dropGlobalLock services state.2
  · exact .ite (.pure composable_suspended _) (keepsSuspended_acquireGlobalLock services path)

theorem keepsSuspended_of_isOperation (services : HostServices κ Lock E) {ε α : Type}
    {call : HostCall} {operation : HostOperation (OrderedDeliveryHost κ Lock) ε α}
    (h : IsOperation (orderedDeliveryHost services) call operation) : KeepsSuspended operation := by
  cases h with
  | capture => exact keepsSuspended_serve _
  | externalCondition => exact keepsSuspended_serve _
  | replaceGlobalLock path => exact keepsSuspended_replaceGlobalLock services path
  | acquireLocalLock path =>
    show KeepsSuspended (OrderedDeliveryHost.acquireLocalLock services path)
    exact keepsSuspended_serve _

/-- The lock of the parent comes back, whatever the branch has done to its own. -/
theorem globalLock_leaveCopyBranch (services : HostServices κ Lock E)
    {host after : OrderedDeliveryHost κ Lock}
    (h : after.suspendedGlobalLocks = host.enterCopyBranch.suspendedGlobalLocks) :
    (after.leaveCopyBranch services).globalLock = host.globalLock ∧
      (after.leaveCopyBranch services).suspendedGlobalLocks = host.suspendedGlobalLocks := by
  have hdrop := (suspended_dropGlobalLock services after).trans h
  unfold OrderedDeliveryHost.leaveCopyBranch
  simp [hdrop, OrderedDeliveryHost.enterCopyBranch]

/-! ### The branch -/

/-- What a run does to the part of the context that a waited block does not put back. The deliveries are
counted as long as their number fits. -/
structure Accounts (before after : OrderedTreeExecution (OrderedDeliveryHost κ Lock) E) : Prop where
  suspended : after.host.suspendedGlobalLocks = before.host.suspendedGlobalLocks
  published : ∃ added, after.journal.log = before.journal.log ++ added ∧
    (before.published + deliveries added ≤ usizeMax →
      after.published = before.published + deliveries added)

namespace Accounts

variable {c c' c'' : OrderedTreeExecution (OrderedDeliveryHost κ Lock) E}

theorem of_log_eq (hsuspended : c'.host.suspendedGlobalLocks = c.host.suspendedGlobalLocks)
    (hlog : c'.journal.log = c.journal.log) (hpublished : c'.published = c.published) :
    Accounts c c' :=
  ⟨hsuspended, [], by rw [hlog, List.append_nil], fun _ => hpublished⟩

theorem trans (h : Accounts c c') (h' : Accounts c' c'') : Accounts c c'' := by
  obtain ⟨added, hlog, hpublished⟩ := h.published
  obtain ⟨added', hlog', hpublished'⟩ := h'.published
  refine ⟨h'.suspended.trans h.suspended, added ++ added', ?_, ?_⟩
  · rw [hlog', hlog, List.append_assoc]
  · intro hfits
    rw [deliveries_append] at hfits ⊢
    have hfirst := hpublished (by omega)
    have hsecond := hpublished' (by omega)
    omega

theorem record {event : Event} (h : event.isDelivery = false) :
    Accounts c { c with journal := c.journal.record event } := by
  refine ⟨rfl, [(c.journal.path, event)], rfl, fun _ => ?_⟩
  have hnone : deliveries [(c.journal.path, event)] = 0 := by simp [deliveries, h]
  rw [hnone]
  rfl

/-- An answer of the host, unless it has accepted a delivery. -/
theorem answered {call : HostCall} {succeeded : Bool} {runtime : RuntimeVariables}
    {host : OrderedDeliveryHost κ Lock}
    (hsuspended : host.suspendedGlobalLocks = c.host.suspendedGlobalLocks)
    (h : (Event.Host call succeeded c.journal.detached).isDelivery = false) :
    Accounts c (c.answered call succeeded runtime host) :=
  (record h).trans (of_log_eq hsuspended rfl rfl)

/-- A delivery that the host has accepted is counted. -/
theorem counted {call : HostCall} {runtime : RuntimeVariables} {host : OrderedDeliveryHost κ Lock}
    (hsuspended : host.suspendedGlobalLocks = c.host.suspendedGlobalLocks)
    (h : call.isDelivery = true) :
    Accounts c { c.answered call true runtime host with published := c.published + 1 } := by
  refine ⟨hsuspended, [(c.journal.path, .Host call true c.journal.detached)], rfl, fun _ => ?_⟩
  have hone : deliveries [(c.journal.path, .Host call true c.journal.detached)] = 1 := by
    simp [deliveries, Event.isDelivery, h]
  rw [hone]

theorem composable : Composable (@Accounts κ Lock E) where
  refl _ := of_log_eq rfl rfl rfl
  trans h h' := h.trans h'

/-- A branch beside its parent counts for itself; what it has counted is added when it is joined. -/
theorem joined {ended : OrderedTreeExecution (OrderedDeliveryHost κ Lock) E}
    {branchHost parentHost : OrderedDeliveryHost κ Lock}
    (hparent : parentHost.suspendedGlobalLocks = c.host.suspendedGlobalLocks)
    (hended : Accounts (startBranch c branchHost) ended)
    (hafter : Accounts (besideBranch c ended parentHost) c') {published : Nat}
    (hpublished : checkedAdd c'.published ended.published = some published ∨
      checkedAdd c'.published ended.published = none ∧ published = c'.published) :
    Accounts c (ProcmailRs.joined c c' published) := by
  obtain ⟨added, hlog, hcount⟩ := hended.published
  obtain ⟨added', hlog', hcount'⟩ := hafter.published
  have hbranch : ended.journal.log = c.journal.log ++ added := hlog
  have hboth : c'.journal.log = ended.journal.log ++ added' := hlog'
  refine ⟨hafter.suspended.trans hparent, added ++ added', ?_, ?_⟩
  · show c'.journal.log = c.journal.log ++ (added ++ added')
    rw [hboth, hbranch, List.append_assoc]
  · intro hfits
    rw [deliveries_append] at hfits ⊢
    have hfirst : ended.published = 0 + deliveries added := hcount (by simp [startBranch]; omega)
    have hsecond : c'.published = c.published + deliveries added' :=
      hcount' (by simp only [besideBranch]; omega)
    show published = c.published + (deliveries added + deliveries added')
    rcases hpublished with hsome | ⟨hnone, -⟩
    · have htotal := (checkedAdd_eq_some.mp hsome).2
      omega
    · have hfit : c'.published + ended.published ≤ usizeMax := by omega
      rw [checkedAdd, if_pos hfit] at hnone
      exact nomatch hnone

end Accounts

theorem suspended_finalState {ε α : Type}
    {operation : HostOperation (OrderedDeliveryHost κ Lock) ε α} (h : KeepsSuspended operation)
    (state : RuntimeVariables × OrderedDeliveryHost κ Lock) :
    (finalState (operation state)).2.suspendedGlobalLocks = state.2.suspendedGlobalLocks :=
  Ends.finalState (P := fun after : RuntimeVariables × OrderedDeliveryHost κ Lock =>
    after.2.suspendedGlobalLocks = state.2.suspendedGlobalLocks) (h state)

/-- A call of the host that is no delivery. -/
theorem keeps_accounts_callHost {ε α : Type} {call : HostCall}
    {operation : HostOperation (OrderedDeliveryHost κ Lock) ε α} (hcall : call.isDelivery = false)
    (hkeeps : KeepsSuspended operation) :
    Keeps Accounts
      (callHost call operation : Exec (OrderedDeliveryHost κ Lock) E (Except ε α)) := by
  intro c
  refine (ends_callHost call operation c).mono ?_ fun _ _ h => h.elim
  rintro result c' rfl
  refine .answered (suspended_finalState hkeeps _) ?_
  cases result.isOk with
  | true => exact hcall
  | false => rfl

/-- A delivery is counted exactly if the host accepts it. -/
theorem keeps_accounts_deliverMessage (services : HostServices κ Lock E)
    (destination : BoundDestination) (message : Bytes) (status : MessageStatus)
    (outputEnding : OutputEnding) (lock : Option Bytes) (continuation : ContinuationMode) :
    Keeps Accounts (deliverMessage (orderedDeliveryHost services) destination message status
      outputEnding lock continuation) := by
  intro c
  have hkeeps : KeepsSuspended
      ((orderedDeliveryHost services).deliver destination message status outputEnding lock) :=
    keepsSuspended_serve _
  unfold deliverMessage
  have hcall := ends_callHost
    (.Deliver destination message status outputEnding lock continuation)
    ((orderedDeliveryHost services).deliver destination message status outputEnding lock) c
  refine Ends.bind (hcall.mono (fun _ _ h => h) fun _ _ h => h.elim) ?_
  rintro result c' rfl
  cases result with
  | ok value => exact .counted (suspended_finalState hkeeps _) rfl
  | error error => exact .answered (suspended_finalState hkeeps _) rfl

theorem tolerant_accounts {L : Type} [RcSource L] (services : HostServices κ Lock E) (loader : L) :
    Tolerant (orderedDeliveryHost services) loader Accounts where
  toComposable := Accounts.composable
  silent h := .of_log_eq (by rw [h.host]) (by rw [h.journal]) h.published
  callHost hoperation :=
    keeps_accounts_callHost hoperation.not_isDelivery
      (keepsSuspended_of_isOperation services hoperation)
  loadFile := by
    intro expression statement c
    unfold Ends OrderedTreeExecution.loadFile
    cases RcSource.load loader expression statement c.runtime c.depth c.rc with
    | ok loaded rc => exact .of_log_eq rfl rfl rfl
    | error error rc => exact .of_log_eq rfl rfl rfl

theorem persistent_accounts {L : Type} [RcSource L] (services : HostServices κ Lock E) (loader : L) :
    Persistent (orderedDeliveryHost services) loader Accounts where
  toTolerant := tolerant_accounts services loader
  statement _ := .record rfl
  recipe _ _ _ := .record rfl
  deliver := keeps_accounts_deliverMessage services
  externalAction _ _ _ _ := keeps_accounts_callHost rfl (keepsSuspended_serve _)
  nested h := ⟨h.suspended, h.published⟩
  file _ h := ⟨h.suspended, h.published⟩
  waited h := ⟨(globalLock_leaveCopyBranch services h.suspended).2, h.published⟩
  unwaited := by
    intro c ended after branchHost parentHost hfork hended hafter published hpublished
    have hparent : parentHost.suspendedGlobalLocks = c.host.suspendedGlobalLocks := by
      cases hfork
      rfl
    exact .joined hparent hended hafter hpublished

/-! ### The parent -/

/-- What a waited copy block has left of its parent. -/
structure Untouched (parent after : OrderedTreeExecution (OrderedDeliveryHost κ Lock) E) : Prop where
  runtime : after.runtime = parent.runtime
  currentMessage : after.currentMessage = parent.currentMessage
  originalDelivered : after.originalDelivered = parent.originalDelivered
  depth : after.depth = parent.depth
  globalLock : after.host.globalLock = parent.host.globalLock
  suspended : after.host.suspendedGlobalLocks = parent.host.suspendedGlobalLocks
  published : ∃ added, after.journal.log = parent.journal.log ++ added ∧
    (parent.published + deliveries added ≤ usizeMax →
      after.published = parent.published + deliveries added)

theorem untouched_afterWaited (services : HostServices κ Lock E)
    {parent ended : OrderedTreeExecution (OrderedDeliveryHost κ Lock) E}
    (h : Accounts (waitedBranch (orderedDeliveryHost services) parent) ended) :
    Untouched parent (afterWaited (orderedDeliveryHost services) parent ended) := by
  have hlock := globalLock_leaveCopyBranch services h.suspended
  exact ⟨rfl, rfl, rfl, rfl, hlock.1, hlock.2, h.published⟩

theorem Untouched.pendingError {parent after : OrderedTreeExecution (OrderedDeliveryHost κ Lock) E}
    (h : Untouched parent after) (pendingError : Option E) :
    Untouched parent { after with pendingError := pendingError } :=
  ⟨h.runtime, h.currentMessage, h.originalDelivered, h.depth, h.globalLock, h.suspended,
    h.published⟩

/-- Where the branch of a waited block ends. -/
def branchEnd {σ α : Type} (branch : Exec σ E α) (start : OrderedTreeExecution σ E) :
    OrderedTreeExecution σ E :=
  match branch start with
  | .ok _ ended => ended
  | .error _ ended => ended

/-- The branch of a copied block in a sequence: the recipe, then the recipes behind it. -/
def blockBranch {σ L : Type} [RcSource L] (host : OrderedExecutionHost σ E) (loader : L) (levels : Nat)
    (trailing : List CompiledStatement) (state : ChainState) (recipe : CompiledNode)
    (rest : List CompiledNode) : Exec σ E OrderedActionResult :=
  copyBranch (executeNode host loader (executeSequenceOrdered host loader levels) recipe)
    fun action =>
      executeOrderedFrom host loader (executeSequenceOrdered host loader levels) trailing
        (state.copy recipe action) .Succeeded rest

/-- A waited copy block leaves its parent untouched, however the branch ends. A branch that fails leaves
the pending error of the parent as well; otherwise it is that of the branch. -/
theorem waited_copy_block_restores_parent {L : Type} [RcSource L]
    (services : HostServices κ Lock E) (loader : L) (levels : Nat)
    (trailing : List CompiledStatement) (state : ChainState) (recipe : CompiledNode)
    (rest : List CompiledNode)
    (parent : OrderedTreeExecution (OrderedDeliveryHost κ Lock) E) :
    Ends
      (executeWaitedCopyBlock (orderedDeliveryHost services)
        (blockBranch (orderedDeliveryHost services) loader levels trailing state recipe rest))
      parent
      (fun _ after => Untouched parent after ∧
        after.pendingError =
          (branchEnd (blockBranch (orderedDeliveryHost services) loader levels trailing state
            recipe rest) (waitedBranch (orderedDeliveryHost services) parent)).pendingError)
      (fun _ after => Untouched parent after ∧ after.pendingError = parent.pendingError) := by
  have hR := persistent_accounts services loader
  have hchild := hR.executeSequenceOrdered levels
  have hbranch : Keeps Accounts
      (blockBranch (orderedDeliveryHost services) loader levels trailing state recipe rest) :=
    hR.copyBranch (hR.executeNode hchild recipe) fun _ =>
      hR.executeOrderedFrom hchild trailing rest _ _
  have hended := hbranch (waitedBranch (orderedDeliveryHost services) parent)
  unfold Ends at hended ⊢
  unfold executeWaitedCopyBlock branchEnd
  cases hrun : blockBranch (orderedDeliveryHost services) loader levels trailing state recipe
      rest (waitedBranch (orderedDeliveryHost services) parent) with
  | error error ended =>
    rw [hrun] at hended
    simp only [waitedBranch] at hrun
    simp only [hrun]
    exact ⟨untouched_afterWaited services hended, trivial⟩
  | ok value ended =>
    rw [hrun] at hended
    simp only [waitedBranch] at hrun
    simp only [hrun]
    have huntouched := untouched_afterWaited services hended
    cases hpending : ended.pendingError with
    | none => exact ⟨huntouched.pendingError none, rfl⟩
    | some error => exact ⟨huntouched.pendingError (some error), rfl⟩

/-! ### A branch that fails -/

/-- Everything succeeds but the deliveries: to `first/` they fail recoverably, elsewhere for good. -/
def failingServices : HostServices Unit Unit String where
  dryRun := false
  checkSignal := pure ()
  acquireConfiguredLock _ := pure ()
  releaseLock _ := id
  classifyExecutionError error := .Recoverable error
  deliver destination _ _ _ _ :=
    throw (if destination.path = strBytes "first/" then .Recoverable "first" else .Fatal "other")
  externalAction _ _ _ _ := pure none
  capture _ _ _ _ _ := pure []
  externalCondition _ _ := pure true
  forkRunner _ := ((), ())
  finishBackground _ := (.ok (), ())
  complete _ _ := id

/-- The parent behind a copy to `first/` that has failed. -/
def parentBehindFailure : OrderedTreeExecution (OrderedDeliveryHost Unit Unit) String :=
  branchEnd
    (executeSequenceOrdered (orderedDeliveryHost failingServices) (none : RcLoader) 1
      ⟨[plainRecipe .Independent .Continue (.Deliver (maildir "first/") .Continue .Normalize)], []⟩)
    ((smallPlan []).startOrdered (.Mapped [LF] 1 none none) (RuntimeVariables.default []) ⟨(), none, []⟩ .new)

/-- A waited copy block that delivers elsewhere. -/
def failingBlock : CompiledNode :=
  ⟨2, [], none, .Independent, .Continue, .Wait, [],
    .Block ⟨[plainRecipe .Independent .Stop (.Deliver (maildir "other/") .Stop .Normalize)], []⟩⟩

/-- The branch fails without a pending error of its own, and the parent still has its old one. -/
theorem failed_branch_leaves_error_of_parent :
    ¬Ends
      (executeWaitedCopyBlock (orderedDeliveryHost failingServices)
        (blockBranch (orderedDeliveryHost failingServices) (none : RcLoader) 1 [] ChainState.default
          failingBlock []))
      parentBehindFailure
      (fun _ after => after.pendingError = none ∨ after.pendingError =
        (branchEnd (blockBranch (orderedDeliveryHost failingServices) (none : RcLoader) 1 []
          ChainState.default failingBlock [])
          (waitedBranch (orderedDeliveryHost failingServices) parentBehindFailure)).pendingError)
      (fun _ after => after.pendingError = none ∨ after.pendingError =
        (branchEnd (blockBranch (orderedDeliveryHost failingServices) (none : RcLoader) 1 []
          ChainState.default failingBlock [])
          (waitedBranch (orderedDeliveryHost failingServices) parentBehindFailure)).pendingError) := by
  rintro (hnone | hbranch)
  · exact nomatch hnone
  · exact nomatch hbranch

end ProcmailRs
