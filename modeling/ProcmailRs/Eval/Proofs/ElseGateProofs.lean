import ProcmailRs.Eval.ElseChain
import ProcmailRs.Eval.Proofs.ExecutionProofs

/-!
# The else gate

The executor and the planners treat every sequence as the chain says: an `E` recipe that is not attempted
is left behind without a test or an action. What a state carries along differs from what has happened
exactly where a copied block was dropped from the chain.
-/

namespace ProcmailRs

open Outcome OrderedTreeExecution

variable {σ E : Type}

/-- What is recorded differs from what has happened exactly where it was dropped. -/
theorem handled_eq (passed : List Passed) (h : CopiedMatched passed) :
    handled passed = (recorded passed || dropped passed) ∧
      (recorded passed && dropped passed) = false := by
  induction passed using List.reverseRecOn with
  | nil => exact ⟨rfl, rfl⟩
  | append_singleton passed recipe ih =>
    obtain ⟨heq, hdisjoint⟩ := ih fun other hother => h other (by simp [hother])
    have hmatched := h recipe (by simp)
    rw [handled_concat, recorded_concat, dropped_concat, heq]
    rcases recipe with ⟨control, matched, copied⟩
    by_cases hcontrol : control = .Else
    · cases copied with
      | true =>
        have htrue : matched = true := hmatched rfl
        simp [htrue, hcontrol]
      | false => cases matched <;> simp [hcontrol, hdisjoint]
    · cases copied with
      | true =>
        have htrue : matched = true := hmatched rfl
        simp [htrue, hcontrol]
      | false => simp [hcontrol]

namespace CompiledNode

variable (recipe : CompiledNode)

/-- The gate of the executor is that of the chain. -/
theorem executionGate_eq_attempted (state : ChainState) :
    recipe.executionGate state.toSequenceState = recipe.attempted state := by
  unfold attempted
  split_ifs with hcontrol
  · have hgate : recipe.executionGate state.toSequenceState = !recorded state.passed := by
      rw [← state.tracks.previous, executionGate, hcontrol]
      cases state.previous with
      | none => rfl
      | some result => rfl
    obtain ⟨heq, hdisjoint⟩ := handled_eq state.passed state.tracks.copied
    rw [hgate, heq]
    cases hr : recorded state.passed with
    | true =>
      rw [hr, Bool.true_and] at hdisjoint
      rw [hdisjoint]
      rfl
    | false => cases dropped state.passed <;> rfl
  · rfl

/-- So is the gate of the planners. -/
theorem planningGate_eq_attempted (state : PlanningState) :
    recipe.planningGate state.toSequenceState = recipe.attemptedPlanning state := by
  unfold attemptedPlanning
  split_ifs with hcontrol
  · have hgate : recipe.planningGate state.toSequenceState = !recorded state.passed := by
      rw [← state.tracks.previous, planningGate, hcontrol]
      cases state.previous with
      | none => rfl
      | some result => rfl
    rw [hgate, (handled_eq state.passed state.tracks.copied).1, state.uncopied, Bool.or_false]
  · rfl

/-- An `E` recipe is attempted exactly if nothing in its chain has matched, unless a copied block has been
dropped from the chain. -/
theorem attempted_else_iff (state : ChainState) (h : recipe.control = .Else) :
    (recipe.attempted state = true ↔ handled state.passed = false) ↔
      dropped state.passed = false := by
  obtain ⟨heq, hdisjoint⟩ := handled_eq state.passed state.tracks.copied
  rw [attempted, if_pos h, heq]
  cases hr : recorded state.passed with
  | true =>
    rw [hr, Bool.true_and] at hdisjoint
    simp [hdisjoint]
  | false => cases dropped state.passed <;> simp

end CompiledNode

/-! ### By the chain -/

section Ordered

variable {L : Type} [RcSource L] (host : OrderedExecutionHost σ E) (loader : L)
variable (child : CompiledSequence → Exec σ E OrderedActionResult)

theorem executeOrderedFrom_eq_byChain (trailing : List CompiledStatement)
    (recipes : List CompiledNode) (state : ChainState) (before : ActionExecution) :
    executeOrderedFrom host loader child trailing state before recipes =
      executeByChain host loader child trailing state before recipes := by
  induction recipes generalizing state before with
  | nil =>
    unfold executeOrderedFrom executeByChain
    rfl
  | cons recipe rest ih =>
    unfold executeOrderedFrom executeByChain
    simp only [ih, recipe.executionGate_eq_attempted]
    refine bind_congr fun control => ?_
    split_ifs with hcontrol hattempted
    · rfl
    · simp only [hattempted]
      rfl
    · simp only [Bool.eq_false_of_not_eq_true hattempted]
      rfl

theorem executeSequence_eq_byChain (sequence : CompiledSequence) :
    executeSequence host loader child sequence =
      executeSequenceByChain host loader child sequence := by
  rcases sequence with ⟨recipes, trailing⟩
  unfold executeSequence
  exact executeOrderedFrom_eq_byChain host loader child trailing recipes _ _

end Ordered

section Complete

variable {L : Type} [RcSource L] (loader : L) (child : CompiledSequence → CompletePlan SequenceControl)

theorem planCompleteFrom_eq_byChain (trailing : List CompiledStatement)
    (recipes : List CompiledNode) (state : PlanningState) :
    planCompleteFrom loader child trailing state.toSequenceState recipes =
      planByChain loader child trailing state recipes := by
  induction recipes generalizing state with
  | nil =>
    unfold planCompleteFrom planByChain
    rfl
  | cons recipe rest ih =>
    have hrest := fun matched action => ih (state.record recipe matched action)
    unfold planCompleteFrom planByChain
    simp only [recipe.planningGate_eq_attempted, ← hrest]
    refine bind_congr fun control => ?_
    split_ifs with hcontrol hattempted
    · rfl
    · simp only [hattempted, testComplete]
      rfl
    · simp only [Bool.eq_false_of_not_eq_true hattempted]
      rfl

theorem planComplete_eq_byChain (sequence : CompiledSequence) :
    planComplete loader child sequence = planSequenceByChain loader child sequence := by
  rcases sequence with ⟨recipes, trailing⟩
  unfold planComplete
  exact planCompleteFrom_eq_byChain loader child trailing recipes .default

theorem resumeRecipe_eq_byChain (frame : ContinuationFrame) (recipe : CompiledNode)
    (rest : List CompiledNode) :
    resumeRecipe loader child frame recipe rest =
      resumeRecipeByChain loader child frame recipe rest := by
  unfold resumeRecipe resumeRecipeByChain
  rw [recipe.planningGate_eq_attempted]
  cases recipe.attemptedPlanning frame.state with
  | true => rfl
  | false => rfl

theorem resumeFromFrames_eq_byChain (frames : List ContinuationFrame) (sequence : CompiledSequence) :
    resumeFromFrames loader child frames sequence = resumeByChain loader child frames sequence := by
  induction frames generalizing sequence with
  | nil => rfl
  | cons frame frames ih =>
    unfold resumeFromFrames resumeByChain
    cases sequence.recipes.drop frame.recipeIndex with
    | nil => rfl
    | cons recipe rest =>
      refine bind_congr fun control => ?_
      split_ifs with hcontrol
      · rfl
      · refine congrArg₂ _ ?_ (funext fun result => ?_)
        · cases frames with
          | nil => exact resumeRecipe_eq_byChain loader child frame recipe rest
          | cons next frames =>
            cases recipe.action with
            | Block children => simp only [ih]
            | _ => rfl
        · simp only [planCompleteFrom_eq_byChain]

end Complete

section Header

variable {κ L : Type} [RcSource L] (loader : L)
variable (child : CompiledSequence → InputRequirements → HeaderPlan κ E HeaderControl)
variable (capture : HeaderCaptureExecutor κ E)

theorem planHeadersFrom_eq_byChain (trailing : List CompiledStatement)
    (following : InputRequirements) (recipes : List CompiledNode) (state : PlanningState)
    (index : Nat) :
    planHeadersFrom loader child capture trailing following state index recipes =
      planHeadersByChain loader child capture trailing following state index recipes := by
  induction recipes generalizing state index with
  | nil =>
    unfold planHeadersFrom planHeadersByChain
    rfl
  | cons recipe rest ih =>
    unfold planHeadersFrom planHeadersByChain
    simp only [recipe.planningGate_eq_attempted, ih]
    refine bind_congr fun control => ?_
    split_ifs with hcontrol hattempted
    · rfl
    · simp only [hattempted]
    · simp only [Bool.eq_false_of_not_eq_true hattempted]
      rfl

theorem planHeaders_eq_byChain (following : InputRequirements) (sequence : CompiledSequence) :
    planHeaders loader child capture following sequence =
      planHeadersSequenceByChain loader child capture following sequence := by
  rcases sequence with ⟨recipes, trailing⟩
  unfold planHeaders
  exact planHeadersFrom_eq_byChain loader child capture trailing following recipes .default 0

end Header

/-! ### The log -/

/-- A recipe is logged as the chain behind it says. -/
def Event.Follows : Event → Prop
  | .Recipe control passed attempted =>
    ∃ (recipe : CompiledNode) (state : ChainState), recipe.control = control ∧
      state.passed = passed ∧ recipe.attempted state = attempted
  | _ => True

/-- Everything that was logged in between follows the chain of its sequence. -/
def Adds (before after : OrderedTreeExecution σ E) : Prop :=
  ∃ added, after.journal.log = before.journal.log ++ added ∧ ∀ event ∈ added, event.2.Follows

theorem Adds.congr {before before' after after' : OrderedTreeExecution σ E} (h : Adds before after)
    (hb : before'.journal.log = before.journal.log) (ha : after'.journal.log = after.journal.log) :
    Adds before' after' := by
  obtain ⟨added, hlog, hadded⟩ := h
  exact ⟨added, by rw [hb, ha, hlog], hadded⟩

theorem Adds.record {c : OrderedTreeExecution σ E} {event : Event} (h : event.Follows) :
    Adds c { c with journal := c.journal.record event } :=
  ⟨[(c.journal.path, event)], rfl, by simpa using h⟩

theorem Adds.answered (c : OrderedTreeExecution σ E) (call : HostCall) (succeeded : Bool)
    (runtime : RuntimeVariables) (host : σ) : Adds c (c.answered call succeeded runtime host) :=
  ⟨[(c.journal.path, .Host call succeeded c.journal.detached)], rfl, by simp [Event.Follows]⟩

theorem composable_adds : Composable (Adds (σ := σ) (E := E)) where
  refl c := ⟨[], by simp, by simp⟩
  trans := by
    rintro c c' c'' ⟨added, hlog, hadded⟩ ⟨added', hlog', hadded'⟩
    refine ⟨added ++ added', by rw [hlog', hlog, List.append_assoc], fun event hevent => ?_⟩
    rcases List.mem_append.mp hevent with hevent | hevent
    · exact hadded event hevent
    · exact hadded' event hevent

theorem persistent_adds {L : Type} [RcSource L] (host : OrderedExecutionHost σ E) (loader : L) :
    Persistent host loader Adds where
  toTolerant := .of_journal composable_adds (fun h => ⟨[], by rw [h, List.append_nil], by simp⟩)
    fun _ _ _ _ => Adds.record trivial
  statement _ := Adds.record trivial
  recipe _ recipe state :=
    Adds.record ⟨recipe, state, rfl, rfl, (recipe.executionGate_eq_attempted state).symm⟩
  deliver := keeps_deliverMessage composable_adds Adds.answered
    (fun c _ => (composable_adds.refl c).congr rfl rfl) host
  externalAction _ _ _ _ := keeps_callHost (fun c => Adds.answered c _) _
  nested h := h.congr rfl rfl
  file _ h := h.congr rfl rfl
  waited h := h.congr rfl rfl
  unwaited _ hended hafter _ _ :=
    (composable_adds.trans (hended.congr rfl rfl) hafter).congr rfl rfl

/-- Every recipe in the log of a run follows the chain of its sequence. -/
theorem follows_orderedLog {L : Type} [RcSource L] (plan : ExecutionPlan L)
    (host : OrderedExecutionHost σ E) (input : MappedMessageInput) (runtime : RuntimeVariables)
    (hostState : σ) (rc : RuntimeRcState) :
    ∀ event ∈ plan.orderedLog host input runtime hostState rc, event.2.Follows := by
  rcases orderedLog_cases plan host input runtime hostState rc with hlog | ⟨message, hlog⟩
  · simp [hlog]
  · have hkeeps := (persistent_adds host plan.loader).executeSequenceOrdered (maxRcIncludeDepth + 1)
      plan.root (plan.startOrdered message runtime hostState rc)
    unfold Ends at hlog hkeeps
    split at hlog
    · rename_i heq
      rw [heq] at hkeeps
      obtain ⟨added, hadded, hfollows⟩ := hkeeps
      rw [hlog, hadded]
      exact hfollows
    · rename_i heq
      rw [heq] at hkeeps
      obtain ⟨added, hadded, hfollows⟩ := hkeeps
      rw [hlog, hadded]
      exact hfollows

/-- Execution in order and every kind of planning go by the chain; an `E` recipe that a run reaches is
attempted exactly if nothing in its chain has matched, unless a copied block has been dropped from the
chain. -/
theorem else_gate_follows_chain {κ L : Type} [RcSource L] (plan : ExecutionPlan L)
    (host : OrderedExecutionHost σ E) (capture : HeaderCaptureExecutor κ E) :
    (∀ levels sequence, executeSequenceOrdered host plan.loader (levels + 1) sequence =
      executeSequenceByChain host plan.loader (executeSequenceOrdered host plan.loader levels)
        sequence) ∧
    (∀ input runtime hostState rc path passed attempted,
      (path, .Recipe .Else passed attempted) ∈ plan.orderedLog host input runtime hostState rc →
        ((attempted = true ↔ handled passed = false) ↔ dropped passed = false)) ∧
    (∀ levels sequence, planCompleteSequence plan.loader (levels + 1) sequence =
      planSequenceByChain plan.loader (planCompleteSequence plan.loader levels) sequence) ∧
    (∀ levels sequence following,
      planHeadersSequence plan.loader capture (levels + 1) sequence following =
        planHeadersSequenceByChain plan.loader (planHeadersSequence plan.loader capture levels)
          capture following sequence) ∧
    ∀ child frames sequence, resumeFromFrames plan.loader child frames sequence =
      resumeByChain plan.loader child frames sequence := by
  refine ⟨fun levels => executeSequence_eq_byChain host plan.loader _, ?_,
    fun levels => planComplete_eq_byChain plan.loader _,
    fun levels sequence following => planHeaders_eq_byChain plan.loader _ capture following sequence,
    resumeFromFrames_eq_byChain plan.loader⟩
  intro input runtime hostState rc path passed attempted hevent
  obtain ⟨recipe, state, hcontrol, rfl, rfl⟩ :=
    follows_orderedLog plan host input runtime hostState rc _ hevent
  exact recipe.attempted_else_iff state hcontrol

/-- A recipe that matches, and an `E` recipe behind it. -/
def elseBehind (first : CompiledNode) : ExecutionPlan :=
  smallPlan [first, plainRecipe .Else .Stop (.Deliver (maildir "else/") .Stop .Normalize)]

theorem else_gate_follows_chain_behind_copy :
    (0, Event.Recipe .Else [⟨.Independent, true, false⟩] false) ∈
      (elseBehind (plainRecipe .Independent .Continue
        (.Deliver (maildir "copy/") .Continue .Normalize))).orderedLog acceptingHost ⟨[LF], 1, none⟩
        (RuntimeVariables.default []) () RuntimeRcState.new ∧
    ((false = true ↔ handled [⟨.Independent, true, false⟩] = false) ↔
      dropped [⟨.Independent, true, false⟩] = false) :=
  ⟨by decide +kernel,
    (else_gate_follows_chain
      (elseBehind (plainRecipe .Independent .Continue
        (.Deliver (maildir "copy/") .Continue .Normalize))) acceptingHost
      (fun _ _ _ _ _ => throw (.Fatal ()) : HeaderCaptureExecutor Unit Unit)).2.1 ⟨[LF], 1, none⟩
      (RuntimeVariables.default []) () RuntimeRcState.new 0 _ false (by decide +kernel)⟩

/-- Behind a copied block that matches, the `E` recipe is attempted in the branch and in the parent. -/
theorem else_behind_copied_block_attempted :
    ¬∀ path passed attempted,
      (path, Event.Recipe .Else passed attempted) ∈
        (elseBehind (plainRecipe .Independent .Continue (.Block ⟨[], []⟩))).orderedLog acceptingHost
          ⟨[LF], 1, none⟩ (RuntimeVariables.default []) () RuntimeRcState.new →
      (attempted = true ↔ handled passed = false) := by
  intro h
  have hparent := h 0 [⟨.Independent, true, true⟩] true (by decide +kernel)
  exact absurd (hparent.mp rfl) (by decide)

end ProcmailRs
