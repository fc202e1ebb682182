import ProcmailRs.Eval.Tree

/-!
# The chain of recipes

What a recipe has to know of the ones before it stands in the state of its sequence. An `E` recipe is for
the case that nothing before it has matched: neither the recipe in front of its run of `E` recipes nor
one of the run. The state carries this along as `elseHandled`. The branch of a copied block, and the
parent that runs on beside it, start with `elseHandled` unset although the block has matched.

A `ChainState` is such a state with the recipes that the path has left behind. No operation reads them.
While deliveries are planned nothing is copied.
-/

namespace ProcmailRs

/-- A recipe that a path has left behind in the sequence. `copied` says that it was a copied block and
that the path is the branch it started, or the parent that ran on beside the branch. -/
structure Passed where
  control : ControlFlow
  matched : Bool
  copied : Bool
  deriving DecidableEq, Repr

/-- The recipe in front of the run of `E` recipes that comes next, or one of the run, has matched. -/
def handled (passed : List Passed) : Bool :=
  passed.foldl (fun before recipe =>
    if recipe.control = .Else then before || recipe.matched else recipe.matched) false

/-- A copied block that had matched was the last to match, and the path is the branch it started or the
parent beside that. -/
def dropped (passed : List Passed) : Bool :=
  passed.foldl (fun before recipe =>
    if recipe.copied then recipe.matched
    else if recipe.control = .Else then before && !recipe.matched
    else false) false

/-- What the state of the sequence carries along. -/
def recorded (passed : List Passed) : Bool :=
  passed.foldl (fun before recipe =>
    if recipe.copied then false
    else if recipe.control = .Else then before || recipe.matched
    else recipe.matched) false

theorem handled_concat (passed : List Passed) (recipe : Passed) :
    handled (passed ++ [recipe]) =
      if recipe.control = .Else then handled passed || recipe.matched else recipe.matched := by
  simp [handled, List.foldl_append]

theorem dropped_concat (passed : List Passed) (recipe : Passed) :
    dropped (passed ++ [recipe]) =
      if recipe.copied then recipe.matched
      else if recipe.control = .Else then dropped passed && !recipe.matched
      else false := by
  simp [dropped, List.foldl_append]

theorem recorded_concat (passed : List Passed) (recipe : Passed) :
    recorded (passed ++ [recipe]) =
      if recipe.copied then false
      else if recipe.control = .Else then recorded passed || recipe.matched
      else recipe.matched := by
  simp [recorded, List.foldl_append]

/-- Only a recipe that has matched is copied. -/
def CopiedMatched (passed : List Passed) : Prop :=
  ∀ recipe ∈ passed, recipe.copied = true → recipe.matched = true

theorem CopiedMatched.concat {passed : List Passed} (h : CopiedMatched passed) {recipe : Passed}
    (hrecipe : recipe.copied = true → recipe.matched = true) : CopiedMatched (passed ++ [recipe]) := by
  intro other hother
  rcases List.mem_append.mp hother with hother | hother
  · exact h other hother
  · rw [List.mem_singleton.mp hother]
    exact hrecipe

/-- The state of the sequence behind these recipes. -/
structure SequenceState.Tracks (state : SequenceState) (passed : List Passed) : Prop where
  previous : (state.previous.any fun result => result.elseHandled) = recorded passed
  copied : CopiedMatched passed

namespace SequenceState.Tracks

variable {state : SequenceState} {passed : List Passed}

theorem default : SequenceState.default.Tracks [] := ⟨rfl, by simp [CopiedMatched]⟩

/-- The main loop records what has happened. -/
theorem record (h : state.Tracks passed) (recipe : CompiledNode) (matched : Bool)
    (action : ActionExecution) :
    (state.record recipe.control matched action (recipe.elseHandled state matched)).Tracks
      (passed ++ [⟨recipe.control, matched, false⟩]) := by
  refine ⟨?_, h.copied.concat fun hcopied => absurd hcopied Bool.false_ne_true⟩
  rw [recorded_concat, ← h.previous]
  rfl

/-- The branch of a copied block and the parent beside it do not. -/
theorem copy (h : state.Tracks passed) (control : ControlFlow) (action : ActionExecution) :
    (state.record control true action false).Tracks (passed ++ [⟨control, true, true⟩]) := by
  refine ⟨?_, h.copied.concat fun _ => rfl⟩
  rw [recorded_concat]
  rfl

end SequenceState.Tracks

/-- The state of a sequence, with the recipes that the path has left behind. -/
structure ChainState extends SequenceState where
  passed : List Passed
  tracks : toSequenceState.Tracks passed
  deriving DecidableEq, Repr

namespace ChainState

/-- Before the first recipe. -/
def default : ChainState := ⟨SequenceState.default, [], .default⟩

/-- Behind a recipe. -/
def record (state : ChainState) (recipe : CompiledNode) (conditionsMatched : Bool)
    (action : ActionExecution) : ChainState where
  toSequenceState := state.toSequenceState.record recipe.control conditionsMatched action
    (recipe.elseHandled state.toSequenceState conditionsMatched)
  passed := state.passed ++ [⟨recipe.control, conditionsMatched, false⟩]
  tracks := state.tracks.record recipe conditionsMatched action

/-- Behind a copied block, in the branch or in the parent beside it. -/
def copy (state : ChainState) (recipe : CompiledNode) (action : ActionExecution) : ChainState where
  toSequenceState := state.toSequenceState.record recipe.control true action false
  passed := state.passed ++ [⟨recipe.control, true, true⟩]
  tracks := state.tracks.copy recipe.control action

end ChainState

/-- The state of a sequence that is planned. -/
structure PlanningState extends ChainState where
  uncopied : dropped passed = false
  deriving DecidableEq, Repr

namespace PlanningState

/-- Before the first recipe. -/
def default : PlanningState := ⟨.default, rfl⟩

/-- Behind a recipe. -/
def record (state : PlanningState) (recipe : CompiledNode) (conditionsMatched : Bool)
    (action : ActionExecution) : PlanningState where
  toChainState := state.toChainState.record recipe conditionsMatched action
  uncopied := by
    have h := state.uncopied
    simp [ChainState.record, dropped_concat, h]

end PlanningState

end ProcmailRs
