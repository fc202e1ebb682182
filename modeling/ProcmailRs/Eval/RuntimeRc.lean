import ProcmailRs.Config.ParseBudget
import ProcmailRs.Eval.Tree
import ProcmailRs.Lib.Lockstep

/-!
# Rc files loaded while a message is evaluated

`INCLUDERC` and `SWITCHRC` load a file when they are reached. Nesting and the number of transitions
are bounded; the transitions are counted for the plan as a whole.

The evaluation takes its files from an `RcSource`. The simplest one is a function from the path of a
file to its compiled sequence: there a statement that keeps the sequences it has loaded finds what it
would load again. A source that reads files remembers what it has read. In both a run that is repeated
finds the files it has found before.
-/

namespace ProcmailRs

/-- How deep rc files may be nested. -/
def maxRcIncludeDepth : Nat := 16

/-- How many files one run may be sent to. -/
def maxRcTransitions : Nat := 256

/-- How many files may be opened, the root file included. -/
def maxRcFileCount : Nat := 32

/-- The error of a run without a level for a loaded file. The plans have levels for every depth that is
allowed, so none of their runs ends with it. -/
def noLevelLeft : EvalError := .RuntimeRc "no level is left for a loaded file"

/-- What the loader finds under a path. -/
inductive RcFile
  | Limit (message : String)
  | Unusable
  | Config (path : Bytes) (sequence : CompiledSequence)

/-- A loader that finds the same sequence under a path whenever it is asked, or no loader. -/
abbrev RcLoader := Option (Bytes → RcFile)

/-- `RcFileLoader::load_config`: an empty path names no file, and nesting is bounded before the file
is looked at. -/
def loadRuntimeConfig (files : Bytes → RcFile) (path : Bytes) (depth : Nat) : Option RcFile :=
  if path.isEmpty then none
  else if depth > maxRcIncludeDepth then
    some (.Limit "rc nesting exceeds the hard limit of 16")
  else some (files path)

/-- The two statements that load a file. -/
inductive RuntimeRcStatement
  | Include
  | Switch
  deriving DecidableEq, Repr

/-- The word of the statement. -/
def RuntimeRcStatement.name : RuntimeRcStatement → String
  | .Include => "INCLUDERC"
  | .Switch => "SWITCHRC"

/-- What a statement goes on with: nothing, the file it could not use, or the sequence of a file. -/
inductive LoadedRuntimeRc
  | Empty
  | Failed
  | Sequence (path : Bytes) (sequence : CompiledSequence)

/-- Where a statement keeps a file it has loaded. A statement stands in one tree, so `depth`, that of
the loaded file, is the same whenever it is reached. -/
structure RcMemoryKey where
  statement : Nat
  depth : Nat
  path : Bytes
  deriving DecidableEq

/-- What a source that reads files remembers: what it has read, what has been parsed, and what each
statement has loaded. `statements` is the number of the next statement that is compiled. -/
structure RcMemory where
  filesRead : Nat
  bytesRead : Nat
  parseState : Config.ParseBudget
  statements : Nat
  loaded : RcMemoryKey → Option LoadedRuntimeRc
  filesRead_le : filesRead ≤ maxRcFileCount
  loaded_shallow : ∀ {key path sequence}, loaded key = some (.Sequence path sequence) →
    key.depth ≤ maxRcIncludeDepth

namespace RcMemory

/-- Only the root file has been read. -/
def root (bytesRead : Nat) (counts : Config.RcParseCounts) (statements : Nat) : RcMemory where
  filesRead := 1
  bytesRead := bytesRead
  parseState := .reset counts
  statements := statements
  loaded _ := none
  filesRead_le := by decide
  loaded_shallow := (fun h => nomatch h)

end RcMemory

/-- The part of the plan that its runs share. -/
structure RuntimeRcState where
  transitions : Nat
  dynamicOrderedDelivery : Bool
  dynamicBodyContents : Bool
  dynamicFullMatching : Bool
  memory : RcMemory

namespace RuntimeRcState

/-- Nothing has been loaded. -/
def new : RuntimeRcState := ⟨0, false, false, false, .root 0 ⟨0, 0, 0, 0, 0⟩ 0⟩

/-- The transitions are counted anew, everything else is kept. -/
def resetTransitions (state : RuntimeRcState) : RuntimeRcState := { state with transitions := 0 }

/-- What the properties of a loaded file add to those of the plan. -/
def loaded (state : RuntimeRcState) (properties : PlanProperties) : RuntimeRcState :=
  { state with
    dynamicOrderedDelivery := state.dynamicOrderedDelivery || properties.requiresOrderedDelivery
    dynamicBodyContents := state.dynamicBodyContents || properties.requirements.needsBodyContents
    dynamicFullMatching := state.dynamicFullMatching || properties.needsFullMatching }

/-! ### What is known about loaded files -/

/-- The properties of a loaded file are among those of the plan. -/
structure Covers (state : RuntimeRcState) (properties : PlanProperties) : Prop where
  ordered : properties.requiresOrderedDelivery = true → state.dynamicOrderedDelivery = true
  body : properties.requirements.needsBodyContents = true → state.dynamicBodyContents = true
  full : properties.needsFullMatching = true → state.dynamicFullMatching = true

/-- Every file that a statement remembers has its properties among those of the plan. -/
def Consistent (state : RuntimeRcState) : Prop :=
  ∀ key path sequence, state.memory.loaded key = some (.Sequence path sequence) →
    state.Covers sequence.properties

/-- What is known in `state` is still known in `later`. -/
structure Before (state later : RuntimeRcState) : Prop where
  ordered : state.dynamicOrderedDelivery = true → later.dynamicOrderedDelivery = true
  body : state.dynamicBodyContents = true → later.dynamicBodyContents = true
  full : state.dynamicFullMatching = true → later.dynamicFullMatching = true
  loaded : ∀ key found, state.memory.loaded key = some found →
    later.memory.loaded key = some found

/-- No transition has been counted and no statement has loaded a file. -/
structure Fresh (state : RuntimeRcState) : Prop where
  transitions : state.transitions = 0
  loaded : ∀ key, state.memory.loaded key = none

variable {state after : RuntimeRcState} {properties : PlanProperties}

theorem Fresh.consistent (h : state.Fresh) : state.Consistent := by
  intro key path sequence hloaded
  rw [h.loaded key] at hloaded
  cases hloaded

theorem Covers.later (h : state.Covers properties) (hafter : state.Before after) :
    after.Covers properties :=
  ⟨fun hp => hafter.ordered (h.ordered hp), fun hp => hafter.body (h.body hp),
    fun hp => hafter.full (h.full hp)⟩

theorem composable_before : Outcome.Composable Before where
  refl _ := ⟨id, id, id, fun _ _ h => h⟩
  trans h h' :=
    ⟨fun hs => h'.ordered (h.ordered hs), fun hs => h'.body (h.body hs),
      fun hs => h'.full (h.full hs),
      fun key found hs => h'.loaded key found (h.loaded key found hs)⟩

theorem covers_loaded (state : RuntimeRcState) (properties : PlanProperties) :
    (state.loaded properties).Covers properties :=
  ⟨fun hp => by simp [loaded, hp], fun hp => by simp [loaded, hp], fun hp => by simp [loaded, hp]⟩

theorem before_loaded (state : RuntimeRcState) (properties : PlanProperties) :
    state.Before (state.loaded properties) :=
  ⟨fun hs => by simp [loaded, hs], fun hs => by simp [loaded, hs], fun hs => by simp [loaded, hs],
    fun _ _ hs => hs⟩

/-- The state behind a statement that goes on with this. -/
def including (state : RuntimeRcState) : LoadedRuntimeRc → RuntimeRcState
  | .Sequence _ sequence => state.loaded sequence.properties
  | _ => state

theorem memory_including (state : RuntimeRcState) (loaded : LoadedRuntimeRc) :
    (state.including loaded).memory = state.memory := by
  cases loaded with
  | Empty => rfl
  | Failed => rfl
  | Sequence path sequence => rfl

theorem transitions_including (state : RuntimeRcState) (loaded : LoadedRuntimeRc) :
    (state.including loaded).transitions = state.transitions := by
  cases loaded with
  | Empty => rfl
  | Failed => rfl
  | Sequence path sequence => rfl

theorem before_including (state : RuntimeRcState) (transitions : Nat) (loaded : LoadedRuntimeRc) :
    state.Before (including { state with transitions := transitions } loaded) := by
  cases loaded with
  | Empty => exact ⟨id, id, id, fun _ _ h => h⟩
  | Failed => exact ⟨id, id, id, fun _ _ h => h⟩
  | Sequence path sequence =>
    have hcounted : state.Before { state with transitions := transitions } :=
      ⟨id, id, id, fun _ _ h => h⟩
    exact composable_before.trans hcounted (before_loaded _ _)

/-- Properties that are known already add nothing. -/
theorem loaded_of_covers (h : state.Covers properties) : state.loaded properties = state := by
  have hor {a b : Bool} (hb : b = true → a = true) : (a || b) = a := by
    cases b with
    | false => exact Bool.or_false a
    | true => rw [hb rfl, Bool.true_or]
  unfold loaded
  rw [hor h.ordered, hor h.body, hor h.full]

end RuntimeRcState

/-- `"/dev/null"`. -/
def devNull : Bytes := strBytes "/dev/null"

/-- Counts a transition within the bound. -/
def recordTransition : EStateM EvalError RuntimeRcState Unit := do
  let state ← get
  if state.transitions + 1 ≤ maxRcTransitions then
    set { state with transitions := state.transitions + 1 }
  else throw (.RuntimeRc "rc transitions exceed the hard limit of 256")

/-- The transition that a statement makes is counted, or there is no transition left. -/
structure Counted (rc rc' : RuntimeRcState) : Prop where
  counted : rc'.transitions = rc.transitions + 1
  bounded : rc'.transitions ≤ maxRcTransitions

/-- What `INCLUDERC` and `SWITCHRC` take their files from, in a file at `depth`. -/
class RcSource (L : Type) where
  load : L → RcFileExpression → RuntimeRcStatement → RuntimeVariables → Nat →
    EStateM EvalError RuntimeRcState LoadedRuntimeRc
  /-- No file is loaded too deep. -/
  shallow : ∀ {loader expression statement runtime depth rc path sequence rc'},
    load loader expression statement runtime depth rc = .ok (.Sequence path sequence) rc' →
      depth + 1 ≤ maxRcIncludeDepth
  /-- Every attempt is a transition; only the one too many is none. -/
  counts : ∀ loader expression statement runtime depth rc,
    Outcome.Ends (load loader expression statement runtime depth) rc (fun _ rc' => Counted rc rc')
      (fun _ rc' => Counted rc rc' ∨ rc' = rc ∧ maxRcTransitions ≤ rc.transitions)
  /-- What is known is not forgotten. -/
  grows : ∀ loader expression statement runtime depth,
    Outcome.Keeps RuntimeRcState.Before (load loader expression statement runtime depth)
  /-- A file that is loaded has its properties among those of the plan. -/
  covers : ∀ {loader expression statement runtime depth rc loaded rc'},
    load loader expression statement runtime depth rc = .ok loaded rc' → rc.Consistent →
      rc'.Consistent ∧ ∀ path sequence, loaded = .Sequence path sequence →
        rc'.Covers sequence.properties
  /-- What has been loaded is found again with everything that is known later. -/
  replays : ∀ {loader expression statement runtime depth rc loaded rc'},
    load loader expression statement runtime depth rc = .ok loaded rc' →
      ∀ later : RuntimeRcState, rc'.Before later →
        load loader expression statement runtime depth
            { later with transitions := rc.transitions } =
          .ok loaded { later with transitions := rc'.transitions }

/-- `load_runtime_rc`, in a file at `depth`. Switching to `/dev/null` ends the current file without
opening anything; a file that cannot be used is skipped, a resource limit is an error. -/
def loadRuntimeRc (loader : RcLoader) (expression : RcFileExpression)
    (statement : RuntimeRcStatement) (runtime : RuntimeVariables) (depth : Nat) :
    EStateM EvalError RuntimeRcState LoadedRuntimeRc := do
  recordTransition
  let path ← liftExcept .Expansion (expression.resolveWith runtime.get)
  if statement = .Switch ∧ path = devNull then return .Empty
  match loader with
  | none => throw (.RuntimeRcLoaderUnavailable expression.line statement.name)
  | some files =>
    match loadRuntimeConfig files path (depth + 1) with
    | none => return .Empty
    | some (.Limit message) =>
      throw (.RuntimeRc s!"line {expression.line}: {statement.name} resource limit: {message}")
    | some .Unusable => return .Failed
    | some (.Config path sequence) =>
      modify fun state => state.loaded sequence.properties
      return .Sequence path sequence

theorem loadRuntimeConfig_shallow {files : Bytes → RcFile} {path file : Bytes} {depth : Nat}
    {sequence : CompiledSequence}
    (h : loadRuntimeConfig files path depth = some (.Config file sequence)) :
    depth ≤ maxRcIncludeDepth := by
  unfold loadRuntimeConfig at h
  split_ifs at h with _ hdepth
  · cases h
  · omega

theorem loadRuntimeRc_shallow {loader : RcLoader} {expression : RcFileExpression}
    {statement : RuntimeRcStatement} {runtime : RuntimeVariables} {depth : Nat}
    {rc rc' : RuntimeRcState} {path : Bytes} {sequence : CompiledSequence}
    (h : loadRuntimeRc loader expression statement runtime depth rc =
      .ok (.Sequence path sequence) rc') : depth + 1 ≤ maxRcIncludeDepth := by
  unfold loadRuntimeRc at h
  simp only [bind, EStateM.bind] at h
  cases hrecord : recordTransition rc with
  | error error after =>
    rw [hrecord] at h
    cases h
  | ok value after =>
    rw [hrecord] at h
    cases hpath : expression.resolveWith runtime.get with
    | error error =>
      rw [hpath] at h
      cases h
    | ok file =>
      rw [hpath] at h
      simp only [liftExcept, pure, EStateM.pure] at h
      split_ifs at h
      · cases h
      · cases loader with
        | none => cases h
        | some files =>
          cases hconfig : loadRuntimeConfig files file (depth + 1) with
          | none =>
            simp only [hconfig] at h
            cases h
          | some found =>
            simp only [hconfig] at h
            cases found with
            | Limit message => cases h
            | Unusable => cases h
            | Config path sequence => exact loadRuntimeConfig_shallow hconfig

theorem recordTransition_apply (rc : RuntimeRcState) :
    recordTransition rc =
      if rc.transitions + 1 ≤ maxRcTransitions then
        .ok () { rc with transitions := rc.transitions + 1 }
      else .error (.RuntimeRc "rc transitions exceed the hard limit of 256") rc := by
  by_cases h : rc.transitions + 1 ≤ maxRcTransitions
  · rw [if_pos h]
    rw [recordTransition, Outcome.get_bind, if_pos h]
    rfl
  · rw [if_neg h]
    rw [recordTransition, Outcome.get_bind, if_neg h]
    rfl

/-- What runs behind a transition keeps the count. -/
theorem ends_recordTransition_bind {α : Type} {f : Unit → EStateM EvalError RuntimeRcState α}
    (hf : Outcome.Keeps (fun rc rc' : RuntimeRcState => rc'.transitions = rc.transitions) (f ()))
    (rc : RuntimeRcState) :
    Outcome.Ends (recordTransition >>= f) rc (fun _ rc' => Counted rc rc')
      (fun _ rc' => Counted rc rc' ∨ rc' = rc ∧ maxRcTransitions ≤ rc.transitions) := by
  have hrecord := recordTransition_apply rc
  unfold Outcome.Ends
  by_cases h : rc.transitions + 1 ≤ maxRcTransitions
  · rw [if_pos h] at hrecord
    have hrest := hf { rc with transitions := rc.transitions + 1 }
    unfold Outcome.Ends at hrest
    simp only [bind, EStateM.bind, hrecord]
    cases hrun : f () { rc with transitions := rc.transitions + 1 } with
    | ok value rc' =>
      rw [hrun] at hrest
      exact ⟨hrest, hrest.trans_le h⟩
    | error error rc' =>
      rw [hrun] at hrest
      exact .inl ⟨hrest, hrest.trans_le h⟩
  · rw [if_neg h] at hrecord
    simp only [bind, EStateM.bind, hrecord]
    exact .inr ⟨trivial, by omega⟩

theorem composable_transitions :
    Outcome.Composable fun rc rc' : RuntimeRcState => rc'.transitions = rc.transitions :=
  ⟨fun _ => rfl, fun h h' => h'.trans h⟩

theorem loadRuntimeRc_counts (loader : RcLoader) (expression : RcFileExpression)
    (statement : RuntimeRcStatement) (runtime : RuntimeVariables) (depth : Nat)
    (rc : RuntimeRcState) :
    Outcome.Ends (loadRuntimeRc loader expression statement runtime depth) rc
      (fun _ rc' => Counted rc rc')
      (fun _ rc' => Counted rc rc' ∨ rc' = rc ∧ maxRcTransitions ≤ rc.transitions) := by
  refine ends_recordTransition_bind ?_ rc
  have hR := composable_transitions
  refine .bind hR ?_ fun path => .ite (.pure hR _) ?_
  · cases expression.resolveWith runtime.get with
    | ok path => exact .pure hR path
    | error error => exact .throw hR _
  · cases loader with
    | none => exact .throw hR _
    | some files =>
      cases hconfig : loadRuntimeConfig files path (depth + 1) with
      | none =>
        simp only [hconfig]
        exact .pure hR _
      | some found =>
        simp only [hconfig]
        cases found with
        | Limit message => exact .throw hR _
        | Unusable => exact .pure hR _
        | Config path sequence =>
          exact .bind hR (Outcome.keeps_modify fun _ => rfl) fun _ => .pure hR _

/-- What a loader finds does not depend on what has been loaded; a transition must be left. -/
theorem loadRuntimeRc_apply (loader : RcLoader) (expression : RcFileExpression)
    (statement : RuntimeRcStatement) (runtime : RuntimeVariables) (depth : Nat) :
    ∃ found : Except EvalError LoadedRuntimeRc, ∀ rc : RuntimeRcState,
      loadRuntimeRc loader expression statement runtime depth rc =
        if rc.transitions + 1 ≤ maxRcTransitions then
          match found with
          | .error error => .error error { rc with transitions := rc.transitions + 1 }
          | .ok loaded => .ok loaded
              (RuntimeRcState.including { rc with transitions := rc.transitions + 1 } loaded)
        else .error (.RuntimeRc "rc transitions exceed the hard limit of 256") rc := by
  -- Behind the transition the state is only written.
  suffices h : ∃ found : Except EvalError LoadedRuntimeRc, ∀ rc : RuntimeRcState,
      (do
        let path ← liftExcept .Expansion (expression.resolveWith runtime.get)
        if statement = .Switch ∧ path = devNull then return .Empty
        match loader with
        | none => throw (.RuntimeRcLoaderUnavailable expression.line statement.name)
        | some files =>
          match loadRuntimeConfig files path (depth + 1) with
          | none => return .Empty
          | some (.Limit message) =>
            throw (.RuntimeRc s!"line {expression.line}: {statement.name} resource limit: {message}")
          | some .Unusable => return .Failed
          | some (.Config path sequence) =>
            modify fun state => state.loaded sequence.properties
            return .Sequence path sequence : EStateM EvalError RuntimeRcState LoadedRuntimeRc) rc =
        match found with
        | .error error => .error error rc
        | .ok loaded => .ok loaded (rc.including loaded) by
    obtain ⟨found, hfound⟩ := h
    refine ⟨found, fun rc => ?_⟩
    rw [loadRuntimeRc, Lockstep.bind_apply, recordTransition_apply]
    split_ifs
    · exact hfound _
    · rfl
  cases expression.resolveWith runtime.get with
  | error error => exact ⟨.error (.Expansion error), fun rc => rfl⟩
  | ok path =>
    by_cases hnull : statement = .Switch ∧ path = devNull
    · exact ⟨.ok .Empty, fun rc => by simp only [liftExcept, pure_bind, if_pos hnull]; rfl⟩
    · simp only [liftExcept, pure_bind, if_neg hnull]
      cases loader with
      | none => exact ⟨.error _, fun rc => rfl⟩
      | some files =>
        simp only
        cases loadRuntimeConfig files path (depth + 1) with
        | none => exact ⟨.ok .Empty, fun rc => rfl⟩
        | some config =>
          cases config with
          | Limit message => exact ⟨.error _, fun rc => rfl⟩
          | Unusable => exact ⟨.ok .Failed, fun rc => rfl⟩
          | Config path sequence => exact ⟨.ok (.Sequence path sequence), fun rc => rfl⟩

theorem loadRuntimeRc_ok {loader : RcLoader} {expression : RcFileExpression}
    {statement : RuntimeRcStatement} {runtime : RuntimeVariables} {depth : Nat}
    {rc rc' : RuntimeRcState} {loaded : LoadedRuntimeRc}
    (h : loadRuntimeRc loader expression statement runtime depth rc = .ok loaded rc') :
    rc' = RuntimeRcState.including { rc with transitions := rc.transitions + 1 } loaded ∧
      ∀ other : RuntimeRcState, other.transitions = rc.transitions →
        loadRuntimeRc loader expression statement runtime depth other =
          .ok loaded
            (RuntimeRcState.including { other with transitions := rc.transitions + 1 } loaded) := by
  obtain ⟨found, hfound⟩ := loadRuntimeRc_apply loader expression statement runtime depth
  have hrc := (hfound rc).symm.trans h
  split_ifs at hrc with htransitions
  cases found with
  | error error => cases hrc
  | ok found =>
    cases hrc
    refine ⟨rfl, fun other hother => ?_⟩
    rw [hfound other, hother, if_pos htransitions]

theorem loadRuntimeRc_grows (loader : RcLoader) (expression : RcFileExpression)
    (statement : RuntimeRcStatement) (runtime : RuntimeVariables) (depth : Nat) :
    Outcome.Keeps RuntimeRcState.Before
      (loadRuntimeRc loader expression statement runtime depth) := by
  intro rc
  obtain ⟨found, hfound⟩ := loadRuntimeRc_apply loader expression statement runtime depth
  rw [Outcome.Ends, hfound rc]
  split_ifs
  · cases found with
    | error error => exact ⟨id, id, id, fun _ _ h => h⟩
    | ok loaded => exact RuntimeRcState.before_including rc _ loaded
  · exact RuntimeRcState.composable_before.refl rc

instance : RcSource RcLoader where
  load := loadRuntimeRc
  shallow := loadRuntimeRc_shallow
  counts := loadRuntimeRc_counts
  grows := loadRuntimeRc_grows
  covers := by
    intro loader expression statement runtime depth rc loaded rc' h hconsistent
    obtain ⟨rfl, -⟩ := loadRuntimeRc_ok h
    have hgrows := RuntimeRcState.before_including rc (rc.transitions + 1) loaded
    refine ⟨fun key path sequence hkey => (hconsistent key path sequence ?_).later hgrows, ?_⟩
    · rwa [RuntimeRcState.memory_including] at hkey
    · rintro path sequence rfl
      exact RuntimeRcState.covers_loaded _ _
  replays := by
    intro loader expression statement runtime depth rc loaded rc' h later hlater
    obtain ⟨rfl, hother⟩ := loadRuntimeRc_ok h
    rw [hother { later with transitions := rc.transitions } rfl,
      RuntimeRcState.transitions_including]
    cases loaded with
    | Empty => rfl
    | Failed => rfl
    | Sequence path sequence =>
      have hcovers := (RuntimeRcState.covers_loaded _ _).later hlater
      exact congrArg _
        (RuntimeRcState.loaded_of_covers ⟨hcovers.ordered, hcovers.body, hcovers.full⟩)

end ProcmailRs
