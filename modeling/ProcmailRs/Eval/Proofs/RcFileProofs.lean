import ProcmailRs.Eval.Proofs.NestingProofs
import ProcmailRs.Eval.RcCheck

/-!
# Bounds on rc files

However files include each other, and whatever the names they compute, the evaluation of a message and
the static check end: the transitions, the files that are opened and their nesting are bounded, and
what would exceed a bound is an error.
-/

namespace ProcmailRs

open Outcome
open Config (RcFileError)

variable {C : Type}

/-! ### Files that are opened -/

namespace RcFileLoader

/-- A file is opened and counted, or a bound is exceeded and nothing happens. -/
theorem ends_load (loader : RcFileLoader C) (path : Bytes) (depth : Nat) (memory : RcMemory) :
    Ends (loader.load path depth) memory
      (fun _ memory' => memory'.filesRead = memory.filesRead + 1)
      (fun error memory' => memory'.filesRead = memory.filesRead + 1 ∨
        memory' = memory ∧ error.resourceLimit = true) := by
  unfold Ends load
  split_ifs
  · exact .inr ⟨rfl, rfl⟩
  · exact .inr ⟨rfl, rfl⟩
  · exact .inr ⟨rfl, rfl⟩
  · cases loader.files path with
    | error message => exact .inl rfl
    | ok contents =>
      dsimp only
      cases readBounded contents Config.maxRcSize (maxRcAggregateSize - memory.bytesRead) with
      | error error => exact .inl rfl
      | ok source =>
        dsimp only
        split_ifs
        · rfl
        · exact .inl rfl

/-- The file that a statement asks for is too deep, or one file too many. -/
def Refuses (memory : RcMemory) (depth : Nat) : Prop :=
  depth > maxRcIncludeDepth ∨ memory.filesRead ≥ maxRcFileCount

theorem load_refused (loader : RcFileLoader C) (path : Bytes) {depth : Nat} {memory : RcMemory}
    (h : Refuses memory depth) :
    Ends (loader.load path depth) memory (fun _ _ => False) (fun error _ => error.resourceLimit) := by
  unfold Ends load
  by_cases hdepth : depth > maxRcIncludeDepth
  · rw [dif_pos hdepth]
    rfl
  · rw [dif_neg hdepth, dif_pos (h.resolve_left hdepth)]
    rfl

theorem loadPreparedConfig_refused (loader : RcFileLoader C) {expression : RcFileExpression}
    {runtime : RuntimeVariables} {path : Bytes} {depth : Nat} {memory : RcMemory}
    (hpath : expression.resolveWith runtime.get = .ok path) (hne : path ≠ [])
    (h : Refuses memory depth) (preparation : RuntimeRcPreparation) :
    Ends (loader.loadPreparedConfig expression runtime depth preparation) memory (fun _ _ => False)
      (fun error _ => error.resourceLimit) := by
  refine Ends.bind (Q := fun found memory' => found = path ∧ memory' = memory) ?_ ?_
  · rw [hpath]
    exact ⟨rfl, rfl⟩
  · rintro found memory' ⟨rfl, rfl⟩
    rw [if_neg (by simpa using hne)]
    exact (loader.load_refused found h).bind fun _ _ hfalse => hfalse.elim

/-- A statement asks for a file that would exceed a bound. -/
inductive Exceeds (loader : Option (RcFileLoader C)) (expression : RcFileExpression)
    (statement : RuntimeRcStatement) (runtime : RuntimeVariables) (depth : Nat)
    (rc : RuntimeRcState) : Prop
  | transitions (h : maxRcTransitions ≤ rc.transitions)
  | file (files : RcFileLoader C) (hloader : loader = some files) (path : Bytes)
      (hpath : expression.resolveWith runtime.get = .ok path) (hne : path ≠ [])
      (hswitch : statement = .Switch → path ≠ devNull)
      (hnew : rc.memory.loaded ⟨expression.memory, depth + 1, path⟩ = none)
      (h : Refuses rc.memory (depth + 1))

/-- It is reported as an error: the file is not skipped. -/
theorem ends_loadRuntimeRc_exceeds {loader : Option (RcFileLoader C)} {expression : RcFileExpression}
    {statement : RuntimeRcStatement} {runtime : RuntimeVariables} {depth : Nat} {rc : RuntimeRcState}
    (h : Exceeds loader expression statement runtime depth rc) :
    Ends (loadRuntimeRc loader expression statement runtime depth) rc (fun _ _ => False)
      (fun error _ => ∃ message, error = .RuntimeRc message) := by
  refine Ends.bind (Q := fun _ rc' => rc.transitions < maxRcTransitions ∧
    rc'.memory = rc.memory) ?_ ?_
  · rw [Ends, recordTransition_apply]
    split_ifs with hlast
    · exact ⟨hlast, rfl⟩
    · exact ⟨_, rfl⟩
  rintro _ rc₁ ⟨hlast, hmemory⟩
  cases h with
  | transitions h => omega
  | file files hloader path hpath hne hswitch hnew hrefuses =>
    refine Ends.bind (Q := fun found rc₂ => found = path ∧ rc₂.memory = rc.memory) ?_ ?_
    · rw [hpath]
      exact ⟨rfl, hmemory⟩
    rintro found rc₂ ⟨rfl, hmemory⟩
    refine Ends.bind (Q := fun rc₃ rc₄ => rc₃ = rc₂ ∧ rc₄ = rc₂) ⟨rfl, rfl⟩ ?_
    rintro _ _ ⟨rfl, rfl⟩
    rw [← hmemory] at hnew hrefuses
    simp only [hnew, hloader]
    rw [if_neg fun hnull => hswitch hnull.1 hnull.2]
    -- The limit is an error of the evaluation; any other error would be skipped.
    refine Ends.bind (Q := fun result _ => ∃ error : RcFileError, result = .error error ∧
      error.resourceLimit = true) ?_ ?_
    · have hload := files.loadPreparedConfig_refused hpath hne hrefuses .Expand
      unfold Ends at hload ⊢
      unfold onMemory
      split at hload
      · exact hload.elim
      · rename_i heq
        simp only [heq]
        exact ⟨_, rfl, hload⟩
    · rintro _ _ ⟨error, rfl, hlimit⟩
      simp only [hlimit, if_true]
      exact ⟨_, rfl⟩

end RcFileLoader

/-! ### The evaluation of a message -/

/-- The statement loads a file. -/
def CompiledStatement.loads : CompiledStatement → Option (RcFileExpression × RuntimeRcStatement)
  | .Include expression => some (expression, .Include)
  | .Switch expression => some (expression, .Switch)
  | _ => none

section Reports

variable {σ κ E : Type} {loader : Option (RcFileLoader C)} {expression : RcFileExpression}
variable {kind : RuntimeRcStatement} {statement : CompiledStatement}

theorem ends_load_exceeds {runtime : RuntimeVariables} {depth : Nat} {rc : RuntimeRcState}
    (h : RcFileLoader.Exceeds loader expression kind runtime depth rc) :
    ∃ message rc', RcSource.load loader expression kind runtime depth rc =
      .error (.RuntimeRc message) rc' := by
  have hends : Ends (RcSource.load loader expression kind runtime depth) rc _ _ :=
    RcFileLoader.ends_loadRuntimeRc_exceeds h
  unfold Ends at hends
  cases hload : RcSource.load loader expression kind runtime depth rc with
  | ok loaded rc' =>
    rw [hload] at hends
    exact hends.elim
  | error error rc' =>
    rw [hload] at hends
    obtain ⟨message, rfl⟩ := hends
    exact ⟨message, rc', rfl⟩

/-- Each of the evaluators ends with the error. -/
theorem executeStatementOrdered_reports (host : OrderedExecutionHost σ E)
    (child : CompiledSequence → Exec σ E OrderedActionResult)
    (hloads : statement.loads = some (expression, kind)) {c : OrderedTreeExecution σ E}
    (h : RcFileLoader.Exceeds loader expression kind c.runtime c.depth c.rc) :
    ∃ message c', executeStatementOrdered host loader child statement c =
      .error (.Evaluation (.RuntimeRc message)) c' := by
  obtain ⟨message, rc, hload⟩ := ends_load_exceeds h
  refine ⟨message, { c with rc := rc }, ?_⟩
  cases statement with
  | Include expression =>
    cases hloads
    simp only [executeStatementOrdered, Bind.bind, EStateM.bind, OrderedTreeExecution.loadFile, hload]
  | Switch expression =>
    cases hloads
    simp only [executeStatementOrdered, Bind.bind, EStateM.bind, OrderedTreeExecution.loadFile, hload]
  | _ => cases hloads

theorem planStatementHeaders_reports
    (child : CompiledSequence → InputRequirements → HeaderPlan κ E HeaderControl)
    (following : InputRequirements) (hloads : statement.loads = some (expression, kind))
    {c : HeaderPlanContext κ E}
    (h : RcFileLoader.Exceeds loader expression kind c.runtime c.depth c.rc) :
    ∃ message c', planStatementHeaders loader child following statement c =
      .error (.Evaluation (.RuntimeRc message)) c' := by
  obtain ⟨message, rc, hload⟩ := ends_load_exceeds h
  refine ⟨message, { c with rc := rc, journal := c.journal ++ [.Load expression kind] }, ?_⟩
  cases statement with
  | Include expression =>
    cases hloads
    simp only [planStatementHeaders, Bind.bind, EStateM.bind, HeaderPlanContext.loadFile, hload]
  | Switch expression =>
    cases hloads
    simp only [planStatementHeaders, Bind.bind, EStateM.bind, HeaderPlanContext.loadFile, hload]
  | _ => cases hloads

theorem planStatementComplete_reports (child : CompiledSequence → CompletePlan SequenceControl)
    (hloads : statement.loads = some (expression, kind)) {c : CompletePlanContext}
    (h : RcFileLoader.Exceeds loader expression kind c.runtime c.depth c.rc) :
    ∃ message c', planStatementComplete loader child statement c =
      .error (.RuntimeRc message) c' := by
  obtain ⟨message, rc, hload⟩ := ends_load_exceeds h
  refine ⟨message, { c with rc := rc }, ?_⟩
  cases statement with
  | Include expression =>
    cases hloads
    simp only [planStatementComplete, Bind.bind, EStateM.bind, CompletePlanContext.loadFile, hload]
  | Switch expression =>
    cases hloads
    simp only [planStatementComplete, Bind.bind, EStateM.bind, CompletePlanContext.loadFile, hload]
  | _ => cases hloads

end Reports

/-! ### The static check -/

section Check

variable (loader : RcFileLoader C) {child child' : Nat → List CheckedStatement → RcCheck Unit}
variable {depth : Nat}
variable (hchild : depth + 1 ≤ maxRcIncludeDepth → child (depth + 1) = child' (depth + 1))

include hchild

theorem checkLoaded_congr (statement : RuntimeRcStatement) (loaded : LoadedRcConfig C (depth + 1)) :
    checkLoaded loader child depth statement loaded =
      checkLoaded loader child' depth statement loaded := by
  unfold checkLoaded
  rw [hchild loaded.shallow]

theorem checkFile_congr (statement : RuntimeRcStatement) (expression : RcFileExpression) :
    checkFile loader child depth statement expression =
      checkFile loader child' depth statement expression := by
  unfold checkFile
  simp only [checkLoaded_congr loader hchild]

omit hchild

mutual

theorem checkStatement_congr
    (hchild : depth + 1 ≤ maxRcIncludeDepth → child (depth + 1) = child' (depth + 1)) :
    ∀ statement : CheckedStatement,
      checkStatement loader child depth statement = checkStatement loader child' depth statement
  | .CommandAssignment name => by rw [checkStatement, checkStatement]
  | .Assignment name resolveWith => by rw [checkStatement, checkStatement]
  | .Unset name => by rw [checkStatement, checkStatement]
  | .Include expression => by
    rw [checkStatement, checkStatement]
    exact checkFile_congr loader hchild .Include expression
  | .Switch expression => by
    rw [checkStatement, checkStatement]
    exact checkFile_congr loader hchild .Switch expression
  | .Recipe => by rw [checkStatement, checkStatement]
  | .Block children => by
    rw [checkStatement, checkStatement, checkStatements_congr hchild children]

theorem checkStatements_congr
    (hchild : depth + 1 ≤ maxRcIncludeDepth → child (depth + 1) = child' (depth + 1)) :
    ∀ statements : List CheckedStatement,
      checkStatements loader child depth statements = checkStatements loader child' depth statements
  | [] => by rw [checkStatements, checkStatements]
  | statement :: rest => by
    rw [checkStatements, checkStatements, checkStatement_congr hchild statement,
      checkStatements_congr hchild rest]

end

/-- More levels than enough make no difference. -/
theorem checkStatementsWithin_congr {levels levels' : Nat} (h : EnoughLevels levels depth)
    (h' : EnoughLevels levels' depth) :
    checkStatementsWithin loader levels depth = checkStatementsWithin loader levels' depth := by
  induction levels generalizing levels' depth with
  | zero =>
    obtain ⟨below, hbelow, -⟩ := h.succ
    cases hbelow
  | succ levels ih =>
    obtain ⟨_, ⟨⟩, hlevels⟩ := h.succ
    obtain ⟨levels', rfl, hlevels'⟩ := h'.succ
    funext statements
    exact checkStatements_congr loader (fun hdepth => ih (hlevels hdepth) (hlevels' hdepth)) statements

theorem checkFile_reports {statement : RuntimeRcStatement} {expression : RcFileExpression}
    {path : Bytes} {state : RcCheckState}
    (hpath : expression.resolveWith state.runtime.get = .ok path) (hne : path ≠ [])
    (hswitch : statement = .Switch → path ≠ devNull)
    (h : RcFileLoader.Refuses state.memory (depth + 1)) :
    Ends (checkFile loader child depth statement expression) state (fun _ _ => False)
      (fun error _ => error.resourceLimit) := by
  refine Ends.bind (Q := fun now state' => now = state ∧ state' = state) ⟨rfl, rfl⟩ ?_
  rintro _ now ⟨rfl, rfl⟩
  simp only [hpath]
  rw [if_neg fun hnull => hswitch hnull.1 hnull.2]
  refine Ends.bind (Q := fun again state' => again = now ∧ state' = now) ⟨rfl, rfl⟩ ?_
  rintro _ again ⟨rfl, rfl⟩
  refine Ends.bind (Q := fun _ _ => False) ?_ fun _ _ hfalse => hfalse.elim
  have hload := loader.loadPreparedConfig_refused hpath hne h .Check
  unfold Ends at hload ⊢
  unfold RcCheck.onLoader
  split at hload
  · exact hload.elim
  · rename_i heq
    simp only [heq]
    exact hload

end Check

/-! ### Every run ends within the bounds -/

/-- What holds from one state of the rc files to a later one: they are counted up, and stay in their
bounds. -/
structure WithinBounds (rc rc' : RuntimeRcState) : Prop where
  counted : rc.transitions ≤ rc'.transitions
  transitions : rc'.transitions ≤ maxRcTransitions
  files : rc'.memory.filesRead ≤ maxRcFileCount

/-- A run needs no more levels than there are depths, and stays within the bounds. -/
structure RunsWithin {ε S α : Type} (run : Nat → EStateM ε S α) (rc : S → RuntimeRcState) (s : S) :
    Prop where
  ends : ∀ levels, maxRcIncludeDepth < levels → run levels s = run (maxRcIncludeDepth + 1) s
  bounds : Ends (run (maxRcIncludeDepth + 1)) s (fun _ s' => WithinBounds (rc s) (rc s'))
    (fun _ s' => WithinBounds (rc s) (rc s'))

theorem enoughLevels {levels : Nat} (h : maxRcIncludeDepth < levels) : EnoughLevels levels 0 :=
  ⟨Nat.zero_le _, h⟩

theorem enoughLevels_all : EnoughLevels (maxRcIncludeDepth + 1) 0 := enoughLevels (Nat.lt_succ_self _)

theorem WithinBounds.of_placed {d depth : Nat} {rc rc' : RuntimeRcState}
    (h : rc.transitions ≤ maxRcTransitions) (hplaced : Placed d rc.transitions depth rc') :
    WithinBounds rc rc' :=
  ⟨hplaced.mono, hplaced.bounded.trans (max_le h (le_refl _)), rc'.memory.filesRead_le⟩

section Runs

variable {σ κ E : Type} {L : Type} [RcSource L] (loader : L)

theorem runsWithin_ordered (host : OrderedExecutionHost σ E) (sequence : CompiledSequence)
    {c : OrderedTreeExecution σ E} (hdepth : c.depth = 0)
    (h : c.rc.transitions ≤ maxRcTransitions) :
    RunsWithin (fun levels => executeSequenceOrdered host loader levels sequence)
      OrderedTreeExecution.rc c where
  ends _ hlevels :=
    (agrees_executeSequenceOrdered host loader enoughLevels_all (enoughLevels hlevels) sequence c
      hdepth).1
  bounds :=
    ((persistent_progress host loader).executeSequenceOrdered _ sequence c).mono
      (fun _ c' hc' => ⟨hc'.mono, hc'.bounded.trans (max_le h (le_refl _)), c'.rc.memory.filesRead_le⟩)
      (fun _ c' hc' => ⟨hc'.mono, hc'.bounded.trans (max_le h (le_refl _)), c'.rc.memory.filesRead_le⟩)

theorem runsWithin_headers (capture : HeaderCaptureExecutor κ E) (sequence : CompiledSequence)
    (following : InputRequirements) {c : HeaderPlanContext κ E} (hdepth : c.depth = 0)
    (h : c.rc.transitions ≤ maxRcTransitions) :
    RunsWithin (fun levels => planHeadersSequence loader capture levels sequence following)
      HeaderPlanContext.rc c := by
  have hat : HeaderPlanContext.At 0 c.rc.transitions c := ⟨hdepth, le_refl _, le_max_left _ _⟩
  constructor
  · intro levels hlevels
    exact (agrees_planHeadersSequence loader capture enoughLevels_all (enoughLevels hlevels) sequence
      following c hat).1
  · have hends := (agrees_planHeadersSequence loader capture enoughLevels_all enoughLevels_all
      sequence following c hat).2
    exact hends.mono (fun _ _ hc' => .of_placed h hc') fun _ _ hc' => .of_placed h hc'

theorem runsWithin_complete (sequence : CompiledSequence) {c : CompletePlanContext}
    (hdepth : c.depth = 0) (h : c.rc.transitions ≤ maxRcTransitions) :
    RunsWithin (fun levels => planCompleteSequence loader levels sequence)
      CompletePlanContext.rc c := by
  have hat : CompletePlanContext.At 0 c.rc.transitions c := ⟨hdepth, le_refl _, le_max_left _ _⟩
  constructor
  · intro levels hlevels
    exact (agrees_planCompleteSequence loader enoughLevels_all (enoughLevels hlevels) sequence c
      hat).1
  · have hends := (agrees_planCompleteSequence loader enoughLevels_all enoughLevels_all sequence c
      hat).2
    exact hends.mono (fun _ _ hc' => .of_placed h hc') fun _ _ hc' => .of_placed h hc'

/-- A plan that is resumed in the root sequence loads its files one level down. -/
theorem runsWithin_resume (frames : List ContinuationFrame) (sequence : CompiledSequence)
    {c : CompletePlanContext} (hdepth : c.depth = 0) (h : c.rc.transitions ≤ maxRcTransitions) :
    RunsWithin (fun levels =>
        resumeFromFrames loader (planCompleteSequence loader (levels - 1)) frames sequence)
      CompletePlanContext.rc c := by
  have hat : CompletePlanContext.At 0 c.rc.transitions c := ⟨hdepth, le_refl _, le_max_left _ _⟩
  have hchild {levels : Nat} (_ : maxRcIncludeDepth < levels) (sequence : CompiledSequence) :
      Agrees (CompletePlanContext.At 1 c.rc.transitions)
        (planCompleteSequence loader maxRcIncludeDepth sequence)
        (planCompleteSequence loader (levels - 1) sequence) :=
    agrees_planCompleteSequence loader ⟨by decide, by omega⟩ ⟨by decide, by omega⟩ sequence
  constructor
  · intro levels hlevels
    exact (agrees_resumeFromFrames loader (fun _ => hchild hlevels) frames sequence c hat).1
  · have hends := (agrees_resumeFromFrames loader (fun _ => hchild (Nat.lt_succ_self _)) frames
      sequence c hat).2
    exact hends.mono (fun _ _ hc' => .of_placed h hc') fun _ _ hc' => .of_placed h hc'

end Runs

/-- Planning and execution end, within the bounds, from wherever a message is started. -/
structure EvaluationEnds {σ κ E : Type} (loader : Option (RcFileLoader C))
    (host : OrderedExecutionHost σ E) (capture : HeaderCaptureExecutor κ E) : Prop where
  ordered : ∀ sequence (c : OrderedTreeExecution σ E), c.depth = 0 →
    c.rc.transitions ≤ maxRcTransitions →
    RunsWithin (fun levels => executeSequenceOrdered host loader levels sequence)
      OrderedTreeExecution.rc c
  headers : ∀ sequence following (c : HeaderPlanContext κ E), c.depth = 0 →
    c.rc.transitions ≤ maxRcTransitions →
    RunsWithin (fun levels => planHeadersSequence loader capture levels sequence following)
      HeaderPlanContext.rc c
  complete : ∀ sequence (c : CompletePlanContext), c.depth = 0 →
    c.rc.transitions ≤ maxRcTransitions →
    RunsWithin (fun levels => planCompleteSequence loader levels sequence) CompletePlanContext.rc c
  resumed : ∀ frames sequence (c : CompletePlanContext), c.depth = 0 →
    c.rc.transitions ≤ maxRcTransitions →
    RunsWithin (fun levels =>
        resumeFromFrames loader (planCompleteSequence loader (levels - 1)) frames sequence)
      CompletePlanContext.rc c
  /-- A loaded file is nested no deeper than the limit. -/
  nesting : ∀ expression kind runtime depth rc path sequence rc',
    RcSource.load loader expression kind runtime depth rc = .ok (.Sequence path sequence) rc' →
      depth + 1 ≤ maxRcIncludeDepth
  /-- Every attempt to load a file is one transition, except the one too many. -/
  transitions : ∀ expression kind runtime depth rc,
    Ends (RcSource.load loader expression kind runtime depth) rc (fun _ rc' => Counted rc rc')
      (fun _ rc' => Counted rc rc' ∨ rc' = rc ∧ maxRcTransitions ≤ rc.transitions)

/-- A statement that would exceed a bound is an error in every phase. -/
structure ReportsLimits {σ κ E : Type} (loader : Option (RcFileLoader C))
    (host : OrderedExecutionHost σ E) (capture : HeaderCaptureExecutor κ E) : Prop where
  ordered : ∀ levels statement expression kind (c : OrderedTreeExecution σ E),
    CompiledStatement.loads statement = some (expression, kind) →
    RcFileLoader.Exceeds loader expression kind c.runtime c.depth c.rc →
    ∃ message c', executeStatementOrdered host loader (executeSequenceOrdered host loader levels)
      statement c = .error (.Evaluation (.RuntimeRc message)) c'
  headers : ∀ levels following statement expression kind (c : HeaderPlanContext κ E),
    CompiledStatement.loads statement = some (expression, kind) →
    RcFileLoader.Exceeds loader expression kind c.runtime c.depth c.rc →
    ∃ message c', planStatementHeaders loader (planHeadersSequence loader capture levels) following
      statement c = .error (.Evaluation (.RuntimeRc message)) c'
  complete : ∀ levels statement expression kind (c : CompletePlanContext),
    CompiledStatement.loads statement = some (expression, kind) →
    RcFileLoader.Exceeds loader expression kind c.runtime c.depth c.rc →
    ∃ message c', planStatementComplete loader (planCompleteSequence loader levels) statement c =
      .error (.RuntimeRc message) c'

/-- The static check ends, opens files within the bound and reports what exceeds it. -/
structure CheckEnds (loader : RcFileLoader C) : Prop where
  ends : ∀ levels, maxRcIncludeDepth < levels →
    checkStatementsWithin loader levels 0 = checkStatementsWithin loader (maxRcIncludeDepth + 1) 0
  files : ∀ statements state,
    Ends (checkStatementsWithin loader (maxRcIncludeDepth + 1) 0 statements) state
      (fun _ state' => state'.memory.filesRead ≤ maxRcFileCount)
      (fun _ state' => state'.memory.filesRead ≤ maxRcFileCount)
  opened : ∀ path depth memory,
    Ends (loader.load path depth) memory
      (fun _ memory' => memory'.filesRead = memory.filesRead + 1)
      (fun error memory' => memory'.filesRead = memory.filesRead + 1 ∨
        memory' = memory ∧ error.resourceLimit = true)
  reports : ∀ levels depth statement expression path (state : RcCheckState),
    RcFileExpression.resolveWith expression state.runtime.get = .ok path → path ≠ [] →
    (statement = .Switch → path ≠ devNull) → RcFileLoader.Refuses state.memory (depth + 1) →
    Ends (checkFile loader (checkStatementsWithin loader levels) depth statement expression) state
      (fun _ _ => False) (fun error _ => error.resourceLimit)

/-- Whatever the files say, and however they name each other, every evaluation of a message and the
static check end within the bounds, and report what would exceed them. -/
theorem rc_files_end_within_bounds {σ κ E : Type} (loader : Option (RcFileLoader C))
    (host : OrderedExecutionHost σ E) (capture : HeaderCaptureExecutor κ E) :
    EvaluationEnds loader host capture ∧ ReportsLimits loader host capture ∧
      ∀ files, loader = some files → CheckEnds files := by
  refine ⟨?_, ?_, fun files _ => ?_⟩
  · exact
      { ordered := fun sequence c => runsWithin_ordered loader host sequence
        headers := fun sequence following c => runsWithin_headers loader capture sequence following
        complete := fun sequence c => runsWithin_complete loader sequence
        resumed := fun frames sequence c => runsWithin_resume loader frames sequence
        nesting := fun _ _ _ _ _ _ _ _ => RcSource.shallow
        transitions := RcSource.counts loader }
  · exact
      { ordered := fun levels statement expression kind c hloads =>
          executeStatementOrdered_reports host _ hloads
        headers := fun levels following statement expression kind c hloads =>
          planStatementHeaders_reports _ following hloads
        complete := fun levels statement expression kind c hloads =>
          planStatementComplete_reports _ hloads }
  · refine
      { ends := fun levels hlevels =>
          checkStatementsWithin_congr files (enoughLevels hlevels) enoughLevels_all
        files := ?_
        opened := files.ends_load
        reports := fun levels depth statement expression path state =>
          checkFile_reports files }
    intro statements state
    unfold Ends
    split
    · rename_i state' _
      exact state'.memory.filesRead_le
    · rename_i state' _
      exact state'.memory.filesRead_le

/-! ### A file that includes itself -/

/-- Every file includes the file `rc`. -/
def selfIncluding : RcFileLoader Unit where
  files _ := .ok []
  language :=
    { parseWithState := fun _ budget => .ok ((), budget)
      validateRuntimeSettings := fun _ => .ok ()
      expandWithRuntimeValues := fun config _ => .ok config
      prepareForCheck := fun config _ => .ok config
      compile := fun _ memory =>
        (⟨[], [.Include ⟨1, memory, fun _ => .ok (strBytes "rc")⟩]⟩, memory + 1)
      statements := fun _ => [.Include ⟨1, 0, fun _ => .ok (strBytes "rc")⟩]
      compatibilityWarnings := fun _ => [] }

/-- What an execution reports, with its transitions and the files it has read. -/
def reported {σ E α : Type}
    (result : EStateM.Result (OrderedExecutionError E) (OrderedTreeExecution σ E) α) :
    Option EvalError × Nat × Nat :=
  match result with
  | .ok _ c => (none, c.rc.transitions, c.rc.memory.filesRead)
  | .error (.Evaluation error) c => (some error, c.rc.transitions, c.rc.memory.filesRead)
  | .error (.Delivery _) c => (none, c.rc.transitions, c.rc.memory.filesRead)

/-- The root file with the statement of number 0. -/
def selfIncludingPlan : ExecutionPlan (Option (RcFileLoader Unit)) :=
  ⟨⟨[], [.Include ⟨1, 0, fun _ => .ok (strBytes "rc")⟩]⟩, ⟨1000, 1000, 1000, 1000, 1000⟩,
    some selfIncluding⟩

/-- The run of the plan that includes itself. -/
def selfIncludingStart : OrderedTreeExecution Unit Unit :=
  selfIncludingPlan.startOrdered (.Mapped [LF] 1 none none) (RuntimeVariables.default []) ()
    ⟨0, false, false, false, .root 0 ⟨0, 0, 0, 0, 0⟩ 1⟩

/-- A file that includes itself is loaded sixteen times, and then it is an error, with any number of
levels. -/
theorem selfIncluding_ends :
    (∀ levels, maxRcIncludeDepth < levels →
      executeSequenceOrdered acceptingHost selfIncludingPlan.loader levels selfIncludingPlan.root
        selfIncludingStart =
      executeSequenceOrdered acceptingHost selfIncludingPlan.loader (maxRcIncludeDepth + 1)
        selfIncludingPlan.root selfIncludingStart) ∧
      reported (executeSequenceOrdered acceptingHost selfIncludingPlan.loader
        (maxRcIncludeDepth + 1) selfIncludingPlan.root selfIncludingStart) =
        (some (.RuntimeRc
          "line 1: INCLUDERC resource limit: rc nesting exceeds the hard limit of 16"), 17, 17) :=
  ⟨((rc_files_end_within_bounds selfIncludingPlan.loader acceptingHost acceptingHost.capture).1.ordered
      selfIncludingPlan.root selfIncludingStart rfl (by decide)).ends,
    by decide +kernel⟩

end ProcmailRs
