import ProcmailRs.Eval.RuntimeRc

/-!
# Reading rc files

The loader opens a file, reads it within its limits, parses it with what is left of the budget and
prepares it with the variables of the moment. The number of files, their size and their nesting are
bounded; a file beyond a bound is an error of the evaluation, a file that cannot be used is skipped.
Every statement remembers what it has loaded under a path.

What a file says is left to an `RcLanguage`.
-/

namespace ProcmailRs

open Outcome
open Config (RcFileError ParseBudget)

/-- How long all files may be together. -/
def maxRcAggregateSize : Nat := 4 * 1024 * 1024

/-! ### What a file says -/

/-- A statement of a prepared file, as far as the static check looks at it. -/
inductive CheckedStatement
  | CommandAssignment (name : String)
  | Assignment (name : String) (resolveWith : Lookup → Except ExpansionError Bytes)
  | Unset (name : String)
  | Include (expression : RcFileExpression)
  | Switch (expression : RcFileExpression)
  | Recipe
  | Block (children : List CheckedStatement)

/-- What the loader does with the text of a file. `C` is the type of parsed files. -/
structure RcLanguage (C : Type) where
  parseWithState : Bytes → ParseBudget → Except RcFileError (C × ParseBudget)
  validateRuntimeSettings : C → Except RcFileError Unit
  expandWithRuntimeValues : C → RuntimeVariables → Except RcFileError C
  prepareForCheck : C → RuntimeVariables → Except RcFileError C
  /-- The sequence of a file and the number of the statement behind its last one. -/
  compile : C → Nat → CompiledSequence × Nat
  statements : C → List CheckedStatement
  /-- The lines and the recipe flags that have no effect. -/
  compatibilityWarnings : C → List (Nat × Char)

/-- Whether a file is prepared for a run or for the check. -/
inductive RuntimeRcPreparation
  | Expand
  | Check
  deriving DecidableEq, Repr

namespace RcLanguage

variable {C : Type} (language : RcLanguage C)

/-- The file, prepared with the variables of the moment. -/
def prepare (config : C) (runtime : RuntimeVariables) :
    RuntimeRcPreparation → Except RcFileError C
  | .Expand => language.expandWithRuntimeValues config runtime
  | .Check => language.prepareForCheck config runtime

end RcLanguage

/-! ### Memory -/

namespace RcMemory

/-- One more file is opened. -/
def openFile (memory : RcMemory) (h : memory.filesRead < maxRcFileCount) : RcMemory :=
  { memory with
    filesRead := memory.filesRead + 1
    filesRead_le := h }

/-- What a statement has found under a path. -/
def remember (memory : RcMemory) (key : RcMemoryKey) (found : LoadedRuntimeRc)
    (h : ∀ path sequence, found = .Sequence path sequence → key.depth ≤ maxRcIncludeDepth) :
    RcMemory :=
  { memory with
    loaded := fun other => if other = key then some found else memory.loaded other
    loaded_shallow := by
      intro other path sequence hfound
      split_ifs at hfound with hkey
      · rw [hkey]
        exact h path sequence (Option.some.inj hfound)
      · exact memory.loaded_shallow hfound }

end RcMemory

/-! ### The loader -/

/-- `read_bounded`: one byte more than the limit is read. -/
def readBounded (contents : Bytes) (fileLimit aggregateRemaining : Nat) : Except RcFileError Bytes :=
  let source := contents.take (min fileLimit aggregateRemaining + 1)
  if source.length > fileLimit then
    .error (.limit ("rc file exceeds the hard limit of " ++ toString fileLimit ++ " bytes"))
  else if source.length > aggregateRemaining then
    .error (.limit "aggregate rc size exceeds the hard limit of 4194304 bytes")
  else .ok source

/-- `files` says what opening a path and checking the file gives: its contents, or why it may not be
used. -/
structure RcFileLoader (C : Type) where
  files : Bytes → Except String Bytes
  language : RcLanguage C

/-- A file that has been loaded at a depth that is allowed. -/
structure LoadedRcConfig (C : Type) (depth : Nat) where
  path : Bytes
  config : C
  shallow : depth ≤ maxRcIncludeDepth

namespace RcFileLoader

variable {C : Type} (loader : RcFileLoader C)

/-- The file under a path. Every file that is opened counts, also one that cannot be used. -/
def load (path : Bytes) (depth : Nat) :
    EStateM RcFileError RcMemory { _source : Bytes // depth ≤ maxRcIncludeDepth } := fun memory =>
  if hdepth : depth > maxRcIncludeDepth then
    .error (.limit "rc nesting exceeds the hard limit of 16") memory
  else if hfiles : memory.filesRead ≥ maxRcFileCount then
    .error (.limit "rc file count exceeds the hard limit of 32") memory
  else if memory.bytesRead > maxRcAggregateSize then
    .error (.limit "aggregate rc byte count overflows") memory
  else
    let opened := memory.openFile (Nat.lt_of_not_le hfiles)
    match loader.files path with
    | .error message => .error (.new message) opened
    | .ok contents =>
      match readBounded contents Config.maxRcSize (maxRcAggregateSize - memory.bytesRead) with
      | .error error => .error error opened
      | .ok source =>
        let read := { opened with bytesRead := opened.bytesRead + source.length }
        if (utf8Chars? source).isSome then .ok ⟨source, Nat.le_of_not_lt hdepth⟩ read
        else .error (.new "rc file is not valid UTF-8") read

/-- The budget with the limits of the moment. -/
def activateRuntimeLimits (runtime : RuntimeVariables) : EStateM RcFileError RcMemory Unit :=
  fun memory =>
  match Config.activateRuntimeLimits runtime memory.parseState with
  | .ok parseState => .ok () { memory with parseState := parseState }
  | .error error => .error error memory

/-- The file is parsed with what is left of the budget; a file that cannot be parsed uses nothing. -/
def parse (source : Bytes) : EStateM RcFileError RcMemory C := fun memory =>
  match loader.language.parseWithState source memory.parseState with
  | .ok (config, parseState) => .ok config { memory with parseState := parseState }
  | .error error => .error error memory

/-- `load_prepared_config`: an empty path names no file. -/
def loadPreparedConfig (expression : RcFileExpression) (runtime : RuntimeVariables) (depth : Nat)
    (preparation : RuntimeRcPreparation) :
    EStateM RcFileError RcMemory (Option (LoadedRcConfig C depth)) := do
  let path ← liftExcept (fun error => RcFileError.new error.message)
    (expression.resolveWith runtime.get)
  if path.isEmpty then return none
  let source ← loader.load path depth
  activateRuntimeLimits runtime
  let config ← loader.parse source.val
  liftExcept id (loader.language.validateRuntimeSettings config)
  let config ← liftExcept id (loader.language.prepare config runtime preparation)
  return some ⟨path, config, source.property⟩

end RcFileLoader

/-! ### `INCLUDERC` and `SWITCHRC` -/

/-- Runs a computation of the loader and hands its error to the caller. -/
def onMemory {ε α : Type} (m : EStateM RcFileError RcMemory α) :
    EStateM ε RuntimeRcState (Except RcFileError α) := fun rc =>
  match m rc.memory with
  | .ok value memory => .ok (.ok value) { rc with memory := memory }
  | .error error memory => .ok (.error error) { rc with memory := memory }

/-- The statement remembers what it has found, and goes on with it. -/
def rememberLoaded (key : RcMemoryKey) (found : LoadedRuntimeRc)
    (h : ∀ path sequence, found = .Sequence path sequence → key.depth ≤ maxRcIncludeDepth) :
    EStateM EvalError RuntimeRcState LoadedRuntimeRc := do
  modify fun rc => { rc with memory := rc.memory.remember key found h }
  return found

namespace RcFileLoader

variable {C : Type}

/-- The loaded file is compiled; its statements get memories of their own. -/
def enterConfig (loader : RcFileLoader C) (key : RcMemoryKey)
    (loaded : LoadedRcConfig C key.depth) : EStateM EvalError RuntimeRcState LoadedRuntimeRc := do
  let rc ← get
  let compiled := loader.language.compile loaded.config rc.memory.statements
  set { rc.loaded compiled.1.properties with
    memory := { rc.memory with statements := compiled.2 } }
  rememberLoaded key (.Sequence loaded.path compiled.1) fun _ _ _ => loaded.shallow

/-- What is done with a file the statement has not loaded before. -/
def loadUnknown (loader : RcFileLoader C) (expression : RcFileExpression)
    (statement : RuntimeRcStatement) (runtime : RuntimeVariables) (key : RcMemoryKey) :
    EStateM EvalError RuntimeRcState LoadedRuntimeRc := do
  match ← onMemory (loader.loadPreparedConfig expression runtime key.depth .Expand) with
  | .ok none => rememberLoaded key .Empty (fun _ _ h => nomatch h)
  | .ok (some loaded) => loader.enterConfig key loaded
  | .error error =>
    if error.resourceLimit then
      throw (.RuntimeRc s!"line {expression.line}: {statement.name} resource limit: {error.message}")
    else rememberLoaded key .Failed (fun _ _ h => nomatch h)

/-- `load_runtime_rc`, in a file at `depth`. -/
def loadRuntimeRc (loader : Option (RcFileLoader C)) (expression : RcFileExpression)
    (statement : RuntimeRcStatement) (runtime : RuntimeVariables) (depth : Nat) :
    EStateM EvalError RuntimeRcState LoadedRuntimeRc := do
  recordTransition
  let path ← liftExcept .Expansion (expression.resolveWith runtime.get)
  let key : RcMemoryKey := ⟨expression.memory, depth + 1, path⟩
  match (← get).memory.loaded key with
  | some loaded => return loaded
  | none =>
    if statement = .Switch ∧ path = devNull then
      rememberLoaded key .Empty (fun _ _ h => nomatch h)
    else
      match loader with
      | none => throw (.RuntimeRcLoaderUnavailable expression.line statement.name)
      | some loader => loader.loadUnknown expression statement runtime key

/-! ### Nesting and transitions -/

theorem keeps_transitions_onMemory {α : Type} (m : EStateM RcFileError RcMemory α) :
    Keeps (fun rc rc' : RuntimeRcState => rc'.transitions = rc.transitions)
      (onMemory m : EStateM EvalError RuntimeRcState (Except RcFileError α)) := by
  intro rc
  unfold Ends onMemory
  cases m rc.memory with
  | ok value memory => rfl
  | error error memory => rfl

theorem keeps_transitions_rememberLoaded (key : RcMemoryKey) (found : LoadedRuntimeRc)
    (h : ∀ path sequence, found = .Sequence path sequence → key.depth ≤ maxRcIncludeDepth) :
    Keeps (fun rc rc' : RuntimeRcState => rc'.transitions = rc.transitions)
      (rememberLoaded key found h) :=
  .bind composable_transitions (keeps_modify fun _ => rfl) fun _ => .pure composable_transitions _

theorem keeps_transitions_loadUnknown (loader : RcFileLoader C) (expression : RcFileExpression)
    (statement : RuntimeRcStatement) (runtime : RuntimeVariables) (key : RcMemoryKey) :
    Keeps (fun rc rc' : RuntimeRcState => rc'.transitions = rc.transitions)
      (loader.loadUnknown expression statement runtime key) := by
  have hR := composable_transitions
  refine .bind hR (keeps_transitions_onMemory _) fun result => ?_
  cases result with
  | error error => exact .ite (.throw hR _) (keeps_transitions_rememberLoaded _ _ _)
  | ok loaded =>
    cases loaded with
    | none => exact keeps_transitions_rememberLoaded _ _ _
    | some loaded => exact fun _ => rfl

theorem loadRuntimeRc_counts (loader : Option (RcFileLoader C)) (expression : RcFileExpression)
    (statement : RuntimeRcStatement) (runtime : RuntimeVariables) (depth : Nat)
    (rc : RuntimeRcState) :
    Ends (loadRuntimeRc loader expression statement runtime depth) rc
      (fun _ rc' => Counted rc rc')
      (fun _ rc' => Counted rc rc' ∨ rc' = rc ∧ maxRcTransitions ≤ rc.transitions) := by
  refine ends_recordTransition_bind ?_ rc
  have hR := composable_transitions
  refine .bind hR ?_ fun path => .bind hR (.get hR) fun rc => ?_
  · cases expression.resolveWith runtime.get with
    | ok path => exact .pure hR path
    | error error => exact .throw hR _
  · cases hloaded : rc.memory.loaded ⟨expression.memory, depth + 1, path⟩ with
    | some loaded => exact .pure hR _
    | none =>
      refine .ite (keeps_transitions_rememberLoaded _ _ _) ?_
      cases loader with
      | none => exact .throw hR _
      | some loader => exact loader.keeps_transitions_loadUnknown expression statement runtime _

/-- What the statement goes on with. -/
def FoundAt (depth : Nat) (found : LoadedRuntimeRc) : Prop :=
  ∀ path sequence, found = .Sequence path sequence → depth ≤ maxRcIncludeDepth

theorem ends_rememberLoaded (key : RcMemoryKey) (found : LoadedRuntimeRc)
    (h : ∀ path sequence, found = .Sequence path sequence → key.depth ≤ maxRcIncludeDepth)
    (rc : RuntimeRcState) :
    Ends (rememberLoaded key found h) rc (fun found _ => FoundAt key.depth found) (fun _ _ => True) :=
  h

theorem ends_loadUnknown (loader : RcFileLoader C) (expression : RcFileExpression)
    (statement : RuntimeRcStatement) (runtime : RuntimeVariables) (key : RcMemoryKey)
    (rc : RuntimeRcState) :
    Ends (loader.loadUnknown expression statement runtime key) rc
      (fun found _ => FoundAt key.depth found) (fun _ _ => True) := by
  refine Ends.bind (Q := fun _ _ => True) ?_ fun result rc _ => ?_
  · unfold Ends onMemory
    cases loader.loadPreparedConfig expression runtime key.depth .Expand rc.memory with
    | ok value memory => trivial
    | error error memory => trivial
  · cases result with
    | error error =>
      by_cases hlimit : error.resourceLimit = true
      · simp only [hlimit, if_true]
        exact trivial
      · simp only [hlimit]
        exact ends_rememberLoaded _ _ _ _
    | ok loaded =>
      cases loaded with
      | none => exact ends_rememberLoaded _ _ _ _
      | some loaded => exact fun _ _ _ => loaded.shallow

theorem ends_loadRuntimeRc (loader : Option (RcFileLoader C)) (expression : RcFileExpression)
    (statement : RuntimeRcStatement) (runtime : RuntimeVariables) (depth : Nat)
    (rc : RuntimeRcState) :
    Ends (loadRuntimeRc loader expression statement runtime depth) rc
      (fun found _ => FoundAt (depth + 1) found) (fun _ _ => True) := by
  refine Ends.bind (Q := fun _ _ => True) ?_ fun _ rc _ => ?_
  · rw [Ends, recordTransition_apply]
    split_ifs <;> trivial
  · refine Ends.bind (Q := fun _ _ => True) ?_ fun path rc _ => ?_
    · cases expression.resolveWith runtime.get with
      | error error => exact trivial
      | ok path => exact trivial
    refine Ends.bind (Q := fun _ _ => True) trivial fun rc _ _ => ?_
    cases hloaded : rc.memory.loaded ⟨expression.memory, depth + 1, path⟩ with
    | some loaded =>
      rintro file sequence rfl
      exact rc.memory.loaded_shallow hloaded
    | none =>
      show Ends (if _ then _ else _) _ _ _
      by_cases hnull : statement = .Switch ∧ path = devNull
      · rw [if_pos hnull]
        exact ends_rememberLoaded ⟨expression.memory, depth + 1, path⟩ _ _ _
      · rw [if_neg hnull]
        cases loader with
        | none => exact trivial
        | some loader =>
          exact loader.ends_loadUnknown expression statement runtime
            ⟨expression.memory, depth + 1, path⟩ _

/-! ### What is remembered -/

/-- The statement with this key goes on with `loaded`, and remembers it. -/
structure Learns (key : RcMemoryKey) (rc : RuntimeRcState) (loaded : LoadedRuntimeRc)
    (rc' : RuntimeRcState) : Prop where
  before : rc.Before rc'
  known : rc'.memory.loaded key = some loaded
  consistent : rc.Consistent → rc'.Consistent

namespace Learns

variable {key : RcMemoryKey} {rc rc₁ rc' : RuntimeRcState} {loaded : LoadedRuntimeRc}

theorem of_before (h : Learns key rc₁ loaded rc') (hbefore : rc.Before rc₁)
    (hconsistent : rc.Consistent → rc₁.Consistent) : Learns key rc loaded rc' :=
  ⟨RuntimeRcState.composable_before.trans hbefore h.before, h.known,
    fun hc => h.consistent (hconsistent hc)⟩

/-- Nothing has changed but the transitions and what does not concern loaded files. -/
theorem of_loaded_eq {memory : RcMemory} {transitions : Nat}
    (h : Learns key { rc with transitions := transitions, memory := memory } loaded rc')
    (hloaded : memory.loaded = rc.memory.loaded) : Learns key rc loaded rc' := by
  refine h.of_before ⟨id, id, id, fun key found hkey => ?_⟩ fun hc key path sequence hkey => ?_
  · rwa [hloaded]
  · rw [hloaded] at hkey
    exact ⟨(hc key path sequence hkey).ordered, (hc key path sequence hkey).body,
      (hc key path sequence hkey).full⟩

/-- A key is remembered for the first time. -/
theorem remember {found : LoadedRuntimeRc}
    {h : ∀ path sequence, found = .Sequence path sequence → key.depth ≤ maxRcIncludeDepth}
    (hnone : rc.memory.loaded key = none)
    (hcovers : ∀ path sequence, found = .Sequence path sequence → rc.Covers sequence.properties) :
    Learns key rc found { rc with memory := rc.memory.remember key found h } := by
  refine ⟨⟨id, id, id, fun other known hother => ?_⟩, ?_, fun hc other path sequence hother => ?_⟩
  · have hne : other ≠ key := by
      rintro rfl
      rw [hnone] at hother
      cases hother
    simp only [RcMemory.remember, if_neg hne]
    exact hother
  · simp only [RcMemory.remember, if_true]
  · have hold : rc.Covers sequence.properties := by
      simp only [RcMemory.remember] at hother
      split_ifs at hother with hkey
      · exact hcovers path sequence (Option.some.inj hother)
      · exact hc other path sequence hother
    exact ⟨hold.ordered, hold.body, hold.full⟩

end Learns

/-- What the statements remember. -/
def SameLoaded (memory memory' : RcMemory) : Prop := memory'.loaded = memory.loaded

theorem composable_sameLoaded : Composable SameLoaded := ⟨fun _ => rfl, fun h h' => h'.trans h⟩

theorem sameLoaded_liftExcept {ε α : Type} (wrap : ε → RcFileError) (x : Except ε α) :
    Keeps SameLoaded (liftExcept wrap x : EStateM RcFileError RcMemory α) := by
  cases x with
  | ok value => exact .pure composable_sameLoaded _
  | error error => exact .throw composable_sameLoaded _

theorem sameLoaded_load (loader : RcFileLoader C) (path : Bytes) (depth : Nat) :
    Keeps SameLoaded (loader.load path depth) := by
  intro memory
  unfold Ends load
  split_ifs
  · rfl
  · rfl
  · rfl
  · cases loader.files path with
    | error message => rfl
    | ok contents =>
      simp only
      cases readBounded contents Config.maxRcSize (maxRcAggregateSize - memory.bytesRead) with
      | error error => rfl
      | ok source =>
        simp only
        split_ifs
        · rfl
        · rfl

theorem sameLoaded_activateRuntimeLimits (runtime : RuntimeVariables) :
    Keeps SameLoaded (activateRuntimeLimits runtime) := by
  intro memory
  unfold Ends activateRuntimeLimits
  cases Config.activateRuntimeLimits runtime memory.parseState with
  | ok parseState => rfl
  | error error => rfl

theorem sameLoaded_parse (loader : RcFileLoader C) (source : Bytes) :
    Keeps SameLoaded (loader.parse source) := by
  intro memory
  unfold Ends parse
  cases loader.language.parseWithState source memory.parseState with
  | ok parsed => rfl
  | error error => rfl

theorem sameLoaded_loadPreparedConfig (loader : RcFileLoader C) (expression : RcFileExpression)
    (runtime : RuntimeVariables) (depth : Nat) (preparation : RuntimeRcPreparation) :
    Keeps SameLoaded (loader.loadPreparedConfig expression runtime depth preparation) := by
  have hR := composable_sameLoaded
  refine .bind hR (sameLoaded_liftExcept _ _) fun path => .ite (.pure hR _) ?_
  refine .bind hR (sameLoaded_load loader path depth) fun source => ?_
  refine .bind hR (sameLoaded_activateRuntimeLimits runtime) fun _ => ?_
  refine .bind hR (sameLoaded_parse loader _) fun config => ?_
  refine .bind hR (sameLoaded_liftExcept _ _) fun _ => ?_
  exact .bind hR (sameLoaded_liftExcept _ _) fun _ => .pure hR _

/-- A loaded file is compiled, and remembered with its properties among those of the plan. -/
theorem learns_enterConfig (loader : RcFileLoader C) {key : RcMemoryKey} {rc : RuntimeRcState}
    {memory : RcMemory} (hsame : SameLoaded rc.memory memory) (hnone : memory.loaded key = none)
    (loaded : LoadedRcConfig C key.depth) :
    Ends (loader.enterConfig key loaded) { rc with memory := memory }
      (fun loaded rc' => Learns key rc loaded rc') (fun _ rc' => rc.Before rc') := by
  let compiled := loader.language.compile loaded.config memory.statements
  let entered : RuntimeRcState :=
    { rc.loaded compiled.1.properties with memory := { memory with statements := compiled.2 } }
  have hflags := RuntimeRcState.before_loaded rc compiled.1.properties
  have hentered : rc.Before entered :=
    ⟨hflags.ordered, hflags.body, hflags.full, fun key found hkey => by rwa [← hsame] at hkey⟩
  have hcovers := RuntimeRcState.covers_loaded rc compiled.1.properties
  have hremember : Learns key entered (.Sequence loaded.path compiled.1)
      { entered with
        memory := entered.memory.remember key (.Sequence loaded.path compiled.1)
          fun _ _ _ => loaded.shallow } := by
    refine .remember hnone ?_
    rintro path sequence heq
    cases heq
    exact ⟨hcovers.ordered, hcovers.body, hcovers.full⟩
  refine hremember.of_before hentered fun hc other path sequence hother => ?_
  rw [show entered.memory.loaded = rc.memory.loaded from hsame] at hother
  exact (hc other path sequence hother).later hentered

/-- What the statement with this key remembers of a file it has not loaded before. -/
theorem learns_loadUnknown (loader : RcFileLoader C) (expression : RcFileExpression)
    (statement : RuntimeRcStatement) (runtime : RuntimeVariables) {key : RcMemoryKey}
    {rc : RuntimeRcState} (hnone : rc.memory.loaded key = none) :
    Ends (loader.loadUnknown expression statement runtime key) rc
      (fun loaded rc' => Learns key rc loaded rc') (fun _ rc' => rc.Before rc') := by
  refine Ends.bind (Q := fun _ rc₁ => ∃ memory, SameLoaded rc.memory memory ∧
    rc₁ = { rc with memory := memory }) ?_ ?_
  · have hload := sameLoaded_loadPreparedConfig loader expression runtime key.depth .Expand
      rc.memory
    unfold Ends at hload ⊢
    unfold onMemory
    split at hload
    · rename_i heq
      simp only [heq]
      exact ⟨_, hload, rfl⟩
    · rename_i heq
      simp only [heq]
      exact ⟨_, hload, rfl⟩
  · rintro result rc₁ ⟨memory, hsame, rfl⟩
    have hnone' : memory.loaded key = none := by rwa [hsame]
    have hbefore : rc.Before { rc with memory := memory } :=
      ⟨id, id, id, fun key found hkey => by rwa [hsame]⟩
    have hremember {found : LoadedRuntimeRc} (hfound : ∀ path sequence, found ≠ .Sequence path sequence)
        (h : ∀ path sequence, found = .Sequence path sequence → key.depth ≤ maxRcIncludeDepth) :
        Ends (rememberLoaded key found h) { rc with memory := memory }
          (fun loaded rc' => Learns key rc loaded rc') (fun _ rc' => rc.Before rc') := by
      have hlearns : Learns key { rc with memory := memory } found
          { rc with memory := memory.remember key found h } :=
        .remember hnone' fun path sequence heq => absurd heq (hfound path sequence)
      exact hlearns.of_loaded_eq hsame
    cases result with
    | error error =>
      by_cases hlimit : error.resourceLimit = true
      · simp only [hlimit, if_true]
        exact hbefore
      · simp only [hlimit]
        exact hremember (by simp) _
    | ok loaded =>
      cases loaded with
      | none => exact hremember (by simp) _
      | some loaded => exact loader.learns_enterConfig hsame hnone' loaded

theorem learns_loadRuntimeRc (loader : Option (RcFileLoader C)) (expression : RcFileExpression)
    (statement : RuntimeRcStatement) (runtime : RuntimeVariables) (depth : Nat)
    (rc : RuntimeRcState) :
    Ends (loadRuntimeRc loader expression statement runtime depth) rc
      (fun loaded rc' => ∃ path, expression.resolveWith runtime.get = .ok path ∧
        Learns ⟨expression.memory, depth + 1, path⟩ rc loaded rc')
      (fun _ rc' => rc.Before rc') := by
  have hbefore (transitions : Nat) : rc.Before { rc with transitions := transitions } :=
    ⟨id, id, id, fun _ _ h => h⟩
  refine Ends.bind (Q := fun _ rc₁ => rc₁ = { rc with transitions := rc.transitions + 1 }) ?_ ?_
  · rw [Ends, recordTransition_apply]
    split_ifs
    · rfl
    · exact RuntimeRcState.composable_before.refl rc
  · rintro _ rc₁ rfl
    cases hpath : expression.resolveWith runtime.get with
    | error error => exact hbefore _
    | ok path =>
      refine Ends.mono (Q := fun loaded rc' => Learns ⟨expression.memory, depth + 1, path⟩
          { rc with transitions := rc.transitions + 1 } loaded rc')
        (X := fun _ rc' => RuntimeRcState.Before { rc with transitions := rc.transitions + 1 } rc')
        ?_ (fun _ _ h => ⟨path, rfl, h.of_loaded_eq rfl⟩)
        fun _ _ h => RuntimeRcState.composable_before.trans (hbefore _) h
      change Ends (match rc.memory.loaded ⟨expression.memory, depth + 1, path⟩ with
        | some loaded => pure loaded
        | none => _) _ _ _
      cases hloaded : rc.memory.loaded ⟨expression.memory, depth + 1, path⟩ with
      | some loaded =>
        exact ⟨RuntimeRcState.composable_before.refl _, hloaded, id⟩
      | none =>
        change Ends (if statement = .Switch ∧ path = devNull then _ else _) _ _ _
        split_ifs
        · exact Learns.remember hloaded (by simp)
        · cases loader with
          | none => exact RuntimeRcState.composable_before.refl _
          | some loader => exact loader.learns_loadUnknown expression statement runtime hloaded

instance : RcSource (Option (RcFileLoader C)) where
  load := loadRuntimeRc
  shallow := by
    intro loader expression statement runtime depth rc path sequence rc' h
    have hends := ends_loadRuntimeRc loader expression statement runtime depth rc
    rw [Ends, h] at hends
    exact hends path sequence rfl
  counts := loadRuntimeRc_counts
  grows loader expression statement runtime depth rc :=
    (learns_loadRuntimeRc loader expression statement runtime depth rc).mono
      (fun _ _ h => h.choose_spec.2.before) fun _ _ h => h
  covers := by
    intro loader expression statement runtime depth rc loaded rc' h hconsistent
    have hends := learns_loadRuntimeRc loader expression statement runtime depth rc
    rw [Ends, h] at hends
    obtain ⟨path, -, hlearns⟩ := hends
    refine ⟨hlearns.consistent hconsistent, ?_⟩
    rintro file sequence rfl
    exact hlearns.consistent hconsistent _ file sequence hlearns.known
  replays := by
    intro loader expression statement runtime depth rc loaded rc' h later hlater
    have hends := learns_loadRuntimeRc loader expression statement runtime depth rc
    have hcounts := loadRuntimeRc_counts loader expression statement runtime depth rc
    rw [Ends, h] at hends hcounts
    obtain ⟨path, hpath, hlearns⟩ := hends
    have hknown := hlater.loaded _ _ hlearns.known
    have htransitions : rc.transitions + 1 ≤ maxRcTransitions := hcounts.counted ▸ hcounts.bounded
    rw [loadRuntimeRc, Lockstep.bind_apply, recordTransition_apply, if_pos htransitions, hpath,
      hcounts.counted]
    change (match later.memory.loaded ⟨expression.memory, depth + 1, path⟩ with
      | some loaded => pure loaded
      | none => _ : EStateM EvalError RuntimeRcState LoadedRuntimeRc) _ = _
    rw [hknown]
    rfl

end RcFileLoader

end ProcmailRs
