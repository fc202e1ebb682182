import ProcmailRs.Config.ShellCondition
import ProcmailRs.Lib.Refinement

/-!
# What the expansion of a condition reads

The names that an expression asks for follow from its parts and from the values of the names that come
before: a word that is not evaluated is not read. Two runtimes that agree on these names give the same
value, whatever else they hold.
-/

namespace ProcmailRs.Config

/-! ### The names -/

section Reads

variable (values : Lookup) (assigns : Bool)

mutual

/-- The names whose values the evaluation of a part asks for. When assignments are made on the way, those
of the words that are not evaluated with the values of the start count too. -/
def ShellPart.reads : ShellPart → List String
  | .Literal _ | .Command _ => []
  | .RegexQuotedVariable name => [name]
  | .PatternQuote expression => reads expression
  | .Variable name operation word =>
    if assigns || operation.evaluatesWord (values name).isSome ((values name).any List.isEmpty) then
      name :: reads word
    else [name]

/-- The names that the parts of an expression ask for. -/
def reads : ShellExpression → List String
  | [] => []
  | part :: parts => part.reads ++ reads parts

end

end Reads

/-! ### Parts without assignments -/

section Silent

variable {context : EvaluationContext (Except ExpansionError) ExpansionError} {limit nesting : Nat}
  {name : String} {operation : ParameterOperation} {found : Option VariableValue}
  {evaluateWord : Evaluation → Parsed Evaluation} {output result : Evaluation}

theorem silent_append {value : Bytes} (h : append context limit value output = .ok result) :
    result.assignments = output.assignments := by
  unfold append at h
  split at h
  · cases h
  · cases h
    rfl

theorem withinDepth_eq_ok {evaluation : Parsed Evaluation}
    (h : withinDepth context nesting evaluation = .ok result) : evaluation = .ok result := by
  unfold withinDepth at h
  split at h
  · cases h
  · exact h

theorem silent_evaluateTransform
    (hword : operation.hasWord = true → ∀ pattern, evaluateWord output = .ok pattern →
      pattern.assignments = output.assignments)
    (h : evaluateTransform context limit name operation found evaluateWord output = .ok result) :
    result.assignments = output.assignments := by
  unfold evaluateTransform at h
  cases found with
  | none => cases h
  | some value =>
    obtain ⟨pattern, hpattern, h⟩ := bind_eq_ok h
    have hsilent : pattern.assignments = output.assignments := by
      unfold evaluatePattern at hpattern
      split at hpattern
      · exact hword ‹_› pattern hpattern
      · cases hpattern
        rfl
    cases htransform : transformValue operation value.bytes pattern.bytes with
    | error error =>
      rw [htransform] at h
      cases h
    | ok selected =>
      rw [htransform] at h
      exact (silent_append h).trans hsilent

theorem silent_evaluateSelected (hassign : operation ≠ .AssignIfUnsetOrEmpty)
    (hword : operation.hasWord = true → ∀ selected, evaluateWord output = .ok selected →
      selected.assignments = output.assignments)
    (h : evaluateSelected context limit nesting name operation found evaluateWord output =
      .ok result) : result.assignments = output.assignments := by
  unfold evaluateSelected at h
  dsimp only at h
  split at h
  · cases h
  · split at h
    · rename_i hselects
      have hhas : operation.hasWord = true := by cases operation <;> first | rfl | cases hselects
      obtain ⟨selected, hselected, h⟩ := bind_eq_ok h
      obtain ⟨depth, -, h⟩ := bind_eq_ok h
      exact (silent_append h).trans (hword hhas selected hselected)
    · split at h
      · cases found with
        | none => cases h
        | some value =>
          obtain ⟨depth, -, h⟩ := bind_eq_ok h
          have happend := silent_append h
          exact happend
      · obtain ⟨depth, -, h⟩ := bind_eq_ok h
        cases h
        rfl

end Silent

/-- The evaluation of the word of a parameter. -/
def wordOf (context : EvaluationContext (Except ExpansionError) ExpansionError) (word : ShellExpression)
    (limit nesting : Nat) (output : Evaluation) : Parsed Evaluation :=
  withinDepth context (nesting + 1) (evaluateParts context word (limit - output.bytes.length)
    (nesting + 1) ⟨[], initialDepth context (nesting + 1), output.assignments⟩)

/-- The evaluation of a parameter whose value has been looked for. -/
def parameterOf (context : EvaluationContext (Except ExpansionError) ExpansionError) (name : String)
    (operation : ParameterOperation) (word : ShellExpression) (limit nesting : Nat)
    (output : Evaluation) (found : Option VariableValue) : Parsed Evaluation :=
  if operation.isValueTransform then
    evaluateTransform context limit name operation found (wordOf context word limit nesting) output
  else evaluateSelected context limit nesting name operation found (wordOf context word limit nesting)
    output

theorem evaluatePart_variable {context : EvaluationContext (Except ExpansionError) ExpansionError}
    {name : String} {operation : ParameterOperation} {word : ShellExpression} {limit nesting : Nat}
    {output : Evaluation} :
    evaluatePart context (.Variable name operation word) limit nesting output =
      match assignedValue output.assignments name with
      | some value => parameterOf context name operation word limit nesting output (some value)
      | none => context.variableValue name >>= parameterOf context name operation word limit nesting
          output := by
  rw [evaluatePart]
  cases assignedValue output.assignments name with
  | some value => rfl
  | none => rfl

mutual

/-- A part without assignments makes none. -/
theorem silent_evaluatePart {context : EvaluationContext (Except ExpansionError) ExpansionError}
    (part : ShellPart) (hassign : part.hasAssignments = false) {limit nesting : Nat}
    {output result : Evaluation} (h : evaluatePart context part limit nesting output = .ok result) :
    result.assignments = output.assignments := by
  cases part with
  | Literal text => exact silent_append h
  | Command command =>
    obtain ⟨value, -, h⟩ := bind_eq_ok h
    exact silent_append h
  | RegexQuotedVariable name =>
    obtain ⟨value, -, h⟩ := bind_eq_ok h
    exact silent_append h
  | PatternQuote expression =>
    rw [ShellPart.hasAssignments] at hassign
    rw [evaluatePart] at h
    obtain ⟨value, hvalue, h⟩ := bind_eq_ok h
    have hinner := silent_evaluateParts expression hassign (withinDepth_eq_ok hvalue)
    unfold appendQuoted at h
    dsimp only at h
    split at h
    · cases h
    · exact (silent_append h).trans hinner
  | Variable name operation word =>
    rw [ShellPart.hasAssignments, Bool.or_eq_false_iff] at hassign
    rw [evaluatePart_variable] at h
    have hword (hhas : operation.hasWord = true) (inner : Evaluation)
        (hinner : wordOf context word limit nesting output = .ok inner) :
        inner.assignments = output.assignments := by
      have hsame := silent_evaluateParts word (by simpa [hhas] using hassign.2) (withinDepth_eq_ok hinner)
      exact hsame
    have hparameter : ∃ found, parameterOf context name operation word limit nesting output found =
        .ok result := by
      cases hassigned : assignedValue output.assignments name with
      | some value =>
        rw [hassigned] at h
        exact ⟨some value, h⟩
      | none =>
        rw [hassigned] at h
        obtain ⟨found, -, h⟩ := bind_eq_ok h
        exact ⟨found, h⟩
    obtain ⟨found, h⟩ := hparameter
    unfold parameterOf at h
    split at h
    · exact silent_evaluateTransform hword h
    · exact silent_evaluateSelected (by simpa using hassign.1) hword h

theorem silent_evaluateParts {context : EvaluationContext (Except ExpansionError) ExpansionError}
    (parts : ShellExpression) (hassign : hasAssignments parts = false) {limit nesting : Nat}
    {output result : Evaluation} (h : evaluateParts context parts limit nesting output = .ok result) :
    result.assignments = output.assignments := by
  cases parts with
  | nil =>
    rw [evaluateParts] at h
    cases h
    rfl
  | cons part parts =>
    rw [hasAssignments, Bool.or_eq_false_iff] at hassign
    rw [evaluateParts] at h
    obtain ⟨first, hfirst, h⟩ := bind_eq_ok h
    exact (silent_evaluateParts parts hassign.2 h).trans (silent_evaluatePart part hassign.1 hfirst)

end

/-! ### Evaluation reads nothing else -/

section Evaluation

variable {line : Nat} {runtime other : RuntimeVariables} {assigns : Bool}

/-- A pattern that is not evaluated does not matter. -/
theorem evaluateTransform_congr {context : EvaluationContext (Except ExpansionError) ExpansionError}
    {limit : Nat} {name : String} {operation : ParameterOperation} {found : Option VariableValue}
    {evaluateWord evaluateWord' : Evaluation → Parsed Evaluation} {output : Evaluation}
    (htransform : operation.isValueTransform = true)
    (hword : operation.evaluatesWord found.isSome (found.any fun value => value.bytes.isEmpty) = true →
      evaluateWord output = evaluateWord' output) :
    evaluateTransform context limit name operation found evaluateWord output =
      evaluateTransform context limit name operation found evaluateWord' output := by
  unfold evaluateTransform
  cases found with
  | none => rfl
  | some value =>
    dsimp only
    have hpattern : evaluatePattern operation evaluateWord output =
        evaluatePattern operation evaluateWord' output := by
      unfold evaluatePattern
      split
      · rename_i hhas
        refine hword ?_
        cases operation with
        | RemovePrefix | RemoveSuffix | ChangeCase => rfl
        | Length | Value | ErrorIfUnsetOrEmpty => cases hhas
        | DefaultIfUnset | DefaultIfUnsetOrEmpty | AlternateIfSet | AlternateIfSetAndNotEmpty
        | AssignIfUnsetOrEmpty => cases htransform
      · rfl
    rw [hpattern]

/-- A word that is not selected does not matter. -/
theorem evaluateSelected_congr {context : EvaluationContext (Except ExpansionError) ExpansionError}
    {limit nesting : Nat} {name : String} {operation : ParameterOperation}
    {found : Option VariableValue} {evaluateWord evaluateWord' : Evaluation → Parsed Evaluation}
    {output : Evaluation} (htransform : operation.isValueTransform = false)
    (hword : operation.evaluatesWord found.isSome (found.any fun value => value.bytes.isEmpty) = true →
      evaluateWord output = evaluateWord' output) :
    evaluateSelected context limit nesting name operation found evaluateWord output =
      evaluateSelected context limit nesting name operation found evaluateWord' output := by
  unfold evaluateSelected
  dsimp only
  split
  · rfl
  · split
    · rename_i hselects
      have hevaluates : operation.evaluatesWord found.isSome
          (found.any fun value => value.bytes.isEmpty) = true := by
        cases operation with
        | RemovePrefix | RemoveSuffix | ChangeCase => cases htransform
        | _ => exact hselects
      rw [hword hevaluates]
    · rfl

theorem hasWord_of_evaluatesWord {operation : ParameterOperation} {isSet isEmpty : Bool}
    (h : operation.evaluatesWord isSet isEmpty = true) : operation.hasWord = true := by
  cases operation <;> first | rfl | cases h

mutual

/-- The evaluation of a part depends on the values that it reads. -/
theorem evaluatePart_congr (part : ShellPart)
    (hreads : ∀ name ∈ part.reads runtime.getBytes assigns, other.getBytes name = runtime.getBytes name)
    (limit nesting : Nat) (output : Evaluation)
    (hsilent : assigns = false → part.hasAssignments = false ∧ output.assignments = []) :
    evaluatePart (shellConditionEvaluation line other) part limit nesting output =
      evaluatePart (shellConditionEvaluation line runtime) part limit nesting output := by
  cases part with
  | Literal text => rfl
  | Command command => rfl
  | RegexQuotedVariable name =>
    have hvalue := hreads name (by simp [ShellPart.reads])
    rw [evaluatePart, evaluatePart]
    simp only [shellConditionEvaluation, hvalue]
    rfl
  | PatternQuote expression =>
    rw [ShellPart.reads] at hreads
    rw [ShellPart.hasAssignments] at hsilent
    have hinner := evaluateParts_congr expression hreads (limit - output.bytes.length) nesting
      ⟨[], initialDepth (shellConditionEvaluation line runtime) nesting, output.assignments⟩ hsilent
    rw [evaluatePart, evaluatePart]
    show withinDepth (shellConditionEvaluation line runtime) nesting (evaluateParts
      (shellConditionEvaluation line other) _ _ _ ⟨[], initialDepth
        (shellConditionEvaluation line runtime) nesting, output.assignments⟩) >>= _ = _
    rw [hinner]
    rfl
  | Variable name operation word =>
    have hvalue : other.getBytes name = runtime.getBytes name :=
      hreads name (by rw [ShellPart.reads]; split <;> simp)
    have hword : assigns = true ∨ operation.evaluatesWord (runtime.getBytes name).isSome
        ((runtime.getBytes name).any List.isEmpty) = true →
        wordOf (shellConditionEvaluation line other) word limit nesting output =
          wordOf (shellConditionEvaluation line runtime) word limit nesting output := by
      intro hevaluates
      have hparts := evaluateParts_congr word
        (fun inner hinner => hreads inner (by
          rw [ShellPart.reads, if_pos (by simpa using hevaluates)]
          exact List.mem_cons_of_mem _ hinner))
        (limit - output.bytes.length) (nesting + 1)
        ⟨[], initialDepth (shellConditionEvaluation line runtime) (nesting + 1), output.assignments⟩
        fun hassigns => by
          obtain ⟨hfree, hnone⟩ := hsilent hassigns
          rw [ShellPart.hasAssignments, Bool.or_eq_false_iff] at hfree
          have hhas := hasWord_of_evaluatesWord (hevaluates.resolve_left (by simp [hassigns]))
          exact ⟨by simpa [hhas] using hfree.2, hnone⟩
      exact congrArg (withinDepth (shellConditionEvaluation line runtime) (nesting + 1)) hparts
    have hparameter (found : Option VariableValue)
        (hfound : operation.evaluatesWord found.isSome (found.any fun value => value.bytes.isEmpty) =
            true → assigns = true ∨ operation.evaluatesWord (runtime.getBytes name).isSome
              ((runtime.getBytes name).any List.isEmpty) = true) :
        parameterOf (shellConditionEvaluation line other) name operation word limit nesting output found =
          parameterOf (shellConditionEvaluation line runtime) name operation word limit nesting output
            found := by
      unfold parameterOf
      split
      · exact evaluateTransform_congr ‹_› fun h => hword (hfound h)
      · rename_i htransform
        exact evaluateSelected_congr (by simpa using htransform) fun h => hword (hfound h)
    rw [evaluatePart_variable, evaluatePart_variable]
    cases hassigned : assignedValue output.assignments name with
    | some value =>
      refine hparameter (some value) fun _ => .inl ?_
      by_contra hassigns
      rw [(hsilent (by simpa using hassigns)).2] at hassigned
      cases hassigned
    | none =>
      simp only [shellConditionEvaluation, hvalue]
      refine hparameter _ fun h => .inr ?_
      cases hget : runtime.getBytes name with
      | none => simpa [hget] using h
      | some bytes => simpa [hget] using h

/-- The evaluation of an expression depends on the values that it reads. -/
theorem evaluateParts_congr (parts : ShellExpression)
    (hreads : ∀ name ∈ reads runtime.getBytes assigns parts, other.getBytes name = runtime.getBytes name)
    (limit nesting : Nat) (output : Evaluation)
    (hsilent : assigns = false → hasAssignments parts = false ∧ output.assignments = []) :
    evaluateParts (shellConditionEvaluation line other) parts limit nesting output =
      evaluateParts (shellConditionEvaluation line runtime) parts limit nesting output := by
  cases parts with
  | nil => rfl
  | cons part parts =>
    rw [reads] at hreads
    have hpart := evaluatePart_congr part (fun name hname => hreads name (List.mem_append_left _ hname))
      limit nesting output fun hassigns => by
        obtain ⟨hfree, hnone⟩ := hsilent hassigns
        rw [hasAssignments, Bool.or_eq_false_iff] at hfree
        exact ⟨hfree.1, hnone⟩
    rw [evaluateParts, evaluateParts, hpart]
    cases hfirst : evaluatePart (shellConditionEvaluation line runtime) part limit nesting output with
    | error e => rfl
    | ok first =>
      refine evaluateParts_congr parts (fun name hname => hreads name (List.mem_append_right _ hname))
        limit nesting first fun hassigns => ?_
      obtain ⟨hfree, hnone⟩ := hsilent hassigns
      rw [hasAssignments, Bool.or_eq_false_iff] at hfree
      exact ⟨hfree.2, (silent_evaluatePart part hfree.1 hfirst).trans hnone⟩

end

/-- The expansion of an expression depends on the line buffer and the values that it reads. -/
theorem expandExpression_congr {expression : ShellExpression}
    (hlinebuf : other.get "LINEBUF" = runtime.get "LINEBUF")
    (hreads : ∀ name ∈ reads runtime.getBytes (hasAssignments expression) expression,
      other.getBytes name = runtime.getBytes name) :
    expandExpression expression line other = expandExpression expression line runtime := by
  have hevaluate (limit : Nat) : evaluate (shellConditionEvaluation line other) expression limit =
      evaluate (shellConditionEvaluation line runtime) expression limit := by
    refine congrArg (withinDepth (shellConditionEvaluation line runtime) 0) ?_
    exact evaluateParts_congr expression hreads limit 0
      ⟨[], initialDepth (shellConditionEvaluation line runtime) 0, []⟩ fun hfree => ⟨hfree, rfl⟩
  unfold expandExpression evaluateCondition linebufProblem RuntimeSettings.linebuf
  simp only [hlinebuf, hevaluate]

end Evaluation

end ProcmailRs.Config
