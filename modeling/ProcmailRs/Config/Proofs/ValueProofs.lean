import ProcmailRs.Config.Value

/-!
# The evaluator computes the value

Evaluation with texts for the variables and no commands gives the value of the expression, or fails
when there is none. The value does not change when it is given more room or fewer levels, nor when
variables change that it does not read.
-/

namespace ProcmailRs.Config

/-! ### Room -/

theorem length_le_of_fitting {room : Nat} {text value : Bytes} (h : fitting room text = some value) :
    value.length ≤ room := by
  unfold fitting at h
  split_ifs at h with hle
  rw [← Option.some.inj h]
  exact hle

theorem length_le_of_parameterValue {operation : ParameterOperation} {found word : Option Bytes}
    {room nesting : Nat} {value : Bytes} (hword : ∀ text, word = some text → text.length ≤ room)
    (h : parameterValue operation found room nesting word = some value) : value.length ≤ room := by
  unfold parameterValue at h
  split_ifs at h
  · obtain ⟨found, -, h⟩ := Option.bind_eq_some_iff.mp h
    obtain ⟨pattern, -, h⟩ := Option.bind_eq_some_iff.mp h
    obtain ⟨transformed, -, h⟩ := Option.bind_eq_some_iff.mp h
    exact length_le_of_fitting h
  · unfold selectedValue at h
    split_ifs at h
    · exact hword value h
    · obtain ⟨found, -, h⟩ := Option.bind_eq_some_iff.mp h
      split_ifs at h
      exact length_le_of_fitting h
    · rw [← Option.some.inj h]
      exact Nat.zero_le _

mutual

theorem ShellPart.value_length_le {lookup : Lookup} (part : ShellPart) {room nesting : Nat}
    {value : Bytes} (h : part.value lookup room nesting = some value) : value.length ≤ room := by
  cases part with
  | Literal text => exact length_le_of_fitting h
  | RegexQuotedVariable name => cases h
  | Command command => cases h
  | Variable name operation word =>
    refine length_le_of_parameterValue (fun text htext => ?_) h
    split_ifs at htext
    exact expressionValue_length_le word htext
  | PatternQuote expression =>
    obtain ⟨inner, -, h⟩ := Option.bind_eq_some_iff.mp h
    exact length_le_of_fitting h

theorem expressionValue_length_le {lookup : Lookup} (parts : ShellExpression) {room nesting : Nat}
    {value : Bytes} (h : expressionValue lookup parts room nesting = some value) :
    value.length ≤ room := by
  cases parts with
  | nil =>
    rw [← Option.some.inj h]
    exact Nat.zero_le _
  | cons part parts =>
    obtain ⟨first, hfirst, h⟩ := Option.bind_eq_some_iff.mp h
    obtain ⟨rest, hrest, rfl⟩ := Option.map_eq_some_iff.mp h
    have h₁ := part.value_length_le hfirst
    have h₂ := expressionValue_length_le parts hrest
    rw [List.length_append]
    omega

end

/-! ### The evaluator -/

section Evaluator

variable {line : Nat} {lookup : Lookup}

/-- The evaluation adds the value behind `before`, or fails where there is none. -/
def Gives (result : Parsed Evaluation) (before : Bytes) : Option Bytes → Prop
  | some value => ∃ depth ≤ maxExpansionDepth, result = .ok ⟨before ++ value, depth, []⟩
  | none => ∃ error, result = .error error

/-- An evaluation that has not failed nor assigned anything so far. -/
structure Underway (limit : Nat) (output : Evaluation) : Prop where
  fits : output.bytes.length ≤ limit
  shallow : output.depth ≤ maxExpansionDepth
  silent : output.assignments = []

theorem gives_append {context : EvaluationContext (Except ExpansionError) ExpansionError} {limit : Nat}
    (output : Evaluation) (ho : Underway limit output) (text : Bytes) :
    Gives (append context limit text output) output.bytes
      (fitting (limit - output.bytes.length) text) := by
  obtain ⟨hfits, hdepth, hsilent⟩ := ho
  unfold append fitting
  by_cases h : text.length ≤ limit - output.bytes.length
  · rw [if_pos h, if_neg (by omega)]
    exact ⟨output.depth, hdepth, by rw [← hsilent]; rfl⟩
  · rw [if_neg h, if_pos (by omega)]
    exact ⟨_, rfl⟩

/-- A value behind a longer text is a longer value behind the shorter one. -/
theorem Gives.behind {result : Parsed Evaluation} {before text : Bytes} {value : Option Bytes}
    (h : Gives result (before ++ text) value) : Gives result before (value.map (text ++ ·)) := by
  cases value with
  | none => exact h
  | some value =>
    obtain ⟨depth, hdepth, h⟩ := h
    exact ⟨depth, hdepth, by rw [h, List.append_assoc]⟩

/-- The step from one evaluation to the next. -/
theorem Gives.bind {result : Parsed Evaluation} {before start : Bytes} {value : Option Bytes}
    (h : Gives result start value) {next : Evaluation → Parsed Evaluation}
    {after : Bytes → Option Bytes}
    (hnext : ∀ text depth, value = some text → depth ≤ maxExpansionDepth →
      Gives (next ⟨start ++ text, depth, []⟩) before (after text)) :
    Gives (result >>= next) before (value.bind after) := by
  cases value with
  | none =>
    obtain ⟨error, rfl⟩ := h
    exact ⟨error, rfl⟩
  | some text =>
    obtain ⟨depth, hdepth, rfl⟩ := h
    exact hnext text depth rfl hdepth

theorem Underway.deeper {limit : Nat} {output : Evaluation} (ho : Underway limit output)
    {depth : Nat} (hdepth : depth ≤ maxExpansionDepth) :
    Underway limit { output with depth := max output.depth depth, assignments := [] } :=
  ⟨ho.fits, max_le ho.shallow hdepth, rfl⟩

/-- What is found of a variable whose text is `found`. -/
abbrev textValue (found : Option Bytes) : Option VariableValue := found.map fun bytes => ⟨bytes, 0⟩

theorem gives_evaluateTransform {limit : Nat} {name : String} {operation : ParameterOperation}
    {found word : Option Bytes} {evaluateWord : Evaluation → Parsed Evaluation}
    {output : Evaluation} (ho : Underway limit output)
    (hword : operation.hasWord = true → Gives (evaluateWord output) [] word) :
    Gives
      (evaluateTransform (runtimeStringEvaluation line lookup) limit name operation
        (textValue found) evaluateWord output)
      output.bytes (transformedValue operation found (limit - output.bytes.length) word) := by
  unfold transformedValue evaluateTransform
  cases found with
  | none => exact ⟨_, rfl⟩
  | some value =>
    have hpattern : Gives (evaluatePattern operation evaluateWord output) []
        (if operation.hasWord = true then word else some []) := by
      unfold evaluatePattern
      split_ifs with h
      · exact hword h
      · exact ⟨0, Nat.zero_le _, by rw [ho.silent]; rfl⟩
    refine Gives.bind hpattern fun pattern depth _ hdepth => ?_
    rw [List.nil_append]
    dsimp only
    cases transformValue operation value pattern with
    | error error => exact ⟨_, rfl⟩
    | ok selected =>
      have hshallow : max (max output.depth 0) depth ≤ maxExpansionDepth :=
        max_le (max_le ho.shallow (Nat.zero_le _)) hdepth
      exact gives_append ⟨output.bytes, _, []⟩ ⟨ho.fits, hshallow, rfl⟩ selected

/-- Depth is counted within the bound, so that a selected word adds nothing to it. -/
theorem selectedDepth_word {depth nesting : Nat} (hdepth : depth ≤ maxExpansionDepth) :
    selectedDepth (runtimeStringEvaluation line lookup) depth nesting true false = .ok depth :=
  if_neg (by simpa [runtimeStringEvaluation] using hdepth)

theorem selectedDepth_value {nesting : Nat} {isEmpty : Bool}
    (h : isEmpty = true ∨ nesting < maxExpansionDepth) (hnesting : nesting ≤ maxExpansionDepth) :
    ∃ depth ≤ maxExpansionDepth,
      selectedDepth (runtimeStringEvaluation line lookup) 0 nesting false isEmpty = .ok depth := by
  cases isEmpty with
  | true => exact ⟨nesting, hnesting, if_neg (by simpa [runtimeStringEvaluation] using hnesting)⟩
  | false =>
    have hlt : nesting + 1 ≤ maxExpansionDepth := by
      rcases h with h | h
      · cases h
      · exact h
    exact ⟨nesting + 1, hlt, if_neg (by simpa [runtimeStringEvaluation] using hlt)⟩

theorem selectedDepth_exceeded {nesting : Nat} (h : ¬ nesting < maxExpansionDepth) :
    ∃ error, selectedDepth (runtimeStringEvaluation line lookup) 0 nesting false false =
      .error error := by
  refine ⟨_, if_pos ?_⟩
  show nesting + 1 > maxExpansionDepth
  omega

theorem gives_evaluateSelected {limit nesting : Nat} {name : String}
    {operation : ParameterOperation} (hassign : operation ≠ .AssignIfUnsetOrEmpty)
    {found word : Option Bytes} {evaluateWord : Evaluation → Parsed Evaluation}
    {output : Evaluation} (ho : Underway limit output) (hnesting : nesting ≤ maxExpansionDepth)
    (hroom : ∀ text, word = some text → text.length ≤ limit - output.bytes.length)
    (hword : operation.hasWord = true → Gives (evaluateWord output) [] word) :
    Gives
      (evaluateSelected (runtimeStringEvaluation line lookup) limit nesting name operation
        (textValue found) evaluateWord output)
      output.bytes
      (selectedValue operation found (limit - output.bytes.length) nesting word) := by
  have hset : (textValue found).isSome = found.isSome := by cases found <;> rfl
  have hempty : ((textValue found).any fun value => value.bytes.isEmpty) =
      found.any List.isEmpty := by cases found <;> rfl
  have herror : (!found.isSome || found.any List.isEmpty) = found.all List.isEmpty := by
    cases found <;> rfl
  unfold selectedValue evaluateSelected
  simp only [hset, hempty, herror]
  split_ifs with herr hsel huse
  · exact ⟨_, rfl⟩
  · -- The word has been evaluated in the room that is left.
    have hhas : operation.hasWord = true := by
      cases operation <;> first | rfl | cases hsel
    have hgives := hword hhas
    cases word with
    | none =>
      obtain ⟨error, he⟩ := hgives
      exact ⟨error, by rw [he]; rfl⟩
    | some text =>
      obtain ⟨depth, hdepth, he⟩ := hgives
      rw [he]
      show Gives (selectedDepth _ depth nesting true false >>= _) _ _
      rw [selectedDepth_word hdepth]
      have happ := @gives_append (runtimeStringEvaluation line lookup) limit _ (ho.deeper hdepth) text
      rwa [fitting, if_pos (hroom text rfl)] at happ
  · cases found with
    | none => exact ⟨_, rfl⟩
    | some value =>
      show Gives (selectedDepth _ 0 nesting false value.isEmpty >>= _) _
        (if value.isEmpty = true ∨ nesting < maxExpansionDepth then _ else none)
      split_ifs with hdeep
      · obtain ⟨depth, hdepth, he⟩ := selectedDepth_value hdeep hnesting
        rw [he]
        have happ := @gives_append (runtimeStringEvaluation line lookup) limit _ (ho.deeper hdepth) value
        rw [← ho.silent] at happ
        exact happ
      · have hfull : value.isEmpty = false := by
          by_contra h
          exact hdeep (.inl (by simpa using h))
        obtain ⟨error, he⟩ :=
          @selectedDepth_exceeded line lookup nesting fun h => hdeep (.inr h)
        rw [hfull, he]
        exact ⟨error, rfl⟩
  · obtain ⟨depth, hdepth, he⟩ := @selectedDepth_value line lookup nesting true (.inl rfl) hnesting
    rw [he]
    exact ⟨max output.depth depth, max_le ho.shallow hdepth, by rw [ho.silent]; simp⟩

theorem gives_withinDepth {nesting : Nat} {evaluation : Parsed Evaluation} {value : Option Bytes}
    (h : nesting ≤ maxExpansionDepth → Gives evaluation [] value) :
    Gives (withinDepth (runtimeStringEvaluation line lookup) nesting evaluation) []
      (if nesting ≤ maxExpansionDepth then value else none) := by
  unfold withinDepth
  by_cases hnesting : nesting ≤ maxExpansionDepth
  · rw [if_neg (by omega), if_pos hnesting]
    exact h hnesting
  · rw [if_pos (by omega), if_neg hnesting]
    exact ⟨_, rfl⟩

theorem gives_appendQuoted {limit : Nat} {output : Evaluation} (ho : Underway limit output)
    (text : Bytes) {depth : Nat} (hdepth : depth ≤ maxExpansionDepth) :
    Gives (appendQuoted (runtimeStringEvaluation line lookup) limit ⟨text, depth, []⟩ output)
      output.bytes (fitting (limit - output.bytes.length) (quotePatternBytes text)) := by
  unfold appendQuoted
  by_cases h : (quotePatternBytes text).length ≤ limit - output.bytes.length
  · rw [if_neg (by simpa using h)]
    exact gives_append _ (ho.deeper hdepth) _
  · rw [if_pos (by simpa using h), fitting, if_neg h]
    exact ⟨_, rfl⟩

/-- Where the evaluation of an expression starts. -/
theorem underway_initial {room nesting : Nat} (hnesting : nesting ≤ maxExpansionDepth) :
    Underway room ⟨[], initialDepth (runtimeStringEvaluation line lookup) nesting, []⟩ :=
  ⟨Nat.zero_le _, hnesting, rfl⟩

mutual

theorem gives_evaluatePart (part : ShellPart) (hassign : part.hasAssignments = false)
    {limit nesting : Nat} {output : Evaluation} (ho : Underway limit output)
    (hnesting : nesting ≤ maxExpansionDepth) :
    Gives (evaluatePart (runtimeStringEvaluation line lookup) part limit nesting output)
      output.bytes (part.value lookup (limit - output.bytes.length) nesting) := by
  cases part with
  | Literal text =>
    rw [evaluatePart, ShellPart.value]
    exact gives_append output ho text
  | RegexQuotedVariable name =>
    rw [evaluatePart, ShellPart.value]
    exact ⟨_, rfl⟩
  | Command command =>
    rw [evaluatePart, ShellPart.value]
    exact ⟨_, rfl⟩
  | PatternQuote expression =>
    rw [ShellPart.hasAssignments] at hassign
    rw [evaluatePart, ShellPart.value, ho.silent]
    have hinner := @gives_withinDepth line lookup nesting _ _ fun h =>
      gives_evaluateParts expression hassign
        (@underway_initial line lookup (limit - output.bytes.length) nesting h) h
    rw [if_pos hnesting] at hinner
    exact Gives.bind hinner fun text depth _ hdepth => gives_appendQuoted ho text hdepth
  | Variable name operation word =>
    rw [ShellPart.hasAssignments, Bool.or_eq_false_iff] at hassign
    have hword (h : operation.hasWord = true) := @gives_withinDepth line lookup (nesting + 1) _ _
      fun hdeep => gives_evaluateParts word (by simpa [h] using hassign.2)
        (@underway_initial line lookup (limit - output.bytes.length) (nesting + 1) hdeep) hdeep
    have hroom : ∀ text, (if nesting < maxExpansionDepth then
        expressionValue lookup word (limit - output.bytes.length) (nesting + 1) else none) =
          some text → text.length ≤ limit - output.bytes.length := by
      intro text htext
      split_ifs at htext
      exact expressionValue_length_le word htext
    rw [evaluatePart, ShellPart.value, ho.silent]
    show Gives (if operation.isValueTransform = true then _ else _) _ _
    by_cases hop : operation.isValueTransform = true
    · rw [if_pos hop, parameterValue, if_pos hop]
      exact gives_evaluateTransform ho fun h => by rw [ho.silent]; exact hword h
    · rw [if_neg hop, parameterValue, if_neg hop]
      exact gives_evaluateSelected (by simpa using hassign.1) ho hnesting hroom
        fun h => by rw [ho.silent]; exact hword h

theorem gives_evaluateParts (parts : ShellExpression) (hassign : hasAssignments parts = false)
    {limit nesting : Nat} {output : Evaluation} (ho : Underway limit output)
    (hnesting : nesting ≤ maxExpansionDepth) :
    Gives (evaluateParts (runtimeStringEvaluation line lookup) parts limit nesting output)
      output.bytes (expressionValue lookup parts (limit - output.bytes.length) nesting) := by
  cases parts with
  | nil =>
    rw [evaluateParts, expressionValue]
    exact ⟨output.depth, ho.shallow, by rw [← ho.silent]; simp; rfl⟩
  | cons part parts =>
    rw [hasAssignments, Bool.or_eq_false_iff] at hassign
    rw [evaluateParts, expressionValue]
    refine Gives.bind (gives_evaluatePart part hassign.1 ho hnesting) fun text depth htext hdepth => ?_
    have hroom := part.value_length_le htext
    have hfits := ho.fits
    have hnext : Underway limit ⟨output.bytes ++ text, depth, []⟩ :=
      ⟨by rw [List.length_append]; omega, hdepth, rfl⟩
    have hrest := gives_evaluateParts parts hassign.2 hnext hnesting
    rw [List.length_append, ← Nat.sub_sub] at hrest
    exact hrest.behind

end

/-- An expression that assigns nothing is evaluated to its value, when that is text. -/
theorem toOption_evaluateExpression (expression : ShellExpression)
    (hassign : hasAssignments expression = false) (limit : Nat) :
    (evaluateExpression expression line limit lookup).toOption =
      (expressionValue lookup expression limit 0).filter isText := by
  have hdepth : 0 ≤ maxExpansionDepth := Nat.zero_le _
  have hgives := @gives_withinDepth line lookup 0 _ _ fun h =>
    @gives_evaluateParts line lookup expression hassign _ _ _
      (@underway_initial line lookup limit 0 h) h
  rw [if_pos hdepth] at hgives
  unfold evaluateExpression evaluate evaluateAt
  cases hvalue : expressionValue lookup expression limit 0 with
  | none =>
    rw [show limit - List.length [] = limit from rfl, hvalue] at hgives
    obtain ⟨error, he⟩ := hgives
    rw [he]
    rfl
  | some value =>
    rw [show limit - List.length [] = limit from rfl, hvalue] at hgives
    obtain ⟨depth, -, he⟩ := hgives
    rw [he]
    show (evaluatedText line ⟨value, depth, []⟩).toOption = _
    unfold evaluatedText
    cases htext : utf8Chars? value <;> simp [htext, isText, Option.filter, Except.toOption]

theorem toOption_evaluateWithLinebuf (expression : ShellExpression)
    (hassign : hasAssignments expression = false) (hardLimit : Nat) :
    (evaluateWithLinebuf expression line hardLimit lookup).toOption =
      (expressionValue lookup expression (min (activeLinebuf lookup) hardLimit) 0).filter
        isText := by
  rw [← @toOption_evaluateExpression line _ expression hassign]
  show ((evaluateExpression expression line (min (activeLinebuf lookup) hardLimit) lookup).mapError
    _).toOption = _
  cases evaluateExpression expression line (min (activeLinebuf lookup) hardLimit) lookup <;> rfl

end Evaluator

/-! ### The variables that matter -/

/-- The variables agree but for those that only a message sets. -/
def AgreeOrdinary (e₁ e₂ : Lookup) : Prop :=
  ∀ name, variablePolicy name ≠ .RuntimeOnly → e₁ name = e₂ name

/-! ### Appending parts -/

theorem expressionValue_append (lookup : Lookup) (parts rest : ShellExpression)
    (room nesting : Nat) :
    expressionValue lookup (parts ++ rest) room nesting =
      (expressionValue lookup parts room nesting).bind fun value =>
        (expressionValue lookup rest (room - value.length) nesting).map (value ++ ·) := by
  induction parts generalizing room with
  | nil =>
    rw [List.nil_append, expressionValue, Option.bind_some]
    cases expressionValue lookup rest room nesting <;> rfl
  | cons part parts ih =>
    rw [List.cons_append, expressionValue, expressionValue, Option.bind_assoc]
    congr 1
    funext value
    rw [ih]
    cases expressionValue lookup parts (room - value.length) nesting with
    | none => rfl
    | some text =>
      simp only [Option.bind_some, Option.map_some, List.length_append, Nat.sub_sub, Option.map_map]
      congr 1
      funext last
      exact (List.append_assoc _ _ _).symm

end ProcmailRs.Config
