import ProcmailRs.Config.Reference

/-!
# Bounded evaluation and its documentation

A bounded evaluation asks the questions that the documentation asks, in the same order, and ends with the
documented value, with a documented error, or at the first of its bounds that is exceeded, unless it comes to
a part that is marked.
-/

namespace ProcmailRs.Config

open Dialogue (Follows)

section

variable {σ ε : Type} (context : EvaluationContext (EStateM ε σ) ε)

/-- The evaluation follows the script. -/
abbrev Evaluates (evaluation : EStateM ε σ Evaluation) (script : Script ε) (s : σ) : Prop :=
  Follows context.answer (isBoundError context) evaluation script s

variable {context}

theorem evaluates_append (limit : Nat) (value : Bytes) (output : Evaluation) (s : σ) :
    Evaluates context (append context limit value output) (add limit value output) s := by
  unfold append add
  by_cases hlong : output.bytes.length + value.length > limit
  · rw [if_pos hlong]
    refine .bound ?_ fun _ => ⟨_, .inr ⟨_, _, _, rfl⟩, rfl⟩
    intro hfits
    exact absurd (of_decide_eq_true hfits) (by omega)
  · rw [if_neg hlong]
    refine .bound (fun _ => .pure _ s) ?_
    intro hbeyond
    exact absurd (of_decide_eq_false hbeyond) (by omega)

theorem evaluates_withinDepth {nesting : Nat} {evaluation : EStateM ε σ Evaluation} {script : Script ε} {s : σ}
    (h : Evaluates context evaluation script s) :
    Evaluates context (withinDepth context nesting evaluation) (.bound (nesting ≤ maxExpansionDepth) script) s := by
  unfold withinDepth
  by_cases hdeep : nesting > maxExpansionDepth
  · rw [if_pos hdeep]
    refine .bound ?_ fun _ => ⟨_, .inl rfl, rfl⟩
    intro hfits
    exact absurd (of_decide_eq_true hfits) (by omega)
  · rw [if_neg hdeep]
    refine .bound (fun _ => h) ?_
    intro hbeyond
    exact absurd (of_decide_eq_false hbeyond) (by omega)

theorem evaluates_selectedDepth {valueDepth nesting : Nat} {usedWord emptyValue : Bool}
    {k : Nat → EStateM ε σ Evaluation} {next : Nat → Script ε} {s : σ} (hk : ∀ depth, Evaluates context (k depth) (next depth) s) :
    Evaluates context (selectedDepth context valueDepth nesting usedWord emptyValue >>= k)
      (atDepth context valueDepth nesting usedWord emptyValue next) s := by
  obtain ⟨depth, hdepth, hscript⟩ : ∃ depth,
      selectedDepth context valueDepth nesting usedWord emptyValue =
        (if depth > maxExpansionDepth then throw context.depthExceeded else pure depth) ∧
      atDepth context valueDepth nesting usedWord emptyValue next =
        .bound (depth ≤ maxExpansionDepth) (next depth) := ⟨_, rfl, rfl⟩
  rw [hdepth, hscript]
  by_cases hdeep : depth > maxExpansionDepth
  · rw [if_pos hdeep]
    refine .bound ?_ fun _ => ⟨_, .inl rfl, rfl⟩
    intro hfits
    exact absurd (of_decide_eq_true hfits) (by omega)
  · rw [if_neg hdeep]
    refine .bound (fun _ => hk depth) ?_
    intro hbeyond
    exact absurd (of_decide_eq_false hbeyond) (by omega)

/-- The room that is left is checked twice. -/
theorem evaluates_appendQuoted (limit : Nat) (value output : Evaluation) (s : σ) :
    Evaluates context (appendQuoted context limit value output)
      (add limit (quotePatternBytes value.bytes)
        { output with depth := max output.depth value.depth, assignments := value.assignments }) s := by
  unfold appendQuoted
  simp only
  by_cases hlong : (quotePatternBytes value.bytes).length > limit - output.bytes.length
  · rw [if_pos hlong]
    refine .bound ?_ fun _ => ⟨_, .inr ⟨_, _, _, rfl⟩, rfl⟩
    intro hfits
    have hfits := of_decide_eq_true hfits
    simp only at hfits
    omega
  · rw [if_neg hlong]
    exact evaluates_append limit _ _ s

/-! ### Parameters -/

/-- What the source selects. -/
def sourceChoice (operation : ParameterOperation) (found : Option VariableValue) : Choice :=
  let isSet := found.isSome
  let isEmpty := found.any fun value => value.bytes.isEmpty
  if operation = .ErrorIfUnsetOrEmpty ∧ (!isSet || isEmpty) then .Required
  else if operation.selectsWord isSet isEmpty then .Word
  else if operation.usesValueWhenWordIsNotSelected then if isSet then .Own else .Missing
  else .Empty

/-- Only the value of a variable that needs no assignment is not selected as documented. -/
theorem sourceChoice_eq {operation : ParameterOperation} {found : Option VariableValue}
    (htransform : operation.isValueTransform = false)
    (hvalue : operation = .AssignIfUnsetOrEmpty → found.all fun value => value.bytes.isEmpty) :
    sourceChoice operation found = documentedChoice operation (found.map VariableValue.bytes) := by
  cases found with
  | none => cases operation <;> rfl
  | some value =>
    obtain ⟨bytes, depth⟩ := value
    cases bytes with
    | nil => cases operation <;> rfl
    | cons byte bytes => cases operation <;> first | rfl | exact absurd htransform (by decide) | exact absurd (hvalue rfl) (by simp)

section Parameter

variable {limit nesting : Nat} {name : String} {operation : ParameterOperation}
  {evaluateWord : Evaluation → EStateM ε σ Evaluation} {word : Script ε} {output : Evaluation}
  (hword : ∀ s, Evaluates context (evaluateWord output) word s)

include hword

theorem evaluates_transform (found : Option VariableValue) (s : σ) :
    Evaluates context (evaluateTransform context limit name operation found evaluateWord output)
      (documentedTransform context limit name operation found word output) s := by
  cases found with
  | none => exact .failure _ s
  | some value =>
    have hpattern : Evaluates context (evaluatePattern operation evaluateWord output)
        (if operation.hasWord then word else .value ⟨[], 0, output.assignments⟩) s := by
      unfold evaluatePattern
      split_ifs
      · exact hword s
      · exact .pure _ s
    apply Follows.bind hpattern
    intro pattern s' _
    cases transformValue operation value.bytes pattern.bytes with
    | error error => exact .failure _ s'
    | ok selected => exact evaluates_append limit selected _ s'

/-- What the source selects is what is documented, but for a `:=` whose variable has a value. -/
theorem evaluates_selected (htransform : operation.isValueTransform = false) (found : Option VariableValue) (s : σ) :
    Evaluates context (evaluateSelected context limit nesting name operation found evaluateWord output)
      (documentedSelected context limit nesting name operation found word output) s := by
  by_cases hvalue : operation = .AssignIfUnsetOrEmpty → found.all fun value => value.bytes.isEmpty
  · have hsource := sourceChoice_eq htransform hvalue
    unfold sourceChoice at hsource
    unfold documentedSelected
    by_cases hrequired : operation = .ErrorIfUnsetOrEmpty ∧
        (!found.isSome || found.any fun value => value.bytes.isEmpty) = true
    · simp only [if_pos hrequired] at hsource
      simp only [← hsource, evaluateSelected, if_pos hrequired]
      exact .failure _ s
    by_cases hselected : operation.selectsWord found.isSome (found.any fun value => value.bytes.isEmpty) = true
    · simp only [if_neg hrequired, if_pos hselected] at hsource
      simp only [← hsource, evaluateSelected, if_neg hrequired, if_pos hselected]
      apply Follows.bind (hword s)
      intro selected s' _
      apply evaluates_selectedDepth
      intro depth
      exact evaluates_append limit selected.bytes _ s'
    by_cases huses : operation.usesValueWhenWordIsNotSelected = true
    · have hassign : operation ≠ .AssignIfUnsetOrEmpty := by
        rintro rfl
        cases huses
      simp only [if_neg hrequired, if_neg hselected, if_pos huses] at hsource
      simp only [← hsource, evaluateSelected, if_neg hrequired, if_neg hselected, if_pos huses]
      cases found with
      | none => exact .failure _ s
      | some value =>
        simp only [Option.isSome_some, if_true, if_neg hassign]
        apply evaluates_selectedDepth
        intro depth
        exact evaluates_append limit value.bytes _ s
    · simp only [if_neg hrequired, if_neg hselected, if_neg huses] at hsource
      simp only [← hsource, evaluateSelected, if_neg hrequired, if_neg hselected, if_neg huses]
      apply evaluates_selectedDepth
      intro depth
      exact .pure _ s
  · obtain ⟨rfl, hset⟩ := Classical.not_imp.mp hvalue
    cases found with
    | none => simp at hset
    | some value =>
      obtain ⟨bytes, depth⟩ := value
      cases bytes with
      | nil => simp at hset
      | cons byte bytes => exact .mark _ s

end Parameter

/-! ### Expressions -/

theorem evaluates_lookUp {name : String} {output : Evaluation} {k : Option VariableValue → EStateM ε σ Evaluation}
    {next : Option VariableValue → Script ε} {s : σ} (hk : ∀ found s', Evaluates context (k found) (next found) s') :
    Evaluates context
      (match assignedValue output.assignments name with
        | some value => pure (some value) >>= k
        | none => context.variableValue name >>= k) (lookUp output.assignments name next) s := by
  unfold lookUp
  cases assignedValue output.assignments name with
  | some value => exact hk (some value) s
  | none =>
    change Evaluates context (context.answer (.Variable name) >>= k) _ s
    apply Follows.ask
    intro found s' _
    exact hk found s'

mutual

/-- One part: its questions, its value and its assignments are the documented ones. -/
theorem evaluates_part (part : ShellPart) (limit nesting : Nat) (output : Evaluation) (s : σ) :
    Evaluates context (evaluatePart context part limit nesting output)
      (documentedPart context part limit nesting output) s := by
  match part with
  | .Literal text =>
    rw [evaluatePart, documentedPart]
    exact evaluates_append limit text output s
  | .Variable name operation word =>
    rw [evaluatePart, documentedPart]
    apply evaluates_lookUp
    intro found s'
    have hword (s : σ) : Evaluates context
        (withinDepth context (nesting + 1) (evaluateParts context word (limit - output.bytes.length) (nesting + 1)
          ⟨[], initialDepth context (nesting + 1), output.assignments⟩))
        (.bound (nesting + 1 ≤ maxExpansionDepth)
          (documentedParts context word (limit - output.bytes.length) (nesting + 1)
            ⟨[], initialDepth context (nesting + 1), output.assignments⟩)) s :=
      evaluates_withinDepth (evaluates_parts word _ _ ⟨[], initialDepth context (nesting + 1), output.assignments⟩ s)
    cases htransform : operation.isValueTransform with
    | true => exact evaluates_transform hword found s'
    | false =>
      apply evaluates_selected _ htransform found s'
      exact hword
  | .Command command =>
    rw [evaluatePart, documentedPart]
    by_cases hassigned : output.assignments.isEmpty = true
    · simp only [if_pos hassigned]
      change Evaluates context (context.answer (.Command command (limit - output.bytes.length)) >>= fun value : Bytes =>
        append context limit value output) _ s
      apply Follows.ask
      intro value s' _
      exact evaluates_append limit value output s'
    · simp only [if_neg hassigned]
      exact .mark _ s
  | .RegexQuotedVariable name =>
    rw [evaluatePart, documentedPart]
    cases assignedValue output.assignments name with
    | some value => exact .mark _ s
    | none =>
      change Evaluates context (context.answer (.RegexQuoted name (limit - output.bytes.length)) >>= fun value : Bytes =>
        append context limit value output) _ s
      apply Follows.ask
      intro value s' _
      exact evaluates_append limit value output s'
  | .PatternQuote expression =>
    rw [evaluatePart, documentedPart]
    apply Follows.bind (evaluates_withinDepth (evaluates_parts expression _ nesting
      ⟨[], initialDepth context nesting, output.assignments⟩ s))
    intro value s' _
    exact evaluates_appendQuoted limit value output s'

theorem evaluates_parts (parts : ShellExpression) (limit nesting : Nat) (output : Evaluation) (s : σ) :
    Evaluates context (evaluateParts context parts limit nesting output)
      (documentedParts context parts limit nesting output) s := by
  match parts with
  | [] =>
    rw [evaluateParts, documentedParts]
    exact .pure output s
  | part :: parts =>
    rw [evaluateParts, documentedParts]
    apply Follows.bind (evaluates_part part limit nesting output s)
    intro output' s' _
    exact evaluates_parts parts limit nesting output' s'

end

/-! ### Bounds -/

/-- Every name is assigned once, and no assigned value is longer than the bound. -/
structure BoundedAssignments (bound : Nat) (assignments : List (String × Bytes)) : Prop where
  nodup : (assignments.map Prod.fst).Nodup
  small : ∀ assignment ∈ assignments, assignment.2.length ≤ bound

theorem mem_recordAssignment {name : String} {value : Bytes} {assignments : List (String × Bytes)}
    {assignment : String × Bytes} (h : assignment ∈ recordAssignment name value assignments) :
    assignment = (name, value) ∨ assignment ∈ assignments := by
  induction assignments with
  | nil => exact .inl (List.mem_singleton.mp h)
  | cons first rest ih =>
    obtain ⟨assigned, old⟩ := first
    rw [recordAssignment] at h
    split_ifs at h with hname
    · rcases List.mem_cons.mp h with rfl | hrest
      · exact .inl (by rw [hname])
      · exact .inr (List.mem_cons_of_mem _ hrest)
    · rcases List.mem_cons.mp h with rfl | hrest
      · exact .inr List.mem_cons_self
      · exact (ih hrest).imp id (List.mem_cons_of_mem _)

theorem BoundedAssignments.record {bound : Nat} {assignments : List (String × Bytes)} {name : String} {value : Bytes}
    (h : BoundedAssignments bound assignments) (hvalue : value.length ≤ bound) :
    BoundedAssignments bound (recordAssignment name value assignments) := by
  constructor
  · have hnodup := h.nodup
    clear h
    induction assignments with
    | nil => simp [recordAssignment]
    | cons first rest ih =>
      obtain ⟨assigned, old⟩ := first
      rw [List.map_cons, List.nodup_cons] at hnodup
      rw [recordAssignment]
      split_ifs with hname
      · exact List.nodup_cons.mpr hnodup
      · refine List.nodup_cons.mpr ⟨?_, ih hnodup.2⟩
        intro hmem
        obtain ⟨assignment, hassignment, hfst⟩ := List.mem_map.mp hmem
        rcases mem_recordAssignment hassignment with rfl | hrest
        · exact hname hfst.symm
        · exact hnodup.1 (List.mem_map.mpr ⟨assignment, hrest, hfst⟩)
  · intro assignment hassignment
    rcases mem_recordAssignment hassignment with rfl | hrest
    · exact hvalue
    · exact h.small assignment hrest

/-- The value is within the limit, and the assignments are within the bound. -/
def Within (limit bound : Nat) (evaluation : Evaluation) : Prop :=
  evaluation.bytes.length ≤ limit ∧ BoundedAssignments bound evaluation.assignments

theorem within_append {limit bound : Nat} {value : Bytes} {output : Evaluation}
    (h : BoundedAssignments bound output.assignments) :
    Outcome.Gives (append context limit value output) (Within limit bound) := by
  unfold append
  split_ifs with hlong
  · exact Outcome.Gives.throw
  · exact Outcome.Gives.pure ⟨by simpa using hlong, h⟩

theorem within_withinDepth {nesting : Nat} {evaluation : EStateM ε σ Evaluation} {P : Evaluation → Prop}
    (h : Outcome.Gives evaluation P) : Outcome.Gives (withinDepth context nesting evaluation) P :=
  Outcome.Gives.ite Outcome.Gives.throw h

section Parameter

variable {limit bound nesting : Nat} {name : String} {operation : ParameterOperation}
  {evaluateWord : Evaluation → EStateM ε σ Evaluation} {output : Evaluation}
  (hlimit : limit ≤ bound) (houtput : BoundedAssignments bound output.assignments)
  (hword : Outcome.Gives (evaluateWord output) (Within (limit - output.bytes.length) bound))

include houtput hword

theorem within_transform (found : Option VariableValue) :
    Outcome.Gives (evaluateTransform context limit name operation found evaluateWord output) (Within limit bound) := by
  cases found with
  | none => exact Outcome.Gives.throw
  | some value =>
    have hpattern : Outcome.Gives (evaluatePattern operation evaluateWord output)
        fun pattern : Evaluation => BoundedAssignments bound pattern.assignments := by
      unfold evaluatePattern
      split_ifs
      · exact fun s => (hword s).mono (fun _ _ h => h.2) fun _ _ h => h
      · exact Outcome.Gives.pure houtput
    apply Outcome.Gives.bind hpattern
    intro pattern hbounded
    split
    · exact Outcome.Gives.throw
    · exact within_append hbounded

include hlimit

theorem within_selected (found : Option VariableValue) (hlength : output.bytes.length ≤ limit) :
    Outcome.Gives (evaluateSelected context limit nesting name operation found evaluateWord output) (Within limit bound) := by
  unfold evaluateSelected
  simp only
  apply Outcome.Gives.ite Outcome.Gives.throw
  apply Outcome.Gives.ite
  · apply Outcome.Gives.bind hword
    intro selected hselected
    have hassignments : BoundedAssignments bound (if operation = .AssignIfUnsetOrEmpty then
        recordAssignment name selected.bytes selected.assignments else selected.assignments) := by
      split_ifs
      · exact hselected.2.record (by have := hselected.1; omega)
      · exact hselected.2
    apply Outcome.Gives.bind (Outcome.Gives.any _)
    intro depth _
    exact within_append hassignments
  apply Outcome.Gives.ite
  · split
    · exact Outcome.Gives.throw
    · apply Outcome.Gives.bind (Outcome.Gives.any _)
      intro depth _
      exact within_append houtput
  · apply Outcome.Gives.bind (Outcome.Gives.any _)
    intro depth _
    exact Outcome.Gives.pure ⟨hlength, houtput⟩

theorem within_parameter (found : Option VariableValue) (hlength : output.bytes.length ≤ limit) :
    Outcome.Gives
      (if operation.isValueTransform then evaluateTransform context limit name operation found evaluateWord output
        else evaluateSelected context limit nesting name operation found evaluateWord output)
      (Within limit bound) :=
  Outcome.Gives.ite (within_transform houtput hword found) (within_selected hlimit houtput hword found hlength)

end Parameter

mutual

theorem within_part (part : ShellPart) {limit bound nesting : Nat} {output : Evaluation} (hlimit : limit ≤ bound)
    (houtput : Within limit bound output) :
    Outcome.Gives (evaluatePart context part limit nesting output) (Within limit bound) := by
  obtain ⟨hlength, hassignments⟩ := houtput
  have hremaining : limit - output.bytes.length ≤ bound := by omega
  have hempty (nesting : Nat) : Within (limit - output.bytes.length) bound
      ⟨[], initialDepth context nesting, output.assignments⟩ := ⟨Nat.zero_le _, hassignments⟩
  match part with
  | .Literal text =>
    rw [evaluatePart]
    exact within_append hassignments
  | .Variable name operation word =>
    rw [evaluatePart]
    have hword : Outcome.Gives
        (withinDepth context (nesting + 1) (evaluateParts context word (limit - output.bytes.length) (nesting + 1)
          ⟨[], initialDepth context (nesting + 1), output.assignments⟩))
        (Within (limit - output.bytes.length) bound) :=
      within_withinDepth (within_parts word hremaining (hempty (nesting + 1)))
    cases assignedValue output.assignments name with
    | some value =>
      apply Outcome.Gives.bind (Outcome.Gives.any _)
      intro found _
      apply within_parameter hlimit hassignments _ found hlength
      exact hword
    | none =>
      apply Outcome.Gives.bind (Outcome.Gives.any _)
      intro found _
      apply within_parameter hlimit hassignments _ found hlength
      exact hword
  | .Command command =>
    rw [evaluatePart]
    apply Outcome.Gives.bind (Outcome.Gives.any _)
    intro value _
    exact within_append hassignments
  | .RegexQuotedVariable name =>
    rw [evaluatePart]
    apply Outcome.Gives.bind (Outcome.Gives.any _)
    intro value _
    exact within_append hassignments
  | .PatternQuote expression =>
    rw [evaluatePart]
    apply Outcome.Gives.bind (within_withinDepth (within_parts expression hremaining (hempty nesting)))
    intro value hvalue
    unfold appendQuoted
    simp only
    exact Outcome.Gives.ite Outcome.Gives.throw (within_append hvalue.2)

theorem within_parts (parts : ShellExpression) {limit bound nesting : Nat} {output : Evaluation} (hlimit : limit ≤ bound)
    (houtput : Within limit bound output) :
    Outcome.Gives (evaluateParts context parts limit nesting output) (Within limit bound) := by
  match parts with
  | [] =>
    rw [evaluateParts]
    exact Outcome.Gives.pure houtput
  | part :: parts =>
    rw [evaluateParts]
    apply Outcome.Gives.bind (within_part part hlimit houtput)
    intro output' houtput'
    exact within_parts parts hlimit houtput'

end

end

open Dialogue (Meets)

/-- An evaluation that comes to no marked part asks the documented questions in the documented order and ends with
the documented value and assignments, with a documented error, or at the first bound that is exceeded; its value is
the one of the unbounded script. In any case the value and the assignments are bounded, and nothing is assigned when
the evaluation fails. -/
theorem evaluation_as_documented {σ ε : Type} (context : EvaluationContext (EStateM ε σ) ε)
    (expression : ShellExpression) (limit : Nat) (s : σ) :
    (¬Meets context.answer (documented context expression limit) s →
      Dialogue.Runs context.answer (isBoundError context) (documented context expression limit) s
          (evaluate context expression limit s) ∧
        ∀ (result : Evaluation) (s' : σ), evaluate context expression limit s = .ok result s' →
          Dialogue.Runs context.answer (fun _ => False) (documented context expression limit).unbounded s (.ok result s')) ∧
      Outcome.Gives (evaluate context expression limit) (fun result =>
        result.bytes.length ≤ limit ∧ (result.assignments.map Prod.fst).Nodup ∧
          ∀ assignment ∈ result.assignments, assignment.2.length ≤ limit) ∧
      ∀ (σ' E : Type) (host : OrderedExecutionHost σ' E) (line : Nat) (valueName : String) (message : Bytes)
        (before after : OrderedTreeExecution σ' E) (error : OrderedExecutionError E),
        evaluate (orderedExpressionEvaluation host line valueName message) expression limit before =
            .error error after →
          evaluateShellExpression host expression line valueName message limit before = .error error after := by
  refine ⟨?_, ?_, ?_⟩
  · intro hunmarked
    have hfollows : Evaluates context (evaluate context expression limit) (documented context expression limit) s :=
      evaluates_parts expression limit 0 ⟨[], initialDepth context 0, []⟩ s
    have hruns := hfollows.resolve_left hunmarked
    refine ⟨hruns, ?_⟩
    intro result s' hresult
    rw [hresult] at hruns
    exact hruns.unbounded
  · have hstart : Within limit limit ⟨[], initialDepth context 0, []⟩ := ⟨Nat.zero_le _, List.nodup_nil, by simp⟩
    have hwithin : Outcome.Gives (evaluate context expression limit) (Within limit limit) := by
      unfold evaluate evaluateAt
      exact within_withinDepth (within_parts expression (Nat.le_refl limit) hstart)
    exact fun s => (hwithin s).mono (fun _ _ h => ⟨h.1, h.2.nodup, h.2.small⟩) fun _ _ h => h
  · intro σ' E host line valueName message before after error herror
    simp [evaluateShellExpression, Bind.bind, EStateM.bind, herror]

/-- A context in which one variable has the value, and errors are texts. -/
def singleVariable (name : String) (value : Bytes) : EvaluationContext (EStateM String Unit) String where
  depthMode := .None
  variableValue other := pure (if other = name then some ⟨value, 0⟩ else none)
  command command _ := pure command
  regexQuoted _ _ := pure []
  missingVariable name := "variable " ++ name ++ " is not defined"
  requiredParameter name := "parameter " ++ name ++ " is unset or empty"
  patternError _ := "invalid pattern"
  depthExceeded := "too deep"
  lengthError _ _ _ := "too long"

/-- `${A:=x}-$A` -/
def assigningExpression : ShellExpression :=
  [.Variable "A" .AssignIfUnsetOrEmpty [.Literal (strBytes "x")], .Literal (strBytes "-"), .Variable "A" .Value []]

/-- A variable that has a value is left out where it should be inserted. -/
theorem assigned_variable_is_lost :
    evaluate (singleVariable "A" (strBytes "v")) assigningExpression 100 () = .ok ⟨strBytes "-v", 0, []⟩ () ∧
      Dialogue.Runs (singleVariable "A" (strBytes "v")).answer (fun _ => False)
        (documented (singleVariable "A" (strBytes "v")) assigningExpression 100).unbounded ()
        (.ok ⟨strBytes "v-v", 0, []⟩ ()) ∧
      ¬Dialogue.Runs (singleVariable "A" (strBytes "v")).answer (fun _ => False)
        (documented (singleVariable "A" (strBytes "v")) assigningExpression 100).unbounded ()
        (evaluate (singleVariable "A" (strBytes "v")) assigningExpression 100 ()) := by
  have hresult : evaluate (singleVariable "A" (strBytes "v")) assigningExpression 100 () =
      .ok ⟨strBytes "-v", 0, []⟩ () := rfl
  have hdocumented : Dialogue.Runs (singleVariable "A" (strBytes "v")).answer (fun _ => False)
      (documented (singleVariable "A" (strBytes "v")) assigningExpression 100).unbounded ()
      (.ok ⟨strBytes "v-v", 0, []⟩ ()) :=
    .answered rfl (.mark (.answered rfl (.value _ _)))
  refine ⟨hresult, hdocumented, ?_⟩
  rw [hresult]
  intro hruns
  have hvalue := congrArg Evaluation.bytes (hdocumented.value_unique hruns)
  revert hvalue
  decide

/-- Without a value the variable is assigned one, and it is inserted twice. -/
theorem evaluation_as_documented_unset :
    ¬Meets (singleVariable "B" (strBytes "v")).answer
        (documented (singleVariable "B" (strBytes "v")) assigningExpression 100) () ∧
      Dialogue.Runs (singleVariable "B" (strBytes "v")).answer (fun _ => False)
        (documented (singleVariable "B" (strBytes "v")) assigningExpression 100).unbounded ()
        (.ok ⟨strBytes "x-x", 0, [("A", strBytes "x")]⟩ ()) := by
  have hunmarked : ¬Meets (singleVariable "B" (strBytes "v")).answer
      (documented (singleVariable "B" (strBytes "v")) assigningExpression 100) () := by
    intro hmeets
    cases hmeets with
    | answered hanswer hrest =>
      cases hanswer
      have hend := hrest.of_bound.of_bound.of_bound.of_bound.of_bound.of_bound.of_bound
      cases hend
  exact ⟨hunmarked,
    ((evaluation_as_documented (singleVariable "B" (strBytes "v")) assigningExpression 100 ()).1 hunmarked).2 _ _ rfl⟩

end ProcmailRs.Config
