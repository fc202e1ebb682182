import ProcmailRs.Config.Proofs.ValueProofs
import ProcmailRs.Lib.Refinement

/-!
# Binding a destination

Binding puts the values of the moment into an expression. Where binding and evaluation agree on every
part that is reached, the bound expression has the value of the original one, also after the variables
that only a message sets have changed.
-/

namespace ProcmailRs.Config

/-! ### Adding parts -/

theorem expressionValue_singleton (lookup : Lookup) (part : ShellPart) (room nesting : Nat) :
    expressionValue lookup [part] room nesting = part.value lookup room nesting := by
  rw [expressionValue]
  cases part.value lookup room nesting <;> simp [expressionValue]

theorem fitting_append (room : Nat) (text rest : Bytes) :
    fitting room (text ++ rest) =
      (fitting room text).bind fun text => (fitting (room - text.length) rest).map (text ++ ·) := by
  unfold fitting
  by_cases htext : text.length ≤ room
  · rw [if_pos htext, Option.bind_some]
    by_cases hrest : rest.length ≤ room - text.length
    · rw [if_pos hrest, if_pos (by rw [List.length_append]; omega)]
      rfl
    · rw [if_neg hrest, if_neg (by rw [List.length_append]; omega)]
      rfl
  · rw [if_neg htext, if_neg (by rw [List.length_append]; omega)]
    rfl

/-- Literal parts in a row have the value of the one they become. -/
theorem expressionValue_pushLiteralPart (lookup : Lookup) (parts : ShellExpression) (text : Bytes)
    (room nesting : Nat) :
    expressionValue lookup (pushLiteralPart parts text) room nesting =
      expressionValue lookup (parts ++ [.Literal text]) room nesting := by
  unfold pushLiteralPart
  split_ifs with hempty
  · rw [expressionValue_append, List.isEmpty_iff.mp hempty]
    cases expressionValue lookup parts room nesting <;>
      simp [expressionValue, ShellPart.value, fitting]
  · split
    · rename_i previous hlast
      obtain ⟨init, rfl⟩ := List.getLast?_eq_some_iff.mp hlast
      rw [List.dropLast_concat, List.append_assoc, expressionValue_append, expressionValue_append]
      congr 1
      funext value
      rw [expressionValue_append, expressionValue_singleton, expressionValue_singleton,
        ShellPart.value, ShellPart.value, fitting_append]
      congr 2
      funext first
      rw [expressionValue_singleton, ShellPart.value]
    · rfl

theorem expressionValue_pushPart (lookup : Lookup) (parts : ShellExpression) (part : ShellPart)
    (room nesting : Nat) :
    expressionValue lookup (pushPart parts part) room nesting =
      expressionValue lookup (parts ++ [part]) room nesting := by
  cases part with
  | Literal text => exact expressionValue_pushLiteralPart lookup parts text room nesting
  | Variable name operation word => rfl
  | RegexQuotedVariable name => rfl
  | Command command => rfl
  | PatternQuote expression => rfl

theorem expressionValue_foldl_pushPart (lookup : Lookup) (bound parts : ShellExpression)
    (room nesting : Nat) :
    expressionValue lookup (bound.foldl pushPart parts) room nesting =
      expressionValue lookup (parts ++ bound) room nesting := by
  induction bound generalizing parts with
  | nil => rw [List.foldl_nil, List.append_nil]
  | cons part bound ih =>
    rw [List.foldl_cons, ih, List.append_cons, expressionValue_append, expressionValue_append,
      expressionValue_pushPart]

/-- What binding adds to the parts before. -/
theorem bindParts_adds {line : Nat} {lookup : Lookup} (parts : ShellExpression) {nesting : Nat}
    {before after : ShellExpression} (h : bindParts line lookup parts nesting before = .ok after) :
    ∃ bound, ∀ e room depth,
      expressionValue e after room depth = expressionValue e (before ++ bound) room depth := by
  induction parts generalizing before with
  | nil =>
    rw [bindParts] at h
    cases h
    exact ⟨[], fun e room depth => by rw [List.append_nil]⟩
  | cons part parts ih =>
    rw [bindParts] at h
    cases hpart : bindPart line lookup part nesting with
    | error error =>
      rw [hpart] at h
      cases h
    | ok bound =>
      rw [hpart] at h
      obtain ⟨rest, hrest⟩ := ih h
      refine ⟨bound ++ rest, fun e room depth => ?_⟩
      rw [hrest, ← List.append_assoc, expressionValue_append, expressionValue_append,
        expressionValue_foldl_pushPart]

/-! ### What can be bound -/

section Bound

variable {line : Nat} {e₁ e₂ : Lookup}

theorem checkExpansionDepth_eq (depth : Nat) :
    checkExpansionDepth depth line =
      if depth ≤ maxExpansionDepth then .ok () else .error (depthError line) := by
  unfold checkExpansionDepth
  by_cases h : depth ≤ maxExpansionDepth
  · rw [if_neg (by omega), if_pos h]
  · rw [if_pos (by omega), if_neg h]
    rfl

theorem checkExpansionDepth_ok {depth : Nat} (h : depth < maxExpansionDepth) :
    checkExpansionDepth (depth + 1) line = .ok () := by
  rw [checkExpansionDepth_eq, if_pos (by omega)]

theorem checkExpansionDepth_error {depth : Nat} (h : ¬ depth < maxExpansionDepth) :
    checkExpansionDepth (depth + 1) line = .error (depthError line) := by
  rw [checkExpansionDepth_eq, if_neg (by omega)]

/-- The assignments of a word are those of its parameter. -/
theorem hasAssignments_word {name : String} {operation : ParameterOperation}
    {word : ShellExpression} (h : (ShellPart.Variable name operation word).hasAssignments = false)
    (hhas : operation.hasWord = true) : hasAssignments word = false := by
  rw [ShellPart.hasAssignments, Bool.or_eq_false_iff, hhas, Bool.true_and] at h
  exact h.2

theorem hasWord_of_selectsWord {operation : ParameterOperation} {isSet isEmpty : Bool}
    (h : operation.selectsWord isSet isEmpty = true) : operation.hasWord = true := by
  cases operation <;> first | rfl | cases h

/-- What a transform becomes when it is bound. -/
theorem toOption_bindTransform {lookup : Lookup} {part : ShellPart} (hassign : part.hasAssignments = false) :
    (evaluateWithLinebuf [part] line maxAssignmentValueLen lookup).toOption =
      (part.value lookup (bindingRoom lookup) 0).filter isText := by
  have hwide := @toOption_evaluateWithLinebuf line lookup [part] (by rw [hasAssignments, hassign]; rfl)
    maxAssignmentValueLen
  rw [expressionValue_singleton] at hwide
  exact hwide

theorem isOk_eq_isSome_toOption {ε α : Type} (x : Except ε α) : x.isOk = x.toOption.isSome := by
  cases x <;> rfl

/-- What stands behind a check of the depth. -/
theorem isOk_deeper {binding : Nat} {x : Parsed ShellExpression} :
    (checkExpansionDepth (binding + 1) line >>= fun _ => x).isOk = (binding < maxExpansionDepth && x.isOk) := by
  by_cases hdeep : binding < maxExpansionDepth
  · rw [checkExpansionDepth_ok hdeep]
    simp [hdeep, Bind.bind, Except.bind]
  · rw [checkExpansionDepth_error hdeep]
    simp [hdeep, Bind.bind, Except.bind, Except.isOk, Except.toBool]

theorem isOk_map {ε α β : Type} (x : Except ε α) (f : α → β) : (x >>= fun a => pure (f a)).isOk = x.isOk := by
  cases x <;> rfl

mutual

/-- Binding gets through exactly where every variable that it needs has a value. -/
theorem isOk_bindPart (lookup : Lookup) (part : ShellPart) (hassign : part.hasAssignments = false) (binding : Nat) :
    (bindPart line lookup part binding).isOk = part.bindable lookup binding := by
  cases part with
  | Literal text => rfl
  | RegexQuotedVariable name => rfl
  | Command command => rfl
  | PatternQuote expression =>
    rw [ShellPart.hasAssignments] at hassign
    have hinner := isOk_bindParts lookup expression hassign (binding + 1) []
    rw [bindPart, ShellPart.bindable, isOk_deeper, isOk_map, hinner]
  | Variable name operation word =>
    rw [bindPart, ShellPart.bindable]
    by_cases hop : operation.isValueTransform = true
    · rw [if_pos hop, if_pos hop, isOk_map, isOk_eq_isSome_toOption, toOption_bindTransform hassign]
      cases ShellPart.value lookup (.Variable name operation word) (bindingRoom lookup) 0 with
      | none => rfl
      | some value => by_cases htext : isText value = true <;> simp [Option.filter, htext]
    rw [if_neg hop, if_neg hop]
    by_cases hpolicy : variablePolicy name = .RuntimeOnly
    · rw [if_pos hpolicy, if_pos hpolicy]
      by_cases hhas : operation.hasWord = true
      · have hword := isOk_bindParts lookup word (hasAssignments_word hassign hhas) (binding + 1) []
        rw [if_pos hhas, isOk_deeper, isOk_map, hword, hhas]
        rfl
      · rw [if_neg hhas]
        simp only [hhas, Bool.not_false, Bool.true_or]
        rfl
    rw [if_neg hpolicy, if_neg hpolicy]
    by_cases hsel : operation.selectsWord (lookup name).isSome ((lookup name).any List.isEmpty) = true
    · have hword := isOk_bindParts lookup word
        (hasAssignments_word hassign (hasWord_of_selectsWord hsel)) (binding + 1) []
      rw [if_pos hsel, if_pos hsel, isOk_deeper, hword]
    rw [if_neg hsel, if_neg hsel]
    by_cases huse : operation.usesValueWhenWordIsNotSelected = true
    · rw [if_pos huse, huse]
      cases lookup name with
      | some value => rfl
      | none => by_cases herr : operation = .ErrorIfUnsetOrEmpty <;> simp [herr, Except.isOk, Except.toBool]
    · rw [if_neg huse]
      simp only [huse, Bool.not_false, Bool.true_or]
      rfl

theorem isOk_bindParts (lookup : Lookup) (parts : ShellExpression) (hassign : hasAssignments parts = false)
    (binding : Nat) (before : ShellExpression) :
    (bindParts line lookup parts binding before).isOk = bindable lookup parts binding := by
  cases parts with
  | nil => rfl
  | cons part parts =>
    rw [hasAssignments, Bool.or_eq_false_iff] at hassign
    have hpart := isOk_bindPart lookup part hassign.1 binding
    rw [bindParts, bindable, ← hpart]
    cases bindPart line lookup part binding with
    | error error => rfl
    | ok bound =>
      rw [← isOk_bindParts lookup parts hassign.2 binding (bound.foldl pushPart before)]
      rfl

end

/-! ### Bound values -/

/-- The value of a parameter that is not transformed. -/
theorem value_selected {lookup : Lookup} {name : String} {operation : ParameterOperation}
    (hop : ¬ operation.isValueTransform = true) (word : ShellExpression) (room nesting : Nat) :
    (ShellPart.Variable name operation word).value lookup room nesting =
      selectedValue operation (lookup name) room nesting
        (if nesting < maxExpansionDepth then expressionValue lookup word room (nesting + 1)
          else none) := by
  rw [ShellPart.value, parameterValue, if_neg hop]

theorem selectedValue_of_selects {operation : ParameterOperation} {found word : Option Bytes}
    {room nesting : Nat} (h : operation.selectsWord found.isSome (found.any List.isEmpty) = true) :
    selectedValue operation found room nesting word = word := by
  have hop : ¬ (operation = .ErrorIfUnsetOrEmpty ∧ found.all List.isEmpty = true) := by
    rintro ⟨rfl, -⟩
    cases h
  rw [selectedValue, if_neg hop, if_pos h]

/-- A value is inserted at some depths only. -/
theorem fitting_below {value : Bytes} {room nesting : Nat}
    (h : ((some value).bind (fitting room)).any (fun value => !value.isEmpty) = false ∨ nesting < maxExpansionDepth) :
    (if value.isEmpty ∨ nesting < maxExpansionDepth then fitting room value else none) = fitting room value := by
  split_ifs with hdeep
  · rfl
  · rw [not_or] at hdeep
    have h := h.resolve_right hdeep.2
    rw [Option.bind_some] at h
    unfold fitting at h ⊢
    by_cases hfits : value.length ≤ room
    · rw [if_pos hfits, Option.any_some, Bool.not_eq_false'] at h
      exact absurd h hdeep.1
    · rw [if_neg hfits]

/-- A parameter that is kept has its value at the depth where it stands in the bound expression. -/
theorem selectedValue_shallower {operation : ParameterOperation} {found : Option Bytes}
    (hsel : ¬ operation.selectsWord found.isSome (found.any List.isEmpty) = true) {word word' : Option Bytes}
    {room nesting depth : Nat} (hdepth : depth ≤ nesting)
    (hdeep : operation.usesValueWhenWordIsNotSelected = true →
      ((found.bind (fitting room)).any (fun value => !value.isEmpty) = false ∨ nesting < maxExpansionDepth) ∨
        ¬ depth < maxExpansionDepth) :
    selectedValue operation found room depth word = selectedValue operation found room nesting word' := by
  unfold selectedValue
  split_ifs with herr huse
  · rfl
  · cases found with
    | none => rfl
    | some value =>
      rw [Option.bind_some, Option.bind_some]
      rcases hdeep huse with h | h
      · rw [fitting_below h, fitting_below (h.imp id fun h => by omega)]
      · have hnesting : ¬ nesting < maxExpansionDepth := by omega
        simp only [h, hnesting]
  · rfl

/-- An ordinary variable has become its value. -/
theorem bindsTo_value {name : String} {operation : ParameterOperation}
    (hop : ¬ operation.isValueTransform = true) {word : ShellExpression} {room nesting : Nat}
    (hsel : ¬ operation.selectsWord (e₂ name).isSome ((e₂ name).any List.isEmpty) = true)
    (hdeep : operation.usesValueWhenWordIsNotSelected = true →
      ((e₂ name).bind (fitting room)).any (fun value => !value.isEmpty) = false ∨ nesting < maxExpansionDepth)
    (herr : ¬ (operation = .ErrorIfUnsetOrEmpty ∧ (e₂ name).any List.isEmpty = true))
    {bound : ShellExpression}
    (hbound : (if operation.usesValueWhenWordIsNotSelected = true then
        match e₂ name with
        | some value => .ok [.Literal value]
        | none =>
          if operation = .ErrorIfUnsetOrEmpty then
            .error ⟨line, "parameter " ++ name ++ " is unset or empty"⟩
          else .error ⟨line, "variable " ++ name ++ " is not set"⟩
      else .ok [] : Parsed ShellExpression) = .ok bound) (depth : Nat) :
    expressionValue e₂ bound room depth = (ShellPart.Variable name operation word).value e₂ room nesting := by
  rw [value_selected hop, selectedValue, if_neg hsel]
  by_cases huse : operation.usesValueWhenWordIsNotSelected = true
  · rw [if_pos huse] at hbound ⊢
    cases hfound : e₂ name with
    | none =>
      rw [hfound] at hbound
      by_cases h : operation = .ErrorIfUnsetOrEmpty
      · simp only [if_pos h] at hbound
        cases hbound
      · simp only [if_neg h] at hbound
        cases hbound
    | some value =>
      rw [hfound] at hbound hdeep herr
      cases hbound
      have herr' : ¬ (operation = .ErrorIfUnsetOrEmpty ∧ (some value).all List.isEmpty = true) := herr
      rw [if_neg herr', Option.bind_some, fitting_below (hdeep huse), expressionValue_singleton, ShellPart.value]
  · rw [if_neg huse] at hbound ⊢
    have hop' : ¬ (operation = .ErrorIfUnsetOrEmpty ∧ (e₂ name).all List.isEmpty = true) := by
      rintro ⟨rfl, -⟩
      exact huse rfl
    rw [if_neg hop']
    cases hbound
    rfl

/-- A word that is bound has its value. -/
def WordBinds (line : Nat) (e₁ e₂ : Lookup) (word : ShellExpression) : Prop :=
  ∀ ⦃room nesting depth binding : Nat⦄ ⦃bound : ShellExpression⦄, hasAssignments word = false →
    depth ≤ nesting → bindsAlike e₁ e₂ word room nesting depth = true →
    bindParts line e₁ word binding [] = .ok bound →
    expressionValue e₂ bound room depth = expressionValue e₂ word room nesting

section Variable

variable {name : String} {operation : ParameterOperation} {word : ShellExpression}
variable {room nesting depth binding : Nat} {bound : ShellExpression}

/-- The transform of a value is evaluated when it is bound. -/
theorem bindTransform_value (hop : operation.isValueTransform = true)
    (hassign : (ShellPart.Variable name operation word).hasAssignments = false)
    (halike : (ShellPart.Variable name operation word).bindsAlike e₁ e₂ room nesting depth = true)
    (hbound : bindPart line e₁ (.Variable name operation word) binding = .ok bound) :
    expressionValue e₂ bound room depth =
      (ShellPart.Variable name operation word).value e₂ room nesting := by
  rw [ShellPart.bindsAlike, if_pos hop] at halike
  rw [bindPart, if_pos hop] at hbound
  obtain ⟨value, hvalue, hbound⟩ := bind_eq_ok hbound
  cases hbound
  have hwide := @toOption_bindTransform line e₁ _ hassign
  rw [hvalue] at hwide
  obtain ⟨hahead, -⟩ := Option.filter_eq_some_iff.mp hwide.symm
  unfold transformBindsAlike at halike
  rw [beq_iff_eq, hahead, Option.bind_some] at halike
  rw [expressionValue_singleton, ShellPart.value, halike]

/-- The word stands for the parameter. -/
theorem bindSelected_value (hagree : AgreeOrdinary e₁ e₂) (ih : WordBinds line e₁ e₂ word)
    (hop : ¬ operation.isValueTransform = true)
    (hsel : operation.selectsWord (e₂ name).isSome ((e₂ name).any List.isEmpty) = true)
    (hassign : (ShellPart.Variable name operation word).hasAssignments = false)
    (hdepth : depth ≤ nesting)
    (halike : (ShellPart.Variable name operation word).bindsAlike e₁ e₂ room nesting depth = true)
    (hbound : bindPart line e₁ (.Variable name operation word) binding = .ok bound) :
    expressionValue e₂ bound room depth =
      (ShellPart.Variable name operation word).value e₂ room nesting := by
  have hhas := hasWord_of_selectsWord hsel
  have hword := hasAssignments_word hassign hhas
  rw [ShellPart.bindsAlike] at halike
  rw [bindPart, if_neg hop] at hbound
  rw [value_selected hop, selectedValue_of_selects hsel]
  by_cases hpolicy : variablePolicy name = .RuntimeOnly
  · simp only [if_neg hop, hsel, if_true, if_pos hpolicy, Bool.or_eq_true, Bool.not_eq_true',
      decide_eq_false_iff_not, Bool.and_eq_true, decide_eq_true_eq] at halike
    rw [if_pos hpolicy, if_pos hhas] at hbound
    obtain ⟨-, -, hbound⟩ := bind_eq_ok hbound
    obtain ⟨inner, hinner, hbound⟩ := bind_eq_ok hbound
    cases hbound
    rw [expressionValue_singleton, value_selected hop, selectedValue_of_selects hsel]
    by_cases hshallow : depth < maxExpansionDepth
    · obtain ⟨hlt, halike⟩ := halike.resolve_left (not_not_intro hshallow)
      rw [if_pos hshallow, if_pos hlt]
      exact ih hword (by omega) halike hinner
    · rw [if_neg hshallow, if_neg (by omega)]
  · simp only [if_neg hop, hsel, if_true, if_neg hpolicy, Bool.and_eq_true, decide_eq_true_eq] at halike
    rw [if_neg hpolicy, hagree name hpolicy, if_pos hsel] at hbound
    obtain ⟨-, -, hbound⟩ := bind_eq_ok hbound
    rw [if_pos halike.1]
    exact ih hword (by omega) halike.2 hbound

/-- The parameter has its own value, or none. -/
theorem bindUnselected_value (hagree : AgreeOrdinary e₁ e₂) (hop : ¬ operation.isValueTransform = true)
    (hsel : ¬ operation.selectsWord (e₂ name).isSome ((e₂ name).any List.isEmpty) = true)
    (hdepth : depth ≤ nesting)
    (halike : (ShellPart.Variable name operation word).bindsAlike e₁ e₂ room nesting depth = true)
    (hbound : bindPart line e₁ (.Variable name operation word) binding = .ok bound) :
    expressionValue e₂ bound room depth =
      (ShellPart.Variable name operation word).value e₂ room nesting := by
  rw [ShellPart.bindsAlike] at halike
  rw [bindPart, if_neg hop] at hbound
  by_cases hpolicy : variablePolicy name = .RuntimeOnly
  · simp only [if_neg hop, hsel, Bool.false_eq_true, if_false, if_pos hpolicy, Bool.or_eq_true,
      Bool.not_eq_true', decide_eq_true_eq, decide_eq_false_iff_not] at halike
    have hkept (inner : ShellExpression) :
        expressionValue e₂ [.Variable name operation inner] room depth =
          (ShellPart.Variable name operation word).value e₂ room nesting := by
      rw [expressionValue_singleton, value_selected hop, value_selected hop]
      apply selectedValue_shallower hsel hdepth
      intro huse
      rcases halike with ((h | h) | h) | h
      · rw [huse] at h
        cases h
      · exact .inl (.inl h)
      · exact .inl (.inr h)
      · exact .inr h
    rw [if_pos hpolicy] at hbound
    by_cases hhas : operation.hasWord = true
    · rw [if_pos hhas] at hbound
      obtain ⟨-, -, hbound⟩ := bind_eq_ok hbound
      obtain ⟨inner, -, hbound⟩ := bind_eq_ok hbound
      cases hbound
      exact hkept inner
    · rw [if_neg hhas] at hbound
      cases hbound
      exact hkept word
  · simp only [if_neg hop, hsel, Bool.false_eq_true, if_false, if_neg hpolicy, Bool.and_eq_true,
      Bool.or_eq_true, Bool.not_eq_true', decide_eq_true_eq, Bool.and_eq_false_iff] at halike
    rw [if_neg hpolicy, hagree name hpolicy, if_neg hsel] at hbound
    refine bindsTo_value hop hsel ?_ ?_ hbound depth
    · intro huse
      rcases halike.1 with (h | h) | h
      · rw [huse] at h
        cases h
      · exact .inl h
      · exact .inr h
    · rintro ⟨rfl, hempty⟩
      rcases halike.2 with h | h
      · cases h
      · rw [h] at hempty
        cases hempty

end Variable

/-- A part that is bound has its value, as a word has. -/
def PartBinds (line : Nat) (e₁ e₂ : Lookup) (part : ShellPart) : Prop :=
  ∀ ⦃room nesting depth binding : Nat⦄ ⦃bound : ShellExpression⦄, part.hasAssignments = false →
    depth ≤ nesting → part.bindsAlike e₁ e₂ room nesting depth = true →
    bindPart line e₁ part binding = .ok bound →
    expressionValue e₂ bound room depth = part.value e₂ room nesting

/-- Parts that are bound after others add the value they have. -/
def PartsBind (line : Nat) (e₁ e₂ : Lookup) (parts : ShellExpression) : Prop :=
  ∀ ⦃room nesting depth binding : Nat⦄ ⦃before after : ShellExpression⦄,
    hasAssignments parts = false → depth ≤ nesting → bindsAlike e₁ e₂ parts room nesting depth = true →
    bindParts line e₁ parts binding before = .ok after →
    ∃ bound,
      (∀ room depth, expressionValue e₂ after room depth = expressionValue e₂ (before ++ bound) room depth) ∧
        expressionValue e₂ bound room depth = expressionValue e₂ parts room nesting

theorem PartsBind.word {parts : ShellExpression} (h : PartsBind line e₁ e₂ parts) :
    WordBinds line e₁ e₂ parts := by
  intro room nesting depth binding after hassign hdepth halike hafter
  obtain ⟨bound, hadds, hbound⟩ := h hassign hdepth halike hafter
  rw [hadds, List.nil_append, hbound]

theorem WordBinds.patternQuote {expression : ShellExpression} (h : WordBinds line e₁ e₂ expression) :
    PartBinds line e₁ e₂ (.PatternQuote expression) := by
  intro room nesting depth binding bound hassign hdepth halike hbound
  rw [ShellPart.hasAssignments] at hassign
  rw [ShellPart.bindsAlike] at halike
  rw [bindPart] at hbound
  obtain ⟨-, -, hbound⟩ := bind_eq_ok hbound
  obtain ⟨inner, hinner, hbound⟩ := bind_eq_ok hbound
  cases hbound
  rw [expressionValue_singleton, ShellPart.value, ShellPart.value, h hassign hdepth halike hinner]

theorem WordBinds.variable {name : String} {operation : ParameterOperation} {word : ShellExpression}
    (hagree : AgreeOrdinary e₁ e₂) (h : WordBinds line e₁ e₂ word) :
    PartBinds line e₁ e₂ (.Variable name operation word) := by
  intro room nesting depth binding bound hassign hdepth halike hbound
  by_cases hop : operation.isValueTransform = true
  · exact bindTransform_value hop hassign halike hbound
  · by_cases hsel : operation.selectsWord (e₂ name).isSome ((e₂ name).any List.isEmpty) = true
    · exact bindSelected_value hagree h hop hsel hassign hdepth halike hbound
    · exact bindUnselected_value hagree hop hsel hdepth halike hbound

theorem partsBind_nil : PartsBind line e₁ e₂ [] := by
  intro room nesting depth binding before after hassign hdepth halike hafter
  rw [bindParts] at hafter
  cases hafter
  exact ⟨[], fun room depth => by rw [List.append_nil], rfl⟩

theorem partsBind_cons {part : ShellPart} {parts : ShellExpression} (hpart : PartBinds line e₁ e₂ part)
    (hparts : PartsBind line e₁ e₂ parts) : PartsBind line e₁ e₂ (part :: parts) := by
  intro room nesting depth binding before after hassign hdepth halike hafter
  rw [hasAssignments, Bool.or_eq_false_iff] at hassign
  rw [bindsAlike, Bool.and_eq_true] at halike
  rw [bindParts] at hafter
  obtain ⟨bound, hbound, hafter⟩ := bind_eq_ok hafter
  have hfirst := hpart hassign.1 hdepth halike.1 hbound
  have hjoin {rest : ShellExpression}
      (hadds : ∀ room depth, expressionValue e₂ after room depth =
        expressionValue e₂ (bound.foldl pushPart before ++ rest) room depth) (room depth : Nat) :
      expressionValue e₂ after room depth = expressionValue e₂ (before ++ (bound ++ rest)) room depth := by
    rw [hadds, ← List.append_assoc, expressionValue_append, expressionValue_foldl_pushPart,
      ← expressionValue_append]
  rw [expressionValue]
  cases hvalue : part.value e₂ room nesting with
  | none =>
    -- Whatever becomes of the other parts, there is no value.
    obtain ⟨rest, hrest⟩ := bindParts_adds parts hafter
    refine ⟨bound ++ rest, hjoin (hrest e₂), ?_⟩
    rw [expressionValue_append, hfirst, hvalue]
    rfl
  | some value =>
    rw [hvalue] at halike
    obtain ⟨rest, hadds, hrest⟩ := hparts hassign.2 hdepth halike.2 hafter
    refine ⟨bound ++ rest, hjoin hadds, ?_⟩
    rw [expressionValue_append, hfirst, hvalue, Option.bind_some, Option.bind_some, hrest]

mutual

/-- A part that is bound has the value of the original one, where binding and evaluation agree. -/
theorem bindPart_value (hagree : AgreeOrdinary e₁ e₂) (part : ShellPart) : PartBinds line e₁ e₂ part := by
  cases part with
  | Literal text =>
    intro room nesting depth binding bound hassign hdepth halike hbound
    rw [bindPart] at hbound
    cases hbound
    rw [expressionValue_singleton, ShellPart.value, ShellPart.value]
  | RegexQuotedVariable name =>
    intro room nesting depth binding bound hassign hdepth halike hbound
    rw [bindPart] at hbound
    cases hbound
  | Command command =>
    intro room nesting depth binding bound hassign hdepth halike hbound
    rw [bindPart] at hbound
    cases hbound
  | PatternQuote expression => exact (bindParts_value hagree expression).word.patternQuote
  | Variable name operation word => exact (bindParts_value hagree word).word.variable hagree

theorem bindParts_value (hagree : AgreeOrdinary e₁ e₂) (parts : ShellExpression) :
    PartsBind line e₁ e₂ parts := by
  cases parts with
  | nil => exact partsBind_nil
  | cons part parts => exact partsBind_cons (bindPart_value hagree part) (bindParts_value hagree parts)

end

end Bound

/-! ### Bound expressions run nothing -/

theorem hasCommands_append (parts rest : ShellExpression) :
    hasCommands (parts ++ rest) = (hasCommands parts || hasCommands rest) := by
  induction parts with
  | nil => rfl
  | cons part parts ih => rw [List.cons_append, hasCommands, hasCommands, ih, Bool.or_assoc]

theorem hasAssignments_append (parts rest : ShellExpression) :
    hasAssignments (parts ++ rest) = (hasAssignments parts || hasAssignments rest) := by
  induction parts with
  | nil => rfl
  | cons part parts ih => rw [List.cons_append, hasAssignments, hasAssignments, ih, Bool.or_assoc]

theorem requiresOrderedEvaluation_append (parts rest : ShellExpression) :
    requiresOrderedEvaluation (parts ++ rest) =
      (requiresOrderedEvaluation parts || requiresOrderedEvaluation rest) := by
  unfold requiresOrderedEvaluation
  rw [hasCommands_append, hasAssignments_append]
  cases hasCommands parts <;> cases hasCommands rest <;> cases hasAssignments parts <;> rfl

theorem requiresOrderedEvaluation_pushPart (parts : ShellExpression) (part : ShellPart) :
    requiresOrderedEvaluation (pushPart parts part) =
      (requiresOrderedEvaluation parts || requiresOrderedEvaluation [part]) := by
  cases part with
  | Literal text =>
    have hliteral (text : Bytes) : requiresOrderedEvaluation [.Literal text] = false := rfl
    rw [hliteral, Bool.or_false]
    show requiresOrderedEvaluation (pushLiteralPart parts text) = _
    unfold pushLiteralPart
    split_ifs
    · rfl
    · split
      · rename_i previous hlast
        obtain ⟨init, rfl⟩ := List.getLast?_eq_some_iff.mp hlast
        rw [List.dropLast_concat, requiresOrderedEvaluation_append,
          requiresOrderedEvaluation_append, hliteral, hliteral]
      · rw [requiresOrderedEvaluation_append, hliteral, Bool.or_false]
  | Variable name operation word => exact requiresOrderedEvaluation_append _ _
  | RegexQuotedVariable name => exact requiresOrderedEvaluation_append _ _
  | Command command => exact requiresOrderedEvaluation_append _ _
  | PatternQuote expression => exact requiresOrderedEvaluation_append _ _

theorem requiresOrderedEvaluation_foldl {bound parts : ShellExpression}
    (hbound : requiresOrderedEvaluation bound = false)
    (hparts : requiresOrderedEvaluation parts = false) :
    requiresOrderedEvaluation (bound.foldl pushPart parts) = false := by
  induction bound generalizing parts with
  | nil => exact hparts
  | cons part bound ih =>
    rw [← List.singleton_append, requiresOrderedEvaluation_append, Bool.or_eq_false_iff] at hbound
    refine ih hbound.2 ?_
    rw [requiresOrderedEvaluation_pushPart, hparts, hbound.1]
    rfl

mutual

theorem bindPart_runs_nothing {line : Nat} {lookup : Lookup} (part : ShellPart)
    (hassign : part.hasAssignments = false) {nesting : Nat} {bound : ShellExpression}
    (h : bindPart line lookup part nesting = .ok bound) :
    requiresOrderedEvaluation bound = false := by
  cases part with
  | Literal text =>
    rw [bindPart] at h
    cases h
    rfl
  | RegexQuotedVariable name =>
    rw [bindPart] at h
    cases h
  | Command command =>
    rw [bindPart] at h
    cases h
  | PatternQuote expression =>
    rw [ShellPart.hasAssignments] at hassign
    rw [bindPart] at h
    obtain ⟨-, -, h⟩ := bind_eq_ok h
    obtain ⟨inner, hinner, h⟩ := bind_eq_ok h
    cases h
    have hsilent := bindParts_runs_nothing expression hassign rfl hinner
    unfold requiresOrderedEvaluation at hsilent ⊢
    simpa [hasCommands, hasAssignments, ShellPart.hasCommands, ShellPart.hasAssignments] using hsilent
  | Variable name operation word =>
    rw [bindPart] at h
    by_cases hop : operation.isValueTransform = true
    · rw [if_pos hop] at h
      obtain ⟨value, -, h⟩ := bind_eq_ok h
      cases h
      rfl
    rw [if_neg hop] at h
    by_cases hpolicy : variablePolicy name = .RuntimeOnly
    · have hassigns := hassign
      rw [ShellPart.hasAssignments, Bool.or_eq_false_iff] at hassigns
      rw [if_pos hpolicy] at h
      by_cases hhas : operation.hasWord = true
      · rw [if_pos hhas] at h
        obtain ⟨-, -, h⟩ := bind_eq_ok h
        obtain ⟨inner, hinner, h⟩ := bind_eq_ok h
        cases h
        have hsilent := bindParts_runs_nothing word (hasAssignments_word hassign hhas) rfl hinner
        unfold requiresOrderedEvaluation at hsilent ⊢
        simp_all [hasCommands, hasAssignments, ShellPart.hasCommands, ShellPart.hasAssignments]
      · rw [if_neg hhas] at h
        cases h
        simp_all [requiresOrderedEvaluation, hasCommands, hasAssignments, ShellPart.hasCommands,
          ShellPart.hasAssignments]
    rw [if_neg hpolicy] at h
    by_cases hsel : operation.selectsWord (lookup name).isSome ((lookup name).any List.isEmpty) =
        true
    · rw [if_pos hsel] at h
      obtain ⟨-, -, h⟩ := bind_eq_ok h
      exact bindParts_runs_nothing word
        (hasAssignments_word hassign (hasWord_of_selectsWord hsel)) rfl h
    rw [if_neg hsel] at h
    by_cases huse : operation.usesValueWhenWordIsNotSelected = true
    · rw [if_pos huse] at h
      cases hvalue : lookup name with
      | none =>
        simp only [hvalue] at h
        split_ifs at h
      | some value =>
        simp only [hvalue] at h
        cases h
        rfl
    · rw [if_neg huse] at h
      cases h
      rfl

theorem bindParts_runs_nothing {line : Nat} {lookup : Lookup} (parts : ShellExpression)
    (hassign : hasAssignments parts = false) {nesting : Nat} {before after : ShellExpression}
    (hbefore : requiresOrderedEvaluation before = false)
    (h : bindParts line lookup parts nesting before = .ok after) :
    requiresOrderedEvaluation after = false := by
  cases parts with
  | nil =>
    rw [bindParts] at h
    cases h
    exact hbefore
  | cons part parts =>
    rw [hasAssignments, Bool.or_eq_false_iff] at hassign
    rw [bindParts] at h
    cases hpart : bindPart line lookup part nesting with
    | error error =>
      rw [hpart] at h
      cases h
    | ok bound =>
      rw [hpart] at h
      have hbound := bindPart_runs_nothing part hassign.1 hpart
      exact bindParts_runs_nothing parts hassign.2
        (requiresOrderedEvaluation_foldl hbound hbefore) h

end

/-! ### Destinations -/

namespace Destination

/-- The binding of a destination does not show: resolving what has been bound is like resolving the
destination itself, and binding fails only where that fails. -/
structure BindsTransparently (destination : Destination) (e₁ e₂ : Lookup) : Prop where
  bound : ∀ bound, destination.bindWith e₁ = .ok bound →
    (bound.resolveWith e₂).toOption = (destination.resolveWith e₂).toOption
  failed : ∀ error, destination.bindWith e₁ = .error error →
    (destination.resolveWith e₂).toOption = none

theorem BindsTransparently.of_ok {destination bound : Destination} {e₁ e₂ : Lookup}
    (hbind : destination.bindWith e₁ = .ok bound)
    (h : (bound.resolveWith e₂).toOption = (destination.resolveWith e₂).toOption) :
    destination.BindsTransparently e₁ e₂ := by
  constructor
  · intro other hother
    rw [hbind] at hother
    cases hother
    exact h
  · intro error herror
    rw [hbind] at herror
    cases herror

theorem BindsTransparently.of_error {destination : Destination} {e₁ e₂ : Lookup}
    {error : ExpansionError} (hbind : destination.bindWith e₁ = .error error)
    (h : (destination.resolveWith e₂).toOption = none) :
    destination.BindsTransparently e₁ e₂ := by
  constructor
  · intro bound hbound
    rw [hbind] at hbound
    cases hbound
  · exact fun _ _ => h

/-- The path that a resolver makes of an expression depends on the value of the expression only. -/
theorem toOption_evaluate {lookup : Lookup} {expression other : ShellExpression}
    (hassign : hasAssignments expression = false) (hother : hasAssignments other = false)
    (hvalue : expressionValue lookup expression (pathRoom lookup) 0 =
      expressionValue lookup other (pathRoom lookup) 0) (resolver : PathResolver) :
    (resolver.evaluate expression lookup).toOption = (resolver.evaluate other lookup).toOption := by
  have h₁ := @toOption_evaluateWithLinebuf resolver.line lookup expression hassign
    maxPathExpressionLen
  have h₂ := @toOption_evaluateWithLinebuf resolver.line lookup other hother maxPathExpressionLen
  change _ = (expressionValue lookup expression (pathRoom lookup) 0).filter isText at h₁
  change _ = (expressionValue lookup other (pathRoom lookup) 0).filter isText at h₂
  rw [hvalue, ← h₂] at h₁
  unfold PathResolver.evaluate
  cases hleft : evaluateWithLinebuf expression resolver.line maxPathExpressionLen lookup <;>
    cases hright : evaluateWithLinebuf other resolver.line maxPathExpressionLen lookup <;>
    rw [hleft, hright] at h₁ <;> cases h₁ <;> rfl

theorem compiled_of_expansion {expression : PathExpression} {compiled : ShellExpression}
    (h : expression.expansion = some compiled) : expression.compiled = .ok compiled := by
  rw [PathExpression.compiled, h]

/-- A property that fails for what the path was parsed to fails for the expression it carries. -/
theorem any_expansion_eq_false {expression : PathExpression} {test : ShellExpression → Bool}
    (h : ∀ compiled, expression.compiled = .ok compiled → test compiled = false) :
    expression.expansion.any test = false := by
  cases hexpansion : expression.expansion with
  | none => rfl
  | some compiled => exact h compiled (compiled_of_expansion hexpansion)

/-- The path that a destination resolves to is that of its expression. -/
theorem resolveWith_eq {destination : Destination}
    (hcommands : ∀ expression, destination.expression.compiled = .ok expression →
      hasCommands expression = false) (lookup : Lookup) :
    destination.resolveWith lookup = destination.expression.compiled >>= fun expression =>
      (destination.resolver (destination.expression.directory (lookup "MAILDIR"))).evaluate
        expression lookup >>= fun path =>
          pure (destination.rebuild (destination.resolvedExpression path) true) := by
  unfold resolveWith
  rw [if_neg (by simp [any_expansion_eq_false hcommands])]

theorem bindWith_eq {destination : Destination}
    (hordered : ∀ expression, destination.expression.compiled = .ok expression →
      requiresOrderedEvaluation expression = false) (lookup : Lookup) :
    destination.bindWith lookup = destination.expression.compiled >>= fun expression =>
      bindParts destination.expression.line lookup expression 0 [] >>= fun expansion =>
        pure (destination.rebuild
          { destination.expression with
            runtimeDependent := expressionHasRuntime expansion
            expansion := some expansion } false) := by
  have hcommand : destination.commandExpression.isSome = false := by
    have h := any_expansion_eq_false hordered
    unfold commandExpression
    cases hexpansion : destination.expression.expansion with
    | none => rfl
    | some compiled =>
      rw [hexpansion] at h
      simp_all
  unfold bindWith bindStaticExpression
  rw [if_neg (by simp [hcommand])]
  rfl

/-- Two destinations of one kind and place go to the same path when their expressions have the same
value. -/
theorem toOption_evaluate_rebuild {destination bound : Destination} {lookup : Lookup}
    {expression other : ShellExpression} (hkind : bound.kind = destination.kind)
    (hline : bound.expression.line = destination.expression.line)
    (htyped : bound.expression.typedDestination = destination.expression.typedDestination)
    (hassign : hasAssignments expression = false) (hother : hasAssignments other = false)
    (hvalue : expressionValue lookup other (pathRoom lookup) 0 =
      expressionValue lookup expression (pathRoom lookup) 0) (base : Option Bytes) :
    ((bound.resolver base).evaluate other lookup >>= fun path =>
        (pure (bound.rebuild (bound.resolvedExpression path) true) : Parsed Destination)).toOption =
      ((destination.resolver base).evaluate expression lookup >>= fun path =>
        (pure (destination.rebuild (destination.resolvedExpression path) true) :
          Parsed Destination)).toOption := by
  have hresolver : bound.resolver base = destination.resolver base := by
    unfold resolver purpose description
    rw [hkind, hline, htyped]
  have hrebuild (path : Bytes) : bound.rebuild (bound.resolvedExpression path) true =
      destination.rebuild (destination.resolvedExpression path) true := by
    unfold rebuild resolvedExpression
    rw [hkind, hline, htyped]
  have heval := toOption_evaluate hother hassign hvalue (destination.resolver base)
  rw [hresolver]
  cases hleft : (destination.resolver base).evaluate other lookup <;>
    cases hright : (destination.resolver base).evaluate expression lookup <;>
    rw [hleft, hright] at heval <;> cases heval
  · rfl
  · exact congrArg some (hrebuild _)

/-- The variables without their names: what a destination resolves to, if anything. -/
theorem isSome_resolveWith {destination : Destination} {expression : ShellExpression}
    (hcompiled : destination.expression.compiled = .ok expression)
    (hordered : requiresOrderedEvaluation expression = false) (lookup : Lookup) :
    (destination.resolveWith lookup).toOption.isSome = destination.hasPath lookup expression := by
  obtain ⟨hcommands, hassign⟩ := Bool.or_eq_false_iff.mp hordered
  have htext := @toOption_evaluateWithLinebuf destination.expression.line lookup expression hassign
    maxPathExpressionLen
  change _ = (expressionValue lookup expression (pathRoom lookup) 0).filter isText at htext
  rw [resolveWith_eq (fun other h => by rw [hcompiled] at h; cases h; exact hcommands), hcompiled, hasPath, ← htext]
  simp only [bind, Except.bind, PathResolver.evaluate, resolver]
  cases evaluateWithLinebuf expression destination.expression.line maxPathExpressionLen lookup with
  | error error => rfl
  | ok source =>
    dsimp only [Except.toOption, Option.any_some]
    cases PathResolver.resolve _ source with
    | error error => rfl
    | ok path => rfl

/-- What has been bound keeps its kind and its place. -/
theorem rebuild_bound (destination : Destination) (path : PathExpression) :
    destination.rebuild path false = ⟨destination.kind, path⟩ := by
  unfold rebuild
  cases hkind : destination.kind <;> rfl

/-- Where binding stops, it does not show if and only if there is no path. -/
theorem bindsTransparently_iff_of_not_bindable {destination : Destination} {e₁ e₂ : Lookup}
    {expression : ShellExpression} (hcompiled : destination.expression.compiled = .ok expression)
    (hordered : requiresOrderedEvaluation expression = false) (hbindable : bindable e₁ expression 0 = false) :
    destination.BindsTransparently e₁ e₂ ↔ destination.hasPath e₂ expression = false := by
  have hassign := (Bool.or_eq_false_iff.mp hordered).2
  have hbindWith := @bindWith_eq destination
    (fun other h => by rw [hcompiled] at h; cases h; exact hordered) e₁
  have hstops := @isOk_bindParts destination.expression.line e₁ expression hassign 0 []
  rw [← isSome_resolveWith hcompiled hordered, Option.isSome_eq_false_iff, Option.isNone_iff_eq_none]
  cases hbound : bindParts destination.expression.line e₁ expression 0 [] with
  | ok bound =>
    rw [hbound, hbindable] at hstops
    cases hstops
  | error error =>
    have hfails : destination.bindWith e₁ = .error error := by
      rw [hbindWith, hcompiled]
      simp only [bind, Except.bind, hbound]
    exact ⟨fun h => h.failed error hfails, BindsTransparently.of_error hfails⟩

/-- The binding of an expression on which binding and evaluation agree does not show. -/
theorem bindsTransparently_of_bindsAlike {destination : Destination} {e₁ e₂ : Lookup}
    (hagree : AgreeOrdinary e₁ e₂) {expression : ShellExpression}
    (hcompiled : destination.expression.compiled = .ok expression)
    (hordered : requiresOrderedEvaluation expression = false)
    (halike : destination.bindsAlike e₁ e₂ expression = true) :
    destination.BindsTransparently e₁ e₂ := by
  obtain ⟨hcommands, hassign⟩ := Bool.or_eq_false_iff.mp hordered
  unfold bindsAlike at halike
  by_cases hbindable : bindable e₁ expression 0 = true
  · rw [if_pos hbindable] at halike
    have hthrough := @isOk_bindParts destination.expression.line e₁ expression hassign 0 []
    have hbindWith := @bindWith_eq destination
      (fun other h => by rw [hcompiled] at h; cases h; exact hordered) e₁
    rw [hcompiled] at hbindWith
    cases hbound : bindParts destination.expression.line e₁ expression 0 [] with
    | error error =>
      rw [hbound, hbindable] at hthrough
      cases hthrough
    | ok other =>
      have hvalue := (bindParts_value hagree expression).word hassign (le_refl 0) halike hbound
      have hothers := Bool.or_eq_false_iff.mp (bindParts_runs_nothing expression hassign rfl hbound)
      refine .of_ok (by rw [hbindWith]; simp only [bind, Except.bind, hbound]; rfl) ?_
      rw [rebuild_bound, resolveWith_eq, resolveWith_eq, hcompiled]
      · exact toOption_evaluate_rebuild rfl rfl rfl hassign hothers.2 hvalue _
      · intro compiled h
        rw [hcompiled] at h
        cases h
        exact hcommands
      · intro compiled h
        cases h
        exact hothers.1
  · rw [if_neg hbindable, Bool.not_eq_true'] at halike
    exact (bindsTransparently_iff_of_not_bindable hcompiled hordered (by simpa using hbindable)).mpr halike

end Destination

/-- Where binding and evaluation agree on what is reached, binding does not show; and where binding stops, it
shows if the expression makes a path all the same. -/
theorem destination_binds_transparently (destination : Destination) (e₁ e₂ : Lookup)
    (hagree : AgreeOrdinary e₁ e₂)
    (hordered : ∀ expression, destination.expression.compiled = .ok expression →
      requiresOrderedEvaluation expression = false) :
    ((∀ expression, destination.expression.compiled = .ok expression →
        destination.bindsAlike e₁ e₂ expression = true) →
      destination.BindsTransparently e₁ e₂) ∧
      ∀ expression, destination.expression.compiled = .ok expression → bindable e₁ expression 0 = false →
        (destination.BindsTransparently e₁ e₂ ↔ destination.bindsAlike e₁ e₂ expression = true) := by
  constructor
  · intro halike
    cases hcompiled : destination.expression.compiled with
    | ok expression =>
      exact Destination.bindsTransparently_of_bindsAlike hagree hcompiled
        (hordered expression hcompiled) (halike expression hcompiled)
    | error error =>
      -- There is nothing to bind and nothing to resolve.
      have hbindWith := Destination.bindWith_eq hordered e₁
      have hresolveWith := @Destination.resolveWith_eq destination
        (fun expression h => (Bool.or_eq_false_iff.mp (hordered expression h)).1) e₂
      rw [hcompiled] at hbindWith hresolveWith
      exact .of_error hbindWith (by rw [hresolveWith]; rfl)
  · intro expression hcompiled hbindable
    rw [Destination.bindsTransparently_iff_of_not_bindable hcompiled (hordered expression hcompiled) hbindable,
      Destination.bindsAlike, hbindable]
    simp

/-! ### Where it shows -/

/-- A mailbox with this text in an rc file, before it is prepared. -/
def mailbox (text : String) : Destination :=
  ⟨.Mbox, ⟨strBytes text, none, 1, false, false, true, none⟩⟩

/-- The variables when only one of them is set. -/
def onlyVariable (name text : String) : Lookup := fun other =>
  if other = name then some (strBytes text) else none

theorem agreeOrdinary_onlyVariable {name : String} (h : variablePolicy name = .RuntimeOnly)
    (text text' : String) : AgreeOrdinary (onlyVariable name text) (onlyVariable name text') := by
  intro other hother
  unfold onlyVariable
  by_cases hname : other = name
  · rw [hname] at hother
    exact absurd h hother
  · rw [if_neg hname, if_neg hname]

/-- A test of what a path is parsed to. -/
theorem forall_compiled {expression : PathExpression} {test : ShellExpression → Bool}
    (h : expression.compiled.toOption.all test = true) :
    ∀ compiled, expression.compiled = .ok compiled → test compiled = true := by
  intro compiled hcompiled
  rw [hcompiled] at h
  exact h

theorem forall_compiled_not {expression : PathExpression} {test : ShellExpression → Bool}
    (h : expression.compiled.toOption.any test = false) :
    ∀ compiled, expression.compiled = .ok compiled → test compiled = false := by
  intro compiled hcompiled
  rw [hcompiled] at h
  exact h

/-- `$LASTFOLDER.copy` is taken from the later delivery. -/
theorem lastfolder_copy_binds_transparently :
    (mailbox "$LASTFOLDER.copy").BindsTransparently
      (onlyVariable "LASTFOLDER" "a") (onlyVariable "LASTFOLDER" "b") :=
  (destination_binds_transparently (mailbox "$LASTFOLDER.copy") (onlyVariable "LASTFOLDER" "a")
    (onlyVariable "LASTFOLDER" "b") (agreeOrdinary_onlyVariable (by decide) "a" "b")
    (forall_compiled_not (by decide +kernel))).1 (forall_compiled (by decide +kernel))

/-- Binding shows in the path. -/
theorem not_bindsTransparently_of_path_ne {destination : Destination} {e₁ e₂ : Lookup}
    (h : ((destination.bindWith e₁).toOption.bind fun bound =>
        (bound.resolveWith e₂).toOption.map Destination.path) ≠
      (destination.resolveWith e₂).toOption.map Destination.path) :
    ¬ destination.BindsTransparently e₁ e₂ := by
  intro htransparent
  apply h
  cases hbind : destination.bindWith e₁ with
  | error error =>
    rw [htransparent.failed error hbind]
    rfl
  | ok bound =>
    show (bound.resolveWith e₂).toOption.map Destination.path = _
    rw [htransparent.bound bound hbind]

/-- `${LASTFOLDER%.new}` is bound to what it was, and `${X:?}` lets an empty value pass. -/
theorem binding_shows :
    AgreeOrdinary (onlyVariable "LASTFOLDER" "a.new") (onlyVariable "LASTFOLDER" "b.new") ∧
      (mailbox "$\x7bLASTFOLDER%.new\x7d").expression.compiled.toOption.any
        (fun compiled => !requiresOrderedEvaluation compiled) = true ∧
      ¬ (mailbox "$\x7bLASTFOLDER%.new\x7d").BindsTransparently
        (onlyVariable "LASTFOLDER" "a.new") (onlyVariable "LASTFOLDER" "b.new") ∧
      (mailbox "box$\x7bX:?\x7d").expression.compiled.toOption.any
        (fun compiled => !requiresOrderedEvaluation compiled) = true ∧
      ¬ (mailbox "box$\x7bX:?\x7d").BindsTransparently (onlyVariable "X" "") (onlyVariable "X" "") :=
  ⟨agreeOrdinary_onlyVariable (by decide) _ _, by decide +kernel,
    not_bindsTransparently_of_path_ne (by decide +kernel), by decide +kernel,
    not_bindsTransparently_of_path_ne (by decide +kernel)⟩

end ProcmailRs.Config
