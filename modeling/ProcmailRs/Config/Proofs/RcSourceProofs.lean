import ProcmailRs.Config.Proofs.RcParserProofs

/-!
# The log follows the source

Two parsers that read the same text with different budgets do the same, until one of them refuses an item:
only the length of a line buffer decides how the text is read, and this is the same for both. The log of a
parser that gets through is what the statements of the file ask of the limits. So the log of any other
parser of the text is a part of it, up to the item that was refused.
-/

namespace ProcmailRs.Config

open Outcome ProcmailRs.Config.Parser

/-- Wherever the second parser gets through, the first one does the same with the same line buffer, or it
refuses an item. `Q` says what they log for a value. -/
def Shadows {α : Type} (m m' : Parser α) (Q : α → List ParserEvent → Prop) : Prop :=
  ∀ state state' : ParserState, state.budget.limits.linebuf = state'.budget.limits.linebuf →
    ∀ a after', m' state' = .ok a after' →
      ∃ added, after'.log = state'.log ++ added ∧ Q a added ∧
        ((∃ after, m state = .ok a after ∧ after.log = state.log ++ added ∧
            after.budget.limits.linebuf = after'.budget.limits.linebuf) ∨
          ∃ before kind error after, before ++ [.Item kind true] <+: added ∧
            m state = .error error after ∧ after.log = state.log ++ before ++ [.Item kind false])

/-! ### Rules -/

section Rules

variable {α β : Type} {Q : α → List ParserEvent → Prop} {P : β → List ParserEvent → Prop}

theorem Shadows.pure {a : α} (h : Q a []) : Shadows (pure a) (pure a) Q := by
  intro state state' hline b after' hrun
  cases hrun
  exact ⟨[], (List.append_nil _).symm, h, .inl ⟨state, rfl, (List.append_nil _).symm, hline⟩⟩

theorem Shadows.throw {m : Parser α} {error : ParseError} : Shadows m (throw error : Parser α) Q := by
  intro state state' _ a after' hrun
  cases hrun

theorem Shadows.bind {m m' : Parser α} {f f' : α → Parser β} (hm : Shadows m m' Q)
    (hf : ∀ a added, Q a added → Shadows (f a) (f' a) fun b more => P b (added ++ more)) :
    Shadows (m >>= f) (m' >>= f') P := by
  intro state state' hline b after' hrun
  obtain ⟨a, middle', hfirst', hrest'⟩ : ∃ a middle', m' state' = .ok a middle' ∧ f' a middle' = .ok b after' := by
    simp only [Bind.bind, EStateM.bind] at hrun
    cases hfirst' : m' state' with
    | ok a middle' => exact ⟨a, middle', rfl, by rwa [hfirst'] at hrun⟩
    | error error middle' =>
      rw [hfirst'] at hrun
      cases hrun
  obtain ⟨added, hlog', hQ, hfirst⟩ := hm state state' hline a middle' hfirst'
  rcases hfirst with ⟨middle, hfirst, hlog, hline⟩ | ⟨before, kind, error, middle, hnext, hfirst, hlog⟩
  · obtain ⟨more, hmore', hP, hrest⟩ := hf a added hQ middle middle' hline b after' hrest'
    refine ⟨added ++ more, by rw [hmore', hlog', List.append_assoc], hP, ?_⟩
    have hbind : (m >>= f) state = f a middle := by simp only [Bind.bind, EStateM.bind, hfirst]
    rw [hbind]
    rcases hrest with ⟨after, hrest, hmore, hline⟩ | ⟨before, kind, error, after, hnext, hrest, hmore⟩
    · exact .inl ⟨after, hrest, by rw [hmore, hlog, List.append_assoc], hline⟩
    · refine .inr ⟨added ++ before, kind, error, after, ?_, hrest, ?_⟩
      · rw [List.append_assoc]
        exact (List.prefix_append_right_inj added).mpr hnext
      · rw [hmore, hlog, List.append_assoc state.log]
  · -- The first parser has stopped, but the second one says what comes behind.
    obtain ⟨more, hmore', hP, -⟩ := hf a added hQ middle' middle' rfl b after' hrest'
    refine ⟨added ++ more, by rw [hmore', hlog', List.append_assoc], hP, .inr ?_⟩
    refine ⟨before, kind, error, middle, hnext.trans (List.prefix_append _ _), ?_, hlog⟩
    simp only [Bind.bind, EStateM.bind, hfirst]

theorem Shadows.mono {m m' : Parser α} {Q' : α → List ParserEvent → Prop} (hm : Shadows m m' Q)
    (h : ∀ a added, Q a added → Q' a added) : Shadows m m' Q' := by
  intro state state' hline a after' hrun
  obtain ⟨added, hlog, hQ, hfirst⟩ := hm state state' hline a after' hrun
  exact ⟨added, hlog, h a added hQ, hfirst⟩

theorem Shadows.ite {c : Prop} [Decidable c] {m₁ m₂ m₁' m₂' : Parser α} (h : c → Shadows m₁ m₁' Q)
    (h' : ¬c → Shadows m₂ m₂' Q) : Shadows (if c then m₁ else m₂) (if c then m₁' else m₂') Q := by
  split_ifs with hc
  · exact h hc
  · exact h' hc

theorem Shadows.get_bind {f : ParserState → Parser β} (h : ∀ state state', Shadows (f state) (f state') P) :
    Shadows (get >>= f) (get >>= f) P := by
  intro state state' hline b after' hrun
  exact h state state' state state' hline b after' hrun

theorem Shadows.reading (result : Except ParseError α) :
    Shadows (reading result) (reading result) fun a added => result = .ok a ∧ added = [] := by
  cases result with
  | ok a => exact .pure ⟨rfl, rfl⟩
  | error error => exact .throw

/-- What is read with a line buffer is read by both. -/
theorem Shadows.currentLinebuf_bind {f : Nat → Parser β} (h : ∀ linebuf, Shadows (f linebuf) (f linebuf) P) :
    Shadows (currentLinebuf >>= f) (currentLinebuf >>= f) P := by
  intro state state' hline b after' hrun
  change f state'.budget.limits.linebuf state' = _ at hrun
  obtain ⟨added, hlog, hP, hfirst⟩ := h state'.budget.limits.linebuf state state' hline b after' hrun
  refine ⟨added, hlog, hP, ?_⟩
  rwa [show (currentLinebuf >>= f) state = f state'.budget.limits.linebuf state by
    show f state.budget.limits.linebuf state = _
    rw [hline]]

theorem Shadows.record (event : ParserEvent) :
    Shadows (record event) (record event) fun _ added => added = [event] := by
  intro state state' hline a after' hrun
  cases hrun
  exact ⟨[event], rfl, rfl, .inl ⟨_, rfl, rfl, hline⟩⟩

/-- The budget is changed, and the line buffers stay the same or become the same. -/
theorem Shadows.changeBudget {change : ParseBudget → ParseBudget}
    (h : ∀ budget budget', budget.limits.linebuf = budget'.limits.linebuf →
      (change budget).limits.linebuf = (change budget').limits.linebuf) :
    Shadows (changeBudget change) (changeBudget change) fun _ added => added = [] := by
  intro state state' hline a after' hrun
  cases hrun
  exact ⟨[], (List.append_nil _).symm, rfl,
    .inl ⟨_, rfl, (List.append_nil _).symm, h state.budget state'.budget hline⟩⟩

/-- An item is checked: only here the two may part. -/
theorem Shadows.checkLimit (kind : RcLimitVariable) (count count' limit limit' : Nat)
    (refusal refusal' : ParseError) :
    Shadows (checkLimit kind count limit refusal) (checkLimit kind count' limit' refusal')
      fun _ added => added = [.Item kind true] := by
  intro state state' hline a after' hrun
  have hroom' : count' < limit' := by
    by_contra hfull
    simp only [Config.checkLimit, hfull, if_false] at hrun
    cases hrun
  simp only [Config.checkLimit, hroom', if_true] at hrun
  cases hrun
  refine ⟨[.Item kind true], by simp, rfl, ?_⟩
  by_cases hroom : count < limit
  · refine .inl ⟨{ state with log := state.log ++ [.Item kind true] }, ?_, rfl, hline⟩
    simp [Config.checkLimit, hroom, Parser.record, Outcome.modify_apply, Bind.bind, EStateM.bind, Pure.pure,
      EStateM.pure]
  · refine .inr ⟨[], kind, refusal, { state with log := state.log ++ [.Item kind false] }, List.prefix_refl _, ?_, ?_⟩
    · simp [Config.checkLimit, hroom, Parser.record, Outcome.modify_apply, Outcome.throw_apply, Bind.bind, EStateM.bind]
    · rw [List.append_nil]

end Rules

/-! ### The budget -/

theorem shadows_checkLine (line : RcLine) :
    Shadows (checkLine line) (checkLine line) fun _ added => added = [] := by
  refine .currentLinebuf_bind fun linebuf => ?_
  exact (Shadows.reading _).mono fun _ _ h => h.2

theorem shadows_charge (more : RcParseCounts) :
    Shadows (changeBudget fun budget => { budget with counts := budget.counts.add more })
      (changeBudget fun budget => { budget with counts := budget.counts.add more }) fun _ added => added = [] :=
  .changeBudget fun _ _ h => h

theorem shadows_checkStatement (line : Nat) :
    Shadows (checkStatement line) (checkStatement line) fun _ added => added = [.Item .Statements true] :=
  .get_bind fun _ _ => .checkLimit _ _ _ _ _ _ _

theorem shadows_chargeRecipe (line : Nat) :
    Shadows (chargeRecipe line) (chargeRecipe line) fun _ added => added = [.Item .Recipes true] := by
  refine .get_bind fun _ _ => (Shadows.checkLimit _ _ _ _ _ _ _).bind ?_
  rintro _ _ rfl
  refine (shadows_charge _).mono ?_
  rintro _ _ rfl
  rfl

theorem shadows_chargeAssignment (line : Nat) (usage : AssignmentUse) :
    Shadows (chargeAssignment line usage) (chargeAssignment line usage)
      fun _ added => added = [.Item .Assignments true] := by
  refine .get_bind fun _ _ => (Shadows.checkLimit _ _ _ _ _ _ _).bind ?_
  rintro _ _ rfl
  refine (shadows_charge _).mono ?_
  rintro _ _ rfl
  rfl

theorem shadows_checkCondition (recipeCount line : Nat) :
    Shadows (checkCondition recipeCount line) (checkCondition recipeCount line)
      fun _ added => added = [.Item .ConditionsPerRecipe true, .Item .Conditions true] := by
  refine .get_bind fun _ _ => (Shadows.checkLimit _ _ _ _ _ _ _).bind ?_
  rintro _ _ rfl
  refine Shadows.mono (.checkLimit _ _ _ _ _ _ _) ?_
  rintro _ _ rfl
  rfl

theorem shadows_checkRegex (recipeCount line : Nat) :
    Shadows (checkRegex recipeCount line) (checkRegex recipeCount line)
      fun _ added => added = [.Item .Regexes true] :=
  .get_bind fun _ _ => .checkLimit _ _ _ _ _ _ _

theorem shadows_checkNesting (depth line : Nat) :
    Shadows (checkNesting depth line) (checkNesting depth line)
      fun _ added => added = [.Item .NestingDepth true] := by
  refine .get_bind fun _ _ => (Shadows.checkLimit _ _ _ _ _ _ _).bind ?_
  rintro _ _ rfl
  exact .pure rfl

theorem linebuf_replace (limits : RcLimits) (kind : RcLimitVariable) (value : Nat) :
    (limits.replace kind value).linebuf = limits.linebuf := by
  cases kind <;> rfl

theorem shadows_setLimit (kind : RcLimitVariable) (value : Nat) :
    Shadows (setLimit kind value) (setLimit kind value) fun _ added => added = [.Limit kind value] := by
  refine (Shadows.record _).bind ?_
  rintro _ _ rfl
  refine (Shadows.changeBudget ?_).mono ?_
  · intro budget budget' h
    show (budget.limits.replace kind value).linebuf = (budget'.limits.replace kind value).linebuf
    rw [linebuf_replace, linebuf_replace, h]
  · rintro _ _ rfl
    rfl

theorem shadows_setLinebuf (value : Nat) :
    Shadows (setLinebuf value) (setLinebuf value) fun _ added => added = [.Linebuf value] := by
  refine (Shadows.record _).bind ?_
  rintro _ _ rfl
  refine (Shadows.changeBudget fun _ _ _ => rfl).mono ?_
  rintro _ _ rfl
  rfl

theorem shadows_applyAssignment (assignment : Assignment) :
    Shadows (applyAssignment assignment) (applyAssignment assignment)
      fun _ added => added = assignment.settings := by
  unfold applyAssignment Assignment.settings
  refine Shadows.bind (Q := fun _ added => added = assignment.limitSetting) ?_ ?_
  · unfold applyRcLimit Assignment.limitSetting
    cases rcLimitKind assignment.name with
    | none => exact .pure rfl
    | some kind =>
      cases parseUsize assignment.value with
      | none => exact .throw
      | some value => exact .ite (fun _ => .throw) fun _ => shadows_setLimit kind value
  · rintro _ _ rfl
    unfold applyLinebuf
    by_cases htarget : assignment.target = .LineBuf
    · simp only [if_pos htarget]
      cases parseUsize assignment.value with
      | none => exact .throw
      | some value =>
        refine .ite (fun _ => ?_) fun _ => .throw
        refine (shadows_setLinebuf value).mono ?_
        rintro _ _ rfl
        rfl
    · simp only [if_neg htarget]
      exact .pure rfl

theorem shadows_applyUnset (unset : Unset) :
    Shadows (applyUnset unset) (applyUnset unset) fun _ added => added = unset.settings := by
  unfold applyUnset Unset.settings
  cases rcLimitKind unset.name with
  | some kind => exact shadows_setLimit kind _
  | none =>
    by_cases htarget : unset.target = .LineBuf
    · simp only [if_pos htarget]
      exact shadows_setLinebuf _
    · simp only [if_neg htarget]
      exact .pure rfl

section Parser

variable {R H : Type} (words : RcWords R H)

/-! ### Conditions -/

theorem shadows_parseMultipartCheck (input : Text) (line : Nat) (caseSensitive : Bool) (regexes : Nat) :
    Shadows (parseMultipartCheck words input line caseSensitive regexes)
      (parseMultipartCheck words input line caseSensitive regexes)
      fun _ added => added = [.Item .Regexes true] := by
  unfold parseMultipartCheck
  cases splitOnce ['?', '?'] input with
  | none => exact .throw
  | some parts =>
    dsimp only
    split
    · exact .throw
    · refine (shadows_checkRegex regexes line).bind ?_
      rintro _ _ rfl
      refine (Shadows.reading _).bind ?_
      rintro regex _ ⟨-, rfl⟩
      exact .pure rfl

theorem shadows_parseSingleLineMultipart (input : Text) (line : Nat) (caseSensitive : Bool) (regexes : Nat) :
    Shadows (parseSingleLineMultipart words input line caseSensitive regexes)
      (parseSingleLineMultipart words input line caseSensitive regexes)
      fun kind added => added = (kind.map ConditionKind.events).getD [] := by
  unfold parseSingleLineMultipart
  cases stripStart multipartMark input with
  | none => exact .pure rfl
  | some rest =>
    refine .ite (fun _ => .pure rfl) fun _ => .ite (fun _ => .pure rfl) fun _ => ?_
    refine (Shadows.reading _).bind ?_
    rintro text _ ⟨-, rfl⟩
    refine (shadows_parseMultipartCheck words text line caseSensitive regexes).bind ?_
    rintro check _ rfl
    exact .pure rfl

theorem shadows_parseConditionKind (input : Text) (line : Nat) (caseSensitive : Bool) (regexes : Nat) :
    Shadows (parseConditionKind words input line caseSensitive regexes)
      (parseConditionKind words input line caseSensitive regexes)
      fun parsed added => added = parsed.1.events := by
  unfold parseConditionKind
  split
  · refine (Shadows.record _).bind ?_
    rintro _ _ rfl
    exact .pure rfl
  · refine (Shadows.reading _).bind ?_
    rintro size _ ⟨-, rfl⟩
    exact .pure rfl
  · refine (Shadows.reading _).bind ?_
    rintro size _ ⟨-, rfl⟩
    exact .pure rfl
  · refine (Shadows.reading _).bind ?_
    rintro _ _ ⟨-, rfl⟩
    exact .pure rfl
  · refine (shadows_checkRegex regexes line).bind ?_
    rintro _ _ rfl
    refine (Shadows.reading _).bind ?_
    rintro regex _ ⟨-, rfl⟩
    exact .pure rfl

theorem shadows_parseCondition (input : Text) (line : Nat) (caseSensitive : Bool) (regexes : Nat) :
    Shadows (parseCondition words input line caseSensitive regexes)
      (parseCondition words input line caseSensitive regexes)
      fun parsed added => added = parsed.1.kind.events := by
  unfold parseCondition
  refine .ite (fun _ => .throw) fun _ => .ite (fun _ => .throw) fun _ => ?_
  refine (shadows_parseSingleLineMultipart words _ line caseSensitive regexes).bind ?_
  rintro kind _ rfl
  cases kind with
  | some kind => exact .pure (List.append_nil _)
  | none =>
    refine (shadows_parseConditionKind words _ line caseSensitive regexes).bind ?_
    rintro parsed _ rfl
    exact .pure (List.append_nil _)

/-- The checks of a block are items one by one. -/
theorem shadows_parseMultipartBlock (opening : Nat) (negated caseSensitive : Bool) (lines : List RcLine) :
    ∀ (checks : List (MultipartField × R)) (regexes : Nat),
      Shadows (parseMultipartBlock words opening negated caseSensitive checks regexes lines)
        (parseMultipartBlock words opening negated caseSensitive checks regexes lines)
        fun parsed added =>
          List.replicate checks.length (.Item .Regexes true) ++ added = parsed.condition.kind.events := by
  induction lines with
  | nil =>
    intro checks regexes
    exact .throw
  | cons line rest ih =>
    intro checks regexes
    refine (shadows_checkLine line).bind ?_
    rintro _ _ rfl
    refine .ite (fun _ => ih checks regexes) fun _ => .ite (fun _ => ?_) fun _ => ?_
    · exact .ite (fun _ => .throw) fun _ => .pure (List.append_nil _)
    · refine (shadows_parseMultipartCheck words _ line.number caseSensitive regexes).bind ?_
      rintro check _ rfl
      refine .ite (fun _ => .throw) fun _ => ?_
      refine (ih (checks ++ [check]) (regexes + 1)).mono ?_
      intro parsed added h
      rw [← h, List.length_append, List.replicate_append_replicate.symm, List.append_assoc]
      rfl

theorem shadows_parseConditionLine (caseSensitive : Bool) (regexes : Nat) (line : RcLine) (rest : List RcLine) :
    Shadows (parseConditionLine words caseSensitive regexes line rest)
      (parseConditionLine words caseSensitive regexes line rest)
      fun parsed added => added = parsed.condition.kind.events := by
  unfold parseConditionLine
  cases isMultipartBlockStart (trim line.text) with
  | some negated => exact shadows_parseMultipartBlock words _ negated caseSensitive rest [] regexes
  | none =>
    refine .currentLinebuf_bind fun linebuf => (Shadows.reading _).bind ?_
    rintro source _ ⟨-, rfl⟩
    refine (shadows_parseCondition words _ line.number caseSensitive regexes).bind ?_
    rintro parsed _ rfl
    exact .pure (List.append_nil _)

theorem shadows_parseConditions (caseSensitive : Bool) (fuel : Nat) :
    ∀ (conditions : List (Condition R)) (regexes : Nat) (lines : List RcLine),
      Shadows (parseConditions words caseSensitive fuel conditions regexes lines)
        (parseConditions words caseSensitive fuel conditions regexes lines)
        fun parsed added =>
          conditions.flatMap Condition.events ++ added = parsed.conditions.flatMap Condition.events := by
  induction fuel with
  | zero =>
    intro conditions regexes lines
    cases lines with
    | nil => exact .pure (List.append_nil _)
    | cons line rest => exact .throw
  | succ fuel ih =>
    intro conditions regexes lines
    cases lines with
    | nil => exact .pure (List.append_nil _)
    | cons line rest =>
      refine (shadows_checkLine line).bind ?_
      rintro _ _ rfl
      refine .ite (fun _ => ih conditions regexes rest) fun _ => .ite (fun _ => ?_)
        fun _ => .pure (List.append_nil _)
      refine (shadows_checkCondition conditions.length line.number).bind ?_
      rintro _ _ rfl
      refine (shadows_parseConditionLine words caseSensitive regexes line rest).bind ?_
      rintro parsed _ rfl
      refine (ih (conditions ++ [parsed.condition]) parsed.regexes parsed.rest).mono ?_
      intro all added h
      rw [← h, List.flatMap_append, List.flatMap_singleton, List.append_assoc]
      rfl

/-! ### Recipes -/

/-- What a parser of blocks logs. -/
abbrev ShadowsBlocks (parseBlock : BlockParser R H) : Prop :=
  ∀ depth lines, Shadows (parseBlock depth lines) (parseBlock depth lines)
    fun parsed added => added = eventsOf parsed.1

variable {words} {parseBlock : BlockParser R H} (hblock : ShadowsBlocks parseBlock)

include hblock

theorem shadows_parseBlockAction (depth : Nat) (head : RecipeHead R) (rest : List RcLine) :
    Shadows (parseBlockAction parseBlock depth head rest) (parseBlockAction parseBlock depth head rest)
      fun parsed added => head.events ++ added = parsed.1.events := by
  refine (shadows_checkNesting depth head.actionLine).bind ?_
  rintro nextDepth _ rfl
  refine .ite (fun _ => .throw) fun _ => (hblock nextDepth rest).bind ?_
  rintro block _ rfl
  refine (Shadows.record _).bind ?_
  rintro _ _ rfl
  refine .pure ?_
  rw [Statement.events]
  simp

theorem shadows_parseAction (depth : Nat) (capture : Option (String × AssignmentTarget)) (head : RecipeHead R)
    (line : RcLine) (rest : List RcLine) :
    Shadows (parseAction words parseBlock depth capture head line rest)
      (parseAction words parseBlock depth capture head line rest)
      fun parsed added => head.events ++ added = parsed.1.events := by
  unfold parseAction
  cases capture with
  | some capture =>
    refine (shadows_chargeAssignment line.number .CaptureAction).bind ?_
    rintro _ _ rfl
    refine .currentLinebuf_bind fun linebuf => (Shadows.reading _).bind ?_
    rintro command _ ⟨-, rfl⟩
    exact .pure (by rw [Statement.events]; rfl)
  | none =>
    refine .ite (fun _ => ?_) fun _ => .ite (fun _ => ?_) fun _ => .ite (fun _ => ?_) fun _ =>
      .ite (fun _ => .throw) fun _ => ?_
    · refine .currentLinebuf_bind fun linebuf => (Shadows.reading _).bind ?_
      rintro command _ ⟨-, rfl⟩
      exact .ite (fun _ => .throw) fun _ => .pure (by rw [Statement.events]; rfl)
    · refine .currentLinebuf_bind fun linebuf => (Shadows.reading _).bind ?_
      rintro operations _ ⟨-, rfl⟩
      exact .pure (by rw [Statement.events]; rfl)
    · exact shadows_parseBlockAction hblock depth head rest
    · refine (Shadows.reading (parseDelivery words (trim line.text) line.number)).bind ?_
      rintro delivery _ ⟨hdelivery, rfl⟩
      obtain ⟨kind, path, rfl⟩ := parseDelivery_ok words hdelivery
      exact .pure (by rw [Statement.events]; rfl)

theorem shadows_parseRecipe (depth : Nat) (start : RcLine) (rest : List RcLine) :
    Shadows (parseRecipe words parseBlock depth start rest) (parseRecipe words parseBlock depth start rest)
      fun parsed added => .Item .Statements true :: .Item .Recipes true :: added = parsed.1.events := by
  unfold parseRecipe
  cases stripStart [':', '0'] (trim start.text) with
  | none => exact .throw
  | some text =>
    refine (Shadows.reading _).bind ?_
    rintro header _ ⟨-, rfl⟩
    refine (shadows_parseConditions words _ rest.length [] 0 rest).bind ?_
    rintro parsed added hconditions
    cases hrest : parsed.rest with
    | nil => exact .throw
    | cons line rest =>
      refine (shadows_checkLine line).bind ?_
      rintro _ _ rfl
      refine (shadows_charge _).bind ?_
      rintro _ _ rfl
      refine (Shadows.reading _).bind ?_
      rintro _ _ ⟨-, rfl⟩
      refine (Shadows.reading _).bind ?_
      rintro capture _ ⟨-, rfl⟩
      refine (Shadows.reading _).bind ?_
      rintro options _ ⟨-, rfl⟩
      refine (shadows_parseAction hblock depth capture _ line rest).mono ?_
      intro statement more h
      rw [← h, RecipeHead.events, ← hconditions]
      rfl

omit hblock

/-! ### Statements -/

theorem shadows_parseAssignmentStatement (depth : Nat) (assignment : Assignment) :
    Shadows (parseAssignmentStatement depth assignment : Parser (Statement R H))
      (parseAssignmentStatement depth assignment)
      fun statement added => .Item .Statements true :: added = statement.events := by
  refine (shadows_chargeAssignment assignment.line .Statement).bind ?_
  rintro _ _ rfl
  refine .ite (fun _ => .throw) fun _ => .ite (fun _ => .pure (by rw [Statement.events]; rfl)) fun _ =>
    .ite (fun _ => .pure (by rw [Statement.events]; rfl)) fun _ => ?_
  cases assignment.expansion.filter requiresOrderedEvaluation with
  | some expression => exact .ite (fun _ => .throw) fun _ => .pure (by rw [Statement.events]; rfl)
  | none =>
    refine (shadows_applyAssignment assignment).bind ?_
    rintro _ _ rfl
    exact .pure (by rw [Statement.events, List.append_nil]; rfl)

theorem shadows_parseUnsetStatement (depth : Nat) (unset : Unset) :
    Shadows (parseUnsetStatement depth unset : Parser (Statement R H)) (parseUnsetStatement depth unset)
      fun statement added => .Item .Statements true :: added = statement.events := by
  refine (shadows_chargeAssignment unset.line .Statement).bind ?_
  rintro _ _ rfl
  refine .ite (fun _ => .throw) fun _ => (shadows_applyUnset unset).bind ?_
  rintro _ _ rfl
  exact .pure (by rw [Statement.events, List.append_nil]; rfl)

theorem shadows_parseSimpleStatement (depth : Nat) (line : RcLine) :
    Shadows (parseSimpleStatement words depth line) (parseSimpleStatement words depth line)
      fun statement added => .Item .Statements true :: added = statement.events := by
  refine (Shadows.reading _).bind ?_
  rintro assignment _ ⟨-, rfl⟩
  cases assignment with
  | some assignment => exact shadows_parseAssignmentStatement depth assignment
  | none =>
    refine (Shadows.reading _).bind ?_
    rintro unset _ ⟨-, rfl⟩
    cases unset with
    | some unset => exact shadows_parseUnsetStatement depth unset
    | none => exact .throw

theorem shadowsBlocks_parseStatements (total fuel : Nat) : ShadowsBlocks (parseStatements words total fuel) := by
  induction fuel with
  | zero =>
    intro depth lines
    cases lines with
    | nil => exact .ite (fun _ => .throw) fun _ => .pure (by rw [eventsOf])
    | cons line rest => exact .throw
  | succ fuel ih =>
    intro depth lines
    cases lines with
    | nil => exact .ite (fun _ => .throw) fun _ => .pure (by rw [eventsOf])
    | cons line rest =>
      refine (shadows_checkLine line).bind ?_
      rintro _ _ rfl
      refine .ite (fun _ => ih depth rest) fun _ => .ite (fun _ => ?_) fun _ => ?_
      · exact .ite (fun _ => .throw) fun _ => .pure (by rw [eventsOf]; rfl)
      refine (shadows_checkStatement line.number).bind ?_
      rintro _ _ rfl
      refine .ite (fun _ => ?_) fun _ => ?_
      · refine (shadows_chargeRecipe line.number).bind ?_
        rintro _ _ rfl
        refine (shadows_parseRecipe ih depth line rest).bind ?_
        intro recipe added hrecipe
        refine (ih depth recipe.2).bind ?_
        rintro others _ rfl
        refine .pure ?_
        rw [eventsOf, ← hrecipe, List.append_nil]
        rfl
      · refine (shadows_parseSimpleStatement depth line).bind ?_
        intro statement added hstatement
        refine (ih depth rest).bind ?_
        rintro others _ rfl
        refine .pure ?_
        rw [eventsOf, ← hstatement, List.append_nil]
        rfl

/-! ### Files -/

/-- A text that is a file with some budget is gone through with any other budget of the same line buffer. -/
theorem parseWithState_shadows (text : Text) {start start' : ParseBudget}
    (hline : start.limits.linebuf = start'.limits.linebuf) {config' : ParsedConfig R H} {state' : ParserState}
    (h : parseWithState words text ⟨start', []⟩ = .ok config' state') :
    (∃ config state, parseWithState words text ⟨start, []⟩ = .ok config state ∧
        config.statements = config'.statements ∧ state.log = eventsOf config'.statements) ∨
      ∃ before kind error state, before ++ [.Item kind true] <+: eventsOf config'.statements ∧
        parseWithState words text ⟨start, []⟩ = .error error state ∧ state.log = before ++ [.Item kind false] := by
  have hbody := @shadowsBlocks_parseStatements R H words (rcLines text).length (rcLines text).length 0
    (rcLines text) ⟨start, []⟩ ⟨start', []⟩ hline
  unfold parseWithState at h ⊢
  by_cases hlong : textLen text > maxRcSize
  · rw [if_pos hlong] at h
    cases h
  rw [if_neg hlong] at h ⊢
  simp only [Bind.bind, EStateM.bind, Outcome.get_apply] at h ⊢
  cases hrun : parseStatements words (rcLines text).length (rcLines text).length 0 (rcLines text) ⟨start', []⟩ with
  | error error state =>
    rw [hrun] at h
    cases h
  | ok parsed state =>
    rw [hrun] at h
    cases h
    obtain ⟨added, -, hadded, hfirst⟩ := hbody parsed _ hrun
    subst hadded
    rcases hfirst with ⟨after, hrun, hlog, -⟩ | ⟨before, kind, error, after, hnext, hrun, hlog⟩
    · rw [hrun]
      exact .inl ⟨_, _, rfl, rfl, hlog⟩
    · rw [hrun]
      exact .inr ⟨before, kind, error, after, hnext, rfl, hlog⟩

end Parser

end ProcmailRs.Config
