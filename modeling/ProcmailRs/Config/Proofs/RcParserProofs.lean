import ProcmailRs.Lib.Outcome
import ProcmailRs.Config.Ledger

/-!
# The parser keeps its books

The counts of the budget lag behind the ledger: the conditions of a recipe are recorded when all of them
have been read. The specification of each function of the parser says how far the two are apart before
and after it. All of them together say that a file is parsed with every item checked at the right time.
-/

namespace ProcmailRs.Config

open Outcome Replay ProcmailRs.Config.Parser

/-! ### Counts -/

attribute [ext] RcParseCounts Ledger

namespace RcParseCounts

@[simp] theorem add_zero (counts : RcParseCounts) : counts.add .zero = counts := rfl

theorem zero_add (counts : RcParseCounts) : zero.add counts = counts := by
  simp only [zero, add, Nat.zero_add]

theorem add_assoc (a b c : RcParseCounts) : (a.add b).add c = a.add (b.add c) := by
  simp only [add, Nat.add_assoc]

theorem subtract_add (counts more : RcParseCounts) : (counts.add more).subtract counts = more := by
  simp only [subtract, add, Nat.add_sub_cancel_left]

end RcParseCounts

/-! ### Runs of the parser -/

/-- The log leads from `start` to `ledger`, and nothing has been refused. -/
structure Tracks (start ledger : Ledger) (state : ParserState) : Prop where
  reached : replay Ledger.after start state.log = ledger
  decides : Throughout Ledger.after Ledger.Decides start state.log
  accepts : ∀ kind, ParserEvent.Item kind false ∉ state.log

/-- The parser stops with this error. An item that was refused is what it stops for. -/
structure Stops (start : Ledger) (error : ParseError) (state : ParserState) : Prop where
  decides : Throughout Ledger.after Ledger.Decides start state.log
  refused : ∀ kind, ParserEvent.Item kind false ∈ state.log → error.resourceLimit = true

/-- Started with this ledger and this budget, the computation ends with a value, a ledger and a budget
as `Q` demands, or stops. -/
def Runs {α : Type} (start ledger : Ledger) (budget : ParseBudget) (m : Parser α)
    (Q : α → Ledger → ParseBudget → Prop) : Prop :=
  ∀ state, Tracks start ledger state → state.budget = budget →
    Ends m state (fun a state => ∃ ledger, Tracks start ledger state ∧ Q a ledger state.budget)
      (Stops start)

section Rules

variable {α β : Type} {start ledger : Ledger} {budget : ParseBudget}

theorem Tracks.stops {state : ParserState} (h : Tracks start ledger state) (error : ParseError) :
    Stops start error state :=
  ⟨h.decides, fun kind hmem => absurd hmem (h.accepts kind)⟩

theorem Tracks.record {state : ParserState} (h : Tracks start ledger state) {event : ParserEvent}
    (hdecides : ledger.Decides event) (haccepts : ∀ kind, event ≠ .Item kind false) :
    Tracks start (ledger.after event) { state with log := state.log ++ [event] } where
  reached := by
    rw [replay_append, h.reached, replay_cons, replay_nil]
  decides := by
    rw [throughout_append, throughout_singleton, h.reached]
    exact ⟨h.decides, hdecides⟩
  accepts := by
    intro kind hmem
    rcases List.mem_append.mp hmem with hold | hnew
    · exact h.accepts kind hold
    · exact haccepts kind (List.mem_singleton.mp hnew).symm

theorem Tracks.refuse {state : ParserState} (h : Tracks start ledger state) {kind : RcLimitVariable}
    (hroom : ¬ledger.HasRoom kind) {error : ParseError} (herror : error.resourceLimit = true) :
    Stops start error { state with log := state.log ++ [.Item kind false] } where
  decides := by
    rw [throughout_append, throughout_singleton, h.reached]
    refine ⟨h.decides, ?_⟩
    show false = true ↔ _
    simp [hroom]
  refused := fun _ _ => herror

variable {Q : α → Ledger → ParseBudget → Prop} {P : β → Ledger → ParseBudget → Prop}

theorem Runs.pure {a : α} (h : Q a ledger budget) : Runs start ledger budget (pure a) Q := by
  rintro state htracks rfl
  exact ⟨ledger, htracks, h⟩

theorem Runs.throw {error : ParseError} : Runs start ledger budget (throw error : Parser α) Q := by
  intro state htracks _
  exact htracks.stops error

theorem Runs.bind {m : Parser α} {f : α → Parser β} (hm : Runs start ledger budget m Q)
    (hf : ∀ a ledger budget, Q a ledger budget → Runs start ledger budget (f a) P) :
    Runs start ledger budget (m >>= f) P := by
  intro state htracks hbudget
  refine (hm state htracks hbudget).bind ?_
  rintro a state ⟨ledger, htracks, hQ⟩
  exact hf a ledger state.budget hQ state htracks rfl

theorem Runs.mono {Q' : α → Ledger → ParseBudget → Prop} {m : Parser α}
    (hm : Runs start ledger budget m Q)
    (h : ∀ a ledger budget, Q a ledger budget → Q' a ledger budget) :
    Runs start ledger budget m Q' := by
  intro state htracks hbudget
  refine (hm state htracks hbudget).mono ?_ fun _ _ hstops => hstops
  rintro a state ⟨ledger, htracks, hQ⟩
  exact ⟨ledger, htracks, h a ledger state.budget hQ⟩

theorem Runs.ite {c : Prop} [Decidable c] {m m' : Parser α}
    (h : c → Runs start ledger budget m Q) (h' : ¬c → Runs start ledger budget m' Q) :
    Runs start ledger budget (if c then m else m') Q := by
  split_ifs with hc
  · exact h hc
  · exact h' hc

theorem Runs.get_bind {f : ParserState → Parser β}
    (h : ∀ state, state.budget = budget → Runs start ledger budget (f state) P) :
    Runs start ledger budget (get >>= f) P := by
  intro state htracks hbudget
  exact h state hbudget state htracks hbudget

/-- A part that only reads: nothing changes. -/
def Same (ledger : Ledger) (budget : ParseBudget) (ledger' : Ledger) (budget' : ParseBudget) : Prop :=
  ledger' = ledger ∧ budget' = budget

theorem Runs.reading (result : Except ParseError α) :
    Runs start ledger budget (reading result)
      fun a ledger' budget' => result = .ok a ∧ Same ledger budget ledger' budget' := by
  cases result with
  | ok a => exact .pure ⟨rfl, rfl, rfl⟩
  | error error => exact .throw

theorem Runs.currentLinebuf :
    Runs start ledger budget currentLinebuf
      fun linebuf ledger' budget' =>
        linebuf = budget.limits.linebuf ∧ Same ledger budget ledger' budget' :=
  .get_bind fun _ hbudget => .pure ⟨by rw [hbudget], rfl, rfl⟩

theorem Runs.record {event : ParserEvent} (hdecides : ledger.Decides event)
    (haccepts : ∀ kind, event ≠ .Item kind false) :
    Runs start ledger budget (record event)
      fun _ ledger' budget' => ledger' = ledger.after event ∧ budget' = budget := by
  intro state htracks hbudget
  exact ⟨_, htracks.record hdecides haccepts, rfl, hbudget⟩

theorem Runs.changeBudget {change : ParseBudget → ParseBudget} :
    Runs start ledger budget (changeBudget change)
      fun _ ledger' budget' => ledger' = ledger ∧ budget' = change budget := by
  rintro state htracks rfl
  exact ⟨ledger, ⟨htracks.reached, htracks.decides, htracks.accepts⟩, rfl, rfl⟩

end Rules

/-! ### The budget -/

/-- The ledger is ahead of the budget by what is pending. -/
structure Matches (ledger : Ledger) (budget : ParseBudget) (pending : RcParseCounts) : Prop where
  counts : ledger.counts = budget.counts.add pending
  limits : ledger.limits = budget.limits

section Budget

variable {start ledger : Ledger} {budget : ParseBudget} {pending : RcParseCounts}

theorem runs_checkLine (line : RcLine) :
    Runs start ledger budget (checkLine line) fun _ => Same ledger budget := by
  refine Runs.currentLinebuf.bind ?_
  rintro linebuf _ _ ⟨-, rfl, rfl⟩
  exact (Runs.reading _).mono fun _ _ _ h => h.2

theorem runs_checkLimit {kind : RcLimitVariable} {count limit : Nat} {refusal : ParseError}
    (hcount : ledger.count kind = count) (hlimit : ledger.limits.get kind = limit)
    (hrefusal : refusal.resourceLimit = true) :
    Runs start ledger budget (checkLimit kind count limit refusal)
      fun _ ledger' budget' => ledger' = ledger.accept kind ∧ budget' = budget := by
  have hroom : ledger.HasRoom kind ↔ count < limit := by
    rw [Ledger.HasRoom, hcount, hlimit]
  intro state htracks hbudget
  by_cases hlt : count < limit
  · have hrun : checkLimit kind count limit refusal state =
        .ok () { state with log := state.log ++ [.Item kind true] } := by
      simp [checkLimit, record, hlt, Outcome.modify_apply, Bind.bind, EStateM.bind, Pure.pure,
        EStateM.pure]
    have hdecides : ledger.Decides (.Item kind true) := by
      show true = true ↔ _
      simp [hroom, hlt]
    rw [Ends, hrun]
    exact ⟨_, htracks.record hdecides (by rintro _ ⟨⟩), rfl, hbudget⟩
  · have hrun : checkLimit kind count limit refusal state =
        .error refusal { state with log := state.log ++ [.Item kind false] } := by
      simp [checkLimit, record, hlt, Outcome.modify_apply, Outcome.throw_apply, Bind.bind, EStateM.bind]
    rw [Ends, hrun]
    exact htracks.refuse (hroom.not.mpr hlt) hrefusal

theorem runs_checkStatement (line : Nat) (h : Matches ledger budget pending)
    (hpending : pending.statements = 0) :
    Runs start ledger budget (checkStatement line)
      fun _ ledger' budget' => ledger' = ledger.accept .Statements ∧ budget' = budget := by
  refine .get_bind fun state hbudget => runs_checkLimit ?_ ?_ rfl
  · rw [hbudget]
    simp [Ledger.count, h.counts, RcParseCounts.add, hpending]
  · rw [hbudget, h.limits]
    rfl

theorem runs_chargeRecipe (line : Nat) (h : Matches ledger budget pending)
    (hpending : pending.recipes = 0) :
    Runs start ledger budget (chargeRecipe line)
      fun _ ledger' budget' => ledger' = ledger.accept .Recipes ∧
        budget' = { budget with counts := budget.counts.add ⟨0, 1, 1, 0, 0⟩ } := by
  refine .get_bind fun state hbudget => (runs_checkLimit ?_ ?_ rfl).bind ?_
  · rw [hbudget]
    simp [Ledger.count, h.counts, RcParseCounts.add, hpending]
  · rw [hbudget, h.limits]
    rfl
  · rintro _ _ _ ⟨rfl, rfl⟩
    exact .changeBudget

theorem runs_chargeAssignment (line : Nat) (usage : AssignmentUse) (h : Matches ledger budget pending)
    (hpending : pending.assignments = 0) :
    Runs start ledger budget (chargeAssignment line usage)
      fun _ ledger' budget' => ledger' = ledger.accept .Assignments ∧
        budget' = { budget with
          counts := budget.counts.add ⟨1, if usage = .Statement then 1 else 0, 0, 0, 0⟩ } := by
  refine .get_bind fun state hbudget => (runs_checkLimit ?_ ?_ rfl).bind ?_
  · rw [hbudget]
    simp [Ledger.count, h.counts, RcParseCounts.add, hpending]
  · rw [hbudget, h.limits]
    rfl
  · rintro _ _ _ ⟨rfl, rfl⟩
    exact .changeBudget

theorem runs_checkCondition (line : Nat) (h : Matches ledger budget pending)
    (hrecipe : ledger.recipeConditions = pending.conditions) :
    Runs start ledger budget (checkCondition pending.conditions line)
      fun _ ledger' budget' =>
        ledger' = (ledger.accept .ConditionsPerRecipe).accept .Conditions ∧ budget' = budget := by
  refine .get_bind fun state hbudget => Runs.bind (runs_checkLimit ?_ ?_ rfl) ?_
  · exact hrecipe
  · rw [hbudget, h.limits]
    rfl
  · rintro _ _ _ ⟨rfl, rfl⟩
    refine runs_checkLimit ?_ ?_ rfl
    · rw [hbudget]
      simp [Ledger.count, Ledger.accept, h.counts, RcParseCounts.add]
    · show ledger.limits.get .Conditions = _
      rw [hbudget, h.limits]
      rfl

theorem runs_checkRegex (line : Nat) (h : Matches ledger budget pending) :
    Runs start ledger budget (checkRegex pending.regexes line)
      fun _ ledger' budget' => ledger' = ledger.accept .Regexes ∧ budget' = budget := by
  refine .get_bind fun state hbudget => runs_checkLimit ?_ ?_ rfl
  · rw [hbudget]
    simp [Ledger.count, h.counts, RcParseCounts.add]
  · rw [hbudget, h.limits]
    rfl

theorem runs_checkNesting (line : Nat) (h : Matches ledger budget pending) :
    Runs start ledger budget (checkNesting ledger.depth line)
      fun depth ledger' budget' => depth = ledger.depth + 1 ∧
        ledger' = ledger.accept .NestingDepth ∧ budget' = budget := by
  refine .get_bind fun state hbudget => (runs_checkLimit rfl ?_ rfl).bind ?_
  · rw [hbudget, h.limits]
    rfl
  · rintro _ _ _ ⟨rfl, rfl⟩
    exact .pure ⟨rfl, rfl, rfl⟩

/-- The limits change in the ledger as in the budget; the counts stay. -/
structure Resettled (ledger : Ledger) (budget : ParseBudget) (ledger' : Ledger)
    (budget' : ParseBudget) : Prop where
  counts : ledger'.counts = ledger.counts
  budgetCounts : budget'.counts = budget.counts
  depth : ledger'.depth = ledger.depth
  limits : ledger'.limits = budget'.limits

theorem runs_setLimit (kind : RcLimitVariable) (value : Nat) (h : ledger.limits = budget.limits) :
    Runs start ledger budget (setLimit kind value) fun _ => Resettled ledger budget := by
  refine Runs.bind (Runs.record trivial (by rintro _ ⟨⟩)) ?_
  rintro _ _ _ ⟨rfl, rfl⟩
  refine Runs.changeBudget.mono ?_
  rintro _ _ _ ⟨rfl, rfl⟩
  exact ⟨rfl, rfl, rfl, congrArg (RcLimits.replace · kind value) h⟩

theorem runs_setLinebuf (value : Nat) (h : ledger.limits = budget.limits) :
    Runs start ledger budget (setLinebuf value) fun _ => Resettled ledger budget := by
  refine Runs.bind (Runs.record trivial (by rintro _ ⟨⟩)) ?_
  rintro _ _ _ ⟨rfl, rfl⟩
  refine Runs.changeBudget.mono ?_
  rintro _ _ _ ⟨rfl, rfl⟩
  exact ⟨rfl, rfl, rfl, congrArg (fun limits => { limits with linebuf := value }) h⟩

end Budget

/-! ### Conditions -/

section Conditions

variable {R H : Type} (words : RcWords R H)
variable {start ledger : Ledger} {budget : ParseBudget}

/-- The ledger while the conditions of a recipe are read: so many conditions and regular expressions
are not in the budget yet. -/
structure Reading (depth conditions regexes : Nat) (budget : ParseBudget) (ledger : Ledger) : Prop where
  counts : ledger.counts = budget.counts.add ⟨0, 0, 0, conditions, regexes⟩
  limits : ledger.limits = budget.limits
  recipe : ledger.recipeConditions = conditions
  depth : ledger.depth = depth

variable {depth conditions regexes : Nat}

theorem Reading.toMatches (h : Reading depth conditions regexes budget ledger) :
    Matches ledger budget ⟨0, 0, 0, conditions, regexes⟩ := ⟨h.counts, h.limits⟩

theorem Reading.acceptRegex (h : Reading depth conditions regexes budget ledger) :
    Reading depth conditions (regexes + 1) budget (ledger.accept .Regexes) where
  counts := by
    show ledger.counts.add ⟨0, 0, 0, 0, 1⟩ = _
    rw [h.counts, RcParseCounts.add_assoc]
    rfl
  limits := h.limits
  recipe := h.recipe
  depth := h.depth

theorem Reading.acceptCondition (h : Reading depth conditions regexes budget ledger) :
    Reading depth (conditions + 1) regexes budget
      ((ledger.accept .ConditionsPerRecipe).accept .Conditions) where
  counts := by
    show ledger.counts.add ⟨0, 0, 0, 1, 0⟩ = _
    rw [h.counts, RcParseCounts.add_assoc]
    rfl
  limits := h.limits
  recipe := congrArg (· + 1) h.recipe
  depth := h.depth

theorem runs_parseMultipartCheck (input : Text) (line : Nat) (caseSensitive : Bool)
    (h : Reading depth conditions regexes budget ledger) :
    Runs start ledger budget (parseMultipartCheck words input line caseSensitive regexes)
      fun _ ledger' budget' =>
        budget' = budget ∧ Reading depth conditions (regexes + 1) budget ledger' := by
  unfold parseMultipartCheck
  cases splitOnce ['?', '?'] input with
  | none => exact .throw
  | some parts =>
    dsimp only
    split
    · exact .throw
    · refine (runs_checkRegex line h.toMatches).bind ?_
      rintro _ _ _ ⟨rfl, rfl⟩
      refine (Runs.reading _).bind ?_
      rintro regex _ _ ⟨-, rfl, rfl⟩
      exact .pure ⟨rfl, h.acceptRegex⟩

/-- How many regular expressions a condition that is one counts for. -/
def regexWeight (isRegex : Bool) : Nat := if isRegex then 1 else 0

theorem runs_parseSingleLineMultipart (input : Text) (line : Nat) (caseSensitive : Bool)
    (h : Reading depth conditions regexes budget ledger) :
    Runs start ledger budget (parseSingleLineMultipart words input line caseSensitive regexes)
      fun kind ledger' budget' => budget' = budget ∧
        match kind with
        | none => Reading depth conditions regexes budget ledger'
        | some kind => kind.regexes = 1 ∧
            Reading depth conditions (regexes + 1) budget ledger' := by
  unfold parseSingleLineMultipart
  cases stripStart multipartMark input with
  | none => exact .pure ⟨rfl, h⟩
  | some rest =>
    refine .ite (fun _ => .pure ⟨rfl, h⟩) fun _ => .ite (fun _ => .pure ⟨rfl, h⟩) fun _ => ?_
    refine (Runs.reading _).bind ?_
    rintro text _ _ ⟨-, rfl, rfl⟩
    refine (runs_parseMultipartCheck words text line caseSensitive h).bind ?_
    rintro check _ _ ⟨rfl, hread⟩
    exact .pure ⟨rfl, rfl, hread⟩

theorem runs_parseConditionKind (input : Text) (line : Nat) (caseSensitive : Bool)
    (h : Reading depth conditions regexes budget ledger) :
    Runs start ledger budget (parseConditionKind words input line caseSensitive regexes)
      fun parsed ledger' budget' => budget' = budget ∧
        parsed.1.regexes = regexWeight parsed.2 ∧
        Reading depth conditions (regexes + regexWeight parsed.2) budget ledger' := by
  unfold parseConditionKind
  split
  · refine Runs.bind (Runs.record trivial (by rintro _ ⟨⟩)) ?_
    rintro _ _ _ ⟨rfl, rfl⟩
    exact .pure ⟨rfl, rfl, h.acceptRegex⟩
  · refine (Runs.reading _).bind ?_
    rintro size _ _ ⟨-, rfl, rfl⟩
    exact .pure ⟨rfl, rfl, h⟩
  · refine (Runs.reading _).bind ?_
    rintro size _ _ ⟨-, rfl, rfl⟩
    exact .pure ⟨rfl, rfl, h⟩
  · refine (Runs.reading _).bind ?_
    rintro _ _ _ ⟨-, rfl, rfl⟩
    exact .pure ⟨rfl, rfl, h⟩
  · refine (runs_checkRegex line h.toMatches).bind ?_
    rintro _ _ _ ⟨rfl, rfl⟩
    refine (Runs.reading _).bind ?_
    rintro regex _ _ ⟨-, rfl, rfl⟩
    exact .pure ⟨rfl, rfl, h.acceptRegex⟩

theorem runs_parseCondition (input : Text) (line : Nat) (caseSensitive : Bool)
    (h : Reading depth conditions regexes budget ledger) :
    Runs start ledger budget (parseCondition words input line caseSensitive regexes)
      fun parsed ledger' budget' => budget' = budget ∧
        parsed.1.kind.regexes = regexWeight parsed.2 ∧
        Reading depth conditions (regexes + regexWeight parsed.2) budget ledger' := by
  unfold parseCondition
  refine .ite (fun _ => .throw) fun _ => .ite (fun _ => .throw) fun _ => ?_
  refine (runs_parseSingleLineMultipart words _ line caseSensitive h).bind ?_
  rintro kind ledger' _ ⟨rfl, hkind⟩
  cases kind with
  | some kind => exact .pure ⟨rfl, hkind.1, hkind.2⟩
  | none =>
    refine (runs_parseConditionKind words _ line caseSensitive hkind).bind ?_
    rintro parsed _ _ ⟨rfl, hregexes, hread⟩
    exact .pure ⟨rfl, hregexes, hread⟩

/-- A condition has been read: `regexes` counts its regular expressions and those before it. -/
def ReadCondition (depth conditions regexes : Nat) (budget : ParseBudget) (parsed : ParsedCondition R)
    (ledger' : Ledger) (budget' : ParseBudget) : Prop :=
  budget' = budget ∧ parsed.regexes = regexes + parsed.condition.kind.regexes ∧
    Reading depth conditions parsed.regexes budget ledger'

theorem runs_parseMultipartBlock (opening : Nat) (negated caseSensitive : Bool) (lines : List RcLine) :
    ∀ (checks : List (MultipartField × R)) (ledger : Ledger),
      Reading depth conditions (regexes + checks.length) budget ledger →
      Runs start ledger budget (parseMultipartBlock words opening negated caseSensitive checks
          (regexes + checks.length) lines)
        (ReadCondition depth conditions regexes budget) := by
  induction lines with
  | nil =>
    intro checks ledger h
    exact .throw
  | cons line rest ih =>
    intro checks ledger h
    refine (runs_checkLine line).bind ?_
    rintro _ _ _ ⟨rfl, rfl⟩
    refine .ite (fun _ => ih checks _ h) fun _ => .ite (fun _ => ?_) fun _ => ?_
    · exact .ite (fun _ => .throw) fun _ => .pure ⟨rfl, rfl, h⟩
    · refine (runs_parseMultipartCheck words _ _ caseSensitive h).bind ?_
      rintro check ledger' _ ⟨rfl, hread⟩
      refine .ite (fun _ => .throw) fun _ => ?_
      have hlen : regexes + checks.length + 1 = regexes + (checks ++ [check]).length := by
        rw [List.length_append]
        rfl
      rw [hlen] at hread ⊢
      exact ih _ ledger' hread

theorem runs_parseConditionLine (caseSensitive : Bool) (line : RcLine) (rest : List RcLine)
    (h : Reading depth conditions regexes budget ledger) :
    Runs start ledger budget (parseConditionLine words caseSensitive regexes line rest)
      (ReadCondition depth conditions regexes budget) := by
  unfold parseConditionLine
  cases isMultipartBlockStart (trim line.text) with
  | some negated => exact runs_parseMultipartBlock words _ negated caseSensitive rest [] ledger h
  | none =>
    refine Runs.currentLinebuf.bind ?_
    rintro linebuf _ _ ⟨-, rfl, rfl⟩
    refine (Runs.reading _).bind ?_
    rintro source _ _ ⟨-, rfl, rfl⟩
    refine (runs_parseCondition words _ _ caseSensitive h).bind ?_
    rintro parsed ledger' _ ⟨rfl, hregexes, hread⟩
    refine .pure ⟨rfl, ?_, hread⟩
    show regexes + regexWeight parsed.2 = regexes + parsed.1.kind.regexes
    rw [hregexes]

theorem regexesOf_concat (conditions : List (Condition R)) (condition : Condition R) :
    regexesOf (conditions ++ [condition]) = regexesOf conditions + condition.kind.regexes := by
  simp [regexesOf]

/-- The conditions of a recipe have been read. -/
def ReadConditions (depth : Nat) (budget : ParseBudget) (parsed : ParsedConditions R)
    (ledger' : Ledger) (budget' : ParseBudget) : Prop :=
  budget' = budget ∧ parsed.regexes = regexesOf parsed.conditions ∧
    Reading depth parsed.conditions.length parsed.regexes budget ledger'

theorem runs_parseConditions (caseSensitive : Bool) (fuel : Nat) :
    ∀ (conditions : List (Condition R)) (lines : List RcLine) (ledger : Ledger),
      Reading depth conditions.length (regexesOf conditions) budget ledger →
      Runs start ledger budget
        (parseConditions words caseSensitive fuel conditions (regexesOf conditions) lines)
        (ReadConditions depth budget) := by
  induction fuel with
  | zero =>
    intro conditions lines ledger h
    cases lines with
    | nil => exact .pure ⟨rfl, rfl, h⟩
    | cons line rest => exact .throw
  | succ fuel ih =>
    intro conditions lines ledger h
    cases lines with
    | nil => exact .pure ⟨rfl, rfl, h⟩
    | cons line rest =>
      refine (runs_checkLine line).bind ?_
      rintro _ _ _ ⟨rfl, rfl⟩
      refine .ite (fun _ => ih conditions rest _ h) fun _ => .ite (fun _ => ?_)
        fun _ => .pure ⟨rfl, rfl, h⟩
      refine (runs_checkCondition _ h.toMatches h.recipe).bind ?_
      rintro _ _ _ ⟨rfl, rfl⟩
      refine (runs_parseConditionLine words caseSensitive line rest h.acceptCondition).bind ?_
      rintro parsed ledger' _ ⟨rfl, hregexes, hread⟩
      rw [hregexes, ← regexesOf_concat] at hread ⊢
      refine ih _ _ ledger' ?_
      rw [List.length_append]
      exact hread

end Conditions

/-! ### Statements -/

section Statements

variable {R H : Type} (words : RcWords R H)
variable {start ledger : Ledger} {budget : ParseBudget}

/-- The books between two statements: nothing is pending. -/
structure Settled (depth : Nat) (budget : ParseBudget) (ledger : Ledger) : Prop where
  counts : ledger.counts = budget.counts
  limits : ledger.limits = budget.limits
  depth : ledger.depth = depth

variable {depth : Nat}

theorem Settled.toMatches (h : Settled depth budget ledger) : Matches ledger budget .zero :=
  ⟨h.counts, h.limits⟩

theorem runs_applyAssignment (assignment : Assignment) (h : ledger.limits = budget.limits) :
    Runs start ledger budget (applyAssignment assignment) fun _ => Resettled ledger budget := by
  refine Runs.bind (Q := fun _ => Resettled ledger budget) ?_ ?_
  · unfold applyRcLimit
    cases rcLimitKind assignment.name with
    | none => exact .pure ⟨rfl, rfl, rfl, h⟩
    | some kind =>
      cases parseUsize assignment.value with
      | none => exact .throw
      | some value => exact .ite (fun _ => .throw) fun _ => runs_setLimit kind value h
  · intro _ ledger' budget' hset
    refine .ite (fun _ => ?_) fun _ => .pure hset
    cases parseUsize assignment.value with
    | none => exact .throw
    | some value =>
      refine .ite (fun _ => ?_) fun _ => .throw
      refine (runs_setLinebuf value hset.limits).mono ?_
      intro _ ledger'' budget'' hagain
      exact ⟨hagain.counts.trans hset.counts, hagain.budgetCounts.trans hset.budgetCounts,
        hagain.depth.trans hset.depth, hagain.limits⟩

theorem runs_applyUnset (unset : Unset) (h : ledger.limits = budget.limits) :
    Runs start ledger budget (applyUnset unset) fun _ => Resettled ledger budget := by
  unfold applyUnset
  cases rcLimitKind unset.name with
  | some kind => exact runs_setLimit kind _ h
  | none => exact .ite (fun _ => runs_setLinebuf _ h) fun _ => .pure ⟨rfl, rfl, rfl, h⟩

/-- A statement that is an assignment of some kind. -/
def oneAssignment : RcParseCounts := ⟨1, 1, 0, 0, 0⟩

/-- The statement was checked before, so that the ledger knows it already. -/
structure StatementPending (depth : Nat) (budget : ParseBudget) (ledger : Ledger) : Prop where
  counts : ledger.counts = budget.counts.add ⟨0, 1, 0, 0, 0⟩
  limits : ledger.limits = budget.limits
  depth : ledger.depth = depth

theorem Settled.acceptStatement (h : Settled depth budget ledger) :
    StatementPending depth budget (ledger.accept .Statements) where
  counts := congrArg (·.add ⟨0, 1, 0, 0, 0⟩) h.counts
  limits := h.limits
  depth := h.depth

theorem StatementPending.acceptRecipe (h : StatementPending depth budget ledger) :
    Settled depth { budget with counts := budget.counts.add ⟨0, 1, 1, 0, 0⟩ }
      (ledger.accept .Recipes) where
  counts := by
    show ledger.counts.add ⟨0, 0, 1, 0, 0⟩ = _
    rw [h.counts, RcParseCounts.add_assoc]
    rfl
  limits := h.limits
  depth := h.depth

theorem runs_chargeStatement (line : Nat) (h : StatementPending depth budget ledger) :
    Runs start ledger budget (chargeAssignment line .Statement)
      fun _ ledger' budget' =>
        budget'.counts = budget.counts.add oneAssignment ∧ Settled depth budget' ledger' := by
  refine (runs_chargeAssignment line .Statement ⟨h.counts, h.limits⟩ rfl).mono ?_
  rintro _ _ _ ⟨rfl, rfl⟩
  refine ⟨rfl, ?_, h.limits, h.depth⟩
  show ledger.counts.add ⟨1, 0, 0, 0, 0⟩ = _
  rw [h.counts, RcParseCounts.add_assoc]
  rfl

theorem Settled.resettle {ledger' : Ledger} {budget' : ParseBudget} (h : Settled depth budget ledger)
    (hset : Resettled ledger budget ledger' budget') : Settled depth budget' ledger' :=
  ⟨by rw [hset.counts, hset.budgetCounts, h.counts], hset.limits, hset.depth.trans h.depth⟩

/-- A statement that is no recipe has been read. -/
def ReadSimple (depth : Nat) (budget : ParseBudget) (statement : Statement R H) (ledger' : Ledger)
    (budget' : ParseBudget) : Prop :=
  statement.items = oneAssignment ∧ budget'.counts = budget.counts.add oneAssignment ∧
    Settled depth budget' ledger'

theorem runs_parseAssignmentStatement (nesting : Nat) (assignment : Assignment)
    (h : StatementPending depth budget ledger) :
    Runs start ledger budget (parseAssignmentStatement nesting assignment : Parser (Statement R H))
      (ReadSimple depth budget) := by
  refine (runs_chargeStatement _ h).bind ?_
  rintro _ ledger' budget' ⟨hcounts, hsettled⟩
  refine .ite (fun _ => .throw) fun _ => .ite (fun _ => .pure ⟨rfl, hcounts, hsettled⟩) fun _ =>
    .ite (fun _ => .pure ⟨rfl, hcounts, hsettled⟩) fun _ => ?_
  cases assignment.expansion.filter requiresOrderedEvaluation with
  | some expression => exact .ite (fun _ => .throw) fun _ => .pure ⟨rfl, hcounts, hsettled⟩
  | none =>
    refine (runs_applyAssignment assignment hsettled.limits).bind ?_
    intro _ ledger'' budget'' hset
    exact .pure ⟨rfl, hset.budgetCounts.trans hcounts, hsettled.resettle hset⟩

theorem runs_parseUnsetStatement (nesting : Nat) (unset : Unset)
    (h : StatementPending depth budget ledger) :
    Runs start ledger budget (parseUnsetStatement nesting unset : Parser (Statement R H))
      (ReadSimple depth budget) := by
  refine (runs_chargeStatement _ h).bind ?_
  rintro _ ledger' budget' ⟨hcounts, hsettled⟩
  refine .ite (fun _ => .throw) fun _ => ?_
  refine (runs_applyUnset unset hsettled.limits).bind ?_
  intro _ ledger'' budget'' hset
  exact .pure ⟨rfl, hset.budgetCounts.trans hcounts, hsettled.resettle hset⟩

theorem runs_parseSimpleStatement (nesting : Nat) (line : RcLine)
    (h : StatementPending depth budget ledger) :
    Runs start ledger budget (parseSimpleStatement words nesting line) (ReadSimple depth budget) := by
  refine (Runs.reading _).bind ?_
  rintro assignment _ _ ⟨-, rfl, rfl⟩
  cases assignment with
  | some assignment => exact runs_parseAssignmentStatement nesting assignment h
  | none =>
    refine (Runs.reading _).bind ?_
    rintro unset _ _ ⟨-, rfl, rfl⟩
    cases unset with
    | some unset => exact runs_parseUnsetStatement nesting unset h
    | none => exact .throw

/-! ### Recipes -/

/-- Statements have been read, and the budget has been charged for them. -/
def ReadStatements (depth : Nat) (budget : ParseBudget) (items : RcParseCounts) (ledger' : Ledger)
    (budget' : ParseBudget) : Prop :=
  budget'.counts = budget.counts.add items ∧ Settled depth budget' ledger'

/-- What is expected of the parser of a block. -/
def ParsesBlocks (start : Ledger) (parseBlock : BlockParser R H) : Prop :=
  ∀ depth lines ledger budget, Settled depth budget ledger →
    Runs start ledger budget (parseBlock depth lines)
      fun block => ReadStatements depth budget (itemsOf block.1)

theorem runs_parseBlockAction {parseBlock : BlockParser R H} (hblock : ParsesBlocks start parseBlock)
    (head : RecipeHead R) (rest : List RcLine) (h : Settled depth budget ledger) :
    Runs start ledger budget (parseBlockAction parseBlock depth head rest)
      fun parsed ledger' budget' => ∃ contents, parsed.1.items = head.items.add contents ∧
        ReadStatements depth budget contents ledger' budget' := by
  have hmatches := h.toMatches
  obtain ⟨hcounts, hlimits, rfl⟩ := h
  refine (runs_checkNesting _ hmatches).bind ?_
  rintro _ _ _ ⟨rfl, rfl, rfl⟩
  refine .ite (fun _ => .throw) fun _ => ?_
  refine (hblock (ledger.depth + 1) rest (ledger.accept .NestingDepth) _
    ⟨hcounts, hlimits, rfl⟩).bind ?_
  rintro block ledger' budget' ⟨hitems, hsettled⟩
  refine Runs.bind (Runs.record trivial (by rintro _ ⟨⟩)) ?_
  rintro _ _ _ ⟨rfl, rfl⟩
  refine .pure ⟨itemsOf block.1, rfl, hitems, hsettled.counts, hsettled.limits, ?_⟩
  show ledger'.depth - 1 = ledger.depth
  rw [hsettled.depth]
  rfl

theorem parseDelivery_ok {action : Text} {line : Nat} {delivery : RecipeAction H}
    (h : parseDelivery words action line = .ok delivery) : ∃ kind path, delivery = .Deliver kind path := by
  have hdeliver (kind : DestinationKind) (path : Except ParseError PathExpression)
      (hpath : RecipeAction.Deliver kind <$> path = Except.ok delivery) : ∃ kind path, delivery = .Deliver kind path := by
    cases path with
    | error error => cases hpath
    | ok path =>
      cases hpath
      exact ⟨kind, path, rfl⟩
  unfold parseDelivery at h
  split at h
  · exact hdeliver _ _ h
  · split at h
    · exact hdeliver _ _ h
    · split_ifs at h
      · exact hdeliver _ _ h
      · exact hdeliver _ _ h

theorem runs_parseAction {parseBlock : BlockParser R H} (hblock : ParsesBlocks start parseBlock)
    (capture : Option (String × AssignmentTarget)) (head : RecipeHead R) (line : RcLine)
    (rest : List RcLine) (h : Settled depth budget ledger) :
    Runs start ledger budget (parseAction words parseBlock depth capture head line rest)
      fun parsed ledger' budget' => ∃ contents, parsed.1.items = head.items.add contents ∧
        ReadStatements depth budget contents ledger' budget' := by
  have hnone : ReadStatements depth budget .zero ledger budget := ⟨rfl, h⟩
  cases capture with
  | some capture =>
    refine (runs_chargeAssignment _ .CaptureAction h.toMatches rfl).bind ?_
    rintro _ _ _ ⟨rfl, rfl⟩
    refine Runs.currentLinebuf.bind ?_
    rintro linebuf _ _ ⟨-, rfl, rfl⟩
    refine (Runs.reading _).bind ?_
    rintro command _ _ ⟨-, rfl, rfl⟩
    refine .pure ⟨⟨1, 0, 0, 0, 0⟩, rfl, rfl, ?_, h.limits, h.depth⟩
    exact congrArg (·.add ⟨1, 0, 0, 0, 0⟩) h.counts
  | none =>
    refine .ite (fun _ => ?_) fun _ => .ite (fun _ => ?_) fun _ => .ite
      (fun _ => runs_parseBlockAction hblock head rest h) fun _ => .ite (fun _ => .throw) fun _ => ?_
    · refine Runs.currentLinebuf.bind ?_
      rintro linebuf _ _ ⟨-, rfl, rfl⟩
      refine (Runs.reading _).bind ?_
      rintro command _ _ ⟨-, rfl, rfl⟩
      exact .ite (fun _ => .throw) fun _ => .pure ⟨.zero, rfl, hnone⟩
    · refine Runs.currentLinebuf.bind ?_
      rintro linebuf _ _ ⟨-, rfl, rfl⟩
      refine (Runs.reading _).bind ?_
      rintro operations _ _ ⟨-, rfl, rfl⟩
      exact .pure ⟨.zero, rfl, hnone⟩
    · refine (Runs.reading (parseDelivery words (trim line.text) line.number)).bind ?_
      rintro delivery _ _ ⟨hdelivery, rfl, rfl⟩
      refine .pure ⟨.zero, ?_, hnone⟩
      show head.items.add ⟨delivery.assignments, 0, 0, 0, 0⟩ = _
      obtain ⟨kind, path, rfl⟩ := parseDelivery_ok words hdelivery
      rfl

theorem runs_parseRecipe {parseBlock : BlockParser R H} (hblock : ParsesBlocks start parseBlock)
    (header : RcLine) (rest : List RcLine) (h : Settled depth budget ledger)
    (hrecipe : ledger.recipeConditions = 0) {earlier : RcParseCounts}
    (hearlier : budget.counts = earlier.add ⟨0, 1, 1, 0, 0⟩) :
    Runs start ledger budget (parseRecipe words parseBlock depth header rest)
      fun parsed ledger' budget' =>
        budget'.counts = earlier.add parsed.1.items ∧ Settled depth budget' ledger' := by
  have hread : Reading depth ([] : List (Condition R)).length (regexesOf ([] : List (Condition R)))
      budget ledger := ⟨h.counts, h.limits, hrecipe, h.depth⟩
  unfold parseRecipe
  cases stripStart [':', '0'] (trim header.text) with
  | none => exact .throw
  | some text =>
    refine (Runs.reading _).bind ?_
    rintro recipeHeader _ _ ⟨-, rfl, rfl⟩
    refine (runs_parseConditions words _ rest.length [] rest _ hread).bind ?_
    rintro ⟨conditions, regexes, remaining⟩ ledger' _ ⟨rfl, hregexes, hread'⟩
    dsimp only at hregexes
    subst hregexes
    cases remaining with
    | nil => exact .throw
    | cons line rest =>
      refine (runs_checkLine line).bind ?_
      rintro _ _ _ ⟨rfl, rfl⟩
      refine Runs.changeBudget.bind ?_
      rintro _ _ _ ⟨rfl, rfl⟩
      refine (Runs.reading _).bind ?_
      rintro _ _ _ ⟨-, rfl, rfl⟩
      refine (Runs.reading _).bind ?_
      rintro capture _ _ ⟨-, rfl, rfl⟩
      refine (Runs.reading _).bind ?_
      rintro options _ _ ⟨-, rfl, rfl⟩
      refine Runs.mono (runs_parseAction words hblock capture _ line rest ⟨?_, ?_, ?_⟩) ?_
      · exact hread'.counts
      · exact hread'.limits
      · exact hread'.depth
      rintro parsed ledger'' budget'' ⟨contents, hitems, hcounts, hsettled⟩
      refine ⟨?_, hsettled⟩
      rw [hcounts, hitems, hearlier]
      simp only [RcParseCounts.add, RecipeHead.items, RcParseCounts.mk.injEq]
      omega

/-! ### Files -/

theorem parsesBlocks_parseStatements (total fuel : Nat) :
    ParsesBlocks start (parseStatements words total fuel) := by
  induction fuel with
  | zero =>
    intro depth lines ledger budget h
    cases lines with
    | nil => exact .ite (fun _ => .throw) fun _ => .pure ⟨rfl, h⟩
    | cons line rest => exact .throw
  | succ fuel ih =>
    intro depth lines ledger budget h
    cases lines with
    | nil => exact .ite (fun _ => .throw) fun _ => .pure ⟨rfl, h⟩
    | cons line rest =>
      refine (runs_checkLine line).bind ?_
      rintro _ _ _ ⟨rfl, rfl⟩
      refine .ite (fun _ => ih depth rest _ _ h) fun _ => .ite (fun _ => ?_) fun _ => ?_
      · exact .ite (fun _ => .throw) fun _ => .pure ⟨rfl, h⟩
      refine (runs_checkStatement _ h.toMatches rfl).bind ?_
      rintro _ _ _ ⟨rfl, rfl⟩
      refine .ite (fun _ => ?_) fun _ => ?_
      · have hpending := h.acceptStatement
        refine (runs_chargeRecipe _ ⟨hpending.counts, hpending.limits⟩ rfl).bind ?_
        rintro _ _ _ ⟨rfl, rfl⟩
        refine (runs_parseRecipe words ih line rest hpending.acceptRecipe rfl rfl).bind ?_
        rintro recipe ledger' budget' ⟨hcounts, hsettled⟩
        refine (ih depth recipe.2 _ _ hsettled).bind ?_
        rintro others ledger'' budget'' ⟨hothers, hend⟩
        refine .pure ⟨?_, hend⟩
        rw [hothers, hcounts, RcParseCounts.add_assoc]
        rfl
      · refine (runs_parseSimpleStatement words depth line h.acceptStatement).bind ?_
        rintro statement ledger' budget' ⟨hitems, hcounts, hsettled⟩
        refine (ih depth rest _ _ hsettled).bind ?_
        rintro others ledger'' budget'' ⟨hothers, hend⟩
        refine .pure ⟨?_, hend⟩
        rw [hothers, hcounts, RcParseCounts.add_assoc, ← hitems]
        rfl

/-- A file has been parsed: the counts of the file are the items of its statements. -/
structure ReadFile (budget : ParseBudget) (config : ParsedConfig R H) (ledger' : Ledger)
    (budget' : ParseBudget) : Prop where
  parseCounts : config.parseCounts = itemsOf config.statements
  initialLinebuf : config.initialLinebuf = budget.limits.linebuf
  statements : ReadStatements 0 budget (itemsOf config.statements) ledger' budget'

theorem runs_parseWithState (input : Text) (h : Settled 0 budget ledger) :
    Runs start ledger budget (parseWithState words input) (ReadFile budget) := by
  refine .ite (fun _ => .throw) fun _ => ?_
  refine .get_bind fun state hbudget => ?_
  refine (parsesBlocks_parseStatements words _ _ 0 (rcLines input) ledger budget h).bind ?_
  rintro parsed ledger' budget' ⟨hcounts, hsettled⟩
  refine .get_bind fun state' hbudget' => .pure ⟨?_, ?_, hcounts, hsettled⟩
  · show state'.budget.counts.subtract state.budget.counts = itemsOf parsed.1
    rw [hbudget', hbudget, hcounts, RcParseCounts.subtract_add]
  · show state.budget.limits.linebuf = budget.limits.linebuf
    rw [hbudget]

/-- A file that is parsed with the counts and the limits of the ledger, from an empty log on. -/
theorem ends_parseWithState (input : Text) (h : Settled 0 budget ledger) :
    Ends (parseWithState words input) ⟨budget, []⟩
      (fun config state => ∃ ledger', Tracks ledger ledger' state ∧
        ReadFile budget config ledger' state.budget)
      (Stops ledger) :=
  runs_parseWithState words input h ⟨budget, []⟩
    ⟨rfl, throughout_nil, fun _ hmem => nomatch hmem⟩ rfl

end Statements

end ProcmailRs.Config
