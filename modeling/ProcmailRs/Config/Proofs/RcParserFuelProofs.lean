import ProcmailRs.Lib.Outcome
import ProcmailRs.Lib.Refinement
import ProcmailRs.Config.RcParser

/-!
# The bound on the steps of the parser

Every step takes at least one line, so that as many steps as there are lines are enough.
-/

namespace ProcmailRs.Config

open Outcome ProcmailRs.Config.Parser

/-! ### Lines that are left -/

section Left

/-- A value of a part that only looks at the text. -/
theorem gives_reading {α : Type} {P : α → Prop} {result : Except ParseError α}
    (h : ∀ a, result = .ok a → P a) : Gives (reading result) P := by
  cases result with
  | ok a => exact .pure (h a rfl)
  | error error => exact .throw

variable {R H : Type} (words : RcWords R H)

theorem length_continueCondition {linebuf start : Nat} {preserve : Bool} (lines : List RcLine) :
    ∀ {condition physical : Text} {line : RcLine} {read : Text × List RcLine},
      continueCondition linebuf start preserve condition line physical lines = .ok read →
      read.2.length ≤ lines.length := by
  induction lines with
  | nil =>
    intro condition physical line read h
    obtain ⟨step, -, h⟩ := bind_eq_ok h
    split_ifs at h
    cases h
    exact Nat.le_refl _
  | cons next rest ih =>
    intro condition physical line read h
    obtain ⟨step, -, h⟩ := bind_eq_ok h
    split_ifs at h
    · exact Nat.le_succ_of_le (ih h)
    · exact Nat.le_succ_of_le (ih h)
    · cases h
      exact Nat.le_refl _

theorem length_parseConditionContinuation {line : RcLine} {rest : List RcLine} {linebuf : Nat}
    {read : Text × List RcLine} (h : parseConditionContinuation line rest linebuf = .ok read) :
    read.2.length ≤ rest.length := by
  unfold parseConditionContinuation at h
  split at h
  · exact nomatch h
  · exact length_continueCondition rest h

theorem length_continueCommand {linebuf start : Nat} {description : String} (lines : List RcLine) :
    ∀ {command physical : Text} {line : RcLine} {read : Text × List RcLine},
      continueCommand linebuf start description command line physical lines = .ok read →
      read.2.length ≤ lines.length := by
  induction lines with
  | nil =>
    intro command physical line read h
    obtain ⟨step, -, h⟩ := bind_eq_ok h
    split_ifs at h
    obtain ⟨_, -, h⟩ := bind_eq_ok h
    cases h
    exact Nat.le_refl _
  | cons next rest ih =>
    intro command physical line read h
    obtain ⟨step, -, h⟩ := bind_eq_ok h
    split_ifs at h
    · exact Nat.le_succ_of_le (ih h)
    · obtain ⟨_, -, h⟩ := bind_eq_ok h
      cases h
      exact Nat.le_refl _

theorem length_captureCommand {line : RcLine} {rest : List RcLine} {linebuf : Nat}
    {read : Text × List RcLine} (h : captureCommand line rest linebuf = .ok read) :
    read.2.length ≤ rest.length := by
  unfold captureCommand at h
  split at h
  · exact nomatch h
  · exact length_continueCommand rest h

theorem length_parsePipeCommand {line : RcLine} {rest : List RcLine} {linebuf : Nat}
    {read : Text × List RcLine} (h : parsePipeCommand line rest linebuf = .ok read) :
    read.2.length ≤ rest.length := by
  unfold parsePipeCommand at h
  simp only at h
  split_ifs at h
  · cases h
    exact Nat.le_refl _
  · exact length_continueCommand rest h

theorem length_parseHeaderAction {linebuf opening : Nat} (lines : List RcLine) :
    ∀ {operations : List H} {read : List H × List RcLine},
      parseHeaderAction words linebuf opening operations lines = .ok read →
      read.2.length ≤ lines.length := by
  induction lines with
  | nil =>
    intro operations read h
    exact nomatch h
  | cons line rest ih =>
    intro operations read h
    obtain ⟨_, -, h⟩ := bind_eq_ok h
    simp only at h
    split_ifs at h
    · exact Nat.le_succ_of_le (ih h)
    · cases h
      exact Nat.le_succ _
    · obtain ⟨operation, -, h⟩ := bind_eq_ok h
      exact Nat.le_succ_of_le (ih h)

theorem gives_parseMultipartBlock (opening : Nat) (negated caseSensitive : Bool)
    (lines : List RcLine) : ∀ (checks : List (MultipartField × R)) (regexes : Nat),
      Gives (parseMultipartBlock words opening negated caseSensitive checks regexes lines)
        fun parsed => parsed.rest.length ≤ lines.length := by
  induction lines with
  | nil => exact fun _ _ => .throw
  | cons line rest ih =>
    intro checks regexes
    have hrest : ∀ (checks : List (MultipartField × R)) (regexes : Nat),
        Gives (parseMultipartBlock words opening negated caseSensitive checks regexes rest)
          fun parsed => parsed.rest.length ≤ (line :: rest).length := fun checks regexes s =>
      (ih checks regexes s).mono (fun _ _ h => Nat.le_succ_of_le h) fun _ _ h => h
    refine (Gives.any _).bind fun _ _ => .ite (hrest _ _) (.ite (.ite .throw ?_) ?_)
    · exact .pure (Nat.le_succ _)
    · exact (Gives.any _).bind fun check _ => .ite .throw (hrest _ _)

theorem gives_parseConditionLine (caseSensitive : Bool) (regexes : Nat) (line : RcLine)
    (rest : List RcLine) :
    Gives (parseConditionLine words caseSensitive regexes line rest)
      fun parsed => parsed.rest.length ≤ rest.length := by
  unfold parseConditionLine
  cases isMultipartBlockStart (trim line.text) with
  | some negated => exact gives_parseMultipartBlock words _ negated caseSensitive rest [] regexes
  | none =>
    refine (Gives.any _).bind fun linebuf _ => ?_
    refine (gives_reading fun source => length_parseConditionContinuation).bind fun source hsource => ?_
    exact (Gives.any _).bind fun parsed _ => .pure hsource

theorem gives_parseConditions (caseSensitive : Bool) (fuel : Nat) :
    ∀ (conditions : List (Condition R)) (regexes : Nat) (lines : List RcLine),
      Gives (parseConditions words caseSensitive fuel conditions regexes lines)
        fun parsed => parsed.rest.length ≤ lines.length := by
  induction fuel with
  | zero =>
    intro conditions regexes lines
    cases lines with
    | nil => exact .pure (Nat.le_refl _)
    | cons line rest => exact .throw
  | succ fuel ih =>
    intro conditions regexes lines
    cases lines with
    | nil => exact .pure (Nat.le_refl _)
    | cons line rest =>
      refine (Gives.any _).bind fun _ _ => .ite ?_ (.ite ?_ (.pure (Nat.le_refl _)))
      · exact fun s => (ih conditions regexes rest s).mono (fun _ _ h => Nat.le_succ_of_le h)
          fun _ _ h => h
      · refine (Gives.any _).bind fun _ _ => ?_
        refine (gives_parseConditionLine words caseSensitive regexes line rest).bind
          fun parsed hparsed => ?_
        exact fun s => (ih _ _ parsed.rest s).mono
          (fun _ _ h => Nat.le_succ_of_le (Nat.le_trans h hparsed)) fun _ _ h => h

/-- The parser of a block leaves no more lines than there were. -/
def Shortens (parseBlock : BlockParser R H) : Prop :=
  ∀ depth lines, Gives (parseBlock depth lines) fun block => block.2.length ≤ lines.length

theorem gives_parseBlockAction {parseBlock : BlockParser R H} (hblock : Shortens parseBlock)
    (depth : Nat) (head : RecipeHead R) (rest : List RcLine) :
    Gives (parseBlockAction parseBlock depth head rest)
      fun parsed => parsed.2.length ≤ rest.length := by
  refine (Gives.any _).bind fun nextDepth _ => .ite .throw ?_
  refine (hblock nextDepth rest).bind fun block hlength => ?_
  exact (Gives.any _).bind fun _ _ => .pure hlength

theorem gives_parseAction {parseBlock : BlockParser R H} (hblock : Shortens parseBlock) (depth : Nat)
    (capture : Option (String × AssignmentTarget)) (head : RecipeHead R) (line : RcLine)
    (rest : List RcLine) :
    Gives (parseAction words parseBlock depth capture head line rest)
      fun parsed => parsed.2.length ≤ rest.length := by
  cases capture with
  | some capture =>
    refine (Gives.any _).bind fun _ _ => (Gives.any _).bind fun linebuf _ => ?_
    exact (gives_reading fun command => length_captureCommand).bind fun command hcommand =>
      .pure hcommand
  | none =>
    refine .ite ?_ (.ite ?_ (.ite (gives_parseBlockAction hblock depth head rest) (.ite .throw ?_)))
    · refine (Gives.any _).bind fun linebuf _ => ?_
      exact (gives_reading fun command => length_parsePipeCommand).bind fun command hcommand =>
        .ite .throw (.pure hcommand)
    · refine (Gives.any _).bind fun linebuf _ => ?_
      exact (gives_reading fun operations => length_parseHeaderAction words rest).bind
        fun operations hoperations => .pure hoperations
    · exact (Gives.any _).bind fun delivery _ => .pure (Nat.le_refl _)

theorem gives_parseRecipe {parseBlock : BlockParser R H} (hblock : Shortens parseBlock) (depth : Nat)
    (header : RcLine) (rest : List RcLine) :
    Gives (parseRecipe words parseBlock depth header rest)
      fun parsed => parsed.2.length ≤ rest.length := by
  unfold parseRecipe
  cases stripStart [':', '0'] (trim header.text) with
  | none => exact .throw
  | some text =>
    refine (Gives.any _).bind fun recipeHeader _ => ?_
    refine (gives_parseConditions words _ rest.length [] 0 rest).bind fun parsed hparsed => ?_
    rcases parsed with ⟨conditions, regexes, _ | ⟨line, remaining⟩⟩
    · exact .throw
    · refine (Gives.any _).bind fun _ _ => (Gives.any _).bind fun _ _ => (Gives.any _).bind fun _ _ =>
        (Gives.any _).bind fun capture _ => (Gives.any _).bind fun options _ => ?_
      exact fun s => (gives_parseAction words hblock depth capture _ line remaining s).mono
        (fun _ _ h => Nat.le_trans h (Nat.le_of_succ_le hparsed)) fun _ _ h => h

theorem shortens_parseStatements (total fuel : Nat) : Shortens (parseStatements words total fuel) := by
  induction fuel with
  | zero =>
    intro depth lines
    cases lines with
    | nil => exact .ite .throw (.pure (Nat.le_refl _))
    | cons line rest => exact .throw
  | succ fuel ih =>
    intro depth lines
    cases lines with
    | nil => exact .ite .throw (.pure (Nat.le_refl _))
    | cons line rest =>
      refine (Gives.any _).bind fun _ _ => .ite ?_ (.ite (.ite .throw (.pure (Nat.le_succ _))) ?_)
      · exact fun s => (ih depth rest s).mono (fun _ _ h => Nat.le_succ_of_le h) fun _ _ h => h
      · refine (Gives.any _).bind fun _ _ => .ite ?_ ?_
        · refine (Gives.any _).bind fun _ _ => ?_
          refine (gives_parseRecipe words ih depth line rest).bind fun recipe hrecipe => ?_
          refine (ih depth recipe.2).bind fun others hothers => .pure ?_
          exact Nat.le_succ_of_le (Nat.le_trans hothers hrecipe)
        · refine (Gives.any _).bind fun statement _ => ?_
          exact (ih depth rest).bind fun others hothers => .pure (Nat.le_succ_of_le hothers)

end Left

/-! ### One more step changes nothing -/

section Steps

variable {R H : Type} (words : RcWords R H)

theorem parseConditions_succ (caseSensitive : Bool) (fuel : Nat) :
    ∀ (conditions : List (Condition R)) (regexes : Nat) (lines : List RcLine), lines.length ≤ fuel →
      parseConditions words caseSensitive (fuel + 1) conditions regexes lines =
        parseConditions words caseSensitive fuel conditions regexes lines := by
  induction fuel with
  | zero =>
    intro conditions regexes lines hlength
    rw [List.length_eq_zero_iff.mp (Nat.le_zero.mp hlength)]
    rfl
  | succ fuel ih =>
    intro conditions regexes lines hlength
    cases lines with
    | nil => rfl
    | cons line rest =>
      have hrest : rest.length ≤ fuel := Nat.le_of_succ_le_succ hlength
      refine (Gives.any _).bind_congr fun _ _ => ?_
      dsimp only
      rw [ih conditions regexes rest hrest]
      refine if_congr Iff.rfl rfl (if_congr Iff.rfl ?_ rfl)
      refine (Gives.any _).bind_congr fun _ _ => ?_
      refine (gives_parseConditionLine words caseSensitive regexes line rest).bind_congr
        fun parsed hparsed => ?_
      exact ih _ _ _ (Nat.le_trans hparsed hrest)

/-- The conditions of a recipe are read with as many steps as there are lines behind its header. -/
theorem parseConditions_of_le (caseSensitive : Bool) (conditions : List (Condition R)) (regexes : Nat)
    (lines : List RcLine) {fuel : Nat} (h : lines.length ≤ fuel) :
    parseConditions words caseSensitive fuel conditions regexes lines =
      parseConditions words caseSensitive lines.length conditions regexes lines := by
  induction fuel, h using Nat.le_induction with
  | base => rfl
  | succ fuel hfuel ih =>
    rw [parseConditions_succ words caseSensitive fuel conditions regexes lines hfuel, ih]

/-- The parser of a recipe uses the parser of a block only on the lines behind its own. -/
theorem parseRecipe_congr {parseBlock parseBlock' : BlockParser R H} (depth : Nat) (header : RcLine)
    (rest : List RcLine)
    (h : ∀ depth lines, lines.length ≤ rest.length → parseBlock depth lines = parseBlock' depth lines) :
    parseRecipe words parseBlock depth header rest =
      parseRecipe words parseBlock' depth header rest := by
  unfold parseRecipe
  cases stripStart [':', '0'] (trim header.text) with
  | none => rfl
  | some text =>
    refine (Gives.any _).bind_congr fun recipeHeader _ => ?_
    refine (gives_parseConditions words _ rest.length [] 0 rest).bind_congr fun parsed hparsed => ?_
    rcases parsed with ⟨conditions, regexes, _ | ⟨line, remaining⟩⟩
    · rfl
    · refine (Gives.any _).bind_congr fun _ _ => (Gives.any _).bind_congr fun _ _ =>
        (Gives.any _).bind_congr fun _ _ => (Gives.any _).bind_congr fun capture _ =>
        (Gives.any _).bind_congr fun options _ => ?_
      cases capture with
      | some capture => rfl
      | none =>
        refine if_congr Iff.rfl rfl (if_congr Iff.rfl rfl (if_congr Iff.rfl ?_ rfl))
        refine (Gives.any _).bind_congr fun nextDepth _ => if_congr Iff.rfl rfl ?_
        rw [h nextDepth remaining (Nat.le_of_succ_le hparsed)]

theorem parseStatements_succ (total fuel : Nat) :
    ∀ (depth : Nat) (lines : List RcLine), lines.length ≤ fuel →
      parseStatements words total (fuel + 1) depth lines =
        parseStatements words total fuel depth lines := by
  induction fuel with
  | zero =>
    intro depth lines hlength
    rw [List.length_eq_zero_iff.mp (Nat.le_zero.mp hlength)]
    rfl
  | succ fuel ih =>
    intro depth lines hlength
    cases lines with
    | nil => rfl
    | cons line rest =>
      have hrest : rest.length ≤ fuel := Nat.le_of_succ_le_succ hlength
      refine (Gives.any _).bind_congr fun _ _ => ?_
      dsimp only
      refine if_congr Iff.rfl (ih depth rest hrest) (if_congr Iff.rfl rfl ?_)
      refine (Gives.any _).bind_congr fun _ _ => if_congr Iff.rfl ?_ ?_
      · refine (Gives.any _).bind_congr fun _ _ => ?_
        rw [parseRecipe_congr words depth line rest fun depth lines hlines =>
          ih depth lines (Nat.le_trans hlines hrest)]
        refine (gives_parseRecipe words (shortens_parseStatements words total fuel) depth line
          rest).bind_congr fun recipe hrecipe => ?_
        rw [ih depth recipe.2 (Nat.le_trans hrecipe hrest)]
      · refine (Gives.any _).bind_congr fun statement _ => ?_
        rw [ih depth rest hrest]

/-- Any bound that is at least the number of lines is never reached. -/
theorem parseStatements_of_le (total depth : Nat) (lines : List RcLine) {fuel : Nat}
    (h : lines.length ≤ fuel) :
    parseStatements words total fuel depth lines =
      parseStatements words total lines.length depth lines := by
  induction fuel, h using Nat.le_induction with
  | base => rfl
  | succ fuel hfuel ih => rw [parseStatements_succ words total fuel depth lines hfuel, ih]

end Steps

end ProcmailRs.Config
