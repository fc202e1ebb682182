import ProcmailRs.Config.Proofs.ReadingProofs
import ProcmailRs.Lib.Refinement

/-!
# Expanding a condition early and late

A condition that is static at every pass gives the same condition whether it is expanded when the rc
file is prepared or when it is tested, unless its chain of conditions ends with the last pass of the
late expansion, which the early one does not have, or a text of the chain has an assignment.
-/

namespace ProcmailRs.Config

open Outcome (Ends)

/-! ### What a static expression lacks -/

section Analysis

variable {known : Lookup} {dynamic : String → Bool}

/-- An operation that needs a value has no use for its word without one. -/
theorem evaluatesWord_of_requiresValue {operation : ParameterOperation}
    (h : operation.requiresValue = true) (isEmpty : Bool) :
    operation.evaluatesWord false isEmpty = false := by
  cases operation with
  | DefaultIfUnset | DefaultIfUnsetOrEmpty | AlternateIfSet | AlternateIfSetAndNotEmpty
  | AssignIfUnsetOrEmpty | ErrorIfUnsetOrEmpty => cases h
  | Value | Length | RemovePrefix | RemoveSuffix | ChangeCase => rfl

theorem wordMayRun_of_missing {name : String} {operation : ParameterOperation}
    (havailable : availableAtRuntime known dynamic name = false)
    (hvalue : operation.requiresValue = true) : wordMayRun known dynamic name operation = false := by
  have hunknown : known name = none := by
    unfold availableAtRuntime at havailable
    simp only [Bool.or_eq_false_iff] at havailable
    simpa using havailable.1.1
  unfold wordMayRun
  rw [hunknown]
  dsimp only
  rw [if_neg (by simp [havailable])]
  exact evaluatesWord_of_requiresValue hvalue false

mutual

theorem ShellPart.missing_of_static (part : ShellPart)
    (h : part.shellConditionStatic known dynamic = true) :
    part.missingShellCondition known dynamic = none := by
  cases part with
  | Literal text => rfl
  | Command command => rfl
  | RegexQuotedVariable name =>
    unfold ShellPart.shellConditionStatic at h
    unfold ShellPart.missingShellCondition availableAtRuntime
    simp only [Bool.and_eq_true] at h
    simp [h.1.1]
  | PatternQuote expression =>
    unfold ShellPart.shellConditionStatic at h
    unfold ShellPart.missingShellCondition
    exact missing_of_static expression h
  | Variable name operation word =>
    unfold ShellPart.shellConditionStatic at h
    unfold ShellPart.missingShellCondition
    by_cases hruntime : (dynamic name || variablePolicy name = .RuntimeOnly) = true
    · rw [if_pos hruntime] at h
      cases h
    · rw [if_neg hruntime] at h
      have hpresent : (!availableAtRuntime known dynamic name && operation.requiresValue) = false := by
        by_cases hword : wordMayRun known dynamic name operation = true
        · by_contra hmissing
          simp only [Bool.not_eq_false, Bool.and_eq_true, Bool.not_eq_true'] at hmissing
          rw [wordMayRun_of_missing hmissing.1 hmissing.2] at hword
          cases hword
        · rw [if_neg hword] at h
          revert h
          cases availableAtRuntime known dynamic name <;> cases operation.requiresValue <;> simp
      rw [if_neg (by simp [hpresent])]
      by_cases hword : wordMayRun known dynamic name operation = true
      · rw [if_pos hword] at h ⊢
        exact missing_of_static word h
      · rw [if_neg hword]

/-- An expression that is static reads no name without a value. -/
theorem missing_of_static (expression : ShellExpression)
    (h : shellConditionStatic known dynamic expression = true) :
    missingShellCondition known dynamic expression = none := by
  cases expression with
  | nil => rfl
  | cons part parts =>
    unfold shellConditionStatic at h
    rw [Bool.and_eq_true] at h
    unfold missingShellCondition
    rw [ShellPart.missing_of_static part h.1, missing_of_static parts h.2]
    rfl

end

theorem validate_of_static {expression : ShellExpression} {line : Nat}
    (h : shellConditionStatic known dynamic expression = true) :
    validateShellConditionReferences known dynamic expression line = .ok () := by
  unfold validateShellConditionReferences
  rw [missing_of_static expression h]

end Analysis

/-! ### The chain of conditions -/

/-- The text of a condition that has to be expanded. -/
def ConditionKind.shellSource {R : Type} : ConditionKind R → Option Bytes
  | .ShellExpanded source => some source
  | _ => none

section Chain

variable {R H : Type} (words : RcWords R H) (runtime : RuntimeVariables) (line : Nat)
  (caseSensitive : Bool)

/-- The condition that the value of a text is. -/
def nextCondition (source : Bytes) : Option (Condition R) :=
  (expandShellCondition source line runtime).toOption.bind fun expanded =>
    (parseReparsedCondition words (trimStart expanded) line caseSensitive).toOption

/-- The condition that comes out of the chain needs exactly `n` expansions. -/
def EndsAfter : Nat → Bytes → Prop
  | 0, _ => False
  | n + 1, source => ∃ parsed, nextCondition words runtime line caseSensitive source = some parsed ∧
      match parsed.kind.shellSource with
      | none => n = 0
      | some rest => EndsAfter n rest

/-- The text of a condition assigns a variable. -/
def textAssigns (source : Bytes) : Bool :=
  match parseShellConditionExpression source line with
  | .error _ => false
  | .ok expression => hasAssignments expression

/-- The first `n` texts of the chain have no assignments. -/
def AssignmentFree : Nat → Bytes → Prop
  | 0, _ => True
  | n + 1, source => textAssigns line source = false ∧
      ∀ parsed rest, nextCondition words runtime line caseSensitive source = some parsed →
        parsed.kind.shellSource = some rest → AssignmentFree n rest

/-- The names that the expansion of a text reads. -/
def textReads (source : Bytes) : List String :=
  match parseShellConditionExpression source line with
  | .error _ => []
  | .ok expression => reads runtime.getBytes (hasAssignments expression) expression

/-- The variables of another moment have the same values for what the first `n` texts of the chain read. -/
def sameReads (other : RuntimeVariables) : Nat → Bytes → Bool
  | 0, _ => true
  | n + 1, source =>
    (textReads runtime line source).all (fun name => other.getBytes name = runtime.getBytes name) &&
      match (nextCondition words runtime line caseSensitive source).bind
          fun parsed => parsed.kind.shellSource with
      | none => true
      | some rest => sameReads other n rest

variable (known : Lookup) (dynamic : String → Bool)

/-- The value of the text of a condition is known before the run. -/
def staticText (source : Bytes) : Bool :=
  match parseShellConditionExpression source line with
  | .error _ => true
  | .ok expression => hasAssignments expression || shellConditionStatic known dynamic expression

/-- Preparation takes the texts of the chain for static, as far as it looks at them: it looks at nothing
behind a text that it refuses for an assignment. -/
def staticPasses : Nat → Bytes → Bool
  | 0, source => staticText line known dynamic source
  | rounds + 1, source => staticText line known dynamic source && (textAssigns line source ||
      match (nextCondition words runtime line caseSensitive source).bind
          fun parsed => parsed.kind.shellSource with
      | none => true
      | some rest => staticPasses rounds rest)

end Chain

/-! ### One pass -/

section Passes

variable {R H : Type} {words : RcWords R H} {runtime : RuntimeVariables} {caseSensitive : Bool}
  {known : Lookup} {dynamic : String → Bool}

/-- The expansion of a text while conditions are tested. -/
def expandLate (runtime : RuntimeVariables) (source : Bytes) (line : Nat) : Except EvalError Text :=
  (expandShellCondition source line runtime).mapError .Expansion

theorem toOption_resolveRounds (n line : Nat) (source : Bytes) (negated : Bool) :
    (resolveRounds words (expandLate runtime) id line caseSensitive (n + 1) source negated).toOption =
      (nextCondition words runtime line caseSensitive source).bind fun parsed =>
        match parsed.kind.shellSource with
        | none => some { parsed with negated := negated != parsed.negated }
        | some rest => (resolveRounds words (expandLate runtime) id line caseSensitive n rest
            (negated != parsed.negated)).toOption := by
  unfold nextCondition
  rw [resolveRounds, expandLate, toOption_bind, toOption_mapError, Option.bind_assoc]
  congr 1
  funext expanded
  rw [toOption_bind, toOption_mapError]
  congr 1
  funext parsed
  cases parsed.kind with
  | ShellExpanded next => rfl
  | Regex | SmallerThan | LargerThan | Program | Multipart => rfl

/-- The line of a condition is the one it is parsed at. -/
theorem gives_line (input : Text) (line regexes : Nat) :
    Outcome.Gives (parseCondition words input line caseSensitive regexes)
      fun parsed => parsed.1.line = line := by
  unfold parseCondition
  refine .ite .throw (.ite .throw ((Outcome.Gives.any _).bind ?_))
  intro kind _
  cases kind with
  | some kind => exact .pure rfl
  | none =>
    refine (Outcome.Gives.any _).bind ?_
    intro parsed _
    exact .pure rfl

theorem line_of_nextCondition {line : Nat} {source : Bytes} {parsed : Condition R}
    (h : nextCondition words runtime line caseSensitive source = some parsed) :
    parsed.line = line := by
  obtain ⟨expanded, -, hparsed⟩ := Option.bind_eq_some_iff.mp h
  unfold parseReparsedCondition at hparsed
  have hline := @gives_line R H words caseSensitive (trimStart expanded) line 0 ⟨.default, []⟩
  unfold Ends at hline
  cases hrun : parseCondition words (trimStart expanded) line caseSensitive 0 ⟨.default, []⟩ with
  | error e state =>
    rw [hrun] at hparsed
    cases hparsed
  | ok result state =>
    rw [hrun] at hparsed hline
    cases hparsed
    exact hline

theorem toOption_prepareRounds {n : Nat} {condition : Condition R} {source : Bytes}
    {expression : ShellExpression} (hkind : condition.kind = .ShellExpanded source)
    (hparse : parseShellConditionExpression source condition.line = .ok expression)
    (hfree : hasAssignments expression = false)
    (hstatic : shellConditionStatic known dynamic expression = true) :
    (prepareRounds words known dynamic runtime caseSensitive (n + 1) condition).toOption =
      (nextCondition words runtime condition.line caseSensitive source).bind fun parsed =>
        (prepareRounds words known dynamic runtime caseSensitive n
          { condition with
            negated := condition.negated != parsed.negated, kind := parsed.kind }).toOption := by
  have hreject : rejectParameterAssignments expression condition.line "shell-expanded condition" =
      .ok () := if_neg (by simp [hfree])
  conv_lhs => unfold prepareRounds
  rw [hkind]
  dsimp only
  rw [hparse, ok_bind, hreject, ok_bind, validate_of_static hstatic, ok_bind, hstatic]
  unfold nextCondition expandShellCondition
  rw [hparse, ok_bind]
  simp only [Bool.not_true, if_neg Bool.false_ne_true]
  rw [toOption_bind, Option.bind_assoc]
  congr 1
  funext expanded
  rw [toOption_bind, toOption_mapError]

theorem prepareRounds_of_resolved {n : Nat} {condition : Condition R}
    (h : condition.kind.shellSource = none) :
    prepareRounds words known dynamic runtime caseSensitive n condition = .ok condition := by
  unfold prepareRounds
  cases hkind : condition.kind with
  | ShellExpanded source =>
    rw [hkind] at h
    cases h
  | Regex | SmallerThan | LargerThan | Program | Multipart => rfl

theorem prepareRounds_of_assigns {n : Nat} {condition : Condition R} {source : Bytes}
    {expression : ShellExpression} (hkind : condition.kind = .ShellExpanded source)
    (hparse : parseShellConditionExpression source condition.line = .ok expression)
    (hassigns : hasAssignments expression = true) :
    (prepareRounds words known dynamic runtime caseSensitive n condition).toOption = none := by
  unfold prepareRounds rejectParameterAssignments
  rw [hkind]
  dsimp only
  rw [hparse, ok_bind, if_pos hassigns]
  rfl

theorem prepareRounds_of_unparsed {n : Nat} {condition : Condition R} {source : Bytes}
    {e : ExpansionError} (hkind : condition.kind = .ShellExpanded source)
    (hparse : parseShellConditionExpression source condition.line = .error e) :
    (prepareRounds words known dynamic runtime caseSensitive n condition).toOption = none := by
  unfold prepareRounds
  rw [hkind]
  dsimp only
  rw [hparse]
  rfl

/-- With no pass left, a static condition is refused. -/
theorem prepareRounds_zero {condition : Condition R} {source : Bytes}
    {expression : ShellExpression} (hkind : condition.kind = .ShellExpanded source)
    (hparse : parseShellConditionExpression source condition.line = .ok expression)
    (hstatic : hasAssignments expression = false →
      shellConditionStatic known dynamic expression = true) :
    (prepareRounds words known dynamic runtime caseSensitive 0 condition).toOption = none := by
  cases hassigns : hasAssignments expression with
  | true => exact prepareRounds_of_assigns hkind hparse hassigns
  | false =>
    have hreject : rejectParameterAssignments expression condition.line "shell-expanded condition" =
        .ok () := if_neg (by simp [hassigns])
    unfold prepareRounds
    rw [hkind]
    dsimp only
    rw [hparse, ok_bind, hreject, ok_bind, validate_of_static (hstatic hassigns), ok_bind,
      hstatic hassigns]
    rfl

theorem nextCondition_of_unparsed {line : Nat} {source : Bytes} {e : ExpansionError}
    (h : parseShellConditionExpression source line = .error e) :
    nextCondition words runtime line caseSensitive source = none := by
  unfold nextCondition expandShellCondition
  rw [h]
  rfl

/-! ### All passes -/

/-- The late expansion gives a condition when the chain ends within its passes. -/
theorem resolveRounds_eq_none_iff (n line : Nat) (source : Bytes) (negated : Bool) :
    (resolveRounds words (expandLate runtime) id line caseSensitive n source negated).toOption = none ↔
      ∀ k ≤ n, ¬ EndsAfter words runtime line caseSensitive k source := by
  induction n generalizing source negated with
  | zero =>
    constructor
    · intro _ k hk
      obtain rfl : k = 0 := by omega
      exact id
    · intro _
      rfl
  | succ n ih =>
    rw [toOption_resolveRounds]
    cases hnext : nextCondition words runtime line caseSensitive source with
    | none =>
      simp only [Option.bind_none, true_iff]
      intro k _ hends
      cases k with
      | zero => exact hends
      | succ k =>
        obtain ⟨parsed, hparsed, -⟩ := hends
        rw [hnext] at hparsed
        cases hparsed
    | some parsed =>
      rw [Option.bind_some]
      cases hsource : parsed.kind.shellSource with
      | none =>
        constructor
        · intro h
          cases h
        · intro h
          exact absurd ⟨parsed, hnext, by rw [hsource]⟩ (h 1 (by omega))
      | some rest =>
        dsimp only
        rw [ih]
        constructor
        · intro h k hk hends
          cases k with
          | zero => exact hends
          | succ k =>
            obtain ⟨other, hother, hrest⟩ := hends
            rw [hnext] at hother
            cases hother
            rw [hsource] at hrest
            exact h k (by omega) hrest
        · intro h k hk hends
          exact h (k + 1) (by omega) ⟨parsed, hnext, by rw [hsource]; exact hends⟩

/-- The chain does not end with the pass that only the late expansion has, and no text of a chain that
ends before it has an assignment. -/
def Agreeable (words : RcWords R H) (runtime : RuntimeVariables) (line : Nat) (caseSensitive : Bool)
    (rounds : Nat) (source : Bytes) : Prop :=
  ¬ EndsAfter words runtime line caseSensitive (rounds + 1) source ∧
    ∀ k ≤ rounds, EndsAfter words runtime line caseSensitive k source →
      AssignmentFree words runtime line caseSensitive k source

theorem not_endsAfter_of_none {line k : Nat} {source : Bytes}
    (h : nextCondition words runtime line caseSensitive source = none) :
    ¬ EndsAfter words runtime line caseSensitive k source := by
  intro hends
  cases k with
  | zero => exact hends
  | succ k =>
    obtain ⟨parsed, hparsed, -⟩ := hends
    rw [h] at hparsed
    cases hparsed

theorem agreeable_of_none {line rounds : Nat} {source : Bytes}
    (h : nextCondition words runtime line caseSensitive source = none) :
    Agreeable words runtime line caseSensitive rounds source :=
  ⟨not_endsAfter_of_none h, fun _ _ hends => absurd hends (not_endsAfter_of_none h)⟩

theorem endsAfter_succ_iff {line k : Nat} {source : Bytes} {parsed : Condition R}
    (h : nextCondition words runtime line caseSensitive source = some parsed) :
    EndsAfter words runtime line caseSensitive (k + 1) source ↔
      match parsed.kind.shellSource with
      | none => k = 0
      | some rest => EndsAfter words runtime line caseSensitive k rest := by
  constructor
  · rintro ⟨other, hother, hends⟩
    rw [h] at hother
    cases hother
    exact hends
  · intro hends
    exact ⟨parsed, h, hends⟩

theorem assignmentFree_succ_iff {line k : Nat} {source rest : Bytes} {parsed : Condition R}
    (h : nextCondition words runtime line caseSensitive source = some parsed)
    (hsource : parsed.kind.shellSource = some rest) :
    AssignmentFree words runtime line caseSensitive (k + 1) source ↔
      textAssigns line source = false ∧ AssignmentFree words runtime line caseSensitive k rest := by
  constructor
  · rintro ⟨hfree, hrest⟩
    exact ⟨hfree, hrest parsed rest h hsource⟩
  · rintro ⟨hfree, hrest⟩
    refine ⟨hfree, ?_⟩
    intro other otherRest hother hotherSource
    rw [h] at hother
    cases hother
    rw [hsource] at hotherSource
    cases hotherSource
    exact hrest

/-- A text with an assignment makes preparation fail, and no shorter chain excuses it. -/
theorem agreeable_iff_of_assigns {line rounds : Nat} {source : Bytes}
    (h : textAssigns line source = true) :
    Agreeable words runtime line caseSensitive rounds source ↔
      ∀ k ≤ rounds + 1, ¬ EndsAfter words runtime line caseSensitive k source := by
  constructor
  · rintro ⟨hlast, hfree⟩ k hk hends
    by_cases heq : k = rounds + 1
    · subst heq
      exact hlast hends
    · have hassigns := hfree k (by omega) hends
      cases k with
      | zero => exact hends
      | succ k =>
        rw [hassigns.1] at h
        cases h
  · intro hnone
    refine ⟨hnone (rounds + 1) le_rfl, ?_⟩
    intro k hk hends
    exact absurd hends (hnone k (by omega))

/-- A text without an assignment leaves the question to the rest of the chain. -/
theorem agreeable_succ_iff {line rounds : Nat} {source rest : Bytes} {parsed : Condition R}
    (h : nextCondition words runtime line caseSensitive source = some parsed)
    (hsource : parsed.kind.shellSource = some rest) (hfree : textAssigns line source = false) :
    Agreeable words runtime line caseSensitive (rounds + 1) source ↔
      Agreeable words runtime line caseSensitive rounds rest := by
  have hends (k : Nat) : EndsAfter words runtime line caseSensitive (k + 1) source ↔
      EndsAfter words runtime line caseSensitive k rest := by
    rw [endsAfter_succ_iff h, hsource]
  unfold Agreeable
  rw [hends]
  constructor
  · rintro ⟨hlast, hall⟩
    refine ⟨hlast, ?_⟩
    intro k hk hrest
    exact ((assignmentFree_succ_iff h hsource).mp
      (hall (k + 1) (by omega) ((hends k).mpr hrest))).2
  · rintro ⟨hlast, hall⟩
    refine ⟨hlast, ?_⟩
    intro k hk hsourceEnds
    cases k with
    | zero => exact trivial
    | succ k =>
      exact (assignmentFree_succ_iff h hsource).mpr
        ⟨hfree, hall k (by omega) ((hends k).mp hsourceEnds)⟩

theorem agreeable_of_resolved {line rounds : Nat} {source : Bytes} {parsed : Condition R}
    (h : nextCondition words runtime line caseSensitive source = some parsed)
    (hsource : parsed.kind.shellSource = none) (hfree : textAssigns line source = false) :
    Agreeable words runtime line caseSensitive (rounds + 1) source := by
  have hends (k : Nat) : EndsAfter words runtime line caseSensitive (k + 1) source ↔ k = 0 := by
    rw [endsAfter_succ_iff h, hsource]
  refine ⟨?_, ?_⟩
  · rw [hends]
    omega
  · intro k hk hsourceEnds
    cases k with
    | zero => exact trivial
    | succ k =>
      obtain rfl := (hends k).mp hsourceEnds
      refine ⟨hfree, ?_⟩
      intro other rest hother hrest
      rw [h] at hother
      cases hother
      rw [hsource] at hrest
      cases hrest

theorem static_of_staticText {line : Nat} {source : Bytes} {expression : ShellExpression}
    (h : staticText line known dynamic source = true)
    (hparse : parseShellConditionExpression source line = .ok expression)
    (hfree : hasAssignments expression = false) :
    shellConditionStatic known dynamic expression = true := by
  unfold staticText at h
  rw [hparse] at h
  dsimp only at h
  rwa [hfree, Bool.false_or] at h

theorem staticPasses_rest {n line : Nat} {source rest : Bytes} {parsed : Condition R}
    (h : staticPasses words runtime line caseSensitive known dynamic (n + 1) source = true)
    (hfree : textAssigns line source = false)
    (hnext : nextCondition words runtime line caseSensitive source = some parsed)
    (hsource : parsed.kind.shellSource = some rest) :
    staticPasses words runtime line caseSensitive known dynamic n rest = true := by
  unfold staticPasses at h
  rw [hfree, hnext, Option.bind_some, hsource, Bool.false_or, Bool.and_eq_true] at h
  exact h.2

/-- Both expansions of a text, with the passes that each of them has left. -/
theorem rounds_agree_iff {n line : Nat} {source : Bytes} (negated : Bool)
    (hstatic : staticPasses words runtime line caseSensitive known dynamic n source = true) :
    (prepareRounds words known dynamic runtime caseSensitive n
        ⟨line, negated, .ShellExpanded source⟩).toOption =
      (resolveRounds words (expandLate runtime) id line caseSensitive (n + 1) source negated).toOption ↔
    Agreeable words runtime line caseSensitive n source := by
  induction n generalizing source negated with
  | zero =>
    cases hparse : parseShellConditionExpression source line with
    | error e =>
      have hnone := @nextCondition_of_unparsed R H words runtime caseSensitive line source e hparse
      rw [prepareRounds_of_unparsed rfl hparse, toOption_resolveRounds, hnone]
      exact iff_of_true rfl (agreeable_of_none hnone)
    | ok expression =>
      have hrefused := @prepareRounds_zero R H words runtime caseSensitive known dynamic
        ⟨line, negated, .ShellExpanded source⟩ source expression rfl hparse
        fun hfree => static_of_staticText hstatic hparse hfree
      rw [hrefused, eq_comm, resolveRounds_eq_none_iff]
      constructor
      · intro hnone
        refine ⟨hnone 1 le_rfl, ?_⟩
        intro k hk hends
        exact absurd hends (hnone k (by omega))
      · rintro ⟨hlast, -⟩ k hk hends
        obtain rfl | rfl : k = 0 ∨ k = 1 := by omega
        · exact hends
        · exact hlast hends
  | succ n ih =>
    cases hparse : parseShellConditionExpression source line with
    | error e =>
      have hnone := @nextCondition_of_unparsed R H words runtime caseSensitive line source e hparse
      rw [prepareRounds_of_unparsed rfl hparse, toOption_resolveRounds, hnone]
      exact iff_of_true rfl (agreeable_of_none hnone)
    | ok expression =>
      have htext : textAssigns line source = hasAssignments expression := by
        unfold textAssigns
        rw [hparse]
      cases hassigns : hasAssignments expression with
      | true =>
        rw [prepareRounds_of_assigns rfl hparse hassigns, eq_comm, resolveRounds_eq_none_iff,
          agreeable_iff_of_assigns (htext.trans hassigns)]
      | false =>
        have htexts := hstatic
        unfold staticPasses at htexts
        rw [Bool.and_eq_true] at htexts
        have hnow := static_of_staticText htexts.1 hparse hassigns
        rw [toOption_prepareRounds rfl hparse hassigns hnow, toOption_resolveRounds]
        cases hnext : nextCondition words runtime line caseSensitive source with
        | none => exact iff_of_true rfl (agreeable_of_none hnext)
        | some parsed =>
          rw [Option.bind_some, Option.bind_some]
          cases hsource : parsed.kind.shellSource with
          | none =>
            have hresolved := @prepareRounds_of_resolved R H words runtime caseSensitive known dynamic n
              ⟨line, negated != parsed.negated, parsed.kind⟩ hsource
            have hline := line_of_nextCondition hnext
            refine iff_of_true ?_ (agreeable_of_resolved hnext hsource (htext.trans hassigns))
            rw [hresolved]
            show some _ = some _
            rw [hline]
          | some rest =>
            have hkind : parsed.kind = .ShellExpanded rest := by
              revert hsource
              cases parsed.kind with
              | ShellExpanded source =>
                rintro ⟨⟩
                rfl
              | Regex | SmallerThan | LargerThan | Program | Multipart =>
                intro hsource
                cases hsource
            rw [agreeable_succ_iff hnext hsource (htext.trans hassigns), hkind]
            exact ih (negated != parsed.negated)
              (staticPasses_rest hstatic (htext.trans hassigns) hnext hsource)

section Reads

variable {other : RuntimeVariables} {line : Nat} {source : Bytes}
  (hlinebuf : other.get "LINEBUF" = runtime.get "LINEBUF")

include hlinebuf

theorem nextCondition_congr
    (hreads : ∀ name ∈ textReads runtime line source, other.getBytes name = runtime.getBytes name) :
    nextCondition words other line caseSensitive source =
      nextCondition words runtime line caseSensitive source := by
  unfold nextCondition expandShellCondition
  unfold textReads at hreads
  cases hparse : parseShellConditionExpression source line with
  | error e =>
    show none = none
    rfl
  | ok expression =>
    rw [hparse] at hreads
    rw [ok_bind, ok_bind, expandExpression_congr hlinebuf hreads]

/-- The late expansion depends on what the texts of the chain read. -/
theorem toOption_resolveRounds_congr {n : Nat} (negated : Bool)
    (h : sameReads words runtime line caseSensitive other n source = true) :
    (resolveRounds words (expandLate other) id line caseSensitive n source negated).toOption =
      (resolveRounds words (expandLate runtime) id line caseSensitive n source negated).toOption := by
  induction n generalizing source negated with
  | zero => rw [resolveRounds, resolveRounds]
  | succ n ih =>
    unfold sameReads at h
    rw [Bool.and_eq_true, List.all_eq_true] at h
    obtain ⟨hreads, hrest⟩ := h
    rw [toOption_resolveRounds, toOption_resolveRounds,
      nextCondition_congr hlinebuf fun name hname => by simpa using hreads name hname]
    cases hnext : nextCondition words runtime line caseSensitive source with
    | none => rw [Option.bind_none, Option.bind_none]
    | some parsed =>
      rw [hnext, Option.bind_some] at hrest
      rw [Option.bind_some, Option.bind_some]
      cases hsource : parsed.kind.shellSource with
      | none =>
        show some _ = some _
        rfl
      | some rest =>
        rw [hsource] at hrest
        exact ih _ hrest

end Reads

/-- A condition that preparation takes for static at every pass is the same condition, or fails,
whether it is expanded early or late, if and only if its chain does not end with the one pass that only
the late expansion has, and no text of a chain that ends before has an assignment. -/
theorem expansion_agrees_iff {processId : Bytes} {condition : Condition R} {source : Bytes}
    (hkind : condition.kind = .ShellExpanded source)
    (hlinebuf : runtime.get "LINEBUF" = (preparationRuntime processId known).get "LINEBUF")
    (hreads : sameReads words (preparationRuntime processId known) condition.line caseSensitive runtime
      (maxExpansionDepth + 1) source = true)
    (hstatic : staticPasses words (preparationRuntime processId known) condition.line caseSensitive
      known dynamic maxExpansionDepth source = true) :
    (prepareShellConditions words processId known dynamic caseSensitive [condition]).toOption =
        (resolveShellExpansion words runtime caseSensitive condition).toOption.map Option.toList ↔
      Agreeable words (preparationRuntime processId known) condition.line caseSensitive
        maxExpansionDepth source := by
  have hcondition : condition = ⟨condition.line, condition.negated, .ShellExpanded source⟩ := by
    rw [← hkind]
  have hearly : (prepareShellConditions words processId known dynamic caseSensitive
      [condition]).toOption = (prepareRounds words known dynamic (preparationRuntime processId known)
        caseSensitive maxExpansionDepth condition).toOption.map fun result => [result] := by
    unfold prepareShellConditions
    rw [List.mapM_cons, List.mapM_nil, toOption_bind]
    cases prepareRounds words known dynamic (preparationRuntime processId known) caseSensitive
        maxExpansionDepth condition with
    | error e => rfl
    | ok result => rfl
  have hlate : (resolveShellExpansion words runtime caseSensitive condition).toOption =
      (resolveRounds words (expandLate (preparationRuntime processId known)) id condition.line
        caseSensitive (maxExpansionDepth + 1) source condition.negated).toOption.map some := by
    have hrun : resolveShellExpansion words runtime caseSensitive condition =
        (do return some (← resolveRounds words (expandLate runtime) id condition.line caseSensitive
          (maxExpansionDepth + 1) source condition.negated)) := by
      unfold resolveShellExpansion resolveShellExpansionWith
      rw [hkind]
      rfl
    rw [hrun, toOption_bind, ← toOption_resolveRounds_congr hlinebuf condition.negated hreads]
    cases resolveRounds words (expandLate runtime) id condition.line caseSensitive
        (maxExpansionDepth + 1) source condition.negated with
    | error e => rfl
    | ok result => rfl
  have hlist : Option.toList ∘ some = fun result : Condition R => [result] := rfl
  have hinjective : Function.Injective fun result : Condition R => [result] :=
    fun a b h => List.singleton_inj.mp h
  rw [hearly, hlate, Option.map_map, hlist, (Option.map_injective hinjective).eq_iff, hcondition]
  exact rounds_agree_iff condition.negated hstatic

end Passes

/-- No piece of a line means anything. -/
def noWords : RcWords Unit Unit where
  assignmentWord _ := .error ⟨"", false⟩
  commandExpression _ := .error ⟨"", false⟩
  conditionRegex _ _ := .error ⟨"", false⟩
  multipartRegex _ _ := .error ⟨"", false⟩
  headerOperation _ := .error ⟨"", false⟩

/-- The only variable has a size condition as its value. -/
def knownSize : Lookup := fun name => if name = "A" then some (strBytes "! <5") else none

/-- The variables of a run that has begun: the rc file is known, and a command and a condition have left
something behind. -/
def runtimeSize : RuntimeVariables :=
  ({ preparationRuntime (strBytes "9") knownSize with
    lastCommandStatus := strBytes "1"
    currentRcFile := some (strBytes "rc") }).set "MATCH" (strBytes "list")

theorem expansion_agrees_size :
    (prepareShellConditions noWords (strBytes "7") knownSize (fun _ => false) true
        [⟨1, true, .ShellExpanded (strBytes " $A")⟩]).toOption =
      (resolveShellExpansion noWords runtimeSize true
        ⟨1, true, .ShellExpanded (strBytes " $A")⟩).toOption.map Option.toList ↔
    Agreeable noWords (preparationRuntime (strBytes "7") knownSize) 1 true maxExpansionDepth
      (strBytes " $A") := by
  refine @expansion_agrees_iff Unit Unit noWords _ true knownSize (fun _ => false) (strBytes "7")
    ⟨1, true, .ShellExpanded (strBytes " $A")⟩ (strBytes " $A") rfl rfl ?_ ?_
  · decide +kernel
  · decide +kernel

/-- A size condition behind a chain of 33 dollar signs, the first of which makes it a condition that is
expanded. -/
def dollarChain : Bytes := (List.replicate 32 (strBytes " $")).flatten ++ strBytes " <5"

/-- Every pass is static, and the chain ends with the pass that only the late expansion has. -/
theorem last_pass_only_late :
    staticPasses noWords (preparationRuntime (strBytes "7") fun _ => none) 1 true (fun _ => none)
        (fun _ => false) maxExpansionDepth dollarChain = true ∧
      (prepareShellConditions noWords (strBytes "7") (fun _ => none) (fun _ => false) true
        [⟨1, false, .ShellExpanded dollarChain⟩]).toOption ≠
      (resolveShellExpansion noWords (preparationRuntime (strBytes "7") fun _ => none) true
        ⟨1, false, .ShellExpanded dollarChain⟩).toOption.map Option.toList := by
  have hpasses : staticPasses noWords (preparationRuntime (strBytes "7") fun _ => none) 1 true (fun _ => none)
        (fun _ => false) maxExpansionDepth dollarChain = true ∧
      (prepareShellConditions noWords (strBytes "7") (fun _ => none) (fun _ => false) true
        [⟨1, false, .ShellExpanded dollarChain⟩]).toOption.isSome = false ∧
      (resolveShellExpansion noWords (preparationRuntime (strBytes "7") fun _ => none) true
        ⟨1, false, .ShellExpanded dollarChain⟩).toOption.isSome = true := by decide +kernel
  obtain ⟨hstatic, hearly, hlate⟩ := hpasses
  refine ⟨hstatic, fun h => ?_⟩
  rw [h, Option.isSome_map, hlate] at hearly
  cases hearly

end ProcmailRs.Config
