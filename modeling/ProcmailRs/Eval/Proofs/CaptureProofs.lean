import ProcmailRs.Eval.Proofs.ConditionProofs
import ProcmailRs.Proofs.VisitProofs

/-!
# Conditions without captures

The match variables belong to the last condition with captures that matched. A condition whose regular
expressions capture nothing has no values for them and is to leave those of an earlier condition alone.
All conditions do, except one on the parts of the message: it clears the match variables whenever it
finds no part, and when it is negated and finds one.
-/

namespace ProcmailRs

open Outcome

namespace RuntimeVariables

/-- `MATCH` and every `MATCHn` are what they were. -/
def MatchKept (before after : RuntimeVariables) : Prop :=
  ∀ name, isMatchVariable name = true →
    after.get name = before.get name ∧ after.getBytes name = before.getBytes name

/-- Neither `MATCH` nor any `MATCHn` has a value. -/
def NoMatchValues (runtime : RuntimeVariables) : Prop :=
  ∀ name, isMatchVariable name = true → runtime.getBytes name = none

theorem MatchKept.refl (runtime : RuntimeVariables) : MatchKept runtime runtime :=
  fun _ _ => ⟨rfl, rfl⟩

theorem head_of_isMatchVariable {name : String} (h : isMatchVariable name = true) :
    ∃ rest, name.toList = 'M' :: rest := by
  rcases Bool.or_eq_true_iff.mp h with hmatch | hnumbered
  · have heq : name = "MATCH" := by simpa using hmatch
    exact ⟨['A', 'T', 'C', 'H'], by rw [heq]; rfl⟩
  · unfold isNumberedMatch at hnumbered
    rw [Bool.and_eq_true, Bool.and_eq_true, List.isPrefixOf_iff_prefix] at hnumbered
    obtain ⟨rest, hrest⟩ := hnumbered.1.1
    exact ⟨"ATCH".toList ++ rest, by rw [← hrest]; rfl⟩

/-- No match variable has a special meaning or a value without being set. -/
theorem lookup_of_isMatchVariable (runtime : RuntimeVariables)
    (read : RuntimeValue → Option Bytes) {name : String} (h : isMatchVariable name = true) :
    runtime.lookup read name = (runtime.values name).bind read := by
  obtain ⟨rest, hname⟩ := head_of_isMatchVariable h
  have hne : ∀ other : String, other.toList.head? ≠ some 'M' → name ≠ other := by
    rintro other hother rfl
    exact hother (by rw [hname]; rfl)
  have hdigits : (strBytes name).all isAsciiDigit = false := by
    unfold strBytes
    rw [hname]
    rfl
  have hpositional : isPositionalParameterName name = false := by
    unfold isPositionalParameterName
    rw [hdigits, beq_false_of_ne (hne "#" (by decide))]
    simp
  unfold lookup stored
  rw [if_neg (hne "$" (by decide)), if_neg (hne "?" (by decide)), if_neg (hne "_" (by decide)),
    if_neg (hne "-" (by decide)), if_neg (hne "#" (by decide)), hpositional]
  cases runtime.values name <;> rfl

theorem clearMatchValues_values (runtime : RuntimeVariables) {name : String}
    (h : isMatchVariable name = true) :
    runtime.clearMatchValues.values name = none ∨
      runtime.clearMatchValues.values name = some .Removed := by
  have hvalues : runtime.clearMatchValues.values name =
      if isNumberedMatch name && ((runtime.remove "MATCH").values name).isSome then some .Removed
      else (runtime.remove "MATCH").values name := rfl
  rw [hvalues]
  by_cases hmatch : name = "MATCH"
  · subst hmatch
    exact Or.inr (by rfl)
  · have hremove : (runtime.remove "MATCH").values name = runtime.values name := if_neg hmatch
    have hnumbered : isNumberedMatch name = true := by
      rcases Bool.or_eq_true_iff.mp h with hname | hname
      · exact absurd (by simpa using hname) hmatch
      · exact hname
    rw [hremove, hnumbered, Bool.true_and]
    by_cases hset : (runtime.values name).isSome = true
    · exact Or.inr (if_pos hset)
    · rw [if_neg hset]
      exact Or.inl (by simpa using hset)

theorem noMatchValues_clear (runtime : RuntimeVariables) : runtime.clearMatchValues.NoMatchValues := by
  intro name hname
  unfold getBytes
  rw [lookup_of_isMatchVariable _ _ hname]
  rcases clearMatchValues_values runtime hname with h | h
  · rw [h]
    rfl
  · rw [h]
    rfl

theorem get_of_noMatchValues {runtime : RuntimeVariables} (h : runtime.NoMatchValues) {name : String}
    (hname : isMatchVariable name = true) : runtime.get name = none := by
  have hbytes := h name hname
  unfold getBytes at hbytes
  unfold get
  rw [lookup_of_isMatchVariable _ _ hname] at hbytes ⊢
  cases hvalue : runtime.values name with
  | none => rfl
  | some value =>
    rw [hvalue] at hbytes
    cases value with
    | Text bytes => cases hbytes
    | Bytes bytes => cases hbytes
    | Removed => rfl

/-- Clearing the match variables changes none of them only when none has a value. -/
theorem matchKept_clear_iff {runtime : RuntimeVariables} :
    MatchKept runtime runtime.clearMatchValues ↔ runtime.NoMatchValues := by
  have hclear := noMatchValues_clear runtime
  constructor
  · intro h name hname
    rw [← (h name hname).2]
    exact hclear name hname
  · intro h name hname
    constructor
    · rw [get_of_noMatchValues hclear hname, get_of_noMatchValues h hname]
    · rw [hclear name hname, h name hname]

end RuntimeVariables

open RuntimeVariables

namespace ResolvedCondition

variable {condition : ResolvedCondition} {message : CompleteMessage} {runtime : RuntimeVariables}

/-- No regular expression of the condition has a capturing group or a `\/` marker. -/
def CapturesNothing (condition : ResolvedCondition) : Prop :=
  condition.capturing.isEmpty = true ∧
    ∀ parts checks, condition.kind = .Multipart parts checks →
      ∀ check ∈ checks, check.capturing.isEmpty = true

/-- The visit of the parts ends here. -/
def settles (checks : List CompiledMultipartCheck) : Except StructuredHeaderError MimePart → Bool
  | .error _ => true
  | .ok part => checksMatch checks part

/-- A condition on the parts of the message is not negated and one of the parts passes its checks, or
the visit fails before it finds one. -/
def partsLeaveMatch (negated : Bool) (checks : List CompiledMultipartCheck)
    (parts : List (Except StructuredHeaderError MimePart)) : Bool :=
  match parts.find? (settles checks) with
  | none => false
  | some (.error _) => true
  | some (.ok _) => !negated

/-- The condition is not about the parts of the message, or they do not make it clear the match
variables. -/
def leavesMatch (condition : ResolvedCondition) (message : CompleteMessage) : Bool :=
  match condition.kind with
  | .Multipart parts checks =>
    partsLeaveMatch condition.negated checks
      (parts message.headerView.fields (message.matchingInput .Body))
  | _ => true

theorem firstPart_eq (line : Nat) (checks : List CompiledMultipartCheck)
    (parts : List (Except StructuredHeaderError MimePart)) :
    firstPart line checks false parts =
      match parts.find? (settles checks) with
      | none => .ok none
      | some (.error error) => .error (.StructuredHeader line error)
      | some (.ok _) => .ok (some none) := by
  induction parts with
  | nil => rfl
  | cons part rest ih =>
    cases part with
    | error error => rfl
    | ok part =>
      unfold firstPart
      by_cases hmatch : checksMatch checks part = true
      · rw [if_pos hmatch, List.find?_cons_of_pos (by exact hmatch)]
        rfl
      · rw [if_neg hmatch, List.find?_cons_of_neg (by exact hmatch)]
        exact ih

/-- What a condition on the parts leaves of the variables when it has nothing to capture. -/
theorem finalState_matchesMultipart {checks : List CompiledMultipartCheck}
    (h : ∀ check ∈ checks, check.capturing.isEmpty = true)
    (parts : List (Except StructuredHeaderError MimePart)) :
    finalState (condition.matchesMultipart checks parts runtime) =
      if partsLeaveMatch condition.negated checks parts then runtime
      else runtime.clearMatchValues := by
  have hnone : (checks.any fun check => !check.capturing.isEmpty) = false := by
    rw [List.any_eq_false]
    intro check hcheck
    rw [h check hcheck]
    decide
  unfold matchesMultipart partsLeaveMatch
  rw [hnone, Bool.and_false, firstPart_eq]
  cases parts.find? (settles checks) with
  | none => rfl
  | some part =>
    cases part with
    | error error => rfl
    | ok part =>
      cases condition.negated with
      | true => rfl
      | false => rfl

/-- A condition that captures nothing changes nothing or clears the match variables. -/
theorem finalState_matchesComplete (h : condition.CapturesNothing) (message : CompleteMessage)
    (runtime : RuntimeVariables) :
    finalState (condition.matchesComplete message runtime) =
      if condition.leavesMatch message then runtime else runtime.clearMatchValues := by
  by_cases hmultipart : ∃ parts checks, condition.kind = .Multipart parts checks
  · obtain ⟨parts, checks, hkind⟩ := hmultipart
    have hparts := @finalState_matchesMultipart condition runtime checks (h.2 parts checks hkind)
      (parts message.headerView.fields (message.matchingInput .Body))
    have hleaves : condition.leavesMatch message = partsLeaveMatch condition.negated checks
        (parts message.headerView.fields (message.matchingInput .Body)) := by
      unfold leavesMatch
      rw [hkind]
    have hrun : condition.matchesComplete message = (do
        return condition.applyNegation (← condition.matchesMultipart checks
          (parts message.headerView.fields (message.matchingInput .Body)))) := by
      unfold matchesComplete matchesKind
      rw [hkind]
    rw [hleaves, ← hparts, hrun, Lockstep.bind_apply]
    cases condition.matchesMultipart checks
      (parts message.headerView.fields (message.matchingInput .Body)) runtime <;> rfl
  · have hleaves : condition.leavesMatch message = true := by
      unfold leavesMatch
      split
      · rename_i parts checks hkind
        exact absurd ⟨parts, checks, hkind⟩ hmultipart
      · rfl
    rw [hleaves, if_pos rfl]
    by_cases hprogram : ∃ command input, condition.kind = .Program command input
    · obtain ⟨command, input, hkind⟩ := hprogram
      have hrun : condition.matchesComplete message = (do
          return condition.applyNegation
            (← throw (.ExternalConditionUnsupported condition.line))) := by
        unfold matchesComplete matchesKind
        rw [hkind]
      rw [hrun]
      rfl
    · have hsets : condition.setsMatch = false := by
        unfold setsMatch
        split
        · rfl
        · rfl
        · rename_i parts checks hkind
          exact absurd ⟨parts, checks, hkind⟩ hmultipart
        · rename_i command input hkind
          exact absurd ⟨command, input, hkind⟩ hprogram
        · rw [h.1]
          rfl
      have hstill : runtime = finalState (condition.matchesComplete message runtime) :=
        Ends.finalState (P := fun after => runtime = after)
          (still_matchesComplete message hsets runtime)
      exact hstill.symm

/-- The header never decides a condition on the parts, so testing it changes nothing. -/
theorem finalState_matchesHeaders (h : condition.CapturesNothing) (head : MessageHead)
    (runtime : RuntimeVariables) :
    finalState (condition.matchesHeaders head runtime) = runtime := by
  have hR : Composable (@Eq RuntimeVariables) := ⟨fun _ => rfl, Eq.trans⟩
  have hstill : Keeps Eq (condition.matchesHeaders head) := by
    unfold matchesHeaders
    cases condition.kind with
    | HeaderRegex regex => exact .bind hR (still_regexMatches h.1 regex _) fun _ => .pure hR _
    | AddressRegex elements regex =>
      exact .bind hR (still_matchesElements h.1 _ regex _) fun _ => .pure hR _
    | IdentifierRegex elements regex =>
      exact .bind hR (still_matchesElements h.1 _ regex _) fun _ => .pure hR _
    | KeywordRegex elements regex =>
      exact .bind hR (still_matchesElements h.1 _ regex _) fun _ => .pure hR _
    | VariableRegex name regex =>
      exact .bind hR (still_variableMatches h.1 name regex) fun _ => .pure hR _
    | SmallerThan size => exact .ite (.bind hR (.pure hR _) fun _ => .pure hR _) (.pure hR _)
    | LargerThan size => exact .ite (.bind hR (.pure hR _) fun _ => .pure hR _) (.pure hR _)
    | BodyRegex regex => exact .pure hR _
    | MessageRegex regex => exact .pure hR _
    | Multipart parts checks => exact .pure hR _
    | Program command input => exact .pure hR _
  have heq : runtime = finalState (condition.matchesHeaders head runtime) :=
    Ends.finalState (P := fun after => runtime = after) (hstill runtime)
  exact heq.symm

end ResolvedCondition

/-! ### Conditions that are expanded first -/

/-- An expansion that reads the variables is an expansion under the variables there are; it leaves
them as they are. -/
theorem resolveShellExpansionWith_apply (line : Nat) (runtime : RuntimeVariables) :
    ∀ (passes : Nat) (negated : Bool) (condition : ShellExpandedCondition),
      resolveShellExpansionWith (m := Eval) (fun condition => do
          liftExcept id (condition.expand (← get))) (liftExcept id) line passes negated condition
          runtime =
        match resolveShellExpansionWith (m := Except EvalError)
            (fun condition => condition.expand runtime) id line passes negated condition with
        | .ok resolved => .ok resolved runtime
        | .error error => .error error runtime := by
  intro passes
  induction passes with
  | zero =>
    intro negated condition
    rfl
  | succ passes ih =>
    intro negated condition
    have hexpand : (do liftExcept id (condition.expand (← get)) : Eval Bytes) runtime =
        liftExcept id (condition.expand runtime) runtime := rfl
    unfold resolveShellExpansionWith
    rw [Lockstep.bind_apply, hexpand]
    cases condition.expand runtime with
    | error error => rfl
    | ok expanded =>
      show Lockstep.andThen (.ok expanded runtime) _ = _
      rw [Lockstep.andThen, Lockstep.bind_apply]
      cases hparsed : condition.reparse expanded with
      | error error => simp only [bind, Except.bind, id, hparsed]; rfl
      | ok parsed =>
        simp only [bind, Except.bind, id, hparsed]
        cases parsed with
        | Compiled compiled => rfl
        | Expanded again next => exact ih (negated ^^ again) next

namespace CompiledCondition

variable {condition : CompiledCondition} {runtime : RuntimeVariables}

/-- The condition that is tested: a condition marked for expansion becomes one under the variables of
the moment. -/
def resolve (condition : CompiledCondition) (runtime : RuntimeVariables) :
    Except EvalError ResolvedCondition :=
  match condition with
  | .Resolved condition => .ok condition
  | .ShellExpanded line negated condition =>
    resolveShellExpansionWith (m := Except EvalError) (fun condition => condition.expand runtime) id
      line (maxExpansionDepth + 1) negated condition

theorem finalState_matchesComplete (message : CompleteMessage)
    (h : ∀ resolved, condition.resolve runtime = .ok resolved → resolved.CapturesNothing) :
    finalState (condition.matchesComplete message runtime) =
      match condition.resolve runtime with
      | .error _ => runtime
      | .ok resolved =>
        if resolved.leavesMatch message then runtime else runtime.clearMatchValues := by
  cases condition with
  | Resolved resolved => exact (resolved.finalState_matchesComplete (h resolved rfl) message runtime)
  | ShellExpanded line negated expanded =>
    have hresolve := resolveShellExpansionWith_apply line runtime (maxExpansionDepth + 1) negated
      expanded
    have hrun : (CompiledCondition.ShellExpanded line negated expanded).matchesComplete message =
        resolveShellExpansionWith (m := Eval) (fun condition => do
          liftExcept id (condition.expand (← get))) (liftExcept id) line (maxExpansionDepth + 1)
          negated expanded >>= fun resolved => resolved.matchesComplete message := rfl
    have hcondition : (CompiledCondition.ShellExpanded line negated expanded).resolve runtime =
        resolveShellExpansionWith (m := Except EvalError) (fun condition => condition.expand runtime) id
          line (maxExpansionDepth + 1) negated expanded := rfl
    rw [hcondition] at h ⊢
    rw [hrun, Lockstep.bind_apply, hresolve]
    cases hresult : resolveShellExpansionWith (m := Except EvalError)
        (fun condition => condition.expand runtime) id line (maxExpansionDepth + 1) negated
        expanded with
    | error error => rfl
    | ok resolved => exact resolved.finalState_matchesComplete (h resolved hresult) message runtime

theorem finalState_matchesHeaders (head : MessageHead)
    (h : ∀ resolved, condition.resolve runtime = .ok resolved → resolved.CapturesNothing) :
    finalState (condition.matchesHeaders head runtime) = runtime := by
  cases condition with
  | Resolved resolved => exact resolved.finalState_matchesHeaders (h resolved rfl) head runtime
  | ShellExpanded line negated expanded => rfl

/-- A condition without captures leaves the match variables exactly as they were, whatever it finds on
the header and on the complete message, if and only if it is not about the parts of the message, or is
not negated and finds a part, or ends the visit of the parts with an error, or no match variable has a
value. -/
theorem match_variables_kept_iff (message : CompleteMessage)
    (h : ∀ resolved, condition.resolve runtime = .ok resolved → resolved.CapturesNothing) :
    ((∀ head, MatchKept runtime (finalState (condition.matchesHeaders head runtime))) ∧
        MatchKept runtime (finalState (condition.matchesComplete message runtime))) ↔
      (∀ resolved, condition.resolve runtime = .ok resolved →
        resolved.leavesMatch message = true) ∨ runtime.NoMatchValues := by
  have hheaders : ∀ head, MatchKept runtime (finalState (condition.matchesHeaders head runtime)) := by
    intro head
    rw [finalState_matchesHeaders head h]
    exact MatchKept.refl runtime
  rw [and_iff_right hheaders, finalState_matchesComplete message h]
  cases hresolve : condition.resolve runtime with
  | error error => simp [MatchKept.refl]
  | ok resolved =>
    by_cases hleaves : resolved.leavesMatch message = true
    · simp [hleaves, MatchKept.refl]
    · simp only
      rw [if_neg hleaves, matchKept_clear_iff]
      constructor
      · intro hnone
        exact Or.inr hnone
      · rintro (hall | hnone)
        · exact absurd (hall resolved rfl) hleaves
        · exact hnone

/-! #### A condition on the file names of the parts -/

/-- The parts that the traversal of a message visits. -/
def visitedParts (fields : List Field) (body : Bytes) : List (Except StructuredHeaderError MimePart) :=
  match anyMimePart fields body keepAll [] with
  | .ok (_, parts) => parts.map .ok
  | .error (.Header error) => [.error error]
  | .error (.Visitor error) => nomatch error

/-- `* multipart %filename ?? \.exe$`. -/
def exeCondition : CompiledCondition :=
  .Resolved
    { line := 1
      negated := false
      kind := .Multipart visitedParts
        [{ field := .Filename
           regex := ⟨fun input =>
             if endsWith input (strBytes ".exe") then
               some fun group => if group = 0 then some (input.length - 4, input.length) else none
             else none⟩
           capturing := ⟨[], []⟩ }]
      capturing := ⟨[], []⟩ }

/-- A message whose only part has the file name. -/
def messageWithFile (name : String) : CompleteMessage :=
  let header := strBytes "Content-Disposition: attachment; filename=" ++ strBytes name ++
    strBytes "\n\n"
  .Mapped (header ++ strBytes "text") header.length none none

/-- The variables behind an earlier condition that has set `MATCH`. -/
def runtimeWithMatch : RuntimeVariables :=
  (RuntimeVariables.default []).setMatchValue "MATCH" (strBytes "list")

theorem exeCondition_capturesNothing : ∀ resolved,
    exeCondition.resolve runtimeWithMatch = .ok resolved → resolved.CapturesNothing := by
  intro resolved h
  cases h
  refine ⟨rfl, ?_⟩
  intro parts checks hkind check hcheck
  cases hkind
  cases List.mem_singleton.mp hcheck
  rfl

/-- A message with such a file leaves `MATCH` alone. -/
theorem match_variables_kept_exe :
    MatchKept runtimeWithMatch
      (finalState (exeCondition.matchesComplete (messageWithFile "a.exe") runtimeWithMatch)) := by
  have hkept := match_variables_kept_iff (messageWithFile "a.exe") exeCondition_capturesNothing
  refine (hkept.mpr (Or.inl ?_)).2
  intro resolved h
  cases h
  decide +kernel

/-- A message without one clears it. -/
theorem unmatched_parts_clear_match :
    (∀ resolved, exeCondition.resolve runtimeWithMatch = .ok resolved → resolved.CapturesNothing) ∧
      ¬ MatchKept runtimeWithMatch
        (finalState (exeCondition.matchesComplete (messageWithFile "a.txt") runtimeWithMatch)) := by
  refine ⟨exeCondition_capturesNothing, ?_⟩
  intro h
  have hcleared : (finalState (exeCondition.matchesComplete (messageWithFile "a.txt")
      runtimeWithMatch)).get "MATCH" = none := by
    decide +kernel
  have hvalue : runtimeWithMatch.get "MATCH" = some (strBytes "list") := by decide +kernel
  have hkept := (h "MATCH" (by decide)).1
  rw [hcleared, hvalue] at hkept
  exact nomatch hkept

end CompiledCondition

end ProcmailRs
