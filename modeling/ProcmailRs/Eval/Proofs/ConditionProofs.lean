import ProcmailRs.Eval.Header
import ProcmailRs.Proofs.DecimalProofs
import ProcmailRs.Lib.Lockstep

/-!
# Conditions on the header and on the message

The header decides some conditions and leaves others to the complete message. What it decides is what
the complete message says; but the conditions are then no longer tested in their order. `InOrder` says
when that makes no difference to the match variables.
-/

namespace ProcmailRs

open Outcome

namespace RuntimeVariables

/-- `MATCH`, `MATCH1` and so on. -/
def isMatchVariable (name : String) : Bool := name == "MATCH" || isNumberedMatch name

/-- The two differ in match variables only. -/
structure SameButMatch (before after : RuntimeVariables) : Prop where
  values : ∀ name, isMatchVariable name = false → after.values name = before.values name
  systemHostname : after.systemHostname = before.systemHostname
  processId : after.processId = before.processId
  lastCommandStatus : after.lastCommandStatus = before.lastCommandStatus
  currentRcFile : after.currentRcFile = before.currentRcFile

namespace SameButMatch

variable {before middle after : RuntimeVariables}

theorem refl (runtime : RuntimeVariables) : SameButMatch runtime runtime :=
  ⟨fun _ _ => rfl, rfl, rfl, rfl, rfl⟩

theorem trans (h : SameButMatch before middle) (h' : SameButMatch middle after) :
    SameButMatch before after where
  values name hname := (h'.values name hname).trans (h.values name hname)
  systemHostname := h'.systemHostname.trans h.systemHostname
  processId := h'.processId.trans h.processId
  lastCommandStatus := h'.lastCommandStatus.trans h.lastCommandStatus
  currentRcFile := h'.currentRcFile.trans h.currentRcFile

theorem composable : Composable SameButMatch := ⟨refl, trans⟩

theorem get (h : SameButMatch before after) {name : String}
    (hname : isMatchVariable name = false) : after.get name = before.get name := by
  have hlast : after.values "LASTFOLDER" = before.values "LASTFOLDER" := h.values _ (by decide)
  unfold RuntimeVariables.get lookup stored
  rw [h.processId, h.lastCommandStatus, h.currentRcFile, hlast, h.values name hname]

theorem insert {name : String} (hname : isMatchVariable name = true) (value : RuntimeValue)
    (runtime : RuntimeVariables) : SameButMatch runtime (runtime.insert name value) := by
  refine ⟨fun other hother => if_neg ?_, rfl, rfl, rfl, rfl⟩
  rintro rfl
  exact Bool.false_ne_true (hother.symm.trans hname)

theorem clearNumberedMatchValues (runtime : RuntimeVariables) :
    SameButMatch runtime runtime.clearNumberedMatchValues := by
  refine ⟨fun name hname => ?_, rfl, rfl, rfl, rfl⟩
  have hnumbered : isNumberedMatch name = false := (Bool.or_eq_false_iff.mp hname).2
  simp [RuntimeVariables.clearNumberedMatchValues, hnumbered]

theorem clearMatchValues (runtime : RuntimeVariables) :
    SameButMatch runtime runtime.clearMatchValues :=
  (insert (by decide) .Removed runtime).trans (clearNumberedMatchValues _)

end SameButMatch

theorem isNumberedMatch_number (n : Nat) : isNumberedMatch ("MATCH" ++ toString n) = true := by
  have hlist : ("MATCH" ++ toString n).toList = "MATCH".toList ++ Nat.toDigits 10 n := by
    simp [String.toList_append, toString, Nat.repr]
  have hpos : 0 < (Nat.toDigits 10 n).length := List.length_pos_iff.mpr Nat.toDigits_ne_nil
  have hdigits : (utf8 (Nat.toDigits 10 n)).all isAsciiDigit = true := by
    simp only [utf8, List.all_eq_true, List.mem_flatMap]
    rintro b ⟨c, hc, hb⟩
    exact isAsciiDigit_of_isDigit (Nat.isDigit_of_mem_toDigits (by decide) (by decide) hc) b hb
  have hbytes : (utf8 ("MATCH".toList ++ Nat.toDigits 10 n)).drop 5 = utf8 (Nat.toDigits 10 n) := by
    rw [utf8, List.flatMap_append]
    exact List.drop_left' (by decide)
  unfold isNumberedMatch strBytes
  rw [hlist, hbytes, hdigits]
  simp
  omega

/-- Values under the names of match variables. -/
def NamesMatch (values : MatchValues) : Prop := ∀ value ∈ values, isMatchVariable value.1 = true

theorem SameButMatch.setMatchValues {values : MatchValues} (h : NamesMatch values)
    (runtime : RuntimeVariables) : SameButMatch runtime (runtime.setMatchValues values) := by
  induction values generalizing runtime with
  | nil => exact .refl _
  | cons value rest ih =>
    refine (SameButMatch.insert (h value List.mem_cons_self) (.Text value.2) runtime).trans ?_
    exact ih (fun value hvalue => h value (List.mem_cons_of_mem _ hvalue)) _

end RuntimeVariables

open RuntimeVariables

/-! ### What is matched -/

theorem namesMatch_nil : NamesMatch [] := fun _ hvalue => nomatch hvalue

theorem namesMatch_of_matchValue {bytes : Bytes} {values : MatchValues}
    (h : (matchValue bytes).map (fun value => [("MATCH", value)]) = .ok values) :
    NamesMatch values := by
  cases hvalue : matchValue bytes with
  | error error => simp [hvalue, Except.map] at h
  | ok value =>
    simp only [hvalue, Except.map, Except.ok.injEq] at h
    subst h
    intro value hmem
    cases List.mem_singleton.mp hmem
    rfl

theorem namesMatch_markedValue {line : Nat} {captures : Captures} {input : Bytes}
    {indexes : List Nat} {values : MatchValues}
    (h : markedValue line captures input indexes = .ok values) : NamesMatch values := by
  unfold markedValue at h
  split at h
  · cases h
    intro _ hvalue
    cases hvalue
  · split at h
    · cases h
    · split at h
      · cases h
      · exact namesMatch_of_matchValue h

theorem namesMatch_numberedValues {captures : Captures} {input : Bytes} {number : Nat}
    {indexes : List Nat} {values : MatchValues}
    (h : numberedValues captures input number indexes = .ok values) : NamesMatch values := by
  induction indexes generalizing number values with
  | nil =>
    cases h
    exact namesMatch_nil
  | cons index rest ih =>
    simp only [numberedValues, bind, Except.bind] at h
    split at h
    · cases h
    · split at h
      · cases h
      · rename_i hrest
        cases h
        intro value hmem
        rcases List.mem_cons.mp hmem with rfl | hmem
        · rw [isMatchVariable, isNumberedMatch_number, Bool.or_true]
        · exact ih hrest value hmem

theorem RuntimeVariables.NamesMatch.append {values values' : MatchValues} (h : NamesMatch values)
    (h' : NamesMatch values') : NamesMatch (values ++ values') := by
  intro value hmem
  rcases List.mem_append.mp hmem with hmem | hmem
  · exact h value hmem
  · exact h' value hmem

theorem namesMatch_markedPartValue {captures : Captures} {input : Bytes} {indexes : List Nat}
    {values : MatchValues}
    (h : ResolvedCondition.markedPartValue captures input indexes = .ok values) :
    NamesMatch values := by
  unfold ResolvedCondition.markedPartValue at h
  split at h
  · cases h
    exact namesMatch_nil
  · exact namesMatch_of_matchValue h

theorem namesMatch_partValues {part : MimePart} {number : Nat}
    {checks : List CompiledMultipartCheck} {values : MatchValues}
    (h : ResolvedCondition.partValues part number checks = .ok values) : NamesMatch values := by
  induction checks generalizing number values with
  | nil =>
    cases h
    exact namesMatch_nil
  | cons check rest ih =>
    unfold ResolvedCondition.partValues at h
    split at h
    · exact ih h
    · split_ifs at h
      · exact ih h
      · simp only [bind, Except.bind] at h
        split at h
        · cases h
        · rename_i hmarked
          split at h
          · cases h
          · rename_i hnumbered
            split at h
            · cases h
            · rename_i hrest
              cases h
              exact ((namesMatch_markedPartValue hmarked).append
                (namesMatch_numberedValues hnumbered)).append (ih hrest)

theorem blind_liftExcept {ε ε' σ α : Type} (wrap : ε → ε') (x : Except ε α) :
    Blind (liftExcept wrap x : EStateM ε' σ α) := by
  cases x with
  | ok value => exact .pure value
  | error error => exact .throw (wrap error)

/-- What follows a lifted value may rely on where it comes from. -/
theorem keeps_liftExcept_bind {ε ε' σ α β : Type} {R : σ → σ → Prop} (hR : Composable R)
    (wrap : ε → ε') {x : Except ε α} {f : α → EStateM ε' σ β}
    (hf : ∀ value, x = .ok value → Keeps R (f value)) : Keeps R (liftExcept wrap x >>= f) := by
  cases x with
  | ok value => exact hf value rfl
  | error error => exact fun s => hR.refl s

namespace ResolvedCondition

theorem blind_regexMatches (condition : ResolvedCondition) (regex : Regex) (input : Bytes) :
    Blind (condition.regexMatches regex input) := by
  unfold regexMatches
  refine .ite (.pure _) ?_
  cases regex.captures input with
  | none => exact .bind (.change _) fun _ => .pure _
  | some captures =>
    refine .ite (.bind (.change _) fun _ => .pure _) ?_
    refine .bind (.change _) fun _ => ?_
    refine .bind (blind_liftExcept _ _) fun marked => ?_
    refine .bind (blind_liftExcept _ _) fun numbered => ?_
    refine .bind (blind_liftExcept _ _) fun _ => ?_
    exact .bind (.change _) fun _ => .pure _

theorem still_regexMatches {condition : ResolvedCondition} (h : condition.capturing.isEmpty = true)
    (regex : Regex) (input : Bytes) : Keeps Eq (condition.regexMatches regex input) := by
  unfold regexMatches
  rw [if_pos h]
  exact fun _ => rfl

theorem keeps_regexMatches (condition : ResolvedCondition) (regex : Regex) (input : Bytes) :
    Keeps SameButMatch (condition.regexMatches regex input) := by
  have hR := SameButMatch.composable
  unfold regexMatches
  refine .ite (.pure hR _) ?_
  cases regex.captures input with
  | none =>
    exact .bind hR (keeps_modify SameButMatch.clearMatchValues) fun _ => .pure hR _
  | some captures =>
    refine .ite (.bind hR (keeps_modify SameButMatch.clearMatchValues) fun _ => .pure hR _) ?_
    refine .bind hR (keeps_modify SameButMatch.clearNumberedMatchValues) fun _ => ?_
    refine keeps_liftExcept_bind hR _ fun marked hmarked => ?_
    refine keeps_liftExcept_bind hR _ fun numbered hnumbered => ?_
    refine keeps_liftExcept_bind hR _ fun _ _ => ?_
    have hnames := (namesMatch_markedValue hmarked).append (namesMatch_numberedValues hnumbered)
    exact .bind hR (keeps_modify (SameButMatch.setMatchValues hnames)) fun _ => .pure hR _

theorem blind_anyElement (condition : ResolvedCondition) (regex : Regex)
    (elements : List (Except StructuredHeaderError Bytes)) :
    Blind (condition.anyElement regex elements) := by
  induction elements with
  | nil => exact .pure _
  | cons element rest ih =>
    cases element with
    | error error => exact .throw _
    | ok element =>
      exact .bind (condition.blind_regexMatches regex element) fun matched => .ite (.pure _) ih

theorem still_anyElement {condition : ResolvedCondition} (h : condition.capturing.isEmpty = true)
    (regex : Regex) (elements : List (Except StructuredHeaderError Bytes)) :
    Keeps Eq (condition.anyElement regex elements) := by
  have hR : Composable (@Eq RuntimeVariables) := ⟨fun _ => rfl, Eq.trans⟩
  induction elements with
  | nil => exact .pure hR _
  | cons element rest ih =>
    cases element with
    | error error => exact .throw hR _
    | ok element =>
      exact .bind hR (still_regexMatches h regex element) fun matched => .ite (.pure hR _) ih

theorem blind_matchesElements (condition : ResolvedCondition) (elements : Elements) (regex : Regex)
    (header : HeaderView) : Blind (condition.matchesElements elements regex header) := by
  refine .bind (condition.blind_anyElement regex _) fun matched => ?_
  exact .ite (.bind (.change _) fun _ => .pure _) (.pure _)

theorem still_matchesElements {condition : ResolvedCondition}
    (h : condition.capturing.isEmpty = true) (elements : Elements) (regex : Regex)
    (header : HeaderView) : Keeps Eq (condition.matchesElements elements regex header) := by
  have hR : Composable (@Eq RuntimeVariables) := ⟨fun _ => rfl, Eq.trans⟩
  refine .bind hR (still_anyElement h regex _) fun matched => ?_
  rw [h, Bool.not_true, Bool.and_false, if_neg Bool.false_ne_true]
  exact .bind hR (.pure hR _) fun _ => .pure hR _

theorem blind_matchesMultipart (condition : ResolvedCondition)
    (checks : List CompiledMultipartCheck) (parts : List (Except StructuredHeaderError MimePart)) :
    Blind (condition.matchesMultipart checks parts) := by
  refine .bind (blind_liftExcept _ _) fun found => ?_
  cases found with
  | none => exact .bind (.change _) fun _ => .pure _
  | some values =>
    refine .ite (.bind (.change _) fun _ => .pure _) ?_
    cases values with
    | none => exact .bind (.pure _) fun _ => .pure _
    | some values =>
      refine .bind (blind_liftExcept _ _) fun _ => ?_
      exact .bind (.change _) fun _ => .pure _

theorem namesMatch_firstPart {line : Nat} {checks : List CompiledMultipartCheck} {wanted : Bool}
    {parts : List (Except StructuredHeaderError MimePart)} {values : MatchValues}
    (h : firstPart line checks wanted parts = .ok (some (some values))) : NamesMatch values := by
  induction parts with
  | nil => cases h
  | cons part rest ih =>
    cases part with
    | error error => cases h
    | ok part =>
      unfold firstPart at h
      split_ifs at h
      · cases hvalues : partValues part 1 checks with
        | error error => simp [hvalues, Except.map] at h
        | ok found =>
          simp only [hvalues, Except.map, Except.ok.injEq, Option.some.injEq] at h
          subst h
          exact namesMatch_partValues hvalues
      · cases h
      · exact ih h

theorem keeps_matchesMultipart (condition : ResolvedCondition)
    (checks : List CompiledMultipartCheck) (parts : List (Except StructuredHeaderError MimePart)) :
    Keeps SameButMatch (condition.matchesMultipart checks parts) := by
  have hR := SameButMatch.composable
  refine keeps_liftExcept_bind hR _ fun found hfound => ?_
  cases found with
  | none => exact .bind hR (keeps_modify SameButMatch.clearMatchValues) fun _ => .pure hR _
  | some values =>
    refine .ite (.bind hR (keeps_modify SameButMatch.clearMatchValues) fun _ => .pure hR _) ?_
    cases values with
    | none => exact .bind hR (.pure hR _) fun _ => .pure hR _
    | some values =>
      refine keeps_liftExcept_bind hR _ fun _ _ => ?_
      refine .bind hR (keeps_modify fun runtime => ?_) fun _ => .pure hR _
      exact (SameButMatch.clearNumberedMatchValues runtime).trans
        (SameButMatch.setMatchValues (namesMatch_firstPart hfound) _)

/-! ### What the header decides -/

/-- The header alone decides the condition. -/
def decidedBy (condition : ResolvedCondition) (head : MessageHead) : Bool :=
  match condition.kind with
  | .HeaderRegex _ | .AddressRegex .. | .IdentifierRegex .. | .KeywordRegex .. | .VariableRegex .. =>
    true
  | .SmallerThan size => size ≤ head.len
  | .LargerThan size => size < head.len
  | .BodyRegex _ | .MessageRegex _ | .Multipart .. | .Program .. => false

/-- The test of the condition may change match variables. -/
def setsMatch (condition : ResolvedCondition) : Bool :=
  match condition.kind with
  | .SmallerThan _ | .LargerThan _ => false
  | .Multipart .. | .Program .. => true
  | _ => !condition.capturing.isEmpty

/-- The condition is about a match variable. -/
def readsMatch (condition : ResolvedCondition) : Bool :=
  match condition.kind with
  | .VariableRegex name _ => isMatchVariable name
  | _ => false

end ResolvedCondition

/-- The message begins with the header. -/
structure Begins (head : MessageHead) (message : CompleteMessage) : Prop where
  matching : head.matching = message.matchingInput .Headers
  fields : head.headerView.fields = message.headerView.fields
  len : head.len ≤ message.len
  status : head.status = message.status

namespace ResolvedCondition

variable {condition : ResolvedCondition} {head : MessageHead} {message : CompleteMessage}

theorem matchesElements_of_fields {elements : Elements} {regex : Regex} {header header' : HeaderView}
    (h : header.fields = header'.fields) :
    condition.matchesElements elements regex header =
      condition.matchesElements elements regex header' := by
  unfold matchesElements
  rw [h]

theorem matchesHeaders_of_decided (hbegins : Begins head message)
    (h : condition.decidedBy head = true) :
    condition.matchesHeaders head = (do
      return PartialMatch.fromBool (← condition.matchesComplete message)) := by
  simp only [matchesComplete, bind_assoc, pure_bind]
  unfold decidedBy at h
  unfold matchesHeaders matchesKind
  cases hkind : condition.kind with
  | HeaderRegex regex => simp only [hbegins.matching]
  | AddressRegex elements regex => simp only [matchesElements_of_fields hbegins.fields]
  | IdentifierRegex elements regex => simp only [matchesElements_of_fields hbegins.fields]
  | KeywordRegex elements regex => simp only [matchesElements_of_fields hbegins.fields]
  | VariableRegex name regex => rfl
  | SmallerThan size =>
    simp only [hkind, decide_eq_true_eq] at h
    have hlen := hbegins.len
    simp only [ge_iff_le, h, if_true, pure_bind]
    rw [decide_eq_false (by omega)]
  | LargerThan size =>
    simp only [hkind, decide_eq_true_eq] at h
    have hlen := hbegins.len
    simp only [gt_iff_lt, h, if_true, pure_bind]
    rw [decide_eq_true (by omega)]
  | BodyRegex regex => simp [hkind] at h
  | MessageRegex regex => simp [hkind] at h
  | Multipart parts checks => simp [hkind] at h
  | Program command input => simp [hkind] at h

theorem matchesHeaders_of_deferred (h : condition.decidedBy head = false) :
    condition.matchesHeaders head = pure .Deferred := by
  unfold decidedBy at h
  unfold matchesHeaders
  cases hkind : condition.kind with
  | SmallerThan size =>
    simp only [hkind, decide_eq_false_iff_not] at h
    simp only [ge_iff_le, h, if_false]
  | LargerThan size =>
    simp only [hkind, decide_eq_false_iff_not] at h
    simp only [gt_iff_lt, h, if_false]
  | BodyRegex regex => rfl
  | MessageRegex regex => rfl
  | Multipart parts checks => rfl
  | Program command input => rfl
  | HeaderRegex regex => simp [hkind] at h
  | AddressRegex elements regex => simp [hkind] at h
  | IdentifierRegex elements regex => simp [hkind] at h
  | KeywordRegex elements regex => simp [hkind] at h
  | VariableRegex name regex => simp [hkind] at h

theorem still_variableMatches (h : condition.capturing.isEmpty = true) (name : String)
    (regex : Regex) : Keeps Eq (condition.variableMatches name regex) := by
  have hR : Composable (@Eq RuntimeVariables) := ⟨fun _ => rfl, Eq.trans⟩
  refine .bind hR (.get hR) fun runtime => ?_
  exact .ite (.bind hR (.throw hR _) fun _ => still_regexMatches h regex _)
    (still_regexMatches h regex _)

/-- A condition that sets no match variable changes nothing. -/
theorem still_matchesComplete (message : CompleteMessage) (h : condition.setsMatch = false) :
    Keeps Eq (condition.matchesComplete message) := by
  have hR : Composable (@Eq RuntimeVariables) := ⟨fun _ => rfl, Eq.trans⟩
  refine .bind hR ?_ fun _ => .pure hR _
  unfold setsMatch at h
  unfold matchesKind
  cases hkind : condition.kind with
  | HeaderRegex regex => exact still_regexMatches (by simpa [hkind] using h) regex _
  | BodyRegex regex => exact still_regexMatches (by simpa [hkind] using h) regex _
  | MessageRegex regex => exact still_regexMatches (by simpa [hkind] using h) regex _
  | AddressRegex elements regex => exact still_matchesElements (by simpa [hkind] using h) _ regex _
  | IdentifierRegex elements regex =>
    exact still_matchesElements (by simpa [hkind] using h) _ regex _
  | KeywordRegex elements regex => exact still_matchesElements (by simpa [hkind] using h) _ regex _
  | VariableRegex name regex => exact still_variableMatches (by simpa [hkind] using h) name regex
  | SmallerThan size => exact .pure hR _
  | LargerThan size => exact .pure hR _
  | Multipart parts checks => simp [hkind] at h
  | Program command input => simp [hkind] at h

/-- How a condition ends does not depend on the variables, unless it is about one. -/
theorem blind_matchesComplete (h : ∀ name regex, condition.kind ≠ .VariableRegex name regex) :
    Blind (condition.matchesComplete message) := by
  refine .bind ?_ fun _ => .pure _
  unfold matchesKind
  cases hkind : condition.kind with
  | HeaderRegex regex => exact condition.blind_regexMatches regex _
  | BodyRegex regex => exact condition.blind_regexMatches regex _
  | MessageRegex regex => exact condition.blind_regexMatches regex _
  | AddressRegex elements regex => exact condition.blind_matchesElements _ regex _
  | IdentifierRegex elements regex => exact condition.blind_matchesElements _ regex _
  | KeywordRegex elements regex => exact condition.blind_matchesElements _ regex _
  | Multipart parts checks => exact condition.blind_matchesMultipart checks _
  | Program command input => exact .throw _
  | SmallerThan size => exact .pure _
  | LargerThan size => exact .pure _
  | VariableRegex name regex => exact absurd hkind (h name regex)

theorem blind_of_deferred (h : condition.decidedBy head = false) :
    Blind (condition.matchesComplete message) := by
  refine blind_matchesComplete fun name regex hkind => ?_
  simp [decidedBy, hkind] at h

theorem variableMatches_apply (name : String) (regex : Regex) (s : RuntimeVariables) :
    condition.variableMatches name regex s =
      if ((s.get name).getD []).length > maxAssignmentValueLen then
        .error (.VariableValueTooLarge name ((s.get name).getD []).length) s
      else condition.regexMatches regex ((s.get name).getD []) s := by
  by_cases h : ((s.get name).getD []).length > maxAssignmentValueLen
  · rw [if_pos h]
    rw [variableMatches, Outcome.get_bind, if_pos h]
    rfl
  · rw [if_neg h]
    rw [variableMatches, Outcome.get_bind, if_neg h]

theorem variableMatches_elsewhere {name : String} (hname : isMatchVariable name = false)
    (hquiet : condition.capturing.isEmpty = true) (regex : Regex) {s t : RuntimeVariables}
    (hsame : SameButMatch s t) {b : Bool} {s' : RuntimeVariables}
    (h : condition.variableMatches name regex s = .ok b s') :
    condition.variableMatches name regex t = .ok b t := by
  rw [variableMatches_apply] at h ⊢
  rw [hsame.get hname]
  split_ifs at h ⊢
  · unfold regexMatches at h ⊢
    rw [if_pos hquiet] at h ⊢
    cases h
    rfl

/-- A condition that has nothing to do with match variables holds or fails whatever they are. -/
theorem matchesComplete_elsewhere (hquiet : condition.setsMatch = false)
    (hreads : condition.readsMatch = false) {s t : RuntimeVariables} (hsame : SameButMatch s t)
    {b : Bool} {s' : RuntimeVariables} (h : condition.matchesComplete message s = .ok b s') :
    condition.matchesComplete message t = .ok b t := by
  by_cases hvariable : ∃ name regex, condition.kind = .VariableRegex name regex
  · obtain ⟨name, regex, hkind⟩ := hvariable
    have hname : isMatchVariable name = false := by simpa [readsMatch, hkind] using hreads
    have hempty : condition.capturing.isEmpty = true := by simpa [setsMatch, hkind] using hquiet
    simp only [matchesComplete, matchesKind, hkind] at h ⊢
    obtain ⟨matched, s'', hmatched, hend⟩ := Lockstep.ok_of_bind h
    rw [Lockstep.bind_of_ok (variableMatches_elsewhere hname hempty regex hsame hmatched)]
    cases hend
    rfl
  · have hblind : Blind (condition.matchesComplete message) :=
      blind_matchesComplete fun name regex hkind => hvariable ⟨name, regex, hkind⟩
    obtain ⟨t', ht⟩ := hblind.ok_of_ok h t
    have hstill := still_matchesComplete message hquiet t
    rw [Ends, ht] at hstill
    rw [ht, ← hstill]

theorem keeps_matchesComplete (message : CompleteMessage) (h : condition.decidedBy head = false) :
    Keeps SameButMatch (condition.matchesComplete message) := by
  have hR := SameButMatch.composable
  refine .bind hR ?_ fun _ => .pure hR _
  unfold decidedBy at h
  unfold matchesKind
  cases hkind : condition.kind with
  | BodyRegex regex => exact condition.keeps_regexMatches regex _
  | MessageRegex regex => exact condition.keeps_regexMatches regex _
  | Multipart parts checks => exact condition.keeps_matchesMultipart checks _
  | Program command input => exact .throw hR _
  | SmallerThan size => exact .pure hR _
  | LargerThan size => exact .pure hR _
  | HeaderRegex regex => simp [hkind] at h
  | AddressRegex elements regex => simp [hkind] at h
  | IdentifierRegex elements regex => simp [hkind] at h
  | KeywordRegex elements regex => simp [hkind] at h
  | VariableRegex name regex => simp [hkind] at h

end ResolvedCondition

namespace CompiledCondition

/-- The condition is fixed when the plan is compiled. -/
def isResolved : CompiledCondition → Bool
  | .Resolved _ => true
  | .ShellExpanded .. => false

/-- The header decides the condition. -/
def decidedBy (condition : CompiledCondition) (head : MessageHead) : Bool :=
  match condition with
  | .Resolved condition => condition.decidedBy head
  | .ShellExpanded .. => false

/-- A test of the condition may set match variables. -/
def setsMatch : CompiledCondition → Bool
  | .Resolved condition => condition.setsMatch
  | .ShellExpanded .. => true

/-- A test of the condition may read match variables. -/
def readsMatch : CompiledCondition → Bool
  | .Resolved condition => condition.readsMatch
  | .ShellExpanded .. => true

/-- The message passes the condition. The variables are those of a new process: no condition that is
deferred depends on them, unless it is expanded first. -/
def passedBy (condition : CompiledCondition) (message : CompleteMessage) : Bool :=
  match condition.matchesComplete message (RuntimeVariables.default []) with
  | .ok matched _ => matched
  | .error _ _ => false

/-- The deferred condition comes before `later`, which the header decides. Nothing is lost when `later`
is tested first: it sets match variables only if `condition` lets it be reached and leaves them alone,
and it reads none that `condition` has set. -/
def Yields (condition later : CompiledCondition) (message : CompleteMessage) : Prop :=
  (later.setsMatch = true → condition.setsMatch = false ∧ condition.passedBy message = true) ∧
    (later.readsMatch = true → condition.setsMatch = true → condition.passedBy message = false)

instance (condition later : CompiledCondition) (message : CompleteMessage) :
    Decidable (condition.Yields later message) :=
  inferInstanceAs (Decidable ((_ → _ ∧ _) ∧ (_ → _ → _)))

end CompiledCondition

/-- The conditions that were tested on the header: the match variables are set and read as they would be
if all of them were tested in their order. When the header has failed the test, no condition that was
deferred may set them. -/
def InOrder (head : MessageHead) (message : CompleteMessage) (failed : Bool) :
    List CompiledCondition → Prop
  | [] => True
  | condition :: rest =>
    if condition.decidedBy head = true then InOrder head message failed rest
    else
      (condition.setsMatch = true → failed = false) ∧
        (∀ later ∈ rest, later.decidedBy head = true → condition.Yields later message) ∧
        (condition.passedBy message = true → InOrder head message failed rest)

instance InOrder.decidable (head : MessageHead) (message : CompleteMessage) (failed : Bool) :
    ∀ conditions, Decidable (InOrder head message failed conditions)
  | [] => isTrue trivial
  | condition :: rest =>
    have := InOrder.decidable head message failed rest
    inferInstanceAs (Decidable (if condition.decidedBy head = true then _ else _ ∧ _ ∧ _))

section Tests

variable {head : MessageHead} {message : CompleteMessage} {condition : CompiledCondition}
variable {rest conditions : List CompiledCondition} {matched : PartialMatch}
variable {results : List (Option Bool)} {s s' t : RuntimeVariables}

theorem matchesHeaders_cons_decided (hbegins : Begins head message)
    (hdecided : condition.decidedBy head = true)
    (h : matchesHeaders head (condition :: rest) s = .ok (matched, results) s') :
    (condition.matchesComplete message s = .ok false s' ∧ matched = .False ∧
        results = [some false]) ∨
      ∃ s₁ results', condition.matchesComplete message s = .ok true s₁ ∧
        results = some true :: results' ∧
        matchesHeaders head rest s₁ = .ok (matched, results') s' := by
  cases condition with
  | ShellExpanded line negated condition => cases hdecided
  | Resolved condition =>
    unfold matchesHeaders at h
    obtain ⟨first, s₁, hfirst, hrest⟩ := Lockstep.ok_of_bind h
    simp only [CompiledCondition.matchesHeaders,
      ResolvedCondition.matchesHeaders_of_decided hbegins hdecided] at hfirst
    obtain ⟨b, s₂, hb, hpure⟩ := Lockstep.ok_of_bind hfirst
    cases hpure
    cases b with
    | false =>
      cases hrest
      exact .inl ⟨hb, rfl, rfl⟩
    | true =>
      obtain ⟨⟨matched', results'⟩, s₃, htail, hend⟩ := Lockstep.ok_of_bind hrest
      cases hend
      exact .inr ⟨s₁, results', hb, rfl, htail⟩

theorem matchesHeaders_cons_of_deferred (hdeferred : condition.decidedBy head = false) :
    matchesHeaders head (condition :: rest) = (do
      let (matched, results) ← matchesHeaders head rest
      return (if matched = .False then .False else .Deferred, none :: results)) := by
  have hfirst : condition.matchesHeaders head = pure .Deferred := by
    cases condition with
    | ShellExpanded line negated condition => rfl
    | Resolved condition => exact ResolvedCondition.matchesHeaders_of_deferred hdeferred
  rw [matchesHeaders, hfirst, pure_bind]

theorem matchesHeaders_cons_deferred (hdeferred : condition.decidedBy head = false)
    (h : matchesHeaders head (condition :: rest) s = .ok (matched, results) s') :
    ∃ matched' results', matchesHeaders head rest s = .ok (matched', results') s' ∧
      results = none :: results' ∧ matched = if matched' = .False then .False else .Deferred := by
  rw [matchesHeaders_cons_of_deferred hdeferred] at h
  obtain ⟨⟨matched', results'⟩, s₁, htail, hend⟩ := Lockstep.ok_of_bind h
  cases hend
  exact ⟨matched', results', htail, rfl, rfl⟩

theorem matchesHeaders_cons_of_decided (hbegins : Begins head message)
    (hdecided : condition.decidedBy head = true) {b : Bool}
    (h : condition.matchesComplete message s = .ok b t) :
    matchesHeaders head (condition :: rest) s =
      if b = true then
        (do
          let (matched, results) ← matchesHeaders head rest
          return (matched, some true :: results)) t
      else .ok (.False, [some false]) t := by
  cases condition with
  | ShellExpanded line negated condition => cases hdecided
  | Resolved condition =>
    have hfirst : (CompiledCondition.Resolved condition).matchesHeaders head s =
        .ok (PartialMatch.fromBool b) t := by
      simp only [CompiledCondition.matchesHeaders,
        ResolvedCondition.matchesHeaders_of_decided hbegins hdecided]
      exact Lockstep.bind_of_ok h _
    rw [matchesHeaders, Lockstep.bind_of_ok hfirst]
    cases b with
    | false => rfl
    | true => rfl

theorem CompiledCondition.still_matchesComplete (hquiet : condition.setsMatch = false) {b : Bool}
    (h : condition.matchesComplete message s = .ok b s') : s' = s := by
  cases condition with
  | ShellExpanded line negated condition => cases hquiet
  | Resolved condition =>
    have hstill := ResolvedCondition.still_matchesComplete message hquiet s
    rw [Ends] at hstill
    simp only [CompiledCondition.matchesComplete] at h
    rw [h] at hstill
    exact hstill.symm

/-- Conditions that set no match variable leave everything as it is. -/
theorem matchesHeaders_still (hbegins : Begins head message)
    (h : matchesHeaders head conditions s = .ok (matched, results) s')
    (hquiet : ∀ later ∈ conditions.take results.length, later.decidedBy head = true →
      later.setsMatch = false) : s' = s := by
  induction conditions generalizing s matched results with
  | nil =>
    cases h
    rfl
  | cons condition rest ih =>
    cases hdecided : condition.decidedBy head with
    | true =>
      rcases matchesHeaders_cons_decided hbegins hdecided h with
        ⟨hcomplete, -, rfl⟩ | ⟨s₁, results', hcomplete, rfl, hrest⟩
      · exact CompiledCondition.still_matchesComplete
          (hquiet condition List.mem_cons_self hdecided) hcomplete
      · cases CompiledCondition.still_matchesComplete
          (hquiet condition List.mem_cons_self hdecided) hcomplete
        exact ih hrest fun later hlater => hquiet later (List.mem_cons_of_mem _ hlater)
    | false =>
      obtain ⟨matched', results', hrest, rfl, -⟩ := matchesHeaders_cons_deferred hdecided h
      exact ih hrest fun later hlater => hquiet later (List.mem_cons_of_mem _ hlater)

/-- Conditions that have nothing to do with match variables are decided alike whatever these are. -/
theorem matchesHeaders_elsewhere (hbegins : Begins head message)
    (h : matchesHeaders head conditions s = .ok (matched, results) s')
    (hquiet : ∀ later ∈ conditions.take results.length, later.decidedBy head = true →
      later.setsMatch = false ∧ later.readsMatch = false) (hsame : SameButMatch s t) :
    matchesHeaders head conditions t = .ok (matched, results) t := by
  induction conditions generalizing s matched results with
  | nil =>
    cases h
    rfl
  | cons condition rest ih =>
    have hrest : ∀ {results' : List (Option Bool)}, results.length = results'.length + 1 →
        ∀ later ∈ rest.take results'.length, later.decidedBy head = true →
          later.setsMatch = false ∧ later.readsMatch = false := by
      intro results' hlength later hlater
      refine hquiet later ?_
      rw [hlength, List.take_succ_cons]
      exact List.mem_cons_of_mem _ hlater
    cases hdecided : condition.decidedBy head with
    | true =>
      have hfirst : results ≠ [] → condition.setsMatch = false ∧ condition.readsMatch = false := by
        intro hne
        obtain ⟨result, results', rfl⟩ := List.exists_cons_of_ne_nil hne
        exact hquiet condition List.mem_cons_self hdecided
      have helse : ∀ {b : Bool} {s₁ : RuntimeVariables}, results ≠ [] →
          condition.matchesComplete message s = .ok b s₁ →
          condition.matchesComplete message t = .ok b t := by
        intro b s₁ hne hcomplete
        cases condition with
        | ShellExpanded line negated condition => cases hdecided
        | Resolved condition =>
          exact ResolvedCondition.matchesComplete_elsewhere (hfirst hne).1 (hfirst hne).2 hsame
            hcomplete
      rcases matchesHeaders_cons_decided hbegins hdecided h with
        ⟨hcomplete, rfl, rfl⟩ | ⟨s₁, results', hcomplete, rfl, htail⟩
      · rw [matchesHeaders_cons_of_decided hbegins hdecided (helse (by simp) hcomplete)]
        rfl
      · have hs₁ := CompiledCondition.still_matchesComplete (hfirst (by simp)).1 hcomplete
        rw [hs₁] at htail
        rw [matchesHeaders_cons_of_decided hbegins hdecided (helse (by simp) hcomplete),
          if_pos rfl, Lockstep.bind_of_ok (ih htail (hrest rfl) hsame)]
        rfl
    | false =>
      obtain ⟨matched', results', htail, rfl, rfl⟩ := matchesHeaders_cons_deferred hdecided h
      rw [matchesHeaders_cons_of_deferred hdecided,
        Lockstep.bind_of_ok (ih htail (hrest rfl) hsame)]
      rfl

/-- Nothing is left to test of conditions that the header has decided. -/
theorem matchesResumed_of_true (hbegins : Begins head message)
    (h : matchesHeaders head conditions s = .ok (.True, results) s') :
    matchesResumed message results conditions = pure true := by
  induction conditions generalizing s results with
  | nil => rfl
  | cons condition rest ih =>
    cases hdecided : condition.decidedBy head with
    | true =>
      rcases matchesHeaders_cons_decided hbegins hdecided h with
        ⟨-, hmatched, -⟩ | ⟨s₁, results', -, rfl, hrest⟩
      · cases hmatched
      · exact ih hrest
    | false =>
      obtain ⟨matched', results', -, -, hmatched⟩ := matchesHeaders_cons_deferred hdecided h
      split_ifs at hmatched

section Deferred

variable (hresolved : condition.isResolved = true) (hdeferred : condition.decidedBy head = false)

include hresolved hdeferred

theorem CompiledCondition.matches_of_passedBy (h : condition.passedBy message = true)
    (s : RuntimeVariables) :
    ∃ s', condition.matchesComplete message s = .ok true s' ∧ SameButMatch s s' := by
  cases condition with
  | ShellExpanded line negated condition => cases hresolved
  | Resolved condition =>
    have hblind : Blind (condition.matchesComplete message) :=
      ResolvedCondition.blind_of_deferred hdeferred
    have hkeeps := ResolvedCondition.keeps_matchesComplete message hdeferred s
    unfold passedBy at h
    split at h
    · rename_i matched s' heq
      cases h
      obtain ⟨s'', hs⟩ := hblind.ok_of_ok heq s
      rw [Ends, hs] at hkeeps
      exact ⟨s'', hs, hkeeps⟩
    · cases h

theorem CompiledCondition.fails_of_not_passedBy (h : condition.passedBy message = false) {b : Bool}
    (hs : condition.matchesComplete message s = .ok b s') : b = false := by
  cases condition with
  | ShellExpanded line negated condition => cases hresolved
  | Resolved condition =>
    have hblind : Blind (condition.matchesComplete message) :=
      ResolvedCondition.blind_of_deferred hdeferred
    obtain ⟨s'', hdefault⟩ := hblind.ok_of_ok hs (RuntimeVariables.default [])
    unfold passedBy at h
    simp only [CompiledCondition.matchesComplete, hdefault] at h
    exact h

end Deferred

theorem CompiledCondition.not_error_of_quiet (hdeferred : condition.decidedBy head = false)
    (hquiet : condition.setsMatch = false) {e : EvalError} :
    condition.matchesComplete message s ≠ .error e t := by
  cases condition with
  | ShellExpanded line negated condition => cases hquiet
  | Resolved condition =>
    intro h
    simp only [CompiledCondition.setsMatch, ResolvedCondition.setsMatch] at hquiet
    simp only [CompiledCondition.decidedBy, ResolvedCondition.decidedBy] at hdeferred
    simp only [CompiledCondition.matchesComplete, ResolvedCondition.matchesComplete,
      ResolvedCondition.matchesKind] at h
    cases hkind : condition.kind with
    | BodyRegex regex => simp_all [ResolvedCondition.regexMatches]; cases h
    | MessageRegex regex => simp_all [ResolvedCondition.regexMatches]; cases h
    | SmallerThan size => simp only [hkind] at h; cases h
    | LargerThan size => simp only [hkind] at h; cases h
    | Multipart parts checks => simp [hkind] at hquiet
    | Program command input => simp [hkind] at hquiet
    | HeaderRegex regex => simp [hkind] at hdeferred
    | AddressRegex elements regex => simp [hkind] at hdeferred
    | IdentifierRegex elements regex => simp [hkind] at hdeferred
    | KeywordRegex elements regex => simp [hkind] at hdeferred
    | VariableRegex name regex => simp [hkind] at hdeferred

theorem matchesComplete_cons_of_ok {b : Bool}
    (h : condition.matchesComplete message s = .ok b t) :
    matchesComplete message (condition :: rest) s =
      if b = true then matchesComplete message rest t else .ok false t := by
  rw [matchesComplete, Lockstep.bind_of_ok h]
  cases b with
  | false => rfl
  | true => rfl

theorem matchesComplete_cons_of_error {e : EvalError}
    (h : condition.matchesComplete message s = .error e t) :
    matchesComplete message (condition :: rest) s = .error e t := by
  rw [matchesComplete, Lockstep.bind_apply, h, Lockstep.andThen]

theorem matchesResumed_cons_none (results : List (Option Bool)) :
    matchesResumed message (none :: results) (condition :: rest) = (do
      if ← condition.matchesComplete message then matchesResumed message results rest
      else return false) := by
  rw [matchesResumed]
  · rfl
  · intro matched results' h
    cases h

theorem matchesResumed_cons_of_ok {b : Bool}
    (h : condition.matchesComplete message s = .ok b t) :
    matchesResumed message (none :: results) (condition :: rest) s =
      if b = true then matchesResumed message results rest t else .ok false t := by
  rw [matchesResumed_cons_none, Lockstep.bind_of_ok h]
  cases b with
  | false => rfl
  | true => rfl

theorem matchesResumed_cons_of_error {e : EvalError}
    (h : condition.matchesComplete message s = .error e t) :
    matchesResumed message (none :: results) (condition :: rest) s = .error e t := by
  rw [matchesResumed_cons_none, Lockstep.bind_apply, h, Lockstep.andThen]

/-- The test on the header, and what is left of it, agree with one test on the complete message. -/
def Agrees (message : CompleteMessage) (conditions : List CompiledCondition)
    (matched : PartialMatch) (results : List (Option Bool)) (s s' : RuntimeVariables) : Prop :=
  match matched with
  | .True => matchesComplete message conditions s = .ok true s'
  | .False => matchesComplete message conditions s = .ok false s'
  | .Deferred =>
    matchesResumed message results conditions s' = matchesComplete message conditions s

/-- A deferred condition in front of a test that agrees. -/
theorem agrees_cons_deferred (hbegins : Begins head message)
    (hresolved : condition.isResolved = true) (hdeferred : condition.decidedBy head = false)
    (htail : matchesHeaders head rest s = .ok (matched, results) s')
    (hfailed : condition.setsMatch = true → matched ≠ .False)
    (hyields : ∀ later ∈ rest.take results.length, later.decidedBy head = true →
      condition.Yields later message)
    (hrest : condition.passedBy message = true → ∀ {s s'},
      matchesHeaders head rest s = .ok (matched, results) s' →
      Agrees message rest matched results s s') :
    Agrees message (condition :: rest) (if matched = .False then .False else .Deferred)
      (none :: results) s s' := by
  have hresumed : ∀ t, matched = .True → matchesResumed message results rest t = .ok true t := by
    rintro t rfl
    rw [matchesResumed_of_true hbegins htail]
    rfl
  cases hpassed : condition.passedBy message with
  | true =>
    have hok := CompiledCondition.matches_of_passedBy hresolved hdeferred hpassed
    cases hsets : condition.setsMatch with
    | false =>
      -- The condition holds and changes nothing, wherever it is tested.
      have hstill : ∀ t, condition.matchesComplete message t = .ok true t := by
        intro t
        obtain ⟨t', ht, -⟩ := hok t
        rw [ht, CompiledCondition.still_matchesComplete hsets ht]
      have hagrees := hrest hpassed htail
      cases matched with
      | False => exact (matchesComplete_cons_of_ok (hstill s)).trans hagrees
      | True =>
        change matchesResumed message (none :: results) (condition :: rest) s' = _
        rw [matchesResumed_cons_of_ok (hstill s'), matchesComplete_cons_of_ok (hstill s), if_pos rfl,
          if_pos rfl, hresumed s' rfl]
        exact hagrees.symm
      | Deferred =>
        change matchesResumed message (none :: results) (condition :: rest) s' = _
        rw [matchesResumed_cons_of_ok (hstill s'), matchesComplete_cons_of_ok (hstill s), if_pos rfl,
          if_pos rfl]
        exact hagrees
    | true =>
      -- What the header has decided is decided alike behind the condition.
      have hquiet : ∀ later ∈ rest.take results.length, later.decidedBy head = true →
          later.setsMatch = false ∧ later.readsMatch = false := by
        intro later hmem hlater
        obtain ⟨hsetting, hreading⟩ := hyields later hmem hlater
        constructor
        · by_contra hne
          exact absurd (hsets.symm.trans (hsetting (Bool.eq_true_of_not_eq_false hne)).1) (by decide)
        · by_contra hne
          have hnot := hreading (Bool.eq_true_of_not_eq_false hne) hsets
          exact absurd (hpassed.symm.trans hnot) (by decide)
      cases matchesHeaders_still hbegins htail fun later hmem hlater =>
        (hquiet later hmem hlater).1
      obtain ⟨s₁, hs₁, hsame⟩ := hok s
      have hagrees := hrest hpassed (matchesHeaders_elsewhere hbegins htail hquiet hsame)
      cases matched with
      | False => exact absurd rfl (hfailed hsets)
      | True =>
        change matchesResumed message (none :: results) (condition :: rest) s = _
        rw [matchesResumed_cons_of_ok hs₁, matchesComplete_cons_of_ok hs₁, if_pos rfl, if_pos rfl,
          hresumed s₁ rfl]
        exact hagrees.symm
      | Deferred =>
        change matchesResumed message (none :: results) (condition :: rest) s = _
        rw [matchesResumed_cons_of_ok hs₁, matchesComplete_cons_of_ok hs₁, if_pos rfl, if_pos rfl]
        exact hagrees
  | false =>
    -- Nothing behind the condition is reached, so the header must have changed nothing there.
    cases matchesHeaders_still hbegins htail fun later hmem hlater => by
      by_contra hne
      have hnot := ((hyields later hmem hlater).1 (Bool.eq_true_of_not_eq_false hne)).2
      exact absurd (hpassed.symm.trans hnot) (by decide)
    cases hrun : condition.matchesComplete message s with
    | ok b s₁ =>
      cases CompiledCondition.fails_of_not_passedBy hresolved hdeferred hpassed hrun
      cases matched with
      | False =>
        have hsets : condition.setsMatch = false := by
          by_contra hne
          exact hfailed (Bool.eq_true_of_not_eq_false hne) rfl
        cases CompiledCondition.still_matchesComplete hsets hrun
        exact matchesComplete_cons_of_ok hrun
      | True => exact (matchesResumed_cons_of_ok hrun).trans (matchesComplete_cons_of_ok hrun).symm
      | Deferred =>
        exact (matchesResumed_cons_of_ok hrun).trans (matchesComplete_cons_of_ok hrun).symm
    | error e s₁ =>
      cases matched with
      | False =>
        have hsets : condition.setsMatch = false := by
          by_contra hne
          exact hfailed (Bool.eq_true_of_not_eq_false hne) rfl
        exact absurd hrun (CompiledCondition.not_error_of_quiet hdeferred hsets)
      | True =>
        exact (matchesResumed_cons_of_error hrun).trans (matchesComplete_cons_of_error hrun).symm
      | Deferred =>
        exact (matchesResumed_cons_of_error hrun).trans (matchesComplete_cons_of_error hrun).symm

theorem matchesHeaders_agrees (hbegins : Begins head message)
    (hresolved : ∀ condition ∈ conditions, condition.isResolved = true)
    (h : matchesHeaders head conditions s = .ok (matched, results) s')
    (horder : InOrder head message (matched == .False) (conditions.take results.length)) :
    Agrees message conditions matched results s s' := by
  induction conditions generalizing s s' matched results with
  | nil =>
    cases h
    rfl
  | cons condition rest ih =>
    have hrest : ∀ condition ∈ rest, condition.isResolved = true := fun condition hmem =>
      hresolved condition (List.mem_cons_of_mem _ hmem)
    cases hdecided : condition.decidedBy head with
    | true =>
      rcases matchesHeaders_cons_decided hbegins hdecided h with
        ⟨hcomplete, rfl, rfl⟩ | ⟨s₁, results', hcomplete, rfl, htail⟩
      · exact matchesComplete_cons_of_ok hcomplete
      · rw [List.length_cons, List.take_succ_cons, InOrder, if_pos hdecided] at horder
        have hagrees := ih hrest htail horder
        unfold Agrees at hagrees ⊢
        rw [matchesComplete_cons_of_ok hcomplete, if_pos rfl]
        exact hagrees
    | false =>
      obtain ⟨matched', results', htail, rfl, rfl⟩ := matchesHeaders_cons_deferred hdecided h
      rw [List.length_cons, List.take_succ_cons, InOrder,
        if_neg (by simp [hdecided])] at horder
      obtain ⟨hfailed, hyields, hinorder⟩ := horder
      have hsame : ((if matched' = .False then PartialMatch.False else .Deferred) == .False) =
          (matched' == .False) := by
        cases matched' with
        | True => rfl
        | False => rfl
        | Deferred => rfl
      rw [hsame] at hfailed hinorder
      refine agrees_cons_deferred hbegins (hresolved condition List.mem_cons_self) hdecided htail ?_
        hyields fun hpassed {s s'} htail' => ih hrest htail' (hinorder hpassed)
      rintro hsets rfl
      exact absurd (hfailed hsets) (by decide)

end Tests

end ProcmailRs
