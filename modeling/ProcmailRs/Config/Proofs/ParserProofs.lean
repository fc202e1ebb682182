import ProcmailRs.Config.ExpressionParser
import ProcmailRs.Lib.Refinement

/-!
# Text that is parsed as itself

A text is parsed to a literal of the same text exactly when it has no dollar sign, no quote, and no
backslash before its last byte: everything else is either taken out or becomes a parameter.
-/

namespace ProcmailRs.Config

/-- A byte that an expression does not take as it is. -/
def isExpressionSyntax (b : UInt8) : Bool := b == 36 || b == 39 || b == 34

/-- Text without anything to expand or to take out. A backslash at the end stands for itself. -/
def isPlain : Bytes → Bool
  | [] => true
  | [b] => !isExpressionSyntax b
  | b :: rest => !isExpressionSyntax b && b != 92 && isPlain rest

/-! ### Literal parts -/

theorem literalText_append (parts rest : ShellExpression) :
    literalText (parts ++ rest) =
      (literalText parts).bind fun text => (literalText rest).map (text ++ ·) := by
  induction parts with
  | nil =>
    rw [List.nil_append, literalText, Option.bind_some]
    cases literalText rest <;> rfl
  | cons part parts ih =>
    cases part with
    | Literal text =>
      rw [List.cons_append, literalText, literalText, ih]
      cases literalText parts with
      | none => rfl
      | some first =>
        rw [Option.bind_some, Option.map_some, Option.bind_some, Option.map_map]
        congr 1
        funext last
        exact (List.append_assoc _ _ _).symm
    | Variable name operation word => rfl
    | RegexQuotedVariable name => rfl
    | Command command => rfl
    | PatternQuote expression => rfl

theorem literalText_pushLiteralPart (parts : ShellExpression) (text : Bytes) :
    literalText (pushLiteralPart parts text) = (literalText parts).map (· ++ text) := by
  unfold pushLiteralPart
  split_ifs with hempty
  · rw [List.isEmpty_iff.mp hempty]
    cases literalText parts <;> simp
  · split
    · rename_i previous hlast
      obtain ⟨init, rfl⟩ := List.getLast?_eq_some_iff.mp hlast
      rw [List.dropLast_concat, literalText_append, literalText_append]
      cases literalText init <;> simp [literalText]
    · rw [literalText_append]
      cases literalText parts <;> simp [literalText]

/-- A parameter is not text. -/
theorem literalText_pushPart {syntax_ : WordSyntax} (hword : syntax_.patternWord = false)
    (state : WordState) (name : String) (operation : ParameterOperation) (word : ShellExpression) :
    literalText (syntax_.pushPart state (.Variable name operation word)).parts = none := by
  unfold WordSyntax.pushPart WordSyntax.patternQuoted
  rw [hword]
  show literalText (_ ++ [ShellPart.Variable name operation word]) = none
  rw [literalText_append]
  cases literalText (pushLiteralPart state.parts state.literal) <;> rfl

/-! ### Plain text -/

/-- The syntax of a whole text without commands. -/
def textSyntax (line : Nat) : WordSyntax := ⟨line, false, 0, false, .Unquoted, false⟩

theorem parseVariable_ok {line : Nat} {parseWord : Bool → Bytes → Parsed (ShellExpression × Bytes)}
    {patternWord : Bool} {rest after : Bytes} {part : ShellPart}
    (h : parseVariable line parseWord patternWord rest = .ok (part, after)) :
    ∃ name operation word, part = .Variable name operation word := by
  unfold parseVariable at h
  obtain ⟨⟨⟨name, operation, word⟩, tail⟩, -, h⟩ := bind_eq_ok h
  dsimp only at h
  split_ifs at h
  cases h
  exact ⟨name, operation, word, rfl⟩

theorem isPlain_cons {b : UInt8} {rest : Bytes} :
    isPlain (b :: rest) = true ↔
      isExpressionSyntax b = false ∧ (b = 92 → rest = []) ∧ isPlain rest = true := by
  cases rest with
  | nil => simp [isPlain]
  | cons c rest => simp [isPlain, and_assoc]

/-- A byte of plain text is copied. -/
theorem parseLoop_plain {line : Nat} {rest : Bytes} (hplain : isPlain rest = true) {fuel : Nat}
    (hfuel : rest.length ≤ fuel) (literal : Bytes) :
    parseLoop fuel (textSyntax line) ⟨[], literal, .Unquoted⟩ rest =
      .ok (pushLiteralPart [] (literal ++ rest), []) := by
  induction rest generalizing fuel literal with
  | nil =>
    rw [parseLoop, List.append_nil]
    rfl
  | cons b rest ih =>
    obtain ⟨hordinary, hslash, hrest⟩ := isPlain_cons.mp hplain
    cases fuel with
    | zero => cases hfuel
    | succ fuel =>
      have hcopy : parseLoop fuel (textSyntax line) ⟨[], literal ++ [b], .Unquoted⟩ rest =
          .ok (pushLiteralPart [] (literal ++ b :: rest), []) := by
        rw [ih hrest (by simpa using hfuel), List.append_assoc, List.singleton_append]
      simp only [isExpressionSyntax, Bool.or_eq_false_iff, beq_eq_false_iff_ne] at hordinary
      have hquote : WordSyntax.quoteAfter .Unquoted b = none := by
        simp [WordSyntax.quoteAfter, hordinary]
      refine Eq.trans ?_ hcopy
      by_cases hb : b = 92
      · obtain rfl := hslash hb
        subst hb
        simp [parseLoop, textSyntax, hquote, WordSyntax.pushCharacter, expressionCharacter,
          WordSyntax.patternQuoted]
      · simp [parseLoop, textSyntax, hquote, hb, hordinary, WordSyntax.pushCharacter,
          expressionCharacter, WordSyntax.patternQuoted]

/-- The text that is read from here on is no longer than what is left, and shorter unless what is left
is plain. -/
def Accounted (text : Bytes) (state : WordState) (rest : Bytes) : Prop :=
  ∃ before, literalText state.parts = some before ∧
    text.length ≤ before.length + state.literal.length + rest.length ∧
    (text.length = before.length + state.literal.length + rest.length →
      state.quote = .Unquoted ∧ isPlain rest = true)

/-- A byte is taken out. -/
theorem Accounted.skip {text : Bytes} {state : WordState} {rest taken : Bytes} {quote : QuoteMode}
    (htaken : taken ≠ []) (h : Accounted text { state with quote := quote } rest) :
    Accounted text state (taken ++ rest) := by
  obtain ⟨before, hbefore, hlength, -⟩ := h
  have hpos := List.length_pos_iff.mpr htaken
  dsimp only at hbefore hlength
  refine ⟨before, hbefore, ?_, fun heq => ?_⟩ <;> rw [List.length_append] at * <;> omega

/-- A byte is copied. -/
theorem Accounted.copy {text : Bytes} {state : WordState} {b : UInt8} {rest : Bytes}
    (hplain : state.quote = .Unquoted → isPlain rest = true → isPlain (b :: rest) = true)
    (h : Accounted text (WordSyntax.pushCharacter state b false) rest) :
    Accounted text state (b :: rest) := by
  obtain ⟨before, hbefore, hlength, hequal⟩ := h
  simp only [WordSyntax.pushCharacter, expressionCharacter, Bool.false_and, Bool.false_eq_true,
    if_false, List.length_append, List.length_singleton] at hbefore hlength hequal
  refine ⟨before, hbefore, by rw [List.length_cons]; omega, fun heq => ?_⟩
  rw [List.length_cons] at heq
  obtain ⟨hquote, hrest⟩ := hequal (by omega)
  exact ⟨hquote, hplain hquote hrest⟩

/-- A byte is copied and the backslash before it taken out. -/
theorem Accounted.escape {text : Bytes} {state : WordState} {b next : UInt8} {rest : Bytes}
    (h : Accounted text (WordSyntax.pushCharacter state next false) rest) :
    Accounted text state (b :: next :: rest) := by
  obtain ⟨before, hbefore, hlength, -⟩ := h
  simp only [WordSyntax.pushCharacter, expressionCharacter, Bool.false_and, Bool.false_eq_true,
    if_false, List.length_append, List.length_singleton] at hbefore hlength
  refine ⟨before, hbefore, ?_, fun heq => ?_⟩ <;> simp only [List.length_cons] at * <;> omega

theorem accounted_finish {line : Nat} {state : WordState} {rest after text : Bytes}
    {parts : ShellExpression} (h : (textSyntax line).finish state rest = .ok (parts, after))
    (htext : literalText parts = some text) : Accounted text state rest := by
  unfold WordSyntax.finish at h
  split_ifs at h with hquote hbrace
  cases h
  rw [literalText_pushLiteralPart] at htext
  obtain ⟨before, hbefore, rfl⟩ := Option.map_eq_some_iff.mp htext
  refine ⟨before, hbefore, by rw [List.length_append]; omega, fun heq => ⟨?_, ?_⟩⟩
  · by_contra hne
    exact hquote hne
  · rw [List.length_append] at heq
    obtain rfl : rest = [] := List.length_eq_zero_iff.mp (by omega)
    rfl

theorem accounted_parseLoop {line fuel : Nat} {state : WordState} {rest after text : Bytes}
    {parts : ShellExpression}
    (h : parseLoop fuel (textSyntax line) state rest = .ok (parts, after))
    (htext : literalText parts = some text) : Accounted text state rest := by
  induction fuel generalizing state rest with
  | zero =>
    cases rest with
    | nil =>
      rw [parseLoop] at h
      exact accounted_finish h htext
    | cons b rest =>
      rw [parseLoop] at h
      · exact accounted_finish h htext
      · simp
  | succ fuel ih =>
    cases rest with
    | nil =>
      rw [parseLoop] at h
      exact accounted_finish h htext
    | cons b rest =>
      simp only [parseLoop, textSyntax, Bool.false_and, Bool.false_eq_true, if_false] at h
      cases hquote : WordSyntax.quoteAfter state.quote b with
      | some quote =>
        rw [hquote] at h
        exact @Accounted.skip _ _ _ [b] _ (by simp) (ih h)
      | none =>
        rw [hquote] at h
        dsimp only at h
        by_cases hsingle : state.quote = .Single
        · rw [if_pos (by simp [hsingle])] at h
          exact (ih h).copy fun hunquoted => by rw [hsingle] at hunquoted; cases hunquoted
        rw [if_neg (by simpa using hsingle)] at h
        by_cases hslash : b = 92
        · rw [if_pos (by simp [hslash])] at h
          subst hslash
          cases rest with
          | nil => exact (@accounted_finish line _ _ _ _ _ h htext).copy fun _ _ => rfl
          | cons next tail =>
            dsimp only at h
            by_cases hescape : escapes state.quote next = true
            · rw [if_pos hescape] at h
              exact (ih h).escape
            · rw [if_neg hescape] at h
              refine (ih h).copy fun hunquoted => ?_
              rw [hunquoted] at hescape
              exact absurd rfl hescape
        rw [if_neg (by simpa using hslash)] at h
        by_cases hdollar : b = 36
        · -- A parameter is left in the parts, and no text will come of them.
          rw [if_pos (by simp [hdollar])] at h
          obtain ⟨⟨part, tail⟩, hpart, h⟩ := bind_eq_ok h
          obtain ⟨name, operation, word, rfl⟩ := parseVariable_ok hpart
          obtain ⟨before, hbefore, -⟩ := ih h
          rw [literalText_pushPart rfl] at hbefore
          cases hbefore
        · rw [if_neg (by simpa using hdollar)] at h
          refine (ih h).copy fun hunquoted hrest => ?_
          rw [hunquoted] at hquote
          have hquotes : b ≠ 39 ∧ b ≠ 34 := by
            constructor
            · rintro rfl
              cases hquote
            · rintro rfl
              cases hquote
          refine isPlain_cons.mpr ⟨?_, fun hb => absurd hb hslash, hrest⟩
          simp [isExpressionSyntax, hdollar, hquotes]

/-- A text is its own expression exactly when it is plain. -/
theorem parseExpression_literal_iff (text : Bytes) (line : Nat) :
    (parseExpression text line).toOption.bind literalText = some text ↔ isPlain text = true := by
  constructor
  · intro h
    obtain ⟨parts, hparts, htext⟩ := Option.bind_eq_some_iff.mp h
    cases hloop : parseLoop text.length (textSyntax line) ⟨[], [], .Unquoted⟩ text with
    | error error =>
      have hparse : parseExpression text line = .error error := by
        show (parseLoop text.length (textSyntax line) ⟨[], [], .Unquoted⟩ text >>= _) = _
        rw [hloop]
        rfl
      rw [hparse] at hparts
      cases hparts
    | ok result =>
      obtain ⟨read, after⟩ := result
      have hparse : parseExpression text line = .ok read := by
        show (parseLoop text.length (textSyntax line) ⟨[], [], .Unquoted⟩ text >>= _) = _
        rw [hloop]
        rfl
      rw [hparse] at hparts
      cases hparts
      obtain ⟨before, hbefore, -, hequal⟩ := accounted_parseLoop hloop htext
      cases hbefore
      exact (hequal (by simp)).2
  · intro hplain
    have hloop := @parseLoop_plain line text hplain text.length (le_refl _) []
    have hparse : parseExpression text line = .ok (pushLiteralPart [] text) := by
      show (parseLoop text.length (textSyntax line) ⟨[], [], .Unquoted⟩ text >>= _) = _
      rw [hloop]
      rfl
    rw [hparse]
    show literalText (pushLiteralPart [] text) = some text
    rw [literalText_pushLiteralPart]
    rfl

end ProcmailRs.Config
