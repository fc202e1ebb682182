import ProcmailRs.Config.Proofs.PatternWordProofs

/-!
# The text of a pattern word is the text of its marks

The parts that the lexer makes of a pattern word and the parts with all of the quoting are made side by
side. The value of the one is the text of the marked bytes of the other.
-/

namespace ProcmailRs.Config

open WordSyntax

/-! ### The text of marks -/

theorem encode_append (front back : List MarkedByte) :
    encode (front ++ back) = encode front ++ encode back := List.flatMap_append

theorem encode_plainMarks (text : Bytes) : encode (plainMarks text) = text := by
  induction text with
  | nil => rfl
  | cons byte text ih =>
    show encode ((byte, 0) :: plainMarks text) = _
    rw [encode_cons, ih]
    rfl

theorem encode_quoteMarks (marks : List MarkedByte) :
    encode (quoteMarks marks) = quotePatternBytes (encode marks) := by
  induction marks with
  | nil => rfl
  | cons mark marks ih =>
    show encode ((mark.1, mark.2 + 1) :: quoteMarks marks) = _
    rw [encode_cons, encode_cons, ih, quotePatternBytes_append, Function.iterate_succ_apply']

/-- A quoted character has the text of its mark. -/
theorem expressionCharacter_quoted (byte : UInt8) :
    expressionCharacter byte true = quotePatternBytes [byte] := by
  unfold expressionCharacter quotePatternBytes
  rw [List.flatMap_singleton]
  rfl

theorem expressionMarks_append (lookup : Lookup) (parts rest : ShellExpression)
    (room nesting : Nat) :
    expressionMarks lookup (parts ++ rest) room nesting =
      (expressionMarks lookup parts room nesting).bind fun marks =>
        (expressionMarks lookup rest (room - (encode marks).length) nesting).map (marks ++ ·) := by
  induction parts generalizing room with
  | nil =>
    rw [List.nil_append, expressionMarks, Option.bind_some]
    show _ = (expressionMarks lookup rest room nesting).map _
    cases expressionMarks lookup rest room nesting <;> rfl
  | cons part parts ih =>
    rw [List.cons_append, expressionMarks, expressionMarks, Option.bind_assoc]
    congr 1
    funext marks
    rw [ih]
    cases expressionMarks lookup parts (room - (encode marks).length) nesting with
    | none => rfl
    | some inner =>
      rw [Option.bind_some, Option.map_some, Option.bind_some, Option.map_map, encode_append,
        List.length_append, Nat.sub_add_eq]
      congr 1
      funext last
      exact (List.append_assoc marks inner last).symm

theorem expressionMarks_singleton (lookup : Lookup) (part : ShellPart) (room nesting : Nat) :
    expressionMarks lookup [part] room nesting = part.marks lookup room nesting := by
  rw [expressionMarks]
  cases part.marks lookup room nesting <;> simp [expressionMarks]

/-! ### Expressions with the same text -/

/-- The value of the expression is the text of the marked bytes of the other one. -/
def Encodes (code meant : ShellExpression) : Prop :=
  ∀ lookup room nesting, expressionValue lookup code room nesting =
    (expressionMarks lookup meant room nesting).map encode

theorem encodes_nil : Encodes [] [] := by
  intro lookup room nesting
  rw [expressionValue, expressionMarks]
  rfl

theorem Encodes.append {code meant code' meant' : ShellExpression} (h : Encodes code meant)
    (h' : Encodes code' meant') : Encodes (code ++ code') (meant ++ meant') := by
  intro lookup room nesting
  rw [expressionValue_append, expressionMarks_append, h]
  cases expressionMarks lookup meant room nesting with
  | none => rfl
  | some marks =>
    rw [Option.map_some, Option.bind_some, Option.bind_some, h', Option.map_map, Option.map_map]
    congr 1
    funext last
    exact (encode_append marks last).symm

/-- An operation sees the text of its word. -/
theorem parameterValue_marks (operation : ParameterOperation) (found : Option Bytes)
    (room nesting : Nat) (word : Option (List MarkedByte)) :
    parameterValue operation found room nesting (word.map encode) =
      (parameterMarks operation found room nesting word).map encode := by
  unfold parameterMarks
  split
  · rename_i hselects
    have htransform : operation.isValueTransform = false := by
      cases operation <;> first | rfl | cases hselects
    have hmessage : operation ≠ .ErrorIfUnsetOrEmpty := by
      rintro rfl
      cases hselects
    unfold parameterValue selectedValue
    rw [if_neg (by simp [htransform]), if_neg (fun h => hmessage h.1), if_pos hselects]
  · rw [Option.map_map]
    cases parameterValue operation found room nesting (word.map encode) with
    | none => rfl
    | some value => exact congrArg some (encode_plainMarks value).symm

theorem encodes_variable (name : String) (operation : ParameterOperation)
    {word meant : ShellExpression} (h : Encodes word meant) :
    Encodes [.Variable name operation word] [.Variable name operation meant] := by
  intro lookup room nesting
  rw [expressionValue_singleton, expressionMarks_singleton, ShellPart.value, ShellPart.marks,
    ← parameterValue_marks]
  split
  · rw [h]
  · rfl

theorem encodes_command (text : Bytes) : Encodes [.Command text] [.Command text] := by
  intro lookup room nesting
  rw [expressionValue_singleton, expressionMarks_singleton, ShellPart.value, ShellPart.marks]
  rfl

theorem encodes_literal (text : Bytes) : Encodes [.Literal text] [.Literal text] := by
  intro lookup room nesting
  rw [expressionValue_singleton, expressionMarks_singleton, ShellPart.value, ShellPart.marks,
    Option.map_map]
  cases fitting room text with
  | none => rfl
  | some text => exact congrArg some (encode_plainMarks text).symm

theorem encodes_patternQuote {code meant : ShellExpression} (h : Encodes code meant) :
    Encodes [.PatternQuote code] [.PatternQuote meant] := by
  intro lookup room nesting
  rw [expressionValue_singleton, expressionMarks_singleton, ShellPart.value, ShellPart.marks, h]
  cases expressionMarks lookup meant room nesting with
  | none => rfl
  | some marks =>
    rw [Option.map_some, Option.bind_some, Option.bind_some, ← encode_quoteMarks]
    unfold fitting
    split <;> rfl

/-- A text fits where it fits with its backslashes. -/
theorem fitting_bind_quote (room : Nat) (byte : UInt8) :
    ((fitting room [byte]).bind fun value => fitting room (quotePatternBytes value)) =
      fitting room (quotePatternBytes [byte]) := by
  unfold fitting
  by_cases hroom : [byte].length ≤ room
  · rw [if_pos hroom]
    rfl
  · have hlength : 1 ≤ (quotePatternBytes [byte]).length := by
      cases hspecial : isPatternSpecial byte with
      | true => rw [quotePatternBytes_special hspecial]; exact Nat.le_succ 1
      | false => rw [quotePatternBytes_plain hspecial]; exact Nat.le_refl 1
    rw [List.length_singleton] at hroom
    rw [if_neg (by simpa using hroom), if_neg (by omega)]
    rfl

/-- The backslashes that the lexer puts into a literal are those of its mark. -/
theorem encodes_character (byte : UInt8) (quoted : Bool) :
    Encodes [.Literal (expressionCharacter byte quoted)] [quotedPart quoted (.Literal [byte])] := by
  cases quoted with
  | false => exact encodes_literal [byte]
  | true =>
    rw [expressionCharacter_quoted]
    intro lookup room nesting
    have hquote := encodes_patternQuote (encodes_literal [byte]) lookup room nesting
    show _ = (expressionMarks lookup [.PatternQuote [.Literal [byte]]] room nesting).map encode
    rw [← hquote, expressionValue_singleton, expressionValue_singleton, ShellPart.value,
      ShellPart.value, expressionValue_singleton, ShellPart.value, fitting_bind_quote]

/-! ### Parameters -/

section Parameters

-- The parsers of a word that is part of a pattern.
variable {line : Nat} {code meant : Bool → Bytes → Parsed (ShellExpression × Bytes)}

/-- Whatever the one parser makes of a text, the other one makes an expression with the same text. -/
def ParsesAlike (code meant : Bool → Bytes → Parsed (ShellExpression × Bytes)) : Prop :=
  ∀ rest word tail, code true rest = .ok (word, tail) →
    ∃ word', meant true rest = .ok (word', tail) ∧ Encodes word word'

/-- The results differ in the quoting of the word of the parameter. -/
def ParametersAlike (code meant : Parsed ParsedParameter) : Prop :=
  ∀ name operation word tail, code = .ok ((name, operation, word), tail) →
    ∃ word', meant = .ok ((name, operation, word'), tail) ∧ Encodes word word'

theorem ParametersAlike.wordless (name : String) (operation : ParameterOperation) (tail : Bytes) :
    ParametersAlike (.ok ((name, operation, []), tail)) (.ok ((name, operation, []), tail)) := by
  intro name' operation' word tail' h
  cases h
  exact ⟨[], rfl, encodes_nil⟩

theorem ParametersAlike.error (error : ExpansionError) (meant : Parsed ParsedParameter) :
    ParametersAlike (.error error) meant := by
  intro name operation word tail h
  cases h

theorem ParametersAlike.bind {α : Type} {first : Parsed α} {code meant : α → Parsed ParsedParameter}
    (h : ∀ value, ParametersAlike (code value) (meant value)) :
    ParametersAlike (first >>= code) (first >>= meant) := by
  cases first with
  | error error => exact ParametersAlike.error error _
  | ok value => exact h value

theorem parseParameterWord_alike (hwords : ParsesAlike code meant) (name : String)
    (operation : ParameterOperation) (rest : Bytes) :
    ParametersAlike
      (parseParameterWord line code true rest >>= fun (word, rest) =>
        .ok ((name, operation, word), rest))
      (parseParameterWord line meant true rest >>= fun (word, rest) =>
        .ok ((name, operation, word), rest)) := by
  intro name' operation' word tail h
  obtain ⟨⟨found, rest'⟩, hfound, heq⟩ := bind_eq_ok h
  cases heq
  unfold parseParameterWord at hfound ⊢
  obtain ⟨⟨found', rest''⟩, hparsed, hfound⟩ := bind_eq_ok hfound
  obtain ⟨word', hparsed', hencodes⟩ := hwords _ _ _ hparsed
  rw [hparsed', ok_bind]
  split at hfound
  · rename_i heq
    cases heq
    cases hfound
    exact ⟨word', rfl, hencodes⟩
  · cases hfound

theorem parseBracedVariable_alike (hwords : ParsesAlike code meant) (rest : Bytes) :
    ParametersAlike (parseBracedVariable line code true rest)
      (parseBracedVariable line meant true rest) := by
  unfold parseBracedVariable
  split
  · exact ParametersAlike.wordless _ _ _
  · dsimp only
    apply ParametersAlike.bind
    intro _
    split
    · exact ParametersAlike.wordless _ _ _
    · exact ParametersAlike.error _ _
  · split
    · apply ParametersAlike.bind
      intro positional
      dsimp only
      split
      · exact ParametersAlike.wordless _ _ _
      · exact ParametersAlike.error _ _
    · dsimp only
      apply ParametersAlike.bind
      intro _
      split
      · split
        · exact ParametersAlike.wordless _ _ _
        · exact ParametersAlike.error _ _
      · rename_i operation isPattern tail hoperator
        split
        · exact ParametersAlike.error _ _
        · rw [Bool.or_true]
          exact parseParameterWord_alike hwords _ _ _

theorem parseParameter_alike (hwords : ParsesAlike code meant) (rest : Bytes) :
    ParametersAlike (parseParameter line code true rest) (parseParameter line meant true rest) := by
  unfold parseParameter
  split
  · exact ParametersAlike.error _ _
  · split
    · exact parseBracedVariable_alike hwords _
    · split
      · apply ParametersAlike.bind
        intro positional
        exact ParametersAlike.wordless _ _ _
      · split
        · exact ParametersAlike.wordless _ _ _
        · split
          · exact ParametersAlike.wordless _ _ _
          · exact ParametersAlike.error _ _

theorem parseVariable_alike (hwords : ParsesAlike code meant) {rest tail : Bytes} {part : ShellPart}
    (h : parseVariable line code true rest = .ok (part, tail)) :
    ∃ part', parseVariable line meant true rest = .ok (part', tail) ∧ Encodes [part] [part'] := by
  unfold parseVariable at h ⊢
  obtain ⟨⟨⟨name, operation, word⟩, tail'⟩, hparameter, h⟩ := bind_eq_ok h
  obtain ⟨word', hparameter', hencodes⟩ := parseParameter_alike hwords rest _ _ _ _ hparameter
  rw [hparameter', ok_bind]
  dsimp only at h ⊢
  split at h
  · cases h
  · rename_i hsupported
    cases h
    rw [if_neg hsupported]
    exact ⟨_, rfl, encodes_variable name operation hencodes⟩

end Parameters

/-! ### The parts side by side -/

theorem encodes_parseCommand {line : Nat} {rest tail : Bytes} {part : ShellPart}
    (h : parseCommand line rest = .ok (part, tail)) : Encodes [part] [part] := by
  unfold parseCommand at h
  split at h
  · cases h
  · cases h
    exact encodes_command _

/-- What has been read so far has the text of the parts with their quoting. -/
def WordState.Reads (state : WordState) (parts : ShellExpression) : Prop :=
  Encodes (state.parts ++ [.Literal state.literal]) parts

theorem reads_start (quote : QuoteMode) : WordState.Reads ⟨[], [], quote⟩ [] := by
  intro lookup room nesting
  show expressionValue lookup [.Literal []] room nesting = _
  rw [expressionValue_singleton, ShellPart.value, expressionMarks]
  rfl

/-- Literal text in a row may be split into parts. -/
theorem expressionValue_literal_append (lookup : Lookup) (parts : ShellExpression)
    (front back : Bytes) (room nesting : Nat) :
    expressionValue lookup (parts ++ [.Literal (front ++ back)]) room nesting =
      expressionValue lookup ((parts ++ [.Literal front]) ++ [.Literal back]) room nesting := by
  rw [List.append_assoc, expressionValue_append, expressionValue_append]
  congr 1
  funext value
  rw [expressionValue_append, expressionValue_singleton, expressionValue_singleton, ShellPart.value,
    ShellPart.value, fitting_append]
  congr 2
  funext first
  rw [expressionValue_singleton, ShellPart.value]

theorem WordState.Reads.quote {state : WordState} {parts : ShellExpression}
    (h : state.Reads parts) (quote : QuoteMode) :
    WordState.Reads { state with quote := quote } parts := h

theorem WordState.Reads.character {state : WordState} {parts : ShellExpression}
    (h : state.Reads parts) (byte : UInt8) (quoted : Bool) :
    (pushCharacter state byte quoted).Reads (parts ++ [quotedPart quoted (.Literal [byte])]) := by
  intro lookup room nesting
  show expressionValue lookup (state.parts ++ [.Literal (state.literal ++ _)]) room nesting = _
  rw [expressionValue_literal_append]
  exact (h.append (encodes_character byte quoted)) lookup room nesting

theorem encodes_pushLiteralPart {state : WordState} {parts : ShellExpression}
    (h : state.Reads parts) : Encodes (pushLiteralPart state.parts state.literal) parts := by
  intro lookup room nesting
  rw [expressionValue_pushLiteralPart]
  exact h lookup room nesting

theorem encodes_quotedPart {part part' : ShellPart} (h : Encodes [part] [part']) (quoted : Bool) :
    Encodes [quotedPart quoted part] [quotedPart quoted part'] := by
  cases quoted with
  | false => exact h
  | true => exact encodes_patternQuote h

theorem WordState.Reads.part {syntax_ : WordSyntax} (hword : syntax_.patternWord = true)
    {state : WordState} {parts : ShellExpression} (h : state.Reads parts) {part part' : ShellPart}
    (hpart : Encodes [part] [part']) :
    (syntax_.pushPart state part).Reads
      (parts ++ [quotedPart (state.quote != syntax_.initialQuote) part']) := by
  have hquoted : syntax_.patternQuoted state = (state.quote != syntax_.initialQuote) := by
    unfold patternQuoted
    rw [hword, Bool.true_and]
  intro lookup room nesting
  show expressionValue lookup ((pushLiteralPart state.parts state.literal ++
    [quotedPart (syntax_.patternQuoted state) part]) ++ [.Literal []]) room nesting = _
  rw [← expressionValue_pushLiteralPart, hquoted]
  exact ((encodes_pushLiteralPart h).append (encodes_quotedPart hpart _)) lookup room nesting

/-- The quoted parts of the rest of a word that the lexer has read. -/
def Continues (result quoted : Parsed (ShellExpression × Bytes)) : Prop :=
  ∀ word tail, result = .ok (word, tail) → ∃ parts, quoted = .ok (parts, tail) ∧ Encodes word parts

theorem continues_finish {syntax_ : WordSyntax} {state : WordState} {parts : ShellExpression}
    (h : state.Reads parts) (rest : Bytes) :
    Continues (syntax_.finish state rest) (syntax_.finish ⟨parts, [], state.quote⟩ rest) := by
  intro word tail hfinish
  unfold finish at hfinish ⊢
  dsimp only
  split at hfinish
  · cases hfinish
  · rename_i hquote
    split at hfinish
    · cases hfinish
    · rename_i hbrace
      cases hfinish
      rw [if_neg hquote, if_neg hbrace]
      exact ⟨parts, rfl, encodes_pushLiteralPart h⟩

/-- The word of a parameter is a word of the same syntax, one level deeper. -/
theorem parsesAlike_word {fuel : Nat} {syntax_ : WordSyntax} {quote : QuoteMode}
    (h : ∀ patternWord, patternWord = true → ∀ rest,
      Continues
        (parseLoop fuel ⟨syntax_.line, syntax_.allowCommands, syntax_.nesting + 1, true, quote,
          patternWord⟩ ⟨[], [], quote⟩ rest)
        (quotedParts fuel ⟨syntax_.line, syntax_.allowCommands, syntax_.nesting + 1, true, quote,
          patternWord⟩ [] quote rest)) :
    ParsesAlike
      (fun patternWord rest => do
        checkExpansionDepth (syntax_.nesting + 1) syntax_.line
        parseLoop fuel ⟨syntax_.line, syntax_.allowCommands, syntax_.nesting + 1, true, quote,
          patternWord⟩ ⟨[], [], quote⟩ rest)
      (fun patternWord rest => do
        checkExpansionDepth (syntax_.nesting + 1) syntax_.line
        quotedParts fuel ⟨syntax_.line, syntax_.allowCommands, syntax_.nesting + 1, true, quote,
          patternWord⟩ [] quote rest) := by
  intro rest word tail hnested
  obtain ⟨_, hdepth, hnested⟩ := bind_eq_ok hnested
  dsimp only
  rw [hdepth, ok_bind]
  exact h true rfl rest word tail hnested

/-- The parts of a word and its quoted parts are made by the same steps. -/
theorem continues_parseLoop {fuel : Nat} {syntax_ : WordSyntax} (hword : syntax_.patternWord = true)
    {state : WordState} {parts : ShellExpression} (h : state.Reads parts) (rest : Bytes) :
    Continues (parseLoop fuel syntax_ state rest)
      (quotedParts fuel syntax_ parts state.quote rest) := by
  induction fuel generalizing syntax_ state parts rest with
  | zero =>
    cases rest with
    | nil => exact continues_finish h []
    | cons byte rest => exact continues_finish h (byte :: rest)
  | succ fuel ih =>
    cases rest with
    | nil => exact continues_finish h []
    | cons byte rest =>
      have hquoted : syntax_.patternQuoted state = (state.quote != syntax_.initialQuote) := by
        unfold patternQuoted
        rw [hword, Bool.true_and]
      rw [parseLoop.eq_def, quotedParts.eq_def]
      dsimp only
      split
      · exact continues_finish h (byte :: rest)
      · cases quoteAfter state.quote byte with
        | some quote => exact ih hword (h.quote quote) rest
        | none =>
          dsimp only
          rw [hquoted, hword]
          split
          · exact ih hword (h.character byte _) rest
          · split
            · cases rest with
              | nil => exact ih hword (h.character 92 _) []
              | cons next tail =>
                dsimp only
                split
                · exact ih hword (h.character next true) tail
                · exact ih hword (h.character 92 _) (next :: tail)
            · split
              · -- A command, with or without quotes around it.
                intro word tail hparse
                obtain ⟨⟨part, rest'⟩, hcommand, hparse⟩ := bind_eq_ok hparse
                rw [hcommand, ok_bind]
                exact ih hword (h.part hword (encodes_parseCommand hcommand)) rest' word tail hparse
              · split
                · -- A parameter, whose word is a pattern word of its own.
                  intro word tail hparse
                  obtain ⟨⟨part, rest'⟩, hvariable, hparse⟩ := bind_eq_ok hparse
                  obtain ⟨part', hvariable', hpart⟩ := parseVariable_alike
                    (parsesAlike_word fun patternWord hnested nested =>
                      ih hnested (reads_start state.quote) nested) hvariable
                  rw [hvariable', ok_bind]
                  exact ih hword (h.part hword hpart) rest' word tail hparse
                · exact ih hword (h.character byte _) rest

/-! ### Pattern words -/

open ShellPattern (tokenize language matchingEndpointUnchecked matches_byte)

/-- The pattern that a word is evaluated to is the text of its marks. Where its quotes are literal, it
matches what the word means. -/
theorem pattern_word_quotes {fuel : Nat} {syntax_ : WordSyntax} (hword : syntax_.patternWord = true)
    {rest tail pattern : Bytes} {word : ShellExpression} {lookup : Lookup} {room nesting : Nat}
    (hparse : parseLoop fuel syntax_ ⟨[], [], syntax_.initialQuote⟩ rest = .ok (word, tail))
    (hvalue : expressionValue lookup word room nesting = some pattern) :
    ∃ parts marks,
      quotedParts fuel syntax_ [] syntax_.initialQuote rest = .ok (parts, tail) ∧
      expressionMarks lookup parts room nesting = some marks ∧ encode marks = pattern ∧
      (literalQuotes marks = true → language (tokenize pattern) = language (meantTokens marks)) := by
  obtain ⟨parts, hparts, hencodes⟩ :=
    continues_parseLoop hword (reads_start syntax_.initialQuote) rest word tail hparse
  rw [hencodes, Option.map_eq_some_iff] at hvalue
  obtain ⟨marks, hmarks, rfl⟩ := hvalue
  refine ⟨parts, marks, hparts, hmarks, rfl, ?_⟩
  intro hliteral
  rw [tokenize_of_literalQuotes hliteral]

/-- The word of a parameter in an unquoted text. -/
def wordSyntax : WordSyntax := ⟨1, false, 1, true, .Unquoted, true⟩

/-- No variable is set. -/
def noVariables : Lookup := fun _ => none

/-- The marks of a word with a quoted star between brackets and outside of them. -/
def starMarks : List MarkedByte :=
  [(42, 1), (91, 0), (42, 1), (97, 0), (45, 0), (99, 0), (93, 0), (42, 0)]

/-- A quoted star between brackets and outside of them is a star. -/
theorem pattern_word_quotes_stars :
    ∃ parts,
      quotedParts 16 wordSyntax [] .Unquoted (strBytes "\"*\"[\\*a-c]*\x7d") = .ok (parts, [125]) ∧
      expressionMarks noVariables parts 100 1 = some starMarks ∧
      encode starMarks = strBytes "\\*[\\*a-c]*" ∧
      literalQuotes starMarks = true ∧
      language (tokenize (strBytes "\\*[\\*a-c]*")) = language (meantTokens starMarks) := by
  obtain ⟨parts, marks, hparts, hmarks, hencode, hlanguage⟩ :=
    @pattern_word_quotes 16 wordSyntax rfl (strBytes "\"*\"[\\*a-c]*\x7d") [125]
      (strBytes "\\*[\\*a-c]*") [.Literal (strBytes "\\*[\\*a-c]*")] noVariables 100 1 rfl
      (by decide +kernel)
  have hread : (quotedParts 16 wordSyntax [] .Unquoted
      (strBytes "\"*\"[\\*a-c]*\x7d")).toOption.bind (fun parsed =>
        expressionMarks noVariables parsed.1 100 1) = some starMarks := by
    decide +kernel
  rw [show wordSyntax.initialQuote = .Unquoted from rfl] at hparts
  rw [hparts, Except.toOption, Option.bind_some, hmarks] at hread
  obtain rfl := Option.some.inj hread
  have hliteral : literalQuotes starMarks = true := by decide +kernel
  exact ⟨parts, hparts, hmarks, hencode, hliteral, hlanguage hliteral⟩

/-- The marks of a bracket expression with a quoted bracket in it. -/
def bracketMarks : List MarkedByte := [(91, 0), (97, 0), (93, 1), (93, 0)]

/-- A quoted bracket closes the bracket expression that it is a member of. -/
theorem quoted_bracket_closes :
    ∃ parts word,
      quotedParts 8 wordSyntax [] .Unquoted (strBytes "[a\"]\"]\x7d") = .ok (parts, [125]) ∧
      expressionMarks noVariables parts 100 1 = some bracketMarks ∧
      parseLoop 8 wordSyntax ⟨[], [], .Unquoted⟩ (strBytes "[a\"]\"]\x7d") = .ok (word, [125]) ∧
      expressionValue noVariables word 100 1 = some (strBytes "[a]]") ∧
      strBytes "a" ∈ language (meantTokens bracketMarks) ∧
      strBytes "a" ∉ language (tokenize (strBytes "[a]]")) := by
  refine ⟨_, _, rfl, by decide +kernel, rfl, by decide +kernel, ?_, ?_⟩
  · exact (matches_byte _ 97).mp (by decide +kernel)
  · intro h
    have hmatch := (matches_byte (tokenize (strBytes "[a]]")) 97).mpr h
    exact absurd hmatch (by decide +kernel)

end ProcmailRs.Config
