import ProcmailRs.Config.AssignmentWord
import ProcmailRs.Config.Proofs.ParserProofs
import ProcmailRs.Proofs.EncodedWordProofs

/-!
# Spellings are read back

Whichever quotes are put around the pieces of a string, the word that they make is read as literal text,
and the text is the string. Each character between quotes is read on its own, and so is each piece: a piece
starts and ends outside of quotes.
-/

namespace ProcmailRs.Config

open WordSyntax

/-! ### Characters -/

/-- An ASCII byte belongs to the character of the same number. -/
theorem ascii_of_mem_utf8EncodeChar {c : Char} {b : UInt8} (hb : b ∈ String.utf8EncodeChar c)
    (hascii : b < 128) : String.utf8EncodeChar c = [b] ∧ c.toNat = b.toNat := by
  have hlarge : ∀ n : Nat, 128 ≤ n % 256 → b ≠ UInt8.ofNat n := by
    rintro n hn rfl
    rw [UInt8.lt_iff_toNat_lt, UInt8.toNat_ofNat'] at hascii
    have hascii : n % 256 < 128 := hascii
    omega
  have hval : c.val.toNat = c.toNat := rfl
  simp only [String.utf8EncodeChar] at hb ⊢
  split_ifs at hb ⊢ with hone htwo hthree
  · have hb := List.mem_singleton.mp hb
    refine ⟨by rw [hb], ?_⟩
    rw [hb]
    show _ = _ % 256
    omega
  · simp only [List.mem_cons, List.not_mem_nil, or_false] at hb
    rcases hb with hb | hb
    · exact absurd hb (hlarge _ (by omega))
    · exact absurd hb (hlarge _ (by omega))
  · simp only [List.mem_cons, List.not_mem_nil, or_false] at hb
    rcases hb with hb | hb | hb
    · exact absurd hb (hlarge _ (by omega))
    · exact absurd hb (hlarge _ (by omega))
    · exact absurd hb (hlarge _ (by omega))
  · simp only [List.mem_cons, List.not_mem_nil, or_false] at hb
    rcases hb with hb | hb | hb | hb
    · exact absurd hb (hlarge _ (by omega))
    · exact absurd hb (hlarge _ (by omega))
    · exact absurd hb (hlarge _ (by omega))
    · exact absurd hb (hlarge _ (by omega))

theorem not_mem_utf8EncodeChar {c d : Char} (hd : d.toNat < 128) (hne : c ≠ d) :
    UInt8.ofNat d.toNat ∉ String.utf8EncodeChar c := by
  intro hmem
  have hnat : (UInt8.ofNat d.toNat).toNat = d.toNat := by
    rw [UInt8.toNat_ofNat']
    exact Nat.mod_eq_of_lt (by omega)
  have hascii : UInt8.ofNat d.toNat < 128 := by
    rw [UInt8.lt_iff_toNat_lt, hnat]
    exact hd
  have hsame := (ascii_of_mem_utf8EncodeChar hmem hascii).2
  rw [hnat] at hsame
  exact hne (Char.toNat_inj.mp hsame)

/-! ### Reading on -/

/-- Whatever follows the text, the word is read through it, and the reading goes on in the state `state'`
behind it. -/
def Reads (line : Nat) (started : Bool) (state : WordState) (text : Bytes) (state' : WordState) : Prop :=
  ∀ fuel rest, (text ++ rest).length ≤ fuel → ∃ fuel', rest.length ≤ fuel' ∧
    wordLoop line fuel started state (text ++ rest) = wordLoop line fuel' true state' rest

section Reads

variable {line : Nat} {started : Bool} {state state' state'' : WordState} {text text' : Bytes}

theorem Reads.refl (line : Nat) (state : WordState) : Reads line true state [] state := by
  intro fuel rest hfuel
  exact ⟨fuel, hfuel, rfl⟩

theorem Reads.trans (h : Reads line started state text state')
    (h' : Reads line true state' text' state'') : Reads line started state (text ++ text') state'' := by
  intro fuel rest hfuel
  rw [List.append_assoc] at hfuel ⊢
  obtain ⟨between, hbetween, hread⟩ := h fuel (text' ++ rest) hfuel
  obtain ⟨left, hleft, hread'⟩ := h' between rest hbetween
  exact ⟨left, hleft, hread.trans hread'⟩

/-- One turn of the loop that takes the whole text. -/
theorem Reads.step (htext : text ≠ [])
    (h : ∀ fuel rest, wordLoop line (fuel + 1) started state (text ++ rest) =
      wordLoop line fuel true state' rest) : Reads line started state text state' := by
  intro fuel rest hfuel
  have hpos := List.length_pos_iff.mpr htext
  rw [List.length_append] at hfuel
  cases fuel with
  | zero => omega
  | succ fuel => exact ⟨fuel, by omega, h fuel rest⟩

/-- A quotation mark opens or closes a quoted part. -/
theorem reads_quote {byte : UInt8} {quote : QuoteMode} (hquote : quoteAfter state.quote byte = some quote)
    (hstarted : started = true ∨ quote ≠ .Unquoted) :
    Reads line started state [byte] { state with quote := quote } := by
  have hmark : byte = 39 ∨ byte = 34 := by
    unfold quoteAfter at hquote
    split_ifs at hquote with hsingle hdouble
    · exact Or.inl (beq_iff_eq.mp hsingle)
    · exact Or.inr (beq_iff_eq.mp hdouble)
  have hends : endsWord started byte = false := by
    rcases hmark with rfl | rfl <;> rfl
  have hafter : (started || quote != .Unquoted) = true := by
    simpa using hstarted
  refine Reads.step (List.cons_ne_nil _ _) fun fuel rest => ?_
  simp only [List.singleton_append, wordLoop, hends, Bool.and_false, hquote, hafter]
  rfl

/-- A byte between single quotes is copied. -/
theorem reads_single {byte : UInt8} (hquote : state.quote = .Single) (hbyte : byte ≠ 39) :
    Reads line started state [byte] (pushCharacter state byte false) := by
  have hnone : quoteAfter .Single byte = none := by
    simp [quoteAfter, hbyte]
  refine Reads.step (List.cons_ne_nil _ _) fun fuel rest => ?_
  simp only [List.singleton_append, wordLoop, hquote, hnone]
  rfl

/-- A byte behind a backslash that quotes it is copied without the backslash. -/
theorem reads_escaped {byte : UInt8} (hquote : state.quote ≠ .Single)
    (hescapes : escapes state.quote byte = true) :
    Reads line started state [92, byte] (pushCharacter state byte false) := by
  have hnone : quoteAfter state.quote 92 = none := rfl
  have hsingle : (state.quote == .Single) = false := beq_false_of_ne hquote
  refine Reads.step (List.cons_ne_nil _ _) fun fuel rest => ?_
  simp only [List.cons_append, List.nil_append, wordLoop, hnone, hsingle, hescapes]
  cases state.quote <;> rfl

/-- A byte between double quotes is copied unless it has a meaning there. -/
theorem reads_double {byte : UInt8} (hquote : state.quote = .Double)
    (hbyte : byte ≠ 34 ∧ byte ≠ 36 ∧ byte ≠ 92 ∧ byte ≠ 96) :
    Reads line started state [byte] (pushCharacter state byte false) := by
  obtain ⟨hmark, hdollar, hslash, hcommand⟩ := hbyte
  have hnone : quoteAfter .Double byte = none := by
    simp [quoteAfter, hmark]
  refine Reads.step (List.cons_ne_nil _ _) fun fuel rest => ?_
  simp [wordLoop, hquote, hnone, hslash, hcommand, hdollar]

/-- Literal text is read. -/
theorem reads_bytes {parts : ShellExpression} {quote : QuoteMode}
    (hbytes : ∀ byte ∈ text, ∀ literal,
      Reads line true ⟨parts, literal, quote⟩ [byte] ⟨parts, literal ++ [byte], quote⟩)
    (literal : Bytes) :
    Reads line true ⟨parts, literal, quote⟩ text ⟨parts, literal ++ text, quote⟩ := by
  induction text generalizing literal with
  | nil =>
    rw [List.append_nil]
    exact Reads.refl line _
  | cons byte text ih =>
    have hbyte := hbytes byte List.mem_cons_self literal
    have htext := ih (fun byte hbyte => hbytes byte (List.mem_cons_of_mem _ hbyte)) (literal ++ [byte])
    rw [List.append_assoc] at htext
    exact hbyte.trans htext

end Reads

/-! ### Words that are spelled -/

/-- The quotes around a spelling. -/
def Spelling.quote : Spelling → QuoteMode
  | .SingleQuoted => .Single
  | .DoubleQuoted => .Double

section Spellings

variable (line : Nat) (parts : ShellExpression)

theorem reads_character (spelling : Spelling) (c : Char) (literal : Bytes) :
    Reads line true ⟨parts, literal, spelling.quote⟩ (utf8 (spelling.character c))
      ⟨parts, literal ++ String.utf8EncodeChar c, spelling.quote⟩ := by
  cases spelling with
  | SingleQuoted =>
    rw [Spelling.character]
    split_ifs with hc
    · -- The quotes are closed, and opened again behind the apostrophe.
      subst hc
      have hclose : Reads line true ⟨parts, literal, .Single⟩ [39] ⟨parts, literal, .Unquoted⟩ :=
        reads_quote rfl (Or.inl rfl)
      have hescaped : Reads line true ⟨parts, literal, .Unquoted⟩ [92, 39]
          ⟨parts, literal ++ [39], .Unquoted⟩ := reads_escaped (by simp) rfl
      have hopen : Reads line true ⟨parts, literal ++ [39], .Unquoted⟩ [39]
          ⟨parts, literal ++ [39], .Single⟩ := reads_quote rfl (Or.inl rfl)
      exact hclose.trans (hescaped.trans hopen)
    · rw [utf8, List.flatMap_singleton]
      refine reads_bytes (fun byte hbyte literal => ?_) literal
      refine reads_single rfl ?_
      rintro rfl
      exact not_mem_utf8EncodeChar (by decide) hc hbyte
  | DoubleQuoted =>
    rw [Spelling.character]
    split_ifs with hc
    · rcases hc with rfl | rfl | rfl | rfl <;> exact reads_escaped (by simp [Spelling.quote]) rfl
    · rw [utf8, List.flatMap_singleton]
      simp only [not_or] at hc
      obtain ⟨hdollar, hcommand, hmark, hslash⟩ := hc
      refine reads_bytes (fun byte hbyte literal => ?_) literal
      refine reads_double rfl ⟨?_, ?_, ?_, ?_⟩
      · rintro rfl
        exact not_mem_utf8EncodeChar (by decide) hmark hbyte
      · rintro rfl
        exact not_mem_utf8EncodeChar (by decide) hdollar hbyte
      · rintro rfl
        exact not_mem_utf8EncodeChar (by decide) hslash hbyte
      · rintro rfl
        exact not_mem_utf8EncodeChar (by decide) hcommand hbyte

theorem reads_text (spelling : Spelling) (text : Text) (literal : Bytes) :
    Reads line true ⟨parts, literal, spelling.quote⟩ (utf8 (text.flatMap spelling.character))
      ⟨parts, literal ++ utf8 text, spelling.quote⟩ := by
  induction text generalizing literal with
  | nil =>
    show Reads line true _ [] ⟨parts, literal ++ [], spelling.quote⟩
    rw [List.append_nil]
    exact Reads.refl line _
  | cons c text ih =>
    rw [List.flatMap_cons, utf8_append, utf8_cons, ← List.append_assoc]
    exact (reads_character line parts spelling c literal).trans (ih _)

/-- A spelled text is read from outside of the quotes to outside of them. -/
theorem reads_spell (started : Bool) (spelling : Spelling) (text : Text) (literal : Bytes) :
    Reads line started ⟨parts, literal, .Unquoted⟩ (utf8 (spelling.spell text))
      ⟨parts, literal ++ utf8 text, .Unquoted⟩ := by
  have hopen : Reads line started ⟨parts, literal, .Unquoted⟩ (String.utf8EncodeChar spelling.mark)
      ⟨parts, literal, spelling.quote⟩ := by
    cases spelling with
    | SingleQuoted => exact reads_quote rfl (Or.inr nofun)
    | DoubleQuoted => exact reads_quote rfl (Or.inr nofun)
  have hclose : Reads line true ⟨parts, literal ++ utf8 text, spelling.quote⟩ (utf8 [spelling.mark])
      ⟨parts, literal ++ utf8 text, .Unquoted⟩ := by
    cases spelling with
    | SingleQuoted => exact reads_quote rfl (Or.inl rfl)
    | DoubleQuoted => exact reads_quote rfl (Or.inl rfl)
  unfold Spelling.spell
  rw [utf8_cons, utf8_append]
  exact hopen.trans ((reads_text line parts spelling text literal).trans hclose)

theorem reads_pieces (pieces : List SpelledPiece) (literal : Bytes) :
    Reads line true ⟨parts, literal, .Unquoted⟩ (utf8 (spellPieces pieces))
      ⟨parts, literal ++ utf8 (piecesText pieces), .Unquoted⟩ := by
  induction pieces generalizing literal with
  | nil =>
    show Reads line true _ [] ⟨parts, literal ++ [], .Unquoted⟩
    rw [List.append_nil]
    exact Reads.refl line _
  | cons piece pieces ih =>
    rw [spellPieces, piecesText, List.flatMap_cons, List.flatMap_cons, utf8_append, utf8_append,
      ← List.append_assoc]
    exact (reads_spell line parts true piece.spelling piece.text literal).trans (ih _)

end Spellings

theorem finish_unquoted (line : Nat) (literal : Bytes) (fuel : Nat) (started : Bool) :
    wordLoop line fuel started ⟨[], literal, .Unquoted⟩ [] = .ok (pushLiteralPart [] literal, []) := by
  rw [wordLoop]
  rfl

/-- The loop takes all of a spelled word. -/
theorem wordLoop_spellPieces (line : Nat) (pieces : List SpelledPiece) :
    wordLoop line (utf8 (spellPieces pieces)).length false ⟨[], [], .Unquoted⟩
        (utf8 (spellPieces pieces)) =
      .ok (pushLiteralPart [] (utf8 (piecesText pieces)), []) := by
  cases pieces with
  | nil => exact finish_unquoted line [] _ false
  | cons piece pieces =>
    have hread : Reads line false ⟨[], [], .Unquoted⟩ (utf8 (spellPieces (piece :: pieces)))
        ⟨[], utf8 (piecesText (piece :: pieces)), .Unquoted⟩ := by
      rw [spellPieces, piecesText, List.flatMap_cons, List.flatMap_cons, utf8_append, utf8_append]
      exact (reads_spell line [] false piece.spelling piece.text []).trans (reads_pieces line [] pieces _)
    obtain ⟨fuel, -, hloop⟩ := hread _ [] (by rw [List.append_nil])
    rw [List.append_nil] at hloop
    rw [hloop, finish_unquoted]

theorem parseAssignmentWord_spellPieces (line : Nat) (pieces : List SpelledPiece) :
    parseAssignmentWord (spellPieces pieces) line =
      .ok ⟨utf8 (spellPieces pieces), pushLiteralPart [] (utf8 (piecesText pieces))⟩ := by
  unfold parseAssignmentWord
  simp only [wordLoop_spellPieces, List.length_nil, Nat.sub_zero, List.take_length]
  rfl

/-! ### The value of the word -/

theorem literal_of_mem_pushLiteralPart {text : Bytes} {part : ShellPart}
    (h : part ∈ pushLiteralPart [] text) : part = .Literal text := by
  unfold pushLiteralPart at h
  split_ifs at h with hempty
  · cases h
  · exact List.mem_singleton.mp h

theorem literalText_pushLiteralPart_nil (text : Bytes) :
    literalText (pushLiteralPart [] text) = some text := by
  rw [literalText_pushLiteralPart]
  rfl

theorem initialDepth_zero {m : Type → Type} {ε : Type} (context : EvaluationContext m ε) :
    initialDepth context 0 = 0 := by
  unfold initialDepth
  cases context.depthMode <;> rfl

theorem append_of_le {m : Type → Type} {ε : Type} [Monad m] [MonadExceptOf ε m]
    (context : EvaluationContext m ε) {limit : Nat} {value : Bytes} {output : Evaluation}
    (h : output.bytes.length + value.length ≤ limit) :
    append context limit value output = pure { output with bytes := output.bytes ++ value } := by
  unfold append
  rw [if_neg (Nat.not_lt.mpr h)]

/-- Text evaluates to itself where it fits, without a question to the context. -/
theorem evaluate_text {m : Type → Type} {ε : Type} [Monad m] [LawfulMonad m] [MonadExceptOf ε m]
    (context : EvaluationContext m ε) {text : Bytes} {limit : Nat} (h : text.length ≤ limit) :
    evaluate context (pushLiteralPart [] text) limit = pure ⟨text, 0, []⟩ := by
  unfold evaluate evaluateAt withinDepth
  rw [if_neg (Nat.not_lt_zero _), initialDepth_zero]
  cases text with
  | nil => rw [show pushLiteralPart [] [] = [] from rfl, evaluateParts]
  | cons byte text =>
    have hroom : ([] : Bytes).length + (byte :: text).length ≤ limit := by
      simpa using h
    rw [show pushLiteralPart [] (byte :: text) = [.Literal (byte :: text)] from rfl, evaluateParts,
      evaluatePart, append_of_le context hroom, pure_bind, evaluateParts]
    rfl

/-- The word is read whole and as nothing but literal text. The text is the string, and so is every value
with room for it. -/
def ReadsBack (line : Nat) (word text : Text) : Prop :=
  ∃ expression, parseAssignmentWord word line = .ok ⟨utf8 word, expression⟩ ∧
    (∀ part ∈ expression, ∃ literal, part = .Literal literal) ∧
    literalText expression = some (utf8 text) ∧
    ∀ (m : Type → Type) (ε : Type) [Monad m] [LawfulMonad m] [MonadExceptOf ε m]
      (context : EvaluationContext m ε) (limit : Nat), (utf8 text).length ≤ limit →
      evaluate context expression limit = pure ⟨utf8 text, 0, []⟩

theorem readsBack_spellPieces (line : Nat) (pieces : List SpelledPiece) :
    ReadsBack line (spellPieces pieces) (piecesText pieces) := by
  refine ⟨_, parseAssignmentWord_spellPieces line pieces, ?_, literalText_pushLiteralPart_nil _, ?_⟩
  · intro part hpart
    exact ⟨_, literal_of_mem_pushLiteralPart hpart⟩
  · intro m ε _ _ _ context limit hlimit
    exact evaluate_text context hlimit

theorem readsBack_spell (line : Nat) (spelling : Spelling) (text : Text) :
    ReadsBack line (spelling.spell text) text := by
  have h := readsBack_spellPieces line [⟨spelling, text⟩]
  unfold spellPieces piecesText at h
  rwa [List.flatMap_singleton, List.flatMap_singleton] at h

/-- Quoting round-trips: the spelling in single quotes, the one in double quotes, and any spellings of
pieces of the string one behind the other are read back as the string. -/
theorem quoting_reads_back (line : Nat) (text : Text) :
    ReadsBack line (Spelling.SingleQuoted.spell text) text ∧
      ReadsBack line (Spelling.DoubleQuoted.spell text) text ∧
      ∀ pieces, piecesText pieces = text → ReadsBack line (spellPieces pieces) text := by
  refine ⟨readsBack_spell line _ text, readsBack_spell line _ text, ?_⟩
  rintro pieces rfl
  exact readsBack_spellPieces line pieces

theorem quoting_reads_back_mixed :
    ReadsBack 1 "'it'\\''s '\"\\$5 #1\"".toList "it's $5 #1".toList :=
  (quoting_reads_back 1 "it's $5 #1".toList).2.2
    [⟨.SingleQuoted, "it's ".toList⟩, ⟨.DoubleQuoted, "$5 #1".toList⟩] rfl

/-! ### Assignments of spelled words -/

theorem trimStart_spellPieces (pieces : List SpelledPiece) :
    trimStart (spellPieces pieces) = spellPieces pieces := by
  cases pieces with
  | nil => rfl
  | cons piece pieces =>
    obtain ⟨spelling, text⟩ := piece
    cases spelling <;> rfl

theorem rcAssignmentWord_spellPieces (pieces : List SpelledPiece) :
    rcAssignmentWord (spellPieces pieces) =
      .ok (utf8 (spellPieces pieces), pushLiteralPart [] (utf8 (piecesText pieces))) := by
  unfold rcAssignmentWord
  rw [parseAssignmentWord_spellPieces]

/-- An rc file that assigns a spelled string within the length limits assigns the string. The limits of
the parser itself are read off the string already, all other variables keep the spelling beside it. -/
theorem assignmentOf_spellPieces {R H : Type} {words : RcWords R H}
    (hwords : words.assignmentWord = rcAssignmentWord) {name : Text} {target : AssignmentTarget}
    (htarget : (variablePolicy (String.ofList name)).assignmentTarget = some target)
    {pieces : List SpelledPiece}
    (hlength : (utf8 (spellPieces pieces)).length ≤ maxAssignmentValueLen) {value : Bytes}
    (hvalue : value = if controlsRcParsing target then utf8 (piecesText pieces)
      else utf8 (spellPieces pieces))
    (hlimit : value.length ≤ target.valueLimit) (line : Nat) :
    assignmentOf words name (spellPieces pieces) line =
      .ok ⟨line, String.ofList name, value, target,
        some (pushLiteralPart [] (utf8 (piecesText pieces)))⟩ := by
  have hsupported : variablePolicy (String.ofList name) ≠ .Unsupported := by
    intro hpolicy
    rw [hpolicy] at htarget
    cases htarget
  have htargetOf : targetOf name line " cannot be assigned in an rc file" = .ok target := by
    unfold targetOf
    rw [if_neg hsupported, htarget]
  unfold assignmentOf
  rw [hwords, trimStart_spellPieces, rcAssignmentWord_spellPieces]
  show (if (utf8 (spellPieces pieces)).length > maxAssignmentValueLen then _ else _) = _
  rw [if_neg (Nat.not_lt.mpr hlength), htargetOf, ok_bind, literalText_pushLiteralPart_nil]
  dsimp only [Option.getD_some]
  rw [← hvalue, if_neg (Nat.not_lt.mpr hlimit)]

end ProcmailRs.Config
