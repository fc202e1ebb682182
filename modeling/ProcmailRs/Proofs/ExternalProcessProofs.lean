import ProcmailRs.ExternalProcess

/-!
# The word `"$@"` of a command

The search for the word reads the command without double quotes, while the second pass knows them. The
command is the one that the shell's quoting asks for exactly when both readings have the same last word.
-/

namespace ProcmailRs

open Config ShellQuoting

/-! ### The search -/

/-- The naive reading's last word, as the index of its `$`. -/
def foundWord (boundary : Bool) (index : Nat) (quotes : Quotes) (bytes : Bytes) : Option Nat :=
  (lastWord false isShellWordBoundary positionalWord boundary index (lex false quotes bytes)).map (· + 1)

variable {boundary : Bool} {index : Nat} {byte : UInt8} {rest : Bytes}

theorem isShellWordBoundary_eq_false_of_quoting (h : byte = 34 ∨ byte = 36 ∨ byte = 39 ∨ byte = 64 ∨ byte = 92) :
    isShellWordBoundary byte = false := by
  rcases h with rfl | rfl | rfl | rfl | rfl <;> decide

/-- A word ends where the command does or where its next byte is a separator. -/
theorem endsBefore_lex_unquoted (bytes : Bytes) :
    endsBefore false isShellWordBoundary (lex false .Unquoted bytes) = bytes.head?.all isShellWordBoundary := by
  cases bytes with
  | nil => rfl
  | cons byte rest =>
    rw [List.head?_cons, Option.all_some]
    by_cases hescape : byte = 92
    · subst hescape
      rw [isShellWordBoundary_eq_false_of_quoting (by simp)]
      cases rest <;> simp [lex, endsBefore, isShellWordBoundary_eq_false_of_quoting]
    · by_cases hsingle : byte = 39
      · subst hsingle
        rw [lex_unquoted_single, isShellWordBoundary_eq_false_of_quoting (by simp)]
        rfl
      · rw [lex_unquoted_plain hsingle (fun _ => rfl) fun h => absurd h hescape]
        rfl

theorem lex_naive_word (after : Bytes) :
    lex false .Unquoted (34 :: 36 :: 64 :: 34 :: after) =
      .Plain 34 .Unquoted :: .Plain 36 .Unquoted :: .Plain 64 .Unquoted :: .Plain 34 .Unquoted ::
        lex false .Unquoted after := by
  rw [lex_unquoted_plain (by decide) (fun _ => rfl) (by simp), lex_unquoted_plain (by decide) (by simp) (by simp),
    lex_unquoted_plain (by decide) (by simp) (by simp), lex_unquoted_plain (by decide) (fun _ => rfl) (by simp)]

theorem startsWord_naive (bytes : Bytes) :
    startsWord false isShellWordBoundary positionalWord (lex false .Unquoted bytes) = true ↔
      ∃ after, bytes = 34 :: 36 :: 64 :: 34 :: after ∧ after.head?.all isShellWordBoundary = true := by
  constructor
  · intro h
    obtain ⟨behind, hbehind⟩ := exists_behind_of_startsWord h
    rw [rawText_lex] at hbehind
    refine ⟨rawText behind, hbehind, ?_⟩
    rw [hbehind] at h
    change startsWord _ _ _ (lex false .Unquoted (34 :: 36 :: 64 :: 34 :: rawText behind)) = true at h
    rw [lex_naive_word] at h
    rw [← endsBefore_lex_unquoted]
    simpa [startsWord, positionalWord, behindWord] using h
  · rintro ⟨after, rfl, hafter⟩
    rw [lex_naive_word]
    simpa [startsWord, positionalWord, behindWord, endsBefore_lex_unquoted] using hafter

theorem foundWord_nil (quotes : Quotes) : foundWord boundary index quotes [] = none := by
  simp [foundWord, lastWord]

/-- A piece that the word does not start with is passed over. -/
theorem foundWord_cons {quotes quotes' : Quotes} {bytes bytes' : Bytes} {piece : Piece}
    (hlex : lex false quotes bytes = piece :: lex false quotes' bytes')
    (hword : boundary = true → startsWord false isShellWordBoundary positionalWord (lex false quotes bytes) = false) :
    foundWord boundary index quotes bytes =
      foundWord (boundaryBehind false isShellWordBoundary boundary piece) (index + piece.raw.length) quotes' bytes' := by
  rw [hlex] at hword
  have hhere : (boundary && startsWord false isShellWordBoundary positionalWord
      (piece :: lex false quotes' bytes')) = false := by
    cases boundary with
    | false => rfl
    | true => exact hword rfl
  unfold foundWord
  rw [hlex, lastWord, hhere]
  simp

theorem startsWord_eq_false {quotes : Quotes} (h : rest.head? ≠ some 34) :
    startsWord false isShellWordBoundary positionalWord (lex false quotes rest) = false := by
  rw [← Bool.not_eq_true]
  intro hword
  obtain ⟨behind, hbehind⟩ := exists_behind_of_startsWord hword
  rw [rawText_lex] at hbehind
  exact h (by rw [hbehind]; rfl)

/-- No word starts with a separator, so a boundary in front of one makes no difference. -/
theorem foundWord_boundary (h : rest.head?.all isShellWordBoundary = true) (boundary' : Bool) :
    foundWord boundary index .Unquoted rest = foundWord boundary' index .Unquoted rest := by
  cases rest with
  | nil => rw [foundWord_nil, foundWord_nil]
  | cons byte rest =>
    have hseparator : isShellWordBoundary byte = true := h
    have hquoting (hbyte : byte = 34 ∨ byte = 36 ∨ byte = 39 ∨ byte = 64 ∨ byte = 92) : False := by
      rw [isShellWordBoundary_eq_false_of_quoting hbyte] at hseparator
      cases hseparator
    have hlex : lex false .Unquoted (byte :: rest) = .Plain byte .Unquoted :: lex false .Unquoted rest :=
      lex_unquoted_plain (fun h => hquoting (by simp [h])) (fun _ => rfl) fun h => (hquoting (by simp [h])).elim
    have hword : startsWord false isShellWordBoundary positionalWord (lex false .Unquoted (byte :: rest)) = false :=
      startsWord_eq_false fun h => hquoting (.inl (by simpa using h))
    rw [foundWord_cons hlex fun _ => hword, foundWord_cons hlex fun _ => hword]
    rfl

/-- The word of the command is found, and the search goes on behind it. -/
theorem foundWord_word {after : Bytes} (h : after.head?.all isShellWordBoundary = true) :
    foundWord true index .Unquoted (34 :: 36 :: 64 :: 34 :: after) =
      (foundWord true (index + 4) .Unquoted after).or (some (index + 1)) := by
  have hword := (startsWord_naive (34 :: 36 :: 64 :: 34 :: after)).mpr ⟨after, rfl, h⟩
  have hplain (byte : UInt8) (bytes : Bytes) (hbyte : byte = 34 ∨ byte = 36 ∨ byte = 64) :
      lex false .Unquoted (byte :: bytes) = .Plain byte .Unquoted :: lex false .Unquoted bytes := by
    apply lex_unquoted_plain
    · rcases hbyte with rfl | rfl | rfl <;> decide
    · exact fun _ => rfl
    · rcases hbyte with rfl | rfl | rfl <;> simp
  have hrest : foundWord (boundaryBehind false isShellWordBoundary true (.Plain 34 .Unquoted)) (index + 1) .Unquoted
      (36 :: 64 :: 34 :: after) = foundWord true (index + 4) .Unquoted after := by
    have hseparator (byte : UInt8) (hbyte : byte = 34 ∨ byte = 36 ∨ byte = 64) (boundary : Bool) :
        boundaryBehind false isShellWordBoundary boundary (.Plain byte .Unquoted) = false :=
      isShellWordBoundary_eq_false_of_quoting (by rcases hbyte with rfl | rfl | rfl <;> simp)
    rw [hseparator 34 (by simp), foundWord_cons (hplain 36 _ (by simp)) (by simp), hseparator 36 (by simp),
      foundWord_cons (hplain 64 _ (by simp)) (by simp), hseparator 64 (by simp),
      foundWord_cons (hplain 34 _ (by simp)) (by simp), foundWord_boundary h true]
    rfl
  rw [← hrest]
  unfold foundWord
  rw [hplain 34 _ (by simp)] at hword ⊢
  rw [lastWord, hword]
  simp

/-- A byte without a meaning for the naive reading is passed over where no word starts with it. -/
theorem foundWord_plain (hescape : byte ≠ 92) (hsingle : byte ≠ 39)
    (hword : boundary = true → ∀ after, byte :: rest = 34 :: 36 :: 64 :: 34 :: after →
      after.head?.all isShellWordBoundary = false) :
    foundWord boundary index .Unquoted (byte :: rest) =
      foundWord (isShellWordBoundary byte) (index + 1) .Unquoted rest := by
  rw [foundWord_cons (lex_unquoted_plain hsingle (fun _ => rfl) fun h => absurd h hescape)]
  · rfl
  · intro hboundary
    rw [← Bool.not_eq_true, startsWord_naive]
    rintro ⟨after, hbytes, hafter⟩
    simp [hword hboundary after hbytes] at hafter

/-- A word may begin here. -/
def SearchPlace.atBoundary : SearchPlace → Bool
  | .Text atWordBoundary => atWordBoundary
  | .SingleQuoted => false

/-- The quotes that the place is in. -/
def SearchPlace.quotes : SearchPlace → Quotes
  | .Text _ => .Unquoted
  | .SingleQuoted => .Single

/-- The search finds the last word of the naive reading, or what was selected before. -/
theorem findPositionalWord_eq (place : SearchPlace) (index : Nat) (selected : Option Nat) (bytes : Bytes) :
    findPositionalWord place index selected bytes =
      (foundWord place.atBoundary index place.quotes bytes).or selected := by
  fun_induction findPositionalWord place index selected bytes with
  | case1 place index selected => rw [foundWord_nil, Option.none_or]
  | case2 index selected rest ih =>
    simp only [SearchPlace.atBoundary, SearchPlace.quotes] at ih ⊢
    rw [ih, foundWord_cons lex_single_mark fun h => absurd h Bool.false_ne_true]
    rfl
  | case3 index selected byte rest hbyte ih =>
    simp only [SearchPlace.atBoundary, SearchPlace.quotes] at ih ⊢
    rw [ih, foundWord_cons (lex_single_plain hbyte) fun h => absurd h Bool.false_ne_true]
    rfl
  | case4 boundary index selected =>
    have hlex : lex false .Unquoted [92] = .Plain 92 .Unquoted :: lex false .Unquoted [] :=
      lex_unquoted_plain (by decide) (fun _ => rfl) fun _ => rfl
    rw [SearchPlace.quotes, foundWord_cons hlex fun _ => startsWord_eq_false (by simp), foundWord_nil,
      Option.none_or]
  | case5 boundary index selected next rest ih =>
    simp only [SearchPlace.atBoundary, SearchPlace.quotes] at ih ⊢
    rw [ih, foundWord_cons lex_unquoted_escaped fun _ => startsWord_eq_false (by simp)]
    rfl
  | case6 boundary index selected rest _ ih =>
    simp only [SearchPlace.atBoundary, SearchPlace.quotes] at ih ⊢
    rw [ih, foundWord_cons lex_unquoted_single fun _ => startsWord_eq_false (by simp)]
    rfl
  | case7 boundary index selected byte _ _ after h ih =>
    obtain ⟨rfl, rfl, hafter⟩ := h
    simp only [SearchPlace.atBoundary, SearchPlace.quotes] at ih ⊢
    rw [ih, foundWord_word hafter]
    simp
  | case8 boundary index selected byte hescape hsingle after h ih =>
    simp only [SearchPlace.atBoundary, SearchPlace.quotes] at ih ⊢
    rw [ih, foundWord_plain hescape hsingle]
    intro hboundary after' heq
    obtain ⟨rfl, rfl⟩ : byte = 34 ∧ after = after' := by simpa using heq
    simpa [hboundary] using h
  | case9 boundary index selected byte hescape hsingle rest hrest ih =>
    simp only [SearchPlace.atBoundary, SearchPlace.quotes] at ih ⊢
    rw [ih, foundWord_plain hescape hsingle]
    intro _ after heq
    exact (hrest after (List.cons.inj heq).2).elim

/-! ### The second pass -/

/-- The state of the second pass as a state of the lexer. -/
def quotesOf : Option UInt8 → Quotes
  | none => .Unquoted
  | some quote => if quote = 39 then .Single else .Double

variable {selected : Nat} {quote : Option UInt8}

/-- Outside of escapes both take one byte and see its quotation marks alike. -/
theorem lex_toggleQuote (rest : Bytes) (hquote : quote = none ∨ quote = some 39 ∨ quote = some 34)
    (hescape : byte = 92 → quote = some 39) :
    ∃ piece, lex true (quotesOf quote) (byte :: rest) = piece :: lex true (quotesOf (toggleQuote quote byte)) rest ∧
      piece.raw = [byte] ∧ (byte = 36 → piece = .Plain byte (quotesOf quote)) := by
  by_cases hsingle : byte = 39
  · subst hsingle
    rcases hquote with rfl | rfl | rfl
    · exact ⟨.Mark 39, by simp [quotesOf, toggleQuote], rfl, by decide⟩
    · exact ⟨.Mark 39, by simp [quotesOf, toggleQuote], rfl, by decide⟩
    · exact ⟨.Plain 39 .Double, lex_double_plain (by decide) fun h => absurd h (by decide), rfl, by decide⟩
  by_cases hdouble : byte = 34
  · subst hdouble
    rcases hquote with rfl | rfl | rfl
    · exact ⟨.Mark 34, by simp [quotesOf, toggleQuote], rfl, by decide⟩
    · exact ⟨.Plain 34 .Single, lex_single_plain (by decide), rfl, by decide⟩
    · exact ⟨.Mark 34, by simp [quotesOf, toggleQuote], rfl, by decide⟩
  refine ⟨.Plain byte (quotesOf quote), ?_, rfl, fun _ => rfl⟩
  have htoggle : toggleQuote quote byte = quote := by simp [toggleQuote, hsingle, hdouble]
  rw [htoggle]
  by_cases hbyte : byte = 92
  · rw [hescape hbyte]
    exact lex_single_plain hsingle
  · exact lex_ordinary _ hsingle hdouble hbyte

theorem toggleQuote_cases (hquote : quote = none ∨ quote = some 39 ∨ quote = some 34) (byte : UInt8) :
    toggleQuote quote byte = none ∨ toggleQuote quote byte = some 39 ∨ toggleQuote quote byte = some 34 := by
  unfold toggleQuote
  split
  case isTrue h =>
    split
    case isTrue => exact .inl rfl
    case isFalse => exact .inr (h.1.imp (congrArg some) (congrArg some))
  case isFalse => exact hquote

/-- An escape is copied, also one that means nothing between double quotes. -/
theorem removeParameters_escape (hquote : quote = none ∨ quote = some 34) (next : UInt8) :
    removeParameters 36 64 selected index (lex true (quotesOf quote) (92 :: next :: rest)) =
      92 :: next :: removeParameters 36 64 selected (index + 2) (lex true (quotesOf quote) rest) := by
  rcases hquote with rfl | rfl
  · rw [quotesOf, lex_unquoted_escaped, removeParameters_keep (by simp [startsParameter])]
    rfl
  · have hquotes : quotesOf (some 34) = .Double := rfl
    rw [hquotes]
    by_cases hnext : isDoubleEscape next = true
    · rw [lex_double_escaped hnext, removeParameters_keep (by simp [startsParameter])]
      rfl
    · have hplain : next ≠ 36 ∧ next ≠ 34 ∧ next ≠ 92 := by
        refine ⟨?_, ?_, ?_⟩ <;> rintro rfl <;> exact hnext rfl
      obtain ⟨hdollar, hmark, hescape⟩ := hplain
      have hother (byte : UInt8) (hbyte : byte ≠ 36) (pieces : List Piece) :
          startsParameter 36 64 (.Plain byte .Double :: pieces) = false := by
        cases pieces <;> simp [startsParameter, hbyte]
      rw [lex_double_plain (by decide) (by simpa using hnext), removeParameters_keep (by simp [hother]),
        lex_double_plain hmark fun h => absurd h hescape, removeParameters_keep (by simp [hother _ hdollar])]
      rfl

/-- The second pass removes what the shell's reading removes, but for the selected one. -/
theorem rewritePositional_eq (selected : Nat) (quote : Option UInt8) (index : Nat) (bytes : Bytes)
    (hquote : quote = none ∨ quote = some 39 ∨ quote = some 34) :
    rewritePositional selected quote index bytes =
      removeParameters 36 64 selected index (lex true (quotesOf quote) bytes) := by
  fun_induction rewritePositional selected quote index bytes with
  | case1 quote index => simp
  | case2 quote index byte hbyte =>
    obtain ⟨rfl, hsingle⟩ := hbyte
    rcases hquote with rfl | rfl | rfl
    · rfl
    · exact absurd rfl hsingle
    · rfl
  | case3 quote index byte hbyte next rest ih =>
    obtain ⟨rfl, hsingle⟩ := hbyte
    rw [ih hquote, removeParameters_escape]
    exact hquote.imp id fun h => h.resolve_left hsingle
  | case4 quote index byte hescape quote' after hremove ih =>
    obtain ⟨rfl, hsingle, hindex⟩ := hremove
    have htoggle : quote' = quote := by simp [quote', toggleQuote]
    rw [htoggle] at ih hsingle ⊢
    have hplain (byte : UInt8) (rest : Bytes) (hbyte : byte = 36 ∨ byte = 64) :
        lex true (quotesOf quote) (byte :: rest) = .Plain byte (quotesOf quote) :: lex true (quotesOf quote) rest := by
      apply lex_ordinary <;> rcases hbyte with rfl | rfl <;> decide
    have hquotes : quotesOf quote ≠ .Single := by
      rcases hquote with rfl | rfl | rfl
      · simp [quotesOf]
      · exact absurd rfl hsingle
      · simp [quotesOf]
    rw [ih hquote, hplain 36 _ (.inl rfl), hplain 64 _ (.inr rfl), removeParameters_remove _ hindex]
    simp [startsParameter, hquotes]
  | case5 quote index byte hescape quote' after hkeep ih =>
    obtain ⟨piece, hlex, hraw, hpiece⟩ := lex_toggleQuote (64 :: after) hquote (by simpa using hescape)
    rw [ih (toggleQuote_cases hquote byte), hlex, removeParameters_keep, hraw]
    · rfl
    · intro hstarts
      obtain ⟨quotes, next, tail, hpieces, hquotes, -⟩ := startsParameter_eq_true hstarts
      obtain ⟨rfl, -⟩ := List.cons.inj hpieces
      obtain rfl : 36 = byte := (List.cons.inj hraw).1
      have hquotes' : quotes = quotesOf quote := by simpa using hpiece rfl
      by_contra hindex
      refine hkeep ⟨rfl, ?_, hindex⟩
      have htoggle : quote' = quote := by simp [quote', toggleQuote]
      rw [htoggle]
      rintro rfl
      exact hquotes (hquotes'.trans rfl)
  | case6 quote index byte hescape quote' rest hrest ih =>
    obtain ⟨piece, hlex, hraw, -⟩ := lex_toggleQuote rest hquote (by simpa using hescape)
    rw [ih (toggleQuote_cases hquote byte), hlex, removeParameters_keep, hraw]
    · rfl
    · intro hstarts
      obtain ⟨quotes, next, tail, hpieces, -, hnext⟩ := startsParameter_eq_true hstarts
      have htext := congrArg rawText (List.cons.inj hpieces).2
      rw [rawText_lex, rawText_cons, hnext] at htext
      exact (hrest _ htext).elim

/-! ### Both passes -/

theorem findPositionalWord_command (command : Bytes) :
    findPositionalWord (.Text true) 0 none command = (lastPositionalWord false command).map (· + 1) := by
  rw [findPositionalWord_eq, Option.or_none]
  rfl

/-- The command is rewritten by the shell's quoting around the last word of the naive reading. -/
theorem prepareSpecialPositionalArgument_eq (command : Bytes) :
    prepareSpecialPositionalArgument command =
      (lastPositionalWord false command).map fun offset =>
        removeParameters 36 64 (offset + 1) 0 (lex true .Unquoted command) := by
  unfold prepareSpecialPositionalArgument
  rw [findPositionalWord_command, Option.map_map]
  congr 1
  funext offset
  exact rewritePositional_eq (offset + 1) none 0 command (.inl rfl)

/-- The word is quoted, so the shell expands what it spells. -/
theorem parameterAt_of_lastWord {boundary : Bool} {quotes : Quotes} {bytes : Bytes} {offset found : Nat}
    (hboundary : boundary = true → quotes = .Unquoted)
    (h : lastWord true isShellWordBoundary positionalWord boundary offset (lex true quotes bytes) = some found) :
    ParameterAt 36 64 (found + 1) offset (lex true quotes bytes) := by
  match bytes with
  | [] => simp [lastWord] at h
  | byte :: rest =>
    obtain ⟨piece, quotes', rest', hlex, hlength, hquotes⟩ :=
      lex_cons true isShellWordBoundary quotes byte rest
    rcases lastWord_cons (hlex ▸ h) with hrest | ⟨hstart, hword, hfound⟩
    · rw [hlex]
      exact (parameterAt_of_lastWord (hquotes boundary hboundary) hrest).cons (by decide)
    · obtain ⟨behind, hbehind⟩ := exists_behind_of_startsWord hword
      rw [← hlex, rawText_lex] at hbehind
      have hpieces : lex true quotes (byte :: rest) = .Mark 34 :: .Plain 36 .Double :: .Plain 64 .Double ::
          .Mark 34 :: lex true .Unquoted (rawText behind) := by
        rw [hboundary hstart, hbehind]
        change lex true .Unquoted (34 :: 36 :: 64 :: 34 :: rawText behind) = _
        rw [lex_unquoted_double, lex_ordinary _ (by decide) (by decide) (by decide),
          lex_ordinary _ (by decide) (by decide) (by decide), lex_double_mark]
      rw [hpieces, hfound]
      exact .step rfl (.here rfl)
termination_by bytes.length
decreasing_by simpa using Nat.lt_succ_of_le hlength

/-- Behind the `$@` of a word stands its closing quotation mark. -/
theorem getElem?_behind_word {posix : Bool} {command : Bytes} {offset : Nat}
    (h : lastPositionalWord posix command = some offset) : command[offset + 3]? = some 34 := by
  obtain ⟨-, behind, hbehind⟩ := prefix_of_lastWord h
  rw [rawText_lex, Nat.sub_zero] at hbehind
  have hindex : (command.drop offset)[3]? = some 34 := by
    rw [← hbehind]
    rfl
  rwa [List.getElem?_drop] at hindex

/-- The command that is run is the one that the shell's quoting asks for exactly when the last word `"$@"` is the
same whether or not double quotes are taken into account. -/
theorem prepareSpecialPositionalArgument_iff (command : Bytes) :
    prepareSpecialPositionalArgument command = preparedCommand command ↔
      lastPositionalWord false command = lastPositionalWord true command := by
  rw [prepareSpecialPositionalArgument_eq, preparedCommand]
  constructor
  · intro heq
    cases hnaive : lastPositionalWord false command with
    | none =>
      cases hshell : lastPositionalWord true command with
      | none => rfl
      | some shell => simp [hnaive, hshell] at heq
    | some naive =>
      cases hshell : lastPositionalWord true command with
      | none => simp [hnaive, hshell] at heq
      | some shell =>
        rw [hnaive, hshell, Option.map_some, Option.map_some, Option.some.injEq] at heq
        have hvisible : ParameterAt 36 64 (shell + 1) 0 (lex true .Unquoted command) :=
          parameterAt_of_lastWord (fun _ => rfl) hshell
        have hbehind {posix : Bool} {offset : Nat} (h : lastPositionalWord posix command = some offset) :
            (rawText (lex true .Unquoted command))[offset + 1 - 0 + 2]? ≠ some 36 := by
          rw [rawText_lex, show offset + 1 - 0 + 2 = offset + 3 from rfl, getElem?_behind_word h]
          decide
        by_contra hne
        refine removeParameters_ne hvisible ?_ (hbehind hshell) (fun _ => hbehind hnaive) heq.symm
        intro hoffsets
        exact hne (by rw [Nat.add_right_cancel hoffsets])
  · intro heq
    rw [heq]

/-- An apostrophe between double quotes hides the last word, so the one before it stands for the arguments; and
within a longer quoted text there is no word at all. -/
theorem quoted_apostrophe_moves_the_word :
    prepareSpecialPositionalArgument (strBytes "p \"$@\" \"it's\" \"$@\"") = some (strBytes "p \"$@\" \"it's\" \"\"") ∧
      preparedCommand (strBytes "p \"$@\" \"it's\" \"$@\"") = some (strBytes "p \"\" \"it's\" \"$@\"") ∧
      prepareSpecialPositionalArgument (strBytes "p \"a \"$@\" b\"") ≠ none ∧
      preparedCommand (strBytes "p \"a \"$@\" b\"") = none := by
  decide +kernel

end ProcmailRs
