import Mathlib.Data.List.Basic

/-!
# Shell quoting

The bytes of a command, read by the quoting rules of the shell: single quotes keep everything up to the
next one, double quotes leave the backslash its meaning before a few characters, and outside of both a
backslash quotes what follows it. Words end at separators that are not quoted, and a quoted newline
joins two lines. A reading that does not know double quotes takes them for ordinary characters.
-/

namespace ShellQuoting

/-- The quotes around a character. -/
inductive Quotes
  | Unquoted
  | Single
  | Double
  deriving DecidableEq, Repr

/-- A byte that stands for itself, one behind a backslash, or a quotation mark. -/
inductive Piece
  | Plain (byte : UInt8) (quotes : Quotes)
  | Escaped (byte : UInt8)
  | Mark (byte : UInt8)
  deriving DecidableEq, Repr

/-- How a piece is written. -/
def Piece.raw : Piece → List UInt8
  | .Plain byte _ => [byte]
  | .Escaped byte => [92, byte]
  | .Mark byte => [byte]

@[simp] theorem Piece.raw_plain (byte : UInt8) (quotes : Quotes) : (Piece.Plain byte quotes).raw = [byte] := rfl

@[simp] theorem Piece.raw_escaped (byte : UInt8) : (Piece.Escaped byte).raw = [92, byte] := rfl

@[simp] theorem Piece.raw_mark (byte : UInt8) : (Piece.Mark byte).raw = [byte] := rfl

/-- What a backslash quotes between double quotes: `$`, a backquote, `"`, a backslash or a newline. -/
def isDoubleEscape (byte : UInt8) : Bool :=
  byte == 36 || byte == 96 || byte == 34 || byte == 92 || byte == 10

/-- The pieces of a command; `posix` says that double quotes are known. -/
def lex (posix : Bool) : Quotes → List UInt8 → List Piece
  | _, [] => []
  | .Single, byte :: rest =>
    if byte = 39 then .Mark byte :: lex posix .Unquoted rest
    else .Plain byte .Single :: lex posix .Single rest
  | .Unquoted, [byte] => if byte = 39 ∨ (byte = 34 ∧ posix) then [.Mark byte] else [.Plain byte .Unquoted]
  | .Unquoted, byte :: next :: rest =>
    if byte = 92 then .Escaped next :: lex posix .Unquoted rest
    else if byte = 39 then .Mark byte :: lex posix .Single (next :: rest)
    else if byte = 34 ∧ posix then .Mark byte :: lex posix .Double (next :: rest)
    else .Plain byte .Unquoted :: lex posix .Unquoted (next :: rest)
  | .Double, [byte] => if byte = 34 then [.Mark byte] else [.Plain byte .Double]
  | .Double, byte :: next :: rest =>
    if byte = 92 ∧ isDoubleEscape next then .Escaped next :: lex posix .Double rest
    else if byte = 34 then .Mark byte :: lex posix .Unquoted (next :: rest)
    else .Plain byte .Double :: lex posix .Double (next :: rest)

/-- How the pieces are written. -/
def rawText (pieces : List Piece) : List UInt8 := pieces.flatMap Piece.raw

section Words

variable (posix : Bool) (isSeparator : UInt8 → Bool)

/-- Whether a word may start behind the piece, `boundary` saying whether it may start before it. -/
def boundaryBehind (boundary : Bool) : Piece → Bool
  | .Plain byte .Unquoted => isSeparator byte
  | .Escaped byte => posix && byte == 10 && boundary
  | _ => false

/-- Whether a word may end before the pieces. -/
def endsBefore : List Piece → Bool
  | [] => true
  | .Plain byte .Unquoted :: _ => isSeparator byte
  | .Escaped byte :: rest => posix && byte == 10 && endsBefore rest
  | _ => false

/-- What is behind pieces that are spelled as the word is. -/
def behindWord : List UInt8 → List Piece → Option (List Piece)
  | [], pieces => some pieces
  | _ :: _, [] => none
  | byte :: word, piece :: pieces => if piece.raw = [byte] then behindWord word pieces else none

/-- The pieces start with a whole word that is spelled so. -/
def startsWord (word : List UInt8) (pieces : List Piece) : Bool :=
  (behindWord word pieces).any (endsBefore posix isSeparator)

/-- The offset of the last word with the spelling, the pieces being at `offset`. -/
def lastWord (word : List UInt8) : Bool → Nat → List Piece → Option Nat
  | _, _, [] => none
  | boundary, offset, piece :: rest =>
    (lastWord word (boundaryBehind posix isSeparator boundary piece) (offset + piece.raw.length) rest).or
      (if boundary && startsWord posix isSeparator word (piece :: rest) then some offset else none)

end Words

/-- The piece and the one behind it are a parameter of two bytes that the shell expands. -/
def startsParameter (first second : UInt8) : List Piece → Bool
  | .Plain byte quotes :: next :: _ => byte == first && quotes != .Single && next.raw == [second]
  | _ => false

/-- The text without the parameters that the shell expands, except for the one at `kept`. -/
def removeParameters (first second : UInt8) (kept : Nat) : Nat → List Piece → List UInt8
  | _, [] => []
  | _, piece :: [] => piece.raw
  | offset, piece :: next :: rest =>
    if startsParameter first second (piece :: next :: rest) && offset != kept then
      removeParameters first second kept (offset + 2) rest
    else piece.raw ++ removeParameters first second kept (offset + piece.raw.length) (next :: rest)

/-! ### Single pieces -/

section Lex

attribute [local simp] lex

variable {posix : Bool} {byte : UInt8} {rest : List UInt8}

@[simp] theorem lex_nil (quotes : Quotes) : lex posix quotes [] = [] := by
  cases quotes <;> rfl

@[simp] theorem lex_single_mark : lex posix .Single (39 :: rest) = .Mark 39 :: lex posix .Unquoted rest := by
  rw [lex, if_pos rfl]

theorem lex_single_plain (h : byte ≠ 39) :
    lex posix .Single (byte :: rest) = .Plain byte .Single :: lex posix .Single rest := by
  rw [lex, if_neg h]

@[simp] theorem lex_unquoted_escaped :
    lex posix .Unquoted (92 :: byte :: rest) = .Escaped byte :: lex posix .Unquoted rest := by
  rw [lex, if_pos rfl]

@[simp] theorem lex_unquoted_single : lex posix .Unquoted (39 :: rest) = .Mark 39 :: lex posix .Single rest := by
  cases rest <;> simp

@[simp] theorem lex_unquoted_double : lex true .Unquoted (34 :: rest) = .Mark 34 :: lex true .Double rest := by
  cases rest <;> simp

theorem lex_unquoted_plain (hsingle : byte ≠ 39) (hdouble : byte = 34 → posix = false)
    (hescape : byte = 92 → rest = []) :
    lex posix .Unquoted (byte :: rest) = .Plain byte .Unquoted :: lex posix .Unquoted rest := by
  have hmark : ¬(byte = 34 ∧ posix = true) := by
    rintro ⟨hbyte, hposix⟩
    rw [hdouble hbyte] at hposix
    cases hposix
  cases rest with
  | nil => simp [hsingle, hmark]
  | cons next rest =>
    have hbyte : byte ≠ 92 := fun h => List.cons_ne_nil _ _ (hescape h)
    simp [hbyte, hsingle, hmark]

@[simp] theorem lex_double_mark : lex posix .Double (34 :: rest) = .Mark 34 :: lex posix .Unquoted rest := by
  cases rest <;> simp

theorem lex_double_escaped (h : isDoubleEscape byte = true) :
    lex posix .Double (92 :: byte :: rest) = .Escaped byte :: lex posix .Double rest := by
  rw [lex, if_pos ⟨rfl, h⟩]

theorem lex_double_plain (hmark : byte ≠ 34)
    (hescape : byte = 92 → rest.head?.all fun next => !isDoubleEscape next) :
    lex posix .Double (byte :: rest) = .Plain byte .Double :: lex posix .Double rest := by
  cases rest with
  | nil => simp [hmark]
  | cons next rest =>
    have hnot : ¬(byte = 92 ∧ isDoubleEscape next = true) := by
      rintro ⟨hbyte, hnext⟩
      have hall := hescape hbyte
      simp [hnext] at hall
    simp only [lex, if_neg hnot, if_neg hmark]

/-- A byte that has no meaning for the lexer stands for itself everywhere. -/
theorem lex_ordinary (quotes : Quotes) (hsingle : byte ≠ 39) (hdouble : byte ≠ 34) (hescape : byte ≠ 92) :
    lex posix quotes (byte :: rest) = .Plain byte quotes :: lex posix quotes rest := by
  cases quotes with
  | Unquoted => exact lex_unquoted_plain hsingle (fun h => absurd h hdouble) fun h => absurd h hescape
  | Single => exact lex_single_plain hsingle
  | Double => exact lex_double_plain hdouble fun h => absurd h hescape

/-- The pieces of a command are its bytes. -/
theorem rawText_lex (quotes : Quotes) (bytes : List UInt8) : rawText (lex posix quotes bytes) = bytes := by
  fun_induction lex posix quotes bytes <;> simp_all [rawText]

end Lex

/-! ### Words -/

section LastWord

variable {posix : Bool} {isSeparator : UInt8 → Bool}

/-- The lexer goes on behind the first piece, and it is outside of quotes where a word may start. -/
theorem lex_cons (posix : Bool) (isSeparator : UInt8 → Bool) (quotes : Quotes) (byte : UInt8) (rest : List UInt8) :
    ∃ piece quotes' rest', lex posix quotes (byte :: rest) = piece :: lex posix quotes' rest' ∧
      rest'.length ≤ rest.length ∧ ∀ boundary, (boundary = true → quotes = .Unquoted) →
        boundaryBehind posix isSeparator boundary piece = true → quotes' = .Unquoted := by
  cases quotes with
  | Single =>
    by_cases hmark : byte = 39
    · subst hmark
      exact ⟨_, _, _, lex_single_mark, Nat.le_refl _, fun _ _ _ => rfl⟩
    · exact ⟨_, _, _, lex_single_plain hmark, Nat.le_refl _, by simp [boundaryBehind]⟩
  | Unquoted =>
    by_cases hsingle : byte = 39
    · subst hsingle
      exact ⟨_, _, _, lex_unquoted_single, Nat.le_refl _, by simp [boundaryBehind]⟩
    by_cases hdouble : byte = 34 ∧ posix = true
    · obtain ⟨rfl, rfl⟩ := hdouble
      exact ⟨_, _, _, lex_unquoted_double, Nat.le_refl _, by simp [boundaryBehind]⟩
    by_cases hescape : byte = 92 → rest = []
    · have hposix : byte = 34 → posix = false := by simpa using hdouble
      exact ⟨_, _, _, lex_unquoted_plain hsingle hposix hescape, Nat.le_refl _, fun _ _ _ => rfl⟩
    · obtain ⟨rfl, hrest⟩ := Classical.not_imp.mp hescape
      obtain ⟨next, rest, rfl⟩ := List.exists_cons_of_ne_nil hrest
      exact ⟨_, _, _, lex_unquoted_escaped, Nat.le_succ _, fun _ _ _ => rfl⟩
  | Double =>
    by_cases hmark : byte = 34
    · subst hmark
      exact ⟨_, _, _, lex_double_mark, Nat.le_refl _, fun _ _ _ => rfl⟩
    by_cases hescape : byte = 92 → rest.head?.all fun next => !isDoubleEscape next
    · exact ⟨_, _, _, lex_double_plain hmark hescape, Nat.le_refl _, by simp [boundaryBehind]⟩
    · obtain ⟨rfl, hnext⟩ := Classical.not_imp.mp hescape
      cases rest with
      | nil => simp at hnext
      | cons next rest =>
        have hdouble : isDoubleEscape next = true := by simpa using hnext
        refine ⟨_, _, _, lex_double_escaped hdouble, Nat.le_succ _, ?_⟩
        -- a joined line leaves a boundary as it was, and there is none between the quotes
        intro boundary hboundary hbehind
        exact hboundary (by simp_all [boundaryBehind])

theorem lastWord_cons {word : List UInt8} {boundary : Bool} {offset found : Nat} {piece : Piece}
    {rest : List Piece} (h : lastWord posix isSeparator word boundary offset (piece :: rest) = some found) :
    lastWord posix isSeparator word (boundaryBehind posix isSeparator boundary piece)
        (offset + piece.raw.length) rest = some found ∨
      boundary = true ∧ startsWord posix isSeparator word (piece :: rest) = true ∧ found = offset := by
  rcases Option.or_eq_some_iff.mp h with hrest | ⟨-, hhere⟩
  · exact .inl hrest
  · split at hhere
    case isTrue hword =>
      obtain ⟨hboundary, hstarts⟩ := Bool.and_eq_true_iff.mp hword
      exact .inr ⟨hboundary, hstarts, (Option.some.inj hhere).symm⟩
    case isFalse => cases hhere

theorem rawText_cons (piece : Piece) (pieces : List Piece) :
    rawText (piece :: pieces) = piece.raw ++ rawText pieces := by
  simp [rawText]

theorem rawText_eq_of_behindWord {word : List UInt8} {pieces behind : List Piece}
    (h : behindWord word pieces = some behind) : rawText pieces = word ++ rawText behind := by
  fun_induction behindWord word pieces with
  | case1 pieces => simp [Option.some.inj h]
  | case2 byte word => cases h
  | case3 byte word piece pieces hraw ih => rw [rawText_cons, hraw, ih h]; rfl
  | case4 byte word piece pieces hraw => cases h

theorem exists_behind_of_startsWord {word : List UInt8} {pieces : List Piece}
    (h : startsWord posix isSeparator word pieces = true) :
    ∃ behind, rawText pieces = word ++ rawText behind := by
  unfold startsWord at h
  cases hbehind : behindWord word pieces with
  | none => simp [hbehind] at h
  | some behind => exact ⟨behind, rawText_eq_of_behindWord hbehind⟩

/-- What stands at the offset of the last word is spelled as the word is. -/
theorem prefix_of_lastWord {word : List UInt8} {boundary : Bool} {offset found : Nat} {pieces : List Piece}
    (h : lastWord posix isSeparator word boundary offset pieces = some found) :
    offset ≤ found ∧ word <+: (rawText pieces).drop (found - offset) := by
  induction pieces generalizing boundary offset with
  | nil => cases h
  | cons piece rest ih =>
    rcases lastWord_cons h with hrest | ⟨-, hstarts, rfl⟩
    · obtain ⟨hle, hprefix⟩ := ih hrest
      refine ⟨by omega, ?_⟩
      have hsplit : found - offset = piece.raw.length + (found - (offset + piece.raw.length)) := by omega
      rw [hsplit, rawText_cons, ← List.drop_drop, List.drop_left]
      exact hprefix
    · obtain ⟨behind, hbehind⟩ := exists_behind_of_startsWord hstarts
      exact ⟨Nat.le_refl _, by simp [hbehind]⟩

end LastWord

/-! ### Parameters -/

section Parameters

variable {first second : UInt8} {kept offset : Nat} {piece next : Piece} {pieces rest : List Piece}

attribute [local simp] removeParameters

@[simp] theorem removeParameters_nil : removeParameters first second kept offset [] = [] := by
  rw [removeParameters]

theorem removeParameters_keep
    (h : startsParameter first second (piece :: rest) = true → offset = kept) :
    removeParameters first second kept offset (piece :: rest) =
      piece.raw ++ removeParameters first second kept (offset + piece.raw.length) rest := by
  cases rest with
  | nil => simp [removeParameters]
  | cons next rest =>
    rw [removeParameters, if_neg]
    simpa using h

theorem removeParameters_remove (h : startsParameter first second (piece :: next :: rest) = true)
    (hother : offset ≠ kept) :
    removeParameters first second kept offset (piece :: next :: rest) =
      removeParameters first second kept (offset + 2) rest := by
  rw [removeParameters, if_pos]
  simp [h, hother]

theorem startsParameter_eq_true (h : startsParameter first second pieces = true) :
    ∃ quotes next rest, pieces = .Plain first quotes :: next :: rest ∧ quotes ≠ .Single ∧ next.raw = [second] := by
  unfold startsParameter at h
  split at h
  case h_1 byte quotes next rest =>
    simp only [Bool.and_eq_true, beq_iff_eq, bne_iff_ne, ne_eq] at h
    obtain ⟨⟨hbyte, hquotes⟩, hnext⟩ := h
    exact ⟨quotes, next, rest, by rw [hbyte], hquotes, hnext⟩
  case h_2 => cases h

/-- The first byte stays unless a parameter starts with it. -/
theorem head_removeParameters (h : (rawText pieces).head? ≠ some first) :
    (removeParameters first second kept offset pieces).head? = (rawText pieces).head? := by
  cases pieces with
  | nil => simp [rawText]
  | cons piece rest =>
    have hkeep : startsParameter first second (piece :: rest) = true → offset = kept := by
      intro hstarts
      obtain ⟨quotes, next, tail, hpieces, -, -⟩ := startsParameter_eq_true hstarts
      obtain ⟨rfl, rfl⟩ := List.cons.inj hpieces
      simp [rawText] at h
    rw [removeParameters_keep hkeep, rawText_cons]
    cases piece <;> rfl

/-- A parameter that the shell expands is at the target, the pieces being at `offset`. -/
inductive ParameterAt (first second : UInt8) (target : Nat) : Nat → List Piece → Prop
  | here {pieces : List Piece} (h : startsParameter first second pieces = true) :
      ParameterAt first second target target pieces
  | skip {offset : Nat} {piece next : Piece} {rest : List Piece}
      (h : startsParameter first second (piece :: next :: rest) = true)
      (hrest : ParameterAt first second target (offset + 2) rest) :
      ParameterAt first second target offset (piece :: next :: rest)
  | step {offset : Nat} {piece : Piece} {rest : List Piece}
      (h : startsParameter first second (piece :: rest) = false)
      (hrest : ParameterAt first second target (offset + piece.raw.length) rest) :
      ParameterAt first second target offset (piece :: rest)

theorem ParameterAt.le {target : Nat} (h : ParameterAt first second target offset pieces) : offset ≤ target := by
  induction h with
  | here => exact Nat.le_refl _
  | skip _ _ ih => omega
  | step _ _ ih => omega

theorem startsParameter_second (hne : first ≠ second) (hraw : piece.raw = [second]) :
    startsParameter first second (piece :: rest) = false := by
  cases hstarts : startsParameter first second (piece :: rest) with
  | false => rfl
  | true =>
    obtain ⟨quotes, next, tail, hpieces, -, -⟩ := startsParameter_eq_true hstarts
    obtain ⟨rfl, -⟩ := List.cons.inj hpieces
    exact absurd (List.cons.inj hraw).1 hne

/-- Nothing in front of a parameter hides it, since no two parameters overlap. -/
theorem ParameterAt.cons {target : Nat} (hne : first ≠ second)
    (h : ParameterAt first second target (offset + piece.raw.length) rest) :
    ParameterAt first second target offset (piece :: rest) := by
  by_cases hstarts : startsParameter first second (piece :: rest) = true
  · obtain ⟨quotes, next, tail, hpieces, -, hraw⟩ := startsParameter_eq_true hstarts
    obtain ⟨rfl, rfl⟩ := List.cons.inj hpieces
    have hnext : startsParameter first second (next :: tail) = false := startsParameter_second hne hraw
    refine .skip hstarts ?_
    cases h with
    | here hhere => simp [hnext] at hhere
    | skip hhere _ => simp [hnext] at hhere
    | step _ hrest => simpa [hraw] using hrest
  · exact .step (Bool.not_eq_true _ ▸ hstarts) h

/-- What remains of a command tells which parameter was kept, where none stands directly behind it. -/
theorem removeParameters_ne {other : Nat} (h : ParameterAt first second kept offset pieces) (hne : kept ≠ other)
    (hkept : (rawText pieces)[kept - offset + 2]? ≠ some first)
    (hother : offset ≤ other → (rawText pieces)[other - offset + 2]? ≠ some first) :
    removeParameters first second kept offset pieces ≠ removeParameters first second other offset pieces := by
  induction h with
  | here hstarts =>
    obtain ⟨quotes, next, rest, rfl, -, hraw⟩ := startsParameter_eq_true hstarts
    have hhead : (rawText rest).head? ≠ some first := by
      simpa [rawText_cons, hraw, List.head?_eq_getElem?] using hkept
    rw [removeParameters_keep fun _ => rfl, removeParameters_remove hstarts hne]
    intro heq
    have hheads := congrArg List.head? heq
    rw [head_removeParameters hhead] at hheads
    exact hhead (hheads.symm.trans (by simp))
  | @skip offset piece next rest hstarts hrest ih =>
    obtain ⟨quotes, next', rest', hpieces, -, hraw⟩ := startsParameter_eq_true hstarts
    obtain ⟨rfl, htail⟩ := List.cons.inj hpieces
    obtain ⟨rfl, rfl⟩ := List.cons.inj htail
    have hle := hrest.le
    have htext : rawText (.Plain first quotes :: next :: rest) = first :: second :: rawText rest := by
      simp [rawText_cons, hraw]
    have hshift (index : Nat) (hindex : offset + 2 ≤ index) :
        (rawText (.Plain first quotes :: next :: rest))[index - offset + 2]? =
          (rawText rest)[index - (offset + 2) + 2]? := by
      rw [htext, show index - offset + 2 = index - (offset + 2) + 2 + 1 + 1 by omega]
      simp
    rw [removeParameters_remove hstarts (by omega)]
    by_cases hhere : offset = other
    · subst hhere
      have hhead : (rawText rest).head? ≠ some first := by
        have hbehind := hother (Nat.le_refl _)
        simpa [htext, List.head?_eq_getElem?] using hbehind
      rw [removeParameters_keep fun _ => rfl]
      intro heq
      have hheads := congrArg List.head? heq
      rw [head_removeParameters hhead] at hheads
      exact hhead (hheads.trans (by simp))
    · rw [removeParameters_remove hstarts hhere]
      apply ih
      · rwa [hshift kept hle] at hkept
      · intro hlater
        have hbehind := hother (by omega)
        rwa [hshift other hlater] at hbehind
  | @step offset piece rest hstarts hrest ih =>
    have hle := hrest.le
    have hshift (index : Nat) (hindex : offset + piece.raw.length ≤ index) :
        (rawText (piece :: rest))[index - offset + 2]? =
          (rawText rest)[index - (offset + piece.raw.length) + 2]? := by
      rw [rawText_cons, List.getElem?_append_right (by omega)]
      congr 1
      omega
    have hkeep (index : Nat) : startsParameter first second (piece :: rest) = true → offset = index := by
      simp [hstarts]
    rw [removeParameters_keep (hkeep _), removeParameters_keep (hkeep _)]
    intro heq
    refine ih ?_ ?_ (List.append_cancel_left heq)
    · rwa [hshift kept hle] at hkept
    · intro hlater
      have hbehind := hother (by omega)
      rwa [hshift other hlater] at hbehind

end Parameters

end ShellQuoting
