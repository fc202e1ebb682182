import ProcmailRs.Config.ExpressionParser
import ProcmailRs.Config.RcText

/-!
# The word behind an assignment

The value of an assignment is one word of the shell. The word ends at the first blank that is not quoted,
and a `#` at its start begins a comment; nothing but a comment may follow. Every string can be spelled as
such a word, with quotes of either kind around its pieces.
-/

namespace ProcmailRs.Config

open WordSyntax

/-- The syntax of a word, which may have commands. -/
def assignmentSyntax (line : Nat) : WordSyntax := ⟨line, true, 0, false, .Unquoted, false⟩

/-- What the word ends at, outside of quotes. -/
def endsWord (started : Bool) (byte : UInt8) : Bool :=
  byte == 32 || byte == 9 || (byte == 35 && !started)

/-- `parse_until` of a word, `started` being `word_started`. The words inside of parameters are read by
`parseLoop`. The text left is no longer than the fuel. -/
def wordLoop (line : Nat) : Nat → Bool → WordState → Bytes → Parsed (ShellExpression × Bytes)
  | _, _, state, [] => (assignmentSyntax line).finish state []
  | 0, _, state, rest => (assignmentSyntax line).finish state rest
  | fuel + 1, started, state, byte :: rest =>
    if state.quote == .Unquoted && endsWord started byte then
      (assignmentSyntax line).finish state (byte :: rest)
    else
      match quoteAfter state.quote byte with
      | some quote => wordLoop line fuel (started || quote != .Unquoted) { state with quote := quote } rest
      | none =>
        if state.quote == .Single then wordLoop line fuel true (pushCharacter state byte false) rest
        else if byte == 92 then
          match rest with
          | next :: tail =>
            if escapes state.quote next then wordLoop line fuel true (pushCharacter state next false) tail
            else wordLoop line fuel true (pushCharacter state 92 false) (next :: tail)
          | [] => wordLoop line fuel true (pushCharacter state 92 false) []
        else if byte == 96 then do
          let (part, rest) ← parseCommand line rest
          wordLoop line fuel true ((assignmentSyntax line).pushPart state part) rest
        else if byte == 36 then do
          let parseWord (patternWord : Bool) (rest : Bytes) : Parsed (ShellExpression × Bytes) := do
            checkExpansionDepth 1 line
            parseLoop fuel ⟨line, true, 1, true, state.quote, patternWord⟩ ⟨[], [], state.quote⟩ rest
          let (part, rest) ← parseVariable line parseWord false rest
          wordLoop line fuel true ((assignmentSyntax line).pushPart state part) rest
        else wordLoop line fuel true (pushCharacter state byte false) rest

/-- The messages about an expression, as they read for an assignment. -/
def assignmentMessage (message : String) : String :=
  if message = "unterminated single-quoted expression" then "unterminated single-quoted assignment value"
  else if message = "unterminated double-quoted expression" then
    "unterminated double-quoted assignment value"
  else if message = "unterminated backquoted command in expression" then
    "unterminated backquoted command in assignment value"
  else message

/-- The text of the word, and what it means. -/
structure ParsedAssignmentWord where
  source : Bytes
  expression : ShellExpression

/-- `parse_assignment_word`: the word of an assignment, up to the end of the line. -/
def parseAssignmentWord (input : Text) (line : Nat) : Parsed ParsedAssignmentWord :=
  let bytes := utf8 input
  match wordLoop line bytes.length false ⟨[], [], .Unquoted⟩ bytes with
  | .error error => .error ⟨error.line, assignmentMessage error.message⟩
  | .ok (expression, rest) =>
    -- The word ends before an ASCII character, so that what is left is text.
    if (utf8Chars? rest).all fun trailing => isBlankOrComment (trimStart trailing) then
      .ok ⟨bytes.take (bytes.length - rest.length), expression⟩
    else .error ⟨line, "assignment value contains more than one shell word"⟩

/-- The reading of assignments in an rc file. -/
def rcAssignmentWord (text : Text) : Except WordError (Bytes × ShellExpression) :=
  match parseAssignmentWord text 0 with
  | .error error => .error ⟨error.message, false⟩
  | .ok word => .ok (word.source, word.expression)

/-! ### Spellings -/

/-- A single quote. -/
abbrev apostrophe : Char := '\x27'

/-- The two kinds of quotes. -/
inductive Spelling
  | SingleQuoted
  | DoubleQuoted
  deriving DecidableEq, Repr

namespace Spelling

/-- The quote that a spelling uses. -/
def mark : Spelling → Char
  | .SingleQuoted => apostrophe
  | .DoubleQuoted => '\x22'

/-- How a character is written between the quotes. An apostrophe stands outside of them, and a dollar
sign, a backquote, a quotation mark or a backslash behind a backslash. -/
def character : Spelling → Char → Text
  | .SingleQuoted, c => if c = apostrophe then [apostrophe, '\\', apostrophe, apostrophe] else [c]
  | .DoubleQuoted, c => if c = '$' ∨ c = '\x60' ∨ c = '\x22' ∨ c = '\\' then ['\\', c] else [c]

/-- A text in quotes. -/
def spell (spelling : Spelling) (text : Text) : Text :=
  spelling.mark :: (text.flatMap spelling.character ++ [spelling.mark])

end Spelling

/-- A piece of a string with its spelling. -/
structure SpelledPiece where
  spelling : Spelling
  text : Text
  deriving DecidableEq, Repr

/-- The spellings of the pieces one behind the other. -/
def spellPieces (pieces : List SpelledPiece) : Text :=
  pieces.flatMap fun piece => piece.spelling.spell piece.text

/-- The text that the pieces spell. -/
def piecesText (pieces : List SpelledPiece) : Text := pieces.flatMap SpelledPiece.text

end ProcmailRs.Config
