import ProcmailRs.Config.ExpressionParser
import ProcmailRs.Config.Value

/-!
# What a pattern word means

Every byte of a pattern word is quoted or not. The meaning of the word is a list of tokens in which a
quoted byte stands for itself. The code keeps the quoting in another way: it puts a backslash before a
quoted byte that means something outside of brackets.
-/

namespace ProcmailRs.Config

open ShellPattern (Token ByteClass classRanges)

/-! ### The quoting of a word -/

/-- A part with its quoting. -/
def quotedPart (quoted : Bool) (part : ShellPart) : ShellPart :=
  if quoted then .PatternQuote [part] else part

/-- The parts of a pattern word with all of its quoting: what stands between quotes that have been opened
within the word is quoted, and so is a byte behind a backslash that escapes it. The text left is no longer
than the fuel. -/
def quotedParts : Nat → WordSyntax → ShellExpression → QuoteMode → Bytes →
    Parsed (ShellExpression × Bytes)
  | _, syntax_, parts, quote, [] => syntax_.finish ⟨parts, [], quote⟩ []
  | 0, syntax_, parts, quote, rest => syntax_.finish ⟨parts, [], quote⟩ rest
  | fuel + 1, syntax_, parts, quote, byte :: rest =>
    let quoted := quote != syntax_.initialQuote
    if syntax_.stopAtBrace && quote == syntax_.initialQuote && byte == 125 then
      syntax_.finish ⟨parts, [], quote⟩ (byte :: rest)
    else
      match WordSyntax.quoteAfter quote byte with
      | some quote => quotedParts fuel syntax_ parts quote rest
      | none =>
        if quote == .Single then
          quotedParts fuel syntax_ (parts ++ [quotedPart quoted (.Literal [byte])]) quote rest
        else if byte == 92 then
          match rest with
          | next :: tail =>
            if escapes quote next then
              quotedParts fuel syntax_ (parts ++ [quotedPart true (.Literal [next])]) quote tail
            else
              quotedParts fuel syntax_ (parts ++ [quotedPart quoted (.Literal [92])]) quote
                (next :: tail)
          | [] => quotedParts fuel syntax_ (parts ++ [quotedPart quoted (.Literal [92])]) quote []
        else if syntax_.allowCommands && byte == 96 then do
          let (part, rest) ← parseCommand syntax_.line rest
          quotedParts fuel syntax_ (parts ++ [quotedPart quoted part]) quote rest
        else if byte == 36 then do
          let parseWord (patternWord : Bool) (rest : Bytes) : Parsed (ShellExpression × Bytes) := do
            checkExpansionDepth (syntax_.nesting + 1) syntax_.line
            quotedParts fuel
              { syntax_ with
                nesting := syntax_.nesting + 1
                stopAtBrace := true
                initialQuote := quote
                patternWord := patternWord }
              [] quote rest
          let (part, rest) ← parseVariable syntax_.line parseWord true rest
          quotedParts fuel syntax_ (parts ++ [quotedPart quoted part]) quote rest
        else quotedParts fuel syntax_ (parts ++ [quotedPart quoted (.Literal [byte])]) quote rest

/-- A byte and how many times it is quoted: a quoted part may have a word with quotes of its own. -/
abbrev MarkedByte := UInt8 × Nat

/-- The text that the code makes of marked bytes: every quoting puts backslashes into the text of the one
before. -/
def encode (marks : List MarkedByte) : Bytes :=
  marks.flatMap fun mark => quotePatternBytes^[mark.2] [mark.1]

/-- Bytes outside of quotes. -/
def plainMarks (text : Bytes) : List MarkedByte := text.map fun byte => (byte, 0)

/-- The bytes inside one more pair of quotes. -/
def quoteMarks (marks : List MarkedByte) : List MarkedByte :=
  marks.map fun mark => (mark.1, mark.2 + 1)

/-- The marked bytes of a parameter. What an operation on the value gives is unquoted, and its word has
its own quoting where it is selected. -/
def parameterMarks (operation : ParameterOperation) (found : Option Bytes) (room nesting : Nat)
    (word : Option (List MarkedByte)) : Option (List MarkedByte) :=
  if operation.selectsWord found.isSome (found.any List.isEmpty) then word
  else (parameterValue operation found room nesting (word.map encode)).map plainMarks

mutual

/-- The marked bytes of a part, as long as their text fits in the room. -/
def ShellPart.marks (lookup : Lookup) : ShellPart → Nat → Nat → Option (List MarkedByte)
  | .Literal text, room, _ => (fitting room text).map plainMarks
  | .Variable name operation word, room, nesting =>
    parameterMarks operation (lookup name) room nesting
      (if nesting < maxExpansionDepth then expressionMarks lookup word room (nesting + 1) else none)
  | .RegexQuotedVariable _, _, _ | .Command _, _, _ => none
  | .PatternQuote expression, room, nesting =>
    (expressionMarks lookup expression room nesting).bind fun marks =>
      (fitting room (encode (quoteMarks marks))).map fun _ => quoteMarks marks

/-- The bytes of a value, each with the quotes around it. -/
def expressionMarks (lookup : Lookup) : ShellExpression → Nat → Nat → Option (List MarkedByte)
  | [], _, _ => some []
  | part :: parts, room, nesting =>
    (part.marks lookup room nesting).bind fun marks =>
      (expressionMarks lookup parts (room - (encode marks).length) nesting).map (marks ++ ·)

end

/-! ### The meaning of marked bytes -/

/-- Why a byte of a pattern is not what it looks like: the quoting of the word, or a backslash in an
unquoted value. -/
inductive Origin
  | Plain
  | Escaped
  | Quoted
  deriving DecidableEq, Repr

/-- A byte of a pattern with its origin. -/
abbrev Mark := UInt8 × Origin

/-- An unquoted backslash is taken with the byte behind it. -/
def resolve : List MarkedByte → List Mark
  | [] => []
  | (92, 0) :: (byte, _) :: rest => (byte, .Escaped) :: resolve rest
  | (byte, depth) :: rest => (byte, if depth = 0 then .Plain else .Quoted) :: resolve rest

/-- The bytes that get a backslash when they are quoted. -/
def isPatternSpecial (byte : UInt8) : Bool := byte == 42 || byte == 63 || byte == 91 || byte == 92

/-- The byte may act as something else than itself. -/
def Mark.meant (mark : Mark) : Bool := mark.2 == .Plain

/-- The byte may act as something else than itself in the text that the code reads. -/
def Mark.read (mark : Mark) : Bool :=
  mark.2 == .Plain || (mark.2 == .Quoted && !isPatternSpecial mark.1)

/-- A bracket expression behind its opening bracket: its negation, its members, the bracket that closes
it and what follows. -/
structure ClassText where
  negation : Option Mark
  members : List Mark
  closing : Mark
  rest : List Mark

section Reading

-- The marks that may act as something else than themselves.
variable (active : Mark → Bool)

/-- The members of a bracket expression, the bracket that closes it, and what comes behind. -/
def classMembers : List Mark → List Mark → Option (List Mark × Mark × List Mark)
  | [], _ => none
  | mark :: rest, members =>
    if mark.1 == 93 && active mark then some (members, mark, rest)
    else classMembers rest (members ++ [mark])

/-- The negation in front of the members. -/
def classNegation : List Mark → Option Mark × List Mark
  | [] => (none, [])
  | mark :: rest =>
    if (mark.1 == 33 || mark.1 == 94) && active mark then (some mark, rest) else (none, mark :: rest)

/-- A bracket that closes at once stands for itself. -/
def classStart : List Mark → List Mark × List Mark
  | [] => ([], [])
  | mark :: rest => if mark.1 == 93 && active mark then ([mark], rest) else ([], mark :: rest)

/-- A bracket expression behind its bracket, if it is closed. -/
def readClass (marks : List Mark) : Option ClassText :=
  let (negation, marks) := classNegation active marks
  let (members, marks) := classStart active marks
  (classMembers active marks members).map fun (members, closing, rest) =>
    ⟨negation, members, closing, rest⟩

/-- The class that a bracket expression means. -/
def ClassText.byteClass (text : ClassText) : ByteClass :=
  ⟨text.negation.isSome, classRanges (text.members.map fun mark => (mark.1, !active mark))⟩

/-- The tokens of the marks behind those already read. Every round takes at least one mark. -/
def tokensFrom : Nat → List Mark → List Token → List Token
  | 0, _, tokens => tokens
  | _, [], tokens => tokens
  | fuel + 1, mark :: rest, tokens =>
    if mark.1 == 42 && active mark then
      tokensFrom fuel rest
        (if tokens.getLast? = some .AnyBytes then tokens else tokens ++ [.AnyBytes])
    else if mark.1 == 63 && active mark then tokensFrom fuel rest (tokens ++ [.AnyByte])
    else if mark.1 == 91 && active mark then
      match readClass active rest with
      | some text => tokensFrom fuel text.rest (tokens ++ [.Class (text.byteClass active)])
      | none => tokensFrom fuel rest (tokens ++ [.Literal 91])
    else tokensFrom fuel rest (tokens ++ [.Literal mark.1])

end Reading

/-- The tokens of a pattern in which every quoted byte is a literal or a member of a class. -/
def meantTokens (marks : List MarkedByte) : List Token :=
  tokensFrom Mark.meant (resolve marks).length (resolve marks) []

/-! ### Where the text says what is meant -/

/-- The dashes that the code takes for ranges are not quoted. -/
def literalDashes : List Mark → Bool
  | [] => true
  | [_] => true
  | [_, _] => true
  | _ :: dash :: last :: rest =>
    if dash.1 == 45 && dash.read then dash.meant && literalDashes rest
    else literalDashes (dash :: last :: rest)

/-- Nothing of a bracket expression that acts in the text is quoted. -/
def ClassText.literal (text : ClassText) : Bool :=
  text.negation.all Mark.meant && text.closing.meant && literalDashes text.members

/-- No quoted byte acts in the marks. -/
def literalFrom : Nat → List Mark → Bool
  | 0, _ => true
  | _, [] => true
  | fuel + 1, mark :: rest =>
    if mark.1 == 91 && mark.read then
      match readClass Mark.read rest with
      | some text => text.literal && literalFrom fuel text.rest
      | none => (readClass Mark.meant rest).isNone && literalFrom fuel rest
    else literalFrom fuel rest

/-- No unquoted backslash stands before a byte that gets a backslash of its own. -/
def escapesApart : List MarkedByte → Bool
  | [] => true
  | (92, 0) :: (byte, depth) :: rest =>
    (depth == 0 || !isPatternSpecial byte) && escapesApart rest
  | _ :: rest => escapesApart rest

/-- No byte that gets a backslash is quoted again by the quotes around its word. -/
def quotedOnce (marks : List MarkedByte) : Bool :=
  marks.all fun mark => decide (mark.2 ≤ 1) || !isPatternSpecial mark.1

/-- In the text of the pattern, a quoted byte acts as nothing but itself: it has no more than one
backslash, no backslash in front of it takes its own one, and it is no bracket, negation or range of a
bracket expression. -/
def literalQuotes (marks : List MarkedByte) : Bool :=
  quotedOnce marks && escapesApart marks && literalFrom (resolve marks).length (resolve marks)

end ProcmailRs.Config
