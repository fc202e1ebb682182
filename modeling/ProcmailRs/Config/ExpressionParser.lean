import ProcmailRs.Config.Shell

/-!
# Parsing shell expressions

The text of an expression is read byte by byte. All bytes with a meaning are ASCII, so that the bytes
of a longer character are copied one after the other. Quotes and backslashes are taken out; a dollar
sign starts a parameter, whose word is an expression again.
-/

namespace ProcmailRs.Config

/-- The result of reading or evaluating an expression. -/
abbrev Parsed (α : Type) := Except ExpansionError α

/-- The quotes around a character. -/
inductive QuoteMode
  | Unquoted
  | Single
  | Double
  deriving DecidableEq, Repr

/-- Adds a literal text; literal texts that meet become one. -/
def pushLiteralPart (parts : ShellExpression) (text : Bytes) : ShellExpression :=
  if text.isEmpty then parts
  else
    match parts.getLast? with
    | some (.Literal previous) => parts.dropLast ++ [.Literal (previous ++ text)]
    | _ => parts ++ [.Literal text]

/-- `ExpressionSyntax::escapes` of ordinary expressions. -/
def escapes (quote : QuoteMode) (byte : UInt8) : Bool :=
  match quote with
  | .Unquoted => true
  | .Double => byte == 36 || byte == 96 || byte == 34 || byte == 92 || byte == 10
  | .Single => false

/-- `push_expression_character`. -/
def expressionCharacter (byte : UInt8) (patternQuoted : Bool) : Bytes :=
  if patternQuoted && (byte == 42 || byte == 63 || byte == 91 || byte == 92) then [92, byte]
  else [byte]

/-- The expression is not nested too deep. -/
def checkExpansionDepth (depth line : Nat) : Parsed Unit :=
  if depth > maxExpansionDepth then
    .error ⟨line, "variable expansion exceeds the hard depth limit of 32"⟩
  else .ok ()

/-- `u8::is_ascii_alphabetic`. -/
def isAsciiAlphabetic (b : UInt8) : Bool := (65 ≤ b && b ≤ 90) || (97 ≤ b && b ≤ 122)

/-- A byte that a name may begin with. -/
def isNameStart (b : UInt8) : Bool := b == 95 || isAsciiAlphabetic b

/-- A byte that a name may have. -/
def isNameContinue (b : UInt8) : Bool := b == 95 || isAsciiAlphabetic b || isAsciiDigit b

/-- The text of an ASCII name. -/
def nameText (bytes : Bytes) : String := String.ofList (bytes.map fun b => Char.ofNat b.toNat)

/-- `parse_name`: the longest name in front, which may be empty, and what follows it. -/
def parseName (rest : Bytes) : Bytes × Bytes :=
  match rest with
  | [] => ([], [])
  | first :: tail =>
    if isNameStart first then (first :: tail.takeWhile isNameContinue, tail.dropWhile isNameContinue)
    else ([], rest)

/-- A number that names an argument. -/
def parsePositionalParameter (line : Nat) (rest : Bytes) : Parsed (String × Bytes) :=
  let name := rest.takeWhile isAsciiDigit
  match parseUsize name with
  | none => .error ⟨line, "positional parameter index is too large"⟩
  | some index =>
    if 1 ≤ index ∧ index ≤ maxPositionalArguments then
      .ok (nameText name, rest.dropWhile isAsciiDigit)
    else .error ⟨line, "positional parameter index must be from 1 through 256"⟩

/-- A reference has a name. -/
def validateReferenceName (name : Bytes) (line : Nat) : Parsed Unit :=
  if name.isEmpty then .error ⟨line, "variable reference contains an invalid name"⟩ else .ok ()

/-- The operation behind the name of a braced parameter, whether its word is a pattern, and where the
word starts. -/
def parameterOperator (rest : Bytes) : Option (ParameterOperation × Bool × Bytes) :=
  match rest with
  | 58 :: 45 :: rest => some (.DefaultIfUnsetOrEmpty, false, rest)
  | 58 :: 43 :: rest => some (.AlternateIfSetAndNotEmpty, false, rest)
  | 58 :: 61 :: rest => some (.AssignIfUnsetOrEmpty, false, rest)
  | 58 :: 63 :: rest => some (.ErrorIfUnsetOrEmpty, false, rest)
  | 35 :: 35 :: rest => some (.RemovePrefix true, true, rest)
  | 37 :: 37 :: rest => some (.RemoveSuffix true, true, rest)
  | 94 :: 94 :: rest => some (.ChangeCase .Upper true, true, rest)
  | 44 :: 44 :: rest => some (.ChangeCase .Lower true, true, rest)
  | 35 :: rest => some (.RemovePrefix false, true, rest)
  | 37 :: rest => some (.RemoveSuffix false, true, rest)
  | 94 :: rest => some (.ChangeCase .Upper false, true, rest)
  | 44 :: rest => some (.ChangeCase .Lower false, true, rest)
  | 45 :: rest => some (.DefaultIfUnset, false, rest)
  | 43 :: rest => some (.AlternateIfSet, false, rest)
  | _ => none

/-- A parameter with what follows it. -/
abbrev ParsedParameter := (String × ParameterOperation × ShellExpression) × Bytes

section Parameters

-- The parser of a word: whether the word is part of a pattern, and the text it starts.
variable (line : Nat) (parseWord : Bool → Bytes → Parsed (ShellExpression × Bytes))

/-- The word of a parameter, up to the brace. -/
def parseParameterWord (patternWord : Bool) (rest : Bytes) : Parsed (ShellExpression × Bytes) := do
  match ← parseWord patternWord rest with
  | (word, 125 :: rest) => return (word, rest)
  | _ => .error ⟨line, "variable reference is missing '\x7d'"⟩

/-- The parameter behind an opening brace. -/
def parseBracedVariable (patternWord : Bool) (rest : Bytes) : Parsed ParsedParameter :=
  match rest with
  | 35 :: 125 :: rest => .ok (("#", .Value, []), rest)
  | 35 :: rest => do
    let (name, rest) := parseName rest
    validateReferenceName name line
    match rest with
    | 125 :: rest => return ((nameText name, .Length, []), rest)
    | _ => .error ⟨line, "$\x7b#NAME\x7d does not accept a trailing expression"⟩
  | _ =>
    if (rest.head?.map isAsciiDigit).getD false then do
      let (name, rest) ← parsePositionalParameter line rest
      match rest with
      | 125 :: rest => return ((name, .Value, []), rest)
      | _ => .error ⟨line, "positional parameter does not accept an operator"⟩
    else do
      let (name, rest) := parseName rest
      validateReferenceName name line
      match parameterOperator rest with
      | none =>
        match rest with
        | 125 :: rest => return ((nameText name, .Value, []), rest)
        | _ => .error ⟨line, "unsupported parameter expansion operator"⟩
      | some (operation, isPattern, rest) =>
        if operation = .AssignIfUnsetOrEmpty ∧
            variablePolicy (nameText name) ≠ .RcOrCommandLine .User then
          .error ⟨line, "parameter assignment cannot modify protected variable " ++ nameText name⟩
        else do
          let (word, rest) ← parseParameterWord line parseWord (isPattern || patternWord) rest
          return ((nameText name, operation, word), rest)

/-- The parameter behind a dollar sign. -/
def parseParameter (patternWord : Bool) (rest : Bytes) : Parsed ParsedParameter :=
  match rest with
  | [] => .error ⟨line, "'$' must be followed by NAME or \x7bNAME\x7d"⟩
  | first :: tail =>
    if first == 123 then parseBracedVariable line parseWord patternWord tail
    else if isAsciiDigit first then do
      let (name, rest) ← parsePositionalParameter line rest
      return ((name, .Value, []), rest)
    else if first == 35 || first == 36 || first == 63 || first == 95 || first == 45 then
      .ok ((nameText [first], .Value, []), tail)
    else if isNameStart first then
      let (name, rest) := parseName rest
      .ok ((nameText name, .Value, []), rest)
    else .error ⟨line, "unsupported special parameter in expression"⟩

/-- A reference behind its `$`. -/
def parseVariable (patternWord : Bool) (rest : Bytes) : Parsed (ShellPart × Bytes) := do
  let ((name, operation, word), rest) ← parseParameter line parseWord patternWord rest
  if !isPositionalParameterName name && variablePolicy name = .Unsupported then
    .error ⟨line, "procmail variable " ++ name ++ " is not supported"⟩
  else return (.Variable name operation word, rest)

end Parameters

/-- The text of a command up to its closing backquote, and what follows. -/
def commandText : Bytes → Option (Bytes × Bytes)
  | [] => none
  | 96 :: rest => some ([], rest)
  | 92 :: byte :: rest => (commandText rest).map fun (text, rest) => (92 :: byte :: text, rest)
  | byte :: rest => (commandText rest).map fun (text, rest) => (byte :: text, rest)

/-- A command behind its backquote. -/
def parseCommand (line : Nat) (rest : Bytes) : Parsed (ShellPart × Bytes) :=
  match commandText rest with
  | none => .error ⟨line, "unterminated backquoted command in expression"⟩
  | some (text, rest) => .ok (.Command text, rest)

/-- What is the same for all the text of one word. -/
structure WordSyntax where
  line : Nat
  allowCommands : Bool
  nesting : Nat
  stopAtBrace : Bool
  initialQuote : QuoteMode
  patternWord : Bool

/-- The parts read so far, the literal text behind them, and the quotes that are open. -/
structure WordState where
  parts : ShellExpression
  literal : Bytes
  quote : QuoteMode

namespace WordSyntax

variable (syntax_ : WordSyntax)

/-- The text is quoted within a pattern, where it stands for itself. -/
def patternQuoted (state : WordState) : Bool :=
  syntax_.patternWord && state.quote != syntax_.initialQuote

/-- Adds a character to the literal text. -/
def pushCharacter (state : WordState) (byte : UInt8) (quoted : Bool) : WordState :=
  { state with literal := state.literal ++ expressionCharacter byte quoted }

/-- Adds a part behind the literal text. -/
def pushPart (state : WordState) (part : ShellPart) : WordState :=
  { state with
    parts := pushLiteralPart state.parts state.literal ++
      [if syntax_.patternQuoted state then .PatternQuote [part] else part]
    literal := [] }

/-- The end of the word: every quote is closed, and a brace is there if one is expected. -/
def finish (state : WordState) (rest : Bytes) : Parsed (ShellExpression × Bytes) :=
  if state.quote ≠ syntax_.initialQuote then
    .error ⟨syntax_.line,
      if state.quote = .Single then "unterminated single-quoted expression"
      else "unterminated double-quoted expression"⟩
  else if syntax_.stopAtBrace && rest.isEmpty then
    .error ⟨syntax_.line, "variable reference is missing '\x7d'"⟩
  else .ok (pushLiteralPart state.parts state.literal, rest)

/-- What the next byte does to the quotes. -/
def quoteAfter (quote : QuoteMode) (byte : UInt8) : Option QuoteMode :=
  if byte == 39 then
    match quote with
    | .Unquoted => some .Single
    | .Single => some .Unquoted
    | .Double => none
  else if byte == 34 then
    match quote with
    | .Unquoted => some .Double
    | .Double => some .Unquoted
    | .Single => none
  else none

end WordSyntax

open WordSyntax

/-- `parse_until` behind its depth check. The text left is no longer than the fuel. -/
def parseLoop : Nat → WordSyntax → WordState → Bytes → Parsed (ShellExpression × Bytes)
  | _, syntax_, state, [] => syntax_.finish state []
  | 0, syntax_, state, rest => syntax_.finish state rest
  | fuel + 1, syntax_, state, byte :: rest =>
    if syntax_.stopAtBrace && state.quote == syntax_.initialQuote && byte == 125 then
      syntax_.finish state (byte :: rest)
    else
      match quoteAfter state.quote byte with
      | some quote => parseLoop fuel syntax_ { state with quote := quote } rest
      | none =>
        if state.quote == .Single then
          parseLoop fuel syntax_
            (pushCharacter state byte (syntax_.patternQuoted state)) rest
        else if byte == 92 then
          match rest with
          | next :: tail =>
            if escapes state.quote next then
              parseLoop fuel syntax_ (pushCharacter state next syntax_.patternWord) tail
            else
              parseLoop fuel syntax_
                (pushCharacter state 92 (syntax_.patternQuoted state)) (next :: tail)
          | [] =>
            parseLoop fuel syntax_ (pushCharacter state 92 (syntax_.patternQuoted state)) []
        else if syntax_.allowCommands && byte == 96 then do
          let (part, rest) ← parseCommand syntax_.line rest
          parseLoop fuel syntax_ (syntax_.pushPart state part) rest
        else if byte == 36 then do
          let parseWord (patternWord : Bool) (rest : Bytes) : Parsed (ShellExpression × Bytes) := do
            checkExpansionDepth (syntax_.nesting + 1) syntax_.line
            parseLoop fuel
              { syntax_ with
                nesting := syntax_.nesting + 1
                stopAtBrace := true
                initialQuote := state.quote
                patternWord := patternWord }
              ⟨[], [], state.quote⟩ rest
          let (part, rest) ← parseVariable syntax_.line parseWord syntax_.patternWord rest
          parseLoop fuel syntax_ (syntax_.pushPart state part) rest
        else
          parseLoop fuel syntax_ (pushCharacter state byte (syntax_.patternQuoted state)) rest

/-- The expression that a whole text stands for. -/
def parseText (allowCommands : Bool) (text : Bytes) (line : Nat) : Parsed ShellExpression := do
  let (expression, _) ← parseLoop text.length
    ⟨line, allowCommands, 0, false, .Unquoted, false⟩ ⟨[], [], .Unquoted⟩ text
  return expression

/-- Backquotes are ordinary characters in an expression without commands. -/
def parseExpression (text : Bytes) (line : Nat) : Parsed ShellExpression := parseText false text line

/-- The expression of a text, if it does more than read variables. -/
def parseCommandExpression (text : Bytes) (line : Nat) : Parsed (Option ShellExpression) := do
  let expression ← parseText true text line
  return if requiresOrderedEvaluation expression then some expression else none

end ProcmailRs.Config
