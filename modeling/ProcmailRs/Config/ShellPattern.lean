import ProcmailRs.Bytes

/-!
# Shell patterns

The patterns of `${NAME#pattern}` and its like: a pattern is a list of tokens, run over the value as
a nondeterministic automaton with one state per token. What a match may cost is bounded.
-/

namespace ProcmailRs.ShellPattern

/-- How many steps a pattern may take. -/
def maxPatternSteps : Nat := 16 * 1024 * 1024

/-- The end of a value that is cut off. -/
inductive Edge
  | Prefix
  | Suffix
  deriving DecidableEq, Repr

/-- Which of the matches is taken. -/
inductive Selection
  | Shortest
  | Longest
  deriving DecidableEq, Repr

/-- Why a pattern is not run. -/
inductive PatternError
  | TooComplex (attempted : Nat)
  deriving DecidableEq, Repr

/-- The bytes of a bracket expression. -/
structure ByteClass where
  negated : Bool
  ranges : List (UInt8 × UInt8)
  deriving DecidableEq, Repr

/-- What a pattern matches next. -/
inductive Token
  | Literal (byte : UInt8)
  | AnyByte
  | AnyBytes
  | Class (class_ : ByteClass)
  deriving DecidableEq, Repr

/-- The byte belongs to the class. -/
def ByteClass.matches (class_ : ByteClass) (byte : UInt8) : Bool :=
  (class_.ranges.any fun (first, last) => first ≤ byte && byte ≤ last) != class_.negated

/-! ### Tokens -/

/-- The bytes of a class up to its bracket, each with whether it is quoted, and what follows. -/
def classBytes : Bytes → List (UInt8 × Bool) → Option (List (UInt8 × Bool) × Bytes)
  | [], _ => none
  | 93 :: rest, bytes => if bytes.isEmpty then none else some (bytes, rest)
  | 92 :: byte :: rest, bytes => classBytes rest (bytes ++ [(byte, true)])
  | byte :: rest, bytes => classBytes rest (bytes ++ [(byte, false)])

/-- A dash between two bytes makes a range of them, unless it is quoted. -/
def classRanges : List (UInt8 × Bool) → List (UInt8 × UInt8)
  | first :: (45, false) :: last :: rest => (first.1, last.1) :: classRanges rest
  | byte :: rest => (byte.1, byte.1) :: classRanges rest
  | [] => []

/-- The class behind an opening bracket. A bracket that closes at once stands for itself. -/
def parseClass (pattern : Bytes) : Option (ByteClass × Bytes) :=
  let (negated, pattern) := match pattern with
    | 33 :: rest => (true, rest)
    | 94 :: rest => (true, rest)
    | _ => (false, pattern)
  let (bytes, pattern) : List (UInt8 × Bool) × Bytes := match pattern with
    | 93 :: rest => ([(93, false)], rest)
    | _ => ([], pattern)
  (classBytes pattern bytes).map fun (bytes, rest) => (⟨negated, classRanges bytes⟩, rest)

/-- The tokens of the pattern behind those already read. Every round takes at least one byte. -/
def tokenizeFrom : Nat → Bytes → List Token → List Token
  | 0, _, tokens => tokens
  | _, [], tokens => tokens
  | fuel + 1, 92 :: byte :: rest, tokens => tokenizeFrom fuel rest (tokens ++ [.Literal byte])
  | fuel + 1, 42 :: rest, tokens =>
    tokenizeFrom fuel rest
      (if tokens.getLast? = some .AnyBytes then tokens else tokens ++ [.AnyBytes])
  | fuel + 1, 63 :: rest, tokens => tokenizeFrom fuel rest (tokens ++ [.AnyByte])
  | fuel + 1, 91 :: rest, tokens =>
    match parseClass rest with
    | some (class_, rest) => tokenizeFrom fuel rest (tokens ++ [.Class class_])
    | none => tokenizeFrom fuel rest (tokens ++ [.Literal 91])
  | fuel + 1, byte :: rest, tokens => tokenizeFrom fuel rest (tokens ++ [.Literal byte])

/-- The tokens of a pattern. -/
def tokenize (pattern : Bytes) : List Token := tokenizeFrom pattern.length pattern []

/-! ### Matching -/

/-- What a byte of the input may cost. -/
def transitionCost (tokens : List Token) : Nat :=
  tokens.foldl (fun total token =>
    total + match token with
      | .Class class_ => max class_.ranges.length 1
      | _ => 1) 0

/-- The pattern takes no more steps than are allowed. -/
def checkSteps (candidates inputLen : Nat) (tokens : List Token) : Except PatternError Unit :=
  let attempted := candidates * (inputLen + 1) * max (transitionCost tokens) 1
  if attempted > maxPatternSteps then .error (.TooComplex (min attempted usizeMax)) else .ok ()

/-- A star may match nothing: the state behind it is reached with the state before it. -/
def closeStars : List Token → List Bool → List Bool
  | token :: tokens, state :: next :: states =>
    state :: closeStars tokens ((next || (state && token == .AnyBytes)) :: states)
  | _, states => states

/-- The token matches the byte. -/
def Token.consumes (token : Token) (byte : UInt8) : Bool :=
  match token with
  | .Literal expected => expected == byte
  | .AnyByte => true
  | .AnyBytes => false
  | .Class class_ => class_.matches byte

/-- The states after a byte; `reached` says that the token before this state took it. -/
def advance (byte : UInt8) : List Token → List Bool → Bool → List Bool
  | token :: tokens, state :: states, reached =>
    (reached || (state && token == .AnyBytes)) ::
      advance byte tokens states (state && token.consumes byte)
  | _, _, reached => [reached]

/-- The run over the input from `offset` on, with the end of the last match. -/
def endpointFrom (tokens : List Token) (selection : Selection) :
    Bytes → Nat → List Bool → Option Nat → Option Nat
  | [], _, _, matched => matched
  | byte :: rest, offset, states, matched =>
    let states := closeStars tokens (advance byte tokens states false)
    if states.getLast? = some true then
      if selection = .Shortest then some (offset + 1)
      else endpointFrom tokens selection rest (offset + 1) states (some (offset + 1))
    else endpointFrom tokens selection rest (offset + 1) states matched

/-- Where the selected match from the start of the input ends. -/
def matchingEndpointUnchecked (input : Bytes) (tokens : List Token) (selection : Selection) :
    Option Nat :=
  let states := closeStars tokens (true :: tokens.map fun _ => false)
  let matched := if states.getLast? = some true then some 0 else none
  if matched.isSome && selection = .Shortest then matched
  else endpointFrom tokens selection input 0 states matched

/-- Where the selected match from the start of the input ends, within the steps. -/
def matchingEndpoint (input : Bytes) (tokens : List Token) (selection : Selection) :
    Except PatternError (Option Nat) := do
  checkSteps 1 input.length tokens
  return matchingEndpointUnchecked input tokens selection

/-- `remove`: the value without the selected match at one end. -/
def remove (value pattern : Bytes) (edge : Edge) (selection : Selection) :
    Except PatternError Bytes := do
  let tokens := tokenize pattern
  match edge with
  | .Prefix =>
    match ← matchingEndpoint value tokens selection with
    | none => return value
    | some length => return value.drop length
  | .Suffix =>
    match ← matchingEndpoint value.reverse tokens.reverse selection with
    | none => return value
    | some length => return value.take (value.length - length)

/-- Every byte that matches is transformed, or only the first byte if it does. -/
def transformMatchingBytes (value pattern : Bytes) (all : Bool) (transform : UInt8 → UInt8) :
    Except PatternError Bytes := do
  let tokens := tokenize (if pattern.isEmpty then [63] else pattern)
  checkSteps (if all then value.length else min value.length 1) 1 tokens
  let step (byte : UInt8) : UInt8 :=
    if matchingEndpointUnchecked [byte] tokens .Longest = some 1 then transform byte else byte
  return if all then value.map step else (value.take 1).map step ++ value.drop 1

end ProcmailRs.ShellPattern
