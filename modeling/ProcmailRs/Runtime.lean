import ProcmailRs.HeaderEdit

/-!
# Runtime variables

The variables of a run. A forked runtime shares the values set before the fork and keeps its own from
then on, so that its layers together are one map from names to values; `Removed` marks a name that
hides whatever was there. A value is text when it is valid UTF-8; text is kept as its bytes.
-/

namespace ProcmailRs

/-- How many arguments can be named. -/
def maxPositionalArguments : Nat := 256

/-- The limit of `LINEBUF` where it is not set. -/
def defaultLinebuf : Nat := 2048

/-- The least limit that `LINEBUF` may set. -/
def minLinebuf : Nat := 128

/-- The largest limit that `LINEBUF` may set. -/
def maxLinebuf : Nat := 1024 * 1024

/-- Octal 077. -/
def defaultUmask : Nat := 63

/-- How long a path may be. -/
def maxPathExpressionLen : Nat := 4096

/-- How long `SHELL`, `SHELLFLAGS` and `PATH` may be. -/
def maxShellSettingLen : Nat := 4096

/-- `u8::is_ascii_digit`. -/
def isAsciiDigit (b : UInt8) : Bool := 48 ≤ b && b ≤ 57

/-- The number that a run of digits in the given base denotes. -/
def digitsValue (base : Nat) (digits : Bytes) : Nat :=
  digits.foldl (fun value digit => value * base + (digit.toNat - 48)) 0

/-- `str::parse::<usize>`: digits behind an optional plus sign, without overflow. -/
def parseUsize (text : Bytes) : Option Nat :=
  let digits := match text with
    | 43 :: rest => rest
    | _ => text
  if digits.isEmpty || !digits.all isAsciiDigit || digitsValue 10 digits > usizeMax then none
  else some (digitsValue 10 digits)

/-- `usize::to_string`. -/
def decimal (n : Nat) : Bytes := strBytes (toString n)

/-- The number of the arguments, or one of them. -/
def isPositionalParameterName (name : String) : Bool :=
  name == "#" ||
    (!name.isEmpty && (strBytes name).all isAsciiDigit &&
      (parseUsize (strBytes name)).any fun index => 1 ≤ index && index ≤ maxPositionalArguments)

/-- The count of `SHIFT`: a positive decimal number, cut off at the number of positional parameters
there can be. -/
def parseShift (value : Bytes) : Except String Nat :=
  if value.isEmpty || !value.all isAsciiDigit then
    .error "SHIFT must be a positive decimal integer"
  else
    let amount := value.foldl
      (fun amount digit => min (amount * 10 + (digit.toNat - 48)) maxPositionalArguments) 0
    if amount = 0 then .error "SHIFT must be a positive decimal integer" else .ok amount

/-- One to four octal digits, not above 0777. -/
def parseUmask (value : Bytes) : Option Nat :=
  if value.isEmpty || value.length > 4 || !(value.all fun b => 48 ≤ b && b ≤ 55) then none
  else if digitsValue 8 value > 511 then none
  else some (digitsValue 8 value)

/-- What has become of a variable. A value that is not UTF-8 is kept as bytes. -/
inductive RuntimeValue
  | Text (value : Bytes)
  | Bytes (value : Bytes)
  | Removed
  deriving DecidableEq, Repr

/-- The variables of a run: the values that were set, and what the special parameters show. -/
structure RuntimeVariables where
  values : String → Option RuntimeValue
  systemHostname : Option Bytes
  processId : Bytes
  lastCommandStatus : Bytes
  currentRcFile : Option Bytes

/-- What an expression sees of the variables: the texts behind their names. -/
abbrev Lookup := String → Option Bytes

namespace RuntimeVariables

/-- `RuntimeVariables::default` in the process `processId`. -/
def default (processId : Bytes) : RuntimeVariables :=
  { values := fun name =>
      if name = "LINEBUF" then some (.Text (decimal defaultLinebuf))
      else if name = "TIMEOUT" then some (.Text (decimal 960))
      else if name = "UMASK" then some (.Text (strBytes "077"))
      else if name = "LOCKEXT" then some (.Text (strBytes ".lock"))
      else none
    systemHostname := none
    processId := processId
    lastCommandStatus := strBytes "0"
    currentRcFile := none }

/-- The value of a name with no special meaning. Positional parameters beyond the last are empty. -/
def stored (runtime : RuntimeVariables) (read : RuntimeValue → Option Bytes) (name : String) :
    Option Bytes :=
  match runtime.values name with
  | some value => read value
  | none =>
    if name = "#" then some (strBytes "0")
    else if isPositionalParameterName name then some []
    else none

/-- The value of a variable as it is read in two ways: special parameters first, then what was set, then
the system's. -/
def lookup (runtime : RuntimeVariables) (read : RuntimeValue → Option Bytes) (name : String) :
    Option Bytes :=
  if name = "$" then some runtime.processId
  else if name = "?" then some runtime.lastCommandStatus
  else if name = "_" then runtime.currentRcFile
  else if name = "-" then runtime.stored read "LASTFOLDER"
  else runtime.stored read name

/-- The value of a variable that is text. -/
def get (runtime : RuntimeVariables) : Lookup :=
  runtime.lookup fun
    | .Text value => some value
    | _ => none

/-- The value of a variable, text or not. -/
def getBytes (runtime : RuntimeVariables) : Lookup :=
  runtime.lookup fun
    | .Text value => some value
    | .Bytes value => some value
    | .Removed => none

/-- What has become of one variable. -/
def insert (runtime : RuntimeVariables) (name : String) (value : RuntimeValue) : RuntimeVariables :=
  { runtime with values := fun other => if other = name then some value else runtime.values other }

/-- Sets a variable to a text. -/
def set (runtime : RuntimeVariables) (name : String) (value : Bytes) : RuntimeVariables :=
  runtime.insert name (.Text value)

/-- Sets a variable to bytes, which may be text. -/
def setBytes (runtime : RuntimeVariables) (name : String) (value : Bytes) : RuntimeVariables :=
  runtime.insert name (if (utf8Chars? value).isSome then .Text value else .Bytes value)

/-- Removes a variable. -/
def remove (runtime : RuntimeVariables) (name : String) : RuntimeVariables :=
  runtime.insert name .Removed

/-- The values that a header action has extracted. -/
def applyHeaderExtractions (runtime : RuntimeVariables) (extractions : List HeaderExtraction) :
    RuntimeVariables :=
  extractions.foldl (fun runtime extraction => runtime.setBytes extraction.target extraction.value)
    runtime

/-- The positional parameters from `index` on get the shifted values; the others are removed. -/
def placePositionals (runtime : RuntimeVariables) (index : Nat) : List Bytes → RuntimeVariables
  | [] =>
    (List.range' index (maxPositionalArguments + 1 - index)).foldl
      (fun runtime index => runtime.remove (toString index)) runtime
  | value :: rest =>
    if index ≤ maxPositionalArguments then
      (runtime.set (toString index) value).placePositionals (index + 1) rest
    else runtime

/-- Moves the positional parameters down. The source window is read before any name is written. -/
def shiftPositionals (runtime : RuntimeVariables) (requested : Nat) : RuntimeVariables :=
  let count := ((runtime.get "#").bind parseUsize).getD 0
  let amount := min requested count
  let remaining := count - amount
  let shifted := (List.range' 1 remaining).map fun index =>
    (runtime.get (toString (index + amount))).getD []
  (runtime.placePositionals 1 shifted).set "#" (decimal remaining)

/-- `MATCH1`, `MATCH2` and so on. -/
def isNumberedMatch (name : String) : Bool :=
  "MATCH".toList.isPrefixOf name.toList && name.toList.length > 5 &&
    ((strBytes name).drop 5).all isAsciiDigit

/-- The numbered match variables are removed. -/
def clearNumberedMatchValues (runtime : RuntimeVariables) : RuntimeVariables :=
  { runtime with values := fun name =>
      if isNumberedMatch name && (runtime.values name).isSome then some .Removed
      else runtime.values name }

/-- All match variables are removed. -/
def clearMatchValues (runtime : RuntimeVariables) : RuntimeVariables :=
  (runtime.remove "MATCH").clearNumberedMatchValues

/-- Sets a match variable. -/
def setMatchValue (runtime : RuntimeVariables) (name : String) (value : Bytes) : RuntimeVariables :=
  runtime.insert name (.Text value)

end RuntimeVariables

/-! ### Settings read from the variables -/

namespace RuntimeSettings

/-- The line buffer of the moment, or the name of the setting that is malformed. -/
def linebuf (runtime : RuntimeVariables) : Except String Nat :=
  match runtime.get "LINEBUF" with
  | none => .ok defaultLinebuf
  | some value =>
    match parseUsize value with
    | none => .error "LINEBUF"
    | some value =>
      if minLinebuf ≤ value ∧ value ≤ maxLinebuf then .ok value else .error "LINEBUF"

/-- The permissions that new files do not get. -/
def umask (runtime : RuntimeVariables) : Except String Nat :=
  match runtime.get "UMASK" with
  | none => .ok defaultUmask
  | some value =>
    match parseUmask value with
    | none => .error "UMASK"
    | some mask => .ok mask

/-- `MAILDIR`, if it names a directory. -/
def maildir (runtime : RuntimeVariables) : Option Bytes :=
  (runtime.get "MAILDIR").filter fun value => !value.isEmpty

end RuntimeSettings

end ProcmailRs
