import ProcmailRs.Eval.Tree

/-!
# Assignments

Assignments, removals and the `HOST` test are the statements that need nothing but the variables; they
mean the same in every mode of evaluation.
-/

namespace ProcmailRs

/-- `slice::starts_with`. -/
def startsWith (value start : Bytes) : Bool := value.take start.length == start

/-- The reading of `VERBOSE` and its like: a digit other than 0, or the first letters of a word. -/
def parseProcmailBoolean (value : Bytes) : Option Bool :=
  let value := value.map toAsciiLowercase
  if (value.head?.any fun b => isAsciiDigit b && b != 48) ||
      (["on", "y", "t", "e"].any fun word => startsWith value (strBytes word)) then some true
  else if (value.head?.any fun b => b == 48) ||
      (["off", "n", "f", "d"].any fun word => startsWith value (strBytes word)) then some false
  else none

/-- A word that `LOGABSTRACT` knows. -/
def isLogAbstractMode (value : Bytes) : Bool :=
  ["no", "yes", "all"].any fun word => value == strBytes word

/-- The value is text that the check accepts. -/
def checkedText (line : Nat) (message : String) (value : Bytes) (accepts : Bytes → Bool) :
    Eval Unit :=
  if (utf8Chars? value).isSome && accepts value then pure ()
  else throw (.RuntimeCondition line message)

/-- An assignment whose value is known. -/
structure ResolvedAssignment where
  name : String
  target : AssignmentTarget
  value : Bytes
  line : Nat
  deriving DecidableEq, Repr

/-- The value is checked for what it changes, and the variable is set. -/
def ResolvedAssignment.apply (assignment : ResolvedAssignment) : Eval Unit := do
  if assignment.target = .Verbose then
    checkedText assignment.line "VERBOSE must be a procmail boolean value" assignment.value
      fun value => (parseProcmailBoolean value).isSome
  if assignment.target = .LogAbstract then
    checkedText assignment.line "LOGABSTRACT must be 'no', 'yes', or 'all'" assignment.value
      isLogAbstractMode
  if assignment.target = .Shift then
    checkedText assignment.line "SHIFT must be a positive decimal integer" assignment.value
      fun _ => true
    let amount ← liftExcept (.RuntimeCondition assignment.line) (parseShift assignment.value)
    modify fun runtime =>
      ((runtime.setBytes assignment.name assignment.value).remove "SHIFT").shiftPositionals amount
  else modify fun runtime => runtime.setBytes assignment.name assignment.value

/-- An assignment without commands. -/
def executeAssignment (assignment : CompiledAssignment) : Eval Unit := do
  let runtime ← get
  let value ← liftExcept .Expansion (assignment.resolveWith runtime.get)
  ResolvedAssignment.apply ⟨assignment.name, assignment.target, value, assignment.line⟩

/-- The removal of a variable. -/
def executeUnset (unset : CompiledUnset) : Eval Unit :=
  modify fun runtime => runtime.remove unset.name

/-- Whether the configured host is the one the program runs on. -/
def executeHostAssignment (assignment : CompiledAssignment) : Eval Bool := do
  executeAssignment assignment
  let runtime ← get
  match runtime.systemHostname with
  | none => throw (.RuntimeSettingUnavailable assignment.line "HOST")
  | some current => return (runtime.get "HOST").getD [] == current

/-- The statements where neither commands nor files are at hand. -/
def executeStatements : List CompiledStatement → Eval SequenceControl
  | [] => return .Continue
  | .CommandAssignment assignment :: _ => throw (.ExternalActionUnsupported assignment.line)
  | .Assignment assignment :: rest => do
    executeAssignment assignment
    executeStatements rest
  | .Unset unset :: rest => do
    executeUnset unset
    executeStatements rest
  | .Host assignment :: rest => do
    if ← executeHostAssignment assignment then executeStatements rest else return .EndRcFile
  | .Include expression :: _ => throw (.RuntimeRcLoaderUnavailable expression.line "INCLUDERC")
  | .Switch expression :: _ => throw (.RuntimeRcLoaderUnavailable expression.line "SWITCHRC")

end ProcmailRs
