import Mathlib
import ProcmailRs.Config.Value
import ProcmailRs.RuntimeLayers

/-!
# The environment of external commands

Before an external command is started, its environment, its shell and its settings are made from the
variables of the moment. The preparation ends with a value or an error; where the source would panic,
the model says so.
-/

namespace ProcmailRs

open Std Config

/-- Why there is no value. -/
inductive Abort
  | Failed (message : String)
  | Panicked (message : String)
  deriving DecidableEq, Repr

/-- An attempt to start a command. -/
abbrev Attempt := Except Abort

/-- The attempt ends with an error. -/
def fail {α : Type} (message : String) : Attempt α := .error (.Failed message)

/-- `Option::expect`. -/
def expect {α : Type} (message : String) : Option α → Attempt α
  | some value => .ok value
  | none => .error (.Panicked message)

/-- `Result::map_err` with a prefix for the message. -/
def failWith {α : Type} (context : String) : Except String α → Attempt α
  | .ok value => .ok value
  | .error message => fail (context ++ message)

/-- The first byte of a character. -/
def isCharStart (b : UInt8) : Bool := b < 128 || 192 ≤ b

/-- `&text[start..]`. -/
def sliceFrom (text : Bytes) (start : Nat) : Attempt Bytes :=
  if start = text.length ∨ (text[start]?).any isCharStart = true then .ok (text.drop start)
  else .error (.Panicked "byte index is not a char boundary")

/-- The shell where `SHELL` is not set. -/
def defaultShell : Bytes := strBytes "/bin/sh"

/-- The flags where `SHELLFLAGS` is not set. -/
def defaultShellFlags : Bytes := strBytes "-c"

/-- The path where `PATH` is not set. -/
def defaultPath : Bytes := strBytes "/usr/bin:/bin"

/-- How many variables a command may be given. -/
def maxChildEnvironmentVariables : Nat := 512

/-- How many bytes the names and values may have together. -/
def maxChildEnvironmentBytes : Nat := 256 * 1024

/-- How long the name of a variable may be. -/
def maxAssignmentNameLen : Nat := 128

/-- How many seconds a command may run where `TIMEOUT` is not set. -/
def defaultProcessTimeout : Nat := 960

/-- The longest time that `TIMEOUT` may ask for. -/
def maxProcessTimeoutSeconds : Nat := 86400

/-- The variables of a command. -/
abbrev EnvironmentValues := ExtTreeMap String Bytes

/-- What a command is started with. -/
structure ProcessEnvironment where
  values : EnvironmentValues
  positionalArguments : List Bytes

/-- The shell that the operator has approved, if commands may be run at all. -/
structure ShellPolicy where
  approvedPath : Option Bytes

/-- The shell and its flags. -/
structure ShellInvocation where
  path : Bytes
  flags : Bytes

/-! ### Entries -/

/-- An underscore, a letter, or a digit that is not the first. -/
def isEntryByte (index : Nat) (byte : UInt8) : Bool :=
  byte == 95 || ((isAsciiAlphabetic byte || isAsciiDigit byte) && (index > 0 || !isAsciiDigit byte))

/-- A name that a command may be given. -/
def isEntryName (name : String) : Bool :=
  !name.isEmpty && (strBytes name).length ≤ maxAssignmentNameLen &&
    (strBytes name).zipIdx.all fun (byte, index) => isEntryByte index byte

/-- How long the value of a variable may be. -/
def entryLimit (name : String) : Nat :=
  match variablePolicy name with
  | .RcOnly target | .RcOrCommandLine target => target.valueLimit
  | _ => maxAssignmentValueLen

/-- A variable that a command may be given. -/
def validateEntry (name : String) (value : Bytes) : Except String Unit :=
  if !isEntryName name then .error "child environment contains an invalid variable name"
  else if value.contains 0 then .error ("child environment variable " ++ name ++ " contains NUL")
  else if value.length > entryLimit name then
    .error ("child environment variable " ++ name ++ " exceeds the hard limit of " ++
      toString (entryLimit name) ++ " bytes")
  else .ok ()

/-- One round of the loop that adds up the sizes. -/
def addEntrySize (bytes : Nat) (entry : String × Bytes) : Except String Nat :=
  match ((checkedAdd bytes (strBytes entry.1).length).bind fun size =>
      (checkedAdd size entry.2.length).bind fun size => checkedAdd size 2) with
  | none => .error "child environment size overflows"
  | some bytes =>
    if bytes > maxChildEnvironmentBytes then
      .error "child environment exceeds the hard limit of 262144 bytes"
    else .ok bytes

/-- The variables of a command within their number and size. -/
def validateAggregate (values : EnvironmentValues) : Except String Unit :=
  if values.size > maxChildEnvironmentVariables then
    .error "child environment variable count exceeds the hard limit of 512"
  else (values.toList.foldlM addEntrySize 0).map fun _ => ()

namespace ProcessEnvironment

/-- One round of the loop over the variables of the run. -/
def addEntry (values : EnvironmentValues) (entry : String × Bytes) : Except String EnvironmentValues :=
  if isPositionalParameterName entry.1 then .ok values
  else (validateEntry entry.1 entry.2).map fun _ => values.insert entry.1 entry.2

/-- A positional argument; one that is absent is empty. -/
def positionalArgument (runtime : LayeredVariables) (index : Nat) : Except String Bytes :=
  let value := (runtime.getBytes (toString index)).getD []
  if value.contains 0 then .error "positional argument contains NUL" else .ok value

/-- `ProcessEnvironment::from_runtime`: the variables of the run, the defaults, and the arguments. -/
def fromRuntime (runtime : LayeredVariables) : Except String ProcessEnvironment := do
  let own ← runtime.byteValueList.foldlM addEntry (∅ : EnvironmentValues)
  let values := [("SHELL", defaultShell), ("SHELLFLAGS", defaultShellFlags), ("PATH", defaultPath)].foldl
    (fun (values : EnvironmentValues) entry => values.insertIfNew entry.1 entry.2) own
  validateAggregate values
  match parseUsize ((runtime.get "#").getD (strBytes "0")) with
  | none => .error "invalid positional argument count"
  | some count =>
    if count > maxPositionalArguments then
      .error "positional argument count exceeds its hard limit"
    else do
      let arguments ← (List.range' 1 count).mapM (positionalArgument runtime)
      return ⟨values, arguments⟩

/-- The value of a name, when it is text. -/
def get (environment : ProcessEnvironment) (name : String) : Option Bytes :=
  (environment.values[name]?).filter isText

end ProcessEnvironment

/-! ### The shell -/

/-- A component that a shell path may not have. -/
def isForbiddenComponent (component : Bytes) : Bool :=
  component.isEmpty || component == strBytes "." || component == strBytes ".."

/-- A path that may be approved. -/
def validateShellPath (path : Bytes) : Attempt Unit :=
  if path.isEmpty || path.length > maxShellSettingLen || path.contains 0 then
    fail "approved shell must be a non-empty bounded path without NUL"
  else if path.head? ≠ some SLASH ∨ path.getLast? = some SLASH then
    fail "approved shell must be an absolute path without '.' or '..' components"
  else do
    let components ← sliceFrom path 1
    if (components.splitOn SLASH).any isForbiddenComponent then
      fail "approved shell must be an absolute path without '.' or '..' components"
    else return ()

namespace ShellPolicy

/-- `ShellPolicy::approve`. -/
def approve (path : Bytes) : Attempt ShellPolicy := do
  validateShellPath path
  return ⟨some path⟩

/-- The shell of a command, if the operator has approved it. -/
def authorize (policy : ShellPolicy) (environment : ProcessEnvironment) : Attempt ShellInvocation := do
  match policy.approvedPath with
  | none => fail "shell execution is disabled by operator policy"
  | some approved =>
    let configured ← expect "process environment always supplies SHELL" (environment.get "SHELL")
    if configured ≠ approved then fail "configured SHELL does not match the operator-approved shell"
    else do
      let flags ← expect "process environment always supplies SHELLFLAGS" (environment.get "SHELLFLAGS")
      return ⟨configured, flags⟩

end ShellPolicy

/-! ### Preparation -/

/-- How many seconds a command may run. -/
def processTimeout (runtime : LayeredVariables) : Except String Nat :=
  match runtime.get "TIMEOUT" with
  | none => .ok defaultProcessTimeout
  | some value =>
    match parseUsize value with
    | none => .error "TIMEOUT must be an integer from 1 to 86400"
    | some seconds =>
      if 1 ≤ seconds ∧ seconds ≤ maxProcessTimeoutSeconds then .ok seconds
      else .error "TIMEOUT must be an integer from 1 to 86400"

/-- What is needed to start a command. -/
structure PreparedEnvironment where
  environment : ProcessEnvironment
  shellPolicy : ShellPolicy
  timeout : Nat

/-- The environment of a command and its time limit. -/
def prepareEnvironment (runtime : LayeredVariables) (purpose : String) :
    Attempt PreparedEnvironment := do
  let timeout ← failWith "" (processTimeout runtime)
  let environment ← failWith ("cannot build " ++ purpose ++ " environment: ")
    (ProcessEnvironment.fromRuntime runtime)
  match environment.get "SHELL" with
  | none => fail ("bounded " ++ purpose ++ " environment does not contain SHELL")
  | some configuredShell =>
    let shellPolicy ← ShellPolicy.approve configuredShell
    return ⟨environment, shellPolicy, timeout⟩

/-- What the operating system answers: whether a signal has arrived, and what comes of opening a log
file with its permissions. -/
structure Surroundings where
  signal : Except String Unit
  openLog : Bytes → Nat → Except String Unit

/-- The log of the command, when there is one. -/
def commandLog (surroundings : Surroundings) (runtime : LayeredVariables) : Except String Unit :=
  match (runtime.get "LOGFILE").filter fun path => !path.isEmpty with
  | none => .ok ()
  | some path =>
    match RuntimeSettings.umask runtime.flatten with
    | .error _ => .error "UMASK must be an octal integer from 0000 to 0777"
    | .ok mask => surroundings.openLog path (0o600 &&& (0o777 ^^^ mask))

/-- What an external command is for. The output of a capture is bounded by a setting. -/
inductive CommandPurpose
  | Command
  | Capture (line : Nat)
  | Trap
  deriving DecidableEq, Repr

/-- The setting that bounds the output of a capture. -/
def captureLimit (runtime : LayeredVariables) (line : Nat) : Except String Nat :=
  match RuntimeSettings.linebuf runtime.flatten with
  | .ok linebuf => .ok linebuf
  | .error name => .error ("line " ++ toString line ++ ": " ++ name ++ " requires runtime setting support")

/-- The environment of a command whose log can be opened. -/
def prepareCommand (surroundings : Surroundings) (runtime : LayeredVariables) :
    Attempt PreparedEnvironment := do
  let prepared ← prepareEnvironment runtime "external command"
  failWith "cannot open external command log: " (commandLog surroundings runtime)
  return prepared

/-- The preparation for each purpose; `TRAP` goes on without a log. -/
def prepare (surroundings : Surroundings) (runtime : LayeredVariables) :
    CommandPurpose → Attempt PreparedEnvironment
  | .Command => prepareCommand surroundings runtime
  | .Capture line => do
    let _ ← failWith "" (captureLimit runtime line)
    prepareCommand surroundings runtime
  | .Trap => prepareEnvironment runtime "TRAP"

/-- What a command is started with. -/
structure Invocation where
  shell : ShellInvocation
  environment : ProcessEnvironment
  currentDir : Option Bytes
  timeout : Nat

/-- The preparation of a command up to its start. -/
def startCommand (surroundings : Surroundings) (purpose : CommandPurpose) (runtime : LayeredVariables) :
    Attempt Invocation := do
  let prepared ← prepare surroundings runtime purpose
  failWith "" surroundings.signal
  let shell ← prepared.shellPolicy.authorize prepared.environment
  return ⟨shell, prepared.environment,
    (prepared.environment.get "MAILDIR").filter (fun path => !path.isEmpty), prepared.timeout⟩

/-! ### Runs -/

/-- `RuntimeVariables::default`. -/
def LayeredVariables.default (processId : Bytes) : LayeredVariables :=
  let runtime : LayeredVariables :=
    { parent := []
      values := ∅
      systemHostname := none
      processId := processId
      lastCommandStatus := strBytes "0"
      currentRcFile := none }
  (((runtime.insert "LINEBUF" (.Text (decimal defaultLinebuf))).insert "TIMEOUT"
    (.Text (decimal defaultProcessTimeout))).insert "UMASK" (.Text (strBytes "077"))).insert "LOCKEXT"
      (.Text (strBytes ".lock"))

/-- The attempt has panicked. -/
def isPanic {α : Type} : Attempt α → Bool
  | .error (.Panicked _) => true
  | _ => false

/-- The step gives `SHELLFLAGS` no value that is not text. -/
def BranchStep.KeepsFlagsText : BranchStep → Prop
  | .change _ (.set name value) | .change _ (.setBytes name value)
  | .change _ (.setMatchValue name value) => name = "SHELLFLAGS" → isText value = true
  | _ => True

end ProcmailRs
