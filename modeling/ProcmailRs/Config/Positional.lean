import ProcmailRs.Config.Value

/-!
# Positional parameters

The arguments of the command line are kept as variables with decimal names, once among the values that
are known while rc files are prepared, and once among the variables of the run. `SHIFT` moves both.
-/

namespace ProcmailRs.Config

/-- How long an argument may be. -/
def maxPositionalArgumentLen : Nat := 64 * 1024

/-- How long the arguments may be together. -/
def maxPositionalArgumentBytes : Nat := 256 * 1024

/-- The arguments given so far; their size is that of all of them. -/
structure PositionalArguments where
  values : List Bytes
  bytes : Nat
  text : ∀ value ∈ values, isText value = true
  count : values.length ≤ maxPositionalArguments
  short : ∀ value ∈ values, value.length ≤ maxPositionalArgumentLen
  size : bytes = (values.map List.length).sum
  small : bytes ≤ maxPositionalArgumentBytes

namespace PositionalArguments

/-- No arguments. -/
def none : PositionalArguments where
  values := []
  bytes := 0
  text := by simp
  count := by simp
  short := by simp
  size := rfl
  small := by simp

/-- One more argument within the limits. -/
def push (arguments : PositionalArguments) (value : Bytes) (htext : isText value = true) :
    Except String PositionalArguments :=
  if hcount : arguments.values.length = maxPositionalArguments then
    .error "too many -a/--argument values; hard limit is 256"
  else if hshort : value.length > maxPositionalArgumentLen then
    .error "-a/--argument value exceeds the hard limit of 65536 bytes"
  else if hsmall : arguments.bytes + value.length > maxPositionalArgumentBytes then
    .error "positional arguments exceed the aggregate hard limit of 262144 bytes"
  else
    .ok
      { values := arguments.values ++ [value]
        bytes := arguments.bytes + value.length
        text := by simpa [or_imp, forall_and, htext] using arguments.text
        count := by
          have := arguments.count
          simp
          omega
        short := by
          have := arguments.short
          simp only [List.mem_append, List.mem_singleton]
          rintro other (hother | rfl)
          · exact this other hother
          · omega
        size := by simp [arguments.size]
        small := by omega }

end PositionalArguments

/-- A value with the depth it was found at. -/
structure ExpandedValue where
  text : Bytes
  depth : Nat
  deriving DecidableEq, Repr

/-- The values that are known while an rc file is prepared. -/
abbrev KnownVariables := String → Option ExpandedValue

namespace KnownVariables

/-- The value of one variable. -/
def insert (known : KnownVariables) (name : String) (value : ExpandedValue) : KnownVariables :=
  fun other => if other = name then some value else known other

/-- `entry(..).or_insert(..)`. -/
def orInsert (known : KnownVariables) (name : String) (value : ExpandedValue) : KnownVariables :=
  fun other => if other = name ∧ known name = none then some value else known other

end KnownVariables

/-- A name that may be assigned. -/
def validName (name : String) : Bool :=
  match strBytes name with
  | [] => false
  | first :: rest => isNameStart first && rest.all isNameContinue

/-- A variable of the command line, the environment or the system, with its value expanded. -/
structure SuppliedVariable where
  name : String
  value : ExpandedValue
  valid : validName name = true

/-- What `expand_with_arguments` knows, and the variables that the run starts with. -/
def expandWithArguments (supplied : List SuppliedVariable) (arguments : PositionalArguments) :
    KnownVariables × List (String × Bytes) :=
  let known : KnownVariables := supplied.foldl
    (fun known one => known.insert one.name one.value) fun _ => none
  let known := (List.range' 1 maxPositionalArguments).foldl
    (fun known index => KnownVariables.insert known (toString index)
      ⟨(arguments.values[index - 1]?).getD [], 0⟩) known
  let initial := supplied.map fun one => (one.name, one.value.text)
  let given := (List.range' 1 maxPositionalArguments).filterMap fun index =>
    (arguments.values[index - 1]?).map fun value => (toString index, value)
  let count := decimal arguments.values.length
  (known.insert "#" ⟨count, 0⟩,
    initial ++ given ++ if arguments.values.isEmpty then [] else [("#", count)])

/-- The variables with these assignments made in order. -/
def setAll (runtime : RuntimeVariables) (assigned : List (String × Bytes)) : RuntimeVariables :=
  assigned.foldl (fun runtime one => runtime.setBytes one.1 one.2) runtime

/-- The run starts with the assignments of the initial variables. -/
def startRuntime (processId : Bytes) (initial : List (String × Bytes)) : RuntimeVariables :=
  setAll (RuntimeVariables.default processId) initial

/-- Every argument that is absent is empty, and there are none if nobody says otherwise. -/
def populateMissingPositionals (known : KnownVariables) : KnownVariables :=
  ((List.range' 1 maxPositionalArguments).foldl
    (fun known index => KnownVariables.orInsert known (toString index) ⟨[], 0⟩) known).orInsert "#"
      ⟨strBytes "0", 0⟩

/-- What is known in a file that is loaded while a message is processed: the texts of the moment. -/
def knownAtRuntime (runtime : RuntimeVariables) : KnownVariables :=
  populateMissingPositionals fun name =>
    match runtime.values name with
    | some (.Text value) => some ⟨value, 0⟩
    | _ => none

/-- `shift_known_positionals` behind the check of the count. -/
def shiftKnown (known : KnownVariables) (requested : Nat) : KnownVariables :=
  let count := ((known "#").bind fun value => parseUsize value.text).getD 0
  let amount := min requested count
  let remaining := count - amount
  let shifted := (List.range' 1 remaining).map fun index =>
    (known (toString (index + amount))).getD ⟨[], 0⟩
  ((List.range' 1 maxPositionalArguments).foldl
    (fun known index => KnownVariables.insert known (toString index)
      ((shifted[index - 1]?).getD ⟨[], 0⟩)) known).insert "#" ⟨decimal remaining, 0⟩

/-- The effect of an assignment of `SHIFT`. -/
def shiftKnownPositionals (known : KnownVariables) (value : Bytes) (line : Nat) :
    Parsed KnownVariables :=
  match parseShift value with
  | .error message => .error ⟨line, message⟩
  | .ok requested => .ok (shiftKnown known requested)

/-! ### Evaluation -/

/-- `ConfigEvaluation`: only what is known while a file is prepared. -/
def configEvaluation (line : Nat) (known : KnownVariables) :
    EvaluationContext (Except ExpansionError) ExpansionError where
  depthMode := .ExpansionChain
  variableValue name := .ok ((known name).map fun value => ⟨value.text, value.depth⟩)
  command _ _ := .error ⟨line, "expression is not valid in this context"⟩
  regexQuoted _ _ := .error ⟨line, "expression is not valid in this context"⟩
  missingVariable name :=
    match variablePolicy name with
    | .RuntimeOnly => ⟨line, "runtime variable " ++ name ++ " is not available in this context"⟩
    | _ => ⟨line, "variable " ++ name ++ " is not defined"⟩
  requiredParameter name := ⟨line, "parameter " ++ name ++ " is unset or empty"⟩
  patternError := patternErrorAt line
  depthExceeded := depthError line
  lengthError _ _ := lengthErrorAt line

/-- The value of an expression of the file. -/
def evaluateConfigExpression (expression : ShellExpression) (line limit : Nat)
    (known : KnownVariables) : Parsed ExpandedValue := do
  let evaluated ← evaluate (configEvaluation line known) expression limit
  if !evaluated.assignments.isEmpty then
    .error ⟨line, "parameter assignment is not valid in this expression context"⟩
  else if !isText evaluated.bytes then .error ⟨line, "expanded value is not valid UTF-8"⟩
  else return ⟨evaluated.bytes, evaluated.depth⟩

/-- `RuntimeBytesEvaluation`. -/
def runtimeBytesEvaluation (line : Nat) (lookup : Lookup) :
    EvaluationContext (Except ExpansionError) ExpansionError where
  depthMode := .None
  variableValue name := .ok ((lookup name).map fun bytes => ⟨bytes, 0⟩)
  command _ _ := .error ⟨line, "expression is not valid in this context"⟩
  regexQuoted _ _ := .error ⟨line, "expression is not valid in this context"⟩
  missingVariable name := ⟨line, "variable " ++ name ++ " is not defined"⟩
  requiredParameter name := ⟨line, "parameter " ++ name ++ " is unset or empty"⟩
  patternError := patternErrorAt line
  depthExceeded := depthError line
  lengthError _ _ := lengthErrorAt line

/-- `expand_runtime_bytes` behind the parser. -/
def evaluateRuntimeBytes (expression : ShellExpression) (line limit : Nat) (lookup : Lookup) :
    Parsed Bytes := do
  let evaluated ← evaluate (runtimeBytesEvaluation line lookup) expression limit
  if !evaluated.assignments.isEmpty then
    .error ⟨line, "parameter assignment is not valid in this expression context"⟩
  else return evaluated.bytes

/-! ### Runs of shifts -/

/-- The `SHIFT` assignments of a run, one after the other. -/
def runShifts (runtime : RuntimeVariables) (shifts : List Bytes) : Except String RuntimeVariables :=
  shifts.foldlM (fun runtime value => (parseShift value).map runtime.shiftPositionals) runtime

/-- The arguments that are left after the shifts. -/
def remainingArguments (arguments shifts : List Bytes) : List Bytes :=
  arguments.drop ((shifts.map fun value => (parseShift value).toOption.getD 0).sum)

/-- The index that a positional name spells. -/
def positionalIndex (name : String) : Nat := (parseUsize (strBytes name)).getD 0

/-- What a positional parameter should stand for. -/
def windowValue (remaining : List Bytes) (name : String) : Bytes :=
  if name = "#" then decimal remaining.length
  else (remaining[positionalIndex name - 1]?).getD []

/-- Text and positional parameters; these take no operations. -/
def overPositionals : ShellExpression → Bool
  | [] => true
  | .Literal text :: parts => isText text && overPositionals parts
  | .Variable name .Value [] :: parts => isPositionalParameterName name && overPositionals parts
  | _ :: _ => false

/-- The names that an expression reads directly. -/
def positionalNames : ShellExpression → List String
  | [] => []
  | .Variable name _ _ :: parts => name :: positionalNames parts
  | _ :: parts => positionalNames parts

/-- What may be known, after some shifts, where an expression is prepared: in the root file, or in a
file that was loaded at some point and the shifts since then. -/
inductive PreparedAfter (supplied : List SuppliedVariable) (arguments : PositionalArguments)
    (processId : Bytes) (line : Nat) : List Bytes → KnownVariables → Prop
  | root : PreparedAfter supplied arguments processId line [] (expandWithArguments supplied arguments).1
  | loaded (shifts : List Bytes) (runtime : RuntimeVariables)
      (hrun : runShifts (startRuntime processId (expandWithArguments supplied arguments).2) shifts =
        .ok runtime) :
      PreparedAfter supplied arguments processId line shifts (knownAtRuntime runtime)
  | shift (shifts : List Bytes) (known known' : KnownVariables) (value : Bytes)
      (hprepared : PreparedAfter supplied arguments processId line shifts known)
      (hshift : shiftKnownPositionals known value line = .ok known') :
      PreparedAfter supplied arguments processId line (shifts ++ [value]) known'

/-- The positional parameters of an expression stand for what is left of the arguments, in the run and
where the expression is prepared, and so does the expression. -/
structure ConsistentWindow (remaining : List Bytes) (known : KnownVariables)
    (runtime : RuntimeVariables) (expression : ShellExpression) : Prop where
  get : ∀ name ∈ positionalNames expression, runtime.get name = some (windowValue remaining name)
  getBytes : ∀ name ∈ positionalNames expression,
    runtime.getBytes name = some (windowValue remaining name)
  prepared : ∀ name ∈ positionalNames expression,
    (known name).map ExpandedValue.text = some (windowValue remaining name)
  agree : ∀ line limit,
    ((evaluateConfigExpression expression line limit known).toOption.map ExpandedValue.text =
      (evaluateExpression expression line limit runtime.get).toOption) ∧
    ((evaluateConfigExpression expression line limit known).toOption.map ExpandedValue.text =
      (evaluateRuntimeBytes expression line limit runtime.getBytes).toOption)

/-- The spelling of a name that both sides know, of a parameter that both have. -/
def InWindow (remaining shifts : List Bytes) (name : String) : Prop :=
  name = "#" ∨
    name = toString (positionalIndex name) ∧ (shifts = [] ∨ positionalIndex name ≤ remaining.length)

instance (remaining shifts : List Bytes) (name : String) : Decidable (InWindow remaining shifts name) :=
  inferInstanceAs (Decidable (_ ∨ _))

end ProcmailRs.Config
