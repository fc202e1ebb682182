import ProcmailRs.Runtime

/-!
# The budget of the rc parser

The items of all rc files are counted, and each count is bounded. An rc file may change the bounds; the
hard limits stay. The budget is charged before an item is built.
-/

namespace ProcmailRs.Config

/-! ### Limits -/

/-- How long a file may be. -/
def maxRcSize : Nat := 1024 * 1024

/-- The least limit that `LINEBUF` may set. -/
def minLinebuf : Nat := 128

/-- The largest limit that `LINEBUF` may set. -/
def maxLinebuf : Nat := maxRcSize

/-- The kinds of limits that a file may set. -/
inductive RcLimitVariable
  | Assignments
  | Statements
  | Recipes
  | Conditions
  | Regexes
  | ConditionsPerRecipe
  | NestingDepth
  deriving DecidableEq, Repr

/-- The limits of the parser. -/
structure RcLimits where
  assignments : Nat
  statements : Nat
  recipes : Nat
  conditions : Nat
  regexes : Nat
  conditionsPerRecipe : Nat
  nestingDepth : Nat
  linebuf : Nat
  deriving DecidableEq, Repr

namespace RcLimits

/-- The limits where nothing is set. -/
def default : RcLimits where
  assignments := 4096
  statements := 4096
  recipes := 1024
  conditions := 4096
  regexes := 256
  conditionsPerRecipe := 256
  nestingDepth := 64
  linebuf := defaultLinebuf

/-- The largest limit that a file may set. -/
def hardLimit : RcLimitVariable → Nat
  | .Assignments | .Statements | .Conditions => 65536
  | .Recipes => 16384
  | .Regexes => 1024
  | .ConditionsPerRecipe => 4096
  | .NestingDepth => 256

/-- The limit of a kind. -/
def get (limits : RcLimits) : RcLimitVariable → Nat
  | .Assignments => limits.assignments
  | .Statements => limits.statements
  | .Recipes => limits.recipes
  | .Conditions => limits.conditions
  | .Regexes => limits.regexes
  | .ConditionsPerRecipe => limits.conditionsPerRecipe
  | .NestingDepth => limits.nestingDepth

/-- Another limit for a kind. -/
def replace (limits : RcLimits) (kind : RcLimitVariable) (value : Nat) : RcLimits :=
  match kind with
  | .Assignments => { limits with assignments := value }
  | .Statements => { limits with statements := value }
  | .Recipes => { limits with recipes := value }
  | .Conditions => { limits with conditions := value }
  | .Regexes => { limits with regexes := value }
  | .ConditionsPerRecipe => { limits with conditionsPerRecipe := value }
  | .NestingDepth => { limits with nestingDepth := value }

/-- The hard limit is the error of a value beyond it. -/
def set (limits : RcLimits) (kind : RcLimitVariable) (value : Nat) : Except Nat RcLimits :=
  if value > hardLimit kind then .error (hardLimit kind) else .ok (limits.replace kind value)

/-- The default limit for a kind. -/
def reset (limits : RcLimits) (kind : RcLimitVariable) : RcLimits :=
  limits.replace kind (default.get kind)

end RcLimits

/-! ### Counts -/

/-- What has been parsed so far. -/
structure RcParseCounts where
  assignments : Nat
  statements : Nat
  recipes : Nat
  conditions : Nat
  regexes : Nat
  deriving DecidableEq, Repr

/-- What has been parsed so far, and the limits of the moment. -/
structure ParseBudget where
  counts : RcParseCounts
  limits : RcLimits
  deriving DecidableEq, Repr

namespace ParseBudget

/-- Nothing has been parsed. -/
def default : ParseBudget := ⟨⟨0, 0, 0, 0, 0⟩, .default⟩

/-- What the root file leaves of the budget; its limits are set again when they are executed. -/
def reset (counts : RcParseCounts) : ParseBudget := ⟨counts, .default⟩

/-- Other limits, the same counts. -/
def replaceLimits (budget : ParseBudget) (limits : RcLimits) : ParseBudget :=
  { budget with limits := limits }

end ParseBudget

/-! ### Limits while a message is processed -/

/-- Why an rc file could not be loaded. -/
structure RcFileError where
  message : String
  resourceLimit : Bool
  deriving DecidableEq, Repr

/-- An error of the file. -/
def RcFileError.new (message : String) : RcFileError := ⟨message, false⟩

/-- A resource limit. -/
def RcFileError.limit (message : String) : RcFileError := ⟨message, true⟩

/-- The settings that are handed to a file loaded at run time. -/
def runtimeLimits : List (String × RcLimitVariable) :=
  [("LIMIT_MAX_ASSIGNMENTS", .Assignments),
    ("LIMIT_RC_STATEMENTS", .Statements),
    ("LIMIT_RC_RECIPES", .Recipes),
    ("LIMIT_RC_CONDITIONS", .Conditions),
    ("LIMIT_RC_REGEXES", .Regexes),
    ("LIMIT_RECIPE_CONDITIONS", .ConditionsPerRecipe),
    ("LIMIT_RECIPE_NESTING", .NestingDepth)]

/-- One setting, as the assignments that have run left it. -/
def activateRuntimeLimit (runtime : RuntimeVariables) (limits : RcLimits)
    (setting : String × RcLimitVariable) : Except RcFileError RcLimits :=
  match runtime.get setting.1 with
  | none => .ok limits
  | some value =>
    match parseUsize value with
    | none => .error (.new ("runtime " ++ setting.1 ++ " is not an unsigned decimal integer"))
    | some value =>
      (limits.set setting.2 value).mapError fun hardLimit =>
        .limit ("runtime " ++ setting.1 ++ " exceeds the hard limit of " ++ toString hardLimit)

/-- `activate_runtime_limits`: the limits are built again from the assignments that have really run, so
that an assignment behind an include does not change how the included file is parsed. -/
def activateRuntimeLimits (runtime : RuntimeVariables) (budget : ParseBudget) :
    Except RcFileError ParseBudget := do
  let limits ← runtimeLimits.foldlM (activateRuntimeLimit runtime) .default
  return budget.replaceLimits limits

end ProcmailRs.Config
