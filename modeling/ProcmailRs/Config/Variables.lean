import ProcmailRs.Eval.Tree

/-!
# Variables of the rc files

What an rc file may do with a name: some names are settings, some are set by the program while a
message is processed, and some are not supported at all.
-/

namespace ProcmailRs.Config

/-- Who may set a variable, and what it changes. -/
inductive VariablePolicy
  | RcOnly (target : AssignmentTarget)
  | RcOrCommandLine (target : AssignmentTarget)
  | RuntimeOnly
  | ReadOnly
  | Unsupported
  deriving DecidableEq, Repr

/-- The variables of procmail that mean nothing here. -/
def unsupportedProcmailVariables : List String :=
  ["DEFAULT", "ORGMAIL", "COMSAT", "DELIVERED", "DROPPRIVS", "MSGPREFIX", "NORESRETRY",
    "PROCMAIL_OVERFLOW", "SHELLMETAS", "SUSPEND", "SENDMAIL", "SENDMAILFLAGS", "LIMIT_RC_SIZE"]

/-- The settings that only rc files assign. -/
def rcOnlyTargets : List (String × AssignmentTarget) :=
  [("MAILDIR", .Maildir), ("LOGFILE", .LogFile), ("LOG", .Log), ("LOGDETAIL", .LogDetail),
    ("LOGABSTRACT", .LogAbstract), ("VERBOSE", .Verbose), ("DURABILITY", .Durability),
    ("LOCKMETHOD", .LockMethod), ("LOCKFILE", .LockFile), ("LOCKEXT", .LockExt),
    ("LOCKSLEEP", .LockSleep), ("LOCKTIMEOUT", .LockTimeout), ("LINEBUF", .LineBuf),
    ("TIMEOUT", .ProcessTimeout), ("UMASK", .Umask), ("TRAP", .Trap), ("EXITCODE", .ExitCode),
    ("HOST", .Host), ("SHIFT", .Shift), ("LIMIT_MSG_SIZE", .MessageLimit),
    ("LIMIT_MSG_HEADERS", .MessageLimit), ("LIMIT_MSG_BODY", .MessageLimit),
    ("LIMIT_HEADER_LINE", .MessageLimit), ("LIMIT_HEADER_FIELD", .MessageLimit),
    ("LIMIT_MAX_ASSIGNMENTS", .RcLimit), ("LIMIT_RC_STATEMENTS", .RcLimit),
    ("LIMIT_RC_RECIPES", .RcLimit), ("LIMIT_RC_CONDITIONS", .RcLimit),
    ("LIMIT_RC_REGEXES", .RcLimit), ("LIMIT_RECIPE_CONDITIONS", .RcLimit),
    ("LIMIT_RECIPE_NESTING", .RcLimit)]

/-- The settings that may also be given on the command line. -/
def rcOrCommandLineTargets : List (String × AssignmentTarget) :=
  [("SHELL", .Shell), ("SHELLFLAGS", .ShellFlags), ("PATH", .Path)]

/-- The names that a message gives their values: those of the process, of the last delivery and of
the last match. -/
def isRuntimeOnly (name : String) : Bool :=
  ["$", "?", "_", "-", "LASTFOLDER", "MATCH"].contains name || RuntimeVariables.isNumberedMatch name

/-- The policy of a variable. -/
def variablePolicy (name : String) : VariablePolicy :=
  match rcOnlyTargets.lookup name with
  | some target => .RcOnly target
  | none =>
    match rcOrCommandLineTargets.lookup name with
    | some target => .RcOrCommandLine target
    | none =>
      if name = "PROCMAIL_VERSION" then .ReadOnly
      else if isRuntimeOnly name then .RuntimeOnly
      else if unsupportedProcmailVariables.contains name then .Unsupported
      else .RcOrCommandLine .User

end ProcmailRs.Config
