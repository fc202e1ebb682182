import ProcmailRs.Eval.RcFile

/-!
# The static check of rc files

Without a message the statements are gone through in order, with the variables as far as they are known.
Files with a known path are loaded and checked, a path that depends on a message is a warning.
-/

namespace ProcmailRs

open Config (RcFileError)

/-- How many warnings are kept. -/
def maxRcCheckWarnings : Nat := 128

/-- What the check warns of. -/
inductive RcCheckWarning
  | DynamicPath (depth line : Nat) (statement : RuntimeRcStatement)
  | CompatibilityFlag (path : Bytes) (line : Nat) (flag : Char)
  deriving DecidableEq, Repr

/-- The warnings that are kept, and how many are not. -/
structure RcCheckWarnings where
  messages : List RcCheckWarning
  omitted : Nat
  deriving DecidableEq, Repr

/-- One more warning. -/
def RcCheckWarnings.push (warnings : RcCheckWarnings) (message : RcCheckWarning) :
    RcCheckWarnings :=
  if warnings.messages.length < maxRcCheckWarnings then
    { warnings with messages := warnings.messages ++ [message] }
  else { warnings with omitted := warnings.omitted + 1 }

/-- What has been loaded, the variables as far as they are known, and the warnings. -/
structure RcCheckState where
  memory : RcMemory
  runtime : RuntimeVariables
  warnings : RcCheckWarnings

/-- A part of the check. -/
abbrev RcCheck (α : Type) := EStateM RcFileError RcCheckState α

namespace RcCheck

/-- Adds a warning. -/
def warn (message : RcCheckWarning) : RcCheck Unit :=
  modify fun state => { state with warnings := state.warnings.push message }

/-- Changes the variables. -/
def changeVariables (change : RuntimeVariables → RuntimeVariables) : RcCheck Unit :=
  modify fun state => { state with runtime := change state.runtime }

/-- A computation of the loader. -/
def onLoader {α : Type} (m : EStateM RcFileError RcMemory α) : RcCheck α := fun state =>
  match m state.memory with
  | .ok value memory => .ok value { state with memory := memory }
  | .error error memory => .error error { state with memory := memory }

/-- The variables are those from before when `body` has ended. -/
def withPrivateVariables (body : RcCheck Unit) : RcCheck Unit := fun state =>
  match body state with
  | .ok value after => .ok value { after with runtime := state.runtime }
  | .error error after => .error error { after with runtime := state.runtime }

end RcCheck

section Statements

open RcCheck

variable {C : Type} (loader : RcFileLoader C)
-- The check of a file that is loaded at this depth.
variable (child : Nat → List CheckedStatement → RcCheck Unit) (depth : Nat)

/-- A file that has been loaded. What is assigned in a file that is switched to does not reach the
statements behind the switch, and neither does the check. -/
def checkLoaded (statement : RuntimeRcStatement) (loaded : LoadedRcConfig C (depth + 1)) :
    RcCheck Bool := do
  (loader.language.compatibilityWarnings loaded.config).forM fun (line, flag) =>
    warn (.CompatibilityFlag loaded.path line flag)
  match statement with
  | .Include =>
    child (depth + 1) (loader.language.statements loaded.config)
    return true
  | .Switch =>
    withPrivateVariables (child (depth + 1) (loader.language.statements loaded.config))
    return false

/-- `true` goes on with the next statement. -/
def checkFile (statement : RuntimeRcStatement) (expression : RcFileExpression) : RcCheck Bool := do
  match expression.resolveWith (← get).runtime.get with
  | .error _ =>
    warn (.DynamicPath depth expression.line statement)
    return true
  | .ok path =>
    if statement = .Switch ∧ path = devNull then return false
    else
      match ← onLoader
          (loader.loadPreparedConfig expression (← get).runtime (depth + 1) .Check) with
      | none => return true
      | some loaded => checkLoaded loader child depth statement loaded

/-- A value that is not known is removed. -/
def checkAssignment (name : String) (resolveWith : Lookup → Except ExpansionError Bytes) :
    RcCheck Unit :=
  changeVariables fun runtime =>
    match resolveWith runtime.get with
    | .ok value => runtime.set name value
    | .error _ => runtime.remove name

mutual

/-- A statement; `true` goes on behind it. -/
def checkStatement : CheckedStatement → RcCheck Bool
  | .CommandAssignment name => do
    changeVariables fun runtime => runtime.remove name
    return true
  | .Assignment name resolveWith => do
    checkAssignment name resolveWith
    return true
  | .Unset name => do
    changeVariables fun runtime => runtime.remove name
    return true
  | .Include expression => checkFile loader child depth .Include expression
  | .Switch expression => checkFile loader child depth .Switch expression
  | .Recipe => return true
  -- A block may not be selected: what it assigns does not reach the statements behind it.
  | .Block children => do
    withPrivateVariables (checkStatements children)
    return true

/-- The statements in order, until one of them ends the file. -/
def checkStatements : List CheckedStatement → RcCheck Unit
  | [] => return ()
  | statement :: rest => do
    if ← checkStatement statement then checkStatements rest

end

end Statements

variable {C : Type}

/-- `check_statements` with so many levels of loaded files below it. With levels for every depth that is
allowed no check ends for want of one. -/
def checkStatementsWithin (loader : RcFileLoader C) :
    Nat → Nat → List CheckedStatement → RcCheck Unit
  | 0, _, _ => throw (.new "no level is left for a loaded file")
  | levels + 1, depth, statements =>
    checkStatements loader (checkStatementsWithin loader levels) depth statements

/-- `check_resolvable_files`: the warnings, with what has been loaded. -/
def checkResolvableFiles (loader : RcFileLoader C) (config : C) (runtime : RuntimeVariables)
    (memory : RcMemory) : EStateM.Result RcFileError RcCheckState Unit :=
  checkStatementsWithin loader (maxRcIncludeDepth + 1) 0 (loader.language.statements config)
    ⟨memory, runtime, ⟨[], 0⟩⟩

end ProcmailRs
