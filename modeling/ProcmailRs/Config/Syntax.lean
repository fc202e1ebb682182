import ProcmailRs.Config.Destination
import ProcmailRs.Config.ParseBudget

/-!
# Parsed rc files

The statements of an rc file as the parser leaves them, before they are prepared with the variables of
the moment. `R` is the type of the tests that rest on a compiled regular expression, `H` that of the
operations of a headers action.
-/

namespace ProcmailRs.Config

/-! ### Statements -/

/-- An assignment of a text, with what it changes. -/
structure Assignment where
  line : Nat
  name : String
  value : Bytes
  target : AssignmentTarget
  expansion : Option ShellExpression

/-- An assignment whose text has commands in it. -/
structure CommandAssignment where
  line : Nat
  name : String
  source : Bytes
  target : AssignmentTarget
  expression : ShellExpression

/-- The removal of a variable. -/
structure Unset where
  line : Nat
  name : String
  target : AssignmentTarget
  deriving DecidableEq, Repr

/-- The path of `INCLUDERC` and `SWITCHRC`. -/
structure RcFilePath where
  line : Nat
  value : Bytes
  expansion : Option ShellExpression

/-- What a check of a multipart condition looks at. -/
inductive MultipartField
  | MimeType
  | Disposition
  | Filename
  deriving DecidableEq, Repr

/-- The kinds of conditions; `R` is the type of regular expressions. -/
inductive ConditionKind (R : Type)
  | Regex (regex : R)
  | ShellExpanded (source : Bytes)
  | SmallerThan (size : Nat)
  | LargerThan (size : Nat)
  | Program (command : Bytes)
  | Multipart (checks : List (MultipartField × R))

/-- A condition of a recipe. -/
structure Condition (R : Type) where
  line : Nat
  negated : Bool
  kind : ConditionKind R

/-- What a recipe does with the message, unless it is a block. -/
inductive RecipeAction (H : Type)
  | Deliver (kind : DestinationKind) (path : PathExpression)
  | Pipe (command : Bytes)
  | Capture (line : Nat) (name : String) (target : AssignmentTarget) (command : Bytes)
  | Headers (operations : List H)

/-- A recipe without its action. -/
structure RecipeHead (R : Type) where
  line : Nat
  actionLine : Nat
  options : RecipeOptions
  lock : Option Bytes
  conditions : List (Condition R)

/-- A statement of a file; `H` is the type of header operations. -/
inductive Statement (R H : Type)
  | Assignment (assignment : Assignment)
  | CommandAssignment (assignment : CommandAssignment)
  | Unset (unset : Unset)
  | Include (path : RcFilePath)
  | Switch (path : RcFilePath)
  | Recipe (head : RecipeHead R) (action : RecipeAction H)
  | Block (head : RecipeHead R) (children : List (Statement R H))

/-! ### The items of a file -/

namespace RcParseCounts

/-- Nothing has been counted. -/
def zero : RcParseCounts := ⟨0, 0, 0, 0, 0⟩

/-- Two counts together. -/
def add (counts more : RcParseCounts) : RcParseCounts where
  assignments := counts.assignments + more.assignments
  statements := counts.statements + more.statements
  recipes := counts.recipes + more.recipes
  conditions := counts.conditions + more.conditions
  regexes := counts.regexes + more.regexes

/-- The source checks that no count moves backwards. -/
def subtract (counts earlier : RcParseCounts) : RcParseCounts where
  assignments := counts.assignments - earlier.assignments
  statements := counts.statements - earlier.statements
  recipes := counts.recipes - earlier.recipes
  conditions := counts.conditions - earlier.conditions
  regexes := counts.regexes - earlier.regexes

end RcParseCounts

section Items

variable {R H : Type}

/-- The regular expressions of a condition. A shell-expanded condition is expected to become one. -/
def ConditionKind.regexes : ConditionKind R → Nat
  | .Regex _ | .ShellExpanded _ => 1
  | .SmallerThan _ | .LargerThan _ | .Program _ => 0
  | .Multipart checks => checks.length

/-- How many regular expressions the conditions count for. -/
def regexesOf (conditions : List (Condition R)) : Nat :=
  (conditions.map fun condition => condition.kind.regexes).sum

/-- How many assignments the action counts for. -/
def RecipeAction.assignments : RecipeAction H → Nat
  | .Capture .. => 1
  | .Deliver .. | .Pipe _ | .Headers _ => 0

/-- What the head of a recipe counts for. -/
def RecipeHead.items (head : RecipeHead R) : RcParseCounts where
  assignments := 0
  statements := 1
  recipes := 1
  conditions := head.conditions.length
  regexes := regexesOf head.conditions

mutual

/-- What a statement takes of the budget. -/
def Statement.items : Statement R H → RcParseCounts
  | .Assignment _ | .CommandAssignment _ | .Unset _ | .Include _ | .Switch _ => ⟨1, 1, 0, 0, 0⟩
  | .Recipe head action => head.items.add ⟨action.assignments, 0, 0, 0, 0⟩
  | .Block head children => head.items.add (itemsOf children)

/-- What the statements count for, with everything in their blocks. -/
def itemsOf : List (Statement R H) → RcParseCounts
  | [] => .zero
  | statement :: rest => statement.items.add (itemsOf rest)

end

end Items

end ProcmailRs.Config
