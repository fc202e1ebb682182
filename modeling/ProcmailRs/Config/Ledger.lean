import ProcmailRs.Lib.Replay
import ProcmailRs.Config.RcParser

/-!
# What the limits mean

A ledger says how many items of each kind have been accepted, in this file and in the files before it,
and which limits are active. An item may be accepted as long as there are fewer of its kind than the
limit allows. The log of the parser is read as a sequence of changes to the ledger. What the log of a
file should be is said by its statements, from the first to the last.
-/

namespace ProcmailRs.Config

open Replay

/-- The items that have been accepted so far, and the limits that are active. -/
structure Ledger where
  counts : RcParseCounts
  /-- The conditions of the recipe that was accepted last. -/
  recipeConditions : Nat
  /-- The blocks of this file that have not ended. -/
  depth : Nat
  limits : RcLimits
  deriving DecidableEq, Repr

namespace Ledger

/-- How many items there are that the limit counts. -/
def count (ledger : Ledger) : RcLimitVariable → Nat
  | .Assignments => ledger.counts.assignments
  | .Statements => ledger.counts.statements
  | .Recipes => ledger.counts.recipes
  | .Conditions => ledger.counts.conditions
  | .Regexes => ledger.counts.regexes
  | .ConditionsPerRecipe => ledger.recipeConditions
  | .NestingDepth => ledger.depth

/-- One more item of the kind. -/
def accept (ledger : Ledger) : RcLimitVariable → Ledger
  | .Assignments => { ledger with counts := ledger.counts.add ⟨1, 0, 0, 0, 0⟩ }
  | .Statements => { ledger with counts := ledger.counts.add ⟨0, 1, 0, 0, 0⟩ }
  | .Recipes => { ledger with counts := ledger.counts.add ⟨0, 0, 1, 0, 0⟩, recipeConditions := 0 }
  | .Conditions => { ledger with counts := ledger.counts.add ⟨0, 0, 0, 1, 0⟩ }
  | .Regexes => { ledger with counts := ledger.counts.add ⟨0, 0, 0, 0, 1⟩ }
  | .ConditionsPerRecipe => { ledger with recipeConditions := ledger.recipeConditions + 1 }
  | .NestingDepth => { ledger with depth := ledger.depth + 1 }

/-- What an event of the log does to the ledger. -/
def after (ledger : Ledger) : ParserEvent → Ledger
  | .Item kind true => ledger.accept kind
  | .Item _ false => ledger
  | .Reserved => ledger.accept .Regexes
  | .EndOfBlock => { ledger with depth := ledger.depth - 1 }
  | .Limit kind value => { ledger with limits := ledger.limits.replace kind value }
  | .Linebuf value => { ledger with limits := { ledger.limits with linebuf := value } }

/-- There is room for one more item of the kind. -/
def HasRoom (ledger : Ledger) (kind : RcLimitVariable) : Prop :=
  ledger.count kind < ledger.limits.get kind

/-- An item that is checked is accepted exactly when there is room for it. -/
def Decides (ledger : Ledger) : ParserEvent → Prop
  | .Item kind accepted => accepted = true ↔ ledger.HasRoom kind
  | _ => True

/-- There is room for what is taken without a check. -/
def Covers (ledger : Ledger) : ParserEvent → Prop
  | .Reserved => ledger.HasRoom .Regexes
  | _ => True

instance (ledger : Ledger) (kind : RcLimitVariable) : Decidable (ledger.HasRoom kind) :=
  inferInstanceAs (Decidable (_ < _))

instance (ledger : Ledger) (event : ParserEvent) : Decidable (ledger.Covers event) :=
  match event with
  | .Reserved => inferInstanceAs (Decidable (ledger.HasRoom .Regexes))
  | .Item _ _ | .EndOfBlock | .Limit _ _ | .Linebuf _ => isTrue trivial

/-- Every item is accepted exactly when there is room for it. A shell-expanded condition is an item, too,
and it has been accepted. -/
def Exact (ledger : Ledger) (event : ParserEvent) : Prop :=
  ledger.Decides event ∧ ledger.Covers event

/-- A file is started, with these limits. -/
def enter (ledger : Ledger) (limits : RcLimits) : Ledger :=
  { ledger with recipeConditions := 0, depth := 0, limits := limits }

/-- Nothing has been accepted yet. -/
def empty : Ledger := ⟨.zero, 0, 0, .default⟩

end Ledger

/-! ### What a file asks of the limits -/

section Source

variable {R H : Type}

/-- Every regular expression is an item, but for a shell-expanded condition there is none yet. -/
def ConditionKind.events : ConditionKind R → List ParserEvent
  | .Regex _ => [.Item .Regexes true]
  | .ShellExpanded _ => [.Reserved]
  | .SmallerThan _ | .LargerThan _ | .Program _ => []
  | .Multipart checks => List.replicate checks.length (.Item .Regexes true)

/-- A condition is an item of its recipe and of the file. -/
def Condition.events (condition : Condition R) : List ParserEvent :=
  .Item .ConditionsPerRecipe true :: .Item .Conditions true :: condition.kind.events

/-- The items of a recipe up to its action. -/
def RecipeHead.events (head : RecipeHead R) : List ParserEvent :=
  .Item .Statements true :: .Item .Recipes true :: head.conditions.flatMap Condition.events

/-- A capture action assigns its variable. -/
def RecipeAction.events : RecipeAction H → List ParserEvent
  | .Capture .. => [.Item .Assignments true]
  | .Deliver .. | .Pipe _ | .Headers _ => []

/-- The limit that an assignment sets. -/
def Assignment.limitSetting (assignment : Assignment) : List ParserEvent :=
  match rcLimitKind assignment.name with
  | some kind => ((parseUsize assignment.value).map (ParserEvent.Limit kind)).toList
  | none => []

/-- The settings that an assignment changes. -/
def Assignment.settings (assignment : Assignment) : List ParserEvent :=
  assignment.limitSetting ++
  if assignment.target = .LineBuf then ((parseUsize assignment.value).map ParserEvent.Linebuf).toList else []

/-- A setting that is unset has its default value again. -/
def Unset.settings (unset : Unset) : List ParserEvent :=
  match rcLimitKind unset.name with
  | some kind => [.Limit kind (RcLimits.default.get kind)]
  | none => if unset.target = .LineBuf then [.Linebuf defaultLinebuf] else []

mutual

/-- The items of a statement in the order of the source, and the settings that it changes. -/
def Statement.events : Statement R H → List ParserEvent
  | .Assignment assignment => .Item .Statements true :: .Item .Assignments true :: assignment.settings
  | .CommandAssignment _ | .Include _ | .Switch _ => [.Item .Statements true, .Item .Assignments true]
  | .Unset unset => .Item .Statements true :: .Item .Assignments true :: unset.settings
  | .Recipe head action => head.events ++ action.events
  | .Block head children => head.events ++ .Item .NestingDepth true :: (eventsOf children ++ [.EndOfBlock])

/-- The items and the settings of a list of statements. -/
def eventsOf : List (Statement R H) → List ParserEvent
  | [] => []
  | statement :: rest => statement.events ++ eventsOf rest

end

/-- The parser has gone through what the statements ask, in their order: to the end, or to an item that it
has refused. -/
inductive GoesThrough (statements : List (Statement R H)) (log : List ParserEvent)
    (outcome : Except ParseError (List (Statement R H))) : Prop
  | parsed (houtcome : outcome = .ok statements) (hlog : log = eventsOf statements)
  | refused (before : List ParserEvent) (kind : RcLimitVariable) (error : ParseError)
      (hnext : before ++ [.Item kind true] <+: eventsOf statements) (hlog : log = before ++ [.Item kind false])
      (houtcome : outcome = .error error)

end Source

end ProcmailRs.Config
