import Mathlib
import ProcmailRs.Lib.Layers
import ProcmailRs.Runtime

/-!
# Layered runtime variables

How the variables of a run are stored. A fork freezes what was set since the last fork as a layer that
both sides share, and each side goes on with an empty map of its own on top. Nothing changes a shared
layer, so `Arc` pointers to layers are the lists of the layers behind them.
-/

namespace ProcmailRs

open Std

/-- What one branch has set and removed. -/
abbrev RuntimeLayer := ExtTreeMap String RuntimeValue

/-- The variables of a branch: its own layer over those it was forked from. -/
structure LayeredVariables where
  parent : List RuntimeLayer
  values : RuntimeLayer
  systemHostname : Option Bytes
  processId : Bytes
  lastCommandStatus : Bytes
  currentRcFile : Option Bytes

namespace RuntimeValue

/-- What `get` shows of a value. -/
def text? : RuntimeValue → Option ProcmailRs.Bytes
  | .Text value => some value
  | _ => none

/-- What `get_bytes` shows of a value. -/
def bytes? : RuntimeValue → Option ProcmailRs.Bytes
  | .Text value => some value
  | .Bytes value => some value
  | .Removed => none

end RuntimeValue

namespace LayeredVariables

/-- The runtime that goes on, and the fork. -/
def fork (runtime : LayeredVariables) : LayeredVariables × LayeredVariables :=
  let shared := runtime.values :: runtime.parent
  ({ runtime with parent := shared, values := ∅ }, { runtime with parent := shared, values := ∅ })

/-- What has become of a variable: the nearest layer that knows it says so. -/
def find (runtime : LayeredVariables) (name : String) : Option RuntimeValue :=
  match runtime.values[name]? with
  | some value => some value
  | none => Layers.find runtime.parent name

/-- What has become of each variable, in one layer. -/
def visibleValues (runtime : LayeredVariables) : RuntimeLayer :=
  runtime.parent.foldl Layers.addUnder runtime.values

/-- The value of a name with no special meaning. -/
def stored (runtime : LayeredVariables) (read : RuntimeValue → Option Bytes) (name : String) :
    Option Bytes :=
  match runtime.find name with
  | some value => read value
  | none =>
    if name = "#" then some (strBytes "0")
    else if isPositionalParameterName name then some []
    else none

/-- The value of a variable as it is read in two ways: special parameters first, then what was set, then
the system's. -/
def lookup (runtime : LayeredVariables) (read : RuntimeValue → Option Bytes) (name : String) :
    Option Bytes :=
  if name = "$" then some runtime.processId
  else if name = "?" then some runtime.lastCommandStatus
  else if name = "_" then runtime.currentRcFile
  else if name = "-" then runtime.stored read "LASTFOLDER"
  else runtime.stored read name

/-- The value of a variable that is text. -/
def get (runtime : LayeredVariables) : Lookup := runtime.lookup RuntimeValue.text?

/-- The value of a variable, text or not. -/
def getBytes (runtime : LayeredVariables) : Lookup := runtime.lookup RuntimeValue.bytes?

/-- The names and values that `values` lists. -/
def valueList (runtime : LayeredVariables) : List (String × Bytes) :=
  Layers.listing RuntimeValue.text? runtime.visibleValues

/-- The variables that a command is given, with their values. -/
def byteValueList (runtime : LayeredVariables) : List (String × Bytes) :=
  Layers.listing RuntimeValue.bytes? runtime.visibleValues

/-- What has become of one variable, in the branch's own layer. -/
def insert (runtime : LayeredVariables) (name : String) (value : RuntimeValue) : LayeredVariables :=
  { runtime with values := runtime.values.insert name value }

/-- Sets a variable to a text. -/
def set (runtime : LayeredVariables) (name : String) (value : Bytes) : LayeredVariables :=
  runtime.insert name (.Text value)

/-- Sets a variable to bytes, which may be text. -/
def setBytes (runtime : LayeredVariables) (name : String) (value : Bytes) : LayeredVariables :=
  runtime.insert name (if (utf8Chars? value).isSome then .Text value else .Bytes value)

/-- Removes a variable. -/
def remove (runtime : LayeredVariables) (name : String) : LayeredVariables :=
  runtime.insert name .Removed

/-- One round of the loop over the positional parameters. -/
def placePositional (shifted : List Bytes) (runtime : LayeredVariables) (index : Nat) :
    LayeredVariables :=
  match shifted[index - 1]? with
  | some value => runtime.set (toString index) value
  | none => runtime.remove (toString index)

/-- `shift_positionals`: the first arguments go, the others move up, and the names behind the last are
removed. -/
def shiftPositionals (runtime : LayeredVariables) (requested : Nat) : LayeredVariables :=
  let count := ((runtime.get "#").bind parseUsize).getD 0
  let amount := min requested count
  let remaining := count - amount
  let shifted := (List.range' 1 remaining).map fun index =>
    (runtime.get (toString (index + amount))).getD []
  ((List.range' 1 maxPositionalArguments).foldl (placePositional shifted) runtime).set "#"
    (decimal remaining)

/-- The numbered match variables are removed. -/
def clearNumberedMatchValues (runtime : LayeredVariables) : LayeredVariables :=
  let names := runtime.visibleValues.keys.filter RuntimeVariables.isNumberedMatch
  names.foldl remove runtime

/-- All match variables are removed. -/
def clearMatchValues (runtime : LayeredVariables) : LayeredVariables :=
  (runtime.remove "MATCH").clearNumberedMatchValues

/-- Sets a match variable. -/
def setMatchValue (runtime : LayeredVariables) (name : String) (value : Bytes) : LayeredVariables :=
  runtime.insert name (.Text value)

/-- Sets the name of the system. -/
def setSystemHostname (runtime : LayeredVariables) (hostname : Bytes) : LayeredVariables :=
  { runtime with systemHostname := some hostname }

/-- The file that is read now, or none; `$_` is its path. -/
def replaceCurrentRcFile (runtime : LayeredVariables) (path : Option Bytes) : LayeredVariables :=
  { runtime with currentRcFile := path }

/-- Sets the status that `$?` shows. -/
def setLastCommandStatus (runtime : LayeredVariables) (status : UInt8) : LayeredVariables :=
  { runtime with lastCommandStatus := decimal status.toNat }

/-- The layers put together: one map, as if nothing were shared. -/
def flatten (runtime : LayeredVariables) : RuntimeVariables :=
  { values := runtime.find
    systemHostname := runtime.systemHostname
    processId := runtime.processId
    lastCommandStatus := runtime.lastCommandStatus
    currentRcFile := runtime.currentRcFile }

end LayeredVariables

/-! ### Branches of a run -/

/-- A change of the variables. -/
inductive VariableOperation
  | set (name : String) (value : Bytes)
  | setBytes (name : String) (value : Bytes)
  | remove (name : String)
  | shiftPositionals (requested : Nat)
  | setMatchValue (name : String) (value : Bytes)
  | clearMatchValues
  | clearNumberedMatchValues
  | setSystemHostname (hostname : Bytes)
  | replaceCurrentRcFile (path : Option Bytes)
  | setLastCommandStatus (status : UInt8)

/-- A step of a run with branches: a branch is forked, or changes its variables. -/
inductive BranchStep
  | fork (branch : Nat)
  | change (branch : Nat) (operation : VariableOperation)

/-- The change in the branch's own layer. -/
def LayeredVariables.change (runtime : LayeredVariables) : VariableOperation → LayeredVariables
  | .set name value => runtime.set name value
  | .setBytes name value => runtime.setBytes name value
  | .remove name => runtime.remove name
  | .shiftPositionals requested => runtime.shiftPositionals requested
  | .setMatchValue name value => runtime.setMatchValue name value
  | .clearMatchValues => runtime.clearMatchValues
  | .clearNumberedMatchValues => runtime.clearNumberedMatchValues
  | .setSystemHostname hostname => runtime.setSystemHostname hostname
  | .replaceCurrentRcFile path => runtime.replaceCurrentRcFile path
  | .setLastCommandStatus status => runtime.setLastCommandStatus status

/-- The change in a plain map. -/
def RuntimeVariables.change (runtime : RuntimeVariables) : VariableOperation → RuntimeVariables
  | .set name value => runtime.set name value
  | .setBytes name value => runtime.setBytes name value
  | .remove name => runtime.remove name
  | .shiftPositionals requested => runtime.shiftPositionals requested
  | .setMatchValue name value => runtime.setMatchValue name value
  | .clearMatchValues => runtime.clearMatchValues
  | .clearNumberedMatchValues => runtime.clearNumberedMatchValues
  | .setSystemHostname hostname => { runtime with systemHostname := some hostname }
  | .replaceCurrentRcFile path => { runtime with currentRcFile := path }
  | .setLastCommandStatus status => { runtime with lastCommandStatus := decimal status.toNat }

/-- A fork becomes the last branch. A step on a branch that does not exist does nothing. -/
def layeredStep (branches : List LayeredVariables) : BranchStep → List LayeredVariables
  | .fork branch =>
    match branches[branch]? with
    | some runtime => branches.set branch runtime.fork.1 ++ [runtime.fork.2]
    | none => branches
  | .change branch operation => branches.modify branch fun runtime => runtime.change operation

/-- The same over plain maps: a fork copies the whole map, and a change is to one map. -/
def flatStep (branches : List RuntimeVariables) : BranchStep → List RuntimeVariables
  | .fork branch =>
    match branches[branch]? with
    | some runtime => branches ++ [runtime]
    | none => branches
  | .change branch operation => branches.modify branch fun runtime => runtime.change operation

end ProcmailRs
