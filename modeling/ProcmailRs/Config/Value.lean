import ProcmailRs.Config.Destination

/-!
# The values of expressions

What an expression without commands and assignments stands for: a text that fits in the room it is
given, or nothing. Words are evaluated in the room that is left behind the parts before them, one level
deeper.
-/

namespace ProcmailRs.Config

/-- A text that has room. -/
def fitting (room : Nat) (text : Bytes) : Option Bytes :=
  if text.length ≤ room then some text else none

/-- The value that a transform makes of the variable and the value of its pattern. -/
def transformedValue (operation : ParameterOperation) (found : Option Bytes) (room : Nat)
    (word : Option Bytes) : Option Bytes :=
  found.bind fun value =>
    (if operation.hasWord then word else some []).bind fun pattern =>
      (transformValue operation value pattern).toOption.bind (fitting room)

/-- The variable or the value of the word, whichever the operation selects. -/
def selectedValue (operation : ParameterOperation) (found : Option Bytes) (room nesting : Nat)
    (word : Option Bytes) : Option Bytes :=
  if operation = .ErrorIfUnsetOrEmpty ∧ found.all List.isEmpty then none
  else if operation.selectsWord found.isSome (found.any List.isEmpty) then word
  else if operation.usesValueWhenWordIsNotSelected then
    found.bind fun value =>
      if value.isEmpty ∨ nesting < maxExpansionDepth then fitting room value else none
  else some []

/-- The value of a parameter under its operation. -/
def parameterValue (operation : ParameterOperation) (found : Option Bytes) (room nesting : Nat)
    (word : Option Bytes) : Option Bytes :=
  if operation.isValueTransform then transformedValue operation found room word
  else selectedValue operation found room nesting word

mutual

/-- The value of a part, if it has one within the room. -/
def ShellPart.value (lookup : Lookup) : ShellPart → Nat → Nat → Option Bytes
  | .Literal text, room, _ => fitting room text
  | .Variable name operation word, room, nesting =>
    parameterValue operation (lookup name) room nesting
      (if nesting < maxExpansionDepth then expressionValue lookup word room (nesting + 1) else none)
  | .RegexQuotedVariable _, _, _ | .Command _, _, _ => none
  | .PatternQuote expression, room, nesting =>
    (expressionValue lookup expression room nesting).bind fun value =>
      fitting room (quotePatternBytes value)

/-- The value of an expression, if it has one within the room. -/
def expressionValue (lookup : Lookup) : ShellExpression → Nat → Nat → Option Bytes
  | [], _, _ => some []
  | part :: parts, room, nesting =>
    (part.value lookup room nesting).bind fun value =>
      (expressionValue lookup parts (room - value.length) nesting).map (value ++ ·)

end

/-! ### Binding ahead of evaluation

A destination is bound with the variables `e₁` of one moment and resolved with the variables `e₂` of a
later one, which differ in the variables that only a message sets. -/

/-- Rust's check of a string. -/
def isText (bytes : Bytes) : Bool := (utf8Chars? bytes).isSome

/-- The room for a value that is transformed while it is bound. -/
def bindingRoom (lookup : Lookup) : Nat := min (activeLinebuf lookup) maxAssignmentValueLen

mutual

/-- Every variable that binding needs has a value, at every depth it reaches. -/
def ShellPart.bindable (lookup : Lookup) : ShellPart → Nat → Bool
  | .Literal _, _ => true
  | .Variable name operation word, nesting =>
    if operation.isValueTransform then
      (ShellPart.value lookup (.Variable name operation word) (bindingRoom lookup) 0).any isText
    else if variablePolicy name = .RuntimeOnly then
      !operation.hasWord || (nesting < maxExpansionDepth && bindable lookup word (nesting + 1))
    else if operation.selectsWord (lookup name).isSome ((lookup name).any List.isEmpty) then
      nesting < maxExpansionDepth && bindable lookup word (nesting + 1)
    else !operation.usesValueWhenWordIsNotSelected || (lookup name).isSome
  | .RegexQuotedVariable _, _ | .Command _, _ => false
  | .PatternQuote expression, nesting =>
    nesting < maxExpansionDepth && bindable lookup expression (nesting + 1)

/-- Binding does not fail for a value that is missing. -/
def bindable (lookup : Lookup) : ShellExpression → Nat → Bool
  | [], _ => true
  | part :: parts, nesting => part.bindable lookup nesting && bindable lookup parts nesting

end

/-- A transform is evaluated when it is bound, in a room of its own: what this gives is what it would give
where it stands. -/
def transformBindsAlike (e₁ e₂ : Lookup) (part : ShellPart) (room nesting : Nat) : Bool :=
  (part.value e₁ (bindingRoom e₁) 0).bind (fitting room) == part.value e₂ room nesting

mutual

/-- Binding and evaluation agree on a part evaluated at depth `nesting`, whose bound form is evaluated at
depth `depth`. -/
def ShellPart.bindsAlike (e₁ e₂ : Lookup) : ShellPart → Nat → Nat → Nat → Bool
  | .Literal _, _, _, _ | .RegexQuotedVariable _, _, _, _ | .Command _, _, _, _ => true
  | .Variable name operation word, room, nesting, depth =>
    let found := e₂ name
    let inserted := (found.bind (fitting room)).any fun value => !value.isEmpty
    if operation.isValueTransform then transformBindsAlike e₁ e₂ (.Variable name operation word) room nesting
    else if operation.selectsWord found.isSome (found.any List.isEmpty) then
      if variablePolicy name = .RuntimeOnly then
        !(depth < maxExpansionDepth) ||
          (nesting < maxExpansionDepth && bindsAlike e₁ e₂ word room (nesting + 1) (depth + 1))
      else
        -- The word takes the place of the parameter, one level higher.
        nesting < maxExpansionDepth && bindsAlike e₁ e₂ word room (nesting + 1) depth
    else if variablePolicy name = .RuntimeOnly then
      !operation.usesValueWhenWordIsNotSelected || !inserted || nesting < maxExpansionDepth ||
        !(depth < maxExpansionDepth)
    else
      (!operation.usesValueWhenWordIsNotSelected || !inserted || nesting < maxExpansionDepth) &&
        !(operation == .ErrorIfUnsetOrEmpty && found.any List.isEmpty)
  | .PatternQuote expression, room, nesting, depth => bindsAlike e₁ e₂ expression room nesting depth

/-- Binding and evaluation agree on the parts that are reached. -/
def bindsAlike (e₁ e₂ : Lookup) : ShellExpression → Nat → Nat → Nat → Bool
  | [], _, _, _ => true
  | part :: parts, room, nesting, depth =>
    part.bindsAlike e₁ e₂ room nesting depth &&
      match part.value e₂ room nesting with
      | none => true
      | some value => bindsAlike e₁ e₂ parts (room - value.length) nesting depth

end

namespace Destination

/-- The room for the path of a destination. -/
def pathRoom (lookup : Lookup) : Nat := min (activeLinebuf lookup) maxPathExpressionLen

/-- The expression gives a text, and this makes a path that the destination may have. -/
def hasPath (destination : Destination) (lookup : Lookup) (expression : ShellExpression) : Bool :=
  ((expressionValue lookup expression (pathRoom lookup) 0).filter isText).any fun source =>
    ((destination.resolver (destination.expression.directory (lookup "MAILDIR"))).resolve source).isOk

/-- Binding gets through and agrees with evaluation on all that is reached, or it stops where there is no path. -/
def bindsAlike (destination : Destination) (e₁ e₂ : Lookup) (expression : ShellExpression) : Bool :=
  if bindable e₁ expression 0 then Config.bindsAlike e₁ e₂ expression (pathRoom e₂) 0 0
  else !destination.hasPath e₂ expression

end Destination

end ProcmailRs.Config
