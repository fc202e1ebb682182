import ProcmailRs.Config.Ordered
import ProcmailRs.Lib.Dialogue

/-!
# What shell expressions are documented to give

The parts of an expression are evaluated from left to right. What an operator selects depends only on
whether its variable is unset, empty or neither; only the selected word is evaluated, a word asks its own
questions, and every part sees what earlier parts have assigned. Values have a length, and words a depth,
beyond which the evaluation stops; without these bounds the script is the reference. Three parts are
marked: a `:=` whose variable has a value, a quoted variable that an earlier part has assigned, and a
command behind an assignment, which can see it only in its environment.
-/

namespace ProcmailRs.Config

/-- What a parameter without a transform stands for. -/
inductive Choice
  | Word
  | Own
  | Empty
  | Missing
  | Required
  deriving DecidableEq, Repr

/-- The table of the operators, by the value of the variable. -/
def documentedChoice : ParameterOperation → Option Bytes → Choice
  | .DefaultIfUnset, none => .Word
  | .DefaultIfUnset, some _ => .Own
  | .DefaultIfUnsetOrEmpty, none | .DefaultIfUnsetOrEmpty, some [] => .Word
  | .DefaultIfUnsetOrEmpty, some _ => .Own
  | .AlternateIfSet, none => .Empty
  | .AlternateIfSet, some _ => .Word
  | .AlternateIfSetAndNotEmpty, none | .AlternateIfSetAndNotEmpty, some [] => .Empty
  | .AlternateIfSetAndNotEmpty, some _ => .Word
  | .AssignIfUnsetOrEmpty, none | .AssignIfUnsetOrEmpty, some [] => .Word
  | .AssignIfUnsetOrEmpty, some _ => .Own
  | .ErrorIfUnsetOrEmpty, none | .ErrorIfUnsetOrEmpty, some [] => .Required
  | .ErrorIfUnsetOrEmpty, some _ => .Own
  | _, none => .Missing
  | _, some _ => .Own

/-- What a script asks the context; a command and a quoted value are told how much room is left. -/
inductive Question
  | Variable (name : String)
  | Command (command : Bytes) (remaining : Nat)
  | RegexQuoted (name : String) (remaining : Nat)

/-- The type of the answer to a question. -/
def Question.Answer : Question → Type
  | .Variable _ => Option VariableValue
  | .Command _ _ | .RegexQuoted _ _ => Bytes

/-- The context's answer to a question. -/
def EvaluationContext.answer {σ ε : Type} (context : EvaluationContext (EStateM ε σ) ε) :
    (question : Question) → EStateM ε σ question.Answer
  | .Variable name => context.variableValue name
  | .Command command remaining => context.command command remaining
  | .RegexQuoted name remaining => context.regexQuoted name remaining

section

variable {ε : Type} {m : Type → Type} (context : EvaluationContext m ε)

/-- The evaluation of a part, of a word or of an expression, as a dialogue with the context. -/
abbrev Script (ε : Type) := Dialogue Question Question.Answer ε Evaluation

/-- The value of a variable: the last one that the expression has assigned, or the answer of the context. -/
def lookUp (assignments : List (String × Bytes)) (name : String) (next : Option VariableValue → Script ε) :
    Script ε :=
  match assignedValue assignments name with
  | some value => next (some value)
  | none => .ask (.Variable name) fun found => next found

/-- The value is added, if it fits. -/
def add (limit : Nat) (value : Bytes) (output : Evaluation) : Script ε :=
  .bound (output.bytes.length + value.length ≤ limit) (.value { output with bytes := output.bytes ++ value })

/-- The depth of what is inserted for a parameter, if it is not too deep. -/
def atDepth (valueDepth nesting : Nat) (usedWord emptyValue : Bool) (next : Nat → Script ε) : Script ε :=
  let depth := match context.depthMode with
    | .None => 0
    | .ExpansionChain => valueDepth + 1
    | .SyntaxNesting => if usedWord then valueDepth else if emptyValue then nesting else nesting + 1
  .bound (depth ≤ maxExpansionDepth) (next depth)

/-- A parameter whose value is transformed, `pattern` being the evaluation of its pattern. -/
def documentedTransform (limit : Nat) (name : String) (operation : ParameterOperation)
    (found : Option VariableValue) (pattern : Script ε) (output : Evaluation) : Script ε :=
  match found with
  | none => .failure (context.missingVariable name)
  | some value =>
    (if operation.hasWord then pattern else .value ⟨[], 0, output.assignments⟩).bind fun pattern =>
      match transformValue operation value.bytes pattern.bytes with
      | .error error => .failure (context.patternError error)
      | .ok selected =>
        add limit selected
          { output with
            depth := max (max output.depth value.depth) pattern.depth
            assignments := pattern.assignments }

/-- A parameter that stands for its word, its own value or nothing. -/
def documentedSelected (limit nesting : Nat) (name : String) (operation : ParameterOperation)
    (found : Option VariableValue) (word : Script ε) (output : Evaluation) : Script ε :=
  match documentedChoice operation (found.map VariableValue.bytes) with
  | .Word =>
    word.bind fun selected =>
      atDepth context selected.depth nesting true false fun depth =>
        add limit selected.bytes
          { output with
            depth := max output.depth depth
            assignments :=
              if operation = .AssignIfUnsetOrEmpty then recordAssignment name selected.bytes selected.assignments
              else selected.assignments }
  | .Own =>
    let value := found.getD ⟨[], 0⟩
    let own := atDepth context value.depth nesting false value.bytes.isEmpty fun depth =>
      add limit value.bytes { output with depth := max output.depth depth }
    if operation = .AssignIfUnsetOrEmpty then .mark own else own
  | .Empty =>
    atDepth context 0 nesting false true fun depth => .value { output with depth := max output.depth depth }
  | .Missing => .failure (context.missingVariable name)
  | .Required => .failure (context.requiredParameter name)

mutual

/-- The script of a part. -/
def documentedPart : ShellPart → Nat → Nat → Evaluation → Script ε
  | .Literal text, limit, _, output => add limit text output
  | .Variable name operation word, limit, nesting, output =>
    lookUp output.assignments name fun found =>
      let word : Script ε := .bound (nesting + 1 ≤ maxExpansionDepth)
        (documentedParts word (limit - output.bytes.length) (nesting + 1)
          ⟨[], initialDepth context (nesting + 1), output.assignments⟩)
      if operation.isValueTransform then documentedTransform context limit name operation found word output
      else documentedSelected context limit nesting name operation found word output
  | .Command command, limit, _, output =>
    let run : Script ε :=
      .ask (.Command command (limit - output.bytes.length)) fun (value : Bytes) => add limit value output
    if output.assignments.isEmpty then run else .mark run
  | .RegexQuotedVariable name, limit, _, output =>
    match assignedValue output.assignments name with
    | some value => .mark (add limit (regexEscaped value.bytes) output)
    | none => .ask (.RegexQuoted name (limit - output.bytes.length)) fun (quoted : Bytes) => add limit quoted output
  | .PatternQuote expression, limit, nesting, output =>
    Dialogue.bind
      (fun value =>
        add limit (quotePatternBytes value.bytes)
          { output with depth := max output.depth value.depth, assignments := value.assignments })
      (.bound (nesting ≤ maxExpansionDepth)
        (documentedParts expression (limit - output.bytes.length) nesting
          ⟨[], initialDepth context nesting, output.assignments⟩))

/-- The script of a list of parts. -/
def documentedParts : ShellExpression → Nat → Nat → Evaluation → Script ε
  | [], _, _, output => .value output
  | part :: parts, limit, nesting, output =>
    (documentedPart part limit nesting output).bind fun output => documentedParts parts limit nesting output

end

/-- The script of an expression. -/
def documented (expression : ShellExpression) (limit : Nat) : Script ε :=
  documentedParts context expression limit 0 ⟨[], initialDepth context 0, []⟩

/-- The errors that belong to a bound: on the depth, and on the length of a value. -/
def isBoundError (error : ε) : Prop :=
  error = context.depthExceeded ∨ ∃ attempted current limit, error = context.lengthError attempted current limit

end

end ProcmailRs.Config
