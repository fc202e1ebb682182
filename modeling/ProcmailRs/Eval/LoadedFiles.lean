import ProcmailRs.Config.Ledger
import ProcmailRs.Eval.RcFile

/-!
# The files of a run

The root file is parsed first, and the loader parses the files that are included or switched to, each
with the variables of the moment. Here the files of a run are put in a row, each with the settings that
are in force where it is included, and the ledger is kept over all of them.
-/

namespace ProcmailRs

open Config Replay

/-! ### Parsing in the loader -/

section Language

variable {R H : Type}

/-- `parse_file_error`. -/
def parseFileError (error : ParseError) : RcFileError :=
  ⟨s!"line {error.line}: {error.message}", error.resourceLimit⟩

/-- The parse of a file, with what it leaves of the budget and its log. -/
def parseFile (words : RcWords R H) (source : Bytes) (budget : ParseBudget) :
    Option (EStateM.Result ParseError ParserState (ParsedConfig R H)) :=
  (utf8Chars? source).map fun text => parseWithState words text ⟨budget, []⟩

/-- A language whose files are read by the rc parser. -/
def parsedBy (words : RcWords R H) (others : RcLanguage (ParsedConfig R H)) :
    RcLanguage (ParsedConfig R H) :=
  { others with
    parseWithState := fun source budget =>
      match parseFile words source budget with
      | some (.ok config state) => .ok (config, state.budget)
      | some (.error error _) => .error (parseFileError error)
      | none => .error (.new "rc file is not valid UTF-8") }

end Language

/-! ### Settings -/

/-- The value of a limit, unless it has not been assigned. -/
def limitInForce (runtime : RuntimeVariables) (name : String) (fallback : Nat) : Nat :=
  ((runtime.get name).bind parseUsize).getD fallback

/-- The settings that the variables stand for. -/
def settingsInForce (runtime : RuntimeVariables) : RcLimits where
  assignments := limitInForce runtime "LIMIT_MAX_ASSIGNMENTS" RcLimits.default.assignments
  statements := limitInForce runtime "LIMIT_RC_STATEMENTS" RcLimits.default.statements
  recipes := limitInForce runtime "LIMIT_RC_RECIPES" RcLimits.default.recipes
  conditions := limitInForce runtime "LIMIT_RC_CONDITIONS" RcLimits.default.conditions
  regexes := limitInForce runtime "LIMIT_RC_REGEXES" RcLimits.default.regexes
  conditionsPerRecipe :=
    limitInForce runtime "LIMIT_RECIPE_CONDITIONS" RcLimits.default.conditionsPerRecipe
  nestingDepth := limitInForce runtime "LIMIT_RECIPE_NESTING" RcLimits.default.nestingDepth
  linebuf := activeLinebuf runtime.get

/-! ### Files -/

/-- A text that has been parsed. `settings` are in force where it is included, `start` is what the parser
was given. The outcome is its statements, or the error the parser stopped for. -/
structure FileParse (R H : Type) where
  settings : RcLimits
  start : ParseBudget
  text : Text
  log : List ParserEvent
  outcome : Except ParseError (List (Statement R H))

section Files

variable {R H : Type}

/-- The parse of a text from this start on. -/
def FileParse.of (words : RcWords R H) (settings : RcLimits) (start : ParseBudget) (text : Text) :
    FileParse R H :=
  match parseWithState words text ⟨start, []⟩ with
  | .ok config state => ⟨settings, start, text, state.log, .ok config.statements⟩
  | .error error state => ⟨settings, start, text, state.log, .error error⟩

/-- The file that a call of the loader parses: there is none when the path is empty, when the file cannot
be read, or when a limit among the variables is malformed. -/
def parseOfCall (words : RcWords R H) (loader : RcFileLoader (ParsedConfig R H))
    (expression : RcFileExpression) (runtime : RuntimeVariables) (depth : Nat) (memory : RcMemory) :
    List (FileParse R H) :=
  match expression.resolveWith runtime.get with
  | .error _ => []
  | .ok path =>
    if path.isEmpty then []
    else
      match loader.load path depth memory with
      | .error _ _ => []
      | .ok source memory =>
        match Config.activateRuntimeLimits runtime memory.parseState with
        | .error _ => []
        | .ok start =>
          match utf8Chars? source.val with
          | none => []
          | some text => [.of words (settingsInForce runtime) start text]

/-- The memory of the loader and the files parsed so far, in every run: the root file, and then any calls
of the loader, whether they succeed or not. -/
inductive LoadedFiles (words : RcWords R H) (loader : RcFileLoader (ParsedConfig R H)) :
    RcMemory → List (FileParse R H) → Prop
  /-- The root file has been parsed and accounted for. -/
  | root (text : Text) (bytesRead statements : Nat) {config : ParsedConfig R H} {state : ParserState}
      (h : parseWithState words text ⟨.default, []⟩ = .ok config state) :
      LoadedFiles words loader (.root bytesRead config.parseCounts statements)
        [.of words .default .default text]
  /-- The loader is called. -/
  | call {memory : RcMemory} {files : List (FileParse R H)} (h : LoadedFiles words loader memory files)
      (expression : RcFileExpression) (runtime : RuntimeVariables) (depth : Nat)
      (preparation : RuntimeRcPreparation) :
      LoadedFiles words loader
        (Outcome.finalState (loader.loadPreparedConfig expression runtime depth preparation memory))
        (files ++ parseOfCall words loader expression runtime depth memory)
  /-- What the statements remember changes nothing for the parser. -/
  | elsewhere {memory memory' : RcMemory} {files : List (FileParse R H)}
      (h : LoadedFiles words loader memory files) (hstate : memory'.parseState = memory.parseState) :
      LoadedFiles words loader memory' files

end Files

/-! ### The ledger of a run -/

section Exact

variable {R H : Type}

/-- A file that could not be parsed is not loaded, and its items do not count. -/
def afterFile (ledger : Ledger) (file : FileParse R H) : Ledger :=
  match file.outcome with
  | .ok _ => replay Ledger.after (ledger.enter file.settings) file.log
  | .error _ => ledger

/-- The limits are exact on a file: it is parsed from the counts reached so far and under the settings
in force. Whatever statements the text has where there is room for them, the parser has gone through their
items and settings in the order of the source; every item is accepted exactly when there is room for it,
and otherwise parsing fails with a resource-limit error. What is accepted are the items of the statements. -/
structure LimitsExact (words : RcWords R H) (ledger : Ledger) (file : FileParse R H) : Prop where
  start : file.start = ⟨ledger.counts, file.settings⟩
  source : ∀ budget config state, budget.limits.linebuf = file.settings.linebuf →
    parseWithState words file.text ⟨budget, []⟩ = .ok config state →
      GoesThrough config.statements file.log file.outcome
  exact : Throughout Ledger.after Ledger.Exact (ledger.enter file.settings) file.log
  refused : ∀ kind, ParserEvent.Item kind false ∈ file.log →
    ∃ error, file.outcome = .error error ∧ error.resourceLimit = true
  accepted : ∀ statements, file.outcome = .ok statements →
    file.log = eventsOf statements ∧
      (afterFile ledger file).counts = ledger.counts.add (itemsOf statements)

/-- The line buffer has its default length where the file is included, and whenever a shell-expanded
condition is met, there is room for one more regular expression. -/
structure WithinReserve (ledger : Ledger) (file : FileParse R H) : Prop where
  linebuf : file.settings.linebuf = defaultLinebuf
  covers : Throughout Ledger.after Ledger.Covers (ledger.enter file.settings) file.log

end Exact

end ProcmailRs
