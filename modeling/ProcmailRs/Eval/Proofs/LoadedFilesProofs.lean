import ProcmailRs.Lib.Refinement
import ProcmailRs.Lib.Lockstep
import ProcmailRs.Config.Proofs.RcSourceProofs
import ProcmailRs.Eval.LoadedFiles

/-!
# The limits over all files

The loader hands the counts reached so far to the parser, and the limits that the variables stand for,
but not the line buffer. On every file the limits are exact if and only if the line buffer has its
default length and no shell-expanded condition is met without room for it.
-/

namespace ProcmailRs

open Config Outcome Replay

/-! ### Settings -/

namespace Config

theorem activateRuntimeLimit_ok {runtime : RuntimeVariables} {limits limits' : RcLimits}
    {setting : String × RcLimitVariable}
    (h : activateRuntimeLimit runtime limits setting = .ok limits') :
    limits' = limits.replace setting.2
      (limitInForce runtime setting.1 (limits.get setting.2)) := by
  unfold activateRuntimeLimit at h
  unfold limitInForce
  cases hvalue : runtime.get setting.1 with
  | none =>
    rw [hvalue] at h
    cases h
    cases setting with
    | mk name kind => cases kind <;> rfl
  | some value =>
    rw [hvalue] at h
    cases hparse : parseUsize value with
    | none => simp [hparse] at h
    | some number =>
      simp only [hparse, RcLimits.set] at h
      split_ifs at h
      · exact nomatch h
      · cases h
        simp [hparse]

theorem activateRuntimeLimits_ok {runtime : RuntimeVariables} {budget start : ParseBudget}
    (h : Config.activateRuntimeLimits runtime budget = .ok start) :
    start = ⟨budget.counts, { settingsInForce runtime with linebuf := defaultLinebuf }⟩ := by
  unfold Config.activateRuntimeLimits at h
  obtain ⟨limits, hfold, h⟩ := bind_eq_ok h
  cases h
  simp only [runtimeLimits, List.foldlM_cons, List.foldlM_nil] at hfold
  obtain ⟨limits₁, h₁, hfold⟩ := bind_eq_ok hfold
  obtain ⟨limits₂, h₂, hfold⟩ := bind_eq_ok hfold
  obtain ⟨limits₃, h₃, hfold⟩ := bind_eq_ok hfold
  obtain ⟨limits₄, h₄, hfold⟩ := bind_eq_ok hfold
  obtain ⟨limits₅, h₅, hfold⟩ := bind_eq_ok hfold
  obtain ⟨limits₆, h₆, hfold⟩ := bind_eq_ok hfold
  obtain ⟨limits₇, h₇, hfold⟩ := bind_eq_ok hfold
  cases hfold
  rw [activateRuntimeLimit_ok h₇, activateRuntimeLimit_ok h₆, activateRuntimeLimit_ok h₅,
    activateRuntimeLimit_ok h₄, activateRuntimeLimit_ok h₃, activateRuntimeLimit_ok h₂,
    activateRuntimeLimit_ok h₁]
  rfl

end Config

/-! ### One file -/

section Files

variable {R H : Type} (words : RcWords R H)

/-- What the parser does with the budget that it is given. The ledger starts with the limits of the
budget here. -/
structure Parsed (ledger : Ledger) (file : FileParse R H) : Prop where
  counts : file.start.counts = ledger.counts
  limits : file.start.limits = { file.settings with linebuf := defaultLinebuf }
  source : ∀ budget config state, budget.limits.linebuf = file.start.limits.linebuf →
    parseWithState words file.text ⟨budget, []⟩ = .ok config state →
      GoesThrough config.statements file.log file.outcome
  decides : Throughout Ledger.after Ledger.Decides (ledger.enter file.start.limits) file.log
  refused : ∀ kind, ParserEvent.Item kind false ∈ file.log →
    ∃ error, file.outcome = .error error ∧ error.resourceLimit = true
  accepted : ∀ statements, file.outcome = .ok statements →
    file.log = eventsOf statements ∧
      (replay Ledger.after (ledger.enter file.start.limits) file.log).counts =
        ledger.counts.add (itemsOf statements)

variable {words}

/-- The parse of a text, with the log of its run. -/
theorem goesThrough_of {settings : RcLimits} {start budget : ParseBudget} {text : Text}
    (hline : budget.limits.linebuf = start.limits.linebuf) {config : ParsedConfig R H} {state : ParserState}
    (h : parseWithState words text ⟨budget, []⟩ = .ok config state) :
    GoesThrough config.statements (FileParse.of words settings start text).log
      (FileParse.of words settings start text).outcome := by
  unfold FileParse.of
  rcases parseWithState_shadows text hline.symm h with
    ⟨other, after, hrun, hstatements, hlog⟩ | ⟨before, kind, error, after, hnext, hrun, hlog⟩
  · rw [hrun]
    exact .parsed (congrArg Except.ok hstatements) hlog
  · rw [hrun]
    exact .refused before kind error hnext hlog rfl

theorem parsed_of {ledger : Ledger} {start : ParseBudget} {settings : RcLimits} (text : Text)
    (hcounts : start.counts = ledger.counts) (hlimits : start.limits = { settings with linebuf := defaultLinebuf }) :
    Parsed words ledger (.of words settings start text) := by
  have hsettled : Config.Settled 0 start (ledger.enter start.limits) := ⟨hcounts.symm, rfl, rfl⟩
  have hends := ends_parseWithState words text hsettled
  have hsource (budget : ParseBudget) (config : ParsedConfig R H) (state : ParserState)
      (hline : budget.limits.linebuf = start.limits.linebuf)
      (h : parseWithState words text ⟨budget, []⟩ = .ok config state) :
      GoesThrough config.statements (FileParse.of words settings start text).log
        (FileParse.of words settings start text).outcome := goesThrough_of hline h
  unfold Ends at hends
  unfold FileParse.of at hsource ⊢
  cases hrun : parseWithState words text ⟨start, []⟩ with
  | error error state =>
    rw [hrun] at hends hsource
    refine ⟨hcounts, hlimits, hsource, hends.decides, ?_, by rintro statements ⟨⟩⟩
    exact fun kind hmem => ⟨error, rfl, hends.refused kind hmem⟩
  | ok config state =>
    have hself := hsource start config state rfl hrun
    rw [hrun] at hends hsource hself
    obtain ⟨ledger', htracks, hread⟩ := hends
    refine ⟨hcounts, hlimits, hsource, htracks.decides, ?_, ?_⟩
    · exact fun kind hmem => absurd hmem (htracks.accepts kind)
    · rintro statements ⟨⟩
      refine ⟨?_, ?_⟩
      · cases hself with
        | parsed _ hlog => exact hlog
        | refused _ _ _ _ _ houtcome => cases houtcome
      · show (replay Ledger.after (ledger.enter start.limits) state.log).counts = _
        rw [htracks.reached, hread.statements.2.counts, hread.statements.1, hcounts]

theorem enter_of_linebuf {ledger : Ledger} {file : FileParse R H} (h : Parsed words ledger file)
    (hlinebuf : file.settings.linebuf = defaultLinebuf) :
    ledger.enter file.start.limits = ledger.enter file.settings := by
  rw [h.limits, ← hlinebuf]

theorem Parsed.exact_iff {ledger : Ledger} {file : FileParse R H} (h : Parsed words ledger file) :
    LimitsExact words ledger file ↔ WithinReserve ledger file := by
  constructor
  · intro hexact
    have hlimits : file.start.limits = file.settings := congrArg ParseBudget.limits hexact.start
    refine ⟨?_, hexact.exact.mono fun _ _ hevent => hevent.2⟩
    rw [← hlimits, h.limits]
  · intro hreserve
    have henter := enter_of_linebuf h hreserve.linebuf
    have hlimits : file.start.limits = file.settings := by
      rw [h.limits, ← hreserve.linebuf]
    refine ⟨?_, ?_, ?_, h.refused, ?_⟩
    · rw [← h.counts, ← hlimits]
    · rw [← hlimits]
      exact h.source
    · rw [← henter]
      exact throughout_and.mpr ⟨h.decides, by rw [henter]; exact hreserve.covers⟩
    · intro statements houtcome
      obtain ⟨hlog, hcounts⟩ := h.accepted statements houtcome
      refine ⟨hlog, ?_⟩
      rw [afterFile, houtcome]
      show (replay Ledger.after (ledger.enter file.settings) file.log).counts = _
      rw [← henter]
      exact hcounts

/-! ### All files -/

/-- The counts of a ledger do not depend on its limits. -/
theorem counts_replay_congr (log : List ParserEvent) : ∀ {ledger ledger' : Ledger},
    ledger.counts = ledger'.counts →
    (replay Ledger.after ledger log).counts = (replay Ledger.after ledger' log).counts := by
  induction log with
  | nil => exact id
  | cons event log ih =>
    intro ledger ledger' h
    refine ih ?_
    cases event with
    | Item kind accepted =>
      cases accepted with
      | false => exact h
      | true => cases kind <;> simp [Ledger.after, Ledger.accept, h]
    | Reserved => simp [Ledger.after, Ledger.accept, h]
    | EndOfBlock => exact h
    | Limit kind value => exact h
    | Linebuf value => exact h

theorem Parsed.counts_afterFile {ledger : Ledger} {file : FileParse R H} (h : Parsed words ledger file)
    {statements : List (Statement R H)} (houtcome : file.outcome = .ok statements) :
    (afterFile ledger file).counts = ledger.counts.add (itemsOf statements) := by
  rw [← (h.accepted statements houtcome).2, afterFile, houtcome]
  exact counts_replay_congr file.log rfl

/-- The books of the loader: every file is parsed from the counts reached so far, and the loader knows
the counts that all of them have reached. -/
structure Accounted (words : RcWords R H) (files : List (FileParse R H)) (counts : RcParseCounts) : Prop where
  parsed : Throughout afterFile (Parsed words) .empty files
  counts : counts = (replay afterFile .empty files).counts

theorem Accounted.append {files : List (FileParse R H)} {counts counts' : RcParseCounts} {file : FileParse R H}
    (h : Accounted words files counts) (hfile : Parsed words (replay afterFile .empty files) file)
    (hcounts : counts' = (afterFile (replay afterFile .empty files) file).counts) :
    Accounted words (files ++ [file]) counts' where
  parsed := throughout_append.mpr ⟨h.parsed, throughout_singleton.mpr hfile⟩
  counts := by
    rw [hcounts, replay_append]
    rfl

theorem counts_parseWithState {start : ParseBudget} {text : Text} {config : ParsedConfig R H}
    {state : ParserState} (h : parseWithState words text ⟨start, []⟩ = .ok config state) :
    state.budget.counts = start.counts.add (itemsOf config.statements) ∧
      config.parseCounts = itemsOf config.statements := by
  have hsettled : Config.Settled 0 start ⟨start.counts, 0, 0, start.limits⟩ := ⟨rfl, rfl, rfl⟩
  have hends := ends_parseWithState words text hsettled
  rw [Ends, h] at hends
  obtain ⟨ledger', -, hread⟩ := hends
  exact ⟨hread.statements.1, hread.parseCounts⟩

/-! ### Calls of the loader -/

variable (loader : RcFileLoader (ParsedConfig R H))

/-- Opening and reading a file leaves the budget alone. -/
theorem keeps_parseState_load (path : Bytes) (depth : Nat) :
    Keeps (fun memory memory' : RcMemory => memory'.parseState = memory.parseState)
      (loader.load path depth) := by
  intro memory
  unfold Ends RcFileLoader.load
  split_ifs
  · rfl
  · rfl
  · rfl
  · cases loader.files path with
    | error message => rfl
    | ok contents =>
      dsimp only
      cases readBounded contents maxRcSize (maxRcAggregateSize - memory.bytesRead) with
      | error error => rfl
      | ok source =>
        dsimp only
        split_ifs <;> rfl

variable {others : RcLanguage (ParsedConfig R H)} {memory : RcMemory} {files : List (FileParse R H)}

/-- A part of a call that does not touch the budget. -/
abbrev KeepsBudget {α : Type} (m : EStateM RcFileError RcMemory α) : Prop :=
  Keeps (fun memory memory' : RcMemory => memory'.parseState = memory.parseState) m

theorem KeepsBudget.finalState {α : Type} {m : EStateM RcFileError RcMemory α} (h : KeepsBudget m)
    (memory : RcMemory) : (finalState (m memory)).parseState = memory.parseState :=
  (h memory).finalState (P := fun memory' : RcMemory => memory'.parseState = memory.parseState)

theorem composable_budget :
    Composable (fun memory memory' : RcMemory => memory'.parseState = memory.parseState) where
  refl _ := rfl
  trans h h' := h'.trans h

theorem keepsBudget_liftExcept {ε α : Type} (wrap : ε → RcFileError) (result : Except ε α) :
    KeepsBudget (liftExcept wrap result) := by
  cases result with
  | ok value => exact .pure composable_budget value
  | error error => exact .throw composable_budget _

/-- The books after the text of a file has been parsed with the limits of the moment. `f` is what is done
with the parsed file. -/
theorem accounted_parse (hlanguage : loader.language = parsedBy words others)
    (runtime : RuntimeVariables) (source : Bytes) {start : ParseBudget}
    (hstart : Config.activateRuntimeLimits runtime memory.parseState = .ok start)
    (h : Accounted words files memory.parseState.counts) {α : Type}
    (f : ParsedConfig R H → EStateM RcFileError RcMemory α) (hf : ∀ config, KeepsBudget (f config)) :
    Accounted words
      (files ++
        match utf8Chars? source with
        | none => []
        | some text => [.of words (settingsInForce runtime) start text])
      (finalState ((loader.parse source >>= f)
        { memory with parseState := start })).parseState.counts := by
  have hstart := activateRuntimeLimits_ok hstart
  have hcounts : start.counts = memory.parseState.counts := by rw [hstart]
  have hlimits : start.limits = { settingsInForce runtime with linebuf := defaultLinebuf } := by
    rw [hstart]
  have hnone : Accounted words files start.counts := by rwa [hcounts]
  cases htext : utf8Chars? source with
  | none =>
    have hfile : parseFile words source start = none := by rw [parseFile, htext, Option.map_none]
    have hrun : (loader.parse source >>= f) { memory with parseState := start } =
        .error (.new "rc file is not valid UTF-8") { memory with parseState := start } := by
      simp only [Bind.bind, EStateM.bind, RcFileLoader.parse, hlanguage, parsedBy, hfile]
    rw [hrun, List.append_nil]
    exact hnone
  | some text =>
    have hfile : parseFile words source start = some (parseWithState words text ⟨start, []⟩) := by
      rw [parseFile, htext, Option.map_some]
    have hparsed : Parsed words (replay afterFile .empty files) (.of words (settingsInForce runtime) start text) :=
      parsed_of text (hcounts.trans h.counts) hlimits
    cases hresult : parseWithState words text ⟨start, []⟩ with
    | error error state =>
      have houtcome : FileParse.of words (settingsInForce runtime) start text =
          ⟨settingsInForce runtime, start, text, state.log, .error error⟩ := by
        rw [FileParse.of, hresult]
      have hrun : (loader.parse source >>= f) { memory with parseState := start } =
          .error (parseFileError error) { memory with parseState := start } := by
        simp only [Bind.bind, EStateM.bind, RcFileLoader.parse, hlanguage, parsedBy, hfile, hresult]
      rw [hrun]
      refine h.append hparsed (hcounts.trans (h.counts.trans ?_))
      rw [afterFile, houtcome]
    | ok config state =>
      have houtcome : (FileParse.of words (settingsInForce runtime) start text).outcome = .ok config.statements := by
        rw [FileParse.of, hresult]
      have hrun : (loader.parse source >>= f) { memory with parseState := start } =
          f config { memory with parseState := state.budget } := by
        simp only [Bind.bind, EStateM.bind, RcFileLoader.parse, hlanguage, parsedBy, hfile, hresult]
      rw [hrun, (hf config).finalState]
      refine h.append hparsed ?_
      rw [hparsed.counts_afterFile houtcome, (counts_parseWithState hresult).1, hcounts, h.counts]

/-- What a call of the loader does to the books. -/
theorem accounted_loadPreparedConfig (hlanguage : loader.language = parsedBy words others)
    (expression : RcFileExpression) (runtime : RuntimeVariables) (depth : Nat)
    (preparation : RuntimeRcPreparation) (h : Accounted words files memory.parseState.counts) :
    Accounted words (files ++ parseOfCall words loader expression runtime depth memory)
      (finalState (loader.loadPreparedConfig expression runtime depth preparation
        memory)).parseState.counts := by
  unfold RcFileLoader.loadPreparedConfig parseOfCall
  cases hpath : expression.resolveWith runtime.get with
  | error error =>
    rw [List.append_nil]
    exact h
  | ok path =>
    simp only [liftExcept, pure_bind]
    by_cases hempty : path.isEmpty = true
    · simp only [hempty, if_true, List.append_nil]
      exact h
    have hload := keeps_parseState_load loader path depth memory
    simp only [hempty, Bool.false_eq_true, if_false]
    rw [Lockstep.bind_apply]
    cases hrun : loader.load path depth memory with
    | error error memory' =>
      rw [Ends, hrun] at hload
      rw [List.append_nil]
      show Accounted words files memory'.parseState.counts
      rwa [hload]
    | ok source memory' =>
      rw [Ends, hrun] at hload
      have hbooks : Accounted words files memory'.parseState.counts := by rwa [hload]
      simp only [Lockstep.andThen]
      rw [Lockstep.bind_apply]
      cases hactivate : Config.activateRuntimeLimits runtime memory'.parseState with
      | error error =>
        simp only [RcFileLoader.activateRuntimeLimits, hactivate, Lockstep.andThen, List.append_nil]
        exact hbooks
      | ok start =>
        simp only [RcFileLoader.activateRuntimeLimits, hactivate, Lockstep.andThen]
        refine accounted_parse loader hlanguage runtime source.val hactivate hbooks _
          fun config => ?_
        refine .bind composable_budget (keepsBudget_liftExcept _ _) fun _ => ?_
        refine .bind composable_budget (keepsBudget_liftExcept _ _) fun _ => ?_
        exact .pure composable_budget _

/-- The root file is parsed with the whole budget. -/
theorem parsed_root (text : Text) :
    Parsed words .empty (.of words .default .default text) :=
  parsed_of text rfl rfl

theorem accounted_loadedFiles (hlanguage : loader.language = parsedBy words others)
    (h : LoadedFiles words loader memory files) : Accounted words files memory.parseState.counts := by
  induction h with
  | @root text bytesRead statements config state h =>
    have hparsed := @parsed_root R H words text
    obtain ⟨-, hcounts⟩ := counts_parseWithState h
    have houtcome : (FileParse.of words .default .default text).outcome = .ok config.statements := by
      rw [FileParse.of, h]
    refine ⟨throughout_singleton.mpr hparsed, ?_⟩
    rw [replay_cons, replay_nil, hparsed.counts_afterFile houtcome]
    show _ = RcParseCounts.zero.add _
    rw [← hcounts, RcParseCounts.zero_add]
    rfl
  | call h expression runtime depth preparation ih =>
    exact accounted_loadPreparedConfig loader hlanguage expression runtime depth preparation ih
  | elsewhere h hstate ih => rwa [hstate]

end Files

/-- In every run the limits are exact on all files if and only if the line buffer has its default length
wherever a file is included, and there is room for one more regular expression wherever a shell-expanded
condition stands. This also holds of a root file that cannot be parsed. The counts that the loader goes on
with are those of all files in every run. -/
theorem structural_limits_exact_iff {R H : Type} (words : RcWords R H)
    (files : Bytes → Except String Bytes) (others : RcLanguage (ParsedConfig R H)) :
    (∀ text, LimitsExact words .empty (.of words .default .default text) ↔
      WithinReserve .empty (FileParse.of words .default .default text)) ∧
    ∀ memory history, LoadedFiles words ⟨files, parsedBy words others⟩ memory history →
      (Throughout afterFile (LimitsExact words) .empty history ↔
        Throughout afterFile WithinReserve .empty history) ∧
      memory.parseState.counts = (replay afterFile .empty history).counts := by
  constructor
  · intro text
    exact (parsed_root text).exact_iff
  · intro memory history h
    have hbooks := accounted_loadedFiles ⟨files, parsedBy words others⟩ rfl h
    refine ⟨throughout_congr (hbooks.parsed.mono ?_), hbooks.counts⟩
    intro ledger file hparsed
    exact hparsed.exact_iff

/-! ### Two files -/

/-- Words of plain text, which stand for themselves. -/
def plainWords : RcWords Text Text where
  assignmentWord text := .ok (utf8 text, [.Literal (utf8 text)])
  commandExpression _ := .ok none
  conditionRegex text _ := .ok text
  multipartRegex text _ := .ok text
  headerOperation text := .ok text

/-- A language in which nothing is prepared and nothing is compiled. -/
def plainLanguage : RcLanguage (ParsedConfig Text Text) where
  parseWithState _ _ := .error (.new "")
  validateRuntimeSettings _ := .ok ()
  expandWithRuntimeValues config _ := .ok config
  prepareForCheck config _ := .ok config
  compile _ memory := (⟨[], []⟩, memory)
  statements _ := []
  compatibilityWarnings _ := []

/-- Every path names an empty file. -/
def emptyFiles : Bytes → Except String Bytes := fun _ => .ok []

/-- The root file in which no regular expression is left for the condition. -/
def exhaustedRoot : Text := "LIMIT_RC_REGEXES=0\n:0\n* $ foo\nbar\n".toList

/-- The same file with room for the condition. -/
def sufficientRoot : Text := "LIMIT_RC_REGEXES=1\n:0\n* $ foo\nbar\n".toList

/-- The parse of a root file. -/
def rootFile (text : Text) : FileParse Text Text := .of plainWords .default .default text

/-- Variables of a run that has assigned a line buffer of 4096 bytes. -/
def longLines : RuntimeVariables := (RuntimeVariables.default []).set "LINEBUF" (strBytes "4096")

/-- The files that are parsed when `f` is included in this run. -/
def includedFiles : List (FileParse Text Text) :=
  parseOfCall plainWords ⟨emptyFiles, parsedBy plainWords plainLanguage⟩
    ⟨2, 0, fun _ => .ok (strBytes "f")⟩ longLines 1 (.root 0 .zero 1)

/-- A shell-expanded condition is accepted where no regular expression may follow, and a file that is
included with a line buffer of 4096 bytes is parsed with 2048. -/
theorem limits_not_exact :
    ((rootFile exhaustedRoot).outcome.toOption.isSome = true ∧
      ¬LimitsExact plainWords .empty (rootFile exhaustedRoot)) ∧
    (includedFiles.length = 1 ∧ ∀ file ∈ includedFiles, ¬LimitsExact plainWords .empty file) := by
  refine ⟨⟨by decide +kernel, fun h => ?_⟩, by decide +kernel, fun file hfile h => ?_⟩
  · have hcovers : Throughout Ledger.after Ledger.Covers
        (Ledger.empty.enter (rootFile exhaustedRoot).settings) (rootFile exhaustedRoot).log :=
      h.exact.mono fun _ _ hevent => hevent.2
    exact absurd hcovers (by decide +kernel)
  · have hlinebuf : ∀ file ∈ includedFiles,
        file.start.limits.linebuf = 2048 ∧ file.settings.linebuf = 4096 := by decide +kernel
    obtain ⟨hstart, hsettings⟩ := hlinebuf file hfile
    have hlimits : file.start.limits = file.settings := by rw [h.start]
    rw [hlimits, hsettings] at hstart
    exact absurd hstart (by decide)

/-- The limits are exact on a root file with a shell-expanded condition that there is room for. -/
theorem sufficientRoot_exact :
    (rootFile sufficientRoot).outcome.toOption.isSome = true ∧
      LimitsExact plainWords .empty (rootFile sufficientRoot) :=
  ⟨by decide +kernel,
    ((structural_limits_exact_iff plainWords emptyFiles plainLanguage).1 sufficientRoot).mpr
      ⟨by decide +kernel, by decide +kernel⟩⟩

end ProcmailRs
