import Mathlib
import ProcmailRs.Config.Proofs.PositionalProofs
import ProcmailRs.Environment
import ProcmailRs.Proofs.EncodedWordProofs
import ProcmailRs.Proofs.RuntimeLayersProofs

/-!
# What can abort the preparation of a command

The preparation checks what it relies on, with one exception: the flags of the shell are taken for text.
A run in which they never get a value of another kind starts every command or reports an error.
-/

namespace ProcmailRs

open Std Config

/-! ### Attempts -/

section Attempts

variable {α β : Type}

@[simp] theorem isPanic_ok (a : α) : isPanic (.ok a : Attempt α) = false := rfl

@[simp] theorem isPanic_fail (message : String) : isPanic (fail message : Attempt α) = false := rfl

@[simp] theorem isPanic_failWith (context : String) (result : Except String α) :
    isPanic (failWith context result) = false := by
  cases result with
  | error message => rfl
  | ok value => rfl

/-- A sequence panics in its first part or in the part behind it. -/
theorem isPanic_bind {attempt : Attempt α} {next : α → Attempt β} :
    isPanic (attempt >>= next) = true ↔
      isPanic attempt = true ∨ ∃ a, attempt = .ok a ∧ isPanic (next a) = true := by
  cases attempt with
  | error abort =>
    cases abort with
    | Failed message => simp [isPanic, bind, Except.bind]
    | Panicked message => simp [isPanic, bind, Except.bind]
  | ok a =>
    show isPanic (next a) = true ↔ _
    simp

theorem isPanic_bind_eq_false {attempt : Attempt α} {next : α → Attempt β}
    (h : isPanic attempt = false) (hnext : ∀ a, attempt = .ok a → isPanic (next a) = false) :
    isPanic (attempt >>= next) = false := by
  rw [← Bool.not_eq_true, isPanic_bind, h]
  rintro (hfirst | ⟨a, ha, hpanic⟩)
  · cases hfirst
  · rw [hnext a ha] at hpanic
    cases hpanic

theorem failWith_eq_ok {context : String} {result : Except String α} {a : α}
    (h : failWith context result = .ok a) : result = .ok a := by
  cases result with
  | error message => cases h
  | ok value =>
    cases h
    rfl

end Attempts

/-! ### The path of the shell -/

/-- A character is encoded with its first byte in front, alone when it is ASCII. -/
theorem utf8EncodeChar_head {c : Char} {b : UInt8} {tail : Bytes} (h : String.utf8EncodeChar c = b :: tail) :
    isCharStart b = true ∧ (b < 128 → tail = []) := by
  have hstart : ∀ n : Nat, 192 ≤ n % 256 → isCharStart (UInt8.ofNat n) = true ∧ ¬UInt8.ofNat n < 128 := by
    intro n hn
    simp only [isCharStart, Bool.or_eq_true, decide_eq_true_eq, UInt8.le_iff_toNat_le,
      UInt8.lt_iff_toNat_lt, UInt8.toNat_ofNat']
    simp
    omega
  have hlong : ∀ n : Nat, 192 ≤ n % 256 → ∀ rest : Bytes, UInt8.ofNat n :: rest = b :: tail →
      isCharStart b = true ∧ (b < 128 → tail = []) := by
    intro n hn rest heq
    rw [← (List.cons.inj heq).1]
    exact ⟨(hstart n hn).1, fun hlt => absurd hlt (hstart n hn).2⟩
  have hval : c.val.toNat = c.toNat := rfl
  simp only [String.utf8EncodeChar] at h
  split_ifs at h with hone htwo hthree
  · rw [← (List.cons.inj h).1, ← (List.cons.inj h).2]
    refine ⟨?_, fun _ => rfl⟩
    simp only [isCharStart, Bool.or_eq_true, decide_eq_true_eq, UInt8.lt_iff_toNat_lt, UInt8.toNat_ofNat']
    left
    simp
    omega
  · exact hlong _ (by omega) _ h
  · exact hlong _ (by omega) _ h
  · exact hlong _ (by omega) _ h

theorem utf8EncodeChar_ne_nil (c : Char) : String.utf8EncodeChar c ≠ [] := by
  intro hnil
  have hlength := congrArg List.length hnil
  rw [String.length_utf8EncodeChar, List.length_nil] at hlength
  exact absurd hlength (Nat.ne_of_gt c.utf8Size_pos)

/-- Behind an ASCII character the next character starts. -/
theorem sliceFrom_ascii {b : UInt8} {rest : Bytes} (hb : b < 128) (htext : isText (b :: rest) = true) :
    sliceFrom (b :: rest) 1 = .ok rest := by
  obtain ⟨cs, hcs⟩ := Option.isSome_iff_exists.mp htext
  have hbytes := utf8Chars?_eq_some.mp hcs
  cases cs with
  | nil => cases hbytes
  | cons c cs =>
    rw [utf8_cons] at hbytes
    obtain ⟨first, tail, hencode⟩ := List.exists_cons_of_ne_nil (utf8EncodeChar_ne_nil c)
    rw [hencode, List.cons_append] at hbytes
    obtain ⟨rfl, hrest⟩ := List.cons.inj hbytes
    rw [(utf8EncodeChar_head hencode).2 hb, List.nil_append] at hrest
    unfold sliceFrom
    refine if_pos ?_
    cases cs with
    | nil =>
      left
      rw [hrest]
      rfl
    | cons d ds =>
      right
      obtain ⟨start, following, hnext⟩ := List.exists_cons_of_ne_nil (utf8EncodeChar_ne_nil d)
      rw [hrest, utf8_cons, hnext]
      exact (utf8EncodeChar_head hnext).1

theorem isPanic_validateShellPath {path : Bytes} (htext : isText path = true) :
    isPanic (validateShellPath path) = false := by
  unfold validateShellPath
  split_ifs with hbounds hends
  · rfl
  · rfl
  · rw [not_or, not_not] at hends
    obtain ⟨rest, rfl⟩ : ∃ rest, path = SLASH :: rest := by
      cases path with
      | nil => cases hends.1
      | cons first rest =>
        cases hends.1
        exact ⟨rest, rfl⟩
    rw [sliceFrom_ascii (by decide) htext]
    show isPanic (if (rest.splitOn SLASH).any isForbiddenComponent = true then _ else _) = false
    split_ifs <;> rfl

theorem approve_eq_ok {path : Bytes} {policy : ShellPolicy} (h : ShellPolicy.approve path = .ok policy) :
    policy.approvedPath = some path := by
  unfold ShellPolicy.approve at h
  cases hvalid : validateShellPath path with
  | error abort =>
    rw [hvalid] at h
    cases h
  | ok done =>
    rw [hvalid] at h
    cases h
    rfl

theorem isPanic_approve {path : Bytes} (htext : isText path = true) :
    isPanic (ShellPolicy.approve path) = false :=
  isPanic_bind_eq_false (isPanic_validateShellPath htext) fun _ _ => rfl

/-! ### Entries of the environment -/

namespace ProcessEnvironment

theorem foldlM_addEntry {entries : List (String × Bytes)} {values values' : EnvironmentValues}
    (h : entries.foldlM addEntry values = .ok values') :
    values' = (entries.filter fun entry => !isPositionalParameterName entry.1).foldl
      (fun values entry => values.insert entry.1 entry.2) values := by
  induction entries generalizing values with
  | nil =>
    cases h
    rfl
  | cons entry entries ih =>
    rw [List.foldlM_cons] at h
    obtain ⟨next, hnext, hrest⟩ := bind_eq_ok h
    rw [ih hrest, List.filter_cons]
    unfold addEntry at hnext
    split_ifs at hnext with hname
    · cases hnext
      rw [hname]
      rfl
    · obtain ⟨done, -, rfl⟩ := map_eq_ok hnext
      rw [Bool.not_eq_true] at hname
      rw [hname]
      rfl

/-- The default stands where the run has no value. -/
theorem values_insertIfNew (values : EnvironmentValues) (name other : String) (value : Bytes) :
    (values.insertIfNew name value)[other]? =
      if other = name then (values[other]?).or (some value) else values[other]? := by
  rw [ExtTreeMap.getElem?_insertIfNew]
  by_cases hname : other = name
  · subst hname
    rw [if_pos rfl]
    cases hvalue : values[other]? with
    | none =>
      have hnew : other ∉ values := by
        rw [ExtTreeMap.mem_iff_isSome_getElem?, hvalue]
        decide
      simp [hnew]
    | some old =>
      have hold : other ∈ values := by
        rw [ExtTreeMap.mem_iff_isSome_getElem?, hvalue]
        rfl
      simp [hold]
  · have hcompare : compare name other ≠ .eq := fun heq => hname (LawfulEqCmp.eq_of_compare heq).symm
    rw [if_neg hname, if_neg fun hand => hcompare hand.1]

/-- The map made of the run has what the run shows under a name that is not positional. -/
theorem own_getElem? {runtime : LayeredVariables} {own : EnvironmentValues} {name : String}
    (h : runtime.byteValueList.foldlM addEntry (∅ : EnvironmentValues) = .ok own)
    (hname : isPositionalParameterName name = false) :
    own[name]? = (runtime.find name).bind RuntimeValue.bytes? := by
  have hlists := @LayeredVariables.lists_listing runtime RuntimeValue.bytes?
  have hordered := hlists.ordered.filter fun entry => !isPositionalParameterName entry.1
  refine Option.ext fun value => ?_
  rw [foldlM_addEntry h]
  refine (Layers.getElem?_foldl_insert hordered name value).trans ?_
  rw [List.mem_filter, hname]
  exact (and_iff_left rfl).trans (hlists.mem_iff name value)

end ProcessEnvironment

/-- The reading of a name that has no meaning of its own. -/
theorem getBytes_ordinary (runtime : LayeredVariables) {name : String}
    (hspecial : name ∉ ["$", "?", "_", "-"]) (hname : isPositionalParameterName name = false) :
    runtime.getBytes name = (runtime.find name).bind RuntimeValue.bytes? := by
  simp only [List.mem_cons, List.not_mem_nil, or_false, not_or] at hspecial
  have hcount : name ≠ "#" := by
    rintro rfl
    exact absurd hname (by decide)
  unfold LayeredVariables.getBytes LayeredVariables.lookup LayeredVariables.stored
  rw [if_neg hspecial.1, if_neg hspecial.2.1, if_neg hspecial.2.2.1, if_neg hspecial.2.2.2,
    if_neg hcount, hname]
  cases runtime.find name <;> rfl

/-- The flags of an environment are those of the run, or the default. -/
theorem fromRuntime_flags {runtime : LayeredVariables} {environment : ProcessEnvironment}
    (h : ProcessEnvironment.fromRuntime runtime = .ok environment) :
    environment.values["SHELLFLAGS"]? =
      some ((runtime.getBytes "SHELLFLAGS").getD defaultShellFlags) := by
  unfold ProcessEnvironment.fromRuntime at h
  obtain ⟨own, hown, h⟩ := bind_eq_ok h
  obtain ⟨done, -, h⟩ := bind_eq_ok h
  have hvalues : environment.values = ((own.insertIfNew "SHELL" defaultShell).insertIfNew "SHELLFLAGS"
      defaultShellFlags).insertIfNew "PATH" defaultPath := by
    split at h
    · cases h
    · split_ifs at h
      obtain ⟨arguments, -, h⟩ := bind_eq_ok h
      cases h
      rfl
  rw [hvalues, ProcessEnvironment.values_insertIfNew, if_neg (by decide),
    ProcessEnvironment.values_insertIfNew, if_pos rfl, ProcessEnvironment.values_insertIfNew,
    if_neg (by decide), ProcessEnvironment.own_getElem? hown (by decide),
    ← getBytes_ordinary runtime (by decide) (by decide)]
  cases runtime.getBytes "SHELLFLAGS" <;> rfl

/-- The flags are not text: where an environment exists, that is where the run has other bytes. -/
theorem fromRuntime_flags_none {runtime : LayeredVariables} {environment : ProcessEnvironment}
    (h : ProcessEnvironment.fromRuntime runtime = .ok environment) :
    environment.get "SHELLFLAGS" = none ↔
      ∃ value, runtime.getBytes "SHELLFLAGS" = some value ∧ isText value = false := by
  unfold ProcessEnvironment.get
  rw [fromRuntime_flags h, Option.filter_some_eq_none]
  cases runtime.getBytes "SHELLFLAGS" with
  | none => simp [show isText defaultShellFlags = true by decide]
  | some value => simp

/-! ### The whole preparation -/

theorem prepareEnvironment_eq_ok {runtime : LayeredVariables} {purpose : String}
    {prepared : PreparedEnvironment} (h : prepareEnvironment runtime purpose = .ok prepared) :
    ProcessEnvironment.fromRuntime runtime = .ok prepared.environment ∧
      ∃ shell, prepared.environment.get "SHELL" = some shell ∧
        prepared.shellPolicy.approvedPath = some shell := by
  unfold prepareEnvironment at h
  obtain ⟨timeout, -, h⟩ := bind_eq_ok h
  obtain ⟨environment, henvironment, h⟩ := bind_eq_ok h
  cases hshell : environment.get "SHELL" with
  | none =>
    rw [hshell] at h
    cases h
  | some shell =>
    rw [hshell] at h
    obtain ⟨policy, hpolicy, h⟩ := bind_eq_ok h
    cases h
    exact ⟨failWith_eq_ok henvironment, shell, hshell, approve_eq_ok hpolicy⟩

/-- The shell that is approved is text, so the preparation itself ends. -/
theorem isPanic_prepareEnvironment (runtime : LayeredVariables) (purpose : String) :
    isPanic (prepareEnvironment runtime purpose) = false := by
  unfold prepareEnvironment
  refine isPanic_bind_eq_false (isPanic_failWith _ _) fun timeout _ => ?_
  refine isPanic_bind_eq_false (isPanic_failWith _ _) fun environment _ => ?_
  cases hshell : environment.get "SHELL" with
  | none => rfl
  | some shell =>
    have htext : isText shell = true := (Option.filter_eq_some_iff.mp hshell).2
    exact isPanic_bind_eq_false (isPanic_approve htext) fun _ _ => rfl

theorem isPanic_prepareCommand (surroundings : Surroundings) (runtime : LayeredVariables) :
    isPanic (prepareCommand surroundings runtime) = false := by
  unfold prepareCommand
  refine isPanic_bind_eq_false (isPanic_prepareEnvironment _ _) fun prepared _ => ?_
  exact isPanic_bind_eq_false (isPanic_failWith _ _) fun _ _ => rfl

theorem isPanic_prepare (surroundings : Surroundings) (runtime : LayeredVariables)
    (purpose : CommandPurpose) : isPanic (prepare surroundings runtime purpose) = false := by
  cases purpose with
  | Command => exact isPanic_prepareCommand surroundings runtime
  | Capture line =>
    exact isPanic_bind_eq_false (isPanic_failWith _ _) fun _ _ =>
      isPanic_prepareCommand surroundings runtime
  | Trap => exact isPanic_prepareEnvironment runtime "TRAP"

theorem prepareCommand_eq_ok {surroundings : Surroundings} {runtime : LayeredVariables}
    {prepared : PreparedEnvironment} (h : prepareCommand surroundings runtime = .ok prepared) :
    prepareEnvironment runtime "external command" = .ok prepared := by
  unfold prepareCommand at h
  obtain ⟨prepared', hprepared, h⟩ := bind_eq_ok h
  obtain ⟨done, -, h⟩ := bind_eq_ok h
  cases h
  exact hprepared

theorem prepare_eq_ok {surroundings : Surroundings} {runtime : LayeredVariables}
    {purpose : CommandPurpose} {prepared : PreparedEnvironment}
    (h : prepare surroundings runtime purpose = .ok prepared) :
    ∃ text, prepareEnvironment runtime text = .ok prepared := by
  cases purpose with
  | Command => exact ⟨_, prepareCommand_eq_ok h⟩
  | Capture line =>
    obtain ⟨limit, -, h⟩ := bind_eq_ok h
    exact ⟨_, prepareCommand_eq_ok h⟩
  | Trap => exact ⟨_, h⟩

/-- An approved shell is authorized unless there are no flags for it. -/
theorem isPanic_authorize {policy : ShellPolicy} {environment : ProcessEnvironment} {shell : Bytes}
    (hshell : environment.get "SHELL" = some shell) (hpolicy : policy.approvedPath = some shell) :
    isPanic (policy.authorize environment) = true ↔ environment.get "SHELLFLAGS" = none := by
  unfold ShellPolicy.authorize
  rw [hpolicy, hshell]
  show isPanic (if shell ≠ shell then _ else _) = true ↔ _
  rw [if_neg (not_not_intro rfl)]
  cases environment.get "SHELLFLAGS" with
  | none => exact iff_of_true rfl rfl
  | some flags => simp [expect, bind, Except.bind, pure, Except.pure, isPanic]

/-- The one way to a panic: everything is prepared, and the flags of the shell are not text. -/
theorem isPanic_startCommand (surroundings : Surroundings) (purpose : CommandPurpose)
    (runtime : LayeredVariables) :
    isPanic (startCommand surroundings purpose runtime) = true ↔
      (∃ prepared, prepare surroundings runtime purpose = .ok prepared) ∧
        surroundings.signal = .ok () ∧
        ∃ value, runtime.getBytes "SHELLFLAGS" = some value ∧ isText value = false := by
  have hauthorize : ∀ prepared, prepare surroundings runtime purpose = .ok prepared →
      (isPanic (prepared.shellPolicy.authorize prepared.environment) = true ↔
        ∃ value, runtime.getBytes "SHELLFLAGS" = some value ∧ isText value = false) := by
    intro prepared hprepared
    obtain ⟨text, htext⟩ := prepare_eq_ok hprepared
    obtain ⟨henvironment, shell, hshell, hpolicy⟩ := prepareEnvironment_eq_ok htext
    rw [isPanic_authorize hshell hpolicy, fromRuntime_flags_none henvironment]
  unfold startCommand
  rw [isPanic_bind, isPanic_prepare]
  constructor
  · rintro (hpanic | ⟨prepared, hprepared, hpanic⟩)
    · cases hpanic
    · rw [isPanic_bind, isPanic_failWith] at hpanic
      rcases hpanic with hpanic | ⟨done, hsignal, hpanic⟩
      · cases hpanic
      · rw [isPanic_bind] at hpanic
        rcases hpanic with hpanic | ⟨shell, -, hpanic⟩
        · exact ⟨⟨prepared, hprepared⟩, failWith_eq_ok hsignal, (hauthorize prepared hprepared).mp hpanic⟩
        · cases hpanic
  · rintro ⟨⟨prepared, hprepared⟩, hsignal, hflags⟩
    refine .inr ⟨prepared, hprepared, ?_⟩
    rw [hsignal]
    refine isPanic_bind.mpr (.inr ⟨(), rfl, ?_⟩)
    exact isPanic_bind.mpr (.inl ((hauthorize prepared hprepared).mpr hflags))

/-! ### Runs -/

/-- What the run shows of the flags is text. -/
def FlagsAreText (runtime : RuntimeVariables) : Prop :=
  ∀ value, (runtime.values "SHELLFLAGS").bind RuntimeValue.bytes? = some value → isText value = true

theorem flagsAreText_congr {runtime runtime' : RuntimeVariables} (h : FlagsAreText runtime)
    (hsame : runtime'.values "SHELLFLAGS" = runtime.values "SHELLFLAGS") : FlagsAreText runtime' := by
  unfold FlagsAreText
  rw [hsame]
  exact h

theorem flagsAreText_insert {runtime : RuntimeVariables} (h : FlagsAreText runtime) {name : String}
    {value : RuntimeValue}
    (hvalue : name = "SHELLFLAGS" → ∀ bytes, value.bytes? = some bytes → isText bytes = true) :
    FlagsAreText (runtime.insert name value) := by
  intro bytes hbytes
  by_cases hname : "SHELLFLAGS" = name
  · have hnow : (runtime.insert name value).values "SHELLFLAGS" = some value := if_pos hname
    rw [hnow] at hbytes
    exact hvalue hname.symm bytes hbytes
  · have hold : (runtime.insert name value).values "SHELLFLAGS" = runtime.values "SHELLFLAGS" :=
      if_neg hname
    rw [hold] at hbytes
    exact h bytes hbytes

/-- A shift writes positional names only. -/
theorem shiftPositionals_other (runtime : RuntimeVariables) (requested : Nat) {name : String}
    (hcount : name ≠ "#") (hname : ∀ i : Nat, name ≠ toString i) :
    (runtime.shiftPositionals requested).values name = runtime.values name := by
  have hplace : ∀ shifted, (runtime.placePositionals 1 shifted).values name = runtime.values name := by
    intro shifted
    rw [← RuntimeVariables.foldl_placePositional shifted shifted 1 (fun k => by simp) le_rfl,
      values_foldl_placePositional]
    exact placeEntries_other _ _ _ fun i _ => hname i
  unfold RuntimeVariables.shiftPositionals
  exact (if_neg hcount).trans (hplace _)

theorem flags_not_decimal (i : Nat) : "SHELLFLAGS" ≠ toString i :=
  fun heq => toString_ne (by decide) heq.symm

theorem flagsAreText_change {runtime : RuntimeVariables} (h : FlagsAreText runtime) {branch : Nat}
    {operation : VariableOperation} (hkeeps : (BranchStep.change branch operation).KeepsFlagsText) :
    FlagsAreText (runtime.change operation) := by
  have hclear : ∀ runtime : RuntimeVariables, FlagsAreText runtime →
      FlagsAreText runtime.clearNumberedMatchValues := by
    intro runtime h
    have hnumbered : RuntimeVariables.isNumberedMatch "SHELLFLAGS" = false := by decide
    refine flagsAreText_congr h ?_
    unfold RuntimeVariables.clearNumberedMatchValues
    simp [hnumbered]
  have hremove : ∀ name, FlagsAreText (runtime.remove name) := by
    intro name
    refine flagsAreText_insert h fun _ bytes hbytes => ?_
    cases hbytes
  cases operation with
  | set name value =>
    refine flagsAreText_insert h fun hname bytes hbytes => ?_
    cases hbytes
    exact hkeeps hname
  | setBytes name value =>
    refine flagsAreText_insert h fun hname bytes hbytes => ?_
    split_ifs at hbytes
    · cases hbytes
      exact hkeeps hname
    · cases hbytes
      exact hkeeps hname
  | remove name => exact hremove name
  | shiftPositionals requested =>
    exact flagsAreText_congr h (shiftPositionals_other runtime requested (by decide) flags_not_decimal)
  | setMatchValue name value =>
    refine flagsAreText_insert h fun hname bytes hbytes => ?_
    cases hbytes
    exact hkeeps hname
  | clearMatchValues => exact hclear _ (hremove "MATCH")
  | clearNumberedMatchValues => exact hclear runtime h
  | setSystemHostname hostname => exact flagsAreText_congr h rfl
  | replaceCurrentRcFile path => exact flagsAreText_congr h rfl
  | setLastCommandStatus status => exact flagsAreText_congr h rfl

/-- One step of a run keeps the flags of every branch text. -/
theorem flagsAreText_step {branches : List RuntimeVariables} {step : BranchStep}
    (h : ∀ runtime ∈ branches, FlagsAreText runtime) (hkeeps : step.KeepsFlagsText) :
    ∀ runtime ∈ flatStep branches step, FlagsAreText runtime := by
  intro runtime hruntime
  cases step with
  | fork branch =>
    cases hbranch : branches[branch]? with
    | none =>
      simp only [flatStep, hbranch] at hruntime
      exact h runtime hruntime
    | some forked =>
      simp only [flatStep, hbranch] at hruntime
      rcases List.mem_append.mp hruntime with hold | hnew
      · exact h runtime hold
      · cases List.mem_singleton.mp hnew
        exact h _ (List.mem_of_getElem? hbranch)
  | change branch operation =>
    unfold flatStep at hruntime
    obtain ⟨other, hother⟩ := List.mem_iff_getElem?.mp hruntime
    rw [List.getElem?_modify] at hother
    obtain ⟨before, hbefore, rfl⟩ := Option.map_eq_some_iff.mp hother
    have htext := h before (List.mem_of_getElem? hbefore)
    by_cases hbranch : branch = other
    · rw [if_pos hbranch]
      exact flagsAreText_change htext hkeeps
    · rw [if_neg hbranch]
      exact htext

theorem flagsAreText_run {branches : List RuntimeVariables} {steps : List BranchStep}
    (h : ∀ runtime ∈ branches, FlagsAreText runtime) (hkeeps : ∀ step ∈ steps, step.KeepsFlagsText) :
    ∀ runtime ∈ steps.foldl flatStep branches, FlagsAreText runtime := by
  induction steps generalizing branches with
  | nil => exact h
  | cons step steps ih =>
    rw [List.foldl_cons]
    exact ih (flagsAreText_step h (hkeeps step List.mem_cons_self))
      fun later hlater => hkeeps later (List.mem_cons_of_mem _ hlater)

/-- A run starts with the variables of the plain model. -/
theorem flatten_default (processId : Bytes) :
    (LayeredVariables.default processId).flatten = RuntimeVariables.default processId := by
  unfold LayeredVariables.default
  simp only [LayeredVariables.flatten_insert]
  unfold RuntimeVariables.default
  simp only [RuntimeVariables.insert, LayeredVariables.flatten, RuntimeVariables.mk.injEq, and_true]
  funext name
  have hempty : LayeredVariables.find ⟨[], ∅, none, processId, strBytes "0", none⟩ name = none := by
    unfold LayeredVariables.find
    rw [ExtTreeMap.getElem?_empty]
    rfl
  rw [hempty]
  by_cases hlinebuf : name = "LINEBUF"
  · simp [hlinebuf]
  · by_cases htimeout : name = "TIMEOUT"
    · simp [htimeout, defaultProcessTimeout]
    · by_cases humask : name = "UMASK"
      · simp [humask]
      · simp [hlinebuf, htimeout, humask]

theorem flagsAreText_default (processId : Bytes) :
    FlagsAreText (LayeredVariables.default processId).flatten := by
  rw [flatten_default]
  intro value hvalue
  cases hvalue

/-- While no step gives the flags of the shell a value that is not text, no state of the run makes the
preparation of a command panic. -/
theorem preparation_never_panics (processId : Bytes) (steps : List BranchStep)
    (hkeeps : ∀ step ∈ steps, step.KeepsFlagsText) :
    ∀ runtime ∈ steps.foldl layeredStep [LayeredVariables.default processId],
      ∀ surroundings purpose, isPanic (startCommand surroundings purpose runtime) = false := by
  intro runtime hruntime surroundings purpose
  rw [← Bool.not_eq_true, isPanic_startCommand]
  rintro ⟨-, -, value, hvalue, htext⟩
  have hflat : runtime.flatten ∈ steps.foldl flatStep [(LayeredVariables.default processId).flatten] := by
    rw [show [(LayeredVariables.default processId).flatten] =
      [LayeredVariables.default processId].map LayeredVariables.flatten from rfl, ← map_flatten_run]
    exact List.mem_map_of_mem hruntime
  have hstart : ∀ start ∈ [(LayeredVariables.default processId).flatten], FlagsAreText start := by
    intro start hmem
    cases List.mem_singleton.mp hmem
    exact flagsAreText_default processId
  rw [getBytes_ordinary runtime (by decide) (by decide)] at hvalue
  rw [flagsAreText_run hstart hkeeps _ hflat value hvalue] at htext
  cases htext

/-- The flags are assigned a text, and the run is forked. -/
theorem preparation_never_panics_text :
    isPanic (startCommand ⟨.ok (), fun _ _ => .ok ()⟩ .Command
      ((LayeredVariables.default []).setBytes "SHELLFLAGS" (strBytes "-ec")).fork.2) = false := by
  refine preparation_never_panics []
    [.change 0 (.setBytes "SHELLFLAGS" (strBytes "-ec")), .fork 0] ?_ _ ?_ _ _
  · intro step hstep
    rcases List.mem_cons.mp hstep with rfl | hfork
    · intro _
      decide
    · cases List.mem_singleton.mp hfork
      trivial
  · exact List.mem_cons_of_mem _ List.mem_cons_self

/-- One byte from the output of a command is enough. -/
theorem preparation_panics :
    ∃ runtime ∈ [BranchStep.change 0 (.setBytes "SHELLFLAGS" [255])].foldl layeredStep
        [LayeredVariables.default []],
      isPanic (startCommand ⟨.ok (), fun _ _ => .ok ()⟩ .Command runtime) = true := by
  refine ⟨(LayeredVariables.default []).setBytes "SHELLFLAGS" [255], List.mem_singleton_self _, ?_⟩
  decide +kernel

end ProcmailRs
