import ProcmailRs.Config.Positional
import ProcmailRs.Config.Proofs.ValueProofs
import ProcmailRs.Proofs.DecimalProofs
import ProcmailRs.Proofs.EncodedWordProofs
import ProcmailRs.Proofs.RuntimeLayersProofs

/-!
# The window of positional parameters

The arguments that are left after some shifts are stored under their decimal names, and a shift keeps
that. What the two stores disagree about is a parameter behind the window, which the run removes.
-/

namespace ProcmailRs.Config

/-! ### Names -/

theorem positionalIndex_toString {i : Nat} (h : i ≤ maxPositionalArguments) :
    positionalIndex (toString i) = i := by
  unfold positionalIndex
  rw [show strBytes (toString i) = decimal i from rfl, parseUsize_decimal, Option.getD_some]
  exact h.trans (by decide)

theorem toString_injective {i j : Nat} (h : toString i = toString j) : i = j := by
  have hdecimal : decimal i = decimal j := congrArg strBytes h
  rw [← digitsValue_decimal i, hdecimal, digitsValue_decimal]

theorem toString_ne {i : Nat} {name : String} (h : (strBytes name).all isAsciiDigit = false) :
    toString i ≠ name := by
  rintro rfl
  rw [show strBytes (toString i) = decimal i from rfl, decimal_all_isAsciiDigit] at h
  cases h

theorem isPositional_toString {i : Nat} (hpos : 1 ≤ i) (hle : i ≤ maxPositionalArguments) :
    isPositionalParameterName (toString i) = true := by
  have hbytes : strBytes (toString i) = decimal i := rfl
  have hempty : (toString i).isEmpty = false := by
    rw [← Bool.not_eq_true, String.isEmpty_iff]
    intro hnil
    have hbytes : decimal i = [] := by
      rw [show decimal i = strBytes (toString i) from rfl, hnil]
      rfl
    exact decimal_ne_nil i hbytes
  unfold isPositionalParameterName
  rw [hbytes, parseUsize_decimal (hle.trans (by decide)), decimal_all_isAsciiDigit, hempty]
  simp [hpos, hle]

/-- A positional name is the count or spells an index. -/
theorem positionalIndex_range {name : String} (h : isPositionalParameterName name = true)
    (hcount : name ≠ "#") : 1 ≤ positionalIndex name ∧ positionalIndex name ≤ maxPositionalArguments := by
  unfold isPositionalParameterName at h
  rw [Bool.or_eq_true, beq_iff_eq, or_iff_right hcount, Bool.and_eq_true] at h
  obtain ⟨index, hparse, hrange⟩ := (Option.any_eq_true _ _).mp h.2
  unfold positionalIndex
  rw [hparse]
  simpa using hrange

/-- A name that a variable may be given is not positional. -/
theorem not_positional_of_validName {name : String} (h : validName name = true) :
    isPositionalParameterName name = false := by
  unfold validName at h
  cases hbytes : strBytes name with
  | nil => simp [hbytes] at h
  | cons first rest =>
    simp only [hbytes, Bool.and_eq_true] at h
    have hdigit : isAsciiDigit first = false := by
      have hstart := h.1
      simp only [isNameStart, isAsciiAlphabetic, Bool.or_eq_true, Bool.and_eq_true, beq_iff_eq,
        decide_eq_true_eq, UInt8.le_iff_toNat_le] at hstart
      rw [← Bool.not_eq_true, isAsciiDigit, Bool.and_eq_true, decide_eq_true_eq, decide_eq_true_eq,
        UInt8.le_iff_toNat_le, UInt8.le_iff_toNat_le]
      rcases hstart with rfl | hletter
      · decide
      · simp at hletter ⊢
        omega
    have hcount : (name == "#") = false := by
      rw [beq_eq_false_iff_ne]
      rintro rfl
      obtain rfl : 35 = first := (List.cons.inj hbytes).1
      exact absurd h.1 (by decide)
    unfold isPositionalParameterName
    rw [hcount, hbytes, List.all_cons, hdigit]
    simp

/-! ### Entries under decimal names -/

section Entries

variable {β : Type}

/-- The loop that writes an entry for every index of a range. -/
def placeEntries (entry : Nat → β) (entries : String → Option β) (indices : List Nat) :
    String → Option β :=
  indices.foldl
    (fun entries index other => if other = toString index then some (entry index) else entries other)
    entries

theorem placeEntries_toString (entry : Nat → β) (entries : String → Option β) (indices : List Nat)
    (i : Nat) :
    placeEntries entry entries indices (toString i) =
      if i ∈ indices then some (entry i) else entries (toString i) := by
  induction indices generalizing entries with
  | nil => rfl
  | cons index indices ih =>
    unfold placeEntries at ih ⊢
    rw [List.foldl_cons, ih]
    by_cases hlater : i ∈ indices
    · rw [if_pos hlater, if_pos (List.mem_cons_of_mem _ hlater)]
    · rw [if_neg hlater]
      by_cases hnow : i = index
      · subst hnow
        rw [if_pos rfl, if_pos List.mem_cons_self]
      · rw [if_neg fun heq => hnow (toString_injective heq), if_neg (by simp [hnow, hlater])]

theorem placeEntries_other (entry : Nat → β) (entries : String → Option β) (indices : List Nat)
    {name : String} (h : ∀ i ∈ indices, name ≠ toString i) :
    placeEntries entry entries indices name = entries name := by
  induction indices generalizing entries with
  | nil => rfl
  | cons index indices ih =>
    unfold placeEntries at ih ⊢
    rw [List.foldl_cons, ih _ fun i hi => h i (List.mem_cons_of_mem _ hi),
      if_neg (h index List.mem_cons_self)]

/-- The entries of the positional names, `shown` being the entry for what the window has at an
index. A name that spells its index in another way has none. -/
structure Window (shown : Option Bytes → Option β) (entries : String → Option β)
    (remaining : List Bytes) : Prop where
  placed : ∀ i, 1 ≤ i → i ≤ maxPositionalArguments →
    entries (toString i) = shown (remaining[i - 1]?)
  alone : ∀ name, isPositionalParameterName name = true → name ≠ "#" →
    name ≠ toString (positionalIndex name) → entries name = none

variable {shown : Option Bytes → Option β} {entries entries' : String → Option β}
  {remaining : List Bytes}

/-- Entries that are written for every index make a window. -/
theorem window_placeEntries {entry : Nat → β}
    (hentry : ∀ i, 1 ≤ i → i ≤ maxPositionalArguments → some (entry i) = shown (remaining[i - 1]?))
    (halone : ∀ name, isPositionalParameterName name = true → name ≠ "#" →
      name ≠ toString (positionalIndex name) → entries name = none) :
    Window shown (placeEntries entry entries (List.range' 1 maxPositionalArguments)) remaining := by
  constructor
  · intro i hpos hle
    rw [placeEntries_toString, if_pos (List.mem_range'_1.mpr ⟨hpos, by omega⟩), hentry i hpos hle]
  · intro name hname hcount hspelling
    rw [placeEntries_other]
    · exact halone name hname hcount hspelling
    · rintro i hi rfl
      have hrange := List.mem_range'_1.mp hi
      exact hspelling (by rw [positionalIndex_toString (by omega)])

/-- A window is made of the positional names alone. -/
theorem Window.congr (h : Window shown entries remaining)
    (hsame : ∀ name, isPositionalParameterName name = true → name ≠ "#" →
      entries' name = entries name) : Window shown entries' remaining := by
  constructor
  · intro i hpos hle
    rw [hsame _ (isPositional_toString hpos hle) (toString_ne (by decide)), h.placed i hpos hle]
  · intro name hname hcount hspelling
    rw [hsame name hname hcount, h.alone name hname hcount hspelling]

end Entries

/-! ### Known values -/

/-- A known parameter behind the window is empty. -/
def knownShown (value : Option Bytes) : Option ExpandedValue := some ⟨value.getD [], 0⟩

/-- What preparation knows of the arguments that are left. -/
structure KnownWindow (known : KnownVariables) (remaining : List Bytes) : Prop where
  window : Window knownShown known remaining
  count : known "#" = some ⟨decimal remaining.length, 0⟩

theorem knownWindow_insert_count {known : KnownVariables} {remaining : List Bytes}
    (h : Window knownShown known remaining) :
    KnownWindow (known.insert "#" ⟨decimal remaining.length, 0⟩) remaining :=
  ⟨h.congr fun _ _ hcount => if_neg hcount, if_pos rfl⟩

theorem supplied_positional (supplied : List SuppliedVariable) (known : KnownVariables) {name : String}
    (hname : isPositionalParameterName name = true) :
    (supplied.foldl (fun known one => known.insert one.name one.value) known) name = known name := by
  induction supplied generalizing known with
  | nil => rfl
  | cons one supplied ih =>
    rw [List.foldl_cons, ih]
    refine if_neg ?_
    rintro rfl
    rw [not_positional_of_validName one.valid] at hname
    cases hname

/-- The root file is prepared with the window of all arguments. -/
theorem knownWindow_root (supplied : List SuppliedVariable) (arguments : PositionalArguments) :
    KnownWindow (expandWithArguments supplied arguments).1 arguments.values := by
  refine knownWindow_insert_count (window_placeEntries ?_ ?_)
  · intro i _ _
    rfl
  · intro name hname _ _
    exact supplied_positional supplied _ hname

/-- The source of a shift is the window without its first arguments. -/
theorem shifted_eq_drop {β : Type} {remaining : List Bytes} (requested : Nat) (make : Bytes → β)
    (read : Nat → β) (hread : ∀ i value, 1 ≤ i → remaining[i - 1]? = some value → read i = make value) :
    ((List.range' 1 (remaining.length - min requested remaining.length)).map fun index =>
      read (index + min requested remaining.length)) = (remaining.drop requested).map make := by
  refine List.ext_getElem? fun k => ?_
  rw [List.getElem?_map, List.getElem?_map, List.getElem?_drop]
  by_cases hk : k < remaining.length - min requested remaining.length
  · have hin : requested + k < remaining.length := by omega
    rw [List.getElem?_range' hk, Option.map_some, List.getElem?_eq_getElem hin, Option.map_some]
    congr 1
    refine hread _ _ (by omega) ?_
    rw [show 1 + 1 * k + min requested remaining.length - 1 = requested + k by omega,
      List.getElem?_eq_getElem hin]
  · rw [List.getElem?_eq_none (by rw [List.length_range']; omega),
      List.getElem?_eq_none (by omega)]
    rfl

theorem parse_count {remaining : List Bytes} (hlength : remaining.length ≤ maxPositionalArguments) :
    parseUsize (decimal remaining.length) = some remaining.length :=
  parseUsize_decimal (hlength.trans (by decide))

/-- A shift of the known values drops arguments from the window. -/
theorem KnownWindow.shift {known : KnownVariables} {remaining : List Bytes} (h : KnownWindow known remaining)
    (hlength : remaining.length ≤ maxPositionalArguments) (requested : Nat) :
    KnownWindow (shiftKnown known requested) (remaining.drop requested) := by
  have hcount : ((known "#").bind fun value => parseUsize value.text).getD 0 = remaining.length := by
    rw [h.count, Option.bind_some, parse_count hlength, Option.getD_some]
  have hshifted : ((List.range' 1 (remaining.length - min requested remaining.length)).map fun index =>
      (known (toString (index + min requested remaining.length))).getD ⟨[], 0⟩) =
        (remaining.drop requested).map fun value => (⟨value, 0⟩ : ExpandedValue) := by
    refine shifted_eq_drop requested _ (fun i => (known (toString i)).getD ⟨[], 0⟩) ?_
    intro i value hpos hvalue
    have hle := (List.getElem?_eq_some_iff.mp hvalue).1
    rw [h.window.placed i hpos (by omega), hvalue]
    rfl
  have hlengths : remaining.length - min requested remaining.length = (remaining.drop requested).length := by
    rw [List.length_drop]
    omega
  unfold shiftKnown
  simp only [hcount, hshifted]
  rw [hlengths]
  refine knownWindow_insert_count (window_placeEntries ?_ ?_)
  · intro i _ _
    rw [List.getElem?_map]
    cases (remaining.drop requested)[i - 1]? <;> rfl
  · intro name hname hcount hspelling
    exact h.window.alone name hname hcount hspelling

/-! ### Variables of the run -/

/-- What the run stores of a parameter: nothing behind the window, or, after a shift, a mark. -/
def runtimeShown (shifted : Bool) : Option Bytes → Option RuntimeValue
  | some value => some (.Text value)
  | none => if shifted then some .Removed else none

/-- What a run shows of the arguments that are left. -/
structure RuntimeWindow (runtime : RuntimeVariables) (remaining : List Bytes) (shifted : Bool) : Prop where
  window : Window (runtimeShown shifted) runtime.values remaining
  count : runtime.values "#" = some (.Text (decimal remaining.length)) ∨
    runtime.values "#" = none ∧ remaining = []

/-- A positional name has no other meaning. -/
theorem lookup_positional (runtime : RuntimeVariables) (read : RuntimeValue → Option Bytes)
    {name : String} (hname : isPositionalParameterName name = true) :
    runtime.lookup read name =
      match runtime.values name with
      | some value => read value
      | none => some (if name = "#" then strBytes "0" else []) := by
  have hne : ∀ other : String, isPositionalParameterName other = false → name ≠ other := by
    rintro other hother rfl
    rw [hname] at hother
    cases hother
  unfold RuntimeVariables.lookup RuntimeVariables.stored
  rw [if_neg (hne "$" (by decide)), if_neg (hne "?" (by decide)), if_neg (hne "_" (by decide)),
    if_neg (hne "-" (by decide)), hname]
  cases runtime.values name with
  | some value => rfl
  | none =>
    by_cases hcount : name = "#"
    · simp [hcount]
    · simp [hcount]

/-- A reading that shows texts and hides removed names. -/
structure ShowsTexts (read : RuntimeValue → Option Bytes) : Prop where
  text : ∀ value, read (.Text value) = some value
  removed : read .Removed = none

theorem RuntimeWindow.lookup_count {runtime : RuntimeVariables} {remaining : List Bytes} {shifted : Bool}
    (h : RuntimeWindow runtime remaining shifted) {read : RuntimeValue → Option Bytes}
    (hread : ShowsTexts read) : runtime.lookup read "#" = some (decimal remaining.length) := by
  rw [lookup_positional runtime read (by decide)]
  rcases h.count with hsome | ⟨hnone, rfl⟩
  · rw [hsome]
    exact hread.text _
  · rw [hnone]
    rfl

theorem RuntimeWindow.lookup_index {runtime : RuntimeVariables} {remaining : List Bytes} {shifted : Bool}
    (h : RuntimeWindow runtime remaining shifted) {read : RuntimeValue → Option Bytes}
    (hread : ShowsTexts read) {i : Nat} (hpos : 1 ≤ i) (hle : i ≤ maxPositionalArguments) :
    runtime.lookup read (toString i) =
      match remaining[i - 1]? with
      | some value => some value
      | none => if shifted then none else some [] := by
  rw [lookup_positional runtime read (isPositional_toString hpos hle), h.window.placed i hpos hle]
  unfold runtimeShown
  cases remaining[i - 1]? with
  | some value => exact hread.text value
  | none =>
    cases shifted with
    | true => exact hread.removed
    | false =>
      show some (if toString i = "#" then strBytes "0" else []) = some []
      rw [if_neg (toString_ne (by decide))]

theorem values_foldl_placePositional (shifted : List Bytes) (runtime : RuntimeVariables)
    (indices : List Nat) :
    (indices.foldl (RuntimeVariables.placePositional shifted) runtime).values =
      placeEntries (fun i => ((shifted[i - 1]?).map RuntimeValue.Text).getD .Removed) runtime.values
        indices := by
  induction indices generalizing runtime with
  | nil => rfl
  | cons index indices ih =>
    have hplaced : (RuntimeVariables.placePositional shifted runtime index).values =
        fun other => if other = toString index then
          some (((shifted[index - 1]?).map RuntimeValue.Text).getD .Removed)
        else runtime.values other := by
      unfold RuntimeVariables.placePositional
      cases shifted[index - 1]? with
      | none => rfl
      | some value => rfl
    rw [List.foldl_cons, ih, hplaced]
    rfl

theorem runtimeWindow_set_count {runtime : RuntimeVariables} {remaining : List Bytes} {shifted : Bool}
    (h : Window (runtimeShown shifted) runtime.values remaining) :
    RuntimeWindow (runtime.set "#" (decimal remaining.length)) remaining shifted :=
  ⟨h.congr fun _ _ hcount => if_neg hcount, .inl (by simp [RuntimeVariables.set, RuntimeVariables.insert])⟩

/-- A shift of the run drops arguments from the window and marks the names behind it. -/
theorem RuntimeWindow.shift {runtime : RuntimeVariables} {remaining : List Bytes} {shifted : Bool}
    (h : RuntimeWindow runtime remaining shifted) (hlength : remaining.length ≤ maxPositionalArguments)
    (requested : Nat) :
    RuntimeWindow (runtime.shiftPositionals requested) (remaining.drop requested) true := by
  have htexts : ShowsTexts RuntimeValue.text? := ⟨fun _ => rfl, rfl⟩
  have hget : runtime.get = runtime.lookup RuntimeValue.text? := rfl
  have hcount : ((runtime.get "#").bind parseUsize).getD 0 = remaining.length := by
    rw [hget, h.lookup_count htexts, Option.bind_some, parse_count hlength, Option.getD_some]
  have hshifted : ((List.range' 1 (remaining.length - min requested remaining.length)).map fun index =>
      (runtime.get (toString (index + min requested remaining.length))).getD []) =
        (remaining.drop requested).map id := by
    refine shifted_eq_drop requested _ (fun i => (runtime.get (toString i)).getD []) ?_
    intro i value hpos hvalue
    have hle := (List.getElem?_eq_some_iff.mp hvalue).1
    rw [hget, h.lookup_index htexts hpos (by omega), hvalue]
    rfl
  have hlengths : remaining.length - min requested remaining.length = (remaining.drop requested).length := by
    rw [List.length_drop]
    omega
  unfold RuntimeVariables.shiftPositionals
  simp only [hcount, hshifted, List.map_id]
  rw [hlengths]
  refine runtimeWindow_set_count ?_
  rw [← RuntimeVariables.foldl_placePositional (remaining.drop requested) _ 1 (fun k => by simp) le_rfl,
    values_foldl_placePositional]
  refine window_placeEntries ?_ ?_
  · intro i _ _
    unfold runtimeShown
    cases (remaining.drop requested)[i - 1]? <;> rfl
  · intro name hname hcount hspelling
    exact h.window.alone name hname hcount hspelling

/-! ### The start of a run -/

theorem setAll_other (assigned : List (String × Bytes)) (runtime : RuntimeVariables) {name : String}
    (h : ∀ one ∈ assigned, name ≠ one.1) : (setAll runtime assigned).values name = runtime.values name := by
  unfold setAll
  induction assigned generalizing runtime with
  | nil => rfl
  | cons one assigned ih =>
    rw [List.foldl_cons, ih _ fun one hone => h one (List.mem_cons_of_mem _ hone)]
    exact if_neg (h one List.mem_cons_self)

/-- The arguments that are given become variables with decimal names. -/
theorem setAll_given (values : List Bytes) (htext : ∀ value ∈ values, isText value = true)
    (indices : List Nat) (runtime : RuntimeVariables) (i : Nat) :
    (setAll runtime (indices.filterMap fun index =>
      (values[index - 1]?).map fun value => (toString index, value))).values (toString i) =
      if i ∈ indices then ((values[i - 1]?).map RuntimeValue.Text).or (runtime.values (toString i))
      else runtime.values (toString i) := by
  unfold setAll
  induction indices generalizing runtime with
  | nil => rfl
  | cons index indices ih =>
    rw [List.filterMap_cons]
    cases hvalue : values[index - 1]? with
    | none =>
      rw [Option.map_none, ih]
      by_cases hnow : i = index
      · subst hnow
        simp [hvalue]
      · simp [hnow]
    | some value =>
      have hbytes : isText value = true := htext value (List.mem_of_getElem? hvalue)
      have hset : (runtime.setBytes (toString index) value).values (toString i) =
          if i = index then some (.Text value) else runtime.values (toString i) := by
        unfold RuntimeVariables.setBytes
        rw [if_pos (show (utf8Chars? value).isSome = true from hbytes)]
        by_cases hnow : i = index
        · rw [if_pos hnow, hnow]
          exact if_pos rfl
        · rw [if_neg hnow]
          exact if_neg fun heq => hnow (toString_injective heq)
      rw [Option.map_some, List.foldl_cons, ih, hset]
      by_cases hnow : i = index
      · subst hnow
        simp [hvalue]
      · simp [hnow]

theorem default_positional (processId : Bytes) {name : String}
    (hname : isPositionalParameterName name = true) :
    (RuntimeVariables.default processId).values name = none := by
  have hne : ∀ other : String, isPositionalParameterName other = false → name ≠ other := by
    rintro other hother rfl
    rw [hname] at hother
    cases hother
  unfold RuntimeVariables.default
  simp only [if_neg (hne "LINEBUF" (by decide)), if_neg (hne "TIMEOUT" (by decide)),
    if_neg (hne "UMASK" (by decide)), if_neg (hne "LOCKEXT" (by decide))]

/-- The arguments of the list that starts a run. -/
def givenArguments (values : List Bytes) : List (String × Bytes) :=
  (List.range' 1 maxPositionalArguments).filterMap fun index =>
    (values[index - 1]?).map fun value => (toString index, value)

theorem givenArguments_name {values : List Bytes} {entry : String × Bytes}
    (h : entry ∈ givenArguments values) :
    ∃ i, 1 ≤ i ∧ i ≤ maxPositionalArguments ∧ entry.1 = toString i := by
  obtain ⟨i, hi, hentry⟩ := List.mem_filterMap.mp h
  obtain ⟨value, -, rfl⟩ := Option.map_eq_some_iff.mp hentry
  have hrange := List.mem_range'_1.mp hi
  exact ⟨i, hrange.1, by omega, rfl⟩

theorem isText_decimal (n : Nat) : isText (decimal n) = true := by
  unfold isText decimal strBytes
  rw [utf8Chars?_utf8]
  rfl

theorem setBytes_text (runtime : RuntimeVariables) (name : String) {value : Bytes}
    (h : isText value = true) : runtime.setBytes name value = runtime.set name value := by
  unfold RuntimeVariables.setBytes
  rw [if_pos (show (utf8Chars? value).isSome = true from h)]
  rfl

/-- A run starts with the window of all arguments, and nothing behind it. -/
theorem runtimeWindow_start (processId : Bytes) (supplied : List SuppliedVariable)
    (arguments : PositionalArguments) :
    RuntimeWindow (startRuntime processId (expandWithArguments supplied arguments).2) arguments.values
      false := by
  let before := startRuntime processId (supplied.map fun one => (one.name, one.value.text))
  have hbefore : ∀ name, isPositionalParameterName name = true → before.values name = none := by
    intro name hname
    show (setAll _ _).values name = none
    rw [setAll_other, default_positional processId hname]
    rintro one hone rfl
    obtain ⟨supply, -, rfl⟩ := List.mem_map.mp hone
    rw [not_positional_of_validName supply.valid] at hname
    cases hname
  have hstart : startRuntime processId (expandWithArguments supplied arguments).2 =
      setAll (setAll before (givenArguments arguments.values))
        (if arguments.values.isEmpty then [] else [("#", decimal arguments.values.length)]) := by
    show setAll _ (_ ++ _ ++ _) = _
    unfold setAll
    rw [List.foldl_append, List.foldl_append]
    rfl
  have hgiven : Window (runtimeShown false) (setAll before (givenArguments arguments.values)).values
      arguments.values := by
    constructor
    · intro i hpos hle
      unfold givenArguments
      rw [setAll_given _ arguments.text, if_pos (List.mem_range'_1.mpr ⟨hpos, by omega⟩),
        hbefore _ (isPositional_toString hpos hle)]
      unfold runtimeShown
      cases arguments.values[i - 1]? <;> rfl
    · intro name hname hcount hspelling
      rw [setAll_other, hbefore name hname]
      intro one hone heq
      obtain ⟨i, -, hle, hi⟩ := givenArguments_name hone
      exact hspelling (by rw [heq, hi, positionalIndex_toString hle])
  rw [hstart]
  by_cases hempty : arguments.values = []
  · rw [if_pos (by rw [hempty]; rfl)]
    refine ⟨hgiven, .inr ⟨?_, hempty⟩⟩
    show (setAll before (givenArguments arguments.values)).values "#" = none
    rw [setAll_other, hbefore "#" (by decide)]
    intro one hone heq
    obtain ⟨i, -, -, hi⟩ := givenArguments_name hone
    exact toString_ne (by decide) (hi.symm.trans heq.symm)
  · rw [if_neg (by simpa using hempty)]
    show RuntimeWindow (RuntimeVariables.setBytes _ _ _) _ _
    rw [setBytes_text _ _ (isText_decimal _)]
    exact runtimeWindow_set_count hgiven

/-! ### Runs -/

theorem remainingArguments_cons (arguments : List Bytes) {value : Bytes} {requested : Nat}
    (hparse : parseShift value = .ok requested) (shifts : List Bytes) :
    remainingArguments arguments (value :: shifts) =
      remainingArguments (arguments.drop requested) shifts := by
  unfold remainingArguments
  rw [List.map_cons, List.sum_cons, hparse, List.drop_drop]
  rfl

theorem remainingArguments_concat (arguments : List Bytes) {value : Bytes} {requested : Nat}
    (hparse : parseShift value = .ok requested) (shifts : List Bytes) :
    remainingArguments arguments (shifts ++ [value]) =
      (remainingArguments arguments shifts).drop requested := by
  unfold remainingArguments
  rw [List.map_append, List.sum_append, List.map_singleton, List.sum_singleton, hparse, List.drop_drop]
  rfl

theorem remainingArguments_length (arguments shifts : List Bytes) :
    (remainingArguments arguments shifts).length ≤ arguments.length := by
  unfold remainingArguments
  rw [List.length_drop]
  omega

/-- Every shift of a run drops what it asks for. -/
theorem RuntimeWindow.run {runtime runtime' : RuntimeVariables} {remaining : List Bytes} {shifted : Bool}
    {shifts : List Bytes} (h : RuntimeWindow runtime remaining shifted)
    (hlength : remaining.length ≤ maxPositionalArguments)
    (hrun : runShifts runtime shifts = .ok runtime') :
    RuntimeWindow runtime' (remainingArguments remaining shifts) (shifted || !shifts.isEmpty) := by
  induction shifts generalizing runtime remaining shifted with
  | nil =>
    obtain rfl : runtime = runtime' := Except.ok.inj hrun
    simpa [remainingArguments] using h
  | cons value shifts ih =>
    unfold runShifts at hrun
    rw [List.foldlM_cons] at hrun
    obtain ⟨next, hnext, hrest⟩ := bind_eq_ok hrun
    obtain ⟨requested, hparse, rfl⟩ := map_eq_ok hnext
    rw [remainingArguments_cons _ hparse]
    have hwindow := ih (h.shift hlength requested) (by rw [List.length_drop]; omega) hrest
    simpa using hwindow

theorem orInsert_toString (known : KnownVariables) (indices : List Nat) (i : Nat) :
    (indices.foldl (fun known index => KnownVariables.orInsert known (toString index) ⟨[], 0⟩) known)
        (toString i) =
      if i ∈ indices then (known (toString i)).or (some ⟨[], 0⟩) else known (toString i) := by
  induction indices generalizing known with
  | nil => rfl
  | cons index indices ih =>
    rw [List.foldl_cons, ih]
    unfold KnownVariables.orInsert
    by_cases hnow : i = index
    · subst hnow
      cases known (toString i) <;> simp
    · simp [hnow]

theorem orInsert_other (known : KnownVariables) (indices : List Nat) {name : String}
    (h : ∀ i ∈ indices, name ≠ toString i) :
    (indices.foldl (fun known index => KnownVariables.orInsert known (toString index) ⟨[], 0⟩) known)
        name = known name := by
  induction indices generalizing known with
  | nil => rfl
  | cons index indices ih =>
    rw [List.foldl_cons, ih _ fun i hi => h i (List.mem_cons_of_mem _ hi)]
    exact if_neg fun hand => h index List.mem_cons_self hand.1

/-- A file that is loaded during the run is prepared with the window of the run. -/
theorem knownWindow_loaded {runtime : RuntimeVariables} {remaining : List Bytes} {shifted : Bool}
    (h : RuntimeWindow runtime remaining shifted) : KnownWindow (knownAtRuntime runtime) remaining := by
  have hcount : ∀ i, "#" ≠ toString i := fun i heq => toString_ne (by decide) heq.symm
  constructor
  · constructor
    · intro i hpos hle
      unfold knownAtRuntime populateMissingPositionals
      have hlast : ∀ known : KnownVariables,
          (known.orInsert "#" ⟨strBytes "0", 0⟩) (toString i) = known (toString i) :=
        fun known => if_neg fun hand => toString_ne (by decide) hand.1
      rw [hlast, orInsert_toString, if_pos (List.mem_range'_1.mpr ⟨hpos, by omega⟩),
        h.window.placed i hpos hle]
      unfold runtimeShown knownShown
      cases remaining[i - 1]? with
      | some value => rfl
      | none => cases shifted <;> rfl
    · intro name hname hother hspelling
      have hlast : ∀ known : KnownVariables,
          (known.orInsert "#" ⟨strBytes "0", 0⟩) name = known name :=
        fun known => if_neg fun hand => hother hand.1
      unfold knownAtRuntime populateMissingPositionals
      rw [hlast, orInsert_other, h.window.alone name hname hother hspelling]
      rintro i hi rfl
      have hrange := List.mem_range'_1.mp hi
      exact hspelling (by rw [positionalIndex_toString (by omega)])
  · unfold knownAtRuntime populateMissingPositionals
    rw [KnownVariables.orInsert, orInsert_other _ _ fun i _ => hcount i]
    rcases h.count with hsome | ⟨hnone, rfl⟩
    · simp [hsome]
    · simp [hnone]
      rfl

/-- Wherever an expression is prepared, the window of the moment is known. -/
theorem knownWindow_prepared {supplied : List SuppliedVariable} {arguments : PositionalArguments}
    {processId : Bytes} {line : Nat} {shifts : List Bytes} {known : KnownVariables}
    (h : PreparedAfter supplied arguments processId line shifts known) :
    KnownWindow known (remainingArguments arguments.values shifts) := by
  induction h with
  | root => exact knownWindow_root supplied arguments
  | loaded shifts runtime hrun =>
    exact knownWindow_loaded ((runtimeWindow_start processId supplied arguments).run arguments.count hrun)
  | shift shifts known known' value hprepared hshift ih =>
    unfold shiftKnownPositionals at hshift
    cases hparse : parseShift value with
    | error message =>
      rw [hparse] at hshift
      cases hshift
    | ok requested =>
      rw [hparse] at hshift
      obtain rfl : shiftKnown known requested = known' := Except.ok.inj hshift
      rw [remainingArguments_concat _ hparse]
      exact ih.shift ((remainingArguments_length _ _).trans arguments.count) requested

/-! ### Expressions over positional parameters -/

section Evaluation

variable {context : EvaluationContext (Except ExpansionError) ExpansionError} {lookup : Lookup}

theorem selectedDepth_start {depth : Nat} (hdepth : depth = 0) (isEmpty : Bool) :
    ∃ selected ≤ maxExpansionDepth, selectedDepth context depth 0 false isEmpty = .ok selected := by
  subst hdepth
  unfold selectedDepth
  cases context.depthMode with
  | None => exact ⟨0, by decide, rfl⟩
  | ExpansionChain => exact ⟨1, by decide, rfl⟩
  | SyntaxNesting =>
    cases isEmpty with
    | true => exact ⟨0, by decide, rfl⟩
    | false => exact ⟨1, by decide, rfl⟩

/-- The parts of an expression over positional parameters. -/
inductive PositionalPart : ShellPart → Prop
  | text (text : Bytes) (htext : isText text = true) : PositionalPart (.Literal text)
  | parameter (name : String) (hname : isPositionalParameterName name = true) :
      PositionalPart (.Variable name .Value [])

theorem overPositionals_cons {part : ShellPart} {parts : ShellExpression}
    (h : overPositionals (part :: parts) = true) :
    PositionalPart part ∧ overPositionals parts = true := by
  unfold overPositionals at h
  split at h
  · next heq => cases heq
  · next text rest heq =>
    cases heq
    rw [Bool.and_eq_true] at h
    exact ⟨.text text h.1, h.2⟩
  · next name rest heq =>
    cases heq
    rw [Bool.and_eq_true] at h
    exact ⟨.parameter name h.1, h.2⟩
  · cases h

theorem gives_positionalPart {part : ShellPart} (hpart : PositionalPart part)
    (hvalue : ∀ name, part = .Variable name .Value [] →
      context.variableValue name = .ok (textValue (lookup name)))
    {limit : Nat} {output : Evaluation} (ho : Underway limit output) :
    Gives (evaluatePart context part limit 0 output) output.bytes
      (part.value lookup (limit - output.bytes.length) 0) := by
  cases hpart with
  | text text htext =>
    rw [evaluatePart, ShellPart.value]
    exact gives_append output ho text
  | parameter name hname =>
    rw [evaluatePart, ShellPart.value, ho.silent]
    show Gives (context.variableValue name >>= _) _ _
    rw [hvalue name rfl]
    cases lookup name with
    | none => exact ⟨_, rfl⟩
    | some value =>
      obtain ⟨depth, hdepth, he⟩ := @selectedDepth_start context 0 rfl value.isEmpty
      show Gives (selectedDepth context 0 0 false value.isEmpty >>= _) _
        (if value.isEmpty = true ∨ 0 < maxExpansionDepth then _ else none)
      rw [he, if_pos (.inr (by decide))]
      have happ := @gives_append context limit _ (ho.deeper hdepth) value
      rw [← ho.silent] at happ
      exact happ

/-- Text and plain parameters are put together in every context alike. -/
theorem gives_positionals (expression : ShellExpression) (hover : overPositionals expression = true)
    (hvalue : ∀ name ∈ positionalNames expression,
      context.variableValue name = .ok (textValue (lookup name)))
    {limit : Nat} {output : Evaluation} (ho : Underway limit output) :
    Gives (evaluateParts context expression limit 0 output) output.bytes
      (expressionValue lookup expression (limit - output.bytes.length) 0) := by
  induction expression generalizing output with
  | nil =>
    rw [evaluateParts, expressionValue]
    exact ⟨output.depth, ho.shallow, by rw [← ho.silent]; simp; rfl⟩
  | cons part parts ih =>
    obtain ⟨hpart, hparts⟩ := overPositionals_cons hover
    have hnow : ∀ name, part = .Variable name .Value [] →
        context.variableValue name = .ok (textValue (lookup name)) := by
      rintro name rfl
      exact hvalue name List.mem_cons_self
    have hlater : ∀ name ∈ positionalNames parts,
        context.variableValue name = .ok (textValue (lookup name)) := by
      intro name hname
      refine hvalue name ?_
      cases hpart with
      | text text htext => exact hname
      | parameter other hother => exact List.mem_cons_of_mem _ hname
    rw [evaluateParts, expressionValue]
    refine Gives.bind (gives_positionalPart hpart hnow ho) fun text depth htext hdepth => ?_
    have hroom := part.value_length_le htext
    have hfits := ho.fits
    have hnext : Underway limit ⟨output.bytes ++ text, depth, []⟩ :=
      ⟨by rw [List.length_append]; omega, hdepth, rfl⟩
    have hrest := ih hparts hlater hnext
    rw [List.length_append, ← Nat.sub_sub] at hrest
    exact hrest.behind

/-- The whole evaluation. -/
theorem gives_evaluate {expression : ShellExpression} (hover : overPositionals expression = true)
    (hvalue : ∀ name ∈ positionalNames expression,
      context.variableValue name = .ok (textValue (lookup name))) (limit : Nat) :
    Gives (evaluate context expression limit) [] (expressionValue lookup expression limit 0) := by
  have hstart : initialDepth context 0 ≤ maxExpansionDepth := by
    unfold initialDepth
    split <;> exact Nat.zero_le _
  exact @gives_positionals context lookup expression hover hvalue limit ⟨[], initialDepth context 0, []⟩
    ⟨Nat.zero_le _, hstart, rfl⟩

/-- Text that is put together is text. -/
theorem isText_append {a b : Bytes} (ha : isText a = true) (hb : isText b = true) :
    isText (a ++ b) = true := by
  obtain ⟨cs, hcs⟩ := Option.isSome_iff_exists.mp ha
  obtain ⟨ds, hds⟩ := Option.isSome_iff_exists.mp hb
  unfold isText
  rw [utf8Chars?_eq_some.mp hcs, utf8Chars?_eq_some.mp hds, ← utf8_append, utf8Chars?_utf8]
  rfl

theorem isText_expressionValue {expression : ShellExpression} (hover : overPositionals expression = true)
    (htext : ∀ name ∈ positionalNames expression, ∀ value, lookup name = some value →
      isText value = true) {room : Nat} {value : Bytes}
    (hvalue : expressionValue lookup expression room 0 = some value) : isText value = true := by
  induction expression generalizing room value with
  | nil =>
    rw [expressionValue] at hvalue
    cases hvalue
    decide
  | cons part parts ih =>
    obtain ⟨hpart, hparts⟩ := overPositionals_cons hover
    rw [expressionValue] at hvalue
    obtain ⟨first, hfirst, hlater⟩ := Option.bind_eq_some_iff.mp hvalue
    obtain ⟨rest, hrest, rfl⟩ := Option.map_eq_some_iff.mp hlater
    cases hpart with
    | text text hliteral =>
      rw [ShellPart.value, fitting, Option.ite_none_right_eq_some] at hfirst
      cases hfirst.2
      exact isText_append hliteral (ih hparts htext hrest)
    | parameter name hname =>
      have hrest := ih hparts (fun other hother => htext other (List.mem_cons_of_mem _ hother)) hrest
      refine isText_append ?_ hrest
      rw [ShellPart.value] at hfirst
      obtain ⟨found, hfound, hfits⟩ : ∃ found, lookup name = some found ∧
          (if found.isEmpty = true ∨ 0 < maxExpansionDepth then fitting room found else none) =
            some first := Option.bind_eq_some_iff.mp hfirst
      rw [if_pos (.inr (by decide)), fitting, Option.ite_none_right_eq_some] at hfits
      cases hfits.2
      exact htext name List.mem_cons_self _ hfound

end Evaluation

section Agreement

variable {lookup : Lookup} {expression : ShellExpression}

/-- The evaluation of prepared expressions, of expressions with texts and of those with bytes. -/
theorem toOption_evaluateConfigExpression (hover : overPositionals expression = true)
    {known : KnownVariables}
    (hknown : ∀ name ∈ positionalNames expression, known name = (lookup name).map fun text => ⟨text, 0⟩)
    (line limit : Nat) :
    (evaluateConfigExpression expression line limit known).toOption.map ExpandedValue.text =
      (expressionValue lookup expression limit 0).filter isText := by
  have hgives := @gives_evaluate (configEvaluation line known) lookup expression hover
    (fun name hname => by
      show Except.ok ((known name).map _) = _
      rw [hknown name hname, Option.map_map]
      rfl) limit
  unfold evaluateConfigExpression
  cases hvalue : expressionValue lookup expression limit 0 with
  | none =>
    rw [hvalue] at hgives
    obtain ⟨error, he⟩ := hgives
    rw [he]
    rfl
  | some value =>
    rw [hvalue] at hgives
    obtain ⟨depth, -, he⟩ := hgives
    rw [he, List.nil_append, ok_bind]
    cases htext : isText value with
    | true => simp [htext, Except.toOption, Option.filter, pure, Except.pure]
    | false => simp [htext, Except.toOption, Option.filter]

theorem toOption_evaluateRuntimeBytes (hover : overPositionals expression = true) {stored : Lookup}
    (hstored : ∀ name ∈ positionalNames expression, stored name = lookup name) (line limit : Nat) :
    (evaluateRuntimeBytes expression line limit stored).toOption =
      expressionValue lookup expression limit 0 := by
  have hgives := @gives_evaluate (runtimeBytesEvaluation line stored) lookup expression hover
    (fun name hname => by
      show Except.ok (textValue (stored name)) = _
      rw [hstored name hname]) limit
  unfold evaluateRuntimeBytes
  cases hvalue : expressionValue lookup expression limit 0 with
  | none =>
    rw [hvalue] at hgives
    obtain ⟨error, he⟩ := hgives
    rw [he]
    rfl
  | some value =>
    rw [hvalue] at hgives
    obtain ⟨depth, -, he⟩ := hgives
    rw [he]
    rfl

theorem hasAssignments_positionals (hover : overPositionals expression = true) :
    hasAssignments expression = false := by
  induction expression with
  | nil => rfl
  | cons part parts ih =>
    obtain ⟨hpart, hparts⟩ := overPositionals_cons hover
    rw [hasAssignments, ih hparts, Bool.or_false]
    cases hpart with
    | text text htext => rfl
    | parameter name hname => rfl

theorem toOption_evaluateExpression_positionals (hover : overPositionals expression = true)
    {stored : Lookup} (hstored : ∀ name ∈ positionalNames expression, stored name = lookup name)
    (line limit : Nat) :
    (evaluateExpression expression line limit stored).toOption =
      (expressionValue lookup expression limit 0).filter isText := by
  rw [toOption_evaluateExpression expression (hasAssignments_positionals hover),
    ← toOption_evaluateRuntimeBytes hover (fun _ _ => rfl) line limit,
    toOption_evaluateRuntimeBytes hover hstored line limit]

theorem positionalNames_positional (hover : overPositionals expression = true) :
    ∀ name ∈ positionalNames expression, isPositionalParameterName name = true := by
  induction expression with
  | nil => simp [positionalNames]
  | cons part parts ih =>
    obtain ⟨hpart, hparts⟩ := overPositionals_cons hover
    cases hpart with
    | text text htext => exact ih hparts
    | parameter other hother =>
      intro name hname
      rcases List.mem_cons.mp hname with rfl | hlater
      · exact hother
      · exact ih hparts name hlater

end Agreement

/-! ### Where the two stores agree -/

section Stores

variable {known : KnownVariables} {runtime : RuntimeVariables} {remaining shifts : List Bytes}

theorem windowValue_count : windowValue remaining "#" = decimal remaining.length := if_pos rfl

theorem windowValue_index {i : Nat} (hle : i ≤ maxPositionalArguments) :
    windowValue remaining (toString i) = (remaining[i - 1]?).getD [] := by
  unfold windowValue
  rw [if_neg (toString_ne (by decide)), positionalIndex_toString hle]

/-- A name within the window stands for its argument in the run. -/
theorem RuntimeWindow.lookup_inWindow (h : RuntimeWindow runtime remaining (!shifts.isEmpty))
    {read : RuntimeValue → Option Bytes} (hread : ShowsTexts read) {name : String}
    (hname : isPositionalParameterName name = true) (hin : InWindow remaining shifts name) :
    runtime.lookup read name = some (windowValue remaining name) := by
  rcases hin with rfl | ⟨hspelling, hwindow⟩
  · rw [h.lookup_count hread, windowValue_count]
  · have hcount : name ≠ "#" := fun heq => toString_ne (by decide) (hspelling.symm.trans heq)
    obtain ⟨hpos, hle⟩ := positionalIndex_range hname hcount
    rw [hspelling, h.lookup_index hread hpos hle, windowValue_index hle]
    cases hvalue : remaining[positionalIndex name - 1]? with
    | some value => rfl
    | none =>
      rcases hwindow with rfl | hbound
      · rfl
      · rw [List.getElem?_eq_none_iff] at hvalue
        omega

theorem KnownWindow.inWindow (h : KnownWindow known remaining) {name : String}
    (hname : isPositionalParameterName name = true) (hin : InWindow remaining shifts name) :
    known name = some ⟨windowValue remaining name, 0⟩ := by
  rcases hin with rfl | ⟨hspelling, -⟩
  · rw [h.count, windowValue_count]
  · have hcount : name ≠ "#" := fun heq => toString_ne (by decide) (hspelling.symm.trans heq)
    obtain ⟨hpos, hle⟩ := positionalIndex_range hname hcount
    rw [hspelling, h.window.placed _ hpos hle, windowValue_index hle]
    rfl

/-- A name that both stores know is within the window. -/
theorem inWindow_of_lookup (hknown : KnownWindow known remaining)
    (hruntime : RuntimeWindow runtime remaining (!shifts.isEmpty)) {read : RuntimeValue → Option Bytes}
    (hread : ShowsTexts read) {name : String} (hname : isPositionalParameterName name = true)
    (hprepared : (known name).isSome = true) (hrun : (runtime.lookup read name).isSome = true) :
    InWindow remaining shifts name := by
  by_cases hcount : name = "#"
  · exact .inl hcount
  · have hspelling : name = toString (positionalIndex name) := by
      by_contra hother
      rw [hknown.window.alone name hname hcount hother] at hprepared
      cases hprepared
    obtain ⟨hpos, hle⟩ := positionalIndex_range hname hcount
    refine .inr ⟨hspelling, ?_⟩
    by_contra hbehind
    rw [not_or, Nat.not_le] at hbehind
    have hshifted : (!shifts.isEmpty) = true := by simpa using hbehind.1
    rw [hspelling, hruntime.lookup_index hread hpos hle, hshifted,
      List.getElem?_eq_none (by omega)] at hrun
    cases hrun

theorem isText_windowValue (htext : ∀ value ∈ remaining, isText value = true) (name : String) :
    isText (windowValue remaining name) = true := by
  unfold windowValue
  by_cases hcount : name = "#"
  · rw [if_pos hcount]
    exact isText_decimal _
  · rw [if_neg hcount]
    cases hvalue : remaining[positionalIndex name - 1]? with
    | none => decide
    | some value => exact htext value (List.mem_of_getElem? hvalue)

end Stores

theorem showsTexts_text : ShowsTexts RuntimeValue.text? := ⟨fun _ => rfl, rfl⟩

theorem showsTexts_bytes : ShowsTexts RuntimeValue.bytes? := ⟨fun _ => rfl, rfl⟩

/-- What is left of the arguments is what both sides have, as long as a parameter is spelled without
leading zeros and, once there has been a shift, is not behind the last argument. -/
theorem positional_window_iff {supplied : List SuppliedVariable} {arguments : PositionalArguments}
    {processId : Bytes} {line : Nat} {shifts : List Bytes} {known : KnownVariables}
    {runtime : RuntimeVariables}
    (hprepared : PreparedAfter supplied arguments processId line shifts known)
    (hrun : runShifts (startRuntime processId (expandWithArguments supplied arguments).2) shifts =
      .ok runtime)
    {expression : ShellExpression} (hover : overPositionals expression = true) :
    ConsistentWindow (remainingArguments arguments.values shifts) known runtime expression ↔
      ∀ name ∈ positionalNames expression,
        InWindow (remainingArguments arguments.values shifts) shifts name := by
  have hknown := knownWindow_prepared hprepared
  have hwindow := (runtimeWindow_start processId supplied arguments).run arguments.count hrun
  rw [Bool.false_or] at hwindow
  have hnames := positionalNames_positional hover
  constructor
  · intro h name hname
    refine inWindow_of_lookup hknown hwindow showsTexts_text (hnames name hname) ?_ ?_
    · rw [← Option.isSome_map, h.prepared name hname]
      rfl
    · rw [show runtime.lookup RuntimeValue.text? name = _ from h.get name hname]
      rfl
  · intro hin
    have hget : ∀ name ∈ positionalNames expression,
        runtime.get name = some (windowValue (remainingArguments arguments.values shifts) name) :=
      fun name hname => hwindow.lookup_inWindow showsTexts_text (hnames name hname) (hin name hname)
    have hbytes : ∀ name ∈ positionalNames expression,
        runtime.getBytes name = some (windowValue (remainingArguments arguments.values shifts) name) :=
      fun name hname => hwindow.lookup_inWindow showsTexts_bytes (hnames name hname) (hin name hname)
    have hprepared : ∀ name ∈ positionalNames expression, known name =
        (some (windowValue (remainingArguments arguments.values shifts) name)).map fun text => ⟨text, 0⟩ :=
      fun name hname => hknown.inWindow (hnames name hname) (hin name hname)
    have htext : ∀ value ∈ remainingArguments arguments.values shifts, isText value = true :=
      fun value hvalue => arguments.text value (List.mem_of_mem_drop hvalue)
    refine ⟨hget, hbytes, fun name hname => by rw [hprepared name hname]; rfl, fun line limit => ?_⟩
    rw [toOption_evaluateConfigExpression hover hprepared,
      toOption_evaluateExpression_positionals hover hget, toOption_evaluateRuntimeBytes hover hbytes]
    refine ⟨rfl, ?_⟩
    cases hvalue : expressionValue (fun name =>
        some (windowValue (remainingArguments arguments.values shifts) name)) expression limit 0 with
    | none => rfl
    | some value =>
      rw [Option.filter_some_eq_some]
      refine isText_expressionValue hover ?_ hvalue
      intro name _ found hfound
      cases hfound
      exact isText_windowValue htext name

/-- One argument, the letter a. -/
def singleArgument : PositionalArguments where
  values := [[97]]
  bytes := 1
  text := by decide
  count := by decide
  short := by decide
  size := rfl
  small := by decide

/-- What is known and what the run has once the only argument is shifted away. -/
def singleKnown : KnownVariables := shiftKnown (expandWithArguments [] singleArgument).1 1

/-- A run with one argument that was shifted away. -/
def singleRuntime : RuntimeVariables :=
  (startRuntime [] (expandWithArguments [] singleArgument).2).shiftPositionals 1

theorem singleKnown_prepared : PreparedAfter [] singleArgument [] 0 [strBytes "1"] singleKnown :=
  .shift [] _ singleKnown (strBytes "1") .root rfl

theorem singleRuntime_run :
    runShifts (startRuntime [] (expandWithArguments [] singleArgument).2) [strBytes "1"] =
      .ok singleRuntime := rfl

/-- Five arguments, the letters a to e. -/
def fiveArguments : PositionalArguments where
  values := [[97], [98], [99], [100], [101]]
  bytes := 5
  text := by decide
  count := by decide
  short := by decide
  size := rfl
  small := by decide

/-- A shift by two and one by one: the second moves what the first has moved. -/
def fiveShifts : List Bytes := [strBytes "2", strBytes "1"]

/-- What is known once three of the five arguments are shifted away. -/
def fiveKnown : KnownVariables := shiftKnown (shiftKnown (expandWithArguments [] fiveArguments).1 2) 1

/-- A run with five arguments of which three were shifted away. -/
def fiveRuntime : RuntimeVariables :=
  ((startRuntime [] (expandWithArguments [] fiveArguments).2).shiftPositionals 2).shiftPositionals 1

/-- The parameters that are left, each next to the count: `$1-$2$#`. -/
def bothParameters : ShellExpression :=
  [.Variable "1" .Value [], .Literal (strBytes "-"), .Variable "2" .Value [], .Variable "#" .Value []]

theorem fiveKnown_prepared : PreparedAfter [] fiveArguments [] 0 fiveShifts fiveKnown :=
  .shift [strBytes "2"] _ fiveKnown (strBytes "1")
    (.shift [] _ (shiftKnown (expandWithArguments [] fiveArguments).1 2) (strBytes "2") .root rfl) rfl

theorem fiveRuntime_run :
    runShifts (startRuntime [] (expandWithArguments [] fiveArguments).2) fiveShifts = .ok fiveRuntime :=
  rfl

/-- The two parameters that are left and their count are right on both sides. -/
theorem positional_window_iff_five :
    ConsistentWindow [[100], [101]] fiveKnown fiveRuntime bothParameters :=
  (positional_window_iff fiveKnown_prepared fiveRuntime_run rfl).mpr (by decide +kernel)

/-- Behind the last argument the run has nothing where an empty text is prepared. -/
theorem shifted_argument_is_lost :
    PreparedAfter [] singleArgument [] 0 [strBytes "1"] singleKnown ∧
      runShifts (startRuntime [] (expandWithArguments [] singleArgument).2) [strBytes "1"] =
        .ok singleRuntime ∧
      singleKnown "1" = some ⟨[], 0⟩ ∧ singleRuntime.get "1" = none ∧
      ¬ConsistentWindow [] singleKnown singleRuntime [.Variable "1" .Value []] := by
  have hruntime : RuntimeWindow singleRuntime [] true :=
    (runtimeWindow_start [] [] singleArgument).shift singleArgument.count 1
  have hknown : KnownWindow singleKnown [] :=
    (knownWindow_root [] singleArgument).shift singleArgument.count 1
  have hget : singleRuntime.get (toString 1) = none :=
    hruntime.lookup_index showsTexts_text le_rfl (by decide)
  refine ⟨singleKnown_prepared, singleRuntime_run, hknown.window.placed 1 le_rfl (by decide), hget, ?_⟩
  intro h
  have hset := h.get "1" List.mem_cons_self
  rw [show singleRuntime.get "1" = none from hget] at hset
  cases hset

end ProcmailRs.Config
