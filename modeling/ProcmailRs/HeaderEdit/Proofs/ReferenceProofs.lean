import ProcmailRs.HeaderEdit.Proofs.EditProofs
import ProcmailRs.Message

/-!
# The reference editing and the fields it leaves alone

The limits only decide whether the reference succeeds, never what it returns. The fields no operation
is about keep their bytes and their order, so an action that succeeds returns what the documented
operations give on the list of fields.
-/

namespace ProcmailRs

namespace FieldList

/-! ### The limits do not change the result -/

section Limits

variable (allow : Nat → Except HeaderEditError Unit) (lineEnding : LineEnding)

theorem grown_within (fields : List Bytes) : Within (grown allow fields) (grown unlimited fields) := by
  intro result h
  obtain ⟨_, -, h⟩ := bind_eq_ok h
  exact h

theorem set_within (name : HeaderName) (value : String) (fields : List Bytes) :
    Within (set allow lineEnding name value fields) (set unlimited lineEnding name value fields) :=
  (Within.refl _).bind fun replacement _ => grown_within allow (replace name replacement fields)

theorem setAll_within (values : List (HeaderName × String)) (fields : List Bytes) :
    Within (setAll allow lineEnding values fields) (setAll unlimited lineEnding values fields) := by
  unfold setAll
  refine Within.foldlM ?_ values fields
  intro fields value
  exact set_within allow lineEnding value.1 value.2 fields

theorem setOrRemove_within (name : HeaderName) (value : Option String) (fields : List Bytes) :
    Within (setOrRemove allow lineEnding name value fields)
      (setOrRemove unlimited lineEnding name value fields) := by
  cases value with
  | none => exact Within.refl _
  | some value => exact set_within allow lineEnding name value fields

theorem rename_within (source target : HeaderName) (done fields : List Bytes) :
    Within (rename allow source target done fields) (rename unlimited source target done fields) := by
  induction fields generalizing done with
  | nil => exact Within.refl _
  | cons text rest ih =>
    unfold rename
    split_ifs with hnamed
    · refine (Within.refl _).bind fun renamed _ => ?_
      exact (grown_within allow _).bind fun _ _ => ih _
    · exact ih _

theorem keywords_within (mode : HeaderKeywordsMode) (fields : List Bytes) :
    Within (keywords allow lineEnding mode fields) (keywords unlimited lineEnding mode fields) := by
  refine (Within.refl _).bind fun words _ => ?_
  split_ifs with hempty
  · exact Within.refl _
  · exact setAll_within allow lineEnding _ fields

theorem priority_within (mode : HeaderPriorityMode) (fields : List Bytes) :
    Within (priority allow lineEnding mode fields) (priority unlimited lineEnding mode fields) := by
  unfold priority
  cases mode.fields with
  | none => exact Within.refl _
  | some values => exact setAll_within allow lineEnding values fields

theorem status_within (mode : HeaderStatusMode) (state : State) :
    Within (status allow lineEnding mode state) (status unlimited lineEnding mode state) := by
  refine (Within.refl _).bind fun marks _ => ?_
  refine (setOrRemove_within allow lineEnding _ _ _).bind fun fields _ => ?_
  exact (setOrRemove_within allow lineEnding _ _ _).bind fun _ _ => Within.refl _

theorem run_within (state : State) (operation : HeaderOperation) :
    Within (run allow lineEnding state operation) (run unlimited lineEnding state operation) := by
  cases operation with
  | Remove _ name => exact Within.refl _
  | Set _ name value => exact (set_within allow lineEnding name value.source state.fields).map _
  | Add _ name value => exact ((Within.refl _).bind fun _ _ => grown_within allow _).map _
  | Prepend _ name value => exact ((Within.refl _).bind fun _ _ => grown_within allow _).map _
  | Rename _ source target => exact (rename_within allow source target [] state.fields).map _
  | Extract line name target mode => exact Within.refl _
  | Keywords _ mode => exact (keywords_within allow lineEnding mode state.fields).map _
  | Priority _ mode => exact (priority_within allow lineEnding mode state.fields).map _
  | Status _ mode => exact status_within allow lineEnding mode state

end Limits

theorem runWithin_within (ceiling : Nat) (separator : Bytes) (lineEnding : LineEnding)
    (bodyLen : Nat) (limits : MessageLimits) (state : State) (operation : HeaderOperation) :
    Within (runWithin ceiling separator lineEnding bodyLen limits state operation)
      (run unlimited lineEnding state operation) := by
  intro result h
  obtain ⟨next, hrun, h⟩ := bind_eq_ok h
  obtain ⟨_, -, h⟩ := bind_eq_ok h
  obtain rfl : next = result := Except.ok.inj h
  exact run_within _ lineEnding state operation next hrun

/-! ### The fields the operations are not about -/

/-- A field with a name starts with it, followed by a colon on the same line. -/
theorem fieldName_eq_some {text name : Bytes} (h : fieldName text = some name) :
    (∃ rest, text = name ++ COLON :: rest) ∧ ∀ b ∈ name, isLF b = false := by
  simp only [fieldName] at h
  split_ifs at h with hcolon
  obtain rfl := Option.some.inj h
  have hmem : COLON ∈ text.takeWhile (· != LF) := by simpa using hcolon
  have hdrop : (text.takeWhile (· != LF)).dropWhile (· != COLON) ≠ [] := by
    intro hnil
    have hall := List.dropWhile_eq_nil_iff.mp hnil COLON hmem
    simp at hall
  obtain ⟨byte, rest, hrest⟩ := List.exists_cons_of_ne_nil hdrop
  have hbyte : byte = COLON := by
    have hhead := List.head_dropWhile_not (· != COLON) hdrop
    simpa [hrest] using hhead
  refine ⟨⟨rest ++ text.dropWhile (· != LF), ?_⟩, ?_⟩
  swap
  · intro b hb
    have hline : b ∈ text.takeWhile (· != LF) := (List.takeWhile_sublist _).subset hb
    have hne := List.mem_takeWhile_imp hline
    simpa [isLF] using hne
  conv_lhs =>
    rw [← List.takeWhile_append_dropWhile (p := (· != LF)) (l := text),
      ← List.takeWhile_append_dropWhile (p := (· != COLON)) (l := text.takeWhile (· != LF)), hrest,
      hbyte]
  simp

theorem named_of_name (name : HeaderName) (rest : Bytes) :
    named name (name.canonical ++ COLON :: rest) = true := by
  have hname : fieldName (name.canonical ++ COLON :: rest) = some name.canonical :=
    fieldName_append name.canonical_valid
  simp [named, HeaderStore.entryMatches, fieldFromBytes, hname, name.eqIgnoreAsciiCase_canonical]

theorem named_makeField {name : HeaderName} {value : String} {lineEnding : LineEnding}
    {field : Bytes} (h : makeField name value lineEnding = .ok field) : named name field = true := by
  obtain ⟨-, -, rest, rfl⟩ := serializeGeneratedHeader_spec (makeField_eq_ok h)
  exact named_of_name name rest

/-- The text of a renamed field, by the name it had. -/
theorem renameField_named {source target : HeaderName} {text renamed : Bytes}
    (hnamed : named source text = true)
    (h : renameField (fieldFromBytes text) target = .ok renamed) :
    ∃ old rest, text = old ++ COLON :: rest ∧ renamed = target.canonical ++ COLON :: rest ∧
      ∀ b ∈ old, isLF b = false := by
  obtain ⟨old, hold, -⟩ := (Option.any_eq_true _ _).mp hnamed
  have hname : fieldName text = some old := hold
  obtain ⟨⟨rest, hrest⟩, hline⟩ := fieldName_eq_some hname
  refine ⟨old, rest, hrest, ?_, hline⟩
  rw [renameField_eq_ok h, hname, Option.map_some, Option.getD_some, hrest, List.drop_left]

theorem named_renameField {source target : HeaderName} {text renamed : Bytes}
    (hnamed : named source text = true)
    (h : renameField (fieldFromBytes text) target = .ok renamed) : named target renamed = true := by
  obtain ⟨old, rest, -, rfl, -⟩ := renameField_named hnamed h
  exact named_of_name target rest

section Kept

variable {keep : Bytes → Bool}

/-- The fields that are kept do not carry the name. -/
def Avoids (keep : Bytes → Bool) (name : HeaderName) : Prop :=
  ∀ text, named name text = true → keep text = false

variable {name : HeaderName} (hname : Avoids keep name)

include hname

theorem Avoids.filter_remove (fields : List Bytes) :
    (remove name fields).filter keep = fields.filter keep := by
  rw [remove, List.filter_filter]
  refine List.filter_congr fun text _ => ?_
  cases hnamed : named name text with
  | true => simp [hname text hnamed]
  | false => simp

theorem Avoids.filter_replace {replacement : Bytes} (hrep : named name replacement = true)
    (fields : List Bytes) : (replace name replacement fields).filter keep = fields.filter keep := by
  have hdropped : keep replacement = false := hname replacement hrep
  induction fields with
  | nil => simp [replace, hdropped]
  | cons text rest ih =>
    unfold replace
    split_ifs with hnamed
    · rw [List.filter_cons_of_neg (by simp [hdropped]), hname.filter_remove,
        List.filter_cons_of_neg (by simp [hname text hnamed])]
    · rw [List.filter_cons, List.filter_cons, ih]

theorem Avoids.filter_set {allow : Nat → Except HeaderEditError Unit} {lineEnding : LineEnding}
    {value : String} {fields result : List Bytes}
    (h : set allow lineEnding name value fields = .ok result) :
    result.filter keep = fields.filter keep := by
  obtain ⟨replacement, hmake, h⟩ := bind_eq_ok h
  obtain ⟨_, -, h⟩ := bind_eq_ok h
  obtain rfl := Except.ok.inj h
  exact hname.filter_replace (named_makeField hmake) fields

theorem Avoids.filter_setOrRemove {allow : Nat → Except HeaderEditError Unit}
    {lineEnding : LineEnding} {value : Option String} {fields result : List Bytes}
    (h : setOrRemove allow lineEnding name value fields = .ok result) :
    result.filter keep = fields.filter keep := by
  cases value with
  | none =>
    obtain rfl := Except.ok.inj h
    exact hname.filter_remove fields
  | some value => exact hname.filter_set h

end Kept

theorem filter_setAll {keep : Bytes → Bool} {allow : Nat → Except HeaderEditError Unit}
    {lineEnding : LineEnding} {values : List (HeaderName × String)} {fields result : List Bytes}
    (hnames : ∀ value ∈ values, Avoids keep value.1)
    (h : setAll allow lineEnding values fields = .ok result) :
    result.filter keep = fields.filter keep := by
  refine foldlM_preserves (P := fun current => current.filter keep = fields.filter keep) h rfl ?_
  intro current value next hmem hcurrent hnext
  rw [(hnames value hmem).filter_set hnext, hcurrent]

theorem filter_removeAll {keep : Bytes → Bool} {names : List HeaderName}
    (hnames : ∀ name ∈ names, Avoids keep name) (fields : List Bytes) :
    (removeAll names fields).filter keep = fields.filter keep := by
  induction names generalizing fields with
  | nil => rfl
  | cons name rest ih =>
    have hrest := ih (fun other hother => hnames other (by simp [hother])) (remove name fields)
    rw [(hnames name (by simp)).filter_remove] at hrest
    exact hrest

theorem filter_rename {keep : Bytes → Bool} {allow : Nat → Except HeaderEditError Unit}
    {source target : HeaderName} (hsource : Avoids keep source) (htarget : Avoids keep target)
    {done fields result : List Bytes} (h : rename allow source target done fields = .ok result) :
    result.filter keep = (done ++ fields).filter keep := by
  induction fields generalizing done with
  | nil =>
    obtain rfl : done = result := Except.ok.inj h
    simp
  | cons text rest ih =>
    unfold rename at h
    split_ifs at h with hnamed
    · obtain ⟨renamed, hrenamed, h⟩ := bind_eq_ok h
      obtain ⟨_, -, h⟩ := bind_eq_ok h
      rw [ih h]
      simp [List.filter_append, hsource text hnamed,
        htarget renamed (named_renameField hnamed hrenamed)]
    · rw [ih h, List.append_assoc]
      rfl

theorem filter_keywords {keep : Bytes → Bool} {allow : Nat → Except HeaderEditError Unit}
    {lineEnding : LineEnding} {mode : HeaderKeywordsMode} {fields result : List Bytes}
    (hnames : ∀ name ∈ KeywordField.all.map KeywordField.name, Avoids keep name)
    (h : keywords allow lineEnding mode fields = .ok result) :
    result.filter keep = fields.filter keep := by
  obtain ⟨words, -, h⟩ := bind_eq_ok h
  split_ifs at h with hempty
  · obtain rfl := Except.ok.inj h
    exact filter_removeAll hnames fields
  · refine filter_setAll (fun value hvalue => ?_) h
    obtain ⟨field, hfield, rfl⟩ := List.mem_map.mp hvalue
    exact hnames _ (List.mem_map.mpr ⟨field, hfield, rfl⟩)

theorem filter_priority {keep : Bytes → Bool} {allow : Nat → Except HeaderEditError Unit}
    {lineEnding : LineEnding} {mode : HeaderPriorityMode} {fields result : List Bytes}
    (hnames : ∀ name ∈ [HeaderPriorityMode.importance, HeaderPriorityMode.priority,
      HeaderPriorityMode.xPriority], Avoids keep name)
    (h : priority allow lineEnding mode fields = .ok result) :
    result.filter keep = fields.filter keep := by
  unfold priority at h
  split at h
  · rename_i values hvalues
    refine filter_setAll (fun value hvalue => hnames _ ?_) h
    have hmem : value.1 ∈ values.map Prod.fst := List.mem_map_of_mem hvalue
    cases mode with
    | Clear => cases hvalues
    | _ =>
      obtain rfl := Option.some.inj hvalues
      exact hmem
  · obtain rfl := Except.ok.inj h
    exact filter_removeAll hnames fields

/-- One operation keeps the fields it is not about. -/
theorem filter_run {keep : Bytes → Bool} {allow : Nat → Except HeaderEditError Unit}
    {lineEnding : LineEnding} {state result : State} {operation : HeaderOperation}
    (hnames : ∀ name ∈ touched operation, Avoids keep name)
    (h : run allow lineEnding state operation = .ok result) :
    result.fields.filter keep = state.fields.filter keep := by
  cases operation with
  | Remove _ name =>
    have hfields : remove name state.fields = result.fields :=
      congrArg State.fields (Except.ok.inj h)
    rw [← hfields]
    exact (hnames name (by simp [touched])).filter_remove state.fields
  | Set _ name value =>
    obtain ⟨fields, hfields, rfl⟩ := map_eq_ok h
    exact (hnames name (by simp [touched])).filter_set hfields
  | Add _ name value =>
    obtain ⟨fields, hfields, rfl⟩ := map_eq_ok h
    obtain ⟨field, hmake, hgrown⟩ := bind_eq_ok hfields
    obtain ⟨_, -, hgrown⟩ := bind_eq_ok hgrown
    obtain rfl := Except.ok.inj hgrown
    have hdropped := hnames name (by simp [touched]) field (named_makeField hmake)
    simp [List.filter_append, hdropped]
  | Prepend _ name value =>
    obtain ⟨fields, hfields, rfl⟩ := map_eq_ok h
    obtain ⟨field, hmake, hgrown⟩ := bind_eq_ok hfields
    obtain ⟨_, -, hgrown⟩ := bind_eq_ok hgrown
    obtain rfl := Except.ok.inj hgrown
    have hdropped := hnames name (by simp [touched]) field (named_makeField hmake)
    simp [hdropped]
  | Rename _ source target =>
    obtain ⟨fields, hfields, rfl⟩ := map_eq_ok h
    exact filter_rename (hnames source (by simp [touched])) (hnames target (by simp [touched]))
      hfields
  | Extract line name target mode =>
    obtain ⟨value, -, h⟩ := bind_eq_ok h
    obtain rfl := Except.ok.inj h
    rfl
  | Keywords _ mode =>
    obtain ⟨fields, hfields, rfl⟩ := map_eq_ok h
    exact filter_keywords hnames hfields
  | Priority _ mode =>
    obtain ⟨fields, hfields, rfl⟩ := map_eq_ok h
    exact filter_priority hnames hfields
  | Status _ mode =>
    obtain ⟨marks, -, h⟩ := bind_eq_ok h
    obtain ⟨fields, hfields, h⟩ := bind_eq_ok h
    obtain ⟨fields', hfields', h⟩ := bind_eq_ok h
    obtain rfl := Except.ok.inj h
    have hfirst := (hnames MessageStatus.statusName (by simp [touched])).filter_setOrRemove hfields
    have hsecond :=
      (hnames MessageStatus.xStatusName (by simp [touched])).filter_setOrRemove hfields'
    exact hsecond.trans hfirst

/-- Any sequence of operations keeps the fields none of them is about. -/
theorem untouched_run {allow : Nat → Except HeaderEditError Unit} {lineEnding : LineEnding}
    {operations : List HeaderOperation} {state result : State}
    (h : operations.foldlM (run allow lineEnding) state = .ok result) :
    untouched operations result.fields = untouched operations state.fields := by
  refine foldlM_preserves
    (P := fun current => untouched operations current.fields = untouched operations state.fields)
    h rfl ?_
  intro current operation next hmem hcurrent hnext
  refine Eq.trans (filter_run ?_ hnext) hcurrent
  intro name hname text hnamed
  have hany : (operations.flatMap touched).any (fun name => named name text) = true :=
    List.any_eq_true.mpr ⟨name, List.mem_flatMap.mpr ⟨operation, hmem, hname⟩, hnamed⟩
  simp [hany]

end FieldList

/-! ### The action -/

theorem joiningLineEnding_eq (text : Bytes) (preferred : LineEnding) :
    joiningLineEnding text preferred = FieldList.completion preferred text := by
  unfold joiningLineEnding FieldList.completion
  cases preferred with
  | Lf => simp
  | CrLf => simp

open FieldList

/-- A successful action returns what the documented operations give on the list of fields, and the
fields no operation is about keep their bytes and their order. -/
theorem applyHeaderAction_edits_fields {header : Bytes} {bodyLen : Nat} {action : HeaderAction}
    {limits : MessageLimits} {applied : AppliedHeaderAction}
    (h : applyHeaderAction (.Raw header) bodyLen action limits = .ok applied) :
    edit completion header action = .ok (applied.header.asBytes, applied.extractions) ∧
      ∃ state, editFields header action = .ok state ∧
        untouched action.operations state.fields =
          untouched action.operations ((splitFields header).1.map Field.bytes) := by
  obtain ⟨origin, hnew, hparsed, hrep, -, hlim, hunique⟩ := EditedHeader.new_raw header limits
  have hprivate : origin.unique = false → origin.Settled := by
    intro hfalse
    rw [hunique] at hfalse
    cases hfalse
  have hrefines := applyHeaderAction_refines hnew hrep hlim hprivate bodyLen action
  rw [h] at hrefines
  obtain ⟨⟨state, bytes⟩, hwithin, hextractions, hfinished⟩ := hrefines.exists_of_ok
  obtain ⟨state', hrun, hwithin⟩ := bind_eq_ok hwithin
  obtain ⟨bytes', hserialize, heq⟩ := bind_eq_ok hwithin
  obtain ⟨rfl, rfl⟩ := Prod.mk.inj (Except.ok.inj heq)
  obtain ⟨size, -, hserialize⟩ := bind_eq_ok hserialize
  obtain ⟨_, -, hbytes⟩ := bind_eq_ok hserialize
  replace hbytes := Except.ok.inj hbytes
  -- without the limits the operations leave the same fields
  have hfields : editFields header action = .ok state' := by
    rw [editFields, splitFields_eq]
    dsimp only
    rw [map_bytes_rawFields, ← hparsed.lineEnding]
    exact Within.foldlM (fun state operation => runWithin_within _ _ _ bodyLen limits state operation)
      action.operations _ state' hrun
  have hserialized : joinFields (completion (preferredLineEnding header)) state'.fields ++
      headerSeparator header = applied.header.asBytes := by
    rw [hfinished.settled.coherent.asBytes, hfinished.serialized, ← hbytes, flatten_headerParts,
      hparsed.separator, hparsed.lineEnding]
    simp only [joiningLineEnding_eq]
  refine ⟨?_, state', hfields, ?_⟩
  · rw [edit, hfields, splitFields_eq, hextractions]
    exact congrArg (fun bytes => Except.ok (bytes, state'.extractions)) hserialized
  · unfold editFields at hfields
    exact untouched_run hfields

/-- A field set over its duplicates, a rename, and the value that is extracted under the new name. -/
def threeOperations : HeaderAction :=
  ⟨[.Set 1 ⟨"a", by decide⟩ ⟨"z"⟩, .Rename 2 ⟨"B", by decide⟩ ⟨"C", by decide⟩,
    .Extract 3 ⟨"C", by decide⟩ "X" .Unfolded]⟩

theorem applyHeaderAction_edits_fields_three :
    ∃ applied,
      applyHeaderAction (.Raw (strBytes "A: x\nB: y\nA: w\nD: v\n\n")) 2 threeOperations
          ⟨100, 100, 100, 100, 100⟩ = .ok applied ∧
        applied.header.asBytes = strBytes "A: z\nC: y\nD: v\n\n" ∧
        applied.extractions = [⟨3, "X", strBytes "y"⟩] ∧
        edit completion (strBytes "A: x\nB: y\nA: w\nD: v\n\n") threeOperations =
          .ok (applied.header.asBytes, applied.extractions) := by
  obtain ⟨applied, happly, hbytes, hextractions⟩ : ∃ applied,
      applyHeaderAction (.Raw (strBytes "A: x\nB: y\nA: w\nD: v\n\n")) 2 threeOperations
          ⟨100, 100, 100, 100, 100⟩ = .ok applied ∧
        applied.header.asBytes = strBytes "A: z\nC: y\nD: v\n\n" ∧
        applied.extractions = [⟨3, "X", strBytes "y"⟩] :=
    ⟨_, rfl, rfl, rfl⟩
  exact ⟨applied, happly, hbytes, hextractions, (applyHeaderAction_edits_fields happly).1⟩

/-- Joining with the preferred line ending throughout is not what an action does: behind a lone CR a
bare LF would make a blank line. -/
theorem preferred_join_differs :
    ¬ ∀ (reader : Reader) (limits : MessageLimits) (head : MessageHead) (rest : Reader)
        (bodyLen : Nat) (action : HeaderAction) (applied : AppliedHeaderAction),
      Message.readHeaders reader limits = .ok (head, rest) →
      applyHeaderAction head.headerView bodyLen action limits = .ok applied →
      edit (fun preferred _ => preferred) head.asBytes action =
        .ok (applied.header.asBytes, applied.extractions) := by
  intro h
  have hedit := h (Reader.cursor (strBytes "A: x\r")) ⟨100, 100, 100, 100, 100⟩ _ _ 0
    ⟨[.Add 1 ⟨"B", by decide⟩ ⟨"y"⟩]⟩ _ rfl rfl
  revert hedit
  decide

end ProcmailRs
