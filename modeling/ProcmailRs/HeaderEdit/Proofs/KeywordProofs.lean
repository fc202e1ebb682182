import ProcmailRs.HeaderEdit.Proofs.FramingProofs
import ProcmailRs.HeaderEdit.Proofs.ReferenceProofs
import ProcmailRs.Proofs.StructuredHeaderProofs

/-!
# Keyword operations keep one ordered set

The three keyword headers stand for one list of distinct keywords. Every operation maps the list
that a reader of the header would collect to the one its documentation describes, and leaves each of
the three headers exactly once, with the same value, or none of them.
-/

namespace ProcmailRs

open FieldList FirstSeen

/-! ### The documented operations on the set -/

/-- The keywords of a header; none, when there are too many to collect. -/
def collected (fields : List Field) : List String :=
  (collectKeywords fields KeywordField.all).toOption.getD []

/-- What an operation makes of the keywords that are present. -/
def HeaderKeywordsMode.synchronize : HeaderKeywordsMode → List String → List String
  | .Add value, present =>
    present ++ (configuredTokens value.source).filter fun keyword => !present.contains keyword
  | .Remove value, present =>
    present.filter fun keyword => !(configuredTokens value.source).contains keyword
  | .Set value, _ => configuredTokens value.source
  | .Clear, _ => []

/-- The list is one a keyword header can hold. -/
def KeywordSet (keywords : List String) : Prop :=
  keywords.Nodup ∧ ∀ keyword ∈ keywords, IsKeyword keyword

theorem keywordSet_configuredTokens (value : String) : KeywordSet (configuredTokens value) := by
  refine ⟨nodup_eraseDups _, fun keyword hkeyword => ?_⟩
  exact isKeyword_of_mem_validKeywords keyword (List.mem_eraseDups.mp hkeyword)

theorem KeywordSet.filter {keywords : List String} (h : KeywordSet keywords) (p : String → Bool) :
    KeywordSet (keywords.filter p) :=
  ⟨h.1.filter p, fun keyword hkeyword => h.2 keyword (List.mem_of_mem_filter hkeyword)⟩

theorem keywordSet_collected {fields : List Field} {wanted : List KeywordField}
    {keywords : List String} (h : collectKeywords fields wanted = .ok keywords) :
    KeywordSet keywords := by
  rw [collectKeywords_eq] at h
  split_ifs at h
  obtain rfl := Except.ok.inj h
  refine ⟨nodup_eraseDups _, fun keyword hkeyword => ?_⟩
  obtain ⟨field, -, hin⟩ := List.mem_flatMap.mp (List.mem_eraseDups.mp hkeyword)
  rw [keywordsIn] at hin
  split at hin
  · split_ifs at hin
    · exact isKeyword_of_mem_validKeywords keyword hin
    · cases hin
  · cases hin

theorem presentKeywords_eq_ok {fields : List Field} {present : List String}
    (h : presentKeywords fields = .ok present) :
    collectKeywords fields KeywordField.all = .ok present := by
  rw [presentKeywords] at h
  split at h
  · rename_i keywords hcollect
    obtain rfl := Except.ok.inj h
    exact hcollect
  · cases h

theorem parseKeywords_eq_ok {value : HeaderValue} {keywords : List String}
    (h : parseKeywords value = .ok keywords) : keywords = configuredTokens value.source := by
  rw [parseKeywords] at h
  split at h
  · rename_i parsed hparsed
    obtain rfl := Except.ok.inj h
    exact parseConfiguredKeywords_eq_ok hparsed
  · cases h
  · cases h

/-- The keywords an operation writes are those its documentation describes. -/
theorem keywordsAfter_eq_ok {mode : HeaderKeywordsMode} {fields : List Field}
    {keywords : List String} (h : keywordsAfter mode fields = .ok keywords) :
    keywords = mode.synchronize (collected fields) ∧ KeywordSet keywords := by
  have hpresent : ∀ {present}, presentKeywords fields = .ok present →
      collected fields = present ∧ KeywordSet present := by
    intro present hp
    have hcollect := presentKeywords_eq_ok hp
    refine ⟨?_, keywordSet_collected hcollect⟩
    rw [collected, hcollect]
    rfl
  cases mode with
  | Add value =>
    obtain ⟨configured, hparse, h⟩ := bind_eq_ok h
    obtain ⟨present, hp, h⟩ := bind_eq_ok h
    obtain ⟨hcollected, hset⟩ := hpresent hp
    obtain rfl := parseKeywords_eq_ok hparse
    have hfold : (configuredTokens value.source).foldl
        (fun keywords item => if keywords.contains item then keywords else keywords ++ [item])
        present = (configuredTokens value.source).foldl insertNew present := rfl
    have hconfigured := keywordSet_configuredTokens value.source
    simp only [hfold] at h
    split_ifs at h
    obtain rfl := Except.ok.inj h
    constructor
    · rw [foldl_insertNew, eraseDups_of_nodup (hconfigured.1.filter _), hcollected]
      rfl
    · refine ⟨nodup_foldl_insertNew hset.1 _, fun keyword hkeyword => ?_⟩
      rw [foldl_insertNew, List.mem_append, List.mem_eraseDups] at hkeyword
      rcases hkeyword with hkeyword | hkeyword
      · exact hset.2 keyword hkeyword
      · exact hconfigured.2 keyword (List.mem_of_mem_filter hkeyword)
  | Remove value =>
    obtain ⟨configured, hparse, h⟩ := bind_eq_ok h
    obtain ⟨present, hp, h⟩ := bind_eq_ok h
    obtain ⟨hcollected, hset⟩ := hpresent hp
    obtain rfl := parseKeywords_eq_ok hparse
    obtain rfl := Except.ok.inj h
    exact ⟨by rw [hcollected]; rfl, hset.filter _⟩
  | Set value =>
    obtain rfl := parseKeywords_eq_ok h
    exact ⟨rfl, keywordSet_configuredTokens value.source⟩
  | Clear =>
    obtain rfl := Except.ok.inj h
    exact ⟨rfl, List.nodup_nil, by simp⟩

/-! ### The fields an operation leaves -/

theorem filter_replace_named {name : HeaderName} {replacement : Bytes}
    (hrep : named name replacement = true) (fields : List Bytes) :
    (replace name replacement fields).filter (named name) = [replacement] := by
  induction fields with
  | nil => simp [replace, hrep]
  | cons text rest ih =>
    unfold replace
    split_ifs with hnamed
    · have hnone : (remove name rest).filter (named name) = [] := by
        rw [remove, List.filter_filter, List.filter_eq_nil_iff]
        intro other _
        simp
      rw [List.filter_cons_of_pos hrep, hnone]
    · rw [List.filter_cons_of_neg hnamed, ih]

/-- A field that is set occurs once. -/
theorem filter_set_named {allow : Nat → Except HeaderEditError Unit} {lineEnding : LineEnding}
    {name : HeaderName} {value : String} {fields result : List Bytes}
    (h : FieldList.set allow lineEnding name value fields = .ok result) :
    ∃ text, makeField name value lineEnding = .ok text ∧ result.filter (named name) = [text] := by
  obtain ⟨replacement, hmake, h⟩ := bind_eq_ok h
  obtain ⟨_, -, h⟩ := bind_eq_ok h
  obtain rfl := Except.ok.inj h
  exact ⟨replacement, hmake, filter_replace_named (named_makeField hmake) fields⟩

/-- Fields of different names that are set one after the other occur once each. -/
theorem filter_setAll_named {allow : Nat → Except HeaderEditError Unit} {lineEnding : LineEnding}
    {values : List (HeaderName × String)} {fields result : List Bytes}
    (hnames : values.Pairwise fun first second => FieldList.Avoids (named first.1) second.1)
    (h : setAll allow lineEnding values fields = .ok result) :
    ∀ value ∈ values, ∃ text, makeField value.1 value.2 lineEnding = .ok text ∧
      result.filter (named value.1) = [text] := by
  induction values generalizing fields with
  | nil => simp
  | cons first rest ih =>
    obtain ⟨hfirst, hrest⟩ := List.pairwise_cons.mp hnames
    obtain ⟨middle, hset, htail⟩ := bind_eq_ok h
    intro value hvalue
    rcases List.mem_cons.mp hvalue with rfl | hvalue
    · obtain ⟨text, hmake, hfilter⟩ := filter_set_named hset
      refine ⟨text, hmake, ?_⟩
      rw [← hfilter]
      exact filter_setAll hfirst htail
    · exact ih hrest htail value hvalue

theorem filter_removeAll_named {names : List HeaderName} {name : HeaderName} (hname : name ∈ names)
    (fields : List Bytes) : (removeAll names fields).filter (named name) = [] := by
  induction names generalizing fields with
  | nil => cases hname
  | cons first rest ih =>
    by_cases hrest : name ∈ rest
    · exact ih hrest (remove first fields)
    · obtain rfl : name = first := by
        rcases List.mem_cons.mp hname with heq | hmem
        · exact heq
        · exact absurd hmem hrest
      have hsub : ∀ (others : List HeaderName) (texts : List Bytes),
          texts.filter (named name) = [] → (removeAll others texts).filter (named name) = [] := by
        intro others
        induction others with
        | nil => exact fun _ h => h
        | cons other others ih =>
          intro texts htexts
          refine ih (remove other texts) ?_
          rw [List.filter_eq_nil_iff] at htexts ⊢
          exact fun text htext => htexts text (List.mem_of_mem_filter htext)
      refine hsub rest (remove name fields) ?_
      rw [remove, List.filter_filter, List.filter_eq_nil_iff]
      intro text _
      simp

/-- No field carries the names of two keyword headers. -/
theorem avoids_keyword {first second : KeywordField} (h : first ≠ second) :
    FieldList.Avoids (named first.name) second.name := by
  intro text hsecond
  rw [Bool.eq_false_iff]
  intro hfirst
  obtain ⟨candidate, hcandidate, hsecond⟩ := (Option.any_eq_true _ _).mp hsecond
  obtain ⟨candidate', hcandidate', hfirst⟩ := (Option.any_eq_true _ _).mp hfirst
  obtain rfl : candidate = candidate' := by
    rw [hcandidate] at hcandidate'
    exact Option.some.inj hcandidate'
  rw [eqIgnoreAsciiCase, beq_iff_eq] at hfirst hsecond
  have hnames := hfirst.symm.trans hsecond
  revert hnames
  cases first with
  | Keywords =>
    cases second with
    | Keywords => exact absurd rfl h
    | XLabel => decide
    | XKeywords => decide
  | XLabel =>
    cases second with
    | Keywords => decide
    | XLabel => exact absurd rfl h
    | XKeywords => decide
  | XKeywords =>
    cases second with
    | Keywords => decide
    | XLabel => decide
    | XKeywords => exact absurd rfl h

/-- The keyword headers of a list of fields: none for the empty set, and otherwise each one once,
with the joined keywords as its value. -/
def Synchronized (lineEnding : LineEnding) (keywords : List String) (fields : List Bytes) : Prop :=
  ∀ field ∈ KeywordField.all,
    (keywords = [] → fields.filter (named field.name) = []) ∧
    (keywords ≠ [] → ∃ text, makeField field.name (joinKeywords keywords) lineEnding = .ok text ∧
      fields.filter (named field.name) = [text])

theorem synchronized_setAll {allow : Nat → Except HeaderEditError Unit} {lineEnding : LineEnding}
    {keywords : List String} {fields result : List Bytes}
    (h : setAll allow lineEnding
      (KeywordField.all.map fun field => (field.name, joinKeywords keywords)) fields = .ok result) :
    ∀ field ∈ KeywordField.all,
      ∃ text, makeField field.name (joinKeywords keywords) lineEnding = .ok text ∧
        result.filter (named field.name) = [text] := by
  have hpairs : (KeywordField.all.map fun field => (field.name, joinKeywords keywords)).Pairwise
      fun first second => FieldList.Avoids (named first.1) second.1 := by
    rw [List.pairwise_map]
    have hdistinct : KeywordField.all.Pairwise (· ≠ ·) := by decide
    exact hdistinct.imp fun hne => avoids_keyword hne
  intro field hfield
  have hmem : (field.name, joinKeywords keywords) ∈
      KeywordField.all.map fun field => (field.name, joinKeywords keywords) :=
    List.mem_map.mpr ⟨field, hfield, rfl⟩
  have hset := filter_setAll_named hpairs h (field.name, joinKeywords keywords) hmem
  exact hset

theorem synchronized_keywords {allow : Nat → Except HeaderEditError Unit} {lineEnding : LineEnding}
    {mode : HeaderKeywordsMode} {fields result : List Bytes}
    (h : FieldList.keywords allow lineEnding mode fields = .ok result) :
    KeywordSet (mode.synchronize (collected (fields.map fieldFromBytes))) ∧
      Synchronized lineEnding (mode.synchronize (collected (fields.map fieldFromBytes))) result := by
  obtain ⟨keywords, hafter, h⟩ := bind_eq_ok h
  obtain ⟨hkeywords, hset⟩ := keywordsAfter_eq_ok hafter
  rw [← hkeywords]
  refine ⟨hset, fun field hfield => ?_⟩
  split_ifs at h with hempty
  · obtain rfl := Except.ok.inj h
    rw [List.isEmpty_iff] at hempty
    refine ⟨fun _ => ?_, fun hne => absurd hempty hne⟩
    exact filter_removeAll_named (List.mem_map_of_mem hfield) fields
  · rw [List.isEmpty_iff] at hempty
    refine ⟨fun hnil => absurd hnil hempty, fun _ => ?_⟩
    exact synchronized_setAll h field hfield

/-! ### Collecting them again -/

/-- A generated keyword field holds the joined keywords and nothing else, and fits on a line. -/
theorem makeField_joinKeywords {field : KeywordField} {keywords : List String}
    {lineEnding : LineEnding} {text : Bytes} (hne : keywords ≠ [])
    (hset : KeywordSet keywords)
    (h : makeField field.name (joinKeywords keywords) lineEnding = .ok text) :
    (fieldFromBytes text).value =
        some (SP :: (strBytes (joinKeywords keywords) ++ lineEnding.bytes)) ∧
      keywordsIn KeywordField.all (fieldFromBytes text) = keywords ∧
      3 * keywords.length ≤ rfc5322HeaderLineLimit := by
  obtain ⟨encoding, hvalid, hserialize⟩ := bind_eq_ok (makeField_eq_ok h)
  obtain ⟨-, hplain, hencoded⟩ := validateGeneratedHeaderValue_spec hvalid
  have hascii := isAsciiValue_joinKeywords hset.2
  cases encoding with
  | Rfc2047 =>
    rw [hencoded rfl] at hascii
    cases hascii
  | Ascii =>
    obtain ⟨-, rfl, -⟩ := lines_serializeAscii hserialize hvalid
    have hvalue := value_fieldFromBytes field.name
      (SP :: (strBytes (joinKeywords keywords) ++ lineEnding.bytes))
    refine ⟨hvalue, ?_, ?_⟩
    · have hname : (fieldFromBytes (field.name.canonical ++ COLON ::
          (SP :: (strBytes (joinKeywords keywords) ++ lineEnding.bytes)))).name =
          some field.name.canonical := fieldName_append field.name.canonical_valid
      have hwanted : (KeywordField.all.any fun keyword =>
          eqIgnoreAsciiCase field.name.canonical keyword.name.bytes) = true := by
        rw [List.any_eq_true]
        refine ⟨field, ?_, field.name.eqIgnoreAsciiCase_canonical⟩
        cases field <;> decide
      have htokens : keywordTokens (SP :: (strBytes (joinKeywords keywords) ++ lineEnding.bytes)) =
          keywords.map strBytes := by
        rw [← keywordTokens_joinKeywords hne hset.2 lineEnding]
        exact tokensBy_separator (by decide) _
      show keywordsIn KeywordField.all (fieldFromBytes (field.name.canonical ++ COLON ::
        (SP :: (strBytes (joinKeywords keywords) ++ lineEnding.bytes)))) = keywords
      rw [keywordsIn, hname, hvalue]
      simp only [hwanted, if_true, htokens]
      exact validKeywords_map_strBytes hset.2
    · have hlength := length_joinKeywords hset.2
      have hline := (hplain rfl).2
      omega

/-- A field without one of the names holds no keyword. -/
theorem keywordsIn_eq_nil {text : Bytes}
    (h : ∀ field ∈ KeywordField.all, named field.name text = false) :
    keywordsIn KeywordField.all (fieldFromBytes text) = [] := by
  rw [keywordsIn]
  split
  · rename_i name value hname hvalue
    split_ifs with hwanted
    · obtain ⟨field, hfield, heq⟩ := List.any_eq_true.mp hwanted
      have hnamed : named field.name text = true := by
        rw [named, HeaderStore.entryMatches, hname]
        exact heq
      rw [h field hfield] at hnamed
      cases hnamed
    · rfl
  · rfl

/-- What three filters leave covers what every element gives. -/
theorem length_flatMap_le {α β : Type*} {f : α → List β} {p q r : α → Bool} {l : List α}
    (h : ∀ x ∈ l, f x ≠ [] → p x = true ∨ q x = true ∨ r x = true) :
    (l.flatMap f).length ≤ ((l.filter p).flatMap f).length + ((l.filter q).flatMap f).length +
      ((l.filter r).flatMap f).length := by
  induction l with
  | nil => simp
  | cons x l ih =>
    have hrest := ih fun y hy => h y (by simp [hy])
    have hcons : ∀ p : α → Bool, (((x :: l).filter p).flatMap f).length =
        (if p x then (f x).length else 0) + ((l.filter p).flatMap f).length := by
      intro p
      by_cases hp : p x = true
      · rw [List.filter_cons_of_pos hp, if_pos hp, List.flatMap_cons, List.length_append]
      · rw [List.filter_cons_of_neg hp, if_neg hp, Nat.zero_add]
    rw [List.flatMap_cons, List.length_append, hcons, hcons, hcons]
    by_cases hempty : f x = []
    · rw [hempty, List.length_nil]
      split_ifs <;> omega
    · rcases h x (by simp) hempty with hp | hp | hp
      · rw [if_pos hp]
        omega
      · rw [if_pos hp]
        omega
      · rw [if_pos hp]
        omega

theorem Synchronized.collectKeywords {lineEnding : LineEnding} {keywords : List String}
    {fields : List Bytes} (h : Synchronized lineEnding keywords fields)
    (hset : KeywordSet keywords) :
    ProcmailRs.collectKeywords (fields.map fieldFromBytes) KeywordField.all = .ok keywords := by
  have hall : allKeywords KeywordField.all (fields.map fieldFromBytes) =
      fields.flatMap fun text => keywordsIn KeywordField.all (fieldFromBytes text) := by
    rw [allKeywords, List.flatMap_map]
  rw [collectKeywords_eq, hall]
  by_cases hempty : keywords = []
  · have hnone : (fields.flatMap fun text => keywordsIn KeywordField.all (fieldFromBytes text)) = [] := by
      rw [List.flatMap_eq_nil_iff]
      intro text htext
      refine keywordsIn_eq_nil fun field hfield => ?_
      have hfilter := (h field hfield).1 hempty
      rw [List.filter_eq_nil_iff] at hfilter
      simpa using hfilter text htext
    rw [hnone, hempty]
    rfl
  · have hcopies : ∀ text ∈ fields,
        keywordsIn KeywordField.all (fieldFromBytes text) = keywords ∨
          keywordsIn KeywordField.all (fieldFromBytes text) = [] := by
      intro text htext
      by_cases hnamed : ∃ field ∈ KeywordField.all, named field.name text = true
      · obtain ⟨field, hfield, hnamed⟩ := hnamed
        obtain ⟨generated, hmake, hfilter⟩ := (h field hfield).2 hempty
        have hmem : text ∈ fields.filter (named field.name) := List.mem_filter.mpr ⟨htext, hnamed⟩
        rw [hfilter, List.mem_singleton] at hmem
        rw [hmem]
        exact Or.inl (makeField_joinKeywords hempty hset hmake).2.1
      · refine Or.inr (keywordsIn_eq_nil fun field hfield => ?_)
        rw [Bool.eq_false_iff]
        exact fun hnamed' => hnamed ⟨field, hfield, hnamed'⟩
    have hsingle : ∀ field ∈ KeywordField.all, ((fields.filter (named field.name)).flatMap
        fun text => keywordsIn KeywordField.all (fieldFromBytes text)) = keywords ∧
          3 * keywords.length ≤ rfc5322HeaderLineLimit := by
      intro field hfield
      obtain ⟨generated, hmake, hfilter⟩ := (h field hfield).2 hempty
      obtain ⟨-, hin, hline⟩ := makeField_joinKeywords hempty hset hmake
      rw [hfilter, List.flatMap_singleton, hin]
      exact ⟨rfl, hline⟩
    have hsome : ∃ text ∈ fields, keywordsIn KeywordField.all (fieldFromBytes text) = keywords := by
      obtain ⟨generated, hmake, hfilter⟩ := (h .Keywords (by decide)).2 hempty
      have hmem : generated ∈ fields.filter (named KeywordField.Keywords.name) := by
        rw [hfilter]
        exact List.mem_singleton_self generated
      exact ⟨generated, List.mem_of_mem_filter hmem, (makeField_joinKeywords hempty hset hmake).2.1⟩
    have hlength := length_flatMap_le (p := named KeywordField.Keywords.name)
      (q := named KeywordField.XLabel.name) (r := named KeywordField.XKeywords.name) (l := fields)
      (f := fun text => keywordsIn KeywordField.all (fieldFromBytes text)) (by
        intro text _ hne
        by_contra hnone
        simp only [not_or, Bool.not_eq_true] at hnone
        refine hne (keywordsIn_eq_nil fun field _ => ?_)
        cases field with
        | Keywords => exact hnone.1
        | XLabel => exact hnone.2.1
        | XKeywords => exact hnone.2.2)
    rw [(hsingle .Keywords (by decide)).1, (hsingle .XLabel (by decide)).1,
      (hsingle .XKeywords (by decide)).1] at hlength
    have hline := (hsingle .Keywords (by decide)).2
    rw [rfc5322HeaderLineLimit] at hline
    rw [if_pos (by rw [maxStructuredHeaderValues]; omega),
      eraseDups_flatMap_of_copies hset.1 hcopies hsome]

/-! ### Sequences of operations -/

/-- The fields that are not keyword headers. -/
def otherField (text : Bytes) : Bool := !(KeywordField.all.any fun field => named field.name text)

theorem avoids_otherField {name : HeaderName}
    (h : name ∈ KeywordField.all.map KeywordField.name) : FieldList.Avoids otherField name := by
  intro text hnamed
  obtain ⟨field, hfield, rfl⟩ := List.mem_map.mp h
  have hany : (KeywordField.all.any fun field => named field.name text) = true :=
    List.any_eq_true.mpr ⟨field, hfield, hnamed⟩
  rw [otherField, hany]
  rfl

/-- What a sequence of operations makes of the keywords that are present. -/
def synchronizeAll (modes : List HeaderKeywordsMode) (present : List String) : List String :=
  modes.foldl (fun present mode => mode.synchronize present) present

/-- Every operation starts from the set the one before it left. -/
theorem synchronized_run {allow : Nat → Except HeaderEditError Unit} {lineEnding : LineEnding}
    {mode : HeaderKeywordsMode} {modes : List HeaderKeywordsMode} {fields result : List Bytes}
    (h : (mode :: modes).foldlM
      (fun fields mode => FieldList.keywords allow lineEnding mode fields) fields = .ok result) :
    KeywordSet (synchronizeAll (mode :: modes) (collected (fields.map fieldFromBytes))) ∧
      Synchronized lineEnding
        (synchronizeAll (mode :: modes) (collected (fields.map fieldFromBytes))) result ∧
      result.filter otherField = fields.filter otherField := by
  induction modes generalizing mode fields with
  | nil =>
    obtain ⟨next, hmode, h⟩ := bind_eq_ok h
    obtain rfl : next = result := Except.ok.inj h
    obtain ⟨hset, hsync⟩ := synchronized_keywords hmode
    exact ⟨hset, hsync, filter_keywords (fun _ hname => avoids_otherField hname) hmode⟩
  | cons second modes ih =>
    obtain ⟨next, hmode, h⟩ := bind_eq_ok h
    obtain ⟨hset, hsync⟩ := synchronized_keywords hmode
    have hcollected : collected (next.map fieldFromBytes) =
        mode.synchronize (collected (fields.map fieldFromBytes)) := by
      rw [collected, hsync.collectKeywords hset]
      rfl
    obtain ⟨hset', hsync', hother⟩ := ih h
    rw [hcollected] at hset' hsync'
    refine ⟨hset', hsync', hother.trans ?_⟩
    exact filter_keywords (fun _ hname => avoids_otherField hname) hmode

/-- A header while an action on a message edits it, after any of its operations. -/
inductive EditedHeader.UnderEdit (limits : MessageLimits) (header : Bytes) : EditedHeader → Prop
  | start {view : HeaderView} {origin : EditedHeader}
      (h : HeaderView.Reachable limits header view)
      (hnew : EditedHeader.new view limits = .ok origin) : UnderEdit limits header origin
  | step {state next : AppliedHeaderAction} {operation : HeaderOperation}
      {lineEnding : LineEnding} (h : UnderEdit limits header state.header)
      (hstep : applyOperation lineEnding state operation = .ok next) :
      UnderEdit limits header next.header

theorem EditedHeader.UnderEdit.represents {limits : MessageLimits} {header : Bytes}
    (hsection : HeaderSection limits header) {edited : EditedHeader}
    (h : EditedHeader.UnderEdit limits header edited) :
    ∃ origin status fields, EditedHeader.Represents origin status edited fields := by
  induction h with
  | start hview hnew =>
    obtain ⟨origin, status, fields, hnew', hrep, -⟩ :=
      HeaderView.start hsection (hview.reached hsection)
    obtain rfl := Except.ok.inj (hnew.symm.trans hnew')
    exact ⟨_, status, fields, hrep⟩
  | @step state next operation lineEnding _ hstep ih =>
    obtain ⟨origin, status, fields, hrep⟩ := ih
    have hstate : AppliedHeaderAction.Represents origin state ⟨fields, status, state.extractions⟩ :=
      ⟨hrep, rfl⟩
    have hrefines := hstate.applyOperation lineEnding operation
    rw [hstep] at hrefines
    obtain ⟨final, -, hfinal⟩ := hrefines.exists_of_ok
    exact ⟨origin, final.status, final.fields, hfinal.header⟩

/-- Any sequence of keyword operations on a header, whatever edited it before, leaves the set that
the documented operations give, each keyword header once with this set as its value or none of them,
and all other fields as they were. -/
theorem keyword_operations_synchronize {reader rest : Reader} {limits : MessageLimits}
    {head : MessageHead} (haccepted : Message.readHeaders reader limits = .ok (head, rest))
    {edited result : EditedHeader} (hedited : EditedHeader.UnderEdit limits head.asBytes edited)
    {lineEnding : LineEnding} {mode : HeaderKeywordsMode} {modes : List HeaderKeywordsMode}
    (h : (mode :: modes).foldlM (fun header mode => header.applyKeywords mode lineEnding) edited =
      .ok result) :
    ∃ keywords, keywords =
        synchronizeAll (mode :: modes) (collected edited.storage.store.entries) ∧
      collectKeywords result.storage.store.entries KeywordField.all = .ok keywords ∧
      (∀ field ∈ KeywordField.all,
        (keywords = [] →
          result.storage.store.entries.filter (HeaderStore.entryMatches field.name.bytes) = []) ∧
        (keywords ≠ [] → ∃ entry,
          result.storage.store.entries.filter (HeaderStore.entryMatches field.name.bytes) = [entry] ∧
          entry.value = some (SP :: (strBytes (joinKeywords keywords) ++ lineEnding.bytes)))) ∧
      (result.storage.store.entries.map Field.bytes).filter otherField =
        (edited.storage.store.entries.map Field.bytes).filter otherField := by
  obtain ⟨hheader, -, hsize⟩ := Message.readHeaders_eq_ok haccepted
  rw [hheader] at hsize hedited
  have hsection := headerSection_sectionLines reader.content hsize
  obtain ⟨origin, status, fields, hrep⟩ := hedited.represents hsection
  have hrefines : Refines (EditedHeader.Represents origin status)
      ((mode :: modes).foldlM (fun header mode => header.applyKeywords mode lineEnding) edited)
      ((mode :: modes).foldlM (fun fields mode =>
        FieldList.keywords (EditedHeader.allowance origin.ceiling) lineEnding mode fields) fields) :=
    Refines.foldlM hrep fun _ _ h mode _ => h.applyKeywords mode lineEnding
  rw [h] at hrefines
  obtain ⟨after, hrun, hafter⟩ := hrefines.exists_of_ok
  obtain ⟨hset, hsync, hother⟩ := synchronized_run hrun
  refine ⟨_, rfl, ?_, ?_, ?_⟩
  · rw [hafter.entries, hrep.entries]
    exact hsync.collectKeywords hset
  · rw [hafter.entries, hrep.entries]
    intro field hfield
    have hfilter : (after.map fieldFromBytes).filter (HeaderStore.entryMatches field.name.bytes) =
        (after.filter (named field.name)).map fieldFromBytes := by
      rw [List.filter_map]
      rfl
    rw [hfilter]
    refine ⟨fun hempty => ?_, fun hne => ?_⟩
    · rw [(hsync field hfield).1 hempty]
      rfl
    · obtain ⟨text, hmake, hsingle⟩ := (hsync field hfield).2 hne
      rw [hsingle]
      exact ⟨fieldFromBytes text, rfl, (makeField_joinKeywords hne hset hmake).1⟩
  · rw [hafter.entries, hrep.entries, List.map_map, List.map_map]
    have hbytes : Field.bytes ∘ fieldFromBytes = id := rfl
    rw [hbytes, List.map_id, List.map_id]
    exact hother

theorem keyword_operations_synchronize_add :
    ∃ origin result,
      EditedHeader.new (.Raw (strBytes "Keywords: b\n\n")) ⟨100, 100, 100, 100, 100⟩ = .ok origin ∧
        [.Add ⟨"a b"⟩].foldlM (fun header mode => EditedHeader.applyKeywords header mode .Lf) origin =
          .ok result ∧
        collectKeywords result.storage.store.entries KeywordField.all = .ok ["b", "a"] := by
  obtain ⟨⟨head, rest⟩, haccepted⟩ : ∃ result, Message.readHeaders
      (Reader.cursor (strBytes "Keywords: b\n\nhi")) ⟨100, 100, 100, 100, 100⟩ = .ok result :=
    ⟨_, rfl⟩
  have hbytes : head.asBytes = strBytes "Keywords: b\n\n" := by
    obtain ⟨rfl, -⟩ := Prod.mk.inj (Except.ok.inj haccepted)
    rfl
  obtain ⟨origin, hnew⟩ : ∃ origin, EditedHeader.new (.Raw (strBytes "Keywords: b\n\n"))
      ⟨100, 100, 100, 100, 100⟩ = .ok origin := ⟨_, rfl⟩
  have hcollected : collected origin.storage.store.entries = ["b"] := by
    obtain rfl := Except.ok.inj hnew
    decide +kernel
  obtain ⟨result, hresult⟩ : ∃ result, [.Add ⟨"a b"⟩].foldlM
      (fun header mode => EditedHeader.applyKeywords header mode .Lf) origin = .ok result := by
    obtain rfl := Except.ok.inj hnew
    exact ⟨_, rfl⟩
  have hreached : HeaderView.Reachable ⟨100, 100, 100, 100, 100⟩ head.asBytes
      (.Raw (strBytes "Keywords: b\n\n")) := by
    rw [← hbytes]
    exact HeaderView.Reachable.raw
  obtain ⟨keywords, hkeywords, hcollect, -⟩ := keyword_operations_synchronize haccepted
    (EditedHeader.UnderEdit.start hreached hnew) hresult
  refine ⟨origin, result, hnew, hresult, ?_⟩
  rw [hcollect, hkeywords, hcollected]
  decide +kernel

end ProcmailRs
