import ProcmailRs.HeaderEdit.FieldList
import ProcmailRs.HeaderEdit.Proofs.StorageProofs
import ProcmailRs.Proofs.HeaderValueProofs

/-!
# Editing in the arena is editing the list of fields

While an action runs, the edited header represents a list of fields. Every operation of the source
agrees with the documented operation on that list, both in its result and in its error, when the
list may grow up to the header's ceiling.
-/

namespace ProcmailRs

open FieldList

/-! ### Generated texts -/

theorem makeField_eq_ok {name : HeaderName} {value : String} {lineEnding : LineEnding}
    {field : Bytes} (h : makeField name value lineEnding = .ok field) :
    serializeGeneratedHeader name.text value lineEnding = .ok field := by
  simp only [makeField] at h
  split at h
  · rename_i heq
    rw [heq, Except.ok.inj h]
  all_goals cases h

theorem makeField_ne_nil {name : HeaderName} {value : String} {lineEnding : LineEnding}
    {field : Bytes} (h : makeField name value lineEnding = .ok field) : field ≠ [] :=
  (serializeGeneratedHeader_spec (makeField_eq_ok h)).1.ne_nil

/-- The text of a renamed field: the new name in front of everything behind the old one. -/
theorem renameField_eq_ok {text renamed : Bytes} {name : HeaderName}
    (h : renameField (fieldFromBytes text) name = .ok renamed) :
    renamed = name.canonical ++
      ((fieldName text).map fun old => text.drop old.length).getD [] := by
  obtain ⟨_, -, h⟩ := bind_eq_ok h
  exact (Except.ok.inj h).symm

theorem renameField_ne_nil {text renamed : Bytes} {name : HeaderName}
    (h : renameField (fieldFromBytes text) name = .ok renamed) : renamed ≠ [] := by
  rw [renameField_eq_ok h]
  simp [name.canonical_ne_nil]

/-! ### The list -/

namespace FieldList

@[simp] theorem size_append (l r : List Bytes) : size (l ++ r) = size l + size r := by
  simp [size]

@[simp] theorem size_cons (text : Bytes) (rest : List Bytes) :
    size (text :: rest) = text.length + size rest := by
  simp [size]

theorem size_insertIdx {l : List Bytes} {i : Nat} (hi : i ≤ l.length) (text : Bytes) :
    size (l.insertIdx i text) = size l + text.length := by
  rw [size, ((List.perm_insertIdx text l hi).map List.length).sum_eq]
  simp [size, Nat.add_comm]

theorem insertIdx_append_length (l r : List Bytes) (text : Bytes) :
    (l ++ r).insertIdx l.length text = l ++ text :: r := by
  induction l with
  | nil => rfl
  | cons a l ih => rw [List.cons_append, List.length_cons, List.insertIdx_succ_cons, ih]; rfl

theorem remove_eq_self {name : HeaderName} {l : List Bytes} (h : l.any (named name) = false) :
    remove name l = l := by
  rw [remove, List.filter_eq_self]
  intro text ht
  have := List.any_eq_false.mp h text ht
  simpa using this

/-- Where `set` puts its field: at the first match, else at the end. -/
def replacePosition (name : HeaderName) (l : List Bytes) : Nat :=
  (l.findIdx? (named name)).getD l.length

theorem replacePosition_cons_of_not {name : HeaderName} {text : Bytes} {rest : List Bytes}
    (h : named name text = false) :
    replacePosition name (text :: rest) = replacePosition name rest + 1 := by
  simp only [replacePosition, List.findIdx?_cons, h]
  cases rest.findIdx? (named name) <;> simp

theorem remove_cons_of_not {name : HeaderName} {text : Bytes} {rest : List Bytes}
    (h : named name text = false) : remove name (text :: rest) = text :: remove name rest := by
  simp [remove, h]

/-- Replacing is removing every match and inserting at the place of the first one. -/
theorem replace_eq_insertIdx (name : HeaderName) (replacement : Bytes) (l : List Bytes) :
    replace name replacement l = (remove name l).insertIdx (replacePosition name l) replacement := by
  induction l with
  | nil => rfl
  | cons text rest ih =>
    by_cases hn : named name text = true
    · simp [replace, remove, replacePosition, List.findIdx?_cons, hn]
    · rw [replace, if_neg hn, ih]
      rw [Bool.not_eq_true] at hn
      rw [replacePosition_cons_of_not hn, remove_cons_of_not hn, List.insertIdx_succ_cons]

theorem replacePosition_le (name : HeaderName) (l : List Bytes) :
    replacePosition name l ≤ (remove name l).length := by
  induction l with
  | nil => simp [replacePosition]
  | cons text rest ih =>
    by_cases hn : named name text = true
    · simp [replacePosition, List.findIdx?_cons, hn]
    · rw [Bool.not_eq_true] at hn
      rw [replacePosition_cons_of_not hn, remove_cons_of_not hn, List.length_cons]
      omega

/-- A field that is already as wanted, and the only one of its name, stays. -/
theorem replace_eq_self {name : HeaderName} {replacement : Bytes} {l : List Bytes}
    (h : l.filter (named name) = [replacement]) : replace name replacement l = l := by
  induction l with
  | nil => simp at h
  | cons text rest ih =>
    by_cases hn : named name text = true
    · rw [List.filter_cons, if_pos hn, List.cons.injEq] at h
      obtain ⟨rfl, hrest⟩ := h
      rw [replace, if_pos hn, remove_eq_self]
      rw [List.any_eq_false]
      exact List.filter_eq_nil_iff.mp hrest
    · rw [List.filter_cons, if_neg hn] at h
      rw [replace, if_neg hn, ih h]

end FieldList

/-! ### The edited header -/

namespace EditedHeader

/-- How far the fields of the header may grow while an action runs. -/
def ceiling (header : EditedHeader) : Nat := max header.len header.limits.headersSize

/-- Growth up to a ceiling is allowed. -/
def allowance (ceiling size : Nat) : Except HeaderEditError Unit :=
  checkLimit size ceiling .Headers

/-- A header during an action that started from `origin`: the arena is in order and below the
ceiling, the parts that operations do not change are those of `origin`, and a header that still
shares its storage is `origin` itself. -/
structure Editing (origin header : EditedHeader) : Prop where
  wf : header.storage.store.Wf
  room : header.storage.store.bytes.length ≤ origin.ceiling
  separator : header.storage.separator = origin.storage.separator
  lineEnding : header.storage.lineEnding = origin.storage.lineEnding
  size : header.storage.size = origin.storage.size
  limits : header.limits = origin.limits
  caches : header.unique = true → header.storage.raw = none ∧ header.storage.matching = none
  shared : header.unique = false → header = origin

/-- During an action that started from `origin`, the header stands for a list of fields and the
marks of the message. -/
structure Represents (origin : EditedHeader) (status : MessageStatus) (header : EditedHeader)
    (fields : List Bytes) : Prop where
  editing : Editing origin header
  texts : header.texts = fields
  status : header.status = status

variable {origin header : EditedHeader} {status : MessageStatus} {fields : List Bytes}

theorem Represents.fields_length (h : Represents origin status header fields) :
    header.storage.store.fields.length = fields.length := by
  rw [← HeaderStore.length_texts, ← h.texts]
  rfl

theorem Represents.entries (h : Represents origin status header fields) :
    header.storage.store.entries = fields.map fieldFromBytes := by
  rw [h.editing.wf.entries, ← h.texts]
  rfl

theorem Represents.size_le (h : Represents origin status header fields) :
    FieldList.size fields ≤ origin.ceiling := by
  have hlive := h.editing.wf.liveSize_add_free
  have hroom := h.editing.room
  rw [← h.texts]
  show header.storage.store.liveSize ≤ _
  omega

theorem Represents.storeMut (h : Represents origin status header fields) :
    Represents origin status header.storeMut fields ∧
      header.storeMut.storage.store.ceiling = origin.ceiling ∧ header.storeMut.unique = true := by
  obtain ⟨hwf, hroom, hsep, hle, hsize, hlim, hcache, hshared⟩ := h.editing
  have hceil : max header.len header.limits.headersSize = origin.ceiling := by
    rw [ceiling, len, len, hsize, hlim]
  simp only [EditedHeader.storeMut, makeMut]
  split_ifs with hunique
  · refine ⟨⟨⟨⟨hwf.1, hwf.2⟩, hroom, hsep, hle, hsize, hlim, hcache, ?_⟩, h.texts, h.status⟩,
      hceil, hunique⟩
    intro hfalse
    simp [hunique] at hfalse
  · exact ⟨⟨⟨⟨hwf.1, hwf.2⟩, hroom, hsep, hle, hsize, hlim, fun _ => ⟨rfl, rfl⟩,
      fun hfalse => by cases hfalse⟩, h.texts, h.status⟩, hceil, rfl⟩

/-- Another arena in a private header. -/
theorem Represents.withStore (h : Represents origin status header fields)
    (hunique : header.unique = true) {store : HeaderStore} (hwf : store.Wf)
    (hroom : store.bytes.length ≤ origin.ceiling) :
    Represents origin status (header.withStore store) store.texts := by
  obtain ⟨-, -, hsep, hle, hsize, hlim, hcache, -⟩ := h.editing
  refine ⟨⟨hwf, hroom, hsep, hle, hsize, hlim, hcache, fun hfalse => ?_⟩, rfl, h.status⟩
  exact absurd (show header.unique = false from hfalse) (by simp [hunique])

theorem Represents.insert (h : Represents origin status header fields) {index : Nat} {text : Bytes}
    (hindex : index ≤ fields.length) (htext : text ≠ []) :
    Refines (Represents origin status) (header.insert index text)
      (grown (allowance origin.ceiling) (fields.insertIdx index text)) := by
  obtain ⟨hmut, hceil, hunique⟩ := h.storeMut
  set editor := header.storeMut with heditor
  have hstore : editor.storage.store.texts = fields := hmut.texts
  have hlive : editor.storage.store.liveSize = FieldList.size fields := by rw [← hstore]; rfl
  have hsize : FieldList.size (fields.insertIdx index text) =
      FieldList.size fields + text.length := size_insertIdx hindex text
  have hindex' : index ≤ editor.storage.store.fields.length := by
    rw [hmut.fields_length]
    exact hindex
  rcases hmut.editing.wf.insert_cases hindex' htext with
    ⟨result, hres, hwf, htexts, -, hlen⟩ | ⟨result, hres, -, -, hlimit⟩
  · have hroom : result.bytes.length ≤ origin.ceiling := by
      rw [hceil] at hlen
      have := hmut.editing.room
      omega
    have hrep := hmut.withStore hunique hwf hroom
    rw [htexts, hstore] at hrep
    have hfit : FieldList.size (fields.insertIdx index text) ≤ origin.ceiling := hrep.size_le
    simp only [EditedHeader.insert, ← heditor, hres, grown, allowance, checkLimit,
      if_neg (Nat.not_lt.mpr hfit)]
    exact .ok hrep
  · rw [hceil] at hres hlimit
    have hover : FieldList.size (fields.insertIdx index text) > origin.ceiling := by omega
    simp only [EditedHeader.insert, ← heditor, hres, grown, allowance, checkLimit, if_pos hover]
    exact .error _

theorem Represents.removeMatching (h : Represents origin status header fields)
    (name : HeaderName) :
    Represents origin status (header.removeMatching name.bytes) (remove name fields) := by
  have hany : header.hasMatching name.bytes = fields.any (named name) := by
    rw [hasMatching, h.entries, List.any_map]
    rfl
  rw [EditedHeader.removeMatching, hany]
  split_ifs with hmatch
  · obtain ⟨hmut, -, hunique⟩ := h.storeMut
    obtain ⟨hwf, htexts, -, hlen⟩ := hmut.editing.wf.removeMatching name.bytes
    have hrep := hmut.withStore hunique hwf (hlen.trans hmut.editing.room)
    rw [htexts] at hrep
    have hstore : header.storeMut.storage.store.texts = fields := hmut.texts
    rw [hstore] at hrep
    exact hrep
  · rw [Bool.not_eq_true] at hmatch
    rw [remove_eq_self hmatch]
    exact h

theorem Represents.setField (h : Represents origin status header fields) (name : HeaderName)
    (value : String) (lineEnding : LineEnding) :
    Refines (Represents origin status) (header.setField name value lineEnding)
      (FieldList.set (allowance origin.ceiling) lineEnding name value fields) := by
  rw [EditedHeader.setField, FieldList.set]
  refine (Refines.refl (makeField name value lineEnding)).bind fun replacement _ hmake => ?_
  obtain ⟨hmake, rfl⟩ := hmake
  have hfilter : (header.storage.store.entries.filter
      (HeaderStore.entryMatches name.bytes)).map Field.bytes = fields.filter (named name) := by
    rw [h.entries, List.filter_map, List.map_map]
    exact List.map_id' _
  have hfirst : (header.storage.store.entries.findIdx?
      (HeaderStore.entryMatches name.bytes)).getD fields.length = replacePosition name fields := by
    rw [h.entries, List.findIdx?_map]
    rfl
  simp only [hfilter]
  split_ifs with hsame
  · rw [replace_eq_self (by simpa using hsame), grown, allowance, checkLimit,
      if_neg (Nat.not_lt.mpr h.size_le)]
    exact .ok h
  · obtain ⟨hmut, -, hunique⟩ := h.storeMut
    obtain ⟨hwf, htexts, -, hlen⟩ := hmut.editing.wf.removeMatching name.bytes
    have hrep := hmut.withStore hunique hwf (hlen.trans hmut.editing.room)
    have hstore : header.storeMut.storage.store.texts = fields := hmut.texts
    rw [htexts, hstore] at hrep
    rw [hmut.fields_length, hfirst, replace_eq_insertIdx]
    exact hrep.insert (replacePosition_le name fields) (makeField_ne_nil hmake)

theorem Represents.setFields (h : Represents origin status header fields)
    (values : List (HeaderName × String)) (lineEnding : LineEnding) :
    Refines (Represents origin status) (header.setFields values lineEnding)
      (setAll (allowance origin.ceiling) lineEnding values fields) :=
  Refines.foldlM h fun _ _ h value _ => h.setField value.1 value.2 lineEnding

theorem Represents.removeFields (h : Represents origin status header fields)
    (names : List HeaderName) :
    Represents origin status (header.removeFields names) (removeAll names fields) := by
  induction names generalizing header fields with
  | nil => exact h
  | cons name names ih => exact ih (h.removeMatching name)

theorem Represents.applyKeywords (h : Represents origin status header fields)
    (mode : HeaderKeywordsMode) (lineEnding : LineEnding) :
    Refines (Represents origin status) (header.applyKeywords mode lineEnding)
      (FieldList.keywords (allowance origin.ceiling) lineEnding mode fields) := by
  rw [EditedHeader.applyKeywords, FieldList.keywords, h.entries]
  refine (Refines.refl _).bind fun keywords _ hkeywords => ?_
  obtain ⟨-, rfl⟩ := hkeywords
  split_ifs with hempty
  · exact .ok (h.removeFields _)
  · exact h.setFields _ lineEnding

theorem Represents.applyPriority (h : Represents origin status header fields)
    (mode : HeaderPriorityMode) (lineEnding : LineEnding) :
    Refines (Represents origin status) (header.applyPriority mode lineEnding)
      (FieldList.priority (allowance origin.ceiling) lineEnding mode fields) := by
  rw [EditedHeader.applyPriority, FieldList.priority]
  cases mode.fields with
  | some values => exact h.setFields values lineEnding
  | none => exact .ok (h.removeFields _)

theorem Represents.setOrRemove (h : Represents origin status header fields) (name : HeaderName)
    (value : Option String) (lineEnding : LineEnding) :
    Refines (Represents origin status) (header.setOrRemove name value lineEnding)
      (FieldList.setOrRemove (allowance origin.ceiling) lineEnding name value fields) := by
  cases value with
  | some value => exact h.setField name value lineEnding
  | none => exact .ok (h.removeMatching name)

theorem Represents.setStatus (h : Represents origin status header fields)
    (marks : MessageStatus) : Represents origin marks (header.setStatus marks) fields := by
  obtain ⟨hwf, hroom, hsep, hle, hsize, hlim, hcache, hshared⟩ := h.editing
  simp only [EditedHeader.setStatus, makeMut]
  split_ifs with hdiff hunique
  · refine ⟨⟨hwf, hroom, hsep, hle, hsize, hlim, hcache, fun hfalse => ?_⟩, h.texts, rfl⟩
    simp [hunique] at hfalse
  · exact ⟨⟨hwf, hroom, hsep, hle, hsize, hlim, fun _ => ⟨rfl, rfl⟩, fun hfalse => by cases hfalse⟩,
      h.texts, rfl⟩
  · exact ⟨h.editing, h.texts, not_not.mp hdiff⟩

/-- The field behind the ones already passed is taken out of the arena and another text put in its
place. -/
theorem Represents.replaceAt {passed rest : List Bytes} {text renamed : Bytes}
    (h : Represents origin status header (passed ++ text :: rest)) (hne : renamed ≠ []) :
    Refines (fun header fields => fields = passed ++ renamed :: rest ∧
        Represents origin status header fields)
      (header.replaceAt passed.length (fieldFromBytes text) renamed)
      (grown (allowance origin.ceiling) (passed ++ renamed :: rest)) := by
  have hresult : ∀ fields, grown (allowance origin.ceiling) (passed ++ renamed :: rest) =
      .ok fields → fields = passed ++ renamed :: rest := by
    intro fields hgrown
    obtain ⟨-, -, hok⟩ := bind_eq_ok hgrown
    exact (Except.ok.inj hok).symm
  rw [EditedHeader.replaceAt]
  split_ifs with hdiff
  · obtain ⟨hmut, -, hunique⟩ := h.storeMut
    obtain ⟨hwf, htexts, -, hlen⟩ := hmut.editing.wf.remove passed.length
    have hrep := hmut.withStore hunique hwf (hlen.trans hmut.editing.room)
    have hstore : header.storeMut.storage.store.texts = passed ++ text :: rest := hmut.texts
    have herase : (passed ++ text :: rest).eraseIdx passed.length = passed ++ rest := by
      rw [List.eraseIdx_append_of_length_le le_rfl]
      simp
    rw [htexts, hstore, herase] at hrep
    have hindex : passed.length ≤ (passed ++ rest).length := by simp
    have hinsert := hrep.insert hindex hne
    rw [insertIdx_append_length] at hinsert
    have hboth := hinsert.join (Refines.refl _)
    refine hboth.mono fun header fields ⟨_, hrep, hgrown, heq⟩ => ?_
    subst heq
    exact ⟨hresult _ hgrown, hrep⟩
  · obtain rfl : text = renamed := not_not.mp hdiff
    rw [grown, allowance, checkLimit, if_neg (Nat.not_lt.mpr h.size_le)]
    exact .ok ⟨rfl, h⟩

/-- The loop of a rename over the positions behind the fields already passed. -/
theorem Represents.renameFrom {source target : HeaderName} {passed rest : List Bytes}
    (h : Represents origin status header (passed ++ rest)) :
    Refines (Represents origin status)
      ((List.range' passed.length rest.length).foldlM (EditedHeader.renameAt source target) header)
      (FieldList.rename (allowance origin.ceiling) source target passed rest) := by
  induction rest generalizing header passed with
  | nil =>
    rw [List.append_nil] at h
    exact .ok h
  | cons text rest ih =>
    have hentry : header.storage.store.entries[passed.length]? = some (fieldFromBytes text) := by
      rw [h.entries]
      simp
    have hnext : ∀ {header : EditedHeader} {text : Bytes},
        Represents origin status header (passed ++ text :: rest) →
        Refines (Represents origin status)
          ((List.range' (passed.length + 1) rest.length).foldlM
            (EditedHeader.renameAt source target) header)
          (FieldList.rename (allowance origin.ceiling) source target (passed ++ [text]) rest) := by
      intro header text hrep
      rw [List.append_cons] at hrep
      have := ih hrep
      rwa [List.length_append, List.length_singleton] at this
    rw [List.length_cons, List.range'_succ, List.foldlM_cons, EditedHeader.renameAt, hentry,
      FieldList.rename]
    by_cases hnamed : named source text = true
    · have hmatch : HeaderStore.entryMatches source.bytes (fieldFromBytes text) = true := hnamed
      simp only [if_pos hnamed, if_pos hmatch, bind_assoc]
      refine (Refines.refl (renameField (fieldFromBytes text) target)).bind fun renamed _ hren => ?_
      obtain ⟨hren, rfl⟩ := hren
      refine (h.replaceAt (renameField_ne_nil hren)).bind fun header fields ⟨heq, hrep⟩ => ?_
      exact hnext (heq ▸ hrep)
    · have hmatch : ¬ HeaderStore.entryMatches source.bytes (fieldFromBytes text) = true := hnamed
      simp only [if_neg hnamed, if_neg hmatch]
      exact hnext h

theorem Represents.rename (h : Represents origin status header fields)
    (source target : HeaderName) :
    Refines (Represents origin status)
      ((List.range header.storage.store.fields.length).foldlM
        (EditedHeader.renameAt source target) header)
      (FieldList.rename (allowance origin.ceiling) source target [] fields) := by
  rw [h.fields_length, List.range_eq_range']
  rw [← List.nil_append fields] at h
  exact h.renameFrom

end EditedHeader

open EditedHeader

/-- The state of an action stands for a state of the reference. -/
structure AppliedHeaderAction.Represents (origin : EditedHeader) (applied : AppliedHeaderAction)
    (state : FieldList.State) : Prop where
  header : EditedHeader.Represents origin state.status applied.header state.fields
  extractions : applied.extractions = state.extractions

theorem AppliedHeaderAction.Represents.edited {origin : EditedHeader}
    {applied : AppliedHeaderAction} {state : FieldList.State}
    (h : AppliedHeaderAction.Represents origin applied state)
    {x : Except HeaderEditError EditedHeader} {y : Except HeaderEditError (List Bytes)}
    (hxy : Refines (EditedHeader.Represents origin state.status) x y) :
    Refines (AppliedHeaderAction.Represents origin)
      (x.map fun header => { applied with header := header })
      (y.map fun fields => { state with fields := fields }) :=
  hxy.map fun _ _ hrep => ⟨hrep, h.extractions⟩

/-- One operation of the source agrees with the documented one. -/
theorem AppliedHeaderAction.Represents.applyOperation {origin : EditedHeader}
    {applied : AppliedHeaderAction} {state : FieldList.State}
    (h : AppliedHeaderAction.Represents origin applied state) (lineEnding : LineEnding)
    (operation : HeaderOperation) :
    Refines (AppliedHeaderAction.Represents origin) (applyOperation lineEnding applied operation)
      (FieldList.run (allowance origin.ceiling) lineEnding state operation) := by
  have hheader := h.header
  cases operation with
  | Remove line name => exact h.edited (.ok (hheader.removeMatching name))
  | Set line name value => exact h.edited (hheader.setField name value.source lineEnding)
  | Add line name value =>
    refine h.edited ((Refines.refl (makeField name value.source lineEnding)).bind
      fun field _ hfield => ?_)
    obtain ⟨hfield, rfl⟩ := hfield
    rw [hheader.fields_length]
    have := hheader.insert le_rfl (makeField_ne_nil hfield)
    rwa [List.insertIdx_length_self] at this
  | Prepend line name value =>
    refine h.edited ((Refines.refl (makeField name value.source lineEnding)).bind
      fun field _ hfield => ?_)
    obtain ⟨hfield, rfl⟩ := hfield
    exact hheader.insert (Nat.zero_le _) (makeField_ne_nil hfield)
  | Rename line source target => exact h.edited (hheader.rename source target)
  | Extract line name target mode =>
    simp only [ProcmailRs.applyOperation, FieldList.run, hheader.entries]
    refine (Refines.refl _).bind fun value _ hvalue => ?_
    obtain ⟨-, rfl⟩ := hvalue
    exact .ok ⟨hheader, by rw [h.extractions]⟩
  | Keywords line mode => exact h.edited (hheader.applyKeywords mode lineEnding)
  | Priority line mode => exact h.edited (hheader.applyPriority mode lineEnding)
  | Status line mode =>
    simp only [ProcmailRs.applyOperation, FieldList.run, FieldList.status,
      EditedHeader.applyStatus, hheader.status]
    cases hafter : statusAfter mode state.status with
    | error e => exact .error e
    | ok marks =>
      have hfirst := hheader.setOrRemove MessageStatus.statusName marks.statusHeaderValue lineEnding
      have hboth := hfirst.bind (S := EditedHeader.Represents origin state.status)
        fun _ _ hrep =>
          hrep.setOrRemove MessageStatus.xStatusName marks.xStatusHeaderValue lineEnding
      have hstatus := hboth.bind (S := AppliedHeaderAction.Represents origin)
        (f := fun header => .ok { applied with header := header.setStatus marks })
        (g := fun fields => .ok { state with fields := fields, status := marks })
        fun _ _ hrep => .ok ⟨hrep.setStatus marks, h.extractions⟩
      simpa only [map_eq_bind, bind_assoc, ok_bind] using hstatus

end ProcmailRs
