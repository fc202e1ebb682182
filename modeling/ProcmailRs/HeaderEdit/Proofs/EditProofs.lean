import ProcmailRs.HeaderEdit.Proofs.FieldListProofs
import ProcmailRs.Proofs.HeaderTextProofs

/-!
# A header action refines the editing of a list of fields

`FieldList.applyWithin` is the reference with the limits of the implementation. A header action agrees
with it, in its serialized result, its extractions and its error, whatever the state of the arena it
starts from.
-/

namespace ProcmailRs

open FieldList

/-! ### Serialization -/

theorem flatten_fieldParts (preferred : LineEnding) (previous : Bytes) (fields : List Bytes) :
    previous ++ (fieldParts preferred (some previous) fields).flatten =
      joinFields (fun text => joiningLineEnding text preferred) (previous :: fields) := by
  induction fields generalizing previous with
  | nil => simp [fieldParts, joinFields]
  | cons field rest ih =>
    rw [joinFields, ← ih field]
    simp [fieldParts, joinBetween]

theorem flatten_headerParts (fields : List Bytes) (separator : Bytes) (preferred : LineEnding) :
    (headerParts fields separator preferred).flatten =
      joinFields (fun text => joiningLineEnding text preferred) fields ++ separator := by
  cases fields with
  | nil => simp [headerParts, fieldParts, joinFields]
  | cons field rest =>
    rw [← flatten_fieldParts]
    simp [headerParts, fieldParts]

/-- Fields that stay apart are joined without delimiters. -/
theorem joinFields_of_apart {join : Bytes → LineEnding} {fields : List Bytes}
    (h : needsReindex fields = false) : joinFields join fields = fields.flatten := by
  induction fields with
  | nil => rfl
  | cons text rest ih =>
    cases rest with
    | nil => simp [joinFields]
    | cons next rest =>
      obtain ⟨hterm, -, hrest⟩ := terminated_of_needsReindex h
      rw [joinFields, if_pos (endsWith_LF.mpr hterm), ih hrest]
      rfl

theorem sumSizes_eq_ok {size total : Nat} {parts : List Bytes}
    (h : sumSizes size parts = .ok total) : total = size + parts.flatten.length := by
  induction parts generalizing size with
  | nil =>
    obtain rfl : size = total := Except.ok.inj h
    rfl
  | cons part rest ih =>
    obtain ⟨next, hadd, hrest⟩ := bind_eq_ok h
    have hnext : next = size + part.length := by
      unfold addSize at hadd
      split at hadd
      · cases hadd
      · rename_i c hc
        obtain rfl := Except.ok.inj hadd
        exact (checkedAdd_eq_some.mp hc).2
    rw [ih hrest, hnext, List.flatten_cons, List.length_append, Nat.add_assoc]

/-! ### A fresh index -/

namespace HeaderStore

theorem Wf.insertAll {store : HeaderStore} (h : store.Wf) {fields : List Field}
    (hne : ∀ field ∈ fields, field.bytes ≠ [])
    (hfit : store.liveSize + size (fields.map Field.bytes) ≤ store.ceiling)
    (hroom : store.bytes.length ≤ store.ceiling) :
    ∃ result, store.insertAll fields = .ok result ∧ result.Wf ∧
      result.texts = store.texts ++ fields.map Field.bytes ∧
      result.bytes.length ≤ store.ceiling := by
  induction fields generalizing store with
  | nil => exact ⟨store, rfl, h, by simp, hroom⟩
  | cons field rest ih =>
    have hsize : size ((field :: rest).map Field.bytes) =
        field.bytes.length + size (rest.map Field.bytes) := by simp
    rcases h.insert_cases le_rfl (hne field (by simp)) with
      ⟨next, hnext, hwf, htexts, hceil, hlen⟩ | ⟨next, hnext, -, -, hlimit⟩
    · have htexts' : next.texts = store.texts ++ [field.bytes] := by
        rw [htexts, ← length_texts, List.insertIdx_length_self]
      have hlive : next.liveSize = store.liveSize + field.bytes.length := by
        simp [liveSize, htexts']
      obtain ⟨result, hres, hrwf, hrtexts, hrlen⟩ := ih hwf
        (fun f hf => hne f (by simp [hf])) (by omega) (by omega)
      refine ⟨result, ?_, hrwf, ?_, by omega⟩
      · rw [HeaderStore.insertAll, hnext]
        exact hres
      · rw [hrtexts, htexts']
        simp
    · omega

theorem new_spec {fields : List Field} {ceiling : Nat} (hne : ∀ field ∈ fields, field.bytes ≠ [])
    (hfit : size (fields.map Field.bytes) ≤ ceiling) :
    ∃ store, HeaderStore.new fields ceiling = .ok store ∧ store.Wf ∧
      store.texts = fields.map Field.bytes ∧ store.bytes.length ≤ ceiling := by
  have hempty : HeaderStore.Wf ⟨[], [], [], ceiling⟩ := ⟨Ranges.Partition.nil, by simp⟩
  obtain ⟨store, hstore, hwf, htexts, hlen⟩ := hempty.insertAll hne
    (by simpa [liveSize, texts, entries] using hfit) (Nat.zero_le _)
  have hsum : (fields.map fun field => field.bytes.length).sum ≤ ceiling := by
    simpa [size, Function.comp_def] using hfit
  refine ⟨store, ?_, hwf, by simpa [texts, entries] using htexts, hlen⟩
  simp only [HeaderStore.new, checkLimit, if_neg (Nat.not_lt.mpr hsum)]
  exact hstore

end HeaderStore

theorem map_bytes_rawFields (bytes : Bytes) : (rawFields bytes).map Field.bytes = fieldTexts bytes := by
  simp [rawFields, fieldFromBytes, Function.comp_def]

theorem size_rawFields (bytes : Bytes) :
    FieldList.size ((rawFields (headerContent bytes)).map Field.bytes) =
      (headerContent bytes).length := by
  rw [map_bytes_rawFields, FieldList.size, ← List.length_flatten, (fieldTexts_headerContent_spec bytes).1]

namespace EditedHeader

/-- The index of the header is that of a fresh parse of `bytes`. -/
structure Parsed (bytes : Bytes) (header : EditedHeader) : Prop where
  wf : header.storage.store.Wf
  texts : header.texts = fieldTexts (headerContent bytes)
  separator : header.storage.separator = headerSeparator bytes
  lineEnding : header.storage.lineEnding = preferredLineEnding bytes

/-- Indexing a header succeeds when its content fits. -/
theorem fresh_spec {bytes : Bytes} (limits : MessageLimits) {ceiling : Nat} (size : Nat)
    (status : MessageStatus) (hfit : (headerContent bytes).length ≤ ceiling) :
    ∃ header, fresh bytes limits ceiling size status = .ok header ∧ header.Parsed bytes ∧
      header.storage.store.bytes.length ≤ ceiling ∧ header.storage.size = size ∧
      header.storage.status = status ∧ header.storage.raw = none ∧
      header.storage.matching = none ∧ header.limits = limits ∧ header.unique = true := by
  obtain ⟨-, hfields, -⟩ := fieldTexts_headerContent_spec bytes
  have hne : ∀ field ∈ rawFields (headerContent bytes), field.bytes ≠ [] := by
    intro field hfield
    obtain ⟨text, htext, rfl⟩ := List.mem_map.mp hfield
    exact (hfields text htext).ne_nil
  have hfit' : FieldList.size ((rawFields (headerContent bytes)).map Field.bytes) ≤ ceiling := by
    rw [size_rawFields]
    exact hfit
  obtain ⟨store, hstore, hwf, htexts, hlen⟩ := HeaderStore.new_spec hne hfit'
  rw [map_bytes_rawFields] at htexts
  refine ⟨⟨⟨store, headerSeparator bytes, preferredLineEnding bytes, size, status, none, none⟩,
    limits, true⟩, ?_, ⟨hwf, htexts, rfl, rfl⟩, hlen, rfl, rfl, rfl, rfl, rfl, rfl⟩
  simp only [fresh, splitFields_eq, hstore]
  rfl

/-- A fresh index serializes to the bytes it was made from. -/
theorem Parsed.flatten_parts {bytes : Bytes} {header : EditedHeader} (h : header.Parsed bytes) :
    header.parts.flatten = bytes := by
  obtain ⟨hflat, -, hapart⟩ := fieldTexts_headerContent_spec bytes
  rw [parts, flatten_headerParts, h.texts, h.separator, joinFields_of_apart hapart, hflat,
    headerContent_append_headerSeparator]

end EditedHeader

/-! ### The action -/

namespace FieldList

/-- The validated serialization of a list of fields. -/
def serialize (fields : List Bytes) (separator : Bytes) (lineEnding : LineEnding) (bodyLen : Nat)
    (limits : MessageLimits) : Except HeaderEditError Bytes := do
  let size ← serializedSize fields separator lineEnding
  validateHeaderParts (headerParts fields separator lineEnding) size bodyLen limits
  .ok (headerParts fields separator lineEnding).flatten

/-- One operation within the limits of the implementation. -/
def runWithin (ceiling : Nat) (separator : Bytes) (lineEnding : LineEnding) (bodyLen : Nat)
    (limits : MessageLimits) (state : State) (operation : HeaderOperation) :
    Except HeaderEditError State := do
  let state ← run (EditedHeader.allowance ceiling) lineEnding state operation
  validateAggregateSize state.fields separator lineEnding bodyLen limits
  .ok state

/-- The reference within the limits of the implementation: the final state and its bytes. -/
def applyWithin (ceiling : Nat) (separator : Bytes) (lineEnding : LineEnding) (bodyLen : Nat)
    (limits : MessageLimits) (state : State) (action : HeaderAction) :
    Except HeaderEditError (State × Bytes) := do
  let state ← action.operations.foldlM
    (runWithin ceiling separator lineEnding bodyLen limits) state
  let bytes ← serialize state.fields separator lineEnding bodyLen limits
  .ok (state, bytes)

end FieldList

namespace EditedHeader

/-- The caches of the header hold what they are asked for, and its size is that of its bytes. -/
structure Coherent (header : EditedHeader) : Prop where
  asBytes : header.asBytes = header.parts.flatten
  normalized : header.normalized = normalizeFoldedHeader header.parts.flatten
  size : header.storage.size = header.parts.flatten.length

/-- A header between two actions: its fields stay apart, its caches are right and its preferred
delimiter is that of its bytes. -/
structure Settled (header : EditedHeader) : Prop where
  wf : header.storage.store.Wf
  coherent : header.Coherent
  apart : needsReindex header.texts = false
  lineEnding : header.storage.lineEnding = preferredLineEnding header.parts.flatten

theorem flatten_parts_of_apart {header : EditedHeader} (h : needsReindex header.texts = false) :
    header.parts.flatten = header.texts.flatten ++ header.storage.separator := by
  rw [parts, flatten_headerParts, joinFields_of_apart h]

/-- A header without cached views is coherent once its size is known. -/
theorem coherent_of_caches {header : EditedHeader} (hraw : header.storage.raw = none)
    (hmatching : header.storage.matching = none)
    (hsize : header.storage.size = header.parts.flatten.length) : header.Coherent := by
  have hbytes : header.asBytes = header.parts.flatten := by rw [asBytes, hraw, Option.getD_none]
  refine ⟨hbytes, ?_, hsize⟩
  rw [EditedHeader.normalized, hmatching, Option.getD_none, hbytes]

/-- A private header whose fields stay apart, after the preferred delimiter has been recorded. -/
theorem settled_recordLineEnding {header : EditedHeader} (hwf : header.storage.store.Wf)
    (hunique : header.unique = true) (hraw : header.storage.raw = none)
    (hmatching : header.storage.matching = none)
    (hsize : header.storage.size = header.parts.flatten.length)
    (hapart : needsReindex header.texts = false) :
    header.recordLineEnding.Settled ∧
      header.recordLineEnding.parts.flatten = header.parts.flatten := by
  have heq : header.recordLineEnding =
      { header with
        storage := { header.storage with lineEnding := preferredLineEnding header.parts.flatten } } :=
    if_pos hunique
  have hsame : header.recordLineEnding.parts.flatten = header.parts.flatten := by
    have htexts : header.recordLineEnding.texts = header.texts := by rw [heq]; rfl
    rw [flatten_parts_of_apart hapart, flatten_parts_of_apart (htexts ▸ hapart), htexts, heq]
  refine ⟨⟨?_, coherent_of_caches ?_ ?_ ?_, ?_, ?_⟩, hsame⟩
  · rw [heq]; exact hwf
  · rw [heq]; exact hraw
  · rw [heq]; exact hmatching
  · rw [hsame, ← hsize, heq]
  · rw [heq]; exact hapart
  · rw [hsame, heq]

/-- A header that shares its storage keeps its delimiter. -/
theorem recordLineEnding_of_shared {header : EditedHeader} (h : header.unique = false) :
    header.recordLineEnding = header := if_neg (by simp [h])

theorem recordLineEnding_frame (header : EditedHeader) :
    header.recordLineEnding.texts = header.texts ∧
      header.recordLineEnding.storage.store = header.storage.store ∧
      header.recordLineEnding.storage.separator = header.storage.separator ∧
      header.recordLineEnding.limits = header.limits ∧
      header.recordLineEnding.status = header.status := by
  unfold recordLineEnding updateUnique
  split_ifs
  · exact ⟨rfl, rfl, rfl, rfl, rfl⟩
  · exact ⟨rfl, rfl, rfl, rfl, rfl⟩

theorem recordSize_frame (header : EditedHeader) (size : Nat) :
    (header.recordSize size).texts = header.texts ∧
      (header.recordSize size).parts = header.parts ∧
      (header.recordSize size).storage.store = header.storage.store ∧
      (header.recordSize size).storage.separator = header.storage.separator ∧
      (header.recordSize size).limits = header.limits ∧
      (header.recordSize size).status = header.status ∧
      (header.recordSize size).unique = header.unique := by
  unfold recordSize updateUnique
  split_ifs
  · exact ⟨rfl, rfl, rfl, rfl, rfl, rfl, rfl⟩
  · exact ⟨rfl, rfl, rfl, rfl, rfl, rfl, rfl⟩

/-- Only a private header records its new size; a shared one is as its last action left it. Either
way the header knows its size and its caches are right. -/
theorem Represents.recordSize {origin header : EditedHeader} {status : MessageStatus}
    {fields : List Bytes} (h : Represents origin status header fields)
    (horigin : origin.unique = false → origin.Settled) :
    (header.recordSize header.parts.flatten.length).Coherent ∧
      ((header.unique = true ∧
        (header.recordSize header.parts.flatten.length).storage.raw = none ∧
        (header.recordSize header.parts.flatten.length).storage.matching = none) ∨
      (header.unique = false ∧ (header.recordSize header.parts.flatten.length).Settled)) := by
  obtain ⟨-, hparts, -⟩ := recordSize_frame header header.parts.flatten.length
  cases hu : header.unique with
  | true =>
    obtain ⟨hraw, hmatching⟩ := h.editing.caches hu
    have heq : header.recordSize header.parts.flatten.length =
        { header with storage := { header.storage with size := header.parts.flatten.length } } :=
      if_pos hu
    have hraw' : (header.recordSize header.parts.flatten.length).storage.raw = none := by
      rw [heq]; exact hraw
    have hmatching' : (header.recordSize header.parts.flatten.length).storage.matching = none := by
      rw [heq]; exact hmatching
    refine ⟨coherent_of_caches hraw' hmatching' ?_, Or.inl ⟨rfl, hraw', hmatching'⟩⟩
    rw [hparts, heq]
  | false =>
    obtain rfl : header = origin := h.editing.shared hu
    have heq : header.recordSize header.parts.flatten.length = header := if_neg (by simp [hu])
    rw [heq]
    exact ⟨(horigin hu).coherent, Or.inr ⟨rfl, horigin hu⟩⟩

/-- What a finished action leaves: a settled header for `bytes`, indexed afresh or with the fields
the operations left. -/
structure Finished (origin : EditedHeader) (status : MessageStatus) (fields : List Bytes)
    (result : EditedHeader) (bytes : Bytes) : Prop where
  settled : result.Settled
  room : result.storage.store.bytes.length ≤ origin.ceiling
  limits : result.limits = origin.limits
  status : result.status = status
  serialized : result.parts.flatten = bytes
  index : result.Parsed bytes ∨
    result.texts = fields ∧ result.storage.separator = origin.storage.separator

theorem checkLimit_eq_ok {size limit : Nat} {kind : MessageLimit} {u : Unit}
    (h : checkLimit size limit kind = .ok u) : size ≤ limit := by
  unfold checkLimit at h
  split_ifs at h with hlt
  omega

theorem validateHeaderParts_size {parts : List Bytes} {size bodyLen : Nat} {limits : MessageLimits}
    {u : Unit} (h : validateHeaderParts parts size bodyLen limits = .ok u) :
    size ≤ limits.headersSize := by
  obtain ⟨_, hcheck, -⟩ := bind_eq_ok h
  exact checkLimit_eq_ok hcheck

/-- The end of an action agrees with the validated serialization of the list of fields. -/
theorem Represents.finish {origin header : EditedHeader} {status : MessageStatus}
    {fields : List Bytes} (h : Represents origin status header fields)
    (horigin : origin.unique = false → origin.Settled) (bodyLen : Nat) :
    Refines (Finished origin status fields) (header.finish bodyLen)
      (serialize fields origin.storage.separator origin.storage.lineEnding bodyLen
        origin.limits) := by
  obtain ⟨hwf, hroom, hsep, hle, -, hlim, -, -⟩ := h.editing
  have hparts : header.parts =
      headerParts fields origin.storage.separator origin.storage.lineEnding := by
    rw [parts, h.texts, hsep, hle]
  rw [EditedHeader.finish, serialize, h.texts, hsep, hle]
  refine (Refines.refl _).bind fun size _ hserialized => ?_
  obtain ⟨hserialized, rfl⟩ := hserialized
  obtain rfl : size = header.parts.flatten.length := by
    rw [hparts, sumSizes_eq_ok hserialized, Nat.zero_add]
  obtain ⟨hcoherent, hcases⟩ := h.recordSize horigin
  obtain ⟨htexts', hparts', hstore', hsep', hlim', hstatus', hunique'⟩ :=
    recordSize_frame header header.parts.flatten.length
  set sized := header.recordSize header.parts.flatten.length
  have hvalidate : sized.validate bodyLen header.limits = validateHeaderParts
      (headerParts fields origin.storage.separator origin.storage.lineEnding)
      header.parts.flatten.length bodyLen origin.limits := by
    rw [validate, len, hcoherent.size, hparts', hparts, hlim]
  rw [hvalidate]
  refine (Refines.refl _).bind fun _ _ hvalid => ?_
  have hfits := validateHeaderParts_size hvalid.1
  rw [← hparts]
  by_cases hreindex : needsReindex fields = true
  · have hcontent : (headerContent header.parts.flatten).length ≤ sized.limits.headersSize := by
      have hsum := congrArg List.length (headerContent_append_headerSeparator header.parts.flatten)
      rw [List.length_append] at hsum
      rw [hlim', hlim]
      omega
    obtain ⟨result, hres, hparsed, hrroom, hrsize, hrstatus, hrraw, hrmatching, hrlim, hrunique⟩ :=
      fresh_spec sized.limits header.parts.flatten.length sized.status hcontent
    have hrparts := hparsed.flatten_parts
    have hapart : needsReindex result.texts = false := by
      rw [hparsed.texts]
      exact (fieldTexts_headerContent_spec header.parts.flatten).2.2
    obtain ⟨hset, hflat⟩ := settled_recordLineEnding hparsed.wf hrunique hrraw hrmatching
      (by rw [hrsize, hrparts]) hapart
    obtain ⟨hftexts, hfstore, hfsep, hflim, hfstatus⟩ := recordLineEnding_frame result
    rw [reindexed, htexts', h.texts, if_pos hreindex, hcoherent.asBytes, hparts', hres, ok_bind]
    have hceiling : sized.limits.headersSize ≤ origin.ceiling := by
      rw [hlim', hlim]
      exact le_max_right _ _
    refine .ok ⟨hset, ?_, ?_, ?_, ?_, Or.inl ⟨hset.wf, ?_, ?_, ?_⟩⟩
    · rw [hfstore]
      exact hrroom.trans hceiling
    · rw [hflim, hrlim, hlim', hlim]
    · rw [hfstatus, EditedHeader.status, hrstatus, hstatus', h.status]
    · rw [hflat, hrparts]
    · rw [hftexts, hparsed.texts]
    · rw [hfsep, hparsed.separator]
    · rw [hset.lineEnding, hflat, hrparts]
  · rw [Bool.not_eq_true] at hreindex
    rw [reindexed, htexts', h.texts, if_neg (by simp [hreindex]), ok_bind]
    obtain ⟨hftexts, hfstore, hfsep, hflim, hfstatus⟩ := recordLineEnding_frame sized
    have hset : sized.recordLineEnding.Settled ∧
        sized.recordLineEnding.parts.flatten = sized.parts.flatten := by
      rcases hcases with ⟨hu, hraw, hmatching⟩ | ⟨hu, hsettled⟩
      · exact settled_recordLineEnding (by rw [hstore']; exact hwf) (by rw [hunique', hu]) hraw
          hmatching hcoherent.size (by rw [htexts', h.texts]; exact hreindex)
      · rw [recordLineEnding_of_shared (by rw [hunique', hu])]
        exact ⟨hsettled, rfl⟩
    refine .ok ⟨hset.1, ?_, ?_, ?_, ?_, Or.inr ⟨?_, ?_⟩⟩
    · rw [hfstore, hstore']
      exact hroom
    · rw [hflim, hlim', hlim]
    · rw [hfstatus, hstatus', h.status]
    · rw [hset.2, hparts']
    · rw [hftexts, htexts', h.texts]
    · rw [hfsep, hsep', hsep]

/-- An action on raw bytes starts from a private index of them. -/
theorem new_raw (bytes : Bytes) (limits : MessageLimits) :
    ∃ origin, EditedHeader.new (.Raw bytes) limits = .ok origin ∧ origin.Parsed bytes ∧
      Represents origin MessageStatus.none origin (fieldTexts (headerContent bytes)) ∧
      origin.storage.size = bytes.length ∧ origin.limits = limits ∧ origin.unique = true := by
  have hcontent : (headerContent bytes).length ≤ max limits.headersSize bytes.length := by
    have hsum := congrArg List.length (headerContent_append_headerSeparator bytes)
    rw [List.length_append] at hsum
    omega
  obtain ⟨origin, hres, hparsed, hroom, hsize, hstatus, hraw, hmatching, hlim, hunique⟩ :=
    fresh_spec limits bytes.length MessageStatus.none hcontent
  refine ⟨origin, hres, hparsed, ⟨⟨hparsed.wf, ?_, rfl, rfl, rfl, rfl, fun _ => ⟨hraw, hmatching⟩,
    fun hfalse => ?_⟩, hparsed.texts, hstatus⟩, hsize, hlim, hunique⟩
  · rw [ceiling, len, hsize, hlim, max_comm]
    exact hroom
  · simp [hunique] at hfalse

/-- An action on an edited header starts from its shared storage. -/
theorem new_indexed {header : EditedHeader} (limits : MessageLimits) (h : header.Settled)
    (hroom : header.storage.store.bytes.length ≤ max header.len limits.headersSize) :
    ∃ origin, EditedHeader.new (.Indexed header) limits = .ok origin ∧
      Represents origin header.status origin header.texts ∧ origin.Settled ∧
      origin.storage = header.storage ∧ origin.limits = limits ∧ origin.unique = false := by
  refine ⟨{ header with limits := limits, unique := false }, rfl, ⟨⟨h.wf, hroom, rfl, rfl, rfl, rfl,
    (by intro htrue; cases htrue), fun _ => rfl⟩, rfl, rfl⟩, ?_, rfl, rfl, rfl⟩
  exact ⟨h.wf, ⟨h.coherent.asBytes, h.coherent.normalized, h.coherent.size⟩, h.apart, h.lineEnding⟩

end EditedHeader

open EditedHeader in
/-- One checked operation agrees with the reference within the limits. -/
theorem AppliedHeaderAction.Represents.applyChecked {origin : EditedHeader}
    {applied : AppliedHeaderAction} {state : FieldList.State}
    (h : AppliedHeaderAction.Represents origin applied state) (lineEnding : LineEnding)
    (bodyLen : Nat) (limits : MessageLimits) (operation : HeaderOperation) :
    Refines (AppliedHeaderAction.Represents origin)
      (applyChecked lineEnding bodyLen limits applied operation)
      (runWithin origin.ceiling origin.storage.separator lineEnding bodyLen limits state
        operation) := by
  refine (h.applyOperation lineEnding operation).bind fun applied state hrep => ?_
  rw [hrep.header.texts, hrep.header.editing.separator]
  refine (Refines.refl _).bind fun _ _ _ => ?_
  exact .ok hrep

open EditedHeader in
/-- An action agrees with the reference within the limits, in its bytes, extractions and errors,
whatever header it starts from. -/
theorem applyHeaderAction_refines {source : HeaderView} {limits : MessageLimits}
    {origin : EditedHeader} {status : MessageStatus} {fields : List Bytes}
    (hnew : EditedHeader.new source limits = .ok origin)
    (hrep : EditedHeader.Represents origin status origin fields)
    (hlim : origin.limits = limits) (horigin : origin.unique = false → origin.Settled)
    (bodyLen : Nat) (action : HeaderAction) :
    Refines (fun applied result => applied.extractions = result.1.extractions ∧
        Finished origin result.1.status result.1.fields applied.header result.2)
      (applyHeaderAction source bodyLen action limits)
      (applyWithin origin.ceiling origin.storage.separator origin.storage.lineEnding bodyLen limits
        ⟨fields, status, []⟩ action) := by
  rw [applyHeaderAction, hnew, applyWithin]
  have hstart : AppliedHeaderAction.Represents origin ⟨origin, []⟩ ⟨fields, status, []⟩ :=
    ⟨hrep, rfl⟩
  refine (Refines.foldlM hstart fun _ _ h operation _ =>
    h.applyChecked origin.storage.lineEnding bodyLen limits operation).bind
    fun applied state hstate => ?_
  have hfinish := hstate.header.finish horigin bodyLen
  rw [hlim] at hfinish
  refine hfinish.bind fun header bytes hfinished => ?_
  exact .ok ⟨hstate.extractions, hfinished⟩

end ProcmailRs
