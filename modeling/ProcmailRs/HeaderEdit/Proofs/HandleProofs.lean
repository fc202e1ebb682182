import ProcmailRs.HeaderEdit.Handles
import ProcmailRs.HeaderEdit.Proofs.EditProofs
import ProcmailRs.Lib.Outcome
import ProcmailRs.Lib.Replay

/-!
# The cached views of edited headers

An edit that changes a storage in place keeps its cached views, and `finish` records the size only in a
storage that nobody else points to. As long as the program stays clear of both, the cached views of every
storage are those of its fields.
-/

namespace ProcmailRs

open Sharing (Heap)
open Outcome (finalState toExcept Ends)
open Replay (Throughout)

/-! ### The cached views of one storage -/

namespace HeaderStorage

/-- The fields with the delimiters between them and the separator. -/
def serialized (storage : HeaderStorage) : Bytes :=
  (headerParts (storage.store.entries.map Field.bytes) storage.separator storage.lineEnding).flatten

/-- The cached views are those of the fields; the unfolded one is made from the serialized one. -/
structure Faithful (storage : HeaderStorage) : Prop where
  raw : ∀ bytes, storage.raw = some bytes → bytes = storage.serialized
  matching : ∀ view, storage.matching = some view → view = normalizeFoldedHeader storage.serialized
  filled : storage.raw = none → storage.matching = none

theorem faithful_of_uncached {storage : HeaderStorage} (hraw : storage.raw = none)
    (hmatching : storage.matching = none) : storage.Faithful := by
  constructor
  · intro bytes h
    rw [hraw] at h
    cases h
  · intro view h
    rw [hmatching] at h
    cases h
  · intro _
    exact hmatching

/-- A change of a storage that keeps what it is serialized to. -/
theorem Faithful.congr {storage other : HeaderStorage} (h : storage.Faithful)
    (hraw : other.raw = storage.raw) (hmatching : other.matching = storage.matching)
    (hbytes : other.serialized = storage.serialized) : other.Faithful := by
  constructor
  · intro bytes hcached
    rw [hbytes]
    exact h.raw bytes (hraw ▸ hcached)
  · intro view hcached
    rw [hbytes]
    exact h.matching view (hmatching ▸ hcached)
  · intro hnone
    rw [hmatching]
    exact h.filled (hraw ▸ hnone)

end HeaderStorage

namespace EditedHeader

open HeaderStorage (Faithful faithful_of_uncached)

variable {header : EditedHeader}

theorem flatten_parts (header : EditedHeader) : header.parts.flatten = header.storage.serialized := rfl

theorem asBytes_of_faithful (h : header.storage.Faithful) : header.asBytes = header.parts.flatten := by
  unfold asBytes
  cases hraw : header.storage.raw with
  | none => rfl
  | some bytes => exact h.raw bytes hraw

theorem normalized_of_faithful (h : header.storage.Faithful) :
    header.normalized = normalizeFoldedHeader header.parts.flatten := by
  unfold normalized
  cases hmatching : header.storage.matching with
  | none => rw [Option.getD_none, asBytes_of_faithful h]
  | some view => exact h.matching view hmatching

/-- What a header says of itself is true of its fields. -/
structure Current (header : EditedHeader) : Prop where
  asBytes : header.asBytes = header.parts.flatten
  len : header.len = header.parts.flatten.length
  matchingHeader : header.matchingHeader =
    (normalizeFoldedHeader header.parts.flatten).getD header.parts.flatten
  intoStreamingBytes : header.intoStreamingBytes = header.parts.flatten

theorem current_of_faithful (h : header.storage.Faithful)
    (hlen : header.len = header.parts.flatten.length) : header.Current := by
  have hbytes := asBytes_of_faithful h
  refine ⟨hbytes, hlen, ?_, ?_⟩
  · rw [EditedHeader.matchingHeader, normalized_of_faithful h, hbytes]
  · unfold intoStreamingBytes
    split_ifs
    · exact hbytes
    · exact hbytes

/-! Reading a header caches what is true of its fields. -/

theorem faithful_withRaw (h : header.storage.Faithful) : header.withRaw.Faithful := by
  constructor
  · intro bytes hcached
    rw [← Option.some.inj hcached]
    exact asBytes_of_faithful h
  · exact h.matching
  · intro hnone
    cases hnone

theorem faithful_withMatching (h : header.storage.Faithful) : header.withMatching.Faithful := by
  unfold withMatching
  cases hmatching : header.storage.matching with
  | none =>
    constructor
    · exact (faithful_withRaw h).raw
    · intro view hcached
      rw [← Option.some.inj hcached]
      exact normalized_of_faithful h
    · intro hnone
      cases hnone
  | some view => exact h

theorem serialized_withMatching (header : EditedHeader) :
    header.withMatching.serialized = header.storage.serialized := by
  unfold withMatching
  cases header.storage.matching with
  | none => rfl
  | some view => rfl

theorem faithful_withMatchingHeader (h : header.storage.Faithful) :
    header.withMatchingHeader.Faithful := by
  unfold withMatchingHeader
  cases hview : header.normalized with
  | some view => exact faithful_withMatching h
  | none =>
    constructor
    · intro bytes hcached
      rw [← Option.some.inj hcached, asBytes_of_faithful h]
      exact (serialized_withMatching header).symm
    · exact (faithful_withMatching h).matching
    · intro hnone
      cases hnone

/-! ### The end of an edit -/

theorem faithful_recordSize (h : header.storage.Faithful) (size : Nat) :
    (header.recordSize size).storage.Faithful := by
  unfold recordSize updateUnique
  split_ifs
  · exact h.congr rfl rfl rfl
  · exact h

/-- Fields that stay apart have no use for the preferred delimiter. -/
theorem flatten_parts_recordLineEnding (hapart : needsReindex header.texts = false) :
    header.recordLineEnding.parts.flatten = header.parts.flatten := by
  obtain ⟨htexts, -, hseparator, -⟩ := recordLineEnding_frame header
  rw [flatten_parts_of_apart hapart, flatten_parts_of_apart (htexts ▸ hapart), htexts, hseparator]

theorem faithful_recordLineEnding (h : header.storage.Faithful)
    (hapart : needsReindex header.texts = false) : header.recordLineEnding.storage.Faithful := by
  have hbytes := flatten_parts_recordLineEnding hapart
  unfold recordLineEnding updateUnique at hbytes ⊢
  by_cases hunique : header.unique = true
  · rw [if_pos hunique] at hbytes ⊢
    exact h.congr rfl rfl hbytes
  · rw [if_neg hunique]
    exact h

/-- A header that could be indexed fits. -/
theorem fits_of_fresh {bytes : Bytes} {limits : MessageLimits} {ceiling size : Nat}
    {status : MessageStatus} (h : fresh bytes limits ceiling size status = .ok header) :
    (headerContent bytes).length ≤ ceiling := by
  unfold fresh at h
  rw [splitFields_eq] at h
  obtain ⟨store, hstore, -⟩ := bind_eq_ok h
  obtain ⟨_, hcheck, -⟩ := bind_eq_ok hstore
  have hle := checkLimit_eq_ok hcheck
  rw [← size_rawFields, FieldList.size, List.map_map]
  exact hle

/-- A header that has been indexed afresh is that of the bytes it was made from. -/
theorem indexed_of_fresh {bytes : Bytes} {limits : MessageLimits} {ceiling size : Nat}
    {status : MessageStatus} (h : fresh bytes limits ceiling size status = .ok header) :
    header.Parsed bytes ∧ needsReindex header.texts = false ∧ header.storage.size = size ∧
      header.storage.Faithful ∧ header.unique = true ∧ header.limits = limits := by
  obtain ⟨result, hresult, hparsed, -, hsize, -, hraw, hmatching, hlimits, hunique⟩ :=
    @fresh_spec bytes limits ceiling size status (fits_of_fresh h)
  rw [hresult] at h
  cases h
  refine ⟨hparsed, ?_, hsize, faithful_of_uncached hraw hmatching, hunique, hlimits⟩
  rw [hparsed.texts]
  exact (fieldTexts_headerContent_spec bytes).2.2

/-- What is left of a header that has been indexed afresh, or did not need to be. -/
theorem faithful_reindexed {result : EditedHeader} {size : Nat} (h : header.storage.Faithful)
    (hresult : header.reindexed size = .ok result) :
    result.recordLineEnding.storage.Faithful ∧
      result.recordLineEnding.parts.flatten = header.parts.flatten ∧
      (needsReindex header.texts = true → result.recordLineEnding.storage.size = size) ∧
      (needsReindex header.texts = false → result = header) := by
  unfold reindexed at hresult
  by_cases hreindex : needsReindex header.texts = true
  · rw [if_pos hreindex] at hresult
    obtain ⟨hparsed, hapart, hsize, hfaithful, hunique, -⟩ := indexed_of_fresh hresult
    refine ⟨faithful_recordLineEnding hfaithful hapart, ?_, ?_, ?_⟩
    · rw [flatten_parts_recordLineEnding hapart, hparsed.flatten_parts, asBytes_of_faithful h]
    · intro _
      rw [← hsize, recordLineEnding, updateUnique, if_pos hunique]
    · intro hnot
      rw [hreindex] at hnot
      cases hnot
  · have hapart : needsReindex header.texts = false := by simpa using hreindex
    rw [if_neg hreindex] at hresult
    cases hresult
    exact ⟨faithful_recordLineEnding h hapart, flatten_parts_recordLineEnding hapart,
      fun hyes => absurd hyes hreindex, fun _ => rfl⟩

end EditedHeader

namespace EditedHeader

variable {header result : EditedHeader}

theorem unique_recordLineEnding (header : EditedHeader) :
    header.recordLineEnding.unique = header.unique := by
  unfold recordLineEnding updateUnique
  split_ifs
  · rfl
  · rfl

/-- `finish` records the size of the header, or need not. -/
def Sized (header : EditedHeader) : Prop :=
  header.unique = true ∨ needsReindex header.texts = true ∨ header.len = header.parts.flatten.length

instance (header : EditedHeader) : Decidable header.Sized := inferInstanceAs (Decidable (_ ∨ _ ∨ _))

theorem serializedSize_eq {size : Nat}
    (h : serializedSize header.texts header.storage.separator header.storage.lineEnding = .ok size) :
    size = header.parts.flatten.length := by
  have htotal := sumSizes_eq_ok h
  rw [Nat.zero_add] at htotal
  exact htotal

/-- What `finish` has done when it succeeds. -/
theorem finish_eq_ok {bodyLen : Nat} (h : header.finish bodyLen = .ok result) :
    ∃ size indexed, size = header.parts.flatten.length ∧
      (header.recordSize size).reindexed size = .ok indexed ∧ result = indexed.recordLineEnding := by
  obtain ⟨size, hsize, h⟩ := bind_eq_ok h
  obtain ⟨_, -, h⟩ := bind_eq_ok h
  obtain ⟨indexed, hindexed, h⟩ := bind_eq_ok h
  exact ⟨size, indexed, serializedSize_eq hsize, hindexed, (Except.ok.inj h).symm⟩

theorem current_of_finish {bodyLen : Nat} (h : header.storage.Faithful) (hsized : header.Sized)
    (hfinish : header.finish bodyLen = .ok result) : result.Current := by
  obtain ⟨size, indexed, rfl, hindexed, rfl⟩ := finish_eq_ok hfinish
  obtain ⟨htexts, hparts, -⟩ := recordSize_frame header header.parts.flatten.length
  obtain ⟨hfaithful, hbytes, hfresh, hsame⟩ := faithful_reindexed (faithful_recordSize h _) hindexed
  rw [htexts] at hfresh hsame
  apply current_of_faithful hfaithful
  rw [hbytes, hparts]
  by_cases hreindex : needsReindex header.texts = true
  · exact hfresh hreindex
  · rw [hsame (by simpa using hreindex)]
    rcases hsized with hunique | hyes | hlen
    · unfold recordLineEnding recordSize updateUnique
      simp [hunique, EditedHeader.len]
    · exact absurd hyes hreindex
    · unfold recordLineEnding recordSize updateUnique
      split_ifs
      · rfl
      · exact hlen

/-- The fields are kept, whether or not they have been indexed afresh. -/
theorem flatten_parts_of_finish {bodyLen : Nat} (h : header.storage.Faithful)
    (hfinish : header.finish bodyLen = .ok result) :
    result.parts.flatten = header.parts.flatten := by
  obtain ⟨size, indexed, -, hindexed, rfl⟩ := finish_eq_ok hfinish
  obtain ⟨-, hbytes, -⟩ := faithful_reindexed (faithful_recordSize h size) hindexed
  rw [hbytes, (recordSize_frame header size).2.1]

end EditedHeader

/-! ### An edit in place -/

namespace StoreEdit

/-- What an edit makes of a header, whether it fails or not. -/
def changed (edit : StoreEdit) (header : EditedHeader) : EditedHeader :=
  header.storeMut.withStore (finalState
    (edit.run header.storage.lineEnding header.storeMut.storage.store))

/-- The edit does not change, under a cached view, the fields that the view was made from. -/
def Harmless (edit : StoreEdit) (header : EditedHeader) : Prop :=
  edit.touches header.storage.store = true → header.unique = true → header.storage.raw ≠ none →
    (edit.changed header).texts = header.texts

instance (edit : StoreEdit) (header : EditedHeader) : Decidable (edit.Harmless header) :=
  inferInstanceAs (Decidable (_ → _ → _ → _))

variable {edit : StoreEdit} {header : EditedHeader}

theorem faithful_changed (h : header.storage.Faithful)
    (htouches : edit.touches header.storage.store = true) (hsafe : edit.Harmless header) :
    (edit.changed header).storage.Faithful := by
  by_cases hunique : header.unique = true
  · have hviews : (edit.changed header).storage.raw = header.storage.raw ∧
        (edit.changed header).storage.matching = header.storage.matching ∧
        (edit.changed header).storage.separator = header.storage.separator ∧
        (edit.changed header).storage.lineEnding = header.storage.lineEnding := by
      unfold changed EditedHeader.withStore EditedHeader.storeMut EditedHeader.makeMut
      rw [if_pos hunique]
      exact ⟨rfl, rfl, rfl, rfl⟩
    obtain ⟨hraw, hmatching, hseparator, hending⟩ := hviews
    by_cases hcached : header.storage.raw = none
    · apply HeaderStorage.faithful_of_uncached
      · rw [hraw, hcached]
      · rw [hmatching, h.filled hcached]
    · have htexts := hsafe htouches hunique hcached
      apply h.congr hraw hmatching
      show (headerParts (edit.changed header).texts _ _).flatten = (headerParts header.texts _ _).flatten
      rw [htexts, hseparator, hending]
  · -- The private copy has no cached views.
    apply HeaderStorage.faithful_of_uncached
    · unfold changed EditedHeader.withStore EditedHeader.storeMut EditedHeader.makeMut
      rw [if_neg hunique]
    · unfold changed EditedHeader.withStore EditedHeader.storeMut EditedHeader.makeMut
      rw [if_neg hunique]

/-! The edits do what the operations of one header do. -/

theorem apply_removeMatching (header : EditedHeader) (name : Bytes) :
    (removeMatching name).apply header = .ok (header.removeMatching name) := by
  unfold apply EditedHeader.removeMatching EditedHeader.hasMatching
  show (if header.storage.store.entries.any (HeaderStore.entryMatches name) then _ else _) = _
  by_cases hmatching : header.storage.store.entries.any (HeaderStore.entryMatches name) = true
  · rw [if_pos hmatching, if_pos hmatching]
    rfl
  · rw [if_neg hmatching, if_neg hmatching]

theorem apply_always_modify (header : EditedHeader) (f : HeaderStore → HeaderStore) :
    (always (modify f)).apply header = .ok (header.mapStore f) := rfl

theorem apply_addRawField (header : EditedHeader) (raw : Bytes) :
    (addRawField raw).apply header = header.addRawField raw := by
  have hfields : header.storeMut.storage.store.fields = header.storage.store.fields := by
    unfold EditedHeader.storeMut EditedHeader.makeMut
    split_ifs
    · rfl
    · rfl
  unfold apply addRawField EditedHeader.addRawField EditedHeader.insert
  simp only [if_true, hfields]
  cases header.storeMut.storage.store.insert header.storage.store.fields.length
      (if endsWith raw [LF] then raw else raw ++ header.storage.lineEnding.bytes) with
  | ok u store => rfl
  | error e store => rfl

theorem toExcept_replaceInPlace (index : Nat) (bytes : Bytes) (store : HeaderStore) :
    toExcept (HeaderStore.replaceInPlace index bytes store) = store.replace index bytes := by
  unfold HeaderStore.replaceInPlace HeaderStore.replace
  cases (store.remove index).insert index bytes with
  | ok u store => rfl
  | error e store => rfl

theorem toExcept_editInPlaceFrom (change : Field → FieldEdit) (rounds index : Nat)
    (store : HeaderStore) :
    toExcept (HeaderStore.editInPlaceFrom change rounds index store) =
      HeaderStore.editFrom change rounds index store := by
  induction rounds generalizing index store with
  | zero => rfl
  | succ rounds ih =>
    unfold HeaderStore.editFrom
    rw [HeaderStore.editInPlaceFrom, Outcome.get_bind]
    cases store.entries[index]? with
    | none => rfl
    | some field =>
      dsimp only
      cases change field with
      | Keep => exact ih (index + 1) store
      | Remove => exact ih index (store.remove index)
      | Replace bytes =>
        dsimp only
        rw [Outcome.toExcept_bind, toExcept_replaceInPlace]
        congr 1
        funext next
        exact ih (index + 1) next

theorem apply_editInPlace (header : EditedHeader) (change : Field → FieldEdit) :
    (always (HeaderStore.editInPlace change)).apply header =
      header.editStore fun store => store.editEach change := by
  have hrun := toExcept_editInPlaceFrom change header.storeMut.storage.store.fields.length 0
    header.storeMut.storage.store
  unfold EditedHeader.editStore HeaderStore.editEach
  dsimp only
  rw [← hrun]
  rw [always, StoreEdit.apply, HeaderStore.editInPlace]
  simp only [if_true, Outcome.get_bind]
  cases HeaderStore.editInPlaceFrom change header.storeMut.storage.store.fields.length 0
      header.storeMut.storage.store with
  | ok u store => rfl
  | error e store => rfl

end StoreEdit

/-! ### The headers of a program -/

namespace Headers

variable {headers : Headers} {header : EditedHeader} {i j : Nat}

theorem of_header (h : headers.header i = some header) :
    headers.heap.value i = some header.storage ∧ header.limits = headers.limits i ∧
      header.unique = headers.heap.isUnique i := by
  obtain ⟨storage, hvalue, rfl⟩ := Option.map_eq_some_iff.mp h
  exact ⟨hvalue, rfl, rfl⟩

theorem header_of_value {storage : HeaderStorage} (h : headers.heap.value i = some storage) :
    headers.header i = some ⟨storage, headers.limits i, headers.heap.isUnique i⟩ := by
  rw [Headers.header, h, Option.map_some]

/-- A change of one header is not seen through the handles of the others. -/
theorem value_put_of_ne (h : j ≠ i) : (headers.put i header).heap.value j = headers.heap.value j := by
  unfold put
  split_ifs with hunique hprivate
  · exact Heap.value_fill_of_unique hunique h
  · exact Heap.value_assign_of_ne h
  · rfl

theorem limits_put : (headers.put i header).limits = headers.limits := by
  unfold put
  split_ifs
  · rfl
  · rfl
  · rfl

theorem value_put_self (header : EditedHeader) (hopen : headers.heap.value i ≠ .none)
    (hprivate : headers.heap.isUnique i = true ∨ header.unique = true) :
    (headers.put i header).heap.value i = some header.storage ∧
      (headers.put i header).heap.isUnique i = true := by
  unfold put
  by_cases hunique : headers.heap.isUnique i = true
  · rw [if_pos hunique]
    exact ⟨Heap.value_fill_self hopen, hunique⟩
  · rw [if_neg hunique, if_pos (hprivate.resolve_left hunique)]
    exact ⟨Heap.value_assign_self hopen, Heap.isUnique_assign hopen⟩

theorem put_of_shared (hshared : headers.heap.isUnique i = false) (h : header.unique = false) :
    headers.put i header = headers := by
  unfold put
  rw [if_neg (by simp [hshared]), if_neg (by simp [h])]

/-- The cached views of every storage in use are those of its fields. -/
def Faithful (headers : Headers) : Prop := headers.heap.All HeaderStorage.Faithful

theorem Faithful.storage (h : headers.Faithful) (hi : headers.header i = some header) :
    header.storage.Faithful := h i header.storage (of_header hi).1

theorem Faithful.put (h : headers.Faithful) (hstorage : header.storage.Faithful) :
    (headers.put i header).Faithful := by
  unfold Headers.put
  split_ifs
  · exact Heap.All.fill h hstorage
  · exact Heap.All.assign h hstorage
  · exact h

theorem Faithful.cache {view : EditedHeader → HeaderStorage} (h : headers.Faithful)
    (hview : ∀ header, header.storage.Faithful → (view header).Faithful) :
    (headers.cache i view).Faithful := by
  unfold Headers.cache
  cases hi : headers.header i with
  | none => exact h
  | some header => exact Heap.All.fill h (hview header (h.storage hi))

theorem Faithful.drop (h : headers.Faithful) (i : Nat) : (headers.drop i).Faithful := Heap.All.drop h i

theorem Faithful.stream (h : headers.Faithful) (i : Nat) : (headers.stream i).Faithful := by
  unfold Headers.stream
  split
  · exact h.drop i
  · exact (h.cache fun _ hheader => EditedHeader.faithful_withRaw hheader).drop i

/-- The headers after a call, whether it fails or not. -/
def after (headers : Headers) (call : HeaderCall) : Headers := finalState (step call headers)

theorem after_edit (headers : Headers) (i : Nat) (change : StoreEdit) :
    headers.after (.Edit i change) =
      match headers.header i with
      | .none => headers
      | some header =>
        if change.touches header.storage.store then headers.put i (change.changed header)
        else headers := by
  show finalState (edit i change headers) = _
  unfold edit
  cases hi : headers.header i with
  | none => rfl
  | some header =>
    by_cases htouches : change.touches header.storage.store = true
    · simp only [if_pos htouches, StoreEdit.changed]
      cases change.run header.storage.lineEnding header.storeMut.storage.store with
      | ok u store => rfl
      | error e store => rfl
    · simp only [if_neg htouches, finalState]

/-! What `finish` does to the headers is what it does to the header. -/

theorem limits_cache {view : EditedHeader → HeaderStorage} :
    (headers.cache i view).limits = headers.limits := by
  unfold cache
  cases headers.header i with
  | none => rfl
  | some header => rfl

theorem value_cache_self (view : EditedHeader → HeaderStorage) (h : headers.header i = some header) :
    (headers.cache i view).heap.value i = some (view header) := by
  unfold cache
  rw [h]
  apply Heap.value_fill_self
  rw [(of_header h).1]
  simp

theorem header_put_recordSize (hi : headers.header i = some header) (size : Nat) :
    (headers.put i (header.recordSize size)).header i = some (header.recordSize size) := by
  obtain ⟨hvalue, hlimits, hunique⟩ := of_header hi
  obtain ⟨-, -, -, -, hframe, -, hsame⟩ := EditedHeader.recordSize_frame header size
  cases hown : headers.heap.isUnique i with
  | true =>
    obtain ⟨hput, hprivate⟩ := value_put_self (header.recordSize size)
      (by simp [hvalue]) (Or.inl hown)
    rw [header_of_value hput, limits_put, hprivate, ← hlimits, ← hframe, ← hown, ← hunique, ← hsame]
  | false =>
    have hshared : header.unique = false := hunique.trans hown
    have hkept : header.recordSize size = header := if_neg (by simp [hshared])
    rw [hkept, put_of_shared hown hshared, hi]

/-- What is put behind a handle is behind it, when the storage is the handle's own. -/
theorem header_put_self (hi : headers.header i = some header) {result : EditedHeader}
    (hlimits : result.limits = header.limits) (hunique : result.unique = true) :
    (headers.put i result).header i = some result := by
  obtain ⟨hvalue, hold, -⟩ := of_header hi
  have hopen : headers.heap.value i ≠ .none := by simp [hvalue]
  obtain ⟨hput, hprivate⟩ := value_put_self result hopen (Or.inr hunique)
  rw [header_of_value hput, limits_put, hprivate, ← hold, ← hlimits, ← hunique]

/-- The end of `finish`: the cached views stay right, and what the header becomes is put behind its
handle. -/
theorem ends_finishSized (h : headers.Faithful) (hi : headers.header i = some header)
    (bodyLen size : Nat) :
    Ends (finishSized i bodyLen size header) headers
      (fun _ headers' => headers'.Faithful ∧ ∃ result, header.validate bodyLen header.limits = .ok () ∧
        header.reindexed size = .ok result ∧ headers'.header i = some result.recordLineEnding)
      fun _ headers' => headers'.Faithful := by
  unfold Ends finishSized
  have hstorage := h.storage hi
  obtain ⟨hvalue, hlimits, hunique⟩ := of_header hi
  cases hvalid : header.validate bodyLen header.limits with
  | error e => exact h
  | ok u =>
    by_cases hreindex : needsReindex header.texts = true
    · have hcached : (headers.cache i EditedHeader.withRaw).Faithful :=
        h.cache fun header hheader => EditedHeader.faithful_withRaw hheader
      simp only [if_pos hreindex]
      cases hresult : header.reindexed size with
      | error e => exact hcached
      | ok result =>
        obtain ⟨hfaithful, -⟩ := EditedHeader.faithful_reindexed hstorage hresult
        have hindexed := hresult
        unfold EditedHeader.reindexed at hindexed
        rw [if_pos hreindex] at hindexed
        obtain ⟨-, -, -, -, hprivate, hsame⟩ := EditedHeader.indexed_of_fresh hindexed
        obtain ⟨-, -, -, hframe, -⟩ := EditedHeader.recordLineEnding_frame result
        have hopen := header_of_value (value_cache_self EditedHeader.withRaw hi)
        refine ⟨hcached.put hfaithful, result, trivial, rfl, header_put_self hopen ?_ ?_⟩
        · rw [hframe, hsame, hlimits, limits_cache]
        · rw [EditedHeader.unique_recordLineEnding, hprivate]
    · simp only [if_neg hreindex]
      cases hresult : header.reindexed size with
      | error e => exact h
      | ok result =>
        obtain ⟨hfaithful, -, -, hsame⟩ := EditedHeader.faithful_reindexed hstorage hresult
        obtain rfl := hsame (by simpa using hreindex)
        refine ⟨h.put hfaithful, result, trivial, rfl, ?_⟩
        cases hown : result.unique with
        | true =>
          obtain ⟨-, -, -, hframe, -⟩ := EditedHeader.recordLineEnding_frame result
          exact header_put_self hi hframe ((EditedHeader.unique_recordLineEnding result).trans hown)
        | false =>
          rw [EditedHeader.recordLineEnding_of_shared hown,
            put_of_shared (hunique.symm.trans hown) hown, hi]

theorem ends_finish (h : headers.Faithful) (i bodyLen : Nat) :
    Ends (finish i bodyLen) headers
      (fun _ headers' => headers'.Faithful ∧ ∀ header, headers.header i = some header →
        ∃ result, header.finish bodyLen = .ok result ∧ headers'.header i = some result)
      fun _ headers' => headers'.Faithful := by
  cases hi : headers.header i with
  | none =>
    have hrun : finish i bodyLen headers = .ok () headers := by
      unfold finish
      rw [hi]
    unfold Ends
    rw [hrun]
    exact ⟨h, fun _ hheader => nomatch hheader⟩
  | some header =>
    cases hsize : serializedSize header.texts header.storage.separator header.storage.lineEnding with
    | error e =>
      have hrun : finish i bodyLen headers = .error e headers := by
        unfold finish
        simp only [hi, hsize]
      unfold Ends
      rw [hrun]
      exact h
    | ok size =>
      have hrun : finish i bodyLen headers = finishSized i bodyLen size (header.recordSize size)
          (headers.put i (header.recordSize size)) := by
        unfold finish
        simp only [hi, hsize]
      have hsized := h.put (i := i) (EditedHeader.faithful_recordSize (h.storage hi) size)
      have hends := ends_finishSized hsized (header_put_recordSize hi size) bodyLen size
      obtain ⟨-, -, -, -, hlimits, -⟩ := EditedHeader.recordSize_frame header size
      have hrest : Ends (finishSized i bodyLen size (header.recordSize size))
          (headers.put i (header.recordSize size))
          (fun _ headers' => headers'.Faithful ∧ ∀ old, some header = some old →
            ∃ result, old.finish bodyLen = .ok result ∧ headers'.header i = some result)
          fun _ headers' => headers'.Faithful := by
        refine hends.mono ?_ fun _ _ hfaithful => hfaithful
        rintro _ headers' ⟨hfaithful, result, hvalid, hresult, hheader⟩
        refine ⟨hfaithful, ?_⟩
        rintro old ⟨⟩
        refine ⟨result.recordLineEnding, ?_, hheader⟩
        unfold EditedHeader.finish
        rw [hsize, ok_bind, ← hlimits, hvalid, ok_bind, hresult, ok_bind]
      unfold Ends at hrest ⊢
      rw [hrun]
      exact hrest

/-! ### One call -/

theorem faithful_setStatus (h : header.storage.Faithful) (status : MessageStatus) :
    (header.setStatus status).storage.Faithful := by
  unfold EditedHeader.setStatus EditedHeader.makeMut
  by_cases hstatus : header.storage.status ≠ status
  · rw [if_pos hstatus]
    by_cases hunique : header.unique = true
    · rw [if_pos hunique]
      exact h.congr rfl rfl rfl
    · rw [if_neg hunique]
      exact HeaderStorage.faithful_of_uncached rfl rfl
  · rw [if_neg hstatus]
    exact h

/-- The call stays clear of what leaves a view stale: an edit in place of fields that a cached view was
made from, and a `finish` that cannot record a size that has changed. -/
def Safe (headers : Headers) : HeaderCall → Prop
  | .Edit i change => ∀ header ∈ headers.header i, change.Harmless header
  | .Finish i _ => ∀ header ∈ headers.header i, header.Sized
  | _ => True

instance (headers : Headers) (call : HeaderCall) : Decidable (headers.Safe call) :=
  match call with
  | .Edit i change => inferInstanceAs (Decidable (∀ header ∈ headers.header i, change.Harmless header))
  | .Finish i _ => inferInstanceAs (Decidable (∀ header ∈ headers.header i, header.Sized))
  | .New _ _ | .NewIndexed _ _ | .Clone _ | .Drop _ | .AsBytes _ | .Normalized _ | .MatchingHeader _
  | .SetStatus _ _ | .IntoStreamingBytes _ => isTrue trivial

theorem faithful_none : Headers.none.Faithful := Heap.all_empty _

theorem Faithful.edit (h : headers.Faithful) {change : StoreEdit}
    (hsafe : headers.Safe (.Edit i change)) : (headers.after (.Edit i change)).Faithful := by
  rw [after_edit]
  cases hi : headers.header i with
  | none => exact h
  | some header =>
    dsimp only
    by_cases htouches : change.touches header.storage.store = true
    · rw [if_pos htouches]
      exact h.put (StoreEdit.faithful_changed (h.storage hi) htouches (hsafe header hi))
    · rw [if_neg htouches]
      exact h

theorem Faithful.after (h : headers.Faithful) {call : HeaderCall} (hsafe : headers.Safe call) :
    (headers.after call).Faithful := by
  cases call with
  | New bytes limits =>
    show (finalState (new bytes limits headers)).Faithful
    unfold new
    cases hnew : EditedHeader.new (.Raw bytes) limits with
    | error e => exact h
    | ok header =>
      obtain ⟨-, -, -, hfaithful, -⟩ := EditedHeader.indexed_of_fresh hnew
      exact Heap.All.alloc h hfaithful
  | NewIndexed i limits => exact Heap.All.clone h i
  | Clone i => exact Heap.All.clone h i
  | Drop i => exact h.drop i
  | IntoStreamingBytes i => exact h.stream i
  | AsBytes i => exact h.cache fun _ hheader => EditedHeader.faithful_withRaw hheader
  | Normalized i => exact h.cache fun _ hheader => EditedHeader.faithful_withMatching hheader
  | MatchingHeader i =>
    exact h.cache fun _ hheader => EditedHeader.faithful_withMatchingHeader hheader
  | Edit i change => exact h.edit hsafe
  | SetStatus i status =>
    show Faithful (match headers.header i with
      | .none => headers
      | some header => headers.put i (header.setStatus status))
    cases hi : headers.header i with
    | none => exact h
    | some header => exact h.put (faithful_setStatus (h.storage hi) status)
  | Finish i bodyLen =>
    exact ((ends_finish h i bodyLen).mono (fun _ _ hend => hend.1) fun _ _ hend => hend).finalState

/-- Whatever the program does, as long as it stays clear of stale views. -/
theorem faithful_replay {calls : List HeaderCall} (h : headers.Faithful)
    (hsafe : Throughout Headers.after Safe headers calls) :
    (Replay.replay Headers.after headers calls).Faithful := by
  induction calls generalizing headers with
  | nil => exact h
  | cons call calls ih =>
    obtain ⟨hcall, hrest⟩ := Replay.throughout_cons.mp hsafe
    exact ih (h.after hcall) hrest

end Headers

/-! ### What the headers report -/

/-- All that a header tells its readers. -/
structure HeaderReport where
  texts : List Bytes
  asBytes : Bytes
  len : Nat
  normalized : Option Bytes
  matchingHeader : Bytes
  streamed : Bytes
  status : MessageStatus
  limits : MessageLimits

/-- What is reported of an edited header. -/
def EditedHeader.report (header : EditedHeader) : HeaderReport where
  texts := header.texts
  asBytes := header.asBytes
  len := header.len
  normalized := header.normalized
  matchingHeader := header.matchingHeader
  streamed := header.intoStreamingBytes
  status := header.status
  limits := header.limits

namespace Headers

variable {headers : Headers} {header : EditedHeader} {i j : Nat}

/-- A report does not depend on who else points to the storage. -/
theorem report_header (headers : Headers) (j : Nat) :
    (headers.header j).map EditedHeader.report = (headers.heap.value j).map fun storage =>
      EditedHeader.report ⟨storage, headers.limits j, true⟩ := by
  unfold Headers.header
  rw [Option.map_map]
  congr 1
  funext storage
  show EditedHeader.report ⟨storage, headers.limits j, headers.heap.isUnique j⟩ = _
  cases headers.heap.isUnique j with
  | true => rfl
  | false => rfl

/-- No edit changes what the other headers report. -/
theorem report_after_edit (headers : Headers) (change : StoreEdit) (h : j ≠ i) :
    ((headers.after (.Edit i change)).header j).map EditedHeader.report =
      (headers.header j).map EditedHeader.report := by
  rw [after_edit]
  cases hi : headers.header i with
  | none => rfl
  | some header =>
    dsimp only
    by_cases htouches : change.touches header.storage.store = true
    · rw [if_pos htouches, report_header, report_header, value_put_of_ne h, limits_put]
    · rw [if_neg htouches]

/-- A successful `finish` leaves a header that has kept its fields and speaks the truth about them, and an
edit of one header is not noticed by the others. -/
def Sound (headers : Headers) : HeaderCall → Prop
  | .Finish i bodyLen => ∀ headers', step (.Finish i bodyLen) headers = .ok () headers' →
      ∀ header, headers.header i = some header → ∃ result, headers'.header i = some result ∧
        result.Current ∧ result.parts.flatten = header.parts.flatten
  | .Edit i change => ∀ j, j ≠ i →
      ((headers.after (.Edit i change)).header j).map EditedHeader.report =
        (headers.header j).map EditedHeader.report
  | _ => True

theorem Faithful.sound (h : headers.Faithful) {call : HeaderCall} (hsafe : headers.Safe call) :
    headers.Sound call := by
  cases call with
  | Finish i bodyLen =>
    intro headers' hrun header hheader
    have hends := ends_finish h i bodyLen
    unfold Ends at hends
    rw [show finish i bodyLen headers = .ok () headers' from hrun] at hends
    obtain ⟨result, hfinish, hresult⟩ := hends.2 header hheader
    have hstorage := h.storage hheader
    exact ⟨result, hresult, EditedHeader.current_of_finish hstorage (hsafe header hheader) hfinish,
      EditedHeader.flatten_parts_of_finish hstorage hfinish⟩
  | Edit i change => exact fun j hj => report_after_edit headers change hj
  | New _ _ | NewIndexed _ _ | Clone _ | Drop _ | AsBytes _ | Normalized _ | MatchingHeader _
  | SetStatus _ _ | IntoStreamingBytes _ => exact trivial

/-- In a program that stays clear of stale views no view is stale. -/
theorem views_current {calls : List HeaderCall}
    (h : Throughout Headers.after Safe Headers.none calls) :
    Throughout Headers.after Sound Headers.none calls := by
  rintro before call later rfl
  obtain ⟨hbefore, hrest⟩ := Replay.throughout_append.mp h
  obtain ⟨hcall, -⟩ := Replay.throughout_cons.mp hrest
  exact (faithful_replay faithful_none hbefore).sound hcall

/-- A copy is edited while its original keeps the view that has been read. -/
theorem views_current_copy : Throughout Headers.after Sound Headers.none
    [.New (strBytes "A: 1\nB: 2\n\n") MessageLimits.default, .AsBytes 0, .Clone 0,
      .Edit 1 (.removeMatching (strBytes "A")), .Finish 1 0, .MatchingHeader 1] :=
  views_current (by decide +kernel)

/-- A copy that is turned into its bytes leaves the view to the other handle, whose edit is not safe. -/
example : ¬Throughout Headers.after Safe Headers.none
    [.New (strBytes "A: 1\nB: 2\n\n") MessageLimits.default, .Clone 0, .IntoStreamingBytes 1,
      .Edit 0 (.removeMatching (strBytes "A"))] := by decide +kernel

/-- The only header is read and edited. -/
def readThenEdited : List HeaderCall :=
  [.New (strBytes "A: 1\nB: 2\n\n") MessageLimits.default, .AsBytes 0,
    .Edit 0 (.removeMatching (strBytes "A"))]

/-- After its `finish`, the header still reports the field that is gone. -/
theorem edited_view_stale :
    ¬ Throughout Headers.after Sound Headers.none (readThenEdited ++ [.Finish 0 0]) := by
  intro h
  have hrun : ∃ headers old result,
      step (.Finish 0 0) (Replay.replay Headers.after Headers.none readThenEdited) =
        .ok () headers ∧
      (Replay.replay Headers.after Headers.none readThenEdited).header 0 = some old ∧
      headers.header 0 = some result ∧ result.asBytes ≠ result.parts.flatten := by
    refine ⟨_, _, _, rfl, rfl, rfl, ?_⟩
    decide +kernel
  obtain ⟨headers, old, result, hstep, hold, hresult, hstale⟩ := hrun
  obtain ⟨_, hheader, hcurrent, -⟩ := h readThenEdited (.Finish 0 0) [] rfl headers hstep old hold
  rw [hresult] at hheader
  cases hheader
  exact hstale hcurrent.asBytes

end Headers

end ProcmailRs
