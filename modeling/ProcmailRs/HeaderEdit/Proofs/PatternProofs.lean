import ProcmailRs.HeaderEdit.Pattern
import ProcmailRs.HeaderEdit.Proofs.FieldListProofs

/-!
# Pattern edits on the list of fields

What the edits by patterns do to the list of the field texts: a deletion leaves some of the fields, a
pass over the fields treats them one by one, and an added field comes last.
-/

namespace ProcmailRs

/-- What is left of a field after an edit. -/
def FieldEdit.applied (edit : Field → FieldEdit) (text : Bytes) : List Bytes :=
  match edit (fieldFromBytes text) with
  | .Keep => [text]
  | .Replace bytes => [bytes]
  | .Remove => []

namespace HeaderStore

/-! ### Deletion -/

theorem Wf.retain {store : HeaderStore} (h : store.Wf) {kept gone : List HeaderField}
    (hperm : (kept ++ gone).Perm store.fields) :
    (store.retain kept gone).Wf ∧
      (store.retain kept gone).texts = kept.map (fun f => f.raw.slice store.bytes) ∧
      (store.retain kept gone).ceiling = store.ceiling ∧
      (store.retain kept gone).bytes.length ≤ store.bytes.length := by
  obtain ⟨hwf, htexts, -, hceil, hlen⟩ := (h.release hperm).coalesceFree
  refine ⟨hwf, htexts.trans ?_, hceil, hlen⟩
  rw [texts_eq]

/-- A deletion that keeps the order of the fields leaves some of the texts. -/
structure Deletes (store result : HeaderStore) : Prop where
  wf : result.Wf
  texts : result.texts.Sublist store.texts
  room : result.bytes.length ≤ store.bytes.length

theorem Wf.deletes {store : HeaderStore} (h : store.Wf) {kept gone : List HeaderField}
    (hperm : (kept ++ gone).Perm store.fields) (hsub : kept.Sublist store.fields) :
    store.Deletes (store.retain kept gone) := by
  obtain ⟨hwf, htexts, -, hlen⟩ := h.retain hperm
  refine ⟨hwf, ?_, hlen⟩
  rw [htexts, texts_eq]
  exact hsub.map _

theorem Wf.removeMatchingPattern {store : HeaderStore} (h : store.Wf) (pattern : Bytes) :
    store.Deletes (store.removeMatchingPattern pattern) := by
  refine h.deletes ?_ List.filter_sublist
  exact List.perm_append_comm.trans (List.filter_append_perm _ store.fields)

theorem splitRepeated_spec (store : HeaderStore) (pattern : Bytes) (seen : List Bytes)
    (fields : List HeaderField) :
    ((store.splitRepeated pattern seen fields).1 ++
        (store.splitRepeated pattern seen fields).2).Perm fields ∧
      (store.splitRepeated pattern seen fields).1.Sublist fields := by
  induction fields generalizing seen with
  | nil => exact ⟨List.Perm.nil, List.Sublist.slnil⟩
  | cons field rest ih =>
    have hkept : ∀ seen, (field :: (store.splitRepeated pattern seen rest).1 ++
          (store.splitRepeated pattern seen rest).2).Perm (field :: rest) ∧
        (field :: (store.splitRepeated pattern seen rest).1).Sublist (field :: rest) :=
      fun seen => ⟨(ih seen).1.cons field, (ih seen).2.cons_cons field⟩
    simp only [splitRepeated]
    split_ifs with hmatch hseen
    · exact ⟨List.perm_middle.trans ((ih seen).1.cons field), (ih seen).2.cons field⟩
    · exact hkept _
    · exact hkept _

theorem Wf.makeUniqueFirst {store : HeaderStore} (h : store.Wf) (pattern : Bytes) :
    store.Deletes (store.makeUniqueFirst pattern) := by
  obtain ⟨hperm, hsub⟩ := splitRepeated_spec store pattern [] store.fields
  exact h.deletes hperm hsub

theorem Wf.makeUniqueLast {store : HeaderStore} (h : store.Wf) (pattern : Bytes) :
    store.Deletes (store.makeUniqueLast pattern) := by
  obtain ⟨hperm, hsub⟩ := splitRepeated_spec store pattern [] store.fields.reverse
  refine h.deletes ?_ (List.reverse_sublist.mp (by rwa [List.reverse_reverse]))
  have hreverse := ((List.reverse_perm _).append (List.reverse_perm _)).trans hperm
  exact hreverse.trans (List.reverse_perm _)

/-! ### One pass over the fields -/

/-- A successful replacement of the field behind the ones already passed. -/
theorem Wf.replace {store result : HeaderStore} (h : store.Wf) {passed rest : List Bytes}
    {text replacement : Bytes} (htexts : store.texts = passed ++ text :: rest)
    (hok : store.replace passed.length replacement = .ok result) :
    result.Wf ∧ result.texts = passed ++ replacement :: rest ∧ result.ceiling = store.ceiling ∧
      result.bytes.length ≤ max store.bytes.length store.ceiling := by
  obtain ⟨hwf, hremoved, hceil, hlen⟩ := h.remove passed.length
  have herase : (store.remove passed.length).texts = passed ++ rest := by
    rw [hremoved, htexts, List.eraseIdx_append_of_length_le le_rfl]
    simp
  have hindex : passed.length ≤ (store.remove passed.length).fields.length := by
    rw [← length_texts, herase]
    simp
  unfold HeaderStore.replace at hok
  by_cases hempty : replacement = []
  · rw [hempty, HeaderStore.insert, if_pos (by rfl)] at hok
    cases hok
  · rcases hwf.insert_cases hindex hempty with
      ⟨inserted, hres, hiwf, hitexts, hiceil, hilen⟩ | ⟨failed, hres, -⟩
    · rw [hres] at hok
      obtain rfl := Except.ok.inj hok
      rw [herase, FieldList.insertIdx_append_length] at hitexts
      rw [hceil] at hiceil hilen
      exact ⟨hiwf, hitexts, hiceil, by omega⟩
    · rw [hres] at hok
      cases hok

/-- The loop over the fields behind the ones already passed. -/
theorem editFrom_eq_ok {edit : Field → FieldEdit} {rounds : Nat} {passed rest : List Bytes}
    {store result : HeaderStore} (h : store.Wf) (htexts : store.texts = passed ++ rest)
    (hrounds : rest.length ≤ rounds)
    (hok : editFrom edit rounds passed.length store = .ok result) :
    result.Wf ∧ result.texts = passed ++ rest.flatMap (FieldEdit.applied edit) ∧
      result.bytes.length ≤ max store.bytes.length store.ceiling := by
  induction rounds generalizing passed rest store with
  | zero =>
    obtain rfl : rest = [] := List.length_eq_zero_iff.mp (Nat.le_zero.mp hrounds)
    obtain rfl : store = result := Except.ok.inj hok
    exact ⟨h, htexts, le_max_left _ _⟩
  | succ rounds ih =>
    have hentry : store.entries[passed.length]? = rest.head?.map fieldFromBytes := by
      rw [h.entries, htexts]
      cases rest with
      | nil => simp
      | cons text rest => simp
    rw [editFrom, hentry] at hok
    cases rest with
    | nil =>
      obtain rfl : store = result := Except.ok.inj hok
      exact ⟨h, htexts, le_max_left _ _⟩
    | cons text rest =>
      have hrest : rest.length ≤ rounds := Nat.le_of_succ_le_succ hrounds
      simp only [List.head?_cons, Option.map_some] at hok
      have happlied : (text :: rest).flatMap (FieldEdit.applied edit) =
          FieldEdit.applied edit text ++ rest.flatMap (FieldEdit.applied edit) := List.flatMap_cons
      cases hedit : edit (fieldFromBytes text) with
      | Keep =>
        have hnext : editFrom edit rounds (passed ++ [text]).length store = .ok result := by
          simpa [hedit] using hok
        have hsplit : store.texts = passed ++ [text] ++ rest := by simpa using htexts
        obtain ⟨hwf, hresult, hlen⟩ := ih h hsplit hrest hnext
        refine ⟨hwf, ?_, hlen⟩
        rw [hresult, happlied, FieldEdit.applied, hedit, List.append_assoc]
      | Replace bytes =>
        simp only [hedit] at hok
        obtain ⟨replaced, hreplace, hok⟩ := bind_eq_ok hok
        obtain ⟨hwf, hsplit, hceil, hlen⟩ := h.replace htexts hreplace
        have hnext : editFrom edit rounds (passed ++ [bytes]).length replaced = .ok result := by
          simpa using hok
        obtain ⟨hwf', hresult, hlen'⟩ := ih hwf (hsplit.trans (by simp)) hrest hnext
        refine ⟨hwf', ?_, by omega⟩
        rw [hresult, happlied, FieldEdit.applied, hedit, List.append_assoc]
      | Remove =>
        simp only [hedit] at hok
        obtain ⟨hwf, hremoved, hceil, hlen⟩ := h.remove passed.length
        have hsplit : (store.remove passed.length).texts = passed ++ rest := by
          rw [hremoved, htexts, List.eraseIdx_append_of_length_le le_rfl]
          simp
        obtain ⟨hwf', hresult, hlen'⟩ := ih hwf hsplit hrest hok
        refine ⟨hwf', ?_, by omega⟩
        rw [hresult, happlied, FieldEdit.applied, hedit, List.nil_append]

/-- A pass over all fields. -/
theorem Wf.editEach {store result : HeaderStore} (h : store.Wf) {edit : Field → FieldEdit}
    (hok : store.editEach edit = .ok result) :
    result.Wf ∧ result.texts = store.texts.flatMap (FieldEdit.applied edit) ∧
      result.bytes.length ≤ max store.bytes.length store.ceiling := by
  have hlen : store.texts.length ≤ store.fields.length := by rw [length_texts]
  exact @editFrom_eq_ok edit _ [] store.texts store result h rfl hlen hok

end HeaderStore

/-! ### The edited header -/

namespace EditedHeader

variable {origin header : EditedHeader} {status : MessageStatus} {fields : List Bytes}

theorem Represents.mapStore (h : Represents origin status header fields)
    {edit : HeaderStore → HeaderStore}
    (hedit : ∀ store : HeaderStore, store.Wf → store.Deletes (edit store)) :
    ∃ result, Represents origin status (header.mapStore edit) result ∧ result.Sublist fields := by
  obtain ⟨hmut, -, hunique⟩ := h.storeMut
  obtain ⟨hwf, hsub, hlen⟩ := hedit _ hmut.editing.wf
  have hrep := hmut.withStore hunique hwf (hlen.trans hmut.editing.room)
  have hstore : header.storeMut.storage.store.texts = fields := hmut.texts
  rw [hstore] at hsub
  exact ⟨_, hrep, hsub⟩

theorem Represents.editEach (h : Represents origin status header fields)
    {edit : Field → FieldEdit} {result : EditedHeader}
    (hok : (header.editStore fun store => store.editEach edit) = .ok result) :
    Represents origin status result (fields.flatMap (FieldEdit.applied edit)) := by
  obtain ⟨hmut, hceil, hunique⟩ := h.storeMut
  obtain ⟨store, hedit, hok⟩ := bind_eq_ok hok
  obtain rfl := Except.ok.inj hok
  obtain ⟨hwf, htexts, hlen⟩ := hmut.editing.wf.editEach hedit
  have hroom := hmut.editing.room
  rw [hceil] at hlen
  have hrep := hmut.withStore hunique hwf (by omega)
  have hstore : header.storeMut.storage.store.texts = fields := hmut.texts
  rw [htexts, hstore] at hrep
  exact hrep

/-- The text of an added field. -/
def rawFieldText (lineEnding : LineEnding) (raw : Bytes) : Bytes :=
  if endsWith raw [LF] then raw else raw ++ lineEnding.bytes

theorem rawFieldText_ne_nil (lineEnding : LineEnding) (raw : Bytes) :
    rawFieldText lineEnding raw ≠ [] := by
  unfold rawFieldText
  split_ifs with hends
  · rintro rfl
    cases hends
  · cases lineEnding with
    | Lf => simp [LineEnding.bytes]
    | CrLf => simp [LineEnding.bytes]

theorem Represents.addRawField (h : Represents origin status header fields) {raw : Bytes}
    {result : EditedHeader} (hok : header.addRawField raw = .ok result) :
    Represents origin status result (fields ++ [rawFieldText origin.storage.lineEnding raw]) := by
  have hinsert := h.insert le_rfl (rawFieldText_ne_nil origin.storage.lineEnding raw)
  have htext : header.addRawField raw =
      header.insert fields.length (rawFieldText origin.storage.lineEnding raw) := by
    rw [EditedHeader.addRawField, h.fields_length, h.editing.lineEnding]
    rfl
  rw [← htext, hok] at hinsert
  obtain ⟨grown, hgrown, hrep⟩ := hinsert.exists_of_ok
  obtain ⟨-, -, heq⟩ := bind_eq_ok hgrown
  obtain rfl := Except.ok.inj heq
  rwa [List.insertIdx_length_self] at hrep

end EditedHeader

end ProcmailRs
