import ProcmailRs.HeaderEdit.Storage

/-!
# The arena holds a list of fields

`HeaderStore.Wf` says that the ranges of the live fields and the holes partition the arena and that
every index entry is the one its bytes would get afresh. Every operation of the arena keeps it, and
acts on the bytes of the fields as the plain list operation of the same name: holes, reuse, merging
and compaction do not show.
-/

namespace ProcmailRs

open Ranges

theorem fieldName_isPrefix {bytes name : Bytes} (h : fieldName bytes = some name) :
    name <+: bytes := by
  simp only [fieldName] at h
  split_ifs at h
  obtain rfl : List.takeWhile _ _ = name := by simpa using h
  exact (List.takeWhile_prefix _).trans (List.takeWhile_prefix _)

namespace HeaderStore

/-- The bytes of the fields, in output order. -/
def texts (store : HeaderStore) : List Bytes := store.entries.map Field.bytes

/-- The bytes that live fields take. -/
def liveSize (store : HeaderStore) : Nat := (store.texts.map List.length).sum

/-- The fields and the free ranges share out the bytes, and each field is the one its bytes make. -/
structure Wf (store : HeaderStore) : Prop where
  partition : Partition store.bytes.length (store.fields.map HeaderField.raw ++ store.free)
  indexed : ∀ f ∈ store.fields, f = indexField f.raw.start (f.raw.slice store.bytes)

theorem texts_eq (store : HeaderStore) :
    store.texts = store.fields.map fun f => f.raw.slice store.bytes := by
  simp [texts, entries, entry]

theorem length_texts (store : HeaderStore) : store.texts.length = store.fields.length := by
  simp [texts, entries]

/-- The slice of a name that starts its field is the name. -/
theorem slice_name {bytes text name : Bytes} {start : Nat}
    (htext : Range.slice ⟨start, start + text.length⟩ bytes = text) (hname : name <+: text) :
    Range.slice ⟨start, start + name.length⟩ bytes = name := by
  obtain ⟨rest, rfl⟩ := hname
  simp only [Range.slice, Range.len, Nat.add_sub_cancel_left] at htext ⊢
  have := congrArg (List.take name.length) htext
  rw [List.take_take] at this
  simpa using this

theorem entry_indexField {store : HeaderStore} {start : Nat} {text : Bytes}
    (h : Range.slice ⟨start, start + text.length⟩ store.bytes = text) :
    store.entry (indexField start text) = fieldFromBytes text := by
  simp only [entry, indexField, fieldFromBytes, h, Option.map_map, Field.mk.injEq, true_and]
  cases hname : fieldName text with
  | none => rfl
  | some name => exact congrArg some (slice_name h (fieldName_isPrefix hname))

theorem Wf.entry {store : HeaderStore} (h : store.Wf) {f : HeaderField} (hf : f ∈ store.fields) :
    store.entry f = fieldFromBytes (f.raw.slice store.bytes) := by
  have heq := h.indexed f hf
  have hraw : f.raw = ⟨f.raw.start, f.raw.start + (f.raw.slice store.bytes).length⟩ :=
    congrArg HeaderField.raw heq
  rw [heq]
  refine (entry_indexField ?_).trans ?_
  · rw [← hraw]
  · rw [← heq]

theorem Wf.entries {store : HeaderStore} (h : store.Wf) :
    store.entries = store.texts.map fieldFromBytes := by
  rw [texts_eq, HeaderStore.entries, List.map_map]
  exact List.map_congr_left fun f hf => h.entry hf

/-- Fields are looked up by their bytes. -/
theorem Wf.entryMatches {store : HeaderStore} (h : store.Wf) {f : HeaderField}
    (hf : f ∈ store.fields) (name : Bytes) :
    entryMatches name (store.entry f) =
      HeaderStore.entryMatches name (fieldFromBytes (f.raw.slice store.bytes)) := by
  rw [h.entry hf]

theorem Wf.length_slice {store : HeaderStore} (h : store.Wf) {f : HeaderField}
    (hf : f ∈ store.fields) : (f.raw.slice store.bytes).length = f.raw.len :=
  Range.length_slice (h.partition.stop_le
    (List.mem_append_left _ (List.mem_map_of_mem hf)))

/-- Live fields and holes together fill the arena. -/
theorem Wf.liveSize_add_free {store : HeaderStore} (h : store.Wf) :
    store.liveSize + (store.free.map Range.len).sum = store.bytes.length := by
  have hlive : store.liveSize = ((store.fields.map HeaderField.raw).map Range.len).sum := by
    rw [liveSize, texts_eq, List.map_map, List.map_map]
    congr 1
    exact List.map_congr_left fun f hf => h.length_slice hf
  rw [hlive, ← h.partition.total, List.map_append, List.sum_append]

/-! ### Holes -/

/-- Merging holes only drops bytes behind the last field. -/
theorem Wf.coalesceFree {store : HeaderStore} (h : store.Wf) :
    store.coalesceFree.Wf ∧ store.coalesceFree.texts = store.texts ∧
      store.coalesceFree.fields = store.fields ∧ store.coalesceFree.ceiling = store.ceiling ∧
      store.coalesceFree.bytes.length ≤ store.bytes.length := by
  set free := coalesce (store.free.insertionSort fun a b => a.start ≤ b.start) with hfree
  have hpart : Partition store.bytes.length (free ++ store.fields.map HeaderField.raw) := by
    apply Partition.coalesce
    refine h.partition.perm (List.perm_append_comm.trans ?_)
    exact List.Perm.append_right _ (List.perm_insertionSort _ _).symm
  have hcoalesced : HeaderStore.Wf { store with free := free } :=
    ⟨hpart.perm List.perm_append_comm, h.indexed⟩
  simp only [HeaderStore.coalesceFree, ← hfree]
  split
  · rename_i range hlast
    split_ifs with hstop
    · obtain ⟨init, hinit⟩ : ∃ init, free = init ++ [range] := List.getLast?_eq_some_iff.mp hlast
      have hcut : Partition range.start (init ++ store.fields.map HeaderField.raw) := by
        refine Partition.truncate (hpart.perm ?_) hstop
        rw [hinit, List.append_assoc]
        exact List.perm_middle
      have hle : range.start ≤ store.bytes.length := by
        have := hpart.nonempty range (by rw [hinit]; simp)
        omega
      have hslice : ∀ f ∈ store.fields,
          f.raw.slice (store.bytes.take range.start) = f.raw.slice store.bytes := by
        intro f hf
        exact Range.slice_take (hcut.stop_le (List.mem_append_right _ (List.mem_map_of_mem hf)))
      refine ⟨⟨?_, fun f hf => ?_⟩, ?_, rfl, rfl, ?_⟩
      · rw [show (free.dropLast) = init by rw [hinit, List.dropLast_concat],
          List.length_take, Nat.min_eq_left hle]
        exact hcut.perm List.perm_append_comm
      · show f = indexField f.raw.start (f.raw.slice (store.bytes.take range.start))
        rw [hslice f hf]
        exact h.indexed f hf
      · rw [texts_eq, texts_eq]
        exact List.map_congr_left hslice
      · show (store.bytes.take range.start).length ≤ store.bytes.length
        rw [List.length_take]
        omega
    · exact ⟨hcoalesced, rfl, rfl, rfl, le_rfl⟩
  · exact ⟨hcoalesced, rfl, rfl, rfl, le_rfl⟩

/-- Moving fields to the list of holes keeps the partition. -/
theorem Wf.release {store : HeaderStore} (h : store.Wf) {kept gone : List HeaderField}
    (hp : (kept ++ gone).Perm store.fields) :
    HeaderStore.Wf
      { store with fields := kept, free := store.free ++ gone.map HeaderField.raw } := by
  refine ⟨h.partition.perm ?_, fun f hf => h.indexed f (hp.subset (List.mem_append_left _ hf))⟩
  show (store.fields.map HeaderField.raw ++ store.free).Perm
    (kept.map HeaderField.raw ++ (store.free ++ gone.map HeaderField.raw))
  refine ((hp.symm.map HeaderField.raw).append_right _).trans ?_
  rw [List.map_append, List.append_assoc]
  exact List.Perm.append_left _ List.perm_append_comm

theorem perm_eraseIdx {α : Type*} {l : List α} {i : Nat} {a : α} (h : l[i]? = some a) :
    (l.eraseIdx i ++ [a]).Perm l := by
  obtain ⟨hi, rfl⟩ := List.getElem?_eq_some_iff.mp h
  exact (List.perm_append_singleton _ _).trans (List.getElem_cons_eraseIdx_perm hi)

theorem Wf.remove {store : HeaderStore} (h : store.Wf) (index : Nat) :
    (store.remove index).Wf ∧ (store.remove index).texts = store.texts.eraseIdx index ∧
      (store.remove index).ceiling = store.ceiling ∧
      (store.remove index).bytes.length ≤ store.bytes.length := by
  simp only [HeaderStore.remove]
  split
  · rename_i hnone
    have hlen : store.texts.length ≤ index := by
      rw [length_texts]
      exact List.getElem?_eq_none_iff.mp hnone
    exact ⟨h, (List.eraseIdx_of_length_le hlen).symm, rfl, le_rfl⟩
  · rename_i field hsome
    obtain ⟨hwf, htexts, -, hceil, hlen⟩ := (h.release (perm_eraseIdx hsome)).coalesceFree
    refine ⟨hwf, htexts.trans ?_, hceil, hlen⟩
    rw [texts_eq, texts_eq, ← List.eraseIdx_map]

theorem Wf.removeMatching {store : HeaderStore} (h : store.Wf) (name : Bytes) :
    (store.removeMatching name).Wf ∧
      (store.removeMatching name).texts =
        store.texts.filter (fun text => !HeaderStore.entryMatches name (fieldFromBytes text)) ∧
      (store.removeMatching name).ceiling = store.ceiling ∧
      (store.removeMatching name).bytes.length ≤ store.bytes.length := by
  set matching := fun field => HeaderStore.entryMatches name (store.entry field)
  have hperm : (store.fields.filter (fun field => !matching field) ++
      store.fields.filter matching).Perm store.fields :=
    List.perm_append_comm.trans (List.filter_append_perm matching store.fields)
  obtain ⟨hwf, htexts, -, hceil, hlen⟩ := (h.release hperm).coalesceFree
  refine ⟨hwf, htexts.trans ?_, hceil, hlen⟩
  rw [texts_eq, texts_eq, List.filter_map]
  congr 1
  refine List.filter_congr fun f hf => ?_
  show (!matching f) = _
  simp only [matching, h.entryMatches hf, Function.comp]

/-! ### Compaction -/

/-- The ranges of the fields at some positions. -/
def rangesAt (fields : List HeaderField) (indices : List Nat) : List Range :=
  indices.filterMap fun i => fields[i]?.map HeaderField.raw

/-- A compaction of the fields `fields` of `bytes` has moved the positions `done` and not yet the
positions `todo`: the moved fields fill the arena up to the cursor, and every field, moved or not,
still has its bytes. -/
structure Compacting (bytes : Bytes) (fields : List HeaderField) (done todo : List Nat)
    (state : Compaction) : Prop where
  length : state.bytes.length = bytes.length
  count : state.fields.length = fields.length
  within : state.cursor ≤ state.bytes.length
  tiles : Partition state.cursor (rangesAt state.fields done)
  moved : ∀ i ∈ done, ∀ f, fields[i]? = some f →
    ∃ g, state.fields[i]? = some g ∧ g.raw.slice state.bytes = f.raw.slice bytes ∧
      g = indexField g.raw.start (f.raw.slice bytes) ∧ g.raw.stop ≤ state.cursor
  pending : ∀ i ∈ todo, ∀ f, fields[i]? = some f →
    state.fields[i]? = some f ∧ f.raw.slice state.bytes = f.raw.slice bytes ∧
      state.cursor ≤ f.raw.start

theorem map_shift_name (text : Bytes) (start cursor : Nat) :
    ((indexField start text).name.map fun name =>
        (⟨cursor + (name.start - start), cursor + (name.stop - start)⟩ : Range)) =
      (indexField cursor text).name := by
  simp only [indexField, Option.map_map]
  congr 1
  funext name
  simp

theorem compactField_eq {state : Compaction} {index : Nat} {f : HeaderField} {text : Bytes}
    (hf : state.fields[index]? = some f) (htext : f.raw.slice state.bytes = text)
    (hindex : f = indexField f.raw.start text) :
    compactField state index =
      { bytes := overwrite state.bytes state.cursor text
        fields := state.fields.set index (indexField state.cursor text)
        cursor := state.cursor + text.length } := by
  have hlen : f.raw.len = text.length := by
    rw [hindex]
    simp [indexField, Range.len]
  have hname := map_shift_name text f.raw.start state.cursor
  rw [← hindex] at hname
  simp only [compactField, hf, htext, hlen, hname]
  rfl

/-- One step of the compaction. The field moves down to the cursor, which lies at or before its old
start, so neither the fields moved before nor those still to move are touched. -/
theorem Compacting.step {bytes : Bytes} {fields : List HeaderField} {done todo : List Nat}
    {state : Compaction} {index : Nat} {f : HeaderField}
    (h : Compacting bytes fields done (index :: todo) state)
    (hf : fields[index]? = some f) (hstop : f.raw.stop ≤ bytes.length)
    (hne : f.raw.start < f.raw.stop)
    (hindex : f = indexField f.raw.start (f.raw.slice bytes))
    (hdone : index ∉ done) (htodo : index ∉ todo)
    (hafter : ∀ i ∈ todo, ∀ g, fields[i]? = some g → f.raw.stop ≤ g.raw.start) :
    Compacting bytes fields (done ++ [index]) todo (compactField state index) := by
  obtain ⟨hcur, htext, hcursor⟩ := h.pending index (by simp) f hf
  have hlt : index < state.fields.length := (List.getElem?_eq_some_iff.mp hcur).1
  have hlen : (f.raw.slice bytes).length = f.raw.len := Range.length_slice hstop
  have hfit : state.cursor + (f.raw.slice bytes).length ≤ state.bytes.length := by
    rw [hlen, h.length, Range.len]
    omega
  rw [compactField_eq hcur htext hindex]
  refine ⟨?_, by simpa using h.count, ?_, ?_, ?_, ?_⟩
  · rw [length_overwrite hfit, h.length]
  · rw [length_overwrite hfit]
    exact hfit
  · have hsame : rangesAt (state.fields.set index (indexField state.cursor (f.raw.slice bytes)))
        (done ++ [index]) = rangesAt state.fields done ++
          [⟨state.cursor, state.cursor + (f.raw.slice bytes).length⟩] := by
      rw [rangesAt, List.filterMap_append]
      congr 1
      · refine List.filterMap_congr fun i hi => ?_
        rw [List.getElem?_set_ne (ne_of_mem_of_not_mem hi hdone).symm]
      · simp [List.getElem?_set_self hlt, indexField]
    rw [hsame]
    refine (h.tiles.extend ?_).perm (List.perm_append_singleton _ _).symm
    rw [hlen, Range.len]
    omega
  · intro i hi g hg
    rcases List.mem_append.mp hi with hi | hi
    · obtain ⟨g', hg', hslice, hidx, hle⟩ := h.moved i hi g hg
      refine ⟨g', ?_, ?_, hidx, by simp only; omega⟩
      · rw [List.getElem?_set_ne (ne_of_mem_of_not_mem hi hdone).symm, hg']
      · rw [slice_overwrite_of_disjoint hfit (Or.inl hle), hslice]
    · obtain rfl : i = index := by simpa using hi
      obtain rfl : f = g := by simpa [hf] using hg
      refine ⟨_, List.getElem?_set_self hlt, ?_, rfl, le_rfl⟩
      exact slice_overwrite_self (by omega)
  · intro i hi g hg
    obtain ⟨hg', hslice, -⟩ := h.pending i (by simp [hi]) g hg
    have hnext := hafter i hi g hg
    have hbound : state.cursor + (f.raw.slice bytes).length ≤ g.raw.start := by
      rw [hlen, Range.len]
      omega
    refine ⟨?_, ?_, hbound⟩
    · rw [List.getElem?_set_ne (ne_of_mem_of_not_mem hi htodo).symm, hg']
    · rw [slice_overwrite_of_disjoint hfit (Or.inr hbound), hslice]

/-- The whole compaction, by induction on the positions still to move, which are in physical
order. -/
theorem Compacting.run {bytes : Bytes} {fields : List HeaderField} {done todo : List Nat}
    {state : Compaction} (h : Compacting bytes fields done todo state)
    (hvalid : ∀ i ∈ todo, ∃ f, fields[i]? = some f ∧ f.raw.stop ≤ bytes.length ∧
      f.raw.start < f.raw.stop ∧ f = indexField f.raw.start (f.raw.slice bytes))
    (hnodup : (done ++ todo).Nodup)
    (horder : todo.Pairwise fun i j => ∀ f g, fields[i]? = some f → fields[j]? = some g →
      f.raw.stop ≤ g.raw.start) :
    Compacting bytes fields (done ++ todo) [] (todo.foldl compactField state) := by
  induction todo generalizing done state with
  | nil => simpa using h
  | cons index todo ih =>
    obtain ⟨f, hf, hstop, hne, hindex⟩ := hvalid index (by simp)
    obtain ⟨hhead, htail⟩ := List.pairwise_cons.mp horder
    obtain ⟨-, hcons, hdisj⟩ := List.nodup_append.mp hnodup
    have hdone : index ∉ done := fun hi => hdisj index hi index (by simp) rfl
    have htodo : index ∉ todo := (List.nodup_cons.mp hcons).1
    have hstep := h.step hf hstop hne hindex hdone htodo
      (fun i hi g hg => hhead i hi f g hf hg)
    have hrun := ih hstep (fun i hi => hvalid i (by simp [hi])) (by simpa using hnodup) htail
    simpa using hrun

/-- Two live fields at different positions do not overlap. -/
theorem Wf.disjoint {store : HeaderStore} (h : store.Wf) {i j : Nat} (hij : i ≠ j)
    {f g : HeaderField} (hf : store.fields[i]? = some f) (hg : store.fields[j]? = some g) :
    f.raw.stop ≤ g.raw.start ∨ g.raw.stop ≤ f.raw.start := by
  have hpair := (List.pairwise_append.mp h.partition.pairwise).1
  rw [List.pairwise_map, List.pairwise_iff_getElem] at hpair
  obtain ⟨hi, rfl⟩ := List.getElem?_eq_some_iff.mp hf
  obtain ⟨hj, rfl⟩ := List.getElem?_eq_some_iff.mp hg
  rcases Nat.lt_or_gt_of_ne hij with hlt | hlt
  · exact hpair i j hi hj hlt
  · exact (hpair j i hj hi hlt).symm

/-- The positions of the fields in the order of the arena. -/
def physicalOrder (fields : List HeaderField) : List Nat :=
  (List.range fields.length).insertionSort fun i j => fieldStart fields i ≤ fieldStart fields j

theorem Wf.physicalOrder_ordered {store : HeaderStore} (h : store.Wf) :
    (physicalOrder store.fields).Pairwise fun i j => ∀ f g, store.fields[i]? = some f →
      store.fields[j]? = some g → f.raw.stop ≤ g.raw.start := by
  have htotal : Std.Total fun i j => fieldStart store.fields i ≤ fieldStart store.fields j :=
    ⟨fun i j => Nat.le_total _ _⟩
  have htrans : IsTrans Nat fun i j => fieldStart store.fields i ≤ fieldStart store.fields j :=
    ⟨fun _ _ _ => Nat.le_trans⟩
  have hsorted := List.pairwise_insertionSort
    (fun i j => fieldStart store.fields i ≤ fieldStart store.fields j)
    (List.range store.fields.length)
  have hnodup : (physicalOrder store.fields).Nodup :=
    (List.perm_insertionSort _ _).nodup_iff.mpr List.nodup_range
  refine (hsorted.and hnodup).imp fun {i j} hij f g hf hg => ?_
  obtain ⟨hle, hne⟩ := hij
  simp only [fieldStart, hf, hg, Option.map_some, Option.getD_some] at hle
  have hgne := h.partition.nonempty g.raw (List.mem_append_left _
    (List.mem_map_of_mem (List.mem_of_getElem? hg)))
  rcases h.disjoint hne hf hg with hdis | hdis
  · exact hdis
  · omega

theorem rangesAt_range (fields : List HeaderField) :
    rangesAt fields (List.range fields.length) = fields.map HeaderField.raw := by
  induction fields using List.reverseRecOn with
  | nil => simp [rangesAt]
  | append_singleton fields f ih =>
    have hinit : rangesAt (fields ++ [f]) (List.range fields.length) =
        rangesAt fields (List.range fields.length) := by
      refine List.filterMap_congr fun j hj => ?_
      rw [List.getElem?_append_left (List.mem_range.mp hj)]
    rw [List.length_append, List.length_singleton, List.range_succ, rangesAt,
      List.filterMap_append, ← rangesAt, hinit, ih]
    simp

/-- Compaction keeps the fields and leaves an arena without holes. -/
theorem Wf.compact {store : HeaderStore} (h : store.Wf) :
    store.compact.Wf ∧ store.compact.texts = store.texts ∧ store.compact.free = [] ∧
      store.compact.ceiling = store.ceiling ∧ store.compact.bytes.length = store.liveSize := by
  have hperm : (physicalOrder store.fields).Perm (List.range store.fields.length) :=
    List.perm_insertionSort _ _
  set state := (physicalOrder store.fields).foldl compactField ⟨store.bytes, store.fields, 0⟩
    with hstate
  have hstart : Compacting store.bytes store.fields [] (physicalOrder store.fields)
      ⟨store.bytes, store.fields, 0⟩ :=
    ⟨rfl, rfl, Nat.zero_le _, Partition.nil, by simp, fun i _ f hf => ⟨hf, rfl, by simp⟩⟩
  have hvalid : ∀ i ∈ physicalOrder store.fields, ∃ f, store.fields[i]? = some f ∧
      f.raw.stop ≤ store.bytes.length ∧ f.raw.start < f.raw.stop ∧
      f = indexField f.raw.start (f.raw.slice store.bytes) := by
    intro i hi
    have hlt : i < store.fields.length := List.mem_range.mp (hperm.mem_iff.mp hi)
    have hmem := List.mem_append_left store.free
      (List.mem_map_of_mem (f := HeaderField.raw) (List.getElem_mem hlt))
    exact ⟨_, List.getElem?_eq_getElem hlt, h.partition.stop_le hmem, h.partition.nonempty _ hmem,
      h.indexed _ (List.getElem_mem hlt)⟩
  have hdone := hstart.run hvalid (by simpa using hperm.nodup_iff.mpr List.nodup_range)
    h.physicalOrder_ordered
  rw [← hstate, List.nil_append] at hdone
  have htiles : Partition state.cursor (state.fields.map HeaderField.raw) := by
    refine hdone.tiles.perm ?_
    rw [← rangesAt_range, hdone.count]
    exact hperm.filterMap _
  have hfield : ∀ (i : Nat) (hi : i < state.fields.length) (hi' : i < store.fields.length),
      state.fields[i].raw.slice (state.bytes.take state.cursor) =
        store.fields[i].raw.slice store.bytes ∧
      state.fields[i] = indexField state.fields[i].raw.start
        (store.fields[i].raw.slice store.bytes) := by
    intro i hi hi'
    obtain ⟨g, hg, hslice, hidx, hle⟩ := hdone.moved i
      (hperm.mem_iff.mpr (List.mem_range.mpr hi')) _ (List.getElem?_eq_getElem hi')
    obtain rfl : state.fields[i] = g := by simpa [List.getElem?_eq_getElem hi] using hg
    exact ⟨by rw [Range.slice_take hle, hslice], hidx⟩
  have hwf : store.compact.Wf := by
    refine ⟨?_, fun g hg => ?_⟩
    · show Partition (state.bytes.take state.cursor).length (state.fields.map HeaderField.raw ++ [])
      rw [List.append_nil, List.length_take, Nat.min_eq_left hdone.within]
      exact htiles
    · obtain ⟨i, hi, rfl⟩ := List.getElem_of_mem (show g ∈ state.fields from hg)
      obtain ⟨hslice, hidx⟩ := hfield i hi (hdone.count ▸ hi)
      show state.fields[i] = indexField _ (state.fields[i].raw.slice (state.bytes.take state.cursor))
      rw [hslice]
      exact hidx
  have htexts : store.compact.texts = store.texts := by
    rw [texts_eq, texts_eq]
    show state.fields.map (fun f => f.raw.slice (state.bytes.take state.cursor)) = _
    refine List.ext_getElem ?_ fun i hi hi' => ?_
    · simpa using hdone.count
    · simp only [List.getElem_map]
      exact (hfield i (by simpa using hi) (by simpa using hi')).1
  refine ⟨hwf, htexts, rfl, rfl, ?_⟩
  have htotal := hwf.liveSize_add_free
  rw [show store.compact.free = [] from rfl, List.map_nil, List.sum_nil, Nat.add_zero] at htotal
  rw [← htotal, liveSize, htexts, ← liveSize]

/-! ### Insertion -/

theorem texts_insertIdx {store : HeaderStore} {bytes text : Bytes} {start index : Nat}
    (hold : ∀ f ∈ store.fields, f.raw.slice bytes = f.raw.slice store.bytes)
    (hnew : Range.slice ⟨start, start + text.length⟩ bytes = text) (free : List Range) :
    HeaderStore.texts { store with
      bytes := bytes, free := free, fields := store.fields.insertIdx index (indexField start text) } =
      store.texts.insertIdx index text := by
  rw [texts_eq, texts_eq, List.map_insertIdx]
  congr 1
  exact List.map_congr_left hold

theorem Wf.insertIdx {store : HeaderStore} (h : store.Wf) {bytes text : Bytes}
    {start index : Nat} (hindex : index ≤ store.fields.length)
    (hold : ∀ f ∈ store.fields, f.raw.slice bytes = f.raw.slice store.bytes)
    (hnew : Range.slice ⟨start, start + text.length⟩ bytes = text) {free : List Range}
    (hpart : Partition bytes.length
      (⟨start, start + text.length⟩ :: (store.fields.map HeaderField.raw ++ free))) :
    HeaderStore.Wf { store with
      bytes := bytes, free := free,
      fields := store.fields.insertIdx index (indexField start text) } := by
  have hperm : (store.fields.insertIdx index (indexField start text)).Perm
      (indexField start text :: store.fields) := List.perm_insertIdx _ _ hindex
  refine ⟨hpart.perm ?_, fun f hf => ?_⟩
  · exact ((hperm.map HeaderField.raw).append_right free).symm
  · rcases List.mem_cons.mp (hperm.mem_iff.mp hf) with rfl | hf
    · show indexField start text = indexField start (Range.slice ⟨start, start + text.length⟩ bytes)
      rw [hnew]
    · show f = indexField f.raw.start (f.raw.slice bytes)
      rw [hold f hf]
      exact h.indexed f hf

/-- Reuse of a hole: the new field lies in it, and what is left of it stays a hole. -/
theorem Wf.reuse {store : HeaderStore} (h : store.Wf) {index position : Nat} {text : Bytes}
    {hole : Range} (hindex : index ≤ store.fields.length) (htext : text ≠ [])
    (hhole : store.free[position]? = some hole) (hfit : text.length ≤ hole.len) {free : List Range}
    (hfree : free = if hole.start + text.length < hole.stop
      then store.free.set position ⟨hole.start + text.length, hole.stop⟩
      else store.free.eraseIdx position) :
    let bytes := overwrite store.bytes hole.start text
    let result : HeaderStore := { store with
      bytes := bytes, free := free
      fields := store.fields.insertIdx index (indexField hole.start text) }
    result.Wf ∧ result.texts = store.texts.insertIdx index text ∧
      bytes.length = store.bytes.length := by
  intro bytes result
  have hpos : position < store.free.length := (List.getElem?_eq_some_iff.mp hhole).1
  have hpos' : 0 < text.length := List.length_pos_iff.mpr htext
  have hperm : (store.fields.map HeaderField.raw ++ store.free).Perm
      (hole :: (store.fields.map HeaderField.raw ++ store.free.eraseIdx position)) := by
    refine (List.Perm.append_left _ ((List.perm_append_singleton _ _).symm.trans
      (perm_eraseIdx hhole)).symm).trans ?_
    exact List.perm_middle
  have hpart := h.partition.perm hperm
  have hstop : hole.stop ≤ store.bytes.length := hpart.stop_le (by simp)
  have hroom : hole.start + text.length ≤ hole.stop := by
    have := hpart.nonempty hole (by simp)
    rw [Range.len] at hfit
    omega
  have hlen : bytes.length = store.bytes.length := length_overwrite (by omega)
  have hold : ∀ f ∈ store.fields, f.raw.slice bytes = f.raw.slice store.bytes := by
    intro f hf
    refine slice_overwrite_of_disjoint (by omega) ?_
    have hdis := (List.pairwise_cons.mp hpart.pairwise).1 f.raw
      (List.mem_append_left _ (List.mem_map_of_mem hf))
    omega
  have hnew : Range.slice ⟨hole.start, hole.start + text.length⟩ bytes = text :=
    slice_overwrite_self (by omega)
  refine ⟨h.insertIdx hindex hold hnew ?_, texts_insertIdx hold hnew free, hlen⟩
  rw [hlen, hfree]
  split_ifs with hrest
  · have hcut := hpart.cut (b := hole.start + text.length) (by omega) hrest
    refine hcut.perm (List.Perm.cons _ ?_)
    refine List.Perm.trans ?_ (List.Perm.append_left _ (List.set_perm_cons_eraseIdx hpos _).symm)
    exact List.perm_middle.symm
  · have heq : hole.start + text.length = hole.stop := by omega
    rw [heq]
    exact hpart

/-- Growth at the end of the arena. -/
theorem Wf.grow {store : HeaderStore} (h : store.Wf) {index : Nat} {text : Bytes}
    (hindex : index ≤ store.fields.length) (htext : text ≠ []) :
    let result : HeaderStore := { store with
      bytes := store.bytes ++ text
      fields := store.fields.insertIdx index (indexField store.bytes.length text) }
    result.Wf ∧ result.texts = store.texts.insertIdx index text := by
  intro result
  have hold : ∀ f ∈ store.fields, f.raw.slice (store.bytes ++ text) = f.raw.slice store.bytes := by
    intro f hf
    exact Range.slice_append _ (h.partition.stop_le
      (List.mem_append_left _ (List.mem_map_of_mem hf)))
  have hnew : Range.slice ⟨store.bytes.length, store.bytes.length + text.length⟩
      (store.bytes ++ text) = text := by
    simpa using Range.slice_middle store.bytes text []
  refine ⟨h.insertIdx hindex hold hnew ?_, texts_insertIdx hold hnew store.free⟩
  rw [List.length_append]
  exact h.partition.extend (List.length_pos_iff.mpr htext)

theorem Wf.ready {store : HeaderStore} (h : store.Wf) (size : Nat) :
    (store.ready size).Wf ∧ (store.ready size).texts = store.texts ∧
      (store.ready size).ceiling = store.ceiling ∧
      (store.ready size).bytes.length ≤ store.bytes.length ∧
      ((store.ready size).findHole size = none →
        (store.ready size).bytes.length + size ≤ store.ceiling ∨
          (store.ready size).bytes.length = store.liveSize) := by
  have hlive := h.liveSize_add_free
  rw [HeaderStore.ready]
  split_ifs with hcond
  · obtain ⟨hwf, htexts, -, hceil, hlen⟩ := h.compact
    exact ⟨hwf, htexts, hceil, by omega, fun _ => Or.inr hlen⟩
  · refine ⟨h, rfl, rfl, le_rfl, fun hnone => Or.inl ?_⟩
    by_contra hgrow
    exact hcond ⟨by simp [hnone], by omega⟩

theorem findHole_some {store : HeaderStore} {size position : Nat}
    (h : store.findHole size = some position) :
    ∃ hole, store.free[position]? = some hole ∧ size ≤ hole.len := by
  obtain ⟨hlt, hfit, -⟩ := List.findIdx?_eq_some_iff_getElem.mp h
  exact ⟨_, List.getElem?_eq_getElem hlt, by simpa using hfit⟩

theorem Wf.place_cases {store : HeaderStore} (h : store.Wf) {index : Nat} {text : Bytes}
    (hindex : index ≤ store.fields.length) (htext : text ≠ []) :
    (∃ result, store.place index text = .ok () result ∧ result.Wf ∧
      result.texts = store.texts.insertIdx index text ∧ result.ceiling = store.ceiling ∧
      result.bytes.length ≤ max store.bytes.length store.ceiling) ∨
    (store.place index text = .error (.LimitExceeded .Headers store.ceiling) store ∧
      store.findHole text.length = none ∧ store.ceiling < store.bytes.length + text.length) := by
  cases hhole : store.findHole text.length with
  | some position =>
    left
    obtain ⟨hole, hat, hfit⟩ := findHole_some hhole
    obtain ⟨hres, hrtexts, hrlen⟩ := h.reuse hindex htext hat hfit rfl
    have hget : store.free.getD position ⟨0, 0⟩ = hole := by
      rw [List.getD_eq_getElem?_getD, hat, Option.getD_some]
    refine ⟨_, by simp only [place, hhole, hget], hres, hrtexts, rfl, ?_⟩
    show (overwrite store.bytes hole.start text).length ≤ _
    omega
  | none =>
    by_cases hlimit : store.bytes.length + text.length > store.ceiling
    · right
      exact ⟨by simp only [place, hhole, checkLimit, if_pos hlimit], rfl, hlimit⟩
    · left
      obtain ⟨hres, hrtexts⟩ := h.grow hindex htext
      refine ⟨_, by simp only [place, hhole, checkLimit, if_neg hlimit], hres, hrtexts, rfl, ?_⟩
      show (store.bytes ++ text).length ≤ _
      rw [List.length_append]
      omega

/-- An insertion either puts the field at its place in the list, or fails because the live fields
and the new one do not fit under the ceiling; the arena keeps its fields then. -/
theorem Wf.insert_cases {store : HeaderStore} (h : store.Wf) {index : Nat} {text : Bytes}
    (hindex : index ≤ store.fields.length) (htext : text ≠ []) :
    (∃ result, store.insert index text = .ok () result ∧ result.Wf ∧
      result.texts = store.texts.insertIdx index text ∧ result.ceiling = store.ceiling ∧
      result.bytes.length ≤ max store.bytes.length store.ceiling) ∨
    (∃ result, store.insert index text = .error (.LimitExceeded .Headers store.ceiling) result ∧
      result.Wf ∧ result.texts = store.texts ∧ store.ceiling < store.liveSize + text.length) := by
  obtain ⟨hwf, htexts, hceil, hlen, hroom⟩ := h.ready text.length
  have hinsert : store.insert index text = (store.ready text.length).place index text := by
    rw [HeaderStore.insert, if_neg (by simpa using htext)]
  have hfields : index ≤ (store.ready text.length).fields.length := by
    rw [← length_texts, htexts, length_texts]
    exact hindex
  rw [hinsert]
  rcases hwf.place_cases hfields htext with ⟨result, hres, hrwf, hrtexts, hrceil, hrlen⟩ |
    ⟨herr, hhole, hlimit⟩
  · left
    rw [htexts] at hrtexts
    rw [hceil] at hrceil hrlen
    exact ⟨result, hres, hrwf, hrtexts, hrceil, by omega⟩
  · right
    rw [hceil] at herr hlimit
    refine ⟨_, herr, hwf, htexts, ?_⟩
    rcases hroom hhole with hle | heq
    · omega
    · omega

end HeaderStore

end ProcmailRs
