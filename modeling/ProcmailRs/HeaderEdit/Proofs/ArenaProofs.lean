import ProcmailRs.HeaderEdit.Operations
import ProcmailRs.HeaderEdit.Proofs.EditProofs
import ProcmailRs.HeaderEdit.Proofs.PatternProofs

/-!
# The arena over whole runs

Live fields and holes partition the arena, the holes are sorted with gaps between them, and none of
them touches its end: every method keeps this, whether it succeeds or fails, and in any order. No
method lets the arena grow beyond its ceiling.
-/

namespace ProcmailRs

open Ranges
open Outcome (Ends finalState ends_of_finalState)
open Replay (replay Throughout)

namespace HeaderStore

/-- The arena is in order: its holes are sorted, with gaps between them and behind the last one. -/
structure Tidy (store : HeaderStore) : Prop where
  wf : store.Wf
  apart : store.free.Pairwise fun a b => a.stop < b.start
  inside : ∀ hole ∈ store.free, hole.stop < store.bytes.length

theorem Wf.under {store : HeaderStore} (h : store.Wf) (ceiling : Nat) : (store.under ceiling).Wf :=
  ⟨h.partition, h.indexed⟩

theorem Tidy.under {store : HeaderStore} (h : store.Tidy) (ceiling : Nat) :
    (store.under ceiling).Tidy :=
  ⟨h.wf.under ceiling, h.apart, h.inside⟩

/-- An arena without holes is in order. -/
theorem Wf.tidy_of_free_nil {store : HeaderStore} (h : store.Wf) (hfree : store.free = []) :
    store.Tidy :=
  ⟨h, by simp [hfree], by simp [hfree]⟩

/-- Merging the holes puts an arena in order. -/
theorem Wf.tidy_coalesceFree {store : HeaderStore} (h : store.Wf) : store.coalesceFree.Tidy := by
  have hwf := h.coalesceFree.1
  set sorted := store.free.insertionSort fun a b => a.start ≤ b.start with hsorted
  have hfreePart : Partition store.bytes.length (sorted ++ store.fields.map HeaderField.raw) := by
    refine h.partition.perm (List.perm_append_comm.trans ?_)
    exact List.Perm.append_right _ (List.perm_insertionSort _ _).symm
  have hne : ∀ r ∈ sorted, r.start < r.stop := fun r hr =>
    hfreePart.nonempty r (List.mem_append_left _ hr)
  have hdisjoint := (List.pairwise_append.mp hfreePart.pairwise).1
  have hordered : sorted.Pairwise fun a b => a.stop ≤ b.start := by
    have htotal : Std.Total fun a b : Range => a.start ≤ b.start := ⟨fun a b => Nat.le_total _ _⟩
    have htrans : IsTrans Range fun a b => a.start ≤ b.start := ⟨fun _ _ _ => Nat.le_trans⟩
    have hle : sorted.Pairwise fun a b => a.start ≤ b.start := List.pairwise_insertionSort _ _
    exact ordered_of_disjoint hne hdisjoint hle
  have hapart : (coalesce sorted).Pairwise fun a b => a.stop < b.start :=
    pairwise_coalesce hne hordered
  have hpart : Partition store.bytes.length (coalesce sorted ++ store.fields.map HeaderField.raw) :=
    hfreePart.coalesce
  simp only [HeaderStore.coalesceFree, ← hsorted] at hwf ⊢
  cases hlast : (coalesce sorted).getLast? with
  | none =>
    rw [hlast] at hwf
    obtain hnil : coalesce sorted = [] := List.getLast?_eq_none_iff.mp hlast
    exact hwf.tidy_of_free_nil hnil
  | some last =>
    rw [hlast] at hwf
    obtain ⟨init, hinit⟩ := List.getLast?_eq_some_iff.mp hlast
    have hstop : last.stop ≤ store.bytes.length := hpart.stop_le (by simp [hinit])
    have hlastNe := hpart.nonempty last (by simp [hinit])
    rw [hinit] at hapart
    obtain ⟨hinitApart, -, hbefore⟩ := List.pairwise_append.mp hapart
    have hgap : ∀ hole ∈ init, hole.stop < last.start := fun hole hhole =>
      hbefore hole hhole last (by simp)
    dsimp only at hwf ⊢
    split_ifs at hwf ⊢ with hend
    · -- the last hole is given back
      refine ⟨hwf, ?_, fun hole hhole => ?_⟩
      · show (coalesce sorted).dropLast.Pairwise _
        rwa [hinit, List.dropLast_concat]
      · have hmem : hole ∈ init := by
          have hdrop : hole ∈ (coalesce sorted).dropLast := hhole
          rwa [hinit, List.dropLast_concat] at hdrop
        have hlt := hgap hole hmem
        show hole.stop < (store.bytes.take last.start).length
        rw [List.length_take]
        omega
    · refine ⟨hwf, ?_, fun hole hhole => ?_⟩
      · show (coalesce sorted).Pairwise _
        rwa [hinit]
      · have hmem : hole ∈ init ++ [last] := by
          rw [← hinit]
          exact hhole
        show hole.stop < store.bytes.length
        rcases List.mem_append.mp hmem with hmem | hmem
        · have hlt := hgap hole hmem
          omega
        · obtain rfl := List.mem_singleton.mp hmem
          omega

/-- Growth, reuse and compaction keep the arena below a bound as well. -/
structure Held (ceiling bound : Nat) (store : HeaderStore) : Prop where
  tidy : store.Tidy
  allowed : store.ceiling = ceiling
  room : store.bytes.length ≤ max bound ceiling

variable {ceiling bound : Nat}

theorem Held.retain {store : HeaderStore} (h : Held ceiling bound store) {kept gone : List HeaderField}
    (hperm : (kept ++ gone).Perm store.fields) : Held ceiling bound (store.retain kept gone) := by
  obtain ⟨-, -, hceil, hlen⟩ := h.tidy.wf.retain hperm
  exact ⟨(h.tidy.wf.release hperm).tidy_coalesceFree, hceil.trans h.allowed, hlen.trans h.room⟩

theorem Held.remove {store : HeaderStore} (h : Held ceiling bound store) (index : Nat) :
    Held ceiling bound (store.remove index) := by
  obtain ⟨-, -, hceil, hlen⟩ := h.tidy.wf.remove index
  refine ⟨?_, hceil.trans h.allowed, hlen.trans h.room⟩
  unfold HeaderStore.remove
  split
  · exact h.tidy
  · rename_i field hfield
    exact (h.tidy.wf.release (perm_eraseIdx hfield)).tidy_coalesceFree

theorem Held.ready {store : HeaderStore} (h : Held ceiling bound store) (size : Nat) :
    Held ceiling bound (store.ready size) := by
  obtain ⟨hwf, -, hceil, hlen, -⟩ := h.tidy.wf.ready size
  refine ⟨?_, hceil.trans h.allowed, hlen.trans h.room⟩
  unfold HeaderStore.ready
  split_ifs
  · exact h.tidy.wf.compact.1.tidy_of_free_nil rfl
  · exact h.tidy

/-- A field that is put into a hole or behind the last field leaves the holes apart. -/
theorem Tidy.place {store result : HeaderStore} (h : store.Tidy) {index : Nat} {text : Bytes}
    (hwf : result.Wf) (hok : store.place index text = .ok () result) : result.Tidy := by
  unfold HeaderStore.place at hok
  cases hhole : store.findHole text.length with
  | some position =>
    obtain ⟨hole, hat, hfit⟩ := findHole_some hhole
    have hmem : hole ∈ store.free := List.mem_of_getElem? hat
    have hget : store.free.getD position ⟨0, 0⟩ = hole := by
      rw [List.getD_eq_getElem?_getD, hat, Option.getD_some]
    have hne := h.wf.partition.nonempty hole (List.mem_append_right _ hmem)
    have hinside := h.inside hole hmem
    have hlen : (overwrite store.bytes hole.start text).length = store.bytes.length := by
      refine length_overwrite ?_
      rw [Range.len] at hfit
      omega
    simp only [hhole, hget] at hok
    obtain rfl := (EStateM.Result.ok.inj hok).2
    refine ⟨hwf, ?_, fun other hother => ?_⟩
    · dsimp only
      split_ifs
      · exact pairwise_set h.apart hat (Nat.le_add_right _ _)
      · exact h.apart.sublist (List.eraseIdx_sublist ..)
    · show other.stop < (overwrite store.bytes hole.start text).length
      rw [hlen]
      dsimp only at hother
      split_ifs at hother
      · rcases List.mem_or_eq_of_mem_set hother with hother | rfl
        · exact h.inside other hother
        · exact hinside
      · exact h.inside other (List.mem_of_mem_eraseIdx hother)
  | none =>
    simp only [hhole] at hok
    split at hok
    · cases hok
    · obtain rfl := (EStateM.Result.ok.inj hok).2
      refine ⟨hwf, h.apart, fun hole hmem => ?_⟩
      have hlt := h.inside hole hmem
      show hole.stop < (store.bytes ++ text).length
      rw [List.length_append]
      omega

/-- An insertion keeps the arena in order, also when it fails. -/
theorem Held.insert {store : HeaderStore} (h : Held ceiling bound store) {index : Nat}
    (hindex : index ≤ store.fields.length) (text : Bytes) :
    Held ceiling bound (finalState (store.insert index text)) := by
  by_cases htext : text = []
  · rw [HeaderStore.insert, if_pos (by simp [htext])]
    exact h
  · obtain ⟨hwf, htexts, hceil, -, -⟩ := h.tidy.wf.ready text.length
    have hready := h.ready text.length
    have hindex' : index ≤ (store.ready text.length).fields.length := by
      rw [← length_texts, htexts, length_texts]
      exact hindex
    rw [HeaderStore.insert, if_neg (by simpa using htext)]
    rcases hwf.place_cases hindex' htext with ⟨result, hres, hrwf, -, hrceil, hrlen⟩ | ⟨herr, -, -⟩
    · rw [hres]
      refine ⟨hready.tidy.place hrwf hres, hrceil.trans hready.allowed, ?_⟩
      have hroom := hready.room
      rw [hready.allowed] at hrlen
      exact hrlen.trans (max_le hroom (le_max_right _ _))
    · rw [herr]
      exact hready

/-! ### Passes over the fields -/

theorem Held.replaceInPlace {store : HeaderStore} (h : Held ceiling bound store) {index : Nat}
    (hindex : index < store.fields.length) (text : Bytes) :
    Held ceiling bound (finalState (replaceInPlace index text store)) := by
  refine (h.remove index).insert ?_ text
  have hlen : (store.remove index).fields.length = store.fields.length - 1 := by
    rw [← length_texts, (h.tidy.wf.remove index).2.1, List.length_eraseIdx_of_lt, length_texts]
    rwa [length_texts]
  omega

theorem editInPlaceFrom_succ (edit : Field → FieldEdit) (rounds index : Nat) (store : HeaderStore) :
    editInPlaceFrom edit (rounds + 1) index store =
      match store.entries[index]? with
      | none => .ok () store
      | some field =>
        match edit field with
        | .Keep => editInPlaceFrom edit rounds (index + 1) store
        | .Replace bytes =>
          (HeaderStore.replaceInPlace index bytes >>= fun _ =>
            editInPlaceFrom edit rounds (index + 1)) store
        | .Remove => editInPlaceFrom edit rounds index (store.remove index) := by
  show (match store.entries[index]? with
    | none => _
    | some field => _ : EStateM HeaderEditError HeaderStore Unit) store = _
  cases store.entries[index]? with
  | none => rfl
  | some field =>
    dsimp only
    cases edit field with
    | Keep => rfl
    | Replace bytes => rfl
    | Remove => rfl

/-- Every round leaves the arena in order, and so does the round that fails. -/
theorem Held.editInPlaceFrom {edit : Field → FieldEdit} {rounds index : Nat} {store : HeaderStore}
    (h : Held ceiling bound store) :
    Ends (HeaderStore.editInPlaceFrom edit rounds index) store (fun _ => Held ceiling bound)
      fun _ => Held ceiling bound := by
  induction rounds generalizing index store with
  | zero => exact h
  | succ rounds ih =>
    unfold Ends
    rw [editInPlaceFrom_succ]
    cases hfield : store.entries[index]? with
    | none => exact h
    | some field =>
      dsimp only
      cases edit field with
      | Keep => exact ih h
      | Remove => exact ih (h.remove index)
      | Replace text =>
        have hindex : index < store.fields.length := by
          have hlt := (List.getElem?_eq_some_iff.mp hfield).1
          rwa [HeaderStore.entries, List.length_map] at hlt
        exact (ends_of_finalState (h.replaceInPlace hindex text)).bind fun _ _ hnext => ih hnext

theorem Held.editInPlace {store : HeaderStore} (h : Held ceiling bound store)
    (edit : Field → FieldEdit) :
    Held ceiling bound (finalState (HeaderStore.editInPlace edit store)) :=
  Ends.finalState (m := HeaderStore.editInPlaceFrom edit store.fields.length 0) h.editInPlaceFrom

theorem Held.compact {store : HeaderStore} (h : Held ceiling bound store) :
    Held ceiling bound store.compact := by
  obtain ⟨hwf, -, hfree, hceil, hlen⟩ := h.tidy.wf.compact
  have hlive := h.tidy.wf.liveSize_add_free
  have hroom := h.room
  exact ⟨hwf.tidy_of_free_nil hfree, hceil.trans h.allowed, by omega⟩

/-- Every method keeps the arena in order and below the bound, whether it succeeds or fails. -/
theorem Held.run {store : HeaderStore} (h : Held ceiling bound store) {operation : StoreOperation}
    (hrange : operation.InRange store) : Held ceiling bound (finalState (operation.run store)) := by
  cases operation with
  | Insert index text => exact h.insert hrange text
  | Remove index => exact h.remove index
  | RemoveMatching name =>
    exact h.retain (List.perm_append_comm.trans (List.filter_append_perm _ store.fields))
  | RemoveMatchingPattern pattern =>
    exact h.retain (List.perm_append_comm.trans (List.filter_append_perm _ store.fields))
  | MakeUniqueFirst pattern => exact h.retain (splitRepeated_spec store pattern [] store.fields).1
  | MakeUniqueLast pattern =>
    have hsplit := (splitRepeated_spec store pattern [] store.fields.reverse).1
    refine h.retain (((List.reverse_perm _).append (List.reverse_perm _)).trans ?_)
    exact hsplit.trans (List.reverse_perm _)
  | RenameMatchingPattern fromPattern toPattern => exact h.editInPlace _
  | PrependPrefixToMatching pattern front => exact h.editInPlace _
  | ConcatenateContinued => exact h.editInPlace _
  | ZapWhitespace => exact h.editInPlace _
  | Compact => exact h.compact

theorem Held.insertAll {store result : HeaderStore} (h : Held ceiling bound store)
    {fields : List Field} (hok : store.insertAll fields = .ok result) :
    Held ceiling bound result := by
  induction fields generalizing store with
  | nil =>
    obtain rfl := Except.ok.inj hok
    exact h
  | cons field rest ih =>
    have hnext := h.insert le_rfl field.bytes
    rw [HeaderStore.insertAll] at hok
    cases hinsert : store.insert store.fields.length field.bytes with
    | error e next =>
      rw [hinsert] at hok
      cases hok
    | ok u next =>
      rw [hinsert] at hok hnext
      exact ih hnext hok

/-- A new arena is in order and below its ceiling. -/
theorem held_of_new {fields : List Field} {store : HeaderStore}
    (h : HeaderStore.new fields ceiling = .ok store) : Held ceiling 0 store := by
  obtain ⟨-, -, h⟩ := bind_eq_ok h
  refine Held.insertAll ?_ h
  exact ⟨⟨⟨Partition.nil, by simp⟩, List.Pairwise.nil, by simp⟩, rfl, Nat.zero_le _⟩

/-! ### Runs -/

theorem Tidy.after {store : HeaderStore} (h : store.Tidy) {call : StoreCall}
    (hrange : call.operation.InRange store) : (store.after call).Tidy := by
  have hheld : Held call.ceiling store.bytes.length (store.under call.ceiling) :=
    ⟨h.under call.ceiling, rfl, le_max_left _ _⟩
  exact (hheld.run hrange).tidy

theorem Tidy.replay {store : HeaderStore} (h : store.Tidy) {calls : List StoreCall}
    (hrange : Throughout HeaderStore.after (fun store call => call.operation.InRange store) store calls) :
    (replay HeaderStore.after store calls).Tidy := by
  induction calls generalizing store with
  | nil => exact h
  | cons call calls ih =>
    obtain ⟨hcall, hcalls⟩ := Replay.throughout_cons.mp hrange
    exact ih (h.after hcall) hcalls

theorem Wf.entries_compact {store : HeaderStore} (h : store.Wf) :
    store.compact.entries = store.entries := by
  obtain ⟨hwf, htexts, -⟩ := h.compact
  rw [hwf.entries, h.entries, htexts]

theorem Tidy.name {store : HeaderStore} (h : store.Tidy) {f : HeaderField} (hf : f ∈ store.fields) :
    f.name = (fieldFromBytes (f.raw.slice store.bytes)).name.map
      fun name => ⟨f.raw.start, f.raw.start + name.length⟩ :=
  congrArg HeaderField.name (h.wf.indexed f hf)

/-- In every run that starts with a new arena, whether its calls succeed or fail, the fields and the
holes partition the arena, the holes are sorted and lie apart, every name is the one its bytes have,
and compaction does not change the fields. -/
theorem arena_partitioned {fields : List Field} {store : HeaderStore} {calls : List StoreCall}
    (hnew : HeaderStore.new fields ceiling = .ok store)
    (hrange : Throughout HeaderStore.after (fun store call => call.operation.InRange store) store
      calls) :
    let reached := replay HeaderStore.after store calls
    let ranges := reached.fields.map HeaderField.raw ++ reached.free
    (∀ r ∈ ranges, r.start < r.stop) ∧
      (ranges.Pairwise fun a b => a.stop ≤ b.start ∨ b.stop ≤ a.start) ∧
      (∀ i, (∃ r ∈ ranges, r.Contains i) ↔ i < reached.bytes.length) ∧
      (reached.free.Pairwise fun a b => a.stop < b.start) ∧
      (∀ hole ∈ reached.free, hole.stop < reached.bytes.length) ∧
      (∀ f ∈ reached.fields,
        f.name = (fieldFromBytes (f.raw.slice reached.bytes)).name.map
            (fun name => ⟨f.raw.start, f.raw.start + name.length⟩) ∧
          reached.entry f = fieldFromBytes (f.raw.slice reached.bytes)) ∧
      reached.compact.entries = reached.entries := by
  intro reached ranges
  have h : reached.Tidy := (held_of_new hnew).tidy.replay hrange
  exact ⟨h.wf.partition.nonempty, h.wf.partition.pairwise, fun i => h.wf.partition.covered i,
    h.apart, h.inside, fun f hf => ⟨h.name hf, h.wf.entry hf⟩, h.wf.entries_compact⟩

/-- A hole is reused, two calls fail and a pass over the fields compacts the arena. -/
def reuseCalls : List StoreCall :=
  [⟨20, .Remove 1⟩, ⟨20, .Insert 0 (strBytes "D: 4\n")⟩,
    ⟨20, .Insert 2 (strBytes "E: 55555\n")⟩, ⟨15, .Insert 1 []⟩,
    ⟨18, .PrependPrefixToMatching (strBytes "D") (strBytes "X-")⟩]

theorem arena_partitioned_reuse :
    ∃ store, HeaderStore.new (rawFields (strBytes "A: 1\nB: 22\nC: 3\n")) 20 = .ok store ∧
      (replay HeaderStore.after store reuseCalls).compact.entries =
        (replay HeaderStore.after store reuseCalls).entries := by
  have hnew : HeaderStore.new (rawFields (strBytes "A: 1\nB: 22\nC: 3\n")) 20 =
      .ok ⟨strBytes "A: 1\nB: 22\nC: 3\n",
        [⟨⟨0, 5⟩, some ⟨0, 1⟩⟩, ⟨⟨5, 11⟩, some ⟨5, 6⟩⟩, ⟨⟨11, 16⟩, some ⟨11, 12⟩⟩], [], 20⟩ := by
    decide +kernel
  refine ⟨_, hnew, ?_⟩
  obtain ⟨-, -, -, -, -, -, hcompact⟩ :=
    @arena_partitioned _ _ _ reuseCalls hnew (by decide +kernel)
  exact hcompact

end HeaderStore

end ProcmailRs
