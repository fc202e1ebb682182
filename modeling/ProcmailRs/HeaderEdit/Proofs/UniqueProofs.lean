import ProcmailRs.HeaderEdit.Unique
import ProcmailRs.HeaderEdit.Proofs.ArenaProofs
import ProcmailRs.Lib.FirstSeen

/-!
# Keeping one field of every name

Keeping the last field of every name mirrors keeping the first one. Both keep one field of every name
that occurs, as long as the postmarks share a name: a postmark with a colon in it, in its time of day,
has the text before that colon for a name, and then two postmarks are two names.
-/

namespace ProcmailRs.HeaderStore

open Ranges
open FirstSeen (keepFirst)

/-- The name under which a field counts as repeated, when it belongs to the pattern. -/
def nameKey (store : HeaderStore) (pattern : Bytes) (field : HeaderField) : Option Bytes :=
  if fieldMatchesPattern (store.entry field) pattern then some (uniqueKey (store.entry field))
  else none

theorem nameKey_of_matches {store : HeaderStore} {pattern : Bytes} {field : HeaderField}
    (h : fieldMatchesPattern (store.entry field) pattern = true) :
    store.nameKey pattern field = some (uniqueKey (store.entry field)) := if_pos h

theorem nameKey_of_not_matches {store : HeaderStore} {pattern : Bytes} {field : HeaderField}
    (h : ¬ fieldMatchesPattern (store.entry field) pattern = true) :
    store.nameKey pattern field = none := if_neg h

theorem splitRepeated_kept (store : HeaderStore) (pattern : Bytes) (seen : List Bytes)
    (fields : List HeaderField) :
    (store.splitRepeated pattern seen fields).1 = keepFirst (store.nameKey pattern) seen fields := by
  induction fields generalizing seen with
  | nil => rfl
  | cons field rest ih =>
    rw [splitRepeated]
    dsimp only
    split_ifs with hmatch hseen
    · rw [FirstSeen.keepFirst_cons_of_seen _ (nameKey_of_matches hmatch) hseen, ih]
    · rw [FirstSeen.keepFirst_cons_of_new _ (nameKey_of_matches hmatch) hseen, ih]
    · rw [FirstSeen.keepFirst_cons_of_none _ (nameKey_of_not_matches hmatch), ih]

/-- Only the bytes of the arena matter. -/
theorem splitRepeated_reversed (store : HeaderStore) (pattern : Bytes) (seen : List Bytes)
    (fields : List HeaderField) :
    store.reversed.splitRepeated pattern seen fields = store.splitRepeated pattern seen fields := by
  induction fields generalizing seen with
  | nil => rfl
  | cons field rest ih =>
    have hentry : store.reversed.entry field = store.entry field := rfl
    simp only [splitRepeated, hentry, ih]

/-! ### The order of the holes -/

/-- The order in which fields are given back does not show. -/
theorem Wf.retain_congr {store : HeaderStore} (h : store.Wf) {kept gone gone' : List HeaderField}
    (hperm : (kept ++ gone).Perm store.fields) (hgone : gone.Perm gone') :
    store.retain kept gone = store.retain kept gone' := by
  have hfree : (store.free ++ gone.map HeaderField.raw).Perm
      (store.free ++ gone'.map HeaderField.raw) := (hgone.map _).append_left _
  have hpart := (h.release hperm).partition
  set rs := store.free ++ gone.map HeaderField.raw
  set rs' := store.free ++ gone'.map HeaderField.raw
  have hdisjoint := (List.pairwise_append.mp hpart.pairwise).2.1
  have hantisymm : ∀ a b, a ∈ rs → b ∈ rs → a.start ≤ b.start → b.start ≤ a.start → a = b := by
    intro a b ha hb hab hba
    by_contra hne
    have hsymm : Std.Symm fun r q : Range => r.stop ≤ q.start ∨ q.stop ≤ r.start :=
      ⟨fun _ _ hrq => hrq.symm⟩
    have hdis := hdisjoint.forall ha hb hne
    have hane := hpart.nonempty a (List.mem_append_right _ ha)
    have hbne := hpart.nonempty b (List.mem_append_right _ hb)
    omega
  have hsort : rs.insertionSort (fun a b => a.start ≤ b.start) =
      rs'.insertionSort fun a b => a.start ≤ b.start := by
    have htotal : Std.Total fun a b : Range => a.start ≤ b.start := ⟨fun a b => Nat.le_total _ _⟩
    have htrans : IsTrans Range fun a b => a.start ≤ b.start := ⟨fun _ _ _ => Nat.le_trans⟩
    have hleft := List.perm_insertionSort (fun a b : Range => a.start ≤ b.start) rs
    have hright := List.perm_insertionSort (fun a b : Range => a.start ≤ b.start) rs'
    refine List.Perm.eq_of_pairwise (fun a b ha hb hab hba => ?_)
      (List.pairwise_insertionSort _ _) (List.pairwise_insertionSort _ _)
      ((hleft.trans hfree).trans hright.symm)
    exact hantisymm a b (hleft.mem_iff.mp ha) (hfree.mem_iff.mpr (hright.mem_iff.mp hb)) hab hba
  simp only [HeaderStore.retain, HeaderStore.coalesceFree, rs, rs'] at hsort ⊢
  rw [hsort]

/-- Merging the holes leaves the fields alone. -/
theorem coalesceFree_with_fields (store : HeaderStore) (fields : List HeaderField) :
    ({ store with fields := fields } : HeaderStore).coalesceFree =
      { store.coalesceFree with fields := fields } := by
  unfold HeaderStore.coalesceFree
  dsimp only
  split
  · split_ifs
    · rfl
    · rfl
  · rfl

theorem coalesceFree_fields (store : HeaderStore) : store.coalesceFree.fields = store.fields := by
  unfold HeaderStore.coalesceFree
  dsimp only
  split
  · split_ifs
    · rfl
    · rfl
  · rfl

theorem retain_reversed (store : HeaderStore) (kept gone : List HeaderField) :
    (store.reversed.retain kept gone).reversed = store.retain kept.reverse gone := by
  have hfields := coalesceFree_with_fields
    { store with fields := kept, free := store.free ++ gone.map HeaderField.raw } kept.reverse
  unfold HeaderStore.retain HeaderStore.reversed
  rw [coalesceFree_fields]
  exact hfields.symm

/-- Keeping the last fields mirrors keeping the first ones. -/
theorem Wf.makeUniqueLast_eq {store : HeaderStore} (h : store.Wf) (pattern : Bytes) :
    store.makeUniqueLast pattern = (store.reversed.makeUniqueFirst pattern).reversed := by
  have hsplit := (splitRepeated_spec store pattern [] store.fields.reverse).1
  have hperm : ((store.splitRepeated pattern [] store.fields.reverse).1.reverse ++
      (store.splitRepeated pattern [] store.fields.reverse).2).Perm store.fields :=
    (((List.reverse_perm _).append_right _).trans hsplit).trans (List.reverse_perm _)
  unfold HeaderStore.makeUniqueFirst HeaderStore.makeUniqueLast
  rw [show store.reversed.fields = store.fields.reverse from rfl, splitRepeated_reversed,
    retain_reversed]
  exact (h.retain_congr hperm (List.reverse_perm _).symm).symm

/-! ### Positions -/

/-- The loop notes the positions of the fields it keeps. -/
theorem retainIndices_eq (store : HeaderStore) (pattern : Bytes) (seen : List Bytes)
    (retained : List Nat) (pairs : List (HeaderField × Nat)) :
    store.retainIndices pattern seen retained pairs =
      retained ++ (keepFirst (fun pair => store.nameKey pattern pair.1) seen pairs).map Prod.snd := by
  induction pairs generalizing seen retained with
  | nil => simp [retainIndices, keepFirst]
  | cons pair rest ih =>
    obtain ⟨field, index⟩ := pair
    set key := fun pair : HeaderField × Nat => store.nameKey pattern pair.1
    have hfield : key (field, index) = store.nameKey pattern field := rfl
    rw [retainIndices]
    split_ifs with hmatch hseen
    · rw [nameKey_of_matches hmatch] at hfield
      rw [FirstSeen.keepFirst_cons_of_seen key hfield hseen, ih]
    · rw [nameKey_of_matches hmatch] at hfield
      rw [FirstSeen.keepFirst_cons_of_new key hfield hseen, ih, List.map_cons, List.append_assoc]
      rfl
    · rw [nameKey_of_not_matches hmatch] at hfield
      rw [FirstSeen.keepFirst_cons_of_none key hfield, ih, List.map_cons, List.append_assoc]
      rfl

/-- The second loop keeps the fields at the positions. -/
theorem retainAt_spec (retained : List Nat) (index : Nat) (fields : List HeaderField) :
    (retainAt retained index fields).1 =
        ((fields.zipIdx index).filter fun pair => retained.contains pair.2).map Prod.fst ∧
      ((retainAt retained index fields).1 ++ (retainAt retained index fields).2).Perm fields := by
  induction fields generalizing index with
  | nil => exact ⟨rfl, List.Perm.nil⟩
  | cons field rest ih =>
    obtain ⟨hkept, hperm⟩ := ih (index + 1)
    rw [retainAt, List.zipIdx_cons]
    dsimp only
    split_ifs with hmem
    · rw [List.filter_cons_of_pos (a := (field, index)) hmem, List.map_cons, ← hkept]
      exact ⟨rfl, hperm.cons field⟩
    · rw [List.filter_cons_of_neg (a := (field, index)) hmem, ← hkept]
      exact ⟨rfl, List.perm_middle.trans (hperm.cons field)⟩

/-- A sublist is recovered from its positions. -/
theorem filter_positions {α : Type*} {pairs kept : List (α × Nat)} (h : kept.Sublist pairs)
    (hnodup : (pairs.map Prod.snd).Nodup) :
    pairs.filter (fun pair => (kept.map Prod.snd).contains pair.2) = kept := by
  induction h with
  | slnil => rfl
  | cons pair hsub ih =>
    obtain ⟨hnot, hrest⟩ := List.nodup_cons.mp hnodup
    rw [List.filter_cons_of_neg, ih hrest]
    intro hmem
    exact hnot ((hsub.map Prod.snd).subset (List.contains_iff_mem.mp hmem))
  | cons_cons pair hsub ih =>
    rename_i kept pairs
    obtain ⟨hnot, hrest⟩ := List.nodup_cons.mp hnodup
    rw [List.filter_cons_of_pos (by simp)]
    congr 1
    refine (List.filter_congr fun other hother => ?_).trans (ih hrest)
    have hne : other.2 ≠ pair.2 := by
      intro heq
      refine hnot ?_
      rw [← heq]
      exact List.mem_map_of_mem hother
    simp [hne]

/-- Both loops together keep the fields that the look from the last one keeps. -/
theorem Wf.makeUniqueLastByIndex_eq {store : HeaderStore} (h : store.Wf) (pattern : Bytes) :
    store.makeUniqueLastByIndex pattern = store.makeUniqueLast pattern := by
  set pairs := store.fields.zipIdx with hpairs
  set kept := keepFirst (fun pair : HeaderField × Nat => store.nameKey pattern pair.1) []
    pairs.reverse with hkept
  set retained := (store.retainIndices pattern [] [] pairs.reverse).insertionSort (· ≤ ·)
    with hretained
  have hindices : store.retainIndices pattern [] [] pairs.reverse = kept.map Prod.snd := by
    rw [retainIndices_eq, List.nil_append]
  have hsub : kept.reverse.Sublist pairs := by
    rw [← List.reverse_reverse pairs]
    exact List.reverse_sublist.mpr (FirstSeen.keepFirst_sublist _ _ _)
  have hnodup : (pairs.map Prod.snd).Nodup := by
    rw [hpairs, List.zipIdx_map_snd]
    exact List.nodup_range'
  have hfields : (retainAt retained 0 store.fields).1 =
      (store.splitRepeated pattern [] store.fields.reverse).1.reverse := by
    have hcontains : ∀ pair ∈ pairs,
        retained.contains pair.2 = (kept.reverse.map Prod.snd).contains pair.2 := by
      intro pair _
      rw [Bool.eq_iff_iff, List.contains_iff_mem, List.contains_iff_mem, hretained,
        (List.perm_insertionSort _ _).mem_iff, hindices, List.map_reverse, List.mem_reverse]
    rw [(retainAt_spec retained 0 store.fields).1, ← hpairs, List.filter_congr hcontains,
      filter_positions hsub hnodup, splitRepeated_kept, List.map_reverse, hkept,
      FirstSeen.map_keepFirst (store.nameKey pattern) Prod.fst, List.map_reverse, hpairs,
      List.zipIdx_map_fst]
  have hperm := (retainAt_spec retained 0 store.fields).2
  have hsplit := ((List.reverse_perm _).append (List.reverse_perm _)).trans
    ((splitRepeated_spec store pattern [] store.fields.reverse).1.trans (List.reverse_perm _))
  rw [hfields] at hperm
  have hgone := (List.perm_append_left_iff _).mp (hperm.trans hsplit.symm)
  unfold HeaderStore.makeUniqueLastByIndex HeaderStore.makeUniqueLast
  dsimp only
  rw [← hpairs, ← hretained, hfields]
  exact h.retain_congr hperm hgone

/-! ### One field of every name -/

/-- Deleting fields does not change the others. -/
theorem Wf.entry_retain {store : HeaderStore} (h : store.Wf) {kept gone : List HeaderField}
    (hperm : (kept ++ gone).Perm store.fields) :
    ∀ field ∈ (store.retain kept gone).fields, (store.retain kept gone).entry field =
      store.entry field := by
  obtain ⟨hwf, htexts, -⟩ := h.retain hperm
  have hfields : (store.retain kept gone).fields = kept := coalesceFree_fields _
  intro field hfield
  have hkept : field ∈ kept := hfields ▸ hfield
  rw [texts_eq, hfields] at htexts
  rw [hwf.entry hfield, h.entry (hperm.subset (List.mem_append_left _ hkept)),
    List.map_inj_left.mp htexts field hkept]

/-- The postmarks among the matching fields have one name. -/
def PostmarksAgree (store : HeaderStore) (pattern : Bytes) : Prop :=
  ∀ key ∈ store.postmarkKeys pattern, ∀ key' ∈ store.postmarkKeys pattern, key = key'

instance (store : HeaderStore) (pattern : Bytes) : Decidable (store.PostmarksAgree pattern) :=
  inferInstanceAs (Decidable (∀ _ ∈ _, ∀ _ ∈ _, _))

/-- Then a field counts under its own name. -/
theorem PostmarksAgree.namesakes_eq {store : HeaderStore} {pattern : Bytes}
    (h : store.PostmarksAgree pattern) {field other : HeaderField} :
    store.namesakes pattern field other =
      (store.nameKey pattern other == some (uniqueKey (store.entry field))) := by
  unfold namesakes sameName nameKey
  by_cases hmatch : fieldMatchesPattern (store.entry other) pattern = true
  · rw [if_pos hmatch, hmatch, Bool.true_and, Bool.eq_iff_iff]
    simp only [Bool.or_eq_true, Bool.and_eq_true, List.contains_iff_mem, beq_iff_eq,
      Option.some.injEq]
    constructor
    · rintro (heq | ⟨hfield, hother⟩)
      · exact heq.symm
      · exact h _ hother _ hfield
    · exact fun heq => Or.inl heq.symm
  · rw [if_neg hmatch]
    simp [hmatch]

theorem isNone_nameKey (store : HeaderStore) (pattern : Bytes) (field : HeaderField) :
    (store.nameKey pattern field).isNone = !fieldMatchesPattern (store.entry field) pattern := by
  unfold nameKey
  cases fieldMatchesPattern (store.entry field) pattern with
  | true => rfl
  | false => rfl

/-- What both directions leave. -/
theorem keepsOne_retain {store : HeaderStore} (h : store.Wf) {pattern : Bytes}
    {kept gone : List HeaderField} {pick : List HeaderField → Option HeaderField}
    (hperm : (kept ++ gone).Perm store.fields) (hsub : kept.Sublist store.fields)
    (hothers : kept.filter (fun field => (store.nameKey pattern field).isNone) =
      store.fields.filter fun field => (store.nameKey pattern field).isNone)
    (hone : ∀ key, kept.filter (fun field => store.nameKey pattern field == some key) =
      (pick (store.fields.filter fun field => store.nameKey pattern field == some key)).toList)
    (hagree : store.PostmarksAgree pattern) :
    store.KeepsOne pattern pick (store.retain kept gone) := by
  have hfields : (store.retain kept gone).fields = kept := coalesceFree_fields _
  refine ⟨fun field _ _ => ?_, ?_, ?_, h.entry_retain hperm⟩
  · have hcount : store.namesakes pattern field = fun other =>
        store.nameKey pattern other == some (uniqueKey (store.entry field)) :=
      funext fun other => hagree.namesakes_eq
    rw [hfields, hcount]
    exact hone _
  · rw [hfields]
    simpa only [isNone_nameKey] using hothers
  · rw [hfields]
    exact hsub

theorem makeUniqueFirst_keepsOne {store : HeaderStore} (h : store.Wf) {pattern : Bytes}
    (hagree : store.PostmarksAgree pattern) :
    store.KeepsOne pattern List.head? (store.makeUniqueFirst pattern) := by
  obtain ⟨hperm, hsub⟩ := splitRepeated_spec store pattern [] store.fields
  refine keepsOne_retain h hperm hsub ?_ (fun key => ?_) hagree
  · rw [splitRepeated_kept, FirstSeen.filter_isNone_keepFirst]
  · rw [splitRepeated_kept, FirstSeen.filter_key_keepFirst, if_neg (by simp)]

theorem makeUniqueLast_keepsOne {store : HeaderStore} (h : store.Wf) {pattern : Bytes}
    (hagree : store.PostmarksAgree pattern) :
    store.KeepsOne pattern List.getLast? (store.makeUniqueLast pattern) := by
  obtain ⟨hperm, hsub⟩ := splitRepeated_spec store pattern [] store.fields.reverse
  have hperm' := ((List.reverse_perm _).append (List.reverse_perm _)).trans
    (hperm.trans (List.reverse_perm _))
  refine keepsOne_retain h hperm' (List.reverse_sublist.mp (by rwa [List.reverse_reverse])) ?_
    (fun key => ?_) hagree
  · rw [splitRepeated_kept, List.filter_reverse, FirstSeen.filter_isNone_keepFirst,
      List.filter_reverse, List.reverse_reverse]
  · rw [splitRepeated_kept, List.filter_reverse, FirstSeen.filter_key_keepFirst, if_neg (by simp),
      List.filter_reverse, List.head?_reverse]
    cases (store.fields.filter fun field => store.nameKey pattern field == some key).getLast? with
    | none => rfl
    | some field => rfl

theorem mem_postmarkKeys {store : HeaderStore} {pattern key : Bytes}
    (h : key ∈ store.postmarkKeys pattern) :
    ∃ field ∈ store.fields, fieldMatchesPattern (store.entry field) pattern = true ∧
      store.nameKey pattern field = some key := by
  obtain ⟨entry, hentry, rfl⟩ := List.mem_map.mp h
  obtain ⟨hmem, hmatch⟩ := List.mem_filter.mp hentry
  obtain ⟨field, hfield, rfl⟩ := List.mem_map.mp hmem
  rw [Bool.and_eq_true] at hmatch
  exact ⟨field, hfield, hmatch.1, nameKey_of_matches hmatch.1⟩

/-- Some field of every name is kept. -/
theorem exists_kept {store : HeaderStore} {pattern key : Bytes} {field : HeaderField}
    (hfield : field ∈ store.fields) (hkey : store.nameKey pattern field = some key) :
    ∃ kept ∈ (store.makeUniqueFirst pattern).fields, store.nameKey pattern kept = some key := by
  have hfields : (store.makeUniqueFirst pattern).fields =
      keepFirst (store.nameKey pattern) [] store.fields := by
    rw [← splitRepeated_kept]
    exact coalesceFree_fields _
  have hfilter := FirstSeen.filter_key_keepFirst (store.nameKey pattern) [] store.fields key
  rw [if_neg (by simp)] at hfilter
  have hmem : field ∈ store.fields.filter fun other => store.nameKey pattern other == some key :=
    List.mem_filter.mpr ⟨hfield, by simp [hkey]⟩
  cases hsame : store.fields.filter fun other => store.nameKey pattern other == some key with
  | nil =>
    rw [hsame] at hmem
    cases hmem
  | cons first rest =>
    rw [hsame] at hfilter
    have hfirst : first ∈ (keepFirst (store.nameKey pattern) [] store.fields).filter
        fun other => store.nameKey pattern other == some key := by
      rw [hfilter]
      exact List.mem_singleton.mpr rfl
    obtain ⟨hkept, hfirstKey⟩ := List.mem_filter.mp hfirst
    exact ⟨first, hfields ▸ hkept, by simpa using hfirstKey⟩

/-- Two postmarks of different names would both be kept. -/
theorem postmarksAgree_of_keepsOne {store : HeaderStore} {pattern : Bytes}
    (h : store.KeepsOne pattern List.head? (store.makeUniqueFirst pattern)) :
    store.PostmarksAgree pattern := by
  intro key hkey key' hkey'
  obtain ⟨field, hfield, hmatch, hname⟩ := mem_postmarkKeys hkey
  obtain ⟨field', hfield', -, hname'⟩ := mem_postmarkKeys hkey'
  obtain ⟨kept, hkept, hkeptName⟩ := exists_kept hfield hname
  obtain ⟨kept', hkept', hkeptName'⟩ := exists_kept hfield' hname'
  have hone := h.one field hfield hmatch
  have hcounts : ∀ other, ∀ k ∈ store.postmarkKeys pattern, store.nameKey pattern other = some k →
      store.namesakes pattern field other = true := by
    intro other k hk hother
    have hotherMatch : fieldMatchesPattern (store.entry other) pattern = true := by
      by_contra hnot
      rw [nameKey_of_not_matches hnot] at hother
      cases hother
    rw [nameKey_of_matches hotherMatch] at hother
    rw [nameKey_of_matches hmatch] at hname
    have hfieldKey : uniqueKey (store.entry field) = key := Option.some.inj hname
    have hotherKey : uniqueKey (store.entry other) = k := Option.some.inj hother
    simp only [namesakes, sameName, hotherMatch, hfieldKey, hotherKey, Bool.true_and,
      Bool.or_eq_true, Bool.and_eq_true, List.contains_iff_mem]
    exact Or.inr ⟨hkey, hk⟩
  have hmem := List.mem_filter.mpr ⟨hkept, hcounts kept key hkey hkeptName⟩
  have hmem' := List.mem_filter.mpr ⟨hkept', hcounts kept' key' hkey' hkeptName'⟩
  rw [hone, Option.mem_toList] at hmem hmem'
  have hsame : kept = kept' := Option.some.inj (hmem.symm.trans hmem')
  rw [hsame, hkeptName'] at hkeptName
  exact (Option.some.inj hkeptName).symm

/-- Deduplication in both directions keeps one field of every name, the first or the last one, and
mirrors itself, exactly when the postmarks among the matching fields have one name. -/
theorem makeUnique_iff {store : HeaderStore} (h : store.Wf) (pattern : Bytes) :
    (store.makeUniqueLastByIndex pattern = (store.reversed.makeUniqueFirst pattern).reversed ∧
      store.KeepsOne pattern List.head? (store.makeUniqueFirst pattern) ∧
      store.KeepsOne pattern List.getLast? (store.makeUniqueLastByIndex pattern)) ↔
    store.PostmarksAgree pattern := by
  constructor
  · rintro ⟨-, hfirst, -⟩
    exact postmarksAgree_of_keepsOne hfirst
  · intro hagree
    rw [h.makeUniqueLastByIndex_eq]
    exact ⟨h.makeUniqueLast_eq pattern, makeUniqueFirst_keepsOne h hagree,
      makeUniqueLast_keepsOne h hagree⟩

/-- The arena of a header with four fields, of which two are repeated. -/
def repeatedStore : HeaderStore :=
  ⟨strBytes "X: 1\nY: 2\nx: 3\nY: 4\n",
    [⟨⟨0, 5⟩, some ⟨0, 1⟩⟩, ⟨⟨5, 10⟩, some ⟨5, 6⟩⟩, ⟨⟨10, 15⟩, some ⟨10, 11⟩⟩,
      ⟨⟨15, 20⟩, some ⟨15, 16⟩⟩], [], 99⟩

theorem wf_repeatedStore : repeatedStore.Wf := by
  have hnew : HeaderStore.new (rawFields (strBytes "X: 1\nY: 2\nx: 3\nY: 4\n")) 99 =
      .ok repeatedStore := by
    decide +kernel
  exact (held_of_new hnew).tidy.wf

theorem makeUnique_repeated :
    repeatedStore.KeepsOne [] List.getLast? (repeatedStore.makeUniqueLastByIndex []) :=
  ((makeUnique_iff wf_repeatedStore []).mpr (by decide +kernel)).2.2

/-- The arena of a header that begins with two dated postmarks. -/
def datedStore : HeaderStore :=
  ⟨strBytes "From a Thu Jan  1 00:00:00 1970\nFrom b Thu Jan  1 00:00:01 1970\n",
    [⟨⟨0, 32⟩, some ⟨0, 20⟩⟩, ⟨⟨32, 64⟩, some ⟨32, 52⟩⟩], [], 99⟩

/-- Both of them are kept. -/
theorem dated_postmarks_kept :
    HeaderStore.new (rawFields (strBytes
        "From a Thu Jan  1 00:00:00 1970\nFrom b Thu Jan  1 00:00:01 1970\n")) 99 =
      .ok datedStore ∧
      ¬ datedStore.KeepsOne (strBytes "From ") List.head?
        (datedStore.makeUniqueFirst (strBytes "From ")) := by
  refine ⟨by decide +kernel, fun h => ?_⟩
  have hone := h.one ⟨⟨0, 32⟩, some ⟨0, 20⟩⟩ (by decide) (by decide +kernel)
  exact absurd hone (by decide +kernel)

end ProcmailRs.HeaderStore
