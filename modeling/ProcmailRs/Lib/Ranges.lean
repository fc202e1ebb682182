import Mathlib.Algebra.BigOperators.Group.Finset.Basic
import Mathlib.Algebra.BigOperators.Group.Finset.Piecewise
import Mathlib.Algebra.Order.BigOperators.Group.List
import Mathlib.Data.List.Count
import Mathlib.Data.List.TakeDrop
import Mathlib.Order.Interval.Finset.Nat
import Mathlib.Tactic.Linarith

/-!
# Half-open ranges over a buffer

A buffer handed out in pieces is described by a list of half-open ranges. `Partition n rs` says that
the ranges of `rs` are non-empty and own every position below `n` exactly once, so they are pairwise
disjoint and leave no gap. The owners of a position are counted, which makes the notion additive: it
is invariant under reordering, and splitting, merging, appending and dropping a range are local
changes.
-/

namespace ProcmailRs.Ranges

variable {α : Type*}

/-- The half-open range `start..stop`. -/
structure Range where
  start : Nat
  stop : Nat
deriving DecidableEq, Repr

namespace Range

/-- The length of a range. -/
def len (r : Range) : Nat := r.stop - r.start

/-- The position is in the range. -/
def Contains (r : Range) (i : Nat) : Prop := r.start ≤ i ∧ i < r.stop

instance (r : Range) (i : Nat) : Decidable (r.Contains i) := inferInstanceAs (Decidable (_ ∧ _))

/-- The elements of a buffer at the positions of the range. -/
def slice (r : Range) (l : List α) : List α := (l.drop r.start).take r.len

theorem length_slice {r : Range} {l : List α} (h : r.stop ≤ l.length) :
    (r.slice l).length = r.len := by
  simp only [slice, len, List.length_take, List.length_drop]
  omega

theorem getElem?_slice (r : Range) (l : List α) (i : Nat) :
    (r.slice l)[i]? = if i < r.len then l[r.start + i]? else none := by
  simp only [slice, List.getElem?_take, List.getElem?_drop]

/-- A range only sees the positions it contains. -/
theorem slice_congr {r : Range} {l l' : List α}
    (h : ∀ i, r.Contains i → l[i]? = l'[i]?) : r.slice l = r.slice l' := by
  refine List.ext_getElem? fun i => ?_
  rw [getElem?_slice, getElem?_slice]
  split_ifs with hi
  · exact h _ ⟨by omega, by simp only [len] at hi; omega⟩
  · rfl

theorem slice_take {r : Range} {l : List α} {n : Nat} (h : r.stop ≤ n) :
    r.slice (l.take n) = r.slice l :=
  slice_congr fun _ hi => List.getElem?_take_of_lt (lt_of_lt_of_le hi.2 h)

theorem slice_append {r : Range} {l : List α} (m : List α) (h : r.stop ≤ l.length) :
    r.slice (l ++ m) = r.slice l :=
  slice_congr fun _ hi => List.getElem?_append_left (lt_of_lt_of_le hi.2 h)

theorem slice_middle (l m r : List α) :
    slice ⟨l.length, l.length + m.length⟩ (l ++ (m ++ r)) = m := by
  simp [slice, len]

end Range

/-- Write `new` over the positions of the buffer that start at `start`. -/
def overwrite (l : List α) (start : Nat) (new : List α) : List α :=
  l.take start ++ (new ++ l.drop (start + new.length))

theorem length_overwrite {l new : List α} {start : Nat} (h : start + new.length ≤ l.length) :
    (overwrite l start new).length = l.length := by
  simp only [overwrite, List.length_append, List.length_take, List.length_drop]
  omega

theorem slice_overwrite_self {l new : List α} {start : Nat} (h : start ≤ l.length) :
    Range.slice ⟨start, start + new.length⟩ (overwrite l start new) = new := by
  have hlen : (l.take start).length = start := by simpa using h
  have := Range.slice_middle (l.take start) new (l.drop (start + new.length))
  rwa [hlen] at this

theorem getElem?_overwrite_of_not {l new : List α} {start i : Nat}
    (h : start + new.length ≤ l.length) (hi : i < start ∨ start + new.length ≤ i) :
    (overwrite l start new)[i]? = l[i]? := by
  have hlen : (l.take start).length = start := by
    rw [List.length_take]
    omega
  rcases hi with hi | hi
  · rw [overwrite, List.getElem?_append_left (by omega), List.getElem?_take_of_lt hi]
  · rw [overwrite, List.getElem?_append_right (by omega), hlen,
      List.getElem?_append_right (by omega), List.getElem?_drop]
    congr 1
    omega

theorem slice_overwrite_of_disjoint {r : Range} {l new : List α} {start : Nat}
    (h : start + new.length ≤ l.length)
    (hd : r.stop ≤ start ∨ start + new.length ≤ r.start) :
    r.slice (overwrite l start new) = r.slice l :=
  Range.slice_congr fun i hi => getElem?_overwrite_of_not h (by
    obtain ⟨h1, h2⟩ := hi
    omega)

/-! ### Partitions -/

/-- How many of the ranges have the position. -/
def owners (rs : List Range) (i : Nat) : Nat := rs.countP (fun r => decide (r.Contains i))

@[simp] theorem owners_nil (i : Nat) : owners [] i = 0 := rfl

@[simp] theorem owners_cons (r : Range) (rs : List Range) (i : Nat) :
    owners (r :: rs) i = owners rs i + if r.Contains i then 1 else 0 := by
  simp [owners, List.countP_cons]

@[simp] theorem owners_append (rs qs : List Range) (i : Nat) :
    owners (rs ++ qs) i = owners rs i + owners qs i := List.countP_append

theorem owners_perm {rs qs : List Range} (h : rs.Perm qs) (i : Nat) : owners rs i = owners qs i :=
  h.countP_eq _

theorem owners_pos {rs : List Range} {r : Range} {i : Nat} (hr : r ∈ rs) (hi : r.Contains i) :
    0 < owners rs i :=
  List.countP_pos_iff.mpr ⟨r, hr, by simpa using hi⟩

/-- The ranges are non-empty and own every position below `n` exactly once, and no other. -/
structure Partition (n : Nat) (rs : List Range) : Prop where
  nonempty : ∀ r ∈ rs, r.start < r.stop
  owned : ∀ i, owners rs i = if i < n then 1 else 0

namespace Partition

variable {n : Nat} {rs : List Range} {r : Range}

theorem nil : Partition 0 [] := ⟨by simp, by simp⟩

theorem perm {qs : List Range} (h : Partition n rs) (hp : rs.Perm qs) : Partition n qs :=
  ⟨fun r hr => h.nonempty r (hp.mem_iff.mpr hr), fun i => by rw [← owners_perm hp, h.owned]⟩

theorem stop_le (h : Partition n rs) (hr : r ∈ rs) : r.stop ≤ n := by
  have hne := h.nonempty r hr
  have hpos : 0 < owners rs (r.stop - 1) := owners_pos hr ⟨by omega, by omega⟩
  rw [h.owned] at hpos
  split_ifs at hpos with hlt
  · omega
  · omega

/-- The ranges leave no gap below `n`, and nothing lies behind it. -/
theorem covered (h : Partition n rs) (i : Nat) : (∃ r ∈ rs, r.Contains i) ↔ i < n := by
  constructor
  · rintro ⟨q, hq, hi⟩
    exact Nat.lt_of_lt_of_le hi.2 (h.stop_le hq)
  · intro hi
    have hown := h.owned i
    rw [if_pos hi] at hown
    obtain ⟨q, hq, hqi⟩ := List.countP_pos_iff.mp (show 0 < owners rs i by omega)
    exact ⟨q, hq, by simpa using hqi⟩

theorem pairwise_of_owners {rs : List Range} (hne : ∀ r ∈ rs, r.start < r.stop)
    (h : ∀ i, owners rs i ≤ 1) :
    rs.Pairwise fun r q => r.stop ≤ q.start ∨ q.stop ≤ r.start := by
  induction rs with
  | nil => exact List.Pairwise.nil
  | cons r rs ih =>
    refine List.pairwise_cons.mpr ⟨fun q hq => ?_, ih (fun q hq => hne q (by simp [hq])) fun i => ?_⟩
    · by_contra hcon
      have hr := hne r (by simp)
      have hqe := hne q (by simp [hq])
      obtain ⟨i, hi, hi'⟩ : ∃ i, r.Contains i ∧ q.Contains i :=
        ⟨max r.start q.start, ⟨by omega, by omega⟩, ⟨by omega, by omega⟩⟩
      have hown := h i
      have hpos := owners_pos hq hi'
      rw [owners_cons, if_pos hi] at hown
      omega
    · have := h i
      rw [owners_cons] at this
      omega

/-- The ranges of a partition do not overlap. -/
theorem pairwise (h : Partition n rs) :
    rs.Pairwise fun r q => r.stop ≤ q.start ∨ q.stop ≤ r.start := by
  refine pairwise_of_owners h.nonempty fun i => ?_
  rw [h.owned]
  split_ifs <;> omega

/-- The lengths of the ranges add up to the length of the buffer. -/
theorem total (h : Partition n rs) : (rs.map Range.len).sum = n := by
  have hcount : ∀ qs : List Range, (∀ q ∈ qs, q.stop ≤ n) →
      ∑ i ∈ Finset.range n, owners qs i = (qs.map Range.len).sum := by
    intro qs
    induction qs with
    | nil => simp
    | cons q qs ih =>
      intro hq
      have hle : q.stop ≤ n := hq q (by simp)
      have hone : ∑ i ∈ Finset.range n, (if q.Contains i then 1 else 0) = q.len := by
        have hico : (Finset.range n).filter q.Contains = Finset.Ico q.start q.stop := by
          ext i
          rw [Finset.mem_filter, Finset.mem_range, Finset.mem_Ico, Range.Contains]
          omega
        rw [← Finset.card_filter, hico, Nat.card_Ico, Range.len]
      simp only [owners_cons, Finset.sum_add_distrib, List.map_cons, List.sum_cons]
      rw [ih fun p hp => hq p (by simp [hp]), hone, Nat.add_comm]
  rw [← hcount rs fun q hq => h.stop_le hq,
    Finset.sum_congr rfl fun i hi => by rw [h.owned i, if_pos (Finset.mem_range.mp hi)]]
  simp

theorem extend (h : Partition n rs) {k : Nat} (hk : 0 < k) :
    Partition (n + k) (⟨n, n + k⟩ :: rs) := by
  refine ⟨fun q hq => ?_, fun i => ?_⟩
  · rcases List.mem_cons.mp hq with rfl | hq
    · simpa using hk
    · exact h.nonempty q hq
  · rw [owners_cons, h.owned]
    split_ifs <;> simp only [Range.Contains] at * <;> omega

theorem truncate (h : Partition n (r :: rs)) (hr : r.stop = n) : Partition r.start rs := by
  have hne := h.nonempty r (by simp)
  refine ⟨fun q hq => h.nonempty q (by simp [hq]), fun i => ?_⟩
  have hown := h.owned i
  rw [owners_cons] at hown
  split_ifs at hown ⊢ <;> simp only [Range.Contains] at * <;> omega

theorem merge {a b c : Nat} (h : Partition n (⟨a, b⟩ :: ⟨b, c⟩ :: rs)) :
    Partition n (⟨a, c⟩ :: rs) := by
  have h1 : a < b := h.nonempty ⟨a, b⟩ (by simp)
  have h2 : b < c := h.nonempty ⟨b, c⟩ (by simp)
  refine ⟨fun q hq => ?_, fun i => ?_⟩
  · rcases List.mem_cons.mp hq with rfl | hq
    · exact h1.trans h2
    · exact h.nonempty q (by simp [hq])
  · rw [← h.owned i]
    simp only [owners_cons]
    split_ifs <;> simp only [Range.Contains] at * <;> omega

theorem cut {a b c : Nat} (h : Partition n (⟨a, c⟩ :: rs)) (hab : a < b) (hbc : b < c) :
    Partition n (⟨a, b⟩ :: ⟨b, c⟩ :: rs) := by
  refine ⟨fun q hq => ?_, fun i => ?_⟩
  · rcases List.mem_cons.mp hq with rfl | hq
    · exact hab
    rcases List.mem_cons.mp hq with rfl | hq
    · exact hbc
    · exact h.nonempty q (by simp [hq])
  · rw [← h.owned i]
    simp only [owners_cons]
    split_ifs <;> simp only [Range.Contains] at * <;> omega

end Partition

/-! ### Merging neighbours -/

/-- One step of merging: the last retained range absorbs a range that starts where it stops. The
retained ranges are kept last first. -/
def coalesceStep (retained : List Range) (r : Range) : List Range :=
  match retained with
  | [] => [r]
  | last :: rest =>
    if last.stop = r.start then ⟨last.start, r.stop⟩ :: rest else r :: last :: rest

/-- Merge the neighbours of a list of ranges sorted by their start. -/
def coalesce (rs : List Range) : List Range := (rs.foldl coalesceStep []).reverse

theorem Partition.coalesceStep {n : Nat} {retained rest : List Range} {r : Range}
    (h : Partition n (r :: (retained ++ rest))) : Partition n (coalesceStep retained r ++ rest) := by
  cases retained with
  | nil => exact h
  | cons last tail =>
    simp only [Ranges.coalesceStep]
    split_ifs with heq
    · obtain ⟨a, b⟩ := last
      obtain ⟨b', c⟩ := r
      obtain rfl : b = b' := heq
      exact (h.perm (List.Perm.swap _ _ _)).merge
    · exact h

theorem Partition.foldl_coalesceStep {n : Nat} {rs retained rest : List Range}
    (h : Partition n (rs ++ (retained ++ rest))) :
    Partition n (rs.foldl Ranges.coalesceStep retained ++ rest) := by
  induction rs generalizing retained with
  | nil => exact h
  | cons r rs ih =>
    have hstep : Partition n (Ranges.coalesceStep retained r ++ (rest ++ rs)) := by
      refine Partition.coalesceStep (h.perm ?_)
      rw [List.cons_append, List.perm_cons, ← List.append_assoc retained]
      exact List.perm_append_comm
    rw [← List.append_assoc] at hstep
    exact ih (hstep.perm List.perm_append_comm)

/-- Merging the neighbours of some ranges of a partition gives a partition again. -/
theorem Partition.coalesce {n : Nat} {rs rest : List Range} (h : Partition n (rs ++ rest)) :
    Partition n (Ranges.coalesce rs ++ rest) := by
  have hfold : Partition n (rs.foldl Ranges.coalesceStep [] ++ rest) :=
    Partition.foldl_coalesceStep (by simpa using h)
  exact hfold.perm ((List.reverse_perm _).symm.append_right rest)

/-! ### Ranges with gaps between them -/

/-- Sorting ranges that do not overlap puts each one behind the ones before it. -/
theorem ordered_of_disjoint {rs : List Range} (hne : ∀ r ∈ rs, r.start < r.stop)
    (hdisjoint : rs.Pairwise fun r q => r.stop ≤ q.start ∨ q.stop ≤ r.start)
    (hsorted : rs.Pairwise fun a b => a.start ≤ b.start) :
    rs.Pairwise fun a b => a.stop ≤ b.start := by
  refine (hdisjoint.and hsorted).imp_of_mem fun {a b} _ hb hab => ?_
  have hstop := hne b hb
  rcases hab with ⟨hdis | hdis, hle⟩
  · exact hdis
  · omega

/-- Merged ranges, the last one first, have gaps between them and lie before the ranges to come. -/
structure Merged (retained rest : List Range) : Prop where
  nonempty : ∀ a ∈ retained, a.start < a.stop
  apart : retained.Pairwise fun a b => b.stop < a.start
  before : ∀ a ∈ retained, ∀ r ∈ rest, a.stop ≤ r.start

theorem Merged.step {retained rest : List Range} {r : Range} (h : Merged retained (r :: rest))
    (hr : r.start < r.stop) (hrest : ∀ q ∈ rest, r.stop ≤ q.start) :
    Merged (coalesceStep retained r) rest := by
  obtain ⟨hne, hapart, hbefore⟩ := h
  cases retained with
  | nil => exact ⟨by simpa [coalesceStep] using hr, by simp [coalesceStep],
      by simpa [coalesceStep] using hrest⟩
  | cons last tail =>
    obtain ⟨hlast, htail⟩ := List.pairwise_cons.mp hapart
    have hlastNe := hne last (by simp)
    have hle := hbefore last (by simp) r (by simp)
    simp only [coalesceStep]
    split_ifs with heq
    · refine ⟨fun a ha => ?_, List.pairwise_cons.mpr ⟨hlast, htail⟩, fun a ha q hq => ?_⟩
      · rcases List.mem_cons.mp ha with rfl | ha
        · show last.start < r.stop
          omega
        · exact hne a (by simp [ha])
      · rcases List.mem_cons.mp ha with rfl | ha
        · exact hrest q hq
        · exact hbefore a (by simp [ha]) q (by simp [hq])
    · refine ⟨fun a ha => ?_, List.pairwise_cons.mpr ⟨fun a ha => ?_, hapart⟩, fun a ha q hq => ?_⟩
      · rcases List.mem_cons.mp ha with rfl | ha
        · exact hr
        · exact hne a ha
      · rcases List.mem_cons.mp ha with rfl | ha
        · omega
        · have hgap := hlast a ha
          omega
      · rcases List.mem_cons.mp ha with rfl | ha
        · exact hrest q hq
        · exact hbefore a ha q (by simp [hq])

theorem Merged.foldl {rs retained : List Range} (h : Merged retained rs)
    (hne : ∀ r ∈ rs, r.start < r.stop) (hordered : rs.Pairwise fun a b => a.stop ≤ b.start) :
    Merged (rs.foldl coalesceStep retained) [] := by
  induction rs generalizing retained with
  | nil => exact h
  | cons r rest ih =>
    obtain ⟨hfirst, hrest⟩ := List.pairwise_cons.mp hordered
    exact ih (h.step (hne r (by simp)) hfirst) (fun q hq => hne q (by simp [hq])) hrest

/-- Merging leaves gaps between the ranges. -/
theorem pairwise_coalesce {rs : List Range} (hne : ∀ r ∈ rs, r.start < r.stop)
    (hordered : rs.Pairwise fun a b => a.stop ≤ b.start) :
    (coalesce rs).Pairwise fun a b => a.stop < b.start := by
  have hstart : Merged [] rs := ⟨by simp, List.Pairwise.nil, by simp⟩
  exact List.pairwise_reverse.mpr (hstart.foldl hne hordered).apart

/-- A range that gives away its beginning keeps its distance. -/
theorem pairwise_set {rs : List Range} (h : rs.Pairwise fun a b => a.stop < b.start) {i : Nat}
    {r : Range} (hr : rs[i]? = some r) {start : Nat} (hstart : r.start ≤ start) :
    (rs.set i ⟨start, r.stop⟩).Pairwise fun a b => a.stop < b.start := by
  obtain ⟨hi, rfl⟩ := List.getElem?_eq_some_iff.mp hr
  rw [List.pairwise_iff_getElem] at h ⊢
  intro j k hj hk hjk
  rw [List.length_set] at hj hk
  have hgap := h j k hj hk hjk
  simp only [List.getElem_set]
  split_ifs with hij hik hik
  · omega
  · subst hij
    exact hgap
  · subst hik
    exact Nat.lt_of_lt_of_le hgap hstart
  · exact hgap

end ProcmailRs.Ranges
