import Mathlib

/-!
# Layered maps

A map that is shared is frozen and gets new layers on top. An entry of a layer hides those with its key
in the layers below it. Looking up a key goes down the layers; listing the entries puts them together
from the top, keeping what is there already.
-/

namespace ProcmailRs.Layers

open Std

variable {κ ν β : Type} {cmp : κ → κ → Ordering}

/-- The entry that is seen through the layers, of which the first is on top. -/
def find (layers : List (ExtTreeMap κ ν cmp)) [TransCmp cmp] (k : κ) : Option ν :=
  layers.findSome? fun layer => layer[k]?

section Maps

variable [TransCmp cmp]

/-- Adds the entries of a lower layer whose keys are free. -/
def addUnder (visible layer : ExtTreeMap κ ν cmp) : ExtTreeMap κ ν cmp :=
  layer.foldl (fun visible k v => visible.insertIfNew k v) visible

/-- The entries that a reading of the values keeps, in the order of their keys. -/
def listing (read : ν → Option β) (entries : ExtTreeMap κ ν cmp) : List (κ × β) :=
  entries.toList.filterMap fun entry => (read entry.2).map fun value => (entry.1, value)

end Maps

/-- The list has every visible entry once, in the order of the keys, and no other. -/
structure Lists (cmp : κ → κ → Ordering) (visible : κ → Option β) (entries : List (κ × β)) : Prop where
  ordered : entries.Pairwise fun a b => cmp a.1 b.1 = .lt
  mem_iff : ∀ k v, (k, v) ∈ entries ↔ visible k = some v

section Lookup

variable [TransCmp cmp] {layers : List (ExtTreeMap κ ν cmp)} {layer : ExtTreeMap κ ν cmp}

@[simp] theorem find_nil (k : κ) : find ([] : List (ExtTreeMap κ ν cmp)) k = none := rfl

theorem find_cons (k : κ) : find (layer :: layers) k = (layer[k]?).or (find layers k) := by
  unfold find
  rw [List.findSome?_cons]
  cases layer[k]? with
  | none => rfl
  | some v => rfl

/-- A new layer with nothing in it hides nothing. -/
theorem find_empty_cons (k : κ) : find ((∅ : ExtTreeMap κ ν cmp) :: layers) k = find layers k := by
  rw [find_cons, ExtTreeMap.getElem?_empty]
  rfl

end Lookup

variable [TransCmp cmp] [LawfulEqCmp cmp] {layers : List (ExtTreeMap κ ν cmp)}
  {visible layer top : ExtTreeMap κ ν cmp}

/-- A new entry on top is the one that is seen. -/
theorem find_insert [DecidableEq κ] (k k' : κ) (v : ν) :
    find (layer.insert k v :: layers) k' =
      if k' = k then some v else find (layer :: layers) k' := by
  rw [find_cons, ExtTreeMap.getElem?_insert, find_cons]
  by_cases h : k' = k
  · rw [if_pos h, if_pos (LawfulEqCmp.compare_eq_iff_eq.mpr h.symm)]
    rfl
  · rw [if_neg h, if_neg fun heq => h (LawfulEqCmp.eq_of_compare heq).symm]

theorem getElem?_foldl_insertIfNew {entries : List (κ × ν)}
    (h : entries.Pairwise fun a b => cmp a.1 b.1 = .lt) (k : κ) (v : ν) :
    (entries.foldl (fun visible entry => visible.insertIfNew entry.1 entry.2) visible)[k]? = some v ↔
      visible[k]? = some v ∨ visible[k]? = none ∧ (k, v) ∈ entries := by
  induction entries generalizing visible with
  | nil => simp
  | cons entry entries ih =>
    obtain ⟨hentry, hentries⟩ := List.pairwise_cons.mp h
    rw [List.foldl_cons, ih hentries, ExtTreeMap.getElem?_insertIfNew]
    by_cases hk : entry.1 = k
    · subst hk
      have hself : cmp entry.1 entry.1 = .eq := ReflCmp.compare_self
      have hlater : (entry.1, v) ∉ entries := by
        intro hmem
        have hlt := hentry _ hmem
        rw [hself] at hlt
        cases hlt
      rw [hself, List.mem_cons]
      by_cases hfree : entry.1 ∈ visible
      · have hsome := ExtTreeMap.mem_iff_isSome_getElem?.mp hfree
        have hne : visible[entry.1]? ≠ none := by
          intro hnone
          rw [hnone] at hsome
          cases hsome
        simp [hfree, hlater]
      · have hnone : visible[entry.1]? = none := by
          cases hget : visible[entry.1]? with
          | none => rfl
          | some old => exact absurd (ExtTreeMap.mem_iff_isSome_getElem?.mpr (by simp [hget])) hfree
        simp only [hfree, not_false_eq_true, and_self, if_true, hnone, hlater, Option.some.injEq,
          reduceCtorEq, or_false, false_or, true_and]
        constructor
        · intro heq
          rw [← heq]
        · intro heq
          rw [← heq]
    · have hcmp : ¬cmp entry.1 k = .eq := fun heq => hk (LawfulEqCmp.eq_of_compare heq)
      have hne : (k, v) ≠ entry := fun heq => hk (by rw [← heq])
      rw [if_neg fun hboth => hcmp hboth.1, List.mem_cons, or_iff_right hne]

theorem getElem?_addUnder (k : κ) :
    (addUnder visible layer)[k]? = (visible[k]?).or (layer[k]?) := by
  refine Option.ext fun v => ?_
  unfold addUnder
  rw [ExtTreeMap.foldl_eq_foldl_toList,
    getElem?_foldl_insertIfNew ExtTreeMap.ordered_keys_toList,
    ExtTreeMap.mem_toList_iff_getElem?_eq_some]
  cases visible[k]? with
  | none => simp
  | some old => simp

/-- Putting the layers together from the top shows what looking up would find. -/
theorem getElem?_foldl_addUnder (k : κ) :
    (layers.foldl addUnder top)[k]? = find (top :: layers) k := by
  induction layers generalizing top with
  | nil =>
    rw [find_cons]
    simp
  | cons layer layers ih =>
    rw [List.foldl_cons, ih, find_cons, getElem?_addUnder, find_cons, find_cons]
    cases top[k]? with
    | none => rfl
    | some v => rfl

/-- A map that is copied entry by entry. -/
theorem getElem?_foldl_insert {entries : List (κ × ν)}
    (h : entries.Pairwise fun a b => cmp a.1 b.1 = .lt) (k : κ) (v : ν) :
    (entries.foldl (fun visible entry => visible.insert entry.1 entry.2)
      (∅ : ExtTreeMap κ ν cmp))[k]? = some v ↔ (k, v) ∈ entries := by
  have hcopy : ∀ visible : ExtTreeMap κ ν cmp,
      (entries.foldl (fun visible entry => visible.insert entry.1 entry.2) visible)[k]? = some v ↔
        (k, v) ∈ entries ∨ (∀ w, (k, w) ∉ entries) ∧ visible[k]? = some v := by
    induction entries with
    | nil => simp
    | cons entry entries ih =>
      intro visible
      obtain ⟨hentry, hentries⟩ := List.pairwise_cons.mp h
      rw [List.foldl_cons, ih hentries, ExtTreeMap.getElem?_insert]
      by_cases hk : entry.1 = k
      · subst hk
        have hself : cmp entry.1 entry.1 = .eq := ReflCmp.compare_self
        have hlater : ∀ w, (entry.1, w) ∉ entries := by
          intro w hmem
          have hlt := hentry _ hmem
          rw [hself] at hlt
          cases hlt
        have hhead : ∀ w, (entry.1, w) = entry ↔ entry.2 = w := by
          intro w
          constructor
          · intro heq
            rw [← heq]
          · intro heq
            rw [← heq]
        simp only [hself, if_true, List.mem_cons, hlater, hhead, or_false, false_or,
          not_false_eq_true, implies_true, true_and, Option.some.injEq]
        constructor
        · exact fun heq => .inl heq
        · rintro (heq | ⟨hnone, -⟩)
          · exact heq
          · exact absurd rfl (hnone entry.2)
      · have hcmp : ¬cmp entry.1 k = .eq := fun heq => hk (LawfulEqCmp.eq_of_compare heq)
        have hne : ∀ w, (k, w) ≠ entry := fun w heq => hk (by rw [← heq])
        simp only [if_neg hcmp, List.mem_cons, hne, false_or]
  rw [hcopy]
  simp

/-- The listing of a map has what the map shows. -/
theorem lists_listing (read : ν → Option β) (entries : ExtTreeMap κ ν cmp) :
    Lists cmp (fun k => (entries[k]?).bind read) (listing read entries) := by
  refine ⟨?_, fun k v => ?_⟩
  · refine List.Pairwise.filterMap _ ?_ (ExtTreeMap.ordered_keys_toList (t := entries))
    intro a a' hlt b hb b' hb'
    obtain ⟨w, -, rfl⟩ := Option.map_eq_some_iff.mp hb
    obtain ⟨w', -, rfl⟩ := Option.map_eq_some_iff.mp hb'
    exact hlt
  · unfold listing
    rw [List.mem_filterMap]
    constructor
    · rintro ⟨⟨k', w⟩, hmem, hread⟩
      obtain ⟨v', hv, heq⟩ := Option.map_eq_some_iff.mp hread
      cases heq
      have hget := ExtTreeMap.mem_toList_iff_getElem?_eq_some.mp hmem
      show (entries[k']?).bind read = some v
      rw [hget]
      exact hv
    · intro h
      obtain ⟨w, hget, hv⟩ := Option.bind_eq_some_iff.mp h
      exact ⟨(k, w), ExtTreeMap.mem_toList_iff_getElem?_eq_some.mpr hget, by simp [hv]⟩

end ProcmailRs.Layers
