import Mathlib.Data.List.Nodup

/-!
# Distinct elements in the order of their first occurrence

A loop that appends an element when it has not been seen gives the distinct elements of its input,
each where it occurs first.
-/

namespace ProcmailRs.FirstSeen

variable {α : Type*} [BEq α] [LawfulBEq α]

/-- One round of such a loop. -/
def insertNew (seen : List α) (a : α) : List α := if seen.contains a then seen else seen ++ [a]

/-- The loop adds what has not been seen before. -/
theorem foldl_insertNew (l seen : List α) :
    l.foldl insertNew seen = seen ++ (l.filter fun a => !seen.contains a).eraseDups := by
  induction l generalizing seen with
  | nil => simp
  | cons a l ih =>
    rw [List.foldl_cons, ih]
    by_cases hseen : seen.contains a = true
    · rw [insertNew, if_pos hseen, List.filter_cons_of_neg (by simpa using hseen)]
    · have hrest : (l.filter fun b => !(seen ++ [a]).contains b) =
          (l.filter fun b => !seen.contains b).filter fun b => !b == a := by
        rw [List.filter_filter]
        refine List.filter_congr fun b _ => ?_
        by_cases hb : b = a
        · simp [hb]
        · simp [hb]
      rw [insertNew, if_neg hseen, List.filter_cons_of_pos (by simpa using hseen),
        List.eraseDups_cons, hrest, List.append_assoc]
      rfl

theorem foldl_insertNew_nil (l : List α) : l.foldl insertNew [] = l.eraseDups := by
  rw [foldl_insertNew, List.nil_append, List.filter_eq_self.mpr (by simp)]

/-- Nothing is added to a list that has seen everything. -/
theorem foldl_insertNew_of_mem {l seen : List α} (h : ∀ a ∈ l, a ∈ seen) :
    l.foldl insertNew seen = seen := by
  have hnone : (l.filter fun a => !seen.contains a) = [] := by
    rw [List.filter_eq_nil_iff]
    intro a ha
    simp [h a ha]
  rw [foldl_insertNew, hnone, List.eraseDups_nil, List.append_nil]

theorem nodup_insertNew {seen : List α} (h : seen.Nodup) (a : α) : (insertNew seen a).Nodup := by
  unfold insertNew
  split_ifs with hseen
  · exact h
  · have hnot : a ∉ seen := by simpa using hseen
    rw [List.nodup_append]
    refine ⟨h, List.nodup_singleton a, ?_⟩
    rintro b hb c hc rfl
    obtain rfl : b = a := by simpa using hc
    exact hnot hb

theorem nodup_foldl_insertNew {seen : List α} (h : seen.Nodup) (l : List α) :
    (l.foldl insertNew seen).Nodup := by
  induction l generalizing seen with
  | nil => exact h
  | cons a l ih => exact ih (nodup_insertNew h a)

theorem nodup_eraseDups (l : List α) : l.eraseDups.Nodup := by
  rw [← foldl_insertNew_nil]
  exact nodup_foldl_insertNew List.nodup_nil l

theorem eraseDups_of_nodup {l : List α} (h : l.Nodup) : l.eraseDups = l := by
  induction l with
  | nil => rfl
  | cons a l ih =>
    obtain ⟨ha, hl⟩ := List.nodup_cons.mp h
    have hself : (l.filter fun b => !b == a) = l := by
      rw [List.filter_eq_self]
      intro b hb
      have hne : b ≠ a := by
        rintro rfl
        exact ha hb
      simpa using hne
    rw [List.eraseDups_cons, hself, ih hl]

/-- Copies of a duplicate-free list behind it add nothing. -/
theorem eraseDups_append_of_mem {l r : List α} (hl : l.Nodup) (hr : ∀ a ∈ r, a ∈ l) :
    (l ++ r).eraseDups = l := by
  rw [← foldl_insertNew_nil, List.foldl_append, foldl_insertNew_nil, eraseDups_of_nodup hl,
    foldl_insertNew_of_mem hr]

/-- So does a concatenation of several copies of it. -/
theorem eraseDups_flatMap_of_copies {β : Type*} {f : β → List α} {r : List α} (hr : r.Nodup)
    {l : List β} (h : ∀ x ∈ l, f x = r ∨ f x = []) (hsome : ∃ x ∈ l, f x = r) :
    (l.flatMap f).eraseDups = r := by
  induction l with
  | nil =>
    obtain ⟨x, hx, -⟩ := hsome
    cases hx
  | cons x l ih =>
    have htail : ∀ y ∈ l, f y = r ∨ f y = [] := fun y hy => h y (by simp [hy])
    rw [List.flatMap_cons]
    rcases h x (by simp) with hx | hx
    · rw [hx]
      refine eraseDups_append_of_mem hr fun a ha => ?_
      obtain ⟨y, hy, hay⟩ := List.mem_flatMap.mp ha
      rcases htail y hy with hcopy | hnone
      · rwa [hcopy] at hay
      · rw [hnone] at hay
        cases hay
    · rw [hx, List.nil_append]
      by_cases hrest : ∃ y ∈ l, f y = r
      · exact ih htail hrest
      · obtain ⟨y, hy, hyr⟩ := hsome
        rcases List.mem_cons.mp hy with rfl | hy
        · have hnil : l.flatMap f = [] := by
            rw [List.flatMap_eq_nil_iff]
            intro z hz
            rcases htail z hz with hcopy | hnone
            · exact absurd ⟨z, hz, hcopy⟩ hrest
            · exact hnone
          rw [hnil, ← hyr, hx]
          rfl
        · exact absurd ⟨y, hy, hyr⟩ hrest

/-! ### The first element of every key -/

section KeepFirst

variable {β κ : Type*} [BEq κ]

/-- Keeps the elements without a key, and of those with a key the first one of each that has not been
seen. -/
def keepFirst (key : β → Option κ) (seen : List κ) : List β → List β
  | [] => []
  | a :: l =>
    match key a with
    | none => a :: keepFirst key seen l
    | some k =>
      if seen.contains k then keepFirst key seen l else a :: keepFirst key (seen ++ [k]) l

variable (key : β → Option κ)

theorem keepFirst_cons (seen : List κ) (a : β) (l : List β) :
    keepFirst key seen (a :: l) =
      match key a with
      | none => a :: keepFirst key seen l
      | some k =>
        if seen.contains k then keepFirst key seen l else a :: keepFirst key (seen ++ [k]) l :=
  rfl

theorem keepFirst_cons_of_none {a : β} (h : key a = none) (seen : List κ) (l : List β) :
    keepFirst key seen (a :: l) = a :: keepFirst key seen l := by
  rw [keepFirst_cons, h]

theorem keepFirst_cons_of_seen {a : β} {k : κ} (h : key a = some k) {seen : List κ}
    (hseen : seen.contains k = true) (l : List β) :
    keepFirst key seen (a :: l) = keepFirst key seen l := by
  rw [keepFirst_cons, h]
  exact if_pos hseen

theorem keepFirst_cons_of_new {a : β} {k : κ} (h : key a = some k) {seen : List κ}
    (hseen : ¬ seen.contains k = true) (l : List β) :
    keepFirst key seen (a :: l) = a :: keepFirst key (seen ++ [k]) l := by
  rw [keepFirst_cons, h]
  exact if_neg hseen

theorem map_keepFirst {γ : Type*} (f : γ → β) (seen : List κ) (l : List γ) :
    (keepFirst (fun a => key (f a)) seen l).map f = keepFirst key seen (l.map f) := by
  induction l generalizing seen with
  | nil => rfl
  | cons a l ih =>
    simp only [keepFirst_cons, List.map_cons]
    split
    · rw [List.map_cons, ih]
    · split_ifs
      · exact ih seen
      · rw [List.map_cons, ih]

theorem keepFirst_sublist (seen : List κ) (l : List β) : (keepFirst key seen l).Sublist l := by
  induction l generalizing seen with
  | nil => exact List.Sublist.slnil
  | cons a l ih =>
    rw [keepFirst_cons]
    split
    · exact (ih seen).cons_cons a
    · split_ifs
      · exact (ih seen).cons a
      · exact (ih _).cons_cons a

/-- Elements without a key are left alone. -/
theorem filter_isNone_keepFirst (seen : List κ) (l : List β) :
    (keepFirst key seen l).filter (fun a => (key a).isNone) = l.filter fun a => (key a).isNone := by
  induction l generalizing seen with
  | nil => rfl
  | cons a l ih =>
    rw [keepFirst_cons]
    cases hkey : key a with
    | none => simp [hkey, ih]
    | some k =>
      dsimp only
      split_ifs
      · simp [hkey, ih]
      · simp [hkey, ih]

/-- Of every key that has not been seen, the first element is kept and no other. -/
theorem filter_key_keepFirst [LawfulBEq κ] (seen : List κ) (l : List β) (k : κ) :
    (keepFirst key seen l).filter (fun a => key a == some k) =
      if seen.contains k then [] else (l.filter fun a => key a == some k).head?.toList := by
  induction l generalizing seen with
  | nil => exact (ite_self []).symm
  | cons a l ih =>
    rw [keepFirst_cons]
    cases hkey : key a with
    | none => simp [hkey, ih]
    | some j =>
      dsimp only
      by_cases hjk : j = k
      · subst hjk
        by_cases hseen : seen.contains j = true
        · rw [if_pos hseen, if_pos hseen, ih, if_pos hseen]
        · rw [if_neg hseen, if_neg hseen, List.filter_cons_of_pos (by simp [hkey]), ih,
            if_pos (by simp), List.filter_cons_of_pos (by simp [hkey])]
          rfl
      · have hother : (key a == some k) = false := by simpa [hkey] using hjk
        have hseen : (seen ++ [j]).contains k = seen.contains k := by
          rw [Bool.eq_iff_iff, List.contains_iff_mem, List.contains_iff_mem, List.mem_append,
            List.mem_singleton]
          exact ⟨fun h => h.resolve_right fun heq => hjk heq.symm, Or.inl⟩
        rw [List.filter_cons_of_neg (by simp [hother])]
        split_ifs with hj hk hk
        · rw [ih, if_pos hk]
        · rw [ih, if_neg hk]
        · rw [List.filter_cons_of_neg (by simp [hother]), ih, hseen, if_pos hk]
        · rw [List.filter_cons_of_neg (by simp [hother]), ih, hseen, if_neg hk]

end KeepFirst

end ProcmailRs.FirstSeen
