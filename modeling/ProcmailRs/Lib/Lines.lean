import Mathlib.Data.List.Basic
import Mathlib.Tactic.SplitIfs

/-!
# Cutting a list at delimiters

`splitInclusive p` cuts a list just after every element that satisfies `p` (a line reader), and
`splitBefore p` just before every such element (a record reader). Both are plain structural
recursions; the lemmas say that the pieces concatenate back to the input and characterise the pieces
of a concatenation.
-/

namespace Lines

variable {α : Type*} (p : α → Bool)

/-- The pieces of a list, each ending just after an element that satisfies `p`; only the last piece
may lack such an element. -/
def splitInclusive : List α → List (List α)
  | [] => []
  | a :: l =>
    if p a then [a] :: splitInclusive l
    else match splitInclusive l with
      | [] => [[a]]
      | h :: t => (a :: h) :: t

/-- The pieces of a list, each starting just before an element that satisfies `p`; only the first
piece may start with another element. -/
def splitBefore : List α → List (List α)
  | [] => []
  | a :: l => match splitBefore l with
    | [] => [[a]]
    | h :: t => if h.head?.any p then [a] :: h :: t else (a :: h) :: t

/-- The list ends in an element that satisfies `p`. -/
def Terminated (l : List α) : Prop := l.getLast?.any p = true

/-- A piece that `splitInclusive` can produce: not empty, and no element but the last satisfies
`p`. -/
def IsLine (l : List α) : Prop := l ≠ [] ∧ ∀ a ∈ l.dropLast, p a = false

variable {p}

attribute [local simp] splitInclusive splitBefore

@[simp] theorem splitInclusive_nil : splitInclusive p ([] : List α) = [] := rfl

theorem splitInclusive_cons_of_pos {a : α} {l : List α} (h : p a = true) :
    splitInclusive p (a :: l) = [a] :: splitInclusive p l := by
  simp [splitInclusive, h]

theorem splitInclusive_cons_of_neg {a : α} {l h : List α} {t : List (List α)} (ha : p a = false)
    (hs : splitInclusive p l = h :: t) : splitInclusive p (a :: l) = (a :: h) :: t := by
  simp [splitInclusive, ha, hs]

theorem splitInclusive_eq_nil {l : List α} : splitInclusive p l = [] ↔ l = [] := by
  cases l with
  | nil => simp
  | cons a l =>
    simp only [splitInclusive, reduceCtorEq, iff_false]
    split_ifs
    · simp
    · split <;> simp

/-- The pieces concatenate to the list. -/
@[simp] theorem flatten_splitInclusive (l : List α) : (splitInclusive p l).flatten = l := by
  induction l with
  | nil => rfl
  | cons a l ih =>
    simp only [splitInclusive]
    split_ifs
    · simp [ih]
    · split
      · rename_i h
        rw [h] at ih
        simp [← ih]
      · rename_i h t heq
        rw [heq] at ih
        simp [← ih]

theorem terminated_cons_cons {a b : α} {l : List α} :
    Terminated p (a :: b :: l) ↔ Terminated p (b :: l) := by
  simp [Terminated]

theorem Terminated.append {l r : List α} (h : Terminated p r) : Terminated p (l ++ r) := by
  unfold Terminated at *
  cases hr : r.getLast? with
  | none => rw [hr] at h; simp at h
  | some a => rw [List.getLast?_append, hr]; rw [hr] at h; simpa using h

theorem Terminated.ne_nil {l : List α} (h : Terminated p l) : l ≠ [] := by
  rintro rfl
  simp [Terminated] at h

theorem terminated_singleton {a : α} : Terminated p [a] ↔ p a = true := by
  simp [Terminated]

/-- After a terminated prefix a fresh piece starts. -/
theorem splitInclusive_append {l : List α} (h : Terminated p l) (r : List α) :
    splitInclusive p (l ++ r) = splitInclusive p l ++ splitInclusive p r := by
  induction l with
  | nil => exact absurd rfl h.ne_nil
  | cons a l ih =>
    cases l with
    | nil =>
      have ha : p a = true := terminated_singleton.mp h
      simp [splitInclusive, ha]
    | cons b l =>
      have ih := ih (terminated_cons_cons.mp h)
      simp only [List.cons_append] at ih ⊢
      cases ha : p a with
      | true => simp only [splitInclusive_cons_of_pos ha, ih, List.cons_append]
      | false =>
        cases hs : splitInclusive p (b :: l) with
        | nil => exact absurd (splitInclusive_eq_nil.mp hs) (by simp)
        | cons h t =>
          rw [hs] at ih
          rw [splitInclusive_cons_of_neg ha ih, splitInclusive_cons_of_neg ha hs]
          rfl

/-- A piece is not cut further. -/
theorem IsLine.splitInclusive_eq {l : List α} (h : IsLine p l) : splitInclusive p l = [l] := by
  induction l with
  | nil => exact absurd rfl h.1
  | cons a l ih =>
    cases l with
    | nil => by_cases ha : p a = true <;> simp [splitInclusive, ha]
    | cons b l =>
      have ha : p a = false := h.2 a (by simp)
      have hl : IsLine p (b :: l) := ⟨by simp, fun x hx => h.2 x (by simp [hx])⟩
      rw [splitInclusive_cons_of_neg ha (ih hl)]

theorem IsLine.cons {a : α} {l : List α} (ha : p a = false) (h : IsLine p l) :
    IsLine p (a :: l) := by
  refine ⟨by simp, ?_⟩
  obtain ⟨b, t, rfl⟩ := List.exists_cons_of_ne_nil h.1
  intro x hx
  rw [List.dropLast_cons_cons, List.mem_cons] at hx
  rcases hx with rfl | hx
  · exact ha
  · exact h.2 x hx

theorem isLine_of_mem {l line : List α} (h : line ∈ splitInclusive p l) : IsLine p line := by
  induction l generalizing line with
  | nil => simp at h
  | cons a l ih =>
    simp only [splitInclusive] at h
    split_ifs at h with ha
    · rcases List.mem_cons.mp h with rfl | h
      · exact ⟨by simp, by simp⟩
      · exact ih h
    · split at h
      · obtain rfl := List.mem_singleton.mp h
        exact ⟨by simp, by simp⟩
      · rename_i hd tl heq
        rcases List.mem_cons.mp h with rfl | h
        · exact (ih (by rw [heq]; simp)).cons (by simpa using ha)
        · exact ih (by rw [heq]; exact List.mem_cons_of_mem _ h)

/-- Every piece but the last is terminated, and so is the last when the list is. -/
theorem terminated_of_mem {l line : List α} (hl : Terminated p l)
    (h : line ∈ splitInclusive p l) : Terminated p line := by
  induction l generalizing line with
  | nil => simp at h
  | cons a l ih =>
    by_cases ha : p a = true
    · rw [splitInclusive_cons_of_pos ha] at h
      rcases List.mem_cons.mp h with rfl | h
      · exact terminated_singleton.mpr ha
      · cases l with
        | nil => simp at h
        | cons b l => exact ih (terminated_cons_cons.mp hl) h
    · cases l with
      | nil => exact absurd (terminated_singleton.mp hl) ha
      | cons b l =>
        have hl' := terminated_cons_cons.mp hl
        cases hs : splitInclusive p (b :: l) with
        | nil => exact absurd (splitInclusive_eq_nil.mp hs) (by simp)
        | cons hd tl =>
          rw [splitInclusive_cons_of_neg (by simpa using ha) hs] at h
          rw [hs] at ih
          rcases List.mem_cons.mp h with rfl | h
          · exact Terminated.append (l := [a]) (ih hl' (List.mem_cons_self ..))
          · exact ih hl' (List.mem_cons_of_mem _ h)

/-- Lines that are all terminated are recovered from their concatenation. -/
theorem splitInclusive_flatten {ls : List (List α)} (h : ∀ l ∈ ls, IsLine p l ∧ Terminated p l) :
    splitInclusive p ls.flatten = ls := by
  induction ls with
  | nil => rfl
  | cons l ls ih =>
    obtain ⟨h1, h2⟩ := h l (by simp)
    rw [List.flatten_cons, splitInclusive_append h2, h1.splitInclusive_eq,
      ih fun x hx => h x (by simp [hx])]
    rfl

/-- A sequence of pieces that `splitInclusive` can produce: only the last one may be
unterminated. -/
def Proper (p : α → Bool) : List (List α) → Prop
  | [] => True
  | l :: rest => IsLine p l ∧ (rest ≠ [] → Terminated p l) ∧ Proper p rest

theorem proper_splitInclusive (p : α → Bool) (l : List α) : Proper p (splitInclusive p l) := by
  induction l with
  | nil => trivial
  | cons a l ih =>
    by_cases ha : p a = true
    · rw [splitInclusive_cons_of_pos ha]
      exact ⟨⟨by simp, by simp⟩, fun _ => terminated_singleton.mpr ha, ih⟩
    · rw [Bool.not_eq_true] at ha
      cases hs : splitInclusive p l with
      | nil =>
        obtain rfl := splitInclusive_eq_nil.mp hs
        simp only [splitInclusive, ha]
        exact ⟨⟨by simp, by simp⟩, by simp, trivial⟩
      | cons h t =>
        rw [splitInclusive_cons_of_neg ha hs]
        rw [hs] at ih
        obtain ⟨hline, hterm, hrest⟩ := ih
        refine ⟨hline.cons ha, fun ht => ?_, hrest⟩
        exact (hterm ht).append (l := [a])

/-- A proper sequence of pieces is cut at the same places again. -/
theorem Proper.splitInclusive_flatten {ls : List (List α)} (h : Proper p ls) :
    splitInclusive p ls.flatten = ls := by
  induction ls with
  | nil => rfl
  | cons l rest ih =>
    obtain ⟨hline, hterm, hrest⟩ := h
    by_cases hnil : rest = []
    · subst hnil
      simpa using hline.splitInclusive_eq
    · rw [List.flatten_cons, splitInclusive_append (hterm hnil), hline.splitInclusive_eq, ih hrest]
      rfl

theorem Proper.left {l r : List (List α)} (h : Proper p (l ++ r)) : Proper p l := by
  induction l with
  | nil => trivial
  | cons a l ih =>
    obtain ⟨hline, hterm, hrest⟩ := h
    exact ⟨hline, fun hl => hterm (by simp [hl]), ih hrest⟩

theorem Proper.right {l r : List (List α)} (h : Proper p (l ++ r)) : Proper p r := by
  induction l with
  | nil => exact h
  | cons a l ih => exact ih h.2.2

/-- What precedes a piece is terminated. -/
theorem Proper.terminated {l r : List (List α)} (h : Proper p (l ++ r)) (hr : r ≠ []) :
    ∀ a ∈ l, Terminated p a := by
  induction l with
  | nil => simp
  | cons b l ih =>
    obtain ⟨-, hterm, hrest⟩ := h
    intro a ha
    rcases List.mem_cons.mp ha with rfl | ha
    · exact hterm (by simp [hr])
    · exact ih hrest a ha

/-- A piece without a delimiter can only be the last one. -/
theorem splitInclusive_of_forall_not {l : List α} (hl : l ≠ []) (h : ∀ a ∈ l, p a = false) :
    splitInclusive p l = [l] :=
  IsLine.splitInclusive_eq ⟨hl, fun a ha => h a (List.dropLast_subset l ha)⟩

/-- Cutting off the first piece at the position of the first delimiter. -/
theorem splitInclusive_cut {l : List α} {i : Nat} (h : l.findIdx? p = some i) (r : List α) :
    splitInclusive p (l ++ r) = l.take (i + 1) :: splitInclusive p (l.drop (i + 1) ++ r) := by
  induction l generalizing i with
  | nil => simp at h
  | cons a l ih =>
    rw [List.findIdx?_cons] at h
    cases ha : p a with
    | true =>
      rw [ha, if_pos rfl] at h
      obtain rfl := Option.some.inj h
      simp [splitInclusive_cons_of_pos ha]
    | false =>
      rw [ha, if_neg (by simp)] at h
      obtain ⟨j, hj, rfl⟩ := Option.map_eq_some_iff.mp h
      rw [List.cons_append, splitInclusive_cons_of_neg ha (ih hj)]
      simp

/-- The first piece may start with elements that are known to be no delimiters. -/
theorem splitInclusive_append_cut {c l : List α} {i : Nat} (hc : ∀ a ∈ c, p a = false)
    (h : l.findIdx? p = some i) :
    splitInclusive p (c ++ l) = (c ++ l.take (i + 1)) :: splitInclusive p (l.drop (i + 1)) := by
  induction c with
  | nil => simpa using splitInclusive_cut h []
  | cons a c ih =>
    rw [List.cons_append, splitInclusive_cons_of_neg (hc a (by simp))
      (ih fun x hx => hc x (by simp [hx]))]
    rfl

/-- An unfinished line is part of the first piece. -/
theorem length_le_of_splitInclusive_append {c l first : List α} {rest : List (List α)}
    (hc : ∀ a ∈ c, p a = false) (h : splitInclusive p (c ++ l) = first :: rest) :
    c.length ≤ first.length := by
  induction c generalizing first rest with
  | nil => exact Nat.zero_le _
  | cons a c ih =>
    have ha : p a = false := hc a (by simp)
    rw [List.cons_append] at h
    simp only [splitInclusive, ha] at h
    cases hs : splitInclusive p (c ++ l) with
    | nil =>
      obtain ⟨rfl, -⟩ := List.append_eq_nil_iff.mp (splitInclusive_eq_nil.mp hs)
      rw [hs] at h
      obtain ⟨rfl, -⟩ := List.cons.inj h
      exact Nat.le_refl _
    | cons head tail =>
      rw [hs] at h
      obtain ⟨rfl, -⟩ := List.cons.inj h
      have hle := ih (fun b hb => hc b (by simp [hb])) hs
      simp only [List.length_cons]
      omega

/-- The beginning of the first piece can be exchanged for another one without a delimiter. -/
theorem splitInclusive_append_open {c l first : List α} {rest : List (List α)}
    (hc : ∀ a ∈ c, p a = false) (hne : c ≠ []) (h : splitInclusive p (c ++ l) = first :: rest) :
    ∃ tail, first = c ++ tail ∧ ∀ d, (∀ a ∈ d, p a = false) → d ≠ [] →
      splitInclusive p (d ++ l) = (d ++ tail) :: rest := by
  have hopen : ∀ d : List α, (∀ a ∈ d, p a = false) → d ≠ [] →
      splitInclusive p (d ++ l) =
        (d ++ (splitInclusive p l).head?.getD []) :: (splitInclusive p l).tail := by
    intro d hd hdne
    induction d with
    | nil => exact absurd rfl hdne
    | cons a d ih =>
      have ha : p a = false := hd a (by simp)
      cases d with
      | nil =>
        cases hs : splitInclusive p l with
        | nil => simp [splitInclusive, ha, hs]
        | cons head tail => simp [splitInclusive, ha, hs]
      | cons b d =>
        exact splitInclusive_cons_of_neg ha (ih (fun x hx => hd x (by simp [hx])) (by simp))
  rw [hopen c hc hne] at h
  obtain ⟨rfl, rfl⟩ := List.cons.inj h
  exact ⟨_, rfl, hopen⟩

/-- Every list is a concatenation of whole pieces, terminated if there are any, followed by elements
none of which is a delimiter. -/
theorem exists_terminated_append (p : α → Bool) (l : List α) :
    ∃ t c, l = t ++ c ∧ (t = [] ∨ Terminated p t) ∧ ∀ a ∈ c, p a = false := by
  induction l with
  | nil => exact ⟨[], [], rfl, Or.inl rfl, by simp⟩
  | cons a l ih =>
    obtain ⟨t, c, rfl, ht, hc⟩ := ih
    rcases ht with rfl | ht
    · cases ha : p a with
      | true => exact ⟨[a], c, rfl, Or.inr (terminated_singleton.mpr ha), hc⟩
      | false =>
        refine ⟨[], a :: c, rfl, Or.inl rfl, fun x hx => ?_⟩
        rcases List.mem_cons.mp hx with rfl | hx
        · exact ha
        · exact hc x hx
    · exact ⟨a :: t, c, rfl, Or.inr (Terminated.append (l := [a]) ht), hc⟩

/-! ### Records -/

theorem ne_nil_of_mem_splitBefore {l piece : List α} (h : piece ∈ splitBefore p l) : piece ≠ [] := by
  induction l generalizing piece with
  | nil => simp [splitBefore] at h
  | cons a l ih =>
    rw [splitBefore] at h
    split at h
    · rw [List.mem_singleton.mp h]
      simp
    · rename_i head tail heq
      split_ifs at h
      · rcases List.mem_cons.mp h with rfl | h
        · simp
        · exact ih (by rw [heq]; exact h)
      · rcases List.mem_cons.mp h with rfl | h
        · simp
        · exact ih (by rw [heq]; exact List.mem_cons_of_mem _ h)

/-- A record that starts with a delimiter and has no other one is cut off whole, provided the rest
is empty or starts with a delimiter. -/
theorem splitBefore_cons {a : α} {l r : List α} (hl : ∀ x ∈ l, p x = false)
    (hr : ∀ x ∈ r.head?, p x = true) :
    splitBefore p (a :: l ++ r) = (a :: l) :: splitBefore p r := by
  induction l generalizing a with
  | nil =>
    cases r with
    | nil => simp [splitBefore]
    | cons b r =>
      have hb : p b = true := hr b (by simp)
      have hhead : ∃ h t, splitBefore p (b :: r) = h :: t ∧ h.head?.any p = true := by
        rw [splitBefore]
        split
        · exact ⟨_, _, rfl, by simpa using hb⟩
        · split_ifs
          · exact ⟨_, _, rfl, by simpa using hb⟩
          · exact ⟨_, _, rfl, by simpa using hb⟩
      obtain ⟨h, t, heq, hh⟩ := hhead
      simp only [List.cons_append, List.nil_append]
      rw [splitBefore, heq]
      simp only [hh, if_true]
  | cons b l ih =>
    have hb : p b = false := hl b (by simp)
    have ih := ih (a := b) (fun x hx => hl x (by simp [hx]))
    simp only [List.cons_append] at ih ⊢
    rw [splitBefore, ih]
    simp [hb]

/-- Records, each starting with the only delimiter in it, are recovered from their
concatenation. -/
theorem splitBefore_flatten {rs : List (α × List α)}
    (h : ∀ r ∈ rs, p r.1 = true ∧ ∀ x ∈ r.2, p x = false) :
    splitBefore p (rs.map fun r => r.1 :: r.2).flatten = rs.map fun r => r.1 :: r.2 := by
  induction rs with
  | nil => rfl
  | cons r rs ih =>
    rw [List.map_cons, List.flatten_cons, splitBefore_cons (h r (by simp)).2]
    · rw [ih fun x hx => h x (by simp [hx])]
    · cases rs with
      | nil => simp
      | cons r' rs => simpa using (h r' (by simp)).1

theorem splitBefore_head (a : α) (l : List α) :
    ∃ h t, splitBefore p (a :: l) = h :: t ∧ h.head? = some a := by
  rw [splitBefore]
  split
  · exact ⟨[a], [], rfl, rfl⟩
  · split
    · exact ⟨[a], _, rfl, rfl⟩
    · exact ⟨a :: _, _, rfl, rfl⟩

/-- Before a delimiter a list is always cut. -/
theorem splitBefore_append (l : List α) {r : List α} (hr : ∀ x ∈ r.head?, p x = true) :
    splitBefore p (l ++ r) = splitBefore p l ++ splitBefore p r := by
  induction l with
  | nil => rfl
  | cons a l ih =>
    cases l with
    | nil =>
      cases r with
      | nil => rfl
      | cons b r =>
        obtain ⟨h, t, heq, hhead⟩ := splitBefore_head (p := p) b r
        have hb : p b = true := hr b rfl
        rw [List.singleton_append, splitBefore, heq]
        simp [hhead, hb, splitBefore]
    | cons b l =>
      obtain ⟨h, t, heq, -⟩ := splitBefore_head (p := p) b l
      rw [heq] at ih
      rw [List.cons_append, splitBefore, ih, splitBefore, heq]
      simp only [List.cons_append]
      split
      · rfl
      · rfl

end Lines
