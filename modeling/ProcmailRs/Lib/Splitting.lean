import Mathlib.Data.List.Basic

/-!
# Splitting a list by a scanner

A scanner reads a list from left to right, in a state of its own, and says at which elements the list is
split. A scanner that is back at its start behind a piece splits what follows as if it stood alone.
-/

namespace ProcmailRs.Splitting

variable {σ α β : Type*} (step : σ → α → σ × Bool)

/-- The state of the scanner behind a list. -/
def run (s : σ) (l : List α) : σ := l.foldl (fun s a => (step s a).1) s

/-- The pieces of a list; `current` are the elements of the piece already begun. -/
def pieces (s : σ) (current : List α) : List α → List (List α)
  | [] => [current]
  | a :: l =>
    if (step s a).2 then current :: pieces (step s a).1 [] l
    else pieces (step s a).1 (current ++ [a]) l

attribute [local simp] pieces

variable {step} {s start : σ} {sep : α} {f : List α → β} {w : List α}

@[simp] theorem run_nil : run step s [] = s := rfl

@[simp] theorem run_cons (a : α) (l : List α) : run step s (a :: l) = run step (step s a).1 l := rfl

theorem run_append (l r : List α) : run step s (l ++ r) = run step (run step s l) r :=
  List.foldl_append

/-- The elements keep the scanner where it is. -/
theorem run_of_forall {l : List α} (h : ∀ a ∈ l, (step s a).1 = s) : run step s l = s := by
  induction l with
  | nil => rfl
  | cons a l ih =>
    rw [run_cons, h a (by simp)]
    exact ih fun a ha => h a (by simp [ha])

/-- What follows a separator is split on its own. -/
theorem pieces_append (l r current : List α) (hsep : (step (run step s l) sep).2 = true) :
    pieces step s current (l ++ sep :: r) =
      pieces step s current l ++ pieces step (step (run step s l) sep).1 [] r := by
  induction l generalizing s current with
  | nil =>
    rw [run_nil] at hsep
    rw [List.nil_append, pieces, pieces, if_pos hsep]
    rfl
  | cons a l ih =>
    rw [run_cons] at hsep ⊢
    rw [List.cons_append, pieces, pieces]
    by_cases ha : (step s a).2 = true
    · rw [if_pos ha, if_pos ha, ih [] hsep, List.cons_append]
    · rw [if_neg ha, if_neg ha, ih (current ++ [a]) hsep]

/-- Texts behind which the scanner is back at its start, with separators between them, are split one by
one. -/
theorem pieces_intercalate (hsep : step start sep = (start, true)) {texts : List (List α)}
    (hne : texts ≠ []) (h : ∀ text ∈ texts, run step start text = start) :
    pieces step start [] ([sep].intercalate texts) = texts.flatMap (pieces step start []) := by
  induction texts with
  | nil => exact absurd rfl hne
  | cons text rest ih =>
    cases rest with
    | nil => simp
    | cons next rest =>
      have htext := h text (by simp)
      have hrest := ih (by simp) fun text htext => h text (by simp [htext])
      rw [List.flatMap_cons, List.intercalate_cons_cons, List.append_assoc, List.singleton_append,
        pieces_append _ _ _ (by rw [htext, hsep]), htext, hsep, hrest]

/-- Nothing is split off at elements that never separate. -/
theorem pieces_of_quiet (hquiet : ∀ s, ∀ a ∈ w, (step s a).2 = false) (current : List α) :
    pieces step s current w = [current ++ w] := by
  induction w generalizing s current with
  | nil => simp [pieces]
  | cons a w ih =>
    rw [pieces, if_neg (by simp [hquiet s a (by simp)])]
    rw [ih fun s b hb => hquiet s b (by simp [hb]), List.append_assoc, List.singleton_append]

/-- Elements that never matter, in front of the first piece. -/
theorem map_pieces_left (hf : ∀ l, f (w ++ l) = f l) (current l : List α) :
    (pieces step s (w ++ current) l).map f = (pieces step s current l).map f := by
  induction l generalizing s current with
  | nil => simp [pieces, hf]
  | cons a l ih =>
    rw [pieces, pieces]
    by_cases ha : (step s a).2 = true
    · rw [if_pos ha, if_pos ha, List.map_cons, List.map_cons, hf]
    · rw [if_neg ha, if_neg ha, List.append_assoc, ih]

/-- Elements that never matter, behind the last piece. -/
theorem map_pieces_right (hquiet : ∀ s, ∀ a ∈ w, (step s a).2 = false) (hf : ∀ l, f (l ++ w) = f l)
    (current l : List α) :
    (pieces step s current (l ++ w)).map f = (pieces step s current l).map f := by
  induction l generalizing s current with
  | nil => simp [pieces, pieces_of_quiet hquiet, hf]
  | cons a l ih =>
    rw [List.cons_append, pieces, pieces]
    by_cases ha : (step s a).2 = true
    · rw [if_pos ha, if_pos ha, List.map_cons, List.map_cons, ih]
    · rw [if_neg ha, if_neg ha, ih]

/-- Elements that keep the scanner where it is belong to the first piece. -/
theorem pieces_of_still (hstill : ∀ a ∈ w, step s a = (s, false)) (current l : List α) :
    pieces step s current (w ++ l) = pieces step s (current ++ w) l := by
  induction w generalizing current with
  | nil => simp
  | cons a w ih =>
    have ha := hstill a (by simp)
    rw [List.cons_append, pieces, ha, if_neg Bool.false_ne_true,
      ih fun b hb => hstill b (by simp [hb]), List.append_assoc, List.singleton_append]

end ProcmailRs.Splitting
