import Mathlib.Data.List.Basic

/-!
# Nested parts

A nested part stands between an opening and a closing mark and may contain further nested parts.
An escape mark hides the element behind it. Behind an opening mark either the part is closed
somewhere, or it is left open at the end of the text.
-/

namespace ProcmailRs.Nesting

/-- The three marks. -/
structure Marks (α : Type*) where
  opening : α
  closing : α
  escape : α
  opening_ne_closing : opening ≠ closing
  opening_ne_escape : opening ≠ escape
  closing_ne_escape : closing ≠ escape

section

variable {α : Type*} (m : Marks α)

/-- The text can stand between an opening and a closing mark. -/
inductive Body : List α → Prop
  | nil : Body []
  | plain {a : α} {l : List α} (h : Body l) (hopening : a ≠ m.opening) (hclosing : a ≠ m.closing)
      (hescape : a ≠ m.escape) : Body (a :: l)
  | escaped {a : α} {l : List α} (h : Body l) : Body (m.escape :: a :: l)
  | nested {b l : List α} (hb : Body b) (h : Body l) : Body (m.opening :: (b ++ m.closing :: l))

/-- A complete nested part. -/
def Nested (l : List α) : Prop := ∃ body, Body m body ∧ l = m.opening :: (body ++ [m.closing])

/-- A part that is left open, with or without an escape mark at the end or a part in it that is left
open itself. -/
inductive Open : List α → Prop
  | body {b : List α} (h : Body m b) : Open (m.opening :: b)
  | escape {b : List α} (h : Body m b) : Open (m.opening :: (b ++ [m.escape]))
  | nested {b l : List α} (hb : Body m b) (h : Open l) : Open (m.opening :: (b ++ l))

variable {m}

theorem Body.append {b l : List α} (hb : Body m b) (hl : Body m l) : Body m (b ++ l) := by
  induction hb with
  | nil => exact hl
  | plain _ hopening hclosing hescape ih => exact ih.plain hopening hclosing hescape
  | escaped _ ih => exact ih.escaped
  | nested hb _ _ ih =>
    rw [List.cons_append, List.append_assoc, List.cons_append]
    exact hb.nested ih

/-- A part that is left open is left open with more text in front. -/
theorem Open.prepend {b l : List α} (hb : Body m b) (h : Open m (m.opening :: l)) :
    Open m (m.opening :: (b ++ l)) := by
  cases h with
  | body hl => exact Open.body (hb.append hl)
  | escape hl =>
    rw [← List.append_assoc]
    exact Open.escape (hb.append hl)
  | nested hl hopen =>
    rw [← List.append_assoc]
    exact Open.nested (hb.append hl) hopen

/-- Behind an opening mark the part is closed or it is left open. -/
theorem open_or_closed (l : List α) :
    Open m (m.opening :: l) ∨ ∃ body rest, Body m body ∧ l = body ++ m.closing :: rest := by
  induction hn : l.length using Nat.strongRecOn generalizing l with
  | _ n ih =>
    subst hn
    cases l with
    | nil => exact Or.inl (Open.body Body.nil)
    | cons a l =>
      -- A piece in front of a text for which the statement holds already.
      have hpiece : ∀ {piece rest : List α}, Body m piece → rest.length < (a :: l).length →
          a :: l = piece ++ rest →
          Open m (m.opening :: (a :: l)) ∨
            ∃ body rest, Body m body ∧ a :: l = body ++ m.closing :: rest := by
        intro piece rest hbody hlength hsplit
        rcases ih rest.length hlength rest rfl with hopen | ⟨body, behind, hrest, rfl⟩
        · rw [hsplit]
          exact Or.inl (hopen.prepend hbody)
        · exact Or.inr ⟨piece ++ body, behind, hbody.append hrest, by rw [hsplit, List.append_assoc]⟩
      by_cases hclosing : a = m.closing
      · exact Or.inr ⟨[], l, Body.nil, by rw [hclosing]; rfl⟩
      by_cases hescape : a = m.escape
      · subst hescape
        cases l with
        | nil => exact Or.inl (Open.escape Body.nil)
        | cons b l =>
          have hescaped : Body m [m.escape, b] := Body.nil.escaped
          refine hpiece hescaped ?_ rfl
          rw [List.length_cons, List.length_cons]
          omega
      by_cases hopening : a = m.opening
      · subst hopening
        rcases ih l.length (by simp) l rfl with hopen | ⟨body, rest, hbody, rfl⟩
        · exact Or.inl (Open.nested Body.nil hopen)
        · have hnested : Body m (m.opening :: (body ++ [m.closing])) := hbody.nested Body.nil
          have hsplit : m.opening :: (body ++ m.closing :: rest) =
              m.opening :: (body ++ [m.closing]) ++ rest := by simp
          refine hpiece hnested ?_ hsplit
          rw [List.length_cons, List.length_append, List.length_cons]
          omega
      · have hplain : Body m [a] := Body.nil.plain hopening hclosing hescape
        exact hpiece hplain (by simp) rfl

end

end ProcmailRs.Nesting
