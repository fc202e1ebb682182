import Mathlib.Logic.Basic

/-!
# Refinement of fallible computations

Two computations that may fail agree up to a relation when both fail with the same error or both
succeed with related results. The relation is a congruence for sequencing, iteration and mapping, so
the agreement of two programs is assembled from the agreement of their steps.
-/

namespace ProcmailRs

variable {ε α α' β β' γ : Type}

theorem bind_eq_ok {x : Except ε α} {f : α → Except ε β} {b : β} (h : x >>= f = .ok b) :
    ∃ a, x = .ok a ∧ f a = .ok b := by
  cases x with
  | error e => cases h
  | ok a => exact ⟨a, rfl, h⟩

theorem map_eq_ok {x : Except ε α} {f : α → β} {b : β} (h : x.map f = .ok b) :
    ∃ a, x = .ok a ∧ f a = b := by
  cases x with
  | error e => cases h
  | ok a => exact ⟨a, rfl, Except.ok.inj h⟩

/-! What is left of a computation when its error does not matter. -/

theorem toOption_bind (x : Except ε α) (f : α → Except ε β) :
    (x >>= f).toOption = x.toOption.bind fun a => (f a).toOption := by
  cases x with
  | error e => rfl
  | ok a => rfl

theorem toOption_mapError {ε' : Type} (x : Except ε α) (f : ε → ε') :
    (x.mapError f).toOption = x.toOption := by
  cases x with
  | error e => rfl
  | ok a => rfl

theorem map_eq_bind (x : Except ε α) (f : α → β) : x.map f = x >>= fun a => .ok (f a) := by
  cases x <;> rfl

theorem ok_bind (a : α) (f : α → Except ε β) : (Except.ok a >>= f) = f a := rfl

/-- What every successful step preserves, a successful iteration preserves. -/
theorem foldlM_preserves {f : α → γ → Except ε α} {P : α → Prop} {items : List γ} {a b : α}
    (h : items.foldlM f a = .ok b) (ha : P a)
    (hstep : ∀ a c b, c ∈ items → P a → f a c = .ok b → P b) : P b := by
  induction items generalizing a with
  | nil =>
    obtain rfl : a = b := Except.ok.inj h
    exact ha
  | cons c items ih =>
    rw [List.foldlM_cons] at h
    obtain ⟨a', hc, hrest⟩ := bind_eq_ok h
    refine ih hrest (hstep a c a' (by simp) ha hc) ?_
    intro a d b hd
    exact hstep a d b (by simp [hd])

/-- Both computations fail with the same error, or both succeed with related results. -/
inductive Refines (R : α → β → Prop) : Except ε α → Except ε β → Prop
  | ok {a : α} {b : β} (h : R a b) : Refines R (.ok a) (.ok b)
  | error (e : ε) : Refines R (.error e) (.error e)

namespace Refines

variable {R : α → β → Prop} {S : α' → β' → Prop} {x : Except ε α} {y : Except ε β}

theorem mono {R' : α → β → Prop} (h : Refines R x y) (himp : ∀ a b, R a b → R' a b) :
    Refines R' x y := by
  cases h with
  | ok hab => exact .ok (himp _ _ hab)
  | error e => exact .error e

/-- A computation agrees with itself. -/
theorem refl (x : Except ε α) : Refines (fun a b => x = .ok a ∧ a = b) x x := by
  cases x with
  | error e => exact .error e
  | ok a => exact .ok ⟨rfl, rfl⟩

theorem bind {f : α → Except ε α'} {g : β → Except ε β'} (h : Refines R x y)
    (hstep : ∀ a b, R a b → Refines S (f a) (g b)) : Refines S (x >>= f) (y >>= g) := by
  cases h with
  | ok hab => exact hstep _ _ hab
  | error e => exact .error e

theorem map {f : α → α'} {g : β → β'} (h : Refines R x y) (hmap : ∀ a b, R a b → S (f a) (g b)) :
    Refines S (x.map f) (y.map g) := by
  cases h with
  | ok hab => exact .ok (hmap _ _ hab)
  | error e => exact .error e

/-- Iterations agree when every step does. -/
theorem foldlM {f : α → γ → Except ε α} {g : β → γ → Except ε β} {items : List γ} {a : α} {b : β}
    (h : R a b) (hstep : ∀ a b, R a b → ∀ c ∈ items, Refines R (f a c) (g b c)) :
    Refines R (items.foldlM f a) (items.foldlM g b) := by
  induction items generalizing a b with
  | nil => exact .ok h
  | cons c items ih =>
    rw [List.foldlM_cons, List.foldlM_cons]
    refine (hstep a b h c (by simp)).bind fun a' b' h' => ih h' ?_
    intro a b hab c hc
    exact hstep a b hab c (by simp [hc])

theorem exists_of_ok {a : α} (h : Refines R (.ok a) y) : ∃ b, y = .ok b ∧ R a b := by
  cases h with
  | ok hab => exact ⟨_, rfl, hab⟩

theorem trans {S : β → γ → Prop} {z : Except ε γ} (h : Refines R x y) (h' : Refines S y z) :
    Refines (fun a c => ∃ b, R a b ∧ S b c) x z := by
  cases h with
  | ok hab =>
    cases h' with
    | ok hbc => exact .ok ⟨_, hab, hbc⟩
  | error e =>
    cases h' with
    | error => exact .error e

/-- Two computations that agree with a third agree with each other. -/
theorem join {R : α → γ → Prop} {S : β → γ → Prop} {z : Except ε γ} (h : Refines R x z)
    (h' : Refines S y z) : Refines (fun a b => ∃ c, R a c ∧ S b c) x y := by
  cases h with
  | ok hac =>
    cases h' with
    | ok hbc => exact .ok ⟨_, hac, hbc⟩
  | error e =>
    cases h' with
    | error => exact .error e

end Refines

/-- The second computation returns whatever the first one returns; it may fail less often. -/
def Within (x y : Except ε α) : Prop := ∀ a, x = .ok a → y = .ok a

namespace Within

theorem refl (x : Except ε α) : Within x x := fun _ h => h

theorem bind {x y : Except ε α} {f g : α → Except ε β} (h : Within x y)
    (hstep : ∀ a, x = .ok a → Within (f a) (g a)) : Within (x >>= f) (y >>= g) := by
  intro b hb
  obtain ⟨a, hx, hf⟩ := bind_eq_ok hb
  rw [h a hx]
  exact hstep a hx b hf

theorem map {x y : Except ε α} (h : Within x y) (f : α → β) : Within (x.map f) (y.map f) := by
  intro b hb
  obtain ⟨a, hx, rfl⟩ := map_eq_ok hb
  rw [h a hx]
  rfl

theorem foldlM {f g : α → γ → Except ε α} (h : ∀ a c, Within (f a c) (g a c)) (items : List γ)
    (a : α) : Within (items.foldlM f a) (items.foldlM g a) := by
  induction items generalizing a with
  | nil => exact refl _
  | cons c items ih =>
    rw [List.foldlM_cons, List.foldlM_cons]
    exact (h a c).bind fun a' _ => ih a'

end Within

end ProcmailRs
