import Mathlib.Logic.Basic

/-!
# Runs of computations with state and errors

A computation of `EStateM` ends with a value or with an error, and with a state in both cases. `Ends`
states what holds of the end of a run; `Keeps R` says that every run, however it ends, leaves a state
that is related by `R` to the one it started in, and `Gives P` that every value satisfies `P`. A `Blind`
computation may change the state, but how it ends does not depend on it. Two computations that `Agree` within a set of states do the same there and do
not leave it.
-/

namespace Outcome

variable {ε σ α β : Type}

/-- Started in `s`, the computation ends with a value and a state as `Q` demands, or with an error and
a state as `X` demands. -/
def Ends (m : EStateM ε σ α) (s : σ) (Q : α → σ → Prop) (X : ε → σ → Prop) : Prop :=
  match m s with
  | .ok a s' => Q a s'
  | .error e s' => X e s'

section Ends

variable {m : EStateM ε σ α} {f : α → EStateM ε σ β} {s : σ}
variable {Q Q' : α → σ → Prop} {X X' : ε → σ → Prop} {P : β → σ → Prop}

theorem Ends.mono (h : Ends m s Q X) (hQ : ∀ a s', Q a s' → Q' a s')
    (hX : ∀ e s', X e s' → X' e s') : Ends m s Q' X' := by
  unfold Ends at *
  cases hm : m s with
  | ok a s' => exact hQ a s' (by simpa [hm] using h)
  | error e s' => exact hX e s' (by simpa [hm] using h)

theorem Ends.bind (h : Ends m s Q X) (hf : ∀ a s', Q a s' → Ends (f a) s' P X) :
    Ends (m >>= f) s P X := by
  unfold Ends at h
  cases hm : m s with
  | ok a s' =>
    have hrun : (m >>= f) s = f a s' := by simp [Bind.bind, EStateM.bind, hm]
    simp only [Ends, hrun]
    exact hf a s' (by simpa [hm] using h)
  | error e s' =>
    have hrun : (m >>= f) s = .error e s' := by simp [Bind.bind, EStateM.bind, hm]
    simp only [Ends, hrun]
    simpa [hm] using h

end Ends

/-- The state that a run ends in. -/
def finalState : EStateM.Result ε σ α → σ
  | .ok _ s => s
  | .error _ s => s

/-- A run that has no value but the state it ends in. -/
def toExcept : EStateM.Result ε σ Unit → Except ε σ
  | .ok () s => .ok s
  | .error e _ => .error e

theorem toExcept_bind (m f : EStateM ε σ Unit) (s : σ) :
    toExcept ((m >>= fun _ => f) s) = (toExcept (m s)).bind fun s' => toExcept (f s') := by
  cases hm : m s with
  | ok u s' => simp [Bind.bind, EStateM.bind, hm, toExcept, Except.bind]
  | error e s' => simp [Bind.bind, EStateM.bind, hm, toExcept, Except.bind]

theorem Ends.finalState {m : EStateM ε σ α} {s : σ} {P : σ → Prop}
    (h : Ends m s (fun _ s' => P s') fun _ s' => P s') : P (finalState (m s)) := by
  unfold Ends at h
  cases hm : m s with
  | ok a s' =>
    rw [hm] at h
    exact h
  | error e s' =>
    rw [hm] at h
    exact h

theorem ends_of_finalState {m : EStateM ε σ α} {s : σ} {P : σ → Prop} (h : P (finalState (m s))) :
    Ends m s (fun _ s' => P s') fun _ s' => P s' := by
  unfold Ends
  cases hm : m s with
  | ok a s' =>
    rw [hm] at h
    exact h
  | error e s' =>
    rw [hm] at h
    exact h

theorem get_apply (s : σ) : (get : EStateM ε σ σ) s = .ok s s := rfl

theorem get_bind (f : σ → EStateM ε σ α) (s : σ) : (get >>= f) s = f s s := rfl

theorem modify_apply (g : σ → σ) (s : σ) : (modify g : EStateM ε σ PUnit) s = .ok ⟨⟩ (g s) := rfl

theorem throw_apply (e : ε) (s : σ) : (throw e : EStateM ε σ α) s = .error e s := rfl

/-! ### Errors as results -/

/-- Runs a computation and hands its error to the caller. -/
def attempt {ε' : Type} (m : EStateM ε σ α) : EStateM ε' σ (Except ε α) := fun s =>
  match m s with
  | .ok a s' => .ok (.ok a) s'
  | .error e s' => .ok (.error e) s'

theorem Ends.attempt {ε' : Type} {m : EStateM ε σ α} {s : σ} {Q : α → σ → Prop} {X : ε → σ → Prop}
    {X' : ε' → σ → Prop} (h : Ends m s Q X) :
    Ends (Outcome.attempt m : EStateM ε' σ (Except ε α)) s
      (fun result s' => match result with
        | .ok a => Q a s'
        | .error e => X e s') X' := by
  unfold Ends Outcome.attempt at *
  cases hrun : m s with
  | ok a s' => simpa only [hrun] using h
  | error e s' => simpa only [hrun] using h

/-! ### Relations between the states before and after -/

/-- Every run ends in a state related to the one it started in. -/
def Keeps (R : σ → σ → Prop) (m : EStateM ε σ α) : Prop :=
  ∀ s, Ends m s (fun _ s' => R s s') (fun _ s' => R s s')

/-- A relation that holds of doing nothing and of two runs in a row. -/
structure Composable (R : σ → σ → Prop) : Prop where
  refl : ∀ s, R s s
  trans : ∀ {s s' s''}, R s s' → R s' s'' → R s s''

section Keeps

variable {R : σ → σ → Prop} (hR : Composable R)

include hR

theorem Keeps.pure (a : α) : Keeps R (pure a : EStateM ε σ α) := fun s => hR.refl s

theorem Keeps.throw (e : ε) : Keeps R (throw e : EStateM ε σ α) := fun s => hR.refl s

theorem Keeps.get : Keeps R (get : EStateM ε σ σ) := fun s => hR.refl s

theorem Keeps.bind {m : EStateM ε σ α} {f : α → EStateM ε σ β} (h : Keeps R m)
    (hf : ∀ a, Keeps R (f a)) : Keeps R (m >>= f) := by
  intro s
  have hm := h s
  unfold Ends at hm
  cases hrun : m s with
  | ok a s' =>
    rw [hrun] at hm
    have hbind : (m >>= f) s = f a s' := by simp [Bind.bind, EStateM.bind, hrun]
    have hrest := hf a s'
    unfold Ends at hrest ⊢
    rw [hbind]
    cases hend : f a s' with
    | ok b s'' => exact hR.trans hm (by simpa [hend] using hrest)
    | error e s'' => exact hR.trans hm (by simpa [hend] using hrest)
  | error e s' =>
    have hbind : (m >>= f) s = .error e s' := by simp [Bind.bind, EStateM.bind, hrun]
    simp only [Ends, hbind]
    simpa [hrun] using hm

end Keeps

theorem keeps_modify {R : σ → σ → Prop} {g : σ → σ} (h : ∀ s, R s (g s)) :
    Keeps R (modify g : EStateM ε σ PUnit) := fun s => h s

/-- A computation that is chosen by the state it starts in. -/
theorem Keeps.read {R : σ → σ → Prop} {m : σ → EStateM ε σ α} (h : ∀ s, Keeps R (m s)) :
    Keeps R fun s => m s s := fun s => h s s

theorem Keeps.ite {R : σ → σ → Prop} {c : Prop} [Decidable c] {m m' : EStateM ε σ α}
    (h : Keeps R m) (h' : Keeps R m') : Keeps R (if c then m else m') := by
  split
  · exact h
  · exact h'

/-! ### The values of a computation -/

/-- Every value that the computation can give satisfies `P`. -/
def Gives (m : EStateM ε σ α) (P : α → Prop) : Prop :=
  ∀ s, Ends m s (fun a _ => P a) fun _ _ => True

namespace Gives

variable {P : α → Prop} {Q : β → Prop}

theorem pure {a : α} (h : P a) : Gives (pure a : EStateM ε σ α) P := fun _ => h

theorem throw {e : ε} : Gives (throw e : EStateM ε σ α) P := fun _ => trivial

theorem any (m : EStateM ε σ α) : Gives m fun _ => True := by
  intro s
  unfold Ends
  cases m s <;> trivial

theorem bind {m : EStateM ε σ α} {f : α → EStateM ε σ β} (hm : Gives m P)
    (hf : ∀ a, P a → Gives (f a) Q) : Gives (m >>= f) Q :=
  fun s => (hm s).bind fun a s' ha => hf a ha s'

theorem ite {c : Prop} [Decidable c] {m m' : EStateM ε σ α} (h : Gives m P) (h' : Gives m' P) :
    Gives (if c then m else m') P := by
  split
  · exact h
  · exact h'

/-- What follows needs to be the same only after the values that there can be. -/
theorem bind_congr {m : EStateM ε σ α} {f g : α → EStateM ε σ β} (hm : Gives m P)
    (h : ∀ a, P a → f a = g a) : m >>= f = m >>= g := by
  funext s
  have hs := hm s
  unfold Ends at hs
  cases hrun : m s with
  | error e s' => simp [Bind.bind, EStateM.bind, hrun]
  | ok a s' =>
    rw [hrun] at hs
    simp [Bind.bind, EStateM.bind, hrun, h a hs]

end Gives

/-! ### Computations within a set of states -/

/-- From the states in `P` both computations do the same, and end in `P`. -/
def Agrees (P : σ → Prop) (m m' : EStateM ε σ α) : Prop :=
  ∀ s, P s → m' s = m s ∧ Ends m s (fun _ s' => P s') (fun _ s' => P s')

namespace Agrees

variable {P : σ → Prop}

theorem pure (a : α) : Agrees P (pure a : EStateM ε σ α) (pure a) := fun _ h => ⟨rfl, h⟩

theorem throw (e : ε) : Agrees P (throw e : EStateM ε σ α) (throw e) := fun _ h => ⟨rfl, h⟩

theorem of_keeps {R : σ → σ → Prop} {m : EStateM ε σ α} (hm : Keeps R m)
    (hR : ∀ {s s'}, R s s' → P s → P s') : Agrees P m m :=
  fun s h => ⟨rfl, (hm s).mono (fun _ _ hs => hR hs h) fun _ _ hs => hR hs h⟩

theorem ite {c : Prop} [Decidable c] {m₁ m₂ m₁' m₂' : EStateM ε σ α} (h₁ : Agrees P m₁ m₁')
    (h₂ : Agrees P m₂ m₂') : Agrees P (if c then m₁ else m₂) (if c then m₁' else m₂') := by
  split
  · exact h₁
  · exact h₂

/-- What follows is compared on the values that the first computation can give. -/
theorem bind_of {m m' : EStateM ε σ α} {f f' : α → EStateM ε σ β} (hm : Agrees P m m')
    (hf : ∀ s a s', P s → m s = .ok a s' → f' a s' = f a s' ∧
      Ends (f a) s' (fun _ s'' => P s'') (fun _ s'' => P s'')) :
    Agrees P (m >>= f) (m' >>= f') := by
  intro s hs
  obtain ⟨heq, hends⟩ := hm s hs
  unfold Ends at hends
  cases hrun : m s with
  | ok a s' =>
    rw [hrun] at hends heq
    have hbind : (m >>= f) s = f a s' := by simp [Bind.bind, EStateM.bind, hrun]
    have hbind' : (m' >>= f') s = f' a s' := by simp [Bind.bind, EStateM.bind, heq]
    obtain ⟨hrest, hstays⟩ := hf s a s' hs hrun
    unfold Ends at hstays ⊢
    rw [hbind, hbind']
    exact ⟨hrest, hstays⟩
  | error e s' =>
    rw [hrun] at hends heq
    have hbind : (m >>= f) s = .error e s' := by simp [Bind.bind, EStateM.bind, hrun]
    have hbind' : (m' >>= f') s = .error e s' := by simp [Bind.bind, EStateM.bind, heq]
    unfold Ends
    rw [hbind, hbind']
    exact ⟨rfl, hends⟩

theorem bind {m m' : EStateM ε σ α} {f f' : α → EStateM ε σ β} (hm : Agrees P m m')
    (hf : ∀ a, Agrees P (f a) (f' a)) : Agrees P (m >>= f) (m' >>= f') := by
  refine hm.bind_of fun s a s' hs hrun => hf a s' ?_
  have hends := (hm s hs).2
  rw [Ends, hrun] at hends
  exact hends

end Agrees

/-! ### Blind computations -/

/-- A run that ends like this, in the state `s`. -/
def endIn (result : Except ε α) (s : σ) : EStateM.Result ε σ α :=
  match result with
  | .ok a => .ok a s
  | .error e => .error e s

/-- The value or the error does not depend on the state. -/
def Blind (m : EStateM ε σ α) : Prop :=
  ∃ (result : Except ε α) (change : σ → σ), ∀ s, m s = endIn result (change s)

namespace Blind

theorem pure (a : α) : Blind (pure a : EStateM ε σ α) := ⟨.ok a, id, fun _ => rfl⟩

theorem throw (e : ε) : Blind (throw e : EStateM ε σ α) := ⟨.error e, id, fun _ => rfl⟩

theorem change (g : σ → σ) : Blind (modify g : EStateM ε σ PUnit) := ⟨.ok ⟨⟩, g, fun _ => rfl⟩

theorem bind {m : EStateM ε σ α} {f : α → EStateM ε σ β} (h : Blind m) (hf : ∀ a, Blind (f a)) :
    Blind (m >>= f) := by
  obtain ⟨result, change, hm⟩ := h
  cases result with
  | error e =>
    refine ⟨.error e, change, fun s => ?_⟩
    have hs : m s = .error e (change s) := hm s
    simp [Bind.bind, EStateM.bind, hs, endIn]
  | ok a =>
    obtain ⟨result', change', hfa⟩ := hf a
    refine ⟨result', fun s => change' (change s), fun s => ?_⟩
    have hs : m s = .ok a (change s) := hm s
    simp only [Bind.bind, EStateM.bind, hs]
    exact hfa (change s)

theorem ite {c : Prop} [Decidable c] {m m' : EStateM ε σ α} (h : Blind m) (h' : Blind m') :
    Blind (if c then m else m') := by
  split
  · exact h
  · exact h'

/-- A run from another state ends in the same way. -/
theorem ok_of_ok {m : EStateM ε σ α} (h : Blind m) {a : α} {s s' : σ} (hm : m s = .ok a s') (t : σ) :
    ∃ t', m t = .ok a t' := by
  obtain ⟨result, change, hrun⟩ := h
  rw [hrun s] at hm
  cases result with
  | error e => exact nomatch hm
  | ok b =>
    cases hm
    exact ⟨change t, hrun t⟩

end Blind

end Outcome
