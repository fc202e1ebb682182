import ProcmailRs.Lib.Outcome

/-!
# Computations in step

A leading computation, and others that follow it: the states of the followers are views of the state of
the leader. The leader may suspend: it then leaves a state from which the runs of the followers can be
recovered, instead of a value for them. It may also lose the followers; then at least all of them go the
same way.

Only runs of the leader that end with a value count, and of these only the ones that lead to a given
final state.
-/

namespace Lockstep

open Outcome

variable {ε ε' σ τ α β γ δ : Type}

/-- The run `result` goes on with `g`. -/
def andThen (result : EStateM.Result ε τ α) (g : α → EStateM ε τ β) : EStateM.Result ε τ β :=
  match result with
  | .ok a t => g a t
  | .error e t => .error e t

theorem bind_apply (m : EStateM ε τ α) (g : α → EStateM ε τ β) (t : τ) :
    (m >>= g) t = andThen (m t) g := by
  unfold andThen
  cases h : m t with
  | ok a t' => simp [Bind.bind, EStateM.bind, h]
  | error e t' => simp [Bind.bind, EStateM.bind, h]

theorem bind_of_ok {m : EStateM ε τ α} {t t' : τ} {a : α} (h : m t = .ok a t')
    (g : α → EStateM ε τ β) : (m >>= g) t = g a t' := by
  rw [bind_apply, h, andThen]

/-- A computation in two parts that ends with a value: so does the first part, and then the second. -/
theorem ok_of_bind {m : EStateM ε τ α} {g : α → EStateM ε τ β} {t t'' : τ} {b : β}
    (h : (m >>= g) t = .ok b t'') : ∃ a t', m t = .ok a t' ∧ g a t' = .ok b t'' := by
  rw [bind_apply] at h
  cases hm : m t with
  | ok a t' => exact ⟨a, t', rfl, by simpa [andThen, hm] using h⟩
  | error e t' => simp [andThen, hm] at h

/-- How the leader and its followers move. `view i` is the state of the follower `i`, and `later` relates
the states of the leader that one run goes through. Followers may be lost only if `mayLose` holds. -/
structure Course (ι σ τ : Type) where
  view : ι → σ → τ
  later : σ → σ → Prop
  composable : Composable later
  final : σ
  mayLose : Prop

variable {ι : Type} {course : Course ι σ τ}

/-- All followers do the same from here. -/
def Course.Together (course : Course ι σ τ) (q : EStateM ε' τ β) (s : σ) : Prop :=
  ∀ i j, q (course.view i s) = q (course.view j s)

theorem Course.Together.bind {q : EStateM ε' τ β} {s : σ} (h : course.Together q s)
    (g : β → EStateM ε' τ γ) : course.Together (q >>= g) s := by
  intro i j
  rw [bind_apply, bind_apply, h i j]

/-- The computation `q` follows `p` from the states in `inv`. `value` is what the value of `p` means for
`q`; where it means nothing, `p` has suspended, and `suspended` relates the end of `p` to the runs of `q`.
Nothing is said about the runs when `P` fails. -/
structure Follows (course : Course ι σ τ) (P : Prop) (inv : σ → Prop) (value : α → Option β)
    (suspended : α → σ → (ι → EStateM.Result ε' τ β) → Prop) (p : EStateM ε σ α)
    (q : EStateM ε' τ β) : Prop where
  later : Keeps course.later p
  run : P → ∀ {s a s'}, inv s → p s = .ok a s' → course.later s' course.final →
    ((∀ b, value a = some b → inv s' ∧ ∀ i, q (course.view i s) = .ok b (course.view i s')) ∧
      (value a = none → suspended a s' fun i => q (course.view i s))) ∨
    course.mayLose ∧ course.Together q s

/-- Nothing is suspended. -/
def never : α → σ → (ι → EStateM.Result ε' τ β) → Prop := fun _ _ _ => False

namespace Follows

variable {P P' : Prop} {inv : σ → Prop} {value : α → Option β}
variable {suspended suspended' : α → σ → (ι → EStateM.Result ε' τ β) → Prop}
variable {p : EStateM ε σ α} {q : EStateM ε' τ β}

theorem mono (h : Follows course P' inv value suspended p q) (hP : P → P')
    (hs : ∀ a s r, value a = none → suspended a s r → suspended' a s r) :
    Follows course P inv value suspended' p q where
  later := h.later
  run hp _ _ _ hinv hrun hfinal := by
    rcases h.run (hP hp) hinv hrun hfinal with ⟨hstep, hsuspend⟩ | hlost
    · exact .inl ⟨hstep, fun ha => hs _ _ _ ha (hsuspend ha)⟩
    · exact .inr hlost

theorem when (h : Follows course P' inv value suspended p q) (hP : P → P') :
    Follows course P inv value suspended p q :=
  h.mono hP fun _ _ _ _ hs => hs

theorem of_not (h : Keeps course.later p) (hP : ¬ P) :
    Follows course P inv value suspended p q where
  later := h
  run hp := absurd hp hP

theorem pure {a : α} {b : β} (h : value a = some b) :
    Follows course P inv value suspended (pure a : EStateM ε σ α) (pure b : EStateM ε' τ β) where
  later := .pure course.composable a
  run _ s a' s' hinv hp _ := by
    cases hp
    refine .inl ⟨fun b' hb' => ?_, fun hn => ?_⟩
    · cases h.symm.trans hb'
      exact ⟨hinv, fun _ => rfl⟩
    · cases h.symm.trans hn

theorem throw (e : ε) :
    Follows course P inv value suspended (throw e : EStateM ε σ α) q where
  later := .throw course.composable e
  run _ s a s' _ hp := by cases hp

/-- One computation after another. When the first part suspends, the rest of the leader must pass that
on. -/
theorem bind {value' : γ → Option δ} {ended : γ → σ → (ι → EStateM.Result ε' τ δ) → Prop}
    {f : α → EStateM ε σ γ} {g : β → EStateM ε' τ δ} (h : Follows course P inv value suspended p q)
    (hf : ∀ a b, value a = some b → Follows course P inv value' ended (f a) (g b))
    (hs : ∀ a, value a = none → Keeps course.later (f a) ∧
      (P → ∀ s r c s', suspended a s r → f a s = .ok c s' →
        value' c = none ∧ ended c s' fun i => andThen (r i) g)) :
    Follows course P inv value' ended (p >>= f) (q >>= g) where
  later := by
    refine .bind course.composable h.later fun a => ?_
    cases ha : value a with
    | some b => exact (hf a b ha).later
    | none => exact (hs a ha).1
  run hP s c s'' hinv hp hfinal := by
    obtain ⟨a, s', hp', hfa⟩ := ok_of_bind hp
    have hkeeps : Keeps course.later (f a) := by
      cases ha : value a with
      | some b => exact (hf a b ha).later
      | none => exact (hs a ha).1
    have hlater := hkeeps s'
    rw [Ends, hfa] at hlater
    rcases h.run hP hinv hp' (course.composable.trans hlater hfinal) with ⟨hstep, hsuspend⟩ |
      ⟨hlose, htogether⟩
    · cases ha : value a with
      | some b =>
        obtain ⟨hinv', hq⟩ := hstep b ha
        have hbind : ∀ i, (q >>= g) (course.view i s) = g b (course.view i s') :=
          fun i => bind_of_ok (hq i) g
        simp only [hbind, Course.Together]
        exact (hf a b ha).run hP hinv' hfa hfinal
      | none =>
        obtain ⟨hc, hended⟩ := (hs a ha).2 hP s' _ c s'' (hsuspend ha) hfa
        refine .inl ⟨fun b hb => ?_, fun _ => ?_⟩
        · cases hc.symm.trans hb
        · simpa only [bind_apply] using hended
    · exact .inr ⟨hlose, htogether.bind g⟩

/-- The first part never suspends. -/
theorem seq {value' : γ → Option δ} {ended : γ → σ → (ι → EStateM.Result ε' τ δ) → Prop}
    {p : EStateM ε σ α} {q : EStateM ε' τ α}
    {f : α → EStateM ε σ γ} {g : α → EStateM ε' τ δ} (h : Follows course P inv some never p q)
    (hf : ∀ a, Follows course P inv value' ended (f a) (g a)) :
    Follows course P inv value' ended (p >>= f) (q >>= g) := by
  refine .bind h ?_ ?_
  · intro a b hab
    cases hab
    exact hf a
  · intro a ha
    cases ha

theorem ite {c : Prop} [Decidable c] {p' : EStateM ε σ α} {q' : EStateM ε' τ β}
    (h : c → Follows course P inv value suspended p q)
    (h' : ¬ c → Follows course P inv value suspended p' q') :
    Follows course P inv value suspended (if c then p else p') (if c then q else q') := by
  split
  · exact h ‹_›
  · exact h' ‹_›

/-- All states change. -/
theorem change {g : σ → σ} {g' : τ → τ} (hlater : ∀ s, course.later s (g s))
    (hinv : ∀ s, inv s → inv (g s)) (hview : ∀ i s, inv s → g' (course.view i s) = course.view i (g s)) :
    Follows course P inv some never (modify g : EStateM ε σ PUnit)
      (modify g' : EStateM ε' τ PUnit) where
  later := keeps_modify hlater
  run _ s a s' hs hp _ := by
    cases hp
    refine .inl ⟨fun b hb => ?_, fun ha => ?_⟩
    · cases hb
      refine ⟨hinv s hs, fun i => ?_⟩
      rw [modify_apply, hview i s hs]
    · cases ha

/-- The leader alone changes its state. -/
theorem change_leader {f : PUnit → EStateM ε σ α} {g : σ → σ} (hlater : ∀ s, course.later s (g s))
    (hinv : ∀ s, inv s → inv (g s)) (hview : ∀ i s, course.view i (g s) = course.view i s)
    (hf : Follows course P inv value suspended (f ⟨⟩) q) :
    Follows course P inv value suspended (modify g >>= f) q where
  later := .bind course.composable (keeps_modify hlater) fun _ => hf.later
  run hP s a s' hs hp hfinal := by
    have hrun := hf.run hP (hinv s hs) hp hfinal
    simpa only [Course.Together, hview] using hrun

end Follows

end Lockstep
