import ProcmailRs.Lib.Outcome

/-!
# Dialogues

A dialogue is a computation that asks questions and goes on with the answers: it ends with a value or a
failure, and it may pass bounds and marks on its way. A run of a program follows a dialogue when it asks the
same questions in the same order and ends alike; it stops where a bound is exceeded, with an error of a kind
that the dialogue does not know. Nothing is said of a run that comes to a mark.
-/

/-- A computation that asks its surroundings: it ends with a value or a failure, asks and goes on with
the answer, or goes on with a bound or a mark that is noted. -/
inductive Dialogue (ι : Type) (ω : ι → Type) (ε α : Type)
  | value (a : α)
  | failure (e : ε)
  | bound (within : Bool) (rest : Dialogue ι ω ε α)
  | mark (rest : Dialogue ι ω ε α)
  | ask (question : ι) (next : ω question → Dialogue ι ω ε α)

namespace Dialogue

variable {ι : Type} {ω : ι → Type} {ε σ α β γ : Type}

/-- The dialogue without its bounds. -/
def unbounded : Dialogue ι ω ε α → Dialogue ι ω ε α
  | .value a => .value a
  | .failure e => .failure e
  | .bound _ rest => rest.unbounded
  | .mark rest => .mark rest.unbounded
  | .ask question next => .ask question fun answer => (next answer).unbounded

/-- One dialogue behind another. -/
def bind (f : α → Dialogue ι ω ε β) : Dialogue ι ω ε α → Dialogue ι ω ε β
  | .value a => f a
  | .failure e => .failure e
  | .bound within rest => .bound within (rest.bind f)
  | .mark rest => .mark (rest.bind f)
  | .ask question next => .ask question fun answer => (next answer).bind f

section Runs

variable (answer : (question : ι) → EStateM ε σ (ω question)) (excuse : ε → Prop)

/-- The dialogue, answered from the state, ends like this: it stops at the first bound that is exceeded. -/
inductive Runs : Dialogue ι ω ε α → σ → EStateM.Result ε σ α → Prop
  | value (a : α) (s : σ) : Runs (.value a) s (.ok a s)
  | failure (e : ε) (s : σ) : Runs (.failure e) s (.error e s)
  | bound {d : Dialogue ι ω ε α} {s : σ} {r : EStateM.Result ε σ α} (h : Runs d s r) :
      Runs (.bound true d) s r
  | stopped (d : Dialogue ι ω ε α) {e : ε} (s : σ) (h : excuse e) : Runs (.bound false d) s (.error e s)
  | mark {d : Dialogue ι ω ε α} {s : σ} {r : EStateM.Result ε σ α} (h : Runs d s r) : Runs (.mark d) s r
  | answered {question : ι} {next : ω question → Dialogue ι ω ε α} {s s' : σ} {w : ω question}
      {r : EStateM.Result ε σ α} (hanswer : answer question s = .ok w s') (h : Runs (next w) s' r) :
      Runs (.ask question next) s r
  | refused {question : ι} {next : ω question → Dialogue ι ω ε α} {s s' : σ} {e : ε}
      (hanswer : answer question s = .error e s') : Runs (.ask question next) s (.error e s')

/-- The dialogue, answered from the state, comes to a mark. -/
inductive Meets : Dialogue ι ω ε α → σ → Prop
  | bound {d : Dialogue ι ω ε α} {s : σ} (h : Meets d s) : Meets (.bound true d) s
  | mark (d : Dialogue ι ω ε α) (s : σ) : Meets (.mark d) s
  | answered {question : ι} {next : ω question → Dialogue ι ω ε α} {s s' : σ} {w : ω question}
      (hanswer : answer question s = .ok w s') (h : Meets (next w) s') : Meets (.ask question next) s

/-- The run follows the dialogue, unless this passes a mark. -/
def Follows (m : EStateM ε σ α) (d : Dialogue ι ω ε α) (s : σ) : Prop :=
  Meets answer d s ∨ Runs answer excuse d s (m s)

end Runs

variable {answer : (question : ι) → EStateM ε σ (ω question)} {excuse : ε → Prop}
variable {d : Dialogue ι ω ε α} {f : α → Dialogue ι ω ε γ} {s s' : σ}

theorem Runs.bind {a : α} {r : EStateM.Result ε σ γ} (h : Runs answer excuse d s (.ok a s'))
    (hf : Runs answer excuse (f a) s' r) : Runs answer excuse (d.bind f) s r := by
  generalize hr : (EStateM.Result.ok a s' : EStateM.Result ε σ α) = result at h
  induction h with
  | value a s =>
    cases hr
    exact hf
  | failure e s => cases hr
  | bound _ ih => exact .bound (ih hr)
  | stopped d s h => cases hr
  | mark _ ih => exact .mark (ih hr)
  | answered hanswer _ ih => exact .answered hanswer (ih hr)
  | refused hanswer => cases hr

theorem Runs.bind_error {e : ε} (h : Runs answer excuse d s (.error e s')) :
    Runs answer excuse (d.bind f) s (.error e s') := by
  generalize hr : (EStateM.Result.error e s' : EStateM.Result ε σ α) = result at h
  induction h with
  | value a s => cases hr
  | failure e s =>
    cases hr
    exact .failure _ _
  | bound _ ih => exact .bound (ih hr)
  | stopped d s h =>
    cases hr
    exact .stopped _ _ h
  | mark _ ih => exact .mark (ih hr)
  | answered hanswer _ ih => exact .answered hanswer (ih hr)
  | refused hanswer =>
    cases hr
    exact .refused hanswer

/-- A dialogue has one value. -/
theorem Runs.value_unique {a b : α} {s'' : σ} (h : Runs answer excuse d s (.ok a s'))
    (h' : Runs answer excuse d s (.ok b s'')) : a = b := by
  generalize hr : (EStateM.Result.ok a s' : EStateM.Result ε σ α) = result at h
  induction h with
  | value a s =>
    cases hr
    cases h'
    rfl
  | failure e s => cases hr
  | bound _ ih =>
    cases h' with
    | bound h' => exact ih h' hr
  | stopped d s h => cases hr
  | mark _ ih =>
    cases h' with
    | mark h' => exact ih h' hr
  | answered hanswer _ ih =>
    cases h' with
    | answered hanswer' h' =>
      rw [hanswer] at hanswer'
      cases hanswer'
      exact ih h' hr
  | refused hanswer => cases hr

theorem Meets.of_bound {within : Bool} (h : Meets answer (.bound within d) s) : Meets answer d s := by
  cases h with
  | bound h => exact h

theorem Meets.bind_left (h : Meets answer d s) : Meets answer (d.bind f) s := by
  induction h with
  | bound _ ih => exact .bound ih
  | mark d s => exact .mark _ _
  | answered hanswer _ ih => exact .answered hanswer ih

theorem Meets.bind_right {a : α} (h : Runs answer excuse d s (.ok a s')) (hf : Meets answer (f a) s') :
    Meets answer (d.bind f) s := by
  generalize hr : (EStateM.Result.ok a s' : EStateM.Result ε σ α) = result at h
  induction h with
  | value a s =>
    cases hr
    exact hf
  | failure e s => cases hr
  | bound _ ih => exact .bound (ih hr)
  | stopped d s h => cases hr
  | mark _ ih => exact .mark _ _
  | answered hanswer _ ih => exact .answered hanswer (ih hr)
  | refused hanswer => cases hr

/-- What comes to a value within the bounds comes to it without them. -/
theorem Runs.unbounded {a : α} (h : Runs answer excuse d s (.ok a s')) :
    Runs answer (fun _ => False) d.unbounded s (.ok a s') := by
  generalize hr : (EStateM.Result.ok a s' : EStateM.Result ε σ α) = result at h
  induction h with
  | value a s =>
    cases hr
    exact .value a s'
  | failure e s => cases hr
  | bound _ ih => exact ih hr
  | stopped d s h => cases hr
  | mark _ ih => exact .mark (ih hr)
  | answered hanswer _ ih => exact .answered hanswer (ih hr)
  | refused hanswer => cases hr

/-! ### Following -/

section Follows

variable {m : EStateM ε σ α} {k : α → EStateM ε σ γ}

/-- Two runs in a row follow two dialogues in a row. -/
theorem Follows.bind (h : Follows answer excuse m d s)
    (hk : ∀ a s', m s = .ok a s' → Follows answer excuse (k a) (f a) s') :
    Follows answer excuse (m >>= k) (d.bind f) s := by
  rcases h with hmeets | hruns
  · exact .inl hmeets.bind_left
  cases hm : m s with
  | ok a s' =>
    have hbind : (m >>= k) s = k a s' := by simp [Bind.bind, EStateM.bind, hm]
    rw [hm] at hruns
    unfold Follows
    rw [hbind]
    exact (hk a s' hm).imp (Meets.bind_right hruns) (Runs.bind hruns)
  | error e s' =>
    have hbind : (m >>= k) s = .error e s' := by simp [Bind.bind, EStateM.bind, hm]
    rw [hm] at hruns
    unfold Follows
    rw [hbind]
    exact .inr hruns.bind_error

theorem Follows.pure (a : α) (s : σ) : Follows answer excuse (pure a) (.value a) s := .inr (.value _ _)

theorem Follows.failure (e : ε) (s : σ) : Follows answer excuse (throw e : EStateM ε σ α) (.failure e) s :=
  .inr (.failure _ _)

theorem Follows.mark (d : Dialogue ι ω ε α) (s : σ) : Follows answer excuse m (.mark d) s := .inl (.mark _ _)

/-- A question is answered as the dialogue has it. -/
theorem Follows.ask {question : ι} {k : ω question → EStateM ε σ α} {next : ω question → Dialogue ι ω ε α}
    (hk : ∀ w s', answer question s = .ok w s' → Follows answer excuse (k w) (next w) s') :
    Follows answer excuse (answer question >>= k) (.ask question next) s := by
  cases hanswer : answer question s with
  | ok w s' =>
    have hbind : (answer question >>= k) s = k w s' := by simp [Bind.bind, EStateM.bind, hanswer]
    unfold Follows
    rw [hbind]
    exact (hk w s' hanswer).imp (Meets.answered hanswer) (Runs.answered hanswer)
  | error e s' =>
    have hbind : (answer question >>= k) s = .error e s' := by simp [Bind.bind, EStateM.bind, hanswer]
    unfold Follows
    rw [hbind]
    exact .inr (.refused hanswer)

/-- Within a bound the run goes on, and beyond it the run stops. -/
theorem Follows.bound {within : Bool} (hwithin : within = true → Follows answer excuse m d s)
    (hbeyond : within = false → ∃ e, excuse e ∧ m s = .error e s) :
    Follows answer excuse m (.bound within d) s := by
  cases within with
  | true => exact (hwithin rfl).imp .bound .bound
  | false =>
    obtain ⟨e, hexcuse, he⟩ := hbeyond rfl
    unfold Follows
    rw [he]
    exact .inr (.stopped d s hexcuse)

end Follows

end Dialogue
