import Mathlib.Data.List.Basic

/-!
# Logs

A log is a list of events, and every event changes a state. Replaying the log gives the state it leads
to. `Throughout P` says that every event of a log satisfies `P` in the state that the events before it
lead to.
-/

namespace Replay

variable {σ ε : Type} (after : σ → ε → σ)

/-- The state after the entries of the log. -/
def replay (s : σ) (log : List ε) : σ := log.foldl after s

/-- `P` holds of every event, in the state before it. -/
def Throughout (P : σ → ε → Prop) (s : σ) (log : List ε) : Prop :=
  ∀ before event later, log = before ++ event :: later → P (replay after s before) event

variable {after} {P Q : σ → ε → Prop} {s : σ}

@[simp] theorem replay_nil : replay after s [] = s := rfl

@[simp] theorem replay_cons (event : ε) (log : List ε) :
    replay after s (event :: log) = replay after (after s event) log := rfl

@[simp] theorem replay_append (log more : List ε) :
    replay after s (log ++ more) = replay after (replay after s log) more :=
  List.foldl_append

@[simp] theorem throughout_nil : Throughout after P s [] := by
  intro before event later h
  simp at h

theorem throughout_append {log more : List ε} :
    Throughout after P s (log ++ more) ↔
      Throughout after P s log ∧ Throughout after P (replay after s log) more := by
  constructor
  · intro h
    constructor
    · rintro before event later rfl
      exact h before event (later ++ more) (by simp)
    · rintro before event later rfl
      have hevent := h (log ++ before) event later (by simp)
      rwa [replay_append] at hevent
  · rintro ⟨hlog, hmore⟩ before event later h
    rcases List.append_eq_append_iff.mp h with ⟨middle, rfl, rfl⟩ | ⟨middle, rfl, hlater⟩
    · rw [replay_append]
      exact hmore middle event later rfl
    · cases middle with
      | nil =>
        have hevent := hmore [] event later (by simpa using hlater.symm)
        simpa using hevent
      | cons head tail =>
        rw [List.cons_append, List.cons.injEq] at hlater
        exact hlog before event tail (by rw [hlater.1])

theorem throughout_singleton {event : ε} : Throughout after P s [event] ↔ P s event := by
  constructor
  · intro h
    exact h [] event [] rfl
  · intro h before other later heq
    cases before with
    | nil =>
      cases heq
      exact h
    | cons head tail => simp at heq

theorem throughout_cons {event : ε} {log : List ε} :
    Throughout after P s (event :: log) ↔ P s event ∧ Throughout after P (after s event) log := by
  rw [← List.singleton_append, throughout_append, throughout_singleton, replay_cons, replay_nil]

instance decidableThroughout [∀ s event, Decidable (P s event)] :
    ∀ s log, Decidable (Throughout after P s log)
  | _, [] => isTrue throughout_nil
  | s, event :: log =>
    have := decidableThroughout (after s event) log
    decidable_of_iff (P s event ∧ Throughout after P (after s event) log) throughout_cons.symm

theorem throughout_and {log : List ε} :
    Throughout after (fun s event => P s event ∧ Q s event) s log ↔
      Throughout after P s log ∧ Throughout after Q s log := by
  constructor
  · intro h
    exact ⟨fun before event later heq => (h before event later heq).1,
      fun before event later heq => (h before event later heq).2⟩
  · rintro ⟨hP, hQ⟩ before event later heq
    exact ⟨hP before event later heq, hQ before event later heq⟩

theorem Throughout.mono {log : List ε} (h : Throughout after P s log)
    (hPQ : ∀ s event, P s event → Q s event) : Throughout after Q s log :=
  fun before event later heq => hPQ _ event (h before event later heq)

/-- Two properties that agree on every event of a log hold throughout it together. -/
theorem throughout_congr {log : List ε} (h : Throughout after (fun s event => P s event ↔ Q s event) s log) :
    Throughout after P s log ↔ Throughout after Q s log :=
  ⟨fun hP before event later heq => (h before event later heq).mp (hP before event later heq),
    fun hQ before event later heq => (h before event later heq).mpr (hQ before event later heq)⟩

end Replay
