import ProcmailRs.StructuredHeader
import ProcmailRs.Lib.Refinement

/-!
# Visits with a limit

The visits of structured values count what they show and stop with an error above a limit. Within
the limit a visitor sees the values one by one until it returns `true`.
-/

namespace ProcmailRs

section

variable {ε σ α : Type}

/-- Shows values to a visitor until one visit returns `true`. -/
def visitUntil (visit : σ → α → Except ε (Bool × σ)) : List α → σ → Except ε (Bool × σ)
  | [], s => .ok (false, s)
  | value :: rest, s =>
    match visit s value with
    | .error e => .error e
    | .ok (true, s) => .ok (true, s)
    | .ok (false, s) => visitUntil visit rest s

/-- The same with a limit on the number of values; `count` have been shown before. -/
def visitLimited (limit : Nat) (visit : σ → α → Except ε (Bool × σ)) :
    List α → Nat → σ → Except (StructuredVisitError ε) (Bool × Nat × σ)
  | [], count, s => .ok (false, count, s)
  | value :: rest, count, s =>
    if count + 1 > limit then .error (.Header workLimitError)
    else
      match visit s value with
      | .error e => .error (.Visitor e)
      | .ok (true, s) => .ok (true, count + 1, s)
      | .ok (false, s) => visitLimited limit visit rest (count + 1) s

/-- The result of a visit in the form in which it is returned. -/
def visitResult : Except ε (Bool × σ) → Except (StructuredVisitError ε) (Bool × σ)
  | .error e => .error (.Visitor e)
  | .ok result => .ok result

variable {limit : Nat} (visit : σ → α → Except ε (Bool × σ))

theorem visitLimited_append (l r : List α) (count : Nat) (s : σ) :
    visitLimited limit visit (l ++ r) count s =
      match visitLimited limit visit l count s with
      | .error e => .error e
      | .ok (true, count, s) => .ok (true, count, s)
      | .ok (false, count, s) => visitLimited limit visit r count s := by
  induction l generalizing count s with
  | nil => rfl
  | cons value l ih =>
    rw [List.cons_append, visitLimited, visitLimited]
    by_cases hfull : count + 1 > limit
    · rw [if_pos hfull, if_pos hfull]
    · rw [if_neg hfull, if_neg hfull]
      cases visit s value with
      | error e => rfl
      | ok result =>
        obtain ⟨found, s⟩ := result
        cases found with
        | true => rfl
        | false => exact ih (count + 1) s

/-- Within the limit the values are shown one by one. -/
theorem visitLimited_of_le {values : List α} {count : Nat} (h : count + values.length ≤ limit)
    (s : σ) :
    (visitLimited limit visit values count s).map (fun result => (result.1, result.2.2)) =
      visitResult (visitUntil visit values s) := by
  induction values generalizing count s with
  | nil => rfl
  | cons value rest ih =>
    rw [List.length_cons] at h
    rw [visitLimited, visitUntil, if_neg (by omega)]
    cases visit s value with
    | error e => rfl
    | ok result =>
      obtain ⟨found, s⟩ := result
      cases found with
      | true => rfl
      | false => exact ih (by omega) s

/-- The visitor that keeps what it is shown and goes on. -/
def keepAll (seen : List α) (value : α) : Except Empty (Bool × List α) := .ok (false, seen ++ [value])

theorem visitUntil_keepAll (values seen : List α) :
    visitUntil keepAll values seen = .ok (false, seen ++ values) := by
  induction values generalizing seen with
  | nil => simp [visitUntil]
  | cons value rest ih =>
    rw [visitUntil, keepAll]
    simp only
    rw [ih, List.append_assoc, List.singleton_append]

/-- Everything is kept, unless there is too much of it. -/
theorem visitLimited_keepAll_eq {values : List α} {count : Nat} (hcount : count ≤ limit)
    (seen : List α) :
    visitLimited limit keepAll values count seen =
      if count + values.length ≤ limit then .ok (false, count + values.length, seen ++ values)
      else .error (.Header workLimitError) := by
  induction values generalizing count seen with
  | nil =>
    rw [visitLimited, if_pos (by simpa using hcount)]
    simp
  | cons value rest ih =>
    rw [visitLimited, List.length_cons]
    by_cases hfull : count + 1 > limit
    · rw [if_pos hfull, if_neg (by omega)]
    · rw [if_neg hfull, keepAll]
      simp only
      rw [ih (by omega), List.append_assoc, List.singleton_append, Nat.add_right_comm,
        Nat.add_assoc]

/-- Above the limit nothing is returned. -/
theorem visitLimited_keepAll {values : List α} {count : Nat} {seen : List α} {found : Bool}
    {count' : Nat} {seen' : List α}
    (h : visitLimited limit keepAll values count seen = .ok (found, count', seen')) :
    found = false ∧ seen' = seen ++ values := by
  induction values generalizing count seen with
  | nil =>
    rw [visitLimited] at h
    obtain ⟨rfl, -, rfl⟩ := by simpa using h
    exact ⟨rfl, by simp⟩
  | cons value rest ih =>
    rw [visitLimited] at h
    split_ifs at h
    obtain ⟨hfound, hseen⟩ := ih h
    exact ⟨hfound, by rw [hseen, List.append_assoc, List.singleton_append]⟩

end

end ProcmailRs
