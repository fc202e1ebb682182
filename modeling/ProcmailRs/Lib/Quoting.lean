import Mathlib.Data.List.Basic

/-!
# Text with quoted parts

A quotation mark opens and closes a quoted part, and inside of one an escape mark hides the element
behind it. A scanner that looks for structure outside quoted parts sees none in a text that is clear
of it, and continues behind the text in the state the text leaves.
-/

namespace ProcmailRs.Quoting

/-- The two marks. -/
structure Marks (α : Type*) where
  quote : α
  escape : α
  ne : quote ≠ escape

/-- Where a scanner stands. -/
structure State where
  quoted : Bool
  escaped : Bool
  deriving DecidableEq, Repr

/-- Outside of quoted parts. -/
def outside : State := ⟨false, false⟩

/-- In a quoted part. -/
def inside : State := ⟨true, false⟩

section

variable {α : Type*} [DecidableEq α] (m : Marks α)

/-- What one letter does to the reader of the quotes. -/
def step (q : State) (a : α) : State :=
  if q.escaped then ⟨q.quoted, false⟩
  else if q.quoted ∧ a = m.escape then ⟨q.quoted, true⟩
  else if a = m.quote then ⟨!q.quoted, false⟩
  else q

/-- The reader after a list of letters. -/
def run (q : State) (l : List α) : State := l.foldl (step m) q

/-- No element that `stop` is about stands outside of quoted parts. -/
def clear (stop : α → Bool) : State → List α → Bool
  | _, [] => true
  | q, a :: l => (q.quoted || !stop a) && clear stop (step m q a) l

/-- The text hides every element that `stop` is about, and it leaves no quoted part open. -/
def Hides (stop : α → Bool) (l : List α) : Prop :=
  clear m stop outside l = true ∧ run m outside l = outside

/-- The text can stand between two quotation marks. -/
inductive Body : List α → Prop
  | nil : Body []
  | plain {a : α} {l : List α} (h : Body l) (hquote : a ≠ m.quote) (hescape : a ≠ m.escape) :
      Body (a :: l)
  | escaped {a : α} {l : List α} (h : Body l) : Body (m.escape :: a :: l)

/-- A complete quoted part. -/
def Quoted (l : List α) : Prop := ∃ body, Body m body ∧ l = m.quote :: (body ++ [m.quote])

/-- A quoted part that is left open, with or without an escape mark at the end. -/
def Open (l : List α) : Prop :=
  ∃ body, Body m body ∧ (l = m.quote :: body ∨ l = m.quote :: (body ++ [m.escape]))

variable {m}

@[simp] theorem run_nil (q : State) : run m q [] = q := rfl

@[simp] theorem run_cons (q : State) (a : α) (l : List α) :
    run m q (a :: l) = run m (step m q a) l := rfl

theorem run_append (q : State) (l r : List α) : run m q (l ++ r) = run m (run m q l) r :=
  List.foldl_append

@[simp] theorem clear_nil (stop : α → Bool) (q : State) : clear m stop q [] = true := rfl

theorem clear_cons {stop : α → Bool} {q : State} {a : α} {l : List α} :
    clear m stop q (a :: l) = true ↔
      (q.quoted = true ∨ stop a = false) ∧ clear m stop (step m q a) l = true := by
  simp [clear]

theorem clear_append {stop : α → Bool} {q : State} {l r : List α} :
    clear m stop q (l ++ r) = true ↔
      clear m stop q l = true ∧ clear m stop (run m q l) r = true := by
  induction l generalizing q with
  | nil => simp
  | cons a l ih => rw [List.cons_append, clear_cons, clear_cons, ih, run_cons, and_assoc]

theorem clear_mono {stop stop' : α → Bool} (h : ∀ a, stop' a = true → stop a = true) {q : State}
    {l : List α} (hl : clear m stop q l = true) : clear m stop' q l = true := by
  induction l generalizing q with
  | nil => rfl
  | cons a l ih =>
    obtain ⟨ha, hl⟩ := clear_cons.mp hl
    refine clear_cons.mpr ⟨ha.imp_right fun hstop => ?_, ih hl⟩
    rw [Bool.eq_false_iff]
    intro hstop'
    rw [h a hstop'] at hstop
    cases hstop

namespace Hides

variable {stop : α → Bool} {l r : List α}

theorem append_iff (h : Hides m stop l) (r : List α) :
    Hides m stop (l ++ r) ↔ Hides m stop r := by
  unfold Hides
  rw [clear_append, run_append, h.1, h.2]
  simp

theorem append (h : Hides m stop l) (hr : Hides m stop r) : Hides m stop (l ++ r) :=
  (h.append_iff r).mpr hr

theorem mono {stop' : α → Bool} (hstop : ∀ a, stop' a = true → stop a = true)
    (h : Hides m stop l) : Hides m stop' l :=
  ⟨clear_mono hstop h.1, h.2⟩

end Hides

theorem clear_or {p p' : α → Bool} {q : State} {l : List α} :
    clear m (fun a => p a || p' a) q l = true ↔ clear m p q l = true ∧ clear m p' q l = true := by
  induction l generalizing q with
  | nil => simp
  | cons a l ih =>
    rw [clear_cons, clear_cons, clear_cons, ih]
    cases q.quoted <;> simp [and_assoc, and_left_comm]

/-- A translation that keeps the marks and what stops keeps the scan. -/
theorem run_map {f : α → α} (hquote : ∀ a, f a = m.quote ↔ a = m.quote)
    (hescape : ∀ a, f a = m.escape ↔ a = m.escape) (q : State) (l : List α) :
    run m q (l.map f) = run m q l := by
  induction l generalizing q with
  | nil => rfl
  | cons a l ih =>
    have hstep : step m q (f a) = step m q a := by simp [step, hquote, hescape]
    rw [List.map_cons, run_cons, run_cons, hstep, ih]

theorem clear_map {stop : α → Bool} {f : α → α} (hquote : ∀ a, f a = m.quote ↔ a = m.quote)
    (hescape : ∀ a, f a = m.escape ↔ a = m.escape) (hstop : ∀ a, stop (f a) = stop a) (q : State)
    (l : List α) : clear m stop q (l.map f) = clear m stop q l := by
  induction l generalizing q with
  | nil => rfl
  | cons a l ih =>
    have hstep : step m q (f a) = step m q a := by simp [step, hquote, hescape]
    rw [List.map_cons, clear, clear, hstep, ih, hstop]

theorem clear_of_forall {stop : α → Bool} {q : State} {l : List α} (h : ∀ a ∈ l, stop a = false) :
    clear m stop q l = true := by
  induction l generalizing q with
  | nil => rfl
  | cons a l ih => exact clear_cons.mpr ⟨Or.inr (h a (by simp)), ih fun b hb => h b (by simp [hb])⟩

/-- A text without marks leaves a scanner outside. -/
theorem run_of_forall_ne {l : List α} (h : ∀ a ∈ l, a ≠ m.quote) : run m outside l = outside := by
  induction l with
  | nil => rfl
  | cons a l ih =>
    have hstep : step m outside a = outside := by simp [step, outside, h a (by simp)]
    rw [run_cons, hstep]
    exact ih fun b hb => h b (by simp [hb])

/-- Without marks a quoted part is neither opened nor closed. -/
theorem quoted_run_of_forall_ne {q : State} {l : List α} (h : ∀ a ∈ l, a ≠ m.quote) :
    (run m q l).quoted = q.quoted := by
  induction l generalizing q with
  | nil => rfl
  | cons a l ih =>
    rw [run_cons, ih fun b hb => h b (by simp [hb])]
    unfold step
    rw [if_neg (h a (by simp))]
    split_ifs <;> rfl

theorem hides_of_forall {stop : α → Bool} {l : List α}
    (h : ∀ a ∈ l, stop a = false ∧ a ≠ m.quote) : Hides m stop l :=
  ⟨clear_of_forall fun a ha => (h a ha).1, run_of_forall_ne fun a ha => (h a ha).2⟩

/-- A body stays inside. -/
theorem Body.run {l : List α} (h : Body m l) : Quoting.run m inside l = inside := by
  induction h with
  | nil => rfl
  | plain _ hquote hescape ih =>
    rw [run_cons]
    have hstep : ∀ a, a ≠ m.quote → a ≠ m.escape → step m inside a = inside := by
      intro a ha ha'
      simp [step, inside, ha, ha']
    rw [hstep _ hquote hescape]
    exact ih
  | escaped _ ih =>
    rw [run_cons, run_cons]
    have hstep : step m inside m.escape = ⟨true, true⟩ := by simp [step, inside]
    rw [hstep]
    exact ih

theorem clear_of_inside {stop : α → Bool} {l : List α} (h : Body m l) :
    clear m stop inside l = true := by
  induction h with
  | nil => rfl
  | @plain a l _ hquote hescape ih =>
    have hstep : step m inside a = inside := by simp [step, inside, hquote, hescape]
    refine clear_cons.mpr ⟨Or.inl rfl, ?_⟩
    rw [hstep]
    exact ih
  | @escaped a l _ ih =>
    have hstep : step m inside m.escape = ⟨true, true⟩ := by simp [step, inside]
    refine clear_cons.mpr ⟨Or.inl rfl, ?_⟩
    rw [hstep]
    exact clear_cons.mpr ⟨Or.inl rfl, ih⟩

/-- A quoted part is clear of everything and leaves a scanner outside. -/
theorem Quoted.hides {stop : α → Bool} (hstop : stop m.quote = false) {l : List α}
    (h : Quoted m l) : Hides m stop l := by
  obtain ⟨body, hbody, rfl⟩ := h
  have hopen : step m outside m.quote = inside := by simp [step, outside, inside]
  constructor
  · refine clear_cons.mpr ⟨Or.inr hstop, ?_⟩
    rw [hopen]
    refine clear_append.mpr ⟨clear_of_inside hbody, ?_⟩
    rw [hbody.run]
    exact clear_cons.mpr ⟨Or.inl rfl, rfl⟩
  · have hclose : step m inside m.quote = outside := by simp [step, outside, inside, m.ne]
    rw [run_cons, hopen, run_append, hbody.run, run_cons, hclose]
    rfl

theorem Open.quoted_run {l : List α} (h : Open m l) : (run m outside l).quoted = true := by
  have hopen : step m outside m.quote = inside := by simp [step, outside, inside]
  have hescape : step m inside m.escape = ⟨true, true⟩ := by simp [step, inside]
  obtain ⟨body, hbody, rfl | rfl⟩ := h
  · rw [run_cons, hopen, hbody.run]
    rfl
  · rw [run_cons, hopen, run_append, hbody.run, run_cons, hescape]
    rfl

/-- Behind an opening mark the part is closed or it is left open. -/
theorem open_or_closed (l : List α) :
    Open m (m.quote :: l) ∨ ∃ body rest, Body m body ∧ l = body ++ m.quote :: rest := by
  induction hn : l.length using Nat.strongRecOn generalizing l with
  | _ n ih =>
    subst hn
    -- An element or an escaped element in front of a text for which the statement holds already.
    have hpiece : ∀ {piece rest : List α}, (∀ {body : List α}, Body m body → Body m (piece ++ body)) →
        rest.length < l.length → l = piece ++ rest →
        Open m (m.quote :: l) ∨ ∃ body rest, Body m body ∧ l = body ++ m.quote :: rest := by
      rintro piece rest hbody hlength hsplit
      rcases ih rest.length hlength rest rfl with ⟨body, hrest, hopen⟩ | ⟨body, behind, hrest, rfl⟩
      · refine Or.inl ⟨piece ++ body, hbody hrest, ?_⟩
        rw [hsplit, List.append_assoc]
        exact hopen.imp (fun h => by rw [(List.cons.inj h).2]) fun h => by rw [(List.cons.inj h).2]
      · exact Or.inr ⟨piece ++ body, behind, hbody hrest, by rw [hsplit, List.append_assoc]⟩
    cases l with
    | nil => exact Or.inl ⟨[], Body.nil, Or.inl rfl⟩
    | cons a l =>
      by_cases hquote : a = m.quote
      · exact Or.inr ⟨[], l, Body.nil, by rw [hquote]; rfl⟩
      by_cases hescape : a = m.escape
      · subst hescape
        cases l with
        | nil => exact Or.inl ⟨[], Body.nil, Or.inr rfl⟩
        | cons b l =>
          have hescaped : ∀ {body : List α}, Body m body → Body m ([m.escape, b] ++ body) :=
            fun h => h.escaped
          refine hpiece hescaped ?_ rfl
          rw [List.length_cons, List.length_cons]
          omega
      · have hplain : ∀ {body : List α}, Body m body → Body m ([a] ++ body) :=
          fun h => h.plain hquote hescape
        exact hpiece hplain (by simp) rfl

/-- A scanner is escaped only in a quoted part. -/
def Valid (q : State) : Prop := q.escaped = true → q.quoted = true

theorem valid_step {q : State} (h : Valid q) (a : α) : Valid (step m q a) := by
  unfold step
  split_ifs with hescaped hescape hquote
  · rintro ⟨⟩
  · exact fun _ => hescape.1
  · rintro ⟨⟩
  · exact h

theorem valid_run {q : State} (h : Valid q) (l : List α) : Valid (run m q l) := by
  induction l generalizing q with
  | nil => exact h
  | cons a l ih => exact ih (valid_step h a)

/-- A valid state outside of quoted parts is the one outside. -/
theorem Valid.eq_outside {q : State} (h : Valid q) (hquoted : q.quoted = false) : q = outside := by
  obtain ⟨quoted, escaped⟩ := q
  obtain rfl : quoted = false := hquoted
  cases escaped with
  | false => rfl
  | true => exact absurd (h rfl) (by simp)

/-- What a text that is not clear starts with: a clear part and an element that stops. -/
theorem exists_stop {stop : α → Bool} {q : State} (hq : Valid q) {l : List α}
    (h : clear m stop q l ≠ true) :
    ∃ p a r, l = p ++ a :: r ∧ clear m stop q p = true ∧ run m q p = outside ∧ stop a = true := by
  induction l generalizing q with
  | nil => exact absurd rfl h
  | cons a l ih =>
    by_cases ha : q.quoted = true ∨ stop a = false
    · have hl : clear m stop (step m q a) l ≠ true := fun hl => h (clear_cons.mpr ⟨ha, hl⟩)
      obtain ⟨p, b, r, rfl, hp, hrun, hb⟩ := ih (valid_step hq a) hl
      exact ⟨a :: p, b, r, rfl, clear_cons.mpr ⟨ha, hp⟩, hrun, hb⟩
    · obtain ⟨hquoted, hstop⟩ := not_or.mp ha
      exact ⟨[], a, l, rfl, rfl, hq.eq_outside (by simpa using hquoted), by simpa using hstop⟩

end

end ProcmailRs.Quoting
