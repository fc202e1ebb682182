import Mathlib.Computability.Language

/-!
# Wildcard patterns

A wildcard pattern is a list of pieces: one symbol from a set, or any word. Its language is the product
of theirs. The automaton of a pattern has a state in front of every piece and one behind the last; a
row has a mark for each of them. After every word, a mark stands exactly where the word read so far
reaches.
-/

namespace ProcmailRs.Wildcard

variable {α : Type*}

/-- A piece of a pattern: one letter, or any number of letters. -/
inductive Piece (α : Type*)
  | one (p : α → Bool)
  | many

namespace Piece

/-- The piece stands for any number of letters. -/
def isMany : Piece α → Bool
  | one _ => false
  | many => true

/-- The piece takes the symbol as its only one. -/
def takes (a : α) : Piece α → Bool
  | one p => p a
  | many => false

/-- The words that a piece matches. -/
def language : Piece α → Language α
  | one p => {w | ∃ a, p a = true ∧ w = [a]}
  | many => Set.univ

theorem mem_one {p : α → Bool} {w : List α} :
    w ∈ (one p).language ↔ ∃ a, p a = true ∧ w = [a] := Iff.rfl

theorem mem_many (w : List α) : w ∈ (many : Piece α).language := Set.mem_univ w

theorem reverse_language (piece : Piece α) : piece.language.reverse = piece.language := by
  cases piece with
  | one p =>
    ext w
    rw [Language.mem_reverse, mem_one, mem_one]
    simp
  | many => rfl

end Piece

/-- The words of a pattern. -/
def language (pieces : List (Piece α)) : Language α := (pieces.map Piece.language).prod

theorem language_nil : language ([] : List (Piece α)) = 1 := rfl

theorem language_cons (piece : Piece α) (pieces : List (Piece α)) :
    language (piece :: pieces) = piece.language * language pieces := List.prod_cons

theorem language_append (front back : List (Piece α)) :
    language (front ++ back) = language front * language back := by
  rw [language, List.map_append, List.prod_append]
  rfl

/-- The pattern backwards has the words backwards. -/
theorem language_reverse (pieces : List (Piece α)) :
    language pieces.reverse = (language pieces).reverse := by
  induction pieces with
  | nil => rw [List.reverse_nil, language_nil, Language.reverse_one]
  | cons piece pieces ih =>
    have hpiece : language [piece] = piece.language := by
      rw [language_cons, language_nil, mul_one]
    rw [List.reverse_cons, language_append, ih, hpiece, language_cons, Language.reverse_mul,
      piece.reverse_language]

/-! ### Rows -/

/-- A piece for any word may stand for no symbol: the mark behind it follows the mark in front. -/
def closeRow : List (Piece α) → List Bool → List Bool
  | piece :: pieces, mark :: next :: marks =>
    mark :: closeRow pieces ((next || (mark && piece.isMany)) :: marks)
  | _, marks => marks

/-- The marks after a symbol; `reached` says that the piece in front of this row took it. -/
def stepRow (a : α) : List (Piece α) → List Bool → Bool → List Bool
  | piece :: pieces, mark :: marks, reached =>
    (reached || (mark && piece.isMany)) :: stepRow a pieces marks (mark && piece.takes a)
  | _, _, reached => [reached]

/-- The row before any symbol. -/
def startRow (pieces : List (Piece α)) : List Bool :=
  closeRow pieces (true :: pieces.map fun _ => false)

/-- The words after which the mark in front of the piece stands: a piece for any word keeps it. -/
def waiting (before : Language α) (piece : Piece α) : Language α :=
  if piece.isMany then before * Piece.many.language else before

/-- The marks stand where the word reaches behind the words of `before`. -/
def Tracks (before : Language α) (w : List α) : List (Piece α) → List Bool → Prop
  | [], marks => ∃ mark, marks = [mark] ∧ (mark = true ↔ w ∈ before)
  | piece :: pieces, marks =>
    ∃ mark rest, marks = mark :: rest ∧ (mark = true ↔ w ∈ waiting before piece) ∧
      Tracks (before * piece.language) w pieces rest

theorem nil_mem_mul {l m : Language α} : [] ∈ l * m ↔ [] ∈ l ∧ [] ∈ m := by
  rw [Language.mem_mul]
  constructor
  · rintro ⟨u, hu, v, hv, huv⟩
    obtain ⟨rfl, rfl⟩ := List.append_eq_nil_iff.mp huv
    exact ⟨hu, hv⟩
  · rintro ⟨hl, hm⟩
    exact ⟨[], hl, [], hm, rfl⟩

theorem concat_mem_mul_one {l : Language α} {p : α → Bool} {w : List α} {a : α} :
    w ++ [a] ∈ l * (Piece.one p).language ↔ w ∈ l ∧ p a = true := by
  rw [Language.mem_mul]
  constructor
  · rintro ⟨u, hu, v, ⟨b, hb, rfl⟩, huv⟩
    obtain ⟨rfl, hab⟩ := List.append_inj' huv rfl
    obtain rfl : b = a := List.singleton_inj.mp hab
    exact ⟨hu, hb⟩
  · rintro ⟨hw, ha⟩
    exact ⟨w, hw, [a], ⟨a, ha, rfl⟩, rfl⟩

theorem concat_mem_mul_many {l : Language α} {w : List α} {a : α} :
    w ++ [a] ∈ l * (Piece.many : Piece α).language ↔
      w ++ [a] ∈ l ∨ w ∈ l * (Piece.many : Piece α).language := by
  rw [Language.mem_mul, Language.mem_mul]
  constructor
  · rintro ⟨u, hu, v, -, huv⟩
    rcases List.eq_nil_or_concat' v with rfl | ⟨init, last, rfl⟩
    · rw [List.append_nil] at huv
      exact Or.inl (huv ▸ hu)
    · rw [← List.append_assoc] at huv
      obtain ⟨hinit, -⟩ := List.append_inj' huv rfl
      exact Or.inr ⟨u, hu, init, Piece.mem_many init, hinit⟩
  · rintro (hw | ⟨u, hu, v, -, rfl⟩)
    · exact ⟨_, hw, [], Piece.mem_many [], List.append_nil _⟩
    · exact ⟨u, hu, v ++ [a], Piece.mem_many _, by rw [List.append_assoc]⟩

/-- The first row, with a mark of its own in front. -/
theorem tracks_closeRow (before : Language α) (pieces : List (Piece α)) {mark : Bool}
    (hmark : mark = true ↔ [] ∈ before) :
    Tracks before [] pieces (closeRow pieces (mark :: pieces.map fun _ => false)) := by
  induction pieces generalizing before mark with
  | nil => exact ⟨mark, rfl, hmark⟩
  | cons piece pieces ih =>
    refine ⟨mark, _, rfl, ?_, ih (before * piece.language) ?_⟩
    · cases piece with
      | one p => simpa [waiting, Piece.isMany] using hmark
      | many => simpa [waiting, Piece.isMany, nil_mem_mul, Piece.mem_many] using hmark
    · rw [nil_mem_mul, ← hmark, Bool.false_or, Bool.and_eq_true]
      cases piece with
      | one p => simp [Piece.isMany, Piece.mem_one]
      | many => simp [Piece.isMany, Piece.mem_many]

theorem tracks_startRow (pieces : List (Piece α)) : Tracks 1 [] pieces (startRow pieces) :=
  tracks_closeRow 1 pieces (by simp [Language.mem_one])

/-- What precedes a row only matters for its first mark. -/
theorem closeRow_stepRow_cons (a : α) (piece : Piece α) (pieces : List (Piece α)) (mark : Bool)
    (marks : List Bool) (reached : Bool) :
    closeRow (piece :: pieces) (stepRow a (piece :: pieces) (mark :: marks) reached) =
      (reached || (mark && piece.isMany)) ::
        closeRow pieces (stepRow a pieces marks
          ((mark && piece.takes a) || ((reached || (mark && piece.isMany)) && piece.isMany))) := by
  rw [stepRow]
  cases pieces with
  | nil => simp [stepRow, closeRow]
  | cons next pieces =>
    cases marks with
    | nil => simp [stepRow, closeRow]
    | cons mark' marks =>
      simp only [stepRow, closeRow]
      congr 3
      cases reached <;> cases mark <;> simp [Bool.or_comm, Bool.or_left_comm]

/-- One symbol: the new row tracks the longer word. -/
theorem Tracks.step {before : Language α} {w : List α} {pieces : List (Piece α)}
    {marks : List Bool} (h : Tracks before w pieces marks) (a : α) {reached : Bool}
    (hreached : reached = true ↔ w ++ [a] ∈ before) :
    Tracks before (w ++ [a]) pieces (closeRow pieces (stepRow a pieces marks reached)) := by
  induction pieces generalizing before marks reached with
  | nil =>
    obtain ⟨mark, rfl, -⟩ := h
    exact ⟨reached, rfl, hreached⟩
  | cons piece pieces ih =>
    obtain ⟨mark, rest, rfl, hmark, hrest⟩ := h
    have hfirst : (reached || (mark && piece.isMany)) = true ↔
        w ++ [a] ∈ waiting before piece := by
      cases piece with
      | one p => simpa [waiting, Piece.isMany] using hreached
      | many =>
        simp only [waiting, Piece.isMany, if_true, Bool.and_true, Bool.or_eq_true] at hmark ⊢
        rw [concat_mem_mul_many, hreached, hmark]
    rw [closeRow_stepRow_cons]
    refine ⟨_, _, rfl, hfirst, ih hrest ?_⟩
    rw [Bool.or_eq_true, Bool.and_eq_true, Bool.and_eq_true, hfirst]
    cases piece with
    | one p =>
      rw [concat_mem_mul_one]
      simp only [waiting, Piece.isMany, Piece.takes, Bool.false_eq_true, if_false, and_false,
        or_false] at hmark ⊢
      rw [hmark]
    | many => simp [waiting, Piece.isMany, Piece.takes]

/-- The last mark tells whether the word belongs to the pattern. -/
theorem Tracks.getLast {before : Language α} {w : List α} {pieces : List (Piece α)}
    {marks : List Bool} (h : Tracks before w pieces marks) :
    marks.getLast? = some true ↔ w ∈ before * language pieces := by
  induction pieces generalizing before marks with
  | nil =>
    obtain ⟨mark, rfl, hmark⟩ := h
    rw [language_nil, mul_one, ← hmark]
    simp
  | cons piece pieces ih =>
    obtain ⟨mark, rest, rfl, -, hrest⟩ := h
    have hne : rest ≠ [] := by
      cases pieces with
      | nil =>
        obtain ⟨last, rfl, -⟩ := hrest
        simp
      | cons next pieces =>
        obtain ⟨last, tail, rfl, -⟩ := hrest
        simp
    obtain ⟨first, tail, rfl⟩ := List.exists_cons_of_ne_nil hne
    rw [List.getLast?_cons_cons, ih hrest, language_cons, mul_assoc]

end ProcmailRs.Wildcard
