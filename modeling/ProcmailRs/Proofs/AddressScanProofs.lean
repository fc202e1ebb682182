import ProcmailRs.AddressHeader
import ProcmailRs.Lib.Quoting
import ProcmailRs.Lib.Refinement

/-!
# The scanners of an address list

Every scanner follows the same quotation marks and escapes. A text that is clear of the bytes a
scanner is about is passed over, and the scanner continues behind it in the state the text leaves.
-/

namespace ProcmailRs

open Quoting (outside inside run clear Valid)

/-- The marks of quoted strings. -/
def marks : Quoting.Marks UInt8 := ⟨QUOTE, BACKSLASH, by decide⟩

/-! ### Searching -/

theorem findUnquotedFrom_append {wanted : UInt8} {q : Quoting.State} {l : Bytes}
    (h : clear marks (· == wanted) q l = true) (r : Bytes) :
    findUnquotedFrom wanted q.quoted q.escaped (l ++ r) =
      (findUnquotedFrom wanted (run marks q l).quoted (run marks q l).escaped r).map
        (· + l.length) := by
  induction l generalizing q with
  | nil => simp
  | cons byte l ih =>
    obtain ⟨hbyte, hl⟩ := Quoting.clear_cons.mp h
    have hrest := ih hl
    have hpass : findUnquotedFrom wanted q.quoted q.escaped (byte :: (l ++ r)) =
        (findUnquotedFrom wanted (Quoting.step marks q byte).quoted
          (Quoting.step marks q byte).escaped (l ++ r)).map (· + 1) := by
      rw [findUnquotedFrom]
      unfold Quoting.step marks
      by_cases hescaped : q.escaped = true
      · simp [hescaped]
      · rw [Bool.not_eq_true] at hescaped
        by_cases hescape : q.quoted = true ∧ byte = BACKSLASH
        · simp [hescaped, hescape]
        · by_cases hquote : byte = QUOTE
          · subst hquote
            simp [hescaped, hescape]
          · have hnot : ¬ (q.quoted = false ∧ byte = wanted) := by
              rintro ⟨hquoted, rfl⟩
              rcases hbyte with h | h
              · rw [hquoted] at h
                cases h
              · simp at h
            simp [hescaped, hescape, hquote, hnot]
    rw [List.cons_append, hpass, hrest, Option.map_map, Quoting.run_cons, List.length_cons]
    rfl

/-- The first unquoted byte that is wanted. -/
theorem findUnquoted_of_clear {wanted : UInt8} (hwanted : wanted ≠ QUOTE) {l : Bytes}
    (h : clear marks (· == wanted) outside l = true) (hrun : run marks outside l = outside)
    (r : Bytes) : findUnquoted (l ++ wanted :: r) wanted = some l.length := by
  have happend := findUnquotedFrom_append h (wanted :: r)
  rw [hrun] at happend
  rw [findUnquoted]
  refine happend.trans ?_
  simp [findUnquotedFrom, outside, hwanted]

theorem findUnquoted_eq_none {wanted : UInt8} {l : Bytes}
    (h : clear marks (· == wanted) outside l = true) : findUnquoted l wanted = none := by
  have happend := findUnquotedFrom_append h []
  rw [List.append_nil] at happend
  exact happend.trans rfl

theorem valid_outside : Valid outside := by rintro ⟨⟩

theorem findUnquoted_eq_none_iff {wanted : UInt8} (hwanted : wanted ≠ QUOTE) {l : Bytes} :
    findUnquoted l wanted = none ↔ clear marks (· == wanted) outside l = true := by
  constructor
  · intro hnone
    by_contra hclear
    obtain ⟨p, a, r, rfl, hp, hrun, ha⟩ := Quoting.exists_stop valid_outside hclear
    obtain rfl : a = wanted := by simpa using ha
    rw [findUnquoted_of_clear hwanted hp hrun] at hnone
    cases hnone
  · exact findUnquoted_eq_none

/-! ### Splitting -/

/-- The bytes that change the state of the list scanner outside quoted strings. -/
def isListByte (b : UInt8) : Bool := b == LANGLE || b == RANGLE || b == COMMA || b == SEMICOLON

/-- The bytes that open and close angle brackets. -/
def isAngleByte (b : UInt8) : Bool := b == LANGLE || b == RANGLE

/-- A text without separators at its level is part of the element in progress. -/
theorem mailboxElementsFrom_append (angle : Nat) {q : Quoting.State} {l : Bytes}
    (h : clear marks isAngleByte q l = true)
    (hsep : angle = 0 → clear marks isListByte q l = true) (current r : Bytes) :
    mailboxElementsFrom ⟨q.quoted, angle, q.escaped⟩ current (l ++ r) =
      mailboxElementsFrom ⟨(run marks q l).quoted, angle, (run marks q l).escaped⟩
        (current ++ l) r := by
  induction l generalizing q current with
  | nil => simp
  | cons byte l ih =>
    obtain ⟨hbyte, hl⟩ := Quoting.clear_cons.mp h
    have hrest := ih hl (fun hangle => (Quoting.clear_cons.mp (hsep hangle)).2) (current ++ [byte])
    have hpass : (ListScan.mk q.quoted angle q.escaped).step byte =
        (⟨(Quoting.step marks q byte).quoted, angle, (Quoting.step marks q byte).escaped⟩, false) := by
      unfold ListScan.step Quoting.step marks
      by_cases hescaped : q.escaped = true
      · simp [hescaped]
      · rw [Bool.not_eq_true] at hescaped
        by_cases hescape : q.quoted = true ∧ byte = BACKSLASH
        · simp [hescaped, hescape]
        · by_cases hquote : byte = QUOTE
          · subst hquote
            simp [hescaped, hescape]
          · by_cases hquoted : q.quoted = true
            · have hnot : byte ≠ BACKSLASH := fun heq => hescape ⟨hquoted, heq⟩
              simp [hescaped, hquote, hquoted, hnot]
            · rw [Bool.not_eq_true] at hquoted
              have hangle : isAngleByte byte = false := by
                rcases hbyte with h | h
                · rw [hquoted] at h
                  cases h
                · exact h
              simp only [isAngleByte, Bool.or_eq_false_iff, beq_eq_false_iff_ne] at hangle
              have hlist : ¬ ((byte = COMMA ∨ byte = SEMICOLON) ∧ angle = 0) := by
                rintro ⟨hbyte', hzero⟩
                have hclear := (Quoting.clear_cons.mp (hsep hzero)).1
                rcases hclear with h | h
                · rw [hquoted] at h
                  cases h
                · simp only [isListByte, Bool.or_eq_false_iff, beq_eq_false_iff_ne] at h
                  rcases hbyte' with heq | heq
                  · exact h.1.2 heq
                  · exact h.2 heq
              simp [hescaped, hquote, hquoted, hangle.1, hangle.2, hlist]
    rw [List.cons_append, mailboxElementsFrom, hpass]
    simp only [Bool.false_eq_true, if_false]
    rw [hrest, Quoting.run_cons, List.append_assoc, List.singleton_append]

/-! ### Removing comments -/

theorem quote_ne : QUOTE ≠ BACKSLASH ∧ QUOTE ≠ LPAREN := by decide

/-- Whitespace and the parenthesis that opens a comment. -/
def isUnfoldByte (b : UInt8) : Bool := isAsciiWhitespace b || b == LPAREN

namespace CommentScan

/-- Outside of comments. -/
def text (output : Bytes) (q : Quoting.State) (pendingSpace : Bool) : CommentScan :=
  ⟨output, 0, q.quoted, q.escaped, pendingSpace⟩

theorem step_text {output : Bytes} {q : Quoting.State} {byte : UInt8}
    (h : q.quoted = true ∨ isUnfoldByte byte = false) :
    (text output q false).step byte = text (output ++ [byte]) (Quoting.step marks q byte) false := by
  unfold step text Quoting.step marks flushSpace
  by_cases hescaped : q.escaped = true
  · simp [hescaped]
  · rw [Bool.not_eq_true] at hescaped
    by_cases hescape : q.quoted = true ∧ byte = BACKSLASH
    · simp [hescaped, hescape]
    · by_cases hquote : byte = QUOTE
      · subst hquote
        simp [hescaped, quote_ne]
      · by_cases hquoted : q.quoted = true
        · have hnot : byte ≠ BACKSLASH := fun heq => hescape ⟨hquoted, heq⟩
          simp [hescaped, hquoted, hquote, hnot]
        · rw [Bool.not_eq_true] at hquoted
          rw [hquoted] at h
          simp only [Bool.false_eq_true, false_or, isUnfoldByte, Bool.or_eq_false_iff,
            beq_eq_false_iff_ne] at h
          simp [hescaped, hquoted, hquote, h.1, h.2]

theorem foldl_text {q : Quoting.State} {l : Bytes} (h : clear marks isUnfoldByte q l = true)
    (output : Bytes) :
    l.foldl step (text output q false) = text (output ++ l) (Quoting.run marks q l) false := by
  induction l generalizing q output with
  | nil => simp
  | cons byte l ih =>
    obtain ⟨hbyte, hl⟩ := Quoting.clear_cons.mp h
    rw [List.foldl_cons, step_text hbyte, ih hl, List.append_assoc, List.singleton_append,
      Quoting.run_cons]

/-- The space that stands for whitespace before further text. -/
def joint (output : Bytes) (pendingSpace : Bool) : Bytes :=
  if pendingSpace && !output.isEmpty then output ++ [SP] else output

theorem step_outside {output : Bytes} {byte : UInt8} (h : isUnfoldByte byte = false)
    (pendingSpace : Bool) :
    (text output outside pendingSpace).step byte =
      text (joint output pendingSpace ++ [byte]) (Quoting.step marks outside byte) false := by
  simp only [isUnfoldByte, Bool.or_eq_false_iff, beq_eq_false_iff_ne] at h
  unfold step text Quoting.step marks flushSpace joint
  by_cases hquote : byte = QUOTE
  · subst hquote
    simp [outside, quote_ne]
  · simp [outside, hquote, h.1, h.2]

/-- Text outside of comments is kept, behind one space for the whitespace before it. -/
theorem foldl_outside {l : Bytes} (hne : l ≠ []) (h : clear marks isUnfoldByte outside l = true)
    (output : Bytes) (pendingSpace : Bool) :
    l.foldl step (text output outside pendingSpace) =
      text (joint output pendingSpace ++ l) (Quoting.run marks outside l) false := by
  obtain ⟨byte, rest, rfl⟩ := List.exists_cons_of_ne_nil hne
  obtain ⟨hbyte, hrest⟩ := Quoting.clear_cons.mp h
  rcases hbyte with hquoted | hbyte
  · cases hquoted
  · rw [List.foldl_cons, step_outside hbyte, foldl_text hrest, List.append_assoc,
      List.singleton_append, Quoting.run_cons]

theorem foldl_space {w : Bytes} (h : ∀ b ∈ w, isAsciiWhitespace b = true) (output : Bytes)
    (pendingSpace : Bool) :
    w.foldl step (text output outside pendingSpace) =
      text output outside (pendingSpace || !w.isEmpty) := by
  induction w generalizing pendingSpace with
  | nil => simp
  | cons byte w ih =>
    have hspace := h byte (by simp)
    have hstep : (text output outside pendingSpace).step byte = text output outside true := by
      have hquote : byte ≠ QUOTE := by
        rintro rfl
        revert hspace
        decide
      have hparen : byte ≠ LPAREN := by
        rintro rfl
        revert hspace
        decide
      simp [step, text, outside, hquote, hparen, hspace]
    rw [List.foldl_cons, hstep, ih fun b hb => h b (by simp [hb])]
    simp

end CommentScan

end ProcmailRs
