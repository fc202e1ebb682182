import ProcmailRs.Runtime

/-!
# Decimal numbers

The text of a number is its digits, and it is read back as the number.
-/

namespace ProcmailRs

theorem utf8EncodeChar_digit {c : Char} (h : c.isDigit = true) :
    String.utf8EncodeChar c = [UInt8.ofNat c.toNat] ∧ 48 ≤ c.toNat ∧ c.toNat ≤ 57 := by
  have hrange : 48 ≤ c.val ∧ c.val ≤ 57 := by simpa [Char.isDigit] using h
  have hge : 48 ≤ c.toNat := hrange.1
  have hle : c.toNat ≤ 57 := hrange.2
  refine ⟨?_, hge, hle⟩
  simp only [String.utf8EncodeChar]
  rw [if_pos (by simpa using (by omega : c.toNat ≤ 127))]
  rfl

theorem isAsciiDigit_of_isDigit {c : Char} (h : c.isDigit = true) :
    ∀ b ∈ String.utf8EncodeChar c, isAsciiDigit b = true := by
  obtain ⟨hencode, hge, hle⟩ := utf8EncodeChar_digit h
  intro b hb
  rw [hencode] at hb
  cases List.mem_singleton.mp hb
  simp only [isAsciiDigit, Bool.and_eq_true, decide_eq_true_eq, UInt8.le_iff_toNat_le]
  simp
  omega

theorem decimal_eq (n : Nat) : decimal n = utf8 (Nat.toDigits 10 n) := by
  unfold decimal strBytes
  rw [show (toString n).toList = Nat.toDigits 10 n from Nat.toList_repr]

theorem isDigit_of_mem {n : Nat} {c : Char} (hc : c ∈ Nat.toDigits 10 n) : c.isDigit = true :=
  Nat.isDigit_of_mem_toDigits (by decide) le_rfl hc

theorem decimal_all_isAsciiDigit (n : Nat) : (decimal n).all isAsciiDigit = true := by
  rw [decimal_eq, List.all_eq_true]
  intro b hb
  obtain ⟨c, hc, hbc⟩ := List.mem_flatMap.mp hb
  exact isAsciiDigit_of_isDigit (isDigit_of_mem hc) b hbc

theorem decimal_ne_nil (n : Nat) : decimal n ≠ [] := by
  rw [decimal_eq]
  obtain ⟨digit, digits, hcons⟩ := List.exists_cons_of_ne_nil (Nat.toDigits_ne_nil (n := n) (b := 10))
  have hdigit : digit.isDigit = true := isDigit_of_mem (n := n) (by rw [hcons]; exact List.mem_cons_self)
  rw [hcons, utf8, List.flatMap_cons, (utf8EncodeChar_digit hdigit).1]
  exact List.cons_ne_nil _ _

theorem length_decimal_le_iff {n width : Nat} (h : 0 < width) :
    (decimal n).length ≤ width ↔ n < 10 ^ width := by
  have hlength : ∀ digits : List Char, (∀ c ∈ digits, c.isDigit = true) →
      (utf8 digits).length = digits.length := by
    intro digits hdigits
    induction digits with
    | nil => rfl
    | cons c digits ih =>
      have htail := ih fun c hc => hdigits c (List.mem_cons_of_mem _ hc)
      rw [utf8, List.flatMap_cons, (utf8EncodeChar_digit (hdigits c List.mem_cons_self)).1,
        List.singleton_append, List.length_cons, List.length_cons, ← htail, utf8]
  rw [decimal_eq, hlength _ fun c hc => isDigit_of_mem hc]
  exact Nat.length_toDigits_le_iff (by decide) h

theorem foldl_utf8_digits (digits : List Char) (hdigits : ∀ c ∈ digits, c.isDigit = true) (value : Nat) :
    (utf8 digits).foldl (fun value digit => value * 10 + (digit.toNat - 48)) value =
      Nat.ofDigitChars 10 digits value := by
  induction digits generalizing value with
  | nil => rfl
  | cons c digits ih =>
    obtain ⟨hencode, hge, hle⟩ := utf8EncodeChar_digit (hdigits c List.mem_cons_self)
    have hbyte : (UInt8.ofNat c.toNat).toNat = c.toNat := by
      rw [UInt8.toNat_ofNat']
      omega
    rw [utf8, List.flatMap_cons, hencode, List.singleton_append, List.foldl_cons,
      Nat.ofDigitChars_cons, hbyte, Nat.mul_comm]
    exact ih (fun c hc => hdigits c (List.mem_cons_of_mem _ hc)) _

theorem digitsValue_decimal (n : Nat) : digitsValue 10 (decimal n) = n := by
  unfold digitsValue
  rw [decimal_eq, foldl_utf8_digits _ fun c hc => isDigit_of_mem hc]
  exact Nat.ofDigitChars_toDigits (by decide) le_rfl

/-- Digits are read as their number when it fits. -/
theorem parseUsize_digits {text : Bytes} (hne : text ≠ []) (hdigits : text.all isAsciiDigit = true)
    (h : digitsValue 10 text ≤ usizeMax) : parseUsize text = some (digitsValue 10 text) := by
  cases text with
  | nil => exact absurd rfl hne
  | cons first rest =>
    have hfirst : first ≠ 43 := by
      rintro rfl
      simp [isAsciiDigit] at hdigits
    unfold parseUsize
    split
    · next heq => exact absurd (List.cons.inj heq).1 hfirst
    · have hlarge : ¬digitsValue 10 (first :: rest) > usizeMax := Nat.not_lt.mpr h
      simp only [hdigits, hlarge]
      rfl

/-- A number that fits is read back from its text. -/
theorem parseUsize_decimal {n : Nat} (h : n ≤ usizeMax) : parseUsize (decimal n) = some n := by
  rw [← digitsValue_decimal n] at h
  rw [parseUsize_digits (decimal_ne_nil n) (decimal_all_isAsciiDigit n) h, digitsValue_decimal]

end ProcmailRs
