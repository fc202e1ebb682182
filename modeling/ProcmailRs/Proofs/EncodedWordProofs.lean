import ProcmailRs.Proofs.HeaderValueProofs

/-!
# Encoded-words

What the encoder writes, the decoder reads back: the letters of a piece, one word, and a sequence
of words with the space between them that folding leaves.
-/

namespace ProcmailRs

/-! ### Letters -/

/-- A value is read back from its letter, and a byte that stands for a value is the letter of the
value. -/
theorem base64_letters : ∀ b : UInt8,
    (b < 64 → base64Value (base64Char b) = .ok b ∧ base64Char b ≠ 61 ∧ base64Char b ≠ 63) ∧
      (base64Value b).toOption.all fun value => value < 64 ∧ base64Char value = b := by
  decide +kernel

/-! The bits of three bytes, as the four letters carry them. -/

theorem or_and (a b c : UInt8) : (a ||| b) &&& c = (a &&& c) ||| (b &&& c) := by
  rw [← UInt8.toNat_inj]
  simp only [UInt8.toNat_and, UInt8.toNat_or, Nat.and_or_distrib_right]

/-- The pieces of a byte join to the byte, each of them is a value, and padding leaves no bits over. -/
theorem bits_of_byte : ∀ b : UInt8,
    (((b >>> 2) <<< 2) ||| (b &&& 3) = b ∧ ((b &&& 3) <<< 4) >>> 4 = b &&& 3 ∧
      (b >>> 4) >>> 4 = 0 ∧ ((b >>> 4) <<< 4) ||| (b &&& 15) = b ∧ ((b &&& 3) <<< 4) <<< 4 = 0 ∧
      ((b &&& 15) <<< 2) >>> 2 = b &&& 15 ∧ (b >>> 6) >>> 2 = 0 ∧
      ((b &&& 15) <<< 2) <<< 6 = 0 ∧ ((b >>> 6) <<< 6) ||| (b &&& 63) = b) ∧
    (b >>> 2 < 64 ∧ b &&& 63 < 64 ∧ (b &&& 3) <<< 4 < 64 ∧ (b &&& 15) <<< 2 < 64 ∧ b >>> 4 < 64 ∧
      b >>> 6 < 64) ∧
    ((b &&& 15) <<< 2) &&& 3 = 0 ∧ ((b &&& 3) <<< 4) &&& 15 = 0 := by
  decide +kernel

theorem or_lt_64 (a b : UInt8) (ha : a < 64) (hb : b < 64) : a ||| b < 64 := by
  rw [UInt8.lt_iff_toNat_lt] at *
  exact Nat.or_lt_two_pow (n := 6) ha hb

/-! ### Groups -/

/-- The second letter carries two bits of the first byte and four bits of the second. -/
theorem middle_lt_64 (a b : UInt8) : ((a &&& 3) <<< 4) ||| (b >>> 4) < 64 :=
  or_lt_64 _ _ (bits_of_byte a).2.1.2.2.1 (bits_of_byte b).2.1.2.2.2.2.1

theorem third_lt_64 (b c : UInt8) : ((b &&& 15) <<< 2) ||| (c >>> 6) < 64 :=
  or_lt_64 _ _ (bits_of_byte b).2.1.2.2.2.1 (bits_of_byte c).2.1.2.2.2.2.2

theorem first_byte_of_letters (a b : UInt8) :
    ((a >>> 2) <<< 2) ||| ((((a &&& 3) <<< 4) ||| (b >>> 4)) >>> 4) = a := by
  obtain ⟨hjoin, hback, hzero, -⟩ := (bits_of_byte a).1
  rw [UInt8.shiftRight_or, hback, (bits_of_byte b).1.2.2.1, UInt8.or_zero, hjoin]

theorem second_byte_of_letters (a b c : UInt8) :
    ((((a &&& 3) <<< 4) ||| (b >>> 4)) <<< 4) ||| ((((b &&& 15) <<< 2) ||| (c >>> 6)) >>> 2) = b := by
  obtain ⟨-, -, -, hjoin, -, hback, -⟩ := (bits_of_byte b).1
  rw [UInt8.shiftLeft_or, (bits_of_byte a).1.2.2.2.2.1, UInt8.shiftRight_or, hback,
    (bits_of_byte c).1.2.2.2.2.2.2.1, UInt8.or_zero, UInt8.zero_or, hjoin]

theorem third_byte_of_letters (b c : UInt8) :
    ((((b &&& 15) <<< 2) ||| (c >>> 6)) <<< 6) ||| (c &&& 63) = c := by
  obtain ⟨-, -, -, -, -, -, -, -, hjoin⟩ := (bits_of_byte c).1
  rw [UInt8.shiftLeft_or, (bits_of_byte b).1.2.2.2.2.2.2.2.1, UInt8.zero_or, hjoin]

theorem decodeBase64Group_three (last : Bool) (a b c : UInt8) :
    decodeBase64Group last (base64Char (a >>> 2)) (base64Char (((a &&& 3) <<< 4) ||| (b >>> 4)))
      (base64Char (((b &&& 15) <<< 2) ||| (c >>> 6))) (base64Char (c &&& 63)) = .ok [a, b, c] := by
  obtain ⟨h0, -, -⟩ := (base64_letters _).1 (bits_of_byte a).2.1.1
  obtain ⟨h1, -, -⟩ := (base64_letters _).1 (middle_lt_64 a b)
  obtain ⟨h2, hpad2, -⟩ := (base64_letters _).1 (third_lt_64 b c)
  obtain ⟨h3, hpad3, -⟩ := (base64_letters _).1 (bits_of_byte c).2.1.2.1
  simp only [decodeBase64Group, h0, h1, h2, h3, hpad2, hpad3, ok_bind, if_false, false_and,
    or_self, ne_eq, not_false_eq_true, if_true, first_byte_of_letters, second_byte_of_letters,
    third_byte_of_letters, List.singleton_append]

theorem decodeBase64Group_two (a b : UInt8) :
    decodeBase64Group true (base64Char (a >>> 2)) (base64Char (((a &&& 3) <<< 4) ||| (b >>> 4)))
      (base64Char ((b &&& 15) <<< 2)) 61 = .ok [a, b] := by
  obtain ⟨h0, -, -⟩ := (base64_letters _).1 (bits_of_byte a).2.1.1
  obtain ⟨h1, -, -⟩ := (base64_letters _).1 (middle_lt_64 a b)
  obtain ⟨h2, hpad2, -⟩ := (base64_letters _).1 (bits_of_byte b).2.1.2.2.2.1
  have hsecond := second_byte_of_letters a b 0
  rw [show (0 : UInt8) >>> 6 = 0 from rfl, UInt8.or_zero] at hsecond
  simp only [decodeBase64Group, h0, h1, h2, hpad2, ok_bind, if_false, if_true, Bool.not_true,
    Bool.false_eq_true, (bits_of_byte b).2.2.1, false_and, ne_eq, not_true_eq_false, and_false, or_self,
    not_false_eq_true, first_byte_of_letters, hsecond, List.append_nil]

theorem decodeBase64Group_one (a : UInt8) :
    decodeBase64Group true (base64Char (a >>> 2)) (base64Char ((a &&& 3) <<< 4)) 61 61 = .ok [a] := by
  obtain ⟨h0, -, -⟩ := (base64_letters _).1 (bits_of_byte a).2.1.1
  obtain ⟨h1, -, -⟩ := (base64_letters _).1 (bits_of_byte a).2.1.2.2.1
  have hfirst := first_byte_of_letters a 0
  rw [show (0 : UInt8) >>> 4 = 0 from rfl, UInt8.or_zero] at hfirst
  have hpad : (0 : UInt8) &&& 3 = 0 := rfl
  simp only [decodeBase64Group, h0, h1, ok_bind, if_false, if_true, Bool.not_true, bne_self_eq_false,
    Bool.or_self, Bool.false_eq_true, (bits_of_byte a).2.2.2, ne_eq, not_true_eq_false, and_false,
    or_self, hpad, hfirst, List.append_nil]

theorem decodeBase64Groups_appendBase64 (input : Bytes) :
    decodeBase64Groups (appendBase64 input) = .ok input := by
  induction input using appendBase64.induct with
  | case1 => rfl
  | case2 first =>
    rw [appendBase64, decodeBase64Groups, List.isEmpty_nil, decodeBase64Group_one]
    rfl
  | case3 first second =>
    rw [appendBase64, decodeBase64Groups, List.isEmpty_nil, decodeBase64Group_two]
    rfl
  | case4 first second third rest ih =>
    rw [appendBase64, decodeBase64Groups, decodeBase64Group_three, ok_bind, ih, ok_bind]
    rfl

theorem length_appendBase64 (input : Bytes) :
    (appendBase64 input).length = 4 * ((input.length + 2) / 3) := by
  induction input using appendBase64.induct with
  | case1 => rfl
  | case2 first => simp [appendBase64]
  | case3 first second => simp [appendBase64]
  | case4 first second third rest ih =>
    simp only [appendBase64, List.length_cons, ih]
    omega

/-- What is written is read back. -/
theorem decodeBase64_appendBase64 (input : Bytes) : decodeBase64 (appendBase64 input) = .ok input := by
  have hlen := length_appendBase64 input
  rw [decodeBase64, if_neg (by omega), decodeBase64Groups_appendBase64]

/-! ### Every accepted text is written so -/

theorem letter_of_base64Value {byte value : UInt8} (h : base64Value byte = .ok value) :
    value < 64 ∧ base64Char value = byte := by
  have hall := (base64_letters byte).2
  rw [h] at hall
  simpa [Except.toOption] using hall

/-! The bits of four letters, as the three bytes carry them. -/

theorem bits_of_letter : ∀ v : UInt8, v < 64 →
    (v <<< 2) >>> 2 = v ∧ (v >>> 4) >>> 2 = 0 ∧ (v <<< 2) &&& 3 = 0 ∧
      (v >>> 4) &&& (3 : UInt8) = v >>> 4 ∧ (v <<< 4) >>> 4 = v &&& 15 ∧ (v >>> 2) >>> 4 = 0 ∧
      (v <<< 4) &&& 15 = 0 ∧ (v >>> 2) &&& (15 : UInt8) = v >>> 2 ∧ (v <<< 6) >>> 6 = v &&& 3 ∧
      v >>> 6 = 0 ∧ (v <<< 6) &&& 63 = 0 ∧ v &&& 63 = v ∧ ((v >>> 4) <<< 4) ||| (v &&& 15) = v ∧
      ((v >>> 2) <<< 2) ||| (v &&& 3) = v := by
  decide +kernel

theorem first_letter_of_bytes {a b : UInt8} (ha : a < 64) (hb : b < 64) :
    ((a <<< 2) ||| (b >>> 4)) >>> 2 = a := by
  obtain ⟨hback, -⟩ := bits_of_letter a ha
  obtain ⟨-, hzero, -⟩ := bits_of_letter b hb
  rw [UInt8.shiftRight_or, hback, hzero, UInt8.or_zero]

/-- The two bits of the second letter that the first byte carries. -/
theorem low_bits_of_first_byte {a b : UInt8} (ha : a < 64) (hb : b < 64) :
    ((a <<< 2) ||| (b >>> 4)) &&& (3 : UInt8) = b >>> 4 := by
  obtain ⟨-, -, hzero, -⟩ := bits_of_letter a ha
  obtain ⟨-, -, -, hlow, -⟩ := bits_of_letter b hb
  rw [or_and, hzero, hlow, UInt8.zero_or]

theorem second_letter_of_bytes {a b c : UInt8} (ha : a < 64) (hb : b < 64) (hc : c < 64) :
    ((((a <<< 2) ||| (b >>> 4)) &&& (3 : UInt8)) <<< 4) ||| (((b <<< 4) ||| (c >>> 2)) >>> 4) = b := by
  obtain ⟨-, -, -, -, hback, -, -, -, -, -, -, -, hjoin, -⟩ := bits_of_letter b hb
  obtain ⟨-, -, -, -, -, hzero, -⟩ := bits_of_letter c hc
  rw [low_bits_of_first_byte ha hb, UInt8.shiftRight_or, hback, hzero, UInt8.or_zero, hjoin]

/-- The four bits of the third letter that the second byte carries. -/
theorem low_bits_of_second_byte {b c : UInt8} (hb : b < 64) (hc : c < 64) :
    ((b <<< 4) ||| (c >>> 2)) &&& (15 : UInt8) = c >>> 2 := by
  obtain ⟨-, -, -, -, -, -, hzero, -⟩ := bits_of_letter b hb
  obtain ⟨-, -, -, -, -, -, -, hlow, -⟩ := bits_of_letter c hc
  rw [or_and, hzero, hlow, UInt8.zero_or]

theorem third_letter_of_bytes {b c d : UInt8} (hb : b < 64) (hc : c < 64) (hd : d < 64) :
    ((((b <<< 4) ||| (c >>> 2)) &&& (15 : UInt8)) <<< 2) ||| (((c <<< 6) ||| d) >>> 6) = c := by
  obtain ⟨-, -, -, -, -, -, -, -, hback, -, -, -, -, hjoin⟩ := bits_of_letter c hc
  obtain ⟨-, -, -, -, -, -, -, -, -, hzero, -⟩ := bits_of_letter d hd
  rw [low_bits_of_second_byte hb hc, UInt8.shiftRight_or, hback, hzero, UInt8.or_zero, hjoin]

theorem fourth_letter_of_bytes {c d : UInt8} (hc : c < 64) (hd : d < 64) :
    ((c <<< 6) ||| d) &&& 63 = d := by
  obtain ⟨-, -, -, -, -, -, -, -, -, -, hzero, -⟩ := bits_of_letter c hc
  obtain ⟨-, -, -, -, -, -, -, -, -, -, -, hlow, -⟩ := bits_of_letter d hd
  rw [or_and, hzero, hlow, UInt8.zero_or]

/-- What a group that is accepted looks like: padding stands at the end of the last one only, and the
bits that it leaves over are zero. -/
theorem decodeBase64Group_cases {last : Bool} {c0 c1 c2 c3 : UInt8} {group : Bytes}
    (h : decodeBase64Group last c0 c1 c2 c3 = .ok group) :
    ∃ a b, base64Value c0 = .ok a ∧ base64Value c1 = .ok b ∧
      ((c2 = 61 ∧ c3 = 61 ∧ last = true ∧ b &&& 15 = 0 ∧ group = [(a <<< 2) ||| (b >>> 4)]) ∨
        ∃ c, base64Value c2 = .ok c ∧
          ((c3 = 61 ∧ last = true ∧ c &&& 3 = 0 ∧
              group = [(a <<< 2) ||| (b >>> 4), (b <<< 4) ||| (c >>> 2)]) ∨
            ∃ d, base64Value c3 = .ok d ∧
              group = [(a <<< 2) ||| (b >>> 4), (b <<< 4) ||| (c >>> 2), (c <<< 6) ||| d])) := by
  obtain ⟨a, ha, h⟩ := bind_eq_ok h
  obtain ⟨b, hb, h⟩ := bind_eq_ok h
  refine ⟨a, b, ha, hb, ?_⟩
  by_cases hpad2 : c2 = 61
  · left
    simp only [if_pos hpad2] at h
    obtain ⟨c, hc, h⟩ := bind_eq_ok h
    have hpad3 : c3 = 61 := by
      by_contra hne
      simp [hne] at hc
    simp only [if_pos hpad3] at h
    obtain ⟨d, hd, hgroup⟩ := bind_eq_ok h
    have hlast : last = true := by
      cases last with
      | false => cases hd
      | true => rfl
    split at hgroup
    · cases hgroup
    rename_i hbits
    rw [not_or, not_and_not_right, not_and_not_right] at hbits
    exact ⟨hpad2, hpad3, hlast, hbits.1 hpad2, by simpa [hpad2, hpad3] using hgroup.symm⟩
  · right
    simp only [if_neg hpad2] at h
    obtain ⟨c, hc, h⟩ := bind_eq_ok h
    refine ⟨c, hc, ?_⟩
    by_cases hpad3 : c3 = 61
    · left
      simp only [if_pos hpad3] at h
      obtain ⟨d, hd, hgroup⟩ := bind_eq_ok h
      have hlast : last = true := by
        cases last with
        | false => cases hd
        | true => rfl
      split at hgroup
      · cases hgroup
      rename_i hbits
      rw [not_or, not_and_not_right, not_and_not_right] at hbits
      exact ⟨hpad3, hlast, hbits.2 hpad3, by simpa [hpad2, hpad3] using hgroup.symm⟩
    · right
      simp only [if_neg hpad3] at h
      obtain ⟨d, hd, h⟩ := bind_eq_ok h
      exact ⟨d, hd, by simpa [hpad2, hpad3] using h.symm⟩

/-- A group that is accepted is what is written for its bytes; it has three of them unless it is the
last one. -/
theorem appendBase64_of_group {last : Bool} {c0 c1 c2 c3 : UInt8} {group : Bytes}
    (h : decodeBase64Group last c0 c1 c2 c3 = .ok group) :
    appendBase64 group = [c0, c1, c2, c3] ∧ (group.length = 3 ∨ last = true) := by
  obtain ⟨a, b, ha, hb, ⟨rfl, rfl, hlast, hlow, rfl⟩ | ⟨c, hc, hrest⟩⟩ := decodeBase64Group_cases h
  · obtain ⟨hlta, rfl⟩ := letter_of_base64Value ha
    obtain ⟨hltb, rfl⟩ := letter_of_base64Value hb
    obtain ⟨-, -, -, -, -, -, -, -, -, -, -, -, hjoin, -⟩ := bits_of_letter b hltb
    rw [hlow, UInt8.or_zero] at hjoin
    refine ⟨?_, .inr hlast⟩
    rw [appendBase64, first_letter_of_bytes hlta hltb, low_bits_of_first_byte hlta hltb, hjoin]
  · obtain ⟨hlta, rfl⟩ := letter_of_base64Value ha
    obtain ⟨hltb, rfl⟩ := letter_of_base64Value hb
    obtain ⟨hltc, rfl⟩ := letter_of_base64Value hc
    rcases hrest with ⟨rfl, hlast, hlow, rfl⟩ | ⟨d, hd, rfl⟩
    · obtain ⟨-, -, -, -, -, -, -, -, -, -, -, -, -, hjoin⟩ := bits_of_letter c hltc
      rw [hlow, UInt8.or_zero] at hjoin
      refine ⟨?_, .inr hlast⟩
      rw [appendBase64, first_letter_of_bytes hlta hltb, second_letter_of_bytes hlta hltb hltc,
        low_bits_of_second_byte hltb hltc, hjoin]
    · obtain ⟨hltd, rfl⟩ := letter_of_base64Value hd
      refine ⟨?_, .inl rfl⟩
      rw [appendBase64, first_letter_of_bytes hlta hltb, second_letter_of_bytes hlta hltb hltc,
        third_letter_of_bytes hltb hltc hltd, fourth_letter_of_bytes hltc hltd, appendBase64]

theorem appendBase64_append {group : Bytes} (h : group.length = 3) (rest : Bytes) :
    appendBase64 (group ++ rest) = appendBase64 group ++ appendBase64 rest := by
  obtain ⟨first, second, third, rfl⟩ := List.length_eq_three.mp h
  rfl

theorem appendBase64_of_groups {input output : Bytes} (hlen : input.length % 4 = 0)
    (h : decodeBase64Groups input = .ok output) : appendBase64 output = input := by
  induction input using decodeBase64Groups.induct generalizing output with
  | case1 c0 c1 c2 c3 rest ih =>
    obtain ⟨group, hgroup, h⟩ := bind_eq_ok h
    obtain ⟨tail, htail, h⟩ := bind_eq_ok h
    obtain rfl := Except.ok.inj h
    have hlen' : rest.length % 4 = 0 := by
      simp only [List.length_cons] at hlen
      omega
    have hrest := ih hlen' htail
    obtain ⟨hletters, hthree | hlast⟩ := appendBase64_of_group hgroup
    · rw [appendBase64_append hthree, hletters, hrest]
      rfl
    · obtain rfl := List.isEmpty_iff.mp hlast
      obtain rfl := Except.ok.inj htail
      rw [List.append_nil, hletters]
  | case2 input hshort =>
    obtain rfl : input = [] := by
      rcases input with _ | ⟨c0, _ | ⟨c1, _ | ⟨c2, _ | ⟨c3, rest⟩⟩⟩⟩
      · rfl
      · simp at hlen
      · simp at hlen
      · simp at hlen
      · exact absurd rfl (hshort c0 c1 c2 c3 rest)
    obtain rfl := Except.ok.inj h
    rfl

/-- A text is accepted for the bytes whose encoding it is, and for no others. -/
theorem decodeBase64_eq_ok_iff (input output : Bytes) :
    decodeBase64 input = .ok output ↔ appendBase64 output = input := by
  constructor
  · intro h
    rw [decodeBase64] at h
    split_ifs at h with hlen
    exact appendBase64_of_groups (by simpa using hlen) h
  · rintro rfl
    exact decodeBase64_appendBase64 output

/-! ### Characters -/

theorem utf8_cons (c : Char) (cs : List Char) : utf8 (c :: cs) = String.utf8EncodeChar c ++ utf8 cs :=
  rfl

theorem utf8DecodeChar?_utf8EncodeChar (c : Char) (rest : Bytes) :
    ByteArray.utf8DecodeChar? ⟨(String.utf8EncodeChar c ++ rest).toArray⟩ 0 = some c := by
  have h := ByteArray.utf8DecodeChar?_utf8EncodeChar_append (b := rest.toByteArray) (c := c)
  rwa [← List.toByteArray_append, show (String.utf8EncodeChar c ++ rest).toByteArray =
    ⟨(String.utf8EncodeChar c ++ rest).toArray⟩ from ByteArray.ext (by simp)] at h

theorem utf8CharsFrom_utf8 {fuel : Nat} {cs : List Char} (h : (utf8 cs).length ≤ fuel) :
    utf8CharsFrom fuel (utf8 cs) = some cs := by
  induction cs generalizing fuel with
  | nil => cases fuel <;> rfl
  | cons c cs ih =>
    have hsize := c.utf8Size_pos
    rw [utf8_cons, List.length_append, String.length_utf8EncodeChar] at h
    obtain ⟨fuel, rfl⟩ : ∃ k, fuel = k + 1 := ⟨fuel - 1, by omega⟩
    rw [utf8_cons, utf8CharsFrom]
    · rw [utf8DecodeChar?_utf8EncodeChar]
      show (utf8CharsFrom fuel ((String.utf8EncodeChar c ++ utf8 cs).drop c.utf8Size)).map (c :: ·) = _
      rw [← String.length_utf8EncodeChar c, List.drop_left, ih (by omega)]
      rfl
    · intro hnil
      have hlen := congrArg List.length hnil
      rw [List.length_append, String.length_utf8EncodeChar, List.length_nil] at hlen
      omega

/-- Encoded characters are valid text. -/
theorem utf8Chars?_utf8 (cs : List Char) : utf8Chars? (utf8 cs) = some cs :=
  utf8CharsFrom_utf8 (Nat.le_refl _)

theorem utf8CharsFrom_eq_some {fuel : Nat} {bytes : Bytes} {cs : List Char}
    (h : utf8CharsFrom fuel bytes = some cs) : bytes = utf8 cs := by
  induction fuel generalizing bytes cs with
  | zero =>
    cases bytes with
    | nil =>
      cases h
      rfl
    | cons byte rest => cases h
  | succ fuel ih =>
    cases bytes with
    | nil =>
      cases h
      rfl
    | cons byte rest =>
      rw [utf8CharsFrom] at h
      · cases hdecode : ByteArray.utf8DecodeChar? ⟨(byte :: rest).toArray⟩ 0 with
        | none =>
          rw [hdecode] at h
          cases h
        | some c =>
          rw [hdecode] at h
          obtain ⟨ds, hrest, rfl⟩ := Option.map_eq_some_iff.mp h
          have hsplit := congrArg (fun bytes : ByteArray => bytes.data.toList)
            (ByteArray.eq_of_utf8DecodeChar?_eq_some hdecode)
          have hsize : (⟨(byte :: rest).toArray⟩ : ByteArray).size = (byte :: rest).length := rfl
          simp only [ByteArray.data_append, Array.toList_append, List.data_toByteArray,
            ByteArray.data_extract, Array.toList_extract, List.extract_eq_take_drop, hsize] at hsplit
          rw [List.take_of_length_le (by rw [List.length_drop]), ih hrest] at hsplit
          exact hsplit
      · simp

/-- Valid text is its characters, encoded. -/
theorem utf8Chars?_eq_some {bytes : Bytes} {cs : List Char} :
    utf8Chars? bytes = some cs ↔ bytes = utf8 cs := by
  constructor
  · exact utf8CharsFrom_eq_some
  · rintro rfl
    exact utf8Chars?_utf8 cs

theorem utf8_append (cs ds : List Char) : utf8 (cs ++ ds) = utf8 cs ++ utf8 ds :=
  List.flatMap_append

theorem utf8_eq_nil {cs : List Char} (h : utf8 cs = []) : cs = [] := by
  cases cs with
  | nil => rfl
  | cons c cs =>
    have hlen := congrArg List.length h
    have hsize := c.utf8Size_pos
    rw [utf8_cons, List.length_append, String.length_utf8EncodeChar, List.length_nil] at hlen
    omega

/-! ### One word -/

theorem length_encodedWord (chunk : List Char) :
    (encodedWord chunk).length = 12 + 4 * (((utf8 chunk).length + 2) / 3) := by
  rw [encodedWord, List.length_append, List.length_append, length_appendBase64]
  show 10 + (_ + 2) = _
  omega

theorem findPair_append {text rest : Bytes} (h : ∀ b ∈ text, b ≠ 63) :
    findPair 63 61 (text ++ 63 :: 61 :: rest) = some text.length := by
  induction text with
  | nil => simp [findPair]
  | cons byte text ih =>
    have hbyte := h byte (by simp)
    have htail := ih fun b hb => h b (by simp [hb])
    obtain ⟨next, tail, hnext⟩ : ∃ next tail, text ++ 63 :: 61 :: rest = next :: tail := by
      cases text with
      | nil => exact ⟨63, 61 :: rest, rfl⟩
      | cons next text => exact ⟨next, text ++ 63 :: 61 :: rest, rfl⟩
    rw [hnext] at htail
    rw [List.cons_append, hnext, findPair, if_neg (fun heq => hbyte heq.1), htail]
    rfl

/-- A generated word is read back wherever it stands. -/
theorem decodeWord_encodedWord {chunk : List Char} (hne : chunk ≠ [])
    (hsize : (utf8 chunk).length ≤ rfc2047InputChunk) (rest : Bytes) :
    decodeWord (encodedWord chunk ++ rest) = .ok ((encodedWord chunk).length, utf8 chunk) := by
  have hlen := length_appendBase64 (utf8 chunk)
  have hinput : encodedWord chunk ++ rest =
      encodedWordPrefix ++ (appendBase64 (utf8 chunk) ++ 63 :: 61 :: rest) := by
    simp [encodedWord, encodedWordSuffix]
  have hfirst : ((encodedWord chunk ++ rest).drop 2).findIdx? (· == 63) = some 5 := by
    rw [hinput]; rfl
  have hsecond : ((encodedWord chunk ++ rest).drop 8).findIdx? (· == 63) = some 1 := by
    rw [hinput]; rfl
  have hpair : findPair 63 61 ((encodedWord chunk ++ rest).drop 10) =
      some (appendBase64 (utf8 chunk)).length := by
    rw [hinput]
    exact findPair_append fun b hb => (appendBase64_ne b hb).2
  have hcharset : ((encodedWord chunk ++ rest).take 7).drop 2 = strBytes "UTF-8" := by
    rw [hinput]; rfl
  have hencoding : ((encodedWord chunk ++ rest).take 9).drop 8 = [66] := by
    rw [hinput]; rfl
  have hencoded : ((encodedWord chunk ++ rest).take
      (10 + (appendBase64 (utf8 chunk)).length + 2 - 2)).drop 10 = appendBase64 (utf8 chunk) := by
    rw [hinput, show 10 + (appendBase64 (utf8 chunk)).length + 2 - 2 =
      (appendBase64 (utf8 chunk)).length + 10 by omega]
    show (appendBase64 (utf8 chunk) ++ 63 :: 61 :: rest).take (appendBase64 (utf8 chunk)).length = _
    exact List.take_left
  have hutf8 : (utf8 chunk).length ≠ 0 := fun h => hne (utf8_eq_nil (List.length_eq_zero_iff.mp h))
  have hfull : (appendBase64 (utf8 chunk)).isEmpty = false := by
    rw [List.isEmpty_eq_false_iff, ne_eq, ← List.length_eq_zero_iff]
    omega
  have hplain : (appendBase64 (utf8 chunk)).contains 63 = false := by
    rw [List.contains_eq_any_beq, List.any_eq_false]
    intro b hb
    simpa using Ne.symm (appendBase64_ne b hb).2
  have hstop : ¬ 10 + (appendBase64 (utf8 chunk)).length + 2 > 75 := by
    rw [rfc2047InputChunk] at hsize
    omega
  have hcharsetFull : (strBytes "UTF-8").isEmpty = false := by decide +kernel
  have htext : transcode (strBytes "UTF-8") (utf8 chunk) = .ok (utf8 chunk) := by
    rw [transcode, if_pos (by decide +kernel), utf8Chars?_utf8]
    rfl
  have hletter : toAsciiUppercase (List.headD [66] 0) = 66 := rfl
  simp only [decodeWord, hfirst, hsecond, Nat.reduceAdd, hpair, if_neg hstop, hcharset, hencoding,
    hencoded, hfull, hplain, hcharsetFull, hletter, if_true, decodeBase64_appendBase64, ok_bind, htext]
  rw [if_neg (by simp), length_encodedWord, hlen,
    show 10 + 4 * (((utf8 chunk).length + 2) / 3) + 2 = 12 + 4 * (((utf8 chunk).length + 2) / 3) by
      omega]

/-! ### The pieces of a value -/

/-- What one word carries: at least one character and at most 45 bytes. -/
def IsPiece (piece : List Char) : Prop :=
  piece ≠ [] ∧ (utf8 piece).length ≤ rfc2047InputChunk

theorem rfc2047Chunks_spec (current value : List Char)
    (hcurrent : (utf8 current).length ≤ rfc2047InputChunk) :
    (rfc2047Chunks current (utf8 current).length value).flatten = current ++ value ∧
      ∀ piece ∈ rfc2047Chunks current (utf8 current).length value, IsPiece piece := by
  induction value generalizing current with
  | nil =>
    cases current with
    | nil => simp [rfc2047Chunks]
    | cons c rest => simpa [rfc2047Chunks, IsPiece] using hcurrent
  | cons c rest ih =>
    have hfour := c.utf8Size_le_four
    have hsingle : (utf8 [c]).length = c.utf8Size := by
      rw [utf8_cons, List.length_append, String.length_utf8EncodeChar]
      rfl
    have hconcat : (utf8 (current ++ [c])).length = (utf8 current).length + c.utf8Size := by
      rw [utf8_append, List.length_append, hsingle]
    rw [rfc2047Chunks]
    split_ifs with hfits
    · have h := ih (current ++ [c]) (by omega)
      rw [hconcat, List.append_assoc] at h
      exact h
    · have h := ih [c] (by rw [hsingle, rfc2047InputChunk]; omega)
      rw [hsingle] at h
      refine ⟨by rw [List.flatten_cons, h.1]; rfl, fun piece hpiece => ?_⟩
      rcases List.mem_cons.mp hpiece with rfl | hpiece
      · refine ⟨?_, hcurrent⟩
        rintro rfl
        rw [show (utf8 []).length = 0 from rfl, rfc2047InputChunk] at hfits
        omega
      · exact h.2 piece hpiece

/-- The pieces that the words of a value carry. -/
def piecesOf (value : String) : List (List Char) := rfc2047Chunks [] 0 value.toList

theorem flatten_piecesOf (value : String) : (piecesOf value).flatten = value.toList :=
  (rfc2047Chunks_spec [] value.toList (Nat.zero_le _)).1

theorem isPiece_of_mem {value : String} {piece : List Char} (h : piece ∈ piecesOf value) :
    IsPiece piece :=
  (rfc2047Chunks_spec [] value.toList (Nat.zero_le _)).2 piece h

theorem IsPiece.decodeWord {piece : List Char} (h : IsPiece piece) (rest : Bytes) :
    ProcmailRs.decodeWord (encodedWord piece ++ rest) =
      .ok ((encodedWord piece).length, utf8 piece) :=
  decodeWord_encodedWord h.1 h.2 rest

/-! ### A sequence of words -/

theorem tryExtend_eq {output value : Bytes} {limit : Nat} (hlimit : limit ≤ usizeMax) :
    tryExtend output limit value =
      if output.length + value.length ≤ limit then some (output ++ value) else none := by
  unfold tryExtend checkedAdd
  by_cases hfits : output.length + value.length ≤ limit
  · have husize : output.length + value.length ≤ usizeMax := by omega
    simp [hfits, husize]
  · by_cases husize : output.length + value.length ≤ usizeMax
    · have hlt : limit < output.length + value.length := by omega
      simp [hfits, husize, hlt]
    · simp [hfits, husize]

/-- The characters a generated value may hold. -/
def IsPlain (c : Char) : Prop := c = '\t' ∨ isControl c = false

theorem appendDecodedText_utf8 {output : Bytes} {limit : Nat} {cs : List Char}
    (hlimit : limit ≤ usizeMax) (hplain : ∀ c ∈ cs, IsPlain c) :
    appendDecodedText output limit (utf8 cs) =
      if output.length + (utf8 cs).length ≤ limit then .ok (output ++ utf8 cs)
      else .error .TooLong := by
  have hcontrol : cs.any (fun c => c != '\t' && isControl c) = false := by
    rw [List.any_eq_false]
    intro c hc
    rcases hplain c hc with rfl | h
    · simp
    · simp [h]
  rw [appendDecodedText, utf8Chars?_utf8]
  simp only [hcontrol, Bool.false_eq_true, if_false, tryExtend_eq hlimit]
  split_ifs
  · rfl
  · rfl

/-- The words behind a word, each behind the space that folding leaves. -/
def foldedWords (pieces : List (List Char)) : Bytes :=
  pieces.flatMap fun piece => SP :: encodedWord piece

/-- A word at the start of the input is decoded and appended. -/
theorem decodeRfc2047From_word {limit fuel : Nat} {output rest : Bytes} {previous : Bool}
    {piece : List Char} (hlimit : limit ≤ usizeMax) (hpiece : IsPiece piece)
    (hplain : ∀ c ∈ piece, IsPlain c) :
    decodeRfc2047From limit (fuel + 1) output previous (encodedWord piece ++ rest) =
      if output.length + (utf8 piece).length ≤ limit then
        decodeRfc2047From limit fuel (output ++ utf8 piece) true rest
      else .error .TooLong := by
  have hempty : (encodedWord piece ++ rest).isEmpty = false := rfl
  have hprefix : [61, 63].isPrefixOf (encodedWord piece ++ rest) = true := rfl
  rw [decodeRfc2047From, hempty, hprefix, hpiece.decodeWord rest, ok_bind]
  simp only [Bool.false_eq_true, if_false, if_true, appendDecodedText_utf8 hlimit hplain]
  split_ifs
  · rw [ok_bind, List.drop_left]
  · rfl

/-- The space between two words is presentation. -/
theorem decodeRfc2047From_space {limit fuel : Nat} {output rest : Bytes} {piece : List Char} :
    decodeRfc2047From limit (fuel + 1) output true (SP :: encodedWord piece ++ rest) =
      decodeRfc2047From limit fuel output true (encodedWord piece ++ rest) := by
  rfl

theorem decodeRfc2047From_foldedWords {limit fuel : Nat} {output : Bytes}
    {pieces : List (List Char)} (hlimit : limit ≤ usizeMax) (hpieces : ∀ p ∈ pieces, IsPiece p)
    (hplain : ∀ c ∈ pieces.flatten, IsPlain c) (hfuel : (foldedWords pieces).length ≤ fuel)
    (hout : output.length ≤ limit) :
    decodeRfc2047From limit fuel output true (foldedWords pieces) =
      if output.length + (utf8 pieces.flatten).length ≤ limit then .ok (output ++ utf8 pieces.flatten)
      else .error .TooLong := by
  induction pieces generalizing fuel output with
  | nil =>
    have hdone : decodeRfc2047From limit fuel output true (foldedWords []) = .ok output := by
      cases fuel with
      | zero => rfl
      | succ fuel => rfl
    rw [hdone]
    simp [utf8, hout]
  | cons piece rest ih =>
    have hpiece := hpieces piece (by simp)
    have hlen : (foldedWords (piece :: rest)).length =
        1 + (encodedWord piece).length + (foldedWords rest).length := by
      simp only [foldedWords, List.flatMap_cons, List.length_append, List.length_cons]
      omega
    have hword := length_encodedWord piece
    have htotal : (utf8 (piece :: rest).flatten).length =
        (utf8 piece).length + (utf8 rest.flatten).length := by
      rw [List.flatten_cons, utf8_append, List.length_append]
    obtain ⟨fuel, rfl⟩ : ∃ k, fuel = k + 1 + 1 := ⟨fuel - 2, by omega⟩
    rw [show foldedWords (piece :: rest) = SP :: encodedWord piece ++ foldedWords rest from rfl,
      decodeRfc2047From_space, decodeRfc2047From_word hlimit hpiece
        (fun c hc => hplain c (by simp [hc]))]
    by_cases hfits : output.length + (utf8 piece).length ≤ limit
    · rw [if_pos hfits, ih (fun p hp => hpieces p (by simp [hp]))
        (fun c hc => hplain c (by simp only [List.flatten_cons, List.mem_append]; exact Or.inr hc))
        (by omega) (by rw [List.length_append]; exact hfits), htotal, List.length_append,
        List.flatten_cons, utf8_append, Nat.add_assoc, List.append_assoc]
    · rw [if_neg hfits, if_neg (by omega)]

end ProcmailRs
