import ProcmailRs.HeaderValue
import ProcmailRs.Lib.Refinement
import ProcmailRs.Proofs.HeaderTextProofs
import Mathlib.Data.FinEnum

/-!
# Generated fields

A generated field is one field: its name is the given one up to ASCII case, it starts with a name
byte, it ends with the delimiter it was given, and every line but the first is a continuation line.
-/

namespace ProcmailRs

/-! ### Names -/

/-- The bytes of a name, in either case. -/
theorem headerNameBytes : ∀ b : UInt8,
    (isHeaderNameByte b = true →
      (isHeaderNameByte (toAsciiUppercase b) = true ∧ isHeaderNameByte (toAsciiLowercase b) = true) ∧
        b ≠ LF ∧ b ≠ CR ∧ b ≠ COLON ∧ isBlank b = false) ∧
      toAsciiLowercase (toAsciiUppercase b) = toAsciiLowercase b ∧
      toAsciiLowercase (toAsciiLowercase b) = toAsciiLowercase b := by
  decide +kernel

theorem isHeaderNameByte_case (b : UInt8) (h : isHeaderNameByte b = true) :
    isHeaderNameByte (toAsciiUppercase b) = true ∧ isHeaderNameByte (toAsciiLowercase b) = true :=
  ((headerNameBytes b).1 h).1

theorem toAsciiLowercase_case (b : UInt8) :
    toAsciiLowercase (toAsciiUppercase b) = toAsciiLowercase b ∧
      toAsciiLowercase (toAsciiLowercase b) = toAsciiLowercase b :=
  (headerNameBytes b).2

theorem ne_of_isHeaderNameByte (b : UInt8) (h : isHeaderNameByte b = true) :
    b ≠ LF ∧ b ≠ CR ∧ b ≠ COLON ∧ isBlank b = false :=
  ((headerNameBytes b).1 h).2

theorem all_canonicalHeaderName {beginning : Bool} {name : Bytes}
    (h : ∀ b ∈ name, isHeaderNameByte b = true) :
    ∀ b ∈ canonicalHeaderName beginning name, isHeaderNameByte b = true := by
  induction name generalizing beginning with
  | nil => simp [canonicalHeaderName]
  | cons byte rest ih =>
    intro b hb
    rcases List.mem_cons.mp hb with rfl | hb
    · split_ifs
      · exact (isHeaderNameByte_case byte (h byte (by simp))).1
      · exact (isHeaderNameByte_case byte (h byte (by simp))).2
    · exact ih (fun b hb => h b (by simp [hb])) b hb

theorem eqIgnoreAsciiCase_canonicalHeaderName (beginning : Bool) (name : Bytes) :
    eqIgnoreAsciiCase (canonicalHeaderName beginning name) name = true := by
  rw [eqIgnoreAsciiCase, beq_iff_eq]
  induction name generalizing beginning with
  | nil => rfl
  | cons byte rest ih =>
    rw [canonicalHeaderName, List.map_cons, List.map_cons, ih]
    split_ifs
    · rw [(toAsciiLowercase_case byte).1]
    · rw [(toAsciiLowercase_case byte).2]

theorem length_canonicalHeaderName (beginning : Bool) (name : Bytes) :
    (canonicalHeaderName beginning name).length = name.length := by
  induction name generalizing beginning with
  | nil => rfl
  | cons byte rest ih => simp [canonicalHeaderName, ih]

namespace HeaderName

theorem bytes_ne_nil (name : HeaderName) : name.bytes ≠ [] := by
  have h := name.valid
  simp only [validateHeaderName, Bool.and_eq_true, Bool.not_eq_true', List.isEmpty_eq_false_iff] at h
  exact h.1

/-- The spelling of the name in a generated field. -/
def canonical (name : HeaderName) : Bytes := appendCanonicalHeaderName name.text

theorem canonical_ne_nil (name : HeaderName) : name.canonical ≠ [] := by
  have hlen := length_canonicalHeaderName true name.bytes
  have hpos := List.length_pos_iff.mpr name.bytes_ne_nil
  intro hnil
  rw [show canonicalHeaderName true name.bytes = [] from hnil, List.length_nil] at hlen
  omega

theorem canonical_valid (name : HeaderName) :
    ∀ b ∈ name.canonical, isHeaderNameByte b = true := by
  have h := name.valid
  simp only [validateHeaderName, Bool.and_eq_true, List.all_eq_true] at h
  exact all_canonicalHeaderName h.2

theorem eqIgnoreAsciiCase_canonical (name : HeaderName) :
    eqIgnoreAsciiCase name.canonical name.bytes = true :=
  eqIgnoreAsciiCase_canonicalHeaderName true name.bytes

end HeaderName

/-- The name of a text that starts with name bytes and a colon. -/
theorem fieldName_append {name rest : Bytes} (h : ∀ b ∈ name, isHeaderNameByte b = true) :
    fieldName (name ++ COLON :: rest) = some name := by
  have hcolon : ∀ b ∈ name, b ≠ COLON := fun b hb => (ne_of_isHeaderNameByte b (h b hb)).2.2.1
  have hline : (name ++ COLON :: rest).takeWhile (· != LF) =
      name ++ COLON :: rest.takeWhile (· != LF) := by
    rw [List.takeWhile_append_of_pos]
    · rfl
    · intro b hb
      simpa using (ne_of_isHeaderNameByte b (h b hb)).1
  rw [fieldName, hline, if_pos (by simp), List.takeWhile_append_of_pos]
  · simp
  · intro b hb
    simpa using hcolon b hb

/-! ### Lines of a generated field -/

theorem terminated_lineEnding (text : Bytes) (lineEnding : LineEnding) :
    Lines.Terminated isLF (text ++ lineEnding.bytes) := by
  rw [terminated_iff_suffix]
  cases lineEnding with
  | Lf => exact List.suffix_append _ _
  | CrLf => exact ⟨text ++ [CR], by simp [LineEnding.bytes]⟩

theorem isLine_lineEnding {text : Bytes} (h : ∀ b ∈ text, b ≠ LF) (lineEnding : LineEnding) :
    Lines.IsLine isLF (text ++ lineEnding.bytes) := by
  cases lineEnding with
  | Lf =>
    refine ⟨by simp [LineEnding.bytes], fun b hb => ?_⟩
    rw [LineEnding.bytes, List.dropLast_concat] at hb
    simpa [isLF] using h b hb
  | CrLf =>
    refine ⟨by simp [LineEnding.bytes], fun b hb => ?_⟩
    rw [show text ++ LineEnding.CrLf.bytes = (text ++ [CR]) ++ [LF] by simp [LineEnding.bytes],
      List.dropLast_concat, List.mem_append] at hb
    rcases hb with hb | hb
    · simpa [isLF] using h b hb
    · obtain rfl : b = CR := by simpa using hb
      rfl

theorem isSeparator_cons {byte : UInt8} {rest : Bytes} (hlf : byte ≠ LF) (hcr : byte ≠ CR) :
    isSeparator (byte :: rest) = false := by
  simp [isSeparator, hlf, hcr]

/-- A line that starts with a name and ends with a delimiter is a field. -/
theorem isField_named_line (name : HeaderName) {rest : Bytes} (h : ∀ b ∈ rest, b ≠ LF)
    (lineEnding : LineEnding) : IsField (name.canonical ++ rest ++ lineEnding.bytes) := by
  have hvalid := name.canonical_valid
  obtain ⟨byte, tail, hname⟩ := List.exists_cons_of_ne_nil name.canonical_ne_nil
  obtain ⟨hlf, hcr, -⟩ := ne_of_isHeaderNameByte byte (hvalid byte (by rw [hname]; simp))
  refine isField_line (isLine_lineEnding ?_ lineEnding) ?_
  · intro b hb
    rcases List.mem_append.mp hb with hb | hb
    · exact (ne_of_isHeaderNameByte b (hvalid b hb)).1
    · exact h b hb
  · rw [hname]
    exact isSeparator_cons hlf hcr

theorem base64Char_ne :
    ∀ value : UInt8, base64Char value ≠ LF ∧ base64Char value ≠ 63 := by decide +kernel

theorem mem_appendBase64 {input : Bytes} :
    ∀ b ∈ appendBase64 input, (∃ value, b = base64Char value) ∨ b = 61 := by
  induction input using appendBase64.induct with
  | case1 => simp [appendBase64]
  | case2 first =>
    intro b hb
    simp only [appendBase64, List.mem_cons, List.not_mem_nil, or_false] at hb
    rcases hb with rfl | rfl | rfl | rfl
    · exact Or.inl ⟨_, rfl⟩
    · exact Or.inl ⟨_, rfl⟩
    · exact Or.inr rfl
    · exact Or.inr rfl
  | case3 first second =>
    intro b hb
    simp only [appendBase64, List.mem_cons, List.not_mem_nil, or_false] at hb
    rcases hb with rfl | rfl | rfl | rfl
    · exact Or.inl ⟨_, rfl⟩
    · exact Or.inl ⟨_, rfl⟩
    · exact Or.inl ⟨_, rfl⟩
    · exact Or.inr rfl
  | case4 first second third rest ih =>
    intro b hb
    simp only [appendBase64, List.mem_cons] at hb
    rcases hb with rfl | rfl | rfl | rfl | hb
    · exact Or.inl ⟨_, rfl⟩
    · exact Or.inl ⟨_, rfl⟩
    · exact Or.inl ⟨_, rfl⟩
    · exact Or.inl ⟨_, rfl⟩
    · exact ih b hb

/-- Neither a delimiter nor the question mark that ends a word is a letter of the encoding. -/
theorem appendBase64_ne {input : Bytes} : ∀ b ∈ appendBase64 input, b ≠ LF ∧ b ≠ 63 := by
  intro b hb
  rcases mem_appendBase64 b hb with ⟨value, rfl⟩ | rfl
  · exact base64Char_ne value
  · exact ⟨by decide, by decide⟩

theorem encodedWord_ne_LF (chunk : List Char) : ∀ b ∈ encodedWord chunk, b ≠ LF := by
  have hprefix : encodedWordPrefix.all (· != LF) = true := by decide
  have hsuffix : encodedWordSuffix.all (· != LF) = true := by decide
  intro b hb
  rw [encodedWord, List.mem_append, List.mem_append] at hb
  rcases hb with hb | hb | hb
  · simpa using List.all_eq_true.mp hprefix b hb
  · exact (appendBase64_ne b hb).1
  · simpa using List.all_eq_true.mp hsuffix b hb

/-- The words behind a field that the delimiter would complete. -/
theorem isField_appendEncodedWords {lineEnding : LineEnding} {field : Bytes}
    {chunks : List (List Char)} (h : IsField (field ++ lineEnding.bytes)) :
    IsField (appendEncodedWords lineEnding false field chunks ++ lineEnding.bytes) := by
  induction chunks generalizing field with
  | nil => exact h
  | cons chunk rest ih =>
    rw [appendEncodedWords]
    refine ih ?_
    have hword : ∀ b ∈ SP :: encodedWord chunk, b ≠ LF := by
      intro b hb
      rcases List.mem_cons.mp hb with rfl | hb
      · decide
      · exact encodedWord_ne_LF chunk b hb
    have happend := h.append (terminated_lineEnding field lineEnding)
      (isLine_lineEnding hword lineEnding) rfl
    simpa using happend

theorem isField_serializeRfc2047 (name : HeaderName) (value : String) (lineEnding : LineEnding) :
    IsField (serializeRfc2047 name.text value lineEnding) := by
  have hstart : ∀ rest : Bytes, (∀ b ∈ rest, b ≠ LF) →
      IsField (appendCanonicalHeaderName name.text ++ ([COLON] ++ rest) ++ lineEnding.bytes) := by
    intro rest hrest
    refine isField_named_line name (fun b hb => ?_) lineEnding
    rcases List.mem_cons.mp hb with rfl | hb
    · decide
    · exact hrest b hb
  rw [serializeRfc2047]
  cases rfc2047Chunks [] 0 value.toList with
  | nil => simpa [appendEncodedWords] using hstart [] (by simp)
  | cons chunk rest =>
    have hword : ∀ b ∈ SP :: encodedWord chunk, b ≠ LF := by
      intro b hb
      rcases List.mem_cons.mp hb with rfl | hb
      · decide
      · exact encodedWord_ne_LF chunk b hb
    simp only [appendEncodedWords]
    refine isField_appendEncodedWords ?_
    split_ifs
    · simpa using hstart (SP :: encodedWord chunk) hword
    · have happend := (hstart [] (by simp)).append (terminated_lineEnding _ lineEnding)
        (isLine_lineEnding hword lineEnding) rfl
      simpa using happend

/-! ### Values -/

theorem scanGeneratedValue_ascii {chars : List Char}
    (h : scanGeneratedValue false chars = .ok false) :
    ∀ c ∈ chars, c = '\t' ∨ isAsciiGraphic c = true ∨ c = ' ' := by
  have hmono : ∀ chars : List Char, scanGeneratedValue true chars ≠ .ok false := by
    intro chars
    induction chars with
    | nil => simp [scanGeneratedValue]
    | cons c rest ih =>
      rw [scanGeneratedValue]
      split_ifs
      · exact ih
      · simp
      · exact ih
  induction chars with
  | nil => simp
  | cons c rest ih =>
    rw [scanGeneratedValue] at h
    split_ifs at h with hplain hcontrol
    · intro d hd
      rcases List.mem_cons.mp hd with rfl | hd
      · simpa [or_assoc] using hplain
      · exact ih h d hd
    · exact absurd h (hmono rest)

theorem strBytes_ne_LF {value : String}
    (h : ∀ c ∈ value.toList, c = '\t' ∨ isAsciiGraphic c = true ∨ c = ' ') :
    ∀ b ∈ strBytes value, b ≠ LF := by
  intro b hb
  obtain ⟨c, hc, hbc⟩ := List.mem_flatMap.mp hb
  have hrange : c.toNat = 9 ∨ (32 ≤ c.toNat ∧ c.toNat ≤ 126) := by
    rcases h c hc with rfl | hgraphic | rfl
    · exact Or.inl rfl
    · simp only [isAsciiGraphic, Bool.and_eq_true, decide_eq_true_eq] at hgraphic
      exact Or.inr ⟨by omega, hgraphic.2⟩
    · exact Or.inr (by decide)
  have hsmall : c.val ≤ 127 := by
    rw [UInt32.le_iff_toNat_le]
    show c.toNat ≤ 127
    omega
  rw [String.utf8EncodeChar_eq_singleton (Char.utf8Size_eq_one_iff.mpr hsmall)] at hbc
  obtain rfl : b = c.val.toUInt8 := by simpa using hbc
  intro heq
  have hnat := congrArg UInt8.toNat heq
  rw [UInt32.toNat_toUInt8] at hnat
  have hchar : c.val.toNat = c.toNat := rfl
  have hlf : LF.toNat = 10 := rfl
  omega

/-- A generated field is one field under the given name, ended by the given delimiter. -/
theorem serializeGeneratedHeader_spec {name : HeaderName} {value : String}
    {lineEnding : LineEnding} {field : Bytes}
    (h : serializeGeneratedHeader name.text value lineEnding = .ok field) :
    IsField field ∧ lineEnding.bytes <:+ field ∧
      ∃ rest, field = name.canonical ++ COLON :: rest := by
  obtain ⟨encoding, hvalid, h⟩ := bind_eq_ok h
  cases encoding with
  | Ascii =>
    have hascii : scanGeneratedValue false value.toList = .ok false := by
      obtain ⟨nonAscii, hscan, hrest⟩ := bind_eq_ok hvalid
      cases nonAscii with
      | true => cases hrest
      | false => exact hscan
    have hvalue := strBytes_ne_LF (scanGeneratedValue_ascii hascii)
    simp only [serializeAscii] at h
    split at h
    · cases h
    · obtain rfl := Except.ok.inj h
      refine ⟨?_, ?_, SP :: (strBytes value ++ lineEnding.bytes), rfl⟩
      · have hline : ∀ b ∈ COLON :: SP :: strBytes value, b ≠ LF := by
          intro b hb
          rcases List.mem_cons.mp hb with rfl | hb
          · decide
          rcases List.mem_cons.mp hb with rfl | hb
          · decide
          · exact hvalue b hb
        simpa [HeaderName.canonical] using isField_named_line name hline lineEnding
      · simp only [← List.append_assoc]
        exact List.suffix_append _ _
  | Rfc2047 =>
    obtain rfl := Except.ok.inj h
    refine ⟨isField_serializeRfc2047 name value lineEnding, List.suffix_append _ _, ?_⟩
    have hprefix : ∀ (first : Bool) (field : Bytes) (chunks : List (List Char)),
        field <+: appendEncodedWords lineEnding first field chunks := by
      intro first field chunks
      induction chunks generalizing first field with
      | nil => exact List.prefix_refl _
      | cons chunk rest ih =>
        rw [appendEncodedWords]
        refine List.IsPrefix.trans ?_ (ih false _)
        rw [List.append_assoc]
        exact List.prefix_append _ _
    obtain ⟨rest, hrest⟩ := hprefix true (appendCanonicalHeaderName name.text ++ [COLON])
      (rfc2047Chunks [] 0 value.toList)
    refine ⟨rest ++ lineEnding.bytes, ?_⟩
    rw [serializeRfc2047, ← hrest]
    simp [HeaderName.canonical]

end ProcmailRs
