import ProcmailRs.Proofs.EncodedWordProofs
import ProcmailRs.HeaderEdit

/-!
# The lines of a generated field

A plain value stands on one line. Any other value is cut into pieces, one encoded-word a line; the
first word shares the line of the name when there is room, and otherwise the name stands alone on
its line. Reading such a field back gives the value only in the first of these two layouts: the line
of the name alone is a line of the folded value, and unfolding leaves a space for it.
-/

namespace ProcmailRs

/-- A line that carries one word. -/
def wordLine (lead : Bytes) (lineEnding : LineEnding) (piece : List Char) : Bytes :=
  lead ++ (SP :: encodedWord piece ++ lineEnding.bytes)

/-- `value.is_ascii()`. -/
def isAsciiValue (value : String) : Bool := value.toList.all (·.toNat < 128)

/-! ### The layout -/

theorem appendEncodedWords_eq (lineEnding : LineEnding) (field : Bytes)
    (pieces : List (List Char)) :
    appendEncodedWords lineEnding false field pieces ++ lineEnding.bytes =
      field ++ (lineEnding.bytes ++ pieces.flatMap (wordLine [] lineEnding)) := by
  induction pieces generalizing field with
  | nil => simp [appendEncodedWords]
  | cons piece rest ih =>
    rw [appendEncodedWords, ih]
    simp [wordLine]

/-- The first word shares the line of the name. -/
def FirstWordFits (name : Bytes) (piece : List Char) : Prop :=
  name.length + 2 + (encodedWord piece).length ≤ rfc2047HeaderLineLimit

theorem serializeRfc2047_of_fits {name : HeaderName} {value : String} {piece : List Char}
    {rest : List (List Char)} (lineEnding : LineEnding) (hpieces : piecesOf value = piece :: rest)
    (hfits : FirstWordFits name.bytes piece) :
    serializeRfc2047 name.text value lineEnding =
      name.canonical ++ COLON :: (piecesOf value).flatMap (wordLine [] lineEnding) := by
  have hlen : (name.canonical).length = name.bytes.length :=
    length_canonicalHeaderName true name.bytes
  have hpieces' : rfc2047Chunks [] 0 value.toList = piece :: rest := hpieces
  rw [FirstWordFits] at hfits
  have hcond : (true && decide ((appendCanonicalHeaderName name.text ++ [COLON]).length + 1 +
      (encodedWord piece).length ≤ rfc2047HeaderLineLimit)) = true := by
    rw [Bool.true_and, decide_eq_true_eq, List.length_append,
      show (appendCanonicalHeaderName name.text).length = name.bytes.length from hlen,
      List.length_singleton]
    omega
  rw [serializeRfc2047, hpieces, hpieces', appendEncodedWords]
  simp only [hcond, if_true]
  rw [appendEncodedWords_eq]
  simp [wordLine, HeaderName.canonical]

theorem serializeRfc2047_of_not_fits {name : HeaderName} {value : String} {piece : List Char}
    {rest : List (List Char)} (lineEnding : LineEnding) (hpieces : piecesOf value = piece :: rest)
    (hfits : ¬ FirstWordFits name.bytes piece) :
    serializeRfc2047 name.text value lineEnding =
      name.canonical ++ COLON :: (lineEnding.bytes ++ (piecesOf value).flatMap (wordLine [] lineEnding)) := by
  have hlen : (name.canonical).length = name.bytes.length :=
    length_canonicalHeaderName true name.bytes
  have hpieces' : rfc2047Chunks [] 0 value.toList = piece :: rest := hpieces
  rw [FirstWordFits] at hfits
  have hcond : (true && decide ((appendCanonicalHeaderName name.text ++ [COLON]).length + 1 +
      (encodedWord piece).length ≤ rfc2047HeaderLineLimit)) = false := by
    rw [Bool.true_and, decide_eq_false_iff_not, List.length_append,
      show (appendCanonicalHeaderName name.text).length = name.bytes.length from hlen,
      List.length_singleton]
    omega
  rw [serializeRfc2047, hpieces, hpieces', appendEncodedWords]
  simp only [hcond, Bool.false_eq_true, if_false]
  rw [appendEncodedWords_eq]
  simp [wordLine, HeaderName.canonical]

theorem ne_LF_of_name (name : HeaderName) : ∀ b ∈ name.canonical ++ [COLON], b ≠ LF := by
  intro b hb
  rcases List.mem_append.mp hb with hb | hb
  · exact (ne_of_isHeaderNameByte b (name.canonical_valid b hb)).1
  · obtain rfl : b = COLON := by simpa using hb
    decide

/-- A text without a line feed and the delimiter behind it are one physical line. -/
theorem isLine_and_terminated {text : Bytes} (h : ∀ b ∈ text, b ≠ LF) (lineEnding : LineEnding) :
    Lines.IsLine isLF (text ++ lineEnding.bytes) ∧
      Lines.Terminated isLF (text ++ lineEnding.bytes) :=
  ⟨isLine_lineEnding h lineEnding, terminated_lineEnding text lineEnding⟩

theorem isLine_wordLine {lead : Bytes} (h : ∀ b ∈ lead, b ≠ LF) (lineEnding : LineEnding)
    (piece : List Char) : Lines.IsLine isLF (wordLine lead lineEnding piece) ∧
      Lines.Terminated isLF (wordLine lead lineEnding piece) := by
  have htext : ∀ b ∈ lead ++ SP :: encodedWord piece, b ≠ LF := by
    intro b hb
    rcases List.mem_append.mp hb with hb | hb
    · exact h b hb
    · rcases List.mem_cons.mp hb with rfl | hb
      · decide
      · exact encodedWord_ne_LF piece b hb
  have hline := isLine_and_terminated htext lineEnding
  rwa [List.append_assoc] at hline

theorem lines_wordLines (lineEnding : LineEnding) (pieces : List (List Char)) :
    lines (pieces.flatMap (wordLine [] lineEnding)) = pieces.map (wordLine [] lineEnding) := by
  rw [List.flatMap_def, lines, Lines.splitInclusive_flatten]
  intro line hline
  obtain ⟨piece, -, rfl⟩ := List.mem_map.mp hline
  exact isLine_wordLine (by simp) lineEnding piece

/-- The physical lines of an encoded value: the name stands on the line of the first word or on a
line of its own. -/
theorem lines_serializeRfc2047 (name : HeaderName) {value : String} {piece : List Char}
    {rest : List (List Char)} (lineEnding : LineEnding) (hpieces : piecesOf value = piece :: rest) :
    (FirstWordFits name.bytes piece ∧ lines (serializeRfc2047 name.text value lineEnding) =
      wordLine (name.canonical ++ [COLON]) lineEnding piece ::
        rest.map (wordLine [] lineEnding)) ∨
    (¬ FirstWordFits name.bytes piece ∧ lines (serializeRfc2047 name.text value lineEnding) =
      (name.canonical ++ [COLON] ++ lineEnding.bytes) ::
        (piece :: rest).map (wordLine [] lineEnding)) := by
  by_cases hfits : FirstWordFits name.bytes piece
  · refine Or.inl ⟨hfits, ?_⟩
    obtain ⟨hline, hterm⟩ := isLine_wordLine (ne_LF_of_name name) lineEnding piece
    rw [serializeRfc2047_of_fits lineEnding hpieces hfits, hpieces, List.flatMap_cons,
      show name.canonical ++ COLON :: (wordLine [] lineEnding piece ++
          rest.flatMap (wordLine [] lineEnding)) =
        wordLine (name.canonical ++ [COLON]) lineEnding piece ++
          rest.flatMap (wordLine [] lineEnding) by simp [wordLine],
      lines_append hterm, lines_wordLines, lines, hline.splitInclusive_eq, List.singleton_append]
  · refine Or.inr ⟨hfits, ?_⟩
    obtain ⟨hline, hterm⟩ := isLine_and_terminated (ne_LF_of_name name) lineEnding
    rw [serializeRfc2047_of_not_fits lineEnding hpieces hfits, hpieces,
      show name.canonical ++ COLON :: (lineEnding.bytes ++
          (piece :: rest).flatMap (wordLine [] lineEnding)) =
        (name.canonical ++ [COLON] ++ lineEnding.bytes) ++
          (piece :: rest).flatMap (wordLine [] lineEnding) by simp,
      lines_append hterm, lines_wordLines, lines, hline.splitInclusive_eq, List.singleton_append]

/-! ### Plain and encoded values -/

/-- What a successful scan says about the characters. -/
theorem scanGeneratedValue_spec {seen nonAscii : Bool} {chars : List Char}
    (h : scanGeneratedValue seen chars = .ok nonAscii) :
    nonAscii = (seen || !chars.all (·.toNat < 128)) ∧ ∀ c ∈ chars, IsPlain c := by
  induction chars generalizing seen with
  | nil =>
    obtain rfl := Except.ok.inj h
    simp
  | cons c rest ih =>
    rw [scanGeneratedValue] at h
    split_ifs at h with hplain hcontrol
    · obtain ⟨hseen, hrest⟩ := ih h
      have hrange : (c = '\t' ∨ isControl c = false) ∧ c.toNat < 128 := by
        simp only [Bool.or_eq_true, decide_eq_true_eq, isAsciiGraphic, Bool.and_eq_true] at hplain
        rcases hplain with (rfl | hgraphic) | rfl
        · exact ⟨Or.inl rfl, by decide⟩
        · refine ⟨Or.inr ?_, by omega⟩
          simp only [isControl, Bool.or_eq_false_iff, Bool.and_eq_false_iff, decide_eq_false_iff_not]
          omega
        · exact ⟨Or.inr (by decide), by decide⟩
      refine ⟨by simp [hseen, hrange.2], fun d hd => ?_⟩
      rcases List.mem_cons.mp hd with rfl | hd
      · exact hrange.1
      · exact hrest d hd
    · obtain ⟨hseen, hrest⟩ := ih h
      have hlarge : ¬ c.toNat < 128 := by
        intro hsmall
        simp only [Bool.or_eq_true, decide_eq_true_eq, isAsciiGraphic, Bool.and_eq_true, not_or,
          not_and, isControl, not_le, not_lt] at hplain hcontrol
        have hspace : c.toNat ≠ 32 := fun heq => hplain.2 (Char.toNat_inj.mp heq)
        omega
      refine ⟨by simp [hseen, hlarge], fun d hd => ?_⟩
      rcases List.mem_cons.mp hd with rfl | hd
      · exact Or.inr (by simpa using hcontrol)
      · exact hrest d hd

theorem validateGeneratedHeaderValue_spec {name value : String}
    {encoding : GeneratedHeaderEncoding}
    (h : validateGeneratedHeaderValue name value = .ok encoding) :
    (∀ c ∈ value.toList, IsPlain c) ∧
      (encoding = .Ascii → isAsciiValue value = true ∧
        (strBytes name).length + 2 + (strBytes value).length ≤ rfc5322HeaderLineLimit) ∧
      (encoding = .Rfc2047 → isAsciiValue value = false) := by
  obtain ⟨nonAscii, hscan, h⟩ := bind_eq_ok h
  obtain ⟨hnon, hplain⟩ := scanGeneratedValue_spec hscan
  rw [Bool.false_or] at hnon
  cases nonAscii with
  | true =>
    obtain rfl := Except.ok.inj h
    exact ⟨hplain, by rintro ⟨⟩, fun _ => by simpa [isAsciiValue] using hnon.symm⟩
  | false =>
    simp only [Bool.false_eq_true, if_false] at h
    split at h
    · cases h
    · rename_i lineSize hsize
      obtain ⟨size, hname, hvalue⟩ := Option.bind_eq_some_iff.mp hsize
      obtain ⟨-, rfl⟩ := checkedAdd_eq_some.mp hname
      obtain ⟨-, rfl⟩ := checkedAdd_eq_some.mp hvalue
      split_ifs at h with hlimit
      obtain rfl := Except.ok.inj h
      refine ⟨hplain, fun _ => ⟨?_, by omega⟩, by rintro ⟨⟩⟩
      simpa [isAsciiValue] using hnon.symm

theorem piecesOf_ne_nil {value : String} (h : isAsciiValue value = false) :
    ∃ piece rest, piecesOf value = piece :: rest := by
  cases hpieces : piecesOf value with
  | nil =>
    have hflat := flatten_piecesOf value
    rw [hpieces, List.flatten_nil] at hflat
    rw [isAsciiValue, ← hflat] at h
    cases h
  | cons piece rest => exact ⟨piece, rest, rfl⟩

theorem IsPiece.length_encodedWord_le {piece : List Char} (h : IsPiece piece) :
    (encodedWord piece).length ≤ 72 := by
  have hsize := h.2
  rw [rfc2047InputChunk] at hsize
  rw [length_encodedWord]
  omega

theorem length_wordLine (lead : Bytes) (lineEnding : LineEnding) (piece : List Char) :
    (wordLine lead lineEnding piece).length =
      lead.length + 1 + (encodedWord piece).length + lineEnding.bytes.length := by
  simp only [wordLine, List.length_append, List.length_cons]
  omega

/-! ### One well-formed field -/

/-- The lines of an encoded value: its characters are cut into pieces, each piece is one short word
that decodes to it, and apart from the name alone every line holds one word and is short. -/
structure EncodedLayout (name : HeaderName) (value : String) (lineEnding : LineEnding)
    (field : Bytes) (pieces : List (List Char)) : Prop where
  characters : pieces.flatten = value.toList
  word_length : ∀ piece ∈ pieces, (encodedWord piece).length ≤ 75
  word_decodes : ∀ piece ∈ pieces, piece ≠ [] ∧
    decodeWord (encodedWord piece) = .ok ((encodedWord piece).length, utf8 piece)
  layout : (∃ piece rest, pieces = piece :: rest ∧ lines field =
      wordLine (name.canonical ++ [COLON]) lineEnding piece :: rest.map (wordLine [] lineEnding)) ∨
    lines field =
      (name.canonical ++ [COLON] ++ lineEnding.bytes) :: pieces.map (wordLine [] lineEnding)
  line_length : ∀ line ∈ lines field, line = name.canonical ++ [COLON] ++ lineEnding.bytes ∨
    line.length ≤ rfc2047HeaderLineLimit + lineEnding.bytes.length

theorem encodedLayout (name : HeaderName) {value : String} (lineEnding : LineEnding)
    (h : isAsciiValue value = false) :
    EncodedLayout name value lineEnding (serializeRfc2047 name.text value lineEnding)
      (piecesOf value) := by
  obtain ⟨piece, rest, hpieces⟩ := piecesOf_ne_nil h
  have hshort : ∀ piece ∈ piecesOf value,
      (wordLine [] lineEnding piece).length ≤ rfc2047HeaderLineLimit + lineEnding.bytes.length := by
    intro piece hpiece
    have hword := (isPiece_of_mem hpiece).length_encodedWord_le
    rw [length_wordLine, rfc2047HeaderLineLimit, List.length_nil]
    omega
  have hlines := lines_serializeRfc2047 name lineEnding hpieces
  constructor
  case characters => exact flatten_piecesOf value
  case word_length =>
    intro piece hpiece
    have hword := (isPiece_of_mem hpiece).length_encodedWord_le
    omega
  case word_decodes =>
    intro piece hpiece
    have hdecode := (isPiece_of_mem hpiece).decodeWord []
    rw [List.append_nil] at hdecode
    exact ⟨(isPiece_of_mem hpiece).1, hdecode⟩
  case layout =>
    rcases hlines with ⟨-, hlines⟩ | ⟨-, hlines⟩
    · exact Or.inl ⟨piece, rest, hpieces, hlines⟩
    · exact Or.inr (by rw [hpieces]; exact hlines)
  case line_length =>
    intro line hline
    rcases hlines with ⟨hfits, hlines⟩ | ⟨-, hlines⟩
    · rw [hlines] at hline
      refine Or.inr ?_
      rcases List.mem_cons.mp hline with rfl | hline
      · have hname := length_canonicalHeaderName true name.bytes
        rw [show canonicalHeaderName true name.bytes = name.canonical from rfl] at hname
        rw [FirstWordFits, rfc2047HeaderLineLimit] at hfits
        rw [length_wordLine, rfc2047HeaderLineLimit, List.length_append, List.length_singleton]
        omega
      · obtain ⟨piece, hpiece, rfl⟩ := List.mem_map.mp hline
        exact hshort piece (by rw [hpieces]; simp [hpiece])
    · rw [hlines] at hline
      rcases List.mem_cons.mp hline with rfl | hline
      · exact Or.inl rfl
      · obtain ⟨piece, hpiece, rfl⟩ := List.mem_map.mp hline
        exact Or.inr (hshort piece (by rw [hpieces]; exact hpiece))

/-- A plain value stands on one line. -/
theorem lines_serializeAscii {name : HeaderName} {value : String} {lineEnding : LineEnding}
    {field : Bytes} (hfield : serializeAscii name.text value lineEnding = .ok field)
    (hvalid : validateGeneratedHeaderValue name.text value = .ok .Ascii) :
    lines field = [field] ∧
      field = name.canonical ++ ([COLON, SP] ++ (strBytes value ++ lineEnding.bytes)) ∧
      field.length ≤ rfc5322HeaderLineLimit + lineEnding.bytes.length := by
  have hascii : scanGeneratedValue false value.toList = .ok false := by
    obtain ⟨nonAscii, hscan, hrest⟩ := bind_eq_ok hvalid
    cases nonAscii with
    | true => cases hrest
    | false => exact hscan
  have hsize := ((validateGeneratedHeaderValue_spec hvalid).2.1 rfl).2
  have hname : (appendCanonicalHeaderName name.text).length = (strBytes name.text).length :=
    length_canonicalHeaderName true name.bytes
  simp only [serializeAscii] at hfield
  split at hfield
  · cases hfield
  · obtain rfl := Except.ok.inj hfield
    refine ⟨?_, rfl, ?_⟩
    · have hne : ∀ b ∈ name.canonical ++ COLON :: SP :: strBytes value, b ≠ LF := by
        intro b hb
        rcases List.mem_append.mp hb with hb | hb
        · exact ne_LF_of_name name b (List.mem_append_left _ hb)
        · rcases List.mem_cons.mp hb with rfl | hb
          · decide
          rcases List.mem_cons.mp hb with rfl | hb
          · decide
          · exact strBytes_ne_LF (scanGeneratedValue_ascii hascii) b hb
      have hline := (isLine_lineEnding hne lineEnding).splitInclusive_eq
      simpa [lines, HeaderName.canonical] using hline
    · simp only [List.length_append, List.length_cons, List.length_nil, hname]
      omega

/-- A generated field is read back as one field wherever it stands, and its lines keep the limits on
plain lines and on lines with encoded-words. -/
theorem generated_field_well_formed {name : HeaderName} {value : String} {lineEnding : LineEnding}
    {field : Bytes} (h : serializeGeneratedHeader name.text value lineEnding = .ok field) :
    (∀ rest, isFolded rest = false →
      rawFields (field ++ rest) = ⟨field, some name.canonical⟩ :: rawFields rest) ∧
    eqIgnoreAsciiCase name.canonical name.bytes = true ∧
    (∀ line ∈ lines field, isSeparator line = false) ∧
    lineEnding.bytes <:+ field ∧
    (isAsciiValue value = true →
      lines field = [field] ∧
        field = name.canonical ++ ([COLON, SP] ++ (strBytes value ++ lineEnding.bytes)) ∧
        field.length ≤ rfc5322HeaderLineLimit + lineEnding.bytes.length) ∧
    (isAsciiValue value = false →
      ∃ pieces, EncodedLayout name value lineEnding field pieces) := by
  obtain ⟨hfield, hending, tail, htail⟩ := serializeGeneratedHeader_spec h
  have hterm : Lines.Terminated isLF field := by
    obtain ⟨text, rfl⟩ := hending
    exact terminated_lineEnding text lineEnding
  have hname : fieldName field = some name.canonical := by
    rw [htail]
    exact fieldName_append name.canonical_valid
  refine ⟨fun rest hrest => ?_, name.eqIgnoreAsciiCase_canonical, hfield.not_isSeparator, hending,
    ?_⟩
  · rw [rawFields, fieldTexts_append hfield hterm hrest, List.map_cons, fieldFromBytes, hname]
    rfl
  obtain ⟨encoding, hvalid, h⟩ := bind_eq_ok h
  obtain ⟨-, hplain, hencoded⟩ := validateGeneratedHeaderValue_spec hvalid
  cases encoding with
  | Ascii =>
    refine ⟨fun _ => lines_serializeAscii h hvalid, fun hnon => ?_⟩
    rw [(hplain rfl).1] at hnon
    cases hnon
  | Rfc2047 =>
    obtain rfl := Except.ok.inj h
    refine ⟨fun hascii => ?_, fun hnon => ⟨piecesOf value, encodedLayout name lineEnding hnon⟩⟩
    rw [hencoded rfl] at hascii
    cases hascii

/-- The name of the subject field. -/
def subjectName : HeaderName := ⟨"subject", by decide +kernel⟩

theorem generated_field_well_formed_subject :
    rawFields (serializeRfc2047 subjectName.text "café" .CrLf ++ [CR, LF]) =
      [⟨serializeRfc2047 subjectName.text "café" .CrLf, some subjectName.canonical⟩] := by
  have hfield : serializeGeneratedHeader subjectName.text "café" .CrLf =
      .ok (serializeRfc2047 subjectName.text "café" .CrLf) := by decide +kernel
  exact (generated_field_well_formed hfield).1 [CR, LF] (by decide)

/-- A plain value that holds an encoded-word. -/
def encodedText : String :=
  "=?UTF-8?B?w6k=?= and plain text that takes the line beyond the limit for lines with words"

/-- Encoded-words that the value already holds are not bounded: a plain value is written on one line
as it is. -/
theorem plain_word_line_too_long :
    ∃ (name : HeaderName) (value : String) (field : Bytes),
      serializeGeneratedHeader name.text value .Lf = .ok field ∧
        ∃ line ∈ lines field, ∃ word text, word <:+: line ∧
          decodeWord word = .ok (word.length, text) ∧
          rfc2047HeaderLineLimit + LineEnding.Lf.bytes.length < line.length := by
  refine ⟨subjectName, encodedText,
    subjectName.canonical ++ ([COLON, SP] ++ (strBytes encodedText ++ [LF])), by decide +kernel,
    subjectName.canonical ++ ([COLON, SP] ++ (strBytes encodedText ++ [LF])), by decide +kernel,
    strBytes "=?UTF-8?B?w6k=?=", utf8 ['é'], ?_, by decide +kernel, by decide +kernel⟩
  decide +kernel

/-! ### Reading a value back -/

theorem stripLineEnding_append {text : Bytes} (lineEnding : LineEnding)
    (h : ¬ [CR] <:+ text) : stripLineEnding (text ++ lineEnding.bytes) = text := by
  cases lineEnding with
  | Lf => exact stripLineEnding_LF h
  | CrLf => exact stripLineEnding_CRLF text

/-- Unfolding takes the word of a line. -/
theorem content_wordLine (lineEnding : LineEnding) (piece : List Char) :
    (stripLineEnding (wordLine [] lineEnding piece)).dropWhile isBlank = encodedWord piece := by
  have hend : ¬ [CR] <:+ SP :: encodedWord piece := by
    rintro ⟨init, hinit⟩
    rw [show SP :: encodedWord piece =
      (SP :: encodedWordPrefix ++ appendBase64 (utf8 piece) ++ [63]) ++ [61] by
        simp [encodedWord, encodedWordSuffix]] at hinit
    exact absurd (List.append_inj' hinit rfl).2 (by decide)
  rw [wordLine, List.nil_append, stripLineEnding_append lineEnding hend]
  rfl

theorem unfoldValueLines_wordLines {lineEnding : LineEnding} {output : Bytes}
    (hout : output.length ≤ maxAssignmentValueLen) (pieces : List (List Char)) :
    unfoldValueLines output false (pieces.map (wordLine [] lineEnding)) =
      if output.length + (foldedWords pieces).length ≤ maxAssignmentValueLen then
        .ok (output ++ foldedWords pieces)
      else .error (.ExtractedValueTooLong maxAssignmentValueLen) := by
  have hlimit : maxAssignmentValueLen ≤ usizeMax := by decide
  induction pieces generalizing output with
  | nil => simp [unfoldValueLines, foldedWords, hout]
  | cons piece rest ih =>
    have hlen : (foldedWords (piece :: rest)).length =
        1 + (encodedWord piece).length + (foldedWords rest).length := by
      simp only [foldedWords, List.flatMap_cons, List.length_append, List.length_cons]
      omega
    rw [List.map_cons, unfoldValueLines, content_wordLine]
    simp only [Bool.false_eq_true, if_false, tryExtend_eq hlimit, List.length_singleton]
    by_cases hspace : output.length + 1 ≤ maxAssignmentValueLen
    · simp only [if_pos hspace, List.length_append, List.length_singleton]
      by_cases hword : output.length + 1 + (encodedWord piece).length ≤ maxAssignmentValueLen
      · simp only [if_pos hword]
        rw [ih (by simp only [List.length_append, List.length_singleton]; exact hword), hlen]
        simp only [List.length_append, List.length_singleton]
        rw [show output ++ [SP] ++ encodedWord piece ++ foldedWords rest =
          output ++ foldedWords (piece :: rest) by simp [foldedWords], ← Nat.add_assoc,
          ← Nat.add_assoc]
      · simp only [if_neg hword]
        rw [if_neg (by omega)]
    · simp only [if_neg hspace]
      rw [if_neg (by omega)]

theorem value_fieldFromBytes (name : HeaderName) (rest : Bytes) :
    (fieldFromBytes (name.canonical ++ COLON :: rest)).value = some rest := by
  rw [fieldFromBytes, fieldName_append name.canonical_valid]
  simp [Field.value]

/-- The decoder on a sequence of words. -/
theorem decodeRfc2047From_words {limit fuel : Nat} {output : Bytes} {previous : Bool}
    {piece : List Char} {rest : List (List Char)} (hlimit : limit ≤ usizeMax)
    (hpieces : ∀ p ∈ piece :: rest, IsPiece p) (hplain : ∀ c ∈ (piece :: rest).flatten, IsPlain c)
    (hfuel : (encodedWord piece ++ foldedWords rest).length ≤ fuel) :
    decodeRfc2047From limit fuel output previous (encodedWord piece ++ foldedWords rest) =
      if output.length + (utf8 (piece :: rest).flatten).length ≤ limit then
        .ok (output ++ utf8 (piece :: rest).flatten)
      else .error .TooLong := by
  have htotal : (utf8 (piece :: rest).flatten).length =
      (utf8 piece).length + (utf8 rest.flatten).length := by
    rw [List.flatten_cons, utf8_append, List.length_append]
  have hword := length_encodedWord piece
  rw [List.length_append] at hfuel
  obtain ⟨fuel, rfl⟩ : ∃ k, fuel = k + 1 := ⟨fuel - 1, by omega⟩
  rw [decodeRfc2047From_word hlimit (hpieces piece (by simp)) (fun c hc => hplain c (by simp [hc]))]
  by_cases hfirst : output.length + (utf8 piece).length ≤ limit
  · rw [if_pos hfirst, decodeRfc2047From_foldedWords hlimit (fun p hp => hpieces p (by simp [hp]))
      (fun c hc => hplain c (by rw [List.flatten_cons]; exact List.mem_append_right _ hc))
      (by omega) (by rw [List.length_append]; exact hfirst), htotal, List.length_append,
      List.flatten_cons, utf8_append, Nat.add_assoc, List.append_assoc]
  · rw [if_neg hfirst, if_neg (by omega)]

/-- The decoder on the unfolded text whose first word stands at the start. -/
theorem decodeRfc2047_words {limit : Nat} {piece : List Char} {rest : List (List Char)}
    (hlimit : limit ≤ usizeMax) (hpieces : ∀ p ∈ piece :: rest, IsPiece p)
    (hplain : ∀ c ∈ (piece :: rest).flatten, IsPlain c)
    (hfits : (utf8 (piece :: rest).flatten).length ≤ limit) :
    decodeRfc2047 (encodedWord piece ++ foldedWords rest) limit =
      .ok (utf8 (piece :: rest).flatten) := by
  rw [decodeRfc2047, decodeRfc2047From_words hlimit hpieces hplain (Nat.le_refl _), List.length_nil,
    if_pos (by omega), List.nil_append]

/-- The decoder on the unfolded text with a space before the first word: the space is text. -/
theorem decodeRfc2047_foldedWords {limit : Nat} {piece : List Char} {rest : List (List Char)}
    (hlimit : limit ≤ usizeMax) (hpos : 1 ≤ limit) (hpieces : ∀ p ∈ piece :: rest, IsPiece p)
    (hplain : ∀ c ∈ (piece :: rest).flatten, IsPlain c) :
    decodeRfc2047 (foldedWords (piece :: rest)) limit ≠ .ok (utf8 (piece :: rest).flatten) := by
  have hspace : appendDecodedText [] limit [SP] = .ok [SP] := by
    have htext := @appendDecodedText_utf8 [] limit [' '] hlimit (by simp [IsPlain, isControl])
    rwa [show utf8 [' '] = [SP] from rfl, if_pos (by simpa using hpos)] at htext
  have hstep : decodeRfc2047 (foldedWords (piece :: rest)) limit =
      decodeRfc2047From limit (encodedWord piece ++ foldedWords rest).length [SP] false
        (encodedWord piece ++ foldedWords rest) := by
    have hinput : foldedWords (piece :: rest) = SP :: (encodedWord piece ++ foldedWords rest) := by
      simp [foldedWords]
    have hnext : findEncodedWord (SP :: (encodedWord piece ++ foldedWords rest)) = some 1 := rfl
    have hprefix : [61, 63].isPrefixOf (SP :: (encodedWord piece ++ foldedWords rest)) = false := rfl
    rw [decodeRfc2047, hinput, List.length_cons, decodeRfc2047From]
    simp only [List.isEmpty_cons, Bool.false_eq_true, if_false, hprefix, hnext, Option.getD_some,
      Bool.false_and, List.take_succ_cons, List.take_zero, List.drop_succ_cons, List.drop_zero,
      hspace, ok_bind]
  rw [hstep, decodeRfc2047From_words hlimit hpieces hplain (Nat.le_refl _)]
  split_ifs with hfits
  · intro heq
    have hlen := congrArg List.length (Except.ok.inj heq)
    rw [List.length_append, List.length_singleton] at hlen
    omega
  · simp

/-! The condition under which a value is read back, on the sizes of its characters alone. -/

/-- The byte lengths of the pieces of a text with characters of the given sizes; `size` bytes are
in the piece already begun. -/
def pieceSizes (size : Nat) : List Nat → List Nat
  | [] => if size = 0 then [] else [size]
  | char :: rest =>
    if size + char ≤ rfc2047InputChunk then pieceSizes (size + char) rest
    else size :: pieceSizes char rest

/-- The length of the word for a piece. -/
def wordSize (piece : Nat) : Nat := 12 + 4 * ((piece + 2) / 3)

/-- The lengths of the words of a value. -/
def wordSizes (value : String) : List Nat :=
  (pieceSizes 0 (value.toList.map Char.utf8Size)).map wordSize

/-- The first word stands on the line of the name, and the words with one space between them are
not longer than an extracted value may be. -/
def ReadsBack (name value : String) : Prop :=
  (strBytes name).length + 2 + (wordSizes value).headD 0 ≤ rfc2047HeaderLineLimit ∧
    ((wordSizes value).map (· + 1)).sum ≤ maxAssignmentValueLen + 1

theorem length_utf8_concat (cs : List Char) (c : Char) :
    (utf8 (cs ++ [c])).length = (utf8 cs).length + c.utf8Size := by
  rw [utf8_append, List.length_append, utf8_cons, List.length_append,
    String.length_utf8EncodeChar]
  rfl

theorem pieceSizes_eq (current value : List Char) :
    pieceSizes (utf8 current).length (value.map Char.utf8Size) =
      (rfc2047Chunks current (utf8 current).length value).map fun piece => (utf8 piece).length := by
  induction value generalizing current with
  | nil =>
    rw [List.map_nil, pieceSizes, rfc2047Chunks]
    by_cases hempty : current = []
    · subst hempty
      rfl
    · have hutf8 : (utf8 current).length ≠ 0 :=
        fun h => hempty (utf8_eq_nil (List.length_eq_zero_iff.mp h))
      simp [hempty, hutf8]
  | cons c rest ih =>
    have hsingle := length_utf8_concat [] c
    rw [List.nil_append, show (utf8 []).length = 0 from rfl, Nat.zero_add] at hsingle
    have hfits := ih (current ++ [c])
    have hnext := ih [c]
    rw [length_utf8_concat] at hfits
    rw [hsingle] at hnext
    rw [List.map_cons, pieceSizes, rfc2047Chunks, hfits, hnext]
    split_ifs
    · rfl
    · rfl

theorem wordSizes_eq (value : String) :
    wordSizes value = (piecesOf value).map fun piece => (encodedWord piece).length := by
  have hsizes := pieceSizes_eq [] value.toList
  rw [wordSizes, show pieceSizes 0 (value.toList.map Char.utf8Size) = _ from hsizes, List.map_map]
  refine List.map_congr_left fun piece _ => ?_
  exact (length_encodedWord piece).symm

theorem length_foldedWords (pieces : List (List Char)) :
    (foldedWords pieces).length = (pieces.map fun piece => (encodedWord piece).length + 1).sum := by
  rw [foldedWords, List.length_flatMap]
  rfl

theorem readsBack_iff {name : HeaderName} {value : String} {piece : List Char}
    {rest : List (List Char)} (hpieces : piecesOf value = piece :: rest) :
    ReadsBack name.text value ↔ FirstWordFits name.bytes piece ∧
      (foldedWords (piece :: rest)).length ≤ maxAssignmentValueLen + 1 := by
  rw [ReadsBack, wordSizes_eq, hpieces, length_foldedWords, List.map_map]
  exact Iff.rfl

/-- A generated field with an encoded value gives the value back exactly when the words fit. -/
theorem generated_value_extracted_iff {name : HeaderName} {value : String}
    {encoding : GeneratedHeaderEncoding} (lineEnding : LineEnding)
    (hvalid : validateGeneratedHeaderValue name.text value = .ok encoding)
    (hnon : isAsciiValue value = false) (hlen : (strBytes value).length ≤ maxAssignmentValueLen) :
    ∃ field, serializeGeneratedHeader name.text value lineEnding = .ok field ∧
      (extractValue (fieldFromBytes field) .Decoded = .ok (strBytes value) ↔
        ReadsBack name.text value) := by
  obtain ⟨hplain, hascii, -⟩ := validateGeneratedHeaderValue_spec hvalid
  cases encoding with
  | Ascii =>
    rw [(hascii rfl).1] at hnon
    cases hnon
  | Rfc2047 =>
  have hlimit : maxAssignmentValueLen ≤ usizeMax := by decide
  obtain ⟨piece, rest, hpieces⟩ := piecesOf_ne_nil hnon
  have hflat : (piece :: rest).flatten = value.toList := by rw [← hpieces, flatten_piecesOf]
  have hwords : ∀ p ∈ piece :: rest, IsPiece p := by
    intro p hp
    exact isPiece_of_mem (by rwa [hpieces])
  have hsize : (foldedWords (piece :: rest)).length =
      1 + (encodedWord piece).length + (foldedWords rest).length := by
    simp only [foldedWords, List.flatMap_cons, List.length_append, List.length_cons]
    omega
  have hshort := (hwords piece (by simp)).length_encodedWord_le
  have hmax : maxAssignmentValueLen = 65536 := rfl
  rw [← hflat] at hplain
  rw [strBytes, ← hflat] at hlen ⊢
  refine ⟨serializeRfc2047 name.text value lineEnding, ?_, ?_⟩
  · rw [serializeGeneratedHeader, hvalid, ok_bind]
  rw [readsBack_iff hpieces]
  by_cases hfits : FirstWordFits name.bytes piece
  · have hunfold : unfoldValue ((piece :: rest).flatMap (wordLine [] lineEnding)) =
        if (encodedWord piece).length + (foldedWords rest).length ≤ maxAssignmentValueLen then
          .ok (encodedWord piece ++ foldedWords rest)
        else .error (.ExtractedValueTooLong maxAssignmentValueLen) := by
      rw [unfoldValue, lines_wordLines, List.map_cons, unfoldValueLines, content_wordLine]
      simp only [if_true, tryExtend_eq hlimit, List.length_nil, Nat.zero_add, Nat.zero_le,
        List.nil_append]
      rw [if_pos (by omega)]
      exact unfoldValueLines_wordLines (by omega) rest
    rw [serializeRfc2047_of_fits lineEnding hpieces hfits, hpieces]
    simp only [extractValue, value_fieldFromBytes, Option.getD_some, hunfold]
    by_cases htotal : (encodedWord piece).length + (foldedWords rest).length ≤ maxAssignmentValueLen
    · rw [if_pos htotal, ok_bind, decodeRfc2047_words hlimit hwords hplain hlen]
      refine iff_of_true rfl ⟨hfits, by omega⟩
    · rw [if_neg htotal]
      refine iff_of_false (by rintro ⟨⟩) (fun h => htotal (by omega))
  · have hfirst : (stripLineEnding lineEnding.bytes).dropWhile isBlank = [] := by
      cases lineEnding with
      | Lf => rfl
      | CrLf => rfl
    have hunfold : unfoldValue (lineEnding.bytes ++ (piece :: rest).flatMap (wordLine [] lineEnding)) =
        if (foldedWords (piece :: rest)).length ≤ maxAssignmentValueLen then
          .ok (foldedWords (piece :: rest))
        else .error (.ExtractedValueTooLong maxAssignmentValueLen) := by
      have hline := @isLine_and_terminated [] (by simp) lineEnding
      rw [List.nil_append] at hline
      rw [unfoldValue, lines_append hline.2, lines_wordLines, lines, hline.1.splitInclusive_eq,
        List.singleton_append, unfoldValueLines, hfirst]
      simp only [if_true, tryExtend_eq hlimit, List.length_nil, Nat.zero_add, Nat.zero_le,
        List.nil_append]
      have hrest := @unfoldValueLines_wordLines lineEnding [] (by rw [List.length_nil]; omega) (piece :: rest)
      rwa [List.length_nil, Nat.zero_add, List.nil_append] at hrest
    rw [serializeRfc2047_of_not_fits lineEnding hpieces hfits, hpieces]
    simp only [extractValue, value_fieldFromBytes, Option.getD_some, hunfold]
    refine iff_of_false ?_ (fun h => hfits h.1)
    split_ifs
    · have hne := decodeRfc2047_foldedWords hlimit (by omega) hwords hplain
      rw [ok_bind]
      intro heq
      split at heq
      · cases heq
      · rename_i decoded hdecoded
        obtain rfl := Except.ok.inj heq
        exact hne hdecoded
    · rintro ⟨⟩

/-- A value of one word behind a short name is read back. -/
theorem generated_value_extracted_subject :
    ∃ field, serializeGeneratedHeader subjectName.text "café" .Lf = .ok field ∧
      (extractValue (fieldFromBytes field) .Decoded = .ok (strBytes "café") ↔
        ReadsBack subjectName.text "café") :=
  @generated_value_extracted_iff subjectName "café" .Rfc2047 .Lf (by decide +kernel)
    (by decide +kernel) (by decide +kernel)

/-- A value of two words. -/
def longValue : String := "ééééééééééééééééééééééé"

/-- The first word of a longer value stands on its own line, and a space is extracted before it. -/
theorem long_value_not_extracted :
    ∃ (name : HeaderName) (value : String) (field : Bytes),
      validateGeneratedHeaderValue name.text value = .ok .Rfc2047 ∧
        isAsciiValue value = false ∧ (strBytes value).length ≤ maxAssignmentValueLen ∧
        serializeGeneratedHeader name.text value .Lf = .ok field ∧
        extractValue (fieldFromBytes field) .Decoded = .ok (SP :: strBytes value) ∧
        extractValue (fieldFromBytes field) .Decoded ≠ .ok (strBytes value) := by
  have hvalid : validateGeneratedHeaderValue subjectName.text longValue = .ok .Rfc2047 := by
    decide +kernel
  have hread : extractValue (fieldFromBytes (serializeRfc2047 subjectName.text longValue .Lf))
      .Decoded = .ok (SP :: strBytes longValue) := by decide +kernel
  refine ⟨subjectName, longValue, serializeRfc2047 subjectName.text longValue .Lf, hvalid,
    by decide +kernel, by decide +kernel, by rw [serializeGeneratedHeader, hvalid, ok_bind], hread, ?_⟩
  rw [hread]
  decide +kernel

end ProcmailRs
