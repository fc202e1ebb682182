import ProcmailRs.MimeTree
import ProcmailRs.Proofs.HeaderTextProofs

/-!
# The text of MIME parts

In a rendered body the search for a delimiter stops at the next delimiter line, the line ending in
front of it is taken off, and the header of the part is cut at its blank line.
-/

namespace ProcmailRs

/-! ### Searching for a delimiter -/

/-- A delimiter without line feeds ends before the first line feed. -/
theorem prefix_of_not_mem_LF {d l : Bytes} (hd : LF ∉ d) {rest : Bytes}
    (h : d <+: l ++ LF :: rest) : d <+: l := by
  rcases Nat.le_total d.length l.length with hle | hle
  · exact List.prefix_of_prefix_length_le h (List.prefix_append l _) hle
  · have hl : l <+: d := List.prefix_of_prefix_length_le (List.prefix_append l _) h hle
    obtain ⟨d', rfl⟩ := hl
    obtain ⟨tail, htail⟩ := h
    rw [List.append_assoc, List.append_cancel_left_eq] at htail
    cases d' with
    | nil => simp
    | cons b d' =>
      obtain rfl : b = LF := (List.cons.inj htail).1
      exact absurd (by simp) hd

/-- Behind its first byte a line is passed over. -/
theorem findBoundaryFrom_line {d l : Bytes} (hl : LF ∉ l) (rest : Bytes) :
    findBoundaryFrom d false (l ++ LF :: rest) =
      (findBoundaryFrom d true rest).map (· + (l.length + 1)) := by
  induction l with
  | nil =>
    rw [List.nil_append, findBoundaryFrom]
    rfl
  | cons b l ih =>
    have hb : (b == LF) = false := by
      rw [beq_eq_false_iff_ne]
      rintro rfl
      exact hl (by simp)
    rw [List.cons_append, findBoundaryFrom, hb, ih fun h => hl (by simp [h])]
    simp only [Bool.false_and, Bool.false_eq_true, if_false, Option.map_map, List.length_cons]
    congr 1

theorem findBoundaryFrom_lines {d : Bytes} (hd : LF ∉ d) (hne : d ≠ []) (r : Bytes) {ls : List Bytes}
    (h : ∀ line ∈ ls, Lines.IsLine isLF line ∧ Lines.Terminated isLF line ∧ ¬ d <+: line) :
    findBoundaryFrom d true (ls.flatten ++ (d ++ r)) = some ls.flatten.length := by
  induction ls with
  | nil =>
    obtain ⟨b, d, rfl⟩ := List.exists_cons_of_ne_nil hne
    have hprefix : (b :: d).isPrefixOf (b :: (d ++ r)) = true := by
      rw [List.isPrefixOf_iff_prefix]
      exact ⟨r, rfl⟩
    rw [List.flatten_nil, List.nil_append, List.cons_append, findBoundaryFrom, hprefix]
    rfl
  | cons line ls ih =>
    obtain ⟨hline, hterminated, havoid⟩ := h line (by simp)
    have hrest := ih fun line hline => h line (by simp [hline])
    obtain ⟨l, rfl⟩ : ∃ l, line = l ++ [LF] := by
      refine ⟨line.dropLast, ?_⟩
      have hlast : line.getLast hline.1 = LF := by
        rw [Lines.Terminated, List.getLast?_eq_some_getLast hline.1] at hterminated
        simpa [isLF] using hterminated
      rw [← hlast, List.dropLast_append_getLast]
    have hl : LF ∉ l := by
      intro hmem
      have hnot := hline.2 LF (by rw [List.dropLast_concat]; exact hmem)
      simp [isLF] at hnot
    have hnot : ¬ d <+: l ++ LF :: (ls.flatten ++ (d ++ r)) := by
      intro hprefix
      exact havoid ((prefix_of_not_mem_LF hd hprefix).trans (List.prefix_append l _))
    have htext : (((l ++ [LF]) :: ls).flatten ++ (d ++ r)) = l ++ LF :: (ls.flatten ++ (d ++ r)) := by
      simp
    rw [htext]
    -- The first byte of the line stands at a line start.
    have hfirst : findBoundaryFrom d true (l ++ LF :: (ls.flatten ++ (d ++ r))) =
        (findBoundaryFrom d true (ls.flatten ++ (d ++ r))).map (· + (l.length + 1)) := by
      rw [← List.isPrefixOf_iff_prefix] at hnot
      cases l with
      | nil =>
        rw [List.nil_append] at hnot ⊢
        rw [findBoundaryFrom, if_neg (by simpa using hnot)]
        rfl
      | cons b l =>
        have hb : (b == LF) = false := by
          rw [beq_eq_false_iff_ne]
          rintro rfl
          exact hl (by simp)
        rw [List.cons_append] at hnot ⊢
        rw [findBoundaryFrom, if_neg (by simpa using hnot), hb,
          findBoundaryFrom_line fun h => hl (by simp [h]), Option.map_map, List.length_cons]
        congr 1
    rw [hfirst, hrest]
    simp
    omega

theorem delimiter_ne_nil (boundary : Bytes) : delimiter boundary ≠ [] := by
  simp [delimiter]

theorem not_mem_delimiter {boundary : Bytes} (h : LF ∉ boundary) : LF ∉ delimiter boundary := by
  have hdash : LF ≠ DASH := by decide
  simp [delimiter, hdash, h]

/-- Whole lines that avoid the delimiter are passed over. -/
theorem findBoundary_of_avoids {boundary text : Bytes} (hboundary : LF ∉ boundary)
    (htext : text = [] ∨ Lines.Terminated isLF text) (havoids : Avoids boundary text) (r : Bytes) :
    findBoundary (text ++ (delimiter boundary ++ r)) (delimiter boundary) = some text.length := by
  have hlines : ∀ line ∈ lines text, Lines.IsLine isLF line ∧ Lines.Terminated isLF line ∧
      ¬ delimiter boundary <+: line := by
    intro line hline
    refine ⟨Lines.isLine_of_mem hline, ?_, havoids line hline⟩
    rcases htext with rfl | hterminated
    · cases hline
    · exact Lines.terminated_of_mem hterminated hline
  have hfound := findBoundaryFrom_lines (not_mem_delimiter hboundary) (delimiter_ne_nil boundary) r hlines
  rw [flatten_lines] at hfound
  rw [findBoundary, if_neg (by simp [delimiter_ne_nil])]
  exact hfound

/-! ### Line endings -/

/-- What stands before the line feed of a line ending. -/
def beforeLF : LineEnding → Bytes
  | .Lf => []
  | .CrLf => [CR]

theorem bytes_eq (eol : LineEnding) : eol.bytes = beforeLF eol ++ [LF] := by
  cases eol <;> rfl

theorem not_mem_beforeLF (eol : LineEnding) : LF ∉ beforeLF eol := by
  cases eol <;> decide

theorem isSeparator_bytes (eol : LineEnding) : isSeparator eol.bytes = true := by
  cases eol <;> rfl

theorem trimLineEnding_eq {v : Bytes} (h : v.getLast? ≠ some CR) (eol : LineEnding) :
    trimLineEnding (v ++ eol.bytes) = v := by
  cases eol with
  | Lf =>
    rw [LineEnding.bytes, trimLineEnding, List.getLast?_concat, if_pos rfl, List.dropLast_concat,
      if_neg h]
  | CrLf =>
    have hsplit : v ++ [CR, LF] = v ++ [CR] ++ [LF] := by simp
    rw [LineEnding.bytes, hsplit, trimLineEnding, List.getLast?_concat, if_pos rfl,
      List.dropLast_concat, List.getLast?_concat, if_pos rfl, List.dropLast_concat]

/-- A carriage return in front of the line ending may be taken for a part of it. -/
theorem trimLineEnding_cases (v : Bytes) (eol : LineEnding) :
    trimLineEnding (v ++ eol.bytes) = v ∨
      v.getLast? = some CR ∧ trimLineEnding (v ++ eol.bytes) = v.dropLast := by
  cases eol with
  | Lf =>
    rw [LineEnding.bytes, trimLineEnding, List.getLast?_concat, if_pos rfl, List.dropLast_concat]
    by_cases hlast : v.getLast? = some CR
    · exact Or.inr ⟨hlast, if_pos hlast⟩
    · exact Or.inl (if_neg hlast)
  | CrLf =>
    have hsplit : v ++ [CR, LF] = v ++ [CR] ++ [LF] := by simp
    rw [LineEnding.bytes, hsplit, trimLineEnding, List.getLast?_concat, if_pos rfl,
      List.dropLast_concat, List.getLast?_concat, if_pos rfl, List.dropLast_concat]
    exact Or.inl rfl

theorem afterLineEnd_bytes (eol : LineEnding) (v : Bytes) : afterLineEnd (eol.bytes ++ v) = v := by
  cases eol <;> rfl

/-! ### Header lines -/

@[simp] theorem linesText_nil (eol : LineEnding) : linesText eol [] = [] := rfl

theorem linesText_cons (eol : LineEnding) (line : Bytes) (header : List Bytes) :
    linesText eol (line :: header) = (line ++ beforeLF eol) ++ LF :: linesText eol header := by
  rw [linesText, List.map_cons, List.flatten_cons, ← linesText]
  nth_rewrite 1 [bytes_eq]
  simp

/-- No blank line starts here. -/
def NotBlankStart (v : Bytes) : Prop :=
  v.head? ≠ some LF ∧ ¬ (v.head? = some CR ∧ v.tail.head? = some LF)

theorem notBlankStart_nil : NotBlankStart [] := by
  constructor <;> simp

theorem IsHeaderLine.notBlankStart {line : Bytes} (h : IsHeaderLine line) (rest : Bytes) :
    NotBlankStart (line ++ rest) := by
  obtain ⟨hne, hLF, hlast⟩ := h
  cases line with
  | nil => exact absurd rfl hne
  | cons b line =>
    refine ⟨?_, ?_⟩
    · intro hhead
      obtain rfl : b = LF := by simpa using hhead
      exact hLF (by simp)
    · rintro ⟨hhead, hnext⟩
      obtain rfl : b = CR := by simpa using hhead
      cases line with
      | nil => exact hlast rfl
      | cons c line =>
        obtain rfl : c = LF := by simpa using hnext
        exact hLF (by simp)

/-- Bytes that are no line feeds belong to the header. -/
theorem splitPartHeadersAndBody_append {l : Bytes} (hl : LF ∉ l) (rest : Bytes) :
    splitPartHeadersAndBody (l ++ rest) =
      (l ++ (splitPartHeadersAndBody rest).1, (splitPartHeadersAndBody rest).2) := by
  induction l with
  | nil => rfl
  | cons b l ih =>
    have hb : b ≠ LF := by
      rintro rfl
      exact hl (by simp)
    rw [List.cons_append, splitPartHeadersAndBody, if_neg (by simp [hb]), if_neg (by simp [hb]),
      ih fun h => hl (by simp [h])]
    rfl

theorem splitPartHeadersAndBody_LF {rest : Bytes} (h : NotBlankStart rest) :
    splitPartHeadersAndBody (LF :: rest) =
      (LF :: (splitPartHeadersAndBody rest).1, (splitPartHeadersAndBody rest).2) := by
  rw [splitPartHeadersAndBody, if_neg (by simp [h.1]), if_neg (by simpa using h.2)]

theorem splitPartHeadersAndBody_blank (eol : LineEnding) (body : Bytes) :
    splitPartHeadersAndBody (LF :: (eol.bytes ++ body)) = (LF :: eol.bytes, body) := by
  cases eol <;> rfl

section Header

variable {eol : LineEnding} {header : List Bytes} (h : ∀ line ∈ header, IsHeaderLine line)

include h

theorem notBlankStart_linesText (rest : Bytes) (hrest : header = [] → NotBlankStart rest) :
    NotBlankStart (linesText eol header ++ rest) := by
  cases header with
  | nil => exact hrest rfl
  | cons line header =>
    rw [linesText_cons, List.append_assoc, List.append_assoc]
    exact (h line (by simp)).notBlankStart _

/-- Header lines without a blank line behind them are a header without a body. -/
theorem splitPartHeadersAndBody_linesText :
    splitPartHeadersAndBody (linesText eol header) = (linesText eol header, []) := by
  induction header with
  | nil => rfl
  | cons line header ih =>
    have hheader : ∀ line ∈ header, IsHeaderLine line := fun line hline => h line (by simp [hline])
    have hline : LF ∉ line ++ beforeLF eol := by
      rw [List.mem_append, not_or]
      exact ⟨(h line (by simp)).2.1, not_mem_beforeLF eol⟩
    have hnext : NotBlankStart (linesText eol header) := by
      have hstart : NotBlankStart (linesText eol header ++ []) :=
        notBlankStart_linesText hheader [] fun _ => notBlankStart_nil
      rwa [List.append_nil] at hstart
    rw [linesText_cons, splitPartHeadersAndBody_append hline, splitPartHeadersAndBody_LF hnext,
      ih hheader]

/-- The same without the ending of the last line. -/
theorem splitPartHeadersAndBody_intercalate :
    splitPartHeadersAndBody (eol.bytes.intercalate header) = (eol.bytes.intercalate header, []) := by
  induction header with
  | nil => rfl
  | cons line header ih =>
    have hheader : ∀ line ∈ header, IsHeaderLine line := fun line hline => h line (by simp [hline])
    have hLF : LF ∉ line := (h line (by simp)).2.1
    cases header with
    | nil =>
      have hone := splitPartHeadersAndBody_append hLF []
      rw [List.append_nil] at hone
      rw [List.intercalate_singleton, hone, splitPartHeadersAndBody, List.append_nil]
    | cons next header =>
      have hline : LF ∉ line ++ beforeLF eol := by
        rw [List.mem_append, not_or]
        exact ⟨hLF, not_mem_beforeLF eol⟩
      have hsplit : eol.bytes.intercalate (line :: next :: header) =
          (line ++ beforeLF eol) ++ LF :: eol.bytes.intercalate (next :: header) := by
        rw [List.intercalate_cons_cons, bytes_eq]
        simp
      have hnext : NotBlankStart (eol.bytes.intercalate (next :: header)) := by
        have hstart := (hheader next (by simp)).notBlankStart
        cases header with
        | nil =>
          have hone := hstart []
          rw [List.append_nil] at hone
          rwa [List.intercalate_singleton]
        | cons third header =>
          rw [List.intercalate_cons_cons, List.append_assoc]
          exact hstart _
      rw [hsplit, splitPartHeadersAndBody_append hline, splitPartHeadersAndBody_LF hnext, ih hheader]

/-- A header is cut behind its blank line. -/
theorem splitPartHeadersAndBody_part (hne : header ≠ []) (body : Bytes) :
    splitPartHeadersAndBody (linesText eol header ++ (eol.bytes ++ body)) =
      (linesText eol header ++ eol.bytes, body) := by
  induction header with
  | nil => exact absurd rfl hne
  | cons line header ih =>
    have hheader : ∀ line ∈ header, IsHeaderLine line := fun line hline => h line (by simp [hline])
    have hline : LF ∉ line ++ beforeLF eol := by
      rw [List.mem_append, not_or]
      exact ⟨(h line (by simp)).2.1, not_mem_beforeLF eol⟩
    rw [linesText_cons, List.append_assoc, splitPartHeadersAndBody_append hline, List.cons_append]
    by_cases hlast : header = []
    · subst hlast
      rw [linesText_nil, List.nil_append, splitPartHeadersAndBody_blank]
      simp
    · rw [splitPartHeadersAndBody_LF
        (notBlankStart_linesText hheader _ fun hnil => absurd hnil hlast), ih hheader hlast]
      simp

/-- The blank line is no part of the fields. -/
theorem rawFields_linesText_blank :
    rawFields (linesText eol header ++ eol.bytes) = headerFields eol header := by
  have hproper : ∀ line ∈ header.map (· ++ eol.bytes),
      Lines.IsLine isLF line ∧ Lines.Terminated isLF line := by
    intro line hline
    obtain ⟨l, hl, rfl⟩ := List.mem_map.mp hline
    rw [bytes_eq, ← List.append_assoc]
    have hLF : LF ∉ l ++ beforeLF eol := by
      rw [List.mem_append, not_or]
      exact ⟨(h l hl).2.1, not_mem_beforeLF eol⟩
    refine ⟨⟨by simp, ?_⟩, Lines.Terminated.append (Lines.terminated_singleton.mpr rfl)⟩
    intro b hb
    rw [List.dropLast_concat] at hb
    simp only [isLF, beq_eq_false_iff_ne]
    rintro rfl
    exact hLF hb
  have hseparator : ∀ line ∈ header.map (· ++ eol.bytes), isSeparator line = false := by
    intro line hline
    obtain ⟨l, hl, rfl⟩ := List.mem_map.mp hline
    rw [Bool.eq_false_iff]
    intro hblank
    have hstart := (h l hl).notBlankStart eol.bytes
    simp only [isSeparator, Bool.or_eq_true, beq_iff_eq] at hblank
    rcases hblank with hblank | hblank
    · rw [hblank] at hstart
      exact hstart.1 rfl
    · rw [hblank] at hstart
      exact hstart.2 ⟨rfl, rfl⟩
  have hlines : lines (linesText eol header) = header.map (· ++ eol.bytes) :=
    Lines.splitInclusive_flatten hproper
  have hblank : lines (linesText eol header ++ eol.bytes) =
      header.map (· ++ eol.bytes) ++ [eol.bytes] := by
    by_cases hne : header = []
    · subst hne
      exact lines_of_isSeparator (isSeparator_bytes eol)
    · have hterminated : Lines.Terminated isLF (linesText eol header) := by
        rw [linesText, ← List.dropLast_append_getLast hne, List.map_append, List.flatten_append]
        refine Lines.Terminated.append ?_
        rw [List.map_singleton, List.flatten_singleton]
        exact (hproper _ (List.mem_map_of_mem (List.getLast_mem hne))).2
      rw [lines, Lines.splitInclusive_append hterminated, ← lines, ← lines, hlines,
        lines_of_isSeparator (isSeparator_bytes eol)]
  rw [rawFields, headerFields, rawFields, fieldTexts, fieldTexts, hblank, hlines,
    fieldTextsOfLines_separator hseparator (isSeparator_bytes eol)]

end Header

/-- A part that starts with a blank line has no fields. -/
theorem rawFields_of_blank (eol : LineEnding) (body : Bytes) :
    rawFields (splitPartHeadersAndBody (eol.bytes ++ body)).1 = [] := by
  have hLF : ∀ v : Bytes, ∃ rest, (splitPartHeadersAndBody (LF :: v)).1 = LF :: rest := by
    intro v
    rw [splitPartHeadersAndBody]
    split_ifs <;> exact ⟨_, rfl⟩
  have hblank : ∀ separator rest : Bytes, isSeparator separator = true →
      rawFields (separator ++ rest) = [] := by
    intro separator rest hseparator
    rw [rawFields, fieldTexts, lines, Lines.splitInclusive_append (terminated_of_isSeparator hseparator),
      ← lines, lines_of_isSeparator hseparator, List.singleton_append, fieldTextsOfLines,
      if_pos hseparator]
    rfl
  obtain ⟨rest, hrest⟩ := hLF body
  cases eol with
  | Lf =>
    have hsplit : LineEnding.Lf.bytes ++ body = LF :: body := rfl
    rw [hsplit, hrest]
    exact hblank [LF] rest rfl
  | CrLf =>
    have hsplit : LineEnding.CrLf.bytes ++ body = [CR] ++ LF :: body := rfl
    rw [hsplit, splitPartHeadersAndBody_append (by decide), hrest]
    exact hblank [CR, LF] rest rfl

end ProcmailRs
