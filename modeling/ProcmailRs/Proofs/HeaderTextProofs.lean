import ProcmailRs.HeaderText
import Mathlib.Data.List.TakeWhile

/-!
# Fields and lines of a header

The fields of a raw header are groups of its physical lines, and the lines before the separator are
exactly the lines of the fields. Conversely, a list of field texts is read back from its
concatenation when every text is a field, all but the last are terminated and none but the first
starts like a continuation line.
-/

namespace ProcmailRs

theorem endsWith_LF {text : Bytes} : endsWith text [LF] = true ↔ Lines.Terminated isLF text := by
  rw [terminated_iff_suffix, endsWith, List.isSuffixOf_iff_suffix]

theorem isSeparator_of_isFolded {line : Bytes} (h : isFolded line = true) :
    isSeparator line = false := by
  rw [Bool.eq_false_iff]
  intro hsep
  simp only [isSeparator, Bool.or_eq_true, beq_iff_eq] at hsep
  rcases hsep with rfl | rfl
  · exact absurd h (by decide)
  · exact absurd h (by decide)

/-- A line with anything else than its delimiter in it is not blank. -/
theorem isSeparator_of_mem {line : Bytes} {b : UInt8} (h : b ∈ line) (hlf : b ≠ LF) (hcr : b ≠ CR) :
    isSeparator line = false := by
  rw [Bool.eq_false_iff]
  intro hsep
  simp only [isSeparator, Bool.or_eq_true, beq_iff_eq] at hsep
  rcases hsep with rfl | rfl
  · exact hlf (by simpa using h)
  · rcases List.mem_cons.mp h with rfl | h
    · exact hcr rfl
    · exact hlf (by simpa using h)

theorem isFolded_of_isSeparator {line : Bytes} (h : isSeparator line = true) :
    isFolded line = false := by
  by_contra hfold
  rw [Bool.not_eq_false] at hfold
  rw [isSeparator_of_isFolded hfold] at h
  cases h

theorem lines_of_isSeparator {separator : Bytes} (h : isSeparator separator = true) :
    lines separator = [separator] := by
  simp only [isSeparator, Bool.or_eq_true, beq_iff_eq] at h
  rcases h with rfl | rfl
  · rfl
  · rfl

theorem terminated_of_isSeparator {separator : Bytes} (h : isSeparator separator = true) :
    Lines.Terminated isLF separator := by
  simp only [isSeparator, Bool.or_eq_true, beq_iff_eq] at h
  rcases h with rfl | rfl
  · rfl
  · rfl

theorem isFolded_append {text : Bytes} (h : text ≠ []) (rest : Bytes) :
    isFolded (text ++ rest) = isFolded text := by
  obtain ⟨byte, tail, rfl⟩ := List.exists_cons_of_ne_nil h
  rfl

theorem proper_lines (text : Bytes) : Lines.Proper isLF (lines text) :=
  Lines.proper_splitInclusive isLF text

theorem lines_flatten {ls : List Bytes} (h : Lines.Proper isLF ls) : lines ls.flatten = ls :=
  h.splitInclusive_flatten

theorem flatten_lines (text : Bytes) : (lines text).flatten = text :=
  Lines.flatten_splitInclusive text

theorem lines_eq_nil {text : Bytes} : lines text = [] ↔ text = [] :=
  Lines.splitInclusive_eq_nil

/-! ### Content and separator -/

/-- The lines before the first blank line. -/
def contentLines (header : Bytes) : List Bytes :=
  (lines header).takeWhile fun line => !isSeparator line

/-- The first blank line and what follows it. -/
def restLines (header : Bytes) : List Bytes :=
  (lines header).dropWhile fun line => !isSeparator line

/-- The bytes before the first blank line. -/
def headerContent (header : Bytes) : Bytes := (contentLines header).flatten

/-- The bytes from the first blank line on. -/
def headerSeparator (header : Bytes) : Bytes := (restLines header).flatten

theorem contentLines_append_restLines (header : Bytes) :
    contentLines header ++ restLines header = lines header :=
  List.takeWhile_append_dropWhile

theorem headerContent_append_headerSeparator (header : Bytes) :
    headerContent header ++ headerSeparator header = header := by
  rw [headerContent, headerSeparator, ← List.flatten_append, contentLines_append_restLines,
    flatten_lines]

theorem not_isSeparator_of_mem_contentLines {header line : Bytes}
    (h : line ∈ contentLines header) : isSeparator line = false := by
  simpa using List.mem_takeWhile_imp h

theorem proper_contentLines (header : Bytes) : Lines.Proper isLF (contentLines header) := by
  have h := proper_lines header
  rw [← contentLines_append_restLines] at h
  exact h.left

theorem lines_headerContent (header : Bytes) :
    lines (headerContent header) = contentLines header :=
  lines_flatten (proper_contentLines header)

theorem lines_headerSeparator (header : Bytes) :
    lines (headerSeparator header) = restLines header := by
  have h := proper_lines header
  rw [← contentLines_append_restLines] at h
  exact lines_flatten h.right

theorem separatorStartFrom_eq (start : Nat) (ls : List Bytes) :
    (separatorStartFrom start ls).getD (start + ls.flatten.length) =
      start + (ls.takeWhile fun line => !isSeparator line).flatten.length := by
  induction ls generalizing start with
  | nil => rfl
  | cons line rest ih =>
    by_cases hsep : isSeparator line = true
    · simp [separatorStartFrom, hsep]
    · simp only [separatorStartFrom, hsep, List.flatten_cons, List.length_append]
      rw [List.takeWhile_cons_of_pos (by simpa using hsep), ← Nat.add_assoc]
      have := ih (start + line.length)
      simpa [Nat.add_assoc] using this

theorem splitFields_eq (header : Bytes) :
    splitFields header =
      (rawFields (headerContent header), headerSeparator header, preferredLineEnding header) := by
  have hstart : (headerSeparatorStart header).getD header.length =
      (headerContent header).length := by
    have := separatorStartFrom_eq 0 (lines header)
    simpa [flatten_lines, headerSeparatorStart, headerContent, contentLines] using this
  have hparts := headerContent_append_headerSeparator header
  have htake : header.take (headerContent header).length = headerContent header := by
    have := @List.take_left _ (headerContent header) (headerSeparator header)
    rwa [hparts] at this
  have hdrop : header.drop (headerContent header).length = headerSeparator header := by
    have := @List.drop_left _ (headerContent header) (headerSeparator header)
    rwa [hparts] at this
  simp only [splitFields, hstart, htake, hdrop]

/-! ### Fields are groups of lines -/

/-- The text is one field: a line that does not end the header and its continuation lines. -/
def IsField (text : Bytes) : Prop :=
  ∃ first rest, lines text = first :: rest ∧ isSeparator first = false ∧
    ∀ line ∈ rest, isFolded line = true

theorem IsField.ne_nil {text : Bytes} (h : IsField text) : text ≠ [] := by
  obtain ⟨first, rest, hlines, -⟩ := h
  rintro rfl
  cases hlines

theorem IsField.not_isSeparator {text : Bytes} (h : IsField text) :
    ∀ line ∈ lines text, isSeparator line = false := by
  obtain ⟨first, rest, hlines, hfirst, hrest⟩ := h
  intro line hline
  rw [hlines] at hline
  rcases List.mem_cons.mp hline with rfl | hline
  · exact hfirst
  · exact isSeparator_of_isFolded (hrest line hline)

theorem isField_line {line : Bytes} (hline : Lines.IsLine isLF line)
    (hsep : isSeparator line = false) : IsField line :=
  ⟨line, [], hline.splitInclusive_eq, hsep, by simp⟩

theorem IsField.append {text line : Bytes} (h : IsField text)
    (hterm : Lines.Terminated isLF text) (hline : Lines.IsLine isLF line)
    (hfold : isFolded line = true) : IsField (text ++ line) := by
  obtain ⟨first, rest, hlines, hfirst, hrest⟩ := h
  refine ⟨first, rest ++ [line], ?_, hfirst, ?_⟩
  · rw [lines_append hterm, hlines, lines, hline.splitInclusive_eq]
    rfl
  · intro l hl
    rcases List.mem_append.mp hl with hl | hl
    · exact hrest l hl
    · obtain rfl : l = line := by simpa using hl
      exact hfold

/-- Grouping the lines behind a begun field. -/
theorem fieldTextsFrom_spec {current : Bytes} {rest : List Bytes} (hcurrent : IsField current)
    (hproper : Lines.Proper isLF rest) (hterm : rest ≠ [] → Lines.Terminated isLF current)
    (hsep : ∀ line ∈ rest, isSeparator line = false) :
    (fieldTextsFrom current rest).flatten = current ++ rest.flatten ∧
    (∀ text ∈ fieldTextsFrom current rest, IsField text) ∧
    needsReindex (fieldTextsFrom current rest) = false ∧
    ∃ text texts, fieldTextsFrom current rest = text :: texts ∧
      isFolded text = isFolded current := by
  induction rest generalizing current with
  | nil => exact ⟨by simp [fieldTextsFrom], by simpa [fieldTextsFrom] using hcurrent, rfl,
      current, [], rfl, rfl⟩
  | cons line rest ih =>
    obtain ⟨hline, hlineTerm, hrest⟩ := hproper
    have hcurrentTerm := hterm (by simp)
    have hsepRest : ∀ l ∈ rest, isSeparator l = false := fun l hl => hsep l (by simp [hl])
    by_cases hfold : isFolded line = true
    · have hterm' : rest ≠ [] → Lines.Terminated isLF (current ++ line) := by
        intro hne
        exact (hlineTerm hne).append
      obtain ⟨hflat, hfields, hruns, text, texts, heq, hhead⟩ :=
        ih (hcurrent.append hcurrentTerm hline hfold) hrest hterm' hsepRest
      rw [fieldTextsFrom, if_pos hfold]
      refine ⟨?_, hfields, hruns, text, texts, heq, ?_⟩
      · rw [hflat, List.flatten_cons, List.append_assoc]
      · rw [hhead, isFolded_append hcurrent.ne_nil]
    · have hlineSep := hsep line (by simp)
      obtain ⟨hflat, hfields, hruns, text, texts, heq, hhead⟩ :=
        ih (isField_line hline hlineSep) hrest hlineTerm hsepRest
      rw [fieldTextsFrom, if_neg hfold, if_neg (by simp [hlineSep])]
      refine ⟨?_, ?_, ?_, current, _, rfl, rfl⟩
      · rw [List.flatten_cons, hflat, List.flatten_cons]
      · intro t ht
        rcases List.mem_cons.mp ht with rfl | ht
        · exact hcurrent
        · exact hfields t ht
      · rw [heq] at hruns ⊢
        simp only [needsReindex, hruns, hhead, endsWith_LF.mpr hcurrentTerm]
        simpa using hfold

/-- The fields of lines without a separator add up to the lines, are fields, and stay apart when
they are read back. -/
theorem fieldTextsOfLines_spec {ls : List Bytes} (hproper : Lines.Proper isLF ls)
    (hsep : ∀ line ∈ ls, isSeparator line = false) :
    (fieldTextsOfLines ls).flatten = ls.flatten ∧
    (∀ text ∈ fieldTextsOfLines ls, IsField text) ∧
    needsReindex (fieldTextsOfLines ls) = false := by
  cases ls with
  | nil => exact ⟨rfl, by simp [fieldTextsOfLines], rfl⟩
  | cons line rest =>
    obtain ⟨hline, hterm, hrest⟩ := hproper
    have hlineSep := hsep line (by simp)
    obtain ⟨hflat, hfields, hruns, -⟩ := fieldTextsFrom_spec (isField_line hline hlineSep) hrest
      hterm fun l hl => hsep l (by simp [hl])
    rw [fieldTextsOfLines, if_neg (by simp [hlineSep])]
    exact ⟨hflat, hfields, hruns⟩

theorem fieldTexts_headerContent_spec (header : Bytes) :
    (fieldTexts (headerContent header)).flatten = headerContent header ∧
    (∀ text ∈ fieldTexts (headerContent header), IsField text) ∧
    needsReindex (fieldTexts (headerContent header)) = false := by
  rw [fieldTexts, lines_headerContent]
  exact fieldTextsOfLines_spec (proper_contentLines header)
    fun _ hline => not_isSeparator_of_mem_contentLines hline

/-! ### Reading fields back -/

theorem fieldTextsFrom_continuation {current : Bytes} {cont rest : List Bytes}
    (h : ∀ line ∈ cont, isFolded line = true) :
    fieldTextsFrom current (cont ++ rest) = fieldTextsFrom (current ++ cont.flatten) rest := by
  induction cont generalizing current with
  | nil => simp
  | cons line cont ih =>
    rw [List.cons_append, fieldTextsFrom, if_pos (h line (by simp)),
      ih fun l hl => h l (by simp [hl]), List.flatten_cons, List.append_assoc]

theorem fieldTextsFrom_separator {current : Bytes} {ls rest : List Bytes} {separator : Bytes}
    (h : ∀ line ∈ ls, isSeparator line = false) (hsep : isSeparator separator = true) :
    fieldTextsFrom current (ls ++ separator :: rest) = fieldTextsFrom current ls := by
  induction ls generalizing current with
  | nil => simp [fieldTextsFrom, isFolded_of_isSeparator hsep, hsep]
  | cons line ls ih =>
    have hline := h line (by simp)
    have htail : ∀ l ∈ ls, isSeparator l = false := fun l hl => h l (by simp [hl])
    simp only [List.cons_append, fieldTextsFrom, hline, ih htail]

theorem fieldTextsOfLines_separator {ls rest : List Bytes} {separator : Bytes}
    (h : ∀ line ∈ ls, isSeparator line = false) (hsep : isSeparator separator = true) :
    fieldTextsOfLines (ls ++ separator :: rest) = fieldTextsOfLines ls := by
  cases ls with
  | nil => simp [fieldTextsOfLines, hsep]
  | cons line ls =>
    have hline := h line (by simp)
    have htail : ∀ l ∈ ls, isSeparator l = false := fun l hl => h l (by simp [hl])
    simp only [List.cons_append, fieldTextsOfLines, hline, fieldTextsFrom_separator htail hsep]

theorem isSeparator_head_restLines {header line : Bytes} {rest : List Bytes}
    (h : restLines header = line :: rest) : isSeparator line = true := by
  have := List.head?_dropWhile_not (fun line => !isSeparator line) (lines header)
  rw [show (lines header).dropWhile (fun line => !isSeparator line) = line :: rest from h] at this
  simpa using this

/-- The iteration over a raw header sees the fields before the separator. -/
theorem fieldTexts_eq (header : Bytes) : fieldTexts header = fieldTexts (headerContent header) := by
  have hsep : ∀ line ∈ contentLines header, isSeparator line = false :=
    fun _ hline => not_isSeparator_of_mem_contentLines hline
  rw [fieldTexts, fieldTexts, lines_headerContent, ← contentLines_append_restLines]
  cases hrest : restLines header with
  | nil => rw [List.append_nil]
  | cons line rest => exact fieldTextsOfLines_separator hsep (isSeparator_head_restLines hrest)

/-- A list of texts that stay apart consists of terminated texts up to the last one. -/
theorem terminated_of_needsReindex {text next : Bytes} {rest : List Bytes}
    (h : needsReindex (text :: next :: rest) = false) :
    Lines.Terminated isLF text ∧ isFolded next = false ∧ needsReindex (next :: rest) = false := by
  simp only [needsReindex, Bool.or_eq_false_iff, Bool.not_eq_false'] at h
  exact ⟨endsWith_LF.mp h.1.2, h.1.1, h.2⟩

theorem lines_flatten_texts {texts : List Bytes} (h : needsReindex texts = false) :
    lines texts.flatten = texts.flatMap lines := by
  induction texts with
  | nil => rfl
  | cons text texts ih =>
    cases texts with
    | nil => simp
    | cons next rest =>
      obtain ⟨hterm, -, hruns⟩ := terminated_of_needsReindex h
      rw [List.flatten_cons, lines_append hterm, ih hruns]
      rfl

theorem fieldTextsFrom_texts {text : Bytes} {texts : List Bytes}
    (hfields : ∀ t ∈ texts, IsField t) (hruns : needsReindex (text :: texts) = false) :
    fieldTextsFrom text (texts.flatMap lines) = text :: texts := by
  induction texts generalizing text with
  | nil => rfl
  | cons next rest ih =>
    obtain ⟨-, hfold, hruns'⟩ := terminated_of_needsReindex hruns
    obtain ⟨first, cont, hlines, hsep, hcont⟩ := hfields next (by simp)
    have hnext : next = first ++ cont.flatten := by
      rw [← flatten_lines next, hlines, List.flatten_cons]
    have hline : Lines.IsLine isLF first :=
      Lines.isLine_of_mem (l := next) (show first ∈ lines next by rw [hlines]; simp)
    have hfirst : isFolded first = false := by
      rw [← hfold, hnext, isFolded_append hline.1]
    rw [List.flatMap_cons, hlines, List.cons_append, fieldTextsFrom, if_neg (by simp [hfirst]),
      if_neg (by simp [hsep]), fieldTextsFrom_continuation hcont, ← hnext,
      ih (fun t ht => hfields t (by simp [ht])) hruns']

/-- Field texts that stay apart are the fields of their concatenation. -/
theorem fieldTexts_flatten {texts : List Bytes} (hfields : ∀ t ∈ texts, IsField t)
    (hruns : needsReindex texts = false) : fieldTexts texts.flatten = texts := by
  rw [fieldTexts, lines_flatten_texts hruns]
  cases texts with
  | nil => rfl
  | cons text texts =>
    obtain ⟨first, cont, hlines, hsep, hcont⟩ := hfields text (by simp)
    have htext : text = first ++ cont.flatten := by
      rw [← flatten_lines text, hlines, List.flatten_cons]
    rw [List.flatMap_cons, hlines, List.cons_append, fieldTextsOfLines, if_neg (by simp [hsep]),
      fieldTextsFrom_continuation hcont, ← htext]
    exact fieldTextsFrom_texts (fun t ht => hfields t (by simp [ht])) hruns

/-- The iteration stops at the end of a terminated field when no continuation line follows. -/
theorem fieldTexts_append {field rest : Bytes} (hfield : IsField field)
    (hterm : Lines.Terminated isLF field) (hrest : isFolded rest = false) :
    fieldTexts (field ++ rest) = field :: fieldTexts rest := by
  obtain ⟨first, cont, hlines, hsep, hcont⟩ := hfield
  have htext : field = first ++ cont.flatten := by
    rw [← flatten_lines field, hlines, List.flatten_cons]
  rw [fieldTexts, lines_append hterm, hlines, List.cons_append, fieldTextsOfLines,
    if_neg (by simp [hsep]), fieldTextsFrom_continuation hcont, ← htext, fieldTexts]
  cases hl : lines rest with
  | nil => rfl
  | cons line ls =>
    have hne : line ≠ [] := (Lines.isLine_of_mem (l := rest) (by
      show line ∈ lines rest
      rw [hl]
      simp)).1
    have hhead : isFolded line = false := by
      rw [← hrest, ← flatten_lines rest, hl, List.flatten_cons, isFolded_append hne]
    rw [fieldTextsFrom, fieldTextsOfLines, if_neg (by simp [hhead])]
    split_ifs
    · rfl
    · rfl

/-! ### Unfolding -/

/-- Only the delimiter of a terminated line is stripped, so what is left has none. -/
theorem stripLineEnding_no_LF {line : Bytes} (hline : Lines.IsLine isLF line)
    (hterm : Lines.Terminated isLF line) : ∀ b ∈ stripLineEnding line, isLF b = false := by
  have htake : ∀ k, 1 ≤ k → ∀ b ∈ line.take (line.length - k), isLF b = false := by
    intro k hk b hb
    refine hline.2 b ?_
    rw [List.dropLast_eq_take]
    exact List.take_subset_take_left line (by omega) hb
  unfold stripLineEnding
  split_ifs with hcrlf hlf
  · exact htake 2 (by omega)
  · exact htake 1 le_rfl
  · exact absurd (endsWith_LF.mpr hterm) hlf

theorem isLine_append {text line : Bytes} (htext : ∀ b ∈ text, isLF b = false)
    (hline : Lines.IsLine isLF line) : Lines.IsLine isLF (text ++ line) := by
  induction text with
  | nil => exact hline
  | cons b text ih => exact (ih fun b hb => htext b (by simp [hb])).cons (htext b (by simp))

/-- Folded lines become one line, which is terminated when the last of them is. -/
theorem unfoldLines_spec {first : Bytes} {cont : List Bytes}
    (hproper : Lines.Proper isLF (first :: cont)) (hcont : ∀ line ∈ cont, isFolded line = true) :
    Lines.IsLine isLF (unfoldLines (first :: cont)) ∧
      (Lines.Terminated isLF (first :: cont).flatten →
        Lines.Terminated isLF (unfoldLines (first :: cont))) ∧
      (cont ≠ [] → SP ∈ unfoldLines (first :: cont)) := by
  induction cont generalizing first with
  | nil => exact ⟨hproper.1, by simp [unfoldLines], fun hne => absurd rfl hne⟩
  | cons next rest ih =>
    obtain ⟨hline, hterm, hrest⟩ := hproper
    obtain ⟨hjoined, hend, -⟩ := ih hrest fun line hl => hcont line (by simp [hl])
    have hfold : isFolded next = true := hcont next (by simp)
    have hstrip := stripLineEnding_no_LF hline (hterm (by simp))
    have hfront : ∀ b ∈ stripLineEnding first ++ [SP], isLF b = false := by
      intro b hb
      rcases List.mem_append.mp hb with hb | hb
      · exact hstrip b hb
      · obtain rfl : b = SP := by simpa using hb
        decide
    rw [unfoldLines, if_pos hfold]
    refine ⟨isLine_append hfront hjoined, fun hflat => ?_, fun _ => by simp⟩
    have hne : (next :: rest).flatten ≠ [] := by
      have hnext := hrest.1.1
      simp [hnext]
    have hlast : Lines.Terminated isLF (next :: rest).flatten := by
      unfold Lines.Terminated at *
      rwa [List.flatten_cons, List.getLast?_append_of_ne_nil _ hne] at hflat
    exact (hend hlast).append

/-- What does not start with a continuation line is unfolded on its own. -/
theorem unfoldLines_append {ls rest : List Bytes} (h : ∀ line ∈ rest.head?, isFolded line = false) :
    unfoldLines (ls ++ rest) = unfoldLines ls ++ unfoldLines rest := by
  induction ls with
  | nil => rfl
  | cons line ls ih =>
    cases ls with
    | nil =>
      cases rest with
      | nil => simp [unfoldLines]
      | cons next rest =>
        have hnext : isFolded next = false := h next (by simp)
        simp [unfoldLines, hnext]
    | cons next ls =>
      simp only [List.cons_append] at ih ⊢
      rw [unfoldLines, unfoldLines, ih, List.append_assoc]

/-- Without continuation lines there is nothing to unfold. -/
theorem unfoldLines_of_forall_not {first : Bytes} {ls : List Bytes}
    (h : ∀ line ∈ ls, isFolded line = false) :
    unfoldLines (first :: ls) = (first :: ls).flatten := by
  induction ls generalizing first with
  | nil => simp [unfoldLines]
  | cons next rest ih =>
    have hnext : isFolded next = false := h next (by simp)
    rw [unfoldLines, if_neg (by simp [hnext]), ih fun line hl => h line (by simp [hl])]
    rfl

theorem unfoldLines_of_not_hasFolding {raw : Bytes} (h : hasFolding raw = false) :
    unfoldLines (lines raw) = raw := by
  cases hlines : lines raw with
  | nil =>
    obtain rfl := lines_eq_nil.mp hlines
    rfl
  | cons first rest =>
    have hrest : ∀ line ∈ rest, isFolded line = false := by
      simpa [hasFolding, hlines] using h
    rw [unfoldLines_of_forall_not hrest, ← hlines, flatten_lines]

theorem unfoldFieldBytes_eq (raw : Bytes) : unfoldFieldBytes raw = unfoldLines (lines raw) := by
  unfold unfoldFieldBytes
  split_ifs with h
  · rfl
  · rw [unfoldLines_of_not_hasFolding (by simpa using h)]

theorem normalizeFoldedHeader_getD (raw : Bytes) :
    (normalizeFoldedHeader raw).getD raw = unfoldLines (lines raw) := by
  unfold normalizeFoldedHeader
  split_ifs with h
  · rfl
  · rw [unfoldLines_of_not_hasFolding (by simpa using h), Option.getD_none]

theorem stripLineEnding_LF {text : Bytes} (h : ¬ [CR] <:+ text) :
    stripLineEnding (text ++ [LF]) = text := by
  have hcrlf : ¬ endsWith (text ++ [LF]) [CR, LF] = true := by
    rw [endsWith, List.isSuffixOf_iff_suffix]
    rintro ⟨init, hinit⟩
    have heq : (init ++ [CR]) ++ [LF] = text ++ [LF] := by
      rw [← hinit, List.append_assoc]
      rfl
    exact h ⟨init, List.append_cancel_right heq⟩
  have hlf : endsWith (text ++ [LF]) [LF] = true := by
    rw [endsWith, List.isSuffixOf_iff_suffix]
    exact List.suffix_append _ _
  rw [stripLineEnding, if_neg hcrlf, if_pos hlf]
  simp

theorem stripLineEnding_CRLF (text : Bytes) : stripLineEnding (text ++ [CR, LF]) = text := by
  have hcrlf : endsWith (text ++ [CR, LF]) [CR, LF] = true := by
    rw [endsWith, List.isSuffixOf_iff_suffix]
    exact List.suffix_append _ _
  rw [stripLineEnding, if_pos hcrlf]
  simp

/-- A delimiter has at least the byte that replaces it. -/
theorem length_stripLineEnding_lt {line : Bytes} (h : Lines.Terminated isLF line) :
    (stripLineEnding line).length < line.length := by
  have hpos : 0 < line.length := List.length_pos_iff.mpr h.ne_nil
  unfold stripLineEnding
  split_ifs with hcrlf hlf
  · rw [List.length_take]
    omega
  · rw [List.length_take]
    omega
  · exact absurd (endsWith_LF.mpr h) hlf

theorem length_unfoldLines_le {ls : List Bytes} (h : Lines.Proper isLF ls) :
    (unfoldLines ls).length ≤ ls.flatten.length := by
  induction ls with
  | nil => exact Nat.le_refl _
  | cons line rest ih =>
    cases rest with
    | nil => simp [unfoldLines]
    | cons next rest =>
      obtain ⟨-, hterm, hrest⟩ := h
      have hstrip := length_stripLineEnding_lt (hterm (by simp))
      have hle := ih hrest
      rw [unfoldLines, List.flatten_cons, List.length_append, List.length_append]
      split_ifs
      · rw [List.length_append, List.length_singleton]
        omega
      · omega

/-- A line that is stripped to nothing is blank. -/
theorem stripLineEnding_ne_nil {line : Bytes} (hline : line ≠ []) (hsep : isSeparator line = false) :
    stripLineEnding line ≠ [] := by
  simp only [isSeparator, Bool.or_eq_false_iff, beq_eq_false_iff_ne] at hsep
  have hsuffix : ∀ suffix : Bytes, endsWith line suffix = true → line ≠ suffix →
      line.take (line.length - suffix.length) ≠ [] := by
    intro suffix hends hne
    obtain ⟨init, rfl⟩ := List.isSuffixOf_iff_suffix.mp hends
    rw [List.length_append, Nat.add_sub_cancel, List.take_left]
    rintro rfl
    exact hne rfl
  unfold stripLineEnding
  split_ifs with hcrlf hlf
  · exact hsuffix [CR, LF] hcrlf hsep.2
  · exact hsuffix [LF] hlf hsep.1
  · exact hline

/-- An unfolded field starts as its first line does. -/
theorem isFolded_unfoldLines {first : Bytes} (hfirst : first ≠ []) (hsep : isSeparator first = false)
    (rest : List Bytes) : isFolded (unfoldLines (first :: rest)) = isFolded first := by
  have hstart : ∀ tail, isFolded (stripLineEnding first ++ tail) = isFolded first := by
    intro tail
    have hne := stripLineEnding_ne_nil hfirst hsep
    obtain ⟨k, hk⟩ : ∃ k, stripLineEnding first = first.take k := by
      unfold stripLineEnding
      split_ifs
      · exact ⟨_, rfl⟩
      · exact ⟨_, rfl⟩
      · exact ⟨first.length, (List.take_length ..).symm⟩
    rw [isFolded_append hne]
    calc isFolded (stripLineEnding first)
        = isFolded (stripLineEnding first ++ first.drop k) := (isFolded_append hne _).symm
      _ = isFolded first := by rw [hk, List.take_append_drop]
  cases rest with
  | nil => rfl
  | cons next rest =>
    rw [unfoldLines]
    split_ifs
    · rw [List.append_assoc, hstart]
    · rw [isFolded_append hfirst]

/-! ### Unfolding field by field -/

/-- An unfolded field is one line. -/
theorem IsField.isLine_unfoldFieldBytes {text : Bytes} (h : IsField text) :
    Lines.IsLine isLF (unfoldFieldBytes text) ∧
      (Lines.Terminated isLF text → Lines.Terminated isLF (unfoldFieldBytes text)) ∧
      isFolded (unfoldFieldBytes text) = isFolded text := by
  obtain ⟨first, cont, hlines, hsep, hcont⟩ := h
  have hproper := proper_lines text
  have hflat := flatten_lines text
  rw [hlines] at hproper hflat
  obtain ⟨hline, hterm, -⟩ := unfoldLines_spec hproper hcont
  have hfirst : first ≠ [] := hproper.1.1
  rw [unfoldFieldBytes_eq, hlines]
  refine ⟨hline, ?_, ?_⟩
  · rw [← hflat]
    exact hterm
  · rw [isFolded_unfoldLines hfirst hsep, ← hflat, List.flatten_cons, isFolded_append hfirst]

/-- A text starts as its first line does. -/
theorem isFolded_head_lines {text line : Bytes} (h : line ∈ (lines text).head?) :
    isFolded line = isFolded text := by
  obtain ⟨rest, hlines⟩ := List.head?_eq_some_iff.mp h
  have hline : Lines.IsLine isLF line :=
    Lines.isLine_of_mem (l := text) (show line ∈ lines text by rw [hlines]; simp)
  rw [← flatten_lines text, hlines, List.flatten_cons, isFolded_append hline.1]

/-- Texts that stay apart are unfolded one by one. -/
theorem unfoldLines_flatMap_lines {texts rest : List Bytes} (h : needsReindex texts = false)
    (hrest : ∀ line ∈ rest.head?, isFolded line = false) (hne : ∀ text ∈ texts, text ≠ []) :
    unfoldLines (texts.flatMap lines ++ rest) =
      (texts.map unfoldFieldBytes).flatten ++ unfoldLines rest := by
  induction texts with
  | nil => rfl
  | cons text texts ih =>
    have hne' : ∀ t ∈ texts, t ≠ [] := fun t ht => hne t (by simp [ht])
    have hruns : needsReindex texts = false := by
      cases texts with
      | nil => rfl
      | cons next texts => exact (terminated_of_needsReindex h).2.2
    have hhead : ∀ line ∈ (texts.flatMap lines ++ rest).head?, isFolded line = false := by
      cases texts with
      | nil => simpa using hrest
      | cons next texts =>
        obtain ⟨-, hfold, -⟩ := terminated_of_needsReindex h
        obtain ⟨line, ls, hlines⟩ := List.exists_cons_of_ne_nil (mt lines_eq_nil.mp (hne' next (by simp)))
        intro l hl
        rw [List.flatMap_cons, hlines] at hl
        rw [← hfold]
        exact isFolded_head_lines (by rw [hlines]; exact hl)
    rw [List.flatMap_cons, List.append_assoc, unfoldLines_append hhead, ih hruns hne',
      ← unfoldFieldBytes_eq, List.map_cons, List.flatten_cons, List.append_assoc]

end ProcmailRs
