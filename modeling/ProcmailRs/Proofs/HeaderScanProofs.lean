import ProcmailRs.HeaderScan
import ProcmailRs.Proofs.MessageProofs

/-!
# Unfolding a header field by field

The loops that keep offsets into a header agree with the descriptions by physical lines: the iterator
gives the groups of lines that start with a line and go on with its continuation lines, and both
unfolding functions join the lines of each group. For a header that was read this makes unfolding
the whole header the same as unfolding its fields one by one.
-/

namespace ProcmailRs

namespace Scan

/-! ### Offsets and lines -/

theorem slice_append (front middle back : Bytes) :
    slice (front ++ middle ++ back) front.length (front ++ middle).length = middle := by
  rw [slice, List.take_left, List.drop_left]

theorem blankAt_append (front back : Bytes) :
    blankAt (front ++ back) front.length = isFolded back := by
  rw [blankAt, isFolded, List.getElem?_append_right (Nat.le_refl _), Nat.sub_self,
    List.head?_eq_getElem?]

theorem lineAt_append (front back : Bytes) :
    lineAt (front ++ back) front.length = (lines back).head? := by
  rw [lineAt, List.drop_left]

/-- Proper lines that are not there yet do not start with a continuation line. -/
theorem isFolded_flatten {line : Bytes} {rest : List Bytes} (h : line ≠ []) :
    isFolded (line :: rest).flatten = isFolded line := by
  rw [List.flatten_cons, isFolded_append h]

/-! ### Fields -/

/-- The loop over the continuation lines goes to the end of the last of them. -/
theorem continuationEnd_eq {ls : List Bytes} (h : Lines.Proper isLF ls) (front : Bytes)
    {rounds : Nat} (hrounds : ls.length ≤ rounds) :
    continuationEnd (front ++ ls.flatten) rounds front.length =
      some (front ++ (ls.takeWhile isFolded).flatten).length := by
  induction ls generalizing front rounds with
  | nil =>
    cases rounds with
    | zero => simp [continuationEnd]
    | succ rounds => simp [continuationEnd, blankAt]
  | cons line rest ih =>
    obtain ⟨hline, hterm, hrest⟩ := h
    cases rounds with
    | zero => simp at hrounds
    | succ rounds =>
      have hlines : lines (line :: rest).flatten = line :: rest := lines_flatten ⟨hline, hterm, hrest⟩
      rw [continuationEnd, blankAt_append, isFolded_flatten hline.1, lineAt_append, hlines]
      by_cases hfold : isFolded line = true
      · have hnext := @ih hrest (front ++ line) rounds (by simpa using hrounds)
        rw [List.append_assoc, List.length_append] at hnext
        simp only [hfold, if_true, List.head?_cons, List.flatten_cons, hnext]
        simp [hfold]
      · simp [hfold]

/-- The field at the start of some lines, and the lines behind it. -/
theorem fieldTextsFrom_eq (current : Bytes) (ls : List Bytes) :
    fieldTextsFrom current ls =
      (current ++ (ls.takeWhile isFolded).flatten) :: fieldTextsOfLines (ls.dropWhile isFolded) := by
  induction ls generalizing current with
  | nil => simp [fieldTextsFrom, fieldTextsOfLines]
  | cons line rest ih =>
    by_cases hfold : isFolded line = true
    · rw [fieldTextsFrom, if_pos hfold, ih]
      simp [hfold]
    · by_cases hsep : isSeparator line = true
      · simp [fieldTextsFrom, fieldTextsOfLines, hfold, hsep]
      · simp [fieldTextsFrom, fieldTextsOfLines, hfold, hsep]

theorem next_of_isSeparator {line : Bytes} {rest : List Bytes}
    (h : Lines.Proper isLF (line :: rest)) (hsep : isSeparator line = true) (front : Bytes) :
    next (front ++ (line :: rest).flatten) front.length = none := by
  have hline : line = [LF] ∨ line = [CR, LF] := by simpa [isSeparator] using hsep
  rw [next, lineAt_append, lines_flatten h]
  simp [hline]

theorem length_le_flatten {ls : List Bytes} (h : Lines.Proper isLF ls) :
    ls.length ≤ ls.flatten.length := by
  induction ls with
  | nil => exact Nat.le_refl _
  | cons line rest ih =>
    obtain ⟨hline, -, hrest⟩ := h
    have hpos : 0 < line.length := List.length_pos_iff.mpr hline.1
    have hle := ih hrest
    rw [List.length_cons, List.flatten_cons, List.length_append]
    omega

/-- One call of the iterator takes a line and its continuation lines. -/
theorem next_eq {line : Bytes} {rest : List Bytes} (h : Lines.Proper isLF (line :: rest))
    (hsep : isSeparator line = false) (front : Bytes) :
    next (front ++ (line :: rest).flatten) front.length =
      some (fieldFromBytes (line ++ (rest.takeWhile isFolded).flatten),
        (front ++ (line ++ (rest.takeWhile isFolded).flatten)).length) := by
  have hline : ¬ (line = [LF] ∨ line = [CR, LF]) := by simpa [isSeparator] using hsep
  have hparts : front ++ (line :: rest).flatten = front ++ line ++ rest.flatten := by
    rw [List.flatten_cons, List.append_assoc]
  have hsplit : front ++ line ++ rest.flatten =
      front ++ (line ++ (rest.takeWhile isFolded).flatten) ++ (rest.dropWhile isFolded).flatten := by
    rw [List.append_assoc, List.append_assoc, List.append_assoc, ← List.flatten_append,
      List.takeWhile_append_dropWhile]
  have hrounds : rest.length ≤ (front ++ line ++ rest.flatten).length := by
    have hle := length_le_flatten h.2.2
    rw [List.length_append]
    omega
  have hend := continuationEnd_eq h.2.2 (front ++ line) hrounds
  rw [next, lineAt_append, lines_flatten h, List.head?_cons]
  simp only [hline, if_false]
  rw [hparts, ← List.length_append, hend, List.append_assoc front line]
  simp only
  rw [hsplit, slice_append]

theorem proper_dropWhile {ls : List Bytes} (h : Lines.Proper isLF ls) :
    Lines.Proper isLF (ls.dropWhile isFolded) := by
  rw [← List.takeWhile_append_dropWhile (p := isFolded) (l := ls)] at h
  exact h.right

/-- The iterator gives the fields of the lines that are still to come. -/
theorem fieldsFrom_eq {rounds : Nat} {ls : List Bytes} (h : Lines.Proper isLF ls) (front : Bytes)
    (hrounds : ls.length < rounds) :
    fieldsFrom (front ++ ls.flatten) rounds front.length =
      (fieldTextsOfLines ls).map fieldFromBytes := by
  induction rounds generalizing ls front with
  | zero => omega
  | succ rounds ih =>
    cases ls with
    | nil => simp [fieldsFrom, next, lineAt, fieldTextsOfLines, lines]
    | cons line rest =>
      rw [fieldsFrom, fieldTextsOfLines]
      cases hsep : isSeparator line with
      | true =>
        rw [next_of_isSeparator h hsep, if_pos rfl]
        rfl
      | false =>
        have hlen : (rest.dropWhile isFolded).length < rounds := by
          have hle := (List.dropWhile_sublist (l := rest) isFolded).length_le
          rw [List.length_cons] at hrounds
          omega
        have hrest := ih (proper_dropWhile h.2.2)
          (front ++ (line ++ (rest.takeWhile isFolded).flatten)) hlen
        have hsplit : front ++ (line :: rest).flatten =
            front ++ (line ++ (rest.takeWhile isFolded).flatten) ++
              (rest.dropWhile isFolded).flatten := by
          rw [List.flatten_cons, List.append_assoc, List.append_assoc, ← List.flatten_append,
            List.takeWhile_append_dropWhile]
        rw [next_eq h hsep, fieldTextsFrom_eq, if_neg (by simp), List.map_cons, hsplit]
        exact congrArg _ hrest

/-- The iterator by offsets sees the fields that the lines form. -/
theorem fields_eq (header : Bytes) : fields header = rawFields header := by
  have hproper := proper_lines header
  have hlen : (lines header).length < header.length + 1 := by
    have hle := length_le_flatten hproper
    rw [flatten_lines] at hle
    omega
  have h := fieldsFrom_eq hproper [] hlen
  rwa [flatten_lines] at h

/-! ### Unfolding -/

theorem unfoldLines_cons {line : Bytes} {rest : List Bytes} (h : Lines.Proper isLF rest) :
    unfoldLines (line :: rest) =
      (if isFolded rest.flatten then stripLineEnding line ++ [SP] else line) ++
        unfoldLines rest := by
  cases rest with
  | nil => simp [unfoldLines, isFolded]
  | cons next rest => rw [unfoldLines, isFolded_flatten h.1.1]

/-- A terminated line is its bytes before the line feed and the line feed. -/
theorem exists_eq_append_LF {line : Bytes} (hline : Lines.IsLine isLF line)
    (hterm : Lines.Terminated isLF line) :
    ∃ text, line = text ++ [LF] ∧ ∀ b ∈ text, isLF b = false := by
  obtain ⟨text, rfl⟩ := (terminated_iff_suffix line).mp hterm
  refine ⟨text, rfl, fun b hb => hline.2 b ?_⟩
  rw [List.dropLast_concat]
  exact hb

theorem no_LF_of_not_terminated {line : Bytes} (hline : Lines.IsLine isLF line)
    (hterm : ¬ Lines.Terminated isLF line) : ∀ b ∈ line, isLF b = false := by
  obtain ⟨text, last, rfl⟩ := List.eq_nil_or_concat' line |>.resolve_left hline.1
  intro b hb
  rcases List.mem_append.mp hb with hb | hb
  · exact hline.2 b (by rwa [List.dropLast_concat])
  · obtain rfl := List.mem_singleton.mp hb
    simpa [Lines.Terminated] using hterm

theorem findIdx?_line {text : Bytes} (h : ∀ b ∈ text, isLF b = false) (rest : Bytes) :
    (text ++ [LF] ++ rest).findIdx? (· == LF) = some text.length := by
  have htext : text.findIdx? (· == LF) = none := List.findIdx?_eq_none_iff.mpr h
  rw [List.append_assoc, List.findIdx?_append, htext]
  simp [List.findIdx?_cons]

theorem getElem?_last (front rest : Bytes) (b : UInt8) :
    (front ++ [b] ++ rest)[(front ++ [b]).length - 1]? = some b := by
  rw [List.length_append, List.length_singleton, Nat.add_sub_cancel, List.append_assoc,
    List.getElem?_append_right (Nat.le_refl _), Nat.sub_self]
  rfl

/-- What stands before a line feed is taken over without a carriage return of the same line. -/
theorem slice_lineEnding {opened text : Bytes} (front rest : Bytes)
    (hopened : opened = [] ∨ Lines.Terminated isLF opened) :
    slice (front ++ opened ++ (text ++ [LF] ++ rest)) front.length
        (if (front ++ opened ++ text).length > front.length ∧
            (front ++ opened ++ (text ++ [LF] ++ rest))[(front ++ opened ++ text).length - 1]? =
              some CR
          then (front ++ opened ++ text).length - 1 else (front ++ opened ++ text).length) =
      opened ++ stripLineEnding (text ++ [LF]) := by
  have hraw : front ++ opened ++ (text ++ [LF] ++ rest) =
      front ++ (opened ++ text) ++ ([LF] ++ rest) := by simp only [List.append_assoc]
  have hnewline : front ++ opened ++ text = front ++ (opened ++ text) := List.append_assoc ..
  rw [hraw, hnewline]
  rcases List.eq_nil_or_concat' text with rfl | ⟨init, b, rfl⟩
  · -- the byte before the line feed, if any, ends the line before
    have hslice : slice (front ++ (opened ++ []) ++ ([LF] ++ rest)) front.length
        (front ++ (opened ++ [])).length = opened := by
      rw [slice_append, List.append_nil]
    rw [if_neg, hslice]
    · rw [show stripLineEnding ([] ++ [LF]) = [] from rfl, List.append_nil]
    · rintro ⟨hpos, hcr⟩
      rcases hopened with rfl | hterm
      · simp at hpos
      · obtain ⟨before, rfl⟩ := (terminated_iff_suffix opened).mp hterm
        rw [List.append_nil, ← List.append_assoc front, getElem?_last] at hcr
        exact absurd hcr (by decide)
  · have hparts : front ++ (opened ++ (init ++ [b])) = front ++ (opened ++ init) ++ [b] := by
      simp only [List.append_assoc]
    have hpos : (front ++ (opened ++ init) ++ [b]).length > front.length := by
      rw [List.length_append, List.length_append]
      simp only [List.length_singleton]
      omega
    rw [hparts, getElem?_last]
    by_cases hcr : b = CR
    · rw [if_pos ⟨hpos, by rw [hcr]⟩, hcr, List.append_assoc init,
        show [CR] ++ [LF] = [CR, LF] from rfl, stripLineEnding_CRLF,
        List.append_assoc _ [CR], @List.length_append _ _ [CR], List.length_singleton,
        Nat.add_sub_cancel, slice_append]
    · rw [if_neg (by simp [hcr]), ← hparts, slice_append, stripLineEnding_LF]
      rintro ⟨before, hbefore⟩
      exact hcr (List.singleton_inj.mp (List.append_inj' hbefore rfl).2).symm

/-- The loop over the line feeds. The lines of `opened` have been searched, but not taken over yet. -/
theorem unfoldFrom_eq {rounds : Nat} {ls : List Bytes} (h : Lines.Proper isLF ls)
    (front opened normalized : Bytes) (hopened : opened = [] ∨ Lines.Terminated isLF opened)
    (hrounds : ls.length < rounds) :
    unfoldFrom (front ++ opened ++ ls.flatten) rounds front.length (front ++ opened).length
      normalized = normalized ++ opened ++ unfoldLines ls := by
  induction ls generalizing rounds front opened normalized with
  | nil =>
    cases rounds with
    | zero => simp at hrounds
    | succ rounds => simp [unfoldFrom, unfoldLines]
  | cons line rest ih =>
    obtain ⟨hline, hterm, hrest⟩ := h
    cases rounds with
    | zero => simp at hrounds
    | succ rounds =>
      by_cases hlast : Lines.Terminated isLF line
      · obtain ⟨text, rfl, htext⟩ := exists_eq_append_LF hline hlast
        have hnewline : (front ++ opened).length + text.length = (front ++ opened ++ text).length :=
          List.length_append.symm
        have hscanned : (front ++ opened ++ text).length + 1 =
            (front ++ opened ++ (text ++ [LF])).length := by
          simp only [List.length_append, List.length_singleton]
          omega
        have hlen : rest.length < rounds := by simpa using hrounds
        rw [unfoldFrom, List.drop_left, List.flatten_cons, findIdx?_line htext]
        simp only [hnewline]
        rw [slice_lineEnding front rest.flatten hopened, hscanned,
          ← List.append_assoc (front ++ opened), blankAt_append, unfoldLines_cons hrest]
        split_ifs with hfold
        · have hnext := ih hrest (front ++ opened ++ (text ++ [LF])) []
            (normalized ++ (opened ++ stripLineEnding (text ++ [LF])) ++ [SP]) (Or.inl rfl) hlen
          rw [List.append_nil] at hnext
          rw [hnext]
          simp only [List.append_assoc, List.append_nil]
        · have hnext := ih hrest front (opened ++ (text ++ [LF])) normalized (Or.inr hlast.append) hlen
          rw [← List.append_assoc front] at hnext
          rw [hnext]
          simp only [List.append_assoc]
      · -- only the last line lacks a line feed
        obtain rfl : rest = [] := by
          by_contra hne
          exact hlast (hterm hne)
        have hnone : line.findIdx? (· == LF) = none :=
          List.findIdx?_eq_none_iff.mpr (no_LF_of_not_terminated hline hlast)
        rw [unfoldFrom, List.drop_left, List.flatten_singleton, hnone, List.append_assoc,
          List.drop_left]
        simp [unfoldLines]

/-- Both loops unfold the lines of the text. -/
theorem unfoldFrom_lines (raw : Bytes) :
    unfoldFrom raw (raw.length + 1) 0 0 [] = unfoldLines (lines raw) := by
  have hlen := length_le_flatten (proper_lines raw)
  rw [flatten_lines] at hlen
  have h := unfoldFrom_eq (proper_lines raw) [] [] [] (Or.inl rfl) (Nat.lt_succ_of_le hlen)
  rwa [flatten_lines] at h

/-! ### The tests for folding -/

/-- A continuation line starts behind a line feed. -/
theorem hasFolding_cons (byte : UInt8) (rest : Bytes) :
    hasFolding (byte :: rest) = (byte == LF && isFolded rest || hasFolding rest) := by
  have hlf : isLF byte = (byte == LF) := rfl
  cases hbyte : isLF byte with
  | true =>
    have hlines : lines (byte :: rest) = [byte] :: lines rest :=
      Lines.splitInclusive_cons_of_pos hbyte
    rw [hasFolding, hlines, ← hlf, hbyte, Bool.true_and, List.tail_cons, hasFolding]
    cases hrest : lines rest with
    | nil =>
      obtain rfl := lines_eq_nil.mp hrest
      rfl
    | cons first more =>
      rw [List.any_cons, isFolded_head_lines (by rw [hrest]; rfl), List.tail_cons]
  | false =>
    rw [← hlf, hbyte, Bool.false_and, Bool.false_or]
    cases hrest : lines rest with
    | nil =>
      obtain rfl := lines_eq_nil.mp hrest
      have hline : lines [byte] = [[byte]] := Lines.IsLine.splitInclusive_eq ⟨by simp, by simp⟩
      rw [hasFolding, hasFolding, hline]
      rfl
    | cons first more =>
      have hlines : lines (byte :: rest) = (byte :: first) :: more :=
        Lines.splitInclusive_cons_of_neg hbyte hrest
      rw [hasFolding, hasFolding, hlines, hrest]
      rfl

theorem windows_eq_hasFolding (raw : Bytes) :
    ((raw.zip raw.tail).any fun (first, second) => first == LF && isBlank second) =
      hasFolding raw := by
  induction raw with
  | nil => rfl
  | cons byte rest ih =>
    rw [hasFolding_cons, ← ih]
    cases rest with
    | nil => simp [isFolded]
    | cons next rest => rfl

/-- The search for a folded line succeeds when there is one. -/
theorem findSome?_isSome (front raw : Bytes) :
    ((raw.zipIdx front.length).findSome? fun (byte, index) =>
      if byte == LF && blankAt (front ++ raw) (index + 1) then some index else none).isSome =
      hasFolding raw := by
  induction raw generalizing front with
  | nil => rfl
  | cons byte rest ih =>
    have hnext := ih (front ++ [byte])
    have hblank : blankAt (front ++ byte :: rest) (front.length + 1) = isFolded rest := by
      have h := blankAt_append (front ++ [byte]) rest
      rwa [List.append_assoc, List.length_append] at h
    rw [List.append_assoc, List.length_append] at hnext
    rw [List.zipIdx_cons, List.findSome?_cons, hasFolding_cons]
    simp only [hblank]
    cases byte == LF && isFolded rest with
    | true => rfl
    | false => exact hnext

theorem isSome_foldedAt (raw : Bytes) : (foldedAt raw).isSome = hasFolding raw :=
  findSome?_isSome [] raw

theorem unfoldFieldBytes_eq (raw : Bytes) : unfoldFieldBytes raw = ProcmailRs.unfoldFieldBytes raw := by
  unfold unfoldFieldBytes ProcmailRs.unfoldFieldBytes
  rw [windows_eq_hasFolding, unfoldFrom_lines]
  cases hasFolding raw with
  | true => rfl
  | false => rfl

theorem normalizeFoldedHeader_eq (raw : Bytes) :
    normalizeFoldedHeader raw = ProcmailRs.normalizeFoldedHeader raw := by
  have hfound := isSome_foldedAt raw
  unfold normalizeFoldedHeader ProcmailRs.normalizeFoldedHeader
  rw [← hfound, unfoldFrom_lines]
  cases foldedAt raw with
  | none => rfl
  | some index => rfl

theorem blankAt_of_not_hasFolding {raw : Bytes} (h : hasFolding raw = false) {index : Nat}
    (hindex : raw[index]? = some LF) : blankAt raw (index + 1) = false := by
  induction raw generalizing index with
  | nil => simp at hindex
  | cons byte rest ih =>
    rw [hasFolding_cons, Bool.or_eq_false_iff] at h
    cases index with
    | zero =>
      obtain rfl : byte = LF := by simpa using hindex
      have hfold : isFolded rest = false := by simpa using h.1
      rw [← hfold]
      exact blankAt_append [LF] rest
    | succ index => exact ih h.2 (by simpa using hindex)

/-! ### Headers that were read -/

/-- Nothing follows the separator of a section. -/
theorem dropWhile_sectionLines (ls : List Bytes) :
    (sectionLines ls).1.dropWhile (fun line => !isSeparator line) = [] ∨
      ∃ separator, isSeparator separator = true ∧
        (sectionLines ls).1.dropWhile (fun line => !isSeparator line) = [separator] := by
  induction ls with
  | nil => exact Or.inl rfl
  | cons line rest ih =>
    unfold sectionLines
    split_ifs with hsep
    · exact Or.inr ⟨line, hsep, by simp [hsep]⟩
    · simpa [hsep] using ih

theorem not_isFolded_of_needsReindex {text : Bytes} {texts : List Bytes}
    (h : needsReindex (text :: texts) = false) : ∀ t ∈ texts, isFolded t = false := by
  induction texts generalizing text with
  | nil => simp
  | cons next rest ih =>
    obtain ⟨-, hfold, hruns⟩ := terminated_of_needsReindex h
    intro t ht
    rcases List.mem_cons.mp ht with rfl | ht
    · exact hfold
    · exact ih hruns t ht

/-- Unfolded fields are the lines of their concatenation. -/
theorem proper_map_unfoldFieldBytes {texts rest : List Bytes} (hfields : ∀ t ∈ texts, IsField t)
    (hruns : needsReindex texts = false) (hrest : Lines.Proper isLF rest)
    (hterm : rest ≠ [] → ∀ t ∈ texts, Lines.Terminated isLF t) :
    Lines.Proper isLF (texts.map ProcmailRs.unfoldFieldBytes ++ rest) := by
  induction texts with
  | nil => exact hrest
  | cons text texts ih =>
    obtain ⟨hline, hends, -⟩ := (hfields text (by simp)).isLine_unfoldFieldBytes
    have hfields' : ∀ t ∈ texts, IsField t := fun t ht => hfields t (by simp [ht])
    have hterm' : rest ≠ [] → ∀ t ∈ texts, Lines.Terminated isLF t :=
      fun hne t ht => hterm hne t (by simp [ht])
    cases texts with
    | nil => exact ⟨hline, fun hne => hends (hterm (by simpa using hne) text (by simp)), hrest⟩
    | cons next texts =>
      obtain ⟨htext, -, hruns'⟩ := terminated_of_needsReindex hruns
      exact ⟨hline, fun _ => hends htext, ih hfields' hruns' hterm'⟩

/-- A field ends as the last of its lines does. -/
theorem terminated_of_lines {text : Bytes} (hne : text ≠ [])
    (h : ∀ line ∈ lines text, Lines.Terminated isLF line) : Lines.Terminated isLF text := by
  obtain ⟨init, last, hlines⟩ := List.eq_nil_or_concat' (lines text) |>.resolve_left
    (mt lines_eq_nil.mp hne)
  rw [← flatten_lines text, hlines, List.flatten_append, List.flatten_singleton]
  exact (h last (by simp [hlines])).append

/-- The fields of a header and the lines behind them. -/
theorem fieldTexts_spec (header : Bytes) :
    (∀ text ∈ fieldTexts header, IsField text) ∧ needsReindex (fieldTexts header) = false ∧
      lines header = (fieldTexts header).flatMap lines ++ restLines header ∧
      (restLines header ≠ [] → ∀ text ∈ fieldTexts header, Lines.Terminated isLF text) := by
  obtain ⟨hflat, hfields, hruns⟩ := fieldTexts_headerContent_spec header
  rw [← fieldTexts_eq header] at hflat hfields hruns
  have hcontent : (fieldTexts header).flatMap lines = contentLines header := by
    rw [← lines_flatten_texts hruns, hflat, lines_headerContent]
  refine ⟨hfields, hruns, ?_, fun hne text htext => ?_⟩
  · rw [hcontent, contentLines_append_restLines]
  · have hproper := proper_lines header
    rw [← contentLines_append_restLines] at hproper
    refine terminated_of_lines (hfields text htext).ne_nil fun line hline => ?_
    refine hproper.terminated hne line ?_
    rw [← hcontent]
    exact List.mem_flatMap.mpr ⟨text, htext, hline⟩

/-- The lines of an unfolded header are its unfolded fields and its separator. -/
theorem lines_unfoldLines {header : Bytes}
    (hrest : restLines header = [] ∨
      ∃ separator, isSeparator separator = true ∧ restLines header = [separator]) :
    unfoldLines (lines header) =
        ((fieldTexts header).map ProcmailRs.unfoldFieldBytes).flatten ++ headerSeparator header ∧
      lines (unfoldLines (lines header)) =
        (fieldTexts header).map ProcmailRs.unfoldFieldBytes ++ restLines header ∧
      hasFolding (unfoldLines (lines header)) = false := by
  obtain ⟨hfields, hruns, hlines, hterm⟩ := fieldTexts_spec header
  have hfold : ∀ line ∈ restLines header, isFolded line = false := by
    rcases hrest with hnil | ⟨separator, hsep, hone⟩
    · simp [hnil]
    · intro line hline
      obtain rfl : line = separator := by simpa [hone] using hline
      exact isFolded_of_isSeparator hsep
  have hseparator : unfoldLines (restLines header) = headerSeparator header := by
    rcases hrest with hnil | ⟨separator, hsep, hone⟩
    · rw [headerSeparator, hnil]
      rfl
    · rw [headerSeparator, hone, List.flatten_singleton]
      rfl
  have hunfold : unfoldLines (lines header) =
      ((fieldTexts header).map ProcmailRs.unfoldFieldBytes).flatten ++ headerSeparator header := by
    rw [hlines, unfoldLines_flatMap_lines hruns
      (fun line hline => hfold line (List.mem_of_mem_head? hline))
      (fun text htext => (hfields text htext).ne_nil), hseparator]
  have hrestProper : Lines.Proper isLF (restLines header) := by
    have hproper := proper_lines header
    rw [hlines] at hproper
    exact hproper.right
  have hsplit : lines (unfoldLines (lines header)) =
      (fieldTexts header).map ProcmailRs.unfoldFieldBytes ++ restLines header := by
    rw [hunfold, headerSeparator, ← List.flatten_append]
    exact lines_flatten (proper_map_unfoldFieldBytes hfields hruns hrestProper hterm)
  refine ⟨hunfold, hsplit, ?_⟩
  rw [hasFolding, hsplit, List.any_eq_false]
  intro line hline
  rw [Bool.not_eq_true]
  cases htexts : fieldTexts header with
  | nil =>
    rw [htexts] at hline
    exact hfold line (List.mem_of_mem_tail hline)
  | cons text texts =>
    rw [htexts, List.map_cons, List.cons_append, List.tail_cons] at hline
    rcases List.mem_append.mp hline with hline | hline
    · obtain ⟨t, ht, rfl⟩ := List.mem_map.mp hline
      rw [htexts] at hfields hruns
      rw [(hfields t (by simp [ht])).isLine_unfoldFieldBytes.2.2]
      exact not_isFolded_of_needsReindex hruns t ht
    · exact hfold line hline

end Scan

/-- Unfolding a header that was read is unfolding its fields one by one. The result has one line for
each field, is not longer than the header and has no continuation lines left. -/
theorem Message.unfolded_header_eq {reader : Reader} {limits : MessageLimits} {head : MessageHead}
    {rest : Reader} (h : Message.readHeaders reader limits = .ok (head, rest)) :
    let header := head.asBytes
    let fields := Scan.fields header
    let unfolded := (Scan.normalizeFoldedHeader header).getD header
    let unfoldedFields := fields.map fun field => Scan.unfoldFieldBytes field.bytes
    ∃ separator, (separator = [] ∨ isSeparator separator = true) ∧
      header = (fields.map Field.bytes).flatten ++ separator ∧
      unfolded = unfoldedFields.flatten ++ separator ∧
      lines unfolded = unfoldedFields ++ lines separator ∧
      unfolded.length ≤ header.length ∧
      (∀ index, unfolded[index]? = some LF → Scan.blankAt unfolded (index + 1) = false) ∧
      Scan.normalizeFoldedHeader unfolded = none ∧
      Scan.unfoldFieldBytes unfolded = unfolded := by
  intro header fields unfolded unfoldedFields
  have hlines : lines header = (sectionLines (lines reader.content)).1 := by
    rw [show header = _ from (Message.readHeaders_eq_ok h).1, lines_sectionLines]
  have hrest : restLines header = [] ∨
      ∃ separator, isSeparator separator = true ∧ restLines header = [separator] := by
    have hsection := Scan.dropWhile_sectionLines (lines reader.content)
    rwa [← hlines] at hsection
  obtain ⟨hunfold, hsplit, hfolding⟩ := Scan.lines_unfoldLines hrest
  have hfields : fields = (fieldTexts header).map fieldFromBytes := Scan.fields_eq header
  have htexts : fields.map Field.bytes = fieldTexts header := by
    rw [hfields, List.map_map]
    exact List.map_id _
  have hunfoldedFields : unfoldedFields = (fieldTexts header).map unfoldFieldBytes := by
    rw [← htexts, List.map_map]
    exact List.map_congr_left fun field _ => Scan.unfoldFieldBytes_eq field.bytes
  have hunfolded : unfolded = unfoldLines (lines header) := by
    rw [← normalizeFoldedHeader_getD, ← Scan.normalizeFoldedHeader_eq]
  have hseparator : lines (headerSeparator header) = restLines header := lines_headerSeparator header
  rw [← hunfolded, ← hunfoldedFields] at hunfold hsplit
  rw [← hunfolded] at hfolding
  refine ⟨headerSeparator header, ?_, ?_, hunfold, ?_, ?_, ?_, ?_, ?_⟩
  · rcases hrest with hnil | ⟨separator, hsep, hone⟩
    · exact Or.inl (lines_eq_nil.mp (hseparator.trans hnil))
    · right
      rwa [headerSeparator, hone, List.flatten_singleton]
  · rw [htexts, fieldTexts_eq, (fieldTexts_headerContent_spec header).1,
      headerContent_append_headerSeparator]
  · rw [hseparator, hsplit]
  · rw [hunfolded]
    calc (unfoldLines (lines header)).length
        ≤ (lines header).flatten.length := length_unfoldLines_le (proper_lines header)
      _ = header.length := by rw [flatten_lines]
  · exact fun index hindex => Scan.blankAt_of_not_hasFolding hfolding hindex
  · rw [Scan.normalizeFoldedHeader_eq, normalizeFoldedHeader, hfolding]
    rfl
  · rw [Scan.unfoldFieldBytes_eq, unfoldFieldBytes, hfolding]
    rfl

/-- A field on two lines, whose first line ends in a second carriage return, and a separator. -/
theorem Message.unfolded_header_crlf :
    let header := strBytes "A: 1\r\r\n 2\r\nB:\r\n\r\n"
    ∃ separator, (separator = [] ∨ isSeparator separator = true) ∧
      header = ((Scan.fields header).map Field.bytes).flatten ++ separator ∧
      (Scan.normalizeFoldedHeader header).getD header =
        ((Scan.fields header).map fun field => Scan.unfoldFieldBytes field.bytes).flatten ++
          separator := by
  have hread : Message.readHeaders
      (Reader.cursor (strBytes "A: 1\r\r\n 2\r\nB:\r\n\r\nbody")) ⟨100, 100, 100, 100, 100⟩ =
      .ok (⟨.Input (strBytes "A: 1\r\r\n 2\r\nB:\r\n\r\n"),
        some (strBytes "A: 1\r  2\r\nB:\r\n\r\n"), ⟨100, 100, 100, 100, 100⟩⟩,
        Reader.cursor (strBytes "body")) := by
    decide +kernel
  obtain ⟨separator, hsep, hparts, hunfold, -⟩ := Message.unfolded_header_eq hread
  exact ⟨separator, hsep, hparts, hunfold⟩

end ProcmailRs
