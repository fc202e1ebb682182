import ProcmailRs.HeaderEdit.Proofs.FramingProofs
import ProcmailRs.Proofs.ReadingProofs

/-!
# Validation agrees with the reader

The validator of an edited header scans the bytes of its slices one by one, the reader takes lines from
buffered pieces. On a header that ends with its first blank line both accept the same bytes.
-/

namespace ProcmailRs

theorem checkLimit_of_le {size limit : Nat} (h : size ≤ limit) (kind : MessageLimit) :
    checkLimit size limit kind = .ok () := if_neg (Nat.not_lt.mpr h)

theorem addSize_of_le {a b : Nat} (h : a + b ≤ usizeMax) : addSize a b = .ok (a + b) :=
  addSize_eq_ok.mpr ⟨h, rfl⟩

theorem validateFieldLine_of_fits {line : Bytes} {fieldSize : Nat} {limits : MessageLimits}
    (husize : nextFieldSize fieldSize line ≤ usizeMax)
    (hlimit : nextFieldSize fieldSize line ≤ limits.headerFieldSize) :
    validateFieldLine line.head? line.length fieldSize limits =
      .ok (nextFieldSize fieldSize line) := by
  unfold nextFieldSize at *
  unfold validateFieldLine
  by_cases hfold : isFolded line = true
  · rw [if_pos hfold] at husize hlimit ⊢
    rw [if_pos (show line.head?.any isBlank = true from hfold), addSize_of_le husize]
    simp only [ok_bind, checkLimit_of_le hlimit]
  · rw [if_neg hfold] at husize hlimit ⊢
    rw [if_neg (show ¬ line.head?.any isBlank = true from hfold)]
    simp only [ok_bind, checkLimit_of_le hlimit]

/-- The scan accepts lines within the limits; `line` is the part of the current line it has passed. -/
theorem validateBytes_of_within {limits : MessageLimits} {bytes line : Bytes}
    {first : Option UInt8} {fieldSize : Nat} (hline : ∀ b ∈ line, isLF b = false)
    (hfirst : line ≠ [] → first = line.head?)
    (h : LinesWithin limits fieldSize (lines (line ++ bytes))) :
    validateBytes limits line.length first fieldSize bytes = .ok () := by
  induction bytes generalizing line first fieldSize with
  | nil =>
    rw [List.append_nil] at h
    cases line with
    | nil => rfl
    | cons b l =>
      rw [show lines (b :: l) = [b :: l] from
        Lines.splitInclusive_of_forall_not (by simp) hline] at h
      obtain ⟨-, -, hfield⟩ := h
      obtain ⟨husize, hlimit, -⟩ := hfield (isSeparator_of_no_LF hline)
      rw [validateBytes, if_pos (by simp), hfirst (by simp), validateFieldLine_of_fits husize hlimit]
      rfl
  | cons byte rest ih =>
    have hlen : (line ++ [byte]).length = line.length + 1 := by simp
    have hhead : (if line.length = 0 then some byte else first) = (line ++ [byte]).head? := by
      cases line with
      | nil => rfl
      | cons b l => simp [hfirst (by simp)]
    by_cases hbyte : byte = LF
    · subst hbyte
      rw [lines_concat_LF hline] at h
      obtain ⟨husize, hlimit, hfield⟩ := h
      rw [hlen] at husize hlimit
      simp only [validateBytes, hhead, addSize_of_le husize, ok_bind, checkLimit_of_le hlimit,
        if_true, ← isSeparator_concat hline]
      split_ifs with hsep
      · rfl
      · rw [Bool.not_eq_true] at hsep
        obtain ⟨hfieldUsize, hfieldLimit, hrest⟩ := hfield hsep
        rw [← hlen, validateFieldLine_of_fits hfieldUsize hfieldLimit, ok_bind]
        exact @ih [] _ _ (by simp) (by simp) hrest
    · have hopen : ∀ b ∈ line ++ [byte], isLF b = false := by
        intro b hb
        rcases List.mem_append.mp hb with hb | hb
        · exact hline b hb
        · obtain rfl : b = byte := by simpa using hb
          simpa [isLF] using hbyte
      rw [List.append_cons] at h
      have hrest := @ih (line ++ [byte]) (line ++ [byte]).head? fieldSize hopen (fun _ => rfl) h
      -- the line that the byte belongs to is not shorter than what has been passed
      cases hlines : lines (line ++ [byte] ++ rest) with
      | nil => simp [lines_eq_nil] at hlines
      | cons whole others =>
        rw [hlines] at h
        have hle := Lines.length_le_of_splitInclusive_append hopen hlines
        rw [hlen] at hle
        simp only [validateBytes, hhead, addSize_of_le (hle.trans h.1), ok_bind,
          checkLimit_of_le (hle.trans h.2.1), if_neg hbyte]
        rwa [hlen] at hrest

theorem validateHeaderParts_eq_ok {parts : List Bytes} {bodyLen : Nat} {limits : MessageLimits}
    (hsized : limits.Sized) :
    validateHeaderParts parts parts.flatten.length bodyLen limits = .ok () ↔
      LinesWithin limits 0 (lines parts.flatten) ∧ parts.flatten.length ≤ limits.headersSize ∧
        parts.flatten.length + bodyLen ≤ limits.messageSize := by
  constructor
  · intro h
    obtain ⟨_, hheaders, h⟩ := bind_eq_ok h
    obtain ⟨total, htotal, h⟩ := bind_eq_ok h
    obtain ⟨-, rfl⟩ := addSize_eq_ok.mp htotal
    obtain ⟨_, hmessage, h⟩ := bind_eq_ok h
    have hscan : validateBytes limits ([] : Bytes).length none 0 parts.flatten = .ok () := h
    exact ⟨validateBytes_eq_ok (by simp) (by simp) (by simp) hscan,
      EditedHeader.checkLimit_eq_ok hheaders, EditedHeader.checkLimit_eq_ok hmessage⟩
  · rintro ⟨hwithin, hheaders, hmessage⟩
    have hscan := @validateBytes_of_within limits parts.flatten [] none 0 (by simp) (by simp) hwithin
    simp only [validateHeaderParts, checkLimit_of_le hheaders, ok_bind,
      addSize_of_le (hmessage.trans hsized.messageSize), checkLimit_of_le hmessage]
    exact hscan

/-- The reader accepts a header that ends with its first blank line when its lines are within the
limits, and it is itself. -/
theorem Message.readHeaders_ok_iff {limits : MessageLimits} {header : Bytes}
    (hblank : headerSeparator header ≠ [] → isSeparator (headerSeparator header) = true)
    {reader : Reader} (hcomplete : reader.Complete) (hcontent : reader.content = header) :
    (∃ head rest, Message.readHeaders reader limits = .ok (head, rest)) ↔
      LinesWithin limits 0 (lines header) ∧ header.length ≤ limits.headersSize ∧
        header.length ≤ limits.messageSize := by
  have hsection : sectionLines (lines reader.content) = (lines header, lines []) := by
    rw [hcontent]
    have hrest : restLines header = [] ∧ ([] : Bytes) = [] ∨
        ∃ separator, isSeparator separator = true ∧ restLines header = [separator] := by
      by_cases hnil : headerSeparator header = []
      · have hlines := lines_headerSeparator header
        rw [hnil] at hlines
        exact Or.inl ⟨hlines.symm, rfl⟩
      · refine Or.inr ⟨_, hblank hnil, ?_⟩
        rw [← lines_headerSeparator, lines_of_isSeparator (hblank hnil)]
    have hwhole := sectionLines_lines_append hrest
    rwa [List.append_nil] at hwhole
  constructor
  · rintro ⟨head, rest, hread⟩
    obtain ⟨⟨raw, rest'⟩, hlines, -⟩ := bind_eq_ok hread
    obtain ⟨hraw, -, -, hwithin, htotal⟩ := readHeaderLines_eq_ok (Nat.lt_succ_self _) hlines
    rw [hcontent] at hwithin htotal
    have hheader : raw = header := by
      rw [show raw = _ from hraw, hsection, flatten_lines, List.nil_append]
    refine ⟨hwithin, ?_⟩
    by_cases hnil : header = []
    · rw [hnil]
      exact ⟨Nat.zero_le _, Nat.zero_le _⟩
    · have hsizes := htotal hnil
      rwa [show (raw, rest').1 = header from hheader] at hsizes
  · rintro ⟨hwithin, hheaders, hmessage⟩
    obtain ⟨head, rest, hread, -⟩ :=
      Message.readHeaders_of_within hcomplete hsection hwithin hheaders hmessage
    exact ⟨head, rest, hread⟩

/-- Slices of a header that ends with its first blank line pass the validation exactly when the reader
accepts the header, however it is cut into pieces, and the message has room for the body. -/
theorem validateHeaderParts_iff_readHeaders (limits : MessageLimits) (hsized : limits.Sized)
    (header : Bytes)
    (hblank : headerSeparator header ≠ [] → isSeparator (headerSeparator header) = true)
    (bodyLen : Nat) (parts : List Bytes) (hparts : parts.flatten = header) (reader : Reader)
    (hcomplete : reader.Complete) (hcontent : reader.content = header) :
    validateHeaderParts parts header.length bodyLen limits = .ok () ↔
      (∃ head rest, Message.readHeaders reader limits = .ok (head, rest)) ∧
        header.length + bodyLen ≤ limits.messageSize := by
  have hvalid := @validateHeaderParts_eq_ok parts bodyLen limits hsized
  rw [hparts] at hvalid
  rw [hvalid, Message.readHeaders_ok_iff hblank hcomplete hcontent]
  constructor
  · rintro ⟨hwithin, hheaders, hmessage⟩
    exact ⟨⟨hwithin, hheaders, by omega⟩, hmessage⟩
  · rintro ⟨⟨hwithin, hheaders, -⟩, hmessage⟩
    exact ⟨hwithin, hheaders, hmessage⟩

/-- A folded field across two slices, at the exact limits. -/
theorem validateHeaderParts_iff_readHeaders_folded :
    validateHeaderParts [strBytes "A: x\n y", strBytes "\n\n"] 9 3 ⟨12, 9, 3, 5, 8⟩ = .ok () ↔
      (∃ head rest, Message.readHeaders (Reader.cursor (strBytes "A: x\n y\n\n"))
        ⟨12, 9, 3, 5, 8⟩ = .ok (head, rest)) ∧ 9 + 3 ≤ 12 :=
  validateHeaderParts_iff_readHeaders ⟨12, 9, 3, 5, 8⟩
    ⟨by decide, by decide, by decide, by decide, by decide⟩ (strBytes "A: x\n y\n\n")
    (fun _ => by decide +kernel) 3 _ (by decide +kernel) _ (Reader.complete_cursor _)
    (Reader.content_cursor _)

end ProcmailRs
