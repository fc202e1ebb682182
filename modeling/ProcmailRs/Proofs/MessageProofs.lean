import ProcmailRs.Message
import ProcmailRs.Lib.Refinement
import ProcmailRs.Proofs.HeaderTextProofs

/-!
# What the reader accepts

The header of the input is its lines up to and including the first blank line; the body is the rest.
How the input is cut into pieces decides nothing: a message is accepted when the sizes of its lines,
fields, header, body and of the whole stay within the limits.
-/

namespace ProcmailRs

/-! ### Header and body of the input -/

/-- The lines of the header, with the blank line that ends it, and the lines behind it. -/
def sectionLines : List Bytes → List Bytes × List Bytes
  | [] => ([], [])
  | line :: rest =>
    if isSeparator line then ([line], rest)
    else (line :: (sectionLines rest).1, (sectionLines rest).2)

theorem sectionLines_append (ls : List Bytes) : (sectionLines ls).1 ++ (sectionLines ls).2 = ls := by
  induction ls with
  | nil => rfl
  | cons line rest ih =>
    unfold sectionLines
    split_ifs with hsep
    · rfl
    · rw [List.cons_append, ih]

/-- The size of the field that a line belongs to, up to the end of the line. -/
def nextFieldSize (fieldSize : Nat) (line : Bytes) : Nat :=
  if isFolded line then fieldSize + line.length else line.length

/-- The line and field limits on the lines of a header, when the current field already has `fieldSize`
bytes. Nothing behind a blank line is looked at. -/
def LinesWithin (limits : MessageLimits) : Nat → List Bytes → Prop
  | _, [] => True
  | fieldSize, line :: rest =>
    line.length ≤ usizeMax ∧ line.length ≤ limits.headerLineSize ∧
      (isSeparator line = false →
        nextFieldSize fieldSize line ≤ usizeMax ∧
          nextFieldSize fieldSize line ≤ limits.headerFieldSize ∧
          LinesWithin limits (nextFieldSize fieldSize line) rest)

/-! ### One line -/

theorem MessageReadError.addChecked_eq_ok {left right limit sum : Nat} {kind : MessageLimit} :
    MessageReadError.addChecked left right limit kind = .ok sum ↔
      left + right ≤ usizeMax ∧ sum = left + right := by
  unfold MessageReadError.addChecked
  cases h : checkedAdd left right with
  | none =>
    have hnot : ¬ left + right ≤ usizeMax := by
      intro hle
      simp [checkedAdd, hle] at h
    simp [hnot]
  | some c =>
    obtain ⟨hle, rfl⟩ := checkedAdd_eq_some.mp h
    simp [hle, eq_comm]

theorem checkSize_eq_ok {size limit : Nat} {kind : MessageLimit} {u : Unit} :
    checkSize size limit kind = .ok u ↔ size ≤ limit := by
  unfold checkSize
  split_ifs with h
  · simp
    omega
  · simp
    omega

/-- The limits on a line that is read when the header already has `read` bytes. -/
def LineFits (limits : MessageLimits) (read size : Nat) : Prop :=
  size ≤ usizeMax ∧ size ≤ limits.headerLineSize ∧ read + size ≤ limits.headersSize ∧
    read + size ≤ limits.messageSize

theorem LineFits.mono {limits : MessageLimits} {read size size' : Nat}
    (h : LineFits limits read size) (hle : size' ≤ size) : LineFits limits read size' := by
  obtain ⟨h₁, h₂, h₃, h₄⟩ := h
  exact ⟨by omega, by omega, by omega, by omega⟩

/-- A piece with a delimiter gives the rest of the line. -/
theorem lines_of_delimiter {line available : Bytes} {index : Nat}
    (hline : ∀ b ∈ line, isLF b = false) (h : available.findIdx? isLF = some index)
    (rest : Bytes) :
    lines (line ++ (available ++ rest)) =
      (line ++ available.take (index + 1)) :: lines (available.drop (index + 1) ++ rest) := by
  have hlt : index < available.length := by
    have hfind := (List.findIdx?_eq_some_iff_findIdx_eq.mp h)
    exact hfind.1
  have hwhole : (available ++ rest).findIdx? isLF = some index := by
    rw [List.findIdx?_append, h]
    rfl
  have hcut := Lines.splitInclusive_append_cut hline hwhole
  rw [List.take_append_of_le_length (by omega), List.drop_append_of_le_length (by omega)] at hcut
  exact hcut

theorem terminated_take {available : Bytes} {index : Nat} (h : available.findIdx? isLF = some index) :
    (available.take (index + 1)).getLast? = some LF := by
  obtain ⟨hlt, hget, -⟩ := List.findIdx?_eq_some_iff_getElem.mp h
  have hbyte : available[index] = LF := by simpa [isLF] using hget
  rw [List.take_succ_eq_append_getElem hlt, List.getLast?_concat, hbyte]

namespace Reader

theorem content_push (piece : Bytes) (reader : Reader) :
    (push piece reader).content = piece ++ reader.content := by
  cases piece with
  | nil => rfl
  | cons byte rest => rfl

theorem complete_push (piece : Bytes) (reader : Reader) :
    (push piece reader).Complete ↔ reader.Complete := by
  cases piece with
  | nil => rfl
  | cons byte rest => rfl

theorem content_cursor (bytes : Bytes) : (cursor bytes).content = bytes := by
  rw [cursor, content_push]
  exact List.append_nil bytes

theorem complete_cursor (bytes : Bytes) : (cursor bytes).Complete := by
  rw [cursor, complete_push]
  trivial

end Reader

theorem checkLineSize_eq_ok {limits : MessageLimits} {read lineSize take : Nat} {u : Unit} :
    checkLineSize limits read lineSize take = .ok u ↔ LineFits limits read (lineSize + take) := by
  constructor
  · intro h
    obtain ⟨size, hsize, h⟩ := bind_eq_ok h
    obtain ⟨_, hline, h⟩ := bind_eq_ok h
    obtain ⟨_, hheaders, hmessage⟩ := bind_eq_ok h
    obtain ⟨hle, rfl⟩ := MessageReadError.addChecked_eq_ok.mp hsize
    exact ⟨hle, checkSize_eq_ok.mp hline, checkSize_eq_ok.mp hheaders, checkSize_eq_ok.mp hmessage⟩
  · rintro ⟨hle, hline, hheaders, hmessage⟩
    rw [checkLineSize, MessageReadError.addChecked_eq_ok.mpr ⟨hle, rfl⟩, ok_bind,
      (checkSize_eq_ok (u := ())).mpr hline, ok_bind, (checkSize_eq_ok (u := ())).mpr hheaders,
      ok_bind, checkSize_eq_ok.mpr hmessage]

/-- A piece with a delimiter completes the line. -/
theorem readHeaderLine_delimiter {byte : UInt8} {rest : Bytes} {index : Nat}
    (h : (byte :: rest).findIdx? isLF = some index) (limits : MessageLimits) (read : Nat)
    (line : Bytes) (next : Reader) :
    readHeaderLine limits read line (.chunk byte rest next) =
      (do
        checkLineSize limits read line.length (index + 1)
        .ok (some (line ++ (byte :: rest).take (index + 1)),
          Reader.push ((byte :: rest).drop (index + 1)) next)) := by
  have htake : lineTake (byte :: rest) = index + 1 := by
    rw [lineTake, show (byte :: rest).findIdx? (· == LF) = some index from h]
    rfl
  have hlast : (line ++ (byte :: rest).take (index + 1)).getLast? = some LF := by
    rw [List.getLast?_append, terminated_take h]
    rfl
  rw [readHeaderLine, htake]
  simp only [if_pos hlast, Reader.consume]

/-- A piece without a delimiter is taken as a whole. -/
theorem readHeaderLine_open {byte : UInt8} {rest line : Bytes}
    (h : ∀ b ∈ byte :: rest, isLF b = false) (hline : ∀ b ∈ line, isLF b = false)
    (limits : MessageLimits) (read : Nat) (next : Reader) :
    readHeaderLine limits read line (.chunk byte rest next) =
      (do
        checkLineSize limits read line.length (byte :: rest).length
        readHeaderLine limits read (line ++ byte :: rest) next) := by
  have hfind : (byte :: rest).findIdx? (· == LF) = none := by
    rw [List.findIdx?_eq_none_iff]
    exact h
  have htake : lineTake (byte :: rest) = (byte :: rest).length := by
    rw [lineTake, hfind]
    rfl
  have hlast : ¬ (line ++ byte :: rest).getLast? = some LF := by
    intro heq
    rcases List.mem_append.mp (List.mem_of_getLast? heq) with hmem | hmem
    · exact absurd (hline LF hmem) (by decide)
    · exact absurd (h LF hmem) (by decide)
  rw [readHeaderLine, htake, List.take_length]
  simp only [if_neg hlast]

/-- What a line that was read is: the first line of the input, within the limits. -/
theorem readHeaderLine_eq_ok {limits : MessageLimits} {read : Nat} {line : Bytes} {reader : Reader}
    {result : Option Bytes} {reader' : Reader} (hline : ∀ b ∈ line, isLF b = false)
    (hfits : line ≠ [] → LineFits limits read line.length)
    (h : readHeaderLine limits read line reader = .ok (result, reader')) :
    (result = none ∧ line = [] ∧ reader = .eof ∧ reader' = .eof) ∨
      ∃ first rest, lines (line ++ reader.content) = first :: rest ∧ result = some first ∧
        reader'.content = rest.flatten ∧ (reader'.Complete → reader.Complete) ∧
        LineFits limits read first.length := by
  -- the pieces of one line are taken one after the other; `line` grows by each of them
  induction reader generalizing line with
  | eof =>
    obtain ⟨rfl, rfl⟩ := Prod.mk.inj (Except.ok.inj h)
    cases line with
    | nil => exact Or.inl ⟨rfl, rfl, rfl, rfl⟩
    | cons b l =>
      refine Or.inr ⟨b :: l, [], ?_, rfl, rfl, id, hfits (by simp)⟩
      rw [Reader.content, List.append_nil]
      exact Lines.splitInclusive_of_forall_not (by simp) hline
  | failed error => cases h
  | chunk byte rest next ih =>
    cases hfind : (byte :: rest).findIdx? isLF with
    | some index =>
      rw [readHeaderLine_delimiter hfind] at h
      obtain ⟨_, hcheck, h⟩ := bind_eq_ok h
      obtain ⟨rfl, rfl⟩ := Prod.mk.inj (Except.ok.inj h)
      have hlt : index < (byte :: rest).length := (List.findIdx?_eq_some_iff_getElem.mp hfind).1
      refine Or.inr ⟨_, _, lines_of_delimiter hline hfind next.content, rfl, ?_, ?_, ?_⟩
      · rw [Reader.content_push, flatten_lines]
      · intro hcomplete
        exact (Reader.complete_push _ next).mp hcomplete
      · rw [List.length_append, List.length_take, Nat.min_eq_left hlt]
        exact checkLineSize_eq_ok.mp hcheck
    | none =>
      have hopen : ∀ b ∈ byte :: rest, isLF b = false := List.findIdx?_eq_none_iff.mp hfind
      rw [readHeaderLine_open hopen hline] at h
      obtain ⟨_, hcheck, h⟩ := bind_eq_ok h
      have hfits' := checkLineSize_eq_ok.mp hcheck
      rw [← List.length_append] at hfits'
      have hline' : ∀ b ∈ line ++ byte :: rest, isLF b = false := by
        intro b hb
        exact (List.mem_append.mp hb).elim (hline b) (hopen b)
      rcases ih hline' (fun _ => hfits') h with ⟨-, hnil, -⟩ | ⟨first, ls, hls, hrest⟩
      · simp at hnil
      · rw [List.append_assoc] at hls
        exact Or.inr ⟨first, ls, hls, hrest⟩

/-- A line within the limits is read. -/
theorem readHeaderLine_of_fits {limits : MessageLimits} {read : Nat} {line first : Bytes}
    {rest : List Bytes} {reader : Reader} (hline : ∀ b ∈ line, isLF b = false)
    (hcomplete : reader.Complete) (hlines : lines (line ++ reader.content) = first :: rest)
    (hfits : LineFits limits read first.length) :
    ∃ reader', readHeaderLine limits read line reader = .ok (some first, reader') ∧
      reader'.content = rest.flatten ∧ reader'.Complete := by
  induction reader generalizing line with
  | eof =>
    have hne : line ≠ [] := by
      rintro rfl
      cases hlines
    rw [Reader.content, List.append_nil,
      show lines line = [line] from Lines.splitInclusive_of_forall_not hne hline] at hlines
    obtain ⟨rfl, rfl⟩ := List.cons.inj hlines
    refine ⟨.eof, ?_, rfl, trivial⟩
    rw [readHeaderLine, if_neg (by simpa using hne)]
  | failed error => exact absurd hcomplete id
  | chunk byte tail next ih =>
    cases hfind : (byte :: tail).findIdx? isLF with
    | some index =>
      have hcut := lines_of_delimiter hline hfind next.content
      have hlt : index < (byte :: tail).length := (List.findIdx?_eq_some_iff_getElem.mp hfind).1
      obtain ⟨rfl, rfl⟩ := List.cons.inj (hcut.symm.trans hlines)
      rw [List.length_append, List.length_take, Nat.min_eq_left hlt] at hfits
      refine ⟨Reader.push ((byte :: tail).drop (index + 1)) next, ?_, ?_, ?_⟩
      · rw [readHeaderLine_delimiter hfind, (checkLineSize_eq_ok (u := ())).mpr hfits, ok_bind]
      · rw [Reader.content_push, flatten_lines]
      · exact (Reader.complete_push _ next).mpr hcomplete
    | none =>
      have hopen : ∀ b ∈ byte :: tail, isLF b = false := List.findIdx?_eq_none_iff.mp hfind
      have hline' : ∀ b ∈ line ++ byte :: tail, isLF b = false := by
        intro b hb
        exact (List.mem_append.mp hb).elim (hline b) (hopen b)
      have hlines' : lines ((line ++ byte :: tail) ++ next.content) = first :: rest := by
        rw [List.append_assoc]
        exact hlines
      obtain ⟨reader', hread, hrest⟩ := ih hline' hcomplete hlines'
      refine ⟨reader', ?_, hrest⟩
      have hprefix : (line ++ byte :: tail).length ≤ first.length :=
        Lines.length_le_of_splitInclusive_append hline' hlines'
      rw [List.length_append] at hprefix
      rw [readHeaderLine_open hopen hline,
        (checkLineSize_eq_ok (u := ())).mpr (hfits.mono hprefix), ok_bind]
      exact hread

/-! ### The header -/

theorem readFieldSize_eq_ok {limits : MessageLimits} {fieldSize next : Nat} {line : Bytes}
    (hline : line.length ≤ usizeMax) :
    readFieldSize limits fieldSize line = .ok next ↔
      nextFieldSize fieldSize line ≤ usizeMax ∧
        nextFieldSize fieldSize line ≤ limits.headerFieldSize ∧
        next = nextFieldSize fieldSize line := by
  have hbound : ∀ size : Nat, (if size > limits.headerFieldSize then
      (.error (.LimitExceeded .HeaderField limits.headerFieldSize) : Except MessageReadError Nat)
      else .ok size) = .ok next ↔ size ≤ limits.headerFieldSize ∧ next = size := by
    intro size
    split_ifs with hlt
    · simp
      omega
    · simp [Nat.le_of_not_lt hlt, eq_comm]
  unfold readFieldSize nextFieldSize
  split_ifs with hfold
  · constructor
    · intro h
      obtain ⟨size, hsize, h⟩ := bind_eq_ok h
      obtain ⟨hle, rfl⟩ := MessageReadError.addChecked_eq_ok.mp hsize
      exact ⟨hle, (hbound _).mp h⟩
    · rintro ⟨hle, h⟩
      rw [MessageReadError.addChecked_eq_ok.mpr ⟨hle, rfl⟩, ok_bind]
      exact (hbound _).mpr h
  · rw [ok_bind, hbound]
    simp [hline]

/-- What a header that was read is. -/
theorem readHeaderLines_eq_ok {limits : MessageLimits} {rounds fieldSize : Nat} {raw : Bytes}
    {reader : Reader} {result : Bytes × Reader} (hrounds : reader.content.length < rounds)
    (h : readHeaderLines limits rounds raw fieldSize reader = .ok result) :
    result.1 = raw ++ (sectionLines (lines reader.content)).1.flatten ∧
      result.2.content = (sectionLines (lines reader.content)).2.flatten ∧
      (result.2.Complete → reader.Complete) ∧
      LinesWithin limits fieldSize (lines reader.content) ∧
      (reader.content ≠ [] → result.1.length ≤ limits.headersSize ∧
        result.1.length ≤ limits.messageSize) := by
  induction rounds generalizing raw fieldSize reader with
  | zero => omega
  | succ rounds ih =>
    obtain ⟨⟨line, next⟩, hread, h⟩ := bind_eq_ok h
    rcases readHeaderLine_eq_ok (by simp) (by simp) hread with
      ⟨rfl, -, rfl, rfl⟩ | ⟨first, rest, hlines, rfl, hcontent, hcomplete, hfits⟩
    · obtain rfl := Except.ok.inj h
      refine ⟨?_, rfl, id, trivial, by simp [Reader.content]⟩
      simp [Reader.content, lines, sectionLines]
    · rw [List.nil_append] at hlines
      obtain ⟨husize, hline, hheaders, hmessage⟩ := hfits
      have hproper : Lines.Proper isLF (first :: rest) := hlines ▸ proper_lines reader.content
      have hrest : lines next.content = rest := by
        rw [hcontent, lines_flatten hproper.2.2]
      have hflat : first ++ rest.flatten = reader.content := by
        rw [← flatten_lines reader.content, hlines, List.flatten_cons]
      have hlen : first.length + next.content.length = reader.content.length := by
        rw [hcontent, ← List.length_append, hflat]
      have hpos : 0 < first.length := List.length_pos_iff.mpr hproper.1.1
      dsimp only at h
      by_cases hsep : isSeparator first = true
      · rw [if_pos hsep] at h
        obtain rfl := Except.ok.inj h
        simp only [hlines, sectionLines, if_pos hsep, LinesWithin]
        refine ⟨by simp, hcontent, hcomplete, ⟨husize, hline, by simp [hsep]⟩, ?_⟩
        intro _
        rw [List.length_append]
        exact ⟨hheaders, hmessage⟩
      · rw [if_neg hsep] at h
        rw [Bool.not_eq_true] at hsep
        obtain ⟨size, hsize, h⟩ := bind_eq_ok h
        obtain ⟨hfusize, hfield, rfl⟩ := (readFieldSize_eq_ok husize).mp hsize
        obtain ⟨hraw, hbody, hcomplete', hwithin, htotal⟩ := ih (by omega) h
        rw [hrest] at hraw hbody hwithin
        simp only [hlines, sectionLines, hsep, LinesWithin]
        refine ⟨?_, hbody, hcomplete ∘ hcomplete', ⟨husize, hline, fun _ => ⟨hfusize, hfield, hwithin⟩⟩,
          ?_⟩
        · rw [hraw]
          simp
        · intro _
          by_cases hnil : next.content = []
          · have hnone : rest = [] := by
              rw [← hrest, hnil]
              rfl
            rw [hraw, hnone]
            simp only [sectionLines, List.flatten_nil, List.append_nil, List.length_append]
            exact ⟨hheaders, hmessage⟩
          · exact htotal hnil

/-- A header within the limits is read. -/
theorem readHeaderLines_of_within {limits : MessageLimits} {rounds fieldSize : Nat} {raw : Bytes}
    {reader : Reader} (hrounds : reader.content.length < rounds) (hcomplete : reader.Complete)
    (hwithin : LinesWithin limits fieldSize (lines reader.content))
    (hheaders : (raw ++ (sectionLines (lines reader.content)).1.flatten).length ≤ limits.headersSize)
    (hmessage : (raw ++ (sectionLines (lines reader.content)).1.flatten).length ≤
      limits.messageSize) :
    ∃ reader', readHeaderLines limits rounds raw fieldSize reader =
        .ok (raw ++ (sectionLines (lines reader.content)).1.flatten, reader') ∧
      reader'.content = (sectionLines (lines reader.content)).2.flatten ∧ reader'.Complete := by
  induction rounds generalizing raw fieldSize reader with
  | zero => omega
  | succ rounds ih =>
    cases hlines : lines reader.content with
    | nil =>
      cases reader with
      | eof => exact ⟨.eof, by simp [readHeaderLines, readHeaderLine, sectionLines]; rfl, rfl, trivial⟩
      | failed error => exact absurd hcomplete id
      | chunk byte rest next => exact absurd (lines_eq_nil.mp hlines) (by simp [Reader.content])
    | cons first rest =>
      rw [hlines] at hwithin hheaders hmessage
      obtain ⟨husize, hline, hfield⟩ := hwithin
      have hproper : Lines.Proper isLF (first :: rest) := hlines ▸ proper_lines reader.content
      have hflat : first ++ rest.flatten = reader.content := by
        rw [← flatten_lines reader.content, hlines, List.flatten_cons]
      have hpos : 0 < first.length := List.length_pos_iff.mpr hproper.1.1
      have hfirst : raw.length + first.length ≤
          (raw ++ (sectionLines (first :: rest)).1.flatten).length := by
        unfold sectionLines
        split_ifs with hsep
        · simp
        · simp
      have hfits : LineFits limits raw.length first.length :=
        ⟨husize, hline, hfirst.trans hheaders, hfirst.trans hmessage⟩
      have hstart : lines ([] ++ reader.content) = first :: rest := hlines
      obtain ⟨next, hread, hcontent, hnext⟩ :=
        readHeaderLine_of_fits (by simp) hcomplete hstart hfits
      have hrest : lines next.content = rest := by
        rw [hcontent, lines_flatten hproper.2.2]
      have hlen : first.length + next.content.length = reader.content.length := by
        rw [hcontent, ← List.length_append, hflat]
      rw [readHeaderLines, hread, ok_bind]
      by_cases hsep : isSeparator first = true
      · refine ⟨next, ?_, ?_, hnext⟩
        · simp [hsep, sectionLines]
        · simp [hsep, sectionLines, hcontent]
      · rw [Bool.not_eq_true] at hsep
        obtain ⟨hfusize, hfsize, hrestWithin⟩ := hfield hsep
        have hsize : readFieldSize limits fieldSize first = .ok (nextFieldSize fieldSize first) :=
          (readFieldSize_eq_ok husize).mpr ⟨hfusize, hfsize, rfl⟩
        have hjoin : raw ++ (sectionLines (first :: rest)).1.flatten =
            raw ++ first ++ (sectionLines rest).1.flatten := by
          simp [sectionLines, hsep]
        rw [hjoin, ← hrest] at hheaders hmessage
        rw [← hrest] at hrestWithin
        obtain ⟨reader', hres, hbody, hdone⟩ := ih (by omega) hnext hrestWithin hheaders hmessage
        rw [hrest] at hres hbody
        refine ⟨reader', ?_, ?_, hdone⟩
        · rw [hjoin, ← hres]
          simp only [hsep, hsize, ok_bind]
          rfl
        · rw [hbody]
          simp [sectionLines, hsep]

/-! ### The body -/

/-- What a body that was read is. -/
theorem readBodyFrom_eq_ok {limits : MessageLimits} {bodySize : Nat} {raw : Bytes} {reader : Reader}
    {result : Bytes × Option (Nat × Unit)}
    (h : readBodyFrom sink limits true bodySize raw none reader = .ok result) :
    result.1 = raw ++ reader.content ∧ reader.Complete ∧
      (reader.content ≠ [] → bodySize + reader.content.length ≤ usizeMax ∧
        raw.length + reader.content.length ≤ usizeMax ∧
        bodySize + reader.content.length ≤ limits.bodySize ∧
        raw.length + reader.content.length ≤ limits.messageSize) := by
  induction reader generalizing bodySize raw with
  | eof =>
    obtain rfl := Except.ok.inj h
    exact ⟨by simp [Reader.content], trivial, by simp [Reader.content]⟩
  | failed error => cases h
  | chunk byte rest next ih =>
    obtain ⟨body, hbody, h⟩ := bind_eq_ok h
    obtain ⟨total, htotal, h⟩ := bind_eq_ok h
    obtain ⟨_, hbodyLimit, h⟩ := bind_eq_ok h
    obtain ⟨_, htotalLimit, h⟩ := bind_eq_ok h
    obtain ⟨hbodyMax, rfl⟩ := MessageReadError.addChecked_eq_ok.mp hbody
    obtain ⟨htotalMax, rfl⟩ := MessageReadError.addChecked_eq_ok.mp htotal
    replace hbodyLimit := checkSize_eq_ok.mp hbodyLimit
    replace htotalLimit := checkSize_eq_ok.mp htotalLimit
    rw [Option.map_none, Option.getD_none] at htotalMax htotalLimit
    have hnext : readBodyFrom sink limits true (bodySize + (byte :: rest).length)
        (raw ++ byte :: rest) none next = .ok result := h
    obtain ⟨hraw, hcomplete, hsizes⟩ := ih hnext
    refine ⟨?_, hcomplete, fun _ => ?_⟩
    · rw [hraw, Reader.content, List.append_assoc]
    · rw [Reader.content, List.length_append]
      rw [List.length_append] at hsizes
      by_cases hnil : next.content = []
      · rw [hnil, List.length_nil]
        omega
      · have hsizes := hsizes hnil
        omega

/-- A body within the limits is read. -/
theorem readBodyFrom_of_within {limits : MessageLimits} {bodySize : Nat} {raw : Bytes}
    {reader : Reader} (hcomplete : reader.Complete)
    (hbodyMax : bodySize + reader.content.length ≤ usizeMax)
    (htotalMax : raw.length + reader.content.length ≤ usizeMax)
    (hbody : bodySize + reader.content.length ≤ limits.bodySize)
    (hmessage : raw.length + reader.content.length ≤ limits.messageSize) :
    readBodyFrom sink limits true bodySize raw none reader = .ok (raw ++ reader.content, none) := by
  induction reader generalizing bodySize raw with
  | eof => simp [readBodyFrom, Reader.content]
  | failed error => exact absurd hcomplete id
  | chunk byte rest next ih =>
    rw [Reader.content, List.length_append] at *
    have hbodyAdd : MessageReadError.addChecked bodySize (byte :: rest).length limits.bodySize .Body =
        .ok (bodySize + (byte :: rest).length) :=
      MessageReadError.addChecked_eq_ok.mpr ⟨by omega, rfl⟩
    have htotalAdd : MessageReadError.addChecked raw.length (byte :: rest).length limits.messageSize
        .Message = .ok (raw.length + (byte :: rest).length) :=
      MessageReadError.addChecked_eq_ok.mpr ⟨by omega, rfl⟩
    have hbodyCheck : checkSize (bodySize + (byte :: rest).length) limits.bodySize .Body = .ok () :=
      checkSize_eq_ok.mpr (by omega)
    have htotalCheck : checkSize (raw.length + (byte :: rest).length) limits.messageSize .Message =
        .ok () := checkSize_eq_ok.mpr (by omega)
    have hnext : readBodyFrom sink limits true (bodySize + (byte :: rest).length)
        (raw ++ byte :: rest) none next = .ok (raw ++ byte :: rest ++ next.content, none) :=
      ih hcomplete (by omega) (by rw [List.length_append]; omega) (by omega)
        (by rw [List.length_append]; omega)
    simp only [readBodyFrom, Option.map_none, Option.getD_none, hbodyAdd, htotalAdd, hbodyCheck,
      htotalCheck, ok_bind, if_true]
    rw [hnext, List.append_assoc]

/-! ### The message -/

theorem linesWithin_sectionLines {limits : MessageLimits} {fieldSize : Nat} {ls : List Bytes} :
    LinesWithin limits fieldSize (sectionLines ls).1 ↔ LinesWithin limits fieldSize ls := by
  induction ls generalizing fieldSize with
  | nil => rfl
  | cons line rest ih =>
    unfold sectionLines
    split_ifs with hsep
    · simp [LinesWithin, hsep]
    · simp [LinesWithin, hsep, ih]

/-- The sizes of a message with this header and this body are within the limits. -/
structure Accepts (limits : MessageLimits) (header body : Bytes) : Prop where
  headerLines : LinesWithin limits 0 (lines header)
  headerSize : header.length ≤ limits.headersSize
  bodySize : body.length ≤ limits.bodySize
  messageSize : header.length + body.length ≤ limits.messageSize
  bounded : body ≠ [] → header.length + body.length ≤ usizeMax

theorem lines_sectionLines (bytes : Bytes) :
    lines (sectionLines (lines bytes)).1.flatten = (sectionLines (lines bytes)).1 := by
  have hproper := proper_lines bytes
  rw [← sectionLines_append (lines bytes)] at hproper
  exact lines_flatten hproper.left

namespace Message

/-- What an accepted header is. -/
theorem readHeaders_eq_ok {reader : Reader} {limits : MessageLimits} {head : MessageHead}
    {rest : Reader} (h : readHeaders reader limits = .ok (head, rest)) :
    head.asBytes = (sectionLines (lines reader.content)).1.flatten ∧
      head.headerView = .Raw head.asBytes ∧ head.asBytes.length ≤ limits.headersSize := by
  obtain ⟨⟨raw, rest'⟩, hread, h⟩ := bind_eq_ok h
  obtain ⟨rfl, rfl⟩ := Prod.mk.inj (Except.ok.inj h)
  obtain ⟨hraw, -, -, -, htotal⟩ := readHeaderLines_eq_ok (Nat.lt_succ_self _) hread
  rw [List.nil_append] at hraw
  refine ⟨hraw, rfl, ?_⟩
  by_cases hnil : reader.content = []
  · have hempty : raw = [] := by rw [show raw = _ from hraw, hnil]; rfl
    rw [hempty]
    exact Nat.zero_le _
  · exact (htotal hnil).1

/-- The header and what is left of the input add up to the input. -/
theorem readHeaders_content {reader : Reader} {limits : MessageLimits} {head : MessageHead}
    {rest : Reader} (h : readHeaders reader limits = .ok (head, rest)) :
    head.asBytes ++ rest.content = reader.content := by
  obtain ⟨⟨raw, rest'⟩, hread, h⟩ := bind_eq_ok h
  obtain ⟨rfl, rfl⟩ := Prod.mk.inj (Except.ok.inj h)
  obtain ⟨hraw, hcontent, -⟩ := readHeaderLines_eq_ok (Nat.lt_succ_self _) hread
  show raw ++ rest'.content = reader.content
  rw [show raw = _ from hraw, show rest'.content = _ from hcontent, List.nil_append,
    ← List.flatten_append, sectionLines_append, flatten_lines]

/-- A header within the limits is accepted, however it is cut into pieces. -/
theorem readHeaders_of_within {reader : Reader} {limits : MessageLimits} {header body : Bytes}
    (hcomplete : reader.Complete)
    (hsection : sectionLines (lines reader.content) = (lines header, lines body))
    (hwithin : LinesWithin limits 0 (lines header)) (hheaders : header.length ≤ limits.headersSize)
    (hmessage : header.length ≤ limits.messageSize) :
    ∃ head rest, readHeaders reader limits = .ok (head, rest) ∧ head.asBytes = header ∧
      rest.content = body ∧ rest.Complete := by
  have hheader : [] ++ (sectionLines (lines reader.content)).1.flatten = header := by
    rw [hsection, flatten_lines, List.nil_append]
  have hbody : (sectionLines (lines reader.content)).2.flatten = body := by
    rw [hsection, flatten_lines]
  have hall : LinesWithin limits 0 (lines reader.content) := by
    rw [← linesWithin_sectionLines, hsection]
    exact hwithin
  obtain ⟨next, hread, hnext, hdone⟩ := readHeaderLines_of_within (Nat.lt_succ_self _) hcomplete
    hall (by rw [hheader]; exact hheaders) (by rw [hheader]; exact hmessage)
  rw [hheader] at hread
  refine ⟨⟨.Input header, normalizeFoldedHeader header, limits⟩, next, ?_, rfl, hnext.trans hbody,
    hdone⟩
  simp only [readHeaders, hread, ok_bind]

/-- What an accepted message is. -/
theorem readFrom_eq_ok {reader : Reader} {limits : MessageLimits} {message : Message}
    (h : readFrom reader limits = .ok message) :
    reader.Complete ∧ message.header = (sectionLines (lines reader.content)).1.flatten ∧
      message.body = (sectionLines (lines reader.content)).2.flatten ∧
      message.matching = normalizeFoldedHeader message.header ∧
      Accepts limits message.header message.body := by
  obtain ⟨⟨head, next⟩, hhead, h⟩ := bind_eq_ok h
  obtain ⟨⟨raw, rest⟩, hread, hhead⟩ := bind_eq_ok hhead
  obtain ⟨rfl, rfl⟩ := Prod.mk.inj (Except.ok.inj hhead)
  obtain ⟨⟨bytes, stream⟩, hbody, h⟩ := bind_eq_ok h
  obtain rfl := Except.ok.inj h
  obtain ⟨hraw, hcontent, hcomplete, hwithin, htotal⟩ :=
    readHeaderLines_eq_ok (Nat.lt_succ_self _) hread
  obtain ⟨hbytes, hnext, hsizes⟩ := readBodyFrom_eq_ok hbody
  rw [List.nil_append] at hraw
  dsimp only [MessageHead.intoSerializedParts] at hraw hcontent hcomplete htotal hbytes hnext hsizes ⊢
  have hdrop : bytes.drop raw.length = rest.content := by
    rw [hbytes, List.drop_left]
  rw [hdrop]
  refine ⟨hcomplete hnext, hraw, hcontent, rfl, ⟨?_, ?_, ?_, ?_, ?_⟩⟩
  · rw [hraw, lines_sectionLines]
    exact linesWithin_sectionLines.mpr hwithin
  · by_cases hnil : reader.content = []
    · simp [hraw, hnil, ProcmailRs.lines, sectionLines]
    · exact (htotal hnil).1
  · by_cases hnil : rest.content = []
    · simp [hnil]
    · have := hsizes hnil
      omega
  · by_cases hnil : rest.content = []
    · rw [hnil, List.length_nil, Nat.add_zero]
      by_cases hempty : reader.content = []
      · simp [hraw, hempty, ProcmailRs.lines, sectionLines]
      · exact (htotal hempty).2
    · exact (hsizes hnil).2.2.2
  · intro hnil
    exact (hsizes hnil).2.1

/-- A message within the limits is accepted, however it is cut into pieces. -/
theorem readFrom_of_accepts {reader : Reader} {limits : MessageLimits} {header body : Bytes}
    (hcomplete : reader.Complete)
    (hsection : sectionLines (lines reader.content) = (lines header, lines body))
    (h : Accepts limits header body) :
    readFrom reader limits = .ok ⟨header, body, normalizeFoldedHeader header⟩ := by
  have hheader : (sectionLines (lines reader.content)).1.flatten = header := by
    rw [hsection, flatten_lines]
  have hbody : (sectionLines (lines reader.content)).2.flatten = body := by
    rw [hsection, flatten_lines]
  have hwithin : LinesWithin limits 0 (lines reader.content) := by
    rw [← linesWithin_sectionLines, hsection]
    exact h.headerLines
  have hmessage := h.messageSize
  have hheaders : ([] ++ (sectionLines (lines reader.content)).1.flatten).length ≤
      limits.headersSize := by
    rw [hheader]
    exact h.headerSize
  have htotal : ([] ++ (sectionLines (lines reader.content)).1.flatten).length ≤
      limits.messageSize := by
    rw [hheader, List.nil_append]
    omega
  obtain ⟨next, hread, hnext, hdone⟩ :=
    readHeaderLines_of_within (Nat.lt_succ_self _) hcomplete hwithin hheaders htotal
  rw [hheader, List.nil_append] at hread
  rw [hbody] at hnext
  have hbodyRead : readBodyFrom sink limits true 0 header none next = .ok (header ++ body, none) := by
    by_cases hnil : body = []
    · cases next with
      | eof => simp [readBodyFrom, hnil]
      | failed error => exact absurd hdone id
      | chunk byte rest tail => exact absurd (hnext.trans hnil) (by simp [Reader.content])
    · have hsize := h.bounded hnil
      rw [← hnext] at hsize hmessage ⊢
      refine readBodyFrom_of_within hdone (by omega) hsize ?_ hmessage
      rw [hnext, Nat.zero_add]
      exact h.bodySize
  simp only [readFrom, readHeaders, hread, ok_bind, MessageHead.readBody,
    MessageHead.intoSerializedParts, hbodyRead, List.drop_left]

end Message

end ProcmailRs
