import ProcmailRs.Proofs.MessageProofs

/-!
# Reading is exact

A message is read if and only if all of its parts are within their limits, however the reader cuts it
into pieces, and whether the body is kept, written on, or both.
-/

namespace ProcmailRs

/-! ### The parts of a message -/

/-- Everything up to the first blank line, which belongs to it; without one, everything. -/
def headerPart (bytes : Bytes) : Bytes := (sectionLines (lines bytes)).1.flatten

/-- What follows the header section. -/
def bodyPart (bytes : Bytes) : Bytes := (sectionLines (lines bytes)).2.flatten

/-- Lines in groups: each starts with a line that continues no other. The first group may lack one. -/
def fieldGroups (ls : List Bytes) : List (List Bytes) := Lines.splitBefore (fun line => !isFolded line) ls

/-- The fields of a header, each with the lines that continue it. -/
def fieldsOf (header : Bytes) : List Bytes :=
  (fieldGroups ((lines header).filter fun line => !isSeparator line)).map List.flatten

/-- The sizes are those of memory. -/
structure MessageLimits.Sized (limits : MessageLimits) : Prop where
  messageSize : limits.messageSize ≤ usizeMax
  headersSize : limits.headersSize ≤ usizeMax
  bodySize : limits.bodySize ≤ usizeMax
  headerLineSize : limits.headerLineSize ≤ usizeMax
  headerFieldSize : limits.headerFieldSize ≤ usizeMax

/-- Every line and every field of the header, the header, the body and the message are within their
limits. -/
structure WithinLimits (limits : MessageLimits) (bytes : Bytes) : Prop where
  line : ∀ line ∈ lines (headerPart bytes), line.length ≤ limits.headerLineSize
  field : ∀ field ∈ fieldsOf (headerPart bytes), field.length ≤ limits.headerFieldSize
  header : (headerPart bytes).length ≤ limits.headersSize
  body : (bodyPart bytes).length ≤ limits.bodySize
  message : bytes.length ≤ limits.messageSize

theorem headerPart_append_bodyPart (bytes : Bytes) : headerPart bytes ++ bodyPart bytes = bytes := by
  rw [headerPart, bodyPart, ← List.flatten_append, sectionLines_append, flatten_lines]

theorem lines_headerPart (bytes : Bytes) : lines (headerPart bytes) = (sectionLines (lines bytes)).1 :=
  lines_sectionLines bytes

/-! ### Fields line by line -/

/-- The size of the group that a line starts or goes on with. -/
def carried (fieldSize : Nat) (line : Bytes) : Nat := if isFolded line then fieldSize else 0

theorem nextFieldSize_eq (fieldSize : Nat) (line : Bytes) :
    nextFieldSize fieldSize line = carried fieldSize line + line.length := by
  unfold nextFieldSize carried
  split_ifs <;> omega

/-- The groups are within the limit when the first of them goes on with a field of `fieldSize` bytes. -/
def GroupsWithin (limit fieldSize : Nat) : List (List Bytes) → Prop
  | [] => True
  | group :: groups =>
    carried fieldSize (group.headD []) + group.flatten.length ≤ limit ∧
      ∀ group ∈ groups, group.flatten.length ≤ limit

/-- The limit on fields holds line by line exactly when it holds of the whole groups. -/
theorem groupsWithin_cons {limit fieldSize : Nat} {line : Bytes} {ls : List Bytes} :
    GroupsWithin limit fieldSize (fieldGroups (line :: ls)) ↔
      nextFieldSize fieldSize line ≤ limit ∧
        GroupsWithin limit (nextFieldSize fieldSize line) (fieldGroups ls) := by
  have hnext := nextFieldSize_eq fieldSize line
  cases hgroups : fieldGroups ls with
  | nil =>
    have hsplit : fieldGroups (line :: ls) = [[line]] := by
      rw [fieldGroups] at hgroups ⊢
      rw [Lines.splitBefore, hgroups]
    simp [hsplit, GroupsWithin, hnext]
  | cons group groups =>
    have hmem : group ∈ fieldGroups ls := by
      rw [hgroups]
      exact List.mem_cons_self
    have hne : group ≠ [] := Lines.ne_nil_of_mem_splitBefore hmem
    obtain ⟨first, others, rfl⟩ := List.exists_cons_of_ne_nil hne
    by_cases hfolded : isFolded first = true
    · have hsplit : fieldGroups (line :: ls) = (line :: first :: others) :: groups := by
        rw [fieldGroups] at hgroups ⊢
        rw [Lines.splitBefore, hgroups]
        simp [hfolded]
      have hcarried : ∀ size, carried size first = size := fun size => if_pos hfolded
      rw [hsplit]
      simp only [GroupsWithin, List.headD_cons, List.flatten_cons, List.length_append, hcarried]
      constructor
      · rintro ⟨hsize, hrest⟩
        exact ⟨by omega, by omega, hrest⟩
      · rintro ⟨-, hsize, hrest⟩
        exact ⟨by omega, hrest⟩
    · have hsplit : fieldGroups (line :: ls) = [line] :: (first :: others) :: groups := by
        rw [fieldGroups] at hgroups ⊢
        rw [Lines.splitBefore, hgroups]
        simp [hfolded]
      have hcarried : ∀ size, carried size first = 0 := fun size => if_neg hfolded
      rw [hsplit]
      simp only [GroupsWithin, List.headD_cons, List.flatten_cons, List.length_append,
        List.flatten_nil, List.length_nil, Nat.add_zero, List.forall_mem_cons, hcarried, hnext,
        Nat.zero_add]

/-- The limits on the lines of a header, all at once. -/
theorem linesWithin_iff {limits : MessageLimits} (hsized : limits.Sized) {fieldSize : Nat}
    {ls : List Bytes} :
    LinesWithin limits fieldSize ls ↔
      (∀ line ∈ (sectionLines ls).1, line.length ≤ limits.headerLineSize) ∧
        GroupsWithin limits.headerFieldSize fieldSize
          (fieldGroups ((sectionLines ls).1.filter fun line => !isSeparator line)) := by
  have hline := hsized.headerLineSize
  have hfield := hsized.headerFieldSize
  induction ls generalizing fieldSize with
  | nil => simp [LinesWithin, sectionLines, fieldGroups, Lines.splitBefore, GroupsWithin]
  | cons line rest ih =>
    by_cases hsep : isSeparator line = true
    · have hsection : sectionLines (line :: rest) = ([line], rest) := by simp [sectionLines, hsep]
      rw [hsection]
      simp only [LinesWithin, hsep, List.mem_singleton, forall_eq, List.filter_cons, Bool.not_true,
        Bool.false_eq_true, if_false, List.filter_nil, fieldGroups, Lines.splitBefore, GroupsWithin,
        Bool.true_eq_false, false_implies, and_true]
      omega
    · have hnot : isSeparator line = false := by simpa using hsep
      have hsection : (sectionLines (line :: rest)).1 = line :: (sectionLines rest).1 := by
        simp [sectionLines, hnot]
      rw [hsection]
      simp only [LinesWithin, hnot, List.forall_mem_cons, List.filter_cons, Bool.not_false, if_true,
        forall_const, groupsWithin_cons, ih]
      constructor
      · rintro ⟨-, hsize, -, hnext, hrest, hgroups⟩
        exact ⟨⟨hsize, hrest⟩, hnext, hgroups⟩
      · rintro ⟨⟨hsize, hrest⟩, hnext, hgroups⟩
        exact ⟨by omega, hsize, by omega, hnext, hrest, hgroups⟩

theorem groupsWithin_zero {limit : Nat} {groups : List (List Bytes)} :
    GroupsWithin limit 0 groups ↔ ∀ field ∈ groups.map List.flatten, field.length ≤ limit := by
  have hcarried : ∀ line, carried 0 line = 0 := fun line => by simp [carried]
  cases groups with
  | nil => simp [GroupsWithin]
  | cons group groups =>
    simp only [GroupsWithin, hcarried, Nat.zero_add, List.map_cons, List.forall_mem_cons,
      List.forall_mem_map]

/-- The checks made while a message is read are the limits on its parts. -/
theorem accepts_iff {limits : MessageLimits} (hsized : limits.Sized) (bytes : Bytes) :
    Accepts limits (headerPart bytes) (bodyPart bytes) ↔ WithinLimits limits bytes := by
  have hlength : (headerPart bytes).length + (bodyPart bytes).length = bytes.length := by
    rw [← List.length_append, headerPart_append_bodyPart]
  have hlines : LinesWithin limits 0 (lines (headerPart bytes)) ↔
      (∀ line ∈ lines (headerPart bytes), line.length ≤ limits.headerLineSize) ∧
        ∀ field ∈ fieldsOf (headerPart bytes), field.length ≤ limits.headerFieldSize := by
    rw [fieldsOf, lines_headerPart, linesWithin_sectionLines, linesWithin_iff hsized,
      groupsWithin_zero]
  constructor
  · intro h
    obtain ⟨hline, hfield⟩ := hlines.mp h.headerLines
    refine ⟨hline, hfield, h.headerSize, h.bodySize, ?_⟩
    have := h.messageSize
    omega
  · intro h
    have hmessage := h.message
    have hmax := hsized.messageSize
    exact ⟨hlines.mpr ⟨h.line, h.field⟩, h.header, h.body, by omega, fun _ => by omega⟩

/-! ### Retained, written, or both -/

/-- Writing the body on changes nothing about what is accepted. `kept` is what has been retained before,
and `raw` stands for the bytes that have been counted. -/
theorem readBodyFrom_collect (limits : MessageLimits) (retain : Bool) (bodySize : Nat)
    (kept raw written : Bytes) (reader : Reader) :
    readBodyFrom collect limits retain bodySize kept (some (raw.length, written)) reader =
      (readBodyFrom sink limits true bodySize raw none reader).map fun result =>
        (if retain then kept ++ reader.content else kept,
          some (result.1.length, written ++ reader.content)) := by
  induction reader generalizing bodySize kept raw written with
  | eof => cases retain <;> simp [readBodyFrom, Reader.content, Except.map]
  | failed error => rfl
  | chunk byte rest next ih =>
    simp only [readBodyFrom, Option.map_some, Option.getD_some, Option.map_none, Option.getD_none]
    cases MessageReadError.addChecked bodySize (byte :: rest).length limits.bodySize .Body with
    | error error => rfl
    | ok nextBodySize =>
      cases htotal : MessageReadError.addChecked raw.length (byte :: rest).length limits.messageSize
          .Message with
      | error error => rfl
      | ok nextTotalSize =>
        obtain ⟨-, rfl⟩ := MessageReadError.addChecked_eq_ok.mp htotal
        simp only [ok_bind]
        cases checkSize nextBodySize limits.bodySize .Body with
        | error error => rfl
        | ok _ =>
          cases checkSize (raw.length + (byte :: rest).length) limits.messageSize .Message with
          | error error => rfl
          | ok _ =>
            have hnext := ih nextBodySize (if retain then kept ++ byte :: rest else kept)
              (raw ++ byte :: rest) (written ++ byte :: rest)
            rw [List.length_append] at hnext
            simp only [collect, ok_bind, if_true]
            rw [hnext]
            cases retain <;> simp [Reader.content]

namespace MessageHead

theorem readBodyTo_collect (head : MessageHead) (reader : Reader) (written : Bytes) :
    head.readBodyTo collect reader written =
      (readBodyFrom sink head.intoSerializedParts.2.2 true 0 head.intoSerializedParts.1 none
        reader).map fun _ =>
          (⟨head.intoSerializedParts.1, reader.content, head.intoSerializedParts.2.1⟩,
            written ++ (head.intoSerializedParts.1 ++ reader.content)) := by
  rcases hparts : head.intoSerializedParts with ⟨raw, matching, limits⟩
  simp only [readBodyTo, hparts, writeAll, collect, ok_bind, readBodyFrom_collect, if_true]
  cases readBodyFrom sink limits true 0 raw none reader with
  | error error => rfl
  | ok result => simp [Except.map, List.append_assoc, ok_bind]

theorem streamTo_collect (head : MessageHead) (reader : Reader) (written : Bytes) :
    head.streamTo collect reader written =
      (readBodyFrom sink head.intoSerializedParts.2.2 true 0 head.intoSerializedParts.1 none
        reader).map fun result =>
          (⟨head.intoSerializedParts.1, head.intoSerializedParts.2.1, result.1.length⟩,
            written ++ (head.intoSerializedParts.1 ++ reader.content)) := by
  rcases hparts : head.intoSerializedParts with ⟨raw, matching, limits⟩
  simp only [streamTo, hparts, writeAll, collect, ok_bind, readBodyFrom_collect]
  cases readBodyFrom sink limits true 0 raw none reader with
  | error error => rfl
  | ok result => simp [Except.map, List.append_assoc, ok_bind]

theorem readBody_eq (head : MessageHead) (reader : Reader) :
    head.readBody reader =
      (readBodyFrom sink head.intoSerializedParts.2.2 true 0 head.intoSerializedParts.1 none
        reader).map fun _ =>
          ⟨head.intoSerializedParts.1, reader.content, head.intoSerializedParts.2.1⟩ := by
  rcases hparts : head.intoSerializedParts with ⟨raw, matching, limits⟩
  simp only [readBody, hparts]
  cases hread : readBodyFrom sink limits true 0 raw none reader with
  | error error => rfl
  | ok result =>
    obtain ⟨hresult, -, -⟩ := readBodyFrom_eq_ok hread
    simp [Except.map, hresult, ok_bind]

/-- Writing the message on while it is read gives the same message, and writes its bytes. -/
theorem readBodyTo_eq (head : MessageHead) (reader : Reader) :
    head.readBodyTo collect reader [] =
      (head.readBody reader).map fun message => (message, message.asBytes) := by
  rw [readBodyTo_collect, readBody_eq]
  cases readBodyFrom sink head.intoSerializedParts.2.2 true 0 head.intoSerializedParts.1 none
    reader <;> rfl

/-- Streaming the message gives its header and its length, and writes its bytes. -/
theorem streamTo_eq (head : MessageHead) (reader : Reader) :
    head.streamTo collect reader [] =
      (head.readBody reader).map fun message =>
        (⟨message.header, message.matching, message.len⟩, message.asBytes) := by
  rw [streamTo_collect, readBody_eq]
  cases hread : readBodyFrom sink head.intoSerializedParts.2.2 true 0 head.intoSerializedParts.1 none
      reader with
  | error error => rfl
  | ok result =>
    obtain ⟨hresult, -, -⟩ := readBodyFrom_eq_ok hread
    simp [Except.map, hresult, Message.len, Message.asBytes]

end MessageHead

/-! ### The whole message -/

/-- A message is read exactly when all of its parts are within their limits; what is read are the two
parts of the input. The two ways of writing it on accept the same inputs, refuse the others with the same
errors, and write the bytes of the message. -/
theorem message_reading_exact (limits : MessageLimits) (hsized : limits.Sized) (reader : Reader)
    (hcomplete : reader.Complete) :
    ((∃ message, Message.readFrom reader limits = .ok message) ↔
      WithinLimits limits reader.content) ∧
    (∀ message, Message.readFrom reader limits = .ok message →
      message.header = headerPart reader.content ∧ message.body = bodyPart reader.content ∧
        message.asBytes = reader.content) ∧
    (do
      let (head, rest) ← Message.readHeaders reader limits
      head.readBodyTo collect rest []) =
      (Message.readFrom reader limits).map (fun message => (message, message.asBytes)) ∧
    (do
      let (head, rest) ← Message.readHeaders reader limits
      head.streamTo collect rest []) =
      (Message.readFrom reader limits).map (fun message =>
        (⟨message.header, message.matching, message.len⟩, message.asBytes)) := by
  have hread : ∀ message, Message.readFrom reader limits = .ok message →
      message.header = headerPart reader.content ∧ message.body = bodyPart reader.content ∧
        Accepts limits message.header message.body := by
    intro message h
    obtain ⟨-, hheader, hbody, -, haccepts⟩ := Message.readFrom_eq_ok h
    exact ⟨hheader, hbody, haccepts⟩
  refine ⟨⟨?_, ?_⟩, ?_, ?_, ?_⟩
  · rintro ⟨message, h⟩
    obtain ⟨hheader, hbody, haccepts⟩ := hread message h
    rw [hheader, hbody] at haccepts
    exact (accepts_iff hsized reader.content).mp haccepts
  · intro h
    have hsection : sectionLines (lines reader.content) =
        (lines (headerPart reader.content), lines (bodyPart reader.content)) := by
      have hproper := proper_lines reader.content
      rw [← sectionLines_append (lines reader.content)] at hproper
      rw [lines_headerPart, bodyPart, lines_flatten hproper.right]
    exact ⟨_, Message.readFrom_of_accepts hcomplete hsection
      ((accepts_iff hsized reader.content).mpr h)⟩
  · intro message h
    obtain ⟨hheader, hbody, -⟩ := hread message h
    refine ⟨hheader, hbody, ?_⟩
    rw [Message.asBytes, hheader, hbody, headerPart_append_bodyPart]
  · unfold Message.readFrom
    cases Message.readHeaders reader limits with
    | error error => rfl
    | ok result => exact result.1.readBodyTo_eq result.2
  · unfold Message.readFrom
    cases Message.readHeaders reader limits with
    | error error => rfl
    | ok result => exact result.1.streamTo_eq result.2

/-- A message in two pieces, with its blank line cut in two. -/
theorem message_reading_exact_split :
    ∃ message, Message.readFrom
      (.chunk 65 [58, 10, 13] (.chunk 10 [66] .eof)) ⟨100, 5, 1, 3, 3⟩ = .ok message :=
  ((message_reading_exact ⟨100, 5, 1, 3, 3⟩ ⟨by decide, by decide, by decide, by decide, by decide⟩
    (.chunk 65 [58, 10, 13] (.chunk 10 [66] .eof)) trivial).1).mpr
    ⟨by decide, by decide, by decide, by decide, by decide⟩

end ProcmailRs
