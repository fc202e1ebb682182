import ProcmailRs.Formail
import ProcmailRs.HeaderEdit.Proofs.FramingProofs
import ProcmailRs.HeaderEdit.Proofs.PatternProofs

/-!
# The fields during the edits

Every edit of the stand-alone header editor leaves fields, as long as its arguments hold no line
delimiter. An empty argument of `-a` is the exception: it may be added as a blank line.
-/

namespace ProcmailRs.Formail

/-- The text is a field or a blank line, terminated when a separator follows the fields. -/
def Placed (closed : Prop) (text : Bytes) : Prop :=
  (IsField text ∨ isSeparator text = true) ∧ (closed → Lines.Terminated isLF text)

/-- What the edit leaves of a placed text is placed. -/
def Keeps (closed : Prop) (edit : Field → FieldEdit) : Prop :=
  ∀ text, Placed closed text → ∀ left ∈ FieldEdit.applied edit text, Placed closed left

theorem isLF_eq_false {b : UInt8} (h : b ≠ LF) : isLF b = false := by
  simpa [isLF] using h

/-- A blank line has no name. -/
theorem fieldName_of_isSeparator {text : Bytes} (h : isSeparator text = true) :
    fieldName text = none := by
  simp only [isSeparator, Bool.or_eq_true, beq_iff_eq] at h
  rcases h with rfl | rfl
  · decide
  · decide

/-- A named text is a field, and its name ends with the first colon. -/
theorem Placed.named {closed : Prop} {text name : Bytes} (h : Placed closed text)
    (hname : fieldName text = some name) :
    ∃ rest, text = name ++ COLON :: rest ∧ IsField (name ++ COLON :: rest) ∧
      ∀ b ∈ name, isLF b = false := by
  obtain ⟨⟨rest, rfl⟩, hlf⟩ := FieldList.fieldName_eq_some hname
  rcases h.1 with hfield | hsep
  · exact ⟨rest, rfl, hfield, hlf⟩
  · rw [fieldName_of_isSeparator hsep] at hname
    cases hname

/-- A field with another name is placed as before. -/
theorem Placed.replace_name {closed : Prop} {name new rest : Bytes}
    (h : Placed closed (name ++ COLON :: rest)) (hfield : IsField (name ++ COLON :: rest))
    (hname : ∀ b ∈ name, isLF b = false) (hnew : ∀ b ∈ new, isLF b = false) :
    Placed closed (new ++ COLON :: rest) := by
  refine ⟨Or.inl (hfield.replace_name hname hnew), fun hclosed => ?_⟩
  exact FieldList.terminated_append_cons (h.2 hclosed)

/-! ### The edits -/

section Edits

variable {closed : Prop}

/-- An edit keeps what it does not change. -/
theorem keeps_of_replace {edit : Field → FieldEdit}
    (h : ∀ text bytes, Placed closed text → edit (fieldFromBytes text) = .Replace bytes →
      Placed closed bytes) : Keeps closed edit := by
  intro text htext left hleft
  unfold FieldEdit.applied at hleft
  cases hedit : edit (fieldFromBytes text) with
  | Keep =>
    obtain rfl : left = text := by simpa [hedit] using hleft
    exact htext
  | Replace bytes =>
    obtain rfl : left = bytes := by simpa [hedit] using hleft
    exact h text left htext hedit
  | Remove => simp [hedit] at hleft

theorem changed_eq_replace {field : Field} {replacement bytes : Bytes}
    (h : FieldEdit.changed field replacement = .Replace bytes) : bytes = replacement := by
  unfold FieldEdit.changed at h
  split_ifs at h with hdiff
  exact (FieldEdit.Replace.inj h).symm

theorem forall_stripColon {pattern : Bytes} (h : ∀ b ∈ pattern, b ≠ LF) :
    ∀ b ∈ (stripColon pattern).getD pattern, isLF b = false := by
  intro b hb
  unfold stripColon at hb
  split_ifs at hb with hcolon
  · exact isLF_eq_false (h b (List.mem_of_mem_dropLast hb))
  · exact isLF_eq_false (h b hb)

/-- A renamed field has another name in front of its colon. -/
theorem renameFieldPattern_eq_some {name rest source target renamed : Bytes}
    (hname : fieldName (name ++ COLON :: rest) = some name) (hlf : ∀ b ∈ name, isLF b = false)
    (htarget : ∀ b ∈ target, b ≠ LF)
    (h : renameFieldPattern (fieldFromBytes (name ++ COLON :: rest)) source target =
      some renamed) :
    ∃ new, renamed = new ++ COLON :: rest ∧ ∀ b ∈ new, isLF b = false := by
  have hclean := forall_stripColon htarget
  have hsuffix : (fieldFromBytes (name ++ COLON :: rest)).bytes.drop name.length = COLON :: rest :=
    List.drop_left
  have hfield : (fieldFromBytes (name ++ COLON :: rest)).name = some name := hname
  simp only [renameFieldPattern, hfield, hsuffix] at h
  split at h
  · split_ifs at h with hsame
    exact ⟨_, (Option.some.inj h).symm, hclean⟩
  · split_ifs at h with hsame
    refine ⟨_, (Option.some.inj h).symm, fun b hb => ?_⟩
    rcases List.mem_append.mp hb with hb | hb
    · exact hclean b hb
    · exact hlf b (List.mem_of_mem_drop hb)

theorem keeps_renameEdit {source target : Bytes} (htarget : ∀ b ∈ target, b ≠ LF) :
    Keeps closed (renameEdit source target) := by
  apply keeps_of_replace
  intro text bytes htext hedit
  unfold renameEdit at hedit
  split_ifs at hedit with hmatch
  cases hrename : renameFieldPattern (fieldFromBytes text) source target with
  | none => simp [hrename] at hedit
  | some renamed =>
    simp only [hrename] at hedit
    obtain rfl := changed_eq_replace hedit
    cases hname : fieldName text with
    | none =>
      have hfield : (fieldFromBytes text).name = none := hname
      simp [renameFieldPattern, hfield] at hrename
    | some name =>
      obtain ⟨rest, rfl, hfield, hlf⟩ := htext.named hname
      obtain ⟨new, rfl, hnew⟩ := renameFieldPattern_eq_some hname hlf htarget hrename
      exact htext.replace_name hfield hlf hnew

theorem keeps_prefixEdit {pattern front : Bytes} (hfront : ∀ b ∈ front, isLF b = false) :
    Keeps closed (prefixEdit pattern front) := by
  apply keeps_of_replace
  intro text bytes htext hedit
  unfold prefixEdit at hedit
  split_ifs at hedit with hmatch
  obtain rfl := FieldEdit.Replace.inj hedit
  have hsome : (fieldFromBytes text).name.isSome := by simp_all
  obtain ⟨name, hname⟩ := Option.isSome_iff_exists.mp hsome
  obtain ⟨rest, rfl, hfield, hlf⟩ := htext.named hname
  show Placed closed (front ++ (name ++ COLON :: rest))
  rw [← List.append_assoc]
  refine htext.replace_name hfield hlf fun b hb => ?_
  rcases List.mem_append.mp hb with hb | hb
  · exact hfront b hb
  · exact hlf b hb

theorem keeps_zapEdit : Keeps closed zapEdit := by
  apply keeps_of_replace
  intro text bytes htext hedit
  unfold zapEdit at hedit
  cases hname : fieldName text with
  | none =>
    have hfield : (fieldFromBytes text).name = none := hname
    simp [hfield] at hedit
  | some name =>
    obtain ⟨rest, rfl, hfield, hlf⟩ := htext.named hname
    have hfieldName : (fieldFromBytes (name ++ COLON :: rest)).name = some name := hname
    have hafter : (fieldFromBytes (name ++ COLON :: rest)).bytes.drop (name.length + 1) = rest := by
      show (name ++ COLON :: rest).drop (name.length + 1) = rest
      simp
    simp only [hfieldName, hafter] at hedit
    split_ifs at hedit with hblank hspace
    obtain rfl := FieldEdit.Replace.inj hedit
    -- a space goes between the colon and a value
    obtain ⟨byte, value, rfl⟩ := List.exists_cons_of_ne_nil (show rest ≠ [] by
      rintro rfl
      cases hspace)
    have hcolon : ∀ tail : Bytes, (∀ b ∈ tail, isLF b = false) →
        ∀ b ∈ name ++ COLON :: tail, isLF b = false := by
      intro tail htail b hb
      rcases List.mem_append.mp hb with hb | hb
      · exact hlf b hb
      · rcases List.mem_cons.mp hb with rfl | hb
        · decide
        · exact htail b hb
    have hshape : ∀ tail : Bytes,
        name ++ COLON :: tail ++ byte :: value = name ++ COLON :: (tail ++ byte :: value) := by simp
    have hold := hshape []
    have hnew := hshape [SP]
    rw [List.nil_append] at hold
    rw [List.singleton_append] at hnew
    rw [← hnew]
    refine ⟨Or.inl ?_, fun hclosed => ?_⟩
    · rw [← hold] at hfield
      refine hfield.replace_start (by simp) (hcolon [] (by simp)) (hcolon [SP] ?_) (by simp)
      intro b hb
      obtain rfl : b = SP := by simpa using hb
      decide
    · have hterm := htext.2 hclosed
      rw [← hold] at hterm
      exact FieldList.terminated_append_cons hterm

theorem keeps_concatenateEdit : Keeps closed concatenateEdit := by
  apply keeps_of_replace
  intro text bytes htext hedit
  unfold concatenateEdit at hedit
  split_ifs at hedit with hfrom
  obtain rfl := changed_eq_replace hedit
  show Placed closed (unfoldFieldBytes text)
  unfold unfoldFieldBytes
  split_ifs with hfolding
  · rcases htext.1 with ⟨first, cont, hlines, -, hcont⟩ | hsep
    · have hproper := proper_lines text
      have hflat := flatten_lines text
      rw [hlines] at hproper hflat ⊢
      obtain ⟨hline, hterm, hspace⟩ := unfoldLines_spec hproper hcont
      have hne : cont ≠ [] := by
        rintro rfl
        simp [hasFolding, hlines] at hfolding
      refine ⟨Or.inl (isField_line hline ?_), fun hclosed => hterm ?_⟩
      · exact isSeparator_of_mem (hspace hne) (by decide) (by decide)
      · rw [hflat]
        exact htext.2 hclosed
    · rw [hasFolding, lines_of_isSeparator hsep] at hfolding
      simp at hfolding
  · exact htext

end Edits

/-! ### Added fields -/

theorem endsWith_LF_of_no_LF {raw : Bytes} (h : ∀ b ∈ raw, b ≠ LF) : endsWith raw [LF] = false := by
  rw [Bool.eq_false_iff]
  intro hends
  obtain ⟨init, rfl⟩ := List.isSuffixOf_iff_suffix.mp hends
  exact h LF (by simp) rfl

/-- An argument without delimiters is added as one line. -/
theorem placed_rawFieldText {closed : Prop} {raw : Bytes} (h : ∀ b ∈ raw, b ≠ CR ∧ b ≠ LF)
    (lineEnding : LineEnding) : Placed closed (EditedHeader.rawFieldText lineEnding raw) := by
  have hlf : ∀ b ∈ raw, b ≠ LF := fun b hb => (h b hb).2
  rw [EditedHeader.rawFieldText, if_neg (by simp [endsWith_LF_of_no_LF hlf])]
  refine ⟨?_, fun _ => terminated_lineEnding raw lineEnding⟩
  cases raw with
  | nil =>
    right
    cases lineEnding with
    | Lf => rfl
    | CrLf => rfl
  | cons byte rest =>
    left
    obtain ⟨hcr, hbyte⟩ := h byte (by simp)
    exact isField_line (isLine_lineEnding hlf lineEnding) (isSeparator_cons hbyte hcr)

theorem decimal_ne_LF (n : Nat) : ∀ b ∈ decimal n, b ≠ LF := by
  refine strBytes_ne_LF fun c hc => Or.inr (Or.inl ?_)
  have hdigit : c.isDigit := Nat.isDigit_of_mem_toDigits (by decide) le_rfl
    (by rwa [show (toString n).toList = Nat.toDigits 10 n from Nat.toList_repr] at hc)
  simp only [Char.isDigit, Bool.and_eq_true, decide_eq_true_eq, ge_iff_le,
    UInt32.le_iff_toNat_le] at hdigit
  have hnat : c.val.toNat = c.toNat := rfl
  have hlow : '0'.val.toNat = 48 := rfl
  have hhigh : '9'.val.toNat = 57 := rfl
  simp only [isAsciiGraphic, Bool.and_eq_true, decide_eq_true_eq]
  omega

/-- The generated identifier field without its line feed. -/
def messageIdText (env : Environment) (counter : Nat) (pattern : Bytes) : Bytes :=
  let headerName :=
    if (strBytes "resent-").isPrefixOf (pattern.map toAsciiLowercase) then "Resent-Message-ID"
    else "Message-ID"
  strBytes headerName ++ strBytes ": <" ++ decimal (env.seconds counter) ++ strBytes "." ++
    decimal env.pid ++ strBytes "." ++ decimal counter ++ strBytes "@" ++ env.hostname ++
    strBytes ">"

theorem generateMessageId_eq (env : Environment) (counter : Nat) (pattern : Bytes) :
    generateMessageId env counter pattern = messageIdText env counter pattern ++ [LF] := by
  rw [generateMessageId, messageIdText, List.append_assoc _ _ [LF]]
  rfl

theorem messageIdText_ne_LF (env : Environment) (counter : Nat) (pattern : Bytes) :
    ∀ b ∈ messageIdText env counter pattern, b ≠ LF := by
  have hname : ∀ b ∈ strBytes (if (strBytes "resent-").isPrefixOf (pattern.map toAsciiLowercase)
      then "Resent-Message-ID" else "Message-ID"), b ≠ LF := by
    split_ifs
    · decide +kernel
    · decide +kernel
  have hopen : ∀ b ∈ strBytes ": <", b ≠ LF := by decide +kernel
  have hdot : ∀ b ∈ strBytes ".", b ≠ LF := by decide +kernel
  have hat : ∀ b ∈ strBytes "@", b ≠ LF := by decide +kernel
  have hclose : ∀ b ∈ strBytes ">", b ≠ LF := by decide +kernel
  intro b hb
  simp only [messageIdText, List.mem_append] at hb
  rcases hb with ((((((((hb | hb) | hb) | hb) | hb) | hb) | hb) | hb) | hb) | hb
  · exact hname b hb
  · exact hopen b hb
  · exact decimal_ne_LF _ b hb
  · exact hdot b hb
  · exact decimal_ne_LF _ b hb
  · exact hdot b hb
  · exact decimal_ne_LF _ b hb
  · exact hat b hb
  · exact env.hostname_ne_LF b hb
  · exact hclose b hb

/-- A generated identifier is added as one field. -/
theorem placed_generateMessageId {closed : Prop} (env : Environment) (counter : Nat)
    (pattern : Bytes) (lineEnding : LineEnding) :
    Placed closed (EditedHeader.rawFieldText lineEnding (generateMessageId env counter pattern)) := by
  have hends : endsWith (generateMessageId env counter pattern) [LF] = true := by
    rw [generateMessageId_eq]
    exact List.isSuffixOf_iff_suffix.mpr (List.suffix_append _ _)
  rw [EditedHeader.rawFieldText, if_pos hends, generateMessageId_eq]
  refine ⟨Or.inl ?_, fun _ => terminated_lineEnding _ .Lf⟩
  have hmem : (62 : UInt8) ∈ messageIdText env counter pattern ++ [LF] := by
    have hgt : (62 : UInt8) ∈ strBytes ">" := by decide +kernel
    rw [messageIdText]
    exact List.mem_append_left _ (List.mem_append_right _ hgt)
  exact isField_line (isLine_lineEnding (messageIdText_ne_LF env counter pattern) .Lf)
    (isSeparator_of_mem hmem (by decide) (by decide))

end ProcmailRs.Formail
