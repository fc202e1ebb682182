import ProcmailRs.Proofs.FormailBodyProofs
import ProcmailRs.Proofs.FormailFieldProofs

/-!
# The output of the header editor

The edits keep the fields in shape, so what the program writes can be compared with what the reader
makes of it. The line feed written behind the header is right unless the header is a separator alone or
its separator ends otherwise than its last field.
-/

namespace ProcmailRs.Formail

open EditedHeader

/-! ### The edits keep the fields placed -/

section Kept

variable {closed : Prop} {origin header result : EditedHeader} {fields : List Bytes}

/-- The header stands for placed texts. -/
def Kept (closed : Prop) (origin header : EditedHeader) : Prop :=
  ∃ fields, Represents origin MessageStatus.none header fields ∧
    ∀ text ∈ fields, Placed closed text

theorem Kept.mapStore (h : Kept closed origin header) {edit : HeaderStore → HeaderStore}
    (hedit : ∀ store : HeaderStore, store.Wf → store.Deletes (edit store)) :
    Kept closed origin (header.mapStore edit) := by
  obtain ⟨fields, hrep, hplaced⟩ := h
  obtain ⟨left, hleft, hsub⟩ := hrep.mapStore hedit
  exact ⟨left, hleft, fun text htext => hplaced text (hsub.subset htext)⟩

theorem Kept.editEach (h : Kept closed origin header) {edit : Field → FieldEdit}
    (hedit : Keeps closed edit)
    (hok : (header.editStore fun store => store.editEach edit) = .ok result) :
    Kept closed origin result := by
  obtain ⟨fields, hrep, hplaced⟩ := h
  refine ⟨_, hrep.editEach hok, fun text htext => ?_⟩
  obtain ⟨source, hsource, hleft⟩ := List.mem_flatMap.mp htext
  exact hedit source (hplaced source hsource) text hleft

theorem Kept.addRawField (h : Kept closed origin header) {raw : Bytes}
    (hraw : ∀ lineEnding, Placed closed (rawFieldText lineEnding raw))
    (hok : header.addRawField raw = .ok result) : Kept closed origin result := by
  obtain ⟨fields, hrep, hplaced⟩ := h
  refine ⟨_, hrep.addRawField hok, fun text htext => ?_⟩
  rcases List.mem_append.mp htext with htext | htext
  · exact hplaced text htext
  · rw [List.mem_singleton.mp htext]
    exact hraw _

theorem Kept.foldl (h : Kept closed origin header) (edit : EditedHeader → Bytes → EditedHeader)
    (hedit : ∀ header pattern, Kept closed origin header → Kept closed origin (edit header pattern))
    (patterns : List Bytes) : Kept closed origin (patterns.foldl edit header) := by
  induction patterns generalizing header with
  | nil => exact h
  | cons pattern rest ih => exact ih (hedit header pattern h)

theorem mapError_eq_ok {ε ε' α : Type} {x : Except ε α} {f : ε → ε'} {a : α}
    (h : x.mapError f = .ok a) : x = .ok a := by
  cases x with
  | error e => cases h
  | ok b =>
    obtain rfl : b = a := Except.ok.inj h
    rfl

/-- The arguments hold no line delimiter. -/
def Options.Plain (options : Options) : Prop :=
  ∀ argument ∈ options.headerArguments, ∀ b ∈ argument, b ≠ CR ∧ b ≠ LF

theorem Kept.addIfNotPresent (env : Environment) {state next : EditedHeader × Nat} {raw : Bytes}
    (h : Kept closed origin state.1) (hraw : ∀ b ∈ raw, b ≠ CR ∧ b ≠ LF)
    (hok : addIfNotPresent env state raw = .ok next) : Kept closed origin next.1 := by
  obtain ⟨header, counter⟩ := state
  unfold Formail.addIfNotPresent at hok
  simp only at hok
  split_ifs at hok with hpresent hgenerate
  · obtain rfl := Except.ok.inj hok
    exact h
  · obtain ⟨added, hadd, hok⟩ := bind_eq_ok hok
    obtain rfl := Except.ok.inj hok
    exact h.addRawField (placed_generateMessageId env counter _) (mapError_eq_ok hadd)
  · obtain ⟨added, hadd, hok⟩ := bind_eq_ok hok
    obtain rfl := Except.ok.inj hok
    exact h.addRawField (placed_rawFieldText hraw) (mapError_eq_ok hadd)

/-- All edits together keep the fields placed. -/
theorem Kept.editHeader (env : Environment) {options : Options} (hplain : options.Plain)
    (h : Kept closed origin header) (hok : editHeader env options header = .ok result) :
    Kept closed origin result := by
  have hargument : ∀ {argument : Bytes}, argument ∈ options.headerArguments →
      ∀ b ∈ argument, b ≠ CR ∧ b ≠ LF := fun hmem => hplain _ hmem
  simp only [Options.headerArguments, List.mem_append] at hargument
  unfold Formail.editHeader at hok
  obtain ⟨renamed, hrename, hok⟩ := bind_eq_ok hok
  obtain ⟨prefixed, hprefix, hok⟩ := bind_eq_ok hok
  obtain ⟨⟨added, counter⟩, hadded, hok⟩ := bind_eq_ok hok
  obtain ⟨appended, happend, hok⟩ := bind_eq_ok hok
  obtain ⟨joined, hjoin, hok⟩ := bind_eq_ok hok
  have hrenamed : Kept closed origin renamed := by
    refine foldlM_preserves (mapError_eq_ok hrename) h fun header rule next hrule hkept hnext => ?_
    have htarget : rule.2 ∈ options.renameRules.map Prod.snd := List.mem_map_of_mem hrule
    exact hkept.editEach (keeps_renameEdit fun b hb => (hargument (by simp [htarget]) b hb).2) hnext
  have hprefixed : Kept closed origin prefixed := by
    refine foldlM_preserves (mapError_eq_ok hprefix) hrenamed fun _ _ _ _ hkept hnext => ?_
    exact hkept.editEach (keeps_prefixEdit (by decide +kernel)) hnext
  have hdeleted := hprefixed.foldl EditedHeader.removeMatchingPattern
    (fun _ pattern hkept => hkept.mapStore fun _ hwf => hwf.removeMatchingPattern pattern)
    options.deleteRules
  have hfirst := hdeleted.foldl EditedHeader.makeUniqueFirst
    (fun _ pattern hkept => hkept.mapStore fun _ hwf => hwf.makeUniqueFirst pattern)
    options.uniqueFirst
  have hlast := hfirst.foldl EditedHeader.makeUniqueLast
    (fun _ pattern hkept => hkept.mapStore fun _ hwf => hwf.makeUniqueLast pattern)
    options.uniqueLast
  have hpresent : Kept closed origin (added, counter).1 := by
    refine foldlM_preserves (P := fun state : EditedHeader × Nat => Kept closed origin state.1)
      hadded hlast fun _ raw _ hraw hkept hnext => ?_
    exact hkept.addIfNotPresent env (hargument (by simp [hraw])) hnext
  have happended : Kept closed origin appended := by
    refine foldlM_preserves (mapError_eq_ok happend) hpresent fun _ raw _ hraw hkept hnext => ?_
    exact hkept.addRawField (placed_rawFieldText (hargument (by simp [hraw]))) hnext
  have hwhen : ∀ {option edit wrap} {before after : EditedHeader}, Keeps closed edit →
      editWhen option (fun header => header.editStore fun store => store.editEach edit) wrap before =
        .ok after → Kept closed origin before → Kept closed origin after := by
    intro option edit wrap before after hedit hok hbefore
    unfold editWhen at hok
    split_ifs at hok with hoption
    · exact hbefore.editEach hedit (mapError_eq_ok hok)
    · obtain rfl := Except.ok.inj hok
      exact hbefore
  exact hwhen keeps_zapEdit hok (hwhen keeps_concatenateEdit hjoin happended)

end Kept

/-! ### The checked header -/

/-- The default limits. -/
abbrev limits : MessageLimits := MessageLimits.default

/-- What is known of the edited header once it has been checked. -/
structure Checked (edited : EditedHeader) : Prop where
  settled : edited.Settled
  placed : ∀ text ∈ edited.texts, Placed (edited.storage.separator ≠ []) text
  separator : ∃ header, edited.storage.separator = headerSeparator header
  within : LinesWithin limits 0 (lines edited.asBytes)
  size : edited.asBytes.length ≤ limits.headersSize

theorem Checked.asBytes_eq {edited : EditedHeader} (h : Checked edited) :
    edited.asBytes = edited.texts.flatten ++ edited.storage.separator := by
  rw [h.settled.coherent.asBytes, flatten_parts_of_apart h.settled.apart]

theorem Framed.placed {closed : Prop} {text : Bytes} (h : FieldList.Framed closed text) :
    Placed closed text := ⟨Or.inl h.1, h.2⟩

/-- The header that is written has passed the checks of `finish`. -/
theorem processHeader_eq_ok {env : Environment} {options : Options} (hplain : options.Plain)
    {stdin rest : Reader} {edited : EditedHeader}
    (h : processHeader env options stdin = .ok (edited, rest)) :
    Checked edited ∧ ∃ head, Message.readHeaders stdin limits = .ok (head, rest) := by
  obtain ⟨⟨head, rest'⟩, hread, h⟩ := bind_eq_ok h
  obtain ⟨origin', hnew', h⟩ := bind_eq_ok h
  obtain ⟨header, hedit, h⟩ := bind_eq_ok h
  obtain ⟨finished, hfinish, h⟩ := bind_eq_ok h
  obtain ⟨rfl, rfl⟩ := Prod.mk.inj (Except.ok.inj h)
  refine ⟨?_, head, mapError_eq_ok hread⟩
  obtain ⟨origin, hnew, hparsed, hrep, -, hlim, hunique⟩ := new_raw head.asBytes limits
  obtain rfl : origin = origin' := Except.ok.inj (hnew.symm.trans (mapError_eq_ok hnew'))
  -- every field is placed with respect to the separator of the input
  have hstart : Kept (origin.storage.separator ≠ []) origin origin := by
    refine ⟨_, hrep, fun text htext => ?_⟩
    rw [hparsed.separator]
    exact Framed.placed (framed_fieldTexts head.asBytes text htext)
  obtain ⟨fields, hfields, hplaced⟩ := hstart.editHeader env hplain hedit
  have hrefines := hfields.finish (fun hfalse => by simp [hunique] at hfalse) 0
  rw [mapError_eq_ok hfinish] at hrefines
  obtain ⟨bytes, hserialize, hfinished⟩ := hrefines.exists_of_ok
  obtain ⟨size, hsize, hserialize⟩ := bind_eq_ok hserialize
  obtain ⟨u, hvalid, hbytes⟩ := bind_eq_ok hserialize
  replace hbytes : _ = bytes := Except.ok.inj hbytes
  have htotal := sumSizes_eq_ok hsize
  rw [Nat.zero_add] at htotal
  rw [hlim, htotal] at hvalid
  have haccepts := @accepts_of_validateHeaderParts _ [] _ _ hvalid (Nat.zero_le _)
  have hserialized : finished.asBytes = bytes := by
    rw [hfinished.settled.coherent.asBytes, hfinished.serialized]
  refine ⟨hfinished.settled, ?_, ?_, ?_, ?_⟩
  · rcases hfinished.index with hfresh | ⟨htexts, hsep⟩
    · rw [hfresh.texts, hfresh.separator]
      exact fun text htext => Framed.placed (framed_fieldTexts bytes text htext)
    · rw [htexts, hsep]
      exact hplaced
  · rcases hfinished.index with hfresh | ⟨-, hsep⟩
    · exact ⟨bytes, hfresh.separator⟩
    · exact ⟨head.asBytes, hsep.trans hparsed.separator⟩
  · rw [hserialized, ← hbytes]
    exact haccepts.headerLines
  · rw [hserialized, ← hbytes]
    exact haccepts.headerSize

/-! ### The written header -/

/-- The line feed behind the header completes it: no field is a blank line, and either there is no
separator, the last field is terminated and there is room for one, or there is a separator of the same
kind as the end of the last field. -/
def FramingHolds (edited : EditedHeader) : Prop :=
  (∀ text ∈ edited.texts, isSeparator text = false) ∧
    ((edited.storage.separator = [] ∧
        (∀ text ∈ edited.texts.getLast?, Lines.Terminated isLF text) ∧
        edited.len < limits.headersSize) ∨
      (edited.storage.separator = [LF] ∧ edited.texts ≠ []) ∨
      (edited.storage.separator = [CR, LF] ∧
        ∃ text ∈ edited.texts.getLast?, endsWith text [CR, LF] = true))

/-- However it is cut into pieces, the reader takes the edited fields and one separator from the output
and leaves the body. -/
def ReadsBack (edited : EditedHeader) (output body : Bytes) : Prop :=
  ∀ reader : Reader, reader.Complete → reader.content = output →
    ∃ head rest separator, Message.readHeaders reader limits = .ok (head, rest) ∧
      isSeparator separator = true ∧ head.asBytes = edited.texts.flatten ++ separator ∧
      fieldTexts head.asBytes = edited.texts ∧ rest.content = body

theorem isSeparator_of_isField {text : Bytes} (h : IsField text) : isSeparator text = false := by
  rw [Bool.eq_false_iff]
  intro hsep
  have hmem : text ∈ lines text := by
    rw [lines_of_isSeparator hsep]
    simp
  rw [h.not_isSeparator text hmem] at hsep
  cases hsep

theorem linesWithin_concat {limits : MessageLimits} {fieldSize : Nat} {ls : List Bytes}
    {separator : Bytes} (h : LinesWithin limits fieldSize ls) (hsep : isSeparator separator = true)
    (husize : separator.length ≤ usizeMax) (hline : separator.length ≤ limits.headerLineSize) :
    LinesWithin limits fieldSize (ls ++ [separator]) := by
  induction ls generalizing fieldSize with
  | nil => exact ⟨husize, hline, by simp [hsep]⟩
  | cons line rest ih =>
    obtain ⟨hlineUsize, hlineSize, hrest⟩ := h
    refine ⟨hlineUsize, hlineSize, fun hnot => ?_⟩
    obtain ⟨hfield, hfieldSize, hwithin⟩ := hrest hnot
    exact ⟨hfield, hfieldSize, ih hwithin⟩

/-- A separator behind terminated text is one of its lines. -/
theorem mem_lines_of_endsWith {bytes front separator : Bytes} (hfront : Lines.Terminated isLF front)
    (hsep : isSeparator separator = true) (h : endsWith bytes (front ++ separator) = true) :
    separator ∈ lines bytes := by
  obtain ⟨init, rfl⟩ := List.isSuffixOf_iff_suffix.mp h
  rw [← List.append_assoc, lines_append hfront.append, lines_of_isSeparator hsep]
  simp

/-- Text without blank lines does not end in one. -/
theorem framedHeader_of_no_separator {edited : EditedHeader}
    (h : ∀ line ∈ lines edited.asBytes, isSeparator line = false) :
    framedHeader edited = edited.asBytes ++ [LF] := by
  have hends : ∀ front separator : Bytes, Lines.Terminated isLF front →
      isSeparator separator = true → endsWith edited.asBytes (front ++ separator) = false := by
    intro front separator hfront hsep
    rw [Bool.eq_false_iff]
    intro hend
    rw [h separator (mem_lines_of_endsWith hfront hsep hend)] at hsep
    cases hsep
  have hlf : endsWith edited.asBytes [LF, LF] = false := hends [LF] [LF] (terminated_of_isSeparator rfl) rfl
  have hcrlf : endsWith edited.asBytes [CR, LF, CR, LF] = false :=
    hends [CR, LF] [CR, LF] (terminated_of_isSeparator rfl) rfl
  simp [framedHeader, hlf, hcrlf]

theorem framedHeader_of_endsWith {edited : EditedHeader} {ending : Bytes}
    (hending : ending = [LF, LF] ∨ ending = [CR, LF, CR, LF])
    (h : endsWith edited.asBytes ending = true) : framedHeader edited = edited.asBytes := by
  rcases hending with rfl | rfl
  · simp [framedHeader, h]
  · simp [framedHeader, h]

theorem endsWith_append {bytes front suffix ending : Bytes} (h : endsWith front ending = true)
    (hbytes : bytes = front ++ suffix) : endsWith bytes (ending ++ suffix) = true := by
  obtain ⟨init, rfl⟩ := List.isSuffixOf_iff_suffix.mp h
  rw [hbytes]
  exact List.isSuffixOf_iff_suffix.mpr ⟨init, by simp⟩

theorem endsWith_flatten {texts : List Bytes} {text ending : Bytes}
    (hlast : texts.getLast? = some text) (h : endsWith text ending = true) :
    endsWith texts.flatten ending = true := by
  obtain ⟨init, rfl⟩ := List.getLast?_eq_some_iff.mp hlast
  obtain ⟨front, rfl⟩ := List.isSuffixOf_iff_suffix.mp h
  exact List.isSuffixOf_iff_suffix.mpr ⟨init.flatten ++ front, by simp⟩

/-- The fields that are read back are fields, and terminated in front of the separator. -/
theorem texts_of_readsBack {edited : EditedHeader} {separator : Bytes} (hsep : isSeparator separator = true)
    (hfields : fieldTexts (edited.texts.flatten ++ separator) = edited.texts) :
    ∀ text ∈ edited.texts, IsField text ∧ Lines.Terminated isLF text := by
  have hcontent := (fieldTexts_headerContent_spec (edited.texts.flatten ++ separator)).1
  have hparts := headerContent_append_headerSeparator (edited.texts.flatten ++ separator)
  have hframed := framed_fieldTexts (edited.texts.flatten ++ separator)
  rw [← fieldTexts_eq, hfields] at hcontent hframed
  rw [← hcontent] at hparts
  have hseparator := List.append_cancel_left hparts
  have hne : headerSeparator (edited.texts.flatten ++ separator) ≠ [] := by
    rw [hseparator]
    exact (terminated_of_isSeparator hsep).ne_nil
  exact fun text htext => ⟨(hframed text htext).1, (hframed text htext).2 hne⟩

/-- A terminated field has more than its delimiter. -/
theorem two_le_length_of_isField {text : Bytes} (h : IsField text)
    (hterm : Lines.Terminated isLF text) : 2 ≤ text.length := by
  obtain ⟨init, rfl⟩ := (terminated_iff_suffix text).mp hterm
  cases init with
  | nil => exact absurd (isSeparator_of_isField h) (by decide)
  | cons byte init => simp

namespace Checked

variable {edited : EditedHeader} (h : Checked edited)

include h

theorem isField (hblank : ∀ text ∈ edited.texts, isSeparator text = false) :
    ∀ text ∈ edited.texts, IsField text := by
  intro text htext
  rcases (h.placed text htext).1 with hfield | hsep
  · exact hfield
  · rw [hblank text htext] at hsep
    cases hsep

/-- Texts that stay apart are all terminated when the last one is. -/
theorem terminated (hblank : ∀ text ∈ edited.texts, isSeparator text = false)
    (hlast : ∀ text ∈ edited.texts.getLast?, Lines.Terminated isLF text) :
    ∀ text ∈ edited.texts, Lines.Terminated isLF text := by
  have hne : ∀ text ∈ edited.texts, text ≠ [] := fun text htext =>
    (h.isField hblank text htext).ne_nil
  cases hget : edited.texts.getLast? with
  | none =>
    rw [List.getLast?_eq_none_iff.mp hget]
    simp
  | some text =>
    refine terminated_texts hne h.settled.apart ?_
    obtain ⟨init, hinit⟩ := List.getLast?_eq_some_iff.mp hget
    rw [hinit, List.flatten_append, List.flatten_singleton]
    exact (hlast text hget).append

/-- The lines of the fields hold no blank one. -/
theorem no_separator (hblank : ∀ text ∈ edited.texts, isSeparator text = false) :
    ∀ line ∈ lines edited.texts.flatten, isSeparator line = false := by
  intro line hline
  rw [lines_flatten_texts h.settled.apart] at hline
  obtain ⟨text, htext, hline⟩ := List.mem_flatMap.mp hline
  exact (h.isField hblank text htext).not_isSeparator line hline

/-- What is written when the framing holds: the terminated fields and one separator, within the
limits. -/
theorem framed (hholds : FramingHolds edited) :
    ∃ separator, isSeparator separator = true ∧
      framedHeader edited = edited.texts.flatten ++ separator ∧
      (∀ text ∈ edited.texts, Lines.Terminated isLF text) ∧
      LinesWithin limits 0 (lines (framedHeader edited)) ∧
      (framedHeader edited).length ≤ limits.headersSize := by
  obtain ⟨hblank, hcases⟩ := hholds
  have hbytes := h.asBytes_eq
  have hwithin := h.within
  have hsize := h.size
  rcases hcases with ⟨hsep, hlast, hroom⟩ | ⟨hsep, hne⟩ | ⟨hsep, text, hlast, hcrlf⟩
  · have hterm := h.terminated hblank hlast
    rw [hsep, List.append_nil] at hbytes
    have hnone := h.no_separator hblank
    rw [← hbytes] at hnone
    have hframed := framedHeader_of_no_separator hnone
    have hlines : lines (edited.asBytes ++ [LF]) = lines edited.asBytes ++ [[LF]] := by
      rw [hbytes]
      by_cases hnil : edited.texts = []
      · rw [hnil]
        rfl
      · obtain ⟨last, hget⟩ := Option.isSome_iff_exists.mp (List.getLast?_isSome.mpr hnil)
        obtain ⟨init, hinit⟩ := List.getLast?_eq_some_iff.mp hget
        have hflat : Lines.Terminated isLF edited.texts.flatten := by
          rw [hinit, List.flatten_append, List.flatten_singleton]
          exact (hlast last hget).append
        exact lines_append hflat [LF]
    have hlen : edited.len = edited.asBytes.length := by
      rw [EditedHeader.len, h.settled.coherent.size, h.settled.coherent.asBytes]
    refine ⟨[LF], rfl, by rw [hframed, hbytes], hterm, ?_, ?_⟩
    · rw [hframed, hlines]
      exact linesWithin_concat hwithin rfl (by decide) (by decide)
    · rw [hframed, List.length_append, List.length_singleton]
      omega
  · have hterm : ∀ text ∈ edited.texts, Lines.Terminated isLF text :=
      fun text htext => (h.placed text htext).2 (by simp [hsep])
    obtain ⟨last, hget⟩ := Option.isSome_iff_exists.mp (List.getLast?_isSome.mpr hne)
    have hend := endsWith_append (endsWith_flatten hget
      (endsWith_LF.mpr (hterm last (List.mem_of_getLast? hget)))) hbytes
    rw [hsep] at hend
    have hframed := framedHeader_of_endsWith (Or.inl rfl) hend
    refine ⟨[LF], rfl, by rw [hframed, hbytes, hsep], hterm, ?_, ?_⟩
    · rwa [hframed]
    · rwa [hframed]
  · have hterm : ∀ text ∈ edited.texts, Lines.Terminated isLF text :=
      fun text htext => (h.placed text htext).2 (by simp [hsep])
    have hend := endsWith_append (endsWith_flatten hlast hcrlf) hbytes
    rw [hsep] at hend
    have hframed := framedHeader_of_endsWith (Or.inr rfl) hend
    refine ⟨[CR, LF], rfl, by rw [hframed, hbytes, hsep], hterm, ?_, ?_⟩
    · rwa [hframed]
    · rwa [hframed]

theorem readsBack (hholds : FramingHolds edited) (body : Bytes) :
    ReadsBack edited (framedHeader edited ++ body) body := by
  obtain ⟨separator, hsep, hframed, hterm, hwithin, hsize⟩ := h.framed hholds
  have hnone := h.no_separator hholds.1
  have hlines : lines (framedHeader edited) = lines edited.texts.flatten ++ [separator] := by
    rw [hframed]
    by_cases hnil : edited.texts = []
    · rw [hnil]
      exact lines_of_isSeparator hsep
    · have hflat : Lines.Terminated isLF edited.texts.flatten := by
        obtain ⟨last, hget⟩ := Option.isSome_iff_exists.mp (List.getLast?_isSome.mpr hnil)
        obtain ⟨init, hinit⟩ := List.getLast?_eq_some_iff.mp hget
        rw [hinit, List.flatten_append, List.flatten_singleton]
        exact (hterm last (List.mem_of_getLast? hget)).append
      rw [lines_append hflat, lines_of_isSeparator hsep]
  have hfields : fieldTexts (framedHeader edited) = edited.texts := by
    rw [fieldTexts, hlines, fieldTextsOfLines_separator hnone hsep]
    exact fieldTexts_flatten (h.isField hholds.1) h.settled.apart
  have hend : Lines.Terminated isLF (framedHeader edited) := by
    rw [hframed]
    exact (terminated_of_isSeparator hsep).append
  intro reader hcomplete hcontent
  have hsection : sectionLines (lines reader.content) = (lines (framedHeader edited), lines body) := by
    rw [hcontent, lines_append hend, hlines, List.append_assoc]
    exact sectionLines_append_separator hnone hsep
  have hmessage : limits.headersSize ≤ limits.messageSize := by decide
  obtain ⟨head, rest, hread, hhead, hrest, -⟩ := Message.readHeaders_of_within hcomplete hsection
    hwithin hsize (hsize.trans hmessage)
  exact ⟨head, rest, separator, hread, hsep, by rw [hhead, hframed], by rw [hhead, hfields], hrest⟩

/-- A separator of a header is no lone CR. -/
theorem separator_ne_CR : edited.storage.separator ≠ [CR] := by
  obtain ⟨header, hheader⟩ := h.separator
  rw [hheader]
  intro hcr
  have hlines := lines_headerSeparator header
  rw [hcr] at hlines
  have hsep := isSeparator_head_restLines hlines.symm
  cases hsep

/-- Output that is read back was framed as it should be. -/
theorem framingHolds {body : Bytes} (hback : ReadsBack edited (framedHeader edited ++ body) body) :
    FramingHolds edited := by
  obtain ⟨head, rest, separator, hread, hsep, hhead, hfields, hrest⟩ :=
    hback (Reader.cursor _) (Reader.complete_cursor _) (Reader.content_cursor _)
  have hcontent := Message.readHeaders_content hread
  rw [Reader.content_cursor, hrest, hhead] at hcontent
  have hframed : edited.texts.flatten ++ separator = framedHeader edited :=
    List.append_cancel_right hcontent
  rw [hhead] at hfields
  have htexts := texts_of_readsBack hsep hfields
  have hsize := (Message.readHeaders_eq_ok hread).2.2
  have hblank : ∀ text ∈ edited.texts, isSeparator text = false :=
    fun text htext => isSeparator_of_isField (htexts text htext).1
  have hsepCases : separator = [LF] ∨ separator = [CR, LF] := by
    simpa [isSeparator] using hsep
  refine ⟨hblank, ?_⟩
  have hbytes := h.asBytes_eq
  unfold framedHeader at hframed
  simp only at hframed
  split_ifs at hframed with hends
  · -- a line feed has been written
    rw [hbytes, List.append_assoc] at hframed
    have hadded := List.append_cancel_left hframed
    rcases hsepCases with rfl | rfl
    · have hnil : edited.storage.separator = [] := by
        have hlen := congrArg List.length hadded
        rw [List.length_append] at hlen
        exact List.length_eq_zero_iff.mp (by simpa using hlen)
      refine Or.inl ⟨hnil, fun text hlast => (htexts text (List.mem_of_getLast? hlast)).2, ?_⟩
      rw [hhead, List.length_append, List.length_singleton] at hsize
      rw [EditedHeader.len, h.settled.coherent.size, ← h.settled.coherent.asBytes, hbytes, hnil,
        List.append_nil]
      exact hsize
    · refine absurd ?_ h.separator_ne_CR
      exact (List.append_cancel_right (show [CR] ++ [LF] = edited.storage.separator ++ [LF] from
        hadded)).symm
  · rw [List.append_nil, hbytes] at hframed
    have hstored := List.append_cancel_left hframed
    rw [Bool.and_eq_true, not_and_or] at hends
    right
    rcases hsepCases with rfl | rfl
    · refine Or.inl ⟨hstored.symm, fun hnil => ?_⟩
      rw [hbytes, hnil, ← hstored] at hends
      rcases hends with hends | hends
      · exact hends (by decide)
      · exact hends (by decide)
    · refine Or.inr ⟨hstored.symm, ?_⟩
      rw [hbytes, ← hstored] at hends
      have hcrlf : endsWith (edited.texts.flatten ++ [CR, LF]) [CR, LF, CR, LF] = true := by
        rcases hends with hends | hends
        · have hlf : endsWith (edited.texts.flatten ++ [CR, LF]) [LF, LF] = true := by
            simpa using hends
          obtain ⟨init, hinit⟩ := List.isSuffixOf_iff_suffix.mp hlf
          exact absurd (List.append_inj_right' hinit rfl) (by decide)
        · simpa using hends
      obtain ⟨init, hinit⟩ := List.isSuffixOf_iff_suffix.mp hcrlf
      have hflat : init ++ [CR, LF] = edited.texts.flatten :=
        List.append_cancel_right (show init ++ [CR, LF] ++ [CR, LF] = _ by
          rw [List.append_assoc]
          exact hinit)
      have hne : edited.texts ≠ [] := by
        intro hnil
        rw [hnil] at hflat
        simp at hflat
      obtain ⟨last, hlast⟩ := Option.isSome_iff_exists.mp (List.getLast?_isSome.mpr hne)
      obtain ⟨front, hfront⟩ := List.getLast?_eq_some_iff.mp hlast
      obtain ⟨hfield, hterm⟩ := htexts last (List.mem_of_getLast? hlast)
      refine ⟨last, hlast, List.isSuffixOf_iff_suffix.mpr ?_⟩
      rw [hfront, List.flatten_append, List.flatten_singleton] at hflat
      exact List.suffix_of_suffix_length_le ⟨init, hflat⟩ (List.suffix_append _ _)
        (two_le_length_of_isField hfield hterm)

end Checked

/-- What a run without extraction writes is the postmark line, when there is one, and a message that the
reader takes apart into the edited fields, one separator and the body with the configured quoting,
exactly when the framing holds. -/
theorem formail_output_framed_iff {env : Environment} {options : Options} {stdin : Reader}
    {output : Bytes} (hplain : options.Plain) (hmode : options.isExtracting = false)
    (hrun : run env options stdin = .ok output) :
    ∃ head edited rest postmark message,
      Message.readHeaders stdin limits = .ok (head, rest) ∧
      processHeader env options stdin = .ok (edited, rest) ∧
      postmarkLine env options edited = .ok postmark ∧ output = postmark ++ message ∧
      (ReadsBack edited message
          (quoted options.escapeBogus options.quotePrefix rest.content) ↔
        FramingHolds edited) := by
  obtain ⟨⟨edited, rest⟩, hprocess, hrun⟩ := bind_eq_ok hrun
  simp only [hmode] at hrun
  rw [if_neg Bool.false_ne_true] at hrun
  obtain ⟨postmark, hpostmark, hrun⟩ := bind_eq_ok hrun
  obtain ⟨body, hbody, hrun⟩ := bind_eq_ok hrun
  obtain rfl := Except.ok.inj hrun
  obtain ⟨hchecked, head, hread⟩ := processHeader_eq_ok hplain hprocess
  refine ⟨head, edited, rest, postmark, framedHeader edited ++ body, hread, hprocess, hpostmark,
    List.append_assoc _ _ _, ?_⟩
  rw [← streamBody_eq_ok hbody]
  exact ⟨hchecked.framingHolds, fun hholds => hchecked.readsBack hholds body⟩

/-- `-f`, on a host without a name. -/
def forceFormat : Options := { Options.default with forceFormat := true }

/-- A host without a clock and without a name. -/
def namelessHost : Environment := ⟨.error "no clock", fun _ => 0, 0, [], by simp⟩

theorem formail_output_framed_plain :
    ∃ edited rest message,
      processHeader namelessHost forceFormat (Reader.cursor (strBytes "A: b\n\nFrom x")) =
        .ok (edited, rest) ∧
      run namelessHost forceFormat (Reader.cursor (strBytes "A: b\n\nFrom x")) = .ok message ∧
      ReadsBack edited message (quoted true (strBytes ">") rest.content) := by
  have hplain : forceFormat.Plain := by
    intro argument hargument
    cases hargument
  have hrun : run namelessHost forceFormat (Reader.cursor (strBytes "A: b\n\nFrom x")) =
      .ok (strBytes "A: b\n\n>From x") := by decide +kernel
  obtain ⟨head, edited, rest, postmark, message, -, hprocess, hpostmark, houtput, hiff⟩ :=
    formail_output_framed_iff hplain rfl hrun
  have hparts : (processHeader namelessHost forceFormat
      (Reader.cursor (strBytes "A: b\n\nFrom x"))).map
        (fun result => (result.1.texts, result.1.storage.separator)) =
      .ok ([strBytes "A: b\n"], [LF]) := by decide +kernel
  rw [hprocess] at hparts
  obtain ⟨htexts, hsep⟩ := Prod.mk.inj (Except.ok.inj hparts)
  have hholds : FramingHolds edited := by
    refine ⟨?_, Or.inr (Or.inl ⟨hsep, by simp [htexts]⟩)⟩
    rw [htexts]
    decide +kernel
  have hempty : postmark = [] := by
    rw [postmarkLine, if_neg (by simp [forceFormat])] at hpostmark
    exact (Except.ok.inj hpostmark).symm
  rw [hempty, List.nil_append] at houtput
  exact ⟨edited, rest, message, hprocess, hrun.trans (congrArg _ houtput), hiff.mpr hholds⟩

/-- A header that is only a separator gets a second one, which reads as the beginning of the body. -/
theorem empty_header_not_framed :
    ∃ edited rest,
      processHeader namelessHost forceFormat (Reader.cursor (strBytes "\nbody\n")) =
        .ok (edited, rest) ∧
      run namelessHost forceFormat (Reader.cursor (strBytes "\nbody\n")) =
        .ok (strBytes "\n\nbody\n") ∧
      forceFormat.Plain ∧ forceFormat.isExtracting = false ∧
      ¬ ReadsBack edited (strBytes "\n\nbody\n") (quoted true (strBytes ">") rest.content) := by
  have hrest : (processHeader namelessHost forceFormat (Reader.cursor (strBytes "\nbody\n"))).map
      (fun result => result.2.content) = .ok (strBytes "body\n") := by decide +kernel
  obtain ⟨⟨edited, rest⟩, hprocess, hcontent⟩ := map_eq_ok hrest
  refine ⟨edited, rest, hprocess, by decide +kernel, ?_, rfl, fun hback => ?_⟩
  · intro argument hargument
    cases hargument
  · obtain ⟨head, left, separator, hread, -, -, -, hleft⟩ :=
      hback (Reader.cursor (strBytes "\n\nbody\n")) (Reader.complete_cursor _)
        (Reader.content_cursor _)
    have hread' : (Message.readHeaders (Reader.cursor (strBytes "\n\nbody\n")) limits).map
        (fun result => result.2.content) = .ok (strBytes "\nbody\n") := by decide +kernel
    rw [hread] at hread'
    have hbody : left.content = strBytes "\nbody\n" := Except.ok.inj hread'
    rw [hleft, hcontent] at hbody
    exact absurd hbody (by decide +kernel)

end ProcmailRs.Formail
