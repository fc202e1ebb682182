import ProcmailRs.HeaderEdit.Proofs.ReferenceProofs
import ProcmailRs.Proofs.MessageProofs

/-!
# An edited header frames the message as before

The validation of an edited header checks what the reader checks. The texts in the index stay fields,
and their serialization holds no blank line, so the header still ends where the original one does.
-/

namespace ProcmailRs

/-! ### Validation agrees with the reader -/

theorem addSize_eq_ok {a b c : Nat} : addSize a b = .ok c ↔ a + b ≤ usizeMax ∧ c = a + b := by
  unfold addSize
  cases h : checkedAdd a b with
  | none =>
    have hnot : ¬ a + b ≤ usizeMax := by
      intro hle
      simp [checkedAdd, hle] at h
    simp [hnot]
  | some sum =>
    obtain ⟨hle, rfl⟩ := checkedAdd_eq_some.mp h
    simp [hle, eq_comm]

theorem validateFieldLine_eq_ok {line : Bytes} {fieldSize next : Nat} {limits : MessageLimits}
    (hline : line.length ≤ usizeMax)
    (h : validateFieldLine line.head? line.length fieldSize limits = .ok next) :
    nextFieldSize fieldSize line ≤ usizeMax ∧
      nextFieldSize fieldSize line ≤ limits.headerFieldSize ∧ next = nextFieldSize fieldSize line := by
  unfold validateFieldLine at h
  unfold nextFieldSize
  by_cases hfold : isFolded line = true
  · rw [if_pos hfold]
    rw [if_pos (show line.head?.any isBlank = true from hfold)] at h
    obtain ⟨size, hsize, h⟩ := bind_eq_ok h
    obtain ⟨_, hcheck, h⟩ := bind_eq_ok h
    obtain rfl : size = next := Except.ok.inj h
    obtain ⟨hle, rfl⟩ := addSize_eq_ok.mp hsize
    exact ⟨hle, EditedHeader.checkLimit_eq_ok hcheck, rfl⟩
  · rw [if_neg hfold]
    rw [if_neg (show ¬ line.head?.any isBlank = true from hfold), ok_bind] at h
    obtain ⟨_, hcheck, h⟩ := bind_eq_ok h
    obtain rfl : line.length = next := Except.ok.inj h
    exact ⟨hline, EditedHeader.checkLimit_eq_ok hcheck, rfl⟩

theorem isSeparator_of_no_LF {line : Bytes} (h : ∀ b ∈ line, isLF b = false) :
    isSeparator line = false := by
  rw [Bool.eq_false_iff]
  intro hsep
  have hmem : LF ∈ line := by
    simp only [isSeparator, Bool.or_eq_true, beq_iff_eq] at hsep
    rcases hsep with rfl | rfl
    · simp
    · simp
  exact absurd (h LF hmem) (by decide)

/-- The validator's test for a blank line. -/
theorem isSeparator_concat {line : Bytes} (h : ∀ b ∈ line, isLF b = false) :
    isSeparator (line ++ [LF]) = true ↔
      line.length + 1 = 1 ∨ (line.length + 1 = 2 ∧ (line ++ [LF]).head? = some CR) := by
  cases line with
  | nil => simp [isSeparator]
  | cons byte rest =>
    cases rest with
    | nil =>
      simp [isSeparator]
    | cons next rest => simp [isSeparator]

theorem lines_concat_LF {line : Bytes} (h : ∀ b ∈ line, isLF b = false) (rest : Bytes) :
    lines (line ++ LF :: rest) = (line ++ [LF]) :: lines rest := by
  have hline : Lines.IsLine isLF (line ++ [LF]) := by
    refine ⟨by simp, ?_⟩
    rw [List.dropLast_concat]
    exact h
  have hterm : Lines.Terminated isLF (line ++ [LF]) :=
    Lines.Terminated.append (Lines.terminated_singleton.mpr (by decide))
  rw [show line ++ LF :: rest = (line ++ [LF]) ++ rest by simp, lines_append hterm, lines,
    hline.splitInclusive_eq]
  rfl

/-- The scan over the output checks the line and field limits of the reader. -/
theorem validateBytes_eq_ok {limits : MessageLimits} {bytes line : Bytes} {first : Option UInt8}
    {fieldSize : Nat} {u : Unit} (hline : ∀ b ∈ line, isLF b = false)
    (hfirst : line ≠ [] → first = line.head?)
    (hfits : line.length ≤ usizeMax ∧ line.length ≤ limits.headerLineSize)
    (h : validateBytes limits line.length first fieldSize bytes = .ok u) :
    LinesWithin limits fieldSize (lines (line ++ bytes)) := by
  -- `line` is the part of the current line the scan has passed
  induction bytes generalizing line first fieldSize with
  | nil =>
    rw [List.append_nil]
    cases line with
    | nil => trivial
    | cons b l =>
      rw [show lines (b :: l) = [b :: l] from
        Lines.splitInclusive_of_forall_not (by simp) hline]
      rw [validateBytes, if_pos (by simp), hfirst (by simp)] at h
      obtain ⟨next, hnext, -⟩ := bind_eq_ok h
      obtain ⟨hmax, hfield, -⟩ := validateFieldLine_eq_ok hfits.1 hnext
      exact ⟨hfits.1, hfits.2, fun _ => ⟨hmax, hfield, trivial⟩⟩
  | cons byte rest ih =>
    obtain ⟨size, hsize, h⟩ := bind_eq_ok h
    obtain ⟨_, hcheck, h⟩ := bind_eq_ok h
    obtain ⟨hmax, rfl⟩ := addSize_eq_ok.mp hsize
    have hlimit := EditedHeader.checkLimit_eq_ok hcheck
    have hhead : (if line.length = 0 then some byte else first) = (line ++ [byte]).head? := by
      cases line with
      | nil => rfl
      | cons b l => simp [hfirst (by simp)]
    rw [hhead] at h
    have hlen : (line ++ [byte]).length = line.length + 1 := by simp
    by_cases hbyte : byte = LF
    · subst hbyte
      rw [if_pos rfl] at h
      rw [lines_concat_LF hline]
      refine ⟨by rw [hlen]; exact hmax, by rw [hlen]; exact hlimit, ?_⟩
      intro hsep
      rw [if_neg (by rw [← isSeparator_concat hline, hsep]; simp), ← hlen] at h
      obtain ⟨next, hnext, h⟩ := bind_eq_ok h
      obtain ⟨hfmax, hfield, rfl⟩ := validateFieldLine_eq_ok (by rw [hlen]; exact hmax) hnext
      have hrest : LinesWithin limits _ (lines ([] ++ rest)) := ih (by simp) (by simp) (by simp) h
      exact ⟨hfmax, hfield, hrest⟩
    · rw [if_neg hbyte, ← hlen] at h
      have hopen : ∀ b ∈ line ++ [byte], isLF b = false := by
        intro b hb
        rcases List.mem_append.mp hb with hb | hb
        · exact hline b hb
        · obtain rfl : b = byte := by simpa using hb
          simpa [isLF] using hbyte
      have hwithin := ih hopen (fun _ => rfl) ⟨by omega, by omega⟩ h
      rwa [List.append_assoc] at hwithin

/-- A header that passes the validation is accepted by the reader together with a body of that size,
when the reader accepts the body. -/
theorem accepts_of_validateHeaderParts {parts : List Bytes} {body : Bytes} {limits : MessageLimits}
    {u : Unit}
    (h : validateHeaderParts parts parts.flatten.length body.length limits = .ok u)
    (hbody : body.length ≤ limits.bodySize) : Accepts limits parts.flatten body := by
  obtain ⟨_, hheaders, h⟩ := bind_eq_ok h
  obtain ⟨total, htotal, h⟩ := bind_eq_ok h
  obtain ⟨hmax, rfl⟩ := addSize_eq_ok.mp htotal
  obtain ⟨_, hmessage, h⟩ := bind_eq_ok h
  refine ⟨?_, EditedHeader.checkLimit_eq_ok hheaders, hbody, EditedHeader.checkLimit_eq_ok hmessage,
    fun _ => hmax⟩
  have hscan : validateBytes limits ([] : Bytes).length none 0 parts.flatten = .ok u := h
  exact validateBytes_eq_ok (by simp) (by simp) (by simp) hscan

/-! ### The texts stay fields -/

/-- The beginning of the first line of a field may change as long as the line keeps a colon. -/
theorem IsField.replace_start {old new rest : Bytes} (h : IsField (old ++ rest)) (hne : old ≠ [])
    (hold : ∀ b ∈ old, isLF b = false) (hnew : ∀ b ∈ new, isLF b = false) (hcolon : COLON ∈ new) :
    IsField (new ++ rest) := by
  obtain ⟨first, cont, hlines, -, hcont⟩ := h
  -- the two texts differ in front of the first delimiter only
  obtain ⟨tail, -, hsplit⟩ := Lines.splitInclusive_append_open hold hne hlines
  refine ⟨new ++ tail, cont, hsplit new hnew (List.ne_nil_of_mem hcolon), ?_, hcont⟩
  exact isSeparator_of_mem (List.mem_append_left tail hcolon) (by decide) (by decide)

/-- A field may get another name. -/
theorem IsField.replace_name {old new rest : Bytes} (h : IsField (old ++ COLON :: rest))
    (hold : ∀ b ∈ old, isLF b = false) (hnew : ∀ b ∈ new, isLF b = false) :
    IsField (new ++ COLON :: rest) := by
  have hcolon : ∀ name : Bytes, (∀ b ∈ name, isLF b = false) →
      ∀ b ∈ name ++ [COLON], isLF b = false := by
    intro name hname b hb
    rcases List.mem_append.mp hb with hb | hb
    · exact hname b hb
    · obtain rfl : b = COLON := by simpa using hb
      decide
  rw [List.append_cons] at h ⊢
  exact h.replace_start (by simp) (hcolon old hold) (hcolon new hnew) (by simp)

namespace FieldList

/-- A property of field texts that generated and renamed fields have. -/
structure Stable (P : Bytes → Prop) (lineEnding : LineEnding) : Prop where
  make : ∀ {name value field}, makeField name value lineEnding = .ok field → P field
  rename : ∀ {source target : HeaderName} {text renamed}, named source text = true → P text →
    renameField (fieldFromBytes text) target = .ok renamed → P renamed

section Stability

variable {P : Bytes → Prop} {lineEnding : LineEnding} (hP : Stable P lineEnding)
  {allow : Nat → Except HeaderEditError Unit}

theorem forall_remove {fields : List Bytes} (h : ∀ text ∈ fields, P text) (name : HeaderName) :
    ∀ text ∈ remove name fields, P text :=
  fun text htext => h text (List.mem_of_mem_filter htext)

theorem forall_removeAll {names : List HeaderName} {fields : List Bytes}
    (h : ∀ text ∈ fields, P text) : ∀ text ∈ removeAll names fields, P text := by
  induction names generalizing fields with
  | nil => exact h
  | cons name rest ih => exact ih (forall_remove h name)

theorem forall_replace {name : HeaderName} {replacement : Bytes} (hrep : P replacement)
    {fields : List Bytes} (h : ∀ text ∈ fields, P text) :
    ∀ text ∈ replace name replacement fields, P text := by
  induction fields with
  | nil => simpa [replace] using hrep
  | cons text rest ih =>
    have hrest : ∀ text ∈ rest, P text := fun t ht => h t (by simp [ht])
    unfold replace
    split_ifs with hnamed
    · exact List.forall_mem_cons.mpr ⟨hrep, forall_remove hrest name⟩
    · exact List.forall_mem_cons.mpr ⟨h text (by simp), ih hrest⟩

include hP

theorem Stable.set {name : HeaderName} {value : String} {fields result : List Bytes}
    (h : ∀ text ∈ fields, P text)
    (hset : FieldList.set allow lineEnding name value fields = .ok result) :
    ∀ text ∈ result, P text := by
  obtain ⟨replacement, hmake, hset⟩ := bind_eq_ok hset
  obtain ⟨_, -, hset⟩ := bind_eq_ok hset
  obtain rfl := Except.ok.inj hset
  exact forall_replace (hP.make hmake) h

theorem Stable.setAll {values : List (HeaderName × String)} {fields result : List Bytes}
    (h : ∀ text ∈ fields, P text)
    (hset : FieldList.setAll allow lineEnding values fields = .ok result) :
    ∀ text ∈ result, P text := by
  refine foldlM_preserves (P := fun current => ∀ text ∈ current, P text) hset h ?_
  intro current value next _ hcurrent hnext
  exact hP.set hcurrent hnext

theorem Stable.setOrRemove {name : HeaderName} {value : Option String} {fields result : List Bytes}
    (h : ∀ text ∈ fields, P text)
    (hset : FieldList.setOrRemove allow lineEnding name value fields = .ok result) :
    ∀ text ∈ result, P text := by
  cases value with
  | none =>
    obtain rfl := Except.ok.inj hset
    exact forall_remove h name
  | some value => exact hP.set h hset

theorem Stable.renameAll {source target : HeaderName} {done fields result : List Bytes}
    (hdone : ∀ text ∈ done, P text) (h : ∀ text ∈ fields, P text)
    (hrename : FieldList.rename allow source target done fields = .ok result) :
    ∀ text ∈ result, P text := by
  induction fields generalizing done with
  | nil =>
    obtain rfl : done = result := Except.ok.inj hrename
    exact hdone
  | cons text rest ih =>
    have hrest : ∀ text ∈ rest, P text := fun t ht => h t (by simp [ht])
    have happend : ∀ next, P next → ∀ t ∈ done ++ [next], P t := by
      intro next hnext t ht
      rcases List.mem_append.mp ht with ht | ht
      · exact hdone t ht
      · obtain rfl : t = next := by simpa using ht
        exact hnext
    unfold FieldList.rename at hrename
    split_ifs at hrename with hnamed
    · obtain ⟨renamed, hrenamed, hrename⟩ := bind_eq_ok hrename
      obtain ⟨_, -, hrename⟩ := bind_eq_ok hrename
      exact ih (happend renamed (hP.rename hnamed (h text (by simp)) hrenamed)) hrest hrename
    · exact ih (happend text (h text (by simp))) hrest hrename

theorem Stable.keywords {mode : HeaderKeywordsMode} {fields result : List Bytes}
    (h : ∀ text ∈ fields, P text)
    (hrun : FieldList.keywords allow lineEnding mode fields = .ok result) :
    ∀ text ∈ result, P text := by
  obtain ⟨words, -, hrun⟩ := bind_eq_ok hrun
  split_ifs at hrun with hempty
  · obtain rfl := Except.ok.inj hrun
    exact forall_removeAll h
  · exact hP.setAll h hrun

theorem Stable.priority {mode : HeaderPriorityMode} {fields result : List Bytes}
    (h : ∀ text ∈ fields, P text)
    (hrun : FieldList.priority allow lineEnding mode fields = .ok result) :
    ∀ text ∈ result, P text := by
  unfold FieldList.priority at hrun
  split at hrun
  · exact hP.setAll h hrun
  · obtain rfl := Except.ok.inj hrun
    exact forall_removeAll h

/-- One operation keeps the property. -/
theorem Stable.run {state result : State} {operation : HeaderOperation}
    (h : ∀ text ∈ state.fields, P text)
    (hrun : FieldList.run allow lineEnding state operation = .ok result) :
    ∀ text ∈ result.fields, P text := by
  cases operation with
  | Remove _ name =>
    have hfields : remove name state.fields = result.fields :=
      congrArg State.fields (Except.ok.inj hrun)
    rw [← hfields]
    exact forall_remove h name
  | Set _ name value =>
    obtain ⟨fields, hfields, rfl⟩ := map_eq_ok hrun
    exact hP.set h hfields
  | Add _ name value =>
    obtain ⟨fields, hfields, rfl⟩ := map_eq_ok hrun
    obtain ⟨field, hmake, hgrown⟩ := bind_eq_ok hfields
    obtain ⟨_, -, hgrown⟩ := bind_eq_ok hgrown
    obtain rfl := Except.ok.inj hgrown
    intro text htext
    rcases List.mem_append.mp htext with htext | htext
    · exact h text htext
    · obtain rfl : text = field := by simpa using htext
      exact hP.make hmake
  | Prepend _ name value =>
    obtain ⟨fields, hfields, rfl⟩ := map_eq_ok hrun
    obtain ⟨field, hmake, hgrown⟩ := bind_eq_ok hfields
    obtain ⟨_, -, hgrown⟩ := bind_eq_ok hgrown
    obtain rfl := Except.ok.inj hgrown
    exact List.forall_mem_cons.mpr ⟨hP.make hmake, h⟩
  | Rename _ source target =>
    obtain ⟨fields, hfields, rfl⟩ := map_eq_ok hrun
    exact hP.renameAll (by simp) h hfields
  | Extract line name target mode =>
    obtain ⟨value, -, hrun⟩ := bind_eq_ok hrun
    obtain rfl := Except.ok.inj hrun
    exact h
  | Keywords _ mode =>
    obtain ⟨fields, hfields, rfl⟩ := map_eq_ok hrun
    exact hP.keywords h hfields
  | Priority _ mode =>
    obtain ⟨fields, hfields, rfl⟩ := map_eq_ok hrun
    exact hP.priority h hfields
  | Status _ mode =>
    obtain ⟨marks, -, hrun⟩ := bind_eq_ok hrun
    obtain ⟨fields, hfields, hrun⟩ := bind_eq_ok hrun
    obtain ⟨fields', hfields', hrun⟩ := bind_eq_ok hrun
    obtain rfl := Except.ok.inj hrun
    exact hP.setOrRemove (hP.setOrRemove h hfields) hfields'

end Stability

/-- The texts of a header are fields, and all of them are terminated when a separator follows. -/
def Framed (closed : Prop) (text : Bytes) : Prop :=
  IsField text ∧ (closed → Lines.Terminated isLF text)

theorem terminated_append_cons {l l' : Bytes} {b : UInt8} {r : Bytes}
    (h : Lines.Terminated isLF (l ++ b :: r)) : Lines.Terminated isLF (l' ++ b :: r) := by
  unfold Lines.Terminated at *
  rw [List.getLast?_append_of_ne_nil _ (by simp)] at h ⊢
  exact h

/-- Generated and renamed fields are framed. -/
theorem stable_framed (closed : Prop) (lineEnding : LineEnding) :
    Stable (Framed closed) lineEnding := by
  constructor
  · intro name value field h
    obtain ⟨hfield, ⟨text, rfl⟩, -⟩ := serializeGeneratedHeader_spec (makeField_eq_ok h)
    exact ⟨hfield, fun _ => terminated_lineEnding text lineEnding⟩
  · intro source target text renamed hnamed htext h
    obtain ⟨old, rest, rfl, rfl, hold⟩ := renameField_named hnamed h
    obtain ⟨hfield, hterm⟩ := htext
    have hvalid := target.canonical_valid
    refine ⟨hfield.replace_name hold ?_, fun hclosed => ?_⟩
    · intro b hb
      simpa [isLF] using (ne_of_isHeaderNameByte b (hvalid b hb)).1
    · exact terminated_append_cons (hterm hclosed)

/-! ### The serialized header has no other blank line -/

/-- Completing an unterminated field makes no blank line. -/
theorem not_isSeparator_completed {text : Bytes} (h : IsField text)
    (hterm : ¬ Lines.Terminated isLF text) (preferred : LineEnding) :
    ∀ line ∈ lines (text ++ (joiningLineEnding text preferred).bytes), isSeparator line = false := by
  obtain ⟨before, last, rfl, hbefore, hlast⟩ := Lines.exists_terminated_append isLF text
  have hne : last ≠ [] := by
    rintro rfl
    rw [List.append_nil] at hterm h
    rcases hbefore with rfl | hbefore
    · exact h.ne_nil rfl
    · exact hterm hbefore
  have hlastLF : ∀ b ∈ last, b ≠ LF := by
    intro b hb
    simpa [isLF] using hlast b hb
  set ending := joiningLineEnding (before ++ last) preferred with hending
  have hline : Lines.IsLine isLF (last ++ ending.bytes) := isLine_lineEnding hlastLF ending
  have hblank : isSeparator (last ++ ending.bytes) = false := by
    rw [Bool.eq_false_iff]
    intro hsep
    simp only [isSeparator, Bool.or_eq_true, beq_iff_eq] at hsep
    obtain ⟨byte, rest, rfl⟩ := List.exists_cons_of_ne_nil hne
    cases hcase : ending with
    | Lf =>
      -- only a lone CR could make a blank line here, and then the delimiter is CRLF
      have hcr : byte :: rest = [CR] := by
        simpa [hcase, LineEnding.bytes] using hsep
      rw [hcr, joiningLineEnding] at hending
      have hends : endsWith (before ++ [CR]) [CR] = true := by simp [endsWith]
      rw [hends, hcase] at hending
      cases preferred with
      | Lf => simp at hending
      | CrLf => simp at hending
    | CrLf =>
      rcases hsep with hsep | hsep
      · have hlen := congrArg List.length hsep
        simp [hcase, LineEnding.bytes] at hlen
      · have hlen := congrArg List.length hsep
        simp [hcase, LineEnding.bytes] at hlen
  have hlines : lines (before ++ last ++ ending.bytes) = lines before ++ [last ++ ending.bytes] := by
    rw [List.append_assoc]
    rcases hbefore with rfl | hbefore
    · exact hline.splitInclusive_eq
    · rw [lines_append hbefore, lines, lines, hline.splitInclusive_eq]
  intro line hmem
  rw [hlines] at hmem
  rcases List.mem_append.mp hmem with hmem | hmem
  · refine h.not_isSeparator line ?_
    rcases hbefore with rfl | hbefore
    · cases hmem
    · rw [lines_append hbefore]
      exact List.mem_append_left _ hmem
  · obtain rfl : line = last ++ ending.bytes := by simpa using hmem
    exact hblank

/-- The joined fields hold no blank line. -/
theorem not_isSeparator_joinFields {fields : List Bytes} (h : ∀ text ∈ fields, IsField text)
    (preferred : LineEnding) :
    ∀ line ∈ lines (joinFields (fun text => joiningLineEnding text preferred) fields),
      isSeparator line = false := by
  induction fields with
  | nil => intro line hline; cases hline
  | cons text rest ih =>
    cases rest with
    | nil => exact (h text (by simp)).not_isSeparator
    | cons next rest =>
      have hrest := ih (fun t ht => h t (by simp [ht]))
      intro line hline
      unfold joinFields at hline
      split_ifs at hline with hends
      · rw [List.nil_append, lines_append (endsWith_LF.mp hends)] at hline
        rcases List.mem_append.mp hline with hline | hline
        · exact (h text (by simp)).not_isSeparator line hline
        · exact hrest line hline
      · rw [← List.append_assoc, lines_append (terminated_lineEnding text _)] at hline
        rcases List.mem_append.mp hline with hline | hline
        · exact not_isSeparator_completed (h text (by simp)) (fun ht => hends (endsWith_LF.mpr ht))
            preferred line hline
        · exact hrest line hline

/-- Joined terminated fields are terminated. -/
theorem terminated_joinFields {join : Bytes → LineEnding} {fields : List Bytes} (hne : fields ≠ [])
    (h : ∀ text ∈ fields, Lines.Terminated isLF text) :
    Lines.Terminated isLF (joinFields join fields) := by
  induction fields with
  | nil => exact absurd rfl hne
  | cons text rest ih =>
    cases rest with
    | nil => exact h text (by simp)
    | cons next rest =>
      unfold joinFields
      exact (Lines.Terminated.append (ih (by simp) fun t ht => h t (by simp [ht]))).append

/-- A header serialized from framed fields ends with its separator. -/
theorem restLines_joinFields {fields : List Bytes} {separator : Bytes}
    (h : ∀ text ∈ fields, Framed (separator ≠ []) text)
    (hsep : separator ≠ [] → isSeparator separator = true) (preferred : LineEnding) :
    restLines (joinFields (fun text => joiningLineEnding text preferred) fields ++ separator) =
      lines separator := by
  have hcontent := not_isSeparator_joinFields (fun text ht => (h text ht).1) preferred
  set joined := joinFields (fun text => joiningLineEnding text preferred) fields with hjoined
  by_cases hnil : separator = []
  · rw [hnil, List.append_nil, restLines, List.dropWhile_eq_nil_iff.mpr]
    · rfl
    · intro line hline
      simp [hcontent line hline]
  · have hlines : lines (joined ++ separator) = lines joined ++ lines separator := by
      by_cases hfields : fields = []
      · rw [hjoined, hfields]
        rfl
      · exact lines_append (terminated_joinFields hfields fun t ht => (h t ht).2 hnil) separator
    rw [restLines, hlines, lines_of_isSeparator (hsep hnil), List.dropWhile_append_of_pos]
    · simp [hsep hnil]
    · intro line hline
      simp [hcontent line hline]

end FieldList

/-! ### Successive actions -/

/-- What an action can start from: the header as it was read, or the result of an earlier action,
whose views may have been asked for in between. -/
inductive HeaderView.Reachable (limits : MessageLimits) (header : Bytes) : HeaderView → Prop
  | raw : Reachable limits header (.Raw header)
  | edited {view : HeaderView} {bodyLen : Nat} {action : HeaderAction}
      {applied : AppliedHeaderAction} (h : Reachable limits header view)
      (happly : applyHeaderAction view bodyLen action limits = .ok applied) :
      Reachable limits header (.Indexed applied.header)
  | read {edited : EditedHeader} (h : Reachable limits header (.Indexed edited)) :
      Reachable limits header (.Indexed edited.cached)

/-- The header is as the reader leaves it: within the limit, with at most one blank line, which ends
it. -/
structure HeaderSection (limits : MessageLimits) (header : Bytes) : Prop where
  size : header.length ≤ limits.headersSize
  separator : headerSeparator header ≠ [] → isSeparator (headerSeparator header) = true

open FieldList

/-- The texts of a header that stay apart are all terminated when the header content is. -/
theorem terminated_texts {texts : List Bytes} (hne : ∀ t ∈ texts, t ≠ [])
    (hapart : needsReindex texts = false) (h : Lines.Terminated isLF texts.flatten) :
    ∀ t ∈ texts, Lines.Terminated isLF t := by
  induction texts with
  | nil => intro t ht; cases ht
  | cons text rest ih =>
    cases rest with
    | nil =>
      intro t ht
      obtain rfl : t = text := by simpa using ht
      simpa using h
    | cons next rest =>
      obtain ⟨hterm, -, hapart'⟩ := terminated_of_needsReindex hapart
      have hflat : (next :: rest).flatten ≠ [] := by
        have hnext := hne next (by simp)
        simp [hnext]
      have hrest : Lines.Terminated isLF (next :: rest).flatten := by
        unfold Lines.Terminated at *
        rwa [List.flatten_cons, List.getLast?_append_of_ne_nil _ hflat] at h
      intro t ht
      rcases List.mem_cons.mp ht with rfl | ht
      · exact hterm
      · exact ih (fun t ht => hne t (by simp [ht])) hapart' hrest t ht

/-- The fields of a header are framed. -/
theorem framed_fieldTexts (header : Bytes) :
    ∀ text ∈ fieldTexts (headerContent header), Framed (headerSeparator header ≠ []) text := by
  obtain ⟨hflat, hfields, hapart⟩ := fieldTexts_headerContent_spec header
  intro text htext
  refine ⟨hfields text htext, fun hsep => ?_⟩
  have hrest : restLines header ≠ [] := by
    intro hnil
    rw [headerSeparator, hnil] at hsep
    exact hsep rfl
  have hproper := proper_lines header
  rw [← contentLines_append_restLines] at hproper
  have hlines := hproper.terminated hrest
  have hcontent : headerContent header ≠ [] := by
    intro hnil
    rw [hnil] at htext
    cases htext
  have hterm : Lines.Terminated isLF (headerContent header) := by
    obtain ⟨init, last, hlast⟩ := List.eq_nil_or_concat' (contentLines header) |>.resolve_left
      (fun hnil => hcontent (by rw [headerContent, hnil]; rfl))
    rw [headerContent, hlast, List.flatten_append, List.flatten_singleton]
    exact (hlines last (by simp [hlast])).append
  rw [← hflat] at hterm
  exact terminated_texts (fun t ht => (hfields t ht).ne_nil) hapart hterm text htext

namespace EditedHeader

/-- A header between two actions on a message whose header ends with `separator`. -/
structure Reached (limits : MessageLimits) (separator : Bytes) (header : EditedHeader) : Prop where
  settled : header.Settled
  room : header.storage.store.bytes.length ≤ limits.headersSize
  size : header.len ≤ limits.headersSize
  ending : header.storage.separator = separator
  framed : ∀ text ∈ header.texts, Framed (separator ≠ []) text

theorem Settled.cached {header : EditedHeader} (h : header.Settled) : header.cached.Settled := by
  obtain ⟨hwf, ⟨hbytes, hnorm, hsize⟩, hapart, hle⟩ := h
  exact ⟨hwf, ⟨hbytes, hnorm, hsize⟩, hapart, hle⟩

theorem Reached.cached {limits : MessageLimits} {separator : Bytes} {header : EditedHeader}
    (h : header.Reached limits separator) : header.cached.Reached limits separator :=
  ⟨h.settled.cached, h.room, h.size, h.ending, h.framed⟩

end EditedHeader

/-- Operations within the limits keep the fields framed. -/
theorem framed_runWithin {closed : Prop} {ceiling : Nat} {separator : Bytes}
    {lineEnding : LineEnding} {bodyLen : Nat} {limits : MessageLimits}
    {operations : List HeaderOperation} {state result : State}
    (hstate : ∀ text ∈ state.fields, Framed closed text)
    (h : operations.foldlM (runWithin ceiling separator lineEnding bodyLen limits) state =
      .ok result) : ∀ text ∈ result.fields, Framed closed text := by
  refine foldlM_preserves (P := fun current => ∀ text ∈ current.fields, Framed closed text) h hstate
    ?_
  intro current operation next _ hcurrent hnext
  obtain ⟨after, hrun, hnext⟩ := bind_eq_ok hnext
  obtain ⟨_, -, hnext⟩ := bind_eq_ok hnext
  obtain rfl : after = next := Except.ok.inj hnext
  exact (stable_framed closed lineEnding).run hcurrent hrun

/-- What an action starts from, in whichever representation the header is. -/
theorem HeaderView.start {limits : MessageLimits} {header : Bytes}
    (hsection : HeaderSection limits header) {view : HeaderView}
    (hview : view = .Raw header ∨
      ∃ edited : EditedHeader, view = .Indexed edited ∧
        edited.Reached limits (headerSeparator header)) :
    ∃ origin status fields, EditedHeader.new view limits = .ok origin ∧
      EditedHeader.Represents origin status origin fields ∧ origin.limits = limits ∧
      (origin.unique = false → origin.Settled) ∧ origin.ceiling = limits.headersSize ∧
      origin.storage.separator = headerSeparator header ∧
      ∀ text ∈ fields, Framed (headerSeparator header ≠ []) text := by
  rcases hview with rfl | ⟨edited, rfl, hreached⟩
  · obtain ⟨origin, hnew, hparsed, hrep, hsize, hlim, hunique⟩ := EditedHeader.new_raw header limits
    refine ⟨origin, _, _, hnew, hrep, hlim, ?_, ?_, hparsed.separator, framed_fieldTexts header⟩
    · intro hfalse
      rw [hunique] at hfalse
      cases hfalse
    · rw [EditedHeader.ceiling, EditedHeader.len, hsize, hlim]
      exact Nat.max_eq_right hsection.size
  · have hroom := hreached.room.trans (le_max_right edited.len limits.headersSize)
    obtain ⟨origin, hnew, hrep, hsettled, hstorage, hlim, -⟩ :=
      EditedHeader.new_indexed limits hreached.settled hroom
    refine ⟨origin, _, _, hnew, hrep, hlim, fun _ => hsettled, ?_, ?_, hreached.framed⟩
    · rw [EditedHeader.ceiling, EditedHeader.len, hstorage, hlim]
      exact Nat.max_eq_right hreached.size
    · rw [hstorage]
      exact hreached.ending

/-- One action keeps the frame of the message, and the reader accepts its result. -/
theorem applyHeaderAction_framed {limits : MessageLimits} {header : Bytes}
    (hsection : HeaderSection limits header) {view : HeaderView}
    (hview : view = .Raw header ∨
      ∃ edited : EditedHeader, view = .Indexed edited ∧
        edited.Reached limits (headerSeparator header))
    {bodyLen : Nat} {action : HeaderAction} {applied : AppliedHeaderAction}
    (happly : applyHeaderAction view bodyLen action limits = .ok applied) :
    applied.header.Reached limits (headerSeparator header) ∧
      restLines applied.header.asBytes = lines (headerSeparator header) ∧
      ∃ parts u, applied.header.asBytes = List.flatten parts ∧
        validateHeaderParts parts parts.flatten.length bodyLen limits = .ok u := by
  obtain ⟨origin, status, fields, hnew, hrep, hlim, horigin, hceiling, hsep, hframed⟩ :=
    HeaderView.start hsection hview
  have hrefines := applyHeaderAction_refines hnew hrep hlim horigin bodyLen action
  rw [happly] at hrefines
  obtain ⟨⟨state, bytes⟩, hwithin, -, hfinished⟩ := hrefines.exists_of_ok
  obtain ⟨state', hrun, hwithin⟩ := bind_eq_ok hwithin
  obtain ⟨bytes', hserialize, heq⟩ := bind_eq_ok hwithin
  obtain ⟨rfl, rfl⟩ := Prod.mk.inj (Except.ok.inj heq)
  obtain ⟨size, hsize, hvalidate⟩ := bind_eq_ok hserialize
  obtain ⟨u, hvalid, hbytes⟩ := bind_eq_ok hvalidate
  replace hbytes : _ = bytes' := Except.ok.inj hbytes
  have htotal := sumSizes_eq_ok hsize
  rw [Nat.zero_add] at htotal
  have hfields : ∀ text ∈ state'.fields, Framed (headerSeparator header ≠ []) text :=
    framed_runWithin hframed hrun
  have hserialized : applied.header.asBytes = bytes' := by
    rw [hfinished.settled.coherent.asBytes, hfinished.serialized]
  have hrest : restLines bytes' = lines (headerSeparator header) := by
    rw [← hbytes, flatten_headerParts, hsep]
    exact restLines_joinFields hfields hsection.separator _
  have hcutoff : headerSeparator bytes' = headerSeparator header := by
    rw [headerSeparator, hrest, flatten_lines]
  refine ⟨⟨hfinished.settled, ?_, ?_, ?_, ?_⟩, by rw [hserialized]; exact hrest,
    _, u, hserialized.trans hbytes.symm, htotal ▸ hvalid⟩
  · rw [← hceiling]
    exact hfinished.room
  · rw [EditedHeader.len, hfinished.settled.coherent.size, hfinished.serialized, ← hbytes, ← htotal]
    exact EditedHeader.validateHeaderParts_size hvalid
  · rcases hfinished.index with hparsed | ⟨-, hsame⟩
    · rw [hparsed.separator, hcutoff]
    · rw [hsame, hsep]
  · rcases hfinished.index with hparsed | ⟨htexts, -⟩
    · rw [hparsed.texts, ← hcutoff]
      exact framed_fieldTexts bytes'
    · rw [htexts]
      exact hfields

/-- Every header reached by successive actions is framed as the original one. -/
theorem HeaderView.Reachable.reached {limits : MessageLimits} {header : Bytes}
    (hsection : HeaderSection limits header) {view : HeaderView}
    (h : HeaderView.Reachable limits header view) :
    view = .Raw header ∨
      ∃ edited : EditedHeader, view = .Indexed edited ∧
        edited.Reached limits (headerSeparator header) := by
  induction h with
  | raw => exact Or.inl rfl
  | edited _ happly ih => exact Or.inr ⟨_, rfl, (applyHeaderAction_framed hsection ih happly).1⟩
  | read _ ih =>
    rcases ih with hraw | ⟨edited, hedited, hreached⟩
    · cases hraw
    · cases hedited
      exact Or.inr ⟨_, rfl, hreached.cached⟩

/-! ### Reading the edited message back -/

/-- The header lines end with the first blank line, and without one they are all lines. -/
theorem dropWhile_sectionLines (ls : List Bytes) :
    ((sectionLines ls).1.dropWhile fun line => !isSeparator line) = [] ∧ (sectionLines ls).2 = [] ∨
      ∃ separator, isSeparator separator = true ∧
        ((sectionLines ls).1.dropWhile fun line => !isSeparator line) = [separator] := by
  induction ls with
  | nil => exact Or.inl ⟨rfl, rfl⟩
  | cons line rest ih =>
    unfold sectionLines
    split_ifs with hsep
    · exact Or.inr ⟨line, hsep, by simp [hsep]⟩
    · rcases ih with ⟨hdrop, hrest⟩ | ⟨separator, hblank, hdrop⟩
      · exact Or.inl ⟨by simpa [hsep] using hdrop, hrest⟩
      · exact Or.inr ⟨separator, hblank, by simpa [hsep] using hdrop⟩

theorem sectionLines_append_separator {content rest : List Bytes} {separator : Bytes}
    (hcontent : ∀ line ∈ content, isSeparator line = false) (hsep : isSeparator separator = true) :
    sectionLines (content ++ separator :: rest) = (content ++ [separator], rest) := by
  induction content with
  | nil => simp [sectionLines, hsep]
  | cons line content ih =>
    have hline : isSeparator line = false := hcontent line (by simp)
    have hrest := ih fun l hl => hcontent l (by simp [hl])
    simp [sectionLines, hline, hrest]

theorem sectionLines_of_forall_not {ls : List Bytes} (h : ∀ line ∈ ls, isSeparator line = false) :
    sectionLines ls = (ls, []) := by
  induction ls with
  | nil => rfl
  | cons line rest ih =>
    have hline : isSeparator line = false := h line (by simp)
    have hrest := ih fun l hl => h l (by simp [hl])
    simp [sectionLines, hline, hrest]

/-- A header whose only blank line ends it, in front of a body that needs one, is the header section
of the two together. -/
theorem sectionLines_lines_append {header body : Bytes}
    (h : restLines header = [] ∧ body = [] ∨
      ∃ separator, isSeparator separator = true ∧ restLines header = [separator]) :
    sectionLines (lines (header ++ body)) = (lines header, lines body) := by
  have hcontent : ∀ line ∈ contentLines header, isSeparator line = false :=
    fun line hline => not_isSeparator_of_mem_contentLines hline
  have hlines := contentLines_append_restLines header
  rcases h with ⟨hrest, rfl⟩ | ⟨separator, hsep, hrest⟩
  · rw [hrest, List.append_nil] at hlines
    rw [List.append_nil, ← hlines]
    exact sectionLines_of_forall_not hcontent
  · have hterm : Lines.Terminated isLF header := by
      rw [← flatten_lines header, ← hlines, hrest, List.flatten_append, List.flatten_singleton]
      exact (terminated_of_isSeparator hsep).append
    rw [lines_append hterm, ← hlines, hrest, List.append_assoc]
    exact sectionLines_append_separator hcontent hsep

/-- The header lines of any input are a header section. -/
theorem headerSection_sectionLines {limits : MessageLimits} (bytes : Bytes)
    (h : (sectionLines (lines bytes)).1.flatten.length ≤ limits.headersSize) :
    HeaderSection limits (sectionLines (lines bytes)).1.flatten := by
  refine ⟨h, ?_⟩
  intro hne
  rw [headerSeparator, restLines, lines_sectionLines] at hne ⊢
  rcases dropWhile_sectionLines (lines bytes) with ⟨hdrop, -⟩ | ⟨separator, hsep, hdrop⟩
  · rw [hdrop] at hne
    exact absurd rfl hne
  · rw [hdrop, List.flatten_singleton]
    exact hsep

/-- The header of an accepted message is a header section, and a body needs a separator. -/
theorem Message.headerSection_of_readFrom {reader : Reader} {limits : MessageLimits}
    {message : Message} (h : Message.readFrom reader limits = .ok message) :
    HeaderSection limits message.header ∧
      (restLines message.header = [] ∧ message.body = [] ∨
        ∃ separator, isSeparator separator = true ∧ restLines message.header = [separator]) := by
  obtain ⟨-, hheader, hbody, -, haccepts⟩ := Message.readFrom_eq_ok h
  have hlines : restLines message.header =
      (sectionLines (lines reader.content)).1.dropWhile fun line => !isSeparator line := by
    rw [restLines, hheader, lines_sectionLines]
  rw [hlines, hbody]
  have hsize := haccepts.headerSize
  rw [hheader] at hsize ⊢
  refine ⟨headerSection_sectionLines reader.content hsize, ?_⟩
  rcases dropWhile_sectionLines (lines reader.content) with ⟨hdrop, hrest⟩ | hdrop
  · exact Or.inl ⟨hdrop, by rw [hrest]; rfl⟩
  · exact Or.inr hdrop

/-- After any number of successful actions the edited header and the original body are read back
exactly, under the same limits and however the reader cuts them into pieces. -/
theorem edited_message_reads_back {reader : Reader} {limits : MessageLimits} {message : Message}
    (haccepted : Message.readFrom reader limits = .ok message) {view : HeaderView}
    (hview : HeaderView.Reachable limits message.header view) {action : HeaderAction}
    {applied : AppliedHeaderAction}
    (happly : applyHeaderAction view message.body.length action limits = .ok applied)
    {output : Reader} (hcomplete : output.Complete)
    (hcontent : output.content = applied.header.asBytes ++ message.body) :
    ∃ reread, Message.readFrom output limits = .ok reread ∧
      reread.header = applied.header.asBytes ∧ reread.body = message.body := by
  obtain ⟨hsection, hframe⟩ := Message.headerSection_of_readFrom haccepted
  obtain ⟨-, hrest, parts, u, hbytes, hvalid⟩ :=
    applyHeaderAction_framed hsection (hview.reached hsection) happly
  have hbody := (Message.readFrom_eq_ok haccepted).2.2.2.2.bodySize
  have haccepts := accepts_of_validateHeaderParts hvalid hbody
  rw [← hbytes] at haccepts
  have hsame : restLines applied.header.asBytes = restLines message.header := by
    rw [hrest, lines_headerSeparator]
  rw [← hsame] at hframe
  have hlines : sectionLines (lines output.content) =
      (lines applied.header.asBytes, lines message.body) := by
    rw [hcontent]
    exact sectionLines_lines_append hframe
  exact ⟨_, Message.readFrom_of_accepts hcomplete hlines haccepts, rfl, rfl⟩

theorem edited_message_reads_back_twice :
    ∃ first second reread,
      applyHeaderAction (.Raw (strBytes "A: x\n\n")) 2
          ⟨[.Add 1 ⟨"B", by decide⟩ ⟨"y"⟩]⟩ ⟨100, 100, 100, 100, 100⟩ = .ok first ∧
        applyHeaderAction (.Indexed first.header) 2
          ⟨[.Remove 1 ⟨"A", by decide⟩]⟩ ⟨100, 100, 100, 100, 100⟩ = .ok second ∧
        Message.readFrom (Reader.cursor (second.header.asBytes ++ strBytes "hi"))
          ⟨100, 100, 100, 100, 100⟩ = .ok reread ∧
        reread.header = second.header.asBytes ∧ reread.body = strBytes "hi" := by
  have haccepted : Message.readFrom (Reader.cursor (strBytes "A: x\n\nhi"))
      ⟨100, 100, 100, 100, 100⟩ = .ok ⟨strBytes "A: x\n\n", strBytes "hi", none⟩ := rfl
  obtain ⟨first, hfirst⟩ : ∃ first, applyHeaderAction (.Raw (strBytes "A: x\n\n")) 2
      ⟨[.Add 1 ⟨"B", by decide⟩ ⟨"y"⟩]⟩ ⟨100, 100, 100, 100, 100⟩ = .ok first := ⟨_, rfl⟩
  obtain ⟨second, hsecond⟩ : ∃ second, applyHeaderAction (.Indexed first.header) 2
      ⟨[.Remove 1 ⟨"A", by decide⟩]⟩ ⟨100, 100, 100, 100, 100⟩ = .ok second := by
    obtain rfl := Except.ok.inj hfirst
    exact ⟨_, rfl⟩
  obtain ⟨reread, hreread⟩ := edited_message_reads_back haccepted
    (HeaderView.Reachable.edited HeaderView.Reachable.raw hfirst) hsecond
    (Reader.complete_cursor _) (Reader.content_cursor _)
  exact ⟨first, second, reread, hfirst, hsecond, hreread⟩

end ProcmailRs
