import ProcmailRs.FileName

/-!
# File names are seen in one parameter

Comments and folding are removed from a content header, it is split at its semicolons, and every
parameter gives its name and its value whatever gaps stand between its tokens. A name in one parameter
is read back from every spelling of it; a name in segments is not read at all.
-/

namespace ProcmailRs

open Quoting (outside)

/-! ### Bytes of tokens -/

theorem token_byte : ∀ b : UInt8, isMimeToken [b] = true →
    isUnfoldByte b = false ∧ isAsciiWhitespace b = false ∧ b ≠ QUOTE ∧ b ≠ SEMICOLON ∧ b ≠ 61 := by
  decide +kernel

theorem isMimeToken_singleton {token : Bytes} (h : isMimeToken token = true) :
    ∀ b ∈ token, isMimeToken [b] = true := by
  intro b hb
  unfold isMimeToken at h ⊢
  rw [Bool.and_eq_true] at h
  have hbyte := List.all_eq_true.mp h.2 b hb
  rw [List.all_cons, List.all_nil, Bool.and_true]
  exact hbyte

theorem ne_nil_of_isMimeToken {token : Bytes} (h : isMimeToken token = true) : token ≠ [] := by
  rintro rfl
  cases h

/-- A text of tokens and quoted strings hides everything that is no byte of a token. -/
theorem hides_of_token {stop : UInt8 → Bool} (hstop : ∀ b, isMimeToken [b] = true → stop b = false)
    {token : Bytes} (h : isMimeToken token = true) : Quoting.Hides marks stop token := by
  refine Quoting.hides_of_forall (m := marks) fun b hb => ?_
  have hbyte := isMimeToken_singleton h b hb
  exact ⟨hstop b hbyte, (token_byte b hbyte).2.2.1⟩

theorem solid_of_token {token : Bytes} (h : isMimeToken token = true) : Solid token := by
  have hhides : Quoting.Hides marks isUnfoldByte token :=
    hides_of_token (fun b hb => (token_byte b hb).1) h
  exact ⟨ne_nil_of_isMimeToken h, hhides.1, hhides.2⟩

theorem tight_of_token {token : Bytes} (h : isMimeToken token = true) : Tight token := by
  constructor
  · intro b hb
    exact (token_byte b (isMimeToken_singleton h b (List.mem_of_mem_head? hb))).2.1
  · intro b hb
    exact (token_byte b (isMimeToken_singleton h b (List.mem_of_mem_getLast? hb))).2.1

theorem tight_of_quoted {text : Bytes} (h : Quoting.Quoted marks text) : Tight text := by
  have hquote : isAsciiWhitespace QUOTE = false := by decide
  obtain ⟨body, -, rfl⟩ := h
  constructor
  · intro b hb
    obtain rfl := Option.some.inj hb
    exact hquote
  · intro b hb
    rw [← List.cons_append, List.getLast?_concat] at hb
    obtain rfl := Option.some.inj hb
    exact hquote

/-! ### Gaps -/

/-- A gap adds nothing to the output. -/
theorem Gap.foldl {gap : Bytes} (h : Gap gap) (pendingSpace : Bool) :
    ∃ pendingSpace', ∀ output : Bytes,
      gap.foldl CommentScan.step (CommentScan.text output outside pendingSpace) =
        CommentScan.text output outside pendingSpace' := by
  induction h generalizing pendingSpace with
  | nil => exact ⟨pendingSpace, fun output => rfl⟩
  | @space byte gap hbyte _ ih =>
    obtain ⟨pendingSpace', hgap⟩ := ih true
    refine ⟨pendingSpace', ?_⟩
    intro output
    have hspaces : ∀ b ∈ [byte], isAsciiWhitespace b = true := by
      intro b hb
      obtain rfl := List.mem_singleton.mp hb
      exact hbyte
    have hspace := CommentScan.foldl_space hspaces output pendingSpace
    rw [List.isEmpty_cons, Bool.not_false, Bool.or_true] at hspace
    rw [← List.singleton_append, List.foldl_append, hspace]
    exact hgap output
  | comment hcomment _ ih =>
    obtain ⟨pendingSpace', hgap⟩ := ih pendingSpace
    refine ⟨pendingSpace', ?_⟩
    intro output
    rw [List.foldl_append, CommentScan.foldl_comment hcomment rfl rfl]
    exact hgap output

/-- A token behind a gap is kept behind a space or none. -/
theorem foldl_gap_solid {gap piece : Bytes} (hgap : Gap gap) (hpiece : Solid piece) (output : Bytes)
    (pendingSpace : Bool) :
    ∃ w, IsSpaces w ∧
      (gap ++ piece).foldl CommentScan.step (CommentScan.text output outside pendingSpace) =
        CommentScan.text (output ++ w ++ piece) outside false := by
  obtain ⟨pendingSpace', hfold⟩ := hgap.foldl pendingSpace
  refine ⟨space (pendingSpace' && !output.isEmpty), isSpaces_space _, ?_⟩
  rw [List.foldl_append, hfold, CommentScan.foldl_solid hpiece, joint_eq]

/-! ### Parameters in the unfolded value -/

/-- What is left of a parameter: spaces for some of its gaps. -/
def Parameter.LeftAs (p : Parameter) (piece : Bytes) : Prop :=
  ∃ w₁ w₂ w₃ w₄, (IsSpaces w₁ ∧ IsSpaces w₂ ∧ IsSpaces w₃ ∧ IsSpaces w₄) ∧
    (p.value = [] → w₃ = []) ∧ piece = w₁ ++ (p.name ++ w₂ ++ 61 :: (w₃ ++ p.value)) ++ w₄

theorem isSpaces_append {w w' : Bytes} (h : IsSpaces w) (h' : IsSpaces w') : IsSpaces (w ++ w') := by
  intro b hb
  rcases List.mem_append.mp hb with hleft | hright
  · exact h b hleft
  · exact h' b hright

theorem Parameter.LeftAs.append {p : Parameter} {piece w : Bytes} (h : p.LeftAs piece)
    (hw : IsSpaces w) : p.LeftAs (piece ++ w) := by
  obtain ⟨w₁, w₂, w₃, w₄, ⟨h₁, h₂, h₃, h₄⟩, hempty, rfl⟩ := h
  exact ⟨w₁, w₂, w₃, w₄ ++ w, ⟨h₁, h₂, h₃, isSpaces_append h₄ hw⟩, hempty,
    List.append_assoc _ w₄ w⟩

theorem solid_separator {byte : UInt8} (h : byte = SEMICOLON ∨ byte = 61) : Solid [byte] := by
  rcases h with rfl | rfl
  · exact ⟨by decide, by decide, by decide⟩
  · exact ⟨by decide, by decide, by decide⟩

theorem Parameter.foldl_text (p : Parameter) (output : Bytes) (pendingSpace : Bool) :
    ∃ w piece pendingSpace', IsSpaces w ∧ p.LeftAs piece ∧
      (SEMICOLON :: p.text).foldl CommentScan.step
          (CommentScan.text output outside pendingSpace) =
        CommentScan.text (output ++ w ++ SEMICOLON :: piece) outside pendingSpace' := by
  obtain ⟨hbefore, hafterName, hbeforeValue, hafter⟩ := p.gaps
  obtain ⟨w, hw, hsemicolon⟩ :=
    foldl_gap_solid Gap.nil (solid_separator (.inl rfl)) output pendingSpace
  obtain ⟨w₁, hw₁, hname⟩ :=
    foldl_gap_solid hbefore (solid_of_token p.name_token) (output ++ w ++ [SEMICOLON]) false
  obtain ⟨w₂, hw₂, hequals⟩ := foldl_gap_solid hafterName (solid_separator (.inr rfl))
    (output ++ w ++ [SEMICOLON] ++ w₁ ++ p.name) false
  have hstart : (SEMICOLON :: p.text).foldl CommentScan.step
      (CommentScan.text output outside pendingSpace) =
      (p.beforeValue ++ p.value ++ p.after).foldl CommentScan.step
        (CommentScan.text (output ++ w ++ [SEMICOLON] ++ w₁ ++ p.name ++ w₂ ++ [61]) outside
          false) := by
    have hsplit : SEMICOLON :: p.text = ([] ++ [SEMICOLON]) ++ ((p.before ++ p.name) ++
        ((p.afterName ++ [61]) ++ (p.beforeValue ++ p.value ++ p.after))) := by
      simp [Parameter.text]
    rw [hsplit, List.foldl_append, hsemicolon, List.foldl_append, hname, List.foldl_append, hequals]
  rw [hstart]
  by_cases hvalue : p.value = []
  · obtain ⟨pendingSpace₁, hgap⟩ := hbeforeValue.foldl false
    obtain ⟨pendingSpace₂, hgap'⟩ := hafter.foldl pendingSpace₁
    refine ⟨w, w₁ ++ (p.name ++ w₂ ++ 61 :: ([] ++ p.value)) ++ [], pendingSpace₂, hw,
      ⟨w₁, w₂, [], [], ⟨hw₁, hw₂, isSpaces_nil, isSpaces_nil⟩, fun _ => rfl, rfl⟩, ?_⟩
    rw [hvalue, List.append_nil, List.foldl_append, hgap, hgap']
    simp
  · have hsolid : Solid p.value := by
      rcases p.value_text with hempty | htoken | hquoted
      · exact absurd hempty hvalue
      · exact solid_of_token htoken
      · exact solid_of_quoted hquoted
    obtain ⟨w₃, hw₃, hkept⟩ := foldl_gap_solid hbeforeValue hsolid
      (output ++ w ++ [SEMICOLON] ++ w₁ ++ p.name ++ w₂ ++ [61]) false
    obtain ⟨pendingSpace', hgap⟩ := hafter.foldl false
    refine ⟨w, w₁ ++ (p.name ++ w₂ ++ 61 :: (w₃ ++ p.value)) ++ [], pendingSpace', hw,
      ⟨w₁, w₂, w₃, [], ⟨hw₁, hw₂, hw₃, isSpaces_nil⟩, fun hempty => absurd hempty hvalue, rfl⟩, ?_⟩
    rw [List.foldl_append, hkept, hgap]
    simp

theorem foldl_parameters (parameters : List Parameter) (output : Bytes) (pendingSpace : Bool) :
    ∃ w pieces pendingSpace', IsSpaces w ∧ List.Forall₂ Parameter.LeftAs parameters pieces ∧
      (parameters.flatMap fun p => SEMICOLON :: p.text).foldl CommentScan.step
          (CommentScan.text output outside pendingSpace) =
        CommentScan.text (output ++ w ++ pieces.flatMap (SEMICOLON :: ·)) outside
          pendingSpace' := by
  induction parameters generalizing output pendingSpace with
  | nil => exact ⟨[], [], pendingSpace, isSpaces_nil, List.Forall₂.nil, by simp⟩
  | cons p rest ih =>
    obtain ⟨w, piece, pendingSpace₁, hw, hpiece, hfold⟩ := p.foldl_text output pendingSpace
    obtain ⟨w', pieces, pendingSpace₂, hw', hpieces, hrest⟩ :=
      ih (output ++ w ++ SEMICOLON :: piece) pendingSpace₁
    refine ⟨w, (piece ++ w') :: pieces, pendingSpace₂, hw,
      List.Forall₂.cons (hpiece.append hw') hpieces, ?_⟩
    rw [List.flatMap_cons, List.foldl_append, hfold, hrest]
    simp

/-! ### Splitting at semicolons -/

theorem splitMimeParametersFrom_append {q : Quoting.State} {l : Bytes}
    (h : Quoting.clear marks (· == SEMICOLON) q l = true) (current r : Bytes) :
    splitMimeParametersFrom q.quoted q.escaped current (l ++ r) =
      splitMimeParametersFrom (Quoting.run marks q l).quoted (Quoting.run marks q l).escaped
        (current ++ l) r := by
  induction l generalizing q current with
  | nil => simp
  | cons byte l ih =>
    obtain ⟨hbyte, hl⟩ := Quoting.clear_cons.mp h
    have hrest := ih hl (current ++ [byte])
    rw [List.append_assoc, List.singleton_append] at hrest
    rw [List.cons_append, splitMimeParametersFrom, Quoting.run_cons, ← hrest]
    unfold Quoting.step marks
    by_cases hescaped : q.escaped = true
    · simp [hescaped]
    · rw [Bool.not_eq_true] at hescaped
      by_cases hescape : q.quoted = true ∧ byte = BACKSLASH
      · simp [hescaped, hescape]
      · by_cases hquote : byte = QUOTE
        · subst hquote
          simp [hescaped, hescape]
        · have hnot : ¬(q.quoted = false ∧ byte = SEMICOLON) := by
            rintro ⟨hquoted, rfl⟩
            rcases hbyte with h | h
            · rw [hquoted] at h
              cases h
            · cases h
          simp [hescaped, hescape, hquote, hnot]

/-- A text that hides semicolons belongs to the piece in progress. -/
theorem splitMimeParametersFrom_hides {l : Bytes} (h : Quoting.Hides marks (· == SEMICOLON) l)
    (current r : Bytes) :
    splitMimeParametersFrom false false current (l ++ r) =
      splitMimeParametersFrom false false (current ++ l) r := by
  have hpass := splitMimeParametersFrom_append h.1 current r
  rw [h.2] at hpass
  exact hpass

theorem splitMimeParametersFrom_pieces {pieces : List Bytes}
    (h : ∀ piece ∈ pieces, Quoting.Hides marks (· == SEMICOLON) piece) (current : Bytes) :
    splitMimeParametersFrom false false current (pieces.flatMap (SEMICOLON :: ·)) =
      current :: pieces := by
  induction pieces generalizing current with
  | nil => rfl
  | cons piece pieces ih =>
    have hrest := ih (fun p hp => h p (List.mem_cons_of_mem _ hp)) ([] ++ piece)
    rw [← splitMimeParametersFrom_hides (h piece List.mem_cons_self)] at hrest
    rw [List.flatMap_cons, List.cons_append, splitMimeParametersFrom]
    exact congrArg (current :: ·) hrest

theorem spaces_hide {byte : UInt8} (hbyte : isAsciiWhitespace byte = false) {w : Bytes}
    (hw : IsSpaces w) : Quoting.Hides marks (· == byte) w := by
  refine Quoting.hides_of_forall (m := marks) fun b hb => ⟨?_, not_quote_of_space b (hw b hb)⟩
  apply beq_false_of_ne
  rintro rfl
  rw [hw b hb] at hbyte
  cases hbyte

theorem Parameter.LeftAs.hides {p : Parameter} {piece : Bytes} (h : p.LeftAs piece) :
    Quoting.Hides marks (· == SEMICOLON) piece := by
  have htoken : ∀ {token : Bytes}, isMimeToken token = true →
      Quoting.Hides marks (· == SEMICOLON) token := by
    intro token h
    apply hides_of_token _ h
    intro b hb
    exact beq_false_of_ne (token_byte b hb).2.2.2.1
  have hvalue : Quoting.Hides marks (· == SEMICOLON) p.value := by
    rcases p.value_text with hempty | hname | hquoted
    · rw [hempty]
      exact ⟨rfl, rfl⟩
    · exact htoken hname
    · exact hquoted.hides (by decide)
  obtain ⟨w₁, w₂, w₃, w₄, ⟨h₁, h₂, h₃, h₄⟩, -, rfl⟩ := h
  have hequals : Quoting.Hides marks (· == SEMICOLON) [61] := ⟨by decide, by decide⟩
  have hmiddle := ((htoken p.name_token).append (spaces_hide (by decide) h₂)).append
    (hequals.append ((spaces_hide (by decide) h₃).append hvalue))
  exact ((spaces_hide (by decide) h₁).append hmiddle).append (spaces_hide (by decide) h₄)

theorem exists_left_of_mem {parameters : List Parameter} {pieces : List Bytes}
    (h : List.Forall₂ Parameter.LeftAs parameters pieces) {piece : Bytes} (hpiece : piece ∈ pieces) :
    ∃ p, Parameter.LeftAs p piece := by
  induction h with
  | nil => cases hpiece
  | cons hfirst _ ih =>
    rcases List.mem_cons.mp hpiece with rfl | hrest
    · exact ⟨_, hfirst⟩
    · exact ih hrest

/-- The pieces of a content header: what is left of the head and of every parameter. -/
theorem split_contentText {head : Bytes} (hhead : IsHead head) (parameters : List Parameter) :
    ∃ cleaned first pieces, removeCommentsAndUnfold (contentText head parameters) = some cleaned ∧
      splitMimeParameters cleaned = first :: pieces ∧
      List.Forall₂ Parameter.LeftAs parameters pieces := by
  obtain ⟨added, pendingSpace, hadded, hfold⟩ :=
    hhead.foldl (by decide) (by decide) true false
  obtain ⟨w, pieces, pendingSpace', hw, hpieces, hparameters⟩ :=
    foldl_parameters parameters ([] ++ added) pendingSpace
  have hrun : (contentText head parameters).foldl CommentScan.step
      (CommentScan.text [] outside false) =
      CommentScan.text ([] ++ added ++ w ++ pieces.flatMap (SEMICOLON :: ·)) outside
        pendingSpace' := by
    rw [contentText, List.foldl_append, hfold [] rfl, hparameters]
  refine ⟨_, added ++ w, pieces, removeCommentsAndUnfold_of_run pendingSpace' hrun, ?_, hpieces⟩
  have hhides : ∀ piece ∈ pieces, Quoting.Hides marks (· == SEMICOLON) piece := by
    intro piece hpiece
    obtain ⟨p, hleft⟩ := exists_left_of_mem hpieces hpiece
    exact hleft.hides
  rw [List.nil_append, splitMimeParameters,
    splitMimeParametersFrom_hides (hadded.append (spaces_hide (by decide) hw))]
  exact splitMimeParametersFrom_pieces hhides _

/-! ### One parameter -/

/-- The name that the code finds. -/
def cleanName (name : Bytes) : Bytes :=
  if endsWith name [42] then (name.take (name.length - 1)).map toAsciiLowercase
  else name.map toAsciiLowercase

/-- The value that the code finds. -/
def finalValue (name value : Bytes) : Bytes :=
  if endsWith name [42] then decodeRfc2231 (unquoteMimeValue value)
  else if (findEncodedWord (unquoteMimeValue value)).isSome then
    match decodeRfc2047 (unquoteMimeValue value) maxAssignmentValueLen with
    | .ok decoded => decoded
    | .error _ => unquoteMimeValue value
  else unquoteMimeValue value

theorem Parameter.tight_value (p : Parameter) : Tight p.value := by
  rcases p.value_text with hempty | htoken | hquoted
  · rw [hempty]
    exact ⟨by simp, by simp⟩
  · exact tight_of_token htoken
  · exact tight_of_quoted hquoted

/-- A name and a value with no space outside of them. -/
theorem Parameter.tight_assignment (p : Parameter) (w : Bytes) {w' : Bytes}
    (hempty : p.value = [] → w' = []) : Tight (p.name ++ w ++ 61 :: (w' ++ p.value)) := by
  constructor
  · intro b hb
    have hname := ne_nil_of_isMimeToken p.name_token
    rw [List.append_assoc, List.head?_append_of_ne_nil _ hname] at hb
    exact (tight_of_token p.name_token).1 b hb
  · intro b hb
    by_cases hvalue : p.value = []
    · rw [hvalue, hempty hvalue, List.append_nil, List.getLast?_concat] at hb
      obtain rfl := Option.some.inj hb
      decide
    · rw [← List.cons_append, ← List.append_assoc, List.getLast?_append_of_ne_nil _ hvalue] at hb
      exact p.tight_value.2 b hb

theorem parseParameter_leftAs {p : Parameter} {piece : Bytes} (h : p.LeftAs piece) :
    parseParameter piece = some (cleanName p.name, finalValue p.name p.value) := by
  obtain ⟨w₁, w₂, w₃, w₄, ⟨h₁, h₂, h₃, h₄⟩, hempty, rfl⟩ := h
  have hfind : findUnquoted (p.name ++ w₂ ++ 61 :: (w₃ ++ p.value)) 61 =
      some (p.name ++ w₂).length := by
    have hhides : Quoting.Hides marks (· == 61) (p.name ++ w₂) := by
      apply Quoting.Hides.append
      · apply hides_of_token _ p.name_token
        intro b hb
        exact beq_false_of_ne (token_byte b hb).2.2.2.2
      · exact spaces_hide (by decide) h₂
    exact findUnquoted_of_clear (by decide) hhides.1 hhides.2 _
  have hname : trimAscii (p.name ++ w₂) = p.name := by
    have htrim := trimAscii_eq isSpaces_nil h₂ (tight_of_token p.name_token)
    exact htrim
  have hvalue : trimAscii (w₃ ++ p.value) = p.value := by
    have htrim := trimAscii_eq h₃ isSpaces_nil p.tight_value
    rw [List.append_nil] at htrim
    exact htrim
  have hnonempty : p.name.isEmpty = false := by
    simpa using ne_nil_of_isMimeToken p.name_token
  unfold parseParameter
  simp only
  rw [trimAscii_eq h₁ h₄ (p.tight_assignment w₂ hempty), hfind]
  simp only
  rw [List.take_left, ← List.drop_drop, List.drop_left, List.drop_one, List.tail_cons, hname, hvalue,
    hnonempty]
  rfl

/-! ### Names of parameters -/

theorem toAsciiLowercase_star {b : UInt8} : toAsciiLowercase b = 42 ↔ b = 42 := by
  revert b
  decide +kernel

/-- The code takes a parameter for one of the attribute in the attribute's own name and in that of its
extended value. -/
theorem cleanName_eq {name key : Bytes} (h : cleanName name = key) :
    name.map toAsciiLowercase = key ∨ name.map toAsciiLowercase = key ++ [42] := by
  unfold cleanName at h
  split at h
  · rename_i hstar
    right
    obtain ⟨front, rfl⟩ := List.isSuffixOf_iff_suffix.mp hstar
    rw [List.length_append, List.length_singleton, Nat.add_sub_cancel, List.take_left] at h
    rw [List.map_append, h]
    rfl
  · exact .inl h

theorem cleanName_of_eq {name key : Bytes} (hkey : 42 ∉ key)
    (h : name.map toAsciiLowercase = key) : cleanName name = key ∧ endsWith name [42] = false := by
  have hstar : endsWith name [42] = false := by
    cases hends : endsWith name [42] with
    | false => rfl
    | true =>
      obtain ⟨front, rfl⟩ := List.isSuffixOf_iff_suffix.mp hends
      rw [List.map_append] at h
      refine absurd ?_ hkey
      rw [← h]
      exact List.mem_append_right _ (by decide)
  unfold cleanName
  rw [hstar]
  exact ⟨h, rfl⟩

theorem cleanName_of_extended {name key : Bytes}
    (h : name.map toAsciiLowercase = key ++ [42]) :
    cleanName name = key ∧ endsWith name [42] = true := by
  obtain ⟨front, last, rfl, hfront, hlast⟩ := List.map_eq_append_iff.mp h
  obtain ⟨star, hstar, hmap⟩ := List.map_eq_singleton_iff.mp hlast
  obtain rfl := toAsciiLowercase_star.mp hmap
  subst hstar
  have hends : endsWith (front ++ [42]) [42] = true :=
    List.isSuffixOf_iff_suffix.mpr (List.suffix_append front [42])
  unfold cleanName
  rw [hends, if_pos rfl, List.length_append, List.length_singleton, Nat.add_sub_cancel,
    List.take_left]
  exact ⟨hfront, rfl⟩

theorem takeWhile_star (name : Bytes) :
    (name.takeWhile (· != 42)).map toAsciiLowercase =
      (name.map toAsciiLowercase).takeWhile (· != 42) := by
  rw [List.takeWhile_map]
  congr 2
  funext b
  show (b != 42) = (toAsciiLowercase b != 42)
  cases hstar : b != 42 with
  | true =>
    symm
    rw [bne_iff_ne] at hstar ⊢
    intro h
    exact hstar (toAsciiLowercase_star.mp h)
  | false =>
    rw [bne_eq_false_iff_eq] at hstar
    rw [hstar]
    rfl

theorem takeWhile_key {key : Bytes} (hkey : 42 ∉ key) (rest : Bytes) :
    (key ++ 42 :: rest).takeWhile (· != 42) = key := by
  rw [List.takeWhile_append_of_pos]
  · rw [List.takeWhile_cons_of_neg (by decide), List.append_nil]
  · intro b hb
    rw [bne_iff_ne]
    rintro rfl
    exact hkey hb

/-- A parameter of another attribute is not taken for one of this attribute. -/
theorem Parameter.cleanName_ne {p : Parameter} {key : Bytes} (hkey : 42 ∉ key) (h : p.key ≠ key) :
    cleanName p.name ≠ key := by
  intro hclean
  apply h
  unfold Parameter.key
  rw [takeWhile_star]
  rcases cleanName_eq hclean with hname | hname
  · rw [hname, ← List.append_nil key]
    rw [List.takeWhile_append_of_pos]
    · rfl
    · intro b hb
      rw [bne_iff_ne]
      rintro rfl
      exact hkey hb
  · rw [hname]
    exact takeWhile_key hkey []

/-- Neither is a segment. -/
theorem cleanName_segment {name key : Bytes} (hkey : 42 ∉ key) {number : Bytes} (hnumber : number ≠ [])
    (h : name.map toAsciiLowercase = key ++ 42 :: number) : cleanName name ≠ key := by
  intro hclean
  rcases cleanName_eq hclean with hname | hname
  · rw [hname] at h
    apply hkey
    rw [h]
    simp
  · rw [hname] at h
    have hnil : ([42] : Bytes) = 42 :: number := List.append_cancel_left h
    exact hnumber (List.cons.inj hnil).2.symm

theorem strBytes_toString_ne_nil (number : Nat) : strBytes (toString number) ≠ [] := by
  have hdigits : (toString number).toList ≠ [] := by
    rw [show toString number = number.repr from rfl, Nat.toList_repr]
    exact Nat.toDigits_ne_nil
  obtain ⟨digit, digits, hcons⟩ := List.exists_cons_of_ne_nil hdigits
  unfold strBytes utf8
  rw [hcons, List.flatMap_cons]
  intro hnil
  have hlength := congrArg List.length (List.append_eq_nil_iff.mp hnil).1
  rw [String.length_utf8EncodeChar, List.length_nil] at hlength
  exact absurd hlength (Nat.ne_of_gt digit.utf8Size_pos)

/-! ### Values of parameters -/

theorem unescapeFrom_quotedText {text name : Bytes} (h : QuotedText text name) :
    unescapeFrom false text = name := by
  induction h with
  | nil => rfl
  | plain _ hquote hescape ih =>
    rw [unescapeFrom, if_neg Bool.false_ne_true, if_neg hescape, ih]
  | escaped _ ih =>
    rw [unescapeFrom, if_neg Bool.false_ne_true, if_pos rfl, unescapeFrom, if_pos rfl, ih]

/-- A value that is no quoted string stays as it is. -/
theorem unquoteMimeValue_of_head {value : Bytes} (htight : Tight value)
    (h : ∀ b ∈ value.head?, b ≠ QUOTE) : unquoteMimeValue value = value := by
  unfold unquoteMimeValue
  simp only
  rw [trimAscii_of_tight htight, if_neg]
  rintro ⟨-, hhead, -⟩
  exact h QUOTE hhead rfl

theorem unquoteMimeValue_plain {value name : Bytes} (htight : Tight value)
    (h : PlainText value name) : unquoteMimeValue value = name := by
  cases h with
  | token htoken =>
    apply unquoteMimeValue_of_head htight
    intro b hb
    exact (token_byte b (isMimeToken_singleton htoken b (List.mem_of_mem_head? hb))).2.2.1
  | @quoted text _ htext =>
    unfold unquoteMimeValue
    simp only
    rw [trimAscii_of_tight htight, if_pos]
    · have hinner : inner (QUOTE :: (text ++ [QUOTE])) = text := by
        unfold inner
        rw [List.tail_cons, List.dropLast_concat]
      rw [hinner, unescapeFrom_quotedText htext]
    · refine ⟨by simp, rfl, ?_⟩
      rw [← List.cons_append, List.getLast?_concat]

theorem percentDecode_plain {byte : UInt8} (h : byte ≠ 37) (rest : Bytes) :
    percentDecode (byte :: rest) = byte :: percentDecode rest := by
  match rest with
  | [] => rfl
  | [_] => rfl
  | _ :: _ :: _ => rw [percentDecode, if_neg h]

theorem toNat_shiftRight_four (b : UInt8) : (b >>> 4).toNat = b.toNat / 16 := by
  rw [UInt8.toNat_shiftRight, Nat.shiftRight_eq_div_pow]
  rfl

theorem toNat_and_fifteen (b : UInt8) : (b &&& 15).toNat = b.toNat % 16 := by
  rw [UInt8.toNat_and]
  exact Nat.and_two_pow_sub_one_eq_mod b.toNat 4

theorem nibbles (b : UInt8) : ((b >>> 4) <<< 4) ||| (b &&& 15) = b := by
  have hlow : b.toNat % 16 < 2 ^ 4 := Nat.mod_lt _ (by decide)
  have hhigh : (b.toNat / 16) <<< 4 < 2 ^ 8 := by
    have hbyte := b.toNat_lt
    rw [Nat.shiftLeft_eq]
    omega
  apply UInt8.toNat.inj
  rw [UInt8.toNat_or, UInt8.toNat_shiftLeft, toNat_shiftRight_four, toNat_and_fifteen]
  show ((b.toNat / 16) <<< 4) % 2 ^ 8 ||| b.toNat % 16 = b.toNat
  rw [Nat.mod_eq_of_lt hhigh, ← Nat.shiftLeft_add_eq_or_of_lt hlow, Nat.shiftLeft_eq]
  omega

theorem fromHexDigit_hexDigit (upper : Bool) {b : UInt8} (h : b.toNat < 16) :
    fromHexDigit (hexDigit upper b) = some b := by
  have hdigit : ∀ upper, ∀ n < 16, fromHexDigit (hexDigit upper (UInt8.ofNat n)) = some (UInt8.ofNat n) := by
    decide
  rw [← UInt8.ofNat_toNat (x := b)]
  exact hdigit upper b.toNat h
theorem percentDecode_percentText {text name : Bytes} (h : PercentText text name) :
    percentDecode text = name := by
  induction h with
  | nil => rfl
  | @plain byte text name hbyte _ ih =>
    have hpercent : byte ≠ 37 := by
      rintro rfl
      revert hbyte
      decide
    rw [percentDecode_plain hpercent, ih]
  | @encoded byte text name high low _ ih =>
    have hhigh : (byte >>> 4).toNat < 16 := by
      rw [toNat_shiftRight_four]
      exact Nat.div_lt_of_lt_mul byte.toNat_lt
    have hlow : (byte &&& 15).toNat < 16 := by
      rw [toNat_and_fifteen]
      exact Nat.mod_lt _ (by decide)
    rw [percentDecode, if_pos rfl, fromHexDigit_hexDigit high hhigh, fromHexDigit_hexDigit low hlow]
    simp only
    rw [nibbles, ih]

/-- The bytes before an apostrophe are passed over. -/
theorem findIdx?_apostrophe {front : Bytes} (h : front.all isAttributeChar = true) (rest : Bytes) :
    (front ++ 39 :: rest).findIdx? (· == 39) = some front.length := by
  induction front with
  | nil => rfl
  | cons byte front ih =>
    rw [List.all_cons, Bool.and_eq_true] at h
    have hbyte : (byte == 39) = false := by
      apply beq_false_of_ne
      rintro rfl
      exact absurd h.1 (by decide)
    rw [List.cons_append, List.findIdx?_cons, hbyte, if_neg Bool.false_ne_true, ih h.2]
    rfl

theorem decodeRfc2231_extendedText {text name : Bytes} (h : ExtendedText text name) :
    decodeRfc2231 text = name := by
  obtain ⟨charset, language, payload, rfl, hcharset, hlanguage, hpayload⟩ := h
  have hdrop : ∀ (front rest : Bytes), (front ++ 39 :: rest).drop (front.length + 1) = rest := by
    intro front rest
    rw [← List.drop_drop, List.drop_left]
    rfl
  have hpayload' : (charset ++ 39 :: (language ++ 39 :: payload)).drop
      (charset.length + 1 + language.length + 1) = payload := by
    rw [Nat.add_assoc, ← List.drop_drop, hdrop, hdrop]
  unfold decodeRfc2231
  simp only
  rw [findIdx?_apostrophe hcharset]
  simp only
  rw [hdrop, findIdx?_apostrophe hlanguage]
  simp only
  rw [hpayload', percentDecode_percentText hpayload]

theorem head_extendedText {text name : Bytes} (h : ExtendedText text name) :
    ∀ b ∈ text.head?, b ≠ QUOTE := by
  obtain ⟨charset, language, payload, rfl, hcharset, -⟩ := h
  intro b hb
  cases charset with
  | nil =>
    obtain rfl := Option.some.inj hb
    decide
  | cons byte charset =>
    rw [List.all_cons, Bool.and_eq_true] at hcharset
    obtain rfl := Option.some.inj hb
    rintro rfl
    exact absurd hcharset.1 (by decide)

theorem findEncodedWord_eq_none {name : Bytes} (h : ¬[61, 63] <:+: name) :
    findEncodedWord name = none := by
  unfold findEncodedWord
  fun_induction findPair 61 63 name with
  | case1 x y rest heq =>
    exfalso
    apply h
    rw [heq.1, heq.2]
    exact ⟨[], rest, rfl⟩
  | case2 x y rest hne ih =>
    rw [ih]
    · rfl
    · rintro ⟨front, back, hinfix⟩
      exact h ⟨x :: front, back, by rw [← hinfix]; rfl⟩
  | case3 => rfl

/-! ### The parameters of a header -/

/-- What the parameter gives for the attribute. -/
def valueFor (key piece : Bytes) : Option Bytes :=
  match parseParameter piece with
  | none => none
  | some (name, value) => if name = key ∧ !value.isEmpty then some value else none

/-- A fold that keeps the first thing it finds. -/
theorem foldl_findSome? {σ α β : Type} {get : σ → Option β} {step : σ → α → σ} {found : α → Option β}
    (h : ∀ s a, get (step s a) = (get s).or (found a)) (l : List α) (s : σ) :
    get (l.foldl step s) = (get s).or (l.findSome? found) := by
  induction l generalizing s with
  | nil => simp
  | cons a l ih =>
    rw [List.foldl_cons, ih, h, List.findSome?_cons, Option.or_assoc]
    cases found a <;> rfl

theorem filename_addParameter (parsed : ParsedContentDisposition) (piece : Bytes) :
    (parsed.addParameter piece).filename =
      parsed.filename.or (valueFor (strBytes "filename") piece) := by
  unfold ParsedContentDisposition.addParameter valueFor
  cases parseParameter piece with
  | none => simp
  | some parameter =>
    obtain ⟨name, value⟩ := parameter
    dsimp only
    by_cases hfound : name = strBytes "filename" ∧ (!value.isEmpty) = true
    · rw [if_pos hfound]
      cases hfilename : parsed.filename with
      | none =>
        rw [if_pos ⟨hfound.1, rfl, hfound.2⟩]
        rfl
      | some filename =>
        rw [if_neg (fun h => absurd h.2.1 (Option.some_ne_none filename)), hfilename]
        rfl
    · rw [if_neg hfound, if_neg (fun h => hfound ⟨h.1, h.2.2⟩), Option.or_none]

theorem name_addParameter (parsed : ParsedContentType) (piece : Bytes) :
    (parsed.addParameter piece).name = parsed.name.or (valueFor (strBytes "name") piece) := by
  unfold ParsedContentType.addParameter valueFor
  cases parseParameter piece with
  | none => simp
  | some parameter =>
    obtain ⟨name, value⟩ := parameter
    dsimp only
    by_cases hboundary : name = strBytes "boundary" ∧ parsed.boundary = none
    · have hname : ¬(name = strBytes "name" ∧ (!value.isEmpty) = true) := by
        rintro ⟨rfl, -⟩
        exact absurd hboundary.1 (by decide)
      rw [if_pos hboundary, if_neg hname, Option.or_none]
      split <;> rfl
    · rw [if_neg hboundary]
      by_cases hfound : name = strBytes "name" ∧ (!value.isEmpty) = true
      · rw [if_pos hfound]
        cases hname : parsed.name with
        | none =>
          rw [if_pos ⟨hfound.1, rfl, hfound.2⟩]
          rfl
        | some filename =>
          rw [if_neg (fun h => absurd h.2.1 (Option.some_ne_none filename)), hname]
          rfl
      · rw [if_neg hfound, if_neg (fun h => hfound ⟨h.1, h.2.2⟩), Option.or_none]

/-- The first parameter that the code takes for one of the attribute. -/
def firstFor (key : Bytes) (parameters : List Parameter) : Option Bytes :=
  parameters.findSome? fun p =>
    if cleanName p.name = key ∧ !(finalValue p.name p.value).isEmpty then
      some (finalValue p.name p.value)
    else none

theorem findSome?_leftAs (key : Bytes) {parameters : List Parameter} {pieces : List Bytes}
    (h : List.Forall₂ Parameter.LeftAs parameters pieces) :
    pieces.findSome? (valueFor key) = firstFor key parameters := by
  unfold firstFor
  induction h with
  | nil => rfl
  | cons hpiece _ ih =>
    rw [List.findSome?_cons, List.findSome?_cons, ih]
    unfold valueFor
    rw [parseParameter_leftAs hpiece]

theorem parseContentDisposition_filename {head : Bytes} (hhead : IsHead head)
    (parameters : List Parameter) :
    (parseContentDisposition (contentText head parameters)).filename =
      firstFor (strBytes "filename") parameters := by
  obtain ⟨cleaned, first, pieces, hcleaned, hsplit, hpieces⟩ := split_contentText hhead parameters
  unfold parseContentDisposition
  rw [hcleaned]
  dsimp only
  rw [hsplit]
  dsimp only
  rw [foldl_findSome? filename_addParameter, Option.none_or, findSome?_leftAs _ hpieces]

theorem parseContentType_name {head : Bytes} (hhead : IsHead head)
    (parameters : List Parameter) :
    (parseContentType (contentText head parameters)).name =
      firstFor (strBytes "name") parameters := by
  obtain ⟨cleaned, first, pieces, hcleaned, hsplit, hpieces⟩ := split_contentText hhead parameters
  unfold parseContentType
  rw [hcleaned]
  dsimp only
  rw [hsplit]
  dsimp only
  rw [foldl_findSome? name_addParameter, Option.none_or, findSome?_leftAs _ hpieces]

/-! ### What a spelling gives -/

/-- Only the parameters of the attribute matter. -/
theorem firstFor_named {key : Bytes} (hkey : 42 ∉ key) (parameters : List Parameter) :
    firstFor key parameters = firstFor key (named key parameters) := by
  unfold firstFor named
  induction parameters with
  | nil => rfl
  | cons p rest ih =>
    by_cases hnamed : p.key = key
    · rw [List.filter_cons_of_pos (by simpa using hnamed), List.findSome?_cons, List.findSome?_cons,
        ih]
    · rw [List.filter_cons_of_neg (by simpa using hnamed), List.findSome?_cons,
        if_neg (fun h => p.cleanName_ne hkey hnamed h.1), ih]

theorem finalValue_whole {key name : Bytes} (hkey : 42 ∉ key) (hname : IsFileName name)
    {p : Parameter} (h : WholeSpelling key name p) :
    cleanName p.name = key ∧ finalValue p.name p.value = name := by
  cases h with
  | plain hplain htext =>
    obtain ⟨hclean, hstar⟩ := cleanName_of_eq hkey hplain
    refine ⟨hclean, ?_⟩
    unfold finalValue
    rw [hstar, if_neg Bool.false_ne_true, unquoteMimeValue_plain p.tight_value htext,
      findEncodedWord_eq_none hname.2]
    rfl
  | extended hextended htext =>
    obtain ⟨hclean, hstar⟩ := cleanName_of_extended hextended
    refine ⟨hclean, ?_⟩
    unfold finalValue
    rw [hstar, if_pos rfl, unquoteMimeValue_of_head p.tight_value (head_extendedText htext)]
    exact decodeRfc2231_extendedText htext

theorem segments_unnamed {key name : Bytes} (hkey : 42 ∉ key) {number : Nat}
    {segments : List Parameter} (h : Segments key number segments name) :
    ∀ p ∈ segments, cleanName p.name ≠ key := by
  induction h with
  | nil number => simp
  | plain hname _ _ ih =>
    intro q hq
    rcases List.mem_cons.mp hq with rfl | hrest
    · exact cleanName_segment hkey (strBytes_toString_ne_nil _) hname
    · exact ih q hrest
  | extended hname _ _ ih =>
    intro q hq
    rcases List.mem_cons.mp hq with rfl | hrest
    · exact cleanName_segment hkey (by simp) hname
    · exact ih q hrest

/-- A name in one parameter is read, and a name in segments is not. -/
theorem firstFor_spelled {key name : Bytes} (hkey : 42 ∉ key) (hname : IsFileName name)
    {parameters : List Parameter} {continued : Bool} (h : Spelled key name parameters continued) :
    firstFor key parameters = if continued then none else some name := by
  rw [firstFor_named hkey]
  cases h with
  | @whole p hone hwhole =>
    obtain ⟨hclean, hvalue⟩ := finalValue_whole hkey hname hwhole
    have hnonempty : (!name.isEmpty) = true := by simpa using hname.1
    unfold firstFor
    rw [hone, List.findSome?_cons, hvalue, if_pos ⟨hclean, hnonempty⟩]
    rfl
  | @continued segments hne hperm hsegments =>
    unfold firstFor
    rw [List.findSome?_eq_none_iff.mpr]
    · rfl
    · intro p hp
      apply if_neg
      rintro ⟨hclean, -⟩
      exact segments_unnamed hkey hsegments p (hperm.mem_iff.mp hp) hclean

/-! ### The two fields -/

/-- The first value is kept. -/
theorem or_first {α : Type} (p : Prop) [Decidable p] (found : Option α) (a : α) :
    (if p ∧ found = none then some a else found) = found.or (if p then some a else none) := by
  cases found with
  | none => simp only [and_true, Option.none_or]
  | some first => rw [if_neg (fun h => Option.some_ne_none first h.2), Option.some_or]

theorem contentHeaders_type (found : Option ParsedContentType × Option ParsedContentDisposition)
    (field : Field) :
    (contentHeaders found field).1 =
      found.1.or ((valueOf "Content-Type" field).map parseContentType) := by
  unfold contentHeaders valueOf
  cases field.name with
  | none => exact (Option.or_none ..).symm
  | some name =>
    cases field.value with
    | none => exact (Option.or_none ..).symm
    | some value =>
      dsimp only
      rw [apply_ite (Option.map parseContentType), Option.map_some, Option.map_none, ← or_first,
        apply_ite Prod.fst, apply_ite Prod.fst, ite_self]

theorem not_both_content {name : Bytes}
    (h : eqIgnoreAsciiCase name (strBytes "Content-Disposition") = true) :
    eqIgnoreAsciiCase name (strBytes "Content-Type") ≠ true := by
  intro htype
  unfold eqIgnoreAsciiCase at h htype
  rw [beq_iff_eq] at h htype
  rw [h] at htype
  exact absurd htype (by decide +kernel)

theorem contentHeaders_disposition
    (found : Option ParsedContentType × Option ParsedContentDisposition) (field : Field) :
    (contentHeaders found field).2 =
      found.2.or ((valueOf "Content-Disposition" field).map parseContentDisposition) := by
  unfold contentHeaders valueOf
  cases field.name with
  | none => exact (Option.or_none ..).symm
  | some name =>
    cases field.value with
    | none => exact (Option.or_none ..).symm
    | some value =>
      dsimp only
      rw [apply_ite (Option.map parseContentDisposition), Option.map_some, Option.map_none,
        ← or_first, apply_ite Prod.snd, apply_ite Prod.snd]
      by_cases hdisposition : eqIgnoreAsciiCase name (strBytes "Content-Disposition") = true
      · rw [if_neg (fun h => not_both_content hdisposition h.1)]
      · have hkept : ¬(eqIgnoreAsciiCase name (strBytes "Content-Disposition") = true ∧
            found.2 = none) := fun h => hdisposition h.1
        rw [if_neg hkept, ite_self]

theorem findSome?_map {α β γ : Type} (f : α → Option β) (g : β → γ) (l : List α) :
    l.findSome? (fun a => (f a).map g) = (l.findSome? f).map g := by
  induction l with
  | nil => rfl
  | cons a l ih =>
    rw [List.findSome?_cons, List.findSome?_cons, ih]
    cases f a <;> rfl

/-- The name that the first `Content-Type` field gives by itself. -/
def typeName (fields : List Field) : Option Bytes :=
  (firstValue "Content-Type" fields).bind fun value => (parseContentType value).name

/-- The file name is that of the disposition or else that of the content type. -/
theorem partFromHeaders_filename (fields : List Field) :
    (partFromHeaders fields).1.filename =
      ((firstValue "Content-Disposition" fields).bind fun value =>
        (parseContentDisposition value).filename).or (typeName fields) := by
  have htype := foldl_findSome? contentHeaders_type fields (none, none)
  have hdisposition := foldl_findSome? contentHeaders_disposition fields (none, none)
  rw [findSome?_map, Option.none_or] at htype hdisposition
  unfold partFromHeaders typeName firstValue
  dsimp only
  rw [htype, hdisposition]
  cases fields.findSome? (valueOf "Content-Disposition") <;>
    cases fields.findSome? (valueOf "Content-Type") <;> rfl

/-- A name that the fields give is reported, unless it is in segments. A name in segments of the
disposition is reported where the content type gives it too. -/
theorem filename_seen {fields : List Field} {name : Bytes} {field : ContentField} {continued : Bool}
    (hname : IsFileName name) (h : GivesName fields name field continued) :
    (partFromHeaders fields).1.filename = some name ↔
      continued = false ∨ (field = .Disposition ∧ typeName fields = some name) := by
  rw [partFromHeaders_filename]
  cases h with
  | @disposition head parameters continued hhead hvalue hspelled =>
    rw [hvalue, Option.bind_some, parseContentDisposition_filename hhead,
      firstFor_spelled (by decide +kernel) hname hspelled]
    cases continued with
    | false => simp
    | true => simp
  | @contentType head parameters continued hhead hvalue hspelled habsent =>
    have hdisposition : ((firstValue "Content-Disposition" fields).bind fun value =>
        (parseContentDisposition value).filename) = none := by
      cases hfirst : firstValue "Content-Disposition" fields with
      | none => rfl
      | some value =>
        obtain ⟨head', parameters', hhead', rfl, hnone⟩ := habsent value hfirst
        rw [Option.bind_some, parseContentDisposition_filename hhead',
          firstFor_named (by decide +kernel), hnone]
        rfl
    rw [hdisposition, Option.none_or, typeName, hvalue, Option.bind_some,
      parseContentType_name hhead, firstFor_spelled (by decide +kernel) hname hspelled]
    cases continued with
    | false => simp
    | true => simp

/-! ### Two dispositions -/

theorem isHead_of_plain {head : Bytes}
    (h : ∀ b ∈ head, b ≠ QUOTE ∧ b ≠ LPAREN ∧ (b == SEMICOLON) = false) : IsHead head := by
  induction head with
  | nil => exact Lexed.nil
  | cons byte head ih =>
    obtain ⟨hquote, hparen, hstop⟩ := h byte List.mem_cons_self
    exact (ih fun b hb => h b (List.mem_cons_of_mem _ hb)).plain hquote hparen hstop

/-- A message with this disposition. -/
def disposed (parameters : List Parameter) : List Field :=
  [fieldWith (strBytes "Content-Disposition") (contentText (strBytes " attachment") parameters)]

theorem isHead_attachment : IsHead (strBytes " attachment") :=
  isHead_of_plain (by decide +kernel)

/-- A parameter behind a space. -/
def plainParameter (name value : Bytes) (hname : isMimeToken name = true)
    (hvalue : isMimeToken value = true) : Parameter where
  before := [SP]
  name := name
  afterName := []
  beforeValue := []
  value := value
  after := []
  gaps := ⟨Gap.nil.space rfl, Gap.nil, Gap.nil, Gap.nil⟩
  name_token := hname
  value_text := .inr (.inl hvalue)

/-- A name in the extended notation. -/
def extendedName : Parameter :=
  plainParameter (strBytes "FileName*") (strBytes "utf-8'en'a%2Eb") (by decide +kernel)
    (by decide +kernel)

theorem percentText_name : PercentText (strBytes "a%2Eb") (strBytes "a.b") := by
  have hlast : PercentText [98] [98] := PercentText.plain (by decide +kernel) PercentText.nil
  have hdot : PercentText [37, 50, 69, 98] [46, 98] :=
    @PercentText.encoded 46 [98] [98] true true hlast
  have htext : strBytes "a%2Eb" = 97 :: [37, 50, 69, 98] := by decide +kernel
  have hname : strBytes "a.b" = 97 :: [46, 98] := by decide +kernel
  rw [htext, hname]
  exact PercentText.plain (by decide +kernel) hdot

theorem extendedText_name : ExtendedText (strBytes "utf-8'en'a%2Eb") (strBytes "a.b") :=
  ⟨strBytes "utf-8", strBytes "en", strBytes "a%2Eb", by decide +kernel, by decide +kernel,
    by decide +kernel, percentText_name⟩

theorem firstValue_disposed (parameters : List Parameter) :
    firstValue "Content-Disposition" (disposed parameters) =
      some (contentText (strBytes " attachment") parameters) := by
  have hvalue : ∀ value, valueOf "Content-Disposition"
      (fieldWith (strBytes "Content-Disposition") value) = some value := by
    intro value
    unfold valueOf
    rw [value_fieldWith]
    exact if_pos (by decide +kernel)
  unfold firstValue disposed
  rw [List.findSome?_cons, hvalue]

theorem givesName_extended :
    GivesName (disposed [extendedName]) (strBytes "a.b") .Disposition false := by
  have hone : named (strBytes "filename") [extendedName] = [extendedName] :=
    List.filter_cons_of_pos (by decide +kernel)
  have hwhole : WholeSpelling (strBytes "filename") (strBytes "a.b") extendedName :=
    .extended (by decide +kernel) extendedText_name
  exact .disposition isHead_attachment (firstValue_disposed _) (.whole hone hwhole)

theorem filename_seen_extended :
    (partFromHeaders (disposed [extendedName])).1.filename = some (strBytes "a.b") ↔
      false = false ∨ (ContentField.Disposition = .Disposition ∧
        typeName (disposed [extendedName]) = some (strBytes "a.b")) :=
  filename_seen ⟨by decide +kernel, by decide +kernel⟩ givesName_extended

/-- The first segment of a name. -/
def firstSegment : Parameter :=
  plainParameter (strBytes "filename*0") (strBytes "evil") (by decide +kernel) (by decide +kernel)

/-- The second segment of a name. -/
def secondSegment : Parameter :=
  plainParameter (strBytes "filename*1") (strBytes ".exe") (by decide +kernel) (by decide +kernel)

/-- A name in two segments is not reported. -/
theorem segments_not_seen :
    GivesName (disposed [firstSegment, secondSegment]) (strBytes "evil.exe") .Disposition true ∧
      IsFileName (strBytes "evil.exe") ∧
      (partFromHeaders (disposed [firstSegment, secondSegment])).1.filename = none := by
  have hlast : Segments (strBytes "filename") 1 [secondSegment] (strBytes ".exe" ++ []) :=
    .plain (by decide +kernel) (.token (by decide +kernel)) (.nil 2)
  have hsegments : Segments (strBytes "filename") 0 [firstSegment, secondSegment]
      (strBytes "evil" ++ (strBytes ".exe" ++ [])) :=
    .plain (by decide +kernel) (.token (by decide +kernel)) hlast
  have hname : strBytes "evil" ++ (strBytes ".exe" ++ []) = strBytes "evil.exe" := by
    decide +kernel
  have hnamed : named (strBytes "filename") [firstSegment, secondSegment] =
      [firstSegment, secondSegment] :=
    List.filter_eq_self.mpr (by decide +kernel)
  rw [hname] at hsegments
  refine ⟨.disposition isHead_attachment (firstValue_disposed _)
    (.continued (by simp) (.of_eq hnamed) hsegments), ⟨by decide +kernel, by decide +kernel⟩, ?_⟩
  decide +kernel

end ProcmailRs
