import ProcmailRs.Proofs.AddressProofs
import ProcmailRs.Lib.Splitting

/-!
# Lists of addresses

The value of an address field is a list of elements behind one another. An element that closes every
comment, every quoted string and every angle bracket that it opens has no effect on the others: what
such elements present together is what each of them presents on its own.
-/

namespace ProcmailRs

open Quoting (outside)

/-! ### Self-contained values -/

/-- What is open in a value: nested comments, a quoted string, a quoted pair in one of these, and angle
brackets. -/
structure OpenDelimiters where
  comments : Nat
  quoted : Bool
  escaped : Bool
  angles : Nat
  deriving DecidableEq, Repr

namespace OpenDelimiters

/-- Nothing is open. -/
def closed : OpenDelimiters := ⟨0, false, false, 0⟩

/-- What is open behind a further byte. An angle bracket that closes nothing is text. -/
def step (state : OpenDelimiters) (byte : UInt8) : OpenDelimiters :=
  if state.escaped then { state with escaped := false }
  else if state.comments > 0 then
    if byte = BACKSLASH then { state with escaped := true }
    else if byte = LPAREN then { state with comments := state.comments + 1 }
    else if byte = RPAREN then { state with comments := state.comments - 1 }
    else state
  else if state.quoted then
    if byte = BACKSLASH then { state with escaped := true }
    else if byte = QUOTE then { state with quoted := false }
    else state
  else if byte = LPAREN then { state with comments := 1 }
  else if byte = QUOTE then { state with quoted := true }
  else if byte = LANGLE then { state with angles := state.angles + 1 }
  else if byte = RANGLE then { state with angles := state.angles - 1 }
  else state

end OpenDelimiters

/-- The comments, quoted strings and angle brackets of the value are closed within it. -/
def SelfContained (value : Bytes) : Prop :=
  value.foldl OpenDelimiters.step OpenDelimiters.closed = OpenDelimiters.closed

instance (value : Bytes) : Decidable (SelfContained value) := inferInstanceAs (Decidable (_ = _))

/-- An element of a list, with the whitespace around it. -/
structure ListElement where
  before : Bytes
  value : Bytes
  after : Bytes
  isSpaces_before : IsSpaces before
  isSpaces_after : IsSpaces after
  selfContained : SelfContained value

namespace ListElement

/-- The text of an element. -/
def text (element : ListElement) : Bytes := element.before ++ element.value ++ element.after

/-- The value of a field that lists the elements. -/
def joined (elements : List ListElement) : Bytes := [COMMA].intercalate (elements.map text)

end ListElement

/-! ### The two scanners follow what is open -/

theorem mailboxElementsFrom_eq (scan : ListScan) (current l : Bytes) :
    mailboxElementsFrom scan current l = Splitting.pieces ListScan.step scan current l := by
  induction l generalizing scan current with
  | nil => rfl
  | cons byte l ih =>
    rw [mailboxElementsFrom, Splitting.pieces]
    simp only [ih]

namespace ListScan

/-- Before the first byte. -/
def start : ListScan := ⟨false, 0, false⟩

theorem step_comma : start.step COMMA = (start, true) := by decide

/-- Whitespace never separates. -/
theorem step_space {byte : UInt8} (h : isAsciiWhitespace byte = true) (scan : ListScan) :
    (scan.step byte).2 = false := by
  have hspace : ∀ b : UInt8, isAsciiWhitespace b = true → b ≠ COMMA ∧ b ≠ SEMICOLON := by decide +kernel
  obtain ⟨hcomma, hsemicolon⟩ := hspace byte h
  unfold step
  split_ifs <;> simp [hcomma, hsemicolon]

theorem step_start_space {byte : UInt8} (h : isAsciiWhitespace byte = true) :
    start.step byte = (start, false) := by
  revert byte
  decide +kernel

end ListScan

/-- The comment scanner and the list scanner on its output stand where the value leaves them. -/
structure Reflects (state : OpenDelimiters) (scan : CommentScan) : Prop where
  comments : scan.commentDepth = state.comments
  quoted : scan.quoted = state.quoted
  escaped : scan.escaped = state.escaped
  unquoted : state.comments > 0 → state.quoted = false
  list : Splitting.run ListScan.step ListScan.start scan.output =
    ⟨state.quoted, state.angles, state.escaped && state.comments == 0⟩

theorem reflects_start : Reflects OpenDelimiters.closed CommentScan.start where
  comments := rfl
  quoted := rfl
  escaped := rfl
  unquoted h := absurd h (by decide)
  list := rfl

theorem run_concat (l : Bytes) (byte : UInt8) (scan : ListScan) :
    Splitting.run ListScan.step scan (l ++ [byte]) =
      ((Splitting.run ListScan.step scan l).step byte).1 := by
  rw [Splitting.run_append]
  rfl

/-- The space in front of further text is nothing to the list scanner. -/
theorem run_flushSpace (scan : CommentScan) {quoted : Bool} {angles : Nat}
    (hquoted : scan.quoted = quoted)
    (h : Splitting.run ListScan.step ListScan.start scan.output = ⟨quoted, angles, false⟩) :
    Splitting.run ListScan.step ListScan.start scan.flushSpace = ⟨quoted, angles, false⟩ := by
  unfold CommentScan.flushSpace
  by_cases hflush : (scan.pendingSpace && !scan.output.isEmpty && !scan.quoted) = true
  · rw [if_pos hflush, run_concat, h]
    have hunquoted : quoted = false := by
      rw [Bool.and_eq_true, hquoted] at hflush
      simpa using hflush.2
    rw [hunquoted]
    rfl
  · rw [if_neg hflush, h]

section Steps

variable {output : Bytes} {pending : Bool} {depth angles : Nat}

/-- A byte of a comment. -/
theorem reflects_comment (hdepth : depth > 0)
    (hlist : Splitting.run ListScan.step ListScan.start output = ⟨false, angles, false⟩) (byte : UInt8) :
    Reflects (OpenDelimiters.step ⟨depth, false, false, angles⟩ byte)
      (CommentScan.step ⟨output, depth, false, false, pending⟩ byte) := by
  have hne : depth ≠ 0 := by omega
  have hbeq : (depth == 0) = false := beq_false_of_ne hne
  unfold OpenDelimiters.step CommentScan.step
  simp only [Bool.false_eq_true, if_false, hdepth, if_true, or_true, and_true, hne]
  by_cases hbackslash : byte = BACKSLASH
  · subst hbackslash
    exact ⟨rfl, rfl, rfl, fun _ => rfl, by simpa [hbeq] using hlist⟩
  · by_cases hopen : byte = LPAREN
    · subst hopen
      exact ⟨rfl, rfl, rfl, fun _ => rfl, hlist⟩
    · by_cases hclose : byte = RPAREN
      · subst hclose
        exact ⟨rfl, rfl, rfl, fun _ => rfl, hlist⟩
      · simp only [hbackslash, hopen, hclose, if_false]
        exact ⟨rfl, rfl, rfl, fun _ => rfl, hlist⟩

/-- A byte of a quoted string. -/
theorem reflects_quoted
    (hlist : Splitting.run ListScan.step ListScan.start output = ⟨true, angles, false⟩) (byte : UInt8) :
    Reflects (OpenDelimiters.step ⟨0, true, false, angles⟩ byte)
      (CommentScan.step ⟨output, 0, true, false, pending⟩ byte) := by
  have hflush := @run_flushSpace ⟨output, 0, true, false, pending⟩ true angles rfl hlist
  unfold OpenDelimiters.step CommentScan.step
  simp only [Bool.false_eq_true, if_false, Nat.lt_irrefl, if_true, true_or, and_true, Bool.not_true,
    false_and]
  by_cases hbackslash : byte = BACKSLASH
  · subst hbackslash
    refine ⟨rfl, rfl, rfl, fun h => absurd h (by simp), ?_⟩
    simp only [if_true, run_concat, hlist]
    rfl
  · simp only [hbackslash, if_false]
    by_cases hquote : byte = QUOTE
    · subst hquote
      refine ⟨rfl, rfl, rfl, fun _ => rfl, ?_⟩
      simp only [if_true, run_concat, hflush]
      rfl
    · simp only [hquote, if_false]
      refine ⟨rfl, rfl, rfl, fun h => absurd h (by simp), ?_⟩
      simp only [run_concat, hflush]
      simp [ListScan.step, hbackslash, hquote]

/-- A byte outside of comments and quoted strings. -/
theorem reflects_text
    (hlist : Splitting.run ListScan.step ListScan.start output = ⟨false, angles, false⟩) (byte : UInt8) :
    Reflects (OpenDelimiters.step ⟨0, false, false, angles⟩ byte)
      (CommentScan.step ⟨output, 0, false, false, pending⟩ byte) := by
  have hflush := @run_flushSpace ⟨output, 0, false, false, pending⟩ false angles rfl hlist
  unfold OpenDelimiters.step CommentScan.step
  simp only [Bool.false_eq_true, if_false, Nat.lt_irrefl, or_self, and_false, Bool.not_false, true_and]
  by_cases hopen : byte = LPAREN
  · subst hopen
    exact ⟨rfl, rfl, rfl, fun _ => rfl, hlist⟩
  · simp only [hopen, if_false]
    by_cases hquote : byte = QUOTE
    · subst hquote
      refine ⟨rfl, rfl, rfl, fun h => absurd h (by simp), ?_⟩
      simp only [if_true, run_concat, hflush]
      rfl
    · simp only [hquote, if_false]
      by_cases hspace : isAsciiWhitespace byte = true
      · have hnot : ∀ b : UInt8, isAsciiWhitespace b = true → b ≠ LANGLE ∧ b ≠ RANGLE := by
          decide +kernel
        simp only [hspace, if_true, hnot byte hspace, if_false]
        exact ⟨rfl, rfl, rfl, fun _ => rfl, hlist⟩
      · rw [if_neg hspace]
        by_cases hleft : byte = LANGLE
        · subst hleft
          refine ⟨rfl, rfl, rfl, fun _ => rfl, ?_⟩
          simp only [run_concat, hflush]
          rfl
        · rw [if_neg hleft]
          by_cases hright : byte = RANGLE
          · subst hright
            refine ⟨rfl, rfl, rfl, fun _ => rfl, ?_⟩
            simp only [run_concat, hflush]
            rfl
          · rw [if_neg hright]
            refine ⟨rfl, rfl, rfl, fun _ => rfl, ?_⟩
            simp only [run_concat, hflush]
            simp [ListScan.step, hquote, hleft, hright]

end Steps

theorem Reflects.step {state : OpenDelimiters} {scan : CommentScan} (h : Reflects state scan)
    (byte : UInt8) : Reflects (state.step byte) (scan.step byte) := by
  obtain ⟨comments, quoted, escaped, angles⟩ := state
  obtain ⟨output, depth, quoted', escaped', pending⟩ := scan
  obtain ⟨hcomments, hquoted, hescaped, hunquoted, hlist⟩ := h
  simp only at hcomments hquoted hescaped hunquoted hlist
  subst hcomments hquoted hescaped
  cases escaped' with
  | true =>
    unfold OpenDelimiters.step CommentScan.step
    refine ⟨rfl, rfl, rfl, hunquoted, ?_⟩
    by_cases hdepth : depth = 0
    · subst hdepth
      simp only [if_true, run_concat, hlist]
      rfl
    · simp only [hdepth, if_false, hlist, if_true]
      simp [hdepth]
  | false =>
    by_cases hdepth : depth > 0
    · have hquoted : quoted' = false := hunquoted hdepth
      subst hquoted
      exact reflects_comment hdepth hlist byte
    · obtain rfl : depth = 0 := by omega
      cases quoted' with
      | true => exact reflects_quoted hlist byte
      | false => exact reflects_text hlist byte

theorem Reflects.foldl {state : OpenDelimiters} {scan : CommentScan} (h : Reflects state scan)
    (l : Bytes) : Reflects (l.foldl OpenDelimiters.step state) (l.foldl CommentScan.step scan) := by
  induction l generalizing state scan with
  | nil => exact h
  | cons byte l ih => exact ih (h.step byte)

/-- What is left of a self-contained value when its comments are removed, and that the list scanner is
back at its start behind it. -/
theorem SelfContained.cleaned {value : Bytes} (h : SelfContained value) :
    removeCommentsAndUnfold value = some (CommentScan.run value).output ∧
      Splitting.run ListScan.step ListScan.start (CommentScan.run value).output = ListScan.start := by
  have hreflects := reflects_start.foldl value
  unfold SelfContained at h
  rw [h] at hreflects
  obtain ⟨hcomments, hquoted, hescaped, -, hlist⟩ := hreflects
  refine ⟨?_, hlist⟩
  unfold removeCommentsAndUnfold CommentScan.run
  simp only
  rw [hcomments, hquoted, hescaped]
  rfl

/-! ### A value behind others -/

/-- A value is scanned behind `front` as it is on its own, except for whitespace in front of what is
left of it. -/
structure Continues (front : Bytes) (alone scan : CommentScan) : Prop where
  output : ∃ w, IsSpaces w ∧ scan.output = front ++ w ++ alone.output
  commentDepth : scan.commentDepth = alone.commentDepth
  quoted : scan.quoted = alone.quoted
  escaped : scan.escaped = alone.escaped
  pendingSpace : alone.output ≠ [] → scan.pendingSpace = alone.pendingSpace
  started : alone.quoted = true → alone.output ≠ []
  pair : alone.escaped = true → alone.commentDepth = 0 → alone.quoted = true

namespace Continues

variable {front : Bytes} {alone scan : CommentScan}

theorem flushSpace (h : Continues front alone scan) :
    ∃ w, IsSpaces w ∧ scan.flushSpace = front ++ w ++ alone.flushSpace := by
  obtain ⟨w, hw, houtput⟩ := h.output
  unfold CommentScan.flushSpace
  rw [h.quoted]
  by_cases hempty : alone.output = []
  · have hnone : (alone.pendingSpace && !alone.output.isEmpty && !alone.quoted) = false := by
      simp [hempty]
    rw [hnone, if_neg Bool.false_ne_true, houtput]
    by_cases hflush : (scan.pendingSpace && !(front ++ w ++ alone.output).isEmpty &&
        !alone.quoted) = true
    · refine ⟨w ++ [SP], ?_, ?_⟩
      · intro b hb
        rcases List.mem_append.mp hb with hb | hb
        · exact hw b hb
        · cases List.mem_singleton.mp hb
          rfl
      · rw [if_pos hflush, hempty]
        simp
    · exact ⟨w, hw, if_neg hflush⟩
  · have hne : scan.output ≠ [] := by
      rw [houtput]
      simp [hempty]
    refine ⟨w, hw, ?_⟩
    rw [h.pendingSpace hempty]
    have hboth : scan.output.isEmpty = alone.output.isEmpty := by
      rw [List.isEmpty_eq_false_iff.mpr hne, List.isEmpty_eq_false_iff.mpr hempty]
    rw [hboth]
    split_ifs
    · rw [houtput, List.append_assoc]
    · exact houtput

theorem append (h : Continues front alone scan) (byte : UInt8) :
    ∃ w, IsSpaces w ∧ scan.output ++ [byte] = front ++ w ++ (alone.output ++ [byte]) := by
  obtain ⟨w, hw, houtput⟩ := h.output
  exact ⟨w, hw, by rw [houtput, List.append_assoc]⟩

theorem flushed (h : Continues front alone scan) (byte : UInt8) :
    ∃ w, IsSpaces w ∧ scan.flushSpace ++ [byte] = front ++ w ++ (alone.flushSpace ++ [byte]) := by
  obtain ⟨w, hw, hflush⟩ := h.flushSpace
  exact ⟨w, hw, by rw [hflush, List.append_assoc]⟩

theorem step (h : Continues front alone scan) (byte : UInt8) :
    Continues front (alone.step byte) (scan.step byte) := by
  have happend := h.append byte
  have hflush := h.flushed byte
  have hpending : alone.quoted = true → scan.pendingSpace = alone.pendingSpace := fun hquoted =>
    h.pendingSpace (h.started hquoted)
  obtain ⟨output, depth, quoted, escaped, pending⟩ := alone
  obtain ⟨output', depth', quoted', escaped', pending'⟩ := scan
  obtain ⟨houtput, hdepth, hquoted, hescaped, hpendingSpace, hstarted, hpair⟩ := h
  simp only at hdepth hquoted hescaped
  subst hdepth hquoted hescaped
  unfold CommentScan.step
  simp only
  by_cases hescape : escaped' = true
  · rw [if_pos hescape, if_pos hescape]
    by_cases hzero : depth' = 0
    · rw [if_pos hzero, if_pos hzero]
      exact ⟨happend, rfl, rfl, rfl, fun _ => hpending (hpair hescape hzero), fun _ => by simp,
        fun h => nomatch h⟩
    · rw [if_neg hzero, if_neg hzero]
      exact ⟨houtput, rfl, rfl, rfl, hpendingSpace, hstarted, fun h => nomatch h⟩
  · rw [if_neg hescape, if_neg hescape]
    have hunescaped : ∀ {P : Prop}, escaped' = true → P := fun h => absurd h hescape
    by_cases hbackslash : byte = BACKSLASH ∧ (quoted' = true ∨ depth' > 0)
    · rw [if_pos hbackslash, if_pos hbackslash]
      by_cases hzero : depth' = 0
      · rw [if_pos hzero, if_pos hzero]
        have hin : quoted' = true := by
          rcases hbackslash.2 with h | h
          · exact h
          · omega
        exact ⟨happend, rfl, rfl, rfl, fun _ => hpending hin, fun _ => by simp, fun _ _ => hin⟩
      · rw [if_neg hzero, if_neg hzero]
        exact ⟨houtput, rfl, rfl, rfl, hpendingSpace, hstarted, fun _ h => absurd h hzero⟩
    · rw [if_neg hbackslash, if_neg hbackslash]
      by_cases hcomment : depth' > 0
      · rw [if_pos hcomment, if_pos hcomment]
        split_ifs
        · exact ⟨houtput, rfl, rfl, rfl, hpendingSpace, hstarted, fun h => hunescaped h⟩
        · exact ⟨houtput, rfl, rfl, rfl, hpendingSpace, hstarted, fun h => hunescaped h⟩
        · exact ⟨houtput, rfl, rfl, rfl, hpendingSpace, hstarted, hpair⟩
      · rw [if_neg hcomment, if_neg hcomment]
        split_ifs
        · exact ⟨houtput, rfl, rfl, rfl, hpendingSpace, hstarted, fun h => hunescaped h⟩
        · exact ⟨hflush, rfl, rfl, rfl, fun _ => rfl, fun _ => by simp, fun h => hunescaped h⟩
        · exact ⟨houtput, rfl, rfl, rfl, fun _ => rfl, hstarted, hpair⟩
        · exact ⟨hflush, rfl, rfl, rfl, fun _ => rfl, fun _ => by simp, fun h => hunescaped h⟩

theorem foldl (h : Continues front alone scan) (l : Bytes) :
    Continues front (l.foldl CommentScan.step alone) (l.foldl CommentScan.step scan) := by
  induction l generalizing alone scan with
  | nil => exact h
  | cons byte l ih => exact ih (h.step byte)

theorem start (front : Bytes) (pendingSpace : Bool) :
    Continues front CommentScan.start (CommentScan.text front outside pendingSpace) where
  output := ⟨[], isSpaces_nil, by simp [CommentScan.text, CommentScan.start]⟩
  commentDepth := rfl
  quoted := rfl
  escaped := rfl
  pendingSpace h := absurd rfl h
  started h := nomatch h
  pair h := nomatch h

end Continues

theorem CommentScan.eq_text {scan : CommentScan} {output : Bytes} (houtput : scan.output = output)
    (hdepth : scan.commentDepth = 0) (hquoted : scan.quoted = false) (hescaped : scan.escaped = false) :
    scan = CommentScan.text output outside scan.pendingSpace := by
  obtain ⟨output', depth, quoted, escaped, pending⟩ := scan
  cases houtput
  cases hdepth
  cases hquoted
  cases hescaped
  rfl

/-- A self-contained value, with whitespace around it, leaves the scan outside of everything. -/
theorem ListElement.foldl_text (element : ListElement) (front : Bytes) (pendingSpace : Bool) :
    ∃ w pendingSpace', IsSpaces w ∧
      element.text.foldl CommentScan.step (CommentScan.text front outside pendingSpace) =
        CommentScan.text (front ++ w ++ (CommentScan.run element.value).output) outside
          pendingSpace' := by
  have hcontinues := (Continues.start front (pendingSpace || !element.before.isEmpty)).foldl element.value
  have hreflects := reflects_start.foldl element.value
  rw [element.selfContained] at hreflects
  obtain ⟨w, hw, houtput⟩ := hcontinues.output
  obtain ⟨pending, hscan⟩ : ∃ pending, element.value.foldl CommentScan.step
      (CommentScan.text front outside (pendingSpace || !element.before.isEmpty)) =
        CommentScan.text (front ++ w ++ (CommentScan.run element.value).output) outside pending :=
    ⟨_, CommentScan.eq_text houtput (hcontinues.commentDepth.trans hreflects.comments)
      (hcontinues.quoted.trans hreflects.quoted) (hcontinues.escaped.trans hreflects.escaped)⟩
  refine ⟨w, pending || !element.after.isEmpty, hw, ?_⟩
  unfold ListElement.text
  rw [List.foldl_append, List.foldl_append, CommentScan.foldl_space element.isSpaces_before, hscan,
    CommentScan.foldl_space element.isSpaces_after]

theorem CommentScan.joint_eq (output : Bytes) (pendingSpace : Bool) :
    ∃ w, IsSpaces w ∧ CommentScan.joint output pendingSpace = output ++ w := by
  by_cases hempty : output = []
  · exact ⟨[], isSpaces_nil, by rw [hempty, joint_nil]; rfl⟩
  · exact ⟨space pendingSpace, isSpaces_space pendingSpace, joint_space hempty pendingSpace⟩

/-- What is left of an element in a list, with whitespace around it. -/
def Left (element : ListElement) (text : Bytes) : Prop :=
  ∃ w w', IsSpaces w ∧ IsSpaces w' ∧ text = w ++ (CommentScan.run element.value).output ++ w'

theorem foldl_joined : (elements : List ListElement) → elements ≠ [] →
    ∀ (front : Bytes) (pendingSpace : Bool), ∃ texts pendingSpace',
      List.Forall₂ Left elements texts ∧
        (ListElement.joined elements).foldl CommentScan.step
            (CommentScan.text front outside pendingSpace) =
          CommentScan.text (front ++ [COMMA].intercalate texts) outside pendingSpace'
  | [], hne, _, _ => absurd rfl hne
  | [element], _, front, pendingSpace => by
    obtain ⟨w, pending, hw, hscan⟩ := element.foldl_text front pendingSpace
    refine ⟨[w ++ (CommentScan.run element.value).output], pending,
      .cons ⟨w, [], hw, isSpaces_nil, by simp⟩ .nil, ?_⟩
    simpa [ListElement.joined] using hscan
  | element :: next :: rest, _, front, pendingSpace => by
    obtain ⟨w, pending, hw, hscan⟩ := element.foldl_text front pendingSpace
    obtain ⟨w', hw', hjoint⟩ :=
      CommentScan.joint_eq (front ++ w ++ (CommentScan.run element.value).output) pending
    obtain ⟨texts, pending', htexts, hrest⟩ := foldl_joined (next :: rest) (by simp)
      (front ++ w ++ (CommentScan.run element.value).output ++ w' ++ [COMMA]) false
    refine ⟨(w ++ (CommentScan.run element.value).output ++ w') :: texts, pending',
      .cons ⟨w, w', hw, hw', rfl⟩ htexts, ?_⟩
    have hjoined : ListElement.joined (element :: next :: rest) =
        element.text ++ [COMMA] ++ ListElement.joined (next :: rest) := by
      simp [ListElement.joined, List.intercalate_cons_cons]
    have hcomma : (CommentScan.text (front ++ w ++ (CommentScan.run element.value).output) outside
        pending).step COMMA =
          CommentScan.text (front ++ w ++ (CommentScan.run element.value).output ++ w' ++ [COMMA])
            outside false := by
      rw [CommentScan.step_outside (by decide), hjoint]
      rfl
    rw [hjoined, List.foldl_append, List.foldl_append, hscan, List.foldl_cons, List.foldl_nil, hcomma,
      hrest]
    cases htexts with
    | cons _ _ => simp [List.intercalate_cons_cons]

/-! ### What a list presents -/

/-- Only what stands between the whitespace matters. -/
theorem normalizeMailbox_trimAscii (element : Bytes) :
    normalizeMailbox (trimAscii element) = normalizeMailbox element := by
  unfold normalizeMailbox
  rw [trimAscii_of_tight (tight_trimAscii element)]

theorem filterMap_normalizeMailbox (elements : List Bytes) :
    elements.filterMap normalizeMailbox = (elements.map trimAscii).filterMap normalizeMailbox := by
  rw [List.filterMap_map]
  exact List.filterMap_congr fun element _ => (normalizeMailbox_trimAscii element).symm

/-- The whitespace around what is left of an element changes nothing. -/
theorem Left.pieces {element : ListElement} {text : Bytes} (h : Left element text) :
    Splitting.run ListScan.step ListScan.start text = ListScan.start ∧
      (Splitting.pieces ListScan.step ListScan.start [] text).filterMap normalizeMailbox =
        presented element.value := by
  obtain ⟨w, w', hw, hw', rfl⟩ := h
  obtain ⟨hcleaned, hrun⟩ := element.selfContained.cleaned
  have hstill : ∀ {w : Bytes}, IsSpaces w →
      ∀ b ∈ w, ListScan.start.step b = (ListScan.start, false) := fun hw b hb =>
    ListScan.step_start_space (hw b hb)
  constructor
  · have hspaces : ∀ {w : Bytes}, IsSpaces w →
        Splitting.run ListScan.step ListScan.start w = ListScan.start := fun hw =>
      Splitting.run_of_forall fun b hb => by rw [hstill hw b hb]
    rw [Splitting.run_append, Splitting.run_append, hspaces hw, hrun, hspaces hw']
  · have hmap : (Splitting.pieces ListScan.step ListScan.start []
        (w ++ (CommentScan.run element.value).output ++ w')).map trimAscii =
          (Splitting.pieces ListScan.step ListScan.start []
            (CommentScan.run element.value).output).map trimAscii := by
      rw [Splitting.map_pieces_right (fun scan b hb => ListScan.step_space (hw' b hb) scan)
          (trimAscii_right hw'), Splitting.pieces_of_still (hstill hw), List.nil_append]
      have hleft := @Splitting.map_pieces_left _ _ _ ListScan.step ListScan.start trimAscii w
        (trimAscii_left hw) [] (CommentScan.run element.value).output
      rw [List.append_nil] at hleft
      exact hleft
    rw [filterMap_normalizeMailbox, hmap, ← filterMap_normalizeMailbox, presented, hcleaned]
    simp only [mailboxElements, mailboxElementsFrom_eq]
    rfl

theorem pieces_of_left {elements : List ListElement} {texts : List Bytes}
    (h : List.Forall₂ Left elements texts) :
    (∀ text ∈ texts, Splitting.run ListScan.step ListScan.start text = ListScan.start) ∧
      (texts.flatMap (Splitting.pieces ListScan.step ListScan.start [])).filterMap normalizeMailbox =
        elements.flatMap fun element => presented element.value := by
  induction h with
  | nil => exact ⟨fun _ htext => absurd htext (List.not_mem_nil), rfl⟩
  | cons hfirst _ ih =>
    constructor
    · intro text htext
      rcases List.mem_cons.mp htext with rfl | htext
      · exact hfirst.pieces.1
      · exact ih.1 text htext
    · rw [List.flatMap_cons, List.filterMap_append, hfirst.pieces.2, ih.2, List.flatMap_cons]

/-- A list presents what its elements present, in their order. -/
theorem presented_joined (elements : List ListElement) :
    presented (ListElement.joined elements) =
      elements.flatMap fun element => presented element.value := by
  by_cases hne : elements = []
  · subst hne
    rfl
  · obtain ⟨texts, pending, htexts, hscan⟩ := foldl_joined elements hne [] false
    have hcleaned : removeCommentsAndUnfold (ListElement.joined elements) =
        some ([COMMA].intercalate texts) := by
      have hrun : CommentScan.run (ListElement.joined elements) =
          CommentScan.text ([COMMA].intercalate texts) outside pending := hscan
      unfold removeCommentsAndUnfold
      rw [hrun]
      rfl
    have htextsne : texts ≠ [] := by
      rintro rfl
      cases htexts
      exact hne rfl
    obtain ⟨hleft, hpresented⟩ := pieces_of_left htexts
    rw [presented, hcleaned]
    simp only [mailboxElements, mailboxElementsFrom_eq]
    rw [← hpresented, ← Splitting.pieces_intercalate ListScan.step_comma htextsne hleft]
    rfl

section Fields

variable {ε σ : Type} (visit : σ → Bytes → Except ε (Bool × σ)) (name : Bytes)

/-- Fields with one name show their addresses one behind the other, unless they are not wanted. -/
theorem visitFields_elements (wanted : List AddressField) (after : List Field)
    (elements : List ListElement) (s : Nat × σ) :
    visitFields (visitAddressField wanted visit)
        (elements.map (fun element => fieldWith name element.value) ++ after) s =
      match if wanted.any (fun field => eqIgnoreAsciiCase name field.name.bytes) then
          visitLimited maxStructuredHeaderValues visit
            (elements.flatMap fun element => presented element.value) s.1 s.2
        else .ok (false, s) with
      | .error e => .error e
      | .ok (true, s) => .ok (true, s)
      | .ok (false, s) => visitFields (visitAddressField wanted visit) after s := by
  induction elements generalizing s with
  | nil => split_ifs <;> rfl
  | cons element rest ih =>
    have hfield : (fieldWith name element.value).name = some name := rfl
    rw [List.map_cons, List.cons_append, visitFields, hfield, value_fieldWith, List.flatMap_cons]
    simp only [visitAddressField]
    by_cases hwanted : (wanted.any fun field => eqIgnoreAsciiCase name field.name.bytes) = true
    · rw [if_pos hwanted, if_pos hwanted, visitLimited_append]
      cases visitLimited maxStructuredHeaderValues visit (presented element.value) s.1 s.2 with
      | error e => rfl
      | ok result =>
        obtain ⟨found, count, s⟩ := result
        cases found with
        | true => rfl
        | false =>
          simp only
          rw [ih (count, s), if_pos hwanted]
    · rw [if_neg hwanted, if_neg hwanted]
      simp only
      rw [ih s, if_neg hwanted]

/-- In every header, a list of self-contained values shows every visitor what the values show as fields
of their own in the same order. -/
theorem anyAddress_elements (wanted : List AddressField) (before after : List Field)
    (elements : List ListElement) (s : σ) :
    anyAddress (before ++ fieldWith name (ListElement.joined elements) :: after) wanted visit s =
      anyAddress (before ++ elements.map (fun element => fieldWith name element.value) ++ after) wanted
        visit s := by
  have hfields : ∀ s, visitFields (visitAddressField wanted visit)
      (before ++ fieldWith name (ListElement.joined elements) :: after) s =
        visitFields (visitAddressField wanted visit)
          (before ++ (elements.map (fun element => fieldWith name element.value) ++ after)) s := by
    intro s
    induction before generalizing s with
    | nil =>
      have hfield : (fieldWith name (ListElement.joined elements)).name = some name := rfl
      rw [List.nil_append, List.nil_append, visitFields_elements, visitFields, hfield,
        value_fieldWith]
      simp only [visitAddressField, presented_joined]
      split_ifs
      · cases visitLimited maxStructuredHeaderValues visit
          (elements.flatMap fun element => presented element.value) s.1 s.2 with
        | error e => rfl
        | ok result =>
          obtain ⟨found, s⟩ := result
          cases found <;> rfl
      · rfl
    | cons field before ih =>
      rw [List.cons_append, List.cons_append, visitFields, visitFields]
      simp only [ih]
  rw [anyAddress_eq, anyAddress_eq, hfields, List.append_assoc]

end Fields

/-- The addresses that the fields show, unless there are too many of them. -/
def shownAddresses (addresses : List Bytes) : Except (StructuredVisitError Empty) (Bool × List Bytes) :=
  if addresses.length ≤ maxStructuredHeaderValues then .ok (false, addresses)
  else .error (.Header workLimitError)

theorem anyAddress_keepAll {wanted : List AddressField} {name : Bytes}
    (hname : (wanted.any fun field => eqIgnoreAsciiCase name field.name.bytes) = true)
    (value : Bytes) :
    anyAddress [fieldWith name value] wanted keepAll [] = shownAddresses (presented value) := by
  unfold shownAddresses
  rw [anyAddress_fieldWith hname, visitLimited_keepAll_eq (Nat.zero_le _), Nat.zero_add,
    List.nil_append]
  split_ifs <;> rfl

/-- The addresses of a list of self-contained values are those of its elements, each as it shows them in
a field of its own, in their order; a visitor cannot tell the list from the separate fields, wherever
they stand in a header. The only exception is the error when there are too many addresses. -/
theorem addresses_of_joined {wanted : List AddressField} {name : Bytes}
    (hname : (wanted.any fun field => eqIgnoreAsciiCase name field.name.bytes) = true)
    (elements : List ListElement) :
    (∃ addresses : List (List Bytes),
      List.Forall₂ (fun element shown =>
          anyAddress [fieldWith name element.value] wanted keepAll [] = shownAddresses shown)
        elements addresses ∧
      anyAddress [fieldWith name (ListElement.joined elements)] wanted keepAll [] =
        shownAddresses addresses.flatten) ∧
    ∀ (ε σ : Type) (visit : σ → Bytes → Except ε (Bool × σ)) (s : σ) (before after : List Field),
      anyAddress (before ++ fieldWith name (ListElement.joined elements) :: after) wanted visit s =
        anyAddress (before ++ elements.map (fun element => fieldWith name element.value) ++ after) wanted
          visit s := by
  constructor
  · refine ⟨elements.map fun element => presented element.value, ?_, ?_⟩
    · rw [List.forall₂_map_right_iff]
      exact List.forall₂_same.mpr fun element _ => anyAddress_keepAll hname element.value
    · rw [anyAddress_keepAll hname, presented_joined, List.flatMap_def]
  · intro ε σ visit s before after
    exact anyAddress_elements visit name wanted before after elements s

/-- A malformed element between two mailboxes. -/
def malformedElements : List ListElement :=
  [⟨[], strBytes "a@x", [], isSpaces_nil, isSpaces_nil, by decide +kernel⟩,
    ⟨strBytes " ", strBytes "(one, two) \"b@\" <not an address>", [], by decide +kernel, isSpaces_nil,
      by decide +kernel⟩,
    ⟨strBytes "\r\n ", strBytes "c@Y", [], by decide +kernel, isSpaces_nil, by decide +kernel⟩]

theorem addresses_of_joined_malformed :
    anyAddress [fieldWith (strBytes "To")
        (strBytes "a@x, (one, two) \"b@\" <not an address>,\r\n c@Y")] [.To] keepAll [] =
      .ok (false, [strBytes "a@x", strBytes "c@y"]) := by
  have hname : ([AddressField.To].any fun field =>
      eqIgnoreAsciiCase (strBytes "To") field.name.bytes) = true := by
    decide +kernel
  have hjoined : ListElement.joined malformedElements =
      strBytes "a@x, (one, two) \"b@\" <not an address>,\r\n c@Y" := by
    decide +kernel
  have hsame := (addresses_of_joined hname malformedElements).2 Empty (List Bytes) keepAll [] [] []
  rw [hjoined, List.nil_append, List.append_nil] at hsame
  rw [hsame]
  rfl

end ProcmailRs
