import ProcmailRs.Delivery.Mbox
import Mathlib.Tactic.IntervalCases

/-!
# mboxrd framing is reversible

The loop of `write_record` quotes the physical lines of the joined message one by one
(`writeLines_eq`), a quoted line never starts with `From ` and loses exactly the added `>` again
(`isFromLine_quoteLine`, `unquoteLine_quoteLine`), and the line feeds that end a record do not change
how its lines are quoted (`quote_append_LF`).
-/

namespace ProcmailRs.Mbox

/-- Quoting of one physical line that is given as a whole. -/
def quoteLine (line : Bytes) : Bytes := writeLine line []

/-- Quoting of a message that is given as a whole. -/
def quote (message : Bytes) : Bytes := (lines message).flatMap quoteLine

theorem writeLine_eq (a b : Bytes) : writeLine a b = quoteLine (a ++ b) := by
  simp [quoteLine, writeLine, needsQuote]

theorem lines_cut {l : Bytes} {i : Nat} (h : l.findIdx? isLF = some i) (r : Bytes) :
    lines (l ++ r) = l.take (i + 1) :: lines (l.drop (i + 1) ++ r) :=
  Lines.splitInclusive_cut h r

theorem not_isLF_of_findIdx? {l : Bytes} (h : l.findIdx? isLF = none) : ∀ a ∈ l, isLF a = false := by
  simpa [List.findIdx?_eq_none_iff] using h

/-- The loop over two slices quotes the lines of their concatenation. -/
theorem writeLines_eq (first second : Bytes) :
    writeLines first second = quote (first ++ second) := by
  fun_induction writeLines first second with
  | case1 first second h => simp [h.1, h.2, quote, lines]
  | case2 first second h cur next index hidx ih =>
    have hcur : first ++ second = cur ++ next := by
      by_cases hf : first = [] <;> simp [cur, next, hf]
    rw [hcur, ih, quote, quote, lines_cut hidx, writeLine_eq]
    simp
  | case3 first second h cur next hidx stop ih =>
    have hcur : first ++ second = cur ++ next := by
      by_cases hf : first = [] <;> simp [cur, next, hf]
    have hne : cur ≠ [] := by
      by_cases hf : first = [] <;> simp_all [cur]
    have hcl := not_isLF_of_findIdx? hidx
    rw [hcur, ih, writeLine_eq, List.nil_append]
    cases hn : next.findIdx? isLF with
    | some j =>
      have hs : stop = j + 1 := by simp [stop, hn]
      have hl : lines (cur ++ next) = _ := Lines.splitInclusive_append_cut hcl hn
      rw [hs, quote, quote, hl]
      rfl
    | none =>
      have hs : stop = next.length := by simp [stop, hn]
      have hall : ∀ a ∈ cur ++ next, isLF a = false := by
        intro a ha
        rcases List.mem_append.mp ha with ha | ha
        · exact hcl a ha
        · exact not_isLF_of_findIdx? hn a ha
      rw [hs, List.take_length, List.drop_length, quote, quote, lines, lines,
        Lines.splitInclusive_of_forall_not (by simp [hne]) hall]
      simp

/-! ## One line -/

theorem take_five_eq_iff (l : Bytes) : (l.take 5 == fromPrefix) = fromPrefix.isPrefixOf l := by
  rw [Bool.eq_iff_iff, beq_iff_eq, List.isPrefixOf_iff_prefix, List.prefix_iff_eq_take]
  exact eq_comm

theorem needsQuote_eq (line : Bytes) : needsQuote line [] =
    fromPrefix.isPrefixOf (line.drop (line.takeWhile (· == GT)).length) := by
  simp [needsQuote, take_five_eq_iff]

theorem takeWhile_GT_of_isFromLine {line : Bytes} (h : isFromLine line = true) :
    line.takeWhile (· == GT) = [] := by
  obtain ⟨t, rfl⟩ := List.isPrefixOf_iff_prefix.mp h
  simp [fromPrefix, GT]

theorem isFromLine_quoteLine (line : Bytes) : isFromLine (quoteLine line) = false := by
  unfold quoteLine writeLine
  split_ifs with h
  · rfl
  · cases hf : isFromLine line with
    | false => simpa using hf
    | true =>
      rw [needsQuote_eq, takeWhile_GT_of_isFromLine hf] at h
      exact absurd hf h

theorem unquoteLine_quoteLine (line : Bytes) : unquoteLine (quoteLine line) = line := by
  unfold quoteLine writeLine
  split_ifs with h
  · rw [needsQuote_eq] at h
    simp [unquoteLine, h]
  · rw [needsQuote_eq] at h
    simp [unquoteLine, h]

theorem unquoteLine_of_isFromLine {line : Bytes} (h : isFromLine line = true) :
    unquoteLine line = line := by
  simp [unquoteLine, takeWhile_GT_of_isFromLine h]

theorem isLine_quoteLine {line : Bytes} (h : Lines.IsLine isLF line) :
    Lines.IsLine isLF (quoteLine line) := by
  unfold quoteLine writeLine
  split_ifs
  · simpa using h.cons (a := GT) (by decide)
  · simpa using h

theorem terminated_quoteLine {line : Bytes} (h : Lines.Terminated isLF line) :
    Lines.Terminated isLF (quoteLine line) := by
  unfold quoteLine writeLine
  rw [List.append_nil]
  exact h.append

/-- A line feed after a line does not change how the line is quoted. -/
theorem quoteLine_append_LF (line : Bytes) :
    quoteLine (line ++ [LF]) = quoteLine line ++ [LF] := by
  have htake : (line ++ [LF]).takeWhile (· == GT) = line.takeWhile (· == GT) := by
    rw [List.takeWhile_append]
    split_ifs with hlen
    · have hself := (List.takeWhile_prefix (l := line) (· == GT)).eq_of_length hlen
      rw [hself]
      simp [GT, LF]
    · rfl
  have hpre : ∀ l : Bytes, fromPrefix.isPrefixOf (l ++ [LF]) = fromPrefix.isPrefixOf l := by
    intro l
    rw [Bool.eq_iff_iff, List.isPrefixOf_iff_prefix, List.isPrefixOf_iff_prefix]
    refine ⟨fun hp => ?_, fun hp => hp.trans (List.prefix_append _ _)⟩
    rcases List.prefix_concat_iff.mp hp with hp | hp
    · have := congrArg List.getLast? hp
      simp [fromPrefix, LF] at this
    · exact hp
  have hq : needsQuote (line ++ [LF]) [] = needsQuote line [] := by
    rw [needsQuote_eq, needsQuote_eq, htake, List.drop_append_of_le_length
      (List.takeWhile_prefix _).length_le, hpre]
  simp [quoteLine, writeLine, hq]

/-! ## One record -/

theorem quote_append {l : Bytes} (h : l = [] ∨ Lines.Terminated isLF l) (r : Bytes) :
    quote (l ++ r) = quote l ++ quote r := by
  rcases h with rfl | h
  · rfl
  · simp [quote, lines_append h]

theorem quote_of_forall_not {l : Bytes} (hl : l ≠ []) (h : ∀ a ∈ l, isLF a = false) :
    quote l = quoteLine l := by
  simp [quote, lines, Lines.splitInclusive_of_forall_not hl h]

theorem quote_append_LF (message : Bytes) : quote (message ++ [LF]) = quote message ++ [LF] := by
  obtain ⟨t, c, rfl, ht, hc⟩ := Lines.exists_terminated_append isLF message
  rw [List.append_assoc, quote_append ht, quote_append ht, List.append_assoc]
  congr 1
  by_cases hne : c = []
  · subst hne
    decide
  · rw [quote_of_forall_not hne hc, ← quoteLine_append_LF]
    have hline : Lines.IsLine isLF (c ++ [LF]) := ⟨by simp, by simpa using hc⟩
    simp [quote, lines, hline.splitInclusive_eq]

theorem quote_append_replicate (message : Bytes) (k : Nat) :
    quote (message ++ List.replicate k LF) = quote message ++ List.replicate k LF := by
  induction k with
  | zero => simp
  | succ k ih => rw [List.replicate_succ', ← List.append_assoc, quote_append_LF, ih, List.append_assoc]

theorem recordEnding_eq (message : MessageBytes) (ending : OutputEnding) :
    ∃ k, recordEnding message ending = List.replicate k LF := by
  cases ending <;> simp only [recordEnding] <;> split_ifs
  · exact ⟨0, rfl⟩
  · exact ⟨2, rfl⟩
  · exact ⟨1, rfl⟩
  · exact ⟨1, rfl⟩
  · exact ⟨0, rfl⟩

/-- The message together with the line feeds that end its record. -/
def content (message : MessageBytes) (ending : OutputEnding) : Bytes :=
  message.bytes ++ recordEnding message ending

theorem writeRecord_eq (postmark : Postmark) (message : MessageBytes) (ending : OutputEnding) :
    writeRecord postmark message ending = postmark.bytes ++ quote (content message ending) := by
  obtain ⟨k, hk⟩ := recordEnding_eq message ending
  rw [writeRecord, writeLines_eq, content, hk, quote_append_replicate, List.append_assoc]
  rfl

theorem endsWith_eq (message : MessageBytes) (suffix : Bytes) :
    message.endsWith suffix = suffix.isSuffixOf message.bytes := by
  rw [Bool.eq_iff_iff, MessageBytes.endsWith, beq_iff_eq, List.isSuffixOf_iff_suffix,
    ← List.reverse_prefix, List.prefix_iff_eq_take, List.length_reverse, MessageBytes.bytes,
    List.reverse_append]
  exact eq_comm

theorem content_terminated (message : MessageBytes) (ending : OutputEnding) :
    content message ending = [] ∨ Lines.Terminated isLF (content message ending) := by
  unfold content recordEnding
  cases ending with
  | Normalize =>
    right
    simp only [endsWith_eq]
    split_ifs with h1
    · rw [terminated_iff_suffix, List.append_nil]
      exact (show [LF] <:+ [LF, LF] from ⟨[LF], rfl⟩).trans (List.isSuffixOf_iff_suffix.mp h1)
    · exact (Lines.terminated_singleton.mpr rfl).append.append
    · exact (Lines.terminated_singleton.mpr rfl).append
  | Preserve =>
    simp only [endsWith_eq]
    split_ifs with h
    · exact Or.inr (Lines.Terminated.append (Lines.terminated_singleton.mpr (by decide)))
    · rw [List.append_nil, terminated_iff_suffix, ← List.isSuffixOf_iff_suffix]
      simp only [MessageBytes.isEmpty, MessageBytes.bytes, Bool.and_eq_true, Bool.not_eq_true',
        not_and_or, Bool.not_eq_false] at h ⊢
      rcases h with h | h
      · left; simpa using h
      · right; exact h

theorem Postmark.isFromLine (postmark : Postmark) : Mbox.isFromLine postmark.bytes = true := by
  have h := postmark.valid
  unfold checkPostmark at h
  split_ifs at h with h1 h2 h3
  simp only [Bool.or_eq_true, not_or, Bool.not_eq_true', Bool.not_eq_false] at h2
  exact h2.1.1

theorem Postmark.isLine (postmark : Postmark) : Lines.IsLine isLF postmark.bytes ∧
    Lines.Terminated isLF postmark.bytes := by
  have h := postmark.valid
  unfold checkPostmark at h
  split_ifs at h with h1 h2 h3
  simp only [Bool.or_eq_true, not_or, Bool.not_eq_true', Bool.not_eq_false] at h2
  obtain ⟨⟨-, hlast⟩, hinit⟩ := h2
  have hterm : Lines.Terminated isLF postmark.bytes := hlast
  refine ⟨⟨hterm.ne_nil, ?_⟩, hterm⟩
  simpa using hinit

/-- The lines of one record: the postmark and the quoted lines of the content. -/
theorem lines_writeRecord (postmark : Postmark) (message : MessageBytes) (ending : OutputEnding)
    (rest : Bytes) : lines (writeRecord postmark message ending ++ rest) =
      postmark.bytes :: ((lines (content message ending)).map quoteLine ++ lines rest) := by
  have hquoted : ∀ l ∈ (lines (content message ending)).map quoteLine,
      Lines.IsLine isLF l ∧ Lines.Terminated isLF l := by
    intro l hl
    obtain ⟨line, hline, rfl⟩ := List.mem_map.mp hl
    refine ⟨isLine_quoteLine (Lines.isLine_of_mem hline), terminated_quoteLine ?_⟩
    rcases content_terminated message ending with h | h
    · rw [h] at hline
      simp [lines] at hline
    · exact Lines.terminated_of_mem h hline
  obtain ⟨hpl, hpt⟩ := postmark.isLine
  rw [writeRecord_eq, List.append_assoc, lines_append hpt, lines, hpl.splitInclusive_eq]
  simp only [List.singleton_append, List.cons.injEq, true_and]
  by_cases hc : content message ending = []
  · rw [hc]
    rfl
  · have hct := (content_terminated message ending).resolve_left hc
    have hflat : quote (content message ending) =
        ((lines (content message ending)).map quoteLine).flatten := List.flatMap_def ..
    have hqt : Lines.Terminated isLF (quote (content message ending)) := by
      obtain ⟨init, last, hsplit⟩ := List.eq_nil_or_concat'
        ((lines (content message ending)).map quoteLine) |>.resolve_left
          (by simp [lines, Lines.splitInclusive_eq_nil, hc])
      rw [hflat, hsplit, List.flatten_append]
      exact Lines.Terminated.append (by simpa using (hquoted last (by simp [hsplit])).2)
    rw [lines_append hqt, hflat]
    congr 1
    exact Lines.splitInclusive_flatten hquoted

/-! ## The mailbox file -/

/-- One call of `write_record`: a postmark, a message in two slices and the record ending. -/
structure Append where
  postmark : Postmark
  message : MessageBytes
  ending : OutputEnding

/-- The bytes the call appends. -/
def Append.written (a : Append) : Bytes := writeRecord a.postmark a.message a.ending

/-- The contents of a mailbox after a list of calls. -/
def mailbox (appends : List Append) : Bytes := appends.flatMap Append.written

theorem lines_mailbox (appends : List Append) : lines (mailbox appends) =
    (appends.map fun a =>
      a.postmark.bytes :: (lines (content a.message a.ending)).map quoteLine).flatten := by
  induction appends with
  | nil => rfl
  | cons a appends ih =>
    rw [mailbox, List.flatMap_cons, Append.written, lines_writeRecord]
    simp [← ih, mailbox]

theorem splitRecords_mailbox (appends : List Append) :
    splitRecords (mailbox appends) = appends.map Append.written := by
  have hrec : ∀ r ∈ appends.map fun a =>
      (a.postmark.bytes, (lines (content a.message a.ending)).map quoteLine),
      isFromLine r.1 = true ∧ ∀ x ∈ r.2, isFromLine x = false := by
    intro r hr
    obtain ⟨a, -, rfl⟩ := List.mem_map.mp hr
    refine ⟨a.postmark.isFromLine, fun x hx => ?_⟩
    obtain ⟨line, -, rfl⟩ := List.mem_map.mp hx
    exact isFromLine_quoteLine line
  have hsplit := Lines.splitBefore_flatten hrec
  rw [List.map_map] at hsplit
  have hmap : ((fun r : Bytes × List Bytes => r.1 :: r.2) ∘ fun a : Append =>
      (a.postmark.bytes, (lines (content a.message a.ending)).map quoteLine)) = fun a =>
        a.postmark.bytes :: (lines (content a.message a.ending)).map quoteLine := rfl
  rw [hmap] at hsplit
  rw [splitRecords, lines_mailbox, hsplit, List.map_map]
  refine List.map_congr_left fun a _ => ?_
  simp [Append.written, writeRecord_eq, quote, List.flatMap_def]

theorem unquote_written (a : Append) :
    unquote a.written = a.postmark.bytes ++ content a.message a.ending := by
  have hl := lines_writeRecord a.postmark a.message a.ending []
  rw [List.append_nil] at hl
  rw [unquote, Append.written, hl]
  simp only [List.flatMap_cons, unquoteLine_of_isFromLine a.postmark.isFromLine]
  congr 1
  rw [show lines ([] : Bytes) = [] from rfl, List.append_nil, List.flatMap_map]
  simp only [unquoteLine_quoteLine]
  simp [List.flatMap_id', lines]

/-- What `write_record` adds to a message: under `Normalize` the shortest run of line feeds after
which the message ends in an empty line, under `Preserve` at most one. -/
def EndsRecord (message : Bytes) (ending : OutputEnding) (k : Nat) : Prop :=
  match ending with
  | .Normalize => [LF, LF] <:+ message ++ List.replicate k LF ∧
      ∀ j < k, ¬ [LF, LF] <:+ message ++ List.replicate j LF
  | .Preserve => k ≤ 1 ∧ (message = [] ∨ [LF] <:+ message → k = 0)

theorem not_suffix_LF_LF {message : Bytes} (h : ¬ [LF] <:+ message) :
    ¬ [LF, LF] <:+ message ++ [LF] := by
  rintro ⟨t, ht⟩
  rw [show [LF, LF] = [LF] ++ [LF] from rfl, ← List.append_assoc] at ht
  exact h ⟨t, List.append_cancel_right ht⟩

theorem not_suffix_LF_LF_of_not {message : Bytes} (h : ¬ [LF] <:+ message) :
    ¬ [LF, LF] <:+ message :=
  fun hs => h ((show [LF] <:+ [LF, LF] from ⟨[LF], rfl⟩).trans hs)

theorem recordEnding_spec (message : MessageBytes) (ending : OutputEnding) :
    ∃ k, recordEnding message ending = List.replicate k LF ∧
      EndsRecord message.bytes ending k := by
  cases ending with
  | Normalize =>
    simp only [recordEnding, endsWith_eq, EndsRecord]
    split_ifs with h1 h2
    · refine ⟨0, rfl, by simpa using List.isSuffixOf_iff_suffix.mp h1, by simp⟩
    · have h2 : ¬ [LF] <:+ message.bytes := by
        intro hs
        rw [List.isSuffixOf_iff_suffix.mpr hs] at h2
        simp at h2
      refine ⟨2, rfl, List.suffix_append _ _, fun j hj => ?_⟩
      interval_cases j
      · simpa using not_suffix_LF_LF_of_not h2
      · exact not_suffix_LF_LF h2
    · have h1 : ¬ [LF, LF] <:+ message.bytes := by
        rw [← List.isSuffixOf_iff_suffix]; simpa using h1
      have h2 : [LF] <:+ message.bytes := by
        rw [← List.isSuffixOf_iff_suffix]; simpa using h2
      refine ⟨1, rfl, ?_, fun j hj => ?_⟩
      · obtain ⟨t, ht⟩ := h2
        exact ⟨t, by rw [← ht]; simp⟩
      · obtain rfl : j = 0 := by omega
        simpa using h1
  | Preserve =>
    simp only [recordEnding, endsWith_eq, EndsRecord]
    split_ifs with h
    · refine ⟨1, rfl, le_rfl, ?_⟩
      simp only [Bool.and_eq_true, Bool.not_eq_true', MessageBytes.isEmpty] at h
      rintro (he | he)
      · simp [MessageBytes.bytes] at he
        simp [he] at h
      · rw [← List.isSuffixOf_iff_suffix, h.2] at he
        exact absurd he (by simp)
    · exact ⟨0, rfl, by simp, fun _ => rfl⟩

/-- mboxrd framing is reversible. The mailbox written by any list of `write_record` calls splits, at
the lines that start with `From `, into exactly the records written, in order, each starting with
its postmark; undoing the quoting of a record gives back its message followed by nothing but the line
feeds that end the record; and the bytes of a record do not depend on where its message was cut into
two slices. -/
theorem mailbox_framing_reversible (appends : List Append) :
    splitRecords (mailbox appends) = appends.map Append.written ∧
    ∀ a ∈ appends,
      a.postmark.bytes <+: a.written ∧
      (∃ k, unquote a.written = a.postmark.bytes ++ (a.message.bytes ++ List.replicate k LF) ∧
        EndsRecord a.message.bytes a.ending k) ∧
      ∀ cut : MessageBytes, cut.bytes = a.message.bytes →
        writeRecord a.postmark cut a.ending = a.written := by
  refine ⟨splitRecords_mailbox appends, fun a _ => ⟨?_, ?_, fun cut hcut => ?_⟩⟩
  · exact ⟨_, (writeRecord_eq a.postmark a.message a.ending).symm⟩
  · obtain ⟨k, hk, hspec⟩ := recordEnding_spec a.message a.ending
    refine ⟨k, ?_, hspec⟩
    rw [unquote_written, content, hk]
  · have hending : recordEnding cut a.ending = recordEnding a.message a.ending := by
      have hempty : cut.isEmpty = a.message.isEmpty := by
        rw [Bool.eq_iff_iff]
        have h1 : cut.isEmpty = true ↔ cut.bytes = [] := by
          simp [MessageBytes.isEmpty, MessageBytes.bytes]
        have h2 : a.message.isEmpty = true ↔ a.message.bytes = [] := by
          simp [MessageBytes.isEmpty, MessageBytes.bytes]
        rw [h1, h2, hcut]
      simp only [recordEnding, endsWith_eq, hcut, hempty]
    rw [Append.written, writeRecord_eq, writeRecord_eq, content, content, hcut, hending]

end ProcmailRs.Mbox
