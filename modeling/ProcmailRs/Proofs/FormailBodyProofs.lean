import ProcmailRs.Formail
import ProcmailRs.Lib.Refinement
import ProcmailRs.Proofs.HeaderTextProofs

/-!
# The copied body

However the input is cut into pieces, the body is written line by line, with the quotation prefix in
front of the lines that look like a postmark.
-/

namespace ProcmailRs.Formail

/-- The line looks like a postmark, behind at most so many quotation marks as are looked through. -/
def isFromLine (line : Bytes) : Bool :=
  let quotes := (line.takeWhile (· == Mbox.GT)).length
  decide (quotes ≤ maxQuotes) && fromSpace.isPrefixOf (line.drop quotes)

/-- The line with the prefix, where it would be read as a postmark. -/
def quoteLine (quotePrefix line : Bytes) : Bytes :=
  if isFromLine line then quotePrefix ++ line else line

/-- The body with the configured quoting of `From ` lines. -/
def quoted (escapeBogus : Bool) (quotePrefix body : Bytes) : Bytes :=
  if !escapeBogus then body else (lines body).flatMap (quoteLine quotePrefix)

/-! ### The beginning of a line -/

/-- What may be held back: some quotation marks and a part of `From `. -/
def heldText (quotes matched : Nat) : Bytes :=
  List.replicate quotes Mbox.GT ++ fromSpace.take matched

theorem takeWhile_quotes (quotes : Nat) {rest : Bytes} (h : rest.head? ≠ some Mbox.GT) :
    (List.replicate quotes Mbox.GT ++ rest).takeWhile (· == Mbox.GT) =
      List.replicate quotes Mbox.GT := by
  induction quotes with
  | zero =>
    cases rest with
    | nil => rfl
    | cons byte rest =>
      have hbyte : byte ≠ Mbox.GT := fun heq => h (by rw [heq]; rfl)
      simp [hbyte]
  | succ quotes ih => simpa [List.replicate_succ] using ih

theorem head_take_fromSpace (matched : Nat) : (fromSpace.take matched).head? ≠ some Mbox.GT := by
  cases matched with
  | zero => decide
  | succ matched =>
    rw [List.head?_take, if_neg (by simp)]
    decide +kernel

theorem quotes_heldText (quotes matched : Nat) :
    ((heldText quotes matched).takeWhile (· == Mbox.GT)).length = quotes := by
  rw [heldText, takeWhile_quotes quotes (head_take_fromSpace matched), List.length_replicate]

theorem length_heldText (quotes : Nat) {matched : Nat} (h : matched ≤ 5) :
    (heldText quotes matched).length = quotes + matched := by
  rw [heldText, List.length_append, List.length_replicate, List.length_take,
    show fromSpace.length = 5 by decide +kernel, Nat.min_eq_left h]

/-- A line is decided by what follows its quotation marks. -/
theorem isFromLine_quotes (quotes : Nat) {rest : Bytes} (h : rest.head? ≠ some Mbox.GT) :
    isFromLine (List.replicate quotes Mbox.GT ++ rest) =
      (decide (quotes ≤ maxQuotes) && fromSpace.isPrefixOf rest) := by
  have hdrop : (List.replicate quotes Mbox.GT ++ rest).drop quotes = rest := by
    rw [List.drop_append_of_le_length (by simp)]
    simp
  simp only [isFromLine, takeWhile_quotes quotes h, List.length_replicate, hdrop]

theorem isFromLine_excess {quotes : Nat} (h : maxQuotes < quotes) (rest : Bytes) :
    isFromLine (List.replicate quotes Mbox.GT ++ rest) = false := by
  have hlong : quotes ≤ ((List.replicate quotes Mbox.GT ++ rest).takeWhile (· == Mbox.GT)).length := by
    rw [List.takeWhile_append_of_pos (by simp)]
    simp
  simp only [isFromLine, Bool.and_eq_false_iff, decide_eq_false_iff_not]
  left
  omega

/-- A line that leaves `From ` at some byte is not quoted. -/
theorem isFromLine_mismatch {quotes matched : Nat} {byte : UInt8} (hmatched : matched < 5)
    (hbyte : fromSpace[matched]? ≠ some byte) (hquote : matched = 0 → byte ≠ Mbox.GT)
    (rest : Bytes) : isFromLine (heldText quotes matched ++ byte :: rest) = false := by
  have hhead : (fromSpace.take matched ++ byte :: rest).head? ≠ some Mbox.GT := by
    cases matched with
    | zero =>
      intro heq
      exact hquote rfl (by simpa using heq)
    | succ matched =>
      intro heq
      refine head_take_fromSpace (matched + 1) ?_
      rwa [List.head?_append_of_ne_nil] at heq
      simp [fromSpace, strBytes, utf8]
  rw [heldText, List.append_assoc, isFromLine_quotes quotes hhead, Bool.and_eq_false_iff]
  right
  rw [Bool.eq_false_iff]
  intro hprefix
  obtain ⟨tail, htail⟩ := List.isPrefixOf_iff_prefix.mp hprefix
  have hlen : fromSpace.length = 5 := by decide +kernel
  have htake : (fromSpace.take matched).length = matched := by
    rw [List.length_take, hlen]
    omega
  have hat := congrArg (·[matched]?) htail
  simp only [List.getElem?_append_left (show matched < fromSpace.length by omega),
    List.getElem?_append_right (le_of_eq htake), htake, Nat.sub_self] at hat
  exact hbyte hat

/-! ### One line -/

namespace BodyStream

/-- The rest of a decided line is written as it is. -/
theorem foldl_decided (quotePrefix written : Bytes) {rest : Bytes}
    (h : ∀ b ∈ rest.dropLast, isLF b = false) :
    rest.foldl (step quotePrefix) ⟨false, [], written⟩ =
      ⟨rest.getLast?.any isLF, [], written ++ rest⟩ := by
  induction rest generalizing written with
  | nil => simp
  | cons byte rest ih =>
    have hstep : step quotePrefix ⟨false, [], written⟩ byte =
        ⟨byte == LF, [], written ++ [byte]⟩ := rfl
    rw [List.foldl_cons, hstep]
    cases rest with
    | nil => rfl
    | cons next rest =>
      have hbyte : (byte == LF) = false := h byte (by simp)
      rw [hbyte, ih (written ++ [byte]) fun b hb => h b (by simp [hb])]
      simp

/-- What a line from the state `start` leaves when its text is to be written as `text`. -/
structure Writes (stream : BodyStream) (terminated : Bool) (text : Bytes) : Prop where
  all : stream.written ++ stream.held = text
  next : terminated = true → stream = ⟨true, [], text⟩

theorem writes_decided (quotePrefix : Bytes) {written rest text : Bytes}
    (h : ∀ b ∈ rest.dropLast, isLF b = false) (htext : written ++ rest = text) :
    Writes (rest.foldl (step quotePrefix) ⟨false, [], written⟩) (rest.getLast?.any isLF) text := by
  rw [foldl_decided quotePrefix written h, htext]
  refine ⟨List.append_nil _, fun hterm => ?_⟩
  rw [hterm]

theorem terminated_tail {byte : UInt8} {rest : Bytes} (h : isLF byte = false) :
    (byte :: rest).getLast?.any isLF = rest.getLast?.any isLF := by
  cases rest with
  | nil => simp [h]
  | cons next rest => rw [List.getLast?_cons_cons]

theorem heldText_succ_quotes (quotes : Nat) :
    heldText (quotes + 1) 0 = heldText quotes 0 ++ [Mbox.GT] := by
  simp [heldText, List.replicate_succ']

theorem heldText_succ_matched {quotes matched : Nat} {byte : UInt8}
    (h : fromSpace[matched]? = some byte) :
    heldText quotes (matched + 1) = heldText quotes matched ++ [byte] := by
  obtain ⟨hlt, rfl⟩ := List.getElem?_eq_some_iff.mp h
  rw [heldText, heldText, List.append_assoc, List.take_append_getElem hlt]

/-- One byte behind a beginning that is held back. -/
theorem step_held (quotePrefix written : Bytes) (quotes : Nat) {matched : Nat} (byte : UInt8)
    (hmatched : matched < 5) :
    step quotePrefix ⟨true, heldText quotes matched, written⟩ byte =
      if matched = 0 ∧ byte = Mbox.GT then
        if quotes < maxQuotes then ⟨true, heldText quotes matched ++ [byte], written⟩
        else step quotePrefix ⟨false, [], written ++ heldText quotes matched⟩ byte
      else if fromSpace[matched]? = some byte then
        if matched + 1 = 5 then ⟨false, [], written ++ quotePrefix ++ (heldText quotes matched ++ [byte])⟩
        else ⟨true, heldText quotes matched ++ [byte], written⟩
      else step quotePrefix ⟨false, [], written ++ heldText quotes matched⟩ byte := by
  have hquotes := quotes_heldText quotes matched
  have hlen := length_heldText quotes hmatched.le
  have hfrom : fromSpace.length = 5 := by decide +kernel
  have hall : quotes = quotes + matched ↔ matched = 0 := by omega
  simp only [step, if_true, hquotes, hlen, List.length_append, List.length_singleton, hfrom, hall,
    Nat.add_sub_cancel_left]
  by_cases hmore : matched = 0 ∧ byte = Mbox.GT
  · rw [if_pos hmore, if_pos hmore, hmore.1, Nat.add_zero]
    rfl
  · rw [if_neg hmore, if_neg hmore, show quotes + matched + 1 - quotes = matched + 1 by omega]
    rfl

/-- A line behind a beginning that is held back is written with the prefix when it is a `From ` line. -/
theorem writes_line (quotePrefix written : Bytes) {quotes matched : Nat} {rest : Bytes}
    (hquotes : quotes ≤ maxQuotes) (hmatched : matched < 5)
    (h : ∀ b ∈ rest.dropLast, isLF b = false) :
    Writes (rest.foldl (step quotePrefix) ⟨true, heldText quotes matched, written⟩)
      (rest.getLast?.any isLF)
      (written ++ quoteLine quotePrefix (heldText quotes matched ++ rest)) := by
  induction rest generalizing quotes matched with
  | nil =>
    have hnot : isFromLine (heldText quotes matched ++ []) = false := by
      rw [List.append_nil, heldText, isFromLine_quotes quotes (head_take_fromSpace matched),
        Bool.and_eq_false_iff]
      right
      rw [Bool.eq_false_iff]
      intro hprefix
      have hle := (List.isPrefixOf_iff_prefix.mp hprefix).length_le
      rw [List.length_take, show fromSpace.length = 5 by decide +kernel] at hle
      omega
    rw [quoteLine, hnot, if_neg (by simp), List.append_nil]
    exact ⟨rfl, by simp⟩
  | cons byte rest ih =>
    have hrest : ∀ b ∈ rest.dropLast, isLF b = false := by
      intro b hb
      cases rest with
      | nil => cases hb
      | cons next rest => exact h b (by simp [hb])
    have hshift : heldText quotes matched ++ byte :: rest =
        heldText quotes matched ++ [byte] ++ rest := by simp
    -- a line that is decided to be no `From ` line
    have hplain : isFromLine (heldText quotes matched ++ byte :: rest) = false →
        Writes (rest.foldl (step quotePrefix)
            (step quotePrefix ⟨false, [], written ++ heldText quotes matched⟩ byte))
          ((byte :: rest).getLast?.any isLF)
          (written ++ quoteLine quotePrefix (heldText quotes matched ++ byte :: rest)) := by
      intro hnot
      rw [quoteLine, hnot, if_neg (by simp), ← List.foldl_cons]
      exact writes_decided quotePrefix h (by simp)
    rw [List.foldl_cons, step_held quotePrefix written quotes byte hmatched]
    split_ifs with hmore hroom hmatch hfull
    · obtain ⟨rfl, rfl⟩ := hmore
      rw [hshift, ← heldText_succ_quotes, terminated_tail (by decide)]
      exact ih (by omega) hmatched hrest
    · obtain ⟨rfl, rfl⟩ := hmore
      refine hplain ?_
      have hq : quotes = maxQuotes := by omega
      have hexcess := isFromLine_excess (show maxQuotes < quotes + 1 by omega) rest
      rw [List.replicate_succ', List.append_assoc] at hexcess
      simpa [heldText] using hexcess
    · have hbyte : isLF byte = false := by
        have hall : ∀ b ∈ fromSpace, isLF b = false := by decide +kernel
        exact hall byte (List.mem_of_getElem? hmatch)
      rw [hshift, ← heldText_succ_matched hmatch, terminated_tail hbyte, hfull]
      have hfrom : isFromLine (heldText quotes 5 ++ rest) = true := by
        have hhead : (fromSpace.take 5 ++ rest).head? ≠ some Mbox.GT := by
          have htake : fromSpace.take 5 = 70 :: [114, 111, 109, 32] := by decide +kernel
          rw [htake, List.cons_append, List.head?_cons]
          decide
        rw [heldText, List.append_assoc, isFromLine_quotes quotes hhead, Bool.and_eq_true,
          decide_eq_true_eq]
        refine ⟨hquotes, List.isPrefixOf_iff_prefix.mpr ?_⟩
        rw [List.take_of_length_le (by decide +kernel)]
        exact List.prefix_append _ _
      rw [quoteLine, hfrom, if_pos rfl]
      exact writes_decided quotePrefix hrest (by simp)
    · have hbyte : isLF byte = false := by
        have hall : ∀ b ∈ fromSpace, isLF b = false := by decide +kernel
        exact hall byte (List.mem_of_getElem? hmatch)
      rw [hshift, ← heldText_succ_matched hmatch, terminated_tail hbyte]
      exact ih hquotes (by omega) hrest
    · refine hplain (isFromLine_mismatch hmatched hmatch ?_ rest)
      intro hzero heq
      exact hmore ⟨hzero, heq⟩

/-! ### The body -/

/-- The lines are written one after the other. -/
theorem foldl_lines (quotePrefix written : Bytes) {ls : List Bytes} (h : Lines.Proper isLF ls) :
    let stream := ls.flatten.foldl (step quotePrefix) ⟨true, [], written⟩
    stream.written ++ stream.held = written ++ ls.flatMap (quoteLine quotePrefix) := by
  induction ls generalizing written with
  | nil => simp
  | cons line rest ih =>
    obtain ⟨hline, hterm, hrest⟩ := h
    have hwrites := writes_line quotePrefix written (Nat.zero_le _) (show 0 < 5 by omega) hline.2
    have hstart : heldText 0 0 = [] := by simp [heldText]
    rw [hstart, List.nil_append] at hwrites
    intro stream
    by_cases hnil : rest = []
    · simpa [stream, hnil] using hwrites.all
    · have hnext := hwrites.next (hterm hnil)
      simp only [stream, List.flatten_cons, List.foldl_append, hnext, List.flatMap_cons,
        ih _ hrest, List.append_assoc]

end BodyStream

theorem quoteBody_eq_ok {quotePrefix : Bytes} {stream : BodyStream} {reader : Reader}
    {output : Bytes} (h : quoteBody quotePrefix stream reader = .ok output) :
    output = (reader.content.foldl (BodyStream.step quotePrefix) stream).written ++
      (reader.content.foldl (BodyStream.step quotePrefix) stream).held := by
  induction reader generalizing stream with
  | eof => exact (Except.ok.inj h).symm
  | failed error => cases h
  | chunk byte rest next ih =>
    have hnext := ih (show quoteBody quotePrefix
      ((byte :: rest).foldl (BodyStream.step quotePrefix) stream) next = .ok output from h)
    rw [Reader.content, List.foldl_append]
    exact hnext

theorem copyBody_eq_ok {reader : Reader} {output : Bytes} (h : copyBody reader = .ok output) :
    output = reader.content := by
  induction reader generalizing output with
  | eof => exact (Except.ok.inj h).symm
  | failed error => cases h
  | chunk byte rest next ih =>
    obtain ⟨tail, htail, h⟩ := bind_eq_ok h
    obtain rfl := Except.ok.inj h
    rw [ih htail]
    rfl

/-- The body is copied with the configured quoting and nothing else. -/
theorem streamBody_eq_ok {escapeBogus : Bool} {quotePrefix : Bytes} {reader : Reader}
    {output : Bytes} (h : streamBody escapeBogus quotePrefix reader = .ok output) :
    output = quoted escapeBogus quotePrefix reader.content := by
  unfold streamBody at h
  unfold quoted
  split_ifs at h ⊢ with hcopy
  · exact copyBody_eq_ok h
  · have hlines := BodyStream.foldl_lines quotePrefix [] (proper_lines reader.content)
    rw [flatten_lines] at hlines
    exact (quoteBody_eq_ok h).trans hlines

end ProcmailRs.Formail
