import ProcmailRs.Formail.Pieces
import ProcmailRs.Proofs.FormailBodyProofs

/-!
# The pieces do not matter

Written piece by piece or byte by byte, the body comes out the same, so that what is written depends on
the bytes of the body alone.
-/

namespace ProcmailRs.Formail

namespace BodyStream

/-- At the beginning of a line, a byte is taken into the match or is the first of the rest. -/
theorem step_matchStart (quotePrefix : Bytes) {stream : BodyStream} (h : stream.atLineStart = true)
    (byte : UInt8) :
    step quotePrefix stream byte =
      if (stream.matchStart quotePrefix byte).2 then (stream.matchStart quotePrefix byte).1
      else (stream.matchStart quotePrefix byte).1.inLine byte := by
  simp only [step, matchStart, if_pos h]
  split_ifs <;> first | rfl | contradiction

theorem matchStart_left (quotePrefix : Bytes) {stream : BodyStream} {byte : UInt8}
    (h : ¬(stream.matchStart quotePrefix byte).2 = true) :
    (stream.matchStart quotePrefix byte).1.atLineStart = false := by
  unfold matchStart at h ⊢
  dsimp only at h ⊢
  split_ifs at h ⊢ <;> first | rfl | exact absurd rfl h

theorem step_inLine (quotePrefix : Bytes) {stream : BodyStream} (h : stream.atLineStart = false)
    (byte : UInt8) : step quotePrefix stream byte = stream.inLine byte := by
  simp [step, h]

/-- What is written at once is what the bytes of the rest of the line write one by one. -/
theorem foldl_writeLine (quotePrefix : Bytes) {stream : BodyStream} (h : stream.atLineStart = false)
    (available : Bytes) :
    available.foldl (step quotePrefix) stream =
      (stream.writeLine available).2.foldl (step quotePrefix) (stream.writeLine available).1 := by
  induction available generalizing stream with
  | nil => simp [writeLine]
  | cons byte rest ih =>
    rw [List.foldl_cons, step_inLine quotePrefix h]
    by_cases hbyte : isLF byte = true
    · have hline : stream.writeLine (byte :: rest) = (stream.inLine byte, rest) := by
        have hfind : (byte :: rest).findIdx? isLF = some 0 := by simp [List.findIdx?_cons, hbyte]
        have hlf : (byte == LF) = true := hbyte
        simp [writeLine, hfind, inLine, hlf]
      rw [hline]
    · have hlf : (byte == LF) = false := by simpa [isLF] using hbyte
      have hstart : (stream.inLine byte).atLineStart = false := hlf
      have hline : (stream.inLine byte).writeLine rest = stream.writeLine (byte :: rest) := by
        have hfind : (byte :: rest).findIdx? isLF = (rest.findIdx? isLF).map (· + 1) := by
          simp [List.findIdx?_cons, hbyte]
        unfold writeLine
        rw [hfind]
        cases rest.findIdx? isLF with
        | none => simp [inLine, hlf, h]
        | some position => simp [inLine]
      rw [ih hstart, hline]

/-- A piece is written as its bytes are. -/
theorem writePiece_eq_foldl (quotePrefix : Bytes) (stream : BodyStream) (available : Bytes) :
    stream.writePiece quotePrefix available = available.foldl (step quotePrefix) stream := by
  fun_induction writePiece quotePrefix stream available with
  | case1 stream => rfl
  | case2 stream byte rest start htaken ih =>
    have hstart : stream.atLineStart = true := by
      by_contra hnot
      simp [start, hnot] at htaken
    have heq : start = stream.matchStart quotePrefix byte := if_pos hstart
    rw [ih, List.foldl_cons, step_matchStart quotePrefix hstart, ← heq, if_pos htaken]
  | case3 stream byte rest start hleft line ih =>
    by_cases hstart : stream.atLineStart = true
    · have heq : start = stream.matchStart quotePrefix byte := if_pos hstart
      have hline : start.1.atLineStart = false := by
        rw [heq] at hleft ⊢
        exact matchStart_left quotePrefix hleft
      rw [ih, ← foldl_writeLine quotePrefix hline, List.foldl_cons, List.foldl_cons,
        step_matchStart quotePrefix hstart, ← heq, if_neg hleft, step_inLine quotePrefix hline]
    · have heq : start = (stream, false) := if_neg hstart
      have hline : start.1.atLineStart = false := by
        rw [heq]
        exact Bool.eq_false_iff.mpr hstart
      rw [ih, ← foldl_writeLine quotePrefix hline, heq]

end BodyStream

theorem quotePieces_eq_quoteBody (quotePrefix : Bytes) (stream : BodyStream) (reader : Reader) :
    quotePieces quotePrefix stream reader = quoteBody quotePrefix stream reader := by
  induction reader generalizing stream with
  | eof => rfl
  | failed error => rfl
  | chunk byte rest next ih =>
    rw [quotePieces, quoteBody, BodyStream.writePiece_eq_foldl, ih]

theorem streamPieces_eq_streamBody (escapeBogus : Bool) (quotePrefix : Bytes) (reader : Reader) :
    streamPieces escapeBogus quotePrefix reader = streamBody escapeBogus quotePrefix reader := by
  rw [streamPieces, streamBody, quotePieces_eq_quoteBody]

theorem quoteBody_complete (quotePrefix : Bytes) (stream : BodyStream) {reader : Reader}
    (h : reader.Complete) : ∃ output, quoteBody quotePrefix stream reader = .ok output := by
  induction reader generalizing stream with
  | eof => exact ⟨_, rfl⟩
  | failed error => cases h
  | chunk byte rest next ih => exact ih _ h

/-- However the reader cuts the body, each line that looks like a postmark gets the prefix once and
every other byte is copied. -/
theorem body_quoted_in_pieces (quotePrefix : Bytes) {reader : Reader} (h : reader.Complete) :
    streamPieces true quotePrefix reader =
        .ok ((lines reader.content).flatMap (quoteLine quotePrefix)) ∧
      (lines reader.content).flatten = reader.content := by
  obtain ⟨output, houtput⟩ := quoteBody_complete quotePrefix .start h
  have hstream : streamBody true quotePrefix reader = .ok output := houtput
  refine ⟨?_, flatten_lines reader.content⟩
  rw [streamPieces_eq_streamBody, hstream, streamBody_eq_ok hstream]
  rfl

/-- A match that is cut by the pieces, broken by a line feed, or open at the end. -/
theorem body_quoted_in_pieces_cut :
    let reader := Reader.push (strBytes ">Fr") (.push (strBytes "om a\n>\nFro") (.push (strBytes "m") .eof))
    streamPieces true (strBytes "> ") reader = .ok (strBytes "> >From a\n>\nFrom") := by
  intro reader
  have hcomplete : reader.Complete := trivial
  rw [(body_quoted_in_pieces (strBytes "> ") hcomplete).1]
  decide +kernel

end ProcmailRs.Formail
