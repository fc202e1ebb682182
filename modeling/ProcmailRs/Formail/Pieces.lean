import ProcmailRs.Formail

/-!
# Copying the body piece by piece

The body is copied from the pieces that the reader holds. The beginning of a line is looked at byte by
byte; once the line is decided its rest, as far as the piece has it, is written at once.
-/

namespace ProcmailRs.Formail

namespace BodyStream

/-- The search for `From ` at the beginning of a line: the byte becomes part of what is held back, or
the line is decided and the byte is left. -/
def matchStart (quotePrefix : Bytes) (stream : BodyStream) (byte : UInt8) : BodyStream × Bool :=
  let quotes := (stream.held.takeWhile (· == Mbox.GT)).length
  if quotes = stream.held.length ∧ byte = Mbox.GT then
    if stream.held.length < maxQuotes then ({ stream with held := stream.held ++ [byte] }, true)
    else (stream.flush, false)
  else
    let matched := stream.held.length - quotes
    if fromSpace[matched]? = some byte then
      let held := stream.held ++ [byte]
      if held.length - quotes = fromSpace.length then
        (⟨false, [], stream.written ++ quotePrefix ++ held⟩, true)
      else ({ stream with held := held }, true)
    else (stream.flush, false)

/-- Writes up to the next line feed or the end of the piece, and gives what is left of the piece. -/
def writeLine (stream : BodyStream) (available : Bytes) : BodyStream × Bytes :=
  match available.findIdx? isLF with
  | some position =>
    ({ stream with
        written := stream.written ++ available.take (position + 1)
        atLineStart := true },
      available.drop (position + 1))
  | none => ({ stream with written := stream.written ++ available }, [])

theorem length_writeLine_lt (stream : BodyStream) (byte : UInt8) (rest : Bytes) :
    (stream.writeLine (byte :: rest)).2.length < (byte :: rest).length := by
  unfold writeLine
  split
  · rw [List.length_drop, List.length_cons]
    omega
  · exact Nat.zero_lt_succ _

/-- The loop over one piece. -/
def writePiece (quotePrefix : Bytes) (stream : BodyStream) (available : Bytes) : BodyStream :=
  match available with
  | [] => stream
  | byte :: rest =>
    let start := if stream.atLineStart then stream.matchStart quotePrefix byte else (stream, false)
    if start.2 then writePiece quotePrefix start.1 rest
    else
      let line := start.1.writeLine (byte :: rest)
      writePiece quotePrefix line.1 line.2
termination_by available.length
decreasing_by
  · exact Nat.lt_succ_self _
  · exact length_writeLine_lt _ byte rest

end BodyStream

/-- The loop over the pieces of the input. -/
def quotePieces (quotePrefix : Bytes) (stream : BodyStream) : Reader → Except FormailError Bytes
  | .eof => .ok (stream.written ++ stream.held)
  | .failed error => .error (.Read error)
  | .chunk byte rest next =>
    quotePieces quotePrefix (stream.writePiece quotePrefix (byte :: rest)) next

/-- `stream_body`. -/
def streamPieces (escapeBogus : Bool) (quotePrefix : Bytes) (reader : Reader) :
    Except FormailError Bytes :=
  if !escapeBogus then copyBody reader else quotePieces quotePrefix .start reader

end ProcmailRs.Formail
