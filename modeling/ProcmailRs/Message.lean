import ProcmailRs.HeaderEdit
import Mathlib.Data.List.Defs

/-!
# Reading a message

The bounded ingestion of a message: the header line by line up to the blank line, then the body, from
a buffered reader that hands out its input in non-empty pieces. A header read from the input is
replaced by an edited one without joining it with the body.
-/

namespace ProcmailRs

/-- What is still to come from a `BufRead`: `fill_buf` gives the next piece, which is never empty
before the end of the input, or fails. -/
inductive Reader
  | eof
  | failed (error : String)
  | chunk (byte : UInt8) (rest : Bytes) (next : Reader)
  deriving DecidableEq, Repr

namespace Reader

/-- The bytes that are still to come. -/
def content : Reader → Bytes
  | eof => []
  | failed _ => []
  | chunk byte rest next => byte :: rest ++ next.content

/-- The input ends without an error. -/
def Complete : Reader → Prop
  | eof => True
  | failed _ => False
  | chunk _ _ next => next.Complete

/-- The reader with another piece in front. -/
def push (piece : Bytes) (reader : Reader) : Reader :=
  match piece with
  | [] => reader
  | byte :: rest => chunk byte rest reader

/-- `BufRead::consume`. -/
def consume (amount : Nat) : Reader → Reader
  | chunk byte rest next => push ((byte :: rest).drop amount) next
  | reader => reader

/-- A `Cursor` over bytes in memory. -/
def cursor (bytes : Bytes) : Reader := push bytes eof

/-- The capacity of a `BufReader`. -/
def bufferCapacity : Nat := 8192

/-- The pieces a `BufReader` makes of the parts of a chain. -/
def buffered (parts : List Bytes) : Reader :=
  (parts.flatMap fun part =>
    let (first, rest) := List.toChunksAux (bufferCapacity - 1) part bufferCapacity
    first :: rest).foldr push eof

end Reader

/-- Why a message was not read. -/
inductive MessageReadError
  | Io (error : String)
  | LimitExceeded (kind : MessageLimit) (limit : Nat)
  deriving DecidableEq, Repr

/-- A sum of sizes that must stay within the range of a size; leaving it exceeds the limit as well. -/
def MessageReadError.addChecked (left right limit : Nat) (kind : MessageLimit) :
    Except MessageReadError Nat :=
  match checkedAdd left right with
  | some sum => .ok sum
  | none => .error (.LimitExceeded kind limit)

/-- A size within its limit. -/
def checkSize (size limit : Nat) (kind : MessageLimit) : Except MessageReadError Unit :=
  if size > limit then .error (.LimitExceeded kind limit) else .ok ()

/-- Where the next line of a piece ends. -/
def lineTake (available : Bytes) : Nat :=
  ((available.findIdx? (· == LF)).map (· + 1)).getD available.length

/-- The checks before a line of the header may take `take` more bytes. -/
def checkLineSize (limits : MessageLimits) (headersRead lineSize take : Nat) :
    Except MessageReadError Unit := do
  let newLineSize ← MessageReadError.addChecked lineSize take limits.headerLineSize .HeaderLine
  checkSize newLineSize limits.headerLineSize .HeaderLine
  checkSize (headersRead + newLineSize) limits.headersSize .Headers
  checkSize (headersRead + newLineSize) limits.messageSize .Message

/-- One physical line, of which `line` has already been taken from earlier pieces. -/
def readHeaderLine (limits : MessageLimits) (headersRead : Nat) (line : Bytes) :
    Reader → Except MessageReadError (Option Bytes × Reader)
  | .eof => .ok (if line.isEmpty then none else some line, .eof)
  | .failed error => .error (.Io error)
  | .chunk byte rest next => do
    let available := byte :: rest
    let take := lineTake available
    checkLineSize limits headersRead line.length take
    let line := line ++ available.take take
    if line.getLast? = some LF then .ok (some line, Reader.consume take (.chunk byte rest next))
    -- without a delimiter the whole piece has been taken
    else readHeaderLine limits headersRead line next

/-- The size of the current field after a line that is no separator. -/
def readFieldSize (limits : MessageLimits) (fieldSize : Nat) (line : Bytes) :
    Except MessageReadError Nat := do
  let fieldSize ←
    if isFolded line then
      MessageReadError.addChecked fieldSize line.length limits.headerFieldSize .HeaderField
    else .ok line.length
  if fieldSize > limits.headerFieldSize then
    .error (.LimitExceeded .HeaderField limits.headerFieldSize)
  else .ok fieldSize

/-- The loop over the lines of the header. Every line takes at least one byte, so the number of bytes
to come bounds the number of rounds. -/
def readHeaderLines (limits : MessageLimits) :
    Nat → Bytes → Nat → Reader → Except MessageReadError (Bytes × Reader)
  | 0, raw, _, reader => .ok (raw, reader)
  | rounds + 1, raw, fieldSize, reader => do
    let (line, reader) ← readHeaderLine limits raw.length [] reader
    match line with
    | none => .ok (raw, reader)
    | some line =>
      if isSeparator line then .ok (raw ++ line, reader)
      else do
        let fieldSize ← readFieldSize limits fieldSize line
        readHeaderLines limits rounds (raw ++ line) fieldSize reader

/-- Which part of a message a command reads and a filter replaces. -/
inductive ActionInput
  | Message
  | Headers
  | Body
  deriving DecidableEq, Repr

/-- What a header is kept as: the bytes that were read, or an edited header. -/
inductive HeaderBacking
  | Input (raw : Bytes)
  | Indexed (header : EditedHeader)
  deriving DecidableEq, Repr

/-- The header of a message whose body has not been read. -/
structure MessageHead where
  backing : HeaderBacking
  matchingHeader : Option Bytes
  limits : MessageLimits
  deriving DecidableEq, Repr

/-- A complete message; its header and body are the two parts of its bytes. -/
structure Message where
  header : Bytes
  body : Bytes
  matching : Option Bytes
  deriving DecidableEq, Repr

/-- What is known of a message that was passed on. -/
structure StreamedMessage where
  header : Bytes
  matching : Option Bytes
  len : Nat
  deriving DecidableEq, Repr

namespace MessageHead

/-- An edited header as the head of a message. -/
def fromEditedHeader (edited : EditedHeader) (bodyLen : Nat) (limits : MessageLimits) :
    Except HeaderEditError MessageHead := do
  edited.validate bodyLen limits
  .ok ⟨.Indexed edited, none, limits⟩

/-- An edited header takes the place of the header. -/
def replaceEditedHeader (head : MessageHead) (edited : EditedHeader) : MessageHead :=
  { head with backing := .Indexed edited, matchingHeader := none }

/-- The bytes of the header. -/
def asBytes (head : MessageHead) : Bytes :=
  match head.backing with
  | .Input raw => raw
  | .Indexed header => header.asBytes

/-- The header for the editor. -/
def headerView (head : MessageHead) : HeaderView :=
  match head.backing with
  | .Input raw => .Raw raw
  | .Indexed header => .Indexed header

/-- The header that conditions match. -/
def matching (head : MessageHead) : Bytes :=
  match head.backing with
  | .Input raw => head.matchingHeader.getD raw
  | .Indexed header => header.matchingHeader

/-- The unfolded header when it differs from the bytes; the header keeps none of it. -/
def takeMatchingHeader (head : MessageHead) : Option Bytes × MessageHead :=
  match head.backing with
  | .Input _ => (head.matchingHeader, { head with matchingHeader := none })
  | .Indexed header => (header.normalized, head)

/-- The size of the header. -/
def len (head : MessageHead) : Nat :=
  match head.backing with
  | .Input raw => raw.length
  | .Indexed header => header.len

/-- The status of the message. -/
def status (head : MessageHead) : MessageStatus :=
  match head.backing with
  | .Input _ => MessageStatus.none
  | .Indexed header => header.status

/-- The bytes that are written, the unfolded header if it differs, and the limits. -/
def intoSerializedParts (head : MessageHead) : Bytes × Option Bytes × MessageLimits :=
  match head.backing with
  | .Input raw => (raw, head.matchingHeader, head.limits)
  | .Indexed header => (header.asBytes, header.normalized, head.limits)

end MessageHead

section Body

variable {σ : Type} (write : σ → Bytes → Except String σ)

/-- The loop over the pieces of the body. `raw` keeps them when they are retained; a stream counts and
writes them. -/
def readBodyFrom (limits : MessageLimits) (retain : Bool) (bodySize : Nat) (raw : Bytes)
    (stream : Option (Nat × σ)) : Reader → Except MessageReadError (Bytes × Option (Nat × σ))
  | .eof => .ok (raw, stream)
  | .failed error => .error (.Io error)
  | .chunk byte rest next => do
    let available := byte :: rest
    let totalSize := (stream.map Prod.fst).getD raw.length
    let nextBodySize ←
      MessageReadError.addChecked bodySize available.length limits.bodySize .Body
    let nextTotalSize ←
      MessageReadError.addChecked totalSize available.length limits.messageSize .Message
    checkSize nextBodySize limits.bodySize .Body
    checkSize nextTotalSize limits.messageSize .Message
    let raw := if retain then raw ++ available else raw
    let stream ← match stream with
      | none => .ok none
      | some (_, writer) =>
        match write writer available with
        | .ok writer => .ok (some (nextTotalSize, writer))
        | .error error => .error (.Io error)
    readBodyFrom limits retain nextBodySize raw stream next

/-- `write_all` with its error as a reading error. -/
def writeAll (writer : σ) (bytes : Bytes) : Except MessageReadError σ :=
  match write writer bytes with
  | .ok writer => .ok writer
  | .error error => .error (.Io error)

/-- Writes the header and the body as they arrive and retains both. -/
def MessageHead.readBodyTo (head : MessageHead) (reader : Reader) (writer : σ) :
    Except MessageReadError (Message × σ) := do
  let (raw, matching, limits) := head.intoSerializedParts
  let writer ← writeAll write writer raw
  let (bytes, stream) ← readBodyFrom write limits true 0 raw (some (raw.length, writer)) reader
  match stream with
  | some (_, writer) => .ok (⟨raw, bytes.drop raw.length, matching⟩, writer)
  | none => .ok (⟨raw, bytes.drop raw.length, matching⟩, writer)

/-- Writes the header and the body as they arrive and retains only the header. -/
def MessageHead.streamTo (head : MessageHead) (reader : Reader) (writer : σ) :
    Except MessageReadError (StreamedMessage × σ) := do
  let (raw, matching, limits) := head.intoSerializedParts
  let writer ← writeAll write writer raw
  let (_, stream) ← readBodyFrom write limits false 0 [] (some (raw.length, writer)) reader
  match stream with
  | some (total, writer) => .ok (⟨raw, matching, total⟩, writer)
  | none => .ok (⟨raw, matching, raw.length⟩, writer)

end Body

/-- The writer that accepts and drops everything. -/
def sink (_ : Unit) (_ : Bytes) : Except String Unit := .ok ()

/-- The writer that keeps everything. -/
def collect (written bytes : Bytes) : Except String Bytes := .ok (written ++ bytes)

/-- `MessageHead::read_body`: the body is read and kept. -/
def MessageHead.readBody (head : MessageHead) (reader : Reader) :
    Except MessageReadError Message := do
  let (raw, matching, limits) := head.intoSerializedParts
  let (bytes, _) ← readBodyFrom sink limits true 0 raw none reader
  .ok ⟨raw, bytes.drop raw.length, matching⟩

namespace Message

/-- The bytes of the message. -/
def asBytes (message : Message) : Bytes := message.header ++ message.body

/-- The header that conditions match. -/
def matchingHeader (message : Message) : Bytes := message.matching.getD message.header

/-- The unfolded message where it differs. -/
def matchingMessage (message : Message) : Option Bytes :=
  message.matching.map fun header => header ++ message.body

/-- The size of the message. -/
def len (message : Message) : Nat := message.asBytes.length

/-- `Message::read_headers`: the header up to the empty line. -/
def readHeaders (reader : Reader) (limits : MessageLimits) :
    Except MessageReadError (MessageHead × Reader) := do
  let (raw, reader) ← readHeaderLines limits (reader.content.length + 1) [] 0 reader
  .ok (⟨.Input raw, normalizeFoldedHeader raw, limits⟩, reader)

/-- `Message::read_from`: the header and the body. -/
def readFrom (reader : Reader) (limits : MessageLimits) : Except MessageReadError Message := do
  let (head, reader) ← readHeaders reader limits
  head.readBody reader

/-- The message after a filter. A partial filter replaces only the bytes sent to the command; the
joined slices are read again within the limits. -/
def fromFilterOutput (header body : Bytes) (output : Message) (area : ActionInput)
    (limits : MessageLimits) : Except MessageReadError Message :=
  match area with
  | .Message => do
    let (head, reader) ← readHeaders (Reader.cursor output.asBytes) limits
    let _ ← head.streamTo sink reader ()
    .ok output
  | .Headers => readFrom (Reader.buffered [output.asBytes, body]) limits
  | .Body =>
    match output.asBytes with
    | [] => .error (.Io "body filter output lost its private separator")
    | _ :: output => readFrom (Reader.buffered [header, output]) limits

end Message

end ProcmailRs
