import ProcmailRs.Bytes

/-!
# Byte-oriented mboxrd record formatting

`write_record` appends one message to a mailbox: the postmark line, the message with one `>` added to
every physical line that starts with any number of `>` followed by `From `, and the line feeds that
end the record. The message is borrowed in two slices, so that a header and a body need not be
joined; a physical line may span both.

`splitRecords` and `unquote` are the reader's side of the format: they are not part of the delivery
code, and say what a mailbox file means.
-/

namespace ProcmailRs

/-- `RecipeOptions::output_ending`: whether a record is completed with an empty line. -/
inductive OutputEnding
  | Normalize
  | Preserve
  deriving DecidableEq, Repr

/-- Borrowed input pieces; writing them does not join the body. -/
structure MessageBytes where
  first : Bytes
  second : Bytes
  deriving DecidableEq, Repr

namespace MessageBytes

/-- The bytes `write_to` produces. -/
def bytes (m : MessageBytes) : Bytes := m.first ++ m.second

/-- Compares the reversed pieces with the reversed suffix, as far as the suffix reaches. -/
def endsWith (m : MessageBytes) (suffix : Bytes) : Bool :=
  (m.second.reverse ++ m.first.reverse).take suffix.length == suffix.reverse

/-- The message has no bytes. -/
def isEmpty (m : MessageBytes) : Bool := m.first.isEmpty && m.second.isEmpty

end MessageBytes

namespace Mbox

/-- How long a postmark may be. -/
def maxPostmarkLen : Nat := 512

/-- `b"From "`, the start of a postmark line. -/
def fromPrefix : Bytes := [70, 114, 111, 109, 32]

/-- `b'>'`, the quoting byte. -/
abbrev GT : UInt8 := 62

/-- Why a postmark is rejected. -/
inductive PostmarkError
  | TooLong
  | InvalidShape
  | NonAscii
  | TimeBeforeEpoch
  | TimeOutOfRange
  deriving DecidableEq, Repr

/-- `u8::is_ascii_graphic`. -/
def isAsciiGraphic (b : UInt8) : Bool := 33 ≤ b && b ≤ 126

/-- What `Postmark::new` checks, in its order. -/
def checkPostmark (bytes : Bytes) : Except PostmarkError Unit :=
  if maxPostmarkLen < bytes.length then .error .TooLong
  else if !fromPrefix.isPrefixOf bytes || !(bytes.getLast?.any isLF) || bytes.dropLast.any isLF then
    .error .InvalidShape
  else if !(bytes.dropLast.all fun b => isAsciiGraphic b || b == SP) then .error .NonAscii
  else .ok ()

/-- A postmark line: the bytes and the fact that they passed `Postmark::new`. -/
structure Postmark where
  bytes : Bytes
  valid : checkPostmark bytes = .ok ()

/-- `Postmark::new`. -/
def Postmark.new (bytes : Bytes) : Except PostmarkError Postmark :=
  match h : checkPostmark bytes with
  | .ok () => .ok ⟨bytes, h⟩
  | .error e => .error e

/-- The test on one physical line, given as two borrowed ranges: after the leading `>` bytes the
line goes on with `From `. -/
def needsQuote (lineFirst lineSecond : Bytes) : Bool :=
  let count := ((lineFirst ++ lineSecond).takeWhile (· == GT)).length
  ((lineFirst ++ lineSecond).drop count).take 5 == fromPrefix

/-- The bytes written for one physical line. -/
def writeLine (lineFirst lineSecond : Bytes) : Bytes :=
  (if needsQuote lineFirst lineSecond then [GT] else []) ++ lineFirst ++ lineSecond

/-- The loop of `write_record` over the two remaining slices. -/
def writeLines (first second : Bytes) : Bytes :=
  if _h : first = [] ∧ second = [] then []
  else
    -- `first` is replaced by `second` once it is used up
    let cur := if first = [] then second else first
    let next := if first = [] then [] else second
    match cur.findIdx? isLF with
    | some index => writeLine (cur.take (index + 1)) [] ++ writeLines (cur.drop (index + 1)) next
    | none =>
      let stop := match next.findIdx? isLF with
        | some index => index + 1
        | none => next.length
      writeLine cur (next.take stop) ++ writeLines [] (next.drop stop)
termination_by first.length + second.length
decreasing_by
  · rcases first with _ | ⟨a, first⟩ <;> rcases second with _ | ⟨b, second⟩ <;> grind
  · rcases first with _ | ⟨a, first⟩ <;> rcases second with _ | ⟨b, second⟩ <;> grind

/-- The line feeds that end a record. -/
def recordEnding (message : MessageBytes) (ending : OutputEnding) : Bytes :=
  match ending with
  | .Normalize =>
    if message.endsWith [LF, LF] then []
    else (if !message.endsWith [LF] then [LF] else []) ++ [LF]
  | .Preserve => if !message.isEmpty && !message.endsWith [LF] then [LF] else []

/-- The bytes one call of `write_record` appends. -/
def writeRecord (postmark : Postmark) (message : MessageBytes) (ending : OutputEnding) : Bytes :=
  postmark.bytes ++ writeLines message.first message.second ++ recordEnding message ending

/-! ## Reading a mailbox -/

/-- A line that a reader would take for a postmark. -/
def isFromLine (line : Bytes) : Bool := fromPrefix.isPrefixOf line

/-- The records of a mailbox file: it is cut before every line that starts with `From `. -/
def splitRecords (file : Bytes) : List Bytes :=
  (Lines.splitBefore isFromLine (lines file)).map List.flatten

/-- Removes one `>` from a line of the form `>+From `. -/
def unquoteLine (line : Bytes) : Bytes :=
  let count := (line.takeWhile (· == GT)).length
  if 0 < count && fromPrefix.isPrefixOf (line.drop count) then line.drop 1 else line

/-- Removes the quoting from every line of a record. -/
def unquote (record : Bytes) : Bytes := (lines record).flatMap unquoteLine

end Mbox

end ProcmailRs
