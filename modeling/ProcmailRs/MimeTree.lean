import ProcmailRs.Mime

/-!
# Trees of MIME parts

A well-formed message body is text, or a multipart body: a preamble, parts between delimiters and an
epilogue. This is what a traversal is meant to read; it says how a tree is written with one kind of
line ending, and which parts it has in the order in which they begin.
-/

namespace ProcmailRs

mutual

/-- The body of a message or a part. -/
inductive MimeBody
  | single (text : Bytes)
  | multipart (boundary : Bytes) (preamble : List Bytes) (parts : MimeParts) (epilogue : Bytes)

/-- The parts of a multipart body. A part without a body ends with its header lines or with the
blank line behind them. -/
inductive MimeParts
  | nil
  | headers (header : List Bytes) (blank : Bool) (rest : MimeParts)
  | part (header : List Bytes) (body : MimeBody) (rest : MimeParts)

end

/-! ### Rendering -/

/-- Lines with their endings. -/
def linesText (eol : LineEnding) (text : List Bytes) : Bytes := (text.map (· ++ eol.bytes)).flatten

/-- The text of a part without a body, up to the delimiter behind it. -/
def headersText (eol : LineEnding) (header : List Bytes) (blank : Bool) : Bytes :=
  linesText eol header ++ if blank then eol.bytes else []

/-- The text of a part with a body, up to the delimiter behind it. -/
def partText (eol : LineEnding) (header : List Bytes) (body : Bytes) : Bytes :=
  linesText eol header ++ eol.bytes ++ body ++ eol.bytes

mutual

/-- The text of a body. What follows the last delimiter is the epilogue. -/
def MimeBody.render (eol : LineEnding) : MimeBody → Bytes
  | .single text => text
  | .multipart boundary preamble parts epilogue =>
    linesText eol preamble ++ delimiter boundary ++ parts.render eol boundary epilogue

/-- What follows a delimiter: a line ending and the next part with its delimiter, or the end. -/
def MimeParts.render (eol : LineEnding) (boundary epilogue : Bytes) : MimeParts → Bytes
  | .nil => DASH :: DASH :: epilogue
  | .headers header blank rest =>
    eol.bytes ++ headersText eol header blank ++ delimiter boundary ++
      rest.render eol boundary epilogue
  | .part header body rest =>
    eol.bytes ++ partText eol header (body.render eol) ++ delimiter boundary ++
      rest.render eol boundary epilogue

end

/-! ### The parts of a tree -/

/-- The fields of the header lines. -/
def headerFields (eol : LineEnding) (header : List Bytes) : List Field :=
  rawFields (linesText eol header)

/-- The fields of a part without a body. The ending of its last line is the one that belongs to the
delimiter, unless a blank line follows. -/
def bareFields (eol : LineEnding) (header : List Bytes) (blank : Bool) : List Field :=
  if blank then headerFields eol header else rawFields (eol.bytes.intercalate header)

mutual

/-- The parts of a body in the order in which they begin. -/
def MimeBody.preorder (eol : LineEnding) : MimeBody → List MimePart
  | .single _ => []
  | .multipart _ _ parts _ => parts.preorder eol

/-- The parts in the order in which they are visited. -/
def MimeParts.preorder (eol : LineEnding) : MimeParts → List MimePart
  | .nil => []
  | .headers header blank rest =>
    (partFromHeaders (bareFields eol header blank)).1 :: rest.preorder eol
  | .part header body rest =>
    (partFromHeaders (headerFields eol header)).1 :: (body.preorder eol ++ rest.preorder eol)

end

mutual

/-- How deep multipart bodies are nested. -/
def MimeBody.depth : MimeBody → Nat
  | .single _ => 0
  | .multipart _ _ parts _ => parts.depth + 1

/-- How deep the parts are nested. -/
def MimeParts.depth : MimeParts → Nat
  | .nil => 0
  | .headers _ _ rest => rest.depth
  | .part _ body rest => max body.depth rest.depth

end

/-! ### Well-formed trees -/

/-- No line of the text starts with the delimiter. -/
def Avoids (boundary text : Bytes) : Prop := ∀ line ∈ lines text, ¬ delimiter boundary <+: line

instance (boundary text : Bytes) : Decidable (Avoids boundary text) :=
  inferInstanceAs (Decidable (∀ line ∈ lines text, ¬ delimiter boundary <+: line))

/-- A header line, without its ending. -/
def IsHeaderLine (line : Bytes) : Prop := line ≠ [] ∧ LF ∉ line ∧ line.getLast? ≠ some CR

instance (line : Bytes) : Decidable (IsHeaderLine line) := inferInstanceAs (Decidable (_ ∧ _ ∧ _))

/-- The header says what the body is: a multipart body with its boundary, or no multipart body. -/
def Announces (header : MimePart × Option Bytes) : MimeBody → Prop
  | .single _ => header.1.isMultipart = true → header.2 = none
  | .multipart boundary _ _ _ => header.1.isMultipart = true ∧ header.2 = some boundary

mutual

/-- Every boundary stands on one line, and no line of a preamble or of a part starts with the
delimiter of its body. The lines of a part are all the lines of its header and of its content, so
nothing in a nested body starts with the delimiter of a body around it. -/
def MimeBody.WellFormed (eol : LineEnding) : MimeBody → Prop
  | .single _ => True
  | .multipart boundary preamble parts _ =>
    LF ∉ boundary ∧ (∀ line ∈ preamble, LF ∉ line) ∧ Avoids boundary (linesText eol preamble) ∧
      parts.WellFormed eol boundary

/-- No line within the parts looks like a delimiter around them. -/
def MimeParts.WellFormed (eol : LineEnding) (boundary : Bytes) : MimeParts → Prop
  | .nil => True
  | .headers header blank rest =>
    (∀ line ∈ header, IsHeaderLine line) ∧ Avoids boundary (headersText eol header blank) ∧
      rest.WellFormed eol boundary
  | .part header body rest =>
    (∀ line ∈ header, IsHeaderLine line) ∧ Avoids boundary (partText eol header (body.render eol)) ∧
      Announces (partFromHeaders (headerFields eol header)) body ∧ body.WellFormed eol ∧
      rest.WellFormed eol boundary

end

end ProcmailRs
