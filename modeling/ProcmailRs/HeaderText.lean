import ProcmailRs.Bytes

/-!
# The text of a header section

A header section is a sequence of physical lines that ends with the first blank line, or with the
input. A field is a line together with the continuation lines behind it, the ones that start with a
space or a tab; malformed lines and leading continuation lines count as fields too, so that the
fields of a header always add up to its bytes. The functions of this module work on the raw bytes:
finding fields and the separator, taking a field apart and unfolding it.
-/

namespace ProcmailRs

/-- Colon, `b':'`. -/
abbrev COLON : UInt8 := 58

/-- `b' ' | b'\t'`. -/
def isBlank (b : UInt8) : Bool := b == SP || b == HT

/-- The text starts with a space or a tab: as a line, it continues the line before it. -/
def isFolded (bytes : Bytes) : Bool := bytes.head?.any isBlank

/-- The line is `b"\n"` or `b"\r\n"`, which ends the header section. -/
def isSeparator (line : Bytes) : Bool := line == [LF] || line == [CR, LF]

/-- `slice::ends_with`. -/
def endsWith (bytes suffix : Bytes) : Bool := suffix.isSuffixOf bytes

/-- `u8::to_ascii_lowercase`. -/
def toAsciiLowercase (b : UInt8) : UInt8 := if 65 ≤ b ∧ b ≤ 90 then b + 32 else b

/-- `u8::to_ascii_uppercase`. -/
def toAsciiUppercase (b : UInt8) : UInt8 := if 97 ≤ b ∧ b ≤ 122 then b - 32 else b

/-- `<[u8]>::eq_ignore_ascii_case`. -/
def eqIgnoreAsciiCase (a b : Bytes) : Bool := a.map toAsciiLowercase == b.map toAsciiLowercase

/-- The two delimiters a header may use. -/
inductive LineEnding
  | Lf
  | CrLf
  deriving DecidableEq, Repr

/-- The bytes of a delimiter. -/
def LineEnding.bytes : LineEnding → Bytes
  | .Lf => [LF]
  | .CrLf => [CR, LF]

/-- The delimiter of the first terminated line, given the byte before the ones still to read. -/
def preferredLineEndingFrom (previous : Option UInt8) : Bytes → LineEnding
  | [] => .Lf
  | byte :: rest =>
    if byte = LF then (if previous = some CR then .CrLf else .Lf)
    else preferredLineEndingFrom (some byte) rest

/-- The delimiter of the first terminated line, `\n` when there is none. -/
def preferredLineEnding (bytes : Bytes) : LineEnding := preferredLineEndingFrom none bytes

/-- One header field: its bytes with all delimiters, and the bytes before the first colon of its
first line, when there is one. -/
structure Field where
  bytes : Bytes
  name : Option Bytes
  deriving DecidableEq, Repr

namespace Field

/-- What follows the name and the colon. -/
def value (field : Field) : Option Bytes :=
  match field.name with
  | none => none
  | some name =>
    if name.length + 1 ≤ field.bytes.length then some (field.bytes.drop (name.length + 1)) else none

end Field

/-- The name of a field: what stands before the first colon of its first line. -/
def fieldName (bytes : Bytes) : Option Bytes :=
  let firstLine := bytes.takeWhile (· != LF)
  if firstLine.contains COLON then some (firstLine.takeWhile (· != COLON)) else none

/-- A field under the name its bytes begin with. -/
def fieldFromBytes (bytes : Bytes) : Field := ⟨bytes, fieldName bytes⟩

/-- The fields that the remaining physical lines still give, when `current` holds the lines of the
field already begun. The iteration stops before a blank line. -/
def fieldTextsFrom (current : Bytes) : List Bytes → List Bytes
  | [] => [current]
  | line :: rest =>
    if isFolded line then fieldTextsFrom (current ++ line) rest
    else if isSeparator line then [current]
    else current :: fieldTextsFrom line rest

/-- The fields of a sequence of physical lines. -/
def fieldTextsOfLines : List Bytes → List Bytes
  | [] => []
  | line :: rest => if isSeparator line then [] else fieldTextsFrom line rest

/-- The bytes of the fields of a raw header, up to its separator. -/
def fieldTexts (header : Bytes) : List Bytes := fieldTextsOfLines (lines header)

/-- The iterator `HeaderView::Raw(header).fields()`. -/
def rawFields (header : Bytes) : List Field := (fieldTexts header).map fieldFromBytes

/-- Some field of the list would be read back as a part of the field before it. -/
def needsReindex : List Bytes → Bool
  | previous :: field :: rest =>
    (isFolded field || !endsWith previous [LF]) || needsReindex (field :: rest)
  | _ => false

/-- The offset of the first blank line, when the lines seen so far end at `start`. -/
def separatorStartFrom (start : Nat) : List Bytes → Option Nat
  | [] => none
  | line :: rest =>
    if isSeparator line then some start else separatorStartFrom (start + line.length) rest

/-- The offset of the blank line that ends the header section. -/
def headerSeparatorStart (header : Bytes) : Option Nat := separatorStartFrom 0 (lines header)

/-- The fields before the separator, the separator, and the preferred delimiter. -/
def splitFields (header : Bytes) : List Field × Bytes × LineEnding :=
  let separatorStart := (headerSeparatorStart header).getD header.length
  let content := header.take separatorStart
  let separator := header.drop separatorStart
  (rawFields content, separator, preferredLineEnding header)

/-- The value without the line ending behind it. -/
def stripLineEnding (value : Bytes) : Bytes :=
  if endsWith value [CR, LF] then value.take (value.length - 2)
  else if endsWith value [LF] then value.take (value.length - 1)
  else value

/-- Joins folded lines: the delimiter before a continuation line becomes one space. The
continuation's own leading whitespace remains untouched. -/
def unfoldLines : List Bytes → Bytes
  | [] => []
  | [line] => line
  | line :: next :: rest =>
    (if isFolded next then stripLineEnding line ++ [SP] else line) ++ unfoldLines (next :: rest)

/-- Some line of the text continues the one before it. -/
def hasFolding (raw : Bytes) : Bool := (lines raw).tail.any isFolded

/-- The header as conditions see it; a second header exists only when there is folding. -/
def normalizeFoldedHeader (raw : Bytes) : Option Bytes :=
  if hasFolding raw then some (unfoldLines (lines raw)) else none

/-- `unfold_field_bytes`. -/
def unfoldFieldBytes (raw : Bytes) : Bytes :=
  if hasFolding raw then unfoldLines (lines raw) else raw

end ProcmailRs
