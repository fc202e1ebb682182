import ProcmailRs.AddressHeader
import ProcmailRs.HeaderEdit

/-!
# MIME parts

A MIME condition is tested on the message itself and on every part of its multipart bodies, in the
order in which they begin. The boundary of a multipart body is taken from its header, the parts are
found by a search for delimiters at line starts, and the traversal is bounded in depth and in the
number of parts.
-/

namespace ProcmailRs

/-- How deep parts may be nested. -/
def maxMimeDepth : Nat := 8

/-- How many parts are visited. -/
def maxMimeParts : Nat := 256

/-- How long a boundary may be. -/
def maxBoundaryLen : Nat := 128

/-- What the conditions know of a part. -/
structure MimePart where
  mimetype : Option Bytes
  disposition : Option Bytes
  filename : Option Bytes
  deriving DecidableEq, Repr

/-- What `Content-Type` says. -/
structure ParsedContentType where
  mimetype : Option Bytes
  boundary : Option Bytes
  name : Option Bytes
  deriving DecidableEq, Repr

/-- What `Content-Disposition` says. -/
structure ParsedContentDisposition where
  disposition : Option Bytes
  filename : Option Bytes
  deriving DecidableEq, Repr

/-! ### Parameters -/

/-- `-`. -/
abbrev DASH : UInt8 := 45

/-- The parts that the remaining bytes give, when `current` holds the bytes of the part already
begun. -/
def splitMimeParametersFrom (quoted escaped : Bool) (current : Bytes) : Bytes → List Bytes
  | [] => [current]
  | byte :: rest =>
    if escaped then splitMimeParametersFrom quoted false (current ++ [byte]) rest
    else if quoted ∧ byte = BACKSLASH then splitMimeParametersFrom quoted true (current ++ [byte]) rest
    else if byte = QUOTE then splitMimeParametersFrom (!quoted) false (current ++ [byte]) rest
    else if !quoted ∧ byte = SEMICOLON then current :: splitMimeParametersFrom quoted false [] rest
    else splitMimeParametersFrom quoted false (current ++ [byte]) rest

/-- The parameters, cut at the semicolons outside of quoted strings. -/
def splitMimeParameters (input : Bytes) : List Bytes := splitMimeParametersFrom false false [] input

/-- The value of a hexadecimal digit. -/
def fromHexDigit (b : UInt8) : Option UInt8 :=
  if 48 ≤ b ∧ b ≤ 57 then some (b - 48)
  else if 97 ≤ b ∧ b ≤ 102 then some (b - 97 + 10)
  else if 65 ≤ b ∧ b ≤ 70 then some (b - 65 + 10)
  else none

/-- The text with its `%` escapes decoded; what is none stays. -/
def percentDecode : Bytes → Bytes
  | [] => []
  | byte :: c₁ :: c₂ :: rest =>
    if byte = 37 then
      match fromHexDigit c₁, fromHexDigit c₂ with
      | some h₁, some h₂ => ((h₁ <<< 4) ||| h₂) :: percentDecode rest
      | _, _ => byte :: percentDecode (c₁ :: c₂ :: rest)
    else byte :: percentDecode (c₁ :: c₂ :: rest)
  | byte :: rest => byte :: percentDecode rest

/-- What follows the second apostrophe, when there are two. -/
def decodeRfc2231 (value : Bytes) : Bytes :=
  let payload :=
    match value.findIdx? (· == 39) with
    | none => value
    | some firstQuote =>
      match (value.drop (firstQuote + 1)).findIdx? (· == 39) with
      | none => value
      | some secondQuote => value.drop (firstQuote + 1 + secondQuote + 1)
  percentDecode payload

/-- The loop of `unquote_mime_value` between the quotes. -/
def unescapeFrom (escaped : Bool) : Bytes → Bytes
  | [] => []
  | byte :: rest =>
    if escaped then byte :: unescapeFrom false rest
    else if byte = BACKSLASH then unescapeFrom true rest
    else byte :: unescapeFrom false rest

/-- The value without its quotes. -/
def unquoteMimeValue (value : Bytes) : Bytes :=
  let value := trimAscii value
  if value.length ≥ 2 ∧ value.head? = some QUOTE ∧ value.getLast? = some QUOTE then
    unescapeFrom false (inner value)
  else value

/-- The name of a parameter and its value. -/
def parseParameter (param : Bytes) : Option (Bytes × Bytes) :=
  let param := trimAscii param
  match findUnquoted param 61 with
  | none => none
  | some eq =>
    let name := trimAscii (param.take eq)
    let value := trimAscii (param.drop (eq + 1))
    if name.isEmpty then none
    else
      let isExtended := endsWith name [42]
      let cleanName :=
        if isExtended then (name.take (name.length - 1)).map toAsciiLowercase
        else name.map toAsciiLowercase
      let unquoted := unquoteMimeValue value
      let finalValue :=
        if isExtended then decodeRfc2231 unquoted
        else if (findEncodedWord unquoted).isSome then
          match decodeRfc2047 unquoted maxAssignmentValueLen with
          | .ok decoded => decoded
          | .error _ => unquoted
        else unquoted
      some (cleanName, finalValue)

/-- A token of a MIME header. -/
def isMimeToken (token : Bytes) : Bool :=
  !token.isEmpty && token.all fun b =>
    isGraphicByte b &&
      !([LPAREN, RPAREN, LANGLE, RANGLE, AT, COMMA, SEMICOLON, COLON, BACKSLASH, QUOTE, 47, LBRACKET,
        RBRACKET, 63, 61].contains b)

/-- The type and the subtype, in small letters. -/
def parseMediaType (input : Bytes) : Option Bytes :=
  let input := trimAscii input
  match input.findIdx? (· == 47) with
  | none => none
  | some slash =>
    let mainType := input.take slash
    let subtype := input.drop (slash + 1)
    if mainType.isEmpty || subtype.isEmpty then none
    else if !isMimeToken mainType || !isMimeToken subtype then none
    else some (mainType.map toAsciiLowercase ++ 47 :: subtype.map toAsciiLowercase)

/-- The disposition, in small letters. -/
def parseDispositionType (input : Bytes) : Option Bytes :=
  let input := trimAscii input
  if !isMimeToken input then none else some (input.map toAsciiLowercase)

/-! ### The two headers -/

/-- One parameter of a `Content-Type` field; the first boundary and the first name are kept. -/
def ParsedContentType.addParameter (parsed : ParsedContentType) (param : Bytes) :
    ParsedContentType :=
  match parseParameter param with
  | none => parsed
  | some (paramName, paramValue) =>
    if paramName = strBytes "boundary" ∧ parsed.boundary = none then
      if !paramValue.isEmpty ∧ paramValue.length ≤ maxBoundaryLen then
        { parsed with boundary := some paramValue }
      else parsed
    else if paramName = strBytes "name" ∧ parsed.name = none ∧ !paramValue.isEmpty then
      { parsed with name := some paramValue }
    else parsed

/-- `parse_content_type`. -/
def parseContentType (value : Bytes) : ParsedContentType :=
  match removeCommentsAndUnfold value with
  | none => ⟨none, none, none⟩
  | some cleaned =>
    match splitMimeParameters cleaned with
    | [] => ⟨none, none, none⟩
    | first :: parts =>
      parts.foldl ParsedContentType.addParameter ⟨parseMediaType first, none, none⟩

/-- A parameter that names the file. -/
def ParsedContentDisposition.addParameter (parsed : ParsedContentDisposition) (param : Bytes) :
    ParsedContentDisposition :=
  match parseParameter param with
  | none => parsed
  | some (paramName, paramValue) =>
    if paramName = strBytes "filename" ∧ parsed.filename = none ∧ !paramValue.isEmpty then
      { parsed with filename := some paramValue }
    else parsed

/-- `parse_content_disposition`. -/
def parseContentDisposition (value : Bytes) : ParsedContentDisposition :=
  match removeCommentsAndUnfold value with
  | none => ⟨none, none⟩
  | some cleaned =>
    match splitMimeParameters cleaned with
    | [] => ⟨none, none⟩
    | first :: parts =>
      parts.foldl ParsedContentDisposition.addParameter ⟨parseDispositionType first, none⟩

/-- The first `Content-Type` and the first `Content-Disposition` seen in the fields. -/
def contentHeaders (found : Option ParsedContentType × Option ParsedContentDisposition)
    (field : Field) : Option ParsedContentType × Option ParsedContentDisposition :=
  match field.name, field.value with
  | some name, some value =>
    if eqIgnoreAsciiCase name (strBytes "Content-Type") ∧ found.1 = none then
      (some (parseContentType value), found.2)
    else if eqIgnoreAsciiCase name (strBytes "Content-Disposition") ∧ found.2 = none then
      (found.1, some (parseContentDisposition value))
    else found
  | _, _ => found

/-- What the fields say about their part, and the boundary they give. -/
def partFromHeaders (fields : List Field) : MimePart × Option Bytes :=
  let found := fields.foldl contentHeaders (none, none)
  let ct := found.1.getD ⟨none, none, none⟩
  let cd := found.2.getD ⟨none, none⟩
  (⟨ct.mimetype, cd.disposition, cd.filename.or ct.name⟩, ct.boundary)

/-- The media type is a multipart one. -/
def MimePart.isMultipart (part : MimePart) : Bool :=
  part.mimetype.any fun mimetype => (strBytes "multipart/").isPrefixOf mimetype

/-! ### Delimiters -/

/-- `find_boundary` on the bytes that are left; the offset counts from there. -/
def findBoundaryFrom (delimiter : Bytes) (lineStart : Bool) : Bytes → Option Nat
  | [] => none
  | byte :: rest =>
    if lineStart && delimiter.isPrefixOf (byte :: rest) then some 0
    else (findBoundaryFrom delimiter (byte == LF) rest).map (· + 1)

/-- The search for the next delimiter. It starts at the beginning of the body or behind a line
feed, or at the end of the body, where nothing is found. -/
def findBoundary (rest delimiter : Bytes) : Option Nat :=
  if delimiter.isEmpty then none else findBoundaryFrom delimiter true rest

/-- `find_line_end`: what is left behind the next line feed. -/
def afterLineEnd (rest : Bytes) : Bytes := (rest.dropWhile (· != LF)).drop 1

/-- The bytes before a delimiter without the line ending that belongs to it. -/
def trimLineEnding (bytes : Bytes) : Bytes :=
  if bytes.getLast? = some LF then
    if bytes.dropLast.getLast? = some CR then bytes.dropLast.dropLast else bytes.dropLast
  else bytes

/-- The header of a part up to its blank line, and what follows. -/
def splitPartHeadersAndBody : Bytes → Bytes × Bytes
  | [] => ([], [])
  | byte :: rest =>
    if byte = LF ∧ rest.head? = some LF then (byte :: rest.take 1, rest.drop 1)
    else if byte = LF ∧ rest.head? = some CR ∧ rest.tail.head? = some LF then
      (byte :: rest.take 2, rest.drop 2)
    else
      let (headers, body) := splitPartHeadersAndBody rest
      (byte :: headers, body)

/-- The start of the line between two parts. -/
def delimiter (boundary : Bytes) : Bytes := DASH :: DASH :: boundary

/-! ### The traversal -/

section Visitors

variable {ε σ : Type}

/-- What is done for the body of a part that has been visited. -/
def walkInner (walk : Bytes → Bytes → Nat → σ → Except (StructuredVisitError ε) (Bool × Nat × σ))
    (header : MimePart × Option Bytes) (partBody : Bytes) (count : Nat) (s : σ) :
    Except (StructuredVisitError ε) (Bool × Nat × σ) :=
  match header.1.isMultipart, header.2 with
  | true, some innerBoundary => walk partBody innerBoundary count s
  | _, _ => .ok (false, count, s)

/-- The loop over the delimiters of one body, from the start of a part on. Every round takes at
least a delimiter, so the length of the body is enough fuel. -/
def walkParts (walk : Bytes → Bytes → Nat → σ → Except (StructuredVisitError ε) (Bool × Nat × σ))
    (visit : σ → MimePart → Except ε (Bool × σ)) (boundary : Bytes) :
    Nat → Bytes → Nat → σ → Except (StructuredVisitError ε) (Bool × Nat × σ)
  | 0, _, count, s => .ok (false, count, s)
  | fuel + 1, rest, count, s =>
    match findBoundary rest (delimiter boundary) with
    | none => .ok (false, count, s)
    | some next =>
      let (partHeaders, partBody) := splitPartHeadersAndBody (trimLineEnding (rest.take next))
      if count + 1 > maxMimeParts then .error (.Header workLimitError)
      else
        let header := partFromHeaders (rawFields partHeaders)
        match visit s header.1 with
        | .error e => .error (.Visitor e)
        | .ok (true, s) => .ok (true, count + 1, s)
        | .ok (false, s) =>
          match walkInner walk header partBody (count + 1) s with
          | .error e => .error e
          | .ok (true, count, s) => .ok (true, count, s)
          | .ok (false, count, s) =>
            let afterDelim := rest.drop (next + (delimiter boundary).length)
            if [DASH, DASH].isPrefixOf afterDelim then .ok (false, count, s)
            else walkParts walk visit boundary fuel (afterLineEnd afterDelim) count s

/-- `walk_multipart` with the levels that are left: at `levels = 0` the depth is over the limit. -/
def walkMultipart (visit : σ → MimePart → Except ε (Bool × σ)) :
    Nat → Bytes → Bytes → Nat → σ → Except (StructuredVisitError ε) (Bool × Nat × σ)
  | 0, _, _, count, s => .ok (false, count, s)
  | levels + 1, body, boundary, count, s =>
    if boundary.isEmpty then .ok (false, count, s)
    else
      match findBoundary body (delimiter boundary) with
      | none => .ok (false, count, s)
      | some first =>
        let afterFirst := body.drop (first + (delimiter boundary).length)
        if [DASH, DASH].isPrefixOf afterFirst then .ok (false, count, s)
        else
          walkParts (walkMultipart visit levels) visit boundary body.length (afterLineEnd afterFirst)
            count s

/-- Visits the message and its parts in order until one visit returns `true`. -/
def anyMimePart (rootHeader : List Field) (body : Bytes)
    (visit : σ → MimePart → Except ε (Bool × σ)) (s : σ) :
    Except (StructuredVisitError ε) (Bool × σ) :=
  let root := partFromHeaders rootHeader
  if 1 > maxMimeParts then .error (.Header workLimitError)
  else
    match visit s root.1 with
    | .error e => .error (.Visitor e)
    | .ok (true, s) => .ok (true, s)
    | .ok (false, s) =>
      match walkInner (walkMultipart visit maxMimeDepth) root body 1 s with
      | .error e => .error e
      | .ok (found, _, s) => .ok (found, s)

end Visitors

end ProcmailRs
