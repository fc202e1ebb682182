import ProcmailRs.HeaderText
import Mathlib.Data.List.Defs

/-!
# Header values

Generated header fields carry a configuration string: printable ASCII is written on one line, any
other text as folded RFC 2047 encoded-words. Extraction decodes such words again, strictly: a
malformed word, an unknown charset or a control character fails the whole value.
-/

namespace ProcmailRs

/-- A byte of an RFC 5322 field name: printable ASCII except the colon. -/
def isHeaderNameByte (b : UInt8) : Bool := (33 ≤ b && b ≤ 57) || (59 ≤ b && b ≤ 126)

/-- The name of a field. -/
def validateHeaderName (name : String) : Bool :=
  !(strBytes name).isEmpty && (strBytes name).all isHeaderNameByte

/-- A field name as the configuration parser accepts it. -/
structure HeaderName where
  text : String
  valid : validateHeaderName text = true

instance : DecidableEq HeaderName := fun a b =>
  decidable_of_iff (a.text = b.text) (by cases a; cases b; simp)

/-- The bytes of a name. -/
def HeaderName.bytes (name : HeaderName) : Bytes := strBytes name.text

/-- How long a line of a header may be. -/
def rfc5322HeaderLineLimit : Nat := 998

/-- How long a line with an encoded word may be. -/
def rfc2047HeaderLineLimit : Nat := 76

/-- How many bytes of text an encoded word may have. -/
def rfc2047InputChunk : Nat := 45

/-- `b"=?UTF-8?B?"`. -/
def encodedWordPrefix : Bytes := [61, 63, 85, 84, 70, 45, 56, 63, 66, 63]

/-- `b"?="`. -/
def encodedWordSuffix : Bytes := [63, 61]

/-- Why a field cannot be generated. -/
inductive GeneratedHeaderError
  | InvalidValue
  | LineTooLong
  | SizeOverflow
  deriving DecidableEq, Repr

/-- How the value of a generated field is written. -/
inductive GeneratedHeaderEncoding
  | Ascii
  | Rfc2047
  deriving DecidableEq, Repr

/-- Why encoded words cannot be read. -/
inductive DecodedHeaderError
  | MalformedWord
  | UnsupportedCharset
  | UnsupportedEncoding
  | InvalidText
  | TooLong
  deriving DecidableEq, Repr

/-- `char::is_control`: the general category `Cc`. -/
def isControl (c : Char) : Bool := c.toNat < 32 || (127 ≤ c.toNat && c.toNat < 160)

/-- `char::is_ascii_graphic`. -/
def isAsciiGraphic (c : Char) : Bool := 33 ≤ c.toNat && c.toNat ≤ 126

/-! ### Base64 -/

/-- The letter of a six-bit value. -/
def base64Char (value : UInt8) : UInt8 :=
  if value < 26 then value + 65
  else if value < 52 then value - 26 + 97
  else if value < 62 then value - 52 + 48
  else if value = 62 then 43
  else 47

/-- The letters of a byte string, three bytes at a time, padded with `=`. -/
def appendBase64 : Bytes → Bytes
  | [] => []
  | [first] => [base64Char (first >>> 2), base64Char ((first &&& 3) <<< 4), 61, 61]
  | [first, second] =>
    [base64Char (first >>> 2), base64Char (((first &&& 3) <<< 4) ||| (second >>> 4)),
      base64Char ((second &&& 15) <<< 2), 61]
  | first :: second :: third :: rest =>
    base64Char (first >>> 2) :: base64Char (((first &&& 3) <<< 4) ||| (second >>> 4)) ::
      base64Char (((second &&& 15) <<< 2) ||| (third >>> 6)) :: base64Char (third &&& 63) ::
      appendBase64 rest

/-- The six bits of a character of base64. -/
def base64Value (byte : UInt8) : Except DecodedHeaderError UInt8 :=
  if 65 ≤ byte ∧ byte ≤ 90 then .ok (byte - 65)
  else if 97 ≤ byte ∧ byte ≤ 122 then .ok (byte - 97 + 26)
  else if 48 ≤ byte ∧ byte ≤ 57 then .ok (byte - 48 + 52)
  else if byte = 43 then .ok 62
  else if byte = 47 then .ok 63
  else .error .MalformedWord

/-- One group of four letters; `last` says that no other group follows. -/
def decodeBase64Group (last : Bool) (c0 c1 c2 c3 : UInt8) : Except DecodedHeaderError Bytes := do
  let a ← base64Value c0
  let b ← base64Value c1
  let c ← if c2 = 61 then (if !last || c3 != 61 then .error .MalformedWord else .ok 0)
    else base64Value c2
  let d ← if c3 = 61 then (if !last then .error .MalformedWord else .ok 0) else base64Value c3
  if (c2 = 61 ∧ b &&& 15 ≠ 0) ∨ (c3 = 61 ∧ c &&& 3 ≠ 0) then .error .MalformedWord
  else .ok (((a <<< 2) ||| (b >>> 4)) ::
    ((if c2 ≠ 61 then [(b <<< 4) ||| (c >>> 2)] else []) ++
      (if c3 ≠ 61 then [(c <<< 6) ||| d] else [])))

/-- The groups of a text whose length is a multiple of four. -/
def decodeBase64Groups : Bytes → Except DecodedHeaderError Bytes
  | c0 :: c1 :: c2 :: c3 :: rest => do
    let group ← decodeBase64Group rest.isEmpty c0 c1 c2 c3
    let tail ← decodeBase64Groups rest
    .ok (group ++ tail)
  | _ => .ok []

/-- The bytes of a base64 text, in groups of four. -/
def decodeBase64 (input : Bytes) : Except DecodedHeaderError Bytes :=
  if input.length % 4 ≠ 0 then .error .MalformedWord else decodeBase64Groups input

/-! ### Decoding -/

/-- The value of a hexadecimal digit. -/
def hexValue (byte : UInt8) : Option UInt8 :=
  if 48 ≤ byte ∧ byte ≤ 57 then some (byte - 48)
  else if 97 ≤ byte ∧ byte ≤ 102 then some (byte - 97 + 10)
  else if 65 ≤ byte ∧ byte ≤ 70 then some (byte - 65 + 10)
  else none

/-- The bytes of a text in the `Q` encoding. -/
def decodeQ : Bytes → Except DecodedHeaderError Bytes
  | [] => .ok []
  | byte :: rest =>
    if byte = 95 then (decodeQ rest).map (SP :: ·)
    else if byte = 61 then
      match rest with
      | high :: low :: rest =>
        match hexValue high, hexValue low with
        | some h, some l => (decodeQ rest).map (((h <<< 4) ||| l) :: ·)
        | _, _ => .error .MalformedWord
      | _ => .error .MalformedWord
    else if 33 ≤ byte ∧ byte ≤ 126 then (decodeQ rest).map (byte :: ·)
    else .error .MalformedWord

/-- The text in UTF-8, from one of the charsets that are known. -/
def transcode (charset input : Bytes) : Except DecodedHeaderError Bytes :=
  if eqIgnoreAsciiCase charset (strBytes "UTF-8") then
    if (utf8Chars? input).isSome then .ok input else .error .InvalidText
  else if eqIgnoreAsciiCase charset (strBytes "US-ASCII") then
    if input.any (127 < ·) then .error .InvalidText else .ok input
  else if eqIgnoreAsciiCase charset (strBytes "ISO-8859-1") then
    .ok (utf8 (input.map fun byte => Char.ofNat byte.toNat))
  else .error .UnsupportedCharset

/-- `BoundedBytes::try_extend`: nothing is appended when the limit would be exceeded. -/
def tryExtend (output : Bytes) (limit : Nat) (value : Bytes) : Option Bytes :=
  match checkedAdd output.length value.length with
  | none => none
  | some newLen => if newLen > limit then none else some (output ++ value)

/-- Adds a text of printable characters within the limit. -/
def appendDecodedText (output : Bytes) (limit : Nat) (text : Bytes) :
    Except DecodedHeaderError Bytes :=
  match utf8Chars? text with
  | none => .error .InvalidText
  | some chars =>
    if chars.any (fun c => c != '\t' && isControl c) then .error .InvalidText
    else
      match tryExtend output limit text with
      | none => .error .TooLong
      | some output => .ok output

/-- The first position at which the two bytes stand side by side. -/
def findPair (a b : UInt8) : Bytes → Option Nat
  | x :: y :: rest =>
    if x = a ∧ y = b then some 0 else (findPair a b (y :: rest)).map (· + 1)
  | _ => none

/-- Where the next encoded word may begin. -/
def findEncodedWord (input : Bytes) : Option Nat := findPair 61 63 input

/-- One encoded-word at the start of the input: the bytes it takes and its text. -/
def decodeWord (input : Bytes) : Except DecodedHeaderError (Nat × Bytes) :=
  match (input.drop 2).findIdx? (· == 63) with
  | none => .error .MalformedWord
  | some firstOffset =>
    let first := firstOffset + 2
    match (input.drop (first + 1)).findIdx? (· == 63) with
    | none => .error .MalformedWord
    | some secondOffset =>
      let second := first + 1 + secondOffset
      let encodedStart := second + 1
      match findPair 63 61 (input.drop encodedStart) with
      | none => .error .MalformedWord
      | some endOffset =>
        let stop := encodedStart + endOffset + 2
        if stop > 75 then .error .MalformedWord
        else
          let charset := (input.take first).drop 2
          let encoding := (input.take second).drop (first + 1)
          let encoded := (input.take (stop - 2)).drop encodedStart
          if charset.isEmpty || encoding.length != 1 || encoded.isEmpty || encoded.contains 63 then
            .error .MalformedWord
          else do
            let letter := toAsciiUppercase (encoding.headD 0)
            let bytes ←
              if letter = 66 then decodeBase64 encoded
              else if letter = 81 then decodeQ encoded
              else .error .UnsupportedEncoding
            let text ← transcode charset bytes
            .ok (stop, text)

/-- The loop of `decode_rfc2047` on the input that is left. Every round consumes at least one byte,
so the length of the input is enough fuel. -/
def decodeRfc2047From (limit : Nat) : Nat → Bytes → Bool → Bytes → Except DecodedHeaderError Bytes
  | 0, output, _, _ => .ok output
  | fuel + 1, output, previousEncoded, input =>
    if input.isEmpty then .ok output
    else if [61, 63].isPrefixOf input then do
      let (stop, decoded) ← decodeWord input
      let output ← appendDecodedText output limit decoded
      decodeRfc2047From limit fuel output true (input.drop stop)
    else
      let next := (findEncodedWord input).getD input.length
      let text := input.take next
      -- Whitespace between adjacent encoded-words is presentation folding.
      if previousEncoded && next < input.length && text.all isBlank then
        decodeRfc2047From limit fuel output previousEncoded (input.drop next)
      else do
        let output ← appendDecodedText output limit text
        decodeRfc2047From limit fuel output false (input.drop next)

/-- `decode_rfc2047`: the text with its encoded words decoded. -/
def decodeRfc2047 (input : Bytes) (limit : Nat) : Except DecodedHeaderError Bytes :=
  decodeRfc2047From limit input.length [] false input

/-! ### Generated fields -/

/-- The scan for characters that need an encoding; `nonAscii` says that one has been seen. -/
def scanGeneratedValue (nonAscii : Bool) : List Char → Except GeneratedHeaderError Bool
  | [] => .ok nonAscii
  | c :: rest =>
    if c = '\t' || isAsciiGraphic c || c = ' ' then scanGeneratedValue nonAscii rest
    else if isControl c then .error .InvalidValue
    else scanGeneratedValue true rest

/-- How a value is to be written, if it can be. -/
def validateGeneratedHeaderValue (name value : String) :
    Except GeneratedHeaderError GeneratedHeaderEncoding := do
  let nonAscii ← scanGeneratedValue false value.toList
  if nonAscii then .ok .Rfc2047
  else
    match (checkedAdd (strBytes name).length 2).bind (checkedAdd · (strBytes value).length) with
    | none => .error .SizeOverflow
    | some lineSize =>
      if lineSize > rfc5322HeaderLineLimit then .error .LineTooLong else .ok .Ascii

/-- The canonical spelling of a name: upper case at the beginning and after a hyphen. -/
def canonicalHeaderName (beginning : Bool) : Bytes → Bytes
  | [] => []
  | byte :: rest =>
    (if beginning then toAsciiUppercase byte else toAsciiLowercase byte) ::
      canonicalHeaderName (byte == 45) rest

/-- `append_canonical_header_name` on an empty buffer. -/
def appendCanonicalHeaderName (name : String) : Bytes := canonicalHeaderName true (strBytes name)

/-- The field on one line. -/
def serializeAscii (name value : String) (lineEnding : LineEnding) :
    Except GeneratedHeaderError Bytes :=
  match ((checkedAdd (strBytes name).length 2).bind (checkedAdd · (strBytes value).length)).bind
      (checkedAdd · lineEnding.bytes.length) with
  | none => .error .SizeOverflow
  | some _ =>
    .ok (appendCanonicalHeaderName name ++ ([COLON, SP] ++ (strBytes value ++ lineEnding.bytes)))

/-- The value cut into pieces of at most 45 bytes that end at character boundaries, each as long as
possible. -/
def rfc2047Chunks (current : List Char) (size : Nat) : List Char → List (List Char)
  | [] => if current.isEmpty then [] else [current]
  | c :: rest =>
    if size + c.utf8Size ≤ rfc2047InputChunk then
      rfc2047Chunks (current ++ [c]) (size + c.utf8Size) rest
    else current :: rfc2047Chunks [c] c.utf8Size rest

/-- The encoded word of a chunk. -/
def encodedWord (chunk : List Char) : Bytes :=
  encodedWordPrefix ++ (appendBase64 (utf8 chunk) ++ encodedWordSuffix)

/-- The words of a generated value behind the field written so far. Every word stands on a line of
its own, except the first one when it fits behind the name. -/
def appendEncodedWords (lineEnding : LineEnding) (first : Bool) (field : Bytes) :
    List (List Char) → Bytes
  | [] => field
  | chunk :: rest =>
    let word := encodedWord chunk
    let fitsFirstLine := first && field.length + 1 + word.length ≤ rfc2047HeaderLineLimit
    let separated := field ++ ((if fitsFirstLine then [] else lineEnding.bytes) ++ [SP])
    appendEncodedWords lineEnding false (separated ++ word) rest

/-- The field with its value in encoded words, folded between them. -/
def serializeRfc2047 (name value : String) (lineEnding : LineEnding) : Bytes :=
  appendEncodedWords lineEnding true (appendCanonicalHeaderName name ++ [COLON])
    (rfc2047Chunks [] 0 value.toList) ++ lineEnding.bytes

/-- `serialize_generated_header`. -/
def serializeGeneratedHeader (name value : String) (lineEnding : LineEnding) :
    Except GeneratedHeaderError Bytes := do
  match ← validateGeneratedHeaderValue name value with
  | .Ascii => serializeAscii name value lineEnding
  | .Rfc2047 => .ok (serializeRfc2047 name value lineEnding)

end ProcmailRs
