import ProcmailRs.Mime
import ProcmailRs.Proofs.AddressCommentProofs

/-!
# The spellings of a file name

How a sender may write the file name of a part: as a token, as a quoted string, as an extended value
with a character set and percent signs, or in numbered segments. Comments and folding whitespace may
stand between any two tokens. This is what the parser of the two content headers is meant to read.
-/

namespace ProcmailRs

/-! ### Parameters -/

/-- Comments and whitespace between two tokens. -/
inductive Gap : Bytes → Prop
  | nil : Gap []
  | space {byte : UInt8} {gap : Bytes} (hbyte : isAsciiWhitespace byte = true) (h : Gap gap) :
      Gap (byte :: gap)
  | comment {comment gap : Bytes} (hcomment : Nesting.Nested commentMarks comment) (h : Gap gap) :
      Gap (comment ++ gap)

/-- A parameter as it is written, with the gaps around its name and its value. -/
structure Parameter where
  before : Bytes
  name : Bytes
  afterName : Bytes
  beforeValue : Bytes
  value : Bytes
  after : Bytes
  gaps : Gap before ∧ Gap afterName ∧ Gap beforeValue ∧ Gap after
  name_token : isMimeToken name = true
  value_text : value = [] ∨ isMimeToken value = true ∨ Quoting.Quoted marks value

namespace Parameter

/-- A parameter as it is written. -/
def text (p : Parameter) : Bytes :=
  p.before ++ p.name ++ p.afterName ++ 61 :: (p.beforeValue ++ p.value ++ p.after)

/-- The name without the number of a segment and without the mark of an extended value. -/
def key (p : Parameter) : Bytes := (p.name.takeWhile (· != 42)).map toAsciiLowercase

end Parameter

/-- The value of a content header. -/
def contentText (head : Bytes) (parameters : List Parameter) : Bytes :=
  head ++ parameters.flatMap fun p => SEMICOLON :: p.text

/-- The parameters of one key. -/
def named (key : Bytes) (parameters : List Parameter) : List Parameter :=
  parameters.filter fun p => p.key == key

/-! ### Values -/

/-- The text between quotation marks that stands for the name, with backslashes where there must be
some or may be some. -/
inductive QuotedText : Bytes → Bytes → Prop
  | nil : QuotedText [] []
  | plain {byte : UInt8} {text name : Bytes} (h : QuotedText text name) (hquote : byte ≠ QUOTE)
      (hescape : byte ≠ BACKSLASH) : QuotedText (byte :: text) (byte :: name)
  | escaped {byte : UInt8} {text name : Bytes} (h : QuotedText text name) :
      QuotedText (BACKSLASH :: byte :: text) (byte :: name)

/-- A token or a quoted string. -/
inductive PlainText : Bytes → Bytes → Prop
  | token {name : Bytes} (h : isMimeToken name = true) : PlainText name name
  | quoted {text name : Bytes} (h : QuotedText text name) :
      PlainText (QUOTE :: (text ++ [QUOTE])) name

/-- A digit of a percent escape, in upper or in lower case. -/
def hexDigit (upper : Bool) (nibble : UInt8) : UInt8 :=
  if nibble < 10 then 48 + nibble else if upper then 55 + nibble else 87 + nibble

/-- A byte that needs no percent sign in an extended value. -/
def isAttributeChar (b : UInt8) : Bool := isMimeToken [b] && !([42, 39, 37].contains b)

/-- The text that stands for the name with any of its bytes behind a percent sign. -/
inductive PercentText : Bytes → Bytes → Prop
  | nil : PercentText [] []
  | plain {byte : UInt8} {text name : Bytes} (hbyte : isAttributeChar byte = true)
      (h : PercentText text name) : PercentText (byte :: text) (byte :: name)
  | encoded {byte : UInt8} {text name : Bytes} (high low : Bool) (h : PercentText text name) :
      PercentText (37 :: hexDigit high (byte >>> 4) :: hexDigit low (byte &&& 15) :: text)
        (byte :: name)

/-- An extended value: the character set, the language and the bytes of the name. -/
def ExtendedText (text name : Bytes) : Prop :=
  ∃ charset language payload, text = charset ++ 39 :: (language ++ 39 :: payload) ∧
    charset.all isAttributeChar = true ∧ language.all isAttributeChar = true ∧
    PercentText payload name

/-! ### Spellings -/

/-- The name in one parameter. -/
inductive WholeSpelling (key name : Bytes) (p : Parameter) : Prop
  | plain (hname : p.name.map toAsciiLowercase = key) (h : PlainText p.value name)
  | extended (hname : p.name.map toAsciiLowercase = key ++ [42])
      (h : ExtendedText p.value name)

/-- The segments of the name from a number on. The first one has the character set and the language,
if it is an extended one. -/
inductive Segments (key : Bytes) : Nat → List Parameter → Bytes → Prop
  | nil (number : Nat) : Segments key number [] []
  | plain {number : Nat} {p : Parameter} {rest : List Parameter} {piece name : Bytes}
      (hname : p.name.map toAsciiLowercase = key ++ 42 :: strBytes (toString number))
      (hpiece : PlainText p.value piece) (h : Segments key (number + 1) rest name) :
      Segments key number (p :: rest) (piece ++ name)
  | extended {number : Nat} {p : Parameter} {rest : List Parameter} {piece name : Bytes}
      (hname : p.name.map toAsciiLowercase =
        key ++ 42 :: (strBytes (toString number) ++ [42]))
      (hpiece : if number = 0 then ExtendedText p.value piece else PercentText p.value piece)
      (h : Segments key (number + 1) rest name) :
      Segments key number (p :: rest) (piece ++ name)

/-- The parameters of the key spell the name, in one of them or in segments in any order. -/
inductive Spelled (key name : Bytes) (parameters : List Parameter) : Bool → Prop
  | whole {p : Parameter} (hone : named key parameters = [p])
      (h : WholeSpelling key name p) : Spelled key name parameters false
  | continued {segments : List Parameter} (hne : segments ≠ [])
      (hsegments : (named key parameters).Perm segments)
      (h : Segments key 0 segments name) : Spelled key name parameters true

/-! ### Headers -/

/-- The header field that the name is a parameter of. -/
inductive ContentField
  | Disposition
  | Type
  deriving DecidableEq, Repr

/-- The value of a field of that name. -/
def valueOf (name : String) (field : Field) : Option Bytes :=
  match field.name, field.value with
  | some fieldName, some value =>
    if eqIgnoreAsciiCase fieldName (strBytes name) then some value else none
  | _, _ => none

/-- The value of the first field of that name. -/
def firstValue (name : String) (fields : List Field) : Option Bytes :=
  fields.findSome? (valueOf name)

/-- The head of a content header: anything in which no semicolon stands outside of quoted strings and
comments. -/
def IsHead (head : Bytes) : Prop := Lexed (· == SEMICOLON) head

/-- The fields give the name: as the file name of the disposition or, where it has none, as the name of
the content type. -/
inductive GivesName (fields : List Field) (name : Bytes) : ContentField → Bool → Prop
  | disposition {head : Bytes} {parameters : List Parameter} {continued : Bool} (hhead : IsHead head)
      (hvalue : firstValue "Content-Disposition" fields = some (contentText head parameters))
      (h : Spelled (strBytes "filename") name parameters continued) :
      GivesName fields name .Disposition continued
  | contentType {head : Bytes} {parameters : List Parameter} {continued : Bool} (hhead : IsHead head)
      (hvalue : firstValue "Content-Type" fields = some (contentText head parameters))
      (h : Spelled (strBytes "name") name parameters continued)
      (habsent : ∀ value, firstValue "Content-Disposition" fields = some value →
        ∃ head parameters, IsHead head ∧ value = contentText head parameters ∧
          named (strBytes "filename") parameters = []) :
      GivesName fields name .Type continued

/-- A name that is not taken for an encoded-word. -/
def IsFileName (name : Bytes) : Prop := name ≠ [] ∧ ¬[61, 63] <:+: name

end ProcmailRs
