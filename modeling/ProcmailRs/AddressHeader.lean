import ProcmailRs.StructuredHeader
import Mathlib.Data.List.DropRight

/-!
# Addresses of structured headers

An address condition is tested on every mailbox of the wanted fields. Comments and folding are
removed first, then the value is split at its top-level separators, and every element gives at most
one address: the local part as it is written, `@` and the domain in lower case. The scanners work on
bytes and keep their own quote, escape and bracket states.
-/

namespace ProcmailRs

/-- `"`. -/
abbrev QUOTE : UInt8 := 34

/-- `\`. -/
abbrev BACKSLASH : UInt8 := 92

/-- `(`. -/
abbrev LPAREN : UInt8 := 40

/-- `)`. -/
abbrev RPAREN : UInt8 := 41

/-- `<`. -/
abbrev LANGLE : UInt8 := 60

/-- `>`. -/
abbrev RANGLE : UInt8 := 62

/-- `[`. -/
abbrev LBRACKET : UInt8 := 91

/-- `]`. -/
abbrev RBRACKET : UInt8 := 93

/-- `,`. -/
abbrev COMMA : UInt8 := 44

/-- `;`. -/
abbrev SEMICOLON : UInt8 := 59

/-- `@`. -/
abbrev AT : UInt8 := 64

/-- The fields that hold addresses. -/
inductive AddressField
  | From
  | To
  | Cc
  | Sender
  | ReplyTo
  | DeliveredTo
  | XOriginalTo
  | EnvelopeTo
  | ResentFrom
  | ResentSender
  | ResentTo
  | ResentCc
  deriving DecidableEq, Repr

/-- The name of the field. -/
def AddressField.name : AddressField → HeaderName
  | .From => ⟨"From", by decide⟩
  | .To => ⟨"To", by decide⟩
  | .Cc => ⟨"Cc", by decide⟩
  | .Sender => ⟨"Sender", by decide⟩
  | .ReplyTo => ⟨"Reply-To", by decide⟩
  | .DeliveredTo => ⟨"Delivered-To", by decide⟩
  | .XOriginalTo => ⟨"X-Original-To", by decide⟩
  | .EnvelopeTo => ⟨"Envelope-To", by decide⟩
  | .ResentFrom => ⟨"Resent-From", by decide⟩
  | .ResentSender => ⟨"Resent-Sender", by decide⟩
  | .ResentTo => ⟨"Resent-To", by decide⟩
  | .ResentCc => ⟨"Resent-Cc", by decide⟩

/-! ### Comments and folding -/

/-- The state of `remove_comments_and_unfold`. -/
structure CommentScan where
  output : Bytes
  commentDepth : Nat
  quoted : Bool
  escaped : Bool
  pendingSpace : Bool
  deriving DecidableEq, Repr

namespace CommentScan

/-- Before the first byte. -/
def start : CommentScan := ⟨[], 0, false, false, false⟩

/-- The space that stands for the whitespace before the next byte. -/
def flushSpace (scan : CommentScan) : Bytes :=
  if scan.pendingSpace && !scan.output.isEmpty && !scan.quoted then scan.output ++ [SP]
  else scan.output

/-- One byte of the value. The depth cannot overflow: it is at most the length of the value. -/
def step (scan : CommentScan) (byte : UInt8) : CommentScan :=
  if scan.escaped then
    { scan with
      output := if scan.commentDepth = 0 then scan.output ++ [byte] else scan.output
      escaped := false }
  else if byte = BACKSLASH ∧ (scan.quoted ∨ scan.commentDepth > 0) then
    { scan with
      output := if scan.commentDepth = 0 then scan.output ++ [byte] else scan.output
      escaped := true }
  else if scan.commentDepth > 0 then
    if byte = LPAREN then { scan with commentDepth := scan.commentDepth + 1 }
    else if byte = RPAREN then { scan with commentDepth := scan.commentDepth - 1 }
    else scan
  else if !scan.quoted ∧ byte = LPAREN then { scan with commentDepth := 1 }
  else if byte = QUOTE then
    { scan with output := scan.flushSpace ++ [byte], pendingSpace := false, quoted := !scan.quoted }
  else if !scan.quoted ∧ isAsciiWhitespace byte then { scan with pendingSpace := true }
  else { scan with output := scan.flushSpace ++ [byte], pendingSpace := false }

/-- The scan of a value. -/
def run (input : Bytes) : CommentScan := input.foldl step start

end CommentScan

/-- The value without comments and with single spaces for its whitespace outside quoted strings;
nothing when a comment, a quoted string or an escape is still open at the end. -/
def removeCommentsAndUnfold (input : Bytes) : Option Bytes :=
  let scan := CommentScan.run input
  if scan.commentDepth = 0 ∧ !scan.quoted ∧ !scan.escaped then some scan.output else none

/-! ### The elements of a list -/

/-- The state of the separator test of `mailbox_elements`. -/
structure ListScan where
  quoted : Bool
  angle : Nat
  escaped : Bool
  deriving DecidableEq, Repr

/-- One byte of the list, and whether the list is split at it. -/
def ListScan.step (scan : ListScan) (byte : UInt8) : ListScan × Bool :=
  if scan.escaped then ({ scan with escaped := false }, false)
  else if scan.quoted ∧ byte = BACKSLASH then ({ scan with escaped := true }, false)
  else if byte = QUOTE then ({ scan with quoted := !scan.quoted }, false)
  else if !scan.quoted then
    if byte = LANGLE then ({ scan with angle := scan.angle + 1 }, false)
    else if byte = RANGLE then ({ scan with angle := scan.angle - 1 }, false)
    else (scan, (byte = COMMA ∨ byte = SEMICOLON) ∧ scan.angle = 0)
  else (scan, false)

/-- The elements that the remaining bytes give, when `current` holds the bytes of the element
already begun. -/
def mailboxElementsFrom (scan : ListScan) (current : Bytes) : Bytes → List Bytes
  | [] => [current]
  | byte :: rest =>
    let (scan, separator) := scan.step byte
    if separator then current :: mailboxElementsFrom scan [] rest
    else mailboxElementsFrom scan (current ++ [byte]) rest

/-- The mailboxes of a list, cut at the commas outside of quoted strings and brackets. -/
def mailboxElements (input : Bytes) : List Bytes := mailboxElementsFrom ⟨false, 0, false⟩ [] input

/-! ### One mailbox -/

/-- `find_unquoted` on the bytes that are left. -/
def findUnquotedFrom (wanted : UInt8) (quoted escaped : Bool) : Bytes → Option Nat
  | [] => none
  | byte :: rest =>
    if escaped then (findUnquotedFrom wanted quoted false rest).map (· + 1)
    else if quoted ∧ byte = BACKSLASH then
      (findUnquotedFrom wanted quoted true rest).map (· + 1)
    else if byte = QUOTE then (findUnquotedFrom wanted (!quoted) false rest).map (· + 1)
    else if !quoted ∧ byte = wanted then some 0
    else (findUnquotedFrom wanted quoted false rest).map (· + 1)

/-- Where a byte stands for the first time outside of quoted strings. -/
def findUnquoted (input : Bytes) (wanted : UInt8) : Option Nat :=
  findUnquotedFrom wanted false false input

/-- `trim_ascii`. -/
def trimAscii (value : Bytes) : Bytes :=
  (value.dropWhile isAsciiWhitespace).rdropWhile isAsciiWhitespace

/-- A byte of a dot-atom. -/
def isDotAtomByte (b : UInt8) : Bool :=
  (48 ≤ b && b ≤ 57) || (65 ≤ b && b ≤ 90) || (97 ≤ b && b ≤ 122) ||
    [33, 35, 36, 37, 38, 39, 42, 43, 45, 47, 61, 63, 94, 95, 96, 123, 124, 125, 126, 46].contains b

/-- Two dots stand side by side. -/
def hasDotPair : Bytes → Bool
  | a :: b :: rest => (a == 46 && b == 46) || hasDotPair (b :: rest)
  | _ => false

/-- Atoms with single dots between them. -/
def validDotAtom (value : Bytes) : Bool :=
  !value.isEmpty && value.head? != some 46 && value.getLast? != some 46 && !hasDotPair value &&
    value.all isDotAtomByte

/-- The test of the bytes between the quotes of a local part. -/
def validQuotedFrom (escaped : Bool) : Bytes → Bool
  | [] => !escaped
  | byte :: rest =>
    if escaped then (byte < 128 && byte != CR && byte != LF) && validQuotedFrom false rest
    else if byte = BACKSLASH then validQuotedFrom true rest
    else (byte < 128 && byte != QUOTE && byte != CR && byte != LF && byte != 0) &&
      validQuotedFrom false rest

/-- What stands between the first and the last byte. -/
def inner (value : Bytes) : Bytes := value.tail.dropLast

/-- The part in front of the `@`: a quoted string or atoms. -/
def validLocal (localPart : Bytes) : Bool :=
  if localPart.length ≥ 2 ∧ localPart.head? = some QUOTE ∧ localPart.getLast? = some QUOTE then
    validQuotedFrom false (inner localPart)
  else validDotAtom localPart

/-- The part behind the `@`: a literal in brackets or atoms. -/
def validDomain (domain : Bytes) : Bool :=
  if domain.length ≥ 2 ∧ domain.head? = some LBRACKET ∧ domain.getLast? = some RBRACKET then
    (inner domain).all fun byte =>
      isGraphicByte byte && byte != LBRACKET && byte != RBRACKET && byte != BACKSLASH
  else validDotAtom domain

/-- The state of the search for the structural at-sign in `normalize_addr_spec`. -/
structure AtScan where
  position : Option Nat
  quoted : Bool
  bracketed : Bool
  escaped : Bool
  deriving DecidableEq, Repr

/-- One byte of the search; a second structural at-sign ends it. -/
def AtScan.step (scan : AtScan) (index : Nat) (byte : UInt8) : Option AtScan :=
  if scan.escaped then some { scan with escaped := false }
  else if scan.quoted ∧ byte = BACKSLASH then some { scan with escaped := true }
  else if byte = QUOTE ∧ !scan.bracketed then some { scan with quoted := !scan.quoted }
  else if byte = LBRACKET ∧ !scan.quoted then some { scan with bracketed := true }
  else if byte = RBRACKET ∧ !scan.quoted then some { scan with bracketed := false }
  else if byte = AT ∧ !scan.quoted ∧ !scan.bracketed then
    if scan.position.isSome then none else some { scan with position := some index }
  else some scan

/-- The search over the bytes that are left; `index` bytes have been read. -/
def AtScan.run (scan : AtScan) (index : Nat) : Bytes → Option AtScan
  | [] => some scan
  | byte :: rest =>
    match scan.step index byte with
    | none => none
    | some scan => scan.run (index + 1) rest

/-- An address, with the domain in small letters, if it is one. -/
def normalizeAddrSpec (input : Bytes) : Option Bytes :=
  match AtScan.run ⟨none, false, false, false⟩ 0 input with
  | none => none
  | some scan =>
    if scan.quoted || scan.bracketed || scan.escaped then none
    else
      match scan.position with
      | none => none
      | some position =>
        let localPart := trimAscii (input.take position)
        let domain := trimAscii (input.drop (position + 1))
        if !validLocal localPart || !validDomain domain then none
        else some (localPart ++ AT :: domain.map toAsciiLowercase)

/-- The address of a mailbox, if it has one. -/
def normalizeMailbox (element : Bytes) : Option Bytes :=
  let element := trimAscii element
  if element.isEmpty then none
  else
    match findUnquoted element LANGLE with
    | some opening =>
      match findUnquoted (element.drop (opening + 1)) RANGLE with
      | none => none
      | some length =>
        if !(trimAscii (element.drop (opening + 1 + length + 1))).isEmpty then none
        else normalizeAddrSpec (trimAscii ((element.drop (opening + 1)).take length))
    | none =>
      let start := match findUnquoted element COLON with
        | some colon => colon + 1
        | none => 0
      normalizeAddrSpec (trimAscii (element.drop start))

/-! ### The addresses of a header -/

section Visitors

variable {ε σ : Type}

/-- The mailboxes of one field; `count` addresses have been visited before. -/
def visitMailboxes (visit : σ → Bytes → Except ε (Bool × σ)) :
    List Bytes → Nat → σ → Except (StructuredVisitError ε) (Bool × Nat × σ)
  | [], count, s => .ok (false, count, s)
  | element :: rest, count, s =>
    match normalizeMailbox element with
    | none => visitMailboxes visit rest count s
    | some address =>
      if count + 1 > maxStructuredHeaderValues then .error (.Header workLimitError)
      else
        match visit s address with
        | .error e => .error (.Visitor e)
        | .ok (true, s) => .ok (true, count + 1, s)
        | .ok (false, s) => visitMailboxes visit rest (count + 1) s

/-- Visits the addresses of the wanted fields in order until one visit returns `true`. -/
def anyAddress (fields : List Field) (wanted : List AddressField)
    (visit : σ → Bytes → Except ε (Bool × σ)) (s : σ) :
    Except (StructuredVisitError ε) (Bool × σ) :=
  let visitField (state : Nat × σ) (name value : Bytes) :
      Except (StructuredVisitError ε) (Bool × Nat × σ) :=
    if wanted.any fun field => eqIgnoreAsciiCase name field.name.bytes then
      match removeCommentsAndUnfold value with
      | none => .ok (false, state)
      | some value => visitMailboxes visit (mailboxElements value) state.1 state.2
    else .ok (false, state)
  match visitFields visitField fields (0, s) with
  | .error e => .error e
  | .ok (found, _, s) => .ok (found, s)

end Visitors

end ProcmailRs
