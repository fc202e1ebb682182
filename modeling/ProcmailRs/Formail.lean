import ProcmailRs.Delivery.Mbox
import ProcmailRs.HeaderEdit.Pattern
import ProcmailRs.Message
import ProcmailRs.Runtime

/-!
# The stand-alone header editor

`formail-rs` reads a message from its input, edits the header as its options say, and writes the
message with a postmark line in front, or what its extraction options ask for. The body is copied while
it is read; lines that look like a postmark are quoted.

The clock, the host name and the generated postmark are parameters. What is modelled of the output are
the bytes of a run that succeeds.
-/

namespace ProcmailRs.Formail

/-- What `formail-rs` is asked to do. -/
structure Options where
  forceFormat : Bool
  escapeBogus : Bool
  quotePrefix : Bytes
  concatenate : Bool
  zap : Bool
  keepBody : Bool
  renameRules : List (Bytes × Bytes)
  prefixRules : List Bytes
  deleteRules : List Bytes
  uniqueFirst : List Bytes
  uniqueLast : List Bytes
  addIfNot : List Bytes
  addAlways : List Bytes
  extractValues : List Bytes
  extractFields : List Bytes
  deriving DecidableEq, Repr

/-- Nothing is asked for. -/
def Options.default : Options :=
  { forceFormat := false
    escapeBogus := true
    quotePrefix := strBytes ">"
    concatenate := false
    zap := false
    keepBody := false
    renameRules := []
    prefixRules := []
    deleteRules := []
    uniqueFirst := []
    uniqueLast := []
    addIfNot := []
    addAlways := []
    extractValues := []
    extractFields := [] }

/-- Fields are printed, not the message. -/
def Options.isExtracting (options : Options) : Bool :=
  !options.extractValues.isEmpty || !options.extractFields.isEmpty

/-- The arguments that name or give header fields. -/
def Options.headerArguments (options : Options) : List Bytes :=
  options.renameRules.map Prod.fst ++ options.renameRules.map Prod.snd ++ options.prefixRules ++
    options.deleteRules ++ options.uniqueFirst ++ options.uniqueLast ++ options.addIfNot ++
    options.addAlways

/-- What a run takes from outside: `Postmark::generated` for the current time, the seconds of the
clock at each generated identifier, the process and the name of the host, which is one line. -/
structure Environment where
  postmark : Except String Mbox.Postmark
  seconds : Nat → Nat
  pid : Nat
  hostname : Bytes
  hostname_ne_LF : ∀ b ∈ hostname, b ≠ LF

/-- Why `formail-rs` fails. -/
inductive FormailError
  | ReadMessage (error : MessageReadError)
  | ParseHeaders (error : HeaderEditError)
  | RenameHeader (error : HeaderEditError)
  | AddMessageId (error : HeaderEditError)
  | AddHeader (error : HeaderEditError)
  | ConcatenateHeaders (error : HeaderEditError)
  | ZapWhitespace (error : HeaderEditError)
  | InvalidHeader (error : HeaderEditError)
  | GeneratePostmark (error : String)
  | Read (error : String)
  | Write (error : String)
  deriving DecidableEq, Repr

namespace FormailError

/-- The text in front of the error itself. -/
def context : FormailError → String
  | ReadMessage _ => "formail-rs: failed to read message: "
  | ParseHeaders _ => "formail-rs: failed to parse headers: "
  | RenameHeader _ => "formail-rs: header rename failed: "
  | AddMessageId _ => "formail-rs: failed to add message-id: "
  | AddHeader _ => "formail-rs: failed to add header: "
  | ConcatenateHeaders _ => "formail-rs: failed to concatenate headers: "
  | ZapWhitespace _ => "formail-rs: failed to zap whitespace: "
  | InvalidHeader _ => "formail-rs: invalid header after modification: "
  | GeneratePostmark _ => "formail-rs: failed to generate postmark: "
  | Read _ => "formail-rs: read error: "
  | Write _ => "formail-rs: write error: "

/-- `EX_DATAERR`, `EX_SOFTWARE` or `EX_IOERR`. -/
def exitCode : FormailError → Nat
  | GeneratePostmark _ => 70
  | Read _ => 74
  | Write _ => 74
  | _ => 65

end FormailError

/-! ### The header -/

/-- The name of a field with its colon, and the value if one is given. -/
def splitFieldNameAndValue (field : Bytes) : Bytes × Option Bytes :=
  match field.findIdx? (· == COLON) with
  | some colon =>
    let value := field.drop (colon + 1)
    if (stripLineEnding value).any fun b => !isBlank b then (field.take (colon + 1), some value)
    else (field.take (colon + 1), none)
  | none => (field, none)

/-- The pattern means a message id. -/
def isMessageIdPattern (pattern : Bytes) : Bool :=
  let clean := (stripColon pattern).getD pattern
  eqIgnoreAsciiCase clean (strBytes "Message-ID") ||
    eqIgnoreAsciiCase clean (strBytes "Resent-Message-ID")

/-- The identifier field number `counter` of the process. -/
def generateMessageId (env : Environment) (counter : Nat) (pattern : Bytes) : Bytes :=
  let headerName :=
    if (strBytes "resent-").isPrefixOf (pattern.map toAsciiLowercase) then "Resent-Message-ID"
    else "Message-ID"
  strBytes headerName ++ strBytes ": <" ++ decimal (env.seconds counter) ++ strBytes "." ++
    decimal env.pid ++ strBytes "." ++ decimal counter ++ strBytes "@" ++ env.hostname ++
    strBytes ">\n"

/-- One `-a` argument; the state has the number of the next generated identifier. -/
def addIfNotPresent (env : Environment) (state : EditedHeader × Nat) (raw : Bytes) :
    Except FormailError (EditedHeader × Nat) :=
  let (header, counter) := state
  let (pattern, value) := splitFieldNameAndValue raw
  if header.hasMatchingPattern pattern then .ok state
  else if value.isNone && isMessageIdPattern pattern then do
    let header ← (header.addRawField (generateMessageId env counter pattern)).mapError .AddMessageId
    .ok (header, counter + 1)
  else do
    let header ← (header.addRawField raw).mapError .AddHeader
    .ok (header, counter)

/-- An edit that an option asks for. -/
def editWhen (option : Bool) (edit : EditedHeader → Except HeaderEditError EditedHeader)
    (wrap : HeaderEditError → FormailError) (header : EditedHeader) :
    Except FormailError EditedHeader :=
  if option then (edit header).mapError wrap else .ok header

open EditedHeader in
/-- The edits in the order of the program, before the header is checked. -/
def editHeader (env : Environment) (options : Options) (header : EditedHeader) :
    Except FormailError EditedHeader := do
  let header ← (options.renameRules.foldlM
    (fun (header : EditedHeader) rule => header.renameMatchingPattern rule.1 rule.2)
    header).mapError .RenameHeader
  let header ← (options.prefixRules.foldlM
    (fun (header : EditedHeader) pattern => header.prependPrefixToMatching pattern (strBytes "Old-"))
    header).mapError .RenameHeader
  let header := options.deleteRules.foldl EditedHeader.removeMatchingPattern header
  let header := options.uniqueFirst.foldl EditedHeader.makeUniqueFirst header
  let header := options.uniqueLast.foldl EditedHeader.makeUniqueLast header
  let (header, _) ← options.addIfNot.foldlM (addIfNotPresent env) (header, 1)
  let header ← (options.addAlways.foldlM EditedHeader.addRawField header).mapError .AddHeader
  let header ←
    editWhen options.concatenate concatenateContinuedFields .ConcatenateHeaders header
  editWhen options.zap zapWhitespace .ZapWhitespace header

/-- The edited and checked header, and the reader of the body behind the original one. -/
def processHeader (env : Environment) (options : Options) (stdin : Reader) :
    Except FormailError (EditedHeader × Reader) := do
  let limits := MessageLimits.default
  let (head, stdin) ← (Message.readHeaders stdin limits).mapError .ReadMessage
  let header ← (EditedHeader.new (.Raw head.asBytes) limits).mapError .ParseHeaders
  let header ← editHeader env options header
  let header ← (header.finish 0).mapError .InvalidHeader
  .ok (header, stdin)

/-! ### The body -/

/-- The copying of a body: `held` is the beginning of a line that may still become a `From ` line. -/
structure BodyStream where
  atLineStart : Bool
  held : Bytes
  written : Bytes
  deriving DecidableEq, Repr

/-- How many `>` a quoted line may begin with. -/
def maxQuotes : Nat := 1024

namespace BodyStream

/-- Before the first line. -/
def start : BodyStream := ⟨true, [], []⟩

/-- The line is no `From ` line: what was held back is written. -/
def flush (stream : BodyStream) : BodyStream := ⟨false, [], stream.written ++ stream.held⟩

/-- A byte of a line whose beginning has been decided. -/
def inLine (stream : BodyStream) (byte : UInt8) : BodyStream :=
  { stream with written := stream.written ++ [byte], atLineStart := byte == LF }

/-- One byte of the input. The source writes the rest of a decided line at once. -/
def step (quotePrefix : Bytes) (stream : BodyStream) (byte : UInt8) : BodyStream :=
  if stream.atLineStart then
    let quotes := (stream.held.takeWhile (· == Mbox.GT)).length
    if quotes = stream.held.length ∧ byte = Mbox.GT then
      if stream.held.length < maxQuotes then { stream with held := stream.held ++ [byte] }
      -- excessive quoting ends the search for `From `
      else stream.flush.inLine byte
    else if fromSpace[stream.held.length - quotes]? = some byte then
      let held := stream.held ++ [byte]
      if held.length - quotes = fromSpace.length then
        ⟨false, [], stream.written ++ quotePrefix ++ held⟩
      else { stream with held := held }
    else stream.flush.inLine byte
  else stream.inLine byte

end BodyStream

/-- `io::copy`. -/
def copyBody : Reader → Except FormailError Bytes
  | .eof => .ok []
  | .failed error => .error (.Write error)
  | .chunk byte rest next => do
    let tail ← copyBody next
    .ok (byte :: rest ++ tail)

/-- The loop over the pieces of the input. -/
def quoteBody (quotePrefix : Bytes) (stream : BodyStream) : Reader → Except FormailError Bytes
  | .eof => .ok (stream.written ++ stream.held)
  | .failed error => .error (.Read error)
  | .chunk byte rest next =>
    quoteBody quotePrefix ((byte :: rest).foldl (BodyStream.step quotePrefix) stream) next

/-- The body as it is written. -/
def streamBody (escapeBogus : Bool) (quotePrefix : Bytes) (reader : Reader) :
    Except FormailError Bytes :=
  if !escapeBogus then copyBody reader else quoteBody quotePrefix .start reader

/-! ### The output -/

/-- The header brings a `From ` line of its own. -/
def hasFrom (edited : EditedHeader) : Bool :=
  edited.texts.head?.any fun text => fromSpace.isPrefixOf text

/-- The postmark line, when one is written. -/
def postmarkLine (env : Environment) (options : Options) (edited : EditedHeader) :
    Except FormailError Bytes :=
  if !hasFrom edited && !options.forceFormat then do
    let postmark ← env.postmark.mapError .GeneratePostmark
    .ok postmark.bytes
  else .ok []

/-- The bytes of the header with the line feed that is written behind one that does not end in a blank
line. -/
def framedHeader (edited : EditedHeader) : Bytes :=
  let bytes := edited.asBytes
  bytes ++ if !endsWith bytes [LF, LF] && !endsWith bytes [CR, LF, CR, LF] then [LF] else []

/-- The fields that are printed. -/
def extracted (options : Options) (edited : EditedHeader) : Bytes :=
  (options.extractValues.flatMap fun pattern =>
      edited.extractFields pattern false options.concatenate options.zap).flatten ++
    (options.extractFields.flatMap fun pattern =>
      edited.extractFields pattern true options.concatenate options.zap).flatten

/-- What a successful run writes. -/
def run (env : Environment) (options : Options) (stdin : Reader) : Except FormailError Bytes := do
  let (edited, stdin) ← processHeader env options stdin
  if options.isExtracting then
    if options.keepBody then do
      let body ← streamBody options.escapeBogus options.quotePrefix stdin
      .ok (extracted options edited ++ [LF] ++ body)
    else .ok (extracted options edited)
  else do
    let postmark ← postmarkLine env options edited
    let body ← streamBody options.escapeBogus options.quotePrefix stdin
    .ok (postmark ++ framedHeader edited ++ body)

end ProcmailRs.Formail
