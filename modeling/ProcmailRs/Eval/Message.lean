import ProcmailRs.Delivery.Mbox
import ProcmailRs.Message

/-!
# The versions of a message during evaluation

Recipes see the mapped original until an action replaces it. A filter installs a whole message; a
header edit keeps the body of the version before it, and a body filter keeps an edited header. The
cached full view of a version depends on nothing but the version, so it is computed here where the
source looks it up.
-/

namespace ProcmailRs

/-- `ConditionInput`: the part of the message a condition reads. -/
inductive ConditionInput
  | Headers
  | Body
  | Message
  deriving DecidableEq, Repr

/-- Where the body is: that of the message as it came, or that of a filter's output. -/
inductive BodyBacking
  | Original (bytes : Bytes)
  | Filter (message : Message)
  deriving DecidableEq, Repr

/-- The body. -/
def BodyBacking.bytes : BodyBacking → Bytes
  | .Original bytes => bytes
  | .Filter message => message.body

/-- A message that has been changed: as a whole, or its header only. -/
inductive MessageVersion
  | Whole (message : Message)
  | Headers (head : MessageHead) (body : BodyBacking) (len : Nat)
  deriving DecidableEq, Repr

namespace MessageVersion

/-- The header for the editor. -/
def headerView : MessageVersion → HeaderView
  | Whole message => .Raw message.header
  | Headers head _ _ => head.headerView

/-- The bytes of the header. -/
def header : MessageVersion → Bytes
  | Whole message => message.header
  | Headers head _ _ => head.asBytes

/-- The header that conditions match. -/
def matchingHeader : MessageVersion → Bytes
  | Whole message => message.matchingHeader
  | Headers head _ _ => head.matching

/-- The body. -/
def body : MessageVersion → Bytes
  | Whole message => message.body
  | Headers _ body _ => body.bytes

/-- The size of the message. -/
def len : MessageVersion → Nat
  | Whole message => message.len
  | Headers _ _ len => len

/-- The status of the message. -/
def status : MessageVersion → MessageStatus
  | Whole _ => MessageStatus.none
  | Headers head _ _ => head.status

/-- The unfolded message in one range; a regex may cross the header/body boundary. -/
def full (version : MessageVersion) : Bytes :=
  match version with
  | Whole message =>
    if message.header = message.matchingHeader then message.asBytes
    else message.matchingHeader ++ message.body
  | Headers .. => version.matchingHeader ++ version.body

end MessageVersion

/-- What the evaluator reads: a replacement or the mapped original with its unfolded views. -/
inductive CompleteMessage
  | Owned (version : MessageVersion)
  | Mapped (raw : Bytes) (headerLen : Nat) (matchingHeader matchingRaw : Option Bytes)
  deriving DecidableEq, Repr

/-- The related lengths of the borrowed views. Unfolding can shorten the header, so the full view is
measured by its own pieces; it is mandatory whenever a changed header could otherwise be matched by
its delivery bytes. -/
def matchingViewsAreValid (rawLen headerLen : Nat) (matchingHeader matchingRaw : Option Bytes)
    (needsMatchingRaw : Bool) : Bool :=
  match matchingHeader, matchingRaw with
  | none, none => true
  | some _, none => !needsMatchingRaw
  | some header, some full =>
    (checkedAdd header.length (rawLen - headerLen)).any fun expected => expected == full.length
  | none, some _ => false

/-- The staged message: its bytes, the length of the header and, when it is folded, the unfolded
header with the unfolded message. -/
structure MappedMessageInput where
  raw : Bytes
  headerLen : Nat
  matching : Option (Bytes × Option Bytes)
  deriving DecidableEq, Repr

/-- The input `deliver_staged` maps for a message; the unfolded message is staged as well when the plan
matches it. -/
def MappedMessageInput.staged (message : Message) (needsFull : Bool) : MappedMessageInput :=
  ⟨message.asBytes, message.header.length, message.matching.map fun header =>
    (header, if needsFull then some (header ++ message.body) else none)⟩

/-- The message that is mapped, if the staged parts fit together. -/
def MappedMessageInput.completeMessage (input : MappedMessageInput) (needsMatchingRaw : Bool) :
    Option CompleteMessage :=
  if input.headerLen > input.raw.length then none
  else
    let matchingHeader := input.matching.map Prod.fst
    let matchingRaw := input.matching.bind Prod.snd
    if matchingViewsAreValid input.raw.length input.headerLen matchingHeader matchingRaw
        needsMatchingRaw then
      some (.Mapped input.raw input.headerLen matchingHeader matchingRaw)
    else none

/-- The message handed to delivery and commands. -/
inductive FinalMessage
  | Bytes (bytes : Bytes)
  | Version (version : MessageVersion)
  deriving DecidableEq, Repr

namespace FinalMessage

/-- The message that a delivery is given. -/
def new : CompleteMessage → FinalMessage
  | .Owned version => .Version version
  | .Mapped raw _ _ _ => .Bytes raw

/-- The size of the message. -/
def len : FinalMessage → Nat
  | .Bytes bytes => bytes.length
  | .Version version => version.len

/-- The header and the body. A message that was mapped is one piece. -/
def bytes : FinalMessage → MessageBytes
  | .Bytes bytes => ⟨bytes, []⟩
  | .Version version => ⟨version.header, version.body⟩

/-- The status of the message. -/
def status : FinalMessage → MessageStatus
  | .Bytes _ => MessageStatus.none
  | .Version version => version.status

end FinalMessage

namespace CompleteMessage

/-- The bytes of the header. -/
def rawHeader : CompleteMessage → Bytes
  | .Owned version => version.header
  | .Mapped raw headerLen _ _ => raw.take headerLen

/-- The header for the editor. -/
def headerView : CompleteMessage → HeaderView
  | .Owned version => version.headerView
  | .Mapped raw headerLen _ _ => .Raw (raw.take headerLen)

/-- The header that conditions match. -/
def headerBytes : CompleteMessage → Bytes
  | .Owned version => version.matchingHeader
  | .Mapped raw headerLen matchingHeader _ => matchingHeader.getD (raw.take headerLen)

/-- The body. -/
def body : CompleteMessage → Bytes
  | .Owned version => version.body
  | .Mapped raw headerLen _ _ => raw.drop headerLen

/-- The message that conditions match. -/
def full : CompleteMessage → Bytes
  | .Owned version => version.full
  | .Mapped raw _ _ matchingRaw => matchingRaw.getD raw

/-- The size of the message. -/
def len : CompleteMessage → Nat
  | .Owned version => version.len
  | .Mapped raw _ _ _ => raw.length

/-- The status of the message. -/
def status : CompleteMessage → MessageStatus
  | .Owned version => version.status
  | .Mapped .. => MessageStatus.none

/-- The bytes a command reads. -/
def actionInput (message : CompleteMessage) : ActionInput → MessageBytes
  | .Message => (FinalMessage.new message).bytes
  | .Headers => ⟨message.rawHeader, []⟩
  | .Body => ⟨message.body, []⟩

/-- The bytes a condition command reads. -/
def programInput (message : CompleteMessage) : ConditionInput → MessageBytes
  | .Headers => ⟨message.rawHeader, []⟩
  | .Body => ⟨message.body, []⟩
  | .Message => (FinalMessage.new message).bytes

/-- The bytes a regex condition matches. -/
def matchingInput (message : CompleteMessage) : ConditionInput → Bytes
  | .Headers => message.headerBytes
  | .Body => message.body
  | .Message => message.full

end CompleteMessage

/-- The replacement of the original, if an action has made one. -/
structure CurrentMessage where
  replacement : Option MessageVersion
  deriving DecidableEq, Repr

namespace CurrentMessage

/-- The message as it is now. -/
def view (current : CurrentMessage) (original : CompleteMessage) : CompleteMessage :=
  match current.replacement with
  | some version => .Owned version
  | none => original

/-- Installs the message a filter returned. A body filter keeps an edited header. -/
def replace (current : CurrentMessage) (message : Message) (area : ActionInput) : CurrentMessage :=
  match area, current.replacement with
  | .Body, some (.Headers head _ _) => ⟨some (.Headers head (.Filter message) message.len)⟩
  | _, _ => ⟨some (.Whole message)⟩

/-- Installs an edited header in front of the body of the version before it. -/
def replaceHeader (current : CurrentMessage) (edited : EditedHeader) (originalBody : Bytes)
    (limits : MessageLimits) : Except HeaderEditError CurrentMessage := do
  let body := match current.replacement with
    | some (.Whole message) => .Filter message
    | some (.Headers _ body _) => body
    | none => .Original originalBody
  let head ← MessageHead.fromEditedHeader edited body.bytes.length limits
  let len ← addSize head.len body.bytes.length
  .ok ⟨some (.Headers head body len)⟩

/-- The header action of a recipe: the edited header is installed when it differs. -/
def editHeader (current : CurrentMessage) (original : CompleteMessage) (limits : MessageLimits)
    (action : HeaderAction) : Except HeaderEditError (CurrentMessage × List HeaderExtraction) := do
  let message := current.view original
  let applied ← applyHeaderAction message.headerView message.body.length action limits
  if applied.changedFrom message.headerView then do
    let current ← current.replaceHeader applied.header original.body limits
    .ok (current, applied.extractions)
  else .ok (current, applied.extractions)

/-- The message in the output of a filter command. Body-only output has no header separator, so a
private one is put in front of it. -/
def filterOutput (area : ActionInput) (stdout : Reader) (limits : MessageLimits) :
    Except MessageReadError Message :=
  if area = .Body then Message.readFrom (Reader.push [LF] stdout) limits
  else Message.readFrom stdout limits

/-- The filter action of a recipe: the output of the command replaces the area it was given. -/
def filter (current : CurrentMessage) (original : CompleteMessage) (limits : MessageLimits)
    (area : ActionInput) (stdout : Reader) : Except MessageReadError CurrentMessage := do
  let message := current.view original
  let output ← filterOutput area stdout limits
  let replacement ← Message.fromFilterOutput message.rawHeader message.body output area limits
  .ok (current.replace replacement area)

end CurrentMessage

end ProcmailRs
