import ProcmailRs.HeaderValue
import ProcmailRs.Limits
import ProcmailRs.Lib.Ranges
import Mathlib.Data.List.Sort

/-!
# Storage of an edited header

An edited header keeps its fields in one byte arena, `HeaderStore`: every field is a range of the
arena, and removing a field turns its range into a hole that a later field may reuse. Growth is
bounded by a ceiling; holes are compacted away before growth is rejected. `EditedHeader` shares its
storage between copies of a message and makes a private copy on the first change.

The two buffers of an insertion exist in memory at the same time, so the additions of their lengths
cannot overflow; additions that involve a length from elsewhere are checked as in the source.
-/

namespace ProcmailRs

open Ranges

/-- Why a header is not edited. -/
inductive HeaderEditError
  | SizeOverflow
  | LimitExceeded (kind : MessageLimit) (limit : Nat)
  | InvalidGeneratedValue
  | InvalidKeywordValue (reason : String)
  | KeywordLimitExceeded (limit : Nat)
  | InvalidStatusValue (reason : String)
  | GeneratedLineTooLong (limit : Nat)
  | Decode (error : DecodedHeaderError)
  | ExtractedValueTooLong (limit : Nat)
  deriving DecidableEq, Repr

/-- A size within its limit. -/
def checkLimit (size limit : Nat) (kind : MessageLimit) : Except HeaderEditError Unit :=
  if size > limit then .error (.LimitExceeded kind limit) else .ok ()

/-- `usize::checked_add`, with an overflow reported as `SizeOverflow`. -/
def addSize (a b : Nat) : Except HeaderEditError Nat :=
  match checkedAdd a b with
  | none => .error .SizeOverflow
  | some c => .ok c

/-- The read, flagged and replied marks of a message. -/
structure MessageStatus where
  read : Bool
  flagged : Bool
  replied : Bool
  deriving DecidableEq, Repr

/-- No flag is set. -/
def MessageStatus.none : MessageStatus := ⟨false, false, false⟩

/-- No flag is set. -/
def MessageStatus.isEmpty (status : MessageStatus) : Bool :=
  !status.read && !status.flagged && !status.replied

/-! ### The arena -/

/-- Where a field and its name lie in the arena. -/
structure HeaderField where
  raw : Range
  name : Option Range
  deriving DecidableEq, Repr

/-- The arena: its bytes, the fields in their order, the ranges that are free, and how far it may grow.
-/
structure HeaderStore where
  bytes : Bytes
  fields : List HeaderField
  free : List Range
  ceiling : Nat
  deriving DecidableEq, Repr

namespace HeaderStore

/-- `HeaderStore::field`: the bytes behind an index entry. -/
def entry (store : HeaderStore) (field : HeaderField) : Field :=
  ⟨field.raw.slice store.bytes, field.name.map fun name => name.slice store.bytes⟩

/-- The fields in output order. -/
def entries (store : HeaderStore) : List Field := store.fields.map store.entry

/-- Sorts the holes by their start, merges neighbours and gives a hole at the end of the arena back.
Logical field order differs from physical order after prepending or reuse. -/
def coalesceFree (store : HeaderStore) : HeaderStore :=
  let free := coalesce (store.free.insertionSort fun a b => a.start ≤ b.start)
  match free.getLast? with
  | some range =>
    if range.stop = store.bytes.length then
      { store with bytes := store.bytes.take range.start, free := free.dropLast }
    else { store with free := free }
  | none => { store with free := free }

/-- The field at a position is removed, and its range is free. -/
def remove (store : HeaderStore) (index : Nat) : HeaderStore :=
  match store.fields[index]? with
  | none => store
  | some field =>
    coalesceFree
      { store with fields := store.fields.eraseIdx index, free := store.free ++ [field.raw] }

/-- The field carries the name, compared without ASCII case. -/
def entryMatches (name : Bytes) (field : Field) : Bool :=
  field.name.any fun candidate => eqIgnoreAsciiCase candidate name

/-- Removes every field of the name. Survivors are retained once, then the holes are merged in one
pass. -/
def removeMatching (store : HeaderStore) (name : Bytes) : HeaderStore :=
  let matching := fun field => entryMatches name (store.entry field)
  coalesceFree
    { store with
      fields := store.fields.filter fun field => !matching field
      free := store.free ++ (store.fields.filter matching).map HeaderField.raw }

/-- Where a field starts in the arena. -/
def fieldStart (fields : List HeaderField) (index : Nat) : Nat :=
  (fields[index]?.map fun field => field.raw.start).getD 0

/-- The arena during compaction: the fields already moved lie before `cursor`. -/
structure Compaction where
  bytes : Bytes
  fields : List HeaderField
  cursor : Nat

/-- Moves one field down to the cursor. -/
def compactField (state : Compaction) (index : Nat) : Compaction :=
  match state.fields[index]? with
  | none => state
  | some field =>
    let moved : HeaderField :=
      ⟨⟨state.cursor, state.cursor + field.raw.len⟩,
        field.name.map fun name =>
          ⟨state.cursor + (name.start - field.raw.start),
            state.cursor + (name.stop - field.raw.start)⟩⟩
    { bytes := overwrite state.bytes state.cursor (field.raw.slice state.bytes)
      fields := state.fields.set index moved
      cursor := state.cursor + field.raw.len }

/-- Moves every field toward the beginning, in physical order, so that no unread field is
overwritten; the fields keep their output order. -/
def compact (store : HeaderStore) : HeaderStore :=
  let physical := (List.range store.fields.length).insertionSort fun i j =>
    fieldStart store.fields i ≤ fieldStart store.fields j
  let state := physical.foldl compactField ⟨store.bytes, store.fields, 0⟩
  { store with
    bytes := state.bytes.take state.cursor
    fields := state.fields
    free := [] }

/-- The first hole that can take a field of `size` bytes. -/
def findHole (store : HeaderStore) (size : Nat) : Option Nat :=
  store.free.findIdx? fun range => size ≤ range.len

/-- The index entry of a field stored at `start`. -/
def indexField (start : Nat) (bytes : Bytes) : HeaderField :=
  ⟨⟨start, start + bytes.length⟩,
    (fieldName bytes).map fun name => ⟨start, start + name.length⟩⟩

/-- The arena in which a field of `size` bytes looks for room. Deleted data must not consume the
allowance: fragmentation is compacted away before growth is rejected. -/
def ready (store : HeaderStore) (size : Nat) : HeaderStore :=
  if (store.findHole size).isNone ∧ store.bytes.length + size > store.ceiling then store.compact
  else store

/-- Puts a field into a hole or at the end of the arena. -/
def place (store : HeaderStore) (index : Nat) (bytes : Bytes) :
    EStateM.Result HeaderEditError HeaderStore Unit :=
  match store.findHole bytes.length with
  | some position =>
    let hole := store.free.getD position ⟨0, 0⟩
    let rest : Range := ⟨hole.start + bytes.length, hole.stop⟩
    .ok ()
      { store with
        bytes := overwrite store.bytes hole.start bytes
        free := if rest.start < rest.stop then store.free.set position rest
          else store.free.eraseIdx position
        fields := store.fields.insertIdx index (indexField hole.start bytes) }
  | none =>
    let start := store.bytes.length
    match checkLimit (start + bytes.length) store.ceiling .Headers with
    | .error e => .error e store
    | .ok () =>
      .ok ()
        { store with
          bytes := store.bytes ++ bytes
          fields := store.fields.insertIdx index (indexField start bytes) }

/-- Puts a field before position `index`. -/
def insert (store : HeaderStore) (index : Nat) (bytes : Bytes) :
    EStateM.Result HeaderEditError HeaderStore Unit :=
  if bytes.isEmpty then .error .InvalidGeneratedValue store
  else (store.ready bytes.length).place index bytes

/-- Appends the fields one by one. -/
def insertAll (store : HeaderStore) : List Field → Except HeaderEditError HeaderStore
  | [] => .ok store
  | field :: rest =>
    match store.insert store.fields.length field.bytes with
    | .error e _ => .error e
    | .ok () store => store.insertAll rest

/-- An arena with these fields. -/
def new (fields : List Field) (ceiling : Nat) : Except HeaderEditError HeaderStore := do
  let size := (fields.map fun field => field.bytes.length).sum
  checkLimit size ceiling .Headers
  insertAll ⟨[], [], [], ceiling⟩ fields

end HeaderStore

/-! ### Serialization and validation -/

/-- The delimiter put behind an unterminated field. A lone CR at the end of hostile input is header
data, but a bare LF behind it would make an empty CRLF line and move the following fields into the
body. -/
def joiningLineEnding (previous : Bytes) (preferred : LineEnding) : LineEnding :=
  if endsWith previous [CR] && preferred == .Lf then .CrLf else preferred

/-- What stands between a field and the next one. -/
def joinBetween (preferred : LineEnding) (previous : Bytes) : Bytes :=
  if endsWith previous [LF] then [] else (joiningLineEnding previous preferred).bytes

/-- The parts of the fields behind `previous`. -/
def fieldParts (preferred : LineEnding) (previous : Option Bytes) : List Bytes → List Bytes
  | [] => []
  | field :: rest =>
    (previous.map (joinBetween preferred)).getD [] :: field ::
      fieldParts preferred (some field) rest

/-- The slices of the serialized header. -/
def headerParts (fields : List Bytes) (separator : Bytes) (preferred : LineEnding) : List Bytes :=
  fieldParts preferred none fields ++ [separator]

/-- The size of parts together, if it can be counted. -/
def sumSizes (size : Nat) : List Bytes → Except HeaderEditError Nat
  | [] => .ok size
  | part :: rest => do
    let size ← addSize size part.length
    sumSizes size rest

/-- The size of a header that is written. -/
def serializedSize (fields : List Bytes) (separator : Bytes) (preferred : LineEnding) :
    Except HeaderEditError Nat :=
  sumSizes 0 (headerParts fields separator preferred)

/-- The header and the message within their sizes. -/
def validateAggregateSize (fields : List Bytes) (separator : Bytes) (preferred : LineEnding)
    (bodyLen : Nat) (limits : MessageLimits) : Except HeaderEditError Unit := do
  let headers ← serializedSize fields separator preferred
  checkLimit headers limits.headersSize .Headers
  let message ← addSize headers bodyLen
  checkLimit message limits.messageSize .Message

/-- The size of the field that a completed line belongs to. -/
def validateFieldLine (first : Option UInt8) (lineSize fieldSize : Nat) (limits : MessageLimits) :
    Except HeaderEditError Nat := do
  let fieldSize ← if first.any isBlank then addSize fieldSize lineSize else .ok lineSize
  checkLimit fieldSize limits.headerFieldSize .HeaderField
  .ok fieldSize

/-- The scan over the output bytes: the size and first byte of the current line, and the size of the
current field. It stops at the first blank line. -/
def validateBytes (limits : MessageLimits) (lineSize : Nat) (first : Option UInt8)
    (fieldSize : Nat) : Bytes → Except HeaderEditError Unit
  | [] =>
    if lineSize ≠ 0 then do
      let _ ← validateFieldLine first lineSize fieldSize limits
      .ok ()
    else .ok ()
  | byte :: rest => do
    let first := if lineSize = 0 then some byte else first
    let lineSize ← addSize lineSize 1
    checkLimit lineSize limits.headerLineSize .HeaderLine
    if byte = LF then
      if lineSize = 1 ∨ (lineSize = 2 ∧ first = some CR) then .ok ()
      else do
        let fieldSize ← validateFieldLine first lineSize fieldSize limits
        validateBytes limits 0 first fieldSize rest
    else validateBytes limits lineSize first fieldSize rest

/-- The header within all of its limits. -/
def validateHeaderParts (parts : List Bytes) (size bodyLen : Nat) (limits : MessageLimits) :
    Except HeaderEditError Unit := do
  checkLimit size limits.headersSize .Headers
  let message ← addSize size bodyLen
  checkLimit message limits.messageSize .Message
  validateBytes limits 0 none 0 parts.flatten

/-! ### The edited header -/

/-- The data behind the shared pointer of an edited header; `raw` and `matching` cache its serialized
and its unfolded form once they have been asked for. -/
structure HeaderStorage where
  store : HeaderStore
  separator : Bytes
  lineEnding : LineEnding
  size : Nat
  status : MessageStatus
  raw : Option Bytes
  matching : Option (Option Bytes)
  deriving DecidableEq, Repr

/-- An edited header; `unique` says that no other header shares its storage. -/
structure EditedHeader where
  storage : HeaderStorage
  limits : MessageLimits
  unique : Bool
  deriving DecidableEq, Repr

/-- A header that is read: its bytes, or an edited header. -/
inductive HeaderView
  | Raw (bytes : Bytes)
  | Indexed (header : EditedHeader)

namespace EditedHeader

/-- A storage that nobody has read or shared yet. -/
def fresh (bytes : Bytes) (limits : MessageLimits) (ceiling size : Nat) (status : MessageStatus) :
    Except HeaderEditError EditedHeader := do
  let (fields, separator, lineEnding) := splitFields bytes
  let store ← HeaderStore.new fields ceiling
  .ok ⟨⟨store, separator, lineEnding, size, status, none, none⟩, limits, true⟩

/-- `EditedHeader::new`: an edited header shares its storage, other bytes are indexed. -/
def new (source : HeaderView) (limits : MessageLimits) : Except HeaderEditError EditedHeader :=
  match source with
  | .Indexed header => .ok { header with limits := limits, unique := false }
  | .Raw bytes =>
    fresh bytes limits (max limits.headersSize bytes.length) bytes.length MessageStatus.none

/-- The size of the header. -/
def len (header : EditedHeader) : Nat := header.storage.size

/-- The status of the message. -/
def status (header : EditedHeader) : MessageStatus := header.storage.status

/-- The bytes of the fields in output order. -/
def texts (header : EditedHeader) : List Bytes := header.storage.store.entries.map Field.bytes

/-- The pieces of which the header is written. -/
def parts (header : EditedHeader) : List Bytes :=
  headerParts header.texts header.storage.separator header.storage.lineEnding

/-- The bytes of the header: those it was read from, or its pieces. -/
def asBytes (header : EditedHeader) : Bytes := header.storage.raw.getD header.parts.flatten

/-- The unfolded header where it differs from the bytes. -/
def normalized (header : EditedHeader) : Option Bytes :=
  header.storage.matching.getD (normalizeFoldedHeader header.asBytes)

/-- The header that conditions match. -/
def matchingHeader (header : EditedHeader) : Bytes := header.normalized.getD header.asBytes

/-- The header after `as_bytes` and `matching_header` have been asked for: the caches are filled. -/
def cached (header : EditedHeader) : EditedHeader :=
  { header with
    storage :=
      { header.storage with raw := some header.asBytes, matching := some header.normalized } }

/-- `Arc::make_mut`: a private copy has the arena and the index, not the cached views. -/
def makeMut (header : EditedHeader) : EditedHeader :=
  if header.unique then header
  else { header with storage := { header.storage with raw := none, matching := none }, unique := true }

/-- Lowering an active limit may leave accepted input above it. Removal may repair that input, but
subsequent growth never gets a larger allowance. -/
def storeMut (header : EditedHeader) : EditedHeader :=
  let ceiling := max header.len header.limits.headersSize
  let header := header.makeMut
  { header with
    storage := { header.storage with store := { header.storage.store with ceiling := ceiling } } }

/-- The header with another arena. -/
def withStore (header : EditedHeader) (store : HeaderStore) : EditedHeader :=
  { header with storage := { header.storage with store := store } }

/-- The message has the status. -/
def setStatus (header : EditedHeader) (status : MessageStatus) : EditedHeader :=
  if header.storage.status ≠ status then
    let header := header.makeMut
    { header with storage := { header.storage with status := status } }
  else header

/-- Some field has the name. -/
def hasMatching (header : EditedHeader) (name : Bytes) : Bool :=
  header.storage.store.entries.any (HeaderStore.entryMatches name)

/-- The fields of this name are removed. -/
def removeMatching (header : EditedHeader) (name : Bytes) : EditedHeader :=
  if header.hasMatching name then
    let header := header.storeMut
    header.withStore (header.storage.store.removeMatching name)
  else header

/-- `store_mut().insert(..)`. -/
def insert (header : EditedHeader) (index : Nat) (bytes : Bytes) :
    Except HeaderEditError EditedHeader :=
  let header := header.storeMut
  match header.storage.store.insert index bytes with
  | .error e _ => .error e
  | .ok () store => .ok (header.withStore store)

/-- The header within all of its limits. -/
def validate (header : EditedHeader) (bodyLen : Nat) (limits : MessageLimits) :
    Except HeaderEditError Unit :=
  validateHeaderParts header.parts header.len bodyLen limits

/-- `Arc::get_mut` and an assignment through it. -/
def updateUnique (header : EditedHeader) (f : HeaderStorage → HeaderStorage) : EditedHeader :=
  if header.unique then { header with storage := f header.storage } else header

/-- Records the serialized size in a private storage. -/
def recordSize (header : EditedHeader) (size : Nat) : EditedHeader :=
  header.updateUnique fun storage => { storage with size := size }

/-- Indexes the header afresh when its fields would be read back differently. -/
def reindexed (header : EditedHeader) (size : Nat) : Except HeaderEditError EditedHeader :=
  if needsReindex header.texts then
    fresh header.asBytes header.limits header.limits.headersSize size header.status
  else .ok header

/-- Records the delimiter of the serialized bytes in a private storage. -/
def recordLineEnding (header : EditedHeader) : EditedHeader :=
  let lineEnding := preferredLineEnding header.parts.flatten
  header.updateUnique fun storage => { storage with lineEnding := lineEnding }

/-- The edits are ended: the header is measured, checked and indexed again. -/
def finish (header : EditedHeader) (bodyLen : Nat) : Except HeaderEditError EditedHeader := do
  let size ← serializedSize header.texts header.storage.separator header.storage.lineEnding
  (header.recordSize size).validate bodyLen header.limits
  let header ← (header.recordSize size).reindexed size
  .ok header.recordLineEnding

end EditedHeader

namespace HeaderView

/-- The fields of the header. -/
def fields : HeaderView → List Field
  | .Raw bytes => rawFields bytes
  | .Indexed header => header.storage.store.entries

/-- The bytes of the header. -/
def bytes : HeaderView → Bytes
  | .Raw bytes => bytes
  | .Indexed header => header.asBytes

end HeaderView

end ProcmailRs
