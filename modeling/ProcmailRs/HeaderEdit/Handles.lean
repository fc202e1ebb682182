import ProcmailRs.HeaderEdit.Pattern
import ProcmailRs.Lib.Sharing

/-!
# Edited headers that share their storage

A program holds several edited headers. Their storages are shared: a clone points to the storage of its
original, an edit changes a storage in place when nobody else points to it and copies it otherwise, and
reading a header fills the cached views of the storage, whoever else points to it. What a failed edit
has changed stays changed.
-/

namespace ProcmailRs

open Sharing (Heap)

/-! ### The edits of the fields -/

namespace HeaderStore

/-- `remove(index)` and `insert(index, ..)`, with what is left when the insertion fails. -/
def replaceInPlace (index : Nat) (bytes : Bytes) : EStateM HeaderEditError HeaderStore Unit :=
  fun store => (store.remove index).insert index bytes

/-- The loop of `editFrom`, with what is left when a replacement fails. -/
def editInPlaceFrom (edit : Field → FieldEdit) :
    Nat → Nat → EStateM HeaderEditError HeaderStore Unit
  | 0, _ => pure ()
  | rounds + 1, index => do
    match (← get).entries[index]? with
    | none => pure ()
    | some field =>
      match edit field with
      | .Keep => editInPlaceFrom edit rounds (index + 1)
      | .Replace bytes => do
        replaceInPlace index bytes
        editInPlaceFrom edit rounds (index + 1)
      | .Remove => do
        modify fun store => store.remove index
        editInPlaceFrom edit rounds index

/-- Every field is edited in its place. -/
def editInPlace (edit : Field → FieldEdit) : EStateM HeaderEditError HeaderStore Unit := do
  editInPlaceFrom edit (← get).fields.length 0

end HeaderStore

/-- An edit of the fields of a header: whether it asks for a storage of its own, and what it does there,
given the preferred delimiter. -/
structure StoreEdit where
  touches : HeaderStore → Bool
  run : LineEnding → EStateM HeaderEditError HeaderStore Unit

namespace StoreEdit

/-- An edit that always takes the storage for itself. -/
def always (run : EStateM HeaderEditError HeaderStore Unit) : StoreEdit := ⟨fun _ => true, fun _ => run⟩

/-- The fields of this name are removed. A header without one is left alone. -/
def removeMatching (name : Bytes) : StoreEdit where
  touches store := store.entries.any (HeaderStore.entryMatches name)
  run _ := modify fun store => store.removeMatching name

/-- The fields that match are removed. -/
def removeMatchingPattern (pattern : Bytes) : StoreEdit :=
  always (modify fun store => store.removeMatchingPattern pattern)

/-- The fields that match are renamed. -/
def renameMatchingPattern (fromPattern toPattern : Bytes) : StoreEdit :=
  always (HeaderStore.editInPlace (renameEdit fromPattern toPattern))

/-- The fields that match get a prefix in front of their names. -/
def prependPrefixToMatching (pattern front : Bytes) : StoreEdit :=
  always (HeaderStore.editInPlace (prefixEdit pattern front))

/-- Of the fields that match, the first of each name stays. -/
def makeUniqueFirst (pattern : Bytes) : StoreEdit :=
  always (modify fun store => store.makeUniqueFirst pattern)

/-- Of the fields that match, the last of each name stays. -/
def makeUniqueLast (pattern : Bytes) : StoreEdit :=
  always (modify fun store => store.makeUniqueLast pattern)

/-- A field is added at the end, as it is written. -/
def addRawField (raw : Bytes) : StoreEdit where
  touches _ := true
  run lineEnding := fun store =>
    let bytes := if endsWith raw [LF] then raw else raw ++ lineEnding.bytes
    store.insert store.fields.length bytes

/-- Continued fields are joined to one line. -/
def concatenateContinuedFields : StoreEdit := always (HeaderStore.editInPlace concatenateEdit)

/-- A space is put behind the colon where none stands; a field with a single blank for its value is
removed. -/
def zapWhitespace : StoreEdit := always (HeaderStore.editInPlace zapEdit)

/-- The edit of a header that is thrown away when the edit fails. -/
def apply (edit : StoreEdit) (header : EditedHeader) : Except HeaderEditError EditedHeader :=
  if edit.touches header.storage.store then
    match edit.run header.storage.lineEnding header.storeMut.storage.store with
    | .ok () store => .ok (header.storeMut.withStore store)
    | .error e _ => .error e
  else .ok header

end StoreEdit

/-! ### The headers of a program -/

/-- The storages and the handles to them, and the limits that every handle has of its own. -/
structure Headers where
  heap : Heap HeaderStorage
  limits : Nat → MessageLimits

namespace Headers

/-- No header has been made. -/
def none : Headers where
  heap := Heap.empty fun _ => ⟨⟨[], [], [], 0⟩, [], .Lf, 0, MessageStatus.none, .none, .none⟩
  limits _ := MessageLimits.default

/-- The header behind a handle. -/
def header (headers : Headers) (i : Nat) : Option EditedHeader :=
  (headers.heap.value i).map fun storage =>
    ⟨storage, headers.limits i, headers.heap.isUnique i⟩

/-- A new handle to a storage of its own. -/
def make (headers : Headers) (header : EditedHeader) : Headers where
  heap := headers.heap.alloc header.storage
  limits := Function.update headers.limits headers.heap.opened header.limits

/-- A new handle to the storage behind `i`. -/
def share (headers : Headers) (i : Nat) (limits : MessageLimits) : Headers where
  heap := headers.heap.clone i
  limits := Function.update headers.limits headers.heap.opened limits

/-- What a change has made of the header behind `i`: a storage that nobody else points to is changed in
place, a private copy takes the place of a shared one, and nothing else is changed. -/
def put (headers : Headers) (i : Nat) (header : EditedHeader) : Headers :=
  if headers.heap.isUnique i then { headers with heap := headers.heap.fill i header.storage }
  else if header.unique then { headers with heap := headers.heap.assign i header.storage }
  else headers

/-- A cached view is filled, for everybody who points to the storage. -/
def cache (headers : Headers) (i : Nat) (view : EditedHeader → HeaderStorage) : Headers :=
  match headers.header i with
  | .none => headers
  | some header => { headers with heap := headers.heap.fill i (view header) }

/-- A handle goes. -/
def drop (headers : Headers) (i : Nat) : Headers := { headers with heap := headers.heap.drop i }

end Headers

namespace EditedHeader

/-- The storage after `as_bytes`. -/
def withRaw (header : EditedHeader) : HeaderStorage :=
  { header.storage with raw := some header.asBytes }

/-- The storage after `normalized`; the serialized form is asked for only when the unfolded one is
made. -/
def withMatching (header : EditedHeader) : HeaderStorage :=
  match header.storage.matching with
  | none => { header.withRaw with matching := some header.normalized }
  | some _ => header.storage

/-- The storage after `matching_header`. -/
def withMatchingHeader (header : EditedHeader) : HeaderStorage :=
  match header.normalized with
  | none => { header.withMatching with raw := some header.asBytes }
  | some _ => header.withMatching

/-- `into_streaming_bytes`. -/
def intoStreamingBytes (header : EditedHeader) : Bytes :=
  if header.unique then header.storage.raw.getD header.parts.flatten else header.asBytes

end EditedHeader

/-- `into_streaming_bytes` takes the bytes out of a storage of its own; behind a storage that is shared
it leaves the serialized view for the others. -/
def Headers.stream (headers : Headers) (i : Nat) : Headers :=
  if headers.heap.isUnique i then headers.drop i
  else (headers.cache i EditedHeader.withRaw).drop i

/-- What is done to the headers of a program. A handle that is used again after it has been dropped does
nothing. The comparison of two headers reads them as `AsBytes` does. -/
inductive HeaderCall
  | New (bytes : Bytes) (limits : MessageLimits)
  | NewIndexed (i : Nat) (limits : MessageLimits)
  | Clone (i : Nat)
  | Drop (i : Nat)
  | AsBytes (i : Nat)
  | Normalized (i : Nat)
  | MatchingHeader (i : Nat)
  | Edit (i : Nat) (edit : StoreEdit)
  | SetStatus (i : Nat) (status : MessageStatus)
  | Finish (i : Nat) (bodyLen : Nat)
  | IntoStreamingBytes (i : Nat)

namespace Headers

/-- A header is opened. -/
def new (bytes : Bytes) (limits : MessageLimits) : EStateM HeaderEditError Headers Unit :=
  fun headers =>
    match EditedHeader.new (.Raw bytes) limits with
    | .error e => .error e headers
    | .ok header => .ok () (headers.make header)

/-- A header is edited through one of its handles. -/
def edit (i : Nat) (edit : StoreEdit) : EStateM HeaderEditError Headers Unit := fun headers =>
  match headers.header i with
  | .none => .ok () headers
  | some header =>
    if edit.touches header.storage.store then
      match edit.run header.storage.lineEnding header.storeMut.storage.store with
      | .ok () store => .ok () (headers.put i (header.storeMut.withStore store))
      | .error e store => .error e (headers.put i (header.storeMut.withStore store))
    else .ok () headers

/-- The end of `finish`, with the size recorded: the header is indexed afresh when its fields would be
read back differently. -/
def finishSized (i : Nat) (bodyLen size : Nat) (header : EditedHeader) :
    EStateM HeaderEditError Headers Unit := fun headers =>
  match header.validate bodyLen header.limits with
  | .error e => .error e headers
  | .ok () =>
    let headers := if needsReindex header.texts then headers.cache i EditedHeader.withRaw else headers
    match header.reindexed size with
    | .error e => .error e headers
    | .ok header => .ok () (headers.put i header.recordLineEnding)

/-- The edits of a header are ended through one of its handles. -/
def finish (i : Nat) (bodyLen : Nat) : EStateM HeaderEditError Headers Unit := fun headers =>
  match headers.header i with
  | .none => .ok () headers
  | some header =>
    match serializedSize header.texts header.storage.separator header.storage.lineEnding with
    | .error e => .error e headers
    | .ok size =>
      finishSized i bodyLen size (header.recordSize size) (headers.put i (header.recordSize size))

/-- One call. -/
def step : HeaderCall → EStateM HeaderEditError Headers Unit
  | .New bytes limits => new bytes limits
  | .NewIndexed i limits => modify fun headers => headers.share i limits
  | .Clone i => modify fun headers => headers.share i (headers.limits i)
  | .Drop i => modify fun headers => headers.drop i
  | .IntoStreamingBytes i => modify fun headers => headers.stream i
  | .AsBytes i => modify fun headers => headers.cache i EditedHeader.withRaw
  | .Normalized i => modify fun headers => headers.cache i EditedHeader.withMatching
  | .MatchingHeader i => modify fun headers => headers.cache i EditedHeader.withMatchingHeader
  | .Edit i change => edit i change
  | .SetStatus i status => modify fun headers =>
    match headers.header i with
    | .none => headers
    | some header => headers.put i (header.setStatus status)
  | .Finish i bodyLen => finish i bodyLen

end Headers

end ProcmailRs
