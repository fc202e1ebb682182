import ProcmailRs.HeaderEdit

/-!
# Editing a header by patterns

The edits of the stand-alone header editor. A pattern with a colon at its end means the fields of that
name, any other one the fields whose name begins with it; the `From ` line has three patterns of its
own.
-/

namespace ProcmailRs

/-- `b"From "`, the start of an envelope line. -/
def fromSpace : Bytes := strBytes "From "

/-- `strip_suffix(b":")`. -/
def stripColon (pattern : Bytes) : Option Bytes :=
  if endsWith pattern [COLON] then some pattern.dropLast else none

/-- The name belongs to the pattern, up to ASCII case. -/
def nameMatches (name pattern : Bytes) : Bool :=
  match stripColon pattern with
  | some target => eqIgnoreAsciiCase name target
  | none =>
    pattern.length ≤ name.length && eqIgnoreAsciiCase (name.take pattern.length) pattern

/-- The name of the field matches; a postmark goes by three spellings of `From`. -/
def fieldMatchesPattern (field : Field) (pattern : Bytes) : Bool :=
  match field.name with
  | some name => nameMatches name pattern
  | none =>
    if fromSpace.isPrefixOf field.bytes then
      pattern == fromSpace || pattern == strBytes "From" || pattern == strBytes "From:"
    else false

/-- The field with the part of its name that the pattern means replaced. -/
def renameFieldPattern (field : Field) (fromPattern toPattern : Bytes) : Option Bytes :=
  match field.name with
  | none => none
  | some name =>
    let toClean := (stripColon toPattern).getD toPattern
    let suffix := field.bytes.drop name.length
    match stripColon fromPattern with
    | some fromClean => if eqIgnoreAsciiCase name fromClean then some (toClean ++ suffix) else none
    | none =>
      if fromPattern.length ≤ name.length &&
          eqIgnoreAsciiCase (name.take fromPattern.length) fromPattern then
        some (toClean ++ name.drop fromPattern.length ++ suffix)
      else none

/-- What a pass over the fields does with one of them. -/
inductive FieldEdit
  | Keep
  | Replace (bytes : Bytes)
  | Remove
  deriving DecidableEq, Repr

/-- Another text for the field, when it differs. -/
def FieldEdit.changed (field : Field) (replacement : Bytes) : FieldEdit :=
  if field.bytes ≠ replacement then .Replace replacement else .Keep

/-- The round of `rename_matching_pattern` for one field. -/
def renameEdit (fromPattern toPattern : Bytes) (field : Field) : FieldEdit :=
  if fieldMatchesPattern field fromPattern then
    match renameFieldPattern field fromPattern toPattern with
    | some replacement => .changed field replacement
    | none => .Keep
  else .Keep

/-- The round of `prepend_prefix_to_matching` for one field. -/
def prefixEdit (pattern front : Bytes) (field : Field) : FieldEdit :=
  if fieldMatchesPattern field pattern && field.name.isSome then .Replace (front ++ field.bytes)
  else .Keep

/-- The round of `concatenate_continued` for one field. -/
def concatenateEdit (field : Field) : FieldEdit :=
  if fromSpace.isPrefixOf field.bytes then .Keep
  else .changed field (unfoldFieldBytes field.bytes)

/-- The round of `zap_whitespace` for one field. -/
def zapEdit (field : Field) : FieldEdit :=
  match field.name with
  | none => .Keep
  | some name =>
    let afterColon := field.bytes.drop (name.length + 1)
    let trimmedEnding := stripLineEnding afterColon
    if trimmedEnding.length == 1 && trimmedEnding.all isBlank then .Remove
    else if afterColon.head?.any fun b => !isBlank b && b != CR && b != LF then
      .Replace (name ++ COLON :: SP :: afterColon)
    else .Keep

namespace HeaderStore

/-- Some field matches. -/
def hasMatchingPattern (store : HeaderStore) (pattern : Bytes) : Bool :=
  store.entries.any fun field => fieldMatchesPattern field pattern

/-- `fields.retain(..)` with the ranges of the other fields given back. -/
def retain (store : HeaderStore) (kept gone : List HeaderField) : HeaderStore :=
  coalesceFree { store with fields := kept, free := store.free ++ gone.map HeaderField.raw }

/-- The fields that match are removed. -/
def removeMatchingPattern (store : HeaderStore) (pattern : Bytes) : HeaderStore :=
  let matching := fun field => fieldMatchesPattern (store.entry field) pattern
  store.retain (store.fields.filter fun field => !matching field) (store.fields.filter matching)

/-- The key under which a field that belongs to a pattern counts as repeated. -/
def uniqueKey (field : Field) : Bytes :=
  (field.name.map fun name => name.map toAsciiLowercase).getD (strBytes "from ")

/-- The fields without the ones that repeat the key of an earlier one, and these. -/
def splitRepeated (store : HeaderStore) (pattern : Bytes) (seen : List Bytes) :
    List HeaderField → List HeaderField × List HeaderField
  | [] => ([], [])
  | field :: rest =>
    let entry := store.entry field
    if fieldMatchesPattern entry pattern then
      if seen.contains (uniqueKey entry) then
        let (kept, gone) := store.splitRepeated pattern seen rest
        (kept, field :: gone)
      else
        let (kept, gone) := store.splitRepeated pattern (seen ++ [uniqueKey entry]) rest
        (field :: kept, gone)
    else
      let (kept, gone) := store.splitRepeated pattern seen rest
      (field :: kept, gone)

/-- Of the fields that match, the first of each name stays. -/
def makeUniqueFirst (store : HeaderStore) (pattern : Bytes) : HeaderStore :=
  let (kept, gone) := store.splitRepeated pattern [] store.fields
  store.retain kept gone

/-- The fields are looked through from the last one; what is kept stays in output order. -/
def makeUniqueLast (store : HeaderStore) (pattern : Bytes) : HeaderStore :=
  let (kept, gone) := store.splitRepeated pattern [] store.fields.reverse
  store.retain kept.reverse gone.reverse

/-- `remove(index)` and `insert(index, ..)`. -/
def replace (store : HeaderStore) (index : Nat) (bytes : Bytes) :
    Except HeaderEditError HeaderStore :=
  match (store.remove index).insert index bytes with
  | .ok () store => .ok store
  | .error e _ => .error e

/-- The loop over the fields from position `index`, one round for each of them. A removed field gives
its position to the next one. -/
def editFrom (edit : Field → FieldEdit) :
    Nat → Nat → HeaderStore → Except HeaderEditError HeaderStore
  | 0, _, store => .ok store
  | rounds + 1, index, store =>
    match store.entries[index]? with
    | none => .ok store
    | some field =>
      match edit field with
      | .Keep => editFrom edit rounds (index + 1) store
      | .Replace bytes => do
        let store ← store.replace index bytes
        editFrom edit rounds (index + 1) store
      | .Remove => editFrom edit rounds index (store.remove index)

/-- Every field is edited in its place. -/
def editEach (store : HeaderStore) (edit : Field → FieldEdit) :
    Except HeaderEditError HeaderStore :=
  editFrom edit store.fields.length 0 store

/-- The fields that match are renamed. -/
def renameMatchingPattern (store : HeaderStore) (fromPattern toPattern : Bytes) :
    Except HeaderEditError HeaderStore := store.editEach (renameEdit fromPattern toPattern)

/-- The fields that match get a prefix in front of their names. -/
def prependPrefixToMatching (store : HeaderStore) (pattern front : Bytes) :
    Except HeaderEditError HeaderStore := store.editEach (prefixEdit pattern front)

/-- Continued fields are joined to one line. -/
def concatenateContinued (store : HeaderStore) : Except HeaderEditError HeaderStore :=
  store.editEach concatenateEdit

/-- A space is put behind the colon where none stands; a field with a single blank for its value is removed. -/
def zapWhitespace (store : HeaderStore) : Except HeaderEditError HeaderStore :=
  store.editEach zapEdit

end HeaderStore

namespace EditedHeader

/-- How many fields there are. -/
def fieldCount (header : EditedHeader) : Nat := header.storage.store.fields.length

/-- Some field matches. -/
def hasMatchingPattern (header : EditedHeader) (pattern : Bytes) : Bool :=
  header.storage.store.hasMatchingPattern pattern

/-- An edit of the arena that always succeeds, through `store_mut`. -/
def mapStore (header : EditedHeader) (edit : HeaderStore → HeaderStore) : EditedHeader :=
  let header := header.storeMut
  header.withStore (edit header.storage.store)

/-- An edit of the arena that may fail, through `store_mut`. -/
def editStore (header : EditedHeader)
    (edit : HeaderStore → Except HeaderEditError HeaderStore) :
    Except HeaderEditError EditedHeader := do
  let header := header.storeMut
  let store ← edit header.storage.store
  .ok (header.withStore store)

/-- The fields that match are removed. -/
def removeMatchingPattern (header : EditedHeader) (pattern : Bytes) : EditedHeader :=
  header.mapStore fun store => store.removeMatchingPattern pattern

/-- The fields that match are renamed. -/
def renameMatchingPattern (header : EditedHeader) (fromPattern toPattern : Bytes) :
    Except HeaderEditError EditedHeader :=
  header.editStore fun store => store.renameMatchingPattern fromPattern toPattern

/-- The fields that match get a prefix in front of their names. -/
def prependPrefixToMatching (header : EditedHeader) (pattern front : Bytes) :
    Except HeaderEditError EditedHeader :=
  header.editStore fun store => store.prependPrefixToMatching pattern front

/-- Of the fields that match, the first of each name stays. -/
def makeUniqueFirst (header : EditedHeader) (pattern : Bytes) : EditedHeader :=
  header.mapStore fun store => store.makeUniqueFirst pattern

/-- Of the fields that match, the last of each name stays. -/
def makeUniqueLast (header : EditedHeader) (pattern : Bytes) : EditedHeader :=
  header.mapStore fun store => store.makeUniqueLast pattern

/-- A field is added at the end, as it is written. -/
def addRawField (header : EditedHeader) (raw : Bytes) : Except HeaderEditError EditedHeader :=
  let bytes := if endsWith raw [LF] then raw else raw ++ header.storage.lineEnding.bytes
  header.insert header.storage.store.fields.length bytes

/-- Continued fields are joined to one line. -/
def concatenateContinuedFields (header : EditedHeader) : Except HeaderEditError EditedHeader :=
  header.editStore HeaderStore.concatenateContinued

/-- A space is put behind the colon where none stands; a field with a single blank for its value is removed. -/
def zapWhitespace (header : EditedHeader) : Except HeaderEditError EditedHeader :=
  header.editStore HeaderStore.zapWhitespace

/-- The whitespace around a value dropped, with a line feed behind what is left. -/
def zapValue (bytes : Bytes) : Bytes :=
  let stripped := stripLineEnding bytes
  let trimmed := (((stripped.dropWhile isBlank).reverse).dropWhile isBlank).reverse
  trimmed ++ [LF]

/-- The text of one field as `extract_fields` prints it. -/
def extractedText (field : Field) (includeName concatenate zap : Bool) : Bytes :=
  let source := if includeName then field.bytes else field.value.getD []
  let bytes := if concatenate then unfoldFieldBytes source else source
  if zap && !includeName then zapValue bytes
  else if endsWith bytes [LF] then bytes
  else bytes ++ [LF]

/-- The texts of the fields that match. -/
def extractFields (header : EditedHeader) (pattern : Bytes) (includeName concatenate zap : Bool) :
    List Bytes :=
  (header.storage.store.entries.filter fun field => fieldMatchesPattern field pattern).map
    fun field => extractedText field includeName concatenate zap

end EditedHeader

end ProcmailRs
