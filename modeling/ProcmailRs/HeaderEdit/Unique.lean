import ProcmailRs.HeaderEdit.Pattern

/-!
# Repeated fields

`make_unique_last` looks through the fields from the last one and notes the positions of the ones to
keep; a second loop counts the positions and drops the others. A field counts as repeated by its name,
up to ASCII case, and a line that starts with `From ` is a postmark.
-/

namespace ProcmailRs.HeaderStore

/-- The first loop of `make_unique_last` over `fields.iter().enumerate().rev()`. -/
def retainIndices (store : HeaderStore) (pattern : Bytes) :
    List Bytes → List Nat → List (HeaderField × Nat) → List Nat
  | _, retained, [] => retained
  | seen, retained, (field, index) :: rest =>
    let entry := store.entry field
    if fieldMatchesPattern entry pattern then
      if seen.contains (uniqueKey entry) then store.retainIndices pattern seen retained rest
      else store.retainIndices pattern (seen ++ [uniqueKey entry]) (retained ++ [index]) rest
    else store.retainIndices pattern seen (retained ++ [index]) rest

/-- `fields.retain(..)` with a counter: the fields at the retained positions, and the others. A binary
search of the sorted positions finds every one of them. -/
def retainAt (retained : List Nat) : Nat → List HeaderField → List HeaderField × List HeaderField
  | _, [] => ([], [])
  | index, field :: rest =>
    let (kept, gone) := retainAt retained (index + 1) rest
    if retained.contains index then (field :: kept, gone) else (kept, field :: gone)

/-- `make_unique_last` as two loops over positions. -/
def makeUniqueLastByIndex (store : HeaderStore) (pattern : Bytes) : HeaderStore :=
  let retained := (store.retainIndices pattern [] [] store.fields.zipIdx.reverse).insertionSort
    (· ≤ ·)
  let (kept, gone) := retainAt retained 0 store.fields
  store.retain kept gone

/-- The fields in the opposite order; the arena is the same. -/
def reversed (store : HeaderStore) : HeaderStore := { store with fields := store.fields.reverse }

/-- The field is a `From ` line. -/
def isPostmark (field : Field) : Bool := fromSpace.isPrefixOf field.bytes

/-- The names under which the postmarks among the matching fields count. -/
def postmarkKeys (store : HeaderStore) (pattern : Bytes) : List Bytes :=
  (store.entries.filter fun field => fieldMatchesPattern field pattern && isPostmark field).map
    uniqueKey

/-- The fields have the same name, when all names of `postmarks` count as one. -/
def sameName (postmarks : List Bytes) (field other : Field) : Bool :=
  uniqueKey field == uniqueKey other ||
    (postmarks.contains (uniqueKey field) && postmarks.contains (uniqueKey other))

/-- The matching fields that have the name of `field`. -/
def namesakes (store : HeaderStore) (pattern : Bytes) (field other : HeaderField) : Bool :=
  fieldMatchesPattern (store.entry other) pattern &&
    sameName (store.postmarkKeys pattern) (store.entry field) (store.entry other)

/-- What is left when one field of every name is kept, the one that `pick` takes from the fields of
the name, and the other fields are left alone. -/
structure KeepsOne (store : HeaderStore) (pattern : Bytes)
    (pick : List HeaderField → Option HeaderField) (result : HeaderStore) : Prop where
  one : ∀ field ∈ store.fields, fieldMatchesPattern (store.entry field) pattern = true →
    result.fields.filter (store.namesakes pattern field) =
      (pick (store.fields.filter (store.namesakes pattern field))).toList
  others : (result.fields.filter fun field => !fieldMatchesPattern (store.entry field) pattern) =
    store.fields.filter fun field => !fieldMatchesPattern (store.entry field) pattern
  order : result.fields.Sublist store.fields
  texts : ∀ field ∈ result.fields, result.entry field = store.entry field

end ProcmailRs.HeaderStore
