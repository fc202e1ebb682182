import ProcmailRs.HeaderEdit.Handles
import ProcmailRs.Lib.Outcome
import ProcmailRs.Lib.Replay

/-!
# Runs of the header arena

The methods that change a header arena, as the steps of a run. A method that fails leaves what it has
changed so far, and the run goes on from there. `store_mut` hands the arena of an edited header out
under the ceiling that follows from the recorded size of the header and its limits; in between, the
header may get other limits, lose or regain its private storage and be finished.
-/

namespace ProcmailRs

open Outcome (finalState)

/-- The methods of `HeaderStore` that change the arena. -/
inductive StoreOperation
  | Insert (index : Nat) (bytes : Bytes)
  | Remove (index : Nat)
  | RemoveMatching (name : Bytes)
  | RemoveMatchingPattern (pattern : Bytes)
  | MakeUniqueFirst (pattern : Bytes)
  | MakeUniqueLast (pattern : Bytes)
  | RenameMatchingPattern (fromPattern toPattern : Bytes)
  | PrependPrefixToMatching (pattern front : Bytes)
  | ConcatenateContinued
  | ZapWhitespace
  | Compact
  deriving DecidableEq, Repr

namespace StoreOperation

/-- The operation on the store. -/
def run : StoreOperation → EStateM HeaderEditError HeaderStore Unit
  | Insert index bytes => fun store => store.insert index bytes
  | Remove index => modify fun store => store.remove index
  | RemoveMatching name => modify fun store => store.removeMatching name
  | RemoveMatchingPattern pattern => modify fun store => store.removeMatchingPattern pattern
  | MakeUniqueFirst pattern => modify fun store => store.makeUniqueFirst pattern
  | MakeUniqueLast pattern => modify fun store => store.makeUniqueLast pattern
  | RenameMatchingPattern fromPattern toPattern =>
    HeaderStore.editInPlace (renameEdit fromPattern toPattern)
  | PrependPrefixToMatching pattern front => HeaderStore.editInPlace (prefixEdit pattern front)
  | ConcatenateContinued => HeaderStore.editInPlace concatenateEdit
  | ZapWhitespace => HeaderStore.editInPlace zapEdit
  | Compact => modify HeaderStore.compact

/-- The position is one that `Vec::insert` or `Vec::remove` accepts; they panic at any other one. -/
def InRange (operation : StoreOperation) (store : HeaderStore) : Prop :=
  match operation with
  | Insert index _ => index ≤ store.fields.length
  | Remove index => index < store.fields.length
  | _ => True

instance (operation : StoreOperation) (store : HeaderStore) : Decidable (operation.InRange store) := by
  unfold InRange
  split
  · infer_instance
  · infer_instance
  · infer_instance

end StoreOperation

/-- A method that is called under a ceiling. -/
structure StoreCall where
  ceiling : Nat
  operation : StoreOperation
  deriving DecidableEq, Repr

namespace HeaderStore

/-- The arena under another ceiling. -/
def under (store : HeaderStore) (ceiling : Nat) : HeaderStore := { store with ceiling := ceiling }

/-- What a call leaves, whether it succeeds or fails. -/
def after (store : HeaderStore) (call : StoreCall) : HeaderStore :=
  finalState (call.operation.run (store.under call.ceiling))

end HeaderStore

/-- What happens to an edited header. -/
inductive EditEvent
  /-- `EditedHeader::new` on the indexed header: a clone with limits of its own goes on. -/
  | Adopt (limits : MessageLimits)
  /-- The other headers with the same storage have been dropped. -/
  | Own
  /-- `store_mut` and a method of the arena. -/
  | Edit (operation : StoreOperation)
  | SetStatus (status : MessageStatus)
  | Finish (bodyLen : Nat)
  deriving DecidableEq, Repr

namespace EditedHeader

/-- `finish`, with what is left when it fails. -/
def finishInPlace (bodyLen : Nat) : EStateM HeaderEditError EditedHeader Unit := fun header =>
  match serializedSize header.texts header.storage.separator header.storage.lineEnding with
  | .error e => .error e header
  | .ok size =>
    let header := header.recordSize size
    match header.validate bodyLen header.limits with
    | .error e => .error e header
    | .ok () =>
      match header.reindexed size with
      | .error e => .error e header
      | .ok header => .ok () header.recordLineEnding

/-- The header after an event, whether it succeeds or fails. -/
def after (header : EditedHeader) : EditEvent → EditedHeader
  | .Adopt limits => { header with limits := limits, unique := false }
  | .Own => { header with unique := true }
  | .Edit operation =>
    let header := header.storeMut
    header.withStore (finalState (operation.run header.storage.store))
  | .SetStatus status => header.setStatus status
  | .Finish bodyLen => finalState (finishInPlace bodyLen header)

/-- The edits of a run call `Vec::insert` and `Vec::remove` at positions that exist. -/
def Legal (header : EditedHeader) : EditEvent → Prop
  | .Edit operation => operation.InRange header.storage.store
  | _ => True

end EditedHeader

end ProcmailRs
