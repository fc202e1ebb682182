import ProcmailRs.HeaderText

/-!
# Scanning a raw header by offsets

The iterator over the fields of a raw header and the two unfolding functions keep offsets into one
buffer: where the current field starts, what has been copied, what has been searched. Offsets never
leave the buffer, whose length is a `usize`, so the checked additions of the source are plain
additions here. Every round of a loop advances by at least one byte, and the length of the buffer
bounds the number of rounds.
-/

namespace ProcmailRs

namespace Scan

/-- `raw[start..stop]`. -/
def slice (raw : Bytes) (start stop : Nat) : Bytes := (raw.take stop).drop start

/-- `matches!(raw.get(index), Some(b' ' | b'\t'))`. -/
def blankAt (raw : Bytes) (index : Nat) : Bool := raw[index]?.any isBlank

/-- `raw[start..].split_inclusive(|byte| *byte == b'\n').next()`. -/
def lineAt (raw : Bytes) (start : Nat) : Option Bytes := (lines (raw.drop start)).head?

/-- The loop over the continuation lines of the field that `next` has begun. -/
def continuationEnd (header : Bytes) : Nat → Nat → Option Nat
  | 0, offset => some offset
  | rounds + 1, offset =>
    if blankAt header offset then
      match lineAt header offset with
      | none => none
      | some line => continuationEnd header rounds (offset + line.length)
    else some offset

/-- `HeaderFields::next` on a raw header: the field at the offset, and the offset behind it. -/
def next (header : Bytes) (start : Nat) : Option (Field × Nat) :=
  match lineAt header start with
  | none => none
  | some line =>
    if line = [LF] ∨ line = [CR, LF] then none
    else match continuationEnd header header.length (start + line.length) with
      | none => none
      | some offset => some (fieldFromBytes (slice header start offset), offset)

/-- The fields the iterator gives from an offset on. -/
def fieldsFrom (header : Bytes) : Nat → Nat → List Field
  | 0, _ => []
  | rounds + 1, offset =>
    match next header offset with
    | none => []
    | some (field, offset) => field :: fieldsFrom header rounds offset

/-- `HeaderView::Raw(header).fields()`. -/
def fields (header : Bytes) : List Field := fieldsFrom header (header.length + 1) 0

/-- The loop over the line feeds. What stands before `copied` has been taken over into
`normalized`, and what stands before `scanned` has been searched. -/
def unfoldFrom (raw : Bytes) : Nat → Nat → Nat → Bytes → Bytes
  | 0, copied, _, normalized => normalized ++ raw.drop copied
  | rounds + 1, copied, scanned, normalized =>
    match (raw.drop scanned).findIdx? (· == LF) with
    | none => normalized ++ raw.drop copied
    | some offset =>
      let newline := scanned + offset
      let scanned := newline + 1
      if blankAt raw scanned then
        let lineEndingStart :=
          if newline > copied ∧ raw[newline - 1]? = some CR then newline - 1 else newline
        unfoldFrom raw rounds scanned scanned
          (normalized ++ slice raw copied lineEndingStart ++ [SP])
      else unfoldFrom raw rounds copied scanned normalized

/-- The first line feed before a continuation line. -/
def foldedAt (raw : Bytes) : Option Nat :=
  raw.zipIdx.findSome? fun (byte, index) =>
    if byte == LF && blankAt raw (index + 1) then some index else none

/-- `normalize_folded_header`. -/
def normalizeFoldedHeader (raw : Bytes) : Option Bytes :=
  match foldedAt raw with
  | none => none
  | some _ => some (unfoldFrom raw (raw.length + 1) 0 0 [])

/-- `unfold_field_bytes`. -/
def unfoldFieldBytes (raw : Bytes) : Bytes :=
  if !((raw.zip raw.tail).any fun (first, second) => first == LF && isBlank second) then raw
  else unfoldFrom raw (raw.length + 1) 0 0 []

end Scan

end ProcmailRs
