import ProcmailRs.Lib.Lines
import Mathlib.Algebra.GroupWithZero.Nat

/-!
# Byte strings

Message data is kept as byte strings (`&[u8]`, `Vec<u8>`); configuration text is a `String`, seen as
bytes through its UTF-8 encoding. `usize` values are natural numbers, and the checked additions of
the source fail beyond `usize::MAX`.
-/

namespace ProcmailRs

/-- The code's byte slices. -/
abbrev Bytes := List UInt8

/-- A line feed. -/
abbrev LF : UInt8 := 10

/-- A carriage return. -/
abbrev CR : UInt8 := 13

/-- A space. -/
abbrev SP : UInt8 := 32

/-- A tab. -/
abbrev HT : UInt8 := 9

/-- The bytes of a text. -/
def utf8 (cs : List Char) : Bytes := cs.flatMap String.utf8EncodeChar

/-- `str::as_bytes`. -/
def strBytes (s : String) : Bytes := utf8 s.toList

/-- The characters of the bytes, decoded one at a time while the fuel lasts. -/
def utf8CharsFrom : Nat → Bytes → Option (List Char)
  | _, [] => some []
  | 0, _ :: _ => none
  | fuel + 1, bytes =>
    match ByteArray.utf8DecodeChar? ⟨bytes.toArray⟩ 0 with
    | none => none
    | some c => (utf8CharsFrom fuel (bytes.drop c.utf8Size)).map (c :: ·)

/-- `std::str::from_utf8`. Every character takes at least one byte. -/
def utf8Chars? (bytes : Bytes) : Option (List Char) := utf8CharsFrom bytes.length bytes

/-- The test for a line feed that ends a physical line. -/
def isLF (b : UInt8) : Bool := b == LF

/-- The physical lines of a byte string, each with its line feed. -/
def lines (bytes : Bytes) : List Bytes := Lines.splitInclusive isLF bytes

/-- `usize::MAX` on the supported 64-bit targets. -/
def usizeMax : Nat := 2 ^ 64 - 1

/-- `usize::checked_add`. -/
def checkedAdd (a b : Nat) : Option Nat := if a + b ≤ usizeMax then some (a + b) else none

theorem checkedAdd_eq_some {a b c : Nat} : checkedAdd a b = some c ↔ a + b ≤ usizeMax ∧ c = a + b := by
  unfold checkedAdd
  split_ifs with h
  · simp [h, eq_comm]
  · simp [h]

theorem checkedAdd_eq_none {a b : Nat} : checkedAdd a b = none ↔ usizeMax < a + b := by
  unfold checkedAdd
  split_ifs with h
  · simp [h]
  · simpa using h

theorem lines_append {l : Bytes} (h : Lines.Terminated isLF l) (r : Bytes) :
    lines (l ++ r) = lines l ++ lines r := Lines.splitInclusive_append h r

theorem terminated_iff_suffix (l : Bytes) : Lines.Terminated isLF l ↔ [LF] <:+ l := by
  constructor
  · intro h
    obtain ⟨init, a, rfl⟩ := List.eq_nil_or_concat' l |>.resolve_left h.ne_nil
    have ha : isLF a = true := by simpa [Lines.Terminated] using h
    exact ⟨init, by rw [show a = LF by simpa [isLF] using ha]⟩
  · rintro ⟨t, rfl⟩
    exact Lines.Terminated.append (Lines.terminated_singleton.mpr (by decide))

end ProcmailRs
