import ProcmailRs.Bytes

/-!
# Message limits
-/

namespace ProcmailRs

/-- The active bounds on a message, in bytes. -/
structure MessageLimits where
  messageSize : Nat
  headersSize : Nat
  bodySize : Nat
  headerLineSize : Nat
  headerFieldSize : Nat
  deriving DecidableEq, Repr

/-- `MessageLimits::default`. -/
def MessageLimits.default : MessageLimits :=
  let kib := 1024
  let mib := 1024 * kib
  ⟨64 * mib, 256 * kib, 64 * mib, 64 * kib, 256 * kib⟩

/-- Which bound an oversized message exceeds. -/
inductive MessageLimit
  | Message
  | Headers
  | Body
  | HeaderLine
  | HeaderField
  deriving DecidableEq, Repr

end ProcmailRs
