import ProcmailRs.Config.Destination
import ProcmailRs.Lib.ShellQuoting

/-!
# Arguments of external commands

A command that contains the word `"$@"` is given the positional arguments. Only the last such word
stands for them; every other `$@` is taken out of the command before the shell reads it.
-/

namespace ProcmailRs

open Config ShellQuoting

/-- `is_shell_word_boundary`: white space and `; & | ( ) < >`. -/
def isShellWordBoundary (byte : UInt8) : Bool :=
  isAsciiWhitespace byte || [59, 38, 124, 40, 41, 60, 62].contains byte

/-- The word `"$@"`. -/
def positionalWord : Bytes := [34, 36, 64, 34]

/-- Where the search for the word stands: in the text, or in a single-quoted part. -/
inductive SearchPlace
  | Text (atWordBoundary : Bool)
  | SingleQuoted

/-- The search for the last `"$@"`, `selected` being the index of the last one so far. -/
def findPositionalWord : SearchPlace → Nat → Option Nat → Bytes → Option Nat
  | _, _, selected, [] => selected
  | .SingleQuoted, index, selected, byte :: rest =>
    if byte = 39 then findPositionalWord (.Text false) (index + 1) selected rest
    else findPositionalWord .SingleQuoted (index + 1) selected rest
  | .Text atWordBoundary, index, selected, byte :: rest =>
    if byte = 92 then
      match rest with
      | [] => selected
      | _ :: rest => findPositionalWord (.Text false) (index + 2) selected rest
    else if byte = 39 then findPositionalWord .SingleQuoted (index + 1) selected rest
    else
      match rest with
      | 36 :: 64 :: 34 :: after =>
        if byte = 34 ∧ atWordBoundary ∧ after.head?.all isShellWordBoundary then
          findPositionalWord (.Text true) (index + 4) (some (index + 1)) after
        else
          findPositionalWord (.Text (isShellWordBoundary byte)) (index + 1) selected
            (36 :: 64 :: 34 :: after)
      | rest => findPositionalWord (.Text (isShellWordBoundary byte)) (index + 1) selected rest

/-- A quotation mark opens or closes a quoted part, unless it is within one of the other kind. -/
def toggleQuote (quote : Option UInt8) (byte : UInt8) : Option UInt8 :=
  if (byte = 39 ∨ byte = 34) ∧ quote.all (· == byte) then
    if quote = some byte then none else some byte
  else quote

/-- The second pass: every `$@` but the selected one is left out, unless it is single-quoted. -/
def rewritePositional (selected : Nat) : Option UInt8 → Nat → Bytes → Bytes
  | _, _, [] => []
  | quote, index, byte :: rest =>
    if byte = 92 ∧ quote ≠ some 39 then
      match rest with
      | [] => [byte]
      | next :: rest => byte :: next :: rewritePositional selected quote (index + 2) rest
    else
      let quote := toggleQuote quote byte
      match rest with
      | 64 :: after =>
        if byte = 36 ∧ quote ≠ some 39 ∧ index ≠ selected then
          rewritePositional selected quote (index + 2) after
        else byte :: rewritePositional selected quote (index + 1) (64 :: after)
      | rest => byte :: rewritePositional selected quote (index + 1) rest

/-- The rewritten command, or nothing where the command stays as it is. -/
def prepareSpecialPositionalArgument (command : Bytes) : Option Bytes :=
  (findPositionalWord (.Text true) 0 none command).map fun selected =>
    rewritePositional selected none 0 command

/-! ### What the shell would read -/

/-- The offset of the last `"$@"` that is a word; `posix` says that double quotes are known. -/
def lastPositionalWord (posix : Bool) (command : Bytes) : Option Nat :=
  lastWord posix isShellWordBoundary positionalWord true 0 (lex posix .Unquoted command)

/-- The last word `"$@"` is kept, and every other `$@` that the shell would expand is removed. -/
def preparedCommand (command : Bytes) : Option Bytes :=
  (lastPositionalWord true command).map fun offset =>
    removeParameters 36 64 (offset + 1) 0 (lex true .Unquoted command)

end ProcmailRs
