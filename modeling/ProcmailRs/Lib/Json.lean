import Mathlib.Data.List.Basic
import Mathlib.Data.Nat.Digits.Defs

/-!
# Flat JSON objects

Objects whose members are strings, decimal numbers and truth values, written in printable ASCII: a byte
of a string that is not printable stands as an escape. The reader takes the objects of the JSON grammar
that have this form, without white space between the tokens, and an escape `\u00XX` as the byte `XX`.
What is written is read back, so that no member can be taken for another one.
-/

namespace Json

/-- A value that is not made of others. -/
inductive Scalar
  | Text (bytes : List UInt8)
  | Number (value : Nat)
  | Truth (value : Bool)
  deriving DecidableEq, Repr

/-- A name and its value. -/
abbrev Member := List UInt8 × Scalar

/-- A printable character of ASCII. -/
def isPrintable (byte : UInt8) : Bool := 32 ≤ byte && byte ≤ 126

/-! ### Writing -/

/-- A hexadecimal digit. -/
def hexDigit (value : Nat) : UInt8 := if value < 10 then UInt8.ofNat (48 + value) else UInt8.ofNat (87 + value)

/-- A byte within a string. -/
def escaped (byte : UInt8) : List UInt8 :=
  if byte = 34 then [92, 34]
  else if byte = 92 then [92, 92]
  else if byte = 10 then [92, 110]
  else if byte = 13 then [92, 114]
  else if byte = 9 then [92, 116]
  else if isPrintable byte then [byte]
  else [92, 117, 48, 48, hexDigit (byte.toNat / 16), hexDigit (byte.toNat % 16)]

/-- A string. -/
def quoted (bytes : List UInt8) : List UInt8 := 34 :: (bytes.flatMap escaped ++ [34])

/-- A number without a sign. -/
def number (value : Nat) : List UInt8 := (Nat.toDigits 10 value).map fun digit => UInt8.ofNat digit.toNat

/-- `true` or `false`. -/
def truth (value : Bool) : List UInt8 := if value then [116, 114, 117, 101] else [102, 97, 108, 115, 101]

/-- How a value is written. -/
def Scalar.text : Scalar → List UInt8
  | .Text bytes => quoted bytes
  | .Number value => number value
  | .Truth value => truth value

/-- How a member is written. -/
def member (m : Member) : List UInt8 := quoted m.1 ++ 58 :: m.2.text

/-- Members behind other ones. -/
def furtherMembers (members : List Member) : List UInt8 := members.flatMap fun m => 44 :: member m

/-- How an object is written. -/
def object : List Member → List UInt8
  | [] => [123, 125]
  | first :: others => 123 :: (member first ++ (furtherMembers others ++ [125]))

/-! ### Reading -/

/-- The value of a hexadecimal digit. -/
def hexValue (byte : UInt8) : Option Nat :=
  if 48 ≤ byte ∧ byte ≤ 57 then some (byte.toNat - 48)
  else if 97 ≤ byte ∧ byte ≤ 102 then some (byte.toNat - 87)
  else if 65 ≤ byte ∧ byte ≤ 70 then some (byte.toNat - 55)
  else none

/-- The byte of an escape with four digits, if it is one. -/
def readUnit (a b c d : UInt8) : Option UInt8 := do
  let a ← hexValue a
  let b ← hexValue b
  let c ← hexValue c
  let d ← hexValue d
  let value := ((a * 16 + b) * 16 + c) * 16 + d
  if value < 256 then some (UInt8.ofNat value) else none

/-- What a letter behind a backslash stands for. -/
def unescaped (mark : UInt8) : Option UInt8 :=
  if mark = 34 ∨ mark = 92 ∨ mark = 47 then some mark
  else if mark = 98 then some 8
  else if mark = 102 then some 12
  else if mark = 110 then some 10
  else if mark = 114 then some 13
  else if mark = 116 then some 9
  else none

/-- A byte in front of what has been read. -/
def prepend (byte : UInt8) (read : Option (List UInt8 × List UInt8)) : Option (List UInt8 × List UInt8) :=
  read.map fun (bytes, rest) => (byte :: bytes, rest)

/-- The bytes of a string up to its closing mark, and what is behind it. -/
def readString : List UInt8 → Option (List UInt8 × List UInt8)
  | [] => none
  | byte :: rest =>
    if byte = 34 then some ([], rest)
    else if byte = 92 then
      match rest with
      | [] => none
      | mark :: rest =>
        if mark = 117 then
          match rest with
          | a :: b :: c :: d :: rest => (readUnit a b c d).bind fun byte => prepend byte (readString rest)
          | _ => none
        else (unescaped mark).bind fun byte => prepend byte (readString rest)
    else if isPrintable byte then prepend byte (readString rest)
    else none

/-- A decimal digit. -/
def isDigit (byte : UInt8) : Bool := 48 ≤ byte && byte ≤ 57

/-- A number starts with a zero only if it is one. -/
def readNumber (bytes : List UInt8) : Option (Nat × List UInt8) :=
  let digits := bytes.takeWhile isDigit
  if digits = [] ∨ (digits.head? = some 48 ∧ digits.length ≠ 1) then none
  else some (digits.foldl (fun value digit => value * 10 + (digit.toNat - 48)) 0, bytes.dropWhile isDigit)

/-- What is behind the expected bytes. -/
def expect : List UInt8 → List UInt8 → Option (List UInt8)
  | [], bytes => some bytes
  | _ :: _, [] => none
  | expected :: more, byte :: bytes => if byte = expected then expect more bytes else none

/-- Reads a value. -/
def readScalar : List UInt8 → Option (Scalar × List UInt8)
  | [] => none
  | byte :: rest =>
    if byte = 34 then (readString rest).map fun (bytes, rest) => (.Text bytes, rest)
    else if byte = 116 then (expect [114, 117, 101] rest).map fun rest => (.Truth true, rest)
    else if byte = 102 then (expect [97, 108, 115, 101] rest).map fun rest => (.Truth false, rest)
    else (readNumber (byte :: rest)).map fun (value, rest) => (.Number value, rest)

/-- Reads a member. -/
def readMember (bytes : List UInt8) : Option (Member × List UInt8) := do
  let rest ← expect [34] bytes
  let (name, rest) ← readString rest
  let rest ← expect [58] rest
  let (value, rest) ← readScalar rest
  some ((name, value), rest)

/-- The members up to the closing brace, which ends the text. -/
def readMembers : Nat → List UInt8 → Option (List Member)
  | 0, _ => none
  | fuel + 1, bytes => do
    let (m, rest) ← readMember bytes
    match rest with
    | [] => none
    | byte :: rest =>
      if byte = 125 then if rest = [] then some [m] else none
      else if byte = 44 then do
        let members ← readMembers fuel rest
        some (m :: members)
      else none

/-- Reads an object, up to the end of the text. -/
def readObject (bytes : List UInt8) : Option (List Member) := do
  let rest ← expect [123] bytes
  if rest = [125] then some [] else readMembers rest.length rest

/-! ### What is written is printable -/

theorem isPrintable_hexDigit {value : Nat} (h : value < 16) : isPrintable (hexDigit value) = true := by
  revert value
  decide

theorem printable_of_all {bytes : List UInt8} (h : bytes.all isPrintable = true) :
    ∀ out ∈ bytes, isPrintable out = true := List.all_eq_true.mp h

theorem isPrintable_escaped (byte : UInt8) : ∀ out ∈ escaped byte, isPrintable out = true := by
  unfold escaped
  split_ifs with hmark hslash hline hreturn htab hprintable
  · exact printable_of_all rfl
  · exact printable_of_all rfl
  · exact printable_of_all rfl
  · exact printable_of_all rfl
  · exact printable_of_all rfl
  · simpa using hprintable
  · intro out hout
    have hlow : byte.toNat % 16 < 16 := Nat.mod_lt _ (by decide)
    have hhigh : byte.toNat / 16 < 16 := Nat.div_lt_of_lt_mul (by simpa using byte.toNat_lt)
    simp only [List.mem_cons, List.not_mem_nil, or_false] at hout
    rcases hout with rfl | rfl | rfl | rfl | rfl | rfl
    · decide
    · decide
    · decide
    · decide
    · exact isPrintable_hexDigit hhigh
    · exact isPrintable_hexDigit hlow

theorem isPrintable_quoted (bytes : List UInt8) : ∀ out ∈ quoted bytes, isPrintable out = true := by
  intro out hout
  simp only [quoted, List.mem_cons, List.mem_append, List.mem_flatMap, List.not_mem_nil, or_false] at hout
  rcases hout with rfl | ⟨byte, -, hout⟩ | rfl
  · decide
  · exact isPrintable_escaped byte out hout
  · decide

theorem isDigit_number (value : Nat) : ∀ out ∈ number value, isDigit out = true := by
  intro out hout
  obtain ⟨digit, hdigit, rfl⟩ := List.mem_map.mp hout
  have hrange : 48 ≤ digit.val ∧ digit.val ≤ 57 := by
    simpa [Char.isDigit] using Nat.isDigit_of_mem_toDigits (by decide) (Nat.le_refl 10) hdigit
  have hge : 48 ≤ digit.toNat := hrange.1
  have hle : digit.toNat ≤ 57 := hrange.2
  simp only [isDigit, Bool.and_eq_true, decide_eq_true_eq, UInt8.le_iff_toNat_le]
  simp
  omega

theorem isPrintable_of_isDigit {byte : UInt8} (h : isDigit byte = true) : isPrintable byte = true := by
  simp only [isDigit, isPrintable, Bool.and_eq_true, decide_eq_true_eq] at h ⊢
  exact ⟨UInt8.le_trans (by decide) h.1, UInt8.le_trans h.2 (by decide)⟩

theorem isPrintable_member (m : Member) : ∀ out ∈ member m, isPrintable out = true := by
  intro out hout
  rcases List.mem_append.mp hout with hname | hvalue
  · exact isPrintable_quoted _ _ hname
  rcases List.mem_cons.mp hvalue with rfl | hvalue
  · decide
  obtain ⟨name, value⟩ := m
  cases value with
  | Text bytes => exact isPrintable_quoted _ _ hvalue
  | Number value => exact isPrintable_of_isDigit (isDigit_number value out hvalue)
  | Truth value =>
    cases value with
    | false => exact printable_of_all rfl out hvalue
    | true => exact printable_of_all rfl out hvalue

theorem isPrintable_object (members : List Member) : ∀ out ∈ object members, isPrintable out = true := by
  cases members with
  | nil => exact printable_of_all rfl
  | cons first others =>
    intro out hout
    simp only [object, furtherMembers, List.mem_cons, List.mem_append, List.mem_flatMap, List.not_mem_nil,
      or_false] at hout
    rcases hout with rfl | hfirst | ⟨m, -, rfl | hother⟩ | rfl
    · decide
    · exact isPrintable_member first out hfirst
    · decide
    · exact isPrintable_member m out hother
    · decide

/-! ### How long the text is -/

/-- How many bytes a byte takes within a string. -/
def escapedCost (byte : UInt8) : Nat :=
  if byte = 34 ∨ byte = 92 ∨ byte = 10 ∨ byte = 13 ∨ byte = 9 then 2 else if isPrintable byte then 1 else 6

/-- The length of a string without its marks. -/
def textCost (bytes : List UInt8) : Nat := (bytes.map escapedCost).sum

/-- How many bytes a value takes. -/
def Scalar.cost : Scalar → Nat
  | .Text bytes => textCost bytes + 2
  | .Number value => (Nat.toDigits 10 value).length
  | .Truth value => if value then 4 else 5

/-- How many bytes a member takes, with a comma. -/
def memberCost (m : Member) : Nat := textCost m.1 + m.2.cost + 3

/-- The length of an object that has members. -/
def objectCost (members : List Member) : Nat := 1 + (members.map fun m => memberCost m + 1).sum

theorem length_escaped (byte : UInt8) : (escaped byte).length = escapedCost byte := by
  unfold escaped escapedCost
  split_ifs <;> simp_all

theorem length_quoted (bytes : List UInt8) : (quoted bytes).length = textCost bytes + 2 := by
  simp [quoted, textCost, List.length_flatMap, length_escaped]

theorem length_member (m : Member) : (member m).length = memberCost m := by
  obtain ⟨name, value⟩ := m
  have hvalue : value.text.length = value.cost := by
    cases value with
    | Text bytes => exact length_quoted bytes
    | Number value => exact List.length_map _
    | Truth value => cases value <;> rfl
  rw [member, List.length_append, List.length_cons, length_quoted, hvalue]
  simp only [memberCost]
  omega

theorem length_object {members : List Member} (h : members ≠ []) : (object members).length = objectCost members := by
  obtain ⟨first, others, rfl⟩ := List.exists_cons_of_ne_nil h
  have hothers : (furtherMembers others).length = (others.map fun m => memberCost m + 1).sum := by
    simp [furtherMembers, List.length_flatMap, length_member]
  simp only [object, objectCost, List.map_cons, List.sum_cons, List.length_cons, List.length_append, length_member,
    hothers, List.length_nil]
  omega

/-! ### What is written is read back -/

theorem readUnit_hexDigit (byte : UInt8) :
    readUnit 48 48 (hexDigit (byte.toNat / 16)) (hexDigit (byte.toNat % 16)) = some byte := by
  have hdigit : ∀ value < 16, hexValue (hexDigit value) = some value := by decide
  have hlow : byte.toNat % 16 < 16 := Nat.mod_lt _ (by decide)
  have hhigh : byte.toNat / 16 < 16 := Nat.div_lt_of_lt_mul (by simpa using byte.toNat_lt)
  have hzero : hexValue 48 = some 0 := by decide
  have hvalue : ((0 * 16 + 0) * 16 + byte.toNat / 16) * 16 + byte.toNat % 16 = byte.toNat := by omega
  simp only [readUnit, hdigit _ hlow, hdigit _ hhigh, hzero, Option.bind_eq_bind, Option.bind_some, hvalue]
  rw [if_pos (by simpa using byte.toNat_lt), UInt8.ofNat_toNat]

theorem readString_letter {mark byte : UInt8} {rest : List UInt8} (hmark : mark ≠ 117)
    (h : unescaped mark = some byte) : readString (92 :: mark :: rest) = prepend byte (readString rest) := by
  rw [readString.eq_def]
  simp [hmark, h]

theorem readString_escaped (byte : UInt8) (rest : List UInt8) :
    readString (escaped byte ++ rest) = prepend byte (readString rest) := by
  unfold escaped
  split_ifs with hmark hslash hline hreturn htab hprintable
  · subst hmark
    exact readString_letter (by decide) rfl
  · subst hslash
    exact readString_letter (by decide) rfl
  · exact hline ▸ readString_letter (by decide) rfl
  · exact hreturn ▸ readString_letter (by decide) rfl
  · exact htab ▸ readString_letter (by decide) rfl
  · rw [List.singleton_append, readString.eq_def]
    simp [hmark, hslash, hprintable]
  · simp only [List.cons_append, List.nil_append]
    rw [readString.eq_def]
    simp [readUnit_hexDigit]

theorem readString_quoted (bytes rest : List UInt8) :
    readString (bytes.flatMap escaped ++ 34 :: rest) = some (bytes, rest) := by
  induction bytes with
  | nil => rw [List.flatMap_nil, List.nil_append, readString.eq_def]; rfl
  | cons byte bytes ih => rw [List.flatMap_cons, List.append_assoc, readString_escaped, ih]; rfl

theorem foldl_number (digits : List Char) (hdigits : ∀ c ∈ digits, c.isDigit = true) (value : Nat) :
    (digits.map fun digit => UInt8.ofNat digit.toNat).foldl (fun value digit => value * 10 + (digit.toNat - 48)) value =
      Nat.ofDigitChars 10 digits value := by
  induction digits generalizing value with
  | nil => rfl
  | cons c digits ih =>
    have hrange : 48 ≤ c.val ∧ c.val ≤ 57 := by simpa [Char.isDigit] using hdigits c List.mem_cons_self
    have hle : c.toNat ≤ 57 := hrange.2
    have hbyte : (UInt8.ofNat c.toNat).toNat = c.toNat := by
      rw [UInt8.toNat_ofNat']
      omega
    rw [List.map_cons, List.foldl_cons, ih fun d hd => hdigits d (List.mem_cons_of_mem _ hd), hbyte,
      Nat.ofDigitChars_cons, Nat.mul_comm]
    rfl

theorem number_ne_nil (value : Nat) : number value ≠ [] := by
  simp [number]

theorem head_number {value : Nat} (h : 0 < value) : (number value).head? ≠ some 48 := by
  induction value using Nat.strongRecOn with
  | ind value ih =>
    by_cases hsmall : value < 10
    · have hdigit : ∀ value < 10, 0 < value → (number value).head? ≠ some 48 := by decide
      exact hdigit value hsmall h
    · have hdigits : number value = number (value / 10) ++ number (value % 10) := by
        rw [number, Nat.toDigits_of_base_le (by decide) (Nat.le_of_not_lt hsmall), List.map_append, number, number,
          Nat.toDigits_of_lt_base (Nat.mod_lt value (by decide))]
      rw [hdigits, List.head?_append_of_ne_nil _ (number_ne_nil _)]
      exact ih _ (by omega) (by omega)

theorem readNumber_number (value : Nat) (rest : List UInt8) (hrest : rest.head?.all fun byte => !isDigit byte) :
    readNumber (number value ++ rest) = some (value, rest) := by
  have htake : (number value ++ rest).takeWhile isDigit = number value := by
    rw [List.takeWhile_append_of_pos (isDigit_number value)]
    cases rest with
    | nil => simp
    | cons byte rest => simp_all
  have hdrop : (number value ++ rest).dropWhile isDigit = rest := by
    rw [List.dropWhile_append_of_pos (isDigit_number value)]
    cases rest with
    | nil => simp
    | cons byte rest => simp_all
  have hzero : ¬(number value = [] ∨ ((number value).head? = some 48 ∧ (number value).length ≠ 1)) := by
    rintro (hnil | ⟨hhead, hlength⟩)
    · exact number_ne_nil value hnil
    · cases Nat.eq_zero_or_pos value with
      | inl h => exact hlength (by rw [h]; rfl)
      | inr h => exact head_number h hhead
  unfold readNumber
  rw [htake, hdrop, if_neg hzero, number, foldl_number _ fun c hc =>
    Nat.isDigit_of_mem_toDigits (by decide) (Nat.le_refl 10) hc, Nat.ofDigitChars_toDigits (by decide) (by decide)]

theorem expect_append (expected rest : List UInt8) : expect expected (expected ++ rest) = some rest := by
  induction expected with
  | nil => rfl
  | cons byte expected ih => rw [List.cons_append, expect, if_pos rfl, ih]

theorem readScalar_text (value : Scalar) (rest : List UInt8) (hrest : rest.head?.all fun byte => !isDigit byte) :
    readScalar (value.text ++ rest) = some (value, rest) := by
  cases value with
  | Text bytes =>
    have htext : (Scalar.Text bytes).text ++ rest = 34 :: (bytes.flatMap escaped ++ 34 :: rest) := by
      simp [Scalar.text, quoted]
    rw [htext, readScalar, if_pos rfl, readString_quoted]
    rfl
  | Number value =>
    obtain ⟨byte, digits, hcons⟩ := List.exists_cons_of_ne_nil (number_ne_nil value)
    have hdigit : isDigit byte = true := isDigit_number value byte (by rw [hcons]; exact List.mem_cons_self)
    have hread := readNumber_number value rest hrest
    have hother : byte ≠ 34 ∧ byte ≠ 116 ∧ byte ≠ 102 := by
      refine ⟨?_, ?_, ?_⟩ <;> rintro rfl <;> cases hdigit
    rw [Scalar.text]
    rw [hcons, List.cons_append] at hread ⊢
    rw [readScalar, if_neg hother.1, if_neg hother.2.1, if_neg hother.2.2, hread]
    rfl
  | Truth value =>
    cases value with
    | true => exact congrArg (Option.map _) (expect_append [114, 117, 101] rest)
    | false => exact congrArg (Option.map _) (expect_append [97, 108, 115, 101] rest)

theorem readMember_member (m : Member) (rest : List UInt8) (hrest : rest.head?.all fun byte => !isDigit byte) :
    readMember (member m ++ rest) = some (m, rest) := by
  have htext : member m ++ rest = [34] ++ (m.1.flatMap escaped ++ 34 :: ([58] ++ (m.2.text ++ rest))) := by
    simp [member, quoted]
  rw [htext, readMember, expect_append, Option.bind_eq_bind, Option.bind_some, readString_quoted]
  simp only [Option.bind_eq_bind, Option.bind_some, expect_append, readScalar_text _ _ hrest]

theorem readMembers_members (first : Member) (others : List Member) (fuel : Nat) (hfuel : others.length < fuel) :
    readMembers fuel (member first ++ (furtherMembers others ++ [125])) = some (first :: others) := by
  induction others generalizing first fuel with
  | nil =>
    obtain ⟨fuel, rfl⟩ := Nat.exists_eq_succ_of_ne_zero (Nat.ne_of_gt hfuel)
    rw [readMembers, readMember_member _ _ (by decide)]
    rfl
  | cons next others ih =>
    obtain ⟨fuel, rfl⟩ := Nat.exists_eq_succ_of_ne_zero (Nat.ne_of_gt (Nat.zero_lt_of_lt hfuel))
    have htail : furtherMembers (next :: others) ++ [125] =
        44 :: (member next ++ (furtherMembers others ++ [125])) := by
      simp [furtherMembers]
    rw [htail, readMembers, readMember_member _ _ rfl, Option.bind_eq_bind, Option.bind_some]
    change (readMembers fuel (member next ++ (furtherMembers others ++ [125]))).bind _ = _
    rw [ih next fuel (by simpa using hfuel)]
    rfl

theorem length_lt_of_members (others : List Member) : others.length ≤ (furtherMembers others).length := by
  induction others with
  | nil => exact Nat.le_refl _
  | cons m others ih =>
    simp only [furtherMembers, List.flatMap_cons, List.length_append, List.length_cons] at ih ⊢
    omega

/-- An object is read as the members that it was written from. -/
theorem readObject_object (members : List Member) : readObject (object members) = some members := by
  cases members with
  | nil => rfl
  | cons first others =>
    have hopen : object (first :: others) = [123] ++ (member first ++ (furtherMembers others ++ [125])) := rfl
    have hne : member first ++ (furtherMembers others ++ [125]) ≠ [125] := by
      simp [member, quoted]
    have hfuel : others.length < (member first ++ (furtherMembers others ++ [125])).length := by
      have := length_lt_of_members others
      simp only [List.length_append, List.length_singleton]
      omega
    rw [hopen, readObject, expect_append, Option.bind_eq_bind, Option.bind_some, if_neg hne,
      readMembers_members _ _ _ hfuel]

end Json
