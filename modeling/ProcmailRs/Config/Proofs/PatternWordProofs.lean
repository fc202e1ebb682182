import ProcmailRs.Config.PatternWord
import ProcmailRs.Config.Proofs.BindingProofs
import ProcmailRs.Config.Proofs.ShellPatternProofs

/-!
# Pattern words say what they mean

The backslashes that the lexer puts into a pattern word are taken out by the tokenizer again. A quoted
byte that has none is read as if it was not quoted; where it does not act as a bracket, a negation or a
range of a bracket expression, the tokens are those that the word means.
-/

namespace ProcmailRs.Config

open ShellPattern

/-! ### The text of marked bytes -/

/-- A mark in the text of a pattern. -/
def Mark.text (mark : Mark) : Bytes := if mark.read then [mark.1] else [92, mark.1]

/-- A mark as the parser of classes sees it. -/
def Mark.view (mark : Mark) : UInt8 × Bool := (mark.1, !mark.read)

theorem quotePatternBytes_append (front back : Bytes) :
    quotePatternBytes (front ++ back) = quotePatternBytes front ++ quotePatternBytes back :=
  List.flatMap_append

theorem quotePatternBytes_plain {byte : UInt8} (h : isPatternSpecial byte = false) :
    quotePatternBytes [byte] = [byte] := by
  unfold quotePatternBytes
  rw [List.flatMap_singleton, if_neg]
  intro hspecial
  rw [show isPatternSpecial byte = true from hspecial] at h
  cases h

theorem quotePatternBytes_special {byte : UInt8} (h : isPatternSpecial byte = true) :
    quotePatternBytes [byte] = [92, byte] := by
  unfold quotePatternBytes
  rw [List.flatMap_singleton]
  exact if_pos h

theorem iterate_quote_plain {byte : UInt8} (h : isPatternSpecial byte = false) (depth : Nat) :
    quotePatternBytes^[depth] [byte] = [byte] :=
  Function.iterate_fixed (quotePatternBytes_plain h) depth

/-- The text of a byte that is quoted no more than once, or has no use for backslashes. -/
theorem iterate_quote_eq_text {byte : UInt8} {depth : Nat}
    (h : depth ≤ 1 ∨ isPatternSpecial byte = false) :
    quotePatternBytes^[depth] [byte] =
      Mark.text (byte, if depth = 0 then .Plain else .Quoted) := by
  cases hspecial : isPatternSpecial byte with
  | false =>
    rw [iterate_quote_plain hspecial]
    unfold Mark.text Mark.read
    rw [hspecial, if_pos]
    split <;> rfl
  | true =>
    have hdepth : depth = 0 ∨ depth = 1 := by
      rcases h with hle | hplain
      · omega
      · rw [hspecial] at hplain
        cases hplain
    rcases hdepth with rfl | rfl
    · rfl
    · rw [Function.iterate_one, quotePatternBytes_special hspecial]
      unfold Mark.text Mark.read
      rw [hspecial]
      rfl

theorem encode_cons (mark : MarkedByte) (marks : List MarkedByte) :
    encode (mark :: marks) = quotePatternBytes^[mark.2] [mark.1] ++ encode marks :=
  List.flatMap_cons

theorem encode_eq_text (marks : List MarkedByte) (honce : quotedOnce marks = true)
    (hapart : escapesApart marks = true) : encode marks = (resolve marks).flatMap Mark.text := by
  unfold quotedOnce at honce
  fun_induction resolve marks with
  | case1 => rfl
  | case2 byte depth rest ih =>
    rw [escapesApart, Bool.and_eq_true, Bool.or_eq_true, beq_iff_eq, Bool.not_eq_true'] at hapart
    rw [List.all_cons, List.all_cons, Bool.and_eq_true, Bool.and_eq_true] at honce
    have hbyte : quotePatternBytes^[depth] [byte] = [byte] := by
      rcases hapart.1 with rfl | hplain
      · rfl
      · exact iterate_quote_plain hplain depth
    rw [List.flatMap_cons, ← ih honce.2.2 hapart.2, encode_cons, encode_cons, hbyte]
    rfl
  | case3 byte depth rest hnot ih =>
    have hrest : escapesApart rest = true := by
      rw [escapesApart] at hapart
      · exact hapart
      · intro next mark tail hhead htail
        exact hnot next mark tail htail (Prod.mk.inj hhead).1 (Prod.mk.inj hhead).2
    rw [List.all_cons, Bool.and_eq_true, Bool.or_eq_true, decide_eq_true_eq,
      Bool.not_eq_true'] at honce
    rw [List.flatMap_cons, ← ih honce.2 hrest, encode_cons, iterate_quote_eq_text honce.1]

/-- A backslash that escapes nothing is the last mark. -/
def Lone : List Mark → Prop
  | [] => True
  | mark :: rest => (mark = (92, .Plain) → rest = []) ∧ Lone rest

theorem lone_resolve (marks : List MarkedByte) : Lone (resolve marks) := by
  fun_induction resolve marks with
  | case1 => exact trivial
  | case2 byte depth rest ih =>
    refine ⟨?_, ih⟩
    intro h
    cases h
  | case3 byte depth rest hnot ih =>
    refine ⟨?_, ih⟩
    intro h
    obtain ⟨rfl, horigin⟩ := Prod.mk.inj h
    cases depth with
    | succ depth => cases horigin
    | zero =>
      cases rest with
      | nil => rfl
      | cons next rest => exact absurd rfl (hnot next.1 next.2 rest rfl rfl)

theorem Lone.suffix {front rest : List Mark} (h : Lone (front ++ rest)) : Lone rest := by
  induction front with
  | nil => exact h
  | cons mark front ih => exact ih h.2

/-! ### Reading marks -/

section Reading

variable {active : Mark → Bool} {mark : Mark}

theorem classNegation_acts (rest : List Mark) (hbyte : mark.1 = 33 ∨ mark.1 = 94)
    (hactive : active mark = true) : classNegation active (mark :: rest) = (some mark, rest) := by
  unfold classNegation
  exact if_pos (by simp [hbyte, hactive])

theorem classNegation_none (rest : List Mark)
    (h : ¬((mark.1 = 33 ∨ mark.1 = 94) ∧ active mark = true)) :
    classNegation active (mark :: rest) = (none, mark :: rest) := by
  unfold classNegation
  exact if_neg (by simpa using h)

theorem classStart_acts (rest : List Mark) (hbyte : mark.1 = 93) (hactive : active mark = true) :
    classStart active (mark :: rest) = ([mark], rest) := by
  unfold classStart
  exact if_pos (by simp [hbyte, hactive])

theorem classStart_none (rest : List Mark) (h : ¬(mark.1 = 93 ∧ active mark = true)) :
    classStart active (mark :: rest) = ([], mark :: rest) := by
  unfold classStart
  exact if_neg (by simpa using h)

/-- The closing bracket is the first one that acts. -/
theorem classMembers_eq_some {marks members members' rest : List Mark} {closing : Mark}
    (h : classMembers active marks members = some (members', closing, rest)) :
    ∃ inner, marks = inner ++ closing :: rest ∧ members' = members ++ inner ∧
      closing.1 = 93 ∧ active closing = true := by
  induction marks generalizing members with
  | nil => cases h
  | cons mark marks ih =>
    rw [classMembers] at h
    split at h
    · rename_i hclose
      cases h
      rw [Bool.and_eq_true, beq_iff_eq] at hclose
      exact ⟨[], rfl, (List.append_nil _).symm, hclose⟩
    · obtain ⟨inner, rfl, rfl, hclosing⟩ := ih h
      exact ⟨mark :: inner, rfl, List.append_assoc members [mark] inner, hclosing⟩

theorem classNegation_suffix (active : Mark → Bool) (marks : List Mark) :
    ∃ front, marks = front ++ (classNegation active marks).2 := by
  unfold classNegation
  split
  · exact ⟨[], rfl⟩
  · split
    · exact ⟨[_], rfl⟩
    · exact ⟨[], rfl⟩

theorem classStart_suffix (active : Mark → Bool) (marks : List Mark) :
    ∃ front, marks = front ++ (classStart active marks).2 := by
  unfold classStart
  split
  · exact ⟨[], rfl⟩
  · split
    · exact ⟨[_], rfl⟩
    · exact ⟨[], rfl⟩

theorem readClass_eq (active : Mark → Bool) (marks : List Mark) :
    readClass active marks =
      (classMembers active (classStart active (classNegation active marks).2).2
        (classStart active (classNegation active marks).2).1).map fun found =>
          ⟨(classNegation active marks).1, found.1, found.2.1, found.2.2⟩ := rfl

/-- What follows a bracket expression is a proper end of the marks behind its opening bracket. -/
theorem readClass_suffix {marks : List Mark} {text : ClassText}
    (h : readClass active marks = some text) :
    ∃ front, marks = front ++ text.closing :: text.rest := by
  obtain ⟨negated, hnegated⟩ := classNegation_suffix active marks
  obtain ⟨start, hstart⟩ := classStart_suffix active (classNegation active marks).2
  rw [readClass_eq] at h
  obtain ⟨found, hfound, rfl⟩ := Option.map_eq_some_iff.mp h
  obtain ⟨inner, hinner, -⟩ := classMembers_eq_some hfound
  refine ⟨negated ++ start ++ inner, ?_⟩
  calc marks = negated ++ (classNegation active marks).2 := hnegated
    _ = negated ++ (start ++ (inner ++ found.2.1 :: found.2.2)) := by
        rw [hstart]
        exact congrArg _ (congrArg _ hinner)
    _ = negated ++ start ++ inner ++ found.2.1 :: found.2.2 := by
        rw [List.append_assoc, List.append_assoc]

end Reading

/-! ### Reading the text -/

/-- A mark that acts is not a quoted special byte. -/
theorem Mark.read_special {mark : Mark} (hspecial : isPatternSpecial mark.1 = true)
    (hread : mark.read = true) : mark.2 = .Plain := by
  unfold Mark.read at hread
  simpa [hspecial] using hread

theorem Mark.text_of_read {mark : Mark} (h : mark.read = true) : mark.text = [mark.1] := if_pos h

theorem Mark.text_of_not_read {mark : Mark} (h : mark.read = false) : mark.text = [92, mark.1] :=
  if_neg (by simp [h])

theorem Mark.view_of_read {mark : Mark} (h : mark.read = true) : mark.view = (mark.1, false) := by
  unfold Mark.view
  rw [h]
  rfl

theorem Mark.view_of_not_read {mark : Mark} (h : mark.read = false) :
    mark.view = (mark.1, true) := by
  unfold Mark.view
  rw [h]
  rfl

/-- A backslash that escapes nothing ends the pattern. -/
theorem Lone.rest_nil {mark : Mark} {rest : List Mark} (h : Lone (mark :: rest))
    (hbyte : mark.1 = 92) (hread : mark.read = true) : rest = [] := by
  have hplain : mark.2 = .Plain := Mark.read_special (by rw [hbyte]; rfl) hread
  exact h.1 (Prod.ext hbyte hplain)

theorem classBytes_escape (byte : UInt8) (rest : Bytes) (bytes : List (UInt8 × Bool)) :
    classBytes (92 :: byte :: rest) bytes = classBytes rest (bytes ++ [(byte, true)]) := by
  rw [classBytes]

theorem classBytes_plain {byte : UInt8} (rest : Bytes) (bytes : List (UInt8 × Bool))
    (hclose : byte ≠ 93) (hescape : byte = 92 → rest = []) :
    classBytes (byte :: rest) bytes = classBytes rest (bytes ++ [(byte, false)]) := by
  rw [classBytes]
  · exact hclose
  · intro next tail hbyte hrest
    rw [hescape hbyte] at hrest
    cases hrest

theorem classBytes_text (marks members : List Mark) (hlone : Lone marks)
    (hstart : members = [] → ∀ mark ∈ marks.head?, ¬(mark.1 = 93 ∧ mark.read = true)) :
    classBytes (marks.flatMap Mark.text) (members.map Mark.view) =
      (classMembers Mark.read marks members).map fun (members, _, rest) =>
        (members.map Mark.view, rest.flatMap Mark.text) := by
  induction marks generalizing members with
  | nil => rfl
  | cons mark rest ih =>
    have hnext := ih (members ++ [mark]) hlone.2 (by simp)
    rw [List.map_append, List.map_singleton] at hnext
    rw [List.flatMap_cons, classMembers]
    cases hread : mark.read with
    | false =>
      rw [Mark.text_of_not_read hread, Bool.and_false, if_neg Bool.false_ne_true, ← hnext,
        Mark.view_of_not_read hread]
      exact classBytes_escape mark.1 _ _
    | true =>
      rw [Mark.text_of_read hread, Bool.and_true]
      by_cases hclose : mark.1 = 93
      · rw [hclose, if_pos (beq_self_eq_true _)]
        have hmembers : members ≠ [] := by
          intro hnil
          exact hstart hnil mark rfl ⟨hclose, hread⟩
        show classBytes (93 :: _) _ = _
        rw [classBytes, if_neg]
        · rfl
        · simpa using hmembers
      · rw [if_neg (by simpa using hclose), ← hnext, Mark.view_of_read hread]
        apply classBytes_plain _ _ hclose
        intro hescape
        rw [hlone.rest_nil hescape hread]
        rfl

/-- The class behind its negation. -/
def classFrom (negated : Bool) (pattern : Bytes) : Option (ByteClass × Bytes) :=
  let (bytes, pattern) : List (UInt8 × Bool) × Bytes := match pattern with
    | 93 :: rest => ([(93, false)], rest)
    | _ => ([], pattern)
  (classBytes pattern bytes).map fun (bytes, rest) => (⟨negated, classRanges bytes⟩, rest)

theorem parseClass_negated {byte : UInt8} (rest : Bytes) (h : byte = 33 ∨ byte = 94) :
    parseClass (byte :: rest) = classFrom true rest := by
  rcases h with rfl | rfl <;> rfl

theorem parseClass_positive {pattern : Bytes} (h : ∀ byte ∈ pattern.head?, byte ≠ 33 ∧ byte ≠ 94) :
    parseClass pattern = classFrom false pattern := by
  unfold parseClass
  split
  rename_i negated rest heq
  split at heq
  · exact absurd rfl (h 33 rfl).1
  · exact absurd rfl (h 94 rfl).2
  · cases heq
    rfl

theorem classFrom_bracket (negated : Bool) (rest : Bytes) :
    classFrom negated (93 :: rest) = (classBytes rest [(93, false)]).map fun (bytes, rest) =>
      (⟨negated, classRanges bytes⟩, rest) := rfl

theorem classFrom_plain (negated : Bool) {pattern : Bytes} (h : ∀ byte ∈ pattern.head?, byte ≠ 93) :
    classFrom negated pattern = (classBytes pattern []).map fun (bytes, rest) =>
      (⟨negated, classRanges bytes⟩, rest) := by
  unfold classFrom
  split
  rename_i bytes rest heq
  split at heq
  · exact absurd rfl (h 93 rfl)
  · cases heq
    rfl

/-- The first byte of the text is that of the first mark, or the backslash in front of it. -/
theorem head_text {mark : Mark} {rest : List Mark} {byte : UInt8}
    (h : byte ∈ ((mark :: rest).flatMap Mark.text).head?) :
    (mark.read = true ∧ byte = mark.1) ∨ (mark.read = false ∧ byte = 92) := by
  rw [List.flatMap_cons] at h
  cases hread : mark.read with
  | true =>
    rw [Mark.text_of_read hread] at h
    exact .inl ⟨rfl, (Option.some.inj h).symm⟩
  | false =>
    rw [Mark.text_of_not_read hread] at h
    exact .inr ⟨rfl, (Option.some.inj h).symm⟩

theorem classFrom_text (negation : Option Mark) (marks : List Mark) (hlone : Lone marks) :
    classFrom negation.isSome (marks.flatMap Mark.text) =
      (classMembers Mark.read (classStart Mark.read marks).2 (classStart Mark.read marks).1).map
        fun (members, closing, rest) =>
          ((ClassText.mk negation members closing rest).byteClass Mark.read,
            rest.flatMap Mark.text) := by
  cases marks with
  | nil => rfl
  | cons mark rest =>
    by_cases hstart : mark.1 = 93 ∧ mark.read = true
    · have htext := classBytes_text rest [mark] hlone.2 (by simp)
      rw [List.map_singleton, Mark.view_of_read hstart.2, hstart.1] at htext
      rw [classStart_acts rest hstart.1 hstart.2, List.flatMap_cons, Mark.text_of_read hstart.2,
        hstart.1]
      show classFrom _ (93 :: rest.flatMap Mark.text) = _
      rw [classFrom_bracket, htext, Option.map_map]
      rfl
    · have htext := classBytes_text (mark :: rest) [] hlone (by simpa using hstart)
      rw [List.map_nil] at htext
      rw [classStart_none rest hstart, classFrom_plain, htext, Option.map_map]
      · rfl
      · intro byte hbyte hclose
        rcases head_text hbyte with ⟨hread, rfl⟩ | ⟨-, rfl⟩
        · exact hstart ⟨hclose, hread⟩
        · cases hclose

theorem classNegation_lone {marks : List Mark} (h : Lone marks) :
    Lone (classNegation Mark.read marks).2 := by
  unfold classNegation
  split
  · exact trivial
  · split
    · exact h.2
    · exact h

/-- The class that the code reads. -/
theorem parseClass_text (marks : List Mark) (hlone : Lone marks) :
    parseClass (marks.flatMap Mark.text) =
      (readClass Mark.read marks).map fun text =>
        (text.byteClass Mark.read, text.rest.flatMap Mark.text) := by
  have hclass : parseClass (marks.flatMap Mark.text) =
      classFrom (classNegation Mark.read marks).1.isSome
        ((classNegation Mark.read marks).2.flatMap Mark.text) := by
    cases marks with
    | nil => rfl
    | cons mark rest =>
      by_cases hnegated : (mark.1 = 33 ∨ mark.1 = 94) ∧ mark.read = true
      · rw [classNegation_acts rest hnegated.1 hnegated.2, List.flatMap_cons,
           Mark.text_of_read hnegated.2]
        exact parseClass_negated _ hnegated.1
      · rw [classNegation_none rest hnegated, parseClass_positive]
        · rfl
        · intro byte hbyte
          rcases head_text hbyte with ⟨hread, rfl⟩ | ⟨-, rfl⟩
          · exact ⟨fun h => hnegated ⟨.inl h, hread⟩, fun h => hnegated ⟨.inr h, hread⟩⟩
          · exact ⟨by decide, by decide⟩
  rw [hclass, classFrom_text _ _ (classNegation_lone hlone)]
  unfold readClass
  rw [Option.map_map]
  rfl

theorem tokenizeFrom_escape (fuel : Nat) (byte : UInt8) (rest : Bytes) (tokens : List Token) :
    tokenizeFrom (fuel + 1) (92 :: byte :: rest) tokens =
      tokenizeFrom fuel rest (tokens ++ [.Literal byte]) := rfl

theorem tokenizeFrom_class (fuel : Nat) {rest tail : Bytes} {class_ : ByteClass}
    (tokens : List Token) (h : parseClass rest = some (class_, tail)) :
    tokenizeFrom (fuel + 1) (91 :: rest) tokens =
      tokenizeFrom fuel tail (tokens ++ [.Class class_]) := by
  rw [tokenizeFrom, h]

theorem tokenizeFrom_bracket (fuel : Nat) {rest : Bytes} (tokens : List Token)
    (h : parseClass rest = none) :
    tokenizeFrom (fuel + 1) (91 :: rest) tokens =
      tokenizeFrom fuel rest (tokens ++ [.Literal 91]) := by
  rw [tokenizeFrom, h]

theorem tokenizeFrom_plain (fuel : Nat) {byte : UInt8} (rest : Bytes) (tokens : List Token)
    (hstar : byte ≠ 42) (hany : byte ≠ 63) (hclass : byte ≠ 91) (hescape : byte = 92 → rest = []) :
    tokenizeFrom (fuel + 1) (byte :: rest) tokens =
      tokenizeFrom fuel rest (tokens ++ [.Literal byte]) := by
  rw [tokenizeFrom]
  · intro next tail hbyte hrest
    rw [hescape hbyte] at hrest
    cases hrest
  · exact hstar
  · exact hany
  · exact hclass

/-- The tokens of the text are those of its marks, read the way the code reads them. -/
theorem tokenizeFrom_text (fuel : Nat) (marks : List Mark) (tokens : List Token)
    (hlone : Lone marks) :
    tokenizeFrom fuel (marks.flatMap Mark.text) tokens = tokensFrom Mark.read fuel marks tokens := by
  induction fuel generalizing marks tokens with
  | zero => rfl
  | succ fuel ih =>
    cases marks with
    | nil => rfl
    | cons mark rest =>
      rw [tokensFrom, List.flatMap_cons]
      cases hread : mark.read with
      | false =>
        rw [Mark.text_of_not_read hread]
        simp only [Bool.and_false, Bool.false_eq_true, if_false]
        exact (tokenizeFrom_escape fuel mark.1 _ tokens).trans (ih rest _ hlone.2)
      | true =>
        rw [Mark.text_of_read hread]
        simp only [Bool.and_true, beq_iff_eq]
        show tokenizeFrom (fuel + 1) (mark.1 :: rest.flatMap Mark.text) tokens = _
        by_cases hstar : mark.1 = 42
        · rw [if_pos hstar, hstar]
          exact ih rest _ hlone.2
        by_cases hany : mark.1 = 63
        · rw [if_neg hstar, if_pos hany, hany]
          exact ih rest _ hlone.2
        by_cases hclass : mark.1 = 91
        · rw [if_neg hstar, if_neg hany, if_pos hclass, hclass]
          have hparsed := parseClass_text rest hlone.2
          cases hfound : readClass Mark.read rest with
          | none =>
            rw [hfound] at hparsed
            rw [tokenizeFrom_bracket fuel tokens hparsed]
            exact ih rest _ hlone.2
          | some text =>
            obtain ⟨front, hfront⟩ := readClass_suffix hfound
            have hrest : Lone text.rest := by
              have hsuffix := hlone.2
              rw [hfront] at hsuffix
              exact (Lone.suffix hsuffix).2
            rw [hfound] at hparsed
            rw [tokenizeFrom_class fuel tokens hparsed]
            exact ih text.rest _ hrest
        · rw [if_neg hstar, if_neg hany, if_neg hclass,
            tokenizeFrom_plain fuel _ tokens hstar hany hclass]
          · exact ih rest _ hlone.2
          · intro hescape
            rw [hlone.rest_nil hescape hread]
            rfl

/-! ### One round of the tokenizer -/

/-- The marks left and the tokens after a round over marks that start with this one. -/
def tokenStep (active : Mark → Bool) (mark : Mark) (rest : List Mark) (tokens : List Token) :
    List Mark × List Token :=
  if mark.1 == 42 && active mark then
    (rest, if tokens.getLast? = some .AnyBytes then tokens else tokens ++ [.AnyBytes])
  else if mark.1 == 63 && active mark then (rest, tokens ++ [.AnyByte])
  else if mark.1 == 91 && active mark then
    match readClass active rest with
    | some text => (text.rest, tokens ++ [.Class (text.byteClass active)])
    | none => (rest, tokens ++ [.Literal 91])
  else (rest, tokens ++ [.Literal mark.1])

theorem tokensFrom_step (active : Mark → Bool) (fuel : Nat) (mark : Mark) (rest : List Mark)
    (tokens : List Token) :
    tokensFrom active (fuel + 1) (mark :: rest) tokens =
      tokensFrom active fuel (tokenStep active mark rest tokens).1
        (tokenStep active mark rest tokens).2 := by
  rw [tokensFrom]
  unfold tokenStep
  split
  · rfl
  · split
    · rfl
    · split
      · cases readClass active rest <;> rfl
      · rfl

theorem tokenStep_class {active : Mark → Bool} {mark : Mark} {rest : List Mark} {text : ClassText}
    (tokens : List Token) (hbyte : mark.1 = 91) (hactive : active mark = true)
    (hfound : readClass active rest = some text) :
    tokenStep active mark rest tokens =
      (text.rest, tokens ++ [.Class (text.byteClass active)]) := by
  unfold tokenStep
  rw [hfound, hbyte, hactive]
  rfl

/-- Outside of bracket expressions, a round takes one mark. -/
theorem tokenStep_rest {active : Mark → Bool} {mark : Mark} {rest : List Mark} (tokens : List Token)
    (h : mark.1 = 91 → active mark = true → readClass active rest = none) :
    (tokenStep active mark rest tokens).1 = rest := by
  unfold tokenStep
  split
  · rfl
  · split
    · rfl
    · split
      · rename_i hclass
        rw [Bool.and_eq_true, beq_iff_eq] at hclass
        rw [h hclass.1 hclass.2]
      · rfl

theorem length_tokenStep (active : Mark → Bool) (mark : Mark) (rest : List Mark)
    (tokens : List Token) : (tokenStep active mark rest tokens).1.length ≤ rest.length := by
  by_cases hclass : mark.1 = 91 ∧ active mark = true
  · cases hfound : readClass active rest with
    | none => rw [tokenStep_rest tokens fun _ _ => hfound]
    | some text =>
      obtain ⟨front, hfront⟩ := readClass_suffix hfound
      rw [tokenStep_class tokens hclass.1 hclass.2 hfound, hfront, List.length_append,
        List.length_cons]
      show text.rest.length ≤ _
      omega
  · rw [tokenStep_rest tokens fun hbyte hactive => absurd ⟨hbyte, hactive⟩ hclass]

/-- More rounds than there are marks change nothing. -/
theorem tokensFrom_fuel (active : Mark → Bool) {n m : Nat} {marks : List Mark} (tokens : List Token)
    (hn : marks.length ≤ n) (hm : marks.length ≤ m) :
    tokensFrom active n marks tokens = tokensFrom active m marks tokens := by
  induction n generalizing m marks tokens with
  | zero =>
    rw [List.eq_nil_of_length_eq_zero (Nat.le_zero.mp hn)]
    cases m <;> rfl
  | succ n ih =>
    cases marks with
    | nil => cases m <;> rfl
    | cons mark rest =>
      cases m with
      | zero => exact absurd hm (Nat.not_succ_le_zero _)
      | succ m =>
        have hshorter := length_tokenStep active mark rest tokens
        rw [tokensFrom_step, tokensFrom_step]
        exact ih _ (hshorter.trans (Nat.le_of_succ_le_succ hn))
          (hshorter.trans (Nat.le_of_succ_le_succ hm))

theorem length_le_text (marks : List Mark) : marks.length ≤ (marks.flatMap Mark.text).length := by
  induction marks with
  | nil => exact Nat.le_refl 0
  | cons mark rest ih =>
    have hone : 1 ≤ mark.text.length := by
      unfold Mark.text
      split
      · exact Nat.le_refl 1
      · exact Nat.le_succ 1
    rw [List.flatMap_cons, List.length_append, List.length_cons]
    omega

theorem tokenize_encode {marks : List MarkedByte} (honce : quotedOnce marks = true)
    (hapart : escapesApart marks = true) :
    tokenize (encode marks) = tokensFrom Mark.read (resolve marks).length (resolve marks) [] := by
  unfold tokenize
  rw [encode_eq_text marks honce hapart, tokenizeFrom_text _ _ _ (lone_resolve marks)]
  exact tokensFrom_fuel Mark.read [] (length_le_text _) (Nat.le_refl _)

/-! ### Where quoting makes no difference -/

theorem Mark.read_of_meant {mark : Mark} (h : mark.meant = true) : mark.read = true := by
  unfold Mark.read
  rw [show (mark.2 == .Plain) = true from h, Bool.true_or]

/-- A special byte has a backslash where it is quoted. -/
theorem Mark.read_eq_meant {mark : Mark} (hspecial : isPatternSpecial mark.1 = true) :
    mark.read = mark.meant := by
  unfold Mark.read Mark.meant
  rw [hspecial, Bool.not_true, Bool.and_false, Bool.or_false]

theorem classMembers_meant {marks members members' rest : List Mark} {closing : Mark}
    (h : classMembers Mark.read marks members = some (members', closing, rest))
    (hclosing : closing.meant = true) :
    classMembers Mark.meant marks members = some (members', closing, rest) := by
  induction marks generalizing members with
  | nil => cases h
  | cons mark marks ih =>
    rw [classMembers] at h ⊢
    split at h
    · cases h
      rename_i hclose
      rw [Bool.and_eq_true] at hclose
      rw [hclose.1, hclosing]
      rfl
    · rename_i hopen
      rw [if_neg]
      · exact ih h
      · intro hclose
        rw [Bool.and_eq_true] at hclose
        apply hopen
        rw [hclose.1, Mark.read_of_meant hclose.2]
        rfl

theorem classNegation_meant {marks : List Mark}
    (h : (classNegation Mark.read marks).1.all Mark.meant = true) :
    classNegation Mark.meant marks = classNegation Mark.read marks := by
  cases marks with
  | nil => rfl
  | cons mark rest =>
    by_cases hread : (mark.1 = 33 ∨ mark.1 = 94) ∧ mark.read = true
    · rw [classNegation_acts rest hread.1 hread.2] at h ⊢
      exact classNegation_acts rest hread.1 h
    · rw [classNegation_none rest hread, classNegation_none]
      intro hmeant
      exact hread ⟨hmeant.1, Mark.read_of_meant hmeant.2⟩

/-- A quoted bracket that closes at once is a member in either way. -/
theorem classMembers_classStart (marks : List Mark) :
    classMembers Mark.meant (classStart Mark.meant marks).2 (classStart Mark.meant marks).1 =
      classMembers Mark.meant (classStart Mark.read marks).2 (classStart Mark.read marks).1 := by
  cases marks with
  | nil => rfl
  | cons mark rest =>
    by_cases hread : mark.1 = 93 ∧ mark.read = true
    · rw [classStart_acts rest hread.1 hread.2]
      cases hmeant : mark.meant with
      | true => rw [classStart_acts rest hread.1 hmeant]
      | false =>
        rw [classStart_none rest (by simp [hmeant]), classMembers, hmeant, Bool.and_false,
          if_neg Bool.false_ne_true]
        rfl
    · rw [classStart_none rest hread, classStart_none]
      intro hmeant
      exact hread ⟨hmeant.1, Mark.read_of_meant hmeant.2⟩

theorem readClass_meant {marks : List Mark} {text : ClassText}
    (h : readClass Mark.read marks = some text) (hliteral : text.literal = true) :
    readClass Mark.meant marks = some text := by
  rw [readClass_eq] at h ⊢
  obtain ⟨⟨members, closing, rest⟩, hfound, rfl⟩ := Option.map_eq_some_iff.mp h
  unfold ClassText.literal at hliteral
  rw [Bool.and_eq_true, Bool.and_eq_true] at hliteral
  rw [classNegation_meant hliteral.1.1, classMembers_classStart,
    classMembers_meant hfound hliteral.1.2]
  rfl

theorem classRanges_dash (active : Mark → Bool) (first dash last : Mark) (rest : List Mark) :
    classRanges ((first :: dash :: last :: rest).map fun mark => (mark.1, !active mark)) =
      if dash.1 = 45 ∧ active dash = true then
        (first.1, last.1) :: classRanges (rest.map fun mark => (mark.1, !active mark))
      else (first.1, first.1) ::
        classRanges ((dash :: last :: rest).map fun mark => (mark.1, !active mark)) := by
  by_cases h : dash.1 = 45 ∧ active dash = true
  · rw [if_pos h, List.map_cons, List.map_cons, List.map_cons, h.1, h.2]
    rfl
  · rw [if_neg h, List.map_cons, classRanges]
    · intro last tail htail
      rw [List.map_cons] at htail
      obtain ⟨hdash, hactive⟩ := Prod.mk.inj (List.cons.inj htail).1
      exact h ⟨hdash, by simpa using hactive⟩

/-- A dash needs a byte on both sides. -/
theorem classRanges_pair (first second : UInt8 × Bool) :
    classRanges [first, second] = [(first.1, first.1), (second.1, second.1)] := by
  rw [classRanges]
  · rfl
  · intro last tail htail
    cases (List.cons.inj htail).2

theorem classRanges_meant (members : List Mark) (h : literalDashes members = true) :
    classRanges (members.map fun mark => (mark.1, !mark.meant)) =
      classRanges (members.map fun mark => (mark.1, !mark.read)) := by
  fun_induction literalDashes members with
  | case1 => rfl
  | case2 member => rfl
  | case3 first second =>
    simp only [List.map_cons, List.map_nil, classRanges_pair]
  | case4 first dash last rest hdash ih =>
    rw [Bool.and_eq_true] at h
    rw [Bool.and_eq_true, beq_iff_eq] at hdash
    rw [classRanges_dash, classRanges_dash, if_pos ⟨hdash.1, h.1⟩, if_pos hdash, ih h.2]
  | case5 first dash last rest hdash ih =>
    rw [Bool.and_eq_true, beq_iff_eq] at hdash
    rw [classRanges_dash, classRanges_dash, if_neg hdash, if_neg, ih h]
    intro hmeant
    exact hdash ⟨hmeant.1, Mark.read_of_meant hmeant.2⟩

theorem byteClass_meant {text : ClassText} (h : text.literal = true) :
    text.byteClass Mark.meant = text.byteClass Mark.read := by
  unfold ClassText.literal at h
  rw [Bool.and_eq_true] at h
  unfold ClassText.byteClass
  rw [classRanges_meant text.members h.2]

theorem tokenStep_meant_outside {mark : Mark} {rest : List Mark} (tokens : List Token)
    (h : mark.1 = 91 → mark.read = true →
      readClass Mark.read rest = none ∧ readClass Mark.meant rest = none) :
    tokenStep Mark.read mark rest tokens = tokenStep Mark.meant mark rest tokens := by
  unfold tokenStep
  by_cases hspecial : isPatternSpecial mark.1 = true
  · rw [Mark.read_eq_meant hspecial] at h ⊢
    by_cases hclass : (mark.1 == 91 && mark.meant) = true
    · have hbyte := hclass
      rw [Bool.and_eq_true, beq_iff_eq] at hbyte
      rw [if_pos hclass, if_pos hclass, (h hbyte.1 hbyte.2).1, (h hbyte.1 hbyte.2).2]
    · rw [if_neg hclass, if_neg hclass]
  · have hplain : mark.1 ≠ 42 ∧ mark.1 ≠ 63 ∧ mark.1 ≠ 91 := by
      unfold isPatternSpecial at hspecial
      simp only [Bool.or_eq_true, beq_iff_eq, not_or] at hspecial
      exact ⟨hspecial.1.1.1, hspecial.1.1.2, hspecial.1.2⟩
    rw [beq_false_of_ne hplain.1, beq_false_of_ne hplain.2.1, beq_false_of_ne hplain.2.2]
    rfl

/-- A round over literal marks takes the same tokens in either way and leaves literal marks. -/
theorem tokenStep_literal {fuel : Nat} {mark : Mark} {rest : List Mark} (tokens : List Token)
    (h : literalFrom (fuel + 1) (mark :: rest) = true) :
    tokenStep Mark.read mark rest tokens = tokenStep Mark.meant mark rest tokens ∧
      literalFrom fuel (tokenStep Mark.read mark rest tokens).1 = true := by
  rw [literalFrom] at h
  by_cases hclass : mark.1 = 91 ∧ mark.read = true
  · have hmeant : mark.meant = true := by
      rw [← Mark.read_eq_meant (by rw [hclass.1]; rfl)]
      exact hclass.2
    rw [if_pos (by simp [hclass])] at h
    cases hfound : readClass Mark.read rest with
    | some text =>
      rw [hfound, Bool.and_eq_true] at h
      rw [tokenStep_class tokens hclass.1 hclass.2 hfound,
        tokenStep_class tokens hclass.1 hmeant (readClass_meant hfound h.1), byteClass_meant h.1]
      exact ⟨rfl, h.2⟩
    | none =>
      rw [hfound, Bool.and_eq_true, Option.isNone_iff_eq_none] at h
      rw [tokenStep_rest tokens fun _ _ => hfound]
      exact ⟨tokenStep_meant_outside tokens fun _ _ => ⟨hfound, h.1⟩, h.2⟩
  · rw [if_neg (by simpa using hclass)] at h
    have hnone : ∀ {P : Prop}, mark.1 = 91 → mark.read = true → P := by
      intro P hbyte hread
      exact absurd ⟨hbyte, hread⟩ hclass
    rw [tokenStep_rest tokens hnone]
    exact ⟨tokenStep_meant_outside tokens hnone, h⟩

theorem tokensFrom_meant {fuel : Nat} {marks : List Mark} (tokens : List Token)
    (h : literalFrom fuel marks = true) :
    tokensFrom Mark.read fuel marks tokens = tokensFrom Mark.meant fuel marks tokens := by
  induction fuel generalizing marks tokens with
  | zero => rfl
  | succ fuel ih =>
    cases marks with
    | nil => rfl
    | cons mark rest =>
      obtain ⟨hstep, hrest⟩ := tokenStep_literal tokens h
      rw [tokensFrom_step, tokensFrom_step, ← hstep]
      exact ih _ hrest

/-- Where the quotes are literal, the code takes the tokens that are meant. -/
theorem tokenize_of_literalQuotes {marks : List MarkedByte} (h : literalQuotes marks = true) :
    tokenize (encode marks) = meantTokens marks := by
  unfold literalQuotes at h
  rw [Bool.and_eq_true, Bool.and_eq_true] at h
  rw [tokenize_encode h.1.1 h.1.2, tokensFrom_meant [] h.2]
  rfl

end ProcmailRs.Config
