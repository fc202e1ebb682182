import ProcmailRs.Config.ShellPattern
import ProcmailRs.Lib.Refinement
import ProcmailRs.Lib.Wildcard
import Mathlib.Order.Bounds.Basic

/-!
# Shell patterns match what they mean

A token list is a wildcard pattern, and the states of the matcher are the rows of its automaton. A
removal takes the shortest or the longest part of the value, at the given edge, that belongs to the
pattern; a transformation changes the bytes that belong to it.
-/

namespace ProcmailRs.ShellPattern

open Wildcard

/-! ### Tokens as wildcard patterns -/

/-- What a token means. -/
def Token.piece : Token → Piece UInt8
  | .Literal byte => .one fun b => byte == b
  | .AnyByte => .one fun _ => true
  | .AnyBytes => .many
  | .Class class_ => .one class_.matches

/-- The byte strings that belong to a token list. -/
def language (tokens : List Token) : Language UInt8 := Wildcard.language (tokens.map Token.piece)

theorem Token.isMany_piece (token : Token) : token.piece.isMany = (token == .AnyBytes) := by
  cases token with
  | AnyBytes => rfl
  | _ => rfl

theorem Token.takes_piece (token : Token) (byte : UInt8) :
    token.piece.takes byte = token.consumes byte := by
  cases token with
  | _ => rfl

theorem closeStars_eq (tokens : List Token) (states : List Bool) :
    closeStars tokens states = closeRow (tokens.map Token.piece) states := by
  induction tokens generalizing states with
  | nil => rfl
  | cons token tokens ih =>
    cases states with
    | nil => rfl
    | cons state states =>
      cases states with
      | nil => rfl
      | cons next states => rw [closeStars, ih, List.map_cons, closeRow, token.isMany_piece]

theorem advance_eq (byte : UInt8) (tokens : List Token) (states : List Bool) (reached : Bool) :
    advance byte tokens states reached =
      stepRow byte (tokens.map Token.piece) states reached := by
  induction tokens generalizing states reached with
  | nil => rfl
  | cons token tokens ih =>
    cases states with
    | nil => rfl
    | cons state states =>
      rw [advance, ih, List.map_cons, stepRow, token.isMany_piece, token.takes_piece]

theorem language_reverse (tokens : List Token) :
    language tokens.reverse = (language tokens).reverse := by
  rw [language, List.map_reverse, Wildcard.language_reverse, language]

/-! ### The end of a match -/

/-- The lengths of the beginnings of the input that belong to the tokens. -/
def ends (tokens : List Token) (input : Bytes) : Set Nat :=
  {n | n ≤ input.length ∧ input.take n ∈ language tokens}

/-- The length that is looked for. -/
def Selects (selection : Selection) (lengths : Set Nat) (n : Nat) : Prop :=
  match selection with
  | .Shortest => IsLeast lengths n
  | .Longest => IsGreatest lengths n

/-- What the matcher may return. -/
def Finds (selection : Selection) (lengths : Set Nat) : Option Nat → Prop
  | none => lengths = ∅
  | some n => Selects selection lengths n

/-- The marks of the states after a part of the input. -/
def Reads (tokens : List Token) (done : Bytes) (states : List Bool) : Prop :=
  Tracks 1 done (tokens.map Token.piece) states

theorem Reads.getLast {tokens : List Token} {done : Bytes} {states : List Bool}
    (h : Reads tokens done states) :
    states.getLast? = some true ↔ done ∈ language tokens := by
  rw [Tracks.getLast h, one_mul, language]

theorem Reads.step {tokens : List Token} {done : Bytes} {states : List Bool}
    (h : Reads tokens done states) (byte : UInt8) :
    Reads tokens (done ++ [byte]) (closeStars tokens (advance byte tokens states false)) := by
  rw [closeStars_eq, advance_eq]
  refine Tracks.step h byte ?_
  simp [Language.mem_one]

theorem reads_start (tokens : List Token) :
    Reads tokens [] (closeStars tokens (true :: tokens.map fun _ => false)) := by
  have hrow : closeStars tokens (true :: tokens.map fun _ => false) =
      startRow (tokens.map Token.piece) := by
    rw [closeStars_eq, startRow, List.map_map]
    rfl
  rw [Reads, hrow]
  exact tracks_startRow _

/-- The lengths up to that of the part already read. -/
def endsWithin (tokens : List Token) (input : Bytes) (bound : Nat) : Set Nat :=
  {n | n ∈ ends tokens input ∧ n ≤ bound}

theorem endsWithin_succ {tokens : List Token} {done rest : Bytes} {byte : UInt8} {n : Nat} :
    n ∈ endsWithin tokens (done ++ byte :: rest) (done.length + 1) ↔
      n ∈ endsWithin tokens (done ++ byte :: rest) done.length ∨
        (n = done.length + 1 ∧ done ++ [byte] ∈ language tokens) := by
  have htake : (done ++ byte :: rest).take (done.length + 1) = done ++ [byte] := by
    rw [List.take_append]
    simp
  constructor
  · rintro ⟨hends, hle⟩
    rcases Nat.lt_or_ge done.length n with hlt | hge
    · obtain rfl : n = done.length + 1 := by omega
      exact Or.inr ⟨rfl, htake ▸ hends.2⟩
    · exact Or.inl ⟨hends, hge⟩
  · rintro (⟨hends, hle⟩ | ⟨rfl, hmem⟩)
    · exact ⟨hends, by omega⟩
    · refine ⟨⟨by simp, ?_⟩, le_rfl⟩
      rw [htake]
      exact hmem

/-- The run over the rest of the input; the shortest match is looked for as long as there is none. -/
theorem endpointFrom_spec {tokens : List Token} {selection : Selection} {done rest : Bytes}
    {states : List Bool} {matched : Option Nat} (h : Reads tokens done states)
    (hmatched : Finds .Longest (endsWithin tokens (done ++ rest) done.length) matched)
    (hshortest : selection = .Shortest → matched = none) :
    Finds selection (ends tokens (done ++ rest))
      (endpointFrom tokens selection rest done.length states matched) := by
  induction rest generalizing done states matched with
  | nil =>
    have hall : endsWithin tokens (done ++ []) done.length = ends tokens (done ++ []) := by
      ext n
      refine ⟨fun hn => hn.1, fun hn => ⟨hn, ?_⟩⟩
      simpa using hn.1
    rw [hall] at hmatched
    cases hsel : selection with
    | Longest => exact hmatched
    | Shortest =>
      rw [hshortest hsel] at hmatched ⊢
      exact hmatched
  | cons byte rest ih =>
    have hnext := h.step byte
    have hlast := hnext.getLast
    have hshift : done ++ [byte] ++ rest = done ++ byte :: rest := by simp
    have hlen : (done ++ [byte]).length = done.length + 1 := by simp
    rw [endpointFrom]
    by_cases hmem : done ++ [byte] ∈ language tokens
    · rw [if_pos (hlast.mpr hmem)]
      have hin : done.length + 1 ∈ endsWithin tokens (done ++ byte :: rest) (done.length + 1) :=
        endsWithin_succ.mpr (Or.inr ⟨rfl, hmem⟩)
      split_ifs with hsel
      · -- nothing shorter has matched
        subst hsel
        rw [hshortest rfl] at hmatched
        refine ⟨hin.1, fun n hn => ?_⟩
        by_contra hlt
        have hearlier : n ∈ endsWithin tokens (done ++ byte :: rest) done.length :=
          ⟨hn, by omega⟩
        rw [show endsWithin tokens (done ++ byte :: rest) done.length = ∅ from hmatched] at hearlier
        exact hearlier
      · have hres := @ih _ _ (some (done.length + 1)) hnext ?_ (fun heq => absurd heq hsel)
        · rwa [hshift, hlen] at hres
        · rw [hshift, hlen]
          exact ⟨hin, fun n hn => hn.2⟩
    · rw [if_neg (fun heq => hmem (hlast.mp heq))]
      have hres := @ih _ _ matched hnext ?_ hshortest
      · rwa [hshift, hlen] at hres
      · rw [hshift, hlen]
        have hsame : endsWithin tokens (done ++ byte :: rest) (done.length + 1) =
            endsWithin tokens (done ++ byte :: rest) done.length := by
          ext n
          rw [endsWithin_succ]
          simp [hmem]
        rw [hsame]
        exact hmatched

/-- The matcher finds the shortest or the longest beginning that belongs to the tokens. -/
theorem matchingEndpointUnchecked_spec (input : Bytes) (tokens : List Token)
    (selection : Selection) :
    Finds selection (ends tokens input) (matchingEndpointUnchecked input tokens selection) := by
  have hstart := reads_start tokens
  have hlast := hstart.getLast
  have hnone : ∀ n, n ∈ endsWithin tokens ([] ++ input) ([] : Bytes).length ↔
      n = 0 ∧ [] ∈ language tokens := by
    intro n
    constructor
    · rintro ⟨hends, hle⟩
      obtain rfl : n = 0 := Nat.le_zero.mp hle
      exact ⟨rfl, by simpa using hends.2⟩
    · rintro ⟨rfl, hmem⟩
      exact ⟨⟨Nat.zero_le _, by simpa using hmem⟩, le_rfl⟩
  have hrun : ∀ {matched}, Finds .Longest (endsWithin tokens ([] ++ input) ([] : Bytes).length)
      matched → (selection = .Shortest → matched = none) →
      Finds selection (ends tokens input) (endpointFrom tokens selection input 0
        (closeStars tokens (true :: tokens.map fun _ => false)) matched) :=
    fun hmatched hshortest => endpointFrom_spec hstart hmatched hshortest
  rw [matchingEndpointUnchecked]
  by_cases hmem : [] ∈ language tokens
  · rw [if_pos (hlast.mpr hmem)]
    cases selection with
    | Shortest => exact ⟨⟨Nat.zero_le _, by simpa using hmem⟩, fun n _ => Nat.zero_le n⟩
    | Longest =>
      refine hrun ⟨(hnone 0).mpr ⟨rfl, hmem⟩, fun n hn => ?_⟩ (fun heq => by cases heq)
      exact le_of_eq ((hnone n).mp hn).1
  · rw [if_neg (fun heq => hmem (hlast.mp heq))]
    refine hrun ?_ fun _ => rfl
    show endsWithin tokens ([] ++ input) ([] : Bytes).length = ∅
    ext n
    rw [hnone]
    simp [hmem]

/-! ### Removal -/

/-- The part of the value of a length at an edge. -/
def Edge.part (edge : Edge) (value : Bytes) (n : Nat) : Bytes :=
  match edge with
  | .Prefix => value.take n
  | .Suffix => value.drop (value.length - n)

/-- The value without that part. -/
def Edge.without (edge : Edge) (value : Bytes) (n : Nat) : Bytes :=
  match edge with
  | .Prefix => value.drop n
  | .Suffix => value.take (value.length - n)

/-- The lengths of the parts at the edge that belong to a language. -/
def Edge.lengths (edge : Edge) (value : Bytes) (words : Language UInt8) : Set Nat :=
  {n | n ≤ value.length ∧ edge.part value n ∈ words}

theorem Edge.length_without (edge : Edge) {value : Bytes} {n : Nat} (hn : n ≤ value.length) :
    (edge.without value n).length = value.length - n := by
  cases edge with
  | Prefix => exact List.length_drop
  | Suffix =>
    rw [Edge.without, List.length_take]
    omega

/-- Only the empty part can be removed without a change. -/
theorem Edge.without_eq_self {edge : Edge} {value : Bytes} {n : Nat} (hn : n ≤ value.length) :
    edge.without value n = value ↔ n = 0 := by
  constructor
  · intro heq
    have hlen := congrArg List.length heq
    rw [edge.length_without hn] at hlen
    omega
  · rintro rfl
    cases edge with
    | Prefix => rfl
    | Suffix => exact List.take_length

/-- A suffix is a prefix of the reversed value. -/
theorem ends_reverse (tokens : List Token) (value : Bytes) :
    ends tokens.reverse value.reverse = Edge.lengths .Suffix value (language tokens) := by
  ext n
  have htake : value.reverse.take n = (value.drop (value.length - n)).reverse := List.take_reverse
  show n ≤ value.reverse.length ∧ value.reverse.take n ∈ language tokens.reverse ↔
    n ≤ value.length ∧ value.drop (value.length - n) ∈ language tokens
  rw [List.length_reverse, htake, language_reverse, Language.reverse_mem_reverse]

/-- What one step through a token costs. -/
def Token.cost : Token → Nat
  | .Class class_ => max class_.ranges.length 1
  | _ => 1

theorem transitionCost_eq (tokens : List Token) :
    transitionCost tokens = (tokens.map Token.cost).sum := by
  have hcost : transitionCost tokens = tokens.foldl (fun total token => total + token.cost) 0 := by
    rw [transitionCost]
    congr 1
  have hfold : ∀ total, tokens.foldl (fun total token => total + token.cost) total =
      total + (tokens.map Token.cost).sum := by
    clear hcost
    induction tokens with
    | nil => simp
    | cons token tokens ih =>
      intro total
      rw [List.foldl_cons, ih, List.map_cons, List.sum_cons, Nat.add_assoc]
  rw [hcost, hfold, Nat.zero_add]

theorem checkSteps_reverse (candidates inputLen : Nat) (tokens : List Token) :
    checkSteps candidates inputLen tokens.reverse = checkSteps candidates inputLen tokens := by
  have hcost : transitionCost tokens.reverse = transitionCost tokens := by
    rw [transitionCost_eq, transitionCost_eq, List.map_reverse, List.sum_reverse]
  simp only [checkSteps, hcost]

/-- What a removal leaves of the value, for the tokens of its pattern. -/
structure Removes (edge : Edge) (selection : Selection) (words : Language UInt8)
    (value result : Bytes) : Prop where
  removed : (edge.lengths value words = ∅ ∧ result = value) ∨
    ∃ n, Selects selection (edge.lengths value words) n ∧ result = edge.without value n
  unchanged : result = value ↔
    edge.lengths value words = ∅ ∨ Selects selection (edge.lengths value words) 0

theorem Selects.mem {selection : Selection} {lengths : Set Nat} {n : Nat}
    (h : Selects selection lengths n) : n ∈ lengths := by
  cases selection with
  | Shortest => exact h.1
  | Longest => exact h.1

theorem Selects.unique {selection : Selection} {lengths : Set Nat} {n m : Nat}
    (h : Selects selection lengths n) (h' : Selects selection lengths m) : n = m := by
  cases selection with
  | Shortest => exact IsLeast.unique h h'
  | Longest => exact IsGreatest.unique h h'

/-- The part that is found is the one that goes. -/
theorem removes_of_finds {edge : Edge} {selection : Selection} {words : Language UInt8}
    {value : Bytes} {found : Option Nat} (h : Finds selection (edge.lengths value words) found) :
    Removes edge selection words value ((found.map (edge.without value)).getD value) := by
  cases found with
  | none => exact ⟨Or.inl ⟨h, rfl⟩, ⟨fun _ => Or.inl h, fun _ => rfl⟩⟩
  | some n =>
    have hn : n ≤ value.length := (Selects.mem h).1
    refine ⟨Or.inr ⟨n, h, rfl⟩, ?_⟩
    show edge.without value n = value ↔ _
    rw [Edge.without_eq_self hn]
    constructor
    · rintro rfl
      exact Or.inr h
    · rintro (hempty | hzero)
      · have hmem := Selects.mem h
        rw [hempty] at hmem
        exact absurd hmem id
      · exact Selects.unique h hzero

theorem remove_spec {value pattern : Bytes} (edge : Edge) (selection : Selection)
    (hsteps : checkSteps 1 value.length (tokenize pattern) = .ok ()) :
    ∃ result, remove value pattern edge selection = .ok result ∧
      Removes edge selection (language (tokenize pattern)) value result := by
  cases edge with
  | Prefix =>
    have hfound := matchingEndpointUnchecked_spec value (tokenize pattern) selection
    refine ⟨_, ?_, @removes_of_finds .Prefix selection _ value _ hfound⟩
    simp only [remove, matchingEndpoint, hsteps, ok_bind]
    cases matchingEndpointUnchecked value (tokenize pattern) selection with
    | none => rfl
    | some n => rfl
  | Suffix =>
    have hfound :=
      matchingEndpointUnchecked_spec value.reverse (tokenize pattern).reverse selection
    rw [ends_reverse] at hfound
    refine ⟨_, ?_, @removes_of_finds .Suffix selection _ value _ hfound⟩
    simp only [remove, matchingEndpoint, List.length_reverse, checkSteps_reverse, hsteps, ok_bind]
    cases matchingEndpointUnchecked value.reverse (tokenize pattern).reverse selection with
    | none => rfl
    | some n => rfl

/-! ### Transformation -/

/-- The pattern of a transformation; an empty one means any byte. -/
def transformPattern (pattern : Bytes) : Bytes := if pattern.isEmpty then [63] else pattern

/-- A single byte belongs to the tokens when the longest match takes it. -/
theorem matches_byte (tokens : List Token) (byte : UInt8) :
    matchingEndpointUnchecked [byte] tokens .Longest = some 1 ↔ [byte] ∈ language tokens := by
  have hspec := matchingEndpointUnchecked_spec [byte] tokens .Longest
  have hone : 1 ∈ ends tokens [byte] ↔ [byte] ∈ language tokens :=
    ⟨fun h => h.2, fun h => ⟨le_rfl, h⟩⟩
  rw [← hone]
  constructor
  · intro heq
    rw [heq] at hspec
    exact hspec.1
  · intro hmem
    cases hfound : matchingEndpointUnchecked [byte] tokens .Longest with
    | none =>
      rw [hfound] at hspec
      rw [show ends tokens [byte] = ∅ from hspec] at hmem
      exact absurd hmem id
    | some n =>
      rw [hfound] at hspec
      have hle : n ≤ 1 := hspec.1.1
      have hge : 1 ≤ n := hspec.2 hmem
      rw [show n = 1 by omega]

open Classical in
/-- The byte after the transformation of those that belong to the language. -/
noncomputable def transformed (words : Language UInt8) (transform : UInt8 → UInt8) (byte : UInt8) :
    UInt8 :=
  if [byte] ∈ words then transform byte else byte

open Classical in
theorem transformMatchingBytes_spec {value pattern : Bytes} (all : Bool)
    (transform : UInt8 → UInt8)
    (hsteps : checkSteps (if all then value.length else min value.length 1) 1
      (tokenize (transformPattern pattern)) = .ok ()) :
    ∃ result, transformMatchingBytes value pattern all transform = .ok result ∧
      result.length = value.length ∧
      ∀ i (hi : i < value.length), result[i]? =
        some (if all = true ∨ i = 0 then
          transformed (language (tokenize (transformPattern pattern))) transform value[i]
        else value[i]) := by
  have hstep : (fun byte => if matchingEndpointUnchecked [byte]
      (tokenize (transformPattern pattern)) .Longest = some 1 then transform byte else byte) =
      transformed (language (tokenize (transformPattern pattern))) transform := by
    funext byte
    by_cases hmem : [byte] ∈ language (tokenize (transformPattern pattern))
    · rw [if_pos ((matches_byte _ _).mpr hmem), transformed, if_pos hmem]
    · rw [if_neg (fun heq => hmem ((matches_byte _ _).mp heq)), transformed, if_neg hmem]
  have hresult : transformMatchingBytes value pattern all transform = .ok (if all then
      value.map (transformed (language (tokenize (transformPattern pattern))) transform)
    else (value.take 1).map (transformed (language (tokenize (transformPattern pattern)))
      transform) ++ value.drop 1) := by
    rw [← hstep]
    simp only [transformMatchingBytes]
    rw [show (if pattern.isEmpty then [63] else pattern) = transformPattern pattern from rfl, hsteps]
    rfl
  refine ⟨_, hresult, ?_, fun i hi => ?_⟩
  · split_ifs
    · exact List.length_map _
    · rw [List.length_append, List.length_map, List.length_take, List.length_drop]
      omega
  · cases all with
    | true => simp [hi]
    | false =>
      cases value with
      | nil => exact absurd hi (by simp)
      | cons byte value =>
        cases i with
        | zero => simp
        | succ i =>
          have hi' : i < value.length := by simpa using hi
          simp [hi']

/-- Within the step limit, a removal takes the shortest or longest part at its edge that belongs to the
pattern and leaves the value alone exactly when there is none or it is empty; a transformation changes
the bytes, or the first one, that belong to the pattern, an empty one meaning any byte. -/
theorem shell_pattern_edges (value pattern : Bytes) :
    (∀ edge selection, checkSteps 1 value.length (tokenize pattern) = .ok () →
      ∃ result, remove value pattern edge selection = .ok result ∧
        Removes edge selection (language (tokenize pattern)) value result) ∧
    (∀ all transform, checkSteps (if all then value.length else min value.length 1) 1
        (tokenize (transformPattern pattern)) = .ok () →
      ∃ result, transformMatchingBytes value pattern all transform = .ok result ∧
        result.length = value.length ∧
        ∀ i (hi : i < value.length), result[i]? =
          some (if all = true ∨ i = 0 then
            transformed (language (tokenize (transformPattern pattern))) transform value[i]
          else value[i])) :=
  ⟨fun edge selection => remove_spec edge selection,
    fun all transform => transformMatchingBytes_spec all transform⟩

theorem shell_pattern_edges_slash :
    (∃ result, remove (strBytes "a/b/c") (strBytes "*/") .Suffix .Longest = .ok result ∧
      Removes .Suffix .Longest (language (tokenize (strBytes "*/"))) (strBytes "a/b/c") result) ∧
    ∃ result, transformMatchingBytes (strBytes "a/b/c") (strBytes "*/") true (fun byte => byte - 32) = .ok result ∧
      result.length = 5 :=
  ⟨(shell_pattern_edges (strBytes "a/b/c") (strBytes "*/")).1 .Suffix .Longest (by decide +kernel),
    ((shell_pattern_edges (strBytes "a/b/c") (strBytes "*/")).2 true (fun byte => byte - 32)
      (by decide +kernel)).imp fun _ h => ⟨h.1, h.2.1⟩⟩

/-- The empty prefix belongs to a star, so the shortest removal leaves the value alone; and an empty
pattern, to which no byte belongs, transforms every byte. -/
theorem shortest_star_and_empty_pattern :
    remove (strBytes "value") (strBytes "*") .Prefix .Shortest = .ok (strBytes "value") ∧
      (∃ n ≤ 5, (strBytes "value").take n ∈ language (tokenize (strBytes "*"))) ∧
      transformMatchingBytes (strBytes "a") [] true (fun _ => 65) = .ok (strBytes "A") ∧
      strBytes "a" ∉ language (tokenize []) := by
  refine ⟨by decide +kernel, ⟨0, Nat.zero_le _, ?_⟩, by decide +kernel, ?_⟩
  · have htokens : tokenize (strBytes "*") = [.AnyBytes] := by decide +kernel
    rw [htokens, language]
    show [] ∈ Wildcard.language [Piece.many]
    rw [language_cons, language_nil, mul_one]
    exact Piece.mem_many []
  · show strBytes "a" ∉ Wildcard.language []
    rw [language_nil, Language.mem_one]
    decide +kernel

end ProcmailRs.ShellPattern
