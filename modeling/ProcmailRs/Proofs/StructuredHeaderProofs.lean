import ProcmailRs.StructuredHeader
import ProcmailRs.Lib.FirstSeen
import ProcmailRs.Proofs.GeneratedFieldProofs

/-!
# Keywords

The keywords of a header are the distinct valid tokens of its keyword fields, in the order of their
first occurrence; the keywords of a configured value are its distinct tokens. A joined list of
keywords has these keywords as its tokens.
-/

namespace ProcmailRs

open FirstSeen

/-! ### The tokens of a text -/

/-- The parts of a text between separators, without the empty ones. -/
def tokensBy (p : UInt8 → Bool) (text : Bytes) : List Bytes :=
  (text.splitOnP p).filter fun token => !token.isEmpty

section Tokens

variable {p : UInt8 → Bool}

@[simp] theorem tokensBy_nil : tokensBy p [] = [] := rfl

theorem tokensBy_separator {byte : UInt8} (h : p byte = true) (text : Bytes) :
    tokensBy p (byte :: text) = tokensBy p text := by
  have hsplit : ([] ++ byte :: text).splitOnP p = [] :: text.splitOnP p :=
    List.splitOnP_append_cons_of_forall_mem (by simp) byte h text
  rw [List.nil_append] at hsplit
  rw [tokensBy, hsplit, List.filter_cons_of_neg (by simp), tokensBy]

theorem tokensBy_token {token : Bytes} (hne : token ≠ []) (htoken : ∀ b ∈ token, p b = false)
    {byte : UInt8} (h : p byte = true) (text : Bytes) :
    tokensBy p (token ++ byte :: text) = token :: tokensBy p text := by
  rw [tokensBy, List.splitOnP_append_cons_of_forall_mem htoken byte h,
    List.filter_cons_of_pos (by simpa using hne), tokensBy]

end Tokens

/-- The valid keywords among some tokens. -/
def validKeywords (tokens : List Bytes) : List String := tokens.filterMap validKeywordStr

/-! ### Collecting -/

/-- The visitor that keeps every keyword it is shown. -/
def collectKeyword (keywords : List String) (keyword : String) : Except Empty (Bool × List String) :=
  .ok (false, keywords ++ [keyword])

/-- The tokens of one keyword field, collected behind what has been seen. -/
theorem visitKeywordTokens_collect {count : Nat} {seen : List String} (tokens : List Bytes)
    (hcount : count ≤ maxStructuredHeaderValues) :
    visitKeywordTokens collectKeyword tokens ⟨count, seen⟩ seen =
      if count + (validKeywords tokens).length ≤ maxStructuredHeaderValues then
        .ok (false, ⟨count + (validKeywords tokens).length, (validKeywords tokens).foldl insertNew seen⟩,
          (validKeywords tokens).foldl insertNew seen)
      else .error (.Header workLimitError) := by
  induction tokens generalizing count seen with
  | nil => simp [visitKeywordTokens, validKeywords, hcount]
  | cons token rest ih =>
    cases hvalid : validKeywordStr token with
    | none =>
      have hwords : validKeywords (token :: rest) = validKeywords rest := by
        simp [validKeywords, hvalid]
      rw [visitKeywordTokens, hvalid, hwords]
      exact ih hcount
    | some keyword =>
      have hwords : validKeywords (token :: rest) = keyword :: validKeywords rest := by
        simp [validKeywords, hvalid]
      rw [visitKeywordTokens, hvalid, hwords, List.length_cons, List.foldl_cons]
      by_cases hfull : count + 1 > maxStructuredHeaderValues
      · simp only [if_pos hfull]
        rw [if_neg (by omega)]
      · have hsum : count + 1 + (validKeywords rest).length = count + ((validKeywords rest).length + 1) := by
          omega
        simp only [if_neg hfull]
        by_cases hseen : seen.contains keyword = true
        · have hrest := @ih (count + 1) seen (by omega)
          rw [hsum] at hrest
          rw [insertNew, if_pos hseen, if_pos hseen]
          exact hrest
        · have hrest := @ih (count + 1) (seen ++ [keyword]) (by omega)
          rw [hsum] at hrest
          rw [insertNew, if_neg hseen, if_neg hseen]
          exact hrest

/-- The valid keywords of a field, when it is one of the wanted ones. -/
def keywordsIn (wanted : List KeywordField) (field : Field) : List String :=
  match field.name, field.value with
  | some name, some value =>
    if wanted.any fun keyword => eqIgnoreAsciiCase name keyword.name.bytes then
      validKeywords (keywordTokens value)
    else []
  | _, _ => []

/-- All valid keywords of the wanted fields, in order and with duplicates. -/
def allKeywords (wanted : List KeywordField) (fields : List Field) : List String :=
  fields.flatMap (keywordsIn wanted)

/-- What `visitKeywords` does with one field. -/
def visitWanted (wanted : List KeywordField) (state : KeywordScan × List String)
    (name value : Bytes) :
    Except (StructuredVisitError Empty) (Bool × KeywordScan × List String) :=
  if wanted.any fun keyword => eqIgnoreAsciiCase name keyword.name.bytes then
    visitKeywordTokens collectKeyword (keywordTokens value) state.1 state.2
  else .ok (false, state)

theorem visitFields_collect {wanted : List KeywordField} {count : Nat} {seen : List String}
    (fields : List Field) (hcount : count ≤ maxStructuredHeaderValues) :
    visitFields (visitWanted wanted) fields (⟨count, seen⟩, seen) =
      if count + (allKeywords wanted fields).length ≤ maxStructuredHeaderValues then
        .ok (false, ⟨count + (allKeywords wanted fields).length,
          (allKeywords wanted fields).foldl insertNew seen⟩,
          (allKeywords wanted fields).foldl insertNew seen)
      else .error (.Header workLimitError) := by
  induction fields generalizing count seen with
  | nil => simp [visitFields, allKeywords, hcount]
  | cons field rest ih =>
    have hwords : allKeywords wanted (field :: rest) =
        keywordsIn wanted field ++ allKeywords wanted rest := rfl
    cases hname : field.name with
    | none =>
      have hnone : keywordsIn wanted field = [] := by simp [keywordsIn, hname]
      rw [visitFields, hname, hwords, hnone, List.nil_append]
      exact ih hcount
    | some name =>
    cases hvalue : field.value with
    | none =>
      have hnone : keywordsIn wanted field = [] := by simp [keywordsIn, hvalue]
      rw [visitFields, hname, hvalue, hwords, hnone, List.nil_append]
      exact ih hcount
    | some value =>
    rw [visitFields, hname, hvalue, hwords]
    by_cases hwanted : (wanted.any fun keyword => eqIgnoreAsciiCase name keyword.name.bytes) = true
    · have hin : keywordsIn wanted field = validKeywords (keywordTokens value) := by
        simp only [keywordsIn, hname, hvalue, if_pos hwanted]
      simp only [visitWanted, if_pos hwanted, visitKeywordTokens_collect (keywordTokens value) hcount,
        hin, List.length_append, List.foldl_append]
      by_cases hfits : count + (validKeywords (keywordTokens value)).length ≤ maxStructuredHeaderValues
      · simp only [if_pos hfits]
        rw [ih hfits, Nat.add_assoc]
      · simp only [if_neg hfits]
        rw [if_neg (by omega)]
    · have hnone : keywordsIn wanted field = [] := by
        simp only [keywordsIn, hname, hvalue, if_neg hwanted]
      simp only [visitWanted, if_neg hwanted, hnone, List.nil_append]
      exact ih hcount

/-- The keywords of a header, unless there is more to collect than is allowed. -/
theorem collectKeywords_eq (fields : List Field) (wanted : List KeywordField) :
    collectKeywords fields wanted =
      if (allKeywords wanted fields).length ≤ maxStructuredHeaderValues then
        .ok (allKeywords wanted fields).eraseDups
      else .error workLimitError := by
  have hvisit := @visitFields_collect wanted 0 [] fields (Nat.zero_le _)
  rw [Nat.zero_add, foldl_insertNew_nil] at hvisit
  have hcollect : visitKeywords fields wanted collectKeyword [] =
      if (allKeywords wanted fields).length ≤ maxStructuredHeaderValues then
        .ok (false, (allKeywords wanted fields).eraseDups)
      else .error (.Header workLimitError) := by
    have hvisitor : (fun (state : KeywordScan × List String) (name value : Bytes) =>
        if (wanted.any fun keyword => eqIgnoreAsciiCase name keyword.name.bytes) = true then
          visitKeywordTokens collectKeyword (keywordTokens value) state.1 state.2
        else .ok (false, state)) = visitWanted wanted := rfl
    unfold visitKeywords
    simp only
    rw [hvisitor, hvisit]
    split_ifs
    · rfl
    · rfl
  have hvisitor : (fun (keywords : List String) (keyword : String) =>
      (.ok (false, keywords ++ [keyword]) : Except Empty (Bool × List String))) =
        collectKeyword := rfl
  unfold collectKeywords
  simp only
  rw [hvisitor, hcollect]
  split_ifs
  · rfl
  · rfl

/-! ### Configured keywords -/

/-- The distinct tokens of a configured value, in the order of their first occurrence. -/
def configuredTokens (value : String) : List String :=
  (validKeywords (tokensBy (fun byte => isBlank byte || byte == 44) (strBytes value))).eraseDups

theorem parseKeywordTokens_eq_ok {count : Nat} {keywords result : List String} {tokens : List Bytes}
    (h : parseKeywordTokens count keywords tokens = .ok result) :
    result = (validKeywords tokens).foldl insertNew keywords := by
  induction tokens generalizing count keywords with
  | nil => exact (Except.ok.inj h).symm
  | cons token rest ih =>
    rw [parseKeywordTokens] at h
    cases hvalid : validKeywordStr token with
    | none =>
      rw [hvalid] at h
      cases h
    | some keyword =>
      have hwords : validKeywords (token :: rest) = keyword :: validKeywords rest := by
        simp [validKeywords, hvalid]
      rw [hvalid] at h
      simp only at h
      split_ifs at h
      · rw [hwords, List.foldl_cons, insertNew, if_pos (by assumption)]
        exact ih h
      · rw [hwords, List.foldl_cons, insertNew, if_neg (by assumption)]
        exact ih h

theorem parseConfiguredKeywords_eq_ok {value : String} {keywords : List String}
    (h : parseConfiguredKeywords value = .ok keywords) : keywords = configuredTokens value := by
  obtain ⟨parsed, hparse, h⟩ := bind_eq_ok h
  split_ifs at h
  obtain rfl := Except.ok.inj h
  rw [parseKeywordTokens_eq_ok hparse, foldl_insertNew_nil]
  rfl

/-! ### Valid keywords and their list -/

/-- A keyword that a token of a header can be. -/
def IsKeyword (keyword : String) : Prop := ∃ token, validKeywordStr token = some keyword

theorem isKeyword_of_mem_validKeywords {tokens : List Bytes} :
    ∀ keyword ∈ validKeywords tokens, IsKeyword keyword := by
  intro keyword hkeyword
  obtain ⟨token, -, htoken⟩ := List.mem_filterMap.mp hkeyword
  exact ⟨token, htoken⟩

theorem utf8EncodeChar_ofNat :
    ∀ b : UInt8, isGraphicByte b = true → String.utf8EncodeChar (Char.ofNat b.toNat) = [b] := by
  decide +kernel

theorem strBytes_asciiString {token : Bytes} (h : ∀ b ∈ token, isGraphicByte b = true) :
    strBytes (asciiString token) = token := by
  rw [strBytes, asciiString, String.toList_ofList]
  induction token with
  | nil => rfl
  | cons byte rest ih =>
    rw [List.map_cons, utf8_cons, utf8EncodeChar_ofNat byte (h byte (by simp)),
      ih fun b hb => h b (by simp [hb])]
    rfl

theorem validKeywordStr_eq_some {token : Bytes} {keyword : String}
    (h : validKeywordStr token = some keyword) :
    token = strBytes keyword ∧ token ≠ [] ∧ ∀ b ∈ token, isGraphicByte b = true ∧ b ≠ 44 := by
  rw [validKeywordStr] at h
  split_ifs at h with hinvalid
  obtain rfl := Option.some.inj h
  simp only [Bool.or_eq_true, List.isEmpty_iff, Bool.not_eq_true', not_or, Bool.not_eq_false,
    List.all_eq_true, Bool.and_eq_true, bne_iff_ne, ne_eq] at hinvalid
  exact ⟨(strBytes_asciiString fun b hb => (hinvalid.2 b hb).1).symm, hinvalid.1, hinvalid.2⟩

/-- A keyword is a token that stands for itself. -/
theorem IsKeyword.spec {keyword : String} (h : IsKeyword keyword) :
    validKeywordStr (strBytes keyword) = some keyword ∧ strBytes keyword ≠ [] ∧
      ∀ b ∈ strBytes keyword, isGraphicByte b = true ∧ b ≠ 44 := by
  obtain ⟨token, htoken⟩ := h
  obtain ⟨rfl, hne, hbytes⟩ := validKeywordStr_eq_some htoken
  exact ⟨htoken, hne, hbytes⟩

theorem joinKeywords_toList (keywords : List String) :
    (joinKeywords keywords).toList = [',', ' '].intercalate (keywords.map String.toList) :=
  String.toList_ofList

theorem strBytes_joinKeywords_cons (keyword next : String) (rest : List String) :
    strBytes (joinKeywords (keyword :: next :: rest)) =
      strBytes keyword ++ 44 :: SP :: strBytes (joinKeywords (next :: rest)) := by
  rw [strBytes, strBytes, strBytes, joinKeywords_toList, joinKeywords_toList, List.map_cons,
    List.map_cons, List.intercalate_cons_cons, utf8_append, utf8_append]
  rw [show utf8 [',', ' '] = [44, SP] by decide +kernel, List.append_assoc]
  rfl

theorem strBytes_joinKeywords_single (keyword : String) :
    strBytes (joinKeywords [keyword]) = strBytes keyword := by
  rw [strBytes, joinKeywords_toList, List.map_singleton, List.intercalate_singleton, strBytes]

theorem not_separator_of_keyword : ∀ b : UInt8, isGraphicByte b = true ∧ b ≠ 44 →
    (isAsciiWhitespace b || b == 44) = false := by
  decide +kernel

/-- The tokens of a line that lists keywords are these keywords. -/
theorem keywordTokens_joinKeywords {keywords : List String} (hne : keywords ≠ [])
    (hkeywords : ∀ keyword ∈ keywords, IsKeyword keyword) (lineEnding : LineEnding) :
    keywordTokens (strBytes (joinKeywords keywords) ++ lineEnding.bytes) = keywords.map strBytes := by
  have hfirst : ∃ byte rest, lineEnding.bytes = byte :: rest ∧ isAsciiWhitespace byte = true ∧
      tokensBy (fun byte => isAsciiWhitespace byte || byte == 44) rest = [] := by
    cases lineEnding with
    | Lf => exact ⟨LF, [], rfl, by decide, by decide⟩
    | CrLf => exact ⟨CR, [LF], rfl, by decide, by decide⟩
  show tokensBy (fun byte => isAsciiWhitespace byte || byte == 44) _ = _
  induction keywords with
  | nil => exact absurd rfl hne
  | cons keyword rest ih =>
    obtain ⟨-, hword, hbytes⟩ := (hkeywords keyword (by simp)).spec
    have hplain : ∀ b ∈ strBytes keyword, (isAsciiWhitespace b || b == 44) = false :=
      fun b hb => not_separator_of_keyword b (hbytes b hb)
    cases rest with
    | nil =>
      obtain ⟨byte, tail, hbyte, hspace, htail⟩ := hfirst
      rw [strBytes_joinKeywords_single, hbyte, tokensBy_token hword hplain (by simp [hspace]), htail]
      rfl
    | cons next rest =>
      rw [strBytes_joinKeywords_cons, List.append_assoc, List.cons_append, List.cons_append,
        tokensBy_token hword hplain (by decide), tokensBy_separator (by decide),
        ih (by simp) (fun k hk => hkeywords k (by simp [hk]))]
      rfl

theorem validKeywords_map_strBytes {keywords : List String}
    (hkeywords : ∀ keyword ∈ keywords, IsKeyword keyword) :
    validKeywords (keywords.map strBytes) = keywords := by
  induction keywords with
  | nil => rfl
  | cons keyword rest ih =>
    have hrest := ih fun k hk => hkeywords k (by simp [hk])
    rw [validKeywords] at hrest ⊢
    rw [List.map_cons, List.filterMap_cons, (hkeywords keyword (by simp)).spec.1, hrest]

/-- Every keyword takes at least one byte, and two more separate it from the next. -/
theorem length_joinKeywords {keywords : List String}
    (hkeywords : ∀ keyword ∈ keywords, IsKeyword keyword) :
    3 * keywords.length ≤ (strBytes (joinKeywords keywords)).length + 2 := by
  induction keywords with
  | nil => simp
  | cons keyword rest ih =>
    have hword := List.length_pos_iff.mpr (hkeywords keyword (by simp)).spec.2.1
    have hrest := ih fun k hk => hkeywords k (by simp [hk])
    cases rest with
    | nil =>
      rw [strBytes_joinKeywords_single, List.length_singleton]
      omega
    | cons next rest =>
      rw [strBytes_joinKeywords_cons]
      simp only [List.length_append, List.length_cons] at hrest ⊢
      omega

theorem toNat_ofNat_of_graphic :
    ∀ b : UInt8, isGraphicByte b = true → (Char.ofNat b.toNat).toNat < 128 := by
  decide +kernel

theorem IsKeyword.ascii {keyword : String} (h : IsKeyword keyword) :
    ∀ c ∈ keyword.toList, c.toNat < 128 := by
  obtain ⟨token, htoken⟩ := h
  obtain ⟨-, -, hbytes⟩ := validKeywordStr_eq_some htoken
  rw [validKeywordStr] at htoken
  split_ifs at htoken
  obtain rfl := Option.some.inj htoken
  rw [asciiString, String.toList_ofList]
  intro c hc
  obtain ⟨b, hb, rfl⟩ := List.mem_map.mp hc
  exact toNat_ofNat_of_graphic b (hbytes b hb).1

theorem isAsciiValue_joinKeywords {keywords : List String}
    (hkeywords : ∀ keyword ∈ keywords, IsKeyword keyword) :
    isAsciiValue (joinKeywords keywords) = true := by
  rw [isAsciiValue, joinKeywords_toList, List.all_eq_true]
  intro c hc
  rw [decide_eq_true_eq]
  induction keywords with
  | nil => cases hc
  | cons keyword rest ih =>
    cases rest with
    | nil =>
      rw [List.map_singleton, List.intercalate_singleton] at hc
      exact (hkeywords keyword (by simp)).ascii c hc
    | cons next rest =>
      rw [List.map_cons, List.map_cons, List.intercalate_cons_cons, List.mem_append,
        List.mem_append] at hc
      rcases hc with (hc | hc) | hc
      · exact (hkeywords keyword (by simp)).ascii c hc
      · have hseparator : ∀ d ∈ [',', ' '], d.toNat < 128 := by simp
        exact hseparator c hc
      · exact ih (fun k hk => hkeywords k (by simp [hk])) hc

end ProcmailRs
