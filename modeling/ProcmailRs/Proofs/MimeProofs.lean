import ProcmailRs.Proofs.MimeTextProofs
import ProcmailRs.Proofs.VisitProofs

/-!
# The traversal of MIME parts

The traversal of a rendered tree shows a visitor the parts of the tree in the order in which they
begin. One round of the loop shows one part and what is nested in it; the rest follows by induction
on the tree.
-/

namespace ProcmailRs

/-! ### Boundaries -/

/-- A boundary that a header gives is not empty and not too long. -/
theorem boundary_of_headers {fields : List Field} {boundary : Bytes}
    (h : (partFromHeaders fields).2 = some boundary) :
    boundary ≠ [] ∧ boundary.length ≤ maxBoundaryLen := by
  have hparameter : ∀ (parsed : ParsedContentType) (param : Bytes),
      (∀ b, parsed.boundary = some b → b ≠ [] ∧ b.length ≤ maxBoundaryLen) →
      ∀ b, (parsed.addParameter param).boundary = some b → b ≠ [] ∧ b.length ≤ maxBoundaryLen := by
    intro parsed param hparsed b hb
    unfold ParsedContentType.addParameter at hb
    split at hb
    · exact hparsed b hb
    · split_ifs at hb with hname hvalue
      · obtain rfl := Option.some.inj hb
        exact ⟨by simpa using hvalue.1, hvalue.2⟩
      · exact hparsed b hb
      · exact hparsed b hb
      · exact hparsed b hb
  have hparsed : ∀ (value b : Bytes), (parseContentType value).boundary = some b →
      b ≠ [] ∧ b.length ≤ maxBoundaryLen := by
    intro value
    unfold parseContentType
    split
    · intro b hb
      cases hb
    · split
      · intro b hb
        cases hb
      · refine List.foldlRecOn (motive := fun parsed => ∀ b, parsed.boundary = some b →
          b ≠ [] ∧ b.length ≤ maxBoundaryLen) _ ParsedContentType.addParameter ?_ ?_
        · intro b hb
          cases hb
        · exact fun parsed hparsed param _ => hparameter parsed param hparsed
  have hfound : ∀ ct, (fields.foldl contentHeaders (none, none)).1 = some ct →
      ∀ b, ct.boundary = some b → b ≠ [] ∧ b.length ≤ maxBoundaryLen := by
    refine List.foldlRecOn (motive := fun found => ∀ ct, found.1 = some ct →
      ∀ b, ct.boundary = some b → b ≠ [] ∧ b.length ≤ maxBoundaryLen) _ contentHeaders
        ?_ ?_
    · intro ct hct
      cases hct
    · intro found hfound field _ ct hct
      unfold contentHeaders at hct
      split at hct
      · split_ifs at hct
        · obtain rfl := Option.some.inj hct
          exact hparsed _
        · exact hfound ct hct
        · exact hfound ct hct
      · exact hfound ct hct
  unfold partFromHeaders at h
  simp only at h
  cases hct : (fields.foldl contentHeaders (none, none)).1 with
  | none =>
    rw [hct] at h
    cases h
  | some ct =>
    rw [hct] at h
    exact hfound ct hct boundary h

/-! ### One round -/

section Round

variable {ε σ : Type} {visit : σ → MimePart → Except ε (Bool × σ)}
  {walk : Bytes → Bytes → Nat → σ → Except (StructuredVisitError ε) (Bool × Nat × σ)}

/-- What is left to do behind a delimiter. -/
def continueParts
    (walk : Bytes → Bytes → Nat → σ → Except (StructuredVisitError ε) (Bool × Nat × σ))
    (visit : σ → MimePart → Except ε (Bool × σ)) (boundary : Bytes) (fuel : Nat) (afterDelim : Bytes)
    (count : Nat) (s : σ) : Except (StructuredVisitError ε) (Bool × Nat × σ) :=
  if [DASH, DASH].isPrefixOf afterDelim then .ok (false, count, s)
  else walkParts walk visit boundary fuel (afterLineEnd afterDelim) count s

/-- A round shows one part, the parts in its body and the parts behind it. -/
theorem walkParts_round {boundary text after : Bytes} {fuel : Nat} {inner rest : List MimePart}
    {header : MimePart × Option Bytes} {partBody : Bytes}
    (hfound : findBoundary (text ++ (delimiter boundary ++ after)) (delimiter boundary) =
      some text.length)
    (hheader : partFromHeaders (rawFields (splitPartHeadersAndBody (trimLineEnding text)).1) = header)
    (hbody : (splitPartHeadersAndBody (trimLineEnding text)).2 = partBody)
    (hinner : ∀ count s,
      walkInner walk header partBody count s = visitLimited maxMimeParts visit inner count s)
    (hrest : ∀ count s, continueParts walk visit boundary fuel after count s =
      visitLimited maxMimeParts visit rest count s) (count : Nat) (s : σ) :
    walkParts walk visit boundary (fuel + 1) (text ++ (delimiter boundary ++ after)) count s =
      visitLimited maxMimeParts visit (header.1 :: (inner ++ rest)) count s := by
  have hdrop : (text ++ (delimiter boundary ++ after)).drop
      (text.length + (delimiter boundary).length) = after := by
    rw [← List.drop_drop, List.drop_left, List.drop_left]
  rw [walkParts, hfound, visitLimited]
  simp only
  rw [List.take_left, hdrop, hheader, hbody]
  by_cases hfull : count + 1 > maxMimeParts
  · rw [if_pos hfull, if_pos hfull]
  · rw [if_neg hfull, if_neg hfull]
    cases visit s header.1 with
    | error e => rfl
    | ok result =>
      obtain ⟨found, s⟩ := result
      cases found with
      | true => rfl
      | false =>
        simp only
        rw [hinner (count + 1) s, visitLimited_append]
        cases visitLimited maxMimeParts visit inner (count + 1) s with
        | error e => rfl
        | ok result =>
          obtain ⟨found, count, s⟩ := result
          cases found with
          | true => rfl
          | false => exact hrest count s

end Round

/-! ### Whole trees -/

/-- The pieces of a body, headers and parts counted alike. -/
def MimeParts.length : MimeParts → Nat
  | .nil => 0
  | .headers _ _ rest => rest.length + 1
  | .part _ _ rest => rest.length + 1

section Render

variable (eol : LineEnding) (boundary : Bytes)

/-- The epilogue is the end of the text. -/
theorem MimeParts.render_epilogue (epilogue : Bytes) :
    (parts : MimeParts) → parts.render eol boundary epilogue =
      parts.render eol boundary [] ++ epilogue
  | .nil => rfl
  | .headers header blank rest => by
    rw [MimeParts.render, MimeParts.render, MimeParts.render_epilogue epilogue rest]
    simp
  | .part header body rest => by
    rw [MimeParts.render, MimeParts.render, MimeParts.render_epilogue epilogue rest]
    simp

/-- The last delimiter ends in two dashes. -/
theorem MimeParts.getLast?_render :
    (parts : MimeParts) → (parts.render eol boundary []).getLast? = some DASH
  | .nil => rfl
  | .headers header blank rest => by
    rw [MimeParts.render, List.getLast?_append, MimeParts.getLast?_render rest]
    rfl
  | .part header body rest => by
    rw [MimeParts.render, List.getLast?_append, MimeParts.getLast?_render rest]
    rfl

/-- Every part takes at least its delimiter. -/
theorem MimeParts.length_le (epilogue : Bytes) :
    (parts : MimeParts) → parts.length ≤ (parts.render eol boundary epilogue).length
  | .nil => Nat.zero_le _
  | .headers header blank rest => by
    have hrest := MimeParts.length_le epilogue rest
    rw [MimeParts.length, MimeParts.render]
    simp only [List.length_append, delimiter, List.length_cons]
    omega
  | .part header body rest => by
    have hrest := MimeParts.length_le epilogue rest
    rw [MimeParts.length, MimeParts.render]
    simp only [List.length_append, delimiter, List.length_cons]
    omega

end Render

/-- Behind a line ending the delimiter is not the last one. -/
theorem continueParts_eol {ε σ : Type} {visit : σ → MimePart → Except ε (Bool × σ)}
    {walk : Bytes → Bytes → Nat → σ → Except (StructuredVisitError ε) (Bool × Nat × σ)}
    (boundary : Bytes) (fuel : Nat) (eol : LineEnding) (v : Bytes) (count : Nat) (s : σ) :
    continueParts walk visit boundary fuel (eol.bytes ++ v) count s =
      walkParts walk visit boundary fuel v count s := by
  have hnot : [DASH, DASH].isPrefixOf (eol.bytes ++ v) = false := by
    cases eol <;> rfl
  rw [continueParts, hnot, afterLineEnd_bytes]
  rfl

/-! #### Parts without a body -/

theorem terminated_linesText (eol : LineEnding) {header : List Bytes} (hne : header ≠ []) :
    Lines.Terminated isLF (linesText eol header) := by
  rw [linesText, ← List.dropLast_append_getLast hne, List.map_append, List.flatten_append]
  refine Lines.Terminated.append ?_
  rw [List.map_singleton, List.flatten_singleton, bytes_eq, ← List.append_assoc]
  exact Lines.Terminated.append (Lines.terminated_singleton.mpr rfl)

theorem start_linesText (eol : LineEnding) (preamble : List Bytes) :
    linesText eol preamble = [] ∨ Lines.Terminated isLF (linesText eol preamble) := by
  by_cases hnil : preamble = []
  · subst hnil
    exact Or.inl rfl
  · exact Or.inr (terminated_linesText eol hnil)

theorem terminated_headersText (eol : LineEnding) (header : List Bytes) (blank : Bool) :
    headersText eol header blank = [] ∨ Lines.Terminated isLF (headersText eol header blank) := by
  unfold headersText
  cases blank with
  | true =>
    refine Or.inr (Lines.Terminated.append ?_)
    rw [if_pos rfl, bytes_eq]
    exact Lines.Terminated.append (Lines.terminated_singleton.mpr rfl)
  | false =>
    rw [if_neg (by simp), List.append_nil]
    by_cases hne : header = []
    · subst hne
      exact Or.inl rfl
    · exact Or.inr (terminated_linesText eol hne)

theorem getLast?_linesText (eol : LineEnding) (header : List Bytes) :
    (linesText eol header).getLast? ≠ some CR := by
  by_cases hne : header = []
  · subst hne
    simp
  · have hterminated := terminated_linesText eol hne
    intro hlast
    rw [Lines.Terminated, hlast] at hterminated
    exact absurd hterminated (by decide)

theorem linesText_eq_intercalate (eol : LineEnding) {header : List Bytes} (hne : header ≠ []) :
    linesText eol header = eol.bytes.intercalate header ++ eol.bytes := by
  induction header with
  | nil => exact absurd rfl hne
  | cons line header ih =>
    have hcons : linesText eol (line :: header) = line ++ eol.bytes ++ linesText eol header := rfl
    cases header with
    | nil => rw [hcons, List.intercalate_singleton, linesText_nil, List.append_nil]
    | cons next header =>
      rw [hcons, ih (by simp), List.intercalate_cons_cons]
      simp

section Texts

variable (eol : LineEnding) {header : List Bytes} (h : ∀ line ∈ header, IsHeaderLine line)

include h

theorem getLast?_intercalate (hne : header ≠ []) :
    ∃ c, (eol.bytes.intercalate header).getLast? = some c ∧ c ≠ CR := by
  induction header with
  | nil => exact absurd rfl hne
  | cons line header ih =>
    cases header with
    | nil =>
      obtain ⟨hline, -, hlast⟩ := h line (by simp)
      refine ⟨line.getLast hline, ?_, ?_⟩
      · rw [List.intercalate_singleton, List.getLast?_eq_some_getLast hline]
      · intro hCR
        exact hlast (by rw [List.getLast?_eq_some_getLast hline, hCR])
    | cons next header =>
      obtain ⟨c, hc, hne⟩ := ih (fun line hline => h line (by simp [hline])) (by simp)
      refine ⟨c, ?_, hne⟩
      rw [List.intercalate_cons_cons, List.getLast?_append, hc]
      rfl

/-- The header of a part without a body is the whole part. -/
theorem split_headersText (blank : Bool) :
    rawFields (splitPartHeadersAndBody (trimLineEnding (headersText eol header blank))).1 =
        bareFields eol header blank ∧
      (splitPartHeadersAndBody (trimLineEnding (headersText eol header blank))).2 = [] := by
  cases blank with
  | true =>
    have htrim : trimLineEnding (headersText eol header true) = linesText eol header :=
      trimLineEnding_eq (getLast?_linesText eol header) eol
    rw [htrim, splitPartHeadersAndBody_linesText h]
    exact ⟨rfl, rfl⟩
  | false =>
    have htrim : trimLineEnding (headersText eol header false) = eol.bytes.intercalate header := by
      rw [headersText, if_neg (by simp), List.append_nil]
      by_cases hne : header = []
      · subst hne
        rfl
      · obtain ⟨c, hc, hCR⟩ := getLast?_intercalate eol h hne
        rw [linesText_eq_intercalate eol hne]
        refine trimLineEnding_eq ?_ eol
        rw [hc]
        exact fun heq => hCR (Option.some.inj heq)
    rw [htrim, splitPartHeadersAndBody_intercalate h]
    exact ⟨rfl, rfl⟩

end Texts

/-! #### Parts with a body -/

/-- The text of a part without the line ending of the delimiter; the body may lose a carriage return
at its end. -/
theorem trim_partText (eol : LineEnding) (header : List Bytes) (body : Bytes) :
    ∃ body', trimLineEnding (partText eol header body) =
        linesText eol header ++ (eol.bytes ++ body') ∧
      (body' = body ∨ body.getLast? = some CR ∧ body' = body.dropLast) := by
  have hassoc : partText eol header body = linesText eol header ++ eol.bytes ++ body ++ eol.bytes := rfl
  rw [hassoc]
  rcases trimLineEnding_cases (linesText eol header ++ eol.bytes ++ body) eol with htrim | ⟨hlast, htrim⟩
  · exact ⟨body, by rw [htrim, List.append_assoc], Or.inl rfl⟩
  · have hbody : body ≠ [] := by
      rintro rfl
      rw [List.append_nil, bytes_eq, ← List.append_assoc, List.getLast?_concat] at hlast
      exact absurd hlast (by decide)
    rw [List.getLast?_append_of_ne_nil _ hbody] at hlast
    refine ⟨body.dropLast, ?_, Or.inr ⟨hlast, rfl⟩⟩
    rw [htrim, List.dropLast_append_of_ne_nil hbody, List.append_assoc]

theorem terminated_partText (eol : LineEnding) (header : List Bytes) (body : Bytes) :
    Lines.Terminated isLF (partText eol header body) := by
  rw [partText, bytes_eq, ← List.append_assoc]
  exact Lines.Terminated.append (Lines.terminated_singleton.mpr rfl)

/-- The header of a part with a body, and the body if there are header lines. -/
theorem split_partText (eol : LineEnding) {header : List Bytes}
    (h : ∀ line ∈ header, IsHeaderLine line) (body : Bytes) :
    rawFields (splitPartHeadersAndBody (trimLineEnding (partText eol header body))).1 =
        headerFields eol header ∧
      (header ≠ [] →
        (splitPartHeadersAndBody (trimLineEnding (partText eol header body))).2 = body ∨
        body.getLast? = some CR ∧
          (splitPartHeadersAndBody (trimLineEnding (partText eol header body))).2 = body.dropLast) := by
  obtain ⟨body', htrim, hbody⟩ := trim_partText eol header body
  rw [htrim]
  by_cases hne : header = []
  · subst hne
    rw [linesText_nil, List.nil_append, rawFields_of_blank]
    exact ⟨rfl, fun hnot => absurd rfl hnot⟩
  · rw [splitPartHeadersAndBody_part h hne, rawFields_linesText_blank h]
    exact ⟨rfl, fun _ => hbody⟩

/-- A rendered multipart body without a carriage return at its end has a shorter epilogue. -/
theorem render_dropLast {eol : LineEnding} {boundary epilogue : Bytes} {preamble : List Bytes}
    {parts : MimeParts}
    (h : ((MimeBody.multipart boundary preamble parts epilogue).render eol).getLast? = some CR) :
    ((MimeBody.multipart boundary preamble parts epilogue).render eol).dropLast =
      (MimeBody.multipart boundary preamble parts epilogue.dropLast).render eol := by
  rw [MimeBody.render, MimeParts.render_epilogue, ← List.append_assoc] at h ⊢
  have hne : epilogue ≠ [] := by
    rintro rfl
    rw [List.append_nil, List.getLast?_append, MimeParts.getLast?_render] at h
    exact absurd (Option.some.inj h) (by decide)
  rw [List.dropLast_append_of_ne_nil hne, MimeBody.render,
    MimeParts.render_epilogue eol boundary epilogue.dropLast, ← List.append_assoc]

/-! ### The traversal -/

section Walk

variable {ε σ : Type} (visit : σ → MimePart → Except ε (Bool × σ)) (eol : LineEnding)

/-- An empty body has no parts. -/
theorem walkInner_nil (levels : Nat) (header : MimePart × Option Bytes) (count : Nat) (s : σ) :
    walkInner (walkMultipart visit levels) header [] count s =
      visitLimited maxMimeParts visit [] count s := by
  have hwalk : ∀ boundary, walkMultipart visit levels [] boundary count s = .ok (false, count, s) := by
    intro boundary
    cases levels with
    | zero => rfl
    | succ levels =>
      have hnone : findBoundary [] (delimiter boundary) = none := by
        rw [findBoundary, if_neg (by simp [delimiter_ne_nil])]
        rfl
      rw [walkMultipart, hnone]
      split_ifs <;> rfl
  unfold walkInner
  split
  · exact hwalk _
  · rfl

/-- The body of a part shows its parts, if it is a multipart body. -/
theorem walkInner_body {levels : Nat} {fields : List Field} {body : MimeBody} {partBody : Bytes}
    (hannounces : Announces (partFromHeaders fields) body)
    (hbody : (partFromHeaders fields).1.isMultipart = true → partBody = body.render eol ∨
      (body.render eol).getLast? = some CR ∧ partBody = (body.render eol).dropLast)
    (hwalk : ∀ boundary preamble parts epilogue,
      body = .multipart boundary preamble parts epilogue → boundary ≠ [] →
      ∀ (epilogue' : Bytes) (count : Nat) (s : σ),
        walkMultipart visit levels ((MimeBody.multipart boundary preamble parts epilogue').render eol)
          boundary count s = visitLimited maxMimeParts visit (body.preorder eol) count s)
    (count : Nat) (s : σ) :
    walkInner (walkMultipart visit levels) (partFromHeaders fields) partBody count s =
      visitLimited maxMimeParts visit (body.preorder eol) count s := by
  unfold walkInner
  cases body with
  | single text =>
    have hnone : (partFromHeaders fields).1.isMultipart = true → (partFromHeaders fields).2 = none :=
      hannounces
    split
    · rename_i hmultipart hboundary
      rw [hnone hmultipart] at hboundary
      cases hboundary
    · rfl
  | multipart boundary preamble parts epilogue =>
    obtain ⟨hmultipart, hboundary⟩ := hannounces
    have hwalk := hwalk boundary preamble parts epilogue rfl (boundary_of_headers hboundary).1
    have htext := hbody hmultipart
    rw [hmultipart, hboundary]
    simp only
    rcases htext with rfl | ⟨hlast, rfl⟩
    · exact hwalk epilogue count s
    · rw [render_dropLast hlast]
      exact hwalk epilogue.dropLast count s

/-- The same of what stands behind the header of a part. -/
theorem walkInner_partText {levels : Nat} {header : List Bytes} {body : MimeBody}
    (hheader : ∀ line ∈ header, IsHeaderLine line)
    (hannounces : Announces (partFromHeaders (headerFields eol header)) body)
    (hwalk : ∀ boundary preamble parts epilogue,
      body = .multipart boundary preamble parts epilogue → boundary ≠ [] →
      ∀ (epilogue' : Bytes) (count : Nat) (s : σ),
        walkMultipart visit levels ((MimeBody.multipart boundary preamble parts epilogue').render eol)
          boundary count s = visitLimited maxMimeParts visit (body.preorder eol) count s)
    (count : Nat) (s : σ) :
    walkInner (walkMultipart visit levels) (partFromHeaders (headerFields eol header))
        (splitPartHeadersAndBody (trimLineEnding (partText eol header (body.render eol)))).2 count s =
      visitLimited maxMimeParts visit (body.preorder eol) count s := by
  have hbody := (split_partText eol hheader (body.render eol)).2
  have hne : (partFromHeaders (headerFields eol header)).1.isMultipart = true → header ≠ [] := by
    rintro hmultipart rfl
    cases hmultipart
  exact walkInner_body visit eol hannounces (fun hmultipart => hbody (hne hmultipart)) hwalk count s

mutual

/-- A rendered multipart body shows its parts in order, whatever follows its last delimiter. -/
theorem walkMultipart_render : (body : MimeBody) → ∀ (boundary : Bytes) (preamble : List Bytes)
    (parts : MimeParts) (epilogue : Bytes), body = .multipart boundary preamble parts epilogue →
    body.WellFormed eol → boundary ≠ [] → ∀ levels : Nat, body.depth ≤ levels →
    ∀ (epilogue' : Bytes) (count : Nat) (s : σ),
      walkMultipart visit levels ((MimeBody.multipart boundary preamble parts epilogue').render eol)
        boundary count s = visitLimited maxMimeParts visit (body.preorder eol) count s
  | .single _, _, _, _, _, hbody => nomatch hbody
  | .multipart boundary preamble parts epilogue, _, _, _, _, rfl => by
    intro hformed hne levels hdepth epilogue' count s
    rw [MimeBody.WellFormed] at hformed
    obtain ⟨hLF, hpreamble, havoids, hparts⟩ := hformed
    rw [MimeBody.depth] at hdepth
    obtain ⟨levels, rfl⟩ : ∃ n, levels = n + 1 := ⟨levels - 1, by omega⟩
    have hfound := findBoundary_of_avoids hLF (start_linesText eol preamble) havoids (parts.render eol boundary epilogue')
    have hdrop : (linesText eol preamble ++ (delimiter boundary ++ parts.render eol boundary epilogue')).drop
        ((linesText eol preamble).length + (delimiter boundary).length) =
          parts.render eol boundary epilogue' := by
      rw [← List.drop_drop, List.drop_left, List.drop_left]
    have hfuel : parts.length ≤
        (linesText eol preamble ++ (delimiter boundary ++ parts.render eol boundary epilogue')).length := by
      have hle := MimeParts.length_le eol boundary epilogue' parts
      rw [List.length_append, List.length_append]
      omega
    rw [MimeBody.render, List.append_assoc, walkMultipart, if_neg (by simpa using hne), hfound]
    simp only
    rw [hdrop]
    exact continueParts_render parts boundary hLF hparts levels (by omega) epilogue' _ hfuel count s

/-- Behind a delimiter the parts that follow are shown in order. -/
theorem continueParts_render : (parts : MimeParts) → ∀ boundary : Bytes, LF ∉ boundary →
    parts.WellFormed eol boundary → ∀ levels : Nat, parts.depth ≤ levels →
    ∀ (epilogue : Bytes) (fuel : Nat), parts.length ≤ fuel → ∀ (count : Nat) (s : σ),
      continueParts (walkMultipart visit levels) visit boundary fuel
        (parts.render eol boundary epilogue) count s =
          visitLimited maxMimeParts visit (parts.preorder eol) count s
  | .nil => by
    intro boundary hLF hformed levels hdepth epilogue fuel hfuel count s
    have hlast : [DASH, DASH].isPrefixOf (MimeParts.nil.render eol boundary epilogue) = true := rfl
    rw [continueParts, if_pos hlast]
    rfl
  | .headers header blank rest => by
    intro boundary hLF hformed levels hdepth epilogue fuel hfuel count s
    rw [MimeParts.WellFormed] at hformed
    obtain ⟨hheader, havoids, hrest⟩ := hformed
    rw [MimeParts.length] at hfuel
    rw [MimeParts.depth] at hdepth
    obtain ⟨fuel, rfl⟩ : ∃ n, fuel = n + 1 := ⟨fuel - 1, by omega⟩
    have hfound := findBoundary_of_avoids hLF (terminated_headersText eol header blank) havoids
      (rest.render eol boundary epilogue)
    obtain ⟨hfields, hbody⟩ := split_headersText eol hheader blank
    have hround := walkParts_round hfound (congrArg partFromHeaders hfields) hbody
      (walkInner_nil visit levels _)
      (continueParts_render rest boundary hLF hrest levels hdepth epilogue fuel (by omega)) count s
    rw [MimeParts.render, MimeParts.preorder, List.append_assoc, List.append_assoc, continueParts_eol,
      hround, List.nil_append]
  | .part header body rest => by
    intro boundary hLF hformed levels hdepth epilogue fuel hfuel count s
    rw [MimeParts.WellFormed] at hformed
    obtain ⟨hheader, havoids, hannounces, hbodyformed, hrest⟩ := hformed
    rw [MimeParts.length] at hfuel
    rw [MimeParts.depth] at hdepth
    obtain ⟨fuel, rfl⟩ : ∃ n, fuel = n + 1 := ⟨fuel - 1, by omega⟩
    have hfound := findBoundary_of_avoids hLF (Or.inr (terminated_partText eol header (body.render eol)))
      havoids (rest.render eol boundary epilogue)
    have hfields := (split_partText eol hheader (body.render eol)).1
    have ih := walkMultipart_render body
    have hinner := walkInner_partText visit eol hheader hannounces
      fun boundary preamble parts epilogue heq hboundary =>
        ih boundary preamble parts epilogue heq hbodyformed hboundary levels (by omega)
    have hround := walkParts_round hfound (congrArg partFromHeaders hfields) rfl hinner
      (continueParts_render rest boundary hLF hrest levels (by omega) epilogue fuel (by omega)) count s
    rw [MimeParts.render, MimeParts.preorder, List.append_assoc, List.append_assoc, continueParts_eol,
      hround]

end

end Walk

/-! ### The message -/

/-- The message itself is shown before the parts of its body. -/
theorem anyMimePart_of_walkInner {ε σ : Type} {visit : σ → MimePart → Except ε (Bool × σ)}
    {rootHeader : List Field} {body : Bytes} {parts : List MimePart}
    (hinner : ∀ s, walkInner (walkMultipart visit maxMimeDepth) (partFromHeaders rootHeader) body 1 s =
      visitLimited maxMimeParts visit parts 1 s)
    (hparts : 1 + parts.length ≤ maxMimeParts) (s : σ) :
    anyMimePart rootHeader body visit s =
      visitResult (visitUntil visit ((partFromHeaders rootHeader).1 :: parts) s) := by
  have hlimit : ¬ 1 > maxMimeParts := by decide
  rw [anyMimePart, visitUntil, if_neg hlimit]
  cases visit s (partFromHeaders rootHeader).1 with
  | error e => rfl
  | ok result =>
    obtain ⟨found, s⟩ := result
    cases found with
    | true => rfl
    | false =>
      simp only
      rw [hinner, ← visitLimited_of_le visit hparts]
      cases visitLimited maxMimeParts visit parts 1 s <;> rfl

section Message

variable {eol : LineEnding} {rootHeader : List Field} {body : MimeBody}

theorem anyMimePart_render {ε σ : Type} (visit : σ → MimePart → Except ε (Bool × σ))
    (hroot : Announces (partFromHeaders rootHeader) body) (hformed : body.WellFormed eol)
    (hdepth : body.depth ≤ maxMimeDepth) (hparts : 1 + (body.preorder eol).length ≤ maxMimeParts)
    (s : σ) :
    anyMimePart rootHeader (body.render eol) visit s =
      visitResult (visitUntil visit ((partFromHeaders rootHeader).1 :: body.preorder eol) s) := by
  have hinner : ∀ s, walkInner (walkMultipart visit maxMimeDepth) (partFromHeaders rootHeader)
      (body.render eol) 1 s = visitLimited maxMimeParts visit (body.preorder eol) 1 s :=
    walkInner_body visit eol hroot (fun _ => Or.inl rfl)
      (fun boundary preamble parts epilogue heq hboundary =>
        walkMultipart_render visit eol body boundary preamble parts epilogue heq hformed hboundary
          maxMimeDepth hdepth) 1
  exact anyMimePart_of_walkInner hinner hparts s

theorem anyMimePart_keepAll (hroot : Announces (partFromHeaders rootHeader) body)
    (hformed : body.WellFormed eol) (hdepth : body.depth ≤ maxMimeDepth)
    (hparts : 1 + (body.preorder eol).length ≤ maxMimeParts) :
    anyMimePart rootHeader (body.render eol) keepAll [] =
      .ok (false, (partFromHeaders rootHeader).1 :: body.preorder eol) := by
  rw [anyMimePart_render keepAll hroot hformed hdepth hparts, visitUntil_keepAll]
  rfl

end Message

/-- The traversal of a message with a well-formed body shows the message and then every part once,
in the order in which they begin, and stops at the first part for which the visitor returns
`true`. -/
theorem anyMimePart_visits {eol : LineEnding} {rootHeader : List Field} {body : MimeBody}
    (hroot : Announces (partFromHeaders rootHeader) body) (hformed : body.WellFormed eol)
    (hdepth : body.depth ≤ maxMimeDepth) (hparts : 1 + (body.preorder eol).length ≤ maxMimeParts) :
    anyMimePart rootHeader (body.render eol) keepAll [] =
        .ok (false, (partFromHeaders rootHeader).1 :: body.preorder eol) ∧
      ∀ {ε σ : Type} (visit : σ → MimePart → Except ε (Bool × σ)) (s : σ),
        anyMimePart rootHeader (body.render eol) visit s =
          visitResult (visitUntil visit ((partFromHeaders rootHeader).1 :: body.preorder eol) s) :=
  ⟨anyMimePart_keepAll hroot hformed hdepth hparts,
    fun visit s => anyMimePart_render visit hroot hformed hdepth hparts s⟩

/-- A nested multipart body between an empty part and a part without a body. -/
def nestedExample : MimeBody :=
  .multipart (strBytes "outer") [strBytes "preamble"]
    (.headers [] false
      (.part [strBytes "Content-Type: multipart/alternative; boundary=inner"]
        (.multipart (strBytes "inner") [] (.part [strBytes "Content-Type: text/plain"]
          (.single (strBytes "text")) .nil) (strBytes " epilogue"))
        (.headers [strBytes "Content-Disposition: attachment; filename=a"] true .nil)))
    []

theorem anyMimePart_visits_nested :
    anyMimePart (rawFields (strBytes "Content-Type: multipart/mixed; boundary=outer\n\n"))
        (nestedExample.render .CrLf) keepAll [] =
      .ok (false, [⟨some (strBytes "multipart/mixed"), none, none⟩, ⟨none, none, none⟩,
        ⟨some (strBytes "multipart/alternative"), none, none⟩, ⟨some (strBytes "text/plain"), none, none⟩,
        ⟨none, some (strBytes "attachment"), some (strBytes "a")⟩]) := by
  have hinner : MimeBody.WellFormed .CrLf (.multipart (strBytes "inner") []
      (.part [strBytes "Content-Type: text/plain"] (.single (strBytes "text")) .nil)
      (strBytes " epilogue")) :=
    ⟨by decide +kernel, by decide +kernel, by decide +kernel,
      by decide +kernel, by decide +kernel, fun h => absurd h (by decide +kernel), trivial, trivial⟩
  have hformed : nestedExample.WellFormed .CrLf :=
    ⟨by decide +kernel, by decide +kernel, by decide +kernel,
      by decide +kernel, by decide +kernel,
      by decide +kernel, by decide +kernel, ⟨by decide +kernel, by decide +kernel⟩, hinner,
      by decide +kernel, by decide +kernel, trivial⟩
  have hroot : Announces (partFromHeaders (rawFields
      (strBytes "Content-Type: multipart/mixed; boundary=outer\n\n"))) nestedExample :=
    ⟨by decide +kernel, by decide +kernel⟩
  have hall := (anyMimePart_visits hroot hformed (by decide +kernel) (by decide +kernel)).1
  have hparts : (partFromHeaders (rawFields
      (strBytes "Content-Type: multipart/mixed; boundary=outer\n\n"))).1 ::
        nestedExample.preorder .CrLf =
      [⟨some (strBytes "multipart/mixed"), none, none⟩, ⟨none, none, none⟩,
        ⟨some (strBytes "multipart/alternative"), none, none⟩, ⟨some (strBytes "text/plain"), none, none⟩,
        ⟨none, some (strBytes "attachment"), some (strBytes "a")⟩] := by
    decide +kernel
  rw [hall, hparts]

end ProcmailRs
