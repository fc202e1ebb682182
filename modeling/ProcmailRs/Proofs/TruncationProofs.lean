import ProcmailRs.Proofs.MimeProofs

/-!
# Truncated messages

A message that was cut short still begins with the message it was. The traversal shows a part only
when it finds the delimiter behind it, so that a part of the message, with everything nested in it, is
seen if the cut leaves that delimiter.
-/

namespace ProcmailRs

/-- Where a part stands in the text of a body: the text up to the blank line behind its header, if it
has one, and the text up to the delimiter behind the outermost part that it belongs to. -/
structure PartPlace where
  part : MimePart
  upToHeader : Option Bytes
  upToDelimiter : Bytes

mutual

/-- The places of the parts of a body that stands behind `before`. The body belongs to a part that ends
with `close`, or it is the body of the message. -/
def MimeBody.places (eol : LineEnding) (before : Bytes) (close : Option Bytes) :
    MimeBody → List PartPlace
  | .single _ => []
  | .multipart boundary preamble parts _ =>
    parts.places eol boundary (before ++ linesText eol preamble ++ delimiter boundary) close

/-- The places of the parts behind a delimiter, with which `before` ends. -/
def MimeParts.places (eol : LineEnding) (boundary before : Bytes) (close : Option Bytes) :
    MimeParts → List PartPlace
  | .nil => []
  | .headers header blank rest =>
    let text := before ++ eol.bytes ++ headersText eol header blank
    let stop := text ++ delimiter boundary
    ⟨(partFromHeaders (bareFields eol header blank)).1, if blank then some text else none,
        close.getD stop⟩ :: rest.places eol boundary stop close
  | .part header body rest =>
    let text := before ++ eol.bytes ++ (linesText eol header ++ eol.bytes)
    let stop := before ++ eol.bytes ++ partText eol header (body.render eol) ++ delimiter boundary
    ⟨(partFromHeaders (headerFields eol header)).1, some text, close.getD stop⟩ ::
      (body.places eol text (some (close.getD stop)) ++ rest.places eol boundary stop close)

end

section Places

variable (eol : LineEnding)

mutual

theorem MimeBody.map_places : (body : MimeBody) → ∀ (before : Bytes) (close : Option Bytes),
    (body.places eol before close).map PartPlace.part = body.preorder eol
  | .single _, _, _ => rfl
  | .multipart boundary preamble parts _, before, close => by
    rw [MimeBody.places, MimeBody.preorder]
    exact parts.map_places boundary _ close

theorem MimeParts.map_places : (parts : MimeParts) →
    ∀ (boundary before : Bytes) (close : Option Bytes),
      (parts.places eol boundary before close).map PartPlace.part = parts.preorder eol
  | .nil, _, _, _ => rfl
  | .headers header blank rest, boundary, before, close => by
    rw [MimeParts.places, MimeParts.preorder, List.map_cons, rest.map_places boundary]
  | .part header body rest, boundary, before, close => by
    rw [MimeParts.places, MimeParts.preorder, List.map_cons, List.map_append,
      body.map_places, rest.map_places boundary]

end

mutual

/-- What is nested in a part ends with it. -/
theorem MimeBody.places_close : (body : MimeBody) → ∀ (before close : Bytes),
    ∀ place ∈ body.places eol before (some close), place.upToDelimiter = close
  | .single _, _, _ => by
    intro place hplace
    cases hplace
  | .multipart boundary preamble parts _, before, close => by
    rw [MimeBody.places]
    exact parts.places_close boundary _ close

theorem MimeParts.places_close : (parts : MimeParts) → ∀ (boundary before close : Bytes),
    ∀ place ∈ parts.places eol boundary before (some close), place.upToDelimiter = close
  | .nil, _, _, _ => by
    intro place hplace
    cases hplace
  | .headers header blank rest, boundary, before, close => by
    intro place hplace
    rw [MimeParts.places, List.mem_cons] at hplace
    rcases hplace with rfl | hrest
    · rfl
    · exact rest.places_close boundary _ close place hrest
  | .part header body rest, boundary, before, close => by
    intro place hplace
    rw [MimeParts.places, List.mem_cons, List.mem_append] at hplace
    rcases hplace with rfl | hbody | hrest
    · rfl
    · exact body.places_close _ close place hbody
    · exact rest.places_close boundary _ close place hrest

end

/-- The parts behind a delimiter end behind it. -/
theorem MimeParts.prefix_of_mem_places : (parts : MimeParts) → ∀ (boundary before : Bytes),
    ∀ place ∈ parts.places eol boundary before none, before <+: place.upToDelimiter
  | .nil, _, _ => by
    intro place hplace
    cases hplace
  | .headers header blank rest, boundary, before => by
    intro place hplace
    have hstop : before <+: before ++ eol.bytes ++ headersText eol header blank ++
        delimiter boundary := by
      simp only [List.append_assoc]
      exact List.prefix_append before _
    rw [MimeParts.places, List.mem_cons] at hplace
    rcases hplace with rfl | hrest
    · exact hstop
    · exact hstop.trans (rest.prefix_of_mem_places boundary _ place hrest)
  | .part header body rest, boundary, before => by
    intro place hplace
    have hstop : before <+: before ++ eol.bytes ++ partText eol header (body.render eol) ++
        delimiter boundary := by
      simp only [List.append_assoc]
      exact List.prefix_append before _
    rw [MimeParts.places, List.mem_cons, List.mem_append] at hplace
    rcases hplace with rfl | hbody | hrest
    · exact hstop
    · rw [body.places_close eol _ _ place hbody]
      exact hstop
    · exact hstop.trans (rest.prefix_of_mem_places boundary _ place hrest)

/-- Earlier parts end no later. -/
theorem MimeParts.pairwise_places : (parts : MimeParts) → ∀ (boundary before : Bytes),
    (parts.places eol boundary before none).Pairwise fun place later =>
      place.upToDelimiter <+: later.upToDelimiter
  | .nil, _, _ => List.Pairwise.nil
  | .headers header blank rest, boundary, before => by
    rw [MimeParts.places, List.pairwise_cons]
    exact ⟨rest.prefix_of_mem_places eol boundary _, rest.pairwise_places boundary _⟩
  | .part header body rest, boundary, before => by
    have hrest := rest.prefix_of_mem_places eol boundary
      (before ++ eol.bytes ++ partText eol header (body.render eol) ++ delimiter boundary)
    rw [MimeParts.places, List.pairwise_cons, List.pairwise_append]
    have hbody := body.places_close eol (before ++ eol.bytes ++ (linesText eol header ++ eol.bytes))
      (before ++ eol.bytes ++ partText eol header (body.render eol) ++ delimiter boundary)
    refine ⟨?_, ?_, rest.pairwise_places boundary _, ?_⟩
    · intro later hlater
      rcases List.mem_append.mp hlater with hinner | hlater
      · rw [hbody later hinner]
        exact List.prefix_rfl
      · exact hrest later hlater
    · refine List.pairwise_iff_forall_sublist.mpr ?_
      intro place later hsub
      rw [hbody place (hsub.subset (by simp)), hbody later (hsub.subset (by simp))]
    · intro place hplace later hlater
      rw [hbody place hplace]
      exact hrest later hlater

theorem MimeBody.pairwise_places (body : MimeBody) :
    (body.places eol [] none).Pairwise fun place later =>
      place.upToDelimiter <+: later.upToDelimiter := by
  cases body with
  | single text => exact List.Pairwise.nil
  | multipart boundary preamble parts epilogue => exact parts.pairwise_places eol boundary _

end Places

/-! ### The parts that a cut leaves -/

/-- The parts before the first one whose delimiter is not in the text. -/
def shown (text : Bytes) (places : List PartPlace) : List MimePart :=
  (places.takeWhile fun place => place.upToDelimiter.isPrefixOf text).map PartPlace.part

section Shown

variable {text : Bytes} {place : PartPlace} {places : List PartPlace}

theorem shown_cons_of_left (h : place.upToDelimiter <+: text) :
    shown text (place :: places) = place.part :: shown text places := by
  unfold shown
  rw [List.takeWhile_cons_of_pos (by rwa [List.isPrefixOf_iff_prefix]), List.map_cons]

theorem shown_cons_of_not (h : ¬ place.upToDelimiter <+: text) : shown text (place :: places) = [] := by
  unfold shown
  rw [List.takeWhile_cons_of_neg (by rwa [List.isPrefixOf_iff_prefix]), List.map_nil]

theorem shown_append {nested : List PartPlace} (h : ∀ place ∈ nested, place.upToDelimiter <+: text) :
    shown text (nested ++ places) = nested.map PartPlace.part ++ shown text places := by
  unfold shown
  rw [List.takeWhile_append_of_pos fun place hplace => List.isPrefixOf_iff_prefix.mpr (h place hplace),
    List.map_append]

/-- A part is shown in its place if and only if its delimiter is left. -/
theorem getElem?_shown_iff
    (hsorted : places.Pairwise fun place later => place.upToDelimiter <+: later.upToDelimiter) {i : Nat}
    (hplace : places[i]? = some place) :
    (shown text places)[i]? = some place.part ↔ place.upToDelimiter <+: text := by
  induction places generalizing i with
  | nil => cases hplace
  | cons first rest ih =>
    rw [List.pairwise_cons] at hsorted
    cases i with
    | zero =>
      cases hplace
      by_cases hfirst : place.upToDelimiter <+: text
      · rw [shown_cons_of_left hfirst]
        simp [hfirst]
      · rw [shown_cons_of_not hfirst]
        simp [hfirst]
    | succ i =>
      rw [List.getElem?_cons_succ] at hplace
      by_cases hfirst : first.upToDelimiter <+: text
      · rw [shown_cons_of_left hfirst, List.getElem?_cons_succ]
        exact ih hsorted.2 hplace
      · rw [shown_cons_of_not hfirst]
        have hlater := hsorted.1 place (List.mem_of_getElem? hplace)
        constructor
        · intro h
          cases h
        · intro h
          exact absurd (hlater.trans h) hfirst

end Shown

/-! ### What the cut leaves of a search -/

theorem findBoundaryFrom_append {d l : Bytes} (r : Bytes) :
    ∀ {lineStart : Bool} {i : Nat}, findBoundaryFrom d lineStart l = some i →
      findBoundaryFrom d lineStart (l ++ r) = some i ∧ i + d.length ≤ l.length := by
  induction l with
  | nil =>
    intro lineStart i h
    cases h
  | cons b l ih =>
    intro lineStart i h
    rw [findBoundaryFrom] at h
    rw [List.cons_append, findBoundaryFrom]
    by_cases hfound : (lineStart && d.isPrefixOf (b :: l)) = true
    · rw [if_pos hfound] at h
      cases h
      rw [Bool.and_eq_true, List.isPrefixOf_iff_prefix] at hfound
      have hlonger : d <+: b :: (l ++ r) := hfound.2.trans (List.prefix_append (b :: l) r)
      rw [hfound.1, List.isPrefixOf_iff_prefix.mpr hlonger]
      exact ⟨rfl, by simpa using hfound.2.length_le⟩
    · rw [if_neg hfound] at h
      obtain ⟨j, hj, rfl⟩ := Option.map_eq_some_iff.mp h
      obtain ⟨hrest, hle⟩ := ih hj
      -- The delimiter found further on fits into `l`, so one at this place would as well.
      have hnot : (lineStart && d.isPrefixOf (b :: (l ++ r))) ≠ true := by
        intro hlonger
        rw [Bool.and_eq_true, List.isPrefixOf_iff_prefix] at hlonger
        have hshort : d <+: b :: l :=
          List.prefix_of_prefix_length_le hlonger.2 (List.prefix_append (b :: l) r)
            (by simp only [List.length_cons]; omega)
        exact hfound (by rw [hlonger.1, List.isPrefixOf_iff_prefix.mpr hshort]; rfl)
      rw [if_neg hnot, hrest]
      exact ⟨rfl, by simp only [List.length_cons]; omega⟩

/-- A text that ends before the delimiter does not contain it. -/
theorem findBoundary_cut {boundary text cut r : Bytes} (hboundary : LF ∉ boundary)
    (htext : text = [] ∨ Lines.Terminated isLF text) (havoids : Avoids boundary text)
    (hcut : cut <+: text ++ (delimiter boundary ++ r))
    (hopen : ¬ text ++ delimiter boundary <+: cut) :
    findBoundary cut (delimiter boundary) = none := by
  obtain ⟨more, hmore⟩ := hcut
  have hwhole := findBoundary_of_avoids hboundary htext havoids r
  have hsearch : ∀ l : Bytes, findBoundary l (delimiter boundary) =
      findBoundaryFrom (delimiter boundary) true l := by
    intro l
    rw [findBoundary, if_neg (by simp [delimiter_ne_nil])]
  rw [hsearch] at hwhole ⊢
  cases hfound : findBoundaryFrom (delimiter boundary) true cut with
  | none => rfl
  | some i =>
    exfalso
    obtain ⟨hlonger, hle⟩ := findBoundaryFrom_append more hfound
    rw [hmore, hwhole] at hlonger
    cases hlonger
    have hprefix : text ++ delimiter boundary <+: cut ++ more := by
      rw [hmore, ← List.append_assoc]
      exact List.prefix_append _ r
    refine hopen (List.prefix_of_prefix_length_le hprefix (List.prefix_append cut more) ?_)
    rw [List.length_append]
    exact hle

section Walk

variable {ε σ : Type} (visit : σ → MimePart → Except ε (Bool × σ)) (eol : LineEnding)

/-- Without a delimiter ahead nothing more is shown. -/
theorem walkParts_of_none
    {walk : Bytes → Bytes → Nat → σ → Except (StructuredVisitError ε) (Bool × Nat × σ)}
    {boundary rest : Bytes} (h : findBoundary rest (delimiter boundary) = none) (fuel count : Nat)
    (s : σ) : walkParts walk visit boundary fuel rest count s = .ok (false, count, s) := by
  cases fuel with
  | zero => rfl
  | succ fuel => rw [walkParts, h]

/-- Behind a delimiter the text ends before the next one. -/
theorem continueParts_open
    {walk : Bytes → Bytes → Nat → σ → Except (StructuredVisitError ε) (Bool × Nat × σ)}
    {boundary text cut r : Bytes} (hboundary : LF ∉ boundary)
    (htext : text = [] ∨ Lines.Terminated isLF text) (havoids : Avoids boundary text)
    (hcut : cut <+: eol.bytes ++ (text ++ (delimiter boundary ++ r)))
    (hopen : ¬ eol.bytes ++ (text ++ delimiter boundary) <+: cut) (fuel count : Nat) (s : σ) :
    continueParts walk visit boundary fuel cut count s = .ok (false, count, s) := by
  by_cases heol : eol.bytes <+: cut
  · obtain ⟨rest, rfl⟩ := heol
    rw [List.prefix_append_right_inj] at hcut hopen
    rw [continueParts_eol]
    exact walkParts_of_none visit (findBoundary_cut hboundary htext havoids hcut hopen) fuel count s
  · have hshort : cut <+: eol.bytes := by
      rcases List.prefix_or_prefix_of_prefix hcut (List.prefix_append eol.bytes _) with h | h
      · exact h
      · exact absurd h heol
    have hlt : cut.length < eol.bytes.length := by
      by_contra hle
      rw [hshort.eq_of_length_le (by omega)] at heol
      exact heol List.prefix_rfl
    have hempty : [DASH, DASH].isPrefixOf cut = false ∧ afterLineEnd cut = [] := by
      rw [List.prefix_iff_eq_take] at hshort
      rw [hshort]
      generalize cut.length = n at hlt
      cases eol with
      | Lf =>
        have hn : n < 1 := hlt
        obtain rfl : n = 0 := by omega
        decide
      | CrLf =>
        have hn : n < 2 := hlt
        obtain rfl | rfl : n = 0 ∨ n = 1 := by omega
        · decide
        · decide
    have hnone : findBoundary [] (delimiter boundary) = none := by
      rw [findBoundary, if_neg (by simp [delimiter_ne_nil])]
      rfl
    rw [continueParts, hempty.1, hempty.2, if_neg Bool.false_ne_true]
    exact walkParts_of_none visit hnone fuel count s

/-- The two dashes behind the last delimiter end the traversal, and so does a cut among them. -/
theorem continueParts_last
    {walk : Bytes → Bytes → Nat → σ → Except (StructuredVisitError ε) (Bool × Nat × σ)}
    {boundary cut epilogue : Bytes} (hcut : cut <+: DASH :: DASH :: epilogue) (fuel count : Nat) (s : σ) :
    continueParts walk visit boundary fuel cut count s = .ok (false, count, s) := by
  have hnone : findBoundary [] (delimiter boundary) = none := by
    rw [findBoundary, if_neg (by simp [delimiter_ne_nil])]
    rfl
  cases cut with
  | nil => exact walkParts_of_none visit hnone fuel count s
  | cons dash rest =>
    rw [List.cons_prefix_cons] at hcut
    obtain ⟨rfl, hcut⟩ := hcut
    cases rest with
    | nil => exact walkParts_of_none visit hnone fuel count s
    | cons dash' rest =>
      rw [List.cons_prefix_cons] at hcut
      obtain ⟨rfl, -⟩ := hcut
      rfl

/-- Behind a delimiter the cut shows the parts that end before it. -/
theorem continueParts_cut (parts : MimeParts) : ∀ boundary : Bytes, LF ∉ boundary →
    parts.WellFormed eol boundary → ∀ levels : Nat, parts.depth ≤ levels →
    ∀ (epilogue before cut : Bytes), cut <+: parts.render eol boundary epilogue →
    ∀ fuel : Nat, cut.length ≤ fuel → ∀ (count : Nat) (s : σ),
      continueParts (walkMultipart visit levels) visit boundary fuel cut count s =
        visitLimited maxMimeParts visit
          (shown (before ++ cut) (parts.places eol boundary before none)) count s := by
  cases parts with
  | nil =>
    intro boundary hLF hformed levels hdepth epilogue before cut hcut fuel hfuel count s
    exact continueParts_last visit hcut fuel count s
  | headers header blank rest =>
    intro boundary hLF hformed levels hdepth epilogue before cut hcut fuel hfuel count s
    rw [MimeParts.WellFormed] at hformed
    obtain ⟨hheader, havoids, hrest⟩ := hformed
    rw [MimeParts.depth] at hdepth
    have hterminated := terminated_headersText eol header blank
    rw [MimeParts.render, List.append_assoc, List.append_assoc] at hcut
    rw [MimeParts.places]
    have hstop : before ++ eol.bytes ++ headersText eol header blank ++ delimiter boundary <+:
        before ++ cut ↔ eol.bytes ++ (headersText eol header blank ++ delimiter boundary) <+: cut := by
      rw [List.append_assoc, List.append_assoc, List.prefix_append_right_inj]
    by_cases hclosed : eol.bytes ++ (headersText eol header blank ++ delimiter boundary) <+: cut
    · rw [shown_cons_of_left (by exact hstop.mpr hclosed)]
      obtain ⟨after, rfl⟩ := hclosed
      simp only [List.append_assoc, List.prefix_append_right_inj] at hcut
      simp only [List.length_append, delimiter, List.length_cons] at hfuel
      obtain ⟨fuel, rfl⟩ : ∃ n, fuel = n + 1 := ⟨fuel - 1, by omega⟩
      have hfound := findBoundary_of_avoids hLF hterminated havoids after
      obtain ⟨hfields, hbody⟩ := split_headersText eol hheader blank
      have hround := walkParts_round hfound (congrArg partFromHeaders hfields) hbody
        (walkInner_nil visit levels _)
        (continueParts_cut rest boundary hLF hrest levels hdepth epilogue
          (before ++ eol.bytes ++ headersText eol header blank ++ delimiter boundary) after hcut fuel
          (by omega)) count s
      rw [List.append_assoc, List.append_assoc, continueParts_eol, hround, List.nil_append]
      simp only [List.append_assoc]
    · rw [shown_cons_of_not (by exact fun h => hclosed (hstop.mp h))]
      exact continueParts_open visit eol hLF hterminated havoids hcut hclosed fuel count s
  | part header body rest =>
    intro boundary hLF hformed levels hdepth epilogue before cut hcut fuel hfuel count s
    rw [MimeParts.WellFormed] at hformed
    obtain ⟨hheader, havoids, hannounces, hbodyformed, hrest⟩ := hformed
    rw [MimeParts.depth] at hdepth
    have hterminated : partText eol header (body.render eol) = [] ∨
        Lines.Terminated isLF (partText eol header (body.render eol)) :=
      Or.inr (terminated_partText eol header (body.render eol))
    rw [MimeParts.render, List.append_assoc, List.append_assoc] at hcut
    rw [MimeParts.places]
    have hstop : before ++ eol.bytes ++ partText eol header (body.render eol) ++ delimiter boundary <+:
        before ++ cut ↔
        eol.bytes ++ (partText eol header (body.render eol) ++ delimiter boundary) <+: cut := by
      rw [List.append_assoc, List.append_assoc, List.prefix_append_right_inj]
    by_cases hclosed :
      eol.bytes ++ (partText eol header (body.render eol) ++ delimiter boundary) <+: cut
    · have hnested : ∀ place ∈ body.places eol
          (before ++ eol.bytes ++ (linesText eol header ++ eol.bytes))
          (some (before ++ eol.bytes ++ partText eol header (body.render eol) ++ delimiter boundary)),
          place.upToDelimiter <+: before ++ cut := by
        intro place hplace
        rw [body.places_close eol _ _ place hplace]
        exact hstop.mpr hclosed
      rw [shown_cons_of_left (by exact hstop.mpr hclosed), Option.getD_none, shown_append hnested,
        body.map_places]
      obtain ⟨after, rfl⟩ := hclosed
      simp only [List.append_assoc, List.prefix_append_right_inj] at hcut
      simp only [List.length_append, delimiter, List.length_cons] at hfuel
      obtain ⟨fuel, rfl⟩ : ∃ n, fuel = n + 1 := ⟨fuel - 1, by omega⟩
      have hfound := findBoundary_of_avoids hLF hterminated havoids after
      have hfields := (split_partText eol hheader (body.render eol)).1
      have hinner := walkInner_partText visit eol hheader hannounces
        fun boundary preamble parts epilogue heq hboundary =>
          walkMultipart_render visit eol body boundary preamble parts epilogue heq hbodyformed
            hboundary levels (by omega)
      have hround := walkParts_round hfound (congrArg partFromHeaders hfields) rfl hinner
        (continueParts_cut rest boundary hLF hrest levels (by omega) epilogue
          (before ++ eol.bytes ++ partText eol header (body.render eol) ++ delimiter boundary) after hcut
          fuel (by omega)) count s
      rw [List.append_assoc, List.append_assoc, continueParts_eol, hround]
      simp only [List.append_assoc]
    · rw [shown_cons_of_not (by exact fun h => hclosed (hstop.mp h))]
      exact continueParts_open visit eol hLF hterminated havoids hcut hclosed fuel count s

/-- Nothing is shown of a text that ends before the first delimiter. -/
theorem shown_places_of_not {boundary before text : Bytes} (parts : MimeParts)
    (h : ¬ before <+: text) : shown text (parts.places eol boundary before none) = [] := by
  have hall := parts.prefix_of_mem_places eol boundary before
  cases hplaces : parts.places eol boundary before none with
  | nil => rfl
  | cons place rest =>
    rw [hplaces] at hall
    exact shown_cons_of_not fun hprefix => h ((hall place (by simp)).trans hprefix)

/-- The cut of a multipart body shows the parts whose delimiters it leaves. -/
theorem walkMultipart_cut {boundary : Bytes} {preamble : List Bytes} {parts : MimeParts}
    {epilogue cut : Bytes}
    (hformed : (MimeBody.multipart boundary preamble parts epilogue).WellFormed eol)
    (hne : boundary ≠ []) {levels : Nat}
    (hdepth : (MimeBody.multipart boundary preamble parts epilogue).depth ≤ levels)
    (hcut : cut <+: (MimeBody.multipart boundary preamble parts epilogue).render eol) (count : Nat)
    (s : σ) :
    walkMultipart visit levels cut boundary count s =
      visitLimited maxMimeParts visit
        (shown cut ((MimeBody.multipart boundary preamble parts epilogue).places eol [] none)) count
        s := by
  rw [MimeBody.WellFormed] at hformed
  obtain ⟨hLF, hpreamble, havoids, hparts⟩ := hformed
  rw [MimeBody.depth] at hdepth
  obtain ⟨levels, rfl⟩ : ∃ n, levels = n + 1 := ⟨levels - 1, by omega⟩
  rw [MimeBody.render, List.append_assoc] at hcut
  rw [MimeBody.places, List.nil_append, walkMultipart, if_neg (by simpa using hne)]
  by_cases hfirst : linesText eol preamble ++ delimiter boundary <+: cut
  · obtain ⟨after, rfl⟩ := hfirst
    rw [List.append_assoc, List.prefix_append_right_inj, List.prefix_append_right_inj] at hcut
    have hdrop : (linesText eol preamble ++ (delimiter boundary ++ after)).drop
        ((linesText eol preamble).length + (delimiter boundary).length) = after := by
      rw [← List.drop_drop, List.drop_left, List.drop_left]
    have hfound := findBoundary_of_avoids hLF (start_linesText eol preamble) havoids after
    have hparts := continueParts_cut visit eol parts boundary hLF hparts levels (by omega) epilogue
      (linesText eol preamble ++ delimiter boundary) after hcut
      (linesText eol preamble ++ (delimiter boundary ++ after)).length
      (by simp only [List.length_append]; omega) count s
    rw [List.append_assoc, hfound]
    simp only
    rw [hdrop]
    rw [List.append_assoc (linesText eol preamble)] at hparts
    exact hparts
  · rw [findBoundary_cut hLF (start_linesText eol preamble) havoids hcut hfirst,
      shown_places_of_not eol parts hfirst]
    rfl

end Walk

/-! ### The message -/

section Message

variable {eol : LineEnding} {rootHeader : List Field} {body : MimeBody} {cut : Bytes}

theorem length_shown_le (text : Bytes) (places : List PartPlace) :
    (shown text places).length ≤ places.length := by
  unfold shown
  rw [List.length_map]
  exact (List.takeWhile_sublist _).length_le

/-- A cut of the body shows the message and the parts whose delimiters it leaves. -/
theorem anyMimePart_cut (hroot : Announces (partFromHeaders rootHeader) body)
    (hformed : body.WellFormed eol) (hdepth : body.depth ≤ maxMimeDepth)
    (hparts : 1 + (body.preorder eol).length ≤ maxMimeParts) (hcut : cut <+: body.render eol) :
    anyMimePart rootHeader cut keepAll [] =
      .ok (false, (partFromHeaders rootHeader).1 :: shown cut (body.places eol [] none)) := by
  have hinner : ∀ s, walkInner (walkMultipart keepAll maxMimeDepth) (partFromHeaders rootHeader)
      cut 1 s = visitLimited maxMimeParts keepAll (shown cut (body.places eol [] none)) 1 s := by
    intro s
    unfold walkInner
    cases body with
    | single text =>
      have hnone : (partFromHeaders rootHeader).1.isMultipart = true →
          (partFromHeaders rootHeader).2 = none := hroot
      split
      · rename_i hmultipart hboundary
        rw [hnone hmultipart] at hboundary
        cases hboundary
      · rfl
    | multipart boundary preamble parts epilogue =>
      obtain ⟨hmultipart, hboundary⟩ := hroot
      rw [hmultipart, hboundary]
      exact walkMultipart_cut keepAll eol hformed (boundary_of_headers hboundary).1 hdepth hcut 1 s
  have hlength := length_shown_le cut (body.places eol [] none)
  have hplaces := congrArg List.length (body.map_places eol [] none)
  rw [List.length_map] at hplaces
  rw [anyMimePart_of_walkInner hinner (by omega), visitUntil_keepAll]
  rfl

/-- A part of a truncated message is visited if and only if the cut leaves the delimiter behind the
outermost part of the message that it belongs to; that the cut leaves its complete header is not
enough. -/
theorem truncated_part_visited_iff (hroot : Announces (partFromHeaders rootHeader) body)
    (hformed : body.WellFormed eol) (hdepth : body.depth ≤ maxMimeDepth)
    (hparts : 1 + (body.preorder eol).length ≤ maxMimeParts) (hcut : cut <+: body.render eol)
    {i : Nat} {place : PartPlace} (hplace : (body.places eol [] none)[i]? = some place) :
    ∃ whole visited, anyMimePart rootHeader (body.render eol) keepAll [] = .ok (false, whole) ∧
      whole[i + 1]? = some place.part ∧
      anyMimePart rootHeader cut keepAll [] = .ok (false, visited) ∧
      (((∀ text, place.upToHeader = some text → text <+: cut → visited[i + 1]? = whole[i + 1]?)) ↔
        ∀ text, place.upToHeader = some text → text <+: cut → place.upToDelimiter <+: cut) := by
  have hpart : (body.preorder eol)[i]? = some place.part := by
    rw [← body.map_places eol [] none, List.getElem?_map, hplace]
    rfl
  refine ⟨_, _, anyMimePart_keepAll hroot hformed hdepth hparts, hpart,
    anyMimePart_cut hroot hformed hdepth hparts hcut, ?_⟩
  have hsorted := body.pairwise_places eol
  have hshown := @getElem?_shown_iff cut place _ hsorted i hplace
  rw [List.getElem?_cons_succ, List.getElem?_cons_succ, hpart]
  simp only [hshown]

end Message

/-! #### A message with one attachment -/

/-- The header of a message in parts. -/
def attachmentRoot : List Field := rawFields (strBytes "Content-Type: multipart/mixed; boundary=b\n\n")

/-- The header of a part that names its file. -/
def attachmentHeader : Bytes := strBytes "Content-Disposition: attachment; filename=a.exe"

/-- A message with an attachment, without the closing delimiter. -/
def attachmentBody : MimeBody :=
  .multipart (strBytes "b") [] (.part [attachmentHeader] (.single (strBytes "MZ")) .nil) []

/-- What the conditions should know of the attachment. -/
def attachmentPart : MimePart := ⟨none, some (strBytes "attachment"), some (strBytes "a.exe")⟩

/-- The body up to the blank line behind the header of its part. -/
def attachmentStart : Bytes := strBytes "--b\n" ++ attachmentHeader ++ strBytes "\n\n"

theorem attachment_announced : Announces (partFromHeaders attachmentRoot) attachmentBody :=
  ⟨by decide +kernel, by decide +kernel⟩

theorem attachment_wellFormed : attachmentBody.WellFormed .Lf :=
  ⟨by decide +kernel, by decide +kernel, by decide +kernel, by decide +kernel, by decide +kernel,
    fun hmultipart => absurd hmultipart (by decide +kernel), trivial, trivial⟩

/-- A cut in the last delimiter leaves the attachment. -/
theorem truncated_part_visited_attachment :
    ∃ visited, anyMimePart attachmentRoot (attachmentStart ++ strBytes "MZ\n--b") keepAll [] =
        .ok (false, visited) ∧ visited[1]? = some attachmentPart := by
  have hplace : (attachmentBody.places .Lf [] none)[0]? = some
      ⟨attachmentPart, some attachmentStart, attachmentStart ++ strBytes "MZ\n--b"⟩ := by
    have hpart : (partFromHeaders (headerFields .Lf [attachmentHeader])).1 = attachmentPart := by
      decide +kernel
    have hheader : [] ++ linesText .Lf [] ++ delimiter (strBytes "b") ++ LineEnding.Lf.bytes ++
        (linesText .Lf [attachmentHeader] ++ LineEnding.Lf.bytes) = attachmentStart := by
      decide +kernel
    have hdelimiter : [] ++ linesText .Lf [] ++ delimiter (strBytes "b") ++ LineEnding.Lf.bytes ++
        partText .Lf [attachmentHeader] (strBytes "MZ") ++ delimiter (strBytes "b") =
          attachmentStart ++ strBytes "MZ\n--b" := by
      decide +kernel
    rw [← hpart, ← hheader]
    exact congrArg _ (congrArg (PartPlace.mk _ _) hdelimiter)
  have hcut : attachmentStart ++ strBytes "MZ\n--b" <+: attachmentBody.render .Lf := by decide +kernel
  obtain ⟨whole, visited, -, hwhole, hvisited, hiff⟩ := truncated_part_visited_iff attachment_announced
    attachment_wellFormed (by decide +kernel) (by decide +kernel) hcut hplace
  refine ⟨visited, hvisited, ?_⟩
  rw [hiff.mpr (fun _ _ _ => List.prefix_rfl) attachmentStart rfl (List.prefix_append _ _)]
  exact hwhole

/-- A cut before the last delimiter hides the attachment, although its header is complete. -/
theorem unterminated_part_hidden :
    Announces (partFromHeaders attachmentRoot) attachmentBody ∧ attachmentBody.WellFormed .Lf ∧
      (attachmentBody.places .Lf [] none).map PartPlace.upToHeader = [some attachmentStart] ∧
      attachmentStart ++ strBytes "MZ\n" <+: attachmentBody.render .Lf ∧
      anyMimePart attachmentRoot (attachmentBody.render .Lf) keepAll [] =
        .ok (false, [(partFromHeaders attachmentRoot).1, attachmentPart]) ∧
      anyMimePart attachmentRoot (attachmentStart ++ strBytes "MZ\n") keepAll [] =
        .ok (false, [(partFromHeaders attachmentRoot).1]) := by
  refine ⟨attachment_announced, attachment_wellFormed, ?_, ?_, ?_, ?_⟩
  · decide +kernel
  · decide +kernel
  · rfl
  · rfl

end ProcmailRs
