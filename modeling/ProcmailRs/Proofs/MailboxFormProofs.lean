import ProcmailRs.Proofs.AddressProofs

/-!
# When a mailbox is recognized without its brackets

A structural byte outside of quoted strings is lost before the address specification is read: no
presented address has as many of these bytes as the value. So an address specification that is
presented whole in every form has none.
-/

namespace ProcmailRs

open Quoting (outside inside run clear)

section Count

variable {c : UInt8} (hc : isStructural c = true)

include hc

/-! ### Bytes that are kept -/

theorem structural_ne : isAsciiWhitespace c = false ∧ c ≠ SP ∧ c ≠ AT ∧ c ≠ QUOTE := by
  have h : ∀ c : UInt8, isStructural c = true →
      isAsciiWhitespace c = false ∧ c ≠ SP ∧ c ≠ AT ∧ c ≠ QUOTE := by decide +kernel
  exact h c hc

theorem count_spaces {w : Bytes} (hw : IsSpaces w) : w.count c = 0 := by
  rw [List.count_eq_zero]
  intro hmem
  have hspace := hw c hmem
  rw [(structural_ne hc).1] at hspace
  cases hspace

theorem count_lowercase (d : Bytes) : (d.map toAsciiLowercase).count c = d.count c := by
  have hkept : ∀ c : UInt8, isStructural c = true → ∀ b : UInt8, toAsciiLowercase b = c ↔ b = c := by
    decide +kernel
  induction d with
  | nil => rfl
  | cons b d ih =>
    rw [List.map_cons, List.count_cons, List.count_cons, ih]
    simp only [beq_iff_eq, hkept c hc]

theorem IsAddrSpec.count {s l d : Bytes} (h : IsAddrSpec s l d) :
    (l ++ AT :: d.map toAsciiLowercase).count c = s.count c := by
  obtain ⟨w, w', u, u', ⟨hw, hw', hu, hu'⟩, rfl⟩ := h.text
  simp only [List.count_append, List.count_cons, count_lowercase hc, count_spaces hc hw,
    count_spaces hc hw', count_spaces hc hu, count_spaces hc hu']
  omega

theorem count_trimAscii (v : Bytes) : (trimAscii v).count c = v.count c := by
  obtain ⟨w, w', hw, hw', hv⟩ := trimAscii_spec v
  have hcount := congrArg (List.count c) hv
  rw [List.count_append, List.count_append, count_spaces hc hw, count_spaces hc hw'] at hcount
  omega

theorem count_normalizeAddrSpec {v a : Bytes} (h : normalizeAddrSpec v = some a) :
    a.count c = v.count c := by
  obtain ⟨l, d, hspec, rfl⟩ := exists_addrSpec h
  exact hspec.count hc

/-! ### Comments -/

theorem CommentScan.count_step (scan : CommentScan) (b : UInt8) :
    (scan.step b).output.count c ≤ scan.output.count c + [b].count c := by
  have hspace : ([SP] : Bytes).count c = 0 := by
    rw [List.count_eq_zero, List.mem_singleton]
    exact (structural_ne hc).2.1
  have hflush : scan.flushSpace.count c = scan.output.count c := by
    unfold CommentScan.flushSpace
    split_ifs
    · rw [List.count_append, hspace, Nat.add_zero]
    · rfl
  unfold CommentScan.step
  split_ifs
  all_goals first
    | omega
    | (simp only [List.count_append, hflush]; omega)

theorem CommentScan.count_foldl (scan : CommentScan) (v : Bytes) :
    (v.foldl CommentScan.step scan).output.count c ≤ scan.output.count c + v.count c := by
  induction v generalizing scan with
  | nil => simp
  | cons b v ih =>
    have hstep := CommentScan.count_step hc scan b
    have hrest := ih (scan.step b)
    rw [List.foldl_cons, ← List.singleton_append, List.count_append]
    omega

end Count

/-- Text without comments is read with its quotation marks and escapes. -/
theorem CommentScan.foldl_of_clear {v : Bytes} {q : Quoting.State}
    (h : clear marks (· == LPAREN) q v = true) (output : Bytes) (pendingSpace : Bool) :
    ∃ output' pendingSpace', v.foldl CommentScan.step (CommentScan.text output q pendingSpace) =
      CommentScan.text output' (Quoting.run marks q v) pendingSpace' := by
  induction v generalizing q output pendingSpace with
  | nil => exact ⟨output, pendingSpace, rfl⟩
  | cons b v ih =>
    obtain ⟨hb, hv⟩ := Quoting.clear_cons.mp h
    have hstep : ∃ output' pendingSpace', (CommentScan.text output q pendingSpace).step b =
        CommentScan.text output' (Quoting.step marks q b) pendingSpace' := by
      unfold CommentScan.step CommentScan.text Quoting.step marks
      by_cases hescaped : q.escaped = true
      · simp [hescaped]
      · rw [Bool.not_eq_true] at hescaped
        by_cases hescape : q.quoted = true ∧ b = BACKSLASH
        · simp [hescaped, hescape]
        · by_cases hquote : b = QUOTE
          · subst hquote
            simp [hescaped, quote_ne]
          · by_cases hquoted : q.quoted = true
            · have hnot : b ≠ BACKSLASH := fun heq => hescape ⟨hquoted, heq⟩
              simp [hescaped, hquoted, hquote, hnot]
            · rw [Bool.not_eq_true] at hquoted
              have hparen : b ≠ LPAREN := by
                rcases hb with hb | hb
                · rw [hquoted] at hb
                  cases hb
                · simpa using hb
              by_cases hspace : isAsciiWhitespace b = true
              · simp [hescaped, hquoted, hquote, hparen, hspace]
              · simp [hescaped, hquoted, hquote, hparen, hspace]
    obtain ⟨output₁, pendingSpace₁, hstep⟩ := hstep
    obtain ⟨output₂, pendingSpace₂, hrest⟩ := ih hv output₁ pendingSpace₁
    exact ⟨output₂, pendingSpace₂, by rw [List.foldl_cons, hstep, hrest, Quoting.run_cons]⟩

section Value

variable {v out : Bytes} (hout : removeCommentsAndUnfold v = some out)

include hout

theorem count_removeCommentsAndUnfold {c : UInt8} (hc : isStructural c = true) :
    out.count c ≤ v.count c := by
  have hcount := CommentScan.count_foldl hc CommentScan.start v
  unfold removeCommentsAndUnfold at hout
  simp only at hout
  split_ifs at hout
  obtain rfl := Option.some.inj hout
  have hstart : CommentScan.start.output = [] := rfl
  rw [hstart, List.count_nil, Nat.zero_add] at hcount
  exact hcount

/-- A value that keeps its parentheses has no comment. -/
theorem clear_of_count (h : out.count LPAREN = v.count LPAREN) :
    clear marks (· == LPAREN) outside v = true := by
  by_contra hnot
  obtain ⟨p, a, r, rfl, hp, hrun, ha⟩ := Quoting.exists_stop valid_outside hnot
  obtain rfl : a = LPAREN := by simpa using ha
  obtain ⟨output, pendingSpace, hfold⟩ := CommentScan.foldl_of_clear hp [] false
  have hbefore := CommentScan.count_foldl (c := LPAREN) (by decide) (CommentScan.text [] outside false) p
  rw [hfold, hrun] at hbefore
  have hopened : (CommentScan.text output outside pendingSpace).step LPAREN =
      ⟨output, 1, false, false, pendingSpace⟩ := rfl
  have hbehind := CommentScan.count_foldl (c := LPAREN) (by decide)
    ⟨output, 1, false, false, pendingSpace⟩ r
  have hvalue : CommentScan.run (p ++ LPAREN :: r) =
      r.foldl CommentScan.step ⟨output, 1, false, false, pendingSpace⟩ := by
    have hstart : CommentScan.start = CommentScan.text [] outside false := rfl
    rw [CommentScan.run, hstart, List.foldl_append, hfold, hrun, List.foldl_cons, hopened]
  unfold removeCommentsAndUnfold at hout
  simp only at hout
  split_ifs at hout
  obtain rfl := Option.some.inj hout
  rw [hvalue, List.count_append, List.count_cons_self] at h
  simp only [CommentScan.text, List.count_nil] at hbefore hbehind
  omega

/-- A value without comments that is unfolded leaves no quoted string open. -/
theorem run_of_clear (h : clear marks (· == LPAREN) outside v = true) :
    run marks outside v = outside := by
  obtain ⟨output, pendingSpace, hfold⟩ := CommentScan.foldl_of_clear h [] false
  have hrun : CommentScan.run v = CommentScan.text output (run marks outside v) pendingSpace := hfold
  unfold removeCommentsAndUnfold at hout
  simp only at hout
  split_ifs at hout with hclosed
  rw [hrun] at hclosed
  refine (Quoting.valid_run valid_outside v).eq_outside ?_
  simpa [CommentScan.text] using hclosed.2.1

end Value

/-! ### Elements -/

section Elements

variable {c : UInt8}

theorem count_mailboxElementsFrom (scan : ListScan) (current v : Bytes) :
    ∀ element ∈ mailboxElementsFrom scan current v, element.count c ≤ current.count c + v.count c := by
  induction v generalizing scan current with
  | nil =>
    intro element helement
    obtain rfl := List.mem_singleton.mp helement
    simp
  | cons b v ih =>
    have hcons : (b :: v).count c = [b].count c + v.count c := by
      rw [← List.singleton_append, List.count_append]
    intro element helement
    rw [mailboxElementsFrom] at helement
    simp only at helement
    split_ifs at helement
    · rcases List.mem_cons.mp helement with rfl | helement
      · omega
      · have hrest := ih _ [] element helement
        rw [List.count_nil] at hrest
        omega
    · have hrest := ih _ (current ++ [b]) element helement
      rw [List.count_append] at hrest
      omega

/-- A list that is split loses a separator in every element. -/
theorem mailboxElementsFrom_cases (scan : ListScan) (current v : Bytes) :
    mailboxElementsFrom scan current v = [current ++ v] ∨
      ∃ c, (c = COMMA ∨ c = SEMICOLON) ∧
        ∀ element ∈ mailboxElementsFrom scan current v, element.count c < (current ++ v).count c := by
  induction v generalizing scan current with
  | nil => exact Or.inl (by simp [mailboxElementsFrom])
  | cons b v ih =>
    rw [mailboxElementsFrom]
    simp only
    split_ifs with hseparator
    · refine Or.inr ⟨b, ?_, ?_⟩
      · unfold ListScan.step at hseparator
        split_ifs at hseparator
        simp only [Bool.decide_and, Bool.decide_or, Bool.and_eq_true, Bool.or_eq_true,
          decide_eq_true_eq] at hseparator
        exact hseparator.1
      · intro element helement
        rw [List.count_append, List.count_cons_self]
        rcases List.mem_cons.mp helement with rfl | helement
        · omega
        · have hrest := count_mailboxElementsFrom (c := b) _ [] v element helement
          rw [List.count_nil] at hrest
          omega
    · have hrest := ih (scan.step b).1 (current ++ [b])
      rw [List.append_assoc, List.singleton_append] at hrest
      exact hrest

end Elements

/-! ### One mailbox -/

theorem findUnquotedFrom_eq_some {wanted : UInt8} {quoted escaped : Bool} {v : Bytes} {i : Nat}
    (h : findUnquotedFrom wanted quoted escaped v = some i) :
    ∃ p r, v = p ++ wanted :: r ∧ i = p.length := by
  induction v generalizing quoted escaped i with
  | nil => cases h
  | cons b v ih =>
    have hnext : ∀ {quoted escaped : Bool},
        (findUnquotedFrom wanted quoted escaped v).map (· + 1) = some i →
        ∃ p r, b :: v = p ++ wanted :: r ∧ i = p.length := by
      intro quoted escaped hmap
      obtain ⟨j, hj, rfl⟩ := Option.map_eq_some_iff.mp hmap
      obtain ⟨p, r, rfl, rfl⟩ := ih hj
      exact ⟨b :: p, r, rfl, rfl⟩
    rw [findUnquotedFrom] at h
    split_ifs at h with _ _ _ hfound
    · exact hnext h
    · exact hnext h
    · exact hnext h
    · obtain rfl := Option.some.inj h
      exact ⟨[], v, by rw [hfound.2]; rfl, rfl⟩
    · exact hnext h

/-- What an address is read from stands behind the bracket or the colon that is found. -/
theorem normalizeMailbox_split {element a : Bytes} (h : normalizeMailbox element = some a) :
    ∃ p r, trimAscii element = p ++ r ∧
      (∀ c, isStructural c = true → a.count c ≤ r.count c) ∧
      (LANGLE ∈ p ∨ COLON ∈ p ∨
        findUnquoted (trimAscii element) LANGLE = none ∧
          findUnquoted (trimAscii element) COLON = none) := by
  unfold normalizeMailbox at h
  simp only at h
  split_ifs at h
  cases hopening : findUnquoted (trimAscii element) LANGLE with
  | some opening =>
    rw [hopening] at h
    simp only at h
    obtain ⟨p, r, hsplit, rfl⟩ := findUnquotedFrom_eq_some hopening
    have hdrop : (trimAscii element).drop (p.length + 1) = r := by
      rw [hsplit, ← List.drop_drop, List.drop_left]
      rfl
    rw [hdrop] at h
    cases hclosing : findUnquoted r RANGLE with
    | none =>
      rw [hclosing] at h
      cases h
    | some length =>
      rw [hclosing] at h
      simp only at h
      split_ifs at h
      refine ⟨p ++ [LANGLE], r, by rw [hsplit]; simp, ?_, Or.inl (by simp)⟩
      intro c hc
      rw [count_normalizeAddrSpec hc h, count_trimAscii hc]
      exact (List.take_sublist length r).count_le c
  | none =>
    rw [hopening] at h
    cases hcolon : findUnquoted (trimAscii element) COLON with
    | some colon =>
      rw [hcolon] at h
      simp only at h
      obtain ⟨p, r, hsplit, rfl⟩ := findUnquotedFrom_eq_some hcolon
      refine ⟨p ++ [COLON], r, by rw [hsplit]; simp, ?_, Or.inr (Or.inl (by simp))⟩
      intro c hc
      have hdrop : (trimAscii element).drop (p.length + 1) = r := by
        rw [hsplit, ← List.drop_drop, List.drop_left]
        rfl
      rw [hdrop] at h
      rw [count_normalizeAddrSpec hc h, count_trimAscii hc]
    | none =>
      rw [hcolon] at h
      simp only [List.drop_zero] at h
      refine ⟨[], trimAscii element, rfl, ?_, Or.inr (Or.inr ⟨rfl, rfl⟩)⟩
      intro c hc
      rw [count_normalizeAddrSpec hc h, count_trimAscii hc]

/-- A mailbox that keeps every structural byte is read as a whole. -/
theorem clear_of_normalizeMailbox {element a : Bytes} (h : normalizeMailbox element = some a)
    (hcount : ∀ c, isStructural c = true → a.count c = element.count c) :
    clear marks (· == LANGLE) outside (trimAscii element) = true ∧
      clear marks (· == COLON) outside (trimAscii element) = true := by
  obtain ⟨p, r, hsplit, hle, hcases⟩ := normalizeMailbox_split h
  have hno : ∀ c, isStructural c = true → c ∉ p := by
    intro c hc hmem
    have hpos : 0 < p.count c := List.count_pos_iff.mpr hmem
    have htotal := hcount c hc
    rw [← count_trimAscii hc element, hsplit, List.count_append] at htotal
    have hbound := hle c hc
    omega
  rcases hcases with hmem | hmem | ⟨hangle, hcolon⟩
  · exact absurd hmem (hno LANGLE (by decide))
  · exact absurd hmem (hno COLON (by decide))
  · exact ⟨(findUnquoted_eq_none_iff (by decide)).mp hangle,
      (findUnquoted_eq_none_iff (by decide)).mp hcolon⟩

theorem count_normalizeMailbox {element a : Bytes} (h : normalizeMailbox element = some a) {c : UInt8}
    (hc : isStructural c = true) : a.count c ≤ element.count c := by
  obtain ⟨p, r, hsplit, hle, -⟩ := normalizeMailbox_split h
  have hcount := hle c hc
  rw [← count_trimAscii hc element, hsplit, List.count_append]
  omega

/-- Behind the closing bracket nothing may follow. -/
theorem normalizeMailbox_eq_none {p : Bytes} (hp : clear marks (· == RANGLE) outside p = true)
    (hrun : run marks outside p = outside) (r : Bytes) :
    normalizeMailbox (LANGLE :: (p ++ RANGLE :: (r ++ [RANGLE]))) = none := by
  have htight : Tight (LANGLE :: (p ++ RANGLE :: (r ++ [RANGLE]))) := by
    refine tight_of_ends LANGLE RANGLE rfl ?_ (by decide) (by decide)
    rw [← List.cons_append, ← List.cons_append, ← List.append_assoc, List.getLast?_concat]
  have hopening : findUnquoted (LANGLE :: (p ++ RANGLE :: (r ++ [RANGLE]))) LANGLE = some 0 := rfl
  have hclosing : findUnquoted (p ++ RANGLE :: (r ++ [RANGLE])) RANGLE = some p.length :=
    findUnquoted_of_clear (by decide) hp hrun _
  have hdrop : (LANGLE :: (p ++ RANGLE :: (r ++ [RANGLE]))).drop (0 + 1 + p.length + 1) =
      r ++ [RANGLE] := by
    have hindex : 0 + 1 + p.length + 1 = 1 + (p.length + 1) := by omega
    rw [hindex, ← List.drop_drop, List.drop_one, List.tail_cons, ← List.drop_drop, List.drop_left]
    rfl
  have hrest : trimAscii (r ++ [RANGLE]) ≠ [] := by
    intro hempty
    have hcount := count_trimAscii (c := RANGLE) (by decide) (r ++ [RANGLE])
    rw [hempty, List.count_append] at hcount
    simp at hcount
  unfold normalizeMailbox
  simp only
  rw [trimAscii_of_tight htight, if_neg (by simp), hopening]
  simp only
  rw [Nat.zero_add, List.drop_one, List.tail_cons, hclosing]
  simp only
  rw [← Nat.zero_add 1, hdrop, if_pos (by simpa using hrest)]

/-! ### The whole value -/

theorem exists_element {value out a : Bytes} (hout : removeCommentsAndUnfold value = some out)
    (h : presented value = [a]) :
    ∃ element ∈ mailboxElements out, normalizeMailbox element = some a := by
  unfold presented at h
  rw [hout] at h
  simp only at h
  have hmem : a ∈ (mailboxElements out).filterMap normalizeMailbox := by
    rw [h]
    exact List.mem_singleton_self a
  obtain ⟨element, helement, hmailbox⟩ := List.mem_filterMap.mp hmem
  exact ⟨element, helement, hmailbox⟩

/-- An address with all separators of the unfolded value comes from one element. -/
theorem mailboxElements_of_count {out a : Bytes} {element : Bytes}
    (helement : element ∈ mailboxElements out) (hmailbox : normalizeMailbox element = some a)
    (hcount : ∀ c, c = COMMA ∨ c = SEMICOLON → out.count c ≤ a.count c) :
    mailboxElements out = [out] ∧ normalizeMailbox out = some a := by
  rcases mailboxElementsFrom_cases ⟨false, 0, false⟩ [] out with hone | ⟨c, hc, hless⟩
  · rw [List.nil_append] at hone
    have hone' : mailboxElements out = [out] := hone
    rw [hone'] at helement
    obtain rfl := List.mem_singleton.mp helement
    exact ⟨hone', hmailbox⟩
  · have hstructural : isStructural c = true := by
      rcases hc with rfl | rfl <;> decide
    have hlost := hless element helement
    have hkept := count_normalizeMailbox hmailbox hstructural
    have htotal := hcount c hc
    rw [List.nil_append] at hlost
    omega

section Forms

variable {s l d : Bytes} (h : IsAddrSpec s l d)

include h

theorem hides_lparen_of_presented
    (hbare : presented s = [l ++ AT :: d.map toAsciiLowercase]) :
    Quoting.Hides marks (· == LPAREN) d := by
  cases hout : removeCommentsAndUnfold s with
  | none =>
    unfold presented at hbare
    rw [hout] at hbare
    cases hbare
  | some out =>
    obtain ⟨element, helement, hmailbox⟩ := exists_element hout hbare
    have hkept : out.count LPAREN = s.count LPAREN := by
      have hle := count_removeCommentsAndUnfold hout (c := LPAREN) (by decide)
      have helement' := count_mailboxElementsFrom (c := LPAREN) _ [] out element helement
      have hmailbox' := count_normalizeMailbox hmailbox (c := LPAREN) (by decide)
      rw [h.count (by decide)] at hmailbox'
      rw [List.count_nil] at helement'
      omega
    have hclear := clear_of_count hout hkept
    exact (h.hides_iff (beq_structural (by decide))).mp ⟨hclear, run_of_clear hout hclear⟩

/-- The value alone is read as one mailbox, from its first byte on. -/
theorem hides_of_presented_bare (hbare : presented s = [l ++ AT :: d.map toAsciiLowercase]) :
    Solid d ∧ Quoting.Hides marks (· == LANGLE) d ∧ Quoting.Hides marks (· == COLON) d ∧
      ∃ m, IsAddrSpec m l d ∧ mailboxElements m = [m] := by
  have hd := solid_of_domain h.domain (hides_lparen_of_presented h hbare)
  obtain ⟨m, hm, htight, hremoved⟩ := removed_bare h hd isSpaces_nil isSpaces_nil
  rw [List.nil_append, List.append_nil] at hremoved
  obtain ⟨element, helement, hmailbox⟩ := exists_element hremoved hbare
  have hcount : ∀ c, isStructural c = true →
      (l ++ AT :: d.map toAsciiLowercase).count c = m.count c := fun c hc => hm.count hc
  obtain ⟨hone, hwhole⟩ := mailboxElements_of_count helement hmailbox fun c hc => by
    refine (hcount c ?_).ge
    rcases hc with rfl | rfl <;> decide
  obtain ⟨hangle, hcolon⟩ := clear_of_normalizeMailbox hwhole hcount
  rw [trimAscii_of_tight htight] at hangle hcolon
  have hrun : run marks outside m = outside := hm.run hd.run
  exact ⟨hd, (hm.hides_iff (beq_structural (by decide))).mp ⟨hangle, hrun⟩,
    (hm.hides_iff (beq_structural (by decide))).mp ⟨hcolon, hrun⟩, m, hm, hone⟩

/-- In angle brackets the first closing bracket is the last byte. -/
theorem hides_rangle_of_presented (hd : Solid d)
    (hangle : presented (LANGLE :: (s ++ [RANGLE])) = [l ++ AT :: d.map toAsciiLowercase]) :
    Quoting.Hides marks (· == RANGLE) d := by
  obtain ⟨m, hm, -, hremoved⟩ := removed_angle h hd isSpaces_nil [] [] false rfl
  rw [joint_nil, List.nil_append, List.nil_append] at hremoved
  obtain ⟨element, helement, hmailbox⟩ := exists_element hremoved hangle
  obtain ⟨-, hwhole⟩ := mailboxElements_of_count helement hmailbox fun c hc => by
    have hstructural : isStructural c = true := by
      rcases hc with rfl | rfl <;> decide
    have hnot : c ≠ LANGLE ∧ c ≠ RANGLE := by
      rcases hc with rfl | rfl <;> decide
    rw [hm.count hstructural]
    simp [List.count_append, hnot.1.symm, hnot.2.symm]
  have hrun : run marks outside m = outside := hm.run hd.run
  refine (hm.hides_iff (beq_structural (by decide))).mp ⟨?_, hrun⟩
  by_contra hnot
  obtain ⟨p, b, r, rfl, hp, hprun, hb⟩ := Quoting.exists_stop valid_outside hnot
  obtain rfl : b = RANGLE := by simpa using hb
  have hnone := normalizeMailbox_eq_none hp hprun r
  rw [List.append_assoc, List.cons_append] at hwhole
  rw [hnone] at hwhole
  cases hwhole

end Forms

/-- A list of one element has no separators. -/
theorem clear_list_of_one {m : Bytes} (hone : mailboxElements m = [m])
    (hangle : clear marks isAngleByte outside m = true) :
    clear marks isListByte outside m = true := by
  by_contra hnot
  obtain ⟨p, b, r, rfl, hp, hprun, hb⟩ := Quoting.exists_stop valid_outside hnot
  obtain ⟨hpangle, hbangle⟩ := Quoting.clear_append.mp hangle
  rw [hprun] at hbangle
  have hbnot : isAngleByte b = false := by
    rcases (Quoting.clear_cons.mp hbangle).1 with hquoted | hbnot
    · cases hquoted
    · exact hbnot
  have hseparator : b = COMMA ∨ b = SEMICOLON := by
    simp only [isAngleByte, Bool.or_eq_false_iff] at hbnot
    simp only [isListByte, hbnot.1, hbnot.2, Bool.false_or, Bool.or_eq_true, beq_iff_eq] at hb
    exact hb
  have happend := mailboxElementsFrom_append 0 (q := outside) hpangle (fun _ => hp) []
    (b :: r)
  rw [hprun, List.nil_append] at happend
  have hsplit : mailboxElementsFrom ⟨outside.quoted, 0, outside.escaped⟩ p (b :: r) =
      p :: mailboxElementsFrom ⟨false, 0, false⟩ [] r := by
    rcases hseparator with rfl | rfl <;> rfl
  have htwo : mailboxElements (p ++ b :: r) = p :: mailboxElementsFrom ⟨false, 0, false⟩ [] r :=
    happend.trans hsplit
  rw [htwo] at hone
  have hhead : p = p ++ b :: r := (List.cons.inj hone).1
  have hlength := congrArg List.length hhead
  simp at hlength

theorem shielded_of_presented {s l d : Bytes} (h : IsAddrSpec s l d)
    (hbare : presented s = [l ++ AT :: d.map toAsciiLowercase])
    (hangle : presented (LANGLE :: (s ++ [RANGLE])) = [l ++ AT :: d.map toAsciiLowercase]) :
    Shielded d := by
  have hlparen := hides_lparen_of_presented h hbare
  obtain ⟨hd, hopen, hcolon, m, hm, hone⟩ := hides_of_presented_bare h hbare
  have hclose := hides_rangle_of_presented h hd hangle
  have hboth : ∀ {v : Bytes}, Quoting.Hides marks (· == LANGLE) v →
      Quoting.Hides marks (· == RANGLE) v → clear marks isAngleByte outside v = true :=
    fun ho hc => Quoting.clear_or.mpr ⟨ho.1, hc.1⟩
  have hmangle := hboth ((hm.hides_iff (beq_structural (by decide))).mpr hopen)
    ((hm.hides_iff (beq_structural (by decide))).mpr hclose)
  have hmrun := ((hm.hides_iff (beq_structural (by decide))).mpr hopen).2
  have hlist := (hm.hides_iff isListByte_structural).mp ⟨clear_list_of_one hone hmangle, hmrun⟩
  have hall : clear marks (fun b => (b == LPAREN || b == COLON) || isListByte b) outside d = true :=
    Quoting.clear_or.mpr ⟨Quoting.clear_or.mpr ⟨hlparen.1, hcolon.1⟩, hlist.1⟩
  have hstructural : ∀ b : UInt8,
      isStructural b = true → ((b == LPAREN || b == COLON) || isListByte b) = true := by
    decide +kernel
  exact ⟨Quoting.clear_mono hstructural hall, hd.run⟩

/-! ### Recognized alike -/

/-- The address is the one of the specification, and it is all that is presented by the
specification alone, in angle brackets and behind a quoted display name, and by itself. -/
structure RecognizedAlike (wanted : List AddressField) (name s address : Bytes) : Prop where
  text : ∃ l d, IsAddrSpec s l d ∧ address = l ++ AT :: d.map toAsciiLowercase
  bare : ∀ lead trail, IsSpaces lead → IsSpaces trail →
    PresentsOnly wanted name (lead ++ s ++ trail) address
  angle : ∀ lead trail, IsSpaces lead → IsSpaces trail →
    PresentsOnly wanted name (lead ++ LANGLE :: (s ++ RANGLE :: trail)) address
  display : ∀ lead trail display space, IsSpaces lead → IsSpaces trail →
    Quoting.Quoted marks display → IsSpaces space →
    PresentsOnly wanted name (lead ++ display ++ space ++ LANGLE :: (s ++ RANGLE :: trail)) address
  again : ∀ lead trail, IsSpaces lead → IsSpaces trail →
    PresentsOnly wanted name (lead ++ address ++ trail) address

/-- An address specification is recognized alike in every form exactly when its structural bytes
stand in quoted strings and every quoted string is closed. -/
theorem recognized_alike_iff {wanted : List AddressField} {name s address : Bytes}
    (hname : (wanted.any fun field => eqIgnoreAsciiCase name field.name.bytes) = true)
    (hs : normalizeAddrSpec s = some address) :
    RecognizedAlike wanted name s address ↔ Shielded s := by
  obtain ⟨l, d, h, rfl⟩ := exists_addrSpec hs
  rw [h.shielded_iff]
  constructor
  · intro halike
    have hbare := (presentsOnly_iff hname).mp (halike.bare [] [] isSpaces_nil isSpaces_nil)
    have hangle := (presentsOnly_iff hname).mp (halike.angle [] [] isSpaces_nil isSpaces_nil)
    rw [List.nil_append, List.append_nil] at hbare
    rw [List.nil_append] at hangle
    exact shielded_of_presented h hbare hangle
  · intro hd
    refine ⟨⟨l, d, h, rfl⟩, ?_, ?_, ?_, ?_⟩
    · intro lead trail hlead htrail
      exact (presentsOnly_iff hname).mpr (presented_bare h hd hlead htrail)
    · intro lead trail hlead htrail
      exact (presentsOnly_iff hname).mpr (presented_angle h hd hlead htrail)
    · intro lead trail display space hlead htrail hdisplay hspace
      exact (presentsOnly_iff hname).mpr (presented_display h hd hlead htrail hdisplay hspace)
    · intro lead trail hlead htrail
      exact (presentsOnly_iff hname).mpr (presented_again h hd hlead htrail)

/-- A quoted local part with every separator in it, and a domain literal. -/
theorem recognized_alike_quoted :
    RecognizedAlike [.From] (strBytes "From") (strBytes "\"a, (b): <c@d>;\" @ [192.168.0.1]")
      (strBytes "\"a, (b): <c@d>;\"@[192.168.0.1]") :=
  (recognized_alike_iff (by decide +kernel) (by decide +kernel)).mpr
    ⟨by decide +kernel, by decide +kernel⟩

/-- The colons of an IPv6 literal are taken for the end of a group name, unless the mailbox stands in
angle brackets. -/
theorem ipv6_literal_not_recognized :
    normalizeAddrSpec (strBytes "a@[IPv6:::1]") = some (strBytes "a@[ipv6:::1]") ∧
      PresentsOnly [.From] (strBytes "From") (strBytes " <a@[IPv6:::1]>\n") (strBytes "a@[ipv6:::1]") ∧
      ¬ PresentsOnly [.From] (strBytes "From") (strBytes " a@[IPv6:::1]\n")
        (strBytes "a@[ipv6:::1]") := by
  have hname : ([AddressField.From].any fun field =>
      eqIgnoreAsciiCase (strBytes "From") field.name.bytes) = true := by decide +kernel
  refine ⟨by decide +kernel, (presentsOnly_iff hname).mpr (by decide +kernel), ?_⟩
  rw [presentsOnly_iff hname]
  decide +kernel

end ProcmailRs
