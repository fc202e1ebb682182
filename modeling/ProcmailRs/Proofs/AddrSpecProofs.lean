import ProcmailRs.Proofs.AddressScanProofs
import Mathlib.Data.FinEnum

/-!
# Address specifications

An address specification is accepted exactly when it is a valid local part, an at-sign and a valid
domain, with whitespace around each of the two. What is presented has the local part as it is
written and the domain in lower case, and it is an address specification itself.
-/

namespace ProcmailRs

open Quoting (outside inside run clear)

/-! ### Whitespace -/

/-- Nothing but whitespace. -/
def IsSpaces (w : Bytes) : Prop := ∀ b ∈ w, isAsciiWhitespace b = true

instance (w : Bytes) : Decidable (IsSpaces w) :=
  inferInstanceAs (Decidable (∀ b ∈ w, isAsciiWhitespace b = true))

theorem isSpaces_nil : IsSpaces [] := by
  intro b hb
  cases hb

/-- No whitespace at either end. -/
def Tight (v : Bytes) : Prop :=
  (∀ b ∈ v.head?, isAsciiWhitespace b = false) ∧ ∀ b ∈ v.getLast?, isAsciiWhitespace b = false

theorem trimAscii_spec (v : Bytes) :
    ∃ w w', IsSpaces w ∧ IsSpaces w' ∧ v = w ++ trimAscii v ++ w' := by
  have hleft : ∀ x : Bytes, IsSpaces (x.takeWhile isAsciiWhitespace) :=
    fun x b hb => List.mem_takeWhile_imp hb
  refine ⟨v.takeWhile isAsciiWhitespace,
    ((v.dropWhile isAsciiWhitespace).reverse.takeWhile isAsciiWhitespace).reverse, hleft v, ?_, ?_⟩
  · intro b hb
    exact hleft _ b (List.mem_reverse.mp hb)
  · have hright : (v.dropWhile isAsciiWhitespace).rdropWhile isAsciiWhitespace ++
        ((v.dropWhile isAsciiWhitespace).reverse.takeWhile isAsciiWhitespace).reverse =
          v.dropWhile isAsciiWhitespace := by
      rw [List.rdropWhile, ← List.reverse_append, List.takeWhile_append_dropWhile,
        List.reverse_reverse]
    rw [trimAscii, List.append_assoc, hright, List.takeWhile_append_dropWhile]

theorem dropWhile_spaces {w : Bytes} (hw : IsSpaces w) (v : Bytes) :
    (w ++ v).dropWhile isAsciiWhitespace = v.dropWhile isAsciiWhitespace := by
  rw [List.dropWhile_append, List.dropWhile_eq_nil_iff.mpr hw]
  simp

theorem dropWhile_head {v : Bytes} (h : ∀ b ∈ v.head?, isAsciiWhitespace b = false) :
    v.dropWhile isAsciiWhitespace = v := by
  cases v with
  | nil => rfl
  | cons b v => rw [List.dropWhile_cons_of_neg (by simp [h b rfl])]

theorem trimAscii_spaces {w : Bytes} (hw : IsSpaces w) : trimAscii w = [] := by
  rw [trimAscii, List.dropWhile_eq_nil_iff.mpr hw]
  rfl

/-- Trimming finds what stands between the whitespace. -/
theorem trimAscii_eq {w w' v : Bytes} (hw : IsSpaces w) (hw' : IsSpaces w') (hv : Tight v) :
    trimAscii (w ++ v ++ w') = v := by
  cases v with
  | nil =>
    rw [List.append_nil]
    refine trimAscii_spaces fun b hb => ?_
    rcases List.mem_append.mp hb with h | h
    · exact hw b h
    · exact hw' b h
  | cons b v =>
    have hhead : ((b :: v) ++ w').dropWhile isAsciiWhitespace = (b :: v) ++ w' :=
      dropWhile_head hv.1
    have hlast : (b :: v).reverse.dropWhile isAsciiWhitespace = (b :: v).reverse := by
      refine dropWhile_head ?_
      rw [List.head?_reverse]
      exact hv.2
    have hback : IsSpaces w'.reverse := fun b hb => hw' b (List.mem_reverse.mp hb)
    rw [trimAscii, List.append_assoc, dropWhile_spaces hw, hhead, List.rdropWhile,
      List.reverse_append, dropWhile_spaces hback, hlast, List.reverse_reverse]

theorem trimAscii_of_tight {v : Bytes} (hv : Tight v) : trimAscii v = v := by
  simpa using trimAscii_eq isSpaces_nil isSpaces_nil hv

theorem tight_trimAscii (v : Bytes) : Tight (trimAscii v) := by
  have hfirst := List.head?_dropWhile_not isAsciiWhitespace v
  constructor
  · intro b hb
    obtain ⟨behind, hbehind⟩ := List.rdropWhile_prefix isAsciiWhitespace (v.dropWhile isAsciiWhitespace)
    obtain ⟨rest, hrest⟩ := List.head?_eq_some_iff.mp hb
    unfold trimAscii at hrest
    rw [← hbehind, hrest] at hfirst
    exact hfirst
  · intro b hb
    have hne : trimAscii v ≠ [] := by
      intro hnil
      rw [hnil] at hb
      cases hb
    have hlast := List.rdropWhile_last_not isAsciiWhitespace (v.dropWhile isAsciiWhitespace) hne
    have heq : (trimAscii v).getLast hne = b := by
      rw [List.getLast?_eq_some_getLast hne] at hb
      exact Option.some.inj hb
    unfold trimAscii at heq
    rw [heq] at hlast
    simpa using hlast

theorem trimAscii_left {w : Bytes} (hw : IsSpaces w) (v : Bytes) :
    trimAscii (w ++ v) = trimAscii v := by
  rw [trimAscii, trimAscii, dropWhile_spaces hw]

theorem trimAscii_right {w : Bytes} (hw : IsSpaces w) (v : Bytes) :
    trimAscii (v ++ w) = trimAscii v := by
  obtain ⟨u, u', hu, hu', hv⟩ := trimAscii_spec v
  have hboth : IsSpaces (u' ++ w) := by
    intro b hb
    rcases List.mem_append.mp hb with hb | hb
    · exact hu' b hb
    · exact hw b hb
  have hpadded : v ++ w = u ++ trimAscii v ++ (u' ++ w) := by
    rw [← List.append_assoc, ← hv]
  rw [hpadded, trimAscii_eq hu hboth (tight_trimAscii v)]

/-! ### Valid parts -/

/-- What no scanner takes for structure. -/
def isInert (b : UInt8) : Bool :=
  !isAsciiWhitespace b &&
    !([QUOTE, BACKSLASH, LPAREN, RPAREN, LANGLE, RANGLE, LBRACKET, RBRACKET, COMMA, SEMICOLON, COLON,
      AT].contains b)

theorem isInert_of_dotAtom : ∀ b : UInt8, isDotAtomByte b = true → isInert b = true := by
  decide +kernel

theorem isDotAtomByte_lowercase : ∀ b : UInt8, isDotAtomByte b = true →
    isDotAtomByte (toAsciiLowercase b) = true := by
  decide +kernel

theorem validDotAtom_bytes {v : Bytes} (h : validDotAtom v = true) :
    v ≠ [] ∧ ∀ b ∈ v, isInert b = true := by
  simp only [validDotAtom, Bool.and_eq_true, List.all_eq_true, Bool.not_eq_true',
    List.isEmpty_eq_false_iff] at h
  exact ⟨h.1.1.1.1, fun b hb => isInert_of_dotAtom b (h.2 b hb)⟩

/-- What stands between two end bytes. -/
theorem eq_of_ends {v : Bytes} {first last : UInt8} (hlength : v.length ≥ 2)
    (hfirst : v.head? = some first) (hlast : v.getLast? = some last) :
    v = first :: (inner v ++ [last]) := by
  cases v with
  | nil => cases hfirst
  | cons b v =>
    obtain rfl : b = first := by simpa using hfirst
    have hne : v ≠ [] := by
      rintro rfl
      simp at hlength
    have hend : v.getLast hne = last := by
      rw [List.getLast?_cons, List.getLast?_eq_some_getLast hne] at hlast
      simpa using hlast
    rw [inner, List.tail_cons, ← hend, List.dropLast_append_getLast hne]

theorem body_of_validQuoted {v : Bytes} (h : validQuotedFrom false v = true) :
    Quoting.Body marks v := by
  induction hn : v.length using Nat.strongRecOn generalizing v with
  | _ n ih =>
    subst hn
    cases v with
    | nil => exact Quoting.Body.nil
    | cons b v =>
      rw [validQuotedFrom] at h
      by_cases hescape : b = BACKSLASH
      · subst hescape
        cases v with
        | nil => cases h
        | cons c v =>
          have hrest : validQuotedFrom false v = true := by
            simp only [Bool.false_eq_true, if_false, if_true, validQuotedFrom,
              Bool.and_eq_true] at h
            exact h.2
          exact Quoting.Body.escaped (m := marks)
            (ih v.length (by rw [List.length_cons, List.length_cons]; omega) hrest rfl)
      · simp only [Bool.false_eq_true, if_false, if_neg hescape, Bool.and_eq_true, bne_iff_ne] at h
        exact Quoting.Body.plain (ih v.length (by simp) h.2 rfl) h.1.1.1.1.2 hescape

/-- A local part is a run of inert bytes or a quoted string. -/
theorem validLocal_cases {l : Bytes} (h : validLocal l = true) :
    (l ≠ [] ∧ ∀ b ∈ l, isInert b = true) ∨ Quoting.Quoted marks l := by
  unfold validLocal at h
  split_ifs at h with hends
  · exact Or.inr ⟨inner l, body_of_validQuoted h, eq_of_ends hends.1 hends.2.1 hends.2.2⟩
  · exact Or.inl (validDotAtom_bytes h)

/-- A byte of a domain literal. -/
def isLiteralByte (b : UInt8) : Bool :=
  isGraphicByte b && b != LBRACKET && b != RBRACKET && b != BACKSLASH

/-- A domain literal: bytes that are neither whitespace nor brackets nor escapes, in brackets. -/
def IsLiteral (d : Bytes) : Prop :=
  ∃ text, (∀ b ∈ text, isLiteralByte b = true) ∧ d = LBRACKET :: (text ++ [RBRACKET])

theorem validDomain_iff {d : Bytes} :
    validDomain d = true ↔ validDotAtom d = true ∨ IsLiteral d := by
  unfold validDomain
  split_ifs with hends
  · have heq := eq_of_ends hends.1 hends.2.1 hends.2.2
    constructor
    · intro h
      exact Or.inr ⟨inner d, List.all_eq_true.mp h, heq⟩
    · rintro (h | ⟨text, htext, hd⟩)
      · have hfirst : LBRACKET ∈ d := by
          rw [heq]
          exact List.mem_cons_self
        exact absurd ((validDotAtom_bytes h).2 _ hfirst) (by decide)
      · have hinner : inner d = text := by
          rw [hd, inner, List.tail_cons, List.dropLast_concat]
        rw [hinner]
        exact List.all_eq_true.mpr htext
  · constructor
    · exact Or.inl
    · rintro (h | ⟨text, -, rfl⟩)
      · exact h
      · exact absurd ⟨by simp, rfl, by rw [← List.cons_append, List.getLast?_concat]⟩ hends

theorem tight_of_ends {v : Bytes} (first last : UInt8) (hfirst : v.head? = some first)
    (hlast : v.getLast? = some last) (h : isAsciiWhitespace first = false)
    (h' : isAsciiWhitespace last = false) : Tight v := by
  constructor
  · intro b hb
    rw [hfirst] at hb
    exact Option.some.inj hb ▸ h
  · intro b hb
    rw [hlast] at hb
    exact Option.some.inj hb ▸ h'

theorem not_space_of_inert {b : UInt8} (h : isInert b = true) : isAsciiWhitespace b = false := by
  simp only [isInert, Bool.and_eq_true, Bool.not_eq_true'] at h
  exact h.1

theorem tight_of_inert {v : Bytes} (h : ∀ b ∈ v, isInert b = true) : Tight v :=
  ⟨fun b hb => not_space_of_inert (h b (List.mem_of_mem_head? hb)),
    fun b hb => not_space_of_inert (h b (List.mem_of_mem_getLast? hb))⟩

theorem tight_of_validLocal {l : Bytes} (h : validLocal l = true) : Tight l := by
  rcases validLocal_cases h with ⟨-, hinert⟩ | ⟨body, -, rfl⟩
  · exact tight_of_inert hinert
  · refine tight_of_ends marks.quote marks.quote rfl ?_ (by decide) (by decide)
    rw [← List.cons_append, List.getLast?_concat]

theorem tight_of_validDomain {d : Bytes} (h : validDomain d = true) : Tight d := by
  rcases validDomain_iff.mp h with hatom | ⟨text, -, rfl⟩
  · exact tight_of_inert (validDotAtom_bytes hatom).2
  · refine tight_of_ends LBRACKET RBRACKET rfl ?_ (by decide) (by decide)
    rw [← List.cons_append, List.getLast?_concat]

/-! ### The at-sign -/

namespace AtScan

/-- Outside of quoted strings and domain literals. -/
def between (position : Option Nat) : AtScan := ⟨position, false, false, false⟩

theorem run_append (scan : AtScan) (index : Nat) (l r : Bytes) :
    scan.run index (l ++ r) =
      (scan.run index l).bind fun scan => scan.run (index + l.length) r := by
  induction l generalizing scan index with
  | nil => rfl
  | cons b l ih =>
    rw [List.cons_append, AtScan.run, AtScan.run, List.length_cons]
    cases scan.step index b with
    | none => rfl
    | some scan =>
      simp only
      rw [ih, Nat.add_assoc, Nat.add_comm 1]

/-- What the search passes over between quoted strings and domain literals. -/
def passes (b : UInt8) : Bool := !([QUOTE, LBRACKET, RBRACKET, AT].contains b)

theorem run_passes {l : Bytes} (h : ∀ b ∈ l, passes b = true) (position : Option Nat)
    (index : Nat) : (between position).run index l = some (between position) := by
  induction l generalizing index with
  | nil => rfl
  | cons b l ih =>
    have hb := h b (by simp)
    simp only [passes, List.contains_eq_mem, List.mem_cons, List.not_mem_nil, or_false,
      Bool.not_eq_true', decide_eq_false_iff_not, not_or] at hb
    have hstep : (between position).step index b = some (between position) := by
      simp [AtScan.step, between, hb]
    rw [AtScan.run, hstep]
    exact ih (fun b hb => h b (by simp [hb])) (index + 1)

theorem run_body {body : Bytes} (h : Quoting.Body marks body) (position : Option Nat)
    (index : Nat) :
    AtScan.run ⟨position, true, false, false⟩ index body = some ⟨position, true, false, false⟩ := by
  induction h generalizing index with
  | nil => rfl
  | @plain a l _ hquote hescape ih =>
    have hstep : AtScan.step ⟨position, true, false, false⟩ index a =
        some ⟨position, true, false, false⟩ := by
      have hquote' : a ≠ QUOTE := hquote
      have hescape' : a ≠ BACKSLASH := hescape
      simp [AtScan.step, hquote', hescape']
    rw [AtScan.run, hstep]
    exact ih (index + 1)
  | @escaped a l _ ih =>
    exact ih (index + 1 + 1)

theorem run_quoted {l : Bytes} (h : Quoting.Quoted marks l) (position : Option Nat)
    (index : Nat) : (between position).run index l = some (between position) := by
  obtain ⟨body, hbody, rfl⟩ := h
  have hopen : (between position).step index marks.quote = some ⟨position, true, false, false⟩ := rfl
  rw [AtScan.run, hopen]
  simp only
  rw [run_append, run_body hbody]
  rfl

theorem run_literal {d : Bytes} (h : IsLiteral d) (position : Option Nat) (index : Nat) :
    (between position).run index d = some (between position) := by
  obtain ⟨text, htext, rfl⟩ := h
  have hinside : ∀ index, AtScan.run ⟨position, false, true, false⟩ index text =
      some ⟨position, false, true, false⟩ := by
    induction text with
    | nil => intro index; rfl
    | cons b text ih =>
      intro index
      have hb := htext b (by simp)
      simp only [isLiteralByte, Bool.and_eq_true, bne_iff_ne] at hb
      have hstep : AtScan.step ⟨position, false, true, false⟩ index b =
          some ⟨position, false, true, false⟩ := by
        simp [AtScan.step, hb.1.1.2, hb.1.2]
      rw [AtScan.run, hstep]
      exact ih (fun b hb => htext b (by simp [hb])) (index + 1)
  have hopen : (between position).step index LBRACKET = some ⟨position, false, true, false⟩ := rfl
  rw [AtScan.run, hopen]
  simp only
  rw [run_append, hinside]
  rfl

theorem run_at (index : Nat) (r : Bytes) :
    (between none).run index (AT :: r) = (between (some index)).run (index + 1) r := rfl

/-- The position that is found is one of an at-sign. -/
theorem position_spec {scan scan' : AtScan} {index : Nat} {l : Bytes}
    (h : scan.run index l = some scan') {position : Nat} (hposition : scan'.position = some position) :
    scan.position = some position ∨ ∃ u v, l = u ++ AT :: v ∧ position = index + u.length := by
  induction l generalizing scan index with
  | nil =>
    obtain rfl : scan = scan' := Option.some.inj h
    exact Or.inl hposition
  | cons b l ih =>
    rw [AtScan.run] at h
    cases hstep : scan.step index b with
    | none =>
      rw [hstep] at h
      cases h
    | some next =>
      rw [hstep] at h
      rcases ih h with hnext | ⟨u, v, rfl, rfl⟩
      · have hkept : next.position = scan.position ∨ b = AT ∧ next.position = some index := by
          unfold AtScan.step at hstep
          split_ifs at hstep with _ _ _ _ _ hat <;> cases hstep
          all_goals first
            | exact Or.inl rfl
            | exact Or.inr ⟨hat.1, rfl⟩
        rcases hkept with hkept | ⟨rfl, hindex⟩
        · exact Or.inl (hkept ▸ hnext)
        · rw [hindex] at hnext
          obtain rfl := Option.some.inj hnext
          exact Or.inr ⟨[], l, rfl, rfl⟩
      · exact Or.inr ⟨b :: u, v, rfl, by rw [List.length_cons]; omega⟩

theorem passes_of_inert {b : UInt8} (h : isInert b = true) : passes b = true := by
  simp only [isInert, passes, Bool.and_eq_true, Bool.not_eq_true', List.contains_eq_mem,
    List.mem_cons, List.not_mem_nil, or_false, decide_eq_false_iff_not, not_or] at h ⊢
  tauto

theorem passes_of_space : ∀ b : UInt8, isAsciiWhitespace b = true → passes b = true := by
  decide +kernel

theorem run_spaces {w : Bytes} (h : IsSpaces w) (position : Option Nat) (index : Nat) :
    (between position).run index w = some (between position) :=
  run_passes (fun b hb => passes_of_space b (h b hb)) position index

theorem run_local {l : Bytes} (h : validLocal l = true) (position : Option Nat) (index : Nat) :
    (between position).run index l = some (between position) := by
  rcases validLocal_cases h with ⟨-, hinert⟩ | hquoted
  · exact run_passes (fun b hb => passes_of_inert (hinert b hb)) position index
  · exact run_quoted hquoted position index

theorem run_domain {d : Bytes} (h : validDomain d = true) (position : Option Nat) (index : Nat) :
    (between position).run index d = some (between position) := by
  rcases validDomain_iff.mp h with hatom | hliteral
  · exact run_passes (fun b hb => passes_of_inert ((validDotAtom_bytes hatom).2 b hb)) position index
  · exact run_literal hliteral position index

end AtScan

/-- A valid local part and a valid domain around an at-sign, with whitespace around each. -/
structure IsAddrSpec (s l d : Bytes) : Prop where
  localPart : validLocal l = true
  domain : validDomain d = true
  text : ∃ w w' u u', (IsSpaces w ∧ IsSpaces w' ∧ IsSpaces u ∧ IsSpaces u') ∧
    s = w ++ l ++ w' ++ AT :: (u ++ d ++ u')

theorem IsAddrSpec.normalize {s l d : Bytes} (h : IsAddrSpec s l d) :
    normalizeAddrSpec s = some (l ++ AT :: d.map toAsciiLowercase) := by
  obtain ⟨w, w', u, u', ⟨hw, hw', hu, hu'⟩, rfl⟩ := h.text
  have hleft : ∀ index, (AtScan.between none).run index (w ++ l ++ w') = some (AtScan.between none) := by
    intro index
    rw [AtScan.run_append, AtScan.run_append, AtScan.run_spaces hw, Option.bind_some,
      AtScan.run_local h.localPart, Option.bind_some, AtScan.run_spaces hw']
  have hright : ∀ position index, (AtScan.between position).run index (u ++ d ++ u') =
      some (AtScan.between position) := by
    intro position index
    rw [AtScan.run_append, AtScan.run_append, AtScan.run_spaces hu, Option.bind_some,
      AtScan.run_domain h.domain, Option.bind_some, AtScan.run_spaces hu']
  have hrun : AtScan.run ⟨none, false, false, false⟩ 0 (w ++ l ++ w' ++ AT :: (u ++ d ++ u')) =
      some (AtScan.between (some (w ++ l ++ w').length)) := by
    have hfirst := hleft 0
    rw [AtScan.between] at hfirst
    rw [AtScan.run_append, hfirst, Option.bind_some, ← AtScan.between, AtScan.run_at, hright,
      Nat.zero_add]
  have hbefore : trimAscii ((w ++ l ++ w' ++ AT :: (u ++ d ++ u')).take (w ++ l ++ w').length) = l := by
    rw [List.take_left, trimAscii_eq hw hw' (tight_of_validLocal h.localPart)]
  have hbehind : trimAscii
      ((w ++ l ++ w' ++ AT :: (u ++ d ++ u')).drop ((w ++ l ++ w').length + 1)) = d := by
    rw [← List.drop_drop, List.drop_left, List.drop_one, List.tail_cons,
      trimAscii_eq hu hu' (tight_of_validDomain h.domain)]
  rw [normalizeAddrSpec, hrun]
  simp only [AtScan.between, Bool.or_self, Bool.false_eq_true, if_false]
  rw [hbefore, hbehind, h.localPart, h.domain]
  simp

theorem exists_addrSpec {s a : Bytes} (h : normalizeAddrSpec s = some a) :
    ∃ l d, IsAddrSpec s l d ∧ a = l ++ AT :: d.map toAsciiLowercase := by
  unfold normalizeAddrSpec at h
  cases hrun : AtScan.run ⟨none, false, false, false⟩ 0 s with
  | none =>
    rw [hrun] at h
    cases h
  | some scan =>
    rw [hrun] at h
    simp only at h
    split_ifs at h
    cases hposition : scan.position with
    | none =>
      rw [hposition] at h
      cases h
    | some position =>
      rw [hposition] at h
      simp only at h
      split_ifs at h with hvalid
      simp only [Bool.or_eq_true, Bool.not_eq_true', not_or, Bool.not_eq_false] at hvalid
      rcases AtScan.position_spec hrun hposition with hnone | ⟨before, behind, rfl, rfl⟩
      · cases hnone
      · have htake : (before ++ AT :: behind).take (0 + before.length) = before := by
          rw [Nat.zero_add, List.take_left]
        have hdrop : (before ++ AT :: behind).drop (0 + before.length + 1) = behind := by
          rw [Nat.zero_add, ← List.drop_drop, List.drop_left, List.drop_one, List.tail_cons]
        rw [htake, hdrop] at h hvalid
        obtain ⟨w, w', hw, hw', hbefore⟩ := trimAscii_spec before
        obtain ⟨u, u', hu, hu', hbehind⟩ := trimAscii_spec behind
        refine ⟨_, _, ⟨hvalid.1, hvalid.2, w, w', u, u', ⟨hw, hw', hu, hu'⟩, ?_⟩, (Option.some.inj h).symm⟩
        rw [← hbefore, ← hbehind]

/-! ### Lower case -/

theorem isLiteralByte_lowercase : ∀ b : UInt8, isLiteralByte b = true →
    isLiteralByte (toAsciiLowercase b) = true := by
  decide +kernel

theorem toAsciiLowercase_idem : ∀ b : UInt8,
    toAsciiLowercase (toAsciiLowercase b) = toAsciiLowercase b := by
  decide +kernel

theorem toAsciiLowercase_dot : ∀ b : UInt8, toAsciiLowercase b = 46 ↔ b = 46 := by
  decide +kernel

theorem hasDotPair_lowercase (v : Bytes) : hasDotPair (v.map toAsciiLowercase) = hasDotPair v := by
  induction v with
  | nil => rfl
  | cons a v ih =>
    cases v with
    | nil => rfl
    | cons b v =>
      have hdot : ∀ b : UInt8, (toAsciiLowercase b == 46) = (b == 46) := by
        intro b
        rw [Bool.eq_iff_iff, beq_iff_eq, beq_iff_eq]
        exact toAsciiLowercase_dot b
      rw [List.map_cons, List.map_cons, hasDotPair, hasDotPair, hdot, hdot, ← ih, List.map_cons]

theorem validDotAtom_lowercase {v : Bytes} (h : validDotAtom v = true) :
    validDotAtom (v.map toAsciiLowercase) = true := by
  have hsome : ∀ x : Option UInt8, (x != some 46) = true →
      (x.map toAsciiLowercase != some 46) = true := by
    intro x hx
    cases x with
    | none => rfl
    | some b =>
      rw [bne_iff_ne] at hx ⊢
      intro heq
      exact hx (congrArg some ((toAsciiLowercase_dot b).mp (Option.some.inj heq)))
  simp only [validDotAtom, Bool.and_eq_true, List.all_eq_true] at h ⊢
  obtain ⟨⟨⟨⟨hempty, hhead⟩, hlast⟩, hpair⟩, hall⟩ := h
  refine ⟨⟨⟨⟨by simpa using hempty, ?_⟩, ?_⟩, ?_⟩, ?_⟩
  · rw [List.head?_map]
    exact hsome _ hhead
  · rw [List.getLast?_map]
    exact hsome _ hlast
  · rw [hasDotPair_lowercase]
    exact hpair
  · intro b hb
    obtain ⟨c, hc, rfl⟩ := List.mem_map.mp hb
    exact isDotAtomByte_lowercase c (hall c hc)

theorem validDomain_lowercase {d : Bytes} (h : validDomain d = true) :
    validDomain (d.map toAsciiLowercase) = true := by
  rcases validDomain_iff.mp h with hatom | ⟨text, htext, rfl⟩
  · exact validDomain_iff.mpr (Or.inl (validDotAtom_lowercase hatom))
  · refine validDomain_iff.mpr (Or.inr ⟨text.map toAsciiLowercase, ?_, by simp; decide⟩)
    intro b hb
    obtain ⟨c, hc, rfl⟩ := List.mem_map.mp hb
    exact isLiteralByte_lowercase c (htext c hc)

/-- What is presented is an address specification of the same local part. -/
theorem IsAddrSpec.again {s l d : Bytes} (h : IsAddrSpec s l d) :
    IsAddrSpec (l ++ AT :: d.map toAsciiLowercase) l (d.map toAsciiLowercase) :=
  ⟨h.localPart, validDomain_lowercase h.domain, [], [], [], [],
    ⟨isSpaces_nil, isSpaces_nil, isSpaces_nil, isSpaces_nil⟩, by simp⟩

theorem map_lowercase_idem (d : Bytes) :
    (d.map toAsciiLowercase).map toAsciiLowercase = d.map toAsciiLowercase := by
  rw [List.map_map]
  exact List.map_congr_left fun b _ => toAsciiLowercase_idem b

end ProcmailRs
