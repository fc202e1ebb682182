import ProcmailRs.Proofs.AddrSpecProofs
import ProcmailRs.Proofs.VisitProofs

/-!
# Mailboxes with and without angle brackets

The value of a field presents a list of addresses, and a visitor is shown these. An address
specification is presented alike when it stands alone, in angle brackets or behind a display name,
unless a domain literal holds bytes that the scanners before it take for structure.
-/

namespace ProcmailRs

open Quoting (outside inside run clear)

/-! ### What a value presents -/

/-- The addresses of a value. -/
def presented (value : Bytes) : List Bytes :=
  match removeCommentsAndUnfold value with
  | none => []
  | some value => (mailboxElements value).filterMap normalizeMailbox

section Visitors

variable {ε σ : Type}

theorem visitMailboxes_eq (visit : σ → Bytes → Except ε (Bool × σ)) (elements : List Bytes)
    (count : Nat) (s : σ) :
    visitMailboxes visit elements count s =
      visitLimited maxStructuredHeaderValues visit (elements.filterMap normalizeMailbox) count s := by
  induction elements generalizing count s with
  | nil => rfl
  | cons element rest ih =>
    cases haddress : normalizeMailbox element with
    | none =>
      rw [visitMailboxes, haddress, List.filterMap_cons_none haddress]
      exact ih count s
    | some address =>
      rw [visitMailboxes, haddress, List.filterMap_cons_some haddress, visitLimited]
      simp only
      split_ifs with hfull
      · rfl
      · cases visit s address with
        | error e => rfl
        | ok result =>
          obtain ⟨found, s⟩ := result
          cases found with
          | true => rfl
          | false => exact ih (count + 1) s

/-- What `anyAddress` does with one field. -/
def visitAddressField (wanted : List AddressField) (visit : σ → Bytes → Except ε (Bool × σ))
    (state : Nat × σ) (name value : Bytes) :
    Except (StructuredVisitError ε) (Bool × Nat × σ) :=
  if wanted.any fun field => eqIgnoreAsciiCase name field.name.bytes then
    visitLimited maxStructuredHeaderValues visit (presented value) state.1 state.2
  else .ok (false, state)

theorem anyAddress_eq (fields : List Field) (wanted : List AddressField)
    (visit : σ → Bytes → Except ε (Bool × σ)) (s : σ) :
    anyAddress fields wanted visit s =
      (visitFields (visitAddressField wanted visit) fields (0, s)).map
        fun result => (result.1, result.2.2) := by
  unfold anyAddress
  dsimp only
  generalize hvisit : (fun (state : Nat × σ) (name value : Bytes) => _) = visitField
  have hfield : visitField = visitAddressField wanted visit := by
    rw [← hvisit]
    funext state name value
    unfold visitAddressField presented
    cases removeCommentsAndUnfold value with
    | none => rfl
    | some value => simp only [visitMailboxes_eq]
  rw [hfield]
  cases visitFields (visitAddressField wanted visit) fields (0, s) <;> rfl

end Visitors

/-- A field with this name and this value. -/
def fieldWith (name value : Bytes) : Field := ⟨name ++ COLON :: value, some name⟩

theorem value_fieldWith (name value : Bytes) : (fieldWith name value).value = some value := by
  have hlength : name.length + 1 ≤ (name ++ COLON :: value).length := by simp
  have hdrop : (name ++ COLON :: value).drop (name.length + 1) = value := by
    rw [← List.drop_drop, List.drop_left]
    rfl
  simp only [fieldWith, Field.value, if_pos hlength, hdrop]

/-- A visitor of the addresses of a field with this value is shown this address, and no other. -/
def PresentsOnly (wanted : List AddressField) (name value address : Bytes) : Prop :=
  ∀ (ε σ : Type) (visit : σ → Bytes → Except ε (Bool × σ)) (s : σ),
    anyAddress [fieldWith name value] wanted visit s =
      match visit s address with
      | .error e => .error (.Visitor e)
      | .ok result => .ok result

section Presented

variable {wanted : List AddressField} {name : Bytes}

theorem anyAddress_fieldWith {ε σ : Type}
    (hname : (wanted.any fun field => eqIgnoreAsciiCase name field.name.bytes) = true)
    (value : Bytes) (visit : σ → Bytes → Except ε (Bool × σ)) (s : σ) :
    anyAddress [fieldWith name value] wanted visit s =
      (visitLimited maxStructuredHeaderValues visit (presented value) 0 s).map fun result => (result.1, result.2.2) := by
  have hvisit : visitFields (visitAddressField wanted visit) [fieldWith name value] (0, s) =
      visitLimited maxStructuredHeaderValues visit (presented value) 0 s := by
    have hfield : (fieldWith name value).name = some name := rfl
    rw [visitFields, hfield, value_fieldWith]
    simp only [visitAddressField, if_pos hname]
    cases visitLimited maxStructuredHeaderValues visit (presented value) 0 s with
    | error e => rfl
    | ok result =>
      obtain ⟨found, count, s⟩ := result
      cases found <;> rfl
  rw [anyAddress_eq, hvisit]

theorem presentsOnly_iff
    (hname : (wanted.any fun field => eqIgnoreAsciiCase name field.name.bytes) = true)
    {value address : Bytes} :
    PresentsOnly wanted name value address ↔ presented value = [address] := by
  constructor
  · intro h
    have hkept := h Empty (List Bytes) keepAll []
    rw [anyAddress_fieldWith hname] at hkept
    obtain ⟨⟨found, count, seen⟩, hvisit, hresult⟩ := map_eq_ok hkept
    obtain ⟨rfl, rfl⟩ := visitLimited_keepAll hvisit
    simpa using hresult
  · intro h ε σ visit s
    have hfits : 0 + [address].length ≤ maxStructuredHeaderValues := by
      rw [List.length_singleton]
      decide
    have hone := visitLimited_of_le visit hfits s
    rw [anyAddress_fieldWith hname, h, hone, visitUntil]
    cases visit s address with
    | error e => rfl
    | ok result =>
      obtain ⟨found, s⟩ := result
      cases found <;> rfl

end Presented

/-! ### Texts that hide nothing -/

/-- The bytes outside of quoted strings that a scanner before the address specification acts on. -/
def isStructural (b : UInt8) : Bool :=
  [LPAREN, COMMA, SEMICOLON, COLON, LANGLE, RANGLE].contains b

/-- Read with its quotation marks and escapes, the text has no structural byte outside of quoted
strings and leaves no quoted string open. -/
def Shielded (v : Bytes) : Prop := Quoting.Hides marks isStructural v

theorem beq_structural {wanted : UInt8} (hwanted : isStructural wanted = true) :
    ∀ b : UInt8, (b == wanted) = true → isStructural b = true := by
  intro b hb
  rw [eq_of_beq hb]
  exact hwanted

theorem not_quote_of_space : ∀ b : UInt8, isAsciiWhitespace b = true → b ≠ QUOTE := by
  decide +kernel

section Hides

variable {stop : UInt8 → Bool} (hstop : ∀ b, stop b = true → isStructural b = true)

include hstop

theorem hides_of_inert {v : Bytes} (h : ∀ b ∈ v, isInert b = true) :
    Quoting.Hides marks stop v := by
  have hinert : ∀ b : UInt8, isInert b = true → isStructural b = false ∧ b ≠ QUOTE := by
    decide +kernel
  exact (Quoting.hides_of_forall (m := marks) fun b hb => hinert b (h b hb)).mono hstop

theorem hides_of_spaces {w : Bytes} (h : IsSpaces w) : Quoting.Hides marks stop w := by
  have hspace : ∀ b : UInt8, isAsciiWhitespace b = true → isStructural b = false := by
    decide +kernel
  exact (Quoting.hides_of_forall (m := marks) fun b hb =>
    ⟨hspace b (h b hb), not_quote_of_space b (h b hb)⟩).mono hstop

theorem hides_of_quoted {v : Bytes} (h : Quoting.Quoted marks v) : Quoting.Hides marks stop v := by
  have hhides : Quoting.Hides marks isStructural v := h.hides (by decide)
  exact hhides.mono hstop

theorem hides_of_local {l : Bytes} (h : validLocal l = true) : Quoting.Hides marks stop l := by
  rcases validLocal_cases h with ⟨-, hinert⟩ | hquoted
  · exact hides_of_inert hstop hinert
  · exact hides_of_quoted hstop hquoted

/-- Only the domain of an address specification can hold structure. -/
theorem IsAddrSpec.hides_iff {s l d : Bytes} (h : IsAddrSpec s l d) :
    Quoting.Hides marks stop s ↔ Quoting.Hides marks stop d := by
  obtain ⟨w, w', u, u', ⟨hw, hw', hu, hu'⟩, rfl⟩ := h.text
  have hat : Quoting.Hides marks isStructural [AT] := by
    constructor <;> decide
  have hleft : Quoting.Hides marks stop (w ++ l ++ w' ++ [AT] ++ u) :=
    ((((hides_of_spaces hstop hw).append (hides_of_local hstop h.localPart)).append
      (hides_of_spaces hstop hw')).append (hat.mono hstop)).append (hides_of_spaces hstop hu)
  have htext : w ++ l ++ w' ++ AT :: (u ++ d ++ u') = w ++ l ++ w' ++ [AT] ++ u ++ (d ++ u') := by
    simp
  rw [htext, hleft.append_iff]
  constructor
  · rintro ⟨hclear, hrun⟩
    refine ⟨(Quoting.clear_append.mp hclear).1, ?_⟩
    rw [Quoting.run_append] at hrun
    have hkept : (run marks (run marks outside d) u').quoted = (run marks outside d).quoted :=
      Quoting.quoted_run_of_forall_ne (m := marks) fun b hb => not_quote_of_space b (hu' b hb)
    rw [hrun] at hkept
    exact (Quoting.valid_run valid_outside d).eq_outside hkept.symm
  · intro hd
    exact hd.append (hides_of_spaces hstop hu')

end Hides

/-- Only the domain can leave a quoted string open. -/
theorem IsAddrSpec.run {s l d : Bytes} (h : IsAddrSpec s l d)
    (hd : Quoting.run marks outside d = outside) : Quoting.run marks outside s = outside := by
  have hnothing : ∀ b : UInt8, false = true → isStructural b = true := fun _ hb => nomatch hb
  exact ((h.hides_iff hnothing).mpr ⟨Quoting.clear_of_forall fun _ _ => rfl, hd⟩).2

theorem IsAddrSpec.shielded_iff {s l d : Bytes} (h : IsAddrSpec s l d) :
    Shielded s ↔ Shielded d :=
  h.hides_iff fun _ hb => hb

namespace Shielded

theorem append {v r : Bytes} (h : Shielded v) (hr : Shielded r) : Shielded (v ++ r) :=
  Quoting.Hides.append h hr

theorem clear {v : Bytes} (h : Shielded v) {stop : UInt8 → Bool}
    (hstop : ∀ b, stop b = true → isStructural b = true) :
    Quoting.clear marks stop outside v = true :=
  (Quoting.Hides.mono hstop h).1

theorem of_spaces {w : Bytes} (h : IsSpaces w) : Shielded w := hides_of_spaces (fun _ hb => hb) h

theorem lowercase_iff (d : Bytes) : Shielded (d.map toAsciiLowercase) ↔ Shielded d := by
  have hquote : ∀ b, toAsciiLowercase b = marks.quote ↔ b = marks.quote := by decide +kernel
  have hescape : ∀ b, toAsciiLowercase b = marks.escape ↔ b = marks.escape := by decide +kernel
  have hstop : ∀ b, isStructural (toAsciiLowercase b) = isStructural b := by decide +kernel
  unfold Shielded Quoting.Hides
  rw [Quoting.clear_map hquote hescape hstop, Quoting.run_map hquote hescape]

end Shielded

/-! ### Removing what folds -/

/-- A text that is kept as it is. -/
structure Solid (v : Bytes) : Prop where
  ne : v ≠ []
  clear : clear marks isUnfoldByte outside v = true
  run : run marks outside v = outside

theorem solid_of_inert {v : Bytes} (hne : v ≠ []) (h : ∀ b ∈ v, isInert b = true) : Solid v := by
  have hinert : ∀ b : UInt8, isInert b = true → isUnfoldByte b = false := by decide +kernel
  exact ⟨hne, Quoting.clear_of_forall fun b hb => hinert b (h b hb),
    (hides_of_inert (fun _ hb => hb) h).2⟩

theorem solid_of_quoted {v : Bytes} (h : Quoting.Quoted marks v) : Solid v := by
  have hquote : isUnfoldByte marks.quote = false := by decide
  obtain ⟨hclear, hrun⟩ := h.hides hquote
  refine ⟨?_, hclear, hrun⟩
  rintro rfl
  obtain ⟨body, -, hnil⟩ := h
  cases hnil

theorem solid_of_local {l : Bytes} (h : validLocal l = true) : Solid l := by
  rcases validLocal_cases h with ⟨hne, hinert⟩ | hquoted
  · exact solid_of_inert hne hinert
  · exact solid_of_quoted hquoted

theorem solid_of_domain {d : Bytes} (h : validDomain d = true)
    (hd : Quoting.Hides marks (· == LPAREN) d) : Solid d := by
  rcases validDomain_iff.mp h with hatom | ⟨text, htext, rfl⟩
  · exact solid_of_inert (validDotAtom_bytes hatom).1 (validDotAtom_bytes hatom).2
  · have hliteral : ∀ b : UInt8, isLiteralByte b = true → isAsciiWhitespace b = false := by
      decide +kernel
    refine ⟨by simp, Quoting.clear_or.mpr ⟨Quoting.clear_of_forall ?_, hd.1⟩, hd.2⟩
    · intro b hb
      rcases List.mem_cons.mp hb with rfl | hb
      · rfl
      · rcases List.mem_append.mp hb with hb | hb
        · exact hliteral b (htext b hb)
        · obtain rfl := List.mem_singleton.mp hb
          rfl

namespace CommentScan

theorem foldl_solid {v : Bytes} (h : Solid v) (output : Bytes) (pendingSpace : Bool) :
    v.foldl step (text output outside pendingSpace) =
      text (joint output pendingSpace ++ v) outside false := by
  rw [foldl_outside h.ne h.clear, h.run]

end CommentScan

theorem solid_of_shielded {d : Bytes} (h : validDomain d = true) (hd : Shielded d) : Solid d :=
  solid_of_domain h (Quoting.Hides.mono (beq_structural (by decide)) hd)

/-- The space that is left of some whitespace. -/
def space (pendingSpace : Bool) : Bytes := if pendingSpace then [SP] else []

theorem isSpaces_space (pendingSpace : Bool) : IsSpaces (space pendingSpace) := by
  cases pendingSpace
  · exact isSpaces_nil
  · intro b hb
    obtain rfl := List.mem_singleton.mp hb
    rfl

theorem joint_space {v : Bytes} (h : v ≠ []) (pendingSpace : Bool) :
    CommentScan.joint v pendingSpace = v ++ space pendingSpace := by
  cases pendingSpace <;> simp [CommentScan.joint, space, h]

theorem joint_nil (pendingSpace : Bool) : CommentScan.joint [] pendingSpace = [] := by
  simp [CommentScan.joint]

/-- An address specification loses whitespace at its ends and keeps one space where it had some. -/
theorem IsAddrSpec.foldl {s l d : Bytes} (h : IsAddrSpec s l d) (hdomain : Solid d) :
    ∃ m, IsAddrSpec m l d ∧ Tight m ∧ ∃ before behind, ∀ output pendingSpace,
      s.foldl CommentScan.step (CommentScan.text output outside pendingSpace) =
        CommentScan.text (CommentScan.joint output (pendingSpace || before) ++ m) outside behind := by
  obtain ⟨w, w', u, u', ⟨hw, hw', hu, hu'⟩, rfl⟩ := h.text
  have hl := solid_of_local h.localPart
  have hat : Solid [AT] := ⟨by simp, by decide, by decide⟩
  refine ⟨l ++ space (!w'.isEmpty) ++ AT :: (space (!u.isEmpty) ++ d),
    ⟨h.localPart, h.domain, [], space (!w'.isEmpty), space (!u.isEmpty), [],
      ⟨isSpaces_nil, isSpaces_space _, isSpaces_space _, isSpaces_nil⟩, by simp⟩, ?_,
    !w.isEmpty, !u'.isEmpty, ?_⟩
  · constructor
    · intro b hb
      refine (tight_of_validLocal h.localPart).1 b ?_
      rwa [List.append_assoc, List.head?_append_of_ne_nil _ hl.ne] at hb
    · intro b hb
      refine (tight_of_validDomain h.domain).2 b ?_
      rwa [← List.cons_append, ← List.append_assoc, List.getLast?_append_of_ne_nil _ hdomain.ne]
        at hb
  · intro output pendingSpace
    have htext : w ++ l ++ w' ++ AT :: (u ++ d ++ u') = w ++ (l ++ (w' ++ ([AT] ++ (u ++ (d ++ u'))))) := by
      simp
    rw [htext, List.foldl_append, CommentScan.foldl_space hw, List.foldl_append,
      CommentScan.foldl_solid hl, List.foldl_append, CommentScan.foldl_space hw', List.foldl_append,
      CommentScan.foldl_solid hat, List.foldl_append, CommentScan.foldl_space hu, List.foldl_append,
      CommentScan.foldl_solid hdomain, CommentScan.foldl_space hu']
    simp only [Bool.false_or]
    rw [joint_space (List.append_ne_nil_of_right_ne_nil _ hl.ne),
      joint_space (List.append_ne_nil_of_right_ne_nil _ hat.ne)]
    simp

/-! ### One element -/

theorem isListByte_structural : ∀ b : UInt8, isListByte b = true → isStructural b = true := by
  decide +kernel

theorem isAngleByte_structural : ∀ b : UInt8, isAngleByte b = true → isStructural b = true := by
  decide +kernel

theorem mailboxElements_of_shielded {v : Bytes} (h : Shielded v) : mailboxElements v = [v] := by
  have happend := mailboxElementsFrom_append 0 (q := outside)
    (h.clear isAngleByte_structural) (fun _ => h.clear isListByte_structural) [] []
  rw [List.append_nil, List.nil_append] at happend
  exact happend

/-- Text in angle brackets belongs to one element. -/
theorem mailboxElementsFrom_angle {m : Bytes} (hm : clear marks isAngleByte outside m = true)
    (hrun : run marks outside m = outside) (current r : Bytes) :
    mailboxElementsFrom ⟨false, 0, false⟩ current (LANGLE :: (m ++ RANGLE :: r)) =
      mailboxElementsFrom ⟨false, 0, false⟩ (current ++ LANGLE :: (m ++ [RANGLE])) r := by
  have hopen : mailboxElementsFrom ⟨false, 0, false⟩ current (LANGLE :: (m ++ RANGLE :: r)) =
      mailboxElementsFrom ⟨false, 1, false⟩ (current ++ [LANGLE]) (m ++ RANGLE :: r) := rfl
  have happend := mailboxElementsFrom_append 1 (q := outside) hm (by simp)
    (current ++ [LANGLE]) (RANGLE :: r)
  rw [hrun] at happend
  rw [hopen]
  refine happend.trans ?_
  have hclose : mailboxElementsFrom ⟨outside.quoted, 1, outside.escaped⟩ (current ++ [LANGLE] ++ m)
      (RANGLE :: r) =
        mailboxElementsFrom ⟨false, 0, false⟩ (current ++ [LANGLE] ++ m ++ [RANGLE]) r := rfl
  rw [hclose]
  congr 1
  simp

theorem mailboxElements_angle {before m : Bytes} (hbefore : Shielded before) (hm : Shielded m) :
    mailboxElements (before ++ LANGLE :: (m ++ [RANGLE])) = [before ++ LANGLE :: (m ++ [RANGLE])] := by
  have happend := mailboxElementsFrom_append 0 (q := outside)
    (hbefore.clear isAngleByte_structural) (fun _ => hbefore.clear isListByte_structural) []
    (LANGLE :: (m ++ [RANGLE]))
  rw [hbefore.2] at happend
  refine happend.trans ?_
  rw [List.nil_append]
  exact mailboxElementsFrom_angle (hm.clear isAngleByte_structural) hm.2 before []

theorem normalizeMailbox_bare {v : Bytes} (hne : v ≠ []) (htight : Tight v) (h : Shielded v) :
    normalizeMailbox v = normalizeAddrSpec v := by
  have hangle : findUnquoted v LANGLE = none := findUnquoted_eq_none (h.clear (beq_structural rfl))
  have hcolon : findUnquoted v COLON = none := findUnquoted_eq_none (h.clear (beq_structural rfl))
  unfold normalizeMailbox
  simp only
  rw [trimAscii_of_tight htight, if_neg (by simpa using hne), hangle, hcolon]
  simp only
  rw [List.drop_zero, trimAscii_of_tight htight]

theorem normalizeMailbox_angle {before m : Bytes}
    (htight : ∀ b ∈ before.head?, isAsciiWhitespace b = false)
    (hbefore : clear marks (· == LANGLE) outside before = true)
    (hrun : run marks outside before = outside) (hm : clear marks (· == RANGLE) outside m = true)
    (hmrun : run marks outside m = outside) :
    normalizeMailbox (before ++ LANGLE :: (m ++ [RANGLE])) = normalizeAddrSpec (trimAscii m) := by
  have htrim : Tight (before ++ LANGLE :: (m ++ [RANGLE])) := by
    constructor
    · intro b hb
      cases before with
      | nil =>
        obtain rfl : LANGLE = b := by simpa using hb
        rfl
      | cons c before => exact htight b hb
    · intro b hb
      rw [← List.cons_append, ← List.append_assoc, List.getLast?_concat] at hb
      obtain rfl := Option.some.inj hb
      rfl
  have hopening : findUnquoted (before ++ LANGLE :: (m ++ [RANGLE])) LANGLE = some before.length :=
    findUnquoted_of_clear (by decide) hbefore hrun _
  have hinside : (before ++ LANGLE :: (m ++ [RANGLE])).drop (before.length + 1) = m ++ [RANGLE] := by
    rw [← List.drop_drop, List.drop_left]
    rfl
  have hclosing : findUnquoted (m ++ [RANGLE]) RANGLE = some m.length :=
    findUnquoted_of_clear (by decide) hm hmrun []
  have hbehind : (before ++ LANGLE :: (m ++ [RANGLE])).drop (before.length + 1 + m.length + 1) = [] := by
    rw [List.drop_eq_nil_iff]
    simp
    omega
  unfold normalizeMailbox
  simp only
  rw [trimAscii_of_tight htrim, if_neg (by simp), hopening]
  simp only
  rw [hinside, hclosing]
  simp only
  rw [hbehind, List.take_left]
  rfl

/-! ### Presented alike -/

theorem IsAddrSpec.pad {m l d w u : Bytes} (h : IsAddrSpec m l d) (hw : IsSpaces w)
    (hu : IsSpaces u) : IsAddrSpec (w ++ m ++ u) l d := by
  obtain ⟨w₁, w₂, u₁, u₂, ⟨hw₁, hw₂, hu₁, hu₂⟩, rfl⟩ := h.text
  have happend : ∀ {x y : Bytes}, IsSpaces x → IsSpaces y → IsSpaces (x ++ y) := by
    intro x y hx hy b hb
    rcases List.mem_append.mp hb with hb | hb
    · exact hx b hb
    · exact hy b hb
  exact ⟨h.localPart, h.domain, w ++ w₁, w₂, u₁, u₂ ++ u,
    ⟨happend hw hw₁, hw₂, hu₁, happend hu₂ hu⟩, by simp⟩

theorem IsAddrSpec.ne_nil {s l d : Bytes} (h : IsAddrSpec s l d) : s ≠ [] := by
  obtain ⟨w, w', u, u', -, rfl⟩ := h.text
  simp

theorem removeCommentsAndUnfold_of_run {value output : Bytes} (pendingSpace : Bool)
    (h : value.foldl CommentScan.step (CommentScan.text [] outside false) =
      CommentScan.text output outside pendingSpace) :
    removeCommentsAndUnfold value = some output := by
  have hrun : CommentScan.run value = CommentScan.text output outside pendingSpace := h
  unfold removeCommentsAndUnfold
  rw [hrun]
  rfl

section Forms

variable {s l d lead trail : Bytes}

theorem removed_bare (h : IsAddrSpec s l d) (hd : Solid d) (hlead : IsSpaces lead)
    (htrail : IsSpaces trail) :
    ∃ m, IsAddrSpec m l d ∧ Tight m ∧ removeCommentsAndUnfold (lead ++ s ++ trail) = some m := by
  obtain ⟨m, hm, htight, before, behind, hfold⟩ := h.foldl hd
  refine ⟨m, hm, htight, removeCommentsAndUnfold_of_run (behind || !trail.isEmpty) ?_⟩
  rw [List.foldl_append, List.foldl_append, CommentScan.foldl_space hlead, hfold,
    CommentScan.foldl_space htrail, joint_nil, List.nil_append]

/-- The part from the opening angle bracket on, read behind what the value starts with. -/
theorem removed_angle (h : IsAddrSpec s l d) (hd : Solid d) (htrail : IsSpaces trail)
    (front before : Bytes) (pendingSpace : Bool)
    (hfront : front.foldl CommentScan.step (CommentScan.text [] outside false) =
      CommentScan.text before outside pendingSpace) :
    ∃ m, IsAddrSpec m l d ∧ normalizeAddrSpec (trimAscii m) = some (l ++ AT :: d.map toAsciiLowercase) ∧
      removeCommentsAndUnfold (front ++ LANGLE :: (s ++ RANGLE :: trail)) =
        some (CommentScan.joint before pendingSpace ++ LANGLE :: (m ++ [RANGLE])) := by
  obtain ⟨m, hm, htight, hasBefore, behind, hfold⟩ := h.foldl hd
  have hlangle : Solid [LANGLE] := ⟨by simp, by decide, by decide⟩
  have hrangle : Solid [RANGLE] := ⟨by simp, by decide, by decide⟩
  refine ⟨space hasBefore ++ m ++ space behind, hm.pad (isSpaces_space hasBefore) (isSpaces_space behind),
    ?_, removeCommentsAndUnfold_of_run (false || !trail.isEmpty) ?_⟩
  · rw [trimAscii_eq (isSpaces_space hasBefore) (isSpaces_space behind) htight, hm.normalize]
  · have hsplit : front ++ LANGLE :: (s ++ RANGLE :: trail) =
        front ++ ([LANGLE] ++ (s ++ ([RANGLE] ++ trail))) := by simp
    rw [hsplit, List.foldl_append, hfront, List.foldl_append, CommentScan.foldl_solid hlangle,
      List.foldl_append, hfold, List.foldl_append, CommentScan.foldl_solid hrangle,
      CommentScan.foldl_space htrail, Bool.false_or, joint_space (by simp) hasBefore,
      joint_space (by simp) behind]
    simp

theorem presented_bare (h : IsAddrSpec s l d) (hd : Shielded d) (hlead : IsSpaces lead)
    (htrail : IsSpaces trail) :
    presented (lead ++ s ++ trail) = [l ++ AT :: d.map toAsciiLowercase] := by
  obtain ⟨m, hm, htight, hremoved⟩ := removed_bare h (solid_of_shielded h.domain hd) hlead htrail
  have hshielded : Shielded m := hm.shielded_iff.mpr hd
  have hmailbox : normalizeMailbox m = some (l ++ AT :: d.map toAsciiLowercase) := by
    rw [normalizeMailbox_bare hm.ne_nil htight hshielded, hm.normalize]
  unfold presented
  rw [hremoved]
  simp only
  rw [mailboxElements_of_shielded hshielded, List.filterMap_cons_some hmailbox, List.filterMap_nil]

theorem presented_angle_of_foldl (h : IsAddrSpec s l d) (hd : Shielded d) (htrail : IsSpaces trail)
    (front before : Bytes) (pendingSpace : Bool)
    (hfront : front.foldl CommentScan.step (CommentScan.text [] outside false) =
      CommentScan.text before outside pendingSpace)
    (hbefore : Shielded before) (htight : ∀ b ∈ before.head?, isAsciiWhitespace b = false) :
    presented (front ++ LANGLE :: (s ++ RANGLE :: trail)) = [l ++ AT :: d.map toAsciiLowercase] := by
  obtain ⟨m, hm, hnormalize, hremoved⟩ :=
    removed_angle h (solid_of_shielded h.domain hd) htrail front before pendingSpace hfront
  -- The text before the bracket, with the space that separates it from the bracket.
  have hhead : Shielded (CommentScan.joint before pendingSpace) ∧
      ∀ b ∈ (CommentScan.joint before pendingSpace).head?, isAsciiWhitespace b = false := by
    by_cases hempty : before = []
    · subst hempty
      rw [joint_nil]
      exact ⟨hbefore, htight⟩
    · rw [joint_space hempty]
      refine ⟨hbefore.append (Shielded.of_spaces (isSpaces_space pendingSpace)), ?_⟩
      rw [List.head?_append_of_ne_nil _ hempty]
      exact htight
  have hshielded := hm.shielded_iff.mpr hd
  have hmailbox := normalizeMailbox_angle hhead.2 (hhead.1.clear (beq_structural rfl)) hhead.1.2
    (hshielded.clear (beq_structural rfl)) hshielded.2
  rw [hnormalize] at hmailbox
  unfold presented
  rw [hremoved]
  simp only
  rw [mailboxElements_angle hhead.1 hshielded, List.filterMap_cons_some hmailbox, List.filterMap_nil]

theorem presented_angle (h : IsAddrSpec s l d) (hd : Shielded d) (hlead : IsSpaces lead)
    (htrail : IsSpaces trail) :
    presented (lead ++ LANGLE :: (s ++ RANGLE :: trail)) = [l ++ AT :: d.map toAsciiLowercase] :=
  presented_angle_of_foldl h hd htrail lead [] _ (CommentScan.foldl_space hlead [] false)
    (Shielded.of_spaces isSpaces_nil) (by simp)

theorem presented_display (h : IsAddrSpec s l d) (hd : Shielded d) (hlead : IsSpaces lead)
    (htrail : IsSpaces trail) {display space : Bytes} (hdisplay : Quoting.Quoted marks display)
    (hspace : IsSpaces space) :
    presented (lead ++ display ++ space ++ LANGLE :: (s ++ RANGLE :: trail)) =
      [l ++ AT :: d.map toAsciiLowercase] := by
  refine presented_angle_of_foldl h hd htrail (lead ++ display ++ space) display (!space.isEmpty) ?_ (hides_of_quoted (fun _ hb => hb) hdisplay) ?_
  · rw [List.foldl_append, List.foldl_append, CommentScan.foldl_space hlead,
      CommentScan.foldl_solid (solid_of_quoted hdisplay), CommentScan.foldl_space hspace, joint_nil,
      List.nil_append, Bool.false_or]
  · obtain ⟨body, -, rfl⟩ := hdisplay
    intro b hb
    obtain rfl : QUOTE = b := Option.some.inj hb
    rfl

/-- What is presented is presented again as itself. -/
theorem presented_again (h : IsAddrSpec s l d) (hd : Shielded d) (hlead : IsSpaces lead)
    (htrail : IsSpaces trail) :
    presented (lead ++ (l ++ AT :: d.map toAsciiLowercase) ++ trail) =
      [l ++ AT :: d.map toAsciiLowercase] := by
  have hagain := presented_bare h.again ((Shielded.lowercase_iff d).mpr hd) hlead htrail
  rw [map_lowercase_idem] at hagain
  exact hagain

end Forms

end ProcmailRs
