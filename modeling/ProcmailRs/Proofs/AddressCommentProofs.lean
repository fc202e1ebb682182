import ProcmailRs.Lib.Nesting
import ProcmailRs.Proofs.AddressProofs

/-!
# Comments and display names

A comment leaves no trace in the unfolded value, and of a quoted display name the later scanners
see one closed piece in front of the angle bracket. Which addresses are visited depends on neither.
A value is unfolded unless a comment, a quoted string or an escape is left open at its end.
-/

namespace ProcmailRs

open Quoting (outside inside run clear)

/-- The marks of comments. -/
def commentMarks : Nesting.Marks UInt8 :=
  ⟨LPAREN, RPAREN, BACKSLASH, by decide, by decide, by decide⟩

/-! ### Comments -/

namespace CommentScan

section Steps

variable (output : Bytes) (depth : Nat) (quoted pendingSpace : Bool)

theorem step_opening (h : depth = 0 → quoted = false) :
    step ⟨output, depth, quoted, false, pendingSpace⟩ commentMarks.opening =
      ⟨output, depth + 1, quoted, false, pendingSpace⟩ := by
  have hescape : LPAREN ≠ BACKSLASH := by decide
  cases depth with
  | zero => simp [step, commentMarks, h rfl, hescape]
  | succ depth => simp [step, commentMarks, hescape]

theorem step_closing :
    step ⟨output, depth + 1, quoted, false, pendingSpace⟩ commentMarks.closing =
      ⟨output, depth, quoted, false, pendingSpace⟩ := by
  have hescape : RPAREN ≠ BACKSLASH := by decide
  have hopening : RPAREN ≠ LPAREN := by decide
  simp [step, commentMarks, hescape, hopening]

theorem step_escape :
    step ⟨output, depth + 1, quoted, false, pendingSpace⟩ commentMarks.escape =
      ⟨output, depth + 1, quoted, true, pendingSpace⟩ := by
  simp [step, commentMarks]

theorem step_escaped (byte : UInt8) :
    step ⟨output, depth + 1, quoted, true, pendingSpace⟩ byte =
      ⟨output, depth + 1, quoted, false, pendingSpace⟩ := by
  simp [step]

theorem step_plain {byte : UInt8} (hopening : byte ≠ commentMarks.opening)
    (hclosing : byte ≠ commentMarks.closing) (hescape : byte ≠ commentMarks.escape) :
    step ⟨output, depth + 1, quoted, false, pendingSpace⟩ byte =
      ⟨output, depth + 1, quoted, false, pendingSpace⟩ := by
  have hopening' : byte ≠ LPAREN := hopening
  have hclosing' : byte ≠ RPAREN := hclosing
  have hescape' : byte ≠ BACKSLASH := hescape
  simp [step, hopening', hclosing', hescape']

end Steps

theorem foldl_body {body : Bytes} (h : Nesting.Body commentMarks body) (output : Bytes) (depth : Nat)
    (quoted pendingSpace : Bool) :
    body.foldl step ⟨output, depth + 1, quoted, false, pendingSpace⟩ =
      ⟨output, depth + 1, quoted, false, pendingSpace⟩ := by
  induction h generalizing depth with
  | nil => rfl
  | plain _ hopening hclosing hescape ih =>
    rw [List.foldl_cons, step_plain output depth quoted pendingSpace hopening hclosing hescape]
    exact ih depth
  | escaped _ ih =>
    rw [List.foldl_cons, List.foldl_cons, step_escape, step_escaped]
    exact ih depth
  | nested _ _ ihb ih =>
    rw [List.foldl_cons, step_opening output (depth + 1) quoted pendingSpace (by simp),
      List.foldl_append, ihb (depth + 1), List.foldl_cons, step_closing]
    exact ih depth

/-- A comment changes nothing. -/
theorem foldl_comment {comment : Bytes} (h : Nesting.Nested commentMarks comment)
    {scan : CommentScan} (hquoted : scan.quoted = false) (hescaped : scan.escaped = false) :
    comment.foldl step scan = scan := by
  obtain ⟨body, hbody, rfl⟩ := h
  obtain ⟨output, depth, quoted, escaped, pendingSpace⟩ := scan
  obtain rfl : quoted = false := hquoted
  obtain rfl : escaped = false := hescaped
  rw [List.foldl_cons, step_opening output depth false pendingSpace (fun _ => rfl),
    List.foldl_append, foldl_body hbody, List.foldl_cons, step_closing]
  rfl

/-- In a comment that is left open the scan never comes out. -/
theorem depth_of_open {v : Bytes} (h : Nesting.Open commentMarks v) (output : Bytes) (depth : Nat)
    (quoted pendingSpace : Bool) (hquoted : depth = 0 → quoted = false) :
    (v.foldl step ⟨output, depth, quoted, false, pendingSpace⟩).commentDepth > depth := by
  induction h generalizing depth with
  | body hb =>
    rw [List.foldl_cons, step_opening output depth quoted pendingSpace hquoted, foldl_body hb]
    exact Nat.lt_succ_self depth
  | escape hb =>
    rw [List.foldl_cons, step_opening output depth quoted pendingSpace hquoted, List.foldl_append,
      foldl_body hb, List.foldl_cons, step_escape]
    exact Nat.lt_succ_self depth
  | nested hb _ ih =>
    rw [List.foldl_cons, step_opening output depth quoted pendingSpace hquoted, List.foldl_append,
      foldl_body hb]
    have hinner := ih (depth + 1) (by simp)
    omega

/-- In a quoted string that is left open the scan stays quoted. -/
theorem quoted_of_open {v : Bytes} (h : Quoting.Open marks v) (output : Bytes)
    (pendingSpace : Bool) :
    (v.foldl step (text output outside pendingSpace)).quoted = true := by
  have hquoted := h.quoted_run
  obtain ⟨body, hbody, hv⟩ := h
  have hclear : clear marks isUnfoldByte outside v = true := by
    have hopen : Quoting.step marks outside marks.quote = inside := rfl
    have hinside := @Quoting.clear_of_inside _ _ _ isUnfoldByte _ hbody
    rcases hv with rfl | rfl
    · exact Quoting.clear_cons.mpr ⟨Or.inr (by decide), hopen ▸ hinside⟩
    · refine Quoting.clear_cons.mpr ⟨Or.inr (by decide), ?_⟩
      rw [hopen]
      refine Quoting.clear_append.mpr ⟨hinside, ?_⟩
      rw [hbody.run]
      exact Quoting.clear_cons.mpr ⟨Or.inl rfl, rfl⟩
  have hne : v ≠ [] := by
    rcases hv with rfl | rfl <;> simp
  rw [foldl_outside hne hclear]
  exact hquoted

end CommentScan

/-! ### Closed and open values -/

/-- The value consists of quoted strings, comments and bytes outside of both that `stop` is not
about. -/
inductive Lexed (stop : UInt8 → Bool) : Bytes → Prop
  | nil : Lexed stop []
  | plain {byte : UInt8} {v : Bytes} (h : Lexed stop v) (hquote : byte ≠ QUOTE)
      (hparen : byte ≠ LPAREN) (hstop : stop byte = false) : Lexed stop (byte :: v)
  | quoted {q v : Bytes} (hq : Quoting.Quoted marks q) (h : Lexed stop v) : Lexed stop (q ++ v)
  | comment {c v : Bytes} (hc : Nesting.Nested commentMarks c) (h : Lexed stop v) :
      Lexed stop (c ++ v)

/-- A quoted string or a comment is left open at the end of the value, with or without an escape. -/
def LeftOpen (value : Bytes) : Prop :=
  ∃ front rest, Lexed (fun _ => false) front ∧ value = front ++ rest ∧
    (Quoting.Open marks rest ∨ Nesting.Open commentMarks rest)

theorem lexed_or_leftOpen (value : Bytes) : Lexed (fun _ => false) value ∨ LeftOpen value := by
  induction hn : value.length using Nat.strongRecOn generalizing value with
  | _ n ih =>
    subst hn
    have hpiece : ∀ {piece rest : Bytes},
        (∀ {v : Bytes}, Lexed (fun _ => false) v → Lexed (fun _ => false) (piece ++ v)) →
        rest.length < value.length → value = piece ++ rest →
        Lexed (fun _ => false) value ∨ LeftOpen value := by
      intro piece rest hlexed hlength hsplit
      rcases ih rest.length hlength rest rfl with hrest | ⟨front, behind, hfront, rfl, hopen⟩
      · rw [hsplit]
        exact Or.inl (hlexed hrest)
      · exact Or.inr ⟨piece ++ front, behind, hlexed hfront, by rw [hsplit, List.append_assoc], hopen⟩
    cases value with
    | nil => exact Or.inl Lexed.nil
    | cons byte v =>
      by_cases hquote : byte = QUOTE
      · subst hquote
        rcases Quoting.open_or_closed (m := marks) v with hopen | ⟨body, rest, hbody, rfl⟩
        · exact Or.inr ⟨[], _, Lexed.nil, rfl, Or.inl hopen⟩
        · have hquoted : ∀ {v : Bytes}, Lexed (fun _ => false) v →
              Lexed (fun _ => false) (marks.quote :: (body ++ [marks.quote]) ++ v) :=
            fun h => h.quoted ⟨body, hbody, rfl⟩
          have hsplit : QUOTE :: (body ++ marks.quote :: rest) =
              marks.quote :: (body ++ [marks.quote]) ++ rest := by simp [marks]
          refine hpiece hquoted ?_ hsplit
          rw [List.length_cons, List.length_append, List.length_cons]
          omega
      by_cases hparen : byte = LPAREN
      · subst hparen
        rcases Nesting.open_or_closed (m := commentMarks) v with hopen | ⟨body, rest, hbody, rfl⟩
        · exact Or.inr ⟨[], _, Lexed.nil, rfl, Or.inr hopen⟩
        · have hcomment : ∀ {v : Bytes}, Lexed (fun _ => false) v →
              Lexed (fun _ => false) (commentMarks.opening :: (body ++ [commentMarks.closing]) ++ v) :=
            fun h => h.comment ⟨body, hbody, rfl⟩
          have hsplit : LPAREN :: (body ++ commentMarks.closing :: rest) =
              commentMarks.opening :: (body ++ [commentMarks.closing]) ++ rest := by
            simp [commentMarks]
          refine hpiece hcomment ?_ hsplit
          rw [List.length_cons, List.length_append, List.length_cons]
          omega
      · have hplain : ∀ {v : Bytes}, Lexed (fun _ => false) v → Lexed (fun _ => false) ([byte] ++ v) :=
          fun h => h.plain hquote hparen rfl
        exact hpiece hplain (by simp) rfl

theorem joint_eq (output : Bytes) (pendingSpace : Bool) :
    CommentScan.joint output pendingSpace = output ++ space (pendingSpace && !output.isEmpty) := by
  cases pendingSpace <;> cases output <;> simp [CommentScan.joint, space]

/-- What a closed text adds to the output, by whether the output is still empty. -/
theorem Lexed.foldl {stop : UInt8 → Bool} (hspace : stop SP = false) (hquote : stop QUOTE = false)
    {v : Bytes} (h : Lexed stop v) (empty pendingSpace : Bool) :
    ∃ added pendingSpace', Quoting.Hides marks stop added ∧ ∀ output : Bytes,
      output.isEmpty = empty →
        v.foldl CommentScan.step (CommentScan.text output outside pendingSpace) =
          CommentScan.text (output ++ added) outside pendingSpace' := by
  have hhides : ∀ flag, Quoting.Hides marks stop (space flag) := by
    intro flag
    refine Quoting.hides_of_forall (m := marks) fun b hb => ?_
    unfold space at hb
    split_ifs at hb
    · obtain rfl := List.mem_singleton.mp hb
      exact ⟨hspace, by decide⟩
    · cases hb
  -- A piece that is kept, and what the rest of the text adds behind it.
  have hkept : ∀ {piece rest : Bytes} {empty pendingSpace : Bool}, Solid piece →
      Quoting.Hides marks stop piece →
      (∃ added pendingSpace', Quoting.Hides marks stop added ∧ ∀ output : Bytes,
        output.isEmpty = false →
          rest.foldl CommentScan.step (CommentScan.text output outside false) =
            CommentScan.text (output ++ added) outside pendingSpace') →
      ∃ added pendingSpace', Quoting.Hides marks stop added ∧ ∀ output : Bytes,
        output.isEmpty = empty →
          (piece ++ rest).foldl CommentScan.step (CommentScan.text output outside pendingSpace) =
            CommentScan.text (output ++ added) outside pendingSpace' := by
    rintro piece rest empty pendingSpace hsolid hpiece ⟨added, pendingSpace', hadded, hrest⟩
    refine ⟨space (pendingSpace && !empty) ++ piece ++ added, pendingSpace',
      ((hhides _).append hpiece).append hadded, ?_⟩
    rintro output rfl
    rw [List.foldl_append, CommentScan.foldl_solid hsolid, hrest _ (by simp [hsolid.ne]), joint_eq]
    simp
  induction h generalizing empty pendingSpace with
  | nil => exact ⟨[], pendingSpace, hhides false, fun output _ => by simp⟩
  | @plain byte v _ hnot hparen hstop ih =>
    by_cases hwhite : isAsciiWhitespace byte = true
    · obtain ⟨added, pendingSpace', hadded, hrest⟩ := ih empty true
      refine ⟨added, pendingSpace', hadded, ?_⟩
      intro output hempty
      have hspaces : IsSpaces [byte] := by
        intro b hb
        obtain rfl := List.mem_singleton.mp hb
        exact hwhite
      rw [← List.singleton_append, List.foldl_append, CommentScan.foldl_space hspaces]
      have htrue : (pendingSpace || !([byte] : Bytes).isEmpty) = true := by simp
      rw [htrue]
      exact hrest output hempty
    · rw [Bool.not_eq_true] at hwhite
      have hsolid : Solid [byte] := by
        have hunfold : isUnfoldByte byte = false := by simp [isUnfoldByte, hwhite, hparen]
        have hhide : Quoting.Hides marks isUnfoldByte [byte] := by
          refine Quoting.hides_of_forall (m := marks) fun b hb => ?_
          obtain rfl := List.mem_singleton.mp hb
          exact ⟨hunfold, hnot⟩
        exact ⟨by simp, hhide.1, hhide.2⟩
      have hpiece : Quoting.Hides marks stop [byte] := by
        refine Quoting.hides_of_forall (m := marks) fun b hb => ?_
        obtain rfl := List.mem_singleton.mp hb
        exact ⟨hstop, hnot⟩
      exact hkept hsolid hpiece (ih false false)
  | quoted hq _ ih => exact hkept (solid_of_quoted hq) (hq.hides hquote) (ih false false)
  | comment hc _ ih =>
    obtain ⟨added, pendingSpace', hadded, hrest⟩ := ih empty pendingSpace
    refine ⟨added, pendingSpace', hadded, ?_⟩
    intro output hempty
    rw [List.foldl_append, CommentScan.foldl_comment hc rfl rfl]
    exact hrest output hempty

/-- A closed text leaves the scan outside. -/
theorem Lexed.foldl_start {v : Bytes} (h : Lexed (fun _ => false) v) :
    ∃ output pendingSpace, CommentScan.run v = CommentScan.text output outside pendingSpace := by
  obtain ⟨added, pendingSpace, -, hfold⟩ := h.foldl rfl rfl true false
  exact ⟨added, pendingSpace, hfold [] rfl⟩

/-- A value is not unfolded exactly when something is left open at its end. -/
theorem removeCommentsAndUnfold_eq_none {value : Bytes} :
    removeCommentsAndUnfold value = none ↔ LeftOpen value := by
  constructor
  · intro hnone
    rcases lexed_or_leftOpen value with hlexed | hopen
    · obtain ⟨output, pendingSpace, hrun⟩ := hlexed.foldl_start
      rw [removeCommentsAndUnfold_of_run pendingSpace hrun] at hnone
      cases hnone
    · exact hopen
  · rintro ⟨front, rest, hfront, rfl, hopen⟩
    obtain ⟨output, pendingSpace, hrun⟩ := hfront.foldl_start
    have hvalue : CommentScan.run (front ++ rest) =
        rest.foldl CommentScan.step (CommentScan.text output outside pendingSpace) := by
      rw [CommentScan.run, List.foldl_append]
      exact congrArg (rest.foldl CommentScan.step) hrun
    unfold removeCommentsAndUnfold
    simp only
    rw [hvalue, if_neg]
    rintro ⟨hdepth, hquoted, -⟩
    rcases hopen with hquote | hcomment
    · rw [CommentScan.quoted_of_open hquote] at hquoted
      cases hquoted
    · have hinside := CommentScan.depth_of_open hcomment output 0 false pendingSpace (fun _ => rfl)
      have htext : CommentScan.text output outside pendingSpace =
          ⟨output, 0, false, false, pendingSpace⟩ := rfl
      rw [htext] at hdepth
      omega

/-! ### The same addresses -/

/-- In every field of every header, the two values show every visitor the same. -/
def SameAddresses (v v' : Bytes) : Prop :=
  ∀ (before after : List Field) (name : Bytes) (wanted : List AddressField) (ε σ : Type)
    (visit : σ → Bytes → Except ε (Bool × σ)) (s : σ),
    anyAddress (before ++ fieldWith name v :: after) wanted visit s =
      anyAddress (before ++ fieldWith name v' :: after) wanted visit s

theorem visitFields_replace {ε σ : Type} {visit : σ → Bytes → Bytes → Except ε (Bool × σ)}
    {name v v' : Bytes} (h : ∀ s, visit s name v = visit s name v') (before after : List Field)
    (s : σ) :
    visitFields visit (before ++ fieldWith name v :: after) s =
      visitFields visit (before ++ fieldWith name v' :: after) s := by
  induction before generalizing s with
  | nil =>
    have hfield : ∀ v, (fieldWith name v).name = some name := fun _ => rfl
    rw [List.nil_append, List.nil_append, visitFields, visitFields, hfield, hfield, value_fieldWith,
      value_fieldWith]
    simp only [h]
  | cons field before ih =>
    rw [List.cons_append, List.cons_append, visitFields, visitFields]
    simp only [ih]

theorem sameAddresses_of_presented {v v' : Bytes} (h : presented v = presented v') :
    SameAddresses v v' := by
  intro before after name wanted ε σ visit s
  have hvisit : ∀ s, visitAddressField wanted visit s name v = visitAddressField wanted visit s name v' := by
    intro s
    unfold visitAddressField
    rw [h]
  rw [anyAddress_eq, anyAddress_eq, visitFields_replace hvisit]

/-- Well-formed comments at the same place show the same addresses. -/
theorem sameAddresses_comment {front c c' : Bytes} (hquoted : (CommentScan.run front).quoted = false)
    (hescaped : (CommentScan.run front).escaped = false) (hc : Nesting.Nested commentMarks c)
    (hc' : Nesting.Nested commentMarks c') (rest : Bytes) :
    SameAddresses (front ++ c ++ rest) (front ++ c' ++ rest) := by
  have hskip : ∀ {c : Bytes}, Nesting.Nested commentMarks c →
      CommentScan.run (front ++ c ++ rest) = rest.foldl CommentScan.step (CommentScan.run front) := by
    intro c hc
    have hcomment := CommentScan.foldl_comment hc hquoted hescaped
    rw [CommentScan.run] at hcomment ⊢
    rw [List.foldl_append, List.foldl_append, hcomment]
    rfl
  refine sameAddresses_of_presented ?_
  unfold presented removeCommentsAndUnfold
  rw [hskip hc, hskip hc']

/-! ### Behind the display name -/

section Frame

variable {o o' : Bytes} (ho : o ≠ []) (ho' : o' ≠ [])

include ho ho'

theorem CommentScan.step_frame (y : Bytes) (depth : Nat) (quoted escaped pendingSpace : Bool)
    (byte : UInt8) :
    ∃ y' depth' quoted' escaped' pendingSpace',
      CommentScan.step ⟨o ++ y, depth, quoted, escaped, pendingSpace⟩ byte =
        ⟨o ++ y', depth', quoted', escaped', pendingSpace'⟩ ∧
      CommentScan.step ⟨o' ++ y, depth, quoted, escaped, pendingSpace⟩ byte =
        ⟨o' ++ y', depth', quoted', escaped', pendingSpace'⟩ := by
  have hempty : (o ++ y).isEmpty = false := by simp [ho]
  have hempty' : (o' ++ y).isEmpty = false := by simp [ho']
  unfold CommentScan.step CommentScan.flushSpace
  simp only [hempty, hempty']
  split_ifs
  all_goals first
    | exact ⟨y, _, _, _, _, rfl, rfl⟩
    | (simp only [List.append_assoc]
       exact ⟨y ++ [byte], _, _, _, _, rfl, rfl⟩)
    | (simp only [List.append_assoc]
       exact ⟨y ++ ([SP] ++ [byte]), _, _, _, _, rfl, rfl⟩)

/-- What is read behind an output that is not empty does not depend on it. -/
theorem CommentScan.foldl_frame (v y : Bytes) (depth : Nat) (quoted escaped pendingSpace : Bool) :
    ∃ y' depth' quoted' escaped' pendingSpace',
      v.foldl CommentScan.step ⟨o ++ y, depth, quoted, escaped, pendingSpace⟩ =
        ⟨o ++ y', depth', quoted', escaped', pendingSpace'⟩ ∧
      v.foldl CommentScan.step ⟨o' ++ y, depth, quoted, escaped, pendingSpace⟩ =
        ⟨o' ++ y', depth', quoted', escaped', pendingSpace'⟩ := by
  induction v generalizing y depth quoted escaped pendingSpace with
  | nil => exact ⟨y, depth, quoted, escaped, pendingSpace, rfl, rfl⟩
  | cons byte v ih =>
    obtain ⟨y₁, depth₁, quoted₁, escaped₁, pendingSpace₁, hstep, hstep'⟩ :=
      CommentScan.step_frame ho ho' y depth quoted escaped pendingSpace byte
    rw [List.foldl_cons, List.foldl_cons, hstep, hstep']
    exact ih y₁ depth₁ quoted₁ escaped₁ pendingSpace₁

end Frame

/-- Behind two outputs that are not empty a value is unfolded to the same, or in neither case. -/
theorem removed_frame {o o' : Bytes} (ho : o ≠ []) (ho' : o' ≠ []) {front front' rest : Bytes}
    {pendingSpace : Bool}
    (hfront : CommentScan.run front = CommentScan.text o outside pendingSpace)
    (hfront' : CommentScan.run front' = CommentScan.text o' outside pendingSpace) :
    (removeCommentsAndUnfold (front ++ rest) = none ∧
      removeCommentsAndUnfold (front' ++ rest) = none) ∨
    ∃ y, removeCommentsAndUnfold (front ++ rest) = some (o ++ y) ∧
      removeCommentsAndUnfold (front' ++ rest) = some (o' ++ y) := by
  obtain ⟨y, depth, quoted, escaped, pendingSpace', hfold, hfold'⟩ :=
    CommentScan.foldl_frame ho ho' rest [] 0 false false pendingSpace
  rw [List.append_nil] at hfold hfold'
  have hrun : CommentScan.run (front ++ rest) = ⟨o ++ y, depth, quoted, escaped, pendingSpace'⟩ := by
    rw [CommentScan.run, List.foldl_append]
    exact (congrArg (rest.foldl CommentScan.step) hfront).trans hfold
  have hrun' : CommentScan.run (front' ++ rest) = ⟨o' ++ y, depth, quoted, escaped, pendingSpace'⟩ := by
    rw [CommentScan.run, List.foldl_append]
    exact (congrArg (rest.foldl CommentScan.step) hfront').trans hfold'
  unfold removeCommentsAndUnfold
  simp only
  rw [hrun, hrun']
  by_cases hclosed : depth = 0 ∧ (!quoted) = true ∧ (!escaped) = true
  · exact Or.inr ⟨y, if_pos hclosed, if_pos hclosed⟩
  · exact Or.inl ⟨if_neg hclosed, if_neg hclosed⟩

/-! ### The element of a display name -/

/-- The state of the list scanner behind a text. -/
def ListScan.run (scan : ListScan) (v : Bytes) : ListScan := v.foldl (fun scan b => (scan.step b).1) scan

/-- The scanner follows the quotation marks of the element in progress, and an angle bracket is open
only if the element has one. -/
def ListScan.Fits (scan : ListScan) (current : Bytes) : Prop :=
  Quoting.run marks outside current = ⟨scan.quoted, scan.escaped⟩ ∧
    (clear marks (· == LANGLE) outside current = true → scan.angle = 0)

theorem ListScan.step_quoting (scan : ListScan) (b : UInt8) :
    (⟨(scan.step b).1.quoted, (scan.step b).1.escaped⟩ : Quoting.State) =
      Quoting.step marks ⟨scan.quoted, scan.escaped⟩ b := by
  unfold ListScan.step Quoting.step marks
  by_cases hescaped : scan.escaped = true
  · simp [hescaped]
  · rw [Bool.not_eq_true] at hescaped
    by_cases hescape : scan.quoted = true ∧ b = BACKSLASH
    · simp [hescaped, hescape]
    · by_cases hquote : b = QUOTE
      · subst hquote
        simp [hescaped, hescape]
      · simp only [hescaped, hescape, hquote]
        simp only [Bool.false_eq_true, if_false]
        split_ifs <;> simp_all

theorem ListScan.fits_step {scan : ListScan} {current : Bytes} (h : scan.Fits current) (b : UInt8) :
    (scan.step b).1.Fits (current ++ [b]) := by
  refine ⟨?_, ?_⟩
  · rw [Quoting.run_append, h.1, ListScan.step_quoting]
    rfl
  · intro hclear
    obtain ⟨hcurrent, hb⟩ := Quoting.clear_append.mp hclear
    have hangle := h.2 hcurrent
    rw [h.1] at hb
    have hnot := (Quoting.clear_cons.mp hb).1
    unfold ListScan.step
    split_ifs with hescaped hescape hquote hquoted hopen hclose
    · exact hangle
    · exact hangle
    · exact hangle
    · rcases hnot with hnot | hnot
      · have hinside : scan.quoted = true := hnot
        rw [hinside] at hquoted
        cases hquoted
      · simp [hopen] at hnot
    · simp [hangle]
    · exact hangle
    · exact hangle

theorem ListScan.fits_separator {scan : ListScan} {b : UInt8} (hseparator : (scan.step b).2 = true) :
    (scan.step b).1.Fits [] := by
  unfold ListScan.step at hseparator ⊢
  split_ifs at hseparator ⊢ with hescaped hescape hquote hquoted hopen hclose
  simp only [Bool.decide_and, Bool.and_eq_true, decide_eq_true_eq] at hseparator
  refine ⟨?_, fun _ => hseparator.2⟩
  simp only [Bool.not_eq_true'] at hquoted
  rw [Bool.not_eq_true] at hescaped
  rw [hquoted, hescaped]
  rfl

/-- The elements of a text and the element in progress behind it. -/
theorem mailboxElementsFrom_split {scan : ListScan} {current : Bytes} (h : scan.Fits current)
    (v : Bytes) :
    ∃ done last, mailboxElementsFrom scan current v = done ++ [last] ∧ (scan.run v).Fits last ∧
      ∀ r, mailboxElementsFrom scan current (v ++ r) =
        done ++ mailboxElementsFrom (scan.run v) last r := by
  induction v generalizing scan current with
  | nil => exact ⟨[], current, rfl, h, fun r => rfl⟩
  | cons b v ih =>
    have hrun : scan.run (b :: v) = (scan.step b).1.run v := rfl
    rw [mailboxElementsFrom]
    simp only
    by_cases hseparator : (scan.step b).2 = true
    · obtain ⟨done, last, hdone, hfits, happend⟩ := ih (ListScan.fits_separator hseparator)
      refine ⟨current :: done, last, by rw [if_pos hseparator, hdone]; rfl, hfits, ?_⟩
      intro r
      rw [List.cons_append, mailboxElementsFrom]
      simp only
      rw [if_pos hseparator, happend, hrun]
      rfl
    · obtain ⟨done, last, hdone, hfits, happend⟩ := ih (ListScan.fits_step h b)
      refine ⟨done, last, by rw [if_neg hseparator, hdone], hfits, ?_⟩
      intro r
      rw [List.cons_append, mailboxElementsFrom]
      simp only
      rw [if_neg hseparator, happend, hrun]

theorem ListScan.run_quoting (scan : ListScan) (v : Bytes) :
    (⟨(scan.run v).quoted, (scan.run v).escaped⟩ : Quoting.State) =
      Quoting.run marks ⟨scan.quoted, scan.escaped⟩ v := by
  induction v generalizing scan with
  | nil => rfl
  | cons b v ih =>
    rw [Quoting.run_cons, ← ListScan.step_quoting]
    exact ih (scan.step b).1

/-- What follows the element in progress does not depend on what it starts with. -/
theorem mailboxElementsFrom_current (scan : ListScan) (v : Bytes) :
    ∃ first others, ∀ current, mailboxElementsFrom scan current v = (current ++ first) :: others := by
  induction v generalizing scan with
  | nil => exact ⟨[], [], fun current => by simp [mailboxElementsFrom]⟩
  | cons b v ih =>
    by_cases hseparator : (scan.step b).2 = true
    · refine ⟨[], mailboxElementsFrom (scan.step b).1 [] v, fun current => ?_⟩
      rw [mailboxElementsFrom]
      simp only
      rw [if_pos hseparator, List.append_nil]
    · obtain ⟨first, others, hrest⟩ := ih (scan.step b).1
      refine ⟨b :: first, others, fun current => ?_⟩
      rw [mailboxElementsFrom]
      simp only
      rw [if_neg hseparator, hrest, List.append_assoc, List.singleton_append]

/-- What stands before the angle bracket is not read. -/
theorem normalizeMailbox_display {before : Bytes}
    (hclear : clear marks (· == LANGLE) outside before = true)
    (hrun : run marks outside before = outside) (w : Bytes) :
    normalizeMailbox (before ++ LANGLE :: w) = normalizeMailbox (LANGLE :: w) := by
  have hspace : isAsciiWhitespace LANGLE = false := by decide
  have hcons : ∀ v : Bytes, (LANGLE :: v).dropWhile isAsciiWhitespace = LANGLE :: v := fun v =>
    List.dropWhile_cons_of_neg (by simp [hspace])
  have hdropWhile : ∀ x v : Bytes, (x ++ LANGLE :: v).dropWhile isAsciiWhitespace =
      x.dropWhile isAsciiWhitespace ++ LANGLE :: v := by
    intro x v
    rw [List.dropWhile_append]
    split_ifs with hempty
    · rw [List.isEmpty_iff.mp hempty, hcons, List.nil_append]
    · rfl
  have htrim : ∀ x : Bytes, trimAscii (x ++ LANGLE :: w) =
      x.dropWhile isAsciiWhitespace ++ LANGLE :: w.rdropWhile isAsciiWhitespace := by
    intro x
    rw [trimAscii, hdropWhile, List.rdropWhile, List.reverse_append, List.reverse_cons,
      List.append_assoc, List.singleton_append, hdropWhile]
    simp [List.rdropWhile]
  -- The text that is left before the bracket is still clear of it.
  have hleft : clear marks (· == LANGLE) outside (before.dropWhile isAsciiWhitespace) = true ∧
      run marks outside (before.dropWhile isAsciiWhitespace) = outside := by
    have hspaces : run marks outside (before.takeWhile isAsciiWhitespace) = outside :=
      (Shielded.of_spaces fun b hb => List.mem_takeWhile_imp hb).2
    rw [← List.takeWhile_append_dropWhile (p := isAsciiWhitespace) (l := before),
      Quoting.clear_append, hspaces] at hclear
    rw [← List.takeWhile_append_dropWhile (p := isAsciiWhitespace) (l := before),
      Quoting.run_append, hspaces] at hrun
    exact ⟨hclear.2, hrun⟩
  have hopening := findUnquoted_of_clear (by decide) hleft.1 hleft.2 (w.rdropWhile isAsciiWhitespace)
  have hopening' : findUnquoted (LANGLE :: w.rdropWhile isAsciiWhitespace) LANGLE = some 0 := rfl
  have hempty := htrim []
  rw [List.nil_append, List.dropWhile_nil, List.nil_append] at hempty
  have hdrop : ∀ n, (before.dropWhile isAsciiWhitespace ++
      LANGLE :: w.rdropWhile isAsciiWhitespace).drop
        ((before.dropWhile isAsciiWhitespace).length + 1 + n) =
      (LANGLE :: w.rdropWhile isAsciiWhitespace).drop (0 + 1 + n) := by
    intro n
    rw [Nat.add_assoc, ← List.drop_drop, List.drop_left, Nat.zero_add]
  unfold normalizeMailbox
  simp only
  rw [htrim, hempty, if_neg (by simp), if_neg (by simp), hopening, hopening']
  simp only
  have hdrop₀ := hdrop 0
  rw [Nat.add_zero, Nat.add_zero] at hdrop₀
  rw [hdrop₀]
  simp only [Nat.add_assoc _ _ 1, hdrop]

/-- A value that is unfolded leaves the scan outside, and so does what it is unfolded to. -/
theorem run_of_removed {value out : Bytes} (h : removeCommentsAndUnfold value = some out) :
    run marks outside out = outside ∧
      ∃ pendingSpace, CommentScan.run value = CommentScan.text out outside pendingSpace := by
  rcases lexed_or_leftOpen value with hlexed | hopen
  · obtain ⟨output, pendingSpace, houtput, hfold⟩ := hlexed.foldl rfl rfl true false
    have hrun : CommentScan.run value = CommentScan.text output outside pendingSpace := hfold [] rfl
    rw [removeCommentsAndUnfold_of_run pendingSpace hrun] at h
    obtain rfl := Option.some.inj h
    exact ⟨houtput.2, pendingSpace, hrun⟩
  · rw [removeCommentsAndUnfold_eq_none.mpr hopen] at h
    cases h

/-- The elements of a text with an angle bracket behind the element in progress. -/
theorem mailboxElements_bracket {out : Bytes} (hrun : run marks outside out = outside)
    (hlast : ∀ element ∈ (mailboxElements out).getLast?, findUnquoted element LANGLE = none) :
    ∃ done last, clear marks (· == LANGLE) outside last = true ∧ run marks outside last = outside ∧
      ∀ y, ∃ first others, ∀ name, Quoting.Hides marks isListByte name →
        mailboxElements (out ++ (name ++ LANGLE :: y)) =
          done ++ (last ++ name ++ LANGLE :: first) :: others := by
  have hstart : (⟨false, 0, false⟩ : ListScan).Fits [] := ⟨rfl, fun _ => rfl⟩
  obtain ⟨done, last, hdone, hfits, happend⟩ := mailboxElementsFrom_split hstart out
  have hbracket : clear marks (· == LANGLE) outside last = true := by
    refine (findUnquoted_eq_none_iff (by decide)).mp (hlast last ?_)
    rw [mailboxElements, hdone, List.getLast?_concat]
    rfl
  have hscan : (⟨false, 0, false⟩ : ListScan).run out = ⟨outside.quoted, 0, outside.escaped⟩ := by
    have hquoting := (ListScan.run_quoting ⟨false, 0, false⟩ out).trans hrun
    have hangle := hfits.2 hbracket
    generalize (⟨false, 0, false⟩ : ListScan).run out = scan at hquoting hangle
    obtain ⟨quoted, angle, escaped⟩ := scan
    obtain rfl : angle = 0 := hangle
    injection hquoting with hquoted hescaped
    obtain rfl : quoted = false := hquoted
    obtain rfl : escaped = false := hescaped
    rfl
  rw [hscan] at hfits happend
  refine ⟨done, last, hbracket, hfits.1, fun y => ?_⟩
  obtain ⟨first, others, hcurrent⟩ := mailboxElementsFrom_current ⟨false, 1, false⟩ y
  refine ⟨first, others, fun name hname => ?_⟩
  have hangle : ∀ b, isAngleByte b = true → isListByte b = true := by
    intro b hb
    simp only [isAngleByte, isListByte, Bool.or_eq_true] at hb ⊢
    exact Or.inl (Or.inl hb)
  have hskip := mailboxElementsFrom_append 0 (Quoting.clear_mono hangle hname.1) (fun _ => hname.1)
    last (LANGLE :: y)
  rw [hname.2] at hskip
  have hopen : mailboxElementsFrom ⟨outside.quoted, 0, outside.escaped⟩ (last ++ name) (LANGLE :: y) =
      mailboxElementsFrom ⟨false, 1, false⟩ (last ++ name ++ [LANGLE]) y := rfl
  rw [mailboxElements, happend, hskip, hopen, hcurrent]
  simp

/-- Behind a front with room for a display name, what is presented depends on no name. -/
theorem presented_bracket {out y name name' : Bytes} (hrun : run marks outside out = outside)
    (hlast : ∀ element ∈ (mailboxElements out).getLast?, findUnquoted element LANGLE = none)
    (hname : Quoting.Hides marks isListByte name) (hname' : Quoting.Hides marks isListByte name') :
    (mailboxElements (out ++ (name ++ LANGLE :: y))).filterMap normalizeMailbox =
      (mailboxElements (out ++ (name' ++ LANGLE :: y))).filterMap normalizeMailbox := by
  obtain ⟨done, last, hbracket, hlastrun, helements⟩ := mailboxElements_bracket hrun hlast
  obtain ⟨first, others, helements⟩ := helements y
  have hmailbox : ∀ {name : Bytes}, Quoting.Hides marks isListByte name →
      normalizeMailbox (last ++ name ++ LANGLE :: first) = normalizeMailbox (LANGLE :: first) := by
    intro name hname
    have hlangle : ∀ b, (b == LANGLE) = true → isListByte b = true := by
      intro b hb
      rw [eq_of_beq hb]
      rfl
    have hhides : Quoting.Hides marks (· == LANGLE) (last ++ name) :=
      Quoting.Hides.append ⟨hbracket, hlastrun⟩ (hname.mono hlangle)
    exact normalizeMailbox_display hhides.1 hhides.2 first
  rw [helements name hname, helements name' hname', List.filterMap_append, List.filterMap_append,
    List.filterMap_cons, List.filterMap_cons, hmailbox hname, hmailbox hname']

/-- Quoted strings at the same place before an angle bracket show the same addresses. -/
theorem sameAddresses_display {front out q q' phrase : Bytes}
    (hfront : removeCommentsAndUnfold front = some out)
    (hlast : ∀ element ∈ (mailboxElements out).getLast?, findUnquoted element LANGLE = none)
    (hq : Quoting.Quoted marks q) (hq' : Quoting.Quoted marks q')
    (hphrase : Lexed isListByte phrase) (rest : Bytes) :
    SameAddresses (front ++ q ++ phrase ++ LANGLE :: rest)
      (front ++ q' ++ phrase ++ LANGLE :: rest) := by
  obtain ⟨houtput, pendingSpace, hrun⟩ := run_of_removed hfront
  obtain ⟨added, pendingSpace', hadded, hfold⟩ :=
    hphrase.foldl (by decide) (by decide) false false
  -- What stands between the front and the bracket once it is unfolded.
  have hname : ∀ {q : Bytes}, Quoting.Quoted marks q → ∃ name,
      Quoting.Hides marks isListByte name ∧
      CommentScan.run (front ++ q ++ phrase ++ [LANGLE]) =
        CommentScan.text (out ++ name ++ [LANGLE]) outside false := by
    intro q hq
    have hspaces := fun flag => hides_of_spaces isListByte_structural (isSpaces_space flag)
    have hsolid := solid_of_quoted hq
    have hlangle : Solid [LANGLE] := ⟨by simp, by decide, by decide⟩
    refine ⟨space (pendingSpace && !out.isEmpty) ++ q ++ added ++ space pendingSpace',
      (((hspaces _).append (hides_of_quoted isListByte_structural hq)).append hadded).append
        (hspaces _), ?_⟩
    rw [CommentScan.run] at hrun ⊢
    rw [List.foldl_append, List.foldl_append, List.foldl_append, hrun,
      CommentScan.foldl_solid hsolid, hfold _ (by simp [hsolid.ne]),
      CommentScan.foldl_solid hlangle, joint_space (by simp [hsolid.ne]), joint_eq]
    simp
  obtain ⟨name, hhides, hread⟩ := hname hq
  obtain ⟨name', hhides', hread'⟩ := hname hq'
  have hsplit : ∀ q : Bytes, front ++ q ++ phrase ++ LANGLE :: rest =
      front ++ q ++ phrase ++ [LANGLE] ++ rest := by simp
  refine sameAddresses_of_presented ?_
  unfold presented
  rw [hsplit, hsplit]
  have hframe := @removed_frame _ _ (by simp) (by simp) _ _ rest _ hread hread'
  rcases hframe with ⟨hnone, hnone'⟩ | ⟨y, hsome, hsome'⟩
  · rw [hnone, hnone']
  · rw [hsome, hsome']
    have hassoc : ∀ name : Bytes, out ++ name ++ [LANGLE] ++ y = out ++ (name ++ LANGLE :: y) := by
      simp
    simp only [hassoc]
    exact presented_bracket houtput hlast hhides hhides'

/-- Comments outside of quoted strings and quoted display names have no influence on the addresses
that are visited, and a value is refused exactly when something is left open at its end. -/
theorem comments_and_display_names_hidden :
    (∀ front c c' rest : Bytes, (CommentScan.run front).quoted = false →
      (CommentScan.run front).escaped = false → Nesting.Nested commentMarks c →
      Nesting.Nested commentMarks c' → SameAddresses (front ++ c ++ rest) (front ++ c' ++ rest)) ∧
    (∀ front out q q' phrase rest : Bytes, removeCommentsAndUnfold front = some out →
      (∀ element ∈ (mailboxElements out).getLast?, findUnquoted element LANGLE = none) →
      Quoting.Quoted marks q → Quoting.Quoted marks q' → Lexed isListByte phrase →
      SameAddresses (front ++ q ++ phrase ++ LANGLE :: rest)
        (front ++ q' ++ phrase ++ LANGLE :: rest)) ∧
    ∀ value, removeCommentsAndUnfold value = none ↔ LeftOpen value := by
  refine ⟨?_, ?_, fun value => removeCommentsAndUnfold_eq_none⟩
  · intro front c c' rest hquoted hescaped hc hc'
    exact sameAddresses_comment hquoted hescaped hc hc' rest
  · intro front out q q' phrase rest hfront hlast hq hq' hphrase
    exact sameAddresses_display hfront hlast hq hq' hphrase rest

/-- A comment with an address in it is worth an empty one, and so is a name with one. -/
theorem hidden_addresses :
    SameAddresses (strBytes "a@b" ++ strBytes "(, <x@y>)" ++ strBytes ", c@d")
        (strBytes "a@b" ++ strBytes "()" ++ strBytes ", c@d") ∧
      SameAddresses (strBytes "a@b, " ++ strBytes "\"<x@y>,\"" ++ strBytes " " ++ LANGLE :: strBytes "c@d>")
        (strBytes "a@b, " ++ strBytes "\"\"" ++ strBytes " " ++ LANGLE :: strBytes "c@d>") ∧
      removeCommentsAndUnfold (strBytes "a@b (") = none := by
  have hplain : ∀ v : Bytes, (∀ b ∈ v, b ≠ LPAREN ∧ b ≠ RPAREN ∧ b ≠ BACKSLASH) →
      Nesting.Body commentMarks v := by
    intro v hv
    induction v with
    | nil => exact Nesting.Body.nil
    | cons b v ih =>
      obtain ⟨hopening, hclosing, hescape⟩ := hv b (by simp)
      exact (ih fun b hb => hv b (by simp [hb])).plain hopening hclosing hescape
  have hname : ∀ v : Bytes, (∀ b ∈ v, b ≠ QUOTE ∧ b ≠ BACKSLASH) → Quoting.Body marks v := by
    intro v hv
    induction v with
    | nil => exact Quoting.Body.nil
    | cons b v ih =>
      obtain ⟨hquote, hescape⟩ := hv b (by simp)
      exact (ih fun b hb => hv b (by simp [hb])).plain hquote hescape
  have hspace : Lexed isListByte (strBytes " ") :=
    Lexed.nil.plain (by decide) (by decide) (by decide)
  obtain ⟨hcomments, hnames, hopen⟩ := comments_and_display_names_hidden
  refine ⟨hcomments _ _ _ _ (by decide +kernel) (by decide +kernel)
      ⟨strBytes ", <x@y>", hplain _ (by decide +kernel), by decide +kernel⟩
      ⟨[], Nesting.Body.nil, by decide +kernel⟩,
    hnames _ (strBytes "a@b,") _ _ _ _ (by decide +kernel) (by decide +kernel)
      ⟨strBytes "<x@y>,", hname _ (by decide +kernel), by decide +kernel⟩
      ⟨[], Quoting.Body.nil, by decide +kernel⟩ hspace, ?_⟩
  refine (hopen _).mpr ⟨strBytes "a@b ", strBytes "(", ?_, by decide +kernel, Or.inr ?_⟩
  · rcases lexed_or_leftOpen (strBytes "a@b ") with hlexed | hleft
    · exact hlexed
    · have hnone := removeCommentsAndUnfold_eq_none.mpr hleft
      have hsome : removeCommentsAndUnfold (strBytes "a@b ") ≠ none := by decide +kernel
      exact absurd hnone hsome
  · exact Nesting.Open.body Nesting.Body.nil

end ProcmailRs
