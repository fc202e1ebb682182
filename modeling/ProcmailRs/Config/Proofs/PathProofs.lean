import Mathlib.Tactic.ByContra
import Mathlib.Tactic.SplitIfs
import ProcmailRs.Config.Destination
import ProcmailRs.Lib.Refinement

/-!
# Paths stay below their base

Whatever text an expression expands to, a path that is accepted is spelled without a component that
leads elsewhere, and a relative one names something below the base it was taken from.
-/

namespace ProcmailRs.Config

/-! ### Components -/

/-- A component that names an entry of its directory and nothing else. -/
structure IsComponent (component : Bytes) : Prop where
  ne_nil : component ≠ []
  no_slash : SLASH ∉ component
  ne_dot : component ≠ strBytes "."
  ne_dotDot : component ≠ strBytes ".."

/-- The path is spelled with these components and single slashes between them; there may be a slash in
front and, for a Maildir, one behind. -/
def IsSpelled (maildir : Bool) (components : List Bytes) (path : Bytes) : Prop :=
  ∃ root marker : Bool, (marker = true → maildir = true) ∧
    path = (if root then [SLASH] else []) ++ [SLASH].intercalate components ++
      (if marker then [SLASH] else [])

/-- The components of any text, as a file system sees them: slashes in a row count as one. -/
def entries (path : Bytes) : List Bytes := (path.splitOn SLASH).filter fun entry => !entry.isEmpty

theorem entries_append (base text : Bytes) :
    entries (base ++ SLASH :: text) = entries base ++ entries text := by
  unfold entries
  rw [List.splitOn_append_cons_self, List.filter_append]

theorem entries_ne_nil {byte : UInt8} (rest : Bytes) (h : byte ≠ SLASH) :
    entries (byte :: rest) ≠ [] := by
  have hbyte : (byte == SLASH) = false := beq_eq_false_iff_ne.mpr h
  unfold entries
  rw [List.splitOn_cons_eq_if_modifyHead, hbyte, if_neg Bool.false_ne_true]
  cases hrest : rest.splitOn SLASH with
  | nil => exact absurd hrest (List.splitOn_ne_nil SLASH rest)
  | cons first others => simp

theorem not_mem_of_mem_splitOn {path component : Bytes} (h : component ∈ path.splitOn SLASH) :
    SLASH ∉ component := by
  induction path generalizing component with
  | nil =>
    rw [List.splitOn_nil, List.mem_singleton] at h
    simp [h]
  | cons byte rest ih =>
    rw [List.splitOn_cons_eq_if_modifyHead] at h
    split_ifs at h with hbyte
    · rcases List.mem_cons.mp h with rfl | h
      · simp
      · exact ih h
    · cases hrest : rest.splitOn SLASH with
      | nil => exact absurd hrest (List.splitOn_ne_nil SLASH rest)
      | cons first others =>
        rw [hrest] at h ih
        rcases List.mem_cons.mp h with rfl | h
        · intro hmem
          rcases List.mem_cons.mp hmem with heq | hmem
          · exact hbyte (beq_iff_eq.mpr heq.symm)
          · exact ih List.mem_cons_self hmem
        · exact ih (List.mem_cons_of_mem _ h)

theorem isComponent_of_problem {path component : Bytes} (h : component ∈ path.splitOn SLASH)
    (hproblem : componentProblem component = none) : IsComponent component := by
  unfold componentProblem at hproblem
  split_ifs at hproblem with hnil hdot hdots
  exact ⟨hnil, not_mem_of_mem_splitOn h, hdot, hdots⟩

/-- What is in front of the components and behind them. -/
theorem pathComponents_spelled (path : Bytes) (maildir : Bool) :
    IsSpelled maildir ((pathComponents path maildir).splitOn SLASH) path := by
  unfold IsSpelled
  rw [List.intercalate_splitOn]
  have hroot : ∃ root : Bool, path = (if root then [SLASH] else []) ++
      (if path.head? = some SLASH then path.tail else path) := by
    by_cases hhead : path.head? = some SLASH
    · rw [if_pos hhead]
      refine ⟨true, ?_⟩
      cases path with
      | nil => cases hhead
      | cons byte rest => simpa using hhead
    · exact ⟨false, by rw [if_neg hhead]; rfl⟩
  obtain ⟨root, hpath⟩ := hroot
  unfold pathComponents
  dsimp only
  generalize (if path.head? = some SLASH then path.tail else path) = components at hpath ⊢
  by_cases hmarker : (maildir && components.getLast? == some SLASH) = true
  · rw [Bool.and_eq_true, beq_iff_eq] at hmarker
    have hlast := List.dropLast_append_getLast? SLASH hmarker.2
    refine ⟨root, true, fun _ => hmarker.1, ?_⟩
    simp [hmarker.1, hmarker.2, hlast, hpath]
  · refine ⟨root, false, fun h => absurd h Bool.false_ne_true, ?_⟩
    rw [if_neg hmarker, hpath]
    simp

/-! ### Accepted paths -/

theorem checkPath_eq_ok {resolver : PathResolver} {path checked : Bytes} :
    resolver.checkPath path = .ok checked ↔
      checked = path ∧ pathProblem path (resolver.purpose == .Maildir) = none ∧
        (resolver.purpose = .Discard → path = PathResolver.devNull) := by
  unfold PathResolver.checkPath validateFilesystemPath
  cases pathProblem path (resolver.purpose == .Maildir) with
  | some problem => exact ⟨(fun h => nomatch h), (fun ⟨_, h, _⟩ => nomatch h)⟩
  | none =>
    show (if _ then _ else _) = _ ↔ _
    by_cases hdiscard : resolver.purpose = .Discard ∧ path ≠ PathResolver.devNull
    · rw [if_pos hdiscard]
      exact ⟨(fun h => nomatch h), fun ⟨_, _, h⟩ => absurd (h hdiscard.1) hdiscard.2⟩
    · rw [if_neg hdiscard]
      constructor
      · intro h
        cases h
        exact ⟨rfl, rfl, fun hpurpose => by_contra fun hne => hdiscard ⟨hpurpose, hne⟩⟩
      · rintro ⟨rfl, -, -⟩
        rfl

/-- What `validate_filesystem_path` lets through. -/
theorem spelled_of_pathProblem {path : Bytes} {maildir : Bool} (h : pathProblem path maildir = none) :
    path ≠ [] ∧ 0 ∉ path ∧ ∃ components, components ≠ [] ∧
      (∀ component ∈ components, IsComponent component) ∧ IsSpelled maildir components path := by
  unfold pathProblem at h
  dsimp only at h
  split_ifs at h with hempty hnul hslash hnone
  refine ⟨fun hnil => hempty (by simp [hnil]), fun hmem => hnul (by simpa using hmem), _,
    List.splitOn_ne_nil SLASH (pathComponents path maildir), ?_, pathComponents_spelled path maildir⟩
  intro component hmem
  exact isComponent_of_problem hmem (List.findSome?_eq_none_iff.mp h component hmem)

/-- A relative text behind a base: the join, and that something is named below the base. -/
structure IsBelow (base text path : Bytes) : Prop where
  joined : path = base ++ (if base.getLast? = some SLASH then [] else [SLASH]) ++ text
  below : ∃ names, names ≠ [] ∧ entries path = entries base ++ names
  bounded : path.length ≤ maxPathExpressionLen

theorem entries_join (base : Bytes) {text : Bytes} (hne : text ≠ [])
    (hrelative : text.head? ≠ some SLASH) :
    ∃ names, names ≠ [] ∧
      entries (base ++ (if base.getLast? = some SLASH then [] else [SLASH]) ++ text) =
        entries base ++ names := by
  refine ⟨entries text, ?_, ?_⟩
  · cases text with
    | nil => exact absurd rfl hne
    | cons byte rest => exact entries_ne_nil rest fun heq => hrelative (by rw [heq]; rfl)
  · by_cases hlast : base.getLast? = some SLASH
    · -- the slash at the end of the base is the one between the two
      obtain ⟨front, hfront⟩ : ∃ front, base = front ++ [SLASH] :=
        ⟨base.dropLast, (List.dropLast_append_getLast? SLASH hlast).symm⟩
      have hbase : entries base = entries front := by
        rw [hfront, entries_append]
        simp [entries]
      rw [if_pos hlast, List.append_nil, hbase, hfront, List.append_assoc, List.singleton_append,
        entries_append]
    · rw [if_neg hlast, List.append_assoc, List.singleton_append, entries_append]

theorem isBelow_of_resolveRelativePath {base text path : Bytes} {line : Nat}
    (h : resolveRelativePath text (some base) line = .ok path) (hbase : base ≠ []) (hne : text ≠ [])
    (hrelative : text.head? ≠ some SLASH) : IsBelow base text path := by
  have hfilter : (some base).filter (fun base => !base.isEmpty) = some base := by simp [hbase]
  have hjoin : ¬(text.isEmpty || text.head? == some SLASH) = true := by simp [hne, hrelative]
  unfold resolveRelativePath at h
  rw [hfilter] at h
  simp only [beq_iff_eq] at h
  have hentries := entries_join base hne hrelative
  generalize hjoined : base ++ (if base.getLast? = some SLASH then [] else [SLASH]) ++ text = joined
    at h hentries
  rw [if_neg (by simpa using hjoin)] at h
  split_ifs at h with hlong
  obtain rfl := Except.ok.inj h
  exact ⟨hjoined.symm, hentries, Nat.le_of_not_gt hlong⟩

/-- What is known of a path that a resolver has made of a text. -/
structure IsSafe (resolver : PathResolver) (text path : Bytes) : Prop where
  no_nul : 0 ∉ path
  spelled : ∃ components, components ≠ [] ∧ (∀ component ∈ components, IsComponent component) ∧
    IsSpelled (resolver.purpose == .Maildir) components path
  below : ∀ base, resolver.base = some base → base ≠ [] → text.head? ≠ some SLASH →
    IsBelow base text path
  discard : resolver.purpose = .Discard → path = PathResolver.devNull

theorem resolve_eq_ok {resolver : PathResolver} {text path : Bytes}
    (h : resolver.resolve text = .ok path) (hne : path ≠ []) : IsSafe resolver text path := by
  unfold PathResolver.resolve at h
  split_ifs at h with hallowed
  · exact absurd (Except.ok.inj h).symm hne
  · obtain ⟨joined, hjoined, hcheck⟩ := bind_eq_ok h
    obtain ⟨rfl, hproblem, hdiscard⟩ := checkPath_eq_ok.mp hcheck
    obtain ⟨-, hnul, hspelled⟩ := spelled_of_pathProblem hproblem
    refine ⟨hnul, hspelled, fun base hbase hbaseNe hrelative => ?_, hdiscard⟩
    rw [hbase] at hjoined
    by_cases htext : text = []
    · -- an empty text stays empty, and no empty path is accepted
      subst htext
      have hfilter : (some base).filter (fun base => !base.isEmpty) = some base := by simp [hbaseNe]
      unfold resolveRelativePath at hjoined
      rw [hfilter] at hjoined
      exact absurd (Except.ok.inj hjoined).symm hne
    · exact isBelow_of_resolveRelativePath hjoined hbaseNe htext hrelative

/-- A path that a resolver accepts, for any expression and any values of its variables, and likewise
for a text that is known already. -/
theorem accepted_path_stays_below_base (resolver : PathResolver) (expression : ShellExpression)
    (lookup : Lookup) (path : Bytes) (hne : path ≠ []) :
    (resolver.evaluate expression lookup = .ok path →
      ∃ text, evaluateWithLinebuf expression resolver.line maxPathExpressionLen lookup = .ok text ∧
        IsSafe resolver text path) ∧
    ∀ text, resolver.resolve text = .ok path → IsSafe resolver text path := by
  refine ⟨fun h => ?_, fun text h => resolve_eq_ok h hne⟩
  obtain ⟨text, htext, hresolve⟩ := bind_eq_ok h
  exact ⟨text, htext, resolve_eq_ok hresolve hne⟩

/-- An inserted value below a base that ends in a slash. -/
theorem accepted_path_stays_below_base_value :
    IsSafe ⟨.Mbox, "mbox destination", 3, some (strBytes "mail/"), true⟩ (strBytes "a/b")
      (strBytes "mail/a/b") := by
  obtain ⟨text, htext, hsafe⟩ := (accepted_path_stays_below_base
    ⟨.Mbox, "mbox destination", 3, some (strBytes "mail/"), true⟩ [.Variable "NAME" .Value []]
    (fun name => if name = "NAME" then some (strBytes "a/b") else none) (strBytes "mail/a/b")
    (by decide +kernel)).1 (by decide +kernel)
  have hvalue : text = strBytes "a/b" := by
    refine Except.ok.inj (htext.symm.trans ?_)
    decide +kernel
  rw [hvalue] at hsafe
  exact hsafe

end ProcmailRs.Config
