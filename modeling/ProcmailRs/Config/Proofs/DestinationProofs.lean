import ProcmailRs.Config.Ordered
import ProcmailRs.Config.Proofs.BindingProofs
import ProcmailRs.Config.Proofs.ParserProofs
import ProcmailRs.Config.Proofs.PathProofs

/-!
# How often a destination is read

A destination without commands and assignments is bound, and the host resolves the bound expression. A
destination with them is handed to the host as a path, which the host reads as an expression again.
The second reading changes nothing exactly when the text that was inserted, and the directory in front of
it, have no byte that means something in an expression.
-/

namespace ProcmailRs.Config

namespace Destination

/-- The host reads the path as the text it is and accepts it. -/
structure RereadsAsItself (bound : Destination) (lookup : Lookup) : Prop where
  text : isText bound.path = true
  plain : isPlain bound.path = true
  fits : bound.path.length ≤ pathRoom lookup
  single : bound.expression.typedDestination = true ∨ bound.path.any isAsciiWhitespace = false

/-- The directory of a destination that is evaluated in order. -/
def orderedDirectory (destination : Destination) (maildir : Option Bytes) : Option Bytes :=
  if destination.expression.runtimeBase then maildir else destination.expression.base

/-- What a relative path has in front of it: its directory and a slash. -/
def front (directory : Option Bytes) (source : Bytes) : Bytes :=
  match directory.filter fun base => !base.isEmpty with
  | none => []
  | some base =>
    if source.isEmpty || source.head? == some SLASH then []
    else base ++ (if base.getLast? == some SLASH then [] else [SLASH])

/-- A text and its directory have nothing that an expression would take for something else: no dollar sign, no
quote, no backslash before the last byte, no white space that separates destinations, and no byte too many. -/
structure StandsForItself (destination : Destination) (directory : Option Bytes) (source : Bytes)
    (lookup : Lookup) : Prop where
  text : isText (front directory source ++ source) = true
  plain : isPlain (front directory source ++ source) = true
  fits : (front directory source).length + source.length ≤ pathRoom lookup
  single : destination.expression.typedDestination = true ∨
    (front directory source).any isAsciiWhitespace = false

/-- A path that has been resolved, as it is handed to the host. -/
structure IsResolved (bound : Destination) : Prop where
  expansion : bound.expression.expansion = none
  base : bound.expression.base = none
  runtimeBase : bound.expression.runtimeBase = false
  runtimeDependent : bound.expression.runtimeDependent = false
  kind : bound.kind ≠ .File
  valid : pathProblem bound.path (bound.purpose == .Maildir) = none
  discard : bound.kind = .Discard → bound.path = PathResolver.devNull

end Destination

/-! ### Texts -/

theorem toOption_eq_some {ε α : Type} {x : Except ε α} {a : α} :
    x.toOption = some a ↔ x = .ok a := by
  cases x with
  | error e => exact ⟨(fun h => nomatch h), (fun h => nomatch h)⟩
  | ok b => exact ⟨fun h => by cases h; rfl, fun h => by cases h; rfl⟩

/-- The value of a text is the text. -/
theorem expressionValue_literal {parts : ShellExpression} {text : Bytes}
    (h : literalText parts = some text) (lookup : Lookup) (room nesting : Nat) :
    expressionValue lookup parts room nesting = fitting room text := by
  induction parts generalizing room text with
  | nil =>
    cases h
    rw [expressionValue, fitting, if_pos (by simp)]
  | cons part parts ih =>
    cases part with
    | Literal first =>
      rw [literalText] at h
      obtain ⟨rest, hrest, rfl⟩ := Option.map_eq_some_iff.mp h
      rw [expressionValue, ShellPart.value]
      simp only [ih hrest]
      exact (fitting_append room first rest).symm
    | Variable name operation word => cases h
    | RegexQuotedVariable name => cases h
    | Command command => cases h
    | PatternQuote expression => cases h

theorem literal_runs_nothing {parts : ShellExpression} {text : Bytes}
    (h : literalText parts = some text) :
    hasCommands parts = false ∧ hasAssignments parts = false := by
  induction parts generalizing text with
  | nil => exact ⟨rfl, rfl⟩
  | cons part parts ih =>
    cases part with
    | Literal first =>
      rw [literalText] at h
      obtain ⟨rest, hrest, -⟩ := Option.map_eq_some_iff.mp h
      obtain ⟨hcommands, hassign⟩ := ih hrest
      constructor
      · rw [hasCommands, ShellPart.hasCommands, hcommands]
        rfl
      · rw [hasAssignments, ShellPart.hasAssignments, hassign]
        rfl
    | Variable name operation word => cases h
    | RegexQuotedVariable name => cases h
    | Command command => cases h
    | PatternQuote expression => cases h

/-! ### Paths -/

theorem resolveRelativePath_ok {source path : Bytes} {directory : Option Bytes} {line : Nat}
    (h : resolveRelativePath source directory line = .ok path) : path = Destination.front directory source ++ source := by
  unfold resolveRelativePath at h
  unfold Destination.front
  cases hbase : directory.filter fun base => !base.isEmpty with
  | none =>
    rw [hbase] at h
    cases h
    rfl
  | some base =>
    simp only [hbase] at h
    by_cases habsolute : (source.isEmpty || source.head? == some SLASH) = true
    · rw [if_pos habsolute] at h
      cases h
      simp only [if_pos habsolute, List.nil_append]
    · rw [if_neg habsolute] at h
      simp only [if_neg habsolute]
      by_cases hlong : (base ++ (if base.getLast? == some SLASH then [] else [SLASH]) ++ source).length >
          maxPathExpressionLen
      · rw [if_pos hlong] at h
        cases h
      · rw [if_neg hlong] at h
        cases h
        rfl

theorem resolve_ok {resolver : PathResolver} {source path : Bytes}
    (hdestination : resolver.isDestination = true) (h : resolver.resolve source = .ok path) :
    (resolver.typedDestination = true ∨ source.any isAsciiWhitespace = false) ∧
      resolver.checkPath path = .ok path ∧ path = Destination.front resolver.base source ++ source := by
  have hempty : resolver.allowsEmpty = false := by
    unfold PathResolver.isDestination at hdestination
    unfold PathResolver.allowsEmpty
    cases hpurpose : resolver.purpose <;> simp_all
  unfold PathResolver.resolve at h
  rw [hempty, Bool.and_false, if_neg Bool.false_ne_true] at h
  split_ifs at h with hspace
  obtain ⟨joined, hjoined, h⟩ := bind_eq_ok h
  obtain ⟨rfl, -⟩ := checkPath_eq_ok.mp h
  refine ⟨?_, h, resolveRelativePath_ok hjoined⟩
  by_contra hcontra
  simp only [not_or, Bool.not_eq_true, Bool.not_eq_false] at hcontra
  exact hspace (by simp [hdestination, hcontra.1, hcontra.2])

namespace Destination

theorem resolver_isDestination (destination : Destination) (base : Option Bytes) :
    (destination.resolver base).isDestination = true := by
  unfold resolver purpose PathResolver.isDestination
  cases destination.kind <;> rfl

/-- The backend that a resolved path has. -/
def resolvedKind (kind : DestinationKind) (path : Bytes) : DestinationKind :=
  match kind with
  | .File => if path = PathResolver.devNull then .Discard else .Mbox
  | kind => kind

theorem rebuild_resolved (destination : Destination) (expression : PathExpression) :
    destination.rebuild expression true =
      ⟨resolvedKind destination.kind expression.source, expression⟩ := by
  unfold rebuild resolvedKind
  cases destination.kind with
  | File =>
    show (if expression.source = _ then _ else _) = _
    split_ifs <;> simp
  | Maildir => rfl
  | Mbox => rfl
  | Discard => rfl

theorem resolvedKind_ne_file (kind : DestinationKind) (path : Bytes) :
    resolvedKind kind path ≠ .File := by
  unfold resolvedKind
  cases kind with
  | File =>
    dsimp only
    split_ifs <;> simp
  | Maildir => simp
  | Mbox => simp
  | Discard => simp

theorem resolvedKind_of_ne_file {kind : DestinationKind} (h : kind ≠ .File) (path : Bytes) :
    resolvedKind kind path = kind := by
  unfold resolvedKind
  cases kind with
  | File => exact absurd rfl h
  | Maildir => rfl
  | Mbox => rfl
  | Discard => rfl

theorem resolvedKind_maildir (kind : DestinationKind) (path : Bytes) :
    (resolvedKind kind path == .Maildir) = (kind == .Maildir) := by
  unfold resolvedKind
  cases kind with
  | File =>
    dsimp only
    split_ifs <;> rfl
  | Maildir => rfl
  | Mbox => rfl
  | Discard => rfl

theorem resolvedKind_discard {kind : DestinationKind} {path : Bytes}
    (h : resolvedKind kind path = .Discard) : kind = .Discard ∨ path = PathResolver.devNull := by
  unfold resolvedKind at h
  cases kind with
  | File =>
    dsimp only at h
    split_ifs at h with hnull
    exact .inr hnull
  | Discard => exact .inl rfl
  | Maildir => cases h
  | Mbox => cases h

theorem purpose_maildir (destination : Destination) :
    (destination.purpose == .Maildir) = (destination.kind == .Maildir) := by
  unfold purpose
  cases destination.kind <;> rfl

theorem purpose_discard (destination : Destination) :
    destination.purpose = .Discard ↔ destination.kind = .Discard := by
  unfold purpose
  cases destination.kind <;> simp

/-- What a delivery hands to the host after an evaluation in order. -/
theorem isResolved_of_resolveOrderedOutput {destination bound : Destination} {source : Bytes}
    {maildir : Option Bytes} (h : destination.resolveOrderedOutput source maildir = .ok bound) :
    bound.IsResolved := by
  unfold resolveOrderedOutput at h
  by_cases hnone : destination.commandExpression.isNone = true
  · rw [if_pos hnone] at h
    cases h
  · rw [if_neg hnone] at h
    obtain ⟨path, hpath, h⟩ := bind_eq_ok h
    cases h
    obtain ⟨-, hcheck, -⟩ := resolve_ok (destination.resolver_isDestination _) hpath
    obtain ⟨-, hvalid, hdiscard⟩ := checkPath_eq_ok.mp hcheck
    change pathProblem path (destination.purpose == .Maildir) = none at hvalid
    change destination.purpose = .Discard → _ at hdiscard
    rw [purpose_maildir] at hvalid
    rw [rebuild_resolved]
    refine ⟨rfl, rfl, rfl, rfl, resolvedKind_ne_file _ _, ?_, fun hkind => ?_⟩
    · rw [purpose_maildir, resolvedKind_maildir]
      exact hvalid
    · rcases resolvedKind_discard hkind with h | h
      · exact hdiscard ((purpose_discard destination).mpr h)
      · exact h

/-- What is handed to the host is read as itself if the text and its directory stand for themselves. -/
theorem rereadsAsItself_iff {destination bound : Destination} {source : Bytes} {maildir : Option Bytes}
    (h : destination.resolveOrderedOutput source maildir = .ok bound) (lookup : Lookup) :
    bound.RereadsAsItself lookup ↔
      destination.StandsForItself (destination.orderedDirectory maildir) source lookup := by
  unfold resolveOrderedOutput at h
  by_cases hnone : destination.commandExpression.isNone = true
  · rw [if_pos hnone] at h
    cases h
  rw [if_neg hnone] at h
  obtain ⟨path, hpath, h⟩ := bind_eq_ok h
  cases h
  obtain ⟨hsingle, -, rfl⟩ := resolve_ok (destination.resolver_isDestination _) hpath
  change destination.expression.typedDestination = true ∨ _ at hsingle
  rw [rebuild_resolved]
  have hfront : front (destination.resolver (if destination.expression.runtimeBase = true then maildir
      else destination.expression.base)).base source = front (destination.orderedDirectory maildir) source := rfl
  rw [hfront]
  constructor
  · intro hrereads
    obtain ⟨htext, hplain, hfits, hspace⟩ := hrereads
    change (front (destination.orderedDirectory maildir) source ++ source).length ≤ _ at hfits
    change _ ∨ (front (destination.orderedDirectory maildir) source ++ source).any _ = false at hspace
    rw [List.length_append] at hfits
    rw [List.any_append, Bool.or_eq_false_iff] at hspace
    exact ⟨htext, hplain, hfits, hspace.imp id And.left⟩
  · rintro ⟨htext, hplain, hfits, hspace⟩
    rw [← List.length_append] at hfits
    refine ⟨htext, hplain, hfits, ?_⟩
    show _ ∨ (front (destination.orderedDirectory maildir) source ++ source).any _ = false
    rw [List.any_append, Bool.or_eq_false_iff]
    rcases hsingle with htyped | hsource
    · exact .inl htyped
    · exact hspace.imp id fun h => ⟨h, hsource⟩

/-- What is bound carries its expression. -/
theorem bindWith_expansion {destination bound : Destination} {lookup : Lookup}
    (h : destination.bindWith lookup = .ok bound) :
    ∃ expansion, bound.expression.expansion = some expansion := by
  unfold bindWith at h
  split_ifs at h
  obtain ⟨compiled, -, h⟩ := bind_eq_ok h
  obtain ⟨expansion, -, h⟩ := bind_eq_ok h
  cases h
  refine ⟨expansion, ?_⟩
  unfold rebuild
  cases destination.kind <;> rfl

theorem checkPath_of_isResolved {bound : Destination} (hresolved : bound.IsResolved)
    (base : Option Bytes) : (bound.resolver base).checkPath bound.path = .ok bound.path :=
  checkPath_eq_ok.mpr
    ⟨rfl, hresolved.valid, fun h => hresolved.discard ((purpose_discard bound).mp h)⟩

theorem directory_of_isResolved {bound : Destination} (hresolved : bound.IsResolved)
    (maildir : Option Bytes) : bound.expression.directory maildir = none := by
  unfold PathExpression.directory
  rw [hresolved.runtimeBase, hresolved.base]
  rfl

/-- What the host makes of a resolved path that it reads as this text. -/
theorem resolveWith_literal {bound : Destination} (hresolved : bound.IsResolved) {lookup : Lookup}
    {parts : ShellExpression} (hparse : parseExpression bound.path bound.expression.line = .ok parts)
    (htext : literalText parts = some bound.path) :
    (bound.resolveWith lookup).toOption =
      (((fitting (pathRoom lookup) bound.path).filter isText).bind fun source =>
        ((bound.resolver none).resolve source).toOption).map fun path =>
          bound.rebuild (bound.resolvedExpression path) true := by
  have hcompiled : bound.expression.compiled = .ok parts := by
    rw [PathExpression.compiled, hresolved.expansion]
    exact hparse
  obtain ⟨hcommands, hassign⟩ := literal_runs_nothing htext
  have hvalue := @toOption_evaluateWithLinebuf bound.expression.line lookup parts hassign
    maxPathExpressionLen
  rw [expressionValue_literal htext] at hvalue
  change _ = (fitting (pathRoom lookup) bound.path).filter isText at hvalue
  rw [resolveWith_eq (fun expression h => by rw [hcompiled] at h; cases h; exact hcommands),
    directory_of_isResolved hresolved, hcompiled, ← hvalue]
  simp only [bind, Except.bind, PathResolver.evaluate,
    show (bound.resolver none).line = bound.expression.line from rfl]
  cases evaluateWithLinebuf parts bound.expression.line maxPathExpressionLen lookup with
  | error error => rfl
  | ok source =>
    show _ = Option.map _ ((bound.resolver none).resolve source).toOption
    dsimp only
    cases (bound.resolver none).resolve source with
    | error error => rfl
    | ok path => rfl

/-- A resolved path that is plain text is read as itself. -/
theorem resolveWith_of_rereads {bound : Destination} (hresolved : bound.IsResolved)
    {lookup : Lookup} (hrereads : bound.RereadsAsItself lookup) :
    ∃ again, bound.resolveWith lookup = .ok again ∧ again.kind = bound.kind ∧
      again.path = bound.path := by
  obtain ⟨parts, hparts, htext⟩ := Option.bind_eq_some_iff.mp
    ((parseExpression_literal_iff bound.path bound.expression.line).mpr hrereads.plain)
  have hresolve := @resolveWith_literal bound hresolved lookup parts
    (toOption_eq_some.mp hparts) htext
  have hspace : ¬ ((bound.resolver none).isDestination &&
      !(bound.resolver none).typedDestination && bound.path.any isAsciiWhitespace) = true := by
    rcases hrereads.single with h | h
    · simp [resolver, h]
    · simp [h]
  have hpath : (bound.resolver none).resolve bound.path = .ok bound.path := by
    have hempty : ¬ (bound.path.isEmpty && (bound.resolver none).allowsEmpty) = true := by
      unfold resolver purpose PathResolver.allowsEmpty
      cases bound.kind <;> simp
    rw [PathResolver.resolve, if_neg hempty, if_neg hspace]
    exact checkPath_of_isResolved hresolved none
  rw [fitting, if_pos hrereads.fits] at hresolve
  simp only [Option.filter, hrereads.text, if_true, Option.bind_some, hpath] at hresolve
  have hbuilt := rebuild_resolved bound (bound.resolvedExpression bound.path)
  refine ⟨_, toOption_eq_some.mp hresolve, ?_, ?_⟩
  · show (bound.rebuild (bound.resolvedExpression bound.path) true).kind = _
    rw [hbuilt]
    exact resolvedKind_of_ne_file hresolved.kind _
  · show (bound.rebuild (bound.resolvedExpression bound.path) true).path = _
    rw [hbuilt]
    rfl

/-- A resolved path that the host accepts as it is. -/
theorem rereads_of_resolveWith {bound again : Destination} (hresolved : bound.IsResolved)
    {lookup : Lookup} (hresolve : bound.resolveWith lookup = .ok again)
    (hliteral : (parseExpression bound.path bound.expression.line).toOption.bind literalText =
      some bound.path) : bound.RereadsAsItself lookup := by
  have hplain := (parseExpression_literal_iff _ _).mp hliteral
  obtain ⟨parts, hparts, htext⟩ := Option.bind_eq_some_iff.mp hliteral
  have h := @resolveWith_literal bound hresolved lookup parts (toOption_eq_some.mp hparts) htext
  rw [hresolve] at h
  obtain ⟨path, hpath, -⟩ := Option.map_eq_some_iff.mp h.symm
  obtain ⟨source, hsource, hpath⟩ := Option.bind_eq_some_iff.mp hpath
  obtain ⟨hfits, hsourceText⟩ := Option.filter_eq_some_iff.mp hsource
  unfold fitting at hfits
  split_ifs at hfits with hroom
  cases hfits
  exact ⟨hsourceText, hplain, hroom,
    (resolve_ok (bound.resolver_isDestination none) (toOption_eq_some.mp hpath)).1⟩

end Destination

/-! ### Deliveries -/

section Deliveries

variable {σ E : Type} (host : OrderedExecutionHost σ E) (destination : Destination) (message : Bytes)
  (permanentDestination : ExpansionError → E)

/-- What is opened is what evaluating once and resolving once gives, and where a path is read a second
time, it is read as the text it is. -/
structure InterpretedOnce (s : OrderedTreeExecution σ E) : Prop where
  opens : opened (destination.deliver host message permanentDestination) s =
    opened (destination.interpret host message) s
  unscanned : ∀ bound s', destination.execute host message s = .ok bound s' →
    bound.expression.expansion = none →
      (parseExpression bound.path bound.expression.line).toOption.bind literalText =
        some bound.path

variable {host destination message permanentDestination}

theorem opened_deliver_ok {bound : Destination} {s s' : OrderedTreeExecution σ E}
    (h : destination.execute host message s = .ok bound s') :
    opened (destination.deliver host message permanentDestination) s =
      (bound.resolveWith s'.runtime.get).toOption.map fun again => (again.kind, again.path) := by
  unfold opened Destination.deliver Destination.openDestination
  simp only [Bind.bind, EStateM.bind, h, Outcome.get_apply]
  cases bound.resolveWith s'.runtime.get with
  | error error => rfl
  | ok again => rfl

theorem opened_deliver_error {error : OrderedExecutionError E} {s s' : OrderedTreeExecution σ E}
    (h : destination.execute host message s = .error error s') :
    opened (destination.deliver host message permanentDestination) s = none := by
  unfold opened Destination.deliver
  simp only [Bind.bind, EStateM.bind, h]

theorem opened_ok {execution : Exec σ E Destination} {resolved : Destination}
    {s s' : OrderedTreeExecution σ E} (h : execution s = .ok resolved s') :
    opened execution s = some (resolved.kind, resolved.path) := by
  rw [opened, h]

theorem opened_error {execution : Exec σ E Destination} {error : OrderedExecutionError E}
    {s s' : OrderedTreeExecution σ E} (h : execution s = .error error s') :
    opened execution s = none := by
  rw [opened, h]

/-- A destination with commands or assignments is handed over as evaluating once and resolving once
gives it. -/
theorem execute_eq_interpret {expression : ShellExpression}
    (hcommand : destination.commandExpression = some expression) :
    destination.execute host message = destination.interpret host message := by
  unfold Destination.execute Destination.interpret
  rw [hcommand]

/-- A destination with commands or assignments is handed over where its text makes a path. -/
theorem execute_ok_iff {expression : ShellExpression} (hcommand : destination.commandExpression = some expression)
    {bound : Destination} {s s' : OrderedTreeExecution σ E} :
    destination.execute host message s = .ok bound s' ↔
      ∃ source, destination.orderedText host message expression s = .ok source s' ∧
        destination.resolveOrderedOutput source (RuntimeSettings.maildir s'.runtime) = .ok bound := by
  unfold Destination.execute
  rw [hcommand]
  simp only [Bind.bind, EStateM.bind]
  cases htext : destination.orderedText host message expression s with
  | error error after => simp
  | ok source after =>
    simp only [Outcome.get_apply]
    cases hresolve : destination.resolveOrderedOutput source (RuntimeSettings.maildir after.runtime) with
    | error error =>
      constructor
      · intro h
        cases h
      · rintro ⟨other, hother, hbound⟩
        cases hother
        rw [hresolve] at hbound
        cases hbound
    | ok resolved =>
      constructor
      · intro h
        cases h
        exact ⟨source, rfl, hresolve⟩
      · rintro ⟨other, hother, hbound⟩
        cases hother
        rw [hresolve] at hbound
        cases hbound
        rfl

/-- A path is handed over as a text, so it must be read as itself. -/
theorem interpretedOnce_iff_rereads {expression : ShellExpression}
    (hcommand : destination.commandExpression = some expression) (s : OrderedTreeExecution σ E) :
    InterpretedOnce host destination message permanentDestination s ↔
      ∀ bound s', destination.execute host message s = .ok bound s' → bound.RereadsAsItself s'.runtime.get := by
  have hexecute := @execute_eq_interpret σ E host destination message expression hcommand
  have hisResolved {bound : Destination} {s' : OrderedTreeExecution σ E}
      (hrun : destination.execute host message s = .ok bound s') : bound.IsResolved := by
    obtain ⟨source, -, hresolve⟩ := (execute_ok_iff hcommand).mp hrun
    exact Destination.isResolved_of_resolveOrderedOutput hresolve
  constructor
  · intro honce bound s' hrun
    have hliteral := honce.unscanned bound s' hrun (hisResolved hrun).expansion
    have hopens := honce.opens
    rw [opened_deliver_ok hrun, ← hexecute, opened_ok hrun] at hopens
    obtain ⟨again, hagain, -⟩ := Option.map_eq_some_iff.mp hopens
    exact Destination.rereads_of_resolveWith (hisResolved hrun) (toOption_eq_some.mp hagain) hliteral
  · intro hrereads
    constructor
    · cases hrun : destination.execute host message s with
      | error error after => rw [opened_deliver_error hrun, ← hexecute, opened_error hrun]
      | ok bound after =>
        obtain ⟨again, hagain, hkind, hpath⟩ := Destination.resolveWith_of_rereads
          (hisResolved hrun) (hrereads bound after hrun)
        rw [opened_deliver_ok hrun, ← hexecute, opened_ok hrun, hagain, ← hkind, ← hpath]
        rfl
    · intro bound s' hrun _
      exact (parseExpression_literal_iff _ _).mpr (hrereads bound s' hrun).plain

/-- So the text that is inserted must stand for itself, where it makes a path at all. -/
theorem interpretedOnce_iff_stands {expression : ShellExpression}
    (hcommand : destination.commandExpression = some expression) (s : OrderedTreeExecution σ E) :
    InterpretedOnce host destination message permanentDestination s ↔
      ∀ source s', destination.orderedText host message expression s = .ok source s' →
        ((destination.resolver (destination.orderedDirectory (RuntimeSettings.maildir s'.runtime))).resolve
            source).isOk = true →
          destination.StandsForItself (destination.orderedDirectory (RuntimeSettings.maildir s'.runtime)) source
            s'.runtime.get := by
  have hresolves (source : Bytes) (maildir : Option Bytes) :
      ((destination.resolver (destination.orderedDirectory maildir)).resolve source).isOk = true ↔
        ∃ bound, destination.resolveOrderedOutput source maildir = .ok bound := by
    unfold Destination.resolveOrderedOutput
    rw [if_neg (by simp [hcommand])]
    show _ ↔ ∃ bound, ((destination.resolver (destination.orderedDirectory maildir)).resolve source >>= fun path =>
      (pure (destination.rebuild (destination.resolvedExpression path) true) : Parsed Destination)) = .ok bound
    cases (destination.resolver (destination.orderedDirectory maildir)).resolve source with
    | error error => simp [Except.isOk, Except.toBool, Bind.bind, Except.bind]
    | ok path => exact ⟨fun _ => ⟨_, rfl⟩, fun _ => rfl⟩
  rw [interpretedOnce_iff_rereads hcommand s]
  constructor
  · intro hrereads source s' htext hok
    obtain ⟨bound, hbound⟩ := (hresolves source _).mp hok
    exact (Destination.rereadsAsItself_iff hbound _).mp
      (hrereads bound s' ((execute_ok_iff hcommand).mpr ⟨source, htext, hbound⟩))
  · intro hstands bound s' hrun
    obtain ⟨source, htext, hbound⟩ := (execute_ok_iff hcommand).mp hrun
    exact (Destination.rereadsAsItself_iff hbound _).mpr
      (hstands source s' htext ((hresolves source _).mpr ⟨bound, hbound⟩))

/-- What is opened for a destination that is not evaluated in order. -/
theorem opened_interpret_static (hcommand : destination.commandExpression = none) (s : OrderedTreeExecution σ E) :
    opened (destination.interpret host message) s =
      (destination.resolveWith s.runtime.get).toOption.map fun again => (again.kind, again.path) := by
  unfold opened Destination.interpret
  rw [hcommand]
  simp only [Bind.bind, EStateM.bind, Outcome.get_apply]
  cases destination.resolveWith s.runtime.get with
  | error error => rfl
  | ok again => rfl

/-- The destination that is handed over when it is not evaluated in order. -/
theorem execute_static (hcommand : destination.commandExpression = none) (s : OrderedTreeExecution σ E) :
    destination.execute host message s =
      match destination.bindWith s.runtime.get with
      | .ok bound => .ok bound s
      | .error error => .error (.Evaluation (.Expansion error)) s := by
  unfold Destination.execute
  rw [hcommand]
  simp only [Bind.bind, EStateM.bind, Outcome.get_apply]
  cases destination.bindWith s.runtime.get <;> rfl

/-- The binding of an expression keeps it, so nothing is read again. -/
theorem interpretedOnce_of_transparent (hcommand : destination.commandExpression = none)
    {s : OrderedTreeExecution σ E} (htransparent : destination.BindsTransparently s.runtime.get s.runtime.get) :
    InterpretedOnce host destination message permanentDestination s := by
  have hexecute := @execute_static σ E host destination message hcommand s
  cases hbind : destination.bindWith s.runtime.get with
  | error error =>
    rw [hbind] at hexecute
    constructor
    · rw [opened_deliver_error hexecute, opened_interpret_static hcommand, htransparent.failed error hbind]
      rfl
    · intro bound s' hbound
      rw [hexecute] at hbound
      cases hbound
  | ok bound =>
    rw [hbind] at hexecute
    constructor
    · rw [opened_deliver_ok hexecute, opened_interpret_static hcommand, htransparent.bound bound hbind]
    · intro other s' hother hnone
      rw [hexecute] at hother
      cases hother
      obtain ⟨expansion, hexpansion⟩ := Destination.bindWith_expansion hbind
      rw [hexpansion] at hnone
      cases hnone

/-- Where binding stops, nothing is opened. -/
theorem not_hasPath_of_interpretedOnce {expression : ShellExpression}
    (hprepared : destination.expression.expansion = some expression)
    (hordered : requiresOrderedEvaluation expression = false) {s : OrderedTreeExecution σ E}
    (hbindable : bindable s.runtime.get expression 0 = false)
    (honce : InterpretedOnce host destination message permanentDestination s) :
    destination.hasPath s.runtime.get expression = false := by
  have hcompiled := Destination.compiled_of_expansion hprepared
  have hcommand : destination.commandExpression = none := by
    unfold Destination.commandExpression
    rw [hprepared]
    simp [Option.filter, hordered]
  have hexecute := @execute_static σ E host destination message hcommand s
  have hstops := @isOk_bindParts destination.expression.line s.runtime.get expression
    (Bool.or_eq_false_iff.mp hordered).2 0 []
  have hbindWith := @Destination.bindWith_eq destination
    (fun other h => by rw [hcompiled] at h; cases h; exact hordered) s.runtime.get
  cases hbound : bindParts destination.expression.line s.runtime.get expression 0 [] with
  | ok bound =>
    rw [hbound, hbindable] at hstops
    cases hstops
  | error error =>
    have hfails : destination.bindWith s.runtime.get = .error error := by
      rw [hbindWith, hcompiled]
      simp only [bind, Except.bind, hbound]
    rw [hfails] at hexecute
    have hopens := honce.opens
    rw [opened_deliver_error hexecute, opened_interpret_static hcommand, eq_comm, Option.map_eq_none_iff] at hopens
    rw [← Destination.isSome_resolveWith hcompiled hordered, hopens]
    rfl

end Deliveries

/-- A destination with commands or assignments is interpreted once exactly when the text that is inserted stands
for itself; any other, where binding and evaluation agree on what is reached. -/
theorem destination_interpreted_once {σ E : Type} (host : OrderedExecutionHost σ E)
    (destination : Destination) (message : Bytes) (permanentDestination : ExpansionError → E)
    (expression : ShellExpression) (hprepared : destination.expression.expansion = some expression)
    (s : OrderedTreeExecution σ E) :
    (requiresOrderedEvaluation expression = true →
      (InterpretedOnce host destination message permanentDestination s ↔
        ∀ source s', destination.orderedText host message expression s = .ok source s' →
          ((destination.resolver (destination.orderedDirectory (RuntimeSettings.maildir s'.runtime))).resolve
              source).isOk = true →
            destination.StandsForItself (destination.orderedDirectory (RuntimeSettings.maildir s'.runtime)) source
              s'.runtime.get)) ∧
      (requiresOrderedEvaluation expression = false →
        (destination.bindsAlike s.runtime.get s.runtime.get expression = true →
          InterpretedOnce host destination message permanentDestination s) ∧
        (bindable s.runtime.get expression 0 = false →
          (InterpretedOnce host destination message permanentDestination s ↔
            destination.bindsAlike s.runtime.get s.runtime.get expression = true))) := by
  constructor
  · intro hordered
    have hcommand : destination.commandExpression = some expression := by
      unfold Destination.commandExpression
      rw [hprepared]
      simp [Option.filter, hordered]
    exact interpretedOnce_iff_stands hcommand s
  · intro hordered
    have hcommand : destination.commandExpression = none := by
      unfold Destination.commandExpression
      rw [hprepared]
      simp [Option.filter, hordered]
    have honce (halike : destination.bindsAlike s.runtime.get s.runtime.get expression = true) :
        InterpretedOnce host destination message permanentDestination s :=
      interpretedOnce_of_transparent hcommand (Destination.bindsTransparently_of_bindsAlike (fun _ _ => rfl)
        (Destination.compiled_of_expansion hprepared) hordered halike)
    refine ⟨honce, ?_⟩
    intro hbindable
    refine ⟨?_, honce⟩
    intro hinterpreted
    rw [Destination.bindsAlike, hbindable, if_neg Bool.false_ne_true,
      not_hasPath_of_interpretedOnce hprepared hordered hbindable hinterpreted]
    rfl

/-! ### Where a path is read as something else -/

/-- A mailbox of which a command says the name, as it is prepared. -/
def commandMailbox : Destination :=
  ⟨.Mbox, ⟨strBytes "`folder`", none, 1, true, false, true, some [.Command (strBytes "folder")]⟩⟩

/-- Every command gives this output. -/
def speakingHost (output : String) : OrderedExecutionHost Unit ExpansionError where
  deliver _ _ _ _ _ := pure ()
  externalAction _ _ _ _ := pure none
  capture _ _ _ _ _ := pure (strBytes output)
  externalCondition _ _ := pure true
  replaceGlobalLock _ := pure ()
  acquireLocalLock _ := pure ()
  enterCopyBranch := id
  leaveCopyBranch := id
  forkCopyBranch _ := some ((), ())
  finishBackground _ := (.ok (), ())
  complete _ _ := id

/-- An execution at its start. -/
def startedExecution (runtime : RuntimeVariables) : OrderedTreeExecution Unit ExpansionError :=
  ExecutionPlan.startOrdered (L := RcLoader) ⟨⟨[], []⟩, ⟨1000, 1000, 1000, 1000, 1000⟩, none⟩
    (.Owned (.Whole ⟨[], [], none⟩)) runtime () RuntimeRcState.new

instance (destination : Destination) (directory : Option Bytes) (source : Bytes) (lookup : Lookup) :
    Decidable (destination.StandsForItself directory source lookup) :=
  decidable_of_iff
    (isText (Destination.front directory source ++ source) = true ∧
      isPlain (Destination.front directory source ++ source) = true ∧
      (Destination.front directory source).length + source.length ≤ Destination.pathRoom lookup ∧
      (destination.expression.typedDestination = true ∨
        (Destination.front directory source).any isAsciiWhitespace = false))
    ⟨fun h => ⟨h.1, h.2.1, h.2.2.1, h.2.2.2⟩, fun h => ⟨h.text, h.plain, h.fits, h.single⟩⟩

/-- A test of the text that an evaluation ends with. -/
def endsWithText (test : Bytes → RuntimeVariables → Bool)
    (run : EStateM.Result (OrderedExecutionError ExpansionError)
      (OrderedTreeExecution Unit ExpansionError) Bytes) : Bool :=
  match run with
  | .ok source after => test source after.runtime
  | .error _ _ => true

theorem forall_ends {test : Bytes → RuntimeVariables → Bool}
    {run : EStateM.Result (OrderedExecutionError ExpansionError)
      (OrderedTreeExecution Unit ExpansionError) Bytes}
    (h : endsWithText test run = true) :
    ∀ source s', run = .ok source s' → test source s'.runtime = true := by
  intro source s' hrun
  rw [hrun] at h
  exact h

/-- A command that says `lists` names that mailbox. -/
theorem command_output_interpreted_once :
    InterpretedOnce (speakingHost "lists") commandMailbox [] id
      (startedExecution (RuntimeVariables.default [])) :=
  ((destination_interpreted_once (speakingHost "lists") commandMailbox [] id
    [.Command (strBytes "folder")] rfl (startedExecution (RuntimeVariables.default []))).1
    (by decide)).mpr fun source s' h _ => of_decide_eq_true
      (@forall_ends (fun source runtime => decide (commandMailbox.StandsForItself
          (commandMailbox.orderedDirectory (RuntimeSettings.maildir runtime)) source runtime.get)) _
        (by decide +kernel) source s' h)

/-- A command that says `$OWNER` names the mailbox of whoever that is, and one that says `it's` none. -/
theorem command_output_interpreted_twice :
    parseCommandExpression (strBytes "`folder`") 1 = .ok commandMailbox.expression.expansion ∧
      opened (commandMailbox.interpret (speakingHost "$OWNER") [])
        (startedExecution ((RuntimeVariables.default []).set "OWNER" (strBytes "root"))) =
          some (.Mbox, strBytes "$OWNER") ∧
      opened (commandMailbox.deliver (speakingHost "$OWNER") [] id)
        (startedExecution ((RuntimeVariables.default []).set "OWNER" (strBytes "root"))) =
          some (.Mbox, strBytes "root") ∧
      opened (commandMailbox.interpret (speakingHost "it's") [])
        (startedExecution (RuntimeVariables.default [])) = some (.Mbox, strBytes "it's") ∧
      opened (commandMailbox.deliver (speakingHost "it's") [] id)
        (startedExecution (RuntimeVariables.default [])) = none ∧
      ¬ InterpretedOnce (speakingHost "it's") commandMailbox [] id
        (startedExecution (RuntimeVariables.default [])) := by
  have hinterpret : opened (commandMailbox.interpret (speakingHost "it's") [])
      (startedExecution (RuntimeVariables.default [])) = some (.Mbox, strBytes "it's") := by
    decide +kernel
  have hdeliver : opened (commandMailbox.deliver (speakingHost "it's") [] id)
      (startedExecution (RuntimeVariables.default [])) = none := by
    decide +kernel
  have htext : strBytes "`folder`" = [96, 102, 111, 108, 100, 101, 114, 96] := by decide +kernel
  have hcommand : strBytes "folder" = [102, 111, 108, 100, 101, 114] := by decide +kernel
  have hparse : parseCommandExpression (strBytes "`folder`") 1 = .ok commandMailbox.expression.expansion := by
    rw [htext]
    show _ = Except.ok (some [ShellPart.Command (strBytes "folder")])
    rw [hcommand]
    rfl
  refine ⟨hparse, by decide +kernel, by decide +kernel, hinterpret, hdeliver, ?_⟩
  intro honce
  have hopens := honce.opens
  rw [hinterpret, hdeliver] at hopens
  cases hopens

end ProcmailRs.Config
