import ProcmailRs.Eval.Proofs.JournalProofs
import ProcmailRs.Lib.Paths

/-!
# A final delivery ends its path

`Stop` travels from the delivery through blocks and loaded files to the end of the path. The parent of
an unwaited branch drops it: its sequence ends with `SequenceComplete`, which ends the path only if
nothing encloses the sequence. So the path goes on behind a final delivery only if the delivery was
made by such a parent inside a block or a loaded file.
-/

namespace ProcmailRs

open Outcome OrderedTreeExecution Paths

variable {σ E : Type}

/-- No final delivery was made by the parent of an unwaited branch inside a block or a loaded file. -/
def NoneDetached (log : List (Nat × Event)) : Prop :=
  ∀ e ∈ log, e.2.isFinal = true → e.2.isDetached = false

instance (log : List (Nat × Event)) : Decidable (NoneDetached log) :=
  inferInstanceAs (Decidable (∀ e ∈ log, e.2.isFinal = true → e.2.isDetached = false))

theorem NoneDetached.append {log log' : List (Nat × Event)} (h : NoneDetached (log ++ log')) :
    NoneDetached log ∧ NoneDetached log' :=
  ⟨fun e he => h e (List.mem_append_left _ he), fun e he => h e (List.mem_append_right _ he)⟩

namespace Journal

/-- The journal goes on from `journal` to `after` on the same path and at the same place. -/
structure Moves (journal after : Journal) (closed : Prop) : Prop where
  path : after.path = journal.path
  nested : after.nested = journal.nested
  detached : after.detached = journal.detached
  log : ∃ added, after.log = journal.log ++ added ∧
    (NoneDetached added → journal.path < journal.paths →
      Segment (Event.isFinal ·) journal.path journal.paths after.paths closed added)

namespace Moves

variable {journal middle after : Journal} {closed closed' : Prop}

theorem refl (journal : Journal) : journal.Moves journal closed :=
  ⟨rfl, rfl, rfl, [], by simp, fun _ _ => .nil⟩

theorem mono (h : journal.Moves after closed) (hc : closed → closed') :
    journal.Moves after closed' := by
  obtain ⟨added, hlog, hseg⟩ := h.log
  exact ⟨h.path, h.nested, h.detached, added, hlog, fun hn hp => (hseg hn hp).mono hc⟩

theorem trans (h : journal.Moves middle False) (h' : middle.Moves after closed) :
    journal.Moves after closed := by
  obtain ⟨added, hlog, hseg⟩ := h.log
  obtain ⟨added', hlog', hseg'⟩ := h'.log
  refine ⟨h'.path.trans h.path, h'.nested.trans h.nested, h'.detached.trans h.detached,
    added ++ added', ?_, ?_⟩
  · rw [hlog', hlog, List.append_assoc]
  · intro hn hp
    have hfirst := hseg hn.append.1 hp
    have hle := hfirst.le
    have hsecond := hseg' hn.append.2 (by rw [h.path]; omega)
    rw [h.path] at hsecond
    exact hfirst.append hsecond

theorem record {event : Event} (h : event.isFinal → closed) :
    journal.Moves (journal.record event) closed :=
  ⟨rfl, rfl, rfl, [(journal.path, event)], rfl, fun _ _ => .singleton h⟩

/-- An answer of the host closes the path only if it is a final delivery at a place that is not
detached. -/
theorem answered (call : HostCall) (succeeded : Bool) :
    journal.Moves (journal.record (.Host call succeeded journal.detached))
      ((succeeded && call.isFinal) = true ∧ journal.detached = false) := by
  refine ⟨rfl, rfl, rfl, [(journal.path, .Host call succeeded journal.detached)], rfl, ?_⟩
  intro hn _
  refine .singleton fun hfinal => ⟨by simpa using hfinal, ?_⟩
  exact hn _ (List.mem_singleton_self _) hfinal

/-- What a branch logs is nothing to its parent. -/
theorem branch (h : journal.branch.Moves after closed) :
    journal.Moves (journal.resume after) False := by
  obtain ⟨added, hlog, hseg⟩ := h.log
  refine ⟨rfl, rfl, rfl, added, hlog, ?_⟩
  intro hn hp
  exact (hseg hn (Nat.lt_succ_self _)).branch hp

/-- The path at another place, and back where it was. -/
theorem resume {nested detached : Bool}
    (h : { journal with nested := nested, detached := detached }.Moves after closed) :
    journal.Moves (journal.resume after) closed := by
  obtain ⟨added, hlog, hseg⟩ := h.log
  exact ⟨rfl, rfl, rfl, added, hlog, hseg⟩

/-- The log of a run from the start, none of whose final deliveries was detached. -/
theorem ordered_of_new {log : List (Nat × Event)} (h : Journal.new.Moves after closed)
    (hlog : log = after.log) (hdetached : NoneDetached log) : Ordered (Event.isFinal ·) log := by
  obtain ⟨added, hafter, hsegment⟩ := h.log
  have hadded : log = added := by rw [hlog, hafter, Journal.new, List.nil_append]
  rw [hadded] at hdetached ⊢
  exact (hsegment hdetached (by decide)).ordered

end Moves

/-- The control with which a sequence may leave its path closed. -/
def Closes (journal : Journal) (control : SequenceControl) : Prop :=
  journal.detached = false ∧
    (control = .Stop ∨ control = .SequenceComplete ∧ journal.nested = false)

theorem Moves.closes {journal middle : Journal} {closed : Prop} (h : journal.Moves middle closed)
    (control : SequenceControl) : middle.Closes control ↔ journal.Closes control := by
  unfold Closes
  rw [h.nested, h.detached]

end Journal

/-- Nothing that closes the path. -/
def Running (before after : OrderedTreeExecution σ E) : Prop :=
  before.journal.Moves after.journal False

theorem composable_running : Composable (Running (σ := σ) (E := E)) where
  refl _ := .refl _
  trans h h' := Journal.Moves.trans h h'

theorem running_of_journal_eq {c c' : OrderedTreeExecution σ E} (h : c'.journal = c.journal) :
    Running c c' := by
  unfold Running
  rw [h]
  exact .refl _

theorem tolerant_running {L : Type} [RcSource L] (host : OrderedExecutionHost σ E) (loader : L) :
    Tolerant host loader Running :=
  .of_journal composable_running running_of_journal_eq
    fun _ _ _ hcall => .record (by simp [hcall])

/-- A call of the host, and nothing else that is logged. -/
def Answers {ε α : Type} (call : HostCall) (m : Exec σ E (Except ε α)) : Prop :=
  ∀ c, Ends m c
    (fun result c' => c'.journal = c.journal.record (.Host call result.isOk c.journal.detached))
    (fun _ _ => False)

/-- Nothing is logged, and the path is left with `Stop`. -/
def Stops {α : Type} (control : α → SequenceControl) (m : Exec σ E α) : Prop :=
  ∀ c, Ends m c (fun a c' => c'.journal = c.journal ∧ control a = .Stop)
    (fun _ c' => c'.journal = c.journal)

/-- The path is left closed only by a control that ends it. An error ends everything. -/
def Obeys {α : Type} (control : α → SequenceControl) (m : Exec σ E α) : Prop :=
  ∀ c, Ends m c (fun a c' => c.journal.Moves c'.journal (c.journal.Closes (control a)))
    (fun _ c' => c.journal.Moves c'.journal True)

namespace Obeys

variable {α β : Type} {control : α → SequenceControl}

theorem bind {m : Exec σ E β} {f : β → Exec σ E α} (h : Keeps Running m)
    (hf : ∀ b, Obeys control (f b)) : Obeys control (m >>= f) := by
  intro c
  refine Ends.bind ((h c).mono (fun _ _ h => h) fun _ _ h => Journal.Moves.mono h False.elim) ?_
  intro b c' hmoves
  refine (hf b c').mono (fun a c'' h => ?_) fun _ c'' h => ?_
  · exact Journal.Moves.trans hmoves (h.mono (Journal.Moves.closes hmoves _).mp)
  · exact Journal.Moves.trans hmoves h

theorem of_keeps {m : Exec σ E α} (h : Keeps Running m) : Obeys control m := fun c =>
  (h c).mono (fun _ _ h => Journal.Moves.mono h False.elim)
    fun _ _ h => Journal.Moves.mono h False.elim

/-- Behind a delivery of the message itself the path is left with `Stop`. -/
theorem bind_answers {ε : Type} {call : HostCall} {m : Exec σ E (Except ε β)}
    {f : Except ε β → Exec σ E α} (hm : Answers call m)
    (hf : ∀ result, (result.isOk && call.isFinal) = false → Obeys control (f result))
    (hfinal : call.isFinal = true → ∀ value, Stops control (f (.ok value))) :
    Obeys control (m >>= f) := by
  intro c
  refine Ends.bind ((hm c).mono (fun _ _ h => h) fun _ _ h => h.elim) ?_
  intro result c' hjournal
  have hanswered : c.journal.Moves c'.journal
      ((result.isOk && call.isFinal) = true ∧ c.journal.detached = false) := by
    rw [hjournal]
    exact .answered call result.isOk
  cases hclosed : result.isOk && call.isFinal with
  | false =>
    have hrunning : c.journal.Moves c'.journal False := hanswered.mono (by simp [hclosed])
    refine (hf result hclosed c').mono (fun a c'' h => ?_) fun _ c'' h => ?_
    · exact hrunning.trans (h.mono (hrunning.closes _).mp)
    · exact hrunning.trans h
  | true =>
    cases result with
    | error error => cases hclosed
    | ok value =>
      have hcall : call.isFinal = true := hclosed
      refine (hfinal hcall value c').mono (fun a c'' h => ?_) fun _ c'' h => ?_
      · rw [h.1]
        exact hanswered.mono fun hd => ⟨hd.2, .inl h.2⟩
      · rw [h]
        exact hanswered.mono fun _ => trivial

/-- What follows runs only while the control is `Continue`; every other control is passed on. -/
theorem seq {controlled : β → SequenceControl} {m : Exec σ E β} {f : β → Exec σ E α}
    (h : Obeys controlled m) (hf : ∀ b, controlled b = .Continue → Obeys control (f b))
    (hend : ∀ b, controlled b ≠ .Continue → ∃ a, f b = pure a ∧ control a = controlled b) :
    Obeys control (m >>= f) := by
  intro c
  refine Ends.bind (h c) ?_
  intro b c' hmoves
  by_cases hb : controlled b = .Continue
  · have hrunning : c.journal.Moves c'.journal False := hmoves.mono fun hcloses => by
      rcases hcloses.2 with hstop | ⟨hstop, -⟩
      · exact absurd (hb.symm.trans hstop) (by decide)
      · exact absurd (hb.symm.trans hstop) (by decide)
    refine (hf b hb c').mono (fun a c'' h => ?_) fun _ c'' h => ?_
    · exact hrunning.trans (h.mono (hrunning.closes _).mp)
    · exact hrunning.trans h
  · obtain ⟨a, hfb, ha⟩ := hend b hb
    rw [hfb]
    exact hmoves.mono fun hcloses => by rwa [ha]

theorem ite {p : Prop} [Decidable p] {m m' : Exec σ E α} (h : Obeys control m)
    (h' : Obeys control m') : Obeys control (if p then m else m') := by
  split
  · exact h
  · exact h'

end Obeys

/-! ### Places -/

/-- Inside a block or a loaded file only `Stop` closes the path. -/
theorem ends_nested {α : Type} {control : α → SequenceControl} {body : Exec σ E α}
    (h : Obeys control body) (c : OrderedTreeExecution σ E) :
    Ends (nested body) c
      (fun a c' => c.journal.Moves c'.journal (c.journal.detached = false ∧ control a = .Stop))
      (fun _ c' => c.journal.Moves c'.journal True) := by
  have hbody := h { c with journal := { c.journal with nested := true } }
  unfold Ends at hbody
  unfold Ends nested within
  cases hrun : body { c with journal := { c.journal with nested := true } } with
  | ok a c' =>
    rw [hrun] at hbody
    refine Journal.Moves.mono (Journal.Moves.resume hbody) ?_
    rintro ⟨hd, hcontrol | ⟨-, hn⟩⟩
    · exact ⟨hd, hcontrol⟩
    · exact absurd hn Bool.true_eq_false.mp
  | error e c' =>
    rw [hrun] at hbody
    exact Journal.Moves.resume hbody

theorem ends_executeRuntimeRc {path : Bytes} {child : Exec σ E OrderedActionResult}
    (h : Obeys Prod.snd child) (c : OrderedTreeExecution σ E) :
    Ends (executeRuntimeRc path child) c
      (fun a c' => c.journal.Moves c'.journal (c.journal.detached = false ∧ a.2 = .Stop))
      (fun _ c' => c.journal.Moves c'.journal True) := by
  have hbody := ends_nested h
    { c with
      depth := c.depth + 1
      runtime := { c.runtime with currentRcFile := some path } }
  unfold Ends at hbody ⊢
  unfold executeRuntimeRc within
  split at hbody
  · rename_i heq
    simp only [heq]
    exact hbody
  · rename_i heq
    simp only [heq]
    exact hbody

section Sequences

variable {L : Type} [RcSource L] (host : OrderedExecutionHost σ E) (loader : L)
variable {child : CompiledSequence → Exec σ E OrderedActionResult}
variable (hchild : ∀ sequence, Obeys Prod.snd (child sequence))

include hchild

theorem obeys_executeStatementOrdered (statement : CompiledStatement) :
    Obeys id (executeStatementOrdered host loader child statement) := by
  have hR := tolerant_running host loader
  cases statement with
  | Include expression =>
    refine .bind (hR.loadFile expression _) fun loaded => ?_
    cases loaded with
    | Empty => exact .of_keeps (.pure hR.composable _)
    | Failed => exact .of_keeps (.pure hR.composable _)
    | Sequence path sequence =>
      intro c
      refine Ends.bind (ends_executeRuntimeRc (hchild sequence) c) ?_
      rintro ⟨action, control⟩ c' h
      refine h.mono ?_
      rintro ⟨hd, rfl⟩
      exact ⟨hd, .inl rfl⟩
  | Switch expression =>
    refine .bind (hR.loadFile expression _) fun loaded => ?_
    cases loaded with
    | Empty => exact .of_keeps (.pure hR.composable _)
    | Failed => exact .of_keeps (.pure hR.composable _)
    | Sequence path sequence =>
      intro c
      refine Ends.bind (ends_executeRuntimeRc (hchild sequence) c) ?_
      rintro ⟨action, control⟩ c' h
      refine h.mono ?_
      rintro ⟨hd, rfl⟩
      exact ⟨hd, .inl rfl⟩
  | _ => exact .of_keeps (hR.executeStatementOrdered (by simp) (by simp))

theorem obeys_executeStatementsOrdered (statements : List CompiledStatement) :
    Obeys id (executeStatementsOrdered host loader child statements) := by
  have hR := tolerant_running host loader
  induction statements with
  | nil => exact .of_keeps (.pure hR.composable _)
  | cons statement rest ih =>
    refine .bind (keeps_modify fun c => Journal.Moves.record (by simp [Event.isFinal])) fun _ => ?_
    refine .seq (obeys_executeStatementOrdered host loader hchild statement) ?_ ?_
    · rintro control rfl
      exact ih
    · intro control hcontrol
      exact ⟨control, if_neg hcontrol, rfl⟩

omit hchild

/-! ### Deliveries -/

theorem stops_finalDelivery :
    Stops Prod.snd (finalDelivery : Exec σ E OrderedActionResult) := fun _ => ⟨rfl, rfl⟩

theorem answers_callHost {ε α : Type} (call : HostCall) (operation : HostOperation σ ε α) :
    Answers call (callHost call operation : Exec σ E (Except ε α)) := by
  intro c
  refine (ends_callHost call operation c).mono ?_ fun _ _ h => h
  rintro result c' rfl
  rfl

theorem answers_deliverMessage (destination : BoundDestination) (message : Bytes)
    (status : MessageStatus) (outputEnding : OutputEnding) (lock : Option Bytes)
    (continuation : ContinuationMode) :
    Answers (.Deliver destination message status outputEnding lock continuation)
      (deliverMessage host destination message status outputEnding lock continuation) := by
  intro c
  refine Ends.bind (answers_callHost _ _ c) fun result c' hjournal => ?_
  cases result with
  | ok value => exact hjournal
  | error error => exact hjournal

/-- A pipe is a delivery of the message itself if it is neither a copy nor a filter. -/
theorem obeys_executePipe (recipe : CompiledNode) (command : Bytes) (options : RecipeOptions) :
    Obeys Prod.snd (executePipe host recipe command options) := by
  have hR := tolerant_running host (none : RcLoader)
  refine .bind (.get hR.composable) fun context => ?_
  refine .bind (hR.liftExcept _ _) fun lock => ?_
  refine .bind_answers (answers_callHost _ _) ?_ ?_
  · rintro (error | replacement) hclosed
    · exact .of_keeps (hR.actionError error)
    · by_cases hmode : options.actionMode = .Filter
      · simp only [if_pos hmode]
        cases replacement with
        | none => exact .of_keeps (.throw hR.composable _)
        | some message =>
          exact .of_keeps (.bind hR.composable
            (hR.modify fun _ => ⟨rfl, rfl, rfl, rfl, rfl⟩) fun _ => hR.actionSucceeded _)
      · have hcopy : options.continuation ≠ .Stop := by
          simpa [HostCall.isFinal, Except.isOk, Except.toBool, hmode] using hclosed
        simp only [if_neg hmode, if_neg hcopy]
        exact .ite (.of_keeps (.throw hR.composable _)) (.of_keeps (hR.actionSucceeded _))
  · intro hfinal replacement
    obtain ⟨hmode, hstop⟩ : options.actionMode ≠ .Filter ∧ options.continuation = .Stop := by
      simpa [HostCall.isFinal] using hfinal
    simp only [if_neg hmode, if_pos hstop]
    split_ifs
    · exact fun _ => rfl
    · exact stops_finalDelivery

theorem obeys_executeDeliver (recipe : CompiledNode) (destination : Destination)
    (continuation : ContinuationMode) (outputEnding : OutputEnding) :
    Obeys Prod.snd (executeDeliver host recipe destination continuation outputEnding) := by
  have hR := tolerant_running host (none : RcLoader)
  refine .bind (.get hR.composable) fun context => ?_
  refine .bind (hR.resolveDestination _ _) fun destination => ?_
  refine .bind (.get hR.composable) fun context => ?_
  refine .bind (hR.liftExcept _ _) fun lock => ?_
  refine .bind_answers (answers_deliverMessage host _ _ _ _ _ _) ?_ ?_
  · rintro (error | value) hclosed
    · exact .of_keeps (hR.actionError error)
    · have hcopy : continuation ≠ .Stop := by
        simpa [HostCall.isFinal, Except.isOk, Except.toBool] using hclosed
      simp only [if_neg hcopy]
      exact .of_keeps (hR.actionSucceeded _)
  · intro hfinal value
    have hstop : continuation = .Stop := by simpa [HostCall.isFinal] using hfinal
    simp only [if_pos hstop]
    exact stops_finalDelivery

/-! ### Blocks and branches -/

theorem obeys_executeBlock (recipe : CompiledNode) {children : Exec σ E OrderedActionResult}
    (h : Obeys Prod.snd children) : Obeys Prod.snd (executeBlock host recipe children) := by
  have hR := tolerant_running host (none : RcLoader)
  refine .bind (hR.modify fun _ => ⟨rfl, rfl, rfl, rfl, rfl⟩) fun _ => ?_
  refine .bind (.get hR.composable) fun context => ?_
  refine .bind (hR.liftExcept _ _) fun lock => ?_
  refine .bind (hR.acquireBlockLock lock) fun locked => ?_
  cases locked with
  | error error => exact .of_keeps (hR.actionError error)
  | ok value =>
    intro c
    refine Ends.bind (ends_nested h c) ?_
    rintro ⟨action, control⟩ c' hmoves
    refine hmoves.mono ?_
    rintro ⟨hd, hcontrol⟩
    simp only at hcontrol
    subst hcontrol
    exact ⟨hd, .inl rfl⟩

theorem obeys_copyBranch {block : Exec σ E OrderedActionResult}
    {rest : ActionExecution → Exec σ E OrderedActionResult} (hblock : Obeys Prod.snd block)
    (hrest : ∀ action, Obeys Prod.snd (rest action)) : Obeys Prod.snd (copyBranch block rest) := by
  refine .seq hblock ?_ ?_
  · rintro ⟨action, control⟩ rfl
    exact hrest action
  · rintro ⟨action, control⟩ hcontrol
    exact ⟨(action, control), if_neg hcontrol, rfl⟩

theorem keeps_executeWaitedCopyBlock {branch : Exec σ E OrderedActionResult}
    (h : Obeys Prod.snd branch) : Keeps Running (executeWaitedCopyBlock host branch) := by
  intro c
  have hbranch := h
    { c with
      host := host.enterCopyBranch c.host
      pendingError := none
      journal := c.journal.branch }
  unfold Ends at hbranch ⊢
  unfold executeWaitedCopyBlock
  split at hbranch
  · rename_i after heq
    simp only [heq]
    cases after.pendingError with
    | none => exact Journal.Moves.branch hbranch
    | some error => exact Journal.Moves.branch hbranch
  · rename_i heq
    simp only [heq]
    exact Journal.Moves.branch hbranch

/-- The parent of a branch: it runs detached if its sequence is nested, so that it can leave the path
closed only where `SequenceComplete` ends the path. -/
theorem ends_runBesideBranch {line : Nat} {branch : Except (OrderedExecutionError E) Unit}
    {parent : Exec σ E OrderedActionResult} {parentHost : σ} (h : Obeys Prod.snd parent)
    {c ended : OrderedTreeExecution σ E} {closed : Prop}
    (hbranch : c.journal.branch.Moves ended.journal closed) :
    Ends (runBesideBranch host line branch ended parentHost parent) c
      (fun a c' => c.journal.Moves c'.journal (c.journal.Closes a.2))
      (fun _ c' => c.journal.Moves c'.journal True) := by
  have hbeside : c.journal.Moves (c.journal.resume ended.journal) False := hbranch.branch
  have hparent := h (besideBranch c ended parentHost)
  unfold Ends at hparent ⊢
  unfold runBesideBranch
  cases hrun : parent (besideBranch c ended parentHost) with
  | ok result after =>
    rw [hrun] at hparent
    have hjoined := hbeside.trans (Journal.Moves.resume hparent)
    rcases joinBranch_cases line ended.published branch (host.finishBackground ended.host).1
      (.ok result) { after with journal := c.journal.resume after.journal } with
      ⟨error, after', heq, hj⟩ | ⟨action, control, after', hresult, heq, hj⟩
    · simp only [heq, hj]
      exact hjoined.mono fun _ => trivial
    · simp only [heq, hj]
      refine hjoined.mono ?_
      rintro ⟨hd, -⟩
      rw [besideBranch, Bool.or_eq_false_iff] at hd
      exact ⟨hd.1, .inr ⟨rfl, hd.2⟩⟩
  | error error after =>
    rw [hrun] at hparent
    have hjoined := hbeside.trans (Journal.Moves.resume hparent)
    rcases joinBranch_cases line ended.published branch (host.finishBackground ended.host).1
      (.error error) { after with journal := c.journal.resume after.journal } with
      ⟨error, after', heq, hj⟩ | ⟨action, control, after', hresult, heq, hj⟩
    · simp only [heq, hj]
      exact hjoined
    · cases hresult

theorem obeys_executeUnwaitedCopyBlock {line : Nat} {branch parent : Exec σ E OrderedActionResult}
    (hbranch : Obeys Prod.snd branch) (hparent : Obeys Prod.snd parent) :
    Obeys Prod.snd (executeUnwaitedCopyBlock host line branch parent) := by
  intro c
  dsimp only [executeUnwaitedCopyBlock, Ends]
  split_ifs with hbudget
  · exact .refl _
  · cases host.forkCopyBranch c.host with
    | none => exact .refl _
    | some hosts =>
      have hrun := hbranch (startBranch c hosts.1)
      unfold Ends at hrun
      split at hrun
      · rename_i heq
        simp only [heq]
        exact ends_runBesideBranch host hparent hrun
      · rename_i heq
        simp only [heq]
        exact ends_runBesideBranch host hparent hrun

theorem obeys_selectAction {recipe : CompiledNode} {conditionsMatched : Bool}
    {action branch parent : Exec σ E OrderedActionResult} (haction : Obeys Prod.snd action)
    (hbranch : Obeys Prod.snd branch) (hparent : Obeys Prod.snd parent) :
    Obeys Prod.snd (selectAction host recipe conditionsMatched action branch parent) := by
  have hR := tolerant_running host (none : RcLoader)
  refine .ite (.ite ?_ (.ite ?_ haction)) (.of_keeps (.pure hR.composable _))
  · exact .of_keeps (keeps_executeWaitedCopyBlock host hbranch)
  · exact obeys_executeUnwaitedCopyBlock host hbranch hparent

/-! ### Sequences -/

include hchild

omit hchild

mutual

theorem obeys_executeOrderedAction (hchild : ∀ sequence, Obeys Prod.snd (child sequence))
    (recipe : CompiledNode) :
    ∀ action : CompiledAction,
      Obeys Prod.snd (executeOrderedAction host loader child recipe action)
  | .Capture action options => by
    unfold executeOrderedAction
    exact .of_keeps ((tolerant_running host loader).executeCapture action options)
  | .Headers resolveWith => by
    unfold executeOrderedAction
    exact .of_keeps ((tolerant_running host loader).executeHeaders recipe.line resolveWith)
  | .Pipe command options => by
    unfold executeOrderedAction
    exact obeys_executePipe host recipe command options
  | .Deliver destination continuation outputEnding => by
    unfold executeOrderedAction
    exact obeys_executeDeliver host recipe destination continuation outputEnding
  | .Block children => by
    unfold executeOrderedAction
    exact obeys_executeBlock host recipe (obeys_executeSequence hchild children)

theorem obeys_executeNode (hchild : ∀ sequence, Obeys Prod.snd (child sequence)) :
    ∀ recipe : CompiledNode,
    Obeys Prod.snd (executeNode host loader child recipe)
  | ⟨_, _, _, _, _, _, _, action⟩ => by
    unfold executeNode
    exact obeys_executeOrderedAction hchild _ action

theorem obeys_executeOrderedFrom (hchild : ∀ sequence, Obeys Prod.snd (child sequence))
    (trailing : List CompiledStatement) :
    ∀ (recipes : List CompiledNode) (state : ChainState) (before : ActionExecution),
      Obeys Prod.snd (executeOrderedFrom host loader child trailing state before recipes)
  | [], state, before => by
    unfold executeOrderedFrom
    refine .seq (obeys_executeStatementsOrdered host loader hchild trailing) ?_ ?_
    · rintro control -
      exact .of_keeps (.pure composable_running _)
    · intro control _
      exact ⟨_, rfl, rfl⟩
  | recipe :: rest, state, before => by
    have hR := tolerant_running host loader
    unfold executeOrderedFrom
    refine .seq (obeys_executeStatementsOrdered host loader hchild _) ?_ ?_
    · rintro control (hcontrol : control = .Continue)
      rw [if_neg (not_not.mpr hcontrol)]
      refine .bind (keeps_modify fun c => Journal.Moves.record (by simp [Event.isFinal])) fun _ => ?_
      refine .bind (.ite (hR.matchesOrdered _) (.pure hR.composable _)) fun matched => ?_
      refine .seq (obeys_selectAction host (obeys_executeNode hchild recipe)
        (obeys_copyBranch (obeys_executeNode hchild recipe) fun action =>
          obeys_executeOrderedFrom hchild trailing rest _ _)
        (obeys_executeOrderedFrom hchild trailing rest _ _)) ?_ ?_
      · rintro ⟨action, control⟩ hcontrol
        simp only at hcontrol
        subst hcontrol
        exact obeys_executeOrderedFrom hchild trailing rest _ _
      · rintro ⟨action, control⟩ hcontrol
        exact ⟨_, if_pos hcontrol, rfl⟩
    · intro control hcontrol
      exact ⟨(before, control), if_pos hcontrol, rfl⟩

theorem obeys_executeSequence (hchild : ∀ sequence, Obeys Prod.snd (child sequence)) :
    ∀ sequence : CompiledSequence,
    Obeys Prod.snd (executeSequence host loader child sequence)
  | ⟨recipes, trailing⟩ => by
    unfold executeSequence
    exact obeys_executeOrderedFrom hchild trailing recipes _ _

end

end Sequences

theorem obeys_executeSequenceOrdered {L : Type} [RcSource L] (host : OrderedExecutionHost σ E)
    (loader : L) :
    ∀ (levels : Nat) (sequence : CompiledSequence),
      Obeys Prod.snd (executeSequenceOrdered host loader levels sequence)
  | 0, _ => .of_keeps (.throw composable_running _)
  | levels + 1, sequence =>
    obeys_executeSequence host loader (obeys_executeSequenceOrdered host loader levels) sequence

/-- Behind a delivery of the message itself that the host has carried out nothing happens on its
path. -/
def FinalEndsPath (log : List (Nat × Event)) : Prop :=
  ∀ before path event after, log = before ++ (path, event) :: after → event.isFinal = true →
    ∀ later ∈ after, later.1 ≠ path

/-- The final deliveries of a path. -/
def finalsOf (log : List (Nat × Event)) (path : Nat) : List (Nat × Event) :=
  log.filter fun event => event.1 == path && event.2.isFinal

theorem finalEndsPath_of_ordered {log : List (Nat × Event)} (h : Ordered (Event.isFinal ·) log) :
    FinalEndsPath log := by
  rintro before path event after rfl hfinal later hlater
  have hpair := (List.pairwise_append.mp h).2.1
  exact (List.pairwise_cons.mp hpair).1 later hlater hfinal

/-- A path of a run ends with its first delivery of the message itself, as long as none was made by the
parent of an unwaited branch inside a block or a loaded file. -/
theorem final_delivery_ends_path {L : Type} [RcSource L] (plan : ExecutionPlan L)
    (host : OrderedExecutionHost σ E)
    (input : MappedMessageInput) (runtime : RuntimeVariables) (hostState : σ) (rc : RuntimeRcState)
    (hdetached : NoneDetached (plan.orderedLog host input runtime hostState rc)) :
    FinalEndsPath (plan.orderedLog host input runtime hostState rc) ∧
      ∀ path, (finalsOf (plan.orderedLog host input runtime hostState rc) path).length ≤ 1 := by
  have hordered : Ordered (Event.isFinal ·) (plan.orderedLog host input runtime hostState rc) := by
    rcases orderedLog_cases plan host input runtime hostState rc with hlog | ⟨message, hlog⟩
    · rw [hlog]
      exact List.Pairwise.nil
    · -- The root sequence starts on the open path 0 with an empty log.
      have hobeys := obeys_executeSequenceOrdered host plan.loader (maxRcIncludeDepth + 1)
        plan.root (plan.startOrdered message runtime hostState rc)
      unfold Ends at hlog hobeys
      split at hlog
      · rename_i heq
        rw [heq] at hobeys
        exact Journal.Moves.ordered_of_new hobeys hlog hdetached
      · rename_i heq
        rw [heq] at hobeys
        exact Journal.Moves.ordered_of_new hobeys hlog hdetached
  refine ⟨finalEndsPath_of_ordered hordered, fun path => ?_⟩
  refine hordered.filter_length_le_one (p := path) fun event hevent => ?_
  simpa using hevent

/-- A plain copied block, a delivery in a block behind it, and another delivery. -/
def deliveryInBlock : ExecutionPlan :=
  smallPlan
    [plainRecipe .Independent .Continue (.Block ⟨[], []⟩),
    plainRecipe .Independent .BranchBlock (.Block
      ⟨[plainRecipe .Independent .Stop (.Deliver (maildir "first/") .Stop .Normalize)], []⟩),
    plainRecipe .Independent .Stop (.Deliver (maildir "second/") .Stop .Normalize)]

theorem final_delivery_ends_path_in_block :
    NoneDetached (deliveryInBlock.orderedLog acceptingHost ⟨[LF], 1, none⟩
      (RuntimeVariables.default []) () RuntimeRcState.new) ∧
    FinalEndsPath (deliveryInBlock.orderedLog acceptingHost ⟨[LF], 1, none⟩
      (RuntimeVariables.default []) () RuntimeRcState.new) ∧
    ∀ path, (finalsOf (deliveryInBlock.orderedLog acceptingHost ⟨[LF], 1, none⟩
      (RuntimeVariables.default []) () RuntimeRcState.new) path).length ≤ 1 :=
  ⟨by decide +kernel, final_delivery_ends_path _ _ _ _ _ _ (by decide +kernel)⟩

/-- A block with a plain copied block in it and a final delivery behind that, and another final delivery
behind the block. -/
def deliveryBehindCopy : ExecutionPlan :=
  smallPlan
    [plainRecipe .Independent .BranchBlock (.Block
      ⟨[plainRecipe .Independent .Continue (.Block ⟨[], []⟩),
        plainRecipe .Independent .Stop (.Deliver (maildir "first/") .Stop .Normalize)], []⟩),
    plainRecipe .Independent .Stop (.Deliver (maildir "second/") .Stop .Normalize)]

/-- The main path delivers to `first/`, and then to `second/` as well. -/
theorem delivery_behind_copy_goes_on :
    ¬(FinalEndsPath (deliveryBehindCopy.orderedLog acceptingHost ⟨[LF], 1, none⟩
        (RuntimeVariables.default []) () RuntimeRcState.new) ∧
      ∀ path, (finalsOf (deliveryBehindCopy.orderedLog acceptingHost ⟨[LF], 1, none⟩
        (RuntimeVariables.default []) () RuntimeRcState.new) path).length ≤ 1) := by
  rintro ⟨-, hone⟩
  exact absurd (hone 0) (by decide +kernel)

end ProcmailRs
