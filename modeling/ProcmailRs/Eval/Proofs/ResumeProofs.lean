import ProcmailRs.Eval.Proofs.ConditionProofs
import ProcmailRs.Eval.Proofs.JournalProofs
import ProcmailRs.Eval.Proofs.PropertyProofs
import ProcmailRs.Eval.RcFile
import ProcmailRs.Lib.Lockstep

/-!
# Resuming a plan

Planning on the header and planning on the complete message go in step until the header no longer
suffices. The frames that are left then lead back to the same place, so that the plan that is resumed
is the plan that would have been made in one pass.

Where a loaded file is deferred the plan is made again, and finds the files that header planning has
loaded as they were prepared then. So the plan that is made again is in step as well: it knows at once
what header planning came to know. From a place where both know the same they cannot part, whatever the
header was taken for.
-/

namespace ProcmailRs

open Outcome Lockstep

variable {κ E : Type}

/-! ### The followers -/

/-- The runs on the complete message that follow header planning. -/
inductive Follower
  | SinglePass
  | Replay
  deriving DecidableEq, Repr

/-- What a follower knows about loaded files where header planning knows `rc` and comes to know `final`.
A plan that is made again counts its transitions anew. -/
def Follower.known (final : RuntimeRcState) : Follower → RuntimeRcState → RuntimeRcState
  | .SinglePass, rc => rc
  | .Replay, rc => { final with transitions := rc.transitions }

namespace HeaderPlanContext

/-- The complete message in place of the header. -/
def complete (message : CompleteMessage) (rc : RuntimeRcState) (context : HeaderPlanContext κ E) :
    CompletePlanContext :=
  ⟨message, context.runtime, context.execution, rc, context.depth⟩

/-- The journal has grown, and what is known about loaded files only where one was asked for. -/
structure Later (context later : HeaderPlanContext κ E) : Prop where
  rc : context.rc.Before later.rc
  journal : ∃ added, later.journal = context.journal ++ added ∧
    ((∀ event ∈ added, event.isLoad = false) → later.rc = context.rc)

namespace Later

variable {context later : HeaderPlanContext κ E}

theorem of_eq (hrc : later.rc = context.rc) (hjournal : later.journal = context.journal) :
    context.Later later :=
  ⟨hrc ▸ RuntimeRcState.composable_before.refl _, [], by rw [hjournal, List.append_nil], fun _ => hrc⟩

theorem record (context : HeaderPlanContext κ E) (event : HeaderEvent) :
    context.Later { context with journal := context.journal ++ [event] } :=
  ⟨RuntimeRcState.composable_before.refl _, [event], rfl, fun _ => rfl⟩

end Later

end HeaderPlanContext

theorem composable_later : Composable (HeaderPlanContext.Later : HeaderPlanContext κ E → _ → Prop) where
  refl _ := .of_eq rfl rfl
  trans := by
    rintro s s' s'' ⟨hrc, added, hjournal, hsame⟩ ⟨hrc', added', hjournal', hsame'⟩
    refine ⟨RuntimeRcState.composable_before.trans hrc hrc', added ++ added', ?_, fun hload => ?_⟩
    · rw [hjournal', hjournal, List.append_assoc]
    · rw [hsame' fun event hmem => hload event (List.mem_append_right _ hmem),
        hsame fun event hmem => hload event (List.mem_append_left _ hmem)]

/-- Header planning, followed by a single pass over the complete message and by a plan that is made again
with everything that is known in the end. The two may be lost only if the plan is made again. -/
def headerCourse (message : CompleteMessage) (final : HeaderPlanContext κ E) :
    Course Follower (HeaderPlanContext κ E) CompletePlanContext where
  view follower context := context.complete message (follower.known final.rc context.rc)
  later := HeaderPlanContext.Later
  composable := composable_later
  final := final
  mayLose := final.restart = true

/-- A test on the header was made in order. -/
def HeaderEvent.TestInOrder (message : CompleteMessage) : HeaderEvent → Prop
  | .Test head conditions failed => InOrder head message failed conditions
  | _ => True

instance (message : CompleteMessage) (event : HeaderEvent) :
    Decidable (event.TestInOrder message) :=
  match event with
  | .Test head conditions failed => inferInstanceAs (Decidable (InOrder head message failed conditions))
  | .Statement _ | .Load _ _ | .Edit _ _ | .Deliver _ _ => isTrue trivial

/-- The tests that were made on the header and matter were made in order: all of them if planning goes
on where it has stopped, and the ones before a file was asked for if the plan is made again. -/
def TestsInOrder (message : CompleteMessage) (restart : Bool) : List HeaderEvent → Prop
  | [] => True
  | event :: after =>
    (restart = false ∨ after.any HeaderEvent.isLoad = true → event.TestInOrder message) ∧
      TestsInOrder message restart after

instance TestsInOrder.decidable (message : CompleteMessage) (restart : Bool) :
    ∀ journal, Decidable (TestsInOrder message restart journal)
  | [] => isTrue trivial
  | _ :: after =>
    have := TestsInOrder.decidable message restart after
    inferInstanceAs (Decidable ((_ → _) ∧ _))

theorem TestsInOrder.at {message : CompleteMessage} {restart : Bool} {event : HeaderEvent}
    {before after : List HeaderEvent}
    (h : TestsInOrder message restart (before ++ event :: after))
    (hmatters : restart = false ∨ after.any HeaderEvent.isLoad = true) : event.TestInOrder message := by
  induction before with
  | nil => exact h.1 hmatters
  | cons first before ih => exact ih h.2

/-- Where header planning ends: no loaded file needs execution in order, and the tests that matter were
made in order. -/
structure GoodRun (message : CompleteMessage) (final : HeaderPlanContext κ E) : Prop where
  unordered : final.rc.dynamicOrderedDelivery = false
  inOrder : TestsInOrder message final.restart final.journal

/-- A place in header planning: the blocks around it, and how many loaded files are around it. -/
structure Place where
  frames : List ContinuationFrame
  depth : Nat

/-- The place inside a block. -/
def Place.below (place : Place) (frame : ContinuationFrame) : Place :=
  { place with frames := place.frames ++ [frame] }

/-- The place inside a loaded file. -/
def Place.inFile (place : Place) : Place := { place with depth := place.depth + 1 }

/-- Header planning on this header at this place. -/
structure AtPlace (head : MessageHead) (place : Place) (context : HeaderPlanContext κ E) : Prop where
  head : context.head = head
  frames : context.frames = place.frames
  restart : context.restart = false
  depth : context.depth = place.depth
  consistent : context.rc.Consistent

/-- What the control of header planning means for planning on the complete message. -/
def HeaderControl.toSequence : HeaderControl → Option SequenceControl
  | .Continue => some .Continue
  | .Stop => some .Stop
  | .EndRcFile => some .EndRcFile
  | .Deferred => none

section Steps

variable {P : Prop} {head : MessageHead} {message : CompleteMessage}
variable {final : HeaderPlanContext κ E} {place : Place}

/-- Where nothing more will be known the followers are the same. -/
theorem together_of_rc_eq {β : Type} {context : HeaderPlanContext κ E} (h : context.rc = final.rc)
    (q : CompletePlan β) : (headerCourse message final).Together q context := by
  have hview (follower : Follower) : (headerCourse message final).view follower context =
      context.complete message final.rc := by
    cases follower with
    | SinglePass =>
      show context.complete message context.rc = _
      rw [h]
    | Replay =>
      show context.complete message { final.rc with transitions := context.rc.transitions } = _
      rw [h]
  intro i j
  rw [hview i, hview j]

/-- If nothing more is known from here on, both followers end in the same way. -/
def SameResults {β : Type} (final context : HeaderPlanContext κ E)
    (results : Follower → EStateM.Result EvalError CompletePlanContext β) : Prop :=
  context.rc = final.rc → ∀ i j, results i = results j

theorem SameResults.andThen {β γ : Type} {context : HeaderPlanContext κ E}
    {results : Follower → EStateM.Result EvalError CompletePlanContext β}
    (h : SameResults final context results) (g : β → CompletePlan γ) :
    SameResults final context fun i => Lockstep.andThen (results i) g := by
  intro hrc i j
  exact congrArg (fun result => Lockstep.andThen result g) (h hrc i j)

/-- Planning was deferred inside a loaded file: the plan is made again from the start. -/
def Restarted {β : Type} (final context : HeaderPlanContext κ E)
    (results : Follower → EStateM.Result EvalError CompletePlanContext β) : Prop :=
  context.restart = true ∧ SameResults final context results

/-- Planning was deferred: the plan is made again from the start, or the frames that were added lead to
the rest of the run. -/
def Deferred {β : Type} (message : CompleteMessage) (final : HeaderPlanContext κ E) (place : Place)
    (resume : List ContinuationFrame → CompletePlan β) (context : HeaderPlanContext κ E)
    (results : Follower → EStateM.Result EvalError CompletePlanContext β) : Prop :=
  SameResults final context results ∧
    (context.restart = true ∨
      ∃ added, added ≠ [] ∧ context.frames = place.frames ++ added ∧ context.depth = place.depth ∧
        resume added (context.complete message context.rc) = results .SinglePass)

theorem Restarted.deferred {β : Type} {resume : List ContinuationFrame → CompletePlan β}
    {context : HeaderPlanContext κ E}
    {results : Follower → EStateM.Result EvalError CompletePlanContext β}
    (h : Restarted final context results) : Deferred message final place resume context results :=
  ⟨h.2, .inl h.1⟩

theorem keeps_evaluate {α : Type} (evaluation : Eval α) :
    Keeps HeaderPlanContext.Later (HeaderPlanContext.evaluate evaluation : HeaderPlan κ E α) := by
  intro s
  unfold Ends HeaderPlanContext.evaluate
  cases evaluation s.runtime with
  | ok value runtime => exact .of_eq rfl rfl
  | error error runtime => exact .of_eq rfl rfl

theorem follows_evaluate {α : Type} (evaluation : Eval α) :
    Follows (headerCourse message final) P (AtPlace head place) some never
      (HeaderPlanContext.evaluate evaluation : HeaderPlan κ E α)
      (CompletePlanContext.evaluate evaluation) where
  later := keeps_evaluate evaluation
  run _ s a s' hplace hrun _ := by
    unfold HeaderPlanContext.evaluate at hrun
    refine .inl ⟨?_, fun h => by cases h⟩
    rintro b ⟨⟩
    cases hvalue : evaluation s.runtime with
    | error error runtime =>
      rw [hvalue] at hrun
      cases hrun
    | ok value runtime =>
      rw [hvalue] at hrun
      cases hrun
      refine ⟨⟨hplace.head, hplace.frames, hplace.restart, hplace.depth, hplace.consistent⟩, ?_⟩
      intro follower
      simp only [CompletePlanContext.evaluate, headerCourse, HeaderPlanContext.complete, hvalue]

theorem keeps_record (event : HeaderEvent) :
    Keeps HeaderPlanContext.Later (HeaderPlanContext.record event : HeaderPlan κ E Unit) :=
  keeps_modify fun s => .record s event

theorem AtPlace.record {s : HeaderPlanContext κ E} (h : AtPlace head place s) (event : HeaderEvent) :
    AtPlace head place { s with journal := s.journal ++ [event] } :=
  ⟨h.head, h.frames, h.restart, h.depth, h.consistent⟩

section Files

variable {L : Type} [RcSource L] (loader : L)

theorem keeps_loadFile (expression : RcFileExpression) (statement : RuntimeRcStatement) :
    Keeps HeaderPlanContext.Later
      (HeaderPlanContext.loadFile loader expression statement : HeaderPlan κ E LoadedRuntimeRc) := by
  intro s
  have hgrows := RcSource.grows loader expression statement s.runtime s.depth s.rc
  have hlater {rc : RuntimeRcState} (h : s.rc.Before rc) : s.Later
      { s with rc := rc, journal := s.journal ++ [.Load expression statement] } := by
    refine ⟨h, [.Load expression statement], rfl, fun hload => ?_⟩
    cases hload _ (List.mem_singleton_self _)
  unfold Ends at hgrows ⊢
  unfold HeaderPlanContext.loadFile
  split at hgrows
  · rename_i heq
    simp only [heq]
    exact hlater hgrows
  · rename_i heq
    simp only [heq]
    exact hlater hgrows

/-- The followers load the same file; it needs no execution in order. -/
theorem follows_loadFile_bind {β γ : Type} {value : γ → Option β}
    {suspended : γ → HeaderPlanContext κ E →
      (Follower → EStateM.Result EvalError CompletePlanContext β) → Prop}
    (hgood : GoodRun message final) (expression : RcFileExpression) (statement : RuntimeRcStatement)
    {f : LoadedRuntimeRc → HeaderPlan κ E γ} {g : LoadedRuntimeRc → CompletePlan β}
    (hempty : Follows (headerCourse message final) P (AtPlace head place) value suspended (f .Empty)
      (g .Empty))
    (hfailed : Follows (headerCourse message final) P (AtPlace head place) value suspended
      (f .Failed) (g .Failed))
    (hsequence : ∀ path sequence,
      Follows (headerCourse message final)
        (P ∧ sequence.properties.requiresOrderedDelivery = false) (AtPlace head place) value
        suspended (f (.Sequence path sequence)) (g (.Sequence path sequence))) :
    Follows (headerCourse message final) P (AtPlace head place) value suspended
      (HeaderPlanContext.loadFile loader expression statement >>= f)
      (CompletePlanContext.loadFile loader expression statement >>= g) := by
  have hlater : ∀ loaded, Keeps HeaderPlanContext.Later (f loaded) := by
    intro loaded
    cases loaded with
    | Empty => exact hempty.later
    | Failed => exact hfailed.later
    | Sequence path sequence => exact (hsequence path sequence).later
  refine ⟨.bind composable_later (keeps_loadFile loader expression statement) hlater,
    ?_⟩
  intro hP s c s'' hplace hrun hfinal
  obtain ⟨loaded, s', hload, hrest⟩ := ok_of_bind hrun
  unfold HeaderPlanContext.loadFile at hload
  split at hload
  · rename_i found rc heq
    cases hload
    -- What is known here is known in the end.
    have hknown : rc.Before final.rc := by
      have hends := hlater loaded
        { s with rc := rc, journal := s.journal ++ [.Load expression statement] }
      rw [Ends, hrest] at hends
      exact (composable_later.trans hends hfinal).rc
    obtain ⟨hconsistent, hcovers⟩ := RcSource.covers heq hplace.consistent
    have hview (follower : Follower) :
        (CompletePlanContext.loadFile loader expression statement >>= g)
            ((headerCourse message final).view follower s) =
          g loaded ((headerCourse message final).view follower
            { s with rc := rc, journal := s.journal ++ [.Load expression statement] }) := by
      refine bind_of_ok ?_ g
      cases follower with
      | SinglePass =>
        simp only [CompletePlanContext.loadFile, headerCourse, HeaderPlanContext.complete,
          Follower.known, heq]
      | Replay =>
        have hreplay := RcSource.replays heq final.rc hknown
        simp only [CompletePlanContext.loadFile, headerCourse, HeaderPlanContext.complete,
          Follower.known, hreplay]
    have hplace' : AtPlace head place
        { s with rc := rc, journal := s.journal ++ [.Load expression statement] } :=
      ⟨hplace.head, hplace.frames, hplace.restart, hplace.depth, hconsistent⟩
    simp only [hview, Course.Together]
    cases loaded with
    | Empty => exact hempty.run hP hplace' hrest hfinal
    | Failed => exact hfailed.run hP hplace' hrest hfinal
    | Sequence path sequence =>
      have hunordered : sequence.properties.requiresOrderedDelivery = false := by
        by_contra hne
        have hordered := hknown.ordered
          ((hcovers path sequence rfl).ordered (Bool.eq_true_of_not_eq_false hne))
        exact absurd (hgood.unordered.symm.trans hordered) (by decide)
      exact (hsequence path sequence).run ⟨hP, hunordered⟩ hplace' hrest hfinal
  · cases hload

end Files

theorem follows_executeRuntimeRc {β γ : Type} {value : γ → Option β} (path : Bytes)
    {suspended : γ → HeaderPlanContext κ E →
      (Follower → EStateM.Result EvalError CompletePlanContext β) → Prop}
    {p : HeaderPlan κ E γ} {q : CompletePlan β}
    (h : Follows (headerCourse message final) P (AtPlace head place.inFile) value suspended p q)
    (hsuspended : ∀ a s r, suspended a s r → SameResults final s r) :
    Follows (headerCourse message final) P (AtPlace head place) value
      (fun _ => SameResults final)
      (HeaderPlanContext.executeRuntimeRc path p) (CompletePlanContext.executeRuntimeRc path q) where
  later := by
    intro s
    have hchild := h.later
      { s with
        depth := s.depth + 1
        runtime := { s.runtime with currentRcFile := some path } }
    unfold Ends at hchild ⊢
    unfold HeaderPlanContext.executeRuntimeRc
    split at hchild
    · rename_i heq
      simp only [heq]
      exact ⟨hchild.rc, hchild.journal⟩
    · rename_i heq
      simp only [heq]
      exact ⟨hchild.rc, hchild.journal⟩
  run hP s a s' hplace hrun hfinal := by
    unfold HeaderPlanContext.executeRuntimeRc at hrun
    split at hrun
    · rename_i value after heq
      cases hrun
      have hentered : AtPlace head place.inFile
          { s with
            depth := s.depth + 1
            runtime := { s.runtime with currentRcFile := some path } } :=
        ⟨hplace.head, hplace.frames, hplace.restart, congrArg (· + 1) hplace.depth,
          hplace.consistent⟩
      rcases h.run hP hentered heq ⟨hfinal.rc, hfinal.journal⟩ with ⟨hstep, hsuspend⟩ |
        ⟨hlose, htogether⟩
      · refine .inl ⟨fun b hb => ?_, fun ha hrc i j => ?_⟩
        · obtain ⟨hplace', hq⟩ := hstep b hb
          refine ⟨⟨hplace'.head, hplace'.frames, hplace'.restart, hplace.depth,
            hplace'.consistent⟩, fun follower => ?_⟩
          have hrun := hq follower
          simp only [headerCourse, CompletePlanContext.executeRuntimeRc,
            HeaderPlanContext.complete] at hrun ⊢
          simp only [hrun]
        · have hsame := hsuspended _ _ _ (hsuspend ha) hrc i j
          simp only [headerCourse, CompletePlanContext.executeRuntimeRc,
            HeaderPlanContext.complete] at hsame ⊢
          simp only [hsame]
      · refine .inr ⟨hlose, fun i j => ?_⟩
        have hsame := htogether i j
        simp only [headerCourse, CompletePlanContext.executeRuntimeRc,
          HeaderPlanContext.complete] at hsame ⊢
        simp only [hsame]
    · cases hrun

theorem keeps_deferRestart (requirements : InputRequirements) :
    Keeps HeaderPlanContext.Later
      (HeaderPlanContext.deferRestart requirements : HeaderPlan κ E HeaderControl) :=
  fun _ => .of_eq rfl rfl


/-- What follows a part that may be deferred: it is planned after each other control, and the deferral is
passed on. -/
theorem follows_pass {β γ : Type} {value : γ → Option β}
    {suspended : HeaderControl → HeaderPlanContext κ E →
      (Follower → EStateM.Result EvalError CompletePlanContext SequenceControl) → Prop}
    {ended : γ → HeaderPlanContext κ E →
      (Follower → EStateM.Result EvalError CompletePlanContext β) → Prop}
    {p : HeaderPlan κ E HeaderControl} {q : CompletePlan SequenceControl}
    {f : HeaderControl → HeaderPlan κ E γ} {g : SequenceControl → CompletePlan β} {c : γ}
    (h : Follows (headerCourse message final) P (AtPlace head place) HeaderControl.toSequence
      suspended p q)
    (hcontinue : Follows (headerCourse message final) P (AtPlace head place) value ended
      (f .Continue) (g .Continue))
    (hstop : Follows (headerCourse message final) P (AtPlace head place) value ended
      (f .Stop) (g .Stop))
    (hend : Follows (headerCourse message final) P (AtPlace head place) value ended
      (f .EndRcFile) (g .EndRcFile))
    (hpure : f .Deferred = pure c) (hc : value c = none)
    (hpass : ∀ s r, suspended .Deferred s r → ended c s fun i => andThen (r i) g) :
    Follows (headerCourse message final) P (AtPlace head place) value ended (p >>= f) (q >>= g) := by
  refine .bind h ?_ ?_
  · intro control control' hcontrol
    cases control with
    | Deferred => cases hcontrol
    | Continue =>
      cases hcontrol
      exact hcontinue
    | Stop =>
      cases hcontrol
      exact hstop
    | EndRcFile =>
      cases hcontrol
      exact hend
  · intro control hcontrol
    cases control with
    | Continue => cases hcontrol
    | Stop => cases hcontrol
    | EndRcFile => cases hcontrol
    | Deferred =>
      rw [hpure]
      refine ⟨.pure composable_later _, ?_⟩
      intro _ s r c' s' hs hrun
      cases hrun
      exact ⟨hc, hpass s r hs⟩

theorem Restarted.andThen {β γ : Type} {context : HeaderPlanContext κ E}
    {results : Follower → EStateM.Result EvalError CompletePlanContext β}
    (h : Restarted final context results) (g : β → CompletePlan γ) :
    Restarted final context fun i => Lockstep.andThen (results i) g :=
  ⟨h.1, h.2.andThen g⟩

/-- Loaded files are planned in step. -/
def FollowsLoaded (message : CompleteMessage) (final : HeaderPlanContext κ E) (head : MessageHead)
    (childHeaders : CompiledSequence → InputRequirements → HeaderPlan κ E HeaderControl)
    (childComplete : CompiledSequence → CompletePlan SequenceControl) : Prop :=
  ∀ sequence following place,
    Follows (headerCourse message final) (sequence.properties.requiresOrderedDelivery = false)
      (AtPlace head place) HeaderControl.toSequence (fun _ => SameResults final)
      (childHeaders sequence following) (childComplete sequence)

section Statements

variable {L : Type} [RcSource L] (loader : L)
variable {childHeaders : CompiledSequence → InputRequirements → HeaderPlan κ E HeaderControl}
variable {childComplete : CompiledSequence → CompletePlan SequenceControl}
variable (hgood : GoodRun message final)
variable (hchild : FollowsLoaded message final head childHeaders childComplete)

include hchild

theorem follows_planLoaded (path : Bytes) (sequence : CompiledSequence)
    (following : InputRequirements) :
    Follows (headerCourse message final) (sequence.properties.requiresOrderedDelivery = false)
      (AtPlace head place) HeaderControl.toSequence (fun _ => Restarted final)
      (planLoaded childHeaders path sequence following)
      (CompletePlanContext.executeRuntimeRc path (childComplete sequence)) := by
  unfold planLoaded
  split_ifs
  · refine ⟨keeps_deferRestart _, ?_⟩
    intro _ s control s' _ hrun _
    cases hrun
    refine .inl ⟨?_, fun _ => ⟨rfl, fun hrc => together_of_rc_eq hrc _⟩⟩
    intro control hcontrol
    cases hcontrol
  · rw [← bind_pure (CompletePlanContext.executeRuntimeRc path (childComplete sequence))]
    refine .bind (follows_executeRuntimeRc path (hchild sequence following place.inFile)
      fun _ _ _ => id) ?_ ?_
    · intro control control' hcontrol
      rw [if_neg (by rintro rfl; cases hcontrol)]
      exact .pure hcontrol
    · intro control hcontrol
      cases control with
      | Deferred =>
        constructor
        · exact .bind composable_later (.get composable_later)
            fun _ => keeps_deferRestart _
        · intro _ s results control s' hsame hrun
          cases hrun
          exact ⟨rfl, rfl, SameResults.andThen hsame pure⟩
      | Continue => cases hcontrol
      | Stop => cases hcontrol
      | EndRcFile => cases hcontrol

include hgood

/-- A statement of a plan that need not be executed in order: it is deferred only inside a file that it
has loaded, and the plan is then made again. -/
theorem follows_planStatement (following : InputRequirements) (statement : CompiledStatement) :
    Follows (headerCourse message final) P (AtPlace head place) HeaderControl.toSequence
      (fun _ => Restarted final)
      (planStatementHeaders loader childHeaders following statement)
      (planStatementComplete loader childComplete statement) := by
  cases statement with
  | CommandAssignment assignment => exact .throw _
  | Assignment assignment => exact .seq (follows_evaluate _) fun _ => .pure rfl
  | Unset unset => exact .seq (follows_evaluate _) fun _ => .pure rfl
  | Host assignment =>
    refine .seq (follows_evaluate _) fun matched => .ite (fun _ => .pure rfl) fun _ => ?_
    refine .seq (.change (fun s => .of_eq rfl rfl) ?_ fun _ _ _ => rfl) fun _ => .pure rfl
    exact fun s hplace => ⟨hplace.head, hplace.frames, hplace.restart, hplace.depth,
      hplace.consistent⟩
  | Include expression =>
    refine follows_loadFile_bind loader hgood expression .Include (.pure rfl) (.pure rfl) ?_
    intro path sequence
    exact follows_pass ((follows_planLoaded hchild path sequence following).when And.right)
      (.pure rfl) (.pure rfl) (.pure rfl) rfl rfl fun _ _ hrestart => hrestart.andThen _
  | Switch expression =>
    refine follows_loadFile_bind loader hgood expression .Switch (.pure rfl) (.pure rfl) ?_
    intro path sequence
    exact follows_pass ((follows_planLoaded hchild path sequence .none).when And.right)
      (.pure rfl) (.pure rfl) (.pure rfl) rfl rfl fun _ _ hrestart => hrestart.andThen _

theorem follows_planStatements (following : InputRequirements)
    (statements : List CompiledStatement) :
    Follows (headerCourse message final) P (AtPlace head place) HeaderControl.toSequence
      (fun _ => Restarted final)
      (planStatementsHeaders loader childHeaders following statements)
      (planStatementsComplete loader childComplete statements) := by
  induction statements with
  | nil => exact .pure rfl
  | cons statement rest ih =>
    refine .change_leader (fun s => .record s _) (fun s hplace => hplace.record _) ?_ ?_
    · intro follower s
      cases follower with
      | SinglePass => rfl
      | Replay => rfl
    · exact follows_pass (follows_planStatement loader hgood hchild following statement) ih
        (.pure rfl) (.pure rfl) rfl rfl fun _ _ hrestart => hrestart.andThen _

end Statements

/-! ### Recipes -/

/-- What a test on the header means for one on the complete message. -/
def testValue : PartialMatch × List (Option Bool) → Option Bool
  | (.True, _) => some true
  | (.False, _) => some false
  | (.Deferred, _) => none

/-- A test that was deferred: the rest of it decides as the whole test would. -/
structure TestDeferred (message : CompleteMessage) (final : HeaderPlanContext κ E) (place : Place)
    (gate : Bool) (conditions : List CompiledCondition)
    (test : PartialMatch × List (Option Bool)) (context : HeaderPlanContext κ E)
    (results : Follower → EStateM.Result EvalError CompletePlanContext Bool) : Prop where
  same : SameResults final context results
  gate : gate = true
  frames : context.frames = place.frames
  depth : context.depth = place.depth
  resumed : CompletePlanContext.evaluate (matchesResumed message test.2 conditions)
    (context.complete message context.rc) = results .SinglePass

theorem isResolved_of_unordered {condition : CompiledCondition}
    (h : condition.properties.requiresOrderedDelivery = false) : condition.isResolved = true := by
  cases condition with
  | Resolved condition => rfl
  | ShellExpanded line negated condition => cases h

theorem testHeaders_ok {conditions : List CompiledCondition} {s s' : HeaderPlanContext κ E}
    {test : PartialMatch × List (Option Bool)} (h : testHeaders true conditions s = .ok test s') :
    ∃ runtime, matchesHeaders s.head conditions s.runtime = .ok test runtime ∧
      s' = { s with
        runtime := runtime
        journal := s.journal ++
          [.Test s.head (conditions.take test.2.length) (test.1 == .False)] } := by
  rw [testHeaders, if_pos rfl] at h
  obtain ⟨context, s₁, hget, h⟩ := ok_of_bind h
  cases hget
  obtain ⟨⟨matched, results⟩, s₂, hevaluate, h⟩ := ok_of_bind h
  cases h
  unfold HeaderPlanContext.evaluate at hevaluate
  split at hevaluate
  · rename_i runtime heq
    cases hevaluate
    exact ⟨runtime, heq, rfl⟩
  · cases hevaluate

theorem keeps_test (gate : Bool) (conditions : List CompiledCondition) :
    Keeps HeaderPlanContext.Later (testHeaders gate conditions : HeaderPlan κ E _) := by
  unfold testHeaders
  refine .ite ?_ (.pure composable_later _)
  refine .bind composable_later (.get composable_later) fun context => ?_
  refine .bind composable_later (keeps_evaluate _) fun result => ?_
  exact .bind composable_later (keeps_record _) fun _ =>
    .pure composable_later _

/-- A test that was made on the header was made in order, or nothing more is known from there on and the
plan is made again. -/
theorem inOrder_or_known (hgood : GoodRun message final) {s : HeaderPlanContext κ E}
    {conditions : List CompiledCondition} {failed : Bool} {journal : List HeaderEvent}
    (hjournal : s.journal = journal ++ [.Test head conditions failed])
    (hfinal : s.Later final) :
    InOrder head message failed conditions ∨ final.restart = true ∧ s.rc = final.rc := by
  obtain ⟨added, hadded, hsame⟩ := hfinal.journal
  rw [hjournal, List.append_assoc, List.singleton_append] at hadded
  have horder := hgood.inOrder
  rw [hadded] at horder
  by_cases hrestart : final.restart = true
  · by_cases hload : added.any HeaderEvent.isLoad = true
    · exact .inl (horder.at (.inr hload))
    · refine .inr ⟨hrestart, (hsame fun event hmem => ?_).symm⟩
      exact Bool.eq_false_of_not_eq_true fun hisLoad =>
        hload (List.any_eq_true.mpr ⟨event, hmem, hisLoad⟩)
  · exact .inl (horder.at (.inl (Bool.eq_false_of_not_eq_true hrestart)))

theorem follows_test (hgood : GoodRun message final) (hbegins : Begins head message) (gate : Bool)
    (conditions : List CompiledCondition) :
    Follows (headerCourse message final)
      (∀ condition ∈ conditions, condition.properties.requiresOrderedDelivery = false)
      (AtPlace head place) testValue (TestDeferred message final place gate conditions)
      (testHeaders gate conditions : HeaderPlan κ E _) (testComplete gate conditions) := by
  cases gate with
  | false => exact .pure rfl
  | true =>
    refine ⟨keeps_test true conditions, ?_⟩
    intro hunordered s test s' hplace hrun hfinal
    obtain ⟨matched, results⟩ := test
    obtain ⟨runtime, htest, rfl⟩ := testHeaders_ok hrun
    rw [hplace.head] at htest hfinal
    rcases inOrder_or_known hgood rfl hfinal with horder | ⟨hrestart, hrc⟩
    · have hagrees := matchesHeaders_agrees hbegins
        (fun condition hmem => isResolved_of_unordered (hunordered condition hmem)) htest horder
      have hevaluate : ∀ b, matchesComplete message conditions s.runtime = .ok b runtime →
          ∀ follower, testComplete true conditions ((headerCourse message final).view follower s) =
            .ok b { (headerCourse message final).view follower s with runtime := runtime } := by
        intro b hb follower
        show CompletePlanContext.evaluate (matchesComplete message conditions)
          ((headerCourse message final).view follower s) = _
        simp only [CompletePlanContext.evaluate, headerCourse, HeaderPlanContext.complete, hb]
      have hplace' (journal : List HeaderEvent) :
          AtPlace head place { s with runtime := runtime, journal := journal } :=
        ⟨hplace.head, hplace.frames, hplace.restart, hplace.depth, hplace.consistent⟩
      left
      cases matched with
      | True =>
        refine ⟨?_, fun h => by cases h⟩
        rintro _ ⟨⟩
        exact ⟨hplace' _, hevaluate true hagrees⟩
      | False =>
        refine ⟨?_, fun h => by cases h⟩
        rintro _ ⟨⟩
        exact ⟨hplace' _, hevaluate false hagrees⟩
      | Deferred =>
        constructor
        · intro b hb
          cases hb
        · intro _
          refine ⟨fun hrc => together_of_rc_eq (show s.rc = final.rc from hrc) _, rfl, hplace.frames,
            hplace.depth, ?_⟩
          have hagrees' : matchesResumed message results conditions runtime =
              matchesComplete message conditions s.runtime := hagrees
          show _ = CompletePlanContext.evaluate (matchesComplete message conditions)
            ((headerCourse message final).view .SinglePass s)
          simp only [CompletePlanContext.evaluate, headerCourse, HeaderPlanContext.complete,
            Follower.known, hagrees']
    · exact .inr ⟨hrestart, together_of_rc_eq (show s.rc = final.rc from hrc) _⟩

/-- What the result of an action means: that it was executed, and the control. -/
def actionValue (result : ActionExecution × HeaderControl) :
    Option (ActionExecution × SequenceControl) :=
  result.2.toSequence.map (result.1, ·)

theorem keeps_liftExcept {ε α : Type} (wrap : ε → OrderedExecutionError E) (x : Except ε α) :
    Keeps HeaderPlanContext.Later (liftExcept wrap x : HeaderPlan κ E α) := by
  cases x with
  | ok value => exact .pure composable_later value
  | error error => exact .throw composable_later (wrap error)

/-- A change that leaves the journal and what is known alone. -/
theorem keeps_change {g : HeaderPlanContext κ E → HeaderPlanContext κ E}
    (hrc : ∀ s, (g s).rc = s.rc) (hjournal : ∀ s, (g s).journal = s.journal) :
    Keeps HeaderPlanContext.Later (modify g : HeaderPlan κ E PUnit) :=
  keeps_modify fun s => .of_eq (hrc s) (hjournal s)

theorem keeps_planHeaderEdit (line : Nat)
    (resolveWith : Lookup → Except ExpansionError HeaderAction) :
    Keeps HeaderPlanContext.Later (planHeaderEdit line resolveWith : HeaderPlan κ E _) := by
  refine .bind composable_later (.get composable_later) fun context => ?_
  refine .bind composable_later (keeps_liftExcept _ _) fun action => ?_
  refine .bind composable_later (keeps_liftExcept _ _) fun applied => ?_
  refine .bind composable_later (keeps_change (fun _ => rfl) fun _ => rfl) fun _ => ?_
  exact .bind composable_later (keeps_record _) fun _ =>
    .pure composable_later _

theorem keeps_planHeaderCapture (capture : HeaderCaptureExecutor κ E) (action : CaptureAction)
    (options : RecipeOptions) :
    Keeps HeaderPlanContext.Later (planHeaderCapture capture action options) := by
  refine .bind composable_later (.get composable_later) fun context => ?_
  refine .bind composable_later (keeps_liftExcept _ _) fun limit => ?_
  refine .bind composable_later ?_ fun captured => ?_
  · intro s
    unfold Ends
    dsimp only
    split
    · rename_i heq
      split at heq <;> cases heq <;> exact .of_eq rfl rfl
    · rename_i heq
      split at heq <;> cases heq
  · cases captured with
    | ok output =>
      refine .bind composable_later (keeps_liftExcept _ _) fun value => ?_
      exact .bind composable_later (keeps_change (fun _ => rfl) fun _ => rfl) fun _ =>
        .pure composable_later _
    | error error =>
      cases error with
      | Recoverable error =>
        exact .bind composable_later (keeps_change (fun _ => rfl) fun _ => rfl) fun _ =>
          .pure composable_later _
      | Fatal error => exact .throw composable_later _

theorem toSequence_planControl (continuation : ContinuationMode) (hasErrorHandler : Bool) :
    (HeaderControl.from (planControl continuation hasErrorHandler)).toSequence =
      some (planControl continuation hasErrorHandler) := by
  unfold planControl
  split_ifs
  · rfl
  · rfl

theorem follows_deliver (hbegins : Begins head message) {suspended :
      ActionExecution × HeaderControl → HeaderPlanContext κ E →
        (Follower → EStateM.Result EvalError CompletePlanContext
          (ActionExecution × SequenceControl)) → Prop}
    (recipe : CompiledNode) (destination : Destination) (continuation : ContinuationMode)
    (outputEnding : OutputEnding) (hasErrorHandler : Bool) :
    Follows (headerCourse message final) P (AtPlace head place) actionValue suspended
      (planHeaderDeliver recipe destination continuation outputEnding hasErrorHandler :
        HeaderPlan κ E _)
      (do
        let control ← planDeliver recipe destination continuation outputEnding hasErrorHandler
        return (.Succeeded, control)) where
  later := by
    refine .bind composable_later (.get composable_later) fun context => ?_
    refine .bind composable_later (keeps_liftExcept _ _) fun delivery => ?_
    refine .bind composable_later (keeps_record _) fun _ => ?_
    exact .bind composable_later (keeps_change (fun _ => rfl) fun _ => rfl) fun _ =>
      .pure composable_later _
  run _ s result s' hplace hrun _ := by
    obtain ⟨context, s₁, hget, hrun⟩ := ok_of_bind hrun
    cases hget
    obtain ⟨delivery, s₂, hdelivery, hrun⟩ := ok_of_bind hrun
    rw [hplace.head, hbegins.status] at hdelivery
    have hfrom := toSequence_planControl continuation hasErrorHandler
    cases hplanned : planDelivery recipe destination continuation outputEnding message.status
        s.runtime with
    | error error =>
      rw [hplanned] at hdelivery
      cases hdelivery
    | ok planned =>
      rw [hplanned] at hdelivery
      cases hdelivery
      cases hrun
      have hdeliver : ∀ follower,
          planDeliver recipe destination continuation outputEnding hasErrorHandler
              ((headerCourse message final).view follower s) =
            .ok (planControl continuation hasErrorHandler)
              { (headerCourse message final).view follower s with
                execution := s.execution.push delivery } := by
        intro follower
        have hget : (get : CompletePlan CompletePlanContext)
            ((headerCourse message final).view follower s) =
              .ok ((headerCourse message final).view follower s)
                ((headerCourse message final).view follower s) := rfl
        rw [planDeliver, bind_of_ok hget]
        change (liftExcept id (planDelivery recipe destination continuation outputEnding
          message.status s.runtime) >>= _) _ = _
        rw [hplanned]
        rfl
      left
      constructor
      · intro control hcontrol
        rw [actionValue, hfrom] at hcontrol
        cases hcontrol
        refine ⟨⟨hplace.head, hplace.frames, hplace.restart, hplace.depth, hplace.consistent⟩, ?_⟩
        intro follower
        rw [bind_of_ok (hdeliver follower)]
        rfl
      · intro hnone
        rw [actionValue, hfrom] at hnone
        cases hnone

/-- A block is planned below its frame. -/
theorem follows_withFrame {β : Type} {value : HeaderControl → Option β}
    {suspended : HeaderControl → HeaderPlanContext κ E →
      (Follower → EStateM.Result EvalError CompletePlanContext β) → Prop}
    (hvalue : ∀ control, value control = none ↔ control = .Deferred) (frame : ContinuationFrame)
    {body : HeaderPlan κ E HeaderControl} {q : CompletePlan β}
    (h : Follows (headerCourse message final) P (AtPlace head (place.below frame)) value suspended
      body q) :
    Follows (headerCourse message final) P (AtPlace head place) value suspended
      (HeaderPlanContext.withFrame frame body) q where
  later := by
    refine .bind composable_later (keeps_change (fun _ => rfl) fun _ => rfl) fun _ => ?_
    refine .bind composable_later h.later fun control => ?_
    exact .ite (.bind composable_later (keeps_change (fun _ => rfl) fun _ => rfl) fun _ =>
      .pure composable_later _)
      (.pure composable_later _)
  run hP s control s' hplace hrun hfinal := by
    obtain ⟨⟨⟩, s₁, hpush, hrun⟩ := ok_of_bind hrun
    cases hpush
    obtain ⟨control', s₂, hbody, hrun⟩ := ok_of_bind hrun
    have hentered : AtPlace head (place.below frame) { s with frames := s.frames ++ [frame] } :=
      ⟨hplace.head, by simp only [hplace.frames, Place.below], hplace.restart, hplace.depth,
        hplace.consistent⟩
    by_cases hdeferred : control' = .Deferred
    · rw [if_neg (not_not.mpr hdeferred)] at hrun
      cases hrun
      rcases h.run hP hentered hbody hfinal with ⟨-, hsuspend⟩ | hlost
      · refine .inl ⟨fun b hb => ?_, hsuspend⟩
        rw [(hvalue _).mpr hdeferred] at hb
        cases hb
      · exact .inr hlost
    · rw [if_pos hdeferred] at hrun
      cases hrun
      rcases h.run hP hentered hbody ⟨hfinal.rc, hfinal.journal⟩ with ⟨hstep, -⟩ | hlost
      · refine .inl ⟨fun b hb => ?_, fun hnone => absurd ((hvalue _).mp hnone) hdeferred⟩
        obtain ⟨hplace', hq⟩ := hstep b hb
        refine ⟨⟨hplace'.head, ?_, hplace'.restart, hplace'.depth, hplace'.consistent⟩, hq⟩
        simp only [hplace'.frames, Place.below, List.dropLast_concat]
      · exact .inr hlost

section Trees

variable {L : Type} [RcSource L] (loader : L) (capture : HeaderCaptureExecutor κ E)
variable {childHeaders : CompiledSequence → InputRequirements → HeaderPlan κ E HeaderControl}
variable {childComplete : CompiledSequence → CompletePlan SequenceControl}

/-- An action that was deferred is a block, deferred below its frame. -/
def ActionDeferred (childComplete : CompiledSequence → CompletePlan SequenceControl)
    (loader : L) (message : CompleteMessage) (final : HeaderPlanContext κ E) (place : Place)
    (frame : ContinuationFrame) (action : CompiledAction) (context : HeaderPlanContext κ E)
    (results : Follower →
      EStateM.Result EvalError CompletePlanContext (ActionExecution × SequenceControl)) : Prop :=
  SameResults final context results ∧
    (context.restart = true ∨
      ∃ children added, action = .Block children ∧ added ≠ [] ∧
        context.frames = place.frames ++ frame :: added ∧ context.depth = place.depth ∧
        (do
          let control ← resumeFromFrames loader childComplete added children
          return (ActionExecution.Succeeded, control)) (context.complete message context.rc) =
          results .SinglePass)

/-- The rest of a sequence behind the test of one of its recipes. -/
def planRest (childComplete : CompiledSequence → CompletePlan SequenceControl)
    (loader : L) (trailing : List CompiledStatement) (state : SequenceState)
    (recipe : CompiledNode) (rest : List CompiledNode) (conditionsMatched : Bool) :
    CompletePlan SequenceControl := do
  let control ← planSelected conditionsMatched
    (planNode loader childComplete (hasErrorHandler rest) recipe)
  if control ≠ .Continue then return control
  planCompleteFrom loader childComplete trailing
    (state.record recipe.control conditionsMatched (plannedExecution conditionsMatched)
      (recipe.elseHandled state conditionsMatched)) rest

theorem planCompleteFrom_cons (trailing : List CompiledStatement) (state : SequenceState)
    (recipe : CompiledNode) (rest : List CompiledNode) :
    planCompleteFrom loader childComplete trailing state (recipe :: rest) = (do
      let control ← planStatementsComplete loader childComplete recipe.precedingStatements
      if control ≠ .Continue then return control
      let conditionsMatched ← testComplete (recipe.planningGate state) recipe.conditions
      planRest childComplete loader trailing state recipe rest conditionsMatched) := by
  rw [planCompleteFrom]
  rfl

/-- The last frame: the test goes on, and then the rest of the sequence. -/
theorem resumeFromFrames_last {sequence : CompiledSequence} {index : Nat} {recipe : CompiledNode}
    {rest : List CompiledNode} (hdrop : sequence.recipes.drop index = recipe :: rest)
    (state : PlanningState) (results : List (Option Bool))
    (hgate : recipe.planningGate state.toSequenceState = true) :
    resumeFromFrames loader childComplete [⟨index, state, results, true⟩] sequence = (do
      let conditionsMatched ← fun context => CompletePlanContext.evaluate
        (matchesResumed context.message results recipe.conditions) context
      planRest childComplete loader sequence.trailingStatements state.toSequenceState recipe rest
        conditionsMatched) := by
  rw [resumeFromFrames]
  simp only [hdrop, resumeStatements, if_true, resumeRecipe, hgate, planRest, pure_bind, bind_assoc,
    ne_eq, not_true, if_false]
  rfl

/-- A frame of a block: the block is resumed, and then the rest of the sequence. -/
theorem resumeFromFrames_block {sequence : CompiledSequence} {index : Nat} {recipe : CompiledNode}
    {rest : List CompiledNode} (hdrop : sequence.recipes.drop index = recipe :: rest)
    {children : CompiledSequence} (hblock : recipe.action = .Block children) (state : PlanningState)
    (results : List (Option Bool)) {added : List ContinuationFrame} (hadded : added ≠ []) :
    resumeFromFrames loader childComplete (⟨index, state, results, true⟩ :: added) sequence = (do
      let control ← resumeFromFrames loader childComplete added children
      if control ≠ .Continue then return control
      planCompleteFrom loader childComplete sequence.trailingStatements
        (state.record recipe true .Succeeded).toSequenceState rest) := by
  obtain ⟨frame, others, rfl⟩ := List.exists_cons_of_ne_nil hadded
  conv_lhs => rw [resumeFromFrames]
  simp only [hdrop, resumeStatements, if_true, hblock, pure_bind, bind_assoc, ne_eq, not_true,
    if_false, plannedExecution]

/-- A selected recipe, given how its action is planned. -/
theorem follows_selected {recipe : CompiledNode} {frame : ContinuationFrame}
    {following : InputRequirements} {hasErrorHandler conditionsMatched : Bool}
    (h : Follows (headerCourse message final) P (AtPlace head place) actionValue
      (fun _ => ActionDeferred childComplete loader message final place frame recipe.action)
      (planHeadersNode loader childHeaders capture frame following hasErrorHandler recipe)
      (do
        let control ← planNode loader childComplete hasErrorHandler recipe
        return (.Succeeded, control))) :
    Follows (headerCourse message final) P (AtPlace head place) actionValue
      (fun _ context results => conditionsMatched = true ∧
        ActionDeferred childComplete loader message final place frame recipe.action context results)
      (planHeaderSelected conditionsMatched
        (planHeadersNode loader childHeaders capture frame following hasErrorHandler recipe))
      (do
        let control ← planSelected conditionsMatched
          (planNode loader childComplete hasErrorHandler recipe)
        return (plannedExecution conditionsMatched, control)) := by
  cases conditionsMatched with
  | true => exact h.mono id fun _ _ _ _ hdeferred => ⟨rfl, hdeferred⟩
  | false => exact .pure rfl

theorem deliveryDefersHeader_of_unordered {action : CompiledAction}
    (h : action.properties.requiresOrderedDelivery = false) : action.deliveryDefersHeader = false := by
  cases action with
  | Pipe command options =>
    rw [CompiledAction.properties] at h
    cases h
  | Capture action options =>
    rw [CompiledAction.properties] at h
    split_ifs at h
  | Deliver destination continuation outputEnding =>
    rw [CompiledAction.properties] at h
    exact h
  | Block children => rfl
  | Headers resolveWith => rfl

/-- An error that is cleared changes nothing that matters here. -/
theorem follows_clearPendingError {β γ : Type} {value : γ → Option β}
    {suspended : γ → HeaderPlanContext κ E →
      (Follower → EStateM.Result EvalError CompletePlanContext β) → Prop}
    (action : ActionExecution) {f : PUnit → HeaderPlan κ E γ} {q : CompletePlan β}
    (hf : Follows (headerCourse message final) P (AtPlace head place) value suspended (f ⟨⟩) q) :
    Follows (headerCourse message final) P (AtPlace head place) value suspended
      (clearPendingError action >>= f) q := by
  refine .change_leader (fun s => ?_) (fun s hplace => ?_) (fun follower s => ?_) hf
  · split_ifs
    · exact .of_eq rfl rfl
    · exact .of_eq rfl rfl
  · split_ifs
    · exact ⟨hplace.head, hplace.frames, hplace.restart, hplace.depth, hplace.consistent⟩
    · exact hplace
  · cases follower with
    | SinglePass =>
      split_ifs
      · rfl
      · rfl
    | Replay =>
      split_ifs
      · rfl
      · rfl

/-- The recipes from one whose conditions have been tested. -/
theorem follows_rest {trailing : List CompiledStatement} {following : InputRequirements}
    {sequence : CompiledSequence} {recipe : CompiledNode} {rest : List CompiledNode}
    {state : PlanningState} {index : Nat} (conditionsMatched : Bool)
    (hdrop : sequence.recipes.drop index = recipe :: rest)
    (htrailing : sequence.trailingStatements = trailing)
    (hnode : Follows (headerCourse message final) P (AtPlace head place) actionValue
      (fun _ => ActionDeferred childComplete loader message final place ⟨index, state, [], true⟩
        recipe.action)
      (planHeadersNode loader childHeaders capture ⟨index, state, [], true⟩
        ((requirementsFrom rest trailing).union following) (hasErrorHandler rest) recipe)
      (do
        let control ← planNode loader childComplete (hasErrorHandler rest) recipe
        return (.Succeeded, control)))
    (hrest : ∀ state : PlanningState, Follows (headerCourse message final) P (AtPlace head place)
      HeaderControl.toSequence
      (fun _ => Deferred message final place fun added =>
        resumeFromFrames loader childComplete added sequence)
      (planHeadersFrom loader childHeaders capture trailing following state (index + 1) rest)
      (planCompleteFrom loader childComplete trailing state.toSequenceState rest)) :
    Follows (headerCourse message final) P (AtPlace head place) HeaderControl.toSequence
      (fun _ => Deferred message final place fun added =>
        resumeFromFrames loader childComplete added sequence)
      (do
        let (action, control) ← planHeaderSelected conditionsMatched
          (planHeadersNode loader childHeaders capture ⟨index, state, [], true⟩
            ((requirementsFrom rest trailing).union following) (hasErrorHandler rest) recipe)
        if control = .Deferred then return .Deferred
        clearPendingError action
        if control ≠ .Continue then return control
        planHeadersFrom loader childHeaders capture trailing following
          (state.record recipe conditionsMatched action) (index + 1) rest)
      (planRest childComplete loader trailing state.toSequenceState recipe rest
        conditionsMatched) := by
  have hplan : planRest childComplete loader trailing state.toSequenceState recipe rest
      conditionsMatched = (do
      let (action, control) ← (do
        let control ← planSelected conditionsMatched
          (planNode loader childComplete (hasErrorHandler rest) recipe)
        return (plannedExecution conditionsMatched, control))
      if control ≠ .Continue then return control
      planCompleteFrom loader childComplete trailing
        (state.record recipe conditionsMatched action).toSequenceState rest) := by
    simp only [planRest, bind_assoc, pure_bind]
    rfl
  rw [hplan]
  refine .bind (follows_selected loader capture hnode) ?_ ?_
  · rintro ⟨action, control⟩ ⟨action', control'⟩ hvalue
    cases control with
    | Deferred => cases hvalue
    | Continue =>
      cases hvalue
      exact follows_clearPendingError action (hrest _)
    | Stop =>
      cases hvalue
      exact follows_clearPendingError action (.pure rfl)
    | EndRcFile =>
      cases hvalue
      exact follows_clearPendingError action (.pure rfl)
  · rintro ⟨action, control⟩ hvalue
    cases control with
    | Continue => cases hvalue
    | Stop => cases hvalue
    | EndRcFile => cases hvalue
    | Deferred =>
      refine ⟨.pure composable_later _, ?_⟩
      rintro _ s results control s' ⟨rfl, hsame, hdeferred⟩ hrun
      cases hrun
      refine ⟨rfl, hsame.andThen _, ?_⟩
      rcases hdeferred with hrestart | ⟨children, added, hblock, hadded, hframes, hdepth, hresumed⟩
      · exact .inl hrestart
      · refine .inr ⟨⟨index, state, [], true⟩ :: added, List.cons_ne_nil _ _, hframes, hdepth, ?_⟩
        simp only [resumeFromFrames_block loader hdrop hblock state [] hadded, htrailing]
        rw [← hresumed, ← bind_apply, bind_assoc]
        rfl

theorem follows_from_cons (hgood : GoodRun message final) (hbegins : Begins head message)
    (hchild : FollowsLoaded message final head childHeaders childComplete)
    {trailing : List CompiledStatement} {following : InputRequirements}
    {sequence : CompiledSequence} {recipe : CompiledNode} {rest : List CompiledNode}
    {state : PlanningState} {index : Nat}
    (hdrop : sequence.recipes.drop index = recipe :: rest)
    (htrailing : sequence.trailingStatements = trailing)
    (hnode : Follows (headerCourse message final)
      (recipe.lock = none ∧ recipe.action.properties.requiresOrderedDelivery = false)
      (AtPlace head place) actionValue
      (fun _ => ActionDeferred childComplete loader message final place ⟨index, state, [], true⟩
        recipe.action)
      (planHeadersNode loader childHeaders capture ⟨index, state, [], true⟩
        ((requirementsFrom rest trailing).union following) (hasErrorHandler rest) recipe)
      (do
        let control ← planNode loader childComplete (hasErrorHandler rest) recipe
        return (.Succeeded, control)))
    (hrest : ∀ state : PlanningState, Follows (headerCourse message final)
      ((recipesProperties rest).requiresOrderedDelivery = false) (AtPlace head place)
      HeaderControl.toSequence
      (fun _ => Deferred message final place fun added =>
        resumeFromFrames loader childComplete added sequence)
      (planHeadersFrom loader childHeaders capture trailing following state (index + 1) rest)
      (planCompleteFrom loader childComplete trailing state.toSequenceState rest)) :
    Follows (headerCourse message final)
      ((recipesProperties (recipe :: rest)).requiresOrderedDelivery = false) (AtPlace head place)
      HeaderControl.toSequence
      (fun _ => Deferred message final place fun added =>
        resumeFromFrames loader childComplete added sequence)
      (planHeadersFrom loader childHeaders capture trailing following state index (recipe :: rest))
      (planCompleteFrom loader childComplete trailing state.toSequenceState (recipe :: rest)) := by
  have hrecipe : (recipesProperties (recipe :: rest)).requiresOrderedDelivery = false →
      recipe.Unordered := fun h =>
    CompiledNode.unordered
      ((PlanProperties.flag_recipes PlanProperties.isFlag_requiresOrderedDelivery _ _).mp h).1
  have hothers : (recipesProperties (recipe :: rest)).requiresOrderedDelivery = false →
      (recipesProperties rest).requiresOrderedDelivery = false := fun h =>
    ((PlanProperties.flag_recipes PlanProperties.isFlag_requiresOrderedDelivery _ _).mp h).2
  have hselected := fun conditionsMatched => follows_rest loader capture conditionsMatched hdrop
    htrailing
    (hnode.when fun h => ⟨(hrecipe h).lock, (hrecipe h).action⟩)
    (fun state => (hrest state).when hothers)
  have hdeferAt : ∀ results needed, Keeps HeaderPlanContext.Later
      (HeaderPlanContext.deferAt ⟨index, state, results, true⟩ needed : HeaderPlan κ E _) :=
    fun _ _ _ => .of_eq rfl rfl
  rw [planHeadersFrom, planCompleteFrom_cons]
  refine follows_pass (follows_planStatements loader hgood hchild _ _) ?_ (.pure rfl) (.pure rfl)
    rfl rfl fun _ _ hrestart => (hrestart.andThen _).deferred
  refine .bind ((follows_test hgood hbegins _ _).when fun h => (hrecipe h).conditions) ?_ ?_
  · rintro ⟨matched, results⟩ conditionsMatched hvalue
    cases matched with
    | Deferred => cases hvalue
    | False =>
      cases hvalue
      exact hselected false
    | True =>
      cases hvalue
      cases hdefers : recipe.action.deliveryDefersHeader with
      | false => exact hselected true
      | true =>
        refine .of_not ?_ fun h => ?_
        · exact hdeferAt results _
        · rw [deliveryDefersHeader_of_unordered (hrecipe h).action] at hdefers
          cases hdefers
  · rintro ⟨matched, results⟩ hvalue
    cases matched with
    | True => cases hvalue
    | False => cases hvalue
    | Deferred =>
      refine ⟨hdeferAt results _, ?_⟩
      intro _ s tested control s' htest hrun
      cases hrun
      refine ⟨rfl, htest.same.andThen _, .inr ⟨[⟨index, state, results, true⟩],
        List.cons_ne_nil _ _, ?_, htest.depth, ?_⟩⟩
      · simp only [htest.frames]
      · simp only [resumeFromFrames_last loader hdrop state results htest.gate, htrailing]
        refine (bind_apply _ _ _).trans ?_
        rw [← htest.resumed]
        rfl

mutual

theorem follows_action
    (hgood : GoodRun message final) (hbegins : Begins head message)
    (hchild : FollowsLoaded message final head childHeaders childComplete)
    (recipe : CompiledNode) (frame : ContinuationFrame)
    (following : InputRequirements) (hasErrorHandler : Bool) :
    ∀ (action : CompiledAction) (place : Place),
      Follows (headerCourse message final)
        (recipe.lock = none ∧ action.properties.requiresOrderedDelivery = false)
        (AtPlace head place) actionValue
        (fun _ => ActionDeferred childComplete loader message final place frame action)
        (planHeadersAction loader childHeaders capture recipe frame following hasErrorHandler action)
        (do
          let control ← planAction loader childComplete recipe hasErrorHandler action
          return (.Succeeded, control))
  | .Pipe command options, place => by
    unfold planHeadersAction
    exact .throw _
  | .Capture action options, place => by
    unfold planHeadersAction
    refine .of_not (keeps_planHeaderCapture capture action options) fun h => ?_
    have hordered := h.2
    rw [CompiledAction.properties] at hordered
    split_ifs at hordered
  | .Headers resolveWith, place => by
    unfold planHeadersAction
    refine .of_not (keeps_planHeaderEdit recipe.line resolveWith) fun h => ?_
    have hordered := h.2
    rw [CompiledAction.properties] at hordered
    cases hordered
  | .Deliver destination continuation outputEnding, place => by
    unfold planHeadersAction planAction
    exact follows_deliver hbegins recipe destination continuation outputEnding hasErrorHandler
  | .Block children, place => by
    unfold planHeadersAction planAction
    have hchildren := follows_sequence hgood hbegins hchild following children (place.below frame)
    have hbody := follows_withFrame
      (by intro control; cases control <;> simp [HeaderControl.toSequence]) frame hchildren
    cases hlock : recipe.lock with
    | some lock =>
      refine .of_not ?_ fun h => by cases h.1
      exact .bind composable_later hbody.later fun _ => .pure composable_later _
    | none =>
      have hplan : planBlock recipe (planComplete loader childComplete children) =
          planComplete loader childComplete children := by
        simp [planBlock, hlock]
      rw [hplan]
      refine follows_pass (hbody.when fun h => ?_) (.pure rfl) (.pure rfl) (.pure rfl) rfl rfl ?_
      · have hordered := h.2
        rwa [CompiledAction.properties] at hordered
      · rintro s results ⟨hsame, hdeferred⟩
        refine ⟨hsame.andThen _, ?_⟩
        rcases hdeferred with hrestart | ⟨added, hadded, hframes, hdepth, hresume⟩
        · exact .inl hrestart
        · refine .inr ⟨children, added, rfl, hadded, ?_, hdepth, ?_⟩
          · rw [hframes, Place.below, List.append_assoc]
            rfl
          · rw [bind_apply, show resumeFromFrames loader childComplete added children
              (s.complete message s.rc) = results .SinglePass from hresume]

theorem follows_node
    (hgood : GoodRun message final) (hbegins : Begins head message)
    (hchild : FollowsLoaded message final head childHeaders childComplete)
    (frame : ContinuationFrame) (following : InputRequirements)
    (hasErrorHandler : Bool) : ∀ (recipe : CompiledNode) (place : Place),
      Follows (headerCourse message final)
        (recipe.lock = none ∧ recipe.action.properties.requiresOrderedDelivery = false)
        (AtPlace head place) actionValue
        (fun _ => ActionDeferred childComplete loader message final place frame recipe.action)
        (planHeadersNode loader childHeaders capture frame following hasErrorHandler recipe)
        (do
          let control ← planNode loader childComplete hasErrorHandler recipe
          return (.Succeeded, control))
  | ⟨_, _, _, _, _, _, _, action⟩, place => by
    unfold planHeadersNode planNode
    exact follows_action hgood hbegins hchild _ frame following hasErrorHandler action place

theorem follows_from
    (hgood : GoodRun message final) (hbegins : Begins head message)
    (hchild : FollowsLoaded message final head childHeaders childComplete)
    (following : InputRequirements) (sequence : CompiledSequence) :
    ∀ (recipes : List CompiledNode) (state : PlanningState) (index : Nat)
      (place : Place), sequence.recipes.drop index = recipes →
      Follows (headerCourse message final)
        ((recipesProperties recipes).requiresOrderedDelivery = false) (AtPlace head place)
        HeaderControl.toSequence
        (fun _ => Deferred message final place fun added =>
          resumeFromFrames loader childComplete added sequence)
        (planHeadersFrom loader childHeaders capture sequence.trailingStatements following state
          index recipes)
        (planCompleteFrom loader childComplete sequence.trailingStatements state.toSequenceState
          recipes)
  | [], state, index, place, hdrop => by
    unfold planHeadersFrom planCompleteFrom
    exact (follows_planStatements loader hgood hchild following _).mono id
      fun _ _ _ _ hrestart => hrestart.deferred
  | recipe :: rest, state, index, place, hdrop => by
    refine follows_from_cons loader capture hgood hbegins hchild hdrop rfl
      (follows_node hgood hbegins hchild _ _ _ recipe place) fun state =>
        follows_from hgood hbegins hchild following sequence rest state (index + 1) place ?_
    rw [← List.drop_drop, hdrop, List.drop_succ_cons, List.drop_zero]

theorem follows_sequence
    (hgood : GoodRun message final) (hbegins : Begins head message)
    (hchild : FollowsLoaded message final head childHeaders childComplete)
    (following : InputRequirements) :
    ∀ (sequence : CompiledSequence) (place : Place),
      Follows (headerCourse message final) (sequence.properties.requiresOrderedDelivery = false)
        (AtPlace head place) HeaderControl.toSequence
        (fun _ => Deferred message final place fun added =>
          resumeFromFrames loader childComplete added sequence)
        (planHeaders loader childHeaders capture following sequence)
        (planComplete loader childComplete sequence)
  | ⟨recipes, trailing⟩, place => by
    unfold planHeaders planComplete
    refine (follows_from hgood hbegins hchild following ⟨recipes, trailing⟩ recipes _ 0 place
      List.drop_zero).when ?_
    exact fun h => (CompiledSequence.unordered h).1

end

end Trees

theorem follows_levels {L : Type} [RcSource L] (loader : L) (capture : HeaderCaptureExecutor κ E)
    (hgood : GoodRun message final) (hbegins : Begins head message) (levels : Nat) :
    FollowsLoaded message final head (planHeadersSequence loader capture levels)
      (planCompleteSequence loader levels) := by
  induction levels with
  | zero => exact fun _ _ _ => .throw _
  | succ levels ih =>
    intro sequence following place
    exact (follows_sequence loader capture hgood hbegins ih following sequence place).mono id
      fun _ _ _ _ hdeferred => hdeferred.1

end Steps

/-! ### The plan -/

namespace ExecutionPlan

/-- The plan that a run has made, or its error, and the variables it has left. -/
def planned (result : EStateM.Result EvalError CompletePlanContext SequenceControl) :
    Except EvalError DeliveryPlan × RuntimeVariables :=
  match result with
  | .ok _ context => (.ok context.execution, context.runtime)
  | .error error context => (.error error, context.runtime)

end ExecutionPlan

/-- The head that is read from the input begins the staged message. -/
theorem begins_staged {message : Message} {limits : MessageLimits} {needsFull needs : Bool}
    {complete : CompleteMessage}
    (h : (MappedMessageInput.staged message needsFull).completeMessage needs = some complete) :
    Begins ⟨.Input message.header, message.matching, limits⟩ complete := by
  simp only [MappedMessageInput.completeMessage] at h
  split_ifs at h with hlen hvalid
  obtain rfl := Option.some.inj h
  have hheader : message.asBytes.take message.header.length = message.header := List.take_left
  refine ⟨?_, ?_, ?_, rfl⟩
  · dsimp only [MessageHead.matching, CompleteMessage.matchingInput, CompleteMessage.headerBytes,
      MappedMessageInput.staged]
    rw [hheader, Option.map_map]
    cases message.matching with
    | none => rfl
    | some header => rfl
  · dsimp only [MessageHead.headerView, CompleteMessage.headerView, MappedMessageInput.staged]
    rw [hheader]
  · dsimp only [MessageHead.len, CompleteMessage.len, MappedMessageInput.staged, Message.asBytes]
    rw [List.length_append]
    omega

/-- A plan that is resumed on a message that the head begins. -/
theorem resume_of_begins {L : Type} [RcSource L] (plan : ExecutionPlan L)
    (capture : HeaderCaptureExecutor κ E) {head : MessageHead} {complete : CompleteMessage}
    (hbegins : Begins head complete) (runtime : RuntimeVariables) (captureState : κ)
    {rc : RuntimeRcState} (hfresh : rc.Fresh) {continuation : Continuation}
    {context : HeaderPlanContext κ E}
    (hheaders : plan.evaluateHeaders capture head runtime captureState rc =
      (.ok (.NeedsMessage continuation), context))
    (hunordered : plan.requiresOrderedDelivery context.rc = false) {input : MappedMessageInput}
    (hcomplete : input.completeMessage (plan.needsFullMatching context.rc) = some complete)
    (horder : TestsInOrder complete continuation.restart context.journal) :
    (plan.resume continuation input context.rc).map ExecutionPlan.planned =
      .ok (ExecutionPlan.planned (plan.planMessage complete runtime rc)) := by
  obtain ⟨hroot, hdynamic⟩ := Bool.or_eq_false_iff.mp hunordered
  have hpreemptive : plan.root.properties.requiresPreemptiveOrderedDelivery = false := by
    by_contra hne
    have hordered := PlanProperties.Sound.sequence plan.root (Bool.eq_true_of_not_eq_false hne)
    exact absurd (hroot.symm.trans hordered) (by decide)
  unfold ExecutionPlan.evaluateHeaders at hheaders
  simp only [hpreemptive, Bool.false_eq_true, if_false] at hheaders
  split at hheaders
  · rename_i control context' hrun
    obtain ⟨hevaluation, rfl⟩ := Prod.mk.injEq .. ▸ hheaders
    have hdeferred : control = .Deferred := by
      unfold ExecutionPlan.headerEvaluation at hevaluation
      split at hevaluation
      · rfl
      · split at hevaluation
        · cases hevaluation
        · cases hevaluation
    subst hdeferred
    cases hevaluation
    have hgood : GoodRun complete context' := ⟨hdynamic, horder⟩
    have hstart : AtPlace head ⟨[], 0⟩
        (ExecutionPlan.startHeaders head runtime captureState rc : HeaderPlanContext κ E) :=
      ⟨rfl, rfl, rfl, rfl, hfresh.consistent⟩
    have hfollows := (follows_sequence plan.loader capture hgood hbegins
      (follows_levels plan.loader capture hgood hbegins maxRcIncludeDepth) .none plan.root
      ⟨[], 0⟩).run hroot hstart hrun (composable_later.refl context')
    have hsingle : planComplete plan.loader (planCompleteSequence plan.loader maxRcIncludeDepth)
        plan.root ((headerCourse complete context').view .SinglePass
          (ExecutionPlan.startHeaders head runtime captureState rc)) =
            plan.planMessage complete runtime rc := rfl
    unfold ExecutionPlan.resume
    rw [hcomplete]
    cases hrestart : context'.restart with
    | true =>
      have hreplay : ExecutionPlan.startComplete complete runtime .default
          context'.rc.resetTransitions = (headerCourse complete context').view .Replay
            (ExecutionPlan.startHeaders head runtime captureState rc) := by
        show _ = HeaderPlanContext.complete complete
          { context'.rc with transitions := rc.transitions } _
        rw [hfresh.transitions]
        rfl
      have hsame : planComplete plan.loader (planCompleteSequence plan.loader maxRcIncludeDepth)
          plan.root ((headerCourse complete context').view .Replay
            (ExecutionPlan.startHeaders head runtime captureState rc)) =
              plan.planMessage complete runtime rc := by
        rcases hfollows with ⟨-, hsuspended⟩ | ⟨-, htogether⟩
        · exact ((hsuspended rfl).1 rfl .Replay .SinglePass).trans hsingle
        · exact (htogether .Replay .SinglePass).trans hsingle
      simp only [if_true, Bool.not_true, Bool.and_false, Bool.false_eq_true, if_false,
        Except.map, hreplay]
      exact congrArg (fun result => Except.ok (ExecutionPlan.planned result)) hsame
    | false =>
      rcases hfollows with ⟨-, hsuspended⟩ | ⟨hlose, -⟩
      · rcases (hsuspended rfl).2 with hne | ⟨added, hadded, hframes, hdepth, hresume⟩
        · exact absurd (hrestart.symm.trans hne) (by decide)
        · rw [List.nil_append] at hframes
          have hempty : added.isEmpty = false := List.isEmpty_eq_false_iff.mpr hadded
          have hplace : ExecutionPlan.startComplete complete context'.runtime context'.execution
              context'.rc = context'.complete complete context'.rc := by
            rw [HeaderPlanContext.complete, hdepth]
            rfl
          simp only [hframes, hempty, Bool.false_and, Bool.false_eq_true, if_false, Except.map,
            hplace]
          exact congrArg (fun result => Except.ok (ExecutionPlan.planned result))
            (hresume.trans hsingle)
      · exact absurd (hrestart.symm.trans hlose) (by decide)
  · cases hheaders

/-- A plan that was suspended is resumed as if it had been made in one pass, provided the tests on the
header that matter were made in order: all of them, or, where the plan is made again from the start, the
ones before a file was asked for. -/
theorem resume_eq_planMessage {L : Type} [RcSource L] (plan : ExecutionPlan L)
    (capture : HeaderCaptureExecutor κ E) (message : Message) (limits : MessageLimits)
    (runtime : RuntimeVariables) (captureState : κ) {rc : RuntimeRcState} (hfresh : rc.Fresh)
    {continuation : Continuation} {context : HeaderPlanContext κ E} {complete : CompleteMessage}
    (hheaders : plan.evaluateHeaders capture ⟨.Input message.header, message.matching, limits⟩
      runtime captureState rc = (.ok (.NeedsMessage continuation), context))
    (hunordered : plan.requiresOrderedDelivery context.rc = false)
    (hcomplete : (MappedMessageInput.staged message (plan.needsFullMatching context.rc)).completeMessage
      (plan.needsFullMatching context.rc) = some complete)
    (horder : TestsInOrder complete continuation.restart context.journal) :
    (plan.resume continuation
        (MappedMessageInput.staged message (plan.needsFullMatching context.rc)) context.rc).map
        ExecutionPlan.planned =
      .ok (ExecutionPlan.planned (plan.planMessage complete runtime rc)) :=
  resume_of_begins plan capture (begins_staged hcomplete) runtime captureState hfresh hheaders
    hunordered hcomplete horder
/-- A header regex that selects everything as the value of `MATCH`. -/
def selectAll : ResolvedCondition where
  line := 1
  negated := false
  kind := .HeaderRegex ⟨fun input => some fun group =>
    if group = 0 then some (0, input.length) else some (0, 0)⟩
  capturing := ⟨[1], []⟩

/-- A body regex that matches nothing. -/
def matchNothing : ResolvedCondition where
  line := 1
  negated := false
  kind := .BodyRegex ⟨fun _ => none⟩
  capturing := ⟨[], []⟩

/-- A delivery under these conditions. -/
def conditionalPlan (conditions : List ResolvedCondition) : ExecutionPlan :=
  smallPlan [⟨1, [], none, .Independent, .Stop, .Ignore, conditions.map .Resolved,
    .Deliver (maildir "first/") .Stop .Normalize⟩]

/-- No command runs while the header is planned. -/
def noCapture : HeaderCaptureExecutor Unit Unit := fun _ _ _ _ _ => throw (.Fatal ())

/-- A file whose recipe waits for the body. -/
def waitingLanguage : RcLanguage Unit where
  parseWithState _ parseState := .ok ((), parseState)
  validateRuntimeSettings _ := .ok ()
  expandWithRuntimeValues _ _ := .ok ()
  prepareForCheck _ _ := .ok ()
  compile _ statements := (⟨[⟨1, [], none, .Independent, .Stop, .Ignore, [.Resolved matchNothing],
    .Deliver (maildir "first/") .Stop .Normalize⟩], []⟩, statements)
  statements _ := []
  compatibilityWarnings _ := []

/-- A copy that the header decides, and then a file whose recipe waits for the body. -/
def includingPlan : ExecutionPlan (Option (RcFileLoader Unit)) where
  root := ⟨[⟨1, [], none, .Independent, .Continue, .Ignore, [.Resolved selectAll],
    .Deliver (maildir "copy/") .Continue .Normalize⟩],
    [.Include ⟨3, 0, fun _ => .ok (strBytes "child.rc")⟩]⟩
  limits := ⟨1000, 1000, 1000, 1000, 1000⟩
  loader := some ⟨fun _ => .ok [], waitingLanguage⟩

theorem resume_eq_planMessage_included :
    ∃ continuation context,
      includingPlan.evaluateHeaders noCapture
          ⟨.Input (strBytes "A: x\n\n"), none, ⟨100, 100, 100, 100, 100⟩⟩
          (RuntimeVariables.default []) () .new = (.ok (.NeedsMessage continuation), context) ∧
        continuation.restart = true ∧
        (includingPlan.resume continuation
            (MappedMessageInput.staged ⟨strBytes "A: x\n\n", strBytes "hi", none⟩
              (includingPlan.needsFullMatching context.rc)) context.rc).map ExecutionPlan.planned =
          .ok (ExecutionPlan.planned (includingPlan.planMessage
            (.Mapped (strBytes "A: x\n\nhi") 6 none none) (RuntimeVariables.default []) .new)) := by
  have hsuspended : (match includingPlan.evaluateHeaders noCapture
        ⟨.Input (strBytes "A: x\n\n"), none, ⟨100, 100, 100, 100, 100⟩⟩
        (RuntimeVariables.default []) () .new with
      | (.ok (.NeedsMessage continuation), context) =>
        decide (continuation.restart = true ∧
          includingPlan.requiresOrderedDelivery context.rc = false ∧
          TestsInOrder (.Mapped (strBytes "A: x\n\nhi") 6 none none) continuation.restart
            context.journal)
      | _ => false) = true := by
    decide +kernel
  split at hsuspended
  · rename_i continuation context hheaders
    obtain ⟨hrestart, hunordered, horder⟩ := of_decide_eq_true hsuspended
    refine ⟨continuation, context, hheaders, hrestart, ?_⟩
    refine resume_eq_planMessage includingPlan noCapture
      ⟨strBytes "A: x\n\n", strBytes "hi", none⟩ ⟨100, 100, 100, 100, 100⟩
      (RuntimeVariables.default []) () ⟨rfl, fun _ => rfl⟩ hheaders hunordered ?_ horder
    cases includingPlan.needsFullMatching context.rc with
    | true => rfl
    | false => rfl
  · cases hsuspended

/-- Both ways of planning a message that its header leaves undecided: suspended and resumed, and in one
pass. -/
def bothWays (plan : ExecutionPlan) (message : Message) :
    Option ((Except EvalError DeliveryPlan × RuntimeVariables) ×
      (Except EvalError DeliveryPlan × RuntimeVariables)) :=
  match plan.evaluateHeaders noCapture
      ⟨.Input message.header, message.matching, ⟨100, 100, 100, 100, 100⟩⟩
      (RuntimeVariables.default []) () .new with
  | (.ok (.NeedsMessage continuation), context) =>
    if plan.requiresOrderedDelivery context.rc then none
    else
      let input := MappedMessageInput.staged message (plan.needsFullMatching context.rc)
      match input.completeMessage (plan.needsFullMatching context.rc),
          plan.resume continuation input context.rc with
      | some complete, .ok result =>
        some (ExecutionPlan.planned result,
          ExecutionPlan.planned (plan.planMessage complete (RuntimeVariables.default []) .new))
      | _, _ => none
  | _ => none

/-- The body fails the first condition, so that a single pass never comes to the second; but the header
has set `MATCH` by then. -/
theorem capture_behind_deferred_stays :
    ¬ ∀ continuation context complete,
      (conditionalPlan [matchNothing, selectAll]).evaluateHeaders noCapture
          ⟨.Input (strBytes "A: x\n\n"), none, ⟨100, 100, 100, 100, 100⟩⟩
          (RuntimeVariables.default []) () .new = (.ok (.NeedsMessage continuation), context) →
        (conditionalPlan [matchNothing, selectAll]).requiresOrderedDelivery context.rc = false →
        (MappedMessageInput.staged ⟨strBytes "A: x\n\n", strBytes "hi", none⟩
          ((conditionalPlan [matchNothing, selectAll]).needsFullMatching context.rc)).completeMessage
          ((conditionalPlan [matchNothing, selectAll]).needsFullMatching context.rc) =
            some complete →
        ((conditionalPlan [matchNothing, selectAll]).resume continuation
            (MappedMessageInput.staged ⟨strBytes "A: x\n\n", strBytes "hi", none⟩
              ((conditionalPlan [matchNothing, selectAll]).needsFullMatching context.rc))
            context.rc).map ExecutionPlan.planned =
          .ok (ExecutionPlan.planned ((conditionalPlan [matchNothing, selectAll]).planMessage
            complete (RuntimeVariables.default []) .new)) := by
  intro h
  have hboth : (bothWays (conditionalPlan [matchNothing, selectAll])
      ⟨strBytes "A: x\n\n", strBytes "hi", none⟩).map
        (fun both => (both.1.2.get "MATCH", both.2.2.get "MATCH")) =
      some (some (strBytes "A: x\n\n"), none) := by
    decide +kernel
  unfold bothWays at hboth
  split at hboth
  · rename_i continuation context hheaders
    split_ifs at hboth with hordered
    · cases hboth
    · simp only at hboth
      split at hboth
      · rename_i complete result hcomplete hresume
        have hsame := h continuation context complete hheaders (by simpa using hordered) hcomplete
        rw [hresume] at hsame
        have hplanned := Except.ok.inj hsame
        simp only [hplanned, Option.map_some, Option.some.injEq, Prod.mk.injEq] at hboth
        exact absurd (hboth.1.symm.trans hboth.2) (by simp)
      · cases hboth
  · cases hboth

end ProcmailRs
