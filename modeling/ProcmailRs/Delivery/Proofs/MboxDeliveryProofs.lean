import ProcmailRs.Delivery.MboxDelivery
import ProcmailRs.Delivery.Proofs.LocalLockProofs
import ProcmailRs.Delivery.Proofs.MboxProofs
import ProcmailRs.Delivery.Proofs.MboxAppendProofs

/-!
# Concurrent deliveries do not mix

However the deliveries to a mailbox are interleaved, fail or are killed, the file is what it was, followed
by what each delivery added, one after the other in the order of their locks. A delivery that reports
success has added its record, one that reports a failure before the publication has added nothing, unless
it says that the mailbox could not be restored.
-/

namespace ProcmailRs

namespace Mbox

open LocalLock Interleaving

/-! ### What a delivery may have added -/

namespace MailboxDelivery

variable (delivery : MailboxDelivery)

/-- A record, or the beginning of one. -/
def Partial (added : Bytes) : Prop := added = [] ∨ ∃ postmark, added <+: delivery.record postmark

/-- What the result of a delivery says of the bytes it has added. -/
def Explains (result : Except MboxAppendError PublishedDelivery) (added : Bytes) : Prop :=
  match result with
  | .ok _ => ∃ postmark, added = delivery.record postmark
  | .error error =>
    if error.published then ∃ postmark, added = delivery.record postmark
    else if error.rollback = none then added = []
    else delivery.Partial added

/-- Where the file ends at `base` without the delivery, how far it has got in each phase. -/
def Progress (base : Nat) (added : Bytes) (offset : Nat) : MboxPhase → Prop
  | .Seeking => added = []
  | .Stamping originalLen => originalLen = base ∧ added = [] ∧ offset = base
  | .Writing originalLen rest =>
    originalLen = base ∧ offset = base + added.length ∧ ∃ postmark, delivery.record postmark = added ++ rest
  | .SyncingFile originalLen | .SyncingParent originalLen =>
    originalLen = base ∧ ∃ postmark, added = delivery.record postmark
  | .Truncating originalLen _ _ => originalLen = base ∧ delivery.Partial added
  | .Reseeking _ _ | .Resyncing _ _ => added = []
  | .Unlocking error => delivery.Explains (.error error) added
  | .Publishing => ∃ postmark, added = delivery.record postmark
  | .Closing result => delivery.Explains result added
  | .Locking _ | .Ended _ | .NotLocked | .Killed => False

variable {delivery} {base offset : Nat} {added : Bytes}

theorem partial_of_record {postmark : Postmark} (h : added = delivery.record postmark) :
    delivery.Partial added := .inr ⟨postmark, h ▸ List.prefix_refl _⟩

theorem Explains.isPartial {result : Except MboxAppendError PublishedDelivery}
    (h : delivery.Explains result added) : delivery.Partial added := by
  cases result with
  | ok published =>
    obtain ⟨postmark, hrecord⟩ := h
    exact partial_of_record hrecord
  | error error =>
    simp only [Explains] at h
    split at h
    · obtain ⟨postmark, hrecord⟩ := h
      exact partial_of_record hrecord
    · split at h
      · exact .inl h
      · exact h

theorem Progress.isPartial {phase : MboxPhase} (h : delivery.Progress base added offset phase) :
    delivery.Partial added := by
  cases phase with
  | Locking _ => cases h
  | Seeking => exact .inl h
  | Stamping originalLen => exact .inl h.2.1
  | Writing originalLen rest =>
    obtain ⟨-, -, postmark, hrecord⟩ := h
    exact .inr ⟨postmark, rest, hrecord.symm⟩
  | SyncingFile originalLen =>
    obtain ⟨-, postmark, hrecord⟩ := h
    exact partial_of_record hrecord
  | SyncingParent originalLen =>
    obtain ⟨-, postmark, hrecord⟩ := h
    exact partial_of_record hrecord
  | Truncating originalLen source operation => exact h.2
  | Reseeking source operation => exact .inl h
  | Resyncing source operation => exact .inl h
  | Unlocking error => exact Explains.isPartial (show delivery.Explains (.error error) added from h)
  | Publishing =>
    obtain ⟨postmark, hrecord⟩ := h
    exact partial_of_record hrecord
  | Closing result => exact Explains.isPartial h
  | Ended _ => cases h
  | NotLocked => cases h
  | Killed => cases h

theorem progress_written {postmark : Postmark} (h : added = delivery.record postmark) :
    delivery.Progress base added offset (delivery.written base) := by
  unfold written
  cases delivery.durability with
  | None => exact ⟨postmark, h⟩
  | File => exact ⟨rfl, postmark, h⟩
  | Full => exact ⟨rfl, postmark, h⟩

theorem progress_writing {rest : Bytes} {postmark : Postmark} (hoffset : offset = base + added.length)
    (h : delivery.record postmark = added ++ rest) :
    delivery.Progress base added offset (delivery.writing base rest) := by
  unfold writing
  split
  · next hrest =>
    rw [List.isEmpty_iff.mp hrest, List.append_nil] at h
    exact progress_written h.symm
  · exact ⟨rfl, hoffset, postmark, h⟩

theorem progress_synced (h : ∃ postmark, added = delivery.record postmark) :
    delivery.Progress base added offset (delivery.synced base) := by
  unfold synced
  split
  · exact ⟨rfl, h⟩
  · exact h

theorem explains_restored (source : IoError) (operation : DeliveryOperation) :
    delivery.Explains (.error (.beforePublication source none operation)) [] := rfl

theorem explains_unrestored (source error : IoError) (operation : DeliveryOperation)
    (h : delivery.Partial added) :
    delivery.Explains (.error (.beforePublication source (some error) operation)) added := h

theorem progress_reseeked (source : IoError) (operation : DeliveryOperation) :
    delivery.Progress base [] offset (delivery.reseeked source operation) := by
  unfold reseeked
  split
  · rfl
  · exact @explains_restored delivery source operation

end MailboxDelivery

/-! ### The assertion of each delivery -/

section Assertion

variable {ι : Type} (deliveries : ι → MailboxDelivery)

/-- What is kept of the deliveries that have given the lock up. -/
structure Mailbox.Tidy (mailbox : Mailbox ι) : Prop where
  once : (mailbox.settled.map Prod.fst).Nodup
  contents : mailbox.owner = none → mailbox.contents = mailbox.settledContents

/-- The delivery has the lock, and the file shows how far it has got. -/
structure AtWork (i : ι) (mailbox : Mailbox ι) (writer : Writer) (added : Bytes) : Prop where
  owner : mailbox.owner = some i
  unsettled : i ∉ mailbox.settled.map Prod.fst
  contents : mailbox.contents = mailbox.settledContents ++ added
  progress : (deliveries i).Progress mailbox.settledContents.length added writer.offset writer.phase

/-- The delivery does not have the lock: not yet, or not any more. -/
def Apart (i : ι) (mailbox : Mailbox ι) : MboxPhase → Prop
  | .Locking _ | .NotLocked => i ∉ mailbox.settled.map Prod.fst
  | .Closing result | .Ended result =>
    ∃ added, (i, added) ∈ mailbox.settled ∧ (deliveries i).Explains result added
  | .Killed => ∀ added, (i, added) ∈ mailbox.settled → (deliveries i).Partial added
  | _ => False

/-- Party `i` holds the lock and its delivery is at work, or it stands apart and the mailbox is whole. -/
structure Sound (i : ι) (mailbox : Mailbox ι) (writer : Writer) : Prop where
  tidy : mailbox.Tidy
  stands : (∃ added, AtWork deliveries i mailbox writer added) ∨
    (mailbox.owner ≠ some i ∧ Apart deliveries i mailbox writer.phase)

variable {deliveries} {i : ι} {mailbox after : Mailbox ι} {writer writer' : Writer} {added : Bytes}

theorem AtWork.sound (h : AtWork deliveries i mailbox writer added)
    (honce : (mailbox.settled.map Prod.fst).Nodup) : Sound deliveries i mailbox writer :=
  ⟨⟨honce, fun hnone => by rw [h.owner] at hnone; cases hnone⟩, .inl ⟨added, h⟩⟩

theorem AtWork.goes (h : AtWork deliveries i mailbox writer added) (htidy : mailbox.Tidy)
    (hprogress : (deliveries i).Progress mailbox.settledContents.length added writer'.offset writer'.phase) :
    Sound deliveries i mailbox writer' :=
  AtWork.sound ⟨h.owner, h.unsettled, h.contents, hprogress⟩ htidy.once

/-- The file is changed behind its settled contents. -/
theorem AtWork.changes (h : AtWork deliveries i mailbox writer added) (htidy : mailbox.Tidy)
    {added' : Bytes}
    (hprogress : (deliveries i).Progress mailbox.settledContents.length added' writer'.offset writer'.phase) :
    Sound deliveries i (mailbox.withContents (mailbox.settledContents ++ added')) writer' := by
  have hwork : AtWork deliveries i (mailbox.withContents (mailbox.settledContents ++ added')) writer' added' :=
    ⟨h.owner, h.unsettled, rfl, hprogress⟩
  exact hwork.sound htidy.once

/-- A delivery is settled once. -/
theorem settled_unique (honce : (mailbox.settled.map Prod.fst).Nodup) {added added' : Bytes}
    (hmem : (i, added) ∈ mailbox.settled) (hmem' : (i, added') ∈ mailbox.settled) : added' = added :=
  congrArg Prod.snd (List.inj_on_of_nodup_map honce hmem' hmem rfl)

variable [DecidableEq ι]

theorem AtWork.release_eq (h : AtWork deliveries i mailbox writer added) : mailbox.release i =
    { mailbox with owner := none, settled := mailbox.settled ++ [(i, added)] } := by
  rw [Mailbox.release, if_pos h.owner, h.contents, List.drop_left]

/-- What the delivery has added is settled. -/
theorem AtWork.released (h : AtWork deliveries i mailbox writer added)
    (honce : (mailbox.settled.map Prod.fst).Nodup)
    (happart : ∀ after : Mailbox ι, after.settled = mailbox.settled ++ [(i, added)] →
      (after.settled.map Prod.fst).Nodup → Apart deliveries i after writer'.phase) :
    Sound deliveries i (mailbox.release i) writer' := by
  have hsettled : (mailbox.release i).settled = mailbox.settled ++ [(i, added)] := by rw [h.release_eq]
  have honce' : ((mailbox.release i).settled.map Prod.fst).Nodup := by
    rw [hsettled, List.map_append]
    exact List.Nodup.append honce (List.nodup_singleton i)
      (List.disjoint_singleton.mpr h.unsettled)
  refine ⟨⟨honce', fun _ => ?_⟩, .inr ⟨?_, happart _ hsettled honce'⟩⟩
  · rw [h.release_eq]
    show mailbox.contents = _
    rw [h.contents]
    simp [Mailbox.settledContents]
  · rw [h.release_eq]
    simp

theorem release_of_ne (h : mailbox.owner ≠ some i) : mailbox.release i = mailbox := by
  rw [Mailbox.release, if_neg h]

theorem AtWork.killed (h : AtWork deliveries i mailbox writer added) (htidy : mailbox.Tidy) :
    Sound deliveries i (mailbox.release i) ⟨.Killed, writer.offset⟩ := by
  refine h.released htidy.once fun after hsettled honce added' hmem => ?_
  have hadded : (i, added) ∈ after.settled := by simp [hsettled]
  rw [settled_unique honce hadded hmem]
  exact h.progress.isPartial

theorem AtWork.closed (h : AtWork deliveries i mailbox writer added) (htidy : mailbox.Tidy) (offset : Nat)
    {phase : MboxPhase} {result : Except MboxAppendError PublishedDelivery}
    (hphase : phase = .Closing result ∨ phase = .Ended result)
    (hexplains : (deliveries i).Explains result added) :
    Sound deliveries i (mailbox.release i) ⟨phase, offset⟩ := by
  refine h.released htidy.once fun after hsettled _ => ?_
  have hadded : (i, added) ∈ after.settled := by simp [hsettled]
  rcases hphase with rfl | rfl
  · exact ⟨added, hadded, hexplains⟩
  · exact ⟨added, hadded, hexplains⟩

/-- What the delivery with the lock does. -/
theorem AtWork.act (h : AtWork deliveries i mailbox writer added) (htidy : mailbox.Tidy)
    (hact : Delivers (deliveries i) i mailbox writer after writer') : Sound deliveries i after writer' := by
  have hlength : mailbox.contents.length = mailbox.settledContents.length + added.length := by
    rw [h.contents, List.length_append]
  cases hact with
  | killed _ => exact h.killed htidy
  | @call _ _ offset call resume answer hnext hanswer =>
    have hprogress := h.progress
    generalize hphase : writer.phase = phase at hnext hprogress
    cases phase with
    | Locking phase => cases hprogress
    | Seeking =>
      cases hnext
      cases answer with
      | error error =>
        obtain ⟨rfl, rfl⟩ := hanswer
        exact h.goes htidy hprogress
      | ok originalLen =>
        obtain ⟨rfl, rfl, rfl⟩ := hanswer
        have hadded : added = [] := hprogress
        subst hadded
        exact h.goes htidy ⟨hlength, rfl, hlength⟩
    | Stamping originalLen =>
      cases hnext
      obtain ⟨rfl, rfl⟩ := hanswer
      obtain ⟨rfl, rfl, hoffset⟩ := hprogress
      cases answer with
      | error error => exact h.goes htidy ⟨rfl, .inl rfl⟩
      | ok postmark =>
        exact h.goes htidy (MailboxDelivery.progress_writing hoffset rfl)
    | Writing originalLen rest =>
      cases hnext
      obtain ⟨rfl, hoffset, postmark, hrecord⟩ := hprogress
      have hpartial : (deliveries i).Partial added := .inr ⟨postmark, rest, hrecord.symm⟩
      cases answer with
      | error error =>
        obtain ⟨rfl, rfl⟩ := hanswer
        refine h.goes htidy ?_
        dsimp only
        split
        · exact ⟨rfl, hoffset, postmark, hrecord⟩
        · exact ⟨rfl, hpartial⟩
      | ok count =>
        obtain ⟨hcount, rfl, rfl⟩ := hanswer
        have hcontents : (OpenFile.write ⟨mailbox.contents, writer.offset⟩ (rest.take count)).contents =
            mailbox.settledContents ++ (added ++ rest.take count) := by
          rw [hoffset, ← hlength, ← List.append_assoc, ← h.contents]
          exact contents_write_seekEnd ⟨mailbox.contents, 0⟩ _
        rw [hcontents]
        refine h.changes htidy ?_
        dsimp only
        split
        · exact ⟨rfl, .inr ⟨postmark, rest.drop count, by rw [List.append_assoc, List.take_append_drop, hrecord]⟩⟩
        · refine @MailboxDelivery.progress_writing _ _ _ _ _ postmark ?_ ?_
          · rw [hoffset, List.length_append, List.length_take]
            omega
          · rw [List.append_assoc, List.take_append_drop, hrecord]
    | SyncingFile originalLen =>
      cases hnext
      obtain ⟨rfl, rfl⟩ := hanswer
      obtain ⟨rfl, postmark, hrecord⟩ := hprogress
      cases answer with
      | error error =>
        exact h.goes htidy ⟨rfl, MailboxDelivery.partial_of_record hrecord⟩
      | ok _ => exact h.goes htidy (MailboxDelivery.progress_synced ⟨postmark, hrecord⟩)
    | SyncingParent originalLen =>
      cases hnext
      obtain ⟨rfl, rfl⟩ := hanswer
      obtain ⟨rfl, postmark, hrecord⟩ := hprogress
      cases answer with
      | error error =>
        exact h.goes htidy ⟨rfl, MailboxDelivery.partial_of_record hrecord⟩
      | ok _ => exact h.goes htidy ⟨postmark, hrecord⟩
    | Truncating originalLen source operation =>
      cases hnext
      obtain ⟨rfl, hpartial⟩ := hprogress
      cases answer with
      | error error =>
        obtain ⟨rfl, rfl⟩ := hanswer
        exact h.goes htidy (MailboxDelivery.explains_unrestored source error operation hpartial)
      | ok _ =>
        obtain ⟨rfl, rfl⟩ := hanswer
        have hcontents : (OpenFile.truncate ⟨mailbox.contents, writer.offset⟩
            mailbox.settledContents.length).contents = mailbox.settledContents ++ [] := by
          rw [List.append_nil]
          exact contents_truncate h.contents
        rw [hcontents]
        exact h.changes htidy rfl
    | Reseeking source operation =>
      cases hnext
      have hadded : added = [] := hprogress
      subst hadded
      cases answer with
      | error error =>
        obtain ⟨rfl, rfl⟩ := hanswer
        exact h.goes htidy (MailboxDelivery.explains_unrestored source error operation (.inl rfl))
      | ok length =>
        obtain ⟨-, rfl, rfl⟩ := hanswer
        exact h.goes htidy (MailboxDelivery.progress_reseeked source operation)
    | Resyncing source operation =>
      cases hnext
      obtain ⟨rfl, rfl⟩ := hanswer
      have hadded : added = [] := hprogress
      subst hadded
      cases answer with
      | error error =>
        exact h.goes htidy (MailboxDelivery.explains_unrestored source error operation (.inl rfl))
      | ok _ => exact h.goes htidy (@MailboxDelivery.explains_restored (deliveries i) source operation)
    | Unlocking error =>
      cases hnext
      cases answer with
      | error _ =>
        obtain ⟨rfl, rfl⟩ := hanswer
        exact h.goes htidy hprogress
      | ok _ =>
        obtain ⟨rfl, rfl⟩ := hanswer
        exact h.closed htidy _ (.inl rfl) hprogress
    | Publishing =>
      cases hnext
      cases answer with
      | error error =>
        obtain ⟨rfl, rfl⟩ := hanswer
        exact h.goes htidy hprogress
      | ok _ =>
        obtain ⟨rfl, rfl⟩ := hanswer
        exact h.closed htidy _ (.inl rfl) hprogress
    | Closing result =>
      cases hnext
      obtain ⟨rfl, rfl⟩ := hanswer
      exact h.closed htidy _ (.inr rfl) hprogress
    | Ended result => cases hprogress
    | NotLocked => cases hprogress
    | Killed => cases hprogress

omit [DecidableEq ι] in
theorem Apart.isPartial {phase : MboxPhase} (h : Apart deliveries i mailbox phase) (htidy : mailbox.Tidy)
    (hmem : (i, added) ∈ mailbox.settled) : (deliveries i).Partial added := by
  have hkey : i ∈ mailbox.settled.map Prod.fst := List.mem_map_of_mem hmem
  cases phase with
  | Locking _ => exact absurd hkey h
  | NotLocked => exact absurd hkey h
  | Closing result =>
    obtain ⟨added', hmem', hexplains⟩ := h
    rw [settled_unique htidy.once hmem' hmem]
    exact hexplains.isPartial
  | Ended result =>
    obtain ⟨added', hmem', hexplains⟩ := h
    rw [settled_unique htidy.once hmem' hmem]
    exact hexplains.isPartial
  | Killed => exact h added hmem
  | _ => cases h

omit [DecidableEq ι] in
theorem apart_afterLocking {phase : FlockPhase} (hphase : phase ≠ .Locked)
    (h : i ∉ mailbox.settled.map Prod.fst) : Apart deliveries i mailbox (.afterLocking phase) := by
  cases phase with
  | Locked => exact absurd rfl hphase
  | _ => exact h

theorem flock_afterWait_ne_locked (started : Nat) (step : WaitStep) :
    FlockPhase.afterWait started step ≠ .Locked := by
  cases step <;> simp [FlockPhase.afterWait]

/-- Waiting asks for the time, for signals, or to sleep. -/
theorem answers_of_waiting {policy : Policy} {started offset offset' : Nat} {wait : Wait}
    {call : Call MboxCall} {resume : call.Answer MboxCall.Answer → WaitStep}
    {answer : call.Answer MboxCall.Answer} (hnext : waitForRetry policy started wait = .ask call resume)
    (hanswer : mailbox.Answers i offset call answer after offset') : after = mailbox := by
  cases wait with
  | Measuring =>
    cases hnext
    exact hanswer.2.1
  | Scheduling delay =>
    cases hnext
    exact hanswer.2.1
  | Polling retryAt =>
    cases hnext
    exact hanswer.1
  | Waking retryAt =>
    cases hnext
    exact hanswer.2.1
  | Sleeping retryAt interval =>
    cases hnext
    exact hanswer.1

/-- A delivery without the lock does not change the file; it may get the lock when nobody has it. -/
theorem Apart.act (h : Apart deliveries i mailbox writer.phase) (howner : mailbox.owner ≠ some i)
    (htidy : mailbox.Tidy) (hact : Delivers (deliveries i) i mailbox writer after writer') :
    Sound deliveries i after writer' ∧
      (after = mailbox ∨ (mailbox.owner = none ∧ after = mailbox.lockedBy i)) := by
  have hstays : ∀ writer', Apart deliveries i mailbox writer'.phase → Sound deliveries i mailbox writer' :=
    fun writer' h' => ⟨htidy, .inr ⟨howner, h'⟩⟩
  cases hact with
  | killed _ =>
    rw [release_of_ne howner]
    exact ⟨hstays _ fun added hmem => h.isPartial htidy hmem, .inl rfl⟩
  | @call _ _ offset call resume answer hnext hanswer =>
    generalize hphase : writer.phase = phase at hnext h
    cases phase with
    | Locking phase =>
      have hfresh : i ∉ mailbox.settled.map Prod.fst := h
      obtain ⟨resume', hflock, rfl⟩ := ask_of_map hnext
      cases phase with
      | Starting =>
        cases hflock
        obtain ⟨-, rfl, rfl⟩ := hanswer
        exact ⟨hstays _ hfresh, .inl rfl⟩
      | Checking started =>
        cases hflock
        obtain ⟨rfl, rfl⟩ := hanswer
        refine ⟨hstays _ (apart_afterLocking ?_ hfresh), .inl rfl⟩
        cases answer <;> simp
      | Trying started =>
        cases hflock
        cases answer with
        | ok _ =>
          obtain ⟨hfree, rfl, rfl⟩ := hanswer
          have hwork : AtWork deliveries i (mailbox.lockedBy i) ⟨.Seeking, writer.offset⟩ [] :=
            ⟨rfl, hfresh, (htidy.contents hfree).trans (List.append_nil _).symm, rfl⟩
          exact ⟨hwork.sound htidy.once, .inr ⟨hfree, rfl⟩⟩
        | error errno =>
          obtain ⟨rfl, rfl⟩ := hanswer
          refine ⟨hstays _ (apart_afterLocking ?_ hfresh), .inl rfl⟩
          dsimp only [id]
          split <;> simp
      | Waiting started wait =>
        obtain ⟨resume'', hwait, rfl⟩ := ask_of_map hflock
        cases answers_of_waiting hwait hanswer
        refine ⟨hstays _ (apart_afterLocking ?_ hfresh), .inl rfl⟩
        exact flock_afterWait_ne_locked started (resume'' answer)
      | Locked => cases hflock
      | TimedOut started => cases hflock
      | Failed error => cases hflock
    | Closing result =>
      cases hnext
      obtain ⟨rfl, rfl⟩ := hanswer
      rw [release_of_ne howner]
      exact ⟨hstays _ h, .inl rfl⟩
    | Ended result => cases hnext
    | NotLocked => cases hnext
    | Killed => cases hnext
    | _ => cases h

theorem Sound.act (h : Sound deliveries i mailbox writer)
    (hact : Delivers (deliveries i) i mailbox writer after writer') : Sound deliveries i after writer' := by
  rcases h.stands with ⟨added, hwork⟩ | ⟨howner, hapart⟩
  · exact hwork.act h.tidy hact
  · exact (hapart.act howner h.tidy hact).1

/-! ### The others -/

/-- What a call of the delivery `j` can do to the mailbox. -/
inductive Changes (j : ι) (mailbox : Mailbox ι) : Mailbox ι → Prop
  | nothing : Changes j mailbox mailbox
  | locks (hfree : mailbox.owner = none) : Changes j mailbox (mailbox.lockedBy j)
  | edits (contents : Bytes) : Changes j mailbox (mailbox.withContents contents)
  | releases : Changes j mailbox (mailbox.release j)

theorem Delivers.changes {delivery : MailboxDelivery} {j : ι}
    (hact : Delivers delivery j mailbox writer after writer') : Changes j mailbox after := by
  cases hact with
  | killed _ => exact .releases
  | @call _ _ offset call resume answer hnext hanswer =>
    clear hnext
    cases call with
    | CheckIo => exact hanswer.1 ▸ .nothing
    | Instant => exact hanswer.2.1 ▸ .nothing
    | Sleep duration => exact hanswer.1 ▸ .nothing
    | Lock call =>
      cases call with
      | TryLock =>
        cases answer with
        | ok _ => exact hanswer.2.1 ▸ .locks hanswer.1
        | error errno => exact hanswer.1 ▸ .nothing
      | Seek =>
        cases answer with
        | ok length => exact hanswer.2.1 ▸ .nothing
        | error error => exact hanswer.1 ▸ .nothing
      | Postmark => exact hanswer.1 ▸ .nothing
      | Write bytes =>
        cases answer with
        | ok count => exact hanswer.2.1 ▸ .edits _
        | error error => exact hanswer.1 ▸ .nothing
      | SyncFile => exact hanswer.1 ▸ .nothing
      | SyncParent => exact hanswer.1 ▸ .nothing
      | Truncate length =>
        cases answer with
        | ok _ => exact hanswer.1 ▸ .edits _
        | error error => exact hanswer.1 ▸ .nothing
      | Unlock =>
        cases answer with
        | ok _ => exact hanswer.1 ▸ .releases
        | error error => exact hanswer.1 ▸ .nothing
      | Close => exact hanswer.1 ▸ .releases

theorem Changes.original {j : ι} (h : Changes j mailbox after) : after.original = mailbox.original := by
  cases h with
  | nothing => rfl
  | locks _ => rfl
  | edits _ => rfl
  | releases =>
    unfold Mailbox.release
    split <;> rfl

/-- Another delivery neither gets the lock for `i` nor settles it. -/
theorem Changes.frame {j : ι} (h : Changes j mailbox after) (hij : i ≠ j) (howner : mailbox.owner ≠ some i) :
    after.owner ≠ some i ∧ ∀ added, (i, added) ∈ after.settled ↔ (i, added) ∈ mailbox.settled := by
  cases h with
  | nothing => exact ⟨howner, fun _ => Iff.rfl⟩
  | locks _ => exact ⟨fun hsome => hij (Option.some.inj hsome).symm, fun _ => Iff.rfl⟩
  | edits _ => exact ⟨howner, fun _ => Iff.rfl⟩
  | releases =>
    unfold Mailbox.release
    split
    · exact ⟨by simp, fun added => by simp [hij]⟩
    · exact ⟨howner, fun _ => Iff.rfl⟩

omit [DecidableEq ι] in
theorem Apart.frame {phase : MboxPhase} (h : Apart deliveries i mailbox phase)
    (hsettled : ∀ added, (i, added) ∈ after.settled ↔ (i, added) ∈ mailbox.settled) :
    Apart deliveries i after phase := by
  have hkeys : i ∈ after.settled.map Prod.fst ↔ i ∈ mailbox.settled.map Prod.fst := by
    simp only [List.mem_map, Prod.exists, exists_and_right, exists_eq_right, hsettled]
  cases phase with
  | Locking _ => exact fun hmem => h (hkeys.mp hmem)
  | NotLocked => exact fun hmem => h (hkeys.mp hmem)
  | Closing result =>
    obtain ⟨added, hmem, hexplains⟩ := h
    exact ⟨added, (hsettled added).mpr hmem, hexplains⟩
  | Ended result =>
    obtain ⟨added, hmem, hexplains⟩ := h
    exact ⟨added, (hsettled added).mpr hmem, hexplains⟩
  | Killed => exact fun added hmem => h added ((hsettled added).mp hmem)
  | _ => cases h

/-- What the delivery `j` does leaves the assertion of `i` as it is. -/
theorem Sound.other {j : ι} {writer₁ : Writer} (h : Sound deliveries i mailbox writer₁) (hij : i ≠ j)
    (hother : Sound deliveries j mailbox writer)
    (hact : Delivers (deliveries j) j mailbox writer after writer') : Sound deliveries i after writer₁ := by
  have htidy : after.Tidy := (hother.act hact).tidy
  have happart : mailbox.owner ≠ some i → Apart deliveries i mailbox writer₁.phase →
      Sound deliveries i after writer₁ := by
    intro howner hapart
    obtain ⟨howner', hsettled⟩ := hact.changes.frame hij howner
    exact ⟨htidy, .inr ⟨howner', hapart.frame hsettled⟩⟩
  rcases h.stands with ⟨added, hwork⟩ | ⟨howner, hapart⟩
  · rcases hother.stands with ⟨added', hwork'⟩ | ⟨howner', hapart'⟩
    · exact absurd (Option.some.inj (hwork.owner.symm.trans hwork'.owner)) hij
    · rcases (hapart'.act howner' hother.tidy hact).2 with rfl | ⟨hfree, -⟩
      · exact h
      · rw [hwork.owner] at hfree
        cases hfree
  · exact happart howner hapart

end Assertion

/-! ### A delivery on its own -/

section Alone

variable {ι : Type} [DecidableEq ι] (delivery : MailboxDelivery) (i : ι)

/-- The delivery acts for a while, and the others wait. -/
abbrev Alone : Mailbox ι × Writer → Mailbox ι × Writer → Prop :=
  Relation.ReflTransGen fun x y => Delivers delivery i x.1 x.2 y.1 y.2 ∧ True

variable {delivery i} {start : Mailbox ι × Writer} {mailbox after : Mailbox ι} {writer : Writer} {offset : Nat}

theorem alone_call {phase : MboxPhase} {from' offset : Nat} (call : Call MboxCall)
    {resume : call.Answer MboxCall.Answer → MboxPhase} (answer : call.Answer MboxCall.Answer)
    (h : Alone delivery i start (mailbox, ⟨phase, from'⟩)) (hnext : deliver delivery phase = .ask call resume)
    (hanswer : mailbox.Answers i from' call answer after offset) :
    Alone delivery i start (after, ⟨resume answer, offset⟩) :=
  h.tail ⟨.call hnext hanswer, trivial⟩

theorem alone_locks (hfree : mailbox.owner = none) (offset : Nat) :
    Alone delivery i (mailbox, ⟨.Locking .Starting, offset⟩) (mailbox.lockedBy i, ⟨.Seeking, offset⟩) := by
  have hstart : Alone delivery i (mailbox, ⟨.Locking .Starting, offset⟩)
      (mailbox, ⟨.Locking .Starting, offset⟩) := .refl
  have hchecking := alone_call .Instant mailbox.monotonic hstart rfl ⟨rfl, rfl, rfl⟩
  have htrying := alone_call .CheckIo (.ok ()) hchecking rfl ⟨rfl, rfl⟩
  exact alone_call (.Lock .TryLock) (.ok ()) htrying rfl ⟨hfree, rfl, rfl⟩

theorem alone_killed {phase : MboxPhase} {call : Call MboxCall}
    {resume : call.Answer MboxCall.Answer → MboxPhase}
    (h : Alone delivery i start (mailbox, ⟨phase, offset⟩)) (hnext : deliver delivery phase = .ask call resume) :
    Alone delivery i start (mailbox.release i, ⟨.Killed, offset⟩) :=
  h.tail ⟨@Delivers.killed _ _ delivery i mailbox ⟨phase, offset⟩ call resume hnext, trivial⟩

theorem alone_stamps (hfree : mailbox.owner = none) (offset : Nat) (postmark : Postmark) :
    Alone delivery i (mailbox, ⟨.Locking .Starting, offset⟩) (mailbox.lockedBy i,
      ⟨delivery.writing mailbox.contents.length (delivery.record postmark), mailbox.contents.length⟩) := by
  have hsought := alone_call (.Lock .Seek) (.ok mailbox.contents.length)
    (show Alone delivery i _ _ from alone_locks hfree offset) rfl ⟨rfl, rfl, rfl⟩
  exact alone_call (.Lock .Postmark) (.ok postmark) hsought rfl ⟨rfl, rfl⟩

end Alone

/-! ### Whole runs -/

section Runs

variable {ι : Type} [DecidableEq ι] {deliveries : ι → MailboxDelivery} {P : Deliveries ι → Prop}
variable {c c' : Deliveries ι}

theorem sound_of_run (hstart : Undelivered c) (h : Run (deliverySystem deliveries) P c c') (i : ι) :
    Sound deliveries i c'.shared (c'.own i) := by
  refine h.assertions (A := Sound deliveries) (fun i => ?_) ?_ ?_ ?_ i
  · refine ⟨⟨by simp [hstart.settled], fun _ => ?_⟩, .inr ⟨by simp [hstart.owner], ?_⟩⟩
    · simp [Mailbox.settledContents, hstart.settled, hstart.contents]
    · rw [hstart.waiting i]
      simp [Apart, hstart.settled]
  · exact fun i s r s' r' hsound hact => hsound.act hact
  · exact fun i j s r t s' t' hij hsound hother hact => hsound.other hij hother hact
  · rintro i s r s' hsound ⟨-, heq⟩
    rw [heq]
    refine ⟨⟨hsound.tidy.once, hsound.tidy.contents⟩, ?_⟩
    rcases hsound.stands with ⟨added, hwork⟩ | hapart
    · exact .inl ⟨added, hwork.owner, hwork.unsettled, hwork.contents, hwork.progress⟩
    · exact .inr hapart

theorem original_of_run (h : Run (deliverySystem deliveries) P c c') :
    c'.shared.original = c.shared.original := by
  refine h.invariant (Q := fun c' => c'.shared.original = c.shared.original) rfl fun c₁ c₂ _ heq hstep => ?_
  cases hstep with
  | act hact => exact (Delivers.changes hact).original.trans heq
  | @surroundings mailbox hpasses =>
    show mailbox.original = _
    rw [hpasses.2]
    exact heq

theorem tidy_of_run (hstart : Undelivered c) (h : Run (deliverySystem deliveries) P c c') :
    c'.shared.Tidy := by
  induction h with
  | start _ =>
    refine ⟨by simp [hstart.settled], fun _ => ?_⟩
    simp [Mailbox.settledContents, hstart.settled, hstart.contents]
  | step hrun hstep _ ih =>
    cases hstep with
    | @act i _ _ hact => exact ((sound_of_run hstart hrun i).act hact).tidy
    | surroundings hpasses =>
      rw [hpasses.2]
      exact ⟨ih.once, ih.contents⟩

/-- However deliveries to a mailbox are interleaved, the file is what it was, followed by what each
delivery has added, in the order of their locks; the result of a delivery says what that is. -/
theorem deliveries_do_not_mix (hstart : Undelivered c) (h : Run (deliverySystem deliveries) P c c') :
    (c'.shared.settled.map Prod.fst).Nodup ∧
      (∀ i added, (i, added) ∈ c'.shared.settled → (deliveries i).Partial added) ∧
      (∀ i result, (c'.own i).phase = .Ended result →
        ∃ added, (i, added) ∈ c'.shared.settled ∧ (deliveries i).Explains result added) ∧
      ∃ pending, c'.shared.contents =
          c.shared.contents ++ (c'.shared.settled.map Prod.snd).flatten ++ pending ∧
        (c'.shared.owner = none → pending = []) ∧
        ∀ i, c'.shared.owner = some i → (deliveries i).Partial pending := by
  have hsound := sound_of_run hstart h
  have hsettled : c'.shared.settledContents =
      c.shared.contents ++ (c'.shared.settled.map Prod.snd).flatten := by
    rw [Mailbox.settledContents, original_of_run h, hstart.contents]
  have hpartial : ∀ i added, (i, added) ∈ c'.shared.settled → (deliveries i).Partial added := by
    intro i added hmem
    rcases (hsound i).stands with ⟨_, hwork⟩ | ⟨-, hapart⟩
    · exact absurd (List.mem_map_of_mem hmem) hwork.unsettled
    · exact hapart.isPartial (hsound i).tidy hmem
  have hended : ∀ i result, (c'.own i).phase = .Ended result →
      ∃ added, (i, added) ∈ c'.shared.settled ∧ (deliveries i).Explains result added := by
    intro i result hphase
    rcases (hsound i).stands with ⟨_, hwork⟩ | ⟨-, hapart⟩
    · have hprogress := hwork.progress
      rw [hphase] at hprogress
      cases hprogress
    · rw [hphase] at hapart
      exact hapart
  have htidy := tidy_of_run hstart h
  refine ⟨htidy.once, hpartial, hended, ?_⟩
  rw [← hsettled]
  cases howner : c'.shared.owner with
  | none =>
    refine ⟨[], ?_, fun _ => rfl, by simp⟩
    rw [List.append_nil]
    exact htidy.contents howner
  | some i =>
    rcases (hsound i).stands with ⟨pending, hwork⟩ | ⟨hne, -⟩
    · refine ⟨pending, hwork.contents, by simp, ?_⟩
      intro j hj
      cases hj
      exact hwork.progress.isPartial
    · exact absurd howner hne

/-- One delivery is killed when it has written two bytes, and another one gets the lock. -/
theorem deliveries_do_not_mix_killed :
    ∃ c : Deliveries Bool, c.shared.owner = some false ∧ ∃ pending,
      c.shared.contents = [97, LF] ++ (c.shared.settled.map Prod.snd).flatten ++ pending := by
  obtain ⟨postmark, hpostmark⟩ : ∃ postmark : Postmark, postmark.bytes = [70, 114, 111, 109, 32, 97, LF] :=
    ⟨⟨_, by decide⟩, rfl⟩
  obtain ⟨delivery, hdelivery⟩ : ∃ delivery : MailboxDelivery,
      delivery = ⟨⟨3, 1⟩, [], ⟨[97], []⟩, .Normalize, .None⟩ := ⟨_, rfl⟩
  obtain ⟨rest, hrest⟩ : ∃ rest, delivery.record postmark = 70 :: 114 :: 111 :: rest :=
    ⟨_, by rw [hdelivery, MailboxDelivery.record, writeRecord, hpostmark]; rfl⟩
  obtain ⟨found, hfound⟩ : ∃ found : Mailbox Bool, found = ⟨[97, LF], [97, LF], none, [], 0⟩ := ⟨_, rfl⟩
  have hfree : found.owner = none := by rw [hfound]
  have hstart : Run (deliverySystem fun _ : Bool => delivery) (fun _ => True)
      ⟨found, fun _ => ⟨.Locking .Starting, 0⟩⟩ ⟨found, fun _ => ⟨.Locking .Starting, 0⟩⟩ := .start trivial
  have hstamped : Alone delivery true (found, ⟨.Locking .Starting, 0⟩) _ := alone_stamps hfree 0 postmark
  rw [hrest] at hstamped
  have hwritten := alone_call (.Lock (.Write (70 :: 114 :: 111 :: rest))) (.ok 2) hstamped rfl
    ⟨by simp, rfl, rfl⟩
  have hkilled := hstart.solo (fun _ => True) true rfl (fun _ _ _ => trivial)
    (alone_killed hwritten rfl)
  have hagain := hkilled.solo (fun _ => True) false rfl (fun _ _ _ => trivial)
    (alone_locks (by simp [Mailbox.release, Mailbox.lockedBy, Mailbox.withContents]) 0)
  obtain ⟨-, -, -, pending, hcontents, -⟩ :=
    deliveries_do_not_mix ⟨fun _ => rfl, by rw [hfound], hfree, by rw [hfound]⟩ hagain
  refine ⟨_, ?_, pending, hcontents.trans ?_⟩
  · rfl
  · rw [hfound]

/-! ### What a reader finds -/

namespace MboxPhase

/-- What the delivery has to report, when it has given the lock up. -/
def result? : MboxPhase → Option (Except MboxAppendError PublishedDelivery)
  | .Closing result | .Ended result => some result
  | _ => none

end MboxPhase

/-- The record is visible. -/
def published : Except MboxAppendError PublishedDelivery → Bool
  | .ok _ => true
  | .error error => error.published

/-- The append failed and the mailbox could not be cut back. -/
def rollbackFailed : Except MboxAppendError PublishedDelivery → Bool
  | .ok _ => false
  | .error error => error.rollbackFailed

theorem explains_iff {delivery : MailboxDelivery} {result : Except MboxAppendError PublishedDelivery}
    {added : Bytes} (hrollback : rollbackFailed result = false) : delivery.Explains result added ↔
      if published result then ∃ postmark, added = delivery.record postmark else added = [] := by
  cases result with
  | ok delivered => simp [MailboxDelivery.Explains, published]
  | error error =>
    have hnone : error.rollback = none := by
      simpa [rollbackFailed, MboxAppendError.rollbackFailed] using hrollback
    cases hpublished : error.published with
    | false => simp [MailboxDelivery.Explains, published, hnone, hpublished]
    | true => simp [MailboxDelivery.Explains, published, hpublished]

omit [DecidableEq ι] in
/-- The bytes of deliveries that have added a record or nothing are the records of some of them. -/
theorem mailbox_of_settled (settled : List (ι × Bytes)) (h : ∀ i added, (i, added) ∈ settled →
      added = [] ∨ ∃ postmark, added = (deliveries i).record postmark) :
    ∃ news : List (ι × Append), (settled.map Prod.snd).flatten = mailbox (news.map Prod.snd) ∧
      (news.map Prod.fst).Sublist (settled.map Prod.fst) ∧
      (∀ i append, (i, append) ∈ news → (i, append.written) ∈ settled ∧
        append.message = (deliveries i).message ∧ append.ending = (deliveries i).ending) ∧
      ∀ i added, (i, added) ∈ settled → added ≠ [] → i ∈ news.map Prod.fst := by
  induction settled with
  | nil => exact ⟨[], rfl, .slnil, by simp, by simp⟩
  | cons first settled ih =>
    obtain ⟨j, bytes⟩ := first
    obtain ⟨news, hbytes, hsub, hnews, hall⟩ :=
      ih fun i added hmem => h i added (List.mem_cons_of_mem _ hmem)
    rcases h j bytes (by simp) with rfl | ⟨postmark, rfl⟩
    · refine ⟨news, by simpa using hbytes, hsub.cons _, fun i append hmem => ?_, fun i added hmem hne => ?_⟩
      · obtain ⟨hsettled, hfields⟩ := hnews i append hmem
        exact ⟨List.mem_cons_of_mem _ hsettled, hfields⟩
      · rcases List.mem_cons.mp hmem with heq | hmem
        · exact absurd (congrArg Prod.snd heq) hne
        · exact hall i added hmem hne
    · refine ⟨(j, ⟨postmark, (deliveries j).message, (deliveries j).ending⟩) :: news, ?_, hsub.cons_cons _, ?_, ?_⟩
      · simp only [List.map_cons, List.flatten_cons, hbytes]
        rfl
      · intro i append hmem
        rcases List.mem_cons.mp hmem with heq | hmem
        · cases heq
          exact ⟨List.mem_cons_self, rfl, rfl⟩
        · obtain ⟨hsettled, hfields⟩ := hnews i append hmem
          exact ⟨List.mem_cons_of_mem _ hsettled, hfields⟩
      · intro i added hmem hne
        rcases List.mem_cons.mp hmem with heq | hmem
        · cases heq
          exact List.mem_cons_self
        · exact List.mem_cons_of_mem _ (hall i added hmem hne)

theorem written_ne_nil (append : Append) : append.written ≠ [] := by
  have hpostmark := append.postmark.isLine.1.1
  simp [Append.written, writeRecord, hpostmark]

/-- The records are found behind the ones of the file that was there. -/
theorem splitRecords_append {contents : Bytes} (hwhole : contents = [] ∨ Lines.Terminated isLF contents)
    (news : List Append) :
    splitRecords (contents ++ mailbox news) = splitRecords contents ++ news.map Append.written := by
  have hlines : lines (contents ++ mailbox news) = lines contents ++ lines (mailbox news) := by
    rcases hwhole with rfl | hterminated
    · rfl
    · exact lines_append hterminated _
  have hhead : ∀ line ∈ (lines (mailbox news)).head?, isFromLine line = true := by
    rw [lines_mailbox]
    cases news with
    | nil => simp
    | cons append news => simpa using append.postmark.isFromLine
  rw [splitRecords, hlines, Lines.splitBefore_append _ hhead, List.map_append]
  congr 1
  exact splitRecords_mailbox news

omit [DecidableEq ι] in
/-- A delivery that has settled what it added, and is not killed, has a result that says what it is. -/
theorem explained_of_settled {mailbox : Mailbox ι} {writer : Writer} {i : ι} {added : Bytes}
    (h : Sound deliveries i mailbox writer) (halive : writer.phase ≠ .Killed)
    (hmem : (i, added) ∈ mailbox.settled) :
    ∃ result, writer.phase.result? = some result ∧ (deliveries i).Explains result added := by
  have hkey : i ∈ mailbox.settled.map Prod.fst := List.mem_map_of_mem hmem
  rcases h.stands with ⟨_, hwork⟩ | ⟨-, hapart⟩
  · exact absurd hkey hwork.unsettled
  · cases hphase : writer.phase with
    | Closing result | Ended result =>
      rw [hphase] at hapart
      obtain ⟨added', hmem', hexplains⟩ := hapart
      rw [settled_unique h.tidy.once hmem hmem'] at hexplains
      exact ⟨result, rfl, hexplains⟩
    | Locking _ | NotLocked =>
      rw [hphase] at hapart
      exact absurd hkey hapart
    | Killed => exact absurd hphase halive
    | _ =>
      rw [hphase] at hapart
      cases hapart

omit [DecidableEq ι] in
/-- A delivery with a result, which does not have the lock, has settled what the result says. -/
theorem settled_of_result {mailbox : Mailbox ι} {writer : Writer} {i : ι}
    {result : Except MboxAppendError PublishedDelivery} (h : Sound deliveries i mailbox writer)
    (hfree : mailbox.owner = none) (hresult : writer.phase.result? = some result) :
    ∃ added, (i, added) ∈ mailbox.settled ∧ (deliveries i).Explains result added := by
  rcases h.stands with ⟨_, hwork⟩ | ⟨-, hapart⟩
  · rw [hwork.owner] at hfree
    cases hfree
  · cases hphase : writer.phase with
    | Closing result' | Ended result' =>
      rw [hphase] at hapart hresult
      cases hresult
      exact hapart
    | _ =>
      rw [hphase] at hresult
      cases hresult

/-- When nobody is at work on the mailbox, nobody was killed and every record that failed was taken back,
the file has the records it had, and one more for each delivery that reports it as visible. -/
theorem delivered_records_are_read (hstart : Undelivered c) (h : Run (deliverySystem deliveries) P c c')
    (hwhole : c.shared.contents = [] ∨ Lines.Terminated isLF c.shared.contents)
    (hfree : c'.shared.owner = none) (halive : ∀ i, (c'.own i).phase ≠ .Killed)
    (hrestored : ∀ i result, (c'.own i).phase.result? = some result → rollbackFailed result = false) :
    ∃ news : List (ι × Append),
      c'.shared.contents = c.shared.contents ++ mailbox (news.map Prod.snd) ∧
      splitRecords c'.shared.contents =
        splitRecords c.shared.contents ++ news.map (fun new => new.2.written) ∧
      (news.map Prod.fst).Nodup ∧
      (∀ i, i ∈ news.map Prod.fst ↔
        ∃ result, (c'.own i).phase.result? = some result ∧ published result = true) ∧
      ∀ i append, (i, append) ∈ news →
        append.message = (deliveries i).message ∧ append.ending = (deliveries i).ending := by
  have hsound := sound_of_run hstart h
  have htidy := tidy_of_run hstart h
  have hadded : ∀ i added, (i, added) ∈ c'.shared.settled →
      added = [] ∨ ∃ postmark, added = (deliveries i).record postmark := by
    intro i added hmem
    obtain ⟨result, hresult, hexplains⟩ := explained_of_settled (hsound i) (halive i) hmem
    rw [explains_iff (hrestored i result hresult)] at hexplains
    split at hexplains
    · exact .inr hexplains
    · exact .inl hexplains
  obtain ⟨news, hbytes, hsub, hnews, hall⟩ := mailbox_of_settled c'.shared.settled hadded
  have hcontents : c'.shared.contents = c.shared.contents ++ mailbox (news.map Prod.snd) := by
    rw [htidy.contents hfree, Mailbox.settledContents, hbytes, original_of_run h, hstart.contents]
  refine ⟨news, hcontents, ?_, htidy.once.sublist hsub, fun i => ⟨fun hmem => ?_, ?_⟩, fun i append hmem => ?_⟩
  · rw [hcontents, splitRecords_append hwhole, List.map_map]
    rfl
  · obtain ⟨⟨j, append⟩, hnew, rfl⟩ := List.mem_map.mp hmem
    obtain ⟨result, hresult, hexplains⟩ :=
      explained_of_settled (hsound j) (halive j) (hnews j append hnew).1
    refine ⟨result, hresult, ?_⟩
    rw [explains_iff (hrestored j result hresult)] at hexplains
    split at hexplains
    · assumption
    · exact absurd hexplains (written_ne_nil append)
  · rintro ⟨result, hresult, hpublished⟩
    obtain ⟨added, hmem, hexplains⟩ := settled_of_result (hsound i) hfree hresult
    rw [explains_iff (hrestored i result hresult), if_pos hpublished] at hexplains
    obtain ⟨postmark, rfl⟩ := hexplains
    exact hall i _ hmem (written_ne_nil ⟨postmark, (deliveries i).message, (deliveries i).ending⟩)
  · exact (hnews i append hmem).2

/-- One delivery has written its record, and another one waits. -/
theorem delivered_records_are_read_one :
    ∃ c : Deliveries Bool, (c.own true).phase.result? = some (.ok ⟨[]⟩) ∧ ∃ news : List (Bool × Append),
      c.shared.contents = [97, LF] ++ mailbox (news.map Prod.snd) ∧
      ∀ i, i ∈ news.map Prod.fst ↔
        ∃ result, (c.own i).phase.result? = some result ∧ published result = true := by
  obtain ⟨postmark, hpostmark⟩ : ∃ postmark : Postmark, postmark.bytes = [70, 114, 111, 109, 32, 97, LF] :=
    ⟨⟨_, by decide⟩, rfl⟩
  obtain ⟨delivery, hdelivery⟩ : ∃ delivery : MailboxDelivery,
      delivery = ⟨⟨3, 1⟩, [], ⟨[97], []⟩, .Normalize, .None⟩ := ⟨_, rfl⟩
  obtain ⟨rest, hrest⟩ : ∃ rest, delivery.record postmark = 70 :: rest :=
    ⟨_, by rw [hdelivery, MailboxDelivery.record, writeRecord, hpostmark]; rfl⟩
  obtain ⟨found, hfound⟩ : ∃ found : Mailbox Bool, found = ⟨[97, LF], [97, LF], none, [], 0⟩ := ⟨_, rfl⟩
  have hfree : found.owner = none := by rw [hfound]
  have hstart : Run (deliverySystem fun _ : Bool => delivery) (fun _ => True)
      ⟨found, fun _ => ⟨.Locking .Starting, 0⟩⟩ ⟨found, fun _ => ⟨.Locking .Starting, 0⟩⟩ := .start trivial
  have hstamped : Alone delivery true (found, ⟨.Locking .Starting, 0⟩) _ := alone_stamps hfree 0 postmark
  rw [hrest] at hstamped
  have hwritten := alone_call (.Lock (.Write (70 :: rest))) (.ok (rest.length + 1)) hstamped rfl
    ⟨by simp, rfl, rfl⟩
  have hphase : delivery.writing found.contents.length ((70 :: rest).drop (rest.length + 1)) = .Publishing := by
    rw [List.drop_eq_nil_of_le (by simp), hdelivery]
    rfl
  simp only [Nat.add_eq_zero_iff, one_ne_zero, and_false, if_false] at hwritten
  rw [show (found.lockedBy true).contents = found.contents from rfl, hphase] at hwritten
  have hpublished := alone_call (.Lock .Unlock) (.ok ()) hwritten rfl ⟨rfl, rfl⟩
  have hrun := hstart.solo (fun _ => True) true rfl (fun _ _ _ => trivial) hpublished
  obtain ⟨news, hcontents, -, -, hkeys, -⟩ := delivered_records_are_read
    ⟨fun _ => rfl, by rw [hfound], hfree, by rw [hfound]⟩ hrun (.inr (by rw [hfound]; rfl))
    (by simp [Mailbox.release, Mailbox.lockedBy, Mailbox.withContents])
    (fun i => by cases i <;> simp [Function.update]) (fun i => by cases i <;> simp [Function.update, MboxPhase.result?, rollbackFailed])
  refine ⟨_, ?_, news, hcontents.trans ?_, hkeys⟩
  · simp [MboxPhase.result?, hdelivery]
  · rw [hfound]

end Runs

end Mbox

end ProcmailRs
