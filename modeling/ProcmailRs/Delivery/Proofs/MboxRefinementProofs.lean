import ProcmailRs.Delivery.Proofs.MboxDeliveryProofs

/-!
# An append is a delivery by itself

`append` runs from the lock to its end without looking at the other deliveries. Step by step it does what
the delivery does that has the lock, when all the others wait.
-/

namespace ProcmailRs

namespace Mbox

open Outcome LocalLock Interleaving

section Refinement

variable {ι : Type} [DecidableEq ι] {delivery : MailboxDelivery} {i : ι}
variable {ω ε ε' α β : Type}

/-- From `phase` on the delivery does what the operation does on a file with `P`, which has `Q` behind it
unless the operation fails; `done` is what becomes of the lock. -/
def Performs (delivery : MailboxDelivery) (i : ι) (done : Mailbox ι → Mailbox ι)
    (P Q : OpenFile → Prop) (m : FileOperation ω ε α) (phase : MboxPhase) (after : α → MboxPhase)
    (failed : ε → MboxPhase) : Prop :=
  ∀ (mailbox : Mailbox ι) (offset : Nat) (world : ω), mailbox.owner = some i →
    P ⟨mailbox.contents, offset⟩ →
    Ends m (⟨mailbox.contents, offset⟩, world)
      (fun a s => Q s.1 ∧ Alone delivery i (mailbox, ⟨phase, offset⟩)
        (done (mailbox.withContents s.1.contents), ⟨after a, s.1.offset⟩))
      (fun error s => Alone delivery i (mailbox, ⟨phase, offset⟩)
        (done (mailbox.withContents s.1.contents), ⟨failed error, s.1.offset⟩))

/-- The file is written at its end. -/
def AtEnd (file : OpenFile) : Prop := file.offset = file.contents.length

/-- Nothing is known of the file. -/
def Anywhere (_ : OpenFile) : Prop := True

/-- What is known of `write_all`: it goes on when it is interrupted, and fails only before the end. -/
def MboxFaults.WritesAll (faults : MboxFaults ω) (bytes : Bytes) : Prop :=
  ∀ world error written, (faults.write world).1 = some (error, written) →
    error.kind ≠ .Interrupted ∧ written < bytes.length

variable {faults : MboxFaults ω} {m : FileOperation ω ε α} {phase : MboxPhase} {after : α → MboxPhase}
variable {failed : ε → MboxPhase} {done : Mailbox ι → Mailbox ι} {P Q R : OpenFile → Prop}

theorem Performs.bind {f : α → FileOperation ω ε β} {after' : β → MboxPhase}
    (hm : Performs delivery i id P Q m phase after failed)
    (hf : ∀ a, Performs delivery i id Q R (f a) (after a) after' failed) :
    Performs delivery i id P R (m >>= f) phase after' failed := by
  intro mailbox offset world howner hP
  refine Ends.bind (hm mailbox offset world howner hP) fun a s hs => ?_
  refine (hf a (mailbox.withContents s.1.contents) s.1.offset s.2 howner hs.1).mono ?_ ?_
  · exact fun b s' hs' => ⟨hs'.1, hs.2.trans hs'.2⟩
  · exact fun error s' hs' => hs.2.trans hs'

theorem Performs.attempt {f : Except ε α → FileOperation ω ε' β} {after' : β → MboxPhase}
    {failed' : ε' → MboxPhase} (hm : Performs delivery i id P Q m phase after failed)
    (hok : ∀ a, Performs delivery i done Q R (f (.ok a)) (after a) after' failed')
    (herror : ∀ error,
      Performs delivery i done Anywhere R (f (.error error)) (failed error) after' failed') :
    Performs delivery i done P R (attempt m >>= f) phase after' failed' := by
  intro mailbox offset world howner hP
  refine Ends.bind (Ends.attempt (hm mailbox offset world howner hP)) fun result s hs => ?_
  cases result with
  | ok a =>
    refine (hok a (mailbox.withContents s.1.contents) s.1.offset s.2 howner hs.1).mono ?_ ?_
    · exact fun b s' hs' => ⟨hs'.1, hs.2.trans hs'.2⟩
    · exact fun error s' hs' => hs.2.trans hs'
  | error error =>
    refine (herror error (mailbox.withContents s.1.contents) s.1.offset s.2 howner trivial).mono ?_ ?_
    · exact fun b s' hs' => ⟨hs'.1, hs.trans hs'.2⟩
    · exact fun error s' hs' => hs.trans hs'

theorem performs_pure (a : α) (h : phase = after a) :
    Performs delivery i id P P (pure a : FileOperation ω ε α) phase after failed := by
  intro mailbox offset world _ hP
  subst h
  exact ⟨hP, Relation.ReflTransGen.refl⟩

/-- Nothing needs to be known of the file behind an operation. -/
theorem Performs.anywhere (h : Performs delivery i done P Q m phase after failed) :
    Performs delivery i done P Anywhere m phase after failed :=
  fun mailbox offset world howner hP =>
    (h mailbox offset world howner hP).mono (fun _ _ hs => ⟨trivial, hs.2⟩) fun _ _ hs => hs

/-! ### Calls of the system -/

theorem alone_answers {mailbox mailbox' : Mailbox ι} {offset offset' : Nat} {call : Call MboxCall}
    {resume : call.Answer MboxCall.Answer → MboxPhase} {next : MboxPhase}
    (hnext : deliver delivery phase = .ask call resume) (answer : call.Answer MboxCall.Answer)
    (hresume : resume answer = next) (hanswer : mailbox.Answers i offset call answer mailbox' offset') :
    Alone delivery i (mailbox, ⟨phase, offset⟩) (mailbox', ⟨next, offset'⟩) := by
  subst hresume
  exact alone_call call answer .refl hnext hanswer

theorem performs_seekEnd {resume : Except IoError Nat → MboxPhase} {after : Nat → MboxPhase}
    {failed : IoError → MboxPhase} (hnext : deliver delivery phase = .ask (.Lock .Seek) resume)
    (hok : ∀ length, resume (.ok length) = after length)
    (herror : ∀ error, resume (.error error) = failed error) :
    Performs delivery i id P AtEnd (seekEnd faults) phase after failed := by
  intro mailbox offset world _ _
  refine (ends_seekEnd faults _).mono ?_ ?_
  · rintro length s ⟨hfile, rfl⟩
    rw [hfile]
    exact ⟨rfl, alone_answers hnext (.ok mailbox.contents.length) (hok _) ⟨rfl, rfl, rfl⟩⟩
  · intro error s hfile
    rw [hfile]
    exact alone_answers hnext (.error error) (herror error) ⟨rfl, rfl⟩

/-- A call that changes the file as `change` does, or fails and leaves it as it is. -/
theorem performs_call {fault : ω → Option IoError × ω} {change : OpenFile → OpenFile} {call : MboxCall}
    {resume : call.Answer → MboxPhase} {after : Unit → MboxPhase} {failed : IoError → MboxPhase}
    (answer : Except IoError Unit → call.Answer)
    (hnext : deliver delivery phase = .ask (.Lock call) resume)
    (hok : resume (answer (.ok ())) = after ())
    (herror : ∀ error, resume (answer (.error error)) = failed error)
    (hchange : ∀ file, P file → Q (change file))
    (hdone : ∀ (mailbox : Mailbox ι) (offset : Nat),
      mailbox.Answers i offset (.Lock call) (answer (.ok ()))
        (mailbox.withContents (change ⟨mailbox.contents, offset⟩).contents)
        (change ⟨mailbox.contents, offset⟩).offset)
    (hkept : ∀ (mailbox : Mailbox ι) (offset : Nat) (error : IoError),
      mailbox.Answers i offset (.Lock call) (answer (.error error)) mailbox offset) :
    Performs delivery i id P Q (Mbox.call fault change) phase after failed := by
  intro mailbox offset world _ hP
  refine (ends_call fault change _).mono ?_ ?_
  · intro _ s hfile
    rw [hfile]
    exact ⟨hchange _ hP, alone_answers hnext (answer (.ok ())) hok (hdone mailbox offset)⟩
  · intro error s hfile
    rw [hfile]
    exact alone_answers hnext (answer (.error error)) (herror error) (hkept mailbox offset error)

theorem performs_truncate {length : Nat} {resume : Except IoError Unit → MboxPhase}
    {after : Unit → MboxPhase} {failed : IoError → MboxPhase}
    (hnext : deliver delivery phase = .ask (.Lock (.Truncate length)) resume)
    (hok : resume (.ok ()) = after ()) (herror : ∀ error, resume (.error error) = failed error) :
    Performs delivery i id P Anywhere (truncate faults length) phase after failed := by
  refine performs_call (fun result => result) hnext hok herror (fun _ _ => trivial) ?_ ?_
  · exact fun _ _ => ⟨rfl, rfl⟩
  · exact fun _ _ _ => ⟨rfl, rfl⟩

theorem performs_syncFile {resume : Except IoError Unit → MboxPhase} {after : Unit → MboxPhase}
    {failed : IoError → MboxPhase} (hnext : deliver delivery phase = .ask (.Lock .SyncFile) resume)
    (hok : resume (.ok ()) = after ()) (herror : ∀ error, resume (.error error) = failed error) :
    Performs delivery i id P P (sync faults .File) phase after failed := by
  refine performs_call (fun result => result) hnext hok herror (fun _ h => h) ?_ ?_
  · exact fun _ _ => ⟨rfl, rfl⟩
  · exact fun _ _ _ => ⟨rfl, rfl⟩

theorem performs_syncDirectory {resume : Except IoError Unit → MboxPhase} {after : Unit → MboxPhase}
    {failed : IoError → MboxPhase} (hnext : deliver delivery phase = .ask (.Lock .SyncParent) resume)
    (hok : resume (.ok ()) = after ()) (herror : ∀ error, resume (.error error) = failed error) :
    Performs delivery i id P P (sync faults .Parent) phase after failed := by
  refine performs_call (fun result => result) hnext hok herror (fun _ h => h) ?_ ?_
  · exact fun _ _ => ⟨rfl, rfl⟩
  · exact fun _ _ _ => ⟨rfl, rfl⟩

/-! ### Writing -/

theorem writing_of_ne_nil {originalLen : Nat} {rest : Bytes} (h : rest ≠ []) :
    delivery.writing originalLen rest = .Writing originalLen rest := by
  unfold MailboxDelivery.writing
  rw [if_neg (by simpa using h)]

theorem alone_writes {mailbox : Mailbox ι} {offset originalLen written : Nat} {rest : Bytes}
    (hle : written ≤ rest.length) (hpos : written ≠ 0) :
    Alone delivery i (mailbox, ⟨.Writing originalLen rest, offset⟩)
      (mailbox.withContents (OpenFile.write ⟨mailbox.contents, offset⟩ (rest.take written)).contents,
        ⟨delivery.writing originalLen (rest.drop written), offset + written⟩) :=
  alone_answers rfl (.ok written) (if_neg hpos) ⟨hle, rfl, rfl⟩

theorem alone_fails_writing {mailbox : Mailbox ι} {offset originalLen : Nat} {rest : Bytes}
    {error : IoError} (hkind : error.kind ≠ .Interrupted) :
    Alone delivery i (mailbox, ⟨.Writing originalLen rest, offset⟩)
      (mailbox, ⟨.Truncating originalLen error .Write, offset⟩) :=
  alone_answers rfl (.error error) (if_neg hkind) ⟨rfl, rfl⟩

/-- At the end of the file, nothing written is nothing changed. -/
theorem write_nil_of_atEnd {file : OpenFile} (h : AtEnd file) : file.write [] = file := by
  obtain ⟨contents, offset⟩ := file
  have hoffset : offset = contents.length := h
  simp [OpenFile.write, hoffset]

theorem performs_writeBytes {originalLen : Nat} {bytes : Bytes} (hbytes : bytes ≠ [])
    (hfaults : faults.WritesAll bytes) :
    Performs delivery i id AtEnd Anywhere (writeBytes faults bytes) (.Writing originalLen bytes)
      (fun _ => delivery.written originalLen) (fun error => .Truncating originalLen error .Write) := by
  intro mailbox offset world _ hend
  unfold Ends writeBytes
  rcases hfault : faults.write world with ⟨_ | ⟨error, written⟩, world'⟩
  · simp only [hfault]
    have hwritten := @alone_writes ι _ delivery i mailbox offset originalLen bytes.length bytes le_rfl
      (by simpa using hbytes)
    rw [List.take_length, List.drop_length] at hwritten
    exact ⟨trivial, hwritten⟩
  · simp only [hfault]
    obtain ⟨hkind, hlt⟩ := hfaults world error written (by rw [hfault])
    by_cases hpos : written = 0
    · rw [hpos, List.take_zero, write_nil_of_atEnd hend]
      exact alone_fails_writing hkind
    · have hwritten := @alone_writes ι _ delivery i mailbox offset originalLen written bytes hlt.le hpos
      rw [writing_of_ne_nil (by simpa using hlt)] at hwritten
      have hlength : (bytes.take written).length = written := List.length_take_of_le hlt.le
      show Alone delivery i _ (_, ⟨_, offset + (bytes.take written).length⟩)
      rw [hlength]
      exact hwritten.trans (alone_fails_writing hkind)

/-- The record is written under its postmark. -/
theorem performs_record {originalLen : Nat} {postmark : Postmark}
    (hfaults : faults.WritesAll (delivery.record postmark)) :
    Performs delivery i id AtEnd Anywhere (writeBytes faults (delivery.record postmark))
      (.Stamping originalLen) (fun _ => delivery.written originalLen)
      (fun error => .Truncating originalLen error .Write) := by
  intro mailbox offset world howner hend
  have hrecord : delivery.record postmark ≠ [] :=
    written_ne_nil ⟨postmark, delivery.message, delivery.ending⟩
  have hstamped : Alone delivery i (mailbox, ⟨.Stamping originalLen, offset⟩)
      (mailbox, ⟨delivery.writing originalLen (delivery.record postmark), offset⟩) :=
    alone_answers rfl (.ok postmark) rfl ⟨rfl, rfl⟩
  rw [writing_of_ne_nil hrecord] at hstamped
  have hwrite : Performs delivery i id AtEnd Anywhere (writeBytes faults (delivery.record postmark))
      (.Writing originalLen (delivery.record postmark)) (fun _ => delivery.written originalLen)
      (fun error => .Truncating originalLen error .Write) :=
    performs_writeBytes hrecord hfaults
  refine (hwrite mailbox offset world howner hend).mono ?_ ?_
  · exact fun _ s hs => ⟨trivial, hstamped.trans hs.2⟩
  · exact fun error s hs => hstamped.trans hs

/-- Without a postmark nothing is written. -/
theorem performs_unstamped {originalLen : Nat} (error : IoError) :
    Performs delivery i id AtEnd Anywhere (throw error : FileOperation ω IoError Unit)
      (.Stamping originalLen) (fun _ => delivery.written originalLen)
      (fun error => .Truncating originalLen error .Write) := by
  intro mailbox offset world _ _
  exact alone_answers rfl (.error error) rfl ⟨rfl, rfl⟩

theorem performs_writeDurably {write : FileOperation ω IoError Unit} {originalLen : Nat}
    (hwrite : Performs delivery i id P Anywhere write phase (fun _ => delivery.written originalLen)
      (fun error => .Truncating originalLen error .Write)) :
    Performs delivery i id P Anywhere (writeDurably faults delivery.durability write) phase
      (fun _ => delivery.synced originalLen)
      (fun failure => .Truncating originalLen failure.1 failure.2) := by
  have hsync : Performs delivery i id Anywhere Anywhere (sync faults .File) (.SyncingFile originalLen)
      (fun _ => delivery.synced originalLen) (fun error => .Truncating originalLen error .SyncFile) :=
    performs_syncFile rfl rfl fun _ => rfl
  unfold writeDurably
  refine hwrite.attempt ?_ fun error _ _ _ _ _ => .refl
  intro _
  cases hdurability : delivery.durability with
  | None =>
    have hphase : delivery.written originalLen = delivery.synced originalLen := by
      simp [MailboxDelivery.written, MailboxDelivery.synced, hdurability]
    rw [hphase]
    exact performs_pure () rfl
  | File =>
    have hphase : delivery.written originalLen = .SyncingFile originalLen := by
      simp [MailboxDelivery.written, hdurability]
    rw [hphase]
    exact hsync.attempt (fun _ => performs_pure () rfl) fun error _ _ _ _ _ => .refl
  | Full =>
    have hphase : delivery.written originalLen = .SyncingFile originalLen := by
      simp [MailboxDelivery.written, hdurability]
    rw [hphase]
    exact hsync.attempt (fun _ => performs_pure () rfl) fun error _ _ _ _ _ => .refl

theorem performs_syncParent {originalLen : Nat} :
    Performs delivery i id Anywhere Anywhere (syncParent faults delivery.durability)
      (delivery.synced originalLen) (fun _ => .Publishing)
      (fun error => .Truncating originalLen error .SyncDirectory) := by
  unfold syncParent MailboxDelivery.synced
  split_ifs with hfull
  · exact performs_syncDirectory rfl rfl fun _ => rfl
  · exact performs_pure () rfl

/-! ### Taking back, and giving up the lock -/

theorem performs_rollbackWith {originalLen : Nat} {source : IoError} {operation : DeliveryOperation} :
    Performs delivery i id Anywhere Anywhere (rollbackWith faults originalLen delivery.durability)
      (.Truncating originalLen source operation)
      (fun _ => .Unlocking (.beforePublication source none operation))
      (fun error => .Unlocking (.beforePublication source (some error) operation)) := by
  have hcut : Performs delivery i id Anywhere Anywhere (truncate faults originalLen)
      (.Truncating originalLen source operation) (fun _ => .Reseeking source operation)
      (fun error => .Unlocking (.beforePublication source (some error) operation)) :=
    performs_truncate rfl rfl fun _ => rfl
  have hsought : Performs delivery i id Anywhere AtEnd (seekEnd faults) (.Reseeking source operation)
      (fun _ => delivery.reseeked source operation)
      (fun error => .Unlocking (.beforePublication source (some error) operation)) :=
    performs_seekEnd rfl (fun _ => rfl) fun _ => rfl
  have hsynced : Performs delivery i id Anywhere Anywhere (sync faults .File)
      (.Resyncing source operation)
      (fun _ => .Unlocking (.beforePublication source none operation))
      (fun error => .Unlocking (.beforePublication source (some error) operation)) :=
    performs_syncFile rfl rfl fun _ => rfl
  unfold rollbackWith
  refine hcut.bind fun _ => hsought.anywhere.bind fun _ => ?_
  unfold MailboxDelivery.reseeked
  split_ifs with hdurability
  · exact hsynced
  · exact performs_pure () rfl

/-- A lock that was given up is not given up again. -/
theorem release_release (mailbox : Mailbox ι) : (mailbox.release i).release i = mailbox.release i := by
  by_cases howner : mailbox.owner = some i
  · simp [Mailbox.release, howner]
  · simp [Mailbox.release, howner]

theorem alone_closes {mailbox : Mailbox ι} {offset : Nat}
    (result : Except MboxAppendError PublishedDelivery) :
    Alone delivery i (mailbox, ⟨.Closing result, offset⟩) (mailbox.release i, ⟨.Ended result, offset⟩) :=
  alone_answers rfl () rfl ⟨rfl, rfl⟩

/-- Whether or not the lock can be given up, it is gone with the file. -/
theorem alone_unlocks {mailbox : Mailbox ι} {offset : Nat} {resume : Except IoError Unit → MboxPhase}
    (hnext : deliver delivery phase = .ask (.Lock .Unlock) resume) (answer : Except IoError Unit)
    {result : Except MboxAppendError PublishedDelivery} (hresult : resume answer = .Closing result) :
    Alone delivery i (mailbox, ⟨phase, offset⟩) (mailbox.release i, ⟨.Ended result, offset⟩) := by
  cases answer with
  | ok unlocked =>
    have hunlocked : Alone delivery i (mailbox, ⟨phase, offset⟩)
        (mailbox.release i, ⟨.Closing result, offset⟩) :=
      alone_answers hnext (.ok ()) hresult ⟨rfl, rfl⟩
    have hclosed := hunlocked.trans (alone_closes result)
    rwa [release_release] at hclosed
  | error error =>
    have hkept : Alone delivery i (mailbox, ⟨phase, offset⟩) (mailbox, ⟨.Closing result, offset⟩) :=
      alone_answers hnext (.error error) hresult ⟨rfl, rfl⟩
    exact hkept.trans (alone_closes result)

/-- The lock is given up, and the delivery has its result. -/
theorem ends_unlock (delivery : MailboxDelivery) (i : ι) {mailbox : Mailbox ι} {offset : Nat}
    {world : ω} {resume : Except IoError Unit → MboxPhase} {X : ε → OpenFile × ω → Prop}
    (phase : MboxPhase) (result : Except IoError Unit → Except MboxAppendError PublishedDelivery)
    (hnext : deliver delivery phase = .ask (.Lock .Unlock) resume)
    (hresult : ∀ answer, resume answer = .Closing (result answer)) :
    Ends (attempt (unlock faults) : FileOperation ω ε (Except IoError Unit))
      (⟨mailbox.contents, offset⟩, world)
      (fun answer s => Alone delivery i (mailbox, ⟨phase, offset⟩)
        ((mailbox.withContents s.1.contents).release i, ⟨.Ended (result answer), s.1.offset⟩)) X := by
  refine (Ends.attempt (ends_call faults.unlock id _)).mono ?_ fun _ _ h => h
  intro answer s hs
  have hfile : s.1 = ⟨mailbox.contents, offset⟩ := by
    cases answer with
    | ok unlocked => exact hs
    | error error => exact hs
  rw [hfile]
  exact alone_unlocks hnext answer (hresult answer)

theorem performs_giveUp (error : MboxAppendError) :
    Performs delivery i (·.release i) P Q
      (do
        let _ ← attempt (unlock faults)
        throw error : FileOperation ω MboxAppendError PublishedDelivery)
      (.Unlocking error) (fun delivered => .Ended (.ok delivered))
      (fun error => .Ended (.error error)) := by
  intro mailbox offset world _ _
  exact Ends.bind (ends_unlock delivery i (.Unlocking error) (fun _ => .error error) rfl fun _ => rfl)
    fun _ _ hs => hs

/-- What a delivery reports whose record is visible. -/
def reported (path : Bytes) : Except IoError Unit → Except MboxAppendError PublishedDelivery
  | .error error => .error (.afterPublication error)
  | .ok () => .ok ⟨path⟩

theorem performs_publish :
    Performs delivery i (·.release i) Anywhere Anywhere (publish faults delivery.path) .Publishing
      (fun delivered => .Ended (.ok delivered)) (fun error => .Ended (.error error)) := by
  intro mailbox offset world _ _
  refine Ends.bind (ends_unlock delivery i .Publishing (reported delivery.path) rfl fun answer => ?_)
    fun answer s hs => ?_
  · cases answer with
    | ok unlocked => rfl
    | error error => rfl
  · cases answer with
    | ok unlocked => exact ⟨trivial, hs⟩
    | error error => exact hs

theorem performs_failBeforePublication {originalLen : Nat} {source : IoError}
    {operation : DeliveryOperation} :
    Performs delivery i (·.release i) Anywhere Q
      (failBeforePublication faults originalLen delivery.durability source operation)
      (.Truncating originalLen source operation) (fun delivered => .Ended (.ok delivered))
      (fun error => .Ended (.error error)) :=
  performs_rollbackWith.attempt (fun _ => performs_giveUp _) fun _ => performs_giveUp _

theorem performs_appendWithOperations {write : FileOperation ω IoError Unit}
    (hwrite : ∀ originalLen, Performs delivery i id AtEnd Anywhere write (.Stamping originalLen)
      (fun _ => delivery.written originalLen) (fun error => .Truncating originalLen error .Write)) :
    Performs delivery i (·.release i) Anywhere Anywhere
      (appendWithOperations faults delivery.path delivery.durability write)
      .Seeking (fun delivered => .Ended (.ok delivered)) (fun error => .Ended (.error error)) := by
  have hsought : Performs delivery i id Anywhere AtEnd (seekEnd faults) .Seeking .Stamping
      (fun error => .Closing (.error (.beforePublication error none .Write))) :=
    performs_seekEnd rfl (fun _ => rfl) fun _ => rfl
  unfold appendWithOperations
  refine hsought.attempt (fun originalLen => ?_) fun error mailbox offset world _ _ => alone_closes _
  refine (performs_writeDurably (hwrite originalLen)).attempt (fun _ => ?_) ?_
  · exact performs_syncParent.attempt (fun _ => performs_publish) fun _ => performs_failBeforePublication
  · rintro ⟨source, operation⟩
    exact performs_failBeforePublication

/-- From the lock on, `append` does what the delivery does when nobody else gets a turn. -/
theorem performs_append (postmark : Except IoError Postmark)
    (hfaults : ∀ found, postmark = .ok found → faults.WritesAll (delivery.record found)) :
    Performs delivery i (·.release i) Anywhere Anywhere
      (append faults delivery.path delivery.durability postmark delivery.message delivery.ending)
      .Seeking (fun delivered => .Ended (.ok delivered)) (fun error => .Ended (.error error)) := by
  unfold append
  cases postmark with
  | ok found => exact performs_appendWithOperations fun _ => performs_record (hfaults found rfl)
  | error error => exact performs_appendWithOperations fun _ => performs_unstamped error

end Refinement

/-! ### Within a run -/

section Runs

variable {ι : Type} [DecidableEq ι] {deliveries : ι → MailboxDelivery} {c c' : Deliveries ι} {i : ι}
variable {ω : Type} {faults : MboxFaults ω}

/-- The run from `c` goes on behind `c'` with the delivery `i` alone, until it has its result and the
mailbox is this file. -/
def GoesOn (deliveries : ι → MailboxDelivery) (c c' : Deliveries ι) (i : ι) (file : OpenFile)
    (result : Except MboxAppendError PublishedDelivery) : Prop :=
  ∃ c'', Run (deliverySystem deliveries) (fun _ => True) c c'' ∧ c''.shared.contents = file.contents ∧
    c''.shared.owner = none ∧ (c''.own i).phase = .Ended result ∧ ∀ j, j ≠ i → c''.own j = c'.own j

/-- A delivery that is about to look for the end of the file has the lock. -/
theorem owner_of_seeking (hstart : Undelivered c)
    (h : Run (deliverySystem deliveries) (fun _ => True) c c') (hlocked : (c'.own i).phase = .Seeking) : c'.shared.owner = some i := by
  rcases (sound_of_run hstart h i).stands with ⟨_, hwork⟩ | ⟨-, hapart⟩
  · exact hwork.owner
  · rw [hlocked] at hapart
    cases hapart

theorem goesOn_of_alone {mailbox : Mailbox ι} {file : OpenFile}
    {result : Except MboxAppendError PublishedDelivery}
    (h : Run (deliverySystem deliveries) (fun _ => True) c c') (howner : c'.shared.owner = some i)
    (hmailbox : mailbox = c'.shared.withContents file.contents)
    (halone : Alone (deliveries i) i (c'.shared, c'.own i)
      (mailbox.release i, ⟨.Ended result, file.offset⟩)) :
    GoesOn deliveries c c' i file result := by
  subst hmailbox
  refine ⟨_, h.solo (fun _ => True) i rfl (fun _ _ _ => trivial) halone, ?_, ?_, ?_, ?_⟩
  · simp [Mailbox.release, Mailbox.withContents, howner]
  · simp [Mailbox.release, Mailbox.withContents, howner]
  · simp only [Function.update_self]
  · intro j hj
    exact Function.update_of_ne hj _ _

/-- Wherever in a run a delivery has just got the lock, what `append` makes of the mailbox is one way for
the run to go on, whatever fails. -/
theorem append_is_a_delivery (hstart : Undelivered c)
    (h : Run (deliverySystem deliveries) (fun _ => True) c c') (hlocked : (c'.own i).phase = .Seeking)
    (postmark : Except IoError Postmark)
    (hfaults : ∀ found, postmark = .ok found → faults.WritesAll ((deliveries i).record found))
    (world : ω) :
    Ends (append faults (deliveries i).path (deliveries i).durability postmark (deliveries i).message
        (deliveries i).ending) (⟨c'.shared.contents, (c'.own i).offset⟩, world)
      (fun delivered s => GoesOn deliveries c c' i s.1 (.ok delivered))
      (fun error s => GoesOn deliveries c c' i s.1 (.error error)) := by
  have howner := owner_of_seeking hstart h hlocked
  have hwriter : c'.own i = ⟨.Seeking, (c'.own i).offset⟩ := by rw [← hlocked]
  have hperforms := performs_append postmark hfaults c'.shared (c'.own i).offset world howner trivial
  rw [← hwriter] at hperforms
  refine hperforms.mono ?_ ?_
  · exact fun delivered s hs => goesOn_of_alone h howner rfl hs.2
  · exact fun error s hs => goesOn_of_alone h howner rfl hs

/-- A system on which the first write fails after three bytes and nothing else does. -/
def fullDisk : MboxFaults Unit where
  seek _ := (none, ())
  write _ := (some (⟨.StorageFull, false, "no space"⟩, 3), ())
  sync _ _ := (none, ())
  truncate _ := (none, ())
  unlock _ := (none, ())

/-- A delivery of one byte. -/
def shortDelivery : MailboxDelivery := ⟨⟨3, 1⟩, [], ⟨[97], []⟩, .Normalize, .None⟩

/-- A mailbox that two deliveries find. -/
def foundMailbox : Deliveries Bool :=
  ⟨⟨[97, LF], [97, LF], none, [], 0⟩, fun _ => ⟨.Locking .Starting, 0⟩⟩

/-- One of the deliveries has got the lock. -/
def lockedMailbox : Deliveries Bool :=
  ⟨foundMailbox.shared.lockedBy true, Function.update foundMailbox.own true ⟨.Seeking, 0⟩⟩

/-- It runs out of space, the mailbox is cut back, and the other one may have the lock. -/
theorem append_is_a_delivery_full :
    GoesOn (fun _ => shortDelivery) foundMailbox lockedMailbox true ⟨[97, LF], 2⟩
      (.error (.beforePublication ⟨.StorageFull, false, "no space"⟩ none .Write)) := by
  have hstart : Run (deliverySystem fun _ : Bool => shortDelivery) (fun _ => True)
      foundMailbox foundMailbox := .start trivial
  have hlocked : Run (deliverySystem fun _ : Bool => shortDelivery) (fun _ => True)
      foundMailbox lockedMailbox :=
    hstart.solo (fun _ => True) true rfl (fun _ _ _ => trivial) (alone_locks rfl 0)
  obtain ⟨postmark, hpostmark⟩ : ∃ postmark : Postmark,
      postmark = ⟨[70, 114, 111, 109, 32, 97, LF], by decide⟩ := ⟨_, rfl⟩
  have hfaults : ∀ stamp, (.ok postmark : Except IoError Postmark) = .ok stamp →
      fullDisk.WritesAll (shortDelivery.record stamp) := by
    rintro stamp hstamp world error written hfails
    cases hstamp
    cases hfails
    refine ⟨by decide, ?_⟩
    rw [hpostmark]
    decide
  subst hpostmark
  exact append_is_a_delivery ⟨fun _ => rfl, rfl, rfl, rfl⟩ hlocked rfl _ hfaults ()

end Runs

end Mbox

end ProcmailRs
