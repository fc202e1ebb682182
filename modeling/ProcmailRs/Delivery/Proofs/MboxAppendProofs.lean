import ProcmailRs.Delivery.MboxAppend

/-!
# What a failed append leaves behind

Whatever fails, and whenever, the mailbox holds what the result of the append says: the old contents, or
these and the whole record. Only where the file could not be cut back may it hold something else, and
then the error says so.
-/

namespace ProcmailRs

namespace Mbox

open Outcome

variable {ω : Type} (faults : MboxFaults ω)

/-! ### Operations -/

theorem ends_call (fault : ω → Option IoError × ω) (change : OpenFile → OpenFile)
    (s : OpenFile × ω) :
    Ends (call fault change) s (fun _ s' => s'.1 = change s.1) (fun _ s' => s'.1 = s.1) := by
  unfold Ends call
  rcases hfault : fault s.2 with ⟨_ | error, world⟩
  · simp only [hfault]
  · simp only [hfault]

theorem ends_seekEnd (s : OpenFile × ω) :
    Ends (seekEnd faults) s
      (fun length s' => s'.1 = s.1.seekEnd ∧ length = s.1.contents.length)
      (fun _ s' => s'.1 = s.1) := by
  refine Ends.bind (ends_call faults.seek OpenFile.seekEnd s) fun _ s' hs' => ?_
  show s'.1 = s.1.seekEnd ∧ s'.1.contents.length = s.1.contents.length
  exact ⟨hs', by rw [hs']; rfl⟩

/-- At the end of the file a write appends. -/
theorem contents_write_seekEnd (file : OpenFile) (bytes : Bytes) :
    (file.seekEnd.write bytes).contents = file.contents ++ bytes := by
  simp [OpenFile.seekEnd, OpenFile.write]

/-- A file is cut back to what it was before something was appended. -/
theorem contents_truncate {file : OpenFile} {original added : Bytes}
    (h : file.contents = original ++ added) :
    (file.truncate original.length).contents = original := by
  simp [OpenFile.truncate, h]

/-! ### Writing -/

/-- At the end of a file the write appends `record`, or a part of its beginning when it fails. -/
def Appends (record : Bytes) (write : FileOperation ω IoError Unit) : Prop :=
  ∀ s : OpenFile × ω, s.1.offset = s.1.contents.length →
    Ends write s (fun _ s' => s'.1.contents = s.1.contents ++ record)
      (fun _ s' => ∃ written, s'.1.contents = s.1.contents ++ record.take written)

theorem appends_writeBytes (record : Bytes) : Appends record (writeBytes faults record) := by
  rintro ⟨file, world⟩ hoffset
  have hend : file = file.seekEnd := by
    rw [OpenFile.seekEnd, ← show file.offset = file.contents.length from hoffset]
  have happend := contents_write_seekEnd file
  rw [← hend] at happend
  unfold Ends writeBytes
  rcases hfault : faults.write world with ⟨_ | ⟨error, written⟩, world'⟩
  · simp only [hfault]
    exact happend record
  · simp only [hfault]
    exact ⟨written, happend _⟩

/-- The record is written whole, or something may have been appended. -/
theorem ends_writeDurably (durability : Durability) {record : Bytes}
    {write : FileOperation ω IoError Unit} (hwrite : Appends record write) (s : OpenFile × ω)
    (hoffset : s.1.offset = s.1.contents.length) :
    Ends (writeDurably faults durability write) s
      (fun _ s' => s'.1.contents = s.1.contents ++ record)
      (fun _ s' => ∃ added, s'.1.contents = s.1.contents ++ added) := by
  refine Ends.bind (Ends.attempt (hwrite s hoffset)) fun result s' hs' => ?_
  cases result with
  | error error =>
    obtain ⟨written, hcontents⟩ := hs'
    exact ⟨record.take written, hcontents⟩
  | ok value =>
    cases durability with
    | None => exact hs'
    | File | Full =>
      refine Ends.bind (Ends.attempt (ends_call (faults.sync .File) id s')) fun result s'' hs'' => ?_
      cases result with
      | error error => exact ⟨record, by rw [show s''.1 = s'.1 from hs'']; exact hs'⟩
      | ok value =>
        show s''.1.contents = _
        rw [show s''.1 = s'.1 from hs'']
        exact hs'

theorem ends_syncParent (durability : Durability) (s : OpenFile × ω) :
    Ends (syncParent faults durability) s (fun _ s' => s'.1 = s.1) (fun _ s' => s'.1 = s.1) := by
  unfold syncParent
  split
  · exact ends_call _ id s
  · exact rfl

/-! ### Taking back -/

/-- A rollback that succeeds has restored the contents. -/
theorem ends_rollbackWith (durability : Durability) {original added : Bytes} (s : OpenFile × ω)
    (hcontents : s.1.contents = original ++ added) :
    Ends (rollbackWith faults original.length durability) s
      (fun _ s' => s'.1.contents = original) (fun _ _ => True) := by
  refine Ends.bind ((ends_call faults.truncate _ s).mono (fun _ _ h => h) fun _ _ _ => trivial) ?_
  intro _ s₁ h₁
  have hcut : s₁.1.contents = original := by
    rw [h₁]
    exact contents_truncate hcontents
  refine Ends.bind ((ends_seekEnd faults s₁).mono (fun _ _ h => h) fun _ _ _ => trivial) ?_
  rintro _ s₂ ⟨h₂, -⟩
  have hseek : s₂.1.contents = original := by
    rw [h₂]
    exact hcut
  split
  · refine (ends_call (faults.sync .File) id s₂).mono (fun _ s₃ h₃ => ?_) fun _ _ _ => trivial
    rw [show s₃.1 = s₂.1 from h₃]
    exact hseek
  · exact hseek

/-- What an error without publication says about the contents. -/
def Unpublished (original : Bytes) (error : MboxAppendError) (s : OpenFile × ω) : Prop :=
  error.published = false ∧ (error.rollback = none → s.1.contents = original)

theorem ends_failBeforePublication (durability : Durability) (source : IoError)
    (operation : DeliveryOperation) {original added : Bytes} (s : OpenFile × ω)
    (hcontents : s.1.contents = original ++ added) :
    Ends (failBeforePublication faults original.length durability source operation) s
      (fun _ _ => False) (Unpublished original) := by
  refine Ends.bind (Ends.attempt (ends_rollbackWith faults durability s hcontents)) ?_
  intro rollback s₁ h₁
  refine Ends.bind (Ends.attempt (ends_call faults.unlock id s₁)) fun unlocked s₂ h₂ => ?_
  have hfile : s₂.1 = s₁.1 := by
    cases unlocked with
    | ok value => exact h₂
    | error error => exact h₂
  refine ⟨rfl, fun hrollback => ?_⟩
  cases rollback with
  | error error => exact nomatch hrollback
  | ok value =>
    rw [hfile]
    exact h₁

theorem ends_publish (path : Bytes) (s : OpenFile × ω) :
    Ends (publish faults path) s (fun delivery s' => delivery = ⟨path⟩ ∧ s'.1 = s.1)
      (fun error s' => error.published = true ∧ s'.1 = s.1) := by
  refine Ends.bind (Ends.attempt (ends_call faults.unlock id s)) fun unlocked s' hs' => ?_
  cases unlocked with
  | ok value => exact ⟨rfl, hs'⟩
  | error error => exact ⟨rfl, hs'⟩

/-! ### The append -/

/-- An append that reports publication has written the whole record, and one that does not has taken it
back or reports that it could not. -/
theorem ends_appendWithOperations (path : Bytes) (durability : Durability) {record : Bytes}
    {write : FileOperation ω IoError Unit} (hwrite : Appends record write) (s : OpenFile × ω) :
    Ends (appendWithOperations faults path durability write) s
      (fun delivery s' => delivery = ⟨path⟩ ∧ s'.1.contents = s.1.contents ++ record)
      (fun error s' => error.published = true ∧ s'.1.contents = s.1.contents ++ record ∨
        Unpublished s.1.contents error s') := by
  refine Ends.bind (Ends.attempt (ends_seekEnd faults s)) fun length s₁ h₁ => ?_
  cases length with
  | error error =>
    refine .inr ⟨rfl, fun _ => ?_⟩
    rw [show s₁.1 = s.1 from h₁]
  | ok length =>
    obtain ⟨hfile, rfl⟩ := h₁
    have hcontents : s₁.1.contents = s.1.contents := by
      rw [hfile]
      rfl
    have hoffset : s₁.1.offset = s₁.1.contents.length := by
      rw [hfile]
      rfl
    refine Ends.bind (Ends.attempt (ends_writeDurably faults durability hwrite s₁ hoffset)) ?_
    intro written s₂ h₂
    cases written with
    | error error =>
      obtain ⟨added, hadded⟩ := h₂
      rw [hcontents] at hadded
      refine (ends_failBeforePublication faults durability error.1 error.2 s₂ hadded).mono ?_ ?_
      · exact fun _ _ h => h.elim
      · exact fun _ _ h => .inr h
    | ok value =>
      have hrecord : s₂.1.contents = s.1.contents ++ record := by
        rw [← hcontents]
        exact h₂
      refine Ends.bind (Ends.attempt (ends_syncParent faults durability s₂)) fun synced s₃ h₃ => ?_
      cases synced with
      | error error =>
        have hadded : s₃.1.contents = s.1.contents ++ record := by
          rw [show s₃.1 = s₂.1 from h₃]
          exact hrecord
        refine (ends_failBeforePublication faults durability error .SyncDirectory s₃ hadded).mono ?_ ?_
        · exact fun _ _ h => h.elim
        · exact fun _ _ h => .inr h
      | ok value =>
        have hadded : s₃.1.contents = s.1.contents ++ record := by
          rw [show s₃.1 = s₂.1 from h₃]
          exact hrecord
        refine (ends_publish faults path s₃).mono ?_ ?_
        · rintro delivery s₄ ⟨hdelivery, h₄⟩
          exact ⟨hdelivery, by rw [h₄]; exact hadded⟩
        · rintro error s₄ ⟨hpublished, h₄⟩
          exact .inl ⟨hpublished, by rw [h₄]; exact hadded⟩

/-- The result of an append says what the mailbox holds. -/
structure Reported (original record : Bytes) (error : MboxAppendError) (contents : Bytes) : Prop where
  published : error.published = true → contents = original ++ record
  restored : error.published = false → error.rollbackFailed = false → contents = original
  corrupted : error.published = false → contents ≠ original →
    error.rollbackFailed = true ∧ error.failureClass = .Internal

theorem reported_of_ends {original record : Bytes} {error : MboxAppendError} {s : OpenFile × ω}
    (h : error.published = true ∧ s.1.contents = original ++ record ∨
      Unpublished original error s) : Reported original record error s.1.contents := by
  rcases h with ⟨hpublished, hcontents⟩ | ⟨hpublished, hrollback⟩
  · constructor
    · exact fun _ => hcontents
    · exact fun hunpublished => absurd (hpublished.symm.trans hunpublished) (by simp)
    · exact fun hunpublished => absurd (hpublished.symm.trans hunpublished) (by simp)
  · constructor
    · exact fun h => absurd (h.symm.trans hpublished) (by simp)
    · exact fun _ hfailed => hrollback (by simpa [MboxAppendError.rollbackFailed] using hfailed)
    · intro _ hcontents
      cases hr : error.rollback with
      | none => exact absurd (hrollback hr) hcontents
      | some failed =>
        simp [MboxAppendError.rollbackFailed, MboxAppendError.failureClass, hr]

/-- Whatever fails, the mailbox holds what the append reports. -/
theorem append_reports_contents (path : Bytes) (durability : Durability) (record : Bytes)
    (file : OpenFile) (world : ω) :
    Ends (appendWithOperations faults path durability (writeBytes faults record)) (file, world)
      (fun delivery s => delivery = ⟨path⟩ ∧ s.1.contents = file.contents ++ record)
      (fun error s => Reported file.contents record error s.1.contents) :=
  (ends_appendWithOperations faults path durability (appends_writeBytes faults record) _).mono
    (fun _ _ h => h) fun _ _ h => reported_of_ends h

end Mbox

end ProcmailRs
