import ProcmailRs.HeaderEdit.Proofs.ArenaProofs
import ProcmailRs.HeaderEdit.Proofs.HandleProofs

/-!
# The allowance of an edited header

An insertion first looks for a hole and compares sizes with the ceiling only when there is none. While
no hole is larger than what the ceiling leaves, this admits a field exactly when the live fields and
the new one fit. An arena that is longer than the ceiling may have larger holes; it gets there when a
header with deleted fields is finished or taken over under lower limits.
-/

namespace ProcmailRs

open Ranges
open Outcome (finalState)
open Replay (replay Throughout)

namespace HeaderStore

/-- A field is admitted exactly when the live fields and the new one fit under the ceiling. -/
def AdmitsByLiveSize (store : HeaderStore) : Prop :=
  ∀ index text, index ≤ store.fields.length → text ≠ [] →
    ((∃ result, store.insert index text = .ok () result) ↔
      store.liveSize + text.length ≤ store.ceiling)

/-- No hole is larger than what the ceiling leaves. -/
def HolesWithin (store : HeaderStore) : Prop :=
  ∀ hole ∈ store.free, store.liveSize + hole.len ≤ store.ceiling

instance (store : HeaderStore) : Decidable store.HolesWithin := inferInstanceAs (Decidable (∀ _ ∈ _, _))

/-- A field that fits into a hole is admitted whatever the ceiling. -/
theorem Wf.insert_of_hole {store : HeaderStore} (h : store.Wf) {index : Nat} {text : Bytes}
    (hindex : index ≤ store.fields.length) (htext : text ≠ []) {hole : Range}
    (hhole : hole ∈ store.free) (hfit : text.length ≤ hole.len) :
    ∃ result, store.insert index text = .ok () result := by
  obtain ⟨position, hfound⟩ : ∃ position, store.findHole text.length = some position :=
    Option.isSome_iff_exists.mp (List.findIdx?_isSome.trans
      (List.any_eq_true.mpr ⟨hole, hhole, by simpa using hfit⟩))
  have hready : store.ready text.length = store := by
    rw [HeaderStore.ready, if_neg (by simp [hfound])]
  rw [HeaderStore.insert, if_neg (by simpa using htext), hready]
  rcases h.place_cases hindex htext with ⟨result, hres, -⟩ | ⟨-, hnone, -⟩
  · exact ⟨result, hres⟩
  · rw [hfound] at hnone
    cases hnone

/-- What is stored behind the last field fits under the ceiling. -/
theorem place_le_of_no_hole {store result : HeaderStore} {index : Nat} {text : Bytes}
    (hnone : store.findHole text.length = none) (hok : store.place index text = .ok () result) :
    store.bytes.length + text.length ≤ store.ceiling := by
  by_contra hover
  have hlimit : store.bytes.length + text.length > store.ceiling := by omega
  simp only [HeaderStore.place, hnone, checkLimit, if_pos hlimit] at hok
  cases hok

/-- Without a hole for it, a field is admitted only under the ceiling. -/
theorem Wf.insert_le_of_no_hole {store result : HeaderStore} (h : store.Wf) {index : Nat}
    {text : Bytes} (htext : text ≠ []) (hnone : store.findHole text.length = none)
    (hok : store.insert index text = .ok () result) :
    store.liveSize + text.length ≤ store.ceiling := by
  obtain ⟨hwf, htexts, hceil, -, -⟩ := h.ready text.length
  have hready : (store.ready text.length).findHole text.length = none := by
    unfold HeaderStore.ready
    split_ifs
    · rfl
    · exact hnone
  rw [HeaderStore.insert, if_neg (by simpa using htext)] at hok
  have hroom := place_le_of_no_hole hready hok
  have hlive := hwf.liveSize_add_free
  have hsame : (store.ready text.length).liveSize = store.liveSize := by
    rw [liveSize, htexts, ← liveSize]
  omega

theorem Wf.admitsByLiveSize_iff {store : HeaderStore} (h : store.Wf) :
    store.AdmitsByLiveSize ↔ store.HolesWithin := by
  constructor
  · intro hadmits hole hhole
    have hne := h.partition.nonempty hole (List.mem_append_right _ hhole)
    have hlen : (List.replicate hole.len SP).length = hole.len := List.length_replicate
    have htext : List.replicate hole.len SP ≠ [] := by
      rw [← List.length_pos_iff, hlen, Range.len]
      omega
    have hok := h.insert_of_hole (Nat.zero_le _) htext hhole hlen.le
    have hfit := (hadmits 0 _ (Nat.zero_le _) htext).mp hok
    rwa [hlen] at hfit
  · intro hholes index text hindex htext
    constructor
    · rintro ⟨result, hok⟩
      cases hfound : store.findHole text.length with
      | none => exact h.insert_le_of_no_hole htext hfound hok
      | some position =>
        obtain ⟨hole, hat, hfit⟩ := findHole_some hfound
        have hle := hholes hole (List.mem_of_getElem? hat)
        omega
    · intro hfit
      rcases h.insert_cases hindex htext with ⟨result, hok, -⟩ | ⟨result, -, -, -, hover⟩
      · exact ⟨result, hok⟩
      · omega

/-- A hole takes no more than the arena has. -/
theorem Wf.holesWithin {store : HeaderStore} (h : store.Wf)
    (hroom : store.bytes.length ≤ store.ceiling) : store.HolesWithin := by
  intro hole hhole
  have hlive := h.liveSize_add_free
  have hle : hole.len ≤ (store.free.map Range.len).sum :=
    List.single_le_sum (fun _ _ => Nat.zero_le _) _ (List.mem_map_of_mem hhole)
  omega

end HeaderStore

namespace EditedHeader

/-- The arena of the header is in order and not longer than the ceiling `store_mut` would set. -/
structure Roomy (header : EditedHeader) : Prop where
  tidy : header.storage.store.Tidy
  room : header.storage.store.bytes.length ≤ header.ceiling

/-- The step leaves the header a ceiling that its arena does not exceed: the limits it is taken over
with, or the size that `finish` records, are large enough for the deleted data as well. -/
def KeepsRoom (header : EditedHeader) : EditEvent → Prop
  | .Adopt limits => header.storage.store.bytes.length ≤ max header.len limits.headersSize
  | .Finish _ =>
    header.unique = true → header.storage.store.bytes.length ≤
      max header.parts.flatten.length header.limits.headersSize
  | _ => True

instance (header : EditedHeader) (event : EditEvent) : Decidable (header.KeepsRoom event) := by
  unfold KeepsRoom
  split
  · infer_instance
  · infer_instance
  · infer_instance

instance (header : EditedHeader) (event : EditEvent) : Decidable (header.Legal event) := by
  unfold Legal
  split
  · infer_instance
  · infer_instance

/-- `finishInPlace` ends as `finish` does. -/
theorem toExcept_finishInPlace (header : EditedHeader) (bodyLen : Nat) :
    Outcome.toExcept (finishInPlace bodyLen header) = header.finish bodyLen := by
  unfold finishInPlace finish
  cases serializedSize header.texts header.storage.separator header.storage.lineEnding with
  | error e => rfl
  | ok size =>
    obtain ⟨-, -, -, -, hlimits, -⟩ := recordSize_frame header size
    rw [ok_bind, ← hlimits]
    dsimp only
    cases (header.recordSize size).validate bodyLen (header.recordSize size).limits with
    | error e => rfl
    | ok u =>
      rw [ok_bind]
      cases (header.recordSize size).reindexed size with
      | error e => rfl
      | ok indexed => rfl

theorem storeMut_frame (header : EditedHeader) :
    header.storeMut.storage.store = header.storage.store.under header.ceiling ∧
      header.storeMut.storage.size = header.storage.size ∧
      header.storeMut.limits = header.limits := by
  unfold storeMut makeMut
  split_ifs
  · exact ⟨rfl, rfl, rfl⟩
  · exact ⟨rfl, rfl, rfl⟩

theorem setStatus_frame (header : EditedHeader) (status : MessageStatus) :
    (header.setStatus status).storage.store = header.storage.store ∧
      (header.setStatus status).storage.size = header.storage.size ∧
      (header.setStatus status).limits = header.limits := by
  unfold setStatus makeMut
  split_ifs
  · exact ⟨rfl, rfl, rfl⟩
  · exact ⟨rfl, rfl, rfl⟩
  · exact ⟨rfl, rfl, rfl⟩

theorem store_of_fresh {bytes : Bytes} {limits : MessageLimits} {ceiling size : Nat}
    {status : MessageStatus} {header : EditedHeader}
    (h : fresh bytes limits ceiling size status = .ok header) :
    HeaderStore.new (splitFields bytes).1 ceiling = .ok header.storage.store ∧
      header.limits = limits ∧ header.len = size := by
  obtain ⟨store, hstore, h⟩ := bind_eq_ok h
  obtain rfl := Except.ok.inj h
  exact ⟨hstore, rfl, rfl⟩

theorem recordLineEnding_len (header : EditedHeader) : header.recordLineEnding.len = header.len := by
  unfold recordLineEnding updateUnique
  split_ifs
  · rfl
  · rfl

theorem recordSize_len (header : EditedHeader) (size : Nat) :
    (header.recordSize size).len = header.len ∨
      header.unique = true ∧ (header.recordSize size).len = size := by
  unfold recordSize updateUnique
  split_ifs with hunique
  · exact Or.inr ⟨hunique, rfl⟩
  · exact Or.inl rfl

/-- What `finish` may leave, whether it succeeds or fails: the arena there was, under the size there
was or the recorded one, or an arena that has been indexed afresh. -/
def Settles (header result : EditedHeader) : Prop :=
  result.limits = header.limits ∧
    ((result.storage.store = header.storage.store ∧
        (result.len = header.len ∨
          header.unique = true ∧ result.len = header.parts.flatten.length)) ∨
      ∃ fields, HeaderStore.new fields header.limits.headersSize = .ok result.storage.store)

theorem Settles.recordLineEnding {header result : EditedHeader} (h : header.Settles result) :
    header.Settles result.recordLineEnding := by
  obtain ⟨-, hstore, -, hlimits, -⟩ := recordLineEnding_frame result
  rw [Settles, hlimits, hstore, recordLineEnding_len]
  exact h

theorem settles_recordSize (header : EditedHeader) :
    header.Settles (header.recordSize header.parts.flatten.length) := by
  obtain ⟨-, -, hstore, -, hlimits, -⟩ := recordSize_frame header header.parts.flatten.length
  exact ⟨hlimits, Or.inl ⟨hstore, recordSize_len header _⟩⟩

theorem settles_finishInPlace (header : EditedHeader) (bodyLen : Nat) :
    header.Settles (finalState (finishInPlace bodyLen header)) := by
  have hrecorded := settles_recordSize header
  unfold finishInPlace
  cases hsize : serializedSize header.texts header.storage.separator header.storage.lineEnding with
  | error e => exact ⟨rfl, Or.inl ⟨rfl, Or.inl rfl⟩⟩
  | ok size =>
    obtain rfl := serializedSize_eq hsize
    dsimp only
    cases (header.recordSize header.parts.flatten.length).validate bodyLen
        (header.recordSize header.parts.flatten.length).limits with
    | error e => exact hrecorded
    | ok u =>
      dsimp only
      cases hindexed : (header.recordSize header.parts.flatten.length).reindexed
          header.parts.flatten.length with
      | error e => exact hrecorded
      | ok indexed =>
        refine Settles.recordLineEnding ?_
        unfold reindexed at hindexed
        split_ifs at hindexed
        · obtain ⟨hstore, hlimits, -⟩ := store_of_fresh hindexed
          rw [hrecorded.1] at hstore hlimits
          exact ⟨hlimits, Or.inr ⟨_, hstore⟩⟩
        · obtain rfl := Except.ok.inj hindexed
          exact hrecorded

/-! ### Runs -/

theorem Roomy.of_new {bytes : Bytes} {limits : MessageLimits} {header : EditedHeader}
    (h : EditedHeader.new (.Raw bytes) limits = .ok header) : header.Roomy := by
  obtain ⟨hstore, hlimits, hlen⟩ := store_of_fresh h
  have hheld := HeaderStore.held_of_new hstore
  have hroom := hheld.room
  rw [Nat.max_eq_right (Nat.zero_le _), Nat.max_comm] at hroom
  refine ⟨hheld.tidy, ?_⟩
  rw [ceiling, hlen, hlimits]
  exact hroom

theorem tidy_after {header : EditedHeader} (h : header.storage.store.Tidy) {event : EditEvent}
    (hlegal : header.Legal event) : (header.after event).storage.store.Tidy := by
  cases event with
  | Adopt limits => exact h
  | Own => exact h
  | Edit operation =>
    obtain ⟨hstore, -, -⟩ := storeMut_frame header
    have hafter := @HeaderStore.Tidy.after _ h ⟨header.ceiling, operation⟩ hlegal
    unfold HeaderStore.after at hafter
    rw [← hstore] at hafter
    exact hafter
  | SetStatus status =>
    show (header.setStatus status).storage.store.Tidy
    rw [(setStatus_frame header status).1]
    exact h
  | Finish bodyLen =>
    obtain ⟨-, ⟨hstore, -⟩ | ⟨fields, hnew⟩⟩ := settles_finishInPlace header bodyLen
    · show (finalState (finishInPlace bodyLen header)).storage.store.Tidy
      rw [hstore]
      exact h
    · exact (HeaderStore.held_of_new hnew).tidy

theorem Roomy.after {header : EditedHeader} (h : header.Roomy) {event : EditEvent}
    (hlegal : header.Legal event) (hkeeps : header.KeepsRoom event) : (header.after event).Roomy := by
  refine ⟨tidy_after h.tidy hlegal, ?_⟩
  have hroom := h.room
  cases event with
  | Adopt limits => exact hkeeps
  | Own => exact hroom
  | Edit operation =>
    obtain ⟨hstore, hsize, hlimits⟩ := storeMut_frame header
    have hheld : HeaderStore.Held header.ceiling 0 header.storeMut.storage.store := by
      rw [hstore]
      exact ⟨h.tidy.under _, rfl, hroom.trans (le_max_right _ _)⟩
    have hrange : operation.InRange header.storeMut.storage.store := by
      rw [hstore]
      exact hlegal
    have hrun := (hheld.run hrange).room
    rw [Nat.max_eq_right (Nat.zero_le _)] at hrun
    have hceiling : (header.after (.Edit operation)).ceiling = header.ceiling := by
      show max header.storeMut.storage.size header.storeMut.limits.headersSize = _
      rw [hsize, hlimits]
      rfl
    rw [hceiling]
    exact hrun
  | SetStatus status =>
    obtain ⟨hstore, hsize, hlimits⟩ := setStatus_frame header status
    show (header.setStatus status).storage.store.bytes.length ≤
      max (header.setStatus status).storage.size (header.setStatus status).limits.headersSize
    rw [hstore, hsize, hlimits]
    exact hroom
  | Finish bodyLen =>
    obtain ⟨hlimits, ⟨hstore, hlen⟩ | ⟨fields, hnew⟩⟩ := settles_finishInPlace header bodyLen
    · show (finalState (finishInPlace bodyLen header)).storage.store.bytes.length ≤
        max (finalState (finishInPlace bodyLen header)).len
          (finalState (finishInPlace bodyLen header)).limits.headersSize
      rw [hstore, hlimits]
      rcases hlen with hlen | ⟨hunique, hlen⟩
      · rw [hlen]
        exact hroom
      · rw [hlen]
        exact hkeeps hunique
    · have hheld := (HeaderStore.held_of_new hnew).room
      rw [Nat.max_eq_right (Nat.zero_le _), ← hlimits] at hheld
      exact hheld.trans (le_max_right _ _)

theorem tidy_replay {header : EditedHeader} (h : header.storage.store.Tidy) {events : List EditEvent}
    (hlegal : Throughout EditedHeader.after Legal header events) :
    (replay EditedHeader.after header events).storage.store.Tidy := by
  induction events generalizing header with
  | nil => exact h
  | cons event events ih =>
    obtain ⟨hevent, hevents⟩ := Replay.throughout_cons.mp hlegal
    exact ih (tidy_after h hevent) hevents

theorem Roomy.replay {header : EditedHeader} (h : header.Roomy) {events : List EditEvent}
    (hlegal : Throughout EditedHeader.after Legal header events)
    (hkeeps : Throughout EditedHeader.after KeepsRoom header events) :
    (replay EditedHeader.after header events).Roomy := by
  induction events generalizing header with
  | nil => exact h
  | cons event events ih =>
    obtain ⟨hevent, hevents⟩ := Replay.throughout_cons.mp hlegal
    obtain ⟨hroom, hrooms⟩ := Replay.throughout_cons.mp hkeeps
    exact ih (h.after hevent hroom) hevents hrooms

/-- In every state of a run, the arena that `store_mut` hands out admits fields by the size of the
live fields exactly when no hole is larger than what the ceiling leaves. It always does in a run that
never leaves an arena longer than the ceiling. -/
theorem admitsByLiveSize_iff_of_run {bytes : Bytes} {limits : MessageLimits} {header : EditedHeader}
    {events : List EditEvent} (hnew : EditedHeader.new (.Raw bytes) limits = .ok header)
    (hlegal : Throughout EditedHeader.after Legal header events) :
    let store := (replay EditedHeader.after header events).storeMut.storage.store
    (store.AdmitsByLiveSize ↔ store.HolesWithin) ∧
      (Throughout EditedHeader.after KeepsRoom header events → store.AdmitsByLiveSize) := by
  intro store
  have hroomy := Roomy.of_new hnew
  have htidy := tidy_replay hroomy.tidy hlegal
  obtain ⟨hstore, -, -⟩ := storeMut_frame (replay EditedHeader.after header events)
  have hwf : store.Wf := by
    show (EditedHeader.storeMut _).storage.store.Wf
    rw [hstore]
    exact htidy.wf.under _
  refine ⟨hwf.admitsByLiveSize_iff, fun hkeeps => ?_⟩
  refine hwf.admitsByLiveSize_iff.mpr (hwf.holesWithin ?_)
  show (EditedHeader.storeMut _).storage.store.bytes.length ≤ (EditedHeader.storeMut _).storage.store.ceiling
  rw [hstore]
  exact (hroomy.replay hlegal hkeeps).room

/-- Three fields, the middle one longer than the others. -/
def loweredHeader : Bytes := strBytes "A: 1\nX: 34567890123456789\nB: 2\n\n"

/-- A header of three fields whose limits are below what they hold. -/
def loweredStart : EditedHeader :=
  ⟨⟨⟨strBytes "A: 1\nX: 34567890123456789\nB: 2\n",
      [⟨⟨0, 5⟩, some ⟨0, 1⟩⟩, ⟨⟨5, 26⟩, some ⟨5, 6⟩⟩, ⟨⟨26, 31⟩, some ⟨26, 27⟩⟩], [], 99⟩,
    [LF], .Lf, 32, MessageStatus.none, none, none⟩, ⟨99, 99, 99, 99, 99⟩, true⟩

/-- The long field is deleted, and the header is taken over under lower limits. -/
def loweredEvents : List EditEvent :=
  [.Edit (.RemoveMatching (strBytes "X")), .Finish 0, .Adopt ⟨12, 12, 12, 12, 12⟩]

theorem new_loweredHeader :
    EditedHeader.new (.Raw loweredHeader) ⟨99, 99, 99, 99, 99⟩ = .ok loweredStart := by
  decide +kernel

/-- Before the limits are lowered, the hole is within the ceiling. -/
theorem admitsByLiveSize_before_lowered :
    (replay EditedHeader.after loweredStart
      (loweredEvents.take 2)).storeMut.storage.store.AdmitsByLiveSize := by
  have hlegal : Throughout EditedHeader.after Legal loweredStart (loweredEvents.take 2) := by
    decide +kernel
  exact (admitsByLiveSize_iff_of_run new_loweredHeader hlegal).2 (by decide +kernel)

/-- Under the lower limits, a field that does not fit is put into the hole. -/
theorem hole_admits_over_ceiling :
    EditedHeader.new (.Raw loweredHeader) ⟨99, 99, 99, 99, 99⟩ = .ok loweredStart ∧
      Throughout EditedHeader.after Legal loweredStart loweredEvents ∧
      ¬ (replay EditedHeader.after loweredStart loweredEvents).storeMut.storage.store.AdmitsByLiveSize
    := by
  refine ⟨by decide +kernel, by decide +kernel, fun h => ?_⟩
  have hstore : (replay EditedHeader.after loweredStart loweredEvents).storeMut.storage.store =
      ⟨strBytes "A: 1\nX: 34567890123456789\nB: 2\n",
        [⟨⟨0, 5⟩, some ⟨0, 1⟩⟩, ⟨⟨26, 31⟩, some ⟨26, 27⟩⟩], [⟨5, 26⟩], 12⟩ := by
    decide +kernel
  rw [hstore] at h
  have hfit := (h 2 (strBytes "C: 34567\n") (by decide) (by decide)).mp ⟨_, rfl⟩
  exact absurd hfit (by decide +kernel)

end EditedHeader

end ProcmailRs
