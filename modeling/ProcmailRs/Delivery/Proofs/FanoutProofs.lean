import ProcmailRs.Delivery.Fanout

/-!
# Fan-out is all or nothing until commit

The log of a fan-out says what has become of every sink. As long as the message is taken in it holds
writes only; when something fails the sinks that are open are aborted, each of them once. A fan-out that
has been filled holds all sinks that were opened, in their order, and each of them has received the
message.
-/

namespace ProcmailRs

open Outcome

variable {ω : Type}

/-! ### The log -/

namespace SinkEvent

/-- The event ends the sink. -/
def endsSink (sink : Nat) : SinkEvent → Bool
  | Committed other _ => other == sink
  | Aborted other => other == sink
  | Dropped other => other == sink
  | _ => false

/-- The event ends the sink it names. -/
def isEnding : SinkEvent → Bool
  | Committed _ _ => true
  | Aborted _ => true
  | Dropped _ => true
  | _ => false

/-- The event tells of a sink that failed. -/
def isFailure : SinkEvent → Bool
  | WriteFailed _ => true
  | StagingFailed => true
  | _ => false

/-- Bytes that a sink has taken. -/
def isWrite : SinkEvent → Bool
  | Wrote _ _ => true
  | _ => false

/-- What the sink has taken with this event. -/
def taken (sink : Nat) : SinkEvent → Bytes
  | Wrote other bytes => if other = sink then bytes else []
  | _ => []

theorem endsSink_of_isWrite {event : SinkEvent} (h : event.isWrite = true) (sink : Nat) :
    event.endsSink sink = false := by
  cases event with
  | Wrote other bytes => rfl
  | _ => exact nomatch h

theorem isEnding_of_isWrite {event : SinkEvent} (h : event.isWrite = true) :
    event.isEnding = false := by
  cases event with
  | Wrote other bytes => rfl
  | _ => exact nomatch h

theorem isFailure_of_isWrite {event : SinkEvent} (h : event.isWrite = true) :
    event.isFailure = false := by
  cases event with
  | Wrote other bytes => rfl
  | _ => exact nomatch h

end SinkEvent

/-- What the sink has received. -/
def received (sink : Nat) (log : List SinkEvent) : Bytes := log.flatMap (SinkEvent.taken sink)

/-- How the sink was ended, every time that it was. -/
def endings (sink : Nat) (log : List SinkEvent) : List SinkEvent :=
  log.filter (SinkEvent.endsSink sink)

/-- How the sinks were ended, in the order in which that happened. -/
def ended (log : List SinkEvent) : List SinkEvent := log.filter SinkEvent.isEnding

theorem received_append (sink : Nat) (log log' : List SinkEvent) :
    received sink (log ++ log') = received sink log ++ received sink log' := List.flatMap_append

theorem endings_append (sink : Nat) (log log' : List SinkEvent) :
    endings sink (log ++ log') = endings sink log ++ endings sink log' := List.filter_append ..

theorem endings_of_isWrite {log : List SinkEvent} (h : ∀ event ∈ log, event.isWrite = true)
    (sink : Nat) : endings sink log = [] := by
  refine List.filter_eq_nil_iff.mpr fun event hevent => ?_
  rw [SinkEvent.endsSink_of_isWrite (h event hevent)]
  exact Bool.false_ne_true

/-- Every sink of a list is ended once by an event of its own. -/
theorem endings_map (event : Nat → SinkEvent)
    (hevent : ∀ sink other, (event other).endsSink sink = (other == sink)) {sinks : List Nat}
    (hnodup : sinks.Nodup) (sink : Nat) :
    endings sink (sinks.map event) = if sink ∈ sinks then [event sink] else [] := by
  induction sinks with
  | nil => rfl
  | cons other rest ih =>
    obtain ⟨hother, hrest⟩ := List.nodup_cons.mp hnodup
    have ih := ih hrest
    unfold endings at ih ⊢
    rw [List.map_cons, List.filter_cons, hevent, ih]
    by_cases hsink : other = sink
    · subst hsink
      simp [hother]
    · have hne : ¬sink = other := fun h => hsink h.symm
      simp [hsink, hne]

/-! ### Writing -/

/-- Exactly these sinks have taken the bytes, and nothing has failed. -/
structure Writes (sinks : List Nat) (bytes : Bytes) (s s' : FanoutState ω) : Prop where
  opened : s'.opened = s.opened
  log : ∃ added, s'.log = s.log ++ added ∧ (∀ event ∈ added, event.isWrite = true) ∧
    ∀ sink, received sink added = if sink ∈ sinks then bytes else []

/-- Something was written; whether that failed or not, no sink has been ended. -/
structure Spoils (failed : Prop) (s s' : FanoutState ω) : Prop where
  opened : s'.opened = s.opened
  log : ∃ added, s'.log = s.log ++ added ∧ (∀ sink, endings sink added = []) ∧
    ((∃ event ∈ added, event.isFailure = true) ∨ failed)

namespace Writes

variable {sinks : List Nat} {bytes bytes' : Bytes} {s s' s'' : FanoutState ω}

theorem refl (sinks : List Nat) (s : FanoutState ω) : Writes sinks [] s s :=
  ⟨rfl, [], by simp, by simp, by simp [received]⟩

theorem trans (h : Writes sinks bytes s s') (h' : Writes sinks bytes' s' s'') :
    Writes sinks (bytes ++ bytes') s s'' := by
  obtain ⟨added, hlog, hwrite, hreceived⟩ := h.log
  obtain ⟨added', hlog', hwrite', hreceived'⟩ := h'.log
  refine ⟨h'.opened.trans h.opened, added ++ added', ?_, ?_, fun sink => ?_⟩
  · rw [hlog', hlog, List.append_assoc]
  · intro event hevent
    rcases List.mem_append.mp hevent with hevent | hevent
    · exact hwrite event hevent
    · exact hwrite' event hevent
  · rw [received_append, hreceived, hreceived']
    split
    · rfl
    · rfl

/-- What is written before a failure makes no difference. -/
theorem spoils {failed : Prop} (h : Writes sinks bytes s s') (h' : Spoils failed s' s'') :
    Spoils failed s s'' := by
  obtain ⟨added, hlog, hwrite, -⟩ := h.log
  obtain ⟨added', hlog', hendings, hfailed⟩ := h'.log
  refine ⟨h'.opened.trans h.opened, added ++ added', ?_, fun sink => ?_, ?_⟩
  · rw [hlog', hlog, List.append_assoc]
  · rw [endings_append, endings_of_isWrite hwrite, hendings, List.append_nil]
  · rcases hfailed with ⟨event, hevent, hfailure⟩ | hfailed
    · exact .inl ⟨event, List.mem_append_right _ hevent, hfailure⟩
    · exact .inr hfailed

/-- A message that is refused has done nothing but writes. -/
theorem refused {failed : Prop} (h : Writes sinks bytes s s') (hfailed : failed) :
    Spoils failed s s' :=
  h.spoils ⟨rfl, [], by simp, by simp [endings], .inr hfailed⟩

end Writes

theorem Spoils.mono {failed failed' : Prop} {s s' : FanoutState ω} (h : Spoils failed s s')
    (himp : failed → failed') : Spoils failed' s s' := by
  obtain ⟨added, hlog, hendings, hfailed⟩ := h.log
  exact ⟨h.opened, added, hlog, hendings, hfailed.imp_right himp⟩

section Sinks

variable (faults : SinkFaults ω)

theorem ends_writeSink (sink : Nat) (bytes : Bytes) (s : FanoutState ω) :
    Ends (writeSink faults sink bytes) s (fun _ s' => Writes [sink] bytes s s')
      (fun _ s' => Spoils False s s') := by
  unfold Ends writeSink
  rcases hfault : faults.write sink bytes s.world with ⟨_ | ⟨error, written⟩, world⟩
  · refine ⟨rfl, [.Wrote sink bytes], rfl, by simp [SinkEvent.isWrite], fun other => ?_⟩
    by_cases h : other = sink
    · simp [received, SinkEvent.taken, h]
    · have hne : ¬sink = other := fun h' => h h'.symm
      simp [received, SinkEvent.taken, h, hne]
  · refine ⟨rfl, [.Wrote sink (bytes.take written), .WriteFailed sink], rfl, ?_, ?_⟩
    · simp [endings, SinkEvent.endsSink]
    · exact .inl ⟨.WriteFailed sink, by simp, rfl⟩

theorem ends_writeSinks (bytes : Bytes) :
    ∀ (sinks : List Nat) (index : Nat) (s : FanoutState ω), sinks.Nodup →
      Ends (PendingFanout.writeSinks faults bytes index sinks) s
        (fun _ s' => Writes sinks bytes s s') (fun _ s' => Spoils False s s')
  | [], index, s, _ => ⟨rfl, [], by simp, by simp, by simp [received]⟩
  | sink :: rest, index, s, hnodup => by
    obtain ⟨hsink, hrest⟩ := List.nodup_cons.mp hnodup
    refine Ends.bind (ends_writeSink faults sink bytes s).attempt fun result s₁ h₁ => ?_
    cases result with
    | error error => exact h₁
    | ok value =>
      have hfirst : Writes [sink] bytes s s₁ := h₁
      refine (ends_writeSinks bytes rest (index + 1) s₁ hrest).mono (fun _ s₂ h₂ => ?_)
        fun _ _ h₂ => hfirst.spoils h₂
      obtain ⟨added, hlog, hwrite, hreceived⟩ := hfirst.log
      obtain ⟨added', hlog', hwrite', hreceived'⟩ := h₂.log
      refine ⟨h₂.opened.trans hfirst.opened, added ++ added', ?_, ?_, fun other => ?_⟩
      · rw [hlog', hlog, List.append_assoc]
      · intro event hevent
        rcases List.mem_append.mp hevent with hevent | hevent
        · exact hwrite event hevent
        · exact hwrite' event hevent
      · rw [received_append, hreceived, hreceived']
        by_cases h : other = sink
        · subst h
          simp [hsink]
        · simp [h]

theorem ends_writeAll (fanout : PendingFanout) (hnodup : fanout.sinks.Nodup) (bytes : Bytes)
    (s : FanoutState ω) :
    Ends (fanout.writeAll faults bytes) s (fun _ s' => Writes fanout.sinks bytes s s')
      (fun _ s' => Spoils False s s') := by
  unfold PendingFanout.writeAll
  split
  · rename_i hempty
    rw [List.isEmpty_iff.mp hempty]
    exact Writes.refl _ s
  · exact ends_writeSinks faults bytes fanout.sinks 0 s hnodup

/-- A writer of the fan-out, with the staging file or without it. -/
def Fills (sinks : List Nat) (write : Bytes → Fan ω StreamFailure Unit) : Prop :=
  ∀ bytes s, Ends (write bytes) s (fun _ s' => Writes sinks bytes s s')
    (fun _ s' => Spoils False s s')

theorem fills_write (fanout : PendingFanout) (hnodup : fanout.sinks.Nodup) :
    Fills fanout.sinks (fanout.write faults) := by
  intro bytes s
  refine Ends.bind (ends_writeAll faults fanout hnodup bytes s).attempt fun result s' h' => ?_
  cases result with
  | error error => exact h'
  | ok value => exact h'

theorem ends_stageBytes (sinks : List Nat) (bytes : Bytes) (s : FanoutState ω) :
    Ends (stageBytes faults bytes) s (fun _ s' => Writes sinks [] s s')
      (fun _ s' => Spoils False s s') := by
  unfold Ends stageBytes
  rcases hfault : faults.stage bytes s.world with ⟨_ | error, world⟩
  · exact ⟨rfl, [], by simp, by simp, by simp [received]⟩
  · exact ⟨rfl, [.StagingFailed], rfl, by simp [endings, SinkEvent.endsSink],
      .inl ⟨.StagingFailed, by simp, rfl⟩⟩

theorem fills_tee (fanout : PendingFanout) (hnodup : fanout.sinks.Nodup) :
    Fills fanout.sinks (fanout.tee faults) := by
  intro bytes s
  unfold PendingFanout.tee
  split
  · rename_i hempty
    rw [List.isEmpty_iff.mp hempty]
    exact Writes.refl _ s
  · refine Ends.bind (fills_write faults fanout hnodup bytes s) fun _ s₁ h₁ => ?_
    refine Ends.bind (ends_stageBytes faults fanout.sinks bytes s₁).attempt fun result s₂ h₂ => ?_
    cases result with
    | error error => exact h₁.spoils h₂
    | ok value =>
      have hboth := h₁.trans h₂
      rw [List.append_nil] at hboth
      exact hboth

end Sinks

/-! ### Reading -/

/-- Another `taken` bytes of body keep a message within its limits. -/
def FitsWith (limits : MessageLimits) (bodySize total taken : Nat) : Prop :=
  bodySize + taken ≤ usizeMax ∧ total + taken ≤ usizeMax ∧
    bodySize + taken ≤ limits.bodySize ∧ total + taken ≤ limits.messageSize

theorem nextSizes_eq (limits : MessageLimits) (bodySize total taken : Nat) :
    (FitsWith limits bodySize total taken ∧
      nextSizes limits bodySize total taken = .ok (bodySize + taken, total + taken)) ∨
    ¬FitsWith limits bodySize total taken ∧
      ∃ error, nextSizes limits bodySize total taken = .error error := by
  unfold FitsWith nextSizes MessageReadError.addChecked checkSize checkedAdd
  by_cases h₁ : bodySize + taken ≤ usizeMax
  · by_cases h₂ : total + taken ≤ usizeMax
    · by_cases h₃ : bodySize + taken ≤ limits.bodySize
      · by_cases h₄ : total + taken ≤ limits.messageSize
        · refine .inl ⟨⟨h₁, h₂, h₃, h₄⟩, ?_⟩
          simp [h₁, h₂, Nat.not_lt.mpr h₃, Nat.not_lt.mpr h₄, bind, Except.bind, pure, Except.pure]
        · refine .inr ⟨fun h => h₄ h.2.2.2, ?_⟩
          simp [h₁, h₂, Nat.not_lt.mpr h₃, Nat.not_le.mp h₄, bind, Except.bind]
      · refine .inr ⟨fun h => h₃ h.2.2.1, ?_⟩
        simp [h₁, h₂, Nat.not_le.mp h₃, bind, Except.bind]
    · refine .inr ⟨fun h => h₂ h.2.1, ?_⟩
      simp [h₁, h₂, bind, Except.bind]
  · refine .inr ⟨fun h => h₁ h.1, ?_⟩
    simp [h₁, bind, Except.bind]

/-- The body that a reader still gives is complete, and within the limits. -/
def BodyFits (limits : MessageLimits) (bodySize total : Nat) (reader : Reader) : Prop :=
  reader.Complete ∧ (reader.content ≠ [] → FitsWith limits bodySize total reader.content.length)

theorem bodyFits_chunk (limits : MessageLimits) (bodySize total : Nat) (byte : UInt8) (rest : Bytes)
    (next : Reader) :
    BodyFits limits bodySize total (.chunk byte rest next) ↔
      FitsWith limits bodySize total (byte :: rest).length ∧
      BodyFits limits (bodySize + (byte :: rest).length) (total + (byte :: rest).length) next := by
  have hlength : (Reader.chunk byte rest next).content.length =
      (byte :: rest).length + next.content.length := by
    simp only [Reader.content, List.length_append]
  unfold BodyFits
  rw [hlength]
  constructor
  · rintro ⟨hcomplete, hfits⟩
    have hall := hfits (by simp [Reader.content])
    unfold FitsWith at hall ⊢
    exact ⟨by omega, hcomplete, fun _ => by omega⟩
  · rintro ⟨hchunk, hcomplete, hfits⟩
    refine ⟨hcomplete, fun _ => ?_⟩
    by_cases hempty : next.content = []
    · rw [hempty, List.length_nil, Nat.add_zero]
      exact hchunk
    · have hnext := hfits hempty
      unfold FitsWith at hnext ⊢
      omega

/-- The message of a head and a reader can be taken in. -/
def Readable (head : MessageHead) (reader : Reader) : Prop :=
  BodyFits head.limits 0 head.asBytes.length reader

theorem intoSerializedParts_eq (head : MessageHead) :
    ∃ matching, head.intoSerializedParts = (head.asBytes, matching, head.limits) := by
  unfold MessageHead.intoSerializedParts MessageHead.asBytes
  cases head.backing with
  | Input raw => exact ⟨_, rfl⟩
  | Indexed header => exact ⟨_, rfl⟩

section Reading

variable {sinks : List Nat} {write : Bytes → Fan ω StreamFailure Unit}
variable (hwrite : Fills sinks write)

include hwrite

/-- The sinks take the whole body, if it is complete and fits. -/
theorem ends_readBodyInto (limits : MessageLimits) (retain : Bool) :
    ∀ (reader : Reader) (bodySize : Nat) (raw : Bytes) (total : Nat) (s : FanoutState ω),
      Ends (readBodyInto write limits retain bodySize raw total reader) s
        (fun _ s' => BodyFits limits bodySize total reader ∧ Writes sinks reader.content s s')
        (fun _ s' => Spoils (¬BodyFits limits bodySize total reader) s s')
  | .eof, bodySize, raw, total, s => ⟨⟨trivial, fun h => absurd rfl h⟩, Writes.refl _ s⟩
  | .failed error, bodySize, raw, total, s => (Writes.refl sinks s).refused fun h => h.1
  | .chunk byte rest next, bodySize, raw, total, s => by
    unfold readBodyInto
    rcases nextSizes_eq limits bodySize total (byte :: rest).length with ⟨hfits, heq⟩ | ⟨hfits, error, heq⟩
    · simp only [heq]
      refine Ends.bind ((hwrite (byte :: rest) s).mono (fun _ _ h => h) fun _ _ h => h.mono False.elim) ?_
      intro _ s₁ h₁
      refine (ends_readBodyInto limits retain next _ _ _ s₁).mono ?_ ?_
      · rintro _ s₂ ⟨hnext, h₂⟩
        exact ⟨(bodyFits_chunk ..).mpr ⟨hfits, hnext⟩, h₁.trans h₂⟩
      · intro _ s₂ h₂
        refine h₁.spoils (h₂.mono fun hnext hall => ?_)
        exact hnext ((bodyFits_chunk ..).mp hall).2
    · simp only [heq]
      exact (Writes.refl sinks s).refused fun hall => hfits ((bodyFits_chunk ..).mp hall).1

theorem ends_streamInto (head : MessageHead) (reader : Reader) (s : FanoutState ω) :
    Ends (head.streamInto write reader) s
      (fun _ s' => Readable head reader ∧ Writes sinks (head.asBytes ++ reader.content) s s')
      (fun _ s' => Spoils (¬Readable head reader) s s') := by
  obtain ⟨matching, hparts⟩ := intoSerializedParts_eq head
  unfold MessageHead.streamInto
  simp only [hparts]
  refine Ends.bind ((hwrite head.asBytes s).mono (fun _ _ h => h) fun _ _ h => h.mono False.elim) ?_
  intro _ s₁ h₁
  refine Ends.bind ((ends_readBodyInto hwrite head.limits false reader 0 [] _ s₁).mono
    (fun _ _ h => h) fun _ _ h => h₁.spoils h) ?_
  rintro _ s₂ ⟨hfits, h₂⟩
  exact ⟨hfits, h₁.trans h₂⟩

theorem ends_headReadBodyInto (head : MessageHead) (reader : Reader) (s : FanoutState ω) :
    Ends (head.readBodyInto write reader) s
      (fun _ s' => Readable head reader ∧ Writes sinks (head.asBytes ++ reader.content) s s')
      (fun _ s' => Spoils (¬Readable head reader) s s') := by
  obtain ⟨matching, hparts⟩ := intoSerializedParts_eq head
  unfold MessageHead.readBodyInto
  simp only [hparts]
  refine Ends.bind ((hwrite head.asBytes s).mono (fun _ _ h => h) fun _ _ h => h.mono False.elim) ?_
  intro _ s₁ h₁
  refine Ends.bind ((ends_readBodyInto hwrite head.limits true reader 0 _ _ s₁).mono
    (fun _ _ h => h) fun _ _ h => h₁.spoils h) ?_
  rintro _ s₂ ⟨hfits, h₂⟩
  exact ⟨hfits, h₁.trans h₂⟩

end Reading

/-! ### Aborting and committing -/

section Ending

variable (faults : SinkFaults ω)

theorem ends_abortSinks {ε : Type} : ∀ (sinks : List Nat) (s : FanoutState ω),
    Ends (abortSinks faults sinks : Fan ω ε Nat) s
      (fun _ s' => s'.opened = s.opened ∧ s'.log = s.log ++ sinks.map .Aborted) (fun _ _ => False)
  | [], s => ⟨rfl, by simp⟩
  | sink :: rest, s => by
    have hfirst : Ends (abortSink faults sink : Fan ω ε Bool) s
        (fun _ s' => s'.opened = s.opened ∧ s'.log = s.log ++ [.Aborted sink]) (fun _ _ => False) :=
      ⟨rfl, rfl⟩
    refine Ends.bind hfirst ?_
    rintro _ s₁ ⟨hopened, hlog⟩
    refine Ends.bind (ends_abortSinks rest s₁) ?_
    rintro _ s₂ ⟨hopened', hlog'⟩
    refine ⟨hopened'.trans hopened, ?_⟩
    rw [hlog', hlog]
    simp

theorem ends_drop {ε : Type} (validated : ValidatedFanout) (s : FanoutState ω) :
    Ends (validated.drop faults : Fan ω ε Unit) s
      (fun _ s' => s'.opened = s.opened ∧
        s'.log = s.log ++ validated.sinks.reverse.map .Aborted) (fun _ _ => False) :=
  Ends.bind (ends_abortSinks faults validated.sinks.reverse s) fun _ _ h => h

/-- The sinks from `index` on have been committed with these results. -/
def committed (index : Nat) (deliveries : List PublishedDelivery) : List SinkEvent :=
  (deliveries.zipIdx index).map fun delivery => .Committed delivery.2 (.ok delivery.1)

/-- How a fan-out is left by a commit that has failed. -/
structure FailedCommit (index count : Nat) (published : List PublishedDelivery) (error : CommitError)
    (s s' : FanoutState ω) : Prop where
  opened : s'.opened = s.opened
  log : ∃ deliveries : List PublishedDelivery, deliveries.length < count ∧
    error.failedIndex = index + deliveries.length ∧
    error.published = published ++ deliveries ++ error.source.published.toList ∧
    s'.log = s.log ++ (committed index deliveries ++
      .Committed error.failedIndex (.error error.source) ::
        (List.range' (error.failedIndex + 1) (count - deliveries.length - 1)).map .Aborted)

theorem ends_commitSinks : ∀ (count : Nat) (published : List PublishedDelivery) (s : FanoutState ω),
    Ends (ValidatedFanout.commitSinks faults published (List.range' published.length count)) s
      (fun report s' => s'.opened = s.opened ∧ ∃ deliveries : List PublishedDelivery,
        deliveries.length = count ∧ report.published = published ++ deliveries ∧
        s'.log = s.log ++ committed published.length deliveries)
      (fun error s' => FailedCommit published.length count published error s s')
  | 0, published, s => ⟨rfl, [], rfl, by simp, by simp [committed]⟩
  | count + 1, published, s => by
    rw [List.range'_succ]
    have hfirst : Ends (commitSink faults published.length) s
        (fun delivery s' => s'.opened = s.opened ∧
          s'.log = s.log ++ [.Committed published.length (.ok delivery)])
        (fun error s' => s'.opened = s.opened ∧
          s'.log = s.log ++ [.Committed published.length (.error error)]) := by
      unfold Ends commitSink
      rcases hfault : faults.commit published.length s.world with ⟨error | delivery, world⟩
      · exact ⟨rfl, rfl⟩
      · exact ⟨rfl, rfl⟩
    refine Ends.bind hfirst.attempt fun result s₁ h₁ => ?_
    cases result with
    | ok delivery =>
      obtain ⟨hopened, hlog⟩ := h₁
      have hlength : (published ++ [delivery]).length = published.length + 1 := by simp
      have hrest := ends_commitSinks count (published ++ [delivery]) s₁
      rw [hlength] at hrest
      refine hrest.mono ?_ ?_
      · rintro report s₂ ⟨hopened', deliveries, hcount, hpublished, hlog'⟩
        refine ⟨hopened'.trans hopened, delivery :: deliveries, by simp [hcount], ?_, ?_⟩
        · rw [hpublished]
          simp
        · rw [hlog', hlog]
          simp [committed]
      · intro error s₂ h₂
        obtain ⟨deliveries, hcount, hindex, hpublished, hlog'⟩ := h₂.log
        refine ⟨h₂.opened.trans hopened, delivery :: deliveries, ?_, ?_, ?_, ?_⟩
        · simp only [List.length_cons]
          omega
        · rw [hindex, List.length_cons]
          omega
        · rw [hpublished]
          simp
        · have hrest : count + 1 - (delivery :: deliveries).length - 1 =
              count - deliveries.length - 1 := by
            simp only [List.length_cons]
            omega
          rw [hlog', hlog, hrest]
          simp [committed]
    | error error =>
      obtain ⟨hopened, hlog⟩ := h₁
      refine Ends.bind ((ends_abortSinks faults _ s₁).mono (fun _ _ h => h) fun _ _ h => h.elim) ?_
      rintro abortFailures s₂ ⟨hopened', hlog'⟩
      refine ⟨hopened'.trans hopened, [], by simp, by simp, by simp, ?_⟩
      rw [hlog', hlog]
      simp [committed]

end Ending

theorem isEnding_committed (index : Nat) (deliveries : List PublishedDelivery) :
    ∀ event ∈ committed index deliveries, event.isEnding = true := by
  intro event hevent
  obtain ⟨delivery, -, rfl⟩ := List.mem_map.mp hevent
  rfl

theorem received_of_isEnding {log : List SinkEvent} (h : ∀ event ∈ log, event.isEnding = true)
    (sink : Nat) : received sink log = [] := by
  refine List.flatMap_eq_nil_iff.mpr fun event hevent => ?_
  have hends := h event hevent
  cases event with
  | Wrote other bytes => exact nomatch hends
  | _ => rfl

theorem received_committed (sink index : Nat) (deliveries : List PublishedDelivery) :
    received sink (committed index deliveries) = [] :=
  received_of_isEnding (isEnding_committed index deliveries) sink

/-- The sinks that are ended behind the writes. -/
theorem ended_append {log log' : List SinkEvent} (h : ∀ event ∈ log, event.isWrite = true)
    (h' : ∀ event ∈ log', event.isEnding = true) : ended (log ++ log') = log' := by
  have hnone : log.filter SinkEvent.isEnding = [] := by
    refine List.filter_eq_nil_iff.mpr fun event hevent => ?_
    rw [SinkEvent.isEnding_of_isWrite (h event hevent)]
    exact Bool.false_ne_true
  rw [ended, List.filter_append, hnone, List.nil_append, List.filter_eq_self.mpr h']

theorem not_writeFailure {log log' : List SinkEvent}
    (h : ∀ event ∈ log, event.isFailure = false) (h' : ∀ event ∈ log', event.isEnding = true) :
    ¬∃ event ∈ log ++ log', event.isFailure = true := by
  rintro ⟨event, hevent, hfailure⟩
  rcases List.mem_append.mp hevent with hevent | hevent
  · rw [h event hevent] at hfailure
    exact Bool.false_ne_true hfailure
  · have hends := h' event hevent
    cases event with
    | WriteFailed sink => exact nomatch hends
    | StagingFailed => exact nomatch hends
    | _ => exact nomatch hfailure

/-! ### A whole use -/

/-- Every sink that was opened has been aborted once. -/
def AllAborted (s : FanoutState ω) : Prop :=
  ∀ sink, endings sink s.log = if sink < s.opened then [.Aborted sink] else []

/-- The fan-out holds all sinks, and every one of them has received the message. -/
structure Filled (message : Bytes) (sinks : List Nat) (s : FanoutState ω) : Prop where
  sinks : sinks = List.range s.opened
  received : ∀ sink, received sink s.log = if sink < s.opened then message else []
  writes : ∀ event ∈ s.log, event.isWrite = true

/-- One of the groups of sinks that are handed over is too large for a fan-out of its own. Its sinks have
been dropped, and those of the groups before it aborted. -/
structure RefusedGroup (groups : List Nat) (error : FanoutLimitError) (accepted : List Nat)
    (s : FanoutState ω) : Prop where
  handed : ∃ later, groups = accepted ++ error.count :: later
  fits : accepted.sum ≤ maxPendingSinks
  limit : error.limit = maxPendingSinks ∧ maxPendingSinks < error.count
  opened : s.opened = accepted.sum + error.count
  endings : ∀ sink, endings sink s.log =
    if sink < accepted.sum then [.Aborted sink]
    else if sink < accepted.sum + error.count then [.Dropped sink]
    else []

/-- What the result of a use says about every sink. The sinks are handed over in `groups`. -/
def Settled (message : Bytes) (groups : List Nat) : FanoutOutcome → FanoutState ω → Prop
  | .Refused error, s => ∃ accepted, RefusedGroup groups error accepted s
  | .StreamFailed _, s => AllAborted s
  | .AppendFailed _, s => AllAborted s
  | .Dropped, s => AllAborted s
  | .Committed report, s =>
    (∀ sink < s.opened, received sink s.log = message) ∧ report.published.length = s.opened ∧
      ended s.log = committed 0 report.published
  | .CommitFailed error, s =>
    (∀ sink < s.opened, received sink s.log = message) ∧ error.failedIndex < s.opened ∧
      ∃ deliveries : List PublishedDelivery, deliveries.length = error.failedIndex ∧
        error.published = deliveries ++ error.source.published.toList ∧
        ended s.log = committed 0 deliveries ++
          .Committed error.failedIndex (.error error.source) ::
            (List.range' (error.failedIndex + 1) (s.opened - error.failedIndex - 1)).map .Aborted

/-- The use has ended before the fan-out could be committed. -/
def FanoutOutcome.isEarly : FanoutOutcome → Bool
  | .Refused _ => true
  | .StreamFailed _ => true
  | .AppendFailed _ => true
  | _ => false

/-- A write has failed. -/
def WriteFailure (s : FanoutState ω) : Prop := ∃ event ∈ s.log, event.isFailure = true

section Use

variable (faults : SinkFaults ω)

theorem ends_openPending (count : Nat) (s : FanoutState ω) :
    Ends (openSinks count >>= PendingFanout.new : Fan ω FanoutLimitError PendingFanout) s
      (fun pending s' => s'.opened = s.opened + count ∧ s'.log = s.log ∧
        pending.sinks = List.range' s.opened count)
      (fun error s' => error = ⟨count, maxPendingSinks⟩ ∧ maxPendingSinks < count ∧
        s'.opened = s.opened + count ∧
        s'.log = s.log ++ (List.range' s.opened count).map .Dropped) := by
  have hopen : Ends (openSinks count : Fan ω FanoutLimitError (List Nat)) s
      (fun sinks s' => sinks = List.range' s.opened count ∧ s'.opened = s.opened + count ∧
        s'.log = s.log) (fun _ _ => False) := ⟨rfl, rfl, rfl⟩
  refine Ends.bind (hopen.mono (fun _ _ h => h) fun _ _ h => h.elim) ?_
  rintro _ s₁ ⟨rfl, hopened, hlog⟩
  unfold PendingFanout.new
  split
  · exact ⟨hopened, hlog, rfl⟩
  · rename_i hlimit
    refine ⟨?_, ?_, hopened, ?_⟩
    · rw [List.length_range']
    · simpa using hlimit
    · show s₁.log ++ _ = _
      rw [hlog]

/-- Aborting the sinks of a list that holds all that are open. -/
theorem allAborted_of_log {s : FanoutState ω} {log : List SinkEvent} {sinks : List Nat}
    (hlog : s.log = log ++ sinks.map .Aborted) (hquiet : ∀ sink, endings sink log = [])
    (hnodup : sinks.Nodup) (hsinks : ∀ sink, sink ∈ sinks ↔ sink < s.opened) : AllAborted s := by
  intro sink
  rw [hlog, endings_append, hquiet, List.nil_append,
    endings_map SinkEvent.Aborted (fun _ _ => rfl) hnodup]
  simp only [hsinks]

theorem ends_validate {α : Type} {pending : PendingFanout} {head : MessageHead} {reader : Reader}
    {reading : Fan ω StreamFailure α} {s : FanoutState ω}
    (hsinks : pending.sinks = List.range s.opened) (hlog : s.log = [])
    (hreading : Ends reading s
      (fun _ s' => Readable head reader ∧
        Writes pending.sinks (head.asBytes ++ reader.content) s s')
      (fun _ s' => Spoils (¬Readable head reader) s s')) :
    Ends (pending.validate faults reading) s
      (fun v s' => s'.opened = s.opened ∧ Readable head reader ∧
        Filled (head.asBytes ++ reader.content) v.1.sinks s')
      (fun _ s' => s'.opened = s.opened ∧ AllAborted s' ∧
        (WriteFailure s' ∨ ¬Readable head reader)) := by
  refine Ends.bind hreading.attempt fun result s₁ h₁ => ?_
  cases result with
  | ok message =>
    obtain ⟨hreadable, hwrites⟩ := h₁
    obtain ⟨added, hadded, hwrite, hreceived⟩ := hwrites.log
    rw [hlog, List.nil_append] at hadded
    refine ⟨hwrites.opened, hreadable, ?_, fun sink => ?_, ?_⟩
    · rw [hwrites.opened]
      exact hsinks
    · rw [hadded, hreceived, hsinks, hwrites.opened]
      simp
    · rw [hadded]
      exact hwrite
  | error failure =>
    have hspoils : Spoils (¬Readable head reader) s s₁ := h₁
    obtain ⟨added, hadded, hendings, hfailed⟩ := hspoils.log
    rw [hlog, List.nil_append] at hadded
    refine Ends.bind ((ends_abortSinks faults pending.sinks.reverse s₁).mono (fun _ _ h => h)
      fun _ _ h => h.elim) ?_
    rintro abortFailures s₂ ⟨hopened, hlog₂⟩
    have hall : s₂.opened = s.opened := hopened.trans hspoils.opened
    refine ⟨hall, ?_, ?_⟩
    · refine allAborted_of_log hlog₂ (fun sink => by rw [hadded, hendings]) ?_ fun sink => ?_
      · rw [hsinks]
        exact List.nodup_reverse.mpr List.nodup_range
      · rw [hsinks, hall]
        simp
    · rcases hfailed with ⟨event, hevent, hfailure⟩ | hfailed
      · refine .inl ⟨event, ?_, hfailure⟩
        rw [hlog₂, hadded]
        exact List.mem_append_left _ hevent
      · exact .inr hfailed

theorem ends_takeIn {pending : PendingFanout} (intake : Intake) (head : MessageHead)
    (reader : Reader) {s : FanoutState ω} (hsinks : pending.sinks = List.range s.opened)
    (hlog : s.log = []) :
    Ends (takeIn faults pending intake head reader) s
      (fun v s' => s'.opened = s.opened ∧ Readable head reader ∧
        Filled (head.asBytes ++ reader.content) v.sinks s')
      (fun _ s' => s'.opened = s.opened ∧ AllAborted s' ∧
        (WriteFailure s' ∨ ¬Readable head reader)) := by
  have hnodup : pending.sinks.Nodup := by
    rw [hsinks]
    exact List.nodup_range
  have hwrite := fills_write faults pending hnodup
  cases intake with
  | Stream =>
    exact Ends.bind (ends_validate faults hsinks hlog (ends_streamInto hwrite head reader s))
      fun _ _ h => h
  | Buffer =>
    exact Ends.bind (ends_validate faults hsinks hlog (ends_headReadBodyInto hwrite head reader s))
      fun _ _ h => h
  | Stage =>
    exact Ends.bind (ends_validate faults hsinks hlog
      (ends_streamInto (fills_tee faults pending hnodup) head reader s)) fun _ _ h => h

theorem range_append_rest {count opened : Nat} (h : count ≤ opened) :
    List.range count ++ List.range' count (opened - count) = List.range opened := by
  have happend : List.range' 0 count ++ List.range' (0 + count) (opened - count) =
      List.range' 0 (count + (opened - count)) := List.range'_append_1
  rw [Nat.zero_add, Nat.add_sub_cancel' h] at happend
  rw [List.range_eq_range', List.range_eq_range', happend]

/-- The pending sinks are aborted first, then those that were filled before. -/
theorem ends_abortBoth {sinks pending : List Nat} {count : Nat} {s : FanoutState ω}
    {added : List SinkEvent} {log : List SinkEvent} (hlog : s.log = log ++ added)
    (hquiet : ∀ event ∈ log, event.isWrite = true) (hendings : ∀ sink, endings sink added = [])
    (hsinks : sinks = List.range count) (hpending : pending = List.range' count (s.opened - count))
    (hcount : count ≤ s.opened) (error : Nat → AppendError) :
    Ends (do
        let pendingFailures ← abortAll faults pending
        let failures ← abortAll faults sinks
        throw (error (pendingFailures + failures)) : Fan ω AppendError ValidatedFanout) s
      (fun _ _ => False)
      (fun _ s' => s'.opened = s.opened ∧ AllAborted s' ∧
        ∃ aborted, s'.log = s.log ++ aborted) := by
  refine Ends.bind ((ends_abortSinks faults pending.reverse s).mono (fun _ _ h => h)
    fun _ _ h => h.elim) ?_
  rintro _ s₁ ⟨hopened₁, hlog₁⟩
  refine Ends.bind ((ends_abortSinks faults sinks.reverse s₁).mono (fun _ _ h => h)
    fun _ _ h => h.elim) ?_
  rintro _ s₂ ⟨hopened₂, hlog₂⟩
  have hopened : s₂.opened = s.opened := hopened₂.trans hopened₁
  have hall : s₂.log = s.log ++ (pending.reverse ++ sinks.reverse).map .Aborted := by
    rw [hlog₂, hlog₁]
    simp
  refine ⟨hopened, allAborted_of_log hall ?_ ?_ ?_, _, hall⟩
  · intro sink
    rw [hlog, endings_append, endings_of_isWrite hquiet, hendings, List.nil_append]
  · rw [← List.reverse_append, hsinks, hpending, List.nodup_reverse, range_append_rest hcount]
    exact List.nodup_range
  · intro sink
    rw [hsinks, hpending, hopened]
    simp only [List.mem_append, List.mem_reverse, List.mem_range, List.mem_range'_1]
    omega

theorem ends_appendBytes {validated : ValidatedFanout} {pending : PendingFanout} {message : Bytes}
    {count : Nat} {s : FanoutState ω} (hvalidated : validated.sinks = List.range count)
    (hcount : count ≤ s.opened) (hpending : pending.sinks = List.range' count (s.opened - count))
    (hreceived : ∀ sink, received sink s.log = if sink < count then message else [])
    (hwrites : ∀ event ∈ s.log, event.isWrite = true) :
    Ends (validated.appendBytes faults pending message) s
      (fun v s' => s'.opened = s.opened ∧ Filled message v.sinks s')
      (fun _ s' => s'.opened = s.opened ∧ AllAborted s' ∧
        (WriteFailure s' ∨ maxPendingSinks < s.opened)) := by
  have hlength : (validated.sinks ++ pending.sinks).length = s.opened := by
    rw [List.length_append, hvalidated, hpending, List.length_range, List.length_range']
    omega
  have hrange : validated.sinks ++ pending.sinks = List.range s.opened := by
    rw [hvalidated, hpending, range_append_rest hcount]
  unfold ValidatedFanout.appendBytes
  split
  · have hnodup : pending.sinks.Nodup := by
      rw [hpending]
      exact List.nodup_range'
    refine Ends.bind (ends_writeAll faults pending hnodup message s).attempt fun result s₁ h₁ => ?_
    cases result with
    | ok value =>
      have hadds : Writes pending.sinks message s s₁ := h₁
      obtain ⟨added, hlog, hwrite, htaken⟩ := hadds.log
      refine ⟨hadds.opened, ?_, fun sink => ?_, ?_⟩
      · rw [hadds.opened]
        exact hrange
      · rw [hlog, received_append, hreceived, htaken, hadds.opened, hpending]
        simp only [List.mem_range'_1]
        by_cases hsink : sink < count
        · have hlt : sink < s.opened := by omega
          have hnot : ¬(count ≤ sink ∧ sink < count + (s.opened - count)) := by omega
          simp [hsink, hlt, hnot]
        · by_cases hlt : sink < s.opened
          · have hmem : count ≤ sink ∧ sink < count + (s.opened - count) := by omega
            simp [hsink, hlt, hmem]
          · have hnot : ¬(count ≤ sink ∧ sink < count + (s.opened - count)) := by omega
            simp [hsink, hlt, hnot]
      · intro event hevent
        rw [hlog] at hevent
        rcases List.mem_append.mp hevent with hevent | hevent
        · exact hwrites event hevent
        · exact hwrite event hevent
    | error failed =>
      have hspoils : Spoils False s s₁ := h₁
      obtain ⟨added, hlog, hendings, hfailed⟩ := hspoils.log
      rw [← hspoils.opened] at hpending hcount
      refine (ends_abortBoth faults hlog hwrites hendings hvalidated hpending hcount
        fun failures => ⟨failed.error, failures, some failed.deliveryFailure⟩).mono
        (fun _ _ h => h.elim) ?_
      rintro _ s₂ ⟨hopened, haborted, aborted, hlog₂⟩
      refine ⟨hopened.trans hspoils.opened, haborted, .inl ?_⟩
      obtain ⟨event, hevent, hfailure⟩ := hfailed.resolve_right id
      refine ⟨event, ?_, hfailure⟩
      rw [hlog₂, hlog]
      exact List.mem_append_left _ (List.mem_append_right _ hevent)
  · rename_i hlimit
    refine (ends_abortBoth faults (List.append_nil _).symm hwrites (fun _ => rfl) hvalidated hpending
      hcount fun failures => ⟨ValidatedFanout.tooManySinks _, failures, none⟩).mono
      (fun _ _ h => h.elim) ?_
    rintro _ s₂ ⟨hopened, haborted, -⟩
    refine ⟨hopened, haborted, .inr ?_⟩
    rw [← hlength]
    exact Nat.not_le.mp hlimit

/-- A use that ends before the commit, with its reason. -/
def EndsEarly (message : Bytes) (groups : List Nat) (outcome : FanoutOutcome) (s : FanoutState ω) :
    Prop :=
  outcome.isEarly = true ∧ Settled message groups outcome s ∧
    (WriteFailure s ∨ maxPendingSinks < groups.sum)

theorem ends_appendSinks {validated : ValidatedFanout} {message : Bytes} {accepted : List Nat}
    (count : Nat) (later : List Nat) {s : FanoutState ω} (haccepted : s.opened = accepted.sum)
    (hfilled : Filled message validated.sinks s) :
    Ends (appendSinks faults validated message count) s
      (fun v s' => s'.opened = s.opened + count ∧ Filled message v.sinks s')
      (fun outcome s' => EndsEarly message (accepted ++ count :: later) outcome s') := by
  have hsum : s.opened + count ≤ (accepted ++ count :: later).sum := by
    rw [List.sum_append, List.sum_cons]
    omega
  refine Ends.bind (ends_openPending count s).attempt fun result s₁ h₁ => ?_
  cases result with
  | error error =>
    obtain ⟨rfl, hlimit, hopened, hlog⟩ := h₁
    have hbounded : accepted.sum ≤ maxPendingSinks := by
      have hlength := validated.bounded
      rwa [hfilled.sinks, List.length_range, haccepted] at hlength
    refine Ends.bind ((ends_drop faults validated s₁).mono (fun _ _ h => h) fun _ _ h => h.elim) ?_
    rintro _ s₂ ⟨hopened₂, hlog₂⟩
    refine ⟨rfl, ⟨accepted, ⟨later, rfl⟩, hbounded, ⟨rfl, hlimit⟩, ?_, fun sink => ?_⟩,
      .inr (by omega)⟩
    · rw [hopened₂, hopened, haccepted]
    · rw [hlog₂, hlog, endings_append, endings_append, endings_of_isWrite hfilled.writes,
        endings_map SinkEvent.Dropped (fun _ _ => rfl) List.nodup_range',
        endings_map SinkEvent.Aborted (fun _ _ => rfl)
          (by rw [hfilled.sinks]; exact List.nodup_reverse.mpr List.nodup_range),
        hfilled.sinks, ← haccepted]
      simp only [List.mem_reverse, List.mem_range, List.mem_range'_1, List.nil_append]
      by_cases hsink : sink < s.opened
      · have hnot : ¬(s.opened ≤ sink ∧ sink < s.opened + count) := by omega
        simp [hsink, hnot]
      · by_cases hlt : sink < s.opened + count
        · have hmem : s.opened ≤ sink ∧ sink < s.opened + count := by omega
          simp [hsink, hlt, hmem]
        · simp [hsink, hlt]
  | ok pending =>
    obtain ⟨hopened, hlog, hpending⟩ := h₁
    have hrest : s₁.opened - s.opened = count := by omega
    refine Ends.bind (ends_appendBytes faults hfilled.sinks (by omega)
      (by rw [hrest]; exact hpending) (by rw [hlog]; exact hfilled.received)
      (by rw [hlog]; exact hfilled.writes)).attempt fun result s₂ h₂ => ?_
    cases result with
    | ok v =>
      obtain ⟨hopened₂, hfilled₂⟩ := h₂
      exact ⟨hopened₂.trans hopened, hfilled₂⟩
    | error error =>
      obtain ⟨hopened₂, haborted, hflaw⟩ := h₂
      exact ⟨rfl, haborted, hflaw.imp_right fun hlimit => by omega⟩

theorem ends_appendAll {message : Bytes} : ∀ (appended : List Nat) {accepted : List Nat}
    {validated : ValidatedFanout} {s : FanoutState ω}, s.opened = accepted.sum →
    Filled message validated.sinks s →
    Ends (appendAll faults message validated appended) s
      (fun v s' => s'.opened = s.opened + appended.sum ∧ Filled message v.sinks s')
      (fun outcome s' => EndsEarly message (accepted ++ appended) outcome s')
  | [], accepted, validated, s, _, hfilled => ⟨by simp, hfilled⟩
  | count :: rest, accepted, validated, s, haccepted, hfilled => by
    refine Ends.bind (ends_appendSinks faults count rest haccepted hfilled) ?_
    rintro v s₁ ⟨hopened, hfilled₁⟩
    have haccepted₁ : s₁.opened = (accepted ++ [count]).sum := by
      rw [hopened, haccepted, List.sum_append, List.sum_singleton]
    have hsum : s₁.opened + rest.sum = s.opened + (count :: rest).sum := by
      rw [hopened, List.sum_cons, Nat.add_assoc]
    have hrest := ends_appendAll rest haccepted₁ hfilled₁
    rwa [hsum, List.append_assoc, List.singleton_append] at hrest

theorem ends_settle {message : Bytes} {validated : ValidatedFanout} (groups : List Nat)
    (commits : Bool) {s : FanoutState ω} (hfilled : Filled message validated.sinks s) :
    Ends (settle faults validated commits) s
      (fun outcome s' => outcome.isEarly = false ∧ Settled message groups outcome s' ∧
        ¬WriteFailure s')
      (fun outcome s' => outcome.isEarly = false ∧ Settled message groups outcome s' ∧
        ¬WriteFailure s') := by
  have hquiet := endings_of_isWrite hfilled.writes
  have hclean : ∀ event ∈ s.log, event.isFailure = false := fun event hevent =>
    SinkEvent.isFailure_of_isWrite (hfilled.writes event hevent)
  have hreceived : ∀ sink < s.opened, received sink s.log = message := fun sink hsink => by
    rw [hfilled.received, if_pos hsink]
  unfold settle
  split
  · have hcommit := ends_commitSinks faults s.opened [] s
    rw [List.length_nil, ← List.range_eq_range', ← hfilled.sinks] at hcommit
    refine Ends.bind hcommit.attempt fun result s₁ h₁ => ?_
    cases result with
    | ok report =>
      obtain ⟨hopened, deliveries, hlength, hpublished, hlog⟩ := h₁
      rw [List.nil_append] at hpublished
      have hends := isEnding_committed 0 deliveries
      refine ⟨rfl, ⟨fun sink hsink => ?_, ?_, ?_⟩, ?_⟩
      · rw [hlog, received_append, received_committed, List.append_nil]
        exact hreceived sink (by omega)
      · rw [hpublished, hlength, hopened]
      · rw [hlog, ended_append hfilled.writes hends, hpublished]
      · rw [WriteFailure, hlog]
        exact not_writeFailure hclean hends
    | error error =>
      have hfailed : FailedCommit 0 s.opened [] error s s₁ := h₁
      obtain ⟨deliveries, hcount, hindex, hpublished, hlog⟩ := hfailed.log
      rw [Nat.zero_add] at hindex
      rw [List.nil_append] at hpublished
      have hends : ∀ event ∈ committed 0 deliveries ++
          .Committed error.failedIndex (.error error.source) ::
            (List.range' (error.failedIndex + 1) (s.opened - deliveries.length - 1)).map .Aborted,
          event.isEnding = true := by
        intro event hevent
        rcases List.mem_append.mp hevent with hevent | hevent
        · exact isEnding_committed 0 deliveries event hevent
        · rcases List.mem_cons.mp hevent with rfl | hevent
          · rfl
          · obtain ⟨sink, -, rfl⟩ := List.mem_map.mp hevent
            rfl
      refine ⟨rfl, ⟨fun sink hsink => ?_, ?_, deliveries, hindex.symm, hpublished, ?_⟩, ?_⟩
      · rw [hfailed.opened] at hsink
        rw [hlog, received_append, hreceived sink hsink, received_of_isEnding hends, List.append_nil]
      · rw [hfailed.opened]
        omega
      · rw [hlog, ended_append hfilled.writes hends, hfailed.opened, hindex]
      · rw [WriteFailure, hlog]
        exact not_writeFailure hclean hends
  · refine Ends.bind ((ends_drop faults validated s).mono (fun _ _ h => h) fun _ _ h => h.elim) ?_
    rintro _ s₁ ⟨hopened, hlog⟩
    refine ⟨rfl, allAborted_of_log hlog hquiet ?_ fun sink => ?_, ?_⟩
    · rw [hfilled.sinks]
      exact List.nodup_reverse.mpr List.nodup_range
    · rw [hfilled.sinks, hopened]
      simp
    · rw [WriteFailure, hlog]
      refine not_writeFailure hclean fun event hevent => ?_
      obtain ⟨sink, -, rfl⟩ := List.mem_map.mp hevent
      rfl

/-- What forbids a commit: a write that has failed, a message that cannot be taken in, too many sinks. -/
def Flawed (use : FanoutUse) (head : MessageHead) (reader : Reader) (s : FanoutState ω) : Prop :=
  WriteFailure s ∨ ¬Readable head reader ∨ maxPendingSinks < use.first + use.appended.sum

/-- What holds of the result of a use and of the log that it leaves. -/
def AllOrNothing (use : FanoutUse) (head : MessageHead) (reader : Reader) (outcome : FanoutOutcome)
    (s : FanoutState ω) : Prop :=
  Settled (head.asBytes ++ reader.content) (use.first :: use.appended) outcome s ∧
    (outcome.isEarly = true ↔ Flawed use head reader s)

/-- Every sink is settled as the result says, and nothing is committed exactly if something forbids it.
Sinks are dropped without being aborted only when their own group is refused. -/
theorem fanout_all_or_nothing (use : FanoutUse) (head : MessageHead) (reader : Reader) (world : ω) :
    Ends (useFanout faults use head reader) ⟨world, 0, []⟩ (AllOrNothing use head reader)
      (AllOrNothing use head reader) := by
  refine Ends.bind (ends_openPending use.first ⟨world, 0, []⟩).attempt fun result s₁ h₁ => ?_
  cases result with
  | error error =>
    obtain ⟨rfl, hlimit, hopened, hlog⟩ := h₁
    simp only [Nat.zero_add, List.nil_append] at hopened hlog
    refine ⟨⟨[], ⟨use.appended, rfl⟩, Nat.zero_le _, ⟨rfl, hlimit⟩, ?_, fun sink => ?_⟩,
      iff_of_true rfl (.inr (.inr (by omega)))⟩
    · rw [hopened, List.sum_nil, Nat.zero_add]
    · rw [hlog, endings_map SinkEvent.Dropped (fun _ _ => rfl) List.nodup_range']
      simp
  | ok pending =>
    obtain ⟨hopened, hlog, hpending⟩ := h₁
    simp only [Nat.zero_add] at hopened
    have hsinks : pending.sinks = List.range s₁.opened := by
      rw [hopened, List.range_eq_range']
      exact hpending
    refine Ends.bind (ends_takeIn faults use.intake head reader hsinks hlog).attempt ?_
    intro result s₂ h₂
    cases result with
    | error error =>
      obtain ⟨-, haborted, hflaw⟩ := h₂
      exact ⟨haborted, iff_of_true rfl (hflaw.imp_right .inl)⟩
    | ok validated =>
      obtain ⟨hopened₂, hreadable, hfilled⟩ := h₂
      have haccepted : s₂.opened = [use.first].sum := by
        rw [hopened₂, hopened, List.sum_singleton]
      refine Ends.bind ((ends_appendAll faults use.appended haccepted hfilled).mono (fun _ _ h => h) ?_) ?_
      · rintro outcome s₃ ⟨hearly, hsettled, hflaw⟩
        rw [List.singleton_append, List.sum_cons] at hflaw
        exact ⟨hsettled, iff_of_true hearly (hflaw.imp_right .inr)⟩
      · rintro v s₃ ⟨hopened₃, hfilled₃⟩
        have hbounded : use.first + use.appended.sum ≤ maxPendingSinks := by
          have hv := v.bounded
          rw [hfilled₃.sinks, List.length_range] at hv
          omega
        have hlate : ∀ outcome (s : FanoutState ω), outcome.isEarly = false ∧
            Settled (head.asBytes ++ reader.content) (use.first :: use.appended) outcome s ∧
              ¬WriteFailure s →
            AllOrNothing use head reader outcome s := by
          rintro outcome s ⟨hearly, hsettled, hclean⟩
          refine ⟨hsettled, iff_of_false (by simp [hearly]) ?_⟩
          rintro (hfailed | hunread | hlimit)
          · exact hclean hfailed
          · exact hunread hreadable
          · omega
        exact (ends_settle faults _ use.commits hfilled₃).mono hlate hlate

end Use

/-- Sinks beyond the limit are dropped before anything is read. -/
theorem ends_useFanout_of_limit (faults : SinkFaults ω) (use : FanoutUse)
    (hlimit : maxPendingSinks < use.first) (head : MessageHead) (reader : Reader) (world : ω) :
    Ends (useFanout faults use head reader) ⟨world, 0, []⟩ (fun _ _ => False)
      (fun _ s => s.opened = use.first ∧ s.log = (List.range' 0 use.first).map .Dropped) := by
  refine Ends.bind (ends_openPending use.first ⟨world, 0, []⟩).attempt fun result s₁ h₁ => ?_
  cases result with
  | error error =>
    obtain ⟨-, -, hopened, hlog⟩ := h₁
    exact ⟨by simpa using hopened, hlog⟩
  | ok pending =>
    have hbounded := pending.bounded
    rw [h₁.2.2, List.length_range'] at hbounded
    omega

/-- They are not aborted. -/
theorem not_aborted_of_limit (faults : SinkFaults ω) (use : FanoutUse)
    (hlimit : maxPendingSinks < use.first) (head : MessageHead) (reader : Reader) (world : ω) :
    ¬Ends (useFanout faults use head reader) ⟨world, 0, []⟩
      (fun _ s => ∀ sink < s.opened, endings sink s.log = [.Aborted sink])
      (fun _ s => ∀ sink < s.opened, endings sink s.log = [.Aborted sink]) := by
  intro h
  have hends := ends_useFanout_of_limit faults use hlimit head reader world
  unfold Ends at h hends
  split at hends
  · exact hends
  · rename_i heq
    obtain ⟨hopened, hlog⟩ := hends
    simp only [heq] at h
    have hfirst := h 0 (by omega)
    rw [hlog, endings_map SinkEvent.Dropped (fun _ _ => rfl) List.nodup_range'] at hfirst
    have hmem : 0 ∈ List.range' 0 use.first := by
      rw [List.mem_range'_1]
      omega
    rw [if_pos hmem] at hfirst
    cases hfirst

/-- Nothing fails; every sink is committed to a folder of its number. -/
def calmFaults : SinkFaults Unit where
  write _ _ world := (none, world)
  commit sink world := (.ok ⟨List.replicate sink 120⟩, world)
  abort _ world := (none, world)
  stage _ world := (none, world)

/-- One sink more than the limit allows. -/
def oversizedUse : FanoutUse := ⟨maxPendingSinks + 1, .Stream, [], true⟩

/-- A fan-out for more sinks than the limit allows is refused, and its sinks are dropped without being
aborted. -/
theorem refused_sinks_are_not_aborted :
    maxPendingSinks < oversizedUse.first ∧
    ¬Ends (useFanout calmFaults oversizedUse
        ⟨.Input [LF], none, ⟨1000, 1000, 1000, 1000, 1000⟩⟩ .eof) ⟨(), 0, []⟩
      (fun _ s => ∀ sink < s.opened, endings sink s.log = [.Aborted sink])
      (fun _ s => ∀ sink < s.opened, endings sink s.log = [.Aborted sink]) :=
  ⟨Nat.lt_succ_self maxPendingSinks,
    not_aborted_of_limit calmFaults oversizedUse (Nat.lt_succ_self maxPendingSinks) _ _ _⟩

end ProcmailRs
