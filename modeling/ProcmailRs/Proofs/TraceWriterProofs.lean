import ProcmailRs.Proofs.TraceTextProofs

/-!
# What stops a trace

A record is rendered exactly when its parts fit the bound of a record, and no event stops the trace for
another reason than its size.
-/

namespace ProcmailRs

open Config Json BoundedText

section

variable (errorText : IoErrorKind → Bytes)

/-- The size of a record with every escape and the end of the line. -/
def recordCost (record : TraceRecord) : TraceFormat → Nat
  | .Json => objectCost (recordMembers errorText record) + 1
  | .Text => partsCost (recordParts errorText record)

/-- The text of a record. -/
def recordText (format : TraceFormat) (record : TraceRecord) : Option Bytes :=
  (renderRecord errorText record format).map BoundedText.bytes

end

variable {errorText : IoErrorKind → Bytes}

theorem isSome_write (output : BoundedText) (value : Bytes) :
    (output.write value).isSome = true ↔ output.bytes.length + value.length ≤ output.limit := by
  rw [← List.length_append]
  by_cases h : (output.bytes ++ value).length ≤ output.limit
  · rw [write_of_fits _ h]
    exact iff_of_true rfl h
  · rw [write_of_not_fits _ h]
    exact iff_of_false Bool.false_ne_true h

theorem recordMembers_ne_nil (record : TraceRecord) : recordMembers errorText record ≠ [] :=
  List.append_ne_nil_of_left_ne_nil (jsonMembers_ne_nil record.event) _

/-- A record is rendered exactly when it is small enough; only a logged value must be text besides. -/
theorem isSome_renderRecord (herror : ∀ kind, Plain (errorText kind)) (record : TraceRecord) (format : TraceFormat)
    (hlog : format = .Text → loggable record.event = true) :
    (renderRecord errorText record format).isSome = true ↔ recordCost errorText record format ≤ maxTraceEventSize := by
  cases format with
  | Json =>
    rw [renderRecord_json herror, isSome_write, List.length_append, length_object (recordMembers_ne_nil record)]
    have hend : (strBytes "\n").length = 1 := rfl
    simp only [BoundedText.new, recordCost, hend, List.length_nil, Nat.zero_add]
  | Text =>
    rw [renderRecord_text, hlog rfl, if_pos rfl, isSome_write, length_partsText]
    simp [BoundedText.new, recordCost]

/-! ### What a run asks to be written -/

/-- What decides whether a record is written, apart from the limits. -/
structure TraceChoice where
  verbose : Bool
  abstractMode : LogAbstractMode
  lastPublished : Option TraceRecord

/-- The abstract of a published delivery. -/
def deliveryAbstract (record : TraceRecord) : Option TraceRecord :=
  match record.event with
  | .Delivery recipeLine destination .Published path =>
    some ⟨.DeliveryAbstract recipeLine destination path, record.location⟩
  | _ => none

namespace TraceChoice

/-- The abstract of a record that is written with it, and the one that is kept for the end. -/
def chooseAbstract (choice : TraceChoice) (record : TraceRecord) : TraceChoice × List TraceRecord :=
  match deliveryAbstract record with
  | none => (choice, [])
  | some abstractRecord =>
    match choice.abstractMode with
    | .No => (choice, [])
    | .Yes => ({ choice with lastPublished := some abstractRecord }, [])
    | .All => (choice, [abstractRecord])

/-- The records that one of them brings about: an abstract, and itself. Its file name is cut first. -/
def askedRecord (detail : TraceDetail) (choice : TraceChoice) (record : TraceRecord) :
    TraceChoice × List TraceRecord :=
  let record := { record with location := record.location.forTrace detail.includesVariableValues }
  let (choice, abstracts) := choice.chooseAbstract record
  (choice, abstracts ++ if choice.verbose || record.event.isLog then [record] else [])

/-- The records of one call. -/
def asked (detail : TraceDetail) (choice : TraceChoice) : TraceCall → TraceChoice × List TraceRecord
  | .Record record => choice.askedRecord detail record
  | .RecordAt location event => choice.askedRecord detail (event.at location detail)
  | .SetVerbose enabled => ({ choice with verbose := enabled }, [])
  | .SetLogAbstract mode => ({ choice with abstractMode := mode, lastPublished := none }, [])
  | .Finish =>
    if choice.abstractMode = .Yes then
      ({ choice with lastPublished := none }, choice.lastPublished.toList)
    else (choice, [])

/-- The records of a run, in their order, as far as the format has them. -/
def wanted (detail : TraceDetail) (format : TraceFormat) : TraceChoice → List TraceCall → List TraceRecord
  | _, [] => []
  | choice, call :: calls =>
    let (choice, records) := choice.asked detail call
    records.filter (fun record => format.includes record.event) ++ wanted detail format choice calls

end TraceChoice

/-! ### Runs -/

/-- The output has taken these texts one after another. -/
inductive Wrote {W : Type} (writeAll : W → Bytes → W × Except IoErrorKind Unit) (writer : W) :
    List Bytes → W → Prop
  | nothing : Wrote writeAll writer [] writer
  | next {texts : List Bytes} {before after : W} {text : Bytes} (h : Wrote writeAll writer texts before)
    (hwrite : writeAll before text = (after, .ok ())) : Wrote writeAll writer (texts ++ [text]) after

namespace BoundedTraceWriter

variable {W : Type} {writeAll : W → Bytes → W × Except IoErrorKind Unit}

/-- Why nothing more is written behind the first records of a run, whose texts the output has taken and
whose size is `bytes`. -/
inductive Ends (errorText : IoErrorKind → Bytes) (writeAll : W → Bytes → W × Except IoErrorKind Unit)
    (format : TraceFormat) (written : Nat) (bytes : Nat) (output : W) :
    List TraceRecord → W → Option TraceStopReason → Prop
  | all : Ends errorText writeAll format written bytes output [] output none
  | events {record : TraceRecord} {rest : List TraceRecord} (h : written = maxTraceEvents) :
    Ends errorText writeAll format written bytes output (record :: rest) output (some .EventLimit)
  | size {record : TraceRecord} {rest : List TraceRecord}
    (h : maxTraceEventSize < recordCost errorText record format) :
    Ends errorText writeAll format written bytes output (record :: rest) output (some .EventSizeLimit)
  | bytes {record : TraceRecord} {rest : List TraceRecord} {text : Bytes}
    (htext : recordText errorText format record = some text) (h : maxTraceBytes < bytes + text.length) :
    Ends errorText writeAll format written bytes output (record :: rest) output (some .ByteLimit)
  | failed {record : TraceRecord} {rest : List TraceRecord} {text : Bytes} {after : W} {kind : IoErrorKind}
    (htext : recordText errorText format record = some text)
    (h : writeAll output text = (after, .error kind)) :
    Ends errorText writeAll format written bytes output (record :: rest) after (some (.Io kind))

/-- The output has taken the texts of the first records that were asked for, and there is a reason why
no other one was written. -/
structure TraceAccounted (errorText : IoErrorKind → Bytes) (writeAll : W → Bytes → W × Except IoErrorKind Unit)
    (format : TraceFormat) (writer : W) (records : List TraceRecord) (trace : BoundedTraceWriter W) : Prop where
  texts : ∃ front back texts output, records = front ++ back ∧
    front.mapM (recordText errorText format) = some texts ∧ Wrote writeAll writer texts output ∧
    trace.events = front.length ∧ front.length ≤ maxTraceEvents ∧
    trace.bytes = texts.flatten.length ∧ texts.flatten.length ≤ maxTraceBytes ∧
    Ends errorText writeAll format front.length texts.flatten.length output back trace.writer trace.stopped

variable {format : TraceFormat} {trace : BoundedTraceWriter W} {writer : W} {records : List TraceRecord}

/-- What has stopped stays stopped, whatever else is asked for. -/
theorem TraceAccounted.append_of_stopped (h : TraceAccounted errorText writeAll format writer records trace)
    (hstopped : trace.stopped.isSome = true) (more : List TraceRecord) :
    TraceAccounted errorText writeAll format writer (records ++ more) trace := by
  obtain ⟨front, back, texts, output, rfl, htexts, hwrote, hevents, hfits, hbytes, hsize, hends⟩ := h.texts
  refine ⟨front, back ++ more, texts, output, List.append_assoc .., htexts, hwrote, hevents, hfits, hbytes,
    hsize, ?_⟩
  generalize trace.writer = after at hends
  generalize trace.stopped = stopped at hends hstopped
  cases hends with
  | all => cases hstopped
  | events hlimit => exact .events hlimit
  | size hlarge => exact .size hlarge
  | bytes htext hlimit => exact .bytes htext hlimit
  | failed htext hfailed => exact .failed htext hfailed

/-- A trace that goes on has written all that was asked for. -/
theorem TraceAccounted.of_going (h : TraceAccounted errorText writeAll format writer records trace)
    (hgoing : trace.stopped = none) :
    ∃ texts, records.mapM (recordText errorText format) = some texts ∧
      Wrote writeAll writer texts trace.writer ∧ trace.events = records.length ∧
      records.length ≤ maxTraceEvents ∧ trace.bytes = texts.flatten.length ∧
      texts.flatten.length ≤ maxTraceBytes := by
  obtain ⟨front, back, texts, output, rfl, htexts, hwrote, hevents, hfits, hbytes, hsize, hends⟩ := h.texts
  rw [hgoing] at hends
  generalize hafter : trace.writer = after at hends
  cases hends with
  | all =>
    rw [List.append_nil]
    exact ⟨texts, htexts, hwrote, hevents, hfits, hbytes, hsize⟩

/-- The output has taken the text of the new record as well. -/
theorem accounted_next {next : BoundedTraceWriter W} {record : TraceRecord} {texts : List Bytes} {text : Bytes}
    (htexts : records.mapM (recordText errorText format) = some texts)
    (htext : recordText errorText format record = some text)
    (hwrote : Wrote writeAll writer (texts ++ [text]) next.writer)
    (hevents : next.events = records.length + 1) (hfits : records.length < maxTraceEvents)
    (hbytes : next.bytes = texts.flatten.length + text.length)
    (hsize : texts.flatten.length + text.length ≤ maxTraceBytes) (hgoing : next.stopped = none) :
    TraceAccounted errorText writeAll format writer (records ++ [record]) next := by
  have hall : (records ++ [record]).mapM (recordText errorText format) = some (texts ++ [text]) := by
    rw [List.mapM_append, htexts, List.mapM_cons, htext, List.mapM_nil]
    rfl
  have hlength : (texts ++ [text]).flatten.length = texts.flatten.length + text.length := by simp
  refine ⟨records ++ [record], [], texts ++ [text], next.writer, (List.append_nil _).symm, hall, hwrote, ?_,
    ?_, ?_, ?_, ?_⟩
  · rw [List.length_append, List.length_singleton, hevents]
  · rw [List.length_append, List.length_singleton]
    omega
  · rw [hlength, hbytes]
  · rw [hlength]
    exact hsize
  · rw [hgoing]
    exact .all

/-- One record more is asked for. -/
theorem TraceAccounted.writeEvent (h : TraceAccounted errorText writeAll format writer records trace)
    (hformat : trace.format = format) {record : TraceRecord}
    (hlarge : format.includes record.event = true → renderRecord errorText record format = none →
      maxTraceEventSize < recordCost errorText record format) :
    TraceAccounted errorText writeAll format writer
      (records ++ [record].filter fun record => format.includes record.event)
      (trace.writeEvent errorText writeAll record) := by
  unfold BoundedTraceWriter.writeEvent
  by_cases hstopped : trace.stopped.isSome = true
  · rw [if_pos hstopped]
    exact h.append_of_stopped hstopped _
  rw [if_neg hstopped, hformat]
  by_cases hincludes : format.includes record.event = true
  swap
  · have hskipped : [record].filter (fun record => format.includes record.event) = [] :=
      List.filter_cons_of_neg hincludes
    rw [if_pos (by simpa using hincludes), hskipped, List.append_nil]
    exact h
  have hkept : [record].filter (fun record => format.includes record.event) = [record] :=
    List.filter_cons_of_pos hincludes
  rw [if_neg (by simp [hincludes]), hkept]
  obtain ⟨texts, htexts, hwrote, hevents, hfits, hbytes, hsize⟩ := h.of_going (by simpa using hstopped)
  -- The records so far have been written, and the end is that of the new one.
  have hend {stopped : BoundedTraceWriter W} (hevents' : stopped.events = trace.events)
      (hbytes' : stopped.bytes = trace.bytes)
      (hends : Ends errorText writeAll format records.length texts.flatten.length trace.writer [record]
        stopped.writer stopped.stopped) :
      TraceAccounted errorText writeAll format writer (records ++ [record]) stopped :=
    ⟨records, [record], texts, trace.writer, rfl, htexts, hwrote, hevents'.trans hevents, hfits,
      hbytes'.trans hbytes, hsize, hends⟩
  by_cases hlimit : trace.events ≥ maxTraceEvents
  · rw [if_pos hlimit]
    exact hend rfl rfl (.events (by omega))
  rw [if_neg hlimit]
  cases hrender : renderRecord errorText record format with
  | none => exact hend rfl rfl (.size (hlarge hincludes hrender))
  | some rendered =>
    have htext : recordText errorText format record = some rendered.bytes := by
      rw [recordText, hrender]
      rfl
    dsimp only
    cases htotal : checkedAdd trace.bytes rendered.bytes.length with
    | none =>
      have hlarge := checkedAdd_eq_none.mp htotal
      have hbound : maxTraceBytes ≤ usizeMax := by decide
      exact hend rfl rfl (.bytes htext (by omega))
    | some total =>
      obtain ⟨-, rfl⟩ := checkedAdd_eq_some.mp htotal
      dsimp only
      by_cases hover : trace.bytes + rendered.bytes.length > maxTraceBytes
      · rw [if_pos hover]
        exact hend rfl rfl (.bytes htext (by omega))
      rw [if_neg hover]
      rcases hwrite : writeAll trace.writer rendered.bytes with ⟨after, _ | _⟩
      · exact hend rfl rfl (.failed htext hwrite)
      · have hgoing : trace.stopped = none := by simpa using hstopped
        exact accounted_next htexts htext (hwrote.next hwrite) (by rw [hevents]) (by omega)
          (by rw [hbytes]) (by omega) hgoing

/-- What decides which details a trace writes. -/
def choice (trace : BoundedTraceWriter W) : TraceChoice :=
  ⟨trace.verbose, trace.abstractMode, trace.lastPublished⟩

theorem writeEvent_frame (trace : BoundedTraceWriter W) (record : TraceRecord) :
    (trace.writeEvent errorText writeAll record).choice = trace.choice ∧
      (trace.writeEvent errorText writeAll record).detail = trace.detail ∧
      (trace.writeEvent errorText writeAll record).format = trace.format := by
  unfold BoundedTraceWriter.writeEvent
  split_ifs
  · exact ⟨rfl, rfl, rfl⟩
  · exact ⟨rfl, rfl, rfl⟩
  · exact ⟨rfl, rfl, rfl⟩
  · split
    · exact ⟨rfl, rfl, rfl⟩
    · split
      · exact ⟨rfl, rfl, rfl⟩
      · split
        · exact ⟨rfl, rfl, rfl⟩
        · split <;> exact ⟨rfl, rfl, rfl⟩

/-- The trace stands where the calls have brought it, and has accounted for the records asked for. -/
structure Follows (errorText : IoErrorKind → Bytes) (writeAll : W → Bytes → W × Except IoErrorKind Unit)
    (detail : TraceDetail) (format : TraceFormat) (writer : W) (choice : TraceChoice)
    (records : List TraceRecord) (trace : BoundedTraceWriter W) : Prop where
  hdetail : trace.detail = detail
  hformat : trace.format = format
  hchoice : trace.choice = choice
  accounted : TraceAccounted errorText writeAll format writer records trace

variable {detail : TraceDetail} {choice : TraceChoice}

/-- Every record that is asked for and not rendered is too large. -/
def LargeUnlessRendered (errorText : IoErrorKind → Bytes) (format : TraceFormat) (records : List TraceRecord) :
    Prop :=
  ∀ record ∈ records, format.includes record.event = true → renderRecord errorText record format = none →
    maxTraceEventSize < recordCost errorText record format

theorem Follows.writeEvent (h : Follows errorText writeAll detail format writer choice records trace)
    {record : TraceRecord} (hlarge : LargeUnlessRendered errorText format [record]) :
    Follows errorText writeAll detail format writer choice
      (records ++ [record].filter fun record => format.includes record.event)
      (trace.writeEvent errorText writeAll record) := by
  obtain ⟨hchoice, hdetail, hformat⟩ := @writeEvent_frame errorText W writeAll trace record
  exact ⟨hdetail.trans h.hdetail, hformat.trans h.hformat, hchoice.trans h.hchoice,
    h.accounted.writeEvent h.hformat (hlarge record List.mem_cons_self)⟩

theorem recordAbstract_eq (trace : BoundedTraceWriter W) (record : TraceRecord) :
    trace.recordAbstract errorText writeAll record =
      match deliveryAbstract record with
      | none => trace
      | some abstractRecord =>
        match trace.abstractMode with
        | .No => trace
        | .Yes => { trace with lastPublished := some abstractRecord }
        | .All => trace.writeEvent errorText writeAll abstractRecord := by
  unfold BoundedTraceWriter.recordAbstract deliveryAbstract
  cases record.event with
  | Delivery recipeLine destination stage path => cases stage <;> rfl
  | _ => rfl

theorem Follows.recordAbstract (h : Follows errorText writeAll detail format writer choice records trace)
    {record : TraceRecord} (hlarge : LargeUnlessRendered errorText format (choice.chooseAbstract record).2) :
    Follows errorText writeAll detail format writer (choice.chooseAbstract record).1
      (records ++ (choice.chooseAbstract record).2.filter fun record => format.includes record.event)
      (trace.recordAbstract errorText writeAll record) := by
  have hmode : trace.abstractMode = choice.abstractMode := congrArg TraceChoice.abstractMode h.hchoice
  rw [recordAbstract_eq, hmode]
  unfold TraceChoice.chooseAbstract at hlarge ⊢
  generalize deliveryAbstract record = found at hlarge ⊢
  cases found with
  | none =>
    rw [List.filter_nil, List.append_nil]
    exact h
  | some abstractRecord =>
    dsimp only at hlarge ⊢
    cases hchosen : choice.abstractMode with
    | No =>
      rw [List.filter_nil, List.append_nil]
      exact h
    | Yes =>
      refine ⟨h.hdetail, h.hformat, ?_, ?_⟩
      · rw [← h.hchoice]
        rfl
      · rw [List.filter_nil, List.append_nil]
        exact ⟨h.accounted.texts⟩
    | All =>
      rw [hchosen] at hlarge
      exact h.writeEvent hlarge

/-- The abstract of a record, and the record itself. -/
theorem Follows.writeBoth (h : Follows errorText writeAll detail format writer choice records trace)
    {record : TraceRecord} (hlarge : LargeUnlessRendered errorText format
      ((choice.chooseAbstract record).2 ++
        if (choice.chooseAbstract record).1.verbose || record.event.isLog then [record] else [])) :
    Follows errorText writeAll detail format writer (choice.chooseAbstract record).1
      (records ++ ((choice.chooseAbstract record).2 ++
        if (choice.chooseAbstract record).1.verbose || record.event.isLog then [record] else []).filter
          fun record => format.includes record.event)
      (if !(trace.recordAbstract errorText writeAll record).verbose && !record.event.isLog then
        trace.recordAbstract errorText writeAll record
      else (trace.recordAbstract errorText writeAll record).writeEvent errorText writeAll record) := by
  have habstract := h.recordAbstract fun other hother => hlarge other (List.mem_append_left _ hother)
  have hverbose : (trace.recordAbstract errorText writeAll record).verbose =
      (choice.chooseAbstract record).1.verbose := congrArg TraceChoice.verbose habstract.hchoice
  rw [hverbose, List.filter_append, ← List.append_assoc]
  by_cases hwrites : ((choice.chooseAbstract record).1.verbose || record.event.isLog) = true
  · have hgoes : ¬(!(choice.chooseAbstract record).1.verbose && !record.event.isLog) = true := by
      rw [← Bool.not_or, hwrites]
      exact Bool.false_ne_true
    rw [if_pos hwrites] at hlarge ⊢
    rw [if_neg hgoes]
    exact habstract.writeEvent fun other hother => hlarge other (List.mem_append_right _ hother)
  · rw [if_neg hwrites, if_pos (by simpa using hwrites), List.filter_nil, List.append_nil]
    exact habstract

theorem Follows.record (h : Follows errorText writeAll detail format writer choice records trace)
    {record : TraceRecord} (hlarge : LargeUnlessRendered errorText format (choice.askedRecord detail record).2) :
    Follows errorText writeAll detail format writer (choice.askedRecord detail record).1
      (records ++ (choice.askedRecord detail record).2.filter fun record => format.includes record.event)
      (trace.record errorText writeAll record) := by
  unfold BoundedTraceWriter.record
  rw [h.hdetail]
  exact h.writeBoth hlarge

/-- One call. -/
theorem Follows.call (h : Follows errorText writeAll detail format writer choice records trace)
    {call : TraceCall} (hlarge : LargeUnlessRendered errorText format (choice.asked detail call).2) :
    Follows errorText writeAll detail format writer (choice.asked detail call).1
      (records ++ (choice.asked detail call).2.filter fun record => format.includes record.event)
      (trace.call errorText writeAll call) := by
  cases call with
  | Record record => exact h.record hlarge
  | RecordAt location event =>
    rw [BoundedTraceWriter.call, recordAt, h.hdetail]
    exact h.record hlarge
  | SetVerbose enabled =>
    refine ⟨h.hdetail, h.hformat, ?_, ?_⟩
    · rw [← h.hchoice]
      rfl
    · exact (List.append_nil records).symm ▸ ⟨h.accounted.texts⟩
  | SetLogAbstract mode =>
    refine ⟨h.hdetail, h.hformat, ?_, ?_⟩
    · rw [← h.hchoice]
      rfl
    · exact (List.append_nil records).symm ▸ ⟨h.accounted.texts⟩
  | Finish =>
    have hmode : trace.abstractMode = choice.abstractMode := congrArg TraceChoice.abstractMode h.hchoice
    have hkept : trace.lastPublished = choice.lastPublished := congrArg TraceChoice.lastPublished h.hchoice
    rw [BoundedTraceWriter.call, finish]
    unfold TraceChoice.asked at hlarge ⊢
    by_cases hyes : choice.abstractMode = .Yes
    · rw [if_pos hyes, ← hkept] at hlarge ⊢
      rw [if_neg (by simp [hmode, hyes])]
      have hcleared : Follows errorText writeAll detail format writer { choice with lastPublished := none }
          records { trace with lastPublished := none } := by
        refine ⟨h.hdetail, h.hformat, ?_, ⟨h.accounted.texts⟩⟩
        rw [← h.hchoice]
        rfl
      cases hlast : trace.lastPublished with
      | none =>
        refine ⟨h.hdetail, h.hformat, ?_, ?_⟩
        · rw [h.hchoice, ← hlast, hkept]
        · exact (List.append_nil records).symm ▸ h.accounted
      | some record =>
        rw [hlast] at hlarge
        exact hcleared.writeEvent hlarge
    · rw [if_neg hyes, if_pos (by simp [hmode, hyes]), List.filter_nil, List.append_nil]
      exact h

/-- A run of calls. -/
theorem Follows.run (h : Follows errorText writeAll detail format writer choice records trace)
    (calls : List TraceCall)
    (hlarge : LargeUnlessRendered errorText format (choice.wanted detail format calls)) :
    TraceAccounted errorText writeAll format writer (records ++ choice.wanted detail format calls)
      (trace.run errorText writeAll calls) := by
  induction calls generalizing trace choice records with
  | nil => exact (List.append_nil records).symm ▸ h.accounted
  | cons call calls ih =>
    have hcall : LargeUnlessRendered errorText format (choice.asked detail call).2 :=
      fun record hrecord hincludes => hlarge record
        (List.mem_append_left _ (List.mem_filter.mpr ⟨hrecord, hincludes⟩)) hincludes
    have hrest := ih (h.call hcall) fun record hrecord => hlarge record (List.mem_append_right _ hrecord)
    rwa [List.append_assoc] at hrest

end BoundedTraceWriter

open BoundedTraceWriter

/-- Logged text apart, a record is rendered exactly when its size with every escape is within the bound. The
output has taken the first records that a run asks for, and when that are not all of them the trace has stopped: the
limit of events is reached, the next record is larger than a record may be or does not fit into the trace any more,
or the output has failed on it. -/
theorem trace_stops_only_for_size {W : Type} (writeAll : W → Bytes → W × Except IoErrorKind Unit)
    (herror : ∀ kind, ∀ byte ∈ errorText kind, isPrintable byte = true ∧ byte ≠ 34 ∧ byte ≠ 92)
    (writer : W) (detail : TraceDetail) (format : TraceFormat) (verbose : Bool) (mode : LogAbstractMode)
    (calls : List TraceCall)
    (hlog : format = .Text → ∀ record ∈ TraceChoice.wanted detail format ⟨verbose, mode, none⟩ calls,
      loggable record.event = true) :
    (∀ record, (format = .Text → loggable record.event = true) →
        ((renderRecord errorText record format).isSome = true ↔
          recordCost errorText record format ≤ maxTraceEventSize)) ∧
      TraceAccounted errorText writeAll format writer (TraceChoice.wanted detail format ⟨verbose, mode, none⟩ calls)
        ((runtimeFormatted writer detail format verbose mode).run errorText writeAll calls) := by
  have hplain : ∀ kind, Plain (errorText kind) := fun kind => plain_of_forall (herror kind)
  refine ⟨fun record hrecord => isSome_renderRecord hplain record format hrecord, ?_⟩
  have hstart : Follows errorText writeAll detail format writer ⟨verbose, mode, none⟩ []
      (runtimeFormatted writer detail format verbose mode) :=
    ⟨rfl, rfl, rfl, ⟨[], [], [], writer, rfl, rfl, .nothing, rfl, Nat.zero_le _, rfl, Nat.zero_le _, .all⟩⟩
  refine hstart.run calls fun record hrecord _ hnone => Nat.lt_of_not_le fun hfits => ?_
  have hrendered := (isSome_renderRecord hplain record format fun htext => hlog htext record hrecord).mpr hfits
  rw [hnone] at hrendered
  cases hrendered

/-- An output that takes everything. -/
def takeAll (written : Bytes) (bytes : Bytes) : Bytes × Except IoErrorKind Unit := (written ++ bytes, .ok ())

/-- The assignment of a value of control characters. -/
def controlAssignment : TraceCall :=
  .Record ⟨.VariableAssigned (some 1) ⟨strBytes "A"⟩ .RcFile (some (.new (List.replicate 256 1))), .unknown 1⟩

theorem trace_stops_only_for_size_assignment :
    (∀ record, (TraceFormat.Text = .Text → loggable record.event = true) →
        ((renderRecord shortErrorText record .Text).isSome = true ↔
          recordCost shortErrorText record .Text ≤ maxTraceEventSize)) ∧
      TraceAccounted shortErrorText takeAll .Text []
        (TraceChoice.wanted .Values .Text ⟨true, .No, none⟩ [controlAssignment])
        ((runtimeFormatted [] .Values .Text true .No).run shortErrorText takeAll [controlAssignment]) :=
  trace_stops_only_for_size takeAll shortErrorText_plain [] .Values .Text true .No [controlAssignment]
    fun _ => by decide

/-- A value that an event was made of by the program stops the trace in both formats, and nothing is recorded after it. -/
theorem control_characters_stop_the_trace :
    TraceName.new (strBytes "A") = some ⟨strBytes "A"⟩ ∧
      ∀ format, ((runtimeFormatted [] .Values format true .No).run shortErrorText takeAll
        [controlAssignment, .Record ⟨.ExternalCommand 2 .Starting, .unknown 2⟩]).stopped = some .EventSizeLimit ∧
        ((runtimeFormatted [] .Values format true .No).run shortErrorText takeAll
          [controlAssignment, .Record ⟨.ExternalCommand 2 .Starting, .unknown 2⟩]).writer = [] := by
  refine ⟨by decide, ?_⟩
  intro format
  cases format <;> decide +kernel

end ProcmailRs
