import ProcmailRs.HeaderEdit.Proofs.FramingProofs

/-!
# The index and the serialized bytes of a header are interchangeable

An edited header keeps its history in its index: holes, the allowance of the arena and the preferred
delimiter. Between two actions that history says no more than the serialized bytes do, so a further
action gives the same on both.
-/

namespace ProcmailRs

open FieldList

/-! ### Marks that no operation looks at -/

/-- The operation does not read or write the marks of the message. -/
def HeaderOperation.keepsStatus : HeaderOperation → Bool
  | .Status _ _ => false
  | _ => true

/-- Two states that differ at most in their marks. -/
def FieldList.State.Agrees (state state' : State) : Prop :=
  state.fields = state'.fields ∧ state.extractions = state'.extractions

theorem agrees_edited {state state' : State} (h : state.Agrees state')
    (result : Except HeaderEditError (List Bytes)) :
    Refines State.Agrees (result.map fun fields => { state with fields := fields })
      (result.map fun fields => { state' with fields := fields }) := by
  cases result with
  | error e => exact .error e
  | ok fields => exact .ok ⟨rfl, h.2⟩

/-- An operation that is not about the marks does the same whatever they are. -/
theorem run_agrees (allow : Nat → Except HeaderEditError Unit) (lineEnding : LineEnding)
    {state state' : State} (h : state.Agrees state') {operation : HeaderOperation}
    (hstatus : operation.keepsStatus = true) :
    Refines State.Agrees (run allow lineEnding state operation)
      (run allow lineEnding state' operation) := by
  have hfields := h.1
  cases operation with
  | Extract line name target mode =>
    unfold run
    rw [hfields]
    refine (Refines.refl _).bind fun value _ hvalue => ?_
    obtain ⟨-, rfl⟩ := hvalue
    exact .ok ⟨rfl, by rw [h.2]⟩
  | Status _ mode => cases hstatus
  | _ =>
    unfold run
    rw [hfields]
    exact agrees_edited h _

theorem applyWithin_agrees {ceiling : Nat} {separator : Bytes} {lineEnding : LineEnding}
    {bodyLen : Nat} {limits : MessageLimits} {action : HeaderAction} {state state' : State}
    (h : state.Agrees state')
    (hstatus : ∀ operation ∈ action.operations, operation.keepsStatus = true) :
    Refines (fun result result' => result.1.Agrees result'.1 ∧ result.2 = result'.2)
      (applyWithin ceiling separator lineEnding bodyLen limits state action)
      (applyWithin ceiling separator lineEnding bodyLen limits state' action) := by
  have hrun : Refines State.Agrees
      (action.operations.foldlM (runWithin ceiling separator lineEnding bodyLen limits) state)
      (action.operations.foldlM (runWithin ceiling separator lineEnding bodyLen limits) state') := by
    refine Refines.foldlM h ?_
    intro current current' hcurrent operation hmem
    refine (run_agrees _ lineEnding hcurrent (hstatus operation hmem)).bind fun next next' hnext => ?_
    rw [hnext.1]
    refine (Refines.refl _).bind fun _ _ _ => ?_
    exact .ok hnext
  refine hrun.bind fun final final' hfinal => ?_
  rw [hfinal.1]
  refine (Refines.refl _).bind fun bytes _ hbytes => ?_
  obtain ⟨-, rfl⟩ := hbytes
  exact .ok ⟨hfinal, rfl⟩

/-! ### What the index of a reached header says -/

namespace EditedHeader.Reached

variable {limits : MessageLimits} {separator : Bytes} {header : EditedHeader}

theorem asBytes_eq (h : header.Reached limits separator) :
    header.asBytes = header.texts.flatten ++ separator := by
  rw [h.settled.coherent.asBytes, flatten_parts_of_apart h.settled.apart, h.ending]

theorem restLines_asBytes (h : header.Reached limits separator)
    (hsep : separator ≠ [] → isSeparator separator = true) :
    restLines header.asBytes = lines separator := by
  rw [h.settled.coherent.asBytes, parts, flatten_headerParts, h.ending]
  exact restLines_joinFields h.framed hsep _

theorem headerSeparator_asBytes (h : header.Reached limits separator)
    (hsep : separator ≠ [] → isSeparator separator = true) :
    headerSeparator header.asBytes = separator := by
  rw [headerSeparator, h.restLines_asBytes hsep, flatten_lines]

/-- The texts in the index are the fields of the serialized bytes. -/
theorem texts_eq (h : header.Reached limits separator)
    (hsep : separator ≠ [] → isSeparator separator = true) :
    header.texts = fieldTexts (headerContent header.asBytes) := by
  have hcontent : headerContent header.asBytes = header.texts.flatten := by
    have happend := headerContent_append_headerSeparator header.asBytes
    rw [h.headerSeparator_asBytes hsep, h.asBytes_eq] at happend
    rw [h.asBytes_eq]
    exact List.append_cancel_right happend
  rw [hcontent, fieldTexts_flatten (fun text ht => (h.framed text ht).1) h.settled.apart]

end EditedHeader.Reached

/-! ### The further action -/

/-- The results of an action on the two representations of a header agree. -/
structure AppliedHeaderAction.Same (indexed raw : AppliedHeaderAction) : Prop where
  serialized : indexed.header.asBytes = raw.header.asBytes
  matching : indexed.header.matchingHeader = raw.header.matchingHeader
  extractions : indexed.extractions = raw.extractions

theorem EditedHeader.Settled.matchingHeader_eq {header : EditedHeader} (h : header.Settled) :
    header.matchingHeader = (normalizeFoldedHeader header.asBytes).getD header.asBytes := by
  rw [EditedHeader.matchingHeader, h.coherent.normalized, ← h.coherent.asBytes]

/-- A further action on the index of a reached header and on its bytes gives the same result or the
same error. -/
theorem EditedHeader.Reached.applyHeaderAction_same {limits : MessageLimits} {separator : Bytes}
    {edited : EditedHeader} (h : edited.Reached limits separator)
    (hsep : separator ≠ [] → isSeparator separator = true) (bodyLen : Nat) {action : HeaderAction}
    (hstatus : ∀ operation ∈ action.operations, operation.keepsStatus = true) :
    Refines AppliedHeaderAction.Same (applyHeaderAction (.Indexed edited) bodyLen action limits)
      (applyHeaderAction (.Raw edited.asBytes) bodyLen action limits) := by
  have hroom := h.room.trans (le_max_right edited.len limits.headersSize)
  obtain ⟨shared, hshared, hsharedRep, hsettled, hstorage, hsharedLim, -⟩ :=
    EditedHeader.new_indexed limits h.settled hroom
  obtain ⟨fresh, hfresh, hparsed, hfreshRep, hfreshSize, hfreshLim, hunique⟩ :=
    EditedHeader.new_raw edited.asBytes limits
  have hindexed := applyHeaderAction_refines hshared hsharedRep hsharedLim (fun _ => hsettled)
    bodyLen action
  have hraw := applyHeaderAction_refines hfresh hfreshRep hfreshLim
    (fun hfalse => by rw [hunique] at hfalse; cases hfalse) bodyLen action
  -- both actions refine the same reference up to the marks
  have hlen : edited.len = edited.asBytes.length := by
    rw [EditedHeader.len, h.settled.coherent.size, h.settled.coherent.asBytes]
  have hceiling : shared.ceiling = fresh.ceiling := by
    rw [EditedHeader.ceiling, EditedHeader.ceiling, EditedHeader.len, EditedHeader.len, hstorage,
      hfreshSize, hsharedLim, hfreshLim, ← hlen]
    rfl
  have hseparator : shared.storage.separator = fresh.storage.separator := by
    rw [hstorage, hparsed.separator, h.headerSeparator_asBytes hsep, h.ending]
  have hending : shared.storage.lineEnding = fresh.storage.lineEnding := by
    rw [hstorage, hparsed.lineEnding, h.settled.lineEnding, h.settled.coherent.asBytes]
  rw [hceiling, hseparator, hending] at hindexed
  have hstart : State.Agrees ⟨edited.texts, edited.status, []⟩
      ⟨fieldTexts (headerContent edited.asBytes), MessageStatus.none, []⟩ := ⟨h.texts_eq hsep, rfl⟩
  refine ((hindexed.trans (applyWithin_agrees hstart hstatus)).join hraw).mono ?_
  rintro indexed raw ⟨result, ⟨result', ⟨hextract, hfinished⟩, hagrees, hbytes⟩, hextract', hfinished'⟩
  have hserialized : indexed.header.asBytes = raw.header.asBytes := by
    rw [hfinished.settled.coherent.asBytes, hfinished'.settled.coherent.asBytes,
      hfinished.serialized, hfinished'.serialized, hbytes]
  refine ⟨hserialized, ?_, ?_⟩
  · rw [hfinished.settled.matchingHeader_eq, hfinished'.settled.matchingHeader_eq, hserialized]
  · rw [hextract, hextract', hagrees.2]

/-- After any number of successful actions on an accepted header its index and its bytes are
interchangeable: a further action without status operations gives the same result or error, and the
fields are the same. -/
theorem indexed_header_eq_serialized {reader rest : Reader} {limits : MessageLimits}
    {head : MessageHead} (haccepted : Message.readHeaders reader limits = .ok (head, rest))
    {edited : EditedHeader}
    (hedited : HeaderView.Reachable limits head.asBytes (.Indexed edited)) (bodyLen : Nat)
    {action : HeaderAction}
    (hstatus : ∀ operation ∈ action.operations, operation.keepsStatus = true) :
    Refines AppliedHeaderAction.Same (applyHeaderAction (.Indexed edited) bodyLen action limits)
        (applyHeaderAction (.Raw edited.asBytes) bodyLen action limits) ∧
      (HeaderView.Indexed edited).fields = (HeaderView.Raw edited.asBytes).fields := by
  obtain ⟨hheader, -, hsize⟩ := Message.readHeaders_eq_ok haccepted
  rw [hheader] at hsize hedited
  have hsection := headerSection_sectionLines reader.content hsize
  rcases hedited.reached hsection with hraw | ⟨header, heq, hreached⟩
  · cases hraw
  · obtain rfl : edited = header := by
      cases heq
      rfl
    refine ⟨hreached.applyHeaderAction_same hsection.separator bodyLen hstatus, ?_⟩
    change edited.storage.store.entries = rawFields edited.asBytes
    rw [hreached.settled.wf.entries, rawFields, fieldTexts_eq, ← hreached.texts_eq hsection.separator]
    rfl

theorem indexed_header_eq_serialized_after_add :
    ∃ applied,
      applyHeaderAction (.Raw (strBytes "A: x\n\n")) 2
          ⟨[.Add 1 ⟨"B", by decide⟩ ⟨"y"⟩]⟩ ⟨100, 100, 100, 100, 100⟩ = .ok applied ∧
        Refines AppliedHeaderAction.Same
          (applyHeaderAction (.Indexed applied.header) 2
            ⟨[.Remove 1 ⟨"A", by decide⟩]⟩ ⟨100, 100, 100, 100, 100⟩)
          (applyHeaderAction (.Raw applied.header.asBytes) 2
            ⟨[.Remove 1 ⟨"A", by decide⟩]⟩ ⟨100, 100, 100, 100, 100⟩) ∧
        (HeaderView.Indexed applied.header).fields =
          (HeaderView.Raw applied.header.asBytes).fields := by
  obtain ⟨⟨head, rest⟩, haccepted⟩ : ∃ result, Message.readHeaders
      (Reader.cursor (strBytes "A: x\n\nhi")) ⟨100, 100, 100, 100, 100⟩ = .ok result := ⟨_, rfl⟩
  obtain ⟨applied, happly⟩ : ∃ applied, applyHeaderAction (.Raw (strBytes "A: x\n\n")) 2
      ⟨[.Add 1 ⟨"B", by decide⟩ ⟨"y"⟩]⟩ ⟨100, 100, 100, 100, 100⟩ = .ok applied := ⟨_, rfl⟩
  have hbytes : head.asBytes = strBytes "A: x\n\n" := by
    obtain ⟨rfl, -⟩ := Prod.mk.inj (Except.ok.inj haccepted)
    rfl
  have hreached : HeaderView.Reachable ⟨100, 100, 100, 100, 100⟩ head.asBytes
      (.Indexed applied.header) := by
    rw [hbytes]
    exact HeaderView.Reachable.edited HeaderView.Reachable.raw happly
  have hstatus : ∀ operation ∈ (⟨[.Remove 1 ⟨"A", by decide⟩]⟩ : HeaderAction).operations,
      operation.keepsStatus = true := by decide
  exact ⟨applied, happly, indexed_header_eq_serialized haccepted hreached 2 hstatus⟩

end ProcmailRs
