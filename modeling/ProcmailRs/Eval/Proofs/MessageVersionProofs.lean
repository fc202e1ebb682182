import ProcmailRs.Eval.Message
import ProcmailRs.HeaderEdit.Proofs.IndexedProofs

/-!
# Message versions stay coherent

Along every run of header edits and filters the version a recipe sees has the length of its header and
body, delivers exactly these bytes and is matched by their unfolded form. The one step that breaks
this is a body filter with output on an edited header without a separator line: the joined bytes are
read again, and the beginning of the output then belongs to the header that is not used.
-/

namespace ProcmailRs

/-! ### Buffered parts -/

theorem append_flatten_toChunksAux (n : Nat) (l : Bytes) (i : Nat) :
    (List.toChunksAux n l i).1 ++ (List.toChunksAux n l i).2.flatten = l := by
  induction l generalizing i with
  | nil => rfl
  | cons b l ih =>
    cases i with
    | zero => simpa [List.toChunksAux] using ih n
    | succ i => simpa [List.toChunksAux] using ih i

namespace Reader

theorem content_foldr_push (pieces : List Bytes) :
    (pieces.foldr push eof).content = pieces.flatten ∧ (pieces.foldr push eof).Complete := by
  induction pieces with
  | nil => exact ⟨rfl, trivial⟩
  | cons piece rest ih =>
    rw [List.foldr_cons, content_push, complete_push, ih.1]
    exact ⟨rfl, ih.2⟩

theorem content_buffered (parts : List Bytes) : (buffered parts).content = parts.flatten := by
  unfold buffered
  rw [(content_foldr_push _).1]
  induction parts with
  | nil => rfl
  | cons part rest ih =>
    rw [List.flatMap_cons, List.flatten_append, ih, List.flatten_cons, List.flatten_cons,
      append_flatten_toChunksAux]

end Reader

/-- The bytes of a message that was read. -/
theorem Message.asBytes_of_readFrom {reader : Reader} {limits : MessageLimits} {message : Message}
    (h : Message.readFrom reader limits = .ok message) : message.asBytes = reader.content := by
  obtain ⟨-, hheader, hbody, -⟩ := Message.readFrom_eq_ok h
  rw [Message.asBytes, hheader, hbody, ← List.flatten_append, sectionLines_append, flatten_lines]

/-- The bytes behind a complete header are the body. -/
theorem Message.body_of_readFrom {reader : Reader} {limits : MessageLimits} {message : Message}
    {header body : Bytes} (h : Message.readFrom reader limits = .ok message)
    (hcontent : reader.content = header ++ body)
    (hframe : restLines header = [] ∧ body = [] ∨
      ∃ separator, isSeparator separator = true ∧ restLines header = [separator]) :
    message.header = header ∧ message.body = body := by
  obtain ⟨-, hheader, hbody, -⟩ := Message.readFrom_eq_ok h
  rw [hcontent, sectionLines_lines_append hframe] at hheader hbody
  rw [hheader, hbody, flatten_lines, flatten_lines]
  exact ⟨rfl, rfl⟩

/-! ### Coherent versions -/

/-- The unfolded form of a header. -/
def unfolded (header : Bytes) : Bytes := (normalizeFoldedHeader header).getD header

/-- The header ends the way a message needs it: with its only blank line, or without one in front of
an empty body. -/
def Separated (header body : Bytes) : Prop :=
  restLines header = [] ∧ body = [] ∨
    ∃ separator, isSeparator separator = true ∧ restLines header = [separator]

/-- The view has the length of its header and body, delivers exactly these bytes and, when it is
prepared for matching, is matched by their unfolded form. -/
structure CompleteMessage.Coherent (message : CompleteMessage) (prepared : Prop) : Prop where
  len : message.len = message.rawHeader.length + message.body.length
  delivered : (FinalMessage.new message).bytes.bytes = message.rawHeader ++ message.body
  commands : (message.actionInput .Message).bytes = message.rawHeader ++ message.body
  full : prepared → message.full = unfolded message.rawHeader ++ message.body

/-- What the evaluator keeps of a version. -/
inductive MessageVersion.Ok (limits : MessageLimits) : MessageVersion → Prop
  | whole {message : Message} (hsection : HeaderSection limits message.header)
      (hseparated : Separated message.header message.body)
      (hmatching : message.matching = normalizeFoldedHeader message.header) :
      Ok limits (.Whole message)
  | headers {edited : EditedHeader} {body : BodyBacking} {len : Nat} {separator : Bytes}
      (hreached : edited.Reached limits separator)
      (hsep : separator ≠ [] → isSeparator separator = true)
      (hseparated : Separated edited.asBytes body.bytes)
      (hlen : len = edited.asBytes.length + body.bytes.length) :
      Ok limits (.Headers ⟨.Indexed edited, none, limits⟩ body len)

theorem MessageVersion.Ok.coherent {limits : MessageLimits} {version : MessageVersion}
    (h : version.Ok limits) (prepared : Prop) :
    (CompleteMessage.Owned version).Coherent prepared := by
  cases h with
  | @whole message _ _ hmatching =>
    refine ⟨by simp [CompleteMessage.len, MessageVersion.len, Message.len, Message.asBytes,
      CompleteMessage.rawHeader, CompleteMessage.body, MessageVersion.header, MessageVersion.body],
      rfl, rfl, fun _ => ?_⟩
    have hunfolded : message.matchingHeader = unfolded message.header := by
      rw [Message.matchingHeader, hmatching]
      rfl
    change (if message.header = message.matchingHeader then message.asBytes
      else message.matchingHeader ++ message.body) = unfolded message.header ++ message.body
    rw [← hunfolded]
    split_ifs with hsame
    · rw [← hsame]
      rfl
    · rfl
  | @headers edited body len separator hreached _ _ hlen =>
    refine ⟨hlen, rfl, rfl, fun _ => ?_⟩
    change edited.matchingHeader ++ body.bytes = unfolded edited.asBytes ++ body.bytes
    rw [hreached.settled.matchingHeader_eq]
    rfl

/-- The original that `deliver_staged` maps for an accepted message. -/
theorem coherent_staged {message : Message}
    (hmatching : message.matching = normalizeFoldedHeader message.header) (needsFull : Bool)
    {original : CompleteMessage}
    (h : (MappedMessageInput.staged message needsFull).completeMessage needsFull = some original) :
    original.rawHeader = message.header ∧ original.body = message.body ∧
      original.headerView = .Raw message.header ∧ original.Coherent (needsFull = true) := by
  simp only [MappedMessageInput.completeMessage] at h
  split_ifs at h with hlen hvalid
  obtain rfl := Option.some.inj h
  have hheader : message.asBytes.take message.header.length = message.header := List.take_left
  have hbody : message.asBytes.drop message.header.length = message.body := List.drop_left
  refine ⟨hheader, hbody, congrArg HeaderView.Raw hheader, ?_, ?_, ?_, ?_⟩
  · rw [CompleteMessage.rawHeader, CompleteMessage.body]
    dsimp only [MappedMessageInput.staged]
    rw [hheader, hbody, ← List.length_append]
    rfl
  · rw [CompleteMessage.rawHeader, CompleteMessage.body]
    dsimp only [MappedMessageInput.staged]
    rw [List.take_append_drop]
    exact List.append_nil _
  · rw [CompleteMessage.rawHeader, CompleteMessage.body]
    dsimp only [MappedMessageInput.staged]
    rw [List.take_append_drop]
    exact List.append_nil _
  · rintro rfl
    rw [CompleteMessage.rawHeader, CompleteMessage.body, CompleteMessage.full]
    dsimp only [MappedMessageInput.staged]
    rw [hheader, hbody, hmatching, unfolded]
    cases normalizeFoldedHeader message.header with
    | none => rfl
    | some header => rfl

/-! ### The actions that replace the message -/

/-- An action of a recipe that replaces the message, with the output of its command. -/
inductive MessageAction
  | Edit (action : HeaderAction)
  | Filter (area : ActionInput) (stdout : Reader)

/-- The replacement an accepted action installs. -/
def MessageAction.install (action : MessageAction) (original : CompleteMessage)
    (limits : MessageLimits) (current : CurrentMessage) : Option CurrentMessage :=
  match action with
  | Edit action => (current.editHeader original limits action).toOption.map Prod.fst
  | Filter area stdout => (current.filter original limits area stdout).toOption

/-- The step does not filter the body of an edited header without a separator line into some
output. -/
def SafeFilter (current : CurrentMessage) (action : MessageAction) : Prop :=
  match action, current.replacement with
  | .Filter .Body stdout, some (.Headers head _ _) =>
    headerSeparator head.asBytes = [] → stdout.content = []
  | _, _ => True

section Replace

variable {current : CurrentMessage}

/-- The version is an edited header in front of a body. -/
def CurrentMessage.HasEditedHeader (current : CurrentMessage) : Prop :=
  ∃ head body len, current.replacement = some (.Headers head body len)

theorem replace_headers {head : MessageHead} {body : BodyBacking} {len : Nat}
    (h : current.replacement = some (.Headers head body len)) (message : Message) :
    current.replace message .Body = ⟨some (.Headers head (.Filter message) message.len)⟩ := by
  unfold CurrentMessage.replace
  rw [h]

theorem replace_whole (h : ¬ current.HasEditedHeader) (message : Message) (area : ActionInput) :
    current.replace message area = ⟨some (.Whole message)⟩ := by
  unfold CurrentMessage.replace
  split
  · rename_i head body len heq
    exact absurd ⟨head, body, len, heq⟩ h
  · rfl

theorem safeFilter_headers {head : MessageHead} {body : BodyBacking} {len : Nat}
    (h : current.replacement = some (.Headers head body len)) (stdout : Reader) :
    SafeFilter current (.Filter .Body stdout) ↔
      (headerSeparator head.asBytes = [] → stdout.content = []) := by
  unfold SafeFilter
  rw [h]

theorem safeFilter_whole (h : ¬ current.HasEditedHeader) (action : MessageAction) :
    SafeFilter current action := by
  unfold SafeFilter
  split
  · rename_i head body len heq
    exact absurd ⟨head, body, len, heq⟩ h
  · trivial

end Replace

/-- What an action has to achieve: the new version is coherent, and after a body filter it delivers
the previous header and the complete output. -/
structure Achieved (original : CompleteMessage) (prepared : Prop) (current : CurrentMessage)
    (action : MessageAction) (next : CurrentMessage) : Prop where
  coherent : (next.view original).Coherent (prepared ∨ next.replacement.isSome = true)
  output : ∀ stdout, action = .Filter .Body stdout →
    (FinalMessage.new (next.view original)).bytes.bytes =
      (current.view original).rawHeader ++ stdout.content

theorem toOption_eq_some {ε α : Type} {x : Except ε α} {a : α} (h : x.toOption = some a) :
    x = .ok a := by
  cases x with
  | error e => cases h
  | ok b => exact congrArg Except.ok (Option.some.inj h)

/-- The state of a run: the original is what was staged, and a replacement is as the evaluator keeps
it. -/
structure CurrentMessage.Ok (limits : MessageLimits) (original : CompleteMessage)
    (current : CurrentMessage) : Prop where
  version : ∀ version, current.replacement = some version → version.Ok limits
  hsection : HeaderSection limits original.rawHeader
  separated : Separated original.rawHeader original.body
  raw : original.headerView = .Raw original.rawHeader

namespace CurrentMessage.Ok

variable {limits : MessageLimits} {original : CompleteMessage} {current next : CurrentMessage}

theorem whole (h : current.Ok limits original) {reader : Reader} {message : Message}
    (hread : Message.readFrom reader limits = .ok message) :
    (CurrentMessage.mk (some (.Whole message))).Ok limits original := by
  obtain ⟨hsection, hseparated⟩ := Message.headerSection_of_readFrom hread
  obtain ⟨-, -, -, hmatching, -⟩ := Message.readFrom_eq_ok hread
  refine ⟨?_, h.hsection, h.separated, h.raw⟩
  intro version hversion
  obtain rfl := Option.some.inj hversion
  exact .whole hsection hseparated hmatching

theorem headers (h : current.Ok limits original) {edited : EditedHeader} {body : BodyBacking}
    {len : Nat} {separator : Bytes} (hreached : edited.Reached limits separator)
    (hsep : separator ≠ [] → isSeparator separator = true)
    (hseparated : Separated edited.asBytes body.bytes)
    (hlen : len = edited.asBytes.length + body.bytes.length) :
    (CurrentMessage.mk (some (.Headers ⟨.Indexed edited, none, limits⟩ body len))).Ok limits
      original := by
  refine ⟨?_, h.hsection, h.separated, h.raw⟩
  intro version hversion
  obtain rfl := Option.some.inj hversion
  exact .headers hreached hsep hseparated hlen

/-- The header a recipe sees is a header section in front of the body it sees. -/
theorem view_section (h : current.Ok limits original) :
    HeaderSection limits (current.view original).rawHeader ∧
      Separated (current.view original).rawHeader (current.view original).body ∧
      ((current.view original).headerView = .Raw (current.view original).rawHeader ∨
        ∃ edited : EditedHeader, (current.view original).headerView = .Indexed edited ∧
          edited.Reached limits (headerSeparator (current.view original).rawHeader)) := by
  unfold CurrentMessage.view
  cases hreplacement : current.replacement with
  | none => exact ⟨h.hsection, h.separated, Or.inl h.raw⟩
  | some version =>
    have hversion := h.version version hreplacement
    cases hversion with
    | whole hsection hseparated _ => exact ⟨hsection, hseparated, Or.inl rfl⟩
    | @headers edited body len separator hreached hsep hseparated _ =>
      have hending : headerSeparator edited.asBytes = separator :=
        hreached.headerSeparator_asBytes hsep
      have hsize : edited.asBytes.length ≤ limits.headersSize := by
        have hlen := hreached.size
        rwa [EditedHeader.len, hreached.settled.coherent.size, ← hreached.settled.coherent.asBytes]
          at hlen
      refine ⟨⟨hsize, ?_⟩, hseparated, Or.inr ⟨edited, rfl, ?_⟩⟩
      · change headerSeparator edited.asBytes ≠ [] → isSeparator (headerSeparator edited.asBytes) = true
        rw [hending]
        exact hsep
      · change edited.Reached limits (headerSeparator edited.asBytes)
        rw [hending]
        exact hreached

/-- A header edit keeps the state. -/
theorem edit (h : current.Ok limits original) {action : HeaderAction}
    {extractions : List HeaderExtraction}
    (hedit : current.editHeader original limits action = .ok (next, extractions)) :
    next.Ok limits original := by
  obtain ⟨hsection, hseparated, hview⟩ := h.view_section
  obtain ⟨applied, happly, hedit⟩ := bind_eq_ok hedit
  obtain ⟨hreached, hrest, -⟩ := applyHeaderAction_framed hsection hview happly
  split_ifs at hedit with hchanged
  · obtain ⟨installed, hinstall, hedit⟩ := bind_eq_ok hedit
    obtain ⟨rfl, -⟩ := Prod.mk.inj (Except.ok.inj hedit)
    obtain ⟨head, hhead, hinstall⟩ := bind_eq_ok hinstall
    obtain ⟨len, hlen, hinstall⟩ := bind_eq_ok hinstall
    obtain rfl := Except.ok.inj hinstall
    obtain ⟨_, -, hhead⟩ := bind_eq_ok hhead
    obtain rfl := Except.ok.inj hhead
    obtain ⟨-, rfl⟩ := addSize_eq_ok.mp hlen
    have hrestLines : restLines applied.header.asBytes =
        restLines (current.view original).rawHeader := by
      rw [hrest, lines_headerSeparator]
    have hsize : applied.header.len = applied.header.asBytes.length := by
      rw [EditedHeader.len, hreached.settled.coherent.size, hreached.settled.coherent.asBytes]
    refine h.headers hreached hsection.separator ?_ (congrArg (· + _) hsize)
    -- the body is the one the recipe saw
    rw [Separated, hrestLines]
    refine hseparated.imp (fun hempty => ⟨hempty.1, ?_⟩) id
    have hbody := hempty.2
    unfold CurrentMessage.view at hbody
    cases hreplacement : current.replacement with
    | none =>
      rw [hreplacement] at hbody
      exact hbody
    | some version =>
      rw [hreplacement] at hbody
      cases version with
      | Whole message => exact hbody
      | Headers head body len => exact hbody
  · obtain ⟨rfl, -⟩ := Prod.mk.inj (Except.ok.inj hedit)
    exact h

/-- What a body filter joins: the header a recipe sees and the complete output. -/
theorem filter_body {stdout : Reader}
    (hfilter : current.filter original limits .Body stdout = .ok next) :
    ∃ reader message, Message.readFrom reader limits = .ok message ∧
      reader.content = (current.view original).rawHeader ++ stdout.content ∧
      next = current.replace message .Body := by
  obtain ⟨output, houtput, hfilter⟩ := bind_eq_ok hfilter
  obtain ⟨message, hmessage, hfilter⟩ := bind_eq_ok hfilter
  obtain rfl := Except.ok.inj hfilter
  rw [CurrentMessage.filterOutput, if_pos rfl] at houtput
  have hbytes : output.asBytes = LF :: stdout.content := by
    rw [Message.asBytes_of_readFrom houtput, Reader.content_push]
    rfl
  simp only [Message.fromFilterOutput, hbytes] at hmessage
  refine ⟨_, message, hmessage, ?_, rfl⟩
  rw [Reader.content_buffered, List.flatten_cons, List.flatten_singleton]

/-- A filter of the whole message or of the header installs a message that was read. -/
theorem filter_whole {area : ActionInput} (harea : area ≠ .Body) {stdout : Reader}
    (hfilter : current.filter original limits area stdout = .ok next) :
    ∃ reader message, Message.readFrom reader limits = .ok message ∧ next = ⟨some (.Whole message)⟩ := by
  obtain ⟨output, houtput, hfilter⟩ := bind_eq_ok hfilter
  obtain ⟨message, hmessage, hfilter⟩ := bind_eq_ok hfilter
  obtain rfl := Except.ok.inj hfilter
  rw [CurrentMessage.filterOutput, if_neg harea] at houtput
  cases area with
  | Message =>
    obtain ⟨head, -, hmessage⟩ := bind_eq_ok hmessage
    obtain ⟨_, -, hmessage⟩ := bind_eq_ok hmessage
    obtain rfl := Except.ok.inj hmessage
    exact ⟨stdout, output, houtput, rfl⟩
  | Headers => exact ⟨_, message, hmessage, rfl⟩
  | Body => exact absurd rfl harea

/-- A body filter on an edited header keeps the state exactly when the header has a separator line or
there is no output. -/
theorem filter_body_headers (h : current.Ok limits original) {edited : EditedHeader}
    {body : BodyBacking} {len : Nat}
    (hreplacement : current.replacement = some (.Headers ⟨.Indexed edited, none, limits⟩ body len))
    {stdout reader : Reader} {message : Message}
    (hread : Message.readFrom reader limits = .ok message)
    (hcontent : reader.content = edited.asBytes ++ stdout.content) :
    (headerSeparator edited.asBytes = [] → stdout.content = []) ↔
      message.header = edited.asBytes ∧ message.body = stdout.content := by
  have hsection := h.view_section.1
  unfold CurrentMessage.view at hsection
  rw [hreplacement] at hsection
  replace hsection : HeaderSection limits edited.asBytes := hsection
  constructor
  · intro hsafe
    refine Message.body_of_readFrom hread hcontent ?_
    by_cases hending : headerSeparator edited.asBytes = []
    · refine Or.inl ⟨?_, hsafe hending⟩
      rw [← lines_headerSeparator, hending]
      rfl
    · have hblank := hsection.separator hending
      refine Or.inr ⟨headerSeparator edited.asBytes, hblank, ?_⟩
      rw [← lines_headerSeparator]
      exact lines_of_isSeparator hblank
  · rintro ⟨hheader, hbody⟩ hending
    rcases (Message.headerSection_of_readFrom hread).2 with ⟨-, hempty⟩ | ⟨separator, hsep, hrest⟩
    · rw [← hbody, hempty]
    · rw [hheader] at hrest
      rw [headerSeparator, hrest, List.flatten_singleton] at hending
      rw [hending] at hsep
      cases hsep

/-- The view of a state of the run is coherent. -/
theorem coherent (h : current.Ok limits original) {prepared : Prop}
    (horiginal : original.Coherent prepared) :
    (current.view original).Coherent (prepared ∨ current.replacement.isSome = true) := by
  unfold CurrentMessage.view
  cases hreplacement : current.replacement with
  | none =>
    refine ⟨horiginal.len, horiginal.delivered, horiginal.commands, ?_⟩
    rintro (hprepared | hsome)
    · exact horiginal.full hprepared
    · cases hsome
  | some version => exact (h.version version hreplacement).coherent _

/-- A body filter meets its purpose and keeps the state exactly when it is safe. -/
theorem filter_body_achieved (h : current.Ok limits original) {prepared : Prop}
    (horiginal : original.Coherent prepared) {stdout : Reader}
    (hfilter : current.filter original limits .Body stdout = .ok next) :
    (SafeFilter current (.Filter .Body stdout) → next.Ok limits original) ∧
      (Achieved original prepared current (.Filter .Body stdout) next ↔
        SafeFilter current (.Filter .Body stdout)) := by
  obtain ⟨reader, message, hread, hcontent, rfl⟩ := filter_body hfilter
  have hbytes := Message.asBytes_of_readFrom hread
  by_cases hkept : current.HasEditedHeader
  · obtain ⟨head, body, len, hreplacement⟩ := hkept
    have hversion := h.version _ hreplacement
    cases hversion with
    | @headers edited _ _ separator hreached hsep hseparated hlen =>
      have hheader : (current.view original).rawHeader = edited.asBytes := by
        unfold CurrentMessage.view
        rw [hreplacement]
        rfl
      rw [hheader] at hcontent
      have hexact := filter_body_headers h hreplacement hread hcontent
      rw [safeFilter_headers hreplacement, replace_headers hreplacement]
      have hok : (headerSeparator edited.asBytes = [] → stdout.content = []) →
          (CurrentMessage.mk (some (.Headers ⟨.Indexed edited, none, limits⟩ (.Filter message)
            message.len))).Ok limits original := by
        intro hsafe
        obtain ⟨hsame, hbody⟩ := hexact.mp hsafe
        refine h.headers hreached hsep ?_ ?_
        · have hframe := (Message.headerSection_of_readFrom hread).2
          rw [hsame] at hframe
          exact hframe
        · rw [Message.len, Message.asBytes, List.length_append, hsame]
          rfl
      refine ⟨hok, fun hachieved => ?_, fun hsafe => ⟨(hok hsafe).coherent horiginal, ?_⟩⟩
      · have houtput := hachieved.output stdout rfl
        rw [hheader] at houtput
        have hbody : message.body = stdout.content := List.append_cancel_left houtput
        have hsame : message.header = edited.asBytes := by
          rw [hcontent, Message.asBytes, hbody] at hbytes
          exact List.append_cancel_right hbytes
        exact hexact.mpr ⟨hsame, hbody⟩
      · rintro _ ⟨⟩
        rw [hheader, ← (hexact.mp hsafe).2]
        rfl
  · rw [replace_whole hkept]
    have hok := h.whole hread
    have hsafe := safeFilter_whole hkept (.Filter .Body stdout)
    refine ⟨fun _ => hok, fun _ => hsafe, fun _ => ⟨hok.coherent horiginal, ?_⟩⟩
    rintro _ ⟨⟩
    rw [← hcontent, ← hbytes]
    rfl

/-- One accepted action: it meets its purpose and keeps the state exactly when it is safe. -/
theorem install (h : current.Ok limits original) {prepared : Prop}
    (horiginal : original.Coherent prepared) {action : MessageAction}
    (hinstall : action.install original limits current = some next) :
    (SafeFilter current action → next.Ok limits original) ∧
      (Achieved original prepared current action next ↔ SafeFilter current action) := by
  cases action with
  | Edit action =>
    obtain ⟨⟨edited, extractions⟩, hedit, rfl⟩ := Option.map_eq_some_iff.mp hinstall
    have hok := h.edit (toOption_eq_some hedit)
    exact ⟨fun _ => hok, fun _ => trivial, fun _ => ⟨hok.coherent horiginal, by rintro _ ⟨⟩⟩⟩
  | Filter area stdout =>
    have hfilter := toOption_eq_some hinstall
    by_cases harea : area = .Body
    · subst harea
      exact h.filter_body_achieved horiginal hfilter
    · obtain ⟨reader, message, hread, rfl⟩ := filter_whole harea hfilter
      have hok := h.whole hread
      have hsafe : SafeFilter current (.Filter area stdout) := by
        unfold SafeFilter
        split
        · rename_i heq _
          cases heq
          exact absurd rfl harea
        · trivial
      refine ⟨fun _ => hok, fun _ => hsafe, fun _ => ⟨hok.coherent horiginal, ?_⟩⟩
      rintro _ ⟨⟩
      exact absurd rfl harea

end CurrentMessage.Ok

/-! ### Runs -/

/-- The versions reached from the original by accepted actions that are all safe. -/
inductive MessageRun (original : CompleteMessage) (limits : MessageLimits) : CurrentMessage → Prop
  | start : MessageRun original limits ⟨none⟩
  | step {current next : CurrentMessage} {action : MessageAction}
      (h : MessageRun original limits current) (hsafe : SafeFilter current action)
      (hinstall : action.install original limits current = some next) :
      MessageRun original limits next

/-- In every run of safe steps on an accepted message the version is coherent, and the next step
meets its purpose exactly when it is safe too. -/
theorem message_versions_coherent {reader : Reader} {limits : MessageLimits} {message : Message}
    (haccepted : Message.readFrom reader limits = .ok message) {needsFull : Bool}
    {original : CompleteMessage}
    (hstaged : (MappedMessageInput.staged message needsFull).completeMessage needsFull =
      some original)
    {current : CurrentMessage} (hrun : MessageRun original limits current) :
    (current.view original).Coherent (needsFull = true ∨ current.replacement.isSome = true) ∧
      ∀ (action : MessageAction) (next : CurrentMessage),
        action.install original limits current = some next →
        (Achieved original (needsFull = true) current action next ↔ SafeFilter current action) := by
  obtain ⟨hsection, hseparated⟩ := Message.headerSection_of_readFrom haccepted
  obtain ⟨-, -, -, hmatching, -⟩ := Message.readFrom_eq_ok haccepted
  obtain ⟨hheader, hbody, hview, horiginal⟩ := coherent_staged hmatching needsFull hstaged
  have hok : current.Ok limits original := by
    induction hrun with
    | start =>
      refine ⟨by rintro _ ⟨⟩, ?_, ?_, by rw [hview, hheader]⟩
      · rw [hheader]
        exact hsection
      · rw [hheader, hbody]
        exact hseparated
    | step _ hsafe hinstall ih => exact (ih.install horiginal hinstall).1 hsafe
  exact ⟨hok.coherent horiginal, fun action next hinstall => (hok.install horiginal hinstall).2⟩

/-- A header edit, and then a filter for the body behind the edited header. -/
theorem message_versions_coherent_after_filter :
    ∃ original edited filtered,
      (MappedMessageInput.staged ⟨strBytes "A: x\n\n", strBytes "hi", none⟩ true).completeMessage
          true = some original ∧
        (MessageAction.Edit ⟨[.Add 1 ⟨"B", by decide⟩ ⟨"y"⟩]⟩).install original
          ⟨100, 100, 100, 100, 100⟩ ⟨none⟩ = some edited ∧
        (MessageAction.Filter .Body (Reader.cursor (strBytes "bye"))).install original
          ⟨100, 100, 100, 100, 100⟩ edited = some filtered ∧
        (FinalMessage.new (filtered.view original)).bytes.bytes = strBytes "A: x\nB: y\n\nbye" ∧
        (filtered.view original).Coherent (true = true ∨ filtered.replacement.isSome = true) := by
  have haccepted : Message.readFrom (Reader.cursor (strBytes "A: x\n\nhi"))
      ⟨100, 100, 100, 100, 100⟩ = .ok ⟨strBytes "A: x\n\n", strBytes "hi", none⟩ := rfl
  obtain ⟨original, edited, filtered, horiginal, hedited, hfiltered, hbytes, hsafe⟩ :
      ∃ original edited filtered,
        (MappedMessageInput.staged ⟨strBytes "A: x\n\n", strBytes "hi", none⟩ true).completeMessage
            true = some original ∧
          (MessageAction.Edit ⟨[.Add 1 ⟨"B", by decide⟩ ⟨"y"⟩]⟩).install original
            ⟨100, 100, 100, 100, 100⟩ ⟨none⟩ = some edited ∧
          (MessageAction.Filter .Body (Reader.cursor (strBytes "bye"))).install original
            ⟨100, 100, 100, 100, 100⟩ edited = some filtered ∧
          (FinalMessage.new (filtered.view original)).bytes.bytes = strBytes "A: x\nB: y\n\nbye" ∧
          SafeFilter edited (.Filter .Body (Reader.cursor (strBytes "bye"))) := by
    refine ⟨_, _, _, rfl, rfl, rfl, rfl, ?_⟩
    intro hseparator
    exact absurd hseparator (by decide)
  have hfirst : SafeFilter ⟨none⟩ (.Edit ⟨[.Add 1 ⟨"B", by decide⟩ ⟨"y"⟩]⟩) := trivial
  have hedit : MessageRun original ⟨100, 100, 100, 100, 100⟩ edited := .step .start hfirst hedited
  exact ⟨original, edited, filtered, horiginal, hedited, hfiltered, hbytes,
    (message_versions_coherent haccepted horiginal (.step hedit hsafe hfiltered)).1⟩

/-- A message without a separator line, a header edit and a body filter: the output is lost. -/
theorem body_filter_loses_output :
    ∃ original edited filtered,
      (MappedMessageInput.staged ⟨strBytes "A: x\n", [], none⟩ true).completeMessage true =
          some original ∧
        (MessageAction.Edit ⟨[.Add 1 ⟨"B", by decide⟩ ⟨"y"⟩]⟩).install original
          ⟨100, 100, 100, 100, 100⟩ ⟨none⟩ = some edited ∧
        (MessageAction.Filter .Body (Reader.cursor (strBytes "hi"))).install original
          ⟨100, 100, 100, 100, 100⟩ edited = some filtered ∧
        (FinalMessage.new (filtered.view original)).bytes.bytes = strBytes "A: x\nB: y\n" ∧
        (edited.view original).rawHeader ++ strBytes "hi" = strBytes "A: x\nB: y\nhi" ∧
        (filtered.view original).len ≠
          (filtered.view original).rawHeader.length + (filtered.view original).body.length :=
  ⟨_, _, _, rfl, rfl, rfl, rfl, rfl, by decide⟩

end ProcmailRs
