import ProcmailRs.HeaderValue

/-!
# Structured header values

The keyword headers hold comma- or space-separated tokens. Incoming headers may be malformed:
non-ASCII and control tokens are ignored, so that hostile input cannot abort delivery, while every
valid token counts toward a limit on the total work before duplicates are dropped. Configured
keywords are checked strictly.
-/

namespace ProcmailRs

/-- How many values a field may have. -/
def maxStructuredHeaderValues : Nat := 4096

/-- The fields that hold keywords. -/
inductive KeywordField
  | Keywords
  | XLabel
  | XKeywords
  deriving DecidableEq, Repr

/-- The fields in the order in which they are written. -/
def KeywordField.all : List KeywordField := [.Keywords, .XLabel, .XKeywords]

/-- The name of the field. -/
def KeywordField.name : KeywordField → HeaderName
  | .Keywords => ⟨"Keywords", by decide⟩
  | .XLabel => ⟨"X-Label", by decide⟩
  | .XKeywords => ⟨"X-Keywords", by decide⟩

/-- `u8::is_ascii_whitespace`. -/
def isAsciiWhitespace (b : UInt8) : Bool := b == SP || b == HT || b == LF || b == CR || b == 12

/-- `u8::is_ascii_graphic`. -/
def isGraphicByte (b : UInt8) : Bool := 33 ≤ b && b ≤ 126

/-- `work_limit_error`: too many structured values. -/
structure StructuredHeaderError where
  limit : Nat
  deriving DecidableEq, Repr

/-- There are too many values. -/
def workLimitError : StructuredHeaderError := ⟨maxStructuredHeaderValues⟩

/-- Why a visit has ended: the fields have too many values, or the visitor does not go on. -/
inductive StructuredVisitError (ε : Type)
  | Header (error : StructuredHeaderError)
  | Visitor (error : ε)
  deriving DecidableEq, Repr

section Visitors

variable {ε σ : Type}

/-- The fields with a name and a value are visited in order until one visit returns `true`. The
visitor's own state `σ` is passed along. -/
def visitFields (visit : σ → Bytes → Bytes → Except ε (Bool × σ)) :
    List Field → σ → Except ε (Bool × σ)
  | [], s => .ok (false, s)
  | field :: rest, s =>
    match field.name, field.value with
    | some name, some value =>
      match visit s name value with
      | .error e => .error e
      | .ok (true, s) => .ok (true, s)
      | .ok (false, s) => visitFields visit rest s
    | _, _ => visitFields visit rest s

/-- What has been seen of the keyword headers: the number of valid tokens and the tokens. -/
structure KeywordScan where
  count : Nat
  seen : List String

/-- The text of an ASCII token. -/
def asciiString (token : Bytes) : String :=
  String.ofList (token.map fun byte => Char.ofNat byte.toNat)

/-- The keyword of a token, if it is one. -/
def validKeywordStr (token : Bytes) : Option String :=
  if token.isEmpty || !(token.all fun byte => isGraphicByte byte && byte != 44) then none
  else some (asciiString token)

/-- The tokens between spaces and commas. -/
def keywordTokens (input : Bytes) : List Bytes :=
  (input.splitOnP fun byte => isAsciiWhitespace byte || byte == 44).filter fun token =>
    !token.isEmpty

/-- The tokens of one keyword header. -/
def visitKeywordTokens (visit : σ → String → Except ε (Bool × σ)) :
    List Bytes → KeywordScan → σ → Except (StructuredVisitError ε) (Bool × KeywordScan × σ)
  | [], scan, s => .ok (false, scan, s)
  | token :: rest, scan, s =>
    match validKeywordStr token with
    | none => visitKeywordTokens visit rest scan s
    | some keyword =>
      if scan.count + 1 > maxStructuredHeaderValues then .error (.Header workLimitError)
      else if scan.seen.contains keyword then
        visitKeywordTokens visit rest ⟨scan.count + 1, scan.seen⟩ s
      else
        match visit s keyword with
        | .error e => .error (.Visitor e)
        | .ok (true, s) => .ok (true, ⟨scan.count + 1, scan.seen ++ [keyword]⟩, s)
        | .ok (false, s) =>
          visitKeywordTokens visit rest ⟨scan.count + 1, scan.seen ++ [keyword]⟩ s

/-- `visit_keywords`: each keyword once, over the fields in their order, until the visitor ends it. -/
def visitKeywords (fields : List Field) (wanted : List KeywordField)
    (visit : σ → String → Except ε (Bool × σ)) (s : σ) :
    Except (StructuredVisitError ε) (Bool × σ) :=
  let visitField (state : KeywordScan × σ) (name value : Bytes) :
      Except (StructuredVisitError ε) (Bool × KeywordScan × σ) :=
    if wanted.any fun field => eqIgnoreAsciiCase name field.name.bytes then
      visitKeywordTokens visit (keywordTokens value) state.1 state.2
    else .ok (false, state)
  match visitFields visitField fields (⟨0, []⟩, s) with
  | .error e => .error e
  | .ok (found, _, s) => .ok (found, s)

end Visitors

/-- The distinct keywords of the wanted headers, in order of their first occurrence. -/
def collectKeywords (fields : List Field) (wanted : List KeywordField) :
    Except StructuredHeaderError (List String) :=
  let collect (keywords : List String) (keyword : String) : Except Empty (Bool × List String) :=
    .ok (false, keywords ++ [keyword])
  match visitKeywords fields wanted collect [] with
  | .ok (_, keywords) => .ok keywords
  | .error (.Header error) => .error error
  | .error (.Visitor never) => never.elim

/-- Why configured keywords are rejected. -/
inductive ConfiguredKeywordError
  | Empty
  | InvalidToken
  | TooMany (limit : Nat)
  deriving DecidableEq, Repr

/-- The words of the error. -/
def ConfiguredKeywordError.reason : ConfiguredKeywordError → String
  | .Empty => "must contain at least one keyword"
  | .InvalidToken => "must contain only printable ASCII keywords separated by spaces or commas"
  | .TooMany _ => "exceeds the hard limit of 4096 keywords"

/-- The loop of `parse_configured_keywords` over the tokens that are left. -/
def parseKeywordTokens (count : Nat) (keywords : List String) :
    List Bytes → Except ConfiguredKeywordError (List String)
  | [] => .ok keywords
  | token :: rest =>
    match validKeywordStr token with
    | none => .error .InvalidToken
    | some keyword =>
      if count + 1 > maxStructuredHeaderValues then .error (.TooMany maxStructuredHeaderValues)
      else
        parseKeywordTokens (count + 1)
          (if keywords.contains keyword then keywords else keywords ++ [keyword]) rest

/-- The configured keywords, at least one of them, each once. -/
def parseConfiguredKeywords (value : String) : Except ConfiguredKeywordError (List String) := do
  let tokens := ((strBytes value).splitOnP fun byte => isBlank byte || byte == 44).filter
    fun token => !token.isEmpty
  let keywords ← parseKeywordTokens 0 [] tokens
  if keywords.isEmpty then .error .Empty else .ok keywords

/-- `keywords.join(", ")`. -/
def joinKeywords (keywords : List String) : String :=
  String.ofList ([',', ' '].intercalate (keywords.map String.toList))

end ProcmailRs
