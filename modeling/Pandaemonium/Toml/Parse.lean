import Pandaemonium.Toml.Value

/-!
# `Toml.Parse` — values from tokens (`value.go`)

`parseNextValue`, `parseRawValueToken`, `parseArrayValue` and `parseInlineTableValue` call one another:
a bracket token starts the loop of a container, and the loop parses each part from its tokens. Here the
loops are given the parser of the parts, and `parseRawValueToken` ties the knot with a bound on how deep
containers nest. Every opened container has taken a byte, so the bytes left at the start are bound
enough.
-/

namespace Pandaemonium.Toml

/-! ## Calls that may fail -/

def Outcome.ofExcept {α : Type} : Except Err α → Outcome α
  | .ok a => .ok a
  | .error e => .error e

/-- Go on in a loop turn with the result of a call; anything but a result ends the loop. -/
def afterCall {σ α β : Type} (r : Outcome α × Decoder)
    (k : α → Decoder → Turn σ (Outcome β × Decoder)) : Turn σ (Outcome β × Decoder) :=
  match r with
  | (.ok a, d) => k a d
  | (.error e, d) => .done (.error e, d)
  | (.hang, d) => .done (.hang, d)

/-- A source loop that calls the decoder; one that never returns hangs. -/
def runLoop {σ α : Type} (dec : σ → Decoder) (body : σ → Turn σ (Outcome α × Decoder)) (s : σ) :
    Outcome α × Decoder :=
  match Loop.loop (fun s => (dec s).rest.length) body s with
  | some r => r
  | none => (.hang, dec s)

section

variable {σ α β : Type} {r : Outcome α × Decoder} {k : α → Decoder → Turn σ (Outcome β × Decoder)}

theorem afterCall_done {b : β} {d' : Decoder} (h : afterCall r k = .done (.ok b, d')) :
    ∃ a d, r = (.ok a, d) ∧ k a d = .done (.ok b, d') := by
  obtain ⟨o, d⟩ := r
  cases o with
  | ok a => exact ⟨a, d, rfl, h⟩
  | error e | hang => cases h

theorem afterCall_again {s : σ} (h : afterCall r k = .again s) : ∃ a d, r = (.ok a, d) ∧ k a d = .again s := by
  obtain ⟨o, d⟩ := r
  cases o with
  | ok a => exact ⟨a, d, rfl, h⟩
  | error e | hang => cases h

theorem runLoop_ok {dec : σ → Decoder} {body : σ → Turn σ (Outcome α × Decoder)} {s : σ} {a : α}
    {d : Decoder} (h : runLoop dec body s = (.ok a, d)) :
    Loop.loop (fun s => (dec s).rest.length) body s = some (.ok a, d) := by
  unfold runLoop at h
  split at h
  · rename_i r hl; rw [hl, h]
  · cases h

end

/-- A parser of the value that a token starts. -/
abbrev ValueParser := RawToken → Decoder → Outcome Val × Decoder

/-! ## Scalars -/

def scalarIntegerValue (scalar : TokenScalar) (raw : Bytes) : Except Err Int :=
  match scalar with
  | .integer i => .ok i
  | _ => (parseIntegerLiteral raw).mapError .numErr

def isSpecialFloatFolded (raw : Bytes) : Bool :=
  let folded := (trimSignBytes raw).map lowerASCII
  folded == ascii "inf" || folded == ascii "nan"

def scalarFloatValue (scalar : TokenScalar) (raw : Bytes) (malformedSpecial : Err) :
    Except Err Nat :=
  match scalar with
  | .float bits => .ok bits
  | _ =>
    match parseSpecialFloatLiteral raw with
    | some bits => .ok bits
    | none =>
      if isSpecialFloatFolded raw then .error malformedSpecial
      else
        match parseFloatLiteral raw with
        | some bits => .ok bits
        | none => .error (.parseFloat raw)

/-- The value of a token that is a whole value. -/
def parseScalarToken (tok : RawToken) (d : Decoder) : Except Err Val :=
  match tok.kind with
  | .valueString => (parseStringValue tok.bytes).map .str
  | .valueInteger => (scalarIntegerValue d.tokenScalar tok.bytes).map .int
  | .valueFloat =>
    (scalarFloatValue d.tokenScalar tok.bytes
      (syntaxErrorForRawToken d.buf tok "malformed special float")).map .float
  | .valueBool =>
    if tok.bytes = ascii "true" then .ok (.bool true)
    else if tok.bytes = ascii "false" then .ok (.bool false)
    else .error (syntaxErrorForRawToken d.buf tok "malformed boolean")
  | .valueDatetime => (parseDateTimeValue tok.bytes).map .dateTime
  | _ => .error (syntaxErrorForRawToken d.buf tok "expected value")

/-! ## Containers -/

/-- One turn of `parseNextValue`: comments are passed over. -/
def nextValueTurn (pv : ValueParser) (d : Decoder) : Turn Decoder (Outcome Val × Decoder) :=
  afterCall d.readToken fun tok d =>
    match tok.kind with
    | .comment => .again d
    | _ => .done (pv tok d)

def parseNextValueWith (pv : ValueParser) (d : Decoder) : Outcome Val × Decoder :=
  runLoop id (nextValueTurn pv) d

/-- One turn of `parseArrayValue`, with the elements so far. -/
def arrayTurn (pv : ValueParser) (s : List Val × Decoder) :
    Turn (List Val × Decoder) (Outcome Val × Decoder) :=
  afterCall s.2.readToken fun tok d =>
    match tok.kind with
    | .comment => .again (s.1, d)
    | .arrayEnd => .done (.ok (.arr s.1), d)
    | _ => afterCall (pv tok d) fun v d => .again (s.1 ++ [v], d)

def parseArrayValue (pv : ValueParser) (d : Decoder) : Outcome Val × Decoder :=
  runLoop (·.2) (arrayTurn pv) ([], d)

/-- The entries of an inline table so far and the containers among them. -/
structure InlineState where
  m : Table
  closedInlineTables : Contexts
  dec : Decoder
  deriving DecidableEq

/-- The entry that the key token `tok` starts. -/
def inlineEntry (pv : ValueParser) (s : InlineState) (tok : RawToken) (d : Decoder) :
    Turn InlineState (Outcome Val × Decoder) :=
  match parseDottedKey tok.bytes with
  | .error e => .done (.error e, d)
  | .ok key =>
    if closedInlinePrefix key s.closedInlineTables [] then
      .done (.error (syntaxErrorForRawToken d.buf tok "cannot extend inline table"), d)
    else
      afterCall (parseNextValueWith pv d) fun v d =>
        match assignUniqueRaw s.m key v with
        | .error msg => .done (.error (syntaxErrorForRawToken d.buf tok msg), d)
        | .ok m => .again ⟨m, markClosedValuePaths [] s.closedInlineTables key v, d⟩

/-- One turn of `parseInlineTableValue`. -/
def inlineTurn (pv : ValueParser) (s : InlineState) : Turn InlineState (Outcome Val × Decoder) :=
  afterCall s.dec.readToken fun tok d =>
    match tok.kind with
    | .comment => .again { s with dec := d }
    | .inlineTableEnd => .done (.ok (.tbl s.m), d)
    | .key => inlineEntry pv s tok d
    | _ => .done (.error (syntaxErrorForRawToken d.buf tok "expected inline table key"), d)

def parseInlineTableValue (pv : ValueParser) (d : Decoder) : Outcome Val × Decoder :=
  runLoop (·.dec) (inlineTurn pv) ⟨[], [], d⟩

/-- **The value that `tok` starts**, for containers nested at most `depth` deep. -/
def parseRawValueToken : Nat → ValueParser
  | 0, tok, d =>
    match tok.kind with
    | .arrayStart => (.hang, d)
    | .inlineTableStart => (.hang, d)
    | _ => (.ofExcept (parseScalarToken tok d), d)
  | depth + 1, tok, d =>
    match tok.kind with
    | .arrayStart => parseArrayValue (parseRawValueToken depth) d
    | .inlineTableStart => parseInlineTableValue (parseRawValueToken depth) d
    | _ => (.ofExcept (parseScalarToken tok d), d)

/-- The value after a key. -/
def parseNextValue (d : Decoder) : Outcome Val × Decoder :=
  parseNextValueWith (parseRawValueToken d.rest.length) d

end Pandaemonium.Toml
