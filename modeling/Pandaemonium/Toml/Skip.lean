import Pandaemonium.Toml.Parse

/-!
# `Toml.Skip` — passing over a value without building it (`value.go`)

A key the destination has no field for has its value skipped. `skipNextValue` passes over an array or an
inline table with a scanner of its own, `scanSkippedStructuralValue`: a stack of frames that each say
what may come next in one open container. No tokens are made, so the comma, key, comment and depth rules
of the token reader are all stated a second time here. Offsets are counted from the value's first byte.
-/

namespace Pandaemonium.Toml

inductive SkippedContainerState where
  | arrayValue | arraySeparator | inlineKey | inlineValue | inlineSeparator
  deriving DecidableEq, Repr

structure SkipState where
  /-- what may come next in each open container, innermost first -/
  frames : List SkippedContainerState
  arrayDepth : Nat
  inlineDepth : Nat
  i : Nat
  /-- the text from `i` on -/
  text : Bytes
  deriving DecidableEq, Repr

namespace SkipState

def advance (s : SkipState) (n : Nat) : SkipState :=
  { s with i := s.i + n, text := s.text.drop n }

def push (limits : Limits) (s : SkipState) (kind : Container) : Except Fault SkipState :=
  let tooDeep (depth : Nat) : Bool := limits.maxNestedDepth > 0 && depth > limits.maxNestedDepth
  let limitFault : Fault := .limit .maxNestedDepth limits.maxNestedDepth s.i (s.i + 1)
  match kind with
  | .inline =>
    if tooDeep (s.inlineDepth + 1) then .error limitFault
    else .ok { s with inlineDepth := s.inlineDepth + 1, frames := .inlineKey :: s.frames }
  | .array =>
    if tooDeep (s.arrayDepth + 1) then .error limitFault
    else .ok { s with arrayDepth := s.arrayDepth + 1, frames := .arrayValue :: s.frames }

def pop (s : SkipState) (kind : Container) : SkipState :=
  match kind with
  | .inline => { s with inlineDepth := s.inlineDepth - 1, frames := s.frames.tail }
  | .array => { s with arrayDepth := s.arrayDepth - 1, frames := s.frames.tail }

/-- The innermost container now waits for `st`. -/
def setState (s : SkipState) (st : SkippedContainerState) : SkipState :=
  { s with frames := st :: s.frames.tail }

end SkipState

/-! ## Between the parts -/

/-- Blanks, line ends and comments; `s` is the text from `i` on. -/
def skipSkippedStructuralSpace (i : Nat) (s : Bytes) : Except Fault (Nat × Bytes) :=
  match s with
  | [] => .ok (i, [])
  | c :: t =>
    if c = 0x20 ∨ c = 0x09 ∨ c = 0x0A then skipSkippedStructuralSpace (i + 1) t
    else if c = 0x0D then
      if t.head? = some 0x0A then skipSkippedStructuralSpace (i + 2) (t.drop 1)
      else .error (.raised "control character in value" i)
    else if c = 0x23 then
      match _h : scanCommentEnd (c :: t) with
      | .error f => .error (f.shift i)
      | .ok n => skipSkippedStructuralSpace (i + n) ((c :: t).drop n)
    else .ok (i, c :: t)
termination_by s.length
decreasing_by
  · simp
  · simp only [List.length_drop, List.length_cons]; omega
  · exact Bytes.length_drop_lt (scanCommentEnd_pos _h)

/-! ## The parts -/

/-- The value at the head of the text: a scalar is passed over, a container opened. -/
def scanSkippedValue (limits : Limits) (s : SkipState) : Except Fault SkipState :=
  let scanSkippedString : Except Fault SkipState :=
    match scanString s.text with
    | .error f => .error (f.shift s.i)
    | .ok n =>
      if (s.text.take n).length > limits.maxStringLength then
        .error (.limit .maxStringLength limits.maxStringLength s.i (s.i + n))
      else .ok (s.advance n)
  match s.text.head? with
  | some 0x5B => (s.push limits .array).map (·.advance 1)
  | some 0x7B => (s.push limits .inline).map (·.advance 1)
  | some 0x22 => scanSkippedString
  | some 0x27 => scanSkippedString
  | _ =>
    let n := scanBareValueEnd s.text
    if n = 0 then .error (.raised "invalid value" s.i)
    else
      match classifyBareValue (s.text.take n) with
      | .error msg => .error (.raised msg s.i)
      | .ok _ => .ok (s.advance n)

/-- The position of the `=` after a key; `s` is the text from `i` on. -/
def skippedInlineKeyEnd (i : Nat) (s : Bytes) : Except Fault Nat :=
  match s with
  | [] => .error (.raised "expected equals" i)
  | ch :: t =>
    if ch = 0x3D then .ok i
    else if ch = 0x22 ∨ ch = 0x27 then
      match _h : scanQuoted ch (ch :: t) with
      | .error f => .error (f.shift i)
      | .ok j => skippedInlineKeyEnd (i + j) ((ch :: t).drop j)
    else if ch = 0x2C ∨ ch = 0x7D ∨ ch = 0x0A ∨ ch = 0x0D ∨ ch = 0x23 then
      .error (.raised "expected equals" i)
    else skippedInlineKeyEnd (i + 1) t
termination_by s.length
decreasing_by
  · exact Bytes.length_drop_lt (scanQuoted_pos _h)
  · simp

/-- A key and its `=`. -/
def scanSkippedInlineKey (limits : Limits) (s : SkipState) : Except Fault SkipState :=
  match skippedInlineKeyEnd 0 s.text with
  | .error f => .error (f.shift s.i)
  | .ok j =>
    let key := bytesTrimRightSpaces (s.text.take j)
    if key = [] then .error (.raised "empty key" s.i)
    else
      match (if isSimpleBareKey key then .ok [key] else parseDottedKey key) with
      | .error e => .error (.recorded e)
      | .ok _ =>
        if key.length > limits.maxKeyLength then
          .error (.limit .maxKeyLength limits.maxKeyLength s.i (s.i + j))
        else .ok (s.advance (j + 1))

/-! ## The frame loop -/

/-- Go round with the state a scanner answers. -/
def ofScan : Except Fault SkipState → Turn SkipState (Except Fault Nat)
  | .error f => .done (.error f)
  | .ok s => .again s

/-- The byte `c` in front of a container that waits for `st`. -/
def skipStep (limits : Limits) (s : SkipState) (st : SkippedContainerState) (c : UInt8) :
    Turn SkipState (Except Fault Nat) :=
  match st with
  | .arrayValue =>
    if c = 0x5D then .again ((s.pop .array).advance 1)
    else ofScan (scanSkippedValue limits (s.setState .arraySeparator))
  | .arraySeparator =>
    if c = 0x2C then .again ((s.setState .arrayValue).advance 1)
    else if c = 0x5D then .again ((s.pop .array).advance 1)
    else .done (.error (.raised "expected array separator" s.i))
  | .inlineKey =>
    if c = 0x7D then .again ((s.pop .inline).advance 1)
    else ofScan ((scanSkippedInlineKey limits s).map (·.setState .inlineValue))
  | .inlineValue => ofScan (scanSkippedValue limits (s.setState .inlineSeparator))
  | .inlineSeparator =>
    if c = 0x2C then .again ((s.setState .inlineKey).advance 1)
    else if c = 0x7D then .again ((s.pop .inline).advance 1)
    else .done (.error (.raised "expected inline table separator" s.i))

/-- What lies before the next part; between `=` and a value only blanks. -/
def skipGap (st : SkippedContainerState) (i : Nat) (text : Bytes) : Except Fault (Nat × Bytes) :=
  if st = .inlineValue then
    .ok (i + Scan.skipWhitespace text, text.drop (Scan.skipWhitespace text))
  else skipSkippedStructuralSpace i text

/-- One turn of the loop over the frames. -/
def skipTurn (limits : Limits) (s : SkipState) : Turn SkipState (Except Fault Nat) :=
  match s.frames with
  | [] => .done (.ok s.i)
  | st :: _ =>
    match skipGap st s.i s.text with
    | .error f => .done (.error f)
    | .ok (i, []) => .done (.error (.raised "unterminated value" i))
    | .ok (i, c :: t) => skipStep limits { s with i := i, text := c :: t } st c

/-- **The length of the container value that starts `text`.** -/
def scanSkippedStructuralValue (limits : Limits) (arrayDepth inlineDepth : Nat) (text : Bytes) :
    Option (Except Fault Nat) :=
  let s : SkipState := { frames := [], arrayDepth, inlineDepth, i := 0, text }
  match scanSkippedContainer s with
  | .error f => some (.error f)
  | .ok s => Loop.loop (fun s => s.text.length) (skipTurn limits) s
where
  /-- Open the container the text starts with. -/
  scanSkippedContainer (s : SkipState) : Except Fault SkipState :=
    match s.text.head? with
    | some 0x5B => (s.push limits .array).map (·.advance 1)
    | some 0x7B => (s.push limits .inline).map (·.advance 1)
    | _ => .error (.raised "expected value" 0)

/-! ## The decoder -/

/-- The scan of a container at the offset of `d`, and what the decoder is left with. -/
def skipStructuralValue (d : Decoder) : Outcome Unit × Decoder :=
  match scanSkippedStructuralValue d.limits d.arrayDepth d.inlineDepth d.rest with
  | none => (.hang, d)
  | some (.error f) => d.fail d.off f
  | some (.ok n) => (.ok (), (d.advanceBytes (d.rest.take n)).valueDone)

/-- One turn of the loop of `skipRawValueToken`, `depth` containers deep. -/
def skipRawTurn (s : Nat × Decoder) : Turn (Nat × Decoder) (Outcome Unit × Decoder) :=
  if s.1 = 0 then .done (.ok (), s.2)
  else
    afterCall s.2.readToken fun tok d =>
      match tok.kind with
      | .arrayStart => .again (s.1 + 1, d)
      | .inlineTableStart => .again (s.1 + 1, d)
      | .arrayEnd => .again (s.1 - 1, d)
      | .inlineTableEnd => .again (s.1 - 1, d)
      | _ => .again (s.1, d)

def skipRawValueToken (tok : RawToken) (d : Decoder) : Outcome Unit × Decoder :=
  match tok.kind with
  | .arrayStart => runLoop (·.2) skipRawTurn (1, d)
  | .inlineTableStart => runLoop (·.2) skipRawTurn (1, d)
  | .valueString => (.ok (), d)
  | .valueInteger => (.ok (), d)
  | .valueFloat => (.ok (), d)
  | .valueBool => (.ok (), d)
  | .valueDatetime => (.ok (), d)
  | _ => (.error (syntaxErrorForRawToken d.buf tok "expected value"), d)

/-- One turn of `skipNextValue` for a value that is no container. -/
def skipNextTurn (d : Decoder) : Turn Decoder (Outcome Unit × Decoder) :=
  afterCall d.readToken fun tok d =>
    match tok.kind with
    | .comment => .again d
    | _ => .done (skipRawValueToken tok d)

/-- **Pass over the value after a key.** -/
def skipNextValue (d : Decoder) : Outcome Unit × Decoder :=
  let d := d.skipSpaces
  match d.err with
  | some e => (.error e, d)
  | none =>
    match d.rest.head? with
    | some 0x5B => skipStructuralValue d
    | some 0x7B => skipStructuralValue d
    | _ => runLoop id skipNextTurn d

end Pandaemonium.Toml
