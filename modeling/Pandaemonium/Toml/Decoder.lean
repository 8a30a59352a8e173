import Pandaemonium.Lib.Loop
import Pandaemonium.Toml.Lexer

/-!
# `Toml.Decoder` — the token reader (`decoder.go`)

`readToken` is one loop over the source text. Its state is the offset, five booleans that say what may
come next, and the stack of open arrays and inline tables. Commas and line ends are no tokens: they only
move the state, and the loop goes round. One turn of the loop is `readTokenIter`; the loop itself is
`Loop.loop`, whose `none` is the run that never returns (`Outcome.hang`).

Fields of the source that no modelled function reads are left out (`decoded`, `decodeStart`,
`localAsUTC`, `copyStrings`, `stringArena`).
-/

namespace Pandaemonium.Toml

open List

/-- An entry of the container stack. -/
inductive Container where
  | array | inline
  deriving DecidableEq, Repr

structure Decoder where
  buf : Bytes
  off : Nat
  line : Nat
  col : Nat
  /-- the sticky error -/
  err : Option Err
  expectingValue : Bool
  valueNoNewline : Bool
  needSeparator : Bool
  needLineEnd : Bool
  atLineStart : Bool
  limits : Limits
  arrayDepth : Nat
  inlineDepth : Nat
  /-- innermost container first -/
  containerStack : List Container
  tokenLine : Nat
  tokenCol : Nat
  tokenScalar : TokenScalar
  trackTokenPositions : Bool
  deriving DecidableEq, Repr

/-- How a call ends: with a value, with an error, or not at all. -/
inductive Outcome (α : Type) where
  | ok (a : α)
  | error (e : Err)
  | hang
  deriving DecidableEq, Repr

namespace Decoder

/-- The text not yet read, `d.buf[d.off:]`. -/
def rest (d : Decoder) : Bytes := d.buf.drop d.off

def innermostIsArray (d : Decoder) : Bool := d.containerStack.head? == some .array

/-! ## Positions and errors -/

/-- Bytes of a line that count as columns: all but CR. -/
def displayColumnDelta (raw : Bytes) : Nat := raw.countP (· ≠ 0x0D)

/-- What follows the last LF. -/
def lastLine (raw : Bytes) : Bytes := (raw.reverse.takeWhile (· ≠ 0x0A)).reverse

def lineColForOffset (data : Bytes) (off : Nat) : Nat × Nat :=
  let before := data.take off
  (1 + Scan.countLines before, 1 + displayColumnDelta (lastLine before))

def computeLineCol (d : Decoder) (off : Nat) : Nat × Nat :=
  if d.trackTokenPositions && off == d.off then (d.line, d.col) else lineColForOffset d.buf off

/-- `d.setErr(err)` and return it. -/
def recordErr {α : Type} (d : Decoder) (e : Err) : Outcome α × Decoder :=
  (.error e, { d with err := some e })

def syntaxError {α : Type} (d : Decoder) (msg : String) (off : Nat) : Outcome α × Decoder :=
  let lc := d.computeLineCol off
  d.recordErr (.syntaxErr { line := lc.1, col := lc.2, msg := msg, span := (off, off + 1) })

def limitError {α : Type} (d : Decoder) (limit : LimitName) (value start stop : Nat) :
    Outcome α × Decoder :=
  d.recordErr (.limitErr { limit := limit, value := value, span := (start, stop) })

/-- A scanner of the text at `base` failed. -/
def fail {α : Type} (d : Decoder) (base : Nat) : Fault → Outcome α × Decoder
  | .raised msg off => d.syntaxError msg (base + off)
  | .recorded e => d.recordErr e
  | .limit name value start stop => d.limitError name value (base + start) (base + stop)
  | .returned e => (.error e, d)

def makeToken (d : Decoder) (kind : TokenKind) (raw : Bytes) (offset : Nat) (scalar : TokenScalar) :
    RawToken × Decoder :=
  let lc := d.computeLineCol offset
  ({ kind := kind, bytes := raw, offset := offset },
    { d with
      tokenScalar := scalar
      tokenLine := if d.trackTokenPositions then lc.1 else d.tokenLine
      tokenCol := if d.trackTokenPositions then lc.2 else d.tokenCol })

/-- The line and column after `raw`. -/
def advancePosition (line col : Nat) (raw : Bytes) : Nat × Nat :=
  if raw.contains 0x0A then (line + Scan.countLines raw, 1 + displayColumnDelta (lastLine raw))
  else (line, col + displayColumnDelta raw)

/-- An empty `raw` changes nothing; any other leaves the start of the line. -/
def advanceBytes (d : Decoder) (raw : Bytes) : Decoder :=
  let pos := if d.trackTokenPositions then advancePosition d.line d.col raw else (d.line, d.col)
  { d with
    off := d.off + raw.length, line := pos.1, col := pos.2
    atLineStart := d.atLineStart && raw.isEmpty }

def advanceOne (d : Decoder) : Decoder := d.advanceBytes (d.rest.take 1)

theorem rest_advanceBytes (d : Decoder) (raw : Bytes) :
    (d.advanceBytes raw).rest = d.rest.drop raw.length := (drop_drop ..).symm

/-! ## Blanks and line ends -/

/-- Pass over one line end. -/
def takeLineEnd (d : Decoder) (raw : Bytes) : Decoder :=
  { d.advanceBytes raw with atLineStart := true, needLineEnd := false }

/-- Pass over blanks; a blank run at the start of a line stays at the start of the line. -/
def takeBlanks (d : Decoder) (raw : Bytes) : Decoder :=
  if d.atLineStart then { d.advanceBytes raw with atLineStart := true } else d.advanceBytes raw

theorem rest_takeLineEnd (d : Decoder) (raw : Bytes) :
    (d.takeLineEnd raw).rest = d.rest.drop raw.length := rest_advanceBytes d raw

theorem rest_takeBlanks (d : Decoder) (raw : Bytes) : (d.takeBlanks raw).rest = d.rest.drop raw.length := by
  unfold takeBlanks
  split
  all_goals exact rest_advanceBytes d raw

def skipSpaces (d : Decoder) : Decoder :=
  let n := Scan.skipWhitespace d.rest
  if _hn : 0 < n then skipSpaces (d.takeBlanks (d.rest.take n))
  else
    match _h : d.rest with
    | 0x0D :: 0x0A :: _ => if d.valueNoNewline then d else skipSpaces (d.takeLineEnd [0x0D, 0x0A])
    | 0x0A :: _ => if d.valueNoNewline then d else skipSpaces (d.takeLineEnd [0x0A])
    | _ => d
termination_by d.rest.length
decreasing_by
  · have hle : Scan.skipWhitespace d.rest ≤ d.rest.length := findIdx_le_length
    rw [rest_takeBlanks, length_drop, length_take]; omega
  · rw [rest_takeLineEnd, _h]; simp only [drop_succ_cons, length_cons, length_nil, drop_zero]; omega
  · rw [rest_takeLineEnd, _h]; simp

/-! ## Tokens -/

def scanComment (d : Decoder) : Outcome RawToken × Decoder :=
  match scanCommentEnd d.rest with
  | .error f => d.fail d.off f
  | .ok n =>
    let t := d.makeToken .comment (d.rest.take n) d.off .none
    (.ok t.1, t.2.advanceBytes (d.rest.take n))

def scanKeyToken (d : Decoder) : Outcome RawToken × Decoder :=
  match scanKeyEnd 0 d.rest with
  | .error f => d.fail d.off f
  | .ok i =>
    if i = 0 then d.syntaxError "empty key" (d.off + i)
    else
      let key := bytesTrimRightSpaces (d.rest.take i)
      match (if isSimpleBareKey key then .ok [key] else parseDottedKey key) with
      | .error e => d.recordErr e
      | .ok _ =>
        if key.length > d.limits.maxKeyLength then
          d.limitError .maxKeyLength d.limits.maxKeyLength d.off (d.off + i)
        else
          let eq := i + Scan.skipWhitespace (d.rest.drop i)
          if d.rest[eq]? = some 0x3D then
            let t := d.makeToken .key key d.off .none
            (.ok t.1,
              { t.2.advanceBytes (d.rest.take (eq + 1)) with
                expectingValue := true, valueNoNewline := true, needLineEnd := false })
          else d.syntaxError "expected equals" (d.off + eq)

/-- The flags after a complete value inside whatever container is still open. -/
def valueDone (d : Decoder) : Decoder :=
  { d with
    expectingValue := d.innermostIsArray
    valueNoNewline := false
    needSeparator := !d.containerStack.isEmpty
    needLineEnd := d.containerStack.isEmpty }

def enforceNestedDepth (d : Decoder) (off depth : Nat) : Decoder :=
  { d with
    err :=
      if d.limits.maxNestedDepth > 0 && depth > d.limits.maxNestedDepth then
        some (.limitErr { limit := .maxNestedDepth, value := d.limits.maxNestedDepth
                          span := (off, off + 1) })
      else d.err }

def scanArrayStart (d : Decoder) : Outcome RawToken × Decoder :=
  let t := d.makeToken .arrayStart (d.rest.take 1) d.off .none
  let d' := t.2.advanceOne
  let d' := { d' with arrayDepth := d'.arrayDepth + 1 }
  let d' := d'.enforceNestedDepth d.off d'.arrayDepth
  (.ok t.1,
    { d' with
      containerStack := .array :: d'.containerStack
      expectingValue := true, valueNoNewline := false, needSeparator := false })

/-- Pop the innermost container if it is a `c`; anything else stays. -/
def popContainer (stack : List Container) (c : Container) : List Container :=
  if stack.head? = some c then stack.tail else stack

def scanArrayEnd (d : Decoder) : Outcome RawToken × Decoder :=
  let t := d.makeToken .arrayEnd (d.rest.take 1) d.off .none
  let d' := t.2.advanceOne
  (.ok t.1,
    { d' with
      arrayDepth := d'.arrayDepth - 1
      containerStack := popContainer d'.containerStack .array }.valueDone)

def scanInlineTableStart (d : Decoder) : Outcome RawToken × Decoder :=
  let t := d.makeToken .inlineTableStart (d.rest.take 1) d.off .none
  let d' := t.2.advanceOne
  (.ok t.1,
    { d' with
      inlineDepth := d'.inlineDepth + 1
      containerStack := .inline :: d'.containerStack
      expectingValue := false, valueNoNewline := false, needSeparator := false })

def scanInlineTableEnd (d : Decoder) : Outcome RawToken × Decoder :=
  let t := d.makeToken .inlineTableEnd (d.rest.take 1) d.off .none
  let d' := t.2.advanceOne
  (.ok t.1,
    { d' with
      inlineDepth := d'.inlineDepth - 1
      containerStack := popContainer d'.containerStack .inline }.valueDone)

/-- A scalar token of `n` bytes. -/
def scalarToken (d : Decoder) (kind : TokenKind) (n : Nat) (scalar : TokenScalar) :
    Outcome RawToken × Decoder :=
  let t := d.makeToken kind (d.rest.take n) d.off scalar
  (.ok t.1, (t.2.advanceBytes (d.rest.take n)).valueDone)

def scanStringToken (d : Decoder) : Outcome RawToken × Decoder :=
  match scanString d.rest with
  | .error f => d.fail d.off f
  | .ok n =>
    if (d.rest.take n).length > d.limits.maxStringLength then
      d.limitError .maxStringLength d.limits.maxStringLength d.off (d.off + n)
    else d.scalarToken .valueString n .none

def scanBareToken (d : Decoder) : Outcome RawToken × Decoder :=
  let n := scanBareValueEnd d.rest
  if n = 0 then d.syntaxError "invalid value" d.off
  else
    match classifyBareValue (d.rest.take n) with
    | .error msg => d.syntaxError msg d.off
    | .ok (kind, scalar) => d.scalarToken kind n scalar

def scanValueToken (d : Decoder) : Outcome RawToken × Decoder :=
  match d.rest.head? with
  | some 0x22 => d.scanStringToken
  | some 0x27 => d.scanStringToken
  | some 0x5B => d.scanArrayStart
  | some 0x7B => d.scanInlineTableStart
  | some 0x5D => d.scanArrayEnd
  | some 0x7D => d.scanInlineTableEnd
  | some 0x23 => d.scanComment
  | _ => d.scanBareToken

/-- A header with `width` brackets on each side. -/
def scanHeader (d : Decoder) (array : Bool) (width : Nat) (kind : TokenKind) :
    Outcome RawToken × Decoder :=
  match scanHeaderEnd array width (d.rest.drop width) with
  | .error f => d.fail d.off f
  | .ok i =>
    match validateHeaderKey i width true (d.rest.drop width) with
    | .error f => d.fail d.off f
    | .ok () =>
      let head := d.rest.take (i + width)
      let t := d.makeToken kind head d.off .none
      let d' := t.2.advanceBytes head
      if i + width - 2 * width > d.limits.maxKeyLength then
        d'.limitError .maxKeyLength d.limits.maxKeyLength (d.off + width) (d.off + i)
      else
        (.ok t.1,
          { d' with expectingValue := false, atLineStart := false, needLineEnd := true })

def scanTableHeader (d : Decoder) : Outcome RawToken × Decoder := d.scanHeader false 1 .tableHeader

def scanArrayTableHeader (d : Decoder) : Outcome RawToken × Decoder :=
  d.scanHeader true 2 .arrayTableHeader

/-! ## The loop -/

/-- At the end of the text. -/
def atEnd (d : Decoder) : Outcome RawToken × Decoder :=
  if d.expectingValue then d.syntaxError "expected value" d.off else (.error .eof, d)

/-- The byte `ch` where neither a line end nor a header is due. -/
def dispatch (d : Decoder) (ch : UInt8) : Turn Decoder (Outcome RawToken × Decoder) :=
  match ch with
  | 0x5B => -- '['
      if d.innermostIsArray && !d.expectingValue then .done (d.syntaxError "expected comma" d.off)
      else .done d.scanArrayStart
  | 0x7B => -- '{'
      if d.innermostIsArray && !d.expectingValue then .done (d.syntaxError "expected comma" d.off)
      else .done d.scanInlineTableStart
  | 0x5D => .done d.scanArrayEnd
  | 0x7D => .done d.scanInlineTableEnd
  | 0x23 => .done d.scanComment
  | 0x3D => .done (d.syntaxError "unexpected equals" d.off)
  | 0x2C => -- ','
      if !d.needSeparator then .done (d.syntaxError "unexpected comma" d.off)
      else .again { d.advanceOne with needSeparator := false, expectingValue := d.innermostIsArray }
  | _ =>
    if d.expectingValue then
      if d.needSeparator && d.innermostIsArray then
        .done (d.syntaxError "expected array separator" d.off)
      else .done d.scanValueToken
    else if d.needSeparator && !d.containerStack.isEmpty then
      .done (d.syntaxError "expected inline table separator" d.off)
    else .done d.scanKeyToken

/-- **One turn of the loop of `readToken`.** -/
def readTokenIter (d : Decoder) : Turn Decoder (Outcome RawToken × Decoder) :=
  if d.rest.isEmpty then .done d.atEnd
  else
    let d := d.skipSpaces
    match d.rest with
    | [] => .done d.atEnd
    | ch :: t =>
      if d.needLineEnd then
        if ch = 0x23 then .done d.scanComment
        else if ch = 0x0A ∨ ch = 0x0D then .again d
        else .done (d.syntaxError "expected newline" d.off)
      else if d.atLineStart && !d.expectingValue && ch == 0x5B then
        if t.head? = some 0x5B then .done d.scanArrayTableHeader else .done d.scanTableHeader
      else d.dispatch ch

def readToken (d : Decoder) : Outcome RawToken × Decoder :=
  match d.err with
  | some e => (.error e, d)
  | none =>
    match Loop.loop (fun d => d.rest.length) readTokenIter d with
    | some r => r
    | none => (.hang, d)

/-- `ReadToken`: the token with its scalar, and its line and column where they are tracked. -/
def readPublicToken (d : Decoder) : Outcome Token × Decoder :=
  match d.readToken with
  | (.ok tok, d') =>
    let pub := tok.publicToken
    (.ok { pub with
      scalar := d'.tokenScalar
      line := if d'.trackTokenPositions then d'.tokenLine else pub.line
      col := if d'.trackTokenPositions then d'.tokenCol else pub.col }, d')
  | (.error e, d') => (.error e, d')
  | (.hang, d') => (.hang, d')

/-! ## Construction -/

inductive DecoderOption where
  | withLimits (l : Limits)
  | withLocalAsUTC
  | withCopiedStrings
  | withoutTokenPositions
  deriving DecidableEq, Repr

/-- `WithLimits` overrides the positive fields. -/
def mergeLimits (l base : Limits) : Limits where
  maxNestedDepth := if l.maxNestedDepth > 0 then l.maxNestedDepth else base.maxNestedDepth
  maxKeyLength := if l.maxKeyLength > 0 then l.maxKeyLength else base.maxKeyLength
  maxStringLength := if l.maxStringLength > 0 then l.maxStringLength else base.maxStringLength
  maxDocumentSize := if l.maxDocumentSize > 0 then l.maxDocumentSize else base.maxDocumentSize

def applyOption (d : Decoder) : DecoderOption → Decoder
  | .withLimits l => { d with limits := mergeLimits l d.limits }
  | .withLocalAsUTC => d
  | .withCopiedStrings => d
  | .withoutTokenPositions => { d with trackTokenPositions := false }

/-- The UTF-8 byte order mark. -/
def bom : Bytes := [0xEF, 0xBB, 0xBF]

def skipBOM (d : Decoder) : Decoder :=
  if d.rest.take 3 = bom then d.advanceBytes (d.rest.take 3) else d

/-- A decoder at the start of `data`, before the options and the checks. -/
def start (data : Bytes) : Decoder where
  buf := data
  off := 0
  line := 1
  col := 1
  err := none
  expectingValue := false
  valueNoNewline := false
  needSeparator := false
  needLineEnd := false
  atLineStart := true
  limits := defaultLimits
  arrayDepth := 0
  inlineDepth := 0
  containerStack := []
  tokenLine := 0
  tokenCol := 0
  tokenScalar := .none
  trackTokenPositions := true

def newDecoderBytes (data : Bytes) (opts : List DecoderOption) : Decoder :=
  let d := opts.foldl applyOption (start data)
  if d.limits.maxDocumentSize > 0 && data.length > d.limits.maxDocumentSize then
    { d with err := some (.limitErr { limit := .maxDocumentSize, value := d.limits.maxDocumentSize
                                      span := (0, d.limits.maxDocumentSize) }) }
  else
    let bad := Scan.validateUTF8 data
    if bad ≠ data.length then
      { d with err := some (.syntaxErr { line := 1, col := bad + 1, msg := "invalid utf-8"
                                         span := (bad, bad + 1) }) }
    else d.skipBOM

end Decoder

end Pandaemonium.Toml
