import Pandaemonium.Toml.Scan
import Pandaemonium.Toml.Token

/-!
# `Toml.Strings` — string values (`value.go`)

A string token is delimited by one or three quotes; `stringValueBody` takes the delimiters off and
`scanBasicStringBody` walks a basic body, checking control characters and decoding escapes. The source
runs that walk with and without an output buffer; here it always answers the decoded bytes and
`validateStringValue` drops them. A walk over `raw[i:]` carries `i` and `len(raw)` for its error spans.
-/

namespace Pandaemonium.Toml

open List

/-! ## Delimiters -/

inductive StringValueKind where
  | literal | multilineLiteral | basic | multilineBasic
  deriving DecidableEq, Repr

/-- `raw` opens and closes with three `q` bytes. -/
def hasTripleDelimiter (raw : Bytes) (q : UInt8) : Bool :=
  6 ≤ raw.length && raw.take 3 == [q, q, q] && raw.drop (raw.length - 3) == [q, q, q]

/-- `raw` opens and closes with a single `q` byte. -/
def hasPairDelimiter (raw : Bytes) (q : UInt8) : Bool :=
  2 ≤ raw.length && raw.head? == some q && raw.getLast? == some q

def malformedStringError (raw : Bytes) : Err :=
  .syntaxErr { line := 1, col := 1, msg := "malformed string", span := (0, raw.length) }

def trimInitialMultilineStringNewline (raw : Bytes) : Bytes :=
  match raw with
  | 0x0D :: 0x0A :: t => t
  | 0x0A :: t => t
  | _ => raw

def stringValueBody (raw : Bytes) : Except Err (Bytes × StringValueKind) :=
  if hasTripleDelimiter raw 0x27 then
    .ok (trimInitialMultilineStringNewline ((raw.drop 3).take (raw.length - 6)), .multilineLiteral)
  else if hasTripleDelimiter raw 0x22 then
    .ok (trimInitialMultilineStringNewline ((raw.drop 3).take (raw.length - 6)), .multilineBasic)
  else if hasPairDelimiter raw 0x27 then .ok ((raw.drop 1).take (raw.length - 2), .literal)
  else if hasPairDelimiter raw 0x22 then .ok ((raw.drop 1).take (raw.length - 2), .basic)
  else .error (malformedStringError raw)

/-! ## Control characters -/

def prohibitedStringControl (c : UInt8) (multiline : Bool) : Bool :=
  if c = 0x09 then false
  else if multiline && c == 0x0A then false
  else c < 0x20 || c == 0x7F

/-- `%02x` -/
def hexByte (c : UInt8) : String :=
  String.ofList [Nat.digitChar (c.toNat / 16), Nat.digitChar (c.toNat % 16)]

def stringControlError (c : UInt8) (idx : Nat) : Err :=
  .syntaxErr
    { line := 1, col := idx + 1
      msg := "unescaped control character 0x" ++ hexByte c ++ " in string"
      span := (idx, idx + 1) }

/-- The first prohibited byte of `raw[i:]` and its index; in a multiline body CRLF passes. -/
def prohibitedStringControlIndex (multiline : Bool) (i : Nat) : Bytes → Option (UInt8 × Nat)
  | [] => none
  | [c] => if prohibitedStringControl c multiline then some (c, i) else none
  | c :: d :: t =>
    if multiline && c == 0x0D && d == 0x0A then
      prohibitedStringControlIndex multiline (i + 2) t
    else if prohibitedStringControl c multiline then some (c, i)
    else prohibitedStringControlIndex multiline (i + 1) (d :: t)

def validateStringControls (raw : Bytes) (multiline : Bool) : Except Err Unit :=
  match prohibitedStringControlIndex multiline 0 raw with
  | some (c, idx) => .error (stringControlError c idx)
  | none => .ok ()

def validateLiteralStringBody (raw : Bytes) (multiline : Bool) : Except Err Unit :=
  validateStringControls raw multiline

/-! ## Escapes -/

def hexDigitValue (c : UInt8) : Option Nat :=
  if 0x30 ≤ c && c ≤ 0x39 then some (c.toNat - 0x30)
  else if 0x41 ≤ c && c ≤ 0x46 then some (c.toNat - 0x41 + 10)
  else if 0x61 ≤ c && c ≤ 0x66 then some (c.toNat - 0x61 + 10)
  else none

/-- The value of a run of hex digits, `none` at the first byte that is not one. -/
def hexValue (v : Nat) : Bytes → Option Nat
  | [] => some v
  | c :: t =>
    match hexDigitValue c with
    | none => none
    | some n => hexValue (v * 16 + n) t

def maxParseInt32 : Nat := 2 ^ 31 - 1

/-- `s` is `raw[start:]` of a body of `len` bytes. -/
def parseUnicodeEscape (len start : Nat) (s : Bytes) (digits : Nat) : Except Err Nat :=
  if s.length < digits then
    .error (.syntaxErr
      { line := 1, col := start + 1, msg := "short unicode escape", span := (start - 2, len) })
  else
    match hexValue 0 (s.take digits) with
    | none =>
      .error (.syntaxErr
        { line := 1, col := start + 1, msg := "invalid unicode escape"
          span := (start - 2, start + digits) })
    | some v =>
      if v > maxParseInt32 then .error (.numRange (s.take digits))
      else if !Utf8.validRune v then
        .error (.syntaxErr
          { line := 1, col := start + 1, msg := "invalid unicode scalar"
            span := (start - 2, start + digits) })
      else .ok v

/-- The byte a one-letter escape stands for: `\b \t \n \f \r \e \" \\`. -/
def simpleEscape (next : UInt8) : Option UInt8 :=
  if next = 0x62 then some 0x08
  else if next = 0x74 then some 0x09
  else if next = 0x6E then some 0x0A
  else if next = 0x66 then some 0x0C
  else if next = 0x72 then some 0x0D
  else if next = 0x65 then some 0x1B
  else if next = 0x22 then some 0x22
  else if next = 0x5C then some 0x5C
  else none

/-- The number of hex digits after `\x`, `\u` and `\U`. -/
def unicodeEscapeDigits (next : UInt8) : Option Nat :=
  if next = 0x78 then some 2
  else if next = 0x75 then some 4
  else if next = 0x55 then some 8
  else none

/-- The escape sequence at the head of `s = raw[i:]` (its first byte is the backslash): the bytes it
    stands for and how many it takes. -/
def scanEscape (len i : Nat) (s : Bytes) : Except Err (Bytes × Nat) :=
  match s.drop 1 with
  | [] =>
    .error (.syntaxErr
      { line := 1, col := i + 1, msg := "unterminated string escape", span := (i, len) })
  | next :: rest =>
    match simpleEscape next with
    | some c => .ok ([c], 2)
    | none =>
      match unicodeEscapeDigits next with
      | some digits =>
        (parseUnicodeEscape len (i + 2) rest digits).map
          (fun r => (Utf8.encodeRune r, 2 + digits))
      | none =>
        .error (.syntaxErr
          { line := 1, col := i + 1, msg := "invalid string escape"
            span := (i, min (i + 2) len) })

/-- Bytes of blank lines: spaces, tabs, LF and CRLF. -/
def blankLinesLength : Bytes → Nat
  | 0x0D :: 0x0A :: t => blankLinesLength t + 2
  | c :: t => if c = 0x20 ∨ c = 0x09 ∨ c = 0x0A then blankLinesLength t + 1 else 0
  | [] => 0

/-- The whitespace a line-ending backslash elides, when `s` (the text after the backslash) has a line
    end after nothing but blanks. -/
def skipEscapedMultilineStringWhitespace (s : Bytes) : Option Nat :=
  let j := Scan.skipWhitespace s
  match s.drop j with
  | 0x0A :: t => some (j + 1 + blankLinesLength t)
  | 0x0D :: 0x0A :: t => some (j + 2 + blankLinesLength t)
  | _ => none

/-- Every escape takes at least two bytes. -/
theorem scanEscape_two_le {len i : Nat} {s : Bytes} {out : Bytes} {n : Nat}
    (h : scanEscape len i s = .ok (out, n)) : 2 ≤ n := by
  unfold scanEscape at h
  split at h
  · cases h
  rename_i next rest _
  split at h
  · cases h; omega
  split at h
  · rename_i digits _
    cases hp : parseUnicodeEscape len (i + 2) rest digits with
    | error e => rw [hp] at h; cases h
    | ok r => rw [hp] at h; cases h; omega
  · cases h

/-! ## Bodies -/

/-- **The body of a basic string.** `s` is `raw[i:]`, `len` is `len(raw)`. -/
def scanBasicStringBody (multiline : Bool) (len i : Nat) (s : Bytes) : Except Err Bytes :=
  if multiline then
    match s with
    | [] => .ok []
    | c :: t =>
      if c ≠ 0x5C then
        if c = 0x0D ∧ t.head? = some 0x0A then
          (scanBasicStringBody true len (i + 2) (t.drop 1)).map ([0x0D, 0x0A] ++ ·)
        else if prohibitedStringControl c true then .error (stringControlError c i)
        else (scanBasicStringBody true len (i + 1) t).map (c :: ·)
      else
        match skipEscapedMultilineStringWhitespace t with
        | some n => scanBasicStringBody true len (i + 1 + n) (t.drop n)
        | none =>
          match _h : scanEscape len i (c :: t) with
          | .error e => .error e
          | .ok (out, n) =>
            (scanBasicStringBody true len (i + n) ((c :: t).drop n)).map (out ++ ·)
  else
    -- a verbatim run first, then the byte that stopped it
    let n := Scan.scanBasicStringStrict s
    match _hs : s.drop n with
    | [] => .ok (s.take n)
    | c :: t =>
      if c ≠ 0x5C then
        if prohibitedStringControl c false then .error (stringControlError c (i + n))
        else (scanBasicStringBody false len (i + n + 1) t).map (s.take n ++ c :: ·)
      else
        match _h : scanEscape len (i + n) (c :: t) with
        | .error e => .error e
        | .ok (out, k) =>
          (scanBasicStringBody false len (i + n + k) ((c :: t).drop k)).map
            (s.take n ++ out ++ ·)
termination_by s.length
decreasing_by
  all_goals try (simp only [length_drop, length_cons]; omega)
  · have := scanEscape_two_le _h
    simp only [length_drop, length_cons]; omega
  all_goals have hl := Bytes.length_of_drop _hs
  · omega
  · have := scanEscape_two_le _h
    rw [length_drop, length_cons]; omega

def validateBasicStringBody (raw : Bytes) (multiline : Bool) : Except Err Unit :=
  (scanBasicStringBody multiline raw.length 0 raw).map (fun _ => ())

def parseBasicStringBody (raw : Bytes) (multiline : Bool) : Except Err Bytes :=
  if !multiline && Scan.scanBasicStringStrict raw == raw.length then .ok raw
  else if multiline && !raw.contains 0x5C then
    match validateStringControls raw true with
    | .error e => .error e
    | .ok () => .ok raw
  else scanBasicStringBody multiline raw.length 0 raw

def parseStringValue (raw : Bytes) : Except Err Bytes :=
  match stringValueBody raw with
  | .error e => .error e
  | .ok (body, .literal) => (validateLiteralStringBody body false).map (fun _ => body)
  | .ok (body, .multilineLiteral) => (validateLiteralStringBody body true).map (fun _ => body)
  | .ok (body, .basic) => parseBasicStringBody body false
  | .ok (body, .multilineBasic) => parseBasicStringBody body true

def validateStringValue (raw : Bytes) : Except Err Unit :=
  match stringValueBody raw with
  | .error e => .error e
  | .ok (body, .literal) => validateLiteralStringBody body false
  | .ok (body, .multilineLiteral) => validateLiteralStringBody body true
  | .ok (body, .basic) => validateBasicStringBody body false
  | .ok (body, .multilineBasic) => validateBasicStringBody body true

end Pandaemonium.Toml
