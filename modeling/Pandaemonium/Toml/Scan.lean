import Pandaemonium.Lib.Utf8

/-!
# `Toml.Scan` — the scan kernels (`internal/scan`)

The byte-class scanners the decoder is built on, as `internal/scan/api.go` states them and the scalar
forms of `strict.go` compute them: each answers how many leading bytes precede the first byte of its
stop class, the length of the text when there is none.
-/

namespace Pandaemonium.Toml.Scan

/-- The bare-key class `[A-Za-z0-9_-]`. -/
def bareKeyClass (b : UInt8) : Bool :=
  (0x41 ≤ b && b ≤ 0x5A) || (0x61 ≤ b && b ≤ 0x7A) || (0x30 ≤ b && b ≤ 0x39) || b == 0x5F || b == 0x2D

def scanBareKey (s : Bytes) : Nat := s.findIdx (fun b => !bareKeyClass b)

/-- First `"` or `\`. -/
def scanBasicString (s : Bytes) : Nat := s.findIdx (fun b => b == 0x22 || b == 0x5C)

/-- A byte a single-line basic string cannot copy verbatim. -/
def basicStringStrictStop (b : UInt8) : Bool :=
  b == 0x22 || b == 0x5C || b == 0x7F || (b < 0x20 && b != 0x09)

def scanBasicStringStrict (s : Bytes) : Nat := s.findIdx basicStringStrictStop

def commentBodyStop (b : UInt8) : Bool := b == 0x7F || (b < 0x20 && b != 0x09)

def scanCommentBody (s : Bytes) : Nat := s.findIdx commentBodyStop

/-- Space, tab, CR, LF, `,`, `]`, `}`, `#`, `=`. -/
def bareValueDelimiter (b : UInt8) : Bool :=
  b == 0x20 || b == 0x09 || b == 0x0D || b == 0x0A || b == 0x2C || b == 0x5D || b == 0x7D ||
    b == 0x23 || b == 0x3D

def scanBareValueEnd (s : Bytes) : Nat := s.findIdx bareValueDelimiter

def countLines (s : Bytes) : Nat := s.count 0x0A

/-- First `'`. -/
def scanLiteralString (s : Bytes) : Nat := s.findIdx (fun b => b == 0x27)

/-- Space or tab. -/
def isSpaceTab (b : UInt8) : Bool := b == 0x20 || b == 0x09

def skipWhitespace (s : Bytes) : Nat := s.findIdx (fun b => !isSpaceTab b)

/-- Index of the first malformed UTF-8 sequence, counted from `i`. -/
def validateUTF8From (i : Nat) (s : Bytes) : Nat :=
  match s with
  | [] => i
  | b :: t =>
    if b < 0x80 then validateUTF8From (i + 1) t
    else if Utf8.isBad (Utf8.decodeRune (b :: t)) then i
    else validateUTF8From (i + (Utf8.decodeRune (b :: t)).2) ((b :: t).drop (Utf8.decodeRune (b :: t)).2)
termination_by s.length
decreasing_by
  · simp
  · exact Bytes.length_drop_lt Utf8.decodeRune_width_pos

def validateUTF8 (s : Bytes) : Nat := validateUTF8From 0 s

end Pandaemonium.Toml.Scan
