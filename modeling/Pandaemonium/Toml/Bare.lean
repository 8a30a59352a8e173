import Pandaemonium.Lib.Float64
import Pandaemonium.Toml.DateTime
import Pandaemonium.Toml.Scan

/-!
# `Toml.Bare` — bare scalars: booleans, numbers, datetimes (`decoder.go`, `value.go`)

A value that starts with no quote and no bracket runs to the next delimiter (`scanBareValueEnd`, which
lets a date take one space and a time with it) and is then classified by its text
(`classifyBareValue`).
-/

namespace Pandaemonium.Toml

open Decimal (isDigit)

/-! ## Integers -/

def lowerASCII (b : UInt8) : UInt8 := if 0x41 ≤ b && b ≤ 0x5A then b + 0x20 else b

def trimSignBytes (raw : Bytes) : Bytes :=
  match raw with
  | c :: t => if c = 0x2B ∨ c = 0x2D then t else raw
  | [] => raw

def validPrefixedDigit (c base : UInt8) : Bool :=
  if base = 0x62 then c == 0x30 || c == 0x31
  else if base = 0x6F then 0x30 ≤ c && c ≤ 0x37
  else if base = 0x78 then
    (0x30 ≤ c && c ≤ 0x39) || (0x61 ≤ c && c ≤ 0x66) || (0x41 ≤ c && c ≤ 0x46)
  else false

/-- Underscores sit between two bytes that satisfy `ok`, never two in a row. `prev` is the byte before
    the text, `prevUnderscore` whether it was an underscore. -/
def underscoresBetween (ok : UInt8 → Bool) (prev : Option UInt8) (prevUnderscore : Bool) :
    Bytes → Bool
  | [] => true
  | c :: t =>
    if c ≠ 0x5F then underscoresBetween ok (some c) false t
    else if prevUnderscore || !prev.any ok || !t.head?.any ok then false
    else underscoresBetween ok (some c) true t

def endsInUnderscore (raw : Bytes) : Bool := raw.head? == some 0x5F || raw.getLast? == some 0x5F

def prefixedDigitsValidBytes (raw : Bytes) (base : UInt8) : Bool :=
  !raw.isEmpty && !endsInUnderscore raw &&
    raw.all (fun c => c == 0x5F || validPrefixedDigit c base) &&
    underscoresBetween (validPrefixedDigit · base) none false raw

def hasValidNumberUnderscoresBytes (raw : Bytes) : Bool :=
  !raw.isEmpty && !endsInUnderscore raw && underscoresBetween isDigit none false raw

def isIntCandidateBytes (raw : Bytes) : Bool :=
  let n := trimSignBytes raw
  let decimal :=
    !(match n with
      | 0x30 :: d :: _ => isDigit d
      | _ => false) &&
      n.all (fun b => isDigit b || b == 0x5F) && hasValidNumberUnderscoresBytes n
  match n with
  | [] => false
  | 0x30 :: 0x5F :: _ => false
  | 0x30 :: c :: d :: t =>
    if lowerASCII c = 0x62 ∨ lowerASCII c = 0x6F ∨ lowerASCII c = 0x78 then
      if raw.head? = some 0x2B ∨ raw.head? = some 0x2D then false
      else prefixedDigitsValidBytes (d :: t) (lowerASCII c)
    else decimal
  | _ => decimal

def hasCapitalNumericPrefixBytes (raw : Bytes) : Bool :=
  match trimSignBytes raw with
  | 0x30 :: c :: _ => c == 0x42 || c == 0x4F || c == 0x58
  | _ => false

def numericDigitValue (c : UInt8) : Option Nat :=
  if 0x30 ≤ c && c ≤ 0x39 then some (c.toNat - 0x30)
  else if 0x61 ≤ c && c ≤ 0x66 then some (c.toNat - 0x61 + 10)
  else if 0x41 ≤ c && c ≤ 0x46 then some (c.toNat - 0x41 + 10)
  else none

/-- The digits after those already read into `u`; the test before each step keeps `u` at most
    `limit`. -/
def parseUintLiteralDigitsFrom (base limit : Nat) (sawDigit : Bool) (u : Nat) :
    Bytes → Except NumErr Nat
  | [] => if sawDigit then .ok u else .error .errSyntax
  | c :: t =>
    if c = 0x5F then parseUintLiteralDigitsFrom base limit sawDigit u t
    else
      match numericDigitValue c with
      | none => .error .errSyntax
      | some d =>
        if base ≤ d then .error .errSyntax
        else if u > (limit - d) / base then .error .errRange
        else parseUintLiteralDigitsFrom base limit true (u * base + d) t

def parseUintLiteralDigits (raw : Bytes) (base limit : Nat) : Except NumErr Nat :=
  parseUintLiteralDigitsFrom base limit false 0 raw

/-- The base of a magnitude and its digits without the `0b`, `0o`, `0x`. -/
def splitBase (text : Bytes) : Nat × Bytes :=
  match text with
  | 0x30 :: c :: d :: t =>
    if c = 0x62 ∨ c = 0x42 then (2, d :: t)
    else if c = 0x6F ∨ c = 0x4F then (8, d :: t)
    else if c = 0x78 ∨ c = 0x58 then (16, d :: t)
    else (10, text)
  | _ => (10, text)

def parseIntegerLiteral (raw : Bytes) : Except NumErr Int :=
  let neg := raw.head? = some 0x2D
  let (base, digits) := splitBase (trimSignBytes raw)
  match parseUintLiteralDigits digits base (if neg then 2 ^ 63 else 2 ^ 63 - 1) with
  | .error e => .error e
  | .ok u => .ok (if neg then -(u : Int) else u)

/-! ## Floats -/

/-- The scan of `isFloatCandidateBytes` after `prev`. -/
def floatBytesValid (prev : Option UInt8) (hasExp hasDecimalPoint : Bool) : Bytes → Bool
  | [] => hasDecimalPoint || hasExp
  | c :: t =>
    if c = 0x2E then
      if prev.isNone || hasDecimalPoint || !t.head?.any isDigit then false
      else floatBytesValid (some c) hasExp true t
    else if c = 0x65 ∨ c = 0x45 then
      if hasExp then false else floatBytesValid (some c) true hasDecimalPoint t
    else if c = 0x2B ∨ c = 0x2D then
      if prev.any (fun p => p == 0x65 || p == 0x45) then
        floatBytesValid (some c) hasExp hasDecimalPoint t
      else false
    else if c = 0x5F || isDigit c then floatBytesValid (some c) hasExp hasDecimalPoint t
    else false

def isFloatCandidateBytes (raw : Bytes) : Bool :=
  let n := trimSignBytes raw
  match n with
  | [] => false
  | 0x30 :: next :: _ =>
    !(isDigit next || next == 0x5F) && floatBytesValid none false false n &&
      hasValidNumberUnderscoresBytes n
  | _ => floatBytesValid none false false n && hasValidNumberUnderscoresBytes n

/-- `appendNormalizedNumeric` with `lower`: underscores dropped, letters lowered. -/
def normalizeNumeric (raw : Bytes) : Bytes := (raw.filter (· ≠ 0x5F)).map lowerASCII

/-- The source copies the text only when it holds an underscore or a capital; `normalizeNumeric` is the
    identity otherwise. -/
def parseFloatLiteral (raw : Bytes) : Option Nat := Float64.parseFloat (normalizeNumeric raw)

/-- `inf`, `nan` and their signed forms, with the bits of `math.Inf` and `math.NaN`. -/
def parseSpecialFloatLiteral (raw : Bytes) : Option Nat :=
  if raw = ascii "nan" ∨ raw = ascii "+nan" then some 0x7FF8000000000001
  else if raw = ascii "-nan" then some 0xFFF8000000000001
  else if raw = ascii "inf" ∨ raw = ascii "+inf" then some 0x7FF0000000000000
  else if raw = ascii "-inf" then some 0xFFF0000000000000
  else none

/-! ## Classification -/

/-- **The kind of a bare value**, with the scalar computed on the way, or the message of the error. -/
def classifyBareValue (raw : Bytes) : Except String (TokenKind × TokenScalar) :=
  if looksLikeDatetime raw then .ok (.valueDatetime, .none)
  else if raw.any (fun b => b == 0x3D || b == 0x20) then .error "unexpected = in value"
  else if raw = ascii "true" ∨ raw = ascii "false" then .ok (.valueBool, .none)
  else
    match parseSpecialFloatLiteral raw with
    | some bits => .ok (.valueFloat, .float bits)
    | none =>
      if isIntCandidateBytes raw then
        if hasCapitalNumericPrefixBytes raw then .error "malformed value"
        else
          match parseIntegerLiteral raw with
          | .error _ => .error "malformed value"
          | .ok i => .ok (.valueInteger, .integer i)
      else if isFloatCandidateBytes raw then
        match parseFloatLiteral raw with
        | none => .error "malformed float"
        | some bits => .ok (.valueFloat, .float bits)
      else .error "malformed value"

/-- Where a bare value ends: at the first delimiter, or past a time that a date and one space lead to. -/
def scanBareValueEnd (raw : Bytes) : Nat :=
  let stop := Scan.scanBareValueEnd raw
  if stop ≠ 10 ∨ raw[stop]? ≠ some 0x20 then stop
  else
    let tailEnd := stop + 1 + Scan.scanBareValueEnd (raw.drop (stop + 1))
    if (parseDateTimeValue (raw.take tailEnd)).isOk then tailEnd else stop

end Pandaemonium.Toml
