import Pandaemonium.Lib.Quote
import Pandaemonium.Toml.Value

/-!
# `Toml.Marshal` — values as text (`marshal.go`, `datetime.go`)

The text of a key and of a value on one line. The source writes a value twice over, once by reflection
(`writeValue`) and once by a type switch (`writeAnyValue`); on the values a document is decoded to, the
two write the same, and `writeValue` here stands for both. What the source takes from `strconv` and is not
modelled is a parameter: which runes past U+00FF are printable, and the shortest text of a finite float.
-/

namespace Pandaemonium.Toml

/-- What is taken from `strconv` as it is. -/
structure Strconv where
  printable : Nat → Bool
  /-- `strconv.FormatFloat(value, 'g', -1, 64)`, by the bits of the value -/
  formatFloat : Nat → Bytes

/-- Enough of `strconv` for texts up to U+00FF without floats. -/
def Strconv.plain : Strconv := ⟨fun _ => false, fun _ => []⟩

/-! ## Dates and times -/

/-- The fraction of `time.RFC3339Nano`: nine digits without the zeros at the end, none for a whole
    second. -/
def nanoFraction (nanos : Int) : Bytes :=
  let digits := trimRight (· == 0x30) (Decimal.renderPadded 9 nanos.toNat)
  if digits = [] then [] else 0x2E :: digits

/-- The `Z07:00` of a zone. -/
def zoneText : Zone → Bytes
  | .utc => [0x5A]
  | .fixed _ seconds =>
    if seconds = 0 then [0x5A]
    else
      let minutes := seconds.tdiv 60
      [if minutes < 0 then 0x2D else 0x2B] ++ Decimal.renderPadded 2 (minutes.natAbs / 60) ++
        [0x3A] ++ Decimal.renderPadded 2 (minutes.natAbs % 60)

/-- `t.Format(time.RFC3339Nano)` -/
def OffsetDateTime.format (t : OffsetDateTime) : Bytes :=
  appendDate t.date.year t.date.month t.date.day ++ [0x54] ++
    appendTime t.hour t.minute t.second 0 0 true ++ nanoFraction t.nanosecond ++ zoneText t.zone

/-- `String()`, and `Format` for a `time.Time`. -/
def DateTimeValue.text : DateTimeValue → Bytes
  | .offset t => t.format
  | .localDateTime t => t.string
  | .localDate d => d.string
  | .localTime t => t.string

/-! ## Scalars -/

/-- `writeFloat`, by the bits of the value. -/
def writeFloat (lib : Strconv) (bits : Nat) : Bytes :=
  let sign := 2 ^ 63 ≤ bits
  let magnitude := bits % 2 ^ 63
  if magnitude = 0x7FF * 2 ^ 52 then if sign then ascii "-inf" else ascii "inf"
  else if 0x7FF * 2 ^ 52 < magnitude then if sign then ascii "-nan" else ascii "nan"
  else
    let text := lib.formatFloat bits
    if text.any (fun c => c == 0x2E || c == 0x65 || c == 0x45) then text else text ++ ascii ".0"

/-- A quote or a backslash. -/
def needsEscape (c : UInt8) : Bool := c == 0x22 || c == 0x5C

/-- Where the first byte to escape stands, at the end where there is none (`-1` in the source); `none`
    where a byte is not printable ASCII (`quoteFallback`). -/
def asciiQuoteEscapeIndex (s : Bytes) : Option Nat :=
  if s.any (fun c => c < 0x20 || 0x7F ≤ c) then none else some (s.findIdx needsEscape)

def writeQuotedASCIIString (s : Bytes) (first : Nat) : Bytes :=
  [0x22] ++ s.take first ++
    (s.drop first).flatMap (fun c => if needsEscape c then [0x5C, c] else [c]) ++ [0x22]

def writeQuotedString (lib : Strconv) (s : Bytes) : Bytes :=
  match asciiQuoteEscapeIndex s with
  | none => Quote.quote lib.printable s
  | some first => writeQuotedASCIIString s first

/-! ## Keys and values -/

/-- A key that is no bare key is quoted. -/
def formatKey (lib : Strconv) (key : Bytes) : Bytes :=
  if key = [] ∨ key.all Scan.bareKeyClass = false then Quote.quote lib.printable key else key

mutual

/-- **The text of a value on one line.** -/
def writeValue (lib : Strconv) : Val → Bytes
  | .str s => writeQuotedString lib s
  | .int i => itoa i
  | .float bits => writeFloat lib bits
  | .bool b => if b then ascii "true" else ascii "false"
  | .dateTime t => t.text
  | .arr xs => [0x5B] ++ writeElements lib xs ++ [0x5D]
  | .tbl es => [0x7B, 0x20] ++ writeEntries lib es ++ [0x20, 0x7D]

/-- The elements of an array, with a comma and a space between them. -/
def writeElements (lib : Strconv) : List Val → Bytes
  | [] => []
  | [x] => writeValue lib x
  | x :: y :: xs => writeValue lib x ++ [0x2C, 0x20] ++ writeElements lib (y :: xs)

/-- The entries of an inline table; the keys are in order as a `Table` has them. -/
def writeEntries (lib : Strconv) : List (Bytes × Val) → Bytes
  | [] => []
  | [(k, v)] => formatKey lib k ++ ascii " = " ++ writeValue lib v
  | (k, v) :: e :: es =>
    formatKey lib k ++ ascii " = " ++ writeValue lib v ++ [0x2C, 0x20] ++ writeEntries lib (e :: es)

end

end Pandaemonium.Toml
