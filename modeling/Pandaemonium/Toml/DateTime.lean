import Pandaemonium.Lib.Decimal
import Pandaemonium.Toml.Token

/-!
# `Toml.DateTime` — the four datetime forms (`datetime.go`, `datetime_parse.go`)

Local dates and times keep whether seconds were written and how many fractional digits, so that they
print the way they were read. An offset datetime becomes a `time.Time`, modelled by its civil fields and
its zone.
-/

namespace Pandaemonium.Toml

open Decimal (isDigit)

/-- A date without a zone. -/
structure LocalDate where
  year : Int
  month : Int
  day : Int
  deriving DecidableEq, Repr

/-- A time of day without a zone, with the digits its fraction was written in. -/
structure LocalTime where
  hour : Int
  minute : Int
  second : Int
  nanosecond : Int
  hasSecond : Bool
  nanoDigits : Int
  deriving DecidableEq, Repr

/-- A date and a time of day without a zone. -/
structure LocalDateTime where
  year : Int
  month : Int
  day : Int
  hour : Int
  minute : Int
  second : Int
  nanosecond : Int
  hasSecond : Bool
  nanoDigits : Int
  deriving DecidableEq, Repr

/-- `time.UTC`, or the fixed zone named by its source text. -/
inductive Zone where
  | utc
  | fixed (name : Bytes) (seconds : Int)
  deriving DecidableEq, Repr

/-- A `time.Time` as `time.Date` builds it from validated fields. -/
structure OffsetDateTime where
  date : LocalDate
  hour : Int
  minute : Int
  second : Int
  nanosecond : Int
  zone : Zone
  deriving DecidableEq, Repr

/-! ## Validation -/

/-- The Gregorian rule. -/
def isLeapYear (year : Int) : Bool := year % 4 == 0 && (year % 100 != 0 || year % 400 == 0)

/-- Zero for a number that is no month. -/
def daysInMonth (year month : Int) : Int :=
  if month ∈ [1, 3, 5, 7, 8, 10, 12] then 31
  else if month ∈ [4, 6, 9, 11] then 30
  else if month = 2 then if isLeapYear year then 29 else 28
  else 0

/-- The ranges of a date, checked from the year down. -/
def validateDate (year month day : Int) : Except String Unit :=
  if year < 0 ∨ year > 9999 then .error "toml: year out of range"
  else if month < 1 ∨ month > 12 then .error "toml: month out of range"
  else if day < 1 ∨ day > daysInMonth year month then .error "toml: day out of range"
  else .ok ()

/-- The ranges of a time of day, checked from the hour down. -/
def validateLocalClock (hour minute second nanos nanoDigits : Int) : Except String Unit :=
  if hour < 0 ∨ hour > 23 then .error "toml: hour out of range"
  else if minute < 0 ∨ minute > 59 then .error "toml: minute out of range"
  else if second < 0 ∨ second > 59 then .error "toml: second out of range"
  else if nanos < 0 ∨ nanos ≥ 1000000000 then .error "toml: nanosecond out of range"
  else if nanoDigits < 0 ∨ nanoDigits > 9 then .error "toml: fractional precision out of range"
  else if nanoDigits = 0 ∧ nanos ≠ 0 then
    .error "toml: nanosecond requires fractional precision"
  else .ok ()

/-! ## Parsing -/

/-- The number that a text of digits stands for. -/
def parseFixedDigits (raw : Bytes) : Option Int :=
  if raw.all isDigit then some (Decimal.value raw) else none

/-- `T`, `t` or a blank. -/
def isDateTimeSeparator (ch : UInt8) : Bool := ch == 0x54 || ch == 0x74 || ch == 0x20

/-- The date at the front and how many bytes it takes. -/
def parseDatePrefix (raw : Bytes) : Except String (LocalDate × Nat) :=
  if raw.length < 10 then .error "toml: short date"
  else if raw[4]? ≠ some 0x2D ∨ raw[7]? ≠ some 0x2D then .error "toml: malformed date separators"
  else
    match parseFixedDigits (raw.take 4) with
    | none => .error "toml: malformed year"
    | some year =>
      match parseFixedDigits ((raw.drop 5).take 2) with
      | none => .error "toml: malformed month"
      | some month =>
        match parseFixedDigits ((raw.drop 8).take 2) with
        | none => .error "toml: malformed day"
        | some day =>
          match validateDate year month day with
          | .error e => .error e
          | .ok () => .ok ({ year := year, month := month, day := day }, 10)

/-- Seconds, nanoseconds, fractional digits and the bytes taken so far, from `off` on. -/
def parseClockSubseconds (raw : Bytes) (off : Nat) : Except String (Int × Int × Int × Nat) :=
  if raw[off]? ≠ some 0x3A then .ok (0, 0, 0, off)
  else
    let next := off + 1
    if raw.length - next < 2 then .error "toml: short time"
    else
      match parseFixedDigits ((raw.drop next).take 2) with
      | none => .error "toml: malformed second"
      | some second =>
        let next := next + 2
        if raw[next]? ≠ some 0x2E then .ok (second, 0, 0, next)
        else
          let fracStart := next + 1
          let frac := (raw.drop fracStart).takeWhile isDigit
          if frac = [] then .error "toml: empty fractional second"
          else if frac.length > 9 then
            .error "toml: fractional second precision exceeds nanoseconds"
          else
            .ok (second, Decimal.value frac * 10 ^ (9 - frac.length), frac.length,
              fracStart + frac.length)

/-- The clock at the front and how many bytes it takes. -/
def parseTimePrefix (raw : Bytes) : Except String (LocalTime × Nat) :=
  if raw.length < 5 then .error "toml: short time"
  else if raw[2]? ≠ some 0x3A then .error "toml: malformed time separators"
  else
    match parseFixedDigits (raw.take 2) with
    | none => .error "toml: malformed hour"
    | some hour =>
      match parseFixedDigits ((raw.drop 3).take 2) with
      | none => .error "toml: malformed minute"
      | some minute =>
        match parseClockSubseconds raw 5 with
        | .error e => .error e
        | .ok (second, nanos, nanoDigits, next) =>
          match validateLocalClock hour minute second nanos nanoDigits with
          | .error e => .error e
          | .ok () =>
            .ok ({ hour := hour, minute := minute, second := second, nanosecond := nanos
                   hasSecond := 5 < next, nanoDigits := nanoDigits }, next)

/-- A date and nothing behind it. -/
def parseLocalDate (raw : Bytes) : Except String LocalDate :=
  match parseDatePrefix raw with
  | .error e => .error e
  | .ok (date, next) =>
    if next ≠ raw.length then .error "toml: unexpected trailing date data" else .ok date

/-- A time of day and nothing behind it. -/
def parseLocalTime (raw : Bytes) : Except String LocalTime :=
  match parseTimePrefix raw with
  | .error e => .error e
  | .ok (clock, next) =>
    if next ≠ raw.length then .error "toml: unexpected trailing time data" else .ok clock

/-- A date, a separator, a time of day and nothing behind them. -/
def parseLocalDateTime (raw : Bytes) : Except String LocalDateTime :=
  match parseDatePrefix raw with
  | .error e => .error e
  | .ok (date, timeStart) =>
    if !(raw[timeStart]?.any isDateTimeSeparator) then .error "toml: missing datetime separator"
    else
      match parseTimePrefix (raw.drop (timeStart + 1)) with
      | .error e => .error e
      | .ok (clock, next) =>
        if timeStart + 1 + next ≠ raw.length then
          .error "toml: unexpected trailing datetime data"
        else
          .ok { year := date.year, month := date.month, day := date.day
                hour := clock.hour, minute := clock.minute, second := clock.second
                nanosecond := clock.nanosecond, hasSecond := clock.hasSecond
                nanoDigits := clock.nanoDigits }

/-- `Z`, or a sign with hours and minutes. -/
def parseZone (raw : Bytes) : Except String Zone :=
  if raw = [0x5A] ∨ raw = [0x7A] then .ok .utc
  else if raw.length ≠ 6 ∨ (raw[0]? ≠ some 0x2B ∧ raw[0]? ≠ some 0x2D) ∨ raw[3]? ≠ some 0x3A then
    .error "toml: malformed datetime offset"
  else
    match parseFixedDigits ((raw.drop 1).take 2) with
    | none => .error "toml: malformed offset hour"
    | some hour =>
      match parseFixedDigits ((raw.drop 4).take 2) with
      | none => .error "toml: malformed offset minute"
      | some minute =>
        if hour > 23 ∨ minute > 59 then .error "toml: offset out of range"
        else
          let seconds := hour * 3600 + minute * 60
          .ok (.fixed raw (if raw[0]? = some 0x2D then -seconds else seconds))

/-- A date, a separator, a time of day and a zone. -/
def parseOffsetDateTime (raw : Bytes) : Except String OffsetDateTime :=
  match parseDatePrefix raw with
  | .error e => .error e
  | .ok (date, timeStart) =>
    if !(raw[timeStart]?.any isDateTimeSeparator) then .error "toml: missing datetime separator"
    else
      match parseTimePrefix (raw.drop (timeStart + 1)) with
      | .error e => .error e
      | .ok (clock, next) =>
        let off := timeStart + 1 + next
        if raw.length ≤ off then .error "toml: missing datetime offset"
        else
          match parseZone (raw.drop off) with
          | .error e => .error e
          | .ok zone =>
            .ok { date := date, hour := clock.hour, minute := clock.minute
                  second := clock.second, nanosecond := clock.nanosecond, zone := zone }

/-! ## Shapes -/

/-- Digits and dashes where a date has them. -/
def hasDateShape (raw : Bytes) : Bool :=
  match raw with
  | y0 :: y1 :: y2 :: y3 :: s0 :: m0 :: m1 :: s1 :: d0 :: d1 :: _ =>
    isDigit y0 && isDigit y1 && isDigit y2 && isDigit y3 && s0 == 0x2D && isDigit m0 &&
      isDigit m1 && s1 == 0x2D && isDigit d0 && isDigit d1
  | _ => false

/-- Digits and a colon where a time of day has them. -/
def hasTimeShape (raw : Bytes) : Bool :=
  match raw with
  | h0 :: h1 :: s0 :: m0 :: m1 :: _ =>
    isDigit h0 && isDigit h1 && s0 == 0x3A && isDigit m0 && isDigit m1
  | _ => false

/-- The text starts like a date or like a time. -/
def hasDateTimeShape (raw : Bytes) : Bool := hasDateShape raw || hasTimeShape raw

/-- Which of the four forms a text is to be read as. -/
inductive DateTimeKind where
  | invalid | offset | localDateTime | localDate | localTime
  deriving DecidableEq, Repr

/-- `Z`, `z`, `+` or `-` past the minutes. -/
def hasDateTimeOffsetSuffix (raw : Bytes) : Bool :=
  (raw.drop 5).any (fun b => b == 0x5A || b == 0x7A || b == 0x2B || b == 0x2D)

/-- The form of a text that starts with a date. -/
def dateShape (raw : Bytes) : DateTimeKind :=
  if raw.length = 10 then .localDate
  else if raw[10]?.any isDateTimeSeparator then
    if hasDateTimeOffsetSuffix (raw.drop 11) then .offset else .localDateTime
  else .invalid

/-- **The form of a text**, decided without reading it. -/
def dateTimeShape (raw : Bytes) : DateTimeKind :=
  if hasDateShape raw then dateShape raw
  else if hasTimeShape raw then .localTime
  else .invalid

/-- A parsed datetime value. -/
inductive DateTimeValue where
  | offset (t : OffsetDateTime)
  | localDateTime (t : LocalDateTime)
  | localDate (d : LocalDate)
  | localTime (t : LocalTime)
  deriving DecidableEq, Repr

/-- The most specific datetime form `raw` matches. -/
def parseDateTimeValue (raw : Bytes) : Except Err DateTimeValue :=
  let answer (r : Except String DateTimeValue) : Except Err DateTimeValue :=
    match r with
    | .ok v => .ok v
    | .error _ => .error (.invalidDateTime raw)
  match dateTimeShape raw with
  | .offset => answer ((parseOffsetDateTime raw).map .offset)
  | .localDateTime => answer ((parseLocalDateTime raw).map .localDateTime)
  | .localDate => answer ((parseLocalDate raw).map .localDate)
  | .localTime => answer ((parseLocalTime raw).map .localTime)
  | .invalid => .error (.invalidDateTime raw)

/-- The text has the shape and reads as a date or time. -/
def looksLikeDatetime (raw : Bytes) : Bool :=
  hasDateTimeShape raw && (parseDateTimeValue raw).isOk

/-! ## Printing -/

/-- `%04d` and `%02d` -/
def appendPaddedInt (n : Int) (width : Nat) : Bytes :=
  if n < 0 then 0x2D :: Decimal.renderPadded (width - 1) n.natAbs
  else Decimal.renderPadded width n.natAbs

/-- `YYYY-MM-DD`. -/
def appendDate (year month day : Int) : Bytes :=
  appendPaddedInt year 4 ++ [0x2D] ++ appendPaddedInt month 2 ++ [0x2D] ++ appendPaddedInt day 2

/-- `strconv.Itoa` -/
def itoa (n : Int) : Bytes :=
  if n < 0 then 0x2D :: Decimal.render n.natAbs else Decimal.render n.natAbs

/-- `HH:MM`, with seconds if they were written and a fraction if it has digits. -/
def appendTime (hour minute second nanos nanoDigits : Int) (hasSecond : Bool) : Bytes :=
  appendPaddedInt hour 2 ++ [0x3A] ++ appendPaddedInt minute 2 ++
    (if hasSecond then [0x3A] ++ appendPaddedInt second 2 else []) ++
    (if hasSecond && decide (nanoDigits > 0) then
      [0x2E] ++ ((itoa (nanos + 1000000000)).drop 1).take nanoDigits.toNat
    else [])

/-- The text of a date in range. -/
def LocalDate.marshalText (d : LocalDate) : Except String Bytes :=
  match validateDate d.year d.month d.day with
  | .error e => .error e
  | .ok () => .ok (appendDate d.year d.month d.day)

/-- The text of a time in range. -/
def LocalTime.marshalText (t : LocalTime) : Except String Bytes :=
  match validateLocalClock t.hour t.minute t.second t.nanosecond t.nanoDigits with
  | .error e => .error e
  | .ok () =>
    .ok (appendTime t.hour t.minute t.second t.nanosecond t.nanoDigits t.hasSecond)

/-- The text of a date and time in range. -/
def LocalDateTime.marshalText (t : LocalDateTime) : Except String Bytes :=
  match validateDate t.year t.month t.day with
  | .error e => .error e
  | .ok () =>
    match validateLocalClock t.hour t.minute t.second t.nanosecond t.nanoDigits with
    | .error e => .error e
    | .ok () =>
      .ok (appendDate t.year t.month t.day ++ [0x54] ++
        appendTime t.hour t.minute t.second t.nanosecond t.nanoDigits t.hasSecond)

/-- `String()`: the TOML text, empty when the fields are out of range. -/
def textOrEmpty (r : Except String Bytes) : Bytes :=
  match r with
  | .ok text => text
  | .error _ => []

/-- `String`: the text, empty out of range. -/
def LocalDate.string (d : LocalDate) : Bytes := textOrEmpty d.marshalText

/-- `String`: the text, empty out of range. -/
def LocalTime.string (t : LocalTime) : Bytes := textOrEmpty t.marshalText

/-- `String`: the text, empty out of range. -/
def LocalDateTime.string (t : LocalDateTime) : Bytes := textOrEmpty t.marshalText

end Pandaemonium.Toml
