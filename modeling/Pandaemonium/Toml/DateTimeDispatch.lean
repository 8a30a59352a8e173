import Pandaemonium.Toml.DateTimeForms

/-!
# `Toml.DateTimeDispatch` — which parser a datetime goes to (`datetime_parse.go`, `decoder.go`)

`parseDateTimeValue` looks at the shape of a text, by a date or a clock at the front, a separator and a scan
for the marks of an offset, and then calls one of the four parsers. The shape is evaluated here on the
texts of the forms that the parsers accept. `parseDateTimeValue_dispatch` says that every text goes to the
one parser that accepts it, and what the accepted values are.
-/

namespace Pandaemonium.Toml

open List
open Decimal (isDigit Digits)

/-! ## Shapes -/

theorem DigitText.two (s : DigitText 2) : ∃ a b, s.text = [a, b] ∧ isDigit a = true ∧ isDigit b = true := by
  obtain ⟨a, b, hs⟩ := length_eq_two.mp s.length
  exact ⟨a, b, hs, s.digits a (by simp [hs]), s.digits b (by simp [hs])⟩

theorem DigitText.four (s : DigitText 4) :
    ∃ a b c d, s.text = [a, b, c, d] ∧ isDigit a = true ∧ isDigit b = true ∧ isDigit c = true ∧
      isDigit d = true := by
  obtain ⟨text, digits, length⟩ := s
  match text, length with
  | [a, b, c, d], _ => exact ⟨a, b, c, d, rfl, digits a (by simp), digits b (by simp), digits c (by simp),
      digits d (by simp)⟩

theorem DateForm.hasDateShape (d : DateForm) (rest : Bytes) : hasDateShape (d.text ++ rest) = true := by
  obtain ⟨y0, y1, y2, y3, hyear, hy0, hy1, hy2, hy3⟩ := d.year.four
  obtain ⟨m0, m1, hmonth, hm0, hm1⟩ := d.month.two
  obtain ⟨d0, d1, hday, hd0, hd1⟩ := d.day.two
  simp [DateForm.text, hyear, hmonth, hday, Toml.hasDateShape, hy0, hy1, hy2, hy3, hm0, hm1, hd0, hd1]

theorem ClockForm.not_hasDateShape (c : ClockForm) : hasDateShape c.text = false := by
  obtain ⟨h0, h1, hhour, -⟩ := c.hour.two
  rw [ClockForm.text, hhour]
  unfold hasDateShape
  split
  · rename_i heq
    simp only [cons_append, nil_append, List.cons.injEq] at heq
    obtain ⟨-, -, rfl, -⟩ := heq
    simp [isDigit]
  · rfl

theorem ClockForm.hasTimeShape (c : ClockForm) : hasTimeShape c.text = true := by
  obtain ⟨h0, h1, hhour, hh0, hh1⟩ := c.hour.two
  obtain ⟨m0, m1, hminute, hm0, hm1⟩ := c.minute.two
  simp [ClockForm.text, hhour, hminute, Toml.hasTimeShape, hh0, hh1, hm0, hm1]

/-- `Z`, `z`, `+` and `-`, which only a zone has. -/
def isOffsetMark (b : UInt8) : Bool := b == 0x5A || b == 0x7A || b == 0x2B || b == 0x2D

theorem not_isOffsetMark_digit {b : UInt8} (h : isDigit b = true) : isOffsetMark b = false := by
  by_contra hmark
  simp only [isOffsetMark, Bool.not_eq_false, Bool.or_eq_true, beq_iff_eq] at hmark
  rcases hmark with ((rfl | rfl) | rfl) | rfl <;> cases h

theorem ClockTail.no_offsetMark (tail : ClockTail) : tail.text.any isOffsetMark = false := by
  have hdigits : ∀ {width : Nat} (s : DigitText width), s.text.any isOffsetMark = false := by
    intro width s
    rw [any_eq_false]
    exact fun b hb => by simp [not_isOffsetMark_digit (s.digits b hb)]
  cases tail with
  | minutes => rfl
  | seconds s => simpa [text, isOffsetMark] using hdigits s
  | fraction s n f pos le =>
    rw [text, any_cons, any_append, any_cons, hdigits s, hdigits f]
    rfl

/-- The scan for an offset, past the minutes of a clock. -/
theorem ClockForm.offsetSuffix (c : ClockForm) (rest : Bytes) :
    hasDateTimeOffsetSuffix (c.text ++ rest) = rest.any isOffsetMark := by
  have hdrop : (c.text ++ rest).drop 5 = c.tail.text ++ rest := by
    simp [ClockForm.text, drop_append, c.hour.length, c.minute.length, c.hour.drop_eq_nil]
  show ((c.text ++ rest).drop 5).any isOffsetMark = _
  rw [hdrop, any_append, c.tail.no_offsetMark, Bool.false_or]

theorem ZoneForm.any_offsetMark (z : ZoneForm) : z.text.any isOffsetMark = true := by
  cases z with
  | utc letter h => rcases h with rfl | rfl <;> rfl
  | fixed sign h hour minute => rcases h with rfl | rfl <;> simp [text, isOffsetMark]

theorem dateTimeShape_localDate (d : DateForm) : dateTimeShape d.text = .localDate := by
  have hshape := d.hasDateShape []
  rw [append_nil] at hshape
  rw [dateTimeShape, hshape, if_pos rfl, dateShape, if_pos d.length_text]

theorem dateTimeShape_date (d : DateForm) {sep : UInt8} (hsep : isDateTimeSeparator sep = true)
    (c : ClockForm) (rest : Bytes) :
    dateTimeShape (d.text ++ sep :: (c.text ++ rest)) =
      if rest.any isOffsetMark then .offset else .localDateTime := by
  obtain ⟨hten, hdrop⟩ := drop_date d sep (c.text ++ rest)
  rw [dateTimeShape, d.hasDateShape, if_pos rfl, dateShape, if_neg, hten, Option.any_some, if_pos hsep, hdrop,
    c.offsetSuffix]
  simp [d.length_text]

theorem dateTimeShape_localTime (c : ClockForm) : dateTimeShape c.text = .localTime := by
  rw [dateTimeShape, c.not_hasDateShape, c.hasTimeShape]
  rfl

/-! ## The written fraction -/

/-- The digits behind the point of a datetime. -/
def writtenFraction (raw : Bytes) : Bytes :=
  ((raw.dropWhile (· != 0x2E)).drop 1).takeWhile isDigit

/-- Text without a point in front changes nothing. -/
theorem writtenFraction_append {head : Bytes} (h : 0x2E ∉ head) (rest : Bytes) :
    writtenFraction (head ++ rest) = writtenFraction rest := by
  unfold writtenFraction
  rw [dropWhile_append_of_pos]
  intro b hb
  have hne : b ≠ 0x2E := fun heq => h (heq ▸ hb)
  simp [hne]

theorem DateForm.no_point (d : DateForm) : 0x2E ∉ d.text := by
  simp [DateForm.text, d.year.digits.not_mem, d.month.digits.not_mem, d.day.digits.not_mem, isDigit]

theorem isDateTimeSeparator_ne_point {sep : UInt8} (h : isDateTimeSeparator sep = true) : sep ≠ 0x2E := by
  rintro rfl
  cases h

theorem ZoneForm.no_point (z : ZoneForm) : 0x2E ∉ z.text := by
  cases z with
  | utc letter h => rcases h with rfl | rfl <;> simp [text]
  | fixed sign h hour minute =>
    rcases h with rfl | rfl <;> simp [text, hour.digits.not_mem, minute.digits.not_mem, isDigit]

/-- **The fraction of a clock** is the one its text has behind the point. -/
theorem ClockForm.writtenFraction_text (c : ClockForm) {rest : Bytes} (hends : c.tail.Ends rest)
    (hrest : 0x2E ∉ rest) : writtenFraction (c.text ++ rest) = c.tail.written := by
  have hhour := c.hour.digits.not_mem (b := 0x2E) rfl
  have hminute := c.minute.digits.not_mem (b := 0x2E) rfl
  have hnone : writtenFraction rest = [] := by
    have h := writtenFraction_append hrest []
    rwa [append_nil] at h
  obtain ⟨hour, minute, tail⟩ := c
  cases tail with
  | minutes =>
    have hhead : 0x2E ∉ ClockForm.text ⟨hour, minute, .minutes⟩ := by
      simp [ClockForm.text, ClockTail.text, hhour, hminute]
    exact (writtenFraction_append hhead rest).trans hnone
  | seconds s =>
    have hhead : 0x2E ∉ ClockForm.text ⟨hour, minute, .seconds s⟩ := by
      simp [ClockForm.text, ClockTail.text, hhour, hminute, s.digits.not_mem, isDigit]
    exact (writtenFraction_append hhead rest).trans hnone
  | fraction s n f pos le =>
    have hhead : 0x2E ∉ ClockForm.text ⟨hour, minute, .seconds s⟩ := by
      simp [ClockForm.text, ClockTail.text, hhour, hminute, s.digits.not_mem, isDigit]
    have htext : ClockForm.text ⟨hour, minute, .fraction s n f pos le⟩ ++ rest =
        ClockForm.text ⟨hour, minute, .seconds s⟩ ++ 0x2E :: (f.text ++ rest) := by
      simp [ClockForm.text, ClockTail.text]
    rw [htext, writtenFraction_append hhead, writtenFraction, dropWhile_cons]
    exact takeWhile_digits f.digits hends

/-! ## Dispatch -/

/-- The days of a month in the Gregorian calendar. -/
def calendarDays (year month : Int) : Int :=
  [31, 28, 31, 30, 31, 30, 31, 31, 30, 31, 30, 31].getD (month - 1).toNat 0 +
    if month = 2 ∧ 4 ∣ year ∧ (100 ∣ year → 400 ∣ year) then 1 else 0

/-- A day of the calendar, in a year of four digits. -/
structure CalendarDate (d : LocalDate) : Prop where
  year : 0 ≤ d.year ∧ d.year ≤ 9999
  month : 1 ≤ d.month ∧ d.month ≤ 12
  day : 1 ≤ d.day ∧ d.day ≤ calendarDays d.year d.month

/-- A time of day whose nanoseconds are the fraction that `raw` has. -/
structure ClockReading (raw : Bytes) (hour minute second nanos : Int) : Prop where
  hour : 0 ≤ hour ∧ hour ≤ 23
  minute : 0 ≤ minute ∧ minute ≤ 59
  second : 0 ≤ second ∧ second ≤ 59
  precision : (writtenFraction raw).length ≤ 9
  nanos : nanos = scaledToNine (writtenFraction raw)

/-- What an accepted value is, given its text. -/
def WellFormed (raw : Bytes) : DateTimeValue → Prop
  | .offset t => CalendarDate t.date ∧ ClockReading raw t.hour t.minute t.second t.nanosecond
  | .localDateTime t =>
    CalendarDate ⟨t.year, t.month, t.day⟩ ∧ ClockReading raw t.hour t.minute t.second t.nanosecond
  | .localDate d => CalendarDate d
  | .localTime t => ClockReading raw t.hour t.minute t.second t.nanosecond

/-- One of the four parsers accepts, with this value of its kind. -/
inductive Accepts (raw : Bytes) : DateTimeValue → Prop
  | offset {t : OffsetDateTime} : parseOffsetDateTime raw = .ok t → Accepts raw (.offset t)
  | localDateTime {t : LocalDateTime} : parseLocalDateTime raw = .ok t → Accepts raw (.localDateTime t)
  | localDate {d : LocalDate} : parseLocalDate raw = .ok d → Accepts raw (.localDate d)
  | localTime {t : LocalTime} : parseLocalTime raw = .ok t → Accepts raw (.localTime t)

theorem isLeapYear_iff (year : Int) : isLeapYear year = true ↔ 4 ∣ year ∧ (100 ∣ year → 400 ∣ year) := by
  simp only [isLeapYear, Bool.and_eq_true, Bool.or_eq_true, beq_iff_eq, bne_iff_ne]
  omega

theorem daysInMonth_eq {year month : Int} (h : 1 ≤ month ∧ month ≤ 12) :
    daysInMonth year month = calendarDays year month := by
  have hcases : month = 1 ∨ month = 2 ∨ month = 3 ∨ month = 4 ∨ month = 5 ∨ month = 6 ∨ month = 7 ∨
      month = 8 ∨ month = 9 ∨ month = 10 ∨ month = 11 ∨ month = 12 := by
    omega
  rcases hcases with rfl | rfl | rfl | rfl | rfl | rfl | rfl | rfl | rfl | rfl | rfl | rfl
  case inr.inl =>
    have hdays : calendarDays year 2 = if 4 ∣ year ∧ (100 ∣ year → 400 ∣ year) then 29 else 28 := by
      rw [calendarDays]
      split <;> simp_all
    rw [hdays]
    simp only [daysInMonth, ← isLeapYear_iff]
    simp
  all_goals simp [daysInMonth, calendarDays]

theorem DateForm.Valid.calendarDate {d : DateForm} (h : d.Valid) : CalendarDate d.date := by
  unfold DateForm.Valid validateDate at h
  split at h
  · cases h
  rename_i hyear
  split at h
  · cases h
  rename_i hmonth
  split at h
  · cases h
  rename_i hday
  have hrange : 1 ≤ d.date.month ∧ d.date.month ≤ 12 := by omega
  rw [daysInMonth_eq hrange] at hday
  exact ⟨by omega, hrange, by omega⟩

/-- The reading of a clock form, in a text whose fraction is the form's. -/
theorem ClockForm.Valid.reading {c : ClockForm} (h : c.Valid) {raw : Bytes}
    (hraw : writtenFraction raw = c.tail.written) :
    ClockReading raw c.clock.hour c.clock.minute c.clock.second c.clock.nanosecond := by
  obtain ⟨hhour, hminute, hsecond⟩ := h
  simp only [ClockForm.clock]
  refine ⟨by omega, by omega, by omega, ?_, by rw [hraw]⟩
  rw [hraw]
  exact c.tail.written_digits.2

/-- The fraction of a datetime is that of its clock. -/
theorem writtenFraction_dateTime (d : DateForm) {sep : UInt8} (hsep : isDateTimeSeparator sep = true)
    (c : ClockForm) {rest : Bytes} (hends : c.tail.Ends rest) (hrest : 0x2E ∉ rest) :
    writtenFraction (d.text ++ sep :: (c.text ++ rest)) = c.tail.written := by
  have hhead : 0x2E ∉ d.text ++ [sep] := by
    simp [d.no_point, (isDateTimeSeparator_ne_point hsep).symm]
  rw [append_cons, writtenFraction_append hhead, c.writtenFraction_text hends hrest]

/-- **A text that a parser accepts** has the shape of that parser, and its value is well formed. -/
theorem Accepts.shape {raw : Bytes} {v : DateTimeValue} (h : Accepts raw v) :
    parseDateTimeValue raw = .ok v ∧ WellFormed raw v := by
  unfold parseDateTimeValue
  cases h with
  | @offset t h =>
    obtain ⟨d, sep, c, z, hd, hsep, hc, hends, hraw, hdate, hhour, hminute, hsecond, hnanos⟩ :=
      parseOffsetDateTime_inv h
    have hshape := dateTimeShape_date d hsep c z.text
    rw [z.any_offsetMark, if_pos rfl, ← hraw] at hshape
    have hfraction := writtenFraction_dateTime d hsep c hends z.no_point
    rw [← hraw] at hfraction
    refine ⟨by simp [hshape, h, Except.map], ?_⟩
    rw [WellFormed, hdate, hhour, hminute, hsecond, hnanos]
    exact ⟨hd.calendarDate, hc.reading hfraction⟩
  | @localDateTime t h =>
    obtain ⟨d, sep, c, hd, hsep, hc, hraw, rfl⟩ := parseLocalDateTime_iff.mp h
    have hshape := dateTimeShape_date d hsep c []
    have hfraction := writtenFraction_dateTime d hsep c c.tail.ends_nil not_mem_nil
    rw [append_nil, ← hraw] at hshape hfraction
    refine ⟨by simp [hshape, h, Except.map], hd.calendarDate, hc.reading hfraction⟩
  | @localDate date h =>
    obtain ⟨d, hd, rfl, rfl⟩ := parseLocalDate_iff.mp h
    exact ⟨by simp [dateTimeShape_localDate, h, Except.map], hd.calendarDate⟩
  | @localTime t h =>
    obtain ⟨c, hc, rfl, rfl⟩ := parseLocalTime_iff.mp h
    have hfraction := c.writtenFraction_text c.tail.ends_nil not_mem_nil
    rw [append_nil] at hfraction
    exact ⟨by simp [dateTimeShape_localTime, h, Except.map], hc.reading hfraction⟩

/-- What `parseDateTimeValue` answers is the answer of the parser it calls. -/
theorem accepts_of_parseDateTimeValue {raw : Bytes} {v : DateTimeValue}
    (h : parseDateTimeValue raw = .ok v) : Accepts raw v := by
  unfold parseDateTimeValue at h
  cases hshape : dateTimeShape raw with
  | invalid => simp [hshape] at h
  | offset =>
    cases hp : parseOffsetDateTime raw with
    | error e => simp [hshape, hp, Except.map] at h
    | ok t =>
      simp only [hshape, hp, Except.map, Except.ok.injEq] at h
      exact h ▸ .offset hp
  | localDateTime =>
    cases hp : parseLocalDateTime raw with
    | error e => simp [hshape, hp, Except.map] at h
    | ok t =>
      simp only [hshape, hp, Except.map, Except.ok.injEq] at h
      exact h ▸ .localDateTime hp
  | localDate =>
    cases hp : parseLocalDate raw with
    | error e => simp [hshape, hp, Except.map] at h
    | ok d =>
      simp only [hshape, hp, Except.map, Except.ok.injEq] at h
      exact h ▸ .localDate hp
  | localTime =>
    cases hp : parseLocalTime raw with
    | error e => simp [hshape, hp, Except.map] at h
    | ok t =>
      simp only [hshape, hp, Except.map, Except.ok.injEq] at h
      exact h ▸ .localTime hp

/-- **Dispatch.** At most one of the four parsers accepts a text, `parseDateTimeValue` answers its value and
    kind and fails when there is none, and an accepted value is a date of the calendar and a time of day
    with the fraction that was written. -/
theorem parseDateTimeValue_dispatch (raw : Bytes) :
    (∀ v w, Accepts raw v → Accepts raw w → v = w) ∧
    (∀ v, parseDateTimeValue raw = .ok v ↔ Accepts raw v) ∧
    (∀ v, Accepts raw v → WellFormed raw v) := by
  refine ⟨fun v w hv hw => ?_, fun v => ⟨accepts_of_parseDateTimeValue, fun h => h.shape.1⟩,
    fun v h => h.shape.2⟩
  have heq := hv.shape.1
  rw [hw.shape.1] at heq
  cases heq
  rfl

theorem parseDateTimeValue_dispatch_half :
    parseDateTimeValue (ascii "07:32:00.50") = .ok (.localTime ⟨7, 32, 0, 500000000, true, 2⟩) ∧
      WellFormed (ascii "07:32:00.50") (.localTime ⟨7, 32, 0, 500000000, true, 2⟩) := by
  have hparse : parseLocalTime (ascii "07:32:00.50") = .ok ⟨7, 32, 0, 500000000, true, 2⟩ := by decide
  obtain ⟨-, hdispatch, hwellFormed⟩ := parseDateTimeValue_dispatch (ascii "07:32:00.50")
  exact ⟨(hdispatch _).mpr (.localTime hparse), hwellFormed _ (.localTime hparse)⟩

end Pandaemonium.Toml
