import Pandaemonium.Toml.DateTimeForms

/-!
# `Toml.DateTimeText` — datetimes written and read back (`datetime.go`)

A local time prints its seconds when it remembers that they were written, and as many digits of its fraction
as it remembers. A value that was read remembers what its text had, so it prints that text
(`marshalText_parsed`). A value built from its exported fields remembers nothing: the check of `MarshalText`
asks for precision when there are nanoseconds, but neither for enough of it nor for the seconds, and
`marshalText_keeps_iff` says which values survive.
-/

namespace Pandaemonium.Toml

open Decimal (isDigit Digits)

/-! ## Printing digits -/

/-- A number in exactly `width` digits. -/
def fixedText (width n : Nat) : DigitText width :=
  ⟨Decimal.fixed width n, Decimal.digits_fixed width n, Decimal.length_fixed width n⟩

@[simp]
theorem text_fixedText (width n : Nat) : (fixedText width n).text = Decimal.fixed width n := rfl

@[simp]
theorem scaledToNine_nil : scaledToNine [] = 0 := rfl

theorem value_fixedText {width n : Nat} (h : n < 10 ^ width) : (fixedText width n).value = n :=
  Decimal.value_fixed h

theorem appendPaddedInt_eq {width n : Nat} (hwidth : 0 < width) (h : n < 10 ^ width) :
    appendPaddedInt n width = Decimal.fixed width n := by
  rw [appendPaddedInt, if_neg (by omega), Int.natAbs_natCast, Decimal.renderPadded_eq_fixed hwidth h]

/-- The text of a form is what its number prints as. -/
theorem DigitText.print {width : Nat} (s : DigitText width) (hwidth : 0 < width) :
    appendPaddedInt s.value width = s.text := by
  have hlt := Decimal.value_lt s.digits
  have hfixed := Decimal.fixed_value s.digits
  rw [s.length] at hlt hfixed
  exact (appendPaddedInt_eq hwidth hlt).trans hfixed

/-- The leading digits of the nanoseconds, cut out of the rendering of `nanos + 1_000_000_000`. -/
theorem fraction_eq {nanos digits : Nat} (hnanos : nanos < 1000000000) (hdigits : digits ≤ 9) :
    ((itoa ((nanos : Int) + 1000000000)).drop 1).take digits =
      Decimal.fixed digits (nanos / 10 ^ (9 - digits)) := by
  have hrender : itoa ((nanos : Int) + 1000000000) = 0x31 :: Decimal.fixed 9 nanos := by
    have habs : ((nanos : Int) + 1000000000).natAbs = 10 ^ 9 + nanos := by omega
    rw [itoa, if_neg (by omega), habs, Decimal.render_pow_add (by omega)]
  have htake := Decimal.take_fixed digits (9 - digits) nanos
  rw [Nat.add_sub_cancel' hdigits] at htake
  rw [hrender, List.drop_succ_cons, List.drop_zero, htake]

/-! ## A value that was read -/

theorem DateForm.print (d : DateForm) : appendDate d.date.year d.date.month d.date.day = d.text := by
  simp only [DateForm.date, appendDate, d.year.print (by decide), d.month.print (by decide),
    d.day.print (by decide)]
  simp [DateForm.text]

theorem ClockForm.print (c : ClockForm) :
    appendTime c.clock.hour c.clock.minute c.clock.second c.clock.nanosecond c.clock.nanoDigits
      c.clock.hasSecond = c.text := by
  obtain ⟨hour, minute, tail⟩ := c
  simp only [ClockForm.clock, appendTime, ClockForm.text, hour.print (by decide), minute.print (by decide)]
  cases tail with
  | minutes => simp [ClockTail.text]
  | seconds s => simp [ClockTail.text, ClockTail.written, ClockTail.second, s.print]
  | fraction s n f pos le =>
    have hle : f.text.length ≤ 9 := f.length.trans_le le
    have hfraction := fraction_eq (scaledToNine_lt f.digits hle) hle
    nth_rewrite 2 [scaledToNine_eq] at hfraction
    rw [Nat.mul_div_cancel _ (Nat.pow_pos (by decide)), Decimal.fixed_value f.digits] at hfraction
    rw [f.length] at hfraction
    simp only [ClockTail.text, ClockTail.written, ClockTail.second, s.print (by decide), f.length,
      Int.toNat_natCast, hfraction]
    simp [pos]

theorem ClockForm.Valid.marshalText {c : ClockForm} (h : c.Valid) : c.clock.marshalText = .ok c.text := by
  rw [LocalTime.marshalText, c.validate_iff.mpr h, c.print]

theorem DateForm.Valid.marshalText {d : DateForm} (h : d.Valid) : d.date.marshalText = .ok d.text := by
  rw [LocalDate.marshalText, show validateDate d.date.year d.date.month d.date.day = .ok () from h, d.print]

theorem localDateTimeOf_marshalText {d : DateForm} {c : ClockForm} (hd : d.Valid) (hc : c.Valid) :
    (localDateTimeOf d c).marshalText = .ok (d.text ++ 0x54 :: c.text) := by
  rw [LocalDateTime.marshalText]
  simp only [localDateTimeOf]
  rw [show validateDate d.date.year d.date.month d.date.day = .ok () from hd, d.print]
  simp only [c.validate_iff.mpr hc, c.print]
  simp

/-- **Encode after decode.** What was read prints as the text it was read from; of a datetime only the
    separator changes, to `T`. -/
theorem marshalText_parsed (raw : Bytes) :
    (∀ t, parseLocalTime raw = .ok t → t.marshalText = .ok raw) ∧
    (∀ d, parseLocalDate raw = .ok d → d.marshalText = .ok raw) ∧
    (∀ t, parseLocalDateTime raw = .ok t → t.marshalText = .ok (raw.set 10 0x54)) := by
  refine ⟨fun t h => ?_, fun d h => ?_, fun t h => ?_⟩
  · obtain ⟨c, hc, rfl, rfl⟩ := parseLocalTime_iff.mp h
    exact hc.marshalText
  · obtain ⟨d, hd, rfl, rfl⟩ := parseLocalDate_iff.mp h
    exact hd.marshalText
  obtain ⟨d, sep, c, hd, -, hc, rfl, rfl⟩ := parseLocalDateTime_iff.mp h
  rw [localDateTimeOf_marshalText hd hc, List.set_append_right _ _ d.length_text.le, d.length_text]
  rfl

theorem marshalText_parsed_zeros :
    parseLocalTime (ascii "07:32:00.50") = .ok ⟨7, 32, 0, 500000000, true, 2⟩ ∧
      LocalTime.marshalText ⟨7, 32, 0, 500000000, true, 2⟩ = .ok (ascii "07:32:00.50") := by
  have hparse : parseLocalTime (ascii "07:32:00.50") = .ok ⟨7, 32, 0, 500000000, true, 2⟩ := by decide
  exact ⟨hparse, (marshalText_parsed (ascii "07:32:00.50")).1 _ hparse⟩

/-! ## A value built by hand -/

/-- The form in which a clock prints. -/
def tailOf (second nanos digits : Nat) (hasSecond : Bool) : ClockTail :=
  if hasSecond then
    if h : 0 < digits ∧ digits ≤ 9 then
      .fraction (fixedText 2 second) digits (fixedText digits (nanos / 10 ^ (9 - digits))) h.1 h.2
    else .seconds (fixedText 2 second)
  else .minutes

def clockFormOf (hour minute second nanos digits : Nat) (hasSecond : Bool) : ClockForm :=
  ⟨fixedText 2 hour, fixedText 2 minute, tailOf second nanos digits hasSecond⟩

/-- What the remembered precision has to cover: the seconds when they are not printed, and the digits of
    the fraction that are cut off. -/
def PrecisionKept (second nanosecond nanoDigits : Int) (hasSecond : Bool) : Prop :=
  if hasSecond then (10 : Int) ^ (9 - nanoDigits).toNat ∣ nanosecond else second = 0 ∧ nanosecond = 0

section

variable {hour minute second nanos digits : Nat} {hasSecond : Bool}

theorem appendTime_eq (hhour : hour ≤ 23) (hminute : minute ≤ 59) (hsecond : second ≤ 59)
    (hnanos : nanos < 1000000000) (hdigits : digits ≤ 9) :
    appendTime hour minute second nanos digits hasSecond =
      (clockFormOf hour minute second nanos digits hasSecond).text := by
  have hfraction := fraction_eq hnanos hdigits
  have hpad : ∀ {n : Nat}, n ≤ 59 → appendPaddedInt n 2 = Decimal.fixed 2 n :=
    fun h => appendPaddedInt_eq (by decide) (by omega)
  simp only [appendTime, clockFormOf, ClockForm.text, hpad (n := hour) (by omega), hpad hminute,
    hpad hsecond, Int.toNat_natCast, hfraction]
  cases hasSecond with
  | false => simp [tailOf, ClockTail.text, fixedText]
  | true =>
    by_cases hpos : 0 < digits
    · simp [tailOf, ClockTail.text, fixedText, hpos, hdigits]
    · simp [tailOf, ClockTail.text, fixedText, hpos]

/-- The cut fraction, back in nanoseconds. -/
theorem scaledToNine_fixed (hnanos : nanos < 1000000000) (hdigits : digits ≤ 9) :
    scaledToNine (Decimal.fixed digits (nanos / 10 ^ (9 - digits))) =
      nanos / 10 ^ (9 - digits) * 10 ^ (9 - digits) := by
  have hlt : nanos / 10 ^ (9 - digits) < 10 ^ digits := by
    rw [Nat.div_lt_iff_lt_mul (Nat.pow_pos (by decide)), ← pow_add, Nat.add_sub_cancel' hdigits]
    exact hnanos
  rw [scaledToNine_eq, Decimal.value_fixed hlt, Decimal.length_fixed]

theorem div_mul_eq_iff (n k : Nat) : n / 10 ^ k * 10 ^ k = n ↔ (10 : Int) ^ k ∣ n := by
  have hcast : ((10 : Int) ^ k) = ((10 ^ k : Nat) : Int) := by push_cast; rfl
  rw [hcast, Int.natCast_dvd_natCast]
  exact ⟨fun h => ⟨_, by rw [Nat.mul_comm]; exact h.symm⟩, Nat.div_mul_cancel⟩

theorem clockFormOf_valid (hhour : hour ≤ 23) (hminute : minute ≤ 59) (hsecond : second ≤ 59) :
    (clockFormOf hour minute second nanos digits hasSecond).Valid := by
  have hvalue : ∀ {n : Nat}, n ≤ 59 → (fixedText 2 n).value = n := fun h => value_fixedText (by omega)
  refine ⟨(hvalue (n := hour) (by omega)).trans_le hhour, (hvalue hminute).trans_le hminute, ?_⟩
  simp only [clockFormOf, tailOf]
  split
  · split
    · exact (hvalue hsecond).trans_le hsecond
    · exact (hvalue hsecond).trans_le hsecond
  · exact Nat.zero_le _

/-- **What a printed clock reads back as.** -/
theorem clockFormOf_reads (hsecond : second ≤ 59) (hnanos : nanos < 1000000000) (hdigits : digits ≤ 9)
    (hzero : digits = 0 → nanos = 0) :
    ((clockFormOf hour minute second nanos digits hasSecond).clock.second = second ∧
      (clockFormOf hour minute second nanos digits hasSecond).clock.nanosecond = nanos) ↔
      PrecisionKept second nanos digits hasSecond := by
  have hvalue : (fixedText 2 second).value = second := value_fixedText (by omega)
  simp only [ClockForm.clock, clockFormOf]
  cases hasSecond with
  | false =>
    simp [tailOf, PrecisionKept, ClockTail.second, ClockTail.written, eq_comm]
  | true =>
    by_cases hpos : 0 < digits
    · have hnanoDigits : (9 - (digits : Int)).toNat = 9 - digits := by omega
      have htail : tailOf second nanos digits true = .fraction (fixedText 2 second) digits
          (fixedText digits (nanos / 10 ^ (9 - digits))) hpos hdigits := by
        simp [tailOf, hpos, hdigits]
      rw [htail]
      simp only [ClockTail.second, ClockTail.written, hvalue, true_and, text_fixedText,
        scaledToNine_fixed hnanos hdigits, PrecisionKept, if_true, hnanoDigits, Nat.cast_inj]
      exact div_mul_eq_iff nanos (9 - digits)
    · have hnone : digits = 0 := by omega
      have hnanosZero := hzero hnone
      subst hnone hnanosZero
      have htail : tailOf second 0 0 true = .seconds (fixedText 2 second) := by simp [tailOf]
      rw [htail]
      simp [ClockTail.second, ClockTail.written, hvalue, PrecisionKept]

end

/-- **A clock that passes the check** prints as a form, and reads back as itself when its precision covers
    it. -/
theorem validated_clock {hour minute second nanos digits : Int} (hasSecond : Bool)
    (h : validateLocalClock hour minute second nanos digits = .ok ()) :
    ∃ c : ClockForm, c.Valid ∧ appendTime hour minute second nanos digits hasSecond = c.text ∧
      c.clock.hour = hour ∧ c.clock.minute = minute ∧
      ((c.clock.second = second ∧ c.clock.nanosecond = nanos) ↔
        PrecisionKept second nanos digits hasSecond) := by
  rw [validateLocalClock_iff] at h
  obtain ⟨hhour, hminute, hsecond, hnanos, hdigits, hzero⟩ := h
  lift hour to Nat using hhour.1
  lift minute to Nat using hminute.1
  lift second to Nat using hsecond.1
  lift nanos to Nat using hnanos.1
  lift digits to Nat using hdigits.1
  norm_cast at hhour hminute hsecond hnanos hdigits hzero
  have hvalue : ∀ {n : Nat}, n ≤ 59 → (fixedText 2 n).value = n := fun h => value_fixedText (by omega)
  refine ⟨clockFormOf hour minute second nanos digits hasSecond,
    clockFormOf_valid hhour.2 hminute.2 hsecond.2,
    appendTime_eq hhour.2 hminute.2 hsecond.2 hnanos.2 hdigits.2, ?_, ?_,
    clockFormOf_reads hsecond.2 hnanos.2 hdigits.2 hzero⟩
  · exact congrArg Nat.cast (hvalue (n := hour) (by omega))
  · exact congrArg Nat.cast (hvalue hminute.2)

theorem daysInMonth_le (year month : Int) : daysInMonth year month ≤ 31 := by
  unfold daysInMonth
  split
  · decide
  split
  · decide
  split
  · split <;> decide
  · decide

/-- A calendar date prints as a form of itself. -/
theorem validated_date {year month day : Int} (h : validateDate year month day = .ok ()) :
    ∃ d : DateForm, d.Valid ∧ d.date = ⟨year, month, day⟩ ∧ appendDate year month day = d.text := by
  have hrange : (0 ≤ year ∧ year ≤ 9999) ∧ (1 ≤ month ∧ month ≤ 12) ∧ 1 ≤ day ∧ day ≤ 31 := by
    have hle := daysInMonth_le year month
    unfold validateDate at h
    split at h
    · cases h
    split at h
    · cases h
    split at h
    · cases h
    · omega
  obtain ⟨hyear, hmonth, hday⟩ := hrange
  lift year to Nat using hyear.1
  lift month to Nat using (by omega)
  lift day to Nat using (by omega)
  let d : DateForm := ⟨fixedText 4 year, fixedText 2 month, fixedText 2 day⟩
  have hdate : d.date = ⟨year, month, day⟩ := by
    simp only [d, DateForm.date]
    rw [value_fixedText (by omega), value_fixedText (by omega), value_fixedText (by omega)]
  refine ⟨d, ?_, hdate, ?_⟩
  · rwa [DateForm.Valid, hdate]
  · rw [← d.print, hdate]

/-- The exported fields of a local time agree. -/
def LocalTime.Same (s t : LocalTime) : Prop :=
  s.hour = t.hour ∧ s.minute = t.minute ∧ s.second = t.second ∧ s.nanosecond = t.nanosecond

/-- The exported fields of a local datetime agree. -/
def LocalDateTime.Same (s t : LocalDateTime) : Prop :=
  s.year = t.year ∧ s.month = t.month ∧ s.day = t.day ∧ s.hour = t.hour ∧ s.minute = t.minute ∧
    s.second = t.second ∧ s.nanosecond = t.nanosecond

theorem localTime_keeps_iff {t : LocalTime} {text : Bytes} (h : t.marshalText = .ok text) :
    (∃ s, parseLocalTime text = .ok s ∧ s.Same t) ↔
      PrecisionKept t.second t.nanosecond t.nanoDigits t.hasSecond := by
  unfold LocalTime.marshalText at h
  split at h
  · cases h
  rename_i hclock
  cases h
  obtain ⟨c, hc, htext, hhour, hminute, hreads⟩ := validated_clock t.hasSecond hclock
  have hparse : parseLocalTime c.text = .ok c.clock := parseLocalTime_iff.mpr ⟨c, hc, rfl, rfl⟩
  rw [htext, ← hreads]
  constructor
  · rintro ⟨s, hs, -, -, hsecond, hnanos⟩
    cases hparse.symm.trans hs
    exact ⟨hsecond, hnanos⟩
  · intro ⟨hsecond, hnanos⟩
    exact ⟨_, hparse, hhour, hminute, hsecond, hnanos⟩

theorem localDateTime_keeps_iff {t : LocalDateTime} {text : Bytes} (h : t.marshalText = .ok text) :
    (∃ s, parseLocalDateTime text = .ok s ∧ s.Same t) ↔
      PrecisionKept t.second t.nanosecond t.nanoDigits t.hasSecond := by
  unfold LocalDateTime.marshalText at h
  split at h
  · cases h
  rename_i hdate
  split at h
  · cases h
  rename_i hclock
  cases h
  obtain ⟨d, hd, hdateOf, hdateText⟩ := validated_date hdate
  obtain ⟨c, hc, htext, hhour, hminute, hreads⟩ := validated_clock t.hasSecond hclock
  have hparse : parseLocalDateTime (d.text ++ [0x54] ++ c.text) = .ok (localDateTimeOf d c) :=
    parseLocalDateTime_iff.mpr ⟨d, 0x54, c, hd, rfl, hc, by simp, rfl⟩
  rw [htext, hdateText, ← hreads]
  constructor
  · rintro ⟨s, hs, -, -, -, -, -, hsecond, hnanos⟩
    cases hparse.symm.trans hs
    exact ⟨hsecond, hnanos⟩
  · intro ⟨hsecond, hnanos⟩
    refine ⟨_, hparse, ?_, ?_, ?_, hhour, hminute, hsecond, hnanos⟩
    · exact congrArg LocalDate.year hdateOf
    · exact congrArg LocalDate.month hdateOf
    · exact congrArg LocalDate.day hdateOf

/-- **Decode after encode.** What `MarshalText` accepts comes back with the same exported fields exactly when
    the remembered precision covers the value. -/
theorem marshalText_keeps_iff (t : LocalTime) (dt : LocalDateTime) (text : Bytes) :
    (t.marshalText = .ok text →
      ((∃ s, parseLocalTime text = .ok s ∧ s.Same t) ↔
        PrecisionKept t.second t.nanosecond t.nanoDigits t.hasSecond)) ∧
    (dt.marshalText = .ok text →
      ((∃ s, parseLocalDateTime text = .ok s ∧ s.Same dt) ↔
        PrecisionKept dt.second dt.nanosecond dt.nanoDigits dt.hasSecond)) :=
  ⟨fun h => localTime_keeps_iff h, fun h => localDateTime_keeps_iff h⟩

/-- `LocalTime{Hour: 1, Minute: 2, Second: 3}` passes the check and prints without its seconds. -/
theorem marshalText_drops_seconds :
    LocalTime.marshalText ⟨1, 2, 3, 0, false, 0⟩ = .ok (ascii "01:02") ∧
      ¬ ∃ s, parseLocalTime (ascii "01:02") = .ok s ∧ s.Same ⟨1, 2, 3, 0, false, 0⟩ := by
  have hprint := @appendTime_eq 1 2 3 0 0 false (by decide) (by decide) (by decide) (by decide) (by decide)
  constructor
  · exact congrArg Except.ok hprint
  rintro ⟨s, hs, -, -, hsecond, -⟩
  have hparse : parseLocalTime (ascii "01:02") = .ok ⟨1, 2, 0, 0, false, 0⟩ := by decide
  cases hparse.symm.trans hs
  cases hsecond

theorem marshalText_keeps_millis :
    LocalTime.marshalText ⟨1, 2, 3, 40000000, true, 3⟩ = .ok (ascii "01:02:03.040") ∧
      ((∃ s, parseLocalTime (ascii "01:02:03.040") = .ok s ∧ s.Same ⟨1, 2, 3, 40000000, true, 3⟩) ↔
        PrecisionKept 3 40000000 3 true) := by
  have hprint := @appendTime_eq 1 2 3 40000000 3 true (by decide) (by decide) (by decide) (by decide)
    (by decide)
  have hmarshal : LocalTime.marshalText ⟨1, 2, 3, 40000000, true, 3⟩ = .ok (ascii "01:02:03.040") :=
    congrArg Except.ok (hprint.trans (by decide))
  exact ⟨hmarshal, (marshalText_keeps_iff _ ⟨2026, 1, 1, 1, 2, 3, 40000000, true, 3⟩ _).1 hmarshal⟩

end Pandaemonium.Toml
