import Pandaemonium.Lib.FixedDigits
import Pandaemonium.Toml.DateTime

/-!
# `Toml.DateTimeForms` — which texts are datetimes (`datetime_parse.go`)

The four parsers share two readers, of a date and of a clock, that take what they find at the front of a
text. What they find is a form: digits of a fixed count between separators (`DateForm`, `ClockForm`). Each
parser is characterised by the forms it accepts and the value it answers.
-/

namespace Pandaemonium.Toml

open Decimal (isDigit Digits)
open List

/-! ## Forms -/

/-- Exactly `width` digits. -/
structure DigitText (width : Nat) where
  text : Bytes
  digits : Digits text
  length : text.length = width

def DigitText.value {width : Nat} (s : DigitText width) : Nat := Decimal.value s.text

/-- The text `YYYY-MM-DD`. -/
structure DateForm where
  year : DigitText 4
  month : DigitText 2
  day : DigitText 2

def DateForm.text (f : DateForm) : Bytes :=
  f.year.text ++ 0x2D :: (f.month.text ++ 0x2D :: f.day.text)

def DateForm.date (f : DateForm) : LocalDate :=
  { year := f.year.value, month := f.month.value, day := f.day.value }

/-- What follows the minutes: nothing, `:SS`, or `:SS.` with one to nine digits. -/
inductive ClockTail where
  | minutes
  | seconds (s : DigitText 2)
  | fraction (s : DigitText 2) (n : Nat) (f : DigitText n) (pos : 0 < n) (le : n ≤ 9)

namespace ClockTail

def text : ClockTail → Bytes
  | minutes => []
  | seconds s => 0x3A :: s.text
  | fraction s _ f _ _ => 0x3A :: (s.text ++ 0x2E :: f.text)

def second : ClockTail → Nat
  | minutes => 0
  | seconds s => s.value
  | fraction s _ _ _ _ => s.value

/-- The digits of the fraction. -/
def written : ClockTail → Bytes
  | minutes => []
  | seconds _ => []
  | fraction _ _ f _ _ => f.text

/-- Where the form ends: the text that follows does not continue it. -/
def Ends : ClockTail → Bytes → Prop
  | minutes, rest => rest.head? ≠ some 0x3A
  | seconds _, rest => rest.head? ≠ some 0x2E
  | fraction _ _ _ _ _, rest => ∀ b, rest.head? = some b → isDigit b = false

end ClockTail

/-- Digits after the point, as nanoseconds. -/
def scaledToNine (frac : Bytes) : Nat :=
  Decimal.value (frac ++ List.replicate (9 - frac.length) 0x30)

/-- The text `HH:MM` with its tail. -/
structure ClockForm where
  hour : DigitText 2
  minute : DigitText 2
  tail : ClockTail

def ClockForm.text (f : ClockForm) : Bytes :=
  f.hour.text ++ 0x3A :: (f.minute.text ++ f.tail.text)

def ClockForm.clock (f : ClockForm) : LocalTime :=
  { hour := f.hour.value, minute := f.minute.value, second := f.tail.second
    nanosecond := scaledToNine f.tail.written
    hasSecond := 0 < f.tail.text.length, nanoDigits := f.tail.written.length }

/-- The numbers of a form are those of a day. -/
structure ClockForm.Valid (f : ClockForm) : Prop where
  hour : f.hour.value ≤ 23
  minute : f.minute.value ≤ 59
  second : f.tail.second ≤ 59

/-! ## Reading digits -/

theorem parseFixedDigits_iff {s : Bytes} {v : Int} :
    parseFixedDigits s = some v ↔ Digits s ∧ v = Decimal.value s := by
  unfold parseFixedDigits
  split
  · rename_i h
    rw [all_eq_true] at h
    simp only [Option.some.injEq, Digits]
    exact ⟨fun hv => ⟨h, hv.symm⟩, fun hv => hv.2.symm⟩
  · rename_i h
    rw [all_eq_true] at h
    simp [Digits, h]

variable {raw : Bytes}

/-- Digits at a position are a piece of the text. -/
theorem parseFixedDigits_piece {off width : Nat} {v : Int}
    (h : parseFixedDigits ((raw.drop off).take width) = some v) (hlength : off + width ≤ raw.length) :
    ∃ s : DigitText width, v = s.value ∧ raw.drop off = s.text ++ raw.drop (off + width) := by
  obtain ⟨hdigits, hv⟩ := parseFixedDigits_iff.mp h
  refine ⟨⟨_, hdigits, ?_⟩, hv, ?_⟩
  · rw [length_take, length_drop]
    omega
  · rw [← drop_drop]
    exact (take_append_drop width (raw.drop off)).symm

/-- A byte at a position, likewise. -/
theorem drop_of_getElem {off : Nat} {b : UInt8} (h : raw[off]? = some b) :
    raw.drop off = b :: raw.drop (off + 1) := by
  obtain ⟨hlt, rfl⟩ := List.getElem?_eq_some_iff.mp h
  exact drop_eq_getElem_cons hlt

theorem DigitText.parse {width : Nat} (s : DigitText width) : parseFixedDigits s.text = some (s.value : Int) :=
  parseFixedDigits_iff.mpr ⟨s.digits, rfl⟩

theorem DigitText.drop_eq_nil {width k : Nat} (s : DigitText width) (h : width ≤ k) : s.text.drop k = [] :=
  drop_eq_nil_of_le (by rw [s.length]; exact h)

theorem DateForm.length_text (f : DateForm) : f.text.length = 10 := by
  simp [DateForm.text, f.year.length, f.month.length, f.day.length]

/-- The date of a form is one of the calendar. -/
def DateForm.Valid (f : DateForm) : Prop := validateDate f.date.year f.date.month f.date.day = .ok ()

/-- The reader at the front of a text that starts with a form. -/
theorem DateForm.parse (f : DateForm) (rest : Bytes) (h : f.Valid) :
    parseDatePrefix (f.text ++ rest) = .ok (f.date, 10) := by
  have hlength : ¬ (f.text ++ rest).length < 10 := by
    rw [length_append, f.length_text]
    omega
  have hfirst : (f.text ++ rest)[4]? = some 0x2D := by
    simp [DateForm.text, f.year.length]
  have hsecond : (f.text ++ rest)[7]? = some 0x2D := by
    simp [DateForm.text, getElem?_append, f.year.length, f.month.length]
  have hyear : (f.text ++ rest).take 4 = f.year.text := by
    simp [DateForm.text, f.year.length]
  have hmonth : ((f.text ++ rest).drop 5).take 2 = f.month.text := by
    simp [DateForm.text, take_append, drop_append, f.year.length, f.month.length]
  have hday : ((f.text ++ rest).drop 8).take 2 = f.day.text := by
    simp [DateForm.text, drop_append, f.year.length, f.month.length, f.day.length,
      f.year.drop_eq_nil, f.month.drop_eq_nil]
  unfold parseDatePrefix
  rw [if_neg hlength, if_neg (by simp [hfirst, hsecond]), hyear, hmonth, hday, f.year.parse,
    f.month.parse, f.day.parse]
  simp only [show validateDate f.year.value f.month.value f.day.value = .ok () from h]
  rfl

/-- **The reader of dates** takes a form at the front and leaves the rest. -/
theorem parseDatePrefix_inv {date : LocalDate} {next : Nat} (h : parseDatePrefix raw = .ok (date, next)) :
    ∃ f : DateForm, f.Valid ∧ date = f.date ∧ next = 10 ∧ raw = f.text ++ raw.drop 10 := by
  unfold parseDatePrefix at h
  split at h
  · cases h
  rename_i hlength
  split at h
  · cases h
  rename_i hseparators
  simp only [not_or, not_not] at hseparators
  split at h
  · cases h
  rename_i year hyear
  split at h
  · cases h
  rename_i month hmonth
  split at h
  · cases h
  rename_i day hday
  split at h
  · cases h
  rename_i hvalid
  cases h
  obtain ⟨year, rfl, h4⟩ := @parseFixedDigits_piece raw 0 4 _ hyear (by omega)
  obtain ⟨month, rfl, h7⟩ := parseFixedDigits_piece hmonth (by omega)
  obtain ⟨day, rfl, h10⟩ := parseFixedDigits_piece hday (by omega)
  refine ⟨⟨year, month, day⟩, hvalid, rfl, rfl, ?_⟩
  rw [drop_zero, Nat.zero_add, drop_of_getElem hseparators.1, h7, drop_of_getElem hseparators.2, h10] at h4
  simpa [DateForm.text] using h4

/-! ## The clock -/

theorem scaledToNine_eq (frac : Bytes) : scaledToNine frac = Decimal.value frac * 10 ^ (9 - frac.length) := by
  rw [scaledToNine, Decimal.value_append, Decimal.value_zeros, length_replicate, Nat.add_zero]

theorem scaledToNine_lt {frac : Bytes} (hdigits : Digits frac) (h : frac.length ≤ 9) :
    scaledToNine frac < 1000000000 := by
  have hlt := Decimal.value_lt (hdigits.append (Decimal.digits_zeros (9 - frac.length)))
  rwa [length_append, length_replicate, Nat.add_sub_cancel' h] at hlt

theorem ClockTail.written_digits (tail : ClockTail) : Digits tail.written ∧ tail.written.length ≤ 9 := by
  cases tail with
  | minutes | seconds s => exact ⟨forall_mem_nil _, Nat.zero_le _⟩
  | fraction s n f pos le => exact ⟨f.digits, f.length.trans_le le⟩

theorem getElem_past (head t : Bytes) (k : Nat) : (head ++ t)[head.length + k]? = t[k]? := by
  rw [getElem?_append_right (Nat.le_add_right _ _), Nat.add_sub_cancel_left]

theorem drop_past (head t : Bytes) (k : Nat) : (head ++ t).drop (head.length + k) = t.drop k :=
  drop_length_add_append k

theorem takeWhile_digits {s rest : Bytes} (hs : Digits s)
    (hrest : ∀ b, rest.head? = some b → isDigit b = false) : (s ++ rest).takeWhile isDigit = s := by
  rw [takeWhile_append_of_pos hs]
  cases rest with
  | nil => simp
  | cons b t => rw [takeWhile_cons, hrest b rfl]; simp

/-- The reader of a tail past the two digits of the seconds. -/
theorem parseClockSubseconds_seconds (head more : Bytes) (s : DigitText 2) :
    parseClockSubseconds (head ++ 0x3A :: (s.text ++ more)) head.length =
      if more.head? ≠ some 0x2E then .ok (s.value, 0, 0, head.length + 3)
      else
        let frac := (more.drop 1).takeWhile isDigit
        if frac = [] then .error "toml: empty fractional second"
        else if frac.length > 9 then .error "toml: fractional second precision exceeds nanoseconds"
        else .ok (s.value, Decimal.value frac * 10 ^ (9 - frac.length), frac.length,
          head.length + 4 + frac.length) := by
  have hcolon := getElem_past head (0x3A :: (s.text ++ more)) 0
  have hs : ((head ++ 0x3A :: (s.text ++ more)).drop (head.length + 1)).take 2 = s.text := by
    rw [drop_past]
    simp [s.length]
  have hpoint : (head ++ 0x3A :: (s.text ++ more))[head.length + 1 + 2]? = more.head? := by
    rw [Nat.add_assoc, getElem_past]
    simp [getElem?_append, s.length, head?_eq_getElem?]
  have hfrac : (head ++ 0x3A :: (s.text ++ more)).drop (head.length + 1 + 2 + 1) = more.drop 1 := by
    rw [Nat.add_assoc, Nat.add_assoc, drop_past]
    simp [drop_append, s.length, s.drop_eq_nil]
  have hlength : ¬ (head ++ 0x3A :: (s.text ++ more)).length - (head.length + 1) < 2 := by
    simp [s.length]
    omega
  unfold parseClockSubseconds
  rw [if_neg (by rw [← Nat.add_zero head.length, hcolon]; simp)]
  simp only [if_neg hlength, hs, s.parse, hpoint, hfrac]

/-- The reader of a tail, at the front of what follows the minutes. -/
theorem ClockTail.parse (tail : ClockTail) (head rest : Bytes) (hends : tail.Ends rest) :
    parseClockSubseconds (head ++ (tail.text ++ rest)) head.length =
      .ok (tail.second, scaledToNine tail.written, tail.written.length,
        head.length + tail.text.length) := by
  cases tail with
  | minutes =>
    have hfirst := getElem_past head rest 0
    unfold parseClockSubseconds
    rw [text, nil_append, if_pos]
    · rfl
    · rwa [← Nat.add_zero head.length, hfirst, ← head?_eq_getElem?]
  | seconds s =>
    rw [text, cons_append, parseClockSubseconds_seconds, if_pos (by exact hends), length_cons, s.length]
    rfl
  | fraction s n f pos le =>
    have hne : f.text ≠ [] := fun hnil => by
      have := f.length
      rw [hnil, length_nil] at this
      omega
    have hwhile : (f.text ++ rest).takeWhile isDigit = f.text := takeWhile_digits f.digits hends
    rw [text, cons_append, append_assoc, cons_append, parseClockSubseconds_seconds, if_neg (by simp)]
    simp only [drop_succ_cons, drop_zero, hwhile, if_neg hne]
    rw [if_neg (by rw [f.length]; omega)]
    simp only [second, written, scaledToNine_eq, length_cons, length_append, s.length,
      Nat.cast_mul, Nat.cast_pow, Nat.cast_ofNat]
    rw [show head.length + 4 + f.text.length = head.length + (2 + (f.text.length + 1) + 1) by omega]

/-- The digits at a position, and what follows them. -/
theorem digits_at (raw : Bytes) (off : Nat) :
    raw.drop off = (raw.drop off).takeWhile isDigit ++
        raw.drop (off + ((raw.drop off).takeWhile isDigit).length) ∧
      ∀ b, (raw.drop (off + ((raw.drop off).takeWhile isDigit).length)).head? = some b →
        isDigit b = false := by
  have hsplit := takeWhile_append_dropWhile (p := isDigit) (l := raw.drop off)
  have hdrop : raw.drop (off + ((raw.drop off).takeWhile isDigit).length) =
      (raw.drop off).dropWhile isDigit := by
    rw [← drop_drop]
    nth_rewrite 2 [← hsplit]
    exact drop_left
  rw [hdrop]
  refine ⟨hsplit.symm, fun b hb => ?_⟩
  have hhead := head?_dropWhile_not isDigit (raw.drop off)
  rwa [hb] at hhead

/-- **The reader of tails** takes one and leaves what does not continue it. -/
theorem parseClockSubseconds_inv {off next : Nat} {second nanos digits : Int}
    (h : parseClockSubseconds raw off = .ok (second, nanos, digits, next)) :
    ∃ tail : ClockTail, second = tail.second ∧ nanos = scaledToNine tail.written ∧
      digits = tail.written.length ∧ next = off + tail.text.length ∧
      raw.drop off = tail.text ++ raw.drop next ∧ tail.Ends (raw.drop next) := by
  unfold parseClockSubseconds at h
  split at h
  · rename_i hcolon
    cases h
    refine ⟨.minutes, rfl, rfl, rfl, rfl, rfl, ?_⟩
    rwa [ClockTail.Ends, head?_drop]
  · rename_i hcolon
    rw [not_not] at hcolon
    simp only at h
    split at h
    · cases h
    rename_i hlength
    split at h
    · cases h
    rename_i sec hsec
    obtain ⟨s, rfl, hpiece⟩ := parseFixedDigits_piece hsec (by omega)
    split at h
    · rename_i hpoint
      cases h
      refine ⟨.seconds s, rfl, rfl, rfl, ?_, ?_, ?_⟩
      · rw [ClockTail.text, length_cons, s.length]
      · rw [drop_of_getElem hcolon, hpiece]
        rfl
      · rwa [ClockTail.Ends, head?_drop]
    · rename_i hpoint
      rw [not_not] at hpoint
      split at h
      · cases h
      rename_i hne
      split at h
      · cases h
      rename_i hle
      cases h
      obtain ⟨hfrac, hend⟩ := digits_at raw (off + 1 + 2 + 1)
      have hpos := length_pos_iff.mpr hne
      refine ⟨.fraction s _ ⟨_, fun b hb => mem_takeWhile_imp hb, rfl⟩ hpos (by omega), rfl,
        ?_, rfl, ?_, ?_, hend⟩
      · rw [ClockTail.written, scaledToNine_eq]
        push_cast
        rfl
      · simp only [ClockTail.text, length_cons, length_append, s.length]
        omega
      · rw [drop_of_getElem hcolon, hpiece, drop_of_getElem hpoint]
        nth_rewrite 1 [hfrac]
        simp [ClockTail.text]

theorem validateLocalClock_iff {hour minute second nanos digits : Int} :
    validateLocalClock hour minute second nanos digits = .ok () ↔
      (0 ≤ hour ∧ hour ≤ 23) ∧ (0 ≤ minute ∧ minute ≤ 59) ∧ (0 ≤ second ∧ second ≤ 59) ∧
        (0 ≤ nanos ∧ nanos < 1000000000) ∧ (0 ≤ digits ∧ digits ≤ 9) ∧ (digits = 0 → nanos = 0) := by
  unfold validateLocalClock
  constructor
  · intro h
    split at h
    · cases h
    split at h
    · cases h
    split at h
    · cases h
    split at h
    · cases h
    split at h
    · cases h
    split at h
    · cases h
    · omega
  · intro ⟨hhour, hminute, hsecond, hnanos, hdigits, hzero⟩
    rw [if_neg (by omega), if_neg (by omega), if_neg (by omega), if_neg (by omega), if_neg (by omega),
      if_neg (by omega)]

theorem ClockForm.validate_iff (f : ClockForm) :
    validateLocalClock f.clock.hour f.clock.minute f.clock.second f.clock.nanosecond f.clock.nanoDigits =
      .ok () ↔ f.Valid := by
  obtain ⟨hdigits, hle⟩ := f.tail.written_digits
  have hlt := scaledToNine_lt hdigits hle
  -- without digits the fraction is zero, so the last check passes too
  have hzero : f.tail.written.length = 0 → scaledToNine f.tail.written = 0 := by
    intro h
    rw [length_eq_zero_iff.mp h]
    rfl
  rw [validateLocalClock_iff]
  simp only [ClockForm.clock]
  constructor
  · rintro ⟨hhour, hminute, hsecond, -⟩
    exact ⟨by omega, by omega, by omega⟩
  · intro ⟨hhour, hminute, hsecond⟩
    omega

theorem ClockForm.length_text (f : ClockForm) : f.text.length = 5 + f.tail.text.length := by
  simp [ClockForm.text, f.hour.length, f.minute.length]
  omega

theorem ClockForm.parse (f : ClockForm) (rest : Bytes) (hends : f.tail.Ends rest) (hvalid : f.Valid) :
    parseTimePrefix (f.text ++ rest) = .ok (f.clock, f.text.length) := by
  have hlength : ¬ (f.text ++ rest).length < 5 := by
    rw [length_append, f.length_text]
    omega
  have hcolon : (f.text ++ rest)[2]? = some 0x3A := by
    simp [ClockForm.text, f.hour.length]
  have hhour : (f.text ++ rest).take 2 = f.hour.text := by
    simp [ClockForm.text, f.hour.length]
  have hminute : ((f.text ++ rest).drop 3).take 2 = f.minute.text := by
    simp [ClockForm.text, drop_append, f.hour.length, f.minute.length, f.hour.drop_eq_nil]
  have htail : parseClockSubseconds (f.text ++ rest) 5 =
      .ok (f.tail.second, scaledToNine f.tail.written, f.tail.written.length, f.text.length) := by
    have h := f.tail.parse (f.hour.text ++ 0x3A :: f.minute.text) rest hends
    rw [f.length_text]
    simpa [ClockForm.text, f.hour.length, f.minute.length] using h
  have hcheck := f.validate_iff.mpr hvalid
  simp only [ClockForm.clock] at hcheck
  unfold parseTimePrefix
  rw [if_neg hlength, if_neg (not_not.mpr hcolon), hhour, hminute, f.hour.parse, f.minute.parse]
  simp only [htail, hcheck]
  simp [ClockForm.clock, f.length_text]

/-- **The reader of clocks** takes a form at the front and leaves what does not continue it. -/
theorem parseTimePrefix_inv {clock : LocalTime} {next : Nat} (h : parseTimePrefix raw = .ok (clock, next)) :
    ∃ f : ClockForm, f.Valid ∧ clock = f.clock ∧ next = f.text.length ∧ raw = f.text ++ raw.drop next ∧
      f.tail.Ends (raw.drop next) := by
  unfold parseTimePrefix at h
  split at h
  · cases h
  rename_i hlength
  split at h
  · cases h
  rename_i hcolon
  rw [not_not] at hcolon
  split at h
  · cases h
  rename_i hour hhour
  split at h
  · cases h
  rename_i minute hminute
  split at h
  · cases h
  rename_i second nanos nanoDigits next htail
  split at h
  · cases h
  rename_i hcheck
  cases h
  obtain ⟨hour, rfl, h2⟩ := @parseFixedDigits_piece raw 0 2 _ hhour (by omega)
  obtain ⟨minute, rfl, h5⟩ := parseFixedDigits_piece hminute (by omega)
  obtain ⟨tail, rfl, rfl, rfl, rfl, hrest, hends⟩ := parseClockSubseconds_inv htail
  let f : ClockForm := ⟨hour, minute, tail⟩
  refine ⟨f, f.validate_iff.mp hcheck, ?_, f.length_text.symm, ?_, hends⟩
  · simp [f, ClockForm.clock]
  · rw [drop_zero, Nat.zero_add, drop_of_getElem hcolon, h5, hrest] at h2
    simpa [f, ClockForm.text] using h2

/-! ## The four parsers -/

theorem ClockTail.ends_nil (tail : ClockTail) : tail.Ends [] := by
  cases tail <;> simp [ClockTail.Ends]

theorem parseLocalDate_iff {d : LocalDate} :
    parseLocalDate raw = .ok d ↔ ∃ f : DateForm, f.Valid ∧ raw = f.text ∧ d = f.date := by
  constructor
  · intro h
    unfold parseLocalDate at h
    split at h
    · cases h
    rename_i date next hleads
    obtain ⟨f, hvalid, rfl, rfl, hraw⟩ := parseDatePrefix_inv hleads
    split at h
    · cases h
    rename_i hlength
    cases h
    rw [not_not] at hlength
    rw [hlength, drop_length, append_nil] at hraw
    exact ⟨f, hvalid, hraw, rfl⟩
  · rintro ⟨f, hvalid, rfl, rfl⟩
    have hleads := f.parse [] hvalid
    rw [append_nil] at hleads
    unfold parseLocalDate
    rw [hleads]
    simp [f.length_text]

theorem parseLocalTime_iff {t : LocalTime} :
    parseLocalTime raw = .ok t ↔ ∃ f : ClockForm, f.Valid ∧ raw = f.text ∧ t = f.clock := by
  constructor
  · intro h
    unfold parseLocalTime at h
    split at h
    · cases h
    rename_i clock next hleads
    obtain ⟨f, hvalid, rfl, rfl, hraw, -⟩ := parseTimePrefix_inv hleads
    split at h
    · cases h
    rename_i hlength
    cases h
    rw [not_not] at hlength
    rw [hlength, drop_length, append_nil] at hraw
    exact ⟨f, hvalid, hraw, rfl⟩
  · rintro ⟨f, hvalid, rfl, rfl⟩
    have hleads := f.parse [] f.tail.ends_nil hvalid
    rw [append_nil] at hleads
    unfold parseLocalTime
    rw [hleads]
    simp

/-- The value of a date form and a clock form together. -/
def localDateTimeOf (d : DateForm) (c : ClockForm) : LocalDateTime :=
  { year := d.date.year, month := d.date.month, day := d.date.day
    hour := c.clock.hour, minute := c.clock.minute, second := c.clock.second
    nanosecond := c.clock.nanosecond, hasSecond := c.clock.hasSecond
    nanoDigits := c.clock.nanoDigits }

theorem drop_date (d : DateForm) (sep : UInt8) (rest : Bytes) :
    (d.text ++ sep :: rest)[10]? = some sep ∧ (d.text ++ sep :: rest).drop 11 = rest := by
  have hlength := d.length_text
  constructor
  · rw [← hlength, ← Nat.add_zero d.text.length, getElem_past]
    rfl
  · rw [show 11 = d.text.length + 1 by rw [hlength], drop_past]
    rfl

/-- A separator behind the date. -/
theorem separator_inv (h : ¬ (!(raw[10]?.any isDateTimeSeparator)) = true) :
    ∃ sep, isDateTimeSeparator sep = true ∧ raw.drop 10 = sep :: raw.drop 11 := by
  cases hsep : raw[10]? with
  | none => simp [hsep] at h
  | some sep => exact ⟨sep, by simpa [hsep] using h, drop_of_getElem hsep⟩

theorem parseLocalDateTime_iff {t : LocalDateTime} :
    parseLocalDateTime raw = .ok t ↔
      ∃ (d : DateForm) (sep : UInt8) (c : ClockForm), d.Valid ∧ isDateTimeSeparator sep = true ∧ c.Valid ∧
        raw = d.text ++ sep :: c.text ∧ t = localDateTimeOf d c := by
  constructor
  · intro h
    unfold parseLocalDateTime at h
    split at h
    · cases h
    rename_i date timeStart hdate
    obtain ⟨d, hd, rfl, rfl, hraw⟩ := parseDatePrefix_inv hdate
    split at h
    · cases h
    rename_i hsep
    obtain ⟨sep, hsep, hrest⟩ := separator_inv hsep
    split at h
    · cases h
    rename_i clock next htime
    obtain ⟨c, hc, rfl, rfl, hclock, -⟩ := parseTimePrefix_inv htime
    split at h
    · cases h
    rename_i hlength
    cases h
    rw [not_not] at hlength
    rw [drop_drop, hlength, drop_length, append_nil] at hclock
    rw [hrest, hclock] at hraw
    exact ⟨d, sep, c, hd, hsep, hc, hraw, rfl⟩
  · rintro ⟨d, sep, c, hd, hsep, hc, rfl, rfl⟩
    obtain ⟨hten, hdrop⟩ := drop_date d sep c.text
    have htime := c.parse [] c.tail.ends_nil hc
    rw [append_nil] at htime
    unfold parseLocalDateTime
    rw [d.parse _ hd]
    simp only [hten, hdrop, htime, Option.any_some, hsep]
    simp [d.length_text, localDateTimeOf]
    omega

/-- The text of a zone: `Z`, `z`, or a sign with hours and minutes. -/
inductive ZoneForm where
  | utc (letter : UInt8) (h : letter = 0x5A ∨ letter = 0x7A)
  | fixed (sign : UInt8) (h : sign = 0x2B ∨ sign = 0x2D) (hour minute : DigitText 2)

def ZoneForm.text : ZoneForm → Bytes
  | utc letter _ => [letter]
  | fixed sign _ hour minute => sign :: (hour.text ++ 0x3A :: minute.text)

theorem parseZone_inv {zone : Zone} (h : parseZone raw = .ok zone) : ∃ z : ZoneForm, raw = z.text := by
  unfold parseZone at h
  split at h
  · rename_i hutc
    rcases hutc with rfl | rfl
    · exact ⟨.utc 0x5A (.inl rfl), rfl⟩
    · exact ⟨.utc 0x7A (.inr rfl), rfl⟩
  · split at h
    · cases h
    rename_i hshape
    simp only [not_or, not_and, not_not] at hshape
    obtain ⟨hlength, hsign, hcolon⟩ := hshape
    split at h
    · cases h
    rename_i hour hhour
    split at h
    · cases h
    rename_i minute hminute
    obtain ⟨hour, -, h3⟩ := parseFixedDigits_piece hhour (by omega)
    obtain ⟨minute, -, h6⟩ := parseFixedDigits_piece hminute (by omega)
    have hend : raw.drop (4 + 2) = [] := drop_eq_nil_of_le (by omega)
    rw [hend, append_nil] at h6
    rw [drop_of_getElem hcolon, h6] at h3
    by_cases hplus : raw[0]? = some 0x2B
    · exact ⟨.fixed _ (.inl rfl) hour minute, (drop_of_getElem hplus).trans (by rw [h3]; rfl)⟩
    · exact ⟨.fixed _ (.inr rfl) hour minute, (drop_of_getElem (hsign hplus)).trans (by rw [h3]; rfl)⟩

theorem parseOffsetDateTime_inv {t : OffsetDateTime} (h : parseOffsetDateTime raw = .ok t) :
    ∃ (d : DateForm) (sep : UInt8) (c : ClockForm) (z : ZoneForm), d.Valid ∧
      isDateTimeSeparator sep = true ∧ c.Valid ∧ c.tail.Ends z.text ∧
      raw = d.text ++ sep :: (c.text ++ z.text) ∧ t.date = d.date ∧ t.hour = c.clock.hour ∧
      t.minute = c.clock.minute ∧ t.second = c.clock.second ∧ t.nanosecond = c.clock.nanosecond := by
  unfold parseOffsetDateTime at h
  split at h
  · cases h
  rename_i date timeStart hdate
  obtain ⟨d, hd, rfl, rfl, hraw⟩ := parseDatePrefix_inv hdate
  split at h
  · cases h
  rename_i hsep
  obtain ⟨sep, hsep, hrest⟩ := separator_inv hsep
  split at h
  · cases h
  rename_i clock next htime
  obtain ⟨c, hc, rfl, rfl, hclock, hends⟩ := parseTimePrefix_inv htime
  simp only at h
  split at h
  · cases h
  split at h
  · cases h
  rename_i zone hzone
  cases h
  obtain ⟨z, hz⟩ := parseZone_inv hzone
  rw [drop_drop, hz] at hclock hends
  rw [hrest, hclock] at hraw
  exact ⟨d, sep, c, z, hd, hsep, hc, hends, hraw, rfl, rfl, rfl, rfl, rfl⟩

end Pandaemonium.Toml
