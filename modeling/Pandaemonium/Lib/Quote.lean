import Pandaemonium.Lib.Utf8

/-!
# `Lib.Quote` — quoting a text with escapes (`strconv.Quote`)

A text is quoted rune by rune: printable runes are written as they are, the quote and the backslash with
a backslash before them, the rest as escapes. Which runes past U+00FF are printable is a table of the
Unicode data, here a parameter.
-/

namespace Pandaemonium.Quote

open List

/-- A lower-case hexadecimal digit. -/
def hexDigit (n : Nat) : UInt8 := if n < 10 then UInt8.ofNat (0x30 + n) else UInt8.ofNat (0x57 + n)

/-- The last `width` hexadecimal digits of `n`. -/
def hexDigits (width n : Nat) : Bytes :=
  (List.range width).map (fun i => hexDigit (n / 16 ^ (width - 1 - i) % 16))

/-- `strconv.IsPrint`: up to U+00FF by range, past it by `printable`. -/
def isPrint (printable : Nat → Bool) (r : Nat) : Bool :=
  if r ≤ 0xFF then (0x20 ≤ r && r < 0x7F) || (0xA1 ≤ r && r != 0xAD) else printable r

/-- The letter of a short escape. -/
def shortEscape (r : Nat) : Option UInt8 :=
  if r = 0x07 then some 0x61
  else if r = 0x08 then some 0x62
  else if r = 0x0C then some 0x66
  else if r = 0x0A then some 0x6E
  else if r = 0x0D then some 0x72
  else if r = 0x09 then some 0x74
  else if r = 0x0B then some 0x76
  else none

/-- `appendEscapedRune` with `"` as the quote. -/
def escapedRune (printable : Nat → Bool) (r : Nat) : Bytes :=
  if r = 0x22 ∨ r = 0x5C then [0x5C, UInt8.ofNat r]
  else if isPrint printable r then Utf8.encodeRune r
  else
    match shortEscape r with
    | some c => [0x5C, c]
    | none =>
      if r < 0x20 ∨ r = 0x7F then 0x5C :: 0x78 :: hexDigits 2 r
      else if !Utf8.validRune r then 0x5C :: 0x75 :: hexDigits 4 Utf8.runeError
      else if r < 0x10000 then 0x5C :: 0x75 :: hexDigits 4 r
      else 0x5C :: 0x55 :: hexDigits 8 r

/-- The text between the quotes; a byte that is no UTF-8 is written by its number. -/
def quoteBody (printable : Nat → Bool) (s : Bytes) : Bytes :=
  match s with
  | [] => []
  | b :: t =>
    let d := Utf8.decodeRune (b :: t)
    if Utf8.isBad d then 0x5C :: 0x78 :: (hexDigits 2 b.toNat ++ quoteBody printable t)
    else escapedRune printable d.1 ++ quoteBody printable ((b :: t).drop d.2)
termination_by s.length
decreasing_by
  · simp
  · exact Bytes.length_drop_lt Utf8.decodeRune_width_pos

/-- **`strconv.Quote`.** -/
def quote (printable : Nat → Bool) (s : Bytes) : Bytes := 0x22 :: (quoteBody printable s ++ [0x22])

/-! ## Rune by rune -/

theorem quoteBody_sequence (printable : Nat → Bool) {bs : Bytes} {r : Nat} (h : Utf8.Sequence bs r)
    (t : Bytes) : quoteBody printable (bs ++ t) = escapedRune printable r ++ quoteBody printable t := by
  have hdecode := h.decodeRune_append t
  have hgood := h.not_isBad
  obtain ⟨b, bs', rfl⟩ := h.ne_nil
  rw [cons_append] at hdecode ⊢
  rw [quoteBody]
  simp only [hdecode, hgood, Bool.false_eq_true, if_false]
  rw [← cons_append, drop_left]

/-- **A valid text is quoted rune by rune.** -/
theorem quoteBody_runes (printable : Nat → Bool) {rs : List Nat} (h : ∀ r ∈ rs, Utf8.validRune r = true) :
    quoteBody printable (rs.flatMap Utf8.encodeRune) = rs.flatMap (escapedRune printable) := by
  induction rs with
  | nil => simp [quoteBody]
  | cons r rs ih =>
    have hr := Utf8.sequence_encodeRune (h r mem_cons_self)
    rw [flatMap_cons, flatMap_cons, quoteBody_sequence printable hr,
      ih (fun r' hr' => h r' (mem_cons_of_mem r hr'))]

/-! ## Hexadecimal digits -/

theorem length_hexDigits (width n : Nat) : (hexDigits width n).length = width := by
  simp [hexDigits]

theorem hexDigits_succ (width n : Nat) :
    hexDigits (width + 1) n = hexDigit (n / 16 ^ width % 16) :: hexDigits width n := by
  unfold hexDigits
  rw [range_succ_eq_map, map_cons, map_map]
  congr 1
  refine map_congr_left (fun i _ => ?_)
  show hexDigit (n / 16 ^ (width + 1 - 1 - (i + 1)) % 16) = _
  rw [show width + 1 - 1 - (i + 1) = width - 1 - i by omega]

end Pandaemonium.Quote
