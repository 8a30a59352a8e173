import Pandaemonium.Lib.Decimal

/-!
# `Lib.Float64` — decimal text to IEEE 754 binary64

`parseFloat` reads a decimal floating-point literal and answers the bit pattern of the nearest binary64,
ties to even; `none` for malformed text and for a value past the largest finite one. The value is
computed exactly, as a quotient of naturals, and rounded once.
-/

namespace Pandaemonium.Float64

open Decimal (isDigit)

/-- `⌊log₂ (num / den)⌋` for positive `num` and `den`. -/
def floorLog2 (num den : Nat) : Int :=
  let k : Int := (num.log2 : Int) - den.log2
  if num * 2 ^ (-k).toNat < den * 2 ^ k.toNat then k - 1 else k

/-- `num / den`, rounded to the nearest integer, ties to even. -/
def roundHalfEven (num den : Nat) : Nat :=
  let q := num / den
  let r := num % den
  if 2 * r < den then q else if 2 * r = den then q + q % 2 else q + 1

/-- The bit pattern of the binary64 nearest to `num / den`; `none` past the finite range. -/
def roundBits (num den : Nat) : Option Nat :=
  if num = 0 then some 0
  else
    let e : Int := max (floorLog2 num den - 52) (-1074)
    let m := roundHalfEven (num * 2 ^ (-e).toNat) (den * 2 ^ e.toNat)
    -- `m` carries the hidden bit; adding it to the shifted exponent handles the carry and subnormals
    let bits := (e + 1074).toNat * 2 ^ 52 + m
    if bits < 0x7FF * 2 ^ 52 then some bits else none

/-- Exponent digits, read no further once the value has five digits. -/
def exponentValue (s : Bytes) : Nat :=
  s.foldl (fun e b => if e < 10000 then e * 10 + (b.toNat - 0x30) else e) 0

/-- `e[+-]digits`, or nothing. -/
def exponent (s : Bytes) : Option Int :=
  match s with
  | [] => some 0
  | c :: t =>
    if c = 0x65 ∨ c = 0x45 then
      let neg := t.head? = some 0x2D
      let digits := if neg ∨ t.head? = some 0x2B then t.drop 1 else t
      if digits = [] ∨ !digits.all isDigit then none
      else some (if neg then -(exponentValue digits : Int) else exponentValue digits)
    else none

/-- `strconv.ParseFloat(s, 64)` on decimal literals. -/
def parseFloat (s : Bytes) : Option Nat :=
  let neg := s.head? = some 0x2D
  let s := if neg ∨ s.head? = some 0x2B then s.drop 1 else s
  let whole := s.takeWhile isDigit
  let s := s.dropWhile isDigit
  let frac := if s.head? = some 0x2E then (s.drop 1).takeWhile isDigit else []
  let s := if s.head? = some 0x2E then (s.drop 1).dropWhile isDigit else s
  if whole ++ frac = [] then none
  else
    match exponent s with
    | none => none
    | some e =>
      let mant := Decimal.value (whole ++ frac)
      let exp10 := e - frac.length
      match roundBits (mant * 10 ^ exp10.toNat) (10 ^ (-exp10).toNat) with
      | none => none
      | some bits => some (if neg then 2 ^ 63 + bits else bits)

end Pandaemonium.Float64
