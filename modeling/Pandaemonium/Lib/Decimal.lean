import Pandaemonium.Lib.Bytes

/-!
# `Lib.Decimal` — decimal digits

`render` writes a number in decimal and `value` reads a digit string back; `renderPadded` fills up with
zeros on the left. `value_render` is the round trip.
-/

namespace Pandaemonium.Decimal

/-- An ASCII digit. -/
def isDigit (b : UInt8) : Bool := 0x30 ≤ b && b ≤ 0x39

/-- The digit byte of `n < 10`. -/
def digit (n : Nat) : UInt8 := UInt8.ofNat (0x30 + n)

/-- The number a digit string stands for, after the digits already read into `acc`. -/
def valueFrom (acc : Nat) (s : Bytes) : Nat :=
  s.foldl (fun v b => v * 10 + (b.toNat - 0x30)) acc

def value (s : Bytes) : Nat := valueFrom 0 s

/-- The decimal digits of `n`, most significant first. -/
def render (n : Nat) : Bytes :=
  if n < 10 then [digit n] else render (n / 10) ++ [digit (n % 10)]
termination_by n

/-- `render`, filled up with zeros to `width` digits. -/
def renderPadded (width n : Nat) : Bytes :=
  List.replicate (width - (render n).length) 0x30 ++ render n

/-! ## Reading back -/

theorem toNat_digit {n : Nat} (h : n < 10) : (digit n).toNat = 0x30 + n := by
  unfold digit
  rw [UInt8.toNat_ofNat']
  omega

theorem isDigit_digit {n : Nat} (h : n < 10) : isDigit (digit n) = true := by
  have := toNat_digit h
  unfold isDigit
  rw [Bool.and_eq_true, decide_eq_true_eq, decide_eq_true_eq, UInt8.le_iff_toNat_le,
    UInt8.le_iff_toNat_le, this]
  show 48 ≤ 48 + n ∧ 48 + n ≤ 57
  omega

theorem isDigit_render (n : Nat) : ∀ b ∈ render n, isDigit b = true := by
  fun_induction render n with
  | case1 n h =>
    intro b hb
    rw [List.mem_singleton] at hb
    subst hb
    exact isDigit_digit h
  | case2 n h ih =>
    intro b hb
    rcases List.mem_append.mp hb with hb | hb
    · exact ih b hb
    rw [List.mem_singleton] at hb
    subst hb
    exact isDigit_digit (Nat.mod_lt n (by decide))

theorem valueFrom_append (acc : Nat) (s t : Bytes) :
    valueFrom acc (s ++ t) = valueFrom (valueFrom acc s) t := List.foldl_append

theorem valueFrom_digit (acc : Nat) {n : Nat} (h : n < 10) : valueFrom acc [digit n] = acc * 10 + n := by
  show acc * 10 + ((digit n).toNat - 0x30) = _
  rw [toNat_digit h]
  omega

/-- **The digits of `n` stand for `n`.** -/
theorem value_render (n : Nat) : value (render n) = n := by
  fun_induction render n with
  | case1 n h =>
    show valueFrom 0 [digit n] = n
    rw [valueFrom_digit 0 h]
    omega
  | case2 n h ih =>
    unfold value at ih ⊢
    rw [valueFrom_append, ih, valueFrom_digit _ (Nat.mod_lt n (by decide))]
    omega

theorem render_injective {n m : Nat} (h : render n = render m) : n = m := by
  rw [← value_render n, h, value_render]

end Pandaemonium.Decimal
