import Pandaemonium.Lib.Decimal

/-!
# `Lib.FixedDigits` — numbers in a fixed count of digits

`fixed width n` writes the `width` lowest digits of `n`. On the numbers below `10 ^ width` it is the
inverse of `value` on the digit strings of that length (`value_fixed`, `fixed_value`), it is what padding
with zeros gives (`renderPadded_eq_fixed`), and it is what stands behind the leading `1` of
`10 ^ width + n` (`render_pow_add`).
-/

namespace Pandaemonium.Decimal

open List

/-- A string of digits. -/
def Digits (s : Bytes) : Prop := ∀ b ∈ s, isDigit b = true

/-- The `width` lowest digits of `n`, most significant first. -/
def fixed : Nat → Nat → Bytes
  | 0, _ => []
  | width + 1, n => fixed width (n / 10) ++ [digit (n % 10)]

@[simp]
theorem length_fixed (width n : Nat) : (fixed width n).length = width := by
  induction width generalizing n with
  | zero => rfl
  | succ width ih => rw [fixed, length_append, ih, length_singleton]

theorem digits_fixed (width n : Nat) : Digits (fixed width n) := by
  induction width generalizing n with
  | zero => intro b hb; cases hb
  | succ width ih =>
    intro b hb
    rcases mem_append.mp hb with hb | hb
    · exact ih _ b hb
    · cases mem_singleton.mp hb
      exact isDigit_digit (Nat.mod_lt n (by decide))

theorem Digits.append {s t : Bytes} (hs : Digits s) (ht : Digits t) : Digits (s ++ t) := by
  intro b hb
  exact (mem_append.mp hb).elim (hs b) (ht b)

theorem Digits.left {s t : Bytes} (h : Digits (s ++ t)) : Digits s :=
  fun b hb => h b (mem_append_left t hb)

/-- Other bytes are not among digits. -/
theorem Digits.not_mem {s : Bytes} (h : Digits s) {b : UInt8} (hb : isDigit b = false) : b ∉ s := by
  intro hmem
  rw [h b hmem] at hb
  cases hb

theorem digits_zeros (k : Nat) : Digits (List.replicate k 0x30) := by
  intro b hb
  cases eq_of_mem_replicate hb
  rfl

/-! ## The number of a digit string -/

theorem valueFrom_eq (acc : Nat) (s : Bytes) : valueFrom acc s = acc * 10 ^ s.length + value s := by
  induction s generalizing acc with
  | nil => simp [valueFrom, value]
  | cons b t ih =>
    have hstep : ∀ a, valueFrom a (b :: t) = valueFrom (a * 10 + (b.toNat - 0x30)) t := fun a => rfl
    rw [value, hstep, hstep, ih, ih (0 * 10 + _), length_cons, pow_succ]
    ring

theorem value_append (s t : Bytes) : value (s ++ t) = value s * 10 ^ t.length + value t := by
  rw [value, valueFrom_append, valueFrom_eq]
  rfl

theorem value_zeros (k : Nat) : value (List.replicate k 0x30) = 0 := by
  induction k with
  | zero => rfl
  | succ k ih => rw [replicate_succ', value_append, ih]; rfl

/-- A digit is the digit of its number. -/
theorem digit_of_isDigit {b : UInt8} (h : isDigit b = true) :
    digit (b.toNat - 0x30) = b ∧ b.toNat - 0x30 < 10 := by
  unfold isDigit at h
  rw [Bool.and_eq_true, decide_eq_true_eq, decide_eq_true_eq, UInt8.le_iff_toNat_le,
    UInt8.le_iff_toNat_le] at h
  change 48 ≤ b.toNat ∧ b.toNat ≤ 57 at h
  refine ⟨UInt8.toNat_inj.mp ?_, by omega⟩
  rw [toNat_digit (by omega)]
  omega

theorem value_singleton (b : UInt8) : value [b] = b.toNat - 0x30 := by
  simp [value, valueFrom]

/-- **The digits of a string are the digits of its number.** -/
theorem fixed_value {s : Bytes} (h : Digits s) : fixed s.length (value s) = s := by
  induction s using List.reverseRecOn with
  | nil => rfl
  | append_singleton s b ih =>
    obtain ⟨hdigit, hlt⟩ := digit_of_isDigit (h b (by simp))
    rw [length_append, length_singleton, fixed, value_append, value_singleton, length_singleton, pow_one]
    rw [show (value s * 10 + (b.toNat - 0x30)) / 10 = value s by omega,
      show (value s * 10 + (b.toNat - 0x30)) % 10 = b.toNat - 0x30 by omega, hdigit, ih h.left]

/-- **The number of the digits of a number.** -/
theorem value_fixed {width n : Nat} (h : n < 10 ^ width) : value (fixed width n) = n := by
  induction width generalizing n with
  | zero =>
    rw [pow_zero] at h
    have hn : n = 0 := by omega
    subst hn
    rfl
  | succ width ih =>
    rw [pow_succ] at h
    rw [fixed, value_append, ih (by omega), value_singleton,
      toNat_digit (Nat.mod_lt n (by decide)), length_singleton, pow_one]
    omega

theorem value_lt {s : Bytes} (h : Digits s) : value s < 10 ^ s.length := by
  induction s using List.reverseRecOn with
  | nil => exact Nat.one_pos
  | append_singleton s b ih =>
    have hs := ih h.left
    have hlt := (digit_of_isDigit (h b (by simp))).2
    rw [value_append, value_singleton, length_append, length_singleton, pow_one, pow_succ]
    omega

/-- The first digits are the digits of the quotient. -/
theorem take_fixed (k j n : Nat) : (fixed (k + j) n).take k = fixed k (n / 10 ^ j) := by
  induction j generalizing n with
  | zero => rw [pow_zero, Nat.div_one, take_of_length_le (by simp), Nat.add_zero]
  | succ j ih =>
    rw [Nat.add_succ, fixed, take_append_of_le_length (by simp), ih, Nat.div_div_eq_div_mul,
      pow_succ, Nat.mul_comm]

/-! ## Against the other printers -/

theorem length_render_le {width n : Nat} (hw : 0 < width) (h : n < 10 ^ width) : (render n).length ≤ width := by
  induction width generalizing n with
  | zero => cases hw
  | succ width ih =>
    rw [render]
    split
    · simp
    rename_i hn
    rw [length_append, length_singleton]
    rw [pow_succ] at h
    have hpos : 0 < width := by
      rcases Nat.eq_zero_or_pos width with rfl | hpos
      · rw [pow_zero] at h
        omega
      · exact hpos
    have := ih hpos (n := n / 10) (by omega)
    omega

/-- **Padding with zeros** gives the number in that many digits. -/
theorem renderPadded_eq_fixed {width n : Nat} (hw : 0 < width) (h : n < 10 ^ width) :
    renderPadded width n = fixed width n := by
  have hlength : (renderPadded width n).length = width := by
    have := length_render_le hw h
    rw [renderPadded, length_append, length_replicate]
    omega
  have hvalue : value (renderPadded width n) = n := by
    rw [renderPadded, value_append, value_zeros, value_render, Nat.zero_mul, Nat.zero_add]
  have hdigits : Digits (renderPadded width n) := (digits_zeros _).append (isDigit_render n)
  have hfixed := fixed_value hdigits
  rw [hlength, hvalue] at hfixed
  exact hfixed.symm

/-- **Behind the leading `1`** of `10 ^ width + n` stand the digits of `n`. -/
theorem render_pow_add {width n : Nat} (h : n < 10 ^ width) :
    render (10 ^ width + n) = 0x31 :: fixed width n := by
  induction width generalizing n with
  | zero =>
    rw [pow_zero] at h ⊢
    have hn : n = 0 := by omega
    subst hn
    rw [render]
    rfl
  | succ width ih =>
    have hpos : 0 < 10 ^ width := Nat.pow_pos (by decide)
    rw [pow_succ] at h ⊢
    rw [render, if_neg (by omega),
      show (10 ^ width * 10 + n) / 10 = 10 ^ width + n / 10 by omega,
      show (10 ^ width * 10 + n) % 10 = n % 10 by omega, ih (by omega)]
    rfl

end Pandaemonium.Decimal
