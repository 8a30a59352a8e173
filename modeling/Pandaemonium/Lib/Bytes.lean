import Mathlib

/-!
# `Lib.Bytes` — byte strings and first-match scans

A byte string is a `List UInt8`. Every scanner over one is either a *first-match* scan
(`List.findIdx`: how many bytes before the first byte of a class) or a loop over the text that is
left. The lemmas here say how a first-match scan splits a text, which is what the loops built on it
need: the bytes before the stop are outside the class, the byte at the stop is inside.
-/

namespace Pandaemonium

/-- A byte string. -/
abbrev Bytes := List UInt8

instance : LawfulBEq Bytes := inferInstance

/-- The bytes of an ASCII literal. -/
def ascii (s : String) : Bytes := s.toList.map Char.toUInt8

namespace Bytes

/-! ## First-match scans -/

variable {p : UInt8 → Bool} {s t : Bytes}

/-- A scan stops at the head as soon as the head is in the class. -/
theorem findIdx_cons_pos {c : UInt8} (h : p c = true) : (c :: s).findIdx p = 0 := by
  simp [List.findIdx_cons, h]

/-- A scan steps over a head outside the class. -/
theorem findIdx_cons_neg {c : UInt8} (h : p c = false) : (c :: s).findIdx p = s.findIdx p + 1 := by
  simp [List.findIdx_cons, h]

/-- The byte a scan stops at is in the class. -/
theorem drop_findIdx_pos : ∀ c ∈ (s.drop (s.findIdx p)).head?, p c = true := by
  induction s with
  | nil => simp
  | cons c s ih =>
    cases hc : p c with
    | true => rw [findIdx_cons_pos hc]; simpa using hc
    | false => rw [findIdx_cons_neg hc, List.drop_succ_cons]; exact ih

theorem findIdx_le : s.findIdx p ≤ s.length := List.findIdx_le_length

/-! ## Texts that get shorter -/

theorem length_drop_lt {c : UInt8} {n : Nat} (h : 0 < n) : ((c :: s).drop n).length < (c :: s).length := by
  rw [List.length_drop, List.length_cons]
  omega

theorem length_of_drop {c : UInt8} {n : Nat} (h : s.drop n = c :: t) : s.length = n + t.length + 1 := by
  have hl := congrArg List.length h
  rw [List.length_drop, List.length_cons] at hl
  omega

end Bytes

end Pandaemonium
