import Pandaemonium.Lib.Bytes

/-!
# `Lib.Utf8` — decoding and encoding one rune

`decodeRune` is the decoder of a UTF-8 text, one rune at a time: it answers the rune at the front and
how many bytes it takes, `(runeError, 1)` where the bytes are no UTF-8 sequence. `encodeRune` is its
inverse on scalar values. A text is `valid` when decoding never answers an error of width one.

Both are held to the sequences of UTF-8 (`Sequence`), byte ranges and all:

* `Sequence.decodeRune_append`, `sequence_of_decodeRune` — the decoder reads sequences and nothing else;
* `Sequence.encodeRune_eq`, `sequence_encodeRune` — the encoder writes them;
* `valid_append` — a valid text in front changes nothing, so a text put together from valid parts is valid.
-/

namespace Pandaemonium.Utf8

open List

/-- U+FFFD, the answer on malformed input. -/
def runeError : Nat := 0xFFFD

/-- The continuation bytes a lead byte asks for and the range of the first of them; `none` where the
    byte cannot start a multi-byte sequence. -/
def leadRange (b : UInt8) : Option (Nat × UInt8 × UInt8) :=
  if b < 0xC2 then none
  else if b < 0xE0 then some (1, 0x80, 0xBF)
  else if b = 0xE0 then some (2, 0xA0, 0xBF)
  else if b = 0xED then some (2, 0x80, 0x9F)
  else if b < 0xF0 then some (2, 0x80, 0xBF)
  else if b = 0xF0 then some (3, 0x90, 0xBF)
  else if b < 0xF4 then some (3, 0x80, 0xBF)
  else if b = 0xF4 then some (3, 0x80, 0x8F)
  else none

/-- A continuation byte. -/
def isCont (b : UInt8) : Bool := 0x80 ≤ b && b ≤ 0xBF

/-- The rune at the front of a text and its width in bytes. -/
def decodeRune : Bytes → Nat × Nat
  | [] => (runeError, 0)
  | b0 :: s =>
    if b0 < 0x80 then (b0.toNat, 1)
    else
      match leadRange b0, s with
      | some (1, lo, hi), b1 :: _ =>
        if lo ≤ b1 && b1 ≤ hi then (b0.toNat % 32 * 64 + b1.toNat % 64, 2) else (runeError, 1)
      | some (2, lo, hi), b1 :: b2 :: _ =>
        if lo ≤ b1 && b1 ≤ hi && isCont b2 then
          (b0.toNat % 16 * 4096 + b1.toNat % 64 * 64 + b2.toNat % 64, 3)
        else (runeError, 1)
      | some (3, lo, hi), b1 :: b2 :: b3 :: _ =>
        if lo ≤ b1 && b1 ≤ hi && isCont b2 && isCont b3 then
          (b0.toNat % 8 * 262144 + b1.toNat % 64 * 4096 + b2.toNat % 64 * 64 + b3.toNat % 64, 4)
        else (runeError, 1)
      | _, _ => (runeError, 1)

/-- A Unicode scalar value: in range and no surrogate. -/
def validRune (r : Nat) : Bool := r < 0xD800 || (0xE000 ≤ r && r ≤ 0x10FFFF)

/-- The UTF-8 bytes of a rune; anything but a scalar value is written as U+FFFD. -/
def encodeRune (r : Nat) : Bytes :=
  if r < 0x80 then [UInt8.ofNat r]
  else if r < 0x800 then [UInt8.ofNat (0xC0 + r / 64), UInt8.ofNat (0x80 + r % 64)]
  else if !validRune r then [0xEF, 0xBF, 0xBD]
  else if r < 0x10000 then
    [UInt8.ofNat (0xE0 + r / 4096), UInt8.ofNat (0x80 + r / 64 % 64), UInt8.ofNat (0x80 + r % 64)]
  else
    [UInt8.ofNat (0xF0 + r / 262144), UInt8.ofNat (0x80 + r / 4096 % 64),
      UInt8.ofNat (0x80 + r / 64 % 64), UInt8.ofNat (0x80 + r % 64)]

/-- A decode step that found no UTF-8 sequence. -/
def isBad (d : Nat × Nat) : Bool := d.1 == runeError && d.2 == 1

/-! ## The width of a rune -/

variable {b : UInt8}

theorem le_toNat {a : UInt8} : a ≤ b ↔ a.toNat ≤ b.toNat := UInt8.le_iff_toNat_le
theorem lt_toNat {a : UInt8} : a < b ↔ a.toNat < b.toNat := UInt8.lt_iff_toNat_lt

variable {s : Bytes}

/-- A nonempty text yields a rune of positive width. -/
theorem decodeRune_width_pos : 0 < (decodeRune (b :: s)).2 := by
  unfold decodeRune
  split
  · contradiction
  split
  · simp
  · split <;> (try split) <;> simp

/-! ## The sequences of UTF-8 -/

/-- **The bytes of a rune**: the sequences of UTF-8 by their lengths, with no sequence longer than it has
    to be and none for a surrogate. -/
inductive Sequence : Bytes → Nat → Prop
  | one {b : UInt8} : b.toNat < 0x80 → Sequence [b] b.toNat
  | two {b0 b1 : UInt8} : 0xC2 ≤ b0.toNat → b0.toNat < 0xE0 → isCont b1 = true →
      Sequence [b0, b1] (b0.toNat % 32 * 64 + b1.toNat % 64)
  | three {b0 b1 b2 : UInt8} : 0xE0 ≤ b0.toNat → b0.toNat < 0xF0 → isCont b1 = true →
      (b0.toNat = 0xE0 → 0xA0 ≤ b1.toNat) → (b0.toNat = 0xED → b1.toNat ≤ 0x9F) → isCont b2 = true →
      Sequence [b0, b1, b2] (b0.toNat % 16 * 4096 + b1.toNat % 64 * 64 + b2.toNat % 64)
  | four {b0 b1 b2 b3 : UInt8} : 0xF0 ≤ b0.toNat → b0.toNat < 0xF5 → isCont b1 = true →
      (b0.toNat = 0xF0 → 0x90 ≤ b1.toNat) → (b0.toNat = 0xF4 → b1.toNat ≤ 0x8F) → isCont b2 = true →
      isCont b3 = true →
      Sequence [b0, b1, b2, b3]
        (b0.toNat % 8 * 262144 + b1.toNat % 64 * 4096 + b2.toNat % 64 * 64 + b3.toNat % 64)

theorem isCont_iff : isCont b = true ↔ 0x80 ≤ b.toNat ∧ b.toNat ≤ 0xBF := by
  simp only [isCont, Bool.and_eq_true, decide_eq_true_eq, le_toNat]
  rfl

theorem toNat_ofNat {n : Nat} (h : n < 256) : (UInt8.ofNat n).toNat = n := by
  rw [UInt8.toNat_ofNat', Nat.mod_eq_of_lt h]

theorem isCont_ofNat {n : Nat} (h : n < 64) : isCont (UInt8.ofNat (0x80 + n)) = true := by
  rw [isCont_iff, toNat_ofNat (by omega)]
  omega

/-- `leadRange` in numbers. -/
theorem leadRange_eq (b : UInt8) :
    leadRange b =
      if b.toNat < 0xC2 then none
      else if b.toNat < 0xE0 then some (1, 0x80, 0xBF)
      else if b.toNat = 0xE0 then some (2, 0xA0, 0xBF)
      else if b.toNat = 0xED then some (2, 0x80, 0x9F)
      else if b.toNat < 0xF0 then some (2, 0x80, 0xBF)
      else if b.toNat = 0xF0 then some (3, 0x90, 0xBF)
      else if b.toNat < 0xF4 then some (3, 0x80, 0xBF)
      else if b.toNat = 0xF4 then some (3, 0x80, 0x8F)
      else none := by
  simp only [leadRange, lt_toNat, ← UInt8.toNat_inj]
  rfl

/-- A byte of its own. -/
theorem decodeRune_one (h : b.toNat < 0x80) (t : Bytes) : decodeRune (b :: t) = (b.toNat, 1) := by
  unfold decodeRune
  exact if_pos (lt_toNat.mpr h)

theorem not_lt_lead (h : 0xC2 ≤ b.toNat) : ¬ b < 0x80 := by
  rw [lt_toNat]
  show ¬ b.toNat < 0x80
  omega

/-- The range of the second byte, in numbers. -/
theorem inRange_iff {lo hi : UInt8} :
    (decide (lo ≤ b) && decide (b ≤ hi)) = true ↔ lo.toNat ≤ b.toNat ∧ b.toNat ≤ hi.toNat := by
  simp only [Bool.and_eq_true, decide_eq_true_eq, le_toNat]

variable {b0 b1 : UInt8}

theorem decodeRune_two (h0 : 0xC2 ≤ b0.toNat) (h0' : b0.toNat < 0xE0) (h1 : isCont b1 = true) (t : Bytes) :
    decodeRune (b0 :: b1 :: t) = (b0.toNat % 32 * 64 + b1.toNat % 64, 2) := by
  have hlead : leadRange b0 = some (1, 0x80, 0xBF) := by
    rw [leadRange_eq, if_neg (by omega), if_pos h0']
  unfold decodeRune
  simp only [if_neg (not_lt_lead h0), hlead]
  exact if_pos h1

/-- The range of the second of three bytes. -/
theorem leadRange_three (h0 : 0xE0 ≤ b0.toNat) (h0' : b0.toNat < 0xF0) (h1 : isCont b1 = true)
    (hlow : b0.toNat = 0xE0 → 0xA0 ≤ b1.toNat) (hhigh : b0.toNat = 0xED → b1.toNat ≤ 0x9F) :
    ∃ lo hi, leadRange b0 = some (2, lo, hi) ∧ (decide (lo ≤ b1) && decide (b1 ≤ hi)) = true := by
  rw [isCont_iff] at h1
  rw [leadRange_eq, if_neg (by omega), if_neg (by omega)]
  by_cases hE0 : b0.toNat = 0xE0
  · exact ⟨_, _, if_pos hE0, inRange_iff.mpr ⟨hlow hE0, h1.2⟩⟩
  rw [if_neg hE0]
  by_cases hED : b0.toNat = 0xED
  · exact ⟨_, _, if_pos hED, inRange_iff.mpr ⟨h1.1, hhigh hED⟩⟩
  rw [if_neg hED]
  exact ⟨_, _, if_pos h0', inRange_iff.mpr h1⟩

theorem decodeRune_three {b2 : UInt8} (h0 : 0xE0 ≤ b0.toNat) (h0' : b0.toNat < 0xF0) (h1 : isCont b1 = true)
    (hlow : b0.toNat = 0xE0 → 0xA0 ≤ b1.toNat) (hhigh : b0.toNat = 0xED → b1.toNat ≤ 0x9F)
    (h2 : isCont b2 = true) (t : Bytes) :
    decodeRune (b0 :: b1 :: b2 :: t) =
      (b0.toNat % 16 * 4096 + b1.toNat % 64 * 64 + b2.toNat % 64, 3) := by
  obtain ⟨lo, hi, hlead, hrange⟩ := leadRange_three h0 h0' h1 hlow hhigh
  unfold decodeRune
  simp only [if_neg (not_lt_lead (show 0xC2 ≤ b0.toNat by omega)), hlead]
  rw [hrange, h2]
  rfl

/-- The range of the second of four bytes. -/
theorem leadRange_four (h0 : 0xF0 ≤ b0.toNat) (h0' : b0.toNat < 0xF5) (h1 : isCont b1 = true)
    (hlow : b0.toNat = 0xF0 → 0x90 ≤ b1.toNat) (hhigh : b0.toNat = 0xF4 → b1.toNat ≤ 0x8F) :
    ∃ lo hi, leadRange b0 = some (3, lo, hi) ∧ (decide (lo ≤ b1) && decide (b1 ≤ hi)) = true := by
  rw [isCont_iff] at h1
  rw [leadRange_eq, if_neg (by omega), if_neg (by omega), if_neg (by omega), if_neg (by omega),
    if_neg (by omega)]
  by_cases hF0 : b0.toNat = 0xF0
  · exact ⟨_, _, if_pos hF0, inRange_iff.mpr ⟨hlow hF0, h1.2⟩⟩
  rw [if_neg hF0]
  by_cases hlt : b0.toNat < 0xF4
  · exact ⟨_, _, if_pos hlt, inRange_iff.mpr h1⟩
  have hF4 : b0.toNat = 0xF4 := by omega
  rw [if_neg hlt]
  exact ⟨_, _, if_pos hF4, inRange_iff.mpr ⟨h1.1, hhigh hF4⟩⟩

theorem decodeRune_four {b2 b3 : UInt8} (h0 : 0xF0 ≤ b0.toNat) (h0' : b0.toNat < 0xF5) (h1 : isCont b1 = true)
    (hlow : b0.toNat = 0xF0 → 0x90 ≤ b1.toNat) (hhigh : b0.toNat = 0xF4 → b1.toNat ≤ 0x8F)
    (h2 : isCont b2 = true) (h3 : isCont b3 = true) (t : Bytes) :
    decodeRune (b0 :: b1 :: b2 :: b3 :: t) =
      (b0.toNat % 8 * 262144 + b1.toNat % 64 * 4096 + b2.toNat % 64 * 64 + b3.toNat % 64, 4) := by
  obtain ⟨lo, hi, hlead, hrange⟩ := leadRange_four h0 h0' h1 hlow hhigh
  unfold decodeRune
  simp only [if_neg (not_lt_lead (show 0xC2 ≤ b0.toNat by omega)), hlead]
  rw [hrange, h2, h3]
  rfl

variable {bs : Bytes} {r : Nat}

/-- **A sequence is decoded to its rune**, whatever follows it. -/
theorem Sequence.decodeRune_append (h : Sequence bs r) (t : Bytes) : decodeRune (bs ++ t) = (r, bs.length) := by
  cases h with
  | one h => exact decodeRune_one h t
  | two h0 h0' h1 => exact decodeRune_two h0 h0' h1 t
  | three h0 h0' h1 hlow hhigh h2 => exact decodeRune_three h0 h0' h1 hlow hhigh h2 t
  | four h0 h0' h1 hlow hhigh h2 h3 => exact decodeRune_four h0 h0' h1 hlow hhigh h2 h3 t

/-- What a lead byte asks for says which byte it is. -/
theorem leadRange_some {n : Nat} {lo hi : UInt8} (h : leadRange b = some (n, lo, hi)) :
    0x80 ≤ lo.toNat ∧ hi.toNat ≤ 0xBF ∧
    ((n = 1 ∧ 0xC2 ≤ b.toNat ∧ b.toNat < 0xE0) ∨
    (n = 2 ∧ 0xE0 ≤ b.toNat ∧ b.toNat < 0xF0 ∧
      (b.toNat = 0xE0 → 0xA0 ≤ lo.toNat) ∧ (b.toNat = 0xED → hi.toNat ≤ 0x9F)) ∨
    (n = 3 ∧ 0xF0 ≤ b.toNat ∧ b.toNat < 0xF5 ∧
      (b.toNat = 0xF0 → 0x90 ≤ lo.toNat) ∧ (b.toNat = 0xF4 → hi.toNat ≤ 0x8F))) := by
  rw [leadRange_eq] at h
  split at h
  · cases h
  split at h
  · cases h
    exact ⟨by decide, by decide, .inl ⟨rfl, by omega, by omega⟩⟩
  split at h
  · cases h
    exact ⟨by decide, by decide, .inr (.inl ⟨rfl, by omega, by omega, fun _ => by decide, by omega⟩)⟩
  split at h
  · cases h
    exact ⟨by decide, by decide, .inr (.inl ⟨rfl, by omega, by omega, by omega, fun _ => by decide⟩)⟩
  split at h
  · cases h
    exact ⟨by decide, by decide, .inr (.inl ⟨rfl, by omega, by omega, by omega, by omega⟩)⟩
  split at h
  · cases h
    exact ⟨by decide, by decide, .inr (.inr ⟨rfl, by omega, by omega, fun _ => by decide, by omega⟩)⟩
  split at h
  · cases h
    exact ⟨by decide, by decide, .inr (.inr ⟨rfl, by omega, by omega, by omega, by omega⟩)⟩
  split at h
  · cases h
    exact ⟨by decide, by decide, .inr (.inr ⟨rfl, by omega, by omega, by omega, fun _ => by decide⟩)⟩
  · cases h

/-- **A decode that succeeds has read a sequence.** -/
theorem sequence_of_decodeRune (h : isBad (decodeRune (b :: s)) = false) :
    ∃ bs t, b :: s = bs ++ t ∧ Sequence bs (decodeRune (b :: s)).1 ∧
      bs.length = (decodeRune (b :: s)).2 := by
  have hbad : isBad (runeError, 1) = true := rfl
  generalize hd : decodeRune (b :: s) = d at h ⊢
  rw [decodeRune.eq_def] at hd
  dsimp only at hd
  split at hd
  · rename_i hb
    subst hd
    exact ⟨[b], s, rfl, .one (lt_toNat.mp hb), rfl⟩
  -- every other answer is the error of width one
  split at hd
  · rename_i lo hi b1 t hlead
    obtain ⟨hlo, hhi, ⟨-, h0, h0'⟩ | ⟨h2, -⟩ | ⟨h3, -⟩⟩ := leadRange_some hlead
    · split at hd
      · rename_i hrange
        subst hd
        rw [inRange_iff] at hrange
        exact ⟨[b, b1], t, rfl, .two h0 h0' (isCont_iff.mpr (by omega)), rfl⟩
      · subst hd; rw [hbad] at h; cases h
    · cases h2
    · cases h3
  · rename_i lo hi b1 b2 t hlead
    obtain ⟨hlo, hhi, ⟨h1, -⟩ | ⟨-, h0, h0', hlow, hhigh⟩ | ⟨h3, -⟩⟩ := leadRange_some hlead
    · cases h1
    · split at hd
      · rename_i hrange
        subst hd
        rw [Bool.and_eq_true, inRange_iff] at hrange
        exact ⟨[b, b1, b2], t, rfl, .three h0 h0' (isCont_iff.mpr (by omega)) (by omega) (by omega)
          hrange.2, rfl⟩
      · subst hd; rw [hbad] at h; cases h
    · cases h3
  · rename_i lo hi b1 b2 b3 t hlead
    obtain ⟨hlo, hhi, ⟨h1, -⟩ | ⟨h2, -⟩ | ⟨-, h0, h0', hlow, hhigh⟩⟩ := leadRange_some hlead
    · cases h1
    · cases h2
    split at hd
    · rename_i hrange
      subst hd
      rw [Bool.and_eq_true, Bool.and_eq_true, inRange_iff] at hrange
      exact ⟨[b, b1, b2, b3], t, rfl, .four h0 h0' (isCont_iff.mpr (by omega)) (by omega)
        (by omega) hrange.1.2 hrange.2, rfl⟩
    · subst hd; rw [hbad] at h; cases h
  · subst hd; rw [hbad] at h; cases h

/-- A sequence stands for a scalar value. -/
theorem Sequence.validRune (h : Sequence bs r) : validRune r = true := by
  simp only [Utf8.validRune, Bool.or_eq_true, Bool.and_eq_true, decide_eq_true_eq]
  cases h with
  | one h | two h0 h0' h1 => omega
  | three h0 h0' h1 hlow hhigh h2 =>
    rw [isCont_iff] at h1 h2
    omega
  | four h0 h0' h1 hlow hhigh h2 h3 =>
    rw [isCont_iff] at h1 h2 h3
    omega

theorem ofNat_eq {n : Nat} (h : n = b.toNat) : UInt8.ofNat n = b := by
  rw [h, UInt8.ofNat_toNat]

/-- **A sequence is what its rune is encoded to.** -/
theorem Sequence.encodeRune_eq (h : Sequence bs r) : encodeRune r = bs := by
  have hvalid := h.validRune
  unfold encodeRune
  rw [hvalid]
  simp only [Bool.not_true, Bool.false_eq_true, if_false]
  cases h with
  | one h => rw [if_pos h, ofNat_eq rfl]
  | @two b0 b1 h0 h0' h1 =>
    rw [isCont_iff] at h1
    rw [if_neg (by omega), if_pos (by omega), ofNat_eq (b := b0) (by omega),
      ofNat_eq (b := b1) (by omega)]
  | @three b0 b1 b2 h0 h0' h1 hlow hhigh h2 =>
    rw [isCont_iff] at h1 h2
    rw [if_neg (by omega), if_neg (by omega), if_pos (by omega), ofNat_eq (b := b0) (by omega),
      ofNat_eq (b := b1) (by omega), ofNat_eq (b := b2) (by omega)]
  | @four b0 b1 b2 b3 h0 h0' h1 hlow hhigh h2 h3 =>
    rw [isCont_iff] at h1 h2 h3
    rw [if_neg (by omega), if_neg (by omega), if_neg (by omega), ofNat_eq (b := b0) (by omega),
      ofNat_eq (b := b1) (by omega), ofNat_eq (b := b2) (by omega), ofNat_eq (b := b3) (by omega)]

/-- **A scalar value is encoded to a sequence.** -/
theorem sequence_encodeRune (h : validRune r = true) : Sequence (encodeRune r) r := by
  unfold encodeRune
  rw [h]
  simp only [Utf8.validRune, Bool.or_eq_true, Bool.and_eq_true, decide_eq_true_eq] at h
  simp only [Bool.not_true, Bool.false_eq_true, if_false]
  split
  · rename_i h1
    have hseq : Sequence [UInt8.ofNat r] (UInt8.ofNat r).toNat :=
      .one (by rw [toNat_ofNat (by omega)]; exact h1)
    rwa [toNat_ofNat (by omega)] at hseq
  split
  · have e0 := toNat_ofNat (show 0xC0 + r / 64 < 256 by omega)
    have e1 := toNat_ofNat (show 0x80 + r % 64 < 256 by omega)
    have hseq : Sequence [UInt8.ofNat (0xC0 + r / 64), UInt8.ofNat (0x80 + r % 64)] _ :=
      .two (by omega) (by omega) (isCont_ofNat (by omega))
    rwa [e0, e1, show (0xC0 + r / 64) % 32 * 64 + (0x80 + r % 64) % 64 = r by omega] at hseq
  split
  · have e0 := toNat_ofNat (show 0xE0 + r / 4096 < 256 by omega)
    have e1 := toNat_ofNat (show 0x80 + r / 64 % 64 < 256 by omega)
    have e2 := toNat_ofNat (show 0x80 + r % 64 < 256 by omega)
    have hseq : Sequence [UInt8.ofNat (0xE0 + r / 4096), UInt8.ofNat (0x80 + r / 64 % 64),
        UInt8.ofNat (0x80 + r % 64)] _ :=
      .three (by omega) (by omega) (isCont_ofNat (by omega)) (by omega) (by omega)
        (isCont_ofNat (by omega))
    rwa [e0, e1, e2, show (0xE0 + r / 4096) % 16 * 4096 + (0x80 + r / 64 % 64) % 64 * 64 +
      (0x80 + r % 64) % 64 = r by omega] at hseq
  · have e0 := toNat_ofNat (show 0xF0 + r / 262144 < 256 by omega)
    have e1 := toNat_ofNat (show 0x80 + r / 4096 % 64 < 256 by omega)
    have e2 := toNat_ofNat (show 0x80 + r / 64 % 64 < 256 by omega)
    have e3 := toNat_ofNat (show 0x80 + r % 64 < 256 by omega)
    have hseq : Sequence [UInt8.ofNat (0xF0 + r / 262144), UInt8.ofNat (0x80 + r / 4096 % 64),
        UInt8.ofNat (0x80 + r / 64 % 64), UInt8.ofNat (0x80 + r % 64)] _ :=
      .four (by omega) (by omega) (isCont_ofNat (by omega)) (by omega) (by omega)
        (isCont_ofNat (by omega)) (isCont_ofNat (by omega))
    rwa [e0, e1, e2, e3, show (0xF0 + r / 262144) % 8 * 262144 + (0x80 + r / 4096 % 64) % 64 * 4096 +
      (0x80 + r / 64 % 64) % 64 * 64 + (0x80 + r % 64) % 64 = r by omega] at hseq

/-! ## Valid texts -/

/-- **UTF-8**: the decoder gets through the text without an error of width one. -/
def valid (s : Bytes) : Bool :=
  match s with
  | [] => true
  | b :: t => !isBad (decodeRune (b :: t)) && valid ((b :: t).drop (decodeRune (b :: t)).2)
termination_by s.length
decreasing_by exact Bytes.length_drop_lt decodeRune_width_pos

theorem Sequence.ne_nil (h : Sequence bs r) : ∃ b t, bs = b :: t := by
  cases h with
  | one | two | three | four => exact ⟨_, _, rfl⟩

theorem Sequence.not_isBad (h : Sequence bs r) : isBad (r, bs.length) = false := by
  cases h with
  | @one b h =>
    have hne : b.toNat ≠ runeError := by unfold runeError; omega
    simp [isBad, hne]
  | two | three | four => simp [isBad]

/-- A sequence in front of a text. -/
theorem Sequence.valid_append (h : Sequence bs r) (t : Bytes) : valid (bs ++ t) = valid t := by
  have hdecode := h.decodeRune_append t
  have hbad := h.not_isBad
  obtain ⟨b, u, rfl⟩ := h.ne_nil
  rw [cons_append] at hdecode ⊢
  rw [valid, hdecode, hbad, ← cons_append, drop_left]
  rfl

/-- A valid text starts with a sequence, and what follows is valid. -/
theorem valid_cons (h : valid (b :: s) = true) :
    ∃ bs r t, b :: s = bs ++ t ∧ Sequence bs r ∧ valid t = true := by
  rw [valid, Bool.and_eq_true, Bool.not_eq_true'] at h
  obtain ⟨bs, t, heq, hseq, hlen⟩ := sequence_of_decodeRune h.1
  refine ⟨bs, _, t, heq, hseq, ?_⟩
  rw [← hlen, heq, drop_left] at h
  exact h.2

theorem valid_cons_ascii (h : b.toNat < 0x80) (s : Bytes) : valid (b :: s) = valid s :=
  (Sequence.one h).valid_append s

theorem valid_ascii (h : ∀ b ∈ s, b.toNat < 0x80) : valid s = true := by
  induction s with
  | nil => rw [valid]
  | cons b s ih =>
    rw [valid_cons_ascii (h b mem_cons_self)]
    exact ih (fun c hc => h c (mem_cons_of_mem b hc))

/-! ## Texts as runes -/

theorem encodeRune_ne_nil (r : Nat) : encodeRune r ≠ [] := by
  unfold encodeRune
  split_ifs <;> simp

/-- **A valid text is the encoding of scalar values.** -/
theorem exists_runes (h : valid s = true) :
    ∃ rs : List Nat, (∀ r ∈ rs, validRune r = true) ∧ s = rs.flatMap encodeRune := by
  induction hn : s.length using Nat.strongRecOn generalizing s with
  | ind n ih =>
    cases s with
    | nil => exact ⟨[], nofun, rfl⟩
    | cons b s =>
      obtain ⟨bs, r, t, hs, hseq, ht⟩ := valid_cons h
      obtain ⟨b', bs', rfl⟩ := hseq.ne_nil
      have hlen : t.length < n := by
        rw [← hn, hs]
        simp only [cons_append, length_cons, length_append]
        omega
      obtain ⟨rs, hrs, rfl⟩ := ih t.length hlen ht rfl
      refine ⟨r :: rs, forall_mem_cons.mpr ⟨hseq.validRune, hrs⟩, ?_⟩
      rw [hs, flatMap_cons, hseq.encodeRune_eq]

/-- One ASCII byte, or bytes past ASCII for a rune past ASCII. -/
theorem Sequence.ascii_or_high (h : Sequence bs r) :
    (∃ b, bs = [b] ∧ r = b.toNat ∧ b.toNat < 0x80) ∨ (0x80 ≤ r ∧ ∀ b ∈ bs, 0x80 ≤ b.toNat) := by
  cases h with
  | one h => exact .inl ⟨_, rfl, rfl, h⟩
  | two h0 h0' h1 =>
    rw [isCont_iff] at h1
    refine .inr ⟨by omega, ?_⟩
    simp only [forall_mem_cons]
    exact ⟨by omega, h1.1, nofun⟩
  | three h0 h0' h1 hlow hhigh h2 =>
    rw [isCont_iff] at h1 h2
    refine .inr ⟨by omega, ?_⟩
    simp only [forall_mem_cons]
    exact ⟨by omega, h1.1, h2.1, nofun⟩
  | four h0 h0' h1 hlow hhigh h2 h3 =>
    rw [isCont_iff] at h1 h2 h3
    refine .inr ⟨by omega, ?_⟩
    simp only [forall_mem_cons]
    exact ⟨by omega, h1.1, h2.1, h3.1, nofun⟩

/-- An ASCII byte in the encoding of a scalar value is that value. -/
theorem mem_encodeRune (hr : validRune r = true) (hb : b.toNat < 0x80) : b ∈ encodeRune r ↔ r = b.toNat := by
  rcases (sequence_encodeRune hr).ascii_or_high with ⟨c, hc, hrc, -⟩ | ⟨hhigh, hall⟩
  · rw [hc, mem_singleton, hrc]
    exact ⟨fun h => by rw [h], fun h => (UInt8.toNat_inj.mp h).symm⟩
  constructor
  · intro hmem
    have := hall b hmem
    omega
  · intro h
    omega

/-! ## The runes of a string -/

/-- The runes that a `range` loop goes through. -/
def runes (s : Bytes) : List Nat :=
  match s with
  | [] => []
  | b :: t => (decodeRune (b :: t)).1 :: runes ((b :: t).drop (decodeRune (b :: t)).2)
termination_by s.length
decreasing_by exact Bytes.length_drop_lt decodeRune_width_pos

theorem runes_nil : runes [] = [] := by
  rw [runes]

theorem Sequence.runes_append (h : Sequence bs r) (t : Bytes) : runes (bs ++ t) = r :: runes t := by
  have hdecode := h.decodeRune_append t
  obtain ⟨b, bs', rfl⟩ := h.ne_nil
  rw [cons_append] at hdecode ⊢
  rw [runes, hdecode, ← cons_append, drop_left]

/-- **The runes of an encoding** are those encoded. -/
theorem runes_flatMap {rs : List Nat} (h : ∀ r ∈ rs, validRune r = true) :
    runes (rs.flatMap encodeRune) = rs := by
  induction rs with
  | nil => exact runes_nil
  | cons r rs ih =>
    rw [flatMap_cons, (sequence_encodeRune (h r mem_cons_self)).runes_append,
      ih (fun r' hr' => h r' (mem_cons_of_mem _ hr'))]

end Pandaemonium.Utf8
