import Pandaemonium.Toml.Integers

/-!
# `Toml.IntegerWidth` — integer literals in 64 bits (`value.go`)

The source evaluates a literal with `uint64` and stores an `int64` as its bits. `parseUintDigits64` and
`parseIntegerLiteral64` are the two functions with those types, and `parseUintDigitsChecked` is the same
loop where an operation that would wrap around has no result. It always has one, because the comparison
before each step leaves room for the step.
-/

namespace Pandaemonium.Toml

/-! ## The loop -/

/-- The loop of `parseUintLiteralDigits` with the arithmetic of `uint64`. -/
def parseUintDigits64From (base limit : UInt64) (sawDigit : Bool) (u : UInt64) :
    Bytes → Except NumErr UInt64
  | [] => if sawDigit then .ok u else .error .errSyntax
  | c :: t =>
    if c = 0x5F then parseUintDigits64From base limit sawDigit u t
    else
      match numericDigitValue c with
      | none => .error .errSyntax
      | some digit =>
        let d := UInt64.ofNat digit
        if base ≤ d then .error .errSyntax
        else if u > (limit - d) / base then .error .errRange
        else parseUintDigits64From base limit true (u * base + d) t

def parseUintDigits64 (raw : Bytes) (base limit : UInt64) : Except NumErr UInt64 :=
  parseUintDigits64From base limit false 0 raw

/-- A number, when 64 bits hold it. -/
def fits (n : Nat) : Option UInt64 := if n < 2 ^ 64 then some (UInt64.ofNat n) else none

/-- The loop again; it has no answer when a difference, product or sum wraps around. -/
def parseUintDigitsCheckedFrom (base limit : UInt64) (sawDigit : Bool) (u : UInt64) :
    Bytes → Option (Except NumErr UInt64)
  | [] => some (if sawDigit then .ok u else .error .errSyntax)
  | c :: t =>
    if c = 0x5F then parseUintDigitsCheckedFrom base limit sawDigit u t
    else
      match numericDigitValue c with
      | none => some (.error .errSyntax)
      | some digit =>
        let d := UInt64.ofNat digit
        if base ≤ d then some (.error .errSyntax)
        else if limit < d then none
        else if u > (limit - d) / base then some (.error .errRange)
        else do
          let product ← fits (u.toNat * base.toNat)
          let sum ← fits (product.toNat + d.toNat)
          parseUintDigitsCheckedFrom base limit true sum t

def parseUintDigitsChecked (raw : Bytes) (base limit : UInt64) : Option (Except NumErr UInt64) :=
  parseUintDigitsCheckedFrom base limit false 0 raw

/-- The bases and limits that `parseIntegerLiteral` uses. -/
structure LoopBounds (base limit : UInt64) : Prop where
  pos : 0 < base.toNat
  base_le : base.toNat ≤ 16
  room : base.toNat ≤ limit.toNat

theorem toNat_digit {c : UInt8} {digit : Nat} (h : numericDigitValue c = some digit) :
    (UInt64.ofNat digit).toNat = digit := by
  have := numericDigitValue_lt h
  rw [UInt64.toNat_ofNat']
  omega

variable {limit u : UInt64}

/-- The comparison is the same on numbers, since its difference does not wrap. -/
theorem guard64_iff {base d : UInt64} (hb : LoopBounds base limit) (hd : d.toNat < base.toNat) :
    u > (limit - d) / base ↔ u.toNat > (limit.toNat - d.toNat) / base.toNat := by
  have hle : d ≤ limit := UInt64.le_iff_toNat_le.mpr (by have := hb.room; omega)
  rw [gt_iff_lt, UInt64.lt_iff_toNat_lt, UInt64.toNat_div, UInt64.toNat_sub_of_le _ _ hle]

/-- **One step does not wrap**: past the comparison the next number is below the limit. -/
theorem step_fits {base d : UInt64} (hb : LoopBounds base limit) (hd : d.toNat < base.toNat)
    (hguard : ¬ u > (limit - d) / base) :
    fits (u.toNat * base.toNat) = some (u * base) ∧
      fits ((u * base).toNat + d.toNat) = some (u * base + d) ∧
      (u * base + d).toNat = u.toNat * base.toNat + d.toNat := by
  rw [guard64_iff hb hd, not_lt, Nat.le_div_iff_mul_le hb.pos] at hguard
  have hlimit : limit.toNat < 2 ^ 64 := limit.toNat_lt
  have hroom := hb.room
  have hproduct : u.toNat * base.toNat < 2 ^ 64 := by omega
  have hmul : (u * base).toNat = u.toNat * base.toNat := by
    rw [UInt64.toNat_mul, Nat.mod_eq_of_lt hproduct]
  have hsum : (u * base).toNat + d.toNat < 2 ^ 64 := by omega
  have hadd : (u * base + d).toNat = (u * base).toNat + d.toNat := by
    rw [UInt64.toNat_add, Nat.mod_eq_of_lt hsum]
  refine ⟨?_, ?_, by rw [hadd, hmul]⟩
  · rw [fits, if_pos hproduct, ← hmul, UInt64.ofNat_toNat]
  · rw [fits, if_pos hsum, ← hadd, UInt64.ofNat_toNat]

/-- **The loop in 64 bits** never wraps, and computes what the loop on numbers computes. -/
theorem parseUintDigits64From_eq {base : UInt64} (hb : LoopBounds base limit) (text : Bytes) (saw : Bool)
    (u : UInt64) :
    parseUintDigitsCheckedFrom base limit saw u text =
        some (parseUintDigits64From base limit saw u text) ∧
      (parseUintDigits64From base limit saw u text).map UInt64.toNat =
        parseUintLiteralDigitsFrom base.toNat limit.toNat saw u.toNat text := by
  induction text generalizing saw u with
  | nil => cases saw <;> exact ⟨rfl, rfl⟩
  | cons c t ih =>
    unfold parseUintDigitsCheckedFrom parseUintDigits64From parseUintLiteralDigitsFrom
    by_cases hc : c = 0x5F
    · rw [if_pos hc, if_pos hc, if_pos hc]
      exact ih saw u
    rw [if_neg hc, if_neg hc, if_neg hc]
    cases hdigit : numericDigitValue c with
    | none => exact ⟨rfl, rfl⟩
    | some digit =>
      have hd := toNat_digit hdigit
      by_cases hbase : base.toNat ≤ digit
      · have hbase64 : base ≤ UInt64.ofNat digit := by rwa [UInt64.le_iff_toNat_le, hd]
        simp only [if_pos hbase, if_pos hbase64]
        exact ⟨trivial, rfl⟩
      · have hbase64 : ¬ base ≤ UInt64.ofNat digit := by rwa [UInt64.le_iff_toNat_le, hd]
        have hlt : (UInt64.ofNat digit).toNat < base.toNat := by omega
        have hlimit : ¬ limit < UInt64.ofNat digit := by
          rw [UInt64.lt_iff_toNat_lt]
          have := hb.room
          omega
        have hiff := guard64_iff (u := u) hb hlt
        rw [hd] at hiff
        simp only [if_neg hbase, if_neg hbase64, if_neg hlimit]
        by_cases hguard : u > (limit - UInt64.ofNat digit) / base
        · simp only [if_pos hguard, if_pos (hiff.mp hguard)]
          exact ⟨trivial, rfl⟩
        obtain ⟨hproduct, hsum, hnext⟩ := step_fits hb hlt hguard
        rw [hd] at hnext
        simp only [if_neg hguard, if_neg (mt hiff.mpr hguard), hproduct, hsum, ← hnext,
          Option.bind_eq_bind, Option.bind_some]
        exact ih true _

/-! ## The literal -/

/-- `1 << 63`, the limit of a negative literal. -/
def minMagnitude : UInt64 := 0x8000000000000000

/-- `math.MaxInt64`, the limit of any other. -/
def maxInt64 : UInt64 := 0x7FFFFFFFFFFFFFFF

/-- `parseIntegerLiteral` with the types of the source. -/
def parseIntegerLiteral64 (raw : Bytes) : Except NumErr Int64 :=
  let neg := raw.head? = some 0x2D
  let (base, digits) := splitBase (trimSignBytes raw)
  match parseUintDigits64 digits (UInt64.ofNat base) (if neg then minMagnitude else maxInt64) with
  | .error e => .error e
  | .ok u => .ok (if neg then if u = minMagnitude then Int64.minValue else -u.toInt64 else u.toInt64)

theorem splitBase_mem (text : Bytes) : (splitBase text).1 ∈ [2, 8, 10, 16] := by
  unfold splitBase
  split
  · split
    · simp
    split
    · simp
    · split <;> simp
  · simp

theorem loopBounds_of_mem {base : Nat} (hbase : base ∈ [2, 8, 10, 16])
    (hlimit : limit = minMagnitude ∨ limit = maxInt64) : LoopBounds (UInt64.ofNat base) limit := by
  simp only [List.mem_cons, List.not_mem_nil, or_false] at hbase
  rcases hbase with rfl | rfl | rfl | rfl <;> rcases hlimit with rfl | rfl <;>
    exact ⟨by decide, by decide, by decide⟩

/-- A number below `2 ^ 63` is itself as an `int64`. -/
theorem toInt_toInt64 (h : u.toNat < 2 ^ 63) : u.toInt64.toInt = u.toNat := by
  rw [← UInt64.ofNat_toNat (x := u), UInt64.toInt64_ofNat', Int64.toInt_ofNat_of_lt h, UInt64.ofNat_toNat]

/-- The accepted magnitude is below the limit. -/
theorem parseUintLiteralDigitsFrom_le {base limit : Nat} {text : Bytes} {saw : Bool} {u n : Nat}
    (hb : 0 < base) (hbl : base ≤ limit) (hu : u ≤ limit)
    (h : parseUintLiteralDigitsFrom base limit saw u text = .ok n) : n ≤ limit := by
  induction text generalizing saw u with
  | nil =>
    unfold parseUintLiteralDigitsFrom at h
    split at h
    · cases h
      exact hu
    · cases h
  | cons c t ih =>
    unfold parseUintLiteralDigitsFrom at h
    split at h
    · exact ih hu h
    split at h
    · cases h
    rename_i d hd
    split at h
    · cases h
    rename_i hdb
    split at h
    · cases h
    rename_i hguard
    rw [gt_iff_lt, not_lt, Nat.le_div_iff_mul_le hb] at hguard
    exact ih (by omega) h

/-- The magnitude as a negative `int64`; `2 ^ 63` has no positive one. -/
theorem toInt_negated (h : u.toNat ≤ 2 ^ 63) :
    (if u = minMagnitude then Int64.minValue else -u.toInt64).toInt = -(u.toNat : Int) := by
  by_cases hmin : u = minMagnitude
  · rw [if_pos hmin, hmin]
    rfl
  have hne : u.toNat ≠ 2 ^ 63 := fun heq => hmin (UInt64.toNat_inj.mp heq)
  have hlt : u.toNat < 2 ^ 63 := by omega
  rw [if_neg hmin, Int64.toInt_neg, toInt_toInt64 hlt]
  exact Int.bmod_eq_of_le (by omega) (by omega)

/-- The loop at the base and the limit of a literal. -/
theorem parseUintDigits64_eq {base : Nat} (hbase : base ∈ [2, 8, 10, 16])
    (hlimit : limit = minMagnitude ∨ limit = maxInt64) (digits : Bytes) :
    parseUintDigitsChecked digits (UInt64.ofNat base) limit =
        some (parseUintDigits64 digits (UInt64.ofNat base) limit) ∧
      (parseUintDigits64 digits (UInt64.ofNat base) limit).map UInt64.toNat =
        parseUintLiteralDigits digits base limit.toNat := by
  have hb := loopBounds_of_mem hbase hlimit
  have htoNat : (UInt64.ofNat base).toNat = base := by
    rw [UInt64.toNat_ofNat']
    simp only [List.mem_cons, List.not_mem_nil, or_false] at hbase
    omega
  have h := parseUintDigits64From_eq hb digits false 0
  rw [htoNat] at h
  exact h

/-- What the loop accepts is at most the limit. -/
theorem parseUintDigits64_le {base : Nat} {digits : Bytes} (hbase : base ∈ [2, 8, 10, 16])
    (hlimit : limit = minMagnitude ∨ limit = maxInt64)
    (h : parseUintDigits64 digits (UInt64.ofNat base) limit = .ok u) : u.toNat ≤ limit.toNat := by
  have hb := loopBounds_of_mem hbase hlimit
  have heq := (parseUintDigits64From_eq hb digits false 0).2
  rw [show parseUintDigits64From _ _ _ _ _ = _ from h] at heq
  exact parseUintLiteralDigitsFrom_le hb.pos hb.room (Nat.zero_le _) heq.symm

/-- **The types of the source hold every number** that the literal's reading goes through. -/
theorem parseIntegerLiteral64_eq (raw : Bytes) :
    (parseIntegerLiteral64 raw).map Int64.toInt = parseIntegerLiteral raw := by
  unfold parseIntegerLiteral64 parseIntegerLiteral
  have hbase := splitBase_mem (trimSignBytes raw)
  generalize splitBase (trimSignBytes raw) = split at hbase
  obtain ⟨base, digits⟩ := split
  by_cases hneg : raw.head? = some 0x2D
  · simp only [hneg, if_true]
    have heq := (parseUintDigits64_eq hbase (.inl rfl) digits).2
    rw [show (2 : Nat) ^ 63 = minMagnitude.toNat from rfl, ← heq]
    cases hu : parseUintDigits64 digits (UInt64.ofNat base) minMagnitude with
    | error e => rfl
    | ok u => exact congrArg Except.ok (toInt_negated (parseUintDigits64_le hbase (.inl rfl) hu))
  · simp only [hneg, if_false]
    have heq := (parseUintDigits64_eq hbase (.inr rfl) digits).2
    rw [show (2 : Nat) ^ 63 - 1 = maxInt64.toNat from rfl, ← heq]
    cases hu : parseUintDigits64 digits (UInt64.ofNat base) maxInt64 with
    | error e => rfl
    | ok u =>
      have hle := parseUintDigits64_le hbase (.inr rfl) hu
      exact congrArg Except.ok (toInt_toInt64 (lt_of_le_of_lt hle (by decide)))

/-- The bits that a `tokenScalar` stores. -/
def TokenScalar.bits : TokenScalar → UInt64
  | .none => 0
  | .integer i => (Int64.ofInt i).toUInt64
  | .float bits => UInt64.ofNat bits

/-- **Integer literals.** A bare value is an integer token exactly when it is an integer of the
    format in the range of `int64`; what the scalar stores reads back as the number written, and
    the digit loop computes it in 64 bits without wrapping. -/
theorem integer_literals (raw : Bytes) :
    ((∃ scalar, classifyBareValue raw = .ok (.valueInteger, scalar)) ↔
      ∃ v, TomlInteger raw v ∧ -2 ^ 63 ≤ v ∧ v ≤ 2 ^ 63 - 1) ∧
    (∀ scalar v, classifyBareValue raw = .ok (.valueInteger, scalar) → TomlInteger raw v →
      scalarIntegerValue scalar raw = .ok v ∧ scalar.bits.toInt64.toInt = v) ∧
    (parseIntegerLiteral64 raw).map Int64.toInt = parseIntegerLiteral raw ∧
    (∀ base ∈ [2, 8, 10, 16], ∀ limit ∈ [minMagnitude, maxInt64],
      parseUintDigitsChecked raw (UInt64.ofNat base) limit =
        some (parseUintDigits64 raw (UInt64.ofNat base) limit)) := by
  refine ⟨⟨?_, ?_⟩, ?_, parseIntegerLiteral64_eq raw, ?_⟩
  · rintro ⟨scalar, h⟩
    obtain ⟨v, hv, hrange, -⟩ := classify_integer_iff.mp h
    exact ⟨v, hv, hrange⟩
  · rintro ⟨v, hv, hrange⟩
    exact ⟨_, classify_integer_iff.mpr ⟨v, hv, hrange, rfl⟩⟩
  · intro scalar w h hw
    obtain ⟨v, hv, hrange, rfl⟩ := classify_integer_iff.mp h
    cases hv.unique hw hrange
    refine ⟨rfl, ?_⟩
    rw [TokenScalar.bits, Int64.toInt64_toUInt64]
    exact Int64.toInt_ofInt_of_le hrange.1 (by omega)
  · intro base hbase limit hlimit
    simp only [List.mem_cons (b := minMagnitude), List.mem_singleton] at hlimit
    exact (parseUintDigits64_eq hbase hlimit raw).1

theorem integer_literals_hex :
    TomlInteger (ascii "0x1F") 31 ∧
      classifyBareValue (ascii "0x1F") = .ok (.valueInteger, .integer 31) ∧
      scalarIntegerValue (.integer 31) (ascii "0x1F") = .ok 31 ∧
      (TokenScalar.integer 31).bits.toInt64.toInt = 31 := by
  have hliteral : TomlInteger (ascii "0x1F") 31 :=
    @TomlInteger.based 0x78 16 (ascii "1F") (by decide) (.digit rfl (.one rfl))
  have hclassified : classifyBareValue (ascii "0x1F") = .ok (.valueInteger, .integer 31) := by
    decide
  exact ⟨hliteral, hclassified, (integer_literals (ascii "0x1F")).2.1 _ _ hclassified hliteral⟩

end Pandaemonium.Toml
