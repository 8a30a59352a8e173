import Pandaemonium.Toml.Parse

/-!
# `Toml.Integers` — integer literals (`decoder.go`, `value.go`)

An integer literal is recognised in one place (`isIntCandidateBytes`), refused for a capital prefix in
another, and evaluated in a third (`parseUintLiteralDigits`), which compares with its limit before each
step. Against them stands the grammar of TOML (`TomlInteger`) with the number a literal denotes.
`classify_integer_iff` says that the three together accept the literals of the grammar whose number is in
the range of `int64`, and nothing else.
-/

namespace Pandaemonium.Toml

open List
open Decimal (isDigit)

/-! ## The grammar -/

/-- A digit in a base. -/
def isDigitOf (base : Nat) (c : UInt8) : Bool := (numericDigitValue c).any (fun d => d < base)

/-- Digits with single underscores between them. -/
inductive Grouped (ok : UInt8 → Bool) : Bytes → Prop
  | one {c : UInt8} : ok c = true → Grouped ok [c]
  | digit {c : UInt8} {t : Bytes} : ok c = true → Grouped ok t → Grouped ok (c :: t)
  | underscore {c : UInt8} {t : Bytes} : ok c = true → Grouped ok t → Grouped ok (c :: 0x5F :: t)

/-- The digits of a literal, without its underscores. -/
def digitsOf (text : Bytes) : List Nat :=
  (text.filter (fun c => c != 0x5F)).map (fun c => (numericDigitValue c).getD 0)

/-- The number that digits denote in a base. -/
def valueOf (base : Nat) (text : Bytes) : Nat := Nat.ofDigits base (digitsOf text).reverse

/-- **The integers of TOML**: an optional sign for decimals, no leading zero, a prefix in lower case and no
    sign for the other bases. -/
inductive TomlInteger : Bytes → Int → Prop
  | decimal {sign digits : Bytes} : sign ∈ [[], [0x2B], [0x2D]] → Grouped (isDigitOf 10) digits →
      digits = [0x30] ∨ digits.head? ≠ some 0x30 →
      TomlInteger (sign ++ digits) (if sign = [0x2D] then -(valueOf 10 digits : Int) else valueOf 10 digits)
  | based {letter : UInt8} {base : Nat} {digits : Bytes} :
      (letter, base) ∈ [((0x78 : UInt8), 16), (0x6F, 8), (0x62, 2)] → Grouped (isDigitOf base) digits →
      TomlInteger (0x30 :: letter :: digits) (valueOf base digits)

/-! ## Digits -/

/-- `numericDigitValue` in numbers. -/
theorem numericDigitValue_eq (c : UInt8) :
    numericDigitValue c =
      if 0x30 ≤ c.toNat ∧ c.toNat ≤ 0x39 then some (c.toNat - 0x30)
      else if 0x61 ≤ c.toNat ∧ c.toNat ≤ 0x66 then some (c.toNat - 0x61 + 10)
      else if 0x41 ≤ c.toNat ∧ c.toNat ≤ 0x46 then some (c.toNat - 0x41 + 10)
      else none := by
  unfold numericDigitValue
  simp only [Bool.and_eq_true, decide_eq_true_eq, Utf8.le_toNat]
  rfl

variable {c : UInt8}

theorem numericDigitValue_lt {d : Nat} (h : numericDigitValue c = some d) : d < 16 := by
  rw [numericDigitValue_eq] at h
  split_ifs at h <;> cases h <;> omega

variable {base : Nat}

theorem isDigitOf_iff : isDigitOf base c = true ↔ ∃ d, numericDigitValue c = some d ∧ d < base := by
  rw [isDigitOf, Option.any_eq_true]
  simp

/-- A digit in numbers. -/
theorem isDigitOf_toNat : isDigitOf base c = true ↔
      (0x30 ≤ c.toNat ∧ c.toNat ≤ 0x39 ∧ c.toNat - 0x30 < base) ∨
        (0x61 ≤ c.toNat ∧ c.toNat ≤ 0x66 ∧ c.toNat - 0x61 + 10 < base) ∨
        (0x41 ≤ c.toNat ∧ c.toNat ≤ 0x46 ∧ c.toNat - 0x41 + 10 < base) := by
  rw [isDigitOf, numericDigitValue_eq]
  split_ifs with h₁ h₂ h₃
  · rw [Option.any_some, decide_eq_true_eq]
    omega
  · rw [Option.any_some, decide_eq_true_eq]
    omega
  · rw [Option.any_some, decide_eq_true_eq]
    omega
  · simp only [Option.any_none, Bool.false_eq_true, false_iff]
    omega

theorem isDigitOf_ten (c : UInt8) : isDigitOf 10 c = isDigit c := by
  rw [Bool.eq_iff_iff, isDigitOf_toNat]
  simp only [isDigit, Bool.and_eq_true, decide_eq_true_eq, Utf8.le_toNat]
  show _ ↔ 0x30 ≤ c.toNat ∧ c.toNat ≤ 0x39
  omega

variable {letter : UInt8}

/-- The letters of the prefixes and their bases. -/
abbrev bases : List (UInt8 × Nat) := [(0x78, 16), (0x6F, 8), (0x62, 2)]

theorem mem_bases (h : (letter, base) ∈ bases) :
    (letter = 0x78 ∧ base = 16) ∨ (letter = 0x6F ∧ base = 8) ∨ (letter = 0x62 ∧ base = 2) := by
  simpa using h

theorem not_isDigitOf_underscore (h : (letter, base) ∈ bases) : isDigitOf base 0x5F = false := by
  rcases mem_bases h with ⟨-, rfl⟩ | ⟨-, rfl⟩ | ⟨-, rfl⟩ <;> rfl

/-- The digits of each prefix are those of its base. -/
theorem isDigitOf_prefixed (h : (letter, base) ∈ bases) (c : UInt8) :
    isDigitOf base c = validPrefixedDigit c letter := by
  have h0 : c = 0x30 ↔ c.toNat = 0x30 := UInt8.toNat_inj.symm
  have h1 : c = 0x31 ↔ c.toNat = 0x31 := UInt8.toNat_inj.symm
  rw [Bool.eq_iff_iff, isDigitOf_toNat]
  rcases mem_bases h with ⟨rfl, rfl⟩ | ⟨rfl, rfl⟩ | ⟨rfl, rfl⟩
  · show _ ↔ (0x30 ≤ c && c ≤ 0x39 || 0x61 ≤ c && c ≤ 0x66 || 0x41 ≤ c && c ≤ 0x46) = true
    simp only [Bool.or_eq_true, Bool.and_eq_true, decide_eq_true_eq, Utf8.le_toNat]
    show _ ↔ ((0x30 ≤ c.toNat ∧ c.toNat ≤ 0x39) ∨ (0x61 ≤ c.toNat ∧ c.toNat ≤ 0x66)) ∨
      (0x41 ≤ c.toNat ∧ c.toNat ≤ 0x46)
    omega
  · show _ ↔ (0x30 ≤ c && c ≤ 0x37) = true
    simp only [Bool.and_eq_true, decide_eq_true_eq, Utf8.le_toNat]
    show _ ↔ 0x30 ≤ c.toNat ∧ c.toNat ≤ 0x37
    omega
  · show _ ↔ (c == 0x30 || c == 0x31) = true
    simp only [Bool.or_eq_true, beq_iff_eq, h0, h1]
    omega

/-! ## Underscores -/

section

variable {ok : UInt8 → Bool}

theorem Grouped.head {t : Bytes} (h : Grouped ok t) : ∃ c u, t = c :: u ∧ ok c = true := by
  cases h with
  | one hc | digit hc _ | underscore hc _ => exact ⟨_, _, rfl, hc⟩

/-- What the source asks of the digits and underscores of a literal. -/
structure UnderscoresValid (ok : UInt8 → Bool) (t : Bytes) : Prop where
  ne_nil : t ≠ []
  ends : endsInUnderscore t = false
  bytes : ∀ c ∈ t, c = 0x5F ∨ ok c = true
  between : underscoresBetween ok none false t = true

/-- What came before matters only to an underscore. -/
theorem underscoresBetween_digit {c : UInt8} (hc : c ≠ 0x5F) (prev : Option UInt8) (under : Bool) (t : Bytes) :
    underscoresBetween ok prev under (c :: t) = underscoresBetween ok (some c) false t := by
  rw [underscoresBetween, if_pos hc]

theorem endsInUnderscore_cons {c : UInt8} {t : Bytes} :
    endsInUnderscore (c :: t) = false ↔ c ≠ 0x5F ∧ (c :: t).getLast? ≠ some 0x5F := by
  simp [endsInUnderscore]

theorem ne_underscore (hok : ok 0x5F = false) {c : UInt8} (hc : ok c = true) : c ≠ 0x5F := by
  rintro rfl
  rw [hok] at hc
  cases hc

/-- The source accepts grouped digits, -/
theorem UnderscoresValid.grouped (hok : ok 0x5F = false) {t : Bytes} (h : UnderscoresValid ok t) :
    Grouped ok t := by
  induction hn : t.length using Nat.strongRecOn generalizing t with
  | ind n ih =>
    obtain ⟨hnil, hends, hbytes, hbetween⟩ := h
    match t, hnil with
    | [c], _ =>
      rw [endsInUnderscore_cons] at hends
      exact .one ((hbytes c mem_cons_self).resolve_left hends.1)
    | c :: d :: t, _ =>
      rw [endsInUnderscore_cons, getLast?_cons_cons] at hends
      obtain ⟨hc, hlast⟩ := hends
      have hokc := (hbytes c mem_cons_self).resolve_left hc
      rw [underscoresBetween_digit hc] at hbetween
      by_cases hd : d = 0x5F
      · subst hd
        rw [underscoresBetween, if_neg (by simp)] at hbetween
        split at hbetween
        · cases hbetween
        rename_i hstep
        simp only [Bool.or_eq_true, not_or, Bool.not_eq_true, Bool.not_eq_false'] at hstep
        cases t with
        | nil => cases hstep.2
        | cons e t =>
          have he : e ≠ 0x5F := ne_underscore hok (by simpa using hstep.2)
          refine .underscore hokc (ih _ (by rw [← hn]; simp) ⟨by simp, ?_, ?_, ?_⟩ rfl)
          · rw [getLast?_cons_cons] at hlast
            exact endsInUnderscore_cons.mpr ⟨he, hlast⟩
          · exact fun x hx => hbytes x (mem_cons_of_mem _ (mem_cons_of_mem _ hx))
          · rwa [underscoresBetween_digit he] at hbetween ⊢
      · refine .digit hokc (ih _ (by rw [← hn]; simp) ⟨by simp, ?_, ?_, ?_⟩ rfl)
        · exact endsInUnderscore_cons.mpr ⟨hd, hlast⟩
        · exact fun x hx => hbytes x (mem_cons_of_mem _ hx)
        · rwa [underscoresBetween_digit hd] at hbetween ⊢

/-- and nothing else. -/
theorem Grouped.valid (hok : ok 0x5F = false) {t : Bytes} (h : Grouped ok t) : UnderscoresValid ok t := by
  induction h with
  | @one c hc =>
    have hne := ne_underscore hok hc
    refine ⟨by simp, endsInUnderscore_cons.mpr ⟨hne, by simpa using hne⟩, ?_, ?_⟩
    · exact forall_mem_singleton.mpr (.inr hc)
    · rw [underscoresBetween_digit hne]
      rfl
  | @digit c t hc ht ih =>
    obtain ⟨d, u, rfl, hd⟩ := ht.head
    have hne := ne_underscore hok hc
    refine ⟨by simp, ?_, forall_mem_cons.mpr ⟨.inr hc, ih.bytes⟩, ?_⟩
    · rw [endsInUnderscore_cons, getLast?_cons_cons]
      exact ⟨hne, (endsInUnderscore_cons.mp ih.ends).2⟩
    have hbetween := ih.between
    rw [underscoresBetween_digit (ne_underscore hok hd)] at hbetween
    rwa [underscoresBetween_digit hne, underscoresBetween_digit (ne_underscore hok hd)]
  | @underscore c t hc ht ih =>
    obtain ⟨d, u, rfl, hd⟩ := ht.head
    have hne := ne_underscore hok hc
    refine ⟨by simp, ?_, ?_, ?_⟩
    · rw [endsInUnderscore_cons, getLast?_cons_cons, getLast?_cons_cons]
      exact ⟨hne, (endsInUnderscore_cons.mp ih.ends).2⟩
    · exact forall_mem_cons.mpr ⟨.inr hc, forall_mem_cons.mpr ⟨.inl rfl, ih.bytes⟩⟩
    have hbetween := ih.between
    rw [underscoresBetween_digit (ne_underscore hok hd)] at hbetween
    rw [underscoresBetween_digit hne, underscoresBetween, if_neg (by simp),
      if_neg (by simp [hc, hd]), underscoresBetween_digit (ne_underscore hok hd)]
    exact hbetween

/-- **Underscores, as the source checks them**, are those of the grammar. -/
theorem grouped_iff (hok : ok 0x5F = false) (t : Bytes) :
    Grouped ok t ↔ !t.isEmpty && !endsInUnderscore t && t.all (fun c => c == 0x5F || ok c) &&
      underscoresBetween ok none false t := by
  simp only [Bool.and_eq_true, Bool.not_eq_true', isEmpty_eq_false_iff, all_eq_true,
    Bool.or_eq_true, beq_iff_eq]
  constructor
  · intro h
    obtain ⟨hnil, hends, hbytes, hbetween⟩ := h.valid hok
    exact ⟨⟨⟨hnil, hends⟩, hbytes⟩, hbetween⟩
  · rintro ⟨⟨⟨hnil, hends⟩, hbytes⟩, hbetween⟩
    exact UnderscoresValid.grouped hok ⟨hnil, hends, hbytes, hbetween⟩

end

theorem isDigit_underscore : isDigit 0x5F = false := rfl

/-- The digits of a decimal, as the source checks them. -/
theorem grouped_decimal_iff (n : Bytes) :
    Grouped isDigit n ↔ n.all (fun b => isDigit b || b == 0x5F) && hasValidNumberUnderscoresBytes n := by
  rw [grouped_iff isDigit_underscore, hasValidNumberUnderscoresBytes]
  simp only [Bool.and_eq_true, all_eq_true, Bool.or_comm]
  tauto

/-- The digits behind a prefix. -/
theorem grouped_prefixed_iff (h : (letter, base) ∈ bases) (n : Bytes) :
    Grouped (isDigitOf base) n ↔ prefixedDigitsValidBytes n letter = true := by
  have hclass : isDigitOf base = fun c => validPrefixedDigit c letter := funext (isDigitOf_prefixed h)
  have hok := not_isDigitOf_underscore h
  rw [hclass] at hok ⊢
  rw [grouped_iff hok, prefixedDigitsValidBytes]

/-! ## Recognition -/

/-- The digits of a decimal literal without its sign. -/
def Unsigned (n : Bytes) : Prop := Grouped isDigit n ∧ (n = [0x30] ∨ n.head? ≠ some 0x30)

theorem isDigitOf_ten_eq : isDigitOf 10 = isDigit := funext isDigitOf_ten

/-- A text and its sign. -/
theorem trimSignBytes_split (raw : Bytes) :
    ∃ sign ∈ ([[], [0x2B], [0x2D]] : List Bytes), raw = sign ++ trimSignBytes raw ∧
      (raw.head? = some 0x2D ↔ sign = [0x2D]) ∧ (raw.head? = some 0x2B ↔ sign = [0x2B]) := by
  cases raw with
  | nil => exact ⟨[], by simp, rfl, by simp, by simp⟩
  | cons c t =>
    by_cases hplus : c = 0x2B
    · subst hplus
      exact ⟨[0x2B], by simp, rfl, by simp, by simp⟩
    by_cases hminus : c = 0x2D
    · subst hminus
      exact ⟨[0x2D], by simp, rfl, by simp, by simp⟩
    · exact ⟨[], by simp, by simp [trimSignBytes, hplus, hminus], by simp [hminus], by simp [hplus]⟩

theorem trimSignBytes_unsigned {sign n : Bytes} (hsign : sign ∈ ([[], [0x2B], [0x2D]] : List Bytes))
    {t : Bytes} (hn : n = c :: t) (hc : isDigit c = true) : trimSignBytes (sign ++ n) = n := by
  have hnot : ¬ (c = 0x2B ∨ c = 0x2D) := by
    rintro (rfl | rfl) <;> cases hc
  subst hn
  simp only [mem_cons, not_mem_nil, or_false] at hsign
  rcases hsign with rfl | rfl | rfl
  · simp [trimSignBytes, hnot]
  · rfl
  · rfl

theorem lowerASCII_letter (h : lowerASCII c = letter)
    (hletter : letter = 0x62 ∨ letter = 0x6F ∨ letter = 0x78) (hcapital : ¬ (c = 0x42 ∨ c = 0x4F ∨ c = 0x58)) :
    c = letter := by
  unfold lowerASCII at h
  split at h
  · have hc : c = letter - 0x20 := by rw [← h, UInt8.add_sub_cancel]
    refine absurd ?_ hcapital
    rcases hletter with rfl | rfl | rfl
    · exact .inl hc
    · exact .inr (.inl hc)
    · exact .inr (.inr hc)
  · exact h

/-- What `isIntCandidateBytes` asks of a decimal. -/
def decimalCandidate (n : Bytes) : Bool :=
  !(match n with
    | 0x30 :: d :: _ => isDigit d
    | _ => false) &&
    n.all (fun b => isDigit b || b == 0x5F) && hasValidNumberUnderscoresBytes n

theorem decimalCandidate_iff (n : Bytes) :
    Unsigned n ↔ decimalCandidate n = true ∧ ∀ t, n ≠ 0x30 :: 0x5F :: t := by
  unfold Unsigned decimalCandidate
  rw [Bool.and_assoc, Bool.and_eq_true, ← grouped_decimal_iff]
  constructor
  · rintro ⟨hgrouped, hzero | hhead⟩
    · subst hzero
      exact ⟨⟨rfl, hgrouped⟩, by simp⟩
    refine ⟨⟨?_, hgrouped⟩, ?_⟩
    · split
      · exact absurd rfl hhead
      · rfl
    · rintro t rfl
      exact hhead rfl
  · rintro ⟨⟨hlead, hgrouped⟩, hunder⟩
    refine ⟨hgrouped, ?_⟩
    cases hgrouped with
    | @one c hc =>
      by_cases h0 : c = 0x30
      · exact .inl (by rw [h0])
      · exact .inr (by simpa using h0)
    | @digit c t hc ht =>
      refine .inr (fun h0 => ?_)
      cases Option.some.inj h0
      obtain ⟨d, u, rfl, hd⟩ := ht.head
      change (!isDigit d) = true at hlead
      rw [hd] at hlead
      cases hlead
    | @underscore c t hc ht =>
      refine .inr (fun h0 => ?_)
      cases Option.some.inj h0
      exact hunder t rfl

/-- `isIntCandidateBytes`, with the check of a decimal named. -/
theorem isIntCandidateBytes_eq (raw : Bytes) :
    isIntCandidateBytes raw =
      match trimSignBytes raw with
      | [] | 0x30 :: 0x5F :: _ => false
      | 0x30 :: c :: d :: t =>
        if lowerASCII c = 0x62 ∨ lowerASCII c = 0x6F ∨ lowerASCII c = 0x78 then
          if raw.head? = some 0x2B ∨ raw.head? = some 0x2D then false
          else prefixedDigitsValidBytes (d :: t) (lowerASCII c)
        else decimalCandidate (trimSignBytes raw)
      | _ => decimalCandidate (trimSignBytes raw) := rfl

variable {raw : Bytes}

/-- **What is recognised as an integer** is an integer of TOML, its range aside. -/
theorem isIntCandidate_sound (h : isIntCandidateBytes raw = true)
    (hcapital : hasCapitalNumericPrefixBytes raw = false) :
    (∃ sign ∈ ([[], [0x2B], [0x2D]] : List Bytes), ∃ n, raw = sign ++ n ∧ Unsigned n) ∨
      ∃ letter base n, (letter, base) ∈ bases ∧
        raw = 0x30 :: letter :: n ∧ Grouped (isDigitOf base) n := by
  obtain ⟨sign, hsign, hraw, hminus, hplus⟩ := trimSignBytes_split raw
  have hdecimal : decimalCandidate (trimSignBytes raw) = true →
      (∀ t, trimSignBytes raw ≠ 0x30 :: 0x5F :: t) →
      ∃ sign ∈ ([[], [0x2B], [0x2D]] : List Bytes), ∃ n, raw = sign ++ n ∧ Unsigned n :=
    fun hcandidate hunder =>
      ⟨sign, hsign, _, hraw, (decimalCandidate_iff _).mpr ⟨hcandidate, hunder⟩⟩
  rw [isIntCandidateBytes_eq] at h
  split at h
  · cases h
  · cases h
  · rename_i c d t hunder hn
    split at h
    · -- a prefix, which takes no sign
      rename_i hletter
      split at h
      · cases h
      rename_i hnosign
      have hnone : sign = [] := by
        simp only [mem_cons, not_mem_nil, or_false] at hsign
        rcases hsign with rfl | rfl | rfl
        · rfl
        · exact absurd (.inl (hplus.mpr rfl)) hnosign
        · exact absurd (.inr (hminus.mpr rfl)) hnosign
      have hsmall : ¬ (c = 0x42 ∨ c = 0x4F ∨ c = 0x58) := by
        rw [hasCapitalNumericPrefixBytes, hn] at hcapital
        simpa [and_assoc] using hcapital
      have hc := lowerASCII_letter rfl hletter hsmall
      rw [← hc] at h hletter
      have hbase : ∃ base, (c, base) ∈ bases := by
        rcases hletter with rfl | rfl | rfl
        · exact ⟨2, by simp⟩
        · exact ⟨8, by simp⟩
        · exact ⟨16, by simp⟩
      obtain ⟨base, hbase⟩ := hbase
      refine .inr ⟨c, base, d :: t, hbase, ?_, (grouped_prefixed_iff hbase _).mpr h⟩
      rw [hraw, hn, hnone]
      rfl
    · exact .inl (hdecimal h (fun u hu => by rw [hn] at hu; cases hu; exact hunder rfl))
  · rename_i h1 h2 h3
    exact .inl (hdecimal h (fun u hu => h2 u hu))

/-- A decimal literal is recognised. -/
theorem isIntCandidate_decimal {sign n : Bytes} (hsign : sign ∈ ([[], [0x2B], [0x2D]] : List Bytes))
    (hn : Unsigned n) :
    isIntCandidateBytes (sign ++ n) = true ∧ hasCapitalNumericPrefixBytes (sign ++ n) = false ∧
      trimSignBytes (sign ++ n) = n ∧ splitBase n = (10, n) := by
  obtain ⟨c, t, rfl, hc⟩ := hn.1.head
  have htrim := trimSignBytes_unsigned hsign rfl hc (t := t)
  have hcandidate := ((decimalCandidate_iff _).mp hn).1
  -- a zero in front is the whole literal
  have hzero : c = 0x30 → t = [] := by
    rintro rfl
    rcases hn.2 with h | h
    · exact (List.cons.inj h).2
    · exact absurd rfl h
  rw [isIntCandidateBytes_eq, hasCapitalNumericPrefixBytes, htrim]
  by_cases h0 : c = 0x30
  · subst h0
    rw [hzero rfl] at hcandidate ⊢
    exact ⟨hcandidate, rfl, rfl, rfl⟩
  · refine ⟨?_, ?_, rfl, ?_⟩
    · split
      · rename_i heq; cases heq
      · rename_i heq; exact absurd (List.cons.inj heq).1 h0
      · rename_i heq; exact absurd (List.cons.inj heq).1 h0
      · exact hcandidate
    · split
      · rename_i heq; exact absurd (List.cons.inj heq).1 h0
      · rfl
    · unfold splitBase
      split
      · rename_i heq; exact absurd (List.cons.inj heq).1 h0
      · rfl

/-- A literal with a prefix is recognised. -/
theorem isIntCandidate_based {n : Bytes} (h : (letter, base) ∈ bases) (hn : Grouped (isDigitOf base) n) :
    isIntCandidateBytes (0x30 :: letter :: n) = true ∧
      hasCapitalNumericPrefixBytes (0x30 :: letter :: n) = false ∧
      splitBase (0x30 :: letter :: n) = (base, n) := by
  have hvalid := (grouped_prefixed_iff h n).mp hn
  obtain ⟨d, t, rfl, -⟩ := hn.head
  rcases mem_bases h with ⟨rfl, rfl⟩ | ⟨rfl, rfl⟩ | ⟨rfl, rfl⟩
  all_goals exact ⟨hvalid, rfl, rfl⟩

/-! ## Evaluation -/

/-- The number after more digits. -/
def accumulate (base u : Nat) (text : Bytes) : Nat := (digitsOf text).foldl (fun u d => u * base + d) u

theorem valueOf_eq (base : Nat) (text : Bytes) : valueOf base text = accumulate base 0 text := by
  rw [valueOf, accumulate, Nat.ofDigits_eq_foldr, foldr_reverse]
  simp [Nat.add_comm, Nat.mul_comm]

theorem digitsOf_underscore (t : Bytes) : digitsOf (0x5F :: t) = digitsOf t := by
  simp [digitsOf]

theorem digitsOf_digit {d : Nat} (hc : c ≠ 0x5F) (hd : numericDigitValue c = some d) (t : Bytes) :
    digitsOf (c :: t) = d :: digitsOf t := by
  simp [digitsOf, hc, hd]

theorem le_accumulate (hbase : 0 < base) (u : Nat) (text : Bytes) : u ≤ accumulate base u text := by
  unfold accumulate
  induction digitsOf text generalizing u with
  | nil => exact Nat.le_refl u
  | cons d ds ih =>
    rw [foldl_cons]
    have hstep : u ≤ u * base := Nat.le_mul_of_pos_right u hbase
    exact (by omega : u ≤ u * base + d).trans (ih _)

/-- The comparison before each step decides whether the next number passes the limit. -/
theorem guard_iff {limit u d : Nat} (hbase : 0 < base) (hd : d ≤ limit) :
    u > (limit - d) / base ↔ limit < u * base + d := by
  rw [gt_iff_lt, Nat.div_lt_iff_lt_mul hbase]
  omega

/-- **The loop computes the number of the digits, or finds that it is past the limit.** -/
theorem parseUintLiteralDigitsFrom_eq {limit : Nat} (hbase : 0 < base) (hlimit : base ≤ limit) {text : Bytes}
    (htext : ∀ c ∈ text, c = 0x5F ∨ isDigitOf base c = true) (saw : Bool) (u : Nat) (hu : u ≤ limit) :
    parseUintLiteralDigitsFrom base limit saw u text =
      if saw = false ∧ digitsOf text = [] then .error .errSyntax
      else if accumulate base u text ≤ limit then .ok (accumulate base u text) else .error .errRange := by
  induction text generalizing saw u with
  | nil =>
    cases saw with
    | true => simp [parseUintLiteralDigitsFrom, accumulate, digitsOf, hu]
    | false => simp [parseUintLiteralDigitsFrom, digitsOf]
  | cons c t ih =>
    have ht : ∀ d ∈ t, d = 0x5F ∨ isDigitOf base d = true := fun d hd => htext d (mem_cons_of_mem c hd)
    rw [parseUintLiteralDigitsFrom]
    by_cases hc : c = 0x5F
    · rw [if_pos hc, ih ht saw u hu, hc]
      simp only [accumulate, digitsOf_underscore]
      rfl
    · obtain ⟨d, hd, hdbase⟩ := isDigitOf_iff.mp ((htext c mem_cons_self).resolve_left hc)
      have hacc : accumulate base u (c :: t) = accumulate base (u * base + d) t := by
        rw [accumulate, digitsOf_digit hc hd, foldl_cons, accumulate]
      rw [if_neg hc, hd, hacc, digitsOf_digit hc hd]
      simp only [if_neg (Nat.not_le.mpr hdbase), guard_iff hbase (hdbase.le.trans hlimit)]
      by_cases hover : limit < u * base + d
      · have := le_accumulate hbase (u * base + d) t
        rw [if_pos hover, if_neg (by simp), if_neg (by omega)]
      · rw [if_neg hover, ih ht true _ (by omega)]
        simp

theorem Grouped.digitsOf_ne_nil {t : Bytes} (h : Grouped (isDigitOf base) t) (hok : isDigitOf base 0x5F = false) :
    digitsOf t ≠ [] := by
  obtain ⟨c, u, rfl, hc⟩ := h.head
  obtain ⟨d, hd, -⟩ := isDigitOf_iff.mp hc
  rw [digitsOf_digit (ne_underscore hok hc) hd]
  simp

/-- Grouped digits have a number, up to the limit. -/
theorem parseUintLiteralDigits_grouped {limit : Nat} (hbase : 0 < base) (hlimit : base ≤ limit)
    (hok : isDigitOf base 0x5F = false) {t : Bytes} (h : Grouped (isDigitOf base) t) :
    parseUintLiteralDigits t base limit =
      if valueOf base t ≤ limit then .ok (valueOf base t) else .error .errRange := by
  rw [parseUintLiteralDigits, parseUintLiteralDigitsFrom_eq hbase hlimit (h.valid hok).bytes false 0
    (Nat.zero_le limit), valueOf_eq]
  simp [h.digitsOf_ne_nil hok]

/-- `parseIntegerLiteral`, with the parts of the literal named. -/
theorem parseIntegerLiteral_of {n : Bytes} (hsplit : splitBase (trimSignBytes raw) = (base, n))
    (hbase : 0 < base) (hlimit : base ≤ 16) (hok : isDigitOf base 0x5F = false) (h : Grouped (isDigitOf base) n)
    :
    parseIntegerLiteral raw =
      if valueOf base n ≤ (if raw.head? = some 0x2D then 2 ^ 63 else 2 ^ 63 - 1) then
        .ok (if raw.head? = some 0x2D then -(valueOf base n : Int) else valueOf base n)
      else .error .errRange := by
  have hroom : base ≤ (if raw.head? = some 0x2D then 2 ^ 63 else 2 ^ 63 - 1) := by
    split <;> omega
  unfold parseIntegerLiteral
  rw [hsplit]
  dsimp only
  rw [parseUintLiteralDigits_grouped hbase hroom hok h]
  by_cases hle : valueOf base n ≤ (if raw.head? = some 0x2D then 2 ^ 63 else 2 ^ 63 - 1)
  · rw [if_pos hle, if_pos hle]
  · rw [if_neg hle, if_neg hle]

/-- **A literal evaluates to its number**, when that is in range. -/
theorem parseIntegerLiteral_eq {v : Int} (h : TomlInteger raw v) :
    isIntCandidateBytes raw = true ∧ hasCapitalNumericPrefixBytes raw = false ∧
      parseIntegerLiteral raw =
        if -2 ^ 63 ≤ v ∧ v ≤ 2 ^ 63 - 1 then .ok v else .error .errRange := by
  cases h with
  | @decimal sign digits hsign hgrouped hzero =>
    have hunsigned : Unsigned digits := ⟨by rwa [isDigitOf_ten_eq] at hgrouped, hzero⟩
    obtain ⟨hcandidate, hcapital, htrim, hsplit⟩ := isIntCandidate_decimal hsign hunsigned
    obtain ⟨c, t, hdigits, hc⟩ := hunsigned.1.head
    have hneg : (sign ++ digits).head? = some 0x2D ↔ sign = [0x2D] := by
      simp only [mem_cons, not_mem_nil, or_false] at hsign
      rcases hsign with rfl | rfl | rfl
      · have hne : c ≠ 0x2D := by
          rintro rfl
          cases hc
        simp [hdigits, hne]
      · simp
      · simp
    refine ⟨hcandidate, hcapital, ?_⟩
    rw [parseIntegerLiteral_of (by rw [htrim, hsplit]) (by decide) (by decide) rfl hgrouped]
    simp only [hneg]
    by_cases hminus : sign = [0x2D]
    · simp only [hminus, if_true]
      by_cases hle : valueOf 10 digits ≤ 2 ^ 63
      · rw [if_pos hle, if_pos (by omega)]
      · rw [if_neg hle, if_neg (by omega)]
    · simp only [hminus, if_false]
      by_cases hle : valueOf 10 digits ≤ 2 ^ 63 - 1
      · rw [if_pos hle, if_pos (by omega)]
      · rw [if_neg hle, if_neg (by omega)]
  | @based letter base digits hbase hgrouped =>
    obtain ⟨hcandidate, hcapital, hsplit⟩ := isIntCandidate_based hbase hgrouped
    have hfacts : 0 < base ∧ base ≤ 16 ∧ isDigitOf base 0x5F = false := by
      rcases mem_bases hbase with ⟨-, rfl⟩ | ⟨-, rfl⟩ | ⟨-, rfl⟩
      all_goals exact ⟨by decide, by decide, rfl⟩
    obtain ⟨hpos, hle, hok⟩ := hfacts
    refine ⟨hcandidate, hcapital, ?_⟩
    have hneg : ¬ (0x30 :: letter :: digits).head? = some 0x2D := by simp
    have htrim : trimSignBytes (0x30 :: letter :: digits) = 0x30 :: letter :: digits := rfl
    rw [parseIntegerLiteral_of (by rw [htrim, hsplit]) hpos hle hok hgrouped]
    simp only [hneg, if_false]
    by_cases hle : valueOf base digits ≤ 2 ^ 63 - 1
    · rw [if_pos hle, if_pos (by omega)]
    · rw [if_neg hle, if_neg (by omega)]

/-! ## Classification -/

/-- What tells an integer from the other bare values: it starts with a digit, after a sign perhaps, and
    none of the bytes of dates, times and tables follow. -/
structure NumberShape (c : UInt8) (t : Bytes) : Prop where
  first : isDigit c = true ∨ ((c = 0x2B ∨ c = 0x2D) ∧ ∃ d u, t = d :: u ∧ isDigit d = true)
  rest : ∀ b ∈ t, b ∉ ([0x2D, 0x3A, 0x3D, 0x20] : Bytes)

theorem not_mark_of_digit {b : UInt8} (h : b = 0x5F ∨ isDigitOf base b = true) :
    b ∉ ([0x2D, 0x3A, 0x3D, 0x20] : Bytes) := by
  intro hmem
  simp only [mem_cons, not_mem_nil, or_false] at hmem
  rcases hmem with rfl | rfl | rfl | rfl
  all_goals exact h.elim (by decide) (by simp [isDigitOf, numericDigitValue])

theorem TomlInteger.shape {v : Int} (h : TomlInteger raw v) : ∃ c t, raw = c :: t ∧ NumberShape c t := by
  cases h with
  | @decimal sign digits hsign hgrouped hzero =>
    have hrest : ∀ b ∈ digits, b ∉ ([0x2D, 0x3A, 0x3D, 0x20] : Bytes) :=
      fun b hb => not_mark_of_digit ((hgrouped.valid rfl).bytes b hb)
    obtain ⟨d, u, rfl, hd⟩ := hgrouped.head
    rw [isDigitOf_ten] at hd
    simp only [mem_cons (a := sign), not_mem_nil, or_false] at hsign
    rcases hsign with rfl | rfl | rfl
    · exact ⟨d, u, rfl, .inl hd, fun b hb => hrest b (mem_cons_of_mem d hb)⟩
    · exact ⟨_, _, rfl, .inr ⟨.inl rfl, d, u, rfl, hd⟩, hrest⟩
    · exact ⟨_, _, rfl, .inr ⟨.inr rfl, d, u, rfl, hd⟩, hrest⟩
  | @based letter base digits hbase hgrouped =>
    refine ⟨_, _, rfl, .inl rfl, forall_mem_cons.mpr ⟨?_, ?_⟩⟩
    · rcases mem_bases hbase with ⟨rfl, -⟩ | ⟨rfl, -⟩ | ⟨rfl, -⟩ <;> decide
    have hok := not_isDigitOf_underscore hbase
    exact fun b hb => not_mark_of_digit ((hgrouped.valid hok).bytes b hb)

section

variable {c : UInt8} {t : Bytes}

section

variable (h : NumberShape c t)
include h

theorem NumberShape.ne_of_mem {b d : UInt8} (hb : b ∈ t) (hd : d ∈ ([0x2D, 0x3A, 0x3D, 0x20] : Bytes)) :
    b ≠ d := by
  rintro rfl
  exact h.rest b hb hd

theorem NumberShape.not_datetime : looksLikeDatetime (c :: t) = false := by
  have hdate : hasDateShape (c :: t) = false := by
    unfold hasDateShape
    split
    · rename_i y0 y1 y2 y3 s0 m0 m1 s1 d0 d1 u heq
      cases heq
      have hne : s0 ≠ 0x2D := h.ne_of_mem (by simp) (by simp)
      simp [hne]
    · rfl
  have htime : hasTimeShape (c :: t) = false := by
    unfold hasTimeShape
    split
    · rename_i h0 h1 s0 m0 m1 u heq
      cases heq
      have hne : s0 ≠ 0x3A := h.ne_of_mem (by simp) (by simp)
      simp [hne]
    · rfl
  rw [looksLikeDatetime, hasDateTimeShape, hdate, htime]
  rfl

/-- The first byte is no letter and no separator. -/
theorem NumberShape.first_ne {d : UInt8} (hd : d ∈ ([0x3D, 0x20, 0x74, 0x66, 0x6E, 0x69] : Bytes)) : c ≠ d := by
  rintro rfl
  simp only [mem_cons, not_mem_nil, or_false] at hd
  rcases hd with rfl | rfl | rfl | rfl | rfl | rfl <;> rcases h.first with h | ⟨h | h, -⟩ <;> cases h

theorem NumberShape.no_separator : (c :: t).any (fun b => b == 0x3D || b == 0x20) = false := by
  rw [any_eq_false]
  refine forall_mem_cons.mpr ⟨?_, fun b hb => ?_⟩
  · simp [h.first_ne (d := 0x3D) (by simp), h.first_ne (d := 0x20) (by simp)]
  · simp [h.ne_of_mem hb (d := 0x3D) (by simp), h.ne_of_mem hb (d := 0x20) (by simp)]

/-- It is none of the words. -/
theorem NumberShape.ne_word {d : UInt8} {w : Bytes} (hd : d ∈ ([0x74, 0x66, 0x6E, 0x69] : Bytes)) :
    c :: t ≠ d :: w := by
  intro heq
  exact h.first_ne (mem_cons_of_mem _ (mem_cons_of_mem _ hd)) (List.cons.inj heq).1

/-- Nor one behind a sign. -/
theorem NumberShape.ne_signed_word {s d : UInt8} {w : Bytes} (hs : isDigit s = false) (hd : isDigit d = false) :
    c :: t ≠ s :: d :: w := by
  intro heq
  obtain ⟨rfl, rfl⟩ := List.cons.inj heq
  rcases h.first with hfirst | ⟨-, e, u, he, hdigit⟩
  · rw [hs] at hfirst
    cases hfirst
  cases he
  rw [hd] at hdigit
  cases hdigit

theorem NumberShape.not_special : parseSpecialFloatLiteral (c :: t) = none := by
  unfold parseSpecialFloatLiteral
  rw [if_neg, if_neg, if_neg, if_neg]
  · exact h.ne_signed_word rfl rfl
  · exact not_or.mpr ⟨h.ne_word (by decide), h.ne_signed_word rfl rfl⟩
  · exact h.ne_signed_word rfl rfl
  · exact not_or.mpr ⟨h.ne_word (by decide), h.ne_signed_word rfl rfl⟩

/-- **The earlier cases of `classifyBareValue` pass an integer by.** -/
theorem NumberShape.classify (hcandidate : isIntCandidateBytes (c :: t) = true)
    (hcapital : hasCapitalNumericPrefixBytes (c :: t) = false) :
    classifyBareValue (c :: t) =
      match parseIntegerLiteral (c :: t) with
      | .error _ => .error "malformed value"
      | .ok i => .ok (.valueInteger, .integer i) := by
  have hwords : ¬ (c :: t = ascii "true" ∨ c :: t = ascii "false") :=
    not_or.mpr ⟨h.ne_word (by decide), h.ne_word (by decide)⟩
  unfold classifyBareValue
  rw [h.not_datetime, h.no_separator, h.not_special, hcandidate, hcapital]
  cases parseIntegerLiteral (c :: t) with
  | error e | ok i => simp [hwords]

end

end

/-- The one way to an integer token. -/
theorem classify_integer_inv {scalar : TokenScalar} (h : classifyBareValue raw = .ok (.valueInteger, scalar)) :
    isIntCandidateBytes raw = true ∧ hasCapitalNumericPrefixBytes raw = false ∧
      ∃ i, parseIntegerLiteral raw = .ok i ∧ scalar = .integer i := by
  unfold classifyBareValue at h
  split at h
  · cases h
  split at h
  · cases h
  split at h
  · cases h
  split at h
  · cases h
  split at h
  · rename_i hcandidate
    split at h
    · cases h
    rename_i hcapital
    split at h
    · cases h
    rename_i i hi
    cases h
    exact ⟨hcandidate, by simpa using hcapital, i, hi, rfl⟩
  · split at h
    · split at h
      · cases h
      · cases h
    · cases h

/-- What is recognised as an integer has a number. -/
theorem exists_tomlInteger (h : isIntCandidateBytes raw = true)
    (hcapital : hasCapitalNumericPrefixBytes raw = false) : ∃ v, TomlInteger raw v := by
  rcases isIntCandidate_sound h hcapital with ⟨sign, hsign, n, rfl, hn⟩ | ⟨letter, base, n, hbase, rfl, hn⟩
  · exact ⟨_, .decimal hsign (by rw [isDigitOf_ten_eq]; exact hn.1) hn.2⟩
  · exact ⟨_, .based hbase hn⟩

/-- An integer token is a literal in range, and its scalar holds the literal's number. -/
theorem classify_integer_iff {scalar : TokenScalar} :
    classifyBareValue raw = .ok (.valueInteger, scalar) ↔
      ∃ v, TomlInteger raw v ∧ (-2 ^ 63 ≤ v ∧ v ≤ 2 ^ 63 - 1) ∧ scalar = .integer v := by
  constructor
  · intro h
    obtain ⟨hcandidate, hcapital, i, hi, rfl⟩ := classify_integer_inv h
    obtain ⟨v, hv⟩ := exists_tomlInteger hcandidate hcapital
    obtain ⟨-, -, heq⟩ := parseIntegerLiteral_eq hv
    rw [hi] at heq
    split at heq
    · rename_i hrange
      cases heq
      exact ⟨_, hv, hrange, rfl⟩
    · cases heq
  · rintro ⟨v, hv, hrange, rfl⟩
    obtain ⟨hcandidate, hcapital, heq⟩ := parseIntegerLiteral_eq hv
    obtain ⟨c, t, rfl, hshape⟩ := hv.shape
    rw [hshape.classify hcandidate hcapital, heq, if_pos hrange]

/-- A literal has one number. -/
theorem TomlInteger.unique {v w : Int} (hv : TomlInteger raw v) (hw : TomlInteger raw w)
    (hrange : -2 ^ 63 ≤ v ∧ v ≤ 2 ^ 63 - 1) : w = v := by
  obtain ⟨-, -, hpv⟩ := parseIntegerLiteral_eq hv
  obtain ⟨-, -, hpw⟩ := parseIntegerLiteral_eq hw
  rw [hpv, if_pos hrange] at hpw
  split at hpw
  · cases hpw
    rfl
  · cases hpw

end Pandaemonium.Toml
