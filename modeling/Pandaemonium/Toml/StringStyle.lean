import Pandaemonium.Toml.EditDocument
import Pandaemonium.Toml.StringWalk

/-!
# `Toml.StringStyle` — a string in the quotes of another (`document.go`)

`formatStringLike` writes a string between single quotes when the token it replaces has them and the string
has neither a quote nor a line end, and with `strconv.Quote` otherwise. Neither is TOML altogether: a
literal string takes no control character but the tab, whatever else the source lets through, and Go writes
`\a` and `\v` where TOML has no such escapes. Apart from these the text is one string token of TOML
(`StringToken`), and reads back as the string it was made of: `formatStringLike_faithful_iff`.
-/

namespace Pandaemonium.Toml

open List
open Utf8 (encodeRune validRune)

/-! ## String tokens on one line -/

/-- A character that stands for itself in a string: no control character but the tab. -/
structure PlainChar (r : Nat) : Prop where
  scalar : validRune r = true
  control : r = 0x09 ∨ 0x20 ≤ r
  delete : r ≠ 0x7F

/-- The text of one character between double quotes. -/
inductive BasicChar : Bytes → Prop
  | plain {r : Nat} : PlainChar r → r ≠ 0x22 → r ≠ 0x5C → BasicChar (encodeRune r)
  | short {c : UInt8} : c ∈ ascii "btnfre\"\\" → BasicChar [0x5C, c]
  | hex {c : UInt8} {digits : Bytes} {r : Nat} :
      (c, digits.length) ∈ [((0x78 : UInt8), 2), (0x75, 4), (0x55, 8)] → hexValue 0 digits = some r →
        validRune r = true → BasicChar (0x5C :: c :: digits)

/-- **A string token on one line**, as the grammar of TOML has them. -/
inductive StringToken : Bytes → Prop
  | basic {chars : List Bytes} : (∀ text ∈ chars, BasicChar text) →
      StringToken ([0x22] ++ chars.flatten ++ [0x22])
  | literal {rs : List Nat} : (∀ r ∈ rs, PlainChar r ∧ r ≠ 0x27) →
      StringToken ([0x27] ++ rs.flatMap encodeRune ++ [0x27])

/-! ## Escapes that Go writes -/

theorem hexDigitValue_hexDigit : ∀ k < 16, hexDigitValue (Quote.hexDigit k) = some k := by
  decide

/-- The digits of a number, read after `v`. -/
theorem hexValue_hexDigits (width v n : Nat) :
    hexValue v (Quote.hexDigits width n) = some (v * 16 ^ width + n % 16 ^ width) := by
  induction width generalizing v with
  | zero => simp [Quote.hexDigits, hexValue, Nat.mod_one]
  | succ width ih =>
    rw [Quote.hexDigits_succ, hexValue, hexDigitValue_hexDigit _ (Nat.mod_lt _ (by decide))]
    dsimp only
    rw [ih, Nat.mod_pow_succ, Nat.pow_succ]
    congr 1
    ring

theorem hexValue_hexDigits_of_lt {width n : Nat} (h : n < 16 ^ width) :
    hexValue 0 (Quote.hexDigits width n) = some n := by
  rw [hexValue_hexDigits, Nat.mod_eq_of_lt h]
  simp

variable {r : Nat}

theorem scalar_le (h : validRune r = true) : r ≤ 0x10FFFF := by
  simp only [validRune, Bool.or_eq_true, Bool.and_eq_true, decide_eq_true_eq] at h
  omega

theorem unicodeEscapeDigits_eq {c : UInt8} {width : Nat} (h : unicodeEscapeDigits c = some width) :
    (c, width) ∈ [((0x78 : UInt8), 2), (0x75, 4), (0x55, 8)] := by
  unfold unicodeEscapeDigits at h
  split_ifs at h with hx hu hU
  · cases h; simp [hx]
  · cases h; simp [hu]
  · cases h; simp [hU]

/-- **A numeric escape** is decoded by the walk. -/
theorem scanEscape_hexDigits {c : UInt8} {width : Nat} (hc : unicodeEscapeDigits c = some width)
    (hr : validRune r = true) (hwidth : r < 16 ^ width) (len i : Nat) (rest : Bytes) :
    scanEscape len i (0x5C :: c :: (Quote.hexDigits width r ++ rest)) =
      .ok (encodeRune r, 2 + width) := by
  have hsimple : simpleEscape c = none := by
    have hmem := unicodeEscapeDigits_eq hc
    simp only [mem_cons, Prod.mk.injEq, not_mem_nil, or_false] at hmem
    rcases hmem with ⟨rfl, -⟩ | ⟨rfl, -⟩ | ⟨rfl, -⟩ <;> rfl
  have hlen := Quote.length_hexDigits width r
  have hle := scalar_le hr
  have hmax : ¬ r > maxParseInt32 := by
    show ¬ r > 2 ^ 31 - 1
    omega
  rw [scanEscape]
  simp only [drop_succ_cons, drop_zero, hsimple, hc, parseUnicodeEscape]
  rw [if_neg (by simp [hlen]), take_left' hlen, hexValue_hexDigits_of_lt hwidth]
  simp [hmax, hr, Except.map]

/-- What the walk makes of the text of one character in front of the rest. -/
def Decodes (text out : Bytes) : Prop :=
  ∀ len i rest, ∃ j, scanBasicStringBody false len i (text ++ rest) =
    (scanBasicStringBody false len j rest).map (out ++ ·)

theorem decodes_escape {text out : Bytes} {c : UInt8} {n : Nat} (hlen : text.length = n)
    (h : ∀ len i rest, scanEscape len i (0x5C :: c :: (text ++ rest)) = .ok (out, 2 + n)) :
    Decodes (0x5C :: c :: text) out := by
  intro len i rest
  refine ⟨i + (2 + n), ?_⟩
  rw [cons_append, cons_append, scanBasicStringBody_escape (by simp), h]
  dsimp only
  rw [show 2 + n = n + 2 by omega, drop_succ_cons, drop_succ_cons, drop_left' hlen]

/-- Bytes that stand for themselves. -/
theorem decodes_plain {text : Bytes}
    (h : ∀ c ∈ text, c ≠ 0x5C ∧ prohibitedStringControl c false = false) : Decodes text text := by
  intro len i rest
  refine ⟨i + text.length, ?_⟩
  induction text generalizing i with
  | nil =>
    rw [nil_append, length_nil, Nat.add_zero]
    cases scanBasicStringBody false len i rest with
    | error e | ok out => rfl
  | cons c text ih =>
    obtain ⟨hslash, hcontrol⟩ := h c mem_cons_self
    rw [cons_append, scanBasicStringBody_plain hslash (by simp), hcontrol,
      if_neg Bool.false_ne_true, ih (fun d hd => h d (mem_cons_of_mem c hd)), map_map,
      length_cons, show i + 1 + text.length = i + (text.length + 1) by omega]
    rfl

theorem prohibitedStringControl_iff (c : UInt8) :
    prohibitedStringControl c false = true ↔ c.toNat ≠ 0x09 ∧ (c.toNat < 0x20 ∨ c.toNat = 0x7F) := by
  have h9 : c = 0x09 ↔ c.toNat = 0x09 := UInt8.toNat_inj.symm
  have h7f : c = 0x7F ↔ c.toNat = 0x7F := UInt8.toNat_inj.symm
  have h20 : c < 0x20 ↔ c.toNat < 0x20 := UInt8.lt_iff_toNat_lt
  unfold prohibitedStringControl
  split
  · rename_i h
    simp [h9.mp h]
  rename_i h
  simp only [Bool.false_and, Bool.false_eq_true, if_false, Bool.or_eq_true, decide_eq_true_eq,
    beq_iff_eq, h20, h7f]
  exact ⟨fun hc => ⟨fun he => h (h9.mpr he), hc⟩, fun hc => hc.2⟩

/-- A character that stands for itself is written with bytes that do. -/
theorem plain_encodeRune (h : PlainChar r) (hslash : r ≠ 0x5C) :
    ∀ c ∈ encodeRune r, c ≠ 0x5C ∧ prohibitedStringControl c false = false := by
  have hcontrol := h.control
  have hdelete := h.delete
  intro c hc
  rw [← Bool.not_eq_true, prohibitedStringControl_iff]
  rcases (Utf8.sequence_encodeRune h.scalar).ascii_or_high with ⟨b, hb, hrb, -⟩ | ⟨-, hall⟩
  · rw [hb, mem_singleton] at hc
    subst hc
    refine ⟨?_, by omega⟩
    rintro rfl
    exact hslash hrb
  · have hhigh := hall c hc
    refine ⟨?_, by omega⟩
    rintro rfl
    exact absurd hhigh (by decide)

/-! ## One character -/

/-- Where the quoted text of a character is not TOML: Go's `\a` and `\v`. -/
def goEscapeOnly (r : Nat) : Prop := r = 0x07 ∨ r = 0x0B

/-- **Every other character is quoted as TOML would**, and decoded to itself. -/
theorem escapedRune_spec (printable : Nat → Bool) (hr : validRune r = true) (hgo : ¬ goEscapeOnly r) :
    BasicChar (Quote.escapedRune printable r) ∧
      Decodes (Quote.escapedRune printable r) (encodeRune r) := by
  have hle := scalar_le hr
  have hhex : ∀ {c : UInt8} {width : Nat}, unicodeEscapeDigits c = some width → r < 16 ^ width →
      BasicChar (0x5C :: c :: Quote.hexDigits width r) ∧
        Decodes (0x5C :: c :: Quote.hexDigits width r) (encodeRune r) := by
    intro c width hc hwidth
    have hlen := Quote.length_hexDigits width r
    refine ⟨.hex ?_ (hexValue_hexDigits_of_lt hwidth) hr, ?_⟩
    · rw [hlen]
      exact unicodeEscapeDigits_eq hc
    · exact decodes_escape hlen (scanEscape_hexDigits hc hr hwidth)
  unfold Quote.escapedRune
  split
  · -- a quote or a backslash
    rename_i h
    rcases h with rfl | rfl
    · exact ⟨.short (by decide), decodes_escape rfl (fun _ _ _ => rfl)⟩
    · exact ⟨.short (by decide), decodes_escape rfl (fun _ _ _ => rfl)⟩
  · rename_i hquote
    split
    · -- a character that is printed
      rename_i hprint
      have hplain : PlainChar r := by
        unfold Quote.isPrint at hprint
        split at hprint
        · simp only [Bool.or_eq_true, Bool.and_eq_true, decide_eq_true_eq, bne_iff_ne] at hprint
          exact ⟨hr, by omega, by omega⟩
        · exact ⟨hr, by omega, by omega⟩
      refine ⟨.plain hplain (fun h => hquote (.inl h)) (fun h => hquote (.inr h)), ?_⟩
      exact decodes_plain (plain_encodeRune hplain (fun h => hquote (.inr h)))
    · split
      · -- a short escape
        rename_i c hshort
        unfold Quote.shortEscape at hshort
        split_ifs at hshort with h7 h8 hC hA hD h9 hB
        · exact absurd (.inl h7) hgo
        · cases hshort; subst h8
          exact ⟨.short (by decide), decodes_escape rfl (fun _ _ _ => rfl)⟩
        · cases hshort; subst hC
          exact ⟨.short (by decide), decodes_escape rfl (fun _ _ _ => rfl)⟩
        · cases hshort; subst hA
          exact ⟨.short (by decide), decodes_escape rfl (fun _ _ _ => rfl)⟩
        · cases hshort; subst hD
          exact ⟨.short (by decide), decodes_escape rfl (fun _ _ _ => rfl)⟩
        · cases hshort; subst h9
          exact ⟨.short (by decide), decodes_escape rfl (fun _ _ _ => rfl)⟩
        · exact absurd (.inr hB) hgo
      · split
        · exact hhex rfl (by omega)
        split
        · rename_i h; simp [hr] at h
        split
        · exact hhex rfl (by omega)
        · exact hhex rfl (by omega)

/-- The walk does not take Go's own escapes. -/
theorem escapedRune_refused (printable : Nat → Bool) (hgo : goEscapeOnly r) (len i : Nat) (rest : Bytes) :
    ∃ e, scanBasicStringBody false len i (Quote.escapedRune printable r ++ rest) = .error e := by
  rcases hgo with rfl | rfl
  all_goals exact ⟨_, scanBasicStringBody_escape (by simp)⟩

/-! ## Quoted strings -/

variable {rs : List Nat}

/-- The quoted text of a string, walked: the string itself, or an error where Go's own escapes occur. -/
theorem scanBasicStringBody_quoted (printable : Nat → Bool) (h : ∀ r ∈ rs, validRune r = true) (len i : Nat) :
    ((∀ r ∈ rs, ¬ goEscapeOnly r) →
      scanBasicStringBody false len i (rs.flatMap (Quote.escapedRune printable)) =
        .ok (rs.flatMap encodeRune)) ∧
    ((∃ r ∈ rs, goEscapeOnly r) →
      ∃ e, scanBasicStringBody false len i (rs.flatMap (Quote.escapedRune printable)) = .error e) := by
  induction rs generalizing i with
  | nil => exact ⟨fun _ => by simp, fun ⟨_, hr, _⟩ => by cases hr⟩
  | cons r rs ih =>
    have hrs := fun j => ih (fun r' hr' => h r' (mem_cons_of_mem r hr')) j
    rw [flatMap_cons, flatMap_cons]
    by_cases hgo : goEscapeOnly r
    · obtain ⟨e, he⟩ := escapedRune_refused printable hgo len i (rs.flatMap (Quote.escapedRune printable))
      exact ⟨fun hnone => absurd hgo (hnone r mem_cons_self), fun _ => ⟨e, he⟩⟩
    obtain ⟨j, hj⟩ := (escapedRune_spec printable (h r mem_cons_self) hgo).2 len i
      (rs.flatMap (Quote.escapedRune printable))
    rw [hj]
    constructor
    · intro hnone
      rw [(hrs j).1 (fun r' hr' => hnone r' (mem_cons_of_mem r hr'))]
      rfl
    · rintro ⟨r', hr', hgo'⟩
      rcases mem_cons.mp hr' with rfl | hr'
      · exact absurd hgo' hgo
      · obtain ⟨e, he⟩ := (hrs j).2 ⟨r', hr', hgo'⟩
        exact ⟨e, by rw [he]; rfl⟩

/-- Two quotes around a text that starts with none make no delimiter of three. -/
theorem not_triple {q d : UInt8} {body : Bytes} (h : body.head? ≠ some q) :
    hasTripleDelimiter ([q] ++ body ++ [q]) d = false := by
  cases body with
  | nil => rfl
  | cons c body =>
    have hc : c ≠ q := fun hcq => h (by rw [hcq]; rfl)
    by_cases hd : q = d
    · subst hd
      cases body with
      | nil => simp [hasTripleDelimiter]
      | cons e body => simp [hasTripleDelimiter, hc]
    · cases body with
      | nil => simp [hasTripleDelimiter]
      | cons e body => simp [hasTripleDelimiter, hd]

theorem pair_delimiter (q : UInt8) (body : Bytes) : hasPairDelimiter ([q] ++ body ++ [q]) q = true := by
  have hlast : ([q] ++ body ++ [q]).getLast? = some q := getLast?_concat
  rw [hasPairDelimiter, hlast]
  simp

theorem between (q : UInt8) (body : Bytes) :
    (([q] ++ body ++ [q]).drop 1).take (([q] ++ body ++ [q]).length - 2) = body := by
  simp

/-- A text between single quotes is a literal string on one line, unless it starts with a quote. -/
theorem stringValueBody_literal {body : Bytes} (h : body.head? ≠ some 0x27) :
    stringValueBody ([0x27] ++ body ++ [0x27]) = .ok (body, .literal) := by
  rw [stringValueBody, not_triple h, not_triple h, pair_delimiter, between]
  rfl

/-- And between double quotes a basic one. -/
theorem stringValueBody_basic {body : Bytes} (h : body.head? ≠ some 0x22) :
    stringValueBody ([0x22] ++ body ++ [0x22]) = .ok (body, .basic) := by
  have hsingle : hasPairDelimiter ([0x22] ++ body ++ [0x22]) 0x27 = false := by
    simp [hasPairDelimiter]
  rw [stringValueBody, not_triple h, not_triple h, hsingle, pair_delimiter, between]
  rfl

/-- A quoted text does not start with a quote. -/
theorem head_escapedRune (printable : Nat → Bool) (hr : validRune r = true) (t : Bytes) :
    (Quote.escapedRune printable r ++ t).head? ≠ some 0x22 := by
  unfold Quote.escapedRune
  split
  · simp
  rename_i hquote
  split
  · intro hhead
    have hmem : (0x22 : UInt8) ∈ encodeRune r := by
      cases hbytes : encodeRune r with
      | nil => exact absurd hbytes (Utf8.encodeRune_ne_nil r)
      | cons b bs =>
        rw [hbytes] at hhead
        cases Option.some.inj hhead
        exact mem_cons_self
    exact hquote (.inl ((Utf8.mem_encodeRune hr (by decide)).mp hmem))
  · split
    · simp
    · split_ifs <;> simp

theorem head_quoted (printable : Nat → Bool) (h : ∀ r ∈ rs, validRune r = true) :
    (rs.flatMap (Quote.escapedRune printable)).head? ≠ some 0x22 := by
  cases rs with
  | nil => simp
  | cons r rs =>
    rw [flatMap_cons]
    exact head_escapedRune printable (h r mem_cons_self) _

/-- What `strconv.Quote` writes is read as a basic string. -/
theorem parseStringValue_quote (printable : Nat → Bool) (h : ∀ r ∈ rs, validRune r = true) :
    parseStringValue (Quote.quote printable (rs.flatMap encodeRune)) =
      scanBasicStringBody false (rs.flatMap (Quote.escapedRune printable)).length 0
        (rs.flatMap (Quote.escapedRune printable)) := by
  have hquote : Quote.quote printable (rs.flatMap encodeRune) =
      [0x22] ++ rs.flatMap (Quote.escapedRune printable) ++ [0x22] := by
    rw [Quote.quote, Quote.quoteBody_runes printable h]
    rfl
  rw [hquote, parseStringValue, stringValueBody_basic (head_quoted printable h)]
  exact parseBasicStringBody_eq _ false

theorem stringToken_quote (printable : Nat → Bool) (h : ∀ r ∈ rs, validRune r = true)
    (hgo : ∀ r ∈ rs, ¬ goEscapeOnly r) : StringToken (Quote.quote printable (rs.flatMap encodeRune)) := by
  have hquote : Quote.quote printable (rs.flatMap encodeRune) =
      [0x22] ++ (rs.map (Quote.escapedRune printable)).flatten ++ [0x22] := by
    rw [Quote.quote, Quote.quoteBody_runes printable h, flatMap_def]
    rfl
  rw [hquote]
  refine .basic ?_
  rw [forall_mem_map]
  exact fun r hr => (escapedRune_spec printable (h r hr) (hgo r hr)).1

/-! ## The style of the old token -/

/-- The string goes between single quotes: the old token has them, and nothing in the string stands
    against it. -/
def literalKept (existing value : Bytes) : Bool :=
  existing.head? == some 0x27 && !value.any (fun c => c == 0x27 || c == 0x0A || c == 0x0D)

theorem pair_of_triple {raw : Bytes} {q : UInt8} (h : hasTripleDelimiter raw q = true) :
    hasPairDelimiter raw q = true := by
  simp only [hasTripleDelimiter, Bool.and_eq_true, decide_eq_true_eq, beq_iff_eq] at h
  obtain ⟨⟨hlen, hopen⟩, hclose⟩ := h
  have hhead : raw.head? = some q := by
    have := congrArg List.head? hopen
    rwa [head?_take, if_neg (by decide)] at this
  have hlast : raw.getLast? = some q := by
    have := congrArg List.getLast? hclose
    rwa [getLast?_drop, if_neg (by omega)] at this
  simp only [hasPairDelimiter, hhead, hlast, Bool.and_eq_true, decide_eq_true_eq, beq_self_eq_true, and_true]
  omega

/-- A string token begins and ends with the same quote. -/
theorem delimited_of_parse {raw v : Bytes} (h : parseStringValue raw = .ok v) :
    ∃ q, (q = 0x27 ∨ q = 0x22) ∧ hasPairDelimiter raw q = true := by
  have hbody : ∃ r, stringValueBody raw = .ok r := by
    cases hb : stringValueBody raw with
    | error e => rw [parseStringValue, hb] at h; cases h
    | ok r => exact ⟨r, rfl⟩
  obtain ⟨r, hr⟩ := hbody
  unfold stringValueBody at hr
  split_ifs at hr with h₁ h₂ h₃ h₄
  · exact ⟨0x27, .inl rfl, pair_of_triple h₁⟩
  · exact ⟨0x22, .inr rfl, pair_of_triple h₂⟩
  · exact ⟨0x27, .inl rfl, h₃⟩
  · exact ⟨0x22, .inr rfl, h₄⟩

theorem dropWhile_of_head {p : UInt8 → Bool} {raw : Bytes} {q : UInt8} (hq : p q = false)
    (hhead : raw.head? = some q) : raw.dropWhile p = raw := by
  cases raw with
  | nil => rfl
  | cons c t =>
    cases Option.some.inj hhead
    simp [hq]

/-- There is nothing to trim around a token. -/
theorem trim_delimited {raw : Bytes} {q : UInt8} (hspace : isSpaceASCII q = false) (hhead : raw.head? = some q)
    (hlast : raw.getLast? = some q) : trimRight isSpaceASCII (raw.dropWhile isSpaceASCII) = raw := by
  rw [dropWhile_of_head hspace hhead, trimRight,
    dropWhile_of_head hspace (by rw [head?_reverse]; exact hlast), reverse_reverse]

/-- **What `formatStringLike` writes** in place of a string token. -/
theorem formatStringLike_eq (lib : Strconv) {existing v : Bytes} (h : parseStringValue existing = .ok v)
    (value : Bytes) :
    formatStringLike lib existing value =
      if literalKept existing value then [0x27] ++ value ++ [0x27]
      else Quote.quote lib.printable value := by
  obtain ⟨q, hq, hpair⟩ := delimited_of_parse h
  simp only [hasPairDelimiter, Bool.and_eq_true, decide_eq_true_eq, beq_iff_eq] at hpair
  obtain ⟨⟨hlen, hhead⟩, hlast⟩ := hpair
  have htrim : trimRight isSpaceASCII (existing.dropWhile isSpaceASCII) = existing :=
    trim_delimited (by rcases hq with rfl | rfl <;> rfl) hhead hlast
  unfold formatStringLike
  simp only [htrim, hlen, true_and, literalKept, hhead, hlast, Option.some.injEq, ← and_assoc, and_self,
    Bool.and_eq_true, beq_iff_eq]

/-- **The text is one string token, and reads back as the string.** -/
def FormatsFaithfully (lib : Strconv) (existing value : Bytes) : Prop :=
  StringToken (formatStringLike lib existing value) ∧
    parseStringValue (formatStringLike lib existing value) = .ok value

/-- What the style that is written can hold: no control character but the tab between single quotes,
    and neither BEL nor VT between double quotes. -/
def styleHolds (existing value : Bytes) : Bool :=
  if literalKept existing value then value.all (fun c => !prohibitedStringControl c false)
  else value.all (fun c => c != 0x07 && c != 0x0B)

/-- Between single quotes. -/
theorem literal_faithful_iff {value : Bytes} (hvalid : Utf8.valid value = true) (hquote : 0x27 ∉ value) :
    (StringToken ([0x27] ++ value ++ [0x27]) ∧ parseStringValue ([0x27] ++ value ++ [0x27]) = .ok value) ↔
      ∀ c ∈ value, prohibitedStringControl c false = false := by
  have hhead : value.head? ≠ some 0x27 := fun h => hquote (mem_of_mem_head? h)
  rw [parseStringValue, stringValueBody_literal hhead]
  dsimp only
  rw [validateLiteralStringBody, validateStringControls, ← prohibitedStringControlIndex_eq_none 0]
  constructor
  · rintro ⟨-, hparse⟩
    cases hcontrol : prohibitedStringControlIndex false 0 value with
    | none => rfl
    | some found => rw [hcontrol] at hparse; cases hparse
  · intro hcontrol
    rw [hcontrol]
    refine ⟨?_, rfl⟩
    rw [prohibitedStringControlIndex_eq_none] at hcontrol
    obtain ⟨rs, hrs, rfl⟩ := Utf8.exists_runes hvalid
    refine .literal (fun r hr => ?_)
    -- an ASCII character is a byte of the text, where it was looked at
    by_cases hascii : r < 0x80
    · have hb : (UInt8.ofNat r).toNat = r := Utf8.toNat_ofNat (by omega)
      have hmem : UInt8.ofNat r ∈ rs.flatMap encodeRune :=
        mem_flatMap.mpr ⟨r, hr, (Utf8.mem_encodeRune (hrs r hr) (by omega)).mpr hb.symm⟩
      have hcheck := hcontrol _ hmem
      rw [← Bool.not_eq_true, prohibitedStringControl_iff, hb] at hcheck
      refine ⟨⟨hrs r hr, by omega, by omega⟩, ?_⟩
      rintro rfl
      exact hquote hmem
    · exact ⟨⟨hrs r hr, by omega, by omega⟩, by omega⟩

/-- Between double quotes. -/
theorem quote_faithful_iff (printable : Nat → Bool) {value : Bytes} (hvalid : Utf8.valid value = true) :
    (StringToken (Quote.quote printable value) ∧
        parseStringValue (Quote.quote printable value) = .ok value) ↔ 0x07 ∉ value ∧ 0x0B ∉ value := by
  obtain ⟨rs, hrs, rfl⟩ := Utf8.exists_runes hvalid
  have hmem : ∀ b : UInt8, b.toNat < 0x80 → (b ∈ rs.flatMap encodeRune ↔ b.toNat ∈ rs) := by
    intro b hb
    rw [mem_flatMap]
    constructor
    · rintro ⟨r, hr, hbr⟩
      rwa [(Utf8.mem_encodeRune (hrs r hr) hb).mp hbr] at hr
    · intro hr
      exact ⟨b.toNat, hr, (Utf8.mem_encodeRune (hrs _ hr) hb).mpr rfl⟩
  rw [hmem 0x07 (by decide), hmem 0x0B (by decide), parseStringValue_quote printable hrs]
  have hwalk := scanBasicStringBody_quoted printable hrs (rs.flatMap (Quote.escapedRune printable)).length 0
  constructor
  · rintro ⟨-, hparse⟩
    by_contra hgo
    obtain ⟨e, he⟩ := hwalk.2 (by
      rcases not_and_or.mp hgo with h | h
      · exact ⟨_, not_not.mp h, .inl rfl⟩
      · exact ⟨_, not_not.mp h, .inr rfl⟩)
    rw [he] at hparse
    cases hparse
  · rintro ⟨h7, hB⟩
    have hgo : ∀ r ∈ rs, ¬ goEscapeOnly r := by
      rintro r hr (rfl | rfl)
      · exact h7 hr
      · exact hB hr
    exact ⟨stringToken_quote printable hrs hgo, hwalk.1 hgo⟩

/-- **When a formatted string is faithful.** -/
theorem formatStringLike_faithful_iff (lib : Strconv) (existing value : Bytes)
    (hold : ∃ v, parseStringValue existing = .ok v) (hvalid : Utf8.valid value = true) :
    FormatsFaithfully lib existing value ↔ styleHolds existing value = true := by
  obtain ⟨v, hv⟩ := hold
  unfold FormatsFaithfully styleHolds
  rw [formatStringLike_eq lib hv]
  split
  · rename_i hkept
    have hquote : 0x27 ∉ value := by
      simp only [literalKept, Bool.and_eq_true, Bool.not_eq_true', any_eq_false] at hkept
      intro hmem
      exact absurd (hkept.2 _ hmem) (by decide)
    rw [literal_faithful_iff hvalid hquote]
    simp
  · rw [quote_faithful_iff lib.printable hvalid]
    simp only [all_eq_true, Bool.and_eq_true, bne_iff_ne]
    exact ⟨fun h c hc => ⟨fun h7 => h.1 (h7 ▸ hc), fun hB => h.2 (hB ▸ hc)⟩,
      fun h => ⟨fun hc => (h _ hc).1 rfl, fun hc => (h _ hc).2 rfl⟩⟩

/-- A literal string stays one, and a tab in it stays a tab. -/
theorem formatStringLike_faithful_tab :
    styleHolds (ascii "\'old\'") (ascii "a\tb") = true ∧
      FormatsFaithfully Strconv.plain (ascii "\'old\'") (ascii "a\tb") :=
  ⟨by decide, (formatStringLike_faithful_iff Strconv.plain _ _ ⟨ascii "old", by decide⟩
    (by decide +kernel)).mpr (by decide)⟩

/-- A backspace between single quotes, and a bell between double quotes: neither is read back. -/
theorem formatStringLike_controls :
    (parseStringValue (ascii "\'old\'") = .ok (ascii "old") ∧ Utf8.valid [0x61, 0x08] = true ∧
      parseStringValue (formatStringLike Strconv.plain (ascii "\'old\'") [0x61, 0x08]) =
        .error (stringControlError 0x08 1) ∧
      ¬ FormatsFaithfully Strconv.plain (ascii "\'old\'") [0x61, 0x08]) ∧
    (parseStringValue (ascii "\"old\"") = .ok (ascii "old") ∧ Utf8.valid [0x07] = true ∧
      formatStringLike Strconv.plain (ascii "\"old\"") [0x07] = ascii "\"\\a\"" ∧
      parseStringValue (ascii "\"\\a\"") =
        .error (.syntaxErr { line := 1, col := 1, msg := "invalid string escape", span := (0, 2) }) ∧
      ¬ FormatsFaithfully Strconv.plain (ascii "\"old\"") [0x07]) := by
  have hliteral : parseStringValue (formatStringLike Strconv.plain (ascii "\'old\'") [0x61, 0x08]) =
      .error (stringControlError 0x08 1) := by decide +kernel
  have hbasic : formatStringLike Strconv.plain (ascii "\"old\"") [0x07] = ascii "\"\\a\"" := by
    decide +kernel
  have hescape : parseStringValue (ascii "\"\\a\"") =
      .error (.syntaxErr { line := 1, col := 1, msg := "invalid string escape", span := (0, 2) }) := by
    decide +kernel
  refine ⟨⟨by decide, by decide +kernel, hliteral, fun h => ?_⟩,
    ⟨by decide, by decide +kernel, hbasic, hescape, fun h => ?_⟩⟩
  · cases hliteral.symm.trans h.2
  have hparse := h.2
  rw [hbasic] at hparse
  cases hescape.symm.trans hparse

end Pandaemonium.Toml
