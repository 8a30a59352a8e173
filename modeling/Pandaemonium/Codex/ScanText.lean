import Pandaemonium.Codex.NotificationScan

/-!
# `Codex.ScanText` — the scanner on well-formed texts

On a well-formed text the scanner can be read off the tree. Each of its functions, started at the text of
a value, stops right behind it: `readString_quoted`, `skipNumber_text` and, for every value,
`skipValue_text`. The loop over the members of an object folds what is done with a member over the members
(`scanMembers_text`), and it stops where that fails. Behind a value stands a blank, a comma, a closing
bracket or nothing (`Ends`), which is what keeps a number from going on.
-/

namespace Pandaemonium.Codex

open List
open Json (Value Member Element Str Chr Number)

/-! ## Blanks and single bytes -/

variable {c : UInt8}

theorem isSpace_iff : Json.isSpace c = true ↔ (c = 0x20 ∨ c = 0x0A ∨ c = 0x0D ∨ c = 0x09) := by
  simp only [Json.isSpace, Bool.or_eq_true, beq_iff_eq]
  constructor
  · rintro (((h | h) | h) | h) <;> simp [h]
  · rintro (h | h | h | h) <;> simp [h]

variable {pad : Bytes}

theorem skipSpace_pad (h : pad.all Json.isSpace = true) (s : Bytes) : skipSpace (pad ++ s) = skipSpace s := by
  induction pad with
  | nil => rfl
  | cons c pad ih =>
    simp only [all_cons, Bool.and_eq_true] at h
    rw [cons_append, skipSpace, if_pos (isSpace_iff.mp h.1)]
    exact ih h.2

theorem skipSpace_cons (h : Json.isSpace c = false) (t : Bytes) : skipSpace (c :: t) = c :: t := by
  rw [skipSpace, if_neg]
  intro hc
  rw [isSpace_iff.mpr hc] at h
  cases h

@[simp] theorem consumeByte_self (c : UInt8) (t : Bytes) : consumeByte c (c :: t) = some t := by
  simp [consumeByte]

theorem consumeByte_ne {b : UInt8} (h : b ≠ c) (t : Bytes) : consumeByte c (b :: t) = none := by
  simp [consumeByte, h]

theorem consumeLiteral_self (literal t : Bytes) : consumeLiteral literal (literal ++ t) = some t := by
  simp [consumeLiteral]

theorem consumeLiteral_ne {b : UInt8} (h : b ≠ c) (l t : Bytes) : consumeLiteral (c :: l) (b :: t) = none := by
  simp [consumeLiteral, h]

/-! ## Strings -/

/-- A character that stands for itself is read byte by byte. -/
theorem readStringBody_plain {bs : Bytes} (h : ∀ b ∈ bs, b ≠ 0x22 ∧ b ≠ 0x5C ∧ ¬ b < 0x20)
    (escaped : Bool) (t : Bytes) :
    readStringBody escaped (bs ++ t) =
      (readStringBody escaped t).map (fun r => (bs ++ r.1, r.2)) := by
  induction bs with
  | nil => simp
  | cons b bs ih =>
    obtain ⟨hq, hs, hc⟩ := h b mem_cons_self
    rw [cons_append, readStringBody, if_neg hq, if_neg hs, if_neg hc,
      ih (fun d hd => h d (mem_cons_of_mem b hd)), Option.map_map]
    rfl

variable {t : Bytes}

/-- An escape is read as a whole. -/
theorem readStringBody_escape {e t' : Bytes} (h : readEscape t = some (e, t')) (escaped : Bool) :
    readStringBody escaped (0x5C :: t) =
      (readStringBody true t').map (fun r => (0x5C :: (e ++ r.1), r.2)) := by
  rw [readStringBody, if_neg (by decide), if_pos rfl]
  split
  · rename_i hn; rw [h] at hn; cases hn
  · rename_i e' t'' hs; rw [h] at hs; cases hs; rfl

theorem readEscape_unicode {a b d : UInt8} (h : [a, b, c, d].all isHexDigit = true) (t : Bytes) :
    readEscape (0x75 :: a :: b :: c :: d :: t) = some ([0x75, a, b, c, d], t) := by
  rw [readEscape, if_neg (by decide), if_pos rfl, if_pos ⟨by simp, h⟩]
  rfl

/-- **One character**, however it is written. -/
theorem readStringBody_chr {c : Chr} (h : c.wellFormed = true) (escaped : Bool) (t : Bytes) :
    readStringBody escaped (c.text ++ t) =
      (readStringBody (escaped || c.escaped) t).map (fun r => (c.text ++ r.1, r.2)) := by
  cases c with
  | plain r =>
    simp only [Chr.escaped, Bool.or_false]
    exact readStringBody_plain (Chr.plain_bytes h) _ _
  | short e =>
    have he : e = 0x22 ∨ e = 0x5C ∨ e = 0x2F ∨ e = 0x62 ∨ e = 0x66 ∨ e = 0x6E ∨ e = 0x72 ∨
        e = 0x74 := by
      simpa [Chr.wellFormed, Chr.shortEscapes] using h
    simp only [Chr.escaped, Bool.or_true]
    exact readStringBody_escape (e := [e]) (t := e :: t) (by rw [readEscape, if_pos he]) escaped
  | unicode a b c d =>
    simp only [Chr.wellFormed, Bool.and_eq_true] at h
    simp only [Chr.escaped, Bool.or_true]
    exact readStringBody_escape (readEscape_unicode h.1 t) escaped
  | surrogates a b c d e f g h' =>
    simp only [Chr.wellFormed, Bool.and_eq_true] at h
    have hall : [a, b, c, d].all isHexDigit = true ∧ [e, f, g, h'].all isHexDigit = true := by
      have hhex := h.1.1.1.1
      simp only [all_cons, all_nil, Bool.and_true, Bool.and_eq_true] at hhex ⊢
      exact ⟨⟨hhex.1, hhex.2.1, hhex.2.2.1, hhex.2.2.2.1⟩, hhex.2.2.2.2⟩
    simp only [Chr.escaped, Bool.or_true]
    show readStringBody escaped (0x5C :: 0x75 :: a :: b :: c :: d ::
      (0x5C :: 0x75 :: e :: f :: g :: h' :: t)) = _
    rw [readStringBody_escape (readEscape_unicode hall.1 _),
      readStringBody_escape (readEscape_unicode hall.2 _), Option.map_map]
    rfl

theorem readStringBody_text {s : Str} (h : Str.wellFormed s = true) (escaped : Bool) (t : Bytes) :
    readStringBody escaped (Str.text s ++ 0x22 :: t) =
      some (Str.text s, escaped || Str.escaped s, t) := by
  unfold Str.text Str.escaped
  induction s generalizing escaped with
  | nil => simp [readStringBody.eq_def]
  | cons c s ih =>
    simp only [Str.wellFormed, all_cons, Bool.and_eq_true] at h
    rw [flatMap_cons, append_assoc, readStringBody_chr h.1, ih h.2]
    simp [Bool.or_assoc]

/-- **A quoted string is read to its end.** -/
theorem readString_quoted {s : Str} (h : Str.wellFormed s = true) (t : Bytes) :
    readString (Str.quoted s ++ t) = some (Str.text s, Str.escaped s, t) := by
  have htext : Str.quoted s ++ t = 0x22 :: (Str.text s ++ 0x22 :: t) := by simp [Str.quoted]
  rw [htext, readString, consumeByte_self]
  simp only
  rw [readStringBody_text h, Bool.false_or]

theorem readString_ne (h : c ≠ 0x22) (t : Bytes) : readString (c :: t) = none := by
  rw [readString, consumeByte_ne h]

/-! ## Numbers -/

/-- What may follow a value: a blank, a comma, a closing bracket or nothing. -/
def Ends (s : Bytes) : Prop :=
  ∀ c ∈ s.head?, Json.isSpace c = true ∨ c = 0x2C ∨ c = 0x5D ∨ c = 0x7D

/-- A text that does not go on with a digit. -/
def NoDigit (s : Bytes) : Prop := ∀ c ∈ s.head?, isDigit c = false

/-- A byte that ends a value is no part of a number. -/
theorem Ends.head {s : Bytes} (h : Ends s) (hc : c ∈ s.head?) :
    isDigit c = false ∧ c ≠ 0x2E ∧ c ≠ 0x65 ∧ c ≠ 0x45 := by
  rcases h c hc with hs | rfl | rfl | rfl
  · rcases isSpace_iff.mp hs with rfl | rfl | rfl | rfl <;> decide
  · decide
  · decide
  · decide

theorem skipDigits_append {ds : Bytes} (h : ds.all isDigit = true) (ht : NoDigit t) :
    skipDigits (ds ++ t) = t := by
  unfold skipDigits
  induction ds with
  | nil =>
    cases t with
    | nil => rfl
    | cons c t => rw [nil_append, dropWhile_cons, ht c rfl]; rfl
  | cons d ds ih =>
    simp only [all_cons, Bool.and_eq_true] at h
    rw [cons_append, dropWhile_cons, h.1]
    exact ih h.2

theorem skipDigits1_append {ds : Bytes} (h : Number.isDigits ds = true) (ht : NoDigit t) :
    skipDigits1 (ds ++ t) = some t := by
  simp only [Number.isDigits, Bool.and_eq_true, Bool.not_eq_true', isEmpty_eq_false_iff] at h
  obtain ⟨hne, hall⟩ := h
  cases ds with
  | nil => exact absurd rfl hne
  | cons d ds =>
    have hd : isDigit d = true := by simp only [all_cons, Bool.and_eq_true] at hall; exact hall.1
    have hskip := skipDigits_append hall ht
    rw [cons_append] at hskip ⊢
    rw [skipDigits1, if_pos hd, hskip]

theorem skipExponent_text {e : Option Json.Exponent} (h : e.all Number.expWellFormed = true) (ht : Ends t) :
    skipExponent (Number.expText e ++ t) = some t := by
  cases e with
  | none =>
    cases t with
    | nil => rfl
    | cons c t =>
      obtain ⟨-, -, he, hE⟩ := ht.head (c := c) rfl
      show skipExponent (c :: t) = _
      rw [skipExponent, if_neg (by simp [he, hE])]
  | some e =>
    obtain ⟨mark, sign, digits⟩ := e
    simp only [Option.all_some, Number.expWellFormed, Bool.and_eq_true, Bool.or_eq_true, beq_iff_eq] at h
    obtain ⟨⟨hmark, hsign⟩, hdigits⟩ := h
    have hskip := skipDigits1_append hdigits (fun c hc => (ht.head hc).1)
    have hsignSkip : skipSign (sign.toList ++ (digits ++ t)) = digits ++ t := by
      rcases hsign with (rfl | rfl) | rfl
      · -- the digits do not start with a sign
        simp only [Number.isDigits, Bool.and_eq_true, Bool.not_eq_true', isEmpty_eq_false_iff] at hdigits
        obtain ⟨d, ds, rfl⟩ := exists_cons_of_ne_nil hdigits.1
        simp only [all_cons, Bool.and_eq_true] at hdigits
        refine if_neg ?_
        simp only [Option.toList_none, nil_append, cons_append, head?_cons, Option.some.injEq]
        rintro (rfl | rfl)
        · exact absurd hdigits.2.1 (by decide)
        · exact absurd hdigits.2.1 (by decide)
      · rfl
      · rfl
    show skipExponent (mark :: (sign.toList ++ digits ++ t)) = some t
    rw [skipExponent, if_pos hmark, append_assoc, hsignSkip, hskip]

theorem skipFraction_text {f : Option Bytes} (h : f.all Number.isDigits = true)
    (ht : ∀ c ∈ t.head?, isDigit c = false ∧ c ≠ 0x2E) : skipFraction (Number.fracText f ++ t) = some t := by
  cases f with
  | none =>
    show skipFraction t = some t
    rw [skipFraction]
    rintro t' rfl
    exact absurd rfl (ht 0x2E rfl).2
  | some ds => exact skipDigits1_append h (fun c hc => (ht c hc).1)

theorem skipInteger_text {ds : Bytes} (h : Number.isInt ds = true) (ht : NoDigit t) :
    skipInteger (ds ++ t) = some t := by
  simp only [Number.isInt, Number.isDigits, Bool.and_eq_true, Bool.not_eq_true',
    isEmpty_eq_false_iff, Bool.or_eq_true, bne_iff_ne, beq_iff_eq] at h
  obtain ⟨⟨hne, hall⟩, hzero⟩ := h
  obtain ⟨d, ds, rfl⟩ := exists_cons_of_ne_nil hne
  simp only [all_cons, Bool.and_eq_true] at hall
  rw [cons_append, skipInteger]
  by_cases hd : d = 0x30
  · subst hd
    have hnil : ds = [] := by simpa using hzero
    rw [if_pos rfl, hnil, nil_append]
  · have hnine : isDigitOneToNine d = true := by
      have hdig := hall.1
      simp only [Decimal.isDigit, isDigitOneToNine, Bool.and_eq_true, decide_eq_true_eq, Utf8.le_toNat] at hdig ⊢
      have hne : d.toNat ≠ 0x30 := fun hc => hd (UInt8.toNat_inj.mp hc)
      refine ⟨?_, hdig.2⟩
      have h1 : (0x30 : UInt8).toNat = 0x30 := rfl
      have h2 : (0x31 : UInt8).toNat = 0x31 := rfl
      omega
    rw [if_neg hd, if_pos hnine, skipDigits_append hall.2 ht]

/-- A number starts with a minus or a digit. -/
theorem Number.text_head {n : Number} (h : n.wellFormed = true) :
    ∃ c t, n.text = c :: t ∧ (c = 0x2D ∨ isDigit c = true) := by
  obtain ⟨minus, int, frac, exp⟩ := n
  simp only [Number.wellFormed, Bool.and_eq_true, Number.isInt, Number.isDigits, Bool.not_eq_true',
    isEmpty_eq_false_iff] at h
  obtain ⟨d, ds, rfl⟩ := exists_cons_of_ne_nil h.1.1.1.1
  have hd := h.1.1.1.2
  simp only [all_cons, Bool.and_eq_true] at hd
  cases minus with
  | true => exact ⟨0x2D, _, rfl, .inl rfl⟩
  | false => exact ⟨d, _, rfl, .inr hd.1⟩

/-- **A number is passed over to its end.** -/
theorem skipNumber_text {n : Number} (h : n.wellFormed = true) (ht : Ends t) :
    skipNumber (n.text ++ t) = some t := by
  obtain ⟨minus, int, frac, exp⟩ := n
  simp only [Number.wellFormed, Bool.and_eq_true] at h
  obtain ⟨⟨hint, hfrac⟩, hexp⟩ := h
  have hexpSkip := skipExponent_text hexp ht
  -- what follows the integer part is no digit, what follows the fraction no digit and no dot
  have hexpHead : ∀ c ∈ (Number.expText exp ++ t).head?, isDigit c = false ∧ c ≠ 0x2E := by
    cases exp with
    | none => intro c hc; exact ⟨(ht.head hc).1, (ht.head hc).2.1⟩
    | some e =>
      intro c hc
      cases hc
      simp only [Option.all_some, Number.expWellFormed, Bool.and_eq_true, Bool.or_eq_true, beq_iff_eq] at hexp
      rcases hexp.1.1 with hm | hm <;> rw [hm] <;> decide
  have hfracSkip := skipFraction_text hfrac hexpHead
  have hfracHead : NoDigit (Number.fracText frac ++ (Number.expText exp ++ t)) := by
    cases frac with
    | none => exact fun c hc => (hexpHead c hc).1
    | some ds => intro c hc; cases hc; rfl
  have hintSkip := skipInteger_text hint hfracHead
  have hsign : ∀ u, (if ((if minus then [(0x2D : UInt8)] else []) ++ (int ++ u)).head? = some 0x2D
      then ((if minus then [(0x2D : UInt8)] else []) ++ (int ++ u)).tail
      else (if minus then [(0x2D : UInt8)] else []) ++ (int ++ u)) = int ++ u := by
    intro u
    cases minus with
    | true => rfl
    | false =>
      simp only [Number.isInt, Number.isDigits, Bool.and_eq_true, Bool.not_eq_true',
        isEmpty_eq_false_iff] at hint
      obtain ⟨d, ds, rfl⟩ := exists_cons_of_ne_nil hint.1.1
      have hd := hint.1.2
      simp only [all_cons, Bool.and_eq_true] at hd
      refine if_neg ?_
      simp only [Bool.false_eq_true, if_false, nil_append, cons_append, head?_cons, Option.some.injEq]
      rintro rfl
      exact absurd hd.1 (by decide)
  unfold skipNumber Number.text
  simp only [append_assoc]
  rw [hsign, hintSkip]
  simp only [Option.bind_some, hfracSkip, hexpSkip]

/-! ## The first byte of a value -/

theorem isSpace_digit (h : c = 0x2D ∨ isDigit c = true) :
    Json.isSpace c = false ∧ c ≠ 0x22 ∧ c ≠ 0x7B ∧ c ≠ 0x5B ∧ c ≠ 0x5D ∧ c ≠ 0x74 ∧ c ≠ 0x66 ∧
      c ≠ 0x6E := by
  have hlow : c.toNat = 0x2D ∨ (0x30 ≤ c.toNat ∧ c.toNat ≤ 0x39) := by
    rcases h with rfl | h
    · exact .inl rfl
    · simp only [isDigit, Bool.and_eq_true, decide_eq_true_eq, Utf8.le_toNat] at h
      exact .inr h
  have hne : ∀ b : UInt8, (b.toNat ≠ 0x2D ∧ (b.toNat < 0x30 ∨ 0x39 < b.toNat)) → c ≠ b := by
    rintro b hb rfl
    omega
  refine ⟨?_, hne _ (by decide), hne _ (by decide), hne _ (by decide), hne _ (by decide),
    hne _ (by decide), hne _ (by decide), hne _ (by decide)⟩
  rw [Bool.eq_false_iff]
  intro hs
  rcases isSpace_iff.mp hs with rfl | rfl | rfl | rfl
  all_goals exact absurd hlow (by decide)

/-- A value starts with no blank and no closing bracket. -/
theorem text_head {v : Value} (h : v.wellFormed = true) :
    ∃ c t, v.text = c :: t ∧ Json.isSpace c = false ∧ c ≠ 0x5D := by
  cases v with
  | null => exact ⟨0x6E, _, rfl, rfl, by decide⟩
  | bool b =>
    cases b with
    | true => exact ⟨0x74, _, rfl, rfl, by decide⟩
    | false => exact ⟨0x66, _, rfl, rfl, by decide⟩
  | number n =>
    obtain ⟨c, t, hct, hc⟩ := Number.text_head h
    exact ⟨c, t, hct, (isSpace_digit hc).1, (isSpace_digit hc).2.2.2.2.1⟩
  | string s => exact ⟨0x22, _, rfl, rfl, by decide⟩
  | array pad es => exact ⟨0x5B, _, rfl, rfl, by decide⟩
  | object pad ms => exact ⟨0x7B, _, rfl, rfl, by decide⟩

/-- Blanks before a value are passed over. -/
theorem skipSpace_text {v : Value} (h : v.wellFormed = true) (hpad : pad.all Json.isSpace = true) (t : Bytes) :
    skipSpace (pad ++ (v.text ++ t)) = v.text ++ t := by
  obtain ⟨c, u, hcu, hspace, -⟩ := text_head h
  rw [skipSpace_pad hpad, hcu, cons_append, skipSpace_cons hspace]

/-! ## Members -/

theorem ends_append {after : Bytes} (h : after.all Json.isSpace = true) {s : Bytes} (hs : Ends s) :
    Ends (after ++ s) := by
  cases after with
  | nil => exact hs
  | cons c after =>
    simp only [all_cons, Bool.and_eq_true] at h
    intro b hb
    cases hb
    exact .inl h.1

variable {ms : List (Member Value)}

section

variable {α : Type}

theorem afterPart_close {close : UInt8} (hc : Json.isSpace close = false) {after : Bytes}
    (h : after.all Json.isSpace = true) (a : α) (t : Bytes) :
    afterPart close a (after ++ close :: t) = .done (some (a, t)) := by
  rw [afterPart, skipSpace_pad h, skipSpace_cons hc, consumeByte_self]

theorem afterPart_comma {close : UInt8} (hc : close ≠ 0x2C) {after : Bytes} (h : after.all Json.isSpace = true)
    (a : α) (t : Bytes) : afterPart close a (after ++ 0x2C :: t) = .again (a, t) := by
  rw [afterPart, skipSpace_pad h, skipSpace_cons (by decide), consumeByte_ne hc.symm, consumeByte_self]

/-- What a scan that does `sem` with each member makes of the members, in order. -/
def foldMembers (refuseEscaped : Bool) (sem : Member Value → α → Option α) :
    List (Member Value) → α → Option α
  | [], a => some a
  | m :: ms, a =>
    if refuseEscaped && Str.escaped m.name then none
    else (sem m a).bind (foldMembers refuseEscaped sem ms)

/-- `field` does `sem` with the member `m`, whatever follows the member. -/
def Does (field : Bytes → α → Bytes → Option (α × Bytes)) (sem : Member Value → α → Option α)
    (m : Member Value) : Prop :=
  ∀ a t, Ends t → field (Str.text m.name) a (m.afterColon ++ (m.value.text ++ t)) =
    (sem m a).map (fun a => (a, t))

/-- The text of a member with what follows its value. -/
def memberText (m : Member Value) (t : Bytes) : Bytes :=
  m.before ++ (Str.quoted m.name ++ (m.beforeColon ++
    (0x3A :: (m.afterColon ++ (m.value.text ++ (m.after ++ t))))))

theorem textMembers_cons (m : Member Value) (ms : List (Member Value)) (t : Bytes) :
    Value.textMembers (m :: ms) ++ t = memberText m (Value.textMoreMembers ms ++ t) := by
  simp [Value.textMembers, memberText]

theorem textMoreMembers_cons (m : Member Value) (ms : List (Member Value)) :
    Value.textMoreMembers (m :: ms) = 0x2C :: Value.textMembers (m :: ms) := by
  simp [Value.textMembers, Value.textMoreMembers]

/-- The blanks of a member are blanks, its name and its value well formed. -/
structure MemberWF (m : Member Value) : Prop where
  before : m.before.all Json.isSpace = true
  name : Str.wellFormed m.name = true
  beforeColon : m.beforeColon.all Json.isSpace = true
  afterColon : m.afterColon.all Json.isSpace = true
  after : m.after.all Json.isSpace = true
  value : m.value.wellFormed = true

theorem wellFormedMembers_iff : Value.wellFormedMembers ms = true ↔ ∀ m ∈ ms, MemberWF m := by
  induction ms with
  | nil => simp [Value.wellFormedMembers]
  | cons m ms ih =>
    rw [Value.wellFormedMembers, forall_mem_cons, ← ih]
    simp only [Bool.and_eq_true]
    constructor
    · rintro ⟨⟨⟨⟨⟨⟨hb, hn⟩, hbc⟩, hac⟩, ha⟩, hv⟩, hms⟩
      exact ⟨⟨hb, hn, hbc, hac, ha, hv⟩, hms⟩
    · rintro ⟨⟨hb, hn, hbc, hac, ha, hv⟩, hms⟩
      exact ⟨⟨⟨⟨⟨⟨hb, hn⟩, hbc⟩, hac⟩, ha⟩, hv⟩, hms⟩

variable {refuseEscaped : Bool} {field : Bytes → α → Bytes → Option (α × Bytes)}
  {sem : Member Value → α → Option α}

/-- **One turn** over a member. -/
theorem memberTurn_text {m : Member Value} (hwf : MemberWF m) (hdoes : Does field sem m)
    (hpad : pad.all Json.isSpace = true) (a : α) (ht : Ends t) :
    memberTurn refuseEscaped field (a, pad ++ memberText m t) =
      if refuseEscaped && Str.escaped m.name then .done none
      else
        match sem m a with
        | none => .done none
        | some a => afterPart 0x7D a (m.after ++ t) := by
  have hquoted : ∀ u, Str.quoted m.name ++ u = 0x22 :: (Str.text m.name ++ [0x22] ++ u) := fun u => rfl
  have hskip : skipSpace (pad ++ memberText m t) =
      Str.quoted m.name ++ (m.beforeColon ++
        (0x3A :: (m.afterColon ++ (m.value.text ++ (m.after ++ t))))) := by
    rw [memberText, skipSpace_pad hpad, skipSpace_pad hwf.before, hquoted, skipSpace_cons (by decide)]
  rw [memberTurn]
  simp only [hskip, readString_quoted hwf.name]
  rw [hquoted, consumeByte_ne (by decide)]
  simp only [skipSpace_pad hwf.beforeColon, skipSpace_cons (show Json.isSpace 0x3A = false by decide),
    consumeByte_self, hdoes a _ (ends_append hwf.after ht)]
  cases sem m a with
  | none | some a => rfl

/-- **The loop over the members** folds what is done with a member. -/
theorem loop_members (hwf : ∀ m ∈ ms, MemberWF m) (hdoes : ∀ m ∈ ms, Does field sem m)
    (hpad : pad.all Json.isSpace = true) (a : α) (t : Bytes) :
    Loop.loop (fun st => st.2.length) (memberTurn refuseEscaped field)
        (a, pad ++ (Value.textMembers ms ++ 0x7D :: t)) =
      some ((foldMembers refuseEscaped sem ms a).map (fun a => (a, t))) := by
  induction ms generalizing pad a with
  | nil =>
    apply Loop.loop_done
    rw [memberTurn]
    simp [Value.textMembers, skipSpace_pad hpad, skipSpace_cons (show Json.isSpace 0x7D = false by decide),
      foldMembers]
  | cons m ms ih =>
    have hm := hwf m mem_cons_self
    have hdo := hdoes m mem_cons_self
    have hends : Ends (Value.textMoreMembers ms ++ 0x7D :: t) := by
      cases ms with
      | nil => intro c hc; cases hc; exact .inr (.inr (.inr rfl))
      | cons m' ms' =>
        rw [textMoreMembers_cons]
        intro c hc; cases hc; exact .inr (.inl rfl)
    have hturn : memberTurn refuseEscaped field
        (a, pad ++ memberText m (Value.textMoreMembers ms ++ 0x7D :: t)) = _ :=
      memberTurn_text hm hdo hpad a hends
    rw [textMembers_cons, foldMembers]
    by_cases hesc : (refuseEscaped && Str.escaped m.name) = true
    · rw [if_pos hesc] at hturn ⊢
      exact Loop.loop_done hturn
    rw [if_neg hesc] at hturn ⊢
    cases hsem : sem m a with
    | none =>
      rw [hsem] at hturn
      exact Loop.loop_done hturn
    | some a' =>
      rw [hsem] at hturn
      cases ms with
      | nil =>
        -- the closing brace
        refine Loop.loop_done (hturn.trans ?_)
        exact afterPart_close (by decide) hm.after a' t
      | cons m' ms' =>
        have hcomma : afterPart 0x7D a'
            (m.after ++ (Value.textMoreMembers (m' :: ms') ++ 0x7D :: t)) =
            .again (a', Value.textMembers (m' :: ms') ++ 0x7D :: t) := by
          rw [textMoreMembers_cons, cons_append]
          exact afterPart_comma (by decide) hm.after a' _
        rw [Loop.loop_again (hturn.trans hcomma)]
        · have hnil : ([] : Bytes).all Json.isSpace = true := rfl
          exact ih (fun n hn => hwf n (mem_cons_of_mem m hn))
            (fun n hn => hdoes n (mem_cons_of_mem m hn)) hnil a'
        · rw [textMoreMembers_cons]
          simp only [memberText, length_append, length_cons]
          omega

/-- **Behind the opening brace.** -/
theorem scanMembers_text (hwf : ∀ m ∈ ms, MemberWF m) (hdoes : ∀ m ∈ ms, Does field sem m)
    (hpad : pad.all Json.isSpace = true) (a : α) (t : Bytes) :
    scanMembers refuseEscaped field a (pad ++ (Value.textMembers ms ++ 0x7D :: t)) =
      (foldMembers refuseEscaped sem ms a).map (fun a => (a, t)) := by
  rw [scanMembers, loop_members hwf hdoes hpad]
  rfl

end

/-! ## Values that are passed over -/

/-- `skip` passes over the text of `v`. -/
def Skips (skip : Bytes → Option Bytes) (v : Value) : Prop :=
  ∀ t, Ends t → skip (v.text ++ t) = some t

theorem textElements_cons (e : Element Value) (es : List (Element Value)) (t : Bytes) :
    Value.textElements (e :: es) ++ t =
      e.before ++ (e.value.text ++ (e.after ++ (Value.textMoreElements es ++ t))) := by
  simp [Value.textElements]

theorem textMoreElements_cons (e : Element Value) (es : List (Element Value)) :
    Value.textMoreElements (e :: es) = 0x2C :: Value.textElements (e :: es) := by
  simp [Value.textElements, Value.textMoreElements]

variable {es : List (Element Value)}

theorem wellFormedElements_cons {e : Element Value} (h : Value.wellFormedElements (e :: es) = true) :
    e.before.all Json.isSpace = true ∧ e.after.all Json.isSpace = true ∧
      e.value.wellFormed = true ∧ Value.wellFormedElements es = true := by
  simp only [Value.wellFormedElements, Bool.and_eq_true] at h
  exact ⟨h.1.1.1, h.1.1.2, h.1.2, h.2⟩

theorem wellFormedElements_mem (h : Value.wellFormedElements es = true) {e : Element Value} (he : e ∈ es) :
    e.value.wellFormed = true := by
  induction es with
  | nil => cases he
  | cons e' es ih =>
    obtain ⟨-, -, hvalue, hes⟩ := wellFormedElements_cons h
    rcases mem_cons.mp he with rfl | hmem
    · exact hvalue
    · exact ih hes hmem

/-- **The loop over the elements** passes over them. -/
theorem loop_elements {skip : Bytes → Option Bytes} (hwf : Value.wellFormedElements es = true)
    (hskip : ∀ e ∈ es, Skips skip e.value) (hpad : pad.all Json.isSpace = true) (t : Bytes) :
    Loop.loop (fun st => st.2.length) (elementTurn skip)
        ((), pad ++ (Value.textElements es ++ 0x5D :: t)) = some (some ((), t)) := by
  induction es generalizing pad with
  | nil =>
    apply Loop.loop_done
    rw [elementTurn]
    simp [Value.textElements, skipSpace_pad hpad,
      skipSpace_cons (show Json.isSpace 0x5D = false by decide)]
  | cons e es ih =>
    obtain ⟨hbefore, hafter, hvalue, hes⟩ := wellFormedElements_cons hwf
    obtain ⟨c, u, hcu, -, hclose⟩ := text_head hvalue
    have hends : Ends (Value.textMoreElements es ++ 0x5D :: t) := by
      cases es with
      | nil => intro c hc; cases hc; exact .inr (.inr (.inl rfl))
      | cons e' es' =>
        rw [textMoreElements_cons]
        intro c hc; cases hc; exact .inr (.inl rfl)
    have hturn : elementTurn skip ((), pad ++ (Value.textElements (e :: es) ++ 0x5D :: t)) =
        afterPart 0x5D () (e.after ++ (Value.textMoreElements es ++ 0x5D :: t)) := by
      rw [elementTurn, textElements_cons]
      simp only [skipSpace_pad hpad, skipSpace_text hvalue hbefore,
        hskip e mem_cons_self _ (ends_append hafter hends)]
      rw [hcu, cons_append, consumeByte_ne hclose]
    cases es with
    | nil =>
      refine Loop.loop_done (hturn.trans ?_)
      exact afterPart_close (by decide) hafter () t
    | cons e' es' =>
      have hcomma : afterPart 0x5D ()
          (e.after ++ (Value.textMoreElements (e' :: es') ++ 0x5D :: t)) =
          .again ((), Value.textElements (e' :: es') ++ 0x5D :: t) := by
        rw [textMoreElements_cons, cons_append]
        exact afterPart_comma (by decide) hafter () _
      rw [Loop.loop_again (hturn.trans hcomma)]
      · have hnil : ([] : Bytes).all Json.isSpace = true := rfl
        exact ih hes (fun x hx => hskip x (mem_cons_of_mem e hx)) hnil
      rw [textElements_cons e, textMoreElements_cons]
      simp only [length_append, length_cons]
      omega

/-- The text of an element is part of the text of the array. -/
theorem length_element {e : Element Value} (h : e ∈ es) :
    e.value.text.length ≤ (Value.textElements es).length ∧
      e.value.text.length ≤ (Value.textMoreElements es).length := by
  induction es with
  | nil => cases h
  | cons e' es ih =>
    simp only [Value.textElements, Value.textMoreElements, length_cons, length_append]
    rcases mem_cons.mp h with rfl | hmem
    · omega
    · have := (ih hmem).2
      omega

theorem length_member {m : Member Value} (h : m ∈ ms) :
    m.value.text.length ≤ (Value.textMembers ms).length ∧
      m.value.text.length ≤ (Value.textMoreMembers ms).length := by
  induction ms with
  | nil => cases h
  | cons m' ms ih =>
    simp only [Value.textMembers, Value.textMoreMembers, length_cons, length_append]
    rcases mem_cons.mp h with rfl | hmem
    · omega
    · have := (ih hmem).2
      omega

theorem foldMembers_skip (ms : List (Member Value)) :
    foldMembers false (fun _ a => some a) ms () = some () := by
  induction ms with
  | nil => rfl
  | cons m ms ih => exact ih

/-- Blanks before a member's value are passed over with it. -/
theorem skipField_does {α : Type} {skip : Bytes → Option Bytes} {m : Member Value}
    (hpad : ∀ s, skip (m.afterColon ++ s) = skip s) (h : Skips skip m.value) (a : α) (t : Bytes) (ht : Ends t) :
    skipField skip a (m.afterColon ++ (m.value.text ++ t)) = some (a, t) := by
  rw [skipField, hpad, h t ht]
  rfl

theorem skipValue_pad (n : Nat) (hpad : pad.all Json.isSpace = true) (s : Bytes) :
    skipValue n (pad ++ s) = skipValue n s := by
  cases n with
  | zero | succ n => rw [skipValue, skipValueIn, skipValueIn, skipSpace_pad hpad]

/-- **A value is passed over to its end**, where the bound on the depth covers it. -/
theorem skipValue_text (n : Nat) {v : Value} (hwf : v.wellFormed = true) (hn : v.text.length ≤ n) :
    Skips (skipValue n) v := by
  induction n generalizing v with
  | zero =>
    obtain ⟨c, t, hct, -⟩ := text_head hwf
    rw [hct, length_cons] at hn
    omega
  | succ n ih =>
    intro t ht
    rw [skipValue, skipValueIn]
    cases v with
    | null => rfl
    | bool b => cases b <;> rfl
    | number k =>
      obtain ⟨c, u, hcu, hc⟩ := Number.text_head hwf
      obtain ⟨hspace, hq, hbrace, hbracket, -, ht', hf, hn'⟩ := isSpace_digit hc
      have hskip := skipNumber_text hwf ht
      rw [Value.text]
      rw [hcu, cons_append] at hskip ⊢
      rw [skipSpace_cons hspace]
      simp only [if_neg hq, if_neg hbrace, if_neg hbracket, if_neg ht', if_neg hf, if_neg hn',
        hskip]
    | string s =>
      have hread := readString_quoted hwf t
      show (readString (Str.quoted s ++ t)).map (·.2.2) = some t
      rw [hread]
      rfl
    | array pad es =>
      simp only [Value.wellFormed, Bool.and_eq_true] at hwf
      simp only [Value.text, length_cons, length_append] at hn
      have helem : ∀ e ∈ es, Skips (skipValue n) e.value := by
        intro e he
        have hlen := (length_element he).1
        exact ih (wellFormedElements_mem hwf.2 he) (by omega)
      have hloop := loop_elements hwf.2 helem hwf.1 t
      show skipArray (skipValue n) (0x5B :: (pad ++ (Value.textElements es ++ [0x5D])) ++ t) = some t
      rw [skipArray, cons_append, consumeByte_self]
      simp only [append_assoc, cons_append, nil_append]
      rw [hloop]
      rfl
    | object pad ms =>
      simp only [Value.wellFormed, Bool.and_eq_true] at hwf
      simp only [Value.text, length_cons, length_append] at hn
      have hms := wellFormedMembers_iff.mp hwf.2
      have hdoes : ∀ m ∈ ms, Does (fun _ a t => skipField (skipValue n) a t)
          (fun _ (a : Unit) => some a) m := by
        intro m hm a t ht
        have hlen := (length_member hm).1
        exact skipField_does (skipValue_pad n (hms m hm).afterColon) (ih (hms m hm).value (by omega)) a t ht
      have hscan : scanMembers false (fun _ a t => skipField (skipValue n) a t) ()
          (pad ++ (Value.textMembers ms ++ 0x7D :: t)) = _ :=
        scanMembers_text hms hdoes hwf.1 () t
      show skipObject (skipValue n) (0x7B :: (pad ++ (Value.textMembers ms ++ [0x7D])) ++ t) = some t
      rw [skipObject, cons_append, consumeByte_self]
      simp only [append_assoc, cons_append, nil_append]
      rw [hscan, foldMembers_skip]
      rfl

end Pandaemonium.Codex
