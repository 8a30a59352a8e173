import Pandaemonium.Lib.Decimal
import Pandaemonium.Lib.Utf8

/-!
# `Lib.Json` — JSON texts with their layout

The grammar of JSON, read as trees that keep every choice a text makes: the blanks between the tokens,
how each character of a string is written, the parts of a number. `Value.text` writes such a tree out,
so the well-formed texts are the texts of the well-formed trees, and what a text says (`Chr.value`, the
order of the members) stands beside how it is written. Well-formed strings are UTF-8 and their surrogate
escapes come in pairs.

What a scanner needs to know is here too: which byte a value starts with (`Value.text_head`), and which
bytes a written character is made of (`Chr.plain_bytes`).
-/

namespace Pandaemonium.Json

open List
open Decimal (isDigit)

/-! ## Bytes -/

def isSpace (c : UInt8) : Bool := c == 0x20 || c == 0x09 || c == 0x0A || c == 0x0D

def isHexDigit (c : UInt8) : Bool :=
  (0x30 ≤ c && c ≤ 0x39) || (0x61 ≤ c && c ≤ 0x66) || (0x41 ≤ c && c ≤ 0x46)

def hexValue (c : UInt8) : Nat :=
  if c ≤ 0x39 then c.toNat - 0x30
  else if c ≤ 0x46 then c.toNat - 0x41 + 10
  else c.toNat - 0x61 + 10

/-- The number four hexadecimal digits write. -/
def hexValue4 (a b c d : UInt8) : Nat :=
  ((hexValue a * 16 + hexValue b) * 16 + hexValue c) * 16 + hexValue d

/-! ## Strings -/

/-- A character of a string, as it is written. -/
inductive Chr where
  /-- as itself -/
  | plain (r : Nat)
  /-- a backslash and one byte -/
  | short (c : UInt8)
  /-- a backslash, `u` and four hexadecimal digits -/
  | unicode (a b c d : UInt8)
  /-- two such escapes that make one character -/
  | surrogates (a b c d e f g h : UInt8)
  deriving DecidableEq, Repr

namespace Chr

def text : Chr → Bytes
  | .plain r => Utf8.encodeRune r
  | .short c => [0x5C, c]
  | .unicode a b c d => [0x5C, 0x75, a, b, c, d]
  | .surrogates a b c d e f g h => [0x5C, 0x75, a, b, c, d, 0x5C, 0x75, e, f, g, h]

/-- The byte a short escape stands for. -/
def shortValue (c : UInt8) : UInt8 :=
  if c = 0x62 then 0x08
  else if c = 0x66 then 0x0C
  else if c = 0x6E then 0x0A
  else if c = 0x72 then 0x0D
  else if c = 0x74 then 0x09
  else c

/-- What the character is. -/
def value : Chr → Bytes
  | .plain r => Utf8.encodeRune r
  | .short c => [shortValue c]
  | .unicode a b c d => Utf8.encodeRune (hexValue4 a b c d)
  | .surrogates a b c d e f g h =>
    Utf8.encodeRune
      (0x10000 + (hexValue4 a b c d - 0xD800) * 0x400 + (hexValue4 e f g h - 0xDC00))

def escaped : Chr → Bool
  | .plain _ => false
  | _ => true

def shortEscapes : List UInt8 := [0x22, 0x5C, 0x2F, 0x62, 0x66, 0x6E, 0x72, 0x74]

def wellFormed : Chr → Bool
  | .plain r => Utf8.validRune r && 0x20 ≤ r && r != 0x22 && r != 0x5C
  | .short c => shortEscapes.contains c
  | .unicode a b c d =>
    [a, b, c, d].all isHexDigit && Utf8.validRune (hexValue4 a b c d)
  | .surrogates a b c d e f g h =>
    [a, b, c, d, e, f, g, h].all isHexDigit &&
      0xD800 ≤ hexValue4 a b c d && hexValue4 a b c d < 0xDC00 &&
      0xDC00 ≤ hexValue4 e f g h && hexValue4 e f g h < 0xE000

end Chr

/-- A string, character by character. -/
abbrev Str := List Chr

namespace Str

/-- The bytes between the quotes. -/
def text (s : Str) : Bytes := s.flatMap Chr.text

def value (s : Str) : Bytes := s.flatMap Chr.value

def escaped (s : Str) : Bool := s.any Chr.escaped

def wellFormed (s : Str) : Bool := s.all Chr.wellFormed

/-- The string with its quotes. -/
def quoted (s : Str) : Bytes := 0x22 :: (text s ++ [0x22])

end Str

/-! ## Numbers -/

structure Exponent where
  /-- `e` or `E` -/
  mark : UInt8
  sign : Option UInt8
  digits : Bytes
  deriving DecidableEq, Repr

structure Number where
  minus : Bool
  int : Bytes
  frac : Option Bytes
  exp : Option Exponent
  deriving DecidableEq, Repr

namespace Number

/-- One or more digits. -/
def isDigits (s : Bytes) : Bool := !s.isEmpty && s.all isDigit

/-- No zero in front of another digit. -/
def isInt (s : Bytes) : Bool := isDigits s && (s.head? != some 0x30 || s.length == 1)

def fracText : Option Bytes → Bytes
  | some ds => 0x2E :: ds
  | none => []

def expText : Option Exponent → Bytes
  | some e => e.mark :: (e.sign.toList ++ e.digits)
  | none => []

def text (n : Number) : Bytes :=
  (if n.minus then [0x2D] else []) ++ (n.int ++ (fracText n.frac ++ expText n.exp))

def expWellFormed (e : Exponent) : Bool :=
  (e.mark == 0x65 || e.mark == 0x45) &&
    (e.sign == none || e.sign == some 0x2B || e.sign == some 0x2D) && isDigits e.digits

def wellFormed (n : Number) : Bool := isInt n.int && n.frac.all isDigits && n.exp.all expWellFormed

end Number

/-! ## Values -/

/-- An element of an array, between its blanks. -/
structure Element (α : Type) where
  before : Bytes
  value : α
  after : Bytes
  deriving DecidableEq, Repr

/-- A member of an object: its name, the colon and its value, each between its blanks. -/
structure Member (α : Type) where
  before : Bytes
  name : Str
  beforeColon : Bytes
  afterColon : Bytes
  value : α
  after : Bytes
  deriving DecidableEq, Repr

inductive Value where
  | null
  | bool (b : Bool)
  | number (n : Number)
  | string (s : Str)
  /-- `pad` are the blanks behind the bracket. -/
  | array (pad : Bytes) (elements : List (Element Value))
  | object (pad : Bytes) (members : List (Member Value))
  deriving Repr

namespace Value

mutual

/-- **The text of a value.** -/
def text : Value → Bytes
  | .null => ascii "null"
  | .bool true => ascii "true"
  | .bool false => ascii "false"
  | .number n => n.text
  | .string s => Str.quoted s
  | .array pad es => 0x5B :: (pad ++ (textElements es ++ [0x5D]))
  | .object pad ms => 0x7B :: (pad ++ (textMembers ms ++ [0x7D]))

/-- The elements, with commas between them. -/
def textElements : List (Element Value) → Bytes
  | [] => []
  | ⟨before, v, after⟩ :: es => before ++ (text v ++ (after ++ textMoreElements es))

/-- The elements behind the first. -/
def textMoreElements : List (Element Value) → Bytes
  | [] => []
  | ⟨before, v, after⟩ :: es =>
    0x2C :: (before ++ (text v ++ (after ++ textMoreElements es)))

/-- The members, with commas between them. -/
def textMembers : List (Member Value) → Bytes
  | [] => []
  | ⟨before, name, beforeColon, afterColon, v, after⟩ :: ms =>
    before ++ (Str.quoted name ++ (beforeColon ++
      (0x3A :: (afterColon ++ (text v ++ (after ++ textMoreMembers ms))))))

/-- The members behind the first. -/
def textMoreMembers : List (Member Value) → Bytes
  | [] => []
  | ⟨before, name, beforeColon, afterColon, v, after⟩ :: ms =>
    0x2C :: (before ++ (Str.quoted name ++ (beforeColon ++
      (0x3A :: (afterColon ++ (text v ++ (after ++ textMoreMembers ms)))))))

end

mutual

def wellFormed : Value → Bool
  | .null => true
  | .bool _ => true
  | .number n => n.wellFormed
  | .string s => Str.wellFormed s
  | .array pad es => pad.all isSpace && wellFormedElements es
  | .object pad ms => pad.all isSpace && wellFormedMembers ms

def wellFormedElements : List (Element Value) → Bool
  | [] => true
  | ⟨before, v, after⟩ :: es =>
    before.all isSpace && after.all isSpace && wellFormed v && wellFormedElements es

def wellFormedMembers : List (Member Value) → Bool
  | [] => true
  | ⟨before, name, beforeColon, afterColon, v, after⟩ :: ms =>
    before.all isSpace && Str.wellFormed name && beforeColon.all isSpace &&
      afterColon.all isSpace && after.all isSpace && wellFormed v && wellFormedMembers ms

end

/-- The names of the members of one object differ. -/
def distinctMembers (ms : List (Member Value)) : Bool :=
  decide (ms.Pairwise (fun m n => Str.value m.name ≠ Str.value n.name))

mutual

/-- **No object has two members of one name.** -/
def distinctNames : Value → Bool
  | .array _ es => distinctNamesElements es
  | .object _ ms => distinctMembers ms && distinctNamesMembers ms
  | _ => true

def distinctNamesElements : List (Element Value) → Bool
  | [] => true
  | ⟨_, v, _⟩ :: es => distinctNames v && distinctNamesElements es

def distinctNamesMembers : List (Member Value) → Bool
  | [] => true
  | ⟨_, _, _, _, v, _⟩ :: ms => distinctNames v && distinctNamesMembers ms

end

/-- The value of the member called `name`. -/
def member? (ms : List (Member Value)) (name : Bytes) : Option Value :=
  (ms.find? (fun m => Str.value m.name == name)).map (·.value)

end Value

/-- **A JSON text**: one well-formed value between blanks. -/
structure Text where
  before : Bytes
  value : Value
  after : Bytes
  before_space : before.all isSpace = true
  after_space : after.all isSpace = true
  wellFormed : value.wellFormed = true

def Text.bytes (t : Text) : Bytes := t.before ++ (t.value.text ++ t.after)

/-! ## Characters -/

/-- The bytes of a character that stands for itself are no quote, no backslash and no control
    character. -/
theorem Chr.plain_bytes {r : Nat} (h : (Chr.plain r).wellFormed = true) :
    ∀ b ∈ Utf8.encodeRune r, b ≠ 0x22 ∧ b ≠ 0x5C ∧ ¬ b < 0x20 := by
  simp only [Chr.wellFormed, Bool.and_eq_true, bne_iff_ne, decide_eq_true_eq] at h
  obtain ⟨⟨⟨hvalid, hlow⟩, hquote⟩, hslash⟩ := h
  -- a byte is compared by its number
  have hbyte : ∀ n : Nat, n < 256 → 0x20 ≤ n → n ≠ 0x22 → n ≠ 0x5C →
      UInt8.ofNat n ≠ 0x22 ∧ UInt8.ofNat n ≠ 0x5C ∧ ¬ UInt8.ofNat n < 0x20 := by
    intro n hn h1 h2 h3
    have hnat : (UInt8.ofNat n).toNat = n := by simp [Nat.mod_eq_of_lt hn]
    refine ⟨?_, ?_, ?_⟩
    · intro h; apply h2; rw [← hnat, h]; rfl
    · intro h; apply h3; rw [← hnat, h]; rfl
    · rw [Utf8.lt_toNat, hnat]; exact Nat.not_lt.mpr h1
  unfold Utf8.encodeRune
  unfold Utf8.validRune at hvalid
  simp only [Bool.or_eq_true, Bool.and_eq_true, decide_eq_true_eq] at hvalid
  intro b hb
  split at hb
  · rw [mem_singleton] at hb
    subst hb
    exact hbyte r (by omega) hlow hquote hslash
  split at hb
  · simp only [mem_cons, not_mem_nil, or_false] at hb
    rcases hb with rfl | rfl <;> exact hbyte _ (by omega) (by omega) (by omega) (by omega)
  split at hb
  · rename_i hbad
    simp only [Utf8.validRune, Bool.not_eq_true', Bool.or_eq_false_iff, Bool.and_eq_false_iff,
      decide_eq_false_iff_not] at hbad
    omega
  split at hb
  · simp only [mem_cons, not_mem_nil, or_false] at hb
    rcases hb with rfl | rfl | rfl <;> exact hbyte _ (by omega) (by omega) (by omega) (by omega)
  simp only [mem_cons, not_mem_nil, or_false] at hb
  rcases hb with rfl | rfl | rfl | rfl <;> exact hbyte _ (by omega) (by omega) (by omega) (by omega)

/-- A string without escapes is written as it is. -/
theorem Str.value_eq_text {s : Str} (h : Str.escaped s = false) : Str.value s = Str.text s := by
  unfold Str.value Str.text
  induction s with
  | nil => rfl
  | cons c s ih =>
    simp only [Str.escaped, any_cons, Bool.or_eq_false_iff] at h
    rw [flatMap_cons, flatMap_cons, ih h.2]
    cases c with
    | plain r => rfl
    | short e | unicode a b c d | surrogates a b c d e f g h' => cases h.1

end Pandaemonium.Json
