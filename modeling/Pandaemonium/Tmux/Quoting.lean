import Pandaemonium.Lib.Utf8

/-!
# `Tmux.Quoting` — arguments of a command line (`commandline.go`)

An argument is rendered bare, in single quotes or in double quotes, by what it contains. What tmux makes of a
rendered argument is given by the rules of its lexer that matter here, written down as `lexArgs`: blanks and
`;` end a word, single quotes are literal, a backslash makes three characters literal elsewhere, a dollar
and a leading tilde are expanded, and a bare word that starts with `%` is a token only if it is made of `%`
and digits.

`quoteArg_lexes_iff` says which arguments come back as one token. Two kinds do not: a bare argument that
starts with `%` and goes on with anything but digits, such as a pane with its state, and one that has a
single quote and starts with a tilde.
-/

namespace Pandaemonium.Tmux

open List

/-! ## Rendering -/

def isBareRune (r : Nat) : Bool :=
  (0x61 ≤ r && r ≤ 0x7A) || (0x41 ≤ r && r ≤ 0x5A) || (0x30 ≤ r && r ≤ 0x39) ||
    r == 0x5F || r == 0x40 || r == 0x25 || r == 0x2B || r == 0x3D || r == 0x3A || r == 0x2C ||
    r == 0x2E || r == 0x2F || r == 0x2D

def isBareArg (value : Bytes) : Bool := (Utf8.runes value).all isBareRune

/-- A rune between double quotes. -/
def quotedRune (r : Nat) : Bytes :=
  if r = 0x5C ∨ r = 0x22 ∨ r = 0x24 then 0x5C :: Utf8.encodeRune r else Utf8.encodeRune r

def quoteArg (value : Bytes) : Bytes :=
  if value = [] then [0x27, 0x27]
  else if isBareArg value then value
  else if 0x27 ∉ value then 0x27 :: (value ++ [0x27])
  else 0x22 :: ((Utf8.runes value).flatMap quotedRune ++ [0x22])

/-! ## The lexer of tmux -/

/-- What a word is made of: a byte that stands for itself, or something the lexer puts another text for. -/
inductive Piece where
  | literal (b : UInt8)
  | expansion
  deriving DecidableEq, Repr

/-- Where in a word the lexer is; `start` at the beginning of a part. -/
inductive LexMode where
  | bare (start : Bool)
  | single
  | double (start : Bool)
  deriving DecidableEq, Repr

def isBlank (b : UInt8) : Bool := b == 0x20 || b == 0x09

/-- The character behind a backslash. -/
def escapedPiece (c : UInt8) : Piece :=
  if c = 0x5C ∨ c = 0x22 ∨ c = 0x24 then .literal c else .expansion

/-- A character outside single quotes that ends nothing. -/
def openPiece (start : Bool) (b : UInt8) : Piece :=
  if b = 0x24 ∨ (b = 0x7E ∧ start = true) then .expansion else .literal b

/-- The pieces of a word and what follows it; none where a quote is not closed. -/
def lexWord : LexMode → Bytes → Option (List Piece × Bytes)
  | .bare _, [] => some ([], [])
  | .single, [] => none
  | .double _, [] => none
  | .bare start, b :: t =>
    if isBlank b || b == 0x3B then some ([], b :: t)
    else if b = 0x27 then lexWord .single t
    else if b = 0x22 then lexWord (.double true) t
    else if b = 0x5C then
      match t with
      | [] => none
      | c :: t => (lexWord (.bare false) t).map (fun (ps, rest) => (escapedPiece c :: ps, rest))
    else (lexWord (.bare false) t).map (fun (ps, rest) => (openPiece start b :: ps, rest))
  | .single, b :: t =>
    if b = 0x27 then lexWord (.bare true) t
    else (lexWord .single t).map (fun (ps, rest) => (.literal b :: ps, rest))
  | .double start, b :: t =>
    if b = 0x22 then lexWord (.bare true) t
    else if b = 0x5C then
      match t with
      | [] => none
      | c :: t => (lexWord (.double false) t).map (fun (ps, rest) => (escapedPiece c :: ps, rest))
    else (lexWord (.double false) t).map (fun (ps, rest) => (openPiece start b :: ps, rest))

inductive LexToken where
  /-- a word that is its text -/
  | plain (text : Bytes)
  /-- a word with an expansion -/
  | expanded
  /-- a condition keyword, or an error for want of one -/
  | condition
  /-- `;` -/
  | separator
  deriving DecidableEq, Repr

/-- The text of pieces that stand for themselves. -/
def literals : List Piece → Option Bytes
  | [] => some []
  | .literal b :: ps => (literals ps).map (b :: ·)
  | .expansion :: _ => none

def wordToken (pieces : List Piece) : LexToken :=
  match literals pieces with
  | some text => .plain text
  | none => .expanded

def isPercentOrDigit (b : UInt8) : Bool := b == 0x25 || (0x30 ≤ b && b ≤ 0x39)

def endsWord (b : UInt8) : Bool := isBlank b || b == 0x3B

/-- The tokens of a text, at most `fuel` of them. -/
def lexArgsFrom : Nat → Bytes → Option (List LexToken)
  | 0, _ => none
  | fuel + 1, s =>
    match s.dropWhile isBlank with
    | [] => some []
    | b :: t =>
      if b = 0x3B then (lexArgsFrom fuel t).map (.separator :: ·)
      else if b = 0x25 then
        let word := (b :: t).takeWhile (fun c => !endsWord c)
        let token := if word.all isPercentOrDigit then .plain word else .condition
        (lexArgsFrom fuel ((b :: t).dropWhile (fun c => !endsWord c))).map (token :: ·)
      else
        match lexWord (.bare true) (b :: t) with
        | none => none
        | some (pieces, rest) => (lexArgsFrom fuel rest).map (wordToken pieces :: ·)

/-- The tokens of a text in argument position. -/
def lexArgs (s : Bytes) : Option (List LexToken) := lexArgsFrom (s.length + 2) s

/-! ## Quoted arguments -/

theorem literals_map (value : Bytes) : literals (value.map .literal) = some value := by
  induction value with
  | nil => rfl
  | cons b t ih => rw [map_cons, literals, ih]; rfl

theorem wordToken_map (value : Bytes) : wordToken (value.map .literal) = .plain value := by
  rw [wordToken, literals_map]

variable {value : Bytes}

theorem lexWord_single (h : 0x27 ∉ value) :
    lexWord .single (value ++ [0x27]) = some (value.map .literal, []) := by
  induction value with
  | nil => rfl
  | cons b t ih =>
    have hb : b ≠ 0x27 := fun heq => h (heq ▸ mem_cons_self)
    rw [cons_append, lexWord, if_neg hb, ih (fun ht => h (mem_cons_of_mem _ ht))]
    rfl

/-- A byte between double quotes. -/
def quotedByte (b : UInt8) : Bytes := if b = 0x5C ∨ b = 0x22 ∨ b = 0x24 then [0x5C, b] else [b]

/-- What the lexer makes of a text between double quotes: only a tilde in front is not itself. -/
def doublePieces (start : Bool) : Bytes → List Piece
  | [] => []
  | b :: t => (if b = 0x7E ∧ start = true then .expansion else .literal b) :: t.map .literal

theorem doublePieces_false (value : Bytes) : doublePieces false value = value.map .literal := by
  cases value with
  | nil => rfl
  | cons b t => simp [doublePieces]

theorem lexWord_double (start : Bool) (value : Bytes) :
    lexWord (.double start) (value.flatMap quotedByte ++ [0x22]) = some (doublePieces start value, []) := by
  induction value generalizing start with
  | nil => rfl
  | cons b t ih =>
    rw [flatMap_cons, append_assoc]
    by_cases hspecial : b = 0x5C ∨ b = 0x22 ∨ b = 0x24
    · have hne : b ≠ 0x7E := by rintro rfl; revert hspecial; decide
      rw [quotedByte, if_pos hspecial]
      simp only [cons_append, nil_append]
      rw [lexWord, if_neg (by decide), if_pos rfl]
      simp only [ih, doublePieces_false]
      simp [escapedPiece, hspecial, doublePieces, hne]
    · simp only [not_or] at hspecial
      rw [quotedByte, if_neg (by simp [hspecial])]
      simp only [cons_append, nil_append]
      rw [lexWord.eq_def]
      simp only [hspecial, if_false, ih, doublePieces_false, Option.map_some]
      simp [doublePieces, openPiece, hspecial]

/-- Escaping rune by rune is escaping byte by byte: the escaped runes are single bytes, and no byte of
    another rune is one of them. -/
theorem quotedRune_eq {r : Nat} (h : Utf8.validRune r = true) :
    quotedRune r = (Utf8.encodeRune r).flatMap quotedByte := by
  rcases (Utf8.sequence_encodeRune h).ascii_or_high with ⟨b, hb, rfl, hlt⟩ | ⟨hhigh, hbytes⟩
  · have hiff : ∀ c : UInt8, b.toNat = c.toNat ↔ b = c := fun c => UInt8.toNat_inj
    rw [quotedRune, hb]
    simp only [show (0x5C : Nat) = (0x5C : UInt8).toNat from rfl,
      show (0x22 : Nat) = (0x22 : UInt8).toNat from rfl,
      show (0x24 : Nat) = (0x24 : UInt8).toNat from rfl, hiff]
    simp [quotedByte]
  · have hself : ∀ b ∈ Utf8.encodeRune r, quotedByte b = [b] := by
      intro b hb
      have hb' := hbytes b hb
      rw [quotedByte, if_neg]
      rintro (rfl | rfl | rfl) <;> revert hb' <;> decide
    rw [quotedRune, if_neg (by omega), flatMap_congr hself]
    simp

theorem flatMap_quotedRune {rs : List Nat} (h : ∀ r ∈ rs, Utf8.validRune r = true) :
    rs.flatMap quotedRune = (rs.flatMap Utf8.encodeRune).flatMap quotedByte := by
  rw [flatMap_assoc]
  exact flatMap_congr fun r hr => quotedRune_eq (h r hr)

/-! ## Bare arguments -/

/-- The bytes of a bare argument. -/
theorem isBareArg_bytes (hvalid : Utf8.valid value = true) (h : isBareArg value = true) :
    ∀ b ∈ value, isBareRune b.toNat = true := by
  obtain ⟨rs, hrs, rfl⟩ := Utf8.exists_runes hvalid
  rw [isBareArg, Utf8.runes_flatMap hrs, all_eq_true] at h
  intro b hb
  obtain ⟨r, hr, hbr⟩ := mem_flatMap.mp hb
  rcases (Utf8.sequence_encodeRune (hrs r hr)).ascii_or_high with ⟨c, hc, rfl, -⟩ | ⟨hhigh, -⟩
  · rw [hc, mem_singleton] at hbr
    rw [hbr]
    exact h _ hr
  · have hbare := h r hr
    simp only [isBareRune, Bool.or_eq_true, Bool.and_eq_true, decide_eq_true_eq, beq_iff_eq] at hbare
    omega

/-- None of them means anything to the lexer inside a word. -/
theorem bare_not_special {b : UInt8} (h : isBareRune b.toNat = true) :
    endsWord b = false ∧ b ≠ 0x27 ∧ b ≠ 0x22 ∧ b ≠ 0x5C ∧ b ≠ 0x24 ∧ b ≠ 0x7E := by
  have hne : ∀ c : UInt8, isBareRune c.toNat = false → b ≠ c := by
    rintro c hc rfl
    rw [h] at hc
    cases hc
  refine ⟨?_, hne _ rfl, hne _ rfl, hne _ rfl, hne _ rfl, hne _ rfl⟩
  simp [endsWord, isBlank, hne 0x20 rfl, hne 0x09 rfl, hne 0x3B rfl]

theorem lexWord_bare (h : ∀ b ∈ value, isBareRune b.toNat = true) (start : Bool) :
    lexWord (.bare start) value = some (value.map .literal, []) := by
  induction value generalizing start with
  | nil => rfl
  | cons b t ih =>
    obtain ⟨hends, hsingle, hdouble, hslash, hdollar, htilde⟩ := bare_not_special (h b mem_cons_self)
    have hrest := ih (fun c hc => h c (mem_cons_of_mem _ hc)) false
    rw [lexWord.eq_def]
    unfold endsWord at hends
    simp [hends, hsingle, hdouble, hslash, hrest, openPiece, hdollar, htilde]

/-! ## One argument -/

/-- A rendered argument that the lexer reads as one word. -/
theorem lexArgs_word {b : UInt8} {t : Bytes} {pieces : List Piece} (hblank : isBlank b = false)
    (hsemicolon : b ≠ 0x3B) (hpercent : b ≠ 0x25) (h : lexWord (.bare true) (b :: t) = some (pieces, [])) :
    lexArgs (b :: t) = some [wordToken pieces] := by
  rw [lexArgs, length_cons, lexArgsFrom, dropWhile_cons, hblank]
  simp [hsemicolon, hpercent, h, lexArgsFrom]

/-- A bare word that starts with `%`. -/
theorem lexArgs_percent {t : Bytes} (h : ∀ b ∈ t, isBareRune b.toNat = true) :
    lexArgs (0x25 :: t) =
      some [if (0x25 :: t).all isPercentOrDigit then .plain (0x25 :: t) else .condition] := by
  have hall : ∀ b ∈ (0x25 :: t : Bytes), (!endsWord b) = true := by
    intro b hb
    rcases mem_cons.mp hb with rfl | hb
    · rfl
    · rw [(bare_not_special (h b hb)).1]
      rfl
  have htake : (0x25 :: t).takeWhile (fun c => !endsWord c) = 0x25 :: t := by
    rw [← append_nil (0x25 :: t), takeWhile_append_of_pos hall]
    rfl
  have hdrop : (0x25 :: t).dropWhile (fun c => !endsWord c) = [] := by
    rw [← append_nil (0x25 :: t), dropWhile_append_of_pos hall]
    rfl
  rw [lexArgs, length_cons, lexArgsFrom]
  simp only [show List.dropWhile isBlank (0x25 :: t) = 0x25 :: t from rfl]
  simp [htake, hdrop, lexArgsFrom]

/-- Where the rendering loses an argument: a bare one that starts with `%` and is more than a number, and one
    with a single quote that starts with a tilde. -/
def KeepsToken (value : Bytes) : Prop :=
  (isBareArg value = true → value.head? = some 0x25 → value.all isPercentOrDigit = true) ∧
    (0x27 ∈ value → value.head? ≠ some 0x7E)

theorem lexArgs_bare (hne : value ≠ []) (h : ∀ b ∈ value, isBareRune b.toNat = true) :
    lexArgs value = some [.plain value] ↔
      (value.head? = some 0x25 → value.all isPercentOrDigit = true) := by
  cases value with
  | nil => exact absurd rfl hne
  | cons b t =>
    by_cases hpercent : b = 0x25
    · subst hpercent
      rw [lexArgs_percent (fun c hc => h c (mem_cons_of_mem _ hc))]
      by_cases hall : (0x25 :: t).all isPercentOrDigit = true
      · simp [hall]
      · simp [hall]
    · obtain ⟨hends, -⟩ := bare_not_special (h b mem_cons_self)
      simp only [endsWord, Bool.or_eq_false_iff, beq_eq_false_iff_ne] at hends
      rw [lexArgs_word hends.1 hends.2 hpercent (lexWord_bare h true), wordToken_map]
      simp [hpercent]

theorem lexArgs_single (h : 0x27 ∉ value) : lexArgs (0x27 :: (value ++ [0x27])) = some [.plain value] := by
  have hword : lexWord (.bare true) (0x27 :: (value ++ [0x27])) = some (value.map .literal, []) := by
    rw [lexWord.eq_def]
    exact lexWord_single h
  rw [lexArgs_word rfl (by decide) (by decide) hword, wordToken_map]

theorem lexArgs_double (value : Bytes) :
    lexArgs (0x22 :: (value.flatMap quotedByte ++ [0x22])) = some [.plain value] ↔
      value.head? ≠ some 0x7E := by
  have hword : lexWord (.bare true) (0x22 :: (value.flatMap quotedByte ++ [0x22])) =
      some (doublePieces true value, []) := by
    rw [lexWord.eq_def]
    exact lexWord_double true value
  rw [lexArgs_word rfl (by decide) (by decide) hword]
  cases value with
  | nil => simp [doublePieces, wordToken, literals]
  | cons b t =>
    by_cases htilde : b = 0x7E
    · simp [doublePieces, wordToken, literals, htilde]
    · simp [doublePieces, wordToken, literals, htilde, literals_map]

/-- **Quoting**: an argument is lexed to one token with its text exactly when it meets `KeepsToken`. -/
theorem quoteArg_lexes_iff (value : Bytes) (hvalid : Utf8.valid value = true) :
    lexArgs (quoteArg value) = some [.plain value] ↔ KeepsToken value := by
  unfold quoteArg KeepsToken
  by_cases hne : value = []
  · subst hne
    simp [show lexArgs [0x27, 0x27] = some [.plain []] from rfl]
  rw [if_neg hne]
  by_cases hbare : isBareArg value = true
  · have hbytes := isBareArg_bytes hvalid hbare
    have hquote : 0x27 ∉ value := fun hmem => (bare_not_special (hbytes _ hmem)).2.1 rfl
    rw [if_pos hbare, lexArgs_bare hne hbytes]
    simp [hbare, hquote]
  rw [if_neg hbare]
  by_cases hquote : 0x27 ∉ value
  · rw [if_pos hquote, lexArgs_single hquote]
    simp [hbare, hquote]
  rw [if_neg hquote]
  obtain ⟨rs, hrs, rfl⟩ := Utf8.exists_runes hvalid
  rw [Utf8.runes_flatMap hrs, flatMap_quotedRune hrs, lexArgs_double]
  rw [not_not] at hquote
  simp [hbare, hquote]

theorem quoteArg_lexes_apostrophe :
    Utf8.valid (ascii "can't $stop") = true ∧
      lexArgs (quoteArg (ascii "can't $stop")) = some [.plain (ascii "can't $stop")] := by
  have hvalid : Utf8.valid (ascii "can't $stop") = true := Utf8.valid_ascii (by decide +kernel)
  refine ⟨hvalid, (quoteArg_lexes_iff _ hvalid).mpr ⟨fun _ h => ?_, fun _ => by decide⟩⟩
  cases h

/-- The argument that `paneFlow` passes for pane `%1`, and one with a quote behind a tilde: neither is read as
    itself. -/
theorem quoteArg_lost :
    lexArgs (quoteArg (ascii "%1:off")) = some [.condition] ∧
      lexArgs (quoteArg (ascii "~'")) = some [.expanded] := by
  decide +kernel

end Pandaemonium.Tmux
