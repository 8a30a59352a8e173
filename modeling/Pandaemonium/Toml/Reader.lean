import Pandaemonium.Toml.Blanks

/-!
# `Toml.Reader` — what one turn of the token reader can do

One turn of `readToken` passes over blanks and then either returns a token, returns an error, or passes
over a comma or a line end. Each of the three is described once: `TokenStep` for a token of any kind
(which flags and containers it leaves, that it takes at least one byte, what had to hold before it),
`ErrorStep` for an error, `CommaStep` for a separator. Properties of whole runs are proved from these
and not from the scan functions.
-/

namespace Pandaemonium.Toml

open List

namespace Decoder

/-! ## The control part of the state -/

/-- Equal up to the position, the error and the last token's data. -/
structure SameControl (d d' : Decoder) : Prop where
  buf : d'.buf = d.buf
  expectingValue : d'.expectingValue = d.expectingValue
  valueNoNewline : d'.valueNoNewline = d.valueNoNewline
  needSeparator : d'.needSeparator = d.needSeparator
  needLineEnd : d'.needLineEnd = d.needLineEnd
  limits : d'.limits = d.limits
  arrayDepth : d'.arrayDepth = d.arrayDepth
  inlineDepth : d'.inlineDepth = d.inlineDepth
  containerStack : d'.containerStack = d.containerStack
  trackTokenPositions : d'.trackTokenPositions = d.trackTokenPositions

theorem SameControl.refl (d : Decoder) : SameControl d d :=
  ⟨rfl, rfl, rfl, rfl, rfl, rfl, rfl, rfl, rfl, rfl⟩

/-- The flags and containers a token of kind `k` leaves. -/
def afterToken (d : Decoder) (k : TokenKind) : Decoder :=
  match k with
  | .invalid => d
  | .comment => d
  | .key => { d with expectingValue := true, valueNoNewline := true, needLineEnd := false }
  | .tableHeader => { d with expectingValue := false, needLineEnd := true }
  | .arrayTableHeader => { d with expectingValue := false, needLineEnd := true }
  | .arrayStart =>
    { d with
      arrayDepth := d.arrayDepth + 1, containerStack := .array :: d.containerStack
      expectingValue := true, valueNoNewline := false, needSeparator := false }
  | .inlineTableStart =>
    { d with
      inlineDepth := d.inlineDepth + 1, containerStack := .inline :: d.containerStack
      expectingValue := false, valueNoNewline := false, needSeparator := false }
  | .arrayEnd =>
    { d with
      arrayDepth := d.arrayDepth - 1
      containerStack := popContainer d.containerStack .array }.valueDone
  | .inlineTableEnd =>
    { d with
      inlineDepth := d.inlineDepth - 1
      containerStack := popContainer d.containerStack .inline }.valueDone
  | .valueString => d.valueDone
  | .valueInteger => d.valueDone
  | .valueFloat => d.valueDone
  | .valueBool => d.valueDone
  | .valueDatetime => d.valueDone

/-- What holds in front of a token of kind `k`, once the blanks are passed over. -/
def Guard (d : Decoder) (k : TokenKind) : Prop :=
  match k with
  | .invalid => False
  | .comment => d.rest.head? = some 0x23
  | .tableHeader | .arrayTableHeader =>
    d.needLineEnd = false ∧ d.atLineStart = true ∧ d.expectingValue = false ∧
      d.rest.head? = some 0x5B
  | .key =>
    d.needLineEnd = false ∧ d.expectingValue = false ∧
      (d.needSeparator && !d.containerStack.isEmpty) = false ∧
      ∀ c, d.rest.head? = some c →
        c ≠ 0x5B ∧ c ≠ 0x7B ∧ c ≠ 0x5D ∧ c ≠ 0x7D ∧ c ≠ 0x23 ∧ c ≠ 0x3D ∧ c ≠ 0x2C
  | .arrayStart =>
    d.needLineEnd = false ∧ d.rest.head? = some 0x5B ∧
      (d.atLineStart && !d.expectingValue) = false ∧
      (d.innermostIsArray && !d.expectingValue) = false
  | .inlineTableStart =>
    d.needLineEnd = false ∧ d.rest.head? = some 0x7B ∧
      (d.innermostIsArray && !d.expectingValue) = false
  | .arrayEnd => d.needLineEnd = false ∧ d.rest.head? = some 0x5D
  | .inlineTableEnd => d.needLineEnd = false ∧ d.rest.head? = some 0x7D
  | .valueString | .valueInteger | .valueFloat | .valueBool | .valueDatetime =>
    d.needLineEnd = false ∧ d.expectingValue = true ∧
      (d.needSeparator && d.innermostIsArray) = false

/-- The array cap lets one more array through. -/
def arrayFits (d : Decoder) : Prop :=
  d.limits.maxNestedDepth = 0 ∨ d.arrayDepth + 1 ≤ d.limits.maxNestedDepth

/-- The key text that starts `s` and the length of all up to the `=`. -/
def KeyLexeme (limits : Limits) (s key : Bytes) (n : Nat) : Prop :=
  ∃ i, scanKeyEnd 0 s = .ok i ∧ i ≠ 0 ∧ key = bytesTrimRightSpaces (s.take i) ∧
    (∃ path, keyPath key = .ok path) ∧ key.length ≤ limits.maxKeyLength ∧
    s[i + Scan.skipWhitespace (s.drop i)]? = some 0x3D ∧
    n = i + Scan.skipWhitespace (s.drop i) + 1

/-- A header with `width` brackets on each side, `n` bytes in all. -/
def HeaderLexeme (limits : Limits) (array : Bool) (width : Nat) (s : Bytes) (n : Nat) : Prop :=
  ∃ i, scanHeaderEnd array width (s.drop width) = .ok i ∧
    validateHeaderKey i width true (s.drop width) = .ok () ∧
    i + width - 2 * width ≤ limits.maxKeyLength ∧ n = i + width

/-- A byte at which the reader tries a bare value. -/
def bareStart (s : Bytes) : Prop :=
  ∀ c, s.head? = some c →
    c ≠ 0x22 ∧ c ≠ 0x27 ∧ c ≠ 0x5B ∧ c ≠ 0x7B ∧ c ≠ 0x5D ∧ c ≠ 0x7D ∧ c ≠ 0x23

/-- The text of a token of kind `k`: the first `n` bytes of `s`, read as `bytes` with scalar `sc`. -/
def Lexeme (limits : Limits) (k : TokenKind) (s bytes : Bytes) (n : Nat) (sc : TokenScalar) : Prop :=
  match k with
  | .invalid => False
  | .comment => scanCommentEnd s = .ok n ∧ bytes = s.take n
  | .key => KeyLexeme limits s bytes n
  | .tableHeader => HeaderLexeme limits false 1 s n ∧ bytes = s.take n
  | .arrayTableHeader => HeaderLexeme limits true 2 s n ∧ bytes = s.take n
  | .valueString =>
    (s.head? = some 0x22 ∨ s.head? = some 0x27) ∧ scanString s = .ok n ∧
      (s.take n).length ≤ limits.maxStringLength ∧ bytes = s.take n
  | .valueInteger | .valueFloat | .valueBool | .valueDatetime =>
    bareStart s ∧ n = scanBareValueEnd s ∧ n ≠ 0 ∧ classifyBareValue (s.take n) = .ok (k, sc) ∧
      bytes = s.take n
  | .arrayStart | .arrayEnd | .inlineTableStart | .inlineTableEnd => n = 1

/-- **Reading the token `tok`** from `d`, which stands in front of it. -/
structure TokenStep (d : Decoder) (tok : RawToken) (d' : Decoder) : Prop where
  control : SameControl (d.afterToken tok.kind) d'
  guard : d.Guard tok.kind
  lexeme : ∃ n sc, Lexeme d.limits tok.kind d.rest tok.bytes n sc ∧ 0 < n ∧
    d'.rest = d.rest.drop n ∧ d'.tokenScalar = sc
  offset : tok.offset = d.off
  progress : d.off < d'.off
  bounded : d'.off ≤ d.buf.length
  atLineStart : d'.atLineStart = false
  /-- only an array opened past the cap leaves an error behind a token -/
  err : (tok.kind ≠ .arrayStart ∨ d.arrayFits → d'.err = d.err) ∧
    (tok.kind = .arrayStart → ¬ d.arrayFits → ∃ l, d'.err = some (.limitErr l))

/-- **Returning an error** from `d`: the control part stays. -/
structure ErrorStep (d : Decoder) (d' : Decoder) : Prop where
  control : SameControl d d'
  le : d.off ≤ d'.off
  bounded : d.off ≤ d.buf.length → d'.off ≤ d.buf.length

/-- A call from `d` ends in a token or in an error, as described. -/
def Ends (d : Decoder) (r : Outcome RawToken × Decoder) : Prop :=
  match r with
  | (.ok tok, d') => TokenStep d tok d'
  | (.error _, d') => ErrorStep d d'
  | (.hang, _) => False

end Decoder

/-- A token kind that is a whole value. -/
def TokenKind.isScalar : TokenKind → Bool
  | .valueString | .valueInteger | .valueFloat | .valueBool | .valueDatetime => true
  | _ => false

variable {k : TokenKind}

theorem classifyBareValue_isScalar {raw : Bytes} {sc : TokenScalar} (h : classifyBareValue raw = .ok (k, sc)) :
    k.isScalar = true := by
  unfold classifyBareValue at h
  split at h
  · cases h; rfl
  split at h
  · cases h
  split at h
  · cases h; rfl
  split at h
  · cases h; rfl
  split at h
  · split at h
    · cases h
    split at h
    · cases h
    · cases h; rfl
  · split at h
    · split at h
      · cases h
      · cases h; rfl
    · cases h

theorem classifyBareValue_ne_string {raw : Bytes} {sc : TokenScalar} (h : classifyBareValue raw = .ok (k, sc)) :
    k ≠ .valueString := by
  rintro rfl
  unfold classifyBareValue at h
  split at h
  · cases h
  split at h
  · cases h
  split at h
  · cases h
  split at h
  · cases h
  split at h
  · split at h
    · cases h
    · split at h <;> cases h
  · split at h
    · split at h <;> cases h
    · cases h

variable {d : Decoder}

namespace Decoder

/-! ## Errors -/

theorem recordErr_ends (d : Decoder) (e : Err) : d.Ends (d.recordErr e) :=
  ⟨⟨rfl, rfl, rfl, rfl, rfl, rfl, rfl, rfl, rfl, rfl⟩, Nat.le_refl _, id⟩

theorem syntaxError_ends (d : Decoder) (msg : String) (off : Nat) :
    d.Ends (d.syntaxError msg off) := recordErr_ends d _

theorem fail_ends (d : Decoder) (base : Nat) (f : Fault) : d.Ends (d.fail base f) := by
  cases f with
  | raised msg off | recorded e | limit name value start stop => exact recordErr_ends d _
  | returned e => exact ⟨SameControl.refl d, Nat.le_refl _, id⟩

/-! ## Tokens -/

/-- A token of at least one byte stays inside the text. -/
theorem advance_bounded {n : Nat} (hr : d.rest ≠ []) (hn : 0 < n) :
    d.off < d.off + (d.rest.take n).length ∧ d.off + (d.rest.take n).length ≤ d.buf.length := by
  have hlen : d.rest.length = d.buf.length - d.off := length_drop
  have hpos : 0 < d.rest.length := length_pos_iff.mpr hr
  rw [length_take]; omega

theorem take_ne_nil {n : Nat} (hr : d.rest ≠ []) (hn : 0 < n) : (d.rest.take n).isEmpty = false := by
  cases h : d.rest with
  | nil => exact absurd h hr
  | cons c t =>
    obtain ⟨m, rfl⟩ : ∃ m, n = m + 1 := ⟨n - 1, by omega⟩
    rfl

theorem ne_nil_of_head? {c : UInt8} (h : d.rest.head? = some c) : d.rest ≠ [] := by
  rintro hn; rw [hn] at h; cases h

/-- Past the end of the text, where a token stops makes no difference. -/
theorem rest_advance (d : Decoder) (n : Nat) : d.buf.drop (d.off + (d.rest.take n).length) = d.rest.drop n := by
  rw [← drop_drop]
  show d.rest.drop _ = _
  rw [length_take]
  rcases Nat.le_total n d.rest.length with h | h
  · rw [Nat.min_eq_left h]
  · rw [Nat.min_eq_right h, drop_length, drop_eq_nil_of_le h]

theorem lineStart_advance {n : Nat} (hr : d.rest ≠ []) (hn : 0 < n) :
    (d.atLineStart && (d.rest.take n).isEmpty) = false := by
  rw [take_ne_nil hr hn, Bool.and_false]

/-- A token of `n` bytes that is no array start: the decoder behind it stands `n` bytes further. -/
theorem tokenStep_advance {tok : RawToken} {d' : Decoder} {n : Nat} (hr : d.rest ≠ []) (hn : 0 < n)
    (hcontrol : SameControl (d.afterToken tok.kind) d') (hg : d.Guard tok.kind)
    (hlex : Lexeme d.limits tok.kind d.rest tok.bytes n d'.tokenScalar) (hoffset : tok.offset = d.off)
    (hbuf : d'.buf = d.buf) (hoff : d'.off = d.off + (d.rest.take n).length) (hline : d'.atLineStart = false)
    (herr : d'.err = d.err) (hk : tok.kind ≠ .arrayStart) : TokenStep d tok d' where
  control := hcontrol
  guard := hg
  lexeme := ⟨n, _, hlex, hn, by rw [Decoder.rest, hbuf, hoff, rest_advance], rfl⟩
  offset := hoffset
  progress := hoff ▸ (advance_bounded hr hn).1
  bounded := hoff ▸ (advance_bounded hr hn).2
  atLineStart := hline
  err := ⟨fun _ => herr, fun h => absurd h hk⟩

theorem scanComment_ends (hh : d.rest.head? = some 0x23) : d.Ends d.scanComment := by
  unfold scanComment
  split
  · exact fail_ends ..
  rename_i n hn
  have hr := ne_nil_of_head? hh
  have hpos : 0 < n := by
    cases hs : d.rest with
    | nil => exact absurd hs hr
    | cons c t => rw [hs] at hn; exact scanCommentEnd_pos hn
  exact tokenStep_advance hr hpos ⟨rfl, rfl, rfl, rfl, rfl, rfl, rfl, rfl, rfl, rfl⟩ hh ⟨hn, rfl⟩ rfl rfl rfl
    (lineStart_advance hr hpos) rfl nofun

theorem scanKeyToken_ends (hr : d.rest ≠ []) (hg : d.Guard .key) : d.Ends d.scanKeyToken := by
  unfold scanKeyToken
  split
  · exact fail_ends ..
  rename_i i hi
  dsimp only
  split
  · exact syntaxError_ends ..
  rename_i hi0
  split
  · exact recordErr_ends ..
  rename_i path hpath
  split
  · exact recordErr_ends ..
  rename_i hlen
  split
  · rename_i heq
    have hlex : KeyLexeme d.limits d.rest (bytesTrimRightSpaces (d.rest.take i))
        (i + Scan.skipWhitespace (d.rest.drop i) + 1) :=
      ⟨i, hi, hi0, rfl, ⟨path, hpath⟩, Nat.not_lt.mp hlen, heq, rfl⟩
    exact tokenStep_advance hr (Nat.succ_pos _) ⟨rfl, rfl, rfl, rfl, rfl, rfl, rfl, rfl, rfl, rfl⟩ hg hlex rfl
      rfl rfl (lineStart_advance hr (Nat.succ_pos _)) rfl nofun
  · exact syntaxError_ends ..

theorem scanArrayStart_ends (hg : d.Guard .arrayStart) : d.Ends d.scanArrayStart := by
  have hr := ne_nil_of_head? hg.2.1
  have hb := advance_bounded hr Nat.one_pos
  refine ⟨⟨rfl, rfl, rfl, rfl, rfl, rfl, rfl, rfl, rfl, rfl⟩, hg,
    ⟨1, .none, rfl, Nat.one_pos, rest_advance d 1, rfl⟩, rfl, hb.1, hb.2, lineStart_advance hr Nat.one_pos,
    ?_, ?_⟩
  · rintro (h | h)
    · exact absurd rfl h
    refine if_neg ?_
    simp only [Bool.and_eq_true, decide_eq_true_eq, not_and]
    intro hpos hgt
    rcases h with h | h
    · exact absurd h (Nat.pos_iff_ne_zero.mp hpos)
    · exact absurd h (Nat.not_le.mpr hgt)
  · intro _ h
    refine ⟨_, if_pos ?_⟩
    simp only [arrayFits, not_or, Nat.not_le] at h
    simp only [Bool.and_eq_true, decide_eq_true_eq]
    exact ⟨Nat.pos_of_ne_zero h.1, h.2⟩

theorem scanInlineTableStart_ends (hg : d.Guard .inlineTableStart) : d.Ends d.scanInlineTableStart := by
  have hr := ne_nil_of_head? hg.2.1
  exact tokenStep_advance hr Nat.one_pos ⟨rfl, rfl, rfl, rfl, rfl, rfl, rfl, rfl, rfl, rfl⟩ hg rfl rfl rfl rfl
    (lineStart_advance hr Nat.one_pos) rfl nofun

theorem scanArrayEnd_ends (hg : d.Guard .arrayEnd) : d.Ends d.scanArrayEnd := by
  have hr := ne_nil_of_head? hg.2
  exact tokenStep_advance hr Nat.one_pos ⟨rfl, rfl, rfl, rfl, rfl, rfl, rfl, rfl, rfl, rfl⟩ hg rfl rfl rfl rfl
    (lineStart_advance hr Nat.one_pos) rfl nofun

theorem scanInlineTableEnd_ends (hg : d.Guard .inlineTableEnd) : d.Ends d.scanInlineTableEnd := by
  have hr := ne_nil_of_head? hg.2
  exact tokenStep_advance hr Nat.one_pos ⟨rfl, rfl, rfl, rfl, rfl, rfl, rfl, rfl, rfl, rfl⟩ hg rfl rfl rfl rfl
    (lineStart_advance hr Nat.one_pos) rfl nofun

theorem afterToken_scalar (hk : k.isScalar = true) : d.afterToken k = d.valueDone := by
  cases k <;> first | rfl | cases hk

theorem guard_scalar (hk : k.isScalar = true) (hnl : d.needLineEnd = false) (hv : d.expectingValue = true)
    (hs : (d.needSeparator && d.innermostIsArray) = false) : d.Guard k := by
  cases k <;> first | exact ⟨hnl, hv, hs⟩ | cases hk

theorem scalarToken_ends {n : Nat} {sc : TokenScalar} (hk : k.isScalar = true) (hr : d.rest ≠ []) (hn : 0 < n)
    (hg : d.Guard k) (hlex : Lexeme d.limits k d.rest (d.rest.take n) n sc) :
    d.Ends (d.scalarToken k n sc) := by
  refine tokenStep_advance hr hn ?_ hg hlex rfl rfl rfl (lineStart_advance hr hn) rfl (fun h => ?_)
  · show SameControl (d.afterToken k) _
    rw [afterToken_scalar hk]
    exact ⟨rfl, rfl, rfl, rfl, rfl, rfl, rfl, rfl, rfl, rfl⟩
  · have hk' : k = .arrayStart := h
    rw [hk'] at hk; cases hk

theorem scanStringToken_ends (hq : d.rest.head? = some 0x22 ∨ d.rest.head? = some 0x27)
    (hg : d.Guard .valueString) : d.Ends d.scanStringToken := by
  have hr : d.rest ≠ [] := hq.elim ne_nil_of_head? ne_nil_of_head?
  unfold scanStringToken
  split
  · exact fail_ends ..
  rename_i n hn
  split
  · exact recordErr_ends ..
  · rename_i hlen
    exact scalarToken_ends rfl hr (scanString_pos hn) hg ⟨hq, hn, Nat.not_lt.mp hlen, rfl⟩

theorem scanBareToken_ends (hr : d.rest ≠ []) (hs : bareStart d.rest)
    (hg : ∀ k : TokenKind, k.isScalar = true → d.Guard k) : d.Ends d.scanBareToken := by
  unfold scanBareToken
  dsimp only
  split
  · exact syntaxError_ends ..
  rename_i hn
  split
  · exact syntaxError_ends ..
  rename_i k sc hc
  have hk := classifyBareValue_isScalar hc
  refine scalarToken_ends hk hr (Nat.pos_of_ne_zero hn) (hg k hk) ?_
  have hstr := classifyBareValue_ne_string hc
  cases k with
  | valueInteger | valueFloat | valueBool | valueDatetime => exact ⟨hs, rfl, hn, hc, rfl⟩
  | valueString => exact absurd rfl hstr
  | _ => cases hk

/-- Where a value is due and no bracket, quote or comment stands. -/
theorem scanValueToken_ends {ch : UInt8} (hh : d.rest.head? = some ch) (hnl : d.needLineEnd = false)
    (hv : d.expectingValue = true) (hs : (d.needSeparator && d.innermostIsArray) = false) :
    d.Ends d.scanValueToken := by
  have hr := ne_nil_of_head? hh
  have hg : ∀ k : TokenKind, k.isScalar = true → d.Guard k := fun k hk => guard_scalar hk hnl hv hs
  unfold scanValueToken
  split
  · rename_i h; exact scanStringToken_ends (.inl h) (hg _ rfl)
  · rename_i h; exact scanStringToken_ends (.inr h) (hg _ rfl)
  · rename_i h; exact scanArrayStart_ends ⟨hnl, h, by simp [hv], by simp [hv]⟩
  · rename_i h; exact scanInlineTableStart_ends ⟨hnl, h, by simp [hv]⟩
  · rename_i h; exact scanArrayEnd_ends ⟨hnl, h⟩
  · rename_i h; exact scanInlineTableEnd_ends ⟨hnl, h⟩
  · rename_i h; exact scanComment_ends h
  rename_i h1 h2 h3 h4 h5 h6 h7
  refine scanBareToken_ends hr (fun c hc => ?_) hg
  exact ⟨fun h => h1 (h ▸ hc), fun h => h2 (h ▸ hc), fun h => h3 (h ▸ hc), fun h => h4 (h ▸ hc),
    fun h => h5 (h ▸ hc), fun h => h6 (h ▸ hc), fun h => h7 (h ▸ hc)⟩

theorem scanHeader_ends {array : Bool} {width : Nat}
    (hk : k = .tableHeader ∧ array = false ∧ width = 1 ∨ k = .arrayTableHeader ∧ array = true ∧ width = 2)
    (hg : d.Guard k) : d.Ends (d.scanHeader array width k) := by
  have hr : d.rest ≠ [] := by
    rcases hk with ⟨rfl, -⟩ | ⟨rfl, -⟩
    all_goals exact ne_nil_of_head? hg.2.2.2
  have hw : 0 < width := by rcases hk with ⟨-, -, rfl⟩ | ⟨-, -, rfl⟩ <;> decide
  unfold scanHeader
  split
  · exact fail_ends ..
  rename_i i hi
  split
  · exact fail_ends ..
  rename_i hv
  dsimp only
  have hb := advance_bounded hr (show 0 < i + width by omega)
  split
  · exact ⟨⟨rfl, rfl, rfl, rfl, rfl, rfl, rfl, rfl, rfl, rfl⟩, Nat.le_of_lt hb.1, fun _ => hb.2⟩
  rename_i hlen
  have hlex : HeaderLexeme d.limits array width d.rest (i + width) := ⟨i, hi, hv, Nat.not_lt.mp hlen, rfl⟩
  rcases hk with ⟨rfl, rfl, rfl⟩ | ⟨rfl, rfl, rfl⟩
  all_goals
    exact tokenStep_advance hr (Nat.succ_pos _) ⟨rfl, rfl, rfl, rfl, rfl, rfl, rfl, rfl, rfl, rfl⟩ hg ⟨hlex, rfl⟩
      rfl rfl rfl rfl rfl nofun

/-! ## Turns -/

/-- **Passing over a comma** from `d`, which stands in front of it. -/
structure CommaStep (d d' : Decoder) : Prop where
  comma : d.rest.head? = some 0x2C
  needLineEnd : d.needLineEnd = false
  needSeparator : d.needSeparator = true
  eq : d' = { d.advanceOne with needSeparator := false, expectingValue := d.innermostIsArray }

/-- A line end is due and stands in front of `d`, but `skipSpaces` did not take it. -/
structure LineEndStep (d d' : Decoder) : Prop where
  lineEnd : d.rest.head? = some 0x0A ∨ d.rest.head? = some 0x0D
  needLineEnd : d.needLineEnd = true
  eq : d' = d

/-- What one turn does once the blanks are passed over. -/
def TurnSpec (d : Decoder) : Turn Decoder (Outcome RawToken × Decoder) → Prop
  | .done r => d.Ends r
  | .again d' => CommaStep d d' ∨ LineEndStep d d'

theorem atEnd_ends (d : Decoder) : d.Ends d.atEnd := by
  unfold atEnd
  split
  · exact syntaxError_ends ..
  · exact ⟨SameControl.refl d, Nat.le_refl _, id⟩

theorem dispatch_spec {ch : UInt8} (hh : d.rest.head? = some ch) (hnl : d.needLineEnd = false)
    (hb : ch = 0x5B → (d.atLineStart && !d.expectingValue) = false) : d.TurnSpec (d.dispatch ch) := by
  have hr := ne_nil_of_head? hh
  unfold dispatch
  split
  · split
    · exact syntaxError_ends ..
    · rename_i h; exact scanArrayStart_ends ⟨hnl, hh, hb rfl, by simpa using h⟩
  · split
    · exact syntaxError_ends ..
    · rename_i h; exact scanInlineTableStart_ends ⟨hnl, hh, by simpa using h⟩
  · exact scanArrayEnd_ends ⟨hnl, hh⟩
  · exact scanInlineTableEnd_ends ⟨hnl, hh⟩
  · exact scanComment_ends hh
  · exact syntaxError_ends ..
  · split
    · exact syntaxError_ends ..
    · rename_i h; exact .inl ⟨hh, hnl, by simpa using h, rfl⟩
  · rename_i h1 h2 h3 h4 h5 h6 h7
    split
    · rename_i hv
      split
      · exact syntaxError_ends ..
      · rename_i hs; exact scanValueToken_ends hh hnl hv (by simpa using hs)
    · rename_i hv
      split
      · exact syntaxError_ends ..
      rename_i hs
      refine scanKeyToken_ends hr ⟨hnl, by simpa using hv, by simpa using hs, fun c hc => ?_⟩
      rw [hh] at hc
      cases hc
      exact ⟨h1, h2, h3, h4, h5, h6, h7⟩

theorem skipSpaces_nil (h : d.rest = []) : d.skipSpaces = d := by
  rw [skipSpaces, dif_neg (by rw [h]; simp [Scan.skipWhitespace])]
  split
  · rename_i h'; rw [h] at h'; cases h'
  · rename_i h'; rw [h] at h'; cases h'
  · rfl

/-- A byte that no line end and no header comes before. -/
theorem readTokenIter_dispatch {ch : UInt8} {t : Bytes} (hr : d.skipSpaces.rest = ch :: t)
    (hnl : d.skipSpaces.needLineEnd = false)
    (hb : ch = 0x5B → (d.skipSpaces.atLineStart && !d.skipSpaces.expectingValue) = false) :
    d.readTokenIter = d.skipSpaces.dispatch ch := by
  have hne : d.rest.isEmpty = false := by
    cases hd : d.rest with
    | cons _ _ => rfl
    | nil => rw [skipSpaces_nil hd, hd] at hr; cases hr
  have hheader : (d.skipSpaces.atLineStart && !d.skipSpaces.expectingValue && ch == 0x5B) = false := by
    by_cases hc : ch = 0x5B
    · rw [hb hc]; rfl
    · rw [beq_eq_false_iff_ne.mpr hc, Bool.and_false]
  unfold readTokenIter
  simp only [hne, hr, hnl, hheader, Bool.false_eq_true, if_false]

/-- **One turn of the token reader**, as seen behind the blanks. -/
theorem readTokenIter_spec (d : Decoder) : d.skipSpaces.TurnSpec d.readTokenIter := by
  unfold readTokenIter
  split
  · rename_i h
    rw [skipSpaces_nil (by simpa using h)]
    exact atEnd_ends d
  dsimp only
  split
  · exact atEnd_ends _
  rename_i ch t hr
  have hh : d.skipSpaces.rest.head? = some ch := by rw [hr]; rfl
  split
  · rename_i hnl
    split
    · rename_i hc; subst hc; exact scanComment_ends hh
    split
    · rename_i hc
      exact .inr ⟨hc.imp (fun h => by rw [hh, h]) (fun h => by rw [hh, h]), hnl, rfl⟩
    · exact syntaxError_ends ..
  · rename_i hnl
    have hnl' : d.skipSpaces.needLineEnd = false := by simpa using hnl
    split
    · rename_i hg
      simp only [Bool.and_eq_true, Bool.not_eq_true', beq_iff_eq] at hg
      obtain ⟨⟨hl, hv⟩, rfl⟩ := hg
      split
      · exact scanHeader_ends (.inr ⟨rfl, rfl, rfl⟩) ⟨hnl', hl, hv, hh⟩
      · exact scanHeader_ends (.inl ⟨rfl, rfl, rfl⟩) ⟨hnl', hl, hv, hh⟩
    · rename_i hg
      refine dispatch_spec hh hnl' fun hc => ?_
      subst hc
      simpa using hg

end Decoder

end Pandaemonium.Toml
