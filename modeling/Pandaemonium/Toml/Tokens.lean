import Pandaemonium.Toml.Parse
import Pandaemonium.Toml.Run

/-!
# `Toml.Tokens` — the tokens of a value

What the value parser reads is a run of tokens with a bracket structure. `Forms` is that structure, on
token kinds alone: a scalar is one token, an array is its elements up to `]`, an inline table its
key/value entries up to `}`, with comments between the parts of a container. `Reads` says which tokens
consecutive calls return. Whatever `parseNextValue` accepts, it accepts by reading the tokens of exactly
one value: `parseNextValue_reads`.
-/

namespace Pandaemonium.Toml

open List
open Decoder

/-- Consecutive calls from `d` return `toks` and leave `d'`. -/
inductive Reads : Decoder → List RawToken → Decoder → Prop
  | nil (d : Decoder) : Reads d [] d
  | cons {d d₁ d' : Decoder} {tok : RawToken} {toks : List RawToken} :
      d.readToken = (.ok tok, d₁) → Reads d₁ toks d' → Reads d (tok :: toks) d'

variable {d d' : Decoder}

theorem Reads.append {d₁ : Decoder} {xs ys : List RawToken} (h : Reads d xs d₁) (h' : Reads d₁ ys d') :
    Reads d (xs ++ ys) d' := by
  induction h with
  | nil => exact h'
  | cons hr _ ih => exact .cons hr (ih h')

variable {tok : RawToken}

theorem Reads.single (h : d.readToken = (.ok tok, d')) : Reads d [tok] d' := .cons h (.nil d')

variable {toks : List RawToken}

theorem Reads.flags (h : Reads d toks d') (hf : Flags d) : Flags d' := by
  induction h with
  | nil => exact hf
  | @cons d d₁ d' tok toks hr _ ih =>
    have := readToken_flags hf
    rw [hr] at this
    exact ih this

/-- The kinds of a run of tokens. -/
def kinds (toks : List RawToken) : List TokenKind := toks.map (·.kind)

@[simp] theorem kinds_cons (tok : RawToken) (toks : List RawToken) :
    kinds (tok :: toks) = tok.kind :: kinds toks := rfl

@[simp] theorem kinds_append (xs ys : List RawToken) : kinds (xs ++ ys) = kinds xs ++ kinds ys :=
  map_append

/-- The three shapes of a token run inside a value: a whole value, the rest of an array, the rest of an
    inline table. -/
inductive Part where
  | value | elements | entries
  deriving DecidableEq

/-- **The bracket structure of a value's tokens.** -/
inductive Forms : Part → List TokenKind → Prop
  | scalar {k : TokenKind} : k.isScalar = true → Forms .value [k]
  | array {ks : List TokenKind} : Forms .elements ks → Forms .value (.arrayStart :: ks)
  | inline {ks : List TokenKind} : Forms .entries ks → Forms .value (.inlineTableStart :: ks)
  | elementsEnd : Forms .elements [.arrayEnd]
  | elementsComment {ks : List TokenKind} : Forms .elements ks → Forms .elements (.comment :: ks)
  | element {vs ks : List TokenKind} : Forms .value vs → Forms .elements ks →
      Forms .elements (vs ++ ks)
  | entriesEnd : Forms .entries [.inlineTableEnd]
  | entriesComment {ks : List TokenKind} : Forms .entries ks → Forms .entries (.comment :: ks)
  | entry {vs ks : List TokenKind} : Forms .value vs → Forms .entries ks →
      Forms .entries (.key :: (vs ++ ks))

/-! ## No comment between a key and its value -/

theorem scanCommentEnd_stop {c : UInt8} {t : Bytes} {n : Nat} (h : scanCommentEnd (c :: t) = .ok n) :
    (c :: t).drop n = [] ∨ ((c :: t).drop n).head? = some 0x0A ∨
      ∃ u, (c :: t).drop n = 0x0D :: 0x0A :: u := by
  unfold scanCommentEnd at h
  rw [if_neg (by simp)] at h
  dsimp only at h
  split at h
  · rename_i hd; cases h; exact .inl hd
  · rename_i hd; cases h; rw [hd]; exact .inr (.inl rfl)
  · rename_i hd; cases h; exact .inr (.inr ⟨_, hd⟩)
  · cases h

/-- A call returns in its first turn or goes round to a state that returns the same. -/
theorem readToken_ok_turn (h : d.readToken = (.ok tok, d')) :
    d.readTokenIter = .done (.ok tok, d') ∨
      ∃ d₁, d.readTokenIter = .again d₁ ∧ d₁.readToken = (.ok tok, d') := by
  obtain ⟨he, -⟩ := readToken_ok h
  rw [Decoder.readToken, he] at h
  cases hb : d.readTokenIter with
  | done r => rw [Loop.loop_done hb] at h; left; cases h; rfl
  | again d₁ =>
    right
    refine ⟨d₁, rfl, ?_⟩
    by_cases hlt : d₁.rest.length < d.rest.length
    · rw [Loop.loop_again hb hlt] at h
      cases hl : Loop.loop (fun d => d.rest.length) readTokenIter d₁ with
      | none => rw [hl] at h; cases h
      | some r =>
        rw [hl] at h
        rw [readToken_of_loop ((again_before hb).err.trans he) hl]; exact h
    · rw [Loop.loop_stuck hb hlt] at h; cases h

/-- **Behind a key the value is on the same line**: at the end of the line there is no token. -/
theorem readToken_at_line_end (hf : Flags d) (hv : d.valueNoNewline = true)
    (hend : d.rest = [] ∨ d.rest.head? = some 0x0A ∨ ∃ u, d.rest = 0x0D :: 0x0A :: u) :
    d.readToken ≠ (.ok tok, d') := by
  intro h
  obtain ⟨hexp, hnle, hsep, harr⟩ := hf.noNewline hv
  -- the next byte, if there is one, ends the line
  have hhead : ∀ c, d.rest.head? = some c → c = 0x0A ∨ c = 0x0D := by
    intro c hc
    rcases hend with h0 | h0 | ⟨u, h0⟩
    · rw [h0] at hc; cases hc
    · rw [h0] at hc; cases hc; exact .inl rfl
    · rw [h0] at hc; cases hc; exact .inr rfl
  have hstop : BlankStop (!d.valueNoNewline) d.rest := by
    intro c t hr
    refine ⟨?_, by simp [hv]⟩
    rcases hhead c (by rw [hr]; rfl) with rfl | rfl <;> decide
  have hskip : d.skipSpaces = d := skipSpaces_of_blankStop hstop
  have hspec := readTokenIter_spec d
  rw [hskip] at hspec
  rcases readToken_ok_turn h with hdone | ⟨d₁, hagain, -⟩
  · rw [hdone] at hspec
    have hstep : TokenStep d tok d' := hspec
    obtain ⟨n, sc, hlex, hpos, -, -⟩ := hstep.lexeme
    have hguard := hstep.guard
    cases hk : tok.kind with
    | invalid => rw [hk] at hguard; exact hguard
    | comment => rw [hk] at hguard; have := hhead _ hguard; simp at this
    | tableHeader | arrayTableHeader =>
      rw [hk] at hguard; have := hguard.2.2.1; rw [hexp] at this; cases this
    | key => rw [hk] at hguard; have := hguard.2.1; rw [hexp] at this; cases this
    | arrayStart | inlineTableStart =>
      rw [hk] at hguard; have := hhead _ hguard.2.1; simp at this
    | arrayEnd | inlineTableEnd =>
      rw [hk] at hguard; have := hhead _ hguard.2; simp at this
    | valueString =>
      rw [hk] at hlex
      rcases hlex.1 with hq | hq
      · have := hhead _ hq; simp at this
      · have := hhead _ hq; simp at this
    | valueInteger | valueFloat | valueBool | valueDatetime =>
      rw [hk] at hlex
      obtain ⟨-, hn, hn0, -⟩ := hlex
      apply hn0
      rw [hn]
      cases hr : d.rest with
      | nil => decide
      | cons c t =>
        have hdelim : Scan.bareValueDelimiter c = true := by
          rcases hhead c (by rw [hr]; rfl) with rfl | rfl <;> decide
        have h0 : Scan.scanBareValueEnd (c :: t) = 0 := Bytes.findIdx_cons_pos hdelim
        simp [scanBareValueEnd, h0]
  · rw [hagain] at hspec
    rcases hspec with hc | hl
    · have := hhead _ hc.comma; simp at this
    · have := hl.needLineEnd; rw [hnle] at this; cases this

/-- Behind a comment the line is at its end. -/
theorem comment_line_end (h : d.readToken = (.ok tok, d')) (hk : tok.kind = .comment) :
    d'.valueNoNewline = d.valueNoNewline ∧
      (d'.rest = [] ∨ d'.rest.head? = some 0x0A ∨ ∃ u, d'.rest = 0x0D :: 0x0A :: u) := by
  obtain ⟨-, e, hbefore, hstep⟩ := readToken_ok h
  obtain ⟨n, sc, hlex, -, hrest, -⟩ := hstep.lexeme
  have hguard := hstep.guard
  have hcontrol := hstep.control
  rw [hk] at hlex hguard hcontrol
  refine ⟨hcontrol.valueNoNewline.trans hbefore.valueNoNewline, ?_⟩
  rw [hrest]
  cases hr : e.rest with
  | nil => exact absurd hr (ne_nil_of_head? hguard)
  | cons c t => rw [hr] at hlex; exact scanCommentEnd_stop hlex.1

/-! ## What the value parser reads -/

/-- The parser of the parts reads the tokens of one value. -/
def ReadsValues (pv : ValueParser) : Prop :=
  ∀ tok d v d', Flags d → pv tok d = (.ok v, d') →
    ∃ toks, Reads d toks d' ∧ Forms .value (tok.kind :: kinds toks)

variable {pv : ValueParser} {v : Val}

/-- **The value behind a key starts with its first token**: a comment there ends the line, and the next call
    returns no token. -/
theorem parseNextValueWith_token (hf : Flags d) (hv : d.valueNoNewline = true)
    (h : parseNextValueWith pv d = (.ok v, d')) :
    ∃ tok d₁, d.readToken = (.ok tok, d₁) ∧ tok.kind ≠ .comment ∧ pv tok d₁ = (.ok v, d') := by
  have hl := runLoop_ok h
  cases hb : nextValueTurn pv d with
  | done r =>
    rw [Loop.loop_done hb] at hl
    cases hl
    obtain ⟨tok, d₁, hread, hk⟩ := afterCall_done hb
    split at hk
    · cases hk
    rename_i hne
    injection hk with hk
    exact ⟨tok, d₁, hread, hne, hk⟩
  | again d₁ =>
    exfalso
    obtain ⟨tok, d₂, hread, hk⟩ := afterCall_again hb
    split at hk
    · rename_i hcomment
      injection hk with hk
      subst hk
      obtain ⟨hv₂, hend⟩ := comment_line_end hread hcomment
      have hf₂ : Flags d₂ := by have := readToken_flags hf; rwa [hread] at this
      have hlt := readToken_rest_lt hread
      rw [Loop.loop_again hb hlt] at hl
      have hno : ∀ tok' d'', d₂.readToken ≠ (.ok tok', d'') := fun tok' d'' =>
        readToken_at_line_end hf₂ (hv₂.trans hv) hend
      cases hb₂ : nextValueTurn pv d₂ with
      | done r =>
        rw [Loop.loop_done hb₂] at hl
        cases hl
        obtain ⟨tok', d'', hread', -⟩ := afterCall_done hb₂
        exact hno tok' d'' hread'
      | again d₃ =>
        obtain ⟨tok', d'', hread', -⟩ := afterCall_again hb₂
        exact hno tok' d'' hread'
    · cases hk

theorem parseNextValueWith_reads (hpv : ReadsValues pv) (hf : Flags d) (hv : d.valueNoNewline = true)
    (h : parseNextValueWith pv d = (.ok v, d')) : ∃ toks, Reads d toks d' ∧ Forms .value (kinds toks) := by
  obtain ⟨tok, d₁, hread, -, hk⟩ := parseNextValueWith_token hf hv h
  have hf₁ : Flags d₁ := by have := readToken_flags hf; rwa [hread] at this
  obtain ⟨toks, hreads, hforms⟩ := hpv tok d₁ v d' hf₁ hk
  exact ⟨tok :: toks, .cons hread hreads, hforms⟩

theorem parseArrayValue_reads (hpv : ReadsValues pv) (hf : Flags d) (h : parseArrayValue pv d = (.ok v, d')) :
    ∃ toks, Reads d toks d' ∧ Forms .elements (kinds toks) := by
  refine Loop.loop_induction
    (motive := fun s r => Flags s.2 → ∀ v d', r = (.ok v, d') →
      ∃ toks, Reads s.2 toks d' ∧ Forms .elements (kinds toks)) ?_ ?_ (runLoop_ok h) hf v d' rfl
  · rintro ⟨vs, d⟩ r hb hf v d' rfl
    obtain ⟨tok, d₁, hread, hk⟩ := afterCall_done hb
    split at hk
    · cases hk
    · rename_i hend
      cases hk
      refine ⟨[tok], .single hread, ?_⟩
      rw [kinds_cons, hend]; exact .elementsEnd
    · obtain ⟨v, d₂, -, hk⟩ := afterCall_done hk
      cases hk
  · rintro ⟨vs, d⟩ s' r hb - - ih hf v d' hr
    obtain ⟨tok, d₁, hread, hk⟩ := afterCall_again hb
    have hf₁ : Flags d₁ := by have := readToken_flags hf; rwa [hread] at this
    split at hk
    · rename_i hcomment
      cases hk
      obtain ⟨toks, hreads, hforms⟩ := ih hf₁ v d' hr
      refine ⟨tok :: toks, .cons hread hreads, ?_⟩
      rw [kinds_cons, hcomment]; exact .elementsComment hforms
    · cases hk
    · obtain ⟨w, d₂, hval, hk⟩ := afterCall_again hk
      cases hk
      obtain ⟨vtoks, hvreads, hvforms⟩ := hpv tok d₁ w d₂ hf₁ hval
      obtain ⟨toks, hreads, hforms⟩ := ih (hvreads.flags hf₁) v d' hr
      refine ⟨tok :: (vtoks ++ toks), .cons hread (hvreads.append hreads), ?_⟩
      rw [kinds_cons, kinds_append]; exact .element hvforms hforms

/-- A key token leaves the decoder in front of a value on the same line. -/
theorem readToken_key (h : d.readToken = (.ok tok, d')) (hk : tok.kind = .key) : d'.valueNoNewline = true := by
  obtain ⟨-, e, -, hstep⟩ := readToken_ok h
  have hcontrol := hstep.control
  rw [hk] at hcontrol
  exact hcontrol.valueNoNewline

theorem inlineEntry_again {s s' : InlineState} (h : inlineEntry pv s tok d = .again s') :
    ∃ key v, parseDottedKey tok.bytes = .ok key ∧ parseNextValueWith pv d = (.ok v, s'.dec) ∧
      s'.closedInlineTables = markClosedValuePaths [] s.closedInlineTables key v := by
  unfold inlineEntry at h
  split at h
  · cases h
  rename_i key hkey
  split at h
  · cases h
  obtain ⟨v, d₁, hval, hk⟩ := afterCall_again h
  split at hk
  · cases hk
  · cases hk; exact ⟨key, v, hkey, hval, rfl⟩

theorem inlineEntry_not_done {s : InlineState} : inlineEntry pv s tok d ≠ .done (.ok v, d') := by
  intro h
  unfold inlineEntry at h
  split at h
  · cases h
  split at h
  · cases h
  obtain ⟨w, d₁, -, hk⟩ := afterCall_done h
  split at hk
  all_goals cases hk

theorem parseInlineTableValue_reads (hpv : ReadsValues pv) (hf : Flags d)
    (h : parseInlineTableValue pv d = (.ok v, d')) : ∃ toks, Reads d toks d' ∧ Forms .entries (kinds toks) := by
  refine Loop.loop_induction
    (motive := fun s r => Flags s.dec → ∀ v d', r = (.ok v, d') →
      ∃ toks, Reads s.dec toks d' ∧ Forms .entries (kinds toks)) ?_ ?_ (runLoop_ok h) hf v d' rfl
  · rintro s r hb hf v d' rfl
    obtain ⟨tok, d₁, hread, hk⟩ := afterCall_done hb
    split at hk
    · cases hk
    · rename_i hend
      cases hk
      refine ⟨[tok], .single hread, ?_⟩
      rw [kinds_cons, hend]; exact .entriesEnd
    · exact absurd hk inlineEntry_not_done
    · cases hk
  · rintro s s' r hb - - ih hf v d' hr
    obtain ⟨tok, d₁, hread, hk⟩ := afterCall_again hb
    have hf₁ : Flags d₁ := by have := readToken_flags hf; rwa [hread] at this
    split at hk
    · rename_i hcomment
      cases hk
      obtain ⟨toks, hreads, hforms⟩ := ih hf₁ v d' hr
      refine ⟨tok :: toks, .cons hread hreads, ?_⟩
      rw [kinds_cons, hcomment]; exact .entriesComment hforms
    · cases hk
    · rename_i hkey
      obtain ⟨-, w, -, hval, -⟩ := inlineEntry_again hk
      obtain ⟨vtoks, hvreads, hvforms⟩ := parseNextValueWith_reads hpv hf₁ (readToken_key hread hkey) hval
      obtain ⟨toks, hreads, hforms⟩ := ih (hvreads.flags hf₁) v d' hr
      refine ⟨tok :: (vtoks ++ toks), .cons hread (hvreads.append hreads), ?_⟩
      rw [kinds_cons, kinds_append, hkey]; exact .entry hvforms hforms
    · cases hk

theorem parseScalarToken_isScalar (h : parseScalarToken tok d = .ok v) : tok.kind.isScalar = true := by
  unfold parseScalarToken at h
  split at h
  all_goals first | (rename_i hk; rw [hk]; rfl) | cases h

/-- **By induction on the nesting bound**: every parser of parts reads the tokens of one value. -/
theorem parseRawValueToken_reads (depth : Nat) : ReadsValues (parseRawValueToken depth) := by
  have hscalar : ∀ {tok : RawToken} {d d' : Decoder} {v : Val},
      (Outcome.ofExcept (parseScalarToken tok d), d) = (.ok v, d') →
      ∃ toks, Reads d toks d' ∧ Forms .value (tok.kind :: kinds toks) := by
    intro tok d d' v h
    cases hp : parseScalarToken tok d with
    | error e => rw [hp] at h; cases h
    | ok w =>
      rw [hp] at h
      cases h
      exact ⟨[], .nil _, .scalar (parseScalarToken_isScalar hp)⟩
  induction depth with
  | zero =>
    intro tok d v d' hf h
    unfold parseRawValueToken at h
    split at h
    · cases h
    · cases h
    · exact hscalar h
  | succ depth ih =>
    intro tok d v d' hf h
    unfold parseRawValueToken at h
    split at h
    · rename_i hk
      obtain ⟨toks, hreads, hforms⟩ := parseArrayValue_reads ih hf h
      exact ⟨toks, hreads, hk ▸ .array hforms⟩
    · rename_i hk
      obtain ⟨toks, hreads, hforms⟩ := parseInlineTableValue_reads ih hf h
      exact ⟨toks, hreads, hk ▸ .inline hforms⟩
    · exact hscalar h

/-- **`parseNextValue` reads the tokens of exactly one value.** -/
theorem parseNextValue_reads (hf : Flags d) (hv : d.valueNoNewline = true) (h : parseNextValue d = (.ok v, d')) :
    ∃ toks, Reads d toks d' ∧ Forms .value (kinds toks) :=
  parseNextValueWith_reads (parseRawValueToken_reads _) hf hv h

/-! ## One value ends where it ends -/

/-- How a value's tokens begin. -/
def startsValue (k : TokenKind) : Bool :=
  k.isScalar || k == .arrayStart || k == .inlineTableStart

theorem Forms.value_head {vs : List TokenKind} (h : Forms .value vs) :
    ∃ k t, vs = k :: t ∧ startsValue k = true := by
  cases h with
  | scalar hk => exact ⟨_, [], rfl, by simp [startsValue, hk]⟩
  | array h | inline h => exact ⟨_, _, rfl, rfl⟩

/-- A value cannot begin with a token that is not the start of one. -/
theorem Forms.value_head_ne {vs xs ys : List TokenKind} {k : TokenKind} (h : Forms .value vs)
    (hk : startsValue k = false) : vs ++ xs ≠ k :: ys := by
  intro heq
  obtain ⟨k', t, rfl, hk'⟩ := h.value_head
  injection heq with h1 _
  rw [h1, hk] at hk'
  cases hk'

/-- **No value is the beginning of a longer one.** -/
theorem Forms.prefix_free {p : Part} {as bs xs ys : List TokenKind} (ha : Forms p as)
    (hb : Forms p bs) (h : as ++ xs = bs ++ ys) : as = bs := by
  induction ha generalizing bs xs ys with
  | @scalar k hk =>
    cases hb with
    | scalar => injection h with h1 _; rw [h1]
    | array | inline => injection h with h1 _; rw [h1] at hk; cases hk
  | array _ ih =>
    cases hb with
    | scalar hk => injection h with h1 _; rw [← h1] at hk; cases hk
    | array hb' => injection h with _ h2; rw [ih hb' h2]
    | inline => injection h with h1 _; cases h1
  | inline _ ih =>
    cases hb with
    | scalar hk => injection h with h1 _; rw [← h1] at hk; cases hk
    | array => injection h with h1 _; cases h1
    | inline hb' => injection h with _ h2; rw [ih hb' h2]
  | elementsEnd =>
    cases hb with
    | elementsEnd => rfl
    | elementsComment => injection h with h1 _; cases h1
    | element hv _ =>
      rw [append_assoc] at h
      exact absurd h.symm (hv.value_head_ne rfl)
  | elementsComment _ ih =>
    cases hb with
    | elementsEnd => injection h with h1 _; cases h1
    | elementsComment hb' => injection h with _ h2; rw [ih hb' h2]
    | element hv _ =>
      rw [append_assoc] at h
      exact absurd h.symm (hv.value_head_ne rfl)
  | element hv _ ihv ih =>
    rw [append_assoc] at h
    cases hb with
    | elementsEnd | elementsComment => exact absurd h (hv.value_head_ne rfl)
    | element hv' hb' =>
      rw [append_assoc] at h
      obtain rfl := ihv hv' h
      rw [ih hb' (append_cancel_left h)]
  | entriesEnd =>
    cases hb with
    | entriesEnd => rfl
    | entriesComment | entry => injection h with h1 _; cases h1
  | entriesComment _ ih =>
    cases hb with
    | entriesEnd | entry => injection h with h1 _; cases h1
    | entriesComment hb' => injection h with _ h2; rw [ih hb' h2]
  | entry _ _ ihv ih =>
    cases hb with
    | entriesEnd | entriesComment => injection h with h1 _; cases h1
    | entry hv' hb' =>
      rw [cons_append, cons_append, append_assoc, append_assoc] at h
      injection h with _ h2
      obtain rfl := ihv hv' h2
      rw [ih hb' (append_cancel_left h2)]

/-! ## What a value leaves behind -/

/-- The control part after a complete value, with the containers `stack` still open. -/
structure Settled (stack : List Container) (d : Decoder) : Prop where
  containerStack : d.containerStack = stack
  expectingValue : d.expectingValue = (stack.head? == some .array)
  valueNoNewline : d.valueNoNewline = false
  needSeparator : d.needSeparator = !stack.isEmpty
  needLineEnd : d.needLineEnd = stack.isEmpty

theorem Settled.of_valueDone (h : SameControl d.valueDone d') : Settled d.containerStack d' :=
  ⟨h.containerStack, h.expectingValue, h.valueNoNewline, h.needSeparator, h.needLineEnd⟩

theorem Reads.split {xs ys : List RawToken} (h : Reads d (xs ++ ys) d') :
    ∃ d₁, Reads d xs d₁ ∧ Reads d₁ ys d' := by
  induction xs generalizing d with
  | nil => exact ⟨d, .nil d, h⟩
  | cons tok xs ih =>
    cases h with
    | cons hr h' =>
      obtain ⟨d₁, h1, h2⟩ := ih h'
      exact ⟨d₁, .cons hr h1, h2⟩

theorem kinds_eq_append {as bs : List TokenKind} (h : kinds toks = as ++ bs) :
    ∃ xs ys, toks = xs ++ ys ∧ kinds xs = as ∧ kinds ys = bs := map_eq_append_iff.mp h

theorem kinds_eq_cons {k : TokenKind} {ks : List TokenKind} (h : kinds toks = k :: ks) :
    ∃ tok ts, toks = tok :: ts ∧ tok.kind = k ∧ kinds ts = ks :=
  map_eq_cons_iff.mp h

/-- The containers after one token. -/
theorem readToken_control (h : d.readToken = (.ok tok, d')) :
    ∃ e : Decoder, e.containerStack = d.containerStack ∧ SameControl (e.afterToken tok.kind) d' := by
  obtain ⟨-, e, hb, hs⟩ := readToken_ok h
  exact ⟨e, hb.containerStack, hs.control⟩

/-- The first of the tokens read, by its kind. -/
theorem Reads.uncons {k : TokenKind} {ks : List TokenKind} (h : Reads d toks d') (hk : kinds toks = k :: ks) :
    ∃ ts d₁, ∃ e : Decoder, kinds ts = ks ∧ Reads d₁ ts d' ∧ e.containerStack = d.containerStack ∧
      SameControl (e.afterToken k) d₁ := by
  obtain ⟨tok, ts, rfl, rfl, hts⟩ := kinds_eq_cons hk
  cases h with
  | cons hr h' =>
    obtain ⟨e, he, hc⟩ := readToken_control hr
    exact ⟨ts, _, e, hts, h', he, hc⟩

/-- The containers open in front of each part of a value. -/
def Part.opens : Part → List Container → List Container
  | .value, stack => stack
  | .elements, stack => .array :: stack
  | .entries, stack => .inline :: stack

/-- **Brackets match**: reading a part of a value closes what the part has open and leaves the rest of
    the containers as they were. -/
theorem Reads.settled {p : Part} {ks : List TokenKind} (hforms : Forms p ks) {stack : List Container}
    (hk : kinds toks = ks) (h : Reads d toks d') (hd : d.containerStack = p.opens stack) :
    Settled stack d' := by
  induction hforms generalizing d d' toks stack with
  | scalar hs =>
    obtain ⟨ts, d₁, e, hts, h', he, hc⟩ := h.uncons hk
    obtain rfl := map_eq_nil_iff.mp hts
    cases h'
    rw [afterToken_scalar hs] at hc
    have := Settled.of_valueDone hc
    rwa [he, hd] at this
  | array _ ih | inline _ ih =>
    obtain ⟨ts, d₁, e, hts, h', he, hc⟩ := h.uncons hk
    refine ih hts h' ?_
    rw [hc.containerStack]
    show _ :: e.containerStack = _
    rw [he, hd]; rfl
  | elementsEnd =>
    obtain ⟨ts, d₁, e, hts, h', he, hc⟩ := h.uncons hk
    obtain rfl := map_eq_nil_iff.mp hts
    cases h'
    have hst : popContainer e.containerStack .array = stack := by rw [he, hd]; rfl
    have := Settled.of_valueDone hc
    rwa [hst] at this
  | entriesEnd =>
    obtain ⟨ts, d₁, e, hts, h', he, hc⟩ := h.uncons hk
    obtain rfl := map_eq_nil_iff.mp hts
    cases h'
    have hst : popContainer e.containerStack .inline = stack := by rw [he, hd]; rfl
    have := Settled.of_valueDone hc
    rwa [hst] at this
  | elementsComment _ ih | entriesComment _ ih =>
    obtain ⟨ts, d₁, e, hts, h', he, hc⟩ := h.uncons hk
    exact ih hts h' ((hc.containerStack.trans he).trans hd)
  | element _ _ ihv ih =>
    obtain ⟨xs, ys, rfl, hxs, hys⟩ := kinds_eq_append hk
    obtain ⟨d₁, h1, h2⟩ := h.split
    exact ih hys h2 (ihv hxs h1 hd).containerStack
  | entry _ _ ihv ih =>
    obtain ⟨ts, d₁, e, hts, h', he, hc⟩ := h.uncons hk
    obtain ⟨xs, ys, rfl, hxs, hys⟩ := kinds_eq_append hts
    obtain ⟨d₂, h1, h2⟩ := h'.split
    exact ih hys h2 (ihv hxs h1 ((hc.containerStack.trans he).trans hd)).containerStack

end Pandaemonium.Toml
