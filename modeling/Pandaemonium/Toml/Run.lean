import Pandaemonium.Toml.Reader

/-!
# `Toml.Run` — reachable states and what holds in all of them

A decoder is used by calling `readToken` again and again. `Reachable` collects the states such a run
passes through, at every turn of every call. `Flags` is what holds in all of them: which combinations of
the five flags and the container stack can occur.
-/

namespace Pandaemonium.Toml.Decoder

/-- The decoder after a turn, whether the turn returned or not. -/
def turnState : Turn Decoder (Outcome RawToken × Decoder) → Decoder
  | .again d => d
  | .done r => r.2

/-- The states the loop of `readToken` passes through, in any sequence of calls from `d₀`. -/
inductive Reachable (d₀ : Decoder) : Decoder → Prop
  | start : Reachable d₀ d₀
  | turn {d : Decoder} : Reachable d₀ d → d.err = none → Reachable d₀ (turnState d.readTokenIter)

/-- Which flags can be up together. -/
structure Flags (d : Decoder) : Prop where
  bounded : d.off ≤ d.buf.length
  separator : d.needSeparator = true → d.containerStack ≠ []
  array : d.innermostIsArray = true → d.expectingValue = true
  noNewline : d.valueNoNewline = true →
    d.expectingValue = true ∧ d.needLineEnd = false ∧ d.needSeparator = false ∧
      d.innermostIsArray = false
  lineEnd : d.needLineEnd = true → d.expectingValue = false

variable {d d' : Decoder}

theorem Flags.of_sameControl (h : Flags d) (hs : SameControl d d') (hb : d'.off ≤ d'.buf.length) :
    Flags d' where
  bounded := hb
  separator := by rw [hs.needSeparator, hs.containerStack]; exact h.separator
  array := by
    rw [innermostIsArray, hs.containerStack, hs.expectingValue]; exact h.array
  noNewline := by
    rw [hs.valueNoNewline, hs.expectingValue, hs.needLineEnd, hs.needSeparator, innermostIsArray,
      hs.containerStack]
    exact h.noNewline
  lineEnd := by rw [hs.needLineEnd, hs.expectingValue]; exact h.lineEnd

/-! ## Blanks keep the flags -/

theorem rest_length (d : Decoder) : d.rest.length = d.buf.length - d.off := List.length_drop

theorem skipSpaces_rest (d : Decoder) :
    d.skipSpaces.rest = d.rest.drop (blankRun (!d.valueNoNewline) d.rest) := by
  obtain ⟨l, c, h⟩ := skipSpaces_eq d
  rw [h]; exact (List.drop_drop ..).symm

theorem skipSpaces_err (d : Decoder) : d.skipSpaces.err = d.err := by
  obtain ⟨l, c, h⟩ := skipSpaces_eq d
  rw [h]

theorem skipSpaces_flags (h : Flags d) : Flags d.skipSpaces := by
  obtain ⟨l, c, he⟩ := skipSpaces_eq d
  have hb := blankRun_le (!d.valueNoNewline) d.rest
  rw [rest_length] at hb
  rw [he]
  refine ⟨?_, h.separator, h.array, fun hv => ?_, fun hn => ?_⟩
  · show d.off + _ ≤ d.buf.length
    have := h.bounded; omega
  · obtain ⟨h1, h2, h3, h4⟩ := h.noNewline hv
    exact ⟨h1, by simp [h2], h3, h4⟩
  · simp only [Bool.and_eq_true] at hn
    exact h.lineEnd hn.1

/-! ## Tokens keep the flags -/

theorem valueDone_flags (hb : d.off ≤ d.buf.length) : Flags d.valueDone where
  bounded := hb
  separator := by simp [valueDone]
  array := id
  noNewline := by simp [valueDone]
  lineEnd := by
    intro hn
    have hn' : d.containerStack = [] := by simpa [valueDone] using hn
    simp [valueDone, innermostIsArray, hn']

theorem afterToken_flags {k : TokenKind} (h : Flags d) (hg : d.Guard k) : Flags (d.afterToken k) := by
  by_cases hk : k.isScalar = true
  · rw [afterToken_scalar hk]; exact valueDone_flags h.bounded
  cases k with
  | invalid => exact hg.elim
  | comment => exact h
  | key =>
    have harr : d.innermostIsArray = false := by
      cases ha : d.innermostIsArray with
      | false => rfl
      | true => exact absurd (h.array ha) (by simp [hg.2.1])
    have hsep : d.needSeparator = false := by
      cases hs : d.needSeparator with
      | false => rfl
      | true =>
        have := h.separator hs
        have hg3 := hg.2.2.1
        rw [hs] at hg3
        simp [this] at hg3
    exact ⟨h.bounded, h.separator, fun _ => rfl, fun _ => ⟨rfl, rfl, hsep, harr⟩,
      fun hn => by cases hn⟩
  | tableHeader | arrayTableHeader =>
    obtain ⟨-, -, hv, -⟩ := hg
    refine ⟨h.bounded, h.separator, fun ha => ?_, fun hn => ?_, fun _ => rfl⟩
    · exact absurd (h.array ha) (by simp [hv])
    · exact absurd (h.noNewline hn).1 (by simp [hv])
  | arrayStart =>
    exact ⟨h.bounded, fun hs => (by cases hs), fun _ => rfl, fun hn => (by cases hn),
      fun hn => absurd hn (by simp [afterToken, hg.1])⟩
  | inlineTableStart =>
    exact ⟨h.bounded, fun hs => (by cases hs), fun ha => (by cases ha), fun hn => (by cases hn),
      fun _ => rfl⟩
  | arrayEnd | inlineTableEnd => exact valueDone_flags h.bounded
  | valueString | valueInteger | valueFloat | valueBool | valueDatetime => exact absurd rfl hk

theorem CommaStep.flags (h : Flags d) (hs : CommaStep d d') : Flags d' := by
  have hr := ne_nil_of_head? hs.comma
  have hb := advance_bounded hr Nat.one_pos
  rw [hs.eq]
  refine ⟨hb.2, fun hn => (by cases hn), id, fun hn => ?_, fun hn => ?_⟩
  · have := (h.noNewline hn).2.2.1
    rw [hs.needSeparator] at this; cases this
  · have hn' : d.needLineEnd = true := hn
    rw [hs.needLineEnd] at hn'; cases hn'

/-! ## Every reachable state -/

/-- **A step lemma**: what a turn does keeps the flags. -/
theorem TurnSpec.flags (h : Flags d) {r : Turn Decoder (Outcome RawToken × Decoder)} (hr : d.TurnSpec r) :
    Flags (turnState r) := by
  cases r with
  | again d' =>
    rcases hr with hc | hl
    · exact hc.flags h
    · show Flags d'
      rw [hl.eq]; exact h
  | done r =>
    obtain ⟨o, d'⟩ := r
    cases o with
    | ok tok =>
      have ht : TokenStep d tok d' := hr
      refine (afterToken_flags h ht.guard).of_sameControl ht.control ?_
      have hbuf : d'.buf = d.buf := by rw [ht.control.buf]; cases tok.kind <;> rfl
      show d'.off ≤ d'.buf.length
      rw [hbuf]; exact ht.bounded
    | error e =>
      have he : ErrorStep d d' := hr
      refine h.of_sameControl he.control ?_
      show d'.off ≤ d'.buf.length
      rw [he.control.buf]; exact he.bounded h.bounded
    | hang => exact hr.elim

theorem Reachable.flags {d₀ : Decoder} (h₀ : Flags d₀) (h : Reachable d₀ d) : Flags d := by
  induction h with
  | start => exact h₀
  | @turn d _ _ ih => exact (readTokenIter_spec d).flags (skipSpaces_flags ih)

/-! ## The initial state -/

theorem foldl_applyOption (opts : List DecoderOption) (d : Decoder) :
    ∃ l t, opts.foldl applyOption d = { d with limits := l, trackTokenPositions := t } := by
  induction opts generalizing d with
  | nil => exact ⟨_, _, rfl⟩
  | cons o opts ih =>
    obtain ⟨l, t, h⟩ := ih (d.applyOption o)
    refine ⟨l, t, ?_⟩
    rw [List.foldl_cons, h]
    cases o <;> rfl

/-- The decoder at the start of `data`: only the limits, the tracking, the byte order mark and the
    error of a refused document vary. -/
theorem newDecoderBytes_eq (data : Bytes) (opts : List DecoderOption) :
    ∃ l t e n line col a, newDecoderBytes data opts =
      { start data with
        limits := l, trackTokenPositions := t, err := e, off := n, line := line, col := col
        atLineStart := a } ∧ n ≤ data.length := by
  obtain ⟨l, t, h⟩ := foldl_applyOption opts (start data)
  unfold newDecoderBytes
  rw [h]
  dsimp only
  split
  · exact ⟨_, _, _, 0, 1, 1, true, rfl, Nat.zero_le _⟩
  split
  · exact ⟨_, _, _, 0, 1, 1, true, rfl, Nat.zero_le _⟩
  unfold skipBOM
  split
  · exact ⟨_, _, _, _, _, _, _, rfl, by
      show 0 + (data.take 3).length ≤ data.length
      rw [List.length_take]; omega⟩
  · exact ⟨_, _, _, 0, 1, 1, true, rfl, Nat.zero_le _⟩

theorem newDecoderBytes_buf (data : Bytes) (opts : List DecoderOption) :
    (newDecoderBytes data opts).buf = data := by
  obtain ⟨_, _, _, _, _, _, _, heq, -⟩ := newDecoderBytes_eq data opts
  rw [heq]
  rfl

theorem newDecoderBytes_flags (data : Bytes) (opts : List DecoderOption) :
    Flags (newDecoderBytes data opts) := by
  obtain ⟨l, t, e, n, line, col, a, h, hn⟩ := newDecoderBytes_eq data opts
  rw [h]
  exact ⟨hn, fun hs => (by cases hs), fun hs => (by cases hs), fun hs => (by cases hs), fun _ => rfl⟩

/-! ## Calls -/

/-- `e` is reached from `d` over blanks and commas. -/
structure Before (d e : Decoder) : Prop where
  buf : e.buf = d.buf
  limits : e.limits = d.limits
  arrayDepth : e.arrayDepth = d.arrayDepth
  inlineDepth : e.inlineDepth = d.inlineDepth
  containerStack : e.containerStack = d.containerStack
  trackTokenPositions : e.trackTokenPositions = d.trackTokenPositions
  valueNoNewline : e.valueNoNewline = d.valueNoNewline
  err : e.err = d.err
  le : d.off ≤ e.off
  flags : Flags d → Flags e

theorem Before.trans {e f : Decoder} (h : Before d e) (h' : Before e f) : Before d f :=
  ⟨h'.buf.trans h.buf, h'.limits.trans h.limits, h'.arrayDepth.trans h.arrayDepth,
    h'.inlineDepth.trans h.inlineDepth, h'.containerStack.trans h.containerStack,
    h'.trackTokenPositions.trans h.trackTokenPositions,
    h'.valueNoNewline.trans h.valueNoNewline, h'.err.trans h.err,
    Nat.le_trans h.le h'.le, fun hf => h'.flags (h.flags hf)⟩

theorem skipSpaces_before (d : Decoder) : Before d d.skipSpaces := by
  have hf := skipSpaces_flags (d := d)
  obtain ⟨l, c, h⟩ := skipSpaces_eq d
  rw [h] at hf ⊢
  exact ⟨rfl, rfl, rfl, rfl, rfl, rfl, rfl, rfl, Nat.le_add_right _ _, hf⟩

theorem CommaStep.before (h : CommaStep d d') : Before d d' := by
  have hf := fun hd => CommaStep.flags hd h
  rw [h.eq] at hf ⊢
  exact ⟨rfl, rfl, rfl, rfl, rfl, rfl, rfl, rfl, Nat.le_add_right _ _, hf⟩

theorem again_before (h : d.readTokenIter = .again d') : Before d d' := by
  have hs := readTokenIter_spec d
  rw [h] at hs
  rcases hs with hc | hl
  · exact (skipSpaces_before d).trans hc.before
  · rw [hl.eq]; exact skipSpaces_before d

/-- **Invariants of a run.** What survives the turns that return nothing, the tokens and the errors
    holds in every reachable state. -/
theorem Reachable.invariant {d₀ : Decoder} {P : Decoder → Prop} (h : Reachable d₀ d) (start : P d₀)
    (before : ∀ {d e}, Before d e → P d → P e) (token : ∀ {d tok d'}, TokenStep d tok d' → P d → P d')
    (error : ∀ {d d'}, ErrorStep d d' → P d → P d') : P d := by
  induction h with
  | start => exact start
  | @turn d _ _ ih =>
    have hspec := readTokenIter_spec d
    cases ht : d.readTokenIter with
    | again d' => exact before (again_before ht) ih
    | done r =>
      have hb := before (skipSpaces_before d) ih
      rw [ht] at hspec
      obtain ⟨o, d'⟩ := r
      cases o with
      | ok tok => exact token hspec hb
      | error e => exact error hspec hb
      | hang => exact hspec.elim

variable {r : Outcome RawToken × Decoder}

/-- **How a call that returns comes about.** -/
theorem loop_ends (h : Loop.loop (fun d => d.rest.length) readTokenIter d = some r) :
    ∃ e, Before d e ∧ e.Ends r := by
  refine Loop.loop_induction (motive := fun d r => ∃ e, Before d e ∧ e.Ends r) ?_ ?_ h
  · intro d r hb
    have hs := readTokenIter_spec d
    rw [hb] at hs
    exact ⟨_, skipSpaces_before d, hs⟩
  · rintro d d' r hb - - ⟨e, he, hr⟩
    exact ⟨e, (again_before hb).trans he, hr⟩

theorem readToken_of_loop (he : d.err = none) (h : Loop.loop (fun d => d.rest.length) readTokenIter d = some r) :
    d.readToken = r := by
  rw [readToken, he]; simp only [h]

/-- A call returns a token or a new error as described, or it repeats the recorded error, or it does
    not return. -/
theorem readToken_cases (d : Decoder) :
    (∃ e, d.err = some e ∧ d.readToken = (.error e, d)) ∨
      (d.err = none ∧ d.readToken = (.hang, d)) ∨
      (d.err = none ∧ ∃ e, Before d e ∧ e.Ends d.readToken) := by
  cases he : d.err with
  | some e => exact .inl ⟨e, rfl, by rw [readToken, he]⟩
  | none =>
    right
    cases hl : Loop.loop (fun d => d.rest.length) readTokenIter d with
    | none => left; exact ⟨rfl, by rw [readToken, he]; simp only [hl]⟩
    | some r =>
      right
      rw [readToken_of_loop he hl]
      exact ⟨rfl, loop_ends hl⟩

/-- **A call that returns a token.** -/
theorem readToken_ok {tok : RawToken} (h : d.readToken = (.ok tok, d')) :
    d.err = none ∧ ∃ e, Before d e ∧ TokenStep e tok d' := by
  rcases readToken_cases d with ⟨e, -, hr⟩ | ⟨-, hr⟩ | ⟨he, e, hb, hr⟩
  · rw [h] at hr; cases hr
  · rw [h] at hr; cases hr
  · rw [h] at hr; exact ⟨he, e, hb, hr⟩

theorem Ends.flags (h : Flags d) (hr : d.Ends r) : Flags r.2 := TurnSpec.flags (r := .done r) h hr

theorem Ends.buf (hr : d.Ends r) : r.2.buf = d.buf := by
  obtain ⟨o, d'⟩ := r
  cases o with
  | ok tok =>
    have hr : TokenStep d tok d' := hr
    refine hr.control.buf.trans ?_
    cases tok.kind <;> rfl
  | error e => exact (ErrorStep.control hr).buf
  | hang => exact hr.elim

theorem readToken_flags (h : Flags d) : Flags d.readToken.2 := by
  rcases readToken_cases d with ⟨e, -, hr⟩ | ⟨-, hr⟩ | ⟨-, e, hb, hr⟩
  · rw [hr]; exact h
  · rw [hr]; exact h
  · exact hr.flags (hb.flags h)

theorem readToken_buf (d : Decoder) : d.readToken.2.buf = d.buf := by
  rcases readToken_cases d with ⟨e, -, hr⟩ | ⟨-, hr⟩ | ⟨-, e, hb, hr⟩
  · rw [hr]
  · rw [hr]
  · exact hr.buf.trans hb.buf

/-- A returned token has taken bytes. -/
theorem readToken_off_lt {tok : RawToken} (h : d.readToken = (.ok tok, d')) : d.off < d'.off := by
  obtain ⟨-, e, hb, ht⟩ := readToken_ok h
  exact Nat.lt_of_le_of_lt hb.le ht.progress

theorem rest_lt_of_off_lt (hf : Flags d') (hb : d'.buf = d.buf) (h : d.off < d'.off) :
    d'.rest.length < d.rest.length := by
  have := hf.bounded
  rw [hb] at this
  rw [rest_length, rest_length, hb]; omega

/-- A returned token leaves less to read. -/
theorem readToken_rest_lt {tok : RawToken} (h : d.readToken = (.ok tok, d')) :
    d'.rest.length < d.rest.length := by
  obtain ⟨-, e, hb, ht⟩ := readToken_ok h
  have hlt := ht.progress
  have hle := ht.bounded
  have hbuf := readToken_buf d
  rw [h] at hbuf
  rw [rest_length, rest_length, hbuf]
  rw [hb.buf] at hle
  have := hb.le
  omega

end Pandaemonium.Toml.Decoder
