import Pandaemonium.Toml.Run

/-!
# `Toml.Progress` — when the token reader comes to an end

Every turn of `readToken` that goes round has passed over a comma or over blanks, with one exception.
Where a line end is due, the loop goes round on LF and on CR alike and leaves it to `skipSpaces` to take
them, but `skipSpaces` takes a CR only together with an LF. A CR on its own behind a complete statement
is therefore never taken, and the call never returns (`Stuck`). That is the only way to stall:
`progresses_iff`.
-/

namespace Pandaemonium.Toml

open List

/-- The text starts with a CR that is no part of a CRLF. -/
def loneCR : Bytes → Bool
  | c :: t => c == 0x0D && t.head? != some 0x0A
  | [] => false

theorem loneCR_blankStop {s : Bytes} (h : loneCR s = true) : BlankStop true s := by
  intro c t hs
  subst hs
  simp only [loneCR, Bool.and_eq_true, beq_iff_eq, bne_iff_ne] at h
  obtain ⟨rfl, ht⟩ := h
  exact ⟨by decide, fun _ => ⟨by decide, fun hc => ht hc.2⟩⟩

/-- Blanks without a line end are spaces and tabs. -/
theorem blankRun_of_not_passesLine {nl : Bool} {s : Bytes} (h : passesLine nl s = false) :
    blankRun nl s = Scan.skipWhitespace s := by
  rw [blankRun_whitespace, Nat.add_eq_left]
  rw [passesLine_whitespace] at h
  generalize hs : s.drop (Scan.skipWhitespace s) = t at h
  induction t using blank_induction nl with
  | stop t ht => exact blankRun_stop ht
  | blank c t hb ih =>
    -- the whitespace scan leaves no blank in front
    have hstop := Bytes.drop_findIdx_pos (p := fun b => !Scan.isSpaceTab b) (s := s)
    have hdrop : s.drop (s.findIdx fun b => !Scan.isSpaceTab b) = c :: t := hs
    rw [hdrop] at hstop
    have := hstop c rfl
    simp [hb] at this
  | lf hnl t ih => subst hnl; rw [passesLine_lf] at h; cases h
  | crlf hnl t ih => subst hnl; rw [passesLine_crlf] at h; cases h

variable {d : Decoder}

namespace Decoder

/-- A line end is due, and behind spaces and tabs stands a CR on its own. -/
def Stuck (d : Decoder) : Prop :=
  d.needLineEnd = true ∧ loneCR (d.rest.drop (Scan.skipWhitespace d.rest)) = true

instance (d : Decoder) : Decidable d.Stuck := inferInstanceAs (Decidable (_ ∧ _))

/-! ## Turns that go round -/

/-- Going round moves on, or a line end that is due was not taken. -/
theorem again_progress {d' : Decoder} (h : d.readTokenIter = .again d') :
    d.off < d'.off ∨ LineEndStep d.skipSpaces d' := by
  have hs := readTokenIter_spec d
  rw [h] at hs
  rcases hs with hc | hl
  · left
    have hb := advance_bounded (ne_nil_of_head? hc.comma) Nat.one_pos
    rw [hc.eq]
    exact Nat.lt_of_le_of_lt ((skipSpaces_before d).le) hb.1
  · exact .inr hl

/-- Only a CR on its own is not taken where a line end is due. -/
theorem LineEndStep.stuck {d' : Decoder} (h : Flags d) (hl : LineEndStep d.skipSpaces d') : d.Stuck := by
  obtain ⟨l, c, he⟩ := skipSpaces_eq d
  have hnl := hl.needLineEnd
  rw [he] at hnl
  simp only [Bool.and_eq_true, Bool.not_eq_true'] at hnl
  obtain ⟨hn, hp⟩ := hnl
  have hv : d.valueNoNewline = false := by
    cases hv : d.valueNoNewline with
    | false => rfl
    | true => rw [(h.noNewline hv).2.1] at hn; cases hn
  have hstop := blankStop_drop (!d.valueNoNewline) d.rest
  have hline := hl.lineEnd
  rw [skipSpaces_rest, blankRun_of_not_passesLine hp] at hline
  rw [blankRun_of_not_passesLine hp, hv] at hstop
  refine ⟨hn, ?_⟩
  cases hr : d.rest.drop (Scan.skipWhitespace d.rest) with
  | nil => rw [hr] at hline; simp at hline
  | cons b t =>
    obtain ⟨-, hb⟩ := hstop b t hr
    obtain ⟨hlf, hcrlf⟩ := hb rfl
    rw [hr] at hline
    simp only [head?_cons, Option.some.injEq] at hline
    obtain rfl : b = 0x0D := hline.resolve_left hlf
    simpa [loneCR] using hcrlf

/-! ## A stuck state never returns -/

theorem Stuck.skipSpaces_eq_of (h : Flags d) (hs : d.Stuck) :
    d.skipSpaces.needLineEnd = true ∧
      d.skipSpaces.rest = d.rest.drop (Scan.skipWhitespace d.rest) := by
  obtain ⟨hn, hcr⟩ := hs
  have hv : d.valueNoNewline = false := by
    cases hv : d.valueNoNewline with
    | false => rfl
    | true => rw [(h.noNewline hv).2.1] at hn; cases hn
  have hstop := loneCR_blankStop hcr
  have hrun : blankRun (!d.valueNoNewline) d.rest = Scan.skipWhitespace d.rest := by
    rw [hv, blankRun_whitespace]; simp [blankRun_stop hstop]
  have hpass : passesLine (!d.valueNoNewline) d.rest = false := by
    rw [hv, passesLine_whitespace]; exact passesLine_stop hstop
  obtain ⟨l, c, he⟩ := skipSpaces_eq d
  refine ⟨?_, by rw [skipSpaces_rest, hrun]⟩
  rw [he]; simp [hn, hpass]

theorem Stuck.turn (h : Flags d) (hs : d.Stuck) : d.readTokenIter = .again d.skipSpaces := by
  obtain ⟨hn, hr⟩ := hs.skipSpaces_eq_of h
  have hcr := hs.2
  rw [← hr] at hcr
  cases hc : d.skipSpaces.rest with
  | nil => rw [hc] at hcr; cases hcr
  | cons b t =>
    rw [hc] at hcr
    simp only [loneCR, Bool.and_eq_true, beq_iff_eq] at hcr
    have hne : d.rest.isEmpty = false := by
      cases hd : d.rest with
      | nil => rw [skipSpaces_nil hd, hd] at hc; cases hc
      | cons _ _ => rfl
    unfold readTokenIter
    simp [hne, hc, hn, hcr.1]

theorem skipSpaces_skipSpaces (d : Decoder) : d.skipSpaces.skipSpaces = d.skipSpaces := by
  apply skipSpaces_of_blankStop
  have hv : d.skipSpaces.valueNoNewline = d.valueNoNewline := by
    obtain ⟨l, c, he⟩ := skipSpaces_eq d
    rw [he]
  rw [hv, skipSpaces_rest]
  exact blankStop_drop _ _

/-- Behind the blanks a stuck state goes round as it is. -/
theorem Stuck.fixed (h : Flags d) (hs : d.Stuck) : d.skipSpaces.readTokenIter = .again d.skipSpaces := by
  have hs' : d.skipSpaces.Stuck := by
    obtain ⟨hn, hr⟩ := hs.skipSpaces_eq_of h
    refine ⟨hn, ?_⟩
    have hstop := loneCR_blankStop hs.2
    have hw : Scan.skipWhitespace (d.rest.drop (Scan.skipWhitespace d.rest)) = 0 := by
      have := blankRun_whitespace true (d.rest.drop (Scan.skipWhitespace d.rest))
      rw [blankRun_stop hstop] at this; omega
    rw [hr, hw]; exact hs.2
  have := hs'.turn (skipSpaces_flags h)
  rwa [skipSpaces_skipSpaces] at this

/-! ## Calls -/

/-- **Every unproductive turn repeats itself**, so the guarded loop of the model is the loop of the
    source: where it answers `hang`, the source goes round for ever. -/
theorem readTokenIter_stalls : Loop.Stalls (fun d => d.rest.length) readTokenIter := by
  intro d d' h
  have hs := readTokenIter_spec d
  rw [h] at hs
  have hrest := skipSpaces_rest d
  rcases hs with hc | hl
  · left
    have hne := length_pos_iff.mpr (ne_nil_of_head? hc.comma)
    have hadv : d'.rest = d.skipSpaces.rest.drop (d.skipSpaces.rest.take 1).length := by
      rw [hc.eq]; exact rest_advanceBytes _ _
    simp only
    rw [hadv, length_drop, length_take]
    have : d.skipSpaces.rest.length ≤ d.rest.length := by rw [hrest, length_drop]; omega
    omega
  · rw [hl.eq]
    by_cases hz : blankRun (!d.valueNoNewline) d.rest = 0
    · right
      apply skipSpaces_of_blankStop
      have := blankStop_drop (!d.valueNoNewline) d.rest
      rwa [hz, drop_zero] at this
    · left
      have hle := blankRun_le (!d.valueNoNewline) d.rest
      simp only
      rw [hrest, length_drop]; omega

/-- What a call that returns leaves behind was reached by its turns. -/
theorem Reachable.of_loop {d₀ : Decoder} {r : Outcome RawToken × Decoder}
    (h : Loop.loop (fun d => d.rest.length) readTokenIter d = some r) :
    Reachable d₀ d → d.err = none → Reachable d₀ r.2 := by
  refine Loop.loop_induction (motive := fun d r => Reachable d₀ d → d.err = none → Reachable d₀ r.2) ?_ ?_ h
  · intro d r hb hr he
    have := hr.turn he
    rwa [hb] at this
  · intro d d' r hb _ _ ih hr he
    have := hr.turn he
    rw [hb] at this
    exact ih this ((again_before hb).err.trans he)

theorem Reachable.readToken {d₀ : Decoder} (h : Reachable d₀ d) : Reachable d₀ d.readToken.2 := by
  unfold Decoder.readToken
  split
  · exact h
  rename_i he
  split
  · rename_i r hl; exact h.of_loop hl he
  · exact h

/-- The decoder after `n` calls. -/
def afterCalls (d : Decoder) : Nat → Decoder
  | 0 => d
  | n + 1 => afterCalls d.readToken.2 n

/-- **Progress**: every turn returns or moves on, every token takes bytes, every call returns, and the
    input comes to an end. -/
structure Progresses (d₀ : Decoder) : Prop where
  turn : ∀ d d', Reachable d₀ d → d.err = none → d.readTokenIter = .again d' → d.off < d'.off
  token : ∀ d tok d', Reachable d₀ d → d.readToken = (.ok tok, d') → d.off < d'.off
  returns : ∀ d, Reachable d₀ d → d.err = none → ∃ r, Loop.Returns readTokenIter d r
  exhausted : ∃ n e, (d₀.afterCalls n).readToken.1 = .error e

/-- A run that never stands in front of a lone CR where a line end is due. -/
def NeverStuck (d₀ : Decoder) : Prop := ∀ d, Reachable d₀ d → d.err = none → ¬ d.Stuck

variable {d₀ : Decoder}

theorem NeverStuck.turn (hf : Flags d₀) (h : NeverStuck d₀) {d' : Decoder} (hr : Reachable d₀ d)
    (he : d.err = none) (hb : d.readTokenIter = .again d') : d.off < d'.off :=
  (again_progress hb).resolve_right fun hl => h d hr he (hl.stuck (hr.flags hf))

/-- **A run lemma**: a run that is never stuck returns from every call. -/
theorem NeverStuck.loop (hf : Flags d₀) (h : NeverStuck d₀) (hr : Reachable d₀ d) (he : d.err = none) :
    ∃ r, Loop.loop (fun d => d.rest.length) readTokenIter d = some r := by
  induction hk : d.rest.length using Nat.strongRecOn generalizing d with
  | ind k ih =>
    cases hb : d.readTokenIter with
    | done r => exact ⟨r, Loop.loop_done hb⟩
    | again d' =>
      have hr' : Reachable d₀ d' := by have := hr.turn he; rwa [hb] at this
      have hlt := rest_lt_of_off_lt (hr'.flags hf) (again_before hb).buf (h.turn hf hr he hb)
      obtain ⟨r, hl⟩ := ih _ (hk ▸ hlt) hr' ((again_before hb).err.trans he) rfl
      exact ⟨r, (Loop.loop_again hb hlt).trans hl⟩

theorem NeverStuck.exhausted (hf : Flags d₀) (h : NeverStuck d₀) (hr : Reachable d₀ d) :
    ∃ n e, (d.afterCalls n).readToken.1 = .error e := by
  induction hk : d.rest.length using Nat.strongRecOn generalizing d with
  | ind k ih =>
    have hnext := hr.readToken
    cases ho : d.readToken with
    | mk o d' =>
      cases o with
      | error e => exact ⟨0, e, by rw [afterCalls, ho]⟩
      | ok tok =>
        rw [ho] at hnext
        have hlt := readToken_rest_lt ho
        obtain ⟨n, e, hn⟩ := ih _ (hk ▸ hlt) hnext rfl
        exact ⟨n + 1, e, by rw [afterCalls, ho]; exact hn⟩
      | hang =>
        have he : d.err = none := by
          cases he : d.err with
          | none => rfl
          | some e => rw [Decoder.readToken, he] at ho; cases ho
        obtain ⟨r, hl⟩ := h.loop hf hr he
        rw [readToken_of_loop he hl] at ho
        subst ho
        obtain ⟨e, -, hend⟩ := loop_ends hl
        exact hend.elim

/-- A run that meets a stuck state stalls there. -/
theorem Stuck.not_progresses (hf : Flags d₀) (hr : Reachable d₀ d) (he : d.err = none) (hs : d.Stuck) :
    ¬ Progresses d₀ := by
  intro h
  have hr' : Reachable d₀ d.skipSpaces := by
    have := hr.turn he
    rwa [hs.turn (hr.flags hf)] at this
  have := h.turn _ _ hr' ((skipSpaces_before d).err.trans he) (hs.fixed (hr.flags hf))
  omega

/-- **The token reader makes progress on exactly the inputs that never lead it in front of a lone CR
    where a line end is due.** -/
theorem progresses_iff (data : Bytes) (opts : List DecoderOption) :
    Progresses (newDecoderBytes data opts) ↔ NeverStuck (newDecoderBytes data opts) := by
  have hf := newDecoderBytes_flags data opts
  constructor
  · intro h d hr he hs
    exact hs.not_progresses hf hr he h
  intro h
  refine ⟨fun d d' hr he hb => h.turn hf hr he hb, fun d tok d' _ hb => readToken_off_lt hb, ?_,
    h.exhausted hf .start⟩
  intro d hr he
  obtain ⟨r, hl⟩ := h.loop hf hr he
  exact ⟨r, (Loop.loop_eq_some_iff readTokenIter_stalls).mp hl⟩

theorem Reachable.buf (h : Reachable d₀ d) : d.buf = d₀.buf :=
  h.invariant (P := fun d => d.buf = d₀.buf) rfl (fun hb => hb.buf.trans)
    (fun ht => (Ends.buf (r := (.ok _, _)) ht).trans) (fun he => he.control.buf.trans)

/-- **Where every CR of the text is part of a CRLF the reader is never stuck.** -/
theorem neverStuck_of_crlf {data : Bytes} {opts : List DecoderOption}
    (h : ∀ i < data.length, loneCR (data.drop i) = false) : NeverStuck (newDecoderBytes data opts) := by
  intro d hr _ hstuck
  have hcr := hstuck.2
  rw [rest, drop_drop, hr.buf, newDecoderBytes_buf] at hcr
  rcases Nat.lt_or_ge (d.off + Scan.skipWhitespace (data.drop d.off)) data.length with hlt | hge
  · rw [h _ hlt] at hcr
    cases hcr
  · rw [drop_of_length_le hge] at hcr
    cases hcr

example : NeverStuck (newDecoderBytes (ascii "a = 1\r\n") []) := neverStuck_of_crlf (by decide)

/-- A CR behind the last statement: `a = 1` and then CR, without LF. -/
theorem not_progresses_lone_cr : ¬ Progresses (newDecoderBytes (ascii "a = 1\r") []) := by
  have hf := newDecoderBytes_flags (ascii "a = 1\r") []
  -- the state after the key and the value
  have h₀ : Reachable (newDecoderBytes (ascii "a = 1\r") []) _ := .start
  have hr := (h₀.turn (by decide +kernel)).turn (by decide +kernel)
  exact Stuck.not_progresses hf hr (by decide +kernel) (by decide +kernel)

end Decoder

end Pandaemonium.Toml
