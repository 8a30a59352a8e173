import Pandaemonium.Toml.Progress
import Pandaemonium.Toml.Tokens

/-!
# `Toml.Depth` — how deep containers nest

`MaxNestedDepth` is meant to bound the containers that are open at once. The token reader compares it
only with `arrayDepth`, where an array is opened; `scanInlineTableStart` compares nothing. So the bound
holds of exactly those runs that never open a container the comparison lets through while the stack is
full: `nestingCapped_iff`. Two consequences come with the bound. A container past it leaves a
`LimitError` (`NestingCapped.limit`), and `parseArrayValue` and `parseInlineTableValue` call each other
at most once more than the bound (`NestingCapped.recursion`).
-/

namespace Pandaemonium.Toml

open List
open Decoder

/-- The tokens that open a container. -/
def TokenKind.opens : TokenKind → Bool
  | .arrayStart | .inlineTableStart => true
  | _ => false

variable {d' : Decoder} {tok : RawToken}

namespace Decoder

/-- `d` stands in front of a container that no comparison stops: an inline table, or an array while the
    array counter is below the cap. -/
def OpensUnchecked (d : Decoder) : Prop :=
  d.skipSpaces.needLineEnd = false ∧
    (d.skipSpaces.rest.head? = some 0x7B ∨
      d.skipSpaces.rest.head? = some 0x5B ∧
        (d.skipSpaces.atLineStart && !d.skipSpaces.expectingValue) = false ∧
        d.skipSpaces.arrayFits)

/-- Every container the comparison lets through is opened on a stack that is not full. -/
def OpensWithinCap (d₀ : Decoder) : Prop :=
  ∀ d, Reachable d₀ d → d.err = none → d.OpensUnchecked →
    d.containerStack.length < d₀.limits.maxNestedDepth

/-- **The nesting cap** and what follows from it. -/
structure NestingCapped (d₀ : Decoder) : Prop where
  stack : ∀ d, Reachable d₀ d → d.err = none →
    d.containerStack.length ≤ d₀.limits.maxNestedDepth
  limit : ∀ d tok d', Reachable d₀ d → d.containerStack.length = d₀.limits.maxNestedDepth →
    d.readToken = (.ok tok, d') → tok.kind.opens = true →
      ∃ l, d'.err = some (.limitErr l) ∧ d'.readToken = (.error (.limitErr l), d')
  recursion : ∀ d m, Reachable d₀ d → d₀.limits.maxNestedDepth + 1 ≤ m →
    parseNextValueWith (parseRawValueToken m) d =
      parseNextValueWith (parseRawValueToken (d₀.limits.maxNestedDepth + 1)) d

/-! ## The stack along a run -/

theorem popContainer_length_le (stack : List Container) (c : Container) :
    (popContainer stack c).length ≤ stack.length := by
  unfold popContainer
  split
  · rw [length_tail]; omega
  · exact Nat.le_refl _

/-- A token opens at most one container, and only an opening token does. -/
theorem afterToken_stack_length (d : Decoder) (k : TokenKind) :
    (d.afterToken k).containerStack.length ≤
      d.containerStack.length + (if k.opens then 1 else 0) := by
  cases k with
  | arrayEnd | inlineTableEnd => exact popContainer_length_le _ _
  | arrayStart | inlineTableStart | _ => exact Nat.le_refl _

variable {d : Decoder}

theorem opens_stack_length {k : TokenKind} (h : k.opens = true) :
    (d.afterToken k).containerStack.length = d.containerStack.length + 1 := by
  cases k with
  | arrayStart | inlineTableStart => rfl
  | _ => cases h

theorem afterToken_limits (d : Decoder) (k : TokenKind) : (d.afterToken k).limits = d.limits := by
  cases k <;> rfl

/-- In front of an opening token that leaves no error, nothing is checked. -/
theorem TokenStep.opensUnchecked (hs : TokenStep d.skipSpaces tok d') (hk : tok.kind.opens = true)
    (he : d'.err = none) : d.OpensUnchecked := by
  have hguard := hs.guard
  cases hkind : tok.kind with
  | inlineTableStart => rw [hkind] at hguard; exact ⟨hguard.1, .inl hguard.2.1⟩
  | arrayStart =>
    rw [hkind] at hguard
    refine ⟨hguard.1, .inr ⟨hguard.2.1, hguard.2.2.1, ?_⟩⟩
    by_cases hfit : d.skipSpaces.arrayFits
    · exact hfit
    · obtain ⟨l, hl⟩ := hs.err.2 hkind hfit
      rw [hl] at he; cases he
  | _ => rw [hkind] at hk; cases hk

/-- Such a container is opened. -/
theorem OpensUnchecked.turn (hf : Flags d) (he : d.err = none) (h : d.OpensUnchecked) :
    (turnState d.readTokenIter).err = none ∧
      (turnState d.readTokenIter).containerStack.length = d.containerStack.length + 1 := by
  have hb := skipSpaces_before d
  have hfe := skipSpaces_flags hf
  obtain ⟨hnl, hcases⟩ := h
  -- in an array a value is always expected, so the comma check never fires
  have hcomma : (d.skipSpaces.innermostIsArray && !d.skipSpaces.expectingValue) = false := by
    cases ha : d.skipSpaces.innermostIsArray with
    | false => rfl
    | true => simp [hfe.array ha]
  rcases hcases with hh | ⟨hh, hline, hfit⟩
  · obtain ⟨t, hr⟩ : ∃ t, d.skipSpaces.rest = 0x7B :: t := by
      cases hs : d.skipSpaces.rest with
      | nil => rw [hs] at hh; cases hh
      | cons c t => rw [hs] at hh; cases hh; exact ⟨t, rfl⟩
    have hturn : d.readTokenIter = .done d.skipSpaces.scanInlineTableStart := by
      rw [readTokenIter_dispatch hr hnl (fun h => by cases h)]
      exact if_neg (by rw [hcomma]; exact Bool.false_ne_true)
    rw [hturn]
    refine ⟨hb.err.trans he, ?_⟩
    show (Container.inline :: d.skipSpaces.containerStack).length = _
    rw [hb.containerStack, length_cons]
  · obtain ⟨t, hr⟩ : ∃ t, d.skipSpaces.rest = 0x5B :: t := by
      cases hs : d.skipSpaces.rest with
      | nil => rw [hs] at hh; cases hh
      | cons c t => rw [hs] at hh; cases hh; exact ⟨t, rfl⟩
    have hturn : d.readTokenIter = .done d.skipSpaces.scanArrayStart := by
      rw [readTokenIter_dispatch hr hnl (fun _ => hline)]
      exact if_neg (by rw [hcomma]; exact Bool.false_ne_true)
    have hends : TokenStep d.skipSpaces _ _ := scanArrayStart_ends ⟨hnl, hh, hline, hcomma⟩
    rw [hturn]
    refine ⟨(hends.err.1 (.inr hfit)).trans (hb.err.trans he), ?_⟩
    show (Container.array :: d.skipSpaces.containerStack).length = _
    rw [hb.containerStack, length_cons]

variable {d₀ : Decoder}

/-- **A run lemma**: openings within the cap keep the stack within the cap. -/
theorem OpensWithinCap.stack (h : OpensWithinCap d₀) (h₀ : d₀.containerStack.length ≤ d₀.limits.maxNestedDepth)
    (hr : Reachable d₀ d) (he : d.err = none) :
    d.containerStack.length ≤ d₀.limits.maxNestedDepth := by
  induction hr with
  | start => exact h₀
  | @turn d hr he' ih =>
    have ihd := ih he'
    have hb := skipSpaces_before d
    have hspec := readTokenIter_spec d
    cases ht : d.readTokenIter with
    | again d' =>
      show d'.containerStack.length ≤ _
      rw [(again_before ht).containerStack]; exact ihd
    | done r =>
      rw [ht] at hspec he
      obtain ⟨o, d'⟩ := r
      cases o with
      | ok tok =>
        have hs : TokenStep d.skipSpaces tok d' := hspec
        show d'.containerStack.length ≤ _
        rw [hs.control.containerStack]
        have hlen := afterToken_stack_length d.skipSpaces tok.kind
        rw [hb.containerStack] at hlen
        cases hk : tok.kind.opens with
        | false => rw [hk] at hlen; exact Nat.le_trans hlen ihd
        | true =>
          have := h d hr he' (hs.opensUnchecked hk he)
          rw [hk] at hlen
          simp only [if_true] at hlen
          omega
      | error e =>
        show d'.containerStack.length ≤ _
        rw [(ErrorStep.control hspec).containerStack, hb.containerStack]; exact ihd
      | hang => exact hspec.elim

/-! ## How deep the value parser calls itself -/

theorem Reachable.reads {toks : List RawToken} (h : Reachable d₀ d) (hr : Reads d toks d') :
    Reachable d₀ d' := by
  induction hr with
  | nil => exact h
  | @cons d d₁ d' tok toks hread _ ih =>
    apply ih
    have := h.readToken
    rwa [hread] at this

/-- A reachable state whose stack is `stack`. -/
structure OnStack (d₀ : Decoder) (stack : List Container) (d : Decoder) : Prop where
  reachable : Reachable d₀ d
  flags : Flags d
  containerStack : d.containerStack = stack

variable {stack : List Container}

theorem OnStack.comment (h : OnStack d₀ stack d)
    (hr : d.readToken = (.ok tok, d')) (hk : tok.kind = .comment) : OnStack d₀ stack d' := by
  obtain ⟨e, he, hc⟩ := readToken_control hr
  rw [hk] at hc
  refine ⟨h.reachable.reads (.single hr), Reads.flags (.single hr) h.flags, ?_⟩
  exact (hc.containerStack.trans he).trans h.containerStack

theorem OnStack.key (h : OnStack d₀ stack d)
    (hr : d.readToken = (.ok tok, d')) (hk : tok.kind = .key) : OnStack d₀ stack d' := by
  obtain ⟨e, he, hc⟩ := readToken_control hr
  rw [hk] at hc
  refine ⟨h.reachable.reads (.single hr), Reads.flags (.single hr) h.flags, ?_⟩
  exact (hc.containerStack.trans he).trans h.containerStack

theorem OnStack.value {toks : List RawToken} (h : OnStack d₀ stack d)
    (hr : Reads d toks d') (hforms : Forms .value (kinds toks)) : OnStack d₀ stack d' :=
  ⟨h.reachable.reads hr, hr.flags h.flags, (hr.settled hforms rfl h.containerStack).containerStack⟩

/-- Two parsers of parts agree on every token read from a state with `stack` open. -/
def Agree (d₀ : Decoder) (stack : List Container) (pv pv' : ValueParser) : Prop :=
  ∀ d tok d', OnStack d₀ stack d → d.readToken = (.ok tok, d') → pv tok d' = pv' tok d'

variable {stack : List Container} {pv pv' : ValueParser} {d : Decoder}

theorem runLoop_congr {σ α : Type} {dec : σ → Decoder} {body body' : σ → Turn σ (Outcome α × Decoder)} {s : σ}
    (inv : σ → Prop) (heq : ∀ s, inv s → body s = body' s) (hstep : ∀ s s', inv s → body s = .again s' → inv s')
    (hs : inv s) : runLoop dec body s = runLoop dec body' s := by
  unfold runLoop
  rw [Loop.loop_congr inv heq hstep hs]

theorem afterCall_congr {σ α β : Type} {r : Outcome α × Decoder}
    {k k' : α → Decoder → Turn σ (Outcome β × Decoder)}
    (h : ∀ a d, r = (.ok a, d) → k a d = k' a d) : afterCall r k = afterCall r k' := by
  obtain ⟨o, d⟩ := r
  cases o with
  | ok a => exact h a d rfl
  | error e | hang => rfl

theorem Agree.parseNextValueWith (h : Agree d₀ stack pv pv') (hd : OnStack d₀ stack d) :
    parseNextValueWith pv d = parseNextValueWith pv' d := by
  refine runLoop_congr (OnStack d₀ stack) ?_ ?_ hd
  · intro d hd
    refine afterCall_congr fun tok d' hr => ?_
    rw [h d tok d' hd hr]
  · intro d d₁ hd hb
    obtain ⟨tok, d', hr, hk⟩ := afterCall_again hb
    split at hk
    · rename_i hcomment; cases hk; exact hd.comment hr hcomment
    · cases hk

theorem Agree.parseArrayValue (h : Agree d₀ stack pv pv') (hpv : ReadsValues pv)
    (hd : OnStack d₀ stack d) : parseArrayValue pv d = parseArrayValue pv' d := by
  refine runLoop_congr (fun s => OnStack d₀ stack s.2) ?_ ?_ hd
  · rintro ⟨vs, d⟩ hd
    refine afterCall_congr fun tok d' hr => ?_
    rw [h d tok d' hd hr]
  · rintro ⟨vs, d⟩ s' hd hb
    obtain ⟨tok, d', hr, hk⟩ := afterCall_again hb
    split at hk
    · rename_i hcomment; cases hk; exact hd.comment hr hcomment
    · cases hk
    obtain ⟨v, d₂, hval, hk⟩ := afterCall_again hk
    cases hk
    obtain ⟨toks, hreads, hforms⟩ := hpv tok d' v d₂ (Reads.flags (.single hr) hd.flags) hval
    exact hd.value (.cons hr hreads) hforms

theorem Agree.parseInlineTableValue (h : Agree d₀ stack pv pv') (hpv : ReadsValues pv)
    (hd : OnStack d₀ stack d) : parseInlineTableValue pv d = parseInlineTableValue pv' d := by
  refine runLoop_congr (fun s => OnStack d₀ stack s.dec) ?_ ?_ hd
  · intro s hd
    refine afterCall_congr fun tok d' hr => ?_
    split
    · rfl
    · rfl
    · rename_i hkey
      unfold inlineEntry
      rw [h.parseNextValueWith (hd.key hr hkey)]
    · rfl
  · intro s s' hd hb
    obtain ⟨tok, d', hr, hk⟩ := afterCall_again hb
    split at hk
    · rename_i hcomment; cases hk; exact hd.comment hr hcomment
    · cases hk
    · rename_i hkey
      have hd' := hd.key hr hkey
      obtain ⟨-, v, -, hval, -⟩ := inlineEntry_again hk
      obtain ⟨toks, hreads, hforms⟩ := parseNextValueWith_reads hpv hd'.flags (readToken_key hr hkey) hval
      exact hd'.value hreads hforms
    · cases hk

/-- A token that opens nothing is parsed without a bound. -/
theorem parseRawValueToken_scalar (hk : tok.kind.opens = false) (m : Nat) (d : Decoder) :
    parseRawValueToken m tok d = (.ofExcept (parseScalarToken tok d), d) := by
  cases m with
  | zero | succ m =>
    unfold parseRawValueToken
    split
    · rename_i h; rw [h] at hk; cases hk
    · rename_i h; rw [h] at hk; cases hk
    · rfl

/-- A loop whose first call fails. -/
theorem runLoop_error {σ α : Type} {dec : σ → Decoder} {body : σ → Turn σ (Outcome α × Decoder)}
    {s : σ} {r : Outcome α × Decoder} (h : body s = .done r) : runLoop dec body s = r := by
  unfold runLoop
  rw [Loop.loop_done h]

/-- **By induction on the room left on the stack**: a value is parsed alike with every bound that has
    one call more than there is room. -/
theorem parseRawValueToken_bound
    (hcap : ∀ d, Reachable d₀ d → d.err = none → d.containerStack.length ≤ d₀.limits.maxNestedDepth)
    (room m : Nat) (hd : OnStack d₀ stack d)
    (hroom : tok.kind.opens = true → d₀.limits.maxNestedDepth + 1 ≤ stack.length + room) (hm : room + 1 ≤ m) :
    parseRawValueToken m tok d = parseRawValueToken (room + 1) tok d := by
  induction room generalizing stack d tok m with
  | zero =>
    cases hk : tok.kind.opens with
    | false => rw [parseRawValueToken_scalar hk, parseRawValueToken_scalar hk]
    | true =>
      -- the stack is past the cap, so an error is recorded and the next call repeats it
      obtain ⟨e, he⟩ : ∃ e, d.err = some e := by
        cases he : d.err with
        | some e => exact ⟨e, rfl⟩
        | none =>
          have := hcap d hd.reachable he
          rw [hd.containerStack] at this
          have := hroom hk
          omega
      have hread : d.readToken = (.error e, d) := by rw [Decoder.readToken, he]
      obtain ⟨m, rfl⟩ : ∃ k, m = k + 1 := ⟨m - 1, by omega⟩
      unfold parseRawValueToken
      split
      · have hturn : ∀ pv, arrayTurn pv ([], d) = .done (.error e, d) := fun pv => by
          unfold arrayTurn; rw [hread]; rfl
        exact (runLoop_error (hturn _)).trans (runLoop_error (hturn _)).symm
      · have hturn : ∀ pv, inlineTurn pv ⟨[], [], d⟩ = .done (.error e, d) := fun pv => by
          unfold inlineTurn; rw [hread]; rfl
        exact (runLoop_error (hturn _)).trans (runLoop_error (hturn _)).symm
      · rfl
  | succ room ih =>
    cases hk : tok.kind.opens with
    | false => rw [parseRawValueToken_scalar hk, parseRawValueToken_scalar hk]
    | true =>
      have hroom' := hroom hk
      obtain ⟨m, rfl⟩ : ∃ k, m = k + 1 := ⟨m - 1, by omega⟩
      -- one level down the stack is one longer and the room one less
      have hagree : Agree d₀ stack (parseRawValueToken m) (parseRawValueToken (room + 1)) := by
        intro d₁ tok₁ d₂ hd₁ hr
        obtain ⟨e, he, hc⟩ := readToken_control hr
        have hd₂ : OnStack d₀ d₂.containerStack d₂ :=
          ⟨hd₁.reachable.reads (.single hr), Reads.flags (.single hr) hd₁.flags, rfl⟩
        refine ih m hd₂ ?_ (by omega)
        intro hopen
        rw [hc.containerStack, opens_stack_length hopen, he, hd₁.containerStack]
        omega
      unfold parseRawValueToken
      split
      · exact hagree.parseArrayValue (parseRawValueToken_reads _) hd
      · exact hagree.parseInlineTableValue (parseRawValueToken_reads _) hd
      · rfl

/-! ## The cap -/

/-- Within the cap, a container opened on a full stack leaves a limit error. -/
theorem OpensWithinCap.limit (h : OpensWithinCap d₀) (h₀ : d₀.containerStack.length ≤ d₀.limits.maxNestedDepth)
    (hr : Reachable d₀ d) (hfull : d.containerStack.length = d₀.limits.maxNestedDepth)
    (hread : d.readToken = (.ok tok, d')) (hk : tok.kind.opens = true) :
    ∃ l, d'.err = some (.limitErr l) ∧ d'.readToken = (.error (.limitErr l), d') := by
  obtain ⟨he, e, hb, hs⟩ := readToken_ok hread
  have hr' : Reachable d₀ d' := hr.reads (.single hread)
  have hlen : d'.containerStack.length = d.containerStack.length + 1 := by
    rw [hs.control.containerStack, opens_stack_length hk, hb.containerStack]
  -- a stack past the cap means that an error is recorded, and a token records only a limit error
  by_cases hfit : tok.kind ≠ .arrayStart ∨ e.arrayFits
  · have hnone : d'.err = none := (hs.err.1 hfit).trans (hb.err.trans he)
    have := h.stack h₀ hr' hnone
    omega
  · rw [not_or, not_not] at hfit
    obtain ⟨l, hl⟩ := hs.err.2 hfit.1 hfit.2
    exact ⟨l, hl, by rw [Decoder.readToken, hl]⟩

/-- **The nesting cap holds of exactly the runs that open no unchecked container on a full stack.** -/
theorem nestingCapped_iff (data : Bytes) (opts : List DecoderOption) :
    NestingCapped (newDecoderBytes data opts) ↔ OpensWithinCap (newDecoderBytes data opts) := by
  have hf := newDecoderBytes_flags data opts
  have h₀ : (newDecoderBytes data opts).containerStack.length ≤
      (newDecoderBytes data opts).limits.maxNestedDepth := by
    obtain ⟨l, t, e, n, line, col, a, h, -⟩ := newDecoderBytes_eq data opts
    rw [h]; exact Nat.zero_le _
  constructor
  · intro h d hr he hopen
    obtain ⟨he', hlen⟩ := hopen.turn (hr.flags hf) he
    have := h.stack _ (hr.turn he) he'
    omega
  · intro h
    refine ⟨fun d hr he => h.stack h₀ hr he,
      fun d tok d' hr hfull hread hk => h.limit h₀ hr hfull hread hk, ?_⟩
    intro d m hr hm
    have hd : OnStack (newDecoderBytes data opts) d.containerStack d := ⟨hr, hr.flags hf, rfl⟩
    refine Agree.parseNextValueWith ?_ hd
    intro d₁ tok d₂ hd₁ hread
    have hd₂ : OnStack (newDecoderBytes data opts) d₂.containerStack d₂ :=
      ⟨hd₁.reachable.reads (.single hread), Reads.flags (.single hread) hd₁.flags, rfl⟩
    refine parseRawValueToken_bound (fun d hr he => h.stack h₀ hr he) _ m hd₂ ?_ hm
    intro hopen
    obtain ⟨e, -, hc⟩ := readToken_control hread
    rw [hc.containerStack, opens_stack_length hopen]
    omega

/-- Two inline tables with a cap of one: the second is opened all the same. -/
theorem not_nestingCapped_inline :
    ¬ NestingCapped (newDecoderBytes (ascii "a = \x7bb = \x7b") [.withLimits ⟨1, 0, 0, 0⟩]) := by
  intro h
  have h₀ : Reachable (newDecoderBytes (ascii "a = \x7bb = \x7b") [.withLimits ⟨1, 0, 0, 0⟩]) _ := .start
  -- key, inline table, key, inline table
  have hr := (((h₀.turn (by decide +kernel)).turn (by decide +kernel)).turn
    (by decide +kernel)).turn (by decide +kernel)
  have := h.stack _ hr (by decide +kernel)
  revert this
  decide +kernel

/-! ## Texts without inline tables -/

/-- Only arrays are open, and all of them are counted. -/
def OnlyArrays (d : Decoder) : Prop := d.containerStack = replicate d.arrayDepth .array

theorem OnlyArrays.afterToken {k : TokenKind} (h : OnlyArrays d) (hk : k ≠ .inlineTableStart) :
    OnlyArrays (d.afterToken k) := by
  cases k with
  | inlineTableStart => exact absurd rfl hk
  | arrayStart => exact congrArg (Container.array :: ·) h
  | arrayEnd =>
    show popContainer d.containerStack .array = replicate (d.arrayDepth - 1) .array
    rw [h]
    cases d.arrayDepth <;> rfl
  | inlineTableEnd =>
    show popContainer d.containerStack .inline = replicate d.arrayDepth .array
    rw [h]
    cases d.arrayDepth <;> rfl
  | _ => exact h

theorem OnlyArrays.of_sameControl (h : OnlyArrays d) (hs : SameControl d d') : OnlyArrays d' := by
  unfold OnlyArrays
  rw [hs.arrayDepth, hs.containerStack]
  exact h

/-- **Only arrays are opened** in a text without `{`. -/
theorem Reachable.onlyArrays (h : Reachable d₀ d) (h₀ : OnlyArrays d₀) (htext : (0x7B : UInt8) ∉ d₀.buf) :
    d.buf = d₀.buf ∧ d.limits = d₀.limits ∧ OnlyArrays d := by
  refine h.invariant (P := fun d => d.buf = d₀.buf ∧ d.limits = d₀.limits ∧ OnlyArrays d) ⟨rfl, rfl, h₀⟩ ?_ ?_ ?_
  · rintro d e hb ⟨hbuf, hlimits, ih⟩
    refine ⟨hb.buf.trans hbuf, hb.limits.trans hlimits, ?_⟩
    unfold OnlyArrays
    rw [hb.arrayDepth, hb.containerStack]
    exact ih
  · rintro d tok d' hs ⟨hbuf, hlimits, ih⟩
    have hkept := hs.control.limits.trans ((afterToken_limits _ _).trans hlimits)
    refine ⟨(Ends.buf (r := (.ok tok, d')) hs).trans hbuf, hkept, (ih.afterToken ?_).of_sameControl hs.control⟩
    intro hk
    have hguard := hs.guard
    rw [hk] at hguard
    have hmem : (0x7B : UInt8) ∈ d.rest := mem_of_mem_head? hguard.2.1
    rw [← hbuf] at htext
    exact htext (mem_of_mem_drop hmem)
  · rintro d d' hs ⟨hbuf, hlimits, ih⟩
    exact ⟨hs.control.buf.trans hbuf, hs.control.limits.trans hlimits, ih.of_sameControl hs.control⟩

theorem newDecoderBytes_maxNestedDepth_pos (data : Bytes) (opts : List DecoderOption) :
    0 < (newDecoderBytes data opts).limits.maxNestedDepth := by
  have h : 0 < (opts.foldl applyOption (Decoder.start data)).limits.maxNestedDepth := by
    refine foldlRecOn (motive := fun d : Decoder => 0 < d.limits.maxNestedDepth) opts applyOption
      (show 0 < 1024 by decide) fun d hd o _ => ?_
    cases o with
    | withLimits l =>
      show 0 < (if l.maxNestedDepth > 0 then l.maxNestedDepth else d.limits.maxNestedDepth)
      split
      · assumption
      · exact hd
    | withLocalAsUTC | withCopiedStrings | withoutTokenPositions => exact hd
  unfold newDecoderBytes
  dsimp only
  split
  · exact h
  split
  · exact h
  unfold skipBOM
  split
  all_goals exact h

/-- **Without a `{` in the text the cap holds**: every container is an array and is counted. -/
theorem opensWithinCap_of_arrays (data : Bytes) (opts : List DecoderOption)
    (h : (0x7B : UInt8) ∉ data) : OpensWithinCap (newDecoderBytes data opts) := by
  intro d hr he hopen
  have hstart : OnlyArrays (newDecoderBytes data opts) ∧ (newDecoderBytes data opts).buf = data := by
    obtain ⟨l, t, e, n, line, col, a, h, -⟩ := newDecoderBytes_eq data opts
    rw [h]; exact ⟨rfl, rfl⟩
  obtain ⟨hbuf, hlimits, harrays⟩ := hr.onlyArrays hstart.1 (by rw [hstart.2]; exact h)
  have hb := skipSpaces_before d
  rcases hopen with ⟨-, hbrace | ⟨-, -, hfits⟩⟩
  · have hmem : (0x7B : UInt8) ∈ d.skipSpaces.buf := mem_of_mem_drop (mem_of_mem_head? hbrace)
    rw [hb.buf, hbuf, hstart.2] at hmem
    exact absurd hmem h
  · unfold arrayFits at hfits
    rw [hb.limits, hlimits, hb.arrayDepth] at hfits
    rw [harrays, length_replicate]
    have := newDecoderBytes_maxNestedDepth_pos data opts
    omega

/-- A cap of one, and an array in an array. -/
theorem opensWithinCap_of_arrays_nested :
    OpensWithinCap (newDecoderBytes (ascii "a = [[1]]") [.withLimits ⟨1, 0, 0, 0⟩]) :=
  opensWithinCap_of_arrays _ _ (by decide)

end Decoder

end Pandaemonium.Toml
