import Pandaemonium.Toml.Progress

/-!
# `Toml.Sticky` — a decoder that has failed keeps failing

An error that a scan function records is returned again by every later call. The others, a malformed
string or quoted key and the end of the text, are not recorded; but then the call leaves the decoder in
front of the same bytes with the same flags, so the next call takes the same turn and fails alike. Either
way the decoder that a failed call leaves is one that fails with the same error (`readToken_retry`), and
along any run of calls the first error is the last (`readToken_sticky`).
-/

namespace Pandaemonium.Toml.Decoder

/-- A result of a scan from `d`: an error is recorded, or it leaves the decoder as it was. -/
def Sticks (d : Decoder) (r : Outcome RawToken × Decoder) : Prop :=
  ∀ e, r.1 = .error e → r.2.err = some e ∨ r.2 = d

section

variable {d : Decoder}

theorem sticks_ok (tok : RawToken) (d' : Decoder) : d.Sticks (.ok tok, d') := by
  intro e he
  cases he

/-- A recorded error sticks, wherever it is recorded. -/
theorem recordErr_sticks (d' : Decoder) (e : Err) : d.Sticks (d'.recordErr e) := by
  intro e' he
  cases he
  exact .inl rfl

theorem fail_sticks (base : Nat) (f : Fault) : d.Sticks (d.fail base f) := by
  cases f with
  | raised msg off | limit name value start stop => exact recordErr_sticks d _
  | recorded e => exact recordErr_sticks d e
  | returned e =>
    intro e' _
    exact .inr rfl

theorem scanComment_sticks : d.Sticks d.scanComment := by
  unfold scanComment
  split
  · exact fail_sticks _ _
  · exact sticks_ok _ _

theorem scanKeyToken_sticks : d.Sticks d.scanKeyToken := by
  unfold scanKeyToken
  split
  · exact fail_sticks _ _
  split
  · exact recordErr_sticks _ _
  dsimp only
  split
  · exact recordErr_sticks _ _
  split
  · exact recordErr_sticks _ _
  split
  · exact sticks_ok _ _
  · exact recordErr_sticks _ _

theorem scanStringToken_sticks : d.Sticks d.scanStringToken := by
  unfold scanStringToken
  split
  · exact fail_sticks _ _
  split
  · exact recordErr_sticks _ _
  · exact sticks_ok _ _

theorem scanBareToken_sticks : d.Sticks d.scanBareToken := by
  unfold scanBareToken
  dsimp only
  split
  · exact recordErr_sticks _ _
  split
  · exact recordErr_sticks _ _
  · exact sticks_ok _ _

theorem scanValueToken_sticks : d.Sticks d.scanValueToken := by
  unfold scanValueToken
  split
  · exact scanStringToken_sticks
  · exact scanStringToken_sticks
  · exact sticks_ok _ _
  · exact sticks_ok _ _
  · exact sticks_ok _ _
  · exact sticks_ok _ _
  · exact scanComment_sticks
  · exact scanBareToken_sticks

theorem scanHeader_sticks (array : Bool) (width : Nat) (kind : TokenKind) :
    d.Sticks (d.scanHeader array width kind) := by
  unfold scanHeader
  split
  · exact fail_sticks _ _
  split
  · exact fail_sticks _ _
  dsimp only
  split
  · exact recordErr_sticks _ _
  · exact sticks_ok _ _

theorem atEnd_sticks : d.Sticks d.atEnd := by
  unfold atEnd
  split
  · exact recordErr_sticks _ _
  · intro e _
    exact .inr rfl

theorem dispatch_sticks {ch : UInt8} {r : Outcome RawToken × Decoder}
    (h : d.dispatch ch = .done r) : d.Sticks r := by
  unfold dispatch at h
  split at h
  · split at h
    · cases h; exact recordErr_sticks _ _
    · cases h; exact sticks_ok _ _
  · split at h
    · cases h; exact recordErr_sticks _ _
    · cases h; exact sticks_ok _ _
  · cases h; exact sticks_ok _ _
  · cases h; exact sticks_ok _ _
  · cases h; exact scanComment_sticks
  · cases h; exact recordErr_sticks _ _
  · split at h
    · cases h; exact recordErr_sticks _ _
    · cases h
  · split at h
    · split at h
      · cases h; exact recordErr_sticks _ _
      · cases h; exact scanValueToken_sticks
    · split at h
      · cases h; exact recordErr_sticks _ _
      · cases h; exact scanKeyToken_sticks

end

/-! ## One turn -/

/-- A turn that returns, returns from the state behind the blanks. -/
theorem readTokenIter_sticks {d : Decoder} {r : Outcome RawToken × Decoder}
    (h : d.readTokenIter = .done r) : d.skipSpaces.Sticks r := by
  unfold readTokenIter at h
  split at h
  · rename_i hempty
    cases h
    rw [List.isEmpty_iff] at hempty
    rw [skipSpaces_nil hempty]
    exact atEnd_sticks
  · dsimp only at h
    split at h
    · cases h; exact atEnd_sticks
    split at h
    · split at h
      · cases h; exact scanComment_sticks
      split at h
      · cases h
      · cases h; exact recordErr_sticks _ _
    · split at h
      · split at h
        · cases h; exact scanHeader_sticks _ _ _
        · cases h; exact scanHeader_sticks _ _ _
      · exact dispatch_sticks h

/-- A turn does not depend on the blanks before it being there still. -/
theorem readTokenIter_skipSpaces (d : Decoder) : d.skipSpaces.readTokenIter = d.readTokenIter := by
  by_cases hrest : d.rest = []
  · rw [skipSpaces_nil hrest]
  have hne : d.rest.isEmpty = false := by simpa using hrest
  unfold readTokenIter
  rw [skipSpaces_skipSpaces, hne]
  by_cases hskip : d.skipSpaces.rest = []
  · simp only [hskip, List.isEmpty_nil, if_true, Bool.false_eq_true, if_false]
  · have hne' : d.skipSpaces.rest.isEmpty = false := by simpa using hskip
    simp only [hne', Bool.false_eq_true, if_false]

/-! ## Calls -/

/-- **A call on a decoder that has failed fails with the same error** and changes nothing. -/
theorem readToken_retry {d d' : Decoder} {e : Err} (h : d.readToken = (.error e, d')) :
    d'.readToken = (.error e, d') := by
  have hrecorded : ∀ {f : Decoder}, f.err = some e → f.readToken = (.error e, f) := by
    intro f hf
    rw [readToken, hf]
  cases herr : d.err with
  | some e' =>
    rw [readToken, herr] at h
    cases h
    exact hrecorded herr
  | none =>
    cases hl : Loop.loop (fun d => d.rest.length) readTokenIter d with
    | none =>
      rw [readToken, herr] at h
      simp only [hl] at h
      cases h
    | some r =>
      rw [readToken_of_loop herr hl] at h
      subst h
      -- the last turn either recorded the error or left the state it returned from
      refine Loop.loop_induction
        (motive := fun d r => d.err = none → r = (.error e, d') →
          d'.readToken = (.error e, d')) ?_ ?_ hl herr rfl
      · rintro f r hturn hferr rfl
        rcases readTokenIter_sticks hturn e rfl with hrec | hsame
        · exact hrecorded hrec
        change d' = f.skipSpaces at hsame
        have hagain : d'.readTokenIter = .done (.error e, d') := by
          conv_lhs => rw [hsame]
          rw [readTokenIter_skipSpaces]
          exact hturn
        refine readToken_of_loop ?_ (Loop.loop_done hagain)
        rw [hsame, skipSpaces_err, hferr]
      · intro f f' r hturn _ _ ih hferr hr
        exact ih ((again_before hturn).err.trans hferr) hr

theorem afterCalls_succ (d : Decoder) (n : Nat) : d.afterCalls (n + 1) = (d.afterCalls n).readToken.2 := by
  induction n generalizing d with
  | zero => rfl
  | succ n ih => exact ih d.readToken.2

/-- **Sticky failure**: along any run of calls, once a call has returned an error, every later call
    returns it, and no token. -/
theorem readToken_sticky (data : Bytes) (opts : List DecoderOption) (n m : Nat) (e : Err)
    (h : ((newDecoderBytes data opts).afterCalls n).readToken.1 = .error e) (hle : n ≤ m) :
    ((newDecoderBytes data opts).afterCalls m).readToken.1 = .error e := by
  induction hle with
  | refl => exact h
  | step _ ih => rw [afterCalls_succ, readToken_retry (Prod.ext ih rfl)]

/-- A string with a control character: the error of the string is not recorded, and comes again. -/
theorem readToken_sticky_control :
    ((newDecoderBytes (ascii "a = \"\x01\"\n") []).afterCalls 2).readToken.1 =
      .error (stringControlError 0x01 0) := by
  apply readToken_sticky (ascii "a = \"\x01\"\n") [] 1 2
  · decide +kernel
  · decide

end Pandaemonium.Toml.Decoder
