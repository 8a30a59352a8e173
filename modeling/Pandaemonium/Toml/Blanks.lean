import Pandaemonium.Toml.Decoder

/-!
# `Toml.Blanks` — what `skipSpaces` does to the decoder

`skipSpaces` is a loop over the decoder. All it does depends on the text alone: how many blanks lead it
(`blankRun`) and whether a line end is among them (`passesLine`). `skipSpaces_eq` says so, and every
later proof about a turn of the token reader starts from it.
-/

namespace Pandaemonium.Toml

/-- The number of blanks that lead `s`; with `nl`, line ends count as blanks. -/
def blankRun (nl : Bool) (s : Bytes) : Nat :=
  if nl then blankLinesLength s else Scan.skipWhitespace s

/-- A line end is among the blanks that lead `s`. -/
def passesLine (nl : Bool) (s : Bytes) : Bool := (s.take (blankRun nl s)).contains 0x0A

variable {c : UInt8} {t : Bytes}

theorem skipWhitespace_cons_blank (h : Scan.isSpaceTab c = true) :
    Scan.skipWhitespace (c :: t) = Scan.skipWhitespace t + 1 :=
  Bytes.findIdx_cons_neg (by simp [h])

theorem skipWhitespace_cons_other (h : Scan.isSpaceTab c = false) :
    Scan.skipWhitespace (c :: t) = 0 := Bytes.findIdx_cons_pos (by simp [h])

theorem blankLinesLength_crlf (t : Bytes) : blankLinesLength (0x0D :: 0x0A :: t) = blankLinesLength t + 2 := by
  simp [blankLinesLength]

theorem blankLinesLength_lf (t : Bytes) : blankLinesLength (0x0A :: t) = blankLinesLength t + 1 := by
  rw [blankLinesLength]
  all_goals simp

theorem blankLinesLength_blank (h : Scan.isSpaceTab c = true) :
    blankLinesLength (c :: t) = blankLinesLength t + 1 := by
  have hc : c = 0x20 ∨ c = 0x09 := by simpa [Scan.isSpaceTab] using h
  rw [blankLinesLength]
  · rcases hc with rfl | rfl <;> simp
  · rintro t' rfl; simp at hc

theorem blankLinesLength_other (h : Scan.isSpaceTab c = false) (hlf : c ≠ 0x0A)
    (hcr : ¬ (c = 0x0D ∧ t.head? = some 0x0A)) : blankLinesLength (c :: t) = 0 := by
  have hc : c ≠ 0x20 ∧ c ≠ 0x09 := by simpa [Scan.isSpaceTab] using h
  rw [blankLinesLength]
  · simp [hc.1, hc.2, hlf]
  · rintro t' rfl rfl; exact hcr ⟨rfl, rfl⟩

/-- The text does not start with a blank. -/
def BlankStop (nl : Bool) (s : Bytes) : Prop :=
  ∀ c t, s = c :: t →
    Scan.isSpaceTab c = false ∧ (nl = true → c ≠ 0x0A ∧ ¬ (c = 0x0D ∧ t.head? = some 0x0A))

theorem blankRun_blank {nl : Bool} (h : Scan.isSpaceTab c = true) :
    blankRun nl (c :: t) = blankRun nl t + 1 := by
  cases nl with
  | false => exact skipWhitespace_cons_blank h
  | true => exact blankLinesLength_blank h

theorem blankRun_stop {nl : Bool} {s : Bytes} (h : BlankStop nl s) : blankRun nl s = 0 := by
  cases s with
  | nil => cases nl <;> rfl
  | cons c t =>
    obtain ⟨hb, hnl⟩ := h c t rfl
    cases nl with
    | false => exact skipWhitespace_cons_other hb
    | true => exact blankLinesLength_other hb (hnl rfl).1 (hnl rfl).2

theorem blankRun_lf (t : Bytes) : blankRun true (0x0A :: t) = blankRun true t + 1 :=
  blankLinesLength_lf t

theorem blankRun_crlf (t : Bytes) : blankRun true (0x0D :: 0x0A :: t) = blankRun true t + 2 :=
  blankLinesLength_crlf t

/-- Induction along the blanks that lead a text. -/
theorem blank_induction (nl : Bool) {motive : Bytes → Prop} (stop : ∀ s, BlankStop nl s → motive s)
    (blank : ∀ c t, Scan.isSpaceTab c = true → motive t → motive (c :: t))
    (lf : nl = true → ∀ t, motive t → motive (0x0A :: t))
    (crlf : nl = true → ∀ t, motive t → motive (0x0D :: 0x0A :: t)) (s : Bytes) : motive s := by
  induction hk : s.length using Nat.strongRecOn generalizing s with
  | ind k ih =>
    subst hk
    by_cases hs : BlankStop nl s
    · exact stop s hs
    cases s with
    | nil => exact absurd (fun c t h => by cases h) hs
    | cons c t =>
      cases hb : Scan.isSpaceTab c with
      | true => exact blank c t hb (ih t.length (by simp) t rfl)
      | false =>
        by_cases hnl : nl = true
        · by_cases hlf : c = 0x0A
          · subst hlf; exact lf hnl t (ih t.length (by simp) t rfl)
          by_cases hcr : c = 0x0D ∧ t.head? = some 0x0A
          · obtain ⟨rfl, ht⟩ := hcr
            obtain ⟨t', rfl⟩ : ∃ t', t = 0x0A :: t' := by
              cases t with
              | nil => cases ht
              | cons d t' => cases ht; exact ⟨t', rfl⟩
            exact crlf hnl t' (ih t'.length (by rw [List.length_cons, List.length_cons]; omega) t' rfl)
          · exact absurd (fun c' t' h => by cases h; exact ⟨hb, fun _ => ⟨hlf, hcr⟩⟩) hs
        · exact absurd (fun c' t' h => by cases h; exact ⟨hb, fun h => absurd h hnl⟩) hs

theorem blankRun_le (nl : Bool) (s : Bytes) : blankRun nl s ≤ s.length := by
  induction s using blank_induction nl with
  | stop s h => rw [blankRun_stop h]; exact Nat.zero_le _
  | blank c t h ih => rw [blankRun_blank h, List.length_cons]; omega
  | lf h t ih => subst h; rw [blankRun_lf]; exact Nat.succ_le_succ ih
  | crlf h t ih => subst h; rw [blankRun_crlf]; exact Nat.succ_le_succ (Nat.succ_le_succ ih)

/-- After the blanks there is no blank. -/
theorem blankStop_drop (nl : Bool) (s : Bytes) : BlankStop nl (s.drop (blankRun nl s)) := by
  induction s using blank_induction nl with
  | stop s h => rw [blankRun_stop h]; exact h
  | blank c t h ih => rw [blankRun_blank h]; exact ih
  | lf h t ih => subst h; rw [blankRun_lf]; exact ih
  | crlf h t ih => subst h; rw [blankRun_crlf]; exact ih

/-- The blanks of a text are its leading spaces and tabs and the blanks after those. -/
theorem blankRun_whitespace (nl : Bool) (s : Bytes) :
    blankRun nl s = Scan.skipWhitespace s + blankRun nl (s.drop (Scan.skipWhitespace s)) := by
  induction s with
  | nil => cases nl <;> rfl
  | cons c t ih =>
    cases hb : Scan.isSpaceTab c with
    | true => rw [blankRun_blank hb, skipWhitespace_cons_blank hb, List.drop_succ_cons, ih]; omega
    | false => rw [skipWhitespace_cons_other hb]; simp

theorem passesLine_whitespace (nl : Bool) (s : Bytes) :
    passesLine nl s = passesLine nl (s.drop (Scan.skipWhitespace s)) := by
  induction s with
  | nil => rfl
  | cons c t ih =>
    cases hb : Scan.isSpaceTab c with
    | true =>
      have hc : c ≠ 0x0A := by rintro rfl; simp [Scan.isSpaceTab] at hb
      rw [skipWhitespace_cons_blank hb, List.drop_succ_cons, ← ih]
      simp [passesLine, blankRun_blank hb, Ne.symm hc]
    | false => rw [skipWhitespace_cons_other hb]; rfl

theorem passesLine_stop {nl : Bool} {s : Bytes} (h : BlankStop nl s) : passesLine nl s = false := by
  simp [passesLine, blankRun_stop h]

theorem passesLine_lf (t : Bytes) : passesLine true (0x0A :: t) = true := by
  simp [passesLine, blankRun_lf]

theorem passesLine_crlf (t : Bytes) : passesLine true (0x0D :: 0x0A :: t) = true := by
  simp [passesLine, blankRun_crlf]

/-- Where the whitespace scan stops, no space and no tab follows. -/
theorem isSpaceTab_of_skipWhitespace (h : ¬ 0 < Scan.skipWhitespace (c :: t)) : Scan.isSpaceTab c = false := by
  cases hb : Scan.isSpaceTab c with
  | true => rw [skipWhitespace_cons_blank hb] at h; omega
  | false => rfl

namespace Decoder

/-! ## The decoder -/

theorem skipSpaces_of_stop {d : Decoder} (h : BlankStop (!d.valueNoNewline) d.rest) :
    ∃ l c, d =
      { d with
        off := d.off + blankRun (!d.valueNoNewline) d.rest
        line := l, col := c
        atLineStart := d.atLineStart || passesLine (!d.valueNoNewline) d.rest
        needLineEnd := d.needLineEnd && !passesLine (!d.valueNoNewline) d.rest } :=
  ⟨d.line, d.col, by simp [blankRun_stop h, passesLine_stop h]⟩

theorem takeBlanks_eq (d : Decoder) (raw : Bytes) :
    ∃ l c, d.takeBlanks raw = { d with off := d.off + raw.length, line := l, col := c } := by
  unfold takeBlanks
  cases hs : d.atLineStart with
  | true => exact ⟨_, _, by simp only [if_true]; rfl⟩
  | false => exact ⟨_, _, by simp only [advanceBytes, hs]; rfl⟩

/-- **`skipSpaces` in one step.** -/
theorem skipSpaces_eq (d : Decoder) :
    ∃ l c, d.skipSpaces =
      { d with
        off := d.off + blankRun (!d.valueNoNewline) d.rest
        line := l, col := c
        atLineStart := d.atLineStart || passesLine (!d.valueNoNewline) d.rest
        needLineEnd := d.needLineEnd && !passesLine (!d.valueNoNewline) d.rest } := by
  fun_induction skipSpaces d with
  | case1 d n hn ih =>
    obtain ⟨l, c, ih⟩ := ih
    obtain ⟨l1, c1, h1⟩ := takeBlanks_eq d (d.rest.take n)
    have hlen : (d.rest.take n).length = n := by
      have : n ≤ d.rest.length := Bytes.findIdx_le
      rw [List.length_take]; omega
    have hr : (d.takeBlanks (d.rest.take n)).rest = d.rest.drop n := by
      rw [rest_takeBlanks, hlen]
    refine ⟨l, c, ?_⟩
    rw [ih, hr, h1]
    simp only [hlen]
    rw [blankRun_whitespace _ d.rest, passesLine_whitespace _ d.rest]
    simp only [Nat.add_assoc]; rfl
  | case2 d n hn t hr hv | case4 d n hn t hr hv =>
    refine skipSpaces_of_stop fun c' t' h => ⟨?_, by simp [hv]⟩
    exact isSpaceTab_of_skipWhitespace (t := t') (h ▸ hn)
  | case3 d n hn t hr hv ih =>
    obtain ⟨l, c, ih⟩ := ih
    refine ⟨l, c, ?_⟩
    have hv' : d.valueNoNewline = false := by simpa using hv
    rw [ih, rest_takeLineEnd, hr]
    simp [takeLineEnd, advanceBytes, hv', blankRun_crlf, passesLine_crlf]; omega
  | case5 d n hn t hr hv ih =>
    obtain ⟨l, c, ih⟩ := ih
    refine ⟨l, c, ?_⟩
    have hv' : d.valueNoNewline = false := by simpa using hv
    rw [ih, rest_takeLineEnd, hr]
    simp [takeLineEnd, advanceBytes, hv', blankRun_lf, passesLine_lf]; omega
  | case6 d n hn h1 h2 =>
    refine skipSpaces_of_stop fun c' t' h => ⟨isSpaceTab_of_skipWhitespace (t := t') (h ▸ hn), ?_⟩
    intro _
    refine ⟨fun hc => h2 t' (by rw [h, hc]), fun hc => ?_⟩
    obtain ⟨rfl, ht⟩ := hc
    cases t' with
    | nil => cases ht
    | cons e t' => cases ht; exact h1 t' h

theorem skipSpaces_of_blankStop {d : Decoder} (h : BlankStop (!d.valueNoNewline) d.rest) :
    d.skipSpaces = d := by
  rw [skipSpaces]
  have hw : Scan.skipWhitespace d.rest = 0 := by
    have := blankRun_whitespace (!d.valueNoNewline) d.rest
    rw [blankRun_stop h] at this; omega
  rw [dif_neg (by omega)]
  split
  · rename_i t hr
    cases hv : d.valueNoNewline with
    | true => rfl
    | false => exact absurd ⟨rfl, rfl⟩ ((h _ _ hr).2 (by simp [hv])).2
  · rename_i t hr
    cases hv : d.valueNoNewline with
    | true => rfl
    | false => exact absurd rfl ((h _ _ hr).2 (by simp [hv])).1
  · rfl

end Decoder

end Pandaemonium.Toml
