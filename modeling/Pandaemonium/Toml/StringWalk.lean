import Pandaemonium.Toml.Strings

/-!
# `Toml.StringWalk` — the walk over a string body and its short cuts (`value.go`)

The body of a basic string is walked byte by byte, except that the source hurries: a single-line walk
copies whole runs at a time, and `parseBasicStringBody` does not walk at all where it can tell that there is
nothing to decode. The equations here undo that. `scanBasicStringBody_plain`, `_crlf` and
`_escape` say what the walk does at its next byte, in both modes; from them follows that the short cuts
change nothing (`parseBasicStringBody_eq`), so that checking a string and decoding it fail alike
(`validateStringValue_eq`). The source walks with a buffer or without one; `scanBasicStringBodyInto` is that
walk, and the buffer makes no difference to it (`scanBasicStringBodyInto_eq`).
-/

namespace Pandaemonium.Toml

open List

theorem map_map {ε α β γ : Type} (r : Except ε α) (f : α → β) (g : β → γ) :
    (r.map f).map g = r.map (fun a => g (f a)) := by
  cases r <;> rfl

theorem map_eq_ok {ε α β : Type} {r : Except ε α} {f : α → β} {b : β} :
    r.map f = .ok b ↔ ∃ a, r = .ok a ∧ f a = b := by
  cases r with
  | error e | ok a => simp [Except.map]

/-! ## One byte of the walk -/

section

variable {multiline : Bool} {len i : Nat} {c : UInt8} {s t : Bytes}

@[simp] theorem scanBasicStringBody_nil : scanBasicStringBody multiline len i [] = .ok [] := by
  rw [scanBasicStringBody.eq_def]
  cases multiline with
  | true | false => rfl

/-- A single-line walk: the run that is copied, then the byte that stopped it. -/
theorem scanBasicStringBody_run :
    scanBasicStringBody false len i s =
      match s.drop (Scan.scanBasicStringStrict s) with
      | [] => .ok (s.take (Scan.scanBasicStringStrict s))
      | c :: t =>
        if c ≠ 0x5C then
          if prohibitedStringControl c false then
            .error (stringControlError c (i + Scan.scanBasicStringStrict s))
          else
            (scanBasicStringBody false len (i + Scan.scanBasicStringStrict s + 1) t).map
              (s.take (Scan.scanBasicStringStrict s) ++ c :: ·)
        else
          match scanEscape len (i + Scan.scanBasicStringStrict s) (c :: t) with
          | .error e => .error e
          | .ok (out, k) =>
            (scanBasicStringBody false len (i + Scan.scanBasicStringStrict s + k)
              ((c :: t).drop k)).map (s.take (Scan.scanBasicStringStrict s) ++ out ++ ·) := by
  rw [scanBasicStringBody.eq_def, if_neg Bool.false_ne_true]
  dsimp only
  split
  · rename_i h; rw [h]
  rename_i c t h
  rw [h]
  dsimp only
  split
  · rfl
  split
  all_goals (rename_i he; rw [he])

theorem scanBasicStringStrict_stop (h : Scan.basicStringStrictStop c = true) :
    Scan.scanBasicStringStrict (c :: t) = 0 := Bytes.findIdx_cons_pos h

theorem scanBasicStringStrict_go (h : Scan.basicStringStrictStop c = false) :
    Scan.scanBasicStringStrict (c :: t) = Scan.scanBasicStringStrict t + 1 := Bytes.findIdx_cons_neg h

/-- A byte that stops no run is no control and no backslash. -/
theorem not_prohibited_of_go (h : Scan.basicStringStrictStop c = false) :
    c ≠ 0x5C ∧ prohibitedStringControl c false = false := by
  simp only [Scan.basicStringStrictStop, Bool.or_eq_false_iff, beq_eq_false_iff_ne, Bool.and_eq_false_iff,
    bne_eq_false_iff_eq, decide_eq_false_iff_not] at h
  obtain ⟨⟨⟨-, hslash⟩, hdel⟩, hlow⟩ := h
  refine ⟨hslash, ?_⟩
  unfold prohibitedStringControl
  split
  · rfl
  · rename_i htab
    simp [hdel, hlow.resolve_right htab]

/-- **A byte that is not a backslash** is copied, or refused. -/
theorem scanBasicStringBody_plain (hc : c ≠ 0x5C)
    (hcrlf : multiline = true → ¬ (c = 0x0D ∧ t.head? = some 0x0A)) :
    scanBasicStringBody multiline len i (c :: t) =
      if prohibitedStringControl c multiline then .error (stringControlError c i)
      else (scanBasicStringBody multiline len (i + 1) t).map (c :: ·) := by
  cases multiline with
  | true =>
    rw [scanBasicStringBody.eq_def, if_pos rfl]
    simp [hc, hcrlf rfl]
  | false =>
    cases hstop : Scan.basicStringStrictStop c with
    | true =>
      rw [scanBasicStringBody_run, scanBasicStringStrict_stop hstop]
      simp [hc]
    | false =>
      rw [scanBasicStringBody_run, scanBasicStringStrict_go hstop, (not_prohibited_of_go hstop).2]
      rw [scanBasicStringBody_run (s := t), drop_succ_cons, take_succ_cons,
        show i + (Scan.scanBasicStringStrict t + 1) = i + 1 + Scan.scanBasicStringStrict t by omega]
      -- the rest of the run belongs to both
      cases t.drop (Scan.scanBasicStringStrict t) with
      | nil => rfl
      | cons d u =>
        dsimp only
        by_cases hd : d = 0x5C
        · rw [if_neg (not_not.mpr hd), if_neg (not_not.mpr hd)]
          cases scanEscape len (i + 1 + Scan.scanBasicStringStrict t) (d :: u) with
          | error e => rfl
          | ok r => exact (map_map _ _ (c :: ·)).symm
        · rw [if_pos hd, if_pos hd]
          cases prohibitedStringControl d false with
          | true => rfl
          | false => exact (map_map _ _ (c :: ·)).symm

/-- A line end of two bytes passes in a multi-line body. -/
theorem scanBasicStringBody_crlf :
    scanBasicStringBody true len i (0x0D :: 0x0A :: t) =
      (scanBasicStringBody true len (i + 2) t).map ([0x0D, 0x0A] ++ ·) := by
  rw [scanBasicStringBody.eq_def, if_pos rfl]
  rfl

/-- **An escape** is decoded, unless it is a backslash at the end of a line. -/
theorem scanBasicStringBody_escape (hlines : multiline = true → skipEscapedMultilineStringWhitespace t = none) :
    scanBasicStringBody multiline len i (0x5C :: t) =
      match scanEscape len i (0x5C :: t) with
      | .error e => .error e
      | .ok (out, n) =>
        (scanBasicStringBody multiline len (i + n) ((0x5C :: t).drop n)).map (out ++ ·) := by
  cases multiline with
  | true =>
    rw [scanBasicStringBody.eq_def, if_pos rfl]
    simp only [ne_eq, not_true_eq_false, if_false]
    rw [hlines rfl]
    dsimp only
    split
    all_goals (rename_i he; rw [he])
  | false =>
    rw [scanBasicStringBody_run, scanBasicStringStrict_stop rfl]
    simp

end

/-! ## Bodies without a backslash -/

/-- **Without a backslash** the walk checks the controls and copies. -/
theorem scanBasicStringBody_no_escape (multiline : Bool) (len i : Nat) {s : Bytes} (h : 0x5C ∉ s) :
    scanBasicStringBody multiline len i s =
      match prohibitedStringControlIndex multiline i s with
      | some (c, idx) => .error (stringControlError c idx)
      | none => .ok s := by
  fun_induction prohibitedStringControlIndex multiline i s with
  | case1 i => simp
  | case2 i c hc =>
    rw [scanBasicStringBody_plain (ne_of_not_mem_cons h).symm (by simp), if_pos hc]
  | case3 i c hc =>
    rw [scanBasicStringBody_plain (ne_of_not_mem_cons h).symm (by simp), if_neg hc, scanBasicStringBody_nil]
    rfl
  | case4 i c d t hcrlf ih =>
    simp only [Bool.and_eq_true, beq_iff_eq] at hcrlf
    obtain ⟨⟨rfl, rfl⟩, rfl⟩ := hcrlf
    rw [scanBasicStringBody_crlf, ih (by simpa using h)]
    split <;> rfl
  | case5 i c d t hcrlf hc =>
    rw [scanBasicStringBody_plain (ne_of_not_mem_cons h).symm (by simpa using hcrlf), if_pos hc]
  | case6 i c d t hcrlf hc ih =>
    rw [scanBasicStringBody_plain (ne_of_not_mem_cons h).symm (by simpa using hcrlf), if_neg hc,
      ih (fun hm => h (mem_cons_of_mem c hm))]
    split <;> rfl

/-- A body that one run covers holds nothing to refuse or decode. -/
theorem go_of_strict {s : Bytes} (h : Scan.scanBasicStringStrict s = s.length) :
    ∀ c ∈ s, Scan.basicStringStrictStop c = false := by
  rw [Scan.scanBasicStringStrict, findIdx_eq_length] at h
  exact h

/-- On one line every byte is looked at by itself. -/
theorem prohibitedStringControlIndex_eq_none {s : Bytes} (i : Nat) :
    prohibitedStringControlIndex false i s = none ↔
      ∀ c ∈ s, prohibitedStringControl c false = false := by
  induction s generalizing i with
  | nil => simp [prohibitedStringControlIndex]
  | cons c s ih =>
    rw [forall_mem_cons, ← ih (i + 1)]
    cases s with
    | nil => simp [prohibitedStringControlIndex]
    | cons d s => cases hc : prohibitedStringControl c false <;> simp [prohibitedStringControlIndex, hc]

/-- **The short cuts of `parseBasicStringBody` change nothing.** -/
theorem parseBasicStringBody_eq (raw : Bytes) (multiline : Bool) :
    parseBasicStringBody raw multiline = scanBasicStringBody multiline raw.length 0 raw := by
  unfold parseBasicStringBody
  split
  · -- one run covers the whole body
    rename_i hrun
    simp only [Bool.and_eq_true, Bool.not_eq_true', beq_iff_eq] at hrun
    obtain ⟨rfl, hstrict⟩ := hrun
    have hgo := go_of_strict hstrict
    have hslash : 0x5C ∉ raw := fun hm => (not_prohibited_of_go (hgo _ hm)).1 rfl
    rw [scanBasicStringBody_no_escape false _ _ hslash,
      (prohibitedStringControlIndex_eq_none 0).mpr (fun c hc => (not_prohibited_of_go (hgo c hc)).2)]
  · split
    · -- a multi-line body without a backslash
      rename_i hplain
      simp only [Bool.and_eq_true, Bool.not_eq_true', contains_eq_mem, decide_eq_false_iff_not] at hplain
      obtain ⟨rfl, hslash⟩ := hplain
      rw [scanBasicStringBody_no_escape true _ _ hslash, validateStringControls]
      cases prohibitedStringControlIndex true 0 raw with
      | none | some found => rfl
    · rfl

theorem validateBasicStringBody_eq (raw : Bytes) (multiline : Bool) :
    validateBasicStringBody raw multiline = (parseBasicStringBody raw multiline).map (fun _ => ()) := by
  rw [parseBasicStringBody_eq]
  rfl

theorem forget_map (body : Bytes) (r : Except Err Unit) : r = (r.map (fun _ => body)).map (fun _ => ()) := by
  cases r with
  | error e | ok u => rfl

/-- **Checking a string is decoding it without the result.** -/
theorem validateStringValue_eq (raw : Bytes) :
    validateStringValue raw = (parseStringValue raw).map (fun _ => ()) := by
  unfold validateStringValue parseStringValue
  split
  · rfl
  · exact forget_map _ _
  · exact forget_map _ _
  · exact validateBasicStringBody_eq _ _
  · exact validateBasicStringBody_eq _ _

/-! ## The walk with a buffer, or without -/

/-- `b.Write`, when there is a buffer. -/
def writeTo (b : Option Bytes) (out : Bytes) : Option Bytes := b.map (· ++ out)

theorem writeTo_writeTo (b : Option Bytes) (out out' : Bytes) :
    writeTo (writeTo b out) out' = writeTo b (out ++ out') := by
  cases b with
  | none => rfl
  | some w => simp [writeTo]

/-- `scanBasicStringBody` with its third parameter, the buffer or `nil`; what it answers is the buffer at
    the end. -/
def scanBasicStringBodyInto (multiline : Bool) (len i : Nat) (b : Option Bytes) (s : Bytes) :
    Except Err (Option Bytes) :=
  if multiline then
    match s with
    | [] => .ok b
    | c :: t =>
      if c ≠ 0x5C then
        if c = 0x0D ∧ t.head? = some 0x0A then
          scanBasicStringBodyInto true len (i + 2) (writeTo b [0x0D, 0x0A]) (t.drop 1)
        else if prohibitedStringControl c true then .error (stringControlError c i)
        else scanBasicStringBodyInto true len (i + 1) (writeTo b [c]) t
      else
        match skipEscapedMultilineStringWhitespace t with
        | some n => scanBasicStringBodyInto true len (i + 1 + n) b (t.drop n)
        | none =>
          match _h : scanEscape len i (c :: t) with
          | .error e => .error e
          | .ok (out, n) =>
            scanBasicStringBodyInto true len (i + n) (writeTo b out) ((c :: t).drop n)
  else
    let n := Scan.scanBasicStringStrict s
    match _hs : s.drop n with
    | [] => .ok (writeTo b (s.take n))
    | c :: t =>
      if c ≠ 0x5C then
        if prohibitedStringControl c false then .error (stringControlError c (i + n))
        else
          scanBasicStringBodyInto false len (i + n + 1) (writeTo (writeTo b (s.take n)) [c]) t
      else
        match _h : scanEscape len (i + n) (c :: t) with
        | .error e => .error e
        | .ok (out, k) =>
          scanBasicStringBodyInto false len (i + n + k) (writeTo (writeTo b (s.take n)) out)
            ((c :: t).drop k)
termination_by s.length
decreasing_by
  all_goals try (simp only [length_drop, length_cons]; omega)
  · have := scanEscape_two_le _h
    simp only [length_drop, length_cons]; omega
  all_goals have hl := Bytes.length_of_drop _hs
  · omega
  · have := scanEscape_two_le _h
    rw [length_drop, length_cons]; omega

/-- **The buffer is only written to**: it decides neither where the walk goes nor how it ends. -/
theorem scanBasicStringBodyInto_eq (multiline : Bool) (len i : Nat) (b : Option Bytes) (s : Bytes) :
    scanBasicStringBodyInto multiline len i b s =
      (scanBasicStringBody multiline len i s).map (writeTo b) := by
  have hwritten : ∀ (b : Option Bytes) (out : Bytes) (r : Except Err Bytes),
      r.map (writeTo (writeTo b out)) = (r.map (out ++ ·)).map (writeTo b) := by
    intro b out r
    cases r with
    | error e => rfl
    | ok rest => exact congrArg Except.ok (writeTo_writeTo b out rest)
  fun_induction scanBasicStringBodyInto multiline len i b s with
  | case1 i b => simp [Except.map, writeTo]
  | case2 i b c t hc hcrlf ih =>
    rw [ih, hwritten]
    cases t with
    | nil => cases hcrlf.2
    | cons d t =>
      obtain ⟨rfl, hd⟩ := hcrlf
      cases Option.some.inj hd
      rw [scanBasicStringBody_crlf]
      rfl
  | case3 i b c t hc hcrlf hcontrol =>
    rw [scanBasicStringBody_plain hc (fun _ => hcrlf), if_pos hcontrol]
    rfl
  | case4 i b c t hc hcrlf hcontrol ih =>
    rw [ih, hwritten, scanBasicStringBody_plain hc (fun _ => hcrlf), if_neg hcontrol]
    rfl
  | case5 i b c t hc n hlines ih =>
    -- a backslash at the end of a line takes the blanks that follow with it
    rw [not_not.mp hc, ih, scanBasicStringBody.eq_def true len i, if_pos rfl]
    simp [hlines]
  | case6 i b c t hc hlines e he =>
    obtain rfl := not_not.mp hc
    rw [scanBasicStringBody_escape (fun _ => hlines), he]
    rfl
  | case7 i b c t hc hlines out n he ih =>
    obtain rfl := not_not.mp hc
    rw [ih, hwritten, scanBasicStringBody_escape (fun _ => hlines), he]
  | case8 m i b s hm n hs =>
    obtain rfl := Bool.not_eq_true m ▸ hm
    rw [scanBasicStringBody_run, hs]
    rfl
  | case9 m i b s hm n c t hs hc hcontrol =>
    obtain rfl := Bool.not_eq_true m ▸ hm
    rw [scanBasicStringBody_run, hs]
    dsimp only
    rw [if_pos hc, if_pos hcontrol]
    rfl
  | case10 m i b s hm n c t hs hc hcontrol ih =>
    obtain rfl := Bool.not_eq_true m ▸ hm
    rw [scanBasicStringBody_run, hs, ih, writeTo_writeTo, hwritten]
    dsimp only
    rw [if_pos hc, if_neg hcontrol]
    simp [n]
  | case11 m i b s hm n c t hs hc e he =>
    obtain rfl := Bool.not_eq_true m ▸ hm
    rw [scanBasicStringBody_run, hs]
    dsimp only
    rw [if_neg hc, he]
    rfl
  | case12 m i b s hm n c t hs hc out k he ih =>
    obtain rfl := Bool.not_eq_true m ▸ hm
    rw [scanBasicStringBody_run, hs, ih, writeTo_writeTo, hwritten]
    dsimp only
    rw [if_neg hc, he]

/-- `validateBasicStringBody` walks without a buffer. -/
theorem validateBasicStringBody_walk (raw : Bytes) (multiline : Bool) :
    validateBasicStringBody raw multiline =
      (scanBasicStringBodyInto multiline raw.length 0 none raw).map (fun _ => ()) := by
  rw [scanBasicStringBodyInto_eq, map_map]
  rfl

/-- `parseBasicStringBody` answers what is in the buffer when the walk has ended. -/
theorem parseBasicStringBody_walk (raw : Bytes) (multiline : Bool) :
    (parseBasicStringBody raw multiline).map some =
      scanBasicStringBodyInto multiline raw.length 0 (some []) raw := by
  rw [scanBasicStringBodyInto_eq, parseBasicStringBody_eq]
  rfl

end Pandaemonium.Toml
