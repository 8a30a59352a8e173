import Pandaemonium.Toml.EditDocument
import Pandaemonium.Toml.Reader
import Pandaemonium.Toml.StringWalk

/-!
# `Toml.PathKeys` — the two parsers of a dotted key (`document.go`, `value.go`)

`parseDottedKey` answers the segments of a key. The document reads its keys a second way:
`parseDottedPathKey` runs the same loop and writes the segments into a buffer as it goes, with a NUL in
front of each one that finds the buffer not empty. The two agree (`parseDottedPathKey_eq` says how they are
related on every text) as long as the buffer holds something after the first segment. A key whose first
segment is the empty string loses its first separator, and is refused when it has no other segment.
-/

namespace Pandaemonium.Toml

open List

/-! ## Trimming -/

theorem dropWhile_split (p : UInt8 → Bool) (raw : Bytes) :
    ∃ a, raw = a ++ raw.dropWhile p ∧ ∀ c ∈ a, p c = true :=
  ⟨raw.takeWhile p, (takeWhile_append_dropWhile).symm,
    fun c hc => all_eq_true.mp all_takeWhile c hc⟩

theorem trimRight_split (p : UInt8 → Bool) (raw : Bytes) :
    ∃ a, raw = trimRight p raw ++ a ∧ ∀ c ∈ a, p c = true := by
  obtain ⟨a, ha, hall⟩ := dropWhile_split p raw.reverse
  refine ⟨a.reverse, ?_, ?_⟩
  · have := congrArg List.reverse ha
    rw [reverse_reverse, reverse_append] at this
    exact this
  · intro c hc
    exact hall c (mem_reverse.mp hc)

variable {c : UInt8}

theorem isTrimSpace_of_blank (h : Scan.isSpaceTab c = true) : isTrimSpace c = true := by
  simp only [Scan.isSpaceTab, Bool.or_eq_true, beq_iff_eq] at h
  simp only [isTrimSpace, Bool.or_eq_true, beq_iff_eq]
  tauto

/-! ## The buffer -/

variable {b part : Bytes}

theorem writeSegment_ne_nil (h : b ≠ []) : writeSegment b part ≠ [] := by
  simp [writeSegment, h]

/-- Behind something, the buffer takes every segment with its separator. -/
theorem foldl_writeSegment (h : b ≠ []) (parts : List Bytes) :
    parts.foldl writeSegment b = joinDocumentPath (b :: parts) := by
  induction parts generalizing b with
  | nil => simp [joinDocumentPath]
  | cons p parts ih =>
    have hwritten : writeSegment b p = b ++ [0x00] ++ p := if_neg h
    rw [foldl_cons, ih (writeSegment_ne_nil h), hwritten]
    cases parts with
    | nil | cons q parts => simp [joinDocumentPath, List.intercalate]

/-- A path that starts with something is written as it is joined. -/
theorem foldl_writeSegment_cons {p : Bytes} (h : p ≠ []) (parts : List Bytes) :
    (p :: parts).foldl writeSegment [] = joinDocumentPath (p :: parts) := by
  rw [foldl_cons, show writeSegment [] p = p from if_pos rfl, foldl_writeSegment h]

/-- An empty segment at the front leaves no trace. -/
theorem foldl_writeSegment_nil (parts : List Bytes) :
    (([] : Bytes) :: parts).foldl writeSegment [] = parts.foldl writeSegment [] := rfl

/-- What is written is never longer than the joined path. -/
theorem length_foldl_writeSegment_le (parts : List Bytes) :
    (parts.foldl writeSegment []).length ≤ (joinDocumentPath parts).length := by
  induction parts with
  | nil => simp [joinDocumentPath]
  | cons p parts ih =>
    by_cases hp : p = []
    · subst hp
      rw [foldl_writeSegment_nil]
      cases parts with
      | nil => simp
      | cons q parts =>
        refine ih.trans ?_
        simp [joinDocumentPath, List.intercalate]
    · rw [foldl_writeSegment_cons hp]

/-- Nor is it the joined path, when the first segment is empty. -/
theorem pathKeyResult_empty_first (n : Nat) (parts : List Bytes) :
    pathKeyResult n ((([] : Bytes) :: parts).foldl writeSegment []) ≠
      .ok (joinDocumentPath ([] :: parts)) := by
  rw [foldl_writeSegment_nil, pathKeyResult]
  have hle := length_foldl_writeSegment_le parts
  split
  · nofun
  rename_i hne
  intro h
  rw [Except.ok.inj h] at hle hne
  cases parts with
  | nil => exact hne (by simp [joinDocumentPath])
  | cons p parts =>
    have hlonger : (joinDocumentPath ([] :: p :: parts)).length =
        (joinDocumentPath (p :: parts)).length + 1 := by
      simp [joinDocumentPath, List.intercalate]
    omega

/-! ## The two loops -/

variable {n : Nat} {raw : Bytes}

theorem parseDottedPathKeyFrom_blank (h0 : trimLeftBlank raw = []) :
    parseDottedPathKeyFrom n b raw = pathKeyResult n b := by
  rw [parseDottedPathKeyFrom.eq_def]
  split
  · rfl
  · rename_i h; rw [h] at h0; cases h0

variable {t : Bytes}

theorem parseDottedPathKeyFrom_error {e : Err} (h0 : trimLeftBlank raw = c :: t)
    (h1 : dottedKeySegment n (c :: t) = .error e) : parseDottedPathKeyFrom n b raw = .error e := by
  rw [parseDottedPathKeyFrom.eq_def]
  split
  · rename_i h; rw [h] at h0; cases h0
  rename_i h
  obtain ⟨rfl, rfl⟩ := List.cons.inj (h.symm.trans h0)
  split
  · rename_i h'; rw [h'] at h1; cases h1; rfl
  · rename_i h'; rw [h'] at h1; cases h1

/-- One segment is written, and what follows it decides. -/
theorem parseDottedPathKeyFrom_segment {rest : Bytes} (h0 : trimLeftBlank raw = c :: t)
    (h1 : dottedKeySegment n (c :: t) = .ok (part, rest)) :
    parseDottedPathKeyFrom n b raw =
      match trimLeftBlank rest with
      | [] => pathKeyResult n (writeSegment b part)
      | dot :: rest' =>
        if dot ≠ 0x2E then .error (dottedKeyError n "unexpected token in dotted key")
        else if trimLeftBlank rest' = [] then .error (dottedKeyError n "empty key segment")
        else parseDottedPathKeyFrom n (writeSegment b part) rest' := by
  rw [parseDottedPathKeyFrom.eq_def]
  split
  · rename_i h; rw [h] at h0; cases h0
  rename_i h
  obtain ⟨rfl, rfl⟩ := List.cons.inj (h.symm.trans h0)
  split
  · rename_i h'; rw [h'] at h1; cases h1
  rename_i h'
  rw [h'] at h1
  cases h1
  split
  all_goals (rename_i h2; rw [h2])

/-- Segments already collected stay. -/
theorem parseDottedKeyFrom_collected {parts path : List Bytes} (h : parseDottedKeyFrom n parts raw = .ok path) :
    ∃ new, path = parts ++ new := by
  fun_induction parseDottedKeyFrom n parts raw with
  | case1 | case3 | case5 | case6 => cases h
  | case2 parts => cases h; exact ⟨[], by simp⟩
  | case4 parts _ _ _ _ part => cases h; exact ⟨[part], rfl⟩
  | case7 parts _ _ _ _ part _ _ _ _ _ _ _ ih =>
    obtain ⟨new, rfl⟩ := ih h
    exact ⟨part :: new, by simp⟩

/-- **The two loops side by side**: the second writes what the first collects. -/
theorem parseDottedPathKeyFrom_eq (n : Nat) {parts : List Bytes} (hb : parts = [] → b = []) (raw : Bytes) :
    parseDottedPathKeyFrom n b raw =
      match parseDottedKeyFrom n parts raw with
      | .error e => .error e
      | .ok path => pathKeyResult n ((path.drop parts.length).foldl writeSegment b) := by
  fun_induction parseDottedKeyFrom n parts raw generalizing b with
  | case1 raw h0 => rw [parseDottedPathKeyFrom_blank h0, hb rfl]; rfl
  | case2 parts raw h0 hne => simp [parseDottedPathKeyFrom_blank h0]
  | case3 parts raw c t h0 e h1 => rw [parseDottedPathKeyFrom_error h0 h1]
  | case4 parts raw c t h0 part rest h1 h2 => simp [parseDottedPathKeyFrom_segment h0 h1, h2]
  | case5 parts raw c t h0 part rest h1 dot rest' h2 hdot =>
    simp [parseDottedPathKeyFrom_segment h0 h1, h2, hdot]
  | case6 parts raw c t h0 part rest h1 dot rest' h2 hdot hblank =>
    simp [parseDottedPathKeyFrom_segment h0 h1, h2, hdot, hblank]
  | case7 parts raw c t h0 part rest h1 dot rest' h2 hdot hblank ih =>
    rw [parseDottedPathKeyFrom_segment h0 h1, h2]
    simp only [hdot, hblank, if_false]
    rw [ih (fun hnil => absurd hnil (by simp))]
    -- the segment just written is the first of those collected from here on
    cases hrest : parseDottedKeyFrom n (parts ++ [part]) rest' with
    | error e => rfl
    | ok path =>
      obtain ⟨new, rfl⟩ := parseDottedKeyFrom_collected hrest
      simp

theorem ne_of_bare {d : UInt8} (hc : Scan.bareKeyClass c = true) (hd : Scan.bareKeyClass d = false) :
    c ≠ d := by
  rintro rfl
  exact absurd hc (by rw [hd]; exact Bool.false_ne_true)

theorem blank_of_bare (hc : Scan.bareKeyClass c = true) : Scan.isSpaceTab c = false := by
  simp [Scan.isSpaceTab, ne_of_bare hc (d := 0x20) rfl, ne_of_bare hc (d := 0x09) rfl]

/-- A bare key is one segment. -/
theorem dottedKeySegment_bare (h : isSimpleBareKey raw = true) : dottedKeySegment n raw = .ok (raw, []) := by
  have hclass := h
  rw [isSimpleBareKey, Bool.and_eq_true, all_eq_true] at hclass
  obtain ⟨hne, hall⟩ := hclass
  have hstop : raw.findIdx isSegmentStop = raw.length := by
    rw [findIdx_eq_length]
    intro c hc
    have hbare := hall c hc
    simp [isSegmentStop, ne_of_bare hbare (d := 0x2E) rfl, ne_of_bare hbare (d := 0x20) rfl,
      ne_of_bare hbare (d := 0x09) rfl]
  cases raw with
  | nil => cases hne
  | cons q t =>
    have hquote : ¬ (q = 0x27 ∨ q = 0x22) := by
      have hbare := hall q mem_cons_self
      exact fun hq => hq.elim (ne_of_bare hbare rfl) (ne_of_bare hbare rfl)
    rw [dottedKeySegment]
    simp [hquote, hstop, h]

theorem parseDottedKeyFrom_bare (h : isSimpleBareKey raw = true) : parseDottedKeyFrom n [] raw = .ok [raw] := by
  cases raw with
  | nil => cases h
  | cons q t =>
    have hq : Scan.bareKeyClass q = true := by
      rw [isSimpleBareKey, Bool.and_eq_true, all_eq_true] at h
      exact h.2 q mem_cons_self
    have htrim : trimLeftBlank (q :: t) = q :: t := by simp [trimLeftBlank, blank_of_bare hq]
    rw [parseDottedKeyFrom.eq_def]
    split
    · rename_i h0; rw [htrim] at h0; cases h0
    rename_i h0
    obtain ⟨rfl, rfl⟩ := List.cons.inj (h0.symm.trans htrim)
    split
    · rename_i h1; rw [dottedKeySegment_bare h] at h1; cases h1
    rename_i h1
    rw [dottedKeySegment_bare h] at h1
    cases h1
    rfl

/-- **The document's parser on every text**: the segments of `parseDottedKey`, written into the buffer. -/
theorem parseDottedPathKey_eq (raw : Bytes) :
    parseDottedPathKey raw =
      match parseDottedKey raw with
      | .error e => .error e
      | .ok path => pathKeyResult raw.length (path.foldl writeSegment []) := by
  unfold parseDottedPathKey parseDottedKey
  dsimp only
  split
  · rename_i hbare
    rw [parseDottedKeyFrom_bare hbare]
    have hne : bytesTrimSpace raw ≠ [] := by
      intro hnil
      rw [hnil] at hbare
      cases hbare
    simp [writeSegment, pathKeyResult, hne]
  · exact parseDottedPathKeyFrom_eq raw.length (fun _ => rfl) (bytesTrimSpace raw)

/-! ## A first segment that is empty -/

/-- The key opens with an empty quoted segment. -/
def emptyFirstSegment (raw : Bytes) : Bool :=
  match bytesTrimSpace raw with
  | q :: q' :: _ => (q == 0x27 || q == 0x22) && q' == q
  | _ => false

theorem scanEscape_ne_nil {len i : Nat} {s out : Bytes} (h : scanEscape len i s = .ok (out, n)) : out ≠ [] := by
  unfold scanEscape at h
  split at h
  · cases h
  rename_i next rest hnext
  split at h
  · cases h; simp
  split at h
  · rename_i digits hdigits
    cases hp : parseUnicodeEscape len (i + 2) rest digits with
    | error e => rw [hp] at h; cases h
    | ok r =>
      rw [hp] at h
      cases h
      exact Utf8.encodeRune_ne_nil r
  · cases h

/-- A single-line basic string with a body decodes to something. -/
theorem scanBasicStringBody_ne_nil {len i : Nat} {s out : Bytes} (hs : s ≠ [])
    (h : scanBasicStringBody false len i s = .ok out) : out ≠ [] := by
  cases s with
  | nil => exact absurd rfl hs
  | cons c t =>
    by_cases hc : c = 0x5C
    · subst hc
      rw [scanBasicStringBody_escape (by simp)] at h
      split at h
      · cases h
      rename_i escaped n he
      obtain ⟨rest, -, rfl⟩ := map_eq_ok.mp h
      simp [scanEscape_ne_nil he]
    · rw [scanBasicStringBody_plain hc (by simp)] at h
      split at h
      · cases h
      · obtain ⟨rest, -, rfl⟩ := map_eq_ok.mp h
        simp

/-- A quoted segment is empty only when its quotes stand next to each other. -/
theorem parseStringValue_quoted_ne_nil {q : UInt8} {v : Bytes} (hc : c ≠ q) (ht : t ≠ [])
    (h : parseStringValue (q :: c :: t) = .ok v) : v ≠ [] := by
  -- no three quotes in front
  have htriple : ∀ d, hasTripleDelimiter (q :: c :: t) d = false := by
    intro d
    rw [hasTripleDelimiter]
    cases t with
    | nil => exact absurd rfl ht
    | cons e t =>
      have hne : ¬ (q = d ∧ c = d ∧ e = d) := fun ⟨h₁, h₂, _⟩ => hc (h₂.trans h₁.symm)
      simp [hne]
  have hbody : ((q :: c :: t).drop 1).take ((q :: c :: t).length - 2) ≠ [] := by
    cases t with
    | nil => exact absurd rfl ht
    | cons e t => simp
  unfold parseStringValue stringValueBody at h
  simp only [htriple, Bool.false_eq_true, if_false] at h
  by_cases hsingle : hasPairDelimiter (q :: c :: t) 0x27 = true
  · rw [if_pos hsingle] at h
    obtain ⟨-, -, rfl⟩ := map_eq_ok.mp h
    exact hbody
  · rw [if_neg hsingle] at h
    by_cases hdouble : hasPairDelimiter (q :: c :: t) 0x22 = true
    · rw [if_pos hdouble] at h
      exact scanBasicStringBody_ne_nil hbody ((parseBasicStringBody_eq _ false).symm.trans h)
    · rw [if_neg hdouble] at h
      cases h

/-- Two quotes next to each other are the empty segment. -/
theorem dottedKeySegment_quotes {q : UInt8} {rest : Bytes} (hq : q = 0x27 ∨ q = 0x22)
    (h : dottedKeySegment n (q :: q :: t) = .ok (part, rest)) : part = [] := by
  have hclose : quotedSegmentEnd q 1 (q :: t) = 1 := by
    rcases hq with rfl | rfl <;> cases t <;> rfl
  have hvalue : parseStringValue [q, q] = .ok [] := by
    rcases hq with rfl | rfl
    all_goals rfl
  rw [dottedKeySegment] at h
  simp only [hq, if_true, hclose] at h
  rw [if_neg (by simp)] at h
  obtain ⟨v, hv, heq⟩ := map_eq_ok.mp h
  cases heq
  exact Except.ok.inj (hv.symm.trans hvalue)

theorem quotedSegmentEnd_ge (q : UInt8) (n : Nat) (s : Bytes) : n ≤ quotedSegmentEnd q n s := by
  fun_induction quotedSegmentEnd q n s <;> omega

/-- A segment that does not close at once has a byte inside. -/
theorem quotedSegmentEnd_inner {q d : UInt8} (h : d ≠ q) (n : Nat) (t : Bytes) :
    n < quotedSegmentEnd q n (d :: t) := by
  cases t with
  | nil =>
    rw [quotedSegmentEnd]
    split
    all_goals omega
  | cons e t =>
    rw [quotedSegmentEnd]
    split
    · have := quotedSegmentEnd_ge q (n + 2) t
      omega
    · exact quotedSegmentEnd_ge q (n + 1) (e :: t)

/-- And nothing else is. -/
theorem dottedKeySegment_ne_nil {rest : Bytes} (hquotes : ¬ ((c = 0x27 ∨ c = 0x22) ∧ t.head? = some c))
    (h : dottedKeySegment n (c :: t) = .ok (part, rest)) : part ≠ [] := by
  rw [dottedKeySegment] at h
  by_cases hq : c = 0x27 ∨ c = 0x22
  · rw [if_pos hq] at h
    dsimp only at h
    split at h
    · cases h
    rename_i hlen
    obtain ⟨v, hv, heq⟩ := map_eq_ok.mp h
    cases heq
    cases t with
    | nil => exact absurd (Nat.le_refl 1) hlen
    | cons d t =>
      have hd : d ≠ c := fun hdc => hquotes ⟨hq, by rw [hdc]; rfl⟩
      have hinner := quotedSegmentEnd_inner hd 1 t
      rw [length_cons, length_cons] at hlen
      obtain ⟨k, hk⟩ := Nat.exists_eq_add_of_le hinner
      rw [hk, show 1 + 1 + k + 1 = k + 1 + 2 by omega, take_succ_cons, take_succ_cons] at hv
      refine parseStringValue_quoted_ne_nil hd ?_ hv
      cases t with
      | nil => simp at hlen; omega
      | cons e t => simp
  · rw [if_neg hq] at h
    dsimp only at h
    split at h
    · cases h
    rename_i hne
    split at h
    · cases h
    · cases h
      exact hne

/-- The first segment of a key is the one its text opens with. -/
theorem parseDottedKeyFrom_first {path : List Bytes} (h : parseDottedKeyFrom n [] raw = .ok path) :
    ∃ c t part rest new, trimLeftBlank raw = c :: t ∧ dottedKeySegment n (c :: t) = .ok (part, rest) ∧
      path = part :: new := by
  rw [parseDottedKeyFrom.eq_def] at h
  split at h
  · cases h
  rename_i c t h0
  split at h
  · cases h
  rename_i part rest h1
  split at h
  · cases h
    exact ⟨c, t, part, rest, [], h0, h1, rfl⟩
  split at h
  · cases h
  split at h
  · cases h
  · obtain ⟨new, rfl⟩ := parseDottedKeyFrom_collected h
    exact ⟨c, t, part, rest, new, h0, h1, rfl⟩

theorem trimLeftBlank_bytesTrimSpace (raw : Bytes) :
    trimLeftBlank (bytesTrimSpace raw) = bytesTrimSpace raw := by
  obtain ⟨a, ha, -⟩ := trimRight_split isTrimSpace (raw.dropWhile isTrimSpace)
  rw [bytesTrimSpace]
  cases htrim : trimRight isTrimSpace (raw.dropWhile isTrimSpace) with
  | nil => rfl
  | cons c s =>
    rw [htrim, cons_append] at ha
    have hc : isTrimSpace c = false := by
      have := head?_dropWhile_not isTrimSpace raw
      rw [ha] at this
      exact this
    have hblank : Scan.isSpaceTab c = false := by
      cases hb : Scan.isSpaceTab c with
      | false => rfl
      | true => exact absurd (isTrimSpace_of_blank hb) (by rw [hc]; exact Bool.false_ne_true)
    simp [trimLeftBlank, hblank]

/-- **The first segment is empty** exactly when the text opens with two quotes. -/
theorem parseDottedKey_head {path : List Bytes} (h : parseDottedKey raw = .ok path) :
    path.head? = some [] ↔ emptyFirstSegment raw = true := by
  obtain ⟨c, t, part, rest, new, htrim, hseg, rfl⟩ := parseDottedKeyFrom_first h
  rw [trimLeftBlank_bytesTrimSpace] at htrim
  rw [head?_cons, Option.some.injEq, emptyFirstSegment, htrim]
  by_cases hquotes : (c = 0x27 ∨ c = 0x22) ∧ t.head? = some c
  · obtain ⟨hq, hhead⟩ := hquotes
    cases t with
    | nil => cases hhead
    | cons d t =>
      cases Option.some.inj hhead
      simp [dottedKeySegment_quotes hq hseg, hq]
  · have hne := dottedKeySegment_ne_nil hquotes hseg
    simp only [hne, false_iff]
    cases t with
    | nil => simp
    | cons d t =>
      rintro hb
      simp only [Bool.and_eq_true, Bool.or_eq_true, beq_iff_eq] at hb
      exact hquotes ⟨hb.1, by rw [hb.2]; rfl⟩

/-! ## When the two agree -/

/-- **The two parsers agree on a text**: one accepts it exactly when the other does, and then the
    document's one answers the joined segments of the other. -/
def KeyParsersAgree (raw : Bytes) : Prop :=
  ((∃ key, parseDottedPathKey raw = .ok key) ↔ ∃ path, parseDottedKey raw = .ok path) ∧
    ∀ key path, parseDottedPathKey raw = .ok key → parseDottedKey raw = .ok path →
      key = joinDocumentPath path

/-- **They agree except on keys that open with an empty segment.** -/
theorem keyParsersAgree_iff (raw : Bytes) :
    KeyParsersAgree raw ↔
      ¬ ((∃ path, parseDottedKey raw = .ok path) ∧ emptyFirstSegment raw = true) := by
  unfold KeyParsersAgree
  rw [parseDottedPathKey_eq]
  cases hpath : parseDottedKey raw with
  | error e => simp
  | ok path =>
    rw [← parseDottedKey_head hpath]
    cases path with
    | nil => exact absurd rfl (parseDottedKeyFrom_ne_nil hpath)
    | cons p parts =>
      by_cases hp : p = []
      · subst hp
        have hwrong := pathKeyResult_empty_first raw.length parts
        simp only [head?_cons, Except.ok.injEq, exists_eq', and_self, not_true_eq_false, iff_false, iff_true]
        rintro ⟨⟨key, hkey⟩, heq⟩
        exact hwrong (hkey.trans (congrArg Except.ok (heq key _ hkey rfl)))
      · have hne : joinDocumentPath (p :: parts) ≠ [] := by
          cases parts <;> simp [joinDocumentPath, List.intercalate, hp]
        simp only [foldl_writeSegment_cons hp, pathKeyResult, hne, if_false]
        simp [hp]

/-- The key `"".a` is recorded as `a`, and the key `""` is refused. What a document says under `"".a` is
    then found as `a`, and not under the path it was written with. -/
theorem empty_first_segment_lost :
    (parseDottedKey (ascii "\"\".a") = .ok [[], ascii "a"] ∧
      parseDottedPathKey (ascii "\"\".a") = .ok (ascii "a") ∧ ¬ KeyParsersAgree (ascii "\"\".a")) ∧
    (parseDottedKey (ascii "\"\"") = .ok [[]] ∧
      parseDottedPathKey (ascii "\"\"") = .error (dottedKeyError 2 "empty key") ∧
      ¬ KeyParsersAgree (ascii "\"\"")) ∧
    ∃ d, Document.parse (ascii "\"\".a = 1\n") = .ok d ∧ d.get (ascii "\"\".a") = none ∧
      d.get (ascii "a") = some (.val (.int 1)) := by
  have hfirst : parseDottedKey (ascii "\"\".a") = .ok [[], ascii "a"] := by decide +kernel
  have hsecond : parseDottedKey (ascii "\"\"") = .ok [[]] := by decide +kernel
  have hlost : parseDottedPathKey (ascii "\"\".a") = .ok (ascii "a") := by decide +kernel
  have hrefused : parseDottedPathKey (ascii "\"\"") = .error (dottedKeyError 2 "empty key") := by
    decide +kernel
  refine ⟨⟨hfirst, hlost, ?_⟩, ⟨hsecond, hrefused, ?_⟩, ?_⟩
  · rintro ⟨-, hjoin⟩
    exact absurd (hjoin _ _ hlost hfirst) (by decide)
  · rintro ⟨haccept, -⟩
    obtain ⟨key, hkey⟩ := haccept.mpr ⟨_, hsecond⟩
    cases hrefused.symm.trans hkey
  · refine ⟨{ Document.empty (ascii "\"\".a = 1\n") with
        entries := [⟨ascii "a", none, ascii "1", (7, 8), (0, 9), .integer⟩]
        byPath := [(ascii "a", 0)] }, ?_, ?_, ?_⟩
    · decide +kernel
    · decide +kernel
    · decide +kernel

end Pandaemonium.Toml
