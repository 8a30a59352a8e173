import Pandaemonium.Toml.PathKeys
import Pandaemonium.Lib.GoText

/-!
# `Toml.DirectPath` — the allocation-free path parser (`unmarshal_direct.go`)

`parseDirectRawPath` splits a key of bare segments at its dots, into eight slots and a slice for the rest.
It trims with `bytes.TrimSpace`, which knows more white space than `parseDottedKey`; a key with such white
space is one that `parseDottedKey` refuses. Where both accept a key they read the same segments, and a key of
bare segments is one that `parseDirectRawPath` accepts (`parseDirectRawPath_refines`).
-/

namespace Pandaemonium.Toml

open GoText (SpaceByte trimSpace)

/-! ## The path -/

structure DirectRawPath where
  stack : Vector Bytes 8
  extra : List Bytes
  n : Nat

open List

variable {p : DirectRawPath} {parts : List Bytes}

namespace DirectRawPath

def new : DirectRawPath := ⟨Vector.replicate 8 [], [], 0⟩

def append (p : DirectRawPath) (part : Bytes) : DirectRawPath :=
  if h : p.n < 8 then { p with stack := p.stack.set p.n part, n := p.n + 1 }
  else { p with extra := p.extra ++ [part], n := p.n + 1 }

/-- `none` is the panic of an index outside `extra`. -/
def part (p : DirectRawPath) (i : Nat) : Option Bytes :=
  if h : i < 8 then some p.stack[i] else p.extra[i - 8]?

/-- The path holds the segments, the first eight of them in its slots. -/
structure Holds (p : DirectRawPath) (parts : List Bytes) : Prop where
  count : p.n = parts.length
  slots : ∀ i (h : i < 8), i < parts.length → parts[i]? = some p.stack[i]
  rest : p.extra = parts.drop 8

theorem Holds.new : DirectRawPath.new.Holds [] := ⟨rfl, nofun, rfl⟩

theorem Holds.append (h : p.Holds parts) (part : Bytes) : (p.append part).Holds (parts ++ [part]) := by
  unfold DirectRawPath.append
  split
  · rename_i hn
    rw [h.count] at hn
    refine ⟨by simp [h.count], fun i hi hlt => ?_, ?_⟩
    · rw [length_append, length_singleton] at hlt
      by_cases hin : i = parts.length
      · subst hin
        simp [h.count]
      rw [getElem?_append_left (by omega), h.slots i hi (by omega), Vector.getElem_set_ne]
      rw [h.count]
      omega
    · rw [drop_eq_nil_of_le (by rw [length_append]; exact hn)]
      exact h.rest.trans (drop_eq_nil_of_le (by omega))
  · rename_i hn
    rw [h.count] at hn
    refine ⟨by simp [h.count], fun i hi _ => ?_, ?_⟩
    · rw [getElem?_append_left (by omega)]
      exact h.slots i hi (by omega)
    · rw [drop_append_of_le_length (by omega), ← h.rest]

theorem Holds.foldl (h : p.Holds parts) (segments : List Bytes) :
    (segments.foldl DirectRawPath.append p).Holds (parts ++ segments) := by
  induction segments generalizing p parts with
  | nil => rwa [append_nil]
  | cons s segments ih =>
    have := ih (h.append s)
    rwa [append_assoc] at this

/-- The segments of a path, through `part`. -/
theorem Holds.part_eq (h : p.Holds parts) {i : Nat} (hi : i < p.n) : p.part i = parts[i]? := by
  unfold DirectRawPath.part
  split
  · rename_i hlt
    exact (h.slots i hlt (h.count ▸ hi)).symm
  rw [h.rest, getElem?_drop]
  congr 1
  omega

end DirectRawPath

/-! ## The parser -/

def isDirectBareKeyByte (c : UInt8) : Bool :=
  (0x41 ≤ c && c ≤ 0x5A) || (0x61 ≤ c && c ≤ 0x7A) || (0x30 ≤ c && c ≤ 0x39) || c == 0x5F || c == 0x2D

/-- Where the inner loop of `parseDirectRawPath` stops: at a dot, and at a byte that is not bare. -/
def isDirectStop (c : UInt8) : Bool := c == 0x2E || !isDirectBareKeyByte c

/-- The loop of `parseDirectRawPath`; `none` is `ok = false`. -/
def parseDirectRawPathFrom (path : DirectRawPath) (raw : Bytes) : Option DirectRawPath :=
  if _h : raw = [] then none
  else
    let stop := raw.findIdx isDirectStop
    match raw[stop]? with
    | none => if stop = 0 then none else some (path.append (raw.take stop))
    | some c =>
      if c ≠ 0x2E then none
      else if stop = 0 then none
      else parseDirectRawPathFrom (path.append (raw.take stop)) (raw.drop (stop + 1))
termination_by raw.length
decreasing_by
  have := length_pos_iff.mpr _h
  rw [length_drop]
  omega

def parseDirectRawPath (raw : Bytes) : Option DirectRawPath :=
  parseDirectRawPathFrom .new (trimSpace raw)

/-- Segments joined by single dots. -/
def dotted (segments : List Bytes) : Bytes := [0x2E].intercalate segments

/-- Bare segments, at least one. -/
inductive Bare : List Bytes → Prop
  | last {s} (hs : isSimpleBareKey s = true) : Bare [s]
  | cons {s segments} (hs : isSimpleBareKey s = true) (h : Bare segments) : Bare (s :: segments)

variable {s : Bytes} {segments : List Bytes}

theorem Bare.of_forall (hne : segments ≠ []) (h : ∀ s ∈ segments, isSimpleBareKey s = true) : Bare segments := by
  induction segments with
  | nil => exact absurd rfl hne
  | cons s segments ih =>
    obtain ⟨hs, hsegments⟩ := forall_mem_cons.mp h
    by_cases hlast : segments = []
    · exact hlast ▸ .last hs
    · exact .cons hs (ih hlast hsegments)

theorem dotted_cons (h : Bare segments) : dotted (s :: segments) = s ++ 0x2E :: dotted segments := by
  cases h <;> simp [dotted, List.intercalate]

theorem dotted_singleton (s : Bytes) : dotted [s] = s := by simp [dotted]

theorem isSimpleBareKey_iff : isSimpleBareKey s = true ↔ s ≠ [] ∧ ∀ c ∈ s, Scan.bareKeyClass c = true := by
  rw [isSimpleBareKey, Bool.and_eq_true, all_eq_true, Bool.not_eq_true', isEmpty_eq_false_iff]

variable {w : Bytes}

/-- A scan passes over a text outside its class and stops behind it. -/
theorem findIdx_append_stop {p : UInt8 → Bool} (hs : ∀ c ∈ s, p c = false) (hw : ∀ c ∈ w.head?, p c = true) :
    (s ++ w).findIdx p = s.length := by
  rw [findIdx_append, findIdx_eq_length.mpr hs, if_neg (Nat.lt_irrefl _)]
  cases w with
  | nil => exact Nat.zero_add _
  | cons c w => rw [Bytes.findIdx_cons_pos (hw c rfl), Nat.zero_add]

theorem forall_take_findIdx (p : UInt8 → Bool) (s : Bytes) : ∀ c ∈ s.take (s.findIdx p), p c = false := by
  intro c hc
  obtain ⟨i, hi, rfl⟩ := mem_take_iff_getElem.mp hc
  exact not_of_lt_findIdx (by omega)

/-- The direct parser on a bare segment that ends the key or has a dot behind it. -/
theorem parseDirectRawPathFrom_segment (hs : isSimpleBareKey s = true) (hw : ∀ c ∈ w.head?, c = 0x2E)
    (path : DirectRawPath) : parseDirectRawPathFrom path (s ++ w) =
      if w = [] then some (path.append s) else parseDirectRawPathFrom (path.append s) w.tail := by
  obtain ⟨hne, hbare⟩ := isSimpleBareKey_iff.mp hs
  have hstop : (s ++ w).findIdx isDirectStop = s.length := by
    refine findIdx_append_stop (fun c hc => ?_) (fun c hc => by rw [hw c hc]; rfl)
    rw [isDirectStop, show isDirectBareKeyByte c = true from hbare c hc,
      beq_eq_false_iff_ne.mpr (ne_of_bare (hbare c hc) rfl)]
    rfl
  rw [parseDirectRawPathFrom.eq_def, dif_neg (by simp [hne])]
  simp only [hstop]
  cases w with
  | nil => simp [hne]
  | cons c w =>
    cases hw c rfl
    simp [hne]

/-- **Bare segments joined by dots are taken apart again.** -/
theorem parseDirectRawPathFrom_dotted (h : Bare segments) (path : DirectRawPath) :
    parseDirectRawPathFrom path (dotted segments) = some (segments.foldl DirectRawPath.append path) := by
  induction h generalizing path with
  | last hs =>
    rw [dotted_singleton]
    have h := parseDirectRawPathFrom_segment (w := []) hs nofun path
    rwa [append_nil] at h
  | cons hs h ih =>
    rw [dotted_cons h, parseDirectRawPathFrom_segment (w := _ :: _) hs (fun c hc => (Option.some.inj hc).symm)]
    exact ih (path.append _)

/-- What the direct parser accepts is bare segments joined by dots. -/
theorem dotted_of_parseDirectRawPathFrom {path : DirectRawPath} {raw : Bytes}
    (h : parseDirectRawPathFrom path raw = some p) :
    ∃ segments, Bare segments ∧ raw = dotted segments ∧ p = segments.foldl DirectRawPath.append path := by
  have hsimple : ∀ raw : Bytes, raw ≠ [] → raw.findIdx isDirectStop ≠ 0 →
      isSimpleBareKey (raw.take (raw.findIdx isDirectStop)) = true := by
    intro raw hraw hstop
    refine isSimpleBareKey_iff.mpr ⟨?_, fun c hc => ?_⟩
    · simp [hraw, hstop]
    have hc := forall_take_findIdx _ raw c hc
    rw [isDirectStop, Bool.or_eq_false_iff, Bool.not_eq_false'] at hc
    exact hc.2
  fun_induction parseDirectRawPathFrom path raw with
  | case1 | case2 | case4 | case5 => cases h
  | case3 path raw hraw stop hend hstop =>
    refine ⟨[raw.take stop], .last (hsimple raw hraw hstop), ?_, ?_⟩
    · have hle := getElem?_eq_none_iff.mp hend
      rw [take_of_length_le hle]
      exact (dotted_singleton raw).symm
    · cases h
      rfl
  | case6 path raw hraw stop c hat hdot hstop ih =>
    obtain ⟨segments, hbare, hrest, rfl⟩ := ih h
    obtain ⟨hlt, hc⟩ := List.getElem?_eq_some_iff.mp hat
    refine ⟨raw.take stop :: segments, .cons (hsimple raw hraw hstop) hbare, ?_, rfl⟩
    rw [dotted_cons hbare, ← hrest, ← not_not.mp hdot, ← hc]
    simp

/-! ## The full parser on such a key -/

/-- How the full parser goes on when it accepts. -/
theorem parseDottedKeyFrom_ok {n : Nat} {path : List Bytes} {raw text : Bytes}
    (h : parseDottedKeyFrom n parts raw = .ok path) (htrim : trimLeftBlank raw = text) (hne : text ≠ []) :
    ∃ part rest, dottedKeySegment n text = .ok (part, rest) ∧
      ((trimLeftBlank rest = [] ∧ path = parts ++ [part]) ∨
        ∃ rest', trimLeftBlank rest = 0x2E :: rest' ∧
          parseDottedKeyFrom n (parts ++ [part]) rest' = .ok path) := by
  subst htrim
  rw [parseDottedKeyFrom.eq_def] at h
  split at h
  · rename_i hnil
    exact absurd hnil hne
  rename_i hcons
  rw [hcons]
  split at h
  · cases h
  rename_i part rest hseg
  refine ⟨part, rest, hseg, ?_⟩
  split at h
  · rename_i hend
    cases h
    exact .inl ⟨hend, rfl⟩
  · rename_i dot rest' hend
    split at h
    · cases h
    rename_i hdot
    split at h
    · cases h
    · rw [not_not.mp hdot] at hend
      exact .inr ⟨rest', hend, h⟩

/-- A segment that does not start with a quote is bare. -/
theorem dottedKeySegment_ok {n : Nat} {raw part rest : Bytes}
    (hc : ∀ c ∈ raw.head?, ¬ (c = 0x27 ∨ c = 0x22)) (h : dottedKeySegment n raw = .ok (part, rest)) :
    raw = part ++ rest ∧ isSimpleBareKey part = true ∧ ∀ d ∈ rest.head?, isSegmentStop d = true := by
  unfold dottedKeySegment at h
  split at h
  · cases h
  rename_i c t
  rw [if_neg (hc c rfl)] at h
  dsimp only at h
  split at h
  · cases h
  split at h
  · cases h
  rename_i hsimple
  cases h
  rw [Bool.not_eq_true', Bool.not_eq_false] at hsimple
  exact ⟨(take_append_drop _ _).symm, hsimple, Bytes.drop_findIdx_pos⟩

/-- Neither a byte of white space nor the end of a segment is bare. -/
theorem not_bare_of_stop {c : UInt8} (h : isSegmentStop c = true) : Scan.bareKeyClass c = false := by
  simp only [isSegmentStop, Bool.or_eq_true, beq_iff_eq] at h
  rcases h with (rfl | rfl) | rfl <;> rfl

theorem not_of_spaceByte {c : UInt8} (h : SpaceByte c) :
    Scan.bareKeyClass c = false ∧ c ≠ 0x2E ∧ ¬ (c = 0x27 ∨ c = 0x22) := by
  refine ⟨Bool.eq_false_iff.mpr fun hbare => ?_, ?_, ?_⟩
  · simp only [Scan.bareKeyClass, Bool.or_eq_true, Bool.and_eq_true, decide_eq_true_eq, beq_iff_eq,
      UInt8.le_iff_toNat_le, ← UInt8.toNat_inj] at hbare
    simp only [SpaceByte, GoText.isSpace, Bool.or_eq_true, Bool.and_eq_true, decide_eq_true_eq,
      beq_iff_eq] at h
    simp at hbare
    omega
  · rintro rfl
    exact h.elim nofun (by decide)
  · rintro (rfl | rfl) <;> exact h.elim nofun (by decide)

/-- The bare bytes at the front of a text. -/
theorem takeWhile_bare (hs : isSimpleBareKey s = true) (hw : ∀ c ∈ w.head?, Scan.bareKeyClass c = false) :
    (s ++ w).takeWhile Scan.bareKeyClass = s := by
  rw [takeWhile_append_of_pos (isSimpleBareKey_iff.mp hs).2]
  cases w with
  | nil => simp
  | cons c w => rw [takeWhile_cons_of_neg (by rw [hw c rfl]; nofun), append_nil]

/-- A text that starts and ends with a bare byte. -/
structure BareEnds (x : Bytes) : Prop where
  ne_nil : x ≠ []
  front : ∀ c ∈ x.head?, Scan.bareKeyClass c = true
  back : ∀ c ∈ x.getLast?, Scan.bareKeyClass c = true

theorem bareEnds_of_simple (hs : isSimpleBareKey s = true) : BareEnds s where
  ne_nil := (isSimpleBareKey_iff.mp hs).1
  front := fun c hc => (isSimpleBareKey_iff.mp hs).2 c (mem_of_mem_head? hc)
  back := fun c hc => (isSimpleBareKey_iff.mp hs).2 c (mem_of_mem_getLast? hc)

theorem bareEnds_dotted (h : Bare segments) : BareEnds (dotted segments) := by
  induction h with
  | last hs =>
    rw [dotted_singleton]
    exact bareEnds_of_simple hs
  | cons hs h hrest =>
    have hends := bareEnds_of_simple hs
    rw [dotted_cons h]
    refine ⟨append_ne_nil_of_left_ne_nil hends.ne_nil _, fun c hc => hends.front c ?_,
      fun c hc => hrest.back c ?_⟩
    · rwa [head?_append_of_ne_nil _ hends.ne_nil] at hc
    · rwa [getLast?_append_of_ne_nil _ (cons_ne_nil _ _), getLast?_cons_of_ne_nil hrest.ne_nil] at hc

theorem BareEnds.head_append {x : Bytes} (h : BareEnds x) :
    ∀ c ∈ (x ++ w).head?, Scan.bareKeyClass c = true := by
  rw [head?_append_of_ne_nil _ h.ne_nil]
  exact h.front

/-- Trimming stops at a byte that is not to be trimmed. -/
theorem dropWhile_append_stop {p : UInt8 → Bool} {x : Bytes} (hx : ∀ c ∈ x.head?, p c = false)
    (a : Bytes) : (a ++ x).dropWhile p = a.dropWhile p ++ x := by
  rw [dropWhile_append]
  split
  · rename_i hall
    rw [isEmpty_iff.mp hall, nil_append]
    cases x with
    | nil => rfl
    | cons c x => exact dropWhile_cons_of_neg (by rw [hx c rfl]; nofun)
  · rfl

theorem trimRight_append_stop {p : UInt8 → Bool} {x : Bytes} (hx : ∀ c ∈ x.getLast?, p c = false)
    (w : Bytes) : trimRight p (x ++ w) = x ++ trimRight p w := by
  rw [trimRight, reverse_append, dropWhile_append_stop (by rwa [head?_reverse]), reverse_append,
    reverse_reverse]
  rfl

/-- The full parser reads a bare segment up to the byte behind it. -/
theorem dottedKeySegment_bare_inj {n : Nat} {part rest : Bytes} (hs : isSimpleBareKey s = true)
    (hw : ∀ c ∈ w.head?, Scan.bareKeyClass c = false) (h : dottedKeySegment n (s ++ w) = .ok (part, rest)) :
    part = s ∧ rest = w := by
  have hquote : ∀ c ∈ (s ++ w).head?, ¬ (c = 0x27 ∨ c = 0x22) := by
    intro c hc
    have hbare := (bareEnds_of_simple hs).head_append c hc
    exact fun hq => hq.elim (ne_of_bare hbare rfl) (ne_of_bare hbare rfl)
  obtain ⟨hsplit, hpart, hrest⟩ := dottedKeySegment_ok hquote h
  have hleft : s = part := by
    rw [← takeWhile_bare hs hw, hsplit]
    exact takeWhile_bare hpart (fun d hd => not_bare_of_stop (hrest d hd))
  subst hleft
  exact ⟨rfl, (append_cancel_left hsplit).symm⟩

/-- **The full parser reads the same segments**, whatever white space follows them, if it accepts. -/
theorem parseDottedKeyFrom_dotted {n : Nat} {path : List Bytes} {raw : Bytes} (hbare : Bare segments)
    (hw : ∀ c ∈ w, SpaceByte c) (hraw : trimLeftBlank raw = dotted segments ++ w) (h : parseDottedKeyFrom n parts raw = .ok path) :
    path = parts ++ segments := by
  have hhead : ∀ s v : Bytes, isSimpleBareKey s = true → s ++ v ≠ [] :=
    fun _ v hs => append_ne_nil_of_left_ne_nil (isSimpleBareKey_iff.mp hs).1 v
  induction hbare generalizing parts raw with
  | last hs =>
    rw [dotted_singleton] at hraw
    obtain ⟨part, rest, hseg, hnext⟩ := parseDottedKeyFrom_ok h hraw (hhead _ w hs)
    obtain ⟨rfl, rfl⟩ := dottedKeySegment_bare_inj hs
      (fun c hc => (not_of_spaceByte (hw c (mem_of_mem_head? hc))).1) hseg
    rcases hnext with ⟨-, hpath⟩ | ⟨rest', hdot, -⟩
    · exact hpath
    -- there is no dot in white space
    have hmem : 0x2E ∈ trimLeftBlank rest := hdot ▸ mem_cons_self
    exact absurd rfl (not_of_spaceByte (hw _ ((dropWhile_suffix _).subset hmem))).2.1
  | @cons s segments hs hbare ih =>
    rw [dotted_cons hbare, append_assoc] at hraw
    obtain ⟨part, rest, hseg, hnext⟩ := parseDottedKeyFrom_ok h hraw (hhead _ _ hs)
    obtain ⟨rfl, rfl⟩ := dottedKeySegment_bare_inj hs (fun c hc => by cases hc; rfl) hseg
    rcases hnext with ⟨hend, -⟩ | ⟨rest', hdot, hnext⟩
    · cases hend
    have hrest : dotted segments ++ w = rest' := (List.cons.inj hdot).2
    subst hrest
    have hblank : ∀ c ∈ (dotted segments ++ w).head?, Scan.isSpaceTab c = false :=
      fun c hc => blank_of_bare ((bareEnds_dotted hbare).head_append c hc)
    rw [ih (dropWhile_append_stop hblank []) hnext, append_assoc]
    rfl

theorem not_trimSpace_of_bare {c : UInt8} (h : Scan.bareKeyClass c = true) : isTrimSpace c = false := by
  simp [isTrimSpace, ne_of_bare h (d := 0x20) rfl, ne_of_bare h (d := 0x09) rfl,
    ne_of_bare h (d := 0x0A) rfl, ne_of_bare h (d := 0x0D) rfl]

/-- `bytesTrimSpace` leaves a text with bare ends and some of what stands around it. -/
theorem bytesTrimSpace_around {x : Bytes} (hx : BareEnds x) (a w : Bytes) :
    bytesTrimSpace (a ++ (x ++ w)) = a.dropWhile isTrimSpace ++ (x ++ trimRight isTrimSpace w) := by
  rw [bytesTrimSpace, dropWhile_append_stop (fun c hc => not_trimSpace_of_bare (hx.head_append c hc)),
    ← append_assoc, trimRight_append_stop, append_assoc]
  intro c hc
  rw [getLast?_append_of_ne_nil _ hx.ne_nil] at hc
  exact not_trimSpace_of_bare (hx.back c hc)

/-- The same, whatever white space stands around the segments. -/
theorem parseDottedKey_dotted {path : List Bytes} {a : Bytes} (hbare : Bare segments)
    (ha : ∀ c ∈ a, SpaceByte c) (hw : ∀ c ∈ w, SpaceByte c)
    (h : parseDottedKey (a ++ (dotted segments ++ w)) = .ok path) : path = segments := by
  have hends := bareEnds_dotted hbare
  have hblank : ∀ c ∈ (dotted segments ++ trimRight isTrimSpace w).head?, Scan.isSpaceTab c = false :=
    fun c hc => blank_of_bare (hends.head_append c hc)
  rw [parseDottedKey, bytesTrimSpace_around hends] at h
  have htrim := dropWhile_append_stop hblank (a.dropWhile isTrimSpace)
  cases hleft : (a.dropWhile isTrimSpace).dropWhile Scan.isSpaceTab with
  | nil =>
    rw [hleft, nil_append] at htrim
    refine parseDottedKeyFrom_dotted hbare (fun c hc => hw c ?_) htrim h
    obtain ⟨b, hb, -⟩ := trimRight_split isTrimSpace w
    exact hb ▸ mem_append_left b hc
  | cons c t =>
    -- other white space in front of the key is not bare
    have hc : SpaceByte c := by
      have hmem : c ∈ (a.dropWhile isTrimSpace).dropWhile Scan.isSpaceTab := hleft ▸ mem_cons_self
      exact ha c ((dropWhile_suffix _).subset ((dropWhile_suffix _).subset hmem))
    rw [hleft] at htrim
    obtain ⟨part, rest, hseg, -⟩ := parseDottedKeyFrom_ok h htrim (cons_ne_nil _ _)
    obtain ⟨hsplit, hpart, -⟩ := dottedKeySegment_ok (fun d hd => by cases hd; exact (not_of_spaceByte hc).2.2) hseg
    have hbare := (bareEnds_of_simple hpart).head_append c (by rw [← hsplit]; rfl)
    rw [(not_of_spaceByte hc).1] at hbare
    cases hbare

/-- **The direct parser refines the full one**: where both accept a key they read the same segments, and it
    accepts every key of bare segments joined by single dots. -/
theorem parseDirectRawPath_refines (raw : Bytes) :
    (∀ path p, parseDottedKey raw = .ok path → parseDirectRawPath raw = some p →
      p.n = path.length ∧ ∀ i < p.n, p.part i = path[i]?) ∧
    ∀ segments, segments ≠ [] → (∀ s ∈ segments, isSimpleBareKey s = true) → raw = dotted segments →
      ∃ p, parseDirectRawPath raw = some p := by
  refine ⟨fun path p hpath hp => ?_, fun segments hne hall hraw => ?_⟩
  · obtain ⟨segments, hbare, hcore, rfl⟩ := dotted_of_parseDirectRawPathFrom hp
    obtain ⟨a, w, hraw, ha, hw⟩ := GoText.trimSpace_split raw
    rw [hraw, hcore] at hpath
    have hsegments := parseDottedKey_dotted hbare ha hw hpath
    subst hsegments
    have hholds := DirectRawPath.Holds.new.foldl path
    exact ⟨hholds.count, fun i hi => hholds.part_eq hi⟩
  · have hbare := Bare.of_forall hne hall
    have hends := bareEnds_dotted hbare
    have hspace : ∀ c, Scan.bareKeyClass c = true → ¬ SpaceByte c := by
      intro c hc hs
      rw [(not_of_spaceByte hs).1] at hc
      cases hc
    subst hraw
    rw [parseDirectRawPath, GoText.trimSpace_eq_self (fun c hc => hspace c (hends.front c hc))
      (fun c hc => hspace c (hends.back c hc))]
    exact ⟨_, parseDirectRawPathFrom_dotted hbare _⟩

end Pandaemonium.Toml
