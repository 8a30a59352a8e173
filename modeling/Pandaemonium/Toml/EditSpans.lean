import Pandaemonium.Toml.EditDocument
import Pandaemonium.Toml.Positions
import Pandaemonium.Toml.Tokens

/-!
# `Toml.EditSpans` — where the entries of a parsed document stand

The parser notes its entries as it goes through the text, so their value spans are non-empty, lie one
after the other and end before the reader's offset; the line span of an entry reaches around its value
span. `Noted` is the invariant of the loop, `parse_noted` what it leaves.
-/

namespace Pandaemonium.Toml

open SortedMap (get?)
open Decoder
open List

/-! ## Maps -/

section

variable {α : Type} {m : List (Bytes × α)} {k k' : Bytes} {v : α}

@[simp] theorem get?_mapDelete_self : get? (mapDelete m k) k = none := SortedMap.get?_erase_self

theorem get?_mapDelete_ne (h : k' ≠ k) : get? (mapDelete m k) k' = get? m k' :=
  SortedMap.get?_erase_ne h

@[simp] theorem get?_mapPut_self : get? (mapPut m k v) k = some v := SortedMap.get?_cons_self

theorem get?_mapPut_ne (h : k' ≠ k) : get? (mapPut m k v) k' = get? m k' := by
  rw [mapPut, SortedMap.get?_cons_ne (Ne.symm h)]
  exact get?_mapDelete_ne h

end

/-- A change that `g` does not see. -/
theorem filterMap_modify {α β : Type} {f : α → α} {g : α → Option β} (h : ∀ x, g (f x) = g x)
    (l : List α) (i : Nat) : (l.modify i f).filterMap g = l.filterMap g := by
  induction l generalizing i with
  | nil => cases i <;> rfl
  | cons x l ih =>
    cases i with
    | zero => simp only [modify_zero_cons, filterMap_cons, h]
    | succ i => simp only [modify_succ_cons, filterMap_cons, ih]

/-! ## Tokens and values -/

variable {d d' : Decoder} {tok : RawToken}

theorem rawTokenSpan_eq (h : tok.bytes ≠ []) :
    rawTokenSpan tok = (tok.offset, tok.offset + tok.bytes.length) := by
  have hlen : 0 < tok.bytes.length := length_pos_of_ne_nil h
  unfold rawTokenSpan spanForToken
  rw [if_neg (by omega)]

/-- A token stands in the text at its span. -/
theorem rawTokenSpan_text (h : d.readToken = (.ok tok, d')) :
    tok.bytes <+: d.buf.drop (rawTokenSpan tok).1 ∧
      (rawTokenSpan tok).2 = (rawTokenSpan tok).1 + tok.bytes.length := by
  obtain ⟨e, hbefore, -, hmark⟩ := readToken_marked h
  have hslice := hmark.slice
  rw [rawTokenSpan_eq hmark.nonempty, hmark.offset, ← hbefore.buf]
  exact ⟨hslice, rfl⟩

/-- The span of a token lies between the offsets before and after it. -/
theorem rawTokenSpan_bounds (h : d.readToken = (.ok tok, d')) :
    d.off ≤ (rawTokenSpan tok).1 ∧ (rawTokenSpan tok).1 < (rawTokenSpan tok).2 ∧
      (rawTokenSpan tok).2 ≤ d'.off := by
  obtain ⟨e, hbefore, -, hmark⟩ := readToken_marked h
  have hlen : 0 < tok.bytes.length := length_pos_of_ne_nil hmark.nonempty
  have hspan := rawTokenSpan_eq hmark.nonempty
  have hstop := hmark.stop
  have hle := hbefore.le
  rw [hspan, hmark.offset]
  exact ⟨hle, by omega, hstop⟩

/-- Where the last of the tokens ends, `stop` where there are none. -/
def lastStop (stop : Nat) : List RawToken → Nat
  | [] => stop
  | tok :: toks => lastStop (rawTokenSpan tok).2 toks

variable {toks : List RawToken}

theorem lastStop_bounds (h : Reads d toks d') {stop : Nat} (hstop : stop ≤ d.off) :
    stop ≤ lastStop stop toks ∧ lastStop stop toks ≤ d'.off := by
  induction h generalizing stop with
  | nil d => exact ⟨Nat.le_refl stop, hstop⟩
  | @cons d d₁ d' tok toks hread _ ih =>
    obtain ⟨h₁, h₂, h₃⟩ := rawTokenSpan_bounds hread
    obtain ⟨h₄, h₅⟩ := ih h₃
    exact ⟨Nat.le_trans (by omega) h₄, h₅⟩

variable {s : ParseState} {data : Bytes} {entry : DocumentEntry}

namespace Document

/-! ## What a value is made of -/

/-- What a token adds to the count of open arrays. -/
def arrayDelta : TokenKind → Int
  | .arrayStart => 1
  | .arrayEnd => -1
  | _ => 0

/-- What a token adds to the count of open inline tables. -/
def inlineDelta : TokenKind → Int
  | .inlineTableStart => 1
  | .inlineTableEnd => -1
  | _ => 0

/-- The tokens that a bracket count passes, from the counts `i` and `j` to the first point where neither
    is positive. -/
inductive Counts : Int → Int → List TokenKind → Prop
  | stop {i j : Int} : i ≤ 0 → j ≤ 0 → Counts i j []
  | more {i j : Int} {k : TokenKind} {ks : List TokenKind} : i > 0 ∨ j > 0 →
      Counts (i + arrayDelta k) (j + inlineDelta k) ks → Counts i j (k :: ks)

/-- A turn of the bracket count reads one token and moves to its end. -/
theorem bracketTurn_again {s s' : BracketState} (h : bracketTurn s = .again s') :
    (s.arrayDepth > 0 ∨ s.inlineDepth > 0) ∧ ∃ tok, s.dec.readToken = (.ok tok, s'.dec) ∧
      s'.stop = (rawTokenSpan tok).2 ∧ s'.arrayDepth = s.arrayDepth + arrayDelta tok.kind ∧
      s'.inlineDepth = s.inlineDepth + inlineDelta tok.kind := by
  unfold bracketTurn at h
  split at h
  · rename_i hopen
    obtain ⟨tok, d, hread, h⟩ := afterCall_again h
    refine ⟨hopen, tok, ?_⟩
    dsimp only at h
    split at h <;> rename_i hk <;> cases h
    · rw [hk]; exact ⟨hread, rfl, rfl, (Int.add_zero _).symm⟩
    · rw [hk]; exact ⟨hread, rfl, rfl, (Int.add_zero _).symm⟩
    · rw [hk]; exact ⟨hread, rfl, (Int.add_zero _).symm, rfl⟩
    · rw [hk]; exact ⟨hread, rfl, (Int.add_zero _).symm, rfl⟩
    · refine ⟨hread, rfl, ?_, ?_⟩ <;> cases hkind : tok.kind <;> simp_all [arrayDelta, inlineDelta]
  · cases h

theorem bracketTurn_done {s : BracketState} {stop : Nat} (h : bracketTurn s = .done (.ok stop, d)) :
    s.arrayDepth ≤ 0 ∧ s.inlineDepth ≤ 0 ∧ stop = s.stop ∧ d = s.dec := by
  unfold bracketTurn at h
  split at h
  · obtain ⟨tok, d, -, h⟩ := afterCall_done h
    dsimp only at h
    split at h <;> cases h
  · cases h
    exact ⟨by omega, by omega, rfl, rfl⟩

theorem bracketLoop_reads {s : BracketState} {stop : Nat} (h : runLoop (·.dec) bracketTurn s = (.ok stop, d)) :
    ∃ toks, Reads s.dec toks d ∧ Counts s.arrayDepth s.inlineDepth (kinds toks) ∧
      stop = lastStop s.stop toks := by
  refine Loop.loop_induction
    (motive := fun s r => ∀ stop d, r = (.ok stop, d) →
      ∃ toks, Reads s.dec toks d ∧ Counts s.arrayDepth s.inlineDepth (kinds toks) ∧
        stop = lastStop s.stop toks) ?_ ?_ (runLoop_ok h) stop d rfl
  · intro s r hb stop d hr
    subst hr
    obtain ⟨hi, hj, rfl, rfl⟩ := bracketTurn_done hb
    exact ⟨[], .nil _, .stop hi hj, rfl⟩
  · intro s s' r hb _ _ ih stop d hr
    obtain ⟨hopen, tok, hread, hstop, hi, hj⟩ := bracketTurn_again hb
    obtain ⟨toks, hreads, hcounts, hlast⟩ := ih stop d hr
    rw [hi, hj] at hcounts
    rw [hstop] at hlast
    exact ⟨tok :: toks, .cons hread hreads, .more hopen hcounts, hlast⟩

/-- The tokens after the first of a value: none, or as many as the bracket count takes. -/
def TailCounts : TokenKind → List TokenKind → Prop
  | .arrayStart, ks => Counts 1 0 ks
  | .inlineTableStart, ks => Counts 0 1 ks
  | _, ks => ks = []

/-- **What `readValue` reads**: comments, a token that is none, and what the bracket count takes. -/
structure ReadsValue (data : Bytes) (d : Decoder) (v : RawValue) (d' : Decoder) : Prop where
  tokens : ∃ comments tok toks, Reads d (comments ++ tok :: toks) d' ∧
    (∀ c ∈ comments, c.kind = .comment) ∧ tok.kind ≠ .comment ∧ TailCounts tok.kind (kinds toks) ∧
    v.span = ((rawTokenSpan tok).1, lastStop (rawTokenSpan tok).2 toks) ∧
    v.kind = documentKindFromToken tok.kind
  raw : v.raw = Splice.slice data v.span.1 v.span.2

theorem readBrackets_reads {i j : Int} {kind : DocumentValueKind} {v : RawValue}
    (h : readBrackets data tok i j kind d = (.ok v, d')) :
    ∃ toks, Reads d toks d' ∧ Counts i j (kinds toks) ∧
      v.span = ((rawTokenSpan tok).1, lastStop (rawTokenSpan tok).2 toks) ∧ v.kind = kind ∧
      v.raw = Splice.slice data v.span.1 v.span.2 := by
  unfold readBrackets at h
  dsimp only at h
  split at h
  · rename_i stop d₁ hl
    cases h
    obtain ⟨toks, hreads, hcounts, rfl⟩ := bracketLoop_reads hl
    exact ⟨toks, hreads, hcounts, rfl, rfl, rfl⟩
  · cases h
  · cases h

theorem readValue_reads {v : RawValue} (h : readValue data d = (.ok v, d')) : ReadsValue data d v d' := by
  refine Loop.loop_induction
    (motive := fun d r => ∀ v d', r = (.ok v, d') → ReadsValue data d v d')
    ?_ ?_ (runLoop_ok h) v d' rfl
  · intro d r hb v d' hr
    subst hr
    unfold readValueTurn at hb
    obtain ⟨tok, d₁, hread, hb⟩ := afterCall_done hb
    split at hb
    · cases hb
    · rename_i hk
      injection hb with hb
      obtain ⟨toks, hreads, hcounts, hspan, hkind, hraw⟩ := readBrackets_reads hb
      refine ⟨⟨[], tok, toks, .cons hread hreads, by simp, by simp [hk], ?_, hspan, ?_⟩, hraw⟩
      · rw [hk]; exact hcounts
      · rw [hk]; exact hkind
    · rename_i hk
      injection hb with hb
      obtain ⟨toks, hreads, hcounts, hspan, hkind, hraw⟩ := readBrackets_reads hb
      refine ⟨⟨[], tok, toks, .cons hread hreads, by simp, by simp [hk], ?_, hspan, ?_⟩, hraw⟩
      · rw [hk]; exact hcounts
      · rw [hk]; exact hkind
    · rename_i hcomment harray hinline
      cases hb
      refine ⟨⟨[], tok, [], .single hread, by simp, hcomment, ?_, rfl, rfl⟩, rfl⟩
      unfold TailCounts
      split
      · rename_i hk; exact absurd hk harray
      · rename_i hk; exact absurd hk hinline
      · rfl
  · intro d e r hb _ _ ih v d' hr
    unfold readValueTurn at hb
    obtain ⟨tok, d₁, hread, hb⟩ := afterCall_again hb
    split at hb
    · rename_i hk
      cases hb
      obtain ⟨⟨comments, first, toks, hreads, hc, hfirst, hrest⟩, hraw⟩ := ih v d' hr
      refine ⟨⟨tok :: comments, first, toks, .cons hread hreads, ?_, hfirst, hrest⟩, hraw⟩
      intro c hmem
      rcases mem_cons.mp hmem with rfl | hmem
      · exact hk
      · exact hc c hmem
    · cases hb
    · cases hb
    · cases hb

theorem reads_off_le (h : Reads d toks d') : d.off ≤ d'.off := by
  induction h with
  | nil d => exact Nat.le_refl _
  | cons hread _ ih => exact Nat.le_trans (Nat.le_of_lt (readToken_off_lt hread)) ih

/-- **A value lies between the offsets before and after it.** -/
theorem ReadsValue.bounds {v : RawValue} (h : ReadsValue data d v d') :
    d.off ≤ v.span.1 ∧ v.span.1 < v.span.2 ∧ v.span.2 ≤ d'.off := by
  obtain ⟨comments, tok, toks, hreads, -, -, -, hspan, -⟩ := h.tokens
  obtain ⟨d₁, hcomments, hreads⟩ := hreads.split
  cases hreads with
  | cons hread hreads =>
    obtain ⟨h₁, h₂, h₃⟩ := rawTokenSpan_bounds hread
    obtain ⟨h₄, h₅⟩ := lastStop_bounds hreads h₃
    have hle := reads_off_le hcomments
    rw [hspan]
    exact ⟨by omega, by omega, h₅⟩

/-! ## Statements -/

/-- A token that starts no statement. -/
def isStray : TokenKind → Bool
  | .comment | .tableHeader | .arrayTableHeader | .key => false
  | _ => true

/-- What a turn of the parser can do. -/
inductive ParseStep (s : ParseState) : ParseState → Prop
  | comment {tok : RawToken} {d : Decoder} :
      s.dec.readToken = (.ok tok, d) → tok.kind = .comment → ParseStep s { s with dec := d }
  | header {tok : RawToken} {d : Decoder} {array : Bool} {pathKey : Bytes} :
      s.dec.readToken = (.ok tok, d) →
      tok.kind = (if array then .arrayTableHeader else .tableHeader) →
      parseHeaderPathKey tok.bytes array = .ok pathKey →
      ParseStep s { s with dec := d, currentPathKey := pathKey }
  | key {tok : RawToken} {d d' : Decoder} {pathKey : Bytes} {value : RawValue} :
      s.dec.readToken = (.ok tok, d) → tok.kind = .key →
      parseDottedPathKey tok.bytes = .ok pathKey → readValue s.doc.raw d = (.ok value, d') →
      ParseStep s
        { s with
          dec := d'
          doc := s.doc.addEntry
            (entryOf s.doc.raw tok (joinPathKeys s.currentPathKey pathKey) value) }
  | stray {tok : RawToken} {d : Decoder} :
      s.dec.readToken = (.ok tok, d) → isStray tok.kind = true → s.currentPathKey ≠ [] →
      ParseStep s { s with dec := d }

theorem parseTurn_again {s' : ParseState} (h : parseTurn s = .again s') : ParseStep s s' := by
  unfold parseTurn at h
  split at h
  · cases h
  · cases h
  · cases h
  rename_i tok d hread
  split at h
  · rename_i hk
    cases h
    exact .comment hread hk
  · rename_i hk
    unfold headerTurn at h
    split at h
    · cases h
    rename_i pathKey hpath
    cases h
    exact @ParseStep.header _ _ _ false _ hread hk hpath
  · rename_i hk
    unfold headerTurn at h
    split at h
    · cases h
    rename_i pathKey hpath
    cases h
    exact @ParseStep.header _ _ _ true _ hread hk hpath
  · rename_i hk
    unfold keyTurn at h
    split at h
    · cases h
    rename_i pathKey hpath
    split at h
    · cases h
    · cases h
    rename_i value d' hvalue
    cases h
    exact .key hread hk hpath hvalue
  · rename_i hcomment htable harray hkey
    split at h
    · cases h
    rename_i hcurrent
    cases h
    refine .stray hread ?_ hcurrent
    unfold isStray
    split
    · rename_i hk; exact absurd hk hcomment
    · rename_i hk; exact absurd hk htable
    · rename_i hk; exact absurd hk harray
    · rename_i hk; exact absurd hk hkey
    · rfl

theorem parseTurn_done {d : Document} (h : parseTurn s = .done (.ok d)) :
    d = s.doc ∧ ∃ d', s.dec.readToken = (.error .eof, d') := by
  unfold parseTurn at h
  split at h
  · rename_i d' hread
    cases h
    exact ⟨rfl, d', hread⟩
  · cases h
  · cases h
  · split at h
    · cases h
    · unfold headerTurn at h
      split at h <;> cases h
    · unfold headerTurn at h
      split at h <;> cases h
    · unfold keyTurn at h
      split at h
      · cases h
      · split at h <;> cases h
    · split at h <;> cases h

/-- Induction along a parse that succeeds. -/
theorem parse_induction {P : ParseState → Prop} {d : Document} (h : parse data = .ok d)
    (start : P (parseStart data)) (step : ∀ {s s'}, ParseStep s s' → P s → P s') :
    ∃ s, P s ∧ s.doc = d ∧ ∃ d', s.dec.readToken = (.error .eof, d') := by
  unfold parse at h
  split at h
  · rename_i r hl
    refine Loop.loop_induction
      (motive := fun s r => P s → r = .ok d →
        ∃ s, P s ∧ s.doc = d ∧ ∃ d', s.dec.readToken = (.error .eof, d')) ?_ ?_ hl start h
    · intro s r hb hs hr
      subst hr
      obtain ⟨rfl, hend⟩ := parseTurn_done hb
      exact ⟨s, hs, rfl, hend⟩
    · intro s s' r hb _ _ ih hs hr
      exact ih (step (parseTurn_again hb) hs) hr
  · cases h

/-! ## The invariant -/

theorem lineStart_le (start : Nat) (before : Bytes) : lineStart start before ≤ start :=
  Nat.sub_le ..

theorem lineRest_le (s : Bytes) : lineRest s ≤ s.length := by
  induction s with
  | nil => exact Nat.le_refl 0
  | cons b t ih =>
    rw [lineRest]
    split
    · simp
    split
    · split
      · rename_i hlf
        cases t with
        | nil => cases hlf
        | cons c t => simp
      · simp
    · simpa using ih

/-- A line ends with `eol` in front of `rest`. -/
def LineEnd (eol rest : Bytes) : Prop :=
  eol = [0x0A] ∨ eol = [0x0D, 0x0A] ∨ (eol = [0x0D] ∧ rest.head? ≠ some 0x0A) ∨ (eol = [] ∧ rest = [])

/-- The key of an entry stands at `start`, before the value. -/
def KeyAt (raw : Bytes) (start : Nat) (entry : DocumentEntry) : Prop :=
  ∃ key current keyPath, key <+: raw.drop start ∧ start + key.length ≤ entry.valueSpan.1 ∧
    parseDottedPathKey key = .ok keyPath ∧ entry.pathKey = joinPathKeys current keyPath

/-- An entry whose value lies between `low` and `high`. -/
structure EntryWithin (raw : Bytes) (low high : Nat) (entry : DocumentEntry) : Prop where
  low : low ≤ entry.valueSpan.1
  nonempty : entry.valueSpan.1 < entry.valueSpan.2
  high : entry.valueSpan.2 ≤ high
  lineLow : entry.lineSpan.1 ≤ entry.valueSpan.1
  lineHigh : entry.valueSpan.2 ≤ entry.lineSpan.2
  bounded : entry.lineSpan.2 ≤ raw.length
  value : entry.value = none
  text : entry.valueRaw = Splice.slice raw entry.valueSpan.1 entry.valueSpan.2
  line : ∃ start, KeyAt raw start entry ∧ entry.lineSpan = lineSpan raw start entry.valueSpan.2

/-- **What the parser has noted of a text it has read up to `off`.** -/
structure Noted (d : Document) (off : Nat) : Prop where
  within : ∀ entry ∈ d.entries, EntryWithin d.raw 0 off entry
  order : d.entries.Pairwise (fun a b => a.valueSpan.2 ≤ b.valueSpan.1)
  /-- `byPath` has the last entry of each path key -/
  byPath : ∀ k idx, get? d.byPath k = some idx →
    (∃ entry, d.entries[idx]? = some entry ∧ entry.pathKey = k) ∧
      ∀ j entry, d.entries[j]? = some entry → entry.pathKey = k → j ≤ idx
  present : ∀ entry ∈ d.entries, (get? d.byPath entry.pathKey).isSome
  replacements : d.replacements = []
  deletions : d.deletions = []
  insertions : d.insertions = []
  pending : d.pending = []

theorem EntryWithin.mono {raw : Bytes} {low low' high high' : Nat} (h : EntryWithin raw low high entry)
    (hlow : low' ≤ low) (hhigh : high ≤ high') : EntryWithin raw low' high' entry :=
  { h with low := Nat.le_trans hlow h.low, high := Nat.le_trans h.high hhigh }

theorem Noted.mono {d : Document} {off off' : Nat} (h : Noted d off) (hle : off ≤ off') : Noted d off' :=
  { h with within := fun entry he => (h.within entry he).mono (Nat.le_refl 0) hle }

theorem Noted.addEntry {d : Document} {off off' : Nat} (h : Noted d off) (he : EntryWithin d.raw off off' entry) :
    Noted (d.addEntry entry) off' where
  within := by
    intro e hmem
    rcases mem_append.mp hmem with hmem | hmem
    · exact (h.within e hmem).mono (Nat.le_refl 0)
        (by have := he.low; have := he.nonempty; have := he.high; omega)
    rw [mem_singleton] at hmem
    subst hmem
    exact he.mono (Nat.zero_le off) (Nat.le_refl off')
  order := by
    refine pairwise_append.mpr ⟨h.order, pairwise_singleton _ _, ?_⟩
    intro a ha b hb
    rw [mem_singleton] at hb
    subst hb
    exact Nat.le_trans (h.within a ha).high he.low
  byPath := by
    intro k idx hget
    show (∃ e, (d.entries ++ [entry])[idx]? = some e ∧ e.pathKey = k) ∧ _
    change get? (mapPut d.byPath entry.pathKey d.entries.length) k = some idx at hget
    by_cases hk : k = entry.pathKey
    · subst hk
      rw [get?_mapPut_self] at hget
      cases hget
      refine ⟨⟨entry, by simp, rfl⟩, ?_⟩
      intro j e hj _
      have hlt := (List.getElem?_eq_some_iff.mp hj).1
      simp only [Document.addEntry, length_append, length_singleton] at hlt
      omega
    · rw [get?_mapPut_ne hk] at hget
      obtain ⟨⟨e, hidx, he'⟩, hlast⟩ := h.byPath k idx hget
      have hlt := (List.getElem?_eq_some_iff.mp hidx).1
      refine ⟨⟨e, by rw [getElem?_append_left hlt]; exact hidx, he'⟩, ?_⟩
      intro j e₁ hj hkey
      by_cases hjlt : j < d.entries.length
      · change (d.entries ++ [entry])[j]? = some e₁ at hj
        rw [getElem?_append_left hjlt] at hj
        exact hlast j e₁ hj hkey
      · -- the new entry has another path key
        change (d.entries ++ [entry])[j]? = some e₁ at hj
        rw [getElem?_append_right (by omega)] at hj
        have hmem := mem_of_getElem? hj
        rw [mem_singleton] at hmem
        exact absurd (hmem ▸ hkey).symm hk
  present := by
    intro e hmem
    change (get? (mapPut d.byPath entry.pathKey d.entries.length) e.pathKey).isSome = true
    by_cases hk : e.pathKey = entry.pathKey
    · rw [hk, get?_mapPut_self]; rfl
    rw [get?_mapPut_ne hk]
    rcases mem_append.mp hmem with hmem | hmem
    · exact h.present e hmem
    · rw [mem_singleton] at hmem
      exact absurd (by rw [hmem]) hk
  replacements := h.replacements
  deletions := h.deletions
  insertions := h.insertions
  pending := h.pending

theorem entryForPathKey_some {d : Document} {k : Bytes} {idx : Nat}
    (h : d.entryForPathKey k = some (idx, entry)) :
    get? d.byPath k = some idx ∧ d.entries[idx]? = some entry := by
  unfold entryForPathKey at h
  split at h
  · cases h
  rename_i i hget
  obtain ⟨e, he, hpair⟩ := Option.map_eq_some_iff.mp h
  cases hpair
  exact ⟨hget, he⟩

/-- The decoder reads the text of the document, and what is noted lies before its offset. -/
structure Noting (s : ParseState) : Prop where
  buf : s.dec.buf = s.doc.raw
  flags : Flags s.dec
  noted : Noted s.doc s.dec.off

theorem entryOf_within {raw : Bytes} {d₁ : Decoder} {current keyPath : Bytes} {v : RawValue}
    (hbuf : d.buf = raw) (hread : d.readToken = (.ok tok, d₁)) (hpath : parseDottedPathKey tok.bytes = .ok keyPath)
    (hvalue : ReadsValue raw d₁ v d') (hd : d'.off ≤ raw.length) :
    EntryWithin raw d.off d'.off (entryOf raw tok (joinPathKeys current keyPath) v) := by
  obtain ⟨h₁, h₂, h₃⟩ := rawTokenSpan_bounds hread
  obtain ⟨h₄, h₅, h₆⟩ := hvalue.bounds
  have hstart := lineStart_le (rawTokenSpan tok).1 (raw.take (rawTokenSpan tok).1).reverse
  have hrest := lineRest_le (raw.drop v.span.2)
  rw [length_drop] at hrest
  have hkey : KeyAt raw (rawTokenSpan tok).1 (entryOf raw tok (joinPathKeys current keyPath) v) := by
    obtain ⟨htext, hspan⟩ := rawTokenSpan_text hread
    rw [hbuf] at htext
    exact ⟨tok.bytes, current, keyPath, htext, by rw [← hspan]; exact Nat.le_trans h₃ h₄, hpath, rfl⟩
  refine ⟨?_, h₅, h₆, ?_, Nat.le_add_right .., ?_, rfl, hvalue.raw, _, hkey, rfl⟩
  · show d.off ≤ v.span.1
    omega
  · show lineStart (rawTokenSpan tok).1 (raw.take (rawTokenSpan tok).1).reverse ≤ v.span.1
    omega
  · show v.span.2 + lineRest (raw.drop v.span.2) ≤ raw.length
    omega

theorem reads_buf (h : Reads d toks d') : d'.buf = d.buf := by
  induction h with
  | nil d => rfl
  | @cons d d₁ d' tok toks hread _ ih =>
    rw [ih]
    have := readToken_buf d
    rw [hread] at this
    exact this

theorem Noting.token (h : Noting s) (hread : s.dec.readToken = (.ok tok, d)) (pathKey : Bytes) :
    Noting { s with dec := d, currentPathKey := pathKey } where
  buf := (reads_buf (.single hread)).trans h.buf
  flags := (Reads.single hread).flags h.flags
  noted := h.noted.mono (Nat.le_of_lt (readToken_off_lt hread))

theorem ParseStep.noting {s' : ParseState} (hs : ParseStep s s') (h : Noting s) : Noting s' := by
  cases hs with
  | comment hread _ | header hread _ _ | stray hread _ _ => exact h.token hread _
  | @key tok d d' pathKey value hread _ hpath hvalue =>
    have hreads := readValue_reads hvalue
    obtain ⟨comments, first, toks, htoks, -⟩ := hreads.tokens
    have hall := (Reads.single hread).append htoks
    have hbuf : d'.buf = s.doc.raw := (reads_buf hall).trans h.buf
    have hflags : Flags d' := hall.flags h.flags
    have hoff : d'.off ≤ s.doc.raw.length := hbuf ▸ hflags.bounded
    exact ⟨hbuf, hflags, h.noted.addEntry (entryOf_within h.buf hread hpath hreads hoff)⟩

theorem parseStart_noting (data : Bytes) : Noting (parseStart data) where
  buf := newDecoderBytes_buf data _
  flags := newDecoderBytes_flags data _
  noted :=
    { within := fun _ h => (by cases h)
      order := .nil
      byPath := fun _ _ h => (by cases h)
      present := fun _ h => (by cases h)
      replacements := rfl, deletions := rfl, insertions := rfl, pending := rfl }

theorem ParseStep.raw {s' : ParseState} (hs : ParseStep s s') : s'.doc.raw = s.doc.raw := by
  cases hs with
  | comment | header | key | stray => rfl

/-- **What a parsed document has noted.** -/
theorem parse_noted {d : Document} (h : parse data = .ok d) : d.raw = data ∧ Noted d data.length := by
  obtain ⟨s, ⟨hs, hraw⟩, rfl, -⟩ := parse_induction
    (P := fun s => Noting s ∧ s.doc.raw = data) h ⟨parseStart_noting data, rfl⟩
    (fun hstep hs => ⟨hstep.noting hs.1, hstep.raw.trans hs.2⟩)
  have hoff : s.dec.off ≤ data.length := hraw ▸ hs.buf ▸ hs.flags.bounded
  exact ⟨hraw, hs.noted.mono hoff⟩

end Document

end Pandaemonium.Toml
